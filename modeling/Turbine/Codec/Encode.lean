import Turbine.Adlb.Library

/-! From Tcl values to binary data: `adlb_tclobj2datum`, the encoders that append to a buffer and
the two entry points `adlb_tclobj2bin` and `adlb_tclobj2bin_compound`. An output buffer with its
position is the list of the bytes written so far. -/

namespace Turbine.Codec

open Tcl Adlb

variable {Obj D : Type} (E : Env Obj D)

/-- The full type of a data structure: the nested types and the extra record of each. -/
structure CompoundType where
  types : List DataType
  extras : Option (List TypeExtra)
  extras_length : ∀ l, extras = some l → l.length = types.length

def CompoundType.len (types : CompoundType) : ℕ := types.types.length

/-- Consumes the next entry: its type, its extra record and the position after it. -/
def compoundTypeNext (types : CompoundType) (ctypePos : ℕ) :
    TclResult (DataType × TypeExtra × ℕ) :=
  match types.types[ctypePos]? with
  | none => .error ["Consumed past end of compound type info (" ++ toString ctypePos ++ "/" ++
      toString types.len ++ ")"]
  | some type => .ok (type, (types.extras.bind fun l => l[ctypePos]?).getD .null, ctypePos + 1)

/-- The declared structs nested below a value of this type. -/
def structDepth (structs : StructTable Obj) : DataType → TypeExtra → ℕ
  | .struct, .struct st => structs.rank st + 1
  | _, _ => 0

/-- The loop of `tcl_dict_to_adlb_struct` over the fields; a field without a value stays
uninitialized. -/
def structFieldData (datum : DataType → TypeExtra → Obj → TclResult (Datum D)) (dict : Obj) :
    List (Bytes × FieldType) → List Obj → TclResult (List (Option (Datum D)))
  | [], _ => .ok []
  | _ :: _, [] => .undefined
  | (name, ft) :: fields, nameObj :: nameObjs => do
    let d ← TclResult.require (E.tcl.getDict dict)
      ("Could not find val for " ++ showBytes name ++ " (or " ++
        showBytes (E.tcl.getString nameObj) ++ ") in " ++ showBytes (E.tcl.getString dict))
    let field ← match E.tcl.dictGet d nameObj with
      | some val => some <$> datum ft.type ft.extra val
      | none => .ok none
    let rest ← structFieldData datum dict fields nameObjs
    .ok (field :: rest)

/-- The field name objects of a struct type, behind the two assertions about them. -/
def fieldNameObjs (st : ℤ) : TclResult (List Obj) := do
  TclResult.assert (st < E.structs.nameObjs.length) "st < field_name_objs.size"
  match E.structs.nameObjs[st.toNat]? with
  | some (some objs) => .ok objs
  | some none => .abort "field_names2 != NULL"
  | none => .undefined

lemma fieldNameObjs_eq_ok {E : Env Obj D} {st : ℤ} {objs : List Obj} :
    fieldNameObjs E st = .ok objs ↔ st < E.structs.nameObjs.length ∧
      E.structs.nameObjs[st.toNat]? = some (some objs) := by
  unfold fieldNameObjs
  rw [TclResult.bind_eq_ok]
  split <;> simp_all [TclResult.assert_eq_ok]

def tclDictToAdlbStruct (datum : DataType → TypeExtra → Obj → TclResult (Datum D)) (dict : Obj)
    (structType : ℤ) : TclResult (Datum D) := do
  let decl ← TclResult.require (E.structs.lookup structType)
    ("Error looking up struct type " ++ toString structType)
  let objs ← fieldNameObjs E structType
  let fields ← structFieldData E datum dict decl.fields objs
  .ok (.struct structType fields)

/-- A field's struct type has a smaller rank, so the last branch is not taken. -/
def adlbTclobj2datum (type : DataType) (extra : TypeExtra) (obj : Obj) : TclResult (Datum D) :=
  match type with
  | .integer => do
    let v ← TclResult.require (E.tcl.getWideInt obj)
      ("adlb extract int from " ++ showBytes (E.tcl.getString obj) ++ " failed!")
    .ok (.integer v)
  | .ref => do
    let id ← TclResult.require (E.tcl.getWideInt obj)
      ("adlb extract int from " ++ showBytes (E.tcl.getString obj) ++ " failed!")
    .ok (.ref id 0 0)
  | .float => do
    let v ← TclResult.require (E.tcl.getDouble obj)
      ("adlb extract double from " ++ showBytes (E.tcl.getString obj) ++ " failed!")
    .ok (.float v)
  | .string => do
    -- the length accounts for the null byte
    let value := E.tcl.getString obj ++ [0]
    TclResult.condition (value.length ≤ E.adlb.dataMax)
      ("adlb: string too long (" ++ toString value.length ++ " bytes)")
    .ok (.string value)
  | .blob => do
    let value ← TclResult.require (E.tcl.getBlob obj)
      ("Error interpreting " ++ showBytes (E.tcl.getString obj) ++ " as blob list")
    .ok (.blob value)
  | .struct =>
    match extra with
    | .struct st => tclDictToAdlbStruct E (fun t e o =>
        if structDepth E.structs t e < structDepth E.structs .struct (.struct st) then
          adlbTclobj2datum t e o
        else .undefined) obj st
    | _ => .error ["Must specify struct type to convert dict to struct"]
  | .container => .error ["Type " ++ E.adlb.typeName .container ++
      " should be packed directly to binary\n"]
  | .multiset => .error ["Type " ++ E.adlb.typeName .multiset ++
      " should be packed directly to binary\n"]
  | .null => .error []
termination_by structDepth E.structs type extra

/-- What an encoder calls for a nested value: type position, value, whether to prefix the length
and the buffer. -/
abbrev Append (Obj : Type) := ℕ → Obj → Bool → Bytes → TclResult Bytes

def tclAppendKeyVal (append : Append Obj) (ctypePos : ℕ) (keyType : DataType) (key val : Obj)
    (out : Bytes) : TclResult Bytes := do
  -- the string of the key is packed directly, with its terminator
  let out ← TclResult.require
    (E.adlb.appendBuffer keyType (E.tcl.getString key ++ [0]) true out) "Error appending to buffer"
  -- the value type needs to be first for the recursive call
  (append (ctypePos - 1) val true out).addInfo "Error serializing dict val"

def tclDictToPackedContainer (append : Append Obj) (types : CompoundType) (ctypePos : ℕ)
    (dict : Obj) (canonicalize : Bool) (out : Bytes) : TclResult Bytes := do
  let d ← TclResult.check (E.tcl.getDict dict)
  let (keyType, _, ctypePos) ← compoundTypeNext types ctypePos
  let (valType, _, ctypePos) ← compoundTypeNext types ctypePos
  let out ← TclResult.require (E.adlb.packContainerHdr d.length keyType valType out)
    "Error packing container header"
  if canonicalize then
    (E.tcl.lsort (d.map Prod.fst)).foldlM (fun out key =>
      match E.tcl.dictGet d key with
      | some val => (tclAppendKeyVal E append ctypePos keyType key val out).addInfo
          "Error appending key/val"
      | none => .undefined) out
  else
    d.foldlM (fun out e => (tclAppendKeyVal E append ctypePos keyType e.1 e.2 out).addInfo
      "Error appending key/val") out

def tclListToPackedMultiset (append : Append Obj) (types : CompoundType) (ctypePos : ℕ)
    (list : Obj) (canonicalize : Bool) (out : Bytes) : TclResult Bytes := do
  let l ← TclResult.check (E.tcl.getList list)
  let l := if canonicalize then E.tcl.lsort l else l
  let (elemType, _, ctypePos) ← compoundTypeNext types ctypePos
  let out ← TclResult.require (E.adlb.packMultisetHdr l.length elemType out)
    "Error serializing multiset header"
  -- the value type needs to be first for the recursive call
  l.foldlM (fun out elem => (append (ctypePos - 1) elem true out).addInfo
    "Error serializing multiset elem") out

/-- Bytes `bytes` written over what the buffer holds from `start` on. -/
def overwrite (out : Bytes) (start : ℕ) (bytes : Bytes) : Bytes :=
  out.take start ++ bytes ++ out.drop (start + bytes.length)

/-- A nested value's types come later in the list, so the last branch of the recursive call is not
taken. -/
def adlbTclobjBinAppend (types : CompoundType) (ctypePos : ℕ) (obj : Obj)
    (prefixLen canonicalize : Bool) (out : Bytes) : TclResult Bytes := do
  let append : Append Obj := fun pos o prefixLen out =>
    if ctypePos < pos ∧ ctypePos < types.len then
      adlbTclobjBinAppend types pos o prefixLen canonicalize out
    else .undefined
  let (type, extra, next) ← compoundTypeNext types ctypePos
  if E.adlb.packPadSize type then
    let startPos := out.length
    -- room for the length, which is known once the value is appended
    let out ← if prefixLen then
        TclResult.require
          (DataLib.appendBytes out (List.replicate E.adlb.vintMaxBytes 0)) "Error resizing"
      else .ok out
    let out ← match type with
      | .container => tclDictToPackedContainer E append types next obj canonicalize out
      | .multiset => tclListToPackedMultiset E append types next obj canonicalize out
      | _ => .error ["Don't know how to incrementally append type: " ++ E.adlb.typeName type]
    if prefixLen then
      let packedLen := out.length - startPos - E.adlb.vintMaxBytes
      .ok (overwrite out startPos (E.adlb.vintEncode packedLen))
    else .ok out
  else
    let datum ← adlbTclobj2datum E type extra obj
    let packed ← TclResult.require (E.adlb.pack datum type)
      ("Error packing data type " ++ toString (E.adlb.typeCode type) ++ " into buffer")
    TclResult.require (E.adlb.appendBuffer .null packed prefixLen out) "Error resizing buffer"
termination_by types.len - ctypePos

def adlbTclobj2binCompound (types : CompoundType) (obj : Obj) (canonicalize : Bool) :
    TclResult Bytes :=
  adlbTclobjBinAppend E types 0 obj false canonicalize []

/-- The type list of `adlb_tclobj_bin_append2` has one entry. -/
def CompoundType.single (type : DataType) (extra : TypeExtra) : CompoundType where
  types := [type]
  extras := some [extra]
  extras_length := by simp

/-- The length is never prefixed: the source passes `false` on, whatever its own argument is. -/
def adlbTclobjBinAppend2 (type : DataType) (extra : TypeExtra) (obj : Obj)
    (_prefixLen canonicalize : Bool) (out : Bytes) : TclResult Bytes :=
  adlbTclobjBinAppend E (.single type extra) 0 obj false canonicalize out

def adlbTclobj2bin (type : DataType) (extra : TypeExtra) (obj : Obj) (canonicalize : Bool) :
    TclResult Bytes :=
  if type = .container ∨ type = .multiset then
    adlbTclobjBinAppend2 E type extra obj false canonicalize []
  else do
    let datum ← adlbTclobj2datum E type extra obj
    TclResult.require (E.adlb.pack datum type)
      ("Error packing data type " ++ toString (E.adlb.typeCode type) ++ " into buffer")

end Turbine.Codec
