import Turbine.Codec.Encode

/-! From binary data to Tcl values: `adlb_datum2tclobj` and the decoders of packed containers,
multisets and structs. -/

namespace Turbine.Codec

open Tcl Adlb

variable {Obj D : Type} (E : Env Obj D)

/-- What a decoder calls for a value nested in its buffer. -/
abbrev Nested (Obj : Type) (data : Bytes) :=
  DataType → TypeExtra → (s : Span data) → s.len < data.length → TclResult Obj

/-- How an entry loop ends when no call in it failed: at its end, with the position reached, or by
a jump to `exit_err` that leaves `rc` at `TCL_OK`. -/
inductive LoopExit (α : Type)
  | done (acc : α) (pos : ℕ)
  | exitErr (acc : α)

def LoopExit.acc {α : Type} : LoopExit α → α
  | .done acc _ => acc
  | .exitErr acc => acc

/-- The loop of `packed_container_to_dict`. `TCL_CONDITION_GOTO` does not set `rc`, which the calls
of the iterations before left at `TCL_OK`. -/
def containerEntries {data : Bytes} (nested : Nested Obj data) (keyType valType : DataType) :
    ℕ → ℕ → List (Obj × Obj) → TclResult (LoopExit (List (Obj × Obj)))
  | 0, pos, dict => .ok (.done dict pos)
  | n + 1, pos, dict =>
    match E.adlb.unpackContainerEntry keyType valType data pos with
    | none => .ok (.exitErr dict)
    | some entry => do
      let val ← (nested valType .null entry.val entry.val_lt).addInfo
        ("Error constructing Tcl object of type " ++ E.adlb.typeName valType ++
          " for packed container val")
      let key ← newStringObj E.tcl (data.drop entry.key.pos) (intPred entry.key.len)
      containerEntries nested keyType valType n entry.next (E.tcl.dictPut dict key val)

/-- `extra` is checked when it is valid. -/
def checkContainerExtra (extra : TypeExtra) (keyType valType : DataType) : TclResult Unit :=
  match extra with
  | .container expectedKey expectedVal => do
    TclResult.condition (valType = expectedVal) ("Packed value type doesn't match expected: " ++
      E.adlb.typeName valType ++ " vs. " ++ E.adlb.typeName expectedVal)
    TclResult.condition (keyType = expectedKey) ("Packed key type doesn't match expected: " ++
      E.adlb.typeName keyType ++ " vs. " ++ E.adlb.typeName expectedKey)
  | _ => .ok ()

def packedContainerToDict (data : Bytes) (extra : TypeExtra) (nested : Nested Obj data) :
    TclResult Obj := do
  let (entries, keyType, valType, pos) ← TclResult.require (E.adlb.unpackContainerHdr data 0)
    "Error parsing packed data header"
  checkContainerExtra E extra keyType valType
  let exit ← containerEntries E nested keyType valType entries.toNat pos []
  -- the check `pos == length` jumps to `exit_err` as well, where `rc` is `TCL_OK` either way
  .ok (E.tcl.newDict exit.acc)

def multisetEntries {data : Bytes} (nested : Nested Obj data) (elemType : DataType) :
    ℕ → ℕ → List Obj → TclResult (LoopExit (List Obj))
  | 0, pos, arr => .ok (.done arr pos)
  | n + 1, pos, arr =>
    match E.adlb.unpackMultisetEntry elemType data pos with
    | none => .ok (.exitErr arr)
    | some entry => do
      let elem ← (nested elemType .null entry.elem entry.elem_lt).addInfo
        "Error constructing Tcl object for packed multiset entry"
      multisetEntries nested elemType n entry.next (arr ++ [elem])

def checkMultisetExtra (extra : TypeExtra) (elemType : DataType) : TclResult Unit :=
  match extra with
  | .multiset expected =>
    TclResult.condition (elemType = expected) ("Packed element type doesn't match expected: " ++
      E.adlb.typeName elemType ++ " vs. " ++ E.adlb.typeName expected)
  | _ => .ok ()

/-- A jump to `exit_err` out of the loop leaves `rc` at `TCL_OK` as well, and the list is then built
from `entries` pointers of which the last were never set. -/
def packedMultisetToList (data : Bytes) (extra : TypeExtra) (nested : Nested Obj data) :
    TclResult Obj := do
  let (entries, elemType, pos) ← TclResult.require (E.adlb.unpackMultisetHdr data 0)
    "Error parsing packed data header"
  checkMultisetExtra E extra elemType
  TclResult.assert (0 ≤ entries) "entries >= 0"
  match ← multisetEntries E nested elemType entries.toNat pos [] with
  | .exitErr _ => .undefined
  | .done arr _ => .ok (E.tcl.newList arr)

/-- What `packed_struct_to_tcl_dict` touches: the validity byte at an index, or the slice it hands
to `adlb_datum2tclobj`. -/
inductive Access
  | validity (index : ℕ)
  | slice (offset length : ℕ)
deriving DecidableEq

def Access.InBounds (length : ℕ) : Access → Prop
  | .validity index => index < length
  | .slice offset n => offset + n ≤ length

/-- A computation on a buffer with the accesses it made before it ended. -/
abbrev Traced (α : Type) := List Access × TclResult α

/-- The slice of a present field: its offset and its length, both of type `size_t`. -/
def fieldSlice (data : Bytes) (i fieldCount : ℕ) : BitVec 64 × BitVec 64 :=
  let dataOffset := E.adlb.fieldOffset data i + 1
  (dataOffset,
    if i + 1 = fieldCount then BitVec.ofNat 64 data.length - dataOffset
    else E.adlb.fieldOffset data (i + 1) - dataOffset)

/-- The loop of `packed_struct_to_tcl_dict` from field `i` on. An access outside the buffer is
undefined behaviour, unless the assertion about the length of a slice comes first. -/
def structEntries {data : Bytes} (nested : Nested Obj data) (fieldCount : ℕ) :
    ℕ → List (Bytes × FieldType) → List Obj → List (Obj × Obj) → Traced (List (Obj × Obj))
  | _, [], _, dict => ([], .ok dict)
  | _, _ :: _, [], _ => ([], .undefined)
  | i, (name, ft) :: fields, nameObj :: nameObjs, dict =>
    let offset := (E.adlb.fieldOffset data i).toNat
    match data[offset]? with
    | none => ([.validity offset], .undefined)
    | some valid =>
      if valid = 0 then
        let rest := structEntries nested fieldCount (i + 1) fields nameObjs dict
        (.validity offset :: rest.1, rest.2)
      else
        let (dataOffset, fieldLength) := fieldSlice E data i fieldCount
        if (dataOffset + fieldLength).toNat ≤ data.length then
          let accesses := [.validity offset, .slice dataOffset.toNat fieldLength.toNat]
          if h : dataOffset.toNat + fieldLength.toNat ≤ data.length ∧
              fieldLength.toNat < data.length then
            let val := (nested ft.type ft.extra ⟨_, _, h.1⟩ h.2).addInfo
              ("Error building tcl object for field " ++ showBytes name)
            match val with
            | .ok val =>
              let rest := structEntries nested fieldCount (i + 1) fields nameObjs
                (E.tcl.dictPut dict nameObj val)
              (accesses ++ rest.1, rest.2)
            | .error info => (accesses, .error info)
            | .abort assertion => (accesses, .abort assertion)
            | .undefined => (accesses, .undefined)
          else (accesses, if fieldLength.toNat ≤ E.adlb.dataMax then .undefined
            else .abort "length <= ADLB_DATA_MAX")
        else ([.validity offset], .error ["invalid struct buffer: field " ++ showBytes name ++
          " past buffer end: " ++ toString dataOffset.toNat ++ "+" ++ toString fieldLength.toNat ++
          " vs " ++ toString data.length])

def checkStructExtra (extra : TypeExtra) (st : ℤ) : TclResult Unit :=
  match extra with
  | .struct expected => TclResult.condition (st = expected)
      ("Expected struct type " ++ toString expected ++ " but got " ++ toString st)
  | _ => .ok ()

/-- Header, declaration and field names of a packed struct, before its fields are read. -/
def packedStructHeader (data : Bytes) (extra : TypeExtra) :
    TclResult (List (Bytes × FieldType) × List Obj) := do
  TclResult.condition (E.adlb.structHdrSize ≤ data.length) "Not enough data for header"
  let st := E.adlb.structType data
  checkStructExtra extra st
  let decl ← TclResult.require (E.structs.lookup st)
    ("Error looking up struct type " ++ toString st)
  TclResult.condition
    (E.adlb.structHdrSize + E.adlb.fieldOffsetSize * decl.fields.length ≤ data.length)
    "Not enough data for header"
  let objs ← fieldNameObjs E st
  .ok (decl.fields, objs)

def packedStructToTclDict (data : Bytes) (extra : TypeExtra) (nested : Nested Obj data) :
    Traced Obj :=
  match packedStructHeader E data extra with
  | .ok (fields, objs) =>
    let result := structEntries E nested fields.length 0 fields objs []
    (result.1, E.tcl.newDict <$> result.2)
  | .error info => ([], .error info)
  | .abort assertion => ([], .abort assertion)
  | .undefined => ([], .undefined)

def adlbDatum2tclobj (type : DataType) (extra : TypeExtra) (data : Bytes) : TclResult Obj :=
  if data.length ≤ E.adlb.dataMax then
    match type with
    | .integer => do
      let v ← TclResult.require (E.adlb.unpackInteger data)
        "Retrieve failed due to error unpacking data"
      .ok (E.tcl.newWideInt v)
    | .ref => do
      let id ← TclResult.require (E.adlb.unpackRef data)
        "Retrieve failed due to error unpacking data"
      .ok (E.tcl.newWideInt id)
    | .float => do
      let v ← TclResult.require (E.adlb.unpackFloat data)
        "Retrieve failed due to error unpacking data"
      .ok (E.tcl.newDouble v)
    | .string => do
      let value ← TclResult.require (E.adlb.unpackString data)
        "Retrieve failed due to error unpacking data"
      newStringObj E.tcl value (intPred value.length)
    | .blob => do
      let value ← TclResult.require (E.adlb.unpackBlob data)
        "Retrieve failed due to error unpacking data"
      .ok (E.tcl.newBlob value)
    | .struct =>
      (packedStructToTclDict E data extra fun t e s _h => adlbDatum2tclobj t e s.bytes).2
    | .container =>
      packedContainerToDict E data extra fun t e s _h => adlbDatum2tclobj t e s.bytes
    | .multiset =>
      packedMultisetToList E data extra fun t e s _h => adlbDatum2tclobj t e s.bytes
    | .null => .error ["unsupported type: " ++ E.adlb.typeName .null ++ "(" ++
        toString (E.adlb.typeCode .null) ++ ")"]
  else .abort "length <= ADLB_DATA_MAX"
termination_by data.length
decreasing_by all_goals simpa using _h

/-- The decoders' view of nested values. -/
def nestedDatum (data : Bytes) : Nested Obj data := fun t e s _ => adlbDatum2tclobj E t e s.bytes

section Unfolding

variable {E} {extra : TypeExtra} {data : Bytes}

lemma adlbDatum2tclobj_container (h : data.length ≤ E.adlb.dataMax) :
    adlbDatum2tclobj E .container extra data =
      packedContainerToDict E data extra (nestedDatum E data) := by
  rw [adlbDatum2tclobj.eq_def, if_pos h]
  rfl

lemma adlbDatum2tclobj_multiset (h : data.length ≤ E.adlb.dataMax) :
    adlbDatum2tclobj E .multiset extra data =
      packedMultisetToList E data extra (nestedDatum E data) := by
  rw [adlbDatum2tclobj.eq_def, if_pos h]
  rfl

lemma adlbDatum2tclobj_struct (h : data.length ≤ E.adlb.dataMax) :
    adlbDatum2tclobj E .struct extra data =
      (packedStructToTclDict E data extra (nestedDatum E data)).2 := by
  rw [adlbDatum2tclobj.eq_def, if_pos h]
  rfl

lemma adlbDatum2tclobj_too_long {type : DataType} (h : ¬data.length ≤ E.adlb.dataMax) :
    adlbDatum2tclobj E type extra data = .abort "length <= ADLB_DATA_MAX" := by
  rw [adlbDatum2tclobj.eq_def, if_neg h]

end Unfolding

end Turbine.Codec
