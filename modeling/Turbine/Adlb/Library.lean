import Turbine.Tcl.Api

/-! The ADLB data library as the extension uses it: data types, binary layout of containers and
structs, and the contract of its packing functions. -/

namespace Turbine.Adlb

open Tcl

inductive DataType
  | null
  | integer
  | float
  | string
  | blob
  | container
  | multiset
  | ref
  | struct
deriving DecidableEq

/-- `adlb_type_extra`: `null` stands for a record that is not valid. -/
inductive TypeExtra
  | null
  | container (keyType valType : DataType)
  | multiset (valType : DataType)
  | struct (structType : ℤ)
deriving DecidableEq

/-- `adlb_datum_storage`. A string keeps its terminating zero byte. -/
inductive Datum (D : Type)
  | integer (v : Int64)
  | ref (id : Int64) (readRefs writeRefs : ℤ)
  | float (v : D)
  | string (value : Bytes)
  | blob (value : Bytes)
  | struct (type : ℤ) (fields : List (Option (Datum D)))

/-- A pointer into a buffer with a length: it cannot leave the buffer. -/
@[ext]
structure Span (data : Bytes) where
  pos : ℕ
  len : ℕ
  le : pos + len ≤ data.length

def Span.bytes {data : Bytes} (s : Span data) : Bytes := (data.drop s.pos).take s.len

@[simp] lemma Span.length_bytes {data : Bytes} (s : Span data) : s.bytes.length = s.len := by
  have := s.le
  simp [Span.bytes]
  omega

lemma Span.drop_pos {data : Bytes} (s : Span data) :
    data.drop s.pos = s.bytes ++ data.drop (s.pos + s.len) := by
  rw [Span.bytes, ← List.drop_drop, List.take_append_drop]

/-- What `ADLB_Unpack_container_entry` returns: key and value, each shorter than the buffer they
lie in because of their length prefixes, and the advanced position. -/
structure ContainerEntry (data : Bytes) where
  key : Span data
  val : Span data
  next : ℕ
  val_lt : val.len < data.length

structure MultisetEntry (data : Bytes) where
  elem : Span data
  next : ℕ
  elem_lt : elem.len < data.length

inductive UnpackCode (data : Bytes)
  | done
  | error
  | success (entry : Span data) (next : ℕ)

structure DataLib (D : Type) where
  dataMax : ℕ
  vintMaxBytes : ℕ
  vintEncode : ℕ → Bytes
  packPadSize : DataType → Bool
  typeName : DataType → String
  typeCode : DataType → ℤ
  containerHdr : ℤ → DataType → DataType → Bytes
  multisetHdr : ℤ → DataType → Bytes
  pack : Datum D → DataType → Option Bytes
  unpackContainerHdr : Bytes → ℕ → Option (ℤ × DataType × DataType × ℕ)
  unpackMultisetHdr : Bytes → ℕ → Option (ℤ × DataType × ℕ)
  unpackContainerEntry : DataType → DataType → (data : Bytes) → ℕ → Option (ContainerEntry data)
  unpackMultisetEntry : DataType → (data : Bytes) → ℕ → Option (MultisetEntry data)
  unpackBuffer : DataType → (data : Bytes) → ℕ → UnpackCode data
  unpackInteger : Bytes → Option Int64
  unpackRef : Bytes → Option Int64
  unpackFloat : Bytes → Option D
  unpackString : Bytes → Option Bytes
  unpackBlob : Bytes → Option Bytes
  structHdrSize : ℕ
  fieldOffsetSize : ℕ
  structType : Bytes → ℤ
  fieldOffset : Bytes → ℕ → BitVec 64

/-- `adlb_struct_field_type`. -/
structure FieldType where
  type : DataType
  extra : TypeExtra
deriving DecidableEq

structure StructDecl where
  name : Bytes
  fields : List (Bytes × FieldType)

/-- The declared struct types, with the Tcl objects kept for their field names. Types are `int`s
from 0 on. A field's struct type was declared before the struct, which the rank records. -/
structure StructTable (Obj : Type) where
  lookup : ℤ → Option StructDecl
  lookup_int : ∀ st d, lookup st = some d → 0 ≤ st ∧ st < 2 ^ 31
  nameObjs : List (Option (List Obj))
  rank : ℤ → ℕ
  rank_lt : ∀ st d, lookup st = some d → ∀ f ∈ d.fields, f.2.type = .struct →
    ∀ st', f.2.extra = .struct st' → rank st' < rank st

/-- What the extension works with: the Tcl library, the ADLB library and the declared structs. The
field name objects of a struct are the ones made when it was declared. -/
structure Env (Obj D : Type) where
  tcl : TclApi Obj D
  adlb : DataLib D
  structs : StructTable Obj
  names_text : ∀ st d objs, structs.lookup st = some d →
    structs.nameObjs[st.toNat]? = some (some objs) →
    objs.map tcl.getString = d.fields.map Prod.fst

variable {D : Type}

namespace DataLib

variable (adlb : DataLib D)

/-- `ADLB_Resize_buf` and a copy to the output position: sizes are of type `size_t`. -/
def appendBytes (out piece : Bytes) : Option Bytes :=
  if out.length + piece.length < 2 ^ 64 then some (out ++ piece) else none

/-- The length prefix of a datum, filled up to a fixed size for the types that are padded. -/
def lenPrefix (type : DataType) (n : ℕ) : Bytes :=
  let v := adlb.vintEncode n
  if adlb.packPadSize type then v ++ List.replicate (adlb.vintMaxBytes - v.length) 0 else v

def appendBuffer (type : DataType) (data : Bytes) (prefixLen : Bool) (out : Bytes) :
    Option Bytes :=
  appendBytes out ((if prefixLen then adlb.lenPrefix type data.length else []) ++ data)

def packContainerHdr (entries : ℤ) (keyType valType : DataType) (out : Bytes) : Option Bytes :=
  appendBytes out (adlb.containerHdr entries keyType valType)

def packMultisetHdr (entries : ℤ) (elemType : DataType) (out : Bytes) : Option Bytes :=
  appendBytes out (adlb.multisetHdr entries elemType)

end DataLib

lemma appendBytes_eq_some {out piece out' : Bytes} :
    DataLib.appendBytes out piece = some out' ↔
      out' = out ++ piece ∧ out.length + piece.length < 2 ^ 64 := by
  unfold DataLib.appendBytes
  split <;> simp_all [eq_comm]

end Turbine.Adlb
