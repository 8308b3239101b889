import Turbine.Adlb.Library

/-! The documented behaviour of the ADLB packing functions that the codec relies on. -/

namespace Turbine.Adlb

open Tcl

variable {D : Type}

/-- Padding, length prefixes, headers and entries: what is packed is unpacked again. -/
structure DataLib.Lawful (adlb : DataLib D) : Prop where
  dataMax_lt : adlb.dataMax < 2 ^ 31
  packPadSize_iff : ∀ t, adlb.packPadSize t = true ↔ t = .container ∨ t = .multiset
  vintEncode_le : ∀ n, n < 2 ^ 64 → (adlb.vintEncode n).length ≤ adlb.vintMaxBytes
  unpack_containerHdr : ∀ (n : ℕ) k v rest, n < 2 ^ 31 →
    adlb.unpackContainerHdr (adlb.containerHdr n k v ++ rest) 0 =
      some ((n : ℤ), k, v, (adlb.containerHdr n k v).length)
  unpack_multisetHdr : ∀ (n : ℕ) t rest, n < 2 ^ 31 →
    adlb.unpackMultisetHdr (adlb.multisetHdr n t ++ rest) 0 =
      some ((n : ℤ), t, (adlb.multisetHdr n t).length)
  unpack_containerEntry : ∀ kt vt (pre k v rest data : Bytes),
    k.length < 2 ^ 64 → v.length < 2 ^ 64 →
    data = pre ++ (adlb.lenPrefix kt k.length ++ k ++ (adlb.lenPrefix vt v.length ++ v)) ++ rest →
    ∃ entry, adlb.unpackContainerEntry kt vt data pre.length = some entry ∧
      entry.key.bytes = k ∧ entry.val.bytes = v ∧ entry.next + rest.length = data.length
  unpack_multisetEntry : ∀ t (pre v rest data : Bytes), v.length < 2 ^ 64 →
    data = pre ++ (adlb.lenPrefix t v.length ++ v) ++ rest →
    ∃ entry, adlb.unpackMultisetEntry t data pre.length = some entry ∧
      entry.elem.bytes = v ∧ entry.next + rest.length = data.length
  unpack_buffer : ∀ t (pre v rest data : Bytes), v.length < 2 ^ 64 →
    data = pre ++ (adlb.lenPrefix t v.length ++ v) ++ rest →
    ∃ entry next, adlb.unpackBuffer t data pre.length = .success entry next ∧
      entry.bytes = v ∧ next + rest.length = data.length
  unpack_buffer_end : ∀ t (data : Bytes), adlb.unpackBuffer t data data.length = .done
  unpack_integer : ∀ v b, adlb.pack (.integer v) .integer = some b → adlb.unpackInteger b = some v
  unpack_ref : ∀ id r w b, adlb.pack (.ref id r w) .ref = some b → adlb.unpackRef b = some id
  unpack_float : ∀ v b, adlb.pack (.float v) .float = some b → adlb.unpackFloat b = some v
  unpack_string : ∀ s b, adlb.pack (.string s) .string = some b → adlb.unpackString b = some s
  unpack_blob : ∀ s b, adlb.pack (.blob s) .blob = some b → adlb.unpackBlob b = some s

variable {adlb : DataLib D}

lemma DataLib.Lawful.lenPrefix_scalar (h : adlb.Lawful) {t : DataType}
    (ht : t ≠ .container ∧ t ≠ .multiset) (n : ℕ) :
    adlb.lenPrefix t n = adlb.lenPrefix .null n := by
  have hf : ∀ s : DataType, s ≠ .container ∧ s ≠ .multiset → adlb.packPadSize s = false := by
    intro s hs
    rw [Bool.eq_false_iff, Ne, h.packPadSize_iff]
    exact fun hc => hc.elim hs.1 hs.2
  simp [DataLib.lenPrefix, hf t ht, hf .null (by simp)]

lemma DataLib.Lawful.packPadSize_scalar (h : adlb.Lawful) {t : DataType}
    (ht : t ≠ .container ∧ t ≠ .multiset) : adlb.packPadSize t = false := by
  rw [Bool.eq_false_iff, Ne, h.packPadSize_iff]
  exact fun hc => hc.elim ht.1 ht.2

section Struct

def Datum.dataType : Datum D → DataType
  | .integer _ => .integer
  | .ref _ _ _ => .ref
  | .float _ => .float
  | .string _ => .string
  | .blob _ => .blob
  | .struct _ _ => .struct

/-- One field in a packed struct: its validity byte, then its packed data if it has a value. -/
def FieldPiece (adlb : DataLib D) : Option (Datum D) → Bytes → Prop
  | none, p => p = [0]
  | some d, p => ∃ valid b, valid ≠ 0 ∧ adlb.pack d d.dataType = some b ∧ p = valid :: b

def DataLib.structHdrLen (adlb : DataLib D) (fieldCount : ℕ) : ℕ :=
  adlb.structHdrSize + adlb.fieldOffsetSize * fieldCount

/-- A packed struct is its type, the offsets of its fields in ascending order and the fields. -/
structure DataLib.StructLawful (adlb : DataLib D) : Prop where
  pack_isSome : ∀ d, (adlb.pack d d.dataType).isSome
  struct_layout : ∀ st fields b, 0 ≤ st ∧ st < 2 ^ 31 →
    adlb.pack (.struct st fields) .struct = some b → b.length < 2 ^ 64 →
    ∃ pieces, List.Forall₂ (FieldPiece adlb) fields pieces ∧ adlb.structType b = st ∧
      b.length = adlb.structHdrLen fields.length + pieces.flatten.length ∧
      b.drop (adlb.structHdrLen fields.length) = pieces.flatten ∧
      ∀ i < fields.length, (adlb.fieldOffset b i).toNat =
        adlb.structHdrLen fields.length + (pieces.take i).flatten.length

end Struct

end Turbine.Adlb
