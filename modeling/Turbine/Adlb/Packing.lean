import Turbine.Adlb.Laws
import Turbine.Tcl.Values

/-! A concrete packing library: lengths and headers as variable-length integers, numbers as words
with the low byte first, and structs with a table of the offsets of their fields. -/

namespace Turbine.Adlb

open Tcl Library

def vintMax : ℕ := 10

def packingDataMax : ℕ := 20 * 2 ^ 20

section Types

def DataType.code : DataType → ℕ
  | .null => 0
  | .integer => 1
  | .float => 2
  | .string => 3
  | .blob => 4
  | .container => 5
  | .multiset => 6
  | .struct => 7
  | .ref => 8

def DataType.ofCode : ℕ → Option DataType
  | 0 => some .null
  | 1 => some .integer
  | 2 => some .float
  | 3 => some .string
  | 4 => some .blob
  | 5 => some .container
  | 6 => some .multiset
  | 7 => some .struct
  | 8 => some .ref
  | _ => none

lemma DataType.ofCode_code (t : DataType) : DataType.ofCode t.code = some t := by
  cases t <;> rfl

def DataType.name : DataType → String
  | .null => "null"
  | .integer => "integer"
  | .float => "float"
  | .string => "string"
  | .blob => "blob"
  | .container => "container"
  | .multiset => "multiset"
  | .struct => "struct"
  | .ref => "ref"

def isPadded (t : DataType) : Bool := t = .container ∨ t = .multiset

end Types

section Lengths

/-- The variable-length integer at a position, with the position behind it. -/
def takeVint (data : Bytes) (pos : ℕ) : Option (ℕ × ℕ) :=
  (unvint (data.drop pos)).map fun r => (r.1, pos + r.2)

lemma takeVint_at {data : Bytes} (pre rest : Bytes) (n : ℕ) (h : data = pre ++ (vint n ++ rest)) :
    takeVint data pre.length = some (n, pre.length + (vint n).length) := by
  rw [takeVint, h, List.drop_left, unvint_vint, Option.map_some]

def takeType (data : Bytes) (pos : ℕ) : Option (DataType × ℕ) :=
  (takeVint data pos).bind fun r => (DataType.ofCode r.1).map fun t => (t, r.2)

lemma takeType_at {data : Bytes} (pre rest : Bytes) (t : DataType)
    (h : data = pre ++ (vint t.code ++ rest)) :
    takeType data pre.length = some (t, pre.length + (vint t.code).length) := by
  rw [takeType, takeVint_at _ _ _ h, Option.bind_some, DataType.ofCode_code, Option.map_some]

/-- A length, padded to its full size or not. -/
def lengthPrefix (padded : Bool) (n : ℕ) : Bytes :=
  if padded then vint n ++ List.replicate (vintMax - (vint n).length) 0 else vint n

/-- Data with their length in front, at a position of a buffer. -/
def takePiece (padded : Bool) (data : Bytes) (pos : ℕ) :
    Option {s : Span data // s.len < data.length} :=
  (takeVint data pos).bind fun r =>
    let start := if padded then pos + vintMax else r.2
    if h : 0 < start ∧ start + r.1 ≤ data.length then some ⟨⟨start, r.1, h.2⟩, by simp; omega⟩
    else none

lemma length_vint_le_max {n : ℕ} (h : n < 2 ^ 64) : (vint n).length ≤ vintMax :=
  length_vint_le (k := 9) (lt_trans h (by norm_num))

lemma length_lengthPrefix_pos (padded : Bool) (n : ℕ) : 0 < (lengthPrefix padded n).length := by
  have := length_vint_pos n
  unfold lengthPrefix
  split
  · rw [List.length_append]
    omega
  · exact this

lemma takePiece_at {padded : Bool} {data pre v rest : Bytes} (hv : v.length < 2 ^ 64)
    (h : data = pre ++ (lengthPrefix padded v.length ++ v) ++ rest) :
    ∃ s, takePiece padded data pre.length = some s ∧ s.1.bytes = v ∧
      s.1.pos + s.1.len + rest.length = data.length := by
  have hsplit : data = pre ++ (vint v.length ++ ((if padded then
      List.replicate (vintMax - (vint v.length).length) 0 else []) ++ v ++ rest)) := by
    rw [h, lengthPrefix]
    split <;> simp
  have hstart : (if padded then pre.length + vintMax else pre.length + (vint v.length).length) =
      (pre ++ lengthPrefix padded v.length).length := by
    have := length_vint_le_max hv
    rw [lengthPrefix, List.length_append]
    split
    · rw [List.length_append, List.length_replicate]
      omega
    · rfl
  have hlen := congrArg List.length h
  have hpos := length_lengthPrefix_pos padded v.length
  simp only [List.length_append] at hlen
  have hfits : 0 < (pre ++ lengthPrefix padded v.length).length ∧
      (pre ++ lengthPrefix padded v.length).length + v.length ≤ data.length := by
    rw [List.length_append]
    omega
  refine ⟨⟨⟨_, v.length, hfits.2⟩, by simp; omega⟩, ?_, ?_, ?_⟩
  · simp only [takePiece, takeVint_at _ _ _ hsplit, Option.bind_some, hstart]
    rw [dif_pos hfits]
  · simp only [Span.bytes]
    rw [h, ← List.append_assoc, List.append_assoc _ v, List.drop_left, List.take_left]
  · simp only [List.length_append]
    omega

end Lengths

section Data

def structHdr : ℕ := 8

def offsetSize : ℕ := 8

/-- The table with the position of each piece, when the first one starts here. -/
def offsetTable : ℕ → List Bytes → List Bytes
  | _, [] => []
  | start, p :: pieces => leBytes offsetSize start :: offsetTable (start + p.length) pieces

/-- The type, padded to the alignment of the offsets behind it. -/
def structHead (st : ℤ) : Bytes := leBytes 4 st.toNat ++ leBytes 4 0

def structBytes (st : ℤ) (pieces : List Bytes) : Bytes :=
  structHead st ++
    ((offsetTable (structHdr + offsetSize * pieces.length) pieces).flatten ++ pieces.flatten)

mutual

def packDatum : Datum UInt64 → Bytes
  | .integer v => leBytes 8 v.toUInt64.toNat
  | .ref id readRefs writeRefs =>
    leBytes 8 id.toUInt64.toNat ++ leBytes 4 readRefs.toNat ++ leBytes 4 writeRefs.toNat
  | .float v => leBytes 8 v.toNat
  | .string value => value
  | .blob value => value
  | .struct st fields => structBytes st (packFields fields)

def packFields : List (Option (Datum UInt64)) → List Bytes
  | [] => []
  | field :: fields => packField field :: packFields fields

/-- A validity byte, and the data behind it. -/
def packField : Option (Datum UInt64) → Bytes
  | none => [0]
  | some d => 1 :: packDatum d

end

def unpackWord (b : Bytes) : Option UInt64 :=
  if b.length = 8 then some (UInt64.ofNat (leNat b)) else none

lemma unpackWord_leBytes (v : UInt64) : unpackWord (leBytes 8 v.toNat) = some v := by
  rw [unpackWord, if_pos (length_leBytes 8 _), leNat_leBytes v.toNat_lt, UInt64.ofNat_toNat]

end Data

section Library

def packing : DataLib UInt64 where
  dataMax := packingDataMax
  vintMaxBytes := vintMax
  vintEncode := vint
  packPadSize := isPadded
  typeName := DataType.name
  typeCode t := t.code
  containerHdr n k v := vint k.code ++ (vint v.code ++ vint n.toNat)
  multisetHdr n t := vint t.code ++ vint n.toNat
  pack d t := if d.dataType = t then some (packDatum d) else none
  unpackContainerHdr data pos := do
    let (k, pos) ← takeType data pos
    let (v, pos) ← takeType data pos
    let (n, pos) ← takeVint data pos
    some (n, k, v, pos)
  unpackMultisetHdr data pos := do
    let (t, pos) ← takeType data pos
    let (n, pos) ← takeVint data pos
    some (n, t, pos)
  unpackContainerEntry k v data pos := do
    let key ← takePiece (isPadded k) data pos
    let val ← takePiece (isPadded v) data (key.1.pos + key.1.len)
    some ⟨key.1, val.1, val.1.pos + val.1.len, val.2⟩
  unpackMultisetEntry t data pos := do
    let elem ← takePiece (isPadded t) data pos
    some ⟨elem.1, elem.1.pos + elem.1.len, elem.2⟩
  unpackBuffer t data pos :=
    if pos = data.length then .done
    else match takePiece (isPadded t) data pos with
      | some s => .success s.1 (s.1.pos + s.1.len)
      | none => .error
  unpackInteger b := (unpackWord b).map UInt64.toInt64
  unpackRef b := if b.length = 16 then (unpackWord (b.take 8)).map UInt64.toInt64 else none
  unpackFloat b := unpackWord b
  unpackString b := some b
  unpackBlob b := some b
  structHdrSize := structHdr
  fieldOffsetSize := offsetSize
  structType b := leNat (b.take 4)
  fieldOffset b i := BitVec.ofNat 64 (leNat ((b.drop (structHdr + offsetSize * i)).take offsetSize))

lemma packing_pack {d : Datum UInt64} {t : DataType} {b : Bytes} (h : packing.pack d t = some b) :
    b = packDatum d := by
  simp only [packing] at h
  split at h
  · exact (Option.some.inj h).symm
  · cases h

lemma packing_lenPrefix (t : DataType) (n : ℕ) :
    packing.lenPrefix t n = lengthPrefix (isPadded t) n := rfl

lemma packing_lenPrefix_short {t : DataType} (ht : isPadded t = false) {n : ℕ} (hn : n < 128) :
    packing.lenPrefix t n = [UInt8.ofNat n] := by
  rw [packing_lenPrefix, lengthPrefix, ht, vint_of_lt hn]
  rfl

lemma packing_containerHdr (n : ℤ) (k v : DataType) (hn : n.toNat < 128) :
    packing.containerHdr n k v =
      [UInt8.ofNat k.code, UInt8.ofNat v.code, UInt8.ofNat n.toNat] := by
  have hcode (t : DataType) : t.code < 128 := by cases t <;> decide
  change vint k.code ++ (vint v.code ++ vint n.toNat) = _
  rw [vint_of_lt hn, vint_of_lt (hcode k), vint_of_lt (hcode v)]
  rfl

lemma packing_multisetHdr (n : ℤ) (t : DataType) (hn : n.toNat < 128) :
    packing.multisetHdr n t = [UInt8.ofNat t.code, UInt8.ofNat n.toNat] := by
  have hcode (t : DataType) : t.code < 128 := by cases t <;> decide
  change vint t.code ++ vint n.toNat = _
  rw [vint_of_lt hn, vint_of_lt (hcode t)]
  rfl

theorem packing_lawful : packing.Lawful where
  dataMax_lt := by decide
  packPadSize_iff t := by simp [packing, isPadded]
  vintEncode_le n hn := length_vint_le_max hn
  unpack_containerHdr n k v rest _ := by
    have hk := takeType_at [] (vint v.code ++ (vint n ++ rest)) k rfl
    have hv := takeType_at (vint k.code) (vint n ++ rest) v rfl
    have hn := takeVint_at (vint k.code ++ vint v.code) rest n rfl
    rw [List.append_assoc, List.length_append] at hn
    rw [List.nil_append, List.length_nil, Nat.zero_add] at hk
    simp [packing, hk, hv, hn, Nat.add_assoc]
  unpack_multisetHdr n t rest _ := by
    have ht := takeType_at [] (vint n ++ rest) t rfl
    have hn := takeVint_at (vint t.code) rest n rfl
    rw [List.nil_append, List.length_nil, Nat.zero_add] at ht
    simp [packing, ht, hn]
  unpack_containerEntry kt vt pre k v rest data hk hv hdata := by
    have hkdata : data = pre ++ (lengthPrefix (isPadded kt) k.length ++ k) ++
        (lengthPrefix (isPadded vt) v.length ++ v ++ rest) := by
      rw [hdata]
      simp [packing_lenPrefix]
    have hvdata : data = pre ++ lengthPrefix (isPadded kt) k.length ++ k ++
        (lengthPrefix (isPadded vt) v.length ++ v) ++ rest := by
      rw [hkdata]
      simp
    obtain ⟨key, hkey, hkbytes, hkend⟩ := takePiece_at hk hkdata
    obtain ⟨val, hval, hvbytes, hvend⟩ := takePiece_at hv hvdata
    have hnext : (pre ++ lengthPrefix (isPadded kt) k.length ++ k).length =
        key.1.pos + key.1.len := by
      have := congrArg List.length hdata
      simp only [List.length_append, packing_lenPrefix] at this hkend ⊢
      omega
    rw [hnext] at hval
    exact ⟨⟨key.1, val.1, val.1.pos + val.1.len, val.2⟩, by simp [packing, hkey, hval], hkbytes,
      hvbytes, hvend⟩
  unpack_multisetEntry t pre v rest data hv hdata := by
    obtain ⟨s, hs : takePiece (isPadded t) data pre.length = some s, hbytes, hend⟩ :=
      takePiece_at hv hdata
    exact ⟨⟨s.1, s.1.pos + s.1.len, s.2⟩, by simp [packing, hs], hbytes, hend⟩
  unpack_buffer t pre v rest data hv hdata := by
    obtain ⟨s, hs : takePiece (isPadded t) data pre.length = some s, hbytes, hend⟩ :=
      takePiece_at hv hdata
    have hlt : pre.length ≠ data.length := by
      have := length_lengthPrefix_pos (isPadded t) v.length
      rw [hdata]
      simp only [List.length_append, packing_lenPrefix]
      omega
    exact ⟨s.1, s.1.pos + s.1.len, by simp [packing, hlt, hs], hbytes, hend⟩
  unpack_buffer_end t data := if_pos rfl
  unpack_integer v b h := by
    rw [packing_pack h, packDatum]
    simp [packing, unpackWord_leBytes]
  unpack_ref id r w b h := by
    rw [packing_pack h, packDatum]
    simp [packing, unpackWord_leBytes]
  unpack_float v b h := by
    rw [packing_pack h, packDatum]
    exact unpackWord_leBytes v
  unpack_string s b h := by
    rw [packing_pack h, packDatum]
    rfl
  unpack_blob s b h := by
    rw [packing_pack h, packDatum]
    rfl

lemma length_offsetTable (start : ℕ) (pieces : List Bytes) :
    (offsetTable start pieces).flatten.length = offsetSize * pieces.length := by
  induction pieces generalizing start with
  | nil => rfl
  | cons p pieces ih =>
    simp [offsetTable, ih]
    ring

lemma offsetTable_at {start i : ℕ} {pieces : List Bytes} (rest : Bytes) (hi : i < pieces.length) :
    (((offsetTable start pieces).flatten ++ rest).drop (offsetSize * i)).take offsetSize =
      leBytes offsetSize (start + (pieces.take i).flatten.length) := by
  induction pieces generalizing start i with
  | nil => simp at hi
  | cons p pieces ih =>
    have hsize : (leBytes offsetSize start).length = offsetSize := length_leBytes _ _
    cases i with
    | zero => simp [offsetTable, hsize]
    | succ i =>
      have hdrop : offsetSize * (i + 1) = (leBytes offsetSize start).length + offsetSize * i := by
        rw [hsize]
        ring
      rw [offsetTable, List.flatten_cons, List.append_assoc, hdrop, ← List.drop_drop, List.drop_left,
        ih (by simpa using hi)]
      simp [Nat.add_assoc]

lemma packFields_pieces (fields : List (Option (Datum UInt64))) :
    List.Forall₂ (FieldPiece packing) fields (packFields fields) := by
  induction fields with
  | nil => exact List.Forall₂.nil
  | cons field fields ih =>
    refine List.Forall₂.cons ?_ ih
    cases field with
    | none => rfl
    | some d => exact ⟨1, packDatum d, by decide, by simp [packing], rfl⟩

section StructBytes

variable (st : ℤ) (pieces : List Bytes)

@[simp] lemma length_structHead : (structHead st).length = structHdr := by
  simp [structHead, structHdr]

/-- The size of the header and of the offset table, in front of the pieces. -/
def structHdrLen (fieldCount : ℕ) : ℕ := structHdr + offsetSize * fieldCount

lemma drop_structBytes :
    (structBytes st pieces).drop (structHdrLen pieces.length) = pieces.flatten := by
  rw [structHdrLen, ← length_structHead st, ← length_offsetTable (structHdrLen pieces.length),
    structBytes, ← List.drop_drop, List.drop_left, structHdrLen, List.drop_left]

lemma length_structBytes :
    (structBytes st pieces).length = structHdrLen pieces.length + pieces.flatten.length := by
  rw [structBytes, List.length_append, List.length_append, length_structHead, length_offsetTable,
    structHdrLen, Nat.add_assoc]

lemma structType_structBytes (h : 0 ≤ st ∧ st < 2 ^ 31) :
    (leNat ((structBytes st pieces).take 4) : ℤ) = st := by
  have hlow : (leBytes 4 st.toNat).length = 4 := length_leBytes _ _
  rw [structBytes, structHead, List.append_assoc, List.take_left' hlow,
    leNat_leBytes (by omega)]
  omega

lemma fieldOffset_structBytes {i : ℕ} (hi : i < pieces.length)
    (hlen : (structBytes st pieces).length < 2 ^ 64) :
    (packing.fieldOffset (structBytes st pieces) i).toNat =
      structHdrLen pieces.length + (pieces.take i).flatten.length := by
  have hle : (pieces.take i).flatten.length ≤ pieces.flatten.length :=
    ((List.take_prefix i pieces).flatten).length_le
  rw [length_structBytes] at hlen
  have hstart : structHdrLen pieces.length + (pieces.take i).flatten.length < 256 ^ offsetSize :=
    lt_of_le_of_lt (by omega) (hlen.trans_eq (by norm_num [offsetSize]))
  have hword : leNat (((structBytes st pieces).drop (structHdr + offsetSize * i)).take offsetSize) =
      structHdrLen pieces.length + (pieces.take i).flatten.length := by
    rw [← length_structHead st, structBytes, ← List.drop_drop, List.drop_left,
      offsetTable_at _ hi]
    exact leNat_leBytes hstart
  change (BitVec.ofNat 64 _).toNat = _
  rw [hword, BitVec.toNat_ofNat, Nat.mod_eq_of_lt (by omega)]

end StructBytes

theorem packing_structLawful : packing.StructLawful where
  pack_isSome d := by simp [packing]
  struct_layout st fields b hst hb hlen := by
    have hpieces := packFields_pieces fields
    have hcount := hpieces.length_eq
    rw [packing_pack hb, packDatum] at hlen ⊢
    have hhdr : packing.structHdrLen fields.length = structHdrLen (packFields fields).length := by
      rw [hcount]
      rfl
    rw [hhdr]
    refine ⟨packFields fields, hpieces, structType_structBytes st _ hst,
      length_structBytes st _, drop_structBytes st _, fun i hi => ?_⟩
    exact fieldOffset_structBytes st _ (hcount ▸ hi) hlen

end Library

section Declared

/-- A struct type that a field has was declared before. -/
def StructDecl.nestedBefore (decl : StructDecl) (st : ℤ) : Bool :=
  decl.fields.all fun f =>
    match f.2.extra with
    | .struct st' => 0 ≤ st' ∧ st' < st
    | _ => true

/-- Struct types declared one after the other, numbered from 0. -/
def declared (decls : List StructDecl) : StructTable Value where
  lookup st := if 0 ≤ st ∧ st < 2 ^ 31 then
    (decls[st.toNat]?).filter fun decl => decl.nestedBefore st else none
  lookup_int st d h := by
    split at h
    · assumption
    · cases h
  nameObjs := decls.map fun decl => some (decl.fields.map fun f => .str f.1)
  rank := Int.toNat
  rank_lt st d h f hf _ st' hst' := by
    split at h
    · obtain ⟨-, hnested⟩ := Option.filter_eq_some_iff.mp h
      have hbefore := List.all_eq_true.mp hnested f hf
      simp only [hst', decide_eq_true_eq] at hbefore
      omega
    · cases h

/-- The concrete libraries, with these struct types. -/
def packingEnv (decls : List StructDecl) : Env Value UInt64 where
  tcl := values
  adlb := packing
  structs := declared decls
  names_text st d objs hlookup hnames := by
    simp only [declared] at hlookup hnames
    split at hlookup
    · obtain ⟨hdecl, -⟩ := Option.filter_eq_some_iff.mp hlookup
      rw [List.getElem?_map, hdecl] at hnames
      cases hnames
      simp [values, Value.text]
    · cases hlookup

end Declared

end Turbine.Adlb
