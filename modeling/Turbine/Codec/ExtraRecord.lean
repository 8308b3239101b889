import Turbine.Codec.RoundTrip

/-! The two encoders of containers and multisets: through an `extra` record and through a type list.
The first hands the second a list with one type in it. -/

namespace Turbine.Codec

open Tcl Adlb Library TclResult

variable {Obj D : Type} {E : Env Obj D}

section Size

lemma mapM_sum_perm {α : Type} {g : α → Option ℕ} {l l' : List α} (h : l.Perm l') :
    (l.mapM g).map List.sum = (l'.mapM g).map List.sum := by
  induction h with
  | nil => rfl
  | cons a _ ih =>
    simp only [List.mapM_cons]
    cases g a with
    | none => rfl
    | some n =>
      have hsum (o : Option (List ℕ)) :
          (o.bind fun ns => some (n :: ns)).map List.sum = (o.map List.sum).map (n + ·) := by
        cases o <;> simp
      simpa [hsum] using congrArg (Option.map (n + ·)) ih
  | swap a b l =>
    simp only [List.mapM_cons]
    cases g a <;> cases g b <;> cases l.mapM g <;> simp
    omega
  | trans _ _ ih ih' => exact ih.trans ih'

lemma map_length_flatten {α : Type} (f : α → Option Bytes) (l : List α) :
    ((l.mapM f).map List.flatten).map List.length =
      (l.mapM fun a => (f a).map List.length).map List.sum := by
  induction l with
  | nil => rfl
  | cons a l ih =>
    simp only [List.mapM_cons]
    cases f a with
    | none => rfl
    | some b =>
      cases hl : l.mapM f <;> cases hl' : l.mapM fun a => (f a).map List.length <;> simp_all

end Size

section Order

lemma length_pieces {α : Type} (header : Bytes) (f : α → Option Bytes) (l : List α) :
    ((l.mapM f).map fun pieces => header ++ pieces.flatten).map List.length =
      ((l.mapM fun a => (f a).map List.length).map List.sum).map (header.length + ·) := by
  rw [← map_length_flatten]
  cases l.mapM f <;> simp

lemma length_withLen_map (o : Option Bytes) (type : DataType) :
    (o.map (withLen E.adlb type)).map List.length =
      (o.map List.length).map fun n => (E.adlb.lenPrefix type n).length + n := by
  cases o <;> simp [withLen]

lemma length_entryBytes_map (o : Option Bytes) (k type : DataType) (key : Bytes) :
    (o.map (entryBytes E.adlb k type key)).map List.length =
      (o.map List.length).map fun n => (withLen E.adlb k (key ++ [0])).length +
        ((E.adlb.lenPrefix type n).length + n) := by
  cases o with
  | none => rfl
  | some b => simp [entryBytes, withLen, Nat.add_assoc, Nat.add_comm, Nat.add_left_comm]

lemma length_encoding (c c' : Bool) (T : CompoundTy) (o : Obj) :
    (encoding E c T o).map List.length = (encoding E c' T o).map List.length := by
  induction T generalizing o with
  | leaf t e ht => rfl
  | container k v ih =>
    rw [encoding_container, encoding_container]
    cases hd : E.tcl.getDict o with
    | none => rfl
    | some d =>
      have hperm := (dictOrder_perm c hd).trans (dictOrder_perm c' hd).symm
      simp only [Option.bind_some, length_pieces, length_dictOrder, length_entryBytes_map, ih]
      rw [mapM_sum_perm hperm]
  | multiset v ih =>
    rw [encoding_multiset, encoding_multiset]
    cases hl : E.tcl.getList o with
    | none => rfl
    | some l =>
      have hperm := (listOrder_perm (E := E) c l).trans (listOrder_perm (E := E) c' l).symm
      simp only [Option.bind_some, length_pieces, length_listOrder, length_withLen_map, ih]
      rw [mapM_sum_perm hperm]

end Order

section Agreement

variable {canonicalize : Bool}

lemma adlbTclobj2bin_container (hA : E.adlb.Lawful) (extra : TypeExtra) (obj : Obj) (b : Bytes) :
    adlbTclobj2bin E .container extra obj canonicalize ≠ .ok b := by
  have hpad : E.adlb.packPadSize .container = true := by simp [hA.packPadSize_iff]
  rw [adlbTclobj2bin, if_pos (Or.inl rfl), adlbTclobjBinAppend2, adlbTclobjBinAppend]
  cases hd : E.tcl.getDict obj <;>
    simp [compoundTypeNext, CompoundType.single, hpad, tclDictToPackedContainer, hd]

lemma adlbTclobj2bin_multiset (hA : E.adlb.Lawful) (extra : TypeExtra) (obj : Obj) (b : Bytes) :
    adlbTclobj2bin E .multiset extra obj canonicalize ≠ .ok b := by
  have hpad : E.adlb.packPadSize .multiset = true := by simp [hA.packPadSize_iff]
  rw [adlbTclobj2bin, if_pos (Or.inr rfl), adlbTclobjBinAppend2, adlbTclobjBinAppend]
  cases hd : E.tcl.getList obj <;>
    simp [compoundTypeNext, CompoundType.single, hpad, tclListToPackedMultiset, hd]

/-- Values that read as typed data of the type whose layout fits into memory. -/
def Encodable (E : Env Obj D) (T : CompoundTy) (o : Obj) : Prop :=
  ∃ r b, reading E false T o = some r ∧ layout E.adlb T r = some b ∧ b.length < 2 ^ 64

variable (canonicalize) in
lemma encodable_iff (T : CompoundTy) (o : Obj) :
    Encodable E T o ↔ ∃ b, encoding E canonicalize T o = some b ∧ b.length < 2 ^ 64 := by
  have hlen := length_encoding (E := E) false canonicalize T o
  have hfalse : Encodable E T o ↔ ∃ b, encoding E false T o = some b ∧ b.length < 2 ^ 64 := by
    simp only [Encodable, encoding, Option.bind_eq_some_iff]
    constructor
    · rintro ⟨r, b, hr, hb, hlt⟩
      exact ⟨b, ⟨r, hr, hb⟩, hlt⟩
    · rintro ⟨b, ⟨r, hr, hb⟩, hlt⟩
      exact ⟨r, b, hr, hb, hlt⟩
  have hsize (o : Option Bytes) : (∃ b, o = some b ∧ b.length < 2 ^ 64) ↔
      ∃ n, o.map List.length = some n ∧ n < 2 ^ 64 := by
    cases o <;> simp
  rw [hfalse, hsize, hlen, ← hsize]

/-- Both encoders succeed on the same values and write the same bytes. -/
def EncodersAgree (E : Env Obj D) (T : CompoundTy) (extra : TypeExtra) (obj : Obj)
    (canonicalize : Bool) : Prop :=
  ∀ b, adlbTclobj2bin E T.head.1 extra obj canonicalize = .ok b ↔
    adlbTclobj2binCompound E T.toCompoundType obj canonicalize = .ok b

lemma encodersAgree_iff (hA : E.adlb.Lawful) {T : CompoundTy} {extra : TypeExtra} {obj : Obj}
    (h : ∀ b, adlbTclobj2bin E T.head.1 extra obj canonicalize ≠ .ok b) :
    EncodersAgree E T extra obj canonicalize ↔ ¬Encodable E T obj := by
  rw [encodable_iff canonicalize, not_exists]
  refine forall_congr' fun b => ?_
  rw [adlbTclobj2binCompound_eq_ok hA, iff_false_left (h b)]

theorem encodersAgree_iff_not_encodable (hA : E.adlb.Lawful) (obj : Obj) (canonicalize : Bool)
    (k t : DataType) (ht : t ≠ .container ∧ t ≠ .multiset) :
    (EncodersAgree E (.container k (.leaf t .null ht)) (.container k t) obj canonicalize ↔
      ¬Encodable E (.container k (.leaf t .null ht)) obj) ∧
    (EncodersAgree E (.multiset (.leaf t .null ht)) (.multiset t) obj canonicalize ↔
      ¬Encodable E (.multiset (.leaf t .null ht)) obj) :=
  ⟨encodersAgree_iff hA (adlbTclobj2bin_container hA _ obj),
    encodersAgree_iff hA (adlbTclobj2bin_multiset hA _ obj)⟩

theorem encodersAgree_no_dict :
    EncodersAgree (packingEnv []) countedBy (.container .string .integer) (.str [97]) false := by
  refine (encodersAgree_iff_not_encodable (E := packingEnv []) packing_lawful (.str [97]) false
    .string .integer integer_scalar).1.mpr ?_
  rintro ⟨r, -, hr, -⟩
  obtain ⟨d, hd, -⟩ := reading_container.mp hr
  cases hd

/-- A dictionary that the type list packs is refused with an extra record. -/
theorem not_encodersAgree_fiveUnder :
    ¬EncodersAgree (packingEnv []) countedBy (.container .string .integer) (fiveUnder [97]) false := by
  intro h
  have henc := encoding_fiveUnder false [97]
  have hlen := length_encoding_fiveUnder henc
  have hvint : (vint (([97] : Bytes).length + 1)).length ≤ 1 := length_vint_le (by decide)
  have hsmall : ([97] : Bytes).length = 1 := rfl
  have hpack := (adlbTclobj2binCompound_eq_ok packing_lawful countedBy (fiveUnder [97]) _).mpr
    ⟨henc, by omega⟩
  exact adlbTclobj2bin_container packing_lawful _ _ _ ((h _).mpr hpack)

end Agreement

end Turbine.Codec
