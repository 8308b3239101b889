import Turbine.Codec.Decode
import Turbine.Adlb.Packing

/-! Which buffers the struct decoder reads within their bounds, whatever offsets they hold. -/

namespace Turbine.Codec

open Tcl Adlb

variable {Obj D : Type} (E : Env Obj D) {data : Bytes}

def StaysInBounds {α : Type} (r : Traced α) (length : ℕ) : Prop :=
  (∃ info, r.2 = .error info) ∨ ∀ a ∈ r.1, a.InBounds length

section Fields

variable (data) (fieldCount i : ℕ)

def offset : ℕ := (E.adlb.fieldOffset data i).toNat

/-- Where a field ends: at the next one, or with the data. -/
def fieldEnd : ℕ := if i + 1 = fieldCount then data.length else offset E data (i + 1)

/-- The validity byte is there, and a present field ends behind it. -/
def FieldFits : Prop :=
  ∃ valid, data[offset E data i]? = some valid ∧
    (valid ≠ 0 → offset E data i < fieldEnd E data fieldCount i)

variable {data}

/-- The decoder goes on behind the field: it is absent, or its slice decodes. -/
def FieldPasses (nested : Nested Obj data) (ft : FieldType) : Prop :=
  ∃ valid, data[offset E data i]? = some valid ∧ (valid = 0 ∨
    ∃ (s : Span data) (hs : s.len < data.length), s.pos = offset E data i + 1 ∧
      s.pos + s.len = fieldEnd E data fieldCount i ∧ ∃ o, nested ft.type ft.extra s hs = .ok o)

/-- Every field that is reached fits. -/
def FieldsFit (nested : Nested Obj data) (fieldCount : ℕ) : ℕ → List (Bytes × FieldType) → Prop
  | _, [] => True
  | i, (_, ft) :: fields => FieldFits E data fieldCount i ∧
      (FieldPasses E fieldCount i nested ft → FieldsFit nested fieldCount (i + 1) fields)

end Fields

variable {E} (fieldCount : ℕ) {i : ℕ}

lemma fieldSlice_end (hlen : data.length < 2 ^ 64) :
    ((fieldSlice E data i fieldCount).1 + (fieldSlice E data i fieldCount).2).toNat =
      fieldEnd E data fieldCount i := by
  have hcancel (x y : BitVec 64) : x + (y - x) = y := by ring
  unfold fieldSlice fieldEnd
  split
  · rw [hcancel, BitVec.toNat_ofNat, Nat.mod_eq_of_lt hlen]
  · rw [hcancel, offset]

lemma fieldSlice_pos (hlen : data.length < 2 ^ 64) (h : offset E data i < data.length) :
    (fieldSlice E data i fieldCount).1.toNat = offset E data i + 1 := by
  unfold offset at h ⊢
  rw [fieldSlice, BitVec.toNat_add]
  exact Nat.mod_eq_of_lt (by simp; omega)

lemma fieldSlice_inBounds_iff (hlen : data.length < 2 ^ 64) (h : offset E data i < data.length)
    (hend : fieldEnd E data fieldCount i ≤ data.length) :
    (fieldSlice E data i fieldCount).1.toNat + (fieldSlice E data i fieldCount).2.toNat ≤
      data.length ↔ offset E data i < fieldEnd E data fieldCount i := by
  have hpos := fieldSlice_pos fieldCount hlen h
  have hsum := fieldSlice_end (E := E) (i := i) fieldCount hlen
  have hlt := (fieldSlice E data i fieldCount).2.isLt
  rw [BitVec.toNat_add, hpos] at hsum
  rw [hpos]
  omega

lemma staysInBounds_error {α : Type} (accesses : List Access) (info : List String) (n : ℕ) :
    StaysInBounds ((accesses, .error info) : Traced α) n := Or.inl ⟨info, rfl⟩

lemma staysInBounds_iff {α : Type} {accesses : List Access} {r : TclResult α} {n : ℕ}
    (h : ∀ info, r ≠ .error info) :
    StaysInBounds (accesses, r) n ↔ ∀ a ∈ accesses, a.InBounds n := by
  simp [StaysInBounds, h]

variable {nested : Nested Obj data} {name : Bytes} {ft : FieldType}
  {fields : List (Bytes × FieldType)} {nameObj : Obj} {nameObjs : List Obj}
  {dict : List (Obj × Obj)}

variable {fieldCount}

lemma structEntries_absent (h : data[offset E data i]? = some 0) :
    structEntries E nested fieldCount i ((name, ft) :: fields) (nameObj :: nameObjs) dict =
      ([.validity (offset E data i)] ++
        (structEntries E nested fieldCount (i + 1) fields nameObjs dict).1,
        (structEntries E nested fieldCount (i + 1) fields nameObjs dict).2) := by
  rw [offset] at h
  simp only [structEntries, h]
  rfl

lemma fieldSlice_eq (hlen : data.length < 2 ^ 64) {s : Span data}
    (hpos : s.pos = offset E data i + 1) (hend : s.pos + s.len = fieldEnd E data fieldCount i) :
    (fieldSlice E data i fieldCount).1.toNat = s.pos ∧
      (fieldSlice E data i fieldCount).2.toNat = s.len := by
  have hle := s.le
  have hpos' := fieldSlice_pos (E := E) fieldCount (i := i) hlen (by omega)
  have hsum := fieldSlice_end (E := E) (i := i) fieldCount hlen
  have hbounds := (fieldSlice_inBounds_iff (E := E) fieldCount hlen (by omega) (by omega)).mpr
    (show offset E data i < fieldEnd E data fieldCount i by omega)
  rw [BitVec.toNat_add, Nat.mod_eq_of_lt (by omega)] at hsum
  omega

lemma structEntries_present (hlen : data.length < 2 ^ 64) {valid : UInt8}
    (hvalid : data[offset E data i]? = some valid) (hne : valid ≠ 0) (s : Span data)
    (hs : s.len < data.length) (hpos : s.pos = offset E data i + 1)
    (hend : s.pos + s.len = fieldEnd E data fieldCount i) :
    structEntries E nested fieldCount i ((name, ft) :: fields) (nameObj :: nameObjs) dict =
      match (nested ft.type ft.extra s hs).addInfo
        ("Error building tcl object for field " ++ showBytes name) with
      | .ok val =>
        ([.validity (offset E data i), .slice s.pos s.len] ++
          (structEntries E nested fieldCount (i + 1) fields nameObjs
            (E.tcl.dictPut dict nameObj val)).1,
          (structEntries E nested fieldCount (i + 1) fields nameObjs
            (E.tcl.dictPut dict nameObj val)).2)
      | .error info => ([.validity (offset E data i), .slice s.pos s.len], .error info)
      | .abort text => ([.validity (offset E data i), .slice s.pos s.len], .abort text)
      | .undefined => ([.validity (offset E data i), .slice s.pos s.len], .undefined) := by
  obtain ⟨hslice₁, hslice₂⟩ := fieldSlice_eq (E := E) hlen hpos hend
  have hsum := fieldSlice_end (E := E) (i := i) fieldCount hlen
  have hle := s.le
  have hin : (fieldSlice E data i fieldCount).1.toNat + (fieldSlice E data i fieldCount).2.toNat ≤
      data.length := by omega
  have hlt : (fieldSlice E data i fieldCount).2.toNat < data.length := by omega
  obtain rfl : s = ⟨_, _, hin⟩ := Span.ext hslice₁.symm hslice₂.symm
  rw [offset] at hvalid
  simp only [structEntries, hvalid]
  rw [if_neg hne, if_pos (by omega), dif_pos ⟨hin, hlt⟩]
  rfl

lemma structEntries_cons (hlen : data.length < 2 ^ 64) :
    (¬FieldPasses E fieldCount i nested ft ∧
      (StaysInBounds (structEntries E nested fieldCount i ((name, ft) :: fields)
        (nameObj :: nameObjs) dict) data.length ↔ FieldFits E data fieldCount i)) ∨
    (FieldPasses E fieldCount i nested ft ∧ FieldFits E data fieldCount i ∧
      ∃ accesses dict', (∀ a ∈ accesses, a.InBounds data.length) ∧
        structEntries E nested fieldCount i ((name, ft) :: fields) (nameObj :: nameObjs) dict =
          (accesses ++ (structEntries E nested fieldCount (i + 1) fields nameObjs dict').1,
            (structEntries E nested fieldCount (i + 1) fields nameObjs dict').2)) := by
  cases hvalid : data[offset E data i]? with
  | none =>
    have hout : data.length ≤ offset E data i := by simpa using hvalid
    left
    have hvalid' := hvalid
    rw [offset] at hvalid'
    refine ⟨by simp [FieldPasses, hvalid], ?_⟩
    simp only [structEntries, hvalid']
    rw [staysInBounds_iff (by simp)]
    refine iff_of_false (fun h => ?_) (by simp [FieldFits, hvalid])
    have hacc : offset E data i < data.length := h _ (List.mem_singleton_self _)
    omega
  | some valid =>
    have hoff : offset E data i < data.length := (List.getElem?_eq_some_iff.mp hvalid).1
    have hvalidity : (Access.validity (offset E data i)).InBounds data.length := hoff
    by_cases hzero : valid = 0
    · subst hzero
      right
      exact ⟨⟨0, hvalid, Or.inl rfl⟩, ⟨0, hvalid, fun h => absurd rfl h⟩, _, dict,
        by simpa using hvalidity, structEntries_absent hvalid⟩
    -- a field that passes is the slice up to its end
    have hpasses : FieldPasses E fieldCount i nested ft ↔
        ∃ (s : Span data) (hs : s.len < data.length), s.pos = offset E data i + 1 ∧
          s.pos + s.len = fieldEnd E data fieldCount i ∧
          ∃ o, nested ft.type ft.extra s hs = .ok o := by
      simp [FieldPasses, hvalid, hzero]
    by_cases hcheck : fieldEnd E data fieldCount i ≤ data.length
    · by_cases hfit : offset E data i < fieldEnd E data fieldCount i
      · have hfits : FieldFits E data fieldCount i := ⟨valid, hvalid, fun _ => hfit⟩
        obtain ⟨s, hpos, hend⟩ : ∃ s : Span data, s.pos = offset E data i + 1 ∧
            s.pos + s.len = fieldEnd E data fieldCount i :=
          ⟨⟨offset E data i + 1, fieldEnd E data fieldCount i - (offset E data i + 1), by omega⟩,
            rfl, by simp only; omega⟩
        have hs : s.len < data.length := by omega
        have hacc : ∀ a ∈ [Access.validity (offset E data i), .slice s.pos s.len],
            a.InBounds data.length := by
          simpa [Access.InBounds] using ⟨hoff, s.le⟩
        rw [structEntries_present hlen hvalid hzero s hs hpos hend]
        cases hval : nested ft.type ft.extra s hs with
        | ok o =>
          right
          exact ⟨hpasses.mpr ⟨s, hs, hpos, hend, o, hval⟩, hfits, _, _, hacc, rfl⟩
        | _ =>
          left
          refine ⟨?_, iff_of_true (Or.inr hacc) hfits⟩
          rw [hpasses]
          rintro ⟨s', _, hpos', hend', o, ho⟩
          obtain rfl : s' = s := Span.ext (hpos'.trans hpos.symm) (by omega)
          rw [hval] at ho
          cases ho
      · -- the length has wrapped around
        left
        have hbounds := fieldSlice_inBounds_iff fieldCount hlen hoff hcheck
        have hvalid' := hvalid
        rw [offset] at hvalid'
        simp only [structEntries, hvalid']
        rw [if_neg hzero, if_pos (by rwa [fieldSlice_end fieldCount hlen]),
          dif_neg fun h => hfit (hbounds.mp h.1), staysInBounds_iff (by split <;> simp), hpasses]
        refine ⟨?_, ?_⟩
        · rintro ⟨s, -, hpos, hend, -⟩
          omega
        · simp [FieldFits, hvalid, hfit, hzero, Access.InBounds, hbounds]
    · left
      have hvalid' := hvalid
      rw [offset] at hvalid'
      simp only [structEntries, hvalid']
      rw [if_neg hzero, if_neg (by rwa [fieldSlice_end fieldCount hlen]), hpasses]
      refine ⟨?_, iff_of_true (staysInBounds_error _ _ _) ⟨valid, hvalid, fun _ => by omega⟩⟩
      rintro ⟨s, -, -, hend, -⟩
      exact hcheck (hend ▸ s.le)

lemma structEntries_staysInBounds_iff (hlen : data.length < 2 ^ 64) :
    ∀ (fields : List (Bytes × FieldType)) (nameObjs : List Obj) (i : ℕ) (dict : List (Obj × Obj)),
      nameObjs.length = fields.length →
      (StaysInBounds (structEntries E nested fieldCount i fields nameObjs dict) data.length ↔
        FieldsFit E nested fieldCount i fields) := by
  intro fields
  induction fields with
  | nil =>
    intro nameObjs i dict _
    simp [structEntries, StaysInBounds, FieldsFit]
  | cons f fields ih =>
    obtain ⟨name, ft⟩ := f
    intro nameObjs i dict hnames
    obtain ⟨nameObj, nameObjs, rfl⟩ := List.exists_cons_of_length_eq_add_one hnames
    rcases structEntries_cons hlen with ⟨hstop, hfit⟩ | ⟨hpass, hfit, accesses, dict', hacc, heq⟩
    · rw [hfit, FieldsFit]
      simp [hstop]
    · rw [heq, FieldsFit, and_iff_right hfit, imp_iff_right hpass,
        ← ih nameObjs (i + 1) dict' (by simpa using hnames)]
      unfold StaysInBounds
      refine or_congr_right ?_
      simp only [List.mem_append]
      exact ⟨fun h a ha => h a (Or.inr ha), fun h a ha => ha.elim (hacc a) (h a)⟩

lemma packedStructHeader_length {extra : TypeExtra} {fields : List (Bytes × FieldType)}
    {objs : List Obj} (h : packedStructHeader E data extra = .ok (fields, objs)) :
    objs.length = fields.length := by
  simp only [packedStructHeader, TclResult.bind_eq_ok, TclResult.require_eq_ok] at h
  obtain ⟨-, -, -, -, decl, hdecl, -, -, objs', hobjs, heq⟩ := h
  obtain ⟨rfl, rfl⟩ := Prod.mk.inj (TclResult.ok.inj heq)
  have hnames := E.names_text _ decl objs' hdecl (fieldNameObjs_eq_ok.mp hobjs).2
  simpa using congrArg List.length hnames

theorem packedStructToTclDict_staysInBounds_iff (E : Env Obj D) (data : Bytes)
    (hlen : data.length < 2 ^ 64) (extra : TypeExtra) (nested : Nested Obj data) :
    StaysInBounds (packedStructToTclDict E data extra nested) data.length ↔
      ∀ fields objs, packedStructHeader E data extra = .ok (fields, objs) →
        FieldsFit E nested fields.length 0 fields := by
  unfold packedStructToTclDict
  cases hhdr : packedStructHeader E data extra with
  | ok hdr =>
    obtain ⟨fields, objs⟩ := hdr
    have hmap {α β : Type} (r : TclResult α) (f : α → β) (accesses : List Access) (n : ℕ) :
        StaysInBounds (accesses, f <$> r) n ↔ StaysInBounds (accesses, r) n := by
      cases r <;> simp [StaysInBounds]
    rw [hmap, structEntries_staysInBounds_iff hlen fields objs 0 [] (packedStructHeader_length hhdr)]
    constructor
    · rintro h _ _ ⟨⟩
      exact h
    · intro h
      exact h fields objs rfl
  | _ => simp [StaysInBounds]

section Concrete

open Library

/-- A struct type with one integer field. -/
def cell : StructDecl := ⟨[99], [([120], ⟨.integer, .null⟩)]⟩

def cellEnv : Env Value UInt64 := packingEnv [cell]

/-- A packed `cell` whose field is at this offset. -/
def cellAt (offset : ℕ) : Bytes :=
  structHead 0 ++ (leBytes offsetSize offset ++ 1 :: leBytes 8 7)

lemma packedStructHeader_cellAt (offset : ℕ) :
    packedStructHeader cellEnv (cellAt offset) .null = .ok (cell.fields, [.str [120]]) := by
  have hlen : (cellAt offset).length = 25 := by simp [cellAt, structHdr, offsetSize]
  have htype : cellEnv.adlb.structType (cellAt offset) = 0 := rfl
  have hdecl : cellEnv.structs.lookup 0 = some cell := rfl
  have hobjs : fieldNameObjs cellEnv 0 = .ok [.str [120]] := rfl
  simp only [packedStructHeader, htype, hdecl, hobjs, checkStructExtra, hlen]
  rfl

lemma offset_cellAt {n : ℕ} (h : n < 2 ^ 64) : offset cellEnv (cellAt n) 0 = n := by
  have hword : (((cellAt n).drop (structHdr + offsetSize * 0)).take offsetSize) =
      leBytes offsetSize n := by
    simp [cellAt, structHdr]
  change (BitVec.ofNat 64 (leNat _)).toNat = n
  rw [hword, leNat_leBytes (by simpa [offsetSize] using h), BitVec.toNat_ofNat, Nat.mod_eq_of_lt h]

theorem packedStructToTclDict_staysInBounds_cellAt :
    (cellAt 16).length < 2 ^ 64 ∧
      StaysInBounds (packedStructToTclDict cellEnv (cellAt 16) .null (nestedDatum cellEnv _))
        (cellAt 16).length := by
  have hlen : (cellAt 16).length < 2 ^ 64 := by simp [cellAt, structHdr, offsetSize]
  refine ⟨hlen, (packedStructToTclDict_staysInBounds_iff cellEnv (cellAt 16) hlen .null _).mpr ?_⟩
  intro fields objs h
  obtain ⟨rfl, -⟩ := Prod.mk.inj (TclResult.ok.inj ((packedStructHeader_cellAt 16).symm.trans h))
  refine ⟨⟨1, ?_, fun _ => ?_⟩, fun _ => trivial⟩
  · rw [offset_cellAt (by norm_num)]
    rfl
  · rw [offset_cellAt (by norm_num)]
    simp [fieldEnd, cell, cellAt, structHdr, offsetSize]

/-- The validity byte is read behind the end of the data. -/
theorem not_staysInBounds_cellAt :
    ¬StaysInBounds (packedStructToTclDict cellEnv (cellAt 100) .null (nestedDatum cellEnv _))
      (cellAt 100).length := by
  have hnone : (cellAt 100)[offset cellEnv (cellAt 100) 0]? = none := by
    rw [offset_cellAt (by norm_num)]
    rfl
  rw [offset] at hnone
  simpa [StaysInBounds, packedStructToTclDict, packedStructHeader_cellAt, structEntries, cell,
    hnone, Access.InBounds] using List.getElem?_eq_none_iff.mp hnone

end Concrete

end Turbine.Codec
