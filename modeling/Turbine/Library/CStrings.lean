import Mathlib

/-! C strings in a flat memory: stores of bytes from a pointer on, whether they stay in a buffer,
and which string they leave there. -/

namespace Turbine.Library.CStrings

/-- An index counted from the start of the buffer, and the byte that is stored there. -/
abbrev Store := ℕ × UInt8

def ascii (s : String) : List UInt8 := s.toList.map fun c => UInt8.ofNat c.toNat

/-- What `strlen` and the others see of some bytes: everything before the first zero. -/
def text (b : List UInt8) : List UInt8 := b.takeWhile (· ≠ 0)

def placed : ℕ → List UInt8 → List Store
  | _, [] => []
  | pos, b :: bs => (pos, b) :: placed (pos + 1) bs

def written (mem : ℕ → UInt8) (stores : List Store) : ℕ → UInt8 :=
  stores.foldl (fun mem s => Function.update mem s.1 s.2) mem

def InBounds (size : ℕ) (stores : List Store) : Prop := ∀ s ∈ stores, s.1 < size

/-- Whatever the memory held before, the stores leave this string at its start. -/
def Leaves (stores : List Store) (s : List UInt8) : Prop :=
  ∀ mem, (List.range s.length).map (written mem stores) = s ∧ written mem stores s.length = 0

/-- `strncpy`: exactly `n` bytes, filled up with zeros. -/
def strncpy (src : List UInt8) (n : ℕ) : List Store :=
  placed 0 ((text src).take n ++ List.replicate (n - (text src).length) 0)

lemma zero_notMem_text (b : List UInt8) : 0 ∉ text b := by
  intro h
  simpa using List.mem_takeWhile_imp h

lemma text_of_notMem {b : List UInt8} (h : 0 ∉ b) : text b = b := by
  refine List.takeWhile_eq_self_iff.mpr ?_
  intro x hx
  have hne : x ≠ 0 := by
    rintro rfl
    exact h hx
  simpa using hne

/-- A zero ends the string, whatever lies behind it. -/
lemma text_append_zero (s rest : List UInt8) : text (s ++ 0 :: rest) = text s := by
  induction s with
  | nil => simp [text]
  | cons x s ih =>
    rw [text, text] at ih ⊢
    rw [List.cons_append, List.takeWhile_cons, List.takeWhile_cons, ih]

instance (size : ℕ) (stores : List Store) : Decidable (InBounds size stores) :=
  inferInstanceAs (Decidable (∀ s ∈ stores, s.1 < size))

lemma inBounds_placed {size : ℕ} (pos : ℕ) (b : List UInt8) :
    InBounds size (placed pos b) ↔ b = [] ∨ pos + b.length ≤ size := by
  induction b generalizing pos with
  | nil => simp [InBounds, placed]
  | cons x b ih =>
    rw [placed, InBounds, List.forall_mem_cons]
    have hih := ih (pos + 1)
    rw [InBounds] at hih
    rw [hih]
    cases b with
    | nil => simp
    | cons y b =>
      simp only [List.length_cons, reduceCtorEq, false_or]
      omega

lemma inBounds_append {size : ℕ} {a b : List Store} :
    InBounds size (a ++ b) ↔ InBounds size a ∧ InBounds size b :=
  List.forall_mem_append

lemma written_append (mem : ℕ → UInt8) (a b : List Store) :
    written mem (a ++ b) = written (written mem a) b :=
  List.foldl_append

lemma written_placed (mem : ℕ → UInt8) (pos : ℕ) (b : List UInt8) (i : ℕ) :
    written mem (placed pos b) i =
      if pos ≤ i then (b[i - pos]?).getD (mem i) else mem i := by
  induction b generalizing pos mem with
  | nil => simp [placed, written]
  | cons x b ih =>
    change written (Function.update mem pos x) (placed (pos + 1) b) i = _
    rw [ih]
    rcases lt_trichotomy i pos with hlt | rfl | hgt
    · simp [hlt.not_ge, hlt.ne, hlt.not_gt]
    · simp
    · obtain ⟨k, rfl⟩ : ∃ k, i = pos + 1 + k := ⟨i - (pos + 1), by omega⟩
      have hsub : pos + 1 + k - pos = k + 1 := by omega
      simp [hsub, Function.update_of_ne hgt.ne', show pos ≤ pos + 1 + k by omega]

lemma Leaves.text_eq {stores : List Store} {s : List UInt8} (h : Leaves stores s) {size : ℕ}
    (hs : s.length < size) (mem : ℕ → UInt8) :
    text ((List.range size).map (written mem stores)) = text s := by
  obtain ⟨hmap, hzero⟩ := h mem
  obtain ⟨k, rfl⟩ : ∃ k, size = s.length + (k + 1) := ⟨size - s.length - 1, by omega⟩
  rw [List.range_add, List.map_append, hmap, List.range_succ_eq_map, List.map_cons, List.map_cons,
    Nat.add_zero, hzero, text_append_zero]

lemma leaves_of_bytes {stores : List Store} {s b : List UInt8} (hs : s ++ [0] <+: b)
    (hw : ∀ mem i, i < b.length → written mem stores i = (b[i]?).getD 0) : Leaves stores s := by
  obtain ⟨rest, rfl⟩ := hs
  intro mem
  constructor
  · refine List.ext_getElem (by simp) ?_
    intro i hi _
    have hlt : i < s.length := by simpa using hi
    rw [List.getElem_map, List.getElem_range, hw mem i (by simp; omega)]
    simp [List.append_assoc, List.getElem?_append_left hlt, List.getElem?_eq_getElem hlt]
  · rw [hw mem _ (by simp)]
    simp

/-- A string that is shorter than the buffer is copied with its terminator. -/
lemma strncpy_leaves {src : List UInt8} {n : ℕ} (h : (text src).length < n) :
    Leaves (strncpy src n) (text src) := by
  obtain ⟨k, hk⟩ : ∃ k, n - (text src).length = k + 1 := ⟨n - (text src).length - 1, by omega⟩
  have htake : (text src).take n = text src := List.take_of_length_le h.le
  refine leaves_of_bytes (b := text src ++ List.replicate (k + 1) 0) ⟨List.replicate k 0, ?_⟩ ?_
  · simp [List.replicate_succ]
  · intro mem i hi
    rw [strncpy, written_placed, hk, htake]
    simp [List.getElem?_eq_getElem hi]

lemma length_strncpy (src : List UInt8) (n : ℕ) :
    ((text src).take n ++ List.replicate (n - (text src).length) 0).length = n := by
  simp
  omega

lemma inBounds_strncpy (src : List UInt8) (n : ℕ) : InBounds n (strncpy src n) := by
  rw [strncpy, inBounds_placed, length_strncpy]
  exact Or.inr (Nat.zero_add n).le

end Turbine.Library.CStrings
