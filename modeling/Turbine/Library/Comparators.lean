import Mathlib

/-! Sorting by a procedure that compares two entries. -/

namespace Turbine.Library.Comparators

/-! ### Signs -/

section Signs

variable {κ : Type*} [LinearOrder κ]

/-- The order of two keys as -1, 0 or 1. -/
def threeWay (a b : κ) : ℤ := if a < b then -1 else if b < a then 1 else 0

lemma threeWay_of_lt {a b : κ} (h : a < b) : threeWay a b = -1 := if_pos h

lemma threeWay_of_gt {a b : κ} (h : b < a) : threeWay a b = 1 := by
  rw [threeWay, if_neg h.not_gt, if_pos h]

@[simp] lemma threeWay_self (a : κ) : threeWay a a = 0 := by
  rw [threeWay, if_neg (lt_irrefl a), if_neg (lt_irrefl a)]

lemma threeWay_nonpos_iff {a b : κ} : threeWay a b ≤ 0 ↔ a ≤ b := by
  rcases lt_trichotomy a b with h | rfl | h
  · simp [threeWay_of_lt h, h.le]
  · simp
  · simp [threeWay_of_gt h, h]

lemma threeWay_eq_zero_iff {a b : κ} : threeWay a b = 0 ↔ a = b := by
  rcases lt_trichotomy a b with h | rfl | h
  · simp [threeWay_of_lt h, h.ne]
  · simp
  · simp [threeWay_of_gt h, h.ne']

lemma threeWay_swap (a b : κ) : threeWay b a = -threeWay a b := by
  rcases lt_trichotomy a b with h | rfl | h
  · rw [threeWay_of_lt h, threeWay_of_gt h, neg_neg]
  · simp
  · rw [threeWay_of_lt h, threeWay_of_gt h]

/-- The second keys are compared when the first ones are the same. -/
lemma threeWay_toLex {κ' : Type*} [LinearOrder κ'] (a b : κ) (a' b' : κ') :
    threeWay (toLex (a, a')) (toLex (b, b')) =
      if threeWay a b ≠ 0 then threeWay a b else threeWay a' b' := by
  rcases lt_trichotomy a b with h | rfl | h
  · have hlex : toLex (a, a') < toLex (b, b') := Prod.Lex.toLex_lt_toLex.mpr (.inl h)
    rw [threeWay_of_lt hlex, threeWay_of_lt h, if_pos (by decide)]
  · simp [threeWay, Prod.Lex.toLex_lt_toLex]
  · have hlex : toLex (b, b') < toLex (a, a') := Prod.Lex.toLex_lt_toLex.mpr (.inl h)
    rw [threeWay_of_gt hlex, threeWay_of_gt h, if_pos (by decide)]

end Signs

/-! ### Comparators -/

section Orders

variable {α κ : Type*} [LinearOrder κ]

/-- The two ways to compare two entries have opposite signs, and only an entry and itself compare
as equal. -/
def Opposite (cmp : α → α → ℤ) (a b : α) : Prop :=
  (cmp b a).sign = -(cmp a b).sign ∧ (cmp a b = 0 → a = b)

def TransitiveOn (cmp : α → α → ℤ) (S : Set α) : Prop :=
  ∀ a ∈ S, ∀ b ∈ S, ∀ c ∈ S, cmp a b ≤ 0 → cmp b c ≤ 0 → cmp a c ≤ 0

/-- Different entries are compared by their keys, which are different. -/
structure Keyed (cmp : α → α → ℤ) (key : α → κ) (S : Set α) : Prop where
  compares : ∀ a ∈ S, ∀ b ∈ S, a ≠ b → cmp a b = threeWay (key a) (key b)
  injective : Set.InjOn key S

variable {cmp : α → α → ℤ} {key : α → κ} {S : Set α}

lemma Keyed.opposite (h : Keyed cmp key S) {a b : α} (ha : a ∈ S) (hb : b ∈ S) (hne : a ≠ b) :
    Opposite cmp a b := by
  refine ⟨?_, ?_⟩
  · rw [h.compares a ha b hb hne, h.compares b hb a ha hne.symm, threeWay_swap, Int.sign_neg]
  · intro hzero
    rw [h.compares a ha b hb hne, threeWay_eq_zero_iff] at hzero
    exact h.injective ha hb hzero

lemma Keyed.le (h : Keyed cmp key S) {a b : α} (ha : a ∈ S) (hb : b ∈ S) (hle : cmp a b ≤ 0) :
    key a ≤ key b := by
  by_cases hne : a = b
  · rw [hne]
  · rwa [h.compares a ha b hb hne, threeWay_nonpos_iff] at hle

lemma Keyed.transitive (h : Keyed cmp key S) : TransitiveOn cmp S := by
  intro a ha b hb c hc hab hbc
  by_cases hne : a = c
  · subst hne
    have heq : a = b := h.injective ha hb (le_antisymm (h.le ha hb hab) (h.le hb hc hbc))
    rwa [← heq] at hab
  · rw [h.compares a ha c hc hne, threeWay_nonpos_iff]
    exact (h.le ha hb hab).trans (h.le hb hc hbc)

end Orders

/-! ### Sorting -/

section Sorting

variable {α κ : Type*} [LinearOrder κ]

/-- `lsort -command`. -/
def lsort (cmp : α → α → ℤ) (list : List α) : List α := list.mergeSort fun a b => cmp a b ≤ 0

/-- An entry of a list without repetitions is never compared with itself. -/
lemma mergeSort_congr {r s : α → α → Bool} (l : List α) (hnodup : l.Nodup)
    (h : ∀ a ∈ l, ∀ b ∈ l, a ≠ b → r a b = s a b) : l.mergeSort r = l.mergeSort s := by
  induction hlength : l.length using Nat.strong_induction_on generalizing l with
  | h n ih =>
    match l, hlength with
    | [], _ => rw [List.mergeSort_nil, List.mergeSort_nil]
    | [a], _ => rw [List.mergeSort_singleton, List.mergeSort_singleton]
    | a :: b :: xs, hlength =>
      rw [List.length_cons, List.length_cons] at hlength
      rw [List.mergeSort, List.mergeSort]
      simp only [List.MergeSort.Internal.splitInTwo_fst, List.MergeSort.Internal.splitInTwo_snd]
      generalize hk : (xs.length + 1 + 1 + 1) / 2 = k
      have hsplit : (a :: b :: xs).take k ++ (a :: b :: xs).drop k = a :: b :: xs :=
        List.take_append_drop k _
      have hdisjoint : ∀ x ∈ (a :: b :: xs).take k, ∀ y ∈ (a :: b :: xs).drop k, x ≠ y := by
        rw [← hsplit, List.nodup_append] at hnodup
        exact hnodup.2.2
      have htake := List.take_subset k (a :: b :: xs)
      have hdrop := List.drop_subset k (a :: b :: xs)
      rw [ih _ (by rw [List.length_take, List.length_cons, List.length_cons]; omega) _
          (hnodup.sublist (List.take_sublist _ _))
          (fun x hx y hy => h x (htake hx) y (htake hy)) rfl,
        ih _ (by rw [List.length_drop, List.length_cons, List.length_cons]; omega) _
          (hnodup.sublist (List.drop_sublist _ _))
          (fun x hx y hy => h x (hdrop hx) y (hdrop hy)) rfl]
      have hcross : ∀ x ∈ ((a :: b :: xs).take k).mergeSort s,
          ∀ y ∈ ((a :: b :: xs).drop k).mergeSort s, r x y = s (id x) (id y) := by
        intro x hx y hy
        rw [List.mem_mergeSort] at hx hy
        exact h x (htake hx) y (hdrop hy) (hdisjoint x hx y hy)
      simpa only [List.map_id] using List.map_merge hcross

variable {cmp : α → α → ℤ} {key : α → κ} {S : Set α}

lemma lsort_perm (cmp : α → α → ℤ) (l : List α) : (lsort cmp l).Perm l := List.mergeSort_perm _ _

lemma Keyed.lsort_eq (h : Keyed cmp key S) {l : List α} (hl : ∀ a ∈ l, a ∈ S) (hnodup : l.Nodup) :
    lsort cmp l = l.mergeSort fun a b => key a ≤ key b := by
  apply mergeSort_congr l hnodup
  intro a ha b hb hne
  rw [h.compares a (hl a ha) b (hl b hb) hne, decide_eq_decide]
  exact threeWay_nonpos_iff

lemma Keyed.lsort_pairwise (h : Keyed cmp key S) {l : List α} (hl : ∀ a ∈ l, a ∈ S)
    (hnodup : l.Nodup) : (lsort cmp l).Pairwise fun a b => key a ≤ key b := by
  rw [h.lsort_eq hl hnodup]
  have hsorted : (l.mergeSort fun a b => key a ≤ key b).Pairwise
      fun a b => decide (key a ≤ key b) = true := by
    apply List.pairwise_mergeSort
    · intro a b c hab hbc
      rw [decide_eq_true_eq] at hab hbc ⊢
      exact hab.trans hbc
    · intro a b
      simpa using le_total (key a) (key b)
  simpa only [decide_eq_true_eq] using hsorted

/-- Entries with different keys are sorted into the same list, whatever their arrangement. -/
lemma Keyed.lsort_eq_of_perm (h : Keyed cmp key S) {l l' : List α} (hl : ∀ a ∈ l, a ∈ S)
    (hnodup : l.Nodup) (hperm : l.Perm l') : lsort cmp l = lsort cmp l' := by
  have hl' : ∀ a ∈ l', a ∈ S := fun a ha => hl a (hperm.mem_iff.mpr ha)
  refine List.Perm.eq_of_pairwise ?_ (h.lsort_pairwise hl hnodup)
    (h.lsort_pairwise hl' (hperm.nodup_iff.mp hnodup))
    (((lsort_perm cmp l).trans hperm).trans (lsort_perm cmp l').symm)
  intro a b ha hb hab hba
  rw [(lsort_perm cmp l).mem_iff] at ha
  rw [(lsort_perm cmp l').mem_iff] at hb
  exact h.injective (hl a ha) (hl' b hb) (le_antisymm hab hba)

end Sorting

end Turbine.Library.Comparators
