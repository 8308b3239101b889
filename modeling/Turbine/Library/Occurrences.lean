import Mathlib

/-! Occurrences of one list in another, searched from left to right, and their replacement. -/

namespace Turbine.Library.Occurrences

variable {α : Type} {t s : List α} {start stop : ℕ}

def Occurs (t s : List α) (i : ℕ) : Prop := t <+: s.drop i

lemma Occurs.le_length {i : ℕ} (h : Occurs t s i) (ht : t ≠ []) : i + t.length ≤ s.length := by
  have hle := h.length_le
  have hpos := List.length_pos_of_ne_nil ht
  rw [List.length_drop] at hle
  omega

lemma Occurs.drop_eq {i : ℕ} (h : Occurs t s i) : s.drop i = t ++ s.drop (i + t.length) := by
  obtain ⟨rest, hrest⟩ := h
  rw [← List.drop_drop, ← hrest, List.drop_left]

/-! ### The first occurrence -/

section First

variable [DecidableEq α]

def findIn (t : List α) : List α → ℕ → Option ℕ
  | [], _ => none
  | a :: rest, i => if t.isPrefixOf (a :: rest) then some i else findIn t rest (i + 1)

/-- The first place from `start` on at which `t` stands in `s`. -/
def first? (t s : List α) (start : ℕ) : Option ℕ := findIn t (s.drop start) start

lemma findIn_drop {rest : List α} (start : ℕ) (hrest : s.drop start = rest) (ht : t ≠ []) :
    match findIn t rest start with
    | some i => start ≤ i ∧ Occurs t s i ∧ ∀ j, start ≤ j → j < i → ¬ Occurs t s j
    | none => ∀ j ≥ start, ¬ Occurs t s j := by
  induction rest generalizing start with
  | nil =>
    intro j hj hocc
    have hlen := List.drop_eq_nil_iff.mp hrest
    have hle := hocc.le_length ht
    have hpos := List.length_pos_of_ne_nil ht
    omega
  | cons a rest ih =>
    rw [findIn]
    by_cases hocc : Occurs t s start
    · rw [if_pos (by rwa [List.isPrefixOf_iff_prefix, ← hrest])]
      exact ⟨le_rfl, hocc, fun j hj hlt => absurd hlt (not_lt.mpr hj)⟩
    · rw [if_neg (by rwa [List.isPrefixOf_iff_prefix, ← hrest])]
      have htail : s.drop (start + 1) = rest := by
        rw [← List.drop_drop, hrest, List.drop_one, List.tail_cons]
      have hskip : ∀ j ≥ start, Occurs t s j → start + 1 ≤ j := by
        intro j hj hocc'
        exact Nat.lt_of_le_of_ne hj fun heq => hocc (heq ▸ hocc')
      have h := ih (start + 1) htail
      cases hfind : findIn t rest (start + 1) with
      | none =>
        rw [hfind] at h
        intro j hj hocc'
        exact h j (hskip j hj hocc') hocc'
      | some i =>
        rw [hfind] at h
        obtain ⟨hle, hi, hbefore⟩ := h
        exact ⟨by omega, hi, fun j hj hlt hocc' => hbefore j (hskip j hj hocc') hlt hocc'⟩

lemma first?_eq_some {i : ℕ} (ht : t ≠ []) (h : first? t s start = some i) :
    start ≤ i ∧ Occurs t s i ∧ ∀ j, start ≤ j → j < i → ¬ Occurs t s j := by
  have hfind := findIn_drop (s := s) start rfl ht
  rw [← first?, h] at hfind
  exact hfind

lemma first?_eq_none (ht : t ≠ []) (h : first? t s start = none) :
    ∀ j ≥ start, ¬ Occurs t s j := by
  have hfind := findIn_drop (s := s) start rfl ht
  rw [← first?, h] at hfind
  exact hfind

end First

/-! ### Occurrences that do not overlap -/

/-- The occurrences that lie from `start` on and before `stop`, each the first after the end of the
one before. -/
inductive Greedy (t s : List α) (stop : ℕ) : ℕ → List ℕ → Prop
  | none {start : ℕ} (h : ∀ i ≥ start, Occurs t s i → stop < i + t.length) :
      Greedy t s stop start []
  | next {start i : ℕ} {rest : List ℕ} (hle : start ≤ i) (hi : Occurs t s i)
      (hstop : i + t.length ≤ stop) (hfirst : ∀ j, start ≤ j → j < i → ¬ Occurs t s j)
      (h : Greedy t s stop (i + t.length) rest) : Greedy t s stop start (i :: rest)

theorem exists_greedy [DecidableEq α] (ht : t ≠ []) (s : List α) (start stop : ℕ) :
    ∃ found, Greedy t s stop start found := by
  have hpos := List.length_pos_of_ne_nil ht
  induction hn : s.length + 1 - start using Nat.strong_induction_on generalizing start with
  | _ n ih =>
    cases hfind : first? t s start with
    | none => exact ⟨[], .none fun i hi hocc => absurd hocc (first?_eq_none ht hfind i hi)⟩
    | some i =>
      obtain ⟨hle, hi, hbefore⟩ := first?_eq_some ht hfind
      by_cases hstop : i + t.length ≤ stop
      · have hlen := hi.le_length ht
        obtain ⟨rest, hrest⟩ := ih (s.length + 1 - (i + t.length)) (by omega) _ rfl
        exact ⟨i :: rest, .next hle hi hstop hbefore hrest⟩
      · refine ⟨[], .none fun j hj hocc => ?_⟩
        by_contra hlt
        exact hbefore j hj (by omega) hocc

lemma Greedy.first_eq_none [DecidableEq α] (ht : t ≠ []) (h : Greedy t s stop start []) :
    ∀ i, first? t s start = some i → stop < i + t.length := by
  intro i hfind
  obtain ⟨hle, hi, -⟩ := first?_eq_some ht hfind
  cases h with
  | none hnone => exact hnone i hle hi

lemma Greedy.first_eq_some [DecidableEq α] (ht : t ≠ []) {i : ℕ} {rest : List ℕ}
    (h : Greedy t s stop start (i :: rest)) : first? t s start = some i := by
  cases h with
  | next hle hi hstop hfirst _ =>
    cases hfind : first? t s start with
    | none => exact absurd hi (first?_eq_none ht hfind i hle)
    | some j =>
      obtain ⟨hlej, hj, hbefore⟩ := first?_eq_some ht hfind
      rcases lt_trichotomy i j with hlt | rfl | hlt
      · exact absurd hi (hbefore i hle hlt)
      · rfl
      · exact absurd hj (hfirst j hlej hlt)

lemma Greedy.eq_nil_iff {found : List ℕ} (ht : t ≠ []) (h : Greedy t s s.length start found) :
    found = [] ↔ ∀ i ≥ start, ¬ Occurs t s i := by
  cases h with
  | none hnone =>
    exact iff_of_true rfl fun i hle hi => absurd (hnone i hle hi) (not_lt.mpr (hi.le_length ht))
  | @next _ i rest hle hi _ _ _ =>
    exact iff_of_false (List.cons_ne_nil i rest) fun hnone => hnone i hle hi

/-! ### Replacement -/

/-- `s` from `start` on, with `r` in the place of the `n` letters at each of the positions. -/
def replaced (s r : List α) (n : ℕ) : ℕ → List ℕ → List α
  | start, [] => s.drop start
  | start, i :: rest => (s.drop start).take (i - start) ++ r ++ replaced s r n (i + n) rest

lemma Greedy.replaced_self {found : List ℕ} (h : Greedy t s stop start found) :
    replaced s t t.length start found = s.drop start := by
  induction h with
  | none => rfl
  | @next start i rest hle hi _ _ _ ih =>
    rw [replaced, ih, List.append_assoc, ← hi.drop_eq]
    have hi' : i = start + (i - start) := by omega
    conv_lhs => rw [hi', ← List.drop_drop, Nat.add_sub_cancel_left, List.take_append_drop]

lemma length_replaced (s r t : List α) (n start : ℕ) (found : List ℕ) :
    (replaced s r n start found).length + found.length * t.length =
      (replaced s t n start found).length + found.length * r.length := by
  induction found generalizing start with
  | nil => simp [replaced]
  | cons i rest ih =>
    have hrest := ih (i + n)
    simp only [replaced, List.length_append, List.length_cons, Nat.succ_mul]
    omega

/-- A replacement changes the text unless nothing is replaced or it is by the same. -/
lemma Greedy.replaced_eq_iff {found : List ℕ} (h : Greedy t s stop start found) (r : List α) :
    replaced s r t.length start found = s.drop start ↔ found = [] ∨ r = t := by
  constructor
  · intro heq
    rw [← h.replaced_self] at heq
    cases found with
    | nil => exact .inl rfl
    | cons i rest =>
      have hlength := length_replaced s r t t.length start (i :: rest)
      rw [heq] at hlength
      have hrt : t.length = r.length :=
        Nat.eq_of_mul_eq_mul_left (Nat.succ_pos _) (Nat.add_left_cancel hlength)
      rw [replaced, replaced, List.append_assoc, List.append_assoc] at heq
      exact .inr (List.append_inj_left (List.append_cancel_left heq) hrt.symm)
  · rintro (rfl | rfl)
    · rfl
    · exact h.replaced_self

end Turbine.Library.Occurrences
