import Mathlib

/-! Loops that go through a sequence while it stays below a bound, and when they end with all the
terms of an arithmetic progression that do. -/

namespace Turbine.Library.Progressions

def terms {α : Type} (f : ℕ → α) (n : ℕ) : List (ℕ × α) := (List.range n).map fun k => (k, f k)

lemma terms_succ {α : Type} (f : ℕ → α) (n : ℕ) : terms f (n + 1) =
    (0, f 0) :: (terms (fun k => f (k + 1)) n).map fun e => (e.1 + 1, e.2) := by
  simp [terms, List.range_succ_eq_map, Function.comp_def]

section Collect

variable {α : Type} [LE α] [DecidableLE α]

/-- The terms from `k` on, with their places, up to the first above `stop`; `none` while `fuel`
turns are not enough. -/
def collect (f : ℕ → α) (stop : α) : ℕ → ℕ → Option (List (ℕ × α))
  | 0, _ => none
  | fuel + 1, k =>
    if f k ≤ stop then (collect f stop fuel (k + 1)).map ((k, f k) :: ·) else some []

lemma collect_shift (f : ℕ → α) (stop : α) (fuel k : ℕ) : collect f stop fuel (k + 1) =
    (collect (fun j => f (j + 1)) stop fuel k).map (List.map fun e => (e.1 + 1, e.2)) := by
  induction fuel generalizing k with
  | zero => rfl
  | succ fuel ih =>
    rw [collect, collect, ih]
    split
    · cases collect (fun j => f (j + 1)) stop fuel (k + 1) <;> rfl
    · rfl

variable {f : ℕ → α} {stop : α} {r : List (ℕ × α)}

lemma collect_terms {n fuel : ℕ} (hall : ∀ k < n, f k ≤ stop) (hnot : ¬ f n ≤ stop)
    (hfuel : n < fuel) : collect f stop fuel 0 = some (terms f n) := by
  obtain ⟨fuel, rfl⟩ := Nat.exists_eq_add_one.mpr (Nat.zero_lt_of_lt hfuel)
  induction n generalizing f fuel with
  | zero =>
    rw [collect, if_neg hnot]
    rfl
  | succ n ih =>
    obtain ⟨fuel, rfl⟩ := Nat.exists_eq_add_one.mpr (Nat.zero_lt_of_lt (Nat.lt_of_succ_lt_succ hfuel))
    rw [collect, if_pos (hall 0 (Nat.succ_pos n)), collect_shift,
      ih (fun k hk => hall (k + 1) (Nat.succ_lt_succ hk)) hnot fuel (Nat.lt_of_succ_lt_succ hfuel),
      terms_succ]
    rfl

lemma collect_count {n fuel : ℕ} (h : ∀ k, k < n ↔ f k ≤ stop) (hfuel : n < fuel) :
    collect f stop fuel 0 = some (terms f n) :=
  collect_terms (fun k hk => (h k).mp hk) (mt (h n).mpr (lt_irrefl n)) hfuel

/-- The loop ends at the first term above the bound. -/
lemma eq_terms_of_collect {fuel : ℕ} (h : collect f stop fuel 0 = some r) :
    ∃ n, ¬ f n ≤ stop ∧ r = terms f n := by
  induction fuel generalizing f r with
  | zero => cases h
  | succ fuel ih =>
    rw [collect] at h
    split at h
    · obtain ⟨r', hr', rfl⟩ := Option.map_eq_some_iff.mp h
      rw [collect_shift] at hr'
      obtain ⟨r'', hr'', rfl⟩ := Option.map_eq_some_iff.mp hr'
      obtain ⟨n, hnot, rfl⟩ := ih hr''
      exact ⟨n + 1, hnot, (terms_succ f n).symm⟩
    · rename_i hnot
      cases h
      exact ⟨0, hnot, rfl⟩

end Collect

/-- All the terms that are not above the bound, each at its place. -/
def Lists {α : Type} [LE α] (f : ℕ → α) (stop : α) (r : List (ℕ × α)) : Prop :=
  ∀ k v, (k, v) ∈ r ↔ v = f k ∧ v ≤ stop

lemma lists_terms {α : Type} [LE α] {f : ℕ → α} {stop : α} {n : ℕ}
    (h : ∀ k, k < n ↔ f k ≤ stop) : Lists f stop (terms f n) := by
  intro k v
  simp only [terms, List.mem_map, List.mem_range, Prod.mk.injEq]
  constructor
  · rintro ⟨_, hk, rfl, rfl⟩
    exact ⟨rfl, (h _).mp hk⟩
  · rintro ⟨rfl, hv⟩
    exact ⟨k, (h k).mpr hv, rfl, rfl⟩

section Progression

variable {α : Type} [Ring α]

def progression (start step : α) (k : ℕ) : α := start + k * step

lemma progression_zero (start step : α) : progression start step 0 = start := by
  simp [progression]

lemma progression_succ (start step : α) (k : ℕ) :
    progression start step k + step = progression start step (k + 1) := by
  simp only [progression, Nat.cast_succ, add_mul, one_mul, add_assoc]

variable [LinearOrder α] [IsStrictOrderedRing α] {start step stop : α}

lemma progression_anti (hstep : step ≤ 0) : Antitone (progression start step) := by
  intro j k hjk
  have hcast : (j : α) ≤ k := Nat.cast_le.mpr hjk
  exact add_le_add le_rfl (mul_le_mul_of_nonpos_right hcast hstep)

variable [Archimedean α]

/-- A progression that does not go up stays below a bound for ever once it is below it. -/
lemma not_lists_of_neg (hstep : step < 0) (n : ℕ) :
    ¬ Lists (progression start step) stop (terms (progression start step) n) := by
  intro hlists
  obtain ⟨m, hm⟩ := Archimedean.arch (start - stop) (neg_pos.mpr hstep)
  have hle : progression start step (max m n) ≤ stop := by
    apply (progression_anti hstep.le (le_max_left m n)).trans
    rw [nsmul_eq_mul, mul_neg, le_neg, neg_sub] at hm
    exact le_sub_iff_add_le'.mp hm
  have hmem := (hlists _ _).mpr ⟨rfl, hle⟩
  simp only [terms, List.mem_map, List.mem_range, Prod.mk.injEq] at hmem
  obtain ⟨k, hk, rfl, -⟩ := hmem
  exact absurd hk (not_lt.mpr (le_max_right m n))

variable {count : ℕ} (hcount : 0 < step → ∀ k, k < count ↔ progression start step k ≤ stop)

include hcount

/-- The loop ends with all the terms that are not above the bound, of which `count` says how many
there are when the progression goes up. -/
theorem collect_lists_iff :
    (∃ fuel r, collect (progression start step) stop fuel 0 = some r ∧
      Lists (progression start step) stop r ∧
      (0 < step → r = terms (progression start step) count)) ↔
      0 < step ∨ step = 0 ∧ stop < start := by
  constructor
  · rintro ⟨fuel, r, hr, hlists, -⟩
    obtain ⟨n, hnot, rfl⟩ := eq_terms_of_collect hr
    rcases lt_trichotomy 0 step with hstep | rfl | hstep
    · exact .inl hstep
    · exact .inr ⟨rfl, by simpa [progression] using hnot⟩
    · exact absurd hlists (not_lists_of_neg hstep n)
  · rintro (hstep | ⟨rfl, hlt⟩)
    · exact ⟨_, _, collect_count (hcount hstep) (Nat.lt_succ_self _), lists_terms (hcount hstep), fun _ => rfl⟩
    · have hnone : ∀ k, k < 0 ↔ progression start 0 k ≤ stop := by
        intro k
        simpa [progression] using hlt
      exact ⟨_, _, collect_count hnone Nat.one_pos, lists_terms hnone, fun h => absurd h (lt_irrefl 0)⟩

omit [Archimedean α] in
theorem collect_ends_iff :
    (∃ fuel, (collect (progression start step) stop fuel 0).isSome) ↔ 0 < step ∨ stop < start := by
  constructor
  · rintro ⟨fuel, hsome⟩
    obtain ⟨r, hr⟩ := Option.isSome_iff_exists.mp hsome
    obtain ⟨n, hnot, -⟩ := eq_terms_of_collect hr
    by_contra h
    obtain ⟨hstep, hle⟩ := not_or.mp h
    apply hnot
    calc progression start step n ≤ progression start step 0 :=
          progression_anti (not_lt.mp hstep) (Nat.zero_le n)
      _ = start := progression_zero start step
      _ ≤ stop := not_lt.mp hle
  · rintro (hstep | hlt)
    · exact ⟨_, Option.isSome_iff_exists.mpr ⟨_, collect_count (hcount hstep) (Nat.lt_succ_self _)⟩⟩
    · exact ⟨1, by simp [collect, progression_zero, hlt]⟩

end Progression

end Turbine.Library.Progressions
