import Mathlib

/-! Number, average and sum of squared deviations of samples, and how those of two lots of samples
combine. -/

namespace Turbine.Library.Moments

variable {K : Type} [Field K]

structure Summary (K : Type) where
  n : ℕ
  mean : K
  m2 : K

def average (xs : Multiset K) : K := xs.sum / xs.card

def squaredDeviations (m : K) (xs : Multiset K) : K := (xs.map fun x => (x - m) ^ 2).sum

def Summary.of (xs : Multiset K) : Summary K where
  n := xs.card
  mean := average xs
  m2 := squaredDeviations (average xs) xs

def Summary.combine (a b : Summary K) : Summary K where
  n := a.n + b.n
  mean := (a.mean * a.n + b.mean * b.n) / (a.n + b.n : ℕ)
  m2 := a.m2 + b.m2 + (b.mean - a.mean) ^ 2 * (a.n * b.n / (a.n + b.n : ℕ))

/-- One more sample, with the deviation from the old average and from the new one. -/
def Summary.push (a : Summary K) (x : K) : Summary K :=
  let delta := x - a.mean
  let mean := a.mean + delta / (a.n + 1)
  { n := a.n + 1
    mean := mean
    m2 := a.m2 + delta * (x - mean) }

lemma squaredDeviations_add (m : K) (xs ys : Multiset K) :
    squaredDeviations m (xs + ys) = squaredDeviations m xs + squaredDeviations m ys := by
  simp [squaredDeviations]

variable [CharZero K]

lemma card_ne_zero {xs : Multiset K} (h : xs ≠ 0) : (xs.card : K) ≠ 0 := by
  simpa using h

lemma average_mul_card {xs : Multiset K} (h : xs ≠ 0) : average xs * xs.card = xs.sum :=
  div_mul_cancel₀ _ (card_ne_zero h)

/-- Deviations from another point than the average. -/
lemma squaredDeviations_eq (m : K) {xs : Multiset K} (h : xs ≠ 0) :
    squaredDeviations m xs =
      squaredDeviations (average xs) xs + xs.card * (average xs - m) ^ 2 := by
  have hexpand : ∀ (p : K) (ys : Multiset K), squaredDeviations p ys =
      (ys.map fun y => y ^ 2).sum - 2 * p * ys.sum + ys.card * p ^ 2 := by
    intro p ys
    induction ys using Multiset.induction with
    | empty => simp [squaredDeviations]
    | cons y ys ih =>
      simp only [squaredDeviations, Multiset.map_cons, Multiset.sum_cons, Multiset.card_cons]
        at ih ⊢
      rw [ih]
      push_cast
      ring
  rw [hexpand m, hexpand (average xs), ← average_mul_card h]
  ring

theorem combine_of {xs ys : Multiset K} (hx : xs ≠ 0) (hy : ys ≠ 0) :
    (Summary.of xs).combine (Summary.of ys) = Summary.of (xs + ys) := by
  have hxy : xs + ys ≠ 0 := by simp [hx]
  have hn : ((xs.card : K) + ys.card) ≠ 0 := by
    have hcard := card_ne_zero hxy
    rwa [Multiset.card_add, Nat.cast_add] at hcard
  have haverage : average (xs + ys) =
      (average xs * xs.card + average ys * ys.card) / (xs.card + ys.card) := by
    rw [average_mul_card hx, average_mul_card hy, average, Multiset.sum_add, Multiset.card_add,
      Nat.cast_add]
  simp only [Summary.combine, Summary.of, Multiset.card_add, Nat.cast_add, haverage]
  congr 1
  set m := (average xs * xs.card + average ys * ys.card) / (xs.card + ys.card) with hm
  rw [squaredDeviations_add, squaredDeviations_eq m hx, squaredDeviations_eq m hy, hm]
  field_simp
  ring

theorem push_of (x : K) (xs : Multiset K) :
    (Summary.of xs).push x = Summary.of (x ::ₘ xs) := by
  by_cases hxs : xs = 0
  · simp [Summary.push, Summary.of, average, squaredDeviations, hxs]
  · have hn : ((xs.card : K) + 1) ≠ 0 := Nat.cast_add_one_ne_zero _
    rw [← Multiset.singleton_add, add_comm, ← combine_of hxs (Multiset.singleton_ne_zero x)]
    simp only [Summary.push, Summary.combine, Summary.of, average, squaredDeviations,
      Multiset.card_singleton, Multiset.sum_singleton, Multiset.map_singleton, Nat.cast_add,
      Nat.cast_one, div_one, mul_one, sub_self]
    congr 1
    · field_simp
      ring
    · field_simp
      ring

end Turbine.Library.Moments
