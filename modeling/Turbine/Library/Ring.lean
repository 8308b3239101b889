import Mathlib

/-! A queue laid out in the cells of a ring, from a start position onwards. -/

namespace Turbine.Library.Ring

variable {α β : Type*}

/-- The cells from `start` onwards, taken modulo `n`, hold `xs`. -/
def Holds (cells : ℕ → α) (n start : ℕ) (xs : List α) : Prop :=
  ∀ i, ∀ h : i < xs.length, cells ((start + i) % n) = xs[i]

lemma position_ne {n start i j : ℕ} (hij : i < j) (hj : j < n) :
    (start + i) % n ≠ (start + j) % n := by
  intro h
  have hmod : i ≡ j [MOD n] := Nat.ModEq.add_left_cancel' start h
  have := hmod.eq_of_lt_of_lt (by omega) hj
  omega

lemma holds_nil (cells : ℕ → α) (n start : ℕ) : Holds cells n start [] :=
  fun _ h => absurd h (Nat.not_lt_zero _)

lemma holds_append {cells : ℕ → α} {n start : ℕ} {xs ys : List α} (hx : Holds cells n start xs)
    (hy : Holds cells n ((start + xs.length) % n) ys) : Holds cells n start (xs ++ ys) := by
  intro i h
  by_cases hi : i < xs.length
  · rw [List.getElem_append_left hi]
    exact hx i hi
  · have hlen : i - xs.length < ys.length := by
      rw [List.length_append] at h
      omega
    rw [List.getElem_append_right (by omega), ← hy (i - xs.length) hlen, Nat.mod_add_mod]
    congr 2
    omega

lemma Holds.first {cells : ℕ → α} {n start : ℕ} {x : α} {xs : List α}
    (h : Holds cells n start (x :: xs)) (hstart : start < n) : cells start = x := by
  have hfirst := h 0 (by simp)
  rw [Nat.add_zero, Nat.mod_eq_of_lt hstart] at hfirst
  exact hfirst

lemma Holds.pop {cells : ℕ → α} {n start : ℕ} {x : α} {xs : List α}
    (h : Holds cells n start (x :: xs)) : Holds cells n ((start + 1) % n) xs := by
  intro i hi
  have hnext := h (i + 1) (by simpa using hi)
  simp only [List.getElem_cons_succ] at hnext
  rw [Nat.mod_add_mod, ← hnext]
  congr 2
  omega

lemma Holds.update {cells : ℕ → α} {n start : ℕ} {xs : List α} (h : Holds cells n start xs)
    (hlen : xs.length < n) (x : α) :
    Holds (Function.update cells ((start + xs.length) % n) x) n start xs := by
  intro i hi
  rw [Function.update_of_ne (position_ne hi hlen)]
  exact h i hi

lemma Holds.push {cells : ℕ → α} {n start : ℕ} {xs : List α} (h : Holds cells n start xs)
    (hlen : xs.length < n) (x : α) :
    Holds (Function.update cells ((start + xs.length) % n) x) n start (xs ++ [x]) := by
  apply holds_append (h.update hlen x)
  intro i hi
  obtain rfl : i = 0 := by simpa using hi
  simp

/-- Cells that differ from each other hold a list without repetitions. -/
lemma Holds.nodup {cells : ℕ → α} {n start : ℕ} {xs : List α} (h : Holds cells n start xs)
    (hcells : Set.InjOn cells (Set.Iio n)) (hlen : xs.length ≤ n) : xs.Nodup := by
  rw [List.nodup_iff_injective_getElem]
  rintro ⟨i, hi⟩ ⟨j, hj⟩ he
  simp only at he
  rw [← h i hi, ← h j hj] at he
  have hn : 0 < n := by omega
  have hp := hcells (Nat.mod_lt _ hn) (Nat.mod_lt _ hn) he
  rcases lt_trichotomy i j with hlt | rfl | hlt
  · exact absurd hp (position_ne hlt (by omega))
  · rfl
  · exact absurd hp.symm (position_ne hlt (by omega))

end Turbine.Library.Ring
