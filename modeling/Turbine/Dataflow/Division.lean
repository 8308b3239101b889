import Turbine.Dataflow.Runs

/-! The quotients and remainders that runs store are those of Java. -/

namespace Turbine.Dataflow

open Turbine.Library Radix Dataflow Turbine.Data.Integers

/-- What Java's division leaves: a remainder that is smaller than the divisor and has the sign of
the dividend, and a quotient that goes with it, but for the one that does not fit in 64 bits. -/
structure Divides (x y quotient remainder : ℤ) : Prop where
  divisor : y ≠ 0
  small : |remainder| < |y|
  sign : 0 ≤ x * remainder
  split : y * quotient + remainder = x ∨
    x = -2 ^ 63 ∧ y = -1 ∧ quotient = -2 ^ 63 ∧ remainder = 0

lemma abs_tmod_lt (x : ℤ) {y : ℤ} (hy : y ≠ 0) : |Int.tmod x y| < |y| := by
  rw [Int.abs_eq_natAbs, Int.abs_eq_natAbs, Int.natAbs_tmod, Int.ofNat_lt]
  exact Nat.mod_lt _ (Int.natAbs_pos.mpr hy)

lemma tmod_between (x y : ℤ) :
    (0 ≤ x → 0 ≤ Int.tmod x y ∧ Int.tmod x y ≤ x) ∧
      (x < 0 → x ≤ Int.tmod x y ∧ Int.tmod x y ≤ 0) := by
  have hle : (Int.tmod x y).natAbs ≤ x.natAbs := by
    rw [Int.natAbs_tmod]
    exact Nat.mod_le _ _
  constructor
  · intro hx
    have hnonneg := Int.tmod_nonneg y hx
    exact ⟨hnonneg, by omega⟩
  · intro hx
    have hnonneg := Int.tmod_nonneg y (a := -x) (by omega)
    rw [Int.neg_tmod] at hnonneg
    exact ⟨by omega, by omega⟩

lemma tdiv_fits_or {x y : ℤ} (hx : Fits64 x) :
    Fits64 (Int.tdiv x y) ∨ x = -2 ^ 63 ∧ y = -1 := by
  obtain ⟨hlow, hhigh⟩ := hx
  have hle := Int.natAbs_tdiv_le_natAbs x y
  by_cases hfits : Fits64 (Int.tdiv x y)
  · exact .inl hfits
  have hx : x = -2 ^ 63 := by
    rw [Fits64] at hfits
    omega
  have hquot : Int.tdiv x y = 2 ^ 63 := by
    rw [Fits64] at hfits
    omega
  have hmul : (Int.tdiv x y).natAbs * y.natAbs ≤ x.natAbs := by
    rw [Int.natAbs_tdiv]
    exact Nat.div_mul_le_self _ _
  have hy : y.natAbs ≤ 1 := by
    rw [hquot, hx] at hmul
    norm_num at hmul
    omega
  refine .inr ⟨hx, ?_⟩
  obtain rfl | rfl | rfl : y = 0 ∨ y = 1 ∨ y = -1 := by omega
  · simp at hquot
  · rw [Int.tdiv_one] at hquot
    omega
  · rfl

lemma divides_of_wide {x y m n : ℤ} (hx : Fits64 x) (hy : y ≠ 0)
    (hm : wide (Int.tdiv x y) = some m) (hn : wide (Int.tmod x y) = some n) :
    Divides x y m n := by
  have hbetween := tmod_between x y
  have hn' : n = Int.tmod x y := by
    obtain ⟨hlow, hhigh⟩ := hx
    have hfits : Fits64 (Int.tmod x y) := ⟨by omega, by omega⟩
    rw [wide_of_fits hfits] at hn
    exact (Option.some.inj hn).symm
  subst hn'
  refine ⟨hy, abs_tmod_lt x hy, ?_, ?_⟩
  · rcases le_or_gt 0 x with hpos | hneg
    · exact mul_nonneg hpos (hbetween.1 hpos).1
    · exact mul_nonneg_of_nonpos_of_nonpos hneg.le (hbetween.2 hneg).2
  · rcases tdiv_fits_or (y := y) hx with hfits | ⟨rfl, rfl⟩
    · rw [wide_of_fits hfits, Option.some_inj] at hm
      subst hm
      exact .inl (Int.mul_tdiv_add_tmod x y)
    · refine .inr ⟨rfl, rfl, ?_, by decide⟩
      exact (Option.some.inj hm).symm.trans (by decide)

/-! ### What is stored -/

variable {W : Type} {types : ℕ → Ty} {calls done failed : Multiset Call} {refs : ℕ → ℤ}
  {w : World W}

lemma Inv.compute_eq (h : Inv types calls refs done failed w) (hcompiled : Compiled types calls)
    {call : Call} (hcall : call ∈ calls) {d : Datum} (hd : w.server call.output = some d)
    {vals : ℕ → Datum} (hvals : ∀ i ∈ call.inputs, w.server i = some (vals i)) :
    call.compute (call.inputs.map vals) = .ok d := by
  obtain ⟨t, ht, hout, vals', hvals', hcompute⟩ := (h.explains.means _ d hd).exists_task
  obtain rfl := hcompiled.single.eq_of_output ht (mem_tasks hcall) hout
  rw [Means.map_eq hcompiled.single hvals' fun i hi => h.explains.means i _ (hvals i hi)]
    at hcompute
  exact hcompute

lemma Inv.binary_eq (h : Inv types calls refs done failed w) (hcompiled : Compiled types calls)
    {op : Binary} {c a b : ℕ} (hcall : .binary op c a b ∈ calls) {x y z : ℤ}
    (ha : w.server a = some (.integer x)) (hb : w.server b = some (.integer y))
    (hc : w.server c = some (.integer z)) :
    ∃ n, op.meaning x y = .ok n ∧ wide n = some z := by
  have hvals : ∀ i ∈ [a, b], w.server i = some ((w.server i).getD (.integer 0)) := by
    intro i hi
    rcases List.mem_pair.mp hi with rfl | rfl
    · rw [ha, Option.getD_some]
    · rw [hb, Option.getD_some]
  have hcompute := h.compute_eq hcompiled hcall hc hvals
  simp only [Call.inputs, List.map_cons, List.map_nil, ha, hb, Option.getD_some, Call.compute]
    at hcompute
  cases hop : op.meaning x y with
  | error e => simp [hop, bind, Except.bind] at hcompute
  | ok n =>
    simp only [hop, bind, Except.bind, ofInteger] at hcompute
    refine ⟨n, rfl, ?_⟩
    cases hwide : wide n with
    | none => simp [hwide] at hcompute
    | some m => simpa [hwide] using hcompute

lemma Inv.fits (h : Inv types calls refs done failed w) {i : ℕ} {n : ℤ}
    (hi : w.server i = some (.integer n)) : Fits64 n := by
  have hstored := h.sound.stored i _ hi
  have hmap : (getWideInt (text n)).map Datum.integer = some (.integer n) := hstored
  obtain ⟨m, hm, heq⟩ := Option.map_eq_some_iff.mp hmap
  obtain rfl := Datum.integer.inj heq
  exact getWideInt_fits hm

theorem quotients_and_remainders [DecidableEq W] (hcompiled : Compiled types calls)
    {a b quotient remainder : ℕ} (hdivide : .binary .divideInteger quotient a b ∈ calls)
    (hmod : .binary .modInteger remainder a b ∈ calls) (h : Reach (.start calls refs) w)
    {x y m n : ℤ} (ha : w.server a = some (.integer x)) (hb : w.server b = some (.integer y))
    (hm : w.server quotient = some (.integer m)) (hn : w.server remainder = some (.integer n)) :
    Divides x y m n := by
  obtain ⟨done, failed, hinv⟩ := h.inv hcompiled
  obtain ⟨q, hq, hm⟩ := hinv.binary_eq hcompiled hdivide ha hb hm
  obtain ⟨r, hr, hn⟩ := hinv.binary_eq hcompiled hmod ha hb hn
  simp only [Binary.meaning] at hq hr
  split_ifs at hq hr with hy
  obtain rfl := Except.ok.inj hq
  obtain rfl := Except.ok.inj hr
  exact divides_of_wide (hinv.fits ha) hy hm hn

theorem quotients_and_remainders_seven : ∃ w : World (Fin 2),
    Reach (.start division fun _ => 2) w ∧ w.server 2 = some (.integer (-3)) ∧
      Divides (-7) 2 (-3) (-1) := by
  obtain ⟨w, hw, -, hset⟩ := division_run fun _ => 2
  have hdivide : .binary .divideInteger 2 0 1 ∈ division := by simp [mem_division]
  have hmod : .binary .modInteger 3 0 1 ∈ division := by simp [mem_division]
  have h₀ := hset (.store .integer 0 ['-', '7']) (by simp [mem_division])
  have h₁ := hset (.store .integer 1 ['2']) (by simp [mem_division])
  exact ⟨w, hw, hset _ hdivide, quotients_and_remainders division_compiled hdivide hmod hw h₀ h₁
    (hset _ hdivide) (hset _ hmod)⟩

end Turbine.Dataflow
