import Turbine.Data.Arrays
import Turbine.Library.Progressions

/-! Arrays of the numbers of a range, built by one loop over integers and another over floats. -/

namespace Turbine.Data.Ranges

open Turbine.Library Progressions Arrays

abbrev Numbers (V : Type) := Store ℕ V

variable {V : Type}

/-! ### The two loops -/

-- a key that is not there yet: `dict append` enters the value as it is
def buildRangeLoop (stop step : ℤ) : ℕ → ℤ → ℕ → OrderedDict ℕ ℤ → Option (OrderedDict ℕ ℤ)
  | 0, _, _, _ => none
  | fuel + 1, v, k, kvDict =>
    if v ≤ stop then buildRangeLoop stop step fuel (v + step) (k + 1) (kvDict.set k v)
    else some kvDict

/-- The dictionary, if the loop ends within `fuel` turns. -/
def buildRangeDict (fuel : ℕ) (start stop step : ℤ) : Option (OrderedDict ℕ ℤ) :=
  buildRangeLoop stop step fuel start 0 .empty

def buildRangeFloatLoop (start stop step : ℚ) :
    ℕ → ℕ → OrderedDict ℕ ℚ → Option (OrderedDict ℕ ℚ)
  | 0, _, _ => none
  | fuel + 1, k, kvDict =>
    -- computed in this way to avoid cumulative rounding errors
    let v := start + k * step
    if v ≤ stop then buildRangeFloatLoop start stop step fuel (k + 1) (kvDict.set k v)
    else some kvDict

def buildRangeFloatDict (fuel : ℕ) (start stop step : ℚ) : Option (OrderedDict ℕ ℚ) :=
  buildRangeFloatLoop start stop step fuel 0 .empty

/-! ### The bodies of the rules -/

abbrev Build (V : Type) := V → V → V → Option (OrderedDict ℕ V)

def work (build : Build V) (result : ℕ) (start stop step : V) : Script ℕ V Unit :=
  match build start stop step with
  | none => Cmd.throw .unfinished
  | some kvDict => arrayKvBuild result kvDict 1

def rangeWork (fuel : ℕ) : ℕ → ℤ → ℤ → ℤ → Script ℕ ℤ Unit := work (buildRangeDict fuel)

def rangeFloatWork (fuel : ℕ) : ℕ → ℚ → ℚ → ℚ → Script ℕ ℚ Unit := work (buildRangeFloatDict fuel)

def unitBody [One V] (build : Build V) (result start stop : ℕ) : Script ℕ V Unit := do
  let startValue ← retrieveDecr start
  let endValue ← retrieveDecr stop
  work build result startValue endValue 1

def rangeBody (fuel : ℕ) : ℕ → ℕ → ℕ → Script ℕ ℤ Unit := unitBody (buildRangeDict fuel)

def rangeFloatBody (fuel : ℕ) : ℕ → ℕ → ℕ → Script ℕ ℚ Unit := unitBody (buildRangeFloatDict fuel)

def stepBody (build : Build V) (result start stop step : ℕ) : Script ℕ V Unit := do
  let startValue ← retrieveDecr start
  let endValue ← retrieveDecr stop
  let stepValue ← retrieveDecr step
  work build result startValue endValue stepValue

def rangeStepBody (fuel : ℕ) : ℕ → ℕ → ℕ → ℕ → Script ℕ ℤ Unit := stepBody (buildRangeDict fuel)

def rangeFloatStepBody (fuel : ℕ) : ℕ → ℕ → ℕ → ℕ → Script ℕ ℚ Unit :=
  stepBody (buildRangeFloatDict fuel)

/-! ### The dictionaries are the terms of a progression -/

lemma lt_of_mem_keys_set {d : OrderedDict ℕ V} {k : ℕ} (hd : ∀ j ∈ d.keys, j < k) (v : V) :
    ∀ j ∈ (d.set k v).keys, j < k + 1 := by
  intro j hj
  rw [OrderedDict.keys_set_of_notMem _ fun h => lt_irrefl k (hd k h)] at hj
  rcases List.mem_append.mp hj with hj | hj
  · exact Nat.lt_succ_of_lt (hd j hj)
  · exact Nat.lt_succ_of_le (List.mem_singleton.mp hj).le

lemma buildRangeLoop_eq (start stop step : ℤ) (fuel k : ℕ) (d : OrderedDict ℕ ℤ)
    (hd : ∀ j ∈ d.keys, j < k) :
    (buildRangeLoop stop step fuel (progression start step k) k d).map OrderedDict.entries =
      (collect (progression start step) stop fuel k).map (d.entries ++ ·) := by
  induction fuel generalizing k d with
  | zero => rfl
  | succ fuel ih =>
    rw [buildRangeLoop, collect]
    split
    · rw [progression_succ, ih (k + 1) _ (lt_of_mem_keys_set hd _),
        OrderedDict.entries_set_of_notMem _ fun h => lt_irrefl k (hd k h), Option.map_map]
      simp [Function.comp_def]
    · simp

lemma buildRangeFloatLoop_eq (start stop step : ℚ) (fuel k : ℕ) (d : OrderedDict ℕ ℚ)
    (hd : ∀ j ∈ d.keys, j < k) :
    (buildRangeFloatLoop start stop step fuel k d).map OrderedDict.entries =
      (collect (progression start step) stop fuel k).map (d.entries ++ ·) := by
  induction fuel generalizing k d with
  | zero => rfl
  | succ fuel ih =>
    rw [buildRangeFloatLoop, collect]
    change (if progression start step k ≤ stop then _ else _ : Option _).map _ = _
    split
    · rw [ih (k + 1) _ (lt_of_mem_keys_set hd _),
        OrderedDict.entries_set_of_notMem _ fun h => lt_irrefl k (hd k h), Option.map_map]
      simp [Function.comp_def, progression]
    · simp

/-- The dictionary that is built is what a progression collects. -/
def Builds [Ring V] [LE V] [DecidableLE V] (build : ℕ → Build V) : Prop :=
  ∀ fuel start stop step, (build fuel start stop step).map OrderedDict.entries =
    collect (progression start step) stop fuel 0

lemma buildRangeDict_builds : Builds buildRangeDict := by
  intro fuel start stop step
  have h := buildRangeLoop_eq start stop step fuel 0 .empty (by simp [OrderedDict.keys,
    OrderedDict.empty])
  rw [progression_zero] at h
  rw [buildRangeDict, h]
  simp [OrderedDict.empty]

lemma buildRangeFloatDict_builds : Builds buildRangeFloatDict := by
  intro fuel start stop step
  have h := buildRangeFloatLoop_eq start stop step fuel 0 .empty (by simp [OrderedDict.keys,
    OrderedDict.empty])
  rw [buildRangeFloatDict, h]
  simp [OrderedDict.empty]

/-! ### When the arrays come out right -/

/-- With enough turns the script ends, in an error or in a state with `Q`. -/
def Yields (script : ℕ → Script ℕ V Unit) (s : Numbers V) (Q : Numbers V → Prop) : Prop :=
  ∃ fuel r t, script fuel s = (r, t) ∧ r ≠ .error .unfinished ∧ (r = .ok () → Q t)

section Work

variable {c : ℕ} {s : Numbers V}

variable [Ring V] [LinearOrder V] [IsStrictOrderedRing V] [Archimedean V]

/-- The array `{k ↦ start + k * step : start + k * step ≤ stop}`, in order when the step is
positive. -/
def IsRange (start stop step : V) (count : ℕ) (array : OrderedDict ℕ V) : Prop :=
  Lists (progression start step) stop array.entries ∧
    (0 < step → array.entries = terms (progression start step) count)

variable {build : ℕ → Build V} {start stop step : V} {count : ℕ}

lemma work_yields_iff (hbuild : Builds build) (hc : s.contents c = .empty)
    (hcount : 0 < step → ∀ k, k < count ↔ progression start step k ≤ stop) :
    Yields (fun fuel => work (build fuel) c start stop step) s
      (fun t => IsRange start stop step count (t.contents c)) ↔
      0 < step ∨ step = 0 ∧ stop < start := by
  rw [← collect_lists_iff hcount]
  constructor
  · rintro ⟨fuel, r, t, h, hne, hq⟩
    change work (build fuel) c start stop step s = (r, t) at h
    rw [work] at h
    cases hb : build fuel start stop step with
    | none =>
      rw [hb] at h
      exact absurd (Prod.mk.inj h).1.symm hne
    | some d =>
      rw [hb] at h
      obtain ⟨rfl, rfl⟩ := Prod.mk.inj ((arrayKvBuild_apply hc d 1).symm.trans h)
      have hrange : IsRange start stop step count ((s.fill c d 1).contents c) := hq rfl
      rw [IsRange, entries_fill hc] at hrange
      exact ⟨fuel, d.entries, by rw [← hbuild, hb, Option.map_some], hrange⟩
  · rintro ⟨fuel, r, hr, hrange⟩
    rw [← hbuild, Option.map_eq_some_iff] at hr
    obtain ⟨d, hd, rfl⟩ := hr
    refine ⟨fuel, .ok (), s.fill c d 1, ?_, fun h => (by cases h), fun _ => ?_⟩
    · change work (build fuel) c start stop step s = _
      rw [work, hd]
      exact arrayKvBuild_apply hc d 1
    · change IsRange start stop step count ((s.fill c d 1).contents c)
      rw [IsRange, entries_fill hc]
      exact hrange

lemma unitBody_yields (hbuild : Builds build) {result first last : ℕ}
    (hresult : s.contents result = .empty) (hfirst : s.value first = some start)
    (hlast : s.value last = some stop)
    (hcount : ∀ k, k < count ↔ progression start 1 k ≤ stop) :
    Yields (fun fuel => unitBody (build fuel) result first last) s
      fun t => IsRange start stop 1 count (t.contents result) := by
  have hwork := (work_yields_iff (s := (s.read first).read last) hbuild hresult
    fun _ => hcount).mpr (.inl one_pos)
  have hrun : ∀ fuel, unitBody (build fuel) result first last s =
      work (build fuel) result start stop 1 ((s.read first).read last) := by
    intro fuel
    rw [unitBody, Cmd.bind_of_ok (retrieveDecr_apply hfirst),
      Cmd.bind_of_ok (retrieveDecr_apply (s := s.read first) hlast)]
  simpa only [Yields, hrun] using hwork

lemma stepBody_yields_iff (hbuild : Builds build) {result first last stride : ℕ}
    (hresult : s.contents result = .empty) (hfirst : s.value first = some start)
    (hlast : s.value last = some stop) (hstride : s.value stride = some step)
    (hcount : 0 < step → ∀ k, k < count ↔ progression start step k ≤ stop) :
    Yields (fun fuel => stepBody (build fuel) result first last stride) s
      (fun t => IsRange start stop step count (t.contents result)) ↔
      0 < step ∨ step = 0 ∧ stop < start := by
  rw [← work_yields_iff (s := ((s.read first).read last).read stride) hbuild hresult hcount]
  have hrun : ∀ fuel, stepBody (build fuel) result first last stride s =
      work (build fuel) result start stop step (((s.read first).read last).read stride) := by
    intro fuel
    rw [stepBody, Cmd.bind_of_ok (retrieveDecr_apply hfirst),
      Cmd.bind_of_ok (retrieveDecr_apply (s := s.read first) hlast),
      Cmd.bind_of_ok (retrieveDecr_apply (s := (s.read first).read last) hstride)]
  simp only [Yields, hrun]

end Work

/-! ### The number of terms -/

def intCount (start stop step : ℤ) : ℕ := ((stop - start) / step + 1).toNat

def floatCount (start stop step : ℚ) : ℕ := (⌊(stop - start) / step⌋ + 1).toNat

lemma lt_intCount_iff {start stop step : ℤ} (hstep : 0 < step) (k : ℕ) :
    k < intCount start stop step ↔ progression start step k ≤ stop := by
  have hle : (k : ℤ) ≤ (stop - start) / step ↔ (k : ℤ) * step ≤ stop - start :=
    Int.le_ediv_iff_mul_le hstep
  rw [intCount, Int.lt_toNat, Int.lt_add_one_iff, hle, progression]
  exact le_sub_iff_add_le'

lemma lt_floatCount_iff {start stop step : ℚ} (hstep : 0 < step) (k : ℕ) :
    k < floatCount start stop step ↔ progression start step k ≤ stop := by
  rw [floatCount, Int.lt_toNat, Int.lt_add_one_iff, Int.le_floor, le_div_iff₀ hstep, progression]
  exact le_sub_iff_add_le'

/-! ### Main results -/

theorem buildRangeDict_ends_iff (start stop step : ℤ) :
    (∃ fuel, (buildRangeDict fuel start stop step).isSome) ↔ 0 < step ∨ stop < start := by
  rw [← collect_ends_iff (fun h => lt_intCount_iff h)]
  simp only [← buildRangeDict_builds _ start stop step, Option.isSome_map]

theorem buildRangeFloatDict_ends_iff (start stop step : ℚ) :
    (∃ fuel, (buildRangeFloatDict fuel start stop step).isSome) ↔ 0 < step ∨ stop < start := by
  rw [← collect_ends_iff (fun h => lt_floatCount_iff h)]
  simp only [← buildRangeFloatDict_builds _ start stop step, Option.isSome_map]

theorem rangeBody_yields {s : Numbers ℤ} {result first last : ℕ} {start stop : ℤ}
    (hresult : s.contents result = .empty) (hfirst : s.value first = some start)
    (hlast : s.value last = some stop) :
    Yields (fun fuel => rangeBody fuel result first last) s
      fun t => IsRange start stop 1 (intCount start stop 1) (t.contents result) :=
  unitBody_yields buildRangeDict_builds hresult hfirst hlast (lt_intCount_iff one_pos)

theorem rangeFloatBody_yields {s : Numbers ℚ} {result first last : ℕ} {start stop : ℚ}
    (hresult : s.contents result = .empty) (hfirst : s.value first = some start)
    (hlast : s.value last = some stop) :
    Yields (fun fuel => rangeFloatBody fuel result first last) s
      fun t => IsRange start stop 1 (floatCount start stop 1) (t.contents result) :=
  unitBody_yields buildRangeFloatDict_builds hresult hfirst hlast (lt_floatCount_iff one_pos)

/-- The inputs of a range with a step are closed, and nothing is in its array yet. -/
structure StepInputs (s : Numbers V) (result first last stride : ℕ) (start stop step : V) : Prop where
  contents : s.contents result = .empty
  first : s.value first = some start
  last : s.value last = some stop
  stride : s.value stride = some step

def RangeStepMeets (s : Numbers ℤ) (result first last stride : ℕ) (start stop step : ℤ) : Prop :=
  Yields (fun fuel => rangeStepBody fuel result first last stride) s fun t =>
    IsRange start stop step (intCount start stop step) (t.contents result)

def RangeFloatStepMeets (s : Numbers ℚ) (result first last stride : ℕ) (start stop step : ℚ) :
    Prop :=
  Yields (fun fuel => rangeFloatStepBody fuel result first last stride) s fun t =>
    IsRange start stop step (floatCount start stop step) (t.contents result)

lemma rangeStepMeets_iff {s : Numbers ℤ} {result first last stride : ℕ} {start stop step : ℤ}
    (h : StepInputs s result first last stride start stop step) :
    RangeStepMeets s result first last stride start stop step ↔
      0 < step ∨ step = 0 ∧ stop < start :=
  stepBody_yields_iff buildRangeDict_builds h.contents h.first h.last h.stride
    fun hstep => lt_intCount_iff hstep

lemma rangeFloatStepMeets_iff {s : Numbers ℚ} {result first last stride : ℕ} {start stop step : ℚ}
    (h : StepInputs s result first last stride start stop step) :
    RangeFloatStepMeets s result first last stride start stop step ↔
      0 < step ∨ step = 0 ∧ stop < start :=
  stepBody_yields_iff buildRangeFloatDict_builds h.contents h.first h.last h.stride
    fun hstep => lt_floatCount_iff hstep

theorem range_step_meets_iff (result first last stride : ℕ) :
    (∀ s start stop step, StepInputs s result first last stride start stop step →
      (RangeStepMeets s result first last stride start stop step ↔
        0 < step ∨ step = 0 ∧ stop < start)) ∧
    ∀ s start stop step, StepInputs s result first last stride start stop step →
      (RangeFloatStepMeets s result first last stride start stop step ↔
        0 < step ∨ step = 0 ∧ stop < start) := by
  constructor
  · intro s start stop step h
    exact rangeStepMeets_iff h
  · intro s start stop step h
    exact rangeFloatStepMeets_iff h

def closed (start stop step : V) : Numbers V where
  value := fun id => [start, stop, step][id]?
  readRefs _ := 1
  contents _ := .empty
  writeRefs _ := 1

theorem range_step_meets_iff_up :
    RangeStepMeets (closed 1 10 4) 3 0 1 2 1 10 4 ∧
      RangeFloatStepMeets (closed 1 2 (1 / 3)) 3 0 1 2 1 2 (1 / 3) :=
  ⟨((range_step_meets_iff 3 0 1 2).1 _ 1 10 4 ⟨rfl, rfl, rfl, rfl⟩).mpr (.inl (by decide)),
    ((range_step_meets_iff 3 0 1 2).2 _ 1 2 (1 / 3) ⟨rfl, rfl, rfl, rfl⟩).mpr
      (.inl (by norm_num))⟩

theorem not_range_step_meets :
    ¬ ∀ s result first last stride start stop step,
      StepInputs s result first last stride start stop step →
        RangeStepMeets s result first last stride start stop step := by
  intro h
  have hinputs : StepInputs (closed (1 : ℤ) 10 0) 3 0 1 2 1 10 0 := ⟨rfl, rfl, rfl, rfl⟩
  have hcond := (rangeStepMeets_iff hinputs).mp (h _ 3 0 1 2 1 10 0 hinputs)
  exact absurd hcond (by decide)

end Turbine.Data.Ranges
