import Turbine.Library.Commands
import Turbine.Library.Moments

/-! Statistics of an array in one pass over its members, which are enumerated in chunks. -/

namespace Turbine.Stats.Sequential

open Turbine.Library Moments

inductive Stop
  | error (message : String)
  | divideByZero
  -- the turns that a loop was given are used up
  | unfinished

/-- A closed array, with the order in which it is enumerated; what enumerations have handed out
and what was stored. -/
structure State (V : Type) where
  members : List V
  readRefs : ℤ
  handed : List V
  stores : List (ℕ × V)

abbrev Script (V : Type) := Cmd (State V) Stop

section Commands

variable {V : Type}

def enumerateCount : Script V ℕ := fun s => (.ok s.members.length, s)

def State.handOut (s : State V) (count offset : ℕ) (decr : ℤ) : State V :=
  { s with
    handed := s.handed ++ (s.members.drop offset).take count
    readRefs := s.readRefs - decr }

def enumerateMembers (count offset : ℕ) (decr : ℤ) : Script V (List V) := fun s =>
  (.ok ((s.members.drop offset).take count), s.handOut count offset decr)

def readRefcountDecr : Script V Unit := Cmd.modify fun s => { s with readRefs := s.readRefs - 1 }

def store (out : ℕ) (value : V) : Script V Unit := Cmd.modify fun s =>
  { s with stores := s.stores ++ [(out, value)] }

end Commands

def chunkSize : ℕ := 65536

/-! ### Sums of integers -/

def sumLoop : ℕ → ℤ → ℕ → Bool → Script ℤ ℤ
  | 0, _, _, _ => Cmd.throw .unfinished
  | fuel + 1, accum, pos, maybeMore =>
    if maybeMore then do
      let members ← enumerateMembers chunkSize pos 0
      let membersLen := members.length
      let maybeMore := membersLen == chunkSize
      sumLoop fuel (members.foldl (· + ·) accum) (pos + membersLen) maybeMore
    else pure accum

def sumIntegerBody (fuel result : ℕ) : Script ℤ Unit := do
  let accum ← sumLoop fuel 0 0 true
  store result accum
  readRefcountDecr

/-! ### Statistics -/

/-- The outputs, with zero for those that are not requested. -/
structure Outputs where
  n : ℕ
  sum : ℕ
  mean : ℕ
  M2 : ℕ
  sampStd : ℕ
  popStd : ℕ
  max : ℕ
  min : ℕ

structure Accums where
  i : ℕ
  sum : ℚ
  mean : ℚ
  M2 : ℚ
  -- none for `NOMIN` and `NOMAX`
  min : Option ℚ
  max : Option ℚ

def Accums.start : Accums := ⟨0, 0, 0, 0, none, none⟩

def visit (sumOut : ℕ) (a : Accums) (x : ℚ) : Accums :=
  let delta := x - a.mean
  let mean := a.mean + delta / (a.i + 1)
  { i := a.i + 1
    sum := if sumOut ≠ 0 then a.sum + x else a.sum
    mean := mean
    M2 := a.M2 + delta * (x - mean)
    min := some (a.min.elim x fun m => min m x)
    max := some (a.max.elim x fun m => max m x) }

def statsLoop (sumOut n : ℕ) : ℕ → Accums → Script ℚ Accums
  | 0, _ => Cmd.throw .unfinished
  | fuel + 1, a =>
    if a.i < n then do
      let lastChunk := a.i + chunkSize ≥ n
      let thisChunkSize := if lastChunk then n - a.i else chunkSize
      let readDecr : ℤ := if lastChunk then 1 else 0
      let vals ← enumerateMembers thisChunkSize a.i readDecr
      statsLoop sumOut n fuel (vals.foldl (visit sumOut) a)
    else pure a

def storeRequested (out : ℕ) (value : Except Stop ℚ) : Script ℚ Unit :=
  if out ≠ 0 then Cmd.ofExcept value >>= store out else pure ()

def unlessEmpty (container n : ℕ) (what : String) (value : Except Stop ℚ) : Except Stop ℚ :=
  if n = 0 then .error (.error s!"calculating {what} of empty array <{container}>") else value

def extremum (m : Option ℚ) : Except Stop ℚ := m.elim (.error (.error "not a number")) .ok

def deviation (sqrt : ℚ → ℚ) (M2 : ℚ) (n : ℤ) : Except Stop ℚ :=
  if n = 0 then .error .divideByZero else .ok (sqrt (M2 / n))

/-- What remains after an empty array, of which no chunk was the last. -/
def emptyDecr (n : ℕ) : Script ℚ Unit := if n = 0 then readRefcountDecr else pure ()

def storeResults (sqrt : ℚ → ℚ) (container n : ℕ) (outs : Outputs) (a : Accums) :
    Script ℚ Unit := do
  storeRequested outs.sum (.ok a.sum)
  storeRequested outs.mean (unlessEmpty container n "mean" (.ok a.mean))
  storeRequested outs.min (unlessEmpty container n "min" (extremum a.min))
  storeRequested outs.max (unlessEmpty container n "max" (extremum a.max))
  storeRequested outs.M2 (.ok a.M2)
  storeRequested outs.sampStd (unlessEmpty container n "stddev" (deviation sqrt a.M2 (n - 1)))
  storeRequested outs.popStd (unlessEmpty container n "stddev" (deviation sqrt a.M2 n))

def statsBody (sqrt : ℚ → ℚ) (fuel container : ℕ) (outs : Outputs) : Script ℚ Unit := do
  let n ← enumerateCount
  -- n is stored immediately
  storeRequested outs.n (.ok n)
  let a ← statsLoop outs.sum n fuel .start
  emptyDecr n
  storeResults sqrt container n outs a

/-! ### The loops go through all members -/

section Loops

lemma chunkSize_pos : 0 < chunkSize := by
  unfold chunkSize
  omega

lemma sumLoop_false (fuel : ℕ) (accum : ℤ) (pos : ℕ) (s : State ℤ) :
    sumLoop (fuel + 1) accum pos false s = (.ok accum, s) := rfl

lemma sumLoop_true (fuel : ℕ) (accum : ℤ) (pos : ℕ) (s : State ℤ) :
    sumLoop (fuel + 1) accum pos true s =
      sumLoop fuel (((s.members.drop pos).take chunkSize).foldl (· + ·) accum)
        (pos + ((s.members.drop pos).take chunkSize).length)
        (((s.members.drop pos).take chunkSize).length == chunkSize)
        (s.handOut chunkSize pos 0) := rfl

/-- A chunk that is not full is the last; after a full one the loop goes on. -/
lemma sumLoop_apply (fuel pos : ℕ) {s : State ℤ} (accum : ℤ)
    (hfuel : s.members.length - pos < fuel) :
    sumLoop (fuel + 1) accum pos true s = (.ok ((s.members.drop pos).foldl (· + ·) accum),
      { s with handed := s.handed ++ s.members.drop pos }) := by
  induction fuel generalizing s accum pos with
  | zero => omega
  | succ fuel ih =>
    have hlength : ((s.members.drop pos).take chunkSize).length =
        min chunkSize (s.members.length - pos) := by
      rw [List.length_take, List.length_drop]
    rw [sumLoop_true]
    by_cases hfull : chunkSize ≤ s.members.length - pos
    · have hchunk : ((s.members.drop pos).take chunkSize).length = chunkSize :=
        hlength.trans (min_eq_left hfull)
      have hpos := chunkSize_pos
      rw [hchunk, beq_self_eq_true, ih _ _ (by simp only [State.handOut]; omega)]
      simp only [State.handOut, sub_zero, List.append_assoc]
      rw [← List.foldl_append, ← List.drop_drop, List.take_append_drop]
    · have hchunk : (s.members.drop pos).take chunkSize = s.members.drop pos := by
        apply List.take_of_length_le
        rw [List.length_drop]
        omega
      have hlast : ((s.members.drop pos).length == chunkSize) = false := by
        rw [beq_eq_false_iff_ne, List.length_drop]
        omega
      rw [hchunk, hlast, sumLoop_false]
      simp only [State.handOut, hchunk, sub_zero]

lemma i_foldl_visit (sumOut : ℕ) (xs : List ℚ) (a : Accums) :
    (xs.foldl (visit sumOut) a).i = a.i + xs.length := by
  induction xs generalizing a with
  | nil => rfl
  | cons x xs ih =>
    rw [List.foldl_cons, ih, List.length_cons]
    simp only [visit]
    omega

lemma statsLoop_done {sumOut n : ℕ} {a : Accums} (h : ¬ a.i < n) (fuel : ℕ) (s : State ℚ) :
    statsLoop sumOut n (fuel + 1) a s = (.ok a, s) := by
  rw [statsLoop, if_neg h]
  rfl

lemma statsLoop_last {sumOut n : ℕ} {a : Accums} (h : a.i < n) (hlast : a.i + chunkSize ≥ n)
    (fuel : ℕ) (s : State ℚ) : statsLoop sumOut n (fuel + 1) a s =
      statsLoop sumOut n fuel (((s.members.drop a.i).take (n - a.i)).foldl (visit sumOut) a)
        (s.handOut (n - a.i) a.i 1) := by
  rw [statsLoop, if_pos h]
  simp only [if_pos hlast]
  rfl

lemma statsLoop_more {sumOut n : ℕ} {a : Accums} (h : a.i < n) (hmore : ¬ a.i + chunkSize ≥ n)
    (fuel : ℕ) (s : State ℚ) : statsLoop sumOut n (fuel + 1) a s =
      statsLoop sumOut n fuel (((s.members.drop a.i).take chunkSize).foldl (visit sumOut) a)
        (s.handOut chunkSize a.i 0) := by
  rw [statsLoop, if_pos h]
  simp only [if_neg hmore]
  rfl

/-- The read reference goes with the last chunk, if there is one. -/
lemma statsLoop_apply (sumOut fuel : ℕ) {s : State ℚ} (a : Accums)
    (hfuel : s.members.length - a.i < fuel) :
    statsLoop sumOut s.members.length fuel a s =
      (.ok ((s.members.drop a.i).foldl (visit sumOut) a),
        { s with
          handed := s.handed ++ s.members.drop a.i
          readRefs := s.readRefs - if a.i < s.members.length then 1 else 0 }) := by
  induction fuel generalizing s a with
  | zero => omega
  | succ fuel ih =>
    by_cases hlt : a.i < s.members.length
    · by_cases hlast : a.i + chunkSize ≥ s.members.length
      · have hvals : (s.members.drop a.i).take (s.members.length - a.i) = s.members.drop a.i := by
          apply List.take_of_length_le
          rw [List.length_drop]
        have hend : ¬ ((s.members.drop a.i).foldl (visit sumOut) a).i < s.members.length := by
          rw [i_foldl_visit, List.length_drop]
          omega
        obtain ⟨fuel, rfl⟩ : ∃ m, fuel = m + 1 := ⟨fuel - 1, by omega⟩
        rw [statsLoop_last hlt hlast, hvals, statsLoop_done hend, if_pos hlt]
        simp only [State.handOut, hvals]
      · have hpos := chunkSize_pos
        have hnext : (((s.members.drop a.i).take chunkSize).foldl (visit sumOut) a).i =
            a.i + chunkSize := by
          rw [i_foldl_visit, List.length_take, List.length_drop]
          omega
        rw [statsLoop_more hlt hlast]
        have hrest := ih (s := s.handOut chunkSize a.i 0)
          (((s.members.drop a.i).take chunkSize).foldl (visit sumOut) a)
          (by rw [hnext]; simp only [State.handOut]; omega)
        simp only [State.handOut, hnext] at hrest ⊢
        rw [hrest, if_pos hlt, if_pos (not_le.mp hlast), ← List.foldl_append, List.append_assoc,
          ← List.drop_drop, List.take_append_drop, sub_zero]
    · rw [statsLoop_done hlt, if_neg hlt, List.drop_of_length_le (not_lt.mp hlt)]
      simp

end Loops

/-! ### What the accumulators hold -/

section Accumulators

variable (sumOut : ℕ) (xs : List ℚ)

lemma foldl_visit_append (x : ℚ) : (xs ++ [x]).foldl (visit sumOut) .start =
    visit sumOut (xs.foldl (visit sumOut) .start) x := by
  rw [List.foldl_append, List.foldl_cons, List.foldl_nil]

def Accums.summary (a : Accums) : Summary ℚ := ⟨a.i, a.mean, a.M2⟩

lemma summary_foldl_visit :
    (xs.foldl (visit sumOut) .start).summary = Summary.of (xs : Multiset ℚ) := by
  induction xs using List.reverseRecOn with
  | nil => simp [Accums.summary, Accums.start, Summary.of, average, squaredDeviations]
  | append_singleton xs x ih =>
    have hcoe : ((xs ++ [x] : List ℚ) : Multiset ℚ) = x ::ₘ (xs : Multiset ℚ) := by
      rw [Multiset.cons_coe, Multiset.coe_eq_coe]
      exact List.perm_append_singleton x xs
    rw [foldl_visit_append, hcoe, ← push_of, ← ih]
    rfl

lemma sum_foldl_visit (h : sumOut ≠ 0) : (xs.foldl (visit sumOut) .start).sum = xs.sum := by
  induction xs using List.reverseRecOn with
  | nil => rfl
  | append_singleton xs x ih =>
    rw [foldl_visit_append, visit, if_pos h, ih, List.sum_append, List.sum_singleton]

lemma min_foldl_visit : (xs.foldl (visit sumOut) .start).min = xs.min? := by
  induction xs using List.reverseRecOn with
  | nil => rfl
  | append_singleton xs x ih =>
    rw [foldl_visit_append, visit, ih]
    cases xs with
    | nil => rfl
    | cons y ys =>
      change some (min (ys.foldl min y) x) = some ((ys ++ [x]).foldl min y)
      rw [List.foldl_append]
      rfl

lemma max_foldl_visit : (xs.foldl (visit sumOut) .start).max = xs.max? := by
  induction xs using List.reverseRecOn with
  | nil => rfl
  | append_singleton xs x ih =>
    rw [foldl_visit_append, visit, ih]
    cases xs with
    | nil => rfl
    | cons y ys =>
      change some (max (ys.foldl max y) x) = some ((ys ++ [x]).foldl max y)
      rw [List.foldl_append]
      rfl

end Accumulators

/-! ### What is stored -/

/-- The requested ones of the values, up to the first that is an error. -/
def requested : List (ℕ × Except Stop ℚ) → List (ℕ × ℚ) × Except Stop Unit
  | [] => ([], .ok ())
  | (out, value) :: rest =>
    if out = 0 then requested rest
    else match value with
      | .error e => ([], .error e)
      | .ok v => ((out, v) :: (requested rest).1, (requested rest).2)

lemma requested_cons_zero (value : Except Stop ℚ) (rest : List (ℕ × Except Stop ℚ)) :
    requested ((0, value) :: rest) = requested rest := rfl

lemma requested_cons_ok (out : ℕ) (v : ℚ) (rest : List (ℕ × Except Stop ℚ)) :
    requested ((out, .ok v) :: rest) =
      ((requested [(out, .ok v)]).1 ++ (requested rest).1, (requested rest).2) := by
  by_cases hout : out = 0
  · simp [requested, hout]
  · simp [requested, hout]

def Writes (c : Script ℚ Unit) (rows : List (ℕ × Except Stop ℚ)) : Prop :=
  ∀ s, c s = ((requested rows).2, { s with stores := s.stores ++ (requested rows).1 })

lemma storeRequested_writes (out : ℕ) (value : Except Stop ℚ) :
    Writes (storeRequested out value) [(out, value)] := by
  intro s
  by_cases hout : out = 0
  · simp [storeRequested, requested, hout]
  · cases value <;> simp [storeRequested, requested, hout, store, Cmd.bind_apply]

lemma Writes.after {c : Script ℚ Unit} {rows : List (ℕ × Except Stop ℚ)} (h : Writes c rows)
    (out : ℕ) (value : Except Stop ℚ) :
    Writes (storeRequested out value >>= fun _ => c) ((out, value) :: rows) := by
  intro s
  by_cases hout : out = 0
  · simp [storeRequested, requested, hout, h s]
  · cases value with
    | error e => simp [storeRequested, requested, hout, Cmd.bind_apply]
    | ok v => simp [storeRequested, requested, hout, store, Cmd.bind_apply, h _]

def results (sqrt : ℚ → ℚ) (container n : ℕ) (outs : Outputs) (a : Accums) :
    List (ℕ × Except Stop ℚ) :=
  [(outs.sum, .ok a.sum),
    (outs.mean, unlessEmpty container n "mean" (.ok a.mean)),
    (outs.min, unlessEmpty container n "min" (extremum a.min)),
    (outs.max, unlessEmpty container n "max" (extremum a.max)),
    (outs.M2, .ok a.M2),
    (outs.sampStd, unlessEmpty container n "stddev" (deviation sqrt a.M2 (n - 1))),
    (outs.popStd, unlessEmpty container n "stddev" (deviation sqrt a.M2 n))]

lemma storeResults_writes (sqrt : ℚ → ℚ) (container n : ℕ) (outs : Outputs) (a : Accums) :
    Writes (storeResults sqrt container n outs a) (results sqrt container n outs a) := by
  refine Writes.after ?_ outs.sum _
  refine Writes.after ?_ outs.mean _
  refine Writes.after ?_ outs.min _
  refine Writes.after ?_ outs.max _
  refine Writes.after ?_ outs.M2 _
  refine Writes.after ?_ outs.sampStd _
  exact storeRequested_writes outs.popStd _

def Accums.of (xs : List ℚ) : Accums where
  i := xs.length
  sum := xs.sum
  mean := average (xs : Multiset ℚ)
  M2 := squaredDeviations (average (xs : Multiset ℚ)) xs
  min := xs.min?
  max := xs.max?

lemma foldl_visit_eq (sumOut : ℕ) (xs : List ℚ) : xs.foldl (visit sumOut) .start =
    { Accums.of xs with sum := (xs.foldl (visit sumOut) .start).sum } := by
  have hsummary := summary_foldl_visit sumOut xs
  simp only [Accums.summary, Summary.of, Summary.mk.injEq] at hsummary
  obtain ⟨hi, hmean, hM2⟩ := hsummary
  have hmin := min_foldl_visit sumOut xs
  have hmax := max_foldl_visit sumOut xs
  generalize xs.foldl (visit sumOut) .start = a at *
  cases a
  simp_all [Accums.of]

-- the sum that is not requested is not computed
lemma requested_results (sqrt : ℚ → ℚ) (container n : ℕ) (outs : Outputs) (xs : List ℚ) :
    requested (results sqrt container n outs (xs.foldl (visit outs.sum) .start)) =
      requested (results sqrt container n outs (.of xs)) := by
  rw [foldl_visit_eq]
  by_cases hsum : outs.sum = 0
  · simp only [results, hsum, requested_cons_zero]
  · rw [sum_foldl_visit _ _ hsum]
    rfl

/-! ### Main result -/

/-- The outputs with their values, in the order in which they are stored. -/
def report (sqrt : ℚ → ℚ) (container : ℕ) (outs : Outputs) (xs : List ℚ) :
    List (ℕ × Except Stop ℚ) :=
  (outs.n, .ok xs.length) :: results sqrt container xs.length outs (.of xs)

def closed {V : Type} (members : List V) (readRefs : ℤ) : State V := ⟨members, readRefs, [], []⟩

lemma emptyDecr_apply (n : ℕ) (s : State ℚ) : emptyDecr n s =
    (.ok (), { s with readRefs := s.readRefs - if 0 < n then 0 else 1 }) := by
  cases n with
  | zero => rfl
  | succ n => simp [emptyDecr]

lemma statsBody_apply (sqrt : ℚ → ℚ) (container : ℕ) (outs : Outputs) (xs : List ℚ) (r : ℤ) :
    statsBody sqrt (xs.length + 1) container outs (closed xs r) =
      ((requested (report sqrt container outs xs)).2,
        ⟨xs, r - 1, xs, (requested (report sqrt container outs xs)).1⟩) := by
  generalize hfirst : (requested [(outs.n, .ok (xs.length : ℚ))]).1 = first
  have hcount : enumerateCount (closed xs r) = (.ok xs.length, closed xs r) := rfl
  have hn : storeRequested outs.n (.ok xs.length) (closed xs r) =
      (.ok (), ⟨xs, r, [], first⟩) := by
    rw [storeRequested_writes, ← hfirst]
    by_cases hout : outs.n = 0 <;> simp [requested, hout, closed]
  have hloop := statsLoop_apply outs.sum (xs.length + 1) (s := ⟨xs, r, [], first⟩) .start
    (Nat.lt_succ_of_le (Nat.sub_le _ _))
  rw [statsBody, Cmd.bind_of_ok hcount, Cmd.bind_of_ok hn, Cmd.bind_of_ok hloop,
    Cmd.bind_of_ok (emptyDecr_apply _ _), storeResults_writes, report, requested_cons_ok, hfirst]
  simp only [Accums.start, List.drop_zero, List.nil_append]
  rw [← Accums.start, requested_results]
  congr 2
  by_cases hempty : 0 < xs.length <;> simp [hempty]

lemma sumIntegerBody_apply (result : ℕ) (xs : List ℤ) (r : ℤ) :
    sumIntegerBody (xs.length + 2) result (closed xs r) =
      (.ok (), ⟨xs, r - 1, xs, [(result, xs.sum)]⟩) := by
  have hsum : xs.foldl (· + ·) 0 = xs.sum := List.sum_eq_foldl.symm
  rw [sumIntegerBody, Cmd.bind_of_ok (sumLoop_apply (xs.length + 1) 0 (s := closed xs r) 0
    (Nat.lt_succ_of_le (Nat.sub_le _ _)))]
  simp only [closed, List.drop_zero, List.nil_append, hsum]
  rfl

end Turbine.Stats.Sequential
