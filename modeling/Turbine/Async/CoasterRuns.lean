import Turbine.Async.Executors
import Turbine.Library.Settlements

/-! The Coaster executor over whole runs, with the calls that fail: what its counter, its table of
active tasks and its reports are then. -/

namespace Turbine.Async

open Turbine.Library

/-- What checking for completed jobs has come to: the entries of the array it has written to, the
tasks it has completed there with the ids of their jobs, and the table. -/
structure Batch where
  ok : Bool
  touched : ℕ
  tasks : List (ℕ × CompletedTask)
  table : List (ℕ × TaskCallbacks)

-- the jobs of one answer; an entry is removed before the checks that its job may fail
def completeBatch : List CoasterJob → List (ℕ × TaskCallbacks) → Batch
  | [], table => ⟨true, 0, [], table⟩
  | job :: jobs, table =>
    match tableRemove job.id table with
    | none => ⟨false, 0, [], table⟩
    | some (callbacks, table) =>
      if job.ok then
        let rest := completeBatch jobs table
        ⟨rest.ok, rest.touched + 1, (job.id, ⟨job.completed, callbacks,
          some [⟨"coaster_task_result", false, job.resultDict⟩]⟩) :: rest.tasks, rest.table⟩
      else ⟨false, 1, [], table⟩

-- an answer of `coaster_check_jobs` is `none` when it fails; `none` when the call has not come back
def checkBatches : List (Option (List CoasterJob)) → ℕ → List (ℕ × TaskCallbacks) → Option Batch
  | _, 0, table => some ⟨true, 0, [], table⟩
  | [], _ + 1, _ => none
  | none :: _, _ + 1, table => some ⟨false, 0, [], table⟩
  | some jobs :: answers, left + 1, table =>
    let maxjobs := min (left + 1) tmpJobsSize
    let batch := completeBatch (jobs.take maxjobs) table
    if !batch.ok ∨ jobs.length < maxjobs then some batch
    else (checkBatches answers (left + 1 - maxjobs) batch.table).map fun rest =>
      ⟨rest.ok, batch.touched + rest.touched, batch.tasks ++ rest.tasks, rest.table⟩

-- on an error neither the counter nor the number of completed tasks is set
def checkCompleted (s : CoasterState) (size : ℕ) (answers : List (Option (List CoasterJob))) :
    Option (Bool × List (ℕ × CompletedTask) × CoasterState) :=
  (checkBatches answers size s.activeTasks).map fun batch =>
    if batch.ok then
      (true, batch.tasks,
        { s with used := s.used - batch.tasks.length, activeTasks := batch.table })
    else (false, [], { s with activeTasks := batch.table })

inductive CoasterCall
  | execute (callbacks : TaskCallbacks) (jobId : ℕ) (entered : Bool)
  | wait (size : ℕ) (answers : List (Option (List CoasterJob)))
  | poll (size : ℕ) (answers : List (Option (List CoasterJob)))

/-- Whether the call succeeds, what it reports and the state after it; `none` when an assertion
fails or the call does not come back. -/
def CoasterState.call (s : CoasterState) :
    CoasterCall → Option (Bool × List (ℕ × CompletedTask) × CoasterState)
  | .execute callbacks jobId entered =>
    (coasterExecute s callbacks jobId entered).map fun s' => (entered, [], s')
  | .wait size answers =>
    if s.used = 0 then some (false, [], s)
    else if size < 1 then none else checkCompleted s size answers
  | .poll size answers =>
    if s.used > 0 then if size < 1 then none else checkCompleted s size answers
    else some (true, [], s)

def CoasterCall.launches : CoasterCall → List (ℕ × TaskCallbacks)
  | .execute callbacks jobId true => [(jobId, callbacks)]
  | _ => []

def CoasterCall.IsExecute : CoasterCall → Prop
  | .execute .. => True
  | _ => False

def CoasterCall.room : CoasterCall → ℕ
  | .execute .. => 0
  | .wait size _ | .poll size _ => size

structure CoasterStep where
  before : CoasterState
  call : CoasterCall
  ok : Bool
  tasks : List (ℕ × CompletedTask)
  after : CoasterState

/-- The calls made of the executor since it was started with so many slots. -/
inductive CoasterRun (total : ℕ) : List CoasterStep → CoasterState → Prop
  | start : CoasterRun total [] (coasterStart total)
  | call {steps s c ok tasks s'} : CoasterRun total steps s → s.call c = some (ok, tasks, s') →
      CoasterRun total (steps ++ [⟨s, c, ok, tasks, s'⟩]) s'

def launched (steps : List CoasterStep) : List (ℕ × TaskCallbacks) :=
  steps.flatMap fun step => step.call.launches

def pairs (tasks : List (ℕ × CompletedTask)) : List (ℕ × TaskCallbacks) :=
  tasks.map fun task => (task.1, task.2.callbacks)

def reported (steps : List CoasterStep) : List (ℕ × TaskCallbacks) :=
  steps.flatMap fun step => pairs step.tasks

def CoasterState.Accounted (s : CoasterState) : Prop := s.used = s.activeTasks.length

/-- What is expected of a call: the counter agrees with the table, also after a failure, and a
launch that fails changes neither. -/
def CoasterStep.Meets (step : CoasterStep) : Prop :=
  step.after.Accounted ∧ (step.call.IsExecute → step.ok = false → step.after = step.before)

/-- Every one of these jobs has an entry, and the calls made for it succeed. -/
inductive JobsServed : List CoasterJob → List (ℕ × TaskCallbacks) → List (ℕ × TaskCallbacks) → Prop
  | nil {table} : JobsServed [] table table
  | cons {job jobs table callbacks table' table''} :
      tableRemove job.id table = some (callbacks, table') → job.ok = true →
      JobsServed jobs table' table'' → JobsServed (job :: jobs) table table''

/-- No answer taken is a failure, and every job taken from them is served. -/
def AllServed : List (Option (List CoasterJob)) → ℕ → List (ℕ × TaskCallbacks) → Prop
  | _, 0, _ | [], _ + 1, _ => True
  | none :: _, _ + 1, _ => False
  | some jobs :: answers, left + 1, table =>
    ∃ table', JobsServed (jobs.take (min (left + 1) tmpJobsSize)) table table' ∧
      (min (left + 1) tmpJobsSize ≤ jobs.length →
        AllServed answers (left + 1 - min (left + 1) tmpJobsSize) table')

/-- The first answer is a failure, or its first job has no entry. -/
def FailsFirst : List (Option (List CoasterJob)) → List (ℕ × TaskCallbacks) → Prop
  | none :: _, _ => True
  | some (job :: _) :: _, table => tableRemove job.id table = none
  | _, _ => False

/-- A launch succeeds, and a check succeeds or fails before it has taken a job from the table. -/
def CoasterStep.Safe (step : CoasterStep) : Prop :=
  match step.call with
  | .execute _ _ entered => entered = true
  | .wait _ answers | .poll _ answers =>
    step.before.used = 0 ∨ AllServed answers step.call.room step.before.activeTasks ∨
      FailsFirst answers step.before.activeTasks

/-! ### The table -/

lemma coe_tableRemove {jobId : ℕ} {table : List (ℕ × TaskCallbacks)}
    {r : TaskCallbacks × List (ℕ × TaskCallbacks)} (h : tableRemove jobId table = some r) :
    (↑table : Multiset (ℕ × TaskCallbacks)) = (jobId, r.1) ::ₘ ↑r.2 := by
  induction table generalizing r with
  | nil => cases h
  | cons entry entries ih =>
    rw [tableRemove] at h
    split at h
    · rename_i hid
      cases h
      rw [← hid, Multiset.cons_coe]
    · obtain ⟨r', hr, rfl⟩ := Option.map_eq_some_iff.mp h
      rw [← Multiset.cons_coe, ih hr, Multiset.cons_swap, Multiset.cons_coe]

/-- What a piece of the check takes from the table it starts with: the tasks it completes, and one
more where it fails after it has removed the entry. -/
structure Batch.Takes (batch : Batch) (table : List (ℕ × TaskCallbacks)) : Prop where
  conserved : ∃ lost : Multiset (ℕ × TaskCallbacks),
    (↑table : Multiset (ℕ × TaskCallbacks)) = ↑(pairs batch.tasks) + lost + ↑batch.table ∧
      lost.card = batch.touched - batch.tasks.length
  le_touched : batch.tasks.length ≤ batch.touched
  ok : batch.ok = true → batch.touched = batch.tasks.length

section

variable {job : CoasterJob} {table : List (ℕ × TaskCallbacks)}

lemma completeBatch_of_none {jobs : List CoasterJob} (h : tableRemove job.id table = none) :
    completeBatch (job :: jobs) table = ⟨false, 0, [], table⟩ := by
  rw [completeBatch, h]

lemma completeBatch_touched_pos (jobs : List CoasterJob)
    {r : TaskCallbacks × List (ℕ × TaskCallbacks)} (h : tableRemove job.id table = some r) :
    0 < (completeBatch (job :: jobs) table).touched := by
  rw [completeBatch, h]
  dsimp only
  split <;> exact Nat.succ_pos _

end

lemma pairs_append (tasks tasks' : List (ℕ × CompletedTask)) :
    pairs (tasks ++ tasks') = pairs tasks ++ pairs tasks' :=
  List.map_append

lemma completeBatch_takes (jobs : List CoasterJob) (table : List (ℕ × TaskCallbacks)) :
    (completeBatch jobs table).Takes table := by
  induction jobs generalizing table with
  | nil => exact ⟨⟨0, by simp [completeBatch, pairs], rfl⟩, le_rfl, fun _ => rfl⟩
  | cons job jobs ih =>
    rw [completeBatch]
    cases hremove : tableRemove job.id table with
    | none => exact ⟨⟨0, by simp [pairs], rfl⟩, le_rfl, fun _ => rfl⟩
    | some r =>
      obtain ⟨callbacks, table'⟩ := r
      have htable := coe_tableRemove hremove
      dsimp only
      split
      · obtain ⟨⟨lost, hlost, hcard⟩, hle, hok⟩ := ih table'
        refine ⟨⟨lost, ?_, by simpa using hcard⟩, by simpa using hle, by simpa using hok⟩
        rw [htable, hlost]
        simp [pairs, ← Multiset.cons_coe]
      · exact ⟨⟨{(job.id, callbacks)}, by simpa [pairs] using htable, rfl⟩, Nat.zero_le _, by simp⟩

lemma completeBatch_touched (jobs : List CoasterJob) (table : List (ℕ × TaskCallbacks)) :
    (completeBatch jobs table).touched ≤ jobs.length := by
  induction jobs generalizing table with
  | nil => exact le_rfl
  | cons job jobs ih =>
    rw [completeBatch]
    cases tableRemove job.id table with
    | none => exact Nat.zero_le _
    | some r =>
      dsimp only
      split
      · simpa using ih r.2
      · simp

lemma Batch.Takes.append {first second : Batch} {table : List (ℕ × TaskCallbacks)}
    (h : first.Takes table) (hok : first.ok = true) (h' : second.Takes first.table) :
    (⟨second.ok, first.touched + second.touched, first.tasks ++ second.tasks, second.table⟩ :
      Batch).Takes table := by
  obtain ⟨⟨lost, hlost, hcard⟩, hle, htouched⟩ := h
  obtain ⟨⟨lost', hlost', hcard'⟩, hle', htouched'⟩ := h'
  have heq := htouched hok
  refine ⟨⟨lost + lost', ?_, ?_⟩, by simpa using add_le_add hle hle', ?_⟩
  · rw [hlost, hlost', pairs_append, ← Multiset.coe_add]
    abel
  · simp only [Multiset.card_add, List.length_append, hcard, hcard']
    omega
  · intro hok'
    rw [List.length_append, heq, htouched' hok']

lemma checkBatches_takes {answers : List (Option (List CoasterJob))} {size : ℕ}
    {table : List (ℕ × TaskCallbacks)} {batch : Batch}
    (h : checkBatches answers size table = some batch) :
    batch.Takes table ∧ batch.touched ≤ size := by
  have hempty : ∀ (ok : Bool) (size : ℕ), (⟨ok, 0, [], table⟩ : Batch).Takes table ∧ 0 ≤ size :=
    fun ok size => ⟨⟨⟨0, by simp [pairs], rfl⟩, le_rfl, fun _ => rfl⟩, Nat.zero_le _⟩
  induction answers generalizing size table batch with
  | nil =>
    cases size with
    | zero =>
      cases h
      exact hempty _ _
    | succ left => cases h
  | cons answer answers ih =>
    rcases size with _ | left
    · cases h
      exact hempty _ _
    rcases answer with _ | jobs
    · cases h
      exact hempty _ _
    have htouched := completeBatch_touched (jobs.take (min (left + 1) tmpJobsSize)) table
    have htakes := completeBatch_takes (jobs.take (min (left + 1) tmpJobsSize)) table
    rw [List.length_take] at htouched
    rw [checkBatches] at h
    split at h
    · cases h
      exact ⟨htakes, by omega⟩
    · rename_i hrest
      obtain ⟨rest, hr, rfl⟩ := Option.map_eq_some_iff.mp h
      obtain ⟨htakes', htouched'⟩ := ih hr fun ok size =>
        ⟨⟨⟨0, by simp [pairs], rfl⟩, le_rfl, fun _ => rfl⟩, Nat.zero_le _⟩
      have hok : (completeBatch (jobs.take (min (left + 1) tmpJobsSize)) table).ok = true := by
        by_contra hnot
        exact hrest (.inl (by simpa using hnot))
      refine ⟨htakes.append hok htakes', ?_⟩
      dsimp only
      omega

/-! ### The checks that succeed -/

lemma completeJobs_of_completeBatch {jobs : List CoasterJob} {table : List (ℕ × TaskCallbacks)}
    (h : (completeBatch jobs table).ok = true) : completeJobs jobs table =
      some ((completeBatch jobs table).tasks.map (·.2), (completeBatch jobs table).table) := by
  induction jobs generalizing table with
  | nil => rfl
  | cons job jobs ih =>
    rw [completeBatch] at h ⊢
    rw [completeJobs]
    cases hremove : tableRemove job.id table with
    | none => simp [hremove] at h
    | some r =>
      cases hok : job.ok with
      | false => simp [hremove, hok] at h
      | true =>
        simp only [hremove, hok, if_true] at h
        simp [ih h]

/-- Where no call fails the check is the one that the worker is proved with. -/
theorem checkJobs_of_checkBatches {answers : List (List CoasterJob)} {size : ℕ}
    {table : List (ℕ × TaskCallbacks)} {batch : Batch}
    (h : checkBatches (answers.map some) size table = some batch) (hok : batch.ok = true) :
    checkJobs answers size table = some (batch.tasks.map (·.2), batch.table) := by
  induction answers generalizing size table batch with
  | nil =>
    cases size with
    | zero =>
      cases h
      rfl
    | succ left => cases h
  | cons jobs answers ih =>
    cases size with
    | zero =>
      cases h
      rfl
    | succ left =>
      rw [List.map_cons, checkBatches] at h
      rw [checkJobs]
      split at h
      · rename_i hends
        cases h
        rw [completeJobs_of_completeBatch hok]
        have hlt := hends.resolve_left (by simp [hok])
        simp [hlt]
      · rename_i hrest
        obtain ⟨hok₁, hle⟩ := not_or.mp hrest
        obtain ⟨rest, hr, rfl⟩ := Option.map_eq_some_iff.mp h
        rw [Bool.not_eq_true, Bool.not_eq_false'] at hok₁
        rw [completeJobs_of_completeBatch hok₁]
        simp [hle, ih hr hok]

/-! ### The calls that keep the account -/

lemma served_iff {jobs : List CoasterJob} {table table' : List (ℕ × TaskCallbacks)} :
    JobsServed jobs table table' ↔
      (completeBatch jobs table).ok = true ∧ (completeBatch jobs table).table = table' := by
  constructor
  · intro h
    induction h with
    | nil => exact ⟨rfl, rfl⟩
    | cons hremove hok _ ih => simpa [completeBatch, hremove, hok] using ih
  · intro h
    induction jobs generalizing table with
    | nil =>
      rw [← h.2]
      exact .nil
    | cons job jobs ih =>
      rw [completeBatch] at h
      cases hremove : tableRemove job.id table with
      | none => simp [hremove] at h
      | some r =>
        cases hok : job.ok with
        | false => simp [hremove, hok] at h
        | true => exact .cons hremove hok (ih (by simpa [hremove, hok] using h))

lemma checkBatches_ok {answers : List (Option (List CoasterJob))} {size : ℕ}
    {table : List (ℕ × TaskCallbacks)} {batch : Batch}
    (h : checkBatches answers size table = some batch) :
    batch.ok = true ↔ AllServed answers size table := by
  induction answers generalizing size table batch with
  | nil =>
    cases size with
    | zero =>
      cases h
      exact iff_of_true rfl trivial
    | succ left => cases h
  | cons answer answers ih =>
    rcases size with _ | left
    · cases h
      exact iff_of_true rfl trivial
    rcases answer with _ | jobs
    · cases h
      exact iff_of_false Bool.false_ne_true id
    rw [checkBatches] at h
    simp only [AllServed, served_iff]
    generalize completeBatch (jobs.take (min (left + 1) tmpJobsSize)) table = batch₁ at h ⊢
    split at h
    · rename_i hends
      cases h
      constructor
      · intro hok
        refine ⟨batch.table, ⟨hok, rfl⟩, ?_⟩
        intro hle
        have hlt := hends.resolve_left (by simp [hok])
        omega
      · rintro ⟨-, ⟨hok, -⟩, -⟩
        exact hok
    · rename_i hrest
      obtain ⟨rest, hr, rfl⟩ := Option.map_eq_some_iff.mp h
      obtain ⟨hok, hle⟩ := not_or.mp hrest
      rw [Bool.not_eq_true, Bool.not_eq_false'] at hok
      rw [ih hr]
      constructor
      · exact fun hserved => ⟨batch₁.table, ⟨hok, rfl⟩, fun _ => hserved⟩
      · rintro ⟨_, ⟨-, rfl⟩, hserved⟩
        exact hserved (by omega)

/-- A check that has taken nothing from the table and fails does so at its first answer. -/
lemma checkBatches_failsFirst {answers : List (Option (List CoasterJob))} {size : ℕ}
    {table : List (ℕ × TaskCallbacks)} {batch : Batch} (hsize : 1 ≤ size)
    (h : checkBatches answers size table = some batch) :
    FailsFirst answers table ↔ batch.ok = false ∧ batch.touched = 0 := by
  obtain ⟨left, rfl⟩ := Nat.exists_eq_add_of_le' hsize
  rcases answers with _ | ⟨_ | jobs, answers⟩
  · cases h
  · cases h
    exact iff_of_true trivial ⟨rfl, rfl⟩
  · have hpos : 0 < min (left + 1) tmpJobsSize := by
      simp only [tmpJobsSize]
      omega
    obtain ⟨k, hk⟩ := Nat.exists_eq_succ_of_ne_zero hpos.ne'
    rw [checkBatches, hk] at h
    rcases jobs with _ | ⟨job, jobs⟩
    · rw [List.take_nil, completeBatch, if_pos (.inr (Nat.succ_pos k))] at h
      cases h
      exact iff_of_false id (by simp)
    · rw [List.take_succ_cons] at h
      cases hremove : tableRemove job.id table with
      | none =>
        rw [completeBatch_of_none hremove, if_pos (.inl rfl)] at h
        cases h
        exact iff_of_true hremove ⟨rfl, rfl⟩
      | some r =>
        have htouched := completeBatch_touched_pos (jobs.take k) hremove
        refine iff_of_false (by simp [FailsFirst, hremove]) ?_
        rintro ⟨-, hnone⟩
        split at h
        · cases h
          omega
        · obtain ⟨rest, -, rfl⟩ := Option.map_eq_some_iff.mp h
          dsimp only at hnone
          omega

/-! ### The calls -/

lemma checkCompleted_takes {s s' : CoasterState} {size : ℕ}
    {answers : List (Option (List CoasterJob))} {ok : Bool} {tasks : List (ℕ × CompletedTask)}
    (h : checkCompleted s size answers = some (ok, tasks, s')) :
    (∃ lost : Multiset (ℕ × TaskCallbacks),
      (↑s.activeTasks : Multiset (ℕ × TaskCallbacks)) = ↑(pairs tasks) + lost + ↑s'.activeTasks) ∧
      tasks.length ≤ size := by
  obtain ⟨batch, hbatch, he⟩ := Option.map_eq_some_iff.mp h
  obtain ⟨htakes, htouched⟩ := checkBatches_takes hbatch
  obtain ⟨lost, hlost, -⟩ := htakes.conserved
  have hle := htakes.le_touched
  split at he
  · cases he
    exact ⟨⟨lost, hlost⟩, hle.trans htouched⟩
  · cases he
    refine ⟨⟨↑(pairs batch.tasks) + lost, ?_⟩, Nat.zero_le _⟩
    simpa [pairs] using hlost

lemma checkCompleted_accounted {s s' : CoasterState} {size : ℕ}
    {answers : List (Option (List CoasterJob))} {ok : Bool} {tasks : List (ℕ × CompletedTask)}
    (hs : s.Accounted) (hsize : 1 ≤ size)
    (h : checkCompleted s size answers = some (ok, tasks, s')) :
    s'.Accounted ↔ AllServed answers size s.activeTasks ∨ FailsFirst answers s.activeTasks := by
  obtain ⟨batch, hbatch, he⟩ := Option.map_eq_some_iff.mp h
  obtain ⟨htakes, -⟩ := checkBatches_takes hbatch
  obtain ⟨lost, hlost, hcard⟩ := htakes.conserved
  have hle := htakes.le_touched
  have hlength := congrArg Multiset.card hlost
  simp only [Multiset.card_add, Multiset.coe_card, pairs, List.length_map, hcard] at hlength
  rw [← checkBatches_ok hbatch, checkBatches_failsFirst hsize hbatch]
  unfold CoasterState.Accounted at hs ⊢
  split at he
  · rename_i hok
    cases he
    have htouched := htakes.ok hok
    exact iff_of_true (by dsimp only; omega) (.inl hok)
  · rename_i hok
    cases he
    simp only [Bool.not_eq_true] at hok
    simp only [hok, Bool.false_eq_true, false_or, true_and]
    omega

/-- What a call does to the launched, the reported and the active tasks. -/
lemma call_takes {s s' : CoasterState} {c : CoasterCall} {ok : Bool}
    {tasks : List (ℕ × CompletedTask)} (h : s.call c = some (ok, tasks, s')) :
    (∃ lost : Multiset (ℕ × TaskCallbacks),
      (↑c.launches + ↑s.activeTasks : Multiset (ℕ × TaskCallbacks)) =
        ↑(pairs tasks) + lost + ↑s'.activeTasks) ∧ tasks.length ≤ c.room := by
  have hsame : ∃ lost : Multiset (ℕ × TaskCallbacks),
      (↑([] : List (ℕ × TaskCallbacks)) + ↑s.activeTasks : Multiset (ℕ × TaskCallbacks)) =
        ↑(pairs []) + lost + ↑s.activeTasks := ⟨0, by simp [pairs]⟩
  cases c with
  | execute callbacks jobId entered =>
    obtain ⟨s₁, he, heq⟩ := Option.map_eq_some_iff.mp h
    cases heq
    unfold coasterExecute at he
    split at he
    · cases ok with
      | true =>
        cases he
        exact ⟨⟨0, by simp [CoasterCall.launches, pairs]⟩, Nat.zero_le _⟩
      | false =>
        cases he
        exact ⟨hsame, Nat.zero_le _⟩
    · cases he
  | wait size answers =>
    rw [CoasterState.call] at h
    split at h
    · cases h
      exact ⟨hsame, Nat.zero_le _⟩
    · split at h
      · cases h
      · simpa [CoasterCall.launches, CoasterCall.room] using checkCompleted_takes h
  | poll size answers =>
    rw [CoasterState.call] at h
    split at h
    · split at h
      · cases h
      · simpa [CoasterCall.launches, CoasterCall.room] using checkCompleted_takes h
    · cases h
      exact ⟨hsame, Nat.zero_le _⟩

lemma call_meets_iff {s s' : CoasterState} {c : CoasterCall} {ok : Bool}
    {tasks : List (ℕ × CompletedTask)} (hs : s.Accounted)
    (h : s.call c = some (ok, tasks, s')) :
    (⟨s, c, ok, tasks, s'⟩ : CoasterStep).Meets ↔ (⟨s, c, ok, tasks, s'⟩ : CoasterStep).Safe := by
  cases c with
  | execute callbacks jobId entered =>
    obtain ⟨s₁, he, heq⟩ := Option.map_eq_some_iff.mp h
    cases heq
    unfold coasterExecute at he
    unfold CoasterState.Accounted at hs
    split at he
    · cases ok with
      | true =>
        cases he
        exact iff_of_true ⟨by simp [CoasterState.Accounted, hs], fun _ hok => by cases hok⟩ rfl
      | false =>
        cases he
        refine iff_of_false ?_ Bool.false_ne_true
        rintro ⟨haccounted, -⟩
        simp only [CoasterState.Accounted] at haccounted
        omega
    · cases he
  | wait size answers =>
    simp only [CoasterStep.Meets, CoasterStep.Safe, CoasterCall.IsExecute, CoasterCall.room,
      false_imp_iff, and_true]
    rw [CoasterState.call] at h
    split at h
    · rename_i hused
      cases h
      exact iff_of_true hs (.inl hused)
    · rename_i hused
      split at h
      · cases h
      · rw [checkCompleted_accounted hs (by omega) h, or_iff_right hused]
  | poll size answers =>
    simp only [CoasterStep.Meets, CoasterStep.Safe, CoasterCall.IsExecute, CoasterCall.room,
      false_imp_iff, and_true]
    rw [CoasterState.call] at h
    split at h
    · rename_i hused
      split at h
      · cases h
      · rw [checkCompleted_accounted hs (by omega) h, or_iff_right hused.ne']
    · rename_i hused
      cases h
      exact iff_of_true hs (.inl (by omega))

/-! ### The runs -/

lemma CoasterRun.conserved {total : ℕ} {steps : List CoasterStep} {s : CoasterState}
    (h : CoasterRun total steps s) : ∃ lost : Multiset (ℕ × TaskCallbacks),
      (↑(launched steps) : Multiset (ℕ × TaskCallbacks)) =
        ↑(reported steps) + lost + ↑s.activeTasks := by
  induction h with
  | start => exact ⟨0, rfl⟩
  | @call steps s c ok tasks s' _ hcall ih =>
    obtain ⟨lost, hlost⟩ := ih
    obtain ⟨⟨lost', hlost'⟩, -⟩ := call_takes hcall
    refine ⟨lost + lost', ?_⟩
    have hlaunched : launched (steps ++ [⟨s, c, ok, tasks, s'⟩]) = launched steps ++ c.launches := by
      simp [launched]
    have hreported : reported (steps ++ [⟨s, c, ok, tasks, s'⟩]) =
        reported steps ++ pairs tasks := by
      simp [reported]
    rw [hlaunched, hreported, ← Multiset.coe_add, ← Multiset.coe_add, hlost]
    calc ↑(reported steps) + lost + ↑s.activeTasks + ↑c.launches
        = ↑(reported steps) + lost + (↑c.launches + ↑s.activeTasks) := by abel
      _ = ↑(reported steps) + ↑(pairs tasks) + (lost + lost') + ↑s'.activeTasks := by
        rw [hlost']
        abel

lemma CoasterRun.accounts_iff {total : ℕ} {steps : List CoasterStep} {s : CoasterState}
    (h : CoasterRun total steps s) :
    ((∀ step ∈ steps, step.Meets) ↔ ∀ step ∈ steps, step.Safe) ∧
      ((∀ step ∈ steps, step.Meets) → s.Accounted) := by
  induction h with
  | start => exact ⟨by simp, fun _ => rfl⟩
  | @call steps s c ok tasks s' _ hcall ih =>
    obtain ⟨hiff, haccounted⟩ := ih
    simp only [List.forall_mem_append, List.forall_mem_singleton]
    refine ⟨?_, fun hmeets => hmeets.2.1⟩
    rw [← hiff]
    exact and_congr_right fun hmeets => call_meets_iff (haccounted hmeets) hcall

lemma CoasterRun.length_le {total : ℕ} {steps : List CoasterStep} {s : CoasterState}
    (h : CoasterRun total steps s) : ∀ step ∈ steps, step.tasks.length ≤ step.call.room := by
  induction h with
  | start => simp
  | call _ hcall ih =>
    simp only [List.forall_mem_append, List.forall_mem_singleton]
    exact ⟨ih, (call_takes hcall).2⟩

/-- In a run of the Coaster executor its counter agrees with its table after every call, and the
launches that fail change nothing, exactly when its launches succeed and its checks do not fail once
they have taken a job. In every run the jobs it has reported are different ones of those launched,
with their callbacks, and the array of completed tasks has room for what is written to it. -/
theorem coaster_accounts_iff {total : ℕ} {steps : List CoasterStep} {s : CoasterState}
    (hrun : CoasterRun total steps s) :
    ((∀ step ∈ steps, step.Meets) ↔ ∀ step ∈ steps, step.Safe) ∧
      Settles (reported steps) (launched steps) ∧
      (∀ step ∈ steps, step.tasks.length ≤ step.call.room) ∧
      ∀ answers size table batch, checkBatches answers size table = some batch →
        batch.touched ≤ size := by
  refine ⟨hrun.accounts_iff.1, ?_, ?_, ?_⟩
  · obtain ⟨lost, hlost⟩ := hrun.conserved
    apply settles_of_le
    rw [hlost, add_assoc]
    exact Multiset.le_add_right _ _
  · exact hrun.length_le
  · exact fun _ _ _ _ hbatch => (checkBatches_takes hbatch).2

-- a job is launched, and reported by a poll
theorem coaster_accounts_iff_reported : ∃ steps : List CoasterStep,
    reported steps = [(5, ⟨some 1, none⟩)] ∧
      ((∀ step ∈ steps, step.Meets) ↔ ∀ step ∈ steps, step.Safe) := by
  have hlaunch : CoasterRun 2 _ _ := .call .start
    (rfl : (coasterStart 2).call (.execute ⟨some 1, none⟩ 5 true) = some (_, _, _))
  have hpoll : CoasterRun 2 _ _ := .call hlaunch
    (rfl : CoasterState.call _ (.poll 16 [some [⟨5, true, true, 9⟩]]) = some (_, _, _))
  exact ⟨_, rfl, (coaster_accounts_iff hpoll).1⟩

/-- A job that is not submitted keeps its slot. -/
theorem not_coaster_accounts : ¬ ∀ (total : ℕ) (steps : List CoasterStep) (s : CoasterState),
    CoasterRun total steps s → ∀ step ∈ steps, step.Meets := by
  intro h
  have hrun : CoasterRun 1 _ _ := .call .start
    (rfl : (coasterStart 1).call (.execute ⟨none, none⟩ 0 false) = some (_, _, _))
  have hmeets := h 1 _ _ hrun _ (.head _)
  exact absurd hmeets.1 (by simp [CoasterState.Accounted, coasterStart])

end Turbine.Async
