import Mathlib
import Turbine.Async.Model

/-! What the worker relies on of an executor, and the no-op and Coaster executors: a slot is
used from the launch of its task until the task is reported, and every task it reports is one that
it launched. -/

namespace Turbine.Async

/-- An executor in its well-formed states. It may abort on a failed assertion when it is asked to
execute a task, but not while it has a free slot. -/
structure Executor (S : Type) where
  slots : S → SlotState
  -- the callbacks of the launched tasks, on which the executor holds references
  active : S → Multiset TaskCallbacks
  -- the flag tells whether the task was launched; if not, it keeps the slot all the same
  executes : S → TaskCallbacks → Bool → S → Prop
  aborts : S → TaskCallbacks → Prop
  -- a poll or a wait that is given room for so many tasks
  reports : S → ℕ → List CompletedTask → S → Prop
  used_le : ∀ s, (slots s).used ≤ (slots s).total
  free_of_aborts : ∀ {s cb}, aborts s cb → ¬ (slots s).used < (slots s).total
  slots_of_executes : ∀ {s cb launched s'}, executes s cb launched s' →
    slots s' = ⟨(slots s).used + 1, (slots s).total⟩
  slots_of_reports : ∀ {s size tasks s'}, reports s size tasks s' →
    slots s' = ⟨(slots s).used - tasks.length, (slots s).total⟩
  active_of_executes : ∀ {s cb launched s'}, executes s cb launched s' →
    active s' = if launched then cb ::ₘ active s else active s
  active_of_reports : ∀ {s size tasks s'}, reports s size tasks s' →
    active s = ↑(tasks.map (·.callbacks)) + active s'

/-! ### The no-op executor -/

structure NoopActiveTask where
  callbacks : TaskCallbacks
  active : Bool

structure NoopState where
  used : ℕ
  total : ℕ
  tasks : List NoopActiveTask

def noopExecSlots : ℕ := 4

def noopStart : NoopState :=
  ⟨0, noopExecSlots, List.replicate noopExecSlots ⟨⟨none, none⟩, false⟩⟩

-- the first inactive slot takes the task; `none` when `assert(found_slot)` fails
def assignSlot (callbacks : TaskCallbacks) : List NoopActiveTask → Option (List NoopActiveTask)
  | [] => none
  | task :: tasks =>
    if task.active then (assignSlot callbacks tasks).map (task :: ·)
    else some (⟨callbacks, true⟩ :: tasks)

-- `none` when an assertion fails
def noopExecute (s : NoopState) (callbacks : TaskCallbacks) : Option NoopState :=
  if s.used < s.total then
    (assignSlot callbacks s.tasks).map fun tasks => { s with used := s.used + 1, tasks := tasks }
  else none

-- the loop draws numbers until one of them names an active slot; `val` is the new string object
def chooseCompleted (val : Obj) (s : NoopState) :
    List ℕ → Option ((CompletedTask × NoopState) × List ℕ)
  | [] => none
  | r :: draws =>
    match s.tasks[r % s.total]? with
    | none => none
    | some task =>
      if task.active then
        some ((⟨true, task.callbacks, some [⟨"noop_task_result", true, val⟩]⟩,
          { s with tasks := s.tasks.set (r % s.total) { task with active := false } }), draws)
      else chooseCompleted val s draws

def fillCompleted (s : NoopState) (size : ℕ) (coin : Bool) (val₀ val₁ : Obj) (draws : List ℕ) :
    Option (List CompletedTask × NoopState) :=
  if s.used > 1 ∧ coin ∧ size ≥ 2 then do
    let ((task₀, s₀), draws) ← chooseCompleted val₀ s draws
    let ((task₁, s₁), _) ← chooseCompleted val₁ s₀ draws
    some ([task₀, task₁], { s₁ with used := s₁.used - 2 })
  else do
    let ((task, s'), _) ← chooseCompleted val₀ s draws
    some ([task], { s' with used := s'.used - 1 })

def noopWait (s : NoopState) (size : ℕ) (coin : Bool) (val₀ val₁ : Obj) (draws : List ℕ) :
    Option (List CompletedTask × NoopState) :=
  if s.used > 0 then fillCompleted s size coin val₀ val₁ draws else some ([], s)

def noopPoll (s : NoopState) (size : ℕ) (lucky coin : Bool) (val₀ val₁ : Obj) (draws : List ℕ) :
    Option (List CompletedTask × NoopState) :=
  if s.used > 0 ∧ lucky then fillCompleted s size coin val₀ val₁ draws else some ([], s)

def activeCallbacks (tasks : List NoopActiveTask) : Multiset TaskCallbacks :=
  ↑((tasks.filter (·.active)).map (·.callbacks))

def activeCount (tasks : List NoopActiveTask) : ℕ := tasks.countP (·.active)

structure NoopState.Wf (s : NoopState) : Prop where
  length_eq : s.tasks.length = s.total
  used_eq : s.used = activeCount s.tasks

lemma noopStart_wf : noopStart.Wf := ⟨rfl, rfl⟩

lemma NoopState.Wf.used_le {s : NoopState} (h : s.Wf) : s.used ≤ s.total := by
  rw [h.used_eq, ← h.length_eq]
  exact List.countP_le_length

lemma assignSlot_spec {callbacks : TaskCallbacks} {tasks tasks' : List NoopActiveTask}
    (h : assignSlot callbacks tasks = some tasks') :
    tasks'.length = tasks.length ∧ activeCount tasks' = activeCount tasks + 1 ∧
      activeCallbacks tasks' = callbacks ::ₘ activeCallbacks tasks := by
  induction tasks generalizing tasks' with
  | nil => cases h
  | cons task tasks ih =>
    simp only [assignSlot] at h
    split at h
    · rename_i ha
      obtain ⟨rest, hr, rfl⟩ := Option.map_eq_some_iff.mp h
      obtain ⟨hl, hc, hcb⟩ := ih hr
      simp only [activeCount] at hc
      refine ⟨by simp [hl], by simp [activeCount, ha, hc], ?_⟩
      simp only [activeCallbacks, List.filter_cons, ha, if_true, List.map_cons,
        ← Multiset.cons_coe] at hcb ⊢
      rw [hcb, Multiset.cons_swap]
    · rename_i ha
      cases h
      simp [activeCount, activeCallbacks, ha]

lemma assignSlot_isSome {callbacks : TaskCallbacks} {tasks : List NoopActiveTask}
    (h : activeCount tasks < tasks.length) : (assignSlot callbacks tasks).isSome := by
  induction tasks with
  | nil => simp at h
  | cons task tasks ih =>
    simp only [assignSlot]
    split
    · rename_i ha
      have hlt : activeCount tasks < tasks.length := by
        simp only [activeCount, List.countP_cons, ha, if_true, List.length_cons] at h ⊢
        omega
      simpa using ih hlt
    · rfl

/-- No assertion of `noop_execute` fails while a slot is free. -/
lemma NoopState.Wf.execute_isSome {s : NoopState} (h : s.Wf) (callbacks : TaskCallbacks)
    (hfree : s.used < s.total) : (noopExecute s callbacks).isSome := by
  have hlt : activeCount s.tasks < s.tasks.length := by
    rw [← h.used_eq, h.length_eq]
    exact hfree
  simpa [noopExecute, hfree] using assignSlot_isSome hlt

lemma NoopState.Wf.execute {s s' : NoopState} {callbacks : TaskCallbacks} (h : s.Wf)
    (he : noopExecute s callbacks = some s') :
    s'.Wf ∧ s'.used = s.used + 1 ∧ s'.total = s.total ∧
      activeCallbacks s'.tasks = callbacks ::ₘ activeCallbacks s.tasks := by
  simp only [noopExecute] at he
  split at he
  · obtain ⟨tasks, ht, rfl⟩ := Option.map_eq_some_iff.mp he
    obtain ⟨hl, hc, hcb⟩ := assignSlot_spec ht
    exact ⟨⟨hl.trans h.length_eq, by rw [hc, h.used_eq]⟩, rfl, rfl, hcb⟩
  · cases he

-- emptying an active slot takes its callbacks out
lemma activeCallbacks_set {tasks : List NoopActiveTask} {i : ℕ} (hi : i < tasks.length)
    (ha : tasks[i].active) :
    activeCallbacks tasks =
      tasks[i].callbacks ::ₘ activeCallbacks (tasks.set i { tasks[i] with active := false }) := by
  induction tasks generalizing i with
  | nil => simp at hi
  | cons task tasks ih =>
    cases i with
    | zero =>
      simp only [List.getElem_cons_zero] at ha
      simp [activeCallbacks, ha]
    | succ i =>
      simp only [List.getElem_cons_succ, List.length_cons, Nat.add_lt_add_iff_right] at ha hi
      have hrest := ih hi ha
      simp only [activeCallbacks, List.getElem_cons_succ, List.set_cons_succ,
        List.filter_cons] at hrest ⊢
      split
      · simp only [List.map_cons, ← Multiset.cons_coe]
        rw [hrest, Multiset.cons_swap]
      · exact hrest

lemma chooseCompleted_spec {val : Obj} {s s' : NoopState} {task : CompletedTask}
    {draws rest : List ℕ} (h : chooseCompleted val s draws = some ((task, s'), rest)) :
    s'.used = s.used ∧ s'.total = s.total ∧ s'.tasks.length = s.tasks.length ∧
      activeCount s'.tasks + 1 = activeCount s.tasks ∧
      activeCallbacks s.tasks = task.callbacks ::ₘ activeCallbacks s'.tasks := by
  induction draws with
  | nil => cases h
  | cons r draws ih =>
    simp only [chooseCompleted] at h
    split at h
    · cases h
    · rename_i t ht
      split at h
      · rename_i ha
        cases h
        obtain ⟨hlt, rfl⟩ := List.getElem?_eq_some_iff.mp ht
        have hpos : 0 < s.tasks.countP (·.active) :=
          List.countP_pos_iff.mpr ⟨_, List.getElem_mem hlt, ha⟩
        refine ⟨rfl, rfl, by simp, ?_, activeCallbacks_set hlt ha⟩
        simp only [activeCount, List.countP_set hlt, ha, if_true]
        simp
        omega
      · exact ih h

lemma NoopState.Wf.fillCompleted {s s' : NoopState} {size : ℕ} {coin : Bool} {val₀ val₁ : Obj}
    {draws : List ℕ} {tasks : List CompletedTask} (h : s.Wf)
    (hf : Async.fillCompleted s size coin val₀ val₁ draws = some (tasks, s')) :
    s'.Wf ∧ s'.used + tasks.length = s.used ∧ s'.total = s.total ∧
      activeCallbacks s.tasks = ↑(tasks.map (·.callbacks)) + activeCallbacks s'.tasks := by
  have hu := h.used_eq
  have hl := h.length_eq
  simp only [Async.fillCompleted] at hf
  split at hf
  · simp only [Option.bind_eq_bind, Option.bind_eq_some_iff] at hf
    obtain ⟨⟨⟨task₀, s₀⟩, rest₀⟩, h₀, ⟨⟨task₁, s₁⟩, rest₁⟩, h₁, he⟩ := hf
    dsimp only at h₁
    obtain ⟨hu₀, ht₀, hl₀, hc₀, hcb₀⟩ := chooseCompleted_spec h₀
    obtain ⟨hu₁, ht₁, hl₁, hc₁, hcb₁⟩ := chooseCompleted_spec h₁
    cases he
    refine ⟨⟨?_, ?_⟩, ?_, ?_, by simp [hcb₀, hcb₁, ← Multiset.cons_coe]⟩ <;> simp <;> omega
  · simp only [Option.bind_eq_bind, Option.bind_eq_some_iff] at hf
    obtain ⟨⟨⟨task, s₀⟩, rest⟩, h₀, he⟩ := hf
    obtain ⟨hu₀, ht₀, hl₀, hc₀, hcb₀⟩ := chooseCompleted_spec h₀
    cases he
    refine ⟨⟨?_, ?_⟩, ?_, ?_, by simp [hcb₀]⟩ <;> simp <;> omega

lemma NoopState.Wf.wait {s s' : NoopState} {size : ℕ} {coin : Bool} {val₀ val₁ : Obj}
    {draws : List ℕ} {tasks : List CompletedTask} (h : s.Wf)
    (hw : noopWait s size coin val₀ val₁ draws = some (tasks, s')) :
    s'.Wf ∧ s'.used + tasks.length = s.used ∧ s'.total = s.total ∧
      activeCallbacks s.tasks = ↑(tasks.map (·.callbacks)) + activeCallbacks s'.tasks := by
  simp only [noopWait] at hw
  split at hw
  · exact h.fillCompleted hw
  · cases hw
    exact ⟨h, rfl, rfl, by simp⟩

lemma NoopState.Wf.poll {s s' : NoopState} {size : ℕ} {lucky coin : Bool} {val₀ val₁ : Obj}
    {draws : List ℕ} {tasks : List CompletedTask} (h : s.Wf)
    (hp : noopPoll s size lucky coin val₀ val₁ draws = some (tasks, s')) :
    s'.Wf ∧ s'.used + tasks.length = s.used ∧ s'.total = s.total ∧
      activeCallbacks s.tasks = ↑(tasks.map (·.callbacks)) + activeCallbacks s'.tasks := by
  simp only [noopPoll] at hp
  split at hp
  · exact h.fillCompleted hp
  · cases hp
    exact ⟨h, rfl, rfl, by simp⟩

def noopReports (s : NoopState) (size : ℕ) (tasks : List CompletedTask) (s' : NoopState) : Prop :=
  (∃ lucky coin val₀ val₁ draws,
    noopPoll s size lucky coin val₀ val₁ draws = some (tasks, s')) ∨
  ∃ coin val₀ val₁ draws, noopWait s size coin val₀ val₁ draws = some (tasks, s')

lemma NoopState.Wf.reports {s s' : NoopState} {size : ℕ} {tasks : List CompletedTask} (h : s.Wf)
    (hr : noopReports s size tasks s') :
    s'.Wf ∧ s'.used + tasks.length = s.used ∧ s'.total = s.total ∧
      activeCallbacks s.tasks = ↑(tasks.map (·.callbacks)) + activeCallbacks s'.tasks := by
  rcases hr with ⟨_, _, _, _, _, hp⟩ | ⟨_, _, _, _, hw⟩
  · exact h.poll hp
  · exact h.wait hw

def noopExecutor : Executor { s : NoopState // s.Wf } where
  slots s := ⟨s.1.used, s.1.total⟩
  active s := activeCallbacks s.1.tasks
  executes s cb launched s' := launched = true ∧ noopExecute s.1 cb = some s'.1
  aborts s cb := noopExecute s.1 cb = none
  reports s size tasks s' := noopReports s.1 size tasks s'.1
  used_le s := Int.ofNat_le.mpr s.2.used_le
  free_of_aborts {s cb} h hfree := by
    have hs := s.2.execute_isSome cb (Int.ofNat_lt.mp hfree)
    simp [h] at hs
  slots_of_executes {s cb launched s'} h := by
    obtain ⟨_, hu, ht, _⟩ := s.2.execute h.2
    simp [hu, ht]
  slots_of_reports {s size tasks s'} h := by
    obtain ⟨_, hu, ht, _⟩ := s.2.reports h
    simp [← hu, ht]
  active_of_executes {s cb launched s'} h := by
    obtain ⟨rfl, he⟩ := h
    exact (s.2.execute he).2.2.2
  active_of_reports {s size tasks s'} h := (s.2.reports h).2.2.2

/-! ### The Coaster executor -/

-- the status of a finished job, and whether the library calls made for it succeed
structure CoasterJob where
  id : ℕ
  completed : Bool
  ok : Bool
  resultDict : Obj

structure CoasterState where
  used : ℕ
  total : ℕ
  activeTasks : List (ℕ × TaskCallbacks)

def coasterStart (totalSlots : ℕ) : CoasterState := ⟨0, totalSlots, []⟩

-- `none` when the assertion fails; a job that is not submitted or not entered in the table keeps
-- its slot
def coasterExecute (s : CoasterState) (callbacks : TaskCallbacks) (jobId : ℕ) (entered : Bool) :
    Option CoasterState :=
  if s.used < s.total then
    if entered then
      some ⟨s.used + 1, s.total, (jobId, callbacks) :: s.activeTasks⟩
    else some ⟨s.used + 1, s.total, s.activeTasks⟩
  else none

def tableRemove (jobId : ℕ) : List (ℕ × TaskCallbacks) →
    Option (TaskCallbacks × List (ℕ × TaskCallbacks))
  | [] => none
  | entry :: entries =>
    if entry.1 = jobId then some (entry.2, entries)
    else (tableRemove jobId entries).map fun r => (r.1, entry :: r.2)

def completeJobs : List CoasterJob → List (ℕ × TaskCallbacks) →
    Option (List CompletedTask × List (ℕ × TaskCallbacks))
  | [], table => some ([], table)
  | job :: jobs, table => do
    let (callbacks, table) ← tableRemove job.id table
    if job.ok then
      let (tasks, table) ← completeJobs jobs table
      some (⟨job.completed, callbacks,
        some [⟨"coaster_task_result", false, job.resultDict⟩]⟩ :: tasks, table)
    else none

def tmpJobsSize : ℕ := 32

-- the loop of `check_completed`: one list of jobs for each call of `coaster_check_jobs`, which
-- fills at most the room it is given; `none` when a check fails or the wait goes on
def checkJobs : List (List CoasterJob) → ℕ → List (ℕ × TaskCallbacks) →
    Option (List CompletedTask × List (ℕ × TaskCallbacks))
  | _, 0, table => some ([], table)
  | [], _ + 1, _ => none
  | jobs :: answers, left + 1, table => do
    let maxjobs := min (left + 1) tmpJobsSize
    let (tasks, table) ← completeJobs (jobs.take maxjobs) table
    if jobs.length < maxjobs then some (tasks, table)
    else do
      let (tasks', table) ← checkJobs answers (left + 1 - maxjobs) table
      some (tasks ++ tasks', table)

def coasterCheckCompleted (s : CoasterState) (size : ℕ) (answers : List (List CoasterJob)) :
    Option (List CompletedTask × CoasterState) := do
  let (tasks, table) ← checkJobs answers size s.activeTasks
  some (tasks, { s with used := s.used - tasks.length, activeTasks := table })

-- `coaster_wait` and `coaster_poll` differ in what they do when no slot is used
def coasterWait (s : CoasterState) (size : ℕ) (answers : List (List CoasterJob)) :
    Option (List CompletedTask × CoasterState) :=
  if s.used = 0 then none else coasterCheckCompleted s size answers

def coasterPoll (s : CoasterState) (size : ℕ) (answers : List (List CoasterJob)) :
    Option (List CompletedTask × CoasterState) :=
  if s.used > 0 then coasterCheckCompleted s size answers else some ([], s)

def tableCallbacks (table : List (ℕ × TaskCallbacks)) : Multiset TaskCallbacks :=
  ↑(table.map (·.2))

structure CoasterState.Wf (s : CoasterState) : Prop where
  length_le : s.activeTasks.length ≤ s.used
  used_le : s.used ≤ s.total

lemma coasterStart_wf (totalSlots : ℕ) : (coasterStart totalSlots).Wf :=
  ⟨le_rfl, Nat.zero_le _⟩

lemma CoasterState.Wf.execute {s s' : CoasterState} {callbacks : TaskCallbacks} {jobId : ℕ}
    {entered : Bool} (h : s.Wf) (he : coasterExecute s callbacks jobId entered = some s') :
    s'.Wf ∧ s'.used = s.used + 1 ∧ s'.total = s.total ∧
      tableCallbacks s'.activeTasks = if entered then callbacks ::ₘ tableCallbacks s.activeTasks
        else tableCallbacks s.activeTasks := by
  have hl := h.length_le
  simp only [coasterExecute] at he
  split at he
  · cases entered <;> cases he <;>
      refine ⟨⟨?_, ?_⟩, rfl, rfl, by simp [tableCallbacks]⟩ <;> simp <;> omega
  · cases he

lemma tableRemove_callbacks {jobId : ℕ} {table : List (ℕ × TaskCallbacks)}
    {r : TaskCallbacks × List (ℕ × TaskCallbacks)} (h : tableRemove jobId table = some r) :
    tableCallbacks table = r.1 ::ₘ tableCallbacks r.2 := by
  induction table generalizing r with
  | nil => cases h
  | cons entry entries ih =>
    simp only [tableRemove] at h
    split at h
    · cases h
      simp [tableCallbacks]
    · obtain ⟨r', hr, rfl⟩ := Option.map_eq_some_iff.mp h
      have hrest := ih hr
      simp only [tableCallbacks, List.map_cons, ← Multiset.cons_coe] at hrest ⊢
      rw [hrest, Multiset.cons_swap]

lemma completeJobs_callbacks {jobs : List CoasterJob} {table : List (ℕ × TaskCallbacks)}
    {r : List CompletedTask × List (ℕ × TaskCallbacks)} (h : completeJobs jobs table = some r) :
    tableCallbacks table = ↑(r.1.map (·.callbacks)) + tableCallbacks r.2 := by
  induction jobs generalizing table r with
  | nil =>
    cases h
    simp
  | cons job jobs ih =>
    simp only [completeJobs, Option.bind_eq_bind, Option.bind_eq_some_iff] at h
    obtain ⟨⟨callbacks, table'⟩, hremove, h⟩ := h
    split at h
    · obtain ⟨⟨tasks, table''⟩, hrest, he⟩ := Option.bind_eq_some_iff.mp h
      cases he
      rw [tableRemove_callbacks hremove, ih hrest]
      simp [← Multiset.cons_coe]
    · cases h

lemma checkJobs_callbacks {answers : List (List CoasterJob)} {left : ℕ}
    {table : List (ℕ × TaskCallbacks)} {r : List CompletedTask × List (ℕ × TaskCallbacks)}
    (h : checkJobs answers left table = some r) :
    tableCallbacks table = ↑(r.1.map (·.callbacks)) + tableCallbacks r.2 := by
  induction answers generalizing left table r with
  | nil =>
    cases left with
    | zero =>
      cases h
      simp
    | succ left => cases h
  | cons jobs answers ih =>
    cases left with
    | zero =>
      cases h
      simp
    | succ left =>
      simp only [checkJobs, Option.bind_eq_bind, Option.bind_eq_some_iff] at h
      obtain ⟨⟨tasks, table'⟩, hjobs, h⟩ := h
      split at h
      · cases h
        exact completeJobs_callbacks hjobs
      · obtain ⟨⟨tasks', table''⟩, hrest, he⟩ := Option.bind_eq_some_iff.mp h
        cases he
        rw [completeJobs_callbacks hjobs, ih hrest]
        simp only [List.map_append, ← Multiset.coe_add, add_assoc]

lemma CoasterState.Wf.checkCompleted {s s' : CoasterState} {size : ℕ}
    {answers : List (List CoasterJob)} {tasks : List CompletedTask} (h : s.Wf)
    (hc : coasterCheckCompleted s size answers = some (tasks, s')) :
    s'.Wf ∧ s'.used + tasks.length = s.used ∧ s'.total = s.total ∧
      tableCallbacks s.activeTasks =
        ↑(tasks.map (·.callbacks)) + tableCallbacks s'.activeTasks := by
  have hl := h.length_le
  have hu := h.used_le
  obtain ⟨⟨tasks', table⟩, hjobs, he⟩ := Option.bind_eq_some_iff.mp hc
  cases he
  have hcb := checkJobs_callbacks hjobs
  have hlen := congrArg Multiset.card hcb
  simp only [tableCallbacks, Multiset.card_add, Multiset.coe_card, List.length_map] at hlen
  refine ⟨⟨?_, ?_⟩, ?_, rfl, hcb⟩ <;> simp <;> omega

def coasterReports (s : CoasterState) (size : ℕ) (tasks : List CompletedTask)
    (s' : CoasterState) : Prop :=
  (∃ answers, coasterPoll s size answers = some (tasks, s')) ∨
  ∃ answers, coasterWait s size answers = some (tasks, s')

lemma CoasterState.Wf.reports {s s' : CoasterState} {size : ℕ} {tasks : List CompletedTask}
    (h : s.Wf) (hr : coasterReports s size tasks s') :
    s'.Wf ∧ s'.used + tasks.length = s.used ∧ s'.total = s.total ∧
      tableCallbacks s.activeTasks =
        ↑(tasks.map (·.callbacks)) + tableCallbacks s'.activeTasks := by
  rcases hr with ⟨answers, hp⟩ | ⟨answers, hw⟩
  · simp only [coasterPoll] at hp
    split at hp
    · exact h.checkCompleted hp
    · cases hp
      exact ⟨h, rfl, rfl, by simp⟩
  · simp only [coasterWait] at hw
    split at hw
    · cases hw
    · exact h.checkCompleted hw

def coasterExecutor : Executor { s : CoasterState // s.Wf } where
  slots s := ⟨s.1.used, s.1.total⟩
  active s := tableCallbacks s.1.activeTasks
  executes s cb launched s' := ∃ jobId, coasterExecute s.1 cb jobId launched = some s'.1
  aborts s cb := ∃ jobId entered, coasterExecute s.1 cb jobId entered = none
  reports s size tasks s' := coasterReports s.1 size tasks s'.1
  used_le s := Int.ofNat_le.mpr s.2.used_le
  free_of_aborts {s cb} h hfree := by
    obtain ⟨jobId, entered, ha⟩ := h
    have hlt : s.1.used < s.1.total := Int.ofNat_lt.mp hfree
    cases entered <;> simp [coasterExecute, hlt] at ha
  slots_of_executes {s cb launched s'} h := by
    obtain ⟨jobId, he⟩ := h
    obtain ⟨_, hu, ht, _⟩ := s.2.execute he
    simp [hu, ht]
  slots_of_reports {s size tasks s'} h := by
    obtain ⟨_, hu, ht, _⟩ := s.2.reports h
    simp [← hu, ht]
  active_of_executes {s cb launched s'} h := by
    obtain ⟨jobId, he⟩ := h
    exact (s.2.execute he).2.2.2
  active_of_reports {s size tasks s'} h := (s.2.reports h).2.2.2

end Turbine.Async
