import Mathlib
import Turbine.Async.Executors

/-! The requests a worker has outstanding never outnumber the free slots of its executor. -/

namespace Turbine.Async

open Turbine.Library.Programs

variable {S Buf : Type} (X : Executor S)

-- a task body or a callback launches at most one task; a poll or a wait reports tasks; nothing
-- else moves the executor once it is started
def slotReply (s : S) : (c : ExecCall Buf) → c.Ret → S → Prop
  | .slots, r, s' => (r.1 = .success → r.2 = X.slots s) ∧ s' = s
  | .start, _, _ => True
  | .evalTask _ _, _, s' | .evalCallback _, _, s' => s' = s ∨ ∃ cb launched, X.executes s cb launched s'
  | .poll size, r, s' | .wait size, r, s' => r.1 = .success → X.reports s size r.2 s'
  | _, _, s' => s' = s

def slotWorld : World S (Memory Buf × ExecCall Buf) fun mc => mc.2.Ret where
  reply s mc r s' := slotReply X s mc.2 r s'

def Bounded (m : Memory Buf) (s : S) : Prop :=
  m.nreqs + (X.slots s).used ≤ (X.slots s).total

def ExecCall.Launches : ExecCall Buf → Prop
  | .evalTask _ _ | .evalCallback _ => True
  | _ => False

-- the calls that may move the executor
def ExecCall.Moves : ExecCall Buf → Prop
  | .start | .poll _ | .wait _ => True
  | c => c.Launches

-- the worker's memory is set up after the service is
def slotsKept (s : S) (mc : Memory Buf × ExecCall Buf) : Prop :=
  mc.2 = .serviceInit ∨
    Bounded X mc.1 s ∧ (mc.2.Launches → (X.slots s).used < (X.slots s).total)

variable {X}

lemma slotsKept_of_bounded {m : Memory Buf} {s : S} {c : ExecCall Buf} (h : Bounded X m s)
    (hc : ¬ c.Launches) : slotsKept X s (m, c) :=
  Or.inr ⟨h, fun hl => absurd hl hc⟩

lemma ExecCall.moves_of_launches (c : ExecCall Buf) (h : c.Launches) : c.Moves := by
  cases c <;> first | exact trivial | exact h

lemma eq_of_slotReply {c : ExecCall Buf} {s s' : S} {r : c.Ret} (hc : ¬ c.Moves)
    (h : slotReply X s c r s') : s' = s := by
  cases c <;> first | exact absurd trivial hc | exact h | exact h.2

-- a launch takes one slot
lemma used_le_of_launch {s s' : S} (h : s' = s ∨ ∃ cb launched, X.executes s cb launched s') :
    (X.slots s').used ≤ (X.slots s).used + 1 ∧ (X.slots s').total = (X.slots s).total := by
  rcases h with rfl | ⟨cb, launched, he⟩
  · exact ⟨by omega, rfl⟩
  · simp [X.slots_of_executes he]

lemma issue_bounded {extraReqs : ℤ} {poll : Bool} {m : Memory Buf} {s : S}
    (h : Bounded X m s)
    (hextra : extraReqs + m.nreqs + (X.slots s).used ≤ (X.slots s).total) :
    (issue extraReqs poll).Meets (slotWorld X) (slotsKept X)
      (fun _ m' s' => Bounded X m' s') m s := by
  simp only [issue]
  split
  · simp only [Code.meets_bind, Code.meets_get, Code.meets_ask]
    refine ⟨slotsKept_of_bounded h id, ?_⟩
    rintro ⟨ac, reqs⟩ s' rfl
    split
    · exact h
    · simp only [Code.meets_bind, Code.meets_modify, Code.meets_pure, Bounded]
      push_cast
      omega
  · exact h

variable (X) in
/-- Code that leaves the worker's memory and the executor as they are. -/
def Keeps {α : Type} (x : Worker Buf α) : Prop :=
  ∀ m s, Bounded X m s →
    x.Meets (slotWorld X) (slotsKept X) (fun _ m' s' => m' = m ∧ s' = s) m s

lemma keeps_pure {α : Type} (a : α) : Keeps X (pure a : Worker Buf α) :=
  fun _ _ _ => ⟨rfl, rfl⟩

lemma Keeps.bind {α β : Type} {x : Worker Buf α} {f : α → Worker Buf β} (hx : Keeps X x)
    (hf : ∀ a, Keeps X (f a)) : Keeps X (x >>= f) := by
  intro m s h
  rw [Code.meets_bind]
  apply (hx m s h).mono
  rintro a m' s' ⟨rfl, rfl⟩
  exact hf a m' s' h

lemma keeps_ask (c : ExecCall Buf) (hc : ¬ c.Moves) : Keeps X (ask c) :=
  fun _ _ h => ⟨slotsKept_of_bounded h (hc ∘ c.moves_of_launches),
    fun _ _ hr => ⟨rfl, eq_of_slotReply hc hr⟩⟩

lemma checkRequest_keeps (poll : Bool) :
    Keeps X (checkRequest poll : Worker Buf (AdlbCode × ℤ)) := by
  intro m s h
  simp only [checkRequest, Code.meets_bind, Code.meets_get]
  cases poll with
  | true => exact keeps_ask (.agetTest _) id m s h
  | false =>
    apply Keeps.bind (keeps_ask (.agetWait _) id)
    · exact fun _ => keeps_pure _
    · exact h

-- a task that fails may have launched before it did, so only the other ends keep the bound
lemma runRequest_bounded {ac : AdlbCode} {workLen : ℤ} {m : Memory Buf} {s : S}
    (hn : 0 < m.nreqs) (h : Bounded X m s) :
    (runRequest workLen ac).Meets (slotWorld X) (slotsKept X)
      (fun r m' s' => (r ≠ some .task → Bounded X m' s') ∧
        (r = none → m'.nreqs + 1 = m.nreqs)) m s := by
  cases ac with
  | error => exact ⟨fun _ => h, by simp⟩
  | shutdown => exact ⟨fun _ => h, by simp⟩
  | nothing => exact ⟨fun _ => h, by simp⟩
  | success =>
    have hfree : (X.slots s).used < (X.slots s).total := by
      simp only [Bounded] at h
      omega
    simp only [runRequest, Code.meets_bind, Code.meets_get, Code.meets_ask]
    refine ⟨Or.inr ⟨h, fun _ => hfree⟩, ?_⟩
    intro rc s' hlaunch
    obtain ⟨hu, ht⟩ := used_le_of_launch hlaunch
    split
    · simp
    · simp only [Code.meets_bind, Code.meets_modify, Code.meets_pure, Memory.advanceTail]
      simp only [Bounded] at h ⊢
      constructor <;> intro _ <;> omega

lemma drain_bounded {n : ℕ} {poll gotTasks : Bool} {m : Memory Buf} {s : S}
    (hn : m.nreqs = n) (h : Bounded X m s) :
    (drain n poll gotTasks).Meets (slotWorld X) (slotsKept X)
      (fun r m' s' => r.1 ≠ .task → Bounded X m' s') m s := by
  induction n generalizing poll gotTasks m s with
  | zero => exact fun _ => h
  | succ n ih =>
    simp only [drain, Code.meets_bind]
    apply (checkRequest_keeps poll m s h).mono
    rintro ⟨ac, workLen⟩ m' s' ⟨rfl, rfl⟩
    apply (runRequest_bounded (by omega) h).mono
    rintro (_ | ec) m' s' ⟨hb, hnreqs⟩
    · exact ih (by have := hnreqs rfl; omega) (hb (by simp))
    · simpa using hb

lemma getTasks_bounded {poll gotTasks : Bool} {m : Memory Buf} {s : S} {maxTasks : ℤ}
    (hmax : maxTasks ≤ (X.slots s).total - (X.slots s).used) (h : Bounded X m s) :
    (getTasks poll maxTasks gotTasks).Meets (slotWorld X) (slotsKept X)
      (fun r m' s' => r.1 = .success ∨ r.1 = .shutdown → Bounded X m' s') m s := by
  simp only [getTasks, Code.meets_bind, Code.meets_get]
  apply (issue_bounded h (by omega)).mono
  intro issued m' s' hb
  cases issued with
  | false => simp
  | true =>
    simp only [Bool.not_true, Bool.false_eq_true, if_false, Code.meets_bind, Code.meets_get]
    apply (drain_bounded rfl hb).mono
    intro r m'' s'' hr hok
    apply hr
    rcases hok with hok | hok <;> simp [hok]

/-! ### Completed tasks -/

lemma setVars_keeps (vars : List CallbackVar) : Keeps X (setVars vars : Worker Buf Bool) := by
  induction vars with
  | nil => exact keeps_pure _
  | cons var vars ih =>
    apply Keeps.bind (keeps_ask (.setVar var.name var.val) id)
    intro set
    cases set with
    | false => exact keeps_pure _
    | true => exact ih

lemma unsetVars_keeps (evaluated : Bool) (vars : List CallbackVar) :
    Keeps X (unsetVars evaluated vars : Worker Buf Bool) := by
  induction vars with
  | nil => exact keeps_pure _
  | cons var vars ih =>
    have hunset : Keeps X (unsetVar evaluated var : Worker Buf TclCode) := by
      cases evaluated with
      | false => exact keeps_pure _
      | true => exact keeps_ask (.unsetVar var.name) id
    have hfree : Keeps X (freeVarName var : Worker Buf Unit) := by
      simp only [freeVarName]
      split
      · exact keeps_ask (.freeName var.name) id
      · exact keeps_pure _
    apply hunset.bind
    intro rc
    split
    · exact keeps_pure _
    · exact hfree.bind fun _ => ih

lemma cleanup_keeps (task : CompletedTask) (evaluated : Bool) (tc : TurbineCode) :
    Keeps X (cleanup task evaluated tc : Worker Buf TurbineCode) := by
  have hfree : Keeps X (freeVarsOf task : Worker Buf Unit) := by
    simp only [freeVarsOf]
    split
    · exact keeps_ask .freeVars id
    · exact keeps_pure _
  apply (unsetVars_keeps evaluated _).bind
  intro unset
  cases unset with
  | false => exact keeps_pure _
  | true => exact hfree.bind fun _ => keeps_pure _

lemma decrRefCount_keeps (o : Option Obj) : Keeps X (decrRefCount o : Worker Buf Unit) := by
  cases o with
  | none => exact keeps_pure _
  | some o => exact keeps_ask (.decrRef o) id

-- room for the launches of the callbacks that are still to run
def Room (X : Executor S) (m : Memory Buf) (s : S) (callbacks : ℕ) : Prop :=
  m.nreqs + (X.slots s).used + callbacks ≤ (X.slots s).total

lemma Room.bounded {m : Memory Buf} {s : S} {callbacks : ℕ} (h : Room X m s callbacks) :
    Bounded X m s := by
  simp only [Room, Bounded] at *
  omega

lemma runCallback_room {task : CompletedTask} {cb : Option Obj} {m : Memory Buf} {s : S} {n : ℕ}
    (h : Room X m s (n + 1)) :
    (runCallback task cb).Meets (slotWorld X) (slotsKept X) (fun _ m' s' => Room X m' s' n) m s := by
  have hroom : ∀ {m' s'}, m' = m ∧ s' = s → Room X m' s' n := by
    rintro m' s' ⟨rfl, rfl⟩
    simp only [Room] at *
    push_cast at h
    omega
  cases cb with
  | none => exact (cleanup_keeps task false .success m s h.bounded).mono fun _ _ _ => hroom
  | some cb =>
    simp only [runCallback, Code.meets_bind]
    apply (setVars_keeps _ m s h.bounded).mono
    rintro set m' s' ⟨rfl, rfl⟩
    cases set with
    | false => exact hroom ⟨rfl, rfl⟩
    | true =>
      simp only [Bool.not_true, Bool.false_eq_true, if_false, Code.meets_bind, Code.meets_ask]
      have hfree : (X.slots s').used < (X.slots s').total := by
        simp only [Room] at h
        push_cast at h
        omega
      refine ⟨Or.inr ⟨h.bounded, fun _ => hfree⟩, ?_⟩
      intro rc s₁ hlaunch
      have hafter : Room X m' s₁ n := by
        obtain ⟨hu, ht⟩ := used_le_of_launch hlaunch
        simp only [Room] at *
        push_cast at h
        omega
      split <;>
      · apply (cleanup_keeps task true _ m' s₁ hafter.bounded).mono
        rintro _ m₂ s₂ ⟨rfl, rfl⟩
        exact hafter

lemma runCallbacks_bounded {tasks : List CompletedTask} {m : Memory Buf} {s : S}
    (h : Room X m s tasks.length) :
    (runCallbacks tasks).Meets (slotWorld X) (slotsKept X) (fun _ m' s' => Bounded X m' s') m s := by
  induction tasks generalizing m s with
  | nil => exact h.bounded
  | cons task tasks ih =>
    simp only [runCallbacks, Code.meets_bind]
    apply (runCallback_room h).mono
    intro tc m' s' hroom
    split
    · exact hroom.bounded
    · simp only [Code.meets_bind]
      apply (decrRefCount_keeps _ m' s' hroom.bounded).mono
      rintro _ m₁ s₁ ⟨rfl, rfl⟩
      apply (decrRefCount_keeps _ m₁ s₁ hroom.bounded).mono
      rintro _ m₂ s₂ ⟨rfl, rfl⟩
      exact ih hroom

lemma checkTasks_bounded {poll : Bool} {m : Memory Buf} {s : S} (h : Bounded X m s) :
    (checkTasks poll).Meets (slotWorld X) (slotsKept X)
      (fun ec m' s' => ec = .success → Bounded X m' s') m s := by
  have hreport : ∀ {size ec tasks s'}, (ec = .success → X.reports s size tasks s') →
      (if ec ≠ .success then pure ec else runCallbacks tasks : Worker Buf ExecCode).Meets
        (slotWorld X) (slotsKept X) (fun ec m' s' => ec = .success → Bounded X m' s') m s' := by
    intro size ec tasks s' hr
    split
    · rename_i he
      exact fun hs => absurd hs he
    · rename_i he
      have hslots := X.slots_of_reports (hr (not_not.mp he))
      have hroom : Room X m s' tasks.length := by
        simp only [Room, Bounded, hslots] at *
        omega
      exact (runCallbacks_bounded hroom).mono fun _ _ _ hb _ => hb
  simp only [checkTasks, Code.meets_bind, completedTasks]
  cases poll with
  | true => exact ⟨slotsKept_of_bounded h id, fun r s' hr => hreport hr⟩
  | false => exact ⟨slotsKept_of_bounded h id, fun r s' hr => hreport hr⟩

/-! ### The worker loop -/

lemma getTasksIfFree_bounded {slots : SlotState} {m : Memory Buf} {s : S}
    (hslots : slots = X.slots s) (h : Bounded X m s) :
    (getTasksIfFree slots).Meets (slotWorld X) (slotsKept X)
      (fun r m' s' => r.1 = .success ∨ r.1 = .shutdown → Bounded X m' s') m s := by
  subst hslots
  simp only [getTasksIfFree]
  split
  · exact getTasks_bounded le_rfl h
  · exact fun _ => h

lemma checkTasksIfUsed_bounded {slots : SlotState} {m : Memory Buf} {s : S}
    (h : Bounded X m s) :
    (checkTasksIfUsed slots).Meets (slotWorld X) (slotsKept X)
      (fun ec m' s' => ec = .success → Bounded X m' s') m s := by
  simp only [checkTasksIfUsed]
  split
  · exact checkTasks_bounded h
  · exact fun _ => h

lemma yieldUnless_keeps (somethingHappened : Bool) :
    Keeps X (yieldUnless somethingHappened : Worker Buf Unit) := by
  cases somethingHappened with
  | false => exact keeps_ask .schedYield id
  | true => exact keeps_pure _

lemma workerTurn_bounded {m : Memory Buf} {s : S} (h : Bounded X m s) :
    (workerTurn ()).Meets (slotWorld X) (slotsKept X)
      (fun r m' s' => r = .inl () ∨ r = .inr none → Bounded X m' s') m s := by
  simp only [workerTurn, Code.meets_bind, Code.meets_ask]
  refine ⟨slotsKept_of_bounded h id, ?_⟩
  rintro ⟨ec, slots⟩ s ⟨hslots, rfl⟩
  split
  · simp
  rename_i hec
  simp only [Code.meets_bind]
  apply (getTasksIfFree_bounded (hslots (not_not.mp hec)) h).mono
  rintro ⟨ec, somethingHappened⟩ m s hgot
  split
  · rename_i hshut
    exact fun _ => hgot (Or.inr hshut)
  split
  · simp
  rename_i hec
  have h := hgot (Or.inl (not_not.mp hec))
  simp only [Code.meets_bind, Code.meets_ask]
  refine ⟨slotsKept_of_bounded h id, ?_⟩
  rintro ⟨ec, slots⟩ s ⟨_, rfl⟩
  split
  · simp
  simp only [Code.meets_bind]
  apply (checkTasksIfUsed_bounded h).mono
  intro ec m s hchecked
  split
  · simp
  rename_i hec
  have h := hchecked (not_not.mp hec)
  simp only [Code.meets_bind]
  apply (yieldUnless_keeps somethingHappened m s h).mono
  rintro _ m s ⟨rfl, rfl⟩
  exact fun _ => h

lemma startExecutor_bounded {mustStart : Bool} {m : Memory Buf} {s : S} (hm : m.nreqs = 0) :
    (startExecutor mustStart).Meets (slotWorld X) (slotsKept X)
      (fun _ m' s' => Bounded X m' s') m s := by
  have hempty : ∀ (m : Memory Buf) s, m.nreqs = 0 → Bounded X m s := by
    intro m s hm
    have := X.used_le s
    simp only [Bounded, hm]
    omega
  simp only [startExecutor]
  split
  · simp only [Code.meets_bind, Code.meets_ask]
    refine ⟨slotsKept_of_bounded (hempty m s hm) id, ?_⟩
    intro ec s' _
    split
    · exact hempty m s' hm
    · exact hempty _ s' hm
  · exact hempty m s hm

lemma stopExecutor_bounded {mustStart : Bool} {m : Memory Buf} {s : S} (h : Bounded X m s) :
    (stopExecutor mustStart).Meets (slotWorld X) (slotsKept X)
      (fun _ m' s' => Bounded X m' s') m s := by
  simp only [stopExecutor]
  split
  · simp only [Code.meets_bind, Code.meets_ask]
    refine ⟨slotsKept_of_bounded h id, ?_⟩
    rintro ec s' rfl
    exact h
  · exact h

lemma loop_bounded (n : ℕ) {m : Memory Buf} {s : S} (h : Bounded X m s) :
    (Code.loop workerTurn n ()).Meets (slotWorld X) (slotsKept X)
      (fun r m' s' => ∀ tc, r = some tc → tc = none → Bounded X m' s') m s := by
  refine Code.meets_loop (fun _ m s => Bounded X m s) (fun _ m s hb => ?_) n h
  apply (workerTurn_bounded hb).mono
  rintro (_ | tc) m' s' hr
  · exact hr (Or.inl rfl)
  · exact fun htc => hr (Or.inr (htc ▸ rfl))

/-- Whatever call the worker has come to, the bound holds and a launch finds a free slot. -/
lemma asyncWorkerLoop_slotsKept (payloadBuffers : ℕ → Buf) (nbuffers n : ℕ) (m : Memory Buf)
    (s : S) :
    (asyncWorkerLoop payloadBuffers nbuffers n).Meets (slotWorld X) (slotsKept X)
      (fun _ _ _ => True) m s := by
  simp only [asyncWorkerLoop, turbineServiceInit]
  split
  · trivial
  simp only [Code.meets_bind, Code.meets_ask, Code.meets_pure]
  refine ⟨Or.inl rfl, ?_⟩
  rintro launched s rfl
  simp only [ne_eq, not_true, if_false, Code.meets_bind, Code.meets_modify, Code.meets_get]
  apply (startExecutor_bounded rfl).mono
  intro running m s h
  split
  · trivial
  simp only [Code.meets_bind]
  apply (loop_bounded n h).mono
  rintro (_ | _ | tc) m s hb
  · trivial
  · simp only [Code.meets_bind, Code.meets_ask]
    apply (stopExecutor_bounded (hb none rfl rfl)).mono
    intro _ m s h
    exact ⟨slotsKept_of_bounded h id, fun _ _ _ => trivial⟩
  · trivial

variable (X) in
/-- In every run of the worker, wherever it stands in its loop, the outstanding requests and the
used slots together do not exceed the slots, and no task it launches fails an assertion of the
executor. -/
theorem requests_and_used_le_total (payloadBuffers : ℕ → Buf) (nbuffers n : ℕ) (m₀ m : Memory Buf)
    (s₀ s : S) (c : ExecCall Buf) (k) (hloop : c ≠ .serviceInit)
    (hrun : Prog.Run (slotWorld X) (asyncWorkerLoop payloadBuffers nbuffers n m₀, s₀)
      (.call (m, c) k, s)) :
    m.nreqs + (X.slots s).used ≤ (X.slots s).total ∧
      (c.Launches → ∀ callbacks, ¬ X.aborts s callbacks) := by
  rcases (asyncWorkerLoop_slotsKept payloadBuffers nbuffers n m₀ s₀).asked hrun with h | ⟨hb, hl⟩
  · exact absurd h hloop
  · exact ⟨hb, fun hc callbacks ha => X.free_of_aborts ha (hl hc)⟩

-- the no-op executor is already started; one request is answered with work, which is about to run
theorem requests_and_used_le_total_noop :
    let m : Memory ℕ := ⟨id, Function.update (fun _ => none) 0 (some 0), 1, 1, 0, 0, true⟩
    let s : { s : NoopState // s.Wf } := ⟨noopStart, noopStart_wf⟩
    m.nreqs + (noopExecutor.slots s).used ≤ (noopExecutor.slots s).total ∧
      ((ExecCall.evalTask 0 4 : ExecCall ℕ).Launches →
        ∀ callbacks, ¬ noopExecutor.aborts s callbacks) := by
  apply requests_and_used_le_total noopExecutor id 1 1 ⟨id, fun _ => none, 0, 0, 0, 0, true⟩ _
    ⟨noopStart, noopStart_wf⟩ _ _ _ (by simp)
  apply Prog.Run.answer (r := false) rfl
  apply Prog.Run.answer (r := (ExecCode.success, ⟨0, 4⟩)) (And.intro (fun _ => rfl) rfl)
  apply Prog.Run.answer (r := (AdlbCode.success, [0])) rfl
  apply Prog.Run.answer (r := (WaitCode.success, 5)) rfl
  exact .refl

end Turbine.Async
