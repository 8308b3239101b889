import Turbine.Async.Ring
import Turbine.Library.Traces

/-! What the worker does in each turn of its loop: when it asks for work, when it looks for
completed tasks, and when it yields. -/

namespace Turbine.Async

open Turbine.Library.Programs

variable {Buf : Type}

abbrev Trace (Buf : Type) := List (Event (ExecCall.Ret : ExecCall Buf → Type))

/-- The slots an executor may tell of: at least one, or `-1` for an unlimited number. -/
def LegalAnswer : (c : ExecCall Buf) → c.Ret → Prop
  | .slots, r => r.1 = .success → 0 ≤ r.2.used ∧ (1 ≤ r.2.total ∨ r.2.total = -1)
  | _, _ => True

def ExecCall.Requests : ExecCall Buf → Prop
  | .amget .. | .agetTest _ | .agetWait _ => True
  | _ => False

def ExecCall.Checks : ExecCall Buf → Prop
  | .poll _ | .wait _ => True
  | _ => False

def ObtainsTask : Event (ExecCall.Ret : ExecCall Buf → Type) → Prop
  | ⟨.agetTest _, r⟩ => r.1 = .success
  | ⟨.agetWait _, r⟩ => r.1 = .success
  | _ => False

def CompletesTask : Event (ExecCall.Ret : ExecCall Buf → Type) → Prop
  | ⟨.poll _, r⟩ => r.2 ≠ []
  | ⟨.wait _, r⟩ => r.2 ≠ []
  | _ => False

def slotsRead : Event (ExecCall.Ret : ExecCall Buf → Type) → Option SlotState
  | ⟨.slots, r⟩ => some r.2
  | _ => none

def Requested (t : Trace Buf) : Prop := ∃ ev ∈ t, ev.1.Requests
def Checked (t : Trace Buf) : Prop := ∃ ev ∈ t, ev.1.Checks
def Obtained (t : Trace Buf) : Prop := ∃ ev ∈ t, ObtainsTask ev
def Completed (t : Trace Buf) : Prop := ∃ ev ∈ t, CompletesTask ev
def Yielded (t : Trace Buf) : Prop := ∃ ev ∈ t, ev.1 = .schedYield

def FreeSlot (slots : SlotState) : Prop := slots.total = -1 ∨ slots.used < slots.total

/-- What is expected of a turn that reads these slots before and after it has asked for work. -/
structure PollsAndYields (before after : SlotState) (t : Trace Buf) : Prop where
  requests : FreeSlot before → Requested t
  checks : 0 < after.used → Checked t
  either : Requested t ∨ Checked t
  yields : Yielded t ↔ ¬ Obtained t ∧ ¬ Completed t

/-- The slots are limited, not all of them are used by tasks that are gone by the second reading,
and no task completes while ADLB has none to give. -/
structure Served (before after : SlotState) (t : Trace Buf) : Prop where
  limited : before.total ≠ -1
  uses : before.used < before.total ∨ 0 < after.used
  obtains : Completed t → Obtained t

/-- A whole turn of the loop. -/
def WholeTurn (t : Trace Buf) : Prop :=
  ∃ m m' : Memory Buf, Prog.Run (recorder LegalAnswer) (workerTurn () m, [])
    (.done (.inl (), m'), t)

def ReadsSlots (before after : SlotState) (t : Trace Buf) : Prop :=
  t.filterMap slotsRead = [before, after]

/-! ### What a piece of the worker asks -/

def Only (K : ExecCall Buf → Prop) (t : Trace Buf) : Prop := ∀ ev ∈ t, K ev.1

/-- The calls of `get_tasks`. -/
def ExecCall.Gets : ExecCall Buf → Prop
  | .amget .. | .agetTest _ | .agetWait _ | .evalTask .. => True
  | _ => False

/-- The calls of `check_tasks`. -/
def ExecCall.Reports : ExecCall Buf → Prop
  | .poll _ | .wait _ | .setVar .. | .evalCallback _ | .unsetVar _ | .freeName _ | .freeVars
  | .decrRef _ => True
  | _ => False

lemma Only.append {K : ExecCall Buf → Prop} {t t' : Trace Buf} (h : Only K t) (h' : Only K t') :
    Only K (t ++ t') :=
  List.forall_mem_append.mpr ⟨h, h'⟩

lemma Only.gets {t : Trace Buf} (h : Only ExecCall.Gets t) :
    t.filterMap slotsRead = [] ∧ ¬ Checked t ∧ ¬ Completed t ∧ ¬ Yielded t := by
  refine ⟨List.filterMap_eq_nil_iff.mpr ?_, ?_, ?_, ?_⟩
  · rintro ⟨_ | _, _⟩ hev <;> first | rfl | exact False.elim (h _ hev)
  all_goals
    rintro ⟨⟨_ | _, _⟩, hev, hc⟩ <;>
      first | exact False.elim (h _ hev) | exact False.elim hc | cases hc

lemma Only.reports {t : Trace Buf} (h : Only ExecCall.Reports t) :
    t.filterMap slotsRead = [] ∧ ¬ Requested t ∧ ¬ Obtained t ∧ ¬ Yielded t := by
  refine ⟨List.filterMap_eq_nil_iff.mpr ?_, ?_, ?_, ?_⟩
  · rintro ⟨_ | _, _⟩ hev <;> first | rfl | exact False.elim (h _ hev)
  all_goals
    rintro ⟨⟨_ | _, _⟩, hev, hc⟩ <;>
      first | exact False.elim (h _ hev) | exact False.elim hc | cases hc

section

variable (ev : Event (ExecCall.Ret : ExecCall Buf → Type)) (t t' : Trace Buf)

@[simp] lemma requested_append : Requested (t ++ t') ↔ Requested t ∨ Requested t' := by
  simp [Requested, or_and_right, exists_or]

@[simp] lemma checked_append : Checked (t ++ t') ↔ Checked t ∨ Checked t' := by
  simp [Checked, or_and_right, exists_or]

@[simp] lemma obtained_append : Obtained (t ++ t') ↔ Obtained t ∨ Obtained t' := by
  simp [Obtained, or_and_right, exists_or]

@[simp] lemma completed_append : Completed (t ++ t') ↔ Completed t ∨ Completed t' := by
  simp [Completed, or_and_right, exists_or]

@[simp] lemma yielded_append : Yielded (t ++ t') ↔ Yielded t ∨ Yielded t' := by
  simp [Yielded, or_and_right, exists_or]

@[simp] lemma requested_cons : Requested (ev :: t) ↔ ev.1.Requests ∨ Requested t := by
  simp [Requested]

@[simp] lemma checked_cons : Checked (ev :: t) ↔ ev.1.Checks ∨ Checked t := by
  simp [Checked]

@[simp] lemma obtained_cons : Obtained (ev :: t) ↔ ObtainsTask ev ∨ Obtained t := by
  simp [Obtained]

@[simp] lemma completed_cons : Completed (ev :: t) ↔ CompletesTask ev ∨ Completed t := by
  simp [Completed]

@[simp] lemma yielded_cons : Yielded (ev :: t) ↔ ev.1 = .schedYield ∨ Yielded t := by
  simp [Yielded]

@[simp] lemma not_requested_nil : ¬ Requested ([] : Trace Buf) := by
  simp [Requested]

@[simp] lemma not_checked_nil : ¬ Checked ([] : Trace Buf) := by
  simp [Checked]

@[simp] lemma not_obtained_nil : ¬ Obtained ([] : Trace Buf) := by
  simp [Obtained]

@[simp] lemma not_completed_nil : ¬ Completed ([] : Trace Buf) := by
  simp [Completed]

@[simp] lemma not_yielded_nil : ¬ Yielded ([] : Trace Buf) := by
  simp [Yielded]

end

/-- Code that makes only such calls and leaves the worker's memory as it is. -/
def Asks {α : Type} (K : ExecCall Buf → Prop) (x : Worker Buf α) : Prop :=
  ∀ m, Code.Traces LegalAnswer x m fun _ m' t => m' = m ∧ Only K t

section Asks

variable {K : ExecCall Buf → Prop}

lemma asks_pure {α : Type} (a : α) : Asks K (pure a : Worker Buf α) :=
  fun _ => Code.traces_pure ⟨rfl, by simp [Only]⟩

lemma asks_ask (c : ExecCall Buf) (hc : K c) : Asks K (ask c) :=
  fun _ => Code.traces_ask fun _ _ => ⟨rfl, by simpa [Only] using hc⟩

lemma Asks.bind {α β : Type} {x : Worker Buf α} {f : α → Worker Buf β} (hx : Asks K x)
    (hf : ∀ a, Asks K (f a)) : Asks K (x >>= f) := by
  intro m
  apply (hx m).bind
  rintro a m' t ⟨rfl, ht⟩
  apply (hf a m').mono
  rintro b m'' t' ⟨rfl, ht'⟩
  exact ⟨rfl, ht.append ht'⟩

end Asks

lemma setVars_asks (vars : List CallbackVar) :
    Asks ExecCall.Reports (setVars vars : Worker Buf Bool) := by
  induction vars with
  | nil => exact asks_pure _
  | cons var vars ih =>
    apply (asks_ask (.setVar var.name var.val) trivial).bind
    intro set
    cases set with
    | false => exact asks_pure _
    | true => exact ih

lemma unsetVars_asks (evaluated : Bool) (vars : List CallbackVar) :
    Asks ExecCall.Reports (unsetVars evaluated vars : Worker Buf Bool) := by
  induction vars with
  | nil => exact asks_pure _
  | cons var vars ih =>
    have hunset : Asks ExecCall.Reports (unsetVar evaluated var : Worker Buf TclCode) := by
      cases evaluated with
      | false => exact asks_pure _
      | true => exact asks_ask (.unsetVar var.name) trivial
    have hfree : Asks ExecCall.Reports (freeVarName var : Worker Buf Unit) := by
      unfold freeVarName
      split
      · exact asks_ask (.freeName var.name) trivial
      · exact asks_pure _
    apply hunset.bind
    intro rc
    split
    · exact asks_pure _
    · exact hfree.bind fun _ => ih

lemma cleanup_asks (task : CompletedTask) (evaluated : Bool) (tc : TurbineCode) :
    Asks ExecCall.Reports (cleanup task evaluated tc : Worker Buf TurbineCode) := by
  have hfree : Asks ExecCall.Reports (freeVarsOf task : Worker Buf Unit) := by
    unfold freeVarsOf
    split
    · exact asks_ask .freeVars trivial
    · exact asks_pure _
  apply (unsetVars_asks evaluated _).bind
  intro unset
  cases unset with
  | false => exact asks_pure _
  | true => exact hfree.bind fun _ => asks_pure _

lemma runCallback_asks (task : CompletedTask) (cb : Option Obj) :
    Asks ExecCall.Reports (runCallback task cb : Worker Buf TurbineCode) := by
  cases cb with
  | none => exact cleanup_asks task false .success
  | some cb =>
    apply (setVars_asks _).bind
    intro set
    cases set with
    | false => exact asks_pure _
    | true =>
      apply (asks_ask (.evalCallback cb) trivial).bind
      intro rc
      split <;> exact cleanup_asks task true _

lemma decrRefCount_asks (o : Option Obj) :
    Asks ExecCall.Reports (decrRefCount o : Worker Buf Unit) := by
  cases o with
  | none => exact asks_pure _
  | some o => exact asks_ask (.decrRef o) trivial

lemma runCallbacks_asks (tasks : List CompletedTask) :
    Asks ExecCall.Reports (runCallbacks tasks : Worker Buf ExecCode) := by
  induction tasks with
  | nil => exact asks_pure _
  | cons task tasks ih =>
    apply (runCallback_asks task task.cb).bind
    intro tc
    split
    · exact asks_pure _
    · exact (decrRefCount_asks _).bind fun _ => (decrRefCount_asks _).bind fun _ => ih

lemma checkTasks_asks (poll : Bool) :
    Asks ExecCall.Reports (checkTasks poll : Worker Buf ExecCode) := by
  have hcompleted : Asks ExecCall.Reports
      (completedTasks poll : Worker Buf (ExecCode × List CompletedTask)) := by
    cases poll with
    | true => exact asks_ask (.poll completedBufferSize) trivial
    | false => exact asks_ask (.wait completedBufferSize) trivial
  apply hcompleted.bind
  rintro ⟨ec, tasks⟩
  dsimp only
  split
  · exact asks_pure _
  · exact runCallbacks_asks tasks

/-! ### Checking for completed tasks -/

lemma completedTasks_checks (poll : Bool) (m : Memory Buf) :
    Code.Traces LegalAnswer (completedTasks poll) m fun _ _ t => Checked t := by
  cases poll with
  | true => exact Code.traces_ask fun r _ => ⟨_, .head _, trivial⟩
  | false => exact Code.traces_ask fun r _ => ⟨_, .head _, trivial⟩

lemma checkTasks_checks (poll : Bool) (m : Memory Buf) :
    Code.Traces LegalAnswer (checkTasks poll) m fun _ _ t => Checked t := by
  apply (completedTasks_checks poll m).bind
  rintro ⟨ec, tasks⟩ m' t ht
  dsimp only
  split
  · exact Code.traces_pure (by simpa using ht)
  · exact (runCallbacks_asks tasks m').mono fun _ _ t' _ => (checked_append t t').mpr (.inl ht)

lemma checkTasksIfUsed_checks (slots : SlotState) (m : Memory Buf) :
    Code.Traces LegalAnswer (checkTasksIfUsed slots) m fun _ m' t =>
      m' = m ∧ Only ExecCall.Reports t ∧ (Checked t ↔ 0 < slots.used) := by
  unfold checkTasksIfUsed
  split
  · rename_i hused
    intro tr
    apply ((checkTasks_asks _ m tr).and (checkTasks_checks _ m tr)).mono
    rintro ⟨ec, m'⟩ _ ⟨⟨t, rfl, hm, honly⟩, t', ht, hchecked⟩
    obtain rfl := List.append_cancel_left ht
    exact ⟨t, rfl, hm, honly, iff_of_true hchecked hused⟩
  · rename_i hused
    exact Code.traces_pure ⟨rfl, by simp [Only], iff_of_false (by simp [Checked]) hused⟩

/-! ### Getting tasks -/

lemma issue_requests (extraReqs : ℤ) (poll : Bool) (m : Memory Buf) :
    Code.Traces LegalAnswer (issue extraReqs poll) m fun issued m' t => issued = true →
      m'.maxReqs = m.maxReqs ∧ Only ExecCall.Gets t ∧ ¬ Obtained t ∧
        (0 < extraReqs → Requested t) ∧ (m'.nreqs : ℤ) = m.nreqs + max extraReqs 0 := by
  unfold issue
  split
  · rename_i hextra
    apply Code.traces_get_bind
    apply Code.traces_ask_bind
    rintro ⟨ac, reqs⟩ -
    dsimp only
    split
    · exact Code.traces_pure fun h => by cases h
    · apply Code.traces_modify_bind
      refine Code.traces_pure fun _ => ⟨(storeRequests_fields reqs m).2.1, ?_, ?_, ?_, ?_⟩
      · simp [Only, ExecCall.Gets]
      · simp [Obtained, ObtainsTask]
      · exact fun _ => ⟨_, .head _, trivial⟩
      · push_cast
        omega
  · rename_i hextra
    refine Code.traces_pure fun _ => ⟨rfl, by simp [Only], by simp [Obtained], ?_, ?_⟩
    · exact fun h => absurd h hextra
    · omega

lemma checkRequest_requests (poll : Bool) (m : Memory Buf) :
    Code.Traces LegalAnswer (checkRequest poll) m fun r m' t =>
      m' = m ∧ Only ExecCall.Gets t ∧ Requested t ∧ (Obtained t ↔ r.1 = .success) := by
  unfold checkRequest
  apply Code.traces_get_bind
  dsimp only
  cases poll with
  | true =>
    apply Code.traces_ask
    intro r _
    exact ⟨rfl, by simp [Only, ExecCall.Gets], ⟨_, .head _, trivial⟩,
      by simp [Obtained, ObtainsTask]⟩
  | false =>
    apply Code.traces_ask_bind
    rintro ⟨ac, workLen⟩ -
    refine Code.traces_pure ⟨rfl, by simp [Only, ExecCall.Gets], ⟨_, .head _, trivial⟩, ?_⟩
    cases ac <;> simp [Obtained, ObtainsTask, WaitCode.toAdlb]

/-- The answer that lets the loop go on is that of a task that ran. -/
lemma runRequest_gets (workLen : ℤ) (ac : AdlbCode) (m : Memory Buf) :
    Code.Traces LegalAnswer (runRequest workLen ac) m fun r m' t =>
      m'.maxReqs = m.maxReqs ∧ Only ExecCall.Gets t ∧ ¬ Obtained t ∧
        (r = none → ac = .success) ∧ (r = some .success → ac ≠ .success) := by
  cases ac with
  | error => exact Code.traces_pure (by simp [Only, Obtained])
  | nothing => exact Code.traces_pure (by simp [Only, Obtained])
  | shutdown => exact Code.traces_pure (by simp [Only, Obtained])
  | success =>
    unfold runRequest
    apply Code.traces_get_bind
    apply Code.traces_ask_bind
    intro rc _
    split
    · exact Code.traces_pure (by simp [Only, ExecCall.Gets, Obtained, ObtainsTask])
    · apply Code.traces_modify_bind
      exact Code.traces_pure
        (by simp [Only, ExecCall.Gets, Obtained, ObtainsTask, Memory.advanceTail])

lemma drain_gets (n : ℕ) (poll gotTasks : Bool) (m : Memory Buf) :
    Code.Traces LegalAnswer (drain n poll gotTasks) m fun r m' t => r.1 = .success →
      m'.maxReqs = m.maxReqs ∧ Only ExecCall.Gets t ∧ (r.2 = true ↔ gotTasks = true ∨ Obtained t) ∧
        (0 < n → Requested t) := by
  induction n generalizing poll gotTasks m with
  | zero => exact Code.traces_pure fun _ => ⟨rfl, by simp [Only], by simp [Obtained], by simp⟩
  | succ n ih =>
    rw [drain]
    apply (checkRequest_requests poll m).bind
    rintro ⟨ac, workLen⟩ m₁ t₁ ⟨rfl, hgets₁, hrequested, hobtained₁⟩
    dsimp only
    apply (runRequest_gets workLen ac m₁).bind
    rintro (_ | ec) m₂ t₂ ⟨hmax, hgets₂, hobtained₂, hran, hnot⟩
    · apply (ih true true m₂).mono
      intro r m₃ t₃ hr hok
      obtain ⟨hmax₃, hgets₃, hflag, -⟩ := hr hok
      refine ⟨hmax₃.trans hmax, (hgets₁.append (hgets₂.append hgets₃)), ?_, ?_⟩
      · exact iff_of_true (hflag.mpr (.inl rfl))
          (.inr ((obtained_append _ _).mpr (.inl (hobtained₁.mpr (hran rfl)))))
      · exact fun _ => (requested_append _ _).mpr (.inl hrequested)
    · refine Code.traces_pure ?_
      intro hok
      have hac : ¬ Obtained t₁ := fun h => hnot (congrArg some hok) (hobtained₁.mp h)
      rw [List.append_nil]
      refine ⟨hmax, hgets₁.append hgets₂, ?_, ?_⟩
      · simp [hac, hobtained₂]
      · exact fun _ => (requested_append _ _).mpr (.inl hrequested)

/-- With room for a task and for a request, work is asked for. The flag is that of this call
alone. -/
lemma getTasks_gets (poll : Bool) (maxTasks : ℤ) (gotTasks : Bool) (m : Memory Buf) :
    Code.Traces LegalAnswer (getTasks poll maxTasks gotTasks) m fun r m' t => r.1 = .success →
      m'.maxReqs = m.maxReqs ∧ Only ExecCall.Gets t ∧ (r.2 = true ↔ Obtained t) ∧
        (1 ≤ maxTasks → 1 ≤ m.maxReqs → Requested t) := by
  unfold getTasks
  apply Code.traces_get_bind
  dsimp only
  apply (issue_requests _ poll m).bind
  rintro (_ | _) m₁ t₁ hissued
  · exact Code.traces_pure fun h => by cases h
  · obtain ⟨hmax₁, hgets₁, hobtained₁, hrequested₁, hnreqs⟩ := hissued rfl
    apply Code.traces_get_bind
    apply (drain_gets m₁.nreqs poll false m₁).mono
    intro r m₂ t₂ hr hok
    obtain ⟨hmax₂, hgets₂, hflag, hrequested₂⟩ := hr hok
    refine ⟨hmax₂.trans hmax₁, hgets₁.append hgets₂, by simp [hflag, hobtained₁], ?_⟩
    intro htasks hreqs
    rw [requested_append]
    by_cases hextra : 0 < min maxTasks m.maxReqs - m.nreqs
    · exact .inl (hrequested₁ hextra)
    · exact .inr (hrequested₂ (by omega))

lemma getTasksIfFree_gets {slots : SlotState} {m : Memory Buf} (hreqs : 1 ≤ m.maxReqs) :
    Code.Traces LegalAnswer (getTasksIfFree slots) m fun r m' t => r.1 = .success →
      m'.maxReqs = m.maxReqs ∧ Only ExecCall.Gets t ∧ (Requested t ↔ slots.used < slots.total) ∧
        (r.2 = true ↔ Obtained t) := by
  unfold getTasksIfFree
  split
  · rename_i hfree
    apply (getTasks_gets _ _ _ m).mono
    intro r m' t hr hok
    obtain ⟨hmax, hgets, hflag, hrequested⟩ := hr hok
    exact ⟨hmax, hgets, iff_of_true (hrequested (by omega) hreqs) hfree, hflag⟩
  · rename_i hfull
    exact Code.traces_pure fun _ => ⟨rfl, by simp [Only],
      iff_of_false (by simp [Requested]) hfull, by simp [Obtained]⟩

/-! ### The turns of the loop -/

lemma yieldUnless_yields (somethingHappened : Bool) (m : Memory Buf) :
    Code.Traces LegalAnswer (yieldUnless somethingHappened) m fun _ m' t =>
      m' = m ∧ t.filterMap slotsRead = [] ∧ ¬ Requested t ∧ ¬ Checked t ∧ ¬ Obtained t ∧
        (Yielded t ↔ ¬ somethingHappened = true) := by
  cases somethingHappened with
  | true => exact Code.traces_pure (by simp)
  | false =>
    apply Code.traces_ask
    intro r _
    simp [slotsRead, ExecCall.Requests, ExecCall.Checks, ObtainsTask]

/-- What the worker does in a turn, in terms of the slots it reads and of the answers to its
requests. -/
lemma workerTurn_turn {m : Memory Buf} (hreqs : 1 ≤ m.maxReqs) :
    Code.Traces LegalAnswer (workerTurn ()) m fun r m' t => r = .inl () →
      1 ≤ m'.maxReqs ∧ ∃ before after, ReadsSlots before after t ∧
        (0 ≤ before.used ∧ (1 ≤ before.total ∨ before.total = -1)) ∧
        (Requested t ↔ before.used < before.total) ∧ (Checked t ↔ 0 < after.used) ∧
        (Yielded t ↔ ¬ Obtained t) := by
  unfold workerTurn
  apply Code.traces_ask_bind
  rintro ⟨ec, before⟩ hlegal
  dsimp only
  split
  · exact Code.traces_pure fun h => by cases h
  rename_i hec
  have hbefore := hlegal (not_not.mp hec)
  apply (getTasksIfFree_gets hreqs).bind
  rintro ⟨ec, somethingHappened⟩ m₁ t₁ hgot
  dsimp only
  split
  · exact Code.traces_pure fun h => by cases h
  split
  · exact Code.traces_pure fun h => by cases h
  rename_i hec
  obtain ⟨hmax, hgets, hrequested, hflag⟩ := hgot (not_not.mp hec)
  apply Code.traces_ask_bind
  rintro ⟨ec, after⟩ -
  dsimp only
  split
  · exact Code.traces_pure fun h => by cases h
  apply (checkTasksIfUsed_checks after m₁).bind
  rintro ec m₂ t₂ ⟨rfl, hreports, hchecked⟩
  split
  · exact Code.traces_pure fun h => by cases h
  apply (yieldUnless_yields somethingHappened m₂).bind
  rintro _ m₃ t₃ ⟨rfl, hread₃, hrequested₃, hchecked₃, hobtained₃, hyielded₃⟩
  refine Code.traces_pure fun _ => ⟨hmax ▸ hreqs, before, after, ?_, hbefore, ?_, ?_, ?_⟩
  · rw [ReadsSlots]
    simp [slotsRead, hgets.gets.1, hreports.reports.1, hread₃]
  · simp [ExecCall.Requests, hrequested, hreports.reports.2.1, hrequested₃]
  · simp [ExecCall.Checks, hgets.gets.2.1, hchecked, hchecked₃]
  · simp [ObtainsTask, hgets.gets.2.2.2, hreports.reports.2.2, hobtained₃, hyielded₃, hflag]

lemma pollsAndYields_iff {before after : SlotState} {t : Trace Buf}
    (hlegal : 0 ≤ before.used ∧ (1 ≤ before.total ∨ before.total = -1))
    (hrequested : Requested t ↔ before.used < before.total) (hchecked : Checked t ↔ 0 < after.used)
    (hyielded : Yielded t ↔ ¬ Obtained t) :
    PollsAndYields before after t ↔ Served before after t := by
  constructor
  · intro h
    refine ⟨?_, ?_, ?_⟩
    · intro hunlimited
      have := hrequested.mp (h.requests (.inl hunlimited))
      omega
    · exact h.either.imp hrequested.mp hchecked.mp
    · intro hcompleted
      by_contra hobtained
      exact (h.yields.mp (hyielded.mpr hobtained)).2 hcompleted
  · intro h
    refine ⟨?_, hchecked.mpr, h.uses.imp hrequested.mpr hchecked.mpr, ?_⟩
    · rintro (hunlimited | hfree)
      · exact absurd hunlimited h.limited
      · exact hrequested.mpr hfree
    · rw [hyielded]
      exact ⟨fun hobtained => ⟨hobtained, mt h.obtains hobtained⟩, And.left⟩

def TurnMeets (P : SlotState → SlotState → Trace Buf → Prop) (t : Trace Buf) : Prop :=
  WholeTurn t ∧ ∃ before after, ReadsSlots before after t ∧ P before after t

lemma loop_turns (n : ℕ) {m : Memory Buf} (hreqs : 1 ≤ m.maxReqs) :
    Code.Traces LegalAnswer (Code.loop workerTurn n ()) m fun r _ tr => r = none →
      ∃ turns : List (Trace Buf), tr = turns.flatten ∧ turns.length = n ∧ ∀ t ∈ turns,
        TurnMeets (fun before after t =>
          PollsAndYields before after t ↔ Served before after t) t := by
  apply Code.traces_loop (fun _ m => 1 ≤ m.maxReqs) _ _ n hreqs
  intro _ m hreqs
  apply (workerTurn_turn hreqs).recorded.mono
  rintro r m' t ⟨hturn, hrun⟩ ⟨⟩ rfl
  obtain ⟨hreqs', before, after, hreads, hlegal, hrequested, hchecked, hyielded⟩ := hturn rfl
  exact ⟨hreqs', ⟨m, m', hrun⟩, before, after, hreads,
    pollsAndYields_iff hlegal hrequested hchecked hyielded⟩

lemma stopped_returns (mustStart : Bool) (m : Memory Buf) :
    Code.Traces LegalAnswer (do
      stopExecutor mustStart
      turbineServiceFinalize
      pure (some TurbineCode.success) : Worker Buf (Option TurbineCode)) m
      fun r _ _ => r ≠ none := by
  have hstop : Code.Traces LegalAnswer (stopExecutor mustStart : Worker Buf Unit) m
      fun _ _ _ => True := Code.traces_true
  apply hstop.bind
  intro _ m' t _
  apply Code.traces_ask_bind
  intro _ _
  exact Code.traces_pure (Option.some_ne_none _)

lemma startExecutor_maxReqs (mustStart : Bool) (m : Memory Buf) :
    Code.Traces LegalAnswer (startExecutor mustStart) m fun _ m' _ => m'.maxReqs = m.maxReqs := by
  cases mustStart with
  | false => exact Code.traces_pure rfl
  | true =>
    apply Code.traces_ask_bind
    intro ec _
    split
    · exact Code.traces_pure rfl
    · exact Code.traces_modify_bind (Code.traces_pure rfl)

lemma asyncWorkerLoop_turns (payloadBuffers : ℕ → Buf) {nbuffers : ℕ} (n : ℕ) (m : Memory Buf)
    (hbuffers : 1 ≤ nbuffers) :
    Code.Traces LegalAnswer (asyncWorkerLoop payloadBuffers nbuffers n) m fun r _ tr => r = none →
      ∃ (before : Trace Buf) (turns : List (Trace Buf)), tr = before ++ turns.flatten ∧
        turns.length = n ∧ ∀ t ∈ turns, TurnMeets (fun before after t =>
          PollsAndYields before after t ↔ Served before after t) t := by
  have hreqs : 1 ≤ (m.initReqs payloadBuffers (min nbuffers asyncExecMaxReqs)).maxReqs := by
    simp only [Memory.initReqs, asyncExecMaxReqs]
    omega
  have hservice : Code.Traces LegalAnswer (turbineServiceInit : Worker Buf TurbineCode) m
      fun tc m' _ => tc = .success ∧ m' = m :=
    Code.traces_ask_bind fun _ _ => Code.traces_pure ⟨rfl, rfl⟩
  unfold asyncWorkerLoop
  rw [if_neg (Nat.not_lt.mpr hbuffers)]
  apply hservice.bind
  rintro _ _ t₁ ⟨rfl, rfl⟩
  rw [if_neg (not_not.mpr rfl)]
  apply Code.traces_modify_bind
  apply Code.traces_get_bind
  apply (startExecutor_maxReqs _ _).bind
  intro running m₂ t₂ hmax
  cases running with
  | false => exact Code.traces_pure fun h => by cases h
  | true =>
    have hreqs₂ : 1 ≤ m₂.maxReqs := by
      rw [hmax]
      exact hreqs
    apply (loop_turns n hreqs₂).bind
    intro r m₃ t₃ hturns
    rcases r with _ | _ | tc
    · obtain ⟨turns, rfl, hlen, hall⟩ := hturns rfl
      exact Code.traces_pure fun _ =>
        ⟨t₁ ++ t₂, turns, by simp, hlen, hall⟩
    · apply (stopped_returns _ m₃).mono
      intro r _ t hr hnone
      exact absurd hnone hr
    · exact Code.traces_pure fun h => by cases h

/-- The flag of `get_tasks` is the one that it is documented to set, except where it is cleared.
In every turn of the worker's loop the polling and the yielding are as expected exactly when it
is served. -/
theorem worker_polls_iff :
    (∀ (poll : Bool) (maxTasks : ℤ) (gotTasks gotTasks' : Bool) (m m' : Memory Buf) (t : Trace Buf),
      Prog.Run (recorder LegalAnswer) (getTasks poll maxTasks gotTasks m, [])
          (.done ((.success, gotTasks'), m'), t) →
        ((gotTasks' = true ↔ gotTasks = true ∨ Obtained t) ↔ (gotTasks = true → Obtained t))) ∧
    ∀ (payloadBuffers : ℕ → Buf) (nbuffers n : ℕ) (m₀ m : Memory Buf) (tr : Trace Buf),
      1 ≤ nbuffers →
      Prog.Run (recorder LegalAnswer) (asyncWorkerLoop payloadBuffers nbuffers n m₀, [])
          (.done (none, m), tr) →
        ∃ (before : Trace Buf) (turns : List (Trace Buf)), tr = before ++ turns.flatten ∧
          turns.length = n ∧ ∀ t ∈ turns, TurnMeets (fun before after t =>
            PollsAndYields before after t ↔ Served before after t) t := by
  constructor
  · intro poll maxTasks gotTasks gotTasks' m m' t hrun
    obtain ⟨-, -, hflag, -⟩ := (getTasks_gets poll maxTasks gotTasks m).run hrun rfl
    rw [hflag]
    by_cases hobtained : Obtained t <;> simp [hobtained]
  · intro payloadBuffers nbuffers n m₀ m tr hbuffers hrun
    exact (asyncWorkerLoop_turns payloadBuffers n m₀ hbuffers).run hrun rfl

-- the executor has an unlimited number of slots
lemma run_unlimited :
    Prog.Run (recorder LegalAnswer)
      (asyncWorkerLoop id 1 1 (⟨id, fun _ => none, 1, 0, 0, 0, true⟩ : Memory ℕ), [])
      (.done (none, ⟨id, fun _ => none, 1, 0, 0, 0, true⟩), [⟨.serviceInit, false⟩,
        ⟨.slots, .success, 0, -1⟩, ⟨.slots, .success, 0, -1⟩, ⟨.schedYield, ()⟩]) := by
  have hslots : LegalAnswer (.slots : ExecCall ℕ) (.success, ⟨0, -1⟩) := by
    intro _
    decide
  refine Prog.Run.answer (r := false) ⟨trivial, rfl⟩ ?_
  refine Prog.Run.answer (r := (ExecCode.success, ⟨0, -1⟩)) ⟨hslots, rfl⟩ ?_
  refine Prog.Run.answer (r := (ExecCode.success, ⟨0, -1⟩)) ⟨hslots, rfl⟩ ?_
  refine Prog.Run.answer (r := ()) ⟨trivial, rfl⟩ ?_
  exact .refl

theorem worker_polls_iff_unlimited :
    ∃ (before : Trace ℕ) (turns : List (Trace ℕ)),
      [⟨.serviceInit, false⟩, ⟨.slots, .success, 0, -1⟩, ⟨.slots, .success, 0, -1⟩,
        ⟨.schedYield, ()⟩] = before ++ turns.flatten ∧ turns.length = 1 ∧
      ∀ t ∈ turns, TurnMeets (fun before after t =>
        PollsAndYields before after t ↔ Served before after t) t :=
  worker_polls_iff.2 _ _ _ _ _ _ le_rfl run_unlimited

/-- No work is ever asked for an executor with an unlimited number of slots. -/
theorem not_worker_polls :
    ¬ ∀ (payloadBuffers : ℕ → ℕ) (nbuffers n : ℕ) (m₀ m : Memory ℕ) (tr : Trace ℕ), 1 ≤ nbuffers →
      Prog.Run (recorder LegalAnswer) (asyncWorkerLoop payloadBuffers nbuffers n m₀, [])
          (.done (none, m), tr) →
        ∃ (before : Trace ℕ) (turns : List (Trace ℕ)), tr = before ++ turns.flatten ∧
          turns.length = n ∧ ∀ t ∈ turns, TurnMeets PollsAndYields t := by
  intro h
  obtain ⟨before, turns, htr, hlen, hall⟩ := h _ _ _ _ _ _ le_rfl run_unlimited
  obtain ⟨t, rfl⟩ := List.length_eq_one_iff.mp hlen
  obtain ⟨-, _, _, -, hpolls⟩ := hall t (by simp)
  have hsub : ∀ ev ∈ t, ev.1 = .serviceInit ∨ ev.1 = .slots ∨ ev.1 = .schedYield := by
    intro ev hev
    have hmem : ev ∈ before ++ [t].flatten := by simp [hev]
    rw [← htr] at hmem
    rcases List.mem_cons.mp hmem with rfl | hmem
    · exact .inl rfl
    · rcases List.mem_cons.mp hmem with rfl | hmem
      · exact .inr (.inl rfl)
      · rcases List.mem_cons.mp hmem with rfl | hmem
        · exact .inr (.inl rfl)
        · rw [List.mem_singleton.mp hmem]
          exact .inr (.inr rfl)
  rcases hpolls.either with ⟨ev, hev, hasks⟩ | ⟨ev, hev, hasks⟩
  all_goals
    rcases hsub ev hev with hc | hc | hc <;> rw [hc] at hasks <;> exact hasks.elim

end Turbine.Async
