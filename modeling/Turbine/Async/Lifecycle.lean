import Mathlib
import Turbine.Async.Model

/-! What a run of the Tcl command has released when it exits: the executor it started, the worker
service, and the payload buffers it lent to ADLB. -/

namespace Turbine.Async

open Turbine.Library.Programs

/-- What a run has taken so far and given back. -/
structure Lifecycle where
  launched : Bool
  finalized : ℕ
  starts : ℕ
  stops : ℕ
  -- the requests that are not answered, with the payload buffer each was issued with
  outstanding : List (Req × ℕ)
  shutdown : Bool
  freedLent : Bool
  -- every answer so far met `Fits`
  fitted : Prop

def Lifecycle.Unheld (e : Lifecycle) : Prop :=
  e.launched = false ∧ e.starts = 0 ∧ e.outstanding = []

def Lifecycle.answer (e : Lifecycle) (req : Option Req) : AdlbCode → Lifecycle
  | .success => { e with outstanding := e.outstanding.filter fun x => some x.1 ≠ req }
  | .shutdown =>
    { e with outstanding := e.outstanding.filter fun x => some x.1 ≠ req, shutdown := true }
  | .error | .nothing => e

def Lifecycle.track (e : Lifecycle) : (c : ExecCall ℕ) → c.Ret → Lifecycle
  | .serviceInit, launched => { e with launched := launched }
  | .start, ec => if ec = .success then { e with starts := e.starts + 1 } else e
  | .amget _ _ bufs, r =>
    if r.1 = .error then e else { e with outstanding := e.outstanding ++ r.2.zip bufs }
  | .agetTest req, r => e.answer req r.1
  | .agetWait req, r => e.answer req r.1.toAdlb
  | .stop, _ => { e with stops := e.stops + 1 }
  | .serviceFinalize, _ => { e with finalized := e.finalized + 1 }
  | .freePayload i, _ =>
    { e with freedLent := e.freedLent || e.outstanding.any fun x => x.2 = i }
  | _, _ => e

-- the answers that make the worker loop return an error
def ExecCall.Fails : (c : ExecCall ℕ) → c.Ret → Prop
  | .start, ec => ec ≠ .success
  | .slots, r => r.1 ≠ .success
  | .amget _ _ _, r => r.1 = .error
  | .agetTest _, r => r.1 = .error
  | .agetWait _, r => r.1.toAdlb = .error
  | .evalTask _ _, rc => rc ≠ .ok
  | .poll _, r => r.1 ≠ .success
  | .wait _, r => r.1 ≠ .success
  | .setVar _ _, set => set = false
  | .evalCallback _, rc => rc ≠ .ok
  | .unsetVar _, rc => rc ≠ .ok
  | _, _ => False

def ExecCall.Shuts : (c : ExecCall ℕ) → c.Ret → Prop
  | .agetTest _, r => r.1 = .shutdown
  | .agetWait _, r => r.1.toAdlb = .shutdown
  | _, _ => False

def ExecCall.Starves : (c : ExecCall ℕ) → c.Ret → Prop
  | .mallocPayload _ _, ok => ok = false
  | _, _ => False

/-- An error comes only while nothing is held, a shutdown only as the answer to the last
outstanding request, and the payload buffers can be allocated. -/
def Fits (e : Lifecycle) (c : ExecCall ℕ) (r : c.Ret) : Prop :=
  (c.Fails r → e.Unheld) ∧ (c.Shuts r → (e.track c r).outstanding = []) ∧ ¬ c.Starves r

def lifecycleWorld : World Lifecycle (Memory ℕ × ExecCall ℕ) fun mc => mc.2.Ret where
  reply e mc r e' := e' = { e.track mc.2 r with fitted := e.fitted ∧ Fits e mc.2 r }

/-- What the exit of a run with code `rc` has to leave. -/
structure Released (e : Lifecycle) (rc : TclCode) : Prop where
  starts_le : e.starts ≤ 1
  stops_eq : e.stops = e.starts
  finalized_eq : e.launched = true → e.finalized = 1
  freed : e.freedLent = false
  rc_eq : rc = .ok ↔ e.shutdown = true

def Lifecycle.start : Lifecycle := ⟨false, 0, 0, 0, [], false, false, True⟩

/-! ### What is held while the loop runs -/

/-- A service launched or not, an executor started or not, and requests on the first buffers. -/
structure Held (launched : Bool) (starts count : ℕ) (m : Memory ℕ) (e : Lifecycle) : Prop where
  launched_eq : e.launched = launched
  starts_eq : e.starts = starts
  stops_eq : e.stops = 0
  finalized_eq : e.finalized = 0
  freed_eq : e.freedLent = false
  buffers_eq : m.buffers = id
  maxReqs_pos : 0 < m.maxReqs
  maxReqs_le : m.maxReqs ≤ count
  lent_lt : ∀ x ∈ e.outstanding, x.2 < count

-- whether an answer has failed, before any shutdown
structure Status (failed : Prop) (e : Lifecycle) : Prop where
  shutdown_eq : e.shutdown = false
  of_failed : failed → (e.fitted ↔ e.Unheld)
  of_going : ¬ failed → e.fitted

structure Ended (e : Lifecycle) : Prop where
  shutdown_eq : e.shutdown = true
  fitted_iff : e.fitted ↔ e.outstanding = []

-- the calls that take nothing and give nothing back
def ExecCall.Quiet : ExecCall ℕ → Prop
  | .slots | .evalTask _ _ | .poll _ | .wait _ | .setVar _ _ | .evalCallback _ | .unsetVar _
  | .freeName _ | .freeVars | .decrRef _ | .schedYield => True
  | _ => False

attribute [local simp] ExecCall.Fails

def anyCall : Lifecycle → Memory ℕ × ExecCall ℕ → Prop := fun _ _ => True

variable {launched : Bool} {starts count : ℕ} {m : Memory ℕ} {e : Lifecycle} {failed : Prop}

lemma Held.refit (h : Held launched starts count m e) (p : Prop) :
    Held launched starts count m { e with fitted := p } :=
  ⟨h.launched_eq, h.starts_eq, h.stops_eq, h.finalized_eq, h.freed_eq, h.buffers_eq,
    h.maxReqs_pos, h.maxReqs_le, h.lent_lt⟩

lemma Status.congr {failed' : Prop} (h : Status failed e) (hf : failed ↔ failed') :
    Status failed' e :=
  ⟨h.shutdown_eq, fun hf' => h.of_failed (hf.mpr hf'), fun hf' => h.of_going (hf'.imp hf.mp)⟩

lemma Status.refit (h : Status failed e) {fails : Prop} {p : Prop}
    (hp : p ↔ e.fitted ∧ (fails → e.Unheld)) :
    Status (failed ∨ fails) { e with fitted := p } := by
  refine ⟨h.shutdown_eq, ?_, ?_⟩
  · intro hf
    have hu : Lifecycle.Unheld { e with fitted := p } ↔ e.Unheld := Iff.rfl
    rw [hu]
    simp only [hp]
    by_cases hfailed : failed
    · have := h.of_failed hfailed
      tauto
    · have := h.of_going hfailed
      tauto
  · intro hf
    have := h.of_going fun hfailed => hf (Or.inl hfailed)
    simp only [hp]
    tauto

lemma ask_track {c : ExecCall ℕ} {Q : c.Ret → Memory ℕ → Lifecycle → Prop}
    (h : ∀ r, Q r m { e.track c r with fitted := e.fitted ∧ Fits e c r }) :
    (ask c).Meets lifecycleWorld anyCall Q m e := by
  refine ⟨trivial, ?_⟩
  rintro r e' rfl
  exact h r

lemma track_quiet {c : ExecCall ℕ} (hc : c.Quiet) (e : Lifecycle) (r : c.Ret) :
    e.track c r = e ∧ ¬ c.Shuts r ∧ ¬ c.Starves r := by
  cases c <;> first | exact hc.elim | exact ⟨rfl, id, id⟩

/-- What holds at any point of the loop, with or without a failed answer. -/
structure Live (launched : Bool) (starts count : ℕ) (failed : Prop) (m : Memory ℕ)
    (e : Lifecycle) : Prop where
  held : Held launched starts count m e
  status : Status failed e

lemma Live.congr {failed' : Prop} (h : Live launched starts count failed m e)
    (hf : failed ↔ failed') : Live launched starts count failed' m e :=
  ⟨h.held, h.status.congr hf⟩

lemma ask_quiet {c : ExecCall ℕ} (hc : c.Quiet) (h : Live launched starts count failed m e) :
    (ask c).Meets lifecycleWorld anyCall (fun r m' e' =>
      Live launched starts count (failed ∨ c.Fails r) m' e') m e := by
  apply ask_track
  intro r
  obtain ⟨htrack, hshuts, hstarves⟩ := track_quiet hc e r
  simp only [htrack]
  exact ⟨h.held.refit _, h.status.refit (by simp [Fits, hshuts, hstarves])⟩

lemma setVars_live (vars : List CallbackVar) (h : Live launched starts count failed m e) :
    (setVars vars).Meets lifecycleWorld anyCall (fun set m' e' =>
      Live launched starts count (failed ∨ set = false) m' e') m e := by
  induction vars generalizing failed m e with
  | nil => exact h.congr (by simp)
  | cons var vars ih =>
    simp only [setVars, Code.meets_bind]
    apply (ask_quiet (c := .setVar var.name var.val) trivial h).mono
    intro set m' e' h'
    cases set with
    | false => exact h'
    | true => exact ih (h'.congr (by simp))

lemma unsetVar_live (evaluated : Bool) (var : CallbackVar)
    (h : Live launched starts count failed m e) :
    (unsetVar evaluated var).Meets lifecycleWorld anyCall (fun rc m' e' =>
      Live launched starts count (failed ∨ rc ≠ .ok) m' e') m e := by
  cases evaluated with
  | false => exact h.congr (by simp)
  | true => exact ask_quiet (c := .unsetVar var.name) trivial h

lemma freeVarName_live (var : CallbackVar) (h : Live launched starts count failed m e) :
    (freeVarName var).Meets lifecycleWorld anyCall (fun _ m' e' =>
      Live launched starts count failed m' e') m e := by
  simp only [freeVarName]
  split
  · apply (ask_quiet (c := .freeName var.name) trivial h).mono
    exact fun _ _ _ h' => h'.congr (by simp)
  · exact h

lemma unsetVars_live (evaluated : Bool) (vars : List CallbackVar)
    (h : Live launched starts count failed m e) :
    (unsetVars evaluated vars).Meets lifecycleWorld anyCall (fun unset m' e' =>
      Live launched starts count (failed ∨ unset = false) m' e') m e := by
  induction vars generalizing failed m e with
  | nil => exact h.congr (by simp)
  | cons var vars ih =>
    simp only [unsetVars, Code.meets_bind]
    apply (unsetVar_live evaluated var h).mono
    intro rc m' e' h'
    split
    · rename_i hrc
      exact h'.congr (by simp [hrc])
    · rename_i hrc
      simp only [Code.meets_bind]
      apply (freeVarName_live var h').mono
      exact fun _ _ _ h'' => ih (h''.congr (by simp [not_not.mp hrc]))

lemma freeVarsOf_live (task : CompletedTask) (h : Live launched starts count failed m e) :
    (freeVarsOf task).Meets lifecycleWorld anyCall (fun _ m' e' =>
      Live launched starts count failed m' e') m e := by
  simp only [freeVarsOf]
  split
  · apply (ask_quiet (c := .freeVars) trivial h).mono
    exact fun _ _ _ h' => h'.congr (by simp)
  · exact h

lemma cleanup_live (task : CompletedTask) (evaluated : Bool) {tc : TurbineCode}
    (h : Live launched starts count (failed ∨ tc ≠ .success) m e) :
    (cleanup task evaluated tc).Meets lifecycleWorld anyCall (fun tc' m' e' =>
      Live launched starts count (failed ∨ tc' ≠ .success) m' e') m e := by
  simp only [cleanup, Code.meets_bind]
  apply (unsetVars_live evaluated _ h).mono
  intro unset m' e' h'
  cases unset with
  | false => exact h'.congr (by simp)
  | true =>
    simp only [Bool.not_true, Bool.false_eq_true, if_false, Code.meets_bind]
    apply (freeVarsOf_live task h').mono
    exact fun _ _ _ h'' => h''.congr (by simp)

lemma runCallback_live (task : CompletedTask) (cb : Option Obj)
    (h : Live launched starts count failed m e) :
    (runCallback task cb).Meets lifecycleWorld anyCall (fun tc m' e' =>
      Live launched starts count (failed ∨ tc ≠ .success) m' e') m e := by
  cases cb with
  | none => exact cleanup_live task false (h.congr (by simp))
  | some cb =>
    simp only [runCallback, Code.meets_bind]
    apply (setVars_live _ h).mono
    intro set m' e' h'
    cases set with
    | false => exact h'.congr (by simp)
    | true =>
      simp only [Bool.not_true, Bool.false_eq_true, if_false, Code.meets_bind]
      apply (ask_quiet (c := .evalCallback cb) trivial h').mono
      intro rc m'' e'' h''
      split
      · rename_i hrc
        exact cleanup_live task true (h''.congr (by simp [hrc]))
      · rename_i hrc
        exact cleanup_live task true (h''.congr (by simp [not_not.mp hrc]))

lemma decrRefCount_live (o : Option Obj) (h : Live launched starts count failed m e) :
    (decrRefCount o).Meets lifecycleWorld anyCall (fun _ m' e' =>
      Live launched starts count failed m' e') m e := by
  cases o with
  | none => exact h
  | some o =>
    apply (ask_quiet (c := .decrRef o) trivial h).mono
    exact fun _ _ _ h' => h'.congr (by simp)

lemma runCallbacks_live (tasks : List CompletedTask) (h : Live launched starts count failed m e) :
    (runCallbacks tasks).Meets lifecycleWorld anyCall (fun ec m' e' =>
      Live launched starts count (failed ∨ ec ≠ .success) m' e') m e := by
  induction tasks generalizing failed m e with
  | nil => exact h.congr (by simp)
  | cons task tasks ih =>
    simp only [runCallbacks, Code.meets_bind]
    apply (runCallback_live task task.cb h).mono
    intro tc m' e' h'
    split
    · rename_i htc
      exact h'.congr (by simp [htc])
    · rename_i htc
      simp only [Code.meets_bind]
      apply (decrRefCount_live _ h').mono
      intro _ m' e' h'
      apply (decrRefCount_live _ h').mono
      exact fun _ _ _ h'' => ih (h''.congr (by simp [not_not.mp htc]))

lemma checkTasks_live (poll : Bool) (h : Live launched starts count failed m e) :
    (checkTasks poll).Meets lifecycleWorld anyCall (fun ec m' e' =>
      Live launched starts count (failed ∨ ec ≠ .success) m' e') m e := by
  have hreport : ∀ {m e} {r : ExecCode × List CompletedTask},
      Live launched starts count (failed ∨ r.1 ≠ .success) m e →
      (if r.1 ≠ .success then pure r.1 else runCallbacks r.2 : Worker ℕ ExecCode).Meets
        lifecycleWorld anyCall (fun ec m' e' =>
          Live launched starts count (failed ∨ ec ≠ .success) m' e') m e := by
    intro m e r hr
    split
    · exact hr
    · rename_i hec
      exact runCallbacks_live _ (hr.congr (by simp [not_not.mp hec]))
  simp only [checkTasks, Code.meets_bind, completedTasks]
  cases poll with
  | true =>
    apply (ask_quiet (c := .poll completedBufferSize) trivial h).mono
    exact fun r _ _ hr => hreport (r := r) hr
  | false =>
    apply (ask_quiet (c := .wait completedBufferSize) trivial h).mono
    exact fun r _ _ hr => hreport (r := r) hr

/-! ### Getting tasks -/

def answerStatus : AdlbCode → Lifecycle → Prop
  | .error => Status True
  | .shutdown => Ended
  | _ => Status False

def codeStatus : ExecCode → Lifecycle → Prop
  | .success => Status False
  | .shutdown => Ended
  | _ => Status True

lemma codeStatus_of_ne {ec : ExecCode} (hec : ec ≠ .success) (hshut : ec ≠ .shutdown)
    (h : codeStatus ec e) : Status True e := by
  cases ec <;> first | exact absurd rfl hec | exact absurd rfl hshut | exact h

lemma storeRequests_kept (reqs : List Req) (m : Memory ℕ) :
    (m.storeRequests reqs).buffers = m.buffers ∧
      (m.storeRequests reqs).maxReqs = m.maxReqs := by
  induction reqs generalizing m with
  | nil => exact ⟨rfl, rfl⟩
  | cons req reqs ih => exact ih _

lemma Held.tmpBufs_lt (h : Held launched starts count m e) {extra : ℕ} {i : ℕ}
    (hi : i ∈ m.tmpBufs extra) : i < count := by
  obtain ⟨j, _, rfl⟩ := List.mem_map.mp hi
  rw [h.buffers_eq]
  exact (Nat.mod_lt _ h.maxReqs_pos).trans_le h.maxReqs_le

lemma issue_live (extraReqs : ℤ) (poll : Bool) (h : Live launched starts count False m e) :
    (issue extraReqs poll).Meets lifecycleWorld anyCall (fun issued m' e' =>
      Live launched starts count (issued = false) m' e') m e := by
  simp only [issue]
  split
  · simp only [Code.meets_bind, Code.meets_get]
    apply ask_track
    rintro ⟨ac, tmpReqs⟩
    split
    · rename_i hac
      obtain rfl : ac = .error := hac
      have hs : Status (False ∨ True) { e with fitted := e.fitted ∧ Fits e (.amget extraReqs.toNat
          (!poll && m.nreqs == 0) (m.tmpBufs extraReqs.toNat)) (.error, tmpReqs) } :=
        h.status.refit (by simp [Fits, ExecCall.Shuts, ExecCall.Starves])
      exact ⟨h.held.refit _, hs.congr (by simp)⟩
    · rename_i hac
      have htrack : e.track (.amget extraReqs.toNat (!poll && m.nreqs == 0)
          (m.tmpBufs extraReqs.toNat)) (ac, tmpReqs) =
          { e with outstanding := e.outstanding ++ tmpReqs.zip (m.tmpBufs extraReqs.toNat) } :=
        if_neg hac
      obtain ⟨hbuffers, hmax⟩ := storeRequests_kept tmpReqs m
      have hheld := h.held
      simp only [htrack]
      refine ⟨⟨hheld.launched_eq, hheld.starts_eq, hheld.stops_eq, hheld.finalized_eq,
        hheld.freed_eq, hbuffers.trans hheld.buffers_eq, ?_, ?_, ?_⟩,
        ⟨h.status.shutdown_eq, by simp, fun _ => ?_⟩⟩
      · exact hmax ▸ hheld.maxReqs_pos
      · exact hmax ▸ hheld.maxReqs_le
      · intro x hx
        rcases List.mem_append.mp hx with hx | hx
        · exact hheld.lent_lt x hx
        · exact hheld.tmpBufs_lt (List.of_mem_zip hx).2
      · refine ⟨h.status.of_going id, ?_⟩
        simp [Fits, ExecCall.Shuts, ExecCall.Starves, hac]
  · exact h.congr (by simp)

-- an answer, whether a test or a wait brought it
lemma answer_status {req : Option Req} {ac : AdlbCode} {p : Prop}
    (h : Live launched starts count False m e)
    (hp : p ↔ e.fitted ∧ (ac = .error → e.Unheld) ∧
      (ac = .shutdown → (e.answer req ac).outstanding = [])) :
    Held launched starts count m { e.answer req ac with fitted := p } ∧
      answerStatus ac { e.answer req ac with fitted := p } := by
  have hheld := h.held
  have hfitted := h.status.of_going id
  have hfiltered : ∀ x ∈ e.outstanding.filter (fun x => some x.1 ≠ req), x.2 < count :=
    fun x hx => hheld.lent_lt x (List.mem_of_mem_filter hx)
  have hshut := h.status.shutdown_eq
  cases ac with
  | success =>
    exact ⟨⟨hheld.launched_eq, hheld.starts_eq, hheld.stops_eq, hheld.finalized_eq,
      hheld.freed_eq, hheld.buffers_eq, hheld.maxReqs_pos, hheld.maxReqs_le, hfiltered⟩,
      ⟨hshut, by simp, fun _ => hp.mpr ⟨hfitted, by simp, by simp⟩⟩⟩
  | shutdown =>
    refine ⟨⟨hheld.launched_eq, hheld.starts_eq, hheld.stops_eq, hheld.finalized_eq,
      hheld.freed_eq, hheld.buffers_eq, hheld.maxReqs_pos, hheld.maxReqs_le, hfiltered⟩,
      ⟨rfl, ?_⟩⟩
    simp only [hp]
    simp [hfitted]
  | error =>
    have hs : Status (False ∨ True) { e with fitted := p } := h.status.refit (by simp [hp])
    exact ⟨hheld.refit p, hs.congr (by simp)⟩
  | nothing => exact ⟨hheld.refit p, ⟨hshut, by simp, fun _ => hp.mpr ⟨hfitted, by simp, by simp⟩⟩⟩

lemma checkRequest_live (poll : Bool) (h : Live launched starts count False m e) :
    (checkRequest poll).Meets lifecycleWorld anyCall (fun r m' e' =>
      Held launched starts count m' e' ∧ answerStatus r.1 e') m e := by
  simp only [checkRequest, Code.meets_bind, Code.meets_get]
  cases poll with
  | true =>
    apply ask_track
    intro r
    exact answer_status h (by simp [Fits, ExecCall.Shuts, ExecCall.Starves,
      Lifecycle.track])
  | false =>
    simp only [Bool.false_eq_true, if_false, Code.meets_bind]
    apply ask_track
    intro r
    exact answer_status h (by simp [Fits, ExecCall.Shuts, ExecCall.Starves,
      Lifecycle.track])

lemma runRequest_live {workLen : ℤ} {ac : AdlbCode} (hheld : Held launched starts count m e)
    (hs : answerStatus ac e) :
    (runRequest workLen ac).Meets lifecycleWorld anyCall (fun r m' e' =>
      Held launched starts count m' e' ∧ codeStatus (r.getD .success) e') m e := by
  cases ac with
  | error => exact ⟨hheld, hs⟩
  | shutdown => exact ⟨hheld, hs⟩
  | nothing => exact ⟨hheld, hs⟩
  | success =>
    simp only [runRequest, Code.meets_bind, Code.meets_get]
    apply (ask_quiet (c := .evalTask (m.buffers m.tail) (workLen - 1)) trivial ⟨hheld, hs⟩).mono
    intro rc m' e' h
    split
    · rename_i hrc
      exact ⟨h.held, h.status.congr (by simp [hrc])⟩
    · rename_i hrc
      have hheld := h.held
      refine ⟨⟨hheld.launched_eq, hheld.starts_eq, hheld.stops_eq, hheld.finalized_eq,
        hheld.freed_eq, hheld.buffers_eq, hheld.maxReqs_pos, hheld.maxReqs_le,
        hheld.lent_lt⟩, ?_⟩
      exact h.status.congr (by simp [not_not.mp hrc])

lemma drain_live (n : ℕ) (poll gotTasks : Bool) (h : Live launched starts count False m e) :
    (drain n poll gotTasks).Meets lifecycleWorld anyCall (fun r m' e' =>
      Held launched starts count m' e' ∧ codeStatus r.1 e') m e := by
  induction n generalizing poll gotTasks m e with
  | zero => exact ⟨h.held, h.status⟩
  | succ n ih =>
    simp only [drain, Code.meets_bind]
    apply (checkRequest_live poll h).mono
    rintro ⟨ac, workLen⟩ m' e' ⟨hheld, hs⟩
    apply (runRequest_live hheld hs).mono
    rintro (_ | ec) m' e' ⟨hheld, hs⟩
    · exact ih true true ⟨hheld, hs⟩
    · exact ⟨hheld, hs⟩

lemma getTasks_live (poll gotTasks : Bool) (maxTasks : ℤ)
    (h : Live launched starts count False m e) :
    (getTasks poll maxTasks gotTasks).Meets lifecycleWorld anyCall (fun r m' e' =>
      Held launched starts count m' e' ∧ codeStatus r.1 e') m e := by
  simp only [getTasks, Code.meets_bind, Code.meets_get]
  apply (issue_live _ poll h).mono
  intro issued m' e' h'
  cases issued with
  | false => exact ⟨h'.held, h'.status.congr (by simp)⟩
  | true =>
    simp only [Bool.not_true, Bool.false_eq_true, if_false, Code.meets_bind, Code.meets_get]
    exact drain_live _ poll false (h'.congr (by simp))

/-! ### The worker loop -/

lemma getTasksIfFree_live (slots : SlotState) (h : Live launched starts count False m e) :
    (getTasksIfFree slots).Meets lifecycleWorld anyCall (fun r m' e' =>
      Held launched starts count m' e' ∧ codeStatus r.1 e') m e := by
  simp only [getTasksIfFree]
  split
  · exact getTasks_live _ _ _ h
  · exact ⟨h.held, h.status⟩

lemma checkTasksIfUsed_live (slots : SlotState) (h : Live launched starts count False m e) :
    (checkTasksIfUsed slots).Meets lifecycleWorld anyCall (fun ec m' e' =>
      Live launched starts count (ec ≠ .success) m' e') m e := by
  simp only [checkTasksIfUsed]
  split
  · apply (checkTasks_live _ h).mono
    exact fun _ _ _ h' => h'.congr (by simp)
  · exact h.congr (by simp)

lemma yieldUnless_live (somethingHappened : Bool) (h : Live launched starts count failed m e) :
    (yieldUnless somethingHappened).Meets lifecycleWorld anyCall (fun _ m' e' =>
      Live launched starts count failed m' e') m e := by
  cases somethingHappened with
  | false =>
    apply (ask_quiet (c := .schedYield) trivial h).mono
    exact fun _ _ _ h' => h'.congr (by simp)
  | true => exact h

-- how a turn of the loop, or the loop, has ended
def turnStatus : Unit ⊕ Option TurbineCode → Lifecycle → Prop
  | .inl (), e => Status False e
  | .inr none, e => Ended e
  | .inr (some tc), e => tc = .errorExternal ∧ Status True e

lemma workerTurn_live (h : Live launched starts count False m e) :
    (workerTurn ()).Meets lifecycleWorld anyCall (fun r m' e' =>
      Held launched starts count m' e' ∧ turnStatus r e') m e := by
  simp only [workerTurn, Code.meets_bind]
  apply (ask_quiet (c := .slots) trivial h).mono
  rintro ⟨ec, slots⟩ m e h
  split
  · rename_i hec
    exact ⟨h.held, rfl, h.status.congr (by simp [hec])⟩
  rename_i hec
  obtain rfl : ec = .success := not_not.mp hec
  simp only [Code.meets_bind]
  apply (getTasksIfFree_live slots (h.congr (by simp))).mono
  rintro ⟨ec, somethingHappened⟩ m e ⟨hheld, hs⟩
  split
  · rename_i hshut
    obtain rfl : ec = .shutdown := hshut
    exact ⟨hheld, hs⟩
  rename_i hshut
  split
  · rename_i hec
    exact ⟨hheld, rfl, codeStatus_of_ne hec hshut hs⟩
  rename_i hec
  obtain rfl : ec = .success := not_not.mp hec
  simp only [Code.meets_bind]
  apply (ask_quiet (c := .slots) trivial ⟨hheld, hs⟩).mono
  rintro ⟨ec, slots⟩ m e h
  split
  · rename_i hec
    exact ⟨h.held, rfl, h.status.congr (by simp [hec])⟩
  rename_i hec
  obtain rfl : ec = .success := not_not.mp hec
  simp only [Code.meets_bind]
  apply (checkTasksIfUsed_live slots (h.congr (by simp))).mono
  intro ec m e h
  split
  · rename_i hec
    exact ⟨h.held, rfl, h.status.congr (by simp [hec])⟩
  rename_i hec
  simp only [Code.meets_bind]
  apply (yieldUnless_live somethingHappened h).mono
  intro _ m e h
  exact ⟨h.held, h.status.congr (by simp [not_not.mp hec])⟩

lemma loop_live (n : ℕ) (h : Live launched starts count False m e) :
    (Code.loop workerTurn n ()).Meets lifecycleWorld anyCall (fun r m' e' => ∀ tc, r = some tc →
      Held launched starts count m' e' ∧ turnStatus (.inr tc) e') m e := by
  refine Code.meets_loop (fun _ => Live launched starts count False) (fun _ m e h => ?_) n h
  apply (workerTurn_live h).mono
  rintro (_ | tc) m' e' ⟨hheld, hs⟩
  · exact ⟨hheld, hs⟩
  · exact ⟨hheld, hs⟩

/-! ### The command -/

/-- A loop that ended by shutdown has given back everything but the requests it left. -/
structure Done (count : ℕ) (e : Lifecycle) : Prop where
  starts_le : e.starts ≤ 1
  stops_eq : e.stops = e.starts
  finalized_eq : e.finalized = 1
  freed_eq : e.freedLent = false
  lent_lt : ∀ x ∈ e.outstanding, x.2 < count
  ended : Ended e

/-- A loop that ended by an error has given back nothing. -/
structure Dropped (count : ℕ) (e : Lifecycle) : Prop where
  starts_le : e.starts ≤ 1
  stops_eq : e.stops = 0
  finalized_eq : e.finalized = 0
  freed_eq : e.freedLent = false
  lent_lt : ∀ x ∈ e.outstanding, x.2 < count
  status : Status True e

lemma Held.dropped (h : Held launched starts count m e) (hstarts : starts ≤ 1)
    (hs : Status True e) : Dropped count e :=
  ⟨h.starts_eq ▸ hstarts, h.stops_eq, h.finalized_eq, h.freed_eq, h.lent_lt, hs⟩

def loopStatus (count : ℕ) : Option TurbineCode → Lifecycle → Prop
  | none, _ => True
  | some .success, e => Done count e
  | some .errorExternal, e => Dropped count e
  | some .errorUnknown, _ => False

/-- Nothing has been taken yet. -/
structure Untouched (e : Lifecycle) : Prop where
  launched_eq : e.launched = false
  starts_eq : e.starts = 0
  stops_eq : e.stops = 0
  finalized_eq : e.finalized = 0
  outstanding_eq : e.outstanding = []
  shutdown_eq : e.shutdown = false
  freed_eq : e.freedLent = false
  fitted : e.fitted

lemma startExecutor_live {mustStart : Bool} (h : Live launched 0 count False m e) :
    (startExecutor mustStart).Meets lifecycleWorld anyCall (fun running m' e' =>
      if running then Live launched (if mustStart then 1 else 0) count False m' e'
      else Dropped count e') m e := by
  cases mustStart with
  | false => exact h
  | true =>
    simp only [startExecutor, if_true, Code.meets_bind]
    apply ask_track
    intro ec
    have hheld := h.held
    split
    · rename_i hec
      have htrack : e.track .start ec = e := if_neg hec
      have hs : Status (False ∨ True) { e with fitted := e.fitted ∧ Fits e .start ec } :=
        h.status.refit (by simp [Fits, ExecCall.Shuts, ExecCall.Starves, hec])
      simp only [htrack]
      exact (hheld.refit _).dropped (Nat.zero_le 1) (hs.congr (by simp))
    · rename_i hec
      obtain rfl : ec = .success := not_not.mp hec
      have hfits : Fits e .start .success := by
        simp [Fits, ExecCall.Shuts, ExecCall.Starves]
      exact ⟨⟨hheld.launched_eq, congrArg (· + 1) hheld.starts_eq, hheld.stops_eq,
        hheld.finalized_eq, hheld.freed_eq, hheld.buffers_eq, hheld.maxReqs_pos,
        hheld.maxReqs_le, hheld.lent_lt⟩,
        ⟨h.status.shutdown_eq, by simp, fun _ => ⟨h.status.of_going id, hfits⟩⟩⟩

-- what `stop_executors` and the service's finalization leave of an ended loop
lemma stop_done {mustStart : Bool} (hheld : Held launched (if mustStart then 1 else 0) count m e)
    (hended : Ended e) :
    (do
      stopExecutor mustStart
      turbineServiceFinalize
      pure (some TurbineCode.success) : Worker ℕ (Option TurbineCode)).Meets lifecycleWorld anyCall
        (fun r _ e' => loopStatus count r e') m e := by
  have hfinal : ∀ {e : Lifecycle}, e.starts ≤ 1 → e.stops = e.starts → e.finalized = 0 →
      e.freedLent = false → (∀ x ∈ e.outstanding, x.2 < count) → Ended e → ∀ m : Memory ℕ,
      (do
        turbineServiceFinalize
        pure (some TurbineCode.success) : Worker ℕ (Option TurbineCode)).Meets lifecycleWorld
          anyCall (fun r _ e' => loopStatus count r e') m e := by
    intro e hle hstops hfin hfreed hlent hended m
    simp only [Code.meets_bind, Code.meets_pure]
    apply ask_track
    intro _
    refine ⟨hle, hstops, congrArg (· + 1) hfin, hfreed, hlent, hended.shutdown_eq, ?_⟩
    simpa [Lifecycle.track, Fits, ExecCall.Shuts, ExecCall.Starves]
      using hended.fitted_iff
  cases mustStart with
  | false =>
    have hstarts : e.starts = 0 := hheld.starts_eq
    exact hfinal (by omega) (hheld.stops_eq.trans hstarts.symm) hheld.finalized_eq hheld.freed_eq
      hheld.lent_lt hended m
  | true =>
    have hstarts : e.starts = 1 := hheld.starts_eq
    simp only [stopExecutor, if_true, Code.meets_bind]
    apply ask_track
    intro _
    apply hfinal
    · simp [Lifecycle.track, hstarts]
    · simp [Lifecycle.track, hheld.stops_eq, hstarts]
    · exact hheld.finalized_eq
    · exact hheld.freed_eq
    · exact hheld.lent_lt
    · refine ⟨hended.shutdown_eq, ?_⟩
      simpa [Lifecycle.track, Fits, ExecCall.Shuts, ExecCall.Starves]
        using hended.fitted_iff

lemma asyncWorkerLoop_status (n : ℕ) (h : Untouched e) :
    (asyncWorkerLoop id count n).Meets lifecycleWorld anyCall
      (fun r _ e' => loopStatus count r e') m e := by
  simp only [asyncWorkerLoop, turbineServiceInit]
  split
  · trivial
  rename_i hcount
  simp only [Code.meets_bind, Code.meets_pure]
  apply ask_track
  intro launched
  simp only [ne_eq, not_true, if_false, Code.meets_bind, Code.meets_modify, Code.meets_get]
  have hfits : Fits e .serviceInit launched := by
    simp [Fits, ExecCall.Shuts, ExecCall.Starves]
  have hlive : Live launched 0 count False (m.initReqs id (min count asyncExecMaxReqs))
      { e.track .serviceInit launched with fitted := e.fitted ∧ Fits e .serviceInit launched } := by
    refine ⟨⟨rfl, h.starts_eq, h.stops_eq, h.finalized_eq, h.freed_eq, rfl, ?_, ?_, ?_⟩,
      ⟨h.shutdown_eq, by simp, fun _ => ⟨h.fitted, hfits⟩⟩⟩
    · simp only [Memory.initReqs, asyncExecMaxReqs]
      omega
    · exact Nat.min_le_left _ _
    · simp [Lifecycle.track, h.outstanding_eq]
  apply (startExecutor_live hlive).mono
  intro running m e hrunning
  cases running with
  | false => exact hrunning
  | true =>
    simp only [Bool.not_true, Bool.false_eq_true, if_false, Code.meets_bind]
    apply (loop_live n hrunning).mono
    rintro (_ | _ | tc) m' e' hr
    · trivial
    · obtain ⟨hheld, hended⟩ := hr none rfl
      exact stop_done hheld hended
    · obtain ⟨hheld, rfl, hs⟩ := hr (some tc) rfl
      refine hheld.dropped ?_ hs
      split <;> simp

-- freeing changes nothing but whether a lent buffer was freed
lemma freePayloads_freed (is : List ℕ) :
    (freePayloads is).Meets lifecycleWorld anyCall (fun _ _ e' => ∃ p, (p ↔ e.fitted) ∧
      e' = { e with
        freedLent := e.freedLent || is.any fun i => e.outstanding.any fun x => x.2 = i
        fitted := p }) m e := by
  induction is generalizing e with
  | nil => exact ⟨e.fitted, Iff.rfl, by simp⟩
  | cons i is ih =>
    simp only [freePayloads, Code.meets_bind]
    apply ask_track
    intro _
    apply ih.mono
    rintro _ m' e' ⟨p, hp, rfl⟩
    refine ⟨p, hp.trans ?_, ?_⟩
    · simp [Fits, ExecCall.Shuts, ExecCall.Starves]
    · simp [Lifecycle.track, Bool.or_assoc]

lemma freed_eq_false {outstanding : List (Req × ℕ)} (h : ∀ x ∈ outstanding, x.2 < count) :
    ((List.range count).any fun i => outstanding.any fun x => x.2 = i) = false ↔
      outstanding = [] := by
  cases outstanding with
  | nil => simp
  | cons x xs =>
    have hx := h x List.mem_cons_self
    simp only [reduceCtorEq, iff_false, Bool.not_eq_false, List.any_eq_true, List.mem_range]
    exact ⟨x.2, hx, x, List.mem_cons_self, by simp⟩

lemma freeBuffers_released {rc : TclCode} (hreleased : ∀ p, (p ↔ e.fitted) →
      (Released { e with
        freedLent := e.freedLent ||
          (List.range count).any fun i => e.outstanding.any fun x => x.2 = i
        fitted := p } rc ↔ p)) :
    (freeBuffers count rc).Meets lifecycleWorld anyCall (fun r _ e' =>
      ∀ rc, r = some rc → (Released e' rc ↔ e'.fitted)) m e := by
  simp only [freeBuffers, Code.meets_bind]
  apply (freePayloads_freed (List.range count)).mono
  rintro _ m' e' ⟨p, hp, rfl⟩
  apply ask_track
  intro _ rc' hrc
  obtain rfl : rc = rc' := Option.some.inj hrc
  apply hreleased
  simp [Fits, ExecCall.Shuts, ExecCall.Starves, hp]

lemma Done.released (h : Done count e) (p : Prop) (hp : p ↔ e.fitted) :
    Released { e with
      freedLent := e.freedLent || (List.range count).any fun i => e.outstanding.any fun x => x.2 = i
      fitted := p } .ok ↔ p := by
  rw [hp, h.ended.fitted_iff, ← freed_eq_false h.lent_lt]
  constructor
  · intro hr
    simpa [h.freed_eq] using hr.freed
  · intro hfree
    exact ⟨h.starts_le, h.stops_eq, fun _ => h.finalized_eq, by simp only [h.freed_eq, hfree]; rfl,
      by simp [h.ended.shutdown_eq]⟩

lemma Dropped.released (h : Dropped count e) (p : Prop) (hp : p ↔ e.fitted) :
    Released { e with
      freedLent := e.freedLent || (List.range count).any fun i => e.outstanding.any fun x => x.2 = i
      fitted := p } .error ↔ p := by
  rw [hp, h.status.of_failed trivial, Lifecycle.Unheld, ← freed_eq_false h.lent_lt]
  constructor
  · intro hr
    refine ⟨?_, ?_, by simpa [h.freed_eq] using hr.freed⟩
    · by_contra hl
      have := hr.finalized_eq (by simpa using hl)
      simp [h.finalized_eq] at this
    · exact hr.stops_eq.symm.trans h.stops_eq
  · rintro ⟨hl, hstarts, hfree⟩
    exact ⟨h.starts_le, h.stops_eq.trans hstarts.symm, by simp [hl],
      by simp only [h.freed_eq, hfree]; rfl, by simp [h.status.shutdown_eq]⟩

lemma Untouched.released (h : Untouched e) : Released e .error ↔ e.fitted := by
  refine iff_of_true ⟨?_, ?_, ?_, h.freed_eq, ?_⟩ h.fitted
  · simp [h.starts_eq]
  · simp [h.starts_eq, h.stops_eq]
  · simp [h.launched_eq]
  · simp [h.shutdown_eq]

-- the calls made before the loop take nothing
lemma Untouched.refit (h : Untouched e) {p : Prop} (hp : p ↔ e.fitted) :
    Untouched { e with fitted := p } :=
  ⟨h.launched_eq, h.starts_eq, h.stops_eq, h.finalized_eq, h.outstanding_eq, h.shutdown_eq,
    h.freed_eq, hp.mpr h.fitted⟩

lemma mallocPayloads_untouched (size : ℤ) (is : List ℕ) (h : Untouched e) :
    (mallocPayloads size is).Meets lifecycleWorld anyCall (fun ok _ e' =>
      if ok then Untouched e' else e'.shutdown = false ∧ ¬ e'.fitted) m e := by
  induction is generalizing m e with
  | nil => exact h
  | cons i is ih =>
    simp only [mallocPayloads, Code.meets_bind]
    apply ask_track
    intro ok
    cases ok with
    | false => exact ⟨h.shutdown_eq, by simp [Fits, ExecCall.Starves]⟩
    | true =>
      apply ih
      apply h.refit
      simp [Fits, ExecCall.Shuts, ExecCall.Starves]

lemma runWithBuffers_released (size : ℤ) (n : ℕ) (h : Untouched e) :
    (runWithBuffers count size n).Meets lifecycleWorld anyCall (fun r _ e' =>
      ∀ rc, r = some rc → (Released e' rc ↔ e'.fitted)) m e := by
  simp only [runWithBuffers, Code.meets_bind]
  apply ask_track
  intro bufs
  have h : Untouched { e with fitted := e.fitted ∧ Fits e (.mallocBufs count) bufs } :=
    h.refit (by simp [Fits, ExecCall.Shuts, ExecCall.Starves])
  cases bufs with
  | false =>
    intro rc hrc
    obtain rfl : .error = rc := Option.some.inj hrc
    exact h.released
  | true =>
    simp only [Bool.not_true, Bool.false_eq_true, if_false, Code.meets_bind]
    apply (mallocPayloads_untouched size (List.range count) h).mono
    intro payloads m e hp
    cases payloads with
    | false =>
      apply freeBuffers_released
      intro p hpf
      rw [hpf]
      exact iff_of_false (fun hr => by simpa [hp.1] using hr.rc_eq) hp.2
    | true =>
      simp only [Bool.not_true, Bool.false_eq_true, if_false, Code.meets_bind]
      apply (asyncWorkerLoop_status n hp).mono
      rintro (_ | _ | _ | _) m e hs
      · simp
      · exact freeBuffers_released hs.released
      · exact freeBuffers_released hs.released
      · exact hs.elim

lemma command_released (args : LoopArgs) (n : ℕ) (m : Memory ℕ) (h : Untouched e) :
    (asyncExecWorkerLoopCmd args n).Meets lifecycleWorld anyCall (fun r _ e' =>
      ∀ rc, r = some rc → (Released e' rc ↔ e'.fitted)) m e := by
  have herror : ∀ {e : Lifecycle}, Untouched e → ∀ m : Memory ℕ,
      (pure (some .error) : Worker ℕ (Option TclCode)).Meets lifecycleWorld anyCall (fun r _ e' =>
        ∀ rc, r = some rc → (Released e' rc ↔ e'.fitted)) m e := by
    intro e h m rc hrc
    obtain rfl : .error = rc := Option.some.inj hrc
    exact h.released
  simp only [asyncExecWorkerLoopCmd]
  split
  · exact herror h m
  split
  · exact herror h m
  simp only [Code.meets_bind]
  apply ask_track
  rintro ⟨ec, maxSlots⟩
  have h : Untouched { e with fitted := e.fitted ∧ Fits e .maxSlots (ec, maxSlots) } :=
    h.refit (by simp [Fits, ExecCall.Shuts, ExecCall.Starves])
  split
  · exact herror h m
  · exact runWithBuffers_released _ n h

/-- A run of the command that exits has released everything it took, and returned the right code,
if and only if every answer it got met `Fits`. -/
theorem command_releases_iff_fits (args : LoopArgs) (n : ℕ) (m₀ m : Memory ℕ) (e : Lifecycle)
    (rc : TclCode) (hrun : Prog.Run lifecycleWorld
      (asyncExecWorkerLoopCmd args n m₀, Lifecycle.start) (.done (some rc, m), e)) :
    Released e rc ↔ e.fitted :=
  (command_released args n m₀ ⟨rfl, rfl, rfl, rfl, rfl, rfl, rfl, trivial⟩).returned hrun rc rfl

def oneBufferArgs : LoopArgs := ⟨3, true, some 1, none, 1024⟩
def unstartedMemory : Memory ℕ := ⟨id, fun _ => none, 0, 0, 0, 0, false⟩

-- an executor with one slot is started, its first request is answered with shutdown
theorem command_releases_iff_fits_shutdown :
    ∃ m e, Prog.Run lifecycleWorld
        (asyncExecWorkerLoopCmd oneBufferArgs 1 unstartedMemory, Lifecycle.start)
        (.done (some .ok, m), e) ∧ (Released e .ok ↔ e.fitted) := by
  have hrun : ∃ m e, Prog.Run lifecycleWorld
      (asyncExecWorkerLoopCmd oneBufferArgs 1 unstartedMemory, Lifecycle.start)
      (.done (some .ok, m), e) := by
    apply Exists.intro
    apply Exists.intro
    apply Prog.Run.answer (r := (ExecCode.success, 1)) rfl
    apply Prog.Run.answer (r := true) rfl
    apply Prog.Run.answer (r := true) rfl
    apply Prog.Run.answer (r := false) rfl
    apply Prog.Run.answer (r := ExecCode.success) rfl
    apply Prog.Run.answer (r := (ExecCode.success, ⟨0, 1⟩)) rfl
    apply Prog.Run.answer (r := (AdlbCode.success, [0])) rfl
    apply Prog.Run.answer (r := (WaitCode.shutdown, 0)) rfl
    apply Prog.Run.answer (r := ExecCode.success) rfl
    apply Prog.Run.answer (r := ()) rfl
    apply Prog.Run.answer (r := ()) rfl
    apply Prog.Run.answer (r := ()) rfl
    exact .refl
  obtain ⟨m, e, hrun⟩ := hrun
  exact ⟨m, e, hrun, command_releases_iff_fits _ _ _ _ _ _ hrun⟩

-- the first task fails: the executor this call started is not stopped
theorem failed_task_not_released :
    ¬ ∀ (args : LoopArgs) (n : ℕ) (m₀ m : Memory ℕ) (e : Lifecycle) (rc : TclCode),
      Prog.Run lifecycleWorld (asyncExecWorkerLoopCmd args n m₀, Lifecycle.start)
        (.done (some rc, m), e) → Released e rc := by
  intro hall
  have hrun : ∃ m e, Prog.Run lifecycleWorld
      (asyncExecWorkerLoopCmd oneBufferArgs 1 unstartedMemory, Lifecycle.start)
      (.done (some .error, m), e) ∧ e.starts = 1 ∧ e.stops = 0 := by
    apply Exists.intro
    apply Exists.intro
    apply And.intro
    · apply Prog.Run.answer (r := (ExecCode.success, 1)) rfl
      apply Prog.Run.answer (r := true) rfl
      apply Prog.Run.answer (r := true) rfl
      apply Prog.Run.answer (r := false) rfl
      apply Prog.Run.answer (r := ExecCode.success) rfl
      apply Prog.Run.answer (r := (ExecCode.success, ⟨0, 1⟩)) rfl
      apply Prog.Run.answer (r := (AdlbCode.success, [0])) rfl
      apply Prog.Run.answer (r := (WaitCode.success, 5)) rfl
      apply Prog.Run.answer (r := TclCode.error) rfl
      apply Prog.Run.answer (r := ()) rfl
      apply Prog.Run.answer (r := ()) rfl
      exact .refl
    · exact ⟨rfl, rfl⟩
  obtain ⟨m, e, hrun, hstarts, hstops⟩ := hrun
  have hreleased := hall _ _ _ _ _ _ hrun
  have := hreleased.stops_eq
  omega

end Turbine.Async
