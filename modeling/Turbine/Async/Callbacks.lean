import Mathlib
import Turbine.Async.Executors

/-! What the worker does for the tasks an executor reports: which callbacks are evaluated, which
references on them are released, and what becomes of their variables. -/

namespace Turbine.Async

open Turbine.Library.Programs

def TaskCallbacks.refs (callbacks : TaskCallbacks) : Multiset Obj :=
  ↑(callbacks.success.toList ++ callbacks.failure.toList)

def CompletedTask.varList (task : CompletedTask) : List CallbackVar := task.vars.getD []

/-- The callbacks evaluated, the variables unset, and the names and arrays of variables freed. -/
structure Marks where
  evaluated : List Obj
  unset : List String
  freedNames : List String
  freedArrays : ℕ

def Marks.add (k k' : Marks) : Marks :=
  ⟨k.evaluated ++ k'.evaluated, k.unset ++ k'.unset, k.freedNames ++ k'.freedNames,
    k.freedArrays + k'.freedArrays⟩

def Marks.none : Marks := ⟨[], [], [], 0⟩

-- what is to be done for one task
def CompletedTask.marks (task : CompletedTask) : Marks where
  evaluated := task.cb.toList
  unset := if task.cb.isSome then task.varList.map (·.name) else []
  freedNames := (task.varList.filter (·.freeName)).map (·.name)
  freedArrays := if task.vars.isSome then 1 else 0

def marksOf : List CompletedTask → Marks
  | [] => Marks.none
  | task :: tasks => task.marks.add (marksOf tasks)

/-- The executor, the callbacks of the tasks it has launched and not reported, the references
that launches hold on callback objects, and what was reported and done since the worker began. -/
structure CallbackLog (S : Type) where
  exec : S
  pending : Multiset TaskCallbacks
  refs : Obj → ℤ
  reported : List CompletedTask
  marks : Marks
  failed : Bool

variable {S Buf : Type} (X : Executor S)

def heldRefs (pending : Multiset TaskCallbacks) (o : Obj) : ℤ :=
  (pending.bind TaskCallbacks.refs).count o

def CallbackLog.launch (e : CallbackLog S) (callbacks : TaskCallbacks) (launched : Bool) (s : S) :
    CallbackLog S :=
  if launched then
    { e with exec := s
             pending := callbacks ::ₘ e.pending
             refs := fun o => e.refs o + callbacks.refs.count o }
  else { e with exec := s }

def launches (e e' : CallbackLog S) : Prop :=
  e' = e ∨ ∃ callbacks launched s, X.executes e.exec callbacks launched s ∧
    e' = e.launch callbacks launched s

def CallbackLog.report (e : CallbackLog S) (tasks : List CompletedTask) (s : S) : CallbackLog S :=
  { e with exec := s
           pending := X.active s
           reported := e.reported ++ tasks }

def callbackReply (e : CallbackLog S) : (c : ExecCall Buf) → c.Ret → CallbackLog S → Prop
  -- an executor that was just started has launched nothing
  | .start, ec, e' => ∃ s, (ec = .success → X.active s = 0) ∧ e' = { e with exec := s }
  | .evalTask _ _, _, e' => launches X e e'
  | .evalCallback cb, rc, e' =>
    launches X { e with marks := e.marks.add { Marks.none with evaluated := [cb] }
                        failed := e.failed || rc != .ok } e'
  | .poll size, r, e' | .wait size, r, e' =>
    if r.1 = .success then ∃ s, X.reports e.exec size r.2 s ∧ e' = e.report X r.2 s
    else ∃ s, e' = { e with exec := s }
  | .setVar _ _, set, e' => e' = { e with failed := e.failed || !set }
  | .unsetVar name, rc, e' =>
    if rc = .ok then e' = { e with marks := e.marks.add { Marks.none with unset := [name] } }
    else e' = { e with failed := true }
  | .freeName name, _, e' =>
    e' = { e with marks := e.marks.add { Marks.none with freedNames := [name] } }
  | .freeVars, _, e' =>
    e' = { e with marks := e.marks.add { Marks.none with freedArrays := 1 } }
  -- an executor that is stopped may release the references of the tasks it has left
  | .stop, _, e' => ∃ s, e' = { e with exec := s } ∨
    e' = { e with exec := s
                  pending := 0
                  refs := fun o => e.refs o - heldRefs e.pending o }
  | .decrRef o, _, e' => e' = { e with refs := Function.update e.refs o (e.refs o - 1) }
  | _, _, e' => e' = e

def callbackWorld : World (CallbackLog S) (Memory Buf × ExecCall Buf) fun mc => mc.2.Ret where
  reply e mc r e' := callbackReply X e mc.2 r e'

/-- For every reported task the selected callback was evaluated once and the variables were unset
and freed, and only tasks that were not reported still hold references on their callbacks. -/
structure Settled (e : CallbackLog S) : Prop where
  marks_eq : e.marks = marksOf e.reported
  refs_eq : ∀ o, e.refs o = heldRefs e.pending o

/-- Where a run begins: nothing reported, and references held for the tasks launched so far, of
which there are none if the executor is not started. -/
structure Opened (started : Bool) (e : CallbackLog S) : Prop where
  pending_eq : e.pending = X.active e.exec
  unstarted : started = false → e.pending = 0
  refs_eq : ∀ o, e.refs o = heldRefs e.pending o
  reported_eq : e.reported = []
  marks_eq : e.marks = Marks.none
  failed_eq : e.failed = false

/-! ### Marks and references -/

lemma Marks.add_assoc (a b c : Marks) : (a.add b).add c = a.add (b.add c) := by
  simp [Marks.add, Nat.add_assoc]

@[simp] lemma Marks.none_add (k : Marks) : Marks.none.add k = k := by
  simp [Marks.add, Marks.none]

@[simp] lemma Marks.add_none (k : Marks) : k.add Marks.none = k := by
  simp [Marks.add, Marks.none]

lemma marksOf_append (done tasks : List CompletedTask) :
    marksOf (done ++ tasks) = (marksOf done).add (marksOf tasks) := by
  induction done with
  | nil => simp [marksOf]
  | cons task done ih => simp [marksOf, ih, Marks.add_assoc]

-- references held beyond those of the tasks that are not reported
def CallbackLog.excess (e : CallbackLog S) (o : Obj) : ℤ := e.refs o - heldRefs e.pending o

/-- A stretch of the run that reports nothing: launches may come, and each holds its references. -/
structure Kept (e e' : CallbackLog S) : Prop where
  pending_eq : e'.pending = X.active e'.exec
  reported_eq : e'.reported = e.reported
  excess_eq : ∀ o, e'.excess o = e.excess o
  failed_of : e.failed = true → e'.failed = true

-- the loop asks for the slots only while everything is settled
def settledAtSlots (e : CallbackLog S) (mc : Memory Buf × ExecCall Buf) : Prop :=
  mc.2 = .slots → Settled e

variable {X} {m : Memory Buf} {e : CallbackLog S}

lemma Kept.trans {e e' e'' : CallbackLog S} (h : Kept X e e') (h' : Kept X e' e'') :
    Kept X e e'' :=
  ⟨h'.pending_eq, h'.reported_eq.trans h.reported_eq,
    fun o => (h'.excess_eq o).trans (h.excess_eq o), fun hf => h'.failed_of (h.failed_of hf)⟩

lemma Kept.refl (hp : e.pending = X.active e.exec) : Kept X e e := ⟨hp, rfl, fun _ => rfl, id⟩

lemma kept_of_launches {e e' : CallbackLog S} (hp : e.pending = X.active e.exec)
    (h : launches X e e') : Kept X e e' ∧ e'.marks = e.marks ∧ e'.failed = e.failed := by
  rcases h with rfl | ⟨callbacks, launched, s, hexec, rfl⟩
  · exact ⟨.refl hp, rfl, rfl⟩
  · have hactive := X.active_of_executes hexec
    cases launched with
    | false => exact ⟨⟨hp.trans hactive.symm, rfl, fun _ => rfl, id⟩, rfl, rfl⟩
    | true =>
      refine ⟨⟨?_, rfl, ?_, id⟩, rfl, rfl⟩
      · simp only [CallbackLog.launch, if_true] at hactive ⊢
        rw [hactive, hp]
      · intro o
        simp only [CallbackLog.launch, if_true, CallbackLog.excess, heldRefs, Multiset.cons_bind,
          Multiset.count_add]
        push_cast
        omega

/-! ### The callback of one task -/

lemma setVars_kept (vars : List CallbackVar) (hp : e.pending = X.active e.exec) :
    (setVars vars).Meets (callbackWorld X) settledAtSlots (fun set _ e' =>
      Kept X e e' ∧ e'.marks = e.marks ∧ e'.failed = (e.failed || !set)) m e := by
  induction vars generalizing m e with
  | nil => exact ⟨.refl hp, rfl, by simp⟩
  | cons var vars ih =>
    simp only [setVars, Code.meets_bind, Code.meets_ask]
    refine ⟨(fun h => by cases h), ?_⟩
    rintro set e' rfl
    cases set with
    | false => exact ⟨⟨hp, rfl, fun _ => rfl, by simp⟩, rfl, rfl⟩
    | true =>
      have hsame : { e with failed := e.failed || !true } = e := by simp
      rw [hsame]
      exact ih hp

lemma unsetVar_kept (evaluated : Bool) (var : CallbackVar) (hp : e.pending = X.active e.exec) :
    (unsetVar evaluated var).Meets (callbackWorld X) settledAtSlots (fun rc _ e' =>
      Kept X e e' ∧
      (rc = .ok → e'.failed = e.failed ∧ e'.marks =
        e.marks.add { Marks.none with unset := if evaluated then [var.name] else [] }) ∧
      (rc ≠ .ok → e'.failed = true ∧ evaluated = true)) m e := by
  cases evaluated with
  | false => exact ⟨.refl hp, fun _ => ⟨rfl, (Marks.add_none _).symm⟩, fun h => absurd rfl h⟩
  | true =>
    refine ⟨(fun h => by cases h), ?_⟩
    intro rc e' hreply
    simp only [callbackWorld, callbackReply] at hreply
    split at hreply
    · rename_i hrc
      subst hreply
      exact ⟨⟨hp, rfl, fun _ => rfl, id⟩, fun _ => ⟨rfl, rfl⟩, fun h => absurd hrc h⟩
    · rename_i hrc
      subst hreply
      exact ⟨⟨hp, rfl, fun _ => rfl, fun _ => rfl⟩, fun h => absurd h hrc, fun _ => ⟨rfl, rfl⟩⟩

lemma freeVarName_kept (var : CallbackVar) (hp : e.pending = X.active e.exec) :
    (freeVarName var).Meets (callbackWorld X) settledAtSlots (fun _ _ e' =>
      Kept X e e' ∧ e'.failed = e.failed ∧ e'.marks =
        e.marks.add { Marks.none with freedNames := if var.freeName then [var.name] else [] })
      m e := by
  simp only [freeVarName]
  split
  · refine ⟨(fun h => by cases h), ?_⟩
    rintro _ e' rfl
    exact ⟨⟨hp, rfl, fun _ => rfl, id⟩, rfl, rfl⟩
  · exact ⟨.refl hp, rfl, (Marks.add_none _).symm⟩

-- the marks that the loop over the variables leaves
def varMarks (evaluated : Bool) (vars : List CallbackVar) : Marks :=
  ⟨[], if evaluated then vars.map (·.name) else [], (vars.filter (·.freeName)).map (·.name), 0⟩

lemma varMarks_cons (evaluated : Bool) (var : CallbackVar) (vars : List CallbackVar) :
    varMarks evaluated (var :: vars) =
      (({ Marks.none with unset := if evaluated then [var.name] else [] }).add
        { Marks.none with freedNames := if var.freeName then [var.name] else [] }).add
        (varMarks evaluated vars) := by
  cases evaluated <;> cases hf : var.freeName <;> simp [varMarks, Marks.add, Marks.none, hf]

lemma unsetVars_kept (evaluated : Bool) (vars : List CallbackVar)
    (hp : e.pending = X.active e.exec) :
    (unsetVars evaluated vars).Meets (callbackWorld X) settledAtSlots (fun unset _ e' =>
      Kept X e e' ∧
      (unset = true → e'.failed = e.failed ∧ e'.marks = e.marks.add (varMarks evaluated vars)) ∧
      (unset = false → e'.failed = true ∧ evaluated = true)) m e := by
  induction vars generalizing m e with
  | nil =>
    have hnone : varMarks evaluated [] = Marks.none := by cases evaluated <;> rfl
    exact ⟨.refl hp, fun _ => ⟨rfl, by simp [hnone]⟩, (fun h => by cases h)⟩
  | cons var vars ih =>
    simp only [unsetVars, Code.meets_bind]
    apply (unsetVar_kept evaluated var hp).mono
    rintro rc m₁ e₁ ⟨hk₁, hok, hbad⟩
    split
    · rename_i hrc
      exact ⟨hk₁, (fun h => by cases h), fun _ => hbad hrc⟩
    · rename_i hrc
      obtain ⟨hf₁, hm₁⟩ := hok (not_not.mp hrc)
      simp only [Code.meets_bind]
      apply (freeVarName_kept var hk₁.pending_eq).mono
      rintro _ m₂ e₂ ⟨hk₂, hf₂, hm₂⟩
      apply (ih hk₂.pending_eq).mono
      rintro unset m₃ e₃ ⟨hk₃, hok₃, hbad₃⟩
      refine ⟨(hk₁.trans hk₂).trans hk₃, ?_, hbad₃⟩
      intro hunset
      obtain ⟨hf₃, hm₃⟩ := hok₃ hunset
      refine ⟨hf₃.trans (hf₂.trans hf₁), ?_⟩
      rw [hm₃, hm₂, hm₁, varMarks_cons]
      simp only [Marks.add_assoc]

lemma cleanup_kept (task : CompletedTask) (evaluated : Bool) (tc : TurbineCode)
    (hp : e.pending = X.active e.exec) :
    (cleanup task evaluated tc).Meets (callbackWorld X) settledAtSlots (fun tc' _ e' =>
      Kept X e e' ∧
      (tc' = .success → tc = .success ∧ e'.failed = e.failed ∧ e'.marks =
        (e.marks.add (varMarks evaluated task.varList)).add
          { Marks.none with freedArrays := if task.vars.isSome then 1 else 0 }) ∧
      (tc' ≠ .success → tc ≠ .success ∨ e'.failed = true ∧ evaluated = true)) m e := by
  simp only [cleanup, Code.meets_bind]
  apply (unsetVars_kept evaluated _ hp).mono
  rintro unset m₁ e₁ ⟨hk₁, hok, hbad⟩
  cases unset with
  | false => exact ⟨hk₁, (fun h => by cases h), fun _ => Or.inr (hbad rfl)⟩
  | true =>
    obtain ⟨hf₁, hm₁⟩ := hok rfl
    simp only [Bool.not_true, Bool.false_eq_true, if_false, Code.meets_bind, freeVarsOf]
    split
    · refine ⟨(fun h => by cases h), ?_⟩
      rintro _ e₂ rfl
      refine ⟨hk₁.trans ⟨hk₁.pending_eq, rfl, fun _ => rfl, id⟩, ?_, Or.inl⟩
      intro htc
      exact ⟨htc, hf₁, congrArg (Marks.add · _) hm₁⟩
    · refine ⟨hk₁, ?_, Or.inl⟩
      intro htc
      exact ⟨htc, hf₁, hm₁.trans (Marks.add_none _).symm⟩

lemma runCallback_kept (task : CompletedTask) (hp : e.pending = X.active e.exec) :
    (runCallback task task.cb).Meets (callbackWorld X) settledAtSlots (fun tc _ e' =>
      Kept X e e' ∧
      (tc = .success → e'.failed = e.failed ∧ e'.marks = e.marks.add task.marks) ∧
      (tc ≠ .success → e'.failed = true ∧ task.cb.isSome)) m e := by
  cases hcb : task.cb with
  | none =>
    apply (cleanup_kept task false .success hp).mono
    rintro tc m₁ e₁ ⟨hk, hok, hbad⟩
    refine ⟨hk, ?_, ?_⟩
    · intro htc
      obtain ⟨_, hf, hm⟩ := hok htc
      refine ⟨hf, hm.trans ?_⟩
      simp [CompletedTask.marks, hcb, varMarks, Marks.add, Marks.none]
    · intro htc
      simpa using hbad htc
  | some cb =>
    simp only [runCallback, Code.meets_bind]
    apply (setVars_kept _ hp).mono
    rintro set m₁ e₁ ⟨hk₁, hm₁, hf₁⟩
    cases set with
    | false => exact ⟨hk₁, (fun h => by cases h), fun _ => ⟨by simpa using hf₁, rfl⟩⟩
    | true =>
      simp only [Bool.not_true, Bool.or_false] at hf₁
      simp only [Bool.not_true, Bool.false_eq_true, if_false, Code.meets_bind, Code.meets_ask]
      refine ⟨(fun h => by cases h), ?_⟩
      intro rc e₂ hreply
      let e₁' : CallbackLog S :=
        { e₁ with marks := e₁.marks.add { Marks.none with evaluated := [cb] }
                  failed := e₁.failed || rc != .ok }
      have hlaunch : launches X e₁' e₂ := hreply
      obtain ⟨hk₂, hm₂, hf₂⟩ := kept_of_launches (e := e₁') hk₁.pending_eq hlaunch
      simp only [e₁', hm₁, hf₁] at hm₂ hf₂
      have hk : Kept X e e₂ :=
        ⟨hk₂.pending_eq, hk₂.reported_eq.trans hk₁.reported_eq,
          fun o => (hk₂.excess_eq o).trans (hk₁.excess_eq o), fun hf => by simp [hf₂, hf]⟩
      split
      · rename_i hrc
        apply (cleanup_kept task true .errorExternal hk.pending_eq).mono
        rintro tc m₃ e₃ ⟨hk₃, hok, _⟩
        have hfailed : e₂.failed = true := by simp [hf₂, hrc]
        refine ⟨hk.trans hk₃, ?_, fun _ => ⟨hk₃.failed_of hfailed, rfl⟩⟩
        intro htc
        cases (hok htc).1
      · rename_i hrc
        obtain rfl : rc = .ok := not_not.mp hrc
        apply (cleanup_kept task true .success hk.pending_eq).mono
        rintro tc m₃ e₃ ⟨hk₃, hok, hbad⟩
        refine ⟨hk.trans hk₃, ?_, ?_⟩
        · intro htc
          obtain ⟨_, hf₃, hm₃⟩ := hok htc
          refine ⟨hf₃.trans (by simpa using hf₂), hm₃.trans ?_⟩
          rw [hm₂]
          simp [CompletedTask.marks, hcb, varMarks, Marks.add, Marks.none]
        · intro htc
          exact ⟨((hbad htc).resolve_left fun h => h rfl).1, rfl⟩

/-! ### A batch of reported tasks -/

def refsOf (tasks : List CompletedTask) : Multiset Obj :=
  (↑(tasks.map (·.callbacks)) : Multiset TaskCallbacks).bind TaskCallbacks.refs

lemma refsOf_cons (task : CompletedTask) (tasks : List CompletedTask) :
    refsOf (task :: tasks) = task.callbacks.refs + refsOf tasks := by
  simp [refsOf, ← Multiset.cons_coe]

-- the selected callback is one of those the launch took references on
lemma count_refs_pos {task : CompletedTask} {cb : Obj} (h : task.cb = some cb) :
    0 < task.callbacks.refs.count cb := by
  simp only [CompletedTask.cb] at h
  rw [Multiset.count_pos]
  split at h <;> simp [TaskCallbacks.refs, h]

variable (X) in
/-- Everything is settled and no callback has failed. -/
structure Sound (e : CallbackLog S) : Prop where
  settled : Settled e
  pending_eq : e.pending = X.active e.exec
  failed_eq : e.failed = false

lemma Sound.of_kept {e' : CallbackLog S} (h : Sound X e) (hk : Kept X e e')
    (hm : e'.marks = e.marks) (hf : e'.failed = e.failed) : Sound X e' := by
  refine ⟨⟨?_, ?_⟩, hk.pending_eq, hf.trans h.failed_eq⟩
  · rw [hm, hk.reported_eq]
    exact h.settled.marks_eq
  · intro o
    have hexcess := hk.excess_eq o
    have hrefs := h.settled.refs_eq o
    simp only [CallbackLog.excess] at hexcess
    omega

variable (X) in
/-- In a batch, `done` is settled and `tasks` still hold their references. -/
structure Midway (done tasks : List CompletedTask) (e : CallbackLog S) : Prop where
  pending_eq : e.pending = X.active e.exec
  reported_eq : e.reported = done ++ tasks
  marks_eq : e.marks = marksOf done
  excess_eq : ∀ o, e.excess o = (refsOf tasks).count o
  failed_eq : e.failed = false

lemma decrRefCount_refs (o : Option Obj) :
    (decrRefCount o).Meets (callbackWorld X) settledAtSlots (fun _ _ e' =>
      e' = { e with refs := fun o' => e.refs o' - o.toList.count o' }) m e := by
  cases o with
  | none => simp [decrRefCount]
  | some o =>
    refine ⟨(fun h => by cases h), ?_⟩
    rintro _ e' rfl
    congr 1
    funext o'
    by_cases ho : o' = o
    · simp [ho]
    · have hne : o ≠ o' := fun he => ho he.symm
      simp [Function.update_of_ne ho, hne]

lemma runCallbacks_settled {done tasks : List CompletedTask} (h : Midway X done tasks e) :
    (runCallbacks tasks).Meets (callbackWorld X) settledAtSlots (fun ec _ e' =>
      (ec = .success → Sound X e') ∧ (ec ≠ .success → e'.failed = true ∧ ¬ Settled e')) m e := by
  induction tasks generalizing done m e with
  | nil =>
    refine ⟨fun _ => ⟨⟨?_, ?_⟩, h.pending_eq, h.failed_eq⟩, fun hne => absurd rfl hne⟩
    · simpa [h.reported_eq] using h.marks_eq
    · intro o
      have hexcess := h.excess_eq o
      simp only [CallbackLog.excess, refsOf, List.map_nil, Multiset.coe_nil, Multiset.zero_bind,
        Multiset.count_zero, Nat.cast_zero] at hexcess
      omega
  | cons task tasks ih =>
    simp only [runCallbacks, Code.meets_bind]
    apply (runCallback_kept task h.pending_eq).mono
    rintro tc m₁ e₁ ⟨hk, hok, hbad⟩
    split
    · rename_i htc
      obtain ⟨hf, hcb⟩ := hbad htc
      obtain ⟨cb, hcb⟩ := Option.isSome_iff_exists.mp hcb
      refine ⟨fun hec => absurd hec (by simp), fun _ => ⟨hf, ?_⟩⟩
      -- the references of this task and of the rest of the batch are still held
      intro hsettled
      have hexcess := (hk.excess_eq cb).trans (h.excess_eq cb)
      have hpos := count_refs_pos hcb
      have hrefs := hsettled.refs_eq cb
      rw [refsOf_cons, Multiset.count_add] at hexcess
      simp only [CallbackLog.excess] at hexcess
      omega
    · rename_i htc
      obtain ⟨hf, hm⟩ := hok (not_not.mp htc)
      simp only [Code.meets_bind]
      apply (decrRefCount_refs task.callbacks.success).mono
      rintro _ m₂ e₂ rfl
      apply (decrRefCount_refs task.callbacks.failure).mono
      rintro _ m₃ e₃ rfl
      refine ih (?_ : Midway X (done ++ [task]) tasks _)
      refine ⟨hk.pending_eq, ?_, ?_, ?_, hf.trans h.failed_eq⟩
      · simpa using hk.reported_eq.trans h.reported_eq
      · simp only [hm, h.marks_eq, marksOf_append, marksOf, Marks.add_none]
      · intro o
        have hexcess := (hk.excess_eq o).trans (h.excess_eq o)
        rw [refsOf_cons, Multiset.count_add, TaskCallbacks.refs, Multiset.coe_count,
          List.count_append] at hexcess
        simp only [CallbackLog.excess] at hexcess ⊢
        push_cast at hexcess
        omega

-- settled exactly when no callback has failed
def Reckoned (e : CallbackLog S) : Prop := Settled e ↔ e.failed = false

lemma Sound.reckoned (h : Sound X e) : Reckoned e := iff_of_true h.settled h.failed_eq

lemma checkTasks_settled (poll : Bool) (h : Sound X e) :
    (checkTasks poll).Meets (callbackWorld X) settledAtSlots (fun ec _ e' =>
      (ec = .success → Sound X e') ∧ (ec ≠ .success → Reckoned e')) m e := by
  have hreport : ∀ {size m e'} {r : ExecCode × List CompletedTask},
      (if r.1 = .success then ∃ s, X.reports e.exec size r.2 s ∧ e' = e.report X r.2 s
        else ∃ s, e' = { e with exec := s }) →
      (if r.1 ≠ .success then pure r.1 else runCallbacks r.2 : Worker Buf ExecCode).Meets
        (callbackWorld X) settledAtSlots (fun ec _ e' =>
          (ec = .success → Sound X e') ∧ (ec ≠ .success → Reckoned e')) m e' := by
    rintro size m e' ⟨ec, tasks⟩ hr
    simp only at hr ⊢
    split at hr
    · rename_i hec
      obtain ⟨s, hs, rfl⟩ := hr
      have hactive := X.active_of_reports hs
      rw [if_neg (not_not.mpr hec)]
      have hmid : Midway X e.reported tasks (e.report X tasks s) := by
        refine ⟨rfl, rfl, h.settled.marks_eq, ?_, h.failed_eq⟩
        intro o
        have hrefs := h.settled.refs_eq o
        rw [h.pending_eq, hactive, heldRefs, Multiset.add_bind, Multiset.count_add] at hrefs
        simp only [CallbackLog.excess, CallbackLog.report, hrefs, heldRefs, refsOf]
        push_cast
        omega
      apply (runCallbacks_settled hmid).mono
      rintro ec' m' e' ⟨hok, hbad⟩
      refine ⟨hok, fun hne => ?_⟩
      obtain ⟨hf, hnot⟩ := hbad hne
      exact iff_of_false hnot (by simp [hf])
    · rename_i hec
      obtain ⟨s, rfl⟩ := hr
      rw [if_pos hec]
      exact ⟨fun he => absurd he hec,
        fun _ => iff_of_true ⟨h.settled.marks_eq, h.settled.refs_eq⟩ h.failed_eq⟩
  simp only [checkTasks, Code.meets_bind, completedTasks]
  cases poll with
  | true => exact ⟨(fun h => by cases h), fun r e' hr => hreport hr⟩
  | false => exact ⟨(fun h => by cases h), fun r e' hr => hreport hr⟩

/-! ### The worker loop -/

variable (X) in
/-- Code that keeps everything settled, whatever it returns. -/
def KeepsSound {α : Type} (x : Worker Buf α) : Prop :=
  ∀ m e, Sound X e → x.Meets (callbackWorld X) settledAtSlots (fun _ _ e' => Sound X e') m e

lemma KeepsSound.pure {α : Type} (a : α) : KeepsSound X (pure a : Worker Buf α) :=
  fun _ _ h => h

lemma KeepsSound.get : KeepsSound X (get : Worker Buf (Memory Buf)) := fun _ _ h => h

lemma KeepsSound.modify (f : Memory Buf → Memory Buf) :
    KeepsSound X (modify f : Worker Buf PUnit) := fun _ _ h => h

lemma KeepsSound.bind {α β : Type} {x : Worker Buf α} {f : α → Worker Buf β}
    (hx : KeepsSound X x) (hf : ∀ a, KeepsSound X (f a)) : KeepsSound X (x >>= f) := by
  intro m e h
  rw [Code.meets_bind]
  exact (hx m e h).mono fun a m' e' h' => hf a m' e' h'

-- calls of ADLB and of the system, which do not touch the executor
lemma KeepsSound.ask {c : ExecCall Buf}
    (hreply : ∀ e r e', callbackReply X e c r e' → e' = e) : KeepsSound X (ask c) :=
  fun _ _ h => ⟨fun _ => h.settled, fun r _ hr => hreply _ r _ hr ▸ h⟩

lemma KeepsSound.tclEval (work : Buf) (cmdLen : ℤ) : KeepsSound X (tclEval work cmdLen) := by
  intro m e h
  refine ⟨(fun h => by cases h), ?_⟩
  intro rc e' hlaunch
  obtain ⟨hk, hm, hf⟩ := kept_of_launches h.pending_eq hlaunch
  exact h.of_kept hk hm hf

lemma issue_sound (extraReqs : ℤ) (poll : Bool) :
    KeepsSound X (issue extraReqs poll : Worker Buf Bool) := by
  simp only [issue]
  split
  · apply KeepsSound.get.bind
    intro m
    apply (KeepsSound.ask (c := .amget _ _ _) fun _ _ _ h => h).bind
    rintro ⟨ac, tmpReqs⟩
    dsimp only
    split
    · exact .pure _
    · exact (KeepsSound.modify _).bind fun _ => .pure _
  · exact .pure _

lemma checkRequest_sound (poll : Bool) :
    KeepsSound X (checkRequest poll : Worker Buf (AdlbCode × ℤ)) := by
  apply KeepsSound.get.bind
  intro m
  cases poll with
  | true => exact KeepsSound.ask (c := .agetTest _) fun _ _ _ h => h
  | false => exact (KeepsSound.ask (c := .agetWait _) fun _ _ _ h => h).bind fun _ => .pure _

lemma runRequest_sound (workLen : ℤ) (ac : AdlbCode) :
    KeepsSound X (runRequest workLen ac : Worker Buf (Option ExecCode)) := by
  cases ac with
  | error => exact .pure _
  | shutdown => exact .pure _
  | nothing => exact .pure _
  | success =>
    apply KeepsSound.get.bind
    intro m
    apply (KeepsSound.tclEval _ _).bind
    intro rc
    split
    · exact .pure _
    · exact (KeepsSound.modify _).bind fun _ => .pure _

lemma drain_sound (n : ℕ) (poll gotTasks : Bool) :
    KeepsSound X (drain n poll gotTasks : Worker Buf (ExecCode × Bool)) := by
  induction n generalizing poll gotTasks with
  | zero => exact .pure _
  | succ n ih =>
    apply (checkRequest_sound poll).bind
    rintro ⟨ac, workLen⟩
    apply (runRequest_sound workLen ac).bind
    rintro (_ | ec)
    · exact ih true true
    · exact .pure _

lemma getTasks_sound (poll gotTasks : Bool) (maxTasks : ℤ) :
    KeepsSound X (getTasks poll maxTasks gotTasks : Worker Buf (ExecCode × Bool)) := by
  apply KeepsSound.get.bind
  intro m
  apply (issue_sound _ poll).bind
  intro issued
  cases issued with
  | false => exact .pure _
  | true => exact KeepsSound.get.bind fun m => drain_sound _ _ _

lemma getTasksIfFree_sound (slots : SlotState) :
    KeepsSound X (getTasksIfFree slots : Worker Buf (ExecCode × Bool)) := by
  simp only [getTasksIfFree]
  split
  · exact getTasks_sound _ _ _
  · exact .pure _

lemma yieldUnless_sound (somethingHappened : Bool) :
    KeepsSound X (yieldUnless somethingHappened : Worker Buf Unit) := by
  cases somethingHappened with
  | false => exact KeepsSound.ask (c := .schedYield) fun _ _ _ h => h
  | true => exact .pure _

lemma checkTasksIfUsed_settled (slots : SlotState) (h : Sound X e) :
    (checkTasksIfUsed slots).Meets (callbackWorld X) settledAtSlots (fun ec _ e' =>
      (ec = .success → Sound X e') ∧ (ec ≠ .success → Reckoned e')) m e := by
  simp only [checkTasksIfUsed]
  split
  · exact checkTasks_settled _ h
  · exact ⟨fun _ => h, fun hne => absurd rfl hne⟩

lemma workerTurn_settled (h : Sound X e) :
    (workerTurn ()).Meets (callbackWorld X) settledAtSlots (fun r (_ : Memory Buf) e' =>
      Sum.elim (fun _ => Sound X e') (fun tc => (tc = none → Sound X e') ∧ Reckoned e') r) m e := by
  simp only [workerTurn, Code.meets_bind, Code.meets_ask]
  refine ⟨fun _ => h.settled, ?_⟩
  rintro ⟨ec, slots⟩ e rfl
  split
  · exact ⟨fun _ => h, h.reckoned⟩
  simp only [Code.meets_bind]
  apply (getTasksIfFree_sound slots m e h).mono
  rintro ⟨ec, somethingHappened⟩ m e h
  split
  · exact ⟨fun _ => h, h.reckoned⟩
  split
  · exact ⟨fun _ => h, h.reckoned⟩
  simp only [Code.meets_bind, Code.meets_ask]
  refine ⟨fun _ => h.settled, ?_⟩
  rintro ⟨ec, slots⟩ e rfl
  split
  · exact ⟨fun _ => h, h.reckoned⟩
  simp only [Code.meets_bind]
  apply (checkTasksIfUsed_settled slots h).mono
  rintro ec m e ⟨hok, hbad⟩
  split
  · rename_i hec
    exact ⟨(fun h => by cases h), hbad hec⟩
  · rename_i hec
    simp only [Code.meets_bind]
    exact yieldUnless_sound somethingHappened m e (hok (not_not.mp hec))

lemma Opened.settled {started : Bool} (h : Opened X started e) : Settled e :=
  ⟨by rw [h.marks_eq, h.reported_eq, marksOf], h.refs_eq⟩

lemma startExecutor_settled {started : Bool} (h : Opened X started e) :
    (startExecutor (!started)).Meets (callbackWorld X) settledAtSlots
      (fun running (_ : Memory Buf) e' =>
        (running = true → Sound X e') ∧ (running = false → Reckoned e')) m e := by
  cases started with
  | true => exact ⟨fun _ => ⟨h.settled, h.pending_eq, h.failed_eq⟩, (fun h => by cases h)⟩
  | false =>
    simp only [startExecutor, Bool.not_false, if_true, Code.meets_bind, Code.meets_ask]
    refine ⟨(fun h => by cases h), ?_⟩
    rintro ec e' ⟨s, hs, rfl⟩
    have hsettled : Settled { e with exec := s } := ⟨h.settled.marks_eq, h.settled.refs_eq⟩
    split
    · exact ⟨(fun h => by cases h), fun _ => iff_of_true hsettled h.failed_eq⟩
    · rename_i hec
      refine ⟨fun _ => ⟨hsettled, ?_, h.failed_eq⟩, (fun h => by cases h)⟩
      rw [hs (not_not.mp hec)]
      exact h.unstarted rfl

lemma stopExecutor_settled (mustStart : Bool) (hsettled : Settled e) (hf : e.failed = false) :
    (stopExecutor mustStart).Meets (callbackWorld X) settledAtSlots
      (fun _ (_ : Memory Buf) e' => Settled e' ∧ e'.failed = false) m e := by
  cases mustStart with
  | false => exact ⟨hsettled, hf⟩
  | true =>
    simp only [stopExecutor, if_true, Code.meets_bind, Code.meets_ask]
    refine ⟨(fun h => by cases h), ?_⟩
    rintro ec e' ⟨s, rfl | rfl⟩
    · exact ⟨⟨hsettled.marks_eq, hsettled.refs_eq⟩, hf⟩
    · refine ⟨⟨hsettled.marks_eq, fun o => ?_⟩, hf⟩
      have hrefs := hsettled.refs_eq o
      simp [heldRefs] at hrefs ⊢
      omega

lemma asyncWorkerLoop_settled (payloadBuffers : ℕ → Buf) (nbuffers n : ℕ)
    (h : Opened X m.started e) :
    (asyncWorkerLoop payloadBuffers nbuffers n).Meets (callbackWorld X) settledAtSlots
      (fun r _ e' => ∀ tc, r = some tc → Reckoned e') m e := by
  simp only [asyncWorkerLoop, turbineServiceInit]
  split
  · simp
  simp only [Code.meets_bind, Code.meets_ask, Code.meets_pure]
  refine ⟨(fun h => by cases h), ?_⟩
  rintro launched e rfl
  simp only [ne_eq, not_true, if_false, Code.meets_bind, Code.meets_modify, Code.meets_get]
  apply (startExecutor_settled h).mono
  rintro running m e ⟨hok, hbad⟩
  cases running with
  | false => exact fun _ _ => hbad rfl
  | true =>
    simp only [Bool.not_true, Bool.false_eq_true, if_false, Code.meets_bind]
    have hloop := Code.meets_loop (fun _ _ e => Sound X e)
      (fun _ m e h => workerTurn_settled (m := m) h) n (s := ()) (m := m) (hok rfl)
    apply hloop.mono
    rintro (_ | _ | tc) m e hr
    · simp
    · have hsound := (hr none rfl).1 rfl
      simp only [Code.meets_bind, Code.meets_ask]
      apply (stopExecutor_settled _ hsound.settled hsound.failed_eq).mono
      rintro _ m e ⟨hsettled, hf⟩
      refine ⟨(fun h => by cases h), ?_⟩
      rintro _ e rfl tc _
      exact iff_of_true hsettled hf
    · exact fun _ _ => (hr (some tc) rfl).2

def oneTask : NoopState :=
  ⟨1, 4, ⟨⟨some 7, none⟩, true⟩ :: List.replicate 3 ⟨⟨none, none⟩, false⟩⟩

def oneTaskReported : NoopState :=
  ⟨0, 4, ⟨⟨some 7, none⟩, false⟩ :: List.replicate 3 ⟨⟨none, none⟩, false⟩⟩

lemma oneTask_wf : oneTask.Wf := ⟨rfl, rfl⟩
lemma oneTaskReported_wf : oneTaskReported.Wf := ⟨rfl, rfl⟩

-- the no-op executor has launched one task, with a callback for its success
def oneTaskLog : CallbackLog { s : NoopState // s.Wf } where
  exec := ⟨oneTask, oneTask_wf⟩
  pending := {⟨some 7, none⟩}
  refs := heldRefs {⟨some 7, none⟩}
  reported := []
  marks := Marks.none
  failed := false

lemma oneTaskLog_opened : Opened noopExecutor true oneTaskLog :=
  ⟨rfl, (fun h => by cases h), fun _ => rfl, rfl, rfl, rfl⟩

def noopReport : List CompletedTask :=
  [⟨true, ⟨some 7, none⟩, some [⟨"noop_task_result", true, 9⟩]⟩]

lemma oneTask_reported : noopExecutor.reports ⟨oneTask, oneTask_wf⟩ completedBufferSize noopReport
    ⟨oneTaskReported, oneTaskReported_wf⟩ :=
  Or.inl ⟨true, false, 9, 9, [0], rfl⟩

def startedMemory : Memory ℕ := ⟨id, fun _ => none, 0, 0, 0, 0, true⟩

end Turbine.Async
