import Turbine.Library.Commands
import Turbine.Library.Comparators
import Turbine.Library.ListSyntax

/-! The worker that runs GeMTC tasks: commands are evaluated or pushed to the device, and tasks that
the device reports are ended. -/

namespace Turbine.Gemtc

open Turbine.Library Comparators

abbrev Text := List Char

inductive App
  | sleep
  | mdproxy
  deriving DecidableEq

structure WorkUnit where
  ruleId : ℕ
  command : Text
  deriving DecidableEq

/-- `gemtc_context` of a rule, without the pointers to its memory. -/
structure Context where
  cmd : App
  args : List Text
  result : Option Text
  sup : Text

/-- What the commands do, the procedures of the applications, and the device's memory. -/
structure Env where
  eval : Text → Bool
  starts : App → List Text → Option Text
  copies : App → Text → Bool
  result : App → Text → Text
  ends : App → List Text → Text → Text → Bool

/-- The variables of the worker, the tasks on the device, and what has happened so far. For every
`adlb::get` and `adlb::iget` that is whether it blocks, and how many tasks were on the device. -/
structure State where
  running : ℤ
  context : ℕ → Option Context
  device : List ℕ
  delivered : List WorkUnit
  evaluated : List ℕ
  pushed : List ℕ
  completed : List ℕ
  ended : List ℕ
  gets : List (Bool × ℕ)

inductive Stop
  | transformFailed (command : Text)
  | badList (text : Text)
  | notInDict (ruleId : ℕ)
  | app

abbrev Script (α : Type) := Cmd State Stop α

inductive Delivery
  | shutdown
  | nothing
  | work (u : WorkUnit)

/-- `string compare` -/
def stringCompare (a b : Text) : ℤ := threeWay a b

def gemtcLimit : ℤ := 1000000000

def appNamed (subcommand : Text) : Option App :=
  if subcommand = "sleep".toList then some .sleep
  else if subcommand = "mdproxy".toList then some .mdproxy
  else none

def subcommandArgs (command : Text) : Text := command.drop 6

section Procedures

variable (env : Env)

/-- `gemtc_put_sleep` and `gemtc_put_mdproxy`, which differ in what they copy to the device. -/
def gemtcPut (app : App) (ruleId : ℕ) (sup : Text) : Script Bool := fun s =>
  if env.copies app sup then
    (.ok true, { s with device := s.device ++ [ruleId], pushed := s.pushed ++ [ruleId] })
  else (.ok false, s)

def launch (app : App) (ruleId : ℕ) (command : Text) (args : List Text) : Script Unit :=
  match env.starts app args with
  | none => Cmd.throw .app
  | some sup => do
    Cmd.modify fun s =>
      { s with context := Function.update s.context ruleId (some ⟨app, args, none, sup⟩) }
    let done ← gemtcPut env app ruleId sup
    if done then pure () else Cmd.throw (.transformFailed command)

def gemtcDoWork (ruleId : ℕ) (command : Text) : Script Unit := do
  Cmd.modify fun s => { s with running := s.running + 1 }
  match ListSyntax.split (subcommandArgs command) with
  | none => Cmd.throw (.badList (subcommandArgs command))
  | some [] => pure ()
  -- `lreplace` finds no element 1
  | some [_] => Cmd.throw (.badList (subcommandArgs command))
  | some (subcommand :: args) =>
    match appNamed subcommand with
    | none => pure ()
    | some app => launch env app ruleId command args

def doWork (ruleId : ℕ) (command : Text) : Script Unit :=
  let checkString := command.take 6
  if stringCompare checkString "gemtc_".toList = 1 then do
    Cmd.modify fun s => { s with evaluated := s.evaluated ++ [ruleId] }
    if env.eval command then pure () else Cmd.throw (.transformFailed command)
  else gemtcDoWork env ruleId command

/-- `GEMTC_Poll`: of the tasks on the device, one that is complete or none. -/
def gemtcPoll (report : Option ℕ) : Script (Option ℕ) := fun s =>
  match report with
  | none => (.ok none, s)
  | some ruleId =>
    if ruleId ∈ s.device then
      (.ok (some ruleId),
        { s with device := s.device.erase ruleId, completed := s.completed ++ [ruleId] })
    else (.ok none, s)

def dictGet (ruleId : ℕ) : Script Context := fun s =>
  match s.context ruleId with
  | none => (.error (.notInDict ruleId), s)
  | some context => (.ok context, s)

/-- The value to hand over; for mdproxy its first procedure is called once more. -/
def resultOf (context : Context) : Except Stop Text :=
  match context.cmd with
  | .sleep => .ok (env.result .sleep context.sup)
  | .mdproxy =>
    match env.starts .mdproxy context.args with
    | none => .error .app
    | some sup => .ok (env.result .mdproxy sup)

def gemtcGet (report : Option ℕ) : Script (Option ℕ) := do
  match ← gemtcPoll report with
  | none => return none
  | some ruleId => do
    let context ← dictGet ruleId
    let result ← Cmd.ofExcept (resultOf env context)
    Cmd.modify fun s =>
      { s with context := Function.update s.context ruleId (some { context with result := result }) }
    return some ruleId

/-- `gemtc_sleep_end` and `gemtc_mdproxy_end` with what they take from the context. -/
def endTask (ruleId : ℕ) (context : Context) : Script Unit := do
  Cmd.modify fun s => { s with ended := s.ended ++ [ruleId] }
  if env.ends context.cmd context.args (context.result.getD "NULL".toList) context.sup then pure ()
  else Cmd.throw .app

def gemtcCheck (report : Option ℕ) : Script Unit := do
  match ← gemtcGet env report with
  | none => pure ()
  | some ruleId => do
    let context ← dictGet ruleId
    endTask env ruleId context
    Cmd.modify fun s =>
      { s with context := Function.update s.context ruleId none, running := s.running - 1 }

/-- One turn of the loop of `gemtc_worker`, and whether there is another. -/
def turn (delivery : Delivery) (report : Option ℕ) : Script Bool := fun s =>
  if s.running < gemtcLimit then
    let s := { s with gets := s.gets ++ [(decide (s.running = 0), s.device.length)] }
    match delivery with
    | .shutdown => (.ok false, s)
    | .nothing => (gemtcCheck env report >>= fun _ => pure true) s
    | .work u =>
      (do doWork env u.ruleId u.command; gemtcCheck env report; return true)
        { s with delivered := s.delivered ++ [u] }
  else (gemtcCheck env report >>= fun _ => pure true) s

end Procedures

def start : State := ⟨0, fun _ => none, [], [], [], [], [], [], []⟩

/-- The states in which a turn begins. Only `adlb::iget` returns without work, and every rule is
delivered once. -/
inductive Run (env : Env) : State → Prop
  | start : Run env start
  | next {s t : State} {delivery : Delivery} {report : Option ℕ} (h : Run env s)
      (hnothing : delivery = .nothing → s.running ≠ 0)
      (hnew : ∀ u, delivery = .work u → u.ruleId ∉ s.delivered.map WorkUnit.ruleId)
      (hturn : turn env delivery report s = (.ok true, t)) : Run env t

/-! ### Where a command goes -/

def Evaluates (u : WorkUnit) : Prop := stringCompare (u.command.take 6) "gemtc_".toList = 1

instance : DecidablePred Evaluates := fun _ => inferInstanceAs (Decidable (_ = _))

/-- The application that the first word of the rest names. -/
def appOf (u : WorkUnit) : Option App :=
  match ListSyntax.split (subcommandArgs u.command) with
  | some (subcommand :: _) => appNamed subcommand
  | _ => none

def Pushes (u : WorkUnit) : Prop := ¬Evaluates u ∧ (appOf u).isSome

instance : DecidablePred Pushes := fun _ => inferInstanceAs (Decidable (_ ∧ _))

def IsGemtc (u : WorkUnit) : Prop := "gemtc_".toList <+: u.command

instance : DecidablePred IsGemtc := fun u =>
  inferInstanceAs (Decidable ("gemtc_".toList <+: u.command))

def IsTask (u : WorkUnit) : Prop := IsGemtc u ∧ (appOf u).isSome

instance : DecidablePred IsTask := fun _ => inferInstanceAs (Decidable (_ ∧ _))

variable {env : Env} {s t : State} {u : WorkUnit}

lemma launch_cases {app : App} {ruleId : ℕ} {command : Text} {args : List Text} {r : Unit}
    (h : launch env app ruleId command args s = (.ok r, t)) :
    ∃ context, t = { s with
      context := Function.update s.context ruleId (some context)
      device := s.device ++ [ruleId]
      pushed := s.pushed ++ [ruleId] } := by
  unfold launch at h
  cases hsup : env.starts app args with
  | none =>
    rw [hsup] at h
    exact absurd (congrArg Prod.fst h) (by simp)
  | some sup =>
    rw [hsup] at h
    refine ⟨⟨app, args, none, sup⟩, ?_⟩
    dsimp only at h
    rw [Cmd.modify_bind_apply] at h
    by_cases hcopies : env.copies app sup = true
    · have hput : ∀ s : State, gemtcPut env app ruleId sup s = (.ok true, { s with
          device := s.device ++ [ruleId], pushed := s.pushed ++ [ruleId] }) := fun s => by
        rw [gemtcPut, if_pos hcopies]
      rw [Cmd.bind_of_ok (hput _)] at h
      exact (Prod.mk.inj h).2.symm
    · have hput : ∀ s : State, gemtcPut env app ruleId sup s = (.ok false, s) := fun s => by
        rw [gemtcPut, if_neg hcopies]
      rw [Cmd.bind_of_ok (hput _)] at h
      exact absurd (congrArg Prod.fst h) (by simp)

/-- A command is evaluated or pushed, or it is counted and nothing is done. -/
lemma doWork_cases {r : Unit} (h : doWork env u.ruleId u.command s = (.ok r, t)) :
    (Evaluates u ∧ t = { s with evaluated := s.evaluated ++ [u.ruleId] }) ∨
      (Pushes u ∧ ∃ context, t = { s with
        running := s.running + 1
        context := Function.update s.context u.ruleId (some context)
        device := s.device ++ [u.ruleId]
        pushed := s.pushed ++ [u.ruleId] }) ∨
      (¬Evaluates u ∧ ¬Pushes u ∧ t = { s with running := s.running + 1 }) := by
  unfold doWork at h
  by_cases heval : Evaluates u
  · have hcompare : stringCompare (u.command.take 6) "gemtc_".toList = 1 := heval
    left
    rw [if_pos hcompare, Cmd.modify_bind_apply] at h
    split_ifs at h
    · exact ⟨heval, (Prod.mk.inj h).2.symm⟩
    · exact absurd (congrArg Prod.fst h) (by simp)
  · have hcompare : ¬stringCompare (u.command.take 6) "gemtc_".toList = 1 := heval
    right
    rw [if_neg hcompare, gemtcDoWork, Cmd.modify_bind_apply] at h
    rcases hsplit : ListSyntax.split (subcommandArgs u.command) with
      _ | _ | ⟨subcommand, _ | ⟨arg, args⟩⟩
    all_goals simp only [hsplit] at h
    · exact absurd (congrArg Prod.fst h) (by simp)
    · have hpushes : ¬Pushes u := by
        rintro ⟨-, happ⟩
        rw [appOf, hsplit] at happ
        exact absurd happ (by simp)
      exact .inr ⟨heval, hpushes, (Prod.mk.inj h).2.symm⟩
    · exact absurd (congrArg Prod.fst h) (by simp)
    · have happ : appOf u = appNamed subcommand := by rw [appOf, hsplit]
      cases hname : appNamed subcommand with
      | none =>
        rw [hname] at h
        refine .inr ⟨heval, fun hpushes => ?_, (Prod.mk.inj h).2.symm⟩
        rw [Pushes, happ, hname] at hpushes
        exact absurd hpushes.2 (by simp)
      | some app =>
        rw [hname] at h
        obtain ⟨context, ht⟩ := launch_cases h
        exact .inl ⟨⟨heval, by rw [happ, hname]; rfl⟩, context, ht⟩

lemma dictGet_cases {ruleId : ℕ} {context : Context} (h : dictGet ruleId s = (.ok context, t)) :
    t = s := by
  unfold dictGet at h
  split at h
  · exact absurd (congrArg Prod.fst h) (by simp)
  · exact (Prod.mk.inj h).2.symm

lemma gemtcGet_cases {report ready : Option ℕ} (h : gemtcGet env report s = (.ok ready, t)) :
    (ready = none ∧ t = s) ∨ ∃ ruleId context, ready = some ruleId ∧ ruleId ∈ s.device ∧
      t = { s with
        context := Function.update s.context ruleId (some context)
        device := s.device.erase ruleId
        completed := s.completed ++ [ruleId] } := by
  unfold gemtcGet at h
  obtain ⟨polled, t₁, hpoll, h⟩ := Cmd.bind_eq_ok.mp h
  unfold gemtcPoll at hpoll
  split at hpoll
  · obtain ⟨hpolled, rfl⟩ := Prod.mk.inj hpoll
    obtain rfl := Except.ok.inj hpolled
    obtain ⟨hready, rfl⟩ := Prod.mk.inj h
    exact .inl ⟨(Except.ok.inj hready).symm, rfl⟩
  · next ruleId =>
    split_ifs at hpoll with hmem
    · obtain ⟨hpolled, rfl⟩ := Prod.mk.inj hpoll
      obtain rfl := Except.ok.inj hpolled
      obtain ⟨context, t₂, hget, h⟩ := Cmd.bind_eq_ok.mp h
      obtain rfl := dictGet_cases hget
      obtain ⟨result, t₃, hresult, h⟩ := Cmd.bind_eq_ok.mp h
      obtain ⟨-, rfl⟩ := Prod.mk.inj hresult
      obtain ⟨hready, rfl⟩ := Prod.mk.inj h
      exact .inr ⟨ruleId, _, (Except.ok.inj hready).symm, hmem, rfl⟩
    · obtain ⟨hpolled, rfl⟩ := Prod.mk.inj hpoll
      obtain rfl := Except.ok.inj hpolled
      obtain ⟨hready, rfl⟩ := Prod.mk.inj h
      exact .inl ⟨(Except.ok.inj hready).symm, rfl⟩

lemma endTask_cases {ruleId : ℕ} {context : Context} {r : Unit}
    (h : endTask env ruleId context s = (.ok r, t)) :
    t = { s with ended := s.ended ++ [ruleId] } := by
  unfold endTask at h
  rw [Cmd.modify_bind_apply] at h
  split_ifs at h
  · exact (Prod.mk.inj h).2.symm
  · exact absurd (congrArg Prod.fst h) (by simp)

/-- Nothing is reported, or a task is ended and is not on the device any more. -/
lemma gemtcCheck_cases {report : Option ℕ} {r : Unit}
    (h : gemtcCheck env report s = (.ok r, t)) :
    t = s ∨ ∃ ruleId ∈ s.device, t = { s with
      running := s.running - 1
      context := Function.update s.context ruleId none
      device := s.device.erase ruleId
      completed := s.completed ++ [ruleId]
      ended := s.ended ++ [ruleId] } := by
  unfold gemtcCheck at h
  obtain ⟨ready, t₁, hget, hready⟩ := Cmd.bind_eq_ok.mp h
  clear h
  rcases gemtcGet_cases hget with ⟨rfl, rfl⟩ | ⟨ruleId, context, rfl, hmem, rfl⟩
  · exact .inl (Prod.mk.inj hready).2.symm
  · obtain ⟨context', t₂, hdict, hcontext⟩ := Cmd.bind_eq_ok.mp hready
    clear hready
    obtain rfl := dictGet_cases hdict
    obtain ⟨u, t₃, hend, hunset⟩ := Cmd.bind_eq_ok.mp hcontext
    clear hcontext
    obtain rfl := endTask_cases hend
    refine .inr ⟨ruleId, hmem, (Prod.mk.inj hunset).2.symm.trans ?_⟩
    simp only [Function.update_idem]

/-! ### What holds when a turn begins -/

structure Inv (s : State) : Prop where
  distinct : (s.delivered.map WorkUnit.ruleId).Nodup
  evaluated : s.evaluated = (s.delivered.filter (Evaluates ·)).map WorkUnit.ruleId
  pushed : s.pushed = (s.delivered.filter (Pushes ·)).map WorkUnit.ruleId
  device : (s.completed ++ s.device).Perm s.pushed
  ended : s.ended = s.completed
  running : s.running + s.completed.length = s.delivered.countP (¬Evaluates ·)
  context : ∀ ruleId ∈ s.completed, s.context ruleId = none
  gets : ∀ g ∈ s.gets, g.1 = true → g.2 = 0

lemma inv_start : Inv start where
  distinct := List.nodup_nil
  evaluated := rfl
  pushed := rfl
  device := List.Perm.nil
  ended := rfl
  running := rfl
  context := by simp [start]
  gets := by simp [start]

namespace Inv

lemma length_pushed (h : Inv s) :
    s.completed.length + s.device.length = s.delivered.countP (Pushes ·) := by
  have hlength := h.device.length_eq
  rwa [List.length_append, h.pushed, List.length_map, ← List.countP_eq_length_filter] at hlength

lemma countP_pushes_le (units : List WorkUnit) :
    units.countP (Pushes ·) ≤ units.countP (¬Evaluates ·) :=
  List.countP_mono_left fun u _ hu => by
    simp only [decide_eq_true_eq] at hu ⊢
    exact hu.1

/-- What is on the device was counted. -/
lemma device_le_running (h : Inv s) : (s.device.length : ℤ) ≤ s.running := by
  have hpushed := h.length_pushed
  have hrunning := h.running
  have hle := countP_pushes_le s.delivered
  omega

lemma mem_delivered_of_pushed (h : Inv s) {ruleId : ℕ} (hmem : ruleId ∈ s.pushed) :
    ruleId ∈ s.delivered.map WorkUnit.ruleId := by
  rw [h.pushed] at hmem
  exact List.map_subset _ (List.filter_subset_self _) hmem

lemma get (h : Inv s) :
    Inv { s with gets := s.gets ++ [(decide (s.running = 0), s.device.length)] } where
  distinct := h.distinct
  evaluated := h.evaluated
  pushed := h.pushed
  device := h.device
  ended := h.ended
  running := h.running
  context := h.context
  gets g hg hblocking := by
    rcases List.mem_append.mp hg with hg | hg
    · exact h.gets g hg hblocking
    · obtain rfl := List.mem_singleton.mp hg
      have hle := h.device_le_running
      have hzero : s.running = 0 := of_decide_eq_true hblocking
      dsimp only
      omega

lemma countP_append_counted (hu : ¬Evaluates u) {units : List WorkUnit} :
    (units ++ [u]).countP (¬Evaluates ·) = units.countP (¬Evaluates ·) + 1 := by
  rw [List.countP_append, List.countP_singleton, if_pos (by simpa using hu)]

lemma doWork (h : Inv s) (hnew : u.ruleId ∉ s.delivered.map WorkUnit.ruleId) {r : Unit}
    (hwork : Gemtc.doWork env u.ruleId u.command { s with delivered := s.delivered ++ [u] } =
      (.ok r, t)) : Inv t := by
  have hdistinct : ((s.delivered ++ [u]).map WorkUnit.ruleId).Nodup := by
    rw [List.map_append]
    exact List.nodup_append.mpr ⟨h.distinct, List.nodup_singleton _, fun a ha b hb heq =>
      hnew (by rw [List.map_singleton, List.mem_singleton] at hb; rwa [← hb, ← heq])⟩
  rcases doWork_cases hwork with ⟨heval, rfl⟩ | ⟨hpushes, context, rfl⟩ | ⟨heval, hpushes, rfl⟩
  · have hpushes : ¬Pushes u := fun hpushes => hpushes.1 heval
    exact {
      distinct := hdistinct
      evaluated := by simp [h.evaluated, List.filter_append, heval]
      pushed := by simp [h.pushed, List.filter_append, hpushes]
      device := h.device
      ended := h.ended
      running := by simpa [heval] using h.running
      context := h.context
      gets := h.gets }
  · exact {
      distinct := hdistinct
      evaluated := by simp [h.evaluated, List.filter_append, hpushes.1]
      pushed := by simp [h.pushed, List.filter_append, hpushes]
      device := by
        rw [← List.append_assoc]
        exact h.device.append_right _
      ended := h.ended
      running := by
        have hrunning := h.running
        dsimp only
        rw [countP_append_counted hpushes.1]
        push_cast
        omega
      context := by
        intro ruleId hmem
        have hne : ruleId ≠ u.ruleId := by
          rintro rfl
          exact hnew (h.mem_delivered_of_pushed (h.device.subset (List.mem_append_left _ hmem)))
        exact (Function.update_of_ne hne _ _).trans (h.context ruleId hmem)
      gets := h.gets }
  · exact {
      distinct := hdistinct
      evaluated := by simp [h.evaluated, List.filter_append, heval]
      pushed := by simp [h.pushed, List.filter_append, hpushes]
      device := h.device
      ended := h.ended
      running := by
        have hrunning := h.running
        dsimp only
        rw [countP_append_counted heval]
        push_cast
        omega
      context := h.context
      gets := h.gets }

lemma gemtcCheck (h : Inv s) {report : Option ℕ} {r : Unit}
    (hcheck : Gemtc.gemtcCheck env report s = (.ok r, t)) : Inv t := by
  rcases gemtcCheck_cases hcheck with rfl | ⟨ruleId, hmem, rfl⟩
  · exact h
  · exact {
      distinct := h.distinct
      evaluated := h.evaluated
      pushed := h.pushed
      device := by
        rw [List.append_assoc, List.singleton_append]
        exact ((List.perm_cons_erase hmem).symm.append_left _).trans h.device
      ended := by rw [h.ended]
      running := by
        have hrunning := h.running
        simp only [List.length_append, List.length_singleton]
        push_cast
        omega
      context := by
        intro id hid
        by_cases heq : id = ruleId
        · rw [heq]
          exact Function.update_self ..
        · rcases List.mem_append.mp hid with hid | hid
          · exact (Function.update_of_ne heq _ _).trans (h.context id hid)
          · exact absurd (List.mem_singleton.mp hid) heq
      gets := h.gets }

end Inv

lemma check_true {report : Option ℕ} (h : (gemtcCheck env report >>= fun _ => pure true) s =
    (.ok true, t)) : ∃ r, gemtcCheck env report s = (.ok r, t) := by
  obtain ⟨r, t', hcheck, ht⟩ := Cmd.bind_eq_ok.mp h
  obtain ⟨-, rfl⟩ := Prod.mk.inj ht
  exact ⟨r, hcheck⟩

lemma turn_inv {delivery : Delivery} {report : Option ℕ} (h : Inv s)
    (hnew : ∀ u, delivery = .work u → u.ruleId ∉ s.delivered.map WorkUnit.ruleId)
    (hturn : turn env delivery report s = (.ok true, t)) : Inv t := by
  unfold turn at hturn
  split_ifs at hturn
  · cases delivery with
    | shutdown => exact absurd (congrArg Prod.fst hturn) (by simp)
    | nothing =>
      obtain ⟨r, hcheck⟩ := check_true hturn
      exact h.get.gemtcCheck hcheck
    | work u =>
      obtain ⟨r, t₁, hwork, hrest⟩ := Cmd.bind_eq_ok.mp hturn
      obtain ⟨r', hcheck⟩ := check_true hrest
      exact (h.get.doWork (hnew u rfl) hwork).gemtcCheck hcheck
  · obtain ⟨r, hcheck⟩ := check_true hturn
    exact h.gemtcCheck hcheck

lemma run_inv (h : Run env s) : Inv s := by
  induction h with
  | start => exact inv_start
  | next _ _ hnew hturn ih => exact turn_inv ih hnew hturn

/-! ### Main result -/

/-- What is asked of the worker for the commands that were delivered so far. -/
structure Serves (s : State) : Prop where
  evaluated : ∀ u ∈ s.delivered, ¬IsGemtc u → s.evaluated.count u.ruleId = 1
  pushed : ∀ u ∈ s.delivered, IsTask u → s.pushed.count u.ruleId = 1
  ended : ∀ u ∈ s.delivered, IsTask u → u.ruleId ∈ s.completed →
    s.ended.count u.ruleId = 1 ∧ s.context u.ruleId = none
  outstanding : (s.completed ++ s.device).Perm s.pushed
  running : s.running = s.device.length
  gets : ∀ g ∈ s.gets, g.1 = true → g.2 = 0

lemma not_evaluates_of_isGemtc (h : IsGemtc u) : ¬Evaluates u := by
  obtain ⟨rest, hrest⟩ := h
  have htake : u.command.take 6 = "gemtc_".toList := by
    rw [← hrest]
    exact List.take_left' rfl
  rw [Evaluates, stringCompare, htake, threeWay_self]
  decide

namespace Inv

variable {P : WorkUnit → Prop} [DecidablePred P]

lemma count_filter (h : Inv s) (hu : u ∈ s.delivered) :
    ((s.delivered.filter (P ·)).map WorkUnit.ruleId).count u.ruleId = if P u then 1 else 0 := by
  have hnodup : ((s.delivered.filter (P ·)).map WorkUnit.ruleId).Nodup :=
    (List.filter_sublist.map _).nodup h.distinct
  split_ifs with hP
  · exact List.count_eq_one_of_mem hnodup
      (List.mem_map.mpr ⟨u, List.mem_filter.mpr ⟨hu, decide_eq_true hP⟩, rfl⟩)
  · rw [List.count_eq_zero, List.mem_map]
    rintro ⟨v, hv, hid⟩
    obtain ⟨hmem, hPv⟩ := List.mem_filter.mp hv
    obtain rfl := List.inj_on_of_nodup_map h.distinct hmem hu hid
    exact hP (of_decide_eq_true hPv)

/-- The counter is the number of tasks on the device if whatever was counted was pushed. -/
lemma running_eq_iff (h : Inv s) :
    s.running = s.device.length ↔ ∀ u ∈ s.delivered, ¬Evaluates u → Pushes u := by
  have hpushed := h.length_pushed
  have hrunning := h.running
  have hsub : (s.delivered.filter (Pushes ·)).Sublist (s.delivered.filter (¬Evaluates ·)) :=
    List.monotone_filter_right _ fun u hu => by
      simp only [decide_eq_true_eq] at hu ⊢
      exact hu.1
  rw [List.countP_eq_length_filter] at hpushed hrunning
  constructor
  · intro heq u hu heval
    have hsame := hsub.eq_of_length (by omega)
    have hmem : u ∈ s.delivered.filter (Pushes ·) := by
      rw [hsame, List.mem_filter]
      exact ⟨hu, by simpa using heval⟩
    exact of_decide_eq_true (List.mem_filter.mp hmem).2
  · intro hall
    have hsame : s.delivered.filter (Pushes ·) = s.delivered.filter (¬Evaluates ·) :=
      List.filter_congr fun u hu => by
        rw [decide_eq_decide]
        exact ⟨fun hpushes => hpushes.1, hall u hu⟩
    rw [hsame] at hpushed
    omega

end Inv

/-- Procedures and a device that never fail. -/
def obliging : Env := ⟨fun _ => true, fun _ args => args.head?, fun _ _ => true, fun _ sup => sup,
  fun _ _ _ _ => true⟩

/-- The state after a first turn with the command, and with the report of its task if there is one. -/
def after (command : Text) : State :=
  (turn obliging (.work ⟨7, command⟩) (some 7) start).2

lemma run_after {command : Text}
    (h : (turn obliging (.work ⟨7, command⟩) (some 7) start).1 = .ok true) :
    Run obliging (after command) :=
  Run.next Run.start (by simp) (by simp [start]) (Prod.ext h rfl)

end Turbine.Gemtc
