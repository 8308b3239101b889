import Turbine.Data.ParseInt
import Turbine.Library.Comparators
import Turbine.Strings.Fields

/-! Checkpointing as the environment sets it up: the flush policy, the files that are reloaded, and
what is enabled afterwards. -/

namespace Turbine.Checkpoint

open Turbine.Library Comparators
open Turbine.Data.Integers (Text getInt)
open Turbine.Strings.Fields (tclSplit)

inductive FlushPolicy
  | noFlush
  | periodicFlush
  | alwaysFlush
  deriving DecidableEq

inductive XptMode
  | disabled
  | r
  | w
  | rw
  deriving DecidableEq

/-- The variables that start with `TURBINE_XPT_`. -/
structure Environment where
  file : Option Text
  reload : Option Text
  flush : Option Text
  indexMax : Option Text

/-- The process, and what the checkpoint library says to each call. -/
structure System where
  enableXpt : Bool
  amserver : Bool
  workerRank : ℕ
  workers : ℕ
  initialized : Option Text → FlushPolicy → ℤ → Bool
  reloaded : Text → Bool
  /-- A process that is no server is one of the workers. -/
  isWorker : amserver = false → workerRank < workers

inductive Call
  | init (filename : Option Text) (policy : FlushPolicy) (maxIndexVal : ℤ)
  | reload (filename : Text) (loader loaders : ℕ)
  | barrier

structure State where
  calls : List Call
  xptMode : Option XptMode

inductive Stop
  | user (message : String)
  | badInteger (value : Text)
  | unset (name : String)

abbrev Script (α : Type) := Cmd State Stop α

/-- A call of the library, and the error if it fails. -/
def ask (call : Call) (success : Bool) (message : String) : Script Unit := fun s =>
  (if success then .ok () else .error (.user message), { s with calls := s.calls ++ [call] })

/-- Zero for equal strings only. -/
def strcmp (a b : Text) : ℤ := threeWay a b

/-- The chain of comparisons of `ADLB_Xpt_Init_Cmd`. -/
def flushPolicy (s : Text) : Option FlushPolicy :=
  if strcmp s "no_flush".toList ≠ 0 then some .noFlush
  else if strcmp s "periodic_flush".toList ≠ 0 then some .periodicFlush
  else if strcmp s "always_flush".toList ≠ 0 then some .alwaysFlush
  else none

/-- The library takes a null pointer for no file. -/
def nullable (filename : Text) : Option Text := if filename.length = 0 then none else some filename

section Commands

variable (sys : System)

/-- `adlb::xpt_init` -/
def xptInit (filename flushPolicyS maxIndexVal : Text) : Script Unit :=
  if sys.enableXpt = false then
    Cmd.throw (.user "Checkpointing not enabled in Turbine build")
  else
    match flushPolicy flushPolicyS with
    | none => Cmd.throw (.user s!"Invalid flush policy: {String.ofList flushPolicyS}")
    | some policy =>
      match getInt maxIndexVal with
      | none => Cmd.throw (.badInteger maxIndexVal)
      | some maxIndexVal =>
        ask (.init (nullable filename) policy maxIndexVal)
          (sys.initialized (nullable filename) policy maxIndexVal)
          "Error while initializing checkpointing"

def xptReload (filename : Text) (loader loaders : ℕ) : Script Unit :=
  if loaders > 0 then
    ask (.reload filename loader loaders) (sys.reloaded filename)
      s!"Error reloading checkpoint from file {String.ofList filename}"
  else Cmd.throw (.user s!"Must be at least one loader: {loaders}")

def workerBarrier : Script Unit := Cmd.modify fun s => { s with calls := s.calls ++ [.barrier] }

def reloadFiles : List Text → Script Unit
  | [] => pure ()
  | reloadFile :: files => do
    xptReload sys reloadFile sys.workerRank sys.workers
    reloadFiles files

/-- `string is integer`, which takes the empty string for one. -/
def isInteger (s : Text) : Bool := s = [] ∨ (getInt s).isSome

def Environment.indexMaxOf (env : Environment) : Except Stop Text :=
  match env.indexMax with
  | none => .ok (Radix.text (1024 * 1024))
  | some v =>
    if isInteger v then .ok v
    else .error (.user s!"TURBINE_XPT_INDEX_MAX must be integer: \"{String.ofList v}\"")

def Environment.flushMode (env : Environment) : Text := env.flush.getD "periodic_flush".toList

def Environment.xptFilename (env : Environment) : Text := env.file.getD []

def Environment.xptReload (env : Environment) : List Text :=
  (env.reload.map (tclSplit · [':'])).getD []

def modeOf (xptReload : List Text) (xptFilename : Text) : XptMode :=
  if xptReload.length > 0 then if xptFilename ≠ [] then .rw else .r
  else if xptFilename ≠ [] then .w else .disabled

def reloadAll (xptReload : List Text) : Script Unit :=
  if sys.amserver = false then do
    reloadFiles sys xptReload
    if xptReload.length > 0 then workerBarrier
  else pure ()

def xptInit2 (env : Environment) : Script Unit := do
  let xptIndexMax ← Cmd.ofExcept env.indexMaxOf
  xptInit sys env.xptFilename env.flushMode xptIndexMax
  reloadAll sys env.xptReload
  Cmd.modify fun s => { s with xptMode := some (modeOf env.xptReload env.xptFilename) }

end Commands

def xptLookupEnabled : Script Bool := fun s =>
  match s.xptMode with
  | some .r => (.ok true, s)
  | some .rw => (.ok true, s)
  | some .w => (.ok false, s)
  | some .disabled => (.ok false, s)
  | none => (.error (.unset "xpt_mode"), s)

def xptWriteEnabled : Script Bool := fun s =>
  match s.xptMode with
  | some .w => (.ok true, s)
  | some .rw => (.ok true, s)
  | some .r => (.ok false, s)
  | some .disabled => (.ok false, s)
  | none => (.error (.unset "xpt_mode"), s)

/-! ### What the settings mean -/

def FlushPolicy.name : FlushPolicy → Text
  | .noFlush => "no_flush".toList
  | .periodicFlush => "periodic_flush".toList
  | .alwaysFlush => "always_flush".toList

/-- The policy whose name the string is. -/
def Named (s : Text) (policy : FlushPolicy) : Prop := policy.name = s

/-- The files of a list with colons between them. -/
def Environment.files (env : Environment) : List Text :=
  match env.reload with
  | none => []
  | some v => if v = [] then [] else v.splitOn ':'

def Environment.givesFile (env : Environment) : Prop := ∃ v, env.file = some v ∧ v ≠ []

lemma xptReload_eq_files (env : Environment) : env.xptReload = env.files := by
  unfold Environment.xptReload Environment.files
  cases env.reload with
  | none => rfl
  | some v =>
    simp only [Option.map_some, Option.getD_some, tclSplit]
    rw [if_neg (List.cons_ne_nil ':' [])]
    congr 1
    rw [List.splitOn]
    congr 1
    funext c
    simp [beq_eq_decide]

lemma xptFilename_ne_nil_iff (env : Environment) : env.xptFilename ≠ [] ↔ env.givesFile := by
  unfold Environment.xptFilename Environment.givesFile
  cases env.file <;> simp

lemma strcmp_eq_zero_iff {a b : Text} : strcmp a b = 0 ↔ a = b := threeWay_eq_zero_iff

/-- Each comparison has the wrong sense, so the third is never reached. -/
lemma flushPolicy_eq (s : Text) :
    flushPolicy s = some (if s = "no_flush".toList then .periodicFlush else .noFlush) := by
  by_cases hs : s = "no_flush".toList
  · have hno : strcmp s "no_flush".toList = 0 := strcmp_eq_zero_iff.mpr hs
    have hperiodic : strcmp s "periodic_flush".toList ≠ 0 := by
      rw [ne_eq, strcmp_eq_zero_iff, hs]
      decide
    rw [flushPolicy, if_neg (by rw [hno]; decide), if_pos hperiodic, if_pos hs]
  · have hno : strcmp s "no_flush".toList ≠ 0 := fun h => hs (strcmp_eq_zero_iff.mp h)
    rw [flushPolicy, if_pos hno, if_neg hs]

/-- Whatever the string is, the policy is one that has another name. -/
lemma not_named_flushPolicy {s : Text} {policy : FlushPolicy} (h : flushPolicy s = some policy) :
    ¬Named s policy := by
  rw [flushPolicy_eq, Option.some_inj] at h
  rintro rfl
  revert h
  cases policy <;> decide

/-! ### What a run records -/

def policies (calls : List Call) : List FlushPolicy :=
  calls.filterMap fun
    | .init _ policy _ => some policy
    | _ => none

def reloads (calls : List Call) : List (Text × ℕ × ℕ) :=
  calls.filterMap fun
    | .reload filename loader loaders => some (filename, loader, loaders)
    | _ => none

/-- The size of the index is no integer, so that nothing is initialized. -/
def Environment.Refused (env : Environment) : Prop :=
  ∃ v, env.indexMax = some v ∧ getInt v = none

section Runs

variable {sys : System} {env : Environment} {s : State}

lemma getInt_default : getInt (Radix.text (1024 * 1024)) = some (1024 * 1024) := by
  have hfits : Radix.Fits64 (1024 * 1024) := by decide
  rw [getInt, Data.Integers.getWideInt_text hfits]
  decide

/-- `string is integer` lets the empty string pass, and the conversion behind it does not. -/
lemma indexMaxOf_cases (env : Environment) :
    (env.Refused ∧ ((∃ e, env.indexMaxOf = .error e) ∨
        ∃ v, env.indexMaxOf = .ok v ∧ getInt v = none)) ∨
      (¬env.Refused ∧ ∃ v n, env.indexMaxOf = .ok v ∧ getInt v = some n) := by
  unfold Environment.indexMaxOf Environment.Refused
  cases env.indexMax with
  | none => exact .inr ⟨by simp, _, _, rfl, getInt_default⟩
  | some v =>
    cases hv : getInt v with
    | none =>
      refine .inl ⟨⟨v, rfl, hv⟩, ?_⟩
      dsimp only
      split_ifs
      · exact .inr ⟨v, rfl, hv⟩
      · exact .inl ⟨_, rfl⟩
    | some n =>
      have hinteger : isInteger v = true := by simp [isInteger, hv]
      refine .inr ⟨by simp [hv], v, n, ?_, hv⟩
      dsimp only
      rw [if_pos hinteger]

lemma xptInit_error (filename flush : Text) {maxIndexVal : Text} (s : State)
    (h : sys.enableXpt = false ∨ getInt maxIndexVal = none) :
    ∃ e, xptInit sys filename flush maxIndexVal s = (.error e, s) := by
  by_cases henabled : sys.enableXpt = false
  · exact ⟨_, by rw [xptInit, if_pos henabled]; rfl⟩
  · refine ⟨.badInteger maxIndexVal, ?_⟩
    rw [xptInit, if_neg henabled, flushPolicy_eq, h.resolve_left henabled]
    rfl

lemma xptInit_apply (filename : Text) {flush maxIndexVal : Text} {policy : FlushPolicy} {n : ℤ}
    (s : State) (henabled : ¬sys.enableXpt = false) (hpolicy : flushPolicy flush = some policy)
    (hn : getInt maxIndexVal = some n) :
    ∃ r, xptInit sys filename flush maxIndexVal s =
      (r, { s with calls := s.calls ++ [.init (nullable filename) policy n] }) := by
  rw [xptInit, if_neg henabled, hpolicy, hn]
  exact ⟨_, rfl⟩

lemma reloadFiles_calls (hworkers : sys.workers > 0) (files : List Text) (s : State) :
    ∃ r done, reloadFiles sys files s = (r, { s with
        calls := s.calls ++ done.map (Call.reload · sys.workerRank sys.workers) }) ∧
      done <+: files ∧ (r = .ok () → done = files) := by
  induction files generalizing s with
  | nil => exact ⟨.ok (), [], by simp [reloadFiles], List.prefix_refl [], fun _ => rfl⟩
  | cons file files ih =>
    have hrecord : xptReload sys file sys.workerRank sys.workers s =
        (if sys.reloaded file then .ok () else
            .error (.user s!"Error reloading checkpoint from file {String.ofList file}"),
          { s with calls := s.calls ++ [.reload file sys.workerRank sys.workers] }) := by
      rw [xptReload, if_pos hworkers]
      rfl
    by_cases hok : sys.reloaded file = true
    · rw [if_pos hok] at hrecord
      obtain ⟨r, done, hrun, hprefix, hall⟩ :=
        ih { s with calls := s.calls ++ [.reload file sys.workerRank sys.workers] }
      refine ⟨r, file :: done, ?_, (List.cons_prefix_cons.mpr ⟨rfl, hprefix⟩), fun hr => ?_⟩
      · rw [reloadFiles, Cmd.bind_of_ok hrecord, hrun]
        simp
      · rw [hall hr]
    · rw [if_neg hok] at hrecord
      refine ⟨_, [file], Cmd.bind_of_error hrecord, by simp, fun hr => absurd hr (by simp)⟩

/-- The files that the process reloads. -/
def toReload (sys : System) (env : Environment) : List Text :=
  if sys.amserver then [] else env.files

lemma reloadAll_calls (sys : System) (env : Environment) (s : State) :
    ∃ r done barriers, reloadAll sys env.files s = (r, { s with
        calls := s.calls ++ (done.map (Call.reload · sys.workerRank sys.workers) ++ barriers) }) ∧
      barriers ∈ [[], [Call.barrier]] ∧ done <+: toReload sys env ∧
      (r = .ok () → done = toReload sys env) := by
  unfold reloadAll toReload
  by_cases hserver : sys.amserver = true
  · rw [if_neg (by simp [hserver]), if_pos hserver]
    exact ⟨.ok (), [], [], by simp, by simp, List.prefix_refl [], fun _ => rfl⟩
  · rw [if_pos (by simpa using hserver), if_neg hserver]
    obtain ⟨r, done, hrun, hprefix, hall⟩ := reloadFiles_calls
      (Nat.zero_lt_of_lt (sys.isWorker (by simpa using hserver))) env.files s
    cases r with
    | error e =>
      refine ⟨.error e, done, [], ?_, by simp, hprefix, fun hr => absurd hr (by simp)⟩
      rw [Cmd.bind_of_error hrun, List.append_nil]
    | ok u =>
      rw [Cmd.bind_of_ok hrun]
      split_ifs
      · refine ⟨.ok (), done, [.barrier], ?_, by simp, hprefix, fun _ => hall rfl⟩
        rw [← List.append_assoc]
        rfl
      · exact ⟨.ok (), done, [], by simp, by simp, hprefix, fun _ => hall rfl⟩

lemma xptInit2_error (h : sys.enableXpt = false ∨ env.Refused) :
    ∃ e, xptInit2 sys env s = (.error e, s) := by
  have hfail : ∀ v, env.indexMaxOf = .ok v → (sys.enableXpt = false ∨ getInt v = none) →
      ∃ e, xptInit2 sys env s = (.error e, s) := by
    intro v hv hinit
    have hread : (Cmd.ofExcept env.indexMaxOf : Script Text) s = (.ok v, s) := by
      rw [Cmd.ofExcept_apply, hv]
    obtain ⟨e, he⟩ := xptInit_error env.xptFilename env.flushMode s hinit
    exact ⟨e, (Cmd.bind_of_ok hread).trans (Cmd.bind_of_error he)⟩
  rcases indexMaxOf_cases env with ⟨hrefused, ⟨e, he⟩ | ⟨v, hv, hn⟩⟩ | ⟨hnot, v, n, hv, hn⟩
  · exact ⟨e, Cmd.bind_of_error (by rw [Cmd.ofExcept_apply, he])⟩
  · exact hfail v hv (.inr hn)
  · exact hfail v hv (.inl (h.resolve_right hnot))

/-- The library is initialized before anything is reloaded. -/
lemma xptInit2_calls {policy : FlushPolicy} (henabled : ¬sys.enableXpt = false)
    (hindex : ¬env.Refused) (hpolicy : flushPolicy env.flushMode = some policy) :
    ∃ r t n done barriers, xptInit2 sys env s = (r, t) ∧
      t.calls = s.calls ++ (.init (nullable env.xptFilename) policy n ::
        (done.map (Call.reload · sys.workerRank sys.workers) ++ barriers)) ∧
      barriers ∈ [[], [Call.barrier]] ∧ done <+: toReload sys env ∧
      (r = .ok () → done = toReload sys env ∧
        t.xptMode = some (modeOf env.files env.xptFilename)) := by
  obtain ⟨v, n, hv, hn⟩ := ((indexMaxOf_cases env).resolve_left fun h => hindex h.1).2
  have hread : (Cmd.ofExcept env.indexMaxOf : Script Text) s = (.ok v, s) := by
    rw [Cmd.ofExcept_apply, hv]
  obtain ⟨r, hinit⟩ := xptInit_apply env.xptFilename s henabled hpolicy hn
  unfold xptInit2
  rw [Cmd.bind_of_ok hread, xptReload_eq_files]
  cases r with
  | error e =>
    refine ⟨.error e, _, n, [], [], Cmd.bind_of_error hinit, rfl, by simp, List.nil_prefix,
      fun hr => absurd hr (by simp)⟩
  | ok u =>
    obtain ⟨r, done, barriers, hrun, hbarriers, hprefix, hall⟩ :=
      reloadAll_calls sys env
        { s with calls := s.calls ++ [.init (nullable env.xptFilename) policy n] }
    rw [Cmd.bind_of_ok hinit]
    cases r with
    | error e =>
      refine ⟨.error e, _, n, done, barriers, Cmd.bind_of_error hrun, ?_, hbarriers, hprefix,
        fun hr => absurd hr (by simp)⟩
      rw [List.append_assoc, List.singleton_append]
    | ok u =>
      refine ⟨.ok (), _, n, done, barriers, Cmd.bind_of_ok hrun, ?_, hbarriers, hprefix,
        fun _ => ⟨hall rfl, rfl⟩⟩
      rw [List.append_assoc, List.singleton_append]

end Runs

/-! ### Main result -/

section Main

variable (sys : System) (env : Environment) (xptMode : Option XptMode)

def run : Except Stop Unit × State := xptInit2 sys env ⟨[], xptMode⟩

/-- The policy that is passed on has the name in the environment, and other names are rejected. -/
def PolicyFollows : Prop :=
  (∀ policy ∈ policies (run sys env xptMode).2.calls, Named env.flushMode policy) ∧
    ((¬∃ policy, Named env.flushMode policy) → ∃ e, (run sys env xptMode).1 = .error e)

/-- The files of the list are reloaded in their order, and all of them if there is no error. -/
def ReloadsFollow : Prop :=
  ∃ done, done <+: toReload sys env ∧
    reloads (run sys env xptMode).2.calls = done.map (·, sys.workerRank, sys.workers) ∧
    ((run sys env xptMode).1 = .ok () → done = toReload sys env)

/-- What is enabled after a run without an error. -/
def ModesFollow : Prop :=
  ∀ t, run sys env xptMode = (.ok (), t) →
    ∃ lookup write, xptLookupEnabled t = (.ok lookup, t) ∧ xptWriteEnabled t = (.ok write, t) ∧
      (lookup = true ↔ env.files ≠ []) ∧ (write = true ↔ env.givesFile)

def Follows : Prop :=
  PolicyFollows sys env xptMode ∧ ReloadsFollow sys env xptMode ∧ ModesFollow sys env xptMode

end Main

lemma policies_append (calls calls' : List Call) :
    policies (calls ++ calls') = policies calls ++ policies calls' := List.filterMap_append ..

lemma reloads_append (calls calls' : List Call) :
    reloads (calls ++ calls') = reloads calls ++ reloads calls' := List.filterMap_append ..

lemma reloads_map (files : List Text) (loader loaders : ℕ) :
    reloads (files.map (Call.reload · loader loaders)) = files.map (·, loader, loaders) := by
  simp [reloads, List.filterMap_map]

lemma reloads_barriers {barriers : List Call} (h : barriers ∈ [[], [Call.barrier]]) :
    reloads barriers = [] := by
  rcases List.mem_pair.mp h with rfl | rfl <;> rfl

/-- The mode says of both whether they are there. -/
lemma modeOf_enabled {s : State} {files : List Text} {filename : Text}
    (h : s.xptMode = some (modeOf files filename)) :
    xptLookupEnabled s = (.ok (decide (files ≠ [])), s) ∧
      xptWriteEnabled s = (.ok (decide (filename ≠ [])), s) := by
  unfold xptLookupEnabled xptWriteEnabled
  rw [h]
  unfold modeOf
  cases files <;> cases filename <;> simp

section Cases

variable {sys : System} {env : Environment} {xptMode : Option XptMode}

lemma follows_of_error {e : Stop} (h : run sys env xptMode = (.error e, ⟨[], xptMode⟩)) :
    Follows sys env xptMode := by
  refine ⟨⟨?_, fun _ => ⟨e, by rw [h]⟩⟩, ⟨[], List.nil_prefix, ?_, ?_⟩, ?_⟩
  · rw [h]
    simp [policies]
  · rw [h]
    rfl
  · rw [h]
    exact fun hr => absurd hr (by simp)
  · intro t ht
    rw [h] at ht
    exact absurd (congrArg Prod.fst ht) (by simp)

/-- Reloading and what is enabled do not depend on the policy. -/
lemma reloads_and_modes_follow : ReloadsFollow sys env xptMode ∧ ModesFollow sys env xptMode := by
  by_cases hrefused : sys.enableXpt = false ∨ env.Refused
  · obtain ⟨e, he⟩ := xptInit2_error (s := ⟨[], xptMode⟩) hrefused
    exact (follows_of_error he).2
  · obtain ⟨henabled, hindex⟩ := not_or.mp hrefused
    obtain ⟨r, t, n, done, barriers, hrun, hcalls, hbarriers, hprefix, hall⟩ :=
      xptInit2_calls (s := ⟨[], xptMode⟩) henabled hindex (flushPolicy_eq env.flushMode)
    have hrun' : run sys env xptMode = (r, t) := hrun
    refine ⟨⟨done, hprefix, ?_, fun hr => ?_⟩, fun u hu => ?_⟩
    · rw [hrun', hcalls, reloads_append, ← List.singleton_append, reloads_append, reloads_append,
        reloads_map, reloads_barriers hbarriers, List.append_nil]
      rfl
    · rw [hrun'] at hr
      exact (hall hr).1
    · obtain ⟨hr, rfl⟩ := Prod.mk.inj (hrun'.symm.trans hu)
      obtain ⟨hlookup, hwrite⟩ := modeOf_enabled (hall hr).2
      exact ⟨_, _, hlookup, hwrite, by simp, by simp [← xptFilename_ne_nil_iff]⟩

/-- Where the library is initialized, it is with another policy. -/
lemma not_policyFollows (henabled : ¬sys.enableXpt = false) (hindex : ¬env.Refused) :
    ¬PolicyFollows sys env xptMode := by
  rintro ⟨hnamed, -⟩
  obtain ⟨policy, hpolicy⟩ : ∃ policy, flushPolicy env.flushMode = some policy :=
    ⟨_, flushPolicy_eq env.flushMode⟩
  obtain ⟨r, t, n, done, barriers, hrun, hcalls, -⟩ :=
    xptInit2_calls (s := ⟨[], xptMode⟩) henabled hindex hpolicy
  have hrun' : run sys env xptMode = (r, t) := hrun
  refine not_named_flushPolicy hpolicy (hnamed policy ?_)
  rw [hrun', hcalls]
  exact List.mem_cons_self ..

theorem xpt_init_follows_iff :
    (Follows sys env xptMode ↔ sys.enableXpt = false ∨ env.Refused) ∧
      ReloadsFollow sys env xptMode ∧ ModesFollow sys env xptMode := by
  refine ⟨⟨fun h => ?_, fun hrefused => ?_⟩, reloads_and_modes_follow⟩
  · by_contra hrefused
    obtain ⟨henabled, hindex⟩ := not_or.mp hrefused
    exact not_policyFollows henabled hindex h.1
  · obtain ⟨e, he⟩ := xptInit2_error (s := ⟨[], xptMode⟩) hrefused
    exact follows_of_error he

end Cases

/-- The only worker, and a library that never fails. -/
def loneWorker : System := ⟨true, false, 0, 1, fun _ _ _ => true, fun _ => true, fun _ => by decide⟩

def noSettings : Environment := ⟨none, none, none, none⟩

/-- Without any setting nothing is flushed, and a string that names no policy is no error. -/
theorem not_xpt_init_follows :
    ¬PolicyFollows loneWorker noSettings none ∧
      ¬PolicyFollows loneWorker { noSettings with flush := some ['x'] } none := by
  have hindex : ∀ env : Environment, env.indexMax = none → ¬env.Refused := by
    rintro env hnone ⟨v, hv, -⟩
    rw [hnone] at hv
    exact absurd hv (by simp)
  exact ⟨not_policyFollows (by decide) (hindex _ rfl), not_policyFollows (by decide) (hindex _ rfl)⟩

end Turbine.Checkpoint
