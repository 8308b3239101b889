import Mathlib

/-! External commands: how the wait status of a command becomes an error, and how often a
command that fails is tried. -/

namespace Turbine.App

/-- How a child process ended. -/
inductive Ended
  | exited (code : UInt8)
  | killed (signal : Fin 126) (core : Bool)

def Ended.waitStatus : Ended → ℕ
  | .exited code => code.toNat * 256
  | .killed signal core => signal + 1 + if core then 128 else 0

def wExitStatus (status : ℕ) : ℕ := status / 256 % 256

/-- `exec_system`: its result, and the exit code it reports. -/
def execSystem (status : ℕ) : Bool × ℕ :=
  let exitcode := wExitStatus status
  if status ≠ 0 then (false, exitcode) else (true, exitcode)

inductive TclVersion | v85 | v86
  deriving DecidableEq

-- the error code and the message; of `-errorinfo` what the command itself adds
structure TclError where
  code : List String
  msg : String

def turbineErrorCode : List String := ["TURBINE", "ERROR"]

def turbineError (version : TclVersion) (args : List String) : TclError where
  code := match version with
    | .v86 => turbineErrorCode
    | .v85 => ["NONE"]
  msg := " ".intercalate args

/-- `Sync_Exec_Cmd` from the call of `exec_system` on. -/
def syncExec (version : TclVersion) (status : ℕ) : Except TclError Unit :=
  let exitcode := (execSystem status).2
  if exitcode ≠ 0 then
    let msg := s!"shell: Command failed with exit code: {exitcode}"
    match version with
    | .v86 => .error (turbineError version [msg])
    | .v85 => .error ⟨["NONE"], msg⟩
  else .ok ()

structure Settings where
  version : TclVersion
  appRetries : ℕ
  hostname : String

/-- `app_error`: an error once all tries are used up. -/
def appError (env : Settings) (tries : ℕ) (msg cmd : String) : Except TclError Unit :=
  if tries ≤ env.appRetries then .ok ()
  else .error (turbineError env.version
    ["app execution failed", "on:", env.hostname, s!"\n {msg}", s!"\n command: {cmd}"])

/-- The attempts that were made, and how the command ended. -/
structure Finished where
  attempts : ℕ
  result : Except TclError Unit

-- what the two versions do with an error of `sync_exec`: 8.6 traps those of Turbine only
def retry (env : Settings) (cmd : String) (tries : ℕ) (err : TclError) : Except TclError Unit :=
  match env.version with
  | .v86 => if err.code = turbineErrorCode then appError env tries err.msg cmd else .error err
  | .v85 => appError env tries err.msg cmd

/-- The loop of `exec_external`, going round at most `fuel` times; the number counts the tries
so far, and `ended` says how each attempt ends. -/
def execLoop (env : Settings) (cmd : String) (ended : ℕ → Ended) : ℕ → ℕ → Option Finished
  | 0, _ => none
  | fuel + 1, tries =>
    match syncExec env.version (ended tries).waitStatus with
    | .ok () => some ⟨tries + 1, .ok ()⟩
    | .error err =>
      match retry env cmd (tries + 1) err with
      | .error err => some ⟨tries + 1, .error err⟩
      | .ok () => execLoop env cmd ended fuel (tries + 1)

def execExternal (env : Settings) (cmd : String) (ended : ℕ → Ended) : Option Finished :=
  execLoop env cmd ended (env.appRetries + 1) 0

/-! ### What counts as a success -/

def Ended.Passes : Ended → Prop
  | .exited code => code = 0
  | .killed .. => True

def Ended.Killed : Ended → Prop
  | .exited _ => False
  | .killed .. => True

def Ended.Success (e : Ended) : Prop := e = .exited 0

lemma passes_iff (e : Ended) : e.Passes ↔ e.Success ∨ e.Killed := by
  cases e <;> simp [Ended.Passes, Ended.Success, Ended.Killed]

lemma wExitStatus_eq_zero (e : Ended) : wExitStatus e.waitStatus = 0 ↔ e.Passes := by
  cases e with
  | exited code =>
    have hlt := code.toNat_lt
    have hcode : code = 0 ↔ code.toNat = 0 := by
      rw [← UInt8.toNat_inj]
      rfl
    rw [Ended.Passes, hcode, wExitStatus, Ended.waitStatus, Nat.mul_div_cancel _ (by norm_num)]
    omega
  | killed signal core =>
    have hlt : (signal : ℕ) + 1 + (if core then 128 else 0) < 256 := by
      have := signal.isLt
      split <;> omega
    simp only [wExitStatus, Ended.waitStatus, Ended.Passes, Nat.div_eq_of_lt hlt, Nat.zero_mod]

@[simp] lemma execSystem_exitcode (status : ℕ) : (execSystem status).2 = wExitStatus status := by
  unfold execSystem
  split <;> rfl

lemma syncExec_ok {version : TclVersion} {e : Ended} (h : e.Passes) :
    syncExec version e.waitStatus = .ok () := by
  simp [syncExec, (wExitStatus_eq_zero e).mpr h]

-- a failed attempt is one that both versions try again
lemma syncExec_error (env : Settings) {e : Ended} (h : ¬ e.Passes) :
    ∃ err, syncExec env.version e.waitStatus = .error err ∧
      ∀ cmd tries, retry env cmd tries err = appError env tries err.msg cmd := by
  have hne : wExitStatus e.waitStatus ≠ 0 := (wExitStatus_eq_zero e).not.mpr h
  cases hv : env.version with
  | v86 => exact ⟨_, by simp [syncExec, hne]; rfl, fun cmd tries => by simp [retry, hv, turbineError]⟩
  | v85 => exact ⟨_, by simp [syncExec, hne]; rfl, fun cmd tries => by simp [retry, hv]⟩

/-! ### Runs of the loop -/

variable {env : Settings} {cmd : String} {ended : ℕ → Ended}

lemma execLoop_passes {fuel tries : ℕ} (h : (ended tries).Passes) :
    execLoop env cmd ended (fuel + 1) tries = some ⟨tries + 1, .ok ()⟩ := by
  simp [execLoop, syncExec_ok h]

lemma execLoop_last {fuel tries : ℕ} (h : ¬ (ended tries).Passes)
    (ht : env.appRetries < tries + 1) :
    ∃ err, execLoop env cmd ended (fuel + 1) tries = some ⟨tries + 1, .error err⟩ := by
  obtain ⟨err, herr, hretry⟩ := syncExec_error env h
  simp [execLoop, herr, hretry, appError, not_le.mpr ht]

lemma execLoop_again {fuel tries : ℕ} (h : ¬ (ended tries).Passes)
    (ht : tries + 1 ≤ env.appRetries) :
    execLoop env cmd ended (fuel + 1) tries = execLoop env cmd ended fuel (tries + 1) := by
  obtain ⟨err, herr, hretry⟩ := syncExec_error env h
  simp [execLoop, herr, hretry, appError, ht]

/-- The loop ends at the first attempt that passes, or after the last one. -/
inductive Ends (env : Settings) (ended : ℕ → Ended) : Finished → Prop
  | passed {k} : k ≤ env.appRetries → (ended k).Passes → (∀ j < k, ¬ (ended j).Passes) →
      Ends env ended ⟨k + 1, .ok ()⟩
  | failed {err} : (∀ j ≤ env.appRetries, ¬ (ended j).Passes) →
      Ends env ended ⟨env.appRetries + 1, .error err⟩

lemma execLoop_ends (cmd : String) (fuel : ℕ) {tries : ℕ} (hfuel : fuel + tries = env.appRetries + 1)
    (hpos : 0 < fuel) (h : ∀ j < tries, ¬ (ended j).Passes) :
    ∃ f, execLoop env cmd ended fuel tries = some f ∧ Ends env ended f := by
  induction fuel generalizing tries with
  | zero => omega
  | succ fuel ih =>
    by_cases hpasses : (ended tries).Passes
    · exact ⟨_, execLoop_passes hpasses, .passed (by omega) hpasses h⟩
    · have h' : ∀ j < tries + 1, ¬ (ended j).Passes := by
        intro j hj
        rcases Nat.lt_succ_iff_lt_or_eq.mp hj with hlt | rfl
        · exact h j hlt
        · exact hpasses
      by_cases hlast : env.appRetries < tries + 1
      · obtain ⟨err, herr⟩ := @execLoop_last _ cmd _ fuel _ hpasses hlast
        obtain rfl : tries = env.appRetries := by omega
        exact ⟨_, herr, .failed fun j hj => h' j (by omega)⟩
      · rw [execLoop_again hpasses (by omega)]
        exact ih (by omega) (by omega) h'

theorem execExternal_ends (env : Settings) (cmd : String) (ended : ℕ → Ended) :
    ∃ f, execExternal env cmd ended = some f ∧ Ends env ended f :=
  execLoop_ends cmd _ rfl (Nat.succ_pos _) fun j hj => absurd hj (Nat.not_lt_zero j)

/-! ### Failing exactly when the command fails -/

/-- At most `r + 1` attempts are made, up to the first success; and without a success there is
an error. -/
structure FailsWhenFailed (env : Settings) (ended : ℕ → Ended) (f : Finished) : Prop where
  attempts_le : f.attempts ≤ env.appRetries + 1
  ok_iff : f.result = .ok () ↔ ∃ k ≤ env.appRetries, (ended k).Success
  stops : ∀ k ≤ env.appRetries, (ended k).Success → (∀ j < k, ¬ (ended j).Success) →
    f.attempts = k + 1

/-- No attempt is killed before the first success. -/
def NoneKilled (env : Settings) (ended : ℕ → Ended) : Prop :=
  ∀ k ≤ env.appRetries, (ended k).Killed → ∃ j < k, (ended j).Success

lemma exists_first {P : ℕ → Prop} {r : ℕ} (h : ∃ k ≤ r, P k) :
    ∃ k ≤ r, P k ∧ ∀ j < k, ¬ P j := by
  classical
  obtain ⟨k, hk, hp⟩ := h
  have hex : ∃ k, P k := ⟨k, hp⟩
  exact ⟨Nat.find hex, (Nat.find_min' hex hp).trans hk, Nat.find_spec hex,
    fun j hj => Nat.find_min hex hj⟩

lemma Ended.Success.not_killed {e : Ended} (h : e.Success) : ¬ e.Killed := by
  rw [Ended.Success] at h
  subst h
  exact id

lemma passed_iff {k : ℕ} (hk : k ≤ env.appRetries) (hpasses : (ended k).Passes)
    (hfirst : ∀ j < k, ¬ (ended j).Passes) :
    FailsWhenFailed env ended ⟨k + 1, .ok ()⟩ ↔ NoneKilled env ended := by
  have hnone : ∀ j < k, ¬ (ended j).Success := fun j hj hs =>
    hfirst j hj ((passes_iff _).mpr (.inl hs))
  constructor
  · intro h k' hk' hkilled
    obtain ⟨m, hm, hs, hmin⟩ := exists_first (h.ok_iff.mp rfl)
    obtain rfl : k = m := Nat.succ_injective (h.stops m hm hs hmin)
    rcases lt_trichotomy k k' with hlt | rfl | hlt
    · exact ⟨k, hlt, hs⟩
    · exact absurd hkilled hs.not_killed
    · exact absurd ((passes_iff _).mpr (.inr hkilled)) (hfirst k' hlt)
  · intro h
    have hs : (ended k).Success := by
      rcases (passes_iff _).mp hpasses with hs | hkilled
      · exact hs
      · obtain ⟨j, hj, hs⟩ := h k hk hkilled
        exact absurd hs (hnone j hj)
    refine ⟨Nat.succ_le_succ hk, ⟨fun _ => ⟨k, hk, hs⟩, fun _ => rfl⟩, ?_⟩
    intro k' _ hs' hmin
    rcases lt_trichotomy k k' with hlt | rfl | hlt
    · exact absurd hs (hmin k hlt)
    · rfl
    · exact absurd hs' (hnone k' hlt)

lemma failed_iff {err : TclError} (hall : ∀ j ≤ env.appRetries, ¬ (ended j).Passes) :
    FailsWhenFailed env ended ⟨env.appRetries + 1, .error err⟩ ↔ NoneKilled env ended := by
  have hnone : ∀ j ≤ env.appRetries, ¬ (ended j).Success := fun j hj hs =>
    hall j hj ((passes_iff _).mpr (.inl hs))
  constructor
  · intro _ k hk hkilled
    exact absurd ((passes_iff _).mpr (.inr hkilled)) (hall k hk)
  · intro _
    refine ⟨le_rfl, ⟨(fun h => by cases h), ?_⟩, ?_⟩
    · rintro ⟨k, hk, hs⟩
      exact absurd hs (hnone k hk)
    · intro k hk hs
      exact absurd hs (hnone k hk)

/-- A command that is killed passes for one that succeeded, and nothing else does. -/
theorem failsWhenFailed_iff (env : Settings) (cmd : String) (ended : ℕ → Ended) :
    (∃ f, execExternal env cmd ended = some f ∧ FailsWhenFailed env ended f) ↔
      NoneKilled env ended := by
  obtain ⟨f, hf, hends⟩ := execExternal_ends env cmd ended
  have honly : (∃ f, execExternal env cmd ended = some f ∧ FailsWhenFailed env ended f) ↔
      FailsWhenFailed env ended f := by
    simp [hf]
  rw [honly]
  cases hends with
  | passed hk hpasses hfirst => exact passed_iff hk hpasses hfirst
  | failed hall => exact failed_iff hall

-- every attempt is killed, and there is no error
theorem not_failsWhenFailed_killed :
    ¬ ∀ (env : Settings) (cmd : String) (ended : ℕ → Ended),
      ∃ f, execExternal env cmd ended = some f ∧ FailsWhenFailed env ended f := by
  intro h
  obtain ⟨f, hf, hmeets⟩ := h ⟨.v86, 0, "localhost"⟩ "sleep" fun _ => .killed 8 false
  obtain rfl : (⟨1, .ok ()⟩ : Finished) = f := Option.some.inj hf
  obtain ⟨k, _, hs⟩ := hmeets.ok_iff.mp rfl
  exact hs.not_killed trivial

end Turbine.App
