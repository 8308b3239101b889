import Turbine.DeepWait.Model
import Turbine.Library.Obligations

/-! What the clients of a deep wait agree on: every duty is done once, by a client or by a rule
that waits for what the duty promises to be closed. -/

namespace Turbine.DeepWait

open Turbine.Library.Programs Turbine.Library.Interleaving Turbine.Library.Obligations

/-! ### What is waited for -/

/-- The datum that a leaf is waited for by, if by any. There is none for a value that does not
have its base type, and none for a struct whose fields are followed. -/
def leaf : BaseType → Value → Option (Option ℕ)
  | .ref, value | .structRef [] _ _, value => (asTd value).toOption.map some
  | .fileRef, value => (getFileStatus value).toOption.map some
  | .scalar _, _ => some none
  | _, _ => none

variable (D : Contents)

def Fits : ℕ → BaseType → Value → Prop
  | 0, baseType, value => (leaf baseType value).isSome
  | n + 1, baseType, value =>
    ∃ c, value = .td c ∧ ∀ member ∈ D.members c, Fits n baseType member

/-- The containers down to a nest level and the leaves below them. -/
def target : ℕ → BaseType → Value → Set ℕ
  | 0, baseType, value => {d | leaf baseType value = some (some d)}
  | n + 1, baseType, value =>
    {d | value = .td d ∨ ∃ c, value = .td c ∧ ∃ member ∈ D.members c, d ∈ target n baseType member}

def memberTargets (n : ℕ) (baseType : BaseType) (members : List Value) : Set ℕ :=
  {d | ∃ member ∈ members, d ∈ target D n baseType member}

variable {D}

lemma target_td (n : ℕ) (baseType : BaseType) (c : ℕ) :
    target D (n + 1) baseType (.td c) = insert c (memberTargets D n baseType (D.members c)) := by
  ext d
  simp [target, memberTargets, eq_comm]

lemma Fits.members {n : ℕ} {baseType : BaseType} {c : ℕ} (h : Fits D (n + 1) baseType (.td c)) :
    ∀ member ∈ D.members c, Fits D n baseType member := by
  obtain ⟨_, ⟨⟩, hmembers⟩ := h
  exact hmembers

@[simp] lemma memberTargets_nil (n : ℕ) (baseType : BaseType) :
    memberTargets D n baseType [] = ∅ := by
  simp [memberTargets]

@[simp] lemma memberTargets_cons (n : ℕ) (baseType : BaseType) (member : Value)
    (members : List Value) :
    memberTargets D n baseType (member :: members) =
      target D n baseType member ∪ memberTargets D n baseType members := by
  ext d
  simp [memberTargets]

/-! ### The duties of an action -/

def UserAction.duty : UserAction → Duty
  | .user => .eval
  | .fireSignal signal => .store signal

def Action.duty : Action → Duty
  | .storeVoid signal | .containerDeepWaitIterate _ _ _ _ _ signal _
  | .containerRecDeepWait _ _ _ signal | .deepruleFireSignal _ signal
  | .structRefRecDeepWaitReady _ _ signal => .store signal
  | .deepruleAction _ action => action.duty

def Action.allocated : Action → List ℕ
  | .containerDeepWaitIterate _ _ _ _ _ _ signals | .deepruleFireSignal signals _
  | .deepruleAction signals _ => signals
  | _ => []

def releases (signals : List ℕ) : Multiset Duty := (signals.map Duty.release : List Duty)

def Action.duties (a : Action) : Multiset Duty := a.duty ::ₘ releases a.allocated

def waiting (rules : List Rule) : Multiset Duty := (rules.map fun r => r.action.duties).sum

/-- The duties there are when the signals below a number are allocated. -/
def issued : ℕ → Multiset Duty
  | 0 => {.eval}
  | n + 1 => .store n ::ₘ .release n ::ₘ issued n

@[simp] lemma releases_nil : releases [] = 0 := rfl

@[simp] lemma releases_cons (signal : ℕ) (signals : List ℕ) :
    releases (signal :: signals) = .release signal ::ₘ releases signals := rfl

lemma releases_append (signals signals' : List ℕ) :
    releases (signals ++ signals') = releases signals + releases signals' := by
  simp [releases]

lemma waiting_append (rules rules' : List Rule) :
    waiting (rules ++ rules') = waiting rules + waiting rules' := by
  simp [waiting]

@[simp] lemma waiting_singleton (r : Rule) : waiting [r] = r.action.duties := by
  simp [waiting]

lemma duty_mem_waiting {rules : List Rule} {r : Rule} (h : r ∈ rules) :
    r.action.duty ∈ waiting rules := by
  obtain ⟨before, after, rfl⟩ := List.append_of_mem h
  simp [waiting, Action.duties]

@[simp] lemma eval_mem_issued (n : ℕ) : Duty.eval ∈ issued n := by
  induction n with
  | zero => simp [issued]
  | succ n ih => simp [issued, ih]

@[simp] lemma store_mem_issued {signal n : ℕ} : .store signal ∈ issued n ↔ signal < n := by
  induction n with
  | zero => simp [issued]
  | succ n ih => simp [issued, ih]; omega

@[simp] lemma release_mem_issued {signal n : ℕ} : .release signal ∈ issued n ↔ signal < n := by
  induction n with
  | zero => simp [issued]
  | succ n ih => simp [issued, ih]; omega

lemma issued_nodup (n : ℕ) : (issued n).Nodup := by
  induction n with
  | zero => simp [issued]
  | succ n ih => simp [issued, ih]

/-! ### The log of suspensions -/

def Action.suspendedAt (container signal : ℕ) : Action → Option ℕ
  | .containerDeepWaitIterate c progress (some _) _ _ sig _ =>
    if c = container ∧ sig = signal then some progress else none
  | _ => none

/-- The progress at which the wait for a container was suspended, each time. -/
def suspensions (container signal : ℕ) (s : Server) : List ℕ :=
  s.posted.filterMap (Action.suspendedAt container signal)

def Action.Logged (s : Server) : Action → Prop
  | .containerDeepWaitIterate c progress (some _) _ _ signal _ =>
    ∀ q ∈ suspensions c signal s, q ≤ progress
  | .containerDeepWaitIterate _ _ none _ _ signal _ | .containerRecDeepWait _ _ _ signal =>
    ∀ c, suspensions c signal s = []
  | _ => True

/-- What the log has to be for an action to be added to it. -/
def Action.Advances (D : Contents) (s : Server) : Action → Prop
  | .containerDeepWaitIterate c progress (some _) _ _ signal _ =>
    (∀ q ∈ suspensions c signal s, q < progress) ∧ progress < (D.members c).length
  | a => a.Logged s

lemma Action.Logged.congr {s s' : Server} {a : Action} (h : a.Logged s)
    (hs : ∀ signal, a.duty = .store signal →
      ∀ c, suspensions c signal s' = suspensions c signal s) : a.Logged s' := by
  cases a with
  | containerDeepWaitIterate c progress n nestLevel baseType signal allocated =>
    cases n with
    | none => exact fun c => (hs signal rfl c).trans (h c)
    | some n =>
      intro q hq
      rw [hs signal rfl c] at hq
      exact h q hq
  | containerRecDeepWait c nestLevel baseType signal =>
    exact fun c => (hs signal rfl c).trans (h c)
  | _ => trivial

lemma Action.Advances.congr {s s' : Server} {a : Action} (h : a.Advances D s)
    (hs : ∀ signal, a.duty = .store signal →
      ∀ c, suspensions c signal s' = suspensions c signal s) : a.Advances D s' := by
  cases a with
  | containerDeepWaitIterate c progress n nestLevel baseType signal allocated =>
    cases n with
    | none => exact fun c => (hs signal rfl c).trans (h c)
    | some n =>
      refine ⟨fun q hq => ?_, h.2⟩
      rw [hs signal rfl c] at hq
      exact h.1 q hq
  | containerRecDeepWait c nestLevel baseType signal =>
    exact fun c => (hs signal rfl c).trans (h c)
  | _ => trivial

lemma suspendedAt_eq_some {container signal p : ℕ} {a : Action}
    (h : a.suspendedAt container signal = some p) :
    ∃ n nestLevel baseType allocated, a =
      .containerDeepWaitIterate container p (some n) nestLevel baseType signal allocated := by
  cases a with
  | containerDeepWaitIterate c progress n nestLevel baseType sig allocated =>
    cases n with
    | none => simp [Action.suspendedAt] at h
    | some n =>
      simp only [Action.suspendedAt, Option.ite_none_right_eq_some, Option.some.injEq] at h
      obtain ⟨⟨rfl, rfl⟩, rfl⟩ := h
      exact ⟨n, nestLevel, baseType, allocated, rfl⟩
  | _ => simp [Action.suspendedAt] at h

lemma suspensions_post (s : Server) (r : Rule) (c signal : ℕ) :
    suspensions c signal (s.post r) =
      suspensions c signal s ++ (r.action.suspendedAt c signal).toList := by
  cases h : r.action.suspendedAt c signal <;> simp [suspensions, Server.post, h]

lemma suspensions_post_of_ne {s : Server} {r : Rule} {c signal : ℕ}
    (h : r.action.duty ≠ .store signal) :
    suspensions c signal (s.post r) = suspensions c signal s := by
  rw [suspensions_post]
  cases hs : r.action.suspendedAt c signal with
  | none => simp
  | some p =>
    obtain ⟨_, _, _, _, ha⟩ := suspendedAt_eq_some hs
    simp [ha, Action.duty] at h

lemma Action.Advances.logged_post {s : Server} {r : Rule} (h : r.action.Advances D s) :
    r.action.Logged (s.post r) := by
  rcases r with ⟨inputs, a⟩
  cases a with
  | containerDeepWaitIterate c progress n nestLevel baseType signal allocated =>
    cases n with
    | none =>
      intro c'
      rw [suspensions_post, h c']
      simp [Action.suspendedAt]
    | some n =>
      intro q hq
      rw [suspensions_post, List.mem_append] at hq
      rcases hq with hq | hq
      · exact (h.1 q hq).le
      · obtain rfl : q = progress := by simpa [Action.suspendedAt] using hq
        exact le_rfl
  | containerRecDeepWait c nestLevel baseType signal =>
    intro c'
    rw [suspensions_post, h c']
    simp [Action.suspendedAt]
  | _ => trivial

end Turbine.DeepWait
