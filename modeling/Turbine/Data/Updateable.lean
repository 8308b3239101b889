import Turbine.Library.Interleaving

/-! Updateable variables: updates by any number of clients, each under the lock of the datum. -/

namespace Turbine.Data.Updateable

open Turbine.Library.Programs Turbine.Library.Interleaving

inductive UpdateKind | min | incr | scale
  deriving DecidableEq

/-- One update: what is done, and the datum its operand is read from. -/
structure Update where
  kind : UpdateKind
  val : ℕ
  deriving DecidableEq

inductive UpdateCall
  | retrieveDecrFloat (val : ℕ)
  | lock
  | after (ms : ℕ)
  | retrieve
  | store (v : ℚ)
  | unlock
  | writeRefcountDecr

abbrev UpdateCall.Ret : UpdateCall → Type
  | .retrieveDecrFloat _ | .retrieve => ℚ
  | .lock => Bool
  | .after _ | .store _ | .unlock | .writeRefcountDecr => Unit

abbrev Client : Type → Type := ExceptT String (Prog UpdateCall UpdateCall.Ret)

def call (c : UpdateCall) : Client c.Ret := ExceptT.lift (.call c .done)

abbrev retrieveDecrFloat (val : ℕ) : Client ℚ := call (.retrieveDecrFloat val)
abbrev adlbLock : Client Bool := call .lock
abbrev after (ms : ℕ) : Client Unit := call (.after ms)
abbrev adlbRetrieve : Client ℚ := call .retrieve
abbrev adlbStore (v : ℚ) : Client Unit := call (.store v)
abbrev adlbUnlock : Client Unit := call .unlock
abbrev writeRefcountDecr : Client Unit := call .writeRefcountDecr

/-! ### The procedures -/

def maxLockTries : ℕ := 1000

-- `i` counts up to the limit; the number counts the tries that are left
def lockTries (id : ℕ) : ℕ → Client Unit
  | 0 => do
    if ← adlbLock then pure () else throw s!"Could not lock: {id}"
  | left + 1 => do
    if ← adlbLock then pure ()
    else do
      after (maxLockTries - (left + 1))
      lockTries id left

def lockLoop (id : ℕ) : Client Unit := lockTries id maxLockTries

def storeIfLess (val old : ℚ) : Client Unit :=
  if old > val then adlbStore val else pure ()

def updateMinImpl (x : ℕ) (val : ℚ) : Client Unit := do
  lockLoop x
  let old ← adlbRetrieve
  storeIfLess val old
  adlbUnlock

def updateIncrImpl (x : ℕ) (val : ℚ) : Client Unit := do
  lockLoop x
  let old ← adlbRetrieve
  adlbStore (val + old)
  adlbUnlock

def updateScaleImpl (x : ℕ) (val : ℚ) : Client Unit := do
  lockLoop x
  let old ← adlbRetrieve
  adlbStore (val * old)
  adlbUnlock

def updateImpl (x : ℕ) : UpdateKind → ℚ → Client Unit
  | .min => updateMinImpl x
  | .incr => updateIncrImpl x
  | .scale => updateScaleImpl x

-- `update_min_body`, `update_incr_body` and `update_scale_body` differ in the update they call
def updateBody (x : ℕ) (u : Update) : Client Unit := do
  let val ← retrieveDecrFloat u.val
  updateImpl x u.kind val
  writeRefcountDecr

/-- The updates that a client completed, and the error that ended it, if any. -/
structure Finished where
  completed : List Update
  error : Option String

def updates (x : ℕ) : List Update → Prog UpdateCall UpdateCall.Ret Finished
  | [] => pure ⟨[], none⟩
  | u :: us => do
    match ← (updateBody x u).run with
    | .error msg => pure ⟨[], some msg⟩
    | .ok () => do
      let rest ← updates x us
      pure ⟨u :: rest.completed, rest.error⟩

/-! ### The server -/

variable {ι : Type}

structure Server (ι : Type) where
  lock : Option ι
  value : ℚ

def start (x₀ : ℚ) : Server ι := ⟨none, x₀⟩

inductive Reply (operand : ℕ → ℚ) : Server ι → ι → (c : UpdateCall) → c.Ret → Server ι → Prop
  | operand {s i val} : Reply operand s i (.retrieveDecrFloat val) (operand val) s
  | locked {s i} : s.lock = none → Reply operand s i .lock true { s with lock := some i }
  | busy {s i} : s.lock ≠ none → Reply operand s i .lock false s
  | after {s i ms} : Reply operand s i (.after ms) () s
  | retrieve {s i} : Reply operand s i .retrieve s.value s
  | store {s i v} : Reply operand s i (.store v) () { s with value := v }
  | unlock {s i} : Reply operand s i .unlock () { s with lock := none }
  | writeRefcountDecr {s i} : Reply operand s i .writeRefcountDecr () s

def server (operand : ℕ → ℚ) : World (Server ι) (ι × UpdateCall) fun c => c.2.Ret where
  reply s c r s' := Reply operand s c.1 c.2 r s'

/-! ### Updates one after the other -/

def UpdateKind.apply : UpdateKind → ℚ → ℚ → ℚ
  | .min, val, old => old ⊓ val
  | .incr, val, old => val + old
  | .scale, val, old => val * old

def applyAll (operand : ℕ → ℚ) (us : List Update) (x₀ : ℚ) : ℚ :=
  us.foldl (fun old u => u.kind.apply (operand u.val) old) x₀

/-- A call that reads or writes the value, or gives up the lock. -/
def UpdateCall.Guarded : UpdateCall → Prop
  | .retrieve | .store _ | .unlock => True
  | _ => False

/-! ### What the clients agree on -/

-- the completed updates in the order of their unlocking, and those of each client
structure Ghost (ι : Type) where
  order : List Update
  completed : ι → List Update

variable (operand : ℕ → ℚ) (x₀ : ℚ)

def Ghost.value (g : Ghost ι) : ℚ := applyAll operand g.order x₀

structure Inv [Fintype ι] (s : Server ι × Ghost ι) : Prop where
  order_eq : (s.2.order : Multiset Update) = ∑ i, (s.2.completed i : Multiset Update)
  value_eq : s.1.lock = none → s.1.value = s.2.value operand x₀

structure Rely (i : ι) (s s' : Server ι × Ghost ι) : Prop where
  completed_eq : s'.2.completed i = s.2.completed i
  lock_iff : s'.1.lock = some i ↔ s.1.lock = some i
  held : s.1.lock = some i → s'.1.value = s.1.value ∧ s'.2.order = s.2.order

lemma Rely.refl {i : ι} {s : Server ι × Ghost ι} : Rely i s s :=
  ⟨rfl, Iff.rfl, fun _ => ⟨rfl, rfl⟩⟩

lemma Rely.trans {i : ι} {s t u : Server ι × Ghost ι} (h : Rely i s t) (h' : Rely i t u) :
    Rely i s u := by
  refine ⟨h'.completed_eq.trans h.completed_eq, h'.lock_iff.trans h.lock_iff, ?_⟩
  intro hl
  obtain ⟨hv, ho⟩ := h.held hl
  obtain ⟨hv', ho'⟩ := h'.held (h.lock_iff.mpr hl)
  exact ⟨hv'.trans hv, ho'.trans ho⟩

def pact [Fintype ι] : Pact ι (Server ι × Ghost ι) where
  inv := Inv operand x₀
  rely := Rely
  rely_refl _ _ := .refl
  rely_trans := .trans

def lockHeld (s : Server ι × Ghost ι) (i : ι) (c : UpdateCall) : Prop :=
  c.Guarded → s.1.lock = some i

/-! ### What one client asks -/

variable {operand x₀} {i : ι} {t : Server ι × Ghost ι} {α : Type}
  {Q : Except String α → Server ι × Ghost ι → Prop}

-- a client between its updates
def Outside (i : ι) (completed : List Update) (s : Server ι × Ghost ι) : Prop :=
  s.2.completed i = completed ∧ s.1.lock ≠ some i

-- a client that holds the lock, when the value is `f` of the value that it found
structure Inside (operand : ℕ → ℚ) (x₀ : ℚ) (i : ι) (completed : List Update) (f : ℚ → ℚ)
    (s : Server ι × Ghost ι) : Prop where
  completed_eq : s.2.completed i = completed
  lock_eq : s.1.lock = some i
  value_eq : s.1.value = f (s.2.value operand x₀)

lemma Outside.stable {completed : List Update} {s : Server ι × Ghost ι}
    (h : Outside i completed t) (hr : Rely i t s) : Outside i completed s :=
  ⟨hr.completed_eq.trans h.1, fun hl => h.2 (hr.lock_iff.mp hl)⟩

lemma Inside.stable {completed : List Update} {f : ℚ → ℚ} {s : Server ι × Ghost ι}
    (h : Inside operand x₀ i completed f t) (hr : Rely i t s) :
    Inside operand x₀ i completed f s := by
  obtain ⟨hv, ho⟩ := hr.held h.lock_eq
  refine ⟨hr.completed_eq.trans h.completed_eq, hr.lock_iff.mpr h.lock_eq, ?_⟩
  rw [hv, h.value_eq, Ghost.value, Ghost.value, ho]

-- while one client holds the lock, no other relies on the value
lemma Rely.of_held {j : ι} {s s' : Server ι} {g : Ghost ι} (hl : s.lock = some i)
    (hl' : s'.lock = some i) (hj : j ≠ i) : Rely j (s, g) (s', g) := by
  refine ⟨rfl, by simp [hl, hl'], ?_⟩
  intro hlock
  simp [hl, hj.symm] at hlock

def Ghost.complete [DecidableEq ι] (g : Ghost ι) (i : ι) (u : Update) : Ghost ι where
  order := g.order ++ [u]
  completed := Function.update g.completed i (g.completed i ++ [u])

@[simp] lemma complete_order [DecidableEq ι] (g : Ghost ι) (u : Update) :
    (g.complete i u).order = g.order ++ [u] := rfl

@[simp] lemma complete_self [DecidableEq ι] (g : Ghost ι) (u : Update) :
    (g.complete i u).completed i = g.completed i ++ [u] := Function.update_self ..

lemma complete_of_ne [DecidableEq ι] {j : ι} (g : Ghost ι) (u : Update) (hj : j ≠ i) :
    (g.complete i u).completed j = g.completed j := Function.update_of_ne hj ..

section Client

variable [Fintype ι]

lemma keeps_call {c : UpdateCall} {Q : Except String c.Ret → Server ι × Ghost ι → Prop}
    (h : ∀ s g, Rely i t (s, g) → Inv operand x₀ (s, g) → lockHeld (s, g) i c ∧
      ∀ r s', Reply operand s i c r s' → ∃ g', Inv operand x₀ (s', g') ∧
        (∀ j, j ≠ i → Rely j (s, g) (s', g')) ∧ Q (.ok r) (s', g')) :
    Keeps (server operand) (pact operand x₀) lockHeld i (call c).run Q t := h

@[simp] lemma keeps_throw (msg : String) :
    Keeps (server operand) (pact operand x₀) lockHeld i (throw msg : Client α).run Q t ↔
      Q (.error msg) t := Iff.rfl

@[simp] lemma keeps_pure (a : α) :
    Keeps (server operand) (pact operand x₀) lockHeld i (pure a : Client α).run Q t ↔
      Q (.ok a) t := Iff.rfl

-- a call that leaves the datum and its lock alone
lemma keeps_outside {c : UpdateCall} {completed : List Update}
    {Q : Except String c.Ret → Server ι × Ghost ι → Prop} (hc : ¬ c.Guarded)
    (hsame : ∀ s r s', Reply operand s i c r s' → s' = s)
    (h : Outside i completed t) (hq : ∀ r s, Outside i completed s → Q (.ok r) s) :
    Keeps (server operand) (pact operand x₀) lockHeld i (call c).run Q t := by
  apply keeps_call
  intro s g hr hinv
  refine ⟨fun hg => absurd hg hc, ?_⟩
  intro r s' hreply
  obtain rfl := hsame s r s' hreply
  exact ⟨g, hinv, fun _ _ => .refl, hq r _ (h.stable hr)⟩

lemma keeps_lock {completed : List Update} {Q : Except String Bool → Server ι × Ghost ι → Prop}
    (h : Outside i completed t)
    (hlocked : ∀ s, Inside operand x₀ i completed id s → Q (.ok true) s)
    (hbusy : ∀ s, Outside i completed s → Q (.ok false) s) :
    Keeps (server operand) (pact operand x₀) lockHeld i adlbLock.run Q t := by
  apply keeps_call
  intro s g hr hinv
  refine ⟨(fun h => by cases h), ?_⟩
  have hout := h.stable hr
  intro r s' hreply
  cases hreply with
  | busy _ => exact ⟨g, hinv, fun _ _ => .refl, hbusy _ hout⟩
  | locked hfree =>
    refine ⟨g, ⟨hinv.order_eq, (fun h => by cases h)⟩, fun j hj => ⟨rfl, ?_, ?_⟩, hlocked _ ?_⟩
    · simp [hfree, hj.symm]
    · simp [hfree]
    · exact ⟨hout.1, rfl, hinv.value_eq hfree⟩

lemma keeps_retrieve {completed : List Update} {Q : Except String ℚ → Server ι × Ghost ι → Prop}
    (h : Inside operand x₀ i completed id t)
    (hq : ∀ s, Inside operand x₀ i completed id s → Q (.ok (s.2.value operand x₀)) s) :
    Keeps (server operand) (pact operand x₀) lockHeld i adlbRetrieve.run Q t := by
  apply keeps_call
  intro s g hr hinv
  have hin := h.stable hr
  refine ⟨fun _ => hin.lock_eq, ?_⟩
  intro r s' hreply
  cases hreply with
  | retrieve =>
    refine ⟨g, hinv, fun _ _ => .refl, ?_⟩
    rw [hin.value_eq]
    exact hq _ hin

lemma keeps_store {completed : List Update} {f : ℚ → ℚ} {v : ℚ}
    {Q : Except String Unit → Server ι × Ghost ι → Prop}
    (h : Inside operand x₀ i completed id t) (hv : v = f (t.2.value operand x₀))
    (hq : ∀ s, Inside operand x₀ i completed f s → Q (.ok ()) s) :
    Keeps (server operand) (pact operand x₀) lockHeld i (adlbStore v).run Q t := by
  apply keeps_call
  intro s g hr hinv
  have hin := h.stable hr
  have hg : g.value operand x₀ = t.2.value operand x₀ := by
    rw [Ghost.value, Ghost.value, (hr.held h.lock_eq).2]
  refine ⟨fun _ => hin.lock_eq, ?_⟩
  intro r s' hreply
  cases hreply with
  | store =>
    refine ⟨g, ⟨hinv.order_eq, ?_⟩, fun j hj => .of_held hin.lock_eq hin.lock_eq hj, hq _ ?_⟩
    · intro hfree
      exact absurd (hin.lock_eq.symm.trans hfree) (Option.some_ne_none i)
    · exact ⟨hin.completed_eq, hin.lock_eq, by rw [hv, ← hg]⟩

lemma sum_complete [DecidableEq ι] (g : Ghost ι) (u : Update) :
    ∑ j, ((g.complete i u).completed j : Multiset Update) =
      ∑ j, (g.completed j : Multiset Update) + {u} := by
  rw [← Finset.add_sum_erase _ _ (Finset.mem_univ i), ← Finset.add_sum_erase _
    (fun j => (g.completed j : Multiset Update)) (Finset.mem_univ i)]
  have hothers : ∑ j ∈ Finset.univ.erase i, ((g.complete i u).completed j : Multiset Update) =
      ∑ j ∈ Finset.univ.erase i, (g.completed j : Multiset Update) := by
    apply Finset.sum_congr rfl
    intro j hj
    rw [complete_of_ne g u (Finset.ne_of_mem_erase hj)]
  rw [hothers, complete_self, ← Multiset.coe_add, Multiset.coe_singleton]
  abel

lemma keeps_unlock [DecidableEq ι] {completed : List Update} {u : Update}
    {Q : Except String Unit → Server ι × Ghost ι → Prop}
    (h : Inside operand x₀ i completed (u.kind.apply (operand u.val)) t)
    (hq : ∀ s, Outside i (completed ++ [u]) s → Q (.ok ()) s) :
    Keeps (server operand) (pact operand x₀) lockHeld i adlbUnlock.run Q t := by
  apply keeps_call
  intro s g hr hinv
  have hin := h.stable hr
  have hl : s.lock = some i := hin.lock_eq
  refine ⟨fun _ => hl, ?_⟩
  intro r s' hreply
  cases hreply with
  | unlock =>
    refine ⟨g.complete i u, ⟨?_, ?_⟩, fun j hj => ⟨complete_of_ne g u hj, ?_, ?_⟩,
      hq _ ⟨?_, (fun h => by cases h)⟩⟩
    · rw [sum_complete, ← hinv.order_eq, complete_order, ← Multiset.coe_add,
        Multiset.coe_singleton]
    · intro _
      rw [Ghost.value, complete_order, applyAll, List.foldl_append]
      exact hin.value_eq
    · simp [hl, hj.symm]
    · intro hlock
      simp [hl, hj.symm] at hlock
    · rw [complete_self, hin.completed_eq]

lemma lockTries_keeps (x n : ℕ) {completed : List Update}
    {Q : Except String Unit → Server ι × Ghost ι → Prop} (h : Outside i completed t)
    (hok : ∀ s, Inside operand x₀ i completed id s → Q (.ok ()) s)
    (herr : ∀ msg s, Outside i completed s → Q (.error msg) s) :
    Keeps (server operand) (pact operand x₀) lockHeld i (lockTries x n).run Q t := by
  induction n generalizing t with
  | zero =>
    rw [lockTries, keeps_bind_except]
    apply keeps_lock h
    · exact fun s hs => hok s hs
    · exact fun s hs => herr _ s hs
  | succ n ih =>
    rw [lockTries, keeps_bind_except]
    apply keeps_lock h
    · exact fun s hs => hok s hs
    · intro s hs
      simp only [rest_ok, Bool.false_eq_true, if_false, keeps_bind_except]
      refine keeps_outside (c := .after _) (fun h => by cases h) ?_ hs fun _ s hs => ih hs
      rintro s r s' ⟨⟩
      rfl

-- what every implementation does with the value, and what it then is
lemma storeIfLess_keeps {completed : List Update} (val : ℚ)
    {Q : Except String Unit → Server ι × Ghost ι → Prop} (h : Inside operand x₀ i completed id t)
    (hq : ∀ s, Inside operand x₀ i completed (UpdateKind.min.apply val) s → Q (.ok ()) s) :
    Keeps (server operand) (pact operand x₀) lockHeld i
      (storeIfLess val (t.2.value operand x₀)).run Q t := by
  rw [storeIfLess]
  split
  · rename_i hlt
    exact keeps_store h (inf_of_le_right hlt.le).symm hq
  · rename_i hle
    have hmin : t.2.value operand x₀ ⊓ val = t.2.value operand x₀ := inf_of_le_left (not_lt.mp hle)
    exact hq t ⟨h.completed_eq, h.lock_eq, h.value_eq.trans hmin.symm⟩

def UpdateKind.write : UpdateKind → ℚ → ℚ → Client Unit
  | .min, val, old => storeIfLess val old
  | .incr, val, old => adlbStore (val + old)
  | .scale, val, old => adlbStore (val * old)

lemma updateImpl_eq (x : ℕ) (kind : UpdateKind) (val : ℚ) :
    updateImpl x kind val = (do
      lockLoop x
      let old ← adlbRetrieve
      kind.write val old
      adlbUnlock) := by
  cases kind <;> rfl

lemma write_keeps {completed : List Update} (kind : UpdateKind) (val : ℚ)
    {Q : Except String Unit → Server ι × Ghost ι → Prop} (h : Inside operand x₀ i completed id t)
    (hq : ∀ s, Inside operand x₀ i completed (kind.apply val) s → Q (.ok ()) s) :
    Keeps (server operand) (pact operand x₀) lockHeld i
      (kind.write val (t.2.value operand x₀)).run Q t := by
  cases kind with
  | min => exact storeIfLess_keeps val h hq
  | incr => exact keeps_store h rfl hq
  | scale => exact keeps_store h rfl hq

lemma updateBody_keeps [DecidableEq ι] (x : ℕ) (u : Update) {completed : List Update}
    {Q : Except String Unit → Server ι × Ghost ι → Prop} (h : Outside i completed t)
    (hok : ∀ s, Outside i (completed ++ [u]) s → Q (.ok ()) s)
    (herr : ∀ msg s, Outside i completed s → Q (.error msg) s) :
    Keeps (server operand) (pact operand x₀) lockHeld i (updateBody x u).run Q t := by
  rw [updateBody, keeps_bind_except]
  apply keeps_call
  intro s g hr hinv
  refine ⟨(fun h => by cases h), ?_⟩
  intro val s' hreply
  cases hreply with
  | operand =>
    refine ⟨g, hinv, fun _ _ => .refl, ?_⟩
    simp only [rest_ok, updateImpl_eq, keeps_bind_except]
    apply lockTries_keeps _ _ (h.stable hr)
    · intro s hs
      apply keeps_retrieve hs
      intro s hs
      simp only [rest_ok]
      apply write_keeps _ _ hs
      intro s hs
      apply keeps_unlock hs
      intro s hs
      refine keeps_outside (c := .writeRefcountDecr) (fun h => by cases h) ?_ hs fun _ => hok
      rintro s r s' ⟨⟩
      rfl
    · exact fun msg s hs => herr msg s hs

-- the completed updates a client ends with are those that were applied
def Accounts (completed : List Update) (i : ι) (r : Finished) (s : Server ι × Ghost ι) : Prop :=
  Outside i (completed ++ r.completed) s

lemma updates_keeps [DecidableEq ι] (x : ℕ) (us : List Update) {completed : List Update}
    (h : Outside i completed t) :
    Keeps (server operand) (pact operand x₀) lockHeld i (updates x us) (Accounts completed i)
      t := by
  induction us generalizing completed t with
  | nil => simpa [Accounts, updates] using h
  | cons u us ih =>
    rw [updates, keeps_bind]
    apply updateBody_keeps x u h
    · intro s hs
      simp only [keeps_bind]
      apply (ih hs).mono
      intro r s hr
      simpa [Accounts] using hr
    · intro msg s hs
      simpa [Accounts] using hs

end Client

/-! ### Any number of clients -/

variable [Fintype ι] [DecidableEq ι]

/-- Whoever reads or writes the value, or gives up the lock, holds it. -/
def Exclusive (ps : ι → Prog UpdateCall UpdateCall.Ret Finished) (s : Server ι) : Prop :=
  ∀ i c k, ps i = .call c k → c.Guarded → s.lock = some i

/-- When every client has ended, the value is that of their completed updates, applied one after
the other in some order. -/
def NoneLost (operand : ℕ → ℚ) (x₀ : ℚ) (ps : ι → Prog UpdateCall UpdateCall.Ret Finished)
    (s : Server ι) : Prop :=
  ∀ results : ι → Finished, (∀ i, ps i = .done (results i)) →
    ∃ order : List Update, (order : Multiset Update) = ∑ i, ((results i).completed : Multiset _) ∧
      s.value = applyAll operand order x₀

theorem updates_in_some_order (operand : ℕ → ℚ) (x : ℕ) (x₀ : ℚ) (bodies : ι → List Update)
    {ps : ι → Prog UpdateCall UpdateCall.Ret Finished} {s : Server ι}
    (hrun : Interleaved (server operand) (fun i => updates x (bodies i), start x₀) (ps, s)) :
    Exclusive ps s ∧ NoneLost operand x₀ ps s := by
  let g₀ : Ghost ι := ⟨[], fun _ => []⟩
  have hstart : Inv operand x₀ (start x₀, g₀) := ⟨by simp [g₀], fun _ => rfl⟩
  have hclients : ∀ i, Keeps (server operand) (pact operand x₀) lockHeld i (updates x (bodies i))
      (Accounts [] i) (start x₀, g₀) := by
    intro i
    apply updates_keeps x (bodies i)
    exact ⟨rfl, (fun h => by cases h)⟩
  have hstable : ∀ (i : ι) r t t', Accounts [] i r t → (pact operand x₀).rely i t t' →
      (pact operand x₀).inv t' → Accounts [] i r t' :=
    fun _ _ _ _ h hr _ => Outside.stable h hr
  obtain ⟨g, hinv, hkeeps⟩ := Keeps.interleaved hstable hstart hclients hrun
  constructor
  · exact fun i c k hp => (hkeeps i).asked hinv hp
  · intro results hdone
    have houtside : ∀ i, Outside i (results i).completed (s, g) :=
      fun i => (hkeeps i).returned (hdone i)
    have hcompleted : ∀ i, g.completed i = (results i).completed := fun i => (houtside i).1
    refine ⟨g.order, ?_, ?_⟩
    · simp only [hinv.order_eq, hcompleted]
    · apply hinv.value_eq
      exact Option.eq_none_iff_forall_ne_some.mpr fun i => (houtside i).2

-- the client `false` finds the lock taken and tries again
theorem updates_in_some_order_two :
    let operand : ℕ → ℚ := fun val => val
    let bodies : Bool → List Update := fun i => if i then [⟨.scale, 2⟩] else [⟨.incr, 5⟩]
    ∃ ps s, Interleaved (server operand) (fun i => updates 1 (bodies i), start 3) (ps, s) ∧
      s.value = 11 ∧ Exclusive ps s ∧ NoneLost operand 3 ps s := by
  intro operand bodies
  have h₀ : Interleaved (server operand) (fun i => updates 1 (bodies i), start 3) _ := .refl
  have h₁ := h₀.turn true rfl Reply.operand
  have h₂ := h₁.turn true rfl (Reply.locked rfl)
  have h₃ := h₂.turn false rfl Reply.operand
  have h₄ := h₃.turn false rfl (Reply.busy (fun h => by cases h))
  have h₅ := h₄.turn false rfl Reply.after
  have h₆ := h₅.turn true rfl Reply.retrieve
  have h₇ := h₆.turn true rfl Reply.store
  have h₈ := h₇.turn true rfl Reply.unlock
  have h₉ := h₈.turn false rfl (Reply.locked rfl)
  have h₁₀ := h₉.turn true rfl Reply.writeRefcountDecr
  have h₁₁ := h₁₀.turn false rfl Reply.retrieve
  have h₁₂ := h₁₁.turn false rfl Reply.store
  have h₁₃ := h₁₂.turn false rfl Reply.unlock
  have h₁₄ := h₁₃.turn false rfl Reply.writeRefcountDecr
  exact ⟨_, _, h₁₄, by norm_num [operand, start], updates_in_some_order operand 1 3 bodies h₁₄⟩

end Turbine.Data.Updateable
