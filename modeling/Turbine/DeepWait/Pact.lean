import Turbine.DeepWait.Duties

/-! The pact of the clients of a deep wait, and how each turn at the server keeps it. -/

namespace Turbine.DeepWait

open Turbine.Library.Programs Turbine.Library.Interleaving Turbine.Library.Obligations

variable {ι : Type}

def Server.closedSet (s : Server) : Set ℕ := {d | s.closedData d = true}

-- the data that each signal stands for, and the duties of each client
structure Ghost (ι : Type) where
  needs : ℕ → Set ℕ
  held : ι → Multiset Duty

def Ghost.hold [DecidableEq ι] (g : Ghost ι) (i : ι) (mine : Multiset Duty) : Ghost ι where
  needs := g.needs
  held := Function.update g.held i mine

/-- What is closed once all of these are. -/
def awaits (needs : ℕ → Set ℕ) (inputs : List Td) : Set ℕ :=
  {d | .data d ∈ inputs ∨ ∃ signal, .signal signal ∈ inputs ∧ d ∈ needs signal}

/-- What is closed when a duty is done; `G` is what the user's action waits for. -/
def promise (G : Set ℕ) (needs : ℕ → Set ℕ) : Duty → Set ℕ
  | .store signal => needs signal
  | .eval => G
  | .release _ => ∅

/-- What is closed when an action is run. -/
def Action.starts (D : Contents) : Action → Set ℕ
  | .containerDeepWaitIterate c progress (some _) _ baseType _ _ =>
    {d | d = c ∨ ∃ member, (D.members c)[progress]? = some member ∧
      leaf baseType member = some (some d)}
  | .containerDeepWaitIterate c _ none _ _ _ _ | .containerRecDeepWait c _ _ _ => {c}
  | _ => ∅

/-- What an action waits for itself. -/
def Action.after (D : Contents) : Action → Set ℕ
  | .containerDeepWaitIterate c progress _ _ baseType _ _ =>
    memberTargets D 0 baseType ((D.members c).drop progress)
  | .containerRecDeepWait c nestLevel baseType _ =>
    memberTargets D (nestLevel - 1).toNat baseType (D.members c)
  | _ => ∅

def Action.Shape (D : Contents) : Action → Prop
  | .containerDeepWaitIterate c progress n nestLevel baseType _ allocated =>
    nestLevel = 1 ∧ allocated = [] ∧ (∀ member ∈ D.members c, Fits D 0 baseType member) ∧
      (n = none ∧ progress = 0 ∨ n = some (D.members c).length)
  | .containerRecDeepWait c nestLevel baseType _ =>
    ∃ n : ℕ, nestLevel = n + 2 ∧ ∀ member ∈ D.members c, Fits D (n + 1) baseType member
  | .structRefRecDeepWaitReady .. | .deepruleAction _ (.fireSignal _) => False
  | _ => True

variable (D : Contents) (G : Set ℕ)

/-- An action that may be run: what it promises is closed, but for what it waits for itself. -/
structure Taken (a : Action) (t : Server × Ghost ι) : Prop where
  shape : a.Shape D
  starts : a.starts D ⊆ t.1.closedSet
  covered : promise G t.2.needs a.duty ⊆ t.1.closedSet ∪ a.after D
  after_le : a.after D ⊆ promise G t.2.needs a.duty
  logged : a.Logged t.1

/-- A rule whose action may be run when its inputs are closed. Signals that are waited for are
younger than the signal to be stored. -/
structure Sound (r : Rule) (t : Server × Ghost ι) : Prop where
  shape : r.action.Shape D
  starts : r.action.starts D ⊆ t.1.closedSet ∪ {d | .data d ∈ r.inputs}
  covered : promise G t.2.needs r.action.duty ⊆
    t.1.closedSet ∪ awaits t.2.needs r.inputs ∪ r.action.after D
  after_le : r.action.after D ⊆ promise G t.2.needs r.action.duty
  inputs_le : ∀ d, .data d ∈ r.inputs → d ∈ promise G t.2.needs r.action.duty
  allocated : ∀ signal, .signal signal ∈ r.inputs → signal < t.1.next
  younger : ∀ signal inner, r.action.duty = .store signal → .signal inner ∈ r.inputs →
    signal < inner

/-- Nothing is undone. -/
structure Grows (t t' : Server × Ghost ι) : Prop where
  closed : t.1.closedSet ⊆ t'.1.closedSet
  next : t.1.next ≤ t'.1.next
  needs : ∀ signal < t.1.next, t'.2.needs signal = t.2.needs signal

structure Inv [Fintype ι] (t : Server × Ghost ι) : Prop where
  sound : ∀ r ∈ t.1.rules, Sound D G r t
  logged : ∀ r ∈ t.1.rules, r.action.Logged t.1
  promised : ∀ d ∈ t.1.done, promise G t.2.needs d ⊆ t.1.closedSet
  within : ∀ signal < t.1.next, t.2.needs signal ⊆ G
  balanced : Balanced (issued t.1.next) t.1.done (waiting t.1.rules) t.2.held
  increasing : ∀ c signal, (suspensions c signal t.1).Pairwise (· < ·)
  bounded : ∀ c signal, ∀ p ∈ suspensions c signal t.1, p < (D.members c).length
  unused : ∀ c signal, t.1.next ≤ signal → suspensions c signal t.1 = []

structure Rely (i : ι) (t t' : Server × Ghost ι) : Prop where
  grows : Grows t t'
  held : t'.2.held i = t.2.held i
  log : ∀ signal, .store signal ∈ t.2.held i →
    ∀ c, suspensions c signal t'.1 = suspensions c signal t.1

variable {D G} {i j : ι} {s s' : Server} {g g' : Ghost ι} {t t' t'' : Server × Ghost ι}

@[refl] lemma Grows.refl : Grows t t := ⟨le_rfl, le_rfl, fun _ _ => rfl⟩

lemma Grows.trans (h : Grows t t') (h' : Grows t' t'') : Grows t t'' where
  closed := h.closed.trans h'.closed
  next := h.next.trans h'.next
  needs signal hs := (h'.needs signal (hs.trans_le h.next)).trans (h.needs signal hs)

@[refl] lemma Rely.refl : Rely i t t := ⟨.refl, rfl, fun _ _ _ => rfl⟩

lemma Rely.trans (h : Rely i t t') (h' : Rely i t' t'') : Rely i t t'' where
  grows := h.grows.trans h'.grows
  held := h'.held.trans h.held
  log signal hs c := (h'.log signal (h.held ▸ hs) c).trans (h.log signal hs c)

variable (D G) in
def pact [Fintype ι] : Pact ι (Server × Ghost ι) where
  inv := Inv D G
  rely := Rely
  rely_refl _ _ := .refl
  rely_trans := .trans

lemma Grows.promise_eq (h : Grows t t') {d : Duty} (hd : d ∈ issued t.1.next) :
    promise G t'.2.needs d = promise G t.2.needs d := by
  cases d with
  | store signal => exact h.needs signal (store_mem_issued.mp hd)
  | release signal => rfl
  | eval => rfl

lemma Grows.awaits_eq (h : Grows t t') {inputs : List Td}
    (hs : ∀ signal, .signal signal ∈ inputs → signal < t.1.next) :
    awaits t'.2.needs inputs = awaits t.2.needs inputs := by
  ext d
  simp only [awaits, Set.mem_ofPred_eq]
  refine or_congr Iff.rfl (exists_congr fun signal => and_congr_right fun hsignal => ?_)
  rw [h.needs signal (hs signal hsignal)]

lemma Sound.grows {r : Rule} (h : Sound D G r t) (hg : Grows t t')
    (hd : r.action.duty ∈ issued t.1.next) : Sound D G r t' where
  shape := h.shape
  starts := h.starts.trans (Set.union_subset_union_left _ hg.closed)
  covered := by
    rw [hg.promise_eq hd, hg.awaits_eq h.allocated]
    exact h.covered.trans (Set.union_subset_union_left _ (Set.union_subset_union_left _ hg.closed))
  after_le := by
    rw [hg.promise_eq hd]
    exact h.after_le
  inputs_le := by
    rw [hg.promise_eq hd]
    exact h.inputs_le
  allocated signal hs := (h.allocated signal hs).trans_le hg.next
  younger := h.younger

lemma Taken.grows {a : Action} (h : Taken D G a t) (hg : Grows t t')
    (hd : a.duty ∈ issued t.1.next) (hl : a.Logged t'.1) : Taken D G a t' where
  shape := h.shape
  starts := h.starts.trans hg.closed
  covered := by
    rw [hg.promise_eq hd]
    exact h.covered.trans (Set.union_subset_union_left _ hg.closed)
  after_le := by
    rw [hg.promise_eq hd]
    exact h.after_le
  logged := hl

section Turns

variable [Fintype ι]

lemma Inv.duty_issued (h : Inv D G t) {r : Rule} (hr : r ∈ t.1.rules) :
    r.action.duty ∈ issued t.1.next :=
  h.balanced.waiting_issued (duty_mem_waiting hr)

lemma Inv.signal_needs (h : Inv D G t) {signal : ℕ} (hc : t.1.closed (.signal signal) = true) :
    t.2.needs signal ⊆ t.1.closedSet :=
  h.promised (.store signal) (by simpa [Server.closed] using hc)

lemma Inv.awaits_closed (h : Inv D G t) {r : Rule} (hready : t.1.Ready r) :
    awaits t.2.needs r.inputs ⊆ t.1.closedSet := by
  rintro d (hd | ⟨signal, hs, hd⟩)
  · exact hready _ hd
  · exact h.signal_needs (hready _ hs) hd

/-- A rule whose inputs are closed has an action that may be run. -/
lemma Inv.taken (h : Inv D G t) {r : Rule} (hr : r ∈ t.1.rules) (hready : t.1.Ready r) :
    Taken D G r.action t where
  shape := (h.sound r hr).shape
  starts := by
    refine (h.sound r hr).starts.trans (Set.union_subset le_rfl fun d hd => ?_)
    exact hready _ hd
  covered := by
    refine (h.sound r hr).covered.trans (Set.union_subset_union_left _ ?_)
    exact Set.union_subset le_rfl (h.awaits_closed hready)
  after_le := (h.sound r hr).after_le
  logged := h.logged r hr

/-- A turn that posts no rule. -/
lemma Inv.turn (h : Inv D G (s, g)) (hg : Grows (s, g) (s', g'))
    (hrules : ∀ r ∈ s'.rules, r ∈ s.rules) (hposted : s'.posted = s.posted)
    (hdone : ∀ d ∈ s'.done, d ∈ s.done ∨ promise G g'.needs d ⊆ s'.closedSet)
    (hwithin : ∀ signal < s'.next, g'.needs signal ⊆ G)
    (hbalanced : Balanced (issued s'.next) s'.done (waiting s'.rules) g'.held) :
    Inv D G (s', g') := by
  have hlog : ∀ c signal, suspensions c signal s' = suspensions c signal s := by
    intro c signal
    rw [suspensions, suspensions, hposted]
  refine ⟨?_, ?_, ?_, hwithin, hbalanced, ?_, ?_, ?_⟩
  · exact fun r hr => (h.sound r (hrules r hr)).grows hg (h.duty_issued (hrules r hr))
  · exact fun r hr => (h.logged r (hrules r hr)).congr fun signal _ c => hlog c signal
  · intro d hd
    rcases hdone d hd with hold | hnew
    · rw [hg.promise_eq (h.balanced.done_issued hold)]
      exact (h.promised d hold).trans hg.closed
    · exact hnew
  · exact fun c signal => (hlog c signal).symm ▸ h.increasing c signal
  · exact fun c signal => (hlog c signal).symm ▸ h.bounded c signal
  · exact fun c signal hs => (hlog c signal).trans (h.unused c signal (hg.next.trans hs))

variable [DecidableEq ι]

omit [Fintype ι] in
@[simp] lemma hold_self (g : Ghost ι) (mine : Multiset Duty) : (g.hold i mine).held i = mine :=
  Function.update_self ..

omit [Fintype ι] in
lemma hold_of_ne (g : Ghost ι) (mine : Multiset Duty) (hj : j ≠ i) :
    (g.hold i mine).held j = g.held j :=
  Function.update_of_ne hj ..

omit [Fintype ι] in
lemma Rely.others {mine : Multiset Duty} (hg : Grows (s, g) (s', g'))
    (hheld : g'.held = Function.update g.held i mine) (hposted : s'.posted = s.posted)
    (hj : j ≠ i) : Rely j (s, g) (s', g') where
  grows := hg
  held := by
    rw [hheld]
    exact Function.update_of_ne hj ..
  log signal _ c := by
    rw [suspensions, suspensions, hposted]

/-- A client does one of its duties. -/
lemma Inv.perform {d : Duty} {rest : Multiset Duty} (h : Inv D G (s, g))
    (hd : g.held i = d ::ₘ rest) (hp : promise G g.needs d ⊆ s.closedSet) :
    Inv D G (s.perform d, g.hold i rest) := by
  refine @Inv.turn _ _ _ _ (s.perform d) _ (g.hold i rest) _ h ⟨le_rfl, le_rfl, fun _ _ => rfl⟩
    (fun _ hr => hr) rfl ?_ h.within ?_
  · intro d' hd'
    rcases List.mem_cons.mp hd' with rfl | hd'
    · exact .inr hp
    · exact .inl hd'
  · apply h.balanced.turn
    simp only [Server.perform, ← Multiset.cons_coe, hd, ← Multiset.singleton_add]
    abel

omit [Fintype ι] in
lemma Rely.perform {d : Duty} {rest : Multiset Duty} (hj : j ≠ i) :
    Rely j (s, g) (s.perform d, g.hold i rest) :=
  .others ⟨le_rfl, le_rfl, fun _ _ => rfl⟩ rfl rfl hj

def Ghost.allocate (g : Ghost ι) (i : ι) (signal : ℕ) (N : Set ℕ) : Ghost ι where
  needs := Function.update g.needs signal N
  held := Function.update g.held i (.store signal ::ₘ .release signal ::ₘ g.held i)

omit [Fintype ι] in
lemma Grows.allocate (N : Set ℕ) : Grows (s, g) (s.allocate, g.allocate i s.next N) where
  closed := le_rfl
  next := Nat.le_succ _
  needs _ hs := Function.update_of_ne hs.ne ..

lemma Inv.allocate {N : Set ℕ} (h : Inv D G (s, g)) (hN : N ⊆ G) :
    Inv D G (s.allocate, g.allocate i s.next N) := by
  refine h.turn (.allocate N) (fun _ hr => hr) rfl (fun _ hd => .inl hd) ?_ ?_
  · intro signal hs
    by_cases hsignal : signal = s.next
    · subst hsignal
      simpa [Ghost.allocate] using hN
    · have hlt : signal < s.next := by
        simp only [Server.allocate] at hs
        omega
      simpa [Ghost.allocate, Function.update_of_ne hsignal] using h.within signal hlt
  · apply h.balanced.turn
    simp only [Server.allocate, issued, ← Multiset.singleton_add]
    abel

lemma Inv.take {before after : List Rule} {r : Rule} (h : Inv D G (s, g)) (hi : g.held i = 0)
    (hs : s.rules = before ++ r :: after) :
    Inv D G ({ s with rules := before ++ after }, g.hold i r.action.duties) := by
  refine h.turn ⟨le_rfl, le_rfl, fun _ _ => rfl⟩ ?_ rfl (fun _ hd => .inl hd) h.within ?_
  · intro r' hr'
    rw [hs]
    rcases List.mem_append.mp hr' with hr' | hr'
    · exact List.mem_append_left _ hr'
    · exact List.mem_append_right _ (List.mem_cons_of_mem _ hr')
  · apply h.balanced.turn
    rw [hs, ← List.singleton_append, waiting_append, waiting_append, waiting_append,
      waiting_singleton, hi]
    abel

omit [Fintype ι] [DecidableEq ι] in
lemma Grows.close (d : ℕ) : Grows (s, g) (s.close d, g) where
  closed d' hd' := by
    by_cases h : d' = d
    · subst h
      simp [Server.closedSet, Server.close]
    · simpa [Server.closedSet, Server.close, Function.update_of_ne h] using hd'
  next := le_rfl
  needs _ _ := rfl

omit [DecidableEq ι] in
lemma Inv.close (h : Inv D G (s, g)) (d : ℕ) : Inv D G (s.close d, g) :=
  h.turn (.close d) (fun _ hr => hr) rfl (fun _ hd => .inl hd) h.within h.balanced

omit [Fintype ι] [DecidableEq ι] in
lemma Rely.close (d : ℕ) : Rely j (s, g) (s.close d, g) := ⟨.close d, rfl, fun _ _ _ => rfl⟩

omit [Fintype ι] in
lemma Grows.post {r : Rule} {mine : Multiset Duty} :
    Grows (s, g) (s.post r, g.hold i mine) := ⟨le_rfl, le_rfl, fun _ _ => rfl⟩

omit [Fintype ι] [DecidableEq ι] in
lemma duty_mem_held {a : Action} {rest : Multiset Duty} (hd : g.held i = a.duties + rest) :
    a.duty ∈ g.held i := by
  simp [hd, Action.duties]

omit [Fintype ι] [DecidableEq ι] in
lemma lt_of_suspendedAt {a : Action} {c signal p : ℕ} (ha : a.Advances D s)
    (h : a.suspendedAt c signal = some p) :
    (∀ q ∈ suspensions c signal s, q < p) ∧ p < (D.members c).length := by
  obtain ⟨_, _, _, _, rfl⟩ := suspendedAt_eq_some h
  exact ha

/-- A client leaves duties to a rule. -/
lemma Inv.post {r : Rule} {rest : Multiset Duty} (h : Inv D G (s, g))
    (hr : Sound D G r (s, g)) (ha : r.action.Advances D s)
    (hd : g.held i = r.action.duties + rest) : Inv D G (s.post r, g.hold i rest) := by
  have hheld := duty_mem_held hd
  have honly := h.balanced.onlyHeldBy (issued_nodup _) hheld
  have hissued := h.balanced.held_issued hheld
  refine ⟨?_, ?_, h.promised, h.within, ?_, ?_, ?_, ?_⟩
  · intro r' hr'
    rcases List.mem_append.mp hr' with hr' | hr'
    · exact (h.sound r' hr').grows .post (h.duty_issued hr')
    · obtain rfl := List.mem_singleton.mp hr'
      exact hr.grows .post hissued
  · intro r' hr'
    rcases List.mem_append.mp hr' with hr' | hr'
    · apply (h.logged r' hr').congr
      intro signal hsignal c
      apply suspensions_post_of_ne
      intro hsame
      exact honly.notMem_waiting (hsame.trans hsignal.symm ▸ duty_mem_waiting hr')
    · obtain rfl := List.mem_singleton.mp hr'
      exact ha.logged_post
  · apply h.balanced.turn
    simp only [Server.post, waiting_append, waiting_singleton, hd]
    abel
  · intro c signal
    simp only [suspensions_post]
    cases hs : r.action.suspendedAt c signal with
    | none => simpa using h.increasing c signal
    | some p =>
      refine List.pairwise_append.mpr ⟨h.increasing c signal, by simp, fun q hq p' hp' => ?_⟩
      obtain rfl : p' = p := by simpa using hp'
      exact (lt_of_suspendedAt ha hs).1 q hq
  · intro c signal p hp
    simp only [suspensions_post] at hp
    rcases List.mem_append.mp hp with hp | hp
    · exact h.bounded c signal p hp
    · exact (lt_of_suspendedAt ha (by simpa using hp)).2
  · intro c signal hsignal
    have hne : r.action.duty ≠ .store signal := by
      intro hduty
      have hlt := store_mem_issued.mp (hduty ▸ hissued)
      exact absurd hsignal (not_le.mpr hlt)
    exact (suspensions_post_of_ne hne).trans (h.unused c signal hsignal)

lemma Rely.post {r : Rule} {rest : Multiset Duty} (h : Inv D G (s, g))
    (hd : g.held i = r.action.duties + rest) (hj : j ≠ i) :
    Rely j (s, g) (s.post r, g.hold i rest) where
  grows := .post
  held := hold_of_ne g rest hj
  log signal hsignal c := by
    apply suspensions_post_of_ne
    intro hduty
    have honly := h.balanced.onlyHeldBy (issued_nodup _) (duty_mem_held hd)
    exact honly.notMem_held j hj (hduty ▸ hsignal)

end Turns

end Turbine.DeepWait
