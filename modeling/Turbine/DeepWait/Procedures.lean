import Turbine.DeepWait.Waits

/-! What the procedures of a deep wait keep, from the signals of leaves to whole actions. -/

namespace Turbine.DeepWait

open Turbine.Library.Programs Turbine.Library.Interleaving Turbine.Library.Obligations

variable {ι : Type} [Fintype ι] [DecidableEq ι]
variable {D : Contents} {G : Set ℕ} {i : ι} {t : Server × Ghost ι} {rest : Multiset Duty}
  {signal c : ℕ} {baseType : BaseType}

lemma waits_freeAllocatedSignals (signals : List ℕ) {Q : Unit → Server × Ghost ι → Prop}
    (hinv : Inv D G t) (hd : t.2.held i = releases signals + rest)
    (hq : ∀ t', Inv D G t' → Grows t t' → t'.2.held i = rest → Q () t') :
    Waits D G i (freeAllocatedSignals signals) Q t := by
  induction signals generalizing t with
  | nil =>
    rw [releases_nil, zero_add] at hd
    exact hq t hinv .refl hd
  | cons signal signals ih =>
    rw [freeAllocatedSignals, waits_bind]
    rw [releases_cons, Multiset.cons_add] at hd
    apply waits_readRefcountDecr hinv hd
    intro t' hinv' hg hd'
    exact ih hinv' hd' fun t'' hinv'' hg' hd'' => hq t'' hinv'' (hg.trans hg') hd''

lemma deepruleBasetypeSignal_eq {value : Value} {w : Option ℕ} (h : leaf baseType value = some w)
    (allocated : List ℕ) :
    deepruleBasetypeSignal baseType value allocated = pure (w.map .data, allocated) := by
  cases baseType with
  | ref =>
    cases hv : asTd value with
    | error msg => simp [leaf, hv, Except.toOption] at h
    | ok d =>
      obtain rfl : some d = w := by simpa [leaf, hv, Except.toOption] using h
      rw [deepruleBasetypeSignal, hv]
      rfl
  | fileRef =>
    cases hv : getFileStatus value with
    | error msg => simp [leaf, hv, Except.toOption] at h
    | ok d =>
      obtain rfl : some d = w := by simpa [leaf, hv, Except.toOption] using h
      rw [deepruleBasetypeSignal, hv]
      rfl
  | scalar name =>
    obtain rfl : none = w := by simpa [leaf] using h
    rfl
  | struct fieldPaths nestLevels baseTypes => simp [leaf] at h
  | structRef fieldPaths nestLevels baseTypes =>
    cases fieldPaths with
    | cons path paths => simp [leaf] at h
    | nil =>
      cases hv : asTd value with
      | error msg => simp [leaf, hv, Except.toOption] at h
      | ok d =>
        obtain rfl : some d = w := by simpa [leaf, hv, Except.toOption] using h
        rw [deepruleBasetypeSignal, hv]
        rfl

/-! ### Waiting for one container -/

@[simp] lemma memberTargets_scalar (name : String) (members : List Value) :
    memberTargets D 0 (.scalar name) members = ∅ := by
  simp [memberTargets, target, leaf]

/-- The action that is to be run once a container is closed. -/
structure Follows (D : Contents) (s : Server) (c signal n : ℕ) (baseType : BaseType) (a : Action) :
    Prop where
  duties : a.duties = {.store signal}
  duty : a.duty = .store signal
  shape : a.Shape D
  starts : a.starts D ⊆ {c}
  after : a.after D = memberTargets D n baseType (D.members c)
  advances : a.Advances D s

lemma containerDeepWait_eq (s : Server) {n : ℕ} (hfits : Fits D (n + 1) baseType (.td c))
    (hlog : ∀ c', suspensions c' signal s = []) :
    ∃ a, containerDeepWait c (n + 1) baseType signal = rule [.data c] a ∧
      Follows D s c signal n baseType a := by
  have hmembers := hfits.members
  cases n with
  | zero =>
    have hiterate : Follows D s c signal 0 baseType
        (.containerDeepWaitIterate c 0 none 1 baseType signal []) :=
      ⟨rfl, rfl, ⟨rfl, rfl, hmembers, .inl ⟨rfl, rfl⟩⟩, le_rfl, by simp [Action.after], hlog⟩
    cases baseType with
    | scalar name => exact ⟨_, rfl, rfl, rfl, trivial, Set.empty_subset _, by simp [Action.after],
        trivial⟩
    | ref => exact ⟨_, rfl, hiterate⟩
    | fileRef => exact ⟨_, rfl, hiterate⟩
    | struct fieldPaths nestLevels baseTypes => exact ⟨_, rfl, hiterate⟩
    | structRef fieldPaths nestLevels baseTypes => exact ⟨_, rfl, hiterate⟩
  | succ n =>
    refine ⟨.containerRecDeepWait c (n + 2) baseType signal, ?_, rfl, rfl, ⟨n, rfl, hmembers⟩,
      le_rfl, ?_, hlog⟩
    · have hne : ((n + 1 : ℕ) : ℤ) + 1 ≠ 1 := by omega
      unfold containerDeepWait
      rw [if_neg hne]
      push_cast
      ring_nf
    · have hlevel : ((n : ℤ) + 2 - 1).toNat = n + 1 := by omega
      simp [Action.after, hlevel]

/-- The rule that `container_deep_wait` leaves. -/
lemma waits_containerDeepWait {n : ℕ} {Q : Unit → Server × Ghost ι → Prop} (hinv : Inv D G t)
    (hfits : Fits D (n + 1) baseType (.td c)) (hlog : ∀ c', suspensions c' signal t.1 = [])
    (hcovered : t.2.needs signal ⊆ t.1.closedSet ∪ target D (n + 1) baseType (.td c))
    (hle : target D (n + 1) baseType (.td c) ⊆ t.2.needs signal)
    (hd : t.2.held i = .store signal ::ₘ rest)
    (hq : ∀ t', Inv D G t' → Grows t t' → t'.2.held i = rest → Q () t') :
    Waits D G i (containerDeepWait c (n + 1) baseType signal) Q t := by
  obtain ⟨a, heq, ha⟩ := containerDeepWait_eq t.1 hfits hlog
  rw [target_td] at hcovered hle
  rw [heq]
  refine waits_rule hinv ⟨ha.shape, ?_, ?_, ?_, ?_, by simp, by simp⟩ ha.advances ?_ hq
  · intro d hd
    obtain rfl := ha.starts hd
    exact .inr List.mem_cons_self
  · simp only [ha.duty, promise, ha.after]
    intro d hd
    rcases hcovered hd with hclosed | rfl | hmember
    · exact .inl (.inl hclosed)
    · exact .inl (.inr (.inl List.mem_cons_self))
    · exact .inr hmember
  · simp only [ha.duty, promise, ha.after]
    exact (Set.subset_insert _ _).trans hle
  · simp only [ha.duty, promise, List.mem_singleton, Td.data.injEq, forall_eq]
    exact hle (Set.mem_insert c _)
  · rw [hd, ha.duties, Multiset.singleton_add]

/-- A client without duties. -/
def Free (D : Contents) (G : Set ℕ) (i : ι) (_ : Unit) (t : Server × Ghost ι) : Prop :=
  Inv D G t ∧ t.2.held i = 0

omit [DecidableEq ι] in
lemma Taken.rely {a : Action} {t' : Server × Ghost ι} (h : Taken D G a t) (hinv : Inv D G t)
    (hd : t.2.held i = a.duties) (hr : Rely i t t') : Taken D G a t' := by
  have hmem : a.duty ∈ t.2.held i := duty_mem_held (hd.trans (add_zero _).symm)
  apply h.grows hr.grows (hinv.balanced.held_issued hmem)
  exact h.logged.congr fun signal hs => hr.log signal (hs ▸ hmem)

/-! ### Waiting for the members of a container -/

def signalsOf (signals : List ℕ) : List Td := signals.map .signal

-- the signals that a client allocated since, and what they stand for
structure Allocated (t t' : Server × Ghost ι) (signals : List ℕ) (N : Set ℕ) : Prop where
  older : ∀ signal ∈ signals, t.1.next ≤ signal
  allocated : ∀ signal ∈ signals, signal < t'.1.next
  covers : N ⊆ awaits t'.2.needs (signalsOf signals)

lemma waitForMembers_waits {n : ℕ} (members : List Value)
    {Q : List ℕ → Server × Ghost ι → Prop} (hinv : Inv D G t)
    (hfits : ∀ member ∈ members, Fits D (n + 1) baseType member)
    (hG : memberTargets D (n + 1) baseType members ⊆ G) (hd : t.2.held i = rest)
    (hq : ∀ signals t', Inv D G t' → Grows t t' → t'.2.held i = releases signals + rest →
      Allocated t t' signals (memberTargets D (n + 1) baseType members) → Q signals t') :
    Waits D G i (waitForMembers (n + 2) baseType members) Q t := by
  induction members generalizing t rest Q with
  | nil =>
    apply hq [] t hinv .refl (by simpa using hd)
    exact ⟨by simp, by simp, by simp⟩
  | cons member members ih =>
    obtain ⟨c, rfl, hc⟩ := hfits member List.mem_cons_self
    have hfits' : ∀ member ∈ members, Fits D (n + 1) baseType member :=
      fun member hmember => hfits member (List.mem_cons_of_mem _ hmember)
    rw [memberTargets_cons, Set.union_subset_iff] at hG
    have hlevel : ((n : ℤ) + 2 - 1) = n + 1 := by ring
    rw [waitForMembers, waits_bind]
    apply waits_allocateVoid hG.1
    intro signal t₁ hinv₁ hg₁ hle hlt hneeds hheld hlog
    simp only [asTd, ofExcept, waits_bind, waits_pure, hlevel]
    refine waits_containerDeepWait hinv₁ ⟨c, rfl, hc⟩ hlog ?_ hneeds.ge hheld ?_
    · rw [hneeds]
      exact Set.subset_union_right
    intro t₂ hinv₂ hg₂ hheld₂
    apply ih hinv₂ hfits' hG.2 hheld₂
    intro signals t₃ hinv₃ hg₃ hheld₃ hsignals
    have hkept : t₃.2.needs signal = target D (n + 1) baseType (.td c) := by
      rw [(hg₂.trans hg₃).needs signal hlt, hneeds]
    apply hq _ _ hinv₃ (hg₁.trans (hg₂.trans hg₃))
    · rw [hheld₃, hd, releases_cons, Multiset.add_cons, Multiset.cons_add]
    · refine ⟨?_, ?_, ?_⟩
      · rintro s (_ | ⟨_, hs⟩)
        · exact hle
        · exact (hg₁.trans hg₂).next.trans (hsignals.older s hs)
      · rintro s (_ | ⟨_, hs⟩)
        · exact hlt.trans_le (hg₂.trans hg₃).next
        · exact hsignals.allocated s hs
      · rw [memberTargets_cons]
        rintro d (hd | hd)
        · exact .inr ⟨signal, List.mem_cons_self, hkept ▸ hd⟩
        · obtain h | ⟨s, hs, hd⟩ := hsignals.covers hd
          · simp [signalsOf] at h
          · exact .inr ⟨s, List.mem_cons_of_mem _ hs, hd⟩

lemma containerRecDeepWait_waits {nestLevel : ℤ} (hinv : Inv D G t)
    (htaken : Taken D G (.containerRecDeepWait c nestLevel baseType signal) t)
    (hd : t.2.held i = {.store signal}) :
    Waits D G i (containerRecDeepWait c nestLevel baseType signal) (Free D G i) t := by
  rw [containerRecDeepWait, waits_bind]
  apply waits_enumerate (htaken.starts rfl)
  intro t₁ hinv₁ hr
  have htaken₁ := htaken.rely hinv hd hr
  have hheld₁ : t₁.2.held i = {.store signal} := hr.held.trans hd
  obtain ⟨n, rfl, hfits⟩ := htaken.shape
  have hafter : (Action.containerRecDeepWait c (n + 2) baseType signal).after D =
      memberTargets D (n + 1) baseType (D.members c) := by
    have hlevel : ((n : ℤ) + 2 - 1).toNat = n + 1 := by omega
    rw [Action.after, hlevel]
  have hcovered : t₁.2.needs signal ⊆ t₁.1.closedSet ∪
      memberTargets D (n + 1) baseType (D.members c) := hafter ▸ htaken₁.covered
  have hle : memberTargets D (n + 1) baseType (D.members c) ⊆ t₁.2.needs signal :=
    hafter ▸ htaken₁.after_le
  have hissued : signal < t₁.1.next := by
    apply store_mem_issued.mp (hinv₁.balanced.held_issued (i := i) _)
    simp [hheld₁]
  simp only [slice, List.drop_zero]
  rcases hm : D.members c with _ | ⟨inner, _ | ⟨second, members⟩⟩
  · rw [hm, memberTargets_nil, Set.union_empty] at hcovered
    exact @waits_storeVoid _ _ _ _ _ _ 0 _ _ _ hinv₁ hheld₁ hcovered fun t₂ hinv₂ _ hheld₂ =>
      ⟨hinv₂, hheld₂⟩
  · -- the signal is passed on to the only member
    rw [hm] at hfits hcovered hle
    rw [memberTargets_cons, memberTargets_nil, Set.union_empty] at hcovered hle
    obtain ⟨c', rfl, hc'⟩ := hfits inner List.mem_cons_self
    have hlevel : ((n : ℤ) + 2 - 1) = n + 1 := by ring
    simp only [asTd, ofExcept, waits_bind, waits_pure, hlevel]
    exact @waits_containerDeepWait _ _ _ _ _ _ _ 0 _ _ _ _ _ hinv₁ ⟨c', rfl, hc'⟩ htaken₁.logged hcovered
      hle hheld₁ fun t₂ hinv₂ _ hheld₂ => ⟨hinv₂, hheld₂⟩
  · simp only [waits_bind]
    rw [← hm]
    apply waitForMembers_waits _ hinv₁ hfits (hle.trans (hinv₁.within signal hissued)) hheld₁
    intro signals t₂ hinv₂ hg₂ hheld₂ hsignals
    have hneeds := hg₂.needs signal hissued
    refine @waits_rule _ _ _ _ _ _ 0 _ _ _ _ hinv₂ ⟨trivial, Set.empty_subset _, ?_, Set.empty_subset _, ?_,
      ?_, ?_⟩ trivial ?_ fun t₃ hinv₃ _ hheld₃ => ⟨hinv₃, hheld₃⟩
    · simp only [Action.duty, promise, hneeds, Action.after, Set.union_empty]
      intro d hd
      rcases hcovered hd with hclosed | hmember
      · exact .inl (hg₂.closed hclosed)
      · exact .inr (hsignals.covers hmember)
    · intro d hd
      simp at hd
    · intro s hs
      exact hsignals.allocated s (by simpa using hs)
    · intro s inner hduty hinner
      obtain rfl : signal = s := by simpa [Action.duty] using hduty
      exact hissued.trans_le (hsignals.older inner (by simpa using hinner))
    · rw [hheld₂, Action.duties, add_zero, ← Multiset.singleton_add, add_comm]
      rfl

/-! ### Waiting for the leaves of a container -/

/-- The wait for the leaves of a closed container, of which `p` need no more waiting. -/
structure Scan (D : Contents) (G : Set ℕ) (i : ι) (c signal : ℕ) (baseType : BaseType) (p : ℕ)
    (t : Server × Ghost ι) : Prop where
  inv : Inv D G t
  held : t.2.held i = {.store signal}
  closed : c ∈ t.1.closedSet
  covered : t.2.needs signal ⊆
    t.1.closedSet ∪ memberTargets D 0 baseType ((D.members c).drop p)
  le : memberTargets D 0 baseType ((D.members c).drop p) ⊆ t.2.needs signal
  -- if the wait was suspended at this member before, then the member is closed by now
  log : ∀ q ∈ suspensions c signal t.1, q < p ∨ q = p ∧ ∀ member d,
    (D.members c)[p]? = some member → leaf baseType member = some (some d) → d ∈ t.1.closedSet

variable {p : ℕ}

omit [DecidableEq ι] in
lemma Scan.issued (h : Scan D G i c signal baseType p t) : signal < t.1.next := by
  apply store_mem_issued.mp (h.inv.balanced.held_issued (i := i) _)
  simp [h.held]

omit [DecidableEq ι] in
lemma Scan.rely {t' : Server × Ghost ι} (h : Scan D G i c signal baseType p t) (hinv : Inv D G t')
    (hr : Rely i t t') : Scan D G i c signal baseType p t' := by
  have hneeds := hr.grows.needs signal h.issued
  refine ⟨hinv, hr.held.trans h.held, hr.grows.closed h.closed, ?_, ?_, ?_⟩
  · rw [hneeds]
    exact h.covered.trans (Set.union_subset_union_left _ hr.grows.closed)
  · rw [hneeds]
    exact h.le
  · intro q hq
    rw [hr.log signal (by simp [h.held]) c] at hq
    rcases h.log q hq with hlt | ⟨rfl, hclosed⟩
    · exact .inl hlt
    · exact .inr ⟨rfl, fun member d hm hd => hr.grows.closed (hclosed member d hm hd)⟩

omit [DecidableEq ι] in
/-- The next member needs no waiting. -/
lemma Scan.next {member : Value} {members : List Value} (h : Scan D G i c signal baseType p t)
    (hdrop : (D.members c).drop p = member :: members)
    (hclosed : target D 0 baseType member ⊆ t.1.closedSet) :
    Scan D G i c signal baseType (p + 1) t := by
  have hnext : (D.members c).drop (p + 1) = members := by
    rw [← List.tail_drop, hdrop, List.tail_cons]
  have hcovered := h.covered
  have hle := h.le
  rw [hdrop, memberTargets_cons] at hcovered hle
  refine ⟨h.inv, h.held, h.closed, ?_, ?_, ?_⟩
  · rw [hnext]
    intro d hd
    rcases hcovered hd with hold | hmember | hmember
    · exact .inl hold
    · exact .inl (hclosed hmember)
    · exact .inr hmember
  · rw [hnext]
    exact Set.subset_union_right.trans hle
  · intro q hq
    rcases h.log q hq with hlt | ⟨rfl, -⟩
    · exact .inl (by omega)
    · exact .inl (Nat.lt_succ_self q)

def Scanned (D : Contents) (G : Set ℕ) (i : ι) (c signal : ℕ) (baseType : BaseType) (p : ℕ) :
    Option ℕ → Server × Ghost ι → Prop
  | some progress, t => progress = p ∧ Scan D G i c signal baseType p t
  | none, t => Free D G i () t

/-- The wait is suspended at a member that is not closed. -/
lemma Scan.suspend {member : Value} {members : List Value} {d : ℕ}
    (h : Scan D G i c signal baseType p t)
    (hfits : ∀ member ∈ D.members c, Fits D 0 baseType member)
    (hdrop : (D.members c).drop p = member :: members)
    (hleaf : leaf baseType member = some (some d)) (hopen : d ∉ t.1.closedSet) :
    Waits D G i (rule [.data d] (.containerDeepWaitIterate c p (some (D.members c).length) 1
      baseType signal [])) (Free D G i) t := by
  have hmember : (D.members c)[p]? = some member := by
    rw [← List.head?_drop, hdrop, List.head?_cons]
  have hlt : p < (D.members c).length := (List.getElem?_eq_some_iff.mp hmember).1
  refine @waits_rule _ _ _ _ _ _ 0 _ _ _ _ h.inv ⟨⟨rfl, rfl, hfits, .inr rfl⟩, ?_, ?_, h.le, ?_, ?_, ?_⟩
    ⟨?_, hlt⟩ (by simp [h.held, Action.duties, Action.duty, Action.allocated])
    fun t' hinv' _ hheld' => ⟨hinv', hheld'⟩
  · rintro d' (rfl | ⟨member', hmember', hleaf'⟩)
    · exact .inl h.closed
    · obtain rfl := Option.some.inj (hmember.symm.trans hmember')
      obtain rfl : d = d' := by simpa [hleaf] using hleaf'
      exact .inr List.mem_cons_self
  · intro d' hd'
    rcases h.covered hd' with hclosed | hafter
    · exact .inl (.inl hclosed)
    · exact .inr hafter
  · intro d' hd'
    obtain rfl : d' = d := by simpa using hd'
    apply h.le
    rw [hdrop, memberTargets_cons]
    exact .inl hleaf
  · intro s hs
    simp at hs
  · intro s inner _ hs
    simp at hs
  · intro q hq
    rcases h.log q hq with hlt | ⟨rfl, hclosed⟩
    · exact hlt
    · exact absurd (hclosed member d hmember hleaf) hopen

lemma iterateMembers_waits (members : List Value) {others : List Value}
    (hfits : ∀ member ∈ D.members c, Fits D 0 baseType member)
    (hdrop : (D.members c).drop p = members ++ others) (h : Scan D G i c signal baseType p t) :
    Waits D G i (iterateMembers c (D.members c).length 1 baseType signal members p)
      (Scanned D G i c signal baseType (p + members.length)) t := by
  induction members generalizing p t with
  | nil => exact ⟨rfl, h⟩
  | cons member members ih =>
    have hmember : member ∈ D.members c := by
      apply List.mem_of_mem_drop (i := p)
      simp [hdrop]
    obtain ⟨w, hleaf⟩ := Option.isSome_iff_exists.mp (hfits member hmember)
    have hdrop' : (D.members c).drop (p + 1) = members ++ others := by
      rw [← List.tail_drop, hdrop, List.cons_append, List.tail_cons]
    have hrest : ∀ t', Scan D G i c signal baseType (p + 1) t' →
        Waits D G i (iterateMembers c (D.members c).length 1 baseType signal members (p + 1))
          (Scanned D G i c signal baseType (p + (members.length + 1))) t' := by
      intro t' h'
      rw [show p + (members.length + 1) = p + 1 + members.length by ring]
      exact ih hdrop' h'
    rw [iterateMembers, deepruleBasetypeSignal_eq hleaf, waits_bind, waits_pure, waits_bind]
    cases w with
    | none =>
      apply hrest t (h.next hdrop _)
      intro d hd
      simp [target, hleaf] at hd
    | some d =>
      apply waits_closed
      intro t' hinv' hr
      have h' := h.rely hinv' hr
      cases hclosed : t'.1.closed (.data d) with
      | true =>
        apply hrest t' (h'.next hdrop _)
        intro d' hd'
        obtain rfl : d' = d := by simpa [target, hleaf] using hd'
        exact hclosed
      | false =>
        simp only [Bool.false_eq_true, if_false, waits_bind]
        apply (h'.suspend hfits hdrop hleaf _).mono
        · exact fun _ t'' hfree => hfree
        · intro hd
          exact absurd (hclosed.symm.trans hd) Bool.false_ne_true

lemma Scan.finish (h : Scan D G i c signal baseType p t) (hp : ¬ p < (D.members c).length) :
    Waits D G i (storeVoid signal) (Free D G i) t := by
  have hcovered := h.covered
  rw [List.drop_eq_nil_of_le (not_lt.mp hp), memberTargets_nil, Set.union_empty] at hcovered
  exact @waits_storeVoid _ _ _ _ _ _ 0 _ _ _ h.inv h.held hcovered fun _ hinv' _ hheld' => ⟨hinv', hheld'⟩

lemma iterateChunks_waits (rounds : ℕ)
    (hfits : ∀ member ∈ D.members c, Fits D 0 baseType member)
    (hrounds : (D.members c).length - p ≤ rounds) (h : Scan D G i c signal baseType p t) :
    Waits D G i (iterateChunks c (D.members c).length 1 baseType signal rounds p) (Free D G i)
      t := by
  induction rounds generalizing p t with
  | zero =>
    have hp : ¬ p < (D.members c).length := by omega
    rw [iterateChunks, if_neg hp]
    exact h.finish hp
  | succ rounds ih =>
    rw [iterateChunks]
    split
    · rename_i hp
      simp only [waits_bind]
      apply waits_enumerate h.closed
      intro t' hinv' hr
      have h' := h.rely hinv' hr
      have hsplit := List.take_append_drop (min maxChunkSize ((D.members c).length - p))
        ((D.members c).drop p)
      apply (iterateMembers_waits _ hfits hsplit.symm h').mono
      rintro (_ | progress) t'' hscanned
      · exact hscanned
      · obtain ⟨rfl, hscan⟩ := hscanned
        apply ih _ hscan
        simp only [List.length_take, List.length_drop, maxChunkSize]
        omega
    · rename_i hp
      exact h.finish hp

lemma containerDeepWaitIterate_waits {progress : ℕ} {n : Option ℕ} {nestLevel : ℤ}
    {allocated : List ℕ} (hinv : Inv D G t)
    (htaken : Taken D G (.containerDeepWaitIterate c progress n nestLevel baseType signal allocated)
      t)
    (hd : t.2.held i = .store signal ::ₘ releases allocated) :
    Waits D G i (containerDeepWaitIterate c progress n nestLevel baseType signal allocated)
      (Free D G i) t := by
  obtain ⟨rfl, rfl, hfits, hn⟩ := htaken.shape
  have hclosed : c ∈ t.1.closedSet := by
    apply htaken.starts
    cases n with
    | none => exact rfl
    | some n => exact .inl rfl
  have hscan : Scan D G i c signal baseType progress t := by
    refine ⟨hinv, hd, hclosed, htaken.covered, htaken.after_le, ?_⟩
    intro q hq
    have hlogged := htaken.logged
    rcases hn with ⟨rfl, rfl⟩ | rfl
    · rw [hlogged c] at hq
      simp at hq
    · rcases (hlogged q hq).lt_or_eq with hlt | rfl
      · exact .inl hlt
      · refine .inr ⟨rfl, fun member d hm hd => ?_⟩
        exact htaken.starts (.inr ⟨member, hm, hd⟩)
  have hrun : ∀ t', Scan D G i c signal baseType progress t' →
      Waits D G i (iterateChunks c (D.members c).length 1 baseType signal
        ((D.members c).length - progress) progress) (Free D G i) t' :=
    fun t' h => iterateChunks_waits _ hfits le_rfl h
  rw [containerDeepWaitIterate, waits_bind]
  rcases hn with ⟨rfl, rfl⟩ | rfl
  · apply waits_containerSize hclosed
    intro t' hinv' hr
    exact hrun t' (hscan.rely hinv' hr)
  · exact hrun t hscan

/-! ### Actions -/

lemma deepruleFireSignal_waits (innerSignals : List ℕ) (hinv : Inv D G t)
    (hd : t.2.held i = .store signal ::ₘ releases innerSignals)
    (hcovered : t.2.needs signal ⊆ t.1.closedSet) :
    Waits D G i (deepruleFireSignal innerSignals signal) (Free D G i) t := by
  have hissued : signal < t.1.next := by
    apply store_mem_issued.mp (hinv.balanced.held_issued (i := i) _)
    simp [hd]
  rw [deepruleFireSignal, deepruleFinish, waits_bind]
  apply @waits_freeAllocatedSignals _ _ _ _ _ _ _ {.store signal} innerSignals _ hinv
  · rw [hd, ← Multiset.singleton_add, add_comm]
  · intro t' hinv' hg hheld
    apply @waits_storeVoid _ _ _ _ _ _ 0 _ _ _ hinv' hheld
    · rw [hg.needs signal hissued]
      exact hcovered.trans hg.closed
    · exact fun t'' hinv'' _ hheld'' => ⟨hinv'', hheld''⟩

lemma deepruleAction_waits (signals : List ℕ) (hinv : Inv D G t)
    (hd : t.2.held i = .eval ::ₘ releases signals) (hcovered : G ⊆ t.1.closedSet) :
    Waits D G i (deepruleAction signals .user) (Free D G i) t := by
  rw [deepruleAction, deepruleFinish, waits_bind]
  apply @waits_freeAllocatedSignals _ _ _ _ _ _ _ {.eval} signals _ hinv
  · rw [hd, ← Multiset.singleton_add, add_comm]
  · intro t' hinv' hg hheld
    apply @waits_evalUser _ _ _ _ _ _ 0 _ _ hinv' hheld (hcovered.trans hg.closed)
    exact fun t'' hinv'' _ hheld'' => ⟨hinv'', hheld''⟩

omit [Fintype ι] [DecidableEq ι] in
lemma Taken.promise_closed {a : Action} (h : Taken D G a t) (ha : a.after D = ∅) :
    promise G t.2.needs a.duty ⊆ t.1.closedSet := by
  simpa [ha] using h.covered

lemma run_waits {a : Action} (hinv : Inv D G t) (htaken : Taken D G a t)
    (hd : t.2.held i = a.duties) : Waits D G i a.run (Free D G i) t := by
  cases a with
  | storeVoid signal =>
    exact waits_storeVoid hinv hd (htaken.promise_closed rfl) fun t' hinv' _ hheld =>
      ⟨hinv', hheld⟩
  | containerDeepWaitIterate c progress n nestLevel baseType signal allocated =>
    exact containerDeepWaitIterate_waits hinv htaken hd
  | containerRecDeepWait c nestLevel baseType signal =>
    exact containerRecDeepWait_waits hinv htaken hd
  | deepruleFireSignal innerSignals signal =>
    exact deepruleFireSignal_waits innerSignals hinv hd (htaken.promise_closed rfl)
  | structRefRecDeepWaitReady input type signal => exact absurd htaken.shape id
  | deepruleAction signals action =>
    cases action with
    | user => exact deepruleAction_waits signals hinv hd (htaken.promise_closed rfl)
    | fireSignal signal => exact absurd htaken.shape id

lemma script_waits (steps : List Step) (h : Free D G i () t) :
    Waits D G i (script steps) (Free D G i) t := by
  induction steps generalizing t with
  | nil => exact h
  | cons step steps ih =>
    cases step with
    | close d =>
      rw [script, waits_bind]
      apply waits_close
      intro t' hinv' hheld
      exact ih ⟨hinv', hheld.trans h.2⟩
    | task =>
      simp only [script, waits_bind]
      apply waits_getTask h.2
      intro a t' hinv' htaken hheld
      exact (run_waits hinv' htaken hheld).mono fun _ t'' hfree => ih hfree

end Turbine.DeepWait
