import Turbine.DeepWait.Procedures

/-! Deep waits over whole runs: what is closed when the action of a `deeprule` is run, and what
is done when nothing is left to do. -/

namespace Turbine.DeepWait

open Turbine.Library.Programs Turbine.Library.Interleaving Turbine.Library.Obligations

/-- An input of `deeprule` with its nest level and base type. -/
structure Input (D : Contents) where
  value : Value
  nestLevel : ℕ
  baseType : BaseType
  fits : Fits D nestLevel baseType value

variable {D : Contents}

def Input.args (input : Input D) : Value × ℤ × BaseType :=
  (input.value, input.nestLevel, input.baseType)

def Input.target (input : Input D) : Set ℕ :=
  DeepWait.target D input.nestLevel input.baseType input.value

def targets (inputs : List (Input D)) : Set ℕ := {d | ∃ input ∈ inputs, d ∈ input.target}

def deepruleOf (inputs : List (Input D)) : Client Unit :=
  deeprule (inputs.map (·.value)) (inputs.map fun input => (input.nestLevel : ℤ))
    (inputs.map (·.baseType)) .user

lemma targets_cons (input : Input D) (inputs : List (Input D)) :
    targets (input :: inputs) = input.target ∪ targets inputs := by
  ext d
  simp [targets]

lemma zip_args (inputs : List (Input D)) :
    (inputs.map (·.value)).zip ((inputs.map fun input => (input.nestLevel : ℤ)).zip
      (inputs.map (·.baseType))) = inputs.map Input.args := by
  induction inputs with
  | nil => rfl
  | cons input inputs ih =>
    simp only [List.map_cons, List.zip_cons_cons, ih]
    rfl

section Caller

variable {ι : Type} [Fintype ι] [DecidableEq ι]
variable {G : Set ℕ} {i : ι} {t : Server × Ghost ι} {rest : Multiset Duty}

/-- What `deeprule` has gathered to wait for. -/
structure Gathered (G : Set ℕ) (i : ι) (signals : List Td) (allocated : List ℕ) (N : Set ℕ)
    (t : Server × Ghost ι) : Prop where
  held : t.2.held i = .eval ::ₘ releases allocated
  covers : N ⊆ awaits t.2.needs signals
  inputs_le : ∀ d, .data d ∈ signals → d ∈ G
  allocated : ∀ signal, .signal signal ∈ signals → signal < t.1.next

omit [Fintype ι] [DecidableEq ι] in
lemma awaits_mono {needs : ℕ → Set ℕ} {signals signals' : List Td}
    (h : ∀ td ∈ signals, td ∈ signals') : awaits needs signals ⊆ awaits needs signals' := by
  rintro d (hd | ⟨signal, hs, hd⟩)
  · exact .inl (h _ hd)
  · exact .inr ⟨signal, h _ hs, hd⟩

omit [Fintype ι] [DecidableEq ι] in
lemma Gathered.leaf {signals : List Td} {allocated : List ℕ} {N : Set ℕ} {w : Option ℕ}
    (h : Gathered G i signals allocated N t) (hw : ∀ d, w = some d → d ∈ G) :
    Gathered G i (signals ++ (w.map Td.data).toList) allocated (N ∪ {d | w = some d}) t where
  held := h.held
  covers := by
    rintro d (hd | hd)
    · exact awaits_mono (fun td htd => List.mem_append_left _ htd) (h.covers hd)
    · obtain rfl : w = some d := hd
      exact .inl (by simp)
  inputs_le d hd := by
    rcases List.mem_append.mp hd with hd | hd
    · exact h.inputs_le d hd
    · exact hw d (by simpa using hd)
  allocated signal hs := by
    rcases List.mem_append.mp hs with hs | hs
    · exact h.allocated signal hs
    · simp at hs

omit [Fintype ι] [DecidableEq ι] in
lemma Gathered.container {signals : List Td} {allocated : List ℕ} {N M : Set ℕ} {signal : ℕ}
    {t' : Server × Ghost ι} (h : Gathered G i signals allocated N t) (hg : Grows t t')
    (hlt : signal < t'.1.next) (hneeds : t'.2.needs signal = M)
    (hheld : t'.2.held i = .release signal ::ₘ t.2.held i) :
    Gathered G i (signals ++ [.signal signal]) (allocated ++ [signal]) (N ∪ M) t' where
  held := by
    rw [hheld, h.held, releases_append, releases_cons, releases_nil]
    simp only [← Multiset.singleton_add]
    abel
  covers := by
    rintro d (hd | hd)
    · have hcovers : N ⊆ awaits t'.2.needs signals := by
        rw [hg.awaits_eq h.allocated]
        exact h.covers
      exact awaits_mono (fun td htd => List.mem_append_left _ htd) (hcovers hd)
    · exact .inr ⟨signal, by simp, hneeds ▸ hd⟩
  inputs_le d hd := h.inputs_le d (by simpa using hd)
  allocated s hs := by
    rcases List.mem_append.mp hs with hs | hs
    · exact (h.allocated s hs).trans_le hg.next
    · obtain rfl : s = signal := by simpa using hs
      exact hlt

lemma deepruleSignals_waits (inputs : List (Input D)) {signals : List Td} {allocated : List ℕ}
    {N : Set ℕ} {Q : List Td × List ℕ → Server × Ghost ι → Prop} (hinv : Inv D G t)
    (h : Gathered G i signals allocated N t) (hG : targets inputs ⊆ G)
    (hq : ∀ signals allocated t', Inv D G t' →
      Gathered G i signals allocated (N ∪ targets inputs) t' → Q (signals, allocated) t') :
    Waits D G i (deepruleSignals (inputs.map Input.args) signals allocated) Q t := by
  induction inputs generalizing signals allocated N t with
  | nil =>
    have hnil : N ∪ targets ([] : List (Input D)) = N := by simp [targets]
    exact hq _ _ t hinv (hnil.symm ▸ h)
  | cons input inputs ih =>
    rw [targets_cons, Set.union_subset_iff] at hG
    have hassoc : N ∪ targets (input :: inputs) = N ∪ input.target ∪ targets inputs := by
      rw [targets_cons, Set.union_assoc]
    rw [hassoc] at hq
    obtain ⟨value, nestLevel, baseType, hfits⟩ := input
    have hcheck : decide (0 ≤ (nestLevel : ℤ)) = true := by simp
    simp only [List.map_cons, Input.args, deepruleSignals, check, hcheck, if_true, waits_bind,
      waits_pure]
    cases nestLevel with
    | zero =>
      obtain ⟨w, hleaf⟩ := Option.isSome_iff_exists.mp hfits
      have htarget : {d | w = some d} = Input.target ⟨value, 0, baseType, hfits⟩ := by
        ext d
        simp [Input.target, DeepWait.target, hleaf]
      rw [if_pos Nat.cast_zero, deepruleBasetypeSignal_eq hleaf, waits_bind, waits_pure]
      apply ih hinv _ hG.2 hq
      rw [← htarget] at hG ⊢
      exact h.leaf fun d hd => hG.1 hd
    | succ n =>
      have hne : ((n + 1 : ℕ) : ℤ) ≠ 0 := by omega
      obtain ⟨c, rfl, hc⟩ := hfits
      rw [if_neg hne, waits_bind]
      apply waits_allocateVoid hG.1
      intro signal t₁ hinv₁ hg₁ hle hlt hneeds hheld hlog
      simp only [asTd, ofExcept, waits_bind, waits_pure]
      push_cast
      refine waits_containerDeepWait hinv₁ ⟨c, rfl, hc⟩ hlog ?_ hneeds.ge hheld ?_
      · rw [hneeds]
        exact Set.subset_union_right
      intro t₂ hinv₂ hg₂ hheld₂
      apply ih hinv₂ _ hG.2 hq
      exact h.container (hg₁.trans hg₂) (hlt.trans_le hg₂.next)
        ((hg₂.needs signal hlt).trans hneeds) hheld₂

lemma deepruleOf_waits (inputs : List (Input D)) (hinv : Inv D (targets inputs) t)
    (hheld : t.2.held i = {.eval}) :
    Waits D (targets inputs) i (deepruleOf inputs) (Free D (targets inputs) i) t := by
  have hgathered : Gathered (targets inputs) i [] [] ∅ t :=
    ⟨hheld, Set.empty_subset _, by simp, by simp⟩
  simp only [deepruleOf, deeprule, check, List.length_map, decide_true, if_true, waits_bind,
    waits_pure, zip_args]
  apply deepruleSignals_waits inputs hinv hgathered le_rfl
  intro signals allocated t₁ hinv₁ h
  rw [Set.empty_union] at h
  refine @waits_rule _ _ _ _ _ _ 0 _ _ _ _ hinv₁ ⟨trivial, Set.empty_subset _, ?_, Set.empty_subset _,
    h.inputs_le, h.allocated, ?_⟩ trivial ?_ fun t' hinv' _ hheld' => ⟨hinv', hheld'⟩
  · exact h.covers.trans (Set.subset_union_right.trans Set.subset_union_left)
  · intro signal inner hduty
    simp [Action.duty, UserAction.duty] at hduty
  · rw [h.held, add_zero]
    rfl

end Caller

/-! ### When nothing is left to do -/

section Complete

variable {ι : Type} [Fintype ι] {G : Set ℕ} {t : Server × Ghost ι}

lemma mem_waiting {d : Duty} {rules : List Rule} (h : d ∈ waiting rules) :
    ∃ r ∈ rules, d ∈ r.action.duties := by
  induction rules with
  | nil => simp [waiting] at h
  | cons r rules ih =>
    rw [← List.singleton_append, waiting_append, waiting_singleton, Multiset.mem_add] at h
    rcases h with h | h
    · exact ⟨r, List.mem_cons_self, h⟩
    · obtain ⟨r', hr', hd⟩ := ih h
      exact ⟨r', List.mem_cons_of_mem _ hr', hd⟩

lemma duty_of_store {a : Action} {signal : ℕ} (h : .store signal ∈ a.duties) :
    a.duty = .store signal := by
  rcases Multiset.mem_cons.mp h with h | h
  · exact h.symm
  · simp [releases] at h

lemma promise_le (h : Inv D G t) {r : Rule} (hr : r ∈ t.1.rules) :
    promise G t.2.needs r.action.duty ⊆ G := by
  have hissued := h.duty_issued hr
  cases hduty : r.action.duty with
  | store signal =>
    rw [hduty, store_mem_issued] at hissued
    exact h.within signal hissued
  | release signal => exact Set.empty_subset _
  | eval => exact le_rfl

-- a rule that is not ready waits for a signal that is not stored
lemma exists_unstored (h : Inv D G t) (hclosed : G ⊆ t.1.closedSet) {r : Rule}
    (hr : r ∈ t.1.rules) (hready : ¬ t.1.Ready r) :
    ∃ signal, .signal signal ∈ r.inputs ∧ .store signal ∉ t.1.done := by
  simp only [Server.Ready, not_forall] at hready
  obtain ⟨td, hmem, hopen⟩ := hready
  cases td with
  | data d =>
    exact absurd (hclosed (promise_le h hr ((h.sound r hr).inputs_le d hmem))) hopen
  | signal signal => exact ⟨signal, hmem, by simpa [Server.closed] using hopen⟩

/-- The youngest signal that is not stored is waited for by nobody. -/
lemma all_stored (h : Inv D G t) (hclosed : G ⊆ t.1.closedSet) (hheld : ∀ i, t.2.held i = 0)
    (hrules : ∀ r ∈ t.1.rules, ¬ t.1.Ready r) {signal : ℕ} (hs : signal < t.1.next) :
    .store signal ∈ t.1.done := by
  induction hk : t.1.next - signal using Nat.strong_induction_on generalizing signal with
  | _ k ih =>
    by_contra hnot
    have hissued : Duty.store signal ∈ issued t.1.next := store_mem_issued.mpr hs
    rw [← h.balanced] at hissued
    have hwaiting : .store signal ∈ waiting t.1.rules := by
      simpa [hnot, hheld] using hissued
    obtain ⟨r, hr, hd⟩ := mem_waiting hwaiting
    obtain ⟨inner, hinner, hopen⟩ := exists_unstored h hclosed hr (hrules r hr)
    have hlt := (h.sound r hr).younger signal inner (duty_of_store hd) hinner
    have hnext := (h.sound r hr).allocated inner hinner
    exact hopen (ih (t.1.next - inner) (by omega) hnext rfl)

lemma all_done (h : Inv D G t) (hclosed : G ⊆ t.1.closedSet) (hheld : ∀ i, t.2.held i = 0)
    (hrules : ∀ r ∈ t.1.rules, ¬ t.1.Ready r) : (t.1.done : Multiset Duty) = issued t.1.next := by
  apply h.balanced.settled _ hheld
  have hnone : t.1.rules = [] := by
    rw [List.eq_nil_iff_forall_not_mem]
    intro r hr
    obtain ⟨signal, hmem, hopen⟩ := exists_unstored h hclosed hr (hrules r hr)
    exact hopen (all_stored h hclosed hheld hrules ((h.sound r hr).allocated signal hmem))
  rw [hnone]
  rfl

end Complete

lemma mem_issued {d : Duty} {n : ℕ} :
    d ∈ issued n ↔ d = .eval ∨ ∃ signal < n, d = .store signal ∨ d = .release signal := by
  cases d <;> simp

/-! ### Any number of clients -/

variable {ι : Type} [Fintype ι] [DecidableEq ι]

/-- No rule is ready, and every client has ended or waits for a task. -/
structure Idle (ps : ι → Prog Call Call.Ret (Except String Unit)) (s : Server) : Prop where
  clients : ∀ i, (∃ r, ps i = .done r) ∨ ∃ k, ps i = .call .getTask k
  rules : ∀ r ∈ s.rules, ¬ s.Ready r

/-- The action of the user is ready, is run and has been run only when all of `N` is closed.
Nothing is done twice; and once `N` is closed and nothing is left to do, every allocated signal
has been stored and released, and the action has been run. -/
structure Safe (N : Set ℕ) (ps : ι → Prog Call Call.Ret (Except String Unit)) (s : Server) :
    Prop where
  no_error : ∀ i msg, ps i ≠ .done (.error msg)
  runnable : ∀ r ∈ s.rules, ∀ allocated, r.action = .deepruleAction allocated .user →
    s.Ready r → N ⊆ s.closedSet
  running : ∀ i k, ps i = .call .evalUser k → N ⊆ s.closedSet
  evaluated : .eval ∈ s.done → N ⊆ s.closedSet
  once : s.done.Nodup
  complete : N ⊆ s.closedSet → Idle ps s →
    ∀ d, d ∈ s.done ↔ d = .eval ∨ ∃ signal < s.next, d = .store signal ∨ d = .release signal

def ghostStart (caller : ι) : Ghost ι where
  needs := fun _ => ∅
  held := Function.update (fun _ => 0) caller {.eval}

lemma inv_start (G : Set ℕ) (closedData : ℕ → Bool) (caller : ι) :
    Inv D G (start closedData, ghostStart caller) where
  sound r hr := by simp [start] at hr
  logged r hr := by simp [start] at hr
  promised d hd := by simp [start] at hd
  within signal hs := by simp [start] at hs
  balanced := by
    have hsum := sum_update (fun _ : ι => (0 : Multiset Duty)) caller {.eval}
    simpa [Library.Obligations.Balanced, start, ghostStart, waiting, issued] using hsum
  increasing c signal := by simp [suspensions, start]
  bounded c signal p hp := by simp [suspensions, start] at hp
  unused c signal _ := by simp [suspensions, start]

lemma clients_keep (inputs : List (Input D)) (closedData : ℕ → Bool) (caller : ι)
    (scripts : ι → List Step) (i : ι) :
    Keeps (server D) (pact D (targets inputs)) (careful (targets inputs)) i
      (clients (deepruleOf inputs) caller scripts i)
      (Succeeds (Free D (targets inputs) i)) (start closedData, ghostStart caller) := by
  have hinv := inv_start (D := D) (targets inputs) closedData caller
  rw [clients]
  split
  · rename_i hi
    subst hi
    have hheld : (ghostStart i).held i = {.eval} := by simp [ghostStart]
    apply (waits_bind _ _ _).mpr
    exact (deepruleOf_waits inputs hinv hheld).mono fun _ t hfree => script_waits _ hfree
  · rename_i hi
    have hheld : (ghostStart caller).held i = 0 := by simp [ghostStart, Function.update_of_ne hi]
    exact script_waits _ ⟨hinv, hheld⟩

omit [DecidableEq ι] in
lemma succeeds_stable (G : Set ℕ) (i : ι) (r : Except String Unit) (t t' : Server × Ghost ι)
    (h : Succeeds (Free D G i) r t) (hr : (pact D G).rely i t t') (hinv : (pact D G).inv t') :
    Succeeds (Free D G i) r t' := by
  cases r with
  | error msg => exact h
  | ok _ => exact ⟨hinv, hr.held.trans h.2⟩

/-- What holds in every state of every run. -/
lemma reached (inputs : List (Input D)) (closedData : ℕ → Bool) (caller : ι)
    (scripts : ι → List Step) {ps : ι → Prog Call Call.Ret (Except String Unit)} {s : Server}
    (hrun : Interleaved (server D)
      (clients (deepruleOf inputs) caller scripts, start closedData) (ps, s)) :
    ∃ g, Inv D (targets inputs) (s, g) ∧ ∀ i, Keeps (server D) (pact D (targets inputs))
      (careful (targets inputs)) i (ps i) (Succeeds (Free D (targets inputs) i)) (s, g) :=
  Keeps.interleaved (succeeds_stable _) (inv_start _ closedData caller)
    (clients_keep inputs closedData caller scripts) hrun

omit [DecidableEq ι] in
-- when nothing is left to do, nobody has a duty
lemma Idle.held {G : Set ℕ} {ps : ι → Prog Call Call.Ret (Except String Unit)} {s : Server}
    {g : Ghost ι} (h : Idle ps s) (hinv : Inv D G (s, g))
    (hkeeps : ∀ i, Keeps (server D) (pact D G) (careful G) i (ps i) (Succeeds (Free D G i)) (s, g))
    (i : ι) : g.held i = 0 := by
  rcases h.clients i with ⟨r, hp⟩ | ⟨k, hp⟩
  · have hdone := (hkeeps i).returned hp
    cases r with
    | error msg => exact absurd hdone id
    | ok _ => exact hdone.2
  · exact (hkeeps i).asked hinv hp

theorem deeprule_safe (inputs : List (Input D)) (closedData : ℕ → Bool) (caller : ι)
    (scripts : ι → List Step) {ps : ι → Prog Call Call.Ret (Except String Unit)} {s : Server}
    (hrun : Interleaved (server D)
      (clients (deepruleOf inputs) caller scripts, start closedData) (ps, s)) :
    Safe (targets inputs) ps s := by
  obtain ⟨g, hinv, hkeeps⟩ := reached inputs closedData caller scripts hrun
  refine ⟨?_, ?_, ?_, ?_, ?_, ?_⟩
  · exact fun i msg hp => (hkeeps i).returned hp
  · intro r hr allocated ha hready
    have htaken := hinv.taken hr hready
    rw [ha] at htaken
    exact htaken.promise_closed rfl
  · exact fun i k hp => (hkeeps i).asked hinv hp
  · exact hinv.promised .eval
  · exact Multiset.coe_nodup.mp (hinv.balanced.done_nodup (issued_nodup _))
  · intro hclosed hidle d
    have hdone := all_done hinv hclosed (hidle.held hinv hkeeps) hidle.rules
    rw [← mem_issued, ← hdone, Multiset.mem_coe]

-- the wait for the only member is suspended until the other client closes it
theorem deeprule_safe_one :
    let D : Contents := ⟨fun _ => [.td 1], fun _ => .dict []⟩
    let input : Input D := ⟨.td 0, 1, .ref, 0, rfl, by simp [D, Fits, leaf, asTd, Except.toOption]⟩
    let scripts : Bool → List Step := fun i => if i then [.task, .task, .task] else
      [.close 0, .close 1]
    ∃ ps s, Interleaved (server D)
        (clients (deepruleOf [input]) true scripts, start fun _ => false) (ps, s) ∧
      .eval ∈ s.done ∧ Safe (targets [input]) ps s := by
  intro D input scripts
  have h₀ : Interleaved (server D)
      (clients (deepruleOf [input]) true scripts, start fun _ => false) _ := .refl
  have h₁ := h₀.turn true rfl Reply.allocateVoid
  have h₂ := h₁.turn true rfl Reply.rule
  have h₃ := h₂.turn true rfl Reply.rule
  have h₄ := h₃.turn false rfl Reply.close
  have h₅ := h₄.turn true rfl (@Reply.getTask _ _ [] _ _ rfl (by decide))
  have h₆ := h₅.turn true rfl (Reply.containerSize fun _ => rfl)
  have h₇ := h₆.turn true rfl (Reply.enumerate fun _ => rfl)
  have h₈ := h₇.turn true rfl Reply.closed
  have h₉ := h₈.turn true rfl Reply.rule
  have h₁₀ := h₉.turn false rfl Reply.close
  have h₁₁ := h₁₀.turn true rfl (@Reply.getTask _ _ [_] _ _ rfl (by decide))
  have h₁₂ := h₁₁.turn true rfl (Reply.enumerate fun _ => rfl)
  have h₁₃ := h₁₂.turn true rfl Reply.closed
  have h₁₄ := h₁₃.turn true rfl Reply.storeVoid
  have h₁₅ := h₁₄.turn true rfl (@Reply.getTask _ _ [] _ _ rfl (by decide))
  have h₁₆ := h₁₅.turn true rfl Reply.readRefcountDecr
  have h₁₇ := h₁₆.turn true rfl Reply.evalUser
  exact ⟨_, _, h₁₇, List.mem_cons_self, deeprule_safe [input] _ true scripts h₁₇⟩

end Turbine.DeepWait
