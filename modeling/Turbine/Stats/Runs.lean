import Turbine.Library.MapM
import Turbine.Stats.Reduction

/-! Runs of the tree of partial statistics, in any order of completion. -/

namespace Turbine.Stats

open Turbine.Library Turbine.Library.Moments

variable {σ : Type}

structure Outputs (σ : Type) where
  nOut : ℕ
  meanOut : ℚ
  stdOut : σ

structure State (σ : Type) where
  value : Td → Option PartialStats
  /-- The data whose read reference was dropped, once for each time. -/
  consumed : List Td
  pending : List Rule
  outputs : Option (Outputs σ)

def start (rules : List Rule) : State σ := ⟨fun _ => none, [], rules, none⟩

def statCombineReduce (s : State σ) (slice : List Td) (out : Td) (partials : List PartialStats) :
    State σ :=
  { s with
    value := Function.update s.value out (some (statCombineStep partials))
    consumed := s.consumed ++ slice }

def statCombineFinal (sqrt : ℚ → σ) (s : State σ) (structs : List Td)
    (partials : List PartialStats) : State σ :=
  let accum := statCombineStep partials
  { s with
    consumed := s.consumed ++ structs
    outputs := some ⟨accum.n, accum.mean, sqrt (accum.m2 / accum.n)⟩ }

def Rule.run (sqrt : ℚ → σ) (s : State σ) (partials : List PartialStats) : Rule → State σ
  | .reduce slice out => statCombineReduce s slice out partials
  | .final structs => statCombineFinal sqrt s structs partials

/-- A partial result is stored, or a rule whose inputs are all stored runs its action. -/
inductive Step (sqrt : ℚ → σ) (samples : ℕ → Multiset ℚ) (structs : List ℕ) :
    State σ → State σ → Prop
  | complete {s id} : id ∈ structs → s.value (.part id) = none →
      Step sqrt samples structs s
        { s with value := Function.update s.value (.part id) (some (Summary.of (samples id))) }
  | fire {s rule partials} : rule ∈ s.pending → rule.inputs.mapM s.value = some partials →
      Step sqrt samples structs s
        (rule.run sqrt { s with pending := s.pending.erase rule } partials)

section Invariant

variable {sqrt : ℚ → σ} {samples : ℕ → Multiset ℚ} {structs : List ℕ}
variable {S : Td → Multiset ℚ} {total : Multiset ℚ} {rules : List Rule} {s s' : State σ}

def outputsOf (sqrt : ℚ → σ) (total : Multiset ℚ) : Outputs σ where
  nOut := total.card
  meanOut := average total
  stdOut := sqrt (squaredDeviations (average total) total / total.card)

structure Inv (sqrt : ℚ → σ) (S : Td → Multiset ℚ) (total : Multiset ℚ) (rules : List Rule)
    (s : State σ) : Prop where
  value : ∀ td v, s.value td = some v → v = .of (S td)
  pending : s.pending.Sublist rules
  inputs : ∀ rule ∈ rules, rule ∉ s.pending → ∀ td ∈ rule.inputs, (s.value td).isSome
  stores : ∀ rule ∈ rules, ∀ td ∈ rule.stores, rule ∉ s.pending ↔ (s.value td).isSome
  consumed : (s.consumed ++ s.pending.flatMap Rule.inputs).Perm (rules.flatMap Rule.inputs)
  outputs : ∀ structs, .final structs ∈ rules →
    s.outputs = if .final structs ∈ s.pending then none else some (outputsOf sqrt total)

lemma inv_start : Inv sqrt S total rules (start rules) where
  value td v h := by simp [start] at h
  pending := .refl _
  inputs rule hrule hnot := absurd hrule hnot
  stores rule hrule td htd := by simpa [start] using hrule
  consumed := .refl _
  outputs structs h := by simp [start, h]

lemma partials_eq (h : Inv sqrt S total rules s) {tds : List Td} {partials : List PartialStats}
    (hpartials : tds.mapM s.value = some partials) :
    partials = tds.map fun td => .of (S td) := by
  have hmap := map_eq_of_forall₂ (g := fun td => Summary.of (S td)) (h := id)
    (mapM_eq_some_iff.mp hpartials) fun td v hv => (h.value td v hv).symm
  rw [hmap, List.map_id]

lemma stored_of_mapM {value : Td → Option PartialStats} {tds : List Td}
    {partials : List PartialStats} (h : tds.mapM value = some partials) {td : Td}
    (htd : td ∈ tds) : (value td).isSome := by
  obtain ⟨v, -, hv⟩ := exists_of_forall₂ (mapM_eq_some_iff.mp h).flip htd
  simp [show value td = some v from hv]

lemma isSome_update {value : Td → Option PartialStats} {td td' : Td} {v : PartialStats}
    (h : (value td).isSome) : (Function.update value td' (some v) td).isSome := by
  by_cases heq : td = td'
  · simp [heq]
  · rwa [Function.update_of_ne heq]

variable {queue : List Td} {stop : ℕ}

lemma Inv.complete (h : Inv sqrt S total rules s) (hb : Builds queue 0 rules stop)
    {id : ℕ} :
    Inv sqrt S total rules
      { s with value := Function.update s.value (.part id) (some (.of (S (.part id)))) } where
  value td v hv := by
    by_cases heq : td = .part id
    · subst heq
      simpa using hv.symm
    · exact h.value td v (by simpa [heq] using hv)
  pending := h.pending
  inputs rule hrule hnot td htd := isSome_update (h.inputs rule hrule hnot td htd)
  stores rule hrule td htd := by
    obtain ⟨i, -, rfl⟩ := hb.mem_stores hrule htd
    simpa using h.stores rule hrule _ htd
  consumed := h.consumed
  outputs := h.outputs

lemma consumed_perm {pending : List Rule} {consumed : List Td} {rule : Rule}
    (hrule : rule ∈ pending) :
    (consumed ++ rule.inputs ++ (pending.erase rule).flatMap Rule.inputs).Perm
      (consumed ++ pending.flatMap Rule.inputs) := by
  rw [List.append_assoc]
  refine List.Perm.append_left consumed ?_
  exact ((List.perm_cons_erase hrule).flatMap_right Rule.inputs).symm

lemma Inv.fire (h : Inv sqrt S total rules s) (hb : Builds queue 0 rules stop)
    (hshares : Shares S total rules) {rule : Rule} {partials : List PartialStats}
    (hrule : rule ∈ s.pending) (hpartials : rule.inputs.mapM s.value = some partials) :
    Inv sqrt S total rules
      (rule.run sqrt { s with pending := s.pending.erase rule } partials) := by
  have hmem : rule ∈ rules := h.pending.subset hrule
  have hnodup : s.pending.Nodup := h.pending.nodup hb.nodup
  have herase : ∀ rule', rule' ∈ s.pending.erase rule ↔ rule' ≠ rule ∧ rule' ∈ s.pending :=
    fun rule' => hnodup.mem_erase_iff
  obtain ⟨hne, hsamples⟩ := hshares.inputs rule hmem
  have hstep : statCombineStep partials = .of (rule.inputs.map S).sum := by
    rw [partials_eq h hpartials, statCombineStep_of hne hsamples]
  have hinputs : ∀ rule' ∈ rules, rule' ∉ s.pending.erase rule → ∀ td ∈ rule'.inputs,
      (s.value td).isSome := by
    intro rule' hrule' hnot td htd
    by_cases heq : rule' = rule
    · subst heq
      exact stored_of_mapM hpartials htd
    · exact h.inputs rule' hrule' (fun hin => hnot ((herase rule').mpr ⟨heq, hin⟩)) td htd
  cases rule with
  | reduce slice out =>
    have hout : statCombineStep partials = .of (S out) := by
      rw [hstep, hshares.reduce slice out hmem]
      rfl
    constructor
    case value =>
      intro td v hv
      by_cases heq : td = out
      · subst heq
        simpa [Rule.run, statCombineReduce, hout] using hv.symm
      · exact h.value td v (by simpa [Rule.run, statCombineReduce, heq] using hv)
    case pending => exact (List.erase_sublist).trans h.pending
    case inputs =>
      intro rule' hrule' hnot td htd
      exact isSome_update (hinputs rule' hrule' hnot td htd)
    case stores =>
      intro rule' hrule' td htd
      by_cases heq : td = out
      · subst heq
        obtain rfl : rule' = .reduce slice td :=
          hb.stores_unique hrule' hmem htd (List.mem_singleton.mpr rfl)
        simp [Rule.run, statCombineReduce, hnodup.mem_erase_iff]
      · have hrule'' : rule' ≠ .reduce slice out := by
          rintro rfl
          exact heq (List.mem_singleton.mp htd)
        simpa [Rule.run, statCombineReduce, herase, hrule'', heq] using h.stores rule' hrule' td htd
    case consumed => exact (consumed_perm hrule).trans h.consumed
    case outputs =>
      intro structs hfinal
      simpa [Rule.run, statCombineReduce, herase] using h.outputs structs hfinal
  | final structs =>
    constructor
    case value => exact h.value
    case pending => exact (List.erase_sublist).trans h.pending
    case inputs => exact hinputs
    case stores =>
      intro rule' hrule' td htd
      have hrule'' : rule' ≠ .final structs := by
        rintro rfl
        simp [Rule.stores] at htd
      simpa [Rule.run, statCombineFinal, herase, hrule''] using h.stores rule' hrule' td htd
    case consumed => exact (consumed_perm hrule).trans h.consumed
    case outputs =>
      intro structs' hfinal
      have htotal : (structs.map S).sum = total := hshares.final structs hmem
      obtain rfl : structs' = structs := hb.final_unique hfinal hmem
      have hgone : Rule.final structs' ∉ s.pending.erase (.final structs') := by simp [herase]
      simp only [Rule.run, statCombineFinal, hstep, Rule.inputs, htotal, if_neg hgone]
      rfl

lemma Inv.step (h : Inv sqrt S total rules s) (hb : Builds queue 0 rules stop)
    (hshares : Shares S total rules) (hS : ∀ id, S (.part id) = samples id)
    (hstep : Step sqrt samples structs s s') : Inv sqrt S total rules s' := by
  cases hstep with
  | @complete id _ _ =>
    rw [← hS id]
    exact h.complete hb
  | fire hrule hpartials => exact h.fire hb hshares hrule hpartials

lemma inv_of_run (hb : Builds queue 0 rules stop) (hshares : Shares S total rules)
    (hS : ∀ id, S (.part id) = samples id)
    (hrun : Relation.ReflTransGen (Step sqrt samples structs) (start rules) s) :
    Inv sqrt S total rules s := by
  induction hrun with
  | refl => exact inv_start
  | tail _ hstep ih => exact ih.step hb hshares hS hstep

/-! ### Where runs end -/

def left (structs : List ℕ) (s : State σ) : ℕ :=
  s.pending.length + (structs.toFinset.filter fun id => s.value (.part id) = none).card

lemma isSome_run {rule : Rule} {partials : List PartialStats} {td : Td}
    (h : (s.value td).isSome) : ((rule.run sqrt s partials).value td).isSome := by
  cases rule with
  | reduce slice out => exact isSome_update h
  | final structs => exact h

lemma Step.left_lt (h : Step sqrt samples structs s s') : left structs s' < left structs s := by
  cases h with
  | @complete id hid hnone =>
    refine Nat.add_lt_add_left (Finset.card_lt_card ?_) _
    refine Finset.ssubset_iff_of_subset ?_ |>.mpr ⟨id, by simp [hid, hnone], by simp⟩
    intro id' hid'
    simp only [Finset.mem_filter] at hid' ⊢
    refine ⟨hid'.1, ?_⟩
    by_contra hsome
    have hupdate := @isSome_update _ _ (.part id) (.of (samples id))
      (Option.isSome_iff_ne_none.mpr hsome)
    simp [hid'.2] at hupdate
  | @fire rule partials hrule hpartials =>
    have hpending : (rule.run sqrt { s with pending := s.pending.erase rule } partials).pending =
        s.pending.erase rule := by
      cases rule <;> rfl
    have hlength := List.length_erase_of_mem hrule
    have hpos := List.length_pos_of_mem hrule
    refine Nat.add_lt_add_of_lt_of_le (by rw [hpending]; omega) (Finset.card_le_card ?_)
    intro id hid
    simp only [Finset.mem_filter] at hid ⊢
    refine ⟨hid.1, ?_⟩
    by_contra hsome
    have hrun := @isSome_run _ sqrt { s with pending := s.pending.erase rule } rule partials _
      (Option.isSome_iff_ne_none.mpr hsome)
    simp [hid.2] at hrun

/-- A run that cannot go on has run every rule. -/
lemma pending_eq_nil (h : Inv sqrt S total rules s)
    (hb : Builds (structs.map .part) 0 rules stop)
    (hend : ∀ s', ¬ Step sqrt samples structs s s') : ∀ rule ∈ rules, rule ∉ s.pending := by
  have hqueue : ∀ td ∈ structs.map Td.part, (s.value td).isSome := by
    intro td htd
    obtain ⟨id, hid, rfl⟩ := List.mem_map.mp htd
    by_contra hnone
    exact hend _ (.complete hid (by simpa using hnone))
  rcases @Builds.exists_ready _ _ _ _ (· ∉ s.pending) _ hb hqueue
    fun rule hrule hdone td htd => (h.stores rule hrule td htd).mp hdone with hall | hready
  · exact hall
  · obtain ⟨rule, hrule, hpending, hstored⟩ := hready
    obtain ⟨partials, hpartials⟩ := exists_forall₂ (R := fun td v => s.value td = some v)
      (l := rule.inputs) fun td htd => Option.isSome_iff_exists.mp (hstored td htd)
    exact absurd (.fire (not_not.mp hpending) (mapM_eq_some_iff.mpr hpartials)) (hend _)

end Invariant

/-- What the rules for some partial results come to. -/
structure Combines (sqrt : ℚ → σ) (samples : ℕ → Multiset ℚ) (structs : List ℕ)
    (rules : List Rule) : Prop where
  /-- The nodes are used in order, and all that were allocated. -/
  nodes_used : rules.flatMap Rule.stores = multicreate (reduceNodeCount structs.length)
  final_step : ∀ s, Relation.ReflTransGen (Step sqrt samples structs) (start rules) s →
    ∀ final partials, .final final ∈ rules → final.mapM s.value = some partials →
      statCombineStep partials = .of (structs.map samples).sum
  outputs_eq : ∀ s, Relation.ReflTransGen (Step sqrt samples structs) (start rules) s →
    ∀ outputs, s.outputs = some outputs →
      outputs = outputsOf sqrt (structs.map samples).sum
  consumed_once : ∀ s, Relation.ReflTransGen (Step sqrt samples structs) (start rules) s →
    s.consumed.Subperm (structs.map .part ++ multicreate (reduceNodeCount structs.length))
  consumed_all : ∀ s, Relation.ReflTransGen (Step sqrt samples structs) (start rules) s →
    s.outputs.isSome →
      s.consumed.Perm (structs.map .part ++ multicreate (reduceNodeCount structs.length))
  ends : ∀ s, Relation.ReflTransGen (Step sqrt samples structs) (start rules) s →
    (∀ s', ¬ Step sqrt samples structs s s') → s.outputs.isSome
  finite : ∀ run : ℕ → State σ, ¬ ∀ i, Step sqrt samples structs (run i) (run (i + 1))

lemma exists_rules {structs : List ℕ} (h : structs ≠ []) :
    ∃ rules, statCombineBody structs = .ok rules := by
  have hn : structs.length ≠ 0 := by simpa using h
  exact ⟨_, by rw [statCombineBody, if_neg hn]⟩

/-- A rule takes something, so the outputs are there only when the final rule has run. -/
lemma done_of_outputs {sqrt : ℚ → σ} {S : Td → Multiset ℚ} {total : Multiset ℚ}
    {queue : List Td} {stop : ℕ} {rules : List Rule} {s : State σ}
    (h : Inv sqrt S total rules s) (hb : Builds queue 0 rules stop) (hs : s.outputs.isSome) :
    ∀ rule ∈ rules, rule ∉ s.pending := by
  refine (@Builds.all_done _ _ _ _ _ (fun td => (s.value td).isSome) hb ?_ h.inputs ?_).1
  · exact fun rule hrule td htd => (h.stores rule hrule td htd).mpr
  · intro structs hfinal hpending
    rw [h.outputs structs hfinal, if_pos hpending] at hs
    cases hs

theorem stat_combine_combines (sqrt : ℚ → σ) (samples : ℕ → Multiset ℚ) {structs : List ℕ}
    (hstructs : structs ≠ []) (hsamples : ∀ id ∈ structs, samples id ≠ 0) :
    ∃ rules, statCombineBody structs = .ok rules ∧ Combines sqrt samples structs rules := by
  obtain ⟨rules, hrules⟩ := exists_rules hstructs
  have hb := builds_statCombineBody hrules
  obtain ⟨S, hS, hshares⟩ := hb.exists_shares (fun td => match td with
      | .part id => samples id
      | _ => 0)
    (by simp [Before]) (by simpa using hstructs) (by simpa using hsamples)
  have hpart : ∀ id, S (.part id) = samples id := by
    intro id
    rw [hS (.part id) (by simp [Before])]
  have htotal : ((structs.map Td.part).map fun td => match td with
      | .part id => samples id
      | _ => 0).sum = (structs.map samples).sum := by
    rw [List.map_map]
    rfl
  rw [htotal] at hshares
  have hinv := fun s hrun => @inv_of_run _ sqrt _ structs _ _ _ s _ _ hb hshares hpart
    hrun
  have hinputs : (rules.flatMap Rule.inputs).Perm
      (structs.map .part ++ multicreate (reduceNodeCount structs.length)) := by
    simpa [multicreate, nodes, List.range_eq_range'] using hb.inputs
  obtain ⟨final, hfinal⟩ := hb.exists_final
  refine ⟨rules, hrules, ?_, ?_, ?_, ?_, ?_, ?_, ?_⟩
  · simpa [multicreate, nodes, List.range_eq_range'] using hb.stores
  · intro s hrun final partials hmem hpartials
    obtain ⟨hne, hsamples⟩ := hshares.inputs _ hmem
    rw [partials_eq (hinv s hrun) hpartials, ← hshares.final final hmem]
    exact statCombineStep_of hne hsamples
  · intro s hrun outputs houtputs
    have hfired := done_of_outputs (hinv s hrun) hb (by simp [houtputs])
    have heq := (hinv s hrun).outputs final hfinal
    rw [if_neg (hfired _ hfinal), houtputs] at heq
    exact Option.some.inj heq
  · intro s hrun
    have hsub : s.consumed.Subperm (s.consumed ++ s.pending.flatMap Rule.inputs) :=
      (List.sublist_append_left _ _).subperm
    exact hsub.trans ((hinv s hrun).consumed.trans hinputs).subperm
  · intro s hrun houtputs
    have hfired := done_of_outputs (hinv s hrun) hb houtputs
    have hnil : s.pending = [] := List.eq_nil_iff_forall_not_mem.mpr fun rule hrule =>
      hfired rule ((hinv s hrun).pending.subset hrule) hrule
    have hconsumed := (hinv s hrun).consumed.trans hinputs
    rwa [hnil, List.flatMap_nil, List.append_nil] at hconsumed
  · intro s hrun hend
    have hfired := pending_eq_nil (hinv s hrun) hb hend
    simp [(hinv s hrun).outputs final hfinal, hfired _ hfinal]
  · intro run hrun
    exact not_strictAnti_of_wellFoundedLT (fun i => left structs (run i))
      (strictAnti_nat_of_succ_lt fun i => (hrun i).left_lt)

theorem stat_combine_combines_two :
    ∃ rules, statCombineBody [3, 4] = .ok rules ∧
      Combines (id : ℚ → ℚ) (fun id => {(id : ℚ)}) [3, 4] rules :=
  stat_combine_combines _ _ (by decide) (by simp)

end Turbine.Stats
