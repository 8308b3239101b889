import Turbine.Stats.Tree

/-! What the rules of the tree take and store, and the samples behind each of its nodes. -/

namespace Turbine.Stats

open Turbine.Library.Moments

def Rule.stores : Rule → List Td
  | .reduce _ out => [out]
  | .final _ => []

variable {queue : List Td} {ix stop : ℕ} {rules : List Rule}

lemma Builds.le (h : Builds queue ix rules stop) : ix ≤ stop := by
  induction h with
  | final => rfl
  | reduce _ _ ih => omega

lemma nodes_succ (h : ix + 1 ≤ stop) :
    nodes ix (stop - ix) = .node ix :: nodes (ix + 1) (stop - (ix + 1)) := by
  obtain ⟨n, rfl⟩ := Nat.exists_eq_add_of_le h
  have hn : ix + 1 + n - ix = n + 1 := by omega
  rw [hn, Nat.add_sub_cancel_left, nodes, List.range'_succ]
  rfl

lemma Builds.stores (h : Builds queue ix rules stop) :
    rules.flatMap Rule.stores = nodes ix (stop - ix) := by
  induction h with
  | final => simp [Rule.stores, nodes]
  | reduce _ hrest ih =>
    rw [nodes_succ hrest.le, List.flatMap_cons, ih]
    rfl

lemma Builds.inputs (h : Builds queue ix rules stop) :
    (rules.flatMap Rule.inputs).Perm (queue ++ nodes ix (stop - ix)) := by
  induction h with
  | final => simp [Rule.inputs, nodes]
  | @reduce slice rest ix rules stop _ hrest ih =>
    rw [nodes_succ hrest.le, List.flatMap_cons, List.append_assoc]
    refine List.Perm.append_left slice (ih.trans ?_)
    simp

lemma mem_nodes {td : Td} {n : ℕ} : td ∈ nodes ix n ↔ ∃ i, ix ≤ i ∧ i < ix + n ∧ td = .node i := by
  simp [nodes, List.mem_range', eq_comm]
  constructor
  · rintro ⟨i, hi, rfl⟩
    exact ⟨ix + i, by omega, by omega, rfl⟩
  · rintro ⟨i, hi, hlt, rfl⟩
    exact ⟨i - ix, by omega, by rw [Nat.add_sub_cancel' hi]⟩

lemma Builds.mem_stores (h : Builds queue ix rules stop) {rule : Rule} (hrule : rule ∈ rules)
    {td : Td} (htd : td ∈ rule.stores) : ∃ i, ix ≤ i ∧ td = .node i := by
  have hmem : td ∈ rules.flatMap Rule.stores := List.mem_flatMap.mpr ⟨rule, hrule, htd⟩
  rw [h.stores, mem_nodes] at hmem
  obtain ⟨i, hi, -, rfl⟩ := hmem
  exact ⟨i, hi, rfl⟩

lemma Builds.nodup (h : Builds queue ix rules stop) : rules.Nodup := by
  induction h with
  | final => simp
  | reduce _ hrest ih =>
    refine List.nodup_cons.mpr ⟨?_, ih⟩
    intro hmem
    obtain ⟨i, hi, heq⟩ := hrest.mem_stores hmem (List.mem_singleton.mpr rfl)
    obtain rfl := Td.node.inj heq
    omega

lemma Builds.stores_unique (h : Builds queue ix rules stop) {rule rule' : Rule}
    (hrule : rule ∈ rules) (hrule' : rule' ∈ rules) {td : Td} (htd : td ∈ rule.stores)
    (htd' : td ∈ rule'.stores) : rule = rule' := by
  have hnodup : (rules.flatMap Rule.stores).Nodup := by
    rw [h.stores, nodes]
    exact (List.nodup_range' 1).map fun _ _ => Td.node.inj
  by_contra hne
  have : Std.Symm (Function.onFun List.Disjoint Rule.stores) := ⟨fun _ _ hd => hd.symm⟩
  exact (List.nodup_flatMap.mp hnodup).2.forall hrule hrule' hne htd htd'

lemma Builds.final_unique (h : Builds queue ix rules stop) {structs structs' : List Td}
    (hrule : .final structs ∈ rules) (hrule' : .final structs' ∈ rules) : structs = structs' := by
  induction h with
  | final =>
    simp only [List.mem_singleton, Rule.final.injEq] at hrule hrule'
    rw [hrule, hrule']
  | reduce _ _ ih => exact ih (by simpa using hrule) (by simpa using hrule')

lemma Builds.exists_final (h : Builds queue ix rules stop) : ∃ structs, .final structs ∈ rules := by
  induction h with
  | @final queue ix => exact ⟨queue, by simp⟩
  | reduce _ _ ih =>
    obtain ⟨structs, hs⟩ := ih
    exact ⟨structs, .tail _ hs⟩

section Progress

variable {done : Rule → Prop} {stored : Td → Prop}

/-- The final rule comes last: every other node has to be stored before it. -/
lemma Builds.all_done (h : Builds queue ix rules stop)
    (hstores : ∀ rule ∈ rules, ∀ td ∈ rule.stores, stored td → done rule)
    (hinputs : ∀ rule ∈ rules, done rule → ∀ td ∈ rule.inputs, stored td)
    (hfinal : ∀ structs, .final structs ∈ rules → done (.final structs)) :
    (∀ rule ∈ rules, done rule) ∧ ∀ td ∈ queue, stored td := by
  induction h with
  | final =>
    simp only [List.mem_singleton, forall_eq] at hinputs ⊢
    exact ⟨hfinal _ (by simp), hinputs (hfinal _ (by simp))⟩
  | @reduce slice rest ix rules stop _ _ ih =>
    simp only [List.mem_cons, forall_eq_or_imp] at hstores hinputs ⊢
    obtain ⟨hdone, hqueue⟩ := ih hstores.2 hinputs.2 fun structs hs => hfinal structs (.tail _ hs)
    have hreduce : done (.reduce slice (.node ix)) :=
      hstores.1 _ (List.mem_singleton.mpr rfl) (hqueue _ (by simp))
    refine ⟨⟨hreduce, hdone⟩, ?_⟩
    intro td htd
    rcases List.mem_append.mp htd with htd | htd
    · exact hinputs.1 hreduce td htd
    · exact hqueue td (List.mem_append_left _ htd)

/-- As long as a rule is left, the first that is left has its inputs stored. -/
lemma Builds.exists_ready (h : Builds queue ix rules stop) (hqueue : ∀ td ∈ queue, stored td)
    (hstores : ∀ rule ∈ rules, done rule → ∀ td ∈ rule.stores, stored td) :
    (∀ rule ∈ rules, done rule) ∨
      ∃ rule ∈ rules, ¬ done rule ∧ ∀ td ∈ rule.inputs, stored td := by
  induction h with
  | @final queue ix =>
    by_cases hdone : done (.final queue)
    · exact .inl (by simpa using hdone)
    · exact .inr ⟨_, by simp, hdone, hqueue⟩
  | @reduce slice rest ix rules stop _ _ ih =>
    simp only [List.mem_append, or_imp, forall_and] at hqueue
    by_cases hdone : done (.reduce slice (.node ix))
    · have hnode : stored (.node ix) :=
        hstores _ (List.mem_cons_self) hdone _ (List.mem_singleton.mpr rfl)
      have hrest : ∀ td ∈ rest ++ [Td.node ix], stored td := by
        simpa [or_imp, forall_and, hnode] using hqueue.2
      rcases ih hrest fun rule hrule => hstores rule (.tail _ hrule) with hall | hready
      · exact .inl (by simpa [hdone] using hall)
      · obtain ⟨rule, hrule, hready⟩ := hready
        exact .inr ⟨rule, .tail _ hrule, hready⟩
    · exact .inr ⟨_, List.mem_cons_self, hdone, hqueue.1⟩

end Progress

/-! ### The samples behind each node -/

def Before (ix : ℕ) (td : Td) : Prop := ∀ i, ix ≤ i → td ≠ .node i

/-- The samples that each datum stands for, and what the rules make of them. -/
structure Shares (S : Td → Multiset ℚ) (total : Multiset ℚ) (rules : List Rule) : Prop where
  reduce : ∀ slice out, .reduce slice out ∈ rules → S out = (slice.map S).sum
  final : ∀ structs, .final structs ∈ rules → (structs.map S).sum = total
  inputs : ∀ rule ∈ rules, rule.inputs ≠ [] ∧ ∀ td ∈ rule.inputs, S td ≠ 0

lemma sum_ne_zero {S : Td → Multiset ℚ} {tds : List Td} (hne : tds ≠ [])
    (h : ∀ td ∈ tds, S td ≠ 0) : (tds.map S).sum ≠ 0 := by
  cases tds with
  | nil => exact absurd rfl hne
  | cons td tds =>
    intro hsum
    rw [List.map_cons, List.sum_cons, add_eq_zero] at hsum
    exact h td (List.mem_cons_self) hsum.1

lemma Builds.exists_shares (h : Builds queue ix rules stop) (S₀ : Td → Multiset ℚ)
    (hbefore : ∀ td ∈ queue, Before ix td) (hqueue : queue ≠ []) (hne : ∀ td ∈ queue, S₀ td ≠ 0) :
    ∃ S, (∀ td, Before ix td → S td = S₀ td) ∧ Shares S (queue.map S₀).sum rules := by
  induction h generalizing S₀ with
  | final => exact ⟨S₀, fun _ _ => rfl, by simp, by simp, by simpa [Rule.inputs] using ⟨hqueue, hne⟩⟩
  | @reduce slice rest ix rules stop hslice hrest ih =>
    simp only [List.mem_append, or_imp, forall_and] at hbefore hne
    have hkeep : ∀ td, Before ix td →
        Function.update S₀ (.node ix) (slice.map S₀).sum td = S₀ td := by
      intro td htd
      exact Function.update_of_ne (htd ix le_rfl) _ _
    have hmap : ∀ tds : List Td, (∀ td ∈ tds, Before ix td) →
        tds.map (Function.update S₀ (.node ix) (slice.map S₀).sum) = tds.map S₀ := by
      intro tds htds
      exact List.map_congr_left fun td htd => hkeep td (htds td htd)
    obtain ⟨S, hS, hshares⟩ := ih (Function.update S₀ (.node ix) (slice.map S₀).sum)
      (by
        simp only [List.mem_append, List.mem_singleton, or_imp, forall_and, forall_eq]
        refine ⟨fun td htd i hi => hbefore.2 td htd i (by omega), ?_⟩
        intro i hi heq
        obtain rfl := Td.node.inj heq
        omega)
      (by simp)
      (by
        simp only [List.mem_append, List.mem_singleton, or_imp, forall_and, forall_eq,
          Function.update_self]
        refine ⟨?_, sum_ne_zero hslice hne.1⟩
        intro td htd
        rw [hkeep td (hbefore.2 td htd)]
        exact hne.2 td htd)
    have hold : ∀ td, Before ix td → S td = S₀ td := by
      intro td htd
      rw [hS td fun i hi => htd i (by omega), hkeep td htd]
    have hsliceS : slice.map S = slice.map S₀ :=
      List.map_congr_left fun td htd => hold td (hbefore.1 td htd)
    have hnode : S (.node ix) = (slice.map S₀).sum := by
      rw [hS, Function.update_self]
      intro i hi heq
      obtain rfl := Td.node.inj heq
      omega
    refine ⟨S, hold, ?_, ?_, ?_⟩
    · intro slice' out hmem
      rcases List.mem_cons.mp hmem with heq | hmem
      · obtain ⟨rfl, rfl⟩ := Rule.reduce.inj heq
        rw [hnode, hsliceS]
      · exact hshares.reduce slice' out hmem
    · intro structs hmem
      have hfinal := hshares.final structs (by simpa using hmem)
      rw [hfinal, List.map_append, hmap rest hbefore.2]
      simp [add_comm]
    · intro rule hmem
      rcases List.mem_cons.mp hmem with rfl | hmem
      · refine ⟨hslice, ?_⟩
        intro td htd
        rw [hold td (hbefore.1 td htd)]
        exact hne.1 td htd
      · exact hshares.inputs rule hmem

lemma stepOne_of {xs ys : Multiset ℚ} (hx : xs ≠ 0) (hy : ys ≠ 0) :
    stepOne (.of xs) (.of ys) = .of (xs + ys) := by
  have hn : (Summary.of xs).n ≠ 0 := by simpa [Summary.of] using hx
  rw [stepOne, if_neg hn]
  exact combine_of hx hy

lemma foldl_stepOne {S : Td → Multiset ℚ} {xs : Multiset ℚ} (hx : xs ≠ 0) (tds : List Td)
    (h : ∀ td ∈ tds, S td ≠ 0) :
    (tds.map fun td => Summary.of (S td)).foldl stepOne (.of xs) =
      .of (xs + (tds.map S).sum) := by
  induction tds generalizing xs with
  | nil => simp
  | cons td tds ih =>
    simp only [List.mem_cons, forall_eq_or_imp] at h
    have hne : xs + S td ≠ 0 := by simp [hx]
    rw [List.map_cons, List.foldl_cons, stepOne_of hx h.1, ih hne h.2]
    simp [add_assoc]

/-- The step over some partial results describes their samples together. -/
lemma statCombineStep_of {S : Td → Multiset ℚ} {tds : List Td} (hne : tds ≠ [])
    (h : ∀ td ∈ tds, S td ≠ 0) :
    statCombineStep (tds.map fun td => Summary.of (S td)) = .of (tds.map S).sum := by
  cases tds with
  | nil => exact absurd rfl hne
  | cons td tds =>
    simp only [List.mem_cons, forall_eq_or_imp] at h
    rw [statCombineStep, List.map_cons, List.foldl_cons]
    exact foldl_stepOne h.1 tds h.2

end Turbine.Stats
