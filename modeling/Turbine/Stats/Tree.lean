import Turbine.Library.Moments

/-! The tree that combines partial statistics: the rules that `stat_combine_body` leaves, and how
every partial result and every node of the tree comes into it. -/

namespace Turbine.Stats

open Turbine.Library.Moments

/-- The datum of a partial result, or the node that was allocated at an index. Past the end of
the allocated nodes `lindex` gives the empty string. -/
inductive Td
  | part (id : ℕ)
  | node (ix : ℕ)
  | empty
  deriving DecidableEq

abbrev PartialStats := Summary ℚ

def stepOne (acc p : PartialStats) : PartialStats :=
  if acc.n = 0 then p
  else
    let n := acc.n + p.n
    let diff := p.mean - acc.mean
    { n := n
      mean := (acc.mean * acc.n + p.mean * p.n) / n
      m2 := acc.m2 + p.m2 + diff ^ 2 * (acc.n * p.n / n) }

-- the mean and `M2` are first set with the first partial result
def statCombineStep (partials : List PartialStats) : PartialStats :=
  partials.foldl stepOne ⟨0, 0, 0⟩

inductive Rule
  | reduce (slice : List Td) (output : Td)
  | final (structs : List Td)
  deriving DecidableEq

def Rule.inputs : Rule → List Td
  | .reduce slice _ => slice
  | .final structs => structs

def Rule.output : Rule → Td
  | .reduce _ output => output
  | .final _ => .empty

def k : ℕ := 16

/-- The loop that counts the internal nodes; it goes round less than `n` times for `n` nodes. -/
def countNodes : ℕ → ℕ → ℕ
  | 0, _ => 0
  | fuel + 1, levelNodes =>
    if levelNodes > k then
      let levelNodes := (levelNodes - 1) / k + 1
      levelNodes + countNodes fuel levelNodes
    else 0

def reduceNodeCount (n : ℕ) : ℕ := countNodes n n

def multicreate (count : ℕ) : List Td := (List.range count).map .node

def lindex (tds : List Td) (ix : ℕ) : Td := tds.getD ix .empty

def lrange (tds : List Td) (first last : ℕ) : List Td := (tds.drop first).take (last + 1 - first)

/-- The rules of one level, from the struct at `i` and the reduce node at `ix` on. -/
def reduceLevel (reduceNodes currStructs : List Td) : ℕ → ℕ → ℕ → List Rule
  | 0, _, _ => []
  | fuel + 1, i, ix =>
    if i < currStructs.length then
      .reduce (lrange currStructs i (i + k - 1)) (lindex reduceNodes ix) ::
        reduceLevel reduceNodes currStructs fuel (i + k) (ix + 1)
    else []

def buildTree (reduceNodes : List Td) : ℕ → List Td → ℕ → List Rule
  | 0, _, _ => []
  | fuel + 1, currStructs, ix =>
    if currStructs.length > k then
      let level := reduceLevel reduceNodes currStructs currStructs.length 0 ix
      let nextStructs := level.map Rule.output
      level ++ buildTree reduceNodes fuel nextStructs (ix + level.length)
    else [.final currStructs]

def statCombineBody (structs : List ℕ) : Except String (List Rule) :=
  let n := structs.length
  if n = 0 then .error "mean and standard deviation not defined for sample size 0"
  else .ok (buildTree (multicreate (reduceNodeCount n)) n (structs.map .part) 0)

/-! ### Rules that take from a queue -/

/-- Rules that take their inputs from the front of a queue and put their nodes at its end, with
the nodes from `ix` up to `stop`. -/
inductive Builds : List Td → ℕ → List Rule → ℕ → Prop
  | final {queue ix} : Builds queue ix [.final queue] ix
  | reduce {slice rest ix rules stop} : slice ≠ [] →
      Builds (rest ++ [.node ix]) (ix + 1) rules stop →
      Builds (slice ++ rest) ix (.reduce slice (.node ix) :: rules) stop

lemma countNodes_eq {fuel levelNodes : ℕ} (h : levelNodes ≤ fuel) :
    countNodes fuel levelNodes = reduceNodeCount levelNodes := by
  induction fuel using Nat.strong_induction_on generalizing levelNodes with
  | _ fuel ih =>
    by_cases hlarge : levelNodes > k
    · have hk : levelNodes > 16 := hlarge
      obtain ⟨fuel, rfl⟩ : ∃ m, fuel = m + 1 := ⟨fuel - 1, by omega⟩
      obtain ⟨n, rfl⟩ : ∃ m, levelNodes = m + 1 := ⟨levelNodes - 1, by omega⟩
      have hle : n / k + 1 ≤ n := by
        unfold k
        omega
      have hfuel : countNodes fuel (n / k + 1) = reduceNodeCount (n / k + 1) :=
        ih fuel (by omega) (by omega)
      have hn : countNodes n (n / k + 1) = reduceNodeCount (n / k + 1) := ih n (by omega) hle
      simp [reduceNodeCount, countNodes, hlarge, hfuel, hn]
    · cases fuel <;> cases levelNodes <;> simp [reduceNodeCount, countNodes, hlarge]

lemma reduceNodeCount_eq {n : ℕ} (h : n > k) :
    reduceNodeCount n = (n - 1) / k + 1 + reduceNodeCount ((n - 1) / k + 1) := by
  have hk : n > 16 := h
  obtain ⟨m, rfl⟩ : ∃ m, n = m + 1 := ⟨n - 1, by omega⟩
  have hle : m / k + 1 ≤ m := by
    unfold k
    omega
  rw [reduceNodeCount, countNodes, if_pos h, Nat.add_sub_cancel]
  simp only [countNodes_eq hle]

lemma reduceNodeCount_small {n : ℕ} (h : ¬ n > k) : reduceNodeCount n = 0 := by
  cases n <;> simp [reduceNodeCount, countNodes, h]

/-! ### The tree takes from a queue -/

def nodes (ix n : ℕ) : List Td := (List.range' ix n).map .node

@[simp] lemma length_nodes (ix n : ℕ) : (nodes ix n).length = n := by simp [nodes]

def NodesIn (nodes : List Td) (stop : ℕ) : Prop :=
  ∀ ix < stop, lindex nodes ix = .node ix

lemma NodesIn.mono {nodes : List Td} {stop stop' : ℕ} (h : NodesIn nodes stop)
    (hle : stop' ≤ stop) : NodesIn nodes stop' :=
  fun ix hix => h ix (hix.trans_le hle)

lemma nodesIn_multicreate (count : ℕ) : NodesIn (multicreate count) count := by
  intro ix hix
  simp [lindex, multicreate, List.getD, hix]

variable {reduceNodes currStructs : List Td} {stop : ℕ}

lemma length_reduceLevel (fuel i ix : ℕ) (h : currStructs.length ≤ i + fuel) :
    (reduceLevel reduceNodes currStructs fuel i ix).length = (currStructs.length - i + 15) / k := by
  induction fuel generalizing i ix with
  | zero =>
    have hzero : currStructs.length - i = 0 := by omega
    simp [reduceLevel, hzero, k]
  | succ fuel ih =>
    rw [reduceLevel]
    split
    · rename_i hlt
      rw [List.length_cons, ih (i + k) (ix + 1) (by unfold k; omega)]
      unfold k
      omega
    · rename_i hge
      have hzero : currStructs.length - i = 0 := by omega
      simp [hzero, k]

/-- The rules of a level take what is left of it, and put their nodes behind. -/
lemma builds_reduceLevel (fuel i ix : ℕ) (behind : List Td) {rules : List Rule}
    (h : currStructs.length ≤ i + fuel)
    (hnodes : NodesIn reduceNodes (ix + (currStructs.length - i + 15) / k))
    (hrest : Builds (behind ++ nodes ix ((currStructs.length - i + 15) / k))
      (ix + (currStructs.length - i + 15) / k) rules stop) :
    Builds (currStructs.drop i ++ behind) ix
        (reduceLevel reduceNodes currStructs fuel i ix ++ rules) stop ∧
      (reduceLevel reduceNodes currStructs fuel i ix).map Rule.output =
        nodes ix ((currStructs.length - i + 15) / k) := by
  induction fuel generalizing i ix behind with
  | zero =>
    have hzero : (currStructs.length - i + 15) / k = 0 := by
      unfold k
      omega
    rw [hzero] at hrest ⊢
    rw [List.drop_eq_nil_of_le (by omega)]
    exact ⟨by simpa [nodes, reduceLevel] using hrest, rfl⟩
  | succ fuel ih =>
    rw [reduceLevel]
    split
    · rename_i hlt
      have hcount : (currStructs.length - i + 15) / k =
          (currStructs.length - (i + k) + 15) / k + 1 := by
        unfold k
        omega
      have hcons : nodes ix ((currStructs.length - i + 15) / k) =
          .node ix :: nodes (ix + 1) ((currStructs.length - (i + k) + 15) / k) := by
        rw [hcount, nodes, List.range'_succ]
        rfl
      have hindex : ix + (currStructs.length - i + 15) / k =
          ix + 1 + (currStructs.length - (i + k) + 15) / k := by
        rw [hcount]
        ac_rfl
      rw [hcons, hindex] at hrest
      rw [hindex] at hnodes
      have hnode : lindex reduceNodes ix = .node ix := hnodes ix (by
        rw [Nat.add_assoc]
        exact Nat.lt_add_of_pos_right (Nat.add_pos_left Nat.one_pos _))
      have hslice : lrange currStructs i (i + k - 1) = (currStructs.drop i).take k := by
        rw [lrange]
        congr 1
        unfold k
        omega
      have hqueue : currStructs.drop i ++ behind = (currStructs.drop i).take k ++
          (currStructs.drop (i + k) ++ behind) := by
        rw [← List.append_assoc, ← List.drop_drop, List.take_append_drop]
      obtain ⟨hbuilds, houtputs⟩ := ih (i + k) (ix + 1) (behind ++ [.node ix])
        (by unfold k; omega) hnodes (by simpa using hrest)
      rw [hslice, hnode, hqueue, hcons]
      refine ⟨.reduce ?_ (by simpa using hbuilds), ?_⟩
      · apply List.ne_nil_of_length_pos
        rw [List.length_take, List.length_drop]
        unfold k
        omega
      · rw [List.map_cons, houtputs]
        rfl
    · rename_i hge
      have hzero : (currStructs.length - i + 15) / k = 0 := by
        unfold k
        omega
      rw [hzero] at hrest ⊢
      rw [List.drop_eq_nil_of_le (by omega)]
      exact ⟨by simpa [nodes] using hrest, rfl⟩

/-- The levels that are built take all nodes that were counted for them. -/
lemma builds_buildTree (fuel : ℕ) (ix : ℕ) (h : currStructs.length ≤ fuel)
    (hpos : 0 < currStructs.length)
    (hnodes : NodesIn reduceNodes (ix + reduceNodeCount currStructs.length)) :
    Builds currStructs ix (buildTree reduceNodes fuel currStructs ix)
      (ix + reduceNodeCount currStructs.length) := by
  induction fuel generalizing currStructs ix with
  | zero => omega
  | succ fuel ih =>
    rw [buildTree]
    by_cases hlarge : currStructs.length > k
    · have hceil : (currStructs.length - 1) / k + 1 = (currStructs.length - 0 + 15) / k := by
        unfold k
        omega
      have hlevel : (currStructs.length - 0 + 15) / k ≤ fuel := by
        have hk : currStructs.length > 16 := hlarge
        unfold k
        omega
      have hone : 0 < (currStructs.length - 0 + 15) / k := by
        rw [← hceil]
        exact Nat.succ_pos _
      have hlength := @length_reduceLevel reduceNodes currStructs
        currStructs.length 0 ix (by omega)
      rw [reduceNodeCount_eq hlarge, hceil, ← Nat.add_assoc] at hnodes ⊢
      have hnext := @ih (nodes ix ((currStructs.length - 0 + 15) / k))
        (ix + (currStructs.length - 0 + 15) / k)
      simp only [length_nodes] at hnext
      have hbuilds := @builds_reduceLevel _ currStructs _ currStructs.length 0 ix []
        _ (by omega) (hnodes.mono (by omega)) (hnext hlevel hone hnodes)
      rw [if_pos hlarge]
      simp only [hbuilds.2, hlength]
      simpa using hbuilds.1
    · rw [reduceNodeCount_small hlarge, if_neg hlarge]
      exact .final

theorem builds_statCombineBody {structs : List ℕ} {rules : List Rule}
    (h : statCombineBody structs = .ok rules) :
    Builds (structs.map .part) 0 rules (reduceNodeCount structs.length) := by
  unfold statCombineBody at h
  by_cases hn : structs.length = 0
  · simp [hn] at h
  · simp only [hn, if_false, Except.ok.injEq] at h
    subst h
    have hbuilds := @builds_buildTree _ (structs.map .part) structs.length 0
      (by simp) (by simpa using Nat.pos_of_ne_zero hn)
      (nodesIn_multicreate (0 + reduceNodeCount (structs.map Td.part).length))
    simpa using hbuilds

end Turbine.Stats
