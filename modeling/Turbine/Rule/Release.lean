import Turbine.Rule.Inputs

/-! What is still allocated when the rule command returns: nothing exactly when the rule was put, or
no subscript had been parsed when it failed. -/

namespace Turbine.Rule

open Tcl Library Handle Library.CStrings

variable {Obj D : Type} (lib : HandleLib) (env : RuleEnv Obj D)

/-- No block was freed twice, and every block that was allocated on the way has been freed. -/
structure Released (m : Memory) (r : Except Failure Unit × Memory) : Prop where
  defined : r.1 ≠ .error .undefined
  freed : ∃ k, r.2.blocks = m.blocks ++ List.replicate k none

/-- The call of `ADLB_Dput` for the whole list of inputs. -/
def ruleCall (priority : ℤ) (opts : RuleOpts) (action : Obj) (entry : List Obj) : DputCall where
  action := env.tcl.getString action ++ [0]
  target := opts.target
  answer := env.commRank
  workType := opts.workType
  opts := { opts.opts with priority := priority }
  name := opts.name
  ids := plainIds lib env.tcl entry
  idSubs := idSubsOf lib env.tcl entry

/-- Once the loop over the inputs is reached, either every handle parses and the rule is put, or no
handle before the first malformed one has a subscript. -/
def RuleSettles (priority : ℤ) (dput : DputCall → Bool) : List Obj → Prop
  | inputs :: action :: objs => ∀ opts entry,
    turbineRuleOptions env objs (env.tcl.getString action) = .ok opts →
    env.tcl.getList inputs = some entry → entry.length < tclTurbineMaxInputs →
    (entry.all (parses lib env.tcl) = true ∧
        dput (ruleCall lib env priority opts action entry) = true) ∨
      idSubsOf lib env.tcl (entry.takeWhile (parses lib env.tcl)) = []
  | _ => True

variable {lib env}

/-! ### Options are never undefined -/

lemma bind_ne_undefined {α β : Type} {x : TclResult α} {f : α → TclResult β} (hx : x ≠ .undefined)
    (hf : ∀ a, f a ≠ .undefined) : (x >>= f) ≠ .undefined := by
  cases x with
  | ok a => exact hf a
  | undefined => exact (hx rfl).elim
  | error info => simp
  | abort text => simp

lemma require_ne_undefined {α : Type} (x : Option α) (msg : String) :
    TclResult.require x msg ≠ .undefined := by
  cases x <;> simp

lemma ruleOptFromKv_ne_undefined (opts : RuleOpts) (key val : Obj) :
    ruleOptFromKv env opts key val ≠ .undefined := by
  unfold ruleOptFromKv
  simp only
  split_ifs
  · refine bind_ne_undefined ?_ (by simp)
    unfold adlbParseAccuracy
    simp only
    split_ifs <;> simp
  · simp
  · exact bind_ne_undefined (require_ne_undefined _ _) (by simp)
  · exact bind_ne_undefined (require_ne_undefined _ _) (by simp)
  · refine bind_ne_undefined (require_ne_undefined _ _) ?_
    intro t
    split_ifs <;> simp
  · refine bind_ne_undefined ?_ (by simp)
    unfold adlbParseStrictness
    simp only
    split_ifs <;> simp
  · simp

lemma ruleOptsLoop_ne_undefined (opts : RuleOpts) (objs : List Obj) :
    ruleOptsLoop env opts objs ≠ .undefined := by
  induction opts, objs using ruleOptsLoop.induct with
  | case1 opts key val objs ih =>
    rw [ruleOptsLoop]
    exact bind_ne_undefined (ruleOptFromKv_ne_undefined opts key val) ih
  | case2 opts objs hshort =>
    rw [ruleOptsLoop]
    · simp
    · exact hshort

lemma turbineRuleOptions_ne_undefined (objs : List Obj) (action : Bytes) :
    turbineRuleOptions env objs action ≠ .undefined := by
  unfold turbineRuleOptions
  simp only
  split_ifs
  · unfold ruleOptsFromList
    refine bind_ne_undefined ?_ fun _ => bind_ne_undefined (by simp [ruleSetOptsDefault]) fun o =>
      bind_ne_undefined (ruleOptsLoop_ne_undefined o objs) ?_
    · unfold TclResult.condition
      split_ifs <;> simp
    · intro o
      split_ifs <;> simp
  · simp [ruleSetOptsDefault]

/-! ### The command -/

lemma released_unchanged {m : Memory} {e : Failure} (he : e ≠ .undefined) :
    Released m ((.error e, m) : Except Failure Unit × Memory) :=
  ⟨by simpa using he, 0, by simp⟩

lemma released_held_iff {m m' : Memory} {subs : List DatumIdSub} {blocks : List (Option Bytes)}
    {idSubs : List (Int64 × Bytes)} (hblocks : m'.blocks = m.blocks ++ blocks)
    (howned : Owned m.blocks.length subs blocks idSubs) {info : List String} :
    Released m ((.error (.error info), m') : Except Failure Unit × Memory) ↔ idSubs = [] := by
  constructor
  · rintro ⟨-, k, hk⟩
    rw [hblocks] at hk
    cases howned with
    | nil => rfl
    | cons =>
      have hnone := List.append_cancel_left hk
      cases k <;> simp [List.replicate_succ] at hnone
  · rintro rfl
    cases howned with
    | nil => exact ⟨by simp, 0, by simpa using hblocks⟩

lemma turbineExtractIds_eq {list : Obj} {entry : List Obj} {max : ℕ}
    (hlist : env.tcl.getList list = some entry) (hmax : entry.length < max) (m : Memory) :
    turbineExtractIds lib env list max m = extractIds lib env entry [] [] m := by
  unfold turbineExtractIds
  rw [hlist]
  simp only [pure_bind, hmax, decide_true, TclCmd.condition_true]

lemma extract_error {list : Obj} {max : ℕ} (m : Memory)
    (h : ∀ entry, env.tcl.getList list = some entry → ¬ entry.length < max) :
    ∃ e, e ≠ .undefined ∧ turbineExtractIds lib env list max m = (.error e, m) := by
  unfold turbineExtractIds
  cases hlist : env.tcl.getList list with
  | none => exact ⟨_, by simp, rfl⟩
  | some entry =>
    simp only [pure_bind, h entry hlist, decide_false, TclCmd.condition_false, Cmd.throw_bind]
    exact ⟨_, by simp, rfl⟩

lemma addInfo_of_failed {α : Type} {c : TclCmd Memory α} {m m' : Memory} {e : Failure} (msg : String)
    (he : e ≠ .undefined) (h : c m = (.error e, m')) :
    ∃ e', e' ≠ .undefined ∧ TclCmd.addInfo c msg m = (.error e', m') := by
  cases e with
  | error info => exact ⟨_, by simp, TclCmd.addInfo_of_error msg h⟩
  | abort text => exact ⟨.abort text, by simp, by simp [TclCmd.addInfo, h]⟩
  | undefined => exact (he rfl).elim

lemma ofResult_failed {α : Type} {r : TclResult α} (hr : r ≠ .undefined) (h : ∀ a, r ≠ .ok a)
    (m : Memory) : ∃ e, e ≠ .undefined ∧ (TclCmd.ofResult r : TclCmd Memory α) m = (.error e, m) := by
  cases r with
  | ok a => exact (h a rfl).elim
  | error info => exact ⟨_, by simp, rfl⟩
  | abort text => exact ⟨_, by simp, rfl⟩
  | undefined => exact (hr rfl).elim

variable {priority : ℤ} {dput : DputCall → Bool} {inputs action : Obj} {objs entry : List Obj}
  {opts : RuleOpts} {m : Memory}

/-- When the loop over the inputs is reached. -/
lemma turbineRuleCmd_released_iff (hlib : Allocates lib)
    (hopts : turbineRuleOptions env objs (env.tcl.getString action) = .ok opts)
    (hlist : env.tcl.getList inputs = some entry) (hmax : entry.length < tclTurbineMaxInputs) :
    Released m (turbineRuleCmd lib env priority dput (inputs :: action :: objs) m) ↔
      (entry.all (parses lib env.tcl) = true ∧
          dput (ruleCall lib env priority opts action entry) = true) ∨
        idSubsOf lib env.tcl (entry.takeWhile (parses lib env.tcl)) = [] := by
  obtain ⟨subs, blocks, m', hblocks, howned, hresult⟩ := extractIds_spec hlib entry [] [] m
  rw [turbineRuleCmd, hopts, TclCmd.ofResult_ok, pure_bind]
  cases hall : entry.all (parses lib env.tcl) with
  | false =>
    rw [hall, if_neg Bool.false_ne_true] at hresult
    obtain ⟨info, hinfo⟩ := hresult
    rw [← turbineExtractIds_eq hlist hmax] at hinfo
    rw [Cmd.bind_of_error (TclCmd.addInfo_of_error _ hinfo), released_held_iff hblocks howned]
    simp
  | true =>
    rw [hall, if_pos rfl, ← turbineExtractIds_eq hlist hmax, List.nil_append,
      List.nil_append] at hresult
    have htake : entry.takeWhile (parses lib env.tcl) = entry :=
      List.takeWhile_eq_self_iff.mpr (List.all_eq_true.mp hall)
    rw [htake] at howned ⊢
    rw [Cmd.bind_of_ok (TclCmd.addInfo_of_ok _ hresult)]
    dsimp only
    rw [Cmd.bind_of_ok (howned.read hblocks)]
    change Released m ((TclCmd.condition (dput (ruleCall lib env priority opts action entry)) _ >>=
      fun _ => freeSubs subs) m') ↔ _
    cases hput : dput (ruleCall lib env priority opts action entry) with
    | false =>
      rw [TclCmd.condition_false, Cmd.throw_bind]
      simpa using released_held_iff hblocks howned
    | true =>
      obtain ⟨m'', hfreed, hblocks''⟩ := howned.freed rfl hblocks
      rw [TclCmd.condition_true, pure_bind, hfreed]
      simpa using (⟨by simp, _, hblocks''⟩ :
        Released m ((.ok (), m'') : Except Failure Unit × Memory))

theorem turbineRuleCmd_releases_iff (hlib : Allocates lib) (objv : List Obj) :
    Released m (turbineRuleCmd lib env priority dput objv m) ↔
      RuleSettles lib env priority dput objv := by
  match objv with
  | [] => exact iff_of_true (released_unchanged (by simp)) trivial
  | [_] => exact iff_of_true (released_unchanged (by simp)) trivial
  | inputs :: action :: objs =>
    by_cases hopts : ∃ opts, turbineRuleOptions env objs (env.tcl.getString action) = .ok opts
    · obtain ⟨opts, hopts⟩ := hopts
      by_cases hlist : ∃ entry, env.tcl.getList inputs = some entry ∧
          entry.length < tclTurbineMaxInputs
      · obtain ⟨entry, hlist, hmax⟩ := hlist
        rw [turbineRuleCmd_released_iff hlib hopts hlist hmax]
        constructor
        · intro h opts' entry' hopts' hlist' _
          obtain rfl := TclResult.ok.inj (hopts.symm.trans hopts')
          obtain rfl := Option.some.inj (hlist.symm.trans hlist')
          exact h
        · exact fun h => h opts entry hopts hlist hmax
      · have hnone : ∀ entry, env.tcl.getList inputs = some entry →
            ¬ entry.length < tclTurbineMaxInputs := fun entry h hlt => hlist ⟨entry, h, hlt⟩
        obtain ⟨e, he, hextract⟩ := @extract_error _ _ lib env _ _ m hnone
        obtain ⟨e', he', hinfo⟩ := addInfo_of_failed
          ("could not parse inputs list as ids or id/subscript pairs:\n in rule: " ++
            showBytes opts.name.string ++ " inputs: \"" ++ showBytes (env.tcl.getString inputs) ++
            "\"") he hextract
        rw [turbineRuleCmd, hopts, TclCmd.ofResult_ok, pure_bind, Cmd.bind_of_error hinfo]
        exact iff_of_true (released_unchanged he') fun _ entry _ h hlt =>
          (hnone entry h hlt).elim
    · obtain ⟨e, he, hfail⟩ := ofResult_failed (turbineRuleOptions_ne_undefined objs
        (env.tcl.getString action)) (fun opts h => hopts ⟨opts, h⟩) m
      rw [turbineRuleCmd, Cmd.bind_of_error hfail]
      exact iff_of_true (released_unchanged he) fun opts _ h => (hopts ⟨opts, h⟩).elim

/-- Every handle of the list is in one of the two results. -/
lemma length_inputs {entry : List Obj} (h : entry.all (parses lib env.tcl) = true) :
    (plainIds lib env.tcl entry).length + (idSubsOf lib env.tcl entry).length = entry.length := by
  induction entry with
  | nil => rfl
  | cons o entry ih =>
    rw [List.all_cons, Bool.and_eq_true] at h
    have hrest := ih h.2
    rcases extract_cases lib env.tcl o with ⟨id, ho⟩ | ⟨id, str, ho⟩ | ⟨info, ho⟩
    · simp only [plainIds, idSubsOf, List.filterMap_cons, ho, List.length_cons] at hrest ⊢
      omega
    · simp only [plainIds, idSubsOf, List.filterMap_cons, ho, List.length_cons] at hrest ⊢
      omega
    · simp [parses, ho] at h

/-- The handles of a list are split into ids and subscripted ids in list order, and the rule command
frees what it allocated for them exactly when it settles. -/
theorem rule_inputs_split_and_released_iff (hlib : Allocates lib) :
    (∀ list entry max m, env.tcl.getList list = some entry → entry.length < max →
      entry.all (parses lib env.tcl) = true →
      (plainIds lib env.tcl entry).length + (idSubsOf lib env.tcl entry).length = entry.length ∧
      ∃ subs m', turbineExtractIds lib env list max m =
          (.ok (plainIds lib env.tcl entry, subs), m') ∧
        readSubs subs m' = (.ok (idSubsOf lib env.tcl entry), m')) ∧
    ∀ priority dput objv m, Released m (turbineRuleCmd lib env priority dput objv m) ↔
      RuleSettles lib env priority dput objv := by
  refine ⟨?_, fun priority dput objv m => turbineRuleCmd_releases_iff hlib objv⟩
  intro list entry max m hlist hmax hall
  obtain ⟨subs, blocks, m', hblocks, howned, hresult⟩ := extractIds_spec hlib entry [] [] m
  rw [hall, if_pos rfl, ← turbineExtractIds_eq hlist hmax] at hresult
  have htake : entry.takeWhile (parses lib env.tcl) = entry :=
    List.takeWhile_eq_self_iff.mpr (List.all_eq_true.mp hall)
  rw [htake] at howned
  exact ⟨length_inputs hall, subs, m', hresult, howned.read hblocks⟩

lemma handleLib_allocates : Allocates handleLib where
  alloc m n hn := by
    refine ⟨List.replicate n 0, by simp, ?_⟩
    change some (growBuf m ⟨none, 0⟩ false n) = _
    rw [growBuf, if_neg (by simpa using hn.ne')]
    simp

/-- `12 3.4` -/
def goodInputs : Value := .list [.str [49, 50], .str [51, 46, 52]]

/-- `3.4 x` -/
def badInputs : Value := .list [.str [51, 46, 52], .str [120]]

theorem rule_inputs_released_good : Released (emptyMemory 0)
    (turbineRuleCmd handleLib (workerEnv 0) 0 (fun _ => true) [goodInputs, .str (ascii "f 1")]
      (emptyMemory 0)) := by
  refine ((rule_inputs_split_and_released_iff handleLib_allocates).2 _ _ _ _).mpr ?_
  rintro opts entry - hlist -
  obtain rfl := Option.some.inj hlist
  exact Or.inl ⟨by decide, rfl⟩

/-- A malformed handle behind a subscripted one, and a put that fails. -/
theorem not_rule_inputs_released :
    (¬ Released (emptyMemory 0) (turbineRuleCmd handleLib (workerEnv 0) 0 (fun _ => true)
        [badInputs, .str (ascii "f 1")] (emptyMemory 0))) ∧
      ¬ Released (emptyMemory 0) (turbineRuleCmd handleLib (workerEnv 0) 0 (fun _ => false)
        [goodInputs, .str (ascii "f 1")] (emptyMemory 0)) := by
  constructor
  · intro h
    rw [turbineRuleCmd_releases_iff handleLib_allocates] at h
    have hno := h _ _ rfl rfl (by decide)
    revert hno
    decide
  · intro h
    rw [turbineRuleCmd_releases_iff handleLib_allocates] at h
    have hno := h _ _ rfl rfl (by decide)
    revert hno
    decide

end Turbine.Rule
