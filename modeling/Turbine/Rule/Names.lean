import Turbine.Rule.Options

/-! Default rule names: a name is the first token of the action, up to and including the first
space, and it fits its buffer exactly when that token and a terminator do. -/

namespace Turbine.Rule

open Tcl Library.CStrings

/-- All of the action when there is no space in it. -/
def firstToken (action : Bytes) : Bytes :=
  match (text action).idxOf? space with
  | none => text action
  | some q => (text action).take (q + 1)

/-- Every byte is stored inside the buffer, and a prefix of the action is left there. -/
structure NameFits (size : ℕ) (action : Bytes) (stores : List Store) : Prop where
  inBounds : InBounds size stores
  leaves : ∃ name, name <+: text action ∧ name.length < size ∧ Leaves stores name

def RuleName.Fits (action : Bytes) : RuleName → Prop
  | .null => False
  | .text _ => True
  | .buffer size stores => NameFits size action stores

lemma prefix_text (action : Bytes) : firstToken action <+: text action := by
  unfold firstToken
  split
  · exact List.prefix_refl _
  · exact List.take_prefix _ _

lemma length_take_space {action : Bytes} {q : ℕ} (h : (text action).idxOf? space = some q) :
    ((text action).take (q + 1)).length = q + 1 := by
  obtain ⟨hq, -, -⟩ := List.idxOf?_eq_some_iff.mp h
  simp
  omega

/-- With a space, the bytes up to it are copied and a terminator is put behind them. -/
lemma copied_leaves {action : Bytes} {q : ℕ} (h : (text action).idxOf? space = some q) :
    Leaves (strncpy action (q + 1) ++ [(q + 1, 0)]) ((text action).take (q + 1)) := by
  have hlen := length_take_space h
  have hq : q + 1 - (text action).length = 0 := by
    obtain ⟨hq, -, -⟩ := List.idxOf?_eq_some_iff.mp h
    omega
  refine leaves_of_bytes List.prefix_rfl ?_
  intro mem i hi
  rw [List.length_append, hlen, List.length_singleton] at hi
  rw [written_append, strncpy, hq, List.replicate_zero, List.append_nil]
  change Function.update _ (q + 1) 0 i = _
  rcases Nat.lt_succ_iff_lt_or_eq.mp hi with hlt | rfl
  · rw [Function.update_of_ne hlt.ne, written_placed, if_pos (Nat.zero_le i), Nat.sub_zero,
      List.getElem?_append_left (by omega), List.getElem?_eq_getElem (by omega)]
    rfl
  · rw [Function.update_self, List.getElem?_append_right hlen.le, hlen]
    simp

/-- Where a name is left, everything before its terminator is not zero. -/
lemma length_le_of_leaves {stores : List Store} {name token : Bytes} (hzero : 0 ∉ token)
    (hname : Leaves stores name)
    (hw : ∀ i (h : i < token.length), written (fun _ => 0) stores i = token[i]) :
    token.length ≤ name.length := by
  by_contra hlt
  have hterm := (hname fun _ => 0).2
  rw [hw name.length (by omega)] at hterm
  exact hzero (hterm ▸ List.getElem_mem _)

theorem nameFits_iff (size : ℕ) (action : Bytes) :
    NameFits size action (ruleSetNameDefault size action) ↔ (firstToken action).length < size := by
  unfold ruleSetNameDefault firstToken
  cases hspace : (text action).idxOf? space with
  | none =>
    constructor
    · rintro ⟨-, name, -, hlt, hname⟩
      by_contra hge
      have hle : size ≤ name.length := by
        have htoken := @length_le_of_leaves _ _ ((text action).take size)
          (fun h => zero_notMem_text action (List.mem_of_mem_take h)) hname ?_
        · rw [List.length_take, Nat.min_eq_left (not_lt.mp hge)] at htoken
          exact htoken
        · intro i hi
          rw [strncpy, written_placed, if_pos (Nat.zero_le i), Nat.sub_zero,
            List.getElem?_append_left hi, List.getElem?_eq_getElem hi]
          rfl
      omega
    · intro hlt
      exact ⟨inBounds_strncpy action size, _, List.prefix_rfl, hlt, strncpy_leaves hlt⟩
  | some q =>
    simp only [length_take_space hspace]
    constructor
    · rintro ⟨hin, -⟩
      exact hin (q + 1, 0) (by simp)
    · intro hlt
      refine ⟨?_, _, List.take_prefix (q + 1) _, by rwa [length_take_space hspace],
        copied_leaves hspace⟩
      refine inBounds_append.mpr ⟨?_, by simpa [InBounds] using hlt⟩
      intro s hs
      exact (inBounds_strncpy action (q + 1) s hs).trans hlt

/-! ### The names that the commands use -/

variable {Obj D : Type} {env : RuleEnv Obj D}

variable (env) in
/-- One of the keys is `name`. -/
def givesName : List Obj → Bool
  | key :: _ :: objs => text (env.tcl.getString key) = ascii "name" || givesName objs
  | _ => false

lemma apply_name {opts : RuleOpts} {s : Setting} :
    (s.key = ascii "name" ∧ ∃ b, (s.apply env opts).name = .text b) ∨
      (s.key ≠ ascii "name" ∧ (s.apply env opts).name = opts.name) := by
  cases s with
  | name b => exact Or.inl ⟨rfl, b, rfl⟩
  | type t =>
    refine Or.inr ⟨show ascii "type" ≠ ascii "name" by decide, ?_⟩
    simp only [Setting.apply]
    split_ifs <;> rfl
  | _ => exact Or.inr ⟨by simp only [Setting.key]; decide, rfl⟩

lemma ruleOptsLoop_name {objs : List Obj} {opts opts' : RuleOpts}
    (h : ruleOptsLoop env opts objs = .ok opts') :
    if givesName env objs then ∃ b, opts'.name = .text b
    else opts'.name = opts.name := by
  induction opts, objs using ruleOptsLoop.induct with
  | case1 opts key val objs ih =>
    rw [ruleOptsLoop] at h
    obtain ⟨opts₁, hkv, h⟩ := TclResult.bind_eq_ok.mp h
    obtain ⟨s, ⟨hkey, -⟩, rfl⟩ := @sets_of_ruleOptFromKv _ _ env opts opts₁ (key, val) hkv
    have hrest := ih _ h
    rw [givesName, hkey]
    cases hgives : givesName env objs with
    | true => simpa [hgives] using hrest
    | false =>
      rw [hgives, if_neg Bool.false_ne_true] at hrest
      rcases @apply_name _ _ env opts s with ⟨hs, b, hb⟩ | ⟨hs, hname⟩
      · simpa [hs] using ⟨b, hrest.trans hb⟩
      · simpa [hs] using hrest.trans hname
  | case2 opts objs hshort =>
    rw [ruleOptsLoop] at h
    · obtain rfl := TclResult.ok.inj h
      rw [givesName]
      · rfl
      · exact hshort
    · exact hshort

lemma ruleOptsFromList_name {opts opts' : RuleOpts} {objs : List Obj} {size : ℕ} {action : Bytes}
    (h : ruleOptsFromList env opts objs size action = .ok opts') :
    if givesName env objs then ∃ b, opts'.name = .text b
    else opts'.name = .buffer size (ruleSetNameDefault size action) := by
  unfold ruleOptsFromList at h
  simp only [TclResult.bind_eq_ok] at h
  obtain ⟨-, -, opts₁, hdefault, opts₂, hloop, h⟩ := h
  have hname := ruleOptsLoop_name hloop
  obtain rfl := TclResult.ok.inj hdefault
  cases hgives : givesName env objs with
  | true =>
    obtain ⟨b, hb⟩ : ∃ b, opts₂.name = .text b := by simpa [hgives] using hname
    rw [hb, if_neg (by simp)] at h
    obtain rfl := TclResult.ok.inj h
    simpa using ⟨b, hb⟩
  | false =>
    have hnull : opts₂.name = .null := by simpa [hgives] using hname
    rw [hnull, if_pos rfl] at h
    obtain rfl := TclResult.ok.inj h
    simp

lemma ruleName_fits_iff {gives : Bool} {name : RuleName} {size : ℕ} {action : Bytes}
    (h : if gives then ∃ b, name = .text b
      else name = .buffer size (ruleSetNameDefault size action)) :
    name.Fits action ↔ gives = true ∨ (firstToken action).length < size := by
  cases gives with
  | true =>
    obtain ⟨b, rfl⟩ := h
    simp [RuleName.Fits]
  | false =>
    obtain rfl : name = _ := h
    simpa [RuleName.Fits] using nameFits_iff size action

lemma turbineRuleOptions_name {objs : List Obj} {action : Bytes} {opts : RuleOpts}
    (h : turbineRuleOptions env objs action = .ok opts) :
    if givesName env objs then ∃ b, opts.name = .text b
    else opts.name = .buffer turbineNameMax (ruleSetNameDefault turbineNameMax action) := by
  unfold turbineRuleOptions at h
  simp only at h
  split at h
  · exact ruleOptsFromList_name h
  · rename_i hnil
    obtain rfl : objs = [] := not_not.mp hnil
    obtain rfl := TclResult.ok.inj h
    rfl

/-- The default name fits exactly when the first token is shorter than the buffer; a rule needs it
unless it is given a name, and `ruleopts` only makes a short one. -/
theorem default_names_fit_iff :
    (∀ size action, NameFits size action (ruleSetNameDefault size action) ↔
      (firstToken action).length < size) ∧
    (∀ (objs : List Obj) action opts, turbineRuleOptions env objs action = .ok opts →
      (opts.name.Fits action ↔
        givesName env objs = true ∨ (firstToken action).length < turbineNameMax)) ∧
    ∀ (objs : List Obj) opts₀ opts, turbineRuleOptsCmd env opts₀ objs = .ok opts →
      opts.name.Fits (ascii "dummy action") := by
  refine ⟨nameFits_iff, ?_, ?_⟩
  · intro objs action opts h
    exact ruleName_fits_iff (turbineRuleOptions_name h)
  · intro objs opts₀ opts h
    exact (ruleName_fits_iff (ruleOptsFromList_name h)).mpr (Or.inr (by decide))

def putOptsDefault : AdlbPutOpts := ⟨0, 1, .hard, .rank⟩

def workerEnv (commRank : ℤ) : RuleEnv Value UInt64 where
  tcl := values
  getInt v := v.wideInt.bind fun n =>
    if -2 ^ 31 ≤ n.toInt ∧ n.toInt < 2 ^ 31 then some n.toInt else none
  rankAny := -100
  commRank := commRank
  defaultPutOpts := putOptsDefault

theorem default_names_fit_iff_word : ∃ opts,
    turbineRuleOptions (workerEnv 0) [] (ascii "f 1 2") = .ok opts ∧
      opts.name.Fits (ascii "f 1 2") :=
  ⟨_, rfl, ((@default_names_fit_iff _ _ (workerEnv 0)).2.1 [] (ascii "f 1 2") _ rfl).mpr
    (Or.inr (by decide))⟩

/-- A word as long as the buffer is left without a terminator. -/
theorem not_default_names_fit :
    ¬ ∀ size action, 1 ≤ size → NameFits size action (ruleSetNameDefault size action) := by
  intro h
  have hlt := (nameFits_iff _ _).mp (h turbineNameMax (List.replicate 128 97) (by decide))
  have htoken : firstToken (List.replicate 128 97) = List.replicate 128 97 := by
    have htext : text (List.replicate 128 97) = List.replicate 128 97 :=
      text_of_notMem (by simp)
    rw [firstToken, htext, List.idxOf?_eq_none_iff.mpr (by simp [space])]
  rw [htoken, List.length_replicate] at hlt
  exact lt_irrefl 128 hlt

end Turbine.Rule
