import Turbine.Rule.Names

/-! Whether the order of the keyword arguments of a rule matters: only a `LOCAL` type also sets what
two other keys set. -/

namespace Turbine.Rule

open Tcl Library.CStrings

variable {Obj D : Type} (env : RuleEnv Obj D)

def words (pairs : List (Obj × Obj)) : List Obj := pairs.flatMap fun p => [p.1, p.2]

def keyOf (pair : Obj × Obj) : Bytes := text (env.tcl.getString pair.1)

/-- A type that sends the task back to this rank comes only with a target that is this rank and a
strictness that is hard. -/
def LocalAgrees (pairs : List (Obj × Obj)) : Prop :=
  (∃ p ∈ pairs, keyOf env p = ascii "type" ∧ env.getInt p.2 = some workTypeLocal) →
    ∀ p ∈ pairs, (keyOf env p = ascii "target" → env.getInt p.2 = some env.commRank) ∧
      (keyOf env p = ascii "strictness" → text (env.tcl.getString p.2) = ascii "HARD")

/-- What a type needs of another setting to commute with it. -/
def Setting.Agrees : Setting → Setting → Prop
  | .type w, .target r => w = workTypeLocal → r = env.commRank
  | .type w, .strictness a => w = workTypeLocal → a = .hard
  | _, _ => True

variable {env}

lemma Setting.apply_comm {s t : Setting} (hne : s.key ≠ t.key) (hst : s.Agrees env t)
    (hts : t.Agrees env s) (opts : RuleOpts) :
    t.apply env (s.apply env opts) = s.apply env (t.apply env opts) := by
  cases s with
  | type w =>
    cases t with
    | type _ => exact (hne rfl).elim
    | target r =>
      simp only [Setting.apply]
      split_ifs with hw
      · rw [hst hw]
      · rfl
    | strictness a =>
      simp only [Setting.apply]
      split_ifs with hw
      · rw [hst hw]
      · rfl
    | _ =>
      simp only [Setting.apply]
      split_ifs <;> rfl
  | target r =>
    cases t with
    | target _ => exact (hne rfl).elim
    | type w =>
      simp only [Setting.apply]
      split_ifs with hw
      · rw [hts hw]
      · rfl
    | _ => rfl
  | strictness a =>
    cases t with
    | strictness _ => exact (hne rfl).elim
    | type w =>
      simp only [Setting.apply]
      split_ifs with hw
      · rw [hts hw]
      · rfl
    | _ => rfl
  | accuracy a =>
    cases t with
    | accuracy _ => exact (hne rfl).elim
    | type w =>
      simp only [Setting.apply]
      split_ifs <;> rfl
    | _ => rfl
  | name b =>
    cases t with
    | name _ => exact (hne rfl).elim
    | type w =>
      simp only [Setting.apply]
      split_ifs <;> rfl
    | _ => rfl
  | parallelism n =>
    cases t with
    | parallelism _ => exact (hne rfl).elim
    | type w =>
      simp only [Setting.apply]
      split_ifs <;> rfl
    | _ => rfl

lemma strictness_hard {val : Obj} :
    adlbParseStrictness env val = .ok .hard ↔ text (env.tcl.getString val) = ascii "HARD" := by
  unfold adlbParseStrictness
  simp only
  split_ifs <;> simp_all

/-- The settings of valid pairs, in whatever order. -/
structure Settings (env : RuleEnv Obj D) (f : Obj × Obj → Setting) (pairs : List (Obj × Obj)) :
    Prop where
  sets : ∀ p ∈ pairs, Sets env p (f p)
  distinct : ∀ p ∈ pairs, ∀ q ∈ pairs, keyOf env p = keyOf env q → p = q

lemma Settings.perm {f : Obj × Obj → Setting} {pairs pairs' : List (Obj × Obj)}
    (h : Settings env f pairs) (hp : pairs'.Perm pairs) : Settings env f pairs' where
  sets p hmem := h.sets p (hp.subset hmem)
  distinct p hmem q hq := h.distinct p (hp.subset hmem) q (hp.subset hq)

/-- The settings of the loop, and the default name behind it. -/
def finish (size : ℕ) (action : Bytes) (opts : RuleOpts) : RuleOpts :=
  if opts.name = .null then
    { opts with name := .buffer size (ruleSetNameDefault size action) }
  else opts

def settled (env : RuleEnv Obj D) (f : Obj × Obj → Setting) (opts : RuleOpts)
    (pairs : List (Obj × Obj)) : RuleOpts :=
  pairs.foldl (fun opts p => (f p).apply env opts) opts

lemma length_words (pairs : List (Obj × Obj)) : (words pairs).length = 2 * pairs.length := by
  induction pairs with
  | nil => rfl
  | cons p pairs ih =>
    simp only [words, List.flatMap_cons, List.length_append, List.length_cons] at ih ⊢
    rw [ih]
    simp
    omega

/-- The options before the first pair. -/
def defaults (env : RuleEnv Obj D) (opts : RuleOpts) : RuleOpts :=
  { opts with
    name := .null
    workType := workTypeWork
    target := env.rankAny
    opts.parallelism := 1 }

lemma Settings.ruleOptsFromList_eq {f : Obj × Obj → Setting} {pairs : List (Obj × Obj)}
    (h : Settings env f pairs) (opts : RuleOpts) (size : ℕ) (action : Bytes) :
    ruleOptsFromList env opts (words pairs) size action =
      .ok (finish size action (settled env f (defaults env opts) pairs)) := by
  have hsets : List.Forall₂ (Sets env) pairs (pairs.map f) :=
    List.forall₂_map_right_iff.mpr (List.forall₂_same.mpr h.sets)
  have hcount : (words pairs).length % 2 = 0 := by
    rw [length_words]
    omega
  have hdefault : ruleSetOptsDefault env opts none none = .ok (defaults env opts) := rfl
  unfold ruleOptsFromList
  rw [hdefault]
  simp only [hcount, decide_true, TclResult.condition_true, TclResult.ok_bind]
  rw [words, ruleOptsLoop_eq hsets, TclResult.ok_bind, List.foldl_map, finish,
    apply_ite TclResult.ok]
  rfl

lemma Sets.type_local {pair : Obj × Obj} {s : Setting} (h : Sets env pair s)
    (hkey : keyOf env pair = ascii "type") (hval : env.getInt pair.2 = some workTypeLocal) :
    s = .type workTypeLocal := by
  obtain ⟨hs, hread⟩ := h
  have hs : s.key = ascii "type" := hs.symm.trans hkey
  cases s with
  | type w => exact congrArg Setting.type (Option.some.inj (hread.symm.trans hval))
  | _ => exact absurd hs (by simp only [Setting.key]; decide)

lemma Sets.target {pair : Obj × Obj} {s : Setting} (h : Sets env pair s)
    (hkey : keyOf env pair = ascii "target") :
    ∃ r, s = .target r ∧ env.getInt pair.2 = some r := by
  obtain ⟨hs, hread⟩ := h
  have hs : s.key = ascii "target" := hs.symm.trans hkey
  cases s with
  | target r => exact ⟨r, rfl, hread⟩
  | _ => exact absurd hs (by simp only [Setting.key]; decide)

lemma Sets.strictness {pair : Obj × Obj} {s : Setting} (h : Sets env pair s)
    (hkey : keyOf env pair = ascii "strictness") :
    ∃ a, s = .strictness a ∧ adlbParseStrictness env pair.2 = .ok a := by
  obtain ⟨hs, hread⟩ := h
  have hs : s.key = ascii "strictness" := hs.symm.trans hkey
  cases s with
  | strictness a => exact ⟨a, rfl, hread⟩
  | _ => exact absurd hs (by simp only [Setting.key]; decide)

/-- Two pairs of a list can both be put last, in either order. -/
lemma exists_perm_last {α : Type*} {l : List α} {a b : α} (ha : a ∈ l) (hb : b ∈ l) (hne : a ≠ b) :
    ∃ rest, (rest ++ [a, b]).Perm l ∧ (rest ++ [b, a]).Perm l := by
  classical
  have hb' : b ∈ l.erase a := (List.mem_erase_of_ne hne.symm).mpr hb
  have hperm : l.Perm (a :: b :: (l.erase a).erase b) :=
    (List.perm_cons_erase ha).trans ((List.perm_cons_erase hb').cons a)
  refine ⟨(l.erase a).erase b, ?_, ?_⟩
  · exact List.perm_append_comm.trans hperm.symm
  · exact List.perm_append_comm.trans ((List.Perm.swap a b _).trans hperm.symm)

lemma finish_eq {size : ℕ} {action : Bytes} {o o' : RuleOpts}
    (h : finish size action o = finish size action o') :
    o.target = o'.target ∧ o.opts = o'.opts := by
  have htarget (x : RuleOpts) : (finish size action x).target = x.target := by
    unfold finish
    split_ifs <;> rfl
  have hopts (x : RuleOpts) : (finish size action x).opts = x.opts := by
    unfold finish
    split_ifs <;> rfl
  rw [← htarget o, ← htarget o', ← hopts o, ← hopts o', h]
  exact ⟨rfl, rfl⟩

lemma settled_last (f : Obj × Obj → Setting) (opts : RuleOpts) (rest : List (Obj × Obj))
    (a b : Obj × Obj) : settled env f opts (rest ++ [a, b]) =
      (f b).apply env ((f a).apply env (settled env f opts rest)) := by
  simp [settled, List.foldl_append]

lemma LocalAgrees.agrees {pairs : List (Obj × Obj)} (h : LocalAgrees env pairs)
    {f : Obj × Obj → Setting} (hf : Settings env f pairs) {p q : Obj × Obj} (hp : p ∈ pairs)
    (hq : q ∈ pairs) : (f p).Agrees env (f q) := by
  obtain ⟨hpkey, hpval⟩ := hf.sets p hp
  obtain ⟨hqkey, hqval⟩ := hf.sets q hq
  cases hfp : f p with
  | type w =>
    rw [hfp] at hpkey hpval
    cases hfq : f q with
    | target r =>
      rintro rfl
      rw [hfq] at hqkey hqval
      exact Option.some.inj (hqval.symm.trans ((h ⟨p, hp, hpkey, hpval⟩ q hq).1 hqkey))
    | strictness a =>
      rintro rfl
      rw [hfq] at hqkey hqval
      exact TclResult.ok.inj (hqval.symm.trans
        (strictness_hard.mpr ((h ⟨p, hp, hpkey, hpval⟩ q hq).2 hqkey)))
    | _ => trivial
  | _ => trivial

/-- With valid pairs of distinct keys, every order gives the same options exactly when a `LOCAL` type
agrees with the explicit target and strictness. -/
theorem ruleOptsFromList_perm_iff (opts : RuleOpts) (size : ℕ) (action : Bytes)
    (pairs : List (Obj × Obj)) (hdistinct : (pairs.map (keyOf env)).Nodup)
    (hvalid : ∀ p ∈ pairs, ∃ s, Sets env p s) :
    (∀ pairs', pairs'.Perm pairs → ruleOptsFromList env opts (words pairs') size action =
        ruleOptsFromList env opts (words pairs) size action) ↔ LocalAgrees env pairs := by
  choose! f hsets using hvalid
  have hf : Settings env f pairs :=
    ⟨hsets, fun p hp q hq heq => List.inj_on_of_nodup_map hdistinct hp hq heq⟩
  constructor
  · rintro hsame ⟨p, hp, hkey, hlocal⟩
    have hlast : ∀ q ∈ pairs, q ≠ p → ∃ o, finish size action
          ((f q).apply env ((f p).apply env o)) = finish size action
            ((f p).apply env ((f q).apply env o)) := by
      intro q hq hne
      obtain ⟨rest, hpq, hqp⟩ := exists_perm_last hp hq hne.symm
      have heq := (hsame _ hpq).trans (hsame _ hqp).symm
      rw [(hf.perm hpq).ruleOptsFromList_eq, (hf.perm hqp).ruleOptsFromList_eq, settled_last,
        settled_last] at heq
      exact ⟨_, TclResult.ok.inj heq⟩
    have hfp := (hf.sets p hp).type_local hkey hlocal
    intro q hq
    constructor
    · intro hqkey
      obtain ⟨r, hfq, hr⟩ := (hf.sets q hq).target hqkey
      obtain ⟨o, ho⟩ := hlast q hq (by rintro rfl; rw [hfp] at hfq; cases hfq)
      rw [hfp, hfq] at ho
      have htarget : r = env.commRank := (finish_eq ho).1
      rw [hr, htarget]
    · intro hqkey
      obtain ⟨a, hfq, ha⟩ := (hf.sets q hq).strictness hqkey
      obtain ⟨o, ho⟩ := hlast q hq (by rintro rfl; rw [hfp] at hfq; cases hfq)
      rw [hfp, hfq] at ho
      have hstrict : a = .hard := congrArg AdlbPutOpts.strictness (finish_eq ho).2
      exact strictness_hard.mp (hstrict ▸ ha)
  · intro hagrees pairs' hperm
    rw [(hf.perm hperm).ruleOptsFromList_eq, hf.ruleOptsFromList_eq]
    have hf' := hf.perm hperm
    have hfold : settled env f (defaults env opts) pairs' =
        settled env f (defaults env opts) pairs := by
      refine hperm.foldl_eq' ?_ _
      intro p hp q hq o
      by_cases hpq : p = q
      · rw [hpq]
      · refine Setting.apply_comm ?_ (hagrees.agrees hf (hperm.subset hp) (hperm.subset hq))
          (hagrees.agrees hf (hperm.subset hq) (hperm.subset hp)) o
        intro hkey
        refine hpq (hf'.distinct p hp q hq ?_)
        exact (hf'.sets p hp).1.trans (hkey.trans (hf'.sets q hq).1.symm)
    rw [hfold]

/-- A target behind `LOCAL` is overwritten by it or overwrites it. -/
def localThenTarget : List (Value × Value) :=
  [(.str (ascii "type"), .str (ascii "-1")), (.str (ascii "target"), .str (ascii "3"))]

theorem ruleOptsFromList_perm_iff_own_rank :
    (∀ pairs', pairs'.Perm localThenTarget →
      ruleOptsFromList (workerEnv 3) ⟨.null, 0, 0, putOptsDefault⟩ (words pairs') 128 [] =
        ruleOptsFromList (workerEnv 3) ⟨.null, 0, 0, putOptsDefault⟩ (words localThenTarget) 128
          []) ↔ LocalAgrees (workerEnv 3) localThenTarget := by
  refine ruleOptsFromList_perm_iff _ _ _ localThenTarget (by decide) ?_
  refine List.forall_mem_cons.mpr ⟨⟨.type (-1), by decide, ?_⟩, ?_⟩
  · exact (by decide : (workerEnv 3).getInt (.str (ascii "-1")) = some (-1))
  · refine List.forall_mem_singleton.mpr ⟨.target 3, by decide, ?_⟩
    exact (by decide : (workerEnv 3).getInt (.str (ascii "3")) = some 3)

theorem not_ruleOptsFromList_perm :
    ruleOptsFromList (workerEnv 5) ⟨.null, 0, 0, putOptsDefault⟩ (words localThenTarget) 128 [] ≠
      ruleOptsFromList (workerEnv 5) ⟨.null, 0, 0, putOptsDefault⟩ (words localThenTarget.reverse)
        128 [] := by
  decide

end Turbine.Rule
