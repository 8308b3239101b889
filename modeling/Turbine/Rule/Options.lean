import Turbine.Tcl.Values
import Turbine.Library.CStrings

/-! The options of a rule: its name, where it runs and how its task is put. -/

namespace Turbine.Rule

open Tcl Library.CStrings

inductive TargetStrictness | hard | soft
  deriving DecidableEq

inductive TargetAccuracy | rank | node
  deriving DecidableEq

structure AdlbPutOpts where
  priority : ℤ
  parallelism : ℤ
  strictness : TargetStrictness
  accuracy : TargetAccuracy
  deriving DecidableEq

/-- Where `opts.name` points: nowhere, into the text of a Tcl object, or to the caller's buffer with
what was stored there. -/
inductive RuleName
  | null
  | text (s : Bytes)
  | buffer (size : ℕ) (stores : List Store)
  deriving DecidableEq

structure RuleOpts where
  name : RuleName
  workType : ℤ
  target : ℤ
  opts : AdlbPutOpts
  deriving DecidableEq

/-- What the options depend on: `Tcl_GetIntFromObj`, `ADLB_RANK_ANY`, the rank of this process and
`ADLB_DEFAULT_PUT_OPTS`. -/
structure RuleEnv (Obj D : Type) where
  tcl : TclApi Obj D
  getInt : Obj → Option ℤ
  rankAny : ℤ
  commRank : ℤ
  defaultPutOpts : AdlbPutOpts

def turbineNameMax : ℕ := 128
def workTypeWork : ℤ := 0
def workTypeLocal : ℤ := -1

def space : UInt8 := 32

def ruleSetNameDefault (size : ℕ) (action : Bytes) : List Store :=
  match (text action).idxOf? space with
  | none => strncpy action size
  | some q => strncpy action (q + 1) ++ [(q + 1, 0)]

variable {Obj D : Type} (env : RuleEnv Obj D)

/-- The buffer is given by its size; the action may be a null pointer. -/
def ruleSetOptsDefault (opts : RuleOpts) (action : Option Bytes) (bufferSize : Option ℕ) :
    TclResult RuleOpts := do
  let name ← match action, bufferSize with
    | none, none => .ok .null
    | none, some size => .ok (.buffer size [])
    | some _, none => .abort "opts->name != NULL"
    | some action, some size => .ok (.buffer size (ruleSetNameDefault size action))
  .ok { opts with
    name := name
    workType := workTypeWork
    target := env.rankAny
    opts.parallelism := 1 }

def adlbParseAccuracy (val : Obj) : TclResult TargetAccuracy :=
  let s := text (env.tcl.getString val)
  if s = ascii "RANK" then .ok .rank
  else if s = ascii "NODE" then .ok .node
  else .error ["invalid accuracy value: " ++ showBytes s]

def adlbParseStrictness (val : Obj) : TclResult TargetStrictness :=
  let s := text (env.tcl.getString val)
  if s = ascii "HARD" then .ok .hard
  else if s = ascii "SOFT" then .ok .soft
  else .error ["invalid strictness value: " ++ showBytes s]

def ruleOptFromKv (opts : RuleOpts) (key val : Obj) : TclResult RuleOpts :=
  let k := text (env.tcl.getString key)
  -- the source branches on the first character before it compares the whole key
  if k = ascii "accuracy" then do
    let accuracy ← adlbParseAccuracy env val
    .ok { opts with opts.accuracy := accuracy }
  else if k = ascii "name" then .ok { opts with name := .text (env.tcl.getString val) }
  else if k = ascii "parallelism" then do
    let t ← TclResult.require (env.getInt val) "parallelism argument must be integer"
    .ok { opts with opts.parallelism := t }
  else if k = ascii "target" then do
    let t ← TclResult.require (env.getInt val) "target argument must be integer"
    .ok { opts with target := t }
  else if k = ascii "type" then do
    let t ← TclResult.require (env.getInt val) "type argument must be integer"
    if t = workTypeLocal then
      .ok { opts with
        workType := workTypeWork
        target := env.commRank
        opts.strictness := .hard }
    else .ok { opts with workType := t }
  else if k = ascii "strictness" then do
    let strictness ← adlbParseStrictness env val
    .ok { opts with opts.strictness := strictness }
  else .error ["rule options: unknown key: " ++ showBytes k]

def ruleOptsLoop (opts : RuleOpts) : List Obj → TclResult RuleOpts
  | key :: val :: objs => do
    let opts ← ruleOptFromKv env opts key val
    ruleOptsLoop opts objs
  | _ => .ok opts

def ruleOptsFromList (opts : RuleOpts) (objs : List Obj) (nameBufferSize : ℕ) (action : Bytes) :
    TclResult RuleOpts := do
  TclResult.condition (objs.length % 2 = 0)
    ("Must have matching key-value args, but found odd number: " ++ toString objs.length)
  let opts ← ruleSetOptsDefault env opts none none
  let opts ← ruleOptsLoop env opts objs
  if opts.name = .null then
    .ok { opts with name := .buffer nameBufferSize (ruleSetNameDefault nameBufferSize action) }
  else .ok opts

/-- The options of `Turbine_Rule_Cmd`, from the words behind the action. -/
def turbineRuleOptions (objs : List Obj) (action : Bytes) : TclResult RuleOpts :=
  let opts : RuleOpts := ⟨.null, 0, 0, env.defaultPutOpts⟩
  if objs ≠ [] then ruleOptsFromList env opts objs turbineNameMax action
  else ruleSetOptsDefault env opts (some action) (some turbineNameMax)

/-- `Turbine_RuleOpts_Cmd` ignores the result; all but the name starts uninitialized. -/
def turbineRuleOptsCmd (opts : RuleOpts) (objs : List Obj) : TclResult RuleOpts :=
  ruleOptsFromList env { opts with name := .null } objs 128 (ascii "dummy action")

/-! ### What one pair sets -/

inductive Setting
  | accuracy (accuracy : TargetAccuracy)
  | name (s : Bytes)
  | parallelism (t : ℤ)
  | target (t : ℤ)
  | type (t : ℤ)
  | strictness (strictness : TargetStrictness)
  deriving Inhabited

namespace Setting

def key : Setting → Bytes
  | accuracy _ => ascii "accuracy"
  | name _ => ascii "name"
  | parallelism _ => ascii "parallelism"
  | target _ => ascii "target"
  | type _ => ascii "type"
  | strictness _ => ascii "strictness"

def Reads (val : Obj) : Setting → Prop
  | accuracy a => adlbParseAccuracy env val = .ok a
  | name s => env.tcl.getString val = s
  | parallelism t | target t | type t => env.getInt val = some t
  | strictness s => adlbParseStrictness env val = .ok s

def apply (opts : RuleOpts) : Setting → RuleOpts
  | accuracy a => { opts with opts.accuracy := a }
  | name s => { opts with name := .text s }
  | parallelism t => { opts with opts.parallelism := t }
  | target t => { opts with target := t }
  | type t =>
    if t = workTypeLocal then
      { opts with
        workType := workTypeWork
        target := env.commRank
        opts.strictness := .hard }
    else { opts with workType := t }
  | strictness s => { opts with opts.strictness := s }

end Setting

/-- The key of the pair names the setting, and the value is read as its value. -/
def Sets (pair : Obj × Obj) (s : Setting) : Prop :=
  text (env.tcl.getString pair.1) = s.key ∧ s.Reads env pair.2

variable {env}

lemma sets_of_ruleOptFromKv {opts opts' : RuleOpts} {pair : Obj × Obj}
    (h : ruleOptFromKv env opts pair.1 pair.2 = .ok opts') :
    ∃ s, Sets env pair s ∧ opts' = s.apply env opts := by
  unfold ruleOptFromKv at h
  simp only at h
  split at h
  · obtain ⟨a, ha, h⟩ := TclResult.bind_eq_ok.mp h
    cases h
    exact ⟨.accuracy a, ⟨‹_›, ha⟩, rfl⟩
  · split at h
    · cases h
      exact ⟨.name _, ⟨‹_›, rfl⟩, rfl⟩
    · split at h
      · obtain ⟨t, ht, h⟩ := TclResult.bind_eq_ok.mp h
        cases h
        exact ⟨.parallelism t, ⟨‹_›, TclResult.require_eq_ok.mp ht⟩, rfl⟩
      · split at h
        · obtain ⟨t, ht, h⟩ := TclResult.bind_eq_ok.mp h
          cases h
          exact ⟨.target t, ⟨‹_›, TclResult.require_eq_ok.mp ht⟩, rfl⟩
        · split at h
          · obtain ⟨t, ht, h⟩ := TclResult.bind_eq_ok.mp h
            refine ⟨.type t, ⟨‹_›, TclResult.require_eq_ok.mp ht⟩, ?_⟩
            simp only [Setting.apply]
            split_ifs at h ⊢ <;> cases h <;> rfl
          · split at h
            · obtain ⟨s, hs, h⟩ := TclResult.bind_eq_ok.mp h
              cases h
              exact ⟨.strictness s, ⟨‹_›, hs⟩, rfl⟩
            · cases h

lemma Sets.ruleOptFromKv_eq {pair : Obj × Obj} {s : Setting} (h : Sets env pair s)
    (opts : RuleOpts) : ruleOptFromKv env opts pair.1 pair.2 = .ok (s.apply env opts) := by
  obtain ⟨hkey, hval⟩ := h
  unfold ruleOptFromKv
  simp only [hkey]
  cases s with
  | accuracy a => rw [Setting.key, if_pos rfl, hval, TclResult.ok_bind]; rfl
  | name s =>
    rw [Setting.key, if_neg (by decide), if_pos rfl, hval]
    rfl
  | parallelism t =>
    rw [Setting.key, if_neg (by decide), if_neg (by decide), if_pos rfl, hval]
    rfl
  | target t =>
    rw [Setting.key, if_neg (by decide), if_neg (by decide), if_neg (by decide), if_pos rfl, hval]
    rfl
  | type t =>
    rw [Setting.key, if_neg (by decide), if_neg (by decide), if_neg (by decide),
      if_neg (by decide), if_pos rfl, hval, TclResult.require_some, TclResult.ok_bind]
    simp only [Setting.apply]
    split_ifs <;> rfl
  | strictness s =>
    rw [Setting.key, if_neg (by decide), if_neg (by decide), if_neg (by decide),
      if_neg (by decide), if_neg (by decide), if_pos rfl, hval]
    rfl

/-- What the loop does with pairs that set something, and that it only succeeds with such pairs. -/
lemma ruleOptsLoop_eq {pairs : List (Obj × Obj)} {settings : List Setting}
    (h : List.Forall₂ (Sets env) pairs settings) (opts : RuleOpts) :
    ruleOptsLoop env opts (pairs.flatMap fun p => [p.1, p.2]) =
      .ok (settings.foldl (Setting.apply env) opts) := by
  induction h generalizing opts with
  | nil => rfl
  | cons hs _ ih =>
    simp only [List.flatMap_cons, List.cons_append, List.nil_append, ruleOptsLoop,
      hs.ruleOptFromKv_eq, TclResult.ok_bind]
    exact ih _

end Turbine.Rule
