import Turbine.Tcl.Commands
import Turbine.Handle.Append
import Turbine.Rule.Names

/-! The inputs of a rule: plain ids and subscripted handles, and who frees the buffers that the
subscripts were parsed into. -/

namespace Turbine.Rule

open Tcl Library Handle Library.CStrings

def tclTurbineMaxInputs : ℕ := 128

structure DatumIdSub where
  id : Int64
  key : Option Place
  length : ℕ

/-- The arguments of `ADLB_Dput`, with the bytes that the pointers refer to. -/
structure DputCall where
  action : Bytes
  target : ℤ
  answer : ℤ
  workType : ℤ
  opts : AdlbPutOpts
  name : RuleName
  ids : List Int64
  idSubs : List (Int64 × Bytes)

/-- `free`: only a block that is still allocated can be freed. -/
def free (key : Option Place) : TclCmd Memory Unit :=
  .ofStep fun m => match key with
    | some (.block n) =>
      if (m.blocks[n]?.join).isSome then .ok ({ m with blocks := m.blocks.set n none }, ())
      else .undefined
    | _ => .undefined

/-- `malloc` and `memcpy` of a subscript. -/
def copySubscript (sub : AdlbSubscript) : TclCmd Memory (Option Place) :=
  .ofStep fun m => match m.bytes sub with
    | some b => .ok ({ m with blocks := m.blocks ++ [some b] }, some (.block m.blocks.length))
    | none => .undefined

def readSubs (subs : List DatumIdSub) : TclCmd Memory (List (Int64 × Bytes)) :=
  .ofStep fun m => match subs.mapM fun s => (m.bytes ⟨s.key, s.length⟩).map fun b => (s.id, b) with
    | some idSubs => .ok (m, idSubs)
    | none => .undefined

/-- The string that a name points to. -/
def RuleName.string : RuleName → Bytes
  | .null => []
  | .text s => s
  | .buffer size stores => CStrings.text ((List.range size).map (written (fun _ => 0) stores))

section Code

variable {Obj D : Type} (lib : HandleLib) (env : RuleEnv Obj D)

def extractIds : List Obj → List Int64 → List DatumIdSub →
    TclCmd Memory (List Int64 × List DatumIdSub)
  | [], ids, subs => pure (ids, subs)
  | obj :: objs, ids, subs => do
    let handle ← TclCmd.addInfo (.ofStep fun m => adlbParseHandle lib env.tcl m obj false)
      ("Error parsing handle " ++ showBytes (env.tcl.getString obj))
    if handle.sub.val.key = none then extractIds objs (ids ++ [handle.id]) subs
    else do
      -- the memory of the key was allocated and is owned by us, or it is copied
      let key ← if handle.sub.buf.data = handle.sub.val.key then pure handle.sub.buf.data
        else copySubscript handle.sub.val
      extractIds objs ids (subs ++ [⟨handle.id, key, handle.sub.val.length⟩])

def turbineExtractIds (list : Obj) (max : ℕ) : TclCmd Memory (List Int64 × List DatumIdSub) := do
  let entry ← match env.tcl.getList list with
    | some entry => pure entry
    | none => Cmd.throw (.abort "code == TCL_OK")
  TclCmd.condition (entry.length < max) ("Rule IDs exceed supported max: " ++
    toString entry.length ++ " > " ++ toString max)
  extractIds lib env entry [] []

def freeSubs : List DatumIdSub → TclCmd Memory Unit
  | [] => pure ()
  | sub :: subs => do
    free sub.key
    freeSubs subs

/-- The words behind the name of the command; `dput` says whether `ADLB_Dput` takes the rule. -/
def turbineRuleCmd (priority : ℤ) (dput : DputCall → Bool) (objv : List Obj) :
    TclCmd Memory Unit :=
  match objv with
  | inputs :: action :: objs => do
    let opts ← TclCmd.ofResult (turbineRuleOptions env objs (env.tcl.getString action))
    let (ids, subs) ← TclCmd.addInfo (turbineExtractIds lib env inputs tclTurbineMaxInputs)
      ("could not parse inputs list as ids or id/subscript pairs:\n in rule: " ++
        showBytes opts.name.string ++ " inputs: \"" ++ showBytes (env.tcl.getString inputs) ++ "\"")
    let idSubs ← readSubs subs
    TclCmd.condition (dput {
        action := env.tcl.getString action ++ [0]
        target := opts.target
        answer := env.commRank
        workType := opts.workType
        opts := { opts.opts with priority := priority }
        name := opts.name
        ids := ids
        idSubs := idSubs }) "could not process rule!"
    freeSubs subs
  | _ => TclCmd.ofResult (.error ["turbine::c::rule requires at least 3 args!"])

end Code

/-! ### What is allocated -/

/-- `ADLB_Resize_buf` gives an empty buffer a new block with room for as many bytes as asked for. -/
structure Allocates (lib : HandleLib) : Prop where
  alloc : ∀ m n, 0 < n → ∃ b : Bytes, n ≤ b.length ∧
    lib.resizeBuf m ⟨none, 0⟩ false n = some ({ m with blocks := m.blocks ++ [some b] },
      ⟨some (.block m.blocks.length), b.length⟩, false)

/-- From block `n` on, each subscript has its own block, with these bytes. -/
inductive Owned : ℕ → List DatumIdSub → List (Option Bytes) → List (Int64 × Bytes) → Prop
  | nil {n} : Owned n [] [] []
  | cons {n id b c subs blocks idSubs} (hb : b ++ [0] <+: c) (h : Owned (n + 1) subs blocks idSubs) :
      Owned n (⟨id, some (.block n), b.length + 1⟩ :: subs) (some c :: blocks)
        ((id, b ++ [0]) :: idSubs)

section Spec

variable {Obj D : Type} (lib : HandleLib) (tcl : TclApi Obj D)

def parses (o : Obj) : Bool := (adlbExtractHandle lib tcl o).okValue.isSome

def plainIds (entry : List Obj) : List Int64 :=
  entry.filterMap fun o => match adlbExtractHandle lib tcl o with
    | .ok (id, none) => some id
    | _ => none

def idSubsOf (entry : List Obj) : List (Int64 × Bytes) :=
  entry.filterMap fun o => match adlbExtractHandle lib tcl o with
    | .ok (id, some str) => some (id, str ++ [0])
    | _ => none

variable {lib tcl} {m : Memory} {o : Obj} {id : Int64} {str : Bytes}

lemma extract_cases (lib : HandleLib) (tcl : TclApi Obj D) (o : Obj) :
    (∃ id, adlbExtractHandle lib tcl o = .ok (id, none)) ∨
      (∃ id str, adlbExtractHandle lib tcl o = .ok (id, some str)) ∨
      ∃ info, adlbExtractHandle lib tcl o = .error info := by
  unfold adlbExtractHandle
  split
  · exact Or.inl ⟨_, rfl⟩
  · simp only
    cases (tcl.getString o).idxOf? dot with
    | none => exact Or.inr (Or.inr ⟨_, rfl⟩)
    | some n =>
      simp only [TclResult.require_some, TclResult.ok_bind]
      cases lib.int64Parse ((tcl.getString o).take n) with
      | none => exact Or.inr (Or.inr ⟨_, rfl⟩)
      | some id => exact Or.inr (Or.inl ⟨_, _, rfl⟩)

lemma parse_plain (h : adlbExtractHandle lib tcl o = .ok (id, none)) :
    adlbParseHandle lib tcl m o false = .ok (m, ⟨id, ⟨adlbNoSub, ⟨none, 0⟩⟩⟩) := by
  simp [adlbParseHandle, h]

lemma write_block {m : Memory} {blocks : List (Option Bytes)} {c : Bytes}
    (hblocks : m.blocks = blocks ++ [some c]) (requested len pos : ℕ) (new : Bytes)
    (hle : pos + new.length ≤ c.length) :
    ∃ m', m.write requested ⟨some (.block blocks.length), len⟩ pos new = .ok m' ∧
      m'.blocks = blocks ++ [some (splice c pos new)] := by
  have hread : m.read (.block blocks.length) = some c := by
    simp [Memory.read, hblocks]
  simp only [Memory.write, hread, if_pos hle]
  exact ⟨_, rfl, by simp [Memory.store, hblocks]⟩

lemma parse_sub (hlib : Allocates lib) (h : adlbExtractHandle lib tcl o = .ok (id, some str)) :
    ∃ m' c n, adlbParseHandle lib tcl m o false = .ok (m', ⟨id,
        ⟨⟨some (.block m.blocks.length), str.length + 1⟩, ⟨some (.block m.blocks.length), n⟩⟩⟩) ∧
      m'.blocks = m.blocks ++ [some c] ∧ str ++ [0] <+: c := by
  obtain ⟨b, hb, halloc⟩ := hlib.alloc m (str.length + 1) (Nat.succ_pos _)
  obtain ⟨m₁, hm₁, hblocks₁⟩ := write_block (m := { m with blocks := m.blocks ++ [some b] }) rfl
    (str.length + 1) b.length 0 str (by omega)
  obtain ⟨m₂, hm₂, hblocks₂⟩ := write_block hblocks₁ (str.length + 1) b.length str.length [0]
    (by rw [length_splice (by omega)]; simpa using hb)
  refine ⟨m₂, _, b.length, ?_, hblocks₂, ?_⟩
  · simp only [adlbParseHandle, h, TclResult.ok_bind, adlbParseStructSubscript, initialBuf,
      Bool.false_eq_true, false_and, if_false, halloc, TclResult.require_some, hm₁, hm₂,
      TclResult.pure_eq]
  · rw [splice_splice_zero, splice_zero]
    exact List.prefix_append _ _

lemma Owned.read {subs : List DatumIdSub} {pre blocks : List (Option Bytes)}
    {idSubs : List (Int64 × Bytes)} (h : Owned pre.length subs blocks idSubs)
    (hm : m.blocks = pre ++ blocks) : readSubs subs m = (.ok idSubs, m) := by
  have hread : ∀ (pre : List (Option Bytes)) n, pre.length = n → Owned n subs blocks idSubs →
      m.blocks = pre ++ blocks →
      (subs.mapM fun s => (m.bytes ⟨s.key, s.length⟩).map fun b => (s.id, b)) = some idSubs := by
    clear h hm pre
    intro pre n hn h
    induction h generalizing pre with
    | nil => exact fun _ => rfl
    | @cons n id b c subs blocks idSubs hb _ ih =>
      intro hm
      have hbytes : m.bytes ⟨some (.block n), b.length + 1⟩ = some (b ++ [0]) := by
        obtain ⟨rest, rfl⟩ := hb
        simp [Memory.bytes, Memory.read, hm, ← hn, List.take_append]
      have hrest := ih (pre ++ [some c]) (by simp [hn]) (by simpa using hm)
      rw [List.mapM_cons, hbytes, hrest]
      rfl
  exact TclCmd.ofStep_of_ok (by rw [hread pre _ rfl h hm])

/-- Freeing the subscripts frees their blocks and no others. -/
lemma Owned.freed {n : ℕ} {subs : List DatumIdSub} {blocks : List (Option Bytes)}
    {idSubs : List (Int64 × Bytes)} (h : Owned n subs blocks idSubs) {pre : List (Option Bytes)}
    (hn : pre.length = n) {m : Memory} (hm : m.blocks = pre ++ blocks) :
    ∃ m', freeSubs subs m = (.ok (), m') ∧
      m'.blocks = pre ++ List.replicate blocks.length none := by
  induction h generalizing pre m with
  | nil => exact ⟨m, rfl, by simpa using hm⟩
  | @cons n id b c subs blocks idSubs _ _ ih =>
    have hset : m.blocks.set n none = (pre ++ [none]) ++ blocks := by
      rw [hm, ← hn, List.set_append_right _ _ le_rfl]
      simp
    have hfree : free (some (.block n)) m = (.ok (), { m with blocks := m.blocks.set n none }) := by
      refine TclCmd.ofStep_of_ok ?_
      simp [hm, ← hn]
    obtain ⟨m', hm', hblocks⟩ := @ih (pre ++ [none]) (by simp [hn])
      { m with blocks := m.blocks.set n none } hset
    refine ⟨m', ?_, ?_⟩
    · rw [freeSubs, Cmd.bind_of_ok hfree]
      exact hm'
    · simpa [List.replicate_succ] using hblocks

end Spec

section Loop

variable {Obj D : Type} {lib : HandleLib} {env : RuleEnv Obj D}

/-- The loop keeps what it has collected, and what it allocates belongs to the subscripts of the
handles before the first that does not parse. -/
lemma extractIds_spec (hlib : Allocates lib) (entry : List Obj) (ids : List Int64)
    (subs : List DatumIdSub) (m : Memory) :
    ∃ subs' blocks m', m'.blocks = m.blocks ++ blocks ∧
      Owned m.blocks.length subs' blocks
        (idSubsOf lib env.tcl (entry.takeWhile (parses lib env.tcl))) ∧
      if entry.all (parses lib env.tcl) then
        extractIds lib env entry ids subs m =
          (.ok (ids ++ plainIds lib env.tcl entry, subs ++ subs'), m')
      else ∃ info, extractIds lib env entry ids subs m = (.error (.error info), m') := by
  induction entry generalizing ids subs m with
  | nil => exact ⟨[], [], m, by simp, .nil, by simp [extractIds, plainIds]⟩
  | cons o entry ih =>
    rcases extract_cases lib env.tcl o with ⟨id, ho⟩ | ⟨id, str, ho⟩ | ⟨info, ho⟩
    · have hp : parses lib env.tcl o = true := by simp [parses, ho]
      obtain ⟨subs', blocks, m', hblocks, howned, hresult⟩ := ih (ids ++ [id]) subs m
      refine ⟨subs', blocks, m', hblocks, ?_, ?_⟩
      · simpa [hp, idSubsOf, ho] using howned
      · have hstep : extractIds lib env (o :: entry) ids subs m =
            extractIds lib env entry (ids ++ [id]) subs m := by
          rw [extractIds, Cmd.bind_of_ok (TclCmd.addInfo_of_ok _
            (TclCmd.ofStep_of_ok (parse_plain ho)))]
          rfl
        have hids : plainIds lib env.tcl (o :: entry) = id :: plainIds lib env.tcl entry := by
          simp [plainIds, ho]
        rw [hstep, hids]
        simpa [hp] using hresult
    · have hp : parses lib env.tcl o = true := by simp [parses, ho]
      obtain ⟨m₁, c, n, hparse, hm₁, hc⟩ := parse_sub (m := m) hlib ho
      obtain ⟨subs', blocks, m', hblocks, howned, hresult⟩ :=
        ih ids (subs ++ [⟨id, some (.block m.blocks.length), str.length + 1⟩]) m₁
      refine ⟨⟨id, some (.block m.blocks.length), str.length + 1⟩ :: subs', some c :: blocks, m',
        by simp [hblocks, hm₁], ?_, ?_⟩
      · have htail : idSubsOf lib env.tcl ((o :: entry).takeWhile (parses lib env.tcl)) =
            (id, str ++ [0]) ::
              idSubsOf lib env.tcl (entry.takeWhile (parses lib env.tcl)) := by
          simp [hp, idSubsOf, ho]
        rw [htail]
        refine .cons hc ?_
        rw [hm₁, List.length_append] at howned
        exact howned
      · have hstep : extractIds lib env (o :: entry) ids subs m =
            extractIds lib env entry ids
              (subs ++ [⟨id, some (.block m.blocks.length), str.length + 1⟩]) m₁ := by
          rw [extractIds, Cmd.bind_of_ok (TclCmd.addInfo_of_ok _ (TclCmd.ofStep_of_ok hparse))]
          simp only [reduceCtorEq, if_false, if_true]
          rfl
        have hids : plainIds lib env.tcl (o :: entry) = plainIds lib env.tcl entry := by
          simp [plainIds, ho]
        rw [hstep, hids]
        simpa [hp] using hresult
    · have hp : parses lib env.tcl o = false := by simp [parses, ho]
      refine ⟨[], [], m, by simp, ?_, ?_⟩
      · simpa [hp, idSubsOf] using Owned.nil
      · have hparse : adlbParseHandle lib env.tcl m o false = .error info := by
          simp [adlbParseHandle, ho]
        simp only [List.all_cons, hp, Bool.false_and, Bool.false_eq_true, if_false]
        exact ⟨_, by
          rw [extractIds, Cmd.bind_of_error (TclCmd.addInfo_of_error _
            (TclCmd.ofStep_of_error hparse))]⟩

end Loop

end Turbine.Rule
