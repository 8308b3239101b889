import Turbine.References.Refinement
import Turbine.References.Runs

/-! The builtins with their counted references do what the operations on arrays do, in every run:
what is in use is what was written. -/

namespace Turbine.References

open Turbine.Library Shares

/-! ### Bodies -/

section Bodies

lemma containerInsert_refines (id : ℕ) (subscript : Text) (member readDrops writeDrops : ℕ) :
    Cmd.Refines State.Shows (containerInsert id subscript member readDrops writeDrops)
      fun a _ b => Stores id (some subscript) member a b :=
  adlbInsert_refines id subscript member readDrops writeDrops

/-- The body performs the operation. -/
abbrev Carries (c : Script Unit) (op : Op) : Prop :=
  Cmd.Refines State.Shows c fun a _ b => op.Performs a b

lemma cFInsertBody_carries (c i d decrs : ℕ) :
    Carries (cFInsertBody c i d decrs) (.insert (.datum c) (.future i) (.datum d)) := by
  refine ((retrieveDecr_refines i).read fun s => containerInsert_refines c s d decrs 0).mono ?_
  rintro a _ b ⟨s, hs, hstores⟩
  exact ⟨c, s, d, rfl, hs, rfl, hstores⟩

lemma cFInsertRBody_carries (c i r decrs : ℕ) :
    Carries (cFInsertRBody c i r decrs) (.insert (.datum c) (.future i) (.referred r)) := by
  refine ((retrieveDecr_refines i).read fun t1 =>
    (acquireRef_refines r).read fun d => containerInsert_refines c t1 d decrs 0).mono ?_
  rintro a _ b ⟨s, hs, d, hd, hstores⟩
  exact ⟨c, s, d, rfl, hs, hd, hstores⟩

lemma cVInsertRBody_carries (c : ℕ) (i : Text) (r decrs : ℕ) :
    Carries (cVInsertRBody c i r decrs) (.insert (.datum c) (.text i) (.referred r)) := by
  refine ((acquireRef_refines r).read fun d => containerInsert_refines c i d decrs 0).mono ?_
  rintro a _ b ⟨d, hd, hstores⟩
  exact ⟨c, i, d, rfl, rfl, hd, hstores⟩

lemma structInsertRBody_carries (struct : ℕ) (subscript : Text) (r decrs : ℕ) :
    Carries (structInsertRBody struct subscript r decrs)
      (.insert (.datum struct) (.text subscript) (.referred r)) :=
  cVInsertRBody_carries struct subscript r decrs

lemma crVInsertBody_carries (cr : ℕ) (j : Text) (d : ℕ) :
    Carries (crVInsertBody cr j d) (.insert (.referred cr) (.text j) (.datum d)) := by
  refine ((acquireWriteRef_refines cr).read fun c => containerInsert_refines c j d 1 1).mono ?_
  rintro a _ b ⟨c, hc, hstores⟩
  exact ⟨c, j, d, hc, rfl, rfl, hstores⟩

lemma crFInsertBody_carries (cr j d : ℕ) :
    Carries (crFInsertBody cr j d) (.insert (.referred cr) (.future j) (.datum d)) := by
  refine ((acquireWriteRef_refines cr).read fun c =>
    (retrieveDecr_refines j).read fun s => containerInsert_refines c s d 1 1).mono ?_
  rintro a _ b ⟨c, hc, s, hs, hstores⟩
  exact ⟨c, s, d, hc, hs, rfl, hstores⟩

lemma crVInsertRBody_carries (cr : ℕ) (j : Text) (dr : ℕ) :
    Carries (crVInsertRBody cr j dr) (.insert (.referred cr) (.text j) (.referred dr)) := by
  refine ((acquireWriteRef_refines cr).read fun c =>
    (acquireRef_refines dr).read fun d => containerInsert_refines c j d 1 1).mono ?_
  rintro a _ b ⟨c, hc, d, hd, hstores⟩
  exact ⟨c, j, d, hc, rfl, hd, hstores⟩

lemma crFInsertRBody_carries (cr j dr : ℕ) :
    Carries (crFInsertRBody cr j dr) (.insert (.referred cr) (.future j) (.referred dr)) := by
  refine ((acquireWriteRef_refines cr).read fun c =>
    (acquireRef_refines dr).read fun d =>
      (retrieveDecr_refines j).read fun jval => containerInsert_refines c jval d 1 1).mono ?_
  rintro a _ b ⟨c, hc, d, hd, s, hs, hstores⟩
  exact ⟨c, s, d, hc, hs, hd, hstores⟩

lemma cFLookupBody_carries (c i r : ℕ) :
    Carries (cFLookupBody c i r) (.lookup (.datum c) (.future i) r) := by
  refine ((retrieveDecr_refines i).read fun t1 => containerReference_refines c t1 r).mono ?_
  rintro a _ b ⟨s, hs, hlooks⟩
  exact ⟨c, s, rfl, hs, hlooks⟩

lemma crVLookupBody_carries (cr : ℕ) (i : Text) (d : ℕ) :
    Carries (crVLookupBody cr i d) (.lookup (.referred cr) (.text i) d) := by
  refine ((acquireRef_refines cr).read fun c => containerReference_refines c i d).mono ?_
  rintro a _ b ⟨c, hc, hlooks⟩
  exact ⟨c, i, hc, rfl, hlooks⟩

lemma crFLookupBody_carries (cr i d : ℕ) :
    Carries (crFLookupBody cr i d) (.lookup (.referred cr) (.future i) d) := by
  refine ((acquireRef_refines cr).read fun c =>
    (retrieveDecr_refines i).read fun t1 => containerReference_refines c t1 d).mono ?_
  rintro a _ b ⟨c, hc, s, hs, hlooks⟩
  exact ⟨c, s, hc, hs, hlooks⟩

lemma structrefReferenceBody_carries (structr : ℕ) (subscript : Text) (result : ℕ) :
    Carries (structrefReferenceBody structr subscript result)
      (.lookup (.referred structr) (.text subscript) result) :=
  crVLookupBody_carries structr subscript result

lemma createRef_refines (r c : ℕ) (i : Text)
    (callerRead callerWrite decrWrite decrRead : ℕ) :
    Cmd.Refines State.Shows
      (do let res ← createNested c i callerRead callerWrite decrWrite decrRead; storeRwRef r res)
      fun a _ b => ∃ d m, Nests c i d a m ∧ Stores r none d m b :=
  (createNested_refines c i callerRead callerWrite decrWrite decrRead).bind
    fun res => storeRef_refines r res 1 1

lemma cFCreateBody_carries (r c i decrWrite decrRead : ℕ) :
    Carries (cFCreateBody r c i decrWrite decrRead) (.create r (.datum c) (.future i)) := by
  refine ((retrieveDecr_refines i).read fun s =>
    createRef_refines r c s 1 1 decrWrite decrRead).mono ?_
  rintro a _ b ⟨s, hs, d, m, hnests, hstores⟩
  exact ⟨c, s, d, m, rfl, hs, hnests, hstores⟩

lemma crVCreateBody_carries (r cr : ℕ) (i : Text) :
    Carries (crVCreateBody r cr i) (.create r (.referred cr) (.text i)) := by
  refine ((acquireWriteRef_refines cr).read fun c => createRef_refines r c i 1 1 1 1).mono ?_
  rintro a _ b ⟨c, hc, d, m, hnests, hstores⟩
  exact ⟨c, i, d, m, hc, rfl, hnests, hstores⟩

lemma crFCreateBody_carries (r cr i : ℕ) :
    Carries (crFCreateBody r cr i) (.create r (.referred cr) (.future i)) := by
  refine ((acquireWriteRef_refines cr).read fun c =>
    (retrieveDecr_refines i).read fun s => createRef_refines r c s 1 1 1 1).mono ?_
  rintro a _ b ⟨c, hc, s, hs, d, m, hnests, hstores⟩
  exact ⟨c, s, d, m, hc, hs, hnests, hstores⟩

lemma copyBody_carries (type : Copied) (o i : ℕ) :
    Carries (copyBody type o i) (Call.copy type o i).op := by
  have hvalue : Carries (do let iValue ← retrieveDecr i; storeValue o iValue)
      (.copy o (.datum i)) := by
    refine ((retrieveDecr_refines i).read fun v => storeValue_refines o v).mono ?_
    rintro a _ b ⟨value, htext, hsets⟩
    exact ⟨i, value, rfl, htext, hsets⟩
  cases type with
  | void =>
    refine ((storeValue_refines o _).bind fun _ => drop_refines i .read 1).mono ?_
    rintro a _ b ⟨_, m, hsets, rfl⟩
    exact hsets
  | _ => exact hvalue

lemma dereferenceBody_refines (type : Copied) (v r : ℕ) :
    Cmd.Refines State.Shows (dereferenceBody type v r) fun a made b =>
      (Call.dereference type v r).op.Follows a made.op ∧ b = a := by
  refine ((acquireRef_refines r).read fun id => Cmd.refines_pure (Call.copy type v id)).mono ?_
  rintro a made b ⟨d, htarget, rfl, rfl⟩
  refine ⟨?_, rfl⟩
  cases type with
  | void => exact .signal htarget
  | _ => exact .copy htarget

lemma containerSizeBody_carries (result container : ℕ) :
    Carries (containerSizeBody result container) (.size result container) := by
  refine ((containerSize_refines container).read fun sz =>
    storeValue_refines result (Nat.toDigits 10 sz)).mono ?_
  rintro a _ b ⟨n, rfl, hsets⟩
  exact hsets

lemma existsBody_carries (result c i : ℕ) :
    Carries (existsBody result c i) (.member result c (.future i)) := by
  refine ((retrieveDecr_refines i).read fun iVal =>
    (existsSub_refines c iVal).read fun _ => storeValue_refines result _).mono ?_
  rintro a _ b ⟨iVal, htext, _, rfl, hsets⟩
  exact ⟨iVal, htext, hsets⟩

lemma quiet_refines {c : Script Unit} {op : Op} (hc : Carries c op) :
    Cmd.Refines State.Shows (do c; return (0 : Multiset Call)) fun a new b =>
      new = 0 ∧ op.Performs a b ∨ ∃ made : Call, new = {made} ∧ op.Follows a made.op ∧ b = a := by
  refine (hc.bind fun _ => Cmd.refines_pure (0 : Multiset Call)).mono ?_
  rintro a new b ⟨_, m, hperforms, rfl, rfl⟩
  exact .inl ⟨rfl, hperforms⟩

/-- A body performs the operation of its call, or makes the rule that is to perform it. -/
lemma Call.body_refines (call : Call) :
    Cmd.Refines State.Shows call.body fun a new b =>
      new = 0 ∧ call.op.Performs a b ∨
        ∃ made : Call, new = {made} ∧ call.op.Follows a made.op ∧ b = a := by
  cases call with
  | cFInsert c i d decrs incr => exact quiet_refines (cFInsertBody_carries c i d decrs)
  | cFInsertR c i r decrs incr => exact quiet_refines (cFInsertRBody_carries c i r decrs)
  | cVInsertR c i r decrs incr => exact quiet_refines (cVInsertRBody_carries c i r decrs)
  | cFLookup c i r => exact quiet_refines (cFLookupBody_carries c i r)
  | dereference type v r =>
    refine ((dereferenceBody_refines type v r).read fun made =>
      Cmd.refines_pure ({made} : Multiset Call)).mono ?_
    rintro a new b ⟨made, hfollows, rfl, rfl⟩
    exact .inr ⟨made, rfl, hfollows, rfl⟩
  | copy type o i => exact quiet_refines (copyBody_carries type o i)
  | crVLookup cr i d => exact quiet_refines (crVLookupBody_carries cr i d)
  | crFLookup cr i d => exact quiet_refines (crFLookupBody_carries cr i d)
  | crFInsert cr j d => exact quiet_refines (crFInsertBody_carries cr j d)
  | crVInsert cr j d => exact quiet_refines (crVInsertBody_carries cr j d)
  | crVInsertR cr j dr => exact quiet_refines (crVInsertRBody_carries cr j dr)
  | crFInsertR cr j dr => exact quiet_refines (crFInsertRBody_carries cr j dr)
  | cFCreate r c i decrWrite decrRead =>
    exact quiet_refines (cFCreateBody_carries r c i decrWrite decrRead)
  | crVCreate r cr i => exact quiet_refines (crVCreateBody_carries r cr i)
  | crFCreate r cr i => exact quiet_refines (crFCreateBody_carries r cr i)
  | containerSize result container =>
    exact quiet_refines (containerSizeBody_carries result container)
  | existsMember result c i => exact quiet_refines (existsBody_carries result c i)
  | contains result c i => exact quiet_refines (existsBody_carries result c i)
  | structrefReference structr subscript result =>
    exact quiet_refines (structrefReferenceBody_carries structr subscript result)
  | structInsertR struct subscript r decrs incr =>
    exact quiet_refines (structInsertRBody_carries struct subscript r decrs)

lemma Call.front_refines (call : Call) :
    Cmd.Refines State.Shows call.front fun a _ b => b = a := by
  have htake : ∀ (c : ℕ) (incr : Bool), Cmd.Refines State.Shows
      (if incr then acquire c .write 1 else pure ()) fun a _ b => b = a := by
    intro c incr
    cases incr with
    | true => exact acquire_refines c .write 1
    | false => exact (Cmd.refines_pure ()).mono fun _ _ _ h => h.2
  cases call with
  | cFInsert c i d decrs incr => exact htake c incr
  | cFInsertR c i r decrs incr => exact htake c incr
  | cVInsertR c i r decrs incr => exact htake c incr
  | structInsertR c i r decrs incr => exact htake c incr
  | _ => exact (Cmd.refines_pure ()).mono fun _ _ _ h => h.2

end Bodies

/-! ### Systems -/

section Systems

/-- The store shows the arrays, and the rules are those of the operations. -/
structure System.Shows (sys : System) (p : Program) : Prop where
  store : sys.store.Shows p.arrays
  ops : p.ops = sys.rules.map Call.op

lemma shows_start : System.start.Shows .start where
  store := ⟨rfl, rfl, fun _ _ => rfl, fun _ _ => rfl,
    fun _ _ => ⟨fun ⟨_, hmode⟩ => hmode rfl, rfl, rfl, rfl, rfl⟩⟩
  ops := rfl

lemma Act.run_refines (act : Act) :
    Cmd.Refines State.Shows act.run fun a _ b => ∀ ops, Program.Reach ⟨a, ops⟩ ⟨b, ops⟩ := by
  have hunit : ∀ {c : Script Unit} {got : Share Token} {P : Arrays → Arrays → Prop},
      Cmd.Refines State.Shows c (fun a _ b => P a b) →
      (∀ a b ops, P a b → Program.Reach ⟨a, ops⟩ ⟨b, ops⟩) →
      Cmd.Refines State.Shows (do c; return got)
        fun a _ b => ∀ ops, Program.Reach ⟨a, ops⟩ ⟨b, ops⟩ := by
    intro c got P hc hp
    refine (hc.bind fun _ => Cmd.refines_pure got).mono ?_
    rintro a _ b ⟨_, m, hm, -, rfl⟩ ops
    exact hp a b ops hm
  cases act with
  | create reads writes =>
    refine ((create_refines reads writes).bind fun _ => Cmd.refines_pure _).mono ?_
    rintro a _ b ⟨d, m, ⟨-, rfl⟩, -, rfl⟩ ops
    exact .single .allocate
  | refcountIncr id mode n =>
    refine hunit (acquire_refines id mode n) ?_
    rintro a b ops rfl
    exact .refl
  | refcountDecr id mode n =>
    refine hunit (drop_refines id mode n) ?_
    rintro a b ops rfl
    exact .refl
  | storeValue id value =>
    exact hunit (storeValue_refines id value) fun a b ops h => .single (.set h)
  | storeRef id target reads writes =>
    exact hunit (storeRef_refines id target reads writes) fun a b ops h => .single (.add h)
  | containerImmediateInsert c i d drops =>
    exact hunit (containerInsert_refines c i d drops 0) fun a b ops h => .single (.add h)
  | cVCreate c i callerReadRef callerWriteRef decrWrite decrRead =>
    refine ((createNested_refines c i callerReadRef callerWriteRef decrWrite decrRead).bind
      fun _ => Cmd.refines_pure _).mono ?_
    rintro a _ b ⟨d, m, hnests, -, rfl⟩ ops
    exact .single (.nest hnests)
  | containerReference c i r =>
    exact hunit (containerReference_refines c i r) fun a b ops h => .single (.look h)

variable {s : State} {a : Arrays}

lemma State.Shows.close (h : s.Shows a) (id : ℕ) : (s.close id).Shows a := by
  have hcells : (s.close id).cells = s.cells := by
    rw [State.cells, State.cells, State.close, List.map_map]
    refine List.map_congr_left fun l _ => ?_
    by_cases hmember : l.MemberOf id
    · rw [Function.comp_apply, Link.release, if_pos hmember]
      rfl
    · rw [Function.comp_apply, Link.release, if_neg hmember]
  have hsub := h.sub (total (Link.released id) (s.links : Multiset Link))
  refine ⟨h.next, h.waiting, hsub.values, fun i hi => ?_, fun i hi => ?_⟩
  · rw [hcells]
    exact hsub.cells i hi
  · rw [hcells]
    exact hsub.fresh i hi

lemma State.Shows.collect (h : s.Shows a) {id : ℕ} (hunused : ¬ InUse s id) :
    (s.collect id).Shows a := by
  have hcells : (s.collect id).cells = s.cells.filter fun c => c.holder ≠ id := by
    rw [State.cells, State.cells, State.collect, List.filter_map]
    rfl
  have hother : ∀ i, cellsOf (s.collect id).cells i =
      (cellsOf s.cells i).filter fun c => c.holder ≠ id := by
    intro i
    rw [hcells, cellsOf, cellsOf, List.filter_filter, List.filter_filter]
    simp only [Bool.and_comm]
  have hsub := h.sub
    (total Link.owns ((s.links.filter fun l => l.holder = id : List Link) : Multiset Link))
  have hne : ∀ i, InUse (s.collect id) i → i ≠ id := by
    rintro i hi rfl
    obtain ⟨mode, hmode⟩ := hi
    refine hunused ⟨mode, fun hzero => hmode ?_⟩
    change s.counts (i, mode) - _ = 0
    rw [hzero, Nat.zero_sub]
  refine ⟨h.next, h.waiting, fun i hi => ?_, fun i hi => ?_, fun i hi => ?_⟩
  · exact (hsub.values i hi).trans (Function.update_of_ne (hne i hi) _ _).symm
  · rw [hother, List.filter_eq_self.mpr]
    · exact hsub.cells i hi
    · intro c hc
      have hholder : c.holder = i := of_decide_eq_true (List.mem_filter.mp hc).2
      rw [hholder]
      exact decide_eq_true (hne i hi)
  · obtain ⟨hunused', hvalue, hvalue', hcells, hcells'⟩ := hsub.fresh i hi
    refine ⟨hunused', hvalue, ?_, hcells, ?_⟩
    · change Function.update s.values id none i = none
      rw [Function.update_apply]
      split_ifs
      · rfl
      · exact hvalue'
    · rw [hother, show cellsOf s.cells i = [] from hcells']
      rfl

lemma serve_refines {t : State} {w : Waiting} {l : Link} (h : s.Shows a) (hw : w ∈ s.waiting)
    (hl : s.link w.container (some w.subscript) = some l) (hrun : s.serve w l = (.ok (), t))
    (ops : Multiset Op) : ∃ b, Program.Step ⟨a, ops⟩ ⟨b, ops⟩ ∧ t.Shows b := by
  have hperm : (s.waiting : Multiset Waiting) =
      w ::ₘ ((s.waiting.erase w : List Waiting) : Multiset Waiting) :=
    Multiset.coe_eq_coe.mpr (List.perm_cons_erase hw)
  have hshow : State.Shows { s with waiting := s.waiting.erase w }
      { a with waiting := ((s.waiting.erase w : List Waiting) : Multiset Waiting) } :=
    { h with waiting := rfl }
  obtain ⟨huse, b, hstores, hshow'⟩ := setReference_refines hshow hrun
  refine ⟨b, .found (h.waiting.trans hperm) ⟨l.target, ?_, hstores⟩, hshow'⟩
  rw [hshow.target huse]
  exact congrArg (Option.map Link.target) hl

variable {writable : ℕ → Prop} {sys sys' : System} {p : Program}

/-- A rule that fires performs its operation, or is followed by the one that does. -/
lemma fire_refines {call : Call} {rest new : Multiset Call} {t : State} {kept : Share Token}
    (h : sys.Shows p) (hrules : sys.rules = call ::ₘ rest)
    (hrun : call.body sys.store = (.ok new, t)) :
    ∃ p', Program.Step p p' ∧ System.Shows ⟨t, kept, new + rest⟩ p' := by
  have hops : p.ops = call.op ::ₘ rest.map Call.op := by
    rw [h.ops, hrules, Multiset.map_cons]
  obtain ⟨b, ⟨rfl, hperforms⟩ | ⟨made, rfl, hfollows, rfl⟩, hshow⟩ :=
    call.body_refines _ _ _ _ h.store hrun
  · exact ⟨⟨b, rest.map Call.op⟩, .perform hops hperforms, hshow, by rw [zero_add]⟩
  · refine ⟨_, .follow hops hfollows, hshow, ?_⟩
    rw [Multiset.singleton_add, Multiset.map_cons]

lemma step_simulates (h : sys.Shows p) (hstep : Step writable sys sys') :
    ∃ p', Program.Reach p p' ∧ sys'.Shows p' := by
  cases hstep with
  | @act act rest got t _ _ hrun =>
    obtain ⟨b, hreach, hshow⟩ := act.run_refines _ _ _ _ h.store hrun
    exact ⟨⟨b, p.ops⟩, hreach p.ops, hshow, h.ops⟩
  | @call call rest t _ _ hrun =>
    obtain ⟨b, rfl, hshow⟩ := call.front_refines _ _ _ _ h.store hrun
    refine ⟨{ p with ops := call.op ::ₘ p.ops }, .single (.call call.op), hshow, ?_⟩
    rw [Multiset.map_cons, h.ops]
  | fire hrules _ hrun =>
    obtain ⟨p', hstep, hshow⟩ := fire_refines h hrules hrun
    exact ⟨p', .single hstep, hshow⟩
  | serve hw hl hrun =>
    obtain ⟨b, hstep, hshow⟩ := serve_refines h.store hw hl hrun p.ops
    exact ⟨⟨b, p.ops⟩, .single hstep, hshow, h.ops⟩
  | close id _ => exact ⟨p, .refl, h.store.close id, h.ops⟩
  | collect id hunused =>
    exact ⟨p, .refl, h.store.collect fun ⟨mode, hmode⟩ => hmode (hunused mode), h.ops⟩

lemma reach_simulates (h : sys.Shows p) (hreach : Reach writable sys sys') :
    ∃ p', Program.Reach p p' ∧ sys'.Shows p' := by
  have hstep : ∀ s s' q, System.Shows s q → Step writable s s' →
      ∃ q', Relation.ReflTransGen Program.Step q q' ∧ System.Shows s' q' :=
    fun s s' q hshow hstep => step_simulates hshow hstep
  exact run_simulates hstep h hreach

lemma inUse_of_kept {s : State} {kept : Share Token} {rules : Multiset Call} {id : ℕ}
    (h : Reach writable .start ⟨s, kept, rules⟩) (hkept : kept (id, .read) ≠ 0) : InUse s id :=
  ⟨.read, fun hzero => hkept ((h.sound.counts_eq_zero_iff (id, .read)).mp hzero).1⟩

end Systems

end Turbine.References
