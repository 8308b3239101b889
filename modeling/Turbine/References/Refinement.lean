import Turbine.Library.Refinement
import Turbine.References.Arrays

/-! Commands that count references, as commands on arrays: the store shows what is in use. -/

namespace Turbine.References

open Turbine.Library Shares

def Link.cell (l : Link) : Cell := ⟨l.holder, l.subscript, l.target⟩

def State.cells (s : State) : List Cell := s.links.map Link.cell

def InUse (s : State) (id : ℕ) : Prop := ∃ mode, s.counts (id, mode) ≠ 0

/-- The store has the values and the cells of what is in use. -/
structure State.Shows (s : State) (a : Arrays) : Prop where
  next : a.next = s.next
  waiting : a.waiting = s.waiting
  values : ∀ id, InUse s id → a.values id = s.values id
  cells : ∀ id, InUse s id → cellsOf a.cells id = cellsOf s.cells id
  fresh : ∀ id, s.next ≤ id → ¬ InUse s id ∧ a.values id = none ∧ s.values id = none ∧
    cellsOf a.cells id = [] ∧ cellsOf s.cells id = []

/-! ### Cells -/

lemma link_cell (s : State) (id : ℕ) (subscript : Option Text) :
    (s.link id subscript).map Link.target = targetOf s.cells id subscript := by
  rw [State.link, targetOf, cellsOf, State.cells, List.find?_filter, List.find?_map, Option.map_map]
  simp only [Function.comp_def, Link.cell, Bool.decide_and, Bool.decide_eq_true]
  rfl

lemma countMembers_cells (s : State) (id : ℕ) :
    countMembers id s = (.ok (countOf s.cells id), s) := by
  have hcount : (fun l : Link => decide (l.holder = id ∧ l.subscript ≠ none)) =
      (fun c : Cell => decide (c.subscript ≠ none) && decide (c.holder = id)) ∘ Link.cell := by
    funext l
    rw [Bool.decide_and, Bool.and_comm]
    rfl
  rw [countMembers, countOf, cellsOf, State.cells, List.countP_filter, List.countP_map, hcount]

lemma cellsOf_cons_of_ne {cells : List Cell} {id : ℕ} {cell : Cell} (h : cell.holder ≠ id) :
    cellsOf (cell :: cells) id = cellsOf cells id := by
  simp [cellsOf, h]

section Shows

variable {s t : State} {a : Arrays} {id : ℕ} {subscript : Option Text}

lemma State.Shows.lt_next (h : s.Shows a) (huse : InUse s id) : id < s.next := by
  by_contra hle
  exact (h.fresh id (not_lt.mp hle)).1 huse

lemma State.Shows.target (h : s.Shows a) (huse : InUse s id) :
    a.target id subscript = (s.link id subscript).map Link.target := by
  rw [link_cell, Arrays.target, targetOf, targetOf, h.cells id huse]

lemma State.Shows.text (h : s.Shows a) (huse : InUse s id) :
    a.text id = (s.values id <|> (s.link id none).map fun l => Nat.toDigits 10 l.target) := by
  rw [Arrays.text, h.values id huse, h.target huse, Option.map_map]
  rfl

lemma State.Shows.of_counts {counts : Share Token} (h : s.Shows a)
    (huse : ∀ id, InUse { s with counts := counts } id → InUse s id) :
    State.Shows { s with counts := counts } a where
  next := h.next
  waiting := h.waiting
  values id hid := h.values id (huse id hid)
  cells id hid := h.cells id (huse id hid)
  fresh id hid := ⟨fun hin => (h.fresh id hid).1 (huse id hin), (h.fresh id hid).2⟩

lemma State.Shows.sub (h : s.Shows a) (share : Share Token) :
    State.Shows { s with counts := s.counts - share } a := by
  refine h.of_counts fun id ⟨mode, hmode⟩ => ⟨mode, fun hzero => hmode ?_⟩
  change s.counts (id, mode) - share (id, mode) = 0
  rw [hzero, Nat.zero_sub]

lemma State.Shows.add (h : s.Shows a) (huse : InUse s id)
    (hlink : s.link id subscript = none) (target reads writes : ℕ) :
    State.Shows { s with links := ⟨id, subscript, target, reads, writes⟩ :: s.links }
        (a.add ⟨id, subscript, target⟩) ∧
      Stores id subscript target a (a.add ⟨id, subscript, target⟩) := by
  have hnone : a.target id subscript = none := by
    rw [h.target huse, hlink]
    rfl
  refine ⟨⟨h.next, h.waiting, h.values, fun i hi => ?_, fun i hi => ?_⟩, hnone, rfl⟩
  · change cellsOf (⟨id, subscript, target⟩ :: a.cells) i =
      cellsOf (⟨id, subscript, target⟩ :: s.cells) i
    rw [cellsOf, cellsOf, List.filter_cons, List.filter_cons]
    change (if _ then _ :: cellsOf a.cells i else cellsOf a.cells i) =
      if _ then _ :: cellsOf s.cells i else cellsOf s.cells i
    rw [h.cells i hi]
  · obtain ⟨hunused, hvalue, hvalue', hcells, hcells'⟩ := h.fresh i hi
    have hne : id ≠ i := (lt_of_lt_of_le (h.lt_next huse) hi).ne
    exact ⟨hunused, hvalue, hvalue', (cellsOf_cons_of_ne hne).trans hcells,
      (cellsOf_cons_of_ne hne).trans hcells'⟩

lemma State.Shows.set (h : s.Shows a) (huse : InUse s id) (hvalue : s.values id = none)
    (value : Text) :
    State.Shows { s with values := Function.update s.values id (some value) } (a.set id value) ∧
      Sets id value a (a.set id value) := by
  refine ⟨⟨h.next, h.waiting, fun i hi => ?_, h.cells, fun i hi => ?_⟩,
    (h.values id huse).trans hvalue, rfl⟩
  · change Function.update a.values id (some value) i = Function.update s.values id (some value) i
    rw [Function.update_apply, Function.update_apply, h.values i hi]
  · obtain ⟨hunused, hvalue, hvalue', hcells⟩ := h.fresh i hi
    have hne : i ≠ id := (lt_of_lt_of_le (h.lt_next huse) hi).ne'
    exact ⟨hunused, (Function.update_of_ne hne _ _).trans hvalue,
      (Function.update_of_ne hne _ _).trans hvalue', hcells⟩

lemma State.Shows.wait (h : s.Shows a) (w : Waiting) :
    State.Shows { s with waiting := w :: s.waiting } (a.wait w) where
  __ := h
  waiting := by
    change w ::ₘ a.waiting = _
    rw [h.waiting]
    rfl

end Shows

/-! ### What is in use -/

section Use

variable {s t : State} {id i n : ℕ} {mode : Mode} {u : Unit}

lemma acquire_eq_ok (h : acquire id mode n s = (.ok u, t)) :
    t = { s with counts := s.counts + n • one (id, mode) } ∧ (n ≠ 0 → InUse s id) := by
  rw [acquire] at h
  split_ifs at h with hread hwrite
  · cases h
  · cases h
  · cases h
    refine ⟨rfl, fun hn => ?_⟩
    by_contra hunused
    have hzero : ∀ mode, s.counts (id, mode) = 0 := by
      intro mode
      by_contra hne
      exact hunused ⟨mode, hne⟩
    cases mode with
    | read => exact hread ⟨hn, rfl, hzero .read, hzero .write⟩
    | write => exact hwrite ⟨hn, rfl, hzero .write⟩

lemma drop_eq_ok (h : drop id mode n s = (.ok u, t)) :
    t = { s with counts := s.counts - n • one (id, mode) } ∧ (n ≠ 0 → InUse s id) := by
  rw [drop] at h
  split_ifs at h with hcount
  · cases h
  · cases h
    refine ⟨rfl, fun hn => ⟨mode, fun hzero => hcount ?_⟩⟩
    rw [hzero]
    exact Nat.pos_of_ne_zero hn

lemma acquire_inUse (h : acquire id mode n s = (.ok u, t)) (huse : InUse t i) : InUse s i := by
  obtain ⟨rfl, hin⟩ := acquire_eq_ok h
  obtain ⟨m, hm⟩ := huse
  by_cases heq : i = id ∧ n ≠ 0
  · obtain ⟨rfl, hn⟩ := heq
    exact hin hn
  · refine ⟨m, fun hzero => hm ?_⟩
    change s.counts (i, m) + n * one (id, mode) (i, m) = 0
    rw [hzero, zero_add, Nat.mul_eq_zero]
    by_cases hn : n = 0
    · exact .inl hn
    · refine .inr (one_of_ne ?_)
      rintro heq'
      exact heq ⟨(Prod.mk.inj heq').1, hn⟩

lemma acquire_shows {a : Arrays} (hshow : s.Shows a) (h : acquire id mode n s = (.ok u, t)) :
    t.Shows a := by
  have hin : ∀ i, InUse t i → InUse s i := fun i => acquire_inUse h
  obtain ⟨rfl, -⟩ := acquire_eq_ok h
  exact hshow.of_counts hin

lemma drop_shows {a : Arrays} (hshow : s.Shows a) (h : drop id mode n s = (.ok u, t)) :
    t.Shows a := by
  obtain ⟨rfl, -⟩ := drop_eq_ok h
  exact hshow.sub _

end Use

/-! ### Commands -/

section Commands

variable {s : State}

lemma reference_eq_ok {t : State} {r d : ℕ} (h : reference r s = (.ok d, t)) :
    (s.link r none).map Link.target = some d ∧ t = s := by
  rw [reference] at h
  split at h
  · next l hl =>
    cases h
    exact ⟨by rw [hl]; rfl, rfl⟩
  · cases h

lemma retrieve_eq_ok {t : State} {id : ℕ} {v : Text} (h : retrieve id s = (.ok v, t)) :
    (s.values id <|> (s.link id none).map fun l => Nat.toDigits 10 l.target) = some v ∧ t = s := by
  rw [retrieve] at h
  split at h
  · next value hvalue =>
    cases h
    exact ⟨by rw [hvalue]; rfl, rfl⟩
  · next l hvalue hl =>
    cases h
    exact ⟨by rw [hvalue, hl]; rfl, rfl⟩
  · cases h

lemma addLink_eq_ok {t : State} {l : Link} {u : Unit} (h : addLink l s = (.ok u, t)) :
    s.link l.holder l.subscript = none ∧ t = { s with links := l :: s.links } := by
  rw [addLink] at h
  split_ifs at h with hlink
  · cases h
  · cases h
    exact ⟨Option.not_isSome_iff_eq_none.mp hlink, rfl⟩

lemma setValue_eq_ok {t : State} {id : ℕ} {value : Text} {u : Unit}
    (h : setValue id value s = (.ok u, t)) : s.values id = none ∧
      t = { s with values := Function.update s.values id (some value) } := by
  rw [setValue] at h
  split_ifs at h with hvalue
  · cases h
  · cases h
    exact ⟨Option.not_isSome_iff_eq_none.mp hvalue, rfl⟩

lemma checkOpen_eq_ok {t : State} {id : ℕ} {u : Unit} (h : checkOpen id s = (.ok u, t)) :
    InUse s id ∧ t = s := by
  rw [checkOpen] at h
  split_ifs at h with hopen
  · cases h
  · cases h
    exact ⟨⟨.write, hopen⟩, rfl⟩

lemma acquire_refines (id : ℕ) (mode : Mode) (n : ℕ) :
    Cmd.Refines State.Shows (acquire id mode n) fun a _ b => b = a :=
  fun _ a _ _ hshow hrun => ⟨a, rfl, acquire_shows hshow hrun⟩

lemma drop_refines (id : ℕ) (mode : Mode) (n : ℕ) :
    Cmd.Refines State.Shows (drop id mode n) fun a _ b => b = a :=
  fun _ a _ _ hshow hrun => ⟨a, rfl, drop_shows hshow hrun⟩

lemma retrieveDecr_refines (id : ℕ) :
    Cmd.Refines State.Shows (retrieveDecr id) fun a v b => a.text id = some v ∧ b = a := by
  intro s a v t hshow hrun
  obtain ⟨v', s', hread, hrest⟩ := Cmd.bind_eq_ok.mp hrun
  obtain ⟨u, s'', hdrop, hpure⟩ := Cmd.bind_eq_ok.mp hrest
  cases hpure
  obtain ⟨htext, rfl⟩ := retrieve_eq_ok hread
  have huse : InUse s' id := (drop_eq_ok hdrop).2 one_ne_zero
  exact ⟨a, ⟨(hshow.text huse).trans htext, rfl⟩, drop_shows hshow hdrop⟩

lemma storeValue_refines (id : ℕ) (value : Text) :
    Cmd.Refines State.Shows (storeValue id value) fun a _ b => Sets id value a b := by
  intro s a _ t hshow hrun
  obtain ⟨_, s', hset, hdrop⟩ := Cmd.bind_eq_ok.mp hrun
  obtain ⟨hnone, rfl⟩ := setValue_eq_ok hset
  have huse : InUse s id := (drop_eq_ok hdrop).2 one_ne_zero
  obtain ⟨hshow', hsets⟩ := hshow.set huse hnone value
  exact ⟨_, hsets, drop_shows hshow' hdrop⟩

lemma storeRef_refines (id target reads writes : ℕ) :
    Cmd.Refines State.Shows (storeRef id target reads writes)
      fun a _ b => Stores id none target a b := by
  intro s a _ t hshow hrun
  obtain ⟨_, s', hadd, hdrop⟩ := Cmd.bind_eq_ok.mp hrun
  obtain ⟨hnone, rfl⟩ := addLink_eq_ok hadd
  have huse : InUse s id := (drop_eq_ok hdrop).2 one_ne_zero
  obtain ⟨hshow', hstores⟩ := hshow.add huse hnone target reads writes
  exact ⟨_, hstores, drop_shows hshow' hdrop⟩

lemma acquireRef_refines (r : ℕ) : Cmd.Refines State.Shows (acquireRef r 1 1)
    fun a d b => a.target r none = some d ∧ b = a := by
  intro s a d t hshow hrun
  obtain ⟨d', s', hread, hrest⟩ := Cmd.bind_eq_ok.mp hrun
  obtain ⟨htarget, rfl⟩ := reference_eq_ok hread
  obtain ⟨_, s₁, hacquire, hrest₁⟩ := Cmd.bind_eq_ok.mp hrest
  obtain ⟨_, s₂, hdrop, hpure⟩ := Cmd.bind_eq_ok.mp hrest₁
  cases hpure
  have huse : InUse s' r := acquire_inUse hacquire ((drop_eq_ok hdrop).2 one_ne_zero)
  exact ⟨a, ⟨(hshow.target huse).trans htarget, rfl⟩,
    drop_shows (acquire_shows hshow hacquire) hdrop⟩

lemma acquireWriteRef_refines (r : ℕ) : Cmd.Refines State.Shows (acquireWriteRef r 1 1 1)
    fun a d b => a.target r none = some d ∧ b = a := by
  intro s a d t hshow hrun
  obtain ⟨d', s', hread, hrest⟩ := Cmd.bind_eq_ok.mp hrun
  obtain ⟨htarget, rfl⟩ := reference_eq_ok hread
  obtain ⟨_, s₁, hacquire, hrest₁⟩ := Cmd.bind_eq_ok.mp hrest
  obtain ⟨_, s₂, hacquire', hrest₂⟩ := Cmd.bind_eq_ok.mp hrest₁
  obtain ⟨_, s₃, hdrop, hpure⟩ := Cmd.bind_eq_ok.mp hrest₂
  cases hpure
  have huse : InUse s' r :=
    acquire_inUse hacquire (acquire_inUse hacquire' ((drop_eq_ok hdrop).2 one_ne_zero))
  exact ⟨a, ⟨(hshow.target huse).trans htarget, rfl⟩,
    drop_shows (acquire_shows (acquire_shows hshow hacquire) hacquire') hdrop⟩

lemma adlbInsert_refines (id : ℕ) (subscript : Text) (member writeDecr readDecr : ℕ) :
    Cmd.Refines State.Shows (adlbInsert id subscript member writeDecr readDecr)
      fun a _ b => Stores id (some subscript) member a b := by
  intro s a _ t hshow hrun
  obtain ⟨_, s', hopen, hrest⟩ := Cmd.bind_eq_ok.mp hrun
  obtain ⟨huse, rfl⟩ := checkOpen_eq_ok hopen
  obtain ⟨_, s₁, hadd, hrest₁⟩ := Cmd.bind_eq_ok.mp hrest
  obtain ⟨_, s₂, hdrop, hdrop'⟩ := Cmd.bind_eq_ok.mp hrest₁
  obtain ⟨hnone, rfl⟩ := addLink_eq_ok hadd
  obtain ⟨hshow', hstores⟩ := hshow.add huse hnone member 1 0
  exact ⟨_, hstores, drop_shows (drop_shows hshow' hdrop) hdrop'⟩

lemma setReference_refines {container target id : ℕ} {t : State} {u : Unit} {a : Arrays}
    (hshow : s.Shows a) (hrun : setReference container target id s = (.ok u, t)) :
    InUse s container ∧ ∃ b, Stores id none target a b ∧ t.Shows b := by
  obtain ⟨_, s₁, hacquire, hrest⟩ := Cmd.bind_eq_ok.mp hrun
  obtain ⟨_, s₂, hstore, hdrop⟩ := Cmd.bind_eq_ok.mp hrest
  obtain ⟨b, hstores, hshow'⟩ :=
    storeRef_refines id target 1 0 s₁ a _ s₂ (acquire_shows hshow hacquire) hstore
  refine ⟨?_, b, hstores, drop_shows hshow' hdrop⟩
  obtain ⟨_, s', hadd, hdrop'⟩ := Cmd.bind_eq_ok.mp hstore
  obtain ⟨-, rfl⟩ := addLink_eq_ok hadd
  obtain ⟨rfl, -⟩ := drop_eq_ok hdrop'
  obtain ⟨mode, hmode⟩ := (drop_eq_ok hdrop).2 one_ne_zero
  refine acquire_inUse hacquire ⟨mode, fun hzero => hmode ?_⟩
  change s₁.counts (container, mode) - (1 • one (id, .write) : Share Token) (container, mode) = 0
  rw [hzero, Nat.zero_sub]

lemma containerReference_refines (container : ℕ) (subscript : Text) (id : ℕ) :
    Cmd.Refines State.Shows (containerReference container subscript id)
      fun a _ b => Looks container subscript id a b := by
  intro s a _ t hshow hrun
  rw [containerReference] at hrun
  split at hrun
  · next l hl =>
    obtain ⟨huse, b, hstores, hshow'⟩ := setReference_refines hshow hrun
    refine ⟨b, .inl ⟨l.target, ?_, hstores⟩, hshow'⟩
    rw [hshow.target huse, hl]
    rfl
  · cases hrun
    exact ⟨_, .inr rfl, hshow.wait _⟩

lemma create_shows {a : Arrays} (hshow : s.Shows a) (reads writes : ℕ) :
    State.Shows { s with
      next := s.next + 1
      counts := s.counts + reads • readOf s.next + writes • writeOf s.next } a.allocate := by
  have hold : ∀ i, i ≠ s.next →
      InUse { s with
        next := s.next + 1
        counts := s.counts + reads • readOf s.next + writes • writeOf s.next } i → InUse s i := by
    intro i hne ⟨mode, hmode⟩
    refine ⟨mode, fun hzero => hmode ?_⟩
    have hfar : ∀ m : Mode, (i, mode) ≠ (s.next, m) := fun m heq => hne (Prod.mk.inj heq).1
    simp [hzero, hfar]
  obtain ⟨-, hvalue, hvalue', hcells, hcells'⟩ := hshow.fresh s.next le_rfl
  refine ⟨congrArg (· + 1) hshow.next, hshow.waiting, fun i hi => ?_, fun i hi => ?_,
    fun i hi => ?_⟩
  · by_cases hne : i = s.next
    · subst hne
      exact hvalue.trans hvalue'.symm
    · exact hshow.values i (hold i hne hi)
  · by_cases hne : i = s.next
    · subst hne
      exact hcells.trans hcells'.symm
    · exact hshow.cells i (hold i hne hi)
  · have hlt : s.next < i := hi
    obtain ⟨hunused, hrest⟩ := hshow.fresh i hlt.le
    exact ⟨fun huse => hunused (hold i hlt.ne' huse), hrest⟩

lemma create_refines (reads writes : ℕ) : Cmd.Refines State.Shows (create reads writes)
    fun a d b => d = a.next ∧ b = a.allocate := by
  intro s a d t hshow hrun
  cases hrun
  exact ⟨a.allocate, ⟨hshow.next.symm, rfl⟩, create_shows hshow reads writes⟩

lemma acquireMember_refines (l : Link) (callerRead callerWrite : ℕ) :
    Cmd.Refines State.Shows (acquireMember l callerRead callerWrite)
      fun a d b => d = l.target ∧ b = a := by
  intro s a d t hshow hrun
  rw [acquireMember] at hrun
  split_ifs at hrun with hread
  · cases hrun
  · obtain ⟨_, s₁, hacquire, hrun⟩ := Cmd.bind_eq_ok.mp hrun
    obtain ⟨_, s₂, hacquire', hpure⟩ := Cmd.bind_eq_ok.mp hrun
    cases hpure
    exact ⟨a, ⟨rfl, rfl⟩, acquire_shows (acquire_shows hshow hacquire) hacquire'⟩

lemma nestedDatum_refines {id : ℕ} {subscript : Text} {callerRead callerWrite d : ℕ} {t : State}
    {a : Arrays} (hshow : s.Shows a) (huse : InUse s id)
    (hrun : nestedDatum id subscript callerRead callerWrite s = (.ok d, t)) :
    ∃ b, Nests id subscript d a b ∧ t.Shows b := by
  rw [nestedDatum] at hrun
  split at hrun
  · next l hl =>
    obtain ⟨_, ⟨rfl, rfl⟩, hshow'⟩ :=
      acquireMember_refines l callerRead callerWrite s a d t hshow hrun
    refine ⟨_, .inl ⟨?_, rfl⟩, hshow'⟩
    rw [hshow.target huse, hl]
    rfl
  · obtain ⟨d', s₁, hcreate, hrun⟩ := Cmd.bind_eq_ok.mp hrun
    obtain ⟨_, s₂, hadd, hpure⟩ := Cmd.bind_eq_ok.mp hrun
    cases hpure
    cases hcreate
    obtain ⟨hnone, rfl⟩ := addLink_eq_ok hadd
    have hshow' := create_shows hshow (initCount + callerRead) (initCount + callerWrite)
    have huse' : InUse { s with
        next := s.next + 1
        counts := s.counts + (initCount + callerRead) • readOf s.next +
          (initCount + callerWrite) • writeOf s.next } id := by
      obtain ⟨mode, hmode⟩ := huse
      refine ⟨mode, fun hzero => hmode ?_⟩
      change s.counts (id, mode) + _ + _ = 0 at hzero
      exact (Nat.add_eq_zero_iff.mp (Nat.add_eq_zero_iff.mp hzero).1).1
    obtain ⟨hshow'', hstores⟩ := hshow'.add huse' hnone s.next initCount initCount
    exact ⟨_, .inr ⟨hshow.next.symm, hstores⟩, hshow''⟩

lemma createNested_refines (id : ℕ) (subscript : Text)
    (callerRead callerWrite decrWrite decrRead : ℕ) :
    Cmd.Refines State.Shows
      (createNested id subscript callerRead callerWrite decrWrite decrRead)
      fun a d b => Nests id subscript d a b := by
  intro s a d t hshow hrun
  obtain ⟨_, s', hopen, hrest⟩ := Cmd.bind_eq_ok.mp hrun
  obtain ⟨huse, rfl⟩ := checkOpen_eq_ok hopen
  obtain ⟨d', s₁, hnested, hrest₁⟩ := Cmd.bind_eq_ok.mp hrest
  obtain ⟨_, s₂, hdrop, hrest₂⟩ := Cmd.bind_eq_ok.mp hrest₁
  obtain ⟨_, s₃, hdrop', hpure⟩ := Cmd.bind_eq_ok.mp hrest₂
  cases hpure
  obtain ⟨b, hnests, hshow'⟩ := nestedDatum_refines hshow huse hnested
  exact ⟨b, hnests, drop_shows (drop_shows hshow' hdrop) hdrop'⟩

lemma containerSize_refines (id : ℕ) : Cmd.Refines State.Shows (containerSize id 1)
    fun a n b => n = countOf a.cells id ∧ b = a := by
  intro s a n t hshow hrun
  rw [containerSize, Cmd.bind_of_ok (countMembers_cells s id)] at hrun
  obtain ⟨_, s', hdrop, hpure⟩ := Cmd.bind_eq_ok.mp hrun
  cases hpure
  have huse : InUse s id := (drop_eq_ok hdrop).2 one_ne_zero
  refine ⟨a, ⟨?_, rfl⟩, drop_shows hshow hdrop⟩
  rw [countOf, countOf, hshow.cells id huse]

lemma existsSub_refines (id : ℕ) (subscript : Text) :
    Cmd.Refines State.Shows (existsSub id subscript 1)
      fun a present b => present = (a.target id (some subscript)).isSome ∧ b = a := by
  intro s a present t hshow hrun
  obtain ⟨_, s', hmember, hrest⟩ := Cmd.bind_eq_ok.mp hrun
  obtain ⟨_, s'', hdrop, hpure⟩ := Cmd.bind_eq_ok.mp hrest
  cases hmember
  cases hpure
  have huse : InUse s id := (drop_eq_ok hdrop).2 one_ne_zero
  refine ⟨a, ⟨?_, rfl⟩, drop_shows hshow hdrop⟩
  rw [hshow.target huse, Option.isSome_map]

end Commands

end Turbine.References
