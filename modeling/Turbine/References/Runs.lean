import Turbine.References.Bodies

/-! Runs of a program that shares containers: rules are made and fired in any order, in between the
program uses the references that it has kept, and the server serves lookups, closes containers and
deletes what is in use no longer. -/

namespace Turbine.References

open Turbine.Library Shares

/-! ### What the program does outside of rules -/

inductive Act
  | create (reads writes : ℕ)
  | refcountIncr (id : ℕ) (mode : Mode) (n : ℕ)
  | refcountDecr (id : ℕ) (mode : Mode) (n : ℕ)
  | storeValue (id : ℕ) (value : Text)
  | storeRef (id target reads writes : ℕ)
  | containerImmediateInsert (c : ℕ) (i : Text) (d drops : ℕ)
  | cVCreate (c : ℕ) (i : Text) (callerReadRef callerWriteRef decrWrite decrRead : ℕ)
  | containerReference (c : ℕ) (i : Text) (r : ℕ)

namespace Act

/-- The references that the program is to have, and that it does not have afterwards. -/
def gives : Act → Share Token
  | create _ _ => 0
  | refcountIncr id mode _ => one (id, mode)
  | refcountDecr id mode n => n • one (id, mode)
  | storeValue id _ => writeOf id
  | storeRef id target reads writes =>
    reads • readOf target + writes • writeOf target + writeOf id
  | containerImmediateInsert c _ d drops => max 1 drops • writeOf c + readOf d
  | cVCreate c _ _ _ decrWrite decrRead => max 1 decrWrite • writeOf c + decrRead • readOf c
  | containerReference c _ r => readOf c + writeOf r

/-- The result is what the program has instead. -/
def run : Act → Script (Share Token)
  | create reads writes => do
    let d ← References.create reads writes
    return reads • readOf d + writes • writeOf d
  | refcountIncr id mode n => do
    acquire id mode n
    return one (id, mode) + n • one (id, mode)
  | refcountDecr id mode n => do
    drop id mode n
    return 0
  | storeValue id value => do
    References.storeValue id value
    return 0
  | storeRef id target reads writes => do
    References.storeRef id target reads writes
    return 0
  | containerImmediateInsert c i d drops => do
    containerInsert c i d drops 0
    return (1 - drops) • writeOf c
  | cVCreate c i callerReadRef callerWriteRef decrWrite decrRead => do
    let d ← createNested c i callerReadRef callerWriteRef decrWrite decrRead
    return callerReadRef • readOf d + callerWriteRef • writeOf d + (1 - decrWrite) • writeOf c
  | containerReference c i r => do
    References.containerReference c i r
    return 0

/-- A stored reference owns something, and one that is to be written through a write reference. -/
def Sound (writable : ℕ → Prop) : Act → Prop
  | storeRef id _ reads writes => 1 ≤ reads ∧ (writable id → 1 ≤ writes)
  | containerReference _ _ r => ¬ writable r
  | _ => True

end Act

variable {writable : ℕ → Prop}

lemma Act.run_spends {act : Act} (h : act.Sound writable) :
    Spends writable act.gives act.run id := by
  have hunit : ∀ {h : Share Token} {c : Script Unit} {got : Share Token},
      Spends writable h c (fun _ => got) → Spends writable h (do c; return got) id :=
    fun {_ _ got} hc => hc.bind fun _ => triple_pure got id
  cases act with
  | create reads writes => exact (create_spends reads writes).bind fun _ => triple_pure _ id
  | refcountIncr i mode n => exact hunit (acquire_spends i mode n)
  | refcountDecr i mode n => exact hunit (drop_spends i mode n)
  | storeValue i value => exact hunit (storeValue_spends i value)
  | storeRef i target reads writes => exact hunit (storeRef_spends h.1 h.2)
  | containerImmediateInsert c i d drops =>
    exact hunit ((adlbInsert_spends c i d drops 0).congr
      (by rw [zero_smul, zero_add]; rfl) fun _ => rfl)
  | cVCreate c i callerReadRef callerWriteRef decrWrite decrRead =>
    exact (createNested_spends c i callerReadRef callerWriteRef decrWrite decrRead).bind
      fun _ => triple_pure _ id
  | containerReference c i r => exact hunit (containerReference_spends c i h)

/-! ### Systems -/

/-- The server, the references that the program has kept and the rules that have not fired yet. -/
structure System where
  store : State
  kept : Share Token
  rules : Multiset Call

def System.start : System := ⟨⟨0, fun _ => none, [], [], 1⟩, 0, 0⟩

/-- What is owned outside of the server. -/
def System.held (sys : System) : Share Token := sys.kept + total Call.owns sys.rules

/-- The lookup `w` is done again when its member is there. -/
def State.serve (s : State) (w : Waiting) (l : Link) : Except Stop Unit × State :=
  setReference w.container l.target w.reference { s with waiting := s.waiting.erase w }

inductive Step (writable : ℕ → Prop) : System → System → Prop
  | act {sys : System} {act : Act} {rest got : Share Token} {t : State} : act.Sound writable →
      sys.kept = rest + act.gives → act.run sys.store = (.ok got, t) →
      Step writable sys ⟨t, rest + got, sys.rules⟩
  | call {sys : System} {c : Call} {rest : Share Token} {t : State} : c.Sound writable →
      sys.kept = rest + c.takes + c.passes → c.front sys.store = (.ok (), t) →
      Step writable sys ⟨t, rest + c.takes, c ::ₘ sys.rules⟩
  | fire {sys : System} {c : Call} {r new : Multiset Call} {t : State} :
      sys.rules = c ::ₘ r → (∀ i ∈ c.inputs, sys.store.counts (i, .write) = 0) →
      c.body sys.store = (.ok new, t) → Step writable sys ⟨t, sys.kept, new + r⟩
  | serve {sys : System} {w : Waiting} {l : Link} {t : State} : w ∈ sys.store.waiting →
      sys.store.link w.container (some w.subscript) = some l →
      sys.store.serve w l = (.ok (), t) → Step writable sys { sys with store := t }
  | close {sys : System} (id : ℕ) : sys.store.counts (id, .write) = 0 →
      Step writable sys { sys with store := sys.store.close id }
  | collect {sys : System} (id : ℕ) : (∀ mode, sys.store.counts (id, mode) = 0) →
      Step writable sys { sys with store := sys.store.collect id }

def Reach (writable : ℕ → Prop) : System → System → Prop := Relation.ReflTransGen (Step writable)

/-! ### The invariant -/

structure Sound (writable : ℕ → Prop) (sys : System) : Prop where
  store : Inv writable sys.store
  balanced : Balanced accounts sys.held sys.store
  rules : ∀ call ∈ sys.rules, call.Sound writable

lemma sound_start : Sound writable .start where
  store := ⟨by simp [System.start], by simp [System.start], by simp [System.start],
    by simp [System.start]⟩
  balanced := by
    change (0 : Share Token) = 0 + total Call.owns 0 + (total Link.owns 0 + total Waiting.owns 0)
    simp
  rules := by simp [System.start]

lemma Call.takes_le_owns {call : Call} (h : call.Sound writable) : call.takes ≤ call.owns := by
  have htake : ∀ (c decrs : ℕ) (incr : Bool) (more : Share Token), 1 ≤ decrs →
      (if incr then writeOf c else 0) ≤ more + decrs • writeOf c := by
    intro c decrs incr more hdecrs
    refine le_trans ?_ le_add_self
    obtain ⟨n, rfl⟩ := Nat.exists_eq_add_of_le hdecrs
    cases incr with
    | true =>
      rw [if_pos rfl, add_smul, one_smul]
      exact le_self_add
    | false => exact zero_le
  cases call with
  | cFInsert c i d decrs incr => exact htake c decrs incr _ h
  | cFInsertR c i r decrs incr => exact htake c decrs incr _ h
  | cVInsertR c i r decrs incr => exact htake c decrs incr _ h
  | structInsertR c i r decrs incr => exact htake c decrs incr _ h
  | _ => exact zero_le

lemma Call.passes_add_takes {call : Call} (h : call.Sound writable) :
    call.passes + call.takes = call.owns := tsub_add_cancel_of_le (call.takes_le_owns h)

section Server

variable {s t : State} {held : Share Token}

lemma balanced_release {share : Share Token} (h : Balanced accounts held s)
    (hstored : s.stored = t.stored + share) (hcounts : t.counts = s.counts - share) :
    Balanced accounts held t := by
  have hall : s.counts = held + s.stored := h
  change t.counts = held + t.stored
  rw [hcounts, hall, hstored, ← add_assoc, add_tsub_cancel_right]

lemma Link.owns_release (id : ℕ) (l : Link) :
    l.owns = (l.release id).owns + l.released id := by
  by_cases h : l.MemberOf id
  · simp only [release, released, if_pos h, owns, zero_smul, add_zero]
  · simp only [release, released, if_neg h, add_zero]

lemma stored_close (s : State) (id : ℕ) :
    s.stored = (s.close id).stored + total (Link.released id) (s.links : Multiset Link) := by
  have hlinks : ∀ links : List Link, total Link.owns (links : Multiset Link) =
      total Link.owns ((links.map (Link.release id) : List Link) : Multiset Link) +
        total (Link.released id) (links : Multiset Link) := by
    intro links
    induction links with
    | nil => simp
    | cons l links ih =>
      rw [List.map_cons, ← Multiset.cons_coe, ← Multiset.cons_coe, total_cons, total_cons,
        total_cons, ih, Link.owns_release id l]
      abel
  rw [State.stored, State.stored, State.close, hlinks s.links]
  abel

lemma links_split (links : List Link) (id : ℕ) : (links : Multiset Link) =
    ((links.filter fun l => l.holder ≠ id : List Link) : Multiset Link) +
      ((links.filter fun l => l.holder = id : List Link) : Multiset Link) := by
  have hsplit := Multiset.filter_add_not (fun l : Link => l.holder = id) (links : Multiset Link)
  rw [Multiset.filter_coe, Multiset.filter_coe, add_comm] at hsplit
  simpa using hsplit.symm

lemma stored_collect (s : State) (id : ℕ) :
    s.stored = (s.collect id).stored +
      total Link.owns ((s.links.filter fun l => l.holder = id : List Link) : Multiset Link) := by
  rw [State.stored, State.stored, State.collect, links_split s.links id, total_add]
  abel

lemma Inv.close (h : Inv writable s) (id : ℕ) : Inv writable (s.close id) where
  __ := h.counts_sub (total (Link.released id) (s.links : Multiset Link))
  reads := by
    intro l hl
    obtain ⟨l', hl', rfl⟩ := List.mem_map.mp hl
    rw [Link.release]
    split_ifs with hmember
    · exact h.reads l' hl'
    · exact h.reads l' hl'
  writes := by
    intro l hl hsub hw
    obtain ⟨l', hl', rfl⟩ := List.mem_map.mp hl
    by_cases hmember : l'.MemberOf id
    · rw [Link.release, if_pos hmember] at hsub
      exact absurd hsub hmember.2
    · rw [Link.release, if_neg hmember] at hsub hw ⊢
      exact h.writes l' hl' hsub hw

lemma Inv.collect (h : Inv writable s) (id : ℕ) : Inv writable (s.collect id) where
  __ := h.counts_sub
    (total Link.owns ((s.links.filter fun l => l.holder = id : List Link) : Multiset Link))
  reads l hl := h.reads l (List.mem_of_mem_filter hl)
  writes l hl := h.writes l (List.mem_of_mem_filter hl)

lemma serve_meets (h : Inv writable s) (hb : Balanced accounts held s) {w : Waiting} {l : Link}
    (hw : w ∈ s.waiting) (hl : s.link w.container (some w.subscript) = some l) :
    Cmd.Meets (fun s => s.serve w l) s (fun _ t => Inv writable t ∧ Balanced accounts held t)
      fun e _ => Excused e := by
  have hperm : (s.waiting : Multiset Waiting) =
      w ::ₘ ((s.waiting.erase w : List Waiting) : Multiset Waiting) :=
    Multiset.coe_eq_coe.mpr (List.perm_cons_erase hw)
  have hb' : Balanced accounts (held + (readOf w.container + writeOf w.reference))
      { s with waiting := s.waiting.erase w } := by
    have hcounts : s.counts = held + s.stored := hb
    change s.counts = held + w.owns + (total Link.owns (s.links : Multiset Link) +
      total Waiting.owns ((s.waiting.erase w : List Waiting) : Multiset Waiting))
    rw [hcounts, State.stored, hperm, total_cons]
    abel
  have hinv : Inv writable { s with waiting := s.waiting.erase w } :=
    { h with lookups := fun w' hw' => h.lookups w' (List.mem_of_mem_erase hw') }
  exact setReference_spends (h.lookups w hw) hinv hb' (mem_of_link hl).1

end Server

/-! ### Steps -/

section Steps

variable {sys : System}

lemma Sound.act_meets (h : Sound writable sys) {act : Act} (hact : act.Sound writable)
    {rest : Share Token} (hkept : sys.kept = rest + act.gives) :
    Cmd.Meets act.run sys.store (fun got t => Inv writable t ∧
      Balanced accounts (rest + got + total Call.owns sys.rules) t) fun e _ => Excused e := by
  have hb : Balanced accounts (rest + total Call.owns sys.rules + act.gives) sys.store := by
    have heq : rest + total Call.owns sys.rules + act.gives = sys.held := by
      rw [System.held, hkept]
      abel
    rw [heq]
    exact h.balanced
  refine (Act.run_spends hact _ _ h.store hb).mono fun got t ht => ⟨ht.1, ?_⟩
  have heq : rest + got + total Call.owns sys.rules =
      rest + total Call.owns sys.rules + id got := add_right_comm _ _ _
  rw [heq]
  exact ht.2

lemma Sound.call_meets (h : Sound writable sys) {call : Call} (hcall : call.Sound writable)
    {rest : Share Token} (hkept : sys.kept = rest + call.takes + call.passes) :
    Cmd.Meets call.front sys.store (fun _ t => Inv writable t ∧
      Balanced accounts (rest + call.takes + total Call.owns (call ::ₘ sys.rules)) t)
      fun e _ => Excused e := by
  have hb : Balanced accounts (rest + call.passes + total Call.owns sys.rules + call.takes)
      sys.store := by
    have heq : rest + call.passes + total Call.owns sys.rules + call.takes = sys.held := by
      rw [System.held, hkept]
      abel
    rw [heq]
    exact h.balanced
  refine (call.front_spends _ _ h.store hb).mono fun _ t ht => ⟨ht.1, ?_⟩
  have heq : rest + call.takes + total Call.owns (call ::ₘ sys.rules) =
      rest + call.passes + total Call.owns sys.rules + (call.takes + call.takes) := by
    rw [total_cons, ← Call.passes_add_takes hcall]
    abel
  rw [heq]
  exact ht.2

lemma Sound.fire_meets (h : Sound writable sys) {call : Call} {rest : Multiset Call}
    (hrules : sys.rules = call ::ₘ rest) :
    Cmd.Meets call.body sys.store (fun new t => Inv writable t ∧
      Balanced accounts (sys.kept + total Call.owns (new + rest)) t) fun e _ => Excused e := by
  have hcall : call.Sound writable := h.rules call (hrules ▸ Multiset.mem_cons_self _ _)
  have hb : Balanced accounts (sys.kept + total Call.owns rest + call.owns) sys.store := by
    have heq : sys.kept + total Call.owns rest + call.owns = sys.held := by
      rw [System.held, hrules, total_cons]
      abel
    rw [heq]
    exact h.balanced
  refine (Call.body_spends hcall _ _ h.store hb).mono fun new t ht => ⟨ht.1, ?_⟩
  have heq : sys.kept + total Call.owns (new + rest) =
      sys.kept + total Call.owns rest + total Call.owns new := by
    rw [total_add]
    abel
  rw [heq]
  exact ht.2

lemma Sound.step (h : Sound writable sys) {sys' : System} (hstep : Step writable sys sys') :
    Sound writable sys' := by
  cases hstep with
  | act hact hkept hrun =>
    obtain ⟨hinv, hb⟩ := Cmd.Meets.of_ok (h.act_meets hact hkept) hrun
    exact ⟨hinv, hb, h.rules⟩
  | call hcall hkept hrun =>
    obtain ⟨hinv, hb⟩ := Cmd.Meets.of_ok (h.call_meets hcall hkept) hrun
    exact ⟨hinv, hb, by simpa using ⟨hcall, h.rules⟩⟩
  | @fire call rest new t hrules _ hrun =>
    obtain ⟨hinv, hb⟩ := Cmd.Meets.of_ok (h.fire_meets hrules) hrun
    refine ⟨hinv, hb, fun made hmade => ?_⟩
    rcases Multiset.mem_add.mp hmade with hnew | hrest
    · exact Call.body_sound hrun made hnew
    · exact h.rules made (hrules ▸ Multiset.mem_cons_of_mem hrest)
  | serve hw hl hrun =>
    obtain ⟨hinv, hb⟩ := Cmd.Meets.of_ok (serve_meets h.store h.balanced hw hl) hrun
    exact ⟨hinv, hb, h.rules⟩
  | close id _ =>
    exact ⟨h.store.close id, balanced_release h.balanced (stored_close _ id) rfl, h.rules⟩
  | collect id _ =>
    exact ⟨h.store.collect id, balanced_release h.balanced (stored_collect _ id) rfl, h.rules⟩

lemma Reach.sound (h : Reach writable .start sys) : Sound writable sys := by
  induction h with
  | refl => exact sound_start
  | tail _ hstep ih => exact ih.step hstep

end Steps

/-! ### A run -/

section Nesting

abbrev throughTwo (id : ℕ) : Prop := id = 2

lemma Reach.act {store t : State} {kept kept' r got : Share Token} {rules : Multiset Call}
    (h : Reach writable .start ⟨store, kept, rules⟩) (act : Act) (hact : act.Sound writable)
    (hkept : kept = r + act.gives) (hrun : act.run store = (.ok got, t))
    (hkept' : kept' = r + got) : Reach writable .start ⟨t, kept', rules⟩ := by
  subst hkept'
  exact h.tail (.act hact hkept hrun)

/-- What is stored when a container is created in the container 1 and 2 is set to it. -/
def nestingLinks : List Link :=
  [⟨2, none, 4, 1, 1⟩, ⟨1, some ['k'], 4, initCount, initCount⟩]

/-- A container, a reference and an index are created, the index is set, and the rule is made that
is to create a container in the container. It fires and closes the container, and the program drops
what it has kept, before or after that. -/
lemma nesting_run : ∃ called pending filled dropped : State,
    Reach throughTwo .start ⟨called, readOf 1 + readOf 2, {.cFCreate 2 1 3 1 0}⟩ ∧
      Reach throughTwo .start ⟨pending, 0, {.cFCreate 2 1 3 1 0}⟩ ∧
      pending.counts (3, .write) = 0 ∧
      Reach throughTwo .start ⟨filled, readOf 1 + readOf 2, 0⟩ ∧ filled.links = nestingLinks ∧
      1 < filled.next ∧ filled.counts (1, .write) = 0 ∧
      Reach throughTwo .start ⟨dropped, 0, 0⟩ ∧ dropped.links = nestingLinks ∧
      dropped.waiting = [] := by
  have h0 : Reach throughTwo .start ⟨System.start.store, 0, 0⟩ := .refl
  have h1 := h0.act (.create 1 1) trivial (add_zero 0).symm rfl (zero_add _).symm
  have h2 := h1.act (.create 1 1) trivial (add_zero _).symm rfl rfl
  have h3 := h2.act (.create 1 1) trivial (add_zero _).symm rfl rfl
  have h4 := h3.act (r := readOf 1 + writeOf 1 + (readOf 2 + writeOf 2) + readOf 3)
    (.storeValue 3 ['k']) trivial (by simp [System.start, Act.gives]; abel) rfl (add_zero _).symm
  have hkept : readOf 1 + writeOf 1 + (readOf 2 + writeOf 2) + readOf 3 =
      readOf 1 + readOf 2 + (Call.cFCreate 2 1 3 1 0).takes +
        (Call.cFCreate 2 1 3 1 0).passes := by
    simp [Call.passes, Call.takes, Call.owns]
    abel
  have h5 := h4.tail (Step.call (c := .cFCreate 2 1 3 1 0) le_rfl hkept rfl)
  have h6 := h5.tail (Step.fire (c := .cFCreate 2 1 3 1 0) (r := 0) rfl (by decide) rfl)
  have h7 := Reach.act (r := readOf 2) h6 (.refcountDecr 1 .read 1) trivial
    (by simp [Act.gives, Call.takes]; abel) rfl (add_zero _).symm
  have h8 := h7.act (r := 0) (.refcountDecr 2 .read 1) trivial (by simp [Act.gives]) rfl
    (add_zero _).symm
  have h7' := Reach.act (r := readOf 2) h5 (.refcountDecr 1 .read 1) trivial
    (by simp [Act.gives, Call.takes]; abel) rfl (add_zero _).symm
  have h8' := h7'.act (r := 0) (.refcountDecr 2 .read 1) trivial (by simp [Act.gives]) rfl
    (add_zero _).symm
  exact ⟨_, _, _, _, h5, h8', by decide, h6, rfl, by decide, by decide, h8, rfl, rfl⟩

end Nesting

/-! ### Counts -/

variable {sys : System}

/-- A count is what is held and stored, and it is zero when nobody has a share of it. -/
structure Conserved (sys : System) : Prop where
  counts : sys.store.counts = sys.kept + total Call.owns sys.rules + sys.store.stored
  zero : ∀ token, sys.store.counts token = 0 ↔ sys.kept token = 0 ∧
    (∀ call ∈ sys.rules, call.owns token = 0) ∧ (∀ l ∈ sys.store.links, l.owns token = 0) ∧
    ∀ w ∈ sys.store.waiting, w.owns token = 0

lemma stored_eq_zero_iff {s : State} {token : Token} : s.stored token = 0 ↔
    (∀ l ∈ s.links, l.owns token = 0) ∧ ∀ w ∈ s.waiting, w.owns token = 0 := by
  rw [State.stored, Pi.add_apply, Nat.add_eq_zero_iff, total_eq_zero_iff, total_eq_zero_iff]
  simp only [Multiset.mem_coe]

lemma Sound.counts_eq_zero_iff (h : Sound writable sys) (token : Token) :
    sys.store.counts token = 0 ↔ sys.kept token = 0 ∧
      (∀ call ∈ sys.rules, call.owns token = 0) ∧ (∀ l ∈ sys.store.links, l.owns token = 0) ∧
      ∀ w ∈ sys.store.waiting, w.owns token = 0 := by
  have hzero : sys.store.counts token = 0 ↔ sys.held token = 0 ∧ sys.store.stored token = 0 :=
    h.balanced.eq_zero_iff token
  rw [hzero, stored_eq_zero_iff, System.held, Pi.add_apply, Nat.add_eq_zero_iff,
    total_eq_zero_iff, and_assoc]

/-- The command ends, or stops with a mistake of the program. -/
def OnlyMistakes {α : Type} (c : Script α) (s : State) : Prop :=
  ∀ e t, c s = (.error e, t) → Excused e

lemma onlyMistakes_of_meets {α : Type} {c : Script α} {s : State} {Q : α → State → Prop}
    (h : Cmd.Meets c s Q fun e _ => Excused e) : OnlyMistakes c s :=
  fun _ _ hrun => h.of_error hrun

/-- No command finds a datum deleted, a container closed or a count too small: not in a rule, not
in a call or an act of a program that has the references for it, and not in a lookup that is
served. -/
structure Served (writable : ℕ → Prop) (sys : System) : Prop where
  fire : ∀ call ∈ sys.rules, OnlyMistakes call.body sys.store
  call : ∀ call : Call, call.Sound writable → call.takes + call.passes ≤ sys.kept →
    OnlyMistakes call.front sys.store
  act : ∀ act : Act, act.Sound writable → act.gives ≤ sys.kept → OnlyMistakes act.run sys.store
  serve : ∀ w ∈ sys.store.waiting, ∀ l, sys.store.link w.container (some w.subscript) = some l →
    OnlyMistakes (fun s => s.serve w l) sys.store

end Turbine.References
