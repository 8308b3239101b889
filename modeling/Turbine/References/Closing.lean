import Turbine.References.Runs

/-! A container that is closed stays as it is until it is deleted, so that its size and the answers
about its subscripts do not depend on when a rule fires. -/

namespace Turbine.References

open Turbine.Library Shares

def Link.memberOf (c : ℕ) (l : Link) : Option (Text × ℕ) :=
  if l.holder = c then l.subscript.map fun i => (i, l.target) else none

/-- The subscripts of a container with what they point to. -/
def State.members (s : State) (c : ℕ) : List (Text × ℕ) := s.links.filterMap (Link.memberOf c)

lemma countMembers_eq (s : State) (c : ℕ) :
    countMembers c s = (.ok (s.members c).length, s) := by
  have hmember : ∀ l : Link, decide (l.holder = c ∧ l.subscript ≠ none) = (l.memberOf c).isSome := by
    intro l
    by_cases hholder : l.holder = c
    · cases hsubscript : l.subscript <;> simp [Link.memberOf, hholder, hsubscript]
    · simp [Link.memberOf, hholder]
  rw [countMembers, State.members, List.length_filterMap_eq_countP, funext hmember]

lemma hasMember_eq (s : State) (c : ℕ) (i : Text) :
    hasMember c i s = (.ok (decide (i ∈ (s.members c).map Prod.fst)), s) := by
  have hmember : ∀ l : Link, l.holder = c ∧ l.subscript = some i ↔
      ∃ m, l.memberOf c = some m ∧ m.1 = i := by
    intro l
    by_cases hholder : l.holder = c
    · cases hsubscript : l.subscript <;> simp [Link.memberOf, hholder, hsubscript]
    · simp [Link.memberOf, hholder]
  have hfound : (s.link c (some i)).isSome = decide (i ∈ (s.members c).map Prod.fst) := by
    rw [Bool.eq_iff_iff, State.link, List.find?_isSome, decide_eq_true_iff, List.mem_map]
    simp only [decide_eq_true_iff, hmember, State.members, List.mem_filterMap]
    constructor
    · rintro ⟨l, hl, m, hm, hi⟩
      exact ⟨m, ⟨l, hl, hm⟩, hi⟩
    · rintro ⟨m, ⟨l, hl, hm⟩, hi⟩
      exact ⟨l, hl, m, hm, hi⟩
  rw [hasMember, hfound]

/-- The container `c` is closed and has the members `ms`, or it is in use no longer. -/
def ClosedWith (c : ℕ) (ms : List (Text × ℕ)) (s : State) : Prop :=
  c < s.next ∧ s.counts (c, .write) = 0 ∧ (s.counts (c, .read) = 0 ∨ s.members c = ms)

variable {c : ℕ} {ms : List (Text × ℕ)}

/-! ### Commands -/

lemma ClosedWith.of_counts {s t : State} (h : ClosedWith c ms s) (hnext : s.next ≤ t.next)
    (hwrite : t.counts (c, .write) = 0)
    (hread : s.counts (c, .read) = 0 → t.counts (c, .read) = 0)
    (hmembers : t.members c = s.members c) : ClosedWith c ms t := by
  refine ⟨lt_of_lt_of_le h.1 hnext, hwrite, h.2.2.imp hread fun hms => ?_⟩
  rw [hmembers, hms]

lemma keeps_of_same {α : Type} {cmd : Script α} (h : ∀ s, (cmd s).2 = s) :
    Cmd.Keeps cmd (ClosedWith c ms) := by
  intro s hs
  rwa [h s]

lemma acquire_keeps (id : ℕ) (mode : Mode) (n : ℕ) :
    Cmd.Keeps (acquire id mode n) (ClosedWith c ms) := by
  intro s hs
  rw [acquire]
  split_ifs with hread hwrite
  · exact hs
  · exact hs
  · have hzero : ∀ m, s.counts (c, m) = 0 → (s.counts + n • one (id, mode)) (c, m) = 0 := by
      intro m hm
      by_cases heq : (c, m) = (id, mode)
      · obtain ⟨rfl, rfl⟩ := Prod.mk.inj heq
        have hn : n = 0 := by
          by_contra hn
          cases m with
          | read => exact hread ⟨hn, rfl, hm, hs.2.1⟩
          | write => exact hwrite ⟨hn, rfl, hm⟩
        simp [hn, hm]
      · simp [heq, hm]
    exact hs.of_counts le_rfl (hzero .write hs.2.1) (hzero .read) rfl

lemma counts_sub_eq_zero {counts : Share Token} {token : Token} (h : counts token = 0)
    (share : Share Token) : (counts - share) token = 0 := by
  rw [Pi.sub_apply, h, Nat.zero_sub]

lemma drop_keeps (id : ℕ) (mode : Mode) (n : ℕ) : Cmd.Keeps (drop id mode n) (ClosedWith c ms) := by
  intro s hs
  rw [drop]
  split_ifs with hcount
  · exact hs
  · exact hs.of_counts le_rfl (counts_sub_eq_zero hs.2.1 _) (fun h => counts_sub_eq_zero h _) rfl

lemma addLink_keeps {l : Link} (h : l.memberOf c = none) :
    Cmd.Keeps (addLink l) (ClosedWith c ms) := by
  intro s hs
  rw [addLink]
  split_ifs
  · exact hs
  · exact hs.of_counts le_rfl hs.2.1 (fun h => h) (List.filterMap_cons_none h)

lemma setValue_keeps (id : ℕ) (value : Text) :
    Cmd.Keeps (setValue id value) (ClosedWith c ms) := by
  intro s hs
  rw [setValue]
  split_ifs
  · exact hs
  · exact hs.of_counts le_rfl hs.2.1 (fun h => h) rfl

lemma create_keeps (reads writes : ℕ) : Cmd.Keeps (create reads writes) (ClosedWith c ms) := by
  intro s hs
  have hne : ∀ m mode : Mode, (c, m) ≠ (s.next, mode) := by
    intro m mode heq
    exact hs.1.ne (Prod.mk.inj heq).1
  have hsame : ∀ m, (s.counts + reads • readOf s.next + writes • writeOf s.next) (c, m) =
      s.counts (c, m) := by
    intro m
    simp [hne]
  exact hs.of_counts (Nat.le_succ _) ((hsame .write).trans hs.2.1) (hsame .read).trans rfl

lemma checkOpen_bind_keeps {α : Type} {id : ℕ} {k : Unit → Script α}
    (h : id ≠ c → Cmd.Keeps (k ()) (ClosedWith c ms)) :
    Cmd.Keeps (checkOpen id >>= k) (ClosedWith c ms) := by
  intro s hs
  by_cases hclosed : s.counts (id, .write) = 0
  · have hrun : checkOpen id s = (.error (.closed id), s) := if_pos hclosed
    rw [Cmd.bind_of_error hrun]
    exact hs
  · have hrun : checkOpen id s = (.ok (), s) := if_neg hclosed
    rw [Cmd.bind_of_ok hrun]
    refine h ?_ s hs
    rintro rfl
    exact hclosed hs.2.1

lemma retrieve_keeps (id : ℕ) : Cmd.Keeps (retrieve id) (ClosedWith c ms) := by
  refine keeps_of_same fun s => ?_
  rw [retrieve]
  split <;> rfl

lemma reference_keeps (id : ℕ) : Cmd.Keeps (reference id) (ClosedWith c ms) := by
  refine keeps_of_same fun s => ?_
  rw [reference]
  split <;> rfl

lemma retrieveDecr_keeps (id : ℕ) : Cmd.Keeps (retrieveDecr id) (ClosedWith c ms) :=
  (retrieve_keeps id).bind fun _ => (drop_keeps id .read 1).bind fun _ => Cmd.keeps_pure _ _

lemma storeValue_keeps (id : ℕ) (value : Text) :
    Cmd.Keeps (storeValue id value) (ClosedWith c ms) :=
  (setValue_keeps id value).bind fun _ => drop_keeps id .write 1

lemma storeRef_keeps (id target reads writes : ℕ) :
    Cmd.Keeps (storeRef id target reads writes) (ClosedWith c ms) :=
  (addLink_keeps (by simp [Link.memberOf])).bind fun _ => drop_keeps id .write 1

lemma acquireRef_keeps (id incr decr : ℕ) :
    Cmd.Keeps (acquireRef id incr decr) (ClosedWith c ms) :=
  (reference_keeps id).bind fun d => (acquire_keeps d .read incr).bind fun _ =>
    (drop_keeps id .read decr).bind fun _ => Cmd.keeps_pure _ _

lemma acquireWriteRef_keeps (id readIncr writeIncr decr : ℕ) :
    Cmd.Keeps (acquireWriteRef id readIncr writeIncr decr) (ClosedWith c ms) :=
  (reference_keeps id).bind fun d => (acquire_keeps d .read readIncr).bind fun _ =>
    (acquire_keeps d .write writeIncr).bind fun _ =>
      (drop_keeps id .read decr).bind fun _ => Cmd.keeps_pure _ _

lemma memberOf_of_ne {id : ℕ} (h : id ≠ c) (subscript : Option Text) (target reads writes : ℕ) :
    (Link.mk id subscript target reads writes).memberOf c = none := if_neg h

lemma adlbInsert_keeps (id : ℕ) (subscript : Text) (member writeDecr readDecr : ℕ) :
    Cmd.Keeps (adlbInsert id subscript member writeDecr readDecr) (ClosedWith c ms) :=
  checkOpen_bind_keeps fun h => (addLink_keeps (memberOf_of_ne h _ _ _ _)).bind fun _ =>
    (drop_keeps id .write writeDecr).bind fun _ => drop_keeps id .read readDecr

lemma setReference_keeps (container target id : ℕ) :
    Cmd.Keeps (setReference container target id) (ClosedWith c ms) :=
  (acquire_keeps target .read 1).bind fun _ =>
    (storeRef_keeps id target 1 0).bind fun _ => drop_keeps container .read 1

lemma containerReference_keeps (container : ℕ) (subscript : Text) (id : ℕ) :
    Cmd.Keeps (containerReference container subscript id) (ClosedWith c ms) := by
  intro s hs
  rw [containerReference]
  split
  · exact setReference_keeps container _ id s hs
  · exact hs.of_counts le_rfl hs.2.1 (fun h => h) rfl

lemma acquireMember_keeps (l : Link) (callerRead callerWrite : ℕ) :
    Cmd.Keeps (acquireMember l callerRead callerWrite) (ClosedWith c ms) := by
  rw [acquireMember]
  split_ifs
  · exact (Cmd.keeps_throw _ _).bind fun _ => (acquire_keeps _ _ _).bind fun _ =>
      (acquire_keeps _ _ _).bind fun _ => Cmd.keeps_pure _ _
  · exact (acquire_keeps _ _ _).bind fun _ =>
      (acquire_keeps _ _ _).bind fun _ => Cmd.keeps_pure _ _

lemma nestedDatum_keeps {id : ℕ} (h : id ≠ c) (subscript : Text) (callerRead callerWrite : ℕ) :
    Cmd.Keeps (nestedDatum id subscript callerRead callerWrite) (ClosedWith c ms) := by
  have hcreate : Cmd.Keeps (createMember id subscript callerRead callerWrite) (ClosedWith c ms) :=
    (create_keeps _ _).bind fun _ => (addLink_keeps (memberOf_of_ne h _ _ _ _)).bind fun _ =>
      Cmd.keeps_pure _ _
  intro s hs
  rw [nestedDatum]
  split
  · exact acquireMember_keeps _ callerRead callerWrite s hs
  · exact hcreate s hs

lemma createNested_keeps (id : ℕ) (subscript : Text)
    (callerRead callerWrite decrWrite decrRead : ℕ) :
    Cmd.Keeps (createNested id subscript callerRead callerWrite decrWrite decrRead)
      (ClosedWith c ms) :=
  checkOpen_bind_keeps fun h => (nestedDatum_keeps h subscript callerRead callerWrite).bind fun _ =>
    (drop_keeps id .write decrWrite).bind fun _ =>
      (drop_keeps id .read decrRead).bind fun _ => Cmd.keeps_pure _ _

lemma containerSize_keeps (id decr : ℕ) : Cmd.Keeps (containerSize id decr) (ClosedWith c ms) :=
  (keeps_of_same fun _ => rfl).bind fun _ => (drop_keeps id .read decr).bind fun _ =>
    Cmd.keeps_pure _ _

lemma existsSub_keeps (id : ℕ) (subscript : Text) (decr : ℕ) :
    Cmd.Keeps (existsSub id subscript decr) (ClosedWith c ms) :=
  (keeps_of_same fun _ => rfl).bind fun _ => (drop_keeps id .read decr).bind fun _ =>
    Cmd.keeps_pure _ _

/-! ### Bodies -/

lemma quiet_keeps {cmd : Script Unit} (h : Cmd.Keeps cmd (ClosedWith c ms)) :
    Cmd.Keeps (do cmd; return (0 : Multiset Call)) (ClosedWith c ms) :=
  h.bind fun _ => Cmd.keeps_pure _ _

lemma insertRef_keeps (id : ℕ) (i : Text) (r decrs readDecr : ℕ) :
    Cmd.Keeps (do let d ← acquireRef r 1 1; adlbInsert id i d decrs readDecr) (ClosedWith c ms) :=
  (acquireRef_keeps r 1 1).bind fun d => adlbInsert_keeps id i d decrs readDecr

lemma createRef_keeps (r id : ℕ) (i : Text) (decrWrite decrRead : ℕ) :
    Cmd.Keeps (do let res ← createNested id i 1 1 decrWrite decrRead; storeRwRef r res)
      (ClosedWith c ms) :=
  (createNested_keeps id i 1 1 decrWrite decrRead).bind fun res => storeRef_keeps r res 1 1

lemma copyBody_keeps (type : Copied) (o i : ℕ) :
    Cmd.Keeps (copyBody type o i) (ClosedWith c ms) := by
  have hvalue : Cmd.Keeps (do let iValue ← retrieveDecr i; storeValue o iValue)
      (ClosedWith c ms) := (retrieveDecr_keeps i).bind fun v => storeValue_keeps o v
  cases type with
  | void => exact (storeValue_keeps o _).bind fun _ => drop_keeps i .read 1
  | _ => exact hvalue

lemma Call.body_keeps (call : Call) : Cmd.Keeps call.body (ClosedWith c ms) := by
  cases call with
  | cFInsert id i d decrs incr =>
    exact quiet_keeps ((retrieveDecr_keeps i).bind fun s => adlbInsert_keeps id s d decrs 0)
  | cFInsertR id i r decrs incr =>
    exact quiet_keeps ((retrieveDecr_keeps i).bind fun t1 => insertRef_keeps id t1 r decrs 0)
  | cVInsertR id i r decrs incr => exact quiet_keeps (insertRef_keeps id i r decrs 0)
  | cFLookup id i r =>
    exact quiet_keeps ((retrieveDecr_keeps i).bind fun t1 => containerReference_keeps id t1 r)
  | dereference type v r =>
    exact ((acquireRef_keeps r 1 1).bind fun _ => Cmd.keeps_pure _ _).bind fun _ =>
      Cmd.keeps_pure _ _
  | copy type o i => exact quiet_keeps (copyBody_keeps type o i)
  | crVLookup cr i d =>
    exact quiet_keeps ((acquireRef_keeps cr 1 1).bind fun id => containerReference_keeps id i d)
  | crFLookup cr i d =>
    exact quiet_keeps ((acquireRef_keeps cr 1 1).bind fun id => (retrieveDecr_keeps i).bind fun t1 =>
      containerReference_keeps id t1 d)
  | crFInsert cr j d =>
    exact quiet_keeps ((acquireWriteRef_keeps cr 1 1 1).bind fun id =>
      (retrieveDecr_keeps j).bind fun s => adlbInsert_keeps id s d 1 1)
  | crVInsert cr j d =>
    exact quiet_keeps ((acquireWriteRef_keeps cr 1 1 1).bind fun id => adlbInsert_keeps id j d 1 1)
  | crVInsertR cr j dr =>
    exact quiet_keeps ((acquireWriteRef_keeps cr 1 1 1).bind fun id => insertRef_keeps id j dr 1 1)
  | crFInsertR cr j dr =>
    exact quiet_keeps ((acquireWriteRef_keeps cr 1 1 1).bind fun id =>
      (acquireRef_keeps dr 1 1).bind fun d => (retrieveDecr_keeps j).bind fun jval =>
        adlbInsert_keeps id jval d 1 1)
  | cFCreate r id i decrWrite decrRead =>
    exact quiet_keeps ((retrieveDecr_keeps i).bind fun s =>
      createRef_keeps r id s decrWrite decrRead)
  | crVCreate r cr i =>
    exact quiet_keeps ((acquireWriteRef_keeps cr 1 1 1).bind fun id => createRef_keeps r id i 1 1)
  | crFCreate r cr i =>
    exact quiet_keeps ((acquireWriteRef_keeps cr 1 1 1).bind fun id =>
      (retrieveDecr_keeps i).bind fun s => createRef_keeps r id s 1 1)
  | containerSize result container =>
    exact quiet_keeps ((containerSize_keeps container 1).bind fun _ => storeValue_keeps result _)
  | existsMember result id i | contains result id i =>
    exact quiet_keeps ((retrieveDecr_keeps i).bind fun s => (existsSub_keeps id s 1).bind fun _ =>
      storeValue_keeps result _)
  | structrefReference structr subscript result =>
    exact quiet_keeps ((acquireRef_keeps structr 1 1).bind fun id =>
      containerReference_keeps id subscript result)
  | structInsertR struct subscript r decrs incr =>
    exact quiet_keeps (insertRef_keeps struct subscript r decrs 0)

lemma Call.front_keeps (call : Call) : Cmd.Keeps call.front (ClosedWith c ms) := by
  have htake : ∀ (id : ℕ) (incr : Bool),
      Cmd.Keeps (if incr then acquire id .write 1 else pure ()) (ClosedWith c ms) := by
    intro id incr
    split_ifs
    · exact acquire_keeps id .write 1
    · exact Cmd.keeps_pure _ _
  cases call with
  | cFInsert id i d decrs incr => exact htake id incr
  | cFInsertR id i r decrs incr => exact htake id incr
  | cVInsertR id i r decrs incr => exact htake id incr
  | structInsertR id i r decrs incr => exact htake id incr
  | _ => exact Cmd.keeps_pure _ _

lemma Act.run_keeps (act : Act) : Cmd.Keeps act.run (ClosedWith c ms) := by
  cases act with
  | create reads writes => exact (create_keeps reads writes).bind fun _ => Cmd.keeps_pure _ _
  | refcountIncr id mode n => exact (acquire_keeps id mode n).bind fun _ => Cmd.keeps_pure _ _
  | refcountDecr id mode n => exact (drop_keeps id mode n).bind fun _ => Cmd.keeps_pure _ _
  | storeValue id value => exact (storeValue_keeps id value).bind fun _ => Cmd.keeps_pure _ _
  | storeRef id target reads writes =>
    exact (storeRef_keeps id target reads writes).bind fun _ => Cmd.keeps_pure _ _
  | containerImmediateInsert id i d drops =>
    exact (adlbInsert_keeps id i d drops 0).bind fun _ => Cmd.keeps_pure _ _
  | cVCreate id i callerReadRef callerWriteRef decrWrite decrRead =>
    exact (createNested_keeps id i callerReadRef callerWriteRef decrWrite decrRead).bind
      fun _ => Cmd.keeps_pure _ _
  | containerReference id i r =>
    exact (containerReference_keeps id i r).bind fun _ => Cmd.keeps_pure _ _

/-! ### Steps -/

variable {writable : ℕ → Prop} {sys sys' : System}

lemma ClosedWith.close {s : State} (h : ClosedWith c ms s) (id : ℕ) :
    ClosedWith c ms (s.close id) := by
  have hmember : ∀ l : Link, (l.release id).memberOf c = l.memberOf c := by
    intro l
    rw [Link.release]
    split_ifs <;> rfl
  refine h.of_counts le_rfl (counts_sub_eq_zero h.2.1 _) (fun h => counts_sub_eq_zero h _) ?_
  rw [State.members, State.members, State.close, List.filterMap_map]
  exact congrArg (fun f => s.links.filterMap f) (funext hmember)

lemma ClosedWith.collect {s : State} (h : ClosedWith c ms s) {id : ℕ}
    (hid : ∀ mode, s.counts (id, mode) = 0) : ClosedWith c ms (s.collect id) := by
  have hwrite : (s.collect id).counts (c, .write) = 0 := counts_sub_eq_zero h.2.1 _
  by_cases hc : c = id
  · subst hc
    exact ⟨h.1, hwrite, .inl (counts_sub_eq_zero (hid .read) _)⟩
  · refine h.of_counts le_rfl hwrite (fun h => counts_sub_eq_zero h _) ?_
    rw [State.members, State.members, State.collect, List.filterMap_filter]
    congr 1
    funext l
    by_cases hl : l.holder = id
    · have hne : l.holder ≠ c := by
        rw [hl]
        exact fun heq => hc heq.symm
      simp [hl, Link.memberOf, Ne.symm hc]
    · simp [hl]

lemma ClosedWith.step (h : ClosedWith c ms sys.store) (hstep : Step writable sys sys') :
    ClosedWith c ms sys'.store := by
  have hrun : ∀ {α : Type} {cmd : Script α} {s t : State} {r : Except Stop α},
      Cmd.Keeps cmd (ClosedWith c ms) → ClosedWith c ms s → cmd s = (r, t) →
        ClosedWith c ms t := by
    intro α cmd s t r hcmd hs heq
    have hkept := hcmd s hs
    rwa [heq] at hkept
  cases hstep with
  | @act act rest got t hact hkept heq => exact hrun act.run_keeps h heq
  | @call call rest t hcall hkept heq => exact hrun call.front_keeps h heq
  | @fire call rest new t hrules hready heq => exact hrun call.body_keeps h heq
  | @serve w l t hw hl heq =>
    have hserved : ClosedWith c ms { sys.store with waiting := sys.store.waiting.erase w } :=
      h.of_counts le_rfl h.2.1 (fun hread => hread) rfl
    exact hrun (setReference_keeps w.container l.target w.reference) hserved heq
  | close id hid => exact h.close id
  | collect id hid => exact h.collect hid

/-- The answers about a container are those of its members `ms`, whoever asks. -/
structure Final (c : ℕ) (ms : List (Text × ℕ)) (sys : System) : Prop where
  closed : sys.store.counts (c, .write) = 0
  members : sys.store.counts (c, .read) ≠ 0 → sys.store.members c = ms
  size : ∀ result, .containerSize result c ∈ sys.rules →
    (countMembers c sys.store).1 = .ok ms.length
  subscripts : ∀ result i, .contains result c i ∈ sys.rules ∨ .existsMember result c i ∈ sys.rules →
    ∀ text, (hasMember c text sys.store).1 = .ok (decide (text ∈ ms.map Prod.fst))

end Turbine.References
