import Turbine.References.Store

/-! What each command does with the shares it is given. -/

namespace Turbine.References

open Turbine.Library Shares

def State.stored (s : State) : Share Token :=
  total Link.owns (s.links : Multiset Link) + total Waiting.owns (s.waiting : Multiset Waiting)

/-- Errors that are mistakes of the program: what it sets twice, reads as another type than it has,
or never set before it closed it. -/
def Excused : Stop → Prop
  | .gone _ | .closed _ | .refcount _ => False
  | .unset _ | .wrongType _ | .doubleWrite _ | .readOnly _ => True

def accounts : Accounts State Token Stop := ⟨State.counts, State.stored, Excused⟩

/-- References own something, those with which a program is to write own write references and no
lookup sets one of them, and nothing is counted that was not created. -/
structure Inv (writable : ℕ → Prop) (s : State) : Prop where
  reads : ∀ l ∈ s.links, 1 ≤ l.reads
  writes : ∀ l ∈ s.links, l.subscript = none → writable l.holder → 1 ≤ l.writes
  lookups : ∀ w ∈ s.waiting, ¬ writable w.reference
  fresh : ∀ id, s.next ≤ id → ∀ mode, s.counts (id, mode) = 0

abbrev Spends (writable : ℕ → Prop) {α : Type} (h : Share Token) (c : Script α)
    (Q : α → Share Token) : Prop := Triple accounts (Inv writable) h c Q

variable {writable : ℕ → Prop} {s : State} {held : Share Token}

/-! ### Counts -/

section Counts

variable {id n : ℕ} {mode : Mode}

lemma Inv.counts_add (h : Inv writable s) (hn : n = 0 ∨ 0 < s.counts (id, mode)) :
    Inv writable { s with counts := s.counts + n • one (id, mode) } where
  __ := h
  fresh j hj m := by
    have hzero := h.fresh j hj m
    rcases hn with rfl | hpos
    · simp [hzero]
    · have hne : (j, m) ≠ (id, mode) := by
        rintro heq
        rw [heq] at hzero
        omega
      simp [hzero, hne]

lemma Inv.counts_sub (h : Inv writable s) (share : Share Token) :
    Inv writable { s with counts := s.counts - share } where
  __ := h
  fresh j hj m := by
    have hzero := h.fresh j hj m
    simp [hzero]

lemma balanced_add (h : Balanced accounts held s) (share : Share Token) :
    Balanced accounts (held + share) { s with counts := s.counts + share } := by
  have hcounts : s.counts = held + s.stored := h
  change s.counts + share = held + share + s.stored
  rw [hcounts]
  abel

lemma balanced_sub {share : Share Token} (h : Balanced accounts (held + share) s) :
    Balanced accounts held { s with counts := s.counts - share } := by
  have hcounts : s.counts = held + share + s.stored := h
  change s.counts - share = held + s.stored
  rw [hcounts, add_right_comm, add_tsub_cancel_right]

lemma acquire_of_pos (h : n = 0 ∨ 0 < s.counts (id, mode)) :
    acquire id mode n s = (.ok (), { s with counts := s.counts + n • one (id, mode) }) := by
  rw [acquire, if_neg, if_neg]
  · rintro ⟨hn, rfl, hzero⟩
    omega
  · rintro ⟨hn, rfl, hzero, -⟩
    omega

lemma drop_spends (id : ℕ) (mode : Mode) (n : ℕ) :
    Spends writable (n • one (id, mode)) (drop id mode n) fun _ => 0 := by
  intro others s hinv hb
  have hle := hb.held_le (id, mode)
  have hcount : ¬ s.counts (id, mode) < n := by
    have : (others + n • one (id, mode)) (id, mode) = others (id, mode) + n := by simp
    rw [this] at hle
    exact not_lt.mpr (le_trans (Nat.le_add_left _ _) hle)
  refine Cmd.meets_of_ok (if_neg hcount) ⟨hinv.counts_sub _, ?_⟩
  rw [add_zero]
  exact balanced_sub hb

lemma drop_one_spends (id : ℕ) (mode : Mode) :
    Spends writable (one (id, mode)) (drop id mode 1) fun _ => 0 :=
  (drop_spends id mode 1).congr (one_smul ℕ _).symm fun _ => rfl

lemma acquire_spends (id : ℕ) (mode : Mode) (n : ℕ) :
    Spends writable (one (id, mode)) (acquire id mode n)
      fun _ => one (id, mode) + n • one (id, mode) := by
  intro others s hinv hb
  have hle := hb.held_le (id, mode)
  have hpos : 0 < s.counts (id, mode) := by
    have : (others + one (id, mode)) (id, mode) = others (id, mode) + 1 := by simp
    rw [this] at hle
    exact lt_of_lt_of_le (Nat.succ_pos _) hle
  refine Cmd.meets_of_ok (acquire_of_pos (.inr hpos)) ⟨hinv.counts_add (.inr hpos), ?_⟩
  rw [← add_assoc]
  exact balanced_add hb _

end Counts

/-! ### Commands that only look -/

section Queries

variable {α : Type} {c : Script α}

lemma query_spends (hstate : ∀ s, (c s).2 = s) (herror : ∀ s e, (c s).1 = .error e → Excused e) :
    Spends writable 0 c fun _ => 0 := by
  intro others s hinv hb
  have hs := hstate s
  have he := herror s
  rw [Cmd.Meets]
  rcases hc : c s with ⟨e | a, t⟩ <;> rw [hc] at hs he
  · exact he e rfl
  · obtain rfl : t = s := hs
    exact ⟨hinv, hb⟩

lemma retrieve_spends (id : ℕ) : Spends writable 0 (retrieve id) fun _ => 0 := by
  apply query_spends
  · intro s
    rw [retrieve]
    split <;> rfl
  · intro s e
    rw [retrieve]
    split <;> rintro ⟨⟩
    trivial

lemma countMembers_spends (id : ℕ) : Spends writable 0 (countMembers id) fun _ => 0 :=
  query_spends (fun _ => rfl) (by rintro s e ⟨⟩)

lemma hasMember_spends (id : ℕ) (subscript : Text) :
    Spends writable 0 (hasMember id subscript) fun _ => 0 :=
  query_spends (fun _ => rfl) (by rintro s e ⟨⟩)

end Queries

lemma checkOpen_spends (id : ℕ) :
    Spends writable (writeOf id) (checkOpen id) fun _ => writeOf id := by
  intro others s hinv hb
  have hle := hb.held_le (id, .write)
  have hone : (others + writeOf id) (id, .write) = others (id, .write) + 1 := by simp
  have hopen : s.counts (id, .write) ≠ 0 := by
    rw [hone] at hle
    exact (lt_of_lt_of_le (Nat.succ_pos _) hle).ne'
  exact Cmd.meets_of_ok (if_neg hopen) ⟨hinv, hb⟩

/-! ### Stores -/

lemma setValue_spends (id : ℕ) (value : Text) :
    Spends writable 0 (setValue id value) fun _ => 0 := by
  intro others s hinv hb
  by_cases hset : (s.values id).isSome
  · exact Cmd.meets_of_error (if_pos hset) trivial
  · exact Cmd.meets_of_ok (if_neg hset) ⟨{ hinv with }, hb⟩

lemma addLink_spends {l : Link} (hreads : 1 ≤ l.reads)
    (hwrites : l.subscript = none → writable l.holder → 1 ≤ l.writes) :
    Spends writable l.owns (addLink l) fun _ => 0 := by
  intro others s hinv hb
  by_cases hset : (s.link l.holder l.subscript).isSome
  · exact Cmd.meets_of_error (if_pos hset) trivial
  · refine Cmd.meets_of_ok (if_neg hset) ⟨{ hinv with reads := ?_, writes := ?_ }, ?_⟩
    · exact List.forall_mem_cons.mpr ⟨hreads, hinv.reads⟩
    · exact List.forall_mem_cons.mpr ⟨hwrites, hinv.writes⟩
    · have hcounts : s.counts = others + l.owns + s.stored := hb
      change s.counts = others + 0 + (total Link.owns (l ::ₘ (s.links : Multiset Link)) +
        total Waiting.owns (s.waiting : Multiset Waiting))
      rw [hcounts, State.stored, total_cons]
      abel

lemma create_spends (reads writes : ℕ) :
    Spends writable 0 (create reads writes)
      fun d => reads • readOf d + writes • writeOf d := by
  intro others s hinv hb
  refine Cmd.meets_of_ok rfl ⟨{ hinv with fresh := fun j hj m => ?_ }, ?_⟩
  · have hne : ∀ mode : Mode, (j, m) ≠ (s.next, mode) := by
      rintro mode heq
      have hlt : s.next < j := hj
      rw [Prod.mk.injEq] at heq
      omega
    have hzero := hinv.fresh j (Nat.le_of_lt hj) m
    simp [hzero, hne]
  · have hcounts : others + (reads • readOf s.next + writes • writeOf s.next) +
        s.stored = s.counts + reads • readOf s.next + writes • writeOf s.next := by
      have h : s.counts = others + 0 + s.stored := hb
      rw [h]
      abel
    exact hcounts.symm

lemma retrieveDecr_spends (id : ℕ) :
    Spends writable (readOf id) (retrieveDecr id) fun _ => 0 :=
  (retrieve_spends id).query fun v =>
    (drop_one_spends id .read).bind fun _ => triple_return v 0

lemma storeValue_spends (id : ℕ) (value : Text) :
    Spends writable (writeOf id) (storeValue id value) fun _ => 0 :=
  (setValue_spends id value).query fun _ => drop_one_spends id .write

lemma storeRef_spends {id target reads writes : ℕ} (hreads : 1 ≤ reads)
    (hwrites : writable id → 1 ≤ writes) :
    Spends writable (reads • readOf target + writes • writeOf target + writeOf id)
      (storeRef id target reads writes) fun _ => 0 :=
  (addLink_spends (l := ⟨id, none, target, reads, writes⟩) hreads fun _ => hwrites).spend
    fun _ => drop_one_spends id .write

lemma storeRwRef_spends (id target : ℕ) :
    Spends writable (readOf target + writeOf target + writeOf id)
      (storeRwRef id target) fun _ => 0 :=
  (storeRef_spends le_rfl fun _ => le_rfl).congr (by simp) fun _ => rfl

lemma checkOpen_bind_spends {id : ℕ} {α : Type} {k : Unit → Script α} {n : ℕ} {h : Share Token}
    {Q : α → Share Token} (hk : Spends writable (n • writeOf id + h) (k ()) Q) :
    Spends writable (max 1 n • writeOf id + h) (checkOpen id >>= k)
      fun a => Q a + (1 - n) • writeOf id := by
  have hneeds : max 1 n • writeOf id =
      writeOf id + (n - 1) • writeOf id := by
    have : max 1 n = 1 + (n - 1) := by omega
    rw [this, add_smul, one_smul]
  have hkeeps : writeOf id + (n - 1) • writeOf id =
      n • writeOf id + (1 - n) • writeOf id := by
    rw [← hneeds, ← add_smul]
    congr 1
    omega
  refine ((checkOpen_spends id).seq (f := (n - 1) • writeOf id + h)
    fun _ => (hk.frame ((1 - n) • writeOf id)).congr ?_ fun _ => rfl).congr ?_ fun _ => rfl
  · rw [← add_assoc, hkeeps]
    abel
  · rw [hneeds, add_assoc]

lemma adlbInsert_spends (id : ℕ) (subscript : Text) (member writeDecr readDecr : ℕ) :
    Spends writable
      (max 1 writeDecr • writeOf id + (readDecr • readOf id + readOf member))
      (adlbInsert id subscript member writeDecr readDecr)
      fun _ => (1 - writeDecr) • writeOf id := by
  have hlink : Spends writable (readOf member) (addLink ⟨id, some subscript, member, 1, 0⟩)
      fun _ => 0 :=
    (addLink_spends le_rfl (by simp)).congr (by simp [Link.owns]) fun _ => rfl
  have hrest : Spends writable
      (readOf member + (writeDecr • writeOf id + readDecr • readOf id))
      (addLink ⟨id, some subscript, member, 1, 0⟩ >>= fun _ =>
        drop id .write writeDecr >>= fun _ => drop id .read readDecr) fun _ => 0 :=
    hlink.spend fun _ => (drop_spends id .write writeDecr).spend fun _ =>
      drop_spends id .read readDecr
  exact (checkOpen_bind_spends (hrest.congr (by abel) fun _ => rfl)).congr rfl
    fun _ => zero_add _

/-! ### Commands on what a reference points to -/

lemma Balanced.link_pos (hb : Balanced accounts held s) {l : Link} (hl : l ∈ s.links) {mode : Mode}
    (howns : 1 ≤ l.owns (l.target, mode)) : 0 < s.counts (l.target, mode) := by
  have hstored := hb.stored_le (l.target, mode)
  have htotal := owns_le_total Link.owns (Multiset.mem_coe.mpr hl) (l.target, mode)
  have hle : total Link.owns (s.links : Multiset Link) (l.target, mode) ≤
      s.stored (l.target, mode) := Nat.le_add_right _ _
  exact lt_of_lt_of_le howns (htotal.trans (hle.trans hstored))

lemma Link.owns_read (l : Link) : l.owns (l.target, .read) = l.reads := by
  simp [Link.owns]

lemma Link.owns_write (l : Link) : l.owns (l.target, .write) = l.writes := by
  simp [Link.owns]

lemma mem_of_link {id : ℕ} {subscript : Option Text} {l : Link} (h : s.link id subscript = some l) :
    l ∈ s.links ∧ l.holder = id ∧ l.subscript = subscript := by
  have hfound := List.find?_some h
  exact ⟨List.mem_of_find?_eq_some h, by simpa using hfound⟩

lemma acquire_link_spends {l : Link} {mode : Mode} {n : ℕ} {others : Share Token}
    (hinv : Inv writable s) (hb : Balanced accounts others s)
    (hl : l ∈ s.links) (howns : n = 0 ∨ 1 ≤ l.owns (l.target, mode)) :
    ∃ t, acquire l.target mode n s = (.ok (), t) ∧ t.links = s.links ∧ Inv writable t ∧
      Balanced accounts (others + n • one (l.target, mode)) t := by
  have hpos : n = 0 ∨ 0 < s.counts (l.target, mode) :=
    howns.imp_right fun h => Balanced.link_pos hb hl h
  exact ⟨_, acquire_of_pos hpos, rfl, hinv.counts_add hpos, balanced_add hb _⟩

lemma reference_bind_meets {α : Type} {id : ℕ} {k : ℕ → Script α} {Q : α → State → Prop}
    (h : ∀ l ∈ s.links, l.holder = id → l.subscript = none →
      Cmd.Meets (k l.target) s Q fun e _ => Excused e) :
    Cmd.Meets (reference id >>= k) s Q fun e _ => Excused e := by
  cases hl : s.link id none with
  | none =>
    have hread : reference id s =
        (.error (if (s.values id).isSome then .wrongType id else .unset id), s) := by
      simp only [reference, hl]
    refine Cmd.meets_of_error (Cmd.bind_of_error hread) ?_
    split <;> trivial
  | some l =>
    obtain ⟨hmem, hholder, hsub⟩ := mem_of_link hl
    have hread : reference id s = (.ok l.target, s) := by simp only [reference, hl]
    rw [Cmd.Meets, Cmd.bind_of_ok hread]
    exact h l hmem hholder hsub

lemma acquireRef_spends (id : ℕ) :
    Spends writable (readOf id) (acquireRef id 1 1) fun d => readOf d := by
  intro others s hinv hb
  refine reference_bind_meets fun l hmem _ _ => ?_
  have howns : 1 ≤ l.owns (l.target, .read) := by
    rw [l.owns_read]
    exact hinv.reads l hmem
  obtain ⟨t, ht, -, hinv', hb'⟩ := acquire_link_spends (n := 1) hinv hb hmem (.inr howns)
  have hdrop : Spends writable (readOf id + readOf l.target)
      (drop id .read 1 >>= fun _ => pure l.target) fun d => readOf d :=
    (drop_one_spends id .read).spend fun _ => triple_pure l.target fun d => readOf d
  rw [one_smul, add_assoc] at hb'
  rw [Cmd.Meets, Cmd.bind_of_ok ht]
  exact hdrop others t hinv' hb'

lemma acquireWriteRef_spends {id : ℕ} (hid : writable id) :
    Spends writable (readOf id) (acquireWriteRef id 1 1 1) fun d => readOf d + writeOf d := by
  intro others s hinv hb
  refine reference_bind_meets fun l hmem hholder hsub => ?_
  have hread : 1 ≤ l.owns (l.target, .read) := by
    rw [l.owns_read]
    exact hinv.reads l hmem
  have hwrite : 1 ≤ l.owns (l.target, .write) := by
    rw [l.owns_write]
    exact hinv.writes l hmem hsub (hholder ▸ hid)
  obtain ⟨t, ht, hlinks, hinv', hb'⟩ := acquire_link_spends (n := 1) hinv hb hmem (.inr hread)
  obtain ⟨u, hu, -, hinv', hb'⟩ :=
    acquire_link_spends (n := 1) hinv' hb' (hlinks ▸ hmem) (.inr hwrite)
  have hdrop : Spends writable (readOf id + (readOf l.target + writeOf l.target))
      (drop id .read 1 >>= fun _ => pure l.target) fun d => readOf d + writeOf d :=
    (drop_one_spends id .read).spend fun _ =>
      triple_pure l.target fun d => readOf d + writeOf d
  rw [one_smul, one_smul, add_assoc, add_assoc] at hb'
  rw [Cmd.Meets, Cmd.bind_of_ok ht, Cmd.bind_of_ok hu]
  exact hdrop others u hinv' hb'

lemma setReference_spends {container id : ℕ} (hid : ¬ writable id) {l : Link} {others : Share Token}
    (hinv : Inv writable s)
    (hb : Balanced accounts (others + (readOf container + writeOf id)) s)
    (hl : l ∈ s.links) :
    Cmd.Meets (setReference container l.target id) s
      (fun _ t => Inv writable t ∧ Balanced accounts others t) fun e _ => Excused e := by
  have howns : 1 ≤ l.owns (l.target, .read) := by
    rw [l.owns_read]
    exact hinv.reads l hl
  obtain ⟨t, ht, -, hinv', hb'⟩ := acquire_link_spends (n := 1) hinv hb hl (.inr howns)
  have hrun : setReference container l.target id s =
      (storeRef id l.target 1 0 >>= fun _ => drop container .read 1) t := by
    rw [setReference, Cmd.bind_of_ok ht]
  have hrest : Spends writable
      (1 • readOf l.target + 0 • writeOf l.target + writeOf id + readOf container)
      (storeRef id l.target 1 0 >>= fun _ => drop container .read 1) fun _ => 0 :=
    (storeRef_spends le_rfl fun h => absurd h hid).spend fun _ => drop_one_spends container .read
  rw [Cmd.Meets, hrun]
  refine (hrest others t hinv' ?_).mono fun _ u hu => ?_
  · have heq : others + (1 • readOf l.target + 0 • writeOf l.target + writeOf id +
        readOf container) = others + (readOf container + writeOf id) + 1 • readOf l.target := by
      rw [zero_smul]
      abel
    rw [heq]
    exact hb'
  · rwa [add_zero] at hu

lemma containerReference_spends (container : ℕ) (subscript : Text) {id : ℕ} (hid : ¬ writable id) :
    Spends writable (readOf container + writeOf id)
      (containerReference container subscript id) fun _ => 0 := by
  intro others s hinv hb
  cases hl : s.link container (some subscript) with
  | some l =>
    have hrun : containerReference container subscript id s =
        setReference container l.target id s := by
      simp only [containerReference, hl]
    have hmeets := (setReference_spends hid hinv hb (mem_of_link hl).1).mono
      (R := fun _ t => Inv writable t ∧ Balanced accounts (others + 0) t)
      fun _ t ht => ⟨ht.1, by rw [add_zero]; exact ht.2⟩
    rw [Cmd.Meets, hrun]
    exact hmeets
  | none =>
    refine Cmd.meets_of_ok
      (t := { s with waiting := ⟨container, subscript, id⟩ :: s.waiting }) (a := ())
      (by simp only [containerReference, hl])
      ⟨{ hinv with lookups := List.forall_mem_cons.mpr ⟨hid, hinv.lookups⟩ }, ?_⟩
    have hcounts : s.counts =
        others + (readOf container + writeOf id) + s.stored := hb
    change s.counts = others + 0 + (total Link.owns (s.links : Multiset Link) +
      total Waiting.owns (⟨container, subscript, id⟩ ::ₘ (s.waiting : Multiset Waiting)))
    rw [hcounts, State.stored, total_cons, Waiting.owns]
    abel

/-! ### Nested data -/

lemma one_le_initCount : 1 ≤ initCount := by decide

lemma createMember_spends (id : ℕ) (subscript : Text) (callerRead callerWrite : ℕ) :
    Spends writable 0 (createMember id subscript callerRead callerWrite)
      fun d => callerRead • readOf d + callerWrite • writeOf d := by
  have hlink : ∀ d, Spends writable
      (initCount • readOf d + initCount • writeOf d +
        (callerRead • readOf d + callerWrite • writeOf d))
      (addLink ⟨id, some subscript, d, initCount, initCount⟩ >>= fun _ => pure d)
      fun d => callerRead • readOf d + callerWrite • writeOf d := fun d =>
    (addLink_spends (l := ⟨id, some subscript, d, initCount, initCount⟩) one_le_initCount
      (by simp)).spend fun _ => triple_pure d
        fun d => callerRead • readOf d + callerWrite • writeOf d
  refine (create_spends _ _).bind fun d => (hlink d).congr ?_ fun _ => rfl
  rw [add_smul, add_smul]
  abel

lemma acquireMember_spends {l : Link} (callerRead callerWrite : ℕ) {others : Share Token}
    (hinv : Inv writable s) (hb : Balanced accounts others s) (hl : l ∈ s.links) :
    Cmd.Meets (acquireMember l callerRead callerWrite) s
      (fun d t => Inv writable t ∧
        Balanced accounts (others + (callerRead • readOf d + callerWrite • writeOf d)) t)
      fun e _ => Excused e := by
  have hread : 1 ≤ l.owns (l.target, .read) := by
    rw [l.owns_read]
    exact hinv.reads l hl
  by_cases hreadOnly : callerWrite ≠ 0 ∧ l.writes = 0
  · refine Cmd.meets_of_error (t := s) (e := .readOnly l.target) ?_ trivial
    simp only [acquireMember, if_pos hreadOnly]
    rfl
  · have hwrite : callerWrite = 0 ∨ 1 ≤ l.owns (l.target, .write) := by
      rw [l.owns_write]
      omega
    obtain ⟨t, ht, hlinks, hinv', hb'⟩ :=
      acquire_link_spends (n := callerRead) hinv hb hl (.inr hread)
    obtain ⟨u, hu, -, hinv', hb'⟩ :=
      acquire_link_spends (n := callerWrite) hinv' hb' (hlinks ▸ hl) hwrite
    have hrun : acquireMember l callerRead callerWrite s = (.ok l.target, u) := by
      simp only [acquireMember, if_neg hreadOnly]
      rw [Cmd.bind_of_ok ht, Cmd.bind_of_ok hu]
      rfl
    refine Cmd.meets_of_ok hrun ⟨hinv', ?_⟩
    rw [add_assoc] at hb'
    exact hb'

lemma nestedDatum_spends (id : ℕ) (subscript : Text) (callerRead callerWrite : ℕ) :
    Spends writable 0 (nestedDatum id subscript callerRead callerWrite)
      fun d => callerRead • readOf d + callerWrite • writeOf d := by
  intro others s hinv hb
  cases hl : s.link id (some subscript) with
  | some l =>
    have hrun : nestedDatum id subscript callerRead callerWrite s =
        acquireMember l callerRead callerWrite s := by
      simp only [nestedDatum, hl]
    rw [add_zero] at hb
    rw [Cmd.Meets, hrun]
    exact acquireMember_spends callerRead callerWrite hinv hb (mem_of_link hl).1
  | none =>
    have hrun : nestedDatum id subscript callerRead callerWrite s =
        createMember id subscript callerRead callerWrite s := by
      simp only [nestedDatum, hl]
    rw [Cmd.Meets, hrun]
    exact createMember_spends id subscript callerRead callerWrite others s hinv hb

lemma createNested_spends (id : ℕ) (subscript : Text)
    (callerRead callerWrite decrWrite decrRead : ℕ) :
    Spends writable (max 1 decrWrite • writeOf id + decrRead • readOf id)
      (createNested id subscript callerRead callerWrite decrWrite decrRead)
      fun d => callerRead • readOf d + callerWrite • writeOf d +
        (1 - decrWrite) • writeOf id := by
  have hdrops : ∀ d, Spends writable
      (decrWrite • writeOf id + (decrRead • readOf id +
        (callerRead • readOf d + callerWrite • writeOf d)))
      (drop id .write decrWrite >>= fun _ => drop id .read decrRead >>= fun _ => pure d)
      fun d => callerRead • readOf d + callerWrite • writeOf d := fun d =>
    (drop_spends id .write decrWrite).spend fun _ => (drop_spends id .read decrRead).spend fun _ =>
      triple_pure d fun d => callerRead • readOf d + callerWrite • writeOf d
  have hnested := (nestedDatum_spends id subscript callerRead
    callerWrite).seq (f := decrWrite • writeOf id + decrRead • readOf id)
    fun d => (hdrops d).congr (by abel) fun _ => rfl
  exact checkOpen_bind_spends (hnested.congr (zero_add _).symm fun _ => rfl)

/-! ### Other commands -/

lemma containerSize_spends (id : ℕ) :
    Spends writable (readOf id) (containerSize id 1) fun _ => 0 :=
  (countMembers_spends id).query fun n => (drop_one_spends id .read).bind fun _ => triple_return n 0

lemma existsSub_spends (id : ℕ) (subscript : Text) :
    Spends writable (readOf id) (existsSub id subscript 1) fun _ => 0 :=
  (hasMember_spends id subscript).query fun b =>
    (drop_one_spends id .read).bind fun _ => triple_return b 0

end Turbine.References
