import Turbine.References.Runs

/-! What is left of a run when the program has kept nothing: rules fire, lookups are served,
containers are closed and data are deleted until nothing is left, unless the program has made a
mistake or waits for itself. -/

namespace Turbine.References

open Turbine.Library Shares

variable {writable : ℕ → Prop} {sys sys' : System}

def Ready (s : State) (call : Call) : Prop := ∀ i ∈ call.inputs, s.counts (i, .write) = 0

/-- A step that has something to do. -/
inductive Advance : System → System → Prop
  | fire {sys : System} {call : Call} {rest new : Multiset Call} {t : State} :
      sys.rules = call ::ₘ rest → Ready sys.store call → call.body sys.store = (.ok new, t) →
      Advance sys ⟨t, sys.kept, new + rest⟩
  | serve {sys : System} {w : Waiting} {l : Link} {t : State} : w ∈ sys.store.waiting →
      sys.store.link w.container (some w.subscript) = some l →
      sys.store.serve w l = (.ok (), t) → Advance sys { sys with store := t }
  | close {sys : System} (id : ℕ) : sys.store.counts (id, .write) = 0 →
      (∃ l ∈ sys.store.links, l.MemberOf id ∧ l.writes ≠ 0) →
      Advance sys { sys with store := sys.store.close id }
  | collect {sys : System} (id : ℕ) : (∀ mode, sys.store.counts (id, mode) = 0) →
      (∃ l ∈ sys.store.links, l.holder = id) →
      Advance sys { sys with store := sys.store.collect id }

lemma Advance.step (h : Advance sys sys') : Step writable sys sys' := by
  cases h with
  | fire hrules hready hrun => exact .fire hrules hready hrun
  | serve hw hl hrun => exact .serve hw hl hrun
  | close id hid _ => exact .close id hid
  | collect id hid _ => exact .collect id hid

/-! ### What is left -/

/-- What a link has left to do: it is deleted, and before that its write references may be dropped. -/
def Link.left (l : Link) : ℕ := if l.subscript ≠ none ∧ l.writes ≠ 0 then 2 else 1

def State.left (s : State) : ℕ := (s.links.map Link.left).sum + 2 * s.waiting.length

/-- A dereference makes another rule. -/
def Call.left : Call → ℕ
  | dereference _ _ _ => 5
  | _ => 4

def System.left (sys : System) : ℕ := (sys.rules.map Call.left).sum + sys.store.left

/-- The command adds at most `n` to what is left. -/
def Adds {α : Type} (n : ℕ) (c : Script α) : Prop := ∀ s, (c s).2.left ≤ s.left + n

section Adds

variable {α β : Type} {m n : ℕ} {c : Script α}

lemma adds_pure (a : α) : Adds 0 (pure a : Script α) := fun _ => le_rfl

lemma adds_throw (e : Stop) : Adds 0 (Cmd.throw e : Script α) := fun _ => le_rfl

lemma Adds.bind {k : α → Script β} (hc : Adds m c) (hk : ∀ a, Adds n (k a)) :
    Adds (m + n) (c >>= k) := by
  intro s
  have hs := hc s
  rcases hcs : c s with ⟨e | a, t⟩ <;> rw [hcs] at hs
  · rw [Cmd.bind_of_error hcs]
    dsimp only at hs ⊢
    omega
  · rw [Cmd.bind_of_ok hcs]
    have ht := hk a t
    dsimp only at hs
    omega

lemma Adds.le {s t : State} {r : Except Stop α} (hc : Adds n c) (h : c s = (r, t)) :
    t.left ≤ s.left + n := by
  have hle := hc s
  rwa [h] at hle

lemma Adds.mono (hc : Adds m c) (h : m ≤ n) : Adds n c := fun s => (hc s).trans (by omega)

lemma adds_zero (h : ∀ s, (c s).2.links = s.links ∧ (c s).2.waiting = s.waiting) : Adds 0 c := by
  intro s
  rw [State.left, State.left, (h s).1, (h s).2]
  rfl

lemma acquire_adds (id : ℕ) (mode : Mode) (k : ℕ) : Adds 0 (acquire id mode k) :=
  adds_zero fun s => by rw [acquire]; split_ifs <;> exact ⟨rfl, rfl⟩

lemma drop_adds (id : ℕ) (mode : Mode) (k : ℕ) : Adds 0 (drop id mode k) :=
  adds_zero fun s => by rw [drop]; split_ifs <;> exact ⟨rfl, rfl⟩

lemma setValue_adds (id : ℕ) (value : Text) : Adds 0 (setValue id value) :=
  adds_zero fun s => by rw [setValue]; split_ifs <;> exact ⟨rfl, rfl⟩

lemma retrieve_adds (id : ℕ) : Adds 0 (retrieve id) :=
  adds_zero fun s => by rw [retrieve]; split <;> exact ⟨rfl, rfl⟩

lemma reference_adds (id : ℕ) : Adds 0 (reference id) :=
  adds_zero fun s => by rw [reference]; split <;> exact ⟨rfl, rfl⟩

lemma checkOpen_adds (id : ℕ) : Adds 0 (checkOpen id) :=
  adds_zero fun s => by rw [checkOpen]; split_ifs <;> exact ⟨rfl, rfl⟩

lemma addLink_adds (l : Link) : Adds l.left (addLink l) := by
  intro s
  rw [addLink]
  split_ifs
  · exact Nat.le_add_right _ _
  · simp only [State.left, List.map_cons, List.sum_cons]
    omega

lemma Link.left_le (l : Link) : l.left ≤ 2 := by
  rw [left]
  split_ifs <;> omega

lemma retrieveDecr_adds (id : ℕ) : Adds 0 (retrieveDecr id) :=
  (retrieve_adds id).bind fun _ => (drop_adds id .read 1).bind fun _ => adds_pure _

lemma storeValue_adds (id : ℕ) (value : Text) : Adds 0 (storeValue id value) :=
  (setValue_adds id value).bind fun _ => drop_adds id .write 1

lemma storeRef_adds (id target reads writes : ℕ) : Adds 1 (storeRef id target reads writes) :=
  (addLink_adds ⟨id, none, target, reads, writes⟩).bind fun _ => drop_adds id .write 1

lemma acquireRef_adds (id : ℕ) : Adds 0 (acquireRef id 1 1) :=
  (reference_adds id).bind fun d => (acquire_adds d .read 1).bind fun _ =>
    (drop_adds id .read 1).bind fun _ => adds_pure _

lemma acquireWriteRef_adds (id : ℕ) : Adds 0 (acquireWriteRef id 1 1 1) :=
  (reference_adds id).bind fun d => (acquire_adds d .read 1).bind fun _ =>
    (acquire_adds d .write 1).bind fun _ => (drop_adds id .read 1).bind fun _ => adds_pure _

lemma adlbInsert_adds (id : ℕ) (subscript : Text) (member writeDecr readDecr : ℕ) :
    Adds 1 (adlbInsert id subscript member writeDecr readDecr) :=
  (checkOpen_adds id).bind fun _ => (addLink_adds ⟨id, some subscript, member, 1, 0⟩).bind fun _ =>
    (drop_adds id .write writeDecr).bind fun _ => drop_adds id .read readDecr

lemma setReference_adds (container target id : ℕ) : Adds 1 (setReference container target id) :=
  (acquire_adds target .read 1).bind fun _ =>
    (storeRef_adds id target 1 0).bind fun _ => drop_adds container .read 1

lemma containerReference_adds (container : ℕ) (subscript : Text) (id : ℕ) :
    Adds 2 (containerReference container subscript id) := by
  intro s
  rw [containerReference]
  split
  · exact ((setReference_adds container _ id).mono (by omega)) s
  · simp only [State.left, List.length_cons]
    omega

lemma acquireMember_adds (l : Link) (callerRead callerWrite : ℕ) :
    Adds 0 (acquireMember l callerRead callerWrite) := by
  rw [acquireMember]
  split_ifs
  · exact (adds_throw _).bind fun _ => (acquire_adds _ _ _).bind fun _ =>
      (acquire_adds _ _ _).bind fun _ => adds_pure _
  · exact (acquire_adds _ _ _).bind fun _ => (acquire_adds _ _ _).bind fun _ => adds_pure _

lemma createNested_adds (id : ℕ) (subscript : Text)
    (callerRead callerWrite decrWrite decrRead : ℕ) :
    Adds 2 (createNested id subscript callerRead callerWrite decrWrite decrRead) := by
  have hcreate : Adds 2 (createMember id subscript callerRead callerWrite) := by
    have hnew : ∀ reads writes, Adds 0 (create reads writes) :=
      fun reads writes => adds_zero fun s => ⟨rfl, rfl⟩
    exact (hnew _ _).bind fun d => ((addLink_adds _).mono (Link.left_le _)).bind fun _ =>
      adds_pure _
  have hnested : Adds 2 (nestedDatum id subscript callerRead callerWrite) := by
    intro s
    rw [nestedDatum]
    split
    · exact ((acquireMember_adds _ callerRead callerWrite).mono (Nat.zero_le _)) s
    · exact hcreate s
  exact (checkOpen_adds id).bind fun _ => hnested.bind fun _ =>
    (drop_adds id .write decrWrite).bind fun _ =>
      (drop_adds id .read decrRead).bind fun _ => adds_pure _

lemma containerSize_adds (id : ℕ) : Adds 0 (containerSize id 1) :=
  (adds_zero fun _ => ⟨rfl, rfl⟩).bind fun _ => (drop_adds id .read 1).bind fun _ => adds_pure _

lemma existsSub_adds (id : ℕ) (subscript : Text) : Adds 0 (existsSub id subscript 1) :=
  (adds_zero fun _ => ⟨rfl, rfl⟩).bind fun _ => (drop_adds id .read 1).bind fun _ => adds_pure _

lemma createRef_adds (r id : ℕ) (i : Text) (decrWrite decrRead : ℕ) :
    Adds 3 (do let res ← createNested id i 1 1 decrWrite decrRead; storeRwRef r res) :=
  (createNested_adds id i 1 1 decrWrite decrRead).bind fun res => storeRef_adds r res 1 1

lemma insertRef_adds (id : ℕ) (i : Text) (r decrs readDecr : ℕ) :
    Adds 1 (do let d ← acquireRef r 1 1; adlbInsert id i d decrs readDecr) :=
  (acquireRef_adds r).bind fun d => adlbInsert_adds id i d decrs readDecr

lemma copyBody_adds (type : Copied) (o i : ℕ) : Adds 0 (copyBody type o i) := by
  have hvalue : Adds 0 (do let iValue ← retrieveDecr i; storeValue o iValue) :=
    (retrieveDecr_adds i).bind fun v => storeValue_adds o v
  cases type with
  | void => exact (storeValue_adds o _).bind fun _ => drop_adds i .read 1
  | _ => exact hvalue

lemma quiet_left_lt {body : Script Unit} (hbody : Adds 3 body) {s t : State}
    {new : Multiset Call} (h : (do body; return (0 : Multiset Call)) s = (.ok new, t)) :
    (new.map Call.left).sum + t.left < 4 + s.left := by
  have hadds : Adds 3 (do body; return (0 : Multiset Call)) := hbody.bind fun _ => adds_pure _
  have hle := hadds.le h
  obtain rfl := quiet_new h
  simp only [Multiset.map_zero, Multiset.sum_zero]
  omega

end Adds

lemma Call.body_left_lt {call : Call} {s t : State} {new : Multiset Call}
    (h : call.body s = (.ok new, t)) :
    (new.map Call.left).sum + t.left < call.left + s.left := by
  cases call with
  | cFInsert id i d decrs incr =>
    have hbody := (retrieveDecr_adds i).bind fun s => adlbInsert_adds id s d decrs 0
    exact quiet_left_lt (hbody.mono (by omega)) h
  | cFInsertR id i r decrs incr =>
    have hbody := (retrieveDecr_adds i).bind fun t1 => insertRef_adds id t1 r decrs 0
    exact quiet_left_lt (hbody.mono (by omega)) h
  | cVInsertR id i r decrs incr =>
    exact quiet_left_lt ((insertRef_adds id i r decrs 0).mono (by omega)) h
  | cFLookup id i r =>
    have hbody := (retrieveDecr_adds i).bind fun t1 => containerReference_adds id t1 r
    exact quiet_left_lt (hbody.mono (by omega)) h
  | dereference type v r =>
    obtain ⟨made, u, hmade, hu⟩ := Cmd.bind_eq_ok.mp h
    obtain ⟨id, u', hacquire, hid⟩ := Cmd.bind_eq_ok.mp hmade
    have hle := (acquireRef_adds r).le hacquire
    cases hu
    cases hid
    simp only [Multiset.map_singleton, Multiset.sum_singleton, left]
    omega
  | copy type o i => exact quiet_left_lt ((copyBody_adds type o i).mono (by omega)) h
  | crVLookup cr i d =>
    have hbody := (acquireRef_adds cr).bind fun id => containerReference_adds id i d
    exact quiet_left_lt (hbody.mono (by omega)) h
  | crFLookup cr i d =>
    have hbody := (acquireRef_adds cr).bind fun id => (retrieveDecr_adds i).bind fun t1 =>
      containerReference_adds id t1 d
    exact quiet_left_lt (hbody.mono (by omega)) h
  | crFInsert cr j d =>
    have hbody := (acquireWriteRef_adds cr).bind fun id => (retrieveDecr_adds j).bind fun s =>
      adlbInsert_adds id s d 1 1
    exact quiet_left_lt (hbody.mono (by omega)) h
  | crVInsert cr j d =>
    have hbody := (acquireWriteRef_adds cr).bind fun id => adlbInsert_adds id j d 1 1
    exact quiet_left_lt (hbody.mono (by omega)) h
  | crVInsertR cr j dr =>
    have hbody := (acquireWriteRef_adds cr).bind fun id => insertRef_adds id j dr 1 1
    exact quiet_left_lt (hbody.mono (by omega)) h
  | crFInsertR cr j dr =>
    have hbody := (acquireWriteRef_adds cr).bind fun id => (acquireRef_adds dr).bind fun d =>
      (retrieveDecr_adds j).bind fun jval => adlbInsert_adds id jval d 1 1
    exact quiet_left_lt (hbody.mono (by omega)) h
  | cFCreate r id i decrWrite decrRead =>
    have hbody := (retrieveDecr_adds i).bind fun s => createRef_adds r id s decrWrite decrRead
    exact quiet_left_lt (hbody.mono (by omega)) h
  | crVCreate r cr i =>
    have hbody := (acquireWriteRef_adds cr).bind fun id => createRef_adds r id i 1 1
    exact quiet_left_lt (hbody.mono (by omega)) h
  | crFCreate r cr i =>
    have hbody := (acquireWriteRef_adds cr).bind fun id => (retrieveDecr_adds i).bind fun s =>
      createRef_adds r id s 1 1
    exact quiet_left_lt (hbody.mono (by omega)) h
  | containerSize result container =>
    have hbody := (containerSize_adds container).bind fun sz =>
      storeValue_adds result (Nat.toDigits 10 sz)
    exact quiet_left_lt (hbody.mono (by omega)) h
  | existsMember result id i | contains result id i =>
    have hbody := (retrieveDecr_adds i).bind fun s => (existsSub_adds id s).bind fun present =>
      storeValue_adds result (if present then ['1'] else ['0'])
    exact quiet_left_lt (hbody.mono (by omega)) h
  | structrefReference structr subscript result =>
    have hbody := (acquireRef_adds structr).bind fun id =>
      containerReference_adds id subscript result
    exact quiet_left_lt (hbody.mono (by omega)) h
  | structInsertR struct subscript r decrs incr =>
    exact quiet_left_lt ((insertRef_adds struct subscript r decrs 0).mono (by omega)) h

lemma serve_left_lt {s t : State} {w : Waiting} {l : Link} (hw : w ∈ s.waiting)
    (h : s.serve w l = (.ok (), t)) : t.left < s.left := by
  have hle := (setReference_adds w.container l.target w.reference).le h
  have hlen := List.length_erase_of_mem hw
  have hpos : 0 < s.waiting.length := List.length_pos_of_mem hw
  simp only [State.left] at hle ⊢
  omega

lemma close_left_lt {s : State} {id : ℕ} (h : ∃ l ∈ s.links, l.MemberOf id ∧ l.writes ≠ 0) :
    (s.close id).left < s.left := by
  have hle : ∀ l : Link, (l.release id).left ≤ l.left := by
    intro l
    rw [Link.release]
    split_ifs
    · simp only [Link.left]
      split_ifs <;> simp_all
    · exact le_rfl
  have hsum : (s.links.map fun l => (l.release id).left).sum < (s.links.map Link.left).sum := by
    obtain ⟨l, hl, hmember, hwrites⟩ := h
    refine List.sum_lt_sum _ _ (fun l _ => hle l) ⟨l, hl, ?_⟩
    simp [Link.release, hmember, Link.left, hmember.2, hwrites]
  have hmap : (s.close id).links.map Link.left = s.links.map fun l => (l.release id).left :=
    List.map_map
  simp only [State.left, hmap]
  have hwaiting : (s.close id).waiting = s.waiting := rfl
  rw [hwaiting]
  omega

lemma collect_left_lt {s : State} {id : ℕ} (h : ∃ l ∈ s.links, l.holder = id) :
    (s.collect id).left < s.left := by
  obtain ⟨l, hl, hholder⟩ := h
  have hsplit := congrArg (fun links => (links.map Link.left).sum) (links_split s.links id)
  simp only [Multiset.map_add, Multiset.sum_add, Multiset.map_coe, Multiset.sum_coe] at hsplit
  have hmem : l.left ∈ (s.links.filter fun l => l.holder = id).map Link.left :=
    List.mem_map_of_mem (List.mem_filter.mpr ⟨hl, by simpa using hholder⟩)
  have hle := List.le_sum_of_mem hmem
  have hpos : 1 ≤ l.left := by
    rw [Link.left]
    split_ifs <;> omega
  simp only [State.left, State.collect]
  omega

lemma Advance.left_lt (h : Advance sys sys') : sys'.left < sys.left := by
  cases h with
  | fire hrules _ hrun =>
    have hlt := Call.body_left_lt hrun
    rw [System.left, System.left, hrules, Multiset.map_add, Multiset.sum_add, Multiset.map_cons,
      Multiset.sum_cons]
    dsimp only
    omega
  | serve hw _ hrun => exact Nat.add_lt_add_left (serve_left_lt hw hrun) _
  | close id _ hlink => exact Nat.add_lt_add_left (close_left_lt hlink) _
  | collect id _ hlink => exact Nat.add_lt_add_left (collect_left_lt hlink) _

/-! ### What stops a run -/

/-- A rule or a lookup that fails, or one that waits for a member that a closed container has not. -/
inductive Mistake (sys : System) : Prop
  | fire {call : Call} {e : Stop} {t : State} : call ∈ sys.rules → Ready sys.store call →
      call.body sys.store = (.error e, t) → Excused e → Mistake sys
  | serve {w : Waiting} {l : Link} {e : Stop} {t : State} : w ∈ sys.store.waiting →
      sys.store.link w.container (some w.subscript) = some l →
      sys.store.serve w l = (.error e, t) → Excused e → Mistake sys
  | missing {w : Waiting} : w ∈ sys.store.waiting →
      sys.store.counts (w.container, .write) = 0 →
      sys.store.link w.container (some w.subscript) = none → Mistake sys

/-- Nothing waits for itself: what a rule owns comes after its inputs, what a lookup owns after its
container, and what a stored reference owns after its holder. -/
structure Ranked (rank : Token → ℕ) (sys : System) : Prop where
  rules : ∀ call ∈ sys.rules, ∀ i ∈ call.inputs, ∀ token, call.owns token ≠ 0 →
    rank (i, .write) < rank token
  lookups : ∀ w ∈ sys.store.waiting, ∀ token, w.owns token ≠ 0 →
    rank (w.container, .write) < rank token
  links : ∀ l ∈ sys.store.links, ∀ token, l.owns token ≠ 0 → ∀ mode,
    l.subscript = none ∨ token.2 = .read ∨ mode = .write → rank (l.holder, mode) < rank token

structure Empty (sys : System) : Prop where
  rules : sys.rules = 0
  links : sys.store.links = []
  waiting : sys.store.waiting = []
  counts : sys.store.counts = 0

section Progress

variable {rank : Token → ℕ}

lemma Sound.fire_or (h : Sound writable sys) {call : Call} (hcall : call ∈ sys.rules)
    (hready : Ready sys.store call) : (∃ sys', Advance sys sys') ∨ Mistake sys := by
  obtain ⟨rest, hrules⟩ := Multiset.exists_cons_of_mem hcall
  rcases hrun : call.body sys.store with ⟨e | new, t⟩
  · have hexcused := Cmd.Meets.of_error (h.fire_meets hrules) hrun
    exact .inr (.fire hcall hready hrun hexcused)
  · exact .inl ⟨_, .fire hrules hready hrun⟩

lemma Sound.serve_or (h : Sound writable sys) {w : Waiting} (hw : w ∈ sys.store.waiting)
    (hclosed : sys.store.counts (w.container, .write) = 0) :
    (∃ sys', Advance sys sys') ∨ Mistake sys := by
  cases hl : sys.store.link w.container (some w.subscript) with
  | none => exact .inr (.missing hw hclosed hl)
  | some l =>
    have hmeets := serve_meets h.store h.balanced hw hl
    rcases hrun : sys.store.serve w l with ⟨e | ⟨⟩, t⟩
    · have hexcused := Cmd.Meets.of_error hmeets hrun
      exact .inr (.serve hw hl hrun hexcused)
    · exact .inl ⟨_, .serve hw hl hrun⟩

lemma link_owns_ne_zero {l : Link} {token : Token} (h : l.owns token ≠ 0) :
    token.2 = .read ∨ l.writes ≠ 0 := by
  obtain ⟨id, mode⟩ := token
  cases mode with
  | read => exact .inl rfl
  | write =>
    refine .inr fun hzero => h ?_
    simp [Link.owns, hzero]

/-- By what it waits for, a count that is not zero leads to something that can be done. -/
lemma Sound.advance_or (h : Sound writable sys) (hkept : sys.kept = 0) (hrank : Ranked rank sys)
    (token : Token) (htoken : sys.store.counts token ≠ 0) :
    (∃ sys', Advance sys sys') ∨ Mistake sys := by
  induction hn : rank token using Nat.strong_induction_on generalizing token with
  | _ n ih =>
    subst hn
    by_contra hstuck
    have hless : ∀ token', rank token' < rank token → sys.store.counts token' = 0 := by
      intro token' hlt
      by_contra hne
      exact hstuck (ih _ hlt token' hne rfl)
    refine htoken ((h.counts_eq_zero_iff token).mpr ⟨?_, fun call hcall => ?_, fun l hl => ?_,
      fun w hw => ?_⟩)
    · rw [hkept]
      rfl
    · by_contra howns
      have hready : Ready sys.store call := fun i hi =>
        hless _ (hrank.rules call hcall i hi token howns)
      exact hstuck (h.fire_or hcall hready)
    · by_contra howns
      have hclosed : sys.store.counts (l.holder, .write) = 0 :=
        hless _ (hrank.links l hl token howns .write (.inr (.inr rfl)))
      by_cases hrelease : l.subscript ≠ none ∧ token.2 ≠ .read
      · -- the holder has not dropped its write references yet
        have hwrites := (link_owns_ne_zero howns).resolve_left hrelease.2
        exact hstuck (.inl ⟨_, .close l.holder hclosed ⟨l, hl, ⟨rfl, hrelease.1⟩, hwrites⟩⟩)
      · have hread : sys.store.counts (l.holder, .read) = 0 := by
          refine hless _ (hrank.links l hl token howns .read ?_)
          by_cases hsub : l.subscript = none
          · exact .inl hsub
          · exact .inr (.inl (not_not.mp fun hmode => hrelease ⟨hsub, hmode⟩))
        have hgone : ∀ mode, sys.store.counts (l.holder, mode) = 0 := by
          intro mode
          cases mode with
          | read => exact hread
          | write => exact hclosed
        exact hstuck (.inl ⟨_, .collect l.holder hgone ⟨l, hl, rfl⟩⟩)
    · by_contra howns
      exact hstuck (h.serve_or hw (hless _ (hrank.lookups w hw token howns)))

end Progress

/-! ### Ends -/

lemma Call.owns_input (call : Call) : ∀ i ∈ call.inputs, call.owns (i, .read) ≠ 0 := by
  intro i hi
  cases call <;> simp only [inputs, List.mem_cons, List.not_mem_nil, or_false] at hi <;>
    rcases hi with rfl | rfl | rfl <;> simp [owns]

lemma Call.inputs_ne_nil (call : Call) : call.inputs ≠ [] := by
  cases call <;> simp [inputs]

lemma Sound.empty (h : Sound writable sys) (hcounts : sys.store.counts = 0) : Empty sys := by
  have hzero : ∀ token, sys.store.counts token = 0 := fun token => by rw [hcounts]; rfl
  refine ⟨?_, ?_, ?_, hcounts⟩
  · refine Multiset.eq_zero_of_forall_notMem fun call hcall => ?_
    obtain ⟨i, hi⟩ := List.exists_mem_of_ne_nil _ call.inputs_ne_nil
    have hnone := ((h.counts_eq_zero_iff (i, .read)).mp (hzero _)).2.1 call hcall
    exact call.owns_input i hi hnone
  · refine List.eq_nil_iff_forall_not_mem.mpr fun l hl => ?_
    have hnone := ((h.counts_eq_zero_iff (l.target, .read)).mp (hzero _)).2.2.1 l hl
    have hreads := h.store.reads l hl
    rw [l.owns_read] at hnone
    omega
  · refine List.eq_nil_iff_forall_not_mem.mpr fun w hw => ?_
    have hnone := ((h.counts_eq_zero_iff (w.container, .read)).mp (hzero _)).2.2.2 w hw
    simp [Waiting.owns] at hnone

lemma Advance.kept (h : Advance sys sys') : sys'.kept = sys.kept := by
  cases h <;> rfl

/-- What is left comes to an end. Where no step has anything to do any more, nothing is left, unless
the program has made a mistake or something waits for itself. -/
structure Completes (sys : System) : Prop where
  decreases : ∀ sys' next, Relation.ReflTransGen Advance sys sys' → Advance sys' next →
    next.left < sys'.left
  ends : ∀ sys', Relation.ReflTransGen Advance sys sys' → (¬ ∃ next, Advance sys' next) →
    Empty sys' ∨ Mistake sys' ∨ ¬ ∃ rank, Ranked rank sys'

end Turbine.References
