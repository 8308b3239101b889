import Mathlib
import Turbine.Async.Model
import Turbine.Library.Ring

/-! The ring of get requests refines a queue: requests are answered and their tasks evaluated in
the order they were issued, and a buffer is lent to one request at a time. -/

namespace Turbine.Async

open Turbine.Library.Programs
open Turbine.Library

variable {Buf : Type}

/-- A request, the buffer it was issued with and the task it was answered with. -/
structure Issued (Buf : Type) where
  req : Req
  buf : Buf
  answer : Option String

/-- What ADLB and the interpreter see of the worker: the requests whose tasks have not been
evaluated, oldest first, and those whose tasks have. Requests are named in the order of issue. -/
structure GetQueue (Buf : Type) where
  issued : ℕ
  pending : List (Issued Buf)
  evaluated : List Req
  payload : Buf → String

def lend : ℕ → List Buf → List (Issued Buf)
  | _, [] => []
  | req, buf :: bufs => ⟨req, buf, none⟩ :: lend (req + 1) bufs

def GetQueue.issue (q : GetQueue Buf) (bufs : List Buf) : GetQueue Buf :=
  { q with issued := q.issued + bufs.length, pending := q.pending ++ lend q.issued bufs }

-- the text arrives in the buffer of the request; what the other buffers hold is not known
def GetQueue.answer (q : GetQueue Buf) (req : Option Req) (text : String)
    (payload : Buf → String) : GetQueue Buf :=
  { q with
    pending := q.pending.map fun e => if some e.req = req then { e with answer := some text } else e
    payload := payload }

def GetQueue.evaluate (q : GetQueue Buf) : GetQueue Buf :=
  { q with
    pending := q.pending.tail
    evaluated := q.evaluated ++ q.pending.head?.toList.map (·.req) }

-- a text is sent with the byte that ends it
def answered (q : GetQueue Buf) (req : Option Req) (workLen : ℤ) (q' : GetQueue Buf) : Prop :=
  ∃ text payload, workLen = text.length + 1 ∧
    (∀ e ∈ q.pending, some e.req = req → payload e.buf = text) ∧ q' = q.answer req text payload

def ringReply (q : GetQueue Buf) : (c : ExecCall Buf) → c.Ret → GetQueue Buf → Prop
  | .amget extra _ bufs, r, q' =>
    if r.1 = .error then q' = q
    else r.2 = List.range' q.issued extra ∧ q' = q.issue bufs
  | .agetTest req, r, q' => if r.1 = .success then answered q req r.2 q' else q' = q
  | .agetWait req, r, q' => if r.1 = .success then answered q req r.2 q' else q' = q
  | .evalTask _ _, rc, q' => if rc = .ok then q' = q.evaluate else q' = q
  | _, _, q' => q' = q

def ringWorld : World (GetQueue Buf) (Memory Buf × ExecCall Buf) fun mc => mc.2.Ret where
  reply q mc r q' := ringReply q mc.2 r q'

/-- How the ring of the worker lays out the queue. -/
structure RingInv (m : Memory Buf) (q : GetQueue Buf) : Prop where
  nreqs_eq : m.nreqs = q.pending.length
  nreqs_le : m.nreqs ≤ m.maxReqs
  head_eq : m.head = (m.tail + m.nreqs) % m.maxReqs
  tail_lt : m.tail < m.maxReqs
  buffers_inj : Set.InjOn m.buffers (Set.Iio m.maxReqs)
  requests : Ring.Holds m.requests m.maxReqs m.tail (q.pending.map fun e => some e.req)
  buffers : Ring.Holds m.buffers m.maxReqs m.tail (q.pending.map (·.buf))
  order : q.evaluated ++ q.pending.map (·.req) = List.range q.issued

def GetQueue.Idle (q : GetQueue Buf) : Prop := ∀ e ∈ q.pending, e.answer = none

-- a request is tested while it is the oldest and unanswered, a task is evaluated once its request
-- is answered, and the buffers lent to ADLB are new ones
def ringKept (q : GetQueue Buf) (mc : Memory Buf × ExecCall Buf) : Prop :=
  RingInv mc.1 q ∧
    match mc.2 with
    | .amget extra _ bufs => bufs.length = extra ∧ (q.pending.map (·.buf) ++ bufs).Nodup
    | .agetTest req | .agetWait req =>
      ∃ e rest, q.pending = e :: rest ∧ req = some e.req ∧ e.answer = none
    | .evalTask work cmdLen =>
      ∃ e rest text, q.pending = e :: rest ∧ e.answer = some text ∧ work = e.buf ∧
        q.payload work = text ∧ cmdLen = text.length
    | _ => True

/-- Calls of `get_tasks` one after the other, until one of them fails. -/
def getTasksCalls : List (Bool × ℤ) → Worker Buf ExecCode
  | [] => pure .success
  | (poll, maxTasks) :: calls => do
    let (ec, _) ← getTasks poll maxTasks false
    if ec = .success ∨ ec = .shutdown then getTasksCalls calls else pure ec

/-! ### Issuing requests -/

lemma storeRequests_fields (reqs : List Req) (m : Memory Buf) :
    (m.storeRequests reqs).buffers = m.buffers ∧ (m.storeRequests reqs).maxReqs = m.maxReqs ∧
      (m.storeRequests reqs).tail = m.tail := by
  induction reqs generalizing m with
  | nil => exact ⟨rfl, rfl, rfl⟩
  | cons req reqs ih => exact ih _

-- storing at the head pushes onto the queue that ends there
lemma storeRequests_holds {m : Memory Buf} {xs : List (Option Req)} (reqs : List Req)
    (hx : Ring.Holds m.requests m.maxReqs m.tail xs)
    (hhead : m.head = (m.tail + xs.length) % m.maxReqs)
    (hlen : xs.length + reqs.length ≤ m.maxReqs) :
    Ring.Holds (m.storeRequests reqs).requests m.maxReqs m.tail (xs ++ reqs.map some) ∧
      (m.storeRequests reqs).head = (m.tail + (xs.length + reqs.length)) % m.maxReqs := by
  induction reqs generalizing m xs with
  | nil => simpa [Memory.storeRequests] using ⟨hx, hhead⟩
  | cons req reqs ih =>
    simp only [List.length_cons] at hlen
    have hpush := hx.push (by omega) (some req)
    rw [← hhead] at hpush
    let m' : Memory Buf := { m with requests := Function.update m.requests m.head (some req)
                                    head := (m.head + 1) % m.maxReqs }
    have hhead' : m'.head = (m'.tail + (xs ++ [some req]).length) % m'.maxReqs := by
      simp only [m', hhead, List.length_append, List.length_singleton, Nat.mod_add_mod,
        Nat.add_assoc]
    have hlen' : (xs ++ [some req]).length + reqs.length ≤ m'.maxReqs := by
      simp only [m', List.length_append, List.length_singleton]
      omega
    have hnext := ih hpush hhead' hlen'
    simp only [List.append_assoc, List.singleton_append, List.length_append,
      List.length_singleton] at hnext
    refine ⟨hnext.1, hnext.2.trans ?_⟩
    simp only [m', List.length_cons]
    congr 2
    omega

lemma lend_req (req : ℕ) (bufs : List Buf) :
    (lend req bufs).map (·.req) = List.range' req bufs.length := by
  induction bufs generalizing req with
  | nil => rfl
  | cons buf bufs ih => simp [lend, ih, List.range'_succ]

lemma lend_buf (req : ℕ) (bufs : List Buf) : (lend req bufs).map (·.buf) = bufs := by
  induction bufs generalizing req with
  | nil => rfl
  | cons buf bufs ih => simp [lend, ih]

lemma lend_answer (req : ℕ) (bufs : List Buf) : ∀ e ∈ lend req bufs, e.answer = none := by
  induction bufs generalizing req with
  | nil => simp [lend]
  | cons buf bufs ih => simpa [lend] using ih (req + 1)

lemma tmpBufs_holds (m : Memory Buf) (extra : ℕ) :
    Ring.Holds m.buffers m.maxReqs m.head (m.tmpBufs extra) := by
  intro i hi
  simp [Memory.tmpBufs]

lemma tmpBufs_length (m : Memory Buf) (extra : ℕ) : (m.tmpBufs extra).length = extra := by
  simp [Memory.tmpBufs]

lemma RingInv.lent {m : Memory Buf} {q : GetQueue Buf} (h : RingInv m q) (extra : ℕ) :
    Ring.Holds m.buffers m.maxReqs m.tail (q.pending.map (·.buf) ++ m.tmpBufs extra) := by
  apply Ring.holds_append h.buffers
  rw [List.length_map, ← h.nreqs_eq, ← h.head_eq]
  exact tmpBufs_holds m extra

lemma RingInv.issue {m : Memory Buf} {q : GetQueue Buf} (h : RingInv m q) {extra : ℕ}
    (hextra : m.nreqs + extra ≤ m.maxReqs) :
    RingInv { m.storeRequests (List.range' q.issued extra) with nreqs := m.nreqs + extra }
      (q.issue (m.tmpBufs extra)) := by
  obtain ⟨hbuffers, hmax, htail⟩ := storeRequests_fields (List.range' q.issued extra) m
  have hn := h.nreqs_eq
  have hhead := h.head_eq
  rw [hn] at hhead
  obtain ⟨hholds, hend⟩ := storeRequests_holds (List.range' q.issued extra) h.requests
    (by simpa using hhead) (by simp; omega)
  refine ⟨?_, ?_, ?_, ?_, ?_, ?_, ?_, ?_⟩
  · have hl := congrArg List.length (lend_buf q.issued (m.tmpBufs extra))
    simp only [List.length_map, tmpBufs_length] at hl
    simp [GetQueue.issue, hl, hn]
  · simpa [hmax] using hextra
  · simpa [hmax, htail, hn] using hend
  · simpa [hmax, htail] using h.tail_lt
  · simpa [hmax, hbuffers] using h.buffers_inj
  · have hreqs : (q.issue (m.tmpBufs extra)).pending.map (fun e => some e.req) =
        q.pending.map (fun e => some e.req) ++ (List.range' q.issued extra).map some := by
      have hl := lend_req q.issued (m.tmpBufs extra)
      rw [tmpBufs_length] at hl
      simp [GetQueue.issue, ← hl]
    simpa [hreqs, hmax, htail] using hholds
  · have hbufs : (q.issue (m.tmpBufs extra)).pending.map (·.buf) =
        q.pending.map (·.buf) ++ m.tmpBufs extra := by
      simp [GetQueue.issue, lend_buf]
    simpa [hbufs, hmax, htail, hbuffers] using h.lent extra
  · simp only [GetQueue.issue, List.map_append, lend_req, tmpBufs_length, ← List.append_assoc,
      h.order, List.range_eq_range']
    have happend := List.range'_append_1 (s := 0) (m := q.issued) (n := extra)
    rwa [Nat.zero_add] at happend

lemma issue_ring {extraReqs : ℤ} {poll : Bool} {m : Memory Buf} {q : GetQueue Buf}
    (h : RingInv m q) (hidle : q.Idle) (hextra : m.nreqs + extraReqs ≤ m.maxReqs) :
    (issue extraReqs poll).Meets ringWorld ringKept
      (fun _ m' q' => RingInv m' q' ∧ q'.Idle) m q := by
  simp only [issue]
  split
  · have hlen : m.nreqs + extraReqs.toNat ≤ m.maxReqs := by omega
    have hnodup := (h.lent extraReqs.toNat).nodup h.buffers_inj
      (by simpa [tmpBufs_length, ← h.nreqs_eq] using hlen)
    simp only [Code.meets_bind, Code.meets_get, Code.meets_ask]
    refine ⟨⟨h, tmpBufs_length m _, hnodup⟩, ?_⟩
    rintro ⟨ac, tmpReqs⟩ q' hreply
    simp only [ringWorld, ringReply] at hreply
    split
    · rename_i hac
      rw [if_pos hac] at hreply
      exact hreply ▸ ⟨h, hidle⟩
    · rename_i hac
      rw [if_neg hac] at hreply
      obtain ⟨rfl, rfl⟩ := hreply
      refine ⟨h.issue hlen, ?_⟩
      intro e he
      rcases List.mem_append.mp he with he | he
      · exact hidle e he
      · exact lend_answer _ _ e he
  · exact ⟨h, hidle⟩

/-! ### Answering requests -/

lemma answer_req (q : GetQueue Buf) (req : Option Req) (text : String) (payload : Buf → String) :
    (q.answer req text payload).pending.map (·.req) = q.pending.map (·.req) := by
  simp only [GetQueue.answer, List.map_map]
  apply List.map_congr_left
  intro e _
  simp only [Function.comp_apply]
  split <;> rfl

lemma answer_buf (q : GetQueue Buf) (req : Option Req) (text : String) (payload : Buf → String) :
    (q.answer req text payload).pending.map (·.buf) = q.pending.map (·.buf) := by
  simp only [GetQueue.answer, List.map_map]
  apply List.map_congr_left
  intro e _
  simp only [Function.comp_apply]
  split <;> rfl

lemma RingInv.answer {m : Memory Buf} {q : GetQueue Buf} (h : RingInv m q) (req : Option Req)
    (text : String) (payload : Buf → String) : RingInv m (q.answer req text payload) := by
  have hreq := answer_req q req text payload
  refine ⟨?_, h.nreqs_le, h.head_eq, h.tail_lt, h.buffers_inj, ?_, ?_, ?_⟩
  · simpa [GetQueue.answer] using h.nreqs_eq
  · have hsome := congrArg (List.map some) hreq
    simp only [List.map_map, Function.comp_def] at hsome
    rw [hsome]
    exact h.requests
  · rw [answer_buf]
    exact h.buffers
  · rw [hreq]
    exact h.order

-- only the oldest request is answered: the handles of the others differ from it
lemma RingInv.answer_pending {m : Memory Buf} {q : GetQueue Buf} (h : RingInv m q)
    {e : Issued Buf} {rest : List (Issued Buf)} (hq : q.pending = e :: rest) (text : String)
    (payload : Buf → String) :
    (q.answer (some e.req) text payload).pending = { e with answer := some text } :: rest := by
  have hnodup : (q.evaluated ++ q.pending.map (·.req)).Nodup := h.order ▸ List.nodup_range
  have hrest : e.req ∉ rest.map (·.req) := by
    rw [hq, List.map_cons] at hnodup
    exact (List.nodup_cons.mp (List.nodup_append.mp hnodup).2.1).1
  simp only [GetQueue.answer, hq, List.map_cons, if_true, List.cons.injEq, true_and]
  conv_rhs => rw [← List.map_id rest]
  apply List.map_congr_left
  intro e' he'
  have hne : e'.req ≠ e.req := fun heq => hrest (heq ▸ List.mem_map_of_mem he')
  simp [hne]

lemma RingInv.evaluate {m : Memory Buf} {q : GetQueue Buf} (h : RingInv m q) {e : Issued Buf}
    {rest : List (Issued Buf)} (hq : q.pending = e :: rest) :
    RingInv m.advanceTail q.evaluate := by
  have hn := h.nreqs_eq
  have hhead := h.head_eq
  have hrequests := h.requests
  have hbuffers := h.buffers
  have horder := h.order
  simp only [hq, List.map_cons, List.length_cons] at hn hrequests hbuffers horder
  have hpos : 0 < m.maxReqs := Nat.zero_lt_of_lt h.tail_lt
  refine ⟨?_, ?_, ?_, Nat.mod_lt _ hpos, h.buffers_inj, ?_, ?_, ?_⟩
  · simp [Memory.advanceTail, GetQueue.evaluate, hq, hn]
  · exact (Nat.sub_le _ _).trans h.nreqs_le
  · simp only [Memory.advanceTail, hhead, hn, Nat.mod_add_mod]
    congr 1
    omega
  · simpa [GetQueue.evaluate, Memory.advanceTail, hq] using hrequests.pop
  · simpa [GetQueue.evaluate, Memory.advanceTail, hq] using hbuffers.pop
  · simpa [GetQueue.evaluate, hq] using horder

lemma checkRequest_ring {poll : Bool} {m : Memory Buf} {q : GetQueue Buf} {e : Issued Buf}
    {rest : List (Issued Buf)} (h : RingInv m q) (hidle : q.Idle) (hq : q.pending = e :: rest) :
    (checkRequest poll).Meets ringWorld ringKept (fun r m' q' => m' = m ∧
      if r.1 = .success then answered q (some e.req) r.2 q' else q' = q) m q := by
  have hreq : m.requests m.tail = some e.req := by
    have hr := h.requests
    rw [hq, List.map_cons] at hr
    exact hr.first h.tail_lt
  have hkept : ∃ e' rest, q.pending = e' :: rest ∧ m.requests m.tail = some e'.req ∧
      e'.answer = none :=
    ⟨e, rest, hq, hreq, hidle e (hq ▸ List.mem_cons_self)⟩
  simp only [checkRequest, Code.meets_bind, Code.meets_get]
  cases poll with
  | true =>
    simp only [if_true, Code.meets_ask]
    refine ⟨⟨h, hkept⟩, ?_⟩
    intro r q' hreply
    simp only [ringWorld, ringReply, hreq] at hreply
    exact ⟨trivial, hreply⟩
  | false =>
    simp only [Bool.false_eq_true, if_false, Code.meets_bind, Code.meets_ask]
    refine ⟨⟨h, hkept⟩, ?_⟩
    rintro ⟨ac, workLen⟩ q' hreply
    simp only [ringWorld, ringReply, hreq] at hreply
    cases ac <;> exact ⟨rfl, hreply⟩

lemma runRequest_ring {ac : AdlbCode} {workLen : ℤ} {m : Memory Buf} {q q' : GetQueue Buf}
    {e : Issued Buf} {rest : List (Issued Buf)} (h : RingInv m q) (hidle : q.Idle)
    (hq : q.pending = e :: rest)
    (hanswer : if ac = .success then answered q (some e.req) workLen q' else q' = q) :
    (runRequest workLen ac).Meets ringWorld ringKept (fun r m' q' =>
      (r = some .success ∨ r = some .shutdown ∨ r = none → RingInv m' q' ∧ q'.Idle) ∧
        (r = none → m'.nreqs + 1 = m.nreqs)) m q' := by
  cases ac with
  | error => exact ⟨by simp, by simp⟩
  | shutdown =>
    obtain rfl : q' = q := hanswer
    exact ⟨fun _ => ⟨h, hidle⟩, by simp⟩
  | nothing =>
    obtain rfl : q' = q := hanswer
    exact ⟨fun _ => ⟨h, hidle⟩, by simp⟩
  | success =>
    obtain ⟨text, payload, hlen, hpayload, rfl⟩ := hanswer
    have hpending := h.answer_pending hq text payload
    have h' := h.answer (some e.req) text payload
    have hbuf : m.buffers m.tail = e.buf := by
      have hb := h.buffers
      rw [hq, List.map_cons] at hb
      exact hb.first h.tail_lt
    simp only [runRequest, Code.meets_bind, Code.meets_get, Code.meets_ask]
    refine ⟨⟨h', _, rest, text, hpending, rfl, hbuf, ?_, by omega⟩, ?_⟩
    · rw [hbuf]
      exact hpayload e (hq ▸ List.mem_cons_self) rfl
    · intro rc q' hreply
      simp only [ringWorld, ringReply] at hreply
      split
      · exact ⟨by simp, by simp⟩
      · rename_i hrc
        simp only [not_not.mp hrc, if_true] at hreply
        subst hreply
        simp only [Code.meets_bind, Code.meets_modify, Code.meets_pure]
        refine ⟨fun _ => ⟨h'.evaluate hpending, ?_⟩, fun _ => ?_⟩
        · intro e' he'
          simp only [GetQueue.evaluate, hpending, List.tail_cons] at he'
          exact hidle e' (hq ▸ List.mem_cons_of_mem e he')
        · have hn := h.nreqs_eq
          simp only [hq, List.length_cons] at hn
          simp [Memory.advanceTail, hn]

lemma drain_ring {n : ℕ} {poll gotTasks : Bool} {m : Memory Buf} {q : GetQueue Buf}
    (hn : m.nreqs = n) (h : RingInv m q) (hidle : q.Idle) :
    (drain n poll gotTasks).Meets ringWorld ringKept (fun r m' q' =>
      r.1 = .success ∨ r.1 = .shutdown → RingInv m' q' ∧ q'.Idle) m q := by
  induction n generalizing poll gotTasks m q with
  | zero => exact fun _ => ⟨h, hidle⟩
  | succ n ih =>
    obtain ⟨e, rest, hq⟩ : ∃ e rest, q.pending = e :: rest := by
      apply List.exists_cons_of_length_pos
      have := h.nreqs_eq
      omega
    simp only [drain, Code.meets_bind]
    apply (checkRequest_ring h hidle hq).mono
    rintro ⟨ac, workLen⟩ m' q' ⟨rfl, hanswer⟩
    apply (runRequest_ring h hidle hq hanswer).mono
    rintro (_ | ec) m' q' ⟨hr, hnreqs⟩
    · obtain ⟨h', hidle'⟩ := hr (by simp)
      exact ih (by have := hnreqs rfl; omega) h' hidle'
    · intro hec
      apply hr
      rcases hec with (rfl : ec = .success) | (rfl : ec = .shutdown) <;> simp

lemma getTasks_ring {poll gotTasks : Bool} {maxTasks : ℤ} {m : Memory Buf} {q : GetQueue Buf}
    (h : RingInv m q) (hidle : q.Idle) :
    (getTasks poll maxTasks gotTasks).Meets ringWorld ringKept (fun r m' q' =>
      r.1 = .success ∨ r.1 = .shutdown → RingInv m' q' ∧ q'.Idle) m q := by
  simp only [getTasks, Code.meets_bind, Code.meets_get]
  apply (issue_ring h hidle (by omega)).mono
  rintro issued m' q' ⟨h', hidle'⟩
  cases issued with
  | false => simp
  | true =>
    simp only [Bool.not_true, Bool.false_eq_true, if_false, Code.meets_bind, Code.meets_get]
    exact drain_ring rfl h' hidle'

lemma getTasksCalls_ring (calls : List (Bool × ℤ)) {m : Memory Buf} {q : GetQueue Buf}
    (h : RingInv m q) (hidle : q.Idle) :
    (getTasksCalls calls).Meets ringWorld ringKept (fun ec m' q' =>
      ec = .success ∨ ec = .shutdown → RingInv m' q' ∧ q'.Idle) m q := by
  induction calls generalizing m q with
  | nil => exact fun _ => ⟨h, hidle⟩
  | cons call calls ih =>
    obtain ⟨poll, maxTasks⟩ := call
    simp only [getTasksCalls, Code.meets_bind]
    apply (getTasks_ring h hidle).mono
    rintro ⟨ec, gotTasks⟩ m' q' hr
    split
    · rename_i hec
      obtain ⟨h', hidle'⟩ := hr hec
      exact ih h' hidle'
    · rename_i hec
      exact fun hok => absurd hok hec

lemma RingInv.buffers_nodup {m : Memory Buf} {q : GetQueue Buf} (h : RingInv m q) :
    (q.pending.map (·.buf)).Nodup :=
  h.buffers.nodup h.buffers_inj (by simpa [← h.nreqs_eq] using h.nreqs_le)

lemma initReqs_ring (m : Memory Buf) {payloadBuffers : ℕ → Buf} {maxReqs : ℕ} (hmax : 1 ≤ maxReqs)
    (hdistinct : Set.InjOn payloadBuffers (Set.Iio maxReqs)) (payload : Buf → String) :
    RingInv (m.initReqs payloadBuffers maxReqs) ⟨0, [], [], payload⟩ where
  nreqs_eq := rfl
  nreqs_le := Nat.zero_le _
  head_eq := (Nat.zero_mod _).symm
  tail_lt := hmax
  buffers_inj := hdistinct
  requests := Ring.holds_nil _ _ _
  buffers := Ring.holds_nil _ _ _
  order := rfl

/-- In every run of calls of `get_tasks`, the ring lays out a queue of requests whose buffers
differ, at whatever call it stands and when it returns without an error; requests are answered
oldest first, evaluated once they are, and only buffers of no pending request are lent. -/
theorem getTasks_refines_queue (payloadBuffers : ℕ → Buf) (maxReqs : ℕ) (hmax : 1 ≤ maxReqs)
    (hdistinct : Set.InjOn payloadBuffers (Set.Iio maxReqs)) (payload : Buf → String)
    (calls : List (Bool × ℤ)) (m₀ : Memory Buf) (q : GetQueue Buf) (p)
    (hrun : Prog.Run ringWorld
      (getTasksCalls calls (m₀.initReqs payloadBuffers maxReqs), ⟨0, [], [], payload⟩) (p, q)) :
    (∀ m c k, p = .call (m, c) k → ringKept q (m, c) ∧ (q.pending.map (·.buf)).Nodup) ∧
      ∀ ec m, p = .done (ec, m) → ec = .success ∨ ec = .shutdown →
        RingInv m q ∧ (q.pending.map (·.buf)).Nodup ∧ q.Idle := by
  have hmeets := getTasksCalls_ring calls (initReqs_ring m₀ hmax hdistinct payload) (by simp [GetQueue.Idle])
  constructor
  · rintro m c k rfl
    have hkept := hmeets.asked hrun
    exact ⟨hkept, hkept.1.buffers_nodup⟩
  · rintro ec m rfl hec
    obtain ⟨h, hidle⟩ := hmeets.returned hrun hec
    exact ⟨h, h.buffers_nodup, hidle⟩

-- one task comes in and is evaluated; the second buffer of the ring is the next to be lent
theorem getTasks_refines_queue_one :
    let m : Memory ℕ := ⟨id, Function.update (fun _ => none) 0 (some 0), 2, 0, 1, 1, false⟩
    let q : GetQueue ℕ := ⟨1, [], [0], fun _ => "puts"⟩
    RingInv m q ∧ (q.pending.map (·.buf)).Nodup ∧ q.Idle := by
  refine (getTasks_refines_queue id 2 (by decide) (Set.injOn_id _) (fun _ => "") [(false, 1)]
    ⟨id, fun _ => none, 0, 0, 0, 0, false⟩ _ (.done (.success, _)) ?_).2 .success _ rfl (Or.inl rfl)
  apply Prog.Run.answer (r := (AdlbCode.success, [0])) (And.intro rfl rfl)
  apply Prog.Run.answer (r := (WaitCode.success, 5))
    (Exists.intro "puts" (Exists.intro (fun _ => "puts") ⟨rfl, fun _ _ _ => rfl, rfl⟩))
  apply Prog.Run.answer (r := TclCode.ok) rfl
  exact .refl

end Turbine.Async
