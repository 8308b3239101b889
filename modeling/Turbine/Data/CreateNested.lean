import Turbine.Adlb.Library
import Turbine.Library.Interleaving

/-! Atomic creation of nested data: what `adlb::create_nested` asks of the server that holds the
outer datum, for any number of clients that ask for the same subscript. -/

namespace Turbine.Data.CreateNested

open Turbine.Adlb Turbine.Library.Programs Turbine.Library.Interleaving

/-- `adlb_refc`: read and write reference counts. -/
abbrev Refc := ℤ × ℤ

structure RetrieveRefc where
  incrReferand : Refc
  decrSelf : Refc

structure CreateProps where
  readRefcount : ℤ
  writeRefcount : ℤ
  releaseWriteRefs : Bool

structure AdlbRef where
  id : ℕ
  readRefs : ℤ
  writeRefs : ℤ

-- a retrieved value, by its type: of a value that is no reference only the length is reported
inductive Value
  | ref (r : AdlbRef)
  | other (length : ℕ)

inductive NestedCall
  | insertAtomic (refcounts : RetrieveRefc)
  | retrieve (refcounts : RetrieveRefc)
  | create (type : DataType) (typeExtra : TypeExtra) (props : CreateProps)
  | store (value : AdlbRef) (decr storeRefs : Refc)

inductive Inserted
  | error
  | success (created : Bool) (value : Option Value)

inductive Retrieved
  | error
  | nothing
  | success (value : Value)

abbrev NestedCall.Ret : NestedCall → Type
  | .insertAtomic _ => Inserted
  | .retrieve _ => Retrieved
  | .create .. => Option ℕ
  | .store .. => Bool

-- a client that is still polling has no result yet
inductive Halt
  | error (msg : String)
  | polling

abbrev Client : Type → Type := ExceptT Halt (Prog NestedCall NestedCall.Ret)

def call (c : NestedCall) : Client c.Ret := ExceptT.lift (.call c .done)

abbrev adlbInsertAtomic (refcounts : RetrieveRefc) : Client Inserted :=
  call (.insertAtomic refcounts)
abbrev adlbRetrieve (refcounts : RetrieveRefc) : Client Retrieved := call (.retrieve refcounts)
abbrev adlbCreate (type : DataType) (typeExtra : TypeExtra) (props : CreateProps) :
    Client (Option ℕ) := call (.create type typeExtra props)
abbrev adlbStore (value : AdlbRef) (decr storeRefs : Refc) : Client Bool :=
  call (.store value decr storeRefs)

def fail {α : Type} (msg : String) : Client α := throw (.error msg)

/-! ### The command -/

/-- The arguments, after the handle and the subscript are parsed. -/
structure Args where
  handleId : ℕ
  key : String
  type : DataType
  typeExtra : TypeExtra
  refcounts : RetrieveRefc

def retrieveNoRefc : RetrieveRefc := ⟨0, 0⟩

def initCount : ℤ := 2 * 2 ^ 24
def initRefs : Refc := (initCount, initCount)

def createProps (isCompound : DataType → Bool) (args : Args) : CreateProps where
  readRefcount := initRefs.1 + args.refcounts.incrReferand.1
  writeRefcount := initRefs.2 + args.refcounts.incrReferand.2
  releaseWriteRefs := isCompound args.type

-- a failed insertion ends with an error on every path: the retrieval only finds the message
def explainFailure (args : Args) : Client ℕ := do
  match ← adlbRetrieve retrieveNoRefc with
  | .success (.ref retrieved) =>
    let place := s!"<{args.handleId}>[\"{args.key}\"]"
    if retrieved.writeRefs ≤ 0 then
      fail (s!"Attempted to automatically create datum at {place}, " ++
        s!"which was already set to a read-only reference to <{retrieved.id}>")
    else
      fail ("Unexpected error in Insert_atomic when attempting to automatically create datum at" ++
        place)
  | .success (.other length) =>
    fail s!"malformed reference buffer of length {length} received from ADLB server"
  | _ => fail "unexpected error while retrieving container value"

def createAndStore (isCompound : DataType → Bool) (args : Args) : Client ℕ := do
  match ← adlbCreate args.type args.typeExtra (createProps isCompound args) with
  | none => fail "Error while creating nested"
  | some newId =>
    let stored ← adlbStore ⟨newId, 0, 0⟩ args.refcounts.decrSelf initRefs
    if stored then pure newId else fail "Error while inserting nested"

def pollValue (refcounts : RetrieveRefc) : ℕ → Client Value
  | 0 => throw .polling
  | n + 1 => do
    match ← adlbRetrieve refcounts with
    | .error => fail "unexpected error while retrieving container value"
    | .nothing => pollValue refcounts n
    | .success value => pure value

def idOfValue : Value → Client ℕ
  | .ref r => pure r.id
  | .other _ => fail "only works on containers with values of type ref"

/-- `n` bounds how often the value is polled for. -/
def adlbCreateNestedImpl (isCompound : DataType → Bool) (args : Args) (n : ℕ) : Client ℕ := do
  match ← adlbInsertAtomic args.refcounts with
  | .error => explainFailure args
  | .success true _ => createAndStore isCompound args
  | .success false (some value) => idOfValue value
  | .success false none => do
    let value ← pollValue args.refcounts n
    idOfValue value

/-! ### The server -/

inductive Slot
  | free
  | reserved
  | filled (r : AdlbRef)

variable {ι : Type}

/-- One subscript of the outer datum, the reference counts of that datum and of those created
for the subscript, and who created and who stored. -/
structure Server (ι : Type) where
  slot : Slot
  outer : Refc
  inner : ℕ → Refc
  creates : List (ι × ℕ)
  stores : List (ι × ℕ)
  failed : Bool

def Server.fail (s : Server ι) : Server ι := { s with failed := true }

-- a value is returned together with the change of reference counts that came with the request
def Server.take (s : Server ι) (r : AdlbRef) (refcounts : RetrieveRefc) : Server ι :=
  { s with outer := s.outer - refcounts.decrSelf
           inner := Function.update s.inner r.id (s.inner r.id + refcounts.incrReferand) }

def Server.create (s : Server ι) (i : ι) (id : ℕ) (props : CreateProps) : Server ι :=
  { s with inner := Function.update s.inner id (props.readRefcount, props.writeRefcount)
           creates := s.creates ++ [(i, id)] }

def Server.store (s : Server ι) (i : ι) (value : AdlbRef) (decr storeRefs : Refc) : Server ι :=
  { s with slot := .filled ⟨value.id, storeRefs.1, storeRefs.2⟩
           outer := s.outer - decr
           stores := s.stores ++ [(i, value.id)] }

inductive Reply : Server ι → ι → (c : NestedCall) → c.Ret → Server ι → Prop
  | insertError {s i refcounts} : Reply s i (.insertAtomic refcounts) .error s.fail
  | insertFree {s i refcounts} : s.slot = .free →
      Reply s i (.insertAtomic refcounts) (.success true none) { s with slot := .reserved }
  | insertReserved {s i refcounts} : s.slot = .reserved →
      Reply s i (.insertAtomic refcounts) (.success false none) s
  | insertFilled {s i refcounts r} : s.slot = .filled r →
      Reply s i (.insertAtomic refcounts) (.success false (some (.ref r))) (s.take r refcounts)
  | retrieveError {s i refcounts} : Reply s i (.retrieve refcounts) .error s.fail
  | retrieveNothing {s i refcounts} : (∀ r, s.slot ≠ .filled r) →
      Reply s i (.retrieve refcounts) .nothing s
  | retrieveFilled {s i refcounts r} : s.slot = .filled r →
      Reply s i (.retrieve refcounts) (.success (.ref r)) (s.take r refcounts)
  | createError {s i type typeExtra props} :
      Reply s i (.create type typeExtra props) none s.fail
  | create {s i type typeExtra props id} : id ∉ s.creates.map (·.2) →
      Reply s i (.create type typeExtra props) (some id) (s.create i id props)
  | storeError {s i value decr storeRefs} :
      Reply s i (.store value decr storeRefs) false s.fail
  | store {s i value decr storeRefs} : (∀ r, s.slot ≠ .filled r) →
      Reply s i (.store value decr storeRefs) true (s.store i value decr storeRefs)

def server : World (Server ι) (ι × NestedCall) fun c => c.2.Ret where
  reply s c r s' := Reply s c.1 c.2 r s'

def start (outer : Refc) : Server ι where
  slot := .free
  outer := outer
  inner := fun _ => 0
  creates := []
  stores := []
  failed := false

/-! ### What the clients agree on -/

-- the client that reserved the subscript, and those whose changes of reference counts were made
structure Ghost (ι : Type) where
  winner : Option ι
  settled : Finset ι

variable (args : ι → Args) (outer₀ : Refc)

def incr (i : ι) : Refc := (args i).refcounts.incrReferand
def decr (i : ι) : Refc := (args i).refcounts.decrSelf

def SlotInv (s : Server ι) (g : Ghost ι) : Slot → Prop
  | .free => s.creates = [] ∧ s.stores = [] ∧ g.winner = none ∧ g.settled = ∅
  | .reserved => s.stores = [] ∧ g.settled = ∅ ∧ ∃ w, g.winner = some w ∧
      (s.creates = [] ∨ ∃ id, s.creates = [(w, id)] ∧ s.inner id = initRefs + incr args w)
  | .filled r => ∃ w, g.winner = some w ∧ s.creates = [(w, r.id)] ∧ s.stores = [(w, r.id)] ∧
      s.inner r.id = initRefs + ∑ i ∈ g.settled, incr args i

structure Inv (s : Server ι × Ghost ι) : Prop where
  slot : SlotInv args s.1 s.2 s.1.slot
  outer_eq : s.1.outer = outer₀ - ∑ i ∈ s.2.settled, decr args i

structure Rely (i : ι) (s s' : Server ι × Ghost ι) : Prop where
  settled_iff : i ∈ s'.2.settled ↔ i ∈ s.2.settled
  winner_iff : s'.2.winner = some i ↔ s.2.winner = some i
  owned : s.2.winner = some i → s'.1.slot = s.1.slot ∧ s'.1.creates = s.1.creates
  filled : ∀ r, s.1.slot = .filled r → s'.1.slot = .filled r
  failed : s.1.failed = true → s'.1.failed = true

@[refl] lemma Rely.refl {i : ι} {s : Server ι × Ghost ι} : Rely i s s :=
  ⟨Iff.rfl, Iff.rfl, fun _ => ⟨rfl, rfl⟩, fun _ h => h, id⟩

lemma Rely.trans {i : ι} {s t u : Server ι × Ghost ι} (h : Rely i s t) (h' : Rely i t u) :
    Rely i s u := by
  refine ⟨h'.settled_iff.trans h.settled_iff, h'.winner_iff.trans h.winner_iff, ?_,
    fun r hr => h'.filled r (h.filled r hr), fun hf => h'.failed (h.failed hf)⟩
  intro hw
  obtain ⟨hslot, hcreates⟩ := h.owned hw
  obtain ⟨hslot', hcreates'⟩ := h'.owned (h.winner_iff.mpr hw)
  exact ⟨hslot'.trans hslot, hcreates'.trans hcreates⟩

def pact : Pact ι (Server ι × Ghost ι) where
  inv := Inv args outer₀
  rely := Rely
  rely_refl _ _ := .refl
  rely_trans := .trans

variable {args outer₀} {s : Server ι} {g : Ghost ι} {i j : ι}

lemma Inv.slotInv {slot : Slot} (h : Inv args outer₀ (s, g)) (hs : s.slot = slot) :
    SlotInv args s g slot := by
  subst hs
  exact h.slot

lemma Inv.fail (h : Inv args outer₀ (s, g)) : Inv args outer₀ (s.fail, g) := ⟨h.slot, h.outer_eq⟩

lemma Rely.fail : Rely j (s, g) (s.fail, g) :=
  ⟨Iff.rfl, Iff.rfl, fun _ => ⟨rfl, rfl⟩, fun _ h => h, fun _ => rfl⟩

@[simp] lemma take_retrieveNoRefc (r : AdlbRef) : s.take r retrieveNoRefc = s := by
  simp [Server.take, retrieveNoRefc]

lemma Inv.reserve (h : Inv args outer₀ (s, g)) (hs : s.slot = .free) (i : ι) :
    Inv args outer₀ ({ s with slot := .reserved }, { g with winner := some i }) := by
  have hslot := h.slotInv hs
  exact ⟨⟨hslot.2.1, hslot.2.2.2, i, rfl, .inl hslot.1⟩, h.outer_eq⟩

lemma Rely.reserve (h : Inv args outer₀ (s, g)) (hs : s.slot = .free) (hj : j ≠ i) :
    Rely j (s, g) ({ s with slot := .reserved }, { g with winner := some i }) := by
  have hslot := h.slotInv hs
  have hw : g.winner ≠ some j := by simp [hslot.2.2.1]
  refine ⟨Iff.rfl, ?_, fun h => absurd h hw, fun r hr => ?_, id⟩
  · simpa [hj.symm] using hw
  · simp [hs] at hr

lemma Inv.create {id : ℕ} {isCompound : DataType → Bool} (h : Inv args outer₀ (s, g))
    (hw : g.winner = some i) (hs : s.slot = .reserved) (hc : s.creates = []) :
    Inv args outer₀ (s.create i id (createProps isCompound (args i)), g) := by
  have hslot := h.slotInv hs
  refine ⟨?_, h.outer_eq⟩
  simp only [Server.create, hs, SlotInv]
  refine ⟨hslot.1, hslot.2.1, i, hw, .inr ⟨id, by simp [hc], ?_⟩⟩
  rw [Function.update_self]
  rfl

lemma Rely.create {id : ℕ} {props : CreateProps} (hw : g.winner = some i) (hj : j ≠ i) :
    Rely j (s, g) (s.create i id props, g) := by
  have hne : g.winner ≠ some j := by simpa [hw] using hj.symm
  exact ⟨Iff.rfl, Iff.rfl, fun h => absurd h hne, fun _ h => h, fun h => h⟩

section Turns

variable [DecidableEq ι]

def Ghost.settle (g : Ghost ι) (i : ι) : Ghost ι := { g with settled := insert i g.settled }

lemma Inv.take {r : AdlbRef} (h : Inv args outer₀ (s, g)) (hs : s.slot = .filled r)
    (hi : i ∉ g.settled) :
    Inv args outer₀ (s.take r (args i).refcounts, g.settle i) := by
  have hslot := h.slotInv hs
  obtain ⟨w, hw, hcreates, hstores, hinner⟩ := hslot
  constructor
  · simp only [Server.take, Ghost.settle, hs, SlotInv]
    refine ⟨w, hw, hcreates, hstores, ?_⟩
    rw [Function.update_self, hinner, Finset.sum_insert hi, incr]
    abel
  · have houter := h.outer_eq
    simp only [Server.take, Ghost.settle] at houter ⊢
    rw [houter, Finset.sum_insert hi, decr]
    abel

lemma Rely.take {r : AdlbRef} {refcounts : RetrieveRefc} (hj : j ≠ i) :
    Rely j (s, g) (s.take r refcounts, g.settle i) where
  settled_iff := by simp [Ghost.settle, hj]
  winner_iff := Iff.rfl
  owned _ := ⟨rfl, rfl⟩
  filled _ h := h
  failed := id

lemma Inv.store {id : ℕ} {ref : AdlbRef} (h : Inv args outer₀ (s, g)) (hid : ref.id = id)
    (hw : g.winner = some i) (hs : s.slot = .reserved) (hc : s.creates = [(i, id)]) :
    Inv args outer₀ (s.store i ref (args i).refcounts.decrSelf initRefs, g.settle i) := by
  have hslot := h.slotInv hs
  obtain ⟨hstores, hsettled, w, hw', hcreates⟩ := hslot
  obtain rfl : i = w := Option.some.inj (hw.symm.trans hw')
  have hinner : s.inner id = initRefs + incr args i := by
    rcases hcreates with hnone | ⟨id', hid', hinner⟩
    · simp [hnone] at hc
    · obtain rfl : id' = id := by simpa [hid'] using hc
      exact hinner
  subst hid
  constructor
  · simp only [Server.store, Ghost.settle, SlotInv]
    exact ⟨i, hw, hc, by simp [hstores], by simp [hsettled, hinner]⟩
  · have houter := h.outer_eq
    simp only [hsettled, Finset.sum_empty, sub_zero] at houter
    simp [Server.store, Ghost.settle, hsettled, houter, decr]

lemma Rely.store {ref : AdlbRef} {decr storeRefs : Refc} (hw : g.winner = some i)
    (hs : s.slot = .reserved) (hj : j ≠ i) :
    Rely j (s, g) (s.store i ref decr storeRefs, g.settle i) := by
  have hne : g.winner ≠ some j := by simpa [hw] using hj.symm
  refine ⟨by simp [Ghost.settle, hj], Iff.rfl, fun h => absurd h hne, fun r hr => ?_, id⟩
  simp [hs] at hr

end Turns

lemma Inv.one_creates (h : Inv args outer₀ (s, g)) : s.creates.length ≤ 1 := by
  cases hs : s.slot with
  | free => simp [(h.slotInv hs).1]
  | reserved => obtain ⟨_, _, w, _, hnone | ⟨id, hid, _⟩⟩ := h.slotInv hs <;> simp [*]
  | filled r =>
    obtain ⟨w, _, hcreates, _⟩ := h.slotInv hs
    simp [hcreates]

lemma Inv.one_stores (h : Inv args outer₀ (s, g)) : s.stores.length ≤ 1 := by
  cases hs : s.slot with
  | free => simp [(h.slotInv hs).2.1]
  | reserved => simp [(h.slotInv hs).1]
  | filled r =>
    obtain ⟨w, _, _, hstores, _⟩ := h.slotInv hs
    simp [hstores]

/-! ### What one client asks -/

def unsettled (s : Server ι × Ghost ι) (i : ι) (_ : NestedCall) : Prop := i ∉ s.2.settled

def Settles (i : ι) : Except Halt ℕ → Server ι × Ghost ι → Prop
  | .ok id, s => i ∈ s.2.settled ∧ ∃ r, s.1.slot = .filled r ∧ r.id = id
  | .error (.error _), s => i ∉ s.2.settled ∧ s.1.failed = true
  | .error .polling, s => i ∉ s.2.settled

lemma Settles.stable {a : Except Halt ℕ} {t t' : Server ι × Ghost ι} (h : Settles i a t)
    (hr : Rely i t t') : Settles i a t' := by
  match a with
  | .ok id =>
    obtain ⟨hi, r, hs, hid⟩ := h
    exact ⟨hr.settled_iff.mpr hi, r, hr.filled r hs, hid⟩
  | .error (.error _) => exact ⟨fun hi => h.1 (hr.settled_iff.mp hi), hr.failed h.2⟩
  | .error .polling => exact fun hi => h (hr.settled_iff.mp hi)

variable {t : Server ι × Ghost ι} {α : Type} {Q : Except Halt α → Server ι × Ghost ι → Prop}

lemma keeps_call {c : NestedCall} {Q : Except Halt c.Ret → Server ι × Ghost ι → Prop}
    (h : ∀ s g, Rely i t (s, g) → Inv args outer₀ (s, g) → i ∉ g.settled ∧
      ∀ r s', Reply s i c r s' → ∃ g', Inv args outer₀ (s', g') ∧
        (∀ j, j ≠ i → Rely j (s, g) (s', g')) ∧ Q (.ok r) (s', g')) :
    Keeps server (pact args outer₀) unsettled i (call c).run Q t := h

@[simp] lemma keeps_fail (msg : String) :
    Keeps server (pact args outer₀) unsettled i (fail msg : Client α).run Q t ↔
      Q (.error (.error msg)) t := Iff.rfl

@[simp] lemma keeps_pure (a : α) :
    Keeps server (pact args outer₀) unsettled i (pure a : Client α).run Q t ↔ Q (.ok a) t :=
  Iff.rfl

lemma explainFailure_keeps (a : Args) (hi : i ∉ t.2.settled) (hf : t.1.failed = true) :
    Keeps server (pact args outer₀) unsettled i (explainFailure a).run (Settles i) t := by
  simp only [explainFailure, keeps_bind_except]
  apply keeps_call
  intro s g hr hinv
  have hi' : i ∉ g.settled := fun h => hi (hr.settled_iff.mp h)
  refine ⟨hi', ?_⟩
  intro r s' hreply
  cases hreply with
  | retrieveError => exact ⟨g, hinv.fail, fun _ _ => .fail, hi', rfl⟩
  | retrieveNothing => exact ⟨g, hinv, fun _ _ => .refl, hi', hr.failed hf⟩
  | retrieveFilled hs =>
    rw [take_retrieveNoRefc]
    refine ⟨g, hinv, fun _ _ => .refl, ?_⟩
    simp only [rest_ok]
    split <;> exact ⟨hi', hr.failed hf⟩

variable [DecidableEq ι]

-- a value comes with the reference counts: nothing is left to ask for
lemma taken_turn {g : Ghost ι} {r : AdlbRef} (hinv : Inv args outer₀ (s, g))
    (hs : s.slot = .filled r) (hi : i ∉ g.settled) :
    ∃ g', Inv args outer₀ (s.take r (args i).refcounts, g') ∧
      (∀ j, j ≠ i → Rely j (s, g) (s.take r (args i).refcounts, g')) ∧
      Settles i (.ok r.id) (s.take r (args i).refcounts, g') :=
  ⟨g.settle i, hinv.take hs hi, fun _ hj => .take hj,
    Finset.mem_insert_self _ _, r, hs, rfl⟩

lemma pollValue_keeps (n : ℕ) (hi : i ∉ t.2.settled) :
    Keeps server (pact args outer₀) unsettled i (pollValue (args i).refcounts n).run
      (Rest (fun value => Keeps server (pact args outer₀) unsettled i (idOfValue value).run
        (Settles i)) (Settles i)) t := by
  induction n generalizing t with
  | zero => exact hi
  | succ n ih =>
    rw [pollValue, keeps_bind_except]
    apply keeps_call
    intro s g hr hinv
    have hi' : i ∉ g.settled := fun h => hi (hr.settled_iff.mp h)
    refine ⟨hi', ?_⟩
    intro r s' hreply
    cases hreply with
    | retrieveError => exact ⟨g, hinv.fail, fun _ _ => .fail, hi', rfl⟩
    | retrieveNothing => exact ⟨g, hinv, fun _ _ => .refl, ih hi'⟩
    | retrieveFilled hs => exact taken_turn hinv hs hi'

lemma createAndStore_keeps (isCompound : DataType → Bool) (hi : i ∉ t.2.settled)
    (hw : t.2.winner = some i) (hs : t.1.slot = .reserved) (hc : t.1.creates = []) :
    Keeps server (pact args outer₀) unsettled i (createAndStore isCompound (args i)).run
      (Settles i) t := by
  simp only [createAndStore, keeps_bind_except]
  apply keeps_call
  intro s g hr hinv
  have hi' : i ∉ g.settled := fun h => hi (hr.settled_iff.mp h)
  have hw' : g.winner = some i := hr.winner_iff.mpr hw
  obtain ⟨hs', hc'⟩ := hr.owned hw
  refine ⟨hi', ?_⟩
  intro r s₁ hreply
  cases hreply with
  | createError => exact ⟨g, hinv.fail, fun _ _ => .fail, hi', rfl⟩
  | create hfresh =>
    refine ⟨g, hinv.create hw' (hs'.trans hs) (hc'.trans hc), fun j hj => .create hw' hj, ?_⟩
    simp only [rest_ok, keeps_bind_except]
    apply keeps_call
    intro s₂ g₂ hr₂ hinv₂
    have hi₂ : i ∉ g₂.settled := fun h => hi' (hr₂.settled_iff.mp h)
    have hw₂ : g₂.winner = some i := hr₂.winner_iff.mpr hw'
    obtain ⟨hs₂, hc₂⟩ := hr₂.owned hw'
    have hreserved : s₂.slot = .reserved := hs₂.trans (hs'.trans hs)
    refine ⟨hi₂, ?_⟩
    intro r₂ s₃ hreply₂
    cases hreply₂ with
    | storeError => exact ⟨g₂, hinv₂.fail, fun _ _ => .fail, hi₂, rfl⟩
    | store _ =>
      refine ⟨g₂.settle i, hinv₂.store rfl hw₂ hreserved ?_,
        fun j hj => .store hw₂ hreserved hj, ?_⟩
      · rw [hc₂, Server.create, hc', hc]
        rfl
      · exact ⟨Finset.mem_insert_self _ _, _, rfl, rfl⟩

lemma adlbCreateNestedImpl_keeps (isCompound : DataType → Bool) (n : ℕ)
    (hi : i ∉ t.2.settled) :
    Keeps server (pact args outer₀) unsettled i (adlbCreateNestedImpl isCompound (args i) n).run
      (Settles i) t := by
  simp only [adlbCreateNestedImpl, keeps_bind_except]
  apply keeps_call
  intro s g hr hinv
  have hi' : i ∉ g.settled := fun h => hi (hr.settled_iff.mp h)
  refine ⟨hi', ?_⟩
  intro r s' hreply
  cases hreply with
  | insertError => exact ⟨g, hinv.fail, fun _ _ => .fail, explainFailure_keeps _ hi' rfl⟩
  | insertFree hs =>
    have hslot := hinv.slotInv hs
    refine ⟨{ g with winner := some i }, hinv.reserve hs i, fun j hj => .reserve hinv hs hj, ?_⟩
    exact createAndStore_keeps isCompound hi' rfl rfl hslot.1
  | insertReserved hs =>
    refine ⟨g, hinv, fun _ _ => .refl, ?_⟩
    simp only [rest_ok, keeps_bind_except]
    exact pollValue_keeps n hi'
  | insertFilled hs => exact taken_turn hinv hs hi'

/-! ### Any number of clients -/

def returned : Prog NestedCall NestedCall.Ret (Except Halt ℕ) → Bool
  | .done (.ok _) => true
  | _ => false

/-- At most one client has created the inner datum and stored its id. Every client that returned
has that id, and their reference counts, and no others, have been asked for, once each. -/
structure CreatedOnce [Fintype ι] (args : ι → Args) (outer₀ : Refc)
    (ps : ι → Prog NestedCall NestedCall.Ret (Except Halt ℕ)) (s : Server ι) : Prop where
  one_creates : s.creates.length ≤ 1
  one_stores : s.stores.length ≤ 1
  same_id : ∀ i id, ps i = .done (.ok id) →
    ∃ w r, s.creates = [(w, id)] ∧ s.stores = [(w, id)] ∧ s.slot = .filled r ∧ r.id = id
  outer_eq : s.outer = outer₀ - ∑ i, if returned (ps i) then decr args i else 0
  inner_eq : ∀ r, s.slot = .filled r →
    s.inner r.id = initRefs + ∑ i, if returned (ps i) then incr args i else 0
  no_error : s.failed = false → ∀ i msg, ps i ≠ .done (.error (.error msg))

-- the clients that are settled are those that have returned
omit [DecidableEq ι] in
lemma settled_eq [Fintype ι] {g : Ghost ι} {ps : ι → Prog NestedCall NestedCall.Ret (Except Halt ℕ)}
    (hinv : Inv args outer₀ (s, g))
    (hkeeps : ∀ i, Keeps server (pact args outer₀) unsettled i (ps i) (Settles i) (s, g)) :
    g.settled = Finset.univ.filter fun i => returned (ps i) := by
  ext i
  simp only [Finset.mem_filter, Finset.mem_univ, true_and]
  have hi := hkeeps i
  rcases hp : ps i with ((msg | _) | id) | ⟨c, k⟩
  · simpa [returned] using (hi.returned hp).1
  · have hpolling : i ∉ g.settled := hi.returned hp
    simpa [returned] using hpolling
  · simpa [returned] using (hi.returned hp).1
  · have hasked : i ∉ g.settled := hi.asked hinv hp
    simpa [returned] using hasked

theorem created_once [Fintype ι] (isCompound : DataType → Bool) (args : ι → Args)
    (fuel : ι → ℕ) (outer₀ : Refc)
    {ps : ι → Prog NestedCall NestedCall.Ret (Except Halt ℕ)} {s : Server ι}
    (hrun : Interleaved server
      (fun i => (adlbCreateNestedImpl isCompound (args i) (fuel i)).run, start outer₀) (ps, s)) :
    CreatedOnce args outer₀ ps s := by
  have hstart : Inv args outer₀ (start outer₀, (⟨none, ∅⟩ : Ghost ι)) :=
    ⟨⟨rfl, rfl, rfl, rfl⟩, by simp [start]⟩
  have hclients : ∀ i, Keeps server (pact args outer₀) unsettled i
      (adlbCreateNestedImpl isCompound (args i) (fuel i)).run (Settles i)
      (start outer₀, (⟨none, ∅⟩ : Ghost ι)) :=
    fun i => adlbCreateNestedImpl_keeps isCompound (fuel i) (Finset.notMem_empty i)
  have hstable : ∀ i a t t', Settles i a t → (pact args outer₀).rely i t t' →
      (pact args outer₀).inv t' → Settles i a t' := fun _ _ _ _ h hr _ => Settles.stable h hr
  obtain ⟨g, hinv, hkeeps⟩ := Keeps.interleaved hstable hstart hclients hrun
  have hsettled := settled_eq hinv hkeeps
  have hsum : ∀ f : ι → Refc, ∑ i ∈ g.settled, f i = ∑ i, if returned (ps i) then f i else 0 := by
    intro f
    rw [hsettled, Finset.sum_filter]
  refine ⟨hinv.one_creates, hinv.one_stores, ?_, ?_, ?_, ?_⟩
  · intro i id hp
    obtain ⟨_, r, hs, rfl⟩ := (hkeeps i).returned hp
    obtain ⟨w, _, hcreates, hstores, _⟩ := hinv.slotInv hs
    exact ⟨w, r, hcreates, hstores, hs, rfl⟩
  · rw [hinv.outer_eq, hsum]
  · intro r hs
    obtain ⟨w, _, _, _, hinner⟩ := hinv.slotInv hs
    rw [hinner, hsum]
  · intro hf i msg hp
    have hfailed := ((hkeeps i).returned hp).2
    simp [hf] at hfailed

-- the client `true` reserves the subscript, and `false` polls until it is filled
theorem created_once_two :
    let args : Bool → Args := fun _ => ⟨3, "a", .container, .container .integer .ref, ⟨1, 2⟩⟩
    ∃ ps s, Interleaved server
        (fun i => (adlbCreateNestedImpl (fun _ => true) (args i) 2).run, start 5) (ps, s) ∧
      ps true = .done (.ok 7) ∧ ps false = .done (.ok 7) ∧ CreatedOnce args 5 ps s := by
  intro args
  have h₀ : Interleaved server
      (fun i => (adlbCreateNestedImpl (fun _ => true) (args i) 2).run, start 5) _ := .refl
  have h₁ := h₀.turn true rfl (Reply.insertFree rfl)
  have h₂ := h₁.turn false rfl (Reply.insertReserved rfl)
  have h₃ := h₂.turn false rfl (Reply.retrieveNothing nofun)
  have h₄ := h₃.turn true rfl (Reply.create (List.not_mem_nil : 7 ∉ ([] : List ℕ)))
  have h₅ := h₄.turn true rfl (Reply.store nofun)
  have h₆ := h₅.turn false rfl (Reply.retrieveFilled rfl)
  exact ⟨_, _, h₆, rfl, rfl, created_once (fun _ => true) args (fun _ => 2) 5 h₆⟩

end Turbine.Data.CreateNested
