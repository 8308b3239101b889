import Turbine.References.Builtins

/-! Every body spends what its rule owns, but for what it hands to the rules that it makes. -/

namespace Turbine.References

open Turbine.Library Shares

variable {writable : ℕ → Prop}

/-! ### Inserts -/

lemma containerInsert_spends (id : ℕ) (subscript : Text) (member : ℕ) :
    Spends writable (readOf id + writeOf id + readOf member)
      (containerInsert id subscript member 1 1) fun _ => 0 :=
  (adlbInsert_spends id subscript member 1 1).congr (by simp; abel) fun _ => by simp

lemma containerInsert_open_spends (id : ℕ) (subscript : Text) (member : ℕ) {decrs : ℕ}
    (h : 1 ≤ decrs) :
    Spends writable (readOf member + decrs • writeOf id)
      (containerInsert id subscript member decrs 0) fun _ => 0 :=
  (adlbInsert_spends id subscript member decrs 0).congr
    (by rw [max_eq_right h, zero_smul, zero_add, add_comm])
    fun _ => by rw [Nat.sub_eq_zero_of_le h, zero_smul]

lemma cFInsertBody_spends (c i d : ℕ) {decrs : ℕ} (h : 1 ≤ decrs) :
    Spends writable (readOf i + readOf d + decrs • writeOf c)
      (cFInsertBody c i d decrs) fun _ => 0 := by
  rw [add_assoc]
  exact (retrieveDecr_spends i).spend fun s => containerInsert_open_spends c s d h

lemma cVInsertRBody_spends (c : ℕ) (i : Text) (r : ℕ) {decrs : ℕ} (h : 1 ≤ decrs) :
    Spends writable (readOf r + decrs • writeOf c) (cVInsertRBody c i r decrs)
      fun _ => 0 :=
  (acquireRef_spends r).seq fun d => containerInsert_open_spends c i d h

lemma cFInsertRBody_spends (c i r : ℕ) {decrs : ℕ} (h : 1 ≤ decrs) :
    Spends writable (readOf i + readOf r + decrs • writeOf c)
      (cFInsertRBody c i r decrs) fun _ => 0 := by
  rw [add_assoc]
  exact (retrieveDecr_spends i).spend fun t1 => cVInsertRBody_spends c t1 r h

lemma structInsertRBody_spends (struct : ℕ) (subscript : Text) (r : ℕ) {decrs : ℕ}
    (h : 1 ≤ decrs) :
    Spends writable (readOf r + decrs • writeOf struct)
      (structInsertRBody struct subscript r decrs) fun _ => 0 :=
  cVInsertRBody_spends struct subscript r h

/-! ### Inserts into a container that a reference points to -/

section Referenced

variable {cr : ℕ} (h : writable cr)
include h

lemma crVInsertBody_spends (j : Text) (d : ℕ) :
    Spends writable (readOf cr + readOf d) (crVInsertBody cr j d) fun _ => 0 :=
  (acquireWriteRef_spends h).seq fun c => containerInsert_spends c j d

lemma crFInsertBody_spends (j d : ℕ) :
    Spends writable (readOf cr + (readOf j + readOf d)) (crFInsertBody cr j d)
      fun _ => 0 :=
  (acquireWriteRef_spends h).seq fun c =>
    ((retrieveDecr_spends j).spend fun s => containerInsert_spends c s d).congr (by abel)
      fun _ => rfl

lemma crVInsertRBody_spends (j : Text) (dr : ℕ) :
    Spends writable (readOf cr + readOf dr) (crVInsertRBody cr j dr) fun _ => 0 :=
  (acquireWriteRef_spends h).seq fun c =>
    ((acquireRef_spends dr).seq fun d =>
      (containerInsert_spends c j d).congr (add_comm _ _) fun _ => rfl).congr (add_comm _ _)
      fun _ => rfl

lemma crFInsertRBody_spends (j dr : ℕ) :
    Spends writable (readOf cr + (readOf dr + readOf j)) (crFInsertRBody cr j dr)
      fun _ => 0 := by
  have hinsert : ∀ c d, Spends writable
      (readOf d + (readOf j + (readOf c + writeOf c)))
      (do let jval ← retrieveDecr j; containerInsert c jval d 1 1) fun _ => 0 := fun c d =>
    ((retrieveDecr_spends j).spend fun jval => containerInsert_spends c jval d).congr (by abel)
      fun _ => rfl
  exact (acquireWriteRef_spends h).seq fun c =>
    ((acquireRef_spends dr).seq fun d => hinsert c d).congr (by abel) fun _ => rfl

end Referenced

/-! ### Lookups -/

lemma cFLookupBody_spends (c i : ℕ) {r : ℕ} (h : ¬ writable r) :
    Spends writable (readOf i + (readOf c + writeOf r)) (cFLookupBody c i r)
      fun _ => 0 :=
  (retrieveDecr_spends i).spend fun t1 => containerReference_spends c t1 h

lemma crVLookupBody_spends (cr : ℕ) (i : Text) {d : ℕ} (h : ¬ writable d) :
    Spends writable (readOf cr + writeOf d) (crVLookupBody cr i d) fun _ => 0 :=
  (acquireRef_spends cr).seq fun c => containerReference_spends c i h

lemma crFLookupBody_spends (cr i : ℕ) {d : ℕ} (h : ¬ writable d) :
    Spends writable (readOf cr + (readOf i + writeOf d)) (crFLookupBody cr i d)
      fun _ => 0 :=
  (acquireRef_spends cr).seq fun c =>
    ((retrieveDecr_spends i).spend fun t1 => containerReference_spends c t1 h).congr (by abel)
      fun _ => rfl

lemma structrefReferenceBody_spends (structr : ℕ) (subscript : Text) {result : ℕ}
    (h : ¬ writable result) :
    Spends writable (readOf structr + writeOf result)
      (structrefReferenceBody structr subscript result) fun _ => 0 :=
  crVLookupBody_spends structr subscript h

/-! ### Copies -/

lemma copyBody_spends (type : Copied) (o i : ℕ) :
    Spends writable (readOf i + writeOf o) (copyBody type o i) fun _ => 0 := by
  have hvalue : Spends writable (readOf i + writeOf o)
      (do let iValue ← retrieveDecr i; storeValue o iValue) fun _ => 0 :=
    (retrieveDecr_spends i).spend fun v => storeValue_spends o v
  cases type with
  | void =>
    exact ((storeValue_spends o _).spend fun _ => drop_one_spends i .read).congr (add_comm _ _)
      fun _ => rfl
  | _ => exact hvalue

lemma dereferenceBody_spends (type : Copied) (v r : ℕ) :
    Spends writable (readOf r + writeOf v) (dereferenceBody type v r) Call.owns :=
  (acquireRef_spends r).seq fun id => triple_pure (.copy type v id) Call.owns

/-! ### Nested containers -/

lemma cFCreateBody_spends (r c i : ℕ) {decrWrite : ℕ} (decrRead : ℕ) (h : 1 ≤ decrWrite) :
    Spends writable
      (readOf i + (decrWrite • writeOf c + decrRead • readOf c + writeOf r))
      (cFCreateBody r c i decrWrite decrRead) fun _ => 0 := by
  have hnested : ∀ s, Spends writable (decrWrite • writeOf c + decrRead • readOf c)
      (createNested c s 1 1 decrWrite decrRead) fun d => readOf d + writeOf d :=
    fun s => (createNested_spends c s 1 1 decrWrite decrRead).congr (by rw [max_eq_right h])
      fun d => by rw [Nat.sub_eq_zero_of_le h, one_smul, one_smul, zero_smul, add_zero]
  exact (retrieveDecr_spends i).spend fun s => (hnested s).seq fun res => storeRwRef_spends r res

lemma createRef_spends (r c : ℕ) (i : Text) :
    Spends writable (readOf c + writeOf c + writeOf r)
      (do let res ← createNested c i 1 1 1 1; storeRwRef r res) fun _ => 0 := by
  have hnested : Spends writable (readOf c + writeOf c) (createNested c i 1 1 1 1)
      fun d => readOf d + writeOf d :=
    (createNested_spends c i 1 1 1 1).congr (by simp [add_comm]) fun d => by simp
  exact hnested.seq fun res => storeRwRef_spends r res

lemma crVCreateBody_spends (r : ℕ) {cr : ℕ} (i : Text) (h : writable cr) :
    Spends writable (readOf cr + writeOf r) (crVCreateBody r cr i) fun _ => 0 :=
  (acquireWriteRef_spends h).seq fun c => createRef_spends r c i

lemma crFCreateBody_spends (r : ℕ) {cr : ℕ} (i : ℕ) (h : writable cr) :
    Spends writable (readOf cr + (readOf i + writeOf r)) (crFCreateBody r cr i)
      fun _ => 0 :=
  (acquireWriteRef_spends h).seq fun c =>
    ((retrieveDecr_spends i).spend fun s => createRef_spends r c s).congr (by abel) fun _ => rfl

/-! ### What a container has -/

lemma containerSizeBody_spends (result container : ℕ) :
    Spends writable (readOf container + writeOf result)
      (containerSizeBody result container) fun _ => 0 :=
  (containerSize_spends container).spend fun _ => storeValue_spends result _

lemma existsBody_spends (result c i : ℕ) :
    Spends writable (readOf i + (readOf c + writeOf result))
      (existsBody result c i) fun _ => 0 :=
  (retrieveDecr_spends i).spend fun iVal =>
    (existsSub_spends c iVal).spend fun _ => storeValue_spends result _

lemma containsBody_spends (result c i : ℕ) :
    Spends writable (readOf i + (readOf c + writeOf result))
      (containsBody result c i) fun _ => 0 :=
  existsBody_spends result c i

/-! ### Calls -/

lemma Call.front_spends (call : Call) :
    Spends writable call.takes call.front fun _ => call.takes + call.takes := by
  have htake : ∀ (c : ℕ) (incr : Bool),
      Spends writable (if incr then writeOf c else 0)
        (if incr then acquire c .write 1 else pure ())
        fun _ => (if incr then writeOf c else 0) + (if incr then writeOf c else 0) := by
    intro c incr
    cases incr with
    | true =>
      refine (acquire_spends c .write 1).congr rfl fun _ => ?_
      rw [one_smul]
      rfl
    | false => exact triple_return () 0
  cases call with
  | cFInsert c i d decrs incr => exact htake c incr
  | cFInsertR c i r decrs incr => exact htake c incr
  | cVInsertR c i r decrs incr => exact htake c incr
  | structInsertR c i r decrs incr => exact htake c incr
  | _ => exact triple_return () 0

lemma quiet_spends {h : Share Token} {c : Script Unit} (hc : Spends writable h c fun _ => 0) :
    Spends writable h (do c; return (0 : Multiset Call)) fun new => total Call.owns new :=
  hc.bind fun _ => triple_return 0 0

lemma Call.body_spends {call : Call} (h : call.Sound writable) :
    Spends writable call.owns call.body fun new => total Call.owns new := by
  cases call with
  | cFInsert c i d decrs incr => exact quiet_spends (cFInsertBody_spends c i d h)
  | cFInsertR c i r decrs incr => exact quiet_spends (cFInsertRBody_spends c i r h)
  | cVInsertR c i r decrs incr => exact quiet_spends (cVInsertRBody_spends c i r h)
  | cFLookup c i r => exact quiet_spends (cFLookupBody_spends c i h)
  | dereference type v r =>
    refine (dereferenceBody_spends type v r).bind fun new => ?_
    have hnew : total Call.owns {new} = new.owns := by rw [total, Multiset.map_singleton,
      Multiset.sum_singleton]
    exact (triple_pure {new} fun calls => total Call.owns calls).congr hnew.symm fun _ => rfl
  | copy type o i => exact quiet_spends (copyBody_spends type o i)
  | crVLookup cr i d => exact quiet_spends (crVLookupBody_spends cr i h)
  | crFLookup cr i d => exact quiet_spends (crFLookupBody_spends cr i h)
  | crFInsert cr j d => exact quiet_spends (crFInsertBody_spends h j d)
  | crVInsert cr j d => exact quiet_spends (crVInsertBody_spends h j d)
  | crVInsertR cr j dr => exact quiet_spends (crVInsertRBody_spends h j dr)
  | crFInsertR cr j dr => exact quiet_spends (crFInsertRBody_spends h j dr)
  | cFCreate r c i decrWrite decrRead => exact quiet_spends (cFCreateBody_spends r c i decrRead h)
  | crVCreate r cr i => exact quiet_spends (crVCreateBody_spends r i h)
  | crFCreate r cr i => exact quiet_spends (crFCreateBody_spends r i h)
  | containerSize result container =>
    exact quiet_spends (containerSizeBody_spends result container)
  | existsMember result c i => exact quiet_spends (existsBody_spends result c i)
  | contains result c i => exact quiet_spends (containsBody_spends result c i)
  | structrefReference structr subscript result =>
    exact quiet_spends (structrefReferenceBody_spends structr subscript h)
  | structInsertR struct subscript r decrs incr =>
    exact quiet_spends (structInsertRBody_spends struct subscript r h)

lemma quiet_new {c : Script Unit} {s t : State} {new : Multiset Call}
    (h : (do c; return (0 : Multiset Call)) s = (.ok new, t)) : new = 0 := by
  obtain ⟨_, u, -, hu⟩ := Cmd.bind_eq_ok.mp h
  cases hu
  rfl

lemma Call.body_sound {call : Call} {s t : State} {new : Multiset Call}
    (h : call.body s = (.ok new, t)) : ∀ made ∈ new, made.Sound writable := by
  cases call with
  | dereference type v r =>
    obtain ⟨made, u, hmade, hu⟩ := Cmd.bind_eq_ok.mp h
    obtain ⟨id, u', -, hid⟩ := Cmd.bind_eq_ok.mp hmade
    cases hu
    cases hid
    intro made hmem
    rw [Multiset.mem_singleton.mp hmem]
    trivial
  | _ =>
    obtain rfl := quiet_new h
    exact fun made hmem => absurd hmem (Multiset.notMem_zero made)

end Turbine.References
