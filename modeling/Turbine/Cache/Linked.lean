import Turbine.Cache.Model
import Turbine.Library.LinkedIndexes

/-! The two indexes of the cache stay linked. A store keeps the link exactly when its id is not
cached, or is the id of the victim it replaces, and a victim exists when one is needed. -/

namespace Turbine.Cache

open Std (ExtTreeMap)
open Library.Runs

/-- The joint invariant of `entries` and `lru`: the same entries in both, each filed under its own
id and under its own stamp, all stamps below `counter`, at most `max_entries` of them. -/
structure Linked (s : State) : Prop where
  indexes : Library.LinkedIndexes.Linked Entry.td Entry.stamp
    (fun td : ℤ => s.entries[td]?) (fun k : ℤ => s.lru[k]?) s.heap
  stamp_lt : ∀ (k : ℤ) (p : Ptr), s.lru[k]? = some p → k < s.counter
  size_le : (s.entries.size : ℤ) ≤ s.maxEntries

/-- What the code relies on besides the link: fresh addresses are unused, and the last slot stays
free, because a store that would take it replaces the least recently used entry instead. -/
structure Ready (s : State) : Prop extends Linked s where
  fresh : ∀ p, s.next ≤ p → s.heap p = none
  room : (s.entries.size : ℤ) < s.maxEntries

/-- The state before a store lets it keep the link: with one slot left there is a victim, and once
the victim is gone the id is not cached. -/
def StoreFits (s : State) (td : ℤ) : Prop :=
  if s.maxEntries - s.entries.size = 1 then
    ∃ k p e, rbtreeLeftmost s.lru = some (k, p) ∧ s.heap p = some e ∧ td ∉ s.entries.erase e.td
  else td ∉ s.entries

def Fits (s : State) : Call → Prop
  | .store td _ _ _ => StoreFits s td
  | .check _ => True
  | .retrieve _ => True

lemma lookup_insert (t : ExtTreeMap ℤ Ptr) (k : ℤ) (p : Ptr) :
    (fun a : ℤ => (t.insert k p)[a]?) = Function.update (fun a : ℤ => t[a]?) k (some p) := by
  funext a
  by_cases h : a = k
  · simp [h]
  · simp [ExtTreeMap.getElem?_insert, Ne.symm h, Function.update_of_ne h]

lemma lookup_erase (t : ExtTreeMap ℤ Ptr) (k : ℤ) :
    (fun a : ℤ => (t.erase k)[a]?) = Function.update (fun a : ℤ => t[a]?) k none := by
  funext a
  by_cases h : a = k
  · simp [h]
  · simp [ExtTreeMap.getElem?_erase, Ne.symm h, Function.update_of_ne h]

lemma lookup_eq_none {t : ExtTreeMap ℤ Ptr} {k : ℤ} : t[k]? = none ↔ k ∉ t := by
  rw [← ExtTreeMap.isSome_getElem?_iff_mem]
  cases t[k]? <;> simp

/-- What a successful `cache_add` leaves behind. -/
def added (s : State) (td type : ℤ) (data : Ptr) (length : BitVec 64) : State :=
  { setEntry { s with next := s.next + 1 } s.next
      { td, type, data, length, stamp := s.counter } with
    entries := s.entries.insert td s.next
    lru := s.lru.insert s.counter s.next
    counter := s.counter + 1
    memory := s.memory - length }

/-- What a successful `cache_replace` leaves behind when it evicts entry `e` at `p`. -/
def replaced (s : State) (p : Ptr) (e : Entry) (td type : ℤ) (data : Ptr)
    (length : BitVec 64) : State :=
  { setEntry s p { td, type, data, length, stamp := s.counter } with
    entries := (s.entries.erase e.td).insert td p
    lru := (s.lru.erase e.stamp).insert s.counter p
    memory := s.memory + e.length - length
    counter := s.counter + 1 }

/-- What a hit of `turbine_cache_retrieve` leaves behind. -/
def touched (s : State) (p : Ptr) (e : Entry) : State :=
  { setEntry { s with lru := (s.lru.erase e.stamp).insert s.counter p } p
      { e with stamp := s.counter } with counter := s.counter + 1 }

/-- Entry `e` at `p` is cached: both indexes file it. -/
structure Cached (s : State) (p : Ptr) (e : Entry) : Prop where
  entry : s.heap p = some e
  by_id : s.entries[e.td]? = some p
  by_stamp : s.lru[e.stamp]? = some p

/-- One entry per id, and pairwise distinct stamps. -/
theorem Linked.cached_unique {s : State} (h : Linked s) {p q : Ptr} {e f : Entry}
    (hp : Cached s p e) (hq : Cached s q f) (heq : e.td = f.td ∨ e.stamp = f.stamp) : p = q :=
  h.indexes.unique ⟨_, hp.by_id⟩ ⟨_, hq.by_id⟩ hp.entry hq.entry heq

lemma Linked.victim {s : State} (h : Linked s) {k : ℤ} {p : Ptr}
    (hv : rbtreeLeftmost s.lru = some (k, p)) : ∃ e, Cached s p e ∧ e.stamp = k := by
  have hk := rbtreeLeftmost_eq_some hv
  obtain ⟨e, he, rfl, ht⟩ := h.indexes.of_snd hk
  exact ⟨e, ⟨he, ht, hk⟩, rfl⟩

lemma Linked.hit {s : State} (h : Linked s) {td : ℤ} {p : Ptr} (hp : s.entries[td]? = some p) :
    ∃ e, Cached s p e ∧ e.td = td := by
  obtain ⟨e, he, rfl, hk⟩ := h.indexes.of_fst hp
  exact ⟨e, ⟨he, hp, hk⟩, rfl⟩

lemma cacheAdd_eq (s : State) (td type : ℤ) (data : Ptr) (length : BitVec 64) :
    cacheAdd s td type data length = .ok (added s td type data length) :=
  cacheShrink_eq _

lemma cacheReplace_eq {s : State} {p : Ptr} {e : Entry} (hc : Cached s p e)
    (hv : rbtreeLeftmost s.lru = some (e.stamp, p)) (td type : ℤ) (data : Ptr)
    (length : BitVec 64) :
    cacheReplace s td type data length = .ok (replaced s p e td type data length) := by
  simp only [cacheReplace, hv, deref, hc.entry]
  simp only [bind, Except.bind, hc.by_id, ne_eq, not_true, if_false]
  exact cacheShrink_eq _

lemma turbineCacheRetrieve_eq {s : State} {p : Ptr} {e : Entry} (hc : Cached s p e) :
    turbineCacheRetrieve s e.td =
      .ok (.success, some (e.type, e.data, e.length), touched s p e) := by
  simp only [turbineCacheRetrieve, hc.by_id, deref, hc.entry]
  simp [bind, Except.bind, rbtreeMove, hc.by_stamp, touched, setEntry]

lemma step_store {s : State} (h : Ready s) (td type : ℤ) (data : Ptr) (length : BitVec 64) :
    step s (.store td type data length) =
      if s.maxEntries - s.entries.size = 1 then cacheReplace s td type data length
      else .ok (added s td type data length) := by
  have h0 : s.maxEntries ≠ 0 := by have := h.room; omega
  simp only [step, turbineCacheStore, h0, h.size_le, not_true, if_false, cacheAdd_eq]

/-- What one call on a ready cache can do. -/
inductive Outcome (s : State) : Call → State → Prop
  | same {c} : (∀ td type data length, c ≠ .store td type data length) → Outcome s c s
  | touched {p e} : Cached s p e → Outcome s (.retrieve e.td) (touched s p e)
  | added {td type data length} : s.maxEntries - s.entries.size ≠ 1 →
      Outcome s (.store td type data length) (added s td type data length)
  | replaced {td type data length p e} : s.maxEntries - s.entries.size = 1 → Cached s p e →
      rbtreeLeftmost s.lru = some (e.stamp, p) →
      Outcome s (.store td type data length) (replaced s p e td type data length)

lemma step_outcome {s s' : State} {c : Call} (h : Ready s) (hs : step s c = .ok s') :
    Outcome s c s' := by
  cases c with
  | check td =>
    obtain rfl : s = s' := Except.ok.inj hs
    exact .same (by simp)
  | retrieve td =>
    cases hp : s.entries[td]? with
    | none =>
      simp only [step, turbineCacheRetrieve, hp, Except.map] at hs
      obtain rfl : s = s' := Except.ok.inj hs
      exact .same (by simp)
    | some p =>
      obtain ⟨e, hc, rfl⟩ := h.hit hp
      simp only [step, turbineCacheRetrieve_eq hc, Except.map] at hs
      obtain rfl := Except.ok.inj hs
      exact .touched hc
  | store td type data length =>
    rw [step_store h] at hs
    split at hs
    · rename_i hfull
      cases hv : rbtreeLeftmost s.lru with
      | none => simp [cacheReplace, hv] at hs
      | some node =>
        obtain ⟨k, p⟩ := node
        obtain ⟨e, hc, rfl⟩ := h.victim hv
        rw [cacheReplace_eq hc hv] at hs
        obtain rfl := Except.ok.inj hs
        exact .replaced hfull hc hv
    · rename_i hroom
      obtain rfl := Except.ok.inj hs
      exact .added hroom

lemma Ready.init {size : ℤ} (h : 1 ≤ size) (maxMemory : BitVec 64) :
    Ready (turbineCacheInit size maxMemory) where
  indexes := by simpa [turbineCacheInit] using Library.LinkedIndexes.Linked.empty
  stamp_lt := by simp [turbineCacheInit]
  size_le := by simp [turbineCacheInit]; omega
  fresh := by simp [turbineCacheInit]
  room := by simp [turbineCacheInit]; omega

lemma Ready.counter_free {s : State} (h : Ready s) : s.lru[s.counter]? = none := by
  by_contra hne
  obtain ⟨p, hp⟩ := Option.ne_none_iff_exists'.mp hne
  exact lt_irrefl _ (h.stamp_lt _ p hp)

lemma Ready.next_free {s : State} (h : Ready s) (k : ℤ) : s.lru[k]? ≠ some s.next := by
  intro hk
  obtain ⟨e, he, -⟩ := h.indexes.snd_key k _ hk
  simp [h.fresh s.next le_rfl] at he

lemma Ready.allocated {s : State} (h : Ready s) {p : Ptr} {e : Entry} (he : s.heap p = some e) :
    p < s.next := by
  by_contra hp
  simp [h.fresh p (not_lt.mp hp)] at he

lemma Ready.added {s : State} (h : Ready s) {td type : ℤ} {data : Ptr} {length : BitVec 64}
    (hroom : s.maxEntries - s.entries.size ≠ 1) (htd : td ∉ s.entries) :
    Ready (added s td type data length) := by
  have hsize : (s.entries.insert td s.next).size = s.entries.size + 1 := by
    rw [ExtTreeMap.size_insert, if_neg (by simpa using htd)]
  have hr := h.room
  refine ⟨⟨?_, ?_, ?_⟩, ?_, ?_⟩
  · simp only [Cache.added, setEntry, lookup_insert]
    exact h.indexes.link (n := ⟨td, type, data, length, s.counter⟩) h.next_free
      (lookup_eq_none.mpr htd) h.counter_free
  · intro k p hk
    simp only [Cache.added, ExtTreeMap.getElem?_insert] at hk ⊢
    split at hk
    · rename_i heq
      simp only [compare_eq_iff_eq] at heq
      omega
    · have := h.stamp_lt k p hk
      omega
  · change ((s.entries.insert td s.next).size : ℤ) ≤ s.maxEntries
    rw [hsize]
    push_cast
    omega
  · intro p hp
    simp only [Cache.added, setEntry] at hp ⊢
    rw [Function.update_of_ne (Nat.lt_of_succ_le hp).ne']
    exact h.fresh p (Nat.le_of_succ_le hp)
  · change ((s.entries.insert td s.next).size : ℤ) < s.maxEntries
    rw [hsize]
    push_cast
    omega

lemma stamp_lt_refiled {s : State} (h : Linked s) (old : ℤ) (p : Ptr) (k : ℤ) (q : Ptr)
    (hk : ((s.lru.erase old).insert s.counter p)[k]? = some q) : k < s.counter + 1 := by
  simp only [ExtTreeMap.getElem?_insert, ExtTreeMap.getElem?_erase] at hk
  split at hk
  · rename_i heq
    simp only [compare_eq_iff_eq] at heq
    omega
  · split at hk
    · simp at hk
    · have := h.stamp_lt k q hk
      omega

lemma Ready.refiled_free {s : State} (h : Ready s) (old : ℤ) :
    Function.update (fun k : ℤ => s.lru[k]?) old none s.counter = none := by
  by_cases hk : s.counter = old
  · simp [hk]
  · simpa [Function.update_of_ne hk] using h.counter_free

lemma size_erase_insert_le (t : ExtTreeMap ℤ Ptr) {i : ℤ} (j : ℤ) (p : Ptr) (hi : i ∈ t) :
    ((t.erase i).insert j p).size ≤ t.size := by
  have hpos : 0 < t.keys.length := List.length_pos_of_mem (ExtTreeMap.mem_keys.mpr hi)
  rw [ExtTreeMap.length_keys] at hpos
  have hle := ExtTreeMap.size_insert_le (t := t.erase i) (k := j) (v := p)
  rw [ExtTreeMap.size_erase, if_pos (ExtTreeMap.contains_iff_mem.mpr hi)] at hle
  omega

lemma Cached.mem {s : State} {p : Ptr} {e : Entry} (hc : Cached s p e) : e.td ∈ s.entries := by
  rw [← ExtTreeMap.isSome_getElem?_iff_mem, hc.by_id]
  rfl

lemma Ready.replaced {s : State} (h : Ready s) {p : Ptr} {e : Entry} (hc : Cached s p e)
    {td type : ℤ} {data : Ptr} {length : BitVec 64} (htd : td ∉ s.entries.erase e.td) :
    Ready (replaced s p e td type data length) := by
  obtain ⟨hlink, -, hfree⟩ := h.indexes.unlink hc.entry hc.by_id hc.by_stamp
  have hsize := size_erase_insert_le s.entries td p hc.mem
  have hr := h.room
  have hp := h.allocated hc.entry
  refine ⟨⟨?_, ?_, ?_⟩, ?_, ?_⟩
  · simp only [Cache.replaced, setEntry, lookup_insert, lookup_erase]
    refine hlink.link (n := ⟨td, type, data, length, s.counter⟩) hfree ?_ (h.refiled_free _)
    have hnone := lookup_eq_none.mpr htd
    rwa [← congrFun (lookup_erase s.entries e.td) td]
  · exact stamp_lt_refiled h.toLinked _ _
  · change (((s.entries.erase e.td).insert td p).size : ℤ) ≤ s.maxEntries
    omega
  · intro q hq
    simp only [Cache.replaced, setEntry] at hq ⊢
    rw [Function.update_of_ne (hp.trans_le hq).ne']
    exact h.fresh q hq
  · change (((s.entries.erase e.td).insert td p).size : ℤ) < s.maxEntries
    omega

lemma Ready.touched {s : State} (h : Ready s) {p : Ptr} {e : Entry} (hc : Cached s p e) :
    Ready (touched s p e) := by
  obtain ⟨hlink, -, hfree⟩ := h.indexes.unlink hc.entry hc.by_id hc.by_stamp
  have hp := h.allocated hc.entry
  refine ⟨⟨?_, ?_, ?_⟩, ?_, ?_⟩
  · have hl := hlink.link (n := { e with stamp := s.counter }) hfree (by simp)
      (h.refiled_free _)
    have hsame : Function.update (Function.update (fun td : ℤ => s.entries[td]?) e.td none) e.td
        (some p) = fun td : ℤ => s.entries[td]? := by
      rw [Function.update_idem, Function.update_eq_self_iff]
      exact hc.by_id.symm
    simp only [Cache.touched, setEntry, lookup_insert, lookup_erase]
    rwa [hsame] at hl
  · exact stamp_lt_refiled h.toLinked _ _
  · exact h.size_le
  · intro q hq
    simp only [Cache.touched, setEntry] at hq ⊢
    rw [Function.update_of_ne (hp.trans_le hq).ne']
    exact h.fresh q hq
  · exact h.room

lemma Ready.step {s : State} (h : Ready s) {c : Call} (hf : Fits s c) :
    ∃ s', step s c = .ok s' ∧ Ready s' := by
  cases c with
  | check td => exact ⟨s, rfl, h⟩
  | retrieve td =>
    cases hp : s.entries[td]? with
    | none => exact ⟨s, by simp [Cache.step, turbineCacheRetrieve, hp, Except.map], h⟩
    | some p =>
      obtain ⟨e, hc, rfl⟩ := h.hit hp
      exact ⟨Cache.touched s p e, by simp [Cache.step, turbineCacheRetrieve_eq hc, Except.map],
        h.touched hc⟩
  | store td type data length =>
    rw [step_store h]
    change StoreFits s td at hf
    unfold StoreFits at hf
    split at hf
    · rename_i hfull
      obtain ⟨k, p, e, hv, he, htd⟩ := hf
      obtain ⟨e', hc, rfl⟩ := h.victim hv
      obtain rfl : e = e' := Option.some.inj (he.symm.trans hc.entry)
      rw [if_pos hfull, cacheReplace_eq hc hv]
      exact ⟨_, rfl, h.replaced hc htd⟩
    · rename_i hroom
      rw [if_neg hroom]
      exact ⟨_, rfl, h.added hroom hf⟩

lemma Ready.fits {s s' : State} (h : Ready s) {c : Call} (hs : Cache.step s c = .ok s')
    (hl : Linked s') : Fits s c := by
  cases step_outcome h hs with
  | same hns =>
    cases c with
    | store td type data length => exact (hns td type data length rfl).elim
    | check td => trivial
    | retrieve td => trivial
  | touched hc => trivial
  | @added td type data length hroom =>
    change StoreFits s td
    rw [StoreFits, if_neg hroom]
    by_contra htd
    have hx := hl.indexes
    simp only [Cache.added, setEntry, lookup_insert] at hx
    exact h.indexes.link_conflict (n := ⟨td, type, data, length, s.counter⟩) h.next_free
      (by simpa [lookup_eq_none] using htd) h.counter_free hx
  | @replaced td type data length p e hfull hc hv =>
    change StoreFits s td
    rw [StoreFits, if_pos hfull]
    refine ⟨e.stamp, p, e, hv, hc.entry, ?_⟩
    by_contra htd
    obtain ⟨hlink, -, hfree⟩ := h.indexes.unlink hc.entry hc.by_id hc.by_stamp
    have hx := hl.indexes
    simp only [Cache.replaced, setEntry, lookup_insert, lookup_erase] at hx
    refine hlink.link_conflict (n := ⟨td, type, data, length, s.counter⟩) hfree ?_
      (h.refiled_free _) hx
    rw [← lookup_erase]
    simpa [lookup_eq_none] using htd

/-- The cache stays linked, no assertion fails and no victim is looked up in an empty tree, in
exactly the runs whose stores all fit. -/
theorem linked_iff_fits (size : ℤ) (hsize : 1 ≤ size) (maxMemory : BitVec 64) (calls : List Call) :
    Safe Cache.step Linked (turbineCacheInit size maxMemory) calls ↔
      Guarded Cache.step Fits (turbineCacheInit size maxMemory) calls :=
  safe_iff_guarded (fun _ h => h.toLinked) (fun _ _ h hf => h.step hf)
    (fun _ _ _ h hs hl => h.fits hs hl) (Ready.init hsize maxMemory) calls

theorem linked_two_stores :
    Safe Cache.step Linked (turbineCacheInit 2 0) [.store 1 0 0 8, .store 2 0 0 8] := by
  refine (linked_iff_fits 2 (by decide) 0 _).mpr ⟨?_, ?_⟩
  · simp [Fits, StoreFits, turbineCacheInit]
  · intro s hs
    obtain rfl := Except.ok.inj ((cacheAdd_eq _ 1 0 0 8).symm.trans hs)
    refine ⟨?_, fun _ _ => trivial⟩
    change StoreFits _ 2
    rw [StoreFits, if_pos (by decide)]
    refine ⟨0, 0, ⟨1, 0, 0, 8, 0⟩, ?_, rfl, by decide⟩
    simp [rbtreeLeftmost, added, setEntry, turbineCacheInit, ExtTreeMap.minKey?_insert]

/-- A cache of size one looks for its victim in an empty tree at the first store, and storing an
id twice in a large cache leaves two nodes for one entry. -/
theorem not_linked_size_one_or_repeated_id :
    (¬ Safe Cache.step Linked (turbineCacheInit 1 100) [.store 7 0 0 8]) ∧
      ¬ Safe Cache.step Linked (turbineCacheInit 1024 10485760)
        [.store 7 0 0 8, .store 7 0 0 8] := by
  constructor
  · rintro ⟨_, s, hs, -⟩
    simp [Cache.step, turbineCacheStore, turbineCacheInit, cacheReplace, rbtreeLeftmost] at hs
  · rintro ⟨_, s, hs, _, s', hs', hl⟩
    have h0 := Ready.init (show (1 : ℤ) ≤ 1024 by decide) 10485760
    have hfits : Fits (turbineCacheInit 1024 10485760) (.store 7 0 0 8) := by
      simp [Fits, StoreFits, turbineCacheInit]
    obtain ⟨t, ht, hready⟩ := h0.step hfits
    obtain rfl : s = t := Except.ok.inj (hs.symm.trans ht)
    obtain rfl := Except.ok.inj ((cacheAdd_eq _ 7 0 0 8).symm.trans hs)
    have hbad : StoreFits _ 7 := hready.fits hs' hl
    rw [StoreFits, if_neg (by decide)] at hbad
    exact hbad (by decide)

end Turbine.Cache
