import Turbine.Cache.Budget
import Turbine.Library.Recency

/-! The cache evicts the entry whose last store or retrieve is the oldest: stamps grow with each
access, so the leftmost node of `lru` is that entry. -/

namespace Turbine.Cache

open Std (ExtTreeMap)
open Library.Runs Library.Recency

abbrev Stored := ℤ × Ptr × BitVec 64

/-- What a call uses, and what it stores there. -/
def Call.use : Call → Option (Use ℤ Stored)
  | .store td type data length => some (.put td (type, data, length))
  | .check _ => none
  | .retrieve td => some (.get td)

/-- The uses of a run, the latest first. -/
def uses (calls : List Call) : List (Use ℤ Stored) := (calls.filterMap Call.use).reverse

def runCalls (s : State) (calls : List Call) : Except Fault State := calls.foldlM step s

/-- What the calls used so far say about the cached entries. -/
structure Recent (us : List (Use ℤ Stored)) (s : State) : Prop where
  stored : ∀ {p e}, Cached s p e → lastPut us e.td = some (e.type, e.data, e.length)
  ordered : ∀ {p q e f}, Cached s p e → Cached s q f → e.stamp < f.stamp →
    lastUse us e.td < lastUse us f.td

lemma uses_append (calls : List Call) (c : Call) :
    uses (calls ++ [c]) = c.use.toList ++ uses calls := by
  cases c <;> simp [uses, Call.use]

lemma runCalls_append (s : State) (calls : List Call) (c : Call) :
    runCalls s (calls ++ [c]) = (runCalls s calls).bind fun t => step t c := by
  simp only [runCalls, List.foldlM_append, List.foldlM_cons, List.foldlM_nil, bind_pure]
  rfl

lemma Recent.init (size : ℤ) (maxMemory : BitVec 64) :
    Recent [] (turbineCacheInit size maxMemory) where
  stored hc := by cases hc.entry
  ordered hc := by cases hc.entry

/-! ### What one access does to the entries -/

lemma cached_added {s : State} {td type : ℤ} {data : Ptr} {length : BitVec 64} {q : Ptr} {f : Entry}
    (hc : Cached (added s td type data length) q f) :
    f = ⟨td, type, data, length, s.counter⟩ ∨ Cached s q f := by
  by_cases hq : q = s.next
  · subst hq
    exact Or.inl (Option.some.inj (hc.entry.symm.trans (Function.update_self ..)))
  · have hentry : s.heap q = some f := by
      simpa [added, setEntry, Function.update_of_ne hq] using hc.entry
    have hid := hc.by_id
    have hstamp := hc.by_stamp
    simp only [added, setEntry, ExtTreeMap.getElem?_insert] at hid hstamp
    refine Or.inr ⟨hentry, ?_, ?_⟩
    · split at hid
      · exact (hq (Option.some.inj hid).symm).elim
      · exact hid
    · split at hstamp
      · exact (hq (Option.some.inj hstamp).symm).elim
      · exact hstamp

lemma getElem?_refiled {t : ExtTreeMap ℤ Ptr} {i j k : ℤ} {p q : Ptr} (hq : q ≠ p)
    (h : ((t.erase i).insert j p)[k]? = some q) : t[k]? = some q := by
  simp only [ExtTreeMap.getElem?_insert, ExtTreeMap.getElem?_erase] at h
  split at h
  · exact (hq (Option.some.inj h).symm).elim
  · split at h
    · cases h
    · exact h

lemma cached_replaced {s : State} {p : Ptr} {e : Entry} {td type : ℤ} {data : Ptr}
    {length : BitVec 64} {q : Ptr} {f : Entry}
    (hc : Cached (replaced s p e td type data length) q f) :
    f = ⟨td, type, data, length, s.counter⟩ ∨ Cached s q f := by
  by_cases hq : q = p
  · subst hq
    exact Or.inl (Option.some.inj (hc.entry.symm.trans (Function.update_self ..)))
  · have hentry : s.heap q = some f := by
      simpa [replaced, setEntry, Function.update_of_ne hq] using hc.entry
    exact Or.inr ⟨hentry, getElem?_refiled hq hc.by_id, getElem?_refiled hq hc.by_stamp⟩

lemma cached_touched {s : State} {p : Ptr} {e : Entry} {q : Ptr} {f : Entry}
    (hc : Cached (touched s p e) q f) :
    f = { e with stamp := s.counter } ∨ (Cached s q f ∧ q ≠ p) := by
  by_cases hq : q = p
  · subst hq
    exact Or.inl (Option.some.inj (hc.entry.symm.trans (Function.update_self ..)))
  · have hentry : s.heap q = some f := by
      simpa [touched, setEntry, Function.update_of_ne hq] using hc.entry
    exact Or.inr ⟨⟨hentry, hc.by_id, getElem?_refiled hq hc.by_stamp⟩, hq⟩

/-- A use leaves the entry it touches with the highest stamp, and the others as they were. -/
lemma Recent.use {us : List (Use ℤ Stored)} {u : Use ℤ Stored} {s s' : State} (h : Recent us s)
    (hl : Linked s)
    (hcases : ∀ {q f}, Cached s' q f →
      (f.td = u.key ∧ f.stamp = s.counter ∧
        lastPut (u :: us) u.key = some (f.type, f.data, f.length)) ∨
      (Cached s q f ∧ u.key ≠ f.td)) : Recent (u :: us) s' where
  stored := by
    intro q f hc
    rcases hcases hc with ⟨htd, -, hlast⟩ | ⟨hold, hne⟩
    · rw [htd, hlast]
    · rw [lastPut_of_ne hne]
      exact h.stored hold
  ordered := by
    intro q r f g hf hg hlt
    rcases hcases hf with ⟨-, hstamp, -⟩ | ⟨hf, hfne⟩
    · rcases hcases hg with ⟨-, hstamp', -⟩ | ⟨hg, -⟩
      · omega
      · have := hl.stamp_lt _ _ hg.by_stamp
        omega
    · rcases hcases hg with ⟨htd, -, -⟩ | ⟨hg, hgne⟩
      · rw [htd]
        exact lastUse_lt_self hfne
      · rw [lastUse_of_ne hfne, lastUse_of_ne hgne]
        exact h.ordered hf hg hlt

lemma Recent.miss {us : List (Use ℤ Stored)} {s : State} (h : Recent us s) (hl : Linked s)
    {td : ℤ} (htd : td ∉ s.entries) : Recent (.get td :: us) s :=
  h.use hl fun hc => Or.inr ⟨hc, fun heq => htd ((show td = _ from heq) ▸ hc.mem)⟩

lemma Recent.touched {us : List (Use ℤ Stored)} {s : State} (h : Recent us s) (hl : Linked s)
    {p : Ptr} {e : Entry} (hc : Cached s p e) : Recent (.get e.td :: us) (touched s p e) := by
  refine h.use hl ?_
  intro q f hf
  rcases cached_touched hf with rfl | ⟨hold, hq⟩
  · exact Or.inl ⟨rfl, rfl, h.stored hc⟩
  · exact Or.inr ⟨hold, fun heq => hq (hl.cached_unique hold hc (Or.inl heq.symm))⟩

lemma Recent.added {us : List (Use ℤ Stored)} {s : State} (h : Recent us s) (hl : Linked s)
    {td : ℤ} (htd : td ∉ s.entries) (type : ℤ) (data : Ptr) (length : BitVec 64) :
    Recent (.put td (type, data, length) :: us) (added s td type data length) := by
  refine h.use hl ?_
  intro q f hf
  rcases cached_added hf with rfl | hold
  · exact Or.inl ⟨rfl, rfl, if_pos rfl⟩
  · exact Or.inr ⟨hold, fun heq => htd ((show td = f.td from heq) ▸ hold.mem)⟩

lemma Recent.replaced {us : List (Use ℤ Stored)} {s : State} (h : Recent us s) (hl : Linked s)
    {td : ℤ} (htd : td ∉ s.entries) (p : Ptr) (e : Entry) (type : ℤ) (data : Ptr)
    (length : BitVec 64) :
    Recent (.put td (type, data, length) :: us) (replaced s p e td type data length) := by
  refine h.use hl ?_
  intro q f hf
  rcases cached_replaced hf with rfl | hold
  · exact Or.inl ⟨rfl, rfl, if_pos rfl⟩
  · exact Or.inr ⟨hold, fun heq => htd ((show td = f.td from heq) ▸ hold.mem)⟩

lemma card_cachedIds (s : State) : (cachedIds s).card = s.entries.size := by
  rw [cachedIds, List.toFinset_card_of_nodup, ExtTreeMap.length_keys]
  exact ExtTreeMap.nodup_keys

/-- The leftmost node is the entry that was used least recently. -/
lemma Recent.oldest {us : List (Use ℤ Stored)} {s : State} (h : Recent us s) (hl : Linked s)
    {p : Ptr} {e : Entry} (hc : Cached s p e) (hv : rbtreeLeftmost s.lru = some (e.stamp, p)) :
    Oldest us (cachedIds s) e.td := by
  refine ⟨mem_cachedIds.mpr hc.mem, ?_⟩
  intro td htd hne
  obtain ⟨q, hq⟩ := Option.isSome_iff_exists.mp
    (ExtTreeMap.isSome_getElem?_iff_mem.mpr (mem_cachedIds.mp htd))
  obtain ⟨f, hf, rfl⟩ := hl.hit hq
  have hmin : e.stamp ≤ f.stamp := by
    obtain ⟨k, hk, hnode⟩ := Option.bind_eq_some_iff.mp hv
    obtain ⟨r, -, hr⟩ := Option.map_eq_some_iff.mp hnode
    obtain rfl : k = e.stamp := congrArg Prod.fst hr
    have hmem : f.stamp ∈ s.lru := by
      rw [← ExtTreeMap.isSome_getElem?_iff_mem, hf.by_stamp]
      rfl
    exact Std.isLE_compare.mp (ExtTreeMap.minKey?_le_of_mem hmem (by simp [hk]))
  refine h.ordered hc hf (lt_of_le_of_ne hmin ?_)
  intro hstamp
  obtain rfl := hl.cached_unique hc hf (Or.inr hstamp)
  obtain rfl := Option.some.inj (hc.entry.symm.trans hf.entry)
  exact hne rfl

/-! ### Runs -/

/-- What holds after a run whose stores are of distinct ids. -/
structure Reached (size : ℤ) (calls : List Call) (s : State) : Prop where
  ready : Ready s
  maxEntries_eq : s.maxEntries = size
  stored : ∀ td ∈ s.entries, td ∈ storedIds calls
  recent : Recent (uses calls) s
  kept : Kept (size - 1).toNat (uses calls) (cachedIds s)

lemma storedIds_append (calls : List Call) (c : Call) :
    storedIds (calls ++ [c]) = storedIds calls ++ storedIds [c] :=
  List.filterMap_append

lemma cachedIds_added (s : State) (td type : ℤ) (data : Ptr) (length : BitVec 64) :
    cachedIds (added s td type data length) = insert td (cachedIds s) := by
  ext i
  simp [added, setEntry, @eq_comm _ i td]

lemma cachedIds_replaced (s : State) (p : Ptr) (e : Entry) (td type : ℤ) (data : Ptr)
    (length : BitVec 64) : cachedIds (replaced s p e td type data length) =
      insert td ((cachedIds s).erase e.td) := by
  ext i
  simp [replaced, setEntry, @eq_comm _ i td, @eq_comm _ i e.td]

/-- What one call on a ready cache does to the uses and to the cached ids. -/
lemma Recent.step {us : List (Use ℤ Stored)} {s s' : State} (h : Recent us s) (hr : Ready s)
    (hk : Kept (s.maxEntries - 1).toNat us (cachedIds s)) {c : Call}
    (hnew : ∀ {td type data length}, c = .store td type data length → td ∉ s.entries)
    (hs : step s c = .ok s') :
    Recent (c.use.toList ++ us) s' ∧
      Kept (s.maxEntries - 1).toNat (c.use.toList ++ us) (cachedIds s') := by
  have hcard := card_cachedIds s
  have hroom := hr.room
  cases c with
  | check td =>
    obtain rfl := Except.ok.inj hs
    exact ⟨h, hk⟩
  | retrieve td =>
    cases hp : s.entries[td]? with
    | none =>
      simp only [Cache.step, turbineCacheRetrieve, hp, Except.map] at hs
      obtain rfl := Except.ok.inj hs
      exact ⟨h.miss hr.toLinked (lookup_eq_none.mp hp), hk.get⟩
    | some p =>
      obtain ⟨e, hc, rfl⟩ := hr.hit hp
      simp only [Cache.step, turbineCacheRetrieve_eq hc, Except.map] at hs
      obtain rfl := Except.ok.inj hs
      exact ⟨h.touched hr.toLinked hc, hk.get⟩
  | store td type data length =>
    have htd := hnew rfl
    cases step_outcome hr hs with
    | same hns => exact (hns td type data length rfl).elim
    | added hnotfull =>
      refine ⟨h.added hr.toLinked htd type data length, ?_⟩
      rw [cachedIds_added]
      exact hk.add (by omega)
    | @replaced _ _ _ _ p e hfull hc hv =>
      refine ⟨h.replaced hr.toLinked htd p e type data length, ?_⟩
      rw [cachedIds_replaced]
      exact hk.evict (by omega) (h.oldest hr.toLinked hc hv)

lemma Reached.step {size : ℤ} (hsize : 2 ≤ size) {calls : List Call} {s : State}
    (h : Reached size calls s) {c : Call} (hd : (storedIds (calls ++ [c])).Nodup) :
    ∃ s', step s c = .ok s' ∧ Reached size (calls ++ [c]) s' := by
  have hnew : ∀ {td type data length}, c = .store td type data length → td ∉ s.entries := by
    rintro td type data length rfl htd
    rw [storedIds_append] at hd
    exact (List.disjoint_of_nodup_append hd) (h.stored td htd) (List.mem_singleton_self td)
  have hfits : Fits s c := by
    cases c with
    | check td => trivial
    | retrieve td => trivial
    | store td type data length =>
      exact storeFits_of_not_mem h.ready (h.maxEntries_eq ▸ hsize) (hnew rfl)
  obtain ⟨s', hs, hready⟩ := h.ready.step hfits
  refine ⟨s', hs, hready, (maxEntries_step h.ready hs).trans h.maxEntries_eq, ?_, ?_, ?_⟩
  · intro td htd
    rw [storedIds_append, List.mem_append]
    exact (mem_entries_step h.ready hs htd).imp_left (h.stored td)
  · rw [uses_append]
    exact (h.recent.step h.ready (h.maxEntries_eq ▸ h.kept) hnew hs).1
  · rw [uses_append, ← h.maxEntries_eq]
    exact (h.recent.step h.ready (h.maxEntries_eq ▸ h.kept) hnew hs).2

lemma reached (size : ℤ) (hsize : 2 ≤ size) (maxMemory : BitVec 64) (calls : List Call)
    (hd : (storedIds calls).Nodup) :
    ∃ s, runCalls (turbineCacheInit size maxMemory) calls = .ok s ∧ Reached size calls s := by
  induction calls using List.reverseRecOn with
  | nil =>
    have hids : cachedIds (turbineCacheInit size maxMemory) = ∅ := by
      ext td
      simp [turbineCacheInit]
    exact ⟨_, rfl, Ready.init (by omega) maxMemory, rfl, by simp [turbineCacheInit],
      Recent.init size maxMemory, hids ▸ Kept.nil⟩
  | append_singleton calls c ih =>
    obtain ⟨s, hs, hreached⟩ := ih (by rw [storedIds_append] at hd; exact hd.of_append_left)
    obtain ⟨s', hs', hreached'⟩ := hreached.step hsize hd
    exact ⟨s', by rw [runCalls_append, hs]; exact hs', hreached'⟩

/-- For every run of at least two slots and stores of distinct ids: the cache holds exactly the ids
kept by evicting the one used least recently, and a retrieve returns what was last stored. -/
theorem cache_keeps_recent (size : ℤ) (hsize : 2 ≤ size) (maxMemory : BitVec 64)
    (calls : List Call) (hd : (storedIds calls).Nodup) :
    ∃ s ids, runCalls (turbineCacheInit size maxMemory) calls = .ok s ∧
      Kept (size - 1).toNat (uses calls) ids ∧
      (∀ td, turbineCacheCheck s td = decide (td ∈ ids)) ∧
      ∀ td, (turbineCacheRetrieve s td).map (fun r => (r.1, r.2.1)) =
        .ok (if td ∈ ids then (.success, lastPut (uses calls) td) else (.notFound, none)) := by
  obtain ⟨s, hs, h⟩ := reached size hsize maxMemory calls hd
  refine ⟨s, cachedIds s, hs, h.kept, ?_, ?_⟩
  · intro td
    have hmax : s.maxEntries ≠ 0 := by
      rw [h.maxEntries_eq]
      omega
    simp only [turbineCacheCheck, if_neg hmax, mem_cachedIds]
    rw [Bool.eq_iff_iff]
    simp [ExtTreeMap.contains_iff_mem]
  · intro td
    cases hp : s.entries[td]? with
    | none =>
      have htd : td ∉ cachedIds s := by simpa using lookup_eq_none.mp hp
      simp only [turbineCacheRetrieve, hp, Except.map, if_neg htd]
    | some p =>
      obtain ⟨e, hc, rfl⟩ := h.ready.hit hp
      rw [turbineCacheRetrieve_eq hc, if_pos (mem_cachedIds.mpr hc.mem), h.recent.stored hc]
      rfl

theorem cache_keeps_recent_three :
    ∃ s ids, runCalls (turbineCacheInit 3 100) [.store 1 5 0 8, .store 2 5 0 8, .retrieve 1,
        .store 3 5 0 8] = .ok s ∧
      Kept (3 - 1 : ℤ).toNat (uses [.store 1 5 0 8, .store 2 5 0 8, .retrieve 1, .store 3 5 0 8])
        ids ∧
      (∀ td, turbineCacheCheck s td = decide (td ∈ ids)) ∧
      ∀ td, (turbineCacheRetrieve s td).map (fun r => (r.1, r.2.1)) =
        .ok (if td ∈ ids then (.success, lastPut (uses [.store 1 5 0 8, .store 2 5 0 8, .retrieve 1,
          .store 3 5 0 8]) td) else (.notFound, none)) :=
  cache_keeps_recent 3 (by decide) 100 _ (by decide)

end Turbine.Cache
