import Turbine.Cache.Linked

/-! The memory budget of the cache. The eviction loop never runs, so the budget is kept in exactly
the runs whose stores never need it. -/

namespace Turbine.Cache

open Std (ExtTreeMap)
open Library.Runs

def lengthOf (s : State) (td : ℤ) : ℕ :=
  ((s.entries[td]?).bind s.heap).elim 0 fun e => e.length.toNat

def cachedIds (s : State) : Finset ℤ := s.entries.keys.toFinset

/-- The sum of the lengths of the entries still cached. -/
def used (s : State) : ℕ := (cachedIds s).sum (lengthOf s)

/-- The cached data fits the budget and `memory` is what is left of it. -/
def BudgetKept (maxMemory : BitVec 64) (s : State) : Prop :=
  used s ≤ maxMemory.toNat ∧ s.memory.toNat = maxMemory.toNat - used s

/-- What `memory` holds in any case: the rest of the budget modulo the word size. -/
def Balanced (maxMemory : BitVec 64) (s : State) : Prop :=
  s.memory = maxMemory - BitVec.ofNat 64 (used s)

/-- The length of the entry a store of this state would evict. -/
def victimLength (s : State) : ℕ :=
  if s.maxEntries - s.entries.size = 1 then
    ((rbtreeLeftmost s.lru).bind fun node => s.heap node.2).elim 0 fun e => e.length.toNat
  else 0

/-- The new entry, in place of the one it evicts, still fits the budget. -/
def FitsBudget (maxMemory : BitVec 64) (s : State) : Call → Prop
  | .store _ _ _ length => used s - victimLength s + length.toNat ≤ maxMemory.toNat
  | .check _ => True
  | .retrieve _ => True

def storedIds (calls : List Call) : List ℤ :=
  calls.filterMap fun
    | .store td _ _ _ => some td
    | .check _ => none
    | .retrieve _ => none

@[simp] lemma mem_cachedIds {s : State} {td : ℤ} : td ∈ cachedIds s ↔ td ∈ s.entries := by
  simp [cachedIds, ExtTreeMap.mem_keys]

lemma budgetKept_iff {maxMemory : BitVec 64} {s : State} (h : Balanced maxMemory s) :
    BudgetKept maxMemory s ↔ used s ≤ maxMemory.toNat := by
  refine ⟨fun hb => hb.1, fun hu => ⟨hu, ?_⟩⟩
  have hm := maxMemory.isLt
  rw [h, BitVec.toNat_sub, BitVec.toNat_ofNat, Nat.mod_eq_of_lt (by omega : used s < 2 ^ 64)]
  omega

lemma lengthOf_cached {s : State} {p : Ptr} {e : Entry} (hc : Cached s p e) :
    lengthOf s e.td = e.length.toNat := by
  simp [lengthOf, hc.by_id, hc.entry]

lemma used_touched {s : State} (h : Linked s) {p : Ptr} {e : Entry} (hc : Cached s p e) :
    used (touched s p e) = used s := by
  refine Finset.sum_congr rfl ?_
  intro td htd
  change ((s.entries[td]?).bind (Function.update s.heap p _)).elim _ _ = _
  by_cases hp : s.entries[td]? = some p
  · obtain ⟨e', hc', rfl⟩ := h.hit hp
    obtain rfl : e = e' := Option.some.inj (hc.entry.symm.trans hc'.entry)
    simp [lengthOf_cached hc, hp]
  · cases hq : s.entries[td]? with
    | none => simp [lengthOf, hq]
    | some q =>
      have hne : q ≠ p := fun he => hp (he ▸ hq)
      simp [lengthOf, hq, Function.update_of_ne hne]

lemma used_added {s : State} (h : Ready s) {td type : ℤ} {data : Ptr} {length : BitVec 64}
    (htd : td ∉ s.entries) : used (added s td type data length) = used s + length.toNat := by
  have hids : cachedIds (added s td type data length) = insert td (cachedIds s) := by
    ext i
    simp [added, setEntry, @eq_comm _ i td]
  have hnew : lengthOf (added s td type data length) td = length.toNat := by
    simp [lengthOf, added, setEntry]
  have hold : ∀ i ∈ cachedIds s, lengthOf (added s td type data length) i = lengthOf s i := by
    intro i hi
    have hne : td ≠ i := by
      rintro rfl
      exact htd (mem_cachedIds.mp hi)
    cases hq : s.entries[i]? with
    | none => simp [lengthOf, added, setEntry, ExtTreeMap.getElem?_insert, hne, hq]
    | some q =>
      obtain ⟨e, hc, -⟩ := h.hit hq
      have hqn : q ≠ s.next := (h.allocated hc.entry).ne
      simp [lengthOf, added, setEntry, ExtTreeMap.getElem?_insert, hne, hq,
        Function.update_of_ne hqn]
  rw [used, hids, Finset.sum_insert (by simpa using htd), hnew, Finset.sum_congr rfl hold, used]
  omega

lemma used_replaced {s : State} (h : Linked s) {p : Ptr} {e : Entry} (hc : Cached s p e)
    {td : ℤ} (type : ℤ) (data : Ptr) (length : BitVec 64) (htd : td ∉ s.entries.erase e.td) :
    used (replaced s p e td type data length) + e.length.toNat = used s + length.toNat := by
  have hids : cachedIds (replaced s p e td type data length) =
      insert td ((cachedIds s).erase e.td) := by
    ext i
    simp [replaced, setEntry, @eq_comm _ i td, @eq_comm _ i e.td]
  have hnew : lengthOf (replaced s p e td type data length) td = length.toNat := by
    simp [lengthOf, replaced, setEntry]
  have hfresh : td ∉ (cachedIds s).erase e.td := by
    simpa [Finset.mem_erase, @eq_comm _ td e.td] using htd
  have hold : ∀ i ∈ (cachedIds s).erase e.td,
      lengthOf (replaced s p e td type data length) i = lengthOf s i := by
    intro i hi
    have hne : td ≠ i := by
      rintro rfl
      exact hfresh hi
    have hie : e.td ≠ i := (Finset.ne_of_mem_erase hi).symm
    cases hq : s.entries[i]? with
    | none =>
      simp [lengthOf, replaced, setEntry, ExtTreeMap.getElem?_insert, ExtTreeMap.getElem?_erase,
        hne, hie, hq]
    | some q =>
      have hqp : q ≠ p := by
        rintro rfl
        obtain ⟨e', hc', rfl⟩ := h.hit hq
        obtain rfl : e = e' := Option.some.inj (hc.entry.symm.trans hc'.entry)
        exact hie rfl
      simp [lengthOf, replaced, setEntry, ExtTreeMap.getElem?_insert, ExtTreeMap.getElem?_erase,
        hne, hie, hq, Function.update_of_ne hqp]
  have herase : ((cachedIds s).erase e.td).sum (lengthOf s) + lengthOf s e.td =
      (cachedIds s).sum (lengthOf s) := Finset.sum_erase_add _ _ (mem_cachedIds.mpr hc.mem)
  rw [used, hids, Finset.sum_insert hfresh, hnew, Finset.sum_congr rfl hold]
  rw [lengthOf_cached hc] at herase
  rw [used]
  omega

lemma victimLength_replaced {s : State} {p : Ptr} {e : Entry}
    (hfull : s.maxEntries - s.entries.size = 1) (hc : Cached s p e)
    (hv : rbtreeLeftmost s.lru = some (e.stamp, p)) : victimLength s = e.length.toNat := by
  simp [victimLength, hfull, hv, hc.entry]

lemma Balanced.step {maxMemory : BitVec 64} {s s' : State} {c : Call}
    (h : Ready s) (hb : Balanced maxMemory s) (hs : step s c = .ok s') (hf : Fits s c) :
    Balanced maxMemory s' := by
  unfold Balanced at hb ⊢
  cases step_outcome h hs with
  | same => exact hb
  | touched hc =>
    rw [used_touched h.toLinked hc]
    exact hb
  | added hroom =>
    simp only [Fits, StoreFits, if_neg hroom] at hf
    rw [used_added h hf]
    change s.memory - _ = _
    rw [hb, BitVec.ofNat_add, BitVec.ofNat_toNat, BitVec.setWidth_eq]
    ring
  | @replaced td type data length p e hfull hc hv =>
    simp only [Fits, StoreFits, if_pos hfull] at hf
    obtain ⟨k, q, e', hv', he', htd⟩ := hf
    obtain ⟨rfl, rfl⟩ : e.stamp = k ∧ p = q := by
      simpa [hv] using hv'
    obtain rfl : e = e' := Option.some.inj (hc.entry.symm.trans he')
    have hused := used_replaced h.toLinked hc type data length htd
    change s.memory + e.length - length = _
    have hcast : BitVec.ofNat 64 (used (replaced s p e td type data length)) + e.length =
        BitVec.ofNat 64 (used s) + length := by
      simpa [BitVec.ofNat_add] using congrArg (BitVec.ofNat 64) hused
    rw [hb]
    linear_combination hcast

lemma used_step_iff {maxMemory : BitVec 64} {s s' : State} {c : Call} (h : Ready s)
    (hu : used s ≤ maxMemory.toNat) (hs : step s c = .ok s') (hf : Fits s c) :
    used s' ≤ maxMemory.toNat ↔ FitsBudget maxMemory s c := by
  cases step_outcome h hs with
  | same hns =>
    cases c with
    | store td type data length => exact (hns td type data length rfl).elim
    | check td => exact iff_of_true hu trivial
    | retrieve td => exact iff_of_true hu trivial
  | touched hc =>
    rw [used_touched h.toLinked hc]
    exact iff_of_true hu trivial
  | added hroom =>
    simp only [Fits, StoreFits, if_neg hroom] at hf
    rw [used_added h hf]
    simp [FitsBudget, victimLength, hroom]
  | @replaced td type data length p e hfull hc hv =>
    simp only [Fits, StoreFits, if_pos hfull] at hf
    obtain ⟨k, q, e', hv', he', htd⟩ := hf
    obtain ⟨rfl, rfl⟩ : e.stamp = k ∧ p = q := by
      simpa [hv] using hv'
    obtain rfl : e = e' := Option.some.inj (hc.entry.symm.trans he')
    have hused := used_replaced h.toLinked hc type data length htd
    have hle : e.length.toNat ≤ used s := by
      rw [← lengthOf_cached hc]
      exact Finset.single_le_sum (f := lengthOf s) (fun _ _ => Nat.zero_le _)
        (mem_cachedIds.mpr hc.mem)
    simp only [FitsBudget, victimLength_replaced hfull hc hv]
    omega

lemma mem_entries_step {s s' : State} {c : Call} (h : Ready s) (hs : step s c = .ok s') {i : ℤ}
    (hi : i ∈ s'.entries) : i ∈ s.entries ∨ i ∈ storedIds [c] := by
  cases step_outcome h hs with
  | same => exact .inl hi
  | touched => exact .inl hi
  | added hroom =>
    rcases ExtTreeMap.mem_insert.mp hi with he | hm
    · exact .inr (by simpa [storedIds] using (compare_eq_iff_eq.mp he).symm)
    · exact .inl hm
  | replaced =>
    rcases ExtTreeMap.mem_insert.mp hi with he | hm
    · exact .inr (by simpa [storedIds] using (compare_eq_iff_eq.mp he).symm)
    · exact .inl (ExtTreeMap.mem_erase.mp hm).2

lemma maxEntries_step {s s' : State} {c : Call} (h : Ready s) (hs : step s c = .ok s') :
    s'.maxEntries = s.maxEntries := by
  cases step_outcome h hs <;> rfl

lemma storeFits_of_not_mem {s : State} (h : Ready s) (h2 : 2 ≤ s.maxEntries) {td : ℤ}
    (htd : td ∉ s.entries) : StoreFits s td := by
  unfold StoreFits
  split
  · rename_i hfull
    cases hv : rbtreeLeftmost s.lru with
    | none =>
      have hsize : 0 < s.entries.keys.length := by
        rw [ExtTreeMap.length_keys]
        omega
      obtain ⟨i, hi⟩ := List.exists_mem_of_length_pos hsize
      obtain ⟨p, hp⟩ := Option.isSome_iff_exists.mp
        (ExtTreeMap.isSome_getElem?_iff_mem.mpr (ExtTreeMap.mem_keys.mp hi))
      obtain ⟨e, hc, -⟩ := h.hit hp
      simpa [rbtreeLeftmost_eq_none hv] using hc.by_stamp
    | some node =>
      obtain ⟨k, p⟩ := node
      obtain ⟨e, hc, rfl⟩ := h.victim hv
      exact ⟨e.stamp, p, e, rfl, hc.entry, fun hm => htd (ExtTreeMap.mem_erase.mp hm).2⟩
  · exact htd

lemma guarded_of_distinct {s : State} (h : Ready s) (h2 : 2 ≤ s.maxEntries) {calls : List Call}
    (hd : (storedIds calls).Nodup) (hn : ∀ td ∈ storedIds calls, td ∉ s.entries) :
    Guarded step Fits s calls := by
  induction calls generalizing s with
  | nil => trivial
  | cons c cs ih =>
    have hsplit : storedIds (c :: cs) = storedIds [c] ++ storedIds cs := by
      simp [storedIds, ← List.filterMap_append]
    rw [hsplit] at hd hn
    obtain ⟨-, hd', hdisj⟩ := List.nodup_append.mp hd
    have hf : Fits s c := by
      cases c with
      | store td type data length =>
        exact storeFits_of_not_mem h h2 (hn td (by simp [storedIds]))
      | check td => trivial
      | retrieve td => trivial
    refine ⟨hf, ?_⟩
    intro s' hs
    obtain ⟨t, ht, hready⟩ := h.step hf
    obtain rfl : s' = t := Except.ok.inj (hs.symm.trans ht)
    refine ih hready (by rw [maxEntries_step h hs]; exact h2) hd' ?_
    intro td htd hm
    rcases mem_entries_step h hs hm with hold | hnew
    · exact hn td (List.mem_append_right _ htd) hold
    · exact hdisj td hnew td htd rfl

lemma used_init (size : ℤ) (maxMemory : BitVec 64) : used (turbineCacheInit size maxMemory) = 0 := by
  simp [used, cachedIds, turbineCacheInit]

/-- The budget is kept in exactly the runs that never store more than what is left of it:
`cache_shrink` evicts nothing. -/
theorem budgetKept_iff_fitsBudget (size : ℤ) (hsize : 2 ≤ size) (maxMemory : BitVec 64)
    (calls : List Call) (hdistinct : (storedIds calls).Nodup) :
    Safe step (BudgetKept maxMemory) (turbineCacheInit size maxMemory) calls ↔
      Guarded step (FitsBudget maxMemory) (turbineCacheInit size maxMemory) calls := by
  have hready := Ready.init (show 1 ≤ size by omega) maxMemory
  have hguard : Guarded step Fits (turbineCacheInit size maxMemory) calls :=
    guarded_of_distinct hready hsize hdistinct (by simp [turbineCacheInit])
  have hbalanced : Balanced maxMemory (turbineCacheInit size maxMemory) := by
    rw [Balanced, used_init]
    simp [turbineCacheInit]
  have hsafe : Safe step (fun s => Ready s ∧ Balanced maxMemory s)
      (turbineCacheInit size maxMemory) calls := by
    refine safe_of_guarded ?_ ⟨hready, hbalanced⟩ hguard
    rintro s c ⟨hr, hb⟩ hf
    obtain ⟨s', hs, hr'⟩ := hr.step hf
    exact ⟨s', hs, hr', hb.step hr hs hf⟩
  refine hsafe.strengthen_iff ?_ ((budgetKept_iff hbalanced).mpr (by rw [used_init]; omega))
  rintro s c s' ⟨hr, hb⟩ hkept hs ⟨hr', hb'⟩
  rw [budgetKept_iff hb']
  exact used_step_iff hr hkept.1 hs (hr.fits hs hr'.toLinked)

theorem budgetKept_two_stores :
    Safe step (BudgetKept 10) (turbineCacheInit 2 10) [.store 1 0 0 8, .store 2 0 0 9] := by
  refine (budgetKept_iff_fitsBudget 2 (by decide) 10 _ (by decide)).mpr ⟨?_, ?_⟩
  · change used _ - victimLength _ + _ ≤ _
    decide
  intro s hs
  obtain rfl := Except.ok.inj ((cacheAdd_eq _ 1 0 0 8).symm.trans hs)
  refine ⟨?_, fun _ _ => trivial⟩
  have hv : victimLength (added (turbineCacheInit 2 10) 1 0 0 8) = 8 := by
    rw [victimLength, if_pos (by decide)]
    simp [rbtreeLeftmost, added, setEntry, turbineCacheInit, ExtTreeMap.minKey?_insert]
  change used (added (turbineCacheInit 2 10) 1 0 0 8) - _ + _ ≤ _
  rw [hv]
  decide

/-- One byte stored into a cache without budget stays cached, and `memory` wraps around. -/
theorem not_budgetKept_over_budget :
    ¬ Safe step (BudgetKept 0) (turbineCacheInit 2 0) [.store 1 0 0 1] := by
  rintro ⟨_, s, hs, hkept⟩
  obtain rfl := Except.ok.inj ((cacheAdd_eq _ 1 0 0 1).symm.trans hs)
  have hused : used (added (turbineCacheInit 2 0) 1 0 0 1) = 1 := by decide
  have hle := hkept.1
  rw [hused] at hle
  exact absurd hle (by decide)

end Turbine.Cache
