import Turbine.Ranks.Allocation

/-! The partition of the worker ranks by their modes, as every rank works it out by itself. -/

namespace Turbine.Ranks

open Turbine.Library

/-- The layout that an allocation stands for in a communicator of some size. -/
structure Layout (availableExecutors : List String) (adlbSize : ℕ) (allocation : RankAllocation) :
    Prop where
  total : allocation.servers + allocation.workers = adlbSize
  sum : allocation.workersByType.values.sum = allocation.workers
  work : ∃ n, allocation.workersByType.get? "WORK" = some n ∧ 1 ≤ n
  pos : ∀ t n, allocation.workersByType.get? t = some n → 0 < n
  types : ∃ others, workTypesFromAllocation allocation = "WORK" :: others ∧ "WORK" ∉ others ∧
    others.Pairwise (· < ·) ∧ ∀ t, t ∈ "WORK" :: others ↔ t ∈ allocation.workersByType.keys
  one_mode : ∀ rank < adlbSize, (rank : ℤ) < allocation.workers →
    ∃ t ∈ workTypesFromAllocation allocation,
      modeOf allocation (workTypesFromAllocation allocation) rank = .ok t
  contiguous : ∀ t ∈ workTypesFromAllocation allocation, ∃ first last : ℕ, ∀ rank < adlbSize,
    modeOf allocation (workTypesFromAllocation allocation) rank = .ok t ↔
      first ≤ rank ∧ rank < last
  counts : ∀ t n, allocation.workersByType.get? t = some n →
    {rank : ℕ | rank < adlbSize ∧
      modeOf allocation (workTypesFromAllocation allocation) rank = .ok t}.ncard = n
  serves : ∀ rank < adlbSize, (rank : ℤ) < allocation.workers → ∀ t,
    modeOf allocation (workTypesFromAllocation allocation) rank = .ok t →
      ∃ role i, enterMode (enum (workTypesFromAllocation allocation)) availableExecutors t =
        .ok role ∧ role.workType = some i ∧ (workTypesFromAllocation allocation)[i]? = some t

/-! ### Work types in order -/

lemma lsearch_append {rest : List String} {workType : String} (h : workType ∉ rest) :
    lsearch (rest ++ [workType]) workType = some rest.length := by
  induction rest with
  | nil => simp [lsearch, List.idxOf?_cons]
  | cons t rest ih =>
    rw [List.mem_cons, not_or] at h
    have hbeq : (t == workType) = false := by simpa using Ne.symm h.1
    unfold lsearch at ih ⊢
    rw [List.cons_append, List.idxOf?_cons, ih h.2]
    simp [hbeq]

lemma lreplace_lsearch {rest : List String} {workType : String} (h : workType ∉ rest) :
    lreplace (rest ++ [workType]) (lsearch (rest ++ [workType]) workType) = rest := by
  rw [lsearch_append h, lreplace, List.eraseIdx_append_of_length_le le_rfl]
  simp

variable {adlbSize : ℤ} {addtl : List String} {allocation : RankAllocation}

lemma Sound.types (h : Sound adlbSize addtl allocation) :
    ∃ others, workTypesFromAllocation allocation = "WORK" :: others ∧ "WORK" ∉ others ∧
      others.Pairwise (· < ·) ∧
      ("WORK" :: others).Perm allocation.workersByType.keys ∧ ∀ t ∈ others, t ∈ addtl := by
  obtain ⟨rest, hkeys, hwork, haddtl⟩ := h.keys
  have hnodup : (rest ++ ["WORK"]).Nodup := hkeys ▸ allocation.workersByType.nodup
  have hperm : (lsort rest).Perm rest := List.perm_insertionSort _ _
  refine ⟨lsort rest, ?_, ?_, ?_, ?_, ?_⟩
  · rw [workTypesFromAllocation, hkeys, lreplace_lsearch hwork]
  · rwa [hperm.mem_iff]
  · have hsorted : (lsort rest).Pairwise (· ≤ ·) := List.pairwise_insertionSort _ _
    have hne : (lsort rest).Pairwise (· ≠ ·) :=
      hperm.nodup_iff.mpr (List.nodup_append.mp hnodup).1
    exact (hsorted.and hne).imp fun h => lt_of_le_of_ne h.1 h.2
  · rw [hkeys]
    exact (hperm.cons "WORK").trans (List.perm_append_singleton "WORK" rest).symm
  · exact fun t ht => haddtl t (hperm.mem_iff.mp ht)

/-! ### The loop over the work types -/

section FindMode

variable {counts : Counts} {rank k : ℤ} {workTypes : List String}

def countOf (counts : Counts) (workType : String) : ℤ := (counts.get? workType).getD 0

def sumOf (counts : Counts) (workTypes : List String) : ℤ := (workTypes.map (countOf counts)).sum

/-- How many ranks come before those of a work type. -/
def before (counts : Counts) (workTypes : List String) (workType : String) : ℤ :=
  sumOf counts (workTypes.takeWhile (· ≠ workType))

def Counted (counts : Counts) (workTypes : List String) : Prop :=
  ∀ t ∈ workTypes, ∃ n, counts.get? t = some n ∧ 0 < n

lemma Counted.countOf_pos (h : Counted counts workTypes) {t : String} (ht : t ∈ workTypes) :
    0 < countOf counts t := by
  obtain ⟨n, hget, hpos⟩ := h t ht
  simpa [countOf, hget] using hpos

lemma findMode_cons {t : String} (h : Counted counts (t :: workTypes)) :
    findMode counts rank k (t :: workTypes) =
      if rank < k + countOf counts t then .ok (some t)
      else findMode counts rank (k + countOf counts t) workTypes := by
  obtain ⟨n, hget, -⟩ := h t List.mem_cons_self
  simp only [findMode, dictGet, countOf, hget, Option.getD_some]
  rfl

lemma Counted.tail {t : String} (h : Counted counts (t :: workTypes)) : Counted counts workTypes :=
  fun t' ht' => h t' (.tail _ ht')

lemma mem_of_findMode (h : Counted counts workTypes) {t : String}
    (hmode : findMode counts rank k workTypes = .ok (some t)) : t ∈ workTypes := by
  induction workTypes generalizing k with
  | nil => simp [findMode] at hmode
  | cons t' workTypes ih =>
    rw [findMode_cons h] at hmode
    by_cases hlt : rank < k + countOf counts t'
    · rw [if_pos hlt] at hmode
      simp only [Except.ok.injEq, Option.some.injEq] at hmode
      exact hmode ▸ List.mem_cons_self
    · rw [if_neg hlt] at hmode
      exact .tail _ (ih h.tail hmode)

lemma findMode_isSome (h : Counted counts workTypes) (hlt : rank < k + sumOf counts workTypes)
    (hle : k ≤ rank) :
    ∃ t ∈ workTypes, findMode counts rank k workTypes = .ok (some t) := by
  induction workTypes generalizing k with
  | nil =>
    simp [sumOf] at hlt
    omega
  | cons t workTypes ih =>
    rw [findMode_cons h]
    by_cases hfirst : rank < k + countOf counts t
    · exact ⟨t, List.mem_cons_self, if_pos hfirst⟩
    · rw [if_neg hfirst]
      have hsum : sumOf counts (t :: workTypes) = countOf counts t + sumOf counts workTypes := rfl
      obtain ⟨t', ht', hmode⟩ := ih (k := k + countOf counts t) h.tail (by omega) (by omega)
      exact ⟨t', .tail _ ht', hmode⟩

lemma sumOf_nonneg (h : Counted counts workTypes) {some : List String}
    (hsub : ∀ t ∈ some, t ∈ workTypes) : 0 ≤ sumOf counts some := by
  refine List.sum_nonneg ?_
  intro n hn
  obtain ⟨t, ht, rfl⟩ := List.mem_map.mp hn
  exact (h.countOf_pos (hsub t ht)).le

lemma before_nonneg (h : Counted counts workTypes) (t : String) :
    0 ≤ before counts workTypes t :=
  sumOf_nonneg h fun _ ht => (List.takeWhile_prefix _).subset ht

lemma before_add_le (h : Counted counts workTypes) {t : String} (ht : t ∈ workTypes) :
    before counts workTypes t + countOf counts t ≤ sumOf counts workTypes := by
  induction workTypes with
  | nil => simp at ht
  | cons t' workTypes ih =>
    have hsum : sumOf counts (t' :: workTypes) = countOf counts t' + sumOf counts workTypes := rfl
    have hpos := h.countOf_pos (List.mem_cons_self (a := t'))
    by_cases heq : t' = t
    · subst heq
      have hbefore : before counts (t' :: workTypes) t' = 0 := by simp [before, sumOf]
      have hnonneg : 0 ≤ sumOf counts workTypes := sumOf_nonneg h.tail fun _ ht' => ht'
      omega
    · have hbefore : before counts (t' :: workTypes) t =
          countOf counts t' + before counts workTypes t := by
        simp [before, sumOf, heq]
      have hrest := ih h.tail ((List.mem_cons.mp ht).resolve_left (Ne.symm heq))
      omega

/-- The ranks of a work type are those behind the ranks of the types before it. -/
lemma findMode_eq_iff (h : Counted counts workTypes) (hnodup : workTypes.Nodup) {t : String}
    (ht : t ∈ workTypes) (hle : k ≤ rank) :
    findMode counts rank k workTypes = .ok (some t) ↔
      k + before counts workTypes t ≤ rank ∧
        rank < k + before counts workTypes t + countOf counts t := by
  induction workTypes generalizing k with
  | nil => simp at ht
  | cons t' workTypes ih =>
    rw [List.nodup_cons] at hnodup
    have hpos := h.countOf_pos (List.mem_cons_self (a := t'))
    rw [findMode_cons h]
    by_cases heq : t' = t
    · subst heq
      have hbefore : before counts (t' :: workTypes) t' = 0 := by simp [before, sumOf]
      rw [hbefore]
      by_cases hlt : rank < k + countOf counts t'
      · simp [hlt, hle]
      · rw [if_neg hlt]
        constructor
        · intro hmode
          exact absurd (mem_of_findMode h.tail hmode) hnodup.1
        · intro hbounds
          omega
    · have ht' : t ∈ workTypes := (List.mem_cons.mp ht).resolve_left (Ne.symm heq)
      have hbefore : before counts (t' :: workTypes) t =
          countOf counts t' + before counts workTypes t := by
        simp [before, sumOf, heq]
      rw [hbefore]
      have hnonneg := before_nonneg h.tail t
      by_cases hlt : rank < k + countOf counts t'
      · rw [if_pos hlt]
        constructor
        · intro hmode
          simp [heq] at hmode
        · intro hbounds
          omega
      · rw [if_neg hlt, ih h.tail hnodup.2 ht' (by omega), ← add_assoc]

end FindMode

/-! ### The array of work types -/

lemma enum_foldl {members : List String} (hnodup : members.Nodup) {d : OrderedDict String ℕ}
    {n : ℕ} (hnew : ∀ t ∈ members, t ∉ d.keys) (t : String) :
    (members.foldl (fun (acc : OrderedDict String ℕ × ℕ) member =>
      (acc.1.set member acc.2, acc.2 + 1)) (d, n)).1.get? t =
        match members.idxOf? t with
        | none => d.get? t
        | some i => some (n + i) := by
  induction members generalizing d n with
  | nil => simp [List.idxOf?]
  | cons member members ih =>
    rw [List.nodup_cons] at hnodup
    simp only [List.mem_cons, forall_eq_or_imp] at hnew
    have hnext : ∀ t ∈ members, t ∉ (d.set member n).keys := by
      intro t ht hkey
      rw [OrderedDict.keys_set_of_notMem _ hnew.1, List.mem_append, List.mem_singleton] at hkey
      rcases hkey with hkey | rfl
      · exact hnew.2 t ht hkey
      · exact hnodup.1 ht
    rw [List.foldl_cons, ih hnodup.2 hnext, List.idxOf?_cons]
    by_cases heq : member = t
    · subst heq
      have hnone : members.idxOf? member = none := by simpa using hnodup.1
      simp [hnone, OrderedDict.get?_set]
    · have hbeq : (member == t) = false := by simpa using heq
      have hne : ¬ t = member := fun h => heq h.symm
      cases hidx : members.idxOf? t with
      | none => simp [hbeq, OrderedDict.get?_set, hne]
      | some i => simp [hbeq, Nat.add_comm, Nat.add_left_comm]

/-- `WORK_TYPE` gives the index of each work type in the list. -/
lemma enum_get? {members : List String} (hnodup : members.Nodup) {t : String} (ht : t ∈ members) :
    ∃ i, (enum members).get? t = some i ∧ members[i]? = some t := by
  have hget := enum_foldl hnodup (d := .empty) (n := 0) (fun _ _ => by simp [OrderedDict.keys,
    OrderedDict.empty]) t
  obtain ⟨i, hi⟩ := Option.isSome_iff_exists.mp (List.isSome_idxOf?.mpr ht)
  obtain ⟨hlt, heq, -⟩ := List.idxOf?_eq_some_iff.mp hi
  refine ⟨i, ?_, ?_⟩
  · rw [enum, hget, hi]
    simp
  · rw [List.getElem?_eq_getElem hlt, heq]

lemma enterMode_worker {workTypes : OrderedDict String ℕ} {availableExecutors : List String}
    {mode : String} {i : ℕ} (h : workTypes.get? mode = some i) (hserver : mode ≠ "SERVER") :
    ∃ role, enterMode workTypes availableExecutors mode = .ok role ∧ role.workType = some i := by
  unfold enterMode customWorker
  rw [if_neg hserver]
  by_cases hwork : mode = "WORK"
  · subst hwork
    exact ⟨.workerLoop i, by simp [standardWorker, adlbWorkType, h], rfl⟩
  · rw [if_neg hwork]
    by_cases hexec : mode ∉ availableExecutors
    · exact ⟨.workerLoop i, by simp [hexec, standardWorker, adlbWorkType, h], rfl⟩
    · exact ⟨.asyncExecWorkerLoop mode i, by simp [hexec, asyncExecWorker, adlbWorkType, h], rfl⟩

/-! ### The modes of all ranks -/

section Modes

variable {workTypes : List String} {rank : ℤ}

lemma Sound.counted (h : Sound adlbSize addtl allocation)
    (hperm : workTypes.Perm allocation.workersByType.keys) :
    Counted allocation.workersByType workTypes := by
  intro t ht
  obtain ⟨n, hn⟩ := OrderedDict.mem_keys_iff.mp (hperm.mem_iff.mp ht)
  exact ⟨n, hn, h.pos t n hn⟩

lemma Sound.sumOf_eq (h : Sound adlbSize addtl allocation)
    (hperm : workTypes.Perm allocation.workersByType.keys) :
    sumOf allocation.workersByType workTypes = allocation.workers := by
  rw [← h.sum, ← OrderedDict.map_keys_get? allocation.workersByType 0]
  exact (hperm.map _).sum_eq

lemma Sound.workers_pos (h : Sound adlbSize addtl allocation)
    (hperm : workTypes.Perm allocation.workersByType.keys) (hne : workTypes ≠ []) :
    0 < allocation.workers := by
  rw [← h.sumOf_eq hperm]
  refine List.sum_pos _ ?_ (by simpa using hne)
  intro n hn
  obtain ⟨t, ht, rfl⟩ := List.mem_map.mp hn
  exact (h.counted hperm).countOf_pos ht

lemma logRankLayout_ok (hpos : 0 < allocation.workers)
    (hcounted : Counted allocation.workersByType workTypes) :
    logRankLayout allocation workTypes = .ok () := by
  rw [logRankLayout, if_neg (by omega)]
  induction workTypes with
  | nil => rfl
  | cons t workTypes ih =>
    obtain ⟨n, hget, -⟩ := hcounted t List.mem_cons_self
    simp only [List.forM_eq_forM] at ih ⊢
    rw [List.forM_cons, ih hcounted.tail]
    simp only [dictGet, hget]
    rfl

lemma setupMode_eq (hpos : 0 < allocation.workers)
    (hcounted : Counted allocation.workersByType workTypes) (hwork : "WORK" ∈ workTypes)
    {amserver : Bool} {mode : String}
    (hmode : chooseMode allocation workTypes amserver rank = .ok (some mode)) :
    setupMode allocation workTypes amserver rank = .ok mode := by
  obtain ⟨n, hget, -⟩ := hcounted "WORK" hwork
  have hlog := logRankLayout_ok hpos hcounted
  simp only [setupMode, dictGet, hget, hmode, hlog]
  by_cases hrank : rank = 0
  · simp only [hrank, if_true]
    rfl
  · simp only [hrank, if_false]
    rfl

end Modes

/-- The modes of the ranks, as long as no work type is called as the servers are. -/
structure Modes (allocation : RankAllocation) (others : List String) : Prop where
  types : workTypesFromAllocation allocation = "WORK" :: others
  perm : ("WORK" :: others).Perm allocation.workersByType.keys
  worker : ∀ rank : ℕ, (rank : ℤ) < allocation.workers → ∃ t ∈ "WORK" :: others,
    modeOf allocation ("WORK" :: others) rank = .ok t
  mode : ∀ t ∈ "WORK" :: others, ∀ rank : ℕ,
    modeOf allocation ("WORK" :: others) rank = .ok t ↔
      before allocation.workersByType ("WORK" :: others) t ≤ rank ∧
        rank < before allocation.workersByType ("WORK" :: others) t +
          countOf allocation.workersByType t

lemma Sound.modes (h : Sound adlbSize addtl allocation) (hserver : "SERVER" ∉ addtl)
    {others : List String} (htypes : workTypesFromAllocation allocation = "WORK" :: others)
    (hperm : ("WORK" :: others).Perm allocation.workersByType.keys)
    (hothers : ∀ t ∈ others, t ∈ addtl) : Modes allocation others := by
  have hcounted := h.counted hperm
  have hpos := h.workers_pos hperm (by simp)
  have hsum := h.sumOf_eq hperm
  have hnodup : ("WORK" :: others).Nodup := hperm.nodup_iff.mpr allocation.workersByType.nodup
  have hne : ∀ t ∈ "WORK" :: others, t ≠ "SERVER" := by
    rintro t ht rfl
    rcases List.mem_cons.mp ht with heq | ht
    · simp at heq
    · exact hserver (hothers _ ht)
  have hworker : ∀ rank : ℕ, (rank : ℤ) < allocation.workers → ∃ t ∈ "WORK" :: others,
      findMode allocation.workersByType rank 0 ("WORK" :: others) = .ok (some t) ∧
        modeOf allocation ("WORK" :: others) rank = .ok t := by
    intro rank hrank
    obtain ⟨t, ht, hmode⟩ := @findMode_isSome _ rank 0 _ hcounted (by omega) (by omega)
    refine ⟨t, ht, hmode, setupMode_eq hpos hcounted List.mem_cons_self ?_⟩
    have hnot : ¬ allocation.workers ≤ rank := by omega
    simpa [chooseMode, hnot] using hmode
  have hservers : ∀ rank : ℕ, allocation.workers ≤ rank →
      modeOf allocation ("WORK" :: others) rank = .ok "SERVER" := by
    intro rank hrank
    refine setupMode_eq hpos hcounted List.mem_cons_self ?_
    simp [chooseMode, hrank]
  refine ⟨htypes, hperm, ?_, ?_⟩
  · intro rank hrank
    obtain ⟨t, ht, -, hmode⟩ := hworker rank hrank
    exact ⟨t, ht, hmode⟩
  · intro t ht rank
    have hfind := findMode_eq_iff (k := 0) hcounted hnodup ht (Int.natCast_nonneg rank)
    rw [zero_add] at hfind
    rw [← hfind]
    rcases lt_or_ge (rank : ℤ) allocation.workers with hrank | hrank
    · obtain ⟨t', -, hfound, hmode⟩ := hworker rank hrank
      rw [hfound, hmode]
      simp
    · rw [hservers rank hrank]
      constructor
      · intro heq
        exact absurd (Except.ok.inj heq).symm (hne t ht)
      · intro hfound
        have hbounds := hfind.mp hfound
        have hle := before_add_le hcounted ht
        omega

/-- The ranks of a work type as an interval. -/
lemma Modes.mem_interval {others : List String} (h : Modes allocation others)
    (hcounted : Counted allocation.workersByType ("WORK" :: others)) {t : String}
    (ht : t ∈ "WORK" :: others) (rank : ℕ) :
    modeOf allocation ("WORK" :: others) rank = .ok t ↔
      rank ∈ Finset.Ico (before allocation.workersByType ("WORK" :: others) t).toNat
        (before allocation.workersByType ("WORK" :: others) t +
          countOf allocation.workersByType t).toNat := by
  have hnonneg := before_nonneg hcounted t
  rw [h.mode t ht rank, Finset.mem_Ico, Int.toNat_le, Int.lt_toNat]

lemma layout_of_sound (availableExecutors : List String) {adlbSize : ℕ}
    (h : Sound adlbSize addtl allocation) (hservers : 0 ≤ allocation.servers)
    (hserver : "SERVER" ∉ addtl) : Layout availableExecutors adlbSize allocation := by
  obtain ⟨others, htypes, hwork, hsorted, hperm, hothers⟩ := h.types
  have hmodes := h.modes hserver htypes hperm hothers
  have hcounted := h.counted hperm
  have hnodup : ("WORK" :: others).Nodup := hperm.nodup_iff.mpr allocation.workersByType.nodup
  have hinterval := fun t ht => hmodes.mem_interval hcounted (t := t) ht
  constructor
  case total => exact h.total
  case sum => exact h.sum
  case work =>
    obtain ⟨n, hget, hpos⟩ := hcounted "WORK" List.mem_cons_self
    exact ⟨n, hget, hpos⟩
  case pos => exact h.pos
  case types => exact ⟨others, htypes, hwork, hsorted, fun t => hperm.mem_iff⟩
  case one_mode =>
    rw [htypes]
    exact fun rank _ hrank => hmodes.worker rank hrank
  case contiguous =>
    rw [htypes]
    intro t ht
    exact ⟨_, _, fun rank _ => (hinterval t ht rank).trans Finset.mem_Ico⟩
  case counts =>
    rw [htypes]
    intro t n hget
    have ht : t ∈ "WORK" :: others := hperm.mem_iff.mpr (OrderedDict.mem_keys_iff.mpr ⟨n, hget⟩)
    have hcount : countOf allocation.workersByType t = n := by simp [countOf, hget]
    have hle := before_add_le hcounted ht
    have hsum := h.sumOf_eq hperm
    have htotal := h.total
    have hnonneg := before_nonneg hcounted t
    have hpos := h.pos t n hget
    have hset : {rank : ℕ | rank < adlbSize ∧ modeOf allocation ("WORK" :: others) rank = .ok t} =
        Finset.Ico (before allocation.workersByType ("WORK" :: others) t).toNat
          (before allocation.workersByType ("WORK" :: others) t +
            countOf allocation.workersByType t).toNat := by
      ext rank
      rw [Set.mem_ofPred_eq, hinterval t ht rank, Finset.mem_coe, and_iff_right_iff_imp,
        Finset.mem_Ico]
      omega
    rw [hset, Set.ncard_coe_finset, Nat.card_Ico]
    omega
  case serves =>
    rw [htypes]
    intro rank _ hrank t hmode
    obtain ⟨t', ht', hmode'⟩ := hmodes.worker rank hrank
    obtain rfl : t = t' := Except.ok.inj (hmode.symm.trans hmode')
    obtain ⟨i, hget, hi⟩ := enum_get? hnodup ht'
    have hne : t ≠ "SERVER" := by
      rintro rfl
      rcases List.mem_cons.mp ht' with heq | hmem
      · simp at heq
      · exact hserver (hothers _ hmem)
    obtain ⟨role, henter, htype⟩ := @enterMode_worker _ availableExecutors _ _
      hget hne
    exact ⟨role, i, henter, htype, hi⟩

/-- The layout of every allocation that `rank_allocation` accepts and whose number of servers is
not negative. -/
theorem rankAllocation_layout (toupper : String → String) (env : String → Option ℤ)
    (declared : List (List String)) (availableExecutors : List String) (adlbSize : ℕ)
    (allocation : RankAllocation)
    (hwork : "WORK" ∉ addtlWorkTypes declared availableExecutors)
    (hserver : "SERVER" ∉ addtlWorkTypes declared availableExecutors)
    (haccept : rankAllocation toupper env (addtlWorkTypes declared availableExecutors) adlbSize =
      .ok allocation)
    (hservers : 0 ≤ allocation.servers) : Layout availableExecutors adlbSize allocation :=
  layout_of_sound availableExecutors
    (sound_rankAllocation (nodup_addtlWorkTypes declared availableExecutors) hwork haccept)
    hservers hserver

lemma Layout.count_le {availableExecutors : List String} {adlbSize : ℕ}
    (h : Layout availableExecutors adlbSize allocation) {t : String} {n : ℤ}
    (hget : allocation.workersByType.get? t = some n) : n ≤ adlbSize := by
  rw [← h.counts t n hget, Nat.cast_le]
  calc _ ≤ (Finset.range adlbSize : Set ℕ).ncard :=
        Set.ncard_le_ncard (fun rank hrank => by simpa using hrank.1) (Finset.finite_toSet _)
    _ = adlbSize := by rw [Set.ncard_coe_finset, Finset.card_range]

def asciiToupper (name : String) : String := String.ofList (name.toList.map Char.toUpper)

theorem rankAllocation_layout_gpu :
    ∃ allocation, rankAllocation asciiToupper
        (fun name => if name = "TURBINE_GPU_WORKERS" then some 1 else none)
        (addtlWorkTypes [["gpu"]] ["noop"]) 4 = .ok allocation ∧ Layout ["noop"] 4 allocation :=
  ⟨_, rfl, rankAllocation_layout asciiToupper
    (fun name => if name = "TURBINE_GPU_WORKERS" then some 1 else none) [["gpu"]] ["noop"] 4 _
    (by decide) (by decide) rfl (by decide)⟩

/-- With a negative number of servers there are more workers than ranks; and a rank whose work
type is called as the servers are does not ask for its work type. -/
theorem not_layout_all :
    (∃ allocation, rankAllocation asciiToupper
        (fun name => if name = "ADLB_SERVERS" then some (-1) else none)
        (addtlWorkTypes [] []) 4 = .ok allocation ∧ ¬ Layout [] 4 allocation) ∧
      ∃ allocation, rankAllocation asciiToupper
        (fun name => if name = "TURBINE_SERVER_WORKERS" then some 1 else none)
        (addtlWorkTypes [["SERVER"]] []) 4 = .ok allocation ∧ ¬ Layout [] 4 allocation := by
  refine ⟨⟨_, rfl, ?_⟩, ⟨_, rfl, ?_⟩⟩
  · intro h
    have hle := h.count_le (t := "WORK") (n := 5) rfl
    cases hle
  · intro h
    obtain ⟨role, i, henter, htype, -⟩ := h.serves 2 (by decide) (by decide) "SERVER" rfl
    obtain rfl := Except.ok.inj henter
    cases htype

end Turbine.Ranks
