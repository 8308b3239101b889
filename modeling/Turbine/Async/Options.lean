import Turbine.Async.Model

/-! The options of an asynchronous worker: what is accepted of its keywords, and what the command
hands on to the worker loop. -/

namespace Turbine.Async

open Turbine.Library.Programs

-- only as many buffers are allocated as can be used
def usableBuffers (maxSlots bufferCount : ℤ) : ℤ :=
  if maxSlots ≥ 1 ∧ maxSlots < bufferCount then maxSlots else bufferCount

/-- The number of buffers and their size, once the keywords are accepted and the executor has
answered with its largest number of slots. -/
def passedOn (args : LoopArgs) (maxSlots : ℤ) : Option (ℤ × ℤ) :=
  (workerKeywordArgs args (defaultBufferCount, args.defaultBufferSize)).map fun sizes =>
    (usableBuffers maxSlots sizes.1, sizes.2)

def LoopArgs.WellFormed (args : LoopArgs) : Prop :=
  (args.objc = 3 ∨ args.objc = 4) ∧ args.registered = true ∧ args.workType ≠ none

def LoopArgs.given (args : LoopArgs) : List (String × Option ℤ) :=
  if args.objc ≥ 4 then args.keywords.getD [] else []

def Known (key : String) : Prop := key = "buffer_count" ∨ key = "buffer_size"

/-- The keywords and values that are documented: positive numbers for the two keys. -/
def Documented (entry : String × Option ℤ) : Prop :=
  Known entry.1 ∧ ∃ v, entry.2 = some v ∧ 0 < v

/-- An unknown key, a value that is not an integer or one that is negative. -/
def Refused (entry : String × Option ℤ) : Prop :=
  ¬ Known entry.1 ∨ ∀ v, entry.2 = some v → v < 0

structure OptionsValidated (args : LoopArgs) (maxSlots : ℤ) : Prop where
  preconditions : ∀ count size, passedOn args maxSlots = some (count, size) → 1 ≤ count ∧ 0 < size
  rejects : (∃ entry ∈ args.given, ¬ Documented entry) → ∀ n m,
    asyncExecWorkerLoopCmd args n m = .done (some .error, m)
  defaults : ∀ sizes sizes', workerKeywordArgs args sizes = some sizes' →
    ((∀ val, ("buffer_count", val) ∉ args.given) → sizes'.1 = sizes.1) ∧
      ((∀ val, ("buffer_size", val) ∉ args.given) → sizes'.2 = sizes.2)

lemma keywordArgs_cons (key : String) (val : Option ℤ) (rest : List (String × Option ℤ))
    (sizes : ℤ × ℤ) :
    (Refused (key, val) ∧ keywordArgs ((key, val) :: rest) sizes = none) ∨
      ∃ v, val = some v ∧ 0 ≤ v ∧
        ((key = "buffer_count" ∧
            keywordArgs ((key, val) :: rest) sizes = keywordArgs rest (v, sizes.2)) ∨
          (key = "buffer_size" ∧
            keywordArgs ((key, val) :: rest) sizes = keywordArgs rest (sizes.1, v))) := by
  obtain ⟨bufferCount, bufferSize⟩ := sizes
  rw [keywordArgs]
  by_cases hcount : key = "buffer_count"
  · rcases val with _ | v
    · exact .inl ⟨.inr (by simp), by simp [hcount]⟩
    · by_cases hv : v ≥ 0
      · exact .inr ⟨v, rfl, hv, .inl ⟨hcount, by simp [hcount, hv]⟩⟩
      · exact .inl ⟨.inr (by simpa using hv), by simp [hcount, hv]⟩
  · by_cases hsize : key = "buffer_size"
    · rcases val with _ | v
      · exact .inl ⟨.inr (by simp), by simp [hsize]⟩
      · by_cases hv : v ≥ 0
        · exact .inr ⟨v, rfl, hv, .inr ⟨hsize, by simp [hsize, hv]⟩⟩
        · exact .inl ⟨.inr (by simpa using hv), by simp [hsize, hv]⟩
    · exact .inl ⟨.inl (not_or.mpr ⟨hcount, hsize⟩), by simp [hcount, hsize]⟩

lemma not_refused {key : String} {v : ℤ} (hkey : Known key) (hv : 0 ≤ v) :
    ¬ Refused (key, some v) := by
  rintro (hunknown | hneg)
  · exact hunknown hkey
  · have := hneg v rfl
    omega

lemma keywordArgs_eq_none_iff (dict : List (String × Option ℤ)) (sizes : ℤ × ℤ) :
    keywordArgs dict sizes = none ↔ ∃ entry ∈ dict, Refused entry := by
  induction dict generalizing sizes with
  | nil => simp [keywordArgs]
  | cons entry rest ih =>
    obtain ⟨key, val⟩ := entry
    rw [List.exists_mem_cons_iff]
    rcases keywordArgs_cons key val rest sizes with
      ⟨hrefused, hnone⟩ | ⟨v, rfl, hv, ⟨hkey, hrest⟩ | ⟨hkey, hrest⟩⟩
    · exact iff_of_true hnone (.inl hrefused)
    · rw [hrest, ih, or_iff_right (not_refused (.inl hkey) hv)]
    · rw [hrest, ih, or_iff_right (not_refused (.inr hkey) hv)]

/-- What is accepted was given, or is the value the caller set. -/
lemma keywordArgs_given {dict : List (String × Option ℤ)} {sizes sizes' : ℤ × ℤ}
    (h : keywordArgs dict sizes = some sizes') :
    (sizes'.1 = sizes.1 ∨ ("buffer_count", some sizes'.1) ∈ dict) ∧
      (sizes'.2 = sizes.2 ∨ ("buffer_size", some sizes'.2) ∈ dict) := by
  induction dict generalizing sizes with
  | nil =>
    obtain rfl := Option.some.inj h
    exact ⟨.inl rfl, .inl rfl⟩
  | cons entry rest ih =>
    obtain ⟨key, val⟩ := entry
    rcases keywordArgs_cons key val rest sizes with
      ⟨-, hnone⟩ | ⟨v, rfl, -, ⟨rfl, hrest⟩ | ⟨rfl, hrest⟩⟩
    · rw [hnone] at h
      cases h
    · obtain ⟨hcount, hsize⟩ := ih (hrest ▸ h)
      refine ⟨?_, hsize.imp_right (.tail _)⟩
      rcases hcount with hcount | hcount
      · exact .inr (by simp [hcount])
      · exact .inr (.tail _ hcount)
    · obtain ⟨hcount, hsize⟩ := ih (hrest ▸ h)
      refine ⟨hcount.imp_right (.tail _), ?_⟩
      rcases hsize with hsize | hsize
      · exact .inr (by simp [hsize])
      · exact .inr (.tail _ hsize)

lemma workerKeywordArgs_eq_none_of_refused {args : LoopArgs} (sizes : ℤ × ℤ)
    (h : ∃ entry ∈ args.given, Refused entry) : workerKeywordArgs args sizes = none := by
  unfold LoopArgs.given at h
  unfold workerKeywordArgs
  by_cases hobjc : args.objc ≥ 4
  · rw [if_pos hobjc] at h ⊢
    cases hdict : args.keywords with
    | none => rfl
    | some dict =>
      rw [hdict] at h
      exact (keywordArgs_eq_none_iff dict sizes).mpr h
  · simp [hobjc] at h

lemma workerKeywordArgs_given {args : LoopArgs} {sizes sizes' : ℤ × ℤ}
    (h : workerKeywordArgs args sizes = some sizes') :
    (∀ entry ∈ args.given, ¬ Refused entry) ∧
      (sizes'.1 = sizes.1 ∨ ("buffer_count", some sizes'.1) ∈ args.given) ∧
      (sizes'.2 = sizes.2 ∨ ("buffer_size", some sizes'.2) ∈ args.given) := by
  refine ⟨?_, ?_⟩
  · intro entry hentry hrefused
    rw [workerKeywordArgs_eq_none_of_refused sizes ⟨entry, hentry, hrefused⟩] at h
    cases h
  · unfold workerKeywordArgs at h
    unfold LoopArgs.given
    by_cases hobjc : args.objc ≥ 4
    · rw [if_pos hobjc] at h ⊢
      obtain ⟨dict, hdict, hargs⟩ := Option.bind_eq_some_iff.mp h
      rw [hdict]
      exact keywordArgs_given hargs
    · rw [if_neg hobjc] at h
      obtain rfl := Option.some.inj h
      exact ⟨.inl rfl, .inl rfl⟩

/-- The command asks for the largest number of slots and goes on with what is passed on. -/
theorem asyncExecWorkerLoopCmd_passes {args : LoopArgs} (hargs : args.WellFormed) {maxSlots : ℤ}
    {count size : ℤ} (h : passedOn args maxSlots = some (count, size)) (n : ℕ) (m : Memory ℕ) :
    ∃ k, asyncExecWorkerLoopCmd args n m = .call (m, .maxSlots) k ∧
      k (.success, maxSlots) = runWithBuffers count.toNat size n m := by
  obtain ⟨hobjc, hregistered, htype⟩ := hargs
  obtain ⟨⟨bufferCount, bufferSize⟩, hsizes, heq⟩ := Option.map_eq_some_iff.mp h
  obtain ⟨rfl, rfl⟩ := Prod.mk.inj heq
  have hheader : ¬ (¬ (args.objc = 3 ∨ args.objc = 4) ∨ args.registered = false ∨
      args.workType = none) := by
    simp [hobjc, hregistered, htype]
  unfold asyncExecWorkerLoopCmd
  rw [if_neg hheader, hsizes]
  exact ⟨_, rfl, rfl⟩

lemma asyncExecWorkerLoopCmd_rejects {args : LoopArgs}
    (h : workerKeywordArgs args (defaultBufferCount, args.defaultBufferSize) = none) (n : ℕ)
    (m : Memory ℕ) : asyncExecWorkerLoopCmd args n m = .done (some .error, m) := by
  unfold asyncExecWorkerLoopCmd
  split
  · rfl
  · rw [h]
    rfl

lemma usableBuffers_pos {maxSlots bufferCount : ℤ} (h : 1 ≤ bufferCount) :
    1 ≤ usableBuffers maxSlots bufferCount := by
  unfold usableBuffers
  split
  · rename_i hmax
    exact hmax.1
  · exact h

lemma exists_refused {args : LoopArgs} {entry : String × Option ℤ} (hentry : entry ∈ args.given)
    {sizes : ℤ × ℤ} (h : workerKeywordArgs args sizes = none) :
    ∃ entry ∈ args.given, Refused entry := by
  unfold workerKeywordArgs at h
  unfold LoopArgs.given at hentry ⊢
  by_cases hobjc : args.objc ≥ 4
  · rw [if_pos hobjc] at h hentry ⊢
    cases hdict : args.keywords with
    | none => simp [hdict] at hentry
    | some dict =>
      rw [hdict] at h
      exact (keywordArgs_eq_none_iff dict _).mp h
  · simp [hobjc] at hentry

lemma not_documented_zero {entry : String × Option ℤ} (h : entry.2 = some 0) :
    ¬ Documented entry := by
  rintro ⟨-, v, hv, hpos⟩
  rw [h] at hv
  obtain rfl := Option.some.inj hv
  exact lt_irrefl _ hpos

lemma documented_of_ne_zero {entry : String × Option ℤ} (hrefused : ¬ Refused entry)
    (hzero : entry.2 ≠ some 0) : Documented entry := by
  simp only [Refused, not_or, not_not, not_forall, not_lt] at hrefused
  obtain ⟨hknown, v, hv, hnonneg⟩ := hrefused
  exact ⟨hknown, v, hv, lt_of_le_of_ne hnonneg fun heq => hzero (heq ▸ hv)⟩

/-- A value of zero that is not refused is passed on. -/
lemma not_validated_of_zero {args : LoopArgs} {maxSlots : ℤ} (hargs : args.WellFormed)
    (haccepted : ∀ entry ∈ args.given, ¬ Refused entry) {entry : String × Option ℤ}
    (hentry : entry ∈ args.given) (hval : entry.2 = some 0) : ¬ OptionsValidated args maxSlots := by
  intro h
  have hrejects := h.rejects ⟨entry, hentry, not_documented_zero hval⟩ 0
    ⟨id, fun _ => none, 0, 0, 0, 0, true⟩
  cases hsizes : workerKeywordArgs args (defaultBufferCount, args.defaultBufferSize) with
  | none =>
    obtain ⟨refused, hmem, hrefused⟩ := exists_refused hentry hsizes
    exact haccepted refused hmem hrefused
  | some sizes =>
    obtain ⟨k, hcall, -⟩ := @asyncExecWorkerLoopCmd_passes _ hargs maxSlots _ _
      (congrArg (Option.map _) hsizes) 0 ⟨id, fun _ => none, 0, 0, 0, 0, true⟩
    rw [hrejects] at hcall
    cases hcall

lemma passedOn_pos {args : LoopArgs} {maxSlots count size : ℤ} (hdefault : 0 < args.defaultBufferSize)
    (h : (∃ entry ∈ args.given, Refused entry) ∨ ∀ entry ∈ args.given, entry.2 ≠ some 0)
    (hpassed : passedOn args maxSlots = some (count, size)) : 1 ≤ count ∧ 0 < size := by
  obtain ⟨⟨bufferCount, bufferSize⟩, hsizes, heq⟩ := Option.map_eq_some_iff.mp hpassed
  obtain ⟨rfl, rfl⟩ := Prod.mk.inj heq
  obtain ⟨haccepted, hcount, hsize⟩ := workerKeywordArgs_given hsizes
  have hnonzero := h.resolve_left fun ⟨entry, hentry, hr⟩ => haccepted entry hentry hr
  have hpos : ∀ key v, (key, some v) ∈ args.given → 0 < v := by
    intro key v hmem
    obtain ⟨-, w, hw, hpos⟩ := documented_of_ne_zero (haccepted _ hmem) (hnonzero _ hmem)
    obtain rfl := Option.some.inj hw
    exact hpos
  constructor
  · apply usableBuffers_pos
    rcases hcount with hcount | hcount
    · simp only at hcount
      rw [hcount, defaultBufferCount]
      norm_num
    · exact hpos _ _ hcount
  · rcases hsize with hsize | hsize
    · simp only at hsize
      rw [hsize]
      exact hdefault
    · exact hpos _ _ hsize

/-- The options are validated exactly where no value is zero, or the command refuses another of
the options anyway. -/
theorem options_validated_iff {args : LoopArgs} {maxSlots : ℤ} (hargs : args.WellFormed)
    (hdefault : 0 < args.defaultBufferSize) :
    OptionsValidated args maxSlots ↔
      (∃ entry ∈ args.given, Refused entry) ∨ ∀ entry ∈ args.given, entry.2 ≠ some 0 := by
  constructor
  · intro h
    by_contra hnot
    obtain ⟨haccepted, hzero⟩ := not_or.mp hnot
    push Not at haccepted hzero
    obtain ⟨entry, hentry, hval⟩ := hzero
    exact not_validated_of_zero hargs haccepted hentry hval h
  · intro h
    refine ⟨fun _ _ hpassed => passedOn_pos hdefault h hpassed, ?_, ?_⟩
    · rintro ⟨entry, hentry, hundocumented⟩ n m
      apply asyncExecWorkerLoopCmd_rejects
      apply workerKeywordArgs_eq_none_of_refused
      rcases h with hrefused | hnonzero
      · exact hrefused
      · refine ⟨entry, hentry, ?_⟩
        by_contra hnot
        exact hundocumented (documented_of_ne_zero hnot (hnonzero entry hentry))
    · intro sizes sizes' hsizes
      obtain ⟨-, hcount, hsize⟩ := workerKeywordArgs_given hsizes
      exact ⟨fun habsent => hcount.resolve_right (habsent _),
        fun habsent => hsize.resolve_right (habsent _)⟩

theorem options_validated_iff_count : OptionsValidated
    ⟨4, true, some 1, some [("buffer_count", some 3)], 1048576⟩ (-1) :=
  (options_validated_iff ⟨.inr rfl, rfl, by simp⟩ (by decide)).mpr (.inr (by
    simp [LoopArgs.given]))

/-- A `buffer_count` of zero is accepted, and the loop is run without a buffer. -/
theorem not_options_validated : ¬ ∀ (args : LoopArgs) (maxSlots : ℤ), args.WellFormed →
    0 < args.defaultBufferSize → 1 ≤ maxSlots ∨ maxSlots = -1 → OptionsValidated args maxSlots := by
  intro h
  have hvalidated := h ⟨4, true, some 1, some [("buffer_count", some 0)], 1048576⟩ (-1)
    ⟨.inr rfl, rfl, by simp⟩ (by decide) (.inr rfl)
  have hpre := hvalidated.preconditions 0 1048576 (by decide)
  exact absurd hpre.1 (by decide)

end Turbine.Async
