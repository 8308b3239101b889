import Mathlib

/-! The loops that write a blob to a file and read a file into a blob, whatever the system calls
return. -/

namespace Turbine.Blob

/-- Addresses from a pointer on, counted from the start of the buffer. -/
def span (buffer bytes : ℤ) : List ℤ := (List.range bytes.toNat).map fun i : ℕ => buffer + i

/-- The pointer and the length of each system call, the addresses whose bytes were transferred, and
what the loop returned; none if it waits for the last of the calls. -/
structure Trace where
  calls : List (ℤ × ℤ)
  moved : List ℤ
  returned : Option ℤ

/-- The loop of `write_all` and `read_all`: what is returned when all bytes were transferred, and
what when a call returns zero. -/
def transferAll (full drained : ℤ → ℤ) (count : ℤ) : List ℤ → ℤ → ℤ → ℤ → Trace
  | [], _, chunk, buffer => ⟨[(buffer, chunk)], [], none⟩
  | bytes :: results, total, chunk, buffer =>
    if bytes = 0 then ⟨[(buffer, chunk)], [], some (drained total)⟩
    else if total + bytes = count then
      ⟨[(buffer, chunk)], span buffer bytes, some (full (total + bytes))⟩
    else
      let rest := transferAll full drained count results (total + bytes) (chunk - bytes)
        (buffer + bytes)
      ⟨(buffer, chunk) :: rest.calls, span buffer bytes ++ rest.moved, rest.returned⟩

def writeAll (count : ℤ) (results : List ℤ) : Trace :=
  transferAll (fun _ => 1) (fun _ => 0) count results 0 count 0

def readAll (count : ℤ) (results : List ℤ) : Trace :=
  transferAll id id count results 0 count 0

/-- The report, and the addresses that were transferred. -/
abbrev Report := Option Bool × List ℤ

def Trace.report (t : Trace) : Report := (t.returned.map (· ≠ 0), t.moved)

def blobutilsWrite (opened : Bool) (length : ℤ) (results : List ℤ) : Report :=
  if opened then (writeAll length results).report else (some false, [])

/-- `st_size` as an `int`. -/
def blobLength (stSize : ℕ) : ℤ := Int.bmod stSize (2 ^ 32)

def blobutilsRead (opened : Bool) (stSize : ℕ) (allocated : Bool) (results : List ℤ) : Report :=
  if opened then
    if allocated then (readAll (blobLength stSize) results).report else (some false, [])
  else (some false, [])

/-- What the calls can return from a total on: up to what is left, or an error; nothing after the
loop has ended. -/
def Answers (count : ℤ) : ℤ → List ℤ → Prop
  | _, [] => True
  | total, r :: rs => -1 ≤ r ∧ r ≤ count - total ∧ (rs ≠ [] → r ≠ 0 ∧ total + r ≠ count) ∧
      Answers count (total + r) rs

/-- An error, a zero, or everything transferred. -/
def Stops (count : ℤ) (results : List ℤ) : Prop :=
  0 ∈ results ∨ -1 ∈ results ∨ ∃ rs, rs <+: results ∧ rs.sum = count

structure LoopMeets (loop : List ℤ → Trace) (count : ℤ) (results : List ℤ) : Prop where
  stops : ∀ rs, rs <+: results → ((loop rs).returned.isSome ↔ Stops count rs)
  inBounds : ∀ c ∈ (loop results).calls, 0 ≤ c.1 ∧ 0 ≤ c.2 ∧ c.1 + c.2 ≤ count

/-- Success is reported when the whole buffer was transferred in order, and only then. -/
def ReportsExactly (count : ℤ) (r : Report) : Prop :=
  ∀ ok, r.1 = some ok → (ok = true ↔ r.2 = span 0 count)

structure WriteMeets (opened : Bool) (count : ℤ) (results : List ℤ) : Prop where
  loop : LoopMeets (writeAll count) count results
  report : ReportsExactly count (blobutilsWrite opened count results)

structure ReadMeets (opened : Bool) (stSize : ℕ) (allocated : Bool) (results : List ℤ) : Prop where
  loop : LoopMeets (readAll (blobLength stSize)) (blobLength stSize) results
  report : ReportsExactly (blobLength stSize) (blobutilsRead opened stSize allocated results)

lemma span_append {a m n : ℤ} (hm : 0 ≤ m) (hn : 0 ≤ n) :
    span a m ++ span (a + m) n = span a (m + n) := by
  obtain ⟨k, rfl⟩ := Int.eq_ofNat_of_zero_le hm
  obtain ⟨l, rfl⟩ := Int.eq_ofNat_of_zero_le hn
  have hsum : ((k : ℤ) + l).toNat = k + l := by omega
  simp only [span, hsum, Int.toNat_natCast, List.range_add, List.map_append, List.map_map]
  congr 1
  refine List.map_congr_left ?_
  intro i _
  simp [add_assoc]

@[simp] lemma span_length (a n : ℤ) : (span a n).length = n.toNat := by simp [span]

lemma Answers.of_prefix {count total : ℤ} {rs results : List ℤ} (h : Answers count total results)
    (hp : rs <+: results) : Answers count total rs := by
  induction rs generalizing total results with
  | nil => trivial
  | cons r rs ih =>
    obtain ⟨rest, rfl⟩ := hp
    obtain ⟨hlo, hhi, hmore, hrest⟩ := h
    refine ⟨hlo, hhi, ?_, ih hrest (List.prefix_append _ _)⟩
    intro hne
    exact hmore (by simp [hne])

/-- As long as no call fails: the sum of the results stays within what is left, and reaches it only
with the last of them; the same for a zero. -/
lemma Answers.sum_le {count total : ℤ} {results : List ℤ} (h : Answers count total results)
    (hneg : -1 ∉ results) (htotal : total ≤ count) :
    0 ≤ results.sum ∧ total + results.sum ≤ count := by
  induction results generalizing total with
  | nil => simpa using htotal
  | cons r rs ih =>
    obtain ⟨hlo, hhi, -, hrest⟩ := h
    rw [List.mem_cons, not_or] at hneg
    have hr : 0 ≤ r := by omega
    obtain ⟨hsum, hle⟩ := ih hrest hneg.2 (by omega)
    rw [List.sum_cons]
    omega

/-- The run lemma: with no failing call the loop goes through the buffer from its start. -/
lemma transferAll_run (full drained : ℤ → ℤ) {count total : ℤ} {results : List ℤ}
    (h : Answers count total results) (hneg : -1 ∉ results) (hzero : 0 ≤ total)
    (hlt : total < count) :
    let t := transferAll full drained count results total (count - total) total
    (∀ c ∈ t.calls, 0 ≤ c.1 ∧ 0 ≤ c.2 ∧ c.1 + c.2 ≤ count) ∧
      t.moved = span total results.sum ∧
      t.returned = if 0 ∈ results then some (drained (total + results.sum))
        else if total + results.sum = count then some (full count) else none := by
  induction results generalizing total with
  | nil =>
    refine ⟨?_, rfl, ?_⟩
    · intro c hc
      obtain rfl : c = (total, count - total) := by simpa [transferAll] using hc
      dsimp only
      omega
    · simp [transferAll, hlt.ne]
  | cons r rs ih =>
    obtain ⟨hlo, hhi, hmore, hrest⟩ := h
    rw [List.mem_cons, not_or] at hneg
    have hr : 0 ≤ r := by omega
    have hcall : ∀ c ∈ [(total, count - total)], 0 ≤ c.1 ∧ 0 ≤ c.2 ∧ c.1 + c.2 ≤ count := by
      intro c hc
      rw [List.mem_singleton] at hc
      subst hc
      dsimp only
      omega
    rw [transferAll]
    by_cases hr0 : r = 0
    · have hnil : rs = [] := by
        by_contra hne
        exact (hmore hne).1 hr0
      subst hr0 hnil
      simpa [span] using hcall
    rw [if_neg hr0]
    by_cases hfull : total + r = count
    · have hnil : rs = [] := by
        by_contra hne
        exact (hmore hne).2 hfull
      subst hnil
      rw [if_pos hfull]
      refine ⟨hcall, by simp, ?_⟩
      simp [hfull, Ne.symm hr0]
    rw [if_neg hfull]
    obtain ⟨hcalls, hmoved, hreturned⟩ := ih hrest hneg.2 (by omega) (by omega)
    have hchunk : count - total - r = count - (total + r) := by omega
    have hsum := (hrest.sum_le hneg.2 (by omega)).1
    dsimp only
    rw [hchunk, hmoved, hreturned, span_append hr hsum, List.sum_cons, ← add_assoc]
    refine ⟨?_, rfl, ?_⟩
    · rw [← List.singleton_append, List.forall_mem_append]
      exact ⟨hcall, hcalls⟩
    · simp [Ne.symm hr0]

lemma Answers.nonneg {count total : ℤ} {results : List ℤ} (h : Answers count total results)
    (hneg : -1 ∉ results) : ∀ r ∈ results, 0 ≤ r := by
  induction results generalizing total with
  | nil => simp
  | cons r rs ih =>
    obtain ⟨hlo, -, -, hrest⟩ := h
    rw [List.mem_cons, not_or] at hneg
    rw [List.forall_mem_cons]
    exact ⟨by omega, ih hrest hneg.2⟩

/-- A zero ends the loop before everything was transferred. -/
lemma Answers.sum_lt {count total : ℤ} {results : List ℤ} (h : Answers count total results)
    (hneg : -1 ∉ results) (hlt : total < count) (hmem : 0 ∈ results) :
    total + results.sum < count := by
  induction results generalizing total with
  | nil => cases hmem
  | cons r rs ih =>
    obtain ⟨hlo, hhi, hmore, hrest⟩ := h
    rw [List.mem_cons, not_or] at hneg
    rcases List.mem_cons.mp hmem with rfl | hmem
    · have hnil : rs = [] := by
        by_contra hne
        exact (hmore hne).1 rfl
      simpa [hnil] using hlt
    · have hr := (hmore (List.ne_nil_of_mem hmem)).2
      have hsum := ih hrest hneg.2 (by omega) hmem
      rw [List.sum_cons]
      omega

lemma stops_iff {count : ℤ} {results : List ℤ} (h : Answers count 0 results)
    (hneg : -1 ∉ results) (hcount : 0 ≤ count) :
    Stops count results ↔ 0 ∈ results ∨ results.sum = count := by
  constructor
  · rintro (hmem | hmem | ⟨rs, ⟨rest, rfl⟩, hsum⟩)
    · exact Or.inl hmem
    · exact (hneg hmem).elim
    · have hle := (h.sum_le hneg hcount).2
      have hrest : 0 ≤ rest.sum := List.sum_nonneg fun r hr =>
        h.nonneg hneg r (List.mem_append_right _ hr)
      rw [List.sum_append] at hle ⊢
      right
      omega
  · rintro (hmem | hsum)
    · exact Or.inl hmem
    · exact Or.inr (Or.inr ⟨results, List.prefix_rfl, hsum⟩)

/-- An error is taken for a transfer, and the loop goes on. -/
lemma returned_of_error (full drained : ℤ → ℤ) {count total : ℤ} {rs : List ℤ}
    (h : Answers count total (rs ++ [-1])) (hneg : -1 ∉ rs) (hlt : total < count)
    (chunk buffer : ℤ) :
    (transferAll full drained count (rs ++ [-1]) total chunk buffer).returned = none := by
  induction rs generalizing total chunk buffer with
  | nil =>
    have hne : total + -1 ≠ count := by omega
    simp [transferAll, hne]
  | cons r rs ih =>
    obtain ⟨hlo, hhi, hmore, hrest⟩ := h
    obtain ⟨hr0, hfull⟩ := hmore (by simp)
    rw [List.mem_cons, not_or] at hneg
    rw [List.cons_append, transferAll, if_neg hr0, if_neg hfull]
    exact ih hrest hneg.2 (by omega) _ _

lemma loopMeets_iff (full drained : ℤ → ℤ) {count : ℤ} (hcount : 0 ≤ count) {results : List ℤ}
    (h : Answers count 0 results) :
    LoopMeets (fun rs => transferAll full drained count rs 0 count 0) count results ↔
      0 < count ∧ -1 ∉ results := by
  constructor
  · intro hmeets
    have hpos : 0 < count := by
      by_contra hle
      have hstop : Stops count [] := Or.inr (Or.inr ⟨[], List.prefix_rfl, by simp; omega⟩)
      have hsome := (hmeets.stops [] (List.nil_prefix)).mpr hstop
      simp [transferAll] at hsome
    refine ⟨hpos, ?_⟩
    intro hmem
    obtain ⟨rs, rest, heq, hneg⟩ := List.eq_append_cons_of_mem hmem
    have hp : rs ++ [-1] <+: results := ⟨rest, by simp [heq]⟩
    have hsome := (hmeets.stops _ hp).mpr (Or.inr (Or.inl (by simp)))
    rw [returned_of_error full drained (h.of_prefix hp) hneg hpos] at hsome
    cases hsome
  · rintro ⟨hpos, hneg⟩
    constructor
    · intro rs hp
      have hrs := h.of_prefix hp
      have hnegrs : -1 ∉ rs := fun hmem => hneg (hp.subset hmem)
      have hrun := (transferAll_run full drained hrs hnegrs le_rfl hpos).2.2
      rw [sub_zero] at hrun
      rw [stops_iff hrs hnegrs hcount, hrun, zero_add]
      split <;> rename_i hmem
      · simp [hmem]
      · split <;> rename_i hsum <;> simp [hmem, hsum]
    · have hrun := (transferAll_run full drained h hneg le_rfl hpos).1
      rwa [sub_zero] at hrun

lemma span_eq_iff {m n : ℤ} (hm : 0 ≤ m) (hn : 0 ≤ n) : span 0 m = span 0 n ↔ m = n := by
  constructor
  · intro heq
    have hlen := congrArg List.length heq
    rw [span_length, span_length] at hlen
    omega
  · rintro rfl
    rfl

/-- A loop that ends reports the whole blob; before its end it reports nothing. -/
lemma reportsExactly_iff (full drained : ℤ → ℤ) {count : ℤ} (hpos : 0 < count) {results : List ℤ}
    (h : Answers count 0 results) (hneg : -1 ∉ results) (hfull : full count ≠ 0) :
    ReportsExactly count (transferAll full drained count results 0 count 0).report ↔
      (0 ∈ results → drained results.sum = 0) := by
  obtain ⟨-, hmoved, hreturned⟩ := transferAll_run full drained h hneg le_rfl hpos
  rw [sub_zero] at hmoved hreturned
  rw [zero_add] at hreturned
  have hsum := (h.sum_le hneg hpos.le).1
  simp only [ReportsExactly, Trace.report, hmoved, hreturned, span_eq_iff hsum hpos.le]
  by_cases hmem : 0 ∈ results
  · have hlt := h.sum_lt hneg hpos hmem
    have hne : results.sum ≠ count := by omega
    simp [hmem, hne]
  · by_cases hcount : results.sum = count
    · simp [hmem, hcount, hfull]
    · simp [hmem, hcount]

lemma reportsExactly_failed {count : ℤ} (hpos : 0 < count) :
    ReportsExactly count (some false, []) := by
  rintro ok hok
  obtain rfl : ok = false := (Option.some.inj hok).symm
  have hne : [] ≠ span 0 count := by
    intro heq
    have hlen := congrArg List.length heq
    rw [span_length, List.length_nil] at hlen
    omega
  simp [hne]

lemma writeMeets_iff (opened : Bool) {count : ℤ} (hcount : 0 ≤ count) {results : List ℤ}
    (h : Answers count 0 results) :
    WriteMeets opened count results ↔ 0 < count ∧ -1 ∉ results := by
  constructor
  · intro hmeets
    exact (loopMeets_iff _ _ hcount h).mp hmeets.loop
  · rintro ⟨hpos, hneg⟩
    refine ⟨(loopMeets_iff _ _ hcount h).mpr ⟨hpos, hneg⟩, ?_⟩
    cases opened with
    | false => exact reportsExactly_failed hpos
    | true => exact (reportsExactly_iff _ _ hpos h hneg one_ne_zero).mpr fun _ => rfl

/-- Nothing was read before the end of the file. -/
lemma sum_eq_zero_iff {count : ℤ} {results : List ℤ} (h : Answers count 0 results)
    (hneg : -1 ∉ results) (hmem : 0 ∈ results) : results.sum = 0 ↔ results = [0] := by
  cases results with
  | nil => cases hmem
  | cons r rs =>
    have hnonneg := h.nonneg hneg
    obtain ⟨-, -, hmore, -⟩ := h
    rw [List.forall_mem_cons] at hnonneg
    have hsum : 0 ≤ rs.sum := List.sum_nonneg hnonneg.2
    cases rs with
    | nil => simp
    | cons r' rs =>
      have hr := (hmore (List.cons_ne_nil _ _)).1
      have hne : (r :: r' :: rs).sum ≠ 0 := by
        rw [List.sum_cons]
        omega
      refine iff_of_false hne ?_
      simp

lemma readMeets_iff (opened allocated : Bool) {stSize : ℕ} (hcount : 0 ≤ blobLength stSize)
    {results : List ℤ} (h : Answers (blobLength stSize) 0 results) :
    ReadMeets opened stSize allocated results ↔
      0 < blobLength stSize ∧ -1 ∉ results ∧
        (opened = true → allocated = true → 0 ∈ results → results = [0]) := by
  have hloop := loopMeets_iff id id hcount h
  have hreads (hpos : 0 < blobLength stSize) (hneg : -1 ∉ results) :
      ReportsExactly (blobLength stSize) (readAll (blobLength stSize) results).report ↔
        (0 ∈ results → results = [0]) := by
    have hfull : id (blobLength stSize) ≠ 0 := by
      rw [id_eq]
      exact hpos.ne'
    rw [readAll, reportsExactly_iff id id hpos h hneg hfull]
    exact forall_congr' fun hmem => sum_eq_zero_iff h hneg hmem
  constructor
  · intro hmeets
    obtain ⟨hpos, hneg⟩ := hloop.mp hmeets.loop
    refine ⟨hpos, hneg, ?_⟩
    rintro rfl rfl hmem
    exact (hreads hpos hneg).mp hmeets.report hmem
  · rintro ⟨hpos, hneg, hfirst⟩
    refine ⟨hloop.mpr ⟨hpos, hneg⟩, ?_⟩
    cases opened with
    | false => exact reportsExactly_failed hpos
    | true =>
      cases allocated with
      | false => exact reportsExactly_failed hpos
      | true => exact (hreads hpos hneg).mpr (hfirst rfl rfl)

/-- A blob of `count` bytes, and a file whose size is read as `count`. -/
theorem transfers_meet_iff (opened allocated : Bool) {count : ℤ} (hcount : 0 ≤ count)
    {stSize : ℕ} (hsize : blobLength stSize = count) {results : List ℤ}
    (h : Answers count 0 results) :
    (WriteMeets opened count results ↔ 0 < count ∧ -1 ∉ results) ∧
      (ReadMeets opened stSize allocated results ↔
        0 < count ∧ -1 ∉ results ∧
          (opened = true → allocated = true → 0 ∈ results → results = [0])) := by
  subst hsize
  exact ⟨writeMeets_iff opened hcount h, readMeets_iff opened allocated hcount h⟩

/-- Five bytes in two transfers. -/
theorem transfers_meet_iff_short :
    WriteMeets true 5 [2, 3] ∧ ReadMeets true 5 true [2, 3] := by
  have hsize : blobLength 5 = 5 := by decide
  have hanswers : Answers 5 0 [2, 3] := by simp [Answers]
  obtain ⟨hwrite, hread⟩ := transfers_meet_iff true true (by decide) hsize hanswers
  exact ⟨hwrite.mpr ⟨by decide, by decide⟩, hread.mpr ⟨by decide, by decide, fun _ _ => by simp⟩⟩

/-- An empty blob, an error of the first call, and a file that ends early. -/
theorem not_transfers_meet :
    ¬ WriteMeets true 0 [0] ∧ ¬ ReadMeets true 0 true [0] ∧
      ¬ WriteMeets true 5 [-1] ∧ ¬ ReadMeets true 5 true [3, 0] := by
  have hzero : blobLength 0 = 0 := by decide
  have hfive : blobLength 5 = 5 := by decide
  refine ⟨?_, ?_, ?_, ?_⟩
  · intro hmeets
    have h : Answers 0 0 [0] := by simp [Answers]
    exact absurd ((writeMeets_iff true le_rfl h).mp hmeets).1 (by decide)
  · intro hmeets
    have h : Answers (blobLength 0) 0 [0] := by simp [Answers, hzero]
    have hpos := ((readMeets_iff true true (by rw [hzero]) h).mp hmeets).1
    rw [hzero] at hpos
    exact absurd hpos (by decide)
  · intro hmeets
    have h : Answers 5 0 [-1] := by simp [Answers]
    exact absurd (List.mem_singleton_self _) ((writeMeets_iff true (by decide) h).mp hmeets).2
  · intro hmeets
    have h : Answers (blobLength 5) 0 [3, 0] := by simp [Answers, hfive]
    have hfirst := ((readMeets_iff true true (by rw [hfive]; decide) h).mp hmeets).2.2
    exact absurd (hfirst rfl rfl (by simp)) (by decide)

end Turbine.Blob
