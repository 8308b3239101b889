import Turbine.Library.Runs

/-! The buffers of retrieved blobs: which command frees which of them. -/

namespace Turbine.Blob

open Turbine.Library.Runs

structure Handle where
  id : ℤ
  sub : Option (List UInt8)
  deriving DecidableEq

/-- The three elements of a retrieved blob value. -/
structure BlobValue where
  pointer : ℕ
  length : ℕ
  handle : Handle

/-- The bytes of the id and those of the subscript; the id has a fixed length. -/
abbrev CacheKey := ℤ × List UInt8

def blobCacheKey (handle : Handle) : CacheKey := (handle.id, handle.sub.getD [])

structure State where
  /-- The buffer that was last allocated at an address, and whether it still is. -/
  heap : ℕ → Option (ℕ × Bool)
  blobCache : CacheKey → List ℕ
  /-- What was returned to the script; the `i`-th value points to the `i`-th buffer. -/
  values : List BlobValue
  frees : List ℕ

def start : State := ⟨fun _ => none, fun _ => [], [], []⟩

def State.free (s : State) (pointer : ℕ) : State :=
  match s.heap pointer with
  | none => s
  | some (buffer, _) => { s with
      heap := Function.update s.heap pointer (some (buffer, false))
      frees := buffer :: s.frees }

def State.tableBpAdd (s : State) (key : CacheKey) (pointer : ℕ) : State :=
  { s with blobCache := Function.update s.blobCache key (pointer :: s.blobCache key) }

def State.tableBpRemove (s : State) (key : CacheKey) (pointer : ℕ) : State :=
  { s with blobCache := Function.update s.blobCache key ((s.blobCache key).erase pointer) }

def State.malloc (s : State) (pointer length : ℕ) (handle : Handle) : State :=
  { s with
    heap := Function.update s.heap pointer (some (s.values.length, true))
    values := s.values ++ [⟨pointer, length, handle⟩] }

inductive Command
  | retrieveBlob (handle : Handle)
  | blobFree (handle : Handle)
  | localBlobFree (value : ℕ)

/-- `uncache_blob`: the table decides which of the pointers under the key is removed and freed. -/
inductive Uncaches (s : State) (key : CacheKey) : Bool → State → Prop
  | found {pointer} : pointer ∈ s.blobCache key →
      Uncaches s key true ((s.tableBpRemove key pointer).free pointer)
  | notFound : s.blobCache key = [] → Uncaches s key false s

inductive Step : State → Command → State → Prop
  -- an address that is not allocated, which may be one that was freed
  | retrieveBlob {s handle pointer length} : (∀ buffer, s.heap pointer ≠ some (buffer, true)) →
      Step s (.retrieveBlob handle)
        ((s.malloc pointer length handle).tableBpAdd (blobCacheKey handle) pointer)
  | retrieveBlobFails {s handle} : Step s (.retrieveBlob handle) s
  | blobFree {s handle cached t} : Uncaches s (blobCacheKey handle) cached t →
      Step s (.blobFree handle) t
  | localBlobFree {s i value t} : s.values[i]? = some value →
      Uncaches s (blobCacheKey value.handle) true t → Step s (.localBlobFree i) t
  -- taken for one that the cache does not manage
  | localBlobFreeUncached {s i value t} : s.values[i]? = some value →
      Uncaches s (blobCacheKey value.handle) false t →
      Step s (.localBlobFree i) (t.free value.pointer)

/-- No buffer is freed twice, and freeing a value frees the buffer that it points to. -/
def Owned (s : State) (command : Command) (t : State) : Prop :=
  t.frees.Nodup ∧ ∀ i, command = .localBlobFree i → t.frees = i :: s.frees

/-- The value that is freed points to the only buffer under its key that is not yet freed. -/
def Sole (s : State) : Command → Prop
  | .localBlobFree i => ∀ value, s.values[i]? = some value → i ∉ s.frees ∧
      ∀ j other, s.values[j]? = some other → j ∉ s.frees →
        blobCacheKey other.handle = blobCacheKey value.handle → j = i
  | _ => True

/-! ### What the cache manages -/

structure Inv (s : State) : Prop where
  nodup : s.frees.Nodup
  freed : ∀ b ∈ s.frees, b < s.values.length
  live : ∀ (i : ℕ) (value : BlobValue), s.values[i]? = some value → i ∉ s.frees →
    s.heap value.pointer = some (i, true)
  heap : ∀ (i : ℕ) (value : BlobValue), s.values[i]? = some value → (s.heap value.pointer).isSome
  cached : ∀ key pointer, pointer ∈ s.blobCache key ↔ ∃ (i : ℕ) (value : BlobValue),
    s.values[i]? = some value ∧ i ∉ s.frees ∧ blobCacheKey value.handle = key ∧
      value.pointer = pointer
  distinct : ∀ key, (s.blobCache key).Nodup

lemma inv_start : Inv start where
  nodup := List.nodup_nil
  freed _ h := by simp [start] at h
  live _ _ h := by simp [start] at h
  heap _ _ h := by simp [start] at h
  cached := by simp [start]
  distinct _ := List.nodup_nil

variable {s t : State}

lemma getElem?_malloc {pointer length : ℕ} {handle : Handle} {i : ℕ} {value : BlobValue} :
    (s.malloc pointer length handle).values[i]? = some value ↔
      s.values[i]? = some value ∨ i = s.values.length ∧ value = ⟨pointer, length, handle⟩ := by
  change (s.values ++ [⟨pointer, length, handle⟩])[i]? = some value ↔ _
  rcases lt_trichotomy i s.values.length with hlt | rfl | hgt
  · simp [List.getElem?_append_left hlt, hlt.ne]
  · simp [eq_comm]
  · simp [List.getElem?_eq_none, hgt.ne', hgt.le, Nat.succ_le_of_lt hgt]

lemma Inv.malloc (h : Inv s) {pointer length : ℕ} {handle : Handle}
    (hfree : ∀ buffer, s.heap pointer ≠ some (buffer, true)) :
    Inv ((s.malloc pointer length handle).tableBpAdd (blobCacheKey handle) pointer) := by
  have hne : ∀ (i : ℕ) (value : BlobValue), s.values[i]? = some value → i ∉ s.frees →
      value.pointer ≠ pointer := by
    rintro i value hvalue hi rfl
    exact hfree i (h.live i value hvalue hi)
  have hfresh : s.values.length ∉ s.frees := fun hmem => (h.freed _ hmem).false
  have hcache : pointer ∉ s.blobCache (blobCacheKey handle) := by
    intro hmem
    obtain ⟨i, value, hvalue, hi, -, heq⟩ := (h.cached _ _).mp hmem
    exact hne i value hvalue hi heq
  constructor
  case nodup => exact h.nodup
  case freed =>
    intro b hb
    have hlt := h.freed b hb
    simp [State.malloc, State.tableBpAdd]
    omega
  case live =>
    intro i value hvalue hi
    rcases getElem?_malloc.mp hvalue with hvalue | ⟨rfl, rfl⟩
    · simpa [State.malloc, State.tableBpAdd, hne i value hvalue hi] using h.live i value hvalue hi
    · simp [State.malloc, State.tableBpAdd]
  case heap =>
    intro i value hvalue
    rcases getElem?_malloc.mp hvalue with hvalue | ⟨rfl, rfl⟩
    · by_cases heq : value.pointer = pointer
      · simp [State.malloc, State.tableBpAdd, heq]
      · simpa [State.malloc, State.tableBpAdd, heq] using h.heap i value hvalue
    · simp [State.malloc, State.tableBpAdd]
  case cached =>
    intro key pointer'
    have hold := h.cached key pointer'
    constructor
    · intro hmem
      by_cases hkey : key = blobCacheKey handle
      · subst hkey
        simp only [State.malloc, State.tableBpAdd, Function.update_self, List.mem_cons] at hmem
        rcases hmem with rfl | hmem
        · exact ⟨_, _, getElem?_malloc.mpr (.inr ⟨rfl, rfl⟩), hfresh, rfl, rfl⟩
        · obtain ⟨i, value, hvalue, hrest⟩ := hold.mp hmem
          exact ⟨i, value, getElem?_malloc.mpr (.inl hvalue), hrest⟩
      · simp only [State.malloc, State.tableBpAdd, Function.update_of_ne hkey] at hmem
        obtain ⟨i, value, hvalue, hrest⟩ := hold.mp hmem
        exact ⟨i, value, getElem?_malloc.mpr (.inl hvalue), hrest⟩
    · rintro ⟨i, value, hvalue, hi, rfl, rfl⟩
      rcases getElem?_malloc.mp hvalue with hvalue | ⟨rfl, rfl⟩
      · have hmem := hold.mpr ⟨i, value, hvalue, hi, rfl, rfl⟩
        by_cases hkey : blobCacheKey value.handle = blobCacheKey handle
        · rw [hkey] at hmem ⊢
          simpa [State.malloc, State.tableBpAdd] using .inr hmem
        · simpa [State.malloc, State.tableBpAdd, hkey] using hmem
      · simp [State.malloc, State.tableBpAdd]
  case distinct =>
    intro key
    by_cases hkey : key = blobCacheKey handle
    · subst hkey
      simpa [State.malloc, State.tableBpAdd, hcache] using h.distinct _
    · simpa [State.malloc, State.tableBpAdd, hkey] using h.distinct key

lemma State.free_eq {pointer buffer : ℕ} {allocated : Bool}
    (h : s.heap pointer = some (buffer, allocated)) :
    s.free pointer = { s with
      heap := Function.update s.heap pointer (some (buffer, false))
      frees := buffer :: s.frees } := by
  simp [State.free, h]

/-- Freeing a cached pointer frees the buffer of the value that has it. -/
lemma Inv.uncache (h : Inv s) {i : ℕ} {value : BlobValue} (hvalue : s.values[i]? = some value)
    (hi : i ∉ s.frees) :
    Inv ((s.tableBpRemove (blobCacheKey value.handle) value.pointer).free value.pointer) ∧
      ((s.tableBpRemove (blobCacheKey value.handle) value.pointer).free value.pointer).frees =
        i :: s.frees := by
  have hlive := h.live i value hvalue hi
  have hother : ∀ (j : ℕ) (other : BlobValue), s.values[j]? = some other → j ∉ i :: s.frees →
      j ∉ s.frees ∧ other.pointer ≠ value.pointer := by
    intro j other hother hj
    rw [List.mem_cons, not_or] at hj
    refine ⟨hj.2, ?_⟩
    intro heq
    have hlive' := h.live j other hother hj.2
    rw [heq, hlive] at hlive'
    exact hj.1 (by simpa [eq_comm] using hlive')
  have hfree := State.free_eq (s := s.tableBpRemove (blobCacheKey value.handle) value.pointer) hlive
  rw [hfree]
  refine ⟨?_, rfl⟩
  constructor
  case nodup => exact List.nodup_cons.mpr ⟨hi, h.nodup⟩
  case freed =>
    intro b hb
    rcases List.mem_cons.mp hb with rfl | hb
    · exact (List.getElem?_eq_some_iff.mp hvalue).1
    · exact h.freed b hb
  case live =>
    intro j other hvalue' hj
    obtain ⟨hj, hne⟩ := hother j other hvalue' hj
    simpa [State.tableBpRemove, hne] using h.live j other hvalue' hj
  case heap =>
    intro j other hvalue'
    by_cases heq : other.pointer = value.pointer
    · simp [heq]
    · simpa [State.tableBpRemove, heq] using h.heap j other hvalue'
  case cached =>
    intro key pointer
    constructor
    · intro hmem
      by_cases hkey : key = blobCacheKey value.handle
      · subst hkey
        simp only [State.tableBpRemove, Function.update_self, (h.distinct _).mem_erase_iff] at hmem
        obtain ⟨j, other, hvalue', hj, hkey, rfl⟩ := (h.cached _ _).mp hmem.2
        refine ⟨j, other, hvalue', ?_, hkey, rfl⟩
        rw [List.mem_cons, not_or]
        refine ⟨?_, hj⟩
        rintro rfl
        rw [hvalue] at hvalue'
        obtain rfl := Option.some.inj hvalue'
        exact hmem.1 rfl
      · simp only [State.tableBpRemove, Function.update_of_ne hkey] at hmem
        obtain ⟨j, other, hvalue', hj, hkey', rfl⟩ := (h.cached _ _).mp hmem
        refine ⟨j, other, hvalue', ?_, hkey', rfl⟩
        rw [List.mem_cons, not_or]
        refine ⟨?_, hj⟩
        rintro rfl
        rw [hvalue] at hvalue'
        obtain rfl := Option.some.inj hvalue'
        exact hkey hkey'.symm
    · rintro ⟨j, other, hvalue', hj, rfl, rfl⟩
      obtain ⟨hj, hne⟩ := hother j other hvalue' hj
      have hmem := (h.cached _ _).mpr ⟨j, other, hvalue', hj, rfl, rfl⟩
      by_cases hkey : blobCacheKey other.handle = blobCacheKey value.handle
      · rw [hkey] at hmem ⊢
        simpa [State.tableBpRemove, (h.distinct _).mem_erase_iff] using ⟨hne, hmem⟩
      · simpa [State.tableBpRemove, hkey] using hmem
  case distinct =>
    intro key
    by_cases hkey : key = blobCacheKey value.handle
    · subst hkey
      simpa [State.tableBpRemove] using (h.distinct _).erase value.pointer
    · simpa [State.tableBpRemove, hkey] using h.distinct key

/-- Whichever pointer the table gives back, the buffer of a value under the key is freed. -/
lemma Inv.uncaches (h : Inv s) {key : CacheKey} (huncaches : Uncaches s key true t) :
    ∃ (i : ℕ) (value : BlobValue), s.values[i]? = some value ∧ i ∉ s.frees ∧
      blobCacheKey value.handle = key ∧ Inv t ∧ t.frees = i :: s.frees := by
  cases huncaches with
  | @found pointer hmem =>
    obtain ⟨i, value, hvalue, hi, rfl, rfl⟩ := (h.cached key pointer).mp hmem
    exact ⟨i, value, hvalue, hi, rfl, h.uncache hvalue hi⟩

lemma Inv.mem_cache (h : Inv s) {i : ℕ} {value : BlobValue} (hvalue : s.values[i]? = some value)
    (hi : i ∉ s.frees) : value.pointer ∈ s.blobCache (blobCacheKey value.handle) :=
  (h.cached _ _).mpr ⟨i, value, hvalue, hi, rfl, rfl⟩

lemma Inv.step (h : Inv s) {command : Command} (hsole : Sole s command)
    (hstep : Step s command t) : Inv t ∧ Owned s command t := by
  cases hstep with
  | retrieveBlob hfree => exact ⟨h.malloc hfree, h.nodup, fun i heq => by cases heq⟩
  | retrieveBlobFails => exact ⟨h, h.nodup, fun i heq => by cases heq⟩
  | @blobFree handle cached _ huncaches =>
    cases cached with
    | false =>
      cases huncaches
      exact ⟨h, h.nodup, fun i heq => by cases heq⟩
    | true =>
      obtain ⟨i, value, -, -, -, ht, -⟩ := h.uncaches huncaches
      exact ⟨ht, ht.nodup, fun i heq => by cases heq⟩
  | @localBlobFree i value _ hvalue huncaches =>
    obtain ⟨-, hsole⟩ := hsole value hvalue
    obtain ⟨j, other, hother, hj, hkey, ht, hfrees⟩ := h.uncaches huncaches
    obtain rfl := hsole j other hother hj hkey
    refine ⟨ht, ht.nodup, ?_⟩
    intro i' heq
    obtain rfl := Command.localBlobFree.inj heq
    exact hfrees
  | @localBlobFreeUncached i value _ hvalue huncaches =>
    obtain ⟨hi, -⟩ := hsole value hvalue
    have hmem := h.mem_cache hvalue hi
    cases huncaches with
    | notFound hnil => simp [hnil] at hmem

/-- A value that was freed before, or that shares its key with another, is freed wrongly. -/
lemma exists_not_owned (h : Inv s) {command : Command} (hsole : ¬ Sole s command) :
    ∃ t, Step s command t ∧ ¬ Owned s command t := by
  cases command with
  | retrieveBlob handle => exact absurd trivial hsole
  | blobFree handle => exact absurd trivial hsole
  | localBlobFree i =>
    simp only [Sole, not_forall] at hsole
    obtain ⟨value, hvalue, hsole⟩ := hsole
    by_cases hi : i ∈ s.frees
    · have htwice : ∀ t, ¬ Owned s (.localBlobFree i) t := by
        rintro t ⟨hnodup, hfrees⟩
        rw [hfrees i rfl, List.nodup_cons] at hnodup
        exact hnodup.1 hi
      rcases hcache : s.blobCache (blobCacheKey value.handle) with _ | ⟨pointer, rest⟩
      · exact ⟨_, .localBlobFreeUncached hvalue (.notFound hcache), htwice _⟩
      · exact ⟨_, .localBlobFree hvalue (.found (hcache ▸ List.mem_cons_self)), htwice _⟩
    · simp only [hi, not_false_eq_true, true_and, not_forall] at hsole
      obtain ⟨j, other, hother, hj, hkey, hne⟩ := hsole
      have hmem := h.mem_cache hother hj
      refine ⟨_, .localBlobFree hvalue (.found (hkey ▸ hmem)), ?_⟩
      rintro ⟨-, hfrees⟩
      have hother' := (h.uncache hother hj).2
      rw [hkey] at hother'
      have heq := (hfrees i rfl).symm.trans hother'
      exact hne (List.cons.inj heq).1.symm

theorem always_owned_iff (commands : List Command) :
    Always Step Owned start commands ↔ AlwaysMeets Step Sole start commands := by
  have hkeep : ∀ s c t, Inv s → Sole s c → Step s c t → Inv t ∧ Owned s c t :=
    fun _ _ _ hs => hs.step
  have hback : ∀ s c, Inv s → ¬ Sole s c → ∃ t, Step s c t ∧ ¬ Owned s c t :=
    fun _ _ hs => exists_not_owned hs
  exact always_iff_meets hkeep hback inv_start commands

def first : Handle := ⟨1, none⟩

/-- Two values of one datum, and the table gives back the other's buffer; or one value, freed
twice. -/
theorem not_always_owned :
    ¬ Always Step Owned start [.retrieveBlob first, .retrieveBlob first, .localBlobFree 0] ∧
      ¬ Always Step Owned start [.retrieveBlob first, .localBlobFree 0, .localBlobFree 0] := by
  constructor
  · intro h
    obtain ⟨-, h⟩ := h _ (@Step.retrieveBlob start first 100 8 (by simp [start]))
    obtain ⟨-, h⟩ := h _ (@Step.retrieveBlob _ first 200 8 (by
      simp [State.malloc, State.tableBpAdd, start]))
    obtain ⟨⟨-, hfrees⟩, -⟩ := h _ (@Step.localBlobFree _ 0 ⟨100, 8, first⟩ _ rfl
      (@Uncaches.found _ _ 200 (by simp [State.malloc, State.tableBpAdd])))
    exact absurd (hfrees 0 rfl) (by decide)
  · intro h
    obtain ⟨-, h⟩ := h _ (@Step.retrieveBlob start first 100 8 (by simp [start]))
    obtain ⟨-, h⟩ := h _ (@Step.localBlobFree _ 0 ⟨100, 8, first⟩ _ rfl
      (@Uncaches.found _ _ 100 (by simp [State.malloc, State.tableBpAdd])))
    obtain ⟨⟨hnodup, -⟩, -⟩ := h _ (@Step.localBlobFreeUncached _ 0 ⟨100, 8, first⟩ _ rfl
      (.notFound rfl))
    exact absurd hnodup (by decide)

end Turbine.Blob
