import Turbine.Library.Commands
import Turbine.Library.MapM
import Turbine.Library.OrderedDict

/-! Arrays and matrices that are read from blobs of floats, and the blobs that are made of arrays. -/

namespace Turbine.Blob.Arrays

open Turbine.Library

/-- Tcl's floats and the doubles in memory. A number that was read is written so that it is read
again. -/
structure Doubles (V F : Type) where
  getDouble : V → Option F
  newDouble : F → V
  getDouble_newDouble : ∀ v x, getDouble v = some x → getDouble (newDouble x) = some x

/-- A pointer and a length in bytes. -/
structure Handle where
  pointer : ℕ
  length : ℕ

/-- The allocated blocks, and the indexes that were read from them. -/
structure State (F : Type) where
  heap : ℕ → List F
  next : ℕ
  reads : List ℤ

inductive Stop
  | user (message : String)
  | noKey
  | notFloat
  | overflow (index : ℤ)
  | outOfBlob (index : ℤ)

abbrev Script (F α : Type) := Cmd (State F) Stop α

variable {V F β : Type}

def sizeofFloat : ℕ := 8

/-- `for { set i 0 } { $i < $n } { incr i } { dict append result $i ... }` -/
def fillFrom (value : ℤ → Script F β) : ℕ → ℤ → OrderedDict ℤ β → Script F (OrderedDict ℤ β)
  | 0, _, result => pure result
  | remaining + 1, i, result => do
    let v ← value i
    fillFrom value remaining (i + 1) (result.set i v)

def fill (n : ℤ) (value : ℤ → Script F β) : Script F (OrderedDict ℤ β) :=
  fillFrom value n.toNat 0 .empty

section Implementations

variable (D : Doubles V F)

/-- `blobutils_get_float`, whose index is a C `int`. -/
def getFloat (p : ℕ) (index : ℤ) : Script F V := fun s =>
  if index < -2 ^ 31 ∨ 2 ^ 31 ≤ index then (.error (.overflow index), s)
  else
    let t := { s with reads := s.reads ++ [index] }
    match if 0 ≤ index then (s.heap p)[index.toNat]? else none with
    | none => (.error (.outOfBlob index), t)
    | some x => (.ok (D.newDouble x), t)

def floatsFromBlobImpl (blob : Handle) : Script F (OrderedDict ℤ V) :=
  let n := blob.length / sizeofFloat
  fill n fun i => getFloat D blob.pointer i

def matrixFromBlobFortranImpl (L : Handle) (m n : ℤ) :
    Script F (OrderedDict ℤ (OrderedDict ℤ V)) :=
  let total : ℕ := L.length / sizeofFloat
  if (total : ℤ) ≠ m * n then
    Cmd.throw (.user s!"matrix_from_blob: blob size {total} != {m} x {n}")
  else
    fill m fun i => fill n fun j =>
      let k := j * m + i
      getFloat D L.pointer k

def sortedDictValues (kvDict : OrderedDict ℤ V) : Option (List V) :=
  (List.range kvDict.entries.length).mapM fun i : ℕ => kvDict.get? i

/-- `ADLB_Blob_From_Float_List_Cmd` -/
def blobFromFloatList (values : List V) : Script F Handle := fun s =>
  match values.mapM D.getDouble with
  | none => (.error .notFloat, s)
  | some xs =>
    let blobSize := values.length * sizeofFloat
    (.ok ⟨s.next, blobSize⟩,
      { s with heap := Function.update s.heap s.next xs, next := s.next + 1 })

def blobFromFloatsImpl (kvDict : OrderedDict ℤ V) : Script F Handle :=
  match sortedDictValues kvDict with
  | none => Cmd.throw .noKey
  | some values => blobFromFloatList D values

end Implementations

/-! ### Loops that fill a dictionary -/

section Loops

variable {P : State F → Prop} {R : ℤ → β → Prop} {value : ℤ → Script F β}

/-- The command keeps what holds of the state, and every value it returns has `Q`. -/
def Yields (P : State F → Prop) (c : Script F β) (Q : β → Prop) : Prop :=
  ∀ s, P s → P (c s).2 ∧ ∀ v, (c s).1 = .ok v → Q v

def Returns (P : State F → Prop) (c : Script F β) : Prop := ∀ s, P s → ∃ v, (c s).1 = .ok v

/-- Entries with `R` for the indexes from `lo` to `hi`, and otherwise those of `result`. -/
def Extends (R : ℤ → β → Prop) (lo hi : ℤ) (result d : OrderedDict ℤ β) : Prop :=
  ∀ k, if lo ≤ k ∧ k < hi then ∃ v, d.get? k = some v ∧ R k v else d.get? k = result.get? k

lemma Extends.step {lo hi : ℤ} {v : β} {result d : OrderedDict ℤ β} (hlt : lo < hi) (hv : R lo v)
    (h : Extends R (lo + 1) hi (result.set lo v) d) : Extends R lo hi result d := by
  intro k
  have hk := h k
  rw [OrderedDict.get?_set] at hk
  by_cases hlo : k = lo
  · subst hlo
    rw [if_pos ⟨le_refl k, hlt⟩]
    rw [if_neg (by omega), if_pos rfl] at hk
    exact ⟨v, hk, hv⟩
  · rw [if_neg hlo] at hk
    by_cases hin : lo + 1 ≤ k ∧ k < hi
    · rw [if_pos hin] at hk
      rwa [if_pos ⟨by omega, hin.2⟩]
    · rw [if_neg hin] at hk
      rwa [if_neg (by omega)]

lemma yields_fillFrom (remaining : ℕ) (lo : ℤ) (result : OrderedDict ℤ β)
    (h : ∀ i, lo ≤ i → i < lo + remaining → Yields P (value i) (R i)) :
    Yields P (fillFrom value remaining lo result) (Extends R lo (lo + remaining) result) := by
  induction remaining generalizing lo result with
  | zero =>
    refine fun s hs => ⟨hs, fun d hd k => ?_⟩
    rw [if_neg (by omega), ← Except.ok.inj hd]
  | succ remaining ih =>
    intro s hs
    obtain ⟨hkeep, hyield⟩ := h lo (le_refl lo) (by omega) s hs
    rw [fillFrom, Cmd.bind_apply]
    rcases hv : value lo s with ⟨e | v, t⟩ <;> rw [hv] at hkeep hyield
    · exact ⟨hkeep, fun d hd => absurd hd (by simp)⟩
    · have hih := ih (lo + 1) (result.set lo v) fun i hlo hhi => h i (by omega) (by omega)
      obtain ⟨hkeep', hyield'⟩ := hih t hkeep
      refine ⟨hkeep', fun d hd => ?_⟩
      have hextends := hyield' d hd
      rw [show lo + 1 + (remaining : ℤ) = lo + (remaining + 1 : ℕ) by push_cast; ring] at hextends
      exact hextends.step (by omega) (hyield v rfl)

lemma returns_fillFrom (remaining : ℕ) (lo : ℤ) (result : OrderedDict ℤ β)
    (h : ∀ i, lo ≤ i → i < lo + remaining → Yields P (value i) (R i) ∧ Returns P (value i)) :
    Returns P (fillFrom value remaining lo result) := by
  induction remaining generalizing lo result with
  | zero => exact fun s _ => ⟨result, rfl⟩
  | succ remaining ih =>
    intro s hs
    obtain ⟨hyields, hreturns⟩ := h lo (le_refl lo) (by omega)
    obtain ⟨v, hv⟩ := hreturns s hs
    have hrun : value lo s = (.ok v, (value lo s).2) := Prod.ext hv rfl
    rw [fillFrom, Cmd.bind_of_ok hrun]
    exact ih (lo + 1) (result.set lo v) (fun i hlo hhi => h i (by omega) (by omega)) _
      (hyields s hs).1

/-- The dictionary has the indexes below `n` for keys, and values with `R`. -/
def Filled (R : ℤ → β → Prop) (n : ℤ) (d : OrderedDict ℤ β) : Prop :=
  ∀ k, if 0 ≤ k ∧ k < n then ∃ v, d.get? k = some v ∧ R k v else d.get? k = none

lemma yields_fill {n : ℤ} (h : ∀ i, 0 ≤ i → i < n → Yields P (value i) (R i)) :
    Yields P (fill n value) (Filled R n) := by
  intro s hs
  obtain ⟨hkeep, hyield⟩ := yields_fillFrom (P := P) n.toNat 0 .empty
    (fun i hlo hhi => h i hlo (by omega)) s hs
  refine ⟨hkeep, fun d hd k => ?_⟩
  have hk := hyield d hd k
  by_cases hin : 0 ≤ k ∧ k < n
  · rw [if_pos ⟨hin.1, by omega⟩] at hk
    rwa [if_pos hin]
  · rw [if_neg (by omega)] at hk
    rw [if_neg hin, hk]
    rfl

lemma returns_fill {n : ℤ}
    (h : ∀ i, 0 ≤ i → i < n → Yields P (value i) (R i) ∧ Returns P (value i)) :
    Returns P (fill n value) :=
  returns_fillFrom (R := R) n.toNat 0 .empty fun i hlo hhi => h i hlo (by omega)

end Loops

/-! ### Reading a blob -/

section Reads

variable {D : Doubles V F} {p : ℕ} {xs : List F} {before : List ℤ}

/-- The block holds the elements, and since `before` only indexes of elements were read. -/
def Reading (p : ℕ) (xs : List F) (before : List ℤ) (s : State F) : Prop :=
  s.heap p = xs ∧ ∃ ks, s.reads = before ++ ks ∧ ∀ k ∈ ks, 0 ≤ k ∧ k < xs.length

lemma reading_start {s : State F} (h : s.heap p = xs) : Reading p xs s.reads s :=
  ⟨h, [], by simp, by simp⟩

def IsElement (D : Doubles V F) (xs : List F) (k : ℤ) (v : V) : Prop :=
  ∃ x, xs[k.toNat]? = some x ∧ v = D.newDouble x

lemma getFloat_apply {s : State F} {k : ℤ} (hs : s.heap p = xs) (hk : 0 ≤ k ∧ k < xs.length)
    (hint : k < 2 ^ 31) : ∃ x, xs[k.toNat]? = some x ∧
      getFloat D p k s = (.ok (D.newDouble x), { s with reads := s.reads ++ [k] }) := by
  have hlt : k.toNat < xs.length := by omega
  refine ⟨xs[k.toNat], List.getElem?_eq_getElem hlt, ?_⟩
  unfold getFloat
  rw [if_neg (by omega), hs, if_pos hk.1, List.getElem?_eq_getElem hlt]

lemma yields_getFloat {k : ℤ} (hk : 0 ≤ k ∧ k < xs.length) :
    Yields (Reading p xs before) (getFloat D p k) (IsElement D xs k) := by
  intro s hs
  by_cases hint : k < 2 ^ 31
  · obtain ⟨x, hx, hrun⟩ := getFloat_apply (D := D) hs.1 hk hint
    rw [hrun]
    obtain ⟨ks, hreads, hks⟩ := hs.2
    refine ⟨⟨hs.1, ks ++ [k], by rw [hreads, List.append_assoc], fun i hi => ?_⟩,
      fun v hv => ⟨x, hx, (Except.ok.inj hv).symm⟩⟩
    rcases List.mem_append.mp hi with hi | hi
    · exact hks i hi
    · rw [List.mem_singleton.mp hi]
      exact hk
  · have hrun : getFloat D p k s = (.error (.overflow k), s) := by
      unfold getFloat
      rw [if_pos (by omega)]
    rw [hrun]
    exact ⟨hs, fun v hv => absurd hv (by simp)⟩

lemma returns_getFloat {k : ℤ} (hk : 0 ≤ k ∧ k < xs.length) (hint : k < 2 ^ 31) :
    Returns (Reading p xs before) (getFloat D p k) := by
  intro s hs
  obtain ⟨x, -, hrun⟩ := getFloat_apply (D := D) hs.1 hk hint
  exact ⟨D.newDouble x, congrArg Prod.fst hrun⟩

end Reads

/-! ### Arrays -/

section Arrays

/-- A dictionary from 0 to n - 1 to floats; Tcl counts its entries in a C `int`. -/
structure FloatArray (D : Doubles V F) where
  dict : OrderedDict ℤ V
  keys : ∀ k, (∃ v, dict.get? k = some v) ↔ 0 ≤ k ∧ k < dict.entries.length
  floats : ∀ k v, dict.get? k = some v → ∃ x, D.getDouble v = some x
  size : dict.entries.length < 2 ^ 31

variable {D : Doubles V F} (d : FloatArray D)

def FloatArray.double (k : ℤ) : Option F := (d.dict.get? k).bind D.getDouble

/-- The doubles of the array, in the order of its indexes. -/
lemma FloatArray.exists_doubles : ∃ values xs, sortedDictValues d.dict = some values ∧
    values.mapM D.getDouble = some xs ∧ values.length = d.dict.entries.length ∧
    xs.length = d.dict.entries.length ∧
    ∀ k : ℤ, 0 ≤ k → k < d.dict.entries.length → d.double k = xs[k.toNat]? := by
  have hdouble : ∀ i ∈ List.range d.dict.entries.length,
      ∃ x, (d.dict.get? i).bind D.getDouble = some x := by
    intro i hi
    obtain ⟨v, hv⟩ := (d.keys i).mpr ⟨by omega, by exact_mod_cast List.mem_range.mp hi⟩
    obtain ⟨x, hx⟩ := d.floats i v hv
    exact ⟨x, by rw [hv, Option.bind_some, hx]⟩
  obtain ⟨xs, hxs⟩ := exists_forall₂ hdouble
  have hboth := mapM_bind_mapM (fun i : ℕ => d.dict.get? i) D.getDouble
    (List.range d.dict.entries.length)
  rw [mapM_eq_some_iff.mpr hxs, Option.bind_eq_some_iff] at hboth
  obtain ⟨values, hvalues, hmap⟩ := hboth
  have hlength : xs.length = d.dict.entries.length := by
    rw [← hxs.length_eq, List.length_range]
  refine ⟨values, xs, hvalues, hmap, ?_, hlength, fun k hk hlt => ?_⟩
  · rw [← length_eq_of_mapM hmap, hlength]
  · have hat := hxs.get (i := k.toNat) (by simp; omega) (by omega)
    simp only [List.get_eq_getElem, List.getElem_range, Int.toNat_of_nonneg hk] at hat
    rw [FloatArray.double, hat, List.getElem?_eq_getElem (by omega)]

/-- The blob of the array is read back with the same keys and the same floats. -/
def FloatArray.RoundTrips : Prop :=
  ∀ s, ∃ blob t, blobFromFloatsImpl D d.dict s = (.ok blob, t) ∧
    ∀ u, u.heap blob.pointer = t.heap blob.pointer →
      ∃ result w, floatsFromBlobImpl D blob u = (.ok result, w) ∧
        ∀ k, (result.get? k).map D.getDouble = (d.dict.get? k).map D.getDouble

lemma roundTrips : d.RoundTrips := by
  intro s
  obtain ⟨values, xs, hvalues, hxs, hvaluesLength, hxsLength, hdouble⟩ := d.exists_doubles
  refine ⟨⟨s.next, values.length * sizeofFloat⟩,
    { s with heap := Function.update s.heap s.next xs, next := s.next + 1 }, ?_, ?_⟩
  · simp only [blobFromFloatsImpl, hvalues, blobFromFloatList, hxs]
  · intro u hu
    simp only [Function.update_self] at hu
    have hcount : values.length * sizeofFloat / sizeofFloat = xs.length := by
      rw [Nat.mul_div_cancel _ (by decide), hvaluesLength, hxsLength]
    have hindex : ∀ i, 0 ≤ i → i < (xs.length : ℤ) →
        Yields (Reading s.next xs u.reads) (getFloat D s.next i) (IsElement D xs i) ∧
          Returns (Reading s.next xs u.reads) (getFloat D s.next i) := by
      intro i hi hlt
      have hsize := d.size
      exact ⟨yields_getFloat ⟨hi, hlt⟩, returns_getFloat ⟨hi, hlt⟩ (by omega)⟩
    obtain ⟨result, hresult⟩ := returns_fill hindex u (reading_start hu)
    obtain ⟨-, hfilled⟩ :=
      yields_fill (fun i hi hlt => (hindex i hi hlt).1) u (reading_start hu)
    have hfilled := hfilled result hresult
    refine ⟨result, _, Prod.ext ?_ rfl, fun k => ?_⟩
    · simp only [floatsFromBlobImpl, hcount]
      exact hresult
    · have hk := hfilled k
      by_cases hin : 0 ≤ k ∧ k < (xs.length : ℤ)
      · rw [if_pos hin] at hk
        obtain ⟨v, hv, x, hx, rfl⟩ := hk
        rw [hxsLength] at hin
        obtain ⟨v', hv'⟩ := (d.keys k).mpr hin
        have hdouble := hdouble k hin.1 hin.2
        rw [FloatArray.double, hv', Option.bind_some, hx] at hdouble
        rw [hv, hv', Option.map_some, Option.map_some, D.getDouble_newDouble v' x hdouble, hdouble]
      · rw [if_neg hin] at hk
        rw [hxsLength] at hin
        have hnone : d.dict.get? k = none := by
          by_contra hsome
          exact hin ((d.keys k).mp (Option.ne_none_iff_exists'.mp hsome))
        rw [hk, hnone]

end Arrays

/-! ### Matrices -/

section Matrices

variable {D : Doubles V F} {p : ℕ} {xs : List F} {m n : ℤ}

def entry (matrix : OrderedDict ℤ (OrderedDict ℤ V)) (i j : ℤ) : Option V :=
  (matrix.get? i).bind (·.get? j)

/-- An entry is the element at its place in column-major order, and every element has one place. -/
def HoldsElements (D : Doubles V F) (xs : List F) (m : ℤ)
    (matrix : OrderedDict ℤ (OrderedDict ℤ V)) : Prop :=
  (∀ i j v, entry matrix i j = some v →
      0 ≤ j * m + i ∧ j * m + i < xs.length ∧ IsElement D xs (j * m + i) v) ∧
    ∀ k : ℕ, k < xs.length →
      ∃! place : ℤ × ℤ, (∃ v, entry matrix place.1 place.2 = some v) ∧
        place.2 * m + place.1 = k

/-- Only elements are read, and the matrix that is returned holds them, if one is. -/
def MatrixMeets (D : Doubles V F) (xs : List F) (m n : ℤ) : Prop :=
  ∀ (s : State F) p, s.heap p = xs →
    let (r, t) := matrixFromBlobFortranImpl D ⟨p, xs.length * sizeofFloat⟩ m n s
    (∃ ks, t.reads = s.reads ++ ks ∧ ∀ k ∈ ks, 0 ≤ k ∧ k < xs.length) ∧
      ∀ matrix, r = .ok matrix → HoldsElements D xs m matrix

lemma place_mem {i j : ℤ} (hi : 0 ≤ i ∧ i < m) (hj : 0 ≤ j ∧ j < n) :
    0 ≤ j * m + i ∧ j * m + i < m * n := by
  constructor
  · have hjm : 0 ≤ j * m := mul_nonneg hj.1 (by omega)
    omega
  · calc j * m + i < j * m + m := by omega
      _ = m * (j + 1) := by ring
      _ ≤ m * n := mul_le_mul_of_nonneg_left (by omega) (by omega)

/-- Column and row are the quotient and the remainder of the index. -/
lemma place_unique {i j : ℤ} (hi : 0 ≤ i ∧ i < m) :
    (j * m + i) % m = i ∧ (j * m + i) / m = j := by
  have hm : m ≠ 0 := by omega
  constructor
  · rw [add_comm, Int.add_mul_emod_self_right, Int.emod_eq_of_lt hi.1 hi.2]
  · rw [add_comm, Int.add_mul_ediv_right _ _ hm, Int.ediv_eq_zero_of_lt hi.1 hi.2, zero_add]

/-- The entries that the loops fill. -/
lemma entry_of_filled {matrix : OrderedDict ℤ (OrderedDict ℤ V)}
    (h : Filled (fun i => Filled (fun j => IsElement D xs (j * m + i)) n) m matrix) (i j : ℤ) :
    if (0 ≤ i ∧ i < m) ∧ 0 ≤ j ∧ j < n then
      ∃ v, entry matrix i j = some v ∧ IsElement D xs (j * m + i) v
    else entry matrix i j = none := by
  have hi := h i
  by_cases hrow : 0 ≤ i ∧ i < m
  · rw [if_pos hrow] at hi
    obtain ⟨row, hrowAt, hfilled⟩ := hi
    have hj := hfilled j
    have hentry : entry matrix i j = row.get? j := by rw [entry, hrowAt, Option.bind_some]
    rw [hentry]
    by_cases hcolumn : 0 ≤ j ∧ j < n
    · rw [if_pos hcolumn] at hj
      rwa [if_pos ⟨hrow, hcolumn⟩]
    · rw [if_neg fun hin => hcolumn hin.2]
      rwa [if_neg hcolumn] at hj
  · rw [if_neg hrow] at hi
    rw [if_neg fun hin => hrow hin.1, entry, hi, Option.bind_none]

lemma holdsElements_of_filled {matrix : OrderedDict ℤ (OrderedDict ℤ V)}
    (hsize : (xs.length : ℤ) = m * n) (hsign : ¬(m < 0 ∧ n < 0))
    (h : Filled (fun i => Filled (fun j => IsElement D xs (j * m + i)) n) m matrix) :
    HoldsElements D xs m matrix := by
  have hentry := entry_of_filled h
  refine ⟨fun i j v hv => ?_, fun k hk => ?_⟩
  · have hij := hentry i j
    by_cases hin : (0 ≤ i ∧ i < m) ∧ 0 ≤ j ∧ j < n
    · rw [if_pos hin] at hij
      obtain ⟨w, hw, helement⟩ := hij
      obtain rfl := Option.some.inj (hv.symm.trans hw)
      obtain ⟨hlow, hhigh⟩ := place_mem hin.1 hin.2
      exact ⟨hlow, by omega, helement⟩
    · rw [if_neg hin, hv] at hij
      exact absurd hij (by simp)
  · -- there is an element, so both counts are positive
    have hpos : 0 < m * n := by omega
    obtain ⟨hm, hn⟩ : 0 < m ∧ 0 < n :=
      (pos_and_pos_or_neg_and_neg_of_mul_pos hpos).resolve_right hsign
    have hcolumn : 0 ≤ (k : ℤ) / m ∧ (k : ℤ) / m < n :=
      ⟨Int.ediv_nonneg (by omega) hm.le, Int.ediv_lt_of_lt_mul hm (by rw [mul_comm]; omega)⟩
    have hrow : 0 ≤ (k : ℤ) % m ∧ (k : ℤ) % m < m :=
      ⟨Int.emod_nonneg _ hm.ne', Int.emod_lt_of_pos _ hm⟩
    refine ⟨(k % m, k / m), ⟨?_, ?_⟩, ?_⟩
    · have hat := hentry (k % m) (k / m)
      rw [if_pos ⟨hrow, hcolumn⟩] at hat
      obtain ⟨v, hv, -⟩ := hat
      exact ⟨v, hv⟩
    · rw [mul_comm]
      exact Int.mul_ediv_add_emod k m
    · rintro ⟨i, j⟩ ⟨⟨v, hv⟩, hplace⟩
      have hij := hentry i j
      by_cases hin : (0 ≤ i ∧ i < m) ∧ 0 ≤ j ∧ j < n
      · obtain ⟨hmod, hdiv⟩ := place_unique (j := j) hin.1
        dsimp only at hplace
        rw [← hplace, hmod, hdiv]
      · rw [if_neg hin, hv] at hij
        exact absurd hij (by simp)

lemma div_sizeofFloat (count : ℕ) : count * sizeofFloat / sizeofFloat = count :=
  Nat.mul_div_cancel _ (by decide)

/-- A blob of another size is refused before anything is read. -/
lemma matrixMeets_of_size (h : (xs.length : ℤ) ≠ m * n) : MatrixMeets D xs m n := by
  intro s p hs
  have hrun : ∃ message, matrixFromBlobFortranImpl D ⟨p, xs.length * sizeofFloat⟩ m n s =
      (.error (.user message), s) := by
    simp only [matrixFromBlobFortranImpl, div_sizeofFloat]
    rw [if_pos h]
    exact ⟨_, rfl⟩
  obtain ⟨message, hrun⟩ := hrun
  rw [hrun]
  exact ⟨⟨[], by simp, by simp⟩, fun matrix hmatrix => absurd hmatrix (by simp)⟩

lemma matrixMeets_of_sign (hsize : (xs.length : ℤ) = m * n) (hsign : ¬(m < 0 ∧ n < 0)) :
    MatrixMeets D xs m n := by
  intro s p hs
  have hrun : matrixFromBlobFortranImpl D ⟨p, xs.length * sizeofFloat⟩ m n s =
      fill m (fun i => fill n fun j => getFloat D p (j * m + i)) s := by
    simp only [matrixFromBlobFortranImpl, div_sizeofFloat]
    rw [if_neg (not_not_intro hsize)]
  rw [hrun]
  have hyields : Yields (Reading p xs s.reads)
      (fill m fun i => fill n fun j => getFloat D p (j * m + i))
      (Filled (fun i => Filled (fun j => IsElement D xs (j * m + i)) n) m) :=
    yields_fill fun i hi hlt => yields_fill fun j hj hlt' => by
        obtain ⟨hlow, hhigh⟩ := place_mem ⟨hi, hlt⟩ ⟨hj, hlt'⟩
        exact yields_getFloat ⟨hlow, by omega⟩
  obtain ⟨hreading, hfilled⟩ := hyields s (reading_start hs)
  exact ⟨hreading.2, fun matrix hmatrix =>
    holdsElements_of_filled hsize hsign (hfilled matrix hmatrix)⟩

/-- No loop runs, and the elements are lost. -/
lemma not_matrixMeets (hm : m < 0) (hn : n < 0) (hsize : m * n = xs.length) :
    ¬MatrixMeets D xs m n := by
  intro h
  have hmeets := h ⟨fun _ => xs, 0, []⟩ 0 rfl
  have hrun : matrixFromBlobFortranImpl D ⟨0, xs.length * sizeofFloat⟩ m n
      ⟨fun _ => xs, 0, []⟩ = (.ok .empty, ⟨fun _ => xs, 0, []⟩) := by
    simp only [matrixFromBlobFortranImpl, div_sizeofFloat]
    rw [if_neg (not_not_intro hsize.symm), fill, Int.toNat_of_nonpos hm.le]
    rfl
  have hpos : 0 < xs.length := by
    have := mul_pos_of_neg_of_neg hm hn
    omega
  rw [hrun] at hmeets
  obtain ⟨place, ⟨⟨v, hv⟩, -⟩, -⟩ := (hmeets.2 .empty rfl).2 0 hpos
  exact absurd hv (by simp [entry, OrderedDict.get?, OrderedDict.empty])

lemma matrixMeets_iff : MatrixMeets D xs m n ↔ ¬(m < 0 ∧ n < 0 ∧ m * n = xs.length) := by
  constructor
  · rintro h ⟨hm, hn, hsize⟩
    exact not_matrixMeets hm hn hsize h
  · intro h
    by_cases hsize : (xs.length : ℤ) = m * n
    · exact matrixMeets_of_sign hsize fun hsign => h ⟨hsign.1, hsign.2, hsize.symm⟩
    · exact matrixMeets_of_size hsize

end Matrices

/-! ### Main result -/

theorem blobs_keep_floats_iff (D : Doubles V F) :
    (∀ d : FloatArray D, d.RoundTrips) ∧ ∀ (xs : List F) (m n : ℤ),
      MatrixMeets D xs m n ↔ ¬(m < 0 ∧ n < 0 ∧ m * n = xs.length) :=
  ⟨roundTrips, fun _ _ _ => matrixMeets_iff⟩

/-- Numbers that are their own texts. -/
def exactDoubles : Doubles ℚ ℚ := ⟨some, id, fun _ _ _ => rfl⟩

/-- A blob of two floats as a matrix of -1 by -2: the size is right and nothing is in the matrix. -/
theorem not_blobs_keep_floats : ¬MatrixMeets exactDoubles [1, 2] (-1) (-2) :=
  not_matrixMeets (by decide) (by decide) (by decide)

end Turbine.Blob.Arrays
