import Turbine.Tcl.Result

/-! The part of the Tcl C library that the extension calls. A Tcl value is whatever the library
says about it, so the functions are parameters and their contract is a set of named laws. -/

namespace Turbine.Tcl

abbrev Bytes := List UInt8

/-- Bytes as message text, one character per byte. -/
def showBytes (b : Bytes) : String :=
  String.ofList (b.map fun x => Char.ofNat x.toNat)

/-- Objects `Obj` and double values `D`. `getDict` lists a dictionary in insertion order; its size,
and that of a list, is returned by the library in an `int`. -/
structure TclApi (Obj D : Type) where
  getString : Obj → Bytes
  getWideInt : Obj → Option Int64
  getDouble : Obj → Option D
  getBlob : Obj → Option Bytes
  getDict : Obj → Option (List (Obj × Obj))
  getList : Obj → Option (List Obj)
  newWideInt : Int64 → Obj
  newDouble : D → Obj
  newString : Bytes → Obj
  newBlob : Bytes → Obj
  newDict : List (Obj × Obj) → Obj
  newList : List Obj → Obj
  dict_nodup : ∀ o d, getDict o = some d → (d.map fun e => getString e.1).Nodup
  dict_size : ∀ o d, getDict o = some d → d.length < 2 ^ 31
  list_size : ∀ o l, getList o = some l → l.length < 2 ^ 31

variable {Obj D : Type}

namespace TclApi

/-- Every object the library builds reads back as what it was built from. -/
structure Lawful (tcl : TclApi Obj D) : Prop where
  getString_newString : ∀ s, tcl.getString (tcl.newString s) = s
  getWideInt_newWideInt : ∀ n, tcl.getWideInt (tcl.newWideInt n) = some n
  getDouble_newDouble : ∀ x, tcl.getDouble (tcl.newDouble x) = some x
  getBlob_newBlob : ∀ b, tcl.getBlob (tcl.newBlob b) = some b
  getDict_newDict : ∀ d, (d.map fun e => tcl.getString e.1).Nodup → d.length < 2 ^ 31 →
    tcl.getDict (tcl.newDict d) = some d
  getList_newList : ∀ l, l.length < 2 ^ 31 → tcl.getList (tcl.newList l) = some l

variable (tcl : TclApi Obj D)

/-- The value under a key with this text. -/
def lookup (d : List (Obj × Obj)) (text : Bytes) : Option Obj :=
  (d.find? fun e => tcl.getString e.1 = text).map Prod.snd

/-- `Tcl_DictObjGet`: keys are compared as strings. -/
def dictGet (d : List (Obj × Obj)) (key : Obj) : Option Obj := tcl.lookup d (tcl.getString key)

/-- `Tcl_DictObjPut`: a key already there keeps its place. -/
def dictPut (d : List (Obj × Obj)) (key val : Obj) : List (Obj × Obj) :=
  if d.any fun e => tcl.getString e.1 = tcl.getString key then
    d.map fun e => if tcl.getString e.1 = tcl.getString key then (e.1, val) else e
  else d ++ [(key, val)]

/-- `lsort` without options: a stable sort by the bytes of the string form. -/
def lsort (l : List Obj) : List Obj :=
  l.insertionSort fun a b => tcl.getString a ≤ tcl.getString b

lemma lsort_perm (l : List Obj) : (tcl.lsort l).Perm l := List.perm_insertionSort _ l

lemma dictGet_isSome {d : List (Obj × Obj)} {key : Obj} (h : key ∈ d.map Prod.fst) :
    (tcl.dictGet d key).isSome := by
  obtain ⟨e, he, rfl⟩ := List.mem_map.mp h
  simp only [dictGet, lookup, Option.isSome_map, List.find?_isSome]
  exact ⟨e, he, by simp⟩

lemma dictGet_of_mem {d : List (Obj × Obj)} {e : Obj × Obj}
    (h : (d.map fun e => tcl.getString e.1).Nodup) (he : e ∈ d) :
    tcl.dictGet d e.1 = some e.2 := by
  induction d with
  | nil => simp at he
  | cons e' d ih =>
    rw [List.map_cons, List.nodup_cons] at h
    rcases List.mem_cons.mp he with rfl | he
    · simp [dictGet, lookup]
    · have hne : tcl.getString e'.1 ≠ tcl.getString e.1 := by
        intro heq
        exact h.1 (heq ▸ List.mem_map_of_mem he)
      simpa [dictGet, lookup, hne] using ih h.2 he

lemma dictPut_new {d : List (Obj × Obj)} {key : Obj} (val : Obj)
    (h : tcl.getString key ∉ d.map fun e => tcl.getString e.1) :
    tcl.dictPut d key val = d ++ [(key, val)] := by
  have hany : (d.any fun e => tcl.getString e.1 = tcl.getString key) = false := by
    simpa [List.any_eq_false] using h
  simp [dictPut, hany]

@[simp] lemma lookup_nil (text : Bytes) : tcl.lookup [] text = none := rfl

lemma lookup_cons (e : Obj × Obj) (d : List (Obj × Obj)) (text : Bytes) :
    tcl.lookup (e :: d) text = if tcl.getString e.1 = text then some e.2 else tcl.lookup d text := by
  unfold lookup
  rw [List.find?_cons]
  by_cases h : tcl.getString e.1 = text <;> simp [h]

lemma lookup_append (d d' : List (Obj × Obj)) (text : Bytes) :
    tcl.lookup (d ++ d') text = (tcl.lookup d text).or (tcl.lookup d' text) := by
  unfold lookup
  rw [List.find?_append]
  cases d.find? fun e => tcl.getString e.1 = text <;> simp

lemma lookup_eq_none {d : List (Obj × Obj)} {text : Bytes} :
    tcl.lookup d text = none ↔ text ∉ d.map fun e => tcl.getString e.1 := by
  induction d with
  | nil => simp
  | cons e d ih =>
    rw [lookup_cons, List.map_cons, List.mem_cons, not_or, ← ih]
    by_cases h : tcl.getString e.1 = text
    · simp [h]
    · simp [h, Ne.symm h]

/-- One entry after `Tcl_DictObjPut`. -/
def putEntry (key val : Obj) (e : Obj × Obj) : Obj × Obj :=
  if tcl.getString e.1 = tcl.getString key then (e.1, val) else e

lemma dictPut_old {d : List (Obj × Obj)} {key : Obj} (val : Obj)
    (h : tcl.getString key ∈ d.map fun e => tcl.getString e.1) :
    tcl.dictPut d key val = d.map (tcl.putEntry key val) := by
  have hany : (d.any fun e => tcl.getString e.1 = tcl.getString key) = true := by
    simpa [List.any_eq_true] using h
  simp [dictPut, hany, putEntry]

@[simp] lemma getString_putEntry (key val : Obj) (e : Obj × Obj) :
    tcl.getString (tcl.putEntry key val e).1 = tcl.getString e.1 := by
  unfold putEntry
  split <;> rfl

lemma lookup_map_putEntry (d : List (Obj × Obj)) (key val : Obj) (text : Bytes) :
    tcl.lookup (d.map (tcl.putEntry key val)) text =
      if tcl.getString key = text then (tcl.lookup d text).map fun _ => val
      else tcl.lookup d text := by
  induction d with
  | nil => simp
  | cons e d ih =>
    rw [List.map_cons, lookup_cons, lookup_cons, getString_putEntry, ih]
    by_cases he : tcl.getString e.1 = text
    · by_cases hk : tcl.getString key = text
      · simp [he, hk, putEntry]
      · simp [he, hk, Ne.symm hk, putEntry]
    · simp [he]

lemma lookup_dictPut (d : List (Obj × Obj)) (key val : Obj) (text : Bytes) :
    tcl.lookup (tcl.dictPut d key val) text =
      if tcl.getString key = text then some val else tcl.lookup d text := by
  by_cases hmem : tcl.getString key ∈ d.map fun e => tcl.getString e.1
  · rw [dictPut_old tcl val hmem, lookup_map_putEntry]
    split_ifs with hkey
    · subst hkey
      obtain ⟨v, hv⟩ := Option.ne_none_iff_exists'.mp fun h => (lookup_eq_none tcl).mp h hmem
      rw [hv]
      rfl
    · rfl
  · rw [dictPut_new tcl val hmem, lookup_append, lookup_cons, lookup_nil]
    split_ifs with hkey
    · rw [(lookup_eq_none tcl).mpr (hkey ▸ hmem), Option.none_or]
    · rw [Option.or_none]

lemma dictPut_nodup {d : List (Obj × Obj)} (key val : Obj)
    (h : (d.map fun e => tcl.getString e.1).Nodup) :
    ((tcl.dictPut d key val).map fun e => tcl.getString e.1).Nodup := by
  by_cases hmem : tcl.getString key ∈ d.map fun e => tcl.getString e.1
  · rw [dictPut_old tcl val hmem, List.map_map]
    simpa [Function.comp_def] using h
  · rw [dictPut_new tcl val hmem, List.map_append]
    refine List.nodup_append.mpr ⟨h, by simp, ?_⟩
    rintro a ha b hb rfl
    obtain rfl : a = tcl.getString key := List.mem_singleton.mp hb
    exact hmem ha

end TclApi

/-- `Tcl_NewStringObj (mem, length)` on the memory from a pointer to the end of its block: a
negative length means that the text runs up to the next zero byte. -/
def newStringObj (tcl : TclApi Obj D) (mem : Bytes) (length : ℤ) : TclResult Obj :=
  if length < 0 then
    match mem.idxOf? 0 with
    | some n => .ok (tcl.newString (mem.take n))
    | none => .undefined
  else if length.toNat ≤ mem.length then .ok (tcl.newString (mem.take length.toNat))
  else .undefined

/-- The conversion `(int) (n - 1)` of a `size_t`. -/
def intPred (n : ℕ) : ℤ := Int.bmod ((n : ℤ) - 1) (2 ^ 32)

lemma intPred_succ {n : ℕ} (h : n < 2 ^ 31) : intPred (n + 1) = n := by
  unfold intPred
  have : ((n + 1 : ℕ) : ℤ) - 1 = n := by push_cast; ring
  rw [this, Int.bmod_eq_of_le] <;> omega

lemma newStringObj_text (tcl : TclApi Obj D) {s : Bytes} (rest : Bytes) (h : s.length < 2 ^ 31) :
    newStringObj tcl (s ++ rest) (intPred (s.length + 1)) = .ok (tcl.newString s) := by
  rw [intPred_succ h, newStringObj, if_neg (by omega), if_pos (by simp)]
  simp

end Turbine.Tcl
