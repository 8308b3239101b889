import Turbine.Library.Occurrences

/-! Finding, counting and replacing of substrings. -/

namespace Turbine.Strings.Substrings

open Turbine.Library.Occurrences

/-! ### Tcl's string commands -/

/-- `string first`; the empty string is found nowhere. -/
def stringFirst (needle haystack : List Char) (startIndex : ℤ) : ℤ :=
  if needle = [] then -1
  else match first? needle haystack startIndex.toNat with
    | some i => i
    | none => -1

/-- `string range`, both ends included and both cut to the string. -/
def stringRange (string : List Char) (first last : ℤ) : List Char :=
  (string.take (last + 1).toNat).drop first.toNat

def stringLength (string : List Char) : ℤ := string.length

/-! ### The implementations -/

def findImpl (str subs : List Char) (startIndex endIndex : ℤ) : ℤ :=
  let endIndex := if endIndex = -1 then stringLength str else endIndex
  let ret := stringFirst subs str startIndex
  let len := stringLength subs
  let subsEnd := ret + len
  if subsEnd ≤ endIndex then ret else -1

/-- What a procedure returns; `empty` if it runs off its end. -/
inductive Returned
  | integer (n : ℤ)
  | empty
  deriving DecidableEq

def countLoop (str subs : List Char) (endIndex : ℤ) : ℕ → ℤ → ℤ → Option Returned
  | 0, _, _ => none
  | fuel + 1, index, found =>
    if index ≤ endIndex then
      let r := findImpl str subs index endIndex
      if r = -1 then some (.integer found)
      else
        -- to the end of the occurrence, and one further by the loop
        let index := r + stringLength subs - 1
        countLoop str subs endIndex fuel (index + 1) (found + 1)
    else some .empty

def countImpl (fuel : ℕ) (str subs : List Char) (startIndex endIndex : ℤ) : Option Returned :=
  let endIndex := if endIndex = -1 then stringLength str else endIndex
  countLoop str subs endIndex fuel startIndex 0

def replaceImpl (str substring repString : List Char) (startIndex : ℤ) : List Char :=
  let start := findImpl str substring startIndex (-1)
  if start = -1 then str
  else
    let stop := start + stringLength substring
    let part1 := stringRange str 0 (start - 1)
    let part2 := stringRange str stop (stringLength str - 1)
    part1 ++ repString ++ part2

def replaceLoop (str substring repString : List Char) (endIndex : ℤ) :
    ℕ → ℤ → List Char → Option (List Char)
  | 0, _, _ => none
  | fuel + 1, index, result =>
    let substringLen := stringLength substring
    -- last index that the substring can start at without overshooting the end
    let lastStart := endIndex - substringLen
    let length := stringLength str
    if index ≤ length then
      let r := findImpl str substring index endIndex
      if r = -1 ∨ r > lastStart then some (result ++ stringRange str index length)
      else
        let result := result ++ stringRange str index (r - 1) ++ repString
        let index := r + substringLen - 1
        replaceLoop str substring repString endIndex fuel (index + 1) result
    else some result

def replaceAllImpl (fuel : ℕ) (str substring repString : List Char) (startIndex endIndex : ℤ) :
    Option (List Char) :=
  replaceLoop str substring repString endIndex fuel startIndex (stringRange str 0 (startIndex - 1))

/-! ### The search -/

section Search

variable {s t : List Char} {start stop : ℕ} {found : List ℕ}

lemma findImpl_nat (s t : List Char) (start stop : ℕ) : findImpl s t start stop =
    if stringFirst t s start + t.length ≤ stop then stringFirst t s start else -1 := by
  have hstop : (stop : ℤ) ≠ -1 := by omega
  rw [findImpl, if_neg hstop]
  rfl

lemma stringFirst_some {i : ℕ} (ht : t ≠ []) (h : first? t s start = some i) :
    stringFirst t s start = i := by
  rw [stringFirst, if_neg ht, Int.toNat_natCast, h]

lemma stringFirst_none (ht : t ≠ []) (h : first? t s start = none) :
    stringFirst t s start = -1 := by
  rw [stringFirst, if_neg ht, Int.toNat_natCast, h]

lemma neg_one_le_stringFirst (needle haystack : List Char) (startIndex : ℤ) :
    -1 ≤ stringFirst needle haystack startIndex := by
  rw [stringFirst]
  split
  · exact le_rfl
  · split <;> omega

lemma neg_one_le_findImpl (str subs : List Char) (startIndex endIndex : ℤ) :
    -1 ≤ findImpl str subs startIndex endIndex := by
  have hfirst := neg_one_le_stringFirst subs str startIndex
  simp only [findImpl]
  split <;> split <;> omega

lemma findImpl_eq (ht : t ≠ []) (h : Greedy t s stop start found) :
    findImpl s t start stop = found.head?.elim (-1) ((↑) : ℕ → ℤ) := by
  rw [findImpl_nat]
  cases found with
  | nil =>
    cases hfind : first? t s start with
    | none =>
      rw [stringFirst_none ht hfind, ite_self]
      rfl
    | some i =>
      have hlt := h.first_eq_none ht i hfind
      rw [stringFirst_some ht hfind, if_neg (by omega)]
      rfl
  | cons i rest =>
    rw [stringFirst_some ht (h.first_eq_some ht)]
    cases h with
    | next _ _ hstop _ _ =>
      rw [if_pos (by omega)]
      rfl

end Search

/-! ### The loops -/

section Loops

variable {s t : List Char} {start stop : ℕ} {found : List ℕ}

lemma stringRange_nat (s : List Char) (first last : ℕ) :
    stringRange s first (last - 1) = (s.drop first).take (last - first) := by
  have hlast : ((last : ℤ) - 1 + 1).toNat = last := by omega
  rw [stringRange, hlast, Int.toNat_natCast, List.drop_take]

lemma stringRange_length (s : List Char) (first : ℕ) :
    stringRange s first (stringLength s) = s.drop first := by
  rw [stringRange, Int.toNat_natCast, List.take_of_length_le]
  rw [stringLength]
  omega

lemma after_occurrence (i : ℕ) (t : List Char) :
    (i : ℤ) + stringLength t - 1 + 1 = ((i + t.length : ℕ) : ℤ) := by
  rw [stringLength]
  omega

/-- As long as the search starts before the end, the loop counts to the last occurrence. -/
lemma countLoop_eq (ht : t ≠ []) (h : Greedy t s stop start found) (hle : start ≤ stop)
    {fuel : ℕ} (hfuel : found.length < fuel) (n : ℤ) :
    countLoop s t stop fuel start n = some (.integer (n + found.length)) := by
  obtain ⟨fuel, rfl⟩ := Nat.exists_eq_add_one.mpr (Nat.zero_lt_of_lt hfuel)
  have hfind := findImpl_eq ht h
  induction h generalizing fuel n with
  | none =>
    rw [countLoop, if_pos (Int.ofNat_le.mpr hle), hfind]
    simp
  | @next start i rest _ _ hstop _ hrest ih =>
    obtain ⟨fuel, rfl⟩ := Nat.exists_eq_add_one.mpr (Nat.zero_lt_of_lt (Nat.lt_of_succ_lt_succ hfuel))
    have hi : (i : ℤ) ≠ -1 := by omega
    rw [countLoop, if_pos (Int.ofNat_le.mpr hle), hfind]
    simp only [List.head?_cons, Option.elim_some, if_neg hi, after_occurrence]
    rw [ih hstop (n + 1) fuel (Nat.lt_of_succ_lt_succ hfuel) (findImpl_eq ht hrest),
      List.length_cons]
    push_cast
    rw [add_assoc, add_comm 1]

lemma replaceLoop_eq (ht : t ≠ []) (r : List Char) (h : Greedy t s stop start found)
    (hle : start ≤ s.length) {fuel : ℕ} (hfuel : found.length < fuel) (result : List Char) :
    replaceLoop s t r stop fuel start result =
      some (result ++ replaced s r t.length start found) := by
  obtain ⟨fuel, rfl⟩ := Nat.exists_eq_add_one.mpr (Nat.zero_lt_of_lt hfuel)
  have hfind := findImpl_eq ht h
  induction h generalizing fuel result with
  | none =>
    have hlen : (_ : ℤ) ≤ stringLength s := Int.ofNat_le.mpr hle
    rw [replaceLoop, if_pos hlen, hfind, if_pos (.inl rfl), stringRange_length]
    rfl
  | @next start i rest _ hi hstop _ hrest ih =>
    obtain ⟨fuel, rfl⟩ := Nat.exists_eq_add_one.mpr (Nat.zero_lt_of_lt (Nat.lt_of_succ_lt_succ hfuel))
    have hgoes : ¬ ((i : ℤ) = -1 ∨ (i : ℤ) > (stop : ℤ) - stringLength t) := by
      rw [stringLength]
      omega
    have hlen : (start : ℤ) ≤ stringLength s := Int.ofNat_le.mpr hle
    rw [replaceLoop, if_pos hlen, hfind]
    simp only [List.head?_cons, Option.elim_some, if_neg hgoes, after_occurrence]
    rw [ih (hi.le_length ht) _ fuel (Nat.lt_of_succ_lt_succ hfuel) (findImpl_eq ht hrest),
      stringRange_nat, replaced]
    simp only [List.append_assoc]

end Loops

/-! ### Main result -/

/-- -1 stands for the end of the string. -/
def stopOf (s : List Char) (endIndex : ℤ) : ℕ :=
  if endIndex = -1 then s.length else endIndex.toNat

/-- The three agree with the occurrences of `t` from `start` on and before the end. -/
def SubstringsMeet (s t r : List Char) (start : ℕ) (endIndex : ℤ) : Prop :=
  ∃ found, Greedy t s (stopOf s endIndex) start found ∧
    findImpl s t start endIndex = found.head?.elim (-1) ((↑) : ℕ → ℤ) ∧
    (∃ fuel, countImpl fuel s t start endIndex = some (.integer found.length)) ∧
    ∃ fuel, replaceAllImpl fuel s t r start endIndex =
      some (s.take start ++ replaced s r t.length start found)

section Main

variable {s t r : List Char} {start : ℕ} {endIndex : ℤ}

lemma findImpl_stopOf (s t : List Char) (start : ℕ) (hend : endIndex = -1 ∨ 0 ≤ endIndex) :
    findImpl s t start endIndex = findImpl s t start (stopOf s endIndex) := by
  rw [stopOf]
  split
  · rename_i heq
    subst heq
    rw [findImpl_nat]
    rfl
  · rename_i hne
    rw [Int.toNat_of_nonneg (hend.resolve_left hne)]

lemma countImpl_stopOf (fuel : ℕ) (s t : List Char) (start : ℕ)
    (hend : endIndex = -1 ∨ 0 ≤ endIndex) :
    countImpl fuel s t start endIndex = countLoop s t (stopOf s endIndex) fuel start 0 := by
  rw [countImpl, stopOf]
  split
  · rfl
  · rename_i hne
    rw [Int.toNat_of_nonneg (hend.resolve_left hne)]

/-- Past the end the loop does not run, and the procedure returns nothing. -/
lemma countLoop_past (stop : ℕ) (hlt : stop < start) (fuel : ℕ) (n m : ℤ) :
    countLoop s t stop fuel start n ≠ some (.integer m) := by
  cases fuel with
  | zero => simp [countLoop]
  | succ fuel =>
    rw [countLoop, if_neg (by omega)]
    simp

lemma stringRange_start (s : List Char) (start : ℕ) :
    stringRange s 0 ((start : ℤ) - 1) = s.take start := by
  have htake := stringRange_nat s 0 start
  rwa [List.drop_zero, Nat.sub_zero] at htake

/-- An end of -1 leaves no room for a replacement. -/
lemma replaceAllImpl_end (ht : t ≠ []) (r : List Char) (fuel : ℕ) :
    replaceAllImpl (fuel + 1) s t r start (-1) = some s := by
  rw [replaceAllImpl, replaceLoop, stringRange_start]
  by_cases hle : start ≤ s.length
  · have hlen : (start : ℤ) ≤ stringLength s := Int.ofNat_le.mpr hle
    have hstops : findImpl s t start (-1) > -1 - stringLength t := by
      have hfind := neg_one_le_findImpl s t start (-1)
      have hpos := List.length_pos_of_ne_nil ht
      rw [stringLength]
      omega
    rw [if_pos hlen, if_pos (.inr hstops), stringRange_length, List.take_append_drop]
  · have hlen : ¬ (start : ℤ) ≤ stringLength s := fun h => hle (Int.ofNat_le.mp h)
    rw [if_neg hlen, List.take_of_length_le (by omega)]

lemma replaceAllImpl_nat {stop : ℕ} {found : List ℕ} (ht : t ≠ []) (r : List Char)
    (h : Greedy t s stop start found) : replaceAllImpl (found.length + 1) s t r start stop =
      some (s.take start ++ replaced s r t.length start found) := by
  rw [replaceAllImpl, stringRange_start]
  by_cases hle : start ≤ s.length
  · exact replaceLoop_eq ht r h hle (Nat.lt_succ_self _) _
  · have hlen : ¬ (start : ℤ) ≤ stringLength s := fun h => hle (Int.ofNat_le.mp h)
    have hnil : found = [] := by
      cases h with
      | none => rfl
      | next hle' hi _ _ _ =>
        have hlength := hi.le_length ht
        omega
    rw [replaceLoop, if_neg hlen, hnil, replaced, List.drop_of_length_le (by omega),
      List.append_nil]

lemma replaces_nothing_iff {found : List ℕ} (ht : t ≠ []) (r : List Char)
    (h : Greedy t s s.length start found) :
    s.take start ++ replaced s r t.length start found = s ↔
      (∀ i ≥ start, ¬ Occurs t s i) ∨ r = t := by
  have hparts := List.take_append_drop start s
  rw [← h.eq_nil_iff ht, ← h.replaced_eq_iff r]
  constructor
  · intro hsame
    exact List.append_cancel_left (hsame.trans hparts.symm)
  · intro hrest
    rw [hrest, hparts]

/-- Only the first of the occurrences is replaced. -/
theorem replaceImpl_eq {found : List ℕ} (ht : t ≠ []) (r : List Char)
    (h : Greedy t s s.length start found) : replaceImpl s t r start =
      found.head?.elim s fun i => s.take i ++ r ++ s.drop (i + t.length) := by
  have hfind : findImpl s t start (-1) = found.head?.elim (-1) ((↑) : ℕ → ℤ) :=
    (findImpl_stopOf s t start (.inl rfl)).trans (findImpl_eq ht h)
  rw [replaceImpl, hfind]
  cases found with
  | nil => rfl
  | cons i rest =>
    have hi : (i : ℤ) ≠ -1 := by omega
    have hstop : (i : ℤ) + stringLength t = ((i + t.length : ℕ) : ℤ) := rfl
    simp only [List.head?_cons, Option.elim_some, if_neg hi, hstop, stringRange_start]
    rw [stringLength, stringRange_nat, List.take_of_length_le List.length_drop.le]

end Main

end Turbine.Strings.Substrings
