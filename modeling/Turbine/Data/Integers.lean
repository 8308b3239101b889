import Turbine.Library.Commands
import Turbine.Library.Radix

/-! Integers that are stored from their text, and what the text means to Tcl. -/

namespace Turbine.Data.Integers

open Turbine.Library Radix

abbrev Text := List Char

inductive Ty
  | integer
  | string
  deriving DecidableEq

inductive Datum
  | integer (n : ℤ)
  | string (s : Text)
  deriving DecidableEq

def Datum.type : Datum → Ty
  | .integer _ => .integer
  | .string _ => .string

/-- The Tcl value that is made of a datum. -/
def Datum.text : Datum → Text
  | .integer n => Radix.text n
  | .string s => s

structure State where
  server : ℕ → Option Datum
  readRefs : ℕ → ℤ
  cache : ℕ → Option Datum

inductive Stop
  | badValue (value : Text)
  | doubleWrite (id : ℕ)
  | unset (id : ℕ)
  | wrongType (id : ℕ)
  | user (message : String)

abbrev Script (α : Type) := Cmd State Stop α

/-! ### Integers in Tcl -/

def digitsValue (base : ℕ) (digits : Text) : Option ℕ :=
  if digits ≠ [] ∧ digits.all (isDigit base) then some (value base digits) else none

def prefixBase (c : Char) : Option ℕ :=
  if c = 'x' ∨ c = 'X' then some 16
  else if c = 'o' ∨ c = 'O' then some 8
  else if c = 'b' ∨ c = 'B' then some 2
  else none

/-- A number without its sign, which is octal behind a zero. -/
def tclNumber : Text → Option ℕ
  | '0' :: c :: digits =>
    match prefixBase c with
    | some base => digitsValue base digits
    | none => digitsValue 8 (c :: digits)
  | digits => digitsValue 10 digits

def trim (s : Text) : Text := ((s.dropWhile isSpace).reverse.dropWhile isSpace).reverse

/-- A wide integer; unsigned ones are taken for what their 64 bits mean. -/
def wide (n : ℤ) : Option ℤ := if -2 ^ 64 < n ∧ n < 2 ^ 64 then some (Int.bmod n (2 ^ 64)) else none

/-- `Tcl_GetWideIntFromObj` -/
def getWideInt (s : Text) : Option ℤ :=
  let (negative, t) := signed (trim s)
  (tclNumber t).bind fun n => wide (withSign negative n)

/-! ### Commands of the extensions -/

/-- What the extension makes of a Tcl value. -/
def encode : Ty → Text → Option Datum
  | .integer, value => (getWideInt value).map .integer
  | .string, value => some (.string value)

def adlbStore (id : ℕ) (type : Ty) (value : Text) : Script Unit := fun s =>
  match encode type value, s.server id with
  | none, _ => (.error (.badValue value), s)
  | some _, some _ => (.error (.doubleWrite id), s)
  | some d, none => (.ok (), { s with server := Function.update s.server id (some d) })

def State.drop (s : State) (id decr : ℕ) : State :=
  { s with readRefs := Function.update s.readRefs id (s.readRefs id - decr) }

def adlbRetrieveDecr (id decr : ℕ) (type : Option Ty) : Script Text := fun s =>
  match s.server id with
  | none => (.error (.unset id), s)
  | some d =>
    if type.any (· ≠ d.type) then (.error (.wrongType id), s) else (.ok d.text, s.drop id decr)

def readRefcountDecr (id decr : ℕ) : Script Unit := Cmd.modify fun s => s.drop id decr

def cacheCheck (id : ℕ) : Script Bool := fun s => (.ok (s.cache id).isSome, s)

def cacheRetrieve (id : ℕ) : Script Text := fun s =>
  match s.cache id with
  | none => (.error (.unset id), s)
  | some d => (.ok d.text, s)

def cacheStore (id : ℕ) (type : Ty) (value : Text) : Script Unit := fun s =>
  match encode type value with
  | none => (.error (.badValue value), s)
  | some d => (.ok (), { s with cache := Function.update s.cache id (some d) })

/-! ### Stores and retrieves -/

/-- `store_integer` trims the zeros that Tcl would take for a mark of octal numbers. -/
def trimmed (value : Text) : Text :=
  if value ≠ ['0'] then value.dropWhile (· = '0') else value

def storeInteger (id : ℕ) (value : Text) : Script Unit := do
  let value := trimmed value
  adlbStore id .integer value
  cacheStore id .integer value

def storeString (id : ℕ) (value : Text) : Script Unit := adlbStore id .string value

/-- `retrieve_integer` and `retrieve_string`. -/
def retrieveTyped (type : Ty) (id : ℕ) (cachemode : String) (decrref : ℕ) : Script Text := do
  let cache := cachemode = "CACHED"
  if cache ∧ (← cacheCheck id) then
    let result ← cacheRetrieve id
    if decrref ≠ 0 then readRefcountDecr id decrref
    return result
  else
    let result ← adlbRetrieveDecr id decrref (some type)
    if cache then cacheStore id type result
    return result

def retrieveInteger := retrieveTyped .integer

def retrieveString := retrieveTyped .string

/-! ### What the conversion reads -/

lemma wide_of_fits {n : ℤ} (h : Fits64 n) : wide n = some n := by
  obtain ⟨hlow, hhigh⟩ := h
  rw [wide, if_pos ⟨by omega, by omega⟩, Int.bmod_eq_of_le (by omega) (by omega)]

lemma trim_eq_self {s : Text} (h : ∀ c ∈ s, isSpace c = false) : trim s = s := by
  rw [trim, dropWhile_eq_self fun c hc => h c (List.mem_of_mem_head? hc), dropWhile_eq_self,
    List.reverse_reverse]
  exact fun c hc => h c (List.mem_reverse.mp (List.mem_of_mem_head? hc))

lemma digitsValue_eq {base : ℕ} {digits : Text} (hne : digits ≠ [])
    (h : ∀ c ∈ digits, isDigit base c = true) :
    digitsValue base digits = some (value base digits) :=
  if_pos ⟨hne, List.all_eq_true.mpr h⟩

lemma prefixBase_of_digit {c : Char} (h : isDigit 10 c = true) : prefixBase c = none := by
  have hne : ∀ d : Char, isDigit 10 d = false → c ≠ d := by
    rintro d hd rfl
    rw [h] at hd
    exact Bool.noConfusion hd
  rw [prefixBase, if_neg, if_neg, if_neg]
  · exact not_or.mpr ⟨hne 'b' (by decide), hne 'B' (by decide)⟩
  · exact not_or.mpr ⟨hne 'o' (by decide), hne 'O' (by decide)⟩
  · exact not_or.mpr ⟨hne 'x' (by decide), hne 'X' (by decide)⟩

/-- Digits are octal if there is a zero in front of others. -/
lemma tclNumber_cases {digits : Text} (hne : digits ≠ []) (h : ∀ c ∈ digits, isDigit 10 c = true) :
    (digits.head? ≠ some '0' ∨ digits = ['0']) ∧ tclNumber digits = some (value 10 digits) ∨
      ∃ c rest, digits = '0' :: c :: rest ∧ tclNumber digits = digitsValue 8 (c :: rest) := by
  unfold tclNumber
  split
  · next c rest =>
    simp only [prefixBase_of_digit (h c (by simp))]
    exact .inr ⟨c, rest, rfl, rfl⟩
  · next hother =>
    refine .inl ⟨?_, digitsValue_eq hne h⟩
    rcases digits with - | ⟨c, - | ⟨d, rest⟩⟩
    · exact absurd rfl hne
    · by_cases hc : c = '0'
      · exact .inr (by rw [hc])
      · exact .inl (by simpa using hc)
    · refine .inl fun hc => ?_
      rw [List.head?_cons, Option.some_inj] at hc
      exact hother d rest (by rw [hc])

lemma value_zero_cons (base : ℕ) (digits : Text) :
    value base ('0' :: digits) = value base digits := by
  rw [value_cons, digitValue_eq_zero_iff.mpr rfl, zero_mul, zero_add]

/-- The digits without their leading zeros. -/
def significant (digits : Text) : Text := digits.dropWhile (· = '0')

lemma head_significant (digits : Text) : (significant digits).head? ≠ some '0' := by
  intro h
  have hnot := List.head?_dropWhile_not (fun c : Char => decide (c = '0')) digits
  rw [significant] at h
  rw [h] at hnot
  exact absurd hnot (by decide)

/-- The digits mean the same to Tcl as they do in the decimal system. -/
def MeansDecimal (digits : Text) : Prop :=
  digits.head? ≠ some '0' ∨ ((significant digits).length ≤ 1 ∧ ∀ c ∈ digits, isDigit 8 c = true)

lemma tclNumber_eq_iff {digits : Text} (hne : digits ≠ [])
    (h : ∀ c ∈ digits, isDigit 10 c = true) :
    tclNumber digits = some (value 10 digits) ↔ MeansDecimal digits := by
  rcases tclNumber_cases hne h with ⟨hdecimal, hnumber⟩ | ⟨c, rest, rfl, hnumber⟩
  · rw [hnumber, eq_self, true_iff]
    rcases hdecimal with hhead | rfl
    · exact .inl hhead
    · exact .inr ⟨by simp [significant], by simp [isDigit, Radix.digitValue]⟩
  · have hsignificant : significant ('0' :: c :: rest) = significant (c :: rest) := rfl
    rw [hnumber, value_zero_cons, MeansDecimal, hsignificant, List.head?_cons, ne_eq, eq_self,
      not_true_eq_false, false_or]
    by_cases hoctal : ∀ d ∈ c :: rest, isDigit 8 d = true
    · have hall : ∀ d ∈ '0' :: c :: rest, isDigit 8 d = true :=
        List.forall_mem_cons.mpr ⟨by decide, hoctal⟩
      rw [digitsValue_eq (List.cons_ne_nil _ _) hoctal, Option.some_inj,
        value_eq_value_iff (by omega)]
      exact (and_iff_left hall).symm
    · rw [digitsValue, if_neg (by simpa using hoctal)]
      simp only [reduceCtorEq, false_iff, not_and]
      exact fun _ hall => hoctal (List.forall_mem_cons.mp hall).2

/-- Read as octal, digits are never more than they are in the decimal system. -/
lemma tclNumber_le {digits : Text} (hne : digits ≠ []) (h : ∀ c ∈ digits, isDigit 10 c = true)
    {n : ℕ} (hn : tclNumber digits = some n) : n ≤ value 10 digits := by
  rcases tclNumber_cases hne h with ⟨-, hnumber⟩ | ⟨c, rest, rfl, hnumber⟩
  · exact (Option.some.inj (hnumber.symm.trans hn)).ge
  · rw [hnumber, digitsValue] at hn
    split_ifs at hn
    rw [value_zero_cons, ← Option.some.inj hn]
    exact value_mono (by omega) _

lemma fits_of_le {negative : Bool} {m n : ℕ} (hle : m ≤ n) (h : Fits64 (withSign negative n)) :
    Fits64 (withSign negative m) := by
  obtain ⟨hlow, hhigh⟩ := h
  cases negative <;> simp only [withSign, Bool.false_eq_true, if_true, if_false] at * <;>
    exact ⟨by omega, by omega⟩

/-- The integer that a text with a sign or without denotes. -/
def decimalOf (s : Text) : Option ℤ :=
  let (negative, digits) := signed s
  if digits ≠ [] ∧ digits.all (isDigit 10) then some (withSign negative (value 10 digits)) else none

lemma decimalOf_eq_some {s : Text} {n : ℤ} (h : decimalOf s = some n) :
    (signed s).2 ≠ [] ∧ (∀ c ∈ (signed s).2, isDigit 10 c = true) ∧
      withSign (signed s).1 (value 10 (signed s).2) = n := by
  simp only [decimalOf] at h
  split_ifs at h with hdigits
  exact ⟨hdigits.1, List.all_eq_true.mp hdigits.2, Option.some.inj h⟩

lemma isSpace_of_decimal {s : Text} {n : ℤ} (h : decimalOf s = some n) :
    ∀ c ∈ s, isSpace c = false := by
  obtain ⟨-, hdigits, -⟩ := decimalOf_eq_some h
  obtain ⟨sign, hsplit, hsign, -⟩ := signed_split s
  intro c hc
  rw [hsplit] at hc
  rcases List.mem_append.mp hc with hc | hc
  · rcases hsign with rfl | rfl | rfl
    · simp at hc
    · rw [List.mem_singleton.mp hc]
      rfl
    · rw [List.mem_singleton.mp hc]
      rfl
  · exact (isDigit_ne (by omega) (hdigits c hc)).1

lemma getWideInt_eq_iff {s : Text} {n : ℤ} (h : decimalOf s = some n) (hfits : Fits64 n) :
    getWideInt s = some n ↔ MeansDecimal (signed s).2 := by
  obtain ⟨hne, hdigits, rfl⟩ := decimalOf_eq_some h
  rw [← tclNumber_eq_iff hne hdigits, getWideInt, trim_eq_self (isSpace_of_decimal h)]
  simp only
  cases hm : tclNumber (signed s).2 with
  | none => simp
  | some m =>
    have hm' := fits_of_le (tclNumber_le hne hdigits hm) hfits
    rw [Option.bind_some, wide_of_fits hm', Option.some_inj, Option.some_inj, withSign_inj]

/-! ### What is stored -/

section Commands

variable {s : State} {id : ℕ}

lemma adlbStore_apply {type : Ty} {value : Text} {d : Datum} (hd : encode type value = some d)
    (hs : s.server id = none) :
    adlbStore id type value s =
      (.ok (), { s with server := Function.update s.server id (some d) }) := by
  simp only [adlbStore, hd, hs]

lemma cacheStore_apply {type : Ty} {value : Text} {d : Datum} (hd : encode type value = some d) :
    cacheStore id type value s =
      (.ok (), { s with cache := Function.update s.cache id (some d) }) := by
  simp only [cacheStore, hd]

lemma storeInteger_apply {value : Text} {n : ℤ} (hn : getWideInt (trimmed value) = some n)
    (hs : s.server id = none) :
    storeInteger id value s = (.ok (), { s with
      server := Function.update s.server id (some (.integer n))
      cache := Function.update s.cache id (some (.integer n)) }) := by
  have hencode : encode .integer (trimmed value) = some (.integer n) := by rw [encode, hn]; rfl
  rw [storeInteger, Cmd.bind_of_ok (adlbStore_apply hencode hs), cacheStore_apply hencode]

/-- What is stored is what the conversion makes of the trimmed text. -/
lemma getWideInt_of_storeInteger {value : Text} {n : ℤ} {t : State} {r : Except Stop Unit}
    (hs : s.server id = none) (h : storeInteger id value s = (r, t))
    (hn : t.server id = some (.integer n)) : getWideInt (trimmed value) = some n := by
  cases hm : getWideInt (trimmed value) with
  | none =>
    have hencode : encode .integer (trimmed value) = none := by rw [encode, hm]; rfl
    have hstore : adlbStore id .integer (trimmed value) s = (.error (.badValue (trimmed value)), s) := by
      simp only [adlbStore, hencode]
    rw [storeInteger, Cmd.bind_of_error hstore, Prod.mk.injEq] at h
    rw [← h.2, hs] at hn
    exact absurd hn (by simp)
  | some m =>
    rw [storeInteger_apply hm hs, Prod.mk.injEq] at h
    rw [← h.2] at hn
    simp only [Function.update_self, Option.some_inj, Datum.integer.injEq] at hn
    rw [hn]

/-- The retrieve returns the same from the cache and from the server, and then fills the cache. -/
lemma retrieveTyped_text {d : Datum} {type : Ty} (htype : d.type = type)
    (hencode : encode type d.text = some d) (hserver : s.server id = some d)
    (hcache : s.cache id = some d ∨ s.cache id = none) (cachemode : String) (decrref : ℕ) :
    ∃ t, retrieveTyped type id cachemode decrref s = (.ok d.text, t) ∧ t.server = s.server := by
  have hretrieve : adlbRetrieveDecr id decrref (some type) s = (.ok d.text, s.drop id decrref) := by
    simp [adlbRetrieveDecr, hserver, htype]
  have hcheck : cacheCheck id s = (.ok (s.cache id).isSome, s) := rfl
  by_cases hmode : cachemode = "CACHED"
  · rcases hcache with hhit | hmiss
    · have hfetch : cacheRetrieve id s = (.ok d.text, s) := by simp only [cacheRetrieve, hhit]
      by_cases hdecr : decrref = 0
      · refine ⟨s, ?_, rfl⟩
        simp [retrieveTyped, Cmd.bind_apply, hcheck, hmode, hhit, hfetch, hdecr]
      · refine ⟨s.drop id decrref, ?_, rfl⟩
        simp [retrieveTyped, Cmd.bind_apply, hcheck, hmode, hhit, hfetch, hdecr, readRefcountDecr,
          Cmd.map_apply, Except.map]
    · refine ⟨{ s.drop id decrref with cache := Function.update s.cache id (some d) }, ?_, rfl⟩
      simp only [retrieveTyped, hmode, true_and, Cmd.bind_apply, hcheck, hmiss, Option.isSome_none,
        Bool.false_eq_true, if_false, if_true, hretrieve, cacheStore_apply hencode, Cmd.pure_apply]
      rfl
  · refine ⟨s.drop id decrref, ?_, rfl⟩
    simp only [retrieveTyped, hmode, false_and, Cmd.bind_apply, hcheck, if_false, hretrieve,
      Cmd.pure_apply]

end Commands

lemma head_toDigits {n : ℕ} (h : n ≠ 0) : (Nat.toDigits 10 n).head? ≠ some '0' := by
  induction n using Nat.strong_induction_on with
  | h n ih =>
    by_cases hlt : n < 10
    · rw [Nat.toDigits_of_lt_base hlt]
      interval_cases n <;> first | exact absurd rfl h | decide
    · rw [Nat.toDigits_of_base_le (by omega) (not_lt.mp hlt), List.head?_append_of_ne_nil]
      · exact ih (n / 10) (by omega) (by omega)
      · exact Nat.toDigits_ne_nil

lemma decimalOf_text (n : ℤ) : decimalOf (text n) = some n := by
  have hall : (Nat.toDigits 10 n.natAbs).all (isDigit 10) = true :=
    List.all_eq_true.mpr fun c hc => (mem_toDigits hc).2.1
  simp only [decimalOf, signed_text]
  rw [if_pos ⟨Nat.toDigits_ne_nil, hall⟩, value_toDigits, withSign_natAbs]

lemma getWideInt_text {n : ℤ} (h : Fits64 n) : getWideInt (text n) = some n := by
  rw [getWideInt_eq_iff (decimalOf_text n) h, signed_text]
  by_cases hn : n = 0
  · exact .inr ⟨by simp [hn, significant], by simp [hn, isDigit, Radix.digitValue]⟩
  · exact .inl (head_toDigits (by omega))

/-! ### Main result -/

/-- The text is stored as the number: in the server and in the cache, and every later retrieve
returns it, whether the cache still has it or not. -/
def StoredAs (value : Text) (n : ℤ) : Prop :=
  ∀ (s : State) (id : ℕ), s.server id = none → ∃ t, storeInteger id value s = (.ok (), t) ∧
    t.server id = some (.integer n) ∧ t.cache id = some (.integer n) ∧
    ∀ (u : State) cachemode decrref, u.server id = t.server id →
      (u.cache id = t.cache id ∨ u.cache id = none) →
      ∃ v, retrieveInteger id cachemode decrref u = (.ok (text n), v)

lemma storedAs_iff {value : Text} {n : ℤ} (hfits : Fits64 n) :
    StoredAs value n ↔ getWideInt (trimmed value) = some n := by
  constructor
  · intro h
    obtain ⟨t, hstore, hserver, -⟩ := h ⟨fun _ => none, fun _ => 0, fun _ => none⟩ 0 rfl
    exact getWideInt_of_storeInteger rfl hstore hserver
  · intro hn s id hs
    refine ⟨_, storeInteger_apply hn hs, by simp, by simp, ?_⟩
    intro u cachemode decrref hserver hcache
    simp only [Function.update_self] at hserver hcache
    have hencode : encode .integer (Datum.integer n).text = some (.integer n) := by
      rw [encode, Datum.text, getWideInt_text hfits]
      rfl
    obtain ⟨v, hv, -⟩ :=
      retrieveTyped_text (d := .integer n) rfl hencode hserver hcache cachemode decrref
    exact ⟨v, hv⟩

/-- The text that `store_integer` trims means the same to Tcl as before: it is a zero, or no sign
keeps the zeros from being trimmed and not all digits are zeros, or the digits behind the sign mean
the same in octal as they do in the decimal system. -/
def KeepsMeaning (value : Text) : Prop :=
  value = ['0'] ∨ if (signed value).2 = value then significant value ≠ []
    else MeansDecimal (signed value).2

lemma trimmed_of_sign {value : Text} (h : (signed value).2 ≠ value) : trimmed value = value := by
  obtain ⟨sign, hsplit, hsign, -⟩ := signed_split value
  have hdrop : value.dropWhile (· = '0') = value := by
    apply dropWhile_eq_self
    rw [hsplit]
    rcases hsign with rfl | rfl | rfl
    · exact absurd hsplit.symm h
    · simp
    · simp
  rw [trimmed, hdrop, ite_self]

lemma signed_of_decimal {s : Text} (h : ∀ c ∈ s, isDigit 10 c = true) : signed s = (false, s) :=
  signed_of_digits fun c hc => (isDigit_ne (by omega) (h c (List.mem_of_mem_head? hc))).2

/-- Trimmed digits that are not all zeros are read as the same number. -/
lemma getWideInt_significant {value : Text} {n : ℤ} (h : decimalOf value = some n)
    (hfits : Fits64 n) (hunsigned : (signed value).2 = value) (hne : significant value ≠ []) :
    getWideInt (significant value) = some n := by
  obtain ⟨-, hdigits, hn⟩ := decimalOf_eq_some h
  rw [hunsigned] at hdigits hn
  rw [signed_of_decimal hdigits] at hn
  have hsub : ∀ c ∈ significant value, isDigit 10 c = true := fun c hc =>
    hdigits c ((List.dropWhile_suffix _).subset hc)
  have hdecimal : decimalOf (significant value) = some n := by
    simp only [decimalOf, signed_of_decimal hsub]
    rw [if_pos ⟨hne, List.all_eq_true.mpr hsub⟩, significant, value_dropWhile_zero, hn]
  rw [getWideInt_eq_iff hdecimal hfits, signed_of_decimal hsub]
  exact .inl (head_significant value)

theorem store_integer_keeps_iff {value : Text} {n : ℤ} (h : decimalOf value = some n)
    (hfits : Fits64 n) : StoredAs value n ↔ KeepsMeaning value := by
  rw [storedAs_iff hfits, KeepsMeaning]
  by_cases hzero : value = ['0']
  · subst hzero
    have htrimmed : trimmed ['0'] = ['0'] := by decide
    rw [htrimmed, getWideInt_eq_iff h hfits]
    simp only [true_or, iff_true]
    exact .inr ⟨by simp [signed, significant], by simp [signed, isDigit, Radix.digitValue]⟩
  rw [or_iff_right hzero]
  split_ifs with hunsigned
  · have htrimmed : trimmed value = significant value := if_pos hzero
    rw [htrimmed]
    by_cases hne : significant value = []
    · have hnone : getWideInt [] = none := by decide
      rw [hne, hnone]
      simp
    · exact iff_of_true (getWideInt_significant h hfits hunsigned hne) hne
  · rw [trimmed_of_sign hunsigned, getWideInt_eq_iff h hfits]

theorem store_integer_keeps_iff_zeros : StoredAs ['0', '0', '9'] 9 :=
  (store_integer_keeps_iff (by decide) (by decide)).mpr
    (.inr (by simp [signed, significant]))

/-- Nothing is left of zeros, and behind a sign a zero makes the number octal. -/
theorem not_store_integer_keeps :
    (decimalOf ['0', '0'] = some 0 ∧ ¬ StoredAs ['0', '0'] 0) ∧
      (decimalOf ['-', '0', '1', '0'] = some (-10) ∧ ¬ StoredAs ['-', '0', '1', '0'] (-10)) := by
  refine ⟨⟨by decide, ?_⟩, ⟨by decide, ?_⟩⟩
  · rw [storedAs_iff (by decide)]
    decide
  · rw [storedAs_iff (by decide)]
    decide

end Turbine.Data.Integers
