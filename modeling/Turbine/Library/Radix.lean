import Mathlib

/-! Numbers written in the digits of a base, and how `strtol` reads them. -/

namespace Turbine.Library.Radix

/-! ### Digits -/

/-- The value of a digit or letter, and 36 for other characters. -/
def digitValue (c : Char) : ℕ :=
  if '0' ≤ c ∧ c ≤ '9' then c.toNat - 48
  else if 'a' ≤ c ∧ c ≤ 'z' then c.toNat - 87
  else if 'A' ≤ c ∧ c ≤ 'Z' then c.toNat - 55
  else 36

def isDigit (base : ℕ) (c : Char) : Bool := digitValue c < base

def value (base : ℕ) (digits : List Char) : ℕ :=
  digits.foldl (fun n c => base * n + digitValue c) 0

lemma char_le_iff {c d : Char} : c ≤ d ↔ c.toNat ≤ d.toNat := UInt32.le_iff_toNat_le

lemma digitValue_eq_zero_iff {c : Char} : digitValue c = 0 ↔ c = '0' := by
  constructor
  · intro h
    have h0 : '0'.toNat = 48 := rfl
    have ha : 'a'.toNat = 97 := rfl
    have hA : 'A'.toNat = 65 := rfl
    simp only [digitValue, char_le_iff] at h
    apply Char.toNat_inj.mp
    split_ifs at h <;> omega
  · rintro rfl
    decide

lemma foldl_eq (base n : ℕ) (digits : List Char) :
    digits.foldl (fun n c => base * n + digitValue c) n =
      n * base ^ digits.length + value base digits := by
  induction digits generalizing n with
  | nil => simp [value]
  | cons c digits ih =>
    rw [value, List.foldl_cons, List.foldl_cons, ih, ih (base * 0 + digitValue c), List.length_cons,
      pow_succ]
    ring

lemma value_cons (base : ℕ) (c : Char) (digits : List Char) :
    value base (c :: digits) = digitValue c * base ^ digits.length + value base digits := by
  rw [value, List.foldl_cons, foldl_eq, mul_zero, zero_add]

@[simp] lemma value_nil (base : ℕ) : value base [] = 0 := rfl

lemma value_dropWhile_zero (base : ℕ) (digits : List Char) :
    value base (digits.dropWhile (· = '0')) = value base digits := by
  induction digits with
  | nil => rfl
  | cons c digits ih =>
    by_cases hc : c = '0'
    · rw [List.dropWhile_cons_of_pos (by simpa using hc), ih, value_cons,
        digitValue_eq_zero_iff.mpr hc, zero_mul, zero_add]
    · rw [List.dropWhile_cons_of_neg (by simpa using hc)]

lemma value_mono {a b : ℕ} (h : a ≤ b) (digits : List Char) : value a digits ≤ value b digits := by
  induction digits with
  | nil => simp
  | cons c digits ih =>
    rw [value_cons, value_cons]
    have hpow := Nat.pow_le_pow_left h digits.length
    exact Nat.add_le_add (Nat.mul_le_mul_left _ hpow) ih

/-- Digits mean the same in two bases if there are not two of them behind the leading zeros. -/
lemma value_eq_value_iff {a b : ℕ} (h : a < b) (digits : List Char) :
    value a digits = value b digits ↔ (digits.dropWhile (· = '0')).length ≤ 1 := by
  rw [← value_dropWhile_zero a, ← value_dropWhile_zero b]
  cases hdigits : digits.dropWhile (· = '0') with
  | nil => simp
  | cons c rest =>
    have hc : c ≠ '0' := by
      have hne : digits.dropWhile (· = '0') ≠ [] := by simp [hdigits]
      have hhead := List.head_dropWhile_not (· = '0') hne
      simpa [hdigits] using hhead
    have hpos : 0 < digitValue c := Nat.pos_of_ne_zero fun h0 => hc (digitValue_eq_zero_iff.mp h0)
    rw [value_cons, value_cons, List.length_cons]
    have hrest := value_mono h.le rest
    cases rest with
    | nil => simp
    | cons d rest =>
      have hpow : a ^ (d :: rest).length < b ^ (d :: rest).length :=
        Nat.pow_lt_pow_left h (by simp)
      have hmul := Nat.mul_lt_mul_of_pos_left hpow hpos
      simp only [List.length_cons] at hmul ⊢
      omega

/-! ### Signs and decimal text -/

/-- Whether a text has a minus sign in front, and the text behind the sign. -/
def signed : List Char → Bool × List Char
  | '-' :: s => (true, s)
  | '+' :: s => (false, s)
  | s => (false, s)

def withSign (negative : Bool) (n : ℕ) : ℤ := if negative then -(n : ℤ) else n

lemma withSign_inj {negative : Bool} {m n : ℕ} : withSign negative m = withSign negative n ↔ m = n := by
  cases negative <;> simp [withSign]

/-- The decimal text of a number. -/
def text (n : ℤ) : List Char :=
  if n < 0 then '-' :: Nat.toDigits 10 n.natAbs else Nat.toDigits 10 n.natAbs

lemma mem_toDigits {n : ℕ} {c : Char} (h : c ∈ Nat.toDigits 10 n) :
    digitValue c = c.toNat - 48 ∧ isDigit 10 c = true ∧ c ≠ '-' ∧ c ≠ '+' := by
  have hdigit := Nat.isDigit_of_mem_toDigits (by omega) (by omega) h
  simp only [Char.isDigit, ge_iff_le, Bool.and_eq_true, decide_eq_true_eq] at hdigit
  have hvalue : digitValue c = c.toNat - 48 := if_pos hdigit
  have hle : c.toNat ≤ 57 := UInt32.le_iff_toNat_le.mp hdigit.2
  refine ⟨hvalue, ?_, ?_, ?_⟩
  · rw [isDigit, hvalue, decide_eq_true_eq]
    omega
  · rintro rfl
    exact absurd hdigit.1 (by decide)
  · rintro rfl
    exact absurd hdigit.1 (by decide)

lemma value_toDigits (n : ℕ) : value 10 (Nat.toDigits 10 n) = n := by
  have hfold : ∀ l : List Char, (∀ c ∈ l, digitValue c = c.toNat - 48) → ∀ m,
      l.foldl (fun n c => 10 * n + digitValue c) m = Nat.ofDigitChars 10 l m := by
    intro l hl
    induction l with
    | nil => exact fun m => rfl
    | cons c l ih =>
      intro m
      rw [List.foldl_cons, Nat.ofDigitChars_cons, ih (fun c hc => hl c (List.mem_cons_of_mem _ hc)),
        hl c List.mem_cons_self]
      rfl
  rw [value, hfold _ (fun c hc => (mem_toDigits hc).1), Nat.ofDigitChars_ten_toDigits]

lemma signed_of_digits {s : List Char} (h : ∀ c ∈ s.head?, c ≠ '-' ∧ c ≠ '+') :
    signed s = (false, s) := by
  cases s with
  | nil => rfl
  | cons c s =>
    obtain ⟨hminus, hplus⟩ := h c rfl
    unfold signed
    split <;> simp_all

lemma signed_toDigits (n : ℕ) : signed (Nat.toDigits 10 n) = (false, Nat.toDigits 10 n) := by
  apply signed_of_digits
  intro c hc
  have hmem := mem_toDigits (List.mem_of_mem_head? hc)
  exact hmem.2.2

lemma signed_text (n : ℤ) : signed (text n) = (decide (n < 0), Nat.toDigits 10 n.natAbs) := by
  unfold text
  split_ifs with hneg
  · rw [signed, decide_eq_true hneg]
  · rw [signed_toDigits, decide_eq_false hneg]

lemma withSign_natAbs (n : ℤ) : withSign (decide (n < 0)) n.natAbs = n := by
  by_cases hneg : n < 0
  · rw [withSign, decide_eq_true hneg, if_pos rfl]
    omega
  · rw [withSign, decide_eq_false hneg, if_neg (by decide)]
    omega

/-! ### Reading numbers -/

/-- `isspace` -/
def isSpace (c : Char) : Bool :=
  c = ' ' || c = '\t' || c = '\n' || c = '\x0b' || c = '\x0c' || c = '\r'

/-- The text behind `0x`, which is a prefix only in front of a digit. -/
def behindPrefix (base : ℕ) : List Char → List Char
  | '0' :: x :: c :: s =>
    if base = 16 ∧ (x = 'x' ∨ x = 'X') ∧ isDigit 16 c then c :: s else '0' :: x :: c :: s
  | s => s

def Fits64 (n : ℤ) : Prop := -2 ^ 63 ≤ n ∧ n < 2 ^ 63

instance (n : ℤ) : Decidable (Fits64 n) := inferInstanceAs (Decidable (_ ∧ _))

inductive Errno
  | einval
  | erange
  deriving DecidableEq

/-- What `strtol` returns, the error it leaves, and the text behind the number. -/
structure Strtol where
  val : ℤ
  errno : Option Errno
  rest : List Char

/-- `LONG_MIN` or `LONG_MAX` -/
def outermost (negative : Bool) : ℤ := if negative then -2 ^ 63 else 2 ^ 63 - 1

/-- Reads the digits in front of `t`, the text behind the sign and the prefix of `s`. -/
def convert (s : List Char) (base : ℕ) (negative : Bool) (t : List Char) : Strtol :=
  let digits := t.takeWhile (isDigit base)
  let rest := t.dropWhile (isDigit base)
  if digits = [] then ⟨0, none, s⟩
  else
    let n := withSign negative (value base digits)
    if Fits64 n then ⟨n, none, rest⟩ else ⟨outermost negative, some .erange, rest⟩

def strtol (s : List Char) (base : ℕ) : Strtol :=
  if base < 2 ∨ 36 < base then ⟨0, some .einval, s⟩
  else
    let (negative, t) := signed (s.dropWhile isSpace)
    convert s base negative (behindPrefix base t)

lemma convert_of_digits {s t digits rest : List Char} {base : ℕ} {negative : Bool}
    (hdigits : t.takeWhile (isDigit base) = digits) (hrest : t.dropWhile (isDigit base) = rest)
    (hne : digits ≠ []) :
    convert s base negative t = if Fits64 (withSign negative (value base digits))
      then ⟨withSign negative (value base digits), none, rest⟩
      else ⟨outermost negative, some .erange, rest⟩ := by
  subst hdigits hrest
  exact if_neg hne

/-! ### What is read as a number -/

/-- The parts of a text that is read as a number, from the left to the right. -/
structure Parts where
  blanks : List Char
  sign : List Char
  zeroX : List Char
  digits : List Char
  trailing : List Char

def Parts.text (p : Parts) : List Char :=
  p.blanks ++ (p.sign ++ (p.zeroX ++ (p.digits ++ p.trailing)))

def Parts.negative (p : Parts) : Bool := p.sign = ['-']

def Parts.denotes (p : Parts) (base : ℕ) : ℤ := withSign p.negative (value base p.digits)

/-- The parts are what they are called; anything may stand behind the digits. -/
structure Parts.WellFormed (p : Parts) (base : ℕ) : Prop where
  blanks : ∀ c ∈ p.blanks, isSpace c = true
  sign : p.sign = [] ∨ p.sign = ['+'] ∨ p.sign = ['-']
  zeroX : p.zeroX = [] ∨ base = 16 ∧ (p.zeroX = ['0', 'x'] ∨ p.zeroX = ['0', 'X'])
  nonempty : p.digits ≠ []
  digits : ∀ c ∈ p.digits, isDigit base c = true

lemma isDigit_ne {base : ℕ} (hbase : base ≤ 36) {c : Char} (h : isDigit base c = true) :
    isSpace c = false ∧ c ≠ '-' ∧ c ≠ '+' := by
  have hvalue : digitValue c ≠ 36 := by
    have hlt : digitValue c < base := of_decide_eq_true h
    omega
  refine ⟨?_, ?_, ?_⟩
  · by_contra hspace
    rw [Bool.not_eq_false] at hspace
    simp only [isSpace, Bool.or_eq_true, decide_eq_true_eq] at hspace
    rcases hspace with ((((rfl | rfl) | rfl) | rfl) | rfl) | rfl <;> exact hvalue (by decide)
  · rintro rfl
    exact hvalue (by decide)
  · rintro rfl
    exact hvalue (by decide)

lemma signed_split (s : List Char) : ∃ sign, s = sign ++ (signed s).2 ∧
    (sign = [] ∨ sign = ['+'] ∨ sign = ['-']) ∧ (signed s).1 = decide (sign = ['-']) := by
  unfold signed
  split
  · exact ⟨['-'], rfl, by simp, rfl⟩
  · exact ⟨['+'], rfl, by simp, rfl⟩
  · exact ⟨[], rfl, by simp, rfl⟩

lemma behindPrefix_split (base : ℕ) (s : List Char) : ∃ zeroX, s = zeroX ++ behindPrefix base s ∧
    (zeroX = [] ∨ base = 16 ∧ (zeroX = ['0', 'x'] ∨ zeroX = ['0', 'X'])) := by
  unfold behindPrefix
  split
  · next x c s =>
    split_ifs with h
    · obtain ⟨hbase, hx, -⟩ := h
      exact ⟨['0', x], rfl, .inr ⟨hbase, by rcases hx with rfl | rfl <;> simp⟩⟩
    · exact ⟨[], rfl, .inl rfl⟩
  · exact ⟨[], rfl, .inl rfl⟩

/-- `strtol` finds no digits, or it reads what stands in front of `rest`. -/
lemma strtol_cases {base : ℕ} (hbase : 2 ≤ base ∧ base ≤ 36) (s : List Char) :
    strtol s base = ⟨0, none, s⟩ ∨ ∃ p : Parts, p.WellFormed base ∧ p.text = s ∧
      strtol s base = if Fits64 (p.denotes base) then ⟨p.denotes base, none, p.trailing⟩
        else ⟨outermost p.negative, some .erange, p.trailing⟩ := by
  have hvalid : ¬ (base < 2 ∨ 36 < base) := by omega
  obtain ⟨sign, hsign, hsigns, hnegative⟩ := signed_split (s.dropWhile isSpace)
  obtain ⟨zeroX, hzero, hzeros⟩ := behindPrefix_split base (signed (s.dropWhile isSpace)).2
  rw [strtol, if_neg hvalid]
  dsimp only
  generalize hbehind : behindPrefix base (signed (s.dropWhile isSpace)).2 = t at hzero
  by_cases hdigits : t.takeWhile (isDigit base) = []
  · exact .inl (if_pos hdigits)
  · refine .inr ⟨⟨s.takeWhile isSpace, sign, zeroX, t.takeWhile (isDigit base),
      t.dropWhile (isDigit base)⟩, ⟨?_, hsigns, hzeros, hdigits, ?_⟩, ?_, ?_⟩
    · exact fun c hc => List.mem_takeWhile_imp hc
    · exact fun c hc => List.mem_takeWhile_imp hc
    · rw [Parts.text]
      simp only
      rw [List.takeWhile_append_dropWhile, ← hzero, ← hsign, List.takeWhile_append_dropWhile]
    · rw [convert_of_digits rfl rfl hdigits, hnegative]
      rfl

lemma dropWhile_eq_self {p : Char → Bool} {s : List Char} (h : ∀ c ∈ s.head?, p c = false) :
    s.dropWhile p = s := by
  cases s with
  | nil => rfl
  | cons c s => rw [List.dropWhile_cons_of_neg (by simp [h c rfl])]

/-- Behind digits there is no prefix, even when the first digit is a zero. -/
lemma behindPrefix_digits {base : ℕ} {digits trailing : List Char}
    (hdigits : ∀ c ∈ digits, isDigit base c = true)
    (htrailing : ∀ c ∈ trailing, isDigit base c = false ∧ c ≠ 'x' ∧ c ≠ 'X') :
    behindPrefix base (digits ++ trailing) = digits ++ trailing := by
  unfold behindPrefix
  split
  · next x c s heq =>
    refine (if_neg ?_).trans heq.symm
    rintro ⟨rfl, hx, -⟩
    have hmem : x ∈ digits ++ trailing := by simp [heq]
    rcases List.mem_append.mp hmem with hmem | hmem
    · have hdigit := hdigits x hmem
      rcases hx with rfl | rfl <;> exact absurd hdigit (by decide)
    · exact hx.elim (htrailing x hmem).2.1 (htrailing x hmem).2.2
  · rfl

lemma Parts.WellFormed.strtol_text {p : Parts} {base : ℕ} (h : p.WellFormed base)
    (hbase : 2 ≤ base ∧ base ≤ 36)
    (htrailing : ∀ c ∈ p.trailing, isDigit base c = false ∧ c ≠ 'x' ∧ c ≠ 'X') :
    strtol p.text base = if Fits64 (p.denotes base) then ⟨p.denotes base, none, p.trailing⟩
      else ⟨outermost p.negative, some .erange, p.trailing⟩ := by
  obtain ⟨blanks, sign, zeroX, digits, trailing⟩ := p
  obtain ⟨hblanks, hsign, hzero, hne, hdigits⟩ := h
  simp only at hblanks hsign hzero hne hdigits htrailing
  obtain ⟨d, ds, rfl⟩ := List.exists_cons_of_ne_nil hne
  have hd := isDigit_ne hbase.2 (hdigits d List.mem_cons_self)
  have hrest : ∀ c ∈ (zeroX ++ (d :: ds ++ trailing)).head?, isSpace c = false ∧ c ≠ '-' ∧ c ≠ '+' := by
    rcases hzero with rfl | ⟨-, rfl | rfl⟩
    · simpa using hd
    · simp [isSpace]
    · simp [isSpace]
  have hblank : (blanks ++ (sign ++ (zeroX ++ (d :: ds ++ trailing)))).dropWhile isSpace =
      sign ++ (zeroX ++ (d :: ds ++ trailing)) := by
    rw [List.dropWhile_append_of_pos hblanks]
    apply dropWhile_eq_self
    rcases hsign with rfl | rfl | rfl
    · exact fun c hc => (hrest c hc).1
    · simp [isSpace]
    · simp [isSpace]
  have hsigned : signed (sign ++ (zeroX ++ (d :: ds ++ trailing))) =
      (decide (sign = ['-']), zeroX ++ (d :: ds ++ trailing)) := by
    rcases hsign with rfl | rfl | rfl
    · exact signed_of_digits fun c hc => (hrest c hc).2
    · rfl
    · rfl
  have hbehind : behindPrefix base (zeroX ++ (d :: ds ++ trailing)) = d :: ds ++ trailing := by
    have hhex := hdigits d List.mem_cons_self
    rcases hzero with rfl | ⟨rfl, rfl | rfl⟩
    · simpa using behindPrefix_digits hdigits htrailing
    · exact if_pos ⟨rfl, .inl rfl, hhex⟩
    · exact if_pos ⟨rfl, .inr rfl, hhex⟩
  have htake : (d :: ds ++ trailing).takeWhile (isDigit base) = d :: ds := by
    rw [List.takeWhile_append_of_pos hdigits]
    cases trailing with
    | nil => simp
    | cons c trailing => simp [(htrailing c List.mem_cons_self).1]
  have hdrop : (d :: ds ++ trailing).dropWhile (isDigit base) = trailing := by
    rw [List.dropWhile_append_of_pos hdigits]
    exact dropWhile_eq_self fun c hc => (htrailing c (List.mem_of_mem_head? hc)).1
  have hvalid : ¬ (base < 2 ∨ 36 < base) := by omega
  rw [strtol, Parts.text, if_neg hvalid]
  simp only
  rw [hblank, hsigned]
  simp only
  rw [hbehind, convert_of_digits htake hdrop (List.cons_ne_nil d ds)]
  rfl

end Turbine.Library.Radix
