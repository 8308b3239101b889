import Mathlib.Data.Nat.Digits.Defs
import Mathlib.Tactic.Common
import Mathlib.Tactic.Ring

/-! Numbers as bytes: decimal and hexadecimal text, words of a fixed size with the low byte first,
and integers of variable length with seven bits in a byte. -/

namespace Turbine.Library

section Text

def digitChar (d : ℕ) : UInt8 := UInt8.ofNat (48 + d)

/-- The decimal form of a number. -/
def decimal (n : ℤ) : List UInt8 :=
  (if n < 0 then [45] else []) ++
    if n = 0 then [48] else (Nat.digits 10 n.natAbs).reverse.map digitChar

def digitValue (c : UInt8) : Option ℕ :=
  if 48 ≤ c ∧ c ≤ 57 then some (c.toNat - 48)
  else if 97 ≤ c ∧ c ≤ 102 then some (c.toNat - 87)
  else if 65 ≤ c ∧ c ≤ 70 then some (c.toNat - 55)
  else none

def parseDigit (base n : ℕ) (c : UInt8) : Option ℕ :=
  (digitValue c).bind fun d => if d < base then some (base * n + d) else none

def parseNat (base : ℕ) (s : List UInt8) : Option ℕ :=
  if s = [] then none else s.foldlM (parseDigit base) 0

/-- Decimal digits, or hexadecimal ones behind `0x`. -/
def parseUnsigned : List UInt8 → Option ℕ
  | 48 :: 120 :: s => parseNat 16 s
  | s => parseNat 10 s

def parseInt : List UInt8 → Option ℤ
  | 45 :: s => (parseUnsigned s).map fun n => -Int.ofNat n
  | s => (parseUnsigned s).map Int.ofNat

lemma parseDigit_decimal {d : ℕ} (hd : d < 10) (n : ℕ) :
    parseDigit 10 n (digitChar d) = some (10 * n + d) := by
  have hvalue : ∀ d < 10, digitValue (digitChar d) = some d := by decide
  simp [parseDigit, hvalue d hd, hd]

lemma foldlM_parseDigit (digits : List ℕ) (h : ∀ d ∈ digits, d < 10) :
    (digits.reverse.map digitChar).foldlM (parseDigit 10) 0 =
      some (Nat.ofDigits 10 digits) := by
  induction digits with
  | nil => rfl
  | cons d digits ih =>
    rw [List.forall_mem_cons] at h
    rw [List.reverse_cons, List.map_append, List.foldlM_append, ih h.2]
    simp [parseDigit_decimal h.1, Nat.ofDigits_cons, Nat.add_comm]

lemma decimal_eq (n : ℤ) : ∃ digits : List ℕ, digits ≠ [] ∧ (∀ d ∈ digits, d < 10) ∧
    Nat.ofDigits 10 digits = n.natAbs ∧
    decimal n = (if n < 0 then [45] else []) ++
      digits.reverse.map digitChar := by
  by_cases h : n = 0
  · exact ⟨[0], by simp, by simp, by simp [h], by
      rw [h]
      rfl⟩
  · refine ⟨Nat.digits 10 n.natAbs, ?_, ?_, Nat.ofDigits_digits 10 _, by simp [decimal, h]⟩
    · simpa [Nat.digits_ne_nil_iff_ne_zero] using h
    · exact fun d hd => Nat.digits_lt_base (by norm_num) hd

lemma digit_ne {d : ℕ} (hd : d < 10) :
    digitChar d ≠ 45 ∧ digitChar d ≠ 46 ∧ digitChar d ≠ 120 := by
  have hdigits : ∀ d < 10, digitChar d ≠ 45 ∧ digitChar d ≠ 46 ∧ digitChar d ≠ 120 := by decide
  exact hdigits d hd

lemma parseUnsigned_digits {digits : List ℕ} (hne : digits ≠ []) (h : ∀ d ∈ digits, d < 10) :
    parseUnsigned (digits.reverse.map digitChar) =
      some (Nat.ofDigits 10 digits) := by
  unfold parseUnsigned
  split
  · next s heq =>
    have hmem : (120 : UInt8) ∈ digits.reverse.map digitChar := by
      rw [heq]
      simp
    obtain ⟨d, hd, h120⟩ := List.mem_map.mp hmem
    exact absurd h120 (digit_ne (h d (List.mem_reverse.mp hd))).2.2
  · rw [parseNat, if_neg (by simpa using hne), foldlM_parseDigit digits h]

lemma parseInt_decimal (n : ℤ) : parseInt (decimal n) = some n := by
  obtain ⟨digits, hne, hlt, hval, heq⟩ := decimal_eq n
  rw [heq]
  split_ifs with hneg
  · simp only [parseInt, List.singleton_append, parseUnsigned_digits hne hlt, Option.map_some, hval]
    rw [Int.ofNat_eq_natCast, Int.ofNat_natAbs_of_nonpos hneg.le, neg_neg]
  · rw [List.nil_append, parseInt.eq_def]
    split
    · next s hs =>
      have hmem : (45 : UInt8) ∈ digits.reverse.map digitChar := by
        rw [hs]
        simp
      obtain ⟨d, hd, h45⟩ := List.mem_map.mp hmem
      exact absurd h45 (digit_ne (hlt d (List.mem_reverse.mp hd))).1
    · rw [parseUnsigned_digits hne hlt, hval, Option.map_some, Int.ofNat_eq_natCast,
        Int.natAbs_of_nonneg (not_lt.mp hneg)]

lemma dot_notMem_decimal (n : ℤ) : (46 : UInt8) ∉ decimal n := by
  obtain ⟨digits, -, hlt, -, heq⟩ := decimal_eq n
  rw [heq, List.mem_append, not_or]
  refine ⟨by split <;> simp, fun hmem => ?_⟩
  obtain ⟨d, hd, h46⟩ := List.mem_map.mp hmem
  exact (digit_ne (hlt d (List.mem_reverse.mp hd))).2.1 h46

lemma parseInt_dot {s : List UInt8} (h : (46 : UInt8) ∈ s) : parseInt s = none := by
  have hfold (base n : ℕ) (s : List UInt8) (h : (46 : UInt8) ∈ s) :
      s.foldlM (parseDigit base) n = none := by
    induction s generalizing n with
    | nil => simp at h
    | cons c s ih =>
      rcases List.mem_cons.mp h with rfl | h
      · have hdot : parseDigit base n 46 = none := rfl
        simp [hdot]
      · cases hc : parseDigit base n c <;> simp [hc, ih _ h]
  have hnat (base : ℕ) (s : List UInt8) (h : (46 : UInt8) ∈ s) : parseNat base s = none := by
    rw [parseNat, hfold base 0 s h, ite_self]
  have hunsigned (s : List UInt8) (h : (46 : UInt8) ∈ s) : parseUnsigned s = none := by
    unfold parseUnsigned
    split
    · exact hnat _ _ (by simpa using h)
    · exact hnat _ _ h
  unfold parseInt
  split
  · rw [hunsigned _ (by simpa using h), Option.map_none]
  · rw [hunsigned _ h, Option.map_none]

end Text

section Words

/-- The low `w` bytes of a number. -/
def leBytes : ℕ → ℕ → List UInt8
  | 0, _ => []
  | w + 1, n => UInt8.ofNat (n % 256) :: leBytes w (n / 256)

def leNat : List UInt8 → ℕ
  | [] => 0
  | b :: bs => b.toNat + 256 * leNat bs

@[simp] lemma length_leBytes (w n : ℕ) : (leBytes w n).length = w := by
  induction w generalizing n with
  | zero => rfl
  | succ w ih => simp [leBytes, ih]

lemma leNat_leBytes {w n : ℕ} (h : n < 256 ^ w) : leNat (leBytes w n) = n := by
  induction w generalizing n with
  | zero =>
    have : n = 0 := by simpa using h
    simp [leBytes, leNat, this]
  | succ w ih =>
    have hdiv : n / 256 < 256 ^ w := by
      rw [Nat.div_lt_iff_lt_mul (by norm_num)]
      rwa [pow_succ] at h
    rw [leBytes, leNat, ih hdiv, UInt8.toNat_ofNat_of_lt' (Nat.mod_lt n (by decide))]
    exact Nat.mod_add_div n 256

end Words

section Vint

def vint (n : ℕ) : List UInt8 :=
  if n < 128 then [UInt8.ofNat n] else UInt8.ofNat (n % 128 + 128) :: vint (n / 128)

/-- The number at the head of the data, and how many bytes it takes. -/
def unvint : List UInt8 → Option (ℕ × ℕ)
  | [] => none
  | b :: bs =>
    if b < 128 then some (b.toNat, 1)
    else (unvint bs).map fun r => (b.toNat - 128 + 128 * r.1, r.2 + 1)

lemma unvint_vint (n : ℕ) (rest : List UInt8) :
    unvint (vint n ++ rest) = some (n, (vint n).length) := by
  induction n using Nat.strong_induction_on with
  | _ n ih =>
  rw [vint]
  split
  · next h =>
    have hb : (UInt8.ofNat n).toNat = n := UInt8.toNat_ofNat_of_lt' (by simp [UInt8.size]; omega)
    have hlt : UInt8.ofNat n < 128 := by
      rw [UInt8.lt_iff_toNat_lt, hb]
      exact h
    simp [unvint, hlt, hb]
  · next h =>
    have hb : (UInt8.ofNat (n % 128 + 128)).toNat = n % 128 + 128 :=
      UInt8.toNat_ofNat_of_lt' (by simp [UInt8.size]; omega)
    have hge : ¬UInt8.ofNat (n % 128 + 128) < 128 := by
      rw [UInt8.lt_iff_toNat_lt, hb]
      simp
    have hval : n % 128 + 128 * (n / 128) = n := Nat.mod_add_div n 128
    rw [List.cons_append, unvint, if_neg hge, ih (n / 128) (by omega), hb]
    simp [hval]

lemma length_vint_pos (n : ℕ) : 0 < (vint n).length := by
  rw [vint]
  split <;> simp

lemma vint_of_lt {n : ℕ} (h : n < 128) : vint n = [UInt8.ofNat n] := by
  rw [vint, if_pos h]

lemma length_vint_le {n k : ℕ} (h : n < 128 ^ (k + 1)) : (vint n).length ≤ k + 1 := by
  induction k generalizing n with
  | zero =>
    rw [vint_of_lt (by simpa using h)]
    rfl
  | succ k ih =>
    rw [vint]
    split
    · simp
    · have hdiv : n / 128 < 128 ^ (k + 1) := by
        rw [Nat.div_lt_iff_lt_mul (by norm_num)]
        rwa [pow_succ] at h
      simpa using ih hdiv

end Vint

end Turbine.Library
