import Mathlib
import Turbine.Library.CStrings
import Turbine.Library.Numerals

/-! Formatted output of the C library: what a format and its arguments print, and the stores of a
sequence of prints, each where the one before it ended. -/

namespace Turbine.Library.Printf

open CStrings

inductive Arg
  | str (s : List UInt8)
  | int (n : ℤ)
  | ptr (p : ℕ)

inductive Piece
  | lit (c : UInt8)
  | str
  | strPrecision
  | int
  | ptr

/-- A conversion behind its percent sign; the letters are `s`, `.*s`, `i`, `d`, `li`, `ld`, `zu`,
`zi`, `p` and the percent sign itself. -/
def conversion : List UInt8 → Option (Piece × List UInt8)
  | 115 :: fmt => some (.str, fmt)
  | 46 :: 42 :: 115 :: fmt => some (.strPrecision, fmt)
  | 105 :: fmt | 100 :: fmt => some (.int, fmt)
  | 108 :: 105 :: fmt | 108 :: 100 :: fmt => some (.int, fmt)
  | 122 :: 117 :: fmt | 122 :: 105 :: fmt => some (.int, fmt)
  | 112 :: fmt => some (.ptr, fmt)
  | 37 :: fmt => some (.lit 37, fmt)
  | _ => none

/-- The pieces of a format, with its length as fuel. -/
def piecesFrom : ℕ → List UInt8 → Option (List Piece)
  | _, [] => some []
  | 0, _ => none
  | fuel + 1, c :: fmt =>
    if c = 37 then
      (conversion fmt).bind fun p => (piecesFrom fuel p.2).map (p.1 :: ·)
    else (piecesFrom fuel fmt).map (.lit c :: ·)

def pieces (fmt : List UInt8) : Option (List Piece) := piecesFrom fmt.length fmt

def showPtr (p : ℕ) : List UInt8 :=
  if p = 0 then [40, 110, 105, 108, 41]
  else 48 :: 120 :: (Nat.toDigits 16 p).map fun c => UInt8.ofNat c.toNat

/-- What is printed; none if an argument is missing or of another type. -/
def print : List Piece → List Arg → Option (List UInt8)
  | [], _ => some []
  | .lit c :: ps, args => (print ps args).map (c :: ·)
  | .str :: ps, .str s :: args => (print ps args).map (text s ++ ·)
  | .strPrecision :: ps, .int n :: .str s :: args =>
    (print ps args).map ((if n < 0 then text s else (text s).take n.toNat) ++ ·)
  | .int :: ps, .int n :: args => (print ps args).map (decimal n ++ ·)
  | .ptr :: ps, .ptr p :: args => (print ps args).map (showPtr p ++ ·)
  | _, _ => none

def vsprintf (fmt : List UInt8) (args : List Arg) : Option (List UInt8) :=
  (pieces (text fmt)).bind fun ps => print ps args

/-- `p += sprintf (p, ..)` for each of the texts. -/
def sprintfs : ℕ → List (List UInt8) → List Store
  | _, [] => []
  | pos, b :: bs => placed pos (b ++ [0]) ++ sprintfs (pos + b.length) bs

/-- All of the texts and one terminator have to fit. -/
lemma inBounds_sprintfs {size : ℕ} {bs : List (List UInt8)} (h : bs ≠ []) (pos : ℕ) :
    InBounds size (sprintfs pos bs) ↔ pos + bs.flatten.length + 1 ≤ size := by
  induction bs generalizing pos with
  | nil => exact (h rfl).elim
  | cons b bs ih =>
    rw [sprintfs, inBounds_append, inBounds_placed]
    cases bs with
    | nil => simp [sprintfs, InBounds]; omega
    | cons b' bs =>
      rw [ih (List.cons_ne_nil _ _)]
      simp
      omega

lemma written_sprintfs {bs : List (List UInt8)} (h : bs ≠ []) (mem : ℕ → UInt8) (pos : ℕ) :
    written mem (sprintfs pos bs) = written mem (placed pos (bs.flatten ++ [0])) := by
  induction bs generalizing pos mem with
  | nil => exact (h rfl).elim
  | cons b bs ih =>
    cases bs with
    | nil => simp [sprintfs]
    | cons b' bs =>
      rw [sprintfs, written_append, ih (List.cons_ne_nil _ _)]
      funext i
      have hflat : (b :: b' :: bs).flatten ++ [0] = b ++ ((b' :: bs).flatten ++ [0]) := by simp
      rw [hflat]
      generalize hrest : (b' :: bs).flatten ++ [0] = rest
      have hne : rest ≠ [] := by simp [← hrest]
      simp only [written_placed]
      rcases lt_or_ge i (pos + b.length) with hi | hi
      · rcases lt_or_ge i pos with hp | hp
        · simp [hp.not_ge, hi.not_ge]
        · simp [hp, hi.not_ge, List.getElem?_append_left, show i - pos < b.length by omega]
      · have hp : pos ≤ i := by omega
        obtain ⟨k, rfl⟩ : ∃ k, i = pos + b.length + k := ⟨i - (pos + b.length), by omega⟩
        have hk : pos + b.length + k - pos = b.length + k := by omega
        rw [if_pos hi, if_pos hp, if_pos hp, hk, Nat.add_sub_cancel_left,
          List.getElem?_append_right (Nat.le_add_right _ _),
          List.getElem?_append_right (Nat.le_add_right _ _), Nat.add_sub_cancel_left]
        cases k with
        | zero =>
          obtain ⟨x, rest, rfl⟩ := List.exists_cons_of_ne_nil hne
          simp
        | succ k => simp

lemma sprintfs_leaves {bs : List (List UInt8)} (h : bs ≠ []) :
    Leaves (sprintfs 0 bs) bs.flatten := by
  refine leaves_of_bytes List.prefix_rfl ?_
  intro mem i hi
  rw [written_sprintfs h, written_placed, if_pos (Nat.zero_le i), Nat.sub_zero,
    List.getElem?_eq_getElem hi]
  rfl

/-- The length of what is printed. -/
def printedLength : List Piece → List Arg → Option ℕ
  | [], _ => some 0
  | .lit _ :: ps, args => (printedLength ps args).map (1 + ·)
  | .str :: ps, .str s :: args => (printedLength ps args).map ((text s).length + ·)
  | .strPrecision :: ps, .int n :: .str s :: args =>
    (printedLength ps args).map
      ((if n < 0 then (text s).length else min n.toNat (text s).length) + ·)
  | .int :: ps, .int n :: args => (printedLength ps args).map ((decimal n).length + ·)
  | .ptr :: ps, .ptr p :: args => (printedLength ps args).map ((showPtr p).length + ·)
  | _, _ => none

lemma print_length (ps : List Piece) (args : List Arg) :
    (print ps args).map List.length = printedLength ps args := by
  fun_induction print ps args with
  | case1 => rfl
  | case2 c ps args ih =>
    rw [printedLength, ← ih]
    cases print ps args <;> simp [Nat.add_comm]
  | case3 ps s args ih =>
    rw [printedLength, ← ih]
    cases print ps args <;> simp
  | case4 ps n s args ih =>
    rw [printedLength, ← ih]
    cases print ps args with
    | none => rfl
    | some out => split <;> simp
  | case5 ps n args ih =>
    rw [printedLength, ← ih]
    cases print ps args <;> simp
  | case6 ps p args ih =>
    rw [printedLength, ← ih]
    cases print ps args <;> simp
  | case7 ps args =>
    simp [printedLength]

lemma printedLength_lits (cs : List UInt8) (ps : List Piece) (args : List Arg) :
    printedLength (cs.map Piece.lit ++ ps) args =
      (printedLength ps args).map (cs.length + ·) := by
  induction cs with
  | nil => simp
  | cons c cs ih =>
    rw [List.map_cons, List.cons_append, printedLength, ih, Option.map_map]
    congr 1
    funext n
    simp only [Function.comp_apply, List.length_cons]
    omega

end Turbine.Library.Printf
