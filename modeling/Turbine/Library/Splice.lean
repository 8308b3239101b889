import Mathlib.Tactic.Common
import Mathlib.Data.List.Basic

/-! Overwriting a part of a list in place. -/

namespace Turbine.Library

variable {α : Type}

/-- The list with `new` written over it from position `pos` on. -/
def splice (old : List α) (pos : ℕ) (new : List α) : List α :=
  old.take pos ++ new ++ old.drop (pos + new.length)

variable {old new : List α} {pos i : ℕ}

@[simp] lemma length_splice (h : pos + new.length ≤ old.length) :
    (splice old pos new).length = old.length := by
  simp [splice]
  omega

lemma splice_zero : splice old 0 new = new ++ old.drop new.length := by
  simp [splice]

lemma splice_splice_zero (a b : List α) :
    splice (splice old 0 a) a.length b = splice old 0 (a ++ b) := by
  simp [splice, List.drop_append, List.drop_drop]

lemma getElem?_splice_self {a : α} (h : pos < old.length) :
    (splice old pos [a])[pos]? = some a := by
  have hpos : (old.take pos).length = pos := by
    rw [List.length_take]
    omega
  rw [splice, List.append_assoc, List.getElem?_append_right (by omega), hpos]
  simp

end Turbine.Library
