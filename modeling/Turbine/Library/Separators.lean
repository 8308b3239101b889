import Mathlib

/-! Fields joined by a separator, and how far the separator can be told from the result. -/

namespace Turbine.Library.Separators

variable {α : Type}

lemma length_intercalate (a b : List α) (fields : List (List α)) :
    (a.intercalate fields).length + (fields.length - 1) * b.length =
      (b.intercalate fields).length + (fields.length - 1) * a.length := by
  induction fields with
  | nil => simp
  | cons f rest ih =>
    cases rest with
    | nil => simp
    | cons g rest =>
      simp only [List.intercalate_cons_cons, List.length_append, List.length_cons,
        Nat.add_sub_cancel] at ih ⊢
      rw [Nat.succ_mul, Nat.succ_mul]
      omega

/-- Two separators give the same text only if they are the same or there is nothing to separate. -/
theorem intercalate_eq_iff (a b : List α) (fields : List (List α)) :
    a.intercalate fields = b.intercalate fields ↔ fields.length ≤ 1 ∨ a = b := by
  constructor
  · intro heq
    rcases fields with - | ⟨f, - | ⟨g, rest⟩⟩
    · exact .inl (Nat.zero_le 1)
    · exact .inl le_rfl
    · have hlength := length_intercalate a b (f :: g :: rest)
      rw [heq] at hlength
      have hab : b.length = a.length :=
        Nat.eq_of_mul_eq_mul_left (Nat.succ_pos _) (Nat.add_left_cancel hlength)
      rw [List.intercalate_cons_cons, List.intercalate_cons_cons, List.append_assoc,
        List.append_assoc] at heq
      exact .inr (List.append_inj_left (List.append_cancel_left heq) hab.symm)
  · rintro (hle | rfl)
    · rcases fields with - | ⟨f, - | ⟨g, rest⟩⟩
      · rfl
      · simp
      · simp at hle
    · rfl

lemma length_splitOn_le_one_iff [BEq α] [LawfulBEq α] (d : α) (s : List α) :
    (s.splitOn d).length ≤ 1 ↔ d ∉ s := by
  constructor
  · intro hle hmem
    obtain ⟨before, after, rfl, -⟩ := List.append_of_mem hmem
    rw [List.splitOn_append_cons_self, List.length_append] at hle
    have hbefore := List.length_pos_of_ne_nil (List.splitOn_ne_nil d before)
    have hafter := List.length_pos_of_ne_nil (List.splitOn_ne_nil d after)
    omega
  · intro hmem
    rw [List.splitOn_eq_singleton hmem]
    exact le_rfl

end Turbine.Library.Separators
