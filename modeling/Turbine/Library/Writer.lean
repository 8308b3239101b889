import Mathlib.Tactic.Common
import Mathlib.Data.List.Basic
import Turbine.Library.MapM

/-! Writers: programs that append a piece of data to a buffer of bounded size, or fail. -/

namespace Turbine.Library

variable {α β γ : Type}

/-- From every buffer below the limit the program `w` appends `piece`; it fails when there is no
such piece or when the result would reach the limit. -/
def Writes (limit : ℕ) (w : List β → Option (List β)) (piece : Option (List β)) : Prop :=
  ∀ out, out.length < limit → ∀ out',
    w out = some out' ↔ ∃ b, piece = some b ∧ out' = out ++ b ∧ out'.length < limit

namespace Writes

variable {limit : ℕ} {w w₁ w₂ : List β → Option (List β)} {p p₁ p₂ : Option (List β)}

lemma fail : Writes limit (fun _ : List β => none) none := by
  simp [Writes]

lemma skip : Writes limit (fun out : List β => some out) (some []) := by
  intro out hout out'
  constructor
  · rintro ⟨⟩
    exact ⟨[], rfl, by simp, hout⟩
  · rintro ⟨b, ⟨⟩, rfl, -⟩
    simp

lemma congr (h : Writes limit w₁ p) (hw : ∀ out, out.length < limit → w₂ out = w₁ out) :
    Writes limit w₂ p := by
  intro out hout out'
  rw [hw out hout]
  exact h out hout out'

lemma seq (h₁ : Writes limit w₁ p₁) (h₂ : Writes limit w₂ p₂) :
    Writes limit (fun out => (w₁ out).bind w₂) (p₁.bind fun a => p₂.map (a ++ ·)) := by
  intro out hout out'
  simp only [Option.bind_eq_some_iff, Option.map_eq_some_iff]
  constructor
  · rintro ⟨mid, hmid, hout'⟩
    obtain ⟨a, ha, rfl, hlt⟩ := (h₁ out hout mid).mp hmid
    obtain ⟨b, hb, rfl, hlt'⟩ := (h₂ _ hlt out').mp hout'
    exact ⟨a ++ b, ⟨a, ha, b, hb, rfl⟩, by simp, hlt'⟩
  · rintro ⟨_, ⟨a, ha, b, hb, rfl⟩, rfl, hlt⟩
    have hmid : (out ++ a).length < limit := by
      simp only [List.length_append] at hlt ⊢
      omega
    refine ⟨out ++ a, (h₁ out hout _).mpr ⟨a, ha, rfl, hmid⟩, (h₂ _ hmid _).mpr ⟨b, hb, ?_, hlt⟩⟩
    simp

lemma bind {w : α → List β → Option (List β)} {q : α → Option (List β)} (o : Option α)
    (h : ∀ a, o = some a → Writes limit (w a) (q a)) :
    Writes limit (fun out => o.bind fun a => w a out) (o.bind q) := by
  cases o with
  | none => exact fail
  | some a => exact h a rfl

lemma foldlM {step : List β → α → Option (List β)} {piece : α → Option (List β)} (l : List α)
    (h : ∀ a ∈ l, Writes limit (fun out => step out a) (piece a)) :
    Writes limit (fun out => l.foldlM step out) ((l.mapM piece).map List.flatten) := by
  induction l with
  | nil => simpa using skip
  | cons a l ih =>
    have hrest := ih fun a' ha' => h a' (List.mem_cons_of_mem _ ha')
    rw [mapM_cons_flatten]
    exact seq (h a (List.mem_cons_self ..)) hrest

end Writes

end Turbine.Library
