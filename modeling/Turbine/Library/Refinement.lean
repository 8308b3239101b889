import Turbine.Library.Commands

/-! Commands and systems that do what an abstract one allows: a relation says what a concrete state
shows, and every step that succeeds is a step of what is shown. -/

namespace Turbine.Library

namespace Cmd

variable {S A E α β : Type} {Rel : S → A → Prop} {c : Cmd S E α} {R : A → α → A → Prop}

/-- If the command ends, it has done what `R` allows. -/
def Refines (Rel : S → A → Prop) (c : Cmd S E α) (R : A → α → A → Prop) : Prop :=
  ∀ s a x t, Rel s a → c s = (.ok x, t) → ∃ b, R a x b ∧ Rel t b

lemma refines_pure (x : α) : Refines Rel (pure x : Cmd S E α) fun a y b => y = x ∧ b = a := by
  intro s a y t hrel hrun
  cases hrun
  exact ⟨a, ⟨rfl, rfl⟩, hrel⟩

lemma Refines.bind {k : α → Cmd S E β} {T : α → A → β → A → Prop} (hc : Refines Rel c R)
    (hk : ∀ x, Refines Rel (k x) (T x)) :
    Refines Rel (c >>= k) fun a y b => ∃ x m, R a x m ∧ T x m y b := by
  intro s a y t hrel hrun
  obtain ⟨x, u, hx, hy⟩ := bind_eq_ok.mp hrun
  obtain ⟨m, hm, hrelm⟩ := hc s a x u hrel hx
  obtain ⟨b, hb, hrelb⟩ := hk x u m y t hrelm hy
  exact ⟨b, ⟨x, m, hm, hb⟩, hrelb⟩

/-- What a command reads decides what the next one is to do. -/
lemma Refines.read {k : α → Cmd S E β} {P : A → α → Prop} {T : α → A → β → A → Prop}
    (hc : Refines Rel c fun a x b => P a x ∧ b = a) (hk : ∀ x, Refines Rel (k x) (T x)) :
    Refines Rel (c >>= k) fun a y b => ∃ x, P a x ∧ T x a y b := by
  intro s a y t hrel hrun
  obtain ⟨b, ⟨x, m, ⟨hp, rfl⟩, ht⟩, hrelb⟩ := hc.bind hk s a y t hrel hrun
  exact ⟨b, ⟨x, hp, ht⟩, hrelb⟩

lemma Refines.mono {R' : A → α → A → Prop} (hc : Refines Rel c R)
    (h : ∀ a x b, R a x b → R' a x b) : Refines Rel c R' := by
  intro s a x t hrel hrun
  obtain ⟨b, hb, hrelb⟩ := hc s a x t hrel hrun
  exact ⟨b, h a x b hb, hrelb⟩

end Cmd

variable {S A : Type} {Rel : S → A → Prop} {Step : S → S → Prop} {Allowed : A → A → Prop}

/-- What every step of a system shows, its runs show. -/
theorem run_simulates
    (hstep : ∀ s s' a, Rel s a → Step s s' →
      ∃ b, Relation.ReflTransGen Allowed a b ∧ Rel s' b)
    {s s' : S} {a : A} (hrel : Rel s a) (hrun : Relation.ReflTransGen Step s s') :
    ∃ b, Relation.ReflTransGen Allowed a b ∧ Rel s' b := by
  induction hrun with
  | refl => exact ⟨a, .refl, hrel⟩
  | tail _ hlast ih =>
    obtain ⟨m, hm, hrelm⟩ := ih
    obtain ⟨b, hb, hrelb⟩ := hstep _ _ m hrelm hlast
    exact ⟨b, hm.trans hb, hrelb⟩

end Turbine.Library
