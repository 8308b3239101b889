import Mathlib.Data.List.Forall2
import Mathlib.Data.Multiset.ZeroCons

/-! `List.mapM` in `Option`, element by element. -/

namespace Turbine.Library

variable {α β γ : Type}

lemma mapM_eq_some_iff {f : α → Option β} {l : List α} {l' : List β} :
    l.mapM f = some l' ↔ List.Forall₂ (fun a b => f a = some b) l l' := by
  induction l generalizing l' with
  | nil => simp [eq_comm]
  | cons a l ih =>
    rw [List.mapM_cons, List.forall₂_cons_left_iff]
    simp only [← ih]
    cases hfa : f a with
    | none => simp
    | some b => cases l.mapM f <;> simp [eq_comm]

lemma length_eq_of_mapM {f : α → Option β} {l : List α} {l' : List β} (h : l.mapM f = some l') :
    l'.length = l.length :=
  (mapM_eq_some_iff.mp h).length_eq.symm

lemma mapM_bind_mapM (f : α → Option β) (g : β → Option γ) (l : List α) :
    (l.mapM f).bind (fun bs => bs.mapM g) = l.mapM fun a => (f a).bind g := by
  induction l with
  | nil => simp
  | cons a l ih =>
    simp only [List.mapM_cons, ← ih]
    cases f a with
    | none => simp
    | some b =>
      cases l.mapM f with
      | none => cases g b <;> simp
      | some bs => simp

lemma mapM_bind_mapM_length {δ : Type} (f : α → Option β) (g : β → Option γ)
    (h : ℕ → List γ → δ) (l : List α) :
    ((l.mapM f).bind fun bs => (bs.mapM g).bind fun cs => some (h bs.length cs)) =
      (l.mapM fun a => (f a).bind g).map (h l.length) := by
  rw [← mapM_bind_mapM]
  cases hbs : l.mapM f with
  | none => rfl
  | some bs =>
    rw [← length_eq_of_mapM hbs]
    simp only [Option.bind_some]
    cases bs.mapM g <;> rfl

lemma mapM_cons_flatten (f : α → Option (List β)) (a : α) (l : List α) :
    ((a :: l).mapM f).map List.flatten =
      (f a).bind fun b => ((l.mapM f).map List.flatten).map (b ++ ·) := by
  rw [List.mapM_cons]
  cases f a <;> cases l.mapM f <;> simp

section Forall₂

variable {R : α → β → Prop} {l : List α} {l' : List β}

/-- Of elements that correspond, a second relation says no more than a predicate of the first. -/
lemma forall₂_iff_forall_mem {S : α → β → Prop} {P : α → Prop} (h : List.Forall₂ R l l')
    (hS : ∀ a b, R a b → (S a b ↔ P a)) : List.Forall₂ S l l' ↔ ∀ a ∈ l, P a := by
  induction h with
  | nil => simp
  | cons hab _ ih => rw [List.forall₂_cons, List.forall_mem_cons, hS _ _ hab, ih]

lemma exists_of_forall₂ (h : List.Forall₂ R l l') {b : β} (hb : b ∈ l') : ∃ a ∈ l, R a b := by
  induction h with
  | nil => simp at hb
  | @cons a b' l l' hab _ ih =>
    rcases List.mem_cons.mp hb with rfl | hb
    · exact ⟨a, List.mem_cons_self .., hab⟩
    · obtain ⟨a', ha', hR⟩ := ih hb
      exact ⟨a', List.mem_cons_of_mem _ ha', hR⟩

lemma forall₂_and {S : α → β → Prop} (h : List.Forall₂ R l l') (h' : List.Forall₂ S l l') :
    List.Forall₂ (fun a b => R a b ∧ S a b) l l' :=
  List.forall₂_iff_zip.mpr ⟨h.length_eq, fun hmem =>
    ⟨List.forall₂_zip h hmem, List.forall₂_zip h' hmem⟩⟩

lemma exists_forall₂ {l : List α} (h : ∀ a ∈ l, ∃ b, R a b) : ∃ l', List.Forall₂ R l l' := by
  induction l with
  | nil => exact ⟨[], List.Forall₂.nil⟩
  | cons a l ih =>
    obtain ⟨b, hb⟩ := h a (List.mem_cons_self ..)
    obtain ⟨l', hl'⟩ := ih fun a' ha' => h a' (List.mem_cons_of_mem _ ha')
    exact ⟨b :: l', List.Forall₂.cons hb hl'⟩

lemma map_eq_of_forall₂ {g : α → γ} {h : β → γ} (hl : List.Forall₂ R l l')
    (hg : ∀ a b, R a b → g a = h b) : l.map g = l'.map h := by
  induction hl with
  | nil => rfl
  | cons hab _ ih => rw [List.map_cons, List.map_cons, hg _ _ hab, ih]

lemma forall₂_of_common {S : γ → β → Prop} {cs : List γ} (h : List.Forall₂ R l l')
    (h' : List.Forall₂ S cs l') : List.Forall₂ (fun a c => ∃ b, R a b ∧ S c b) l cs := by
  induction h generalizing cs with
  | nil =>
    cases h'
    exact List.Forall₂.nil
  | cons hab _ ih =>
    obtain ⟨c, cs, hcb, hcs, rfl⟩ := List.forall₂_cons_right_iff.mp h'
    exact List.Forall₂.cons ⟨_, hab, hcb⟩ (ih hcs)

lemma rel_of_forall₂ (h : List.Forall₂ R l l') : Multiset.Rel R l l' := by
  induction h with
  | nil => exact Multiset.Rel.zero
  | cons hab _ ih => exact Multiset.Rel.cons hab ih

end Forall₂

end Turbine.Library
