import Mathlib

/-! What is handed in and what is handed out again, each piece at most once. -/

namespace Turbine.Library

variable {α : Type}

/-- Those that are out are different ones of those that came in. -/
def Settles (outs ins : List α) : Prop :=
  ∃ places : List ℕ, places.Nodup ∧ List.Forall₂ (fun i a => ins[i]? = some a) places outs

lemma settles_of_le {outs ins : List α} (h : (outs : Multiset α) ≤ ins) : Settles outs ins := by
  obtain ⟨l, hperm, hsub⟩ : outs.Subperm ins := Multiset.coe_le.mp h
  obtain ⟨f, hf⟩ := List.sublist_iff_exists_orderEmbedding_getElem?_eq.mp hsub
  have hplaces : List.Forall₂ (fun i a => ins[i]? = some a) ((List.range l.length).map f) l := by
    refine List.forall₂_iff_get.mpr ⟨by simp, ?_⟩
    intro i hi hl
    simp [← hf, hl]
  have hcomp : Relation.Comp (List.Forall₂ fun i a => ins[i]? = some a) List.Perm
      ((List.range l.length).map f) outs := ⟨l, hplaces, hperm⟩
  rw [List.forall₂_comp_perm_eq_perm_comp_forall₂] at hcomp
  obtain ⟨places, hplacesPerm, hforall⟩ := hcomp
  exact ⟨places, hplacesPerm.nodup_iff.mp (List.nodup_range.map f.injective), hforall⟩

end Turbine.Library
