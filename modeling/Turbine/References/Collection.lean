import Turbine.References.Runs

/-! When nobody outside of the server has a reference any more, the server deletes all that is left,
whatever it begins with. -/

namespace Turbine.References

open Turbine.Library Shares

/-- The server deletes a datum that is in use no longer, and there is something in it. -/
inductive Collects : System → System → Prop
  | collect {sys : System} (id : ℕ) : (∀ mode, sys.store.counts (id, mode) = 0) →
      (∃ l ∈ sys.store.links, l.holder = id) →
      Collects sys { sys with store := sys.store.collect id }

variable {writable : ℕ → Prop} {sys sys' : System}

/-- No rule, no lookup and no reference that the program has kept. -/
structure Idle (sys : System) : Prop where
  kept : sys.kept = 0
  rules : sys.rules = 0
  waiting : sys.store.waiting = []

lemma Collects.links_lt (h : Collects sys sys') :
    sys'.store.links.length < sys.store.links.length := by
  cases h with
  | collect id _ hlink =>
    obtain ⟨l, hl, hholder⟩ := hlink
    exact List.length_filter_lt_length_iff_exists.mpr ⟨l, hl, by simp [hholder]⟩

/-- Nobody else has a reference, and stored references lead nowhere back. -/
structure Left (writable : ℕ → Prop) (rank : ℕ → ℕ) (sys : System) : Prop where
  reach : Reach writable .start sys
  idle : Idle sys
  rank_lt : ∀ l ∈ sys.store.links, rank l.holder < rank l.target

variable {rank : ℕ → ℕ}

lemma Left.collects (h : Left writable rank sys) (hstep : Collects sys sys') :
    Left writable rank sys' := by
  cases hstep with
  | collect id hid _ =>
    exact ⟨h.reach.tail (.collect id hid), ⟨h.idle.kept, h.idle.rules, h.idle.waiting⟩,
      fun l hl => h.rank_lt l (List.mem_of_mem_filter hl)⟩

/-- The holder of least rank is not pointed to. -/
lemma Left.exists_collects (h : Left writable rank sys) (hlinks : sys.store.links ≠ []) :
    ∃ sys', Collects sys sys' := by
  obtain ⟨l, hl, hmin⟩ := sys.store.links.toFinset.exists_min_image (fun l => rank l.holder)
    (List.toFinset_nonempty_iff _ |>.mpr hlinks)
  rw [List.mem_toFinset] at hl
  refine ⟨_, .collect l.holder (fun mode => ?_) ⟨l, hl, rfl⟩⟩
  have hzero := h.reach.sound.counts_eq_zero_iff (l.holder, mode)
  refine hzero.mpr ⟨?_, ?_, fun l' hl' => ?_, ?_⟩
  · rw [h.idle.kept]
    rfl
  · simp [h.idle.rules]
  · have hlt := h.rank_lt l' hl'
    have hle := hmin l' (List.mem_toFinset.mpr hl')
    have hne : ∀ m : Mode, (l.holder, mode) ≠ (l'.target, m) := by
      intro m heq
      have htarget : l.holder = l'.target := (Prod.mk.inj heq).1
      rw [htarget] at hle
      omega
    simp [Link.owns, hne]
  · simp [h.idle.waiting]

lemma Left.counts_eq_zero (h : Left writable rank sys) (hlinks : sys.store.links = []) :
    sys.store.counts = 0 := by
  have hcounts : sys.store.counts = sys.held + sys.store.stored := h.reach.sound.balanced
  rw [hcounts, System.held, State.stored, h.idle.kept, h.idle.rules, h.idle.waiting, hlinks]
  simp

lemma Left.exists_end (h : Left writable rank sys) :
    ∃ sys', Relation.ReflTransGen Collects sys sys' ∧ ¬ ∃ next, Collects sys' next := by
  induction hn : sys.store.links.length using Nat.strong_induction_on generalizing sys with
  | _ n ih =>
    by_cases hnext : ∃ next, Collects sys next
    · obtain ⟨next, hcollects⟩ := hnext
      obtain ⟨sys', hrun, hend⟩ := ih _ (hn ▸ hcollects.links_lt) (h.collects hcollects) rfl
      exact ⟨sys', .head hcollects hrun, hend⟩
    · exact ⟨sys, .refl, hnext⟩

/-- Deleting comes to an end, and whatever has been deleted first, it ends with nothing. -/
structure Freed (sys : System) : Prop where
  ends : ∃ sys', Relation.ReflTransGen Collects sys sys' ∧ ¬ ∃ next, Collects sys' next
  decreases : ∀ sys' next, Relation.ReflTransGen Collects sys sys' → Collects sys' next →
    next.store.links.length < sys'.store.links.length
  empty : ∀ sys', Relation.ReflTransGen Collects sys sys' → (¬ ∃ next, Collects sys' next) →
    sys'.store.links = [] ∧ sys'.store.counts = 0

end Turbine.References
