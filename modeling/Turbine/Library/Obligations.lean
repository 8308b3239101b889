import Mathlib

/-! Obligations that change hands: each one that was issued is done, waits to be taken up, or is
held by somebody. -/

namespace Turbine.Library.Obligations

variable {ι D : Type} [Fintype ι]

def Balanced (issued done waiting : Multiset D) (held : ι → Multiset D) : Prop :=
  done + waiting + ∑ i, held i = issued

variable {issued issued' done done' waiting waiting' : Multiset D} {held : ι → Multiset D}
  {i j : ι} {d : D}

lemma Balanced.settled (h : Balanced issued done waiting held) (hw : waiting = 0)
    (hh : ∀ i, held i = 0) : done = issued := by
  simpa [Balanced, hw, hh] using h

lemma Balanced.done_issued (h : Balanced issued done waiting held) (hd : d ∈ done) :
    d ∈ issued := by
  rw [← h, Multiset.mem_add, Multiset.mem_add]
  exact .inl (.inl hd)

lemma Balanced.waiting_issued (h : Balanced issued done waiting held) (hd : d ∈ waiting) :
    d ∈ issued := by
  rw [← h, Multiset.mem_add, Multiset.mem_add]
  exact .inl (.inr hd)

lemma Balanced.held_issued (h : Balanced issued done waiting held) (hd : d ∈ held i) :
    d ∈ issued := by
  rw [← h, Multiset.mem_add, Multiset.mem_sum]
  exact .inr ⟨i, Finset.mem_univ i, hd⟩

/-! What is issued once is done at most once, and is in one hand at a time. -/

lemma Balanced.done_nodup (h : Balanced issued done waiting held) (hn : issued.Nodup) :
    done.Nodup := by
  rw [← h, Multiset.nodup_add, Multiset.nodup_add] at hn
  exact hn.1.1

structure OnlyHeldBy (i : ι) (d : D) (done waiting : Multiset D) (held : ι → Multiset D) :
    Prop where
  notMem_done : d ∉ done
  notMem_waiting : d ∉ waiting
  notMem_held : ∀ j, j ≠ i → d ∉ held j

lemma Balanced.onlyHeldBy (h : Balanced issued done waiting held) (hn : issued.Nodup)
    (hd : d ∈ held i) : OnlyHeldBy i d done waiting held := by
  classical
  rw [Balanced, ← Finset.add_sum_erase _ held (Finset.mem_univ i)] at h
  rw [← h, Multiset.nodup_add, Multiset.nodup_add (s := held i)] at hn
  obtain ⟨-, ⟨-, -, hothers⟩, hdisjoint⟩ := hn
  have hall : d ∈ held i + ∑ j ∈ Finset.univ.erase i, held j := Multiset.mem_add.mpr (.inl hd)
  have hnot := Multiset.disjoint_right.mp hdisjoint hall
  rw [Multiset.mem_add, not_or] at hnot
  refine ⟨hnot.1, hnot.2, fun j hj hdj => ?_⟩
  apply Multiset.disjoint_left.mp hothers hd
  exact Multiset.mem_sum.mpr ⟨j, Finset.mem_erase.mpr ⟨hj, Finset.mem_univ j⟩, hdj⟩

variable [DecidableEq ι]

lemma sum_update (held : ι → Multiset D) (i : ι) (mine : Multiset D) :
    ∑ j, Function.update held i mine j + held i = ∑ j, held j + mine := by
  rw [Finset.sum_update_of_mem (Finset.mem_univ i), ← Finset.add_sum_erase _ held
    (Finset.mem_univ i), Finset.sdiff_singleton_eq_erase]
  abel

/-- One holder does, takes up, passes on or receives obligations. -/
lemma Balanced.turn {mine : Multiset D} (h : Balanced issued done waiting held)
    (hturn : done' + waiting' + mine + issued = issued' + (done + waiting + held i)) :
    Balanced issued' done' waiting' (Function.update held i mine) := by
  have hsum := sum_update held i mine
  rw [Balanced] at h ⊢
  have hall : done' + waiting' + ∑ j, Function.update held i mine j + (held i + issued) =
      issued' + (held i + issued) := by
    calc done' + waiting' + ∑ j, Function.update held i mine j + (held i + issued)
        = done' + waiting' + (∑ j, Function.update held i mine j + held i) + issued := by abel
      _ = (done' + waiting' + mine + issued) + ∑ j, held j := by rw [hsum]; abel
      _ = issued' + (done + waiting + ∑ j, held j) + held i := by rw [hturn]; abel
      _ = issued' + (held i + issued) := by rw [h]; abel
  exact add_right_cancel hall

end Turbine.Library.Obligations
