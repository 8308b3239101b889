import Mathlib

/-! Tasks that each set one output from their inputs: what the outputs mean, and what is known
about those that are set while the tasks are done in any order. -/

namespace Turbine.Library.Dataflow

structure Task (I V E : Type) where
  inputs : List I
  output : I
  compute : List V → Except E V

variable {I V E : Type} {tasks done pending : Multiset (Task I V E)} {t : Task I V E} {i : I}

/-- What a task sets its output to, whenever it is done. -/
inductive Means (tasks : Multiset (Task I V E)) : I → V → Prop
  | computed {t : Task I V E} {vals : I → V} {v : V} : t ∈ tasks →
      (∀ i ∈ t.inputs, Means tasks i (vals i)) → t.compute (t.inputs.map vals) = .ok v →
      Means tasks t.output v

/-- The inputs of the task have a meaning, but nothing can be computed from it. -/
def Fails (tasks : Multiset (Task I V E)) (t : Task I V E) (e : E) : Prop :=
  ∃ vals : I → V, (∀ i ∈ t.inputs, Means tasks i (vals i)) ∧
    t.compute (t.inputs.map vals) = .error e

def SingleAssignment (tasks : Multiset (Task I V E)) : Prop := (tasks.map Task.output).Nodup

/-- No output depends on itself. -/
def Acyclic (tasks : Multiset (Task I V E)) : Prop :=
  ∃ rank : I → ℕ, ∀ t ∈ tasks, ∀ i ∈ t.inputs, rank i < rank t.output

/-- Every input is set by some task. -/
def Closed (tasks : Multiset (Task I V E)) : Prop :=
  ∀ t ∈ tasks, ∀ i ∈ t.inputs, ∃ u ∈ tasks, u.output = i

/-! ### Meanings -/

lemma Means.exists_task {v : V} (h : Means tasks i v) :
    ∃ t ∈ tasks, t.output = i ∧ ∃ vals : I → V,
      (∀ j ∈ t.inputs, Means tasks j (vals j)) ∧ t.compute (t.inputs.map vals) = .ok v := by
  cases h with
  | computed ht hvals hv => exact ⟨_, ht, rfl, _, hvals, hv⟩

lemma SingleAssignment.eq_of_output (h : SingleAssignment tasks) {u : Task I V E} (ht : t ∈ tasks)
    (hu : u ∈ tasks) (heq : t.output = u.output) : t = u :=
  Multiset.inj_on_of_nodup_map h t ht u hu heq

lemma Means.unique (h : SingleAssignment tasks) {v w : V} (hv : Means tasks i v)
    (hw : Means tasks i w) : v = w := by
  induction hv generalizing w with
  | @computed t vals v ht hvals hv ih =>
    obtain ⟨u, hu, hout, vals', hvals', hcompute⟩ := hw.exists_task
    obtain rfl := h.eq_of_output hu ht hout
    have hmap : u.inputs.map vals = u.inputs.map vals' :=
      List.map_congr_left fun j hj => ih j hj (hvals' j hj)
    rw [hmap, hcompute] at hv
    exact (Except.ok.inj hv).symm

lemma Means.map_eq (h : SingleAssignment tasks) {vals vals' : I → V} {inputs : List I}
    (hvals : ∀ j ∈ inputs, Means tasks j (vals j)) (hvals' : ∀ j ∈ inputs, Means tasks j (vals' j)) :
    inputs.map vals = inputs.map vals' :=
  List.map_congr_left fun j hj => (hvals j hj).unique h (hvals' j hj)

lemma Means.not_fails (h : SingleAssignment tasks) (ht : t ∈ tasks) {v : V}
    (hv : Means tasks t.output v) (e : E) : ¬ Fails tasks t e := by
  rintro ⟨vals, hvals, he⟩
  obtain ⟨u, hu, hout, vals', hvals', hcompute⟩ := hv.exists_task
  obtain rfl := h.eq_of_output hu ht hout
  rw [Means.map_eq h hvals hvals', hcompute] at he
  cases he

/-! ### Tasks done so far -/

/-- The outputs of the tasks that are done are set to what they mean, and no others. -/
structure Explains (tasks done pending : Multiset (Task I V E)) (store : I → Option V) : Prop where
  split : done + pending = tasks
  set_iff : ∀ i, (store i).isSome ↔ ∃ t ∈ done, t.output = i
  means : ∀ i v, store i = some v → Means tasks i v

variable {store : I → Option V}

lemma explains_start (tasks : Multiset (Task I V E)) : Explains tasks 0 tasks fun _ => none where
  split := zero_add _
  set_iff i := by simp
  means i v h := by simp at h

namespace Explains

lemma mem_of_done (h : Explains tasks done pending store) (ht : t ∈ done) : t ∈ tasks :=
  h.split ▸ Multiset.mem_add.mpr (.inl ht)

lemma mem_of_pending (h : Explains tasks done pending store) (ht : t ∈ pending) : t ∈ tasks :=
  h.split ▸ Multiset.mem_add.mpr (.inr ht)

lemma output_unset (h : Explains tasks done pending store) (hsingle : SingleAssignment tasks)
    (ht : t ∈ pending) : store t.output = none := by
  rw [← Option.not_isSome_iff_eq_none, h.set_iff]
  rintro ⟨u, hu, hout⟩
  rw [SingleAssignment, ← h.split, Multiset.map_add] at hsingle
  have hdisjoint := (Multiset.nodup_add.mp hsingle).2.2
  exact Multiset.disjoint_left.mp hdisjoint (Multiset.mem_map_of_mem _ hu)
    (hout ▸ Multiset.mem_map_of_mem _ ht)

lemma fails (h : Explains tasks done pending store) {vals : I → V}
    (hvals : ∀ i ∈ t.inputs, store i = some (vals i)) {e : E}
    (he : t.compute (t.inputs.map vals) = .error e) : Fails tasks t e :=
  ⟨vals, fun i hi => h.means i _ (hvals i hi), he⟩

lemma fire [DecidableEq I] (h : Explains tasks done (t ::ₘ pending) store) {vals : I → V}
    (hvals : ∀ i ∈ t.inputs, store i = some (vals i)) {v : V}
    (hv : t.compute (t.inputs.map vals) = .ok v) :
    Explains tasks (t ::ₘ done) pending (Function.update store t.output (some v)) where
  split := by rw [← h.split, Multiset.cons_add, Multiset.add_cons]
  set_iff i := by
    by_cases hi : i = t.output
    · subst hi
      simp
    · simp [Function.update_of_ne hi, h.set_iff, Ne.symm hi]
  means i w hw := by
    by_cases hi : i = t.output
    · subst hi
      rw [Function.update_self, Option.some_inj] at hw
      subst hw
      exact .computed (h.mem_of_pending (Multiset.mem_cons_self _ _))
        (fun i hi => h.means i _ (hvals i hi)) hv
    · rw [Function.update_of_ne hi] at hw
      exact h.means i w hw

lemma exists_of_done (h : Explains tasks done pending store) (ht : t ∈ done) :
    ∃ v, store t.output = some v ∧ Means tasks t.output v := by
  obtain ⟨v, hv⟩ := Option.isSome_iff_exists.mp ((h.set_iff _).mpr ⟨t, ht, rfl⟩)
  exact ⟨v, hv, h.means _ _ hv⟩

lemma not_fails (h : Explains tasks done pending store) (hsingle : SingleAssignment tasks)
    (ht : t ∈ done) (e : E) : ¬ Fails tasks t e := by
  obtain ⟨v, -, hv⟩ := h.exists_of_done ht
  exact hv.not_fails hsingle (h.mem_of_done ht) e

lemma store_of_means (h : Explains tasks done pending store) (hsingle : SingleAssignment tasks)
    (hstuck : ∀ t ∈ pending, ∃ i ∈ t.inputs, store i = none) {v : V} (hv : Means tasks i v) :
    store i = some v := by
  induction hv with
  | @computed t vals v ht hvals hv ih =>
    rw [← h.split] at ht
    rcases Multiset.mem_add.mp ht with hdone | hpending
    · obtain ⟨w, hw, hmeans⟩ := h.exists_of_done hdone
      rw [hw, hmeans.unique hsingle (.computed (h.mem_of_done hdone) hvals hv)]
    · obtain ⟨i, hi, hnone⟩ := hstuck t hpending
      rw [ih i hi] at hnone
      exact absurd hnone (by simp)

lemma exists_ready (h : Explains tasks done pending store) (hacyclic : Acyclic tasks)
    (hclosed : Closed tasks) (hne : pending ≠ 0) :
    ∃ t ∈ pending, ∀ i ∈ t.inputs, (store i).isSome := by
  obtain ⟨rank, hrank⟩ := hacyclic
  obtain ⟨t, ht, hmin⟩ : ∃ t ∈ pending, ∀ u ∈ pending, rank t.output ≤ rank u.output := by
    have hwf := (measure fun t : Task I V E => rank t.output).wf
    obtain ⟨t, ht, hmin⟩ := hwf.has_min {t | t ∈ pending} (Multiset.exists_mem_of_ne_zero hne)
    exact ⟨t, ht, fun u hu => not_lt.mp (hmin u hu)⟩
  refine ⟨t, ht, fun i hi => ?_⟩
  obtain ⟨u, hu, rfl⟩ := hclosed t (h.mem_of_pending ht) i hi
  have hlt := hrank t (h.mem_of_pending ht) _ hi
  rw [← h.split] at hu
  rcases Multiset.mem_add.mp hu with hdone | hpending
  · exact (h.set_iff _).mpr ⟨u, hdone, rfl⟩
  · exact absurd (hmin u hpending) (not_le.mpr hlt)

end Explains

/-! ### Uses of the inputs -/

section Uses

variable [DecidableEq I]

/-- How often the tasks use an output. -/
def uses (tasks : Multiset (Task I V E)) (i : I) : ℕ := (tasks.map fun t => t.inputs.count i).sum

@[simp] lemma uses_zero (i : I) : uses (0 : Multiset (Task I V E)) i = 0 := rfl

@[simp] lemma uses_cons (t : Task I V E) (tasks : Multiset (Task I V E)) (i : I) :
    uses (t ::ₘ tasks) i = t.inputs.count i + uses tasks i := by
  simp [uses]

lemma uses_add (tasks tasks' : Multiset (Task I V E)) (i : I) :
    uses (tasks + tasks') i = uses tasks i + uses tasks' i := by
  simp [uses]

end Uses

end Turbine.Library.Dataflow
