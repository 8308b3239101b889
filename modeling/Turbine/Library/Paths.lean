import Mathlib

/-! Values at paths of indexes, listed in the lexicographic order of the paths. -/

namespace Turbine.Library.Paths

variable {κ α : Type*}

/-- Each path has one index in front of it, for which there is a function of the others. -/
def under (f : κ → List κ → Option α) : List κ → Option α
  | [] => none
  | k :: path => f k path

def prepend (k : κ) (entries : List (List κ × α)) : List (List κ × α) :=
  entries.map fun e => (k :: e.1, e.2)

lemma mem_prepend {k : κ} {path : List κ} {v : α} {l : List (List κ × α)} :
    (path, v) ∈ prepend k l ↔ ∃ rest, path = k :: rest ∧ (rest, v) ∈ l := by
  simp only [prepend, List.mem_map, Prod.mk.injEq]
  constructor
  · rintro ⟨⟨rest, w⟩, hmem, rfl, rfl⟩
    exact ⟨rest, rfl, hmem⟩
  · rintro ⟨rest, rfl, hmem⟩
    exact ⟨(rest, v), hmem, rfl, rfl⟩

lemma values_flatMap (keys : List κ) (entries : κ → List (List κ × α)) :
    (keys.flatMap fun k => prepend k (entries k)).map Prod.snd =
      keys.flatMap fun k => (entries k).map Prod.snd := by
  rw [List.map_flatMap]
  simp [prepend, Function.comp_def]

section Order

variable [LinearOrder κ]

/-- The entries are the paths at which the function has values, in their order, and these values. -/
structure Lists (f : List κ → Option α) (entries : List (List κ × α)) : Prop where
  sorted : entries.Pairwise fun a b => a.1 < b.1
  mem_iff : ∀ path v, (path, v) ∈ entries ↔ f path = some v

variable {f : List κ → Option α} {l l' : List (List κ × α)}

lemma Lists.nodup (h : Lists f l) : l.Nodup :=
  h.sorted.imp fun hlt heq => (heq ▸ hlt).false

lemma Lists.unique (h : Lists f l) (h' : Lists f l') : l = l' := by
  have hperm : l.Perm l' := by
    rw [List.perm_ext_iff_of_nodup h.nodup h'.nodup]
    rintro ⟨path, v⟩
    rw [h.mem_iff, h'.mem_iff]
  exact hperm.eq_of_pairwise (fun a b _ _ hab hba => absurd hab hba.asymm) h.sorted h'.sorted

lemma lists_nil {v : α} (h : ∀ path, f path = if path = [] then some v else none) :
    Lists f [([], v)] := by
  refine ⟨List.pairwise_singleton .., fun path w => ?_⟩
  rw [h, List.mem_singleton, Prod.mk.injEq]
  split_ifs with hpath <;> simp [hpath, eq_comm]

/-- Listing is done index by index, if the indexes are in order. -/
lemma lists_under {f : κ → List κ → Option α} {keys : List κ} {entries : κ → List (List κ × α)}
    (hkeys : keys.Pairwise (· < ·)) (hout : ∀ k, k ∉ keys → ∀ path, f k path = none)
    (h : ∀ k ∈ keys, Lists (f k) (entries k)) :
    Lists (under f) (keys.flatMap fun k => prepend k (entries k)) := by
  constructor
  · rw [List.pairwise_flatMap]
    constructor
    · intro k hk
      rw [prepend, List.pairwise_map]
      exact (h k hk).sorted.imp fun hlt => List.cons_lt_cons_iff.mpr (.inr ⟨rfl, hlt⟩)
    · refine hkeys.imp ?_
      rintro k k' hlt ⟨path, v⟩ hmem ⟨path', v'⟩ hmem'
      obtain ⟨rest, rfl, -⟩ := mem_prepend.mp hmem
      obtain ⟨rest', rfl, -⟩ := mem_prepend.mp hmem'
      exact List.cons_lt_cons_iff.mpr (.inl hlt)
  · intro path v
    rw [List.mem_flatMap]
    constructor
    · rintro ⟨k, hk, hmem⟩
      obtain ⟨rest, rfl, hrest⟩ := mem_prepend.mp hmem
      exact ((h k hk).mem_iff rest v).mp hrest
    · intro hv
      cases path with
      | nil => exact absurd hv (by simp [under])
      | cons k rest =>
        have hk : k ∈ keys := by
          by_contra hnot
          rw [under, hout k hnot] at hv
          exact absurd hv (by simp)
        exact ⟨k, hk, mem_prepend.mpr ⟨rest, rfl, ((h k hk).mem_iff rest v).mpr hv⟩⟩

end Order

end Turbine.Library.Paths
