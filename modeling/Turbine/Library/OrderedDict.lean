import Mathlib

/-! Dictionaries that keep their keys in the order in which they were first set. -/

namespace Turbine.Library

structure OrderedDict (α β : Type) where
  entries : List (α × β)
  nodup : (entries.map Prod.fst).Nodup

namespace OrderedDict

variable {α β : Type}

def keys (d : OrderedDict α β) : List α := d.entries.map Prod.fst

def values (d : OrderedDict α β) : List β := d.entries.map Prod.snd

def empty : OrderedDict α β := ⟨[], List.nodup_nil⟩

variable [DecidableEq α]

def get? (d : OrderedDict α β) (k : α) : Option β := d.entries.lookup k

def setEntries (entries : List (α × β)) (k : α) (v : β) : List (α × β) :=
  match entries with
  | [] => [(k, v)]
  | e :: rest => if e.1 = k then (k, v) :: rest else e :: setEntries rest k v

lemma map_fst_setEntries (entries : List (α × β)) (k : α) (v : β) :
    (setEntries entries k v).map Prod.fst =
      if k ∈ entries.map Prod.fst then entries.map Prod.fst else entries.map Prod.fst ++ [k] := by
  induction entries with
  | nil => simp [setEntries]
  | cons e rest ih =>
    by_cases he : e.1 = k
    · simp [setEntries, he]
    · have hk : ¬ k = e.1 := fun h => he h.symm
      by_cases hmem : k ∈ rest.map Prod.fst
      · simp only [setEntries, if_neg he, List.map_cons, ih, List.mem_cons, hmem,
          or_true, if_true]
      · simp only [setEntries, if_neg he, List.map_cons, ih, List.mem_cons, hmem, hk,
          or_self, if_false, List.cons_append]

def set (d : OrderedDict α β) (k : α) (v : β) : OrderedDict α β where
  entries := setEntries d.entries k v
  nodup := by
    rw [map_fst_setEntries]
    split
    · exact d.nodup
    · rename_i hmem
      exact List.nodup_append.mpr ⟨d.nodup, List.nodup_singleton k, by
        intro a ha b hb hab
        rw [List.mem_singleton.mp hb] at hab
        exact hmem (hab ▸ ha)⟩

lemma keys_set_of_notMem {d : OrderedDict α β} {k : α} (v : β) (h : k ∉ d.keys) :
    (d.set k v).keys = d.keys ++ [k] := by
  have hkeys := map_fst_setEntries d.entries k v
  change k ∉ d.entries.map Prod.fst at h
  rwa [if_neg h] at hkeys

lemma entries_set_of_notMem {d : OrderedDict α β} {k : α} (v : β) (h : k ∉ d.keys) :
    (d.set k v).entries = d.entries ++ [(k, v)] := by
  obtain ⟨entries, hnodup⟩ := d
  change k ∉ entries.map Prod.fst at h
  change setEntries entries k v = entries ++ [(k, v)]
  clear hnodup
  induction entries with
  | nil => rfl
  | cons e rest ih =>
    simp only [List.map_cons, List.mem_cons, not_or] at h
    rw [setEntries, if_neg (Ne.symm h.1), ih h.2, List.cons_append]

lemma values_set_of_notMem {d : OrderedDict α β} {k : α} (v : β) (h : k ∉ d.keys) :
    (d.set k v).values = d.values ++ [v] := by
  simp [values, entries_set_of_notMem v h]

lemma entries_foldl_set {l : List (α × β)} {d : OrderedDict α β}
    (h : (d.keys ++ l.map Prod.fst).Nodup) :
    (l.foldl (fun d e => d.set e.1 e.2) d).entries = d.entries ++ l := by
  induction l generalizing d with
  | nil => simp
  | cons e l ih =>
    rw [List.map_cons, List.append_cons] at h
    have hnot : e.1 ∉ d.keys := fun he =>
      (List.nodup_append.mp h.of_append_left).2.2 _ he _ (List.mem_singleton_self _) rfl
    rw [List.foldl_cons, ih (by rwa [keys_set_of_notMem e.2 hnot]),
      entries_set_of_notMem e.2 hnot, List.append_assoc, List.singleton_append]

lemma mem_entries_iff {d : OrderedDict α β} {k : α} {v : β} :
    (k, v) ∈ d.entries ↔ d.get? k = some v := by
  obtain ⟨entries, hnodup⟩ := d
  change (k, v) ∈ entries ↔ entries.lookup k = some v
  induction entries with
  | nil => simp
  | cons e rest ih =>
    obtain ⟨k', v'⟩ := e
    rw [List.map_cons, List.nodup_cons] at hnodup
    by_cases hk : k = k'
    · subst hk
      have hnot : (k, v) ∉ rest := fun h => hnodup.1 (List.mem_map.mpr ⟨_, h, rfl⟩)
      simp [hnot, eq_comm]
    · have hbeq : (k == k') = false := by simpa using hk
      simp [List.lookup_cons, hbeq, hk, ih hnodup.2]

lemma mem_keys_iff {d : OrderedDict α β} {k : α} : k ∈ d.keys ↔ ∃ v, d.get? k = some v := by
  simp only [keys, List.mem_map, ← mem_entries_iff]
  constructor
  · rintro ⟨⟨_, v⟩, hmem, rfl⟩
    exact ⟨v, hmem⟩
  · rintro ⟨v, hmem⟩
    exact ⟨(k, v), hmem, rfl⟩

lemma lookup_setEntries (entries : List (α × β)) (k k' : α) (v : β) :
    (setEntries entries k v).lookup k' = if k' = k then some v else entries.lookup k' := by
  induction entries with
  | nil =>
    by_cases hk : k' = k
    · simp [setEntries, hk]
    · have hbeq : (k' == k) = false := by simpa using hk
      simp [setEntries, List.lookup_cons, hbeq, hk]
  | cons e rest ih =>
    obtain ⟨k₀, v₀⟩ := e
    by_cases hk : k' = k
    · subst hk
      by_cases hk₀ : k₀ = k'
      · simp [setEntries, hk₀]
      · have hbeq : (k' == k₀) = false := by simpa using Ne.symm hk₀
        simpa [setEntries, hk₀, List.lookup_cons, hbeq] using ih
    · rw [if_neg hk] at ih ⊢
      by_cases hk₀ : k₀ = k
      · have hbeq : (k' == k) = false := by simpa using hk
        simp [setEntries, hk₀, List.lookup_cons, hbeq]
      · simp [setEntries, hk₀, List.lookup_cons, ih]

lemma get?_set (d : OrderedDict α β) (k k' : α) (v : β) :
    (d.set k v).get? k' = if k' = k then some v else d.get? k' :=
  lookup_setEntries d.entries k k' v

lemma map_keys_get? (d : OrderedDict α β) (b : β) :
    d.keys.map (fun k => (d.get? k).getD b) = d.values := by
  rw [keys, values, List.map_map]
  refine List.map_congr_left ?_
  rintro ⟨k, v⟩ hmem
  simp [mem_entries_iff.mp hmem]

end OrderedDict

end Turbine.Library
