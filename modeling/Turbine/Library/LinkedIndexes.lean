import Mathlib

/-! Two indexes over one set of nodes: each node is filed once under its own first key and once
under its own second key. -/

namespace Turbine.Library.LinkedIndexes

variable {I K P N : Type*} {fst : N → I} {snd : N → K}

/-- Both indexes hold the same nodes, each filed under its own key. -/
structure Linked (fst : N → I) (snd : N → K) (A : I → Option P) (B : K → Option P)
    (node : P → Option N) : Prop where
  same : ∀ p, (∃ i, A i = some p) ↔ ∃ k, B k = some p
  fst_key : ∀ i p, A i = some p → ∃ n, node p = some n ∧ fst n = i
  snd_key : ∀ k p, B k = some p → ∃ n, node p = some n ∧ snd n = k

variable {A : I → Option P} {B : K → Option P} {node : P → Option N}

lemma Linked.empty : Linked fst snd (fun _ => none : I → Option P) (fun _ => none) node :=
  ⟨by simp, by simp, by simp⟩

lemma Linked.of_fst (h : Linked fst snd A B node) {i : I} {p : P} (hp : A i = some p) :
    ∃ n, node p = some n ∧ fst n = i ∧ B (snd n) = some p := by
  obtain ⟨n, hn, hi⟩ := h.fst_key i p hp
  obtain ⟨k, hk⟩ := (h.same p).mp ⟨i, hp⟩
  obtain ⟨n', hn', rfl⟩ := h.snd_key k p hk
  obtain rfl : n = n' := Option.some.inj (hn.symm.trans hn')
  exact ⟨n, hn, hi, hk⟩

lemma Linked.of_snd (h : Linked fst snd A B node) {k : K} {p : P} (hp : B k = some p) :
    ∃ n, node p = some n ∧ snd n = k ∧ A (fst n) = some p := by
  obtain ⟨n, hn, hk⟩ := h.snd_key k p hp
  obtain ⟨i, hi⟩ := (h.same p).mpr ⟨k, hp⟩
  obtain ⟨n', hn', rfl⟩ := h.fst_key i p hi
  obtain rfl : n = n' := Option.some.inj (hn.symm.trans hn')
  exact ⟨n, hn, hk, hi⟩

/-- Filed nodes that agree on either key are the same node. -/
theorem Linked.unique (h : Linked fst snd A B node) {p q : P} {m n : N}
    (hp : ∃ i, A i = some p) (hq : ∃ i, A i = some q) (hm : node p = some m) (hn : node q = some n)
    (heq : fst m = fst n ∨ snd m = snd n) : p = q := by
  obtain ⟨i, hi⟩ := hp
  obtain ⟨j, hj⟩ := hq
  obtain ⟨m', hm', rfl, hbm⟩ := h.of_fst hi
  obtain ⟨n', hn', rfl, hbn⟩ := h.of_fst hj
  obtain rfl : m = m' := Option.some.inj (hm.symm.trans hm')
  obtain rfl : n = n' := Option.some.inj (hn.symm.trans hn')
  rcases heq with hf | hs
  · exact Option.some.inj (hi.symm.trans (hf ▸ hj))
  · exact Option.some.inj (hbm.symm.trans (hs ▸ hbn))

variable [DecidableEq I] [DecidableEq K]

/-- Taking one node out of both indexes keeps the others linked, and takes it out of both. -/
theorem Linked.unlink (h : Linked fst snd A B node) {p : P} {n : N} (hn : node p = some n)
    (ha : A (fst n) = some p) (hb : B (snd n) = some p) :
    Linked fst snd (Function.update A (fst n) none) (Function.update B (snd n) none) node ∧
      (∀ i, Function.update A (fst n) none i ≠ some p) ∧
      ∀ k, Function.update B (snd n) none k ≠ some p := by
  have hA : ∀ i q, Function.update A (fst n) none i = some q → A i = some q ∧ q ≠ p := by
    intro i q hq
    by_cases hi : i = fst n
    · simp [hi] at hq
    · rw [Function.update_of_ne hi] at hq
      refine ⟨hq, ?_⟩
      rintro rfl
      obtain ⟨m, hm, rfl⟩ := h.fst_key i q hq
      obtain rfl : n = m := Option.some.inj (hn.symm.trans hm)
      exact hi rfl
  have hB : ∀ k q, Function.update B (snd n) none k = some q → B k = some q ∧ q ≠ p := by
    intro k q hq
    by_cases hk : k = snd n
    · simp [hk] at hq
    · rw [Function.update_of_ne hk] at hq
      refine ⟨hq, ?_⟩
      rintro rfl
      obtain ⟨m, hm, rfl⟩ := h.snd_key k q hq
      obtain rfl : n = m := Option.some.inj (hn.symm.trans hm)
      exact hk rfl
  refine ⟨⟨?_, ?_, ?_⟩, fun i hi => (hA i p hi).2 rfl, fun k hk => (hB k p hk).2 rfl⟩
  · intro q
    constructor
    · rintro ⟨i, hi⟩
      obtain ⟨hq, hne⟩ := hA i q hi
      obtain ⟨k, hk⟩ := (h.same q).mp ⟨i, hq⟩
      refine ⟨k, ?_⟩
      rw [Function.update_of_ne, hk]
      rintro rfl
      exact hne (Option.some.inj (hk.symm.trans hb))
    · rintro ⟨k, hk⟩
      obtain ⟨hq, hne⟩ := hB k q hk
      obtain ⟨i, hi⟩ := (h.same q).mpr ⟨k, hq⟩
      refine ⟨i, ?_⟩
      rw [Function.update_of_ne, hi]
      rintro rfl
      exact hne (Option.some.inj (hi.symm.trans ha))
  · exact fun i q hq => h.fst_key i q (hA i q hq).1
  · exact fun k q hq => h.snd_key k q (hB k q hq).1

/-- Filing a node that is in neither index under two unused keys keeps the indexes linked. -/
theorem Linked.link [DecidableEq P] (h : Linked fst snd A B node) {p : P} {n : N} (hp : ∀ k, B k ≠ some p)
    (ha : A (fst n) = none) (hb : B (snd n) = none) :
    Linked fst snd (Function.update A (fst n) (some p)) (Function.update B (snd n) (some p))
      (Function.update node p (some n)) := by
  have hp' : ∀ i, A i ≠ some p := by
    intro i hi
    obtain ⟨k, hk⟩ := (h.same p).mp ⟨i, hi⟩
    exact hp k hk
  refine ⟨?_, ?_, ?_⟩
  · intro q
    by_cases hq : q = p
    · subst hq
      exact ⟨fun _ => ⟨snd n, by simp⟩, fun _ => ⟨fst n, by simp⟩⟩
    constructor
    · rintro ⟨i, hi⟩
      have hne : i ≠ fst n := by
        rintro rfl
        simp [Ne.symm hq] at hi
      rw [Function.update_of_ne hne] at hi
      obtain ⟨k, hk⟩ := (h.same q).mp ⟨i, hi⟩
      refine ⟨k, ?_⟩
      rw [Function.update_of_ne, hk]
      rintro rfl
      simp [hb] at hk
    · rintro ⟨k, hk⟩
      have hne : k ≠ snd n := by
        rintro rfl
        simp [Ne.symm hq] at hk
      rw [Function.update_of_ne hne] at hk
      obtain ⟨i, hi⟩ := (h.same q).mpr ⟨k, hk⟩
      refine ⟨i, ?_⟩
      rw [Function.update_of_ne, hi]
      rintro rfl
      simp [ha] at hi
  · intro i q hq
    by_cases hi : i = fst n
    · subst hi
      obtain rfl : p = q := by simpa using hq
      exact ⟨n, by simp, rfl⟩
    · rw [Function.update_of_ne hi] at hq
      rw [Function.update_of_ne (by rintro rfl; exact hp' i hq)]
      exact h.fst_key i q hq
  · intro k q hq
    by_cases hk : k = snd n
    · subst hk
      obtain rfl : p = q := by simpa using hq
      exact ⟨n, by simp, rfl⟩
    · rw [Function.update_of_ne hk] at hq
      rw [Function.update_of_ne (by rintro rfl; exact hp k hq)]
      exact h.snd_key k q hq

/-- Filing another node under a first key already in use breaks the link: the node that had the
key stays in the second index only. -/
theorem Linked.link_conflict (h : Linked fst snd A B node) {p : P} {n : N}
    {node' : P → Option N} (hp : ∀ k, B k ≠ some p) (ha : A (fst n) ≠ none)
    (hb : B (snd n) = none) :
    ¬ Linked fst snd (Function.update A (fst n) (some p)) (Function.update B (snd n) (some p))
      node' := by
  intro h'
  obtain ⟨q, hq⟩ := Option.ne_none_iff_exists'.mp ha
  obtain ⟨k, hk⟩ := (h.same q).mp ⟨_, hq⟩
  have hpq : q ≠ p := fun he => hp k (he ▸ hk)
  have hk' : Function.update B (snd n) (some p) k = some q := by
    rw [Function.update_of_ne, hk]
    rintro rfl
    simp [hb] at hk
  obtain ⟨i, hi⟩ := (h'.same q).mpr ⟨k, hk'⟩
  by_cases hin : i = fst n
  · simp [hin, Ne.symm hpq] at hi
  · rw [Function.update_of_ne hin] at hi
    obtain ⟨m, hm, rfl⟩ := h.fst_key i q hi
    obtain ⟨m', hm', hm''⟩ := h.fst_key (fst n) q hq
    obtain rfl : m = m' := Option.some.inj (hm.symm.trans hm')
    exact hin hm''

end Turbine.Library.LinkedIndexes
