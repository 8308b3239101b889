import Mathlib
import Turbine.Library.Programs

/-! Several programs over one world, their calls answered in any order, and rules for what each
of them can rely on while the others take their turns. -/

namespace Turbine.Library.Interleaving

open Turbine.Library.Programs

variable {ι E Γ Call α β ε : Type} {Ret : Call → Type}

/-- What clients agree on: an invariant of the shared state, and what each of them relies on
while others take their turns. -/
structure Pact (ι S : Type) where
  inv : S → Prop
  rely : ι → S → S → Prop
  rely_refl : ∀ i s, rely i s s
  rely_trans : ∀ {i s t u}, rely i s t → rely i t u → rely i s u

section Keeps

variable {W : World E (ι × Call) fun c => Ret c.2} {A : Pact ι (E × Γ)}
  {P : E × Γ → ι → Call → Prop} {i : ι}

/-- The client `i` keeps the pact, whatever the others do between its calls: its calls meet `P`
and its result meets `Q`. The ghost state `Γ` is chosen anew at each of its turns. -/
def Keeps (W : World E (ι × Call) fun c => Ret c.2) (A : Pact ι (E × Γ))
    (P : E × Γ → ι → Call → Prop) (i : ι) : Prog Call Ret α → (α → E × Γ → Prop) → E × Γ → Prop
  | .done a, Q, s => Q a s
  | .call c k, Q, s => ∀ e g, A.rely i s (e, g) → A.inv (e, g) →
      P (e, g) i c ∧ ∀ r e', W.reply e (i, c) r e' → ∃ g', A.inv (e', g') ∧
        (∀ j, j ≠ i → A.rely j (e, g) (e', g')) ∧ Keeps W A P i (k r) Q (e', g')

@[simp] lemma keeps_done (a : α) (Q : α → E × Γ → Prop) (s : E × Γ) :
    Keeps W A P i (.done a : Prog Call Ret α) Q s ↔ Q a s := Iff.rfl

lemma keeps_bind (p : Prog Call Ret α) (f : α → Prog Call Ret β) (Q : β → E × Γ → Prop)
    (s : E × Γ) :
    Keeps W A P i (p >>= f) Q s ↔ Keeps W A P i p (fun a s' => Keeps W A P i (f a) Q s') s := by
  induction p generalizing s with
  | done a => rfl
  | call c k ih => simp only [Prog.call_bind, Keeps, ih]

lemma Keeps.mono {p : Prog Call Ret α} {Q Q' : α → E × Γ → Prop} {s : E × Γ}
    (h : Keeps W A P i p Q s) (hq : ∀ a s', Q a s' → Q' a s') : Keeps W A P i p Q' s := by
  induction p generalizing s with
  | done a => exact hq a s h
  | call c k ih =>
    intro e g hrely hinv
    obtain ⟨hp, hreply⟩ := h e g hrely hinv
    refine ⟨hp, fun r e' hr => ?_⟩
    obtain ⟨g', hinv', hothers, hk⟩ := hreply r e' hr
    exact ⟨g', hinv', hothers, ih r hk⟩

/-- Turns of the others leave a client's part of the pact as it was. -/
lemma Keeps.stable {p : Prog Call Ret α} {Q : α → E × Γ → Prop} {s s' : E × Γ}
    (hQ : ∀ a, Q a s → Q a s') (h : Keeps W A P i p Q s) (hrely : A.rely i s s') :
    Keeps W A P i p Q s' := by
  cases p with
  | done a => exact hQ a h
  | call c k => exact fun e g hr hi => h e g (A.rely_trans hrely hr) hi

lemma Keeps.asked {p : Prog Call Ret α} {Q : α → E × Γ → Prop} {s : E × Γ} {c : Call}
    {k : Ret c → Prog Call Ret α} (h : Keeps W A P i p Q s) (hinv : A.inv s)
    (hp : p = .call c k) : P s i c := by
  subst hp
  exact (h s.1 s.2 (A.rely_refl i _) hinv).1

lemma Keeps.returned {p : Prog Call Ret α} {Q : α → E × Γ → Prop} {s : E × Γ} {a : α}
    (h : Keeps W A P i p Q s) (hp : p = .done a) : Q a s := by
  subst hp
  exact h

/-- What a result must meet for the rest of a program to meet `Q`: an error is the end of it. -/
def Rest {S : Type} (F : α → S → Prop) (Q : Except ε β → S → Prop) : Except ε α → S → Prop
  | .ok a, s => F a s
  | .error err, s => Q (.error err) s

@[simp] lemma rest_ok {S : Type} (F : α → S → Prop) (Q : Except ε β → S → Prop) (a : α) (s : S) :
    Rest F Q (.ok a) s ↔ F a s := Iff.rfl

@[simp] lemma rest_error {S : Type} (F : α → S → Prop) (Q : Except ε β → S → Prop) (err : ε)
    (s : S) : Rest F Q (.error err) s ↔ Q (.error err) s := Iff.rfl

lemma keeps_bind_except (x : ExceptT ε (Prog Call Ret) α) (f : α → ExceptT ε (Prog Call Ret) β)
    (Q : Except ε β → E × Γ → Prop) (s : E × Γ) :
    Keeps W A P i (x >>= f).run Q s ↔
      Keeps W A P i x.run (Rest (fun a s' => Keeps W A P i (f a).run Q s') Q) s := by
  rw [ExceptT.run_bind, keeps_bind]
  refine ⟨fun h => h.mono ?_, fun h => h.mono ?_⟩ <;>
    · rintro (err | a) s' hr <;> exact hr

end Keeps

variable [DecidableEq ι]

/-- One client takes a turn: the call it waits for is answered. -/
inductive Turn (W : World E (ι × Call) fun c => Ret c.2) :
    (ι → Prog Call Ret α) × E → (ι → Prog Call Ret α) × E → Prop
  | answer {i : ι} {ps : ι → Prog Call Ret α} {c : Call} {k : Ret c → Prog Call Ret α}
      {e e' : E} {r : Ret c} : ps i = .call c k → W.reply e (i, c) r e' →
      Turn W (ps, e) (Function.update ps i (k r), e')

def Interleaved (W : World E (ι × Call) fun c => Ret c.2) :
    (ι → Prog Call Ret α) × E → (ι → Prog Call Ret α) × E → Prop :=
  Relation.ReflTransGen (Turn W)

variable {W : World E (ι × Call) fun c => Ret c.2} {A : Pact ι (E × Γ)}
  {P : E × Γ → ι → Call → Prop}

lemma Interleaved.turn {t : (ι → Prog Call Ret α) × E} {ps : ι → Prog Call Ret α} {e e' : E}
    (h : Interleaved W t (ps, e)) (i : ι) {c : Call} {k : Ret c → Prog Call Ret α} {r : Ret c}
    (hp : ps i = .call c k) (hr : W.reply e (i, c) r e') :
    Interleaved W t (Function.update ps i (k r), e') :=
  h.tail (.answer hp hr)

/-- If every client keeps the pact, then so does what is left of each of them, however their
calls interleave. -/
theorem Keeps.interleaved {Q : ι → α → E × Γ → Prop} {ps ps' : ι → Prog Call Ret α} {e e' : E}
    {g : Γ} (hQ : ∀ i a s s', Q i a s → A.rely i s s' → A.inv s' → Q i a s')
    (hinv : A.inv (e, g)) (h : ∀ i, Keeps W A P i (ps i) (Q i) (e, g))
    (hrun : Interleaved W (ps, e) (ps', e')) :
    ∃ g', A.inv (e', g') ∧ ∀ i, Keeps W A P i (ps' i) (Q i) (e', g') := by
  generalize hs : (ps', e') = t at hrun
  induction hrun generalizing ps' e' with
  | refl =>
    obtain ⟨rfl, rfl⟩ := Prod.mk.inj hs
    exact ⟨g, hinv, h⟩
  | tail _ hturn ih =>
    cases hturn with
    | @answer i qs c k e₁ e₂ r hcall hreply =>
      obtain ⟨rfl, rfl⟩ := Prod.mk.inj hs
      obtain ⟨g₁, hinv₁, hkeeps⟩ := ih rfl
      have hi := hkeeps i
      rw [hcall] at hi
      obtain ⟨g₂, hinv₂, hothers, hk⟩ := (hi e₁ g₁ (A.rely_refl i _) hinv₁).2 r _ hreply
      refine ⟨g₂, hinv₂, fun j => ?_⟩
      by_cases hj : j = i
      · subst hj
        rwa [Function.update_self]
      · rw [Function.update_of_ne hj]
        have hrely := hothers j hj
        exact (hkeeps j).stable (fun a hq => hQ j a _ _ hq hrely hinv₂) hrely

/-! Runs end: every turn leaves a smaller program. -/

inductive Remainder : Prog Call Ret α → Prog Call Ret α → Prop
  | answer {c : Call} {k : Ret c → Prog Call Ret α} (r : Ret c) : Remainder (k r) (.call c k)

lemma remainder_wf : WellFounded (Remainder : Prog Call Ret α → Prog Call Ret α → Prop) := by
  refine ⟨fun p => ?_⟩
  induction p with
  | done a => exact ⟨_, nofun⟩
  | call c k ih =>
    refine ⟨_, ?_⟩
    rintro _ ⟨r⟩
    exact ih r

def Stuck (W : World E (ι × Call) fun c => Ret c.2) (t : (ι → Prog Call Ret α) × E) : Prop :=
  ∀ t', ¬ Turn W t t'

lemma Stuck.no_reply {ps : ι → Prog Call Ret α} {e : E} (h : Stuck W (ps, e)) {i : ι} {c : Call}
    {k : Ret c → Prog Call Ret α} (hp : ps i = .call c k) (r : Ret c) (e' : E) :
    ¬ W.reply e (i, c) r e' :=
  fun hr => h _ (.answer hp hr)

lemma cutExpand_of_turn [Fintype ι] {t t' : (ι → Prog Call Ret α) × E} (h : Turn W t t') :
    Relation.CutExpand Remainder (Finset.univ.val.map t'.1) (Finset.univ.val.map t.1) := by
  cases h with
  | @answer i ps c k e e' r hp hr =>
    have hmem : i ∈ (Finset.univ : Finset ι).val := Finset.mem_univ i
    obtain ⟨rest, hrest⟩ := Multiset.exists_cons_of_mem hmem
    have hi : i ∉ rest := (Multiset.nodup_cons.mp (hrest ▸ Finset.univ.nodup)).1
    have hothers : rest.map (Function.update ps i (k r)) = rest.map ps := by
      apply Multiset.map_congr rfl
      intro j hj
      exact Function.update_of_ne (ne_of_mem_of_not_mem hj hi) _ _
    simp only [hrest, Multiset.map_cons, Function.update_self, hothers]
    rw [← Multiset.singleton_add, ← Multiset.singleton_add, Relation.cutExpand_add_right, hp]
    exact Relation.cutExpand_singleton_singleton (.answer r)

/-- Every state can be brought to one in which no client can take a turn. -/
theorem exists_stuck [Fintype ι] (t : (ι → Prog Call Ret α) × E) :
    ∃ t', Interleaved W t t' ∧ Stuck W t' := by
  have hwf := InvImage.wf (fun t : (ι → Prog Call Ret α) × E => Finset.univ.val.map t.1)
    remainder_wf.cutExpand
  induction t using hwf.induction with
  | _ t ih =>
    by_cases hstuck : Stuck W t
    · exact ⟨t, .refl, hstuck⟩
    · simp only [Stuck, not_forall, not_not] at hstuck
      obtain ⟨t₁, hturn⟩ := hstuck
      obtain ⟨t', hrun, hend⟩ := ih t₁ (cutExpand_of_turn hturn)
      exact ⟨t', .head hturn hrun, hend⟩

end Turbine.Library.Interleaving
