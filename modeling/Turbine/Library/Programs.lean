import Mathlib

/-! Programs that ask their environment for every effect: the steps a world can answer them
with, and rules of pre- and postconditions for what they ask and what they return. -/

namespace Turbine.Library.Programs

/-- A program asks for a call and goes on with the answer, until it returns. -/
inductive Prog (Call : Type) (Ret : Call → Type) (α : Type)
  | done (a : α)
  | call (c : Call) (k : Ret c → Prog Call Ret α)

/-- How an environment in state `e` may answer a call, and the state it is then in. -/
structure World (E Call : Type) (Ret : Call → Type) where
  reply : E → (c : Call) → Ret c → E → Prop

variable {E Call : Type} {Ret : Call → Type} {α β : Type}

namespace Prog

def bind : Prog Call Ret α → (α → Prog Call Ret β) → Prog Call Ret β
  | done a, f => f a
  | call c k, f => call c fun r => (k r).bind f

instance : Monad (Prog Call Ret) where
  pure := done
  bind := bind

@[simp] lemma pure_eq (a : α) : (pure a : Prog Call Ret α) = done a := rfl

@[simp] lemma done_bind (a : α) (f : α → Prog Call Ret β) : (done a >>= f) = f a := rfl

@[simp] lemma call_bind (c : Call) (k : Ret c → Prog Call Ret α) (f : α → Prog Call Ret β) :
    (call c k >>= f) = call c fun r => k r >>= f := rfl

/-- Whatever `W` answers, every call meets `P` when it is made and a result meets `Q`. -/
def Meets (W : World E Call Ret) (P : E → Call → Prop) :
    Prog Call Ret α → (α → E → Prop) → E → Prop
  | done a, Q, e => Q a e
  | call c k, Q, e => P e c ∧ ∀ r e', W.reply e c r e' → (k r).Meets W P Q e'

variable {W : World E Call Ret} {P : E → Call → Prop}

@[simp] lemma meets_done (a : α) (Q : α → E → Prop) (e : E) :
    (done a : Prog Call Ret α).Meets W P Q e ↔ Q a e := Iff.rfl

@[simp] lemma meets_call (c : Call) (k : Ret c → Prog Call Ret α) (Q : α → E → Prop) (e : E) :
    (call c k).Meets W P Q e ↔ P e c ∧ ∀ r e', W.reply e c r e' → (k r).Meets W P Q e' := Iff.rfl

lemma meets_bind (p : Prog Call Ret α) (f : α → Prog Call Ret β) (Q : β → E → Prop) (e : E) :
    (p >>= f).Meets W P Q e ↔ p.Meets W P (fun a e' => (f a).Meets W P Q e') e := by
  induction p generalizing e with
  | done a => rfl
  | call c k ih => simp only [call_bind, meets_call, ih]

lemma Meets.mono {p : Prog Call Ret α} {Q Q' : α → E → Prop} {e : E} (h : p.Meets W P Q e)
    (hq : ∀ a e', Q a e' → Q' a e') : p.Meets W P Q' e := by
  induction p generalizing e with
  | done a => exact hq a e h
  | call c k ih => exact ⟨h.1, fun r e' hr => ih r (h.2 r e' hr)⟩

inductive Step (W : World E Call Ret) : Prog Call Ret α × E → Prog Call Ret α × E → Prop
  | answer {c : Call} {k : Ret c → Prog Call Ret α} {e e' : E} {r : Ret c} :
      W.reply e c r e' → Step W (call c k, e) (k r, e')

/-- What is left of the program and the state of its world, after some of its calls. -/
def Run (W : World E Call Ret) : Prog Call Ret α × E → Prog Call Ret α × E → Prop :=
  Relation.ReflTransGen (Step W)

lemma Run.answer {c : Call} {k : Ret c → Prog Call Ret α} {e e' : E} {r : Ret c}
    {t : Prog Call Ret α × E} (hr : W.reply e c r e') (h : Run W (k r, e') t) :
    Run W (call c k, e) t :=
  .head (.answer hr) h

lemma Meets.run {p p' : Prog Call Ret α} {Q : α → E → Prop} {e e' : E} (h : p.Meets W P Q e)
    (hr : Run W (p, e) (p', e')) : p'.Meets W P Q e' := by
  generalize hs : (p', e') = s at hr
  induction hr generalizing p' e' with
  | refl =>
    obtain ⟨rfl, rfl⟩ := Prod.mk.inj hs
    exact h
  | tail _ hstep ih =>
    cases hstep with
    | answer hreply =>
      obtain ⟨rfl, rfl⟩ := Prod.mk.inj hs
      exact (ih rfl).2 _ _ hreply

/-- The call a run is stopped at meets the precondition. -/
lemma Meets.asked {p : Prog Call Ret α} {Q : α → E → Prop} {e e' : E} {c : Call}
    {k : Ret c → Prog Call Ret α} (h : p.Meets W P Q e) (hr : Run W (p, e) (call c k, e')) :
    P e' c :=
  (h.run hr).1

lemma Meets.returned {p : Prog Call Ret α} {Q : α → E → Prop} {e e' : E} {a : α}
    (h : p.Meets W P Q e) (hr : Run W (p, e) (done a, e')) : Q a e' :=
  h.run hr

end Prog

/-! Programs with memory: every call is made with the memory as it stands. -/

abbrev Code (M Call : Type) (Ret : Call → Type) : Type → Type :=
  StateT M (Prog (M × Call) fun c => Ret c.2)

namespace Code

variable {M σ : Type}

def ask (c : Call) : Code M Call Ret (Ret c) :=
  fun m => .call (m, c) fun r => .done (r, m)

/-- A `while (true)` loop that goes round at most `n` times. -/
def loop (body : σ → Code M Call Ret (σ ⊕ α)) : ℕ → σ → Code M Call Ret (Option α)
  | 0, _ => pure none
  | n + 1, s => do
    match ← body s with
    | .inl s' => loop body n s'
    | .inr a => pure (some a)

variable {W : World E (M × Call) fun c => Ret c.2} {P : E → M × Call → Prop}

/-- As for a program; the result is judged together with the memory it leaves. -/
def Meets (W : World E (M × Call) fun c => Ret c.2) (P : E → M × Call → Prop)
    (x : Code M Call Ret α) (Q : α → M → E → Prop) (m : M) (e : E) : Prop :=
  Prog.Meets W P (x m) (fun r e' => Q r.1 r.2 e') e

@[simp] lemma meets_pure (a : α) (Q : α → M → E → Prop) (m : M) (e : E) :
    (pure a : Code M Call Ret α).Meets W P Q m e ↔ Q a m e := Iff.rfl

@[simp] lemma meets_bind (x : Code M Call Ret α) (f : α → Code M Call Ret β)
    (Q : β → M → E → Prop) (m : M) (e : E) :
    (x >>= f).Meets W P Q m e ↔
      x.Meets W P (fun a m' e' => (f a).Meets W P Q m' e') m e :=
  Prog.meets_bind (x m) (fun r => f r.1 r.2) _ e

@[simp] lemma meets_get (Q : M → M → E → Prop) (m : M) (e : E) :
    (get : Code M Call Ret M).Meets W P Q m e ↔ Q m m e := Iff.rfl

@[simp] lemma meets_modify (f : M → M) (Q : PUnit → M → E → Prop) (m : M) (e : E) :
    (modify f : Code M Call Ret PUnit).Meets W P Q m e ↔ Q ⟨⟩ (f m) e := Iff.rfl

@[simp] lemma meets_ask (c : Call) (Q : Ret c → M → E → Prop) (m : M) (e : E) :
    (ask c : Code M Call Ret (Ret c)).Meets W P Q m e ↔
      P e (m, c) ∧ ∀ r e', W.reply e (m, c) r e' → Q r m e' := Iff.rfl

lemma Meets.mono {x : Code M Call Ret α} {Q Q' : α → M → E → Prop} {m : M} {e : E}
    (h : x.Meets W P Q m e) (hq : ∀ a m' e', Q a m' e' → Q' a m' e') : x.Meets W P Q' m e :=
  Prog.Meets.mono h fun r e' hr => hq r.1 r.2 e' hr

/-- An invariant of the loop's head holds however often the loop goes round. -/
lemma meets_loop (Inv : σ → M → E → Prop) {body : σ → Code M Call Ret (σ ⊕ α)}
    {Q : α → M → E → Prop}
    (hbody : ∀ s m e, Inv s m e →
      (body s).Meets W P (fun r m' e' => Sum.elim (Inv · m' e') (Q · m' e') r) m e)
    (n : ℕ) {s : σ} {m : M} {e : E} (h : Inv s m e) :
    (loop body n s).Meets W P (fun r m' e' => ∀ a, r = some a → Q a m' e') m e := by
  induction n generalizing s m e with
  | zero => simp [loop]
  | succ n ih =>
    simp only [loop, meets_bind]
    apply (hbody s m e h).mono
    rintro (s' | a) m' e' hr
    · exact ih hr
    · simpa using hr

end Code

end Turbine.Library.Programs
