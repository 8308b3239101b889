import Mathlib

/-! Commands of a script: each changes a state and returns a value or stops with an error, and
what was done before an error stays done. -/

namespace Turbine.Library

def Cmd (S E α : Type) := S → Except E α × S

namespace Cmd

variable {S E α β : Type}

def bind (c : Cmd S E α) (f : α → Cmd S E β) : Cmd S E β := fun s =>
  match c s with
  | (.ok a, t) => f a t
  | (.error e, t) => (.error e, t)

instance : Monad (Cmd S E) where
  pure a := fun s => (.ok a, s)
  bind := bind

instance : LawfulMonad (Cmd S E) :=
  LawfulMonad.mk' _
    (by
      intro α c
      funext s
      change bind c (fun a s => (.ok a, s)) s = c s
      unfold bind
      rcases c s with ⟨_ | a, t⟩ <;> rfl)
    (by intros; rfl)
    (by
      intro α β γ c f g
      funext s
      change bind (bind c f) g s = bind c (fun a => bind (f a) g) s
      unfold bind
      rcases c s with ⟨_ | a, t⟩ <;> rfl)

def throw (e : E) : Cmd S E α := fun s => (.error e, s)

def get : Cmd S E S := fun s => (.ok s, s)

def modify (f : S → S) : Cmd S E Unit := fun s => (.ok (), f s)

def ofExcept (r : Except E α) : Cmd S E α := fun s => (r, s)

@[simp] lemma pure_apply (a : α) (s : S) : (pure a : Cmd S E α) s = (.ok a, s) := rfl

@[simp] lemma throw_apply (e : E) (s : S) : (throw e : Cmd S E α) s = (.error e, s) := rfl

@[simp] lemma modify_apply (f : S → S) (s : S) : (modify f : Cmd S E Unit) s = (.ok (), f s) := rfl

@[simp] lemma ofExcept_apply (r : Except E α) (s : S) : (ofExcept r : Cmd S E α) s = (r, s) := rfl

lemma bind_apply (c : Cmd S E α) (f : α → Cmd S E β) (s : S) :
    (c >>= f) s = match c s with
      | (.ok a, t) => f a t
      | (.error e, t) => (.error e, t) := rfl

lemma map_apply (f : α → β) (c : Cmd S E α) (s : S) :
    (f <$> c) s = ((c s).1.map f, (c s).2) := by
  rw [map_eq_pure_bind, bind_apply]
  rcases c s with ⟨_ | a, t⟩ <;> rfl

lemma bind_of_ok {c : Cmd S E α} {f : α → Cmd S E β} {s t : S} {a : α} (h : c s = (.ok a, t)) :
    (c >>= f) s = f a t := by
  change bind c f s = f a t
  rw [bind, h]

lemma bind_of_error {c : Cmd S E α} {f : α → Cmd S E β} {s t : S} {e : E}
    (h : c s = (.error e, t)) : (c >>= f) s = (.error e, t) := by
  change bind c f s = (.error e, t)
  rw [bind, h]

lemma bind_eq_ok {c : Cmd S E α} {f : α → Cmd S E β} {s u : S} {b : β} :
    (c >>= f) s = (.ok b, u) ↔ ∃ a t, c s = (.ok a, t) ∧ f a t = (.ok b, u) := by
  rw [bind_apply]
  rcases c s with ⟨_ | a, t⟩ <;> simp

lemma modify_bind_apply (f : S → S) (c : Unit → Cmd S E α) (s : S) :
    (modify f >>= c) s = c () (f s) := rfl

/-- What holds of the state keeps holding, however the command ends. -/
def Keeps (c : Cmd S E α) (P : S → Prop) : Prop := ∀ s, P s → P (c s).2

lemma keeps_pure (a : α) (P : S → Prop) : Keeps (pure a : Cmd S E α) P := fun _ h => h

lemma keeps_throw (e : E) (P : S → Prop) : Keeps (throw e : Cmd S E α) P := fun _ h => h

lemma keeps_ofExcept (r : Except E α) (P : S → Prop) : Keeps (ofExcept r : Cmd S E α) P :=
  fun _ h => h

lemma keeps_modify {f : S → S} {P : S → Prop} (h : ∀ s, P s → P (f s)) :
    Keeps (modify f : Cmd S E Unit) P := h

lemma bind_keeps {c : Cmd S E α} {f : α → Cmd S E β} {P : S → Prop} {s : S} (hc : P (c s).2)
    (hf : ∀ a, Keeps (f a) P) : P ((c >>= f) s).2 := by
  rw [bind_apply]
  rcases hcs : c s with ⟨_ | a, t⟩ <;> rw [hcs] at hc
  · exact hc
  · exact hf a t hc

lemma Keeps.bind {c : Cmd S E α} {f : α → Cmd S E β} {P : S → Prop} (hc : Keeps c P)
    (hf : ∀ a, Keeps (f a) P) : Keeps (c >>= f) P :=
  fun s hs => bind_keeps (hc s hs) hf

lemma bind_snd {c : Cmd S E α} {f : α → Cmd S E β} (hf : ∀ a P, Keeps (f a) P) (s : S) :
    ((c >>= f) s).2 = (c s).2 :=
  bind_keeps (P := fun t => t = (c s).2) rfl fun a => hf a _

/-- Every error of the command is one of these. -/
def FailsWith (c : Cmd S E α) (P : E → Prop) : Prop := ∀ s e t, c s = (.error e, t) → P e

lemma failsWith_pure (a : α) (P : E → Prop) : FailsWith (pure a : Cmd S E α) P := by
  rintro s e t ⟨⟩

lemma failsWith_modify (f : S → S) (P : E → Prop) : FailsWith (modify f : Cmd S E Unit) P := by
  rintro s e t ⟨⟩

lemma failsWith_throw {e : E} {P : E → Prop} (h : P e) : FailsWith (throw e : Cmd S E α) P := by
  rintro s e t ⟨⟩
  exact h

lemma FailsWith.bind {c : Cmd S E α} {f : α → Cmd S E β} {P : E → Prop} (hc : FailsWith c P)
    (hf : ∀ s a t, c s = (.ok a, t) → FailsWith (f a) P) : FailsWith (c >>= f) P := by
  intro s e u h
  rw [bind_apply] at h
  rcases hcs : c s with ⟨e' | a, t⟩ <;> rw [hcs] at h
  · obtain ⟨he, -⟩ := Prod.mk.inj h
    obtain rfl := Except.error.inj he
    exact hc s _ t hcs
  · exact hf s a t hcs t e u h

@[simp] lemma throw_bind (e : E) (f : α → Cmd S E β) : (throw e >>= f) = throw e := rfl

/-- From `s` the command ends without an error in a result and a state with `Q`. -/
def Ends (c : Cmd S E α) (s : S) (Q : α → S → Prop) : Prop :=
  ∃ a t, c s = (.ok a, t) ∧ Q a t

variable {c : Cmd S E α} {s : S} {Q R : α → S → Prop}

lemma ends_pure {a : α} (h : Q a s) : Ends (pure a : Cmd S E α) s Q := ⟨a, s, rfl, h⟩

lemma Ends.bind {f : α → Cmd S E β} {T : β → S → Prop} (h : Ends c s Q)
    (hf : ∀ a t, Q a t → Ends (f a) t T) : Ends (c >>= f) s T := by
  obtain ⟨a, t, hc, hq⟩ := h
  obtain ⟨b, u, hb, hr⟩ := hf a t hq
  exact ⟨b, u, (bind_of_ok hc).trans hb, hr⟩

lemma bind_ends_of_ok {f : α → Cmd S E β} {t : S} {a : α} {T : β → S → Prop}
    (h : c s = (.ok a, t)) (hf : Ends (f a) t T) : Ends (c >>= f) s T := by
  rw [Ends, bind_of_ok h]
  exact hf

lemma Ends.mono (h : Ends c s Q) (hQ : ∀ a t, Q a t → R a t) : Ends c s R := by
  obtain ⟨a, t, hc, hq⟩ := h
  exact ⟨a, t, hc, hQ a t hq⟩

/-- A command ends in one state only. -/
lemma ends_eq_iff {f : S → β} {b b' : β} (h : Ends c s fun _ t => f t = b) :
    Ends c s (fun _ t => f t = b') ↔ b = b' := by
  obtain ⟨a, t, hc, rfl⟩ := h
  constructor
  · rintro ⟨a', t', hc', rfl⟩
    obtain ⟨-, rfl⟩ := Prod.mk.inj (hc.symm.trans hc')
    rfl
  · rintro rfl
    exact ⟨a, t, hc, rfl⟩

/-- From `s` the command ends with `Q`, or with an error and `T`. -/
def Meets (c : Cmd S E α) (s : S) (Q : α → S → Prop) (T : E → S → Prop) : Prop :=
  match c s with
  | (.ok a, t) => Q a t
  | (.error e, t) => T e t

section Meets

variable {T : E → S → Prop}

lemma meets_pure {a : α} (h : Q a s) : Meets (pure a : Cmd S E α) s Q T := h

lemma meets_throw {e : E} (h : T e s) : Meets (throw e : Cmd S E α) s Q T := h

lemma meets_of_ok {t : S} {a : α} (hc : c s = (.ok a, t)) (h : Q a t) : Meets c s Q T := by
  rw [Meets, hc]
  exact h

lemma meets_of_error {t : S} {e : E} (hc : c s = (.error e, t)) (h : T e t) : Meets c s Q T := by
  rw [Meets, hc]
  exact h

lemma Meets.of_ok {t : S} {a : α} (h : Meets c s Q T) (hc : c s = (.ok a, t)) : Q a t := by
  rwa [Meets, hc] at h

lemma Meets.of_error {t : S} {e : E} (h : Meets c s Q T) (hc : c s = (.error e, t)) : T e t := by
  rwa [Meets, hc] at h

lemma Meets.mono (h : Meets c s Q T) (hQ : ∀ a t, Q a t → R a t) : Meets c s R T := by
  unfold Meets at h ⊢
  rcases hcs : c s with ⟨e | a, t⟩ <;> rw [hcs] at h
  · exact h
  · exact hQ a t h

lemma Meets.bind {f : α → Cmd S E β} {Q' : β → S → Prop} (h : Meets c s Q T)
    (hf : ∀ a t, Q a t → Meets (f a) t Q' T) : Meets (c >>= f) s Q' T := by
  unfold Meets at h
  rcases hcs : c s with ⟨e | a, t⟩ <;> rw [hcs] at h
  · exact meets_of_error (bind_of_error hcs) h
  · rw [Meets, bind_of_ok hcs]
    exact hf a t h

end Meets

/-- Commands that read one after another in one state: all of them end, or the first that does not
ends them. -/
lemma mapM_reads {f : α → Cmd S E β} {l : List α} (h : ∀ a ∈ l, ∃ r, f a s = (r, s)) :
    (∃ bs, l.mapM f s = (.ok bs, s) ∧ List.Forall₂ (fun a b => f a s = (.ok b, s)) l bs) ∨
      ∃ a ∈ l, ∃ e, f a s = (.error e, s) ∧ l.mapM f s = (.error e, s) := by
  induction l with
  | nil => exact .inl ⟨[], rfl, .nil⟩
  | cons a l ih =>
    obtain ⟨⟨r, hr⟩, hl⟩ := List.forall_mem_cons.mp h
    rw [List.mapM_cons]
    cases r with
    | error e => exact .inr ⟨a, .head _, e, hr, bind_of_error hr⟩
    | ok b =>
      rcases ih hl with ⟨bs, hbs, hall⟩ | ⟨c, hc, e, he, hbs⟩
      · exact .inl ⟨b :: bs, by rw [bind_of_ok hr, bind_of_ok hbs, pure_apply], .cons hr hall⟩
      · exact .inr ⟨c, .tail _ hc, e, he, by rw [bind_of_ok hr, bind_of_error hbs]⟩

end Cmd

end Turbine.Library
