import Mathlib

/-! Runs of a partial step function: what one step preserves, a whole run preserves, and a
condition that is exact for one step is exact for the run. -/

namespace Turbine.Library.Runs

variable {S C F : Type*} (step : S → C → Except F S)

/-- No step of the run faults and every state it visits, the first included, satisfies `Inv`. -/
def Safe (Inv : S → Prop) : S → List C → Prop
  | s, [] => Inv s
  | s, c :: cs => Inv s ∧ ∃ s', step s c = .ok s' ∧ Safe Inv s' cs

/-- Every step the run makes meets the condition `Fits` on the state before it. -/
def Guarded (Fits : S → C → Prop) : S → List C → Prop
  | _, [] => True
  | s, c :: cs => Fits s c ∧ ∀ s', step s c = .ok s' → Guarded Fits s' cs

variable {step}

lemma Safe.head {Inv : S → Prop} {s : S} {cs : List C} (h : Safe step Inv s cs) : Inv s := by
  cases cs with
  | nil => exact h
  | cons c cs => exact h.1

lemma Safe.mono {Inv Inv' : S → Prop} (hi : ∀ s, Inv s → Inv' s) {s : S} {cs : List C}
    (h : Safe step Inv s cs) : Safe step Inv' s cs := by
  induction cs generalizing s with
  | nil => exact hi s h
  | cons c cs ih =>
    obtain ⟨hs, s', hstep, hrest⟩ := h
    exact ⟨hi s hs, s', hstep, ih hrest⟩

/-- A run whose steps all meet `Fits` is safe, if a step that meets it succeeds and keeps `Inv`. -/
theorem safe_of_guarded {Inv : S → Prop} {Fits : S → C → Prop}
    (hstep : ∀ s c, Inv s → Fits s c → ∃ s', step s c = .ok s' ∧ Inv s')
    {s : S} {cs : List C} (hs : Inv s) (h : Guarded step Fits s cs) : Safe step Inv s cs := by
  induction cs generalizing s with
  | nil => exact hs
  | cons c cs ih =>
    obtain ⟨hf, hrest⟩ := h
    obtain ⟨s', he, hi⟩ := hstep s c hs hf
    exact ⟨hs, s', he, ih hi (hrest s' he)⟩

/-- If in addition a step from a state with `Inv` reaches the weaker `Inv'` only when it meets
`Fits`, then `Fits` says exactly which runs are safe for `Inv'`. -/
theorem safe_iff_guarded {Inv Inv' : S → Prop} {Fits : S → C → Prop}
    (hweak : ∀ s, Inv s → Inv' s)
    (hstep : ∀ s c, Inv s → Fits s c → ∃ s', step s c = .ok s' ∧ Inv s')
    (hback : ∀ s c s', Inv s → step s c = .ok s' → Inv' s' → Fits s c)
    {s : S} (hs : Inv s) (cs : List C) : Safe step Inv' s cs ↔ Guarded step Fits s cs := by
  refine ⟨?_, fun h => (safe_of_guarded hstep hs h).mono hweak⟩
  induction cs generalizing s with
  | nil => exact fun _ => trivial
  | cons c cs ih =>
    rintro ⟨_, s', he, hsafe⟩
    have hf := hback s c s' hs he hsafe.head
    refine ⟨hf, ?_⟩
    intro s'' he'
    obtain rfl : s' = s'' := Except.ok.inj (he.symm.trans he')
    obtain ⟨s'', he'', hi⟩ := hstep s c hs hf
    obtain rfl : s' = s'' := Except.ok.inj (he.symm.trans he'')
    exact ih hi hsafe

/-- A run already known to be safe for `Inv` is safe for `Inv'` exactly when its steps meet
`Fits`, provided `Fits` is exact for one step between states with `Inv`. -/
theorem Safe.strengthen_iff {Inv Inv' : S → Prop} {Fits : S → C → Prop}
    (hstep : ∀ s c s', Inv s → Inv' s → step s c = .ok s' → Inv s' → (Inv' s' ↔ Fits s c))
    {s : S} {cs : List C} (hsafe : Safe step Inv s cs) (hs : Inv' s) :
    Safe step Inv' s cs ↔ Guarded step Fits s cs := by
  induction cs generalizing s with
  | nil => exact ⟨fun _ => trivial, fun _ => hs⟩
  | cons c cs ih =>
    obtain ⟨hi, s', he, hrest⟩ := hsafe
    have hexact := hstep s c s' hi hs he hrest.head
    constructor
    · rintro ⟨_, s'', he', hsafe'⟩
      obtain rfl : s' = s'' := Except.ok.inj (he.symm.trans he')
      refine ⟨hexact.mp hsafe'.head, ?_⟩
      intro s'' he''
      obtain rfl : s' = s'' := Except.ok.inj (he.symm.trans he'')
      exact (ih hrest hsafe'.head).mp hsafe'
    · rintro ⟨hf, hg⟩
      exact ⟨hs, s', he, (ih hrest (hexact.mpr hf)).mpr (hg s' he)⟩

/-! ### Steps with several outcomes -/

section Outcomes

variable (Step : S → C → S → Prop)

/-- Whatever the outcomes are, every step of the run is good. -/
def Always (Good : S → C → S → Prop) : S → List C → Prop
  | _, [] => True
  | s, c :: cs => ∀ t, Step s c t → Good s c t ∧ Always Good t cs

/-- Whatever the outcomes are, every step of the run meets the condition on the state before it. -/
def AlwaysMeets (Fits : S → C → Prop) : S → List C → Prop
  | _, [] => True
  | s, c :: cs => Fits s c ∧ ∀ t, Step s c t → AlwaysMeets Fits t cs

variable {Step}

/-- A condition that is exact for one step from a state with `Inv` is exact for whole runs. -/
theorem always_iff_meets {Inv : S → Prop} {Fits : S → C → Prop} {Good : S → C → S → Prop}
    (hkeep : ∀ s c t, Inv s → Fits s c → Step s c t → Inv t ∧ Good s c t)
    (hback : ∀ s c, Inv s → ¬ Fits s c → ∃ t, Step s c t ∧ ¬ Good s c t)
    {s : S} (hs : Inv s) (cs : List C) : Always Step Good s cs ↔ AlwaysMeets Step Fits s cs := by
  induction cs generalizing s with
  | nil => rfl
  | cons c cs ih =>
    constructor
    · intro h
      have hfits : Fits s c := by
        by_contra hnot
        obtain ⟨t, hstep, hbad⟩ := hback s c hs hnot
        exact hbad (h t hstep).1
      exact ⟨hfits, fun t hstep => (ih (hkeep s c t hs hfits hstep).1).mp (h t hstep).2⟩
    · rintro ⟨hfits, hrest⟩ t hstep
      obtain ⟨hi, hgood⟩ := hkeep s c t hs hfits hstep
      exact ⟨hgood, (ih hi).mpr (hrest t hstep)⟩

end Outcomes

end Turbine.Library.Runs
