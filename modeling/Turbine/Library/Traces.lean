import Mathlib
import Turbine.Library.Programs

/-! Recorded runs: what a program has asked and been answered, in order, and the turns of a loop. -/

namespace Turbine.Library.Programs

variable {Call M σ α β : Type} {Ret : Call → Type}

abbrev Event (Ret : Call → Type) := Σ c, Ret c

def recorder (Legal : (c : Call) → Ret c → Prop) :
    World (List (Event Ret)) (M × Call) fun mc => Ret mc.2 where
  reply tr mc r tr' := Legal mc.2 r ∧ tr' = tr ++ [⟨mc.2, r⟩]

variable {Legal : (c : Call) → Ret c → Prop}

namespace Prog

lemma Meets.and {E : Type} {W : World E Call Ret} {P : E → Call → Prop} {p : Prog Call Ret α}
    {Q R : α → E → Prop} {e : E} (hQ : p.Meets W P Q e) (hR : p.Meets W P R e) :
    p.Meets W P (fun a e' => Q a e' ∧ R a e') e := by
  induction p generalizing e with
  | done a => exact ⟨hQ, hR⟩
  | call c k ih => exact ⟨hQ.1, fun r e' hr => ih r (hQ.2 r e' hr) (hR.2 r e' hr)⟩

lemma run_shift {p p' : Prog (M × Call) (fun mc => Ret mc.2) α} {tr tr' : List (Event Ret)}
    (h : Run (recorder Legal) (p, tr) (p', tr')) (before : List (Event Ret)) :
    Run (recorder Legal) (p, before ++ tr) (p', before ++ tr') := by
  generalize hs : (p', tr') = s at h
  induction h generalizing p' tr' with
  | refl =>
    obtain ⟨rfl, rfl⟩ := Prod.mk.inj hs
    exact .refl
  | tail _ hstep ih =>
    cases hstep with
    | answer hreply =>
      obtain ⟨rfl, rfl⟩ := Prod.mk.inj hs
      obtain ⟨hlegal, rfl⟩ := hreply
      exact (ih rfl).tail (.answer ⟨hlegal, (List.append_assoc _ _ _).symm⟩)

lemma meets_recorded (p : Prog (M × Call) (fun mc => Ret mc.2) α) (tr : List (Event Ret)) :
    p.Meets (recorder Legal) (fun _ _ => True)
      (fun a tr' => ∃ t, tr' = tr ++ t ∧ Run (recorder Legal) (p, []) (.done a, t)) tr := by
  induction p generalizing tr with
  | done a => exact ⟨[], (List.append_nil _).symm, .refl⟩
  | call c k ih =>
    refine ⟨trivial, ?_⟩
    rintro r _ ⟨hlegal, rfl⟩
    apply (ih r (tr ++ [Sigma.mk c.2 r])).mono
    rintro a _ ⟨t, rfl, hrun⟩
    refine ⟨Sigma.mk c.2 r :: t, by simp, ?_⟩
    exact Run.answer ⟨hlegal, rfl⟩ (run_shift hrun [Sigma.mk c.2 r])

end Prog

namespace Code

/-- Whatever legal answers the code gets from `m` on, `Q` holds of its result, of the memory it
leaves and of what it has asked and been answered. -/
def Traces (Legal : (c : Call) → Ret c → Prop) (x : Code M Call Ret α) (m : M)
    (Q : α → M → List (Event Ret) → Prop) : Prop :=
  ∀ tr, x.Meets (recorder Legal) (fun _ _ => True) (fun a m' tr' => ∃ t, tr' = tr ++ t ∧ Q a m' t)
    m tr

variable {x : Code M Call Ret α} {m : M} {Q R : α → M → List (Event Ret) → Prop}

lemma traces_pure {a : α} (h : Q a m []) : Traces Legal (pure a) m Q :=
  fun tr => ⟨[], (List.append_nil tr).symm, h⟩

lemma traces_ask {c : Call} {Q : Ret c → M → List (Event Ret) → Prop}
    (h : ∀ r, Legal c r → Q r m [⟨c, r⟩]) : Traces Legal (ask c) m Q := by
  refine fun tr => ⟨trivial, ?_⟩
  rintro r _ ⟨hlegal, rfl⟩
  exact ⟨[⟨c, r⟩], rfl, h r hlegal⟩

lemma Traces.mono (h : Traces Legal x m Q) (hQ : ∀ a m' t, Q a m' t → R a m' t) :
    Traces Legal x m R := by
  intro tr
  apply (h tr).mono
  rintro a m' _ ⟨t, rfl, hq⟩
  exact ⟨t, rfl, hQ a m' t hq⟩

lemma Traces.bind {f : α → Code M Call Ret β} {T : β → M → List (Event Ret) → Prop}
    (h : Traces Legal x m Q)
    (hf : ∀ a m' t, Q a m' t → Traces Legal (f a) m' fun b m'' t' => T b m'' (t ++ t')) :
    Traces Legal (x >>= f) m T := by
  intro tr
  rw [meets_bind]
  apply (h tr).mono
  rintro a m' _ ⟨t, rfl, hq⟩
  apply (hf a m' t hq (tr ++ t)).mono
  rintro b m'' _ ⟨t', rfl, hT⟩
  exact ⟨t ++ t', List.append_assoc _ _ _, hT⟩

lemma traces_get_bind {f : M → Code M Call Ret β} {T : β → M → List (Event Ret) → Prop}
    (h : Traces Legal (f m) m T) : Traces Legal ((get : Code M Call Ret M) >>= f) m T := h

lemma traces_modify_bind {g : M → M} {f : PUnit → Code M Call Ret β}
    {T : β → M → List (Event Ret) → Prop} (h : Traces Legal (f ⟨⟩) (g m) T) :
    Traces Legal ((modify g : Code M Call Ret PUnit) >>= f) m T := h

lemma traces_ask_bind {c : Call} {f : Ret c → Code M Call Ret β}
    {T : β → M → List (Event Ret) → Prop}
    (h : ∀ r, Legal c r → Traces Legal (f r) m fun b m' t => T b m' (⟨c, r⟩ :: t)) :
    Traces Legal (ask c >>= f) m T := by
  apply (traces_ask (Q := fun r m' t => m' = m ∧ Legal c r ∧ t = [⟨c, r⟩])
    fun r hr => ⟨rfl, hr, rfl⟩).bind
  rintro r _ _ ⟨rfl, hr, rfl⟩
  exact h r hr

/-- What was asked is a run of the code. -/
lemma Traces.recorded (h : Traces Legal x m Q) : Traces Legal x m fun a m' t =>
    Q a m' t ∧ Prog.Run (recorder Legal) (x m, []) (.done (a, m'), t) := by
  intro tr
  apply ((h tr).and (Prog.meets_recorded (x m) tr)).mono
  rintro ⟨a, m'⟩ _ ⟨⟨t, rfl, hq⟩, t', ht, hrun⟩
  obtain rfl := List.append_cancel_left ht
  exact ⟨t, rfl, hq, hrun⟩

lemma traces_true : Traces Legal x m fun _ _ _ => True := by
  intro tr
  apply (Prog.meets_recorded (x m) tr).mono
  rintro _ _ ⟨t, rfl, -⟩
  exact ⟨t, rfl, trivial⟩

lemma Traces.run {a : α} {m' : M} {t : List (Event Ret)} (h : Traces Legal x m Q)
    (hrun : Prog.Run (recorder Legal) (x m, []) (.done (a, m'), t)) : Q a m' t := by
  obtain ⟨t', ht, hq⟩ := Prog.Meets.returned (h []) hrun
  rw [List.nil_append] at ht
  exact ht ▸ hq

/-- A loop that has gone round `n` times has made `n` whole turns. -/
lemma traces_loop (Inv : σ → M → Prop) (T : List (Event Ret) → Prop)
    {body : σ → Code M Call Ret (σ ⊕ α)}
    (hbody : ∀ s m, Inv s m →
      Traces Legal (body s) m fun r m' t => ∀ s', r = .inl s' → Inv s' m' ∧ T t)
    (n : ℕ) {s : σ} {m : M} (h : Inv s m) :
    Traces Legal (loop body n s) m fun r _ tr => r = none →
      ∃ turns : List (List (Event Ret)),
        tr = turns.flatten ∧ turns.length = n ∧ ∀ t ∈ turns, T t := by
  induction n generalizing s m with
  | zero => exact traces_pure fun _ => ⟨[], rfl, rfl, by simp⟩
  | succ n ih =>
    rw [loop]
    apply (hbody s m h).bind
    rintro (s' | a) m' t hturn
    · obtain ⟨hinv, ht⟩ := hturn s' rfl
      apply (ih hinv).mono
      intro r m'' tr hr hnone
      obtain ⟨turns, rfl, hlen, hall⟩ := hr hnone
      exact ⟨t :: turns, rfl, by rw [List.length_cons, hlen],
        List.forall_mem_cons.mpr ⟨ht, hall⟩⟩
    · exact traces_pure fun hnone => by cases hnone

end Code

end Turbine.Library.Programs
