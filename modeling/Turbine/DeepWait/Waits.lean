import Turbine.DeepWait.Pact

/-! What the procedures of a deep wait keep: rules for each call, then for each procedure. -/

namespace Turbine.DeepWait

open Turbine.Library.Programs Turbine.Library.Interleaving Turbine.Library.Obligations

variable {ι α β : Type} [Fintype ι]

def careful (G : Set ℕ) (t : Server × Ghost ι) (i : ι) : Call → Prop
  | .evalUser => G ⊆ t.1.closedSet
  | .getTask => t.2.held i = 0
  | .containerSize c | .enumerate c _ _ => c ∈ t.1.closedSet
  | _ => True

def Succeeds {S : Type} (Q : α → S → Prop) : Except String α → S → Prop
  | .ok a, t => Q a t
  | .error _, _ => False

/-- The client keeps the pact and does not fail. -/
def Waits (D : Contents) (G : Set ℕ) (i : ι) (x : Client α) (Q : α → Server × Ghost ι → Prop)
    (t : Server × Ghost ι) : Prop :=
  Keeps (server D) (pact D G) (careful G) i x.run (Succeeds Q) t

variable {D : Contents} {G : Set ℕ} {i : ι} {t : Server × Ghost ι} {rest : Multiset Duty}

@[simp] lemma waits_pure (a : α) (Q : α → Server × Ghost ι → Prop) :
    Waits D G i (pure a) Q t ↔ Q a t := Iff.rfl

lemma waits_bind (x : Client α) (f : α → Client β) (Q : β → Server × Ghost ι → Prop) :
    Waits D G i (x >>= f) Q t ↔ Waits D G i x (fun a t' => Waits D G i (f a) Q t') t := by
  rw [Waits, keeps_bind_except]
  refine ⟨fun h => h.mono ?_, fun h => h.mono ?_⟩
  · rintro (msg | a) t' hr
    · exact hr
    · exact hr
  · rintro (msg | a) t' hr
    · exact hr
    · exact hr

lemma Waits.mono {x : Client α} {Q Q' : α → Server × Ghost ι → Prop} (h : Waits D G i x Q t)
    (hq : ∀ a t', Q a t' → Q' a t') : Waits D G i x Q' t := by
  apply Keeps.mono h
  rintro (msg | a) t' hr
  · exact hr
  · exact hq a t' hr

/-! ### Calls -/

lemma waits_call {c : Call} {Q : c.Ret → Server × Ghost ι → Prop}
    (h : ∀ s g, Rely i t (s, g) → Inv D G (s, g) → careful G (s, g) i c ∧
      ∀ r s', Reply D s c r s' → ∃ g', Inv D G (s', g') ∧
        (∀ j, j ≠ i → Rely j (s, g) (s', g')) ∧ Q r (s', g')) :
    Waits D G i (call c) Q t := h

lemma waits_closed {td : Td} {Q : Bool → Server × Ghost ι → Prop}
    (hq : ∀ t', Inv D G t' → Rely i t t' → Q (t'.1.closed td) t') :
    Waits D G i (adlbClosed td) Q t := by
  apply waits_call
  intro s g hr hinv
  refine ⟨trivial, ?_⟩
  intro r s' hreply
  cases hreply with
  | closed => exact ⟨g, hinv, fun _ _ => .refl, hq _ hinv hr⟩

lemma waits_containerSize {c : ℕ} {Q : ℕ → Server × Ghost ι → Prop} (hc : c ∈ t.1.closedSet)
    (hq : ∀ t', Inv D G t' → Rely i t t' → Q (D.members c).length t') :
    Waits D G i (adlbContainerSize c) Q t := by
  apply waits_call
  intro s g hr hinv
  have hclosed : c ∈ s.closedSet := hr.grows.closed hc
  refine ⟨hclosed, ?_⟩
  intro r s' hreply
  cases hreply with
  | containerSize hn =>
    obtain rfl := hn hclosed
    exact ⟨g, hinv, fun _ _ => .refl, hq _ hinv hr⟩

lemma waits_enumerate {c offset : ℕ} {count : Option ℕ}
    {Q : List Value → Server × Ghost ι → Prop} (hc : c ∈ t.1.closedSet)
    (hq : ∀ t', Inv D G t' → Rely i t t' → Q (slice (D.members c) count offset) t') :
    Waits D G i (adlbEnumerate c count offset) Q t := by
  apply waits_call
  intro s g hr hinv
  have hclosed : c ∈ s.closedSet := hr.grows.closed hc
  refine ⟨hclosed, ?_⟩
  intro r s' hreply
  cases hreply with
  | enumerate hmembers =>
    obtain rfl := hmembers hclosed
    exact ⟨g, hinv, fun _ _ => .refl, hq _ hinv hr⟩

lemma waits_close {d : ℕ} {Q : Unit → Server × Ghost ι → Prop}
    (hq : ∀ t', Inv D G t' → t'.2.held i = t.2.held i → Q () t') :
    Waits D G i (close d) Q t := by
  apply waits_call
  intro s g hr hinv
  refine ⟨trivial, ?_⟩
  intro r s' hreply
  cases hreply with
  | close => exact ⟨g, hinv.close d, fun _ _ => .close d, hq _ (hinv.close d) hr.held⟩

variable [DecidableEq ι]

-- what a client has done, it no longer holds
lemma perform_turn {s : Server} {g : Ghost ι} {d : Duty} {Q : Server × Ghost ι → Prop}
    (hinv : Inv D G t) (hr : Rely i t (s, g)) (hinv' : Inv D G (s, g))
    (hd : t.2.held i = d ::ₘ rest) (hp : promise G t.2.needs d ⊆ t.1.closedSet)
    (hq : ∀ t', Inv D G t' → Grows t t' → t'.2.held i = rest → Q t') :
    ∃ g', Inv D G (s.perform d, g') ∧ (∀ j, j ≠ i → Rely j (s, g) (s.perform d, g')) ∧
      Q (s.perform d, g') := by
  have hd' : g.held i = d ::ₘ rest := hr.held.trans hd
  have hissued : d ∈ issued t.1.next :=
    hinv.balanced.held_issued (hd ▸ Multiset.mem_cons_self d rest)
  have hp' : promise G g.needs d ⊆ s.closedSet := by
    rw [hr.grows.promise_eq hissued]
    exact hp.trans hr.grows.closed
  have hperform := hinv'.perform hd' hp'
  refine ⟨g.hold i rest, hperform, fun j hj => .perform hj, hq _ hperform ?_ (hold_self g rest)⟩
  exact hr.grows.trans ⟨le_rfl, le_rfl, fun _ _ => rfl⟩

omit [DecidableEq ι] in
lemma done_of_held {s : Server} {g : Ghost ι} {d : Duty} (hr : Rely i t (s, g))
    (hinv' : Inv D G (s, g)) (hd : t.2.held i = d ::ₘ rest) : d ∉ s.done := by
  have hmem : d ∈ g.held i := hr.held.trans hd ▸ Multiset.mem_cons_self d rest
  simpa using (hinv'.balanced.onlyHeldBy (issued_nodup _) hmem).notMem_done

lemma waits_storeVoid {signal : ℕ} {Q : Unit → Server × Ghost ι → Prop} (hinv : Inv D G t)
    (hd : t.2.held i = .store signal ::ₘ rest) (hp : t.2.needs signal ⊆ t.1.closedSet)
    (hq : ∀ t', Inv D G t' → Grows t t' → t'.2.held i = rest → Q () t') :
    Waits D G i (storeVoid signal) Q t := by
  rw [storeVoid, waits_bind]
  apply waits_call
  intro s g hr hinv'
  refine ⟨trivial, ?_⟩
  intro r s' hreply
  cases hreply with
  | storeVoid =>
    have hnot := done_of_held hr hinv' hd
    simp only [hnot, not_false_eq_true, decide_true, if_true, waits_pure]
    exact perform_turn hinv hr hinv' hd hp hq

lemma waits_readRefcountDecr {signal : ℕ} {Q : Unit → Server × Ghost ι → Prop}
    (hinv : Inv D G t) (hd : t.2.held i = .release signal ::ₘ rest)
    (hq : ∀ t', Inv D G t' → Grows t t' → t'.2.held i = rest → Q () t') :
    Waits D G i (readRefcountDecr signal) Q t := by
  rw [readRefcountDecr, waits_bind]
  apply waits_call
  intro s g hr hinv'
  refine ⟨trivial, ?_⟩
  intro r s' hreply
  cases hreply with
  | readRefcountDecr =>
    have hnot := done_of_held hr hinv' hd
    simp only [hnot, not_false_eq_true, decide_true, if_true, waits_pure]
    exact perform_turn hinv hr hinv' hd (Set.empty_subset _) hq

lemma waits_evalUser {Q : Unit → Server × Ghost ι → Prop} (hinv : Inv D G t)
    (hd : t.2.held i = .eval ::ₘ rest) (hp : G ⊆ t.1.closedSet)
    (hq : ∀ t', Inv D G t' → Grows t t' → t'.2.held i = rest → Q () t') :
    Waits D G i evalUser Q t := by
  apply waits_call
  intro s g hr hinv'
  refine ⟨hp.trans hr.grows.closed, ?_⟩
  intro r s' hreply
  cases hreply with
  | evalUser => exact perform_turn hinv hr hinv' hd hp hq

lemma waits_allocateVoid {N : Set ℕ} {Q : ℕ → Server × Ghost ι → Prop} (hN : N ⊆ G)
    (hq : ∀ signal t', Inv D G t' → Grows t t' → t.1.next ≤ signal → signal < t'.1.next →
      t'.2.needs signal = N →
      t'.2.held i = .store signal ::ₘ .release signal ::ₘ t.2.held i →
      (∀ c, suspensions c signal t'.1 = []) → Q signal t') :
    Waits D G i allocateVoid Q t := by
  apply waits_call
  intro s g hr hinv
  refine ⟨trivial, ?_⟩
  intro r s' hreply
  cases hreply with
  | allocateVoid =>
    have hinv' : Inv D G (s.allocate, g.allocate i s.next N) := hinv.allocate hN
    refine ⟨_, hinv', fun j hj => .others (.allocate N) rfl rfl hj, ?_⟩
    apply hq _ _ hinv' (hr.grows.trans (.allocate N)) hr.grows.next (Nat.lt_succ_self _)
    · exact Function.update_self ..
    · rw [← hr.held]
      exact Function.update_self ..
    · exact fun c => hinv.unused c _ le_rfl

lemma waits_rule {inputs : List Td} {a : Action} {Q : Unit → Server × Ghost ι → Prop}
    (hinv : Inv D G t) (hsound : Sound D G ⟨inputs, a⟩ t) (ha : a.Advances D t.1)
    (hd : t.2.held i = a.duties + rest)
    (hq : ∀ t', Inv D G t' → Grows t t' → t'.2.held i = rest → Q () t') :
    Waits D G i (rule inputs a) Q t := by
  apply waits_call
  intro s g hr hinv'
  refine ⟨trivial, ?_⟩
  intro r s' hreply
  cases hreply with
  | rule =>
    have hmem := duty_mem_held hd
    have hsound' := hsound.grows hr.grows (hinv.balanced.held_issued hmem)
    have ha' : a.Advances D s := ha.congr fun signal hsignal => hr.log signal (hsignal ▸ hmem)
    have hd' : g.held i = a.duties + rest := hr.held.trans hd
    have hpost := hinv'.post hsound' ha' hd'
    exact ⟨_, hpost, fun j hj => .post hinv' hd' hj,
      hq _ hpost (hr.grows.trans .post) (hold_self g rest)⟩

lemma waits_getTask {Q : Action → Server × Ghost ι → Prop} (hd : t.2.held i = 0)
    (hq : ∀ a t', Inv D G t' → Taken D G a t' → t'.2.held i = a.duties → Q a t') :
    Waits D G i getTask Q t := by
  apply waits_call
  intro s g hr hinv
  have hd' : g.held i = 0 := hr.held.trans hd
  refine ⟨hd', ?_⟩
  intro a s' hreply
  cases hreply with
  | @getTask before r after hs hready =>
    have hmem : r ∈ s.rules := hs ▸ List.mem_append_right _ List.mem_cons_self
    have htake := hinv.take hd' hs
    have htaken := hinv.taken hmem hready
    refine ⟨_, htake, fun j hj => .others ⟨le_rfl, le_rfl, fun _ _ => rfl⟩ rfl rfl hj,
      hq _ _ htake ?_ (hold_self g _)⟩
    exact htaken.grows ⟨le_rfl, le_rfl, fun _ _ => rfl⟩ (hinv.duty_issued hmem) htaken.logged

end Turbine.DeepWait
