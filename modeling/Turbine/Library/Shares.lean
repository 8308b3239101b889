import Turbine.Library.Commands

/-! Counted resources whose counts are made up of shares: some are stored in the state itself, the
others are held by those who act on it. Triples say what a command does with the shares it is given,
whatever the others hold. -/

namespace Turbine.Library.Shares

abbrev Share (R : Type) := R → ℕ

/-- The counts of a state, the shares of them that are stored in it, and the errors that have nothing
to do with them. -/
structure Accounts (S R E : Type) where
  count : S → Share R
  stored : S → Share R
  excused : E → Prop

variable {S R E α β : Type} {A : Accounts S R E} {Inv : S → Prop}

/-- Every share of a count is held or stored. -/
def Balanced (A : Accounts S R E) (held : Share R) (s : S) : Prop :=
  A.count s = held + A.stored s

/-- Given `h`, the command ends with `Q`, and all other shares are still where they were. -/
def Triple (A : Accounts S R E) (Inv : S → Prop) (h : Share R) (c : Cmd S E α) (Q : α → Share R) :
    Prop :=
  ∀ others s, Inv s → Balanced A (others + h) s →
    Cmd.Meets c s (fun a t => Inv t ∧ Balanced A (others + Q a) t) fun e _ => A.excused e

variable {h f : Share R} {c : Cmd S E α} {Q : α → Share R}

lemma triple_pure (a : α) (Q : α → Share R) : Triple A Inv (Q a) (pure a) Q :=
  fun _ _ hinv hb => Cmd.meets_pure ⟨hinv, hb⟩

lemma triple_return (a : α) (h : Share R) : Triple A Inv h (pure a : Cmd S E α) fun _ => h :=
  fun _ _ hinv hb => Cmd.meets_pure ⟨hinv, hb⟩

lemma Triple.bind {k : α → Cmd S E β} {T : β → Share R} (hc : Triple A Inv h c Q)
    (hk : ∀ a, Triple A Inv (Q a) (k a) T) : Triple A Inv h (c >>= k) T :=
  fun others s hinv hb => (hc others s hinv hb).bind fun a t ht => hk a others t ht.1 ht.2

/-- What a command is not given it leaves alone. -/
lemma Triple.frame (hc : Triple A Inv h c Q) (f : Share R) :
    Triple A Inv (h + f) c fun a => Q a + f := by
  intro others s hinv hb
  have hb' : Balanced A (others + f + h) s := by
    rw [add_assoc, add_comm f h]
    exact hb
  refine (hc (others + f) s hinv hb').mono fun a t ht => ⟨ht.1, ?_⟩
  have heq : others + (Q a + f) = others + f + Q a := by
    rw [add_assoc, add_comm f]
  rw [heq]
  exact ht.2

lemma Triple.congr {h' : Share R} {Q' : α → Share R} (hc : Triple A Inv h c Q) (hh : h' = h)
    (hQ : ∀ a, Q a = Q' a) : Triple A Inv h' c Q' := by
  subst hh
  obtain rfl : Q = Q' := funext hQ
  exact hc

/-- A command that takes a part of what is given and leaves the rest to what follows. -/
lemma Triple.seq {k : α → Cmd S E β} {T : β → Share R} (hc : Triple A Inv h c Q)
    (hk : ∀ a, Triple A Inv (Q a + f) (k a) T) : Triple A Inv (h + f) (c >>= k) T :=
  (hc.frame f).bind hk

lemma Triple.spend {k : α → Cmd S E β} {T : β → Share R} (hc : Triple A Inv h c fun _ => 0)
    (hk : ∀ a, Triple A Inv f (k a) T) : Triple A Inv (h + f) (c >>= k) T :=
  hc.seq fun a => (hk a).congr (zero_add f) fun _ => rfl

lemma Triple.query {k : α → Cmd S E β} {T : β → Share R} (hc : Triple A Inv 0 c fun _ => 0)
    (hk : ∀ a, Triple A Inv h (k a) T) : Triple A Inv h (c >>= k) T :=
  (hc.spend hk).congr (zero_add h).symm fun _ => rfl

lemma Balanced.held_le {held : Share R} {s : S} (hb : Balanced A held s) (r : R) :
    held r ≤ A.count s r := by
  rw [hb, Pi.add_apply]
  exact Nat.le_add_right _ _

lemma Balanced.stored_le {held : Share R} {s : S} (hb : Balanced A held s) (r : R) :
    A.stored s r ≤ A.count s r := by
  rw [hb, Pi.add_apply]
  exact Nat.le_add_left _ _

lemma Balanced.eq_zero_iff {held : Share R} {s : S} (hb : Balanced A held s) (r : R) :
    A.count s r = 0 ↔ held r = 0 ∧ A.stored s r = 0 := by
  rw [hb, Pi.add_apply, Nat.add_eq_zero_iff]

/-! ### Shares of one resource -/

section One

variable [DecidableEq R]

def one (r : R) : Share R := Pi.single r 1

@[simp] lemma one_self (r : R) : one r r = 1 := Pi.single_eq_same r 1

@[simp] lemma one_of_ne {r q : R} (h : q ≠ r) : one r q = 0 := Pi.single_eq_of_ne h 1

end One

/-! ### Shares of many holders -/

section Total

variable {H : Type} (owns : H → Share R)

def total (holders : Multiset H) : Share R := (holders.map owns).sum

@[simp] lemma total_zero : total owns 0 = 0 := rfl

@[simp] lemma total_cons (a : H) (holders : Multiset H) :
    total owns (a ::ₘ holders) = owns a + total owns holders := by
  simp [total]

lemma total_add (holders holders' : Multiset H) :
    total owns (holders + holders') = total owns holders + total owns holders' := by
  simp [total]

lemma total_apply (holders : Multiset H) (r : R) :
    total owns holders r = (holders.map fun a => owns a r).sum := by
  induction holders using Multiset.induction with
  | empty => rfl
  | cons a holders ih => rw [total_cons, Pi.add_apply, ih, Multiset.map_cons, Multiset.sum_cons]

lemma total_eq_zero_iff {holders : Multiset H} {r : R} :
    total owns holders r = 0 ↔ ∀ a ∈ holders, owns a r = 0 := by
  rw [total_apply, Multiset.sum_eq_zero_iff]
  simp

lemma owns_le_total {a : H} {holders : Multiset H} (ha : a ∈ holders) (r : R) :
    owns a r ≤ total owns holders r := by
  obtain ⟨rest, rfl⟩ := Multiset.exists_cons_of_mem ha
  rw [total_cons, Pi.add_apply]
  exact Nat.le_add_right _ _

end Total

end Turbine.Library.Shares
