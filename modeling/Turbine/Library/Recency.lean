import Mathlib

/-! Histories of stores and reads of keys, the latest first: which keys a cache of bounded size
keeps when it makes room by dropping the one whose last use is the oldest. -/

namespace Turbine.Library.Recency

variable {K V : Type*}

inductive Use (K V : Type*)
  | put (k : K) (v : V)
  | get (k : K)

def Use.key : Use K V → K
  | .put k _ => k
  | .get k => k

variable [DecidableEq K]

/-- When a key was last used, counted from one; zero if it never was. -/
def lastUse : List (Use K V) → K → ℕ
  | [], _ => 0
  | u :: us, k => if u.key = k then us.length + 1 else lastUse us k

def lastPut : List (Use K V) → K → Option V
  | [], _ => none
  | .put k' v :: us, k => if k' = k then some v else lastPut us k
  | .get _ :: us, k => lastPut us k

def Oldest (us : List (Use K V)) (ks : Finset K) (old : K) : Prop :=
  old ∈ ks ∧ ∀ k ∈ ks, k ≠ old → lastUse us old < lastUse us k

/-- The keys that a cache with the given room keeps. -/
inductive Kept (room : ℕ) : List (Use K V) → Finset K → Prop
  | nil : Kept room [] ∅
  | get {us ks k} : Kept room us ks → Kept room (.get k :: us) ks
  | add {us ks k v} : Kept room us ks → ks.card < room → Kept room (.put k v :: us) (insert k ks)
  | evict {us ks k v old} : Kept room us ks → ks.card = room → Oldest us ks old →
      Kept room (.put k v :: us) (insert k (ks.erase old))

lemma lastUse_le (us : List (Use K V)) (k : K) : lastUse us k ≤ us.length := by
  induction us with
  | nil => exact le_rfl
  | cons u us ih =>
    rw [lastUse]
    split
    · exact le_rfl
    · exact ih.trans (Nat.le_succ _)

lemma lastUse_self (us : List (Use K V)) (u : Use K V) :
    lastUse (u :: us) u.key = us.length + 1 := by
  simp [lastUse]

lemma lastUse_of_ne {us : List (Use K V)} {u : Use K V} {k : K} (h : u.key ≠ k) :
    lastUse (u :: us) k = lastUse us k := by
  simp [lastUse, h]

/-- Any other key was used before the last use. -/
lemma lastUse_lt_self {us : List (Use K V)} {u : Use K V} {k : K} (h : u.key ≠ k) :
    lastUse (u :: us) k < lastUse (u :: us) u.key := by
  rw [lastUse_of_ne h, lastUse_self]
  exact Nat.lt_succ_of_le (lastUse_le us k)

lemma lastPut_of_ne {us : List (Use K V)} {u : Use K V} {k : K} (h : u.key ≠ k) :
    lastPut (u :: us) k = lastPut us k := by
  cases u with
  | put k' v => exact if_neg h
  | get k' => rfl

theorem Oldest.unique {us : List (Use K V)} {ks : Finset K} {a b : K} (ha : Oldest us ks a)
    (hb : Oldest us ks b) : a = b := by
  by_contra hne
  exact lt_asymm (ha.2 b hb.1 (Ne.symm hne)) (hb.2 a ha.1 hne)

theorem Kept.unique {room : ℕ} {us : List (Use K V)} {ks ks' : Finset K} (h : Kept room us ks)
    (h' : Kept room us ks') : ks = ks' := by
  induction h generalizing ks' with
  | nil => cases h'; rfl
  | get _ ih => cases h' with | get h' => exact ih h'
  | add _ hroom ih =>
    cases h' with
    | add h' => rw [ih h']
    | evict h' hfull =>
      rw [ih h'] at hroom
      omega
  | evict _ hfull hold ih =>
    cases h' with
    | add h' hroom =>
      rw [ih h'] at hfull
      omega
    | evict h' _ hold' =>
      obtain rfl := ih h'
      rw [hold.unique hold']

end Turbine.Library.Recency
