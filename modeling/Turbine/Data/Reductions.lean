import Turbine.DeepWait.Model
import Turbine.Library.Commands
import Turbine.Library.OrderedDict

/-! Reductions of arrays: how they wait for the members of an array, and what their bodies make of
an array whose members are all closed. -/

namespace Turbine.Data.Reductions

open Turbine.Library Turbine.Library.Programs Turbine.DeepWait

/-! ### Waiting for the members -/

-- one input and one nest level, and a list of two base types
def waitForMembers (container : ℕ) (nestLevel : ℤ) : Client Unit :=
  deeprule [.td container] [nestLevel] [.scalar "false", .scalar "false"] .user

def arrayMaxFloat (container : ℕ) : Client Unit := waitForMembers container 1

def arrayMinFloat (container : ℕ) : Client Unit := waitForMembers container 1

def reduceSumInteger (container : ℕ) : Client Unit := waitForMembers container 2

def reduceSpliceString (container : ℕ) : Client Unit := waitForMembers container 2

def alone (D : Contents) : World Server Call Call.Ret where
  reply s c r s' := Reply D s c r s'

/-- Whatever the server answers, the front half of a reduction ends without an error. -/
def RaisesNoError (front : Client Unit) : Prop :=
  ∀ D s, Prog.Meets (alone D) (fun _ _ => True) front.run (fun r _ => r = .ok ()) s

/-! ### The bodies -/

/-- Arrays and what is stored in their members. -/
structure Arrays (V : Type) where
  dict : ℕ → List (String × ℕ)
  nodup : ∀ c, ((dict c).map Prod.fst).Nodup
  value : ℕ → V

/-- The data allocated for the result, its members, and how often it was closed. -/
structure Store (V : Type) where
  next : ℕ
  stored : ℕ → Option V
  inserted : String → Option ℕ
  closes : ℕ

def emptyStore (V : Type) : Store V := ⟨0, fun _ => none, fun _ => none, 0⟩

abbrev Body (V : Type) : Type → Type := Cmd (Store V) String

variable {V : Type}

def literal (value : V) : Body V ℕ := fun s =>
  (.ok s.next, { s with next := s.next + 1, stored := Function.update s.stored s.next (some value) })

def containerInsert (subscript : String) (member : ℕ) : Body V Unit := fun s =>
  match s.inserted subscript with
  | some _ => (.error "double assign!", s)
  | none => (.ok (), { s with inserted := Function.update s.inserted subscript (some member) })

def writeRefcountDecr : Body V Unit := Cmd.modify fun s => { s with closes := s.closes + 1 }

def insertAll : List (String × V) → Body V Unit
  | [] => pure ()
  | (h, value) :: rest => do
    let s ← literal value
    containerInsert h s
    insertAll rest

-- `dict incr` starts from zero
def incrMembers (D : Arrays ℤ) : List (String × ℕ) → OrderedDict String ℤ → OrderedDict String ℤ
  | [], R => R
  | (h, td) :: members, R => incrMembers D members (R.set h ((R.get? h).getD 0 + D.value td))

def incrAll (D : Arrays ℤ) : List (String × ℕ) → OrderedDict String ℤ → OrderedDict String ℤ
  | [], R => R
  | (_, td) :: rest, R => incrAll D rest (incrMembers D (D.dict td) R)

def reduceSumIntegerBody (D : Arrays ℤ) (A : ℕ) : Body ℤ Unit := do
  insertAll (incrAll D (D.dict A) .empty).entries
  writeRefcountDecr

-- the message is put together, by a `join` over its words, before the check
def spliceMembers (join : String → String → Except String String) (D : Arrays String) :
    List (String × ℕ) → OrderedDict String String → Except String (OrderedDict String String)
  | [], R => .ok R
  | (h, td) :: members, R =>
    match R.get? h with
    | some t => do
      let x := D.value td
      let msg ← join s!"reduce_splice_string: for index {h}: " s!"{t} != {x}"
      if t = x then spliceMembers join D members R else .error msg
    | none => spliceMembers join D members (R.set h (D.value td))

def spliceAll (join : String → String → Except String String) (D : Arrays String) :
    List (String × ℕ) → OrderedDict String String → Except String (OrderedDict String String)
  | [], R => .ok R
  | (_, td) :: rest, R => do
    let R ← spliceMembers join D (D.dict td) R
    spliceAll join D rest R

def reduceSpliceStringBody (join : String → String → Except String String) (D : Arrays String)
    (S : ℕ) : Body String Unit := do
  let R ← Cmd.ofExcept (spliceAll join D (D.dict S) .empty)
  insertAll R.entries
  writeRefcountDecr

/-- Numbers, and the infinities that the search for an extremum starts with. -/
abbrev Extended := WithBot (WithTop ℚ)

def extremum (better : Extended → Extended → Prop) [DecidableRel better] (D : Arrays Extended)
    (container : ℕ) : List String → Extended → Except String Extended
  | [], m => .ok m
  | i :: rest, m =>
    match (D.dict container).lookup i with
    | none => .error "subscript not found"
    | some td =>
      extremum better D container rest (if better (D.value td) m then D.value td else m)

def arrayMaxFloatBody (D : Arrays Extended) (container : ℕ) : Except String Extended :=
  extremum (· > ·) D container ((D.dict container).map Prod.fst) ⊥

def arrayMinFloatBody (D : Arrays Extended) (container : ℕ) : Except String Extended :=
  extremum (· < ·) D container ((D.dict container).map Prod.fst) ⊤

/-! ### What is expected of the reductions -/

/-- The values at a subscript, of all inner arrays that have it. -/
def Arrays.valuesAt (D : Arrays V) (A : ℕ) (h : String) : List V :=
  (D.dict A).filterMap fun inner => ((D.dict inner.2).lookup h).map D.value

def Arrays.members (D : Arrays V) (container : ℕ) : List V :=
  (D.dict container).map fun e => D.value e.2

def Store.result (s : Store V) (h : String) : Option V := (s.inserted h).bind s.stored

def Arrays.sumAt (D : Arrays ℤ) (A : ℕ) (h : String) : Option ℤ :=
  if D.valuesAt A h = [] then none else some (D.valuesAt A h).sum

def Arrays.Agree (D : Arrays V) (S : ℕ) : Prop :=
  ∀ h, ∀ x ∈ D.valuesAt S h, ∀ y ∈ D.valuesAt S h, x = y

def SumMeets (D : Arrays ℤ) (A : ℕ) : Prop :=
  RaisesNoError (reduceSumInteger A) ∧
    Cmd.Ends (reduceSumIntegerBody D A) (emptyStore ℤ) fun _ s =>
      s.closes = 1 ∧ ∀ h, s.result h = D.sumAt A h

def SpliceMeets (join : String → String → Except String String) (D : Arrays String) (S : ℕ) :
    Prop :=
  RaisesNoError (reduceSpliceString S) ∧
    (D.Agree S → Cmd.Ends (reduceSpliceStringBody join D S) (emptyStore String) fun _ s =>
      s.closes = 1 ∧ ∀ h, s.result h = (D.valuesAt S h).head?) ∧
    (¬ D.Agree S → ∃ e s, reduceSpliceStringBody join D S (emptyStore String) = (.error e, s))

/-- Of no member the best is `best`, but of an array without members. -/
def IsExtremum (better : Extended → Extended → Prop) (D : Arrays Extended) (container : ℕ)
    (best : Extended) : Prop :=
  (∀ v ∈ D.members container, ¬ better v best) ∧
    (D.members container ≠ [] → best ∈ D.members container)

def MaxMeets (D : Arrays Extended) (container : ℕ) : Prop :=
  RaisesNoError (arrayMaxFloat container) ∧
    ∃ best, arrayMaxFloatBody D container = .ok best ∧ IsExtremum (· > ·) D container best

def MinMeets (D : Arrays Extended) (container : ℕ) : Prop :=
  RaisesNoError (arrayMinFloat container) ∧
    ∃ best, arrayMinFloatBody D container = .ok best ∧ IsExtremum (· < ·) D container best

/-! ### The bodies meet it -/

lemma literal_apply (value : V) (s : Store V) : literal value s = (.ok s.next,
    { s with next := s.next + 1, stored := Function.update s.stored s.next (some value) }) := rfl

lemma containerInsert_apply {h : String} {s : Store V} (td : ℕ) (hnew : s.inserted h = none) :
    containerInsert h td s =
      (.ok (), { s with inserted := Function.update s.inserted h (some td) }) := by
  unfold containerInsert
  rw [hnew]

structure Store.Wf (s : Store V) : Prop where
  inserted_lt : ∀ h td, s.inserted h = some td → td < s.next

lemma insertAll_ends (entries : List (String × V)) {s : Store V} (hwf : s.Wf)
    (hnodup : (entries.map Prod.fst).Nodup) (hnew : ∀ h ∈ entries.map Prod.fst, s.inserted h = none) :
    Cmd.Ends (insertAll entries) s fun _ s' =>
      s'.closes = s.closes ∧ ∀ h, s'.result h = (entries.lookup h).or (s.result h) := by
  induction entries generalizing s with
  | nil => exact Cmd.ends_pure ⟨rfl, fun _ => rfl⟩
  | cons entry rest ih =>
    obtain ⟨h, value⟩ := entry
    rw [List.map_cons, List.nodup_cons] at hnodup
    simp only [List.map_cons, List.forall_mem_cons] at hnew
    let s₁ : Store V := { s with next := s.next + 1
                                 stored := Function.update s.stored s.next (some value)
                                 inserted := Function.update s.inserted h (some s.next) }
    have hs₁ : insertAll ((h, value) :: rest) s = insertAll rest s₁ := by
      rw [insertAll, Cmd.bind_of_ok (literal_apply value s)]
      exact Cmd.bind_of_ok (containerInsert_apply s.next hnew.1)
    have hwf₁ : s₁.Wf := by
      constructor
      intro h' td htd
      change Function.update s.inserted h (some s.next) h' = some td at htd
      change td < s.next + 1
      by_cases hh : h' = h
      · rw [hh, Function.update_self] at htd
        obtain rfl := Option.some.inj htd
        exact Nat.lt_succ_self _
      · rw [Function.update_of_ne hh] at htd
        exact Nat.lt_succ_of_lt (hwf.inserted_lt h' td htd)
    have hresult : ∀ h', s₁.result h' = if h' = h then some value else s.result h' := by
      intro h'
      by_cases hh : h' = h
      · simp [s₁, Store.result, hh]
      · rw [if_neg hh]
        change (Function.update s.inserted h (some s.next) h').bind
          (Function.update s.stored s.next (some value)) = _
        rw [Function.update_of_ne hh, Store.result]
        cases htd : s.inserted h' with
        | none => rfl
        | some td =>
          have hlt := hwf.inserted_lt h' td htd
          simp [Function.update_of_ne hlt.ne]
    have hnew₁ : ∀ h' ∈ rest.map Prod.fst, s₁.inserted h' = none := by
      intro h' hmem
      have hh : h' ≠ h := fun heq => hnodup.1 (heq ▸ hmem)
      change Function.update s.inserted h (some s.next) h' = none
      rw [Function.update_of_ne hh]
      exact hnew.2 h' hmem
    obtain ⟨_, s', hends, hcloses, hlookup⟩ := ih hwf₁ hnodup.2 hnew₁
    refine ⟨(), s', hs₁.trans hends, hcloses, ?_⟩
    intro h'
    rw [hlookup, hresult, List.lookup_cons]
    by_cases hh : h' = h
    · subst hh
      have hnone : rest.lookup h' = none := by
        rw [List.lookup_eq_none_iff]
        intro e hmem
        simpa using fun heq => hnodup.1 (List.mem_map.mpr ⟨e, hmem, heq.symm⟩)
      simp [hnone]
    · have hbeq : (h' == h) = false := by simpa using hh
      simp [hbeq, hh]

/-- A dictionary is written out whole, and the result closed once. -/
lemma writeOut_ends (R : OrderedDict String V) :
    Cmd.Ends (do insertAll R.entries; writeRefcountDecr : Body V Unit) (emptyStore V) fun _ s =>
      s.closes = 1 ∧ ∀ h, s.result h = R.get? h := by
  have hinsert := insertAll_ends R.entries (s := emptyStore V)
    ⟨fun h td htd => by cases htd⟩ R.nodup fun _ _ => rfl
  apply hinsert.bind
  rintro _ s ⟨hcloses, hresult⟩
  refine ⟨(), _, rfl, congrArg (· + 1) hcloses, ?_⟩
  intro h
  exact (hresult h).trans (Option.or_none)

def accumulate (o : Option ℤ) (x : ℤ) : Option ℤ := some (o.getD 0 + x)

lemma incrMembers_get? (D : Arrays ℤ) (members : List (String × ℕ)) (R : OrderedDict String ℤ)
    (hnodup : (members.map Prod.fst).Nodup) (h : String) :
    (incrMembers D members R).get? h =
      ((members.lookup h).map D.value).toList.foldl accumulate (R.get? h) := by
  induction members generalizing R with
  | nil => rfl
  | cons e members ih =>
    obtain ⟨k, td⟩ := e
    rw [List.map_cons, List.nodup_cons] at hnodup
    rw [incrMembers, ih _ hnodup.2, OrderedDict.get?_set, List.lookup_cons]
    by_cases hh : h = k
    · subst hh
      have hnone : members.lookup h = none := by
        rw [List.lookup_eq_none_iff]
        intro e hmem
        simpa using fun heq => hnodup.1 (List.mem_map.mpr ⟨e, hmem, heq.symm⟩)
      simp [hnone, accumulate]
    · have hbeq : (h == k) = false := by simpa using hh
      simp [hbeq, hh]

lemma incrAll_get? (D : Arrays ℤ) (outer : List (String × ℕ)) (R : OrderedDict String ℤ)
    (h : String) : (incrAll D outer R).get? h =
      (outer.filterMap fun inner => ((D.dict inner.2).lookup h).map D.value).foldl accumulate
        (R.get? h) := by
  induction outer generalizing R with
  | nil => rfl
  | cons inner outer ih =>
    obtain ⟨i, td⟩ := inner
    rw [incrAll, ih, incrMembers_get? D _ R (D.nodup td) h, List.filterMap_cons]
    cases ((D.dict td).lookup h).map D.value <;> rfl

lemma foldl_accumulate (xs : List ℤ) (n : ℤ) : xs.foldl accumulate (some n) = some (n + xs.sum) := by
  induction xs generalizing n with
  | nil => simp
  | cons x xs ih => simp [accumulate, ih, add_assoc]

/-- The body of `reduce_sum_integer` stores the sums, once it is run. -/
theorem reduceSumIntegerBody_sums (D : Arrays ℤ) (A : ℕ) :
    Cmd.Ends (reduceSumIntegerBody D A) (emptyStore ℤ) fun _ s =>
      s.closes = 1 ∧ ∀ h, s.result h = D.sumAt A h := by
  apply (writeOut_ends (incrAll D (D.dict A) .empty)).mono
  rintro _ s ⟨hcloses, hresult⟩
  refine ⟨hcloses, fun h => ?_⟩
  rw [hresult, incrAll_get?, Arrays.sumAt, Arrays.valuesAt]
  generalize (D.dict A).filterMap _ = xs
  cases xs with
  | nil => rfl
  | cons x xs =>
    change xs.foldl accumulate (some (0 + x)) = _
    rw [foldl_accumulate, if_neg (List.cons_ne_nil x xs), List.sum_cons, zero_add]

section Extremum

variable {better : Extended → Extended → Prop} [DecidableRel better] (D : Arrays Extended)
  (container : ℕ)

lemma extremum_best (htrans : ∀ a b c, better a b → better b c → better a c)
    (hirrefl : ∀ a, ¬ better a a) (keys : List String) (m : Extended)
    (hkeys : ∀ h ∈ keys, h ∈ (D.dict container).map Prod.fst) :
    ∃ best, extremum better D container keys m = .ok best ∧ (best = m ∨ better best m) ∧
      (∀ h ∈ keys, ∀ td, (D.dict container).lookup h = some td → ¬ better (D.value td) best) ∧
      (best = m ∨ best ∈ D.members container) := by
  induction keys generalizing m with
  | nil => exact ⟨m, rfl, .inl rfl, by simp, .inl rfl⟩
  | cons i rest ih =>
    obtain ⟨⟨k, td⟩, hmem, rfl⟩ := List.mem_map.mp (hkeys i List.mem_cons_self)
    have hlookup : (D.dict container).lookup k = some td :=
      (OrderedDict.mem_entries_iff (d := ⟨D.dict container, D.nodup container⟩)).mp hmem
    obtain ⟨best, hbest, hup, hall, hfrom⟩ :=
      ih (if better (D.value td) m then D.value td else m) fun h hh => hkeys h (.tail _ hh)
    refine ⟨best, by rw [extremum, hlookup]; exact hbest, ?_⟩
    have hvalue : ¬ better (D.value td) best := by
      intro hbetter
      split at hup
      · rcases hup with rfl | hup
        · exact hirrefl _ hbetter
        · exact hirrefl _ (htrans _ _ _ hbetter hup)
      · rename_i hnot
        rcases hup with rfl | hup
        · exact hnot hbetter
        · exact hnot (htrans _ _ _ hbetter hup)
    have hfirst : ∀ h ∈ k :: rest, ∀ td', (D.dict container).lookup h = some td' →
        ¬ better (D.value td') best := by
      rw [List.forall_mem_cons]
      refine ⟨?_, hall⟩
      intro td' htd'
      obtain rfl := Option.some.inj (hlookup.symm.trans htd')
      exact hvalue
    split at hup
    · rename_i hbetter
      rw [if_pos hbetter] at hfrom
      refine ⟨.inr (hup.elim (fun heq => heq ▸ hbetter) fun h => htrans _ _ _ h hbetter), hfirst,
        .inr (hfrom.elim (fun heq => ?_) id)⟩
      exact heq ▸ List.mem_map.mpr ⟨(k, td), hmem, rfl⟩
    · rename_i hnot
      rw [if_neg hnot] at hfrom
      exact ⟨hup, hfirst, hfrom⟩

lemma extremum_isExtremum (htrans : ∀ a b c, better a b → better b c → better a c)
    (hirrefl : ∀ a, ¬ better a a) {m : Extended} (hworst : ∀ v, ¬ better v m → v = m) :
    ∃ best, extremum better D container ((D.dict container).map Prod.fst) m = .ok best ∧
      IsExtremum better D container best := by
  obtain ⟨best, hbest, -, hall, hfrom⟩ :=
    extremum_best D container htrans hirrefl ((D.dict container).map Prod.fst) m fun _ h => h
  have hmembers : ∀ v ∈ D.members container, ¬ better v best := by
    intro v hv
    obtain ⟨⟨k, td⟩, hmem, rfl⟩ := List.mem_map.mp hv
    exact hall k (List.mem_map.mpr ⟨_, hmem, rfl⟩) td
      ((OrderedDict.mem_entries_iff (d := ⟨D.dict container, D.nodup container⟩)).mp hmem)
  refine ⟨best, hbest, hmembers, fun hne => ?_⟩
  rcases hfrom with rfl | hfrom
  · obtain ⟨v, hv⟩ := List.exists_mem_of_ne_nil _ hne
    exact hworst v (hmembers v hv) ▸ hv
  · exact hfrom

end Extremum

theorem arrayMaxFloatBody_max (D : Arrays Extended) (container : ℕ) :
    ∃ best, arrayMaxFloatBody D container = .ok best ∧ IsExtremum (· > ·) D container best := by
  apply extremum_isExtremum
  · exact fun _ _ _ hab hbc => hbc.trans hab
  · exact fun a => lt_irrefl a
  · exact fun v hv => not_bot_lt_iff.mp hv

theorem arrayMinFloatBody_min (D : Arrays Extended) (container : ℕ) :
    ∃ best, arrayMinFloatBody D container = .ok best ∧ IsExtremum (· < ·) D container best := by
  apply extremum_isExtremum
  · exact fun _ _ _ hab hbc => hab.trans hbc
  · exact fun a => lt_irrefl a
  · exact fun v hv => not_lt_top_iff.mp hv

/-! ### No reduction comes to its body -/

lemma waitForMembers_fails (container : ℕ) (nestLevel : ℤ) :
    (waitForMembers container nestLevel).run =
      .done (.error "deeprule: list lengths do not agree: inputs and base_types") := rfl

lemma not_raisesNoError (container : ℕ) (nestLevel : ℤ) :
    ¬ RaisesNoError (waitForMembers container nestLevel) := by
  intro h
  have hok := h ⟨fun _ => [], fun _ => .td 0⟩ (start fun _ => true)
  rw [waitForMembers_fails] at hok
  cases hok

/-- A list of two base types does not go with one input: on every array each of the reductions
ends before it waits for anything. -/
theorem reductions_meet_never (container : ℕ) (ints : Arrays ℤ) (strings : Arrays String)
    (floats : Arrays Extended) (join : String → String → Except String String) :
    ¬ SumMeets ints container ∧ ¬ SpliceMeets join strings container ∧
      ¬ MaxMeets floats container ∧ ¬ MinMeets floats container :=
  ⟨fun h => not_raisesNoError container 2 h.1, fun h => not_raisesNoError container 2 h.1,
    fun h => not_raisesNoError container 1 h.1, fun h => not_raisesNoError container 1 h.1⟩

theorem not_reductions_meet : ¬ ∀ (D : Arrays ℤ) (A : ℕ), SumMeets D A := by
  intro h
  have hmeets := h ⟨fun c => if c = 0 then [("0", 1)] else if c = 1 then [("5", 2)] else [],
    fun c => by split_ifs <;> simp, fun _ => 7⟩ 0
  exact not_raisesNoError 0 2 hmeets.1

end Turbine.Data.Reductions
