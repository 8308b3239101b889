import Turbine.Codec.Checkpoint

/-! Which argument lists `get_compound_type` takes, and how it ends on the others. -/

namespace Turbine.Codec

open Tcl Adlb Library

variable {Obj D : Type} (E : Env Obj D) (names : TypeNames)

/-- No struct is a key. -/
def CompoundTy.ScalarKeys : CompoundTy → Prop
  | .leaf _ _ _ => True
  | .container k v => k ≠ .struct ∧ v.ScalarKeys
  | .multiset v => v.ScalarKeys

def Names (word : Obj) (type : DataType) : Prop :=
  ∃ extra, names.typeOf (E.tcl.getString word) = some (type, extra)

/-- The word stands where a key type is due, behind complete types only. -/
inductive ReachesKey (key : Obj) : List Obj → Prop
  | here {w args} (h : Names E names w .container) : ReachesKey key (w :: key :: args)
  | container {w wk k args} (h : Names E names w .container) (hk : Names E names wk k)
      (hkey : k ≠ .container ∧ k ≠ .multiset) (hrest : ReachesKey key args) :
      ReachesKey key (w :: wk :: args)
  | multiset {w args} (h : Names E names w .multiset) (hrest : ReachesKey key args) :
      ReachesKey key (w :: args)

/-- Lists that start with the words of a type are taken up to them, and its types are returned in
order; any other list is an error. -/
structure ParsesTypes (args : List Obj) : Prop where
  accepted : ∀ T ws rest, args = ws ++ rest → Spells E names T ws → T.ScalarKeys →
    getCompoundType E names args = .ok (.ofList T.types, rest)
  rejected : (¬ ∃ T ws rest, args = ws ++ rest ∧ Spells E names T ws ∧ T.ScalarKeys) →
    ∃ info, getCompoundType E names args = .error info

variable {E names}

lemma Names.unique {w : Obj} {t t' : DataType} (h : Names E names w t) (h' : Names E names w t') :
    t = t' := by
  obtain ⟨e, he⟩ := h
  obtain ⟨e', he'⟩ := h'
  exact (Prod.mk.inj (Option.some.inj (he.symm.trans he'))).1

/-- With scalar keys the loop collects the flattened type. -/
lemma Spells.loop_eq {T : CompoundTy} {ws : List Obj} (h : Spells E names T ws)
    (hkeys : T.ScalarKeys) (rest : List Obj) : ∀ acc,
      compoundTypeLoop E names 1 (ws ++ rest) acc = .ok (acc ++ T.types, rest) := by
  induction h with
  | @leaf w t e ht h =>
    intro acc
    rw [List.singleton_append, compoundTypeLoop_scalar h ht, compoundTypeLoop]
    rfl
  | @container w wk k e v ws h hk hkey _ ih =>
    intro acc
    obtain rfl := names.extra_null _ _ _ hk hkeys.1
    rw [List.cons_append, List.cons_append, compoundTypeLoop_container h,
      compoundTypeLoop_scalar hk hkey, ih hkeys.2]
    simp [CompoundTy.types]
  | @multiset w v ws h _ ih =>
    intro acc
    rw [List.cons_append, compoundTypeLoop_multiset h, ih hkeys]
    simp [CompoundTy.types]

lemma Spells.getCompoundType_scalar {T : CompoundTy} {ws : List Obj} (h : Spells E names T ws)
    (hkeys : T.ScalarKeys) (rest : List Obj) :
    getCompoundType E names (ws ++ rest) = .ok (.ofList T.types, rest) := by
  rw [getCompoundType, h.loop_eq hkeys rest []]
  rfl

/-- The keys that are reached in the words of a type are its keys. -/
lemma Spells.reachesKey {T : CompoundTy} {ws rest : List Obj} {key : Obj}
    (h : Spells E names T ws) (hreach : ReachesKey E names key (ws ++ rest)) :
    ∃ k, Names E names key k ∧ (k ≠ .container ∧ k ≠ .multiset) ∧
      (T.ScalarKeys → k ≠ .struct) := by
  induction h with
  | @leaf w t e ht h =>
    have hw : Names E names w t := ⟨e, h⟩
    cases hreach with
    | here hc => exact (ht.1 (hw.unique hc)).elim
    | container hc _ _ _ => exact (ht.1 (hw.unique hc)).elim
    | multiset hm _ => exact (ht.2 (hw.unique hm)).elim
  | @container w wk k e v ws h hk hkey _ ih =>
    have hw : Names E names w .container := ⟨.null, h⟩
    cases hreach with
    | here _ => exact ⟨k, ⟨e, hk⟩, hkey, fun hkeys => hkeys.1⟩
    | container _ _ _ hrest =>
      obtain ⟨k', hk', hkey', hstruct⟩ := ih hrest
      exact ⟨k', hk', hkey', fun hkeys => hstruct hkeys.2⟩
    | multiset hm _ => cases hw.unique hm
  | @multiset w v ws h _ ih =>
    have hw : Names E names w .multiset := ⟨.null, h⟩
    rw [List.cons_append] at hreach
    generalize ws ++ rest = args at hreach ih
    cases hreach with
    | here hc => cases hw.unique hc
    | container hc _ _ _ => cases hw.unique hc
    | multiset _ hrest => exact ih hrest

/-- If a key is a struct, it is reached. -/
lemma Spells.exists_struct {T : CompoundTy} {ws : List Obj} (h : Spells E names T ws)
    (hkeys : ¬ T.ScalarKeys) (rest : List Obj) :
    ∃ key, ReachesKey E names key (ws ++ rest) ∧ Names E names key .struct := by
  induction h with
  | leaf => exact (hkeys trivial).elim
  | @container w wk k e v ws h hk hkey _ ih =>
    by_cases hstruct : k = .struct
    · subst hstruct
      exact ⟨wk, .here ⟨_, h⟩, ⟨e, hk⟩⟩
    · obtain ⟨key, hreach, hkey'⟩ := ih fun hv => hkeys ⟨hstruct, hv⟩
      exact ⟨key, .container ⟨_, h⟩ ⟨e, hk⟩ hkey hreach, hkey'⟩
  | @multiset w v ws h _ ih =>
    obtain ⟨key, hreach, hkey'⟩ := ih hkeys
    exact ⟨key, .multiset ⟨_, h⟩ hreach, hkey'⟩

variable (E names) in
/-- A compound type is reached where a key is due. -/
def CompoundKey (args : List Obj) : Prop :=
  ∃ key, ReachesKey E names key args ∧
    (Names E names key .container ∨ Names E names key .multiset)

lemma not_compoundKey_nil : ¬ CompoundKey E names [] := by
  rintro ⟨key, hreach, -⟩
  cases hreach

lemma compoundKey_multiset {w : Obj} (h : Names E names w .multiset) (args : List Obj) :
    CompoundKey E names (w :: args) ↔ CompoundKey E names args := by
  constructor
  · rintro ⟨key, hreach, hkey⟩
    cases hreach with
    | here hc => cases h.unique hc
    | container hc _ _ _ => cases h.unique hc
    | multiset _ hrest => exact ⟨key, hrest, hkey⟩
  · rintro ⟨key, hreach, hkey⟩
    exact ⟨key, .multiset h hreach, hkey⟩

lemma compoundKey_container {w wk : Obj} {k : DataType} (h : Names E names w .container)
    (hk : Names E names wk k) (hkey : k ≠ .container ∧ k ≠ .multiset) (args : List Obj) :
    CompoundKey E names (w :: wk :: args) ↔ CompoundKey E names args := by
  constructor
  · rintro ⟨key, hreach, hcompound⟩
    cases hreach with
    | here _ =>
      rcases hcompound with hc | hm
      · exact (hkey.1 (hk.unique hc)).elim
      · exact (hkey.2 (hk.unique hm)).elim
    | container _ _ _ hrest => exact ⟨key, hrest, hcompound⟩
    | multiset hm _ => cases h.unique hm
  · rintro ⟨key, hreach, hcompound⟩
    exact ⟨key, .container h hk hkey hreach, hcompound⟩

/-- Where the next name is missing or no compound type there is no key. -/
lemma not_compoundKey {w : Obj} {args : List Obj} (hc : ¬ Names E names w .container)
    (hm : ¬ Names E names w .multiset) : ¬ CompoundKey E names (w :: args) := by
  rintro ⟨key, hreach, -⟩
  cases hreach with
  | here h => exact hc h
  | container h _ _ _ => exact hc h
  | multiset h _ => exact hm h

lemma not_compoundKey_container {w wk : Obj} {args : List Obj} (h : Names E names w .container)
    (hk : ∀ k, ¬ Names E names wk k) : ¬ CompoundKey E names (w :: wk :: args) := by
  rintro ⟨key, hreach, hcompound⟩
  cases hreach with
  | here _ => exact hcompound.elim (hk _) (hk _)
  | container _ hk' _ _ => exact hk _ hk'
  | multiset hm _ => cases h.unique hm

/-- A result together with whether its input has a compound key: that is what makes it fail an
assertion, and nothing makes it undefined. -/
def LoopEnds (r : TclResult (List (DataType × TypeExtra) × List Obj)) (compoundKey : Prop) : Prop :=
  match r with
  | .ok _ | .error _ => ¬ compoundKey
  | .abort _ => compoundKey
  | .undefined => False

/-- Behind the name of a container. -/
lemma containerArgs_ends {w : Obj} (h : Names E names w .container) (args : List Obj)
    (ih : ∀ wk rest, args = wk :: rest → ∀ acc,
      LoopEnds (compoundTypeLoop E names 1 rest acc) (CompoundKey E names rest))
    (acc : List (DataType × TypeExtra)) :
    LoopEnds (compoundTypeLoop E names 2 args acc) (CompoundKey E names (w :: args)) := by
  cases args with
  | nil =>
    rw [compoundTypeLoop_nil (by simp)]
    rintro ⟨key, hreach, -⟩
    cases hreach with
    | multiset hm _ => cases h.unique hm
  | cons wk args =>
    cases hk : names.typeOf (E.tcl.getString wk) with
    | none =>
      have hnone (t : DataType) : ¬ Names E names wk t := by
        rintro ⟨e, he⟩
        rw [hk] at he
        cases he
      rw [compoundTypeLoop, adlbTypeFromObjExtra, hk]
      exact not_compoundKey_container h hnone
    | some ke =>
      obtain ⟨k, ek⟩ := ke
      have hname : Names E names wk k := ⟨ek, hk⟩
      by_cases hkey : k ≠ .container ∧ k ≠ .multiset
      · rw [compoundTypeLoop_scalar hk hkey, propext (compoundKey_container h hname hkey args)]
        exact ih wk args rfl _
      · have hcompound : k = .container ∨ k = .multiset := by
          by_contra hno
          exact hkey (not_or.mp hno)
        have habort : ∃ text, compoundTypeLoop E names 2 (wk :: args) acc = .abort text := by
          rw [compoundTypeLoop, adlbTypeFromObjExtra_eq_ok.mpr hk]
          rcases hcompound with rfl | rfl <;> exact ⟨_, rfl⟩
        obtain ⟨text, htext⟩ := habort
        rw [htext]
        refine ⟨wk, .here h, ?_⟩
        rcases hcompound with rfl | rfl
        · exact .inl hname
        · exact .inr hname

lemma compoundTypeLoop_ends (args : List Obj) : ∀ acc,
    LoopEnds (compoundTypeLoop E names 1 args acc) (CompoundKey E names args) := by
  induction hlen : args.length using Nat.strong_induction_on generalizing args with
  | _ len ih =>
  intro acc
  cases args with
  | nil =>
    rw [compoundTypeLoop_nil (by simp)]
    exact not_compoundKey_nil
  | cons w args =>
    rw [List.length_cons] at hlen
    cases hw : names.typeOf (E.tcl.getString w) with
    | none =>
      have hnone (t : DataType) : ¬ Names E names w t := by
        rintro ⟨e, he⟩
        rw [hw] at he
        cases he
      rw [compoundTypeLoop, adlbTypeFromObjExtra, hw]
      exact not_compoundKey (hnone _) (hnone _)
    | some te =>
      obtain ⟨t, e⟩ := te
      have hname : Names E names w t := ⟨e, hw⟩
      by_cases hc : t = .container
      · subst hc
        rw [compoundTypeLoop_container hw]
        exact containerArgs_ends hname args (fun wk rest hargs => ih rest.length
          (by rw [← hlen, hargs, List.length_cons]; omega) rest rfl) _
      by_cases hm : t = .multiset
      · subst hm
        rw [compoundTypeLoop_multiset hw, propext (compoundKey_multiset hname args)]
        exact ih args.length (by omega) args rfl _
      · rw [compoundTypeLoop_scalar hw ⟨hc, hm⟩, compoundTypeLoop]
        exact not_compoundKey (fun h => hc (hname.unique h)) (fun h => hm (hname.unique h))

variable (E names) in
/-- No compound type is reached as a key, and no complete type has a struct as one. -/
def KeysFit (args : List Obj) : Prop :=
  ¬ CompoundKey E names args ∧
    ((∃ key, ReachesKey E names key args ∧ Names E names key .struct) →
      ¬ ∃ T ws rest, args = ws ++ rest ∧ Spells E names T ws)

lemma parsesTypes_iff (args : List Obj) : ParsesTypes E names args ↔ KeysFit E names args := by
  have hends := @compoundTypeLoop_ends _ _ E names args []
  constructor
  · intro h
    by_cases hwords : ∃ T ws rest, args = ws ++ rest ∧ Spells E names T ws ∧ T.ScalarKeys
    · obtain ⟨T, ws, rest, rfl, hT, hkeys⟩ := hwords
      rw [hT.loop_eq hkeys] at hends
      refine ⟨hends, ?_⟩
      rintro ⟨key, hreach, hstruct⟩
      obtain ⟨k, hk, -, hne⟩ := hT.reachesKey hreach
      exact (hne hkeys (hk.unique hstruct)).elim
    · obtain ⟨info, hinfo⟩ := h.rejected hwords
      cases hloop : compoundTypeLoop E names 1 args [] with
      | ok r =>
        rw [getCompoundType, hloop] at hinfo
        cases hinfo
      | error info' =>
        rw [hloop] at hends
        refine ⟨hends, ?_⟩
        rintro - ⟨T, ws, rest, rfl, hT⟩
        obtain ⟨types, htypes, -⟩ := hT.getCompoundType_eq rest
        rw [hinfo] at htypes
        cases htypes
      | abort text =>
        rw [getCompoundType, hloop] at hinfo
        cases hinfo
      | undefined =>
        rw [getCompoundType, hloop] at hinfo
        cases hinfo
  · rintro ⟨hcompound, hstruct⟩
    constructor
    · rintro T ws rest rfl hT hkeys
      exact hT.getCompoundType_scalar hkeys rest
    · intro hno
      cases hloop : compoundTypeLoop E names 1 args [] with
      | ok r =>
        obtain ⟨T, ws, hargs, hT⟩ := spells_of_compoundTypeLoop args [] r hloop
        have hkeys : ¬ T.ScalarKeys := fun hkeys => hno ⟨T, ws, r.2, hargs, hT, hkeys⟩
        obtain ⟨key, hreach, hkey⟩ := hT.exists_struct hkeys r.2
        exact (hstruct ⟨key, hargs ▸ hreach, hkey⟩ ⟨T, ws, r.2, hargs, hT⟩).elim
      | error info =>
        rw [getCompoundType, hloop]
        exact ⟨info, rfl⟩
      | abort text =>
        rw [hloop] at hends
        exact (hcompound hends).elim
      | undefined =>
        rw [hloop] at hends
        exact hends.elim

end Turbine.Codec
