import Turbine.Create.Arguments

/-! Which create requests the arguments of `adlb::create` and `adlb::multicreate` lead to. -/

namespace Turbine.Create

open Tcl Adlb Codec Library

variable {Obj D : Type} (env : CreateEnv Obj D)

/-- The request for the parsed arguments, and none with an error for arguments of no such form. -/
structure CreateMeets (args : List Obj) : Prop where
  request : ∀ s, Matches env true args s [] → ∀ requests,
    (adlbCreateCmd env args requests).2 = requests ++ [s]
  malformed : (¬ ∃ s, Matches env true args s []) → ∀ requests,
    ∃ info, adlbCreateCmd env args requests = (.error (.error info), requests)

/-- A list with the arguments of one datum. -/
def SpecMatches (list : Obj) (s : Spec) (rest : List Obj) : Prop :=
  ∃ elems, env.codec.tcl.getList list = some elems ∧ Matches env false elems s rest

structure MulticreateMeets (args : List Obj) : Prop where
  request : ∀ specs, List.Forall₂ (fun a s => SpecMatches env a s []) args specs → ∀ requests,
    (adlbMulticreateCmd env args requests).2 = requests ++ [specs]
  malformed : (¬ ∃ specs, List.Forall₂ (fun a s => SpecMatches env a s []) args specs) →
    ∀ requests, ∃ info, adlbMulticreateCmd env args requests = (.error (.error info), requests)

variable {env}

lemma adlbCreateCmd_request {args : List Obj} {s request : Spec}
    (hs : (extractCreateProps env true args (noSpec env)).2 = s)
    (h : createRequest s = .ok request) (requests : List Spec) :
    (adlbCreateCmd env args requests).2 = requests ++ [request] := by
  rw [adlbCreateCmd, hs, h]
  rw [TclCmd.ofResult_ok, pure_bind, Cmd.bind_of_ok (Cmd.modify_apply _ _)]
  have hkeeps : Cmd.Keeps ((TclCmd.ofResult (TclResult.require (env.adlbCreate request)
        ("<" ++ toString s.id.toInt ++ "> failed!")) : TclCmd (List Spec) Int64) >>= fun newId =>
          pure (if s.id = env.idNull then some newId else none))
      (fun r => r = requests ++ [request]) :=
    Cmd.Keeps.bind (Cmd.keeps_ofExcept _ _) fun _ => Cmd.keeps_pure _ _
  exact hkeeps _ rfl

/-- Only a type that is not known ends the command with no request. -/
lemma adlbCreateCmd_fails_iff {args : List Obj} {s : Spec}
    (hs : (extractCreateProps env true args (noSpec env)).2 = s) (requests : List Spec) :
    (∃ info, adlbCreateCmd env args requests = (.error (.error info), requests)) ↔
      s.type = .null := by
  constructor
  · rintro ⟨info, hcmd⟩
    cases hreq : createRequest s with
    | ok request =>
      have hstate := adlbCreateCmd_request hs hreq requests
      rw [hcmd] at hstate
      simp at hstate
    | error info' => exact createRequest_eq_error hreq
    | abort assertion =>
      rw [adlbCreateCmd, hs, hreq] at hcmd
      cases hcmd
    | undefined =>
      rw [adlbCreateCmd, hs, hreq] at hcmd
      cases hcmd
  · intro hnull
    have hreq : createRequest s = .error ["unknown type!"] := by
      obtain ⟨id, type, extra, props⟩ := s
      subst hnull
      cases extra <;> rfl
    rw [adlbCreateCmd, hs, hreq]
    exact ⟨_, rfl⟩

lemma TypeKnown.type_ne_null (hN : NamesLawful env.names) {args : List Obj}
    (h : TypeKnown env args) : (extractCreateProps env true args (noSpec env)).2.type ≠ .null := by
  obtain ⟨idWord, w, rest, type, e, rfl, hid, hw⟩ := h
  rw [extractCreateProps_type hid hw]
  exact hN.type_ne_null _ _ _ hw

lemma createMeets_iff (hN : NamesLawful env.names) (args : List Obj) :
    CreateMeets env args ↔ (∃ s, Matches env true args s []) ∨ ¬ TypeKnown env args := by
  constructor
  · intro hmeets
    rw [or_iff_not_imp_left]
    intro hno hknown
    exact hknown.type_ne_null hN ((adlbCreateCmd_fails_iff rfl []).mp (hmeets.malformed hno []))
  · rintro (⟨s, hs⟩ | hunknown)
    · refine ⟨?_, fun hno => (hno ⟨s, hs⟩).elim⟩
      intro s' hs' requests
      have hok := extractCreateProps_eq_ok (s := noSpec env).mpr ⟨[], hs'⟩
      exact adlbCreateCmd_request (congrArg Prod.snd hok) (hs'.createRequest_eq hN) requests
    · refine ⟨fun s hs => (hunknown hs.typeKnown).elim, ?_⟩
      intro _ requests
      exact (adlbCreateCmd_fails_iff rfl requests).mpr (extractCreateProps_noType hunknown)

/-! ### Several data at once -/

lemma parseVariableSpecList_eq_ok {list : Obj} {s : Spec} (requests : List (List Spec)) :
    parseVariableSpecList env list requests = (.ok s, requests) ↔
      ∃ rest, SpecMatches env list s rest := by
  rw [parseVariableSpecList]
  cases hlist : env.codec.tcl.getList list with
  | none =>
    refine iff_of_false (by rintro ⟨⟩) ?_
    rintro ⟨rest, elems, helems, -⟩
    rw [hlist] at helems
    cases helems
  | some elems =>
    rw [TclResult.require_some, TclCmd.ofResult_ok, pure_bind]
    cases hparse : extractCreateProps env false elems (noSpec env) with
    | mk r t =>
      cases r with
      | ok u =>
        constructor
        · intro h
          obtain rfl : t = s := Except.ok.inj (Prod.mk.inj h).1
          obtain ⟨rest, hmatch⟩ := extractCreateProps_eq_ok.mp hparse
          exact ⟨rest, elems, hlist, hmatch⟩
        · rintro ⟨rest, elems', helems, hmatch⟩
          obtain rfl := Option.some.inj (hlist.symm.trans helems)
          have hok := extractCreateProps_eq_ok (s := noSpec env).mpr ⟨rest, hmatch⟩
          rw [hparse] at hok
          obtain ⟨-, rfl⟩ := Prod.mk.inj hok
          rfl
      | error e =>
        refine iff_of_false (by rintro ⟨⟩) ?_
        rintro ⟨rest, elems', helems, hmatch⟩
        obtain rfl := Option.some.inj (hlist.symm.trans helems)
        have hok := extractCreateProps_eq_ok (s := noSpec env).mpr ⟨rest, hmatch⟩
        rw [hparse] at hok
        cases hok

def IsError (e : Failure) : Prop := ∃ info, e = .error info

lemma failsWith_ofResult {S α : Type} {r : TclResult α} (ha : ∀ msg, r ≠ .abort msg)
    (hu : r ≠ .undefined) : Cmd.FailsWith (TclCmd.ofResult r : TclCmd S α) IsError := by
  intro s e t h
  obtain ⟨he, -⟩ := Prod.mk.inj h
  cases r with
  | ok a => cases he
  | error info => exact ⟨info, (Except.error.inj he).symm⟩
  | abort msg => exact (ha msg rfl).elim
  | undefined => exact (hu rfl).elim

lemma failsWith_require {S α : Type} (x : Option α) (msg : String) :
    Cmd.FailsWith (TclCmd.ofResult (TclResult.require x msg) : TclCmd S α) IsError := by
  cases x with
  | none => exact failsWith_ofResult (by simp) (by simp)
  | some a => exact failsWith_ofResult (by simp) (by simp)

lemma failsWith_typeFromObj (obj : Obj) :
    Cmd.FailsWith (TclCmd.ofResult (adlbTypeFromObj env obj) : Parse DataType) IsError := by
  rw [adlbTypeFromObj, adlbTypeFromObjExtra]
  cases env.names.typeOf (env.codec.tcl.getString obj) with
  | none => exact failsWith_ofResult (by simp) (by simp)
  | some te => exact failsWith_ofResult (by simp) (by simp)

lemma failsWith_optionalProp (set : Obj → CreateProps → Option CreateProps) (msg : String)
    (args : List Obj) : Cmd.FailsWith (optionalProp set msg args) IsError := by
  intro s e t h
  cases args with
  | nil => cases h
  | cons arg args =>
    simp only [optionalProp] at h
    cases hset : set arg s.props with
    | none =>
      rw [hset] at h
      exact ⟨_, (Except.error.inj (Prod.mk.inj h).1).symm⟩
    | some props =>
      rw [hset] at h
      cases h

lemma failsWith_typeExtraFromArray (type : DataType) (args : List Obj) :
    Cmd.FailsWith (adlbTypeExtraFromArray env type args) IsError := by
  have hset (extra : TypeExtra) (rest : List Obj) : Cmd.FailsWith
      (Cmd.modify (fun s : Spec => { s with extra := extra }) >>= fun _ =>
        (pure rest : Parse (List Obj))) IsError :=
    (Cmd.failsWith_modify _ _).bind fun _ _ _ _ => Cmd.failsWith_pure _ _
  cases type with
  | container =>
    rcases args with _ | ⟨wk, _ | ⟨wv, args⟩⟩
    · exact Cmd.failsWith_throw ⟨_, rfl⟩
    · exact Cmd.failsWith_throw ⟨_, rfl⟩
    · exact (failsWith_typeFromObj wk).bind fun _ _ _ _ =>
        (failsWith_typeFromObj wv).bind fun _ _ _ _ => hset _ _
  | multiset =>
    rcases args with _ | ⟨wv, args⟩
    · exact Cmd.failsWith_throw ⟨_, rfl⟩
    · exact (failsWith_typeFromObj wv).bind fun _ _ _ _ => hset _ _
  | null => exact Cmd.failsWith_pure _ _
  | integer => exact Cmd.failsWith_pure _ _
  | float => exact Cmd.failsWith_pure _ _
  | string => exact Cmd.failsWith_pure _ _
  | blob => exact Cmd.failsWith_pure _ _
  | ref => exact Cmd.failsWith_pure _ _
  | struct => exact Cmd.failsWith_pure _ _

lemma failsWith_typeFromArray (w : Obj) (args : List Obj) :
    Cmd.FailsWith (adlbTypeFromArray env (w :: args)) IsError := by
  rw [adlbTypeFromArray]
  refine (Cmd.failsWith_modify _ _).bind fun _ _ _ _ => (failsWith_require _ _).bind ?_
  intro _ te _ _
  refine (Cmd.failsWith_modify _ _).bind fun _ _ _ _ => ?_
  split
  · exact failsWith_typeExtraFromArray _ _
  · exact Cmd.failsWith_pure _ _

/-- An error of the parser is reported as one. -/
lemma failsWith_extractCreateProps (elems : List Obj) :
    Cmd.FailsWith (extractCreateProps env false elems) IsError := by
  have htail (args : List Obj) := (Cmd.failsWith_modify (P := IsError)
      (f := fun s : Spec => { s with props := typeProps env s.type })).bind fun _ _ _ _ =>
    (failsWith_optionalProp (setReadRefcount env) "could not get read_refcount argument"
      args).bind fun _ args _ _ =>
    (failsWith_optionalProp (setWriteRefcount env) "could not get write_refcount argument"
      args).bind fun _ args _ _ =>
    (failsWith_optionalProp (setSymbol env) "could not get debug symbol argument" args).bind
      fun _ args _ _ =>
    (failsWith_optionalProp (setPermanent env) "could not get permanent argument" args).bind
      fun _ _ _ _ => Cmd.failsWith_pure () IsError
  rw [extractCreateProps]
  refine (Cmd.failsWith_modify _ _).bind fun _ _ _ _ => ?_
  rcases elems with _ | ⟨w, elems⟩
  · exact (Cmd.failsWith_throw ⟨_, rfl⟩).bind (by rintro s a t ⟨⟩)
  · have hid : Cmd.FailsWith (extractId env false (w :: elems)) IsError :=
      (Cmd.failsWith_modify _ _).bind fun _ _ _ _ => Cmd.failsWith_pure _ _
    refine hid.bind ?_
    intro s args t hargs
    obtain rfl : w :: elems = args := Except.ok.inj (Prod.mk.inj hargs).1
    exact (failsWith_typeFromArray w elems).bind fun _ args _ _ => htail args

variable (env) in
lemma parseVariableSpecList_reads (list : Obj) (requests : List (List Spec)) :
    (∃ s, parseVariableSpecList env list requests = (.ok s, requests)) ∨
      ∃ info, parseVariableSpecList env list requests = (.error (.error info), requests) := by
  rw [parseVariableSpecList]
  cases env.codec.tcl.getList list with
  | none => exact .inr ⟨_, rfl⟩
  | some elems =>
    rw [TclResult.require_some, TclCmd.ofResult_ok, pure_bind]
    cases hparse : extractCreateProps env false elems (noSpec env) with
    | mk r t =>
      cases r with
      | ok u => exact .inl ⟨t, rfl⟩
      | error e =>
        obtain ⟨info, rfl⟩ := failsWith_extractCreateProps elems _ e t hparse
        exact .inr ⟨info, rfl⟩

lemma SpecMatches.unique {list : Obj} {s s' : Spec} {rest rest' : List Obj}
    (h : SpecMatches env list s rest) (h' : SpecMatches env list s' rest') : s = s' := by
  have hs := (parseVariableSpecList_eq_ok []).mpr ⟨rest, h⟩
  have hs' := (parseVariableSpecList_eq_ok []).mpr ⟨rest', h'⟩
  exact Except.ok.inj (Prod.mk.inj (hs.symm.trans hs')).1

lemma adlbMulticreateCmd_request {args : List Obj} {specs : List Spec}
    {requests : List (List Spec)}
    (h : args.mapM (parseVariableSpecList env) requests = (.ok specs, requests)) :
    (adlbMulticreateCmd env args requests).2 = requests ++ [specs] := by
  rw [adlbMulticreateCmd, Cmd.bind_of_ok h, Cmd.bind_of_ok (Cmd.modify_apply _ _)]
  rfl

variable (env) in
/-- Either all of the lists are parsed and requested, or one of them is not parsed. -/
lemma adlbMulticreateCmd_cases (args : List Obj) (requests : List (List Spec)) :
    (∃ specs, (adlbMulticreateCmd env args requests).2 = requests ++ [specs] ∧
        List.Forall₂ (fun a s => ∃ rest, SpecMatches env a s rest) args specs) ∨
      (∃ a ∈ args, ¬ ∃ s rest, SpecMatches env a s rest) ∧
        ∃ info, adlbMulticreateCmd env args requests = (.error (.error info), requests) := by
  have hreads (a : Obj) (_ : a ∈ args) :
      ∃ r, parseVariableSpecList env a requests = (r, requests) := by
    rcases parseVariableSpecList_reads env a requests with ⟨s, h⟩ | ⟨info, h⟩
    · exact ⟨_, h⟩
    · exact ⟨_, h⟩
  rcases Cmd.mapM_reads hreads with ⟨specs, hspecs, hall⟩ | ⟨a, ha, e, hfail, hmapM⟩
  · refine .inl ⟨specs, adlbMulticreateCmd_request hspecs, ?_⟩
    exact hall.imp fun a s h => (parseVariableSpecList_eq_ok requests).mp h
  · refine .inr ⟨⟨a, ha, ?_⟩, ?_⟩
    · rintro ⟨s, rest, hmatch⟩
      have hok := (parseVariableSpecList_eq_ok requests).mpr ⟨rest, hmatch⟩
      rw [hfail] at hok
      cases hok
    · rcases parseVariableSpecList_reads env a requests with ⟨s, h⟩ | ⟨info, h⟩
      · rw [hfail] at h
        cases h
      · obtain rfl := Except.error.inj (Prod.mk.inj (hfail.symm.trans h)).1
        exact ⟨info, by rw [adlbMulticreateCmd, Cmd.bind_of_error hmapM]⟩

lemma specs_unique {args : List Obj} {specs specs' : List Spec}
    (h : List.Forall₂ (fun a s => ∃ rest, SpecMatches env a s rest) args specs)
    (h' : List.Forall₂ (fun a s => ∃ rest, SpecMatches env a s rest) args specs') :
    specs = specs' := by
  refine List.right_unique_forall₂' ?_ h h'
  rintro a s s' ⟨rest, hs⟩ ⟨rest', hs'⟩
  exact hs.unique hs'

lemma exists_spec {R : Obj → Spec → Prop} {args : List Obj} {specs : List Spec}
    (h : List.Forall₂ R args specs) {a : Obj} (ha : a ∈ args) : ∃ s, R a s := by
  have hflip : List.Forall₂ (fun s a => R a s) specs args := List.Forall₂.flip h
  obtain ⟨s, -, hs⟩ := exists_of_forall₂ hflip ha
  exact ⟨s, hs⟩

lemma multicreateMeets_iff (args : List Obj) :
    MulticreateMeets env args ↔
      (∃ specs, List.Forall₂ (fun a s => SpecMatches env a s []) args specs) ∨
        ∃ a ∈ args, ¬ ∃ s rest, SpecMatches env a s rest := by
  constructor
  · intro hmeets
    rw [or_iff_not_imp_left]
    intro hno
    obtain ⟨info, hinfo⟩ := hmeets.malformed hno []
    rcases adlbMulticreateCmd_cases env args [] with ⟨specs, hstate, -⟩ | ⟨hbad, -⟩
    · rw [hinfo] at hstate
      cases hstate
    · exact hbad
  · intro hargs
    constructor
    · intro specs hspecs requests
      rcases adlbMulticreateCmd_cases env args requests with
        ⟨specs', hstate, hall⟩ | ⟨⟨a, ha, hbad⟩, -⟩
      · rw [hstate, specs_unique hall (hspecs.imp fun _ _ h => ⟨[], h⟩)]
      · obtain ⟨s, hs⟩ := exists_spec hspecs ha
        exact (hbad ⟨s, [], hs⟩).elim
    · intro hno requests
      rcases hargs with hall | ⟨a, ha, hbad⟩
      · exact (hno hall).elim
      · rcases adlbMulticreateCmd_cases env args requests with ⟨specs, -, hall⟩ | ⟨-, h⟩
        · obtain ⟨s, rest, hs⟩ := exists_spec hall ha
          exact (hbad ⟨s, rest, hs⟩).elim
        · exact h

theorem create_meets_iff (hN : NamesLawful env.names) (args : List Obj) :
    (CreateMeets env args ↔ (∃ s, Matches env true args s []) ∨ ¬ TypeKnown env args) ∧
      (MulticreateMeets env args ↔
        (∃ specs, List.Forall₂ (fun a s => SpecMatches env a s []) args specs) ∨
          ∃ a ∈ args, ¬ ∃ s rest, SpecMatches env a s rest) :=
  ⟨createMeets_iff hN args, multicreateMeets_iff args⟩

def wordBoolean (v : Value) : Option Bool :=
  (v.wideInt.map Int64.toInt).map (· ≠ 0)

/-- No struct types are declared, and every request is granted. -/
def valueEnv : CreateEnv Value UInt64 where
  codec := packingEnv []
  names := typeNames []
  getInt v := v.wideInt.map Int64.toInt
  getBoolean := wordBoolean
  idNull := Int64.ofNat 0
  defaultCreateProps := ⟨1, 1, -1, false, false⟩
  dataIsCompound t := t ∈ [DataType.container, .multiset, .struct]
  adlbCreate s := some s.id
  adlbMulticreate specs := some (specs.map Spec.id)

lemma typeOf_typeNames {s : Bytes} {t : DataType} {e : TypeExtra}
    (h : (typeNames []).typeOf s = some (t, e)) :
    t ∈ [DataType.integer, .float, .string, .blob, .container, .multiset, .ref] ∧ e = .null := by
  rcases Option.or_eq_some_iff.mp h with h | ⟨-, h⟩
  · obtain ⟨t', hname, heq⟩ := Option.map_eq_some_iff.mp h
    obtain ⟨rfl, rfl⟩ := Prod.mk.inj heq
    exact ⟨List.mem_of_find?_eq_some hname, rfl⟩
  · cases h

lemma typeNames_lawful : NamesLawful (typeNames []) where
  type_ne_null s t e h := by
    rintro rfl
    exact absurd (typeOf_typeNames h).1 (by decide)
  struct_extra s e h := absurd (typeOf_typeNames h).1 (by decide)

def containerWord : Value := .str [99, 111, 110, 116, 97, 105, 110, 101, 114]

lemma getInt_newWideInt (n : Int64) : valueEnv.getInt (values.newWideInt n) = some n.toInt := by
  change ((values.newWideInt n).wideInt).map Int64.toInt = some n.toInt
  rw [Value.wideInt_decimal rfl, Option.map_some]

lemma names_integer : Names valueEnv integerWord .integer .null := by
  change (typeNames []).typeOf _ = _
  decide

lemma names_container : Names valueEnv containerWord .container .null := by
  change (typeNames []).typeOf _ = _
  decide

/-- `adlb::create 7 integer 2` -/
lemma matches_integer : Matches valueEnv true
    [values.newWideInt 7, integerWord, values.newWideInt 2]
    ⟨7, .integer, .null, ⟨2, 1, -1, false, false⟩⟩ [] := by
  refine ⟨[values.newWideInt 7], [integerWord], [values.newWideInt 2], rfl,
    ⟨_, rfl, values_lawful.getWideInt_newWideInt 7⟩, .plain names_integer (by decide), ?_⟩
  rw [propSetters, applyProps, setReadRefcount, getInt_newWideInt]
  rfl

theorem create_meets_iff_integer :
    CreateMeets valueEnv [values.newWideInt 7, integerWord, values.newWideInt 2] ∧
      MulticreateMeets valueEnv [values.newWideInt 7] := by
  have hlist : valueEnv.codec.tcl.getList (values.newWideInt 7) = none := rfl
  refine ⟨(create_meets_iff typeNames_lawful _).1.mpr (.inl ⟨_, matches_integer⟩),
    (create_meets_iff typeNames_lawful _).2.mpr (.inr ⟨_, List.mem_singleton_self _, ?_⟩)⟩
  rintro ⟨s, rest, elems, helems, -⟩
  rw [hlist] at helems
  cases helems

/-- `adlb::create 7 container` -/
theorem not_create_meets : ¬ ∀ args, CreateMeets valueEnv args := by
  intro h
  rcases (createMeets_iff typeNames_lawful _).mp (h [values.newWideInt 7, containerWord]) with
    ⟨⟨id, type, extra, props⟩, idWords, typeWords, propWords, hargs, ⟨idWord, rfl, -⟩, htype, -⟩ |
      hunknown
  · cases htype with
    | plain hw ht =>
      obtain ⟨rfl, -⟩ := List.cons.inj (List.cons.inj hargs).2
      exact ht.1 (Prod.mk.inj (Option.some.inj (hw.symm.trans names_container))).1
    | container => cases hargs
    | multiset => cases hargs
  · refine hunknown ⟨_, _, [], _, _, rfl, ?_, names_container⟩
    rw [show valueEnv.codec.tcl.getWideInt (values.newWideInt 7) = some 7 from
      values_lawful.getWideInt_newWideInt 7]
    rfl

end Turbine.Create
