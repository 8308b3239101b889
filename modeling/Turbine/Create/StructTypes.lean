import Turbine.Create.Requests
import Turbine.Library.Runs

/-! Declarations of struct types, and the table with the Tcl objects for the names of their fields,
which grows with the ids of the types. -/

namespace Turbine.Create

open Tcl Adlb Codec Library Library.Runs

variable {Obj D : Type} (env : CreateEnv Obj D)

structure Declaration where
  type : ℤ
  decl : StructDecl

/-- The table `field_name_objs`, and the struct types that ADLB has declared. -/
structure StructState (Obj : Type) where
  objs : List (Option (List Obj))
  declared : ℤ → Option StructDecl

def Failure.result {α : Type} : Failure → TclResult α
  | .error info => .error info
  | .abort assertion => .abort assertion
  | .undefined => .undefined

/-- The loop over the field list, with its length as fuel. -/
def declareFields : ℕ → List Obj → TclResult (List (Bytes × FieldType))
  | _, [] => .ok []
  | 0, _ :: _ => .undefined
  | fuel + 1, name :: args =>
    if args.isEmpty then
      .error ["missing type for field named " ++ showBytes (env.codec.tcl.getString name)]
    else
      match adlbTypeFromArray env args (noSpec env) with
      | (.ok rest, s) => do
        let fields ← declareFields fuel rest
        .ok ((env.codec.tcl.getString name, ⟨s.type, s.extra⟩) :: fields)
      | (.error e, _) => Failure.result e

def parseDeclaration : List Obj → TclResult Declaration
  | [typeId, typeName, list] => do
    let type ← TclResult.check (env.getInt typeId)
    let fieldList ← TclResult.check (env.codec.tcl.getList list)
    let fields ← declareFields env fieldList.length fieldList
    .ok ⟨type, env.codec.tcl.getString typeName, fields⟩
  | _ => .error ["requires 3 args!"]

def intMax : ℤ := 2147483647

def fieldNameObjsInit : List (Option (List Obj)) := List.replicate 64 none

/-- The table with room for a type; its size is an `int`. -/
def fieldNameObjsGrow (objs : List (Option (List Obj))) (type : ℤ) :
    TclResult (List (Option (List Obj))) :=
  if objs.length ≤ type then
    if (objs.length : ℤ) * 2 ≤ intMax then
      let newSize := if (objs.length : ℤ) * 2 ≤ type then type else objs.length * 2
      .ok (objs ++ List.replicate (newSize.toNat - objs.length) none)
    else .undefined
  else .ok objs

/-- A store outside of the table is undefined. -/
def fieldNameObjsAdd (objs : List (Option (List Obj))) (type : ℤ) (fieldNames : List Bytes) :
    TclResult (List (Option (List Obj))) := do
  let objs ← fieldNameObjsGrow objs type
  if 0 ≤ type ∧ type < objs.length then
    .ok (objs.set type.toNat (some (fieldNames.map env.codec.tcl.newString)))
  else .undefined

/-- What comes behind `ADLB_Declare_struct_type`. -/
def declareStructType (d : Declaration) (s : StructState Obj) :
    TclResult (StructState Obj × Unit) := do
  let objs ← fieldNameObjsAdd env s.objs d.type (d.decl.fields.map Prod.fst)
  .ok (⟨objs, Function.update s.declared d.type (some d.decl)⟩, ())

/-- `accepts` is whether `ADLB_Declare_struct_type` succeeds. -/
def adlbDeclareStructTypeCmd (accepts : (ℤ → Option StructDecl) → Declaration → Bool)
    (args : List Obj) : TclCmd (StructState Obj) Unit := do
  let d ← TclCmd.ofResult (parseDeclaration env args)
  let s ← Cmd.get
  TclCmd.condition (accepts s.declared d) "Declaring ADLB struct type failed"
  TclCmd.ofStep (declareStructType env d)

/-- A call of the command; the script goes on after a Tcl error. -/
def declareCall (accepts : (ℤ → Option StructDecl) → Declaration → Bool) (s : StructState Obj)
    (args : List Obj) : Except Failure (StructState Obj) :=
  match adlbDeclareStructTypeCmd env accepts args s with
  | (.ok (), t) => .ok t
  | (.error (.error _), t) => .ok t
  | (.error e, _) => .error e

def StructState.init : StructState Obj := ⟨fieldNameObjsInit, fun _ => none⟩

/-- The entry of a declared type lies in the table and holds the names of its fields, and every
other entry is empty. -/
structure TableMeets (s : StructState Obj) : Prop where
  declared : ∀ st decl, s.declared st = some decl → 0 ≤ st ∧ st < s.objs.length ∧
    s.objs[st.toNat]? = some (some ((decl.fields.map Prod.fst).map env.codec.tcl.newString))
  empty : ∀ (i : ℕ) objs, s.objs[i]? = some (some objs) → (s.declared i).isSome

/-- The id lies in the table, or in one of twice its size. -/
def TypeFits (s : StructState Obj) (d : Declaration) : Prop :=
  0 ≤ d.type ∧ (d.type < s.objs.length ∨
    (s.objs.length : ℤ) * 2 ≤ intMax ∧ d.type < s.objs.length * 2)

variable {env}

lemma fieldNameObjsGrow_of_fits {s : StructState Obj} {d : Declaration} (h : TypeFits s d) :
    ∃ k, fieldNameObjsGrow s.objs d.type = .ok (s.objs ++ List.replicate k none) ∧
      d.type < s.objs.length + k := by
  obtain ⟨-, hlt | ⟨hmax, hlt⟩⟩ := h
  · refine ⟨0, ?_, by omega⟩
    rw [fieldNameObjsGrow, if_neg (by omega), List.replicate_zero, List.append_nil]
  · rw [fieldNameObjsGrow]
    by_cases hle : (s.objs.length : ℤ) ≤ d.type
    · rw [if_pos hle, if_pos hmax, if_neg (by omega)]
      exact ⟨_, rfl, by omega⟩
    · rw [if_neg hle]
      exact ⟨0, by simp, by omega⟩

/-- Any other id is stored outside of the table. -/
lemma fieldNameObjsAdd_undefined {s : StructState Obj} {d : Declaration} (h : ¬ TypeFits s d)
    (names : List Bytes) : fieldNameObjsAdd env s.objs d.type names = .undefined := by
  rw [fieldNameObjsAdd, fieldNameObjsGrow]
  by_cases hle : (s.objs.length : ℤ) ≤ d.type
  · rw [if_pos hle]
    by_cases hmax : (s.objs.length : ℤ) * 2 ≤ intMax
    · have htype : (s.objs.length : ℤ) * 2 ≤ d.type := by
        by_contra hlt
        exact h ⟨by omega, .inr ⟨hmax, by omega⟩⟩
      rw [if_pos hmax, if_pos htype, TclResult.ok_bind, if_neg]
      rw [List.length_append, List.length_replicate]
      omega
    · rw [if_neg hmax]
      rfl
  · rw [if_neg hle, TclResult.ok_bind, if_neg]
    rintro ⟨hzero, hlt⟩
    exact h ⟨hzero, .inl hlt⟩

lemma declareStructType_of_fits {s : StructState Obj} {d : Declaration} (hs : TableMeets env s)
    (h : TypeFits s d) : ∃ t, declareStructType env d s = .ok (t, ()) ∧ TableMeets env t := by
  obtain ⟨k, hgrow, hlt⟩ := fieldNameObjsGrow_of_fits h
  obtain ⟨n, hn⟩ : ∃ n : ℕ, d.type = n := Int.eq_ofNat_of_zero_le h.1
  have hlen : n < (s.objs ++ List.replicate k none).length := by
    rw [List.length_append, List.length_replicate]
    omega
  let entry := (d.decl.fields.map Prod.fst).map env.codec.tcl.newString
  refine ⟨⟨(s.objs ++ List.replicate k none).set n (some entry),
    Function.update s.declared d.type (some d.decl)⟩, ?_, ?_, ?_⟩
  · rw [declareStructType, fieldNameObjsAdd, hgrow, TclResult.ok_bind, if_pos (by omega), hn]
    rfl
  · intro st decl hdecl
    dsimp only at hdecl ⊢
    rw [List.length_set]
    by_cases hst : st = d.type
    · subst hst
      rw [Function.update_self] at hdecl
      obtain rfl := Option.some.inj hdecl
      rw [hn, Int.toNat_natCast, List.getElem?_set_self hlen]
      exact ⟨by omega, by omega, rfl⟩
    · rw [Function.update_of_ne hst] at hdecl
      obtain ⟨hzero, hst', hentry⟩ := hs.declared st decl hdecl
      have hne : n ≠ st.toNat := by omega
      refine ⟨hzero, ?_, ?_⟩
      · rw [List.length_append]
        omega
      · rw [List.getElem?_set_ne hne, List.getElem?_append_left (by omega), hentry]
  · intro i objs hentry
    dsimp only at hentry ⊢
    by_cases hi : n = i
    · subst hi
      rw [hn, Function.update_self]
      rfl
    · rw [List.getElem?_set_ne hi] at hentry
      have hne : (i : ℤ) ≠ d.type := by omega
      rw [Function.update_of_ne hne]
      rcases lt_or_ge i s.objs.length with hlt' | hge
      · rw [List.getElem?_append_left hlt'] at hentry
        exact hs.empty i objs hentry
      · rw [List.getElem?_append_right hge] at hentry
        have hmem := List.eq_of_mem_replicate (List.mem_of_getElem? hentry)
        cases hmem

lemma declareStructType_undefined {s : StructState Obj} {d : Declaration} (h : ¬ TypeFits s d) :
    declareStructType env d s = .undefined := by
  rw [declareStructType, fieldNameObjsAdd_undefined h]
  rfl

variable (env) in
/-- The parser of the fields takes at least one argument for each type. -/
lemma declareFields_cases {fuel : ℕ} (args : List Obj) (h : args.length ≤ fuel) :
    (∃ fields, declareFields env fuel args = .ok fields) ∨
      ∃ info, declareFields env fuel args = .error info := by
  induction fuel generalizing args with
  | zero =>
    obtain rfl := List.length_eq_zero_iff.mp (Nat.le_zero.mp h)
    exact .inl ⟨[], by rw [declareFields]⟩
  | succ fuel ih =>
    rcases args with _ | ⟨name, _ | ⟨w, args⟩⟩
    · exact .inl ⟨[], by rw [declareFields]⟩
    · exact .inr ⟨_, rfl⟩
    · rw [declareFields, List.isEmpty_cons, if_neg Bool.false_ne_true]
      cases htype : adlbTypeFromArray env (w :: args) (noSpec env) with
      | mk r s =>
        cases r with
        | error e =>
          obtain ⟨info, rfl⟩ := failsWith_typeFromArray w args _ e s htype
          exact .inr ⟨info, rfl⟩
        | ok rest =>
          obtain ⟨words, type, e, hwords, hargs, -⟩ := adlbTypeFromArray_eq_ok.mp htype
          obtain ⟨w', ws, rfl⟩ := hwords.exists_cons
          have hlen := congrArg List.length hargs
          simp only [List.length_cons, List.length_append] at h hlen
          dsimp only
          rcases ih rest (by omega) with ⟨fields, hfields⟩ | ⟨info, hinfo⟩
          · rw [hfields]
            exact .inl ⟨_, rfl⟩
          · rw [hinfo]
            exact .inr ⟨_, rfl⟩

variable (env) in
lemma parseDeclaration_cases (args : List Obj) :
    (∃ d, parseDeclaration env args = .ok d) ∨
      ∃ info, parseDeclaration env args = .error info := by
  rcases args with _ | ⟨typeId, _ | ⟨typeName, _ | ⟨list, _ | ⟨more, args⟩⟩⟩⟩
  · exact .inr ⟨_, rfl⟩
  · exact .inr ⟨_, rfl⟩
  · exact .inr ⟨_, rfl⟩
  · rw [parseDeclaration]
    cases env.getInt typeId with
    | none => exact .inr ⟨_, rfl⟩
    | some type =>
      cases env.codec.tcl.getList list with
      | none => exact .inr ⟨_, rfl⟩
      | some fieldList =>
        rw [TclResult.check_some, TclResult.check_some, TclResult.ok_bind, TclResult.ok_bind]
        rcases declareFields_cases env fieldList le_rfl with
          ⟨fields, hfields⟩ | ⟨info, hinfo⟩
        · rw [hfields]
          exact .inl ⟨_, rfl⟩
        · rw [hinfo]
          exact .inr ⟨_, rfl⟩
  · exact .inr ⟨_, rfl⟩

variable (env) in
/-- A call that ADLB does not accept changes nothing. -/
def CallFits (accepts : (ℤ → Option StructDecl) → Declaration → Bool) (s : StructState Obj)
    (args : List Obj) : Prop :=
  ∀ d, parseDeclaration env args = .ok d → accepts s.declared d = true → TypeFits s d

variable {accepts : (ℤ → Option StructDecl) → Declaration → Bool}

lemma declareCall_accepted {s : StructState Obj} {args : List Obj} {d : Declaration}
    (hparse : parseDeclaration env args = .ok d) (haccepts : accepts s.declared d = true) :
    declareCall env accepts s args =
      match TclCmd.ofStep (declareStructType env d) s with
      | (.ok (), t) => .ok t
      | (.error (.error _), t) => .ok t
      | (.error e, _) => .error e := by
  have hcmd : adlbDeclareStructTypeCmd env accepts args s =
      TclCmd.ofStep (declareStructType env d) s := by
    have hget : (Cmd.get : TclCmd (StructState Obj) _) s = (.ok s, s) := rfl
    rw [adlbDeclareStructTypeCmd, hparse, TclCmd.ofResult_ok, pure_bind, Cmd.bind_of_ok hget,
      haccepts, TclCmd.condition_true, pure_bind]
  rw [declareCall, hcmd]

lemma declareCall_refused {s : StructState Obj} {args : List Obj}
    (h : ∀ d, parseDeclaration env args = .ok d → accepts s.declared d = false) :
    declareCall env accepts s args = .ok s := by
  have hget : (Cmd.get : TclCmd (StructState Obj) _) s = (.ok s, s) := rfl
  have hcmd : ∃ info, adlbDeclareStructTypeCmd env accepts args s = (.error (.error info), s) := by
    rw [adlbDeclareStructTypeCmd]
    rcases parseDeclaration_cases env args with ⟨d, hd⟩ | ⟨info, hinfo⟩
    · rw [hd, TclCmd.ofResult_ok, pure_bind, Cmd.bind_of_ok hget, h d hd]
      exact ⟨_, rfl⟩
    · rw [hinfo]
      exact ⟨_, rfl⟩
  obtain ⟨info, hinfo⟩ := hcmd
  rw [declareCall, hinfo]

/-- The step lemma. -/
lemma declareCall_of_fits {s : StructState Obj} {args : List Obj} (hs : TableMeets env s)
    (h : CallFits env accepts s args) :
    ∃ t, declareCall env accepts s args = .ok t ∧ TableMeets env t := by
  by_cases hd : ∃ d, parseDeclaration env args = .ok d ∧ accepts s.declared d = true
  · obtain ⟨d, hparse, haccepts⟩ := hd
    obtain ⟨t, hstep, ht⟩ := declareStructType_of_fits hs (h d hparse haccepts)
    refine ⟨t, ?_, ht⟩
    rw [declareCall_accepted hparse haccepts, TclCmd.ofStep_of_ok hstep]
  · refine ⟨s, declareCall_refused ?_, hs⟩
    intro d hparse
    by_contra haccepts
    exact hd ⟨d, hparse, by simpa using haccepts⟩

lemma fits_of_declareCall {s t : StructState Obj} {args : List Obj}
    (h : declareCall env accepts s args = .ok t) : CallFits env accepts s args := by
  intro d hparse haccepts
  by_contra hfits
  rw [declareCall_accepted hparse haccepts, TclCmd.ofStep,
    declareStructType_undefined hfits] at h
  cases h

lemma tableMeets_init : TableMeets env StructState.init where
  declared st decl h := by cases h
  empty i objs h := by
    have hmem := List.eq_of_mem_replicate (List.mem_of_getElem? h)
    cases hmem

/-- Over every run of declarations, whatever becomes of each. -/
theorem declared_names_iff (env : CreateEnv Obj D)
    (accepts : (ℤ → Option StructDecl) → Declaration → Bool) (calls : List (List Obj)) :
    Safe (declareCall env accepts) (TableMeets env) StructState.init calls ↔
      Guarded (declareCall env accepts) (CallFits env accepts) StructState.init calls :=
  safe_iff_guarded (fun _ h => h) (fun _ _ hs h => declareCall_of_fits hs h)
    (fun _ _ _ _ h _ => fits_of_declareCall h) tableMeets_init calls

/-- `adlb::declare_struct_type 128 s {}` as the first call. -/
theorem not_declared_names :
    ¬ ∀ calls, Safe (declareCall valueEnv fun _ _ => true) (TableMeets valueEnv)
      StructState.init calls := by
  intro h
  obtain ⟨-, t, hcall, -⟩ := h [[values.newWideInt 128, .str [115], .list []]]
  have hparse : parseDeclaration valueEnv [values.newWideInt 128, .str [115], .list []] =
      .ok ⟨128, [115], []⟩ := by
    rw [parseDeclaration, getInt_newWideInt]
    rfl
  obtain ⟨-, hlt | ⟨-, hlt⟩⟩ := fits_of_declareCall hcall _ hparse rfl
  · exact absurd hlt (by decide)
  · exact absurd hlt (by decide)

end Turbine.Create
