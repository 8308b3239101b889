import Turbine.Create.Model

/-! What the arguments of a create command look like, and the requests that other arguments lead
to. -/

namespace Turbine.Create

open Tcl Adlb Codec Library

variable {Obj D : Type} (env : CreateEnv Obj D)

def Names (word : Obj) (type : DataType) (extra : TypeExtra) : Prop :=
  env.names.typeOf (env.codec.tcl.getString word) = some (type, extra)

inductive TypeWords : List Obj → DataType → TypeExtra → Prop
  | plain {w t e} (h : Names env w t e) (ht : t ≠ .container ∧ t ≠ .multiset) : TypeWords [w] t e
  | container {w wk wv k ek v ev} (h : Names env w .container .null) (hk : Names env wk k ek)
      (hv : Names env wv v ev) : TypeWords [w, wk, wv] .container (.container k v)
  | multiset {w wv v ev} (h : Names env w .multiset .null) (hv : Names env wv v ev) :
      TypeWords [w, wv] .multiset (.multiset v)

/-- Properties from the first on, as long as there are arguments; the result has the arguments that
are left over. -/
def applyProps : List (Obj → CreateProps → Option CreateProps) → List Obj → CreateProps →
    Option (CreateProps × List Obj)
  | _, [], props => some (props, [])
  | [], args, props => some (props, args)
  | set :: sets, arg :: args, props => (set arg props).bind (applyProps sets args)

def propSetters : List (Obj → CreateProps → Option CreateProps) :=
  [setReadRefcount env, setWriteRefcount env, setSymbol env, setPermanent env]

def typeProps (type : DataType) : CreateProps :=
  { env.defaultCreateProps with releaseWriteRefs := turbineReleaseWriteRcPolicy env type }

/-- `<id>`, or nothing where a new one is to be made. -/
def IdWords (acceptId : Bool) (words : List Obj) (id : Int64) : Prop :=
  if acceptId then ∃ w, words = [w] ∧ env.codec.tcl.getWideInt w = some id
  else words = [] ∧ id = env.idNull

/-- The arguments with what is left over behind all four properties. -/
def Matches (acceptId : Bool) (args : List Obj) (s : Spec) (rest : List Obj) : Prop :=
  ∃ idWords typeWords propWords, args = idWords ++ typeWords ++ propWords ∧
    IdWords env acceptId idWords s.id ∧ TypeWords env typeWords s.type s.extra ∧
    applyProps (propSetters env) propWords (typeProps env s.type) = some (s.props, rest)

variable {env}

lemma applyProps_cons (set : Obj → CreateProps → Option CreateProps)
    (sets : List (Obj → CreateProps → Option CreateProps)) (args : List Obj)
    (props : CreateProps) :
    applyProps (set :: sets) args props =
      (applyProps [set] args props).bind fun r => applyProps sets r.2 r.1 := by
  cases args with
  | nil => cases sets <;> rfl
  | cons arg args =>
    rw [applyProps, applyProps]
    cases set arg props with
    | none => rfl
    | some props => cases args <;> rfl

lemma optionalProp_eq_ok {set : Obj → CreateProps → Option CreateProps} {msg : String}
    {args rest : List Obj} {s t : Spec} :
    optionalProp set msg args s = (.ok rest, t) ↔
      ∃ props, applyProps [set] args s.props = some (props, rest) ∧ t = { s with props := props }
      := by
  cases args with
  | nil =>
    change ((.ok [], s) : Except Failure (List Obj) × Spec) = (.ok rest, t) ↔ _
    simp only [applyProps, Prod.mk.injEq, Except.ok.injEq, Option.some.injEq]
    constructor
    · rintro ⟨rfl, rfl⟩
      exact ⟨_, ⟨rfl, rfl⟩, rfl⟩
    · rintro ⟨props, ⟨rfl, rfl⟩, rfl⟩
      exact ⟨rfl, rfl⟩
  | cons arg args =>
    rw [applyProps]
    cases hset : set arg s.props with
    | none => simp [optionalProp, hset]
    | some props =>
      have hnil : (some props).bind (applyProps [] args) = some (props, args) := by
        cases args <;> rfl
      simp only [optionalProp, hset, hnil, Prod.mk.injEq, Except.ok.injEq, Option.some.injEq]
      constructor
      · rintro ⟨rfl, rfl⟩
        exact ⟨_, ⟨rfl, rfl⟩, rfl⟩
      · rintro ⟨_, ⟨rfl, rfl⟩, rfl⟩
        exact ⟨rfl, rfl⟩

lemma ofResult_eq_ok {α : Type} {r : TclResult α} {s t : Spec} {a : α} :
    (TclCmd.ofResult r : Parse α) s = (.ok a, t) ↔ r = .ok a ∧ t = s := by
  cases r <;> simp [TclCmd.ofResult, TclResult.toExcept, eq_comm]

lemma names_eq_ok {w : Obj} {t : DataType} {e : TypeExtra} :
    adlbTypeFromObjExtra env.codec env.names w = .ok (t, e) ↔ Names env w t e :=
  adlbTypeFromObjExtra_eq_ok

lemma adlbTypeFromObj_eq_ok {w : Obj} {t : DataType} :
    adlbTypeFromObj env w = .ok t ↔ ∃ e, Names env w t e := by
  rw [adlbTypeFromObj, TclResult.bind_eq_ok]
  constructor
  · rintro ⟨⟨t', e⟩, hnames, ht⟩
    obtain rfl := TclResult.ok.inj ht
    exact ⟨e, names_eq_ok.mp hnames⟩
  · rintro ⟨e, hnames⟩
    exact ⟨(t, e), names_eq_ok.mpr hnames, rfl⟩

lemma containerExtra_eq_ok {wk wv : Obj} {args rest : List Obj} {s t : Spec} :
    adlbTypeExtraFromArray env .container (wk :: wv :: args) s = (.ok rest, t) ↔
      ∃ k ek v ev, Names env wk k ek ∧ Names env wv v ev ∧ args = rest ∧
        t = { s with extra := .container k v } := by
  rw [adlbTypeExtraFromArray]
  simp only [Cmd.bind_eq_ok, ofResult_eq_ok, adlbTypeFromObj_eq_ok, Cmd.modify_apply,
    Cmd.pure_apply, Prod.mk.injEq, Except.ok.injEq]
  constructor
  · rintro ⟨k, _, ⟨⟨ek, hk⟩, rfl⟩, v, _, ⟨⟨ev, hv⟩, rfl⟩, _, _, ⟨-, rfl⟩, rfl, rfl⟩
    exact ⟨k, ek, v, ev, hk, hv, rfl, rfl⟩
  · rintro ⟨k, ek, v, ev, hk, hv, rfl, rfl⟩
    exact ⟨k, s, ⟨⟨ek, hk⟩, rfl⟩, v, s, ⟨⟨ev, hv⟩, rfl⟩, (), _, ⟨trivial, rfl⟩, rfl, rfl⟩

lemma multisetExtra_eq_ok {wv : Obj} {args rest : List Obj} {s t : Spec} :
    adlbTypeExtraFromArray env .multiset (wv :: args) s = (.ok rest, t) ↔
      ∃ v ev, Names env wv v ev ∧ args = rest ∧ t = { s with extra := .multiset v } := by
  rw [adlbTypeExtraFromArray]
  simp only [Cmd.bind_eq_ok, ofResult_eq_ok, adlbTypeFromObj_eq_ok, Cmd.modify_apply,
    Cmd.pure_apply, Prod.mk.injEq, Except.ok.injEq]
  constructor
  · rintro ⟨v, _, ⟨⟨ev, hv⟩, rfl⟩, _, _, ⟨-, rfl⟩, rfl, rfl⟩
    exact ⟨v, ev, hv, rfl, rfl⟩
  · rintro ⟨v, ev, hv, rfl, rfl⟩
    exact ⟨v, s, ⟨⟨ev, hv⟩, rfl⟩, (), _, ⟨trivial, rfl⟩, rfl, rfl⟩

/-- The types behind the name of a compound type; nothing behind any other. -/
lemma adlbTypeExtraFromArray_eq_ok {w : Obj} {type : DataType} (hw : Names env w type .null)
    {args rest : List Obj} {s t : Spec} (htype : s.type = type) (hextra : s.extra = .null) :
    adlbTypeExtraFromArray env type args s = (.ok rest, t) ↔
      ∃ words e, TypeWords env (w :: words) type e ∧ args = words ++ rest ∧
        t = { s with extra := e } := by
  have hplain (ht : type ≠ .container ∧ type ≠ .multiset) :
      (pure args : Parse (List Obj)) s = (.ok rest, t) ↔
        ∃ words e, TypeWords env (w :: words) type e ∧ args = words ++ rest ∧
          t = { s with extra := e } := by
    constructor
    · intro h
      obtain ⟨hrest, rfl⟩ := Prod.mk.inj h
      obtain rfl := Except.ok.inj hrest
      exact ⟨[], .null, .plain hw ht, rfl, by rw [← hextra]⟩
    · rintro ⟨words, e, hwords, rfl, rfl⟩
      cases hwords with
      | plain h =>
        obtain rfl := (Prod.mk.inj (Option.some.inj (h.symm.trans hw))).2
        rw [← hextra]
        rfl
      | container => exact (ht.1 rfl).elim
      | multiset => exact (ht.2 rfl).elim
  cases type with
  | container =>
    rcases args with _ | ⟨wk, _ | ⟨wv, args⟩⟩
    · refine iff_of_false (by rintro ⟨⟩) ?_
      rintro ⟨words, e, ⟨h, ht⟩ | _ | _, hargs, -⟩
      · exact ht.1 rfl
      · cases hargs
    · refine iff_of_false (by rintro ⟨⟩) ?_
      rintro ⟨words, e, ⟨h, ht⟩ | _ | _, hargs, -⟩
      · exact ht.1 rfl
      · cases hargs
    · rw [containerExtra_eq_ok]
      constructor
      · rintro ⟨k, ek, v, ev, hk, hv, rfl, rfl⟩
        exact ⟨[wk, wv], _, .container hw hk hv, rfl, rfl⟩
      · rintro ⟨words, e, ⟨h, ht⟩ | ⟨h, hk, hv⟩ | _, hargs, rfl⟩
        · exact (ht.1 rfl).elim
        · cases hargs
          exact ⟨_, _, _, _, hk, hv, rfl, rfl⟩
  | multiset =>
    rcases args with _ | ⟨wv, args⟩
    · refine iff_of_false (by rintro ⟨⟩) ?_
      rintro ⟨words, e, ⟨h, ht⟩ | _ | _, hargs, -⟩
      · exact ht.2 rfl
      · cases hargs
    · rw [multisetExtra_eq_ok]
      constructor
      · rintro ⟨v, ev, hv, rfl, rfl⟩
        exact ⟨[wv], _, .multiset hw hv, rfl, rfl⟩
      · rintro ⟨words, e, ⟨h, ht⟩ | _ | ⟨h, hv⟩, hargs, rfl⟩
        · exact (ht.2 rfl).elim
        · cases hargs
          exact ⟨_, _, hv, rfl, rfl⟩
  | null => exact hplain (by simp)
  | integer => exact hplain (by simp)
  | float => exact hplain (by simp)
  | string => exact hplain (by simp)
  | blob => exact hplain (by simp)
  | ref => exact hplain (by simp)
  | struct => exact hplain (by simp)

lemma TypeWords.head {w : Obj} {words : List Obj} {type : DataType} {e : TypeExtra}
    (h : TypeWords env (w :: words) type e) :
    ∃ e', Names env w type e' ∧ (e' ≠ .null → words = [] ∧ e' = e) := by
  cases h with
  | plain h _ => exact ⟨e, h, fun _ => ⟨rfl, rfl⟩⟩
  | container h _ _ => exact ⟨.null, h, fun hne => (hne rfl).elim⟩
  | multiset h _ => exact ⟨.null, h, fun hne => (hne rfl).elim⟩

lemma TypeWords.exists_cons {words : List Obj} {type : DataType} {e : TypeExtra}
    (h : TypeWords env words type e) : ∃ w ws, words = w :: ws := by
  cases h <;> exact ⟨_, _, rfl⟩

/-- The record of a name that has one is taken as it is. -/
lemma adlbTypeFromArray_eq_ok {args rest : List Obj} {s t : Spec} :
    adlbTypeFromArray env args s = (.ok rest, t) ↔
      ∃ words type e, TypeWords env words type e ∧ args = words ++ rest ∧
        t = { s with type := type, extra := e } := by
  rcases args with _ | ⟨w, args⟩
  · refine iff_of_false (by rintro ⟨⟩) ?_
    rintro ⟨words, type, e, hwords, hargs, -⟩
    cases hwords <;> cases hargs
  rw [adlbTypeFromArray]
  simp only [Cmd.bind_eq_ok, ofResult_eq_ok, names_eq_ok, Cmd.modify_apply, Prod.mk.injEq,
    Prod.exists]
  constructor
  · rintro ⟨_, _, ⟨-, rfl⟩, type, extra, _, ⟨hw, rfl⟩, _, _, ⟨-, rfl⟩, hrest⟩
    split at hrest
    case isTrue hnull =>
      subst hnull
      obtain ⟨words, e, hwords, rfl, rfl⟩ := (adlbTypeExtraFromArray_eq_ok hw rfl rfl).mp hrest
      exact ⟨w :: words, type, e, hwords, rfl, rfl⟩
    case isFalse hne =>
      obtain ⟨hargs, rfl⟩ := Prod.mk.inj hrest
      obtain rfl := Except.ok.inj hargs
      have hstruct : type = .struct := by
        by_contra ht
        exact hne (env.names.extra_null _ _ _ hw ht)
      exact ⟨[w], type, extra, .plain hw (by simp [hstruct]), rfl, rfl⟩
  · rintro ⟨words, type, e, hwords, hargs, rfl⟩
    obtain ⟨w', words, rfl⟩ := hwords.exists_cons
    obtain ⟨rfl, rfl⟩ := List.cons.inj hargs
    obtain ⟨e', hw, hextra⟩ := hwords.head
    refine ⟨(), _, ⟨trivial, rfl⟩, type, e', _, ⟨hw, rfl⟩, (), _, ⟨trivial, rfl⟩, ?_⟩
    split
    case isTrue hnull =>
      subst hnull
      exact (adlbTypeExtraFromArray_eq_ok hw rfl rfl).mpr ⟨words, e, hwords, rfl, rfl⟩
    case isFalse hne =>
      obtain ⟨rfl, rfl⟩ := hextra hne
      rfl

lemma extractId_eq_ok {acceptId : Bool} {args rest : List Obj} {s t : Spec} (hrest : rest ≠ []) :
    extractId env acceptId args s = (.ok rest, t) ↔
      ∃ words id, IdWords env acceptId words id ∧ args = words ++ rest ∧ t = { s with id := id } :=
    by
  cases acceptId with
  | false =>
    rcases args with _ | ⟨w, args⟩
    · refine iff_of_false (by rintro ⟨⟩) ?_
      rintro ⟨words, id, -, hargs, -⟩
      exact hrest (List.append_eq_nil_iff.mp hargs.symm).2
    · simp only [extractId, IdWords, Bool.false_eq_true, if_false, Cmd.bind_eq_ok,
        Cmd.modify_apply, Cmd.pure_apply, Prod.mk.injEq, Except.ok.injEq]
      constructor
      · rintro ⟨_, _, ⟨-, rfl⟩, rfl, rfl⟩
        exact ⟨[], env.idNull, ⟨rfl, rfl⟩, rfl, rfl⟩
      · rintro ⟨words, id, ⟨rfl, rfl⟩, hargs, rfl⟩
        exact ⟨(), _, ⟨trivial, rfl⟩, hargs, rfl⟩
  | true =>
    rcases args with _ | ⟨w, _ | ⟨type, args⟩⟩
    · refine iff_of_false (by rintro ⟨⟩) ?_
      rintro ⟨words, id, -, hargs, -⟩
      exact hrest (List.append_eq_nil_iff.mp hargs.symm).2
    · refine iff_of_false (by rintro ⟨⟩) ?_
      rintro ⟨words, id, ⟨w', rfl, -⟩, hargs, -⟩
      exact hrest (List.cons.inj hargs).2.symm
    · simp only [extractId, IdWords, if_true, Cmd.bind_eq_ok, ofResult_eq_ok,
        TclResult.require_eq_ok, Cmd.modify_apply, Cmd.pure_apply, Prod.mk.injEq,
        Except.ok.injEq]
      constructor
      · rintro ⟨id, _, ⟨hid, rfl⟩, _, _, ⟨-, rfl⟩, rfl, rfl⟩
        exact ⟨[w], id, ⟨w, rfl, hid⟩, rfl, rfl⟩
      · rintro ⟨words, id, ⟨w', rfl, hid⟩, hargs, rfl⟩
        obtain ⟨rfl, rfl⟩ := List.cons.inj hargs
        exact ⟨id, s, ⟨hid, rfl⟩, (), _, ⟨trivial, rfl⟩, rfl, rfl⟩

lemma applyProps_setters (args : List Obj) (props : CreateProps) :
    applyProps (propSetters env) args props =
      (applyProps [setReadRefcount env] args props).bind fun r₁ =>
      (applyProps [setWriteRefcount env] r₁.2 r₁.1).bind fun r₂ =>
      (applyProps [setSymbol env] r₂.2 r₂.1).bind fun r₃ =>
      applyProps [setPermanent env] r₃.2 r₃.1 := by
  rw [propSetters, applyProps_cons]
  simp only [applyProps_cons _ (_ :: _)]

lemma extractCreateProps_eq_ok {acceptId : Bool} {args : List Obj} {s t : Spec} :
    extractCreateProps env acceptId args s = (.ok (), t) ↔
      ∃ rest, Matches env acceptId args t rest := by
  rw [extractCreateProps]
  simp only [Cmd.bind_eq_ok, Cmd.modify_apply, Cmd.pure_apply, Prod.mk.injEq,
    optionalProp_eq_ok, adlbTypeFromArray_eq_ok]
  constructor
  · rintro ⟨_, _, ⟨-, rfl⟩, args₁, s₁, hid, args₂, s₂, ⟨typeWords, type, e, htype, rfl, rfl⟩,
      _, _, ⟨-, rfl⟩, args₃, s₃, ⟨p₁, h₁, rfl⟩, args₄, s₄, ⟨p₂, h₂, rfl⟩, args₅, s₅, ⟨p₃, h₃, rfl⟩,
      rest, s₆, ⟨p₄, h₄, rfl⟩, -, rfl⟩
    obtain ⟨w, ws, rfl⟩ := htype.exists_cons
    obtain ⟨idWords, id, hidWords, rfl, rfl⟩ := (extractId_eq_ok (by simp)).mp hid
    refine ⟨rest, idWords, w :: ws, args₂, by simp, hidWords, htype, ?_⟩
    rw [applyProps_setters]
    simp only [typeProps] at h₁ ⊢
    simp only [h₁, Option.bind_some, h₂, h₃, h₄]
  · rintro ⟨rest, idWords, typeWords, propWords, rfl, hid, htype, hprops⟩
    rw [applyProps_setters] at hprops
    simp only [Option.bind_eq_some_iff, Prod.exists] at hprops
    obtain ⟨p₁, a₁, h₁, p₂, a₂, h₂, p₃, a₃, h₃, h₄⟩ := hprops
    obtain ⟨w, ws, hws⟩ := htype.exists_cons
    refine ⟨(), _, ⟨trivial, rfl⟩, typeWords ++ propWords, _,
      (extractId_eq_ok (by simp [hws])).mpr ⟨idWords, t.id, hid, by simp, rfl⟩, propWords, _,
      ⟨typeWords, t.type, t.extra, htype, rfl, rfl⟩, (), _, ⟨trivial, rfl⟩, a₁, _, ⟨p₁, h₁, rfl⟩,
      a₂, _, ⟨p₂, h₂, rfl⟩, a₃, _, ⟨p₃, h₃, rfl⟩, rest, _, ⟨t.props, h₄, rfl⟩, trivial, rfl⟩

/-! ### The output parameters after an error -/

lemma keeps_optionalProp {P : Spec → Prop} (hP : ∀ s props, P s → P { s with props := props })
    (set : Obj → CreateProps → Option CreateProps) (msg : String) (args : List Obj) :
    Cmd.Keeps (optionalProp set msg args) P := by
  intro s hs
  cases args with
  | nil => exact hs
  | cons arg args =>
    simp only [optionalProp]
    cases set arg s.props with
    | none => exact hs
    | some props => exact hP s props hs

lemma keeps_ofResult {α : Type} (r : TclResult α) (P : Spec → Prop) :
    Cmd.Keeps (TclCmd.ofResult r : Parse α) P :=
  Cmd.keeps_ofExcept _ P

lemma keeps_adlbTypeExtraFromArray {P : Spec → Prop}
    (hP : ∀ s extra, P s → P { s with extra := extra }) (type : DataType) (args : List Obj) :
    Cmd.Keeps (adlbTypeExtraFromArray env type args) P := by
  have hset (extra : TypeExtra) (rest : List Obj) : Cmd.Keeps
      (Cmd.modify (fun s : Spec => { s with extra := extra }) >>= fun _ =>
        (pure rest : Parse (List Obj))) P :=
    (Cmd.keeps_modify fun s => hP s extra).bind fun _ => Cmd.keeps_pure rest P
  cases type with
  | container =>
    rcases args with _ | ⟨wk, _ | ⟨wv, args⟩⟩
    · exact Cmd.keeps_throw _ P
    · exact Cmd.keeps_throw _ P
    · exact (keeps_ofResult _ P).bind fun _ => (keeps_ofResult _ P).bind fun _ => hset _ _
  | multiset =>
    rcases args with _ | ⟨wv, args⟩
    · exact Cmd.keeps_throw _ P
    · exact (keeps_ofResult _ P).bind fun _ => hset _ _
  | null => exact Cmd.keeps_pure _ P
  | integer => exact Cmd.keeps_pure _ P
  | float => exact Cmd.keeps_pure _ P
  | string => exact Cmd.keeps_pure _ P
  | blob => exact Cmd.keeps_pure _ P
  | ref => exact Cmd.keeps_pure _ P
  | struct => exact Cmd.keeps_pure _ P

variable (env) in
/-- Two arguments, of which the first is an id and the second the name of a type. -/
def TypeKnown (args : List Obj) : Prop :=
  ∃ idWord w rest type e, args = idWord :: w :: rest ∧
    (env.codec.tcl.getWideInt idWord).isSome ∧ Names env w type e

/-- The name of the type is taken over at once, whatever becomes of the arguments behind it. -/
lemma extractCreateProps_type {idWord w : Obj} {rest : List Obj} {type : DataType} {e : TypeExtra}
    (hid : (env.codec.tcl.getWideInt idWord).isSome) (hw : Names env w type e) (s : Spec) :
    (extractCreateProps env true (idWord :: w :: rest) s).2.type = type := by
  obtain ⟨id, hid⟩ := Option.isSome_iff_exists.mp hid
  let P : Spec → Prop := fun t => t.type = type
  have hextra (t : Spec) (extra : TypeExtra) (ht : P t) : P { t with extra := extra } := ht
  have hprops (t : Spec) (props : CreateProps) (ht : P t) : P { t with props := props } := ht
  have hidOk : extractId env true (idWord :: w :: rest) { s with props := .zero } =
      (.ok (w :: rest), { s with props := .zero, id := id }) :=
    (extractId_eq_ok (by simp)).mpr ⟨[idWord], id, ⟨idWord, rfl, hid⟩, rfl, rfl⟩
  have htail (args : List Obj) := (Cmd.keeps_modify (E := Failure) (P := P)
      (f := fun s : Spec => { s with props := typeProps env s.type }) fun t ht => ht).bind fun _ =>
    (keeps_optionalProp hprops (setReadRefcount env) "could not get read_refcount argument"
      args).bind fun args =>
    (keeps_optionalProp hprops (setWriteRefcount env) "could not get write_refcount argument"
      args).bind fun args =>
    (keeps_optionalProp hprops (setSymbol env) "could not get debug symbol argument" args).bind
      fun args =>
    (keeps_optionalProp hprops (setPermanent env) "could not get permanent argument" args).bind
      fun _ => Cmd.keeps_pure () P
  have htype : P (adlbTypeFromArray env (w :: rest) { s with props := .zero, id := id }).2 := by
    rw [adlbTypeFromArray, Cmd.bind_of_ok (Cmd.modify_apply _ _),
      Cmd.bind_of_ok (ofResult_eq_ok.mpr ⟨names_eq_ok.mpr hw, rfl⟩)]
    dsimp only
    rw [Cmd.bind_of_ok (Cmd.modify_apply _ _)]
    split
    · exact keeps_adlbTypeExtraFromArray hextra type rest _ rfl
    · rfl
  rw [extractCreateProps, Cmd.bind_of_ok (Cmd.modify_apply _ _), Cmd.bind_of_ok hidOk]
  exact Cmd.bind_keeps htype htail

lemma Matches.typeKnown {args rest : List Obj} {s : Spec} (h : Matches env true args s rest) :
    TypeKnown env args := by
  obtain ⟨idWords, typeWords, propWords, rfl, ⟨idWord, rfl, hid⟩, htype, -⟩ := h
  obtain ⟨w, ws, rfl⟩ := htype.exists_cons
  obtain ⟨e', hw, -⟩ := htype.head
  exact ⟨idWord, w, ws ++ propWords, s.type, e', by simp, by rw [hid]; rfl, hw⟩

/-- Before the name of the type is read there is no type. -/
lemma extractCreateProps_noType {args : List Obj} (h : ¬ TypeKnown env args) :
    (extractCreateProps env true args (noSpec env)).2.type = .null := by
  rw [extractCreateProps, Cmd.bind_of_ok (Cmd.modify_apply _ _)]
  rcases args with _ | ⟨idWord, _ | ⟨w, rest⟩⟩
  · rfl
  · rfl
  cases hid : env.codec.tcl.getWideInt idWord with
  | none =>
    have hfail (s : Spec) : extractId env true (idWord :: w :: rest) s =
        (.error (.error ["could not get data id"]), s) := by
      rw [extractId, if_pos rfl, hid]
      rfl
    rw [Cmd.bind_of_error (hfail _)]
    rfl
  | some id =>
    have hidOk (s : Spec) : extractId env true (idWord :: w :: rest) s =
        (.ok (w :: rest), { s with id := id }) :=
      (extractId_eq_ok (by simp)).mpr ⟨[idWord], id, ⟨idWord, rfl, hid⟩, rfl, rfl⟩
    rw [Cmd.bind_of_ok (hidOk _)]
    cases hw : env.names.typeOf (env.codec.tcl.getString w) with
    | none =>
      have hfail (s : Spec) : ∃ f, adlbTypeFromArray env (w :: rest) s =
          (.error f, { s with extra := .null }) := by
        rw [adlbTypeFromArray, Cmd.bind_of_ok (Cmd.modify_apply _ _), adlbTypeFromObjExtra, hw]
        exact ⟨_, rfl⟩
      obtain ⟨f, hf⟩ := hfail { noSpec env with props := .zero, id := id }
      rw [Cmd.bind_of_error hf]
      rfl
    | some te => exact (h ⟨idWord, w, rest, te.1, te.2, rfl, by rw [hid]; rfl, hw⟩).elim

lemma createRequest_eq_error {s : Spec} {info : List String} (h : createRequest s = .error info) :
    s.type = .null := by
  obtain ⟨id, type, extra, props⟩ := s
  cases type <;> cases extra <;> first | rfl | cases h

/-- `ADLB_Data_string_totype` finds no name for the null type, and a struct type is the record of
its name. -/
structure NamesLawful (names : TypeNames) : Prop where
  type_ne_null : ∀ s t e, names.typeOf s = some (t, e) → t ≠ .null
  struct_extra : ∀ s e, names.typeOf s = some (.struct, e) → e = .null ∨ ∃ st, e = .struct st

/-- What was parsed is requested as it is. -/
lemma Matches.createRequest_eq (hN : NamesLawful env.names) {acceptId : Bool}
    {args rest : List Obj} {s : Spec} (h : Matches env acceptId args s rest) :
    createRequest s = .ok s := by
  obtain ⟨-, typeWords, -, -, -, htype, -⟩ := h
  obtain ⟨id, type, extra, props⟩ := s
  cases htype with
  | @plain w t e hw ht =>
    have hne := hN.type_ne_null _ _ _ hw
    have hextra (hs : type ≠ .struct) : extra = .null := env.names.extra_null _ _ _ hw hs
    cases type with
    | container => exact (ht.1 rfl).elim
    | multiset => exact (ht.2 rfl).elim
    | null => exact (hne rfl).elim
    | struct =>
      rcases hN.struct_extra _ _ hw with rfl | ⟨st, rfl⟩ <;> rfl
    | integer =>
      obtain rfl := hextra (by simp)
      rfl
    | float =>
      obtain rfl := hextra (by simp)
      rfl
    | string =>
      obtain rfl := hextra (by simp)
      rfl
    | blob =>
      obtain rfl := hextra (by simp)
      rfl
    | ref =>
      obtain rfl := hextra (by simp)
      rfl
  | container => rfl
  | multiset => rfl

end Turbine.Create
