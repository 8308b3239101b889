import Turbine.Codec.CompoundTypes
import Turbine.Handle.Model
import Turbine.Tcl.Commands

/-! Values of compound types: an accepted type list is long enough for the encoder, and the store
command reads the value behind the words of its type. -/

namespace Turbine.Codec

open Tcl Adlb Library Handle

variable {Obj D : Type} (E : Env Obj D) (names : TypeNames)

/-- The message of `compound_type_next`. -/
def PastEnd (msg : String) : Prop :=
  ∃ ctypePos len : ℕ, msg = "Consumed past end of compound type info (" ++ toString ctypePos ++
    "/" ++ toString len ++ ")"

def NeverPastEnd {α : Type} (r : TclResult α) : Prop :=
  ∀ info, r = .error info → ∀ msg ∈ info, ¬ PastEnd msg

/-! ### The encoder -/

/-- A message that starts otherwise. -/
def startsOtherwise (msg : String) : Bool :=
  match msg.toList with
  | a :: b :: c :: _ => (a, b, c) ≠ ('C', 'o', 'n')
  | _ => false

lemma startsOtherwise_append {s : String} (h : startsOtherwise s = true) (t : String) :
    startsOtherwise (s ++ t) = true := by
  rw [startsOtherwise] at h ⊢
  rw [String.toList_append]
  rcases hs : s.toList with _ | ⟨a, _ | ⟨b, _ | ⟨c, l⟩⟩⟩ <;> rw [hs] at h
  · cases h
  · cases h
  · cases h
  · exact h

lemma not_pastEnd {msg : String} (h : startsOtherwise msg = true) : ¬ PastEnd msg := by
  rintro ⟨i, n, rfl⟩
  rw [startsOtherwise] at h
  simp only [String.toList_append] at h
  exact absurd h (by simp)

section Closure

variable {α β : Type}

lemma neverPastEnd_ok (a : α) : NeverPastEnd (.ok a : TclResult α) := by rintro info ⟨⟩

lemma neverPastEnd_undefined : NeverPastEnd (.undefined : TclResult α) := by rintro info ⟨⟩

lemma neverPastEnd_abort (text : String) : NeverPastEnd (.abort text : TclResult α) := by
  rintro info ⟨⟩

lemma neverPastEnd_error {msg : String} (h : startsOtherwise msg = true) :
    NeverPastEnd (.error [msg] : TclResult α) := by
  rintro info ⟨⟩ m hm
  rw [List.mem_singleton] at hm
  exact hm ▸ not_pastEnd h

lemma NeverPastEnd.bind {x : TclResult α} {f : α → TclResult β} (hx : NeverPastEnd x)
    (hf : ∀ a, x = .ok a → NeverPastEnd (f a)) : NeverPastEnd (x >>= f) := by
  cases x with
  | ok a => exact hf a rfl
  | error info =>
    intro info' h
    obtain rfl := TclResult.error.inj h
    exact hx info rfl
  | abort text => exact neverPastEnd_abort text
  | undefined => exact neverPastEnd_undefined

lemma NeverPastEnd.map {x : TclResult α} {f : α → β} (hx : NeverPastEnd x) :
    NeverPastEnd (f <$> x) := by
  rw [map_eq_bind_pure_comp]
  exact hx.bind fun a _ => neverPastEnd_ok (f a)

lemma neverPastEnd_require (x : Option α) {msg : String} (h : startsOtherwise msg = true) :
    NeverPastEnd (TclResult.require x msg) := by
  cases x with
  | none => exact neverPastEnd_error h
  | some a => exact neverPastEnd_ok a

lemma neverPastEnd_check (x : Option α) : NeverPastEnd (TclResult.check x) := by
  cases x with
  | none =>
    rintro info ⟨⟩ m hm
    cases hm
  | some a => exact neverPastEnd_ok a

lemma NeverPastEnd.addInfo {x : TclResult α} (hx : NeverPastEnd x) {msg : String}
    (h : startsOtherwise msg = true) : NeverPastEnd (x.addInfo msg) := by
  cases x with
  | error info =>
    rintro info' ⟨⟩ m hm
    rcases List.mem_append.mp hm with hm | hm
    · exact hx info rfl m hm
    · rw [List.mem_singleton] at hm
      exact hm ▸ not_pastEnd h
  | ok a => exact neverPastEnd_ok a
  | abort text => exact neverPastEnd_abort text
  | undefined => exact neverPastEnd_undefined

lemma neverPastEnd_foldlM {f : β → α → TclResult β} (h : ∀ b a, NeverPastEnd (f b a))
    (l : List α) (b : β) : NeverPastEnd (l.foldlM f b) := by
  induction l generalizing b with
  | nil => exact neverPastEnd_ok b
  | cons a l ih =>
    rw [List.foldlM_cons]
    exact (h b a).bind fun b' _ => ih b'

end Closure

variable {E names}

lemma neverPastEnd_structFieldData {datum : DataType → TypeExtra → Obj → TclResult (Datum D)}
    (h : ∀ t e o, NeverPastEnd (datum t e o)) (dict : Obj) (fields : List (Bytes × FieldType)) :
    ∀ objs, NeverPastEnd (structFieldData E datum dict fields objs) := by
  induction fields with
  | nil =>
    intro objs
    rw [structFieldData]
    exact neverPastEnd_ok _
  | cons field fields ih =>
    rintro (_ | ⟨obj, objs⟩)
    · exact neverPastEnd_undefined
    · rw [structFieldData]
      refine (neverPastEnd_require _ ?_).bind fun d _ => ?_
      · simp only [String.append_assoc]
        exact startsOtherwise_append (by decide) _
      · have hrest (value : Option (Datum D)) : NeverPastEnd (do
            let rest ← structFieldData E datum dict fields objs
            .ok (value :: rest)) := (ih objs).bind fun _ _ => neverPastEnd_ok _
        cases E.tcl.dictGet d obj with
        | none => exact hrest none
        | some val => exact (h _ _ _).map.bind fun value _ => hrest value

lemma neverPastEnd_fieldNameObjs (st : ℤ) : NeverPastEnd (fieldNameObjs E st) := by
  unfold fieldNameObjs
  refine NeverPastEnd.bind ?_ fun _ _ => ?_
  · unfold TclResult.assert
    split
    · exact neverPastEnd_ok _
    · exact neverPastEnd_abort _
  · rcases E.structs.nameObjs[st.toNat]? with _ | _ | objs
    · exact neverPastEnd_undefined
    · exact neverPastEnd_abort _
    · exact neverPastEnd_ok _

/-- One case per type; a struct has values of smaller structs. -/
lemma neverPastEnd_datum (type : DataType) (extra : TypeExtra) (obj : Obj) :
    NeverPastEnd (adlbTclobj2datum E type extra obj) := by
  have hlit₁ {a b : String} (h : startsOtherwise a = true) (x : String) :
      startsOtherwise (a ++ x ++ b) = true :=
    startsOtherwise_append (startsOtherwise_append h x) b
  fun_induction adlbTclobj2datum E type extra obj with
  | case1 extra obj =>
    exact (neverPastEnd_require _ (hlit₁ (by decide) _)).bind fun _ _ => neverPastEnd_ok _
  | case2 extra obj =>
    exact (neverPastEnd_require _ (hlit₁ (by decide) _)).bind fun _ _ => neverPastEnd_ok _
  | case3 extra obj =>
    exact (neverPastEnd_require _ (hlit₁ (by decide) _)).bind fun _ _ => neverPastEnd_ok _
  | case4 extra obj =>
    refine NeverPastEnd.bind ?_ fun _ _ => neverPastEnd_ok _
    unfold TclResult.condition
    split
    · exact neverPastEnd_ok _
    · exact neverPastEnd_error (hlit₁ (by decide) _)
  | case5 extra obj =>
    exact (neverPastEnd_require _ (hlit₁ (by decide) _)).bind fun _ _ => neverPastEnd_ok _
  | case6 obj st ih =>
    unfold tclDictToAdlbStruct
    refine (neverPastEnd_require _ (startsOtherwise_append (by decide) _)).bind fun decl _ =>
      (neverPastEnd_fieldNameObjs st).bind fun objs _ =>
        (neverPastEnd_structFieldData ?_ obj decl.fields objs).bind fun _ _ => neverPastEnd_ok _
    intro t e o
    split
    case isTrue hdepth => exact ih t e o hdepth
    case isFalse => exact neverPastEnd_undefined
  | case7 => exact neverPastEnd_error (by decide)
  | case8 => exact neverPastEnd_error (hlit₁ (by decide) _)
  | case9 => exact neverPastEnd_error (hlit₁ (by decide) _)
  | case10 =>
    rintro info ⟨⟩ m hm
    cases hm

lemma neverPastEnd_keyVal {append : Append Obj} {ctypePos : ℕ}
    (h : ∀ o out, NeverPastEnd (append (ctypePos - 1) o true out)) (keyType : DataType)
    (key val : Obj) (out : Bytes) :
    NeverPastEnd (tclAppendKeyVal E append ctypePos keyType key val out) :=
  (neverPastEnd_require _ (by decide)).bind fun _ _ => (h _ _).addInfo (by decide)

lemma neverPastEnd_dict {append : Append Obj} {types : CompoundType} {pos : ℕ}
    {key val : DataType} (hkey : types.types[pos]? = some key)
    (hval : types.types[pos + 1]? = some val)
    (h : ∀ o out, NeverPastEnd (append (pos + 1) o true out)) (dict : Obj) (canonicalize : Bool)
    (out : Bytes) :
    NeverPastEnd (tclDictToPackedContainer E append types pos dict canonicalize out) := by
  obtain ⟨ek, hnextKey⟩ := compoundTypeNext_type hkey
  obtain ⟨ev, hnextVal⟩ := compoundTypeNext_type hval
  rw [tclDictToPackedContainer]
  refine (neverPastEnd_check _).bind fun d _ => ?_
  rw [hnextKey, TclResult.ok_bind]
  dsimp only
  rw [hnextVal, TclResult.ok_bind]
  dsimp only
  refine (neverPastEnd_require _ (by decide)).bind fun out _ => ?_
  split
  · refine neverPastEnd_foldlM ?_ _ _
    intro out key
    split
    · exact (neverPastEnd_keyVal h _ _ _ _).addInfo (by decide)
    · exact neverPastEnd_undefined
  · refine neverPastEnd_foldlM ?_ _ _
    intro out e
    exact (neverPastEnd_keyVal h _ _ _ _).addInfo (by decide)

lemma neverPastEnd_list {append : Append Obj} {types : CompoundType} {pos : ℕ} {elem : DataType}
    (helem : types.types[pos]? = some elem)
    (h : ∀ o out, NeverPastEnd (append pos o true out)) (list : Obj) (canonicalize : Bool)
    (out : Bytes) :
    NeverPastEnd (tclListToPackedMultiset E append types pos list canonicalize out) := by
  obtain ⟨ee, hnext⟩ := compoundTypeNext_type helem
  rw [tclListToPackedMultiset]
  refine (neverPastEnd_check _).bind fun l _ => ?_
  dsimp only
  rw [hnext, TclResult.ok_bind]
  dsimp only
  refine (neverPastEnd_require _ (by decide)).bind fun out _ => ?_
  refine neverPastEnd_foldlM ?_ _ _
  intro out elem
  exact (h _ _).addInfo (by decide)

/-- What the encoder appends for the outermost type, with or without room for its length. -/
lemma neverPastEnd_nested {types : CompoundType} {pos : ℕ} {type : DataType} {extra : TypeExtra}
    (hnext : compoundTypeNext types pos = .ok (type, extra, pos + 1)) (obj : Obj)
    (canonicalize : Bool)
    (hdict : type = .container → ∀ out, NeverPastEnd (tclDictToPackedContainer E
      (nestedAppend E types pos canonicalize) types (pos + 1) obj canonicalize out))
    (hlist : type = .multiset → ∀ out, NeverPastEnd (tclListToPackedMultiset E
      (nestedAppend E types pos canonicalize) types (pos + 1) obj canonicalize out))
    (prefixLen : Bool) (out : Bytes) :
    NeverPastEnd (adlbTclobjBinAppend E types pos obj prefixLen canonicalize out) := by
  rw [adlbTclobjBinAppend, hnext, TclResult.ok_bind]
  dsimp only
  split
  · cases prefixLen with
    | true =>
      simp only [↓reduceIte]
      refine (neverPastEnd_require _ (by decide)).bind fun out _ => ?_
      split
      · exact (hdict rfl out).bind fun _ _ => neverPastEnd_ok _
      · exact (hlist rfl out).bind fun _ _ => neverPastEnd_ok _
      · exact (neverPastEnd_error (startsOtherwise_append (by decide) _)).bind
          fun _ _ => neverPastEnd_ok _
    | false =>
      simp only [Bool.false_eq_true, ↓reduceIte, TclResult.ok_bind]
      split
      · exact (hdict rfl out).bind fun _ _ => neverPastEnd_ok _
      · exact (hlist rfl out).bind fun _ _ => neverPastEnd_ok _
      · exact (neverPastEnd_error (startsOtherwise_append (by decide) _)).bind
          fun _ _ => neverPastEnd_ok _
  · exact (neverPastEnd_datum _ _ _).bind fun _ _ =>
      (neverPastEnd_require _ (startsOtherwise_append (startsOtherwise_append (by decide) _) _)).bind
        fun _ _ => neverPastEnd_require _ (by decide)

/-- Whatever the value is, as long as the list holds a whole type. -/
lemma neverPastEnd_append (types : CompoundType) (T : CompoundTy) : ∀ pos, types.At pos T →
    ∀ (o : Obj) prefixLen canonicalize out,
      NeverPastEnd (adlbTclobjBinAppend E types pos o prefixLen canonicalize out) := by
  induction T with
  | leaf t e ht =>
    intro pos hat o prefixLen canonicalize out
    exact neverPastEnd_nested (compoundTypeNext_entry hat) o canonicalize
      (fun h => (ht.1 h).elim) (fun h => (ht.2 h).elim) prefixLen out
  | container k v ih =>
    intro pos hat o prefixLen canonicalize out
    obtain ⟨e, hnext⟩ := compoundTypeNext_type hat.1
    have hnested (o : Obj) (out : Bytes) :
        NeverPastEnd (nestedAppend E types pos canonicalize (pos + 1 + 1) o true out) := by
      rw [nestedAppend, if_pos ⟨by omega, hat.lt⟩]
      exact ih (pos + 2) hat.2.2 o true canonicalize out
    refine neverPastEnd_nested hnext o canonicalize (fun _ out => ?_) (fun h => by cases h)
      prefixLen out
    exact neverPastEnd_dict hat.2.1 hat.2.2.head_type hnested o canonicalize out
  | multiset v ih =>
    intro pos hat o prefixLen canonicalize out
    obtain ⟨e, hnext⟩ := compoundTypeNext_type hat.1
    have hnested (o : Obj) (out : Bytes) :
        NeverPastEnd (nestedAppend E types pos canonicalize (pos + 1) o true out) := by
      rw [nestedAppend, if_pos ⟨by omega, hat.lt⟩]
      exact ih (pos + 1) hat.2 o true canonicalize out
    refine neverPastEnd_nested hnext o canonicalize (fun h => by cases h) (fun _ out => ?_)
      prefixLen out
    exact neverPastEnd_list hat.2.head_type hnested o canonicalize out

/-- The list that `get_compound_type` returns holds a whole type. -/
lemma getCompoundType_at {args rest : List Obj} {types : CompoundType}
    (h : getCompoundType E names args = .ok (types, rest)) : ∃ T, types.At 0 T := by
  obtain ⟨T, ws, rfl, hT⟩ := getCompoundType_ok_iff.mp ⟨types, h⟩
  obtain ⟨types', htypes, hat⟩ := hT.getCompoundType_eq rest
  obtain ⟨rfl, -⟩ := Prod.mk.inj (TclResult.ok.inj (h.symm.trans htypes))
  exact ⟨T, hat⟩

/-! ### The store command -/

/-- The reference counts of a call of `ADLB_Store`; none where the default is used. -/
structure StoreRefcounts where
  decrWrite : Option ℤ
  decrRead : Option ℤ
  storeRead : Option ℤ
  storeWrite : Option ℤ

/-- The ADLB library as the command calls it, and the memory that the handle is parsed in. -/
structure StoreEnv (Obj : Type) where
  lib : HandleLib
  memory : Memory
  getInt : Obj → Option ℤ
  adlbStore : TclAdlbHandle → DataType → Bytes → StoreRefcounts → Bool

/-- The state says whether an argument past the end was read. -/
abbrev Store (α : Type) := TclCmd Bool α

/-- `objv[argpos++]` -/
def nextArg : List Obj → Store (Obj × List Obj)
  | [] => fun _ => (.error .undefined, true)
  | arg :: args => pure (arg, args)

/-- An integer if there is one more argument. -/
def optionalInt (getInt : Obj → Option ℤ) (msg : String) :
    List Obj → Store (Option ℤ × List Obj)
  | [] => pure (none, [])
  | arg :: args => do
    let n ← TclCmd.ofResult (TclResult.require (getInt arg) msg)
    pure (some n, args)

/-- `adlb::store`, from the value on. -/
def storeValue (env : StoreEnv Obj) (handle : TclAdlbHandle) (type : DataType) (data : Bytes)
    (args : List Obj) : Store Unit := do
  let (decrWrite, args) ← optionalInt env.getInt "decrement arg must be int!" args
  let (decrRead, args) ← optionalInt env.getInt "decrement arg must be int!" args
  let (storeRead, args) ← optionalInt env.getInt "store refcount arg must be int!" args
  let (storeWrite, args) ← optionalInt env.getInt "store refcount arg must be int!" args
  TclCmd.condition args.isEmpty "extra trailing arguments"
  TclCmd.condition (env.adlbStore handle type data ⟨decrWrite, decrRead, storeRead, storeWrite⟩)
    "adlb::store failed"

variable (E names) in
/-- The type and the value; a compound type is read once more with the words behind it. -/
def storeData (handle : TclAdlbHandle) (args : List Obj) :
    Store (DataType × Bytes × List Obj) := do
  let (typeArg, rest) ← nextArg args
  let (type, extra) ← TclCmd.ofResult (adlbTypeFromObjExtra E names typeArg)
  if type = .container ∨ type = .multiset then do
    let (types, rest) ← TclCmd.ofResult (getCompoundType E names args)
    let (obj, rest) ← nextArg rest
    let data ← TclCmd.addInfo (TclCmd.ofResult (adlbTclobj2binCompound E types obj false))
      ("<" ++ toString handle.id.toInt ++ "> failed, could not extract data from " ++
        showBytes (E.tcl.getString obj) ++ "!")
    pure (type, data, rest)
  else do
    let (obj, rest) ← nextArg rest
    let data ← TclCmd.addInfo (TclCmd.ofResult (adlbTclobj2bin E type extra obj false))
      ("<" ++ toString handle.id.toInt ++ "> failed, could not extract data from " ++
        showBytes (E.tcl.getString obj) ++ "!")
    pure (type, data, rest)

variable (E names) in
/-- The arguments do not include the name of the command, which `objc` counts. -/
def adlbStoreCmd (env : StoreEnv Obj) (args : List Obj) : Store Unit := do
  TclCmd.condition (4 ≤ args.length + 1) "requires at least 4 args!"
  let (handleArg, args) ← nextArg args
  let (_, handle) ← TclCmd.addInfo
    (TclCmd.ofResult (adlbParseHandle env.lib E.tcl env.memory handleArg true))
    ("Invalid handle " ++ showBytes (E.tcl.getString handleArg))
  let (type, data, args) ← storeData E names handle args
  storeValue env handle type data args

variable (E names) in
/-- The words behind the handle are those of a compound type, with no value behind them. -/
def ValueMissing (env : StoreEnv Obj) (args : List Obj) : Prop :=
  ∃ handleArg m handle words T, args = handleArg :: words ∧ 2 ≤ words.length ∧
    adlbParseHandle env.lib E.tcl env.memory handleArg true = .ok (m, handle) ∧
    Spells E names T words

lemma keeps_addInfo {α : Type} {c : Store α} {P : Bool → Prop} (h : Cmd.Keeps c P) (msg : String) :
    Cmd.Keeps (TclCmd.addInfo c msg) P := by
  intro s hs
  have hc := h s hs
  rw [TclCmd.addInfo]
  rcases hcs : c s with ⟨_ | a, t⟩ <;> rw [hcs] at hc
  · rename_i e
    cases e <;> exact hc
  · exact hc

lemma keeps_result {α : Type} (r : TclResult α) (P : Bool → Prop) :
    Cmd.Keeps (TclCmd.ofResult r : Store α) P :=
  Cmd.keeps_ofExcept _ P

lemma keeps_optionalInt (getInt : Obj → Option ℤ) (msg : String) (args : List Obj)
    (P : Bool → Prop) : Cmd.Keeps (optionalInt getInt msg args) P := by
  cases args with
  | nil => exact Cmd.keeps_pure _ P
  | cons arg args => exact (keeps_result _ P).bind fun _ => Cmd.keeps_pure _ P

lemma keeps_storeValue (env : StoreEnv Obj) (handle : TclAdlbHandle) (type : DataType)
    (data : Bytes) (args : List Obj) (P : Bool → Prop) :
    Cmd.Keeps (storeValue env handle type data args) P := by
  rw [storeValue]
  exact (keeps_optionalInt _ _ _ P).bind fun _ => (keeps_optionalInt _ _ _ P).bind fun _ =>
    (keeps_optionalInt _ _ _ P).bind fun _ => (keeps_optionalInt _ _ _ P).bind fun _ =>
      (keeps_result _ P).bind fun _ => keeps_result _ P

lemma spells_words {T : CompoundTy} {typeArg : Obj} {rest : List Obj}
    (h : Spells E names T (typeArg :: rest)) :
    ∃ t, Names E names typeArg t ∧ (rest ≠ [] → t = .container ∨ t = .multiset) := by
  cases h with
  | @leaf _ t e _ h => exact ⟨t, ⟨e, h⟩, fun hne => (hne rfl).elim⟩
  | container h _ _ _ => exact ⟨_, ⟨_, h⟩, fun _ => .inl rfl⟩
  | multiset h _ => exact ⟨_, ⟨_, h⟩, fun _ => .inr rfl⟩

/-- The words of a type with nothing behind them are parsed to their end. -/
lemma spells_iff_rest_nil {args rest : List Obj} {types : CompoundType}
    (h : getCompoundType E names args = .ok (types, rest)) :
    (∃ T, Spells E names T args) ↔ rest = [] := by
  constructor
  · rintro ⟨T, hT⟩
    obtain ⟨types', htypes⟩ := getCompoundType_ok_iff.mpr ⟨T, args, (List.append_nil args).symm, hT⟩
    exact (Prod.mk.inj (TclResult.ok.inj (h.symm.trans htypes))).2
  · rintro rfl
    obtain ⟨T, ws, hargs, hT⟩ := getCompoundType_ok_iff.mp ⟨types, h⟩
    rw [List.append_nil] at hargs
    exact ⟨T, hargs ▸ hT⟩

lemma Spells.getCompoundType_ne_error {T : CompoundTy} {args : List Obj}
    (h : Spells E names T args) {r : TclResult (CompoundType × List Obj)}
    (hr : getCompoundType E names args = r) : ¬ ∀ types rest, r ≠ .ok (types, rest) := by
  intro hne
  obtain ⟨types, htypes⟩ := getCompoundType_ok_iff.mpr ⟨T, args, (List.append_nil args).symm, h⟩
  exact hne types [] (hr.symm.trans htypes)

/-- Behind the type, with its own words or without. -/
lemma keeps_extract (data : TclResult Bytes) (msg : String) (type : DataType) (rest : List Obj)
    (P : Bool → Prop) :
    Cmd.Keeps (TclCmd.addInfo (TclCmd.ofResult data) msg >>= fun b =>
      (pure (type, b, rest) : Store (DataType × Bytes × List Obj))) P :=
  (keeps_addInfo (keeps_result data P) msg).bind fun _ => Cmd.keeps_pure _ P

lemma storeData_state (handle : TclAdlbHandle) {words : List Obj} (hlen : 2 ≤ words.length) :
    (storeData E names handle words false).2 = true ↔ ∃ T, Spells E names T words := by
  obtain ⟨typeArg, obj, rest, rfl⟩ : ∃ typeArg obj rest, words = typeArg :: obj :: rest := by
    rcases words with _ | ⟨typeArg, _ | ⟨obj, rest⟩⟩
    · cases hlen
    · exact absurd hlen (by simp)
    · exact ⟨typeArg, obj, rest, rfl⟩
  have hnext : nextArg (typeArg :: obj :: rest) false = (.ok (typeArg, obj :: rest), false) := rfl
  rw [storeData, Cmd.bind_of_ok hnext]
  dsimp only
  cases hname : names.typeOf (E.tcl.getString typeArg) with
  | none =>
    rw [adlbTypeFromObjExtra, hname]
    refine iff_of_false (by rintro ⟨⟩) ?_
    rintro ⟨T, hT⟩
    obtain ⟨t, ⟨e, he⟩, -⟩ := spells_words hT
    rw [hname] at he
    cases he
  | some te =>
    obtain ⟨t, e⟩ := te
    rw [adlbTypeFromObjExtra_eq_ok.mpr hname, TclCmd.ofResult_ok, pure_bind]
    dsimp only
    by_cases hcompound : t = .container ∨ t = .multiset
    · rw [if_pos hcompound]
      cases htypes : getCompoundType E names (typeArg :: obj :: rest) with
      | ok r =>
        obtain ⟨types, rest'⟩ := r
        rw [TclCmd.ofResult_ok, pure_bind, spells_iff_rest_nil htypes]
        dsimp only
        cases rest' with
        | nil => exact iff_of_true rfl rfl
        | cons obj' rest' =>
          have hnext' : nextArg (obj' :: rest') false = (.ok (obj', rest'), false) := rfl
          rw [Cmd.bind_of_ok hnext']
          refine iff_of_false ?_ (by simp)
          have hkeep := keeps_extract (adlbTclobj2binCompound E types obj' false)
            ("<" ++ toString handle.id.toInt ++ "> failed, could not extract data from " ++
              showBytes (E.tcl.getString obj') ++ "!") t rest' (· = false) false rfl
          simpa using hkeep
      | error info =>
        refine iff_of_false (by rintro ⟨⟩) ?_
        rintro ⟨T, hT⟩
        exact hT.getCompoundType_ne_error htypes (by simp)
      | abort text =>
        refine iff_of_false (by rintro ⟨⟩) ?_
        rintro ⟨T, hT⟩
        exact hT.getCompoundType_ne_error htypes (by simp)
      | undefined =>
        refine iff_of_false (by rintro ⟨⟩) ?_
        rintro ⟨T, hT⟩
        exact hT.getCompoundType_ne_error htypes (by simp)
    · rw [if_neg hcompound]
      have hnext' : nextArg (obj :: rest) false = (.ok (obj, rest), false) := rfl
      rw [Cmd.bind_of_ok hnext']
      refine iff_of_false ?_ ?_
      · have hkeep := keeps_extract (adlbTclobj2bin E t e obj false)
          ("<" ++ toString handle.id.toInt ++ "> failed, could not extract data from " ++
            showBytes (E.tcl.getString obj) ++ "!") t rest (· = false) false rfl
        simpa using hkeep
      · rintro ⟨T, hT⟩
        obtain ⟨t', ht', hwords⟩ := spells_words hT
        obtain rfl := ht'.unique ⟨e, hname⟩
        exact hcompound (hwords (List.cons_ne_nil _ _))

lemma adlbStoreCmd_state (env : StoreEnv Obj) (args : List Obj) :
    (adlbStoreCmd E names env args false).2 = true ↔ ValueMissing E names env args := by
  rw [adlbStoreCmd]
  by_cases hlen : 4 ≤ args.length + 1
  · obtain ⟨handleArg, words, rfl⟩ : ∃ handleArg words, args = handleArg :: words := by
      rcases args with _ | ⟨handleArg, words⟩
      · exact absurd hlen (by simp)
      · exact ⟨handleArg, words, rfl⟩
    have hwords : 2 ≤ words.length := by
      rw [List.length_cons] at hlen
      omega
    have hnext : nextArg (handleArg :: words) false = (.ok (handleArg, words), false) := rfl
    rw [decide_eq_true hlen, TclCmd.condition_true, pure_bind, Cmd.bind_of_ok hnext]
    dsimp only
    cases hparse : adlbParseHandle env.lib E.tcl env.memory handleArg true with
    | ok r =>
      obtain ⟨m, handle⟩ := r
      have hok : TclCmd.addInfo (TclCmd.ofResult (.ok (m, handle)) : Store _)
          ("Invalid handle " ++ showBytes (E.tcl.getString handleArg)) false =
          (.ok (m, handle), false) := rfl
      rw [Cmd.bind_of_ok hok]
      dsimp only
      rw [Cmd.bind_snd fun _ P => keeps_storeValue _ _ _ _ _ P, storeData_state handle hwords]
      constructor
      · rintro ⟨T, hT⟩
        exact ⟨handleArg, m, handle, words, T, rfl, hwords, hparse, hT⟩
      · rintro ⟨_, _, _, _, T, hargs, -, -, hT⟩
        obtain ⟨-, rfl⟩ := List.cons.inj hargs
        exact ⟨T, hT⟩
    | error info =>
      refine iff_of_false (by rintro ⟨⟩) ?_
      rintro ⟨_, m, handle, _, T, hargs, -, hok, -⟩
      obtain ⟨rfl, -⟩ := List.cons.inj hargs
      rw [hparse] at hok
      cases hok
    | abort text =>
      refine iff_of_false (by rintro ⟨⟩) ?_
      rintro ⟨_, m, handle, _, T, hargs, -, hok, -⟩
      obtain ⟨rfl, -⟩ := List.cons.inj hargs
      rw [hparse] at hok
      cases hok
    | undefined =>
      refine iff_of_false (by rintro ⟨⟩) ?_
      rintro ⟨_, m, handle, _, T, hargs, -, hok, -⟩
      obtain ⟨rfl, -⟩ := List.cons.inj hargs
      rw [hparse] at hok
      cases hok
  · rw [decide_eq_false hlen, TclCmd.condition_false]
    refine iff_of_false (by rintro ⟨⟩) ?_
    rintro ⟨handleArg, m, handle, words, T, rfl, hwords, -, -⟩
    rw [List.length_cons] at hlen
    omega

theorem compound_types_iff (E : Env Obj D) (names : TypeNames) (env : StoreEnv Obj) :
    (∀ args, ParsesTypes E names args ↔ KeysFit E names args) ∧
      (∀ args types rest, getCompoundType E names args = .ok (types, rest) →
        ∀ (o : Obj) prefixLen canonicalize out,
          NeverPastEnd (adlbTclobjBinAppend E types 0 o prefixLen canonicalize out)) ∧
      ∀ args, (adlbStoreCmd E names env args false).2 = false ↔ ¬ ValueMissing E names env args := by
  refine ⟨parsesTypes_iff, ?_, ?_⟩
  · intro args types rest h o prefixLen canonicalize out
    obtain ⟨T, hT⟩ := getCompoundType_at h
    exact neverPastEnd_append types T 0 hT o prefixLen canonicalize out
  · intro args
    rw [← adlbStoreCmd_state, Bool.not_eq_true]

def containerWord : Value := .str [99, 111, 110, 116, 97, 105, 110, 101, 114]

/-- `container container integer`: the assertion of the loop fails. -/
theorem not_compound_types :
    ¬ ∀ args, ParsesTypes (packingEnv []) (typeNames []) args := by
  intro h
  have hname : Names (packingEnv []) (typeNames []) containerWord .container :=
    ⟨.null, by decide⟩
  have hfits := (parsesTypes_iff [containerWord, containerWord, integerWord]).mp (h _)
  exact hfits.1 ⟨containerWord, .here hname, .inl hname⟩

end Turbine.Codec
