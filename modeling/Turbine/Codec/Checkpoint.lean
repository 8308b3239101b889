import Turbine.Codec.StructValue

/-! The checkpoint commands `adlb::xpt_pack` and `adlb::xpt_unpack`: a list of typed values becomes
one blob, and the blob the values of as many variables. -/

namespace Turbine.Codec

open Tcl Adlb Library

variable {Obj D : Type}

section Commands

/-- `ADLB_Data_string_totype`: only struct types have an extra record. -/
structure TypeNames where
  typeOf : Bytes → Option (DataType × TypeExtra)
  extra_null : ∀ s t e, typeOf s = some (t, e) → t ≠ .struct → e = .null

variable (E : Env Obj D) (names : TypeNames)

def adlbTypeFromObjExtra (obj : Obj) : TclResult (DataType × TypeExtra) :=
  TclResult.require (names.typeOf (E.tcl.getString obj))
    ("unknown type name " ++ showBytes (E.tcl.getString obj) ++ "!")

/-- The loop of `get_compound_type`, with the number of types still to come at least and the
arguments left. -/
def compoundTypeLoop : ℕ → List Obj → List (DataType × TypeExtra) →
    TclResult (List (DataType × TypeExtra) × List Obj)
  | 0, args, acc => .ok (acc, args)
  | _ + 1, [], _ => .error ["Consumed past end of arguments"]
  | toConsume + 1, arg :: args, acc => do
    let (curr, extra) ← adlbTypeFromObjExtra E names arg
    let toConsume ← match curr with
      | .container => do
        TclResult.assert (toConsume = 0) "to_consume == 1"
        .ok 2
      | .multiset => do
        TclResult.assert (toConsume = 0) "to_consume == 1"
        .ok 1
      | _ => .ok toConsume
    compoundTypeLoop toConsume args (acc ++ [(curr, extra)])

def getCompoundType (args : List Obj) : TclResult (CompoundType × List Obj) := do
  let (types, rest) ← compoundTypeLoop E names 1 args []
  .ok (.ofList types, rest)

/-- The loop of `ADLB_Xpt_Pack_Cmd` over its arguments. Every field takes some of them, so the last
branch is not taken. -/
def xptPackFields (args : List Obj) (packed : Bytes) : TclResult Bytes :=
  if args.isEmpty then .ok packed
  else do
    let (types, rest) ← getCompoundType E names args
    match rest with
    | [] => .error ["Last argument missing value"]
    | val :: rest => do
      let packed ← adlbTclobjBinAppend E types 0 val true true packed
      if rest.length < args.length then xptPackFields rest packed else .undefined
termination_by args.length

def adlbXptPackCmd (args : List Obj) : TclResult Obj := do
  let packed ← xptPackFields E names args []
  .ok (E.tcl.newBlob packed)

/-- The loop of `ADLB_Xpt_Unpack_Cmd` over the variables and their types; `setVar` says which
variables can be set. The result lists the assignments. -/
def xptUnpackFields (setVar : Obj → Bool) (fieldCount : ℕ) (packed : Bytes) :
    List (Obj × Obj) → ℕ → List (Obj × Obj) → TclResult (List (Obj × Obj))
  | [], _, vars => .ok vars
  | (varName, typeO) :: fields, pos, vars => do
    let (type, extra) ← adlbTypeFromObjExtra E names typeO
    match E.adlb.unpackBuffer type packed pos with
    | .done => .error ["Hit end of buffer after unpacking " ++ toString vars.length ++ "/" ++
        toString fieldCount ++ " fields"]
    | .error => .error ["Error unpacking field " ++ toString vars.length ++ " from buffer"]
    | .success entry next => do
      let obj ← adlbDatum2tclobj E type extra entry.bytes
      TclResult.condition (setVar varName)
        ("error setting field " ++ showBytes (E.tcl.getString varName))
      xptUnpackFields setVar fieldCount packed fields next (vars ++ [(varName, obj)])

/-- The arguments do not include the name of the command, which `objc` counts. -/
def adlbXptUnpackCmd (setVar : Obj → Bool) (args : List Obj) : TclResult (List (Obj × Obj)) := do
  let objc := args.length + 1
  TclResult.condition (2 ≤ objc) "Must have at least 1 arg"
  TclResult.condition (objc % 2 = 0) "Must have paired var names and types"
  let fieldCount := (objc - 2) / 2
  match args.drop fieldCount with
  | [] => .undefined
  | blob :: types => do
    let packed ← TclResult.require (E.tcl.getBlob blob)
      ("Error interpreting " ++ showBytes (E.tcl.getString blob) ++ " as blob list")
    xptUnpackFields E names setVar fieldCount packed ((args.take fieldCount).zip types) 0 []

end Commands

section Types

variable (E : Env Obj D) (names : TypeNames)

/-- The words of a compound type. -/
inductive Spells : CompoundTy → List Obj → Prop
  | leaf {w t e} (ht : t ≠ .container ∧ t ≠ .multiset)
      (h : names.typeOf (E.tcl.getString w) = some (t, e)) : Spells (.leaf t e ht) [w]
  | container {w wk k e v ws} (h : names.typeOf (E.tcl.getString w) = some (.container, .null))
      (hk : names.typeOf (E.tcl.getString wk) = some (k, e))
      (hkey : k ≠ .container ∧ k ≠ .multiset) (hv : Spells v ws) :
      Spells (.container k v) (w :: wk :: ws)
  | multiset {w v ws} (h : names.typeOf (E.tcl.getString w) = some (.multiset, .null))
      (hv : Spells v ws) : Spells (.multiset v) (w :: ws)

variable {E names}

lemma adlbTypeFromObjExtra_eq_ok {obj : Obj} {te : DataType × TypeExtra} :
    adlbTypeFromObjExtra E names obj = .ok te ↔
      names.typeOf (E.tcl.getString obj) = some te :=
  TclResult.require_eq_ok

lemma compoundTypeLoop_scalar {w : Obj} {t : DataType} {e : TypeExtra}
    (h : names.typeOf (E.tcl.getString w) = some (t, e)) (ht : t ≠ .container ∧ t ≠ .multiset)
    (n : ℕ) (args : List Obj) (acc : List (DataType × TypeExtra)) :
    compoundTypeLoop E names (n + 1) (w :: args) acc =
      compoundTypeLoop E names n args (acc ++ [(t, e)]) := by
  rw [compoundTypeLoop, adlbTypeFromObjExtra_eq_ok.mpr h]
  cases t <;> simp_all

lemma compoundTypeLoop_container {w : Obj} {e : TypeExtra}
    (h : names.typeOf (E.tcl.getString w) = some (.container, e)) (args : List Obj)
    (acc : List (DataType × TypeExtra)) :
    compoundTypeLoop E names 1 (w :: args) acc =
      compoundTypeLoop E names 2 args (acc ++ [(.container, e)]) := by
  rw [compoundTypeLoop, adlbTypeFromObjExtra_eq_ok.mpr h]
  rfl

lemma compoundTypeLoop_multiset {w : Obj} {e : TypeExtra}
    (h : names.typeOf (E.tcl.getString w) = some (.multiset, e)) (args : List Obj)
    (acc : List (DataType × TypeExtra)) :
    compoundTypeLoop E names 1 (w :: args) acc =
      compoundTypeLoop E names 1 args (acc ++ [(.multiset, e)]) := by
  rw [compoundTypeLoop, adlbTypeFromObjExtra_eq_ok.mpr h]
  rfl

lemma Spells.compoundTypeLoop_eq {T : CompoundTy} {ws : List Obj} (h : Spells E names T ws)
    (rest : List Obj) : ∀ acc, ∃ l,
      compoundTypeLoop E names 1 (ws ++ rest) acc = .ok (acc ++ l, rest) ∧
        (CompoundType.ofList (acc ++ l)).At acc.length T := by
  induction h with
  | @leaf w t e ht h =>
    intro acc
    refine ⟨[(t, e)], ?_, ?_⟩
    · rw [List.singleton_append, compoundTypeLoop_scalar h ht, compoundTypeLoop]
    · exact (CompoundType.entryAt_ofList _ _).trans (by simp)
  | @container w wk k e v ws h hk hkey _ ih =>
    intro acc
    obtain ⟨l, hl, hat⟩ := ih (acc ++ [(.container, .null)] ++ [(k, e)])
    have hacc : acc ++ [(DataType.container, TypeExtra.null)] ++ [(k, e)] ++ l =
        acc ++ ((.container, .null) :: (k, e) :: l) := by simp
    rw [hacc] at hl hat
    refine ⟨(.container, .null) :: (k, e) :: l, ?_, ?_, ?_, by simpa using hat⟩
    · rw [List.cons_append, List.cons_append, compoundTypeLoop_container h,
        compoundTypeLoop_scalar hk hkey, hl]
    · exact CompoundType.types_ofList (e := .null) (by simp)
    · exact CompoundType.types_ofList (e := e) (by simp)
  | @multiset w v ws h _ ih =>
    intro acc
    obtain ⟨l, hl, hat⟩ := ih (acc ++ [(.multiset, .null)])
    have hacc : acc ++ [(DataType.multiset, TypeExtra.null)] ++ l =
        acc ++ ((.multiset, .null) :: l) := by simp
    rw [hacc] at hl hat
    refine ⟨(.multiset, .null) :: l, ?_, ?_, by simpa using hat⟩
    · rw [List.cons_append, compoundTypeLoop_multiset h, hl]
    · exact CompoundType.types_ofList (e := .null) (by simp)

lemma Spells.getCompoundType_eq {T : CompoundTy} {ws : List Obj} (h : Spells E names T ws)
    (rest : List Obj) : ∃ types, getCompoundType E names (ws ++ rest) = .ok (types, rest) ∧
      types.At 0 T := by
  obtain ⟨l, hl, hat⟩ := h.compoundTypeLoop_eq rest []
  rw [List.nil_append] at hl hat
  exact ⟨.ofList l, by simp [getCompoundType, hl], hat⟩

lemma compoundTypeLoop_nil {n : ℕ} (hn : n ≠ 0) (acc : List (DataType × TypeExtra)) :
    compoundTypeLoop E names n [] acc = .error ["Consumed past end of arguments"] := by
  cases n with
  | zero => exact absurd rfl hn
  | succ n => rw [compoundTypeLoop]

lemma spells_of_compoundTypeLoop : ∀ (args : List Obj) (acc : List (DataType × TypeExtra)) r,
    compoundTypeLoop E names 1 args acc = .ok r →
      ∃ T ws, args = ws ++ r.2 ∧ Spells E names T ws := by
  intro args
  induction hlen : args.length using Nat.strong_induction_on generalizing args with
  | _ len ih =>
  intro acc r hr
  cases args with
  | nil =>
    rw [compoundTypeLoop_nil (by simp)] at hr
    cases hr
  | cons w args =>
    have hname := hr
    rw [compoundTypeLoop, TclResult.bind_eq_ok] at hname
    obtain ⟨⟨t, e⟩, hname, -⟩ := hname
    rw [adlbTypeFromObjExtra_eq_ok] at hname
    rw [List.length_cons] at hlen
    by_cases hc : t = .container
    · subst hc
      obtain rfl := names.extra_null _ _ _ hname (by simp)
      rw [compoundTypeLoop_container hname] at hr
      cases args with
      | nil =>
        rw [compoundTypeLoop_nil (by simp)] at hr
        cases hr
      | cons wk args =>
        have hkey := hr
        rw [compoundTypeLoop, TclResult.bind_eq_ok] at hkey
        obtain ⟨⟨k, ek⟩, hk, hkey⟩ := hkey
        rw [adlbTypeFromObjExtra_eq_ok] at hk
        -- a nested type where the key type is due fails the assertion
        have hscalar : k ≠ .container ∧ k ≠ .multiset := by
          constructor <;> rintro rfl <;> simp [TclResult.assert] at hkey
        rw [compoundTypeLoop_scalar hk hscalar] at hr
        obtain ⟨v, ws, rfl, hv⟩ := ih args.length (by rw [← hlen]; simp) args rfl _ r hr
        exact ⟨.container k v, w :: wk :: ws, rfl, .container hname hk hscalar hv⟩
    by_cases hm : t = .multiset
    · subst hm
      obtain rfl := names.extra_null _ _ _ hname (by simp)
      rw [compoundTypeLoop_multiset hname] at hr
      obtain ⟨v, ws, rfl, hv⟩ := ih args.length (by omega) args rfl _ r hr
      exact ⟨.multiset v, w :: ws, rfl, .multiset hname hv⟩
    · rw [compoundTypeLoop_scalar hname ⟨hc, hm⟩, compoundTypeLoop] at hr
      cases hr
      exact ⟨.leaf t e ⟨hc, hm⟩, [w], rfl, .leaf _ hname⟩

/-- `get_compound_type` accepts exactly the argument lists that start with the words of a type. -/
theorem getCompoundType_ok_iff {args rest : List Obj} :
    (∃ types, getCompoundType E names args = .ok (types, rest)) ↔
      ∃ T ws, args = ws ++ rest ∧ Spells E names T ws := by
  constructor
  · rintro ⟨types, h⟩
    obtain ⟨⟨l, rest'⟩, hl, heq⟩ := TclResult.bind_eq_ok.mp h
    obtain ⟨-, rfl⟩ := Prod.mk.inj (TclResult.ok.inj heq)
    exact spells_of_compoundTypeLoop args [] _ hl
  · rintro ⟨T, ws, rfl, hT⟩
    obtain ⟨types, htypes, -⟩ := hT.getCompoundType_eq rest
    exact ⟨types, htypes⟩

end Types

section Fields

variable {E : Env Obj D} {names : TypeNames}

/-- One field of a checkpoint: the words of its type and its value. -/
structure XptField (Obj : Type) where
  type : CompoundTy
  words : List Obj
  val : Obj

def XptField.args (f : XptField Obj) : List Obj := f.words ++ [f.val]

/-- The word for the outermost type of a field. -/
def XptField.headType (f : XptField Obj) : Obj := f.words.headD f.val

/-- The bytes of a field in the blob. -/
def XptField.piece (E : Env Obj D) (f : XptField Obj) : Option Bytes :=
  (encoding E true f.type f.val).map (withLen E.adlb f.type.head.1)

lemma xptPackFields_cons {f : XptField Obj} (hf : Spells E names f.type f.words)
    (args : List Obj) : ∃ types : CompoundType, types.At 0 f.type ∧
      ∀ packed, xptPackFields E names (f.args ++ args) packed =
        (adlbTclobjBinAppend E types 0 f.val true true packed >>= xptPackFields E names args) := by
  obtain ⟨types, htypes, hat⟩ := hf.getCompoundType_eq (f.val :: args)
  have hargs : f.args ++ args = f.words ++ f.val :: args := by simp [XptField.args]
  have hlt : args.length < (f.words ++ f.val :: args).length := by
    simp only [List.length_append, List.length_cons]
    omega
  refine ⟨types, hat, fun packed => ?_⟩
  rw [hargs, xptPackFields, if_neg (by simp), htypes]
  simp only [TclResult.ok_bind, if_pos hlt]

lemma xptPackFields_writes (hA : E.adlb.Lawful) (fields : List (XptField Obj))
    (hfields : ∀ f ∈ fields, Spells E names f.type f.words) :
    Writes (2 ^ 64)
      (fun packed => (xptPackFields E names (fields.flatMap XptField.args) packed).okValue)
      ((fields.mapM (XptField.piece E)).map List.flatten) := by
  induction fields with
  | nil =>
    refine Writes.skip.congr fun packed _ => ?_
    rw [List.flatMap_nil, xptPackFields]
    rfl
  | cons f fields ih =>
    have hf := hfields f (List.mem_cons_self ..)
    have hrest := ih fun f' hf' => hfields f' (List.mem_cons_of_mem _ hf')
    obtain ⟨types, hat, hcons⟩ := xptPackFields_cons hf (fields.flatMap XptField.args)
    have happend := adlbTclobjBinAppend_writes true hA types f.type 0 hat f.val true
    rw [mapM_cons_flatten]
    refine (happend.seq hrest).congr fun packed _ => ?_
    rw [List.flatMap_cons, hcons, TclResult.okValue_bind]

lemma adlbXptPackCmd_eq_ok (hA : E.adlb.Lawful) {fields : List (XptField Obj)}
    (hfields : ∀ f ∈ fields, Spells E names f.type f.words) {blob : Obj} :
    adlbXptPackCmd E names (fields.flatMap XptField.args) = .ok blob ↔
      ∃ pieces, fields.mapM (XptField.piece E) = some pieces ∧
        pieces.flatten.length < 2 ^ 64 ∧ blob = E.tcl.newBlob pieces.flatten := by
  rw [adlbXptPackCmd, TclResult.bind_eq_ok]
  have hwrites := xptPackFields_writes hA fields hfields [] (by simp)
  constructor
  · rintro ⟨packed, hpacked, hblob⟩
    obtain ⟨b, hb, rfl, hlen⟩ := (hwrites packed).mp (TclResult.okValue_eq_some.mpr hpacked)
    obtain ⟨pieces, hpieces, rfl⟩ := Option.map_eq_some_iff.mp hb
    exact ⟨pieces, hpieces, hlen, (TclResult.ok.inj hblob).symm⟩
  · rintro ⟨pieces, hpieces, hlen, rfl⟩
    refine ⟨pieces.flatten, TclResult.okValue_eq_some.mp ((hwrites _).mpr ?_), rfl⟩
    exact ⟨pieces.flatten, by simp [hpieces], by simp, hlen⟩

lemma Spells.head_eq {T : CompoundTy} {ws : List Obj} (h : Spells E names T ws) :
    ∃ w ws' e, ws = w :: ws' ∧ names.typeOf (E.tcl.getString w) = some (T.head.1, e) ∧
      T.Accepts e := by
  cases h with
  | leaf ht h => exact ⟨_, _, _, rfl, h, Or.inr rfl⟩
  | container h _ _ _ => exact ⟨_, _, _, rfl, h, CompoundTy.accepts_null _⟩
  | multiset h _ => exact ⟨_, _, _, rfl, h, CompoundTy.accepts_null _⟩

/-- The struct types of the leaves are declared. -/
def CompoundTy.LeavesDeclared (E : Env Obj D) : CompoundTy → Prop
  | .leaf t e _ => ∀ st, t = .struct → e = .struct st → DeclaredStruct E st
  | .container _ v => v.LeavesDeclared E
  | .multiset v => v.LeavesDeclared E

lemma CompoundTy.LeavesDeclared.leavesDecode (hA : E.adlb.Lawful) (hS : E.adlb.StructLawful)
    (hT : E.tcl.Lawful) {T : CompoundTy} (h : T.LeavesDeclared E) : T.LeavesDecode E := by
  induction T with
  | leaf t e ht =>
    cases t with
    | integer => exact leafDecodes_integer hA hT
    | ref => exact leafDecodes_ref hA hT
    | float => exact leafDecodes_float hA hT
    | string => exact leafDecodes_string hA hT
    | blob => exact leafDecodes_blob hA hT
    | struct =>
      intro o v b hv hb hmax e' he'
      obtain ⟨st, rfl⟩ := adlbTclobj2datum_struct_extra hv
      obtain ⟨o', ho', hread, -⟩ := (h st rfl rfl).datumDecodes hA hS hT o v hv b
        (by rwa [adlbTclobj2datum_dataType hv]) hmax e' he'
      exact ⟨o', ho', hread⟩
    | _ =>
      intro o v b hv
      rw [adlbTclobj2datum] at hv
      cases hv
  | container k v ih => exact ih h
  | multiset v ih => exact ih h

lemma xptUnpackFields_pieces (hA : E.adlb.Lawful) (hS : E.adlb.StructLawful) (hT : E.tcl.Lawful)
    (setVar : Obj → Bool) {packed : Bytes} (fieldCount : ℕ)
    {fields : List (XptField Obj)} {pieces : List Bytes}
    (hpieces : List.Forall₂ (fun f p => f.piece E = some p) fields pieces)
    (hspells : ∀ f ∈ fields, Spells E names f.type f.words)
    (hdeclared : ∀ f ∈ fields, f.type.LeavesDeclared E)
    (hmax : ∀ f ∈ fields, ∀ b, encoding E true f.type f.val = some b →
      b.length ≤ E.adlb.dataMax) :
    ∀ (pre rest : Bytes) (varNames : List Obj) (more : List (Obj × Obj)) (vars : List (Obj × Obj)),
      packed = pre ++ pieces.flatten ++ rest → varNames.length = fields.length →
      (∀ v ∈ varNames, setVar v = true) →
      ∃ vals, xptUnpackFields E names setVar fieldCount packed
          ((varNames.zip (fields.map XptField.headType)) ++ more) pre.length vars =
        xptUnpackFields E names setVar fieldCount packed more (pre ++ pieces.flatten).length
          (vars ++ varNames.zip vals) ∧
        List.Forall₂ (fun f o' => SameValue E (SameText E) f.type f.val o') fields vals := by
  induction hpieces with
  | nil =>
    intro pre rest varNames more vars _ hvars _
    obtain rfl := List.length_eq_zero_iff.mp hvars
    exact ⟨[], by simp, List.Forall₂.nil⟩
  | @cons f p fields pieces hp _ ih =>
    intro pre rest varNames more vars hpacked hvars hset
    obtain ⟨varName, varNames, rfl⟩ := List.exists_cons_of_length_eq_add_one hvars
    have hf := List.mem_cons_self (a := f) (l := fields)
    obtain ⟨b, hb, rfl⟩ := Option.map_eq_some_iff.mp hp
    have hbmax := hmax f hf b hb
    have hlt := hA.dataMax_lt
    obtain ⟨w, ws, e, hwords, hname, haccepts⟩ := (hspells f hf).head_eq
    obtain ⟨o', ho', -, hsame, -⟩ := decodes_encoding hA hT
      ((hdeclared f hf).leavesDecode hA hS hT) hb hbmax haccepts
    obtain ⟨entry, next, hentry, hbytes, hnext⟩ := hA.unpack_buffer f.type.head.1 pre b
      (pieces.flatten ++ rest) packed (by omega) (by rw [hpacked]; simp [withLen])
    have hpos : (pre ++ withLen E.adlb f.type.head.1 b).length = next := by
      have hsplit := congrArg List.length hpacked
      simp only [List.flatten_cons, List.length_append] at hsplit hnext ⊢
      omega
    obtain ⟨vals, hvals, hsames⟩ := ih (fun f' hf' => hspells f' (List.mem_cons_of_mem _ hf'))
      (fun f' hf' => hdeclared f' (List.mem_cons_of_mem _ hf'))
      (fun f' hf' => hmax f' (List.mem_cons_of_mem _ hf'))
      (pre ++ withLen E.adlb f.type.head.1 b) rest varNames more (vars ++ [(varName, o')])
      (by rw [hpacked]; simp) (by simpa using hvars)
      (fun v hv => hset v (List.mem_cons_of_mem _ hv))
    refine ⟨o' :: vals, ?_, List.Forall₂.cons hsame hsames⟩
    rw [hpos] at hvals
    simp only [List.map_cons, List.zip_cons_cons, List.cons_append, xptUnpackFields, XptField.headType,
      hwords, List.headD_cons, adlbTypeFromObjExtra_eq_ok.mpr hname, TclResult.ok_bind, hentry, hbytes, ho',
      hset varName (List.mem_cons_self ..), TclResult.condition_true]
    rw [hvals]
    simp

lemma xptUnpackFields_end (hA : E.adlb.Lawful) {setVar : Obj → Bool} {packed : Bytes}
    {fieldCount : ℕ} {field : Obj × Obj} {fields vars : List (Obj × Obj)} :
    ∃ info, xptUnpackFields E names setVar fieldCount packed (field :: fields) packed.length vars =
      .error info := by
  obtain ⟨varName, typeO⟩ := field
  rw [xptUnpackFields, adlbTypeFromObjExtra]
  cases names.typeOf (E.tcl.getString typeO) with
  | none => exact ⟨_, rfl⟩
  | some te =>
    simp only [TclResult.require_some, TclResult.ok_bind, hA.unpack_buffer_end]
    exact ⟨_, rfl⟩

lemma adlbXptUnpackCmd_eq {setVar : Obj → Bool} {blob : Obj} {packed : Bytes}
    (hblob : E.tcl.getBlob blob = some packed) {varNames types : List Obj}
    (hlen : varNames.length = types.length) :
    adlbXptUnpackCmd E names setVar (varNames ++ blob :: types) =
      xptUnpackFields E names setVar types.length packed (varNames.zip types) 0 [] := by
  have hobjc : (varNames ++ blob :: types).length + 1 = 2 * types.length + 2 := by
    simp only [List.length_append, List.length_cons]
    omega
  have hcount : (2 * types.length + 2 - 2) / 2 = types.length := by omega
  simp only [adlbXptUnpackCmd, hobjc, hcount]
  rw [← hlen, List.drop_left, List.take_left]
  simp [hblob]

/-- The fields that `adlb::xpt_pack` packed are unpacked again, and no others. -/
theorem adlbXptUnpackCmd_adlbXptPackCmd (hA : E.adlb.Lawful) (hS : E.adlb.StructLawful)
    (hT : E.tcl.Lawful) (names : TypeNames) (fields : List (XptField Obj))
    (hspells : ∀ f ∈ fields, Spells E names f.type f.words)
    (hdeclared : ∀ f ∈ fields, f.type.LeavesDeclared E)
    (hmax : ∀ f ∈ fields, ∀ b, encoding E true f.type f.val = some b →
      b.length ≤ E.adlb.dataMax)
    (blob : Obj) (hpack : adlbXptPackCmd E names (fields.flatMap XptField.args) = .ok blob)
    (setVar : Obj → Bool) :
    (∀ varNames : List Obj, varNames.length = fields.length → (∀ v ∈ varNames, setVar v = true) →
      ∃ vals, adlbXptUnpackCmd E names setVar (varNames ++ blob :: fields.map XptField.headType) =
          .ok (varNames.zip vals) ∧
        List.Forall₂ (fun f o' => SameValue E (SameText E) f.type f.val o') fields vals) ∧
    (∀ varNames more : List Obj, more ≠ [] → varNames.length = fields.length + more.length →
      (∀ v ∈ varNames, setVar v = true) →
      ∃ info, adlbXptUnpackCmd E names setVar
        (varNames ++ blob :: (fields.map XptField.headType ++ more)) = .error info) := by
  obtain ⟨pieces, hpieces, -, rfl⟩ := (adlbXptPackCmd_eq_ok hA hspells).mp hpack
  have hblob := hT.getBlob_newBlob pieces.flatten
  have hunpack (fieldCount : ℕ) (varNames : List Obj) (more : List (Obj × Obj)) :=
    xptUnpackFields_pieces hA hS hT setVar fieldCount (mapM_eq_some_iff.mp hpieces) hspells
      hdeclared hmax [] [] varNames more []
      (show pieces.flatten = [] ++ pieces.flatten ++ [] by simp)
  constructor
  · intro varNames hvars hset
    obtain ⟨vals, hvals, hsame⟩ := hunpack fields.length varNames [] hvars hset
    refine ⟨vals, ?_, hsame⟩
    rw [adlbXptUnpackCmd_eq hblob (by simpa using hvars)]
    simpa [xptUnpackFields] using hvals
  · intro varNames more hmore hvars hset
    obtain ⟨t, more, rfl⟩ := List.exists_cons_of_ne_nil hmore
    obtain ⟨first, second, rfl, hfirst⟩ : ∃ first second, varNames = first ++ second ∧
        first.length = fields.length :=
      ⟨varNames.take fields.length, varNames.drop fields.length, by simp, by simp [hvars]⟩
    obtain ⟨v, second, rfl⟩ := List.exists_cons_of_length_pos (l := second) (by
      rw [List.length_append, List.length_cons] at hvars
      omega)
    obtain ⟨vals, hvals, -⟩ := hunpack (fields.map XptField.headType ++ t :: more).length first
      ((v, t) :: second.zip more) hfirst (fun v hv => hset v (List.mem_append_left _ hv))
    rw [adlbXptUnpackCmd_eq hblob (by simpa using hvars),
      List.zip_append (by simpa using hfirst), List.zip_cons_cons]
    simp only [List.nil_append, List.length_nil] at hvals
    rw [hvals]
    exact xptUnpackFields_end hA

end Fields

section Concrete

def DataType.ofName (s : String) : Option DataType :=
  [.integer, .float, .string, .blob, .container, .multiset, .ref].find? fun t => t.name = s

/-- The names of the built-in types and of declared struct types. -/
def typeNames (decls : List StructDecl) : TypeNames where
  typeOf s := ((DataType.ofName (showBytes s)).map fun t => (t, .null)).or
    ((decls.findIdx? fun decl => decl.name = s).map fun i => (.struct, .struct i))
  extra_null s t e h hstruct := by
    rcases Option.or_eq_some_iff.mp h with h | ⟨-, h⟩
    · obtain ⟨t', -, heq⟩ := Option.map_eq_some_iff.mp h
      exact (Prod.mk.inj heq).2.symm
    · obtain ⟨i, -, heq⟩ := Option.map_eq_some_iff.mp h
      exact absurd (Prod.mk.inj heq).1.symm hstruct

def integerWord : Value := .str [105, 110, 116, 101, 103, 101, 114]

def blobWord : Value := .str [98, 108, 111, 98]

lemma blob_scalar : DataType.blob ≠ .container ∧ DataType.blob ≠ .multiset := by decide

lemma spells_integer : Spells (packingEnv []) (typeNames []) (.leaf .integer .null integer_scalar)
    [integerWord] := .leaf _ (by decide)

lemma spells_blob : Spells (packingEnv []) (typeNames []) (.leaf .blob .null blob_scalar)
    [blobWord] := .leaf _ (by decide)

def integerField (n : Int64) : XptField Value :=
  ⟨.leaf .integer .null integer_scalar, [integerWord], values.newWideInt n⟩

lemma encoding_integerField (n : Int64) :
    encoding (packingEnv []) true (integerField n).type (integerField n).val =
      some (leBytes 8 n.toUInt64.toNat) :=
  Option.bind_eq_some_iff.mpr ⟨.integer n, reading_leaf.mpr (adlbTclobj2datum_integer.mpr
    ⟨n, values_lawful.getWideInt_newWideInt n, rfl⟩), rfl⟩

def blobField (b : Bytes) : XptField Value :=
  ⟨.leaf .blob .null blob_scalar, [blobWord], .blob b⟩

lemma encoding_blobField (b : Bytes) :
    encoding (packingEnv []) true (blobField b).type (blobField b).val = some b :=
  Option.bind_eq_some_iff.mpr ⟨.blob b, reading_leaf.mpr (adlbTclobj2datum_blob.mpr
    ⟨b, rfl, rfl⟩), rfl⟩

theorem adlbXptUnpackCmd_integerField : ∃ blob o',
    adlbXptPackCmd (packingEnv []) (typeNames []) [integerWord, values.newWideInt 5] = .ok blob ∧
      adlbXptUnpackCmd (packingEnv []) (typeNames []) (fun _ => true)
        [.str [118], blob, integerWord] = .ok [(.str [118], o')] ∧
      SameValue (packingEnv []) (SameText (packingEnv [])) (integerField 5).type
        (values.newWideInt 5) o' := by
  have hspells : ∀ f ∈ [integerField 5], Spells (packingEnv []) (typeNames []) f.type f.words := by
    intro f hf
    obtain rfl := List.mem_singleton.mp hf
    exact spells_integer
  have hmax : ∀ f ∈ [integerField 5], ∀ b, encoding (packingEnv []) true f.type f.val = some b →
      b.length ≤ packingDataMax := by
    intro f hf b hb
    obtain rfl := List.mem_singleton.mp hf
    obtain rfl := Option.some.inj ((encoding_integerField 5).symm.trans hb)
    rw [length_leBytes]
    decide
  have hpiece : [integerField 5].mapM (XptField.piece (packingEnv [])) =
      some [withLen packing .integer (leBytes 8 5)] := by
    simp only [List.mapM_cons, List.mapM_nil, XptField.piece, encoding_integerField]
    rfl
  have hlen : [withLen packing .integer (leBytes 8 5)].flatten.length < 2 ^ 64 := by
    have : (packing.lenPrefix .integer 8).length = 1 := by
      rw [packing_lenPrefix_short rfl (by decide)]
      rfl
    simp [withLen, this]
  have hpack := (adlbXptPackCmd_eq_ok packing_lawful hspells).mpr ⟨_, hpiece, hlen, rfl⟩
  obtain ⟨vals, hvals, hsame⟩ := (adlbXptUnpackCmd_adlbXptPackCmd packing_lawful
    packing_structLawful values_lawful (typeNames []) [integerField 5] hspells
    (by simp [integerField, CompoundTy.LeavesDeclared]) hmax _ hpack fun _ => true).1 [.str [118]] rfl
    (fun _ _ => rfl)
  cases hsame with | @cons _ o' _ _ hsame hnil =>
  cases hnil
  exact ⟨_, o', hpack, hvals, hsame⟩

/-- A long blob is packed, but the unpacked field fails an assertion. -/
theorem not_adlbXptUnpackCmd_blobField : ∃ blob,
    adlbXptPackCmd (packingEnv []) (typeNames [])
      [blobWord, .blob (List.replicate (packingDataMax + 1) 0)] = .ok blob ∧
    adlbXptUnpackCmd (packingEnv []) (typeNames []) (fun _ => true)
      [.str [118], blob, blobWord] = .abort "length <= ADLB_DATA_MAX" := by
  -- the bytes of the blob stay a variable, since they are too many to compute with
  obtain ⟨b, hb, hblen⟩ : ∃ b : Bytes, b = List.replicate (packingDataMax + 1) 0 ∧
      b.length = packingDataMax + 1 := ⟨_, rfl, by simp⟩
  rw [← hb]
  have hspells : ∀ f ∈ [blobField b], Spells (packingEnv []) (typeNames []) f.type f.words := by
    intro f hf
    obtain rfl := List.mem_singleton.mp hf
    exact spells_blob
  have hpiece : [blobField b].mapM (XptField.piece (packingEnv [])) =
      some [withLen packing .blob b] := by
    simp only [List.mapM_cons, List.mapM_nil, XptField.piece, encoding_blobField]
    rfl
  have hmax : packingDataMax = 20971520 := rfl
  have hvint : (vint b.length).length ≤ 10 := length_vint_le_max (by omega)
  have hlen : [withLen packing .blob b].flatten.length < 2 ^ 64 := by
    have hprefix : packing.lenPrefix .blob b.length = vint b.length := rfl
    simp only [List.flatten_cons, List.flatten_nil, withLen, hprefix, List.append_nil,
      List.length_append]
    omega
  refine ⟨_, (adlbXptPackCmd_eq_ok packing_lawful hspells).mpr ⟨_, hpiece, hlen, rfl⟩, ?_⟩
  obtain ⟨entry, next, hentry, hbytes, -⟩ := packing_lawful.unpack_buffer .blob [] b []
    [withLen packing .blob b].flatten (by omega) (by simp [withLen])
  have hname : (typeNames []).typeOf ((packingEnv []).tcl.getString blobWord) =
      some (.blob, .null) := by decide
  have hunpack : adlbXptUnpackCmd (packingEnv []) (typeNames []) (fun _ => true)
      ([.str [118]] ++ .blob [withLen packing .blob b].flatten :: [blobWord]) = _ :=
    adlbXptUnpackCmd_eq rfl rfl
  refine hunpack.trans ?_
  have hentry' : (packingEnv []).adlb.unpackBuffer .blob [withLen packing .blob b].flatten 0 =
      .success entry next := hentry
  simp only [List.zip_cons_cons, List.zip_nil_right, xptUnpackFields,
    adlbTypeFromObjExtra_eq_ok.mpr hname, TclResult.ok_bind, hentry', hbytes]
  rw [adlbDatum2tclobj_too_long (show ¬b.length ≤ packingDataMax by omega), TclResult.abort_bind]

end Concrete

end Turbine.Codec
