import Turbine.Codec.RoundTrip
import Turbine.Codec.StructBounds

/-! Struct values: from a dictionary to a packed struct and back. -/

namespace Turbine.Codec

open Tcl Adlb Library

variable {Obj D : Type} (E : Env Obj D)

section Types

/-- Struct types with their field names at hand, like the struct types of their fields. Fields of one
name have one type. -/
inductive DeclaredStruct : ℤ → Prop
  | intro {st : ℤ} {decl : StructDecl} {objs : List Obj}
      (lookup : E.structs.lookup st = some decl) (names : fieldNameObjs E st = .ok objs)
      (same : ∀ f ∈ decl.fields, ∀ f' ∈ decl.fields, f.1 = f'.1 → f.2 = f'.2)
      (nested : ∀ f ∈ decl.fields, ∀ st', f.2 = ⟨.struct, .struct st'⟩ → DeclaredStruct st') :
      DeclaredStruct st

/-- Tcl values of a scalar or struct type. A dictionary may leave fields out, and has to leave out
those of container and multiset types, which `adlb_tclobj2datum` does not convert. -/
inductive HasType : DataType → TypeExtra → Obj → Prop
  | integer {e o} (h : (E.tcl.getWideInt o).isSome) : HasType .integer e o
  | ref {e o} (h : (E.tcl.getWideInt o).isSome) : HasType .ref e o
  | float {e o} (h : (E.tcl.getDouble o).isSome) : HasType .float e o
  | string {e o} (h : (E.tcl.getString o).length + 1 ≤ E.adlb.dataMax) : HasType .string e o
  | blob {e o} (h : (E.tcl.getBlob o).isSome) : HasType .blob e o
  | struct {st decl o d} (lookup : E.structs.lookup st = some decl)
      (dict : E.tcl.getDict o = some d)
      (fields : ∀ f ∈ decl.fields, ∀ val, E.tcl.lookup d f.1 = some val →
        HasType f.2.type f.2.extra val) : HasType .struct (.struct st) o

/-- Equal values of a type: scalars are equal as typed data, and a struct has the same fields with
equal values and no others. -/
inductive SameData : DataType → TypeExtra → Obj → Obj → Prop
  | scalar {t e o o' datum} (ht : t ≠ .struct) (h : adlbTclobj2datum E t e o = .ok datum)
      (h' : adlbTclobj2datum E t e o' = .ok datum) : SameData t e o o'
  | struct {st decl o o' d d'} (lookup : E.structs.lookup st = some decl)
      (dict : E.tcl.getDict o = some d) (dict' : E.tcl.getDict o' = some d')
      (declared : ∀ text ∈ d'.map (fun e => E.tcl.getString e.1), text ∈ decl.fields.map Prod.fst)
      (present : ∀ f ∈ decl.fields,
        (E.tcl.lookup d f.1).isSome = (E.tcl.lookup d' f.1).isSome)
      (fields : ∀ f ∈ decl.fields, ∀ val val', E.tcl.lookup d f.1 = some val →
        E.tcl.lookup d' f.1 = some val' → SameData f.2.type f.2.extra val val') :
      SameData .struct (.struct st) o o'

end Types

section Encode

variable {E}

/-- What becomes of one field of a dictionary. -/
def FieldDatum (E : Env Obj D) (datum : DataType → TypeExtra → Obj → TclResult (Datum D))
    (d : List (Obj × Obj)) (f : Bytes × FieldType) (x : Option (Datum D)) : Prop :=
  match E.tcl.lookup d f.1 with
  | some val => ∃ v, datum f.2.type f.2.extra val = .ok v ∧ x = some v
  | none => x = none

lemma FieldDatum.some_eq {datum : DataType → TypeExtra → Obj → TclResult (Datum D)}
    {d : List (Obj × Obj)} {f : Bytes × FieldType} {v : Datum D}
    (h : FieldDatum E datum d f (some v)) :
    ∃ val, E.tcl.lookup d f.1 = some val ∧ datum f.2.type f.2.extra val = .ok v := by
  unfold FieldDatum at h
  cases hval : E.tcl.lookup d f.1 with
  | none =>
    rw [hval] at h
    cases h
  | some val =>
    rw [hval] at h
    obtain ⟨v', hv, heq⟩ := h
    exact ⟨val, rfl, Option.some.inj heq ▸ hv⟩

lemma FieldDatum.none_eq {datum : DataType → TypeExtra → Obj → TclResult (Datum D)}
    {d : List (Obj × Obj)} {f : Bytes × FieldType} (h : FieldDatum E datum d f none) :
    E.tcl.lookup d f.1 = none := by
  unfold FieldDatum at h
  cases hval : E.tcl.lookup d f.1 with
  | none => rfl
  | some val =>
    rw [hval] at h
    obtain ⟨_, -, heq⟩ := h
    cases heq

lemma FieldDatum.unique {datum : DataType → TypeExtra → Obj → TclResult (Datum D)}
    {d : List (Obj × Obj)} {f : Bytes × FieldType} {x x' : Option (Datum D)}
    (h : FieldDatum E datum d f x) (h' : FieldDatum E datum d f x') : x = x' := by
  cases x with
  | none =>
    cases x' with
    | none => rfl
    | some v' =>
      obtain ⟨val, hval, -⟩ := h'.some_eq
      exact absurd (h.none_eq.symm.trans hval) (by simp)
  | some v =>
    obtain ⟨val, hval, hv⟩ := h.some_eq
    cases x' with
    | none => exact absurd (h'.none_eq.symm.trans hval) (by simp)
    | some v' =>
      obtain ⟨val', hval', hv'⟩ := h'.some_eq
      obtain rfl := Option.some.inj (hval.symm.trans hval')
      exact congrArg some (TclResult.ok.inj (hv.symm.trans hv'))

lemma structFieldData_eq_ok {datum : DataType → TypeExtra → Obj → TclResult (Datum D)} {o : Obj}
    {d : List (Obj × Obj)} (hd : E.tcl.getDict o = some d) (fields : List (Bytes × FieldType))
    (objs : List Obj) (hobjs : objs.map E.tcl.getString = fields.map Prod.fst)
    (xs : List (Option (Datum D))) :
    structFieldData E datum o fields objs = .ok xs ↔
      List.Forall₂ (FieldDatum E datum d) fields xs := by
  induction fields generalizing objs xs with
  | nil => simp [structFieldData, eq_comm]
  | cons f fields ih =>
    obtain ⟨name, ft⟩ := f
    obtain ⟨obj, objs, rfl⟩ := List.exists_cons_of_length_eq_add_one
      ((List.length_map _).symm.trans (congrArg List.length hobjs))
    obtain ⟨hname, hobjs⟩ := List.cons.inj hobjs
    have hget : E.tcl.dictGet d obj = E.tcl.lookup d name := by rw [TclApi.dictGet, hname]
    rw [List.forall₂_cons_left_iff]
    simp only [structFieldData, hd, hget, TclResult.require_some, TclResult.ok_bind, FieldDatum]
    cases E.tcl.lookup d name with
    | none =>
      simp only [TclResult.bind_eq_ok, ih objs hobjs]
      constructor
      · rintro ⟨xs, hxs, ⟨⟩⟩
        exact ⟨none, xs, rfl, hxs, rfl⟩
      · rintro ⟨_, xs, rfl, hxs, rfl⟩
        exact ⟨xs, hxs, rfl⟩
    | some val =>
      simp only [TclResult.bind_eq_ok, ih objs hobjs]
      constructor
      · rintro ⟨x, hx, xs, hxs, ⟨⟩⟩
        obtain ⟨v, hv, ⟨⟩⟩ := TclResult.bind_eq_ok.mp hx
        exact ⟨some v, xs, ⟨v, hv, rfl⟩, hxs, rfl⟩
      · rintro ⟨_, xs, ⟨v, hv, rfl⟩, hxs, rfl⟩
        exact ⟨some v, by rw [hv]; rfl, xs, hxs, rfl⟩

lemma structFieldData_congr {datum datum' : DataType → TypeExtra → Obj → TclResult (Datum D)}
    (o : Obj) (fields : List (Bytes × FieldType)) (objs : List Obj)
    (h : ∀ f ∈ fields, ∀ val, datum f.2.type f.2.extra val = datum' f.2.type f.2.extra val) :
    structFieldData E datum o fields objs = structFieldData E datum' o fields objs := by
  induction fields generalizing objs with
  | nil => rfl
  | cons f fields ih =>
    obtain ⟨name, ft⟩ := f
    cases objs with
    | nil => rfl
    | cons obj objs =>
      have hft := h (name, ft) (List.mem_cons_self ..)
      simp only [structFieldData, ih objs fun f hf => h f (List.mem_cons_of_mem _ hf), hft]

lemma structDepth_field {st : ℤ} {decl : StructDecl} (hlookup : E.structs.lookup st = some decl)
    {f : Bytes × FieldType} (hf : f ∈ decl.fields) :
    structDepth E.structs f.2.type f.2.extra < structDepth E.structs .struct (.struct st) := by
  have hrank := E.structs.rank_lt st decl hlookup f hf
  obtain ⟨name, type, extra⟩ := f
  cases type <;> cases extra <;> simp_all [structDepth]

lemma adlbTclobj2datum_struct {st : ℤ} {decl : StructDecl} {objs : List Obj} (o : Obj)
    (hlookup : E.structs.lookup st = some decl) (hnames : fieldNameObjs E st = .ok objs) :
    adlbTclobj2datum E .struct (.struct st) o =
      (structFieldData E (adlbTclobj2datum E) o decl.fields objs >>= fun xs =>
        .ok (.struct st xs)) := by
  rw [adlbTclobj2datum]
  simp only [tclDictToAdlbStruct, hlookup, hnames, TclResult.require_some, TclResult.ok_bind]
  congr 1
  refine structFieldData_congr o decl.fields objs fun f hf val => ?_
  rw [if_pos (structDepth_field hlookup hf)]

lemma fieldNameObjs_text {st : ℤ} {decl : StructDecl} {objs : List Obj}
    (hlookup : E.structs.lookup st = some decl) (hnames : fieldNameObjs E st = .ok objs) :
    objs.map E.tcl.getString = decl.fields.map Prod.fst :=
  E.names_text st decl objs hlookup (fieldNameObjs_eq_ok.mp hnames).2

lemma HasType.datum {t : DataType} {e : TypeExtra} {o : Obj} (h : HasType E t e o)
    (hdecl : ∀ st, t = .struct → e = .struct st → DeclaredStruct E st) :
    ∃ v, adlbTclobj2datum E t e o = .ok v := by
  induction h with
  | integer h =>
    obtain ⟨v, hv⟩ := Option.isSome_iff_exists.mp h
    exact ⟨_, adlbTclobj2datum_integer.mpr ⟨v, hv, rfl⟩⟩
  | ref h =>
    obtain ⟨v, hv⟩ := Option.isSome_iff_exists.mp h
    exact ⟨_, adlbTclobj2datum_ref.mpr ⟨v, hv, rfl⟩⟩
  | float h =>
    obtain ⟨v, hv⟩ := Option.isSome_iff_exists.mp h
    exact ⟨_, adlbTclobj2datum_float.mpr ⟨v, hv, rfl⟩⟩
  | string h => exact ⟨_, adlbTclobj2datum_string.mpr ⟨h, rfl⟩⟩
  | blob h =>
    obtain ⟨v, hv⟩ := Option.isSome_iff_exists.mp h
    exact ⟨_, adlbTclobj2datum_blob.mpr ⟨v, hv, rfl⟩⟩
  | @struct st decl o d hlookup hd hfields ih =>
    cases hdecl st rfl rfl with
    | @intro _ decl' objs hlookup' hnames _ hnested =>
    obtain rfl : decl = decl' := Option.some.inj (hlookup.symm.trans hlookup')
    have hfield : ∀ f ∈ decl.fields, ∃ x, FieldDatum E (adlbTclobj2datum E) d f x := by
      intro f hf
      unfold FieldDatum
      cases hval : E.tcl.lookup d f.1 with
      | none => exact ⟨none, rfl⟩
      | some val =>
        obtain ⟨v, hv⟩ := ih f hf val hval fun st' ht he => hnested f hf st' (by rw [← ht, ← he])
        exact ⟨some v, v, hv, rfl⟩
    obtain ⟨xs, hxs⟩ := exists_forall₂ hfield
    have hdata := (structFieldData_eq_ok hd decl.fields objs
      (fieldNameObjs_text hlookup hnames) xs).mpr hxs
    refine ⟨.struct st xs, ?_⟩
    rw [adlbTclobj2datum_struct o hlookup hnames, hdata]
    rfl

lemma adlbTclobj2datum_struct_extra {e : TypeExtra} {o : Obj} {v : Datum D}
    (h : adlbTclobj2datum E .struct e o = .ok v) : ∃ st, e = .struct st := by
  cases e with
  | struct st => exact ⟨st, rfl⟩
  | _ =>
    rw [adlbTclobj2datum.eq_def] at h
    cases h

lemma struct_of_datum {st : ℤ} {o : Obj} {v : Datum D}
    (h : adlbTclobj2datum E .struct (.struct st) o = .ok v) :
    ∃ decl objs, E.structs.lookup st = some decl ∧ fieldNameObjs E st = .ok objs := by
  rw [adlbTclobj2datum] at h
  simp only [tclDictToAdlbStruct, TclResult.bind_eq_ok, TclResult.require_eq_ok] at h
  obtain ⟨decl, hdecl, objs, hobjs, -⟩ := h
  exact ⟨decl, objs, hdecl, hobjs⟩

lemma adlbTclobj2datum_dataType {t : DataType} {e : TypeExtra} {o : Obj} {v : Datum D}
    (h : adlbTclobj2datum E t e o = .ok v) : v.dataType = t := by
  cases t with
  | integer =>
    obtain ⟨_, -, rfl⟩ := adlbTclobj2datum_integer.mp h
    rfl
  | ref =>
    obtain ⟨_, -, rfl⟩ := adlbTclobj2datum_ref.mp h
    rfl
  | float =>
    obtain ⟨_, -, rfl⟩ := adlbTclobj2datum_float.mp h
    rfl
  | string =>
    obtain ⟨-, rfl⟩ := adlbTclobj2datum_string.mp h
    rfl
  | blob =>
    obtain ⟨_, -, rfl⟩ := adlbTclobj2datum_blob.mp h
    rfl
  | struct =>
    obtain ⟨st, rfl⟩ := adlbTclobj2datum_struct_extra h
    rw [adlbTclobj2datum] at h
    simp only [tclDictToAdlbStruct, TclResult.bind_eq_ok] at h
    obtain ⟨-, -, -, -, -, -, ⟨⟩⟩ := h
    rfl
  | _ =>
    rw [adlbTclobj2datum] at h
    cases h

end Encode

section Decode

variable {E}

/-- Values built by the decoder: structs have no fields but the declared ones, at every depth. -/
inductive OnlyDeclared (E : Env Obj D) : DataType → TypeExtra → Obj → Prop
  | scalar {t e o} (ht : t ≠ .struct) : OnlyDeclared E t e o
  | struct {st decl o d} (lookup : E.structs.lookup st = some decl)
      (dict : E.tcl.getDict o = some d)
      (declared : ∀ text ∈ d.map (fun e => E.tcl.getString e.1), text ∈ decl.fields.map Prod.fst)
      (fields : ∀ f ∈ decl.fields, ∀ val, E.tcl.lookup d f.1 = some val →
        OnlyDeclared E f.2.type f.2.extra val) : OnlyDeclared E .struct (.struct st) o

/-- What decoding does to the packed form of a datum. -/
def DatumDecodes (E : Env Obj D) (ft : FieldType) (v : Datum D) : Prop :=
  ∀ b, E.adlb.pack v v.dataType = some b → b.length ≤ E.adlb.dataMax →
    ∀ e', e' = .null ∨ e' = ft.extra → ∃ o', adlbDatum2tclobj E ft.type e' b = .ok o' ∧
      adlbTclobj2datum E ft.type ft.extra o' = .ok v ∧ OnlyDeclared E ft.type ft.extra o'

/-- What the decoder's dictionary holds for one field. -/
def FieldResult (E : Env Obj D) (dict : List (Obj × Obj)) (f : Bytes × FieldType)
    (x : Option (Datum D)) : Prop :=
  match x with
  | none => E.tcl.lookup dict f.1 = none
  | some v => ∃ o', E.tcl.lookup dict f.1 = some o' ∧
      adlbTclobj2datum E f.2.type f.2.extra o' = .ok v ∧ OnlyDeclared E f.2.type f.2.extra o'

/-- The fields from `i` on lie one after the other in the buffer, up to its end. -/
def FieldsAt (E : Env Obj D) (data : Bytes) : ℕ → ℕ → List Bytes → Prop
  | _, start, [] => start = data.length
  | i, start, p :: pieces => offset E data i = start ∧
      (∃ rest, data.drop start = p ++ rest) ∧ FieldsAt E data (i + 1) (start + p.length) pieces

lemma FieldsAt.fieldEnd_eq {data p : Bytes} {pieces : List Bytes} {i start fieldCount : ℕ}
    (h : FieldsAt E data i start (p :: pieces)) (hcount : i + (p :: pieces).length = fieldCount) :
    fieldEnd E data fieldCount i = start + p.length := by
  obtain ⟨-, -, hrest⟩ := h
  unfold fieldEnd
  cases pieces with
  | nil =>
    rw [if_pos (by simpa using hcount)]
    exact hrest.symm
  | cons p' pieces =>
    rw [if_neg (by simp at hcount; omega)]
    exact hrest.1

lemma FieldResult.of_later {dict : List (Obj × Obj)} {f : Bytes × FieldType}
    {x : Option (Datum D)} {fields : List (Bytes × FieldType)} {xs : List (Option (Datum D))}
    (hres : List.Forall₂ (FieldResult E dict) fields xs)
    (hsame : ∀ b ∈ fields.zip xs, f.1 = b.1.1 → f.2 = b.1.2 ∧ x = b.2)
    (hmem : f.1 ∈ fields.map Prod.fst) : FieldResult E dict f x := by
  induction hres with
  | nil => simp at hmem
  | @cons f' x' fields xs hf' _ ih =>
    by_cases hname : f.1 = f'.1
    · obtain ⟨htype, rfl⟩ := hsame (f', x') (List.mem_cons_self ..) hname
      obtain rfl : f = f' := Prod.ext hname htype
      exact hf'
    · refine ih (fun b hb => hsame b (List.mem_cons_of_mem _ hb)) ?_
      simpa [hname] using hmem

lemma structEntries_layout {data : Bytes} (hmax : data.length ≤ E.adlb.dataMax)
    (hlen : data.length < 2 ^ 64) (fieldCount : ℕ) (fields : List (Bytes × FieldType)) :
    ∀ (objs : List Obj) (xs : List (Option (Datum D))) (pieces : List Bytes) (i start : ℕ)
      (dict : List (Obj × Obj)),
    objs.map E.tcl.getString = fields.map Prod.fst →
    List.Forall₂ (fun f x => ∀ v, x = some v → DatumDecodes E f.2 v) fields xs →
    List.Forall₂ (FieldPiece E.adlb) xs pieces → FieldsAt E data i start pieces →
    i + fields.length = fieldCount →
    (fields.zip xs).Pairwise (fun a b => a.1.1 = b.1.1 → a.1.2 = b.1.2 ∧ a.2 = b.2) →
    (∀ a ∈ fields.zip xs, a.2 = none → E.tcl.lookup dict a.1.1 = none) →
    (dict.map fun e => E.tcl.getString e.1).Nodup →
    ∃ dict', (structEntries E (nestedDatum E data) fieldCount i fields objs dict).2 = .ok dict' ∧
      (dict'.map fun e => E.tcl.getString e.1).Nodup ∧
      (∀ text, text ∉ fields.map Prod.fst → E.tcl.lookup dict' text = E.tcl.lookup dict text) ∧
      List.Forall₂ (FieldResult E dict') fields xs := by
  induction fields with
  | nil =>
    intro objs xs pieces i start dict _ hxs _ _ _ _ _ hnodup
    cases hxs
    exact ⟨dict, rfl, hnodup, fun _ _ => rfl, List.Forall₂.nil⟩
  | cons f fields ih =>
    intro objs xs pieces i start dict hobjs hdecodes hpieces hat hcount hsame habsent hnodup
    cases hdecodes with | @cons _ x _ xs hdec hdecodes =>
    cases hpieces with | @cons _ p _ pieces hp hpieces =>
    obtain ⟨obj, objs, rfl⟩ := List.exists_cons_of_length_eq_add_one
      ((List.length_map _).symm.trans (congrArg List.length hobjs))
    obtain ⟨name, ft⟩ := f
    obtain ⟨hname, hobjs'⟩ := List.cons.inj hobjs
    obtain ⟨hhead, hsame'⟩ := List.pairwise_cons.mp hsame
    have hend := hat.fieldEnd_eq (show i + (p :: pieces).length = fieldCount by
      rw [← hcount, List.length_cons, List.length_cons, ← hpieces.length_eq, hdecodes.length_eq])
    obtain ⟨hoff, ⟨rest, hrest⟩, hat⟩ := hat
    have hcount' : i + 1 + fields.length = fieldCount := by
      rw [List.length_cons] at hcount
      omega
    cases x with
    | none =>
      obtain rfl : p = [0] := hp
      have hvalid : data[offset E data i]? = some 0 := by
        rw [hoff, ← List.head?_drop, hrest]
        rfl
      obtain ⟨dict', hdict, hnodup', hother, hres⟩ := ih objs xs pieces (i + 1) _ dict hobjs'
        hdecodes hpieces hat hcount' hsame' (fun a ha => habsent a (List.mem_cons_of_mem _ ha)) hnodup
      refine ⟨dict', ?_, hnodup', ?_, List.Forall₂.cons ?_ hres⟩
      · rw [structEntries_absent hvalid]
        exact hdict
      · intro text htext
        exact hother text fun h => htext (List.mem_cons_of_mem _ h)
      · by_cases hmem : name ∈ fields.map Prod.fst
        · exact FieldResult.of_later hres hhead hmem
        · exact (hother name hmem).trans (habsent _ (List.mem_cons_self ..) rfl)
    | some v =>
      obtain ⟨valid, b, hne, hb, rfl⟩ := hp
      have hvalid : data[offset E data i]? = some valid := by
        rw [hoff, ← List.head?_drop, hrest]
        rfl
      have hrest' : data.drop (start + 1) = b ++ rest := by
        rw [← List.drop_drop, hrest]
        rfl
      have hle : start + 1 + b.length ≤ data.length := by
        have hdrop := congrArg List.length hrest
        simp only [List.length_drop, List.length_append, List.length_cons] at hdrop
        omega
      let s : Span data := ⟨start + 1, b.length, hle⟩
      have hs : s.len < data.length := by
        change b.length < data.length
        omega
      have hbytes : s.bytes = b := by simp [s, Span.bytes, hrest']
      obtain ⟨o', ho', hread, hclean⟩ := hdec v rfl b hb (by omega) ft.extra (Or.inr rfl)
      have hval : nestedDatum E data ft.type ft.extra s hs = .ok o' := by
        rw [nestedDatum, hbytes]
        exact ho'
      have hput (text : Bytes) := E.tcl.lookup_dictPut dict obj o' text
      obtain ⟨dict', hdict, hnodup', hother, hres⟩ := ih objs xs pieces (i + 1) _
        (E.tcl.dictPut dict obj o') hobjs' hdecodes hpieces hat hcount' hsame'
        (by
          intro a ha hnone
          have hne' : E.tcl.getString obj ≠ a.1.1 := by
            intro heq
            have hsome := (hhead a ha (hname.symm.trans heq)).2
            rw [hnone] at hsome
            cases hsome
          rw [hput, if_neg hne']
          exact habsent a (List.mem_cons_of_mem _ ha) hnone)
        (E.tcl.dictPut_nodup obj o' hnodup)
      refine ⟨dict', ?_, hnodup', ?_, List.Forall₂.cons ?_ hres⟩
      · rw [structEntries_present hlen hvalid hne s hs (by rw [hoff]) (by
          rw [hend]
          change start + 1 + b.length = start + (b.length + 1)
          omega), hval]
        exact hdict
      · intro text htext
        rw [List.map_cons, List.mem_cons, not_or] at htext
        rw [hother text htext.2, hput, if_neg]
        rw [hname]
        exact Ne.symm htext.1
      · by_cases hmem : name ∈ fields.map Prod.fst
        · exact FieldResult.of_later hres hhead hmem
        · refine ⟨o', ?_, hread, hclean⟩
          rw [hother name hmem, hput, if_pos hname]

lemma fieldsAt_of_offsets {data : Bytes} (pieces : List Bytes) (i start : ℕ)
    (hoff : ∀ j < pieces.length, offset E data (i + j) = start + (pieces.take j).flatten.length)
    (hdrop : data.drop start = pieces.flatten)
    (hlen : start + pieces.flatten.length = data.length) : FieldsAt E data i start pieces := by
  induction pieces generalizing i start with
  | nil =>
    change start = data.length
    simpa using hlen
  | cons p pieces ih =>
    refine ⟨by simpa using hoff 0 (by simp), ⟨_, hdrop⟩, ih (i + 1) (start + p.length) ?_ ?_ ?_⟩
    · intro j hj
      have := hoff (j + 1) (by simpa using hj)
      rw [show i + 1 + j = i + (j + 1) by omega, this]
      simp [Nat.add_assoc]
    · rw [← List.drop_drop, hdrop]
      simp
    · rw [← hlen]
      simp [Nat.add_assoc]

variable (hA : E.adlb.Lawful) (hS : E.adlb.StructLawful) (hT : E.tcl.Lawful)

lemma LeafDecodes.datumDecodes {t : DataType} {e : TypeExtra} (h : LeafDecodes E t e)
    (ht : t ≠ .struct) {o : Obj} {v : Datum D} (hv : adlbTclobj2datum E t e o = .ok v) :
    DatumDecodes E ⟨t, e⟩ v := by
  intro b hb hmax e' he'
  rw [adlbTclobj2datum_dataType hv] at hb
  obtain ⟨o', ho', hread⟩ := h o v b hv hb hmax e' he'
  exact ⟨o', ho', hread, OnlyDeclared.scalar ht⟩

lemma fields_of_struct {st : ℤ} {decl : StructDecl} {objs : List Obj} {o : Obj} {v : Datum D}
    (hlookup : E.structs.lookup st = some decl) (hnames : fieldNameObjs E st = .ok objs)
    (hv : adlbTclobj2datum E .struct (.struct st) o = .ok v) :
    ∃ xs, v = .struct st xs ∧ xs.length = decl.fields.length ∧
      ∃ d, List.Forall₂ (FieldDatum E (adlbTclobj2datum E) d) decl.fields xs := by
  rw [adlbTclobj2datum_struct o hlookup hnames] at hv
  obtain ⟨xs, hxs, ⟨⟩⟩ := TclResult.bind_eq_ok.mp hv
  refine ⟨xs, rfl, ?_⟩
  have htext := fieldNameObjs_text hlookup hnames
  cases hd : E.tcl.getDict o with
  | some d =>
    have hall := (structFieldData_eq_ok hd decl.fields objs htext xs).mp hxs
    exact ⟨hall.length_eq.symm, d, hall⟩
  | none =>
    -- without a dictionary the conversion reaches no field
    cases hfields : decl.fields with
    | nil =>
      rw [hfields] at hxs
      cases hxs
      exact ⟨rfl, [], List.Forall₂.nil⟩
    | cons f fields =>
      rw [hfields] at hxs htext
      cases objs with
      | nil => cases htext
      | cons obj objs => simp [structFieldData, hd] at hxs

lemma length_le_flatten {xs : List (Option (Datum D))} {pieces : List Bytes}
    (h : List.Forall₂ (FieldPiece E.adlb) xs pieces) : xs.length ≤ pieces.flatten.length := by
  induction h with
  | nil => simp
  | @cons x p xs pieces hp _ ih =>
    have hpos : 1 ≤ p.length := by
      cases x with
      | none =>
        obtain rfl : p = [0] := hp
        simp
      | some v =>
        obtain ⟨valid, b, -, -, rfl⟩ := hp
        simp
    simp only [List.length_cons, List.flatten_cons, List.length_append]
    omega

lemma packedStructHeader_eq_ok {data : Bytes} {st : ℤ} {decl : StructDecl} {objs : List Obj}
    {e' : TypeExtra} (hlookup : E.structs.lookup st = some decl)
    (hnames : fieldNameObjs E st = .ok objs) (hst : E.adlb.structType data = st)
    (hlen : E.adlb.structHdrLen decl.fields.length ≤ data.length)
    (he' : e' = .null ∨ e' = .struct st) :
    packedStructHeader E data e' = .ok (decl.fields, objs) := by
  unfold DataLib.structHdrLen at hlen
  have hhdr : E.adlb.structHdrSize ≤ data.length := by omega
  have hextra : checkStructExtra e' st = .ok () := by
    rcases he' with rfl | rfl <;> simp [checkStructExtra]
  simp [packedStructHeader, hst, hextra, hlookup, hnames, hhdr, hlen]

lemma FieldResult.fieldDatum {dict : List (Obj × Obj)} {f : Bytes × FieldType}
    {x : Option (Datum D)} (h : FieldResult E dict f x) :
    FieldDatum E (adlbTclobj2datum E) dict f x := by
  unfold FieldDatum
  cases x with
  | none => rw [show E.tcl.lookup dict f.1 = none from h]
  | some v =>
    obtain ⟨o', hlookup, hv, -⟩ := h
    rw [hlookup]
    exact ⟨v, hv, rfl⟩

lemma FieldResult.onlyDeclared {dict : List (Obj × Obj)} {f : Bytes × FieldType}
    {x : Option (Datum D)} (h : FieldResult E dict f x) {val : Obj}
    (hval : E.tcl.lookup dict f.1 = some val) : OnlyDeclared E f.2.type f.2.extra val := by
  cases x with
  | none => exact absurd ((show E.tcl.lookup dict f.1 = none from h).symm.trans hval) (by simp)
  | some v =>
    obtain ⟨o', hlookup, -, hclean⟩ := h
    obtain rfl := Option.some.inj (hlookup.symm.trans hval)
    exact hclean

include hA hS hT

theorem DeclaredStruct.datumDecodes {st : ℤ} (h : DeclaredStruct E st) : ∀ o v,
    adlbTclobj2datum E .struct (.struct st) o = .ok v →
    DatumDecodes E ⟨.struct, .struct st⟩ v := by
  induction h with
  | @intro st decl objs hlookup hnames hsame _ ih =>
  intro o v hv b hb hmax e' he'
  have hlt := hA.dataMax_lt
  obtain ⟨xs, rfl, hxslen, d, hxs⟩ := fields_of_struct hlookup hnames hv
  have htext := fieldNameObjs_text hlookup hnames
  obtain ⟨pieces, hpieces, hst, hlen, hdrop, hoffsets⟩ :=
    hS.struct_layout st xs b (E.structs.lookup_int st decl hlookup) hb (by omega)
  have hat : FieldsAt E b 0 (E.adlb.structHdrLen xs.length) pieces :=
    fieldsAt_of_offsets pieces 0 _ (fun j hj => by
      rw [Nat.zero_add]
      exact hoffsets j (hpieces.length_eq ▸ hj)) hdrop hlen.symm
  have hdecodes : List.Forall₂ (fun f x => ∀ v, x = some v → DatumDecodes E f.2 v)
      decl.fields xs := by
    refine List.forall₂_iff_zip.mpr ⟨hxslen.symm, ?_⟩
    rintro ⟨name, t, e⟩ x hmem v rfl
    have hf := (List.of_mem_zip hmem).1
    obtain ⟨val, -, hval⟩ := (List.forall₂_zip hxs hmem).some_eq
    cases t with
    | integer => exact (leafDecodes_integer hA hT).datumDecodes (by simp) hval
    | ref => exact (leafDecodes_ref hA hT).datumDecodes (by simp) hval
    | float => exact (leafDecodes_float hA hT).datumDecodes (by simp) hval
    | string => exact (leafDecodes_string hA hT).datumDecodes (by simp) hval
    | blob => exact (leafDecodes_blob hA hT).datumDecodes (by simp) hval
    | struct =>
      obtain ⟨st', rfl⟩ := adlbTclobj2datum_struct_extra hval
      exact ih _ hf st' rfl val v hval
    | _ =>
      rw [adlbTclobj2datum] at hval
      cases hval
  have hconsistent : (decl.fields.zip xs).Pairwise
      fun a b => a.1.1 = b.1.1 → a.1.2 = b.1.2 ∧ a.2 = b.2 := by
    refine List.pairwise_of_forall_mem_list ?_
    rintro ⟨f, x⟩ ha ⟨f', x'⟩ hb hname
    have htype := hsame f (List.of_mem_zip ha).1 f' (List.of_mem_zip hb).1 hname
    obtain rfl : f = f' := Prod.ext hname htype
    exact ⟨rfl, (List.forall₂_zip hxs ha).unique (List.forall₂_zip hxs hb)⟩
  obtain ⟨dict', hdict, hnodup, hother, hres⟩ := structEntries_layout
    hmax (by omega) decl.fields.length decl.fields objs xs pieces 0 _ [] htext hdecodes hpieces hat (by simp)
    hconsistent (fun _ _ _ => rfl) (by simp)
  have hdeclared : ∀ text ∈ dict'.map (fun e => E.tcl.getString e.1),
      text ∈ decl.fields.map Prod.fst := by
    intro text hmem
    by_contra hnot
    exact (E.tcl.lookup_eq_none.mp ((hother text hnot).trans (E.tcl.lookup_nil text))) hmem
  have hsize : dict'.length < 2 ^ 31 := by
    have hkeys := (List.subperm_of_subset hnodup hdeclared).length_le
    have hflatten := length_le_flatten hpieces
    rw [List.length_map, List.length_map] at hkeys
    omega
  have hget := hT.getDict_newDict dict' hnodup hsize
  refine ⟨E.tcl.newDict dict', ?_, ?_, ?_⟩
  · have hhdr := packedStructHeader_eq_ok hlookup hnames hst
      (by rw [hlen, hxslen]; omega) he'
    rw [adlbDatum2tclobj_struct hmax, packedStructToTclDict, hhdr]
    simp only [hdict, TclResult.map_ok]
  · rw [adlbTclobj2datum_struct _ hlookup hnames, (structFieldData_eq_ok hget decl.fields objs htext
      xs).mpr (hres.imp fun f x hx => hx.fieldDatum)]
    rfl
  · refine OnlyDeclared.struct hlookup hget hdeclared fun f hf val hval => ?_
    obtain ⟨x, -, hx⟩ := exists_of_forall₂ hres.flip hf
    exact FieldResult.onlyDeclared (x := x) hx hval

end Decode

section Main

variable {E}

lemma HasType.sameData {t : DataType} {e : TypeExtra} {o : Obj} (h : HasType E t e o)
    (hdecl : ∀ st, t = .struct → e = .struct st → DeclaredStruct E st) :
    ∀ {o' : Obj} {v : Datum D}, adlbTclobj2datum E t e o = .ok v →
      adlbTclobj2datum E t e o' = .ok v → OnlyDeclared E t e o' → SameData E t e o o' := by
  induction h with
  | @struct st decl o d hlookup hd hfields ih =>
    intro o' v hv hv' hclean
    cases hdecl st rfl rfl with
    | @intro _ decl' objs hlookup' hnames _ hnested =>
    obtain rfl : decl = decl' := Option.some.inj (hlookup.symm.trans hlookup')
    cases hclean with
    | scalar ht => exact absurd rfl ht
    | @struct _ decl' _ d' hlookup'' hd' hdeclared hcleans =>
    obtain rfl : decl = decl' := Option.some.inj (hlookup.symm.trans hlookup'')
    have htext := fieldNameObjs_text hlookup hnames
    rw [adlbTclobj2datum_struct _ hlookup hnames] at hv hv'
    obtain ⟨xs, hxs, ⟨⟩⟩ := TclResult.bind_eq_ok.mp hv
    obtain ⟨_, hxs', heq⟩ := TclResult.bind_eq_ok.mp hv'
    obtain ⟨-, rfl⟩ := Datum.struct.inj (TclResult.ok.inj heq)
    have hall := (structFieldData_eq_ok hd decl.fields objs htext _).mp hxs
    have hall' := (structFieldData_eq_ok hd' decl.fields objs htext _).mp hxs'
    have hfield : ∀ f ∈ decl.fields, ∃ x, FieldDatum E (adlbTclobj2datum E) d f x ∧
        FieldDatum E (adlbTclobj2datum E) d' f x := by
      intro f hf
      obtain ⟨x, -, hfx⟩ := exists_of_forall₂ (forall₂_and hall hall').flip hf
      exact ⟨x, hfx⟩
    refine SameData.struct hlookup hd hd' hdeclared ?_ ?_
    · intro f hf
      obtain ⟨x, hx, hx'⟩ := hfield f hf
      cases x with
      | none => rw [hx.none_eq, hx'.none_eq]
      | some v =>
        obtain ⟨val, hval, -⟩ := hx.some_eq
        obtain ⟨val', hval', -⟩ := hx'.some_eq
        rw [hval, hval']
        rfl
    · intro f hf val val' hval hval'
      obtain ⟨x, hx, hx'⟩ := hfield f hf
      cases x with
      | none => exact absurd (hx.none_eq.symm.trans hval) (by simp)
      | some v =>
        obtain ⟨w, hw, hv⟩ := hx.some_eq
        obtain rfl := Option.some.inj (hw.symm.trans hval)
        obtain ⟨w', hw', hv'⟩ := hx'.some_eq
        obtain rfl := Option.some.inj (hw'.symm.trans hval')
        exact ih f hf w hval (fun st' ht he => hnested f hf st' (by rw [← ht, ← he])) hv hv'
          (hcleans f hf w' hval')
  | _ =>
    intro o' v hv hv' _
    exact SameData.scalar (by simp) hv hv'

theorem adlbDatum2tclobj_adlbTclobj2bin_struct (hA : E.adlb.Lawful) (hS : E.adlb.StructLawful)
    (hT : E.tcl.Lawful) (st : ℤ) (hst : DeclaredStruct E st) (o : Obj)
    (ho : HasType E .struct (.struct st) o) (canonicalize : Bool) :
    ∃ b, adlbTclobj2bin E .struct (.struct st) o canonicalize = .ok b ∧
      (b.length ≤ E.adlb.dataMax → ∀ e', e' = .null ∨ e' = .struct st →
        ∃ o', adlbDatum2tclobj E .struct e' b = .ok o' ∧
          SameData E .struct (.struct st) o o') := by
  have hdecl : ∀ st', DataType.struct = .struct → TypeExtra.struct st = .struct st' →
      DeclaredStruct E st' := by
    rintro st' - ⟨⟩
    exact hst
  obtain ⟨v, hv⟩ := ho.datum hdecl
  obtain ⟨b, hb⟩ := Option.isSome_iff_exists.mp (hS.pack_isSome v)
  have hpack := hb
  rw [adlbTclobj2datum_dataType hv] at hpack
  refine ⟨b, ?_, fun hmax e' he' => ?_⟩
  · simp [adlbTclobj2bin, hv, hpack]
  · obtain ⟨o', ho', hread, hclean⟩ := hst.datumDecodes hA hS hT o v hv b hb hmax e' he'
    exact ⟨o', ho', ho.sameData hdecl hv hread hclean⟩

end Main

section Concrete

lemma declaredStruct_cell : DeclaredStruct cellEnv 0 := by
  have hlookup : cellEnv.structs.lookup 0 = some cell := rfl
  have hnames : fieldNameObjs cellEnv 0 = .ok [.str [120]] := rfl
  refine .intro hlookup hnames ?_ ?_
  · simp [cell]
  · simp [cell]

theorem adlbDatum2tclobj_cell : ∃ b,
    adlbTclobj2bin cellEnv .struct (.struct 0) (.dict [(.str [120], .str [53])]) true = .ok b ∧
      (b.length ≤ packingDataMax → ∃ o', adlbDatum2tclobj cellEnv .struct .null b = .ok o' ∧
        SameData cellEnv .struct (.struct 0) (.dict [(.str [120], .str [53])]) o') := by
  have htype : HasType cellEnv .struct (.struct 0) (.dict [(.str [120], .str [53])]) := by
    have hlookup : cellEnv.structs.lookup 0 = some cell := rfl
    refine .struct hlookup rfl ?_
    intro f hf val hval
    obtain rfl : f = ([120], ⟨.integer, .null⟩) := by simpa [cell] using hf
    cases hval
    exact .integer (by decide)
  obtain ⟨b, hb, hdecode⟩ := adlbDatum2tclobj_adlbTclobj2bin_struct packing_lawful
    packing_structLawful values_lawful 0 declaredStruct_cell _ htype true
  exact ⟨b, hb, fun hmax => hdecode hmax .null (Or.inl rfl)⟩

/-- A struct type with a container in it. -/
def shelf : StructDecl := ⟨[115], [([99], ⟨.container, .container .string .integer⟩)]⟩

/-- A value of its field makes the struct impossible to encode. -/
theorem not_adlbTclobj2bin_shelf :
    ¬∃ b, adlbTclobj2bin (packingEnv [shelf]) .struct (.struct 0)
      (.dict [(.str [99], .dict [])]) true = .ok b := by
  rintro ⟨b, hb⟩
  rw [adlbTclobj2bin, if_neg (by simp), TclResult.bind_eq_ok] at hb
  obtain ⟨v, hv, -⟩ := hb
  have hdecl : (packingEnv [shelf]).structs.lookup 0 = some shelf := rfl
  have hnames : fieldNameObjs (packingEnv [shelf]) 0 = .ok [.str [99]] := rfl
  rw [adlbTclobj2datum_struct _ hdecl hnames, TclResult.bind_eq_ok] at hv
  obtain ⟨xs, hxs, -⟩ := hv
  have hfields := (structFieldData_eq_ok (d := [(.str [99], .dict [])]) rfl shelf.fields _ rfl
    xs).mp hxs
  obtain ⟨_, _, hfield, -⟩ := List.forall₂_cons_left_iff.mp hfields
  -- the field has a value, which is not converted
  obtain ⟨v', hv', -⟩ : ∃ v, adlbTclobj2datum (packingEnv [shelf]) .container
    (.container .string .integer) (.dict []) = .ok v ∧ _ = some v := hfield
  rw [adlbTclobj2datum] at hv'
  cases hv'

end Concrete

end Turbine.Codec
