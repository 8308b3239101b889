import Turbine.Codec.Checkpoint

/-! When two Tcl representations of one value are packed into the same checkpoint key. Keys and
elements are sorted by their Tcl strings, before they are converted, and keys are packed as they
are written. -/

namespace Turbine.Codec

open Tcl Adlb Library

variable {Obj D : Type} {E : Env Obj D}

section Injective

/-- Data of a leaf type with the same packed form are equal. -/
def LeafInjective (E : Env Obj D) (t : DataType) (e : TypeExtra) : Prop :=
  ∀ o o' d d' b, adlbTclobj2datum E t e o = .ok d → adlbTclobj2datum E t e o' = .ok d' →
    E.adlb.pack d t = some b → E.adlb.pack d' t = some b → b.length < 2 ^ 64 → d = d'

lemma withLen_injective (hA : E.adlb.Lawful) {t : DataType} {b b' : Bytes}
    (h : withLen E.adlb t b = withLen E.adlb t b') (hlen : (withLen E.adlb t b).length < 2 ^ 64) :
    b = b' := by
  have hlen' := hlen
  rw [h] at hlen'
  simp only [withLen, List.length_append] at hlen hlen'
  obtain ⟨entry, next, hentry, hbytes, -⟩ := hA.unpack_buffer t [] b [] (withLen E.adlb t b)
    (by omega) (by simp [withLen])
  obtain ⟨entry', next', hentry', hbytes', -⟩ := hA.unpack_buffer t [] b' [] (withLen E.adlb t b)
    (by omega) (by rw [h]; simp [withLen])
  rw [hentry] at hentry'
  obtain ⟨rfl, -⟩ := UnpackCode.success.inj hentry'
  exact hbytes.symm.trans hbytes'

lemma entries_injective (hA : E.adlb.Lawful) {k : DataType} {v : CompoundTy} {data : Bytes}
    (hlen : data.length < 2 ^ 64) {es : List (Bytes × Reading D v)} {pieces : List Bytes}
    (h : List.Forall₂ (fun e p => ∃ b, layout E.adlb v e.2 = some b ∧
      p = entryBytes E.adlb k v.head.1 e.1 b) es pieces)
    (hval : ∀ e ∈ es, ∀ r' b, Reading.Valid E v r' → layout E.adlb v e.2 = some b →
      layout E.adlb v r' = some b → b.length < 2 ^ 64 → e.2 = r') :
    ∀ (es' : List (Bytes × Reading D v)) (pieces' : List Bytes) (pre : Bytes),
      List.Forall₂ (fun e p => ∃ b, layout E.adlb v e.2 = some b ∧
        p = entryBytes E.adlb k v.head.1 e.1 b) es' pieces' →
      (∀ e ∈ es', Reading.Valid E v e.2) → es'.length = es.length → data = pre ++ pieces.flatten → data = pre ++ pieces'.flatten →
      es = es' := by
  induction h with
  | nil =>
    intro es' pieces' pre _ _ hcount _ _
    exact (List.length_eq_zero_iff.mp hcount).symm
  | @cons e p es pieces hp _ ih =>
    intro es' pieces' pre h' hvalid hcount hdata hdata'
    obtain ⟨e', es', rfl⟩ := List.exists_cons_of_length_eq_add_one hcount
    cases h' with | @cons _ p' _ pieces' hp' h' =>
    obtain ⟨key, r⟩ := e
    obtain ⟨key', r'⟩ := e'
    obtain ⟨b, hb, rfl⟩ := hp
    obtain ⟨b', hb', rfl⟩ := hp'
    have hsize := congrArg List.length hdata
    have hsize' := congrArg List.length hdata'
    simp only [List.flatten_cons, List.length_append, entryBytes, withLen] at hsize hsize'
    obtain ⟨entry, hentry, hkey, hbytes, -⟩ := hA.unpack_containerEntry k v.head.1 pre
      (key ++ [0]) b pieces.flatten data (by simp at hsize ⊢; omega) (by omega)
      (by rw [hdata]; simp [entryBytes, withLen])
    obtain ⟨entry', hentry', hkey', hbytes', -⟩ := hA.unpack_containerEntry k v.head.1 pre
      (key' ++ [0]) b' pieces'.flatten data (by simp at hsize' ⊢; omega) (by omega)
      (by rw [hdata']; simp [entryBytes, withLen])
    obtain rfl := Option.some.inj (hentry.symm.trans hentry')
    obtain rfl : key = key' := List.append_cancel_right (hkey.symm.trans hkey')
    obtain rfl : b = b' := hbytes.symm.trans hbytes'
    obtain rfl : r = r' := hval (key, r) (List.mem_cons_self ..) r' b
      (hvalid (key, r') (List.mem_cons_self ..)) hb hb' (by omega)
    rw [ih (fun e he => hval e (List.mem_cons_of_mem _ he)) es' pieces'
      (pre ++ entryBytes E.adlb k v.head.1 key b) h'
      (fun e he => hvalid e (List.mem_cons_of_mem _ he)) (by simpa using hcount)
      (by rw [hdata]; simp) (by rw [hdata']; simp)]

lemma elements_injective (hA : E.adlb.Lawful) {v : CompoundTy} {data : Bytes}
    (hlen : data.length < 2 ^ 64) {rs : List (Reading D v)} {pieces : List Bytes}
    (h : List.Forall₂ (fun r p => ∃ b, layout E.adlb v r = some b ∧
      p = withLen E.adlb v.head.1 b) rs pieces)
    (hval : ∀ r ∈ rs, ∀ r' b, Reading.Valid E v r' → layout E.adlb v r = some b →
      layout E.adlb v r' = some b → b.length < 2 ^ 64 → r = r') :
    ∀ (rs' : List (Reading D v)) (pieces' : List Bytes) (pre : Bytes),
      List.Forall₂ (fun r p => ∃ b, layout E.adlb v r = some b ∧
        p = withLen E.adlb v.head.1 b) rs' pieces' →
      (∀ r ∈ rs', Reading.Valid E v r) → rs'.length = rs.length → data = pre ++ pieces.flatten → data = pre ++ pieces'.flatten →
      rs = rs' := by
  induction h with
  | nil =>
    intro rs' pieces' pre _ _ hcount _ _
    exact (List.length_eq_zero_iff.mp hcount).symm
  | @cons r p rs pieces hp _ ih =>
    intro rs' pieces' pre h' hvalid hcount hdata hdata'
    obtain ⟨r', rs', rfl⟩ := List.exists_cons_of_length_eq_add_one hcount
    cases h' with | @cons _ p' _ pieces' hp' h' =>
    obtain ⟨b, hb, rfl⟩ := hp
    obtain ⟨b', hb', rfl⟩ := hp'
    have hsize := congrArg List.length hdata
    have hsize' := congrArg List.length hdata'
    simp only [List.flatten_cons, List.length_append, withLen] at hsize hsize'
    obtain ⟨entry, hentry, hbytes, -⟩ := hA.unpack_multisetEntry v.head.1 pre b pieces.flatten
      data (by omega) (by rw [hdata]; simp [withLen])
    obtain ⟨entry', hentry', hbytes', -⟩ := hA.unpack_multisetEntry v.head.1 pre b'
      pieces'.flatten data (by omega) (by rw [hdata']; simp [withLen])
    obtain rfl := Option.some.inj (hentry.symm.trans hentry')
    obtain rfl : b = b' := hbytes.symm.trans hbytes'
    obtain rfl : r = r' := hval r (List.mem_cons_self ..) r' b
      (hvalid r' (List.mem_cons_self ..)) hb hb' (by omega)
    rw [ih (fun r hr => hval r (List.mem_cons_of_mem _ hr)) rs' pieces'
      (pre ++ withLen E.adlb v.head.1 b) h'
      (fun r hr => hvalid r (List.mem_cons_of_mem _ hr)) (by simpa using hcount)
      (by rw [hdata]; simp) (by rw [hdata']; simp)]

def CompoundTy.LeavesInjective (E : Env Obj D) : CompoundTy → Prop
  | .leaf t e _ => LeafInjective E t e
  | .container _ v => v.LeavesInjective E
  | .multiset v => v.LeavesInjective E

/-- The layout determines the reading. -/
theorem layout_injective (hA : E.adlb.Lawful) (T : CompoundTy) (hleaves : T.LeavesInjective E) :
    ∀ r r' b, Reading.Valid E T r → Reading.Valid E T r' → layout E.adlb T r = some b →
      layout E.adlb T r' = some b → b.length < 2 ^ 64 → r = r' := by
  induction T with
  | leaf t e ht =>
    intro d d' b hd hd' hb hb' hlen
    obtain ⟨o, ho⟩ := hd
    obtain ⟨o', ho'⟩ := hd'
    exact hleaves o o' d d' b ho ho' hb hb' hlen
  | container k v ih =>
    intro (es : List (Bytes × Reading D v)) (es' : List (Bytes × Reading D v)) b hvalid hvalid'
      hb hb' hlen
    obtain ⟨hsize, -, hvals⟩ := hvalid
    obtain ⟨hsize', -, hvals'⟩ := hvalid'
    obtain ⟨pieces, hpieces, hb⟩ := layout_container.mp hb
    obtain ⟨pieces', hpieces', hb'⟩ := layout_container.mp hb'
    have hhdr := hA.unpack_containerHdr es.length k v.head.1 pieces.flatten hsize
    have hhdr' := hA.unpack_containerHdr es'.length k v.head.1 pieces'.flatten hsize'
    rw [← hb] at hhdr
    rw [← hb', hhdr] at hhdr'
    have hcount : es'.length = es.length := by
      exact_mod_cast (Prod.mk.inj (Option.some.inj hhdr')).1.symm
    rw [hcount] at hb'
    refine entries_injective hA hlen hpieces ?_ es' pieces' _ hpieces' hvals' hcount hb hb'
    exact fun e he r' b hr' hb hb' hlen => ih hleaves e.2 r' b (hvals e he) hr' hb hb' hlen
  | multiset v ih =>
    intro (rs : List (Reading D v)) (rs' : List (Reading D v)) b hvalid hvalid' hb hb' hlen
    obtain ⟨hsize, hvals⟩ := hvalid
    obtain ⟨hsize', hvals'⟩ := hvalid'
    obtain ⟨pieces, hpieces, hb⟩ := layout_multiset.mp hb
    obtain ⟨pieces', hpieces', hb'⟩ := layout_multiset.mp hb'
    have hhdr := hA.unpack_multisetHdr rs.length v.head.1 pieces.flatten hsize
    have hhdr' := hA.unpack_multisetHdr rs'.length v.head.1 pieces'.flatten hsize'
    rw [← hb] at hhdr
    rw [← hb', hhdr] at hhdr'
    have hcount : rs'.length = rs.length := by
      exact_mod_cast (Prod.mk.inj (Option.some.inj hhdr')).1.symm
    rw [hcount] at hb'
    refine elements_injective hA hlen hpieces ?_ rs' pieces' _ hpieces' hvals' hcount hb hb'
    exact fun r hr r' b hr' hb hb' hlen => ih hleaves r r' b (hvals r hr) hr' hb hb' hlen

end Injective

section Leaves

lemma pieces_injective (pieces : List Bytes) : ∀ pieces' : List Bytes,
    pieces.length = pieces'.length → pieces.flatten = pieces'.flatten →
    (∀ i < pieces.length, (pieces.take i).flatten.length = (pieces'.take i).flatten.length) →
    pieces = pieces' := by
  induction pieces with
  | nil =>
    intro pieces' hcount _ _
    exact (List.length_eq_zero_iff.mp hcount.symm).symm
  | cons p pieces ih =>
    intro pieces' hcount hflatten hstart
    obtain ⟨p', pieces', rfl⟩ := List.exists_cons_of_length_eq_add_one hcount.symm
    simp only [List.length_cons, Nat.add_right_cancel_iff] at hcount
    rw [List.flatten_cons, List.flatten_cons] at hflatten
    have hp : p.length = p'.length := by
      cases hps : pieces with
      | nil =>
        subst hps
        obtain rfl := List.length_eq_zero_iff.mp hcount.symm
        simpa using congrArg List.length hflatten
      | cons q qs => simpa using hstart 1 (by simp [hps])
    obtain ⟨rfl, htail⟩ := List.append_inj hflatten hp
    rw [ih pieces' hcount htail fun i hi => by simpa using hstart (i + 1) (by simpa using hi)]

lemma fieldPieces_injective {d d' : List (Obj × Obj)} {fields : List (Bytes × FieldType)}
    {xs xs' : List (Option (Datum D))} {pieces : List Bytes}
    (hxs : List.Forall₂ (FieldDatum E (adlbTclobj2datum E) d) fields xs)
    (hxs' : List.Forall₂ (FieldDatum E (adlbTclobj2datum E) d') fields xs')
    (hp : List.Forall₂ (FieldPiece E.adlb) xs pieces)
    (hp' : List.Forall₂ (FieldPiece E.adlb) xs' pieces)
    (hinj : ∀ f ∈ fields, LeafInjective E f.2.type f.2.extra)
    (hlen : pieces.flatten.length < 2 ^ 64) : xs = xs' := by
  induction hxs generalizing xs' pieces with
  | nil =>
    cases hxs'
    rfl
  | @cons f x fields xs hx _ ih =>
    cases hxs' with | @cons _ x' _ xs' hx' hxs' =>
    cases hp with | @cons _ p _ pieces hp hps =>
    cases hp' with | cons hp' hps' =>
    rw [List.flatten_cons, List.length_append] at hlen
    rw [ih hxs' hps hps' (fun f hf => hinj f (List.mem_cons_of_mem _ hf)) (by omega)]
    congr 1
    cases x with
    | none =>
      obtain rfl : p = [0] := hp
      cases x' with
      | none => rfl
      | some v' =>
        obtain ⟨valid, b, hne, -, heq⟩ := hp'
        exact absurd (List.cons.inj heq).1.symm hne
    | some v =>
      obtain ⟨valid, b, hne, hb, rfl⟩ := hp
      cases x' with
      | none => exact absurd (List.cons.inj (show valid :: b = [0] from hp')).1 hne
      | some v' =>
        obtain ⟨_, b', -, hb', heq⟩ := hp'
        obtain ⟨-, rfl⟩ := List.cons.inj heq
        obtain ⟨val, -, hval⟩ := hx.some_eq
        obtain ⟨val', -, hval'⟩ := hx'.some_eq
        rw [adlbTclobj2datum_dataType hval] at hb
        rw [adlbTclobj2datum_dataType hval'] at hb'
        rw [hinj f (List.mem_cons_self ..) val val' v v' b hval hval' hb hb' (by
          rw [List.length_cons] at hlen
          omega)]

/-- All data that the encoder packs are determined by their packed form. -/
theorem leafInjective (hA : E.adlb.Lawful) (hS : E.adlb.StructLawful) (t : DataType)
    (e : TypeExtra) : LeafInjective E t e := by
  induction hdepth : structDepth E.structs t e using Nat.strong_induction_on generalizing t e with
  | _ depth ih =>
  intro o o' d d' b hd hd' hb hb' hlen
  cases t with
  | integer =>
    obtain ⟨v, -, rfl⟩ := adlbTclobj2datum_integer.mp hd
    obtain ⟨v', -, rfl⟩ := adlbTclobj2datum_integer.mp hd'
    rw [Option.some.inj ((hA.unpack_integer v b hb).symm.trans (hA.unpack_integer v' b hb'))]
  | ref =>
    obtain ⟨v, -, rfl⟩ := adlbTclobj2datum_ref.mp hd
    obtain ⟨v', -, rfl⟩ := adlbTclobj2datum_ref.mp hd'
    rw [Option.some.inj ((hA.unpack_ref v 0 0 b hb).symm.trans (hA.unpack_ref v' 0 0 b hb'))]
  | float =>
    obtain ⟨v, -, rfl⟩ := adlbTclobj2datum_float.mp hd
    obtain ⟨v', -, rfl⟩ := adlbTclobj2datum_float.mp hd'
    rw [Option.some.inj ((hA.unpack_float v b hb).symm.trans (hA.unpack_float v' b hb'))]
  | string =>
    obtain ⟨-, rfl⟩ := adlbTclobj2datum_string.mp hd
    obtain ⟨-, rfl⟩ := adlbTclobj2datum_string.mp hd'
    rw [Option.some.inj ((hA.unpack_string _ b hb).symm.trans (hA.unpack_string _ b hb'))]
  | blob =>
    obtain ⟨v, -, rfl⟩ := adlbTclobj2datum_blob.mp hd
    obtain ⟨v', -, rfl⟩ := adlbTclobj2datum_blob.mp hd'
    rw [Option.some.inj ((hA.unpack_blob v b hb).symm.trans (hA.unpack_blob v' b hb'))]
  | struct =>
    obtain ⟨st, rfl⟩ := adlbTclobj2datum_struct_extra hd
    obtain ⟨decl, objs, hlookup, hnames⟩ := struct_of_datum hd
    obtain ⟨xs, rfl, hcount, dict, hxs⟩ := fields_of_struct hlookup hnames hd
    obtain ⟨xs', rfl, hcount', dict', hxs'⟩ := fields_of_struct hlookup hnames hd'
    obtain ⟨pieces, hp, -, hsize, hdrop, hoff⟩ :=
      hS.struct_layout st xs b (E.structs.lookup_int st decl hlookup) hb hlen
    obtain ⟨pieces', hp', -, -, hdrop', hoff'⟩ :=
      hS.struct_layout st xs' b (E.structs.lookup_int st decl hlookup) hb' hlen
    rw [hcount', ← hcount] at hdrop' hoff'
    have hpieces : pieces = pieces' := by
      refine pieces_injective pieces pieces' ?_ (hdrop.symm.trans hdrop') fun i hi => ?_
      · rw [← hp.length_eq, ← hp'.length_eq, hcount, hcount']
      · rw [← hp.length_eq] at hi
        have := (hoff i hi).symm.trans (hoff' i hi)
        omega
    subst hpieces
    rw [fieldPieces_injective hxs hxs' hp hp' (fun f hf => ih _
      (hdepth ▸ structDepth_field hlookup hf) f.2.type f.2.extra rfl) (by omega)]
  | _ =>
    rw [adlbTclobj2datum] at hd
    cases hd

lemma CompoundTy.leavesInjective (hA : E.adlb.Lawful) (hS : E.adlb.StructLawful)
    (T : CompoundTy) : T.LeavesInjective E := by
  induction T with
  | leaf t e ht => exact leafInjective hA hS t e
  | container k v ih => exact ih
  | multiset v ih => exact ih

end Leaves

section Main

variable {names : TypeNames}

/-- The bytes of the blob that `adlb::xpt_pack` returns. -/
def XptPacks (E : Env Obj D) (names : TypeNames) (args : List Obj) (b : Bytes) : Prop :=
  ∃ blob, adlbXptPackCmd E names args = .ok blob ∧ E.tcl.getBlob blob = some b

/-- Keys that are the same value of their type, or at least the same text. -/
def SameKey (E : Env Obj D) (k : DataType) (a b : Obj) : Prop :=
  E.tcl.getString a = E.tcl.getString b ∨
    ∃ v, adlbTclobj2datum E k .null a = .ok v ∧ adlbTclobj2datum E k .null b = .ok v

/-- Equal values are packed into the same bytes, or both are not packed. -/
def CanonicalAt (E : Env Obj D) (names : TypeNames) (T : CompoundTy) (words : List Obj)
    (v v' : Obj) : Prop :=
  SameValue E (SameKey E) T v v' →
    ∀ b, XptPacks E names (words ++ [v]) b ↔ XptPacks E names (words ++ [v']) b

/-- The value has a packed form that fits into memory with its length. -/
def XptPackable (E : Env Obj D) (T : CompoundTy) (v : Obj) : Prop :=
  ∃ b, encoding E true T v = some b ∧ (withLen E.adlb T.head.1 b).length < 2 ^ 64

lemma xptPacks_iff (hA : E.adlb.Lawful) (hT : E.tcl.Lawful) {T : CompoundTy} {words : List Obj}
    (hwords : Spells E names T words) (v : Obj) (b : Bytes) :
    XptPacks E names (words ++ [v]) b ↔ ∃ c, encoding E true T v = some c ∧
      b = withLen E.adlb T.head.1 c ∧ b.length < 2 ^ 64 := by
  have hargs : [(⟨T, words, v⟩ : XptField Obj)].flatMap XptField.args = words ++ [v] := by
    simp [XptField.args]
  have hpack (blob : Obj) : adlbXptPackCmd E names ([(⟨T, words, v⟩ : XptField Obj)].flatMap
      XptField.args) = .ok blob ↔ _ := adlbXptPackCmd_eq_ok hA (by simpa using hwords)
  have hpiece (c : Bytes) (hc : encoding E true T v = some c) :
      [(⟨T, words, v⟩ : XptField Obj)].mapM (XptField.piece E) =
        some [withLen E.adlb T.head.1 c] := by
    simp [XptField.piece, hc]
  simp only [hargs] at hpack
  constructor
  · rintro ⟨blob, hcmd, hblob⟩
    obtain ⟨pieces, hpieces, hlen, rfl⟩ := (hpack blob).mp hcmd
    rw [hT.getBlob_newBlob] at hblob
    obtain rfl := Option.some.inj hblob
    cases hc : encoding E true T v with
    | none => simp [XptField.piece, hc] at hpieces
    | some c =>
      obtain rfl := Option.some.inj ((hpiece c hc).symm.trans hpieces)
      exact ⟨c, rfl, by simp, hlen⟩
  · rintro ⟨c, hc, rfl, hlen⟩
    refine ⟨E.tcl.newBlob (withLen E.adlb T.head.1 c), (hpack _).mpr ?_, hT.getBlob_newBlob _⟩
    exact ⟨_, hpiece c hc, by simpa using hlen, by simp⟩

lemma reading_eq_of_encoding (hA : E.adlb.Lawful) (hS : E.adlb.StructLawful) {T : CompoundTy}
    {c : Bool} {v v' : Obj} {b : Bytes} (h : encoding E c T v = some b)
    (h' : encoding E c T v' = some b) (hlen : b.length < 2 ^ 64) :
    reading E c T v = reading E c T v' := by
  obtain ⟨r, hr, hb⟩ := Option.bind_eq_some_iff.mp h
  obtain ⟨r', hr', hb'⟩ := Option.bind_eq_some_iff.mp h'
  rw [hr, hr', layout_injective hA T (T.leavesInjective hA hS) r r' b (Reading.valid hr)
    (Reading.valid hr') hb hb' hlen]

lemma reading_eq_of_xptPacks (hA : E.adlb.Lawful) (hS : E.adlb.StructLawful) (hT : E.tcl.Lawful)
    {T : CompoundTy} {words : List Obj} (hwords : Spells E names T words) {v v' : Obj}
    (hpack : XptPackable E T v)
    (h : ∀ b, XptPacks E names (words ++ [v]) b → XptPacks E names (words ++ [v']) b) :
    reading E true T v = reading E true T v' := by
  simp only [xptPacks_iff hA hT hwords] at h
  obtain ⟨c, hc, hlen⟩ := hpack
  obtain ⟨c', hc', heq, -⟩ := h _ ⟨c, hc, rfl, hlen⟩
  obtain rfl := withLen_injective hA heq hlen
  refine reading_eq_of_encoding hA hS hc hc' ?_
  rw [withLen, List.length_append] at hlen
  omega

/-- Exactly the values with one reading in sorted order are packed into one key. -/
theorem canonicalAt_iff (hA : E.adlb.Lawful) (hS : E.adlb.StructLawful) (hT : E.tcl.Lawful)
    (names : TypeNames) (T : CompoundTy) (words : List Obj) (hwords : Spells E names T words)
    (v v' : Obj) :
    CanonicalAt E names T words v v' ↔
      (SameValue E (SameKey E) T v v' →
        reading E true T v = reading E true T v' ∨ (¬XptPackable E T v ∧ ¬XptPackable E T v')) := by
  refine imp_congr_right fun _ => ?_
  constructor
  · intro h
    by_cases hv : XptPackable E T v
    · exact Or.inl (reading_eq_of_xptPacks hA hS hT hwords hv fun b => (h b).mp)
    by_cases hv' : XptPackable E T v'
    · exact Or.inl (reading_eq_of_xptPacks hA hS hT hwords hv' fun b => (h b).mpr).symm
    · exact Or.inr ⟨hv, hv'⟩
  · simp only [xptPacks_iff hA hT hwords]
    rintro (hread | ⟨hv, hv'⟩) b
    · rw [encoding, encoding, hread]
    · refine iff_of_false ?_ ?_
      · rintro ⟨c, hc, rfl, hlen⟩
        exact hv ⟨c, hc, hlen⟩
      · rintro ⟨c, hc, rfl, hlen⟩
        exact hv' ⟨c, hc, hlen⟩

end Main

section Concrete

def integers : CompoundTy := .multiset (.leaf .integer .null integer_scalar)

def integersWords : List Value := [.str [109, 117, 108, 116, 105, 115, 101, 116], integerWord]

lemma spells_integers : Spells (packingEnv []) (typeNames []) integers integersWords :=
  .multiset (by decide) spells_integer

/-- The same two integers, spelled `10 0x9` and `9 10`. -/
def spelledHex : Value := .list [.str [49, 48], .str [48, 120, 57]]

def spelledDecimal : Value := .list [.str [57], .str [49, 48]]

lemma adlbTclobj2datum_value {o : Value} {n : Int64} (h : o.wideInt = some n) :
    adlbTclobj2datum (packingEnv []) .integer .null o = .ok (.integer n) :=
  adlbTclobj2datum_integer.mpr ⟨n, h, rfl⟩

lemma reading_spelledHex : reading (packingEnv []) true integers spelledHex =
    some [.integer 9, .integer 10] := by
  refine reading_multiset.mpr ⟨_, rfl, ?_⟩
  have horder : listOrder (packingEnv []) true [.str [49, 48], .str [48, 120, 57]] =
      [.str [48, 120, 57], .str [49, 48]] := by rfl
  rw [horder]
  refine .cons (reading_leaf.mpr (adlbTclobj2datum_value ?_))
    (.cons (reading_leaf.mpr (adlbTclobj2datum_value ?_)) .nil) <;> decide

lemma reading_spelledDecimal : reading (packingEnv []) true integers spelledDecimal =
    some [.integer 10, .integer 9] := by
  refine reading_multiset.mpr ⟨_, rfl, ?_⟩
  have horder : listOrder (packingEnv []) true [.str [57], .str [49, 48]] =
      [.str [49, 48], .str [57]] := by rfl
  rw [horder]
  refine .cons (reading_leaf.mpr (adlbTclobj2datum_value ?_))
    (.cons (reading_leaf.mpr (adlbTclobj2datum_value ?_)) .nil) <;> decide

lemma sameValue_spelled :
    SameValue (packingEnv []) (SameKey (packingEnv [])) integers spelledHex spelledDecimal := by
  refine ⟨_, _, rfl, rfl, ?_⟩
  have hswap : (↑[Value.str [57], Value.str [49, 48]] : Multiset Value) =
      ↑[Value.str [49, 48], Value.str [57]] := Multiset.coe_eq_coe.mpr (.swap _ _ _)
  rw [hswap]
  refine rel_of_forall₂ (.cons ⟨.integer 10, ?_, ?_⟩ (.cons ⟨.integer 9, ?_, ?_⟩ .nil)) <;>
    exact adlbTclobj2datum_value (by decide)

lemma xptPackable_spelledHex : XptPackable (packingEnv []) integers spelledHex := by
  have hlayout : layout packing integers [.integer 9, .integer 10] =
      some (packing.multisetHdr 2 .integer ++
        [withLen packing .integer (leBytes 8 9), withLen packing .integer (leBytes 8 10)].flatten) :=
    layout_multiset.mpr ⟨_, .cons ⟨leBytes 8 9, rfl, rfl⟩ (.cons ⟨leBytes 8 10, rfl, rfl⟩ .nil), rfl⟩
  refine ⟨_, Option.bind_eq_some_iff.mpr ⟨_, reading_spelledHex, hlayout⟩, ?_⟩
  have hint : packing.lenPrefix .integer 8 = [8] := packing_lenPrefix_short rfl (by decide)
  have hhdr : packing.multisetHdr 2 .integer = [1, 2] := packing_multisetHdr _ _ (by decide)
  change (withLen packing .multiset _).length < _
  simp only [withLen, hhdr, length_leBytes, hint, packing_lenPrefix, lengthPrefix]
  simp [isPadded, vint_of_lt, vintMax, length_leBytes]

theorem canonicalAt_spelledDecimal :
    CanonicalAt (packingEnv []) (typeNames []) integers integersWords spelledDecimal
      (.list [.str [49, 48], .str [57]]) := by
  refine (canonicalAt_iff packing_lawful packing_structLawful values_lawful (typeNames []) integers
    integersWords spells_integers spelledDecimal _).mpr fun _ => Or.inl ?_
  refine reading_spelledDecimal.trans (reading_multiset.mpr ⟨_, rfl, ?_⟩).symm
  have horder : listOrder (packingEnv []) true [.str [49, 48], .str [57]] =
      [.str [49, 48], .str [57]] := by rfl
  rw [horder]
  refine .cons (reading_leaf.mpr (adlbTclobj2datum_value ?_))
    (.cons (reading_leaf.mpr (adlbTclobj2datum_value ?_)) .nil) <;> decide

/-- The elements are sorted by how they are spelled, so the two keys differ. -/
theorem not_canonicalAt_spelled :
    ¬CanonicalAt (packingEnv []) (typeNames []) integers integersWords spelledHex spelledDecimal := by
  intro h
  have hread := reading_eq_of_xptPacks packing_lawful packing_structLawful values_lawful
    spells_integers xptPackable_spelledHex fun b => (h sameValue_spelled b).mp
  rw [reading_spelledHex, reading_spelledDecimal] at hread
  have hfirst := (List.cons.inj (Option.some.inj hread)).1
  exact absurd (Datum.integer.inj hfirst) (by decide)

end Concrete

end Turbine.Codec
