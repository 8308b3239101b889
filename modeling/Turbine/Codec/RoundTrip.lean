import Turbine.Codec.Appends
import Turbine.Codec.Malformed

/-! Decoding the layout of a reading gives a value with the same reading. -/

namespace Turbine.Codec

open Tcl Adlb Library

variable {Obj D : Type}

section SameValue

variable (E : Env Obj D)

/-- Equality of the values of a type, up to the order of dictionary entries and of the elements of a
multiset. Scalars and structs are compared as typed data, keys by `sameKey`. -/
def SameValue (sameKey : DataType → Obj → Obj → Prop) : CompoundTy → Obj → Obj → Prop
  | .leaf t e _, o, o' =>
    ∃ d, adlbTclobj2datum E t e o = .ok d ∧ adlbTclobj2datum E t e o' = .ok d
  | .container k v, o, o' => ∃ d d', E.tcl.getDict o = some d ∧ E.tcl.getDict o' = some d' ∧
      Multiset.Rel (fun a b : Obj × Obj => sameKey k a.1 b.1 ∧ SameValue sameKey v a.2 b.2) d d'
  | .multiset v, o, o' => ∃ l l', E.tcl.getList o = some l ∧ E.tcl.getList o' = some l' ∧
      Multiset.Rel (SameValue sameKey v) l l'

/-- Keys with the same text. -/
def SameText (_ : DataType) (a b : Obj) : Prop := E.tcl.getString a = E.tcl.getString b

variable {E}

lemma sameValue_of_reading {c c' : Bool} {T : CompoundTy} {o o' : Obj} {r : Reading D T}
    (h : reading E c T o = some r) (h' : reading E c' T o' = some r) :
    SameValue E (SameText E) T o o' := by
  induction T generalizing o o' with
  | leaf t e ht => exact ⟨r, reading_leaf.mp h, reading_leaf.mp h'⟩
  | container k v ih =>
    obtain ⟨d, hd, hr⟩ := reading_container.mp h
    obtain ⟨d', hd', hr'⟩ := reading_container.mp h'
    refine ⟨d, d', hd, hd', ?_⟩
    rw [← Multiset.coe_eq_coe.mpr (dictOrder_perm c hd),
      ← Multiset.coe_eq_coe.mpr (dictOrder_perm c' hd')]
    refine rel_of_forall₂ ((forall₂_of_common hr hr').imp ?_)
    rintro a b ⟨e, ⟨hkey, hra⟩, hkey', hrb⟩
    exact ⟨hkey.trans hkey'.symm, ih hra hrb⟩
  | multiset v ih =>
    obtain ⟨l, hl, hr⟩ := reading_multiset.mp h
    obtain ⟨l', hl', hr'⟩ := reading_multiset.mp h'
    refine ⟨l, l', hl, hl', ?_⟩
    rw [← Multiset.coe_eq_coe.mpr (listOrder_perm c l),
      ← Multiset.coe_eq_coe.mpr (listOrder_perm c' l')]
    refine rel_of_forall₂ ((forall₂_of_common hr hr').imp ?_)
    rintro a b ⟨r, ha, hb⟩
    exact ih ha hb

end SameValue

section Valid

variable (E : Env Obj D)

/-- Readings of Tcl values: sizes fit into an `int` and keys are distinct. -/
def Reading.Valid : (T : CompoundTy) → Reading D T → Prop
  | .leaf t e _, d => ∃ o, adlbTclobj2datum E t e o = .ok d
  | .container _ v, (es : List (Bytes × Reading D v)) =>
    es.length < 2 ^ 31 ∧ (es.map Prod.fst).Nodup ∧ ∀ e ∈ es, Reading.Valid v e.2
  | .multiset v, (rs : List (Reading D v)) => rs.length < 2 ^ 31 ∧ ∀ r ∈ rs, Reading.Valid v r

variable {E}

lemma Reading.valid {c : Bool} {T : CompoundTy} {o : Obj} {r : Reading D T}
    (h : reading E c T o = some r) : Reading.Valid E T r := by
  induction T generalizing o with
  | leaf t e ht => exact ⟨o, reading_leaf.mp h⟩
  | container k v ih =>
    obtain ⟨d, hd, hr⟩ := reading_container.mp h
    have hperm := dictOrder_perm c hd
    refine ⟨?_, ?_, ?_⟩
    · rw [← hr.length_eq, hperm.length_eq]
      exact E.tcl.dict_size o d hd
    · rw [← map_eq_of_forall₂ hr fun a e hae => hae.1, (hperm.map _).nodup_iff]
      exact E.tcl.dict_nodup o d hd
    · intro e he
      obtain ⟨a, -, -, ha⟩ := exists_of_forall₂ hr he
      exact ih ha
  | multiset v ih =>
    obtain ⟨l, hl, hr⟩ := reading_multiset.mp h
    refine ⟨?_, ?_⟩
    · rw [← hr.length_eq, (listOrder_perm c l).length_eq]
      exact E.tcl.list_size o l hl
    · intro r' hr'
      obtain ⟨a, -, ha⟩ := exists_of_forall₂ hr hr'
      exact ih ha

end Valid

section Decode

variable {E : Env Obj D}

/-- A leaf type whose packed data decode to a value with the same datum. -/
def LeafDecodes (E : Env Obj D) (t : DataType) (e : TypeExtra) : Prop :=
  ∀ o d b, adlbTclobj2datum E t e o = .ok d → E.adlb.pack d t = some b →
    b.length ≤ E.adlb.dataMax → ∀ e', e' = .null ∨ e' = e →
      ∃ o', adlbDatum2tclobj E t e' b = .ok o' ∧ adlbTclobj2datum E t e o' = .ok d

def CompoundTy.LeavesDecode (E : Env Obj D) : CompoundTy → Prop
  | .leaf t e _ => LeafDecodes E t e
  | .container _ v => v.LeavesDecode E
  | .multiset v => v.LeavesDecode E

/-- The extra records a decoder may be given for a type: none or a matching one. -/
def CompoundTy.Accepts : CompoundTy → TypeExtra → Prop
  | .leaf _ e _, e' => e' = .null ∨ e' = e
  | .container k v, e' => ∀ k' v', e' = .container k' v' → k = k' ∧ v.head.1 = v'
  | .multiset v, e' => ∀ t, e' = .multiset t → v.head.1 = t

lemma CompoundTy.accepts_null (T : CompoundTy) : T.Accepts .null := by
  cases T <;> simp [CompoundTy.Accepts]

/-- What decoding does to the layout of a value of this type. -/
def Decodes (E : Env Obj D) (T : CompoundTy) (r : Reading D T) (e' : TypeExtra) (b : Bytes) : Prop :=
  ∃ o', adlbDatum2tclobj E T.head.1 e' b = .ok o' ∧ reading E false T o' = some r ∧
    WellFormed E T.head.1 e' b

lemma newStringObj_key {data : Bytes} {s : Span data} {key : Bytes} (hs : s.bytes = key ++ [0])
    (h : key.length < 2 ^ 31) :
    newStringObj E.tcl (data.drop s.pos) (intPred s.len) = .ok (E.tcl.newString key) := by
  have hlen : s.len = key.length + 1 := by
    rw [← s.length_bytes, hs, List.length_append, List.length_singleton]
  rw [s.drop_pos, hs, hlen, List.append_assoc]
  exact newStringObj_text E.tcl _ h

lemma containerEntries_layout (hA : E.adlb.Lawful) (hT : E.tcl.Lawful) {data : Bytes}
    (hmax : data.length ≤ E.adlb.dataMax) {k : DataType} {v : CompoundTy}
    {es : List (Bytes × Reading D v)} {pieces : List Bytes}
    (hpieces : List.Forall₂ (fun e p => ∃ b, layout E.adlb v e.2 = some b ∧
      p = entryBytes E.adlb k v.head.1 e.1 b) es pieces)
    (hval : ∀ e ∈ es, ∀ b, layout E.adlb v e.2 = some b → b.length ≤ E.adlb.dataMax →
      Decodes E v e.2 .null b) :
    ∀ pre dict, data = pre ++ pieces.flatten →
      (dict.map (fun n => E.tcl.getString n.1) ++ es.map Prod.fst).Nodup →
      (∃ new, containerEntries E (nestedDatum E data) k v.head.1 es.length pre.length dict =
          .ok (.done (dict ++ new) data.length) ∧
        List.Forall₂ (fun e n => n.1 = E.tcl.newString e.1 ∧ reading E false v n.2 = some e.2)
          es new) ∧
      ContainerEntriesWellFormed E (nestedWellFormed E data) k v.head.1 es.length pre.length := by
  induction hpieces with
  | nil =>
    intro pre dict hdata _
    have hpre : pre.length = data.length := by rw [hdata]; simp
    refine ⟨⟨[], ?_, List.Forall₂.nil⟩, hpre⟩
    simp [containerEntries, hpre]
  | @cons e p es pieces hp hpieces ih =>
    obtain ⟨key, r⟩ := e
    obtain ⟨b, hb, rfl⟩ := hp
    intro pre dict hdata hnodup
    have hdata' : data = pre ++ (E.adlb.lenPrefix k (key ++ [0]).length ++ (key ++ [0]) ++
        (E.adlb.lenPrefix v.head.1 b.length ++ b)) ++ pieces.flatten := by
      rw [hdata]
      simp [entryBytes, withLen]
    have hlen : (key ++ [0]).length + b.length ≤ data.length := by
      rw [hdata']
      simp only [List.length_append]
      omega
    have hlt := hA.dataMax_lt
    obtain ⟨entry, hentry, hkey, hbytes, hnext⟩ := hA.unpack_containerEntry k v.head.1 pre
      (key ++ [0]) b pieces.flatten data (by omega) (by omega) hdata'
    obtain ⟨o', ho', hread, hwf⟩ := hval (key, r) (List.mem_cons_self ..) b hb (by omega)
    have hkey' := newStringObj_key (E := E) hkey (by simp at hlen; omega)
    have hfresh : key ∉ dict.map fun n => E.tcl.getString n.1 := by
      intro hmem
      exact List.disjoint_of_nodup_append hnodup hmem (by simp)
    have hput := E.tcl.dictPut_new o' (show E.tcl.getString (E.tcl.newString key) ∉
      dict.map fun n => E.tcl.getString n.1 by rwa [hT.getString_newString])
    have hpre : (pre ++ entryBytes E.adlb k v.head.1 key b).length = entry.next := by
      have hsplit := congrArg List.length hdata
      simp only [List.flatten_cons, List.length_append] at hsplit ⊢
      omega
    obtain ⟨⟨new, hloop, hnew⟩, hwfs⟩ := ih (fun e he => hval e (List.mem_cons_of_mem _ he))
      (pre ++ entryBytes E.adlb k v.head.1 key b) (dict ++ [(E.tcl.newString key, o')])
      (by rw [hdata]; simp) (by simpa [hT.getString_newString] using hnodup)
    rw [hpre] at hloop hwfs
    refine ⟨⟨(E.tcl.newString key, o') :: new, ?_, List.Forall₂.cons ⟨rfl, hread⟩ hnew⟩, ?_⟩
    · simp [containerEntries, hentry, nestedDatum, hbytes, ho', hkey', hput, hloop]
    · exact ⟨entry, hentry, by simpa [nestedWellFormed, hbytes] using hwf, ⟨_, hkey'⟩, hwfs⟩

lemma multisetEntries_layout (hA : E.adlb.Lawful) {data : Bytes}
    (hmax : data.length ≤ E.adlb.dataMax) {v : CompoundTy}
    {rs : List (Reading D v)} {pieces : List Bytes}
    (hpieces : List.Forall₂ (fun r p => ∃ b, layout E.adlb v r = some b ∧
      p = withLen E.adlb v.head.1 b) rs pieces)
    (hval : ∀ r ∈ rs, ∀ b, layout E.adlb v r = some b → b.length ≤ E.adlb.dataMax →
      Decodes E v r .null b) :
    ∀ pre arr, data = pre ++ pieces.flatten →
      (∃ new, multisetEntries E (nestedDatum E data) v.head.1 rs.length pre.length arr =
          .ok (.done (arr ++ new) data.length) ∧
        List.Forall₂ (fun r n => reading E false v n = some r) rs new) ∧
      MultisetEntriesWellFormed E (nestedWellFormed E data) v.head.1 rs.length pre.length := by
  induction hpieces with
  | nil =>
    intro pre arr hdata
    have hpre : pre.length = data.length := by rw [hdata]; simp
    refine ⟨⟨[], ?_, List.Forall₂.nil⟩, hpre⟩
    simp [multisetEntries, hpre]
  | @cons r p rs pieces hp hpieces ih =>
    obtain ⟨b, hb, rfl⟩ := hp
    intro pre arr hdata
    have hdata' : data = pre ++ (E.adlb.lenPrefix v.head.1 b.length ++ b) ++ pieces.flatten := by
      rw [hdata]
      simp [withLen]
    have hlen : b.length ≤ data.length := by
      rw [hdata']
      simp only [List.length_append]
      omega
    have hlt := hA.dataMax_lt
    obtain ⟨entry, hentry, hbytes, hnext⟩ := hA.unpack_multisetEntry v.head.1 pre b
      pieces.flatten data (by omega) hdata'
    obtain ⟨o', ho', hread, hwf⟩ := hval r (List.mem_cons_self ..) b hb (by omega)
    have hpre : (pre ++ withLen E.adlb v.head.1 b).length = entry.next := by
      have hsplit := congrArg List.length hdata
      simp only [List.flatten_cons, List.length_append] at hsplit ⊢
      omega
    obtain ⟨⟨new, hloop, hnew⟩, hwfs⟩ := ih (fun r hr => hval r (List.mem_cons_of_mem _ hr))
      (pre ++ withLen E.adlb v.head.1 b) (arr ++ [o']) (by rw [hdata]; simp)
    rw [hpre] at hloop hwfs
    refine ⟨⟨o' :: new, ?_, List.Forall₂.cons hread hnew⟩, ?_⟩
    · simp [multisetEntries, hentry, nestedDatum, hbytes, ho', hloop]
    · exact ⟨entry, hentry, by simpa [nestedWellFormed, hbytes] using hwf, hwfs⟩

/-- The decoder undoes the layout: it gives a value with the same reading and uses up the bytes. -/
theorem decodes_layout (hA : E.adlb.Lawful) (hT : E.tcl.Lawful) (T : CompoundTy)
    (hleaves : T.LeavesDecode E) : ∀ r b e', Reading.Valid E T r → layout E.adlb T r = some b →
      b.length ≤ E.adlb.dataMax → T.Accepts e' → Decodes E T r e' b := by
  induction T with
  | leaf t e ht =>
    intro d b e' hvalid hb hmax he'
    obtain ⟨o, ho⟩ := hvalid
    obtain ⟨o', ho', hd⟩ := hleaves o d b ho hb hmax e' he'
    refine ⟨o', ho', reading_leaf.mpr hd, ?_⟩
    rw [CompoundTy.head, wellFormed_iff, faults_leaf hmax ht]
    simp [ho', resultFault]
  | container k v ih =>
    intro (es : List (Bytes × Reading D v)) b e' hvalid hb hmax he'
    obtain ⟨hsize, hnodup, hvals⟩ := hvalid
    obtain ⟨pieces, hpieces, rfl⟩ := layout_container.mp hb
    have hlt := hA.dataMax_lt
    have hhdr := hA.unpack_containerHdr es.length k v.head.1 pieces.flatten hsize
    have hval : ∀ e ∈ es, ∀ b, layout E.adlb v e.2 = some b → b.length ≤ E.adlb.dataMax →
        Decodes E v e.2 .null b :=
      fun e he b hb hmax => ih hleaves e.2 b .null (hvals e he) hb hmax v.accepts_null
    obtain ⟨⟨new, hloop, hnew⟩, hwf⟩ := containerEntries_layout hA hT hmax hpieces hval
      (E.adlb.containerHdr es.length k v.head.1) [] rfl (by simpa using hnodup)
    rw [List.nil_append] at hloop
    have hextra : checkContainerExtra E e' k v.head.1 = .ok () :=
      (checkContainerExtra_eq_ok (E := E)).mpr he'
    refine ⟨E.tcl.newDict new, ?_, reading_container.mpr ⟨new, ?_, ?_⟩, ?_⟩
    · rw [CompoundTy.head, adlbDatum2tclobj_container hmax]
      simp [packedContainerToDict, hhdr, hextra, hloop, LoopExit.acc]
    · refine hT.getDict_newDict new ?_ ?_
      · rw [map_eq_of_forall₂ hnew.flip (h := Prod.fst) fun n e hn => by
          rw [hn.1, hT.getString_newString]]
        exact hnodup
      · rw [← hnew.length_eq]
        exact hsize
    · refine hnew.flip.imp ?_
      rintro n e ⟨hn, hr⟩
      exact ⟨by rw [hn, hT.getString_newString], hr⟩
    · rw [CompoundTy.head, WellFormed.eq_def]
      exact ⟨hmax, es.length, k, v.head.1, _, hhdr, he', hwf⟩
  | multiset v ih =>
    intro (rs : List (Reading D v)) b e' hvalid hb hmax he'
    obtain ⟨hsize, hvals⟩ := hvalid
    obtain ⟨pieces, hpieces, rfl⟩ := layout_multiset.mp hb
    have hhdr := hA.unpack_multisetHdr rs.length v.head.1 pieces.flatten hsize
    have hval : ∀ r ∈ rs, ∀ b, layout E.adlb v r = some b → b.length ≤ E.adlb.dataMax →
        Decodes E v r .null b :=
      fun r hr b hb hmax => ih hleaves r b .null (hvals r hr) hb hmax v.accepts_null
    obtain ⟨⟨new, hloop, hnew⟩, hwf⟩ := multisetEntries_layout hA hmax hpieces hval
      (E.adlb.multisetHdr rs.length v.head.1) [] rfl
    rw [List.nil_append] at hloop
    have hextra : checkMultisetExtra E e' v.head.1 = .ok () :=
      (checkMultisetExtra_eq_ok (E := E)).mpr he'
    refine ⟨E.tcl.newList new, ?_, reading_multiset.mpr ⟨new, ?_, hnew.flip⟩, ?_⟩
    · rw [CompoundTy.head, adlbDatum2tclobj_multiset hmax]
      simp [packedMultisetToList, hhdr, hextra, hloop]
    · refine hT.getList_newList new ?_
      rw [← hnew.length_eq]
      exact hsize
    · rw [CompoundTy.head, WellFormed.eq_def]
      exact ⟨hmax, rs.length, v.head.1, _, hhdr, he', by omega, hwf⟩

end Decode

section Leaves

variable {E : Env Obj D} {e : TypeExtra} {o : Obj} {d : Datum D}

lemma adlbTclobj2datum_integer :
    adlbTclobj2datum E .integer e o = .ok d ↔
      ∃ v, E.tcl.getWideInt o = some v ∧ d = .integer v := by
  rw [adlbTclobj2datum]
  simp [TclResult.bind_eq_ok, TclResult.require_eq_ok, @eq_comm _ d]

lemma adlbTclobj2datum_ref :
    adlbTclobj2datum E .ref e o = .ok d ↔
      ∃ id, E.tcl.getWideInt o = some id ∧ d = .ref id 0 0 := by
  rw [adlbTclobj2datum]
  simp [TclResult.bind_eq_ok, TclResult.require_eq_ok, @eq_comm _ d]

lemma adlbTclobj2datum_float :
    adlbTclobj2datum E .float e o = .ok d ↔
      ∃ v, E.tcl.getDouble o = some v ∧ d = .float v := by
  rw [adlbTclobj2datum]
  simp [TclResult.bind_eq_ok, TclResult.require_eq_ok, @eq_comm _ d]

lemma adlbTclobj2datum_string :
    adlbTclobj2datum E .string e o = .ok d ↔
      (E.tcl.getString o).length + 1 ≤ E.adlb.dataMax ∧ d = .string (E.tcl.getString o ++ [0]) := by
  rw [adlbTclobj2datum]
  simp [TclResult.bind_eq_ok, TclResult.condition_eq_ok, @eq_comm _ d]

lemma adlbTclobj2datum_blob :
    adlbTclobj2datum E .blob e o = .ok d ↔
      ∃ v, E.tcl.getBlob o = some v ∧ d = .blob v := by
  rw [adlbTclobj2datum]
  simp [TclResult.bind_eq_ok, TclResult.require_eq_ok, @eq_comm _ d]

variable (hA : E.adlb.Lawful) (hT : E.tcl.Lawful)

include hA hT

lemma leafDecodes_integer : LeafDecodes E .integer e := by
  intro o d b ho hb hmax e' _
  obtain ⟨v, hv, rfl⟩ := adlbTclobj2datum_integer.mp ho
  refine ⟨E.tcl.newWideInt v, ?_, adlbTclobj2datum_integer.mpr ⟨v, hT.getWideInt_newWideInt v, rfl⟩⟩
  rw [adlbDatum2tclobj, if_pos hmax, hA.unpack_integer v b hb]
  rfl

lemma leafDecodes_ref : LeafDecodes E .ref e := by
  intro o d b ho hb hmax e' _
  obtain ⟨id, hid, rfl⟩ := adlbTclobj2datum_ref.mp ho
  refine ⟨E.tcl.newWideInt id, ?_, adlbTclobj2datum_ref.mpr ⟨id, hT.getWideInt_newWideInt id, rfl⟩⟩
  rw [adlbDatum2tclobj, if_pos hmax, hA.unpack_ref id 0 0 b hb]
  rfl

lemma leafDecodes_float : LeafDecodes E .float e := by
  intro o d b ho hb hmax e' _
  obtain ⟨v, hv, rfl⟩ := adlbTclobj2datum_float.mp ho
  refine ⟨E.tcl.newDouble v, ?_, adlbTclobj2datum_float.mpr ⟨v, hT.getDouble_newDouble v, rfl⟩⟩
  rw [adlbDatum2tclobj, if_pos hmax, hA.unpack_float v b hb]
  rfl

lemma leafDecodes_string : LeafDecodes E .string e := by
  intro o d b ho hb hmax e' _
  obtain ⟨hlen, rfl⟩ := adlbTclobj2datum_string.mp ho
  have hlt := hA.dataMax_lt
  refine ⟨E.tcl.newString (E.tcl.getString o), ?_, adlbTclobj2datum_string.mpr ?_⟩
  · rw [adlbDatum2tclobj, if_pos hmax, hA.unpack_string _ b hb]
    simp only [TclResult.require_some, TclResult.ok_bind, List.length_append, List.length_singleton]
    exact newStringObj_text E.tcl [0] (by omega)
  · rw [hT.getString_newString]
    exact ⟨hlen, rfl⟩

lemma leafDecodes_blob : LeafDecodes E .blob e := by
  intro o d b ho hb hmax e' _
  obtain ⟨v, hv, rfl⟩ := adlbTclobj2datum_blob.mp ho
  refine ⟨E.tcl.newBlob v, ?_, adlbTclobj2datum_blob.mpr ⟨v, hT.getBlob_newBlob v, rfl⟩⟩
  rw [adlbDatum2tclobj, if_pos hmax, hA.unpack_blob v b hb]
  rfl

end Leaves

section Main

variable {E : Env Obj D}

/-- Compound types over integers, strings and references. -/
def CompoundTy.ScalarOnly : CompoundTy → Prop
  | .leaf t _ _ => t = .integer ∨ t = .string ∨ t = .ref
  | .container k v => (k = .integer ∨ k = .string ∨ k = .ref) ∧ v.ScalarOnly
  | .multiset v => v.ScalarOnly

lemma CompoundTy.ScalarOnly.leavesDecode (hA : E.adlb.Lawful) (hT : E.tcl.Lawful) {T : CompoundTy}
    (h : T.ScalarOnly) : T.LeavesDecode E := by
  induction T with
  | leaf t e ht =>
    rcases h with rfl | rfl | rfl
    · exact leafDecodes_integer hA hT
    · exact leafDecodes_string hA hT
    · exact leafDecodes_ref hA hT
  | container k v ih => exact ih h.2
  | multiset v ih => exact ih h

lemma decodes_encoding (hA : E.adlb.Lawful) (hT : E.tcl.Lawful) {T : CompoundTy}
    (hleaves : T.LeavesDecode E) {canonicalize : Bool} {o : Obj} {b : Bytes}
    (h : encoding E canonicalize T o = some b) (hmax : b.length ≤ E.adlb.dataMax)
    {e' : TypeExtra} (he' : T.Accepts e') :
    ∃ o', adlbDatum2tclobj E T.head.1 e' b = .ok o' ∧ WellFormed E T.head.1 e' b ∧
      SameValue E (SameText E) T o o' ∧
      reading E false T o' = reading E canonicalize T o := by
  obtain ⟨r, hr, hb⟩ := Option.bind_eq_some_iff.mp h
  obtain ⟨o', ho', hread, hwf⟩ := decodes_layout hA hT T hleaves r b e' (Reading.valid hr) hb hmax he'
  exact ⟨o', ho', hwf, sameValue_of_reading hr hread, hread.trans hr.symm⟩

theorem adlbDatum2tclobj_adlbTclobj2binCompound (hA : E.adlb.Lawful) (hT : E.tcl.Lawful)
    (T : CompoundTy) (hscalar : T.ScalarOnly) (canonicalize : Bool) (o : Obj) (b : Bytes)
    (h : adlbTclobj2binCompound E T.toCompoundType o canonicalize = .ok b)
    (hmax : b.length ≤ E.adlb.dataMax) :
    ∃ o', adlbDatum2tclobj E T.head.1 .null b = .ok o' ∧ WellFormed E T.head.1 .null b ∧
      SameValue E (SameText E) T o o' ∧
      (canonicalize = false → reading E false T o' = reading E false T o) := by
  obtain ⟨hb, -⟩ := (adlbTclobj2binCompound_eq_ok hA T o b).mp h
  obtain ⟨o', ho', hwf, hsame, hread⟩ := decodes_encoding hA hT (hscalar.leavesDecode hA hT) hb hmax
    T.accepts_null
  refine ⟨o', ho', hwf, hsame, ?_⟩
  rintro rfl
  exact hread

end Main

section Concrete

lemma integer_scalar : DataType.integer ≠ .container ∧ DataType.integer ≠ .multiset := by decide

/-- Integers under string keys. -/
def countedBy : CompoundTy := .container .string (.leaf .integer .null integer_scalar)

/-- The dictionary with a 5 under this key. -/
def fiveUnder (key : Bytes) : Value := .dict [(.str key, .str [53])]

lemma encoding_fiveUnder (canonicalize : Bool) (key : Bytes) :
    encoding (packingEnv []) canonicalize countedBy (fiveUnder key) =
      some (packing.containerHdr 1 .string .integer ++
        entryBytes packing .string .integer key (leBytes 8 5)) := by
  have hval : adlbTclobj2datum (packingEnv []) .integer .null (.str [53]) = .ok (.integer 5) :=
    adlbTclobj2datum_integer.mpr ⟨5, by decide, rfl⟩
  have hread : reading (packingEnv []) canonicalize countedBy (fiveUnder key) =
      some [(key, .integer 5)] := by
    refine reading_container.mpr ⟨[(.str key, .str [53])], by simp [fiveUnder]; rfl, ?_⟩
    have horder : dictOrder (packingEnv []) canonicalize [(.str key, .str [53])] =
        [(.str key, .str [53])] := by
      cases canonicalize
      · rfl
      · simp [dictOrder, TclApi.lsort, TclApi.dictGet, TclApi.lookup]
    rw [horder]
    exact List.Forall₂.cons ⟨rfl, reading_leaf.mpr hval⟩ List.Forall₂.nil
  refine Option.bind_eq_some_iff.mpr ⟨_, hread, layout_container.mpr
    ⟨[entryBytes packing .string .integer key (leBytes 8 5)], ?_, ?_⟩⟩
  · exact List.Forall₂.cons ⟨leBytes 8 5, rfl, rfl⟩ List.Forall₂.nil
  · simp only [List.flatten_cons, List.flatten_nil, List.append_nil]
    rfl

lemma length_encoding_fiveUnder {canonicalize : Bool} {key b : Bytes}
    (h : encoding (packingEnv []) canonicalize countedBy (fiveUnder key) = some b) :
    b.length = (vint (key.length + 1)).length + key.length + 13 := by
  rw [encoding_fiveUnder] at h
  obtain rfl := Option.some.inj h
  have hhdr : (packing.containerHdr 1 .string .integer).length = 3 := by
    rw [packing_containerHdr _ _ _ (by decide)]
    rfl
  have hprefix : (packing.lenPrefix .integer 8).length = 1 := by
    rw [packing_lenPrefix_short rfl (by decide)]
    rfl
  have hkey : packing.lenPrefix .string (key.length + 1) = vint (key.length + 1) := rfl
  simp only [entryBytes, withLen, List.length_append, hhdr, length_leBytes, hprefix,
    List.length_singleton, hkey]
  omega

theorem adlbDatum2tclobj_fiveUnder : ∃ b o',
    adlbTclobj2binCompound (packingEnv []) countedBy.toCompoundType (fiveUnder [97]) true = .ok b ∧
      b.length ≤ packingDataMax ∧
      adlbDatum2tclobj (packingEnv []) .container .null b = .ok o' ∧
      SameValue (packingEnv []) (SameText (packingEnv [])) countedBy (fiveUnder [97]) o' := by
  have henc := encoding_fiveUnder true [97]
  have hlen := length_encoding_fiveUnder henc
  have hvint : (vint (([97] : Bytes).length + 1)).length ≤ 1 := length_vint_le (by decide)
  have hsmall : ([97] : Bytes).length = 1 := rfl
  have hpack := (adlbTclobj2binCompound_eq_ok packing_lawful countedBy (fiveUnder [97]) _).mpr
    ⟨henc, by omega⟩
  have hmax : packingDataMax = 20971520 := rfl
  obtain ⟨o', ho', -, hsame, -⟩ := adlbDatum2tclobj_adlbTclobj2binCompound packing_lawful
    values_lawful countedBy ⟨Or.inr (Or.inl rfl), Or.inl rfl⟩ true (fiveUnder [97]) _ hpack
    (show _ ≤ packingDataMax by omega)
  exact ⟨_, o', hpack, by omega, ho', hsame⟩

/-- The length of a key is not checked: with a long one the packed dictionary is longer than the
decoder accepts. -/
theorem not_adlbDatum2tclobj_fiveUnder : ∃ b,
    adlbTclobj2binCompound (packingEnv []) countedBy.toCompoundType
      (fiveUnder (List.replicate packingDataMax 97)) true = .ok b ∧
      ¬∃ o', adlbDatum2tclobj (packingEnv []) .container .null b = .ok o' := by
  have henc := encoding_fiveUnder true (List.replicate packingDataMax 97)
  have hlen := length_encoding_fiveUnder henc
  have hvint : (vint (packingDataMax + 1)).length ≤ 10 := length_vint_le (by decide)
  have hmax : packingDataMax = 20971520 := rfl
  rw [List.length_replicate] at hlen
  refine ⟨_, (adlbTclobj2binCompound_eq_ok packing_lawful countedBy _ _).mpr ⟨henc, by omega⟩, ?_⟩
  rintro ⟨o', ho'⟩
  rw [adlbDatum2tclobj_too_long (show ¬_ ≤ packingDataMax by omega)] at ho'
  cases ho'

end Concrete

end Turbine.Codec
