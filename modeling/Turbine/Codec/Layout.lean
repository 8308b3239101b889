import Turbine.Codec.Encode
import Turbine.Adlb.Laws
import Turbine.Library.MapM

/-! What the encoder writes. A Tcl value of a compound type has a reading, the typed data in the
order they are packed, and a reading has one binary layout; the encoder appends exactly that. -/

namespace Turbine.Codec

open Tcl Adlb Library

variable {Obj D : Type} (E : Env Obj D)

/-- A type list with an extra record for each type. -/
def CompoundType.ofList (l : List (DataType × TypeExtra)) : CompoundType where
  types := l.map Prod.fst
  extras := some (l.map Prod.snd)
  extras_length := by simp

/-- Nested types as `get_compound_type` accepts them. -/
inductive CompoundTy
  | leaf (type : DataType) (extra : TypeExtra) (scalar : type ≠ .container ∧ type ≠ .multiset)
  | container (key : DataType) (val : CompoundTy)
  | multiset (elem : CompoundTy)

namespace CompoundTy

/-- The flattened type list. -/
def types : CompoundTy → List (DataType × TypeExtra)
  | leaf t e _ => [(t, e)]
  | container k v => (.container, .null) :: (k, .null) :: v.types
  | multiset v => (.multiset, .null) :: v.types

def head : CompoundTy → DataType × TypeExtra
  | leaf t e _ => (t, e)
  | container _ _ => (.container, .null)
  | multiset _ => (.multiset, .null)

def toCompoundType (T : CompoundTy) : CompoundType := .ofList T.types

end CompoundTy

/-- The typed data of a value, in the order they are packed. -/
def Reading (D : Type) : CompoundTy → Type
  | .leaf _ _ _ => Datum D
  | .container _ v => List (Bytes × Reading D v)
  | .multiset v => List (Reading D v)

/-- The entries of a dictionary in the order they are packed. -/
def dictOrder (canonicalize : Bool) (d : List (Obj × Obj)) : List (Obj × Obj) :=
  if canonicalize then
    (E.tcl.lsort (d.map Prod.fst)).filterMap fun key => (E.tcl.dictGet d key).map fun v => (key, v)
  else d

def listOrder (canonicalize : Bool) (l : List Obj) : List Obj :=
  if canonicalize then E.tcl.lsort l else l

def reading (canonicalize : Bool) : (T : CompoundTy) → Obj → Option (Reading D T)
  | .leaf t e _, o => (adlbTclobj2datum E t e o).okValue
  | .container _ v, o => do
    let d ← E.tcl.getDict o
    (dictOrder E canonicalize d).mapM fun e => do
      let r ← reading canonicalize v e.2
      some (E.tcl.getString e.1, r)
  | .multiset v, o => do
    let l ← E.tcl.getList o
    (listOrder E canonicalize l).mapM (reading canonicalize v)

/-- A value with its length in front. -/
def withLen (adlb : DataLib D) (type : DataType) (b : Bytes) : Bytes :=
  adlb.lenPrefix type b.length ++ b

/-- One entry of a packed container. -/
def entryBytes (adlb : DataLib D) (keyType valType : DataType) (key val : Bytes) : Bytes :=
  withLen adlb keyType (key ++ [0]) ++ withLen adlb valType val

def layout (adlb : DataLib D) : (T : CompoundTy) → Reading D T → Option Bytes
  | .leaf t _ _, d => adlb.pack d t
  | .container k v, (es : List (Bytes × Reading D v)) => do
    let pieces ← es.mapM fun e => do
      let b ← layout adlb v e.2
      some (entryBytes adlb k v.head.1 e.1 b)
    some (adlb.containerHdr es.length k v.head.1 ++ pieces.flatten)
  | .multiset v, (rs : List (Reading D v)) => do
    let pieces ← rs.mapM fun r => do
      let b ← layout adlb v r
      some (withLen adlb v.head.1 b)
    some (adlb.multisetHdr rs.length v.head.1 ++ pieces.flatten)

/-- The bytes of a value as the encoder packs it. -/
def encoding (canonicalize : Bool) (T : CompoundTy) (o : Obj) : Option Bytes :=
  (reading E canonicalize T o).bind (layout E.adlb T)

section Order

variable {E}

lemma dictOrder_perm (canonicalize : Bool) {o : Obj} {d : List (Obj × Obj)}
    (hd : E.tcl.getDict o = some d) : (dictOrder E canonicalize d).Perm d := by
  unfold dictOrder
  split
  · refine ((E.tcl.lsort_perm _).filterMap _).trans ?_
    rw [List.filterMap_map]
    have hself : d.filterMap ((fun key => (E.tcl.dictGet d key).map fun v => (key, v)) ∘ Prod.fst) =
        d.filterMap some := by
      refine List.filterMap_congr fun e he => ?_
      simp [E.tcl.dictGet_of_mem (E.tcl.dict_nodup o d hd) he]
    rw [hself, List.filterMap_some]
  · exact List.Perm.refl d

lemma listOrder_perm (canonicalize : Bool) (l : List Obj) :
    (listOrder E canonicalize l).Perm l := by
  unfold listOrder
  split
  · exact E.tcl.lsort_perm l
  · exact List.Perm.refl l

end Order

section Elements

variable {E} {canonicalize : Bool} {k : DataType} {v : CompoundTy} {o : Obj}

lemma reading_leaf {t : DataType} {e : TypeExtra} {ht : t ≠ .container ∧ t ≠ .multiset}
    {d : Datum D} :
    reading E canonicalize (.leaf t e ht) o = some d ↔ adlbTclobj2datum E t e o = .ok d :=
  TclResult.okValue_eq_some

lemma reading_container {es : List (Bytes × Reading D v)} :
    reading E canonicalize (.container k v) o = some es ↔
      ∃ d, E.tcl.getDict o = some d ∧ List.Forall₂
        (fun a e => E.tcl.getString a.1 = e.1 ∧ reading E canonicalize v a.2 = some e.2)
        (dictOrder E canonicalize d) es := by
  refine Option.bind_eq_some_iff.trans (exists_congr fun d => and_congr_right fun _ => ?_)
  refine mapM_eq_some_iff.trans (iff_of_eq ?_)
  congr 1
  funext a e
  obtain ⟨key, r⟩ := e
  cases reading E canonicalize v a.2 <;> simp

lemma reading_multiset {rs : List (Reading D v)} :
    reading E canonicalize (.multiset v) o = some rs ↔
      ∃ l, E.tcl.getList o = some l ∧
        List.Forall₂ (fun a r => reading E canonicalize v a = some r) (listOrder E canonicalize l) rs :=
  Option.bind_eq_some_iff.trans (exists_congr fun _ => and_congr_right fun _ => mapM_eq_some_iff)

lemma layout_container {adlb : DataLib D} {es : List (Bytes × Reading D v)} {b : Bytes} :
    layout adlb (.container k v) es = some b ↔
      ∃ pieces, List.Forall₂ (fun e p => ∃ b, layout adlb v e.2 = some b ∧
        p = entryBytes adlb k v.head.1 e.1 b) es pieces ∧
        b = adlb.containerHdr es.length k v.head.1 ++ pieces.flatten := by
  refine Option.bind_eq_some_iff.trans (exists_congr fun pieces => and_congr ?_ ?_)
  · refine mapM_eq_some_iff.trans (iff_of_eq ?_)
    congr 1
    funext e p
    cases layout adlb v e.2 <;> simp [eq_comm]
  · simp [eq_comm]

lemma layout_multiset {adlb : DataLib D} {rs : List (Reading D v)} {b : Bytes} :
    layout adlb (.multiset v) rs = some b ↔
      ∃ pieces, List.Forall₂ (fun r p => ∃ b, layout adlb v r = some b ∧
        p = withLen adlb v.head.1 b) rs pieces ∧
        b = adlb.multisetHdr rs.length v.head.1 ++ pieces.flatten := by
  refine Option.bind_eq_some_iff.trans (exists_congr fun pieces => and_congr ?_ ?_)
  · refine mapM_eq_some_iff.trans (iff_of_eq ?_)
    congr 1
    funext r p
    cases layout adlb v r <;> simp [eq_comm]
  · simp [eq_comm]

end Elements

section Position

variable {types : CompoundType} {pos : ℕ}

/-- Entry `pos` of a type list. -/
def CompoundType.entryAt (types : CompoundType) (pos : ℕ) : Option (DataType × TypeExtra) :=
  types.types[pos]?.map fun t => (t, (types.extras.bind fun l => l[pos]?).getD .null)

/-- The types of `T` stand in the list from position `pos` on. Only leaves have an extra record that
is looked at. -/
def CompoundType.At (types : CompoundType) : ℕ → CompoundTy → Prop
  | pos, .leaf t e _ => types.entryAt pos = some (t, e)
  | pos, .container k v => types.types[pos]? = some .container ∧ types.types[pos + 1]? = some k ∧
      types.At (pos + 2) v
  | pos, .multiset v => types.types[pos]? = some .multiset ∧ types.At (pos + 1) v

lemma compoundTypeNext_entry {t : DataType} {e : TypeExtra} (h : types.entryAt pos = some (t, e)) :
    compoundTypeNext types pos = .ok (t, e, pos + 1) := by
  obtain ⟨t', ht, he⟩ := Option.map_eq_some_iff.mp h
  obtain ⟨rfl, rfl⟩ := Prod.mk.inj he
  simp [compoundTypeNext, ht]

lemma compoundTypeNext_type {t : DataType} (h : types.types[pos]? = some t) :
    ∃ e, compoundTypeNext types pos = .ok (t, e, pos + 1) :=
  ⟨_, compoundTypeNext_entry (by rw [CompoundType.entryAt, h]; rfl)⟩

lemma CompoundType.At.head_type {T : CompoundTy} (h : types.At pos T) :
    types.types[pos]? = some T.head.1 := by
  cases T with
  | leaf t e ht =>
    obtain ⟨t', ht', he⟩ := Option.map_eq_some_iff.mp h
    obtain ⟨rfl, -⟩ := Prod.mk.inj he
    exact ht'
  | container k v => exact h.1
  | multiset v => exact h.1

lemma CompoundType.At.lt {T : CompoundTy} (h : types.At pos T) : pos < types.len :=
  (List.getElem?_eq_some_iff.mp h.head_type).1

lemma CompoundType.entryAt_ofList (l : List (DataType × TypeExtra)) (pos : ℕ) :
    (CompoundType.ofList l).entryAt pos = l[pos]? := by
  simp only [CompoundType.entryAt, CompoundType.ofList, List.getElem?_map, Option.bind_some]
  cases l[pos]? <;> rfl

lemma CompoundType.types_ofList {l : List (DataType × TypeExtra)} {t : DataType} {e : TypeExtra}
    (h : l[pos]? = some (t, e)) : (CompoundType.ofList l).types[pos]? = some t := by
  simp [CompoundType.ofList, h]

lemma CompoundTy.at_ofList {T : CompoundTy} {l : List (DataType × TypeExtra)}
    (h : ∀ i te, T.types[i]? = some te → l[pos + i]? = some te) :
    (CompoundType.ofList l).At pos T := by
  induction T generalizing pos with
  | leaf t e ht => exact (CompoundType.entryAt_ofList l pos).trans (h 0 (t, e) rfl)
  | container k v ih =>
    refine ⟨CompoundType.types_ofList (h 0 _ rfl), CompoundType.types_ofList (h 1 _ rfl), ih ?_⟩
    intro i te hi
    rw [Nat.add_assoc, Nat.add_comm 2 i]
    exact h (i + 2) te hi
  | multiset v ih =>
    refine ⟨CompoundType.types_ofList (h 0 _ rfl), ih ?_⟩
    intro i te hi
    rw [Nat.add_assoc, Nat.add_comm 1 i]
    exact h (i + 1) te hi

lemma CompoundTy.at_toCompoundType (T : CompoundTy) : T.toCompoundType.At 0 T :=
  CompoundTy.at_ofList fun i te hi => by rwa [Nat.zero_add]

end Position

end Turbine.Codec
