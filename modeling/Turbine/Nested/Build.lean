import Turbine.Library.Commands
import Turbine.Library.MapM

/-! Nested containers and multisets as data that refer to one another: `build_rec` writes a nested
value into the store. Nothing is freed in between, so read references are left out. -/

namespace Turbine.Nested

open Library Library.Cmd

inductive ScalarType
  | integer
  | float
  | string
  deriving DecidableEq

/-- The words of a type list; key types are scalar types. -/
inductive Word
  | container
  | multiset
  | ref
  | scalar (t : ScalarType)
  deriving DecidableEq

inductive Scalar (D : Type)
  | integer (v : Int64)
  | float (v : D)
  | string (v : String)

inductive Value (D : Type)
  | scalar (v : Scalar D)
  | dict (entries : List (String × Value D))
  | list (elems : List (Value D))

variable {D : Type}

def Scalar.type : Scalar D → ScalarType
  | .integer _ => .integer
  | .float _ => .float
  | .string _ => .string

/-! ### The store -/

/-- What a container or a multiset has in it. -/
inductive Item (D : Type)
  | scalar (v : Scalar D)
  | ref (id : ℕ)

inductive Content (D : Type)
  | unset
  | scalar (v : Scalar D)
  | container (entries : List (String × Item D))
  | multiset (items : List (Item D))

structure Datum (D : Type) where
  types : List Word
  content : Content D
  writeRefcount : ℕ

/-- Ids are not given out twice, and no value is cached for one that is still to come. -/
structure State (D : Type) where
  data : ℕ → Option (Datum D)
  cached : ℕ → Option (Scalar D)
  next : ℕ
  data_fresh : ∀ id, next ≤ id → data id = none
  cached_fresh : ∀ id, next ≤ id → cached id = none

inductive Err
  | noDatum
  | typeMismatch
  | writeRefcount
  | alreadySet
  | notSet
  | badValue
  | expectedCompound
  | noSuchVariable (name : String)
  deriving DecidableEq

abbrev Proc (D : Type) := Cmd (State D) Err

def initial : List Word → Content D
  | .container :: _ => .container []
  | .multiset :: _ => .multiset []
  | _ => .unset

def State.put (s : State D) (id : ℕ) (datum : Datum D) (h : id < s.next) : State D where
  data := Function.update s.data id (some datum)
  cached := s.cached
  next := s.next
  data_fresh := fun j hj => by
    rw [Function.update_of_ne (by omega)]
    exact s.data_fresh j hj
  cached_fresh := s.cached_fresh

def State.create (s : State D) (datum : Datum D) : State D where
  data := Function.update s.data s.next (some datum)
  cached := s.cached
  next := s.next + 1
  data_fresh := fun j hj => by
    rw [Function.update_of_ne (by omega)]
    exact s.data_fresh j (by omega)
  cached_fresh := fun j hj => s.cached_fresh j (by omega)

/-- `adlb::create` with a read and a write reference. -/
def create (types : List Word) : Proc D ℕ := fun s =>
  (.ok s.next, s.create ⟨types, initial types, 1⟩)

def multicreate (specs : List (List Word)) : Proc D (List ℕ) := specs.mapM create

/-- What is stored joins what is there: the entries of a container, the members of a multiset. -/
def Content.add : Content D → Content D → Except Err (Content D)
  | .unset, .scalar v => .ok (.scalar v)
  | .container entries, .container more =>
    if more.any fun e => (entries.map Prod.fst).contains e.1 then .error .alreadySet
    else .ok (.container (entries ++ more))
  | .multiset items, .multiset more => .ok (.multiset (items ++ more))
  | _, _ => .error .alreadySet

def store (id : ℕ) (types : List Word) (content : Content D) (writeDecr : ℕ) : Proc D Unit :=
  fun s =>
    if h : id < s.next then
      match s.data id with
      | none => (.error .noDatum, s)
      | some datum =>
        if datum.types ≠ types then (.error .typeMismatch, s)
        else if datum.writeRefcount < writeDecr then (.error .writeRefcount, s)
        else
          match datum.content.add content with
          | .error e => (.error e, s)
          | .ok content =>
            (.ok (), s.put id ⟨types, content, datum.writeRefcount - writeDecr⟩ h)
    else (.error .noDatum, s)

/-! ### Building -/

/-- The values of a type that is not a reference go into the collection themselves. -/
def toItem (valType : Word) : Value D → Except Err (Item D)
  | .scalar v => if valType = .scalar v.type then .ok (.scalar v) else .error .badValue
  | _ => .error .badValue

def dictEntries : Value D → Except Err (List (String × Value D))
  | .dict entries => .ok entries
  | _ => .error .badValue

def listElems : Value D → Except Err (List (Value D))
  | .list elems => .ok elems
  | _ => .error .badValue

def typeCreateSlice : List Word → List Word
  | .container :: types => .container :: types.take 2
  | .multiset :: types => .multiset :: types.take 1
  | outerType :: _ => [outerType]
  | [] => []

/-- Creates the inner data and builds them one after another. -/
def buildMembers (build : ℕ → Value D → Proc D Unit) (createTypes : List Word)
    (vals : List (Value D)) : Proc D (List ℕ) := do
  let valIds ← multicreate (List.replicate vals.length createTypes)
  (valIds.zip vals).forM fun (valId, val) => build valId val
  return valIds

/-- The members as they are stored: new data where they are references. -/
def memberItems (build : ℕ → Value D → Proc D Unit) (valType : Word) (createTypes : List Word)
    (vals : List (Value D)) : Proc D (List (Item D)) :=
  if valType = .ref then do
    let valIds ← buildMembers build createTypes vals
    return valIds.map .ref
  else ofExcept (vals.mapM (toItem valType))

/-- `build_rec`; of the type list, what begins at `types_pos`. -/
def buildRec : List Word → ℕ → Value D → ℕ → Proc D Unit
  | .container :: keyType :: valType :: types, id, cval, writeDecr => do
    let entries ← ofExcept (dictEntries cval)
    let items ← memberItems (fun valId val => buildRec types valId val 1) valType
      (typeCreateSlice types) (entries.map Prod.snd)
    store id [.container, keyType, valType] (.container ((entries.map Prod.fst).zip items)) writeDecr
  | .multiset :: valType :: types, id, cval, writeDecr => do
    let elems ← ofExcept (listElems cval)
    let items ← memberItems (fun valId val => buildRec types valId val 1) valType
      (typeCreateSlice types) elems
    store id [.multiset, valType] (.multiset items) writeDecr
  | [.scalar t], id, cval, _ => do
    let item ← ofExcept (toItem (.scalar t) cval)
    match item with
    | .scalar v => store id [.scalar t] (.scalar v) 1
    | .ref _ => throw .badValue
  | _, _, _, _ => throw .expectedCompound

/-! ### Types -/

inductive Kind
  | container (keyType : ScalarType)
  | multiset

def Kind.words : Kind → List Word
  | .container keyType => [.container, .scalar keyType]
  | .multiset => [.multiset]

/-- Collections of scalars or of references to data of another type. -/
inductive Ty
  | scalar (t : ScalarType)
  | inline (kind : Kind) (t : ScalarType)
  | refs (kind : Kind) (member : Ty)

def Ty.words : Ty → List Word
  | .scalar t => [.scalar t]
  | .inline kind t => kind.words ++ [.scalar t]
  | .refs kind member => kind.words ++ .ref :: member.words

/-- A value of the kind whose members have `P`. -/
def Kind.Has (P : Value D → Prop) : Kind → Value D → Prop
  | .container _, v => ∃ entries, v = .dict entries ∧ (entries.map Prod.fst).Nodup ∧
      ∀ e ∈ entries, P e.2
  | .multiset, v => ∃ elems, v = .list elems ∧ ∀ x ∈ elems, P x

def Ty.Has : Ty → Value D → Prop
  | .scalar t => fun v => ∃ x, v = .scalar x ∧ x.type = t
  | .inline kind t => kind.Has fun v => ∃ x, v = .scalar x ∧ x.type = t
  | .refs kind member => kind.Has member.Has

/-! ### What the store represents -/

/-- The datum has one item for each member of the value, in the relation `R`. -/
def Kind.Holds (R : Item D → Value D → Prop) (content : Content D) : Kind → Value D → Prop
  | .container _, v => ∃ items entries, content = .container items ∧ v = .dict entries ∧
      List.Forall₂ (fun i e => i.1 = e.1 ∧ R i.2 e.2) items entries
  | .multiset, v => ∃ items elems, content = .multiset items ∧ v = .list elems ∧
      List.Forall₂ R items elems

/-- The datum represents the value; the data it refers to lie from `lo` on. -/
def Ty.At (s : State D) (lo : ℕ) : Ty → ℕ → Value D → Prop
  | .scalar t => fun id v => ∃ x writers, x.type = t ∧
      s.data id = some ⟨[.scalar t], .scalar x, writers⟩ ∧ s.cached id = none ∧ v = .scalar x
  | .inline kind _ => fun id v => ∃ datum, s.data id = some datum ∧
      kind.Holds (fun item v => ∃ x, item = .scalar x ∧ v = .scalar x) datum.content v
  | .refs kind member => fun id v => ∃ datum, s.data id = some datum ∧
      kind.Holds (fun item v => ∃ j, item = .ref j ∧ lo ≤ j ∧ member.At s lo j v) datum.content v

lemma Kind.Holds.mono {R T : Item D → Value D → Prop} {content : Content D} {kind : Kind}
    {v : Value D} (h : kind.Holds R content v) (hR : ∀ i w, R i w → T i w) :
    kind.Holds T content v := by
  cases kind with
  | container keyType =>
    obtain ⟨items, entries, hcontent, hv, hitems⟩ := h
    exact ⟨items, entries, hcontent, hv, hitems.imp fun i e hie => ⟨hie.1, hR _ _ hie.2⟩⟩
  | multiset =>
    obtain ⟨items, elems, hcontent, hv, hitems⟩ := h
    exact ⟨items, elems, hcontent, hv, hitems.imp hR⟩

lemma Ty.At.data_ne_none {s : State D} {lo id : ℕ} {ty : Ty} {v : Value D} (h : ty.At s lo id v) :
    s.data id ≠ none := by
  cases ty with
  | scalar t =>
    obtain ⟨x, writers, -, hx, -⟩ := h
    simp [hx]
  | inline kind t =>
    obtain ⟨datum, hdatum, -⟩ := h
    simp [hdatum]
  | refs kind member =>
    obtain ⟨datum, hdatum, -⟩ := h
    simp [hdatum]

/-- What a datum represents does not change with data that it does not refer to. -/
lemma Ty.At.frame {s s' : State D} {lo : ℕ} (hcached : s'.cached = s.cached)
    (hdata : ∀ j, lo ≤ j → s.data j ≠ none → s'.data j = s.data j) {ty : Ty} {id : ℕ} {v : Value D}
    (h : ty.At s lo id v) (hid : s'.data id = s.data id) : ty.At s' lo id v := by
  induction ty generalizing id v with
  | scalar t =>
    obtain ⟨x, writers, htype, hx, hnone, hv⟩ := h
    exact ⟨x, writers, htype, by rw [hid, hx], by rw [hcached, hnone], hv⟩
  | inline kind t =>
    obtain ⟨datum, hdatum, hholds⟩ := h
    exact ⟨datum, by rw [hid, hdatum], hholds⟩
  | refs kind member ih =>
    obtain ⟨datum, hdatum, hholds⟩ := h
    refine ⟨datum, by rw [hid, hdatum], hholds.mono ?_⟩
    rintro _ w ⟨j, rfl, hlo, hj⟩
    exact ⟨j, rfl, hlo, ih hj (hdata j hlo hj.data_ne_none)⟩

lemma Ty.At.le {s : State D} {lo lo' : ℕ} (hle : lo' ≤ lo) {ty : Ty} {id : ℕ} {v : Value D}
    (h : ty.At s lo id v) : ty.At s lo' id v := by
  induction ty generalizing id v with
  | scalar t => exact h
  | inline kind t => exact h
  | refs kind member ih =>
    obtain ⟨datum, hdatum, hholds⟩ := h
    refine ⟨datum, hdatum, hholds.mono ?_⟩
    rintro _ w ⟨j, rfl, hlo, hj⟩
    exact ⟨j, rfl, hle.trans hlo, ih hj⟩

/-- All but the data `ids` are as they were. -/
structure Keeps (ids : List ℕ) (s s' : State D) : Prop where
  next : s.next ≤ s'.next
  cached : s'.cached = s.cached
  data : ∀ j < s.next, j ∉ ids → s'.data j = s.data j

lemma Keeps.refl (ids : List ℕ) (s : State D) : Keeps ids s s := ⟨le_rfl, rfl, fun _ _ _ => rfl⟩

lemma Keeps.trans {ids ids' : List ℕ} {s s' s'' : State D} (h : Keeps ids s s')
    (h' : Keeps ids' s' s'') : Keeps (ids ++ ids') s s'' where
  next := h.next.trans h'.next
  cached := h'.cached.trans h.cached
  data := fun j hj hmem => by
    rw [List.mem_append, not_or] at hmem
    rw [h'.data j (hj.trans_le h.next) hmem.2, h.data j hj hmem.1]

/-- Created for the type and not written yet. -/
def State.Created (s : State D) (types : List Word) (id : ℕ) : Prop :=
  s.data id = some ⟨typeCreateSlice types, initial (typeCreateSlice types), 1⟩ ∧
    s.cached id = none

lemma State.lt_next {s : State D} {id : ℕ} (h : s.data id ≠ none) : id < s.next := by
  by_contra hle
  exact h (s.data_fresh id (Nat.le_of_not_lt hle))

lemma store_created {s : State D} {types : List Word} {id : ℕ} (h : s.Created types id)
    {content content' : Content D} (hadd : (initial (typeCreateSlice types)).add content =
      .ok content') :
    ∃ s', store id (typeCreateSlice types) content 1 s = (.ok (), s') ∧ Keeps [id] s s' ∧
      s'.data id = some ⟨typeCreateSlice types, content', 0⟩ := by
  have hlt : id < s.next := State.lt_next (by simp [h.1])
  refine ⟨s.put id ⟨typeCreateSlice types, content', 0⟩ hlt, ?_, ⟨le_rfl, rfl, ?_⟩, ?_⟩
  · simp [store, hlt, h.1, hadd]
  · intro j hj hne
    exact Function.update_of_ne (by simpa using hne) _ _
  · exact Function.update_self _ _ _

lemma multicreate_ok (types : List Word) (n : ℕ) (s : State D) :
    ∃ s', multicreate (List.replicate n types) s = (.ok (List.range' s.next n), s') ∧
      s'.next = s.next + n ∧ Keeps [] s s' ∧
      ∀ j ∈ List.range' s.next n, s'.data j = some ⟨types, initial types, 1⟩ := by
  induction n generalizing s with
  | zero => exact ⟨s, rfl, rfl, .refl _ s, by simp⟩
  | succ n ih =>
    have hcreate : create types s = (.ok s.next, s.create ⟨types, initial types, 1⟩) := rfl
    have hkeeps : Keeps [] s (s.create ⟨types, initial types, 1⟩) :=
      ⟨Nat.le_succ _, rfl, fun j hj _ => Function.update_of_ne (by omega) _ _⟩
    obtain ⟨s', hids, hnext, hrest, hdata⟩ := ih (s.create ⟨types, initial types, 1⟩)
    have hids : (List.replicate n types).mapM create (s.create ⟨types, initial types, 1⟩) =
        (.ok (List.range' (s.next + 1) n), s') := hids
    have hnext : s'.next = s.next + 1 + n := hnext
    refine ⟨s', ?_, by omega, hkeeps.trans hrest, ?_⟩
    · rw [multicreate, List.replicate_succ, List.mapM_cons, bind_of_ok hcreate, bind_of_ok hids]
      rfl
    · rw [List.range'_succ]
      refine List.forall_mem_cons.mpr ⟨?_, hdata⟩
      rw [hrest.data s.next (Nat.lt_succ_self _) (by simp)]
      exact Function.update_self _ _ _

/-- What building a value of the type does: it fills the datum and creates what it refers to. -/
def Builds (ty : Ty) (build : ℕ → Value D → Proc D Unit) : Prop :=
  ∀ (s : State D) (id : ℕ) (v : Value D), s.Created ty.words id → ty.Has v →
    ∃ s', build id v s = (.ok (), s') ∧ Keeps [id] s s' ∧ ty.At s' s.next id v

/-- The loop over the members: each is built next to those that are there already. -/
lemma forM_builds {ty : Ty} {build : ℕ → Value D → Proc D Unit} (hbuild : Builds ty build) {lo : ℕ}
    {ids : List ℕ} {vals : List (Value D)} (hlength : ids.length = vals.length)
    (hnodup : ids.Nodup) (hvals : ∀ v ∈ vals, ty.Has v) {s : State D} (hlo : lo ≤ s.next)
    (hids : ∀ id ∈ ids, id < lo ∧ s.Created ty.words id) :
    ∃ s', ((ids.zip vals).forM fun (id, v) => build id v : Proc D Unit) s = (.ok (), s') ∧
      Keeps ids s s' ∧
      List.Forall₂ (ty.At s' lo) ids vals := by
  induction ids generalizing vals s with
  | nil =>
    have hnil : vals = [] := List.length_eq_zero_iff.mp hlength.symm
    subst hnil
    exact ⟨s, rfl, .refl _ s, .nil⟩
  | cons id ids ih =>
    cases vals with
    | nil => simp at hlength
    | cons v vals =>
      obtain ⟨hnotMem, hnodup⟩ := List.nodup_cons.mp hnodup
      obtain ⟨hv, hvals⟩ := List.forall_mem_cons.mp hvals
      obtain ⟨⟨hid, hcreated⟩, hids⟩ := List.forall_mem_cons.mp hids
      obtain ⟨s₁, hrun, hkeeps, hat⟩ := hbuild s id v hcreated hv
      have hids₁ : ∀ j ∈ ids, j < lo ∧ s₁.Created ty.words j := by
        intro j hj
        obtain ⟨hjlo, hjdata, hjcached⟩ := hids j hj
        refine ⟨hjlo, ?_, by rw [hkeeps.cached, hjcached]⟩
        rw [hkeeps.data j (hjlo.trans_le hlo) ?_, hjdata]
        rw [List.mem_singleton]
        rintro rfl
        exact hnotMem hj
      obtain ⟨s₂, hrest, hkeeps₂, hall⟩ := ih (by simpa using hlength) hnodup hvals
        (hlo.trans hkeeps.next) hids₁
      refine ⟨s₂, ?_, hkeeps.trans hkeeps₂, .cons ?_ hall⟩
      · exact (bind_of_ok hrun).trans hrest
      · refine (hat.le hlo).frame hkeeps₂.cached (fun j hj hset => ?_) ?_
        · exact hkeeps₂.data j (State.lt_next hset) fun hmem => by
            have hlt := (hids j hmem).1
            omega
        · exact hkeeps₂.data id ((hid.trans_le hlo).trans_le hkeeps.next) hnotMem

lemma buildMembers_ok {ty : Ty} {build : ℕ → Value D → Proc D Unit} (hbuild : Builds ty build)
    {vals : List (Value D)} (hvals : ∀ v ∈ vals, ty.Has v) (s : State D) :
    ∃ ids s', buildMembers build (typeCreateSlice ty.words) vals s = (.ok ids, s') ∧
      Keeps [] s s' ∧ List.Forall₂ (fun id v => s.next ≤ id ∧ ty.At s' s.next id v) ids vals := by
  obtain ⟨s₁, hids, hnext, hkeeps, hdata⟩ := multicreate_ok (typeCreateSlice ty.words) vals.length s
  have hcreated : ∀ id ∈ List.range' s.next vals.length,
      id < s₁.next ∧ s₁.Created ty.words id := by
    intro id hid
    obtain ⟨hle, hlt⟩ := List.mem_range'_1.mp hid
    exact ⟨by omega, hdata id hid, by rw [hkeeps.cached, s.cached_fresh id hle]⟩
  obtain ⟨s₂, hrun, hkeeps₂, hall⟩ := forM_builds hbuild (by simp) List.nodup_range' hvals le_rfl
    hcreated
  refine ⟨_, s₂, by rw [buildMembers, bind_of_ok hids, bind_of_ok hrun]; rfl, ?_, ?_⟩
  · refine ⟨hkeeps.next.trans hkeeps₂.next, hkeeps₂.cached.trans hkeeps.cached, fun j hj _ => ?_⟩
    have hnot : j ∉ List.range' s.next vals.length := fun hmem => by
      have hle := (List.mem_range'_1.mp hmem).1
      omega
    rw [hkeeps₂.data j (hj.trans_le hkeeps.next) hnot, hkeeps.data j hj (by simp)]
  · refine List.forall₂_iff_get.mpr ⟨hall.length_eq, fun i hi hi' => ⟨?_, ?_⟩⟩
    · simp
    · exact ((List.forall₂_iff_get.mp hall).2 i hi hi').le (by omega)

lemma mapM_toItem {t : ScalarType} {vals : List (Value D)}
    (h : ∀ v ∈ vals, ∃ x, v = .scalar x ∧ x.type = t) :
    ∃ items, vals.mapM (toItem (.scalar t)) = .ok items ∧
      List.Forall₂ (fun item v => ∃ x, item = .scalar x ∧ v = .scalar x) items vals := by
  induction vals with
  | nil => exact ⟨[], rfl, .nil⟩
  | cons v vals ih =>
    obtain ⟨⟨x, rfl, hx⟩, hvals⟩ := List.forall_mem_cons.mp h
    obtain ⟨items, hitems, hall⟩ := ih hvals
    have hitem : toItem (.scalar t) (.scalar x) = .ok (.scalar x) := by simp [toItem, hx]
    exact ⟨.scalar x :: items, by rw [List.mapM_cons, hitem, hitems]; rfl, .cons ⟨x, rfl, rfl⟩ hall⟩

lemma memberItems_inline {build : ℕ → Value D → Proc D Unit} {createTypes : List Word}
    {t : ScalarType} {vals : List (Value D)} (h : ∀ v ∈ vals, ∃ x, v = .scalar x ∧ x.type = t)
    (s : State D) :
    ∃ items s', memberItems build (.scalar t) createTypes vals s = (.ok items, s') ∧
      Keeps [] s s' ∧
      List.Forall₂ (fun item v => ∃ x, item = .scalar x ∧ v = .scalar x) items vals := by
  obtain ⟨items, hitems, hall⟩ := mapM_toItem h
  exact ⟨items, s, by simp [memberItems, hitems], .refl _ s, hall⟩

lemma memberItems_refs {ty : Ty} {build : ℕ → Value D → Proc D Unit} (hbuild : Builds ty build)
    {vals : List (Value D)} (hvals : ∀ v ∈ vals, ty.Has v) (s : State D) :
    ∃ items s', memberItems build .ref (typeCreateSlice ty.words) vals s = (.ok items, s') ∧
      Keeps [] s s' ∧
      List.Forall₂ (fun item v => ∃ j, item = .ref j ∧ s.next ≤ j ∧ ty.At s' s.next j v) items
        vals := by
  obtain ⟨ids, s', hrun, hkeeps, hall⟩ := buildMembers_ok hbuild hvals s
  refine ⟨ids.map .ref, s', ?_, hkeeps, ?_⟩
  · rw [memberItems, if_pos rfl, bind_of_ok hrun]
    rfl
  · rw [List.forall₂_map_left_iff]
    exact hall.imp fun id v h => ⟨id, rfl, h.1, h.2⟩

lemma Keeps.created {s s' : State D} (h : Keeps [] s s') {types : List Word} {id : ℕ}
    (hid : s.Created types id) : s'.Created types id := by
  refine ⟨?_, by rw [h.cached, hid.2]⟩
  rw [h.data id (State.lt_next (by simp [hid.1])) (by simp), hid.1]

/-- Members of a value, as they are built. -/
def Kind.members : Kind → Value D → List (Value D)
  | .container _, .dict entries => entries.map Prod.snd
  | .multiset, .list elems => elems
  | _, _ => []

lemma Kind.Has.members {P : Value D → Prop} {kind : Kind} {v : Value D} (h : kind.Has P v) :
    ∀ w ∈ kind.members v, P w := by
  cases kind with
  | container keyType =>
    obtain ⟨entries, rfl, -, hP⟩ := h
    intro w hw
    obtain ⟨e, he, rfl⟩ := List.mem_map.mp hw
    exact hP e he
  | multiset =>
    obtain ⟨elems, rfl, hP⟩ := h
    exact hP

/-- A collection is written once its items are there. -/
lemma buildRec_collection {R : Item D → Value D → Prop} {P : Value D → Prop} {kind : Kind}
    {valType : Word} {types : List Word} {s s₁ : State D} {id : ℕ} {items : List (Item D)}
    {v : Value D} (hid : s₁.Created (kind.words ++ valType :: types) id) (hv : kind.Has P v)
    (hrun : memberItems (fun valId val => buildRec types valId val 1) valType
      (typeCreateSlice types) (kind.members v) s = (.ok items, s₁))
    (hitems : List.Forall₂ R items (kind.members v)) :
    ∃ s', buildRec (kind.words ++ valType :: types) id v 1 s = (.ok (), s') ∧ Keeps [id] s₁ s' ∧
      ∃ datum, s'.data id = some datum ∧ kind.Holds R datum.content v := by
  cases kind with
  | container keyType =>
    obtain ⟨entries, rfl, hnodup, -⟩ := hv
    have hadd : (initial (typeCreateSlice (.container :: .scalar keyType :: valType :: types))).add
        (.container ((entries.map Prod.fst).zip items)) =
          .ok (.container ((entries.map Prod.fst).zip items)) := by
      simp [initial, typeCreateSlice, Content.add]
    obtain ⟨s', hstore, hkeeps, hdata⟩ := store_created hid hadd
    refine ⟨s', ?_, hkeeps, _, hdata, _, entries, rfl, rfl, ?_⟩
    · have hentries : (ofExcept (dictEntries (.dict entries)) : Proc D _) s = (.ok entries, s) := rfl
      change buildRec (.container :: .scalar keyType :: valType :: types) id (.dict entries) 1 s = _
      rw [buildRec, bind_of_ok hentries]
      exact (bind_of_ok hrun).trans hstore
    · have hlength : items.length = entries.length := by
        simpa [Kind.members] using hitems.length_eq
      refine List.forall₂_iff_get.mpr ⟨by simp [hlength], fun i hi hi' => ⟨by simp, ?_⟩⟩
      have hget := (List.forall₂_iff_get.mp hitems).2 i (by omega) (by simpa [Kind.members])
      simpa [Kind.members] using hget
  | multiset =>
    obtain ⟨elems, rfl, -⟩ := hv
    have hadd : (initial (typeCreateSlice (.multiset :: valType :: types))).add
        (.multiset items) = .ok (.multiset items) := by
      simp [initial, typeCreateSlice, Content.add]
    obtain ⟨s', hstore, hkeeps, hdata⟩ := store_created hid hadd
    refine ⟨s', ?_, hkeeps, _, hdata, items, elems, rfl, rfl, hitems⟩
    have helems : (ofExcept (listElems (.list elems)) : Proc D _) s = (.ok elems, s) := rfl
    change buildRec (.multiset :: valType :: types) id (.list elems) 1 s = _
    rw [buildRec, bind_of_ok helems]
    exact (bind_of_ok hrun).trans hstore

/-- `build_rec` writes the value: the datum represents it, with data of its own. -/
theorem builds (ty : Ty) : Builds ty fun id (v : Value D) => buildRec ty.words id v 1 := by
  induction ty with
  | scalar t =>
    rintro s id v hid ⟨x, rfl, hx⟩
    have hadd : (initial (typeCreateSlice [.scalar t])).add (.scalar x) = .ok (.scalar x) := rfl
    obtain ⟨s', hstore, hkeeps, hdata⟩ := store_created hid hadd
    refine ⟨s', ?_, hkeeps, x, 0, hx, hdata, by rw [hkeeps.cached, hid.2], rfl⟩
    have hitem : (ofExcept (toItem (.scalar t) (.scalar x)) : Proc D _) s =
        (.ok (.scalar x), s) := by simp [toItem, hx]
    change buildRec [.scalar t] id (.scalar x) 1 s = _
    rw [buildRec, bind_of_ok hitem]
    exact hstore
  | inline kind t =>
    intro s id v hid hv
    obtain ⟨items, s₁, hrun, hkeeps, hitems⟩ := memberItems_inline hv.members s
    obtain ⟨s', hbuild, hkeeps', hholds⟩ :=
      buildRec_collection (hkeeps.created hid) hv hrun hitems
    exact ⟨s', hbuild, hkeeps.trans hkeeps', hholds⟩
  | refs kind member ih =>
    intro s id v hid hv
    obtain ⟨items, s₁, hrun, hkeeps, hitems⟩ := memberItems_refs ih hv.members s
    obtain ⟨s', hbuild, hkeeps', datum, hdatum, hholds⟩ :=
      buildRec_collection (hkeeps.created hid) hv hrun hitems
    refine ⟨s', hbuild, hkeeps.trans hkeeps', datum, hdatum, hholds.mono ?_⟩
    rintro _ w ⟨j, rfl, hlo, hj⟩
    have hid : id < s.next := State.lt_next (by simp [hid.1])
    have hframe : ∀ k, s.next ≤ k → s₁.data k ≠ none → s'.data k = s₁.data k := fun k hk hset =>
      hkeeps'.data k (State.lt_next hset) (by rw [List.mem_singleton]; omega)
    exact ⟨j, rfl, hlo, hj.frame hkeeps'.cached hframe (hframe j hlo hj.data_ne_none)⟩

end Turbine.Nested
