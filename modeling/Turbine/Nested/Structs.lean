import Turbine.Nested.Enumerate

/-! Structs with references to nested data: `build_struct_val_rec` stores what the references point
to, and `enumerate_rec_struct_val` follows them. -/

namespace Turbine.Nested

open Library Library.Cmd

variable {D : Type}

/-- A dict of field types: of what is stored unmodified, of references, and of structs that have
types for their fields. -/
inductive FieldTypes
  | nil
  | plain (key : String) (rest : FieldTypes)
  | ref (key : String) (types : List Word) (rest : FieldTypes)
  | struct (key : String) (fields rest : FieldTypes)

/-- A dict of fields, as it is stored or as it is read. -/
inductive StructVal (D : Type)
  | nil
  | plain (key : String) (v : Value D) (rest : StructVal D)
  | ref (key : String) (id : ℕ) (rest : StructVal D)
  | struct (key : String) (fields rest : StructVal D)

inductive Field (D : Type)
  | plain (v : Value D)
  | ref (id : ℕ)
  | struct (fields : StructVal D)

def StructVal.get (key : String) : StructVal D → Option (Field D)
  | nil => none
  | plain key' v rest => if key' = key then some (.plain v) else rest.get key
  | ref key' id rest => if key' = key then some (.ref id) else rest.get key
  | struct key' fields rest => if key' = key then some (.struct fields) else rest.get key

def StructVal.append (key : String) : Field D → StructVal D → StructVal D
  | .plain v => .plain key v
  | .ref id => .ref key id
  | .struct fields => .struct key fields

def fieldOf (key : String) : Value D → Except Err (Value D)
  | .dict entries =>
    match entries.find? fun e => e.1 = key with
    | some e => .ok e.2
    | none => .error .badValue
  | _ => .error .badValue

/-- `build_struct_val_rec` -/
def buildStructValRec : FieldTypes → Value D → Proc D (StructVal D)
  | .nil, _ => return .nil
  | .plain key rest, val => do
    let fieldVal ← ofExcept (fieldOf key val)
    let storeVal ← buildStructValRec rest val
    return .plain key fieldVal storeVal
  | .ref key types rest, val => do
    let fieldVal ← ofExcept (fieldOf key val)
    let valId ← create (typeCreateSlice types)
    buildRec types valId fieldVal 1
    let storeVal ← buildStructValRec rest val
    return .ref key valId storeVal
  | .struct key fields rest, val => do
    let fieldVal ← ofExcept (fieldOf key val)
    let storeFieldVal ← buildStructValRec fields fieldVal
    let storeVal ← buildStructValRec rest val
    return .struct key storeFieldVal storeVal

def getField (structVal : StructVal D) (key : String) : Proc D (Field D) :=
  match structVal.get key with
  | some field => return field
  | none => throw .badValue

def fieldRef (read : ℕ → Proc D (Value D)) : Field D → Proc D (Value D)
  | .ref id => read id
  | _ => throw .badValue

def fieldStruct (read : StructVal D → Proc D (StructVal D)) : Field D → Proc D (StructVal D)
  | .struct fields => read fields
  | _ => throw .badValue

/-- `enumerate_rec_struct_val` -/
def enumerateRecStructVal (listing : Listing D) :
    FieldTypes → StructVal D → Proc D (StructVal D)
  | .nil, _ => return .nil
  | .plain key rest, structVal => do
    let val ← getField structVal key
    let resultDict ← enumerateRecStructVal listing rest structVal
    return .append key val resultDict
  | .ref key types rest, structVal => do
    let val ← getField structVal key
    let resultVal ← fieldRef (enumerateRec listing types) val
    let resultDict ← enumerateRecStructVal listing rest structVal
    return .plain key resultVal resultDict
  | .struct key fields rest, structVal => do
    let val ← getField structVal key
    let resultVal ← fieldStruct (enumerateRecStructVal listing fields) val
    let resultDict ← enumerateRecStructVal listing rest structVal
    return .struct key resultVal resultDict

/-! ### Types -/

inductive Fields
  | nil
  | plain (key : String) (rest : Fields)
  | ref (key : String) (ty : Ty) (rest : Fields)
  | struct (key : String) (fields rest : Fields)

namespace Fields

def keys : Fields → List String
  | nil => []
  | plain key rest | ref key _ rest | struct key _ rest => key :: rest.keys

/-- The keys of a dict differ. -/
def Distinct : Fields → Prop
  | nil => True
  | plain key rest | ref key _ rest => key ∉ rest.keys ∧ rest.Distinct
  | struct key fields rest => key ∉ rest.keys ∧ fields.Distinct ∧ rest.Distinct

def words : Fields → FieldTypes
  | nil => .nil
  | plain key rest => .plain key rest.words
  | ref key ty rest => .ref key ty.words rest.words
  | struct key fields rest => .struct key fields.words rest.words

/-- The types that the reader is given. -/
def readWords : Fields → FieldTypes
  | nil => .nil
  | plain key rest => .plain key rest.readWords
  | ref key ty rest => .ref key ty.readWords rest.readWords
  | struct key fields rest => .struct key fields.readWords rest.readWords

def Has : Fields → Value D → Prop
  | nil, _ => True
  | plain key rest, v => (∃ w, fieldOf key v = .ok w) ∧ rest.Has v
  | ref key ty rest, v => (∃ w, fieldOf key v = .ok w ∧ ty.Has w) ∧ rest.Has v
  | struct key fields rest, v => (∃ w, fieldOf key v = .ok w ∧ fields.Has w) ∧ rest.Has v

/-- The struct has the fields of the value, those with references in the store. -/
def At (s : State D) : Fields → Value D → StructVal D → Prop
  | nil, _, _ => True
  | plain key rest, v, st =>
    (∃ w, fieldOf key v = .ok w ∧ st.get key = some (.plain w)) ∧ rest.At s v st
  | ref key ty rest, v, st =>
    (∃ w lo id, fieldOf key v = .ok w ∧ st.get key = some (.ref id) ∧ ty.At s lo id w) ∧
      rest.At s v st
  | struct key fields rest, v, st =>
    (∃ w inner, fieldOf key v = .ok w ∧ st.get key = some (.struct inner) ∧
      fields.At s w inner) ∧ rest.At s v st

/-- The fields that were read, in the order of their types. -/
def Same : Fields → Value D → StructVal D → Prop
  | nil, _, st => st = .nil
  | plain key rest, v, st => ∃ w st', fieldOf key v = .ok w ∧ st = .plain key w st' ∧ rest.Same v st'
  | ref key ty rest, v, st => ∃ w w' st', fieldOf key v = .ok w ∧ ty.Same w w' ∧
      st = .plain key w' st' ∧ rest.Same v st'
  | struct key fields rest, v, st => ∃ w inner st', fieldOf key v = .ok w ∧ fields.Same w inner ∧
      st = .struct key inner st' ∧ rest.Same v st'

/-- References lead to collections, and no multiset in them is empty that cannot be read. -/
def Full : Fields → Value D → Prop
  | nil, _ => True
  | plain _ rest, v => rest.Full v
  | ref key ty rest, v =>
    (∀ w, fieldOf key v = .ok w → ty.isCollection = true ∧ ty.Full w) ∧ rest.Full v
  | struct key fields rest, v => (∀ w, fieldOf key v = .ok w → fields.Full w) ∧ rest.Full v

end Fields

/-! ### Building -/

lemma Keeps.lookup {s s' : State D} (h : Keeps [] s s') {j : ℕ} (hj : s.data j ≠ none) :
    s'.data j = s.data j := h.data j (State.lt_next hj) List.not_mem_nil

lemma Ty.At.keeps {s s' : State D} (h : Keeps [] s s') {ty : Ty} {lo id : ℕ} {w : Value D}
    (hat : ty.At s lo id w) : ty.At s' lo id w :=
  hat.frame h.cached (fun _ _ hj => h.lookup hj) (h.lookup hat.data_ne_none)

lemma Fields.At.keeps {s s' : State D} (h : Keeps [] s s') {fields : Fields} {v : Value D}
    {st : StructVal D} (hat : fields.At s v st) : fields.At s' v st := by
  induction fields generalizing v st with
  | nil => trivial
  | plain key rest ih => exact ⟨hat.1, ih hat.2⟩
  | ref key ty rest ih =>
    obtain ⟨⟨w, lo, id, hw, hid, hty⟩, hrest⟩ := hat
    exact ⟨⟨w, lo, id, hw, hid, hty.keeps h⟩, ih hrest⟩
  | struct key fields rest ihFields ih =>
    obtain ⟨⟨w, inner, hw, hinner, hfields⟩, hrest⟩ := hat
    exact ⟨⟨w, inner, hw, hinner, ihFields hfields⟩, ih hrest⟩

/-- A field in front of the others does not hide them. -/
lemma Fields.At.of_get {s : State D} {fields : Fields} {v : Value D} {st st' : StructVal D}
    (hat : fields.At s v st) (hget : ∀ key ∈ fields.keys, st'.get key = st.get key) :
    fields.At s v st' := by
  induction fields with
  | nil => trivial
  | plain key rest ih =>
    obtain ⟨⟨w, hw, hfield⟩, hrest⟩ := hat
    obtain ⟨hkey, hkeys⟩ := List.forall_mem_cons.mp hget
    exact ⟨⟨w, hw, hkey.trans hfield⟩, ih hrest hkeys⟩
  | ref key ty rest ih =>
    obtain ⟨⟨w, lo, id, hw, hfield, hty⟩, hrest⟩ := hat
    obtain ⟨hkey, hkeys⟩ := List.forall_mem_cons.mp hget
    exact ⟨⟨w, lo, id, hw, hkey.trans hfield, hty⟩, ih hrest hkeys⟩
  | struct key fields rest _ ih =>
    obtain ⟨⟨w, inner, hw, hfield, hfields⟩, hrest⟩ := hat
    obtain ⟨hkey, hkeys⟩ := List.forall_mem_cons.mp hget
    exact ⟨⟨w, inner, hw, hkey.trans hfield, hfields⟩, ih hrest hkeys⟩

lemma ne_of_notMem {key : String} {keys : List String} (h : key ∉ keys) :
    ∀ key' ∈ keys, key ≠ key' := by
  rintro key' hkey' rfl
  exact h hkey'

/-- The datum of a reference is created and filled. -/
lemma createRef_ok {ty : Ty} {w : Value D} (h : ty.Has w) (s : State D) :
    ∃ s₁ s', create (typeCreateSlice ty.words) s = (.ok s.next, s₁) ∧
      buildRec ty.words s.next w 1 s₁ = (.ok (), s') ∧ Keeps [] s s' ∧
      ty.At s' s₁.next s.next w := by
  obtain ⟨s', hbuild, hkeeps, hat⟩ := builds ty _ s.next w (created_create ty.words s) h
  refine ⟨_, s', rfl, hbuild, ⟨(Nat.le_succ _).trans hkeeps.next, hkeeps.cached, ?_⟩, hat⟩
  intro j hj _
  have hne : j ≠ s.next := hj.ne
  rw [hkeeps.data j (Nat.lt_succ_of_lt hj) (by rwa [List.mem_singleton])]
  exact Function.update_of_ne hne _ _

lemma buildStructValRec_ok {fields : Fields} (hkeys : fields.Distinct) {v : Value D}
    (hv : fields.Has v) (s : State D) :
    ∃ st s', buildStructValRec fields.words v s = (.ok st, s') ∧ Keeps [] s s' ∧
      fields.At s' v st := by
  induction fields generalizing v s with
  | nil => exact ⟨.nil, s, rfl, .refl _ s, trivial⟩
  | plain key rest ih =>
    obtain ⟨hkey, hrest⟩ := hkeys
    obtain ⟨⟨w, hw⟩, hvrest⟩ := hv
    obtain ⟨st, s', hrun, hkeeps, hat⟩ := ih hrest hvrest s
    refine ⟨.plain key w st, s', ?_, hkeeps, ⟨w, hw, if_pos rfl⟩, hat.of_get fun key' hkey' => ?_⟩
    · rw [Fields.words, buildStructValRec, hw, bind_of_ok (ofExcept_apply _ s), bind_of_ok hrun, pure_apply]
    · exact if_neg (ne_of_notMem hkey key' hkey')
  | ref key ty rest ih =>
    obtain ⟨hkey, hrest⟩ := hkeys
    obtain ⟨⟨w, hw, hty⟩, hvrest⟩ := hv
    obtain ⟨s₁, s₂, hcreate, hbuild, hkeeps, hat⟩ := createRef_ok hty s
    obtain ⟨st, s', hrun, hkeeps', hatRest⟩ := ih hrest hvrest s₂
    refine ⟨.ref key s.next st, s', ?_, hkeeps.trans hkeeps',
      ⟨w, _, s.next, hw, if_pos rfl, hat.keeps hkeeps'⟩, hatRest.of_get fun key' hkey' => ?_⟩
    · rw [Fields.words, buildStructValRec, hw, bind_of_ok (ofExcept_apply _ s), bind_of_ok hcreate,
        bind_of_ok hbuild, bind_of_ok hrun, pure_apply]
    · exact if_neg (ne_of_notMem hkey key' hkey')
  | struct key fields rest ihFields ih =>
    obtain ⟨hkey, hfields, hrest⟩ := hkeys
    obtain ⟨⟨w, hw, hvfields⟩, hvrest⟩ := hv
    obtain ⟨inner, s₁, hinner, hkeeps, hat⟩ := ihFields hfields hvfields s
    obtain ⟨st, s', hrun, hkeeps', hatRest⟩ := ih hrest hvrest s₁
    refine ⟨.struct key inner st, s', ?_, hkeeps.trans hkeeps',
      ⟨w, inner, hw, if_pos rfl, hat.keeps hkeeps'⟩, hatRest.of_get fun key' hkey' => ?_⟩
    · rw [Fields.words, buildStructValRec, hw, bind_of_ok (ofExcept_apply _ s), bind_of_ok hinner,
        bind_of_ok hrun, pure_apply]
    · exact if_neg (ne_of_notMem hkey key' hkey')

/-! ### Reading -/

section Reading

variable {s : State D} {α β : Type}

/-- The second command is reached if the first one reads what it is to. -/
lemma Reads.bind {c : Proc D α} {k : α → Proc D β} {full full' : Prop} {same : α → Prop}
    {same' : α → β → Prop} (hc : Reads c s full same)
    (hk : ∀ a, Reads (k a) s full' (same' a)) :
    Reads (c >>= k) s (full ∧ full') fun b => ∃ a, same a ∧ same' a b := by
  obtain ⟨r, hr, hmatch⟩ := hc
  cases r with
  | error e => exact ⟨.error e, bind_of_error hr, fun hfull => hmatch hfull.1⟩
  | ok a =>
    obtain ⟨r', hr', hmatch'⟩ := hk a
    refine ⟨r', (bind_of_ok hr).trans hr', ?_⟩
    cases r' with
    | error e => exact fun hfull => hmatch' hfull.2
    | ok b => exact ⟨⟨hmatch.1, hmatch'.1⟩, a, hmatch.2, hmatch'.2⟩

/-- A reference to a scalar is not followed. -/
lemma enumerateRec_at (listing : Listing D) {ty : Ty} {lo id : ℕ} {w : Value D}
    (h : ty.At s lo id w) : Reads (enumerateRec listing ty.readWords id) s
      (ty.isCollection = true ∧ ty.Full w) (ty.Same w) := by
  by_cases hty : ty.isCollection = true
  · exact (enumerateRec_reads listing hty h).mono (by simp [hty]) fun _ h => h
  · cases ty with
    | scalar t => exact ⟨.error .expectedCompound, rfl, fun hfull => hty hfull.1⟩
    | inline kind t => exact absurd rfl hty
    | refs kind member => exact absurd rfl hty

lemma getField_eq {st : StructVal D} {key : String} {field : Field D}
    (h : st.get key = some field) : getField st key s = (.ok field, s) := by
  rw [getField, h]
  rfl

lemma enumerateRecStructVal_reads (listing : Listing D) {fields : Fields} {v : Value D}
    {st : StructVal D} (h : fields.At s v st) :
    Reads (enumerateRecStructVal listing fields.readWords st) s (fields.Full v)
      (fields.Same v) := by
  induction fields generalizing v st with
  | nil => exact ⟨.ok .nil, rfl, trivial, rfl⟩
  | plain key rest ih =>
    obtain ⟨⟨w, hw, hfield⟩, hrest⟩ := h
    have hread : Reads (StructVal.plain key w <$> enumerateRecStructVal listing rest.readWords st) s
        (rest.Full v) ((Fields.plain key rest).Same v) :=
      (ih hrest).map fun st' hst' => ⟨w, st', hw, rfl, hst'⟩
    rw [Reads, Fields.readWords, enumerateRecStructVal, bind_of_ok (getField_eq hfield)]
    exact hread
  | ref key ty rest ih =>
    obtain ⟨⟨w, lo, id, hw, hfield, hty⟩, hrest⟩ := h
    have hdict : ∀ w', Reads (StructVal.plain key w' <$>
        enumerateRecStructVal listing rest.readWords st) s (rest.Full v)
        fun st' => ∃ st'', st' = .plain key w' st'' ∧ rest.Same v st'' :=
      fun w' => (ih hrest).map fun st'' hst'' => ⟨st'', rfl, hst''⟩
    rw [Reads, Fields.readWords, enumerateRecStructVal, bind_of_ok (getField_eq hfield)]
    refine ((enumerateRec_at listing hty).bind hdict).mono (and_congr_left' ?_) ?_
    · exact ⟨fun hfull w' hw' => by cases hw.symm.trans hw'; exact hfull, fun hfull => hfull w hw⟩
    · rintro st' ⟨w', hsame, st'', rfl, hst''⟩
      exact ⟨w, w', st'', hw, hsame, rfl, hst''⟩
  | struct key fields rest ihFields ih =>
    obtain ⟨⟨w, inner, hw, hfield, hinner⟩, hrest⟩ := h
    have hdict : ∀ inner', Reads (StructVal.struct key inner' <$>
        enumerateRecStructVal listing rest.readWords st) s (rest.Full v)
        fun st' => ∃ st'', st' = .struct key inner' st'' ∧ rest.Same v st'' :=
      fun inner' => (ih hrest).map fun st'' hst'' => ⟨st'', rfl, hst''⟩
    rw [Reads, Fields.readWords, enumerateRecStructVal, bind_of_ok (getField_eq hfield)]
    refine ((ihFields hinner).bind hdict).mono (and_congr_left' ?_) ?_
    · exact ⟨fun hfull w' hw' => by cases hw.symm.trans hw'; exact hfull, fun hfull => hfull w hw⟩
    · rintro st' ⟨inner', hsame, st'', rfl, hst''⟩
      exact ⟨w, inner', st'', hw, hsame, rfl, hst''⟩

end Reading

/-! ### There and back -/

structure TypedStruct (D : Type) where
  fields : Fields
  distinct : fields.Distinct
  value : Value D
  has : fields.Has value

def buildAndReadStruct (listing : Listing D) (x : TypedStruct D) : Proc D (StructVal D) := do
  let storeVal ← buildStructValRec x.fields.words x.value
  enumerateRecStructVal listing x.fields.readWords storeVal

/-- A struct comes back with its fields exactly if its references lead to collections that can be
read. -/
theorem struct_comes_back_iff (listing : Listing D) (x : TypedStruct D) (s : State D) :
    Ends (buildAndReadStruct listing x) s (fun st _ => x.fields.Same x.value st) ↔
      x.fields.Full x.value := by
  obtain ⟨st, s', hbuild, -, hat⟩ := buildStructValRec_ok x.distinct x.has s
  obtain ⟨r, hr, hmatch⟩ := enumerateRecStructVal_reads listing hat
  have hrun : buildAndReadStruct listing x s = (r, s') := (bind_of_ok hbuild).trans hr
  constructor
  · rintro ⟨w, t, hends, -⟩
    rw [hrun] at hends
    cases hends
    exact hmatch.1
  · intro hfull
    cases r with
    | ok w => exact ⟨w, s', hrun, hmatch.2⟩
    | error e => exact absurd hfull hmatch

end Turbine.Nested
