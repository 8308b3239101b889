import Turbine.Nested.Build

/-! `enumerate_rec` reads a nested value back, and which values come back as they were built. -/

namespace Turbine.Nested

open Library Library.Cmd

variable {D : Type}

/-- The order in which ADLB lists what is in a container or a multiset. -/
structure Listing (D : Type) where
  dict : List (String × Item D) → List (String × Item D)
  members : List (Item D) → List (Item D)
  dict_perm : ∀ entries, (dict entries).Perm entries
  members_perm : ∀ items, (members items).Perm items

variable (listing : Listing D)

/-- `adlb::enumerate $id dict all 0 0` -/
def enumerateDict (id : ℕ) : Proc D (List (String × Item D)) := fun s =>
  match s.data id with
  | some ⟨_, .container entries, _⟩ => (.ok (listing.dict entries), s)
  | some _ => (.error .typeMismatch, s)
  | none => (.error .noDatum, s)

/-- `adlb::enumerate $id members all 0 0` -/
def enumerateMembers (id : ℕ) : Proc D (List (Item D)) := fun s =>
  match s.data id with
  | some ⟨_, .container entries, _⟩ => (.ok ((listing.dict entries).map Prod.snd), s)
  | some ⟨_, .multiset items, _⟩ => (.ok (listing.members items), s)
  | some _ => (.error .typeMismatch, s)
  | none => (.error .noDatum, s)

/-- `adlb::retrieve_decr $id 0 $type` -/
def retrieve (id : ℕ) (type : Word) : Proc D (Value D) := fun s =>
  match s.data id with
  | some ⟨_, .scalar v, _⟩ =>
    if type = .scalar v.type then (.ok (.scalar v), s) else (.error .typeMismatch, s)
  | some _ => (.error .notSet, s)
  | none => (.error .noDatum, s)

/-- One round of `multi_retrieve` and `multi_retrieve_kv`, with `CACHED`. -/
def retrieveCached (type : Word) (id : ℕ) : Proc D (Value D) := do
  let s ← Cmd.get
  match s.cached id with
  | some v => return .scalar v
  | none => retrieve id type

/-- The type of the members is the next word of the type list. -/
def retrieveMember (types : List Word) (id : ℕ) : Proc D (Value D) :=
  match types with
  | memberRefType :: _ => retrieveCached memberRefType id
  | [] => throw .badValue

def itemValue : Item D → Proc D (Value D)
  | .scalar v => return .scalar v
  | .ref _ => throw .badValue

def itemRef (read : ℕ → Proc D (Value D)) : Item D → Proc D (Value D)
  | .ref id => read id
  | .scalar _ => throw .badValue

/-- The entries of a container with their values. -/
def readDict (read : Item D → Proc D (Value D)) (id : ℕ) : Proc D (Value D) := do
  let vals ← enumerateDict listing id
  let entries ← vals.mapM fun e => Prod.mk e.1 <$> read e.2
  return .dict entries

def readMembers (read : Item D → Proc D (Value D)) (id : ℕ) : Proc D (List (Value D)) := do
  let vals ← enumerateMembers listing id
  vals.mapM read

/-- `enumerate_rec`; of the type list, what begins at `depth`. -/
def enumerateRec : List Word → ℕ → Proc D (Value D)
  | .container :: .ref :: types, id =>
    if types.length > 1 then readDict listing (itemRef (enumerateRec types)) id
    else readDict listing (itemRef (retrieveMember types)) id
  | .container :: _, id => readDict listing itemValue id
  | .multiset :: .ref :: types, id => do
    if types.length > 1 then
      let results ← readMembers listing (itemRef (enumerateRec types)) id
      -- the variable that is returned is set by the first round of the loop
      if results.isEmpty then throw (.noSuchVariable "result_dict")
      else return .list results
    else return .list (← readMembers listing (itemRef (retrieveMember types)) id)
  | .multiset :: _, id => return .list (← readMembers listing itemValue id)
  | _, _ => throw .expectedCompound

/-! ### Values that come back -/

/-- The type list of the reader: without key types. -/
def Kind.readWords : Kind → List Word
  | .container _ => [.container]
  | .multiset => [.multiset]

def Ty.readWords : Ty → List Word
  | .scalar t => [.scalar t]
  | .inline kind t => kind.readWords ++ [.scalar t]
  | .refs kind member => kind.readWords ++ .ref :: member.readWords

def Ty.isCollection : Ty → Bool
  | .scalar _ => false
  | .inline .. | .refs .. => true

/-- Maps with the same entries, multisets with the same members, up to `R`. -/
def Kind.Same (R : Value D → Value D → Prop) : Kind → Value D → Value D → Prop
  | .container _, v, w => ∃ entries entries' entries'', v = .dict entries ∧ w = .dict entries'' ∧
      List.Forall₂ (fun e e' => e.1 = e'.1 ∧ R e.2 e'.2) entries entries' ∧
      entries'.Perm entries''
  | .multiset, v, w => ∃ elems elems' elems'', v = .list elems ∧ w = .list elems'' ∧
      List.Forall₂ R elems elems' ∧ elems'.Perm elems''

def Ty.Same : Ty → Value D → Value D → Prop
  | .scalar _ => fun v w => v = w
  | .inline kind _ => kind.Same fun v w => v = w
  | .refs kind member => kind.Same member.Same

/-- No multiset of references to collections is empty. -/
def Ty.Full : Ty → Value D → Prop
  | .scalar _ | .inline .. => fun _ => True
  | .refs kind member => fun v =>
    (kind = .multiset → member.isCollection = true → v ≠ .list []) ∧
      ∀ w ∈ kind.members v, member.Full w

/-- A nested value with its type. -/
structure Typed (D : Type) where
  ty : Ty
  collection : ty.isCollection = true
  value : Value D
  has : ty.Has value

/-- Into a fresh datum and back. -/
def buildAndRead (x : Typed D) : Proc D (Value D) := do
  let id ← create (typeCreateSlice x.ty.words)
  buildRec x.ty.words id x.value 1
  enumerateRec listing x.ty.readWords id

def RoundTrips (x : Typed D) (s : State D) : Prop :=
  Ends (buildAndRead listing x) s fun v _ => x.ty.Same x.value v

/-! ### Reading -/

/-- Reading changes nothing. It ends in a result with `same` if `full`, else with an error. -/
def Reads {α : Type} (c : Proc D α) (s : State D) (full : Prop) (same : α → Prop) : Prop :=
  ∃ r, c s = (r, s) ∧ match r with
    | .ok w => full ∧ same w
    | .error _ => ¬full

variable {s : State D}

/-- Members are read in the order in which they are listed. -/
lemma mapM_reads_perm {α β γ : Type} {R : α → β → Prop} {full : β → Prop} {same : β → γ → Prop}
    {read : α → Proc D γ} {items items' : List α} {vals : List β}
    (hread : ∀ i v, R i v → Reads (read i) s (full v) (same v))
    (hitems : List.Forall₂ R items vals) (hperm : items'.Perm items) :
    Reads (items'.mapM read) s (∀ v ∈ vals, full v)
      fun ws => ∃ ws', List.Forall₂ same vals ws' ∧ ws'.Perm ws := by
  have hreads : ∀ i ∈ items', ∃ r, read i s = (r, s) := by
    intro i hi
    obtain ⟨v, -, hv⟩ := exists_of_forall₂ hitems.flip (hperm.subset hi)
    obtain ⟨r, hr, -⟩ := hread i v hv
    exact ⟨r, hr⟩
  rcases mapM_reads hreads with ⟨ws, hws, hall⟩ | ⟨i, hi, e, he, hmap⟩
  · obtain ⟨ws', hws', hperm'⟩ := List.perm_comp_forall₂ hperm.symm hall
    have hpairs : List.Forall₂ (fun v w => full v ∧ same v w) vals ws' := by
      refine (forall₂_of_common hitems.flip hws'.flip).imp ?_
      rintro v w ⟨i, hi, hw⟩
      obtain ⟨r, hr, hmatch⟩ := hread i v hi
      rw [show read i s = (.ok w, s) from hw] at hr
      cases hr
      exact hmatch
    refine ⟨_, hws, ?_, ws', hpairs.imp fun _ _ h => h.2, hperm'⟩
    intro v hv
    obtain ⟨w, -, hfull, -⟩ := exists_of_forall₂ hpairs.flip hv
    exact hfull
  · refine ⟨_, hmap, fun hfull => ?_⟩
    obtain ⟨v, hv, hiv⟩ := exists_of_forall₂ hitems.flip (hperm.subset hi)
    obtain ⟨r, hr, hmatch⟩ := hread i v hiv
    rw [he] at hr
    cases hr
    exact hmatch (hfull v hv)

variable {R : Item D → Value D → Prop} {full : Value D → Prop} {same : Value D → Value D → Prop}
  {read : Item D → Proc D (Value D)} {id : ℕ} {datum : Datum D} {v : Value D}

lemma readDict_reads {keyType : ScalarType} (hid : s.data id = some datum)
    (hholds : (Kind.container keyType).Holds R datum.content v)
    (hread : ∀ i w, R i w → Reads (read i) s (full w) (same w)) :
    Reads (readDict listing read id) s (∀ w ∈ (Kind.container keyType).members v, full w)
      ((Kind.container keyType).Same same v) := by
  obtain ⟨items, entries, hcontent, rfl, hitems⟩ := hholds
  have henumerate : enumerateDict listing id s = (.ok (listing.dict items), s) := by
    obtain ⟨types, content, writers⟩ := datum
    cases hcontent
    simp [enumerateDict, hid]
  have hentry : ∀ (i : String × Item D) (e : String × Value D), i.1 = e.1 ∧ R i.2 e.2 →
      Reads (Prod.mk i.1 <$> read i.2) s (full e.2) (fun e' => e.1 = e'.1 ∧ same e.2 e'.2) := by
    rintro i e ⟨hkey, hR⟩
    obtain ⟨r, hr, hmatch⟩ := hread i.2 e.2 hR
    cases r with
    | ok w => exact ⟨.ok (i.1, w), by rw [map_apply, hr]; rfl, hmatch.1, hkey.symm, hmatch.2⟩
    | error err => exact ⟨.error err, by rw [map_apply, hr]; rfl, hmatch⟩
  obtain ⟨r, hr, hmatch⟩ := mapM_reads_perm hentry hitems (listing.dict_perm items)
  cases r with
  | ok entries'' =>
    obtain ⟨hfull, entries', hsame, hperm⟩ := hmatch
    refine ⟨.ok (.dict entries''), ?_, ?_, entries, entries', entries'', rfl, rfl, hsame, hperm⟩
    · rw [readDict, bind_of_ok henumerate, bind_of_ok hr]
      rfl
    · intro w hw
      obtain ⟨e, he, rfl⟩ := List.mem_map.mp hw
      exact hfull e he
  | error err =>
    refine ⟨.error err, ?_, fun hfull => hmatch fun e he => ?_⟩
    · rw [readDict, bind_of_ok henumerate, bind_of_error hr]
    · exact hfull e.2 (List.mem_map_of_mem he)

lemma readMembers_reads (hid : s.data id = some datum)
    (hholds : Kind.multiset.Holds R datum.content v)
    (hread : ∀ i w, R i w → Reads (read i) s (full w) (same w)) :
    Reads (readMembers listing read id) s (∀ w ∈ Kind.multiset.members v, full w)
      fun ws => Kind.multiset.Same same v (.list ws) := by
  obtain ⟨items, elems, hcontent, rfl, hitems⟩ := hholds
  have henumerate : enumerateMembers listing id s = (.ok (listing.members items), s) := by
    obtain ⟨types, content, writers⟩ := datum
    cases hcontent
    simp [enumerateMembers, hid]
  obtain ⟨r, hr, hmatch⟩ := mapM_reads_perm hread hitems (listing.members_perm items)
  refine ⟨r, by rw [readMembers, bind_of_ok henumerate, hr], ?_⟩
  cases r with
  | ok ws =>
    obtain ⟨hfull, ws', hsame, hperm⟩ := hmatch
    exact ⟨hfull, elems, ws', ws, rfl, rfl, hsame, hperm⟩
  | error err => exact hmatch

lemma Reads.mono {α : Type} {c : Proc D α} {full full' : Prop} {same same' : α → Prop}
    (h : Reads c s full same) (hfull : full ↔ full') (hsame : ∀ a, same a → same' a) :
    Reads c s full' same' := by
  obtain ⟨r, hr, hmatch⟩ := h
  refine ⟨r, hr, ?_⟩
  cases r with
  | ok a => exact ⟨hfull.mp hmatch.1, hsame a hmatch.2⟩
  | error e => exact fun hf => hmatch (hfull.mpr hf)

lemma Reads.map {α β : Type} {c : Proc D α} {full : Prop} {same : α → Prop} {same' : β → Prop}
    {f : α → β} (h : Reads c s full same) (hsame : ∀ a, same a → same' (f a)) :
    Reads (f <$> c) s full same' := by
  obtain ⟨r, hr, hmatch⟩ := h
  rw [Reads, map_apply, hr]
  cases r with
  | ok a => exact ⟨_, rfl, hmatch.1, hsame a hmatch.2⟩
  | error e => exact ⟨_, rfl, hmatch⟩

lemma itemValue_reads {i : Item D} {w : Value D} (h : ∃ x, i = .scalar x ∧ w = .scalar x) :
    Reads (itemValue i) s True (fun w' => w = w') := by
  obtain ⟨x, rfl, rfl⟩ := h
  exact ⟨_, rfl, trivial, rfl⟩

lemma retrieveCached_reads {t : ScalarType} {lo id : ℕ} {w : Value D}
    (h : (Ty.scalar t).At s lo id w) :
    Reads (retrieveCached (.scalar t) id) s ((Ty.scalar t).Full w) ((Ty.scalar t).Same w) := by
  obtain ⟨x, writers, hx, hdata, hcached, rfl⟩ := h
  have hget : (Cmd.get : Proc D _) s = (.ok s, s) := rfl
  refine ⟨.ok (.scalar x), ?_, trivial, rfl⟩
  rw [retrieveCached, bind_of_ok hget, hcached]
  simp [retrieve, hdata, hx]

lemma one_lt_length_readWords {ty : Ty} (h : ty.isCollection = true) :
    1 < ty.readWords.length := by
  cases ty with
  | scalar t => cases h
  | inline kind t => cases kind <;> simp [Ty.readWords, Kind.readWords]
  | refs kind member => cases kind <;> simp [Ty.readWords, Kind.readWords]

/-- A referenced member, read by recursion or by its type. -/
lemma itemRef_reads {ty : Ty} {lo : ℕ} {read : ℕ → Proc D (Value D)}
    (hread : ∀ j w, ty.At s lo j w → Reads (read j) s (ty.Full w) (ty.Same w)) (i : Item D)
    (w : Value D) (h : ∃ j, i = .ref j ∧ lo ≤ j ∧ ty.At s lo j w) :
    Reads (itemRef read i) s (ty.Full w) (ty.Same w) := by
  obtain ⟨j, rfl, -, hj⟩ := h
  exact hread j w hj

lemma same_nil_iff {same : Value D → Value D → Prop} {v : Value D} {ws : List (Value D)}
    (h : Kind.multiset.Same same v (.list ws)) : v = .list [] ↔ ws = [] := by
  obtain ⟨elems, elems', elems'', rfl, hws, hsame, hperm⟩ := h
  cases hws
  have hlength := hsame.length_eq.trans hperm.length_eq
  simp only [Value.list.injEq]
  rw [← List.length_eq_zero_iff, hlength, List.length_eq_zero_iff]

/-- References to collections are read by recursion; an empty multiset of them is not read. -/
lemma enumerateRec_refs {member : Ty} {kind : Kind} {lo : ℕ}
    (hmember : member.isCollection = true)
    (ih : ∀ j w, member.At s lo j w →
      Reads (enumerateRec listing member.readWords j) s (member.Full w) (member.Same w))
    (hid : s.data id = some datum)
    (hholds : kind.Holds (fun item v => ∃ j, item = .ref j ∧ lo ≤ j ∧ member.At s lo j v)
      datum.content v) :
    Reads (enumerateRec listing (Ty.refs kind member).readWords id) s
      ((Ty.refs kind member).Full v) ((Ty.refs kind member).Same v) := by
  have hlength := one_lt_length_readWords hmember
  have hread := itemRef_reads ih
  cases kind with
  | container keyType =>
    change Reads (enumerateRec listing (.container :: .ref :: member.readWords) id) s _ _
    rw [enumerateRec, if_pos hlength]
    exact (readDict_reads listing hid hholds hread).mono (by simp [Ty.Full]) fun _ h => h
  | multiset =>
    change Reads (enumerateRec listing (.multiset :: .ref :: member.readWords) id) s _ _
    rw [enumerateRec, if_pos hlength]
    obtain ⟨r, hr, hmatch⟩ := readMembers_reads listing hid hholds hread
    cases r with
    | error e => exact ⟨_, bind_of_error hr, fun hfull => hmatch hfull.2⟩
    | ok ws =>
      obtain ⟨hfull, hsame⟩ := hmatch
      have hnil := same_nil_iff hsame
      cases ws with
      | nil => exact ⟨_, bind_of_ok hr, fun h => h.1 rfl hmember (hnil.mpr rfl)⟩
      | cons w ws =>
        refine ⟨_, bind_of_ok hr, ⟨fun _ _ h => ?_, hfull⟩, hsame⟩
        exact absurd (hnil.mp h) (List.cons_ne_nil w ws)

/-- `enumerate_rec` gives back what the datum represents, unless a multiset of references to
collections is empty in it. -/
theorem enumerateRec_reads {ty : Ty} (hty : ty.isCollection = true) {lo id : ℕ} {v : Value D}
    (h : ty.At s lo id v) :
    Reads (enumerateRec listing ty.readWords id) s (ty.Full v) (ty.Same v) := by
  induction ty generalizing id v with
  | scalar t => cases hty
  | inline kind t =>
    obtain ⟨datum, hdatum, hholds⟩ := h
    cases kind with
    | container keyType =>
      exact (readDict_reads listing hdatum hholds fun i w => itemValue_reads).mono
        (by simp [Ty.Full]) fun _ h => h
    | multiset =>
      change Reads (readMembers listing itemValue id >>= fun l => pure (Value.list l)) s _ _
      rw [← map_eq_pure_bind]
      exact ((readMembers_reads listing hdatum hholds fun i w => itemValue_reads).mono
        (by simp [Ty.Full]) fun _ h => h).map fun _ h => h
  | refs kind member ih =>
    obtain ⟨datum, hdatum, hholds⟩ := h
    cases member with
    | scalar t' =>
      have hread := @itemRef_reads _ s (.scalar t') lo (retrieveMember [.scalar t'])
        fun j w hj => retrieveCached_reads hj
      cases kind with
      | container keyType =>
        exact (readDict_reads listing hdatum hholds hread).mono (by simp [Ty.Full]) fun _ h => h
      | multiset =>
        change Reads (readMembers listing (itemRef (retrieveMember [.scalar t'])) id >>=
          fun l => pure (Value.list l)) s _ _
        rw [← map_eq_pure_bind]
        exact ((readMembers_reads listing hdatum hholds hread).mono
          (by simp [Ty.Full, Ty.isCollection]) fun _ h => h).map fun _ h => h
    | inline kind' t' => exact enumerateRec_refs listing rfl (fun j w hj => ih rfl hj) hdatum hholds
    | refs kind' member' =>
      exact enumerateRec_refs listing rfl (fun j w hj => ih rfl hj) hdatum hholds

/-! ### There and back -/

lemma created_create (types : List Word) (s : State D) :
    (s.create ⟨typeCreateSlice types, initial (typeCreateSlice types), 1⟩).Created types s.next :=
  ⟨Function.update_self _ _ _, s.cached_fresh s.next le_rfl⟩

/-- Building never fails, so the outcome is that of reading what was built. -/
lemma buildAndRead_eq (x : Typed D) (s : State D) :
    ∃ id s', buildAndRead listing x s = enumerateRec listing x.ty.readWords id s' ∧
      Reads (enumerateRec listing x.ty.readWords id) s' (x.ty.Full x.value)
        (x.ty.Same x.value) := by
  have hcreate : create (typeCreateSlice x.ty.words) s =
      (.ok s.next, s.create ⟨typeCreateSlice x.ty.words, initial (typeCreateSlice x.ty.words), 1⟩) :=
    rfl
  obtain ⟨s', hbuild, -, hat⟩ :=
    builds x.ty _ s.next x.value (created_create x.ty.words s) x.has
  refine ⟨s.next, s', ?_, enumerateRec_reads listing x.collection hat⟩
  rw [buildAndRead, bind_of_ok hcreate]
  exact bind_of_ok hbuild

/-- A value comes back as it was built exactly if no multiset of references to collections is
empty in it. -/
theorem roundTrips_iff (listing : Listing D) (x : Typed D) (s : State D) :
    RoundTrips listing x s ↔ x.ty.Full x.value := by
  obtain ⟨id, s', heq, r, hr, hmatch⟩ := buildAndRead_eq listing x s
  rw [hr] at heq
  constructor
  · rintro ⟨w, t, hrun, -⟩
    rw [heq] at hrun
    cases hrun
    exact hmatch.1
  · intro hfull
    cases r with
    | ok w => exact ⟨w, s', heq, hmatch.2⟩
    | error e => exact absurd hfull hmatch

def noData : State Unit where
  data := fun _ => none
  cached := fun _ => none
  next := 0
  data_fresh := fun _ _ => rfl
  cached_fresh := fun _ _ => rfl

def inOrder : Listing Unit where
  dict := fun entries => entries
  members := fun items => items
  dict_perm := fun _ => .rfl
  members_perm := fun _ => .rfl

/-- `multiset ref multiset integer` without members. -/
def noMultisets : Typed Unit where
  ty := .refs .multiset (.inline .multiset .integer)
  collection := rfl
  value := .list []
  has := ⟨[], rfl, fun _ h => by cases h⟩

theorem not_roundTrips_noMultisets : ¬RoundTrips inOrder noMultisets noData := by
  rintro ⟨w, t, hrun, -⟩
  obtain ⟨id, s', heq, r, hr, hmatch⟩ := buildAndRead_eq inOrder noMultisets noData
  rw [heq, hr] at hrun
  cases hrun
  exact hmatch.1.1 rfl rfl rfl

end Turbine.Nested
