import Turbine.Adlb.Library
import Turbine.Data.ParseInt
import Turbine.Library.MapM

/-! Loops over a container: the user's body is called with a future for every subscript. -/

namespace Turbine.Data.Loops

open Turbine.Library Turbine.Adlb
open Turbine.Data.Integers (Text getWideInt trimmed)

inductive Value (F B : Type)
  | integer (n : ℤ)
  | float (x : F)
  | string (s : Text)
  | blob (b : B)
  | ref (id : ℤ)
  deriving DecidableEq

/-- Floats and blobs, and what is written for them and read. -/
structure Formats (F B : Type) where
  getDouble : Text → Option F
  doubleText : F → Text
  blobAt : Text → Option B
  blobText : B → Text

structure Container where
  keyType : DataType
  valType : DataType
  subscripts : List Text

structure Store (F B : Type) where
  next : ℕ
  data : ℕ → Option (DataType × Option (Value F B))
  cache : ℕ → Option (Value F B)
  containers : ℕ → Option Container

/-- A call of the user's body, and the store that it finds. -/
structure Call (F B : Type) where
  stack : ℕ
  container : ℕ
  key : ℕ
  store : Store F B

structure State (F B : Type) where
  store : Store F B
  calls : List (Call F B)

inductive Stop
  | badValue (value : Text)
  | doubleWrite (id : ℕ)
  | notFound (id : ℕ)
  | unknownType (name : Text)
  | noCommand (name : String)
  | wrongArgs (name : String)

abbrev Script (F B α : Type) := Cmd (State F B) Stop α

variable {F B : Type}

def Value.text (E : Formats F B) : Value F B → Text
  | .integer n => Radix.text n
  | .float x => E.doubleText x
  | .string s => s
  | .blob b => E.blobText b
  | .ref id => Radix.text id

def Store.create (s : Store F B) (type : DataType) : Store F B :=
  { s with next := s.next + 1, data := Function.update s.data s.next (some (type, none)) }

def Store.put (s : Store F B) (id : ℕ) (type : DataType) (v : Value F B) : Store F B :=
  { s with data := Function.update s.data id (some (type, some v)) }

/-- `create_$type $::adlb::NULL_ID 1 1 0 1`. For a container the first count stands where the key
type is expected, and there is no `create_multiset`. -/
def createDatum : DataType → Script F B ℕ
  | .container => Cmd.throw (.unknownType ['1'])
  | .multiset => Cmd.throw (.noCommand "create_multiset")
  | .null => Cmd.throw (.noCommand "create_null")
  | type => fun s => (.ok s.store.next, { s with store := s.store.create type })

section Stores

variable (E : Formats F B)

def encode : DataType → Text → Option (Value F B)
  | .integer, value => (getWideInt value).map .integer
  | .float, value => (E.getDouble value).map .float
  | .string, value => some (.string value)
  | .blob, value => (E.blobAt value).map .blob
  | .ref, value => (getWideInt value).map .ref
  | _, _ => none

def adlbStore (id : ℕ) (type : DataType) (value : Text) : Script F B Unit := fun s =>
  match encode E type value, s.store.data id with
  | none, _ => (.error (.badValue value), s)
  | some _, none => (.error (.notFound id), s)
  | some _, some (_, some _) => (.error (.doubleWrite id), s)
  | some v, some (_, none) => (.ok (), { s with store := s.store.put id type v })

def cacheStore (id : ℕ) (type : DataType) (value : Text) : Script F B Unit := fun s =>
  match encode E type value with
  | none => (.error (.badValue value), s)
  | some v =>
    (.ok (), { s with store := { s.store with
      cache := Function.update s.store.cache id (some v) } })

/-- `store_${type}`; the one for structs also takes the name of the struct type. -/
def storeDatum : DataType → ℕ → Text → Script F B Unit
  | .integer, id, value => do
    let value := trimmed value
    adlbStore E id .integer value
    cacheStore E id .integer value
  | .float, id, value => adlbStore E id .float value
  | .string, id, value => adlbStore E id .string value
  | .blob, id, value => adlbStore E id .blob value
  | .ref, id, value => do
    adlbStore E id .ref value
    cacheStore E id .ref value
  | .struct, _, _ => Cmd.throw (.wrongArgs "store_struct")
  | .container, _, _ => Cmd.throw (.noCommand "store_container")
  | .multiset, _, _ => Cmd.throw (.noCommand "store_multiset")
  | .null, _, _ => Cmd.throw (.noCommand "store_null")

def literal (type : DataType) (value : Text) : Script F B ℕ := do
  let result ← createDatum type
  storeDatum E type result value
  return result

/-- `ADLB_Container_Typeof_Cmd` -/
def containerTypeof (id : ℕ) : Script F B (DataType × DataType) := fun s =>
  match s.store.containers id with
  | none => (.error (.notFound id), s)
  | some c =>
    let keyTypeString := c.valType
    let valTypeString := c.keyType
    (.ok (keyTypeString, valTypeString), s)

def containerList (id : ℕ) : Script F B (List Text) := fun s =>
  match s.store.containers id with
  | none => (.error (.notFound id), s)
  | some c => (.ok c.subscripts, s)

/-- The user's body does to the store what it likes. -/
def callBody (stmts : ℕ → ℕ → ℕ → Store F B → Store F B) (stack container key : ℕ) :
    Script F B Unit := fun s =>
  (.ok (), ⟨stmts stack container key s.store, s.calls ++ [⟨stack, container, key, s.store⟩]⟩)

variable (stmts : ℕ → ℕ → ℕ → Store F B → Store F B) (stack container : ℕ)

def eachKey (keyType : DataType) : List Text → Script F B Unit
  | [] => pure ()
  | subscript :: L => do
    let tdKey ← literal E keyType subscript
    callBody stmts stack container tdKey
    eachKey keyType L

def loopBody : Script F B Unit := do
  let (keyType, _) ← containerTypeof container
  let L ← containerList container
  eachKey E stmts stack container keyType L

/-! ### What a literal holds -/

/-- The value that `literal` stores. -/
def literalValue (type : DataType) (value : Text) : Option (Value F B) :=
  encode E type (if type = .integer then trimmed value else value)

/-- The subscript is what is written for a value of the type. -/
def Spells (type : DataType) (subscript : Text) : Prop :=
  ∃ v, literalValue E type subscript = some v ∧ v.text E = subscript

/-- The future that the body is called with has the type and holds the subscript. -/
def Call.Holds (type : DataType) (subscript : Text) (call : Call F B) : Prop :=
  ∃ v, call.store.data call.key = some (type, some v) ∧ v.text E = subscript

end Stores

variable {E : Formats F B} {s : State F B} {type : DataType} {value : Text} {v : Value F B}

lemma createDatum_apply (hv : literalValue E type value = some v) :
    createDatum type s = (.ok s.store.next, { s with store := s.store.create type }) := by
  cases type <;> first | rfl | simp [literalValue, encode] at hv

lemma adlbStore_created (hv : encode E type value = some v) :
    adlbStore E s.store.next type value { s with store := s.store.create type } =
      (.ok (), { s with store := (s.store.create type).put s.store.next type v }) := by
  have hdata : (s.store.create type).data s.store.next = some (type, none) :=
    Function.update_self ..
  simp only [adlbStore, hv, hdata]

lemma cacheStore_apply (id : ℕ) (s : State F B) (hv : encode E type value = some v) :
    ∃ cache, cacheStore E id type value s =
      (.ok (), { s with store := { s.store with cache := cache } }) :=
  ⟨Function.update s.store.cache id (some v), by simp only [cacheStore, hv]⟩

/-- The future that a literal is: of its type and with its value. -/
lemma literal_ends (hv : literalValue E type value = some v) :
    (literal E type value).Ends s fun id t =>
      t.calls = s.calls ∧ t.store.data id = some (type, some v) := by
  refine Cmd.bind_ends_of_ok (createDatum_apply hv) ?_
  have hput : ((s.store.create type).put s.store.next type v).data s.store.next =
      some (type, some v) :=
    Function.update_self ..
  suffices hstore : ∃ t, storeDatum E type s.store.next value
      { s with store := s.store.create type } = (.ok (), t) ∧ t.calls = s.calls ∧
        t.store.data s.store.next = some (type, some v) by
    obtain ⟨t, ht, hcalls, hdata⟩ := hstore
    exact Cmd.bind_ends_of_ok ht (Cmd.ends_pure ⟨hcalls, hdata⟩)
  cases type with
  | integer =>
    obtain ⟨cache, hcache⟩ := cacheStore_apply s.store.next
      { s with store := (s.store.create .integer).put s.store.next .integer v } hv
    exact ⟨_, (Cmd.bind_of_ok (adlbStore_created hv)).trans hcache, rfl, hput⟩
  | ref =>
    obtain ⟨cache, hcache⟩ := cacheStore_apply s.store.next
      { s with store := (s.store.create .ref).put s.store.next .ref v } hv
    exact ⟨_, (Cmd.bind_of_ok (adlbStore_created hv)).trans hcache, rfl, hput⟩
  | float | string | blob => exact ⟨_, adlbStore_created hv, rfl, hput⟩
  | null | container | multiset | struct => simp [literalValue, encode] at hv

lemma adlbStore_error {id : ℕ} (hv : encode E type value = none) :
    adlbStore E id type value s = (.error (.badValue value), s) := by
  simp only [adlbStore, hv]

lemma literal_error (hv : literalValue E type value = none) :
    ∃ e t, literal E type value s = (.error e, t) := by
  cases type with
  | null | container | multiset | struct => exact ⟨_, _, rfl⟩
  | integer | ref =>
    exact ⟨_, _, (Cmd.bind_of_ok rfl).trans
      (Cmd.bind_of_error (Cmd.bind_of_error (adlbStore_error hv)))⟩
  | float | string | blob =>
    exact ⟨_, _, (Cmd.bind_of_ok rfl).trans (Cmd.bind_of_error (adlbStore_error hv))⟩

/-! ### The loop -/

section Loop

variable {stmts : ℕ → ℕ → ℕ → Store F B → Store F B} {stack container : ℕ} {K V : DataType}
  {subs : List Text}

variable (E stmts stack container) in
/-- The body is called once for each subscript, in order, with a future of the type that holds it. -/
def LoopsOver (K : DataType) (subs : List Text) (s : State F B) : Prop :=
  (loopBody E stmts stack container).Ends s fun _ t => ∃ calls, t.calls = s.calls ++ calls ∧
    List.Forall₂ (fun subscript call => call.stack = stack ∧ call.container = container ∧
      call.Holds E K subscript) subs calls

variable (stmts stack container) in
lemma eachKey_ends (h : ∀ subscript ∈ subs, ∃ v, literalValue E type subscript = some v) :
    ∀ s, (eachKey E stmts stack container type subs).Ends s fun _ t => ∃ calls,
      t.calls = s.calls ++ calls ∧ List.Forall₂ (fun subscript call => call.stack = stack ∧
        call.container = container ∧
        call.store.data call.key = some (type, literalValue E type subscript)) subs calls := by
  induction subs with
  | nil => exact fun s => Cmd.ends_pure ⟨[], by simp, .nil⟩
  | cons subscript L ih =>
    intro s
    obtain ⟨⟨v, hv⟩, hL⟩ := List.forall_mem_cons.mp h
    refine (literal_ends hv).bind fun id t ht => ?_
    refine Cmd.bind_ends_of_ok rfl ?_
    refine (ih hL _).mono fun _ u hu => ?_
    obtain ⟨calls, hcalls, hall⟩ := hu
    refine ⟨⟨stack, container, id, t.store⟩ :: calls, ?_, .cons ⟨rfl, rfl, ?_⟩ hall⟩
    · rw [hcalls, ht.1, List.append_assoc, List.singleton_append]
    · rw [ht.2, hv]

variable (stmts stack container) in
lemma eachKey_error {subscript : Text} (hmem : subscript ∈ subs)
    (h : literalValue E type subscript = none) :
    ∀ s, ∃ e t, eachKey E stmts stack container type subs s = (.error e, t) := by
  induction subs with
  | nil => simp at hmem
  | cons first L ih =>
    intro s
    cases hfirst : literalValue E type first with
    | none =>
      obtain ⟨e, t, ht⟩ := literal_error (s := s) hfirst
      exact ⟨e, t, Cmd.bind_of_error ht⟩
    | some v =>
      have hL : subscript ∈ L := by
        rcases List.mem_cons.mp hmem with rfl | hL
        · rw [h] at hfirst
          exact absurd hfirst (by simp)
        · exact hL
      obtain ⟨id, t, ht, -⟩ := literal_ends (s := s) hfirst
      obtain ⟨e, u, hu⟩ := ih hL (callBody stmts stack container id t).2
      exact ⟨e, u, (Cmd.bind_of_ok ht).trans ((Cmd.bind_of_ok rfl).trans hu)⟩

lemma loopBody_apply (hc : s.store.containers container = some ⟨K, V, subs⟩) :
    loopBody E stmts stack container s = eachKey E stmts stack container V subs s := by
  have htypes : containerTypeof container s = (.ok (V, K), s) := by simp only [containerTypeof, hc]
  have hlist : containerList container s = (.ok subs, s) := by simp only [containerList, hc]
  exact (Cmd.bind_of_ok htypes).trans (Cmd.bind_of_ok hlist)

/-- The futures have the value type, so the key type is right only where the two are the same. -/
lemma loopsOver_iff (hc : s.store.containers container = some ⟨K, V, subs⟩) :
    LoopsOver E stmts stack container K subs s ↔
      ∀ subscript ∈ subs, K = V ∧ Spells E K subscript := by
  by_cases hliteral : ∀ subscript ∈ subs, ∃ v, literalValue E V subscript = some v
  · obtain ⟨a, t, ht, calls, hcalls, hall⟩ :=
      eachKey_ends stmts stack container hliteral s
    rw [← loopBody_apply hc] at ht
    have hiff := forall₂_iff_forall_mem hall
      (S := fun subscript call => call.stack = stack ∧ call.container = container ∧
        call.Holds E K subscript)
      (P := fun subscript => K = V ∧ Spells E K subscript) fun subscript call hcall => by
        obtain ⟨hstack, hcontainer, hdata⟩ := hcall
        simp only [hstack, hcontainer, true_and, Call.Holds, hdata, Spells, Option.some_inj,
          Prod.mk.injEq]
        constructor
        · rintro ⟨v, ⟨rfl, hv⟩, htext⟩
          exact ⟨rfl, v, hv, htext⟩
        · rintro ⟨rfl, v, hv, htext⟩
          exact ⟨v, ⟨rfl, hv⟩, htext⟩
    rw [← hiff]
    constructor
    · rintro ⟨a', t', ht', calls', hcalls', hall'⟩
      obtain ⟨-, rfl⟩ := Prod.mk.inj (ht.symm.trans ht')
      rwa [List.append_cancel_left (hcalls.symm.trans hcalls')]
    · exact fun hall' => ⟨a, t, ht, calls, hcalls, hall'⟩
  · push Not at hliteral
    obtain ⟨subscript, hmem, hnone⟩ := hliteral
    have hvalue : literalValue E V subscript = none :=
      Option.eq_none_iff_forall_ne_some.mpr hnone
    constructor
    · rintro ⟨a, t, ht, -⟩
      obtain ⟨e, u, hu⟩ := eachKey_error stmts stack container
        hmem hvalue s
      rw [loopBody_apply hc, hu] at ht
      exact absurd (congrArg Prod.fst ht) (by simp)
    · intro h
      obtain ⟨rfl, v, hv, -⟩ := h subscript hmem
      exact absurd hv (hnone v)

end Loop

/-! ### Which subscripts a literal can hold -/

lemma spells_string (subscript : Text) : Spells E .string subscript := ⟨.string subscript, rfl, rfl⟩

lemma wide_fits {m n : ℤ} (h : Integers.wide m = some n) : Radix.Fits64 n := by
  rw [Integers.wide] at h
  split_ifs at h with hwide
  rw [← Option.some.inj h]
  exact ⟨by have := Int.le_bmod (x := m) (m := 2 ^ 64) (by decide); omega,
    by have := Int.bmod_lt (x := m) (m := 2 ^ 64) (by decide); omega⟩

/-- Integers are written in one way only, without blanks or leading zeros. -/
lemma spells_integer_iff {subscript : Text} :
    Spells E .integer subscript ↔ ∃ n, Radix.Fits64 n ∧ Radix.text n = subscript := by
  constructor
  · rintro ⟨v, hv, htext⟩
    obtain ⟨n, hn, rfl⟩ := Option.map_eq_some_iff.mp hv
    obtain ⟨m, -, hm⟩ := Option.bind_eq_some_iff.mp hn
    exact ⟨n, wide_fits hm, htext⟩
  · rintro ⟨n, hfits, rfl⟩
    refine ⟨.integer n, ?_, rfl⟩
    rw [literalValue, if_pos rfl, Integers.trimmed_text, encode, Integers.getWideInt_text hfits]
    rfl

/-- No literal is a container, a multiset or a struct. -/
lemma not_spells {subscript : Text} (h : type ∈ [.null, .container, .multiset, .struct]) :
    ¬Spells E type subscript := by
  rintro ⟨v, hv, -⟩
  cases type <;> first | exact absurd h (by decide) | simp [literalValue, encode] at hv

/-! ### Main result -/

section Main

variable {stmts : ℕ → ℕ → ℕ → Store F B → Store F B} {stack container : ℕ} {K V : DataType}
  {subs : List Text}

variable (E stmts stack container) in
def TypesKeys (K V : DataType) (subs : List Text) (s : State F B) : Prop :=
  containerTypeof container s = (.ok (K, V), s) ∧ LoopsOver E stmts stack container K subs s

theorem loop_types_keys_iff (hc : s.store.containers container = some ⟨K, V, subs⟩) :
    TypesKeys E stmts stack container K V subs s ↔
      K = V ∧ ∀ subscript ∈ subs, Spells E K subscript := by
  have htypes : containerTypeof container s = (.ok (V, K), s) := by simp only [containerTypeof, hc]
  rw [TypesKeys, loopsOver_iff hc, htypes]
  constructor
  · rintro ⟨heq, hkeys⟩
    have hKV : K = V := by
      simp only [Prod.mk.injEq, Except.ok.injEq] at heq
      exact heq.1.2
    exact ⟨hKV, fun subscript hmem => (hkeys subscript hmem).2⟩
  · rintro ⟨rfl, hkeys⟩
    exact ⟨rfl, fun subscript hmem => ⟨rfl, hkeys subscript hmem⟩⟩

end Main

/-- One closed container of a type, and no formats that matter. -/
def oneContainer (c : Container) : State Unit Unit :=
  ⟨⟨1, fun _ => none, fun _ => none, fun id => if id = 0 then some c else none⟩, []⟩

def noFormats : Formats Unit Unit := ⟨fun _ => none, fun _ => [], fun _ => none, fun _ => []⟩

theorem loop_types_keys_strings :
    TypesKeys noFormats (fun _ _ _ store => store) 5 0 .string .string [['a'], ['b']]
      (oneContainer ⟨.string, .string, [['a'], ['b']]⟩) :=
  (loop_types_keys_iff rfl).mpr ⟨rfl, fun subscript _ => spells_string subscript⟩

/-- An array of strings has its first and second type exchanged, and its keys become strings. -/
theorem not_loop_types_keys :
    containerTypeof 0 (oneContainer ⟨.integer, .string, [['0']]⟩) =
        (.ok (.string, .integer), oneContainer ⟨.integer, .string, [['0']]⟩) ∧
      ¬LoopsOver noFormats (fun _ _ _ store => store) 5 0 .integer [['0']]
        (oneContainer ⟨.integer, .string, [['0']]⟩) ∧
      ¬TypesKeys noFormats (fun _ _ _ store => store) 5 0 .integer .string [['0']]
        (oneContainer ⟨.integer, .string, [['0']]⟩) := by
  have hkeys : ¬LoopsOver noFormats (fun _ _ _ store => store) 5 0 .integer [['0']]
      (oneContainer ⟨.integer, .string, [['0']]⟩) := by
    rw [loopsOver_iff rfl]
    simp
  exact ⟨rfl, hkeys, fun h => hkeys h.2⟩

end Turbine.Data.Loops
