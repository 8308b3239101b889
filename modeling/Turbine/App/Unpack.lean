import Turbine.Library.OrderedDict
import Turbine.Library.Paths

/-! The arguments of an external command that stand in nested containers. -/

namespace Turbine.App.Unpack

open Turbine.Library Paths

abbrev Word := List Char

/-- The Tcl value of a member: an id, a file handle, or the value itself. -/
inductive Member
  | id (td : ℕ)
  | file (td : ℕ) (isMapped : Bool)
  | text (value : Word)
  deriving DecidableEq

inductive BaseType
  | fileRef
  | ref
  | other
  deriving DecidableEq

/-- Closed data: members of containers in the order of storage, values, and paths of files. -/
structure Store where
  contents : ℕ → Option (OrderedDict ℤ Member)
  value : ℕ → Option Word
  path : ℕ → Option Word

inductive Stop
  | user (message : String)
  | badHandle
  | notFound (td : ℕ)
  | noKey (key : ℤ)

variable (S : Store)

def fetch {α : Type} (field : ℕ → Option α) (td : ℕ) : Except Stop α :=
  match field td with
  | none => .error (.notFound td)
  | some a => .ok a

/-- `adlb::enumerate $container dict all 0` -/
def enumerateDict : Member → Except Stop (OrderedDict ℤ Member)
  | .id td => fetch S.contents td
  | _ => .error .badHandle

def dictGet (d : OrderedDict ℤ Member) (key : ℤ) : Except Stop Member :=
  match d.get? key with
  | none => .error (.noKey key)
  | some member => .ok member

def memberValue : BaseType → Member → Except Stop Member
  | .fileRef, .file td _ => (fetch S.path td).map .text
  | .fileRef, _ => .error .badHandle
  | .ref, .id td => (fetch S.value td).map .text
  | .ref, _ => .error .badHandle
  | .other, member => .ok member

/-- The loop over `[ lsort -integer [ dict keys $contents ] ]`. -/
def eachInKeyOrder (contents : OrderedDict ℤ Member)
    (body : Member → List Member → Except Stop (List Member)) (res : List Member) :
    Except Stop (List Member) :=
  let sortedKeys := contents.keys.mergeSort
  sortedKeys.foldlM (fun res key => do
    let member ← dictGet contents key
    body member res) res

def unpackUnnestedContainer (container : Member) (baseType : BaseType) (res : List Member) :
    Except Stop (List Member) := do
  let contents ← enumerateDict S container
  eachInKeyOrder contents (fun member res => (memberValue S baseType member).map (res ++ [·])) res

def unpackArgsRec (baseType : BaseType) : ℕ → Member → List Member → Except Stop (List Member)
  | 0, _, _ => .error (.user "Nest_level < 1: 0")
  | 1, container, res => unpackUnnestedContainer S container baseType res
  | nestLevel + 2, container, res => do
    let contents ← enumerateDict S container
    eachInKeyOrder contents (unpackArgsRec baseType (nestLevel + 1)) res

def unpackArgs (container : Member) (nestLevel : ℕ) (baseType : BaseType) :
    Except Stop (List Member) :=
  unpackArgsRec S baseType nestLevel container []

/-! ### Leaves -/

/-- Every container down to the level is there, and so is every leaf. -/
def DeepClosed (baseType : BaseType) : ℕ → Member → Prop
  | 0, member => ∃ v, memberValue S baseType member = .ok v
  | level + 1, container => ∃ d, enumerateDict S container = .ok d ∧
      ∀ key member, d.get? key = some member → DeepClosed baseType level member

/-- The leaf at a path of keys, one for each level. -/
def leafAt (baseType : BaseType) : ℕ → Member → List ℤ → Option Member
  | 0, member, path => if path = [] then (memberValue S baseType member).toOption else none
  | level + 1, container, path => under (fun key rest =>
      (enumerateDict S container).toOption.bind fun d =>
        (d.get? key).bind fun member => leafAt baseType level member rest) path

variable {S} {baseType : BaseType}

lemma sortedKeys_lt (d : OrderedDict ℤ Member) : d.keys.mergeSort.Pairwise (· < ·) := by
  have hnodup : d.keys.mergeSort.Nodup := (List.mergeSort_perm _ _).nodup_iff.mpr d.nodup
  have hle : d.keys.mergeSort.Pairwise (· ≤ ·) := List.sortedLE_mergeSort.pairwise
  exact hle.imp₂ (fun _ _ hle hne => lt_of_le_of_ne hle hne) hnodup

lemma foldlM_append {step : List Member → ℤ → Except Stop (List Member)}
    {f : ℤ → List Member} {keys : List ℤ}
    (h : ∀ key ∈ keys, ∀ res, step res key = .ok (res ++ f key)) (res : List Member) :
    keys.foldlM step res = .ok (res ++ keys.flatMap f) := by
  induction keys generalizing res with
  | nil => rw [List.foldlM_nil, List.flatMap_nil, List.append_nil]; rfl
  | cons key keys ih =>
    obtain ⟨hkey, hkeys⟩ := List.forall_mem_cons.mp h
    rw [List.foldlM_cons, hkey, List.flatMap_cons, ← List.append_assoc]
    exact ih hkeys _

/-- If the body appends the leaves of each member, the loop appends those of the container. -/
lemma eachInKeyOrder_lists {d : OrderedDict ℤ Member}
    (body : Member → List Member → Except Stop (List Member))
    (leaf : Member → List ℤ → Option Member)
    (h : ∀ key member, d.get? key = some member → ∃ leaves, Lists (leaf member) leaves ∧
      ∀ res, body member res = .ok (res ++ leaves.map Prod.snd)) :
    ∃ leaves, Lists (under fun key rest => (d.get? key).bind (leaf · rest)) leaves ∧
      ∀ res, eachInKeyOrder d body res = .ok (res ++ leaves.map Prod.snd) := by
  have hkey : ∀ key ∈ d.keys.mergeSort, ∃ leaves,
      Lists (fun rest => (d.get? key).bind (leaf · rest)) leaves ∧
        ∀ res, (do let member ← dictGet d key; body member res) =
          Except.ok (ε := Stop) (res ++ leaves.map Prod.snd) := by
    intro key hmem
    obtain ⟨member, hmember⟩ := OrderedDict.mem_keys_iff.mp (List.mem_mergeSort.mp hmem)
    obtain ⟨leaves, hleaves, hbody⟩ := h key member hmember
    refine ⟨leaves, by simpa only [hmember, Option.bind_some] using hleaves, fun res => ?_⟩
    simp only [dictGet, hmember]
    exact hbody res
  choose! entries hentries using hkey
  refine ⟨_, lists_under (sortedKeys_lt d) ?_ fun key hmem => (hentries key hmem).1, fun res => ?_⟩
  · intro key hnot rest
    rw [List.mem_mergeSort, OrderedDict.mem_keys_iff] at hnot
    rw [Option.eq_none_iff_forall_ne_some.mpr fun member hm => hnot ⟨member, hm⟩, Option.bind_none]
  · rw [values_flatMap]
    exact foldlM_append (fun key hmem => (hentries key hmem).2) res

lemma leafAt_succ {level : ℕ} {container : Member} {d : OrderedDict ℤ Member}
    (hd : enumerateDict S container = .ok d) :
    leafAt S baseType (level + 1) container =
      under fun key rest => (d.get? key).bind (leafAt S baseType level · rest) := by
  funext path
  cases path with
  | nil => rfl
  | cons key rest => simp only [leafAt, under, hd, Except.toOption, Option.bind_some]

lemma lists_leaf {member v : Member} (hv : memberValue S baseType member = .ok v) :
    Lists (leafAt S baseType 0 member) [([], v)] :=
  lists_nil fun path => by simp only [leafAt, hv, Except.toOption]

lemma unpackArgsRec_lists {level : ℕ} {container : Member}
    (h : DeepClosed S baseType (level + 1) container) :
    ∃ leaves, Lists (leafAt S baseType (level + 1) container) leaves ∧
      ∀ res, unpackArgsRec S baseType (level + 1) container res =
        .ok (res ++ leaves.map Prod.snd) := by
  induction level generalizing container with
  | zero =>
    obtain ⟨d, hd, hmembers⟩ := h
    obtain ⟨leaves, hleaves, hloop⟩ := eachInKeyOrder_lists
      (fun member res => (memberValue S baseType member).map (res ++ [·]))
      (leafAt S baseType 0) fun key member hmember => by
        obtain ⟨v, hv⟩ := hmembers key member hmember
        exact ⟨_, lists_leaf hv, fun res => by rw [hv]; rfl⟩
    refine ⟨leaves, by rwa [leafAt_succ hd], fun res => ?_⟩
    rw [unpackArgsRec, unpackUnnestedContainer, hd]
    exact hloop res
  | succ level ih =>
    obtain ⟨d, hd, hmembers⟩ := h
    obtain ⟨leaves, hleaves, hloop⟩ := eachInKeyOrder_lists
      (unpackArgsRec S baseType (level + 1)) (leafAt S baseType (level + 1))
      fun key member hmember => ih (hmembers key member hmember)
    refine ⟨leaves, by rwa [leafAt_succ hd], fun res => ?_⟩
    rw [unpackArgsRec, hd]
    exact hloop res

/-! ### Main result -/

/-- The arguments are the leaves in the order of their paths, however the containers are stored. -/
theorem unpack_args_lists_leaves {level : ℕ} {container : Member} (hlevel : 1 ≤ level)
    (hclosed : DeepClosed S baseType level container) :
    (∃ leaves, Lists (leafAt S baseType level container) leaves ∧
        unpackArgs S container level baseType = .ok (leaves.map Prod.snd)) ∧
      ∀ S' container', DeepClosed S' baseType level container' →
        leafAt S' baseType level container' = leafAt S baseType level container →
        unpackArgs S' container' level baseType = unpackArgs S container level baseType := by
  obtain ⟨level, rfl⟩ := Nat.exists_eq_add_of_le' hlevel
  obtain ⟨leaves, hleaves, hrun⟩ := unpackArgsRec_lists hclosed
  refine ⟨⟨leaves, hleaves, hrun []⟩, fun S' container' hclosed' hsame => ?_⟩
  obtain ⟨leaves', hleaves', hrun'⟩ := unpackArgsRec_lists hclosed'
  rw [hsame] at hleaves'
  rw [unpackArgs, unpackArgs, hrun, hrun', hleaves'.unique hleaves]

/-- Two rows, of which one is empty and the other is stored with its last key first. -/
def twoRows : Store where
  contents
    | 0 => some ⟨[(4, .id 1), (-2, .id 2)], by decide⟩
    | 1 => some ⟨[], by decide⟩
    | 2 => some ⟨[(10, .text ['b']), (9, .text ['a'])], by decide⟩
    | _ => none
  value _ := none
  path _ := none

lemma twoRows_closed : DeepClosed twoRows .other 2 (.id 0) := by
  refine ⟨_, rfl, fun key member hmember => ?_⟩
  have hrows := OrderedDict.mem_entries_iff.mpr hmember
  simp only [List.mem_cons, Prod.mk.injEq, List.not_mem_nil, or_false] at hrows
  rcases hrows with ⟨-, rfl⟩ | ⟨-, rfl⟩ <;>
    exact ⟨_, rfl, fun key member _ => ⟨member, rfl⟩⟩

theorem unpack_args_lists_leaves_two_rows :
    ∃ leaves, Lists (leafAt twoRows .other 2 (.id 0)) leaves ∧
      unpackArgs twoRows (.id 0) 2 .other = .ok (leaves.map Prod.snd) :=
  (unpack_args_lists_leaves (by decide) twoRows_closed).1

end Turbine.App.Unpack
