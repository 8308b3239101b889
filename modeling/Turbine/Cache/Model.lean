import Turbine.Library.Runs

/-! The local data cache of `cache.c`. The table `entries` and the tree `lru` of the C library
are the finite maps of the standard library; both hold addresses of heap-allocated entries. -/

namespace Turbine.Cache

open Std

/-- An address returned by `malloc`. -/
abbrev Ptr := ℕ

structure Entry where
  td : ℤ
  type : ℤ
  data : Ptr
  length : BitVec 64
  stamp : ℤ
deriving DecidableEq

structure State where
  maxEntries : ℤ
  counter : ℤ
  memory : BitVec 64
  entries : ExtTreeMap ℤ Ptr
  lru : ExtTreeMap ℤ Ptr
  heap : Ptr → Option Entry
  next : Ptr

inductive Fault
  | assertEntriesSize
  | assertVictim
  | assertMoved
  | nullNode
  | badPointer
deriving DecidableEq

inductive Code
  | success
  | notFound
deriving DecidableEq

def turbineCacheInit (size : ℤ) (maxMemory : BitVec 64) : State where
  maxEntries := size
  counter := 0
  memory := maxMemory
  entries := ∅
  lru := ∅
  heap := fun _ => none
  next := 0

def turbineCacheCheck (s : State) (td : ℤ) : Bool :=
  if s.maxEntries = 0 then false else s.entries.contains td

/-- `rbtree_leftmost`: the node with the least key, or `NULL`. -/
def rbtreeLeftmost (t : ExtTreeMap ℤ Ptr) : Option (ℤ × Ptr) :=
  t.minKey?.bind fun k => t[k]?.map fun p => (k, p)

def deref (s : State) (p : Ptr) : Except Fault Entry :=
  match s.heap p with
  | some e => .ok e
  | none => .error .badPointer

def setEntry (s : State) (p : Ptr) (e : Entry) : State :=
  { s with heap := Function.update s.heap p (some e) }

def freeEntry (s : State) (p : Ptr) : State :=
  { s with heap := Function.update s.heap p none }

/-- `rbtree_move`: false when no node has the old key. -/
def rbtreeMove (t : ExtTreeMap ℤ Ptr) (old new : ℤ) : Option (ExtTreeMap ℤ Ptr) :=
  t[old]?.map fun p => (t.erase old).insert new p

def turbineCacheRetrieve (s : State) (td : ℤ) :
    Except Fault (Code × Option (ℤ × Ptr × BitVec 64) × State) :=
  match s.entries[td]? with
  | none => .ok (.notFound, none, s)
  | some p => do
    let e ← deref s p
    match rbtreeMove s.lru e.stamp s.counter with
    | none => .error .assertMoved
    | some lru =>
      let s' := setEntry { s with lru := lru } p { e with stamp := s.counter }
      .ok (.success, some (e.type, e.data, e.length), { s' with counter := s.counter + 1 })

/-- The loop condition `memory < 0` compares an unsigned counter. Each iteration pops the least
recently used node; popping an empty tree leaves the victim pointer null. -/
def cacheShrink (s : State) : Except Fault State :=
  if s.memory < 0#64 then
    match hleft : rbtreeLeftmost s.lru with
    | none => .error .nullNode
    | some (stamp, p) =>
      match s.heap p with
      | none => .error .badPointer
      | some e =>
        cacheShrink { freeEntry s p with
          lru := s.lru.erase stamp
          memory := s.memory + e.length }
  else .ok s
termination_by s.lru.size
decreasing_by
  obtain ⟨k, hk, hp⟩ := Option.bind_eq_some_iff.mp hleft
  obtain ⟨q, -, hq⟩ := Option.map_eq_some_iff.mp hp
  obtain rfl : k = stamp := congrArg Prod.fst hq
  have hm : k ∈ s.lru := ExtTreeMap.minKey?_mem hk
  have hpos : 0 < s.lru.keys.length := List.length_pos_of_mem (ExtTreeMap.mem_keys.mpr hm)
  rw [ExtTreeMap.length_keys] at hpos
  simp only [ExtTreeMap.size_erase, ExtTreeMap.contains_iff_mem.mpr hm, if_true]
  omega

def cacheAdd (s : State) (td type : ℤ) (data : Ptr) (length : BitVec 64) : Except Fault State :=
  let p := s.next
  let e : Entry := { td, type, data, length, stamp := s.counter }
  cacheShrink { setEntry { s with next := s.next + 1 } p e with
    entries := s.entries.insert td p
    lru := s.lru.insert s.counter p
    counter := s.counter + 1
    memory := s.memory - length }

def cacheReplace (s : State) (td type : ℤ) (data : Ptr) (length : BitVec 64) :
    Except Fault State :=
  match rbtreeLeftmost s.lru with
  | none => .error .nullNode
  | some (stamp, p) => do
    let e ← deref s p
    let lru := s.lru.erase stamp
    if s.entries[e.td]? ≠ some p then .error .assertVictim
    else
      let entries := s.entries.erase e.td
      let e' : Entry := { td, type, data, length, stamp := s.counter }
      cacheShrink { setEntry s p e' with
        entries := entries.insert td p
        lru := lru.insert s.counter p
        memory := s.memory + e.length - length
        counter := s.counter + 1 }

def turbineCacheStore (s : State) (td type : ℤ) (data : Ptr) (length : BitVec 64) :
    Except Fault State :=
  if s.maxEntries = 0 then .ok s
  else if ¬ (s.entries.size : ℤ) ≤ s.maxEntries then .error .assertEntriesSize
  else if s.maxEntries - s.entries.size = 1 then cacheReplace s td type data length
  else cacheAdd s td type data length

inductive Call
  | store (td type : ℤ) (data : Ptr) (length : BitVec 64)
  | check (td : ℤ)
  | retrieve (td : ℤ)

/-- The state after one call; what the call returns does not influence later calls. -/
def step (s : State) : Call → Except Fault State
  | .store td type data length => turbineCacheStore s td type data length
  | .check _ => .ok s
  | .retrieve td => (turbineCacheRetrieve s td).map fun r => r.2.2

lemma cacheShrink_eq (s : State) : cacheShrink s = .ok s := by
  rw [cacheShrink]
  simp

lemma rbtreeLeftmost_eq_some {t : ExtTreeMap ℤ Ptr} {k : ℤ} {p : Ptr}
    (h : rbtreeLeftmost t = some (k, p)) : t[k]? = some p := by
  obtain ⟨k', -, hp⟩ := Option.bind_eq_some_iff.mp h
  obtain ⟨q, hq, he⟩ := Option.map_eq_some_iff.mp hp
  obtain ⟨rfl, rfl⟩ := Prod.mk.inj he
  exact hq

lemma rbtreeLeftmost_eq_none {t : ExtTreeMap ℤ Ptr} (h : rbtreeLeftmost t = none) : t = ∅ := by
  rw [← ExtTreeMap.minKey?_eq_none_iff]
  by_contra hne
  obtain ⟨k, hk⟩ := Option.ne_none_iff_exists'.mp hne
  have hm : k ∈ t := ExtTreeMap.minKey?_mem hk
  simp [rbtreeLeftmost, hk, ExtTreeMap.getElem?_eq_some_getElem hm] at h

end Turbine.Cache
