import Turbine.Library.Shares

/-! The data that the asynchronous builtins on containers share: read and write references are
counted, and a reference that is stored owns a part of the counts of the datum it points to. -/

namespace Turbine.References

open Turbine.Library Shares

abbrev Text := List Char

inductive Mode
  | read
  | write
  deriving DecidableEq

/-- What is counted. -/
abbrev Token := ℕ × Mode

abbrev readOf (id : ℕ) : Share Token := one (id, .read)

abbrev writeOf (id : ℕ) : Share Token := one (id, .write)

/-- A reference that is stored: in a future, or under a subscript of a container or a struct. It
owns read and write references to the datum it points to. -/
structure Link where
  holder : ℕ
  subscript : Option Text
  target : ℕ
  reads : ℕ
  writes : ℕ
  deriving DecidableEq

/-- A lookup whose member is not there yet. It owns a read reference to the container and the write
reference of the future that is to be set. -/
structure Waiting where
  container : ℕ
  subscript : Text
  reference : ℕ
  deriving DecidableEq

def Link.owns (l : Link) : Share Token :=
  l.reads • readOf l.target + l.writes • writeOf l.target

def Waiting.owns (w : Waiting) : Share Token :=
  readOf w.container + writeOf w.reference

structure State where
  counts : Share Token
  values : ℕ → Option Text
  links : List Link
  waiting : List Waiting
  next : ℕ

inductive Stop
  | gone (id : ℕ)
  | closed (id : ℕ)
  | refcount (id : ℕ)
  | unset (id : ℕ)
  | wrongType (id : ℕ)
  | doubleWrite (id : ℕ)
  | readOnly (id : ℕ)
  deriving DecidableEq

abbrev Script (α : Type) := Cmd State Stop α

/-! ### Commands of the extension -/

def State.link (s : State) (id : ℕ) (subscript : Option Text) : Option Link :=
  s.links.find? fun l => l.holder = id ∧ l.subscript = subscript

/-- A datum is there until its last reference is dropped, and open until its last write reference
is. -/
def acquire (id : ℕ) (mode : Mode) (n : ℕ) : Script Unit := fun s =>
  if n ≠ 0 ∧ mode = .read ∧ s.counts (id, .read) = 0 ∧ s.counts (id, .write) = 0 then
    (.error (.gone id), s)
  else if n ≠ 0 ∧ mode = .write ∧ s.counts (id, .write) = 0 then (.error (.closed id), s)
  else (.ok (), { s with counts := s.counts + n • one (id, mode) })

def drop (id : ℕ) (mode : Mode) (n : ℕ) : Script Unit := fun s =>
  if s.counts (id, mode) < n then (.error (.refcount id), s)
  else (.ok (), { s with counts := s.counts - n • one (id, mode) })

def addLink (l : Link) : Script Unit := fun s =>
  if (s.link l.holder l.subscript).isSome then (.error (.doubleWrite l.holder), s)
  else (.ok (), { s with links := l :: s.links })

/-- The text of a datum of any type; that of a reference is the datum it points to. -/
def retrieve (id : ℕ) : Script Text := fun s =>
  match s.values id, s.link id none with
  | some v, _ => (.ok v, s)
  | none, some l => (.ok (Nat.toDigits 10 l.target), s)
  | none, none => (.error (.unset id), s)

def retrieveDecr (id : ℕ) : Script Text := do
  let v ← retrieve id
  drop id .read 1
  return v

def setValue (id : ℕ) (value : Text) : Script Unit := fun s =>
  if (s.values id).isSome then (.error (.doubleWrite id), s)
  else (.ok (), { s with values := Function.update s.values id (some value) })

/-- `adlb::store` of a value; the default is to drop one write reference. -/
def storeValue (id : ℕ) (value : Text) : Script Unit := do
  setValue id value
  drop id .write 1

/-- `adlb::store` of a reference with what it is to own. -/
def storeRef (id target reads writes : ℕ) : Script Unit := do
  addLink ⟨id, none, target, reads, writes⟩
  drop id .write 1

def storeRwRef (id target : ℕ) : Script Unit := storeRef id target 1 1

/-- The reference that a future was set to. -/
def reference (id : ℕ) : Script ℕ := fun s =>
  match s.link id none with
  | some l => (.ok l.target, s)
  | none => (.error (if (s.values id).isSome then .wrongType id else .unset id), s)

def acquireRef (id incr decr : ℕ) : Script ℕ := do
  let d ← reference id
  acquire d .read incr
  drop id .read decr
  return d

def acquireWriteRef (id readIncr writeIncr decr : ℕ) : Script ℕ := do
  let d ← reference id
  acquire d .read readIncr
  acquire d .write writeIncr
  drop id .read decr
  return d

def checkOpen (id : ℕ) : Script Unit := fun s =>
  if s.counts (id, .write) = 0 then (.error (.closed id), s) else (.ok (), s)

/-- `adlb::insert` and `adlb::struct_insert` of a datum: the member takes over a read reference. -/
def adlbInsert (id : ℕ) (subscript : Text) (member writeDecr readDecr : ℕ) : Script Unit := do
  checkOpen id
  addLink ⟨id, some subscript, member, 1, 0⟩
  drop id .write writeDecr
  drop id .read readDecr

/-- The names of the last two parameters are those of the source; they are passed on in the places
of write and of read references. -/
def containerInsert (id : ℕ) (subscript : Text) (member readDrops writeDrops : ℕ) : Script Unit :=
  adlbInsert id subscript member readDrops writeDrops

/-- What a lookup does when the member is there, at once or later: the future becomes a reference
that owns a read reference to the member. -/
def setReference (container target id : ℕ) : Script Unit := do
  acquire target .read 1
  storeRef id target 1 0
  drop container .read 1

/-- `adlb::container_reference` and `adlb::struct_reference`. -/
def containerReference (container : ℕ) (subscript : Text) (id : ℕ) : Script Unit := fun s =>
  match s.link container (some subscript) with
  | some l => setReference container l.target id s
  | none => (.ok (), { s with waiting := ⟨container, subscript, id⟩ :: s.waiting })

/-- References to a nested datum that its container keeps to give them to others. -/
def initCount : ℕ := 2 <<< 24

def create (reads writes : ℕ) : Script ℕ := fun s =>
  (.ok s.next, { s with
    next := s.next + 1
    counts := s.counts + reads • readOf s.next + writes • writeOf s.next })

def acquireMember (l : Link) (callerRead callerWrite : ℕ) : Script ℕ := do
  if callerWrite ≠ 0 ∧ l.writes = 0 then Cmd.throw (.readOnly l.target)
  acquire l.target .read callerRead
  acquire l.target .write callerWrite
  return l.target

def createMember (id : ℕ) (subscript : Text) (callerRead callerWrite : ℕ) : Script ℕ := do
  let d ← create (initCount + callerRead) (initCount + callerWrite)
  addLink ⟨id, some subscript, d, initCount, initCount⟩
  return d

def nestedDatum (id : ℕ) (subscript : Text) (callerRead callerWrite : ℕ) : Script ℕ := fun s =>
  match s.link id (some subscript) with
  | some l => acquireMember l callerRead callerWrite s
  | none => createMember id subscript callerRead callerWrite s

/-- `adlb::create_nested`: the member that is there, or a new one. -/
def createNested (id : ℕ) (subscript : Text)
    (callerRead callerWrite decrWrite decrRead : ℕ) : Script ℕ := do
  checkOpen id
  let d ← nestedDatum id subscript callerRead callerWrite
  drop id .write decrWrite
  drop id .read decrRead
  return d

def countMembers (id : ℕ) : Script ℕ := fun s =>
  (.ok (s.links.countP fun l => l.holder = id ∧ l.subscript ≠ none), s)

def containerSize (id decr : ℕ) : Script ℕ := do
  let n ← countMembers id
  drop id .read decr
  return n

def hasMember (id : ℕ) (subscript : Text) : Script Bool := fun s =>
  (.ok (s.link id (some subscript)).isSome, s)

def existsSub (id : ℕ) (subscript : Text) (decr : ℕ) : Script Bool := do
  let present ← hasMember id subscript
  drop id .read decr
  return present

/-! ### What the server does by itself -/

/-- A member of the container or struct `id`. -/
def Link.MemberOf (id : ℕ) (l : Link) : Prop := l.holder = id ∧ l.subscript ≠ none

instance (id : ℕ) : DecidablePred (Link.MemberOf id) := fun l =>
  inferInstanceAs (Decidable (l.holder = id ∧ l.subscript ≠ none))

def Link.release (id : ℕ) (l : Link) : Link := if l.MemberOf id then { l with writes := 0 } else l

/-- What a link owns no longer when `id` is closed. -/
def Link.released (id : ℕ) (l : Link) : Share Token :=
  if l.MemberOf id then l.writes • writeOf l.target else 0

/-- A container or struct that is closed drops its write references to what is inside. -/
def State.close (s : State) (id : ℕ) : State :=
  { s with
    counts := s.counts - total (Link.released id) (s.links : Multiset Link)
    links := s.links.map (Link.release id) }

/-- A datum that is in use no longer is deleted, and with it the references that are stored in it. -/
def State.collect (s : State) (id : ℕ) : State :=
  { s with
    counts := s.counts -
      total Link.owns ((s.links.filter fun l => l.holder = id : List Link) : Multiset Link)
    values := Function.update s.values id none
    links := s.links.filter fun l => l.holder ≠ id }

end Turbine.References
