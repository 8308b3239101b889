import Turbine.Library.Interleaving

/-! Collective input and output: copying a file to every rank, and broadcasting a string. -/

namespace Turbine.Mpi

open Turbine.Library.Programs

/-- The characters of a C string, before the terminating zero. -/
structure CString where
  chars : List UInt8
  no_zero : 0 ∉ chars

def CString.buffer (s : CString) : List UInt8 := s.chars ++ [0]

def CString.ofBuffer (buf : List UInt8) : CString where
  chars := buf.takeWhile (· ≠ 0)
  no_zero h := by simpa using List.mem_takeWhile_imp h

@[simp] lemma CString.length_buffer (s : CString) : s.buffer.length = s.chars.length + 1 := by
  simp [buffer]

@[simp] lemma CString.ofBuffer_buffer (s : CString) : ofBuffer s.buffer = s := by
  have hchars : ∀ c ∈ s.chars, (decide (c ≠ 0)) = true := by
    intro c hc
    simpa using ne_of_mem_of_not_mem hc s.no_zero
  cases s with
  | mk chars no_zero =>
    simp only [ofBuffer, buffer, mk.injEq]
    rw [List.takeWhile_append_of_pos hchars]
    simp

-- a pointer that is not initialized is `none`
abbrev Pointer := Option CString

/-- The ranks of a communicator: `0`, and `n` others. -/
def Rank (n : ℕ) : Type := Fin (n + 1)
  deriving DecidableEq, Fintype

instance (n : ℕ) : Zero (Rank n) := ⟨⟨0, n.succ_pos⟩⟩

def Rank.last (n : ℕ) : Rank n := Fin.last n

lemma Rank.eq_zero (i : Rank 0) : i = 0 := Fin.eq_zero i

lemma Rank.last_ne_zero {n : ℕ} (hn : n ≠ 0) : last n ≠ 0 := by
  intro h
  exact hn (congrArg Fin.val h)

inductive Collective (n : ℕ)
  | bcast (root : Rank n)
  | fileOpen
  | fileReadAll
  | fileClose
  deriving DecidableEq

/-- The contents of the buffer that a rank brings to a collective. -/
inductive Payload
  | none
  | number (v : ℕ)
  | text (buf : List UInt8)

def Payload.asNumber : Payload → ℕ
  | number v => v
  | _ => 0

def Payload.asText : Payload → List UInt8
  | text buf => buf
  | _ => []

inductive Stat
  | ok (isDir : Bool) (size : ℕ)
  | noent
  | error

-- a collective is entered first and left later: what happens in between is up to the others
inductive IoCall (n : ℕ)
  | stat (path : String)
  | fopen (path : String)
  | enter (op : Collective n) (data : Payload)
  | leaveBcast
  | leaveOpen (path : String)
  | leaveReadAll (chunk : ℕ)
  | leaveClose
  | readString (s : Pointer)
  | getVar (name : String)
  | setVar (name : String) (v : CString)

abbrev IoCall.Ret {n : ℕ} : IoCall n → Type
  | .stat _ => Stat
  | .fopen _ | .leaveOpen _ => Bool
  | .enter .. | .leaveClose | .setVar .. => Unit
  | .leaveBcast => Payload
  | .leaveReadAll _ => ℕ
  | .readString _ => CString
  | .getVar _ => Pointer

variable {n : ℕ}

abbrev Io (n : ℕ) : Type → Type := Prog (IoCall n) IoCall.Ret

abbrev ask (c : IoCall n) : Io n c.Ret := .call c .done

abbrev stat (path : String) : Io n Stat := ask (.stat path)
abbrev fopen (path : String) : Io n Bool := ask (.fopen path)
abbrev enter (op : Collective n) (data : Payload) : Io n Unit := ask (.enter op data)
abbrev leaveBcast : Io n Payload := ask .leaveBcast
abbrev readString (s : Pointer) : Io n CString := ask (.readString s)
abbrev tclGetVar (name : String) : Io n Pointer := ask (.getVar name)
abbrev tclSetVar (name : String) (v : CString) : Io n Unit := ask (.setVar name v)

def mpiBcast (data : Payload) (root : Rank n) : Io n Payload := do
  enter (.bcast root) data
  leaveBcast

def mpiFileOpen (path : String) : Io n Bool := do
  enter .fileOpen .none
  ask (.leaveOpen path)

def mpiFileReadAll (chunk : ℕ) : Io n ℕ := do
  enter .fileReadAll .none
  ask (.leaveReadAll chunk)

def mpiFileClose : Io n Unit := do
  enter .fileClose .none
  ask .leaveClose

/-! ### Broadcasting a string -/

def intMax : ℕ := 2 ^ 31 - 1

structure Bcast where
  result : Bool
  s : Pointer
  length : ℕ

def turbineIoBcast (rank : Rank n) (s : Pointer) : Io n Bcast :=
  if rank = 0 then do
    let text ← readString s
    let size := text.chars.length + 1
    if size > intMax then pure ⟨false, s, 0⟩
    else do
      let _ ← mpiBcast (.number size) 0
      let _ ← mpiBcast (.text text.buffer) 0
      pure ⟨true, s, size - 1⟩
  else do
    let bytes ← mpiBcast .none 0
    let buf ← mpiBcast .none 0
    pure ⟨true, some (.ofBuffer (buf.asText.take bytes.asNumber)), bytes.asNumber - 1⟩

def bcastPointer (rank root : Rank n) (name : String) : Io n Pointer :=
  if rank = root then tclGetVar name else pure none

def returnString (rank root : Rank n) (name : String) (s : Pointer) : Io n Unit :=
  if rank ≠ root then do
    let v ← readString s
    tclSetVar name v
  else pure ()

-- the result of the broadcast is not looked at
def turbineBcastCmd (rank root : Rank n) (name : String) : Io n Unit := do
  let s ← bcastPointer rank root name
  let r ← turbineIoBcast rank s
  returnString rank root name r.s

/-! ### Copying a file -/

@[irreducible] def chunkMax : ℕ := 40 * 1024 * 1024

def bcastSize (rank : Rank n) (filename : String) : Io n (Option ℕ) :=
  if rank = 0 then do
    match ← stat filename with
    | .ok _ size => do
      let _ ← mpiBcast (.number size) 0
      pure (some size)
    | _ => pure none
  else do
    let size ← mpiBcast .none 0
    pure (some size.asNumber)

variable (basename : String → String)

-- the path to open, unless the destination cannot be looked at
def target (nameIn nameOut : String) : Stat → Option String
  | .ok isDir _ => some (if isDir then nameOut ++ "/" ++ basename nameIn else nameOut)
  | .noent => some nameOut
  | .error => none

def copyDestination (nameIn nameOut : String) : Io n Bool := do
  match target basename nameIn nameOut (← stat nameOut) with
  | none => pure false
  | some path => fopen path

def copyChunks (fileSize total : ℕ) : Io n Unit :=
  if total < fileSize then do
    let chunk := min chunkMax (fileSize - total)
    -- the assertion that follows has the count that was read equal to the chunk
    let _ ← mpiFileReadAll chunk
    copyChunks fileSize (total + chunk)
  else pure ()
termination_by fileSize - total
decreasing_by
  have hmax : 0 < chunkMax := by simp [chunkMax]
  omega

def copyOpened (nameIn nameOut : String) (fileSize : ℕ) : Io n Bool := do
  let fdOut ← copyDestination basename nameIn nameOut
  if fdOut then do
    copyChunks fileSize 0
    mpiFileClose
    pure true
  else pure false

def turbineIoCopyTo (rank : Rank n) (nameIn nameOut : String) : Io n Bool := do
  match ← bcastSize rank nameIn with
  | none => pure false
  | some fileSize => do
    let fdIn ← mpiFileOpen nameIn
    if fdIn then copyOpened basename nameIn nameOut fileSize else pure false

/-! ### The communicator -/

/-- What one rank finds in its file system. -/
structure Node where
  stat : String → Stat
  fopens : String → Bool
  mpiOpens : String → Bool

/-- The collectives that each rank has entered so far, and its Tcl variables. -/
structure Comm (n : ℕ) where
  entered : Rank n → List (Collective n × Payload)
  vars : Rank n → String → Pointer

def Comm.enter (s : Comm n) (i : Rank n) (op : Collective n) (data : Payload) : Comm n :=
  { s with entered := Function.update s.entered i (s.entered i ++ [(op, data)]) }

def Comm.setVar (s : Comm n) (i : Rank n) (name : String) (v : CString) : Comm n :=
  { s with vars := Function.update s.vars i (Function.update (s.vars i) name (some v)) }

@[simp] lemma enter_self (s : Comm n) (i : Rank n) (op : Collective n) (data : Payload) :
    (s.enter i op data).entered i = s.entered i ++ [(op, data)] := Function.update_self ..

lemma enter_of_ne (s : Comm n) {i j : Rank n} (op : Collective n) (data : Payload) (hj : j ≠ i) :
    (s.enter i op data).entered j = s.entered j := Function.update_of_ne hj ..

@[simp] lemma setVar_self (s : Comm n) (i : Rank n) (name : String) (v : CString) :
    (s.setVar i name v).vars i = Function.update (s.vars i) name (some v) :=
  Function.update_self ..

lemma setVar_of_ne (s : Comm n) {i j : Rank n} (name : String) (v : CString) (hj : j ≠ i) :
    (s.setVar i name v).vars j = s.vars j := Function.update_of_ne hj ..

-- a broadcast is left as soon as the root has entered it, which has to be its collective of the
-- same number; of the others MPI does not promise that they wait for anyone
inductive Reply (nodes : Rank n → Node) : Comm n → Rank n → (c : IoCall n) → c.Ret → Comm n → Prop
  | stat {s i path} : Reply nodes s i (.stat path) ((nodes i).stat path) s
  | fopen {s i path} : Reply nodes s i (.fopen path) ((nodes i).fopens path) s
  | enter {s i op data} : Reply nodes s i (.enter op data) () (s.enter i op data)
  | leaveBcast {s i root es own data} : s.entered i = es ++ [(.bcast root, own)] →
      (s.entered root)[es.length]? = some (.bcast root, data) →
      Reply nodes s i .leaveBcast data s
  | leaveOpen {s i path} : Reply nodes s i (.leaveOpen path) ((nodes i).mpiOpens path) s
  | leaveReadAll {s i chunk} : Reply nodes s i (.leaveReadAll chunk) chunk s
  | leaveClose {s i} : Reply nodes s i .leaveClose () s
  | readString {s i v} : Reply nodes s i (.readString (some v)) v s
  | readGarbage {s i v} : Reply nodes s i (.readString none) v s
  | getVar {s i name} : Reply nodes s i (.getVar name) (s.vars i name) s
  | setVar {s i name v} : Reply nodes s i (.setVar name v) () (s.setVar i name v)

def comm (nodes : Rank n → Node) : World (Comm n) (Rank n × IoCall n) fun c => c.2.Ret where
  reply s c r s' := Reply nodes s c.1 c.2 r s'

def start (vars : Rank n → String → Pointer) : Comm n := ⟨fun _ => [], vars⟩

end Turbine.Mpi
