import Turbine.Library.Interleaving

/-! Waiting for containers and for what their members refer to: `deeprule` and the rules that it
leaves behind, the server that releases them, and the clients that run them. -/

namespace Turbine.DeepWait

open Turbine.Library.Programs Turbine.Library.Interleaving

/-- Data that are closed by other tasks, and the void variables allocated while waiting. -/
inductive Td
  | data (d : ℕ)
  | signal (s : ℕ)
  deriving DecidableEq

-- a file handle is a dictionary with the fields `file` and `is_mapped`
inductive Value
  | td (d : ℕ)
  | scalar (text : String)
  | dict (fields : List (String × Value))

inductive BaseType
  | ref
  | fileRef
  | scalar (name : String)
  | struct (fieldPaths : List (List String)) (nestLevels : List ℤ) (baseTypes : List BaseType)
  | structRef (fieldPaths : List (List String)) (nestLevels : List ℤ) (baseTypes : List BaseType)

/-- The action given to `deeprule`: that of its user, or the signal for a struct. -/
inductive UserAction
  | user
  | fireSignal (signal : ℕ)

/-- The actions of rules. Of a container that is not counted yet the size is `none`, the source's
`-1`. -/
inductive Action
  | storeVoid (signal : ℕ)
  | containerDeepWaitIterate (container progress : ℕ) (n : Option ℕ) (nestLevel : ℤ)
      (baseType : BaseType) (signal : ℕ) (allocatedSignals : List ℕ)
  | containerRecDeepWait (container : ℕ) (nestLevel : ℤ) (baseType : BaseType) (signal : ℕ)
  | deepruleFireSignal (innerSignals : List ℕ) (signal : ℕ)
  | structRefRecDeepWaitReady (input : ℕ) (type : BaseType) (signal : ℕ)
  | deepruleAction (allocatedSignals : List ℕ) (action : UserAction)

inductive Call
  | allocateVoid
  | rule (inputs : List Td) (action : Action)
  | storeVoid (signal : ℕ)
  | readRefcountDecr (signal : ℕ)
  | closed (td : Td)
  | containerSize (container : ℕ)
  | enumerate (container : ℕ) (count : Option ℕ) (offset : ℕ)
  | retrieveStruct (input : ℕ)
  | evalUser
  | getTask
  | close (d : ℕ)

abbrev Call.Ret : Call → Type
  | .allocateVoid | .containerSize _ => ℕ
  | .storeVoid _ | .readRefcountDecr _ | .closed _ => Bool
  | .enumerate .. => List Value
  | .retrieveStruct _ => Value
  | .getTask => Action
  | .rule .. | .evalUser | .close _ => Unit

abbrev Client : Type → Type := ExceptT String (Prog Call Call.Ret)

def call (c : Call) : Client c.Ret := ExceptT.lift (.call c .done)

abbrev allocateVoid : Client ℕ := call .allocateVoid
abbrev rule (inputs : List Td) (action : Action) : Client Unit := call (.rule inputs action)
abbrev adlbClosed (td : Td) : Client Bool := call (.closed td)
abbrev adlbContainerSize (container : ℕ) : Client ℕ := call (.containerSize container)
abbrev adlbEnumerate (container : ℕ) (count : Option ℕ) (offset : ℕ) : Client (List Value) :=
  call (.enumerate container count offset)
abbrev retrieveStruct (input : ℕ) : Client Value := call (.retrieveStruct input)
abbrev evalUser : Client Unit := call .evalUser
abbrev getTask : Client Action := call .getTask
abbrev close (d : ℕ) : Client Unit := call (.close d)

def storeVoid (signal : ℕ) : Client Unit := do
  let stored ← call (.storeVoid signal)
  if stored then pure () else throw s!"<{signal}>[\"\"], double assign!"

-- a failed change of reference counts has no message
def readRefcountDecr (signal : ℕ) : Client Unit := do
  let decremented ← call (.readRefcountDecr signal)
  if decremented then pure () else throw ""

def ofExcept {α : Type} : Except String α → Client α
  | .ok a => pure a
  | .error msg => throw msg

def check (condition : Bool) (msg : String) : Client Unit :=
  if condition then pure () else throw msg

def dictGet : Value → List String → Except String Value
  | value, [] => .ok value
  | .dict fields, key :: path =>
    match fields.lookup key with
    | some value => dictGet value path
    | none => .error s!"key \"{key}\" not known in dictionary"
  | _, _ :: _ => .error "missing value to go with key"

-- what is to be waited for has to be the id of a datum
def asTd : Value → Except String ℕ
  | .td d => .ok d
  | _ => .error "could not parse inputs list as ids or id/subscript pairs"

def getFileStatus (fileHandle : Value) : Except String ℕ := do
  asTd (← dictGet fileHandle ["file"])

/-! ### The procedures -/

/-- `struct_ref_rec_deep_wait`: the signal to wait for, and the allocated signals. -/
def structRefRecDeepWait (input : ℕ) (fieldPaths : List (List String)) (type : BaseType)
    (allocatedSignals : List ℕ) : Client (Td × List ℕ) :=
  if fieldPaths.length = 0 then pure (.data input, allocatedSignals)
  else do
    let signal ← allocateVoid
    rule [.data input] (.structRefRecDeepWaitReady input type signal)
    pure (.signal signal, allocatedSignals ++ [signal])

-- `deeprule_struct_signal` first reads a variable that is never set
def deepruleStructSignal (_baseType : BaseType) (_input : Value) : Client (Option ℕ) :=
  throw "can't read \"type\": no such variable"

def deepruleBasetypeSignal (baseType : BaseType) (input : Value) (allocatedSignals : List ℕ) :
    Client (Option Td × List ℕ) :=
  match baseType with
  | .fileRef => do
    let status ← ofExcept (getFileStatus input)
    pure (some (.data status), allocatedSignals)
  | .ref => do
    let td ← ofExcept (asTd input)
    pure (some (.data td), allocatedSignals)
  | .struct .. => do
    let signal ← deepruleStructSignal baseType input
    pure (signal.map .signal, allocatedSignals ++ signal.toList)
  | .structRef fieldPaths _ _ => do
    let td ← ofExcept (asTd input)
    let (signal, allocatedSignals) ← structRefRecDeepWait td fieldPaths baseType allocatedSignals
    pure (some signal, allocatedSignals)
  | .scalar _ => pure (none, allocatedSignals)

def containerDeepWait (container : ℕ) (nestLevel : ℤ) (baseType : BaseType) (signal : ℕ) :
    Client Unit :=
  rule [.data container] <|
    if nestLevel = 1 then
      match baseType with
      | .scalar _ => .storeVoid signal
      | _ => .containerDeepWaitIterate container 0 none nestLevel baseType signal []
    else .containerRecDeepWait container nestLevel baseType signal

/-- The inputs that are left, with their nest levels and base types; what `deeprule` is then to
wait for, and what it allocated. -/
def deepruleSignals : List (Value × ℤ × BaseType) → List Td → List ℕ → Client (List Td × List ℕ)
  | [], signals, allocatedSignals => pure (signals, allocatedSignals)
  | (input, nestLevel, baseType) :: inputs, signals, allocatedSignals => do
    check (0 ≤ nestLevel) s!"deeprule: negative nest_level: {nestLevel}"
    if nestLevel = 0 then
      let (signal, allocatedSignals) ← deepruleBasetypeSignal baseType input allocatedSignals
      deepruleSignals inputs (signals ++ signal.toList) allocatedSignals
    else
      let signal ← allocateVoid
      let container ← ofExcept (asTd input)
      containerDeepWait container nestLevel baseType signal
      deepruleSignals inputs (signals ++ [.signal signal]) (allocatedSignals ++ [signal])

def deeprule (inputs : List Value) (nestLevels : List ℤ) (baseTypes : List BaseType)
    (action : UserAction) : Client Unit := do
  check (inputs.length = nestLevels.length)
    "deeprule: list lengths do not agree: inputs and nest_levels"
  check (inputs.length = baseTypes.length)
    "deeprule: list lengths do not agree: inputs and base_types"
  let (signals, allocatedSignals) ← deepruleSignals (inputs.zip (nestLevels.zip baseTypes)) [] []
  rule signals (.deepruleAction allocatedSignals action)

def maxChunkSize : ℕ := 64

def freeAllocatedSignals : List ℕ → Client Unit
  | [] => pure ()
  | signal :: signals => do
    readRefcountDecr signal
    freeAllocatedSignals signals

/-- Whether a member needs no waiting: it has no signal or its signal is closed. -/
def needsNoWait : Option Td → Client Bool
  | none => pure true
  | some signal => adlbClosed signal

/-- The members of one chunk: the progress after all of them, or `none` after a suspension. -/
def iterateMembers (container n : ℕ) (nestLevel : ℤ) (baseType : BaseType) (signal : ℕ) :
    List Value → ℕ → Client (Option ℕ)
  | [], progress => pure (some progress)
  | member :: members, progress => do
    let (memberSignal, allocatedSignals) ← deepruleBasetypeSignal baseType member []
    if ← needsNoWait memberSignal then
      freeAllocatedSignals allocatedSignals
      iterateMembers container n nestLevel baseType signal members (progress + 1)
    else
      rule memberSignal.toList (.containerDeepWaitIterate container progress (some n) nestLevel
        baseType signal allocatedSignals)
      pure none

-- every chunk of a closed container makes progress, so the rounds never run out
def iterateChunks (container n : ℕ) (nestLevel : ℤ) (baseType : BaseType) (signal : ℕ) :
    ℕ → ℕ → Client Unit
  | rounds, progress =>
    if progress < n then
      match rounds with
      | 0 => throw "out of rounds"
      | rounds + 1 => do
        let chunkSize := min maxChunkSize (n - progress)
        let members ← adlbEnumerate container (some chunkSize) progress
        match ← iterateMembers container n nestLevel baseType signal members progress with
        | none => pure ()
        | some progress => iterateChunks container n nestLevel baseType signal rounds progress
    else storeVoid signal

def containerSizeOr (container : ℕ) : Option ℕ → Client ℕ
  | none => adlbContainerSize container
  | some n => pure n

def containerDeepWaitIterate (container progress : ℕ) (n : Option ℕ) (nestLevel : ℤ)
    (baseType : BaseType) (signal : ℕ) (allocatedSignals : List ℕ) : Client Unit := do
  let n ← containerSizeOr container n
  freeAllocatedSignals allocatedSignals
  iterateChunks container n nestLevel baseType signal (n - progress) progress

-- the members of a container of more than one each get a signal of their own
def waitForMembers (nestLevel : ℤ) (baseType : BaseType) : List Value → Client (List ℕ)
  | [] => pure []
  | inner :: members => do
    let innerSignal ← allocateVoid
    let container ← ofExcept (asTd inner)
    containerDeepWait container (nestLevel - 1) baseType innerSignal
    let innerSignals ← waitForMembers nestLevel baseType members
    pure (innerSignal :: innerSignals)

def containerRecDeepWait (container : ℕ) (nestLevel : ℤ) (baseType : BaseType) (signal : ℕ) :
    Client Unit := do
  let members ← adlbEnumerate container none 0
  match members with
  | [] => storeVoid signal
  | [inner] => do
    let container ← ofExcept (asTd inner)
    containerDeepWait container (nestLevel - 1) baseType signal
  | _ => do
    let innerSignals ← waitForMembers nestLevel baseType members
    rule (innerSignals.map .signal) (.deepruleFireSignal innerSignals signal)

def deepruleFinish (signals : List ℕ) : Client Unit := freeAllocatedSignals signals

def deepruleFireSignal (innerSignals : List ℕ) (signal : ℕ) : Client Unit := do
  deepruleFinish innerSignals
  storeVoid signal

def evalAction : UserAction → Client Unit
  | .user => evalUser
  | .fireSignal signal => deepruleFireSignal [] signal

def deepruleAction (allocatedSignals : List ℕ) (action : UserAction) : Client Unit := do
  deepruleFinish allocatedSignals
  evalAction action

def fieldValues (value : Value) : List (List String) → Except String (List Value)
  | [] => .ok []
  | path :: paths => do
    let field ← dictGet value path
    let fields ← fieldValues value paths
    pure (field :: fields)

-- only the types of structs have fields to follow
def structRecDeepWait (value : Value) (type : BaseType) (signal : ℕ) : Client Unit :=
  match type with
  | .struct fieldPaths nestLevels baseTypes | .structRef fieldPaths nestLevels baseTypes => do
    let values ← ofExcept (fieldValues value fieldPaths)
    deeprule values nestLevels baseTypes (.fireSignal signal)
  | _ => deeprule [] [] [] (.fireSignal signal)

def structRefRecDeepWaitReady (input : ℕ) (type : BaseType) (signal : ℕ) : Client Unit := do
  let value ← retrieveStruct input
  structRecDeepWait value type signal

def Action.run : Action → Client Unit
  | .storeVoid signal => DeepWait.storeVoid signal
  | .containerDeepWaitIterate container progress n nestLevel baseType signal allocatedSignals =>
    DeepWait.containerDeepWaitIterate container progress n nestLevel baseType signal
      allocatedSignals
  | .containerRecDeepWait container nestLevel baseType signal =>
    DeepWait.containerRecDeepWait container nestLevel baseType signal
  | .deepruleFireSignal innerSignals signal => DeepWait.deepruleFireSignal innerSignals signal
  | .structRefRecDeepWaitReady input type signal =>
    DeepWait.structRefRecDeepWaitReady input type signal
  | .deepruleAction allocatedSignals action => DeepWait.deepruleAction allocatedSignals action

/-! ### The clients -/

/-- What a client does besides: it closes data, or runs the action of a rule. -/
inductive Step
  | close (d : ℕ)
  | task

def script : List Step → Client Unit
  | [] => pure ()
  | .close d :: steps => do
    close d
    script steps
  | .task :: steps => do
    let action ← getTask
    action.run
    script steps

variable {ι : Type} [DecidableEq ι]

/-- One client, `caller`, starts with `body`. -/
def clients (body : Client Unit) (caller : ι) (scripts : ι → List Step) (i : ι) :
    Prog Call Call.Ret (Except String Unit) :=
  if i = caller then (do body; script (scripts i) : Client Unit).run else (script (scripts i)).run

/-! ### The server -/

-- what is to be done once: stores and releases of signals, and the action of the user
inductive Duty
  | store (signal : ℕ)
  | release (signal : ℕ)
  | eval
  deriving DecidableEq

structure Rule where
  inputs : List Td
  action : Action

/-- The rules that wait, the actions of all rules so far, and what has been done. -/
structure Server where
  closedData : ℕ → Bool
  next : ℕ
  rules : List Rule
  posted : List Action
  done : List Duty

def start (closedData : ℕ → Bool) : Server where
  closedData := closedData
  next := 0
  rules := []
  posted := []
  done := []

def Server.closed (s : Server) : Td → Bool
  | .data d => s.closedData d
  | .signal signal => Duty.store signal ∈ s.done

def Server.Ready (s : Server) (r : Rule) : Prop := ∀ td ∈ r.inputs, s.closed td = true

instance (s : Server) (r : Rule) : Decidable (s.Ready r) := by
  unfold Server.Ready
  infer_instance

def Server.perform (s : Server) (d : Duty) : Server := { s with done := d :: s.done }

def Server.allocate (s : Server) : Server := { s with next := s.next + 1 }

def Server.post (s : Server) (r : Rule) : Server :=
  { s with rules := s.rules ++ [r], posted := s.posted ++ [r.action] }

def Server.close (s : Server) (d : ℕ) : Server :=
  { s with closedData := Function.update s.closedData d true }

/-- The members of the containers once these are closed, and the structs. -/
structure Contents where
  members : ℕ → List Value
  struct : ℕ → Value

def slice (members : List Value) : Option ℕ → ℕ → List Value
  | none, offset => members.drop offset
  | some count, offset => (members.drop offset).take count

/-- The server's answers. What an open datum contains is not fixed, and what is done twice
is refused. -/
inductive Reply (D : Contents) : Server → (c : Call) → c.Ret → Server → Prop
  | allocateVoid {s} : Reply D s .allocateVoid s.next s.allocate
  | rule {s inputs action} : Reply D s (.rule inputs action) () (s.post ⟨inputs, action⟩)
  | storeVoid {s signal} :
      Reply D s (.storeVoid signal) (Duty.store signal ∉ s.done) (s.perform (.store signal))
  | readRefcountDecr {s signal} : Reply D s (.readRefcountDecr signal)
      (Duty.release signal ∉ s.done) (s.perform (.release signal))
  | closed {s td} : Reply D s (.closed td) (s.closed td) s
  | containerSize {s container n} :
      (s.closedData container = true → n = (D.members container).length) →
      Reply D s (.containerSize container) n s
  | enumerate {s container count offset members} :
      (s.closedData container = true → members = slice (D.members container) count offset) →
      Reply D s (.enumerate container count offset) members s
  | retrieveStruct {s input value} : (s.closedData input = true → value = D.struct input) →
      Reply D s (.retrieveStruct input) value s
  | evalUser {s} : Reply D s .evalUser () (s.perform .eval)
  | getTask {s before r after} : s.rules = before ++ r :: after → s.Ready r →
      Reply D s .getTask r.action { s with rules := before ++ after }
  | close {s d} : Reply D s (.close d) () (s.close d)

def server (D : Contents) : World Server (ι × Call) fun c => c.2.Ret where
  reply s c r s' := Reply D s c.2 r s'

end Turbine.DeepWait
