import Mathlib
import Turbine.Library.Programs

/-! The asynchronous worker: its ring of get requests, the tasks it launches, the callbacks of
the tasks that complete, and the Tcl command that runs it. -/

namespace Turbine.Async

open Turbine.Library.Programs

inductive AdlbCode | success | error | nothing | shutdown
  deriving DecidableEq

-- `other` stands for `TCL_RETURN`, `TCL_BREAK` and `TCL_CONTINUE`
inductive TclCode | ok | error | other
  deriving DecidableEq

inductive TurbineCode | success | errorExternal | errorUnknown
  deriving DecidableEq

-- `check_tasks` hands on the `turbine_code` of a callback as it is: `turbine` holds such a code
inductive ExecCode | success | shutdown | oom | task | invalid | other | turbine (tc : TurbineCode)
  deriving DecidableEq

-- a `Tcl_Obj *` and an `adlb_get_req` are named by numbers
abbrev Obj := ℕ
abbrev Req := ℕ

structure SlotState where
  used : ℤ
  total : ℤ
  deriving DecidableEq

structure TaskCallbacks where
  success : Option Obj
  failure : Option Obj
  deriving DecidableEq

structure CallbackVar where
  name : String
  freeName : Bool
  val : Obj
  deriving DecidableEq

structure CompletedTask where
  success : Bool
  callbacks : TaskCallbacks
  vars : Option (List CallbackVar)
  deriving DecidableEq

def asyncExecMaxReqs : ℕ := 256
def completedBufferSize : ℕ := 16

/-- `get_req_state`, with `exec->started` beside it. -/
structure Memory (Buf : Type) where
  buffers : ℕ → Buf
  requests : ℕ → Option Req
  maxReqs : ℕ
  nreqs : ℕ
  head : ℕ
  tail : ℕ
  started : Bool

/-- What the worker asks of ADLB, the Tcl interpreter, the executor and the C library. -/
inductive ExecCall (Buf : Type)
  | serviceInit
  | start
  | slots
  | amget (extra : ℕ) (block : Bool) (bufs : List Buf)
  | agetTest (req : Option Req)
  | agetWait (req : Option Req)
  | evalTask (work : Buf) (cmdLen : ℤ)
  | poll (size : ℕ)
  | wait (size : ℕ)
  | setVar (name : String) (val : Obj)
  | evalCallback (cb : Obj)
  | unsetVar (name : String)
  | freeName (name : String)
  | freeVars
  | decrRef (o : Obj)
  | schedYield
  | stop
  | serviceFinalize
  | maxSlots
  | mallocBufs (count : ℕ)
  | mallocPayload (i : ℕ) (size : ℤ)
  | freePayload (i : ℕ)
  | freeBufs

-- `serviceInit` answers whether a service was launched; a wait that answers `ADLB_NOTHING`
-- would fail the assertion that follows it, so its answers are the other three
inductive WaitCode | success | error | shutdown
  deriving DecidableEq

abbrev ExecCall.Ret {Buf : Type} : ExecCall Buf → Type
  | .serviceInit => Bool
  | .start | .stop => ExecCode
  | .slots => ExecCode × SlotState
  | .amget .. => AdlbCode × List Req
  | .agetTest _ => AdlbCode × ℤ
  | .agetWait _ => WaitCode × ℤ
  | .evalTask .. => TclCode
  | .poll _ | .wait _ => ExecCode × List CompletedTask
  | .setVar .. | .mallocBufs _ | .mallocPayload .. => Bool
  | .evalCallback _ | .unsetVar _ => TclCode
  | .maxSlots => ExecCode × ℤ
  | .freeName _ | .freeVars | .decrRef _ | .schedYield | .serviceFinalize | .freePayload _
  | .freeBufs => Unit

abbrev Worker (Buf : Type) : Type → Type := Code (Memory Buf) (ExecCall Buf) ExecCall.Ret

variable {Buf : Type}

def WaitCode.toAdlb : WaitCode → AdlbCode
  | .success => .success
  | .error => .error
  | .shutdown => .shutdown

/-! ### The calls, with the types of their answers -/

abbrev ask (c : ExecCall Buf) : Worker Buf c.Ret := Code.ask c

abbrev callService : Worker Buf Bool := ask .serviceInit
abbrev execStart : Worker Buf ExecCode := ask .start
abbrev execStop : Worker Buf ExecCode := ask .stop
abbrev execSlots : Worker Buf (ExecCode × SlotState) := ask .slots
abbrev execPoll : Worker Buf (ExecCode × List CompletedTask) := ask (.poll completedBufferSize)
abbrev execWait : Worker Buf (ExecCode × List CompletedTask) := ask (.wait completedBufferSize)
abbrev execMaxSlots : Worker Buf (ExecCode × ℤ) := ask .maxSlots
abbrev adlbAmget (extra : ℕ) (block : Bool) (bufs : List Buf) : Worker Buf (AdlbCode × List Req) :=
  ask (.amget extra block bufs)
abbrev adlbAgetTest (req : Option Req) : Worker Buf (AdlbCode × ℤ) := ask (.agetTest req)
abbrev adlbAgetWait (req : Option Req) : Worker Buf (WaitCode × ℤ) := ask (.agetWait req)
abbrev tclEval (work : Buf) (cmdLen : ℤ) : Worker Buf TclCode := ask (.evalTask work cmdLen)
abbrev tclEvalObj (cb : Obj) : Worker Buf TclCode := ask (.evalCallback cb)
abbrev tclSetVar (name : String) (val : Obj) : Worker Buf Bool := ask (.setVar name val)
abbrev tclUnsetVar (name : String) : Worker Buf TclCode := ask (.unsetVar name)
abbrev tclDecrRefCount (o : Obj) : Worker Buf Unit := ask (.decrRef o)
abbrev schedYield : Worker Buf Unit := ask .schedYield
abbrev turbineServiceFinalize : Worker Buf Unit := ask .serviceFinalize
abbrev freeName (name : String) : Worker Buf Unit := ask (.freeName name)
abbrev freeVars : Worker Buf Unit := ask .freeVars
abbrev mallocBufs (count : ℕ) : Worker Buf Bool := ask (.mallocBufs count)
abbrev mallocPayload (i : ℕ) (size : ℤ) : Worker Buf Bool := ask (.mallocPayload i size)
abbrev freePayload (i : ℕ) : Worker Buf Unit := ask (.freePayload i)
abbrev freeBufs : Worker Buf Unit := ask .freeBufs

/-! ### Getting tasks -/

def Memory.tmpBufs (m : Memory Buf) (extra : ℕ) : List Buf :=
  (List.range extra).map fun i => m.buffers ((m.head + i) % m.maxReqs)

def Memory.storeRequests (m : Memory Buf) : List Req → Memory Buf
  | [] => m
  | req :: reqs => storeRequests
      { m with requests := Function.update m.requests m.head (some req)
               head := (m.head + 1) % m.maxReqs } reqs

def Memory.advanceTail (m : Memory Buf) : Memory Buf :=
  { m with tail := (m.tail + 1) % m.maxReqs, nreqs := m.nreqs - 1 }

-- whether the requests could be issued
def issue (extraReqs : ℤ) (poll : Bool) : Worker Buf Bool :=
  if extraReqs > 0 then do
    let m ← get
    let block := !poll && m.nreqs == 0
    let (ac, tmpReqs) ← adlbAmget extraReqs.toNat block (m.tmpBufs extraReqs.toNat)
    if ac = .error then pure false
    else do
      modify fun m => { m.storeRequests tmpReqs with nreqs := m.nreqs + extraReqs.toNat }
      pure true
  else pure true

def checkRequest (poll : Bool) : Worker Buf (AdlbCode × ℤ) := do
  let m ← get
  let req := m.requests m.tail
  if poll then adlbAgetTest req
  else do
    let (ac, workLen) ← adlbAgetWait req
    pure (ac.toAdlb, workLen)

-- the code to return, or `none` when the task ran and the loop goes on
def runRequest (workLen : ℤ) : AdlbCode → Worker Buf (Option ExecCode)
  | .error => pure (some .other)
  | .shutdown => pure (some .shutdown)
  | .nothing => pure (some .success)
  | .success => do
    let m ← get
    let cmdLen := workLen - 1
    let rc ← tclEval (m.buffers m.tail) cmdLen
    if rc ≠ .ok then pure (some .task)
    else do
      modify Memory.advanceTail
      pure none

-- the number counts the outstanding requests, so the loop goes round while `reqs->nreqs > 0`
def drain : ℕ → Bool → Bool → Worker Buf (ExecCode × Bool)
  | 0, _, gotTasks => pure (.success, gotTasks)
  | n + 1, poll, gotTasks => do
    let (ac, workLen) ← checkRequest poll
    match ← runRequest workLen ac with
    | some ec => pure (ec, gotTasks)
    | none => drain n true true

def getTasks (poll : Bool) (maxTasks : ℤ) (gotTasks : Bool) : Worker Buf (ExecCode × Bool) := do
  let m ← get
  let desiredReqs := min maxTasks m.maxReqs
  let issued ← issue (desiredReqs - m.nreqs) poll
  if !issued then pure (.other, gotTasks)
  else do
    let m ← get
    drain m.nreqs poll false

/-! ### Completed tasks -/

def setVars : List CallbackVar → Worker Buf Bool
  | [] => pure true
  | var :: vars => do
    let set ← tclSetVar var.name var.val
    if !set then pure false else setVars vars

def unsetVar (evaluated : Bool) (var : CallbackVar) : Worker Buf TclCode :=
  if evaluated then tclUnsetVar var.name else pure .ok

def freeVarName (var : CallbackVar) : Worker Buf Unit :=
  if var.freeName then freeName var.name else pure ()

def unsetVars (evaluated : Bool) : List CallbackVar → Worker Buf Bool
  | [] => pure true
  | var :: vars => do
    let rc ← unsetVar evaluated var
    if rc ≠ .ok then pure false
    else do
      freeVarName var
      unsetVars evaluated vars

def freeVarsOf (task : CompletedTask) : Worker Buf Unit :=
  if task.vars.isSome then freeVars else pure ()

-- the label `cleanup` of `run_callback`
def cleanup (task : CompletedTask) (evaluated : Bool) (tc : TurbineCode) :
    Worker Buf TurbineCode := do
  let unset ← unsetVars evaluated (task.vars.getD [])
  if !unset then pure .errorUnknown
  else do
    freeVarsOf task
    pure tc

def runCallback (task : CompletedTask) : Option Obj → Worker Buf TurbineCode
  | none => cleanup task false .success
  | some cb => do
    let set ← setVars (task.vars.getD [])
    if !set then pure .errorUnknown
    else do
      let rc ← tclEvalObj cb
      if rc ≠ .ok then cleanup task true .errorExternal
      else cleanup task true .success

def decrRefCount : Option Obj → Worker Buf Unit
  | none => pure ()
  | some o => tclDecrRefCount o

def CompletedTask.cb (task : CompletedTask) : Option Obj :=
  if task.success then task.callbacks.success else task.callbacks.failure

-- the loop of `check_tasks` over the batch
def runCallbacks : List CompletedTask → Worker Buf ExecCode
  | [] => pure .success
  | task :: tasks => do
    let tc ← runCallback task task.cb
    if tc ≠ .success then pure (.turbine tc)
    else do
      decrRefCount task.callbacks.success
      decrRefCount task.callbacks.failure
      runCallbacks tasks

def completedTasks (poll : Bool) : Worker Buf (ExecCode × List CompletedTask) :=
  if poll then execPoll else execWait

def checkTasks (poll : Bool) : Worker Buf ExecCode := do
  let (ec, completed) ← completedTasks poll
  if ec ≠ .success then pure ec else runCallbacks completed

/-! ### The worker loop -/

def getTasksIfFree (slots : SlotState) : Worker Buf (ExecCode × Bool) :=
  if slots.used < slots.total then
    getTasks (decide (slots.used ≠ 0)) (slots.total - slots.used) false
  else pure (.success, false)

def checkTasksIfUsed (slots : SlotState) : Worker Buf ExecCode :=
  if slots.used > 0 then checkTasks (decide (slots.used < slots.total)) else pure .success

def yieldUnless (somethingHappened : Bool) : Worker Buf Unit :=
  if somethingHappened then pure () else schedYield

-- a turn of the loop ends by going round again, by `break`, or by returning a code
def workerTurn : Unit → Worker Buf (Unit ⊕ Option TurbineCode)
  | () => do
    let (ec, slots) ← execSlots
    if ec ≠ .success then pure (.inr (some .errorExternal))
    else do
      let (ec, somethingHappened) ← getTasksIfFree slots
      if ec = .shutdown then pure (.inr none)
      else if ec ≠ .success then pure (.inr (some .errorExternal))
      else do
        let (ec, slots) ← execSlots
        if ec ≠ .success then pure (.inr (some .errorExternal))
        else do
          let ec ← checkTasksIfUsed slots
          if ec ≠ .success then pure (.inr (some .errorExternal))
          else do
            yieldUnless somethingHappened
            pure (.inl ())

def turbineServiceInit : Worker Buf TurbineCode := do
  let _launched ← callService
  pure .success

def startExecutor (mustStart : Bool) : Worker Buf Bool :=
  if mustStart then do
    let ec ← execStart
    if ec ≠ .success then pure false
    else do
      modify fun m => { m with started := true }
      pure true
  else pure true

-- `stop_executors` only prints a message when the executor fails to stop
def stopExecutor (mustStart : Bool) : Worker Buf Unit :=
  if mustStart then do
    let _ec ← execStop
    modify fun m => { m with started := false }
  else pure ()

def Memory.initReqs (m : Memory Buf) (payloadBuffers : ℕ → Buf) (nbuffers : ℕ) : Memory Buf :=
  { m with buffers := payloadBuffers, requests := fun _ => none, maxReqs := nbuffers
           nreqs := 0, head := 0, tail := 0 }

/-- `none` while the loop has not ended after `n` turns, or when the assertion on `nbuffers`
fails. -/
def asyncWorkerLoop (payloadBuffers : ℕ → Buf) (nbuffers n : ℕ) :
    Worker Buf (Option TurbineCode) := do
  if nbuffers < 1 then pure none
  else do
    let tc ← turbineServiceInit
    if tc ≠ .success then pure (some tc)
    else do
      modify fun m => m.initReqs payloadBuffers (min nbuffers asyncExecMaxReqs)
      let m ← get
      let mustStart := !m.started
      let running ← startExecutor mustStart
      if !running then pure (some .errorExternal)
      else do
        match ← Code.loop workerTurn n () with
        | none => pure none
        | some (some tc) => pure (some tc)
        | some none => do
          stopExecutor mustStart
          turbineServiceFinalize
          pure (some .success)

/-! ### The Tcl command -/

def defaultBufferCount : ℤ := 16

-- `ADLB_XFER_SIZE`, from the headers of ADLB, is a parameter
structure LoopArgs where
  objc : ℕ
  registered : Bool
  workType : Option ℤ
  keywords : Option (List (String × Option ℤ))
  defaultBufferSize : ℤ

def keywordArgs : List (String × Option ℤ) → ℤ × ℤ → Option (ℤ × ℤ)
  | [], sizes => some sizes
  | (key, val) :: rest, (bufferCount, bufferSize) =>
    if key = "buffer_count" then do
      let v ← val
      if v ≥ 0 then keywordArgs rest (v, bufferSize) else none
    else if key = "buffer_size" then do
      let v ← val
      if v ≥ 0 then keywordArgs rest (bufferCount, v) else none
    else none

def workerKeywordArgs (args : LoopArgs) (sizes : ℤ × ℤ) : Option (ℤ × ℤ) :=
  if args.objc ≥ 4 then do
    let dict ← args.keywords
    keywordArgs dict sizes
  else some sizes

def mallocPayloads (size : ℤ) : List ℕ → Worker ℕ Bool
  | [] => pure true
  | i :: is => do
    let ok ← mallocPayload i size
    if !ok then pure false else mallocPayloads size is

def freePayloads : List ℕ → Worker ℕ Unit
  | [] => pure ()
  | i :: is => do
    freePayload i
    freePayloads is

def freeBuffers (count : ℕ) (rc : TclCode) : Worker ℕ (Option TclCode) := do
  freePayloads (List.range count)
  freeBufs
  pure (some rc)

-- the buffers, once their number is known; the payload at index `i` is the buffer `i`
def runWithBuffers (count : ℕ) (size : ℤ) (n : ℕ) : Worker ℕ (Option TclCode) := do
  let bufs ← mallocBufs count
  if !bufs then pure (some .error)
  else do
    let payloads ← mallocPayloads size (List.range count)
    -- `TCL_MALLOC_CHECK_GOTO` leaves `rc` as the last call set it, to `TCL_OK`
    if !payloads then freeBuffers count .ok
    else do
      match ← asyncWorkerLoop id count n with
      | none => pure none
      | some .errorExternal => freeBuffers count .error
      -- `TCL_CONDITION_GOTO` leaves `rc` at `TCL_OK` too
      | some _ => freeBuffers count .ok

def asyncExecWorkerLoopCmd (args : LoopArgs) (n : ℕ) : Worker ℕ (Option TclCode) := do
  if ¬ (args.objc = 3 ∨ args.objc = 4) ∨ args.registered = false ∨ args.workType = none then
    pure (some .error)
  else
    match workerKeywordArgs args (defaultBufferCount, args.defaultBufferSize) with
    | none => pure (some .error)
    | some (bufferCount, bufferSize) => do
      let (ec, maxSlots) ← execMaxSlots
      if ec ≠ .success then pure (some .error)
      else do
        let count := if maxSlots ≥ 1 ∧ maxSlots < bufferCount then maxSlots else bufferCount
        runWithBuffers count.toNat bufferSize n

end Turbine.Async
