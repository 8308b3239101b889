import Turbine.Tcl.Api
import Turbine.Library.Splice

/-! Handles: the id of a datum, with the path of a subscript behind it. The parser compares and
copies pointers, so its buffers live in an explicit memory. -/

namespace Turbine.Handle

open Tcl Library

/-- Where a pointer points: the static buffer `tcl_adlb_scratch`, a block from `malloc`, or the
text of a Tcl object. -/
inductive Place
  | scratch
  | block (n : ℕ)
  | string (s : Bytes)
deriving DecidableEq

/-- A write into a buffer up to `stop`, after `ADLB_Resize_buf` was asked for `requested` bytes. -/
structure BufWrite where
  requested : ℕ
  stop : ℕ

/-- A block that was freed has no contents any more. The list of writes is only recorded: no
function reads it. -/
structure Memory where
  scratch : Bytes
  blocks : List (Option Bytes)
  writes : List BufWrite

structure AdlbBuffer where
  data : Option Place
  length : ℕ

structure AdlbSubscript where
  key : Option Place
  length : ℕ

def adlbNoSub : AdlbSubscript := ⟨none, 0⟩

structure SubParse where
  val : AdlbSubscript
  buf : AdlbBuffer

structure TclAdlbHandle where
  id : Int64
  sub : SubParse

inductive SubscriptKind
  | container
  | struct
deriving DecidableEq

/-- The functions of the ADLB library: `ADLB_Int64_parse` and `ADLB_Resize_buf`. -/
structure HandleLib where
  int64Parse : Bytes → Option Int64
  resizeBuf : Memory → AdlbBuffer → Bool → ℕ → Option (Memory × AdlbBuffer × Bool)

namespace Memory

def read (m : Memory) : Place → Option Bytes
  | .scratch => some m.scratch
  | .block n => m.blocks[n]?.join
  | .string s => some (s ++ [0])

def store (m : Memory) : Place → Bytes → Memory
  | .scratch, b => { m with scratch := b }
  | .block n, b => { m with blocks := m.blocks.set n (some b) }
  | .string _, _ => m

/-- `memcpy (buf->data + pos, new, ..)`: undefined outside the storage that the pointer has. -/
def write (m : Memory) (requested : ℕ) (buf : AdlbBuffer) (pos : ℕ) (new : Bytes) :
    TclResult Memory :=
  match buf.data with
  | none => .undefined
  | some (.string _) => .undefined
  | some p =>
    match m.read p with
    | none => .undefined
    | some old =>
      if pos + new.length ≤ old.length then
        .ok { m.store p (splice old pos new) with
          writes := m.writes ++ [⟨requested, pos + new.length⟩] }
      else .undefined

/-- The bytes of a subscript, where its pointer is still good for that many. -/
def bytes (m : Memory) (sub : AdlbSubscript) : Option Bytes :=
  if sub.length = 0 then some []
  else (sub.key.bind m.read).bind fun b =>
    if sub.length ≤ b.length then some (b.take sub.length) else none

/-- `memcpy (buf->data, sub->key, sub->length)`, unless the key is in the buffer already. -/
def copyKey (m : Memory) (requested : ℕ) (buf : AdlbBuffer) (sub : AdlbSubscript) :
    TclResult Memory :=
  if buf.data = sub.key then .ok m
  else match m.bytes sub with
    | some old => m.write requested buf 0 old
    | none => .undefined

end Memory

def dot : UInt8 := 46

def tclAdlbScratchBuf (m : Memory) : AdlbBuffer := ⟨some .scratch, m.scratch.length⟩

def initialBuf (m : Memory) (useScratch : Bool) : AdlbBuffer :=
  if useScratch then tclAdlbScratchBuf m else ⟨none, 0⟩

variable {Obj D : Type} (lib : HandleLib) (tcl : TclApi Obj D)

def adlbParseStructSubscript (m : Memory) (str : Bytes) (buf : AdlbBuffer) (sub : AdlbSubscript)
    (usingCallerBuf append : Bool) :
    TclResult (Memory × AdlbBuffer × AdlbSubscript × Bool) :=
  if append = true ∧ 0 < sub.length then do
    let requested := sub.length + str.length + 1
    let (m, buf, usingCallerBuf) ←
      TclResult.require (lib.resizeBuf m buf usingCallerBuf requested) "Error expanding buf"
    let m ← m.copyKey requested buf sub
    let m ← m.write requested buf (sub.length - 1) [dot]
    let m ← m.write requested buf sub.length str
    let m ← m.write requested buf str.length [0]
    pure (m, buf, ⟨buf.data, sub.length + (str.length + 1)⟩, usingCallerBuf)
  else do
    let requested := str.length + 1
    let (m, buf, usingCallerBuf) ←
      TclResult.require (lib.resizeBuf m buf usingCallerBuf requested) "Error expanding buf"
    let m ← m.write requested buf 0 str
    let m ← m.write requested buf str.length [0]
    pure (m, buf, ⟨buf.data, str.length + 1⟩, usingCallerBuf)

def appendSubscript (m : Memory) (sub toAppend : AdlbSubscript) (buf : AdlbBuffer) :
    TclResult (Memory × AdlbSubscript × AdlbBuffer) := do
  let usingScratch := buf.data = some .scratch
  let requested := sub.length + toAppend.length
  let (m, buf, _) ←
    TclResult.require (lib.resizeBuf m buf usingScratch requested) "Error resizing"
  let m ← if 0 < sub.length then do
      let m ← m.copyKey requested buf sub
      m.write requested buf (sub.length - 1) [dot]
    else pure m
  match m.bytes toAppend with
  | none => .undefined
  | some new =>
    let m ← m.write requested buf sub.length new
    pure (m, ⟨buf.data, sub.length + toAppend.length⟩, buf)

def tclGetAdlbSubscript (obj : Obj) : AdlbSubscript :=
  ⟨some (.string (tcl.getString obj)), (tcl.getString obj).length + 1⟩

def adlbParseSubscript (m : Memory) (obj : Obj) (subKind : SubscriptKind) (parse : SubParse)
    (append useScratch : Bool) : TclResult (Memory × SubParse) :=
  match subKind with
  | .container =>
    if append = false ∨ parse.val.length = 0 then
      pure (m, ⟨tclGetAdlbSubscript tcl obj, ⟨none, 0⟩⟩)
    else do
      let (m, val, buf) ← appendSubscript lib m parse.val (tclGetAdlbSubscript tcl obj) parse.buf
      pure (m, ⟨val, buf⟩)
  | .struct =>
    let subscript := tcl.getString obj
    if subscript.length = 0 then
      pure (m, if append then parse else ⟨adlbNoSub, ⟨none, 0⟩⟩)
    else do
      let start := if append then parse.buf else initialBuf m useScratch
      let usingScratch := start.data = some .scratch
      let (m, buf, val, _) ←
        adlbParseStructSubscript lib m subscript start parse.val usingScratch append
      pure (m, ⟨val, buf⟩)

/-- The id and the text of the subscript, if there is one. -/
def adlbExtractHandle (obj : Obj) : TclResult (Int64 × Option Bytes) :=
  match tcl.getWideInt obj with
  | some id => pure (id, none)
  | none => do
    let strHandle := tcl.getString obj
    let prefixLen ← TclResult.require (strHandle.idxOf? dot)
      s!"Invalid ADLB handle {showBytes strHandle}"
    let id ← TclResult.require (lib.int64Parse (strHandle.take prefixLen))
      s!"Expected first element in handle to be valid ADLB ID: {showBytes strHandle}"
    pure (id, some (strHandle.drop (prefixLen + 1)))

def adlbParseHandle (m : Memory) (obj : Obj) (useScratch : Bool) :
    TclResult (Memory × TclAdlbHandle) := do
  let (id, subscript) ← adlbExtractHandle lib tcl obj
  match subscript with
  | none => pure (m, ⟨id, ⟨adlbNoSub, ⟨none, 0⟩⟩⟩)
  | some str =>
    -- without `append` the subscript that the caller passes is not read
    let (m, buf, val, _) ←
      adlbParseStructSubscript lib m str (initialBuf m useScratch) adlbNoSub useScratch false
    pure (m, ⟨id, ⟨val, buf⟩⟩)

/-- The command's words behind the handle; the lengths are added up in an `int`. -/
def adlbSubscriptImpl (handle : Obj) (subscripts : List Obj) (subKind : SubscriptKind) :
    TclResult Obj := do
  TclResult.condition (subKind = .struct ∨ subscripts.length ≤ 1)
    "Only support one level ofsubscripting for container"
  let bytes := tcl.getString handle ++ subscripts.flatMap fun sub => dot :: tcl.getString sub
  if bytes.length < 2 ^ 31 then pure (tcl.newString bytes) else .undefined

def adlbSubscriptStructCmd (handle : Obj) (subscripts : List Obj) : TclResult Obj :=
  adlbSubscriptImpl tcl handle subscripts .struct

end Turbine.Handle
