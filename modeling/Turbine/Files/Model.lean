import Turbine.Library.Commands

/-! The builtins on files: the rules that they make, and the bodies that run when what a rule waits
for is there. -/

namespace Turbine.Files

open Turbine.Library

abbrev Text := List Char

abbrev Bytes := List UInt8

structure FileHandle where
  file : ℕ
  isMapped : Bool
  deriving DecidableEq

/-- What a rule waits for and a body reads: a datum, or the path of a file. -/
inductive Handle
  | td (id : ℕ)
  | path (id : ℕ)
  deriving DecidableEq

/-- A file is a structure with the field `path`. -/
inductive Value
  | string (s : Text)
  | file (path : Text)
  | blob (contents : Bytes)
  | array (elems : List (ℕ × Text))
  deriving DecidableEq

def Value.string? : Value → Option Text
  | .string s => some s
  | _ => none

def Value.path? : Value → Option Text
  | .file path => some path
  | _ => none

def Value.IsFile (v : Value) : Prop := v.path?.isSome

instance : DecidablePred Value.IsFile := fun v => inferInstanceAs (Decidable (v.path?.isSome = true))

structure Datum where
  value : Option Value
  closed : Bool

structure LocalFile where
  path : Text
  refcount : ℤ
  mapped : Bool

/-- The procedures that a rule can name, with their arguments. -/
inductive Body
  | inputFileCopy (outfile : FileHandle) (filepath : ℕ)
  | inputFile (outfile : FileHandle) (filepath : ℕ)
  | inputUrl (outfile : FileHandle) (filepath : ℕ)
  | inputUrlError (outUrl inUrl : Handle)
  | copyFileTd (dst src : FileHandle)
  | copyFile (dst src : FileHandle)
  | fileRead (result : ℕ) (src : FileHandle)
  | fileWrite (dst : FileHandle) (str : ℕ)
  | blobRead (result : ℕ) (src : FileHandle)
  | fileLines (result : ℕ) (input : FileHandle)
  deriving DecidableEq

structure Rule where
  waitfor : List Handle
  body : Body
  deriving DecidableEq

inductive Stop
  | unset (handle : Handle)
  | doubleWrite (id : ℕ)
  | wrongType (id : ℕ)
  | mappedFile (handle : FileHandle)
  | mappedUrl (message : String)
  | missing (message : String)
  | fileSystem (path : Text)
  | noTempfile
  deriving DecidableEq

/-- The errors that the files themselves cause. -/
def Stop.Outside : Stop → Prop
  | .missing _ | .fileSystem _ | .noTempfile => True
  | _ => False

/-- The operating system, and how channels translate what they read and write. -/
structure System where
  tempfile : (Text → Option Bytes) → Option Text
  makesDirectory : Text → Bool
  writes : Text → Bool
  decode : Bytes → Text
  encode : Text → Bytes
  isSpace : Char → Bool
  /-- What a blob holds after a read that fails. -/
  unread : Bytes

/-- The store with the cache of the process, the files, the rules that wait, and what was done with
the store so far. To every read belongs whether what is read was available, and to a datum that is
closed its value then. -/
structure State where
  data : ℕ → Datum
  cache : ℕ → Option Value
  disk : Text → Option Bytes
  rules : List Rule
  reads : List (Handle × Bool)
  assigned : List ℕ
  closes : List (ℕ × Option Value)
  drops : ℕ → ℕ
  errors : List Stop

def State.ready (s : State) : Handle → Bool
  | .td id => (s.data id).closed
  | .path id => ((s.data id).value.bind Value.path?).isSome

abbrev Script (α : Type) := Cmd State Stop α

/-! ### Commands on the store -/

def noteRead (handle : Handle) : Script Unit :=
  Cmd.modify fun s => { s with reads := s.reads ++ [(handle, s.ready handle)] }

def readRefcountDecr (id decr : ℕ) : Script Unit :=
  Cmd.modify fun s => { s with drops := s.drops + Pi.single id decr }

def State.close (s : State) (id : ℕ) : State := { s with
  data := Function.update s.data id { s.data id with closed := true }
  closes := s.closes ++ [(id, (s.data id).value)] }

def writeRefcountDecr (id : ℕ) : Script Unit := fun s =>
  if (s.data id).closed then (.error (.doubleWrite id), s) else (.ok (), s.close id)

def State.assign (s : State) (id : ℕ) (v : Value) : State := { s with
  data := Function.update s.data id { s.data id with value := some v }
  assigned := if v.IsFile then s.assigned ++ [id] else s.assigned }

/-- A value is stored once, before the datum is closed. -/
def adlbWrite (id : ℕ) (v : Value) (writeDecr : ℕ) : Script Unit := fun s =>
  if (s.data id).closed ∨ (s.data id).value.isSome then (.error (.doubleWrite id), s)
  else
    let s := s.assign id v
    if writeDecr = 0 then (.ok (), s) else writeRefcountDecr id s

/-- `adlb::store` of a whole value. -/
def adlbStore (id : ℕ) (v : Value) : Script Unit := adlbWrite id v 1

/-- `adlb::insert` of the field `path`. -/
def adlbInsert (id : ℕ) (filename : Text) (writeDecr : ℕ) : Script Unit :=
  adlbWrite id (.file filename) writeDecr

/-- `adlb::lookup` of the field `path`. -/
def adlbLookup (id readDecr : ℕ) : Script Text := do
  noteRead (.path id)
  fun s =>
    match (s.data id).value.bind Value.path? with
    | none => (.error (.unset (.path id)), s)
    | some path => (readRefcountDecr id readDecr >>= fun _ => pure path) s

def cacheStore (id : ℕ) (v : Value) : Script Unit :=
  Cmd.modify fun s => { s with cache := Function.update s.cache id (some v) }

def asType (text? : Value → Option Text) (id : ℕ) (v : Value) : Script Text :=
  match text? v with
  | none => Cmd.throw (.wrongType id)
  | some t => pure t

/-- `adlb::retrieve_decr` -/
def adlbRetrieveDecr (id decrref : ℕ) : Script Value := fun s =>
  match (s.data id).value with
  | none => (.error (.unset (.td id)), s)
  | some v => (readRefcountDecr id decrref >>= fun _ => pure v) s

/-- A retrieve through the cache of a value of one type. -/
def retrieve (text? : Value → Option Text) (id decrref : ℕ) : Script Text := do
  noteRead (.td id)
  fun s =>
    match s.cache id with
    | some v => (do readRefcountDecr id decrref; asType text? id v) s
    | none =>
      (do
        let v ← adlbRetrieveDecr id decrref
        let t ← asType text? id v
        cacheStore id v
        return t) s

def retrieveString (id decrref : ℕ) : Script Text := retrieve Value.string? id decrref

def retrieveDecrString (id : ℕ) : Script Text := retrieveString id 1

/-! ### Files of the store -/

def getFileTd (handle : FileHandle) : Handle := .td handle.file

def getFilePath (handle : FileHandle) : Handle := .path handle.file

def createLocalFileRef (filepath : Text) (refcount : ℤ) (mapped : Bool) : LocalFile :=
  ⟨filepath, refcount, mapped⟩

def retrieveFile (handle : FileHandle) (decrref : ℕ) : Script LocalFile := do
  let path ← retrieve Value.path? handle.file decrref
  return createLocalFileRef path 2 handle.isMapped

def retrieveDecrFile (handle : FileHandle) : Script LocalFile := retrieveFile handle 1

def setFilenameVal (handle : FileHandle) (filename : Text) (writeDecr : ℕ) : Script Unit :=
  adlbInsert handle.file filename writeDecr

def getFilenameVal (handle : FileHandle) (readDecr : ℕ) : Script Text :=
  adlbLookup handle.file readDecr

def closeFile (handle : FileHandle) : Script Unit := writeRefcountDecr handle.file

/-- Returns the local file with the reference that keeps it from being deleted. -/
def storeFile (handle : FileHandle) (localF : LocalFile) (setFilename : Bool) :
    Script LocalFile := do
  let localF := { localF with refcount := localF.refcount + 1 }
  if setFilename then do
    adlbStore handle.file (.file localF.path)
    cacheStore handle.file (.file localF.path)
    return localF
  else do
    closeFile handle
    return localF

section Procedures

variable (sys : System)

/-! ### Files of the operating system -/

def mktemp : Script Text := fun s =>
  match sys.tempfile s.disk with
  | none => (.error .noTempfile, s)
  | some result => (.ok result, { s with disk := Function.update s.disk result (some []) })

def ensureDirectoryExists2 (f : Text) : Script Unit :=
  if sys.makesDirectory f then pure () else Cmd.throw (.fileSystem f)

def readBytes (path : Text) : Script Bytes := fun s =>
  match s.disk path with
  | none => (.error (.fileSystem path), s)
  | some contents => (.ok contents, s)

def writeBytes (path : Text) (contents : Bytes) : Script Unit := fun s =>
  if sys.writes path then
    (.ok (), { s with disk := Function.update s.disk path (some contents) })
  else (.error (.fileSystem path), s)

def physicalFileCopy (dstpath srcpath : Text) : Script Unit := do
  ensureDirectoryExists2 sys dstpath
  let contents ← readBytes srcpath
  writeBytes sys dstpath contents

/-- `blobutils_read`, whose result nobody looks at. -/
def blobutilsRead (input : Text) : Script Bytes := fun s => (.ok ((s.disk input).getD sys.unread), s)

/-! ### Bodies -/

def initUnmapped (handle : FileHandle) : Script Text :=
  if handle.isMapped then Cmd.throw (.mappedFile handle)
  else do
    let filename ← mktemp sys
    setFilenameVal handle filename 0
    return filename

def inputFileCopyBody (outfile : FileHandle) (filepath : ℕ) : Script Unit := do
  let outfilePathVal ← getFilenameVal outfile 0
  let filepathVal ← retrieveDecrString filepath
  physicalFileCopy sys outfilePathVal filepathVal
  closeFile outfile

def fileExists (path : Text) : Script Bool := fun s => (.ok (s.disk path).isSome, s)

def inputFileImpl (outfile : FileHandle) (filepathVal : Text) : Script Unit := do
  let found ← fileExists filepathVal
  if found then setFilenameVal outfile filepathVal 1
  else Cmd.throw (.missing s!"input_file: file '{String.ofList filepathVal}' does not exist")

def inputFileBody (outfile : FileHandle) (filepath : ℕ) : Script Unit := do
  let filepathVal ← retrieveDecrString filepath
  inputFileImpl outfile filepathVal

def inputUrlImpl (outfile : FileHandle) (filepathVal : Text) : Script Unit :=
  if outfile.isMapped then
    Cmd.throw (.mappedUrl s!"Copying {String.ofList filepathVal} to mapped url")
  else setFilenameVal outfile filepathVal 1

def inputUrlBody (outfile : FileHandle) (filepath : ℕ) : Script Unit := do
  let filepathVal ← retrieveDecrString filepath
  inputUrlImpl outfile filepathVal

def inputUrlMappedError (outUrl inUrl : Text) : Script Unit :=
  Cmd.throw (.mappedUrl (s!"Cannot do url-to-url copy from {String.ofList inUrl} to " ++
    s!"{String.ofList outUrl}: url-to-url copies are not supported"))

/-- `retrieve_string` of a handle, which for the output is that of its field `path`. -/
def retrieveHandle (handle : Handle) (decrref : ℕ) : Script Text :=
  match handle with
  | .td id => retrieveString id decrref
  | .path id => adlbLookup id decrref

def inputUrlErrorBody (outUrlPath inUrlPath : Handle) : Script Unit := do
  let inUrlPathVal ← retrieveHandle inUrlPath 1
  let outUrlPathVal ← retrieveHandle outUrlPath 0
  inputUrlMappedError outUrlPathVal inUrlPathVal

def copyFileTdBody (dst src : FileHandle) : Script Unit := do
  let tmp ← retrieveDecrFile src
  let _ ← storeFile dst tmp true

def copyFileBody (dst src : FileHandle) : Script Unit := do
  let dstpathVal ← getFilenameVal dst 0
  let srcVal ← retrieveDecrFile src
  physicalFileCopy sys dstpathVal srcVal.path
  closeFile dst

def storeString (id : ℕ) (s : Text) : Script Unit := adlbStore id (.string s)

def storeBlob (id : ℕ) (contents : Bytes) : Script Unit := adlbStore id (.blob contents)

def arrayKvBuild (c : ℕ) (kvDict : List (ℕ × Text)) (writeDecr : ℕ) : Script Unit :=
  adlbWrite c (.array kvDict) writeDecr

def fileReadBody (result : ℕ) (src : FileHandle) : Script Unit := do
  let s ← getFilenameVal src 1
  -- the file itself, which is there when its datum is closed
  noteRead (getFileTd src)
  let fileData ← readBytes s
  storeString result (sys.decode fileData)

def fileWriteBody (dst : FileHandle) (str : ℕ) : Script Unit := do
  let strVal ← retrieveDecrString str
  let d ← getFilenameVal dst 0
  ensureDirectoryExists2 sys d
  writeBytes sys d (sys.encode strVal)
  closeFile dst

def blobReadBody (result : ℕ) (src : FileHandle) : Script Unit := do
  let val ← retrieveDecrFile src
  let blob ← blobutilsRead sys val.path
  storeBlob result blob

/-- What `gets` delivers line by line. -/
def lines (text : Text) : List Text :=
  let pieces := text.splitOn '\n'
  if pieces.getLast? = some [] then pieces.dropLast else pieces

def stringTrim (line : Text) : Text := (line.dropWhile sys.isSpace).rdropWhile sys.isSpace

/-- The lines from the number on, without comments and without those that are empty then. -/
def linesFrom : ℕ → List Text → List (ℕ × Text)
  | _, [] => []
  | lineNumber, line :: rest =>
    let line := stringTrim sys (line.takeWhile (· ≠ '#'))
    if line.length > 0 then (lineNumber, line) :: linesFrom (lineNumber + 1) rest
    else linesFrom (lineNumber + 1) rest

def fileLinesImpl (inputFile : LocalFile) : Script (List (ℕ × Text)) := do
  let contents ← readBytes inputFile.path
  return linesFrom sys 0 (lines (sys.decode contents))

def fileLinesBody (result : ℕ) (input : FileHandle) : Script Unit := do
  let inputVal ← retrieveDecrFile input
  let linesVal ← fileLinesImpl sys inputVal
  arrayKvBuild result linesVal 1

def Body.exec : Body → Script Unit
  | .inputFileCopy outfile filepath => inputFileCopyBody sys outfile filepath
  | .inputFile outfile filepath => inputFileBody outfile filepath
  | .inputUrl outfile filepath => inputUrlBody outfile filepath
  | .inputUrlError outUrl inUrl => inputUrlErrorBody outUrl inUrl
  | .copyFileTd dst src => copyFileTdBody dst src
  | .copyFile dst src => copyFileBody sys dst src
  | .fileRead result src => fileReadBody sys result src
  | .fileWrite dst str => fileWriteBody sys dst str
  | .blobRead result src => blobReadBody sys result src
  | .fileLines result input => fileLinesBody sys result input

/-! ### Builtins -/

def rule (waitfor : List Handle) (body : Body) : Script Unit :=
  Cmd.modify fun s => { s with rules := s.rules ++ [⟨waitfor, body⟩] }

/-- The paths of mapped outputs to wait for; the others get a path at once. -/
def outputWaits : List FileHandle → List Handle → Script (List Handle)
  | [], waitfor => pure waitfor
  | outfile :: outfiles, waitfor =>
    if outfile.isMapped then outputWaits outfiles (waitfor ++ [getFilePath outfile])
    else do
      let _ ← initUnmapped sys outfile
      outputWaits outfiles waitfor

def ruleFileHelper (waitfor : List Handle) (outfiles infiles : List FileHandle) (cmd : Body) :
    Script Unit := do
  let waitfor ← outputWaits sys outfiles waitfor
  rule (waitfor ++ infiles.map getFileTd) cmd

def inputFile (outfile : FileHandle) (filepath : ℕ) : Script Unit :=
  if outfile.isMapped then
    rule [getFilePath outfile, .td filepath] (.inputFileCopy outfile filepath)
  else rule [.td filepath] (.inputFile outfile filepath)

def inputUrl (outfile : FileHandle) (filepath : ℕ) : Script Unit :=
  if outfile.isMapped then
    rule [getFilePath outfile, .td filepath] (.inputUrlError (getFilePath outfile) (.td filepath))
  else rule [.td filepath] (.inputUrl outfile filepath)

def copyFile (dst src : FileHandle) : Script Unit :=
  if dst.isMapped then rule [getFilePath dst, getFileTd src] (.copyFile dst src)
  else rule [getFileTd src] (.copyFileTd dst src)

def fileRead (output : ℕ) (input : FileHandle) : Script Unit :=
  ruleFileHelper sys [] [] [input] (.fileRead output input)

def fileWrite (output : FileHandle) (input : ℕ) : Script Unit :=
  ruleFileHelper sys [.td input] [output] [] (.fileWrite output input)

def blobRead (result : ℕ) (src : FileHandle) : Script Unit :=
  ruleFileHelper sys [] [] [src] (.blobRead result src)

def fileLines (result : ℕ) (src : FileHandle) : Script Unit :=
  ruleFileHelper sys [] [] [src] (.fileLines result src)

inductive Call
  | inputFile (outfile : FileHandle) (filepath : ℕ)
  | inputUrl (outfile : FileHandle) (filepath : ℕ)
  | copyFile (dst src : FileHandle)
  | fileRead (result : ℕ) (src : FileHandle)
  | fileWrite (dst : FileHandle) (str : ℕ)
  | blobRead (result : ℕ) (src : FileHandle)
  | fileLines (result : ℕ) (src : FileHandle)

def Call.run : Call → Script Unit
  | .inputFile outfile filepath => Files.inputFile outfile filepath
  | .inputUrl outfile filepath => Files.inputUrl outfile filepath
  | .copyFile dst src => Files.copyFile dst src
  | .fileRead result src => Files.fileRead sys result src
  | .fileWrite dst str => Files.fileWrite sys dst str
  | .blobRead result src => Files.blobRead sys result src
  | .fileLines result src => Files.fileLines sys result src

end Procedures

end Turbine.Files
