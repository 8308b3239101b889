import Turbine.Library.Commands
import Turbine.Library.OrderedDict

/-! Retrieves of data through the local cache, and their effect on the read reference counts. -/

namespace Turbine.Data.Retrieve

open Turbine.Library

inductive Ty
  | integer
  | ref
  | struct
  | float
  | string
  | file
  | fileRef

/-- What the server keeps of the data. -/
structure Server where
  value : ℕ → Option String
  readRefs : ℕ → ℤ

structure State where
  server : Server
  cache : ℕ → Option (Ty × String)

inductive Err
  | unset (id : ℕ)
  | badValue (value : String)
  | doubleWrite (id : ℕ)
  | notCached (id : ℕ)
  | noSuchKey (key : String)
  | noSuchCommand (name : String)
  deriving DecidableEq

abbrev Script (α : Type) := Cmd State Err α

def Server.drop (server : Server) (id : ℕ) (decr : ℤ) : Server :=
  { server with readRefs := Function.update server.readRefs id (server.readRefs id - decr) }

/-! ### Commands of the extensions -/

/-- `adlb::retrieve_decr`; the type only serves to check the datum's own. -/
def adlbRetrieveDecr (id : ℕ) (decr : ℕ) (_type : Option Ty) : Script String := fun s =>
  match s.server.value id with
  | none => (.error (.unset id), s)
  | some value => (.ok value, { s with server := s.server.drop id decr })

def adlbRetrieve (id : ℕ) (type : Ty) : Script String := adlbRetrieveDecr id 0 (some type)

def readRefcountDecr (id : ℕ) (decr : ℕ) : Script Unit :=
  Cmd.modify fun s => { s with server := s.server.drop id decr }

/-- How the extension reads Tcl values. -/
structure Formats where
  accepts : Ty → String → Bool
  path? : String → Option String

variable (formats : Formats)

def adlbStore (id : ℕ) (type : Ty) (value : String) : Script Unit := fun s =>
  if formats.accepts type value then
    match s.server.value id with
    | some _ => (.error (.doubleWrite id), s)
    | none => (.ok (), { s with
        server := { s.server with value := Function.update s.server.value id (some value) } })
  else (.error (.badValue value), s)

def cacheCheck (id : ℕ) : Script Bool := fun s => (.ok (s.cache id).isSome, s)

def cacheRetrieve (id : ℕ) : Script String := fun s =>
  match s.cache id with
  | none => (.error (.notCached id), s)
  | some (_, value) => (.ok value, s)

def cacheStore (id : ℕ) (type : Ty) (value : String) : Script Unit :=
  Cmd.modify fun s => { s with cache := Function.update s.cache id (some (type, value)) }

/-! ### Stores -/

def trimLeft (value : String) : String := String.ofList (value.toList.dropWhile (· = '0'))

def storeInteger (id : ℕ) (value : String) : Script Unit := do
  -- Tcl cannot convert 099 to an integer
  let value := if value ≠ "0" then trimLeft value else value
  adlbStore formats id .integer value
  cacheStore id .integer value

def storeRef (id : ℕ) (value : String) : Script Unit := do
  adlbStore formats id .ref value
  cacheStore id .ref value

def storeFile (id : ℕ) (value : String) : Script Unit := do
  adlbStore formats id .file value
  cacheStore id .file value

def storeFileRef (id : ℕ) (value : String) : Script Unit := do
  adlbStore formats id .fileRef value
  cacheStore id .fileRef value

def storeStruct (id : ℕ) (value : String) : Script Unit := adlbStore formats id .struct value

def storeFloat (id : ℕ) (value : String) : Script Unit := adlbStore formats id .float value

def storeString (id : ℕ) (value : String) : Script Unit := adlbStore formats id .string value

/-! ### Typed retrieves -/

/-- The typed retrieves, which differ in the type and in whether they fill the cache. -/
def retrieveTyped (type : Ty) (fills : Bool) (id : ℕ) (cachemode : String) (decrref : ℕ) :
    Script String := do
  let cache := cachemode = "CACHED"
  if cache ∧ (← cacheCheck id) then
    let result ← cacheRetrieve id
    if decrref ≠ 0 then readRefcountDecr id decrref
    return result
  else
    let result ← (if decrref ≠ 0 then adlbRetrieveDecr id decrref (some type)
      else adlbRetrieve id type)
    if cache ∧ fills then cacheStore id type result
    return result

def retrieveInteger := retrieveTyped .integer true

def retrieveRef := retrieveTyped .ref true

def retrieveStruct := retrieveTyped .struct false

def retrieveFloat := retrieveTyped .float true

def retrieveString := retrieveTyped .string true

structure FileHandle where
  file : ℕ
  isMapped : Bool

structure LocalFileRef where
  filepath : String
  refcount : ℕ
  mapped : Bool
  deriving DecidableEq

def dictGetPath (value : String) : Except Err String :=
  match formats.path? value with
  | none => .error (.noSuchKey "path")
  | some path => .ok path

def createLocalFileRef (fileHandle : FileHandle) (result : String) : Except Err LocalFileRef :=
  (dictGetPath formats result).map fun path => ⟨path, 2, fileHandle.isMapped⟩

def retrieveFile (fileHandle : FileHandle) (cachemode : String) (decrref : ℕ) :
    Script LocalFileRef := do
  let result ← retrieveTyped .file true fileHandle.file cachemode decrref
  Cmd.ofExcept (createLocalFileRef formats fileHandle result)

def retrieveFileRef (id : ℕ) (cachemode : String) (decrref : ℕ) : Script String := do
  let cache := cachemode = "CACHED"
  if cache ∧ (← cacheCheck id) then
    let result ← cacheRetrieve id
    -- the amount is left to its default
    if decrref ≠ 0 then readRefcountDecr id 1
    return result
  else
    let result ← (if decrref ≠ 0 then adlbRetrieveDecr id decrref (some .fileRef)
      else adlbRetrieve id .fileRef)
    if cache then cacheStore id .fileRef result
    return result

/-! ### Batch retrieves -/

/-- The body of the loops of `multi_retrieve` and `multi_retrieve_kv`. -/
def retrieveOne (cachemode : String) (readDecr : ℕ) (type : Option Ty) (id : ℕ) :
    Script String := do
  if cachemode = "CACHED" ∧ (← cacheCheck id) then
    let val ← cacheRetrieve id
    if readDecr ≠ 0 then readRefcountDecr id readDecr
    return val
  else adlbRetrieveDecr id readDecr type

def multiRetrieve (ids : List ℕ) (cachemode : String) (readDecr : ℕ) (type : Option Ty) :
    Script (List String) :=
  ids.mapM (retrieveOne cachemode readDecr type)

def dictAppend (result : OrderedDict String String) (key val : String) :
    OrderedDict String String :=
  match result.get? key with
  | none => result.set key val
  | some old => result.set key (old ++ val)

def multiRetrieveKvLoop (cachemode : String) (readDecr : ℕ) (type : Option Ty)
    (result : OrderedDict String String) :
    List (String × ℕ) → Script (OrderedDict String String)
  | [] => pure result
  | (key, id) :: ids => do
    let val ← retrieveOne cachemode readDecr type id
    multiRetrieveKvLoop cachemode readDecr type (dictAppend result key val) ids

def multiRetrieveKv (ids : OrderedDict String ℕ) (cachemode : String) (readDecr : ℕ)
    (type : Option Ty) : Script (OrderedDict String String) :=
  multiRetrieveKvLoop cachemode readDecr type .empty ids.entries

-- the loop's command is misspelt
def multiRetrieveDecr (_ids : List ℕ) (_decr : ℕ) (_cachemode : String) (_type : Option Ty) :
    Script (List String) :=
  Cmd.throw (.noSuchCommand "/oreach")

-- the line break before `else` makes it a command of its own
def multiRetrieveKvDecrLoop (decr : ℕ) (cachemode : String)
    (result : OrderedDict String String) :
    List (String × ℕ) → Script (OrderedDict String String)
  | [] => pure result
  | (_, id) :: _ => do
    if cachemode = "CACHED" ∧ (← cacheCheck id) then
      let _ ← cacheRetrieve id
      readRefcountDecr id decr
    Cmd.throw (.noSuchCommand "else")

def multiRetrieveKvDecr (ids : OrderedDict String ℕ) (decr : ℕ) (cachemode : String)
    (_type : Option Ty) : Script (OrderedDict String String) :=
  multiRetrieveKvDecrLoop decr cachemode .empty ids.entries

/-! ### Calls and histories -/

inductive Call
  | integer (id : ℕ) (cachemode : String) (decrref : ℕ)
  | ref (id : ℕ) (cachemode : String) (decrref : ℕ)
  | struct (id : ℕ) (cachemode : String) (decrref : ℕ)
  | float (id : ℕ) (cachemode : String) (decrref : ℕ)
  | string (id : ℕ) (cachemode : String) (decrref : ℕ)
  | file (fileHandle : FileHandle) (cachemode : String) (decrref : ℕ)
  | fileRef (id : ℕ) (cachemode : String) (decrref : ℕ)
  | multi (ids : List ℕ) (cachemode : String) (readDecr : ℕ) (type : Option Ty)
  | multiKv (ids : OrderedDict String ℕ) (cachemode : String) (readDecr : ℕ) (type : Option Ty)
  | multiDecr (ids : List ℕ) (decr : ℕ) (cachemode : String) (type : Option Ty)
  | multiKvDecr (ids : OrderedDict String ℕ) (decr : ℕ) (cachemode : String) (type : Option Ty)

inductive Result
  | value (result : String)
  | localFile (result : LocalFileRef)
  | list (result : List String)
  | dict (entries : List (String × String))
  deriving DecidableEq

def Call.run : Call → Script Result
  | .integer id cachemode decrref => Result.value <$> retrieveInteger id cachemode decrref
  | .ref id cachemode decrref => Result.value <$> retrieveRef id cachemode decrref
  | .struct id cachemode decrref => Result.value <$> retrieveStruct id cachemode decrref
  | .float id cachemode decrref => Result.value <$> retrieveFloat id cachemode decrref
  | .string id cachemode decrref => Result.value <$> retrieveString id cachemode decrref
  | .file fileHandle cachemode decrref =>
    Result.localFile <$> retrieveFile formats fileHandle cachemode decrref
  | .fileRef id cachemode decrref => Result.value <$> retrieveFileRef id cachemode decrref
  | .multi ids cachemode readDecr type =>
    Result.list <$> multiRetrieve ids cachemode readDecr type
  | .multiKv ids cachemode readDecr type =>
    (fun result => .dict result.entries) <$> multiRetrieveKv ids cachemode readDecr type
  | .multiDecr ids decr cachemode type =>
    Result.list <$> multiRetrieveDecr ids decr cachemode type
  | .multiKvDecr ids decr cachemode type =>
    (fun result => .dict result.entries) <$> multiRetrieveKvDecr ids decr cachemode type

inductive Action
  | storeInteger (id : ℕ) (value : String)
  | storeRef (id : ℕ) (value : String)
  | storeFile (id : ℕ) (value : String)
  | storeFileRef (id : ℕ) (value : String)
  | storeStruct (id : ℕ) (value : String)
  | storeFloat (id : ℕ) (value : String)
  | storeString (id : ℕ) (value : String)
  | retrieve (call : Call)
  | evict (id : ℕ)

def act (s : State) : Action → State
  | .storeInteger id value => (storeInteger formats id value s).2
  | .storeRef id value => (storeRef formats id value s).2
  | .storeFile id value => (storeFile formats id value s).2
  | .storeFileRef id value => (storeFileRef formats id value s).2
  | .storeStruct id value => (storeStruct formats id value s).2
  | .storeFloat id value => (storeFloat formats id value s).2
  | .storeString id value => (storeString formats id value s).2
  | .retrieve call => (call.run formats s).2
  -- the cache may give up an entry at any time
  | .evict id => { s with cache := Function.update s.cache id none }

def start (readRefs : ℕ → ℤ) : State := ⟨⟨fun _ => none, readRefs⟩, fun _ => none⟩

/-- The state after a history of stores and retrieves. -/
def after (readRefs : ℕ → ℤ) (history : List Action) : State :=
  history.foldl (act formats) (start readRefs)

/-! ### Retrieves without a cache -/

/-- The server's answer to a retrieve, and what it leaves there. -/
def Server.fetch (server : Server) (decr : ℕ) (id : ℕ) : Except Err String × Server :=
  match server.value id with
  | none => (.error (.unset id), server)
  | some value => (.ok value, server.drop id decr)

def Server.fetchAll (decr : ℕ) : List ℕ → Server → Except Err (List String) × Server
  | [], server => (.ok [], server)
  | id :: ids, server =>
    match server.fetch decr id with
    | (.error e, server) => (.error e, server)
    | (.ok value, server) =>
      let (rest, server) := fetchAll decr ids server
      (rest.map (value :: ·), server)

/-- What a call is to return and to leave at the server, whatever is in the cache. -/
def Call.expected (server : Server) : Call → Except Err Result × Server
  | .integer id _ decr | .ref id _ decr | .struct id _ decr | .float id _ decr
  | .string id _ decr | .fileRef id _ decr =>
    ((server.fetch decr id).1.map .value, (server.fetch decr id).2)
  | .file fileHandle _ decr =>
    ((server.fetch decr fileHandle.file).1.bind fun result =>
      (createLocalFileRef formats fileHandle result).map .localFile,
      (server.fetch decr fileHandle.file).2)
  | .multi ids _ decr _ | .multiDecr ids decr _ _ =>
    ((server.fetchAll decr ids).1.map .list, (server.fetchAll decr ids).2)
  | .multiKv ids _ decr _ | .multiKvDecr ids decr _ _ =>
    ((server.fetchAll decr ids.values).1.map fun values => .dict (ids.keys.zip values),
      (server.fetchAll decr ids.values).2)

def Transparent (call : Call) (s : State) : Prop :=
  (call.run formats s).1 = (call.expected formats s.server).1 ∧
    (call.run formats s).2.server = (call.expected formats s.server).2

def Keeps (s : State) : Call → Prop
  | .fileRef id cachemode decrref => cachemode = "CACHED" → (s.cache id).isSome → decrref ≤ 1
  | .multiDecr .. => False
  | .multiKvDecr ids _ _ _ => ids.entries = []
  | _ => True

end Turbine.Data.Retrieve
