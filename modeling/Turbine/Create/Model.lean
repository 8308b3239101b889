import Turbine.Codec.Checkpoint
import Turbine.Tcl.Commands

/-! Creation of data: the arguments are parsed into output parameters, which keep what was written
to them before an error. -/

namespace Turbine.Create

open Tcl Adlb Codec Library

/-- The fields of `adlb_create_props` that the extension sets. -/
structure CreateProps where
  readRefcount : ℤ
  writeRefcount : ℤ
  symbol : ℤ
  permanent : Bool
  releaseWriteRefs : Bool
  deriving DecidableEq

def CreateProps.zero : CreateProps := ⟨0, 0, 0, false, false⟩

/-- The output parameters of `extract_create_props`, and a create spec. -/
structure Spec where
  id : Int64
  type : DataType
  extra : TypeExtra
  props : CreateProps
  deriving DecidableEq

/-- The library functions, `ADLB_DATA_ID_NULL`, `DEFAULT_CREATE_PROPS`, and what ADLB answers: the
id of a new datum, unless it fails. -/
structure CreateEnv (Obj D : Type) where
  codec : Env Obj D
  names : TypeNames
  getInt : Obj → Option ℤ
  getBoolean : Obj → Option Bool
  idNull : Int64
  defaultCreateProps : CreateProps
  dataIsCompound : DataType → Bool
  adlbCreate : Spec → Option Int64
  adlbMulticreate : List Spec → Option (List Int64)

variable {Obj D : Type} (env : CreateEnv Obj D)

def turbineReleaseWriteRcPolicy (type : DataType) : Bool := env.dataIsCompound type

def adlbTypeFromObj (obj : Obj) : TclResult DataType := do
  let (type, _) ← adlbTypeFromObjExtra env.codec env.names obj
  .ok type

abbrev Parse (α : Type) := TclCmd Spec α

/-- The arguments that are left are returned. -/
def adlbTypeExtraFromArray (type : DataType) (args : List Obj) : Parse (List Obj) :=
  match type with
  | .container =>
    match args with
    | key :: val :: args => do
      let keyType ← TclCmd.ofResult (adlbTypeFromObj env key)
      let valType ← TclCmd.ofResult (adlbTypeFromObj env val)
      Cmd.modify fun s => { s with extra := .container keyType valType }
      pure args
    | _ => Cmd.throw (.error ["type=container requires key and value types!"])
  | .multiset =>
    match args with
    | val :: args => do
      let valType ← TclCmd.ofResult (adlbTypeFromObj env val)
      Cmd.modify fun s => { s with extra := .multiset valType }
      pure args
    | _ => Cmd.throw (.error ["type=multiset requires member type!"])
  | _ => pure args

/-- The callers have checked that there is an argument for the type. -/
def adlbTypeFromArray (args : List Obj) : Parse (List Obj) :=
  match args with
  | [] => Cmd.throw .undefined
  | arg :: args => do
    Cmd.modify fun s => { s with extra := .null }
    let (type, extra) ← TclCmd.ofResult (adlbTypeFromObjExtra env.codec env.names arg)
    Cmd.modify fun s => { s with type := type, extra := extra }
    if extra = .null then adlbTypeExtraFromArray env type args else pure args

/-- A property that is set if there is one more argument. -/
def optionalProp (set : Obj → CreateProps → Option CreateProps) (msg : String) (args : List Obj) :
    Parse (List Obj) :=
  match args with
  | [] => pure []
  | arg :: args => fun s =>
    match set arg s.props with
    | some props => (.ok args, { s with props := props })
    | none => (.error (.error [msg]), s)

def setReadRefcount (arg : Obj) (props : CreateProps) : Option CreateProps :=
  (env.getInt arg).map fun n => { props with readRefcount := n }

def setWriteRefcount (arg : Obj) (props : CreateProps) : Option CreateProps :=
  (env.getInt arg).map fun n => { props with writeRefcount := n }

def setSymbol (arg : Obj) (props : CreateProps) : Option CreateProps :=
  (env.getInt arg).map fun n => { props with symbol := n }

def setPermanent (arg : Obj) (props : CreateProps) : Option CreateProps :=
  (env.getBoolean arg).map fun b => { props with permanent := b }

def extractId (acceptId : Bool) (args : List Obj) : Parse (List Obj) :=
  if acceptId then
    match args with
    | arg :: type :: args => do
      let id ← TclCmd.ofResult (TclResult.require (env.codec.tcl.getWideInt arg)
        "could not get data id")
      Cmd.modify fun s => { s with id := id }
      pure (type :: args)
    | _ => Cmd.throw (.error ["requires >= 2 args!"])
  else
    match args with
    | type :: args => do
      Cmd.modify fun s => { s with id := env.idNull }
      pure (type :: args)
    | [] => Cmd.throw (.error ["requires >= 1 args!"])

/-- Nobody asks whether an argument is left. -/
def extractCreateProps (acceptId : Bool) (args : List Obj) : Parse Unit := do
  Cmd.modify fun s => { s with props := .zero }
  let args ← extractId env acceptId args
  let args ← adlbTypeFromArray env args
  Cmd.modify fun s => { s with
    props := { env.defaultCreateProps with
      releaseWriteRefs := turbineReleaseWriteRcPolicy env s.type } }
  let args ← optionalProp (setReadRefcount env) "could not get read_refcount argument" args
  let args ← optionalProp (setWriteRefcount env) "could not get write_refcount argument" args
  let args ← optionalProp (setSymbol env) "could not get debug symbol argument" args
  let _ ← optionalProp (setPermanent env) "could not get permanent argument" args
  pure ()

def noSpec : Spec := ⟨env.idNull, .null, .null, .zero⟩

/-- The switch of `ADLB_Create_Cmd`; a struct without a type of its own has `ADLB_STRUCT_TYPE_NULL`
as its record. -/
def createRequest (s : Spec) : TclResult Spec :=
  match s.type, s.extra with
  | .integer, _ | .float, _ | .string, _ | .blob, _ | .ref, _ => .ok { s with extra := .null }
  | .struct, .struct st => .ok { s with extra := .struct st }
  | .struct, _ => .ok { s with extra := .null }
  | .container, .container k v => .ok { s with extra := .container k v }
  | .container, _ => .abort "type_extra.valid"
  | .multiset, .multiset v => .ok { s with extra := .multiset v }
  | .multiset, _ => .abort "type_extra.valid"
  | .null, _ => .error ["unknown type!"]

/-- The state is the list of the requests that were made. The code of `extract_create_props` is not
looked at. -/
def adlbCreateCmd (args : List Obj) : TclCmd (List Spec) (Option Int64) := do
  let s := (extractCreateProps env true args (noSpec env)).2
  let request ← TclCmd.ofResult (createRequest s)
  Cmd.modify fun requests => requests ++ [request]
  let newId ← TclCmd.ofResult (TclResult.require (env.adlbCreate request)
    ("<" ++ toString s.id.toInt ++ "> failed!"))
  pure (if s.id = env.idNull then some newId else none)

def parseVariableSpecList (list : Obj) : TclCmd (List (List Spec)) Spec := do
  let elems ← TclCmd.ofResult (TclResult.require (env.codec.tcl.getList list)
    ("arg must be list: " ++ showBytes (env.codec.tcl.getString list)))
  match extractCreateProps env false elems (noSpec env) with
  | (.ok (), s) => pure s
  | (.error e, _) => Cmd.throw e

def adlbMulticreateCmd (args : List Obj) : TclCmd (List (List Spec)) (List Int64) := do
  let specs ← args.mapM (parseVariableSpecList env)
  Cmd.modify fun requests => requests ++ [specs]
  TclCmd.ofResult (TclResult.require (env.adlbMulticreate specs) "failed!")

end Turbine.Create
