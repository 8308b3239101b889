import Turbine.Tcl.Result
import Turbine.Library.Commands

/-! Commands of the extension that change a state: an error leaves the state as it was reached. -/

namespace Turbine.Tcl

open Library

/-- How a command ends that does not return `TCL_OK`. -/
inductive Failure
  | error (info : List String)
  | abort (assertion : String)
  | undefined
  deriving DecidableEq

variable {S α : Type}

def TclResult.toExcept : TclResult α → Except Failure α
  | .ok a => .ok a
  | .error info => .error (.error info)
  | .abort assertion => .error (.abort assertion)
  | .undefined => .error .undefined

abbrev TclCmd (S α : Type) := Cmd S Failure α

namespace TclCmd

/-- A call that does not look at the state. -/
def ofResult (r : TclResult α) : TclCmd S α := Cmd.ofExcept r.toExcept

/-- A call that changes the state, and leaves it alone when it fails. -/
def ofStep (f : S → TclResult (S × α)) : TclCmd S α := fun s =>
  match (f s).toExcept with
  | .ok (t, a) => (.ok a, t)
  | .error e => (.error e, s)

def condition (c : Bool) (msg : String) : TclCmd S Unit := ofResult (TclResult.condition c msg)

/-- `TCL_CHECK_MSG` -/
def addInfo (c : TclCmd S α) (msg : String) : TclCmd S α := fun s =>
  match c s with
  | (.error (.error info), t) => (.error (.error (info ++ [msg])), t)
  | r => r

@[simp] lemma ofResult_ok (a : α) : (ofResult (.ok a) : TclCmd S α) = pure a := rfl

@[simp] lemma condition_true (msg : String) : (condition true msg : TclCmd S Unit) = pure () := rfl

@[simp] lemma condition_false (msg : String) :
    (condition false msg : TclCmd S Unit) = Cmd.throw (.error [msg]) := rfl

lemma ofStep_of_ok {f : S → TclResult (S × α)} {s t : S} {a : α} (h : f s = .ok (t, a)) :
    ofStep f s = (.ok a, t) := by
  simp [ofStep, h, TclResult.toExcept]

lemma ofStep_of_error {f : S → TclResult (S × α)} {s : S} {info : List String}
    (h : f s = .error info) : ofStep f s = (.error (.error info), s) := by
  simp [ofStep, h, TclResult.toExcept]

lemma addInfo_of_ok {c : TclCmd S α} {s t : S} {a : α} (msg : String) (h : c s = (.ok a, t)) :
    addInfo c msg s = (.ok a, t) := by
  simp [addInfo, h]

lemma addInfo_of_error {c : TclCmd S α} {s t : S} {info : List String} (msg : String)
    (h : c s = (.error (.error info), t)) :
    addInfo c msg s = (.error (.error (info ++ [msg])), t) := by
  simp [addInfo, h]

end TclCmd

end Turbine.Tcl
