import Mathlib

/-! The result of a C function of the Tcl extension: `TCL_OK` with its output arguments,
`TCL_ERROR` with the messages left in the error info, a failed `assert`, or undefined behaviour. -/

namespace Turbine.Tcl

inductive TclResult (α : Type)
  | ok (a : α)
  | error (info : List String)
  | abort (assertion : String)
  | undefined
deriving DecidableEq

namespace TclResult

variable {α β : Type}

def bind : TclResult α → (α → TclResult β) → TclResult β
  | ok a, f => f a
  | error info, _ => error info
  | abort assertion, _ => abort assertion
  | undefined, _ => undefined

instance : Monad TclResult where
  pure := ok
  bind := bind

instance : LawfulMonad TclResult :=
  LawfulMonad.mk' _ (by intro α x; cases x <;> rfl) (by intros; rfl)
    (by intro α β γ x f g; cases x <;> rfl)

@[simp] lemma pure_eq (a : α) : (pure a : TclResult α) = ok a := rfl

@[simp] lemma ok_bind (a : α) (f : α → TclResult β) : (ok a >>= f) = f a := rfl

@[simp] lemma error_bind (info : List String) (f : α → TclResult β) :
    ((error info : TclResult α) >>= f) = error info := rfl

@[simp] lemma abort_bind (assertion : String) (f : α → TclResult β) :
    ((abort assertion : TclResult α) >>= f) = abort assertion := rfl

@[simp] lemma undefined_bind (f : α → TclResult β) :
    ((undefined : TclResult α) >>= f) = undefined := rfl

@[simp] lemma map_ok (f : α → β) (a : α) : f <$> (ok a : TclResult α) = ok (f a) := rfl

@[simp] lemma map_error (f : α → β) (info : List String) :
    f <$> (error info : TclResult α) = error info := rfl

@[simp] lemma map_abort (f : α → β) (assertion : String) :
    f <$> (abort assertion : TclResult α) = abort assertion := rfl

@[simp] lemma map_undefined (f : α → β) : f <$> (undefined : TclResult α) = undefined := rfl

lemma bind_eq_ok {x : TclResult α} {f : α → TclResult β} {b : β} :
    (x >>= f) = ok b ↔ ∃ a, x = ok a ∧ f a = ok b := by
  cases x <;> simp

/-- `TCL_CONDITION`: without the value there is an error with this message. -/
def require (x : Option α) (msg : String) : TclResult α :=
  match x with
  | some a => ok a
  | none => error [msg]

/-- `TCL_CHECK` on a call of the Tcl library: an error adds no message of the extension. -/
def check (x : Option α) : TclResult α :=
  match x with
  | some a => ok a
  | none => error []

/-- `TCL_CONDITION` on a condition that yields no value. -/
def condition (c : Bool) (msg : String) : TclResult Unit :=
  if c then ok () else error [msg]

/-- `assert`, with the checks enabled. -/
def assert (c : Bool) (text : String) : TclResult Unit :=
  if c then ok () else abort text

/-- `TCL_CHECK_MSG`: an error of the callee gets one more message. -/
def addInfo (x : TclResult α) (msg : String) : TclResult α :=
  match x with
  | error info => error (info ++ [msg])
  | r => r

lemma require_eq_ok {x : Option α} {msg : String} {a : α} :
    require x msg = ok a ↔ x = some a := by
  cases x <;> simp [require]

lemma condition_eq_ok {c : Bool} {msg : String} {u : Unit} :
    condition c msg = ok u ↔ c = true := by
  cases c <;> simp [condition]

lemma assert_eq_ok {c : Bool} {text : String} {u : Unit} : assert c text = ok u ↔ c = true := by
  cases c <;> simp [assert]

@[simp] lemma require_some (a : α) (msg : String) : require (some a) msg = ok a := rfl

@[simp] lemma require_none (msg : String) : require (none : Option α) msg = error [msg] := rfl

@[simp] lemma check_some (a : α) : check (some a) = ok a := rfl

@[simp] lemma check_none : check (none : Option α) = error [] := rfl

@[simp] lemma condition_true (msg : String) : condition true msg = ok () := rfl

@[simp] lemma condition_false (msg : String) : condition false msg = error [msg] := rfl

@[simp] lemma assert_true (text : String) : assert true text = ok () := rfl

@[simp] lemma assert_false (text : String) : assert false text = abort text := rfl

@[simp] lemma addInfo_ok (a : α) (msg : String) : addInfo (ok a) msg = ok a := rfl

/-- The value of a result, without the reason when there is none. -/
def okValue : TclResult α → Option α
  | ok a => some a
  | _ => none

lemma okValue_eq_some {r : TclResult α} {a : α} : okValue r = some a ↔ r = ok a := by
  cases r <;> simp [okValue]

@[simp] lemma okValue_ok (a : α) : okValue (ok a) = some a := rfl

@[simp] lemma okValue_error (info : List String) : okValue (error info : TclResult α) = none := rfl

@[simp] lemma okValue_abort (text : String) : okValue (abort text : TclResult α) = none := rfl

@[simp] lemma okValue_undefined : okValue (undefined : TclResult α) = none := rfl

@[simp] lemma okValue_bind (x : TclResult α) (f : α → TclResult β) :
    okValue (x >>= f) = (okValue x).bind fun a => okValue (f a) := by
  cases x <;> rfl

@[simp] lemma okValue_require (x : Option α) (msg : String) : okValue (require x msg) = x := by
  cases x <;> rfl

@[simp] lemma okValue_check (x : Option α) : okValue (check x) = x := by
  cases x <;> rfl

@[simp] lemma okValue_addInfo (x : TclResult α) (msg : String) :
    okValue (addInfo x msg) = okValue x := by
  cases x <;> rfl

lemma okValue_foldlM {f : β → α → TclResult β} (l : List α) (b : β) :
    okValue (l.foldlM f b) = l.foldlM (fun b a => okValue (f b a)) b := by
  induction l generalizing b with
  | nil => rfl
  | cons a l ih => simp [ih]

end TclResult

end Turbine.Tcl
