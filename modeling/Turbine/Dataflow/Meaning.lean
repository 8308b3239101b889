import Turbine.Library.Dataflow
import Turbine.Dataflow.Builtins

/-! Programs of calls, what each call means, and that the bodies compute it. -/

namespace Turbine.Dataflow

open Turbine.Library Radix Dataflow Turbine.Data.Integers Turbine.Strings.Substrings

inductive Unary
  | negateInteger | absInteger | not | copyInteger

inductive Binary
  | plusInteger | minusInteger | multiplyInteger | divideInteger | modInteger | maxInteger
  | minInteger | and | or | eqInteger | neqInteger | ltInteger | lteInteger | gtInteger | gteInteger

/-- A call of a builtin or the store of a constant; the future that is set comes first. -/
inductive Call
  | store (type : Ty) (result : ℕ) (value : Text)
  | unary (op : Unary) (c a : ℕ)
  | binary (op : Binary) (c a b : ℕ)
  | eqString (c a b : ℕ)
  | neqString (c a b : ℕ)
  | copyVoid (o i : ℕ)
  | copyString (o i : ℕ)
  | zero (output input : ℕ)
  | strcat (result : ℕ) (inputs : List ℕ)
  | dircat (result : ℕ) (inputs : List ℕ)
  | substring (result s i n : ℕ)
  | find (result str subs startIndex endIndex : ℕ)
  | toint (result input : ℕ)
  | parseInt (result str base : ℕ)
  | fromint (result input : ℕ)

/-! ### What calls do -/

def Unary.rule : Unary → ℕ → ℕ → Rule
  | .negateInteger => Dataflow.negateInteger
  | .absInteger => Dataflow.absInteger
  | .not => notRule
  | .copyInteger => Dataflow.copyInteger

def Binary.rule : Binary → ℕ → ℕ → ℕ → Rule
  | .plusInteger => Dataflow.plusInteger
  | .minusInteger => Dataflow.minusInteger
  | .multiplyInteger => Dataflow.multiplyInteger
  | .divideInteger => Dataflow.divideInteger
  | .modInteger => Dataflow.modInteger
  | .maxInteger => Dataflow.maxInteger
  | .minInteger => Dataflow.minInteger
  | .and => andRule
  | .or => orRule
  | .eqInteger => Dataflow.eqInteger
  | .neqInteger => Dataflow.neqInteger
  | .ltInteger => Dataflow.ltInteger
  | .lteInteger => Dataflow.lteInteger
  | .gtInteger => Dataflow.gtInteger
  | .gteInteger => Dataflow.gteInteger

def storeOf : Ty → ℕ → Text → Script Unit
  | .integer => storeInteger
  | .string => storeString

/-- A constant is stored at once, as if by a rule without inputs. -/
def Call.rule : Call → Rule
  | store type result value => ⟨[], storeOf type result value, ""⟩
  | unary op c a => op.rule c a
  | binary op c a b => op.rule c a b
  | eqString c a b => Dataflow.eqString c a b
  | neqString c a b => Dataflow.neqString c a b
  | copyVoid o i => Dataflow.copyVoid o i
  | copyString o i => Dataflow.copyString o i
  | zero output input => Dataflow.zero output input
  | strcat result inputs => Dataflow.strcat result inputs
  | dircat result inputs => Dataflow.dircat result inputs
  | substring result s i n => Dataflow.substring result s i n
  | find result str subs startIndex endIndex =>
    Dataflow.find result str subs startIndex endIndex
  | toint result input => Dataflow.toint result input
  | parseInt result str base => parseIntRule result str base
  | fromint result input => Dataflow.fromint result input

/-! ### What calls mean -/

def Unary.meaning : Unary → ℤ → ℤ
  | .negateInteger, a => -a
  | .absInteger, a => |a|
  | .not, a => truth (a = 0)
  | .copyInteger, a => a

def Binary.meaning : Binary → ℤ → ℤ → Except Stop ℤ
  | .plusInteger, a, b => .ok (a + b)
  | .minusInteger, a, b => .ok (a - b)
  | .multiplyInteger, a, b => .ok (a * b)
  | .divideInteger, a, b => if b = 0 then .error divideByZero else .ok (Int.tdiv a b)
  | .modInteger, a, b => if b = 0 then .error divideByZero else .ok (Int.tmod a b)
  | .maxInteger, a, b => .ok (max a b)
  | .minInteger, a, b => .ok (min a b)
  | .and, a, b => .ok (truth (a ≠ 0 ∧ b ≠ 0))
  | .or, a, b => .ok (truth (a ≠ 0 ∨ b ≠ 0))
  | .eqInteger, a, b => .ok (truth (a = b))
  | .neqInteger, a, b => .ok (truth (a ≠ b))
  | .ltInteger, a, b => .ok (truth (a < b))
  | .lteInteger, a, b => .ok (truth (a ≤ b))
  | .gtInteger, a, b => .ok (truth (b < a))
  | .gteInteger, a, b => .ok (truth (b ≤ a))

/-- The integer that a text is stored as. -/
def ofText (value : Text) : Except Stop Datum :=
  match getWideInt (trimmed value) with
  | some n => .ok (.integer n)
  | none => .error (.badValue (trimmed value))

/-- What an integer is stored as: with 64 bits, if they are enough for its absolute value. -/
def ofInteger (n : ℤ) : Except Stop Datum :=
  match wide n with
  | some m => .ok (.integer m)
  | none => .error (.badValue (text n))

/-- A call with inputs of other types; no typed program has one. -/
def illTyped : Except Stop Datum := .error (.user "wrong types")

/-- The position that an integer stands for: 32 bits of it, if they are enough for the absolute
value of its 64. -/
def position (n : ℤ) : Except Stop ℤ :=
  match wide n with
  | some m =>
    if -2 ^ 32 < m ∧ m < 2 ^ 32 then .ok (Int.bmod m (2 ^ 32)) else .error (.badValue (text n))
  | none => .error (.badValue (text n))

def substringMeaning (s : Text) (i n : ℤ) : Except Stop Text := do
  let first ← position i
  return stringRange s first (← position (i + n - 1))

def findMeaning (str subs : Text) (startIndex endIndex : ℤ) : Except Stop ℤ := do
  return findImpl str subs (← position startIndex) endIndex

def Call.inputs : Call → List ℕ
  | store _ _ _ => []
  | unary _ _ a | copyVoid _ a | copyString _ a | zero _ a | toint _ a | fromint _ a => [a]
  | binary _ _ a b | eqString _ a b | neqString _ a b | parseInt _ a b => [a, b]
  | strcat _ inputs | dircat _ inputs => inputs
  | substring _ s i n => [s, i, n]
  | find _ str subs startIndex endIndex => [str, subs, startIndex, endIndex]

def Call.output : Call → ℕ
  | store _ c _ | unary _ c _ | binary _ c _ _ | eqString c _ _ | neqString c _ _ | copyVoid c _
  | copyString c _ | zero c _ | strcat c _ | dircat c _ | substring c _ _ _ | find c _ _ _ _
  | toint c _ | parseInt c _ _ | fromint c _ => c

def Call.compute : Call → List Datum → Except Stop Datum
  | store type _ value, [] =>
    match type with
    | .integer => ofText value
    | .string => .ok (.string value)
  | unary op _ _, [.integer a] => ofInteger (op.meaning a)
  | binary op _ _ _, [.integer a, .integer b] => do ofInteger (← op.meaning a b)
  | eqString _ _ _, [.string a, .string b] => .ok (.integer (truth (a = b)))
  | neqString _ _ _, [.string a, .string b] => .ok (.integer (truth (a ≠ b)))
  | copyVoid _ _, _ => .ok (.integer 12345)
  | copyString _ _, [.string a] => .ok (.string a)
  | zero _ _, _ => .ok (.integer 0)
  | strcat _ _, values => .ok (.string (values.map Datum.text).flatten)
  | dircat _ _, values => .ok (.string (List.intercalate ['/'] (values.map Datum.text)))
  | substring _ _ _ _, [.string s, .integer i, .integer n] => do
    return .string (← substringMeaning s i n)
  | find _ _ _ _ _, [.string str, .string subs, .integer startIndex, .integer endIndex] => do
    ofInteger (← findMeaning str subs startIndex endIndex)
  | toint _ _, [a] => do ofInteger (← tointImpl a.text)
  | parseInt _ _ _, [.string str, .integer base] => do
    ofInteger (← parseIntImpl str (text base))
  | fromint _ _, [.integer n] => .ok (.string (text n))
  | _, _ => illTyped

def Call.task (call : Call) : Task ℕ Datum Stop := ⟨call.inputs, call.output, call.compute⟩

/-- The inputs and the output of a call have the types of its builtin. -/
def Call.Typed (types : ℕ → Ty) : Call → Prop
  | store type c _ => types c = type
  | unary _ c a => types c = .integer ∧ types a = .integer
  | binary _ c a b => types c = .integer ∧ types a = .integer ∧ types b = .integer
  | eqString c a b | neqString c a b => types c = .integer ∧ types a = .string ∧ types b = .string
  | copyVoid c _ | zero c _ | toint c _ => types c = .integer
  | copyString c a => types c = .string ∧ types a = .string
  | strcat c _ => types c = .string
  | dircat c inputs => types c = .string ∧ ∀ a ∈ inputs, types a = .string
  | substring c s i n =>
    types c = .string ∧ types s = .string ∧ types i = .integer ∧ types n = .integer
  | find c str subs startIndex endIndex =>
    types c = .integer ∧ types str = .string ∧ types subs = .string ∧
      types startIndex = .integer ∧ types endIndex = .integer
  | parseInt c str base => types c = .integer ∧ types str = .string ∧ types base = .integer
  | fromint c a => types c = .string ∧ types a = .integer

end Turbine.Dataflow
