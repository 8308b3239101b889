import Turbine.Data.ParseInt
import Turbine.Strings.Substrings

/-! Builtin functions on integers and strings: the rule that each of them makes, and the body that
runs when the inputs of the rule are set. -/

namespace Turbine.Dataflow

open Turbine.Library Radix Turbine.Data.Integers Turbine.Strings.Substrings

structure Rule where
  inputs : List ℕ
  action : Script Unit
  name : String

def retrieveDecrInteger (id : ℕ) : Script Text := retrieveInteger id "CACHED" 1

def retrieveDecrString (id : ℕ) : Script Text := retrieveString id "CACHED" 1

def retrieveDecr (id : ℕ) : Script Text := adlbRetrieveDecr id 1 none

/-- Void is emulated with an integer. -/
def storeVoid (id : ℕ) : Script Unit := adlbStore id .integer (text 12345)

/-! ### Expressions -/

/-- An operand of `expr`; typed retrieves return no others than integers. -/
def operand (value : Text) : Except Stop ℤ :=
  let (negative, digits) := signed (trim value)
  match tclNumber digits with
  | some n => .ok (withSign negative n)
  | none => .error (.badValue value)

def expr₁ (f : ℤ → ℤ) (a : Text) : Except Stop Text := do
  return text (f (← operand a))

def expr₂ (f : ℤ → ℤ → ℤ) (a b : Text) : Except Stop Text := do
  let a ← operand a
  return text (f a (← operand b))

def truth (b : Bool) : ℤ := if b then 1 else 0

def divideByZero : Stop := .user "divide by zero"

/-- Java's truncated division, by way of absolute values and signs. -/
def divideIntegerImpl (a b : Text) : Except Stop Text := do
  let a ← operand a
  let b ← operand b
  let sign := 1
  let sign := if a < 0 then sign * -1 else sign
  let sign := if b < 0 then sign * -1 else sign
  if |b| = 0 then throw divideByZero
  return text (sign * Int.fdiv |a| |b|)

def modIntegerImpl (a b : Text) : Except Stop Text := do
  let a ← operand a
  let b ← operand b
  let sign := if a ≥ 0 then 1 else -1
  if |b| = 0 then throw divideByZero
  return text (sign * Int.fmod |a| |b|)

/-- `&&` does not look at the second operand if the first is false. -/
def exprAnd (a b : Text) : Except Stop Text := do
  if (← operand a) = 0 then return text 0
  return text (truth ((← operand b) ≠ 0))

def exprOr (a b : Text) : Except Stop Text := do
  if (← operand a) ≠ 0 then return text 1
  return text (truth ((← operand b) ≠ 0))

/-- The index of a character, for which Tcl takes 32 bits. -/
def index (value : Text) : Except Stop ℤ :=
  match getInt value with
  | some i => .ok i
  | none => .error (.badValue value)

def substringImpl (s i n : Text) : Except Stop Text := do
  let last := text ((← operand i) + (← operand n) - 1)
  let first ← index i
  return stringRange s first (← index last)

def findTextImpl (str subs startIndex endIndex : Text) : Except Stop Text := do
  let endIndex ← operand endIndex
  return text (findImpl str subs (← index startIndex) endIndex)

/-! ### Bodies -/

def unaryBody (impl : Text → Except Stop Text) (c a : ℕ) : Script Unit := do
  let aValue ← retrieveDecrInteger a
  storeInteger c (← Cmd.ofExcept (impl aValue))

def binaryBody (impl : Text → Text → Except Stop Text) (c a b : ℕ) : Script Unit := do
  let aValue ← retrieveDecrInteger a
  let bValue ← retrieveDecrInteger b
  storeInteger c (← Cmd.ofExcept (impl aValue bValue))

def compareStringsBody (p : Text → Text → Bool) (c a b : ℕ) : Script Unit := do
  let aValue ← retrieveDecrString a
  let bValue ← retrieveDecrString b
  storeInteger c (text (truth (p aValue bValue)))

def plusIntegerBody := binaryBody (expr₂ (· + ·))

def minusIntegerBody := binaryBody (expr₂ (· - ·))

def multiplyIntegerBody := binaryBody (expr₂ (· * ·))

def divideIntegerBody := binaryBody divideIntegerImpl

def modIntegerBody := binaryBody modIntegerImpl

def maxIntegerBody := binaryBody (expr₂ max)

def minIntegerBody := binaryBody (expr₂ min)

def negateIntegerBody := unaryBody (expr₁ (0 - ·))

def absIntegerBody := unaryBody (expr₁ (|·|))

def notBody := unaryBody (expr₁ fun a => truth (a = 0))

def andBody := binaryBody exprAnd

def orBody := binaryBody exprOr

def eqIntegerBody := binaryBody (expr₂ fun a b => truth (a = b))

def neqIntegerBody := binaryBody (expr₂ fun a b => truth (a ≠ b))

def ltIntegerBody := binaryBody (expr₂ fun a b => truth (a < b))

def lteIntegerBody := binaryBody (expr₂ fun a b => truth (a ≤ b))

def gtIntegerBody := binaryBody (expr₂ fun a b => truth (a > b))

def gteIntegerBody := binaryBody (expr₂ fun a b => truth (a ≥ b))

def eqStringBody := compareStringsBody (· = ·)

def neqStringBody := compareStringsBody fun a b => !(a = b)

def copyIntegerBody (o i : ℕ) : Script Unit := do
  let iValue ← retrieveDecrInteger i
  storeInteger o iValue

def copyVoidBody (o i : ℕ) : Script Unit := do
  storeVoid o
  readRefcountDecr i 1

def copyStringBody (o i : ℕ) : Script Unit := do
  let iValue ← retrieveDecrString i
  storeString o iValue

def zeroBody (output input : ℕ) : Script Unit := do
  readRefcountDecr input 1
  storeInteger output (text 0)

def strcatBody (result : ℕ) (args : List ℕ) : Script Unit := do
  let output ← args.mapM retrieveDecr
  storeString result output.flatten

def dircatBody (result : ℕ) (args : List ℕ) : Script Unit := do
  let output ← args.mapM retrieveDecrString
  storeString result (List.intercalate ['/'] output)

def substringBody (result s i n : ℕ) : Script Unit := do
  let sValue ← retrieveDecrString s
  let iValue ← retrieveDecrInteger i
  let nValue ← retrieveDecrInteger n
  storeString result (← Cmd.ofExcept (substringImpl sValue iValue nValue))

def findBody (result str subs startIndex endIndex : ℕ) : Script Unit := do
  let strValue ← retrieveDecrString str
  let subsValue ← retrieveDecrString subs
  let startIndexValue ← retrieveDecrInteger startIndex
  let endIndexValue ← retrieveDecrInteger endIndex
  storeInteger result
    (← Cmd.ofExcept (findTextImpl strValue subsValue startIndexValue endIndexValue))

/-! ### Rules -/

def plusInteger (c a b : ℕ) : Rule := ⟨[a, b], plusIntegerBody c a b, s!"plus-{a}-{b}"⟩

def minusInteger (c a b : ℕ) : Rule := ⟨[a, b], minusIntegerBody c a b, s!"minus-{a}-{b}"⟩

def multiplyInteger (c a b : ℕ) : Rule := ⟨[a, b], multiplyIntegerBody c a b, s!"mult-{a}-{b}"⟩

def divideInteger (c a b : ℕ) : Rule := ⟨[a, b], divideIntegerBody c a b, s!"div-{a}-{b}"⟩

def modInteger (c a b : ℕ) : Rule := ⟨[a, b], modIntegerBody c a b, s!"mod-{a}-{b}"⟩

def maxInteger (c a b : ℕ) : Rule := ⟨[a, b], maxIntegerBody c a b, s!"max-{a}-{b}"⟩

def minInteger (c a b : ℕ) : Rule := ⟨[a, b], minIntegerBody c a b, s!"min-{a}-{b}"⟩

def negateInteger (c a : ℕ) : Rule := ⟨[a], negateIntegerBody c a, s!"negate-{a}"⟩

def absInteger (c a : ℕ) : Rule := ⟨[a], absIntegerBody c a, s!"abs_integer-{a}"⟩

def notRule (o i : ℕ) : Rule := ⟨[i], notBody o i, s!"not-{o}-{i}"⟩

def andRule (c a b : ℕ) : Rule := ⟨[a, b], andBody c a b, s!"and-{c}-{a}-{b}"⟩

def orRule (c a b : ℕ) : Rule := ⟨[a, b], orBody c a b, s!"or-{c}-{a}-{b}"⟩

def eqInteger (c a b : ℕ) : Rule := ⟨[a, b], eqIntegerBody c a b, s!"eq_integer-{a}-{b}"⟩

def neqInteger (c a b : ℕ) : Rule := ⟨[a, b], neqIntegerBody c a b, s!"neq_integer-{c}-{a}-{b}"⟩

def ltInteger (c a b : ℕ) : Rule := ⟨[a, b], ltIntegerBody c a b, s!"lt_integer-{c}-{a}-{b}"⟩

def lteInteger (c a b : ℕ) : Rule := ⟨[a, b], lteIntegerBody c a b, s!"lte_integer-{c}-{a}-{b}"⟩

def gtInteger (c a b : ℕ) : Rule := ⟨[a, b], gtIntegerBody c a b, s!"gt_integer-{c}-{a}-{b}"⟩

def gteInteger (c a b : ℕ) : Rule := ⟨[a, b], gteIntegerBody c a b, s!"gte_integer-{c}-{a}-{b}"⟩

def eqString (c a b : ℕ) : Rule := ⟨[a, b], eqStringBody c a b, s!"eq_string-{a}-{b}"⟩

def neqString (c a b : ℕ) : Rule := ⟨[a, b], neqStringBody c a b, s!"neq_string-{a}-{b}"⟩

def copyInteger (o i : ℕ) : Rule := ⟨[i], copyIntegerBody o i, s!"copy-{o}-{i}"⟩

def copyVoid (o i : ℕ) : Rule := ⟨[i], copyVoidBody o i, s!"copy-{o}-{i}"⟩

def copyString (o i : ℕ) : Rule := ⟨[i], copyStringBody o i, s!"copystring-{o}-{i}"⟩

def zero (outputs inputs : ℕ) : Rule :=
  ⟨[inputs], zeroBody outputs inputs, s!"zero-{outputs}-{inputs}"⟩

def strcat (result : ℕ) (inputs : List ℕ) : Rule :=
  ⟨inputs, strcatBody result inputs, s!"strcat-{result}"⟩

def dircat (result : ℕ) (inputs : List ℕ) : Rule :=
  ⟨inputs, dircatBody result inputs, s!"dircat-{result}"⟩

def substring (result s i n : ℕ) : Rule :=
  ⟨[s, i, n], substringBody result s i n, s!"substring-{s}-{i}-{n}"⟩

def find (result str subs startIndex endIndex : ℕ) : Rule :=
  ⟨[str, subs, startIndex, endIndex], findBody result str subs startIndex endIndex,
    s!"find-{result}"⟩

def toint (result input : ℕ) : Rule := ⟨[input], tointBody input result, s!"toint-{input}"⟩

def parseIntRule (result str base : ℕ) : Rule :=
  ⟨[str, base], parseIntBody str base result, s!"parse_int-{str} {base}"⟩

def fromint (result input : ℕ) : Rule :=
  ⟨[input], fromintBody result input, s!"fromint-{input}-{result}"⟩

end Turbine.Dataflow
