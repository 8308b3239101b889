import Turbine.References.Shares

/-! The asynchronous builtins on containers and structs, and what their rules own until they fire. -/

namespace Turbine.References

open Turbine.Library Shares

inductive Copied
  | integer | void | float | string | blob

/-- A call of a builtin. Subscripts are futures where their names are those of futures, and texts
otherwise; the types of what is stored are left out. -/
inductive Call
  | cFInsert (c i d writeRefcountDecrs : ℕ) (writeRefcountIncr : Bool)
  | cFInsertR (c i r writeRefcountDecrs : ℕ) (writeRefcountIncr : Bool)
  | cVInsertR (c : ℕ) (i : Text) (r writeRefcountDecrs : ℕ) (writeRefcountIncr : Bool)
  | cFLookup (c i r : ℕ)
  | dereference (type : Copied) (v r : ℕ)
  | copy (type : Copied) (o i : ℕ)
  | crVLookup (cr : ℕ) (i : Text) (d : ℕ)
  | crFLookup (cr i d : ℕ)
  | crFInsert (cr j d : ℕ)
  | crVInsert (cr : ℕ) (j : Text) (d : ℕ)
  | crVInsertR (cr : ℕ) (j : Text) (dr : ℕ)
  | crFInsertR (cr j dr : ℕ)
  | cFCreate (r c i decrWrite decrRead : ℕ)
  | crVCreate (r cr : ℕ) (i : Text)
  | crFCreate (r cr i : ℕ)
  | containerSize (result container : ℕ)
  | existsMember (result c i : ℕ)
  | contains (result c i : ℕ)
  | structrefReference (structr : ℕ) (subscript : Text) (result : ℕ)
  | structInsertR (struct : ℕ) (subscript : Text) (r writeRefcountDecrs : ℕ)
      (writeRefcountIncr : Bool)

/-! ### Bodies -/

def cFInsertBody (c i d writeRefcountDecrs : ℕ) : Script Unit := do
  let s ← retrieveDecr i
  containerInsert c s d writeRefcountDecrs 0

def cFInsertRBody (c i r writeRefcountDecrs : ℕ) : Script Unit := do
  let t1 ← retrieveDecr i
  let d ← acquireRef r 1 1
  containerInsert c t1 d writeRefcountDecrs 0

def cVInsertRBody (c : ℕ) (i : Text) (r writeRefcountDecrs : ℕ) : Script Unit := do
  let d ← acquireRef r 1 1
  containerInsert c i d writeRefcountDecrs 0

def cFLookupBody (c i r : ℕ) : Script Unit := do
  let t1 ← retrieveDecr i
  containerReference c t1 r

def dereferenceBody (type : Copied) (v r : ℕ) : Script Call := do
  let id ← acquireRef r 1 1
  return .copy type v id

/-- Void has no value to be read, and is emulated by an integer. -/
def copyBody (type : Copied) (o i : ℕ) : Script Unit :=
  match type with
  | .void => do
    storeValue o (Nat.toDigits 10 12345)
    drop i .read 1
  | _ => do
    let iValue ← retrieveDecr i
    storeValue o iValue

def crVLookupBody (cr : ℕ) (i : Text) (d : ℕ) : Script Unit := do
  let c ← acquireRef cr 1 1
  containerReference c i d

def crFLookupBody (cr i d : ℕ) : Script Unit := do
  let c ← acquireRef cr 1 1
  let t1 ← retrieveDecr i
  containerReference c t1 d

def crFInsertBody (cr j d : ℕ) : Script Unit := do
  let c ← acquireWriteRef cr 1 1 1
  let s ← retrieveDecr j
  containerInsert c s d 1 1

def crVInsertBody (cr : ℕ) (j : Text) (d : ℕ) : Script Unit := do
  let c ← acquireWriteRef cr 1 1 1
  containerInsert c j d 1 1

def crVInsertRBody (cr : ℕ) (j : Text) (dr : ℕ) : Script Unit := do
  let c ← acquireWriteRef cr 1 1 1
  let d ← acquireRef dr 1 1
  containerInsert c j d 1 1

def crFInsertRBody (cr j dr : ℕ) : Script Unit := do
  let c ← acquireWriteRef cr 1 1 1
  let d ← acquireRef dr 1 1
  let jval ← retrieveDecr j
  containerInsert c jval d 1 1

def cFCreateBody (r c i decrWrite decrRead : ℕ) : Script Unit := do
  let s ← retrieveDecr i
  let res ← createNested c s 1 1 decrWrite decrRead
  storeRwRef r res

def crVCreateBody (r cr : ℕ) (i : Text) : Script Unit := do
  let c ← acquireWriteRef cr 1 1 1
  let res ← createNested c i 1 1 1 1
  storeRwRef r res

def crFCreateBody (r cr i : ℕ) : Script Unit := do
  let c ← acquireWriteRef cr 1 1 1
  let s ← retrieveDecr i
  let res ← createNested c s 1 1 1 1
  storeRwRef r res

def containerSizeBody (result container : ℕ) : Script Unit := do
  let sz ← containerSize container 1
  storeValue result (Nat.toDigits 10 sz)

def existsBody (result c i : ℕ) : Script Unit := do
  let iVal ← retrieveDecr i
  let present ← existsSub c iVal 1
  storeValue result (if present then ['1'] else ['0'])

def containsBody (result c i : ℕ) : Script Unit := do
  let iVal ← retrieveDecr i
  let present ← existsSub c iVal 1
  storeValue result (if present then ['1'] else ['0'])

def structrefReferenceBody (structr : ℕ) (subscript : Text) (result : ℕ) : Script Unit := do
  let struct ← acquireRef structr 1 1
  containerReference struct subscript result

def structInsertRBody (struct : ℕ) (subscript : Text) (r writeRefcountDecrs : ℕ) : Script Unit := do
  let d ← acquireRef r 1 1
  adlbInsert struct subscript d writeRefcountDecrs 0

/-! ### Calls -/

namespace Call

/-- The futures and containers that the rule waits for. -/
def inputs : Call → List ℕ
  | cFInsert _ i _ _ _ => [i]
  | cFInsertR _ i r _ _ => [i, r]
  | cVInsertR _ _ r _ _ => [r]
  | cFLookup _ i _ => [i]
  | dereference _ _ r => [r]
  | copy _ _ i => [i]
  | crVLookup cr _ _ => [cr]
  | crFLookup cr i _ => [cr, i]
  | crFInsert cr j _ => [cr, j]
  | crVInsert cr _ _ => [cr]
  | crVInsertR cr _ dr => [cr, dr]
  | crFInsertR cr j dr => [cr, j, dr]
  | cFCreate _ _ i _ _ => [i]
  | crVCreate _ cr _ => [cr]
  | crFCreate _ cr i => [cr, i]
  | containerSize _ container => [container]
  | existsMember _ _ i => [i]
  | contains _ c i => [c, i]
  | structrefReference structr _ _ => [structr]
  | structInsertR _ _ r _ _ => [r]

/-- What the call does before it makes the rule. -/
def front : Call → Script Unit
  | cFInsert c _ _ _ incr | cFInsertR c _ _ _ incr | cVInsertR c _ _ _ incr
  | structInsertR c _ _ _ incr => if incr then acquire c .write 1 else pure ()
  | _ => pure ()

/-- The action of the rule, and the rules that are made by it. -/
def body : Call → Script (Multiset Call)
  | cFInsert c i d decrs _ => do cFInsertBody c i d decrs; return 0
  | cFInsertR c i r decrs _ => do cFInsertRBody c i r decrs; return 0
  | cVInsertR c i r decrs _ => do cVInsertRBody c i r decrs; return 0
  | cFLookup c i r => do cFLookupBody c i r; return 0
  | dereference type v r => do return {← dereferenceBody type v r}
  | copy type o i => do copyBody type o i; return 0
  | crVLookup cr i d => do crVLookupBody cr i d; return 0
  | crFLookup cr i d => do crFLookupBody cr i d; return 0
  | crFInsert cr j d => do crFInsertBody cr j d; return 0
  | crVInsert cr j d => do crVInsertBody cr j d; return 0
  | crVInsertR cr j dr => do crVInsertRBody cr j dr; return 0
  | crFInsertR cr j dr => do crFInsertRBody cr j dr; return 0
  | cFCreate r c i decrWrite decrRead => do cFCreateBody r c i decrWrite decrRead; return 0
  | crVCreate r cr i => do crVCreateBody r cr i; return 0
  | crFCreate r cr i => do crFCreateBody r cr i; return 0
  | containerSize result container => do containerSizeBody result container; return 0
  | existsMember result c i => do existsBody result c i; return 0
  | contains result c i => do containsBody result c i; return 0
  | structrefReference structr subscript result => do
    structrefReferenceBody structr subscript result; return 0
  | structInsertR struct subscript r decrs _ => do
    structInsertRBody struct subscript r decrs; return 0

/-- What the rule owns until it fires. -/
def owns : Call → Share Token
  | cFInsert c i d decrs _ => readOf i + readOf d + decrs • writeOf c
  | cFInsertR c i r decrs _ => readOf i + readOf r + decrs • writeOf c
  | cVInsertR c _ r decrs _ | structInsertR c _ r decrs _ =>
    readOf r + decrs • writeOf c
  | cFLookup c i r => readOf i + (readOf c + writeOf r)
  | dereference _ v r | copy _ v r => readOf r + writeOf v
  | crVLookup cr _ d => readOf cr + writeOf d
  | crFLookup cr i d => readOf cr + (readOf i + writeOf d)
  | crFInsert cr j d => readOf cr + (readOf j + readOf d)
  | crVInsert cr _ d => readOf cr + readOf d
  | crVInsertR cr _ dr => readOf cr + readOf dr
  | crFInsertR cr j dr => readOf cr + (readOf dr + readOf j)
  | cFCreate r c i decrWrite decrRead =>
    readOf i + (decrWrite • writeOf c + decrRead • readOf c + writeOf r)
  | crVCreate r cr _ => readOf cr + writeOf r
  | crFCreate r cr i => readOf cr + (readOf i + writeOf r)
  | containerSize result container => readOf container + writeOf result
  | existsMember result c i | contains result c i =>
    readOf i + (readOf c + writeOf result)
  | structrefReference structr _ result => readOf structr + writeOf result

/-- The write reference that the call takes for its rule; the caller keeps the one it has. -/
def takes : Call → Share Token
  | cFInsert c _ _ _ incr | cFInsertR c _ _ _ incr | cVInsertR c _ _ _ incr
  | structInsertR c _ _ _ incr => if incr then writeOf c else 0
  | _ => 0

/-- What the caller hands over to the rule. -/
def passes (call : Call) : Share Token := call.owns - call.takes

/-- How the builtins are to be called: a rule that writes owns a write reference or gets one with
its reference, and what a lookup sets is not to be written through. -/
def Sound (writable : ℕ → Prop) : Call → Prop
  | cFInsert _ _ _ decrs _ | cFInsertR _ _ _ decrs _ | cVInsertR _ _ _ decrs _
  | structInsertR _ _ _ decrs _ => 1 ≤ decrs
  | cFLookup _ _ r => ¬ writable r
  | crVLookup _ _ d | crFLookup _ _ d | structrefReference _ _ d => ¬ writable d
  | crFInsert cr _ _ | crVInsert cr _ _ | crVInsertR cr _ _ | crFInsertR cr _ _
  | crVCreate _ cr _ | crFCreate _ cr _ => writable cr
  | cFCreate _ _ _ decrWrite _ => 1 ≤ decrWrite
  | dereference _ _ _ | copy _ _ _ | containerSize _ _ | existsMember _ _ _ | contains _ _ _ => True

end Call

end Turbine.References
