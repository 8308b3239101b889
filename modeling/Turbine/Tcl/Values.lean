import Turbine.Tcl.Api
import Turbine.Library.Numerals

/-! Concrete Tcl values: strings, double values by their bits, blobs, lists and dictionaries. -/

namespace Turbine.Tcl

open Library

inductive Value
  | str (s : Bytes)
  | double (bits : UInt64)
  | blob (data : Bytes)
  | list (l : List Value)
  | dict (d : List (Value × Value))

namespace Value

def space : UInt8 := 32

mutual

/-- The string form, for words that need no quotes. Double values and blobs are opaque: their text
only stands in for the one that Tcl prints. -/
def text : Value → Bytes
  | str s => s
  | double bits => decimal bits.toNat
  | blob data => data
  | list l => [space].intercalate (listTexts l)
  | dict d => [space].intercalate (dictTexts d)

def listTexts : List Value → List Bytes
  | [] => []
  | v :: l => text v :: listTexts l

def dictTexts : List (Value × Value) → List Bytes
  | [] => []
  | e :: d => entryTexts e ++ dictTexts d

def entryTexts : Value × Value → List Bytes
  | (key, val) => [text key, text val]

end

def wideInt (v : Value) : Option Int64 :=
  (parseInt v.text).bind fun n =>
    if -2 ^ 63 ≤ n ∧ n < 2 ^ 63 then some (Int64.ofInt n) else none

def doubleBits : Value → Option UInt64
  | double bits => some bits
  | _ => none

def blobData : Value → Option Bytes
  | blob data => some data
  | _ => none

def entries : Value → Option (List (Value × Value))
  | dict d => if (d.map fun e => e.1.text).Nodup ∧ d.length < 2 ^ 31 then some d else none
  | _ => none

def elements : Value → Option (List Value)
  | list l => if l.length < 2 ^ 31 then some l else none
  | _ => none

end Value

def values : TclApi Value UInt64 where
  getString := Value.text
  getWideInt := Value.wideInt
  getDouble := Value.doubleBits
  getBlob := Value.blobData
  getDict := Value.entries
  getList := Value.elements
  newWideInt n := .str (decimal n.toInt)
  newDouble := .double
  newString := .str
  newBlob := .blob
  newDict := .dict
  newList := .list
  dict_nodup v d h := by
    cases v with
    | dict d' =>
      obtain ⟨hcond, rfl⟩ : _ ∧ d' = d := by simpa [Value.entries] using h
      exact hcond.1
    | _ => cases h
  dict_size v d h := by
    cases v with
    | dict d' =>
      obtain ⟨hcond, rfl⟩ : _ ∧ d' = d := by simpa [Value.entries] using h
      exact hcond.2
    | _ => cases h
  list_size v l h := by
    cases v with
    | list l' =>
      obtain ⟨hcond, rfl⟩ : _ ∧ l' = l := by simpa [Value.elements] using h
      exact hcond
    | _ => cases h

lemma Value.wideInt_decimal {v : Value} {n : Int64} (h : v.text = decimal n.toInt) :
    v.wideInt = some n := by
  have hrange := And.intro n.le_toInt n.toInt_lt
  rw [wideInt, h, parseInt_decimal, Option.bind_some, if_pos hrange, Int64.ofInt_toInt]

theorem values_lawful : values.Lawful where
  getString_newString _ := rfl
  getWideInt_newWideInt _ := Value.wideInt_decimal rfl
  getDouble_newDouble _ := rfl
  getBlob_newBlob _ := rfl
  getDict_newDict _ hnodup hsize := if_pos ⟨hnodup, hsize⟩
  getList_newList _ hsize := if_pos hsize

end Turbine.Tcl
