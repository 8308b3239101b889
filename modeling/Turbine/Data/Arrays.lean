import Turbine.Library.Commands
import Turbine.Library.OrderedDict

/-! Data and arrays that the server keeps, and the commands of the scripts that read and fill
them. -/

namespace Turbine.Data.Arrays

open Turbine.Library

inductive Stop
  | unset (id : ℕ)
  | doubleWrite (id : ℕ)
  | divideByZero
  -- the turns that a loop was given are used up
  | unfinished

/-- What the server keeps of the data. -/
structure Store (K V : Type) where
  value : ℕ → Option V
  readRefs : ℕ → ℤ
  contents : ℕ → OrderedDict K V
  writeRefs : ℕ → ℤ

abbrev Script (K V : Type) := Cmd (Store K V) Stop

section Scalars

variable {K V : Type} {s : Store K V}

def Store.read (s : Store K V) (id : ℕ) : Store K V :=
  { s with readRefs := Function.update s.readRefs id (s.readRefs id - 1) }

def retrieveDecr (id : ℕ) : Script K V V := fun s =>
  match s.value id with
  | none => (.error (.unset id), s)
  | some v => (.ok v, s.read id)

def store (id : ℕ) (v : V) : Script K V Unit := fun s =>
  match s.value id with
  | some _ => (.error (.doubleWrite id), s)
  | none => (.ok (), { s with value := Function.update s.value id (some v) })

lemma retrieveDecr_apply {id : ℕ} {v : V} (h : s.value id = some v) :
    retrieveDecr id s = (.ok v, s.read id) := by
  rw [retrieveDecr, h]

lemma store_apply {id : ℕ} (h : s.value id = none) (v : V) :
    store id v s = (.ok (), { s with value := Function.update s.value id (some v) }) := by
  rw [store, h]

end Scalars

section Contents

variable {K V : Type} [DecidableEq K] {s : Store K V} {c : ℕ}

def Store.fill (s : Store K V) (c : ℕ) (kvDict : OrderedDict K V) (writeDecr : ℤ) : Store K V :=
  { s with
    contents := Function.update s.contents c
      (kvDict.entries.foldl (fun d e => d.set e.1 e.2) (s.contents c))
    writeRefs := Function.update s.writeRefs c (s.writeRefs c - writeDecr) }

def arrayKvBuild (c : ℕ) (kvDict : OrderedDict K V) (writeDecr : ℤ) : Script K V Unit := fun s =>
  if kvDict.keys.all (· ∉ (s.contents c).keys) then (.ok (), s.fill c kvDict writeDecr)
  else (.error (.doubleWrite c), s)

lemma entries_fill (hc : s.contents c = .empty) (d : OrderedDict K V) (writeDecr : ℤ) :
    ((s.fill c d writeDecr).contents c).entries = d.entries := by
  have h := OrderedDict.entries_foldl_set (d := .empty) (l := d.entries) (by
    simpa [OrderedDict.keys, OrderedDict.empty] using d.nodup)
  simpa [Store.fill, hc, OrderedDict.empty] using h

lemma arrayKvBuild_apply (hc : s.contents c = .empty) (d : OrderedDict K V) (writeDecr : ℤ) :
    arrayKvBuild c d writeDecr s = (.ok (), s.fill c d writeDecr) := by
  rw [arrayKvBuild, hc, if_pos]
  simp [OrderedDict.keys, OrderedDict.empty]

end Contents

end Turbine.Data.Arrays
