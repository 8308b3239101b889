import Turbine.Codec.Decode
import Turbine.Adlb.Packing

/-! Malformed buffers. What the container and multiset decoders should accept is stated on its own
(`WellFormed`); the faults of a buffer are listed in the order in which decoding meets them, and
the outcome of decoding is read off that list. -/

namespace Turbine.Codec

open Tcl Adlb

variable {Obj D : Type} (E : Env Obj D)

section WellFormed

/-- A property of the values nested in a buffer. -/
abbrev NestedProp (data : Bytes) := DataType → (s : Span data) → s.len < data.length → Prop

def KeyReadable {data : Bytes} (key : Span data) : Prop :=
  ∃ o, newStringObj E.tcl (data.drop key.pos) (intPred key.len) = .ok o

/-- The announced number of entries is there, each can be read, and they end where the data
ends. -/
def ContainerEntriesWellFormed {data : Bytes} (nested : NestedProp data)
    (keyType valType : DataType) : ℕ → ℕ → Prop
  | 0, pos => pos = data.length
  | n + 1, pos => ∃ entry, E.adlb.unpackContainerEntry keyType valType data pos = some entry ∧
      nested valType entry.val entry.val_lt ∧ KeyReadable E entry.key ∧
      ContainerEntriesWellFormed nested keyType valType n entry.next

def ContainerWellFormed (data : Bytes) (extra : TypeExtra) (nested : NestedProp data) : Prop :=
  ∃ entries keyType valType pos,
    E.adlb.unpackContainerHdr data 0 = some (entries, keyType, valType, pos) ∧
    (∀ k v, extra = .container k v → keyType = k ∧ valType = v) ∧
    ContainerEntriesWellFormed E nested keyType valType entries.toNat pos

def MultisetEntriesWellFormed {data : Bytes} (nested : NestedProp data) (elemType : DataType) :
    ℕ → ℕ → Prop
  | 0, pos => pos = data.length
  | n + 1, pos => ∃ entry, E.adlb.unpackMultisetEntry elemType data pos = some entry ∧
      nested elemType entry.elem entry.elem_lt ∧
      MultisetEntriesWellFormed nested elemType n entry.next

def MultisetWellFormed (data : Bytes) (extra : TypeExtra) (nested : NestedProp data) : Prop :=
  ∃ entries elemType pos,
    E.adlb.unpackMultisetHdr data 0 = some (entries, elemType, pos) ∧
    (∀ t, extra = .multiset t → elemType = t) ∧ 0 ≤ entries ∧
    MultisetEntriesWellFormed E nested elemType entries.toNat pos

/-- Well-formed packed data. Types other than containers and multisets have no structure of their
own here: they are well formed when they decode. -/
def WellFormed (type : DataType) (extra : TypeExtra) (data : Bytes) : Prop :=
  data.length ≤ E.adlb.dataMax ∧
    match type with
    | .container => ContainerWellFormed E data extra fun t s _h => WellFormed t .null s.bytes
    | .multiset => MultisetWellFormed E data extra fun t s _h => WellFormed t .null s.bytes
    | type => ∃ o, adlbDatum2tclobj E type extra data = .ok o
termination_by data.length
decreasing_by all_goals simpa using _h

def nestedWellFormed (data : Bytes) : NestedProp data := fun t s _ => WellFormed E t .null s.bytes

end WellFormed

section Faults

/-- What the decoder does about a fault: it reports an error, it ends the value it is in without
one, or its behaviour is not defined (a failed assertion included). -/
inductive Fault
  | reported
  | silent
  | fatal
deriving DecidableEq

def resultFault {α : Type} : TclResult α → Option Fault
  | .ok _ => none
  | .error _ => some .reported
  | .abort _ => some .fatal
  | .undefined => some .fatal

abbrev NestedFaults (data : Bytes) :=
  DataType → (s : Span data) → s.len < data.length → List Fault

def endFaults (data : Bytes) (pos : ℕ) : List Fault := if pos = data.length then [] else [.silent]

def containerEntryFaults {data : Bytes} (nested : NestedFaults data)
    (keyType valType : DataType) : ℕ → ℕ → List Fault
  | 0, pos => endFaults data pos
  | n + 1, pos =>
    match E.adlb.unpackContainerEntry keyType valType data pos with
    | none => [.silent]
    | some entry => nested valType entry.val entry.val_lt ++
        (resultFault (newStringObj E.tcl (data.drop entry.key.pos) (intPred entry.key.len))).toList ++
        containerEntryFaults nested keyType valType n entry.next

def containerFaults (data : Bytes) (extra : TypeExtra) (nested : NestedFaults data) : List Fault :=
  match E.adlb.unpackContainerHdr data 0 with
  | none => [.reported]
  | some (entries, keyType, valType, pos) =>
    (resultFault (checkContainerExtra E extra keyType valType)).toList ++
      containerEntryFaults E nested keyType valType entries.toNat pos

def multisetEntryFaults {data : Bytes} (nested : NestedFaults data) (elemType : DataType) :
    ℕ → ℕ → List Fault
  | 0, pos => endFaults data pos
  | n + 1, pos =>
    match E.adlb.unpackMultisetEntry elemType data pos with
    -- elements of the result are left unset
    | none => [.fatal]
    | some entry => nested elemType entry.elem entry.elem_lt ++
        multisetEntryFaults nested elemType n entry.next

def multisetFaults (data : Bytes) (extra : TypeExtra) (nested : NestedFaults data) : List Fault :=
  match E.adlb.unpackMultisetHdr data 0 with
  | none => [.reported]
  | some (entries, elemType, pos) =>
    (resultFault (checkMultisetExtra E extra elemType)).toList ++
      (if 0 ≤ entries then [] else [.fatal]) ++
      multisetEntryFaults E nested elemType entries.toNat pos

def faults (type : DataType) (extra : TypeExtra) (data : Bytes) : List Fault :=
  if data.length ≤ E.adlb.dataMax then
    match type with
    | .container => containerFaults E data extra fun t s _h => faults t .null s.bytes
    | .multiset => multisetFaults E data extra fun t s _h => faults t .null s.bytes
    | type => (resultFault (adlbDatum2tclobj E type extra data)).toList
  else [.fatal]
termination_by data.length
decreasing_by all_goals simpa using _h

def nestedFaults (data : Bytes) : NestedFaults data := fun t s _ => faults E t .null s.bytes

/-- The fault that decides the outcome: silent ones do not end the decoding. -/
def firstFault (fs : List Fault) : Option Fault := fs.find? fun f => f ≠ .silent

variable {E}

@[simp] lemma firstFault_nil : firstFault [] = none := rfl

lemma firstFault_append (fs gs : List Fault) :
    firstFault (fs ++ gs) = (firstFault fs).or (firstFault gs) := List.find?_append

@[simp] lemma firstFault_toList {α : Type} (r : TclResult α) :
    firstFault (resultFault r).toList = resultFault r := by
  cases r <;> rfl

lemma resultFault_bind {α β : Type} (r : TclResult α) (f : α → TclResult β) :
    resultFault (r >>= f) = (resultFault r).or (r.okValue.bind fun a => resultFault (f a)) := by
  cases r <;> simp [resultFault]

@[simp] lemma resultFault_addInfo {α : Type} (r : TclResult α) (msg : String) :
    resultFault (r.addInfo msg) = resultFault r := by
  cases r <;> rfl

lemma resultFault_eq_none {α : Type} {r : TclResult α} :
    resultFault r = none ↔ ∃ a, r = .ok a := by
  cases r <;> simp [resultFault]

lemma resultFault_unit {r : TclResult Unit} : resultFault r = none ↔ r = .ok () := by
  cases r <;> simp [resultFault]

lemma resultFault_eq_reported {α : Type} {r : TclResult α} :
    resultFault r = some .reported ↔ ∃ info, r = .error info := by
  cases r <;> simp [resultFault]

lemma resultFault_containerEntries {data : Bytes} {nested : Nested Obj data}
    {faultsOf : NestedFaults data}
    (h : ∀ t s hs, resultFault (nested t .null s hs) = firstFault (faultsOf t s hs))
    (keyType valType : DataType) (n pos : ℕ) (dict : List (Obj × Obj)) :
    resultFault (containerEntries E nested keyType valType n pos dict) =
      firstFault (containerEntryFaults E faultsOf keyType valType n pos) := by
  induction n generalizing pos dict with
  | zero =>
    simp only [containerEntries, containerEntryFaults, endFaults, resultFault]
    split <;> rfl
  | succ n ih =>
    simp only [containerEntries, containerEntryFaults]
    cases hentry : E.adlb.unpackContainerEntry keyType valType data pos with
    | none => rfl
    | some entry =>
      simp only [resultFault_bind, resultFault_addInfo, TclResult.okValue_addInfo,
        firstFault_append, firstFault_toList, h, ih]
      rw [← h]
      cases nested valType .null entry.val entry.val_lt with
      | ok val =>
        cases newStringObj E.tcl (data.drop entry.key.pos) (intPred entry.key.len) <;>
          simp [resultFault]
      | _ => simp [resultFault]

lemma resultFault_packedContainerToDict {data : Bytes} {nested : Nested Obj data}
    {faultsOf : NestedFaults data} (extra : TypeExtra)
    (h : ∀ t s hs, resultFault (nested t .null s hs) = firstFault (faultsOf t s hs)) :
    resultFault (packedContainerToDict E data extra nested) =
      firstFault (containerFaults E data extra faultsOf) := by
  simp only [packedContainerToDict, containerFaults]
  cases hhdr : E.adlb.unpackContainerHdr data 0 with
  | none => rfl
  | some hdr =>
    obtain ⟨entries, keyType, valType, pos⟩ := hdr
    have hloop := resultFault_containerEntries (E := E) h keyType valType entries.toNat pos []
    simp only [TclResult.require_some, TclResult.ok_bind, resultFault_bind, firstFault_append,
      firstFault_toList, ← hloop]
    cases checkContainerExtra E extra keyType valType with
    | ok _ =>
      cases containerEntries E nested keyType valType entries.toNat pos [] <;> simp [resultFault]
    | _ => simp [resultFault]

lemma resultFault_multisetEntries {data : Bytes} {nested : Nested Obj data}
    {faultsOf : NestedFaults data}
    (h : ∀ t s hs, resultFault (nested t .null s hs) = firstFault (faultsOf t s hs))
    (elemType : DataType) (n pos : ℕ) (arr : List Obj) :
    resultFault (multisetEntries E nested elemType n pos arr >>= fun exit => match exit with
      | .exitErr _ => .undefined
      | .done arr _ => .ok (E.tcl.newList arr)) =
      firstFault (multisetEntryFaults E faultsOf elemType n pos) := by
  induction n generalizing pos arr with
  | zero =>
    simp only [multisetEntries, multisetEntryFaults, endFaults, TclResult.ok_bind, resultFault]
    split <;> rfl
  | succ n ih =>
    simp only [multisetEntries, multisetEntryFaults]
    cases hentry : E.adlb.unpackMultisetEntry elemType data pos with
    | none => rfl
    | some entry =>
      simp only [firstFault_append, ← h]
      cases nested elemType .null entry.elem entry.elem_lt with
      | ok elem =>
        simp only [TclResult.addInfo_ok, TclResult.ok_bind, ih]
        simp [resultFault]
      | _ => rfl

lemma resultFault_packedMultisetToList {data : Bytes} {nested : Nested Obj data}
    {faultsOf : NestedFaults data} (extra : TypeExtra)
    (h : ∀ t s hs, resultFault (nested t .null s hs) = firstFault (faultsOf t s hs)) :
    resultFault (packedMultisetToList E data extra nested) =
      firstFault (multisetFaults E data extra faultsOf) := by
  simp only [packedMultisetToList, multisetFaults]
  cases hhdr : E.adlb.unpackMultisetHdr data 0 with
  | none => rfl
  | some hdr =>
    obtain ⟨entries, elemType, pos⟩ := hdr
    have hloop := resultFault_multisetEntries (E := E) h elemType entries.toNat pos []
    simp only [TclResult.require_some, TclResult.ok_bind, firstFault_append, firstFault_toList,
      ← hloop]
    cases checkMultisetExtra E extra elemType with
    | ok _ =>
      by_cases hneg : 0 ≤ entries
      · have hassert : TclResult.assert (decide (0 ≤ entries)) "entries >= 0" = .ok () := by
          simp [hneg]
        rw [hassert, if_pos hneg]
        rfl
      · simp [hneg, resultFault, firstFault, TclResult.assert]
    | _ => simp [resultFault]

variable {extra : TypeExtra} {data : Bytes}

lemma faults_container (h : data.length ≤ E.adlb.dataMax) :
    faults E .container extra data = containerFaults E data extra (nestedFaults E data) := by
  rw [faults.eq_def, if_pos h]
  rfl

lemma faults_multiset (h : data.length ≤ E.adlb.dataMax) :
    faults E .multiset extra data = multisetFaults E data extra (nestedFaults E data) := by
  rw [faults.eq_def, if_pos h]
  rfl

lemma faults_leaf {type : DataType} (h : data.length ≤ E.adlb.dataMax)
    (ht : type ≠ .container ∧ type ≠ .multiset) :
    faults E type extra data = (resultFault (adlbDatum2tclobj E type extra data)).toList := by
  rw [faults.eq_def, if_pos h]
  cases type <;> simp_all

/-- Decoding ends as its faults say, at every depth. -/
theorem resultFault_adlbDatum2tclobj (type : DataType) (extra : TypeExtra) (data : Bytes) :
    resultFault (adlbDatum2tclobj E type extra data) = firstFault (faults E type extra data) := by
  induction hlen : data.length using Nat.strong_induction_on generalizing type extra data with
  | _ len ih =>
    have hnested (t : DataType) (s : Span data) (hs : s.len < data.length) :
        resultFault (nestedDatum E data t .null s hs) = firstFault (nestedFaults E data t s hs) :=
      ih s.len (hlen ▸ hs) t .null s.bytes (by simp)
    by_cases hmax : data.length ≤ E.adlb.dataMax
    · by_cases hc : type = .container
      · subst hc
        rw [adlbDatum2tclobj_container hmax, faults_container hmax]
        exact resultFault_packedContainerToDict extra hnested
      by_cases hm : type = .multiset
      · subst hm
        rw [adlbDatum2tclobj_multiset hmax, faults_multiset hmax]
        exact resultFault_packedMultisetToList extra hnested
      rw [faults_leaf hmax ⟨hc, hm⟩, firstFault_toList]
    · rw [adlbDatum2tclobj_too_long hmax, faults.eq_def, if_neg hmax]
      rfl

end Faults

section Rejection

variable {E} {data : Bytes}

lemma containerEntriesWellFormed_iff {wf : NestedProp data} {faultsOf : NestedFaults data}
    (h : ∀ t s hs, wf t s hs ↔ faultsOf t s hs = []) (keyType valType : DataType) (n pos : ℕ) :
    ContainerEntriesWellFormed E wf keyType valType n pos ↔
      containerEntryFaults E faultsOf keyType valType n pos = [] := by
  induction n generalizing pos with
  | zero => simp [ContainerEntriesWellFormed, containerEntryFaults, endFaults]
  | succ n ih =>
    simp only [ContainerEntriesWellFormed, containerEntryFaults]
    cases E.adlb.unpackContainerEntry keyType valType data pos with
    | none => simp
    | some entry =>
      simp [h, ih, KeyReadable, ← resultFault_eq_none]

lemma checkContainerExtra_eq_ok {extra : TypeExtra} {keyType valType : DataType} :
    checkContainerExtra E extra keyType valType = .ok () ↔
      ∀ k v, extra = .container k v → keyType = k ∧ valType = v := by
  cases extra with
  | container k v =>
    simp [checkContainerExtra, TclResult.bind_eq_ok, TclResult.condition_eq_ok, and_comm]
  | _ => simp [checkContainerExtra]

lemma containerWellFormed_iff {wf : NestedProp data} {faultsOf : NestedFaults data}
    (h : ∀ t s hs, wf t s hs ↔ faultsOf t s hs = []) (extra : TypeExtra) :
    ContainerWellFormed E data extra wf ↔ containerFaults E data extra faultsOf = [] := by
  unfold ContainerWellFormed containerFaults
  cases E.adlb.unpackContainerHdr data 0 with
  | none => simp
  | some hdr =>
    obtain ⟨entries, keyType, valType, pos⟩ := hdr
    simp only [List.append_eq_nil_iff, Option.toList_eq_nil_iff, resultFault_unit,
      checkContainerExtra_eq_ok, ← containerEntriesWellFormed_iff h]
    constructor
    · rintro ⟨_, _, _, _, ⟨⟩, hextra, hentries⟩
      exact ⟨hextra, hentries⟩
    · rintro ⟨hextra, hentries⟩
      exact ⟨_, _, _, _, rfl, hextra, hentries⟩

lemma multisetEntriesWellFormed_iff {wf : NestedProp data} {faultsOf : NestedFaults data}
    (h : ∀ t s hs, wf t s hs ↔ faultsOf t s hs = []) (elemType : DataType) (n pos : ℕ) :
    MultisetEntriesWellFormed E wf elemType n pos ↔
      multisetEntryFaults E faultsOf elemType n pos = [] := by
  induction n generalizing pos with
  | zero => simp [MultisetEntriesWellFormed, multisetEntryFaults, endFaults]
  | succ n ih =>
    simp only [MultisetEntriesWellFormed, multisetEntryFaults]
    cases E.adlb.unpackMultisetEntry elemType data pos with
    | none => simp
    | some entry => simp [h, ih]

lemma checkMultisetExtra_eq_ok {extra : TypeExtra} {elemType : DataType} :
    checkMultisetExtra E extra elemType = .ok () ↔ ∀ t, extra = .multiset t → elemType = t := by
  cases extra with
  | multiset t => simp [checkMultisetExtra, TclResult.condition_eq_ok]
  | _ => simp [checkMultisetExtra]

lemma multisetWellFormed_iff {wf : NestedProp data} {faultsOf : NestedFaults data}
    (h : ∀ t s hs, wf t s hs ↔ faultsOf t s hs = []) (extra : TypeExtra) :
    MultisetWellFormed E data extra wf ↔ multisetFaults E data extra faultsOf = [] := by
  unfold MultisetWellFormed multisetFaults
  cases E.adlb.unpackMultisetHdr data 0 with
  | none => simp
  | some hdr =>
    obtain ⟨entries, elemType, pos⟩ := hdr
    simp only [List.append_eq_nil_iff, Option.toList_eq_nil_iff, resultFault_unit,
      checkMultisetExtra_eq_ok, ← multisetEntriesWellFormed_iff h, ite_eq_left_iff, List.cons_ne_nil, imp_false, not_not]
    constructor
    · rintro ⟨_, _, _, ⟨⟩, hextra, hneg, hentries⟩
      exact ⟨⟨hextra, hneg⟩, hentries⟩
    · rintro ⟨⟨hextra, hneg⟩, hentries⟩
      exact ⟨_, _, _, rfl, hextra, hneg, hentries⟩

/-- The well-formed buffers are those without a fault. -/
theorem wellFormed_iff (type : DataType) (extra : TypeExtra) (data : Bytes) :
    WellFormed E type extra data ↔ faults E type extra data = [] := by
  induction hlen : data.length using Nat.strong_induction_on generalizing type extra data with
  | _ len ih =>
    have hnested (t : DataType) (s : Span data) (hs : s.len < data.length) :
        nestedWellFormed E data t s hs ↔ nestedFaults E data t s hs = [] :=
      ih s.len (hlen ▸ hs) t .null s.bytes (by simp)
    rw [WellFormed.eq_def]
    by_cases hmax : data.length ≤ E.adlb.dataMax
    · rw [and_iff_right hmax]
      cases type
      case container =>
        rw [faults_container hmax]
        exact containerWellFormed_iff hnested extra
      case multiset =>
        rw [faults_multiset hmax]
        exact multisetWellFormed_iff hnested extra
      all_goals
        rw [faults_leaf hmax (by simp), Option.toList_eq_nil_iff, resultFault_eq_none]
    · rw [faults.eq_def, if_neg hmax]
      simp [hmax]

/-- What a decoder must do: succeed on well-formed data only, and report everything else. -/
def RejectsMalformed (result : TclResult Obj) (wellFormed : Prop) : Prop :=
  ((∃ o, result = .ok o) → wellFormed) ∧ (¬wellFormed → ∃ info, result = .error info)

lemma rejectsMalformed_iff {result : TclResult Obj} {wellFormed : Prop} {fs : List Fault}
    (hresult : resultFault result = firstFault fs) (hwf : wellFormed ↔ fs = []) :
    RejectsMalformed result wellFormed ↔ fs = [] ∨ firstFault fs = some .reported := by
  unfold RejectsMalformed
  rw [← resultFault_eq_none, ← resultFault_eq_reported, hresult, hwf]
  constructor
  · rintro ⟨-, hreport⟩
    by_cases hnil : fs = []
    · exact Or.inl hnil
    · exact Or.inr (hreport hnil)
  · rintro (rfl | hreported)
    · exact ⟨fun _ => rfl, fun h => absurd rfl h⟩
    · exact ⟨fun h => absurd (h.symm.trans hreported) (by simp), fun _ => hreported⟩

theorem rejectsMalformed_iff_reported (E : Env Obj D) (data : Bytes) (extra : TypeExtra) :
    (RejectsMalformed (packedContainerToDict E data extra (nestedDatum E data))
        (ContainerWellFormed E data extra (nestedWellFormed E data)) ↔
      containerFaults E data extra (nestedFaults E data) = [] ∨
        firstFault (containerFaults E data extra (nestedFaults E data)) = some .reported) ∧
    (RejectsMalformed (packedMultisetToList E data extra (nestedDatum E data))
        (MultisetWellFormed E data extra (nestedWellFormed E data)) ↔
      multisetFaults E data extra (nestedFaults E data) = [] ∨
        firstFault (multisetFaults E data extra (nestedFaults E data)) = some .reported) := by
  have hdecode (t : DataType) (s : Span data) (hs : s.len < data.length) :
      resultFault (nestedDatum E data t .null s hs) = firstFault (nestedFaults E data t s hs) :=
    resultFault_adlbDatum2tclobj t .null s.bytes
  have hwf (t : DataType) (s : Span data) (hs : s.len < data.length) :
      nestedWellFormed E data t s hs ↔ nestedFaults E data t s hs = [] :=
    wellFormed_iff t .null s.bytes
  constructor
  · exact rejectsMalformed_iff (resultFault_packedContainerToDict extra hdecode)
      (containerWellFormed_iff hwf extra)
  · exact rejectsMalformed_iff (resultFault_packedMultisetToList extra hdecode)
      (multisetWellFormed_iff hwf extra)

/-- An empty container with a byte behind it. -/
def trailingByte : Bytes := packing.containerHdr 0 .string .integer ++ [0]

/-- The decoder returns an empty dictionary for it. -/
theorem not_rejectsMalformed_trailingByte :
    ¬RejectsMalformed
      (packedContainerToDict (packingEnv []) trailingByte .null (nestedDatum (packingEnv []) _))
      (ContainerWellFormed (packingEnv []) trailingByte .null (nestedWellFormed (packingEnv []) _)) := by
  have hhdr : (packingEnv []).adlb.unpackContainerHdr trailingByte 0 = some (0, .string, .integer, _) :=
    packing_lawful.unpack_containerHdr 0 .string .integer [0] (by norm_num)
  rintro ⟨hok, -⟩
  obtain ⟨entries, k, v, pos, hhdr', -, hend⟩ := hok ⟨(packingEnv []).tcl.newDict [], by
    simp [packedContainerToDict, hhdr, checkContainerExtra, containerEntries, LoopExit.acc]⟩
  cases hhdr.symm.trans hhdr'
  exact absurd hend (by simp [ContainerEntriesWellFormed, trailingByte])

end Rejection

end Turbine.Codec
