import Turbine.Library.Printf

/-! Error messages of the extension: a failing check prints the name of the command and what went
wrong into a buffer of a fixed size on the stack. -/

namespace Turbine.Tcl

open Library.CStrings Library.Printf

def tclConditionMsgMax : ℕ := 1024

def conditionTexts (commandname msg : List UInt8) : List (List UInt8) :=
  [ascii "\n", ascii "error: ", text commandname ++ ascii ": ", msg, ascii "\n\n"]

/-- The stores into the buffer; none for a format whose arguments are missing. -/
def turbineTclConditionFailed (command format : List UInt8) (args : List Arg) :
    Option (List Store) :=
  (vsprintf format args).map fun msg => sprintfs 0 (conditionTexts command msg)

/-- The uses of it: the two macros that always fail, and those that look at a code or a condition
first. -/
inductive Check
  | returnError
  | errorGoto
  | checkMsg (rc : ℤ)
  | condition (c : Bool)

def tclOk : ℤ := 0

def Check.Fails : Check → Prop
  | .returnError | .errorGoto => True
  | .checkMsg rc => rc ≠ tclOk
  | .condition c => c = false

instance (check : Check) : Decidable check.Fails := by
  cases check <;> unfold Check.Fails <;> infer_instance

/-- What a command does at a check. -/
inductive Outcome
  | goesOn
  | error (info : List UInt8)
  | undefined

/-- `stack` is what the buffer holds before the prints. -/
def Check.run (check : Check) (stack : ℕ → UInt8) (command format : List UInt8)
    (args : List Arg) : Outcome :=
  if check.Fails then
    match turbineTclConditionFailed command format args with
    | none => .undefined
    | some stores =>
      if InBounds tclConditionMsgMax stores then
        .error (text ((List.range tclConditionMsgMax).map (written stack stores)))
      else .undefined
  else .goesOn

/-- The length of what a call prints for its format. -/
def messageLength (format : List UInt8) (args : List Arg) : Option ℕ :=
  (pieces (text format)).bind fun ps => printedLength ps args

/-- The prints stay inside the buffer, and the command ends with all of the message. -/
def ReportsInBounds (check : Check) (command format : List UInt8) (args : List Arg) : Prop :=
  ∃ stores msg, turbineTclConditionFailed command format args = some stores ∧
    vsprintf format args = some msg ∧ InBounds tclConditionMsgMax stores ∧
    ∀ stack, check.run stack command format args =
      .error (text (conditionTexts command msg).flatten)

lemma vsprintf_length (format : List UInt8) (args : List Arg) :
    (vsprintf format args).map List.length = messageLength format args := by
  rw [vsprintf, messageLength, Option.map_bind]
  simp only [Function.comp_def, print_length]

lemma conditionTexts_ne_nil (command msg : List UInt8) : conditionTexts command msg ≠ [] :=
  List.cons_ne_nil _ _

/-- Ten bytes around the name of the command and the message, and two line ends. -/
lemma conditionTexts_length (command msg : List UInt8) :
    (conditionTexts command msg).flatten.length = (text command).length + msg.length + 12 := by
  have h₁ : (ascii "\n").length = 1 := rfl
  have h₂ : (ascii "error: ").length = 7 := rfl
  have h₃ : (ascii ": ").length = 2 := rfl
  have h₄ : (ascii "\n\n").length = 2 := rfl
  simp only [conditionTexts, List.flatten_cons, List.flatten_nil, List.length_append, h₁, h₂, h₃,
    h₄, List.length_nil]
  omega

lemma conditionFailed_inBounds_iff (command msg : List UInt8) :
    InBounds tclConditionMsgMax (sprintfs 0 (conditionTexts command msg)) ↔
      (text command).length + msg.length ≤ 1011 := by
  rw [inBounds_sprintfs (conditionTexts_ne_nil command msg), conditionTexts_length,
    tclConditionMsgMax]
  omega

lemma reportsInBounds_iff {check : Check} (hfails : check.Fails) (command format : List UInt8)
    (args : List Arg) :
    ReportsInBounds check command format args ↔
      ∃ n, messageLength format args = some n ∧ (text command).length + n ≤ 1011 := by
  rw [← vsprintf_length]
  cases hmsg : vsprintf format args with
  | none => simp [ReportsInBounds, hmsg]
  | some msg =>
    have hstores : turbineTclConditionFailed command format args =
        some (sprintfs 0 (conditionTexts command msg)) := by
      rw [turbineTclConditionFailed, hmsg, Option.map_some]
    have hbound := conditionFailed_inBounds_iff command msg
    constructor
    · rintro ⟨stores, msg', hs, -, hin, -⟩
      obtain rfl : stores = _ := Option.some.inj (hs.symm.trans hstores)
      exact ⟨msg.length, rfl, hbound.mp hin⟩
    · rintro ⟨n, hn, hle⟩
      obtain rfl : msg.length = n := Option.some.inj hn
      refine ⟨_, msg, hstores, hmsg, hbound.mpr hle, ?_⟩
      intro stack
      have hlt : (conditionTexts command msg).flatten.length < tclConditionMsgMax := by
        rw [conditionTexts_length, tclConditionMsgMax]
        omega
      rw [Check.run, if_pos hfails, hstores]
      dsimp only
      rw [if_pos (hbound.mpr hle),
        (sprintfs_leaves (conditionTexts_ne_nil command msg)).text_eq hlt]

def extractHandleFormat : List UInt8 := ascii "Invalid ADLB handle %s"
def retrieveFormat : List UInt8 := ascii "Invalid handle %s"

def ruleInputsFormat : List UInt8 :=
  ascii "could not parse inputs list as ids or id/subscript pairs:\n in rule: %s inputs: \"%s\""

lemma messageLength_extractHandle (handle : List UInt8) :
    messageLength extractHandleFormat [.str handle] = some (20 + (text handle).length) := by
  have hpieces : pieces (text extractHandleFormat) =
      some ((ascii "Invalid ADLB handle ").map .lit ++ [.str]) := rfl
  rw [messageLength, hpieces, Option.bind_some, printedLength_lits]
  rfl

lemma messageLength_retrieve (handle : List UInt8) :
    messageLength retrieveFormat [.str handle] = some (15 + (text handle).length) := by
  have hpieces : pieces (text retrieveFormat) =
      some ((ascii "Invalid handle ").map .lit ++ [.str]) := rfl
  rw [messageLength, hpieces, Option.bind_some, printedLength_lits]
  rfl

/-- The two lines around the name of the rule and its inputs take 79 bytes. -/
lemma messageLength_ruleInputs (name inputs : List UInt8) :
    messageLength ruleInputsFormat [.str name, .str inputs] =
      some (79 + (text name).length + (text inputs).length) := by
  have hpieces : pieces (text ruleInputsFormat) =
      some ((ascii "could not parse inputs list as ids or id/subscript pairs:\n in rule: ").map
        .lit ++ .str :: ((ascii " inputs: \"").map .lit ++ .str :: ((ascii "\"").map .lit ++ [])))
      := rfl
  rw [messageLength, hpieces, Option.bind_some, printedLength_lits, printedLength,
    printedLength_lits, printedLength, printedLength_lits, printedLength]
  refine congrArg some ?_
  have h₁ : (ascii "could not parse inputs list as ids or id/subscript pairs:\n in rule: ").length =
      68 := rfl
  have h₂ : (ascii " inputs: \"").length = 10 := rfl
  have h₃ : (ascii "\"").length = 1 := rfl
  simp only [h₁, h₂, h₃]
  omega

/-- A handle with its command, and a list of inputs with the name of its rule, fit as long as they
are short. -/
lemma extractHandle_reports_iff {check : Check} (hfails : check.Fails)
    (command handle : List UInt8) :
    ReportsInBounds check command extractHandleFormat [.str handle] ↔
      (text command).length + (text handle).length ≤ 991 := by
  rw [reportsInBounds_iff hfails, messageLength_extractHandle]
  simp only [Option.some.injEq, exists_eq_left']
  omega

lemma retrieve_reports_iff {check : Check} (hfails : check.Fails) (command handle : List UInt8) :
    ReportsInBounds check command retrieveFormat [.str handle] ↔
      (text command).length + (text handle).length ≤ 996 := by
  rw [reportsInBounds_iff hfails, messageLength_retrieve]
  simp only [Option.some.injEq, exists_eq_left']
  omega

lemma ruleInputs_reports_iff {check : Check} (hfails : check.Fails)
    (command name inputs : List UInt8) :
    ReportsInBounds check command ruleInputsFormat [.str name, .str inputs] ↔
      (text command).length + (text name).length + (text inputs).length ≤ 932 := by
  rw [reportsInBounds_iff hfails, messageLength_ruleInputs]
  simp only [Option.some.injEq, exists_eq_left']
  omega

/-- For any check that fails and anything it formats. -/
theorem condition_failed_in_bounds_iff {check : Check} (hfails : check.Fails)
    (command format : List UInt8) (args : List Arg) :
    ReportsInBounds check command format args ↔
      ∃ n, messageLength format args = some n ∧ (text command).length + n ≤ 1011 :=
  reportsInBounds_iff hfails command format args

theorem condition_failed_in_bounds_iff_retrieve :
    (Check.condition false).Fails ∧
      ReportsInBounds (.condition false) (ascii "adlb::retrieve") extractHandleFormat
        [.str (ascii "x")] :=
  ⟨rfl, (@condition_failed_in_bounds_iff (.condition false) rfl _ _ _).mpr
    ⟨21, rfl, by decide⟩⟩

/-- A thousand letters as the handle that `adlb::retrieve` is given. -/
theorem not_condition_failed_in_bounds :
    ¬ ∀ (check : Check) (command format : List UInt8) (args : List Arg), check.Fails →
      (∃ msg, vsprintf format args = some msg) → ReportsInBounds check command format args := by
  intro h
  have hfails : (Check.condition false).Fails := rfl
  have hmsg : ∃ msg, vsprintf extractHandleFormat [.str (List.replicate 1000 120)] = some msg := by
    have hlen := vsprintf_length extractHandleFormat [.str (List.replicate 1000 120)]
    rw [messageLength_extractHandle, Option.map_eq_some_iff] at hlen
    obtain ⟨msg, hmsg, -⟩ := hlen
    exact ⟨msg, hmsg⟩
  have htext : text (List.replicate 1000 120) = List.replicate 1000 120 := by
    refine text_of_notMem ?_
    intro hmem
    exact absurd (List.eq_of_mem_replicate hmem) (by decide)
  have hle := (extractHandle_reports_iff hfails _ _).mp
    (h _ (ascii "adlb::retrieve") _ _ hfails hmsg)
  rw [htext, List.length_replicate] at hle
  omega

end Turbine.Tcl
