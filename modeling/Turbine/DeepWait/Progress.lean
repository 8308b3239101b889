import Turbine.DeepWait.Safety

/-! Whether a deep wait that is suspended and resumed makes progress, by its base type. -/

namespace Turbine.DeepWait

open Turbine.Library.Programs Turbine.Library.Interleaving

def BaseType.FollowsFields : BaseType → Prop
  | .struct .. => True
  | .structRef fieldPaths _ _ => fieldPaths ≠ []
  | _ => False

def HasType : BaseType → Value → Prop
  | .ref, value | .structRef .., value => ∃ d, value = .td d
  | .fileRef, value => ∃ d, getFileStatus value = .ok d
  | .scalar _, _ => True
  | .struct .., value => ∃ fields, value = .dict fields

/-- Nothing fails; every wait that is suspended again is suspended at a later member, at most
once for each; and once everything is closed, a wait with nothing left to do is over. -/
structure Progresses {ι : Type} (D : Contents) (ps : ι → Prog Call Call.Ret (Except String Unit))
    (s : Server) : Prop where
  no_error : ∀ i msg, ps i ≠ .done (.error msg)
  increasing : ∀ c signal, (suspensions c signal s).Pairwise (· < ·)
  at_most : ∀ c signal, (suspensions c signal s).length ≤ (D.members c).length
  finishes : (∀ d, s.closedData d = true) → Idle ps s → .eval ∈ s.done

/-- Every run of the wait for a closed container, whatever the other clients are and do. -/
def MakesProgress (D : Contents) (c : ℕ) (baseType : BaseType) : Prop :=
  ∀ (ι : Type) [Fintype ι] [DecidableEq ι] (caller : ι) (scripts : ι → List Step)
    (closedData : ℕ → Bool) (ps : ι → Prog Call Call.Ret (Except String Unit)) (s : Server),
    closedData c = true →
    Interleaved (server D)
      (clients (deeprule [.td c] [1] [baseType] .user) caller scripts, start closedData) (ps, s) →
    Progresses D ps s

variable {D : Contents} {c : ℕ} {baseType : BaseType}

lemma fits_of_hasType {value : Value} (h : HasType baseType value)
    (hb : ¬ baseType.FollowsFields) : Fits D 0 baseType value := by
  cases baseType with
  | ref =>
    obtain ⟨d, rfl⟩ := h
    rfl
  | fileRef =>
    obtain ⟨d, hd⟩ := h
    simp [Fits, leaf, hd, Except.toOption]
  | scalar name => rfl
  | struct fieldPaths nestLevels baseTypes => exact absurd trivial hb
  | structRef fieldPaths nestLevels baseTypes =>
    obtain rfl : fieldPaths = [] := not_not.mp hb
    obtain ⟨d, rfl⟩ := h
    rfl

lemma length_le_of_increasing {l : List ℕ} {n : ℕ} (h : l.Pairwise (· < ·))
    (hb : ∀ p ∈ l, p < n) : l.length ≤ n := by
  have hnodup : l.Nodup := h.imp fun hlt => hlt.ne
  have hsub : l ⊆ List.range n := fun p hp => List.mem_range.mpr (hb p hp)
  simpa using (hnodup.subperm hsub).length_le

theorem makesProgress_of_plain (htyped : ∀ member ∈ D.members c, HasType baseType member)
    (h : D.members c = [] ∨ ¬ baseType.FollowsFields) : MakesProgress D c baseType := by
  intro ι _ _ caller scripts closedData ps s _ hrun
  have hfits : Fits D 1 baseType (.td c) := by
    refine ⟨c, rfl, fun member hmember => ?_⟩
    rcases h with hnone | hb
    · simp [hnone] at hmember
    · exact fits_of_hasType (htyped member hmember) hb
  obtain ⟨g, hinv, hkeeps⟩ := reached [⟨.td c, 1, baseType, hfits⟩] closedData caller scripts hrun
  refine ⟨?_, hinv.increasing, ?_, ?_⟩
  · exact fun i msg hp => (hkeeps i).returned hp
  · exact fun c signal => length_le_of_increasing (hinv.increasing c signal) (hinv.bounded c signal)
  · intro hclosed hidle
    have hdone := all_done hinv (fun d _ => hclosed d) (hidle.held hinv hkeeps) hidle.rules
    rw [← Multiset.mem_coe, hdone]
    exact eval_mem_issued _

theorem makesProgress_of_plain_ref : MakesProgress ⟨fun _ => [.td 1], fun _ => .dict []⟩ 0 .ref :=
  makesProgress_of_plain (fun _ h => ⟨1, List.mem_singleton.mp h⟩) (.inr id)

/-! ### Structs whose fields are followed -/

def field : BaseType := .scalar "integer"

/-- The wait for a struct ends with an error, at the first member of any container. -/
lemma not_makesProgress_struct (D : Contents) {c : ℕ} {member : Value} {members : List Value}
    (hm : D.members c = member :: members) (fieldPaths : List (List String))
    (nestLevels : List ℤ) (baseTypes : List BaseType) :
    ¬ MakesProgress D c (.struct fieldPaths nestLevels baseTypes) := by
  intro h
  have hslice : member :: members.take (min maxChunkSize (members.length + 1) - 1) =
      slice (D.members c) (some (min maxChunkSize (members.length + 1))) 0 := by
    have hpos : 0 < min maxChunkSize (members.length + 1) := by simp [maxChunkSize]
    rw [hm, slice, List.drop_zero, ← Nat.sub_add_cancel hpos]
    rfl
  have h₀ : Interleaved (server D)
      (clients (deeprule [.td c] [1] [.struct fieldPaths nestLevels baseTypes] .user) ()
        fun _ => [.task], start fun _ => true) _ := .refl
  have h₁ := h₀.turn () rfl Reply.allocateVoid
  have h₂ := h₁.turn () rfl Reply.rule
  have h₃ := h₂.turn () rfl Reply.rule
  have h₄ := h₃.turn () rfl (@Reply.getTask _ _ [] _ _ rfl fun td htd => by
    obtain rfl := List.mem_singleton.mp htd
    rfl)
  have h₅ := h₄.turn () rfl
    (@Reply.containerSize _ _ _ (members.length + 1) fun _ => by rw [hm, List.length_cons])
  have h₆ := h₅.turn () rfl (Reply.enumerate fun _ => hslice)
  exact (h Unit () _ _ _ _ rfl h₆).no_error () _ rfl

-- a wait for the fields of a referenced struct is resumed at the same member, with a new signal
lemma not_makesProgress_structRef :
    ¬ MakesProgress ⟨fun _ => [.td 1], fun _ => .dict [("f", .scalar "5")]⟩ 0
      (.structRef [["f"]] [0] [field]) := by
  intro h
  have h₀ : Interleaved (server ⟨fun _ => [.td 1], fun _ => .dict [("f", .scalar "5")]⟩)
      (clients (deeprule [.td 0] [1] [.structRef [["f"]] [0] [field]] .user) ()
        fun _ => [.task, .task, .task, .task], start fun _ => true) _ := .refl
  have h₁ := h₀.turn () rfl Reply.allocateVoid
  have h₂ := h₁.turn () rfl Reply.rule
  have h₃ := h₂.turn () rfl Reply.rule
  have h₄ := h₃.turn () rfl (@Reply.getTask _ _ [] _ _ rfl (by decide))
  have h₅ := h₄.turn () rfl (Reply.containerSize fun _ => rfl)
  have h₆ := h₅.turn () rfl (Reply.enumerate fun _ => rfl)
  have h₇ := h₆.turn () rfl Reply.allocateVoid
  have h₈ := h₇.turn () rfl Reply.rule
  have h₉ := h₈.turn () rfl Reply.closed
  have h₁₀ := h₉.turn () rfl Reply.rule
  have h₁₁ := h₁₀.turn () rfl (@Reply.getTask _ _ [_] _ _ rfl (by decide))
  have h₁₂ := h₁₁.turn () rfl (Reply.retrieveStruct fun _ => rfl)
  have h₁₃ := h₁₂.turn () rfl Reply.rule
  have h₁₄ := h₁₃.turn () rfl (@Reply.getTask _ _ [_, _] _ _ rfl (by decide))
  have h₁₅ := h₁₄.turn () rfl Reply.storeVoid
  have h₁₆ := h₁₅.turn () rfl (@Reply.getTask _ _ [_] _ _ rfl (by decide))
  have h₁₇ := h₁₆.turn () rfl Reply.readRefcountDecr
  have h₁₈ := h₁₇.turn () rfl (Reply.enumerate fun _ => rfl)
  have h₁₉ := h₁₈.turn () rfl Reply.allocateVoid
  have h₂₀ := h₁₉.turn () rfl Reply.rule
  have h₂₁ := h₂₀.turn () rfl Reply.closed
  have h₂₂ := h₂₁.turn () rfl Reply.rule
  have hincreasing := (h Unit () _ _ _ _ rfl h₂₂).increasing 0 0
  have hlog : [0, 0].Pairwise (· < ·) := hincreasing
  simp at hlog

theorem not_makesProgress_all : ¬ ∀ (D : Contents) (c : ℕ) (baseType : BaseType),
    (∀ member ∈ D.members c, HasType baseType member) → MakesProgress D c baseType := by
  intro h
  apply not_makesProgress_structRef
  exact h _ 0 _ fun _ hmember => ⟨1, List.mem_singleton.mp hmember⟩

end Turbine.DeepWait
