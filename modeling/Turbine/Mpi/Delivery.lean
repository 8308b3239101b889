import Turbine.Mpi.Agreement

/-! The Tcl command `turbine::bcast`: when the value of the root reaches every rank. -/

namespace Turbine.Mpi

open Turbine.Library.Programs Turbine.Library.Interleaving

variable {n : ℕ} {nodes : Rank n → Node} {expected : List (Entry n)} {live : Prop} {i root : Rank n}
  {vs : String → Pointer} {t : Comm n × Unit} {name : String} {value : CString}

/-- Every rank has executed the command and has the value. -/
def Delivered (name : String) (value : CString) (ps : Rank n → Io n Unit) (s : Comm n) : Prop :=
  (∀ i, ∃ a, ps i = .done a) ∧ ∀ i, s.vars i name = some value

/-- In no run a rank reads a string that it has not initialized, and every run ends with the
value on all ranks. -/
def Delivers (nodes : Rank n → Node) (root : Rank n) (name : String) (value : CString)
    (vars : Rank n → String → Pointer) : Prop :=
  ∀ ps s, Interleaved (comm nodes) (fun i => turbineBcastCmd i root name, start vars) (ps, s) →
    (∀ i k, ps i ≠ .call (.readString none) k) ∧
    (Stuck (comm nodes) (ps, s) → Delivered name value ps s)

structure Receives (i : Rank n) (entries : List (Entry n)) (name : String) (value : CString)
    (s : Comm n × Unit) : Prop where
  entered_eq : s.1.entered i = entries
  var_eq : s.1.vars i name = some value

lemma bcastPointer_keeps (hvalue : i = 0 → vs name = some value)
    {Q : Pointer → Comm n × Unit → Prop} {es : List (Entry n)} (h : At i es vs t)
    (hq : ∀ p s, (i = 0 → p = some value) → At i es vs s → Q p s) :
    Keeps (comm nodes) (pact expected) (asks nodes expected live) i (bcastPointer i 0 name) Q
      t := by
  rw [bcastPointer]
  split
  · exact tclGetVar_keeps h fun s hs => hq _ s hvalue hs
  · rename_i hi
    exact hq none t (fun h => absurd h hi) h

lemma returnString_keeps (hvalue : i = 0 → vs name = some value) {es : List (Entry n)}
    (h : At i es vs t) :
    Keeps (comm nodes) (pact expected) (asks nodes expected live) i
      (returnString i 0 name (some value)) (fun _ => Receives i es name value) t := by
  rw [returnString]
  split
  · rw [keeps_bind]
    apply readString_keeps h
    intro s hs
    apply tclSetVar_keeps hs
    intro s hs
    exact ⟨hs.entered_eq, by rw [hs.vars_eq, Function.update_self]⟩
  · rename_i hi
    exact ⟨h.entered_eq, by rw [h.vars_eq, hvalue (not_not.mp hi)]⟩

lemma bcastCmd_keeps (hfits : value.chars.length + 1 ≤ intMax)
    (hexpected : expected = bcastEntries value 0) (hvalue : i = 0 → vs name = some value)
    (h : At i [] vs t) :
    Keeps (comm nodes) (pact expected) (asks nodes expected live) i (turbineBcastCmd i 0 name)
      (fun _ => Receives i (bcastEntries value i) name value) t := by
  rw [turbineBcastCmd, keeps_bind]
  apply bcastPointer_keeps hvalue h
  intro p s hp hs
  rw [keeps_bind]
  apply ioBcast_keeps hfits hexpected hp hs
  intro s hs
  exact returnString_keeps hvalue hs

lemma bcastCmd_root_gives_up (hlong : intMax < value.chars.length + 1)
    (hvalue : vs name = some value) {es : List (Entry n)} (h : At 0 es vs t) :
    Keeps (comm nodes) (pact expected) (asks nodes expected live) 0 (turbineBcastCmd 0 0 name)
      (fun _ => Receives 0 es name value) t := by
  rw [turbineBcastCmd, keeps_bind]
  apply bcastPointer_keeps (fun _ => hvalue) h
  intro p s hp hs
  rw [hp rfl, keeps_bind]
  apply ioBcast_root_gives_up hlong hs
  intro s hs
  exact returnString_keeps (fun _ => hvalue) hs

lemma bcastCmd_blocked (hlive : ¬ live) (hi : i ≠ 0) {Q : Unit → Comm n × Unit → Prop}
    (h : At i [] vs t) :
    Keeps (comm nodes) (pact []) (asks nodes [] live) i (turbineBcastCmd i 0 name) Q t := by
  rw [turbineBcastCmd, keeps_bind, bcastPointer, if_neg hi]
  show Keeps _ _ _ i (turbineIoBcast i none >>= _) Q t
  rw [keeps_bind]
  exact ioBcast_blocked hlive hi h

/-! ### All ranks -/

lemma receives_stable {α : Type} {entries : Rank n → List (Entry n)} (i : Rank n) (_ : α)
    (s s' : Comm n × Unit) (h : Receives i (entries i) name value s) (hr : Rely i s s') :
    Receives i (entries i) name value s' :=
  ⟨hr.entered_eq.trans h.entered_eq, by rw [hr.vars_eq, h.var_eq]⟩

lemma delivers_of_keeps {vars : Rank n → String → Pointer} (entries : Rank n → List (Entry n))
    (h : ∀ i, Keeps (comm nodes) (pact (entries 0)) (asks nodes (entries 0) True) i
      (turbineBcastCmd i root name) (fun _ => Receives i (entries i) name value)
      (start vars, ())) :
    Delivers nodes root name value vars := by
  intro ps s hrun
  obtain ⟨hinv, hkeeps⟩ := keeps_of_run receives_stable h hrun
  constructor
  · intro i k hp
    exact ((hkeeps i).asked hinv hp).1 rfl
  · intro hstuck
    have hdone : ∀ i, ∃ a, ps i = .done a := by
      apply returned_of_stuck hinv hkeeps ?_ hstuck
      intro a ha
      rw [ha.entered_eq]
    refine ⟨hdone, fun i => ?_⟩
    obtain ⟨a, hp⟩ := hdone i
    exact ((hkeeps i).returned hp).var_eq

-- the helper takes rank 0 for the sender, whose string nobody has set
lemma not_delivers_of_root {vars : Rank n → String → Pointer} (hroot : root ≠ 0) :
    ¬ Delivers nodes root name value vars := by
  intro h
  have hfirst : ∃ k, turbineBcastCmd 0 root name = .call (.readString none) k := by
    rw [turbineBcastCmd, bcastPointer, if_neg (Ne.symm hroot)]
    exact ⟨_, rfl⟩
  obtain ⟨k, hk⟩ := hfirst
  exact (h _ _ .refl).1 0 k hk

/-- The value of the root reaches every rank exactly when the root is rank 0 and the string can
be counted by an `int`, or there is no other rank. -/
theorem delivers_iff (nodes : Rank n → Node) (root : Rank n) (name : String) (value : CString)
    (vars : Rank n → String → Pointer) (hvalue : vars root name = some value) :
    Delivers nodes root name value vars ↔
      root = 0 ∧ (n = 0 ∨ value.chars.length + 1 ≤ intMax) := by
  by_cases hroot : root = 0
  · subst hroot
    by_cases hfits : value.chars.length + 1 ≤ intMax
    · refine iff_of_true (delivers_of_keeps (bcastEntries value) fun i => ?_) ⟨rfl, .inr hfits⟩
      exact bcastCmd_keeps hfits rfl (by rintro rfl; exact hvalue) ⟨rfl, rfl⟩
    · by_cases hn : n = 0
      · subst hn
        refine iff_of_true (delivers_of_keeps (fun _ => []) fun i => ?_) ⟨rfl, .inl rfl⟩
        rw [i.eq_zero]
        exact bcastCmd_root_gives_up (not_le.mp hfits) hvalue ⟨rfl, rfl⟩
      · refine iff_of_false ?_ (by simp [hn, hfits])
        intro h
        have hroot : Keeps (comm nodes) (pact []) (asks nodes [] False) 0 (turbineBcastCmd 0 0 name)
            (fun _ _ => True) (start vars, ()) :=
          (bcastCmd_root_gives_up (not_le.mp hfits) hvalue ⟨rfl, rfl⟩).mono fun _ _ _ => trivial
        obtain ⟨ps, s, hrun, hstuck, hwaiting⟩ :=
          exists_waiting hn hroot fun i hi => bcastCmd_blocked not_false hi ⟨rfl, rfl⟩
        exact hwaiting ((h ps s hrun).2 hstuck).1
  · exact iff_of_false (not_delivers_of_root hroot) fun h => hroot h.1

def hello : CString := .ofBuffer [104, 105, 0]

def noFiles : Node := ⟨fun _ => .noent, fun _ => false, fun _ => false⟩

theorem delivers_iff_hello :
    Delivers (fun _ : Rank 1 => noFiles) 0 "s" hello fun _ _ => some hello :=
  (delivers_iff _ 0 "s" hello _ rfl).mpr ⟨rfl, .inr (by decide)⟩

theorem not_delivers_second :
    ¬ Delivers (fun _ : Rank 1 => noFiles) (.last 1) "s" hello fun _ _ => some hello :=
  not_delivers_of_root (Rank.last_ne_zero one_ne_zero)

end Turbine.Mpi
