import Turbine.Mpi.Model

/-! What a rank relies on between its collectives, and rules for the calls it makes. -/

namespace Turbine.Mpi

open Turbine.Library.Programs Turbine.Library.Interleaving

variable {n : ℕ} {α : Type}

abbrev Entry (n : ℕ) := Collective n × Payload

/-- The collectives a rank has entered, without the data it brought. -/
def Comm.ops (s : Comm n) (i : Rank n) : List (Collective n) := (s.entered i).map (·.1)

structure Rely (i : Rank n) (s s' : Comm n × Unit) : Prop where
  entered_eq : s'.1.entered i = s.1.entered i
  vars_eq : s'.1.vars i = s.1.vars i

-- `expected` is all that rank 0 is going to enter
def pact (expected : List (Entry n)) : Pact (Rank n) (Comm n × Unit) where
  inv s := s.1.entered 0 <+: expected
  rely := Rely
  rely_refl _ _ := ⟨rfl, rfl⟩
  rely_trans h h' := ⟨h'.entered_eq.trans h.entered_eq, h'.vars_eq.trans h.vars_eq⟩

-- a call can be answered, or waits for rank 0 to enter what it is going to enter
def Ready (nodes : Rank n → Node) (expected : List (Entry n)) (s : Comm n) (i : Rank n)
    (c : IoCall n) : Prop :=
  (∃ r s', Reply nodes s i c r s') ∨ (i ≠ 0 ∧ (s.entered 0).length < (s.entered i).length ∧
    (s.entered i).length ≤ expected.length)

def asks (nodes : Rank n → Node) (expected : List (Entry n)) (live : Prop) (s : Comm n × Unit)
    (i : Rank n) (c : IoCall n) : Prop :=
  c ≠ .readString none ∧ (live → Ready nodes expected s.1 i c)

/-- Where a rank is: what it has entered, and its variables. -/
structure At (i : Rank n) (es : List (Entry n)) (vs : String → Pointer) (s : Comm n × Unit) :
    Prop where
  entered_eq : s.1.entered i = es
  vars_eq : s.1.vars i = vs

variable {nodes : Rank n → Node} {expected es : List (Entry n)} {live : Prop} {i : Rank n}
  {vs : String → Pointer} {t : Comm n × Unit}

lemma At.stable {s : Comm n × Unit} (h : At i es vs t) (hr : Rely i t s) : At i es vs s :=
  ⟨hr.entered_eq.trans h.entered_eq, hr.vars_eq.trans h.vars_eq⟩

-- a call that only this rank notices
lemma keeps_local {c : IoCall n} {r : c.Ret} {Q : c.Ret → Comm n × Unit → Prop}
    (hc : c ≠ .readString none)
    (hreply : ∀ s, s.vars i = vs → Reply nodes s i c r s)
    (honly : ∀ s r' s', s.vars i = vs → Reply nodes s i c r' s' → r' = r ∧ s' = s)
    (h : At i es vs t) (hq : ∀ s, At i es vs s → Q r s) :
    Keeps (comm nodes) (pact expected) (asks nodes expected live) i (ask c) Q t := by
  intro s g hr hinv
  have hat := h.stable hr
  refine ⟨⟨hc, fun _ => .inl ⟨r, s, hreply s hat.vars_eq⟩⟩, ?_⟩
  intro r' s' hreply'
  obtain ⟨rfl, rfl⟩ := honly s r' s' hat.vars_eq hreply'
  exact ⟨g, hinv, fun _ _ => ⟨rfl, rfl⟩, hq _ hat⟩

lemma stat_keeps {path : String} {Q : Stat → Comm n × Unit → Prop} (h : At i es vs t)
    (hq : ∀ s, At i es vs s → Q ((nodes i).stat path) s) :
    Keeps (comm nodes) (pact expected) (asks nodes expected live) i (stat path) Q t := by
  refine keeps_local nofun (fun _ _ => .stat) ?_ h hq
  rintro s r' s' - ⟨⟩
  exact ⟨rfl, rfl⟩

lemma fopen_keeps {path : String} {Q : Bool → Comm n × Unit → Prop} (h : At i es vs t)
    (hq : ∀ s, At i es vs s → Q ((nodes i).fopens path) s) :
    Keeps (comm nodes) (pact expected) (asks nodes expected live) i (fopen path) Q t := by
  refine keeps_local nofun (fun _ _ => .fopen) ?_ h hq
  rintro s r' s' - ⟨⟩
  exact ⟨rfl, rfl⟩

lemma readString_keeps {v : CString} {Q : CString → Comm n × Unit → Prop} (h : At i es vs t)
    (hq : ∀ s, At i es vs s → Q v s) :
    Keeps (comm nodes) (pact expected) (asks nodes expected live) i (readString (some v)) Q t := by
  refine keeps_local nofun (fun _ _ => .readString) ?_ h hq
  rintro s r' s' - ⟨⟩
  exact ⟨rfl, rfl⟩

lemma tclGetVar_keeps {name : String} {Q : Pointer → Comm n × Unit → Prop} (h : At i es vs t)
    (hq : ∀ s, At i es vs s → Q (vs name) s) :
    Keeps (comm nodes) (pact expected) (asks nodes expected live) i (tclGetVar name) Q t := by
  refine keeps_local nofun ?_ ?_ h hq
  · rintro s rfl
    exact .getVar
  · rintro s r' s' rfl ⟨⟩
    exact ⟨rfl, rfl⟩

lemma tclSetVar_keeps {name : String} {v : CString} {Q : Unit → Comm n × Unit → Prop}
    (h : At i es vs t) (hq : ∀ s, At i es (Function.update vs name (some v)) s → Q () s) :
    Keeps (comm nodes) (pact expected) (asks nodes expected live) i (tclSetVar name v) Q t := by
  intro s g hr hinv
  have hat := h.stable hr
  refine ⟨⟨nofun, fun _ => .inl ⟨(), _, .setVar⟩⟩, ?_⟩
  intro r s' hreply
  cases hreply with
  | setVar =>
    refine ⟨g, hinv, fun j hj => ⟨rfl, setVar_of_ne s _ _ hj⟩, hq _ ⟨hat.entered_eq, ?_⟩⟩
    exact (setVar_self s i name v).trans (by rw [← hat.vars_eq])

/-! ### Collectives -/

lemma enter_keeps {op : Collective n} {data : Payload} {Q : Unit → Comm n × Unit → Prop}
    (hroot : i = 0 → es ++ [(op, data)] <+: expected) (h : At i es vs t)
    (hq : ∀ s, At i (es ++ [(op, data)]) vs s → Q () s) :
    Keeps (comm nodes) (pact expected) (asks nodes expected live) i (enter op data) Q t := by
  intro s g hr hinv
  have hat := h.stable hr
  refine ⟨⟨nofun, fun _ => .inl ⟨(), _, .enter⟩⟩, ?_⟩
  intro r s' hreply
  cases hreply with
  | enter =>
    have hself : (s.enter i op data).entered i = es ++ [(op, data)] := by
      rw [enter_self, ← hat.entered_eq]
    have hinv' : (s.enter i op data).entered 0 <+: expected := by
      by_cases hi : i = 0
      · subst hi
        rw [hself]
        exact hroot rfl
      · rw [enter_of_ne s _ _ (Ne.symm hi)]
        exact hinv
    exact ⟨g, hinv', fun j hj => ⟨enter_of_ne s _ _ hj, rfl⟩, hq _ ⟨hself, hat.vars_eq⟩⟩

lemma mpiFileOpen_keeps {path : String} {Q : Bool → Comm n × Unit → Prop}
    (hroot : i = 0 → es ++ [(.fileOpen, .none)] <+: expected) (h : At i es vs t)
    (hq : ∀ s, At i (es ++ [(.fileOpen, .none)]) vs s → Q ((nodes i).mpiOpens path) s) :
    Keeps (comm nodes) (pact expected) (asks nodes expected live) i (mpiFileOpen path) Q t := by
  rw [mpiFileOpen, keeps_bind]
  apply enter_keeps hroot h
  intro s hs
  refine keeps_local nofun (fun _ _ => .leaveOpen) ?_ hs hq
  rintro s r' s' - ⟨⟩
  exact ⟨rfl, rfl⟩

lemma mpiFileReadAll_keeps {chunk : ℕ} {Q : ℕ → Comm n × Unit → Prop}
    (hroot : i = 0 → es ++ [(.fileReadAll, .none)] <+: expected) (h : At i es vs t)
    (hq : ∀ s, At i (es ++ [(.fileReadAll, .none)]) vs s → Q chunk s) :
    Keeps (comm nodes) (pact expected) (asks nodes expected live) i (mpiFileReadAll chunk) Q
      t := by
  rw [mpiFileReadAll, keeps_bind]
  apply enter_keeps hroot h
  intro s hs
  refine keeps_local nofun (fun _ _ => .leaveReadAll) ?_ hs hq
  rintro s r' s' - ⟨⟩
  exact ⟨rfl, rfl⟩

lemma mpiFileClose_keeps {Q : Unit → Comm n × Unit → Prop}
    (hroot : i = 0 → es ++ [(.fileClose, .none)] <+: expected) (h : At i es vs t)
    (hq : ∀ s, At i (es ++ [(.fileClose, .none)]) vs s → Q () s) :
    Keeps (comm nodes) (pact expected) (asks nodes expected live) i mpiFileClose Q t := by
  rw [mpiFileClose, keeps_bind]
  apply enter_keeps hroot h
  intro s hs
  refine keeps_local nofun (fun _ _ => .leaveClose) ?_ hs hq
  rintro s r' s' - ⟨⟩
  exact ⟨rfl, rfl⟩

lemma leaveBcast_reply {s s' : Comm n} {own r : Payload} (h : Reply nodes s i .leaveBcast r s')
    (hentered : s.entered i = es ++ [(.bcast 0, own)]) :
    s' = s ∧ (s.entered 0)[es.length]? = some (.bcast 0, r) := by
  cases h with
  | @leaveBcast root es' own' _ hes' hroot =>
    obtain ⟨rfl, hentry⟩ := List.append_inj' (hes'.symm.trans hentered) rfl
    obtain ⟨rfl, rfl⟩ : root = 0 ∧ own' = own := by simpa using hentry
    exact ⟨rfl, hroot⟩

-- a rank that leaves a broadcast has what rank 0 is going to bring to it
lemma leaveBcast_keeps {own data : Payload} {Q : Payload → Comm n × Unit → Prop}
    (hexpected : expected[es.length]? = some (.bcast 0, data))
    (hown : i = 0 → own = data) (h : At i (es ++ [(.bcast 0, own)]) vs t)
    (hq : ∀ s, At i (es ++ [(.bcast 0, own)]) vs s → Q data s) :
    Keeps (comm nodes) (pact expected) (asks nodes expected live) i leaveBcast Q t := by
  intro s g hr hinv
  have hat := h.stable hr
  have hentered : s.entered i = es ++ [(.bcast 0, own)] := hat.entered_eq
  have hprefix : s.entered 0 <+: expected := hinv
  have hlt : es.length < expected.length := (List.getElem?_eq_some_iff.mp hexpected).1
  refine ⟨⟨nofun, fun _ => ?_⟩, ?_⟩
  · by_cases hroot : (s.entered 0).length ≤ es.length
    · refine .inr ⟨?_, ?_, ?_⟩
      · rintro rfl
        simp [hentered] at hroot
      · simp [hentered, Nat.lt_succ_of_le hroot]
      · simpa [hentered] using hlt
    · have hget := hprefix.getElem (not_le.mp hroot)
      have hdata : (s.entered 0)[es.length]? = some (.bcast 0, data) := by
        rw [List.getElem?_eq_getElem (not_le.mp hroot), hget, ← List.getElem?_eq_getElem hlt]
        exact hexpected
      exact .inl ⟨data, s, .leaveBcast hentered hdata⟩
  · intro r s' hreply
    obtain ⟨rfl, hroot⟩ := leaveBcast_reply hreply hentered
    have hdata : expected[es.length]? = some (.bcast 0, r) := by
      obtain ⟨hlen, hget⟩ := List.getElem?_eq_some_iff.mp hroot
      rw [List.getElem?_eq_getElem hlt, ← hprefix.getElem hlen, hget]
    obtain rfl : data = r := by simpa [hexpected] using hdata
    exact ⟨g, hinv, fun _ _ => ⟨rfl, rfl⟩, hq _ hat⟩

lemma mpiBcast_keeps {own data : Payload} {Q : Payload → Comm n × Unit → Prop}
    (hexpected : expected[es.length]? = some (.bcast 0, data))
    (hroot : i = 0 → own = data ∧ es ++ [(.bcast 0, own)] <+: expected) (h : At i es vs t)
    (hq : ∀ s, At i (es ++ [(.bcast 0, own)]) vs s → Q data s) :
    Keeps (comm nodes) (pact expected) (asks nodes expected live) i (mpiBcast own 0) Q t := by
  rw [mpiBcast, keeps_bind]
  apply enter_keeps (fun hi => (hroot hi).2) h
  intro s hs
  exact leaveBcast_keeps hexpected (fun hi => (hroot hi).1) hs hq

-- no rank leaves a broadcast that rank 0 does not enter
lemma mpiBcast_blocked {own : Payload} {Q : Payload → Comm n × Unit → Prop}
    (hexpected : expected.length ≤ es.length) (hlive : ¬ live) (hi : i ≠ 0) (h : At i es vs t) :
    Keeps (comm nodes) (pact expected) (asks nodes expected live) i (mpiBcast own 0) Q t := by
  rw [mpiBcast, keeps_bind]
  apply enter_keeps (fun h => absurd h hi) h
  intro s hs s₁ g₁ hr hinv
  have hentered : s₁.entered i = es ++ [(.bcast 0, own)] := (hs.stable hr).entered_eq
  refine ⟨⟨nofun, fun h => absurd h hlive⟩, ?_⟩
  intro r s' hreply
  have hlen := (List.getElem?_eq_some_iff.mp (leaveBcast_reply hreply hentered).2).1
  have hle : (s₁.entered 0).length ≤ expected.length := List.IsPrefix.length_le hinv
  omega

/-! ### The end of a run -/

variable {clients ps : Rank n → Io n α} {vars : Rank n → String → Pointer} {s : Comm n}
  {Q : Rank n → α → Comm n × Unit → Prop}

lemma keeps_of_run (hQ : ∀ i a s s', Q i a s → Rely i s s' → Q i a s')
    (h : ∀ i, Keeps (comm nodes) (pact expected) (asks nodes expected live) i (clients i) (Q i)
      (start vars, ()))
    (hrun : Interleaved (comm nodes) (clients, start vars) (ps, s)) :
    s.entered 0 <+: expected ∧ ∀ i, Keeps (comm nodes) (pact expected)
      (asks nodes expected live) i (ps i) (Q i) (s, ()) := by
  have hstart : (pact expected).inv (start vars, ()) := List.nil_prefix
  obtain ⟨_, hinv, hkeeps⟩ :=
    Keeps.interleaved (fun i a s s' hq hr _ => hQ i a s s' hq hr) hstart h hrun
  exact ⟨hinv, hkeeps⟩

-- at the end rank 0 has returned, so whoever waited for it has what it needs
lemma returned_of_stuck (hinv : s.entered 0 <+: expected)
    (hkeeps : ∀ i, Keeps (comm nodes) (pact expected) (asks nodes expected True) i (ps i) (Q i)
      (s, ()))
    (hroot : ∀ a, Q 0 a (s, ()) → expected.length ≤ (s.entered 0).length)
    (hstuck : Stuck (comm nodes) (ps, s)) (i : Rank n) : ∃ a, ps i = .done a := by
  have hend : ∀ j c k, ps j = .call c k → j ≠ 0 ∧ (s.entered 0).length < (s.entered j).length ∧
      (s.entered j).length ≤ expected.length := by
    intro j c k hp
    rcases ((hkeeps j).asked hinv hp).2 trivial with ⟨r, s', hreply⟩ | hwaits
    · exact absurd hreply (hstuck.no_reply hp r s')
    · exact hwaits
  have hzero : expected.length ≤ (s.entered 0).length := by
    rcases hp : ps 0 with a | ⟨c, k⟩
    · exact hroot a ((hkeeps 0).returned hp)
    · exact absurd rfl (hend 0 c k hp).1
  rcases hp : ps i with a | ⟨c, k⟩
  · exact ⟨a, rfl⟩
  · obtain ⟨_, hlt, hle⟩ := hend i c k hp
    omega

/-- When rank 0 enters nothing and the others wait for it, there is a run that leaves them
waiting. -/
lemma exists_waiting (hn : n ≠ 0)
    (hroot : Keeps (comm nodes) (pact []) (asks nodes [] False) 0 (clients 0) (fun _ _ => True)
      (start vars, ()))
    (hothers : ∀ i, i ≠ 0 → Keeps (comm nodes) (pact []) (asks nodes [] False) i (clients i)
      (fun _ _ => False) (start vars, ())) :
    ∃ ps s, Interleaved (comm nodes) (clients, start vars) (ps, s) ∧ Stuck (comm nodes) (ps, s) ∧
      ¬ ∀ i, ∃ a, ps i = .done a := by
  have hkeeps : ∀ i, Keeps (comm nodes) (pact []) (asks nodes [] False) i (clients i)
      (fun _ _ => i = 0) (start vars, ()) := by
    intro i
    by_cases hi : i = 0
    · subst hi
      exact hroot.mono fun _ _ _ => rfl
    · exact (hothers i hi).mono fun _ _ h => h.elim
  obtain ⟨⟨ps, s⟩, hrun, hstuck⟩ := exists_stuck (W := comm nodes) (clients, start vars)
  obtain ⟨_, hend⟩ := keeps_of_run (fun _ _ _ _ h _ => h) hkeeps hrun
  refine ⟨ps, s, hrun, hstuck, fun hdone => ?_⟩
  obtain ⟨a, hp⟩ := hdone (.last n)
  exact Rank.last_ne_zero hn ((hend (.last n)).returned hp)

end Turbine.Mpi
