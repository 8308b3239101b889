import Turbine.Mpi.Rules

/-! When all ranks enter the same collectives, in copying a file and in broadcasting a string. -/

namespace Turbine.Mpi

open Turbine.Library.Programs Turbine.Library.Interleaving

variable {n : ℕ} {α : Type}

/-- All ranks have entered the same collectives, and none is left waiting in one. -/
def SameCollectives (ps : Rank n → Io n α) (s : Comm n) : Prop :=
  (∀ i j, s.ops i = s.ops j) ∧ ∀ i, ∃ a, ps i = .done a

/-- Every run ends with the same collectives on all ranks. -/
def AlwaysSame (nodes : Rank n → Node) (clients : Rank n → Io n α) : Prop :=
  ∀ ps s, Interleaved (comm nodes) (clients, start fun _ _ => none) (ps, s) →
    Stuck (comm nodes) (ps, s) → SameCollectives ps s

/-! ### What a rank enters -/

variable (basename : String → String) (nameIn nameOut : String)

def Node.statsSize (node : Node) (nameIn : String) : Option ℕ :=
  match node.stat nameIn with
  | .ok _ size => some size
  | _ => none

def Node.opensDestination (node : Node) : Bool :=
  match target basename nameIn nameOut (node.stat nameOut) with
  | none => false
  | some path => node.fopens path

/-- A rank gets as far as copying: both files are open. -/
def Node.copies (node : Node) : Bool :=
  node.mpiOpens nameIn && node.opensDestination basename nameIn nameOut

def chunks (left : ℕ) : ℕ := (left + chunkMax - 1) / chunkMax

def ownNumber (i : Rank n) (v : ℕ) : Payload := if i = 0 then .number v else .none

def copyEntries (size : ℕ) : List (Entry n) :=
  List.replicate (chunks size) (.fileReadAll, .none) ++ [(.fileClose, .none)]

def copyToEntries (node : Node) (size : ℕ) (i : Rank n) : List (Entry n) :=
  [(.bcast 0, ownNumber i size), (.fileOpen, .none)] ++
    if node.copies basename nameIn nameOut then copyEntries size else []

variable {basename nameIn nameOut} {nodes : Rank n → Node} {expected es : List (Entry n)}
  {live : Prop} {i : Rank n} {vs : String → Pointer} {t : Comm n × Unit}

lemma chunks_zero : chunks 0 = 0 := by simp [chunks, chunkMax]

lemma chunks_step (left : ℕ) (h : 0 < left) :
    chunks left = chunks (left - min chunkMax left) + 1 := by
  simp only [chunks, chunkMax]
  omega

lemma copyChunks_keeps {size total k : ℕ} {Q : Unit → Comm n × Unit → Prop}
    (hk : chunks (size - total) = k)
    (hroot : i = 0 → es ++ List.replicate k (.fileReadAll, .none) <+: expected)
    (h : At i es vs t)
    (hq : ∀ s, At i (es ++ List.replicate k (.fileReadAll, .none)) vs s → Q () s) :
    Keeps (comm nodes) (pact expected) (asks nodes expected live) i (copyChunks size total) Q
      t := by
  induction k generalizing total es t with
  | zero =>
    rw [copyChunks, if_neg]
    · exact hq t (by simpa using h)
    · intro hlt
      have hstep := chunks_step (size - total) (by omega)
      omega
  | succ k ih =>
    have hlt : total < size := by
      by_contra hge
      have hzero : size - total = 0 := by omega
      simp [hzero, chunks_zero] at hk
    have hstep := chunks_step (size - total) (by omega)
    have hnext : chunks (size - (total + min chunkMax (size - total))) = k := by
      rw [Nat.sub_add_eq]
      omega
    have hsplit : es ++ List.replicate (k + 1) (.fileReadAll, .none) =
        es ++ [(.fileReadAll, .none)] ++ List.replicate k ((.fileReadAll, .none) : Entry n) := by
      simp [List.replicate_succ]
    rw [hsplit] at hroot hq
    have hread : i = 0 → es ++ [(.fileReadAll, .none)] <+: expected :=
      fun hi => (List.prefix_append _ (List.replicate k (.fileReadAll, .none))).trans (hroot hi)
    rw [copyChunks, if_pos hlt, keeps_bind]
    apply mpiFileReadAll_keeps hread h
    intro s hs
    exact ih hnext hroot hs hq

lemma copyDestination_keeps {Q : Bool → Comm n × Unit → Prop} (h : At i es vs t)
    (hq : ∀ s, At i es vs s → Q ((nodes i).opensDestination basename nameIn nameOut) s) :
    Keeps (comm nodes) (pact expected) (asks nodes expected live) i
      (copyDestination basename nameIn nameOut) Q t := by
  rw [copyDestination, keeps_bind]
  apply stat_keeps h
  intro s hs
  simp only [Node.opensDestination] at hq
  split <;> rename_i htarget <;> simp only [htarget] at hq
  · exact hq s hs
  · exact fopen_keeps hs hq

lemma copyOpened_keeps {size : ℕ} {Q : Bool → Comm n × Unit → Prop}
    (hroot : i = 0 → es ++ (if (nodes i).opensDestination basename nameIn nameOut
      then copyEntries size else []) <+: expected)
    (h : At i es vs t)
    (hq : ∀ b s, At i (es ++ (if (nodes i).opensDestination basename nameIn nameOut
      then copyEntries size else [])) vs s → Q b s) :
    Keeps (comm nodes) (pact expected) (asks nodes expected live) i
      (copyOpened basename nameIn nameOut size) Q t := by
  rw [copyOpened, keeps_bind]
  apply copyDestination_keeps h
  intro s hs
  split <;> rename_i hopens <;> simp only [hopens, if_true, if_false, copyEntries,
    ← List.append_assoc, List.append_nil, Bool.false_eq_true] at hroot hq
  · have hchunks : i = 0 → es ++ List.replicate (chunks size) (.fileReadAll, .none) <+: expected :=
      fun hi => (List.prefix_append _ [(.fileClose, .none)]).trans (hroot hi)
    have hsize : chunks (size - 0) = chunks size := rfl
    rw [keeps_bind]
    apply copyChunks_keeps hsize hchunks hs
    intro s hs
    rw [keeps_bind]
    exact mpiFileClose_keeps hroot hs (hq true)
  · exact hq false s hs

/-- When rank 0 can look at the file, every rank enters what its own files decide. -/
lemma copyTo_keeps {size : ℕ} (hsize : (nodes 0).statsSize nameIn = some size)
    (hexpected : expected = copyToEntries basename nameIn nameOut (nodes 0) size 0)
    (h : At i [] vs t) :
    Keeps (comm nodes) (pact expected) (asks nodes expected live) i
      (turbineIoCopyTo basename i nameIn nameOut)
      (fun _ => At i (copyToEntries basename nameIn nameOut (nodes i) size i) vs) t := by
  have hfirst : expected[([] : List (Entry n)).length]? = some (.bcast 0, .number size) := by
    simp [hexpected, copyToEntries, ownNumber]
  have hroot : i = 0 → copyToEntries basename nameIn nameOut (nodes i) size i <+: expected := by
    rintro rfl
    rw [hexpected]
  -- from the broadcast on, all ranks do the same
  have hrest : ∀ s, At i [(.bcast 0, ownNumber i size)] vs s →
      Keeps (comm nodes) (pact expected) (asks nodes expected live) i
        (mpiFileOpen nameIn >>= fun fdIn =>
          if fdIn then copyOpened basename nameIn nameOut size else pure false)
        (fun _ => At i (copyToEntries basename nameIn nameOut (nodes i) size i) vs) s := by
    intro s hs
    simp only [copyToEntries, Node.copies] at hroot ⊢
    rw [keeps_bind]
    apply mpiFileOpen_keeps (fun hi => (List.prefix_append _ _).trans (hroot hi)) hs
    intro s hs
    split <;> rename_i hopens <;> simp only [hopens, Bool.true_and, Bool.false_and,
      Bool.false_eq_true, if_false, List.append_nil] at hroot ⊢
    · exact copyOpened_keeps hroot hs fun _ _ h => h
    · exact hs
  have hbcast : i = 0 → [(.bcast 0, ownNumber i size)] <+: expected :=
    fun hi => (List.prefix_append _ _).trans (hroot hi)
  rw [turbineIoCopyTo, bcastSize, keeps_bind]
  split
  · rename_i hi
    subst hi
    rw [keeps_bind]
    apply stat_keeps h
    intro s hs
    simp only [Node.statsSize] at hsize
    cases hstat : (nodes 0).stat nameIn with
    | ok isDir size' =>
      obtain rfl : size' = size := by simpa [hstat] using hsize
      simp only [keeps_bind]
      refine mpiBcast_keeps hfirst (fun _ => ⟨rfl, hbcast rfl⟩) hs ?_
      exact fun s hs => hrest s hs
    | noent => simp [hstat] at hsize
    | error => simp [hstat] at hsize
  · rename_i hi
    rw [keeps_bind]
    refine mpiBcast_keeps hfirst (fun h => absurd h hi) h ?_
    intro s hs
    exact hrest s (by simpa [ownNumber, hi] using hs)

-- when it cannot, rank 0 returns at once and the others wait for it
lemma copyTo_root_gives_up (hsize : (nodes 0).statsSize nameIn = none)
    {Q : Bool → Comm n × Unit → Prop} (h : At 0 es vs t) (hq : ∀ s, At 0 es vs s → Q false s) :
    Keeps (comm nodes) (pact expected) (asks nodes expected live) 0
      (turbineIoCopyTo basename 0 nameIn nameOut) Q t := by
  rw [turbineIoCopyTo, bcastSize, if_pos rfl, keeps_bind, keeps_bind]
  apply stat_keeps h
  intro s hs
  simp only [Node.statsSize] at hsize
  cases hstat : (nodes 0).stat nameIn with
  | ok isDir size => simp [hstat] at hsize
  | noent => exact hq s hs
  | error => exact hq s hs

lemma copyTo_blocked (hlive : ¬ live) (hi : i ≠ 0) {Q : Bool → Comm n × Unit → Prop}
    (h : At i [] vs t) :
    Keeps (comm nodes) (pact []) (asks nodes [] live) i
      (turbineIoCopyTo basename i nameIn nameOut) Q t := by
  rw [turbineIoCopyTo, bcastSize, if_neg hi, keeps_bind, keeps_bind]
  exact mpiBcast_blocked le_rfl hlive hi h

/-! ### The broadcast -/

def bcastEntries (text : CString) (i : Rank n) : List (Entry n) :=
  [(.bcast 0, ownNumber i (text.chars.length + 1)),
    (.bcast 0, if i = 0 then .text text.buffer else .none)]

variable {text : CString} {s : Pointer}

lemma ioBcast_keeps (hfits : text.chars.length + 1 ≤ intMax)
    (hexpected : expected = bcastEntries text 0) (hs : i = 0 → s = some text)
    {Q : Bcast → Comm n × Unit → Prop} (h : At i [] vs t)
    (hq : ∀ s, At i (bcastEntries text i) vs s → Q ⟨true, some text, text.chars.length⟩ s) :
    Keeps (comm nodes) (pact expected) (asks nodes expected live) i (turbineIoBcast i s) Q t := by
  have hfirst : expected[([] : List (Entry n)).length]? =
      some (.bcast 0, .number (text.chars.length + 1)) := by
    simp [hexpected, bcastEntries, ownNumber]
  have hsecond : ∀ own : Payload, expected[([(.bcast 0, own)] : List (Entry n)).length]? =
      some (.bcast 0, .text text.buffer) := by
    simp [hexpected, bcastEntries]
  rw [turbineIoBcast]
  split
  · rename_i hi
    subst hi
    rw [hs rfl, keeps_bind]
    apply readString_keeps h
    intro t ht
    rw [if_neg (not_lt.mpr hfits), keeps_bind]
    refine mpiBcast_keeps hfirst (fun _ => ⟨rfl, ?_⟩) ht ?_
    · simp [hexpected, bcastEntries, ownNumber]
    · intro t ht
      rw [keeps_bind]
      refine mpiBcast_keeps (hsecond _) (fun _ => ⟨rfl, ?_⟩) ht ?_
      · simp [hexpected, bcastEntries, ownNumber]
      · exact fun t ht => hq t (by simpa [bcastEntries, ownNumber] using ht)
  · rename_i hi
    rw [keeps_bind]
    refine mpiBcast_keeps hfirst (fun h => absurd h hi) h ?_
    intro t ht
    rw [keeps_bind]
    refine mpiBcast_keeps (hsecond _) (fun h => absurd h hi) ht ?_
    intro t ht
    have htext : CString.ofBuffer (text.buffer.take (text.chars.length + 1)) = text := by
      rw [List.take_of_length_le (by simp), CString.ofBuffer_buffer]
    simp only [Payload.asText, Payload.asNumber, htext]
    exact hq t (by simpa [bcastEntries, ownNumber, hi] using ht)

lemma ioBcast_root_gives_up (hlong : intMax < text.chars.length + 1)
    {Q : Bcast → Comm n × Unit → Prop} (h : At 0 es vs t)
    (hq : ∀ s, At 0 es vs s → Q ⟨false, some text, 0⟩ s) :
    Keeps (comm nodes) (pact expected) (asks nodes expected live) 0
      (turbineIoBcast 0 (some text)) Q t := by
  rw [turbineIoBcast, if_pos rfl, keeps_bind]
  apply readString_keeps h
  intro t ht
  rw [if_pos hlong]
  exact hq t ht

lemma ioBcast_blocked (hlive : ¬ live) (hi : i ≠ 0) {Q : Bcast → Comm n × Unit → Prop}
    (h : At i [] vs t) :
    Keeps (comm nodes) (pact []) (asks nodes [] live) i (turbineIoBcast i s) Q t := by
  rw [turbineIoBcast, if_neg hi, keeps_bind]
  exact mpiBcast_blocked le_rfl hlive hi h

/-! ### All ranks -/

lemma at_stable {entries : Rank n → List (Entry n)} {vs : Rank n → String → Pointer} (i : Rank n)
    (_ : α) (s s' : Comm n × Unit) (h : At i (entries i) (vs i) s) (hr : Rely i s s') :
    At i (entries i) (vs i) s' := h.stable hr

/-- When every rank enters `entries` and no more, and rank 0 what is expected of it, a run ends
with the same collectives on all ranks exactly if `entries` are. -/
lemma alwaysSame_iff {clients : Rank n → Io n α} (entries : Rank n → List (Entry n))
    (h : ∀ i, Keeps (comm nodes) (pact (entries 0)) (asks nodes (entries 0) True) i (clients i)
      (fun _ => At i (entries i) fun _ => none) (start fun _ _ => none, ())) :
    AlwaysSame nodes clients ↔ ∀ i j, (entries i).map (·.1) = (entries j).map (·.1) := by
  have hends : ∀ ps s, Interleaved (comm nodes) (clients, start fun _ _ => none) (ps, s) →
      Stuck (comm nodes) (ps, s) →
      (∀ i, ∃ a, ps i = .done a) ∧ ∀ i, s.ops i = (entries i).map (·.1) := by
    intro ps s hrun hstuck
    obtain ⟨hinv, hkeeps⟩ := keeps_of_run at_stable h hrun
    have hdone : ∀ i, ∃ a, ps i = .done a := by
      apply returned_of_stuck hinv hkeeps ?_ hstuck
      intro a ha
      rw [ha.entered_eq]
    refine ⟨hdone, fun i => ?_⟩
    obtain ⟨a, hp⟩ := hdone i
    have hat : s.entered i = entries i := ((hkeeps i).returned hp).entered_eq
    rw [Comm.ops, hat]
  constructor
  · intro hsame i j
    obtain ⟨⟨ps, s⟩, hrun, hstuck⟩ := exists_stuck (W := comm nodes) (clients, start fun _ _ => none)
    have hops := (hends ps s hrun hstuck).2
    rw [← hops i, ← hops j]
    exact (hsame ps s hrun hstuck).1 i j
  · intro hall ps s hrun hstuck
    obtain ⟨hdone, hops⟩ := hends ps s hrun hstuck
    refine ⟨fun i j => ?_, hdone⟩
    rw [hops i, hops j]
    exact hall i j

lemma not_alwaysSame_of_waiting {clients : Rank n → Io n α}
    (h : ∃ ps s, Interleaved (comm nodes) (clients, start fun _ _ => none) (ps, s) ∧
      Stuck (comm nodes) (ps, s) ∧ ¬ ∀ i, ∃ a, ps i = .done a) : ¬ AlwaysSame nodes clients := by
  obtain ⟨ps, s, hrun, hstuck, hwaiting⟩ := h
  exact fun hsame => hwaiting (hsame ps s hrun hstuck).2

lemma map_copyToEntries {size : ℕ} :
    (copyToEntries basename nameIn nameOut (nodes i) size i).map (·.1) =
      [.bcast 0, .fileOpen] ++ if (nodes i).copies basename nameIn nameOut
        then List.replicate (chunks size) .fileReadAll ++ [.fileClose] else [] := by
  rw [copyToEntries, List.map_append]
  split <;> simp [copyEntries]

lemma ite_nil_inj {β : Type} {xs : List β} (hx : xs ≠ []) {b b' : Bool} :
    (if b then xs else []) = (if b' then xs else []) ↔ b = b' := by
  cases b <;> cases b' <;> simp [hx, hx.symm]

lemma alwaysSame_copyTo_iff {size : ℕ} (hsize : (nodes 0).statsSize nameIn = some size) :
    AlwaysSame nodes (fun i => turbineIoCopyTo basename i nameIn nameOut) ↔
      ∀ i j, (nodes i).copies basename nameIn nameOut =
        (nodes j).copies basename nameIn nameOut := by
  let entries := fun i => copyToEntries basename nameIn nameOut (nodes i) size i
  have hkeeps : ∀ i, Keeps (comm nodes) (pact (entries 0)) (asks nodes (entries 0) True) i
      (turbineIoCopyTo basename i nameIn nameOut) (fun _ => At i (entries i) fun _ => none)
      (start fun _ _ => none, ()) := fun i => copyTo_keeps hsize rfl ⟨rfl, rfl⟩
  rw [alwaysSame_iff _ hkeeps]
  simp only [entries, map_copyToEntries]
  exact forall₂_congr fun i j => (List.append_right_inj _).trans (ite_nil_inj (by simp))

lemma not_alwaysSame_copyTo (hn : n ≠ 0) (hsize : (nodes 0).statsSize nameIn = none) :
    ¬ AlwaysSame nodes (fun i => turbineIoCopyTo basename i nameIn nameOut) := by
  apply not_alwaysSame_of_waiting
  apply exists_waiting hn
  · exact copyTo_root_gives_up hsize (⟨rfl, rfl⟩ : At 0 [] _ _) fun _ _ => trivial
  · exact fun i hi => copyTo_blocked not_false hi ⟨rfl, rfl⟩

lemma alwaysSame_ioBcast (hfits : text.chars.length + 1 ≤ intMax) :
    AlwaysSame nodes (fun i => turbineIoBcast i (if i = 0 then some text else none)) := by
  have hkeeps : ∀ i, Keeps (comm nodes) (pact (bcastEntries text 0))
      (asks nodes (bcastEntries text 0) True) i
      (turbineIoBcast i (if i = 0 then some text else none))
      (fun _ => At i (bcastEntries text i) fun _ => none) (start fun _ _ => none, ()) :=
    fun i => ioBcast_keeps hfits rfl (fun hi => if_pos hi) ⟨rfl, rfl⟩ fun _ h => h
  rw [alwaysSame_iff _ hkeeps]
  exact fun _ _ => rfl

lemma not_alwaysSame_ioBcast (hn : n ≠ 0) (hlong : intMax < text.chars.length + 1) :
    ¬ AlwaysSame nodes (fun i => turbineIoBcast i (if i = 0 then some text else none)) := by
  apply not_alwaysSame_of_waiting
  apply exists_waiting hn
  · exact ioBcast_root_gives_up hlong (⟨rfl, rfl⟩ : At 0 [] _ _) fun _ _ => trivial
  · exact fun i hi => ioBcast_blocked not_false hi ⟨rfl, rfl⟩

-- a single rank always agrees with itself
lemma alwaysSame_single {nodes : Rank 0 → Node} {clients : Rank 0 → Io 0 α}
    (h : ∃ entries, Keeps (comm nodes) (pact entries) (asks nodes entries True) 0 (clients 0)
      (fun _ => At 0 entries fun _ => none) (start fun _ _ => none, ())) :
    AlwaysSame nodes clients := by
  obtain ⟨entries, hkeeps⟩ := h
  apply (alwaysSame_iff (fun _ => entries) ?_).mpr
  · exact fun _ _ => rfl
  · intro i
    rw [i.eq_zero]
    exact hkeeps

/-- When the ranks enter the same collectives: a single rank always; several ranks copy a file
when rank 0 can look at it and it is opened, with its destination, on all ranks or on none, and
broadcast a string that an `int` can count. -/
theorem alwaysSame_iff_fits (nodes : Rank n → Node) (basename : String → String)
    (nameIn nameOut : String) (text : CString) :
    (AlwaysSame nodes (fun i => turbineIoCopyTo basename i nameIn nameOut) ↔
      n = 0 ∨ ((nodes 0).statsSize nameIn).isSome ∧ ∀ i j,
        (nodes i).copies basename nameIn nameOut = (nodes j).copies basename nameIn nameOut) ∧
    (AlwaysSame nodes (fun i => turbineIoBcast i (if i = 0 then some text else none)) ↔
      n = 0 ∨ text.chars.length + 1 ≤ intMax) := by
  constructor
  · cases hsize : (nodes 0).statsSize nameIn with
    | none =>
      by_cases hn : n = 0
      · subst hn
        refine iff_of_true (alwaysSame_single ⟨[], ?_⟩) (.inl rfl)
        exact copyTo_root_gives_up hsize ⟨rfl, rfl⟩ fun _ h => h
      · simpa [hn] using not_alwaysSame_copyTo hn hsize
    | some size =>
      rw [alwaysSame_copyTo_iff hsize]
      refine ⟨fun h => .inr ⟨rfl, h⟩, ?_⟩
      rintro (rfl | ⟨_, h⟩)
      · intro i j
        rw [i.eq_zero, j.eq_zero]
      · exact h
  · by_cases hfits : text.chars.length + 1 ≤ intMax
    · exact iff_of_true (alwaysSame_ioBcast hfits) (.inr hfits)
    · by_cases hn : n = 0
      · subst hn
        refine iff_of_true (alwaysSame_single ⟨[], ?_⟩) (.inl rfl)
        exact ioBcast_root_gives_up (not_le.mp hfits) ⟨rfl, rfl⟩ fun _ h => h
      · simpa [hn, hfits] using not_alwaysSame_ioBcast hn (not_le.mp hfits)

-- two ranks, and a file that rank 0 cannot look at
theorem not_alwaysSame_missing :
    ¬ AlwaysSame (fun _ : Rank 1 => ⟨fun _ => .noent, fun _ => true, fun _ => true⟩)
      (fun i => turbineIoCopyTo id i "in" "out") :=
  not_alwaysSame_copyTo one_ne_zero rfl

end Turbine.Mpi
