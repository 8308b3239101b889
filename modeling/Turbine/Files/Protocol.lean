import Turbine.Files.Stages

/-! Runs of a builtin on files: its call, the rule that it makes, and whatever else happens to its
arguments meanwhile. -/

namespace Turbine.Files

open Turbine.Library

namespace Call

/-- What the builtin reads. -/
def needs (c : Call) : List Handle :=
  if c.mapped then [.path c.output, .td c.input] else [.td c.input]

/-- Nobody has written to the output, but for the path of a file that is mapped. -/
structure Fresh (c : Call) (s : State) : Prop where
  notClosed : (s.data c.output).closed = false
  value : ∀ v, (s.data c.output).value = some v → c.mapped ∧ v.IsFile
  sound : c.Sound (s.data c.input) (s.cache c.input)
  rules : s.rules = []
  reads : s.reads = []
  assigned : s.assigned = []
  closes : s.closes = []
  drops : s.drops = 0
  errors : s.errors = []

/-- What the rest of the program may do to the data from `s` to `t`: what is closed stays as it is,
and of the output only the path of a mapped file is set. -/
structure Others (c : Call) (s t : State) : Prop where
  closed : ∀ id, (s.data id).closed → t.data id = s.data id
  output : t.data c.output = s.data c.output ∨ c.mapped ∧ (s.data c.output).value = none ∧
    ∃ path, t.data c.output = { s.data c.output with value := some (.file path) }
  sound : c.Sound (t.data c.input) (t.cache c.input)

end Call

/-- Runs the script; an error is reported and the process goes on. -/
def perform (script : Script Unit) (s : State) : State :=
  match script s with
  | (.ok _, t) => t
  | (.error e, t) => { t with errors := t.errors ++ [e] }

def Rule.Ready (r : Rule) (s : State) : Prop := ∀ h ∈ r.waitfor, s.ready h

/-- The states of runs in which the builtin is called once at most, and whether it was called. -/
inductive Reached (sys : System) (c : Call) : Bool → State → Prop
  | start {s : State} (h : c.Fresh s) : Reached sys c false s
  | others {called : Bool} {s : State} {data : ℕ → Datum} {cache : ℕ → Option Value}
      {disk : Text → Option Bytes} (h : Reached sys c called s)
      (ho : c.Others s { s with data := data, cache := cache, disk := disk }) :
      Reached sys c called { s with data := data, cache := cache, disk := disk }
  | call {s : State} (h : Reached sys c false s) : Reached sys c true (perform (c.run sys) s)
  | fire {called : Bool} {s : State} {before after : List Rule} {r : Rule}
      (h : Reached sys c called s) (hr : s.rules = before ++ r :: after) (hready : r.Ready s) :
      Reached sys c called (perform (r.body.exec sys) { s with rules := before ++ after })

/-! ### From the call to the end -/

/-- Where a call can be between two steps. An error that the files caused ends it anywhere. -/
inductive Stage.Phase (c : Call) : Bool → Stage → Prop
  | idle : Phase c false ⟨[], [], [], false, false, false, false⟩
  | pending : Phase c true ⟨[c.rule], [], [], c.early, c.early, false, false⟩
  | finished {written : Bool} : Phase c true ⟨[], [], [], written, c.unmapped, true, true⟩
  | broken {e : Stop} {written assigned dropped closed : Bool} (he : e.Outside) :
      Phase c true ⟨[], [e], [], written, assigned, dropped, closed⟩

def Inv (c : Call) (called : Bool) (s : State) : Prop := ∃ p : Stage, p.Phase c called ∧ p.Holds c s

variable {sys : System} {c : Call} {p : Stage} {s t : State} {called : Bool}

lemma perform_cases {script : Script Unit} {Q : State → Prop} {T : Stop → State → Prop}
    (h : Cmd.Meets script s (fun _ t => Q t) T) :
    Q (perform script s) ∨
      ∃ e t, T e t ∧ perform script s = { t with errors := t.errors ++ [e] } := by
  unfold Cmd.Meets at h
  unfold perform
  rcases hscript : script s with ⟨e | r, t⟩ <;> rw [hscript] at h
  · exact .inr ⟨e, t, h, rfl⟩
  · exact .inl h

namespace Stage.Holds

lemma forget (h : p.Holds c s) : { p with available := [] }.Holds c s where
  __ := h
  available := List.forall_mem_nil _

lemma error (h : p.Holds c s) (e : Stop) :
    { p with errors := p.errors ++ [e] }.Holds c { s with errors := s.errors ++ [e] } where
  __ := h
  errors := by rw [h.errors]

lemma others {data : ℕ → Datum} {cache : ℕ → Option Value} {disk : Text → Option Bytes}
    (h : p.Holds c s) (ho : c.Others s { s with data := data, cache := cache, disk := disk })
    (havailable : p.available = []) :
    p.Holds c { s with data := data, cache := cache, disk := disk } where
  __ := h
  isClosed := by
    rcases ho.output with hsame | ⟨-, -, path, hset⟩
    · rw [hsame]
      exact h.isClosed
    · rw [hset]
      exact h.isClosed
  path := by
    intro hassigned
    have hpath := h.path hassigned
    rcases ho.output with hsame | ⟨-, hnone, -⟩
    · rw [State.ready, hsame]
      exact hpath
    · rw [State.ready, hnone] at hpath
      exact absurd hpath (by simp)
  blank := by
    intro hwritten hmapped
    rcases ho.output with hsame | ⟨hc, -, -⟩
    · rw [hsame]
      exact h.blank hwritten hmapped
    · exact absurd hc (by simp [hmapped])
  sound := ho.sound
  available := by
    rw [havailable]
    exact List.forall_mem_nil _

end Stage.Holds

lemma Call.Fresh.holds (h : c.Fresh s) :
    (⟨[], [], [], false, false, false, false⟩ : Stage).Holds c s where
  rules := h.rules
  errors := h.errors
  reads := by
    rw [h.reads]
    exact List.forall_mem_nil _
  assigned := h.assigned
  unmapped := fun h => Bool.noConfusion h
  drops := h.drops
  closes := h.closes
  isClosed := h.notClosed
  path := fun h => Bool.noConfusion h
  blank := by
    intro _ hmapped
    rw [Option.eq_none_iff_forall_not_mem]
    intro v hv
    exact absurd (h.value v hv).1 (by simp [hmapped])
  sound := h.sound
  available := List.forall_mem_nil _

/-! ### The call -/

lemma rule_meets {T : Stop → State → Prop} (h : p.Holds c s) (waitfor : List Handle) (body : Body) :
    Cmd.Meets (rule waitfor body) s
      (fun _ t => { p with rules := p.rules ++ [(⟨waitfor, body⟩ : Rule)] }.Holds c t) T where
  __ := h
  rules := by
    dsimp only
    rw [h.rules]

lemma initUnmapped_meets (sys : System) {outfile : FileHandle} (h : p.Holds c s) (hout : c.outfile? = some outfile)
    (hfile : outfile.file = c.output) (hm : outfile.isMapped = false) (hwritten : p.written = false)
    (hclosed : p.closed = false) (hassigned : p.assigned = false) :
    Cmd.Meets (initUnmapped sys outfile) s
      (fun _ t => { p with written := true, assigned := true }.Holds c t) (Broken c p) := by
  have hunmapped : c.unmapped = true := by simp [Call.unmapped, hout, hm]
  rw [initUnmapped, if_neg (by simp [hm])]
  refine h.mktemp.bind fun filename t ht => ?_
  have hinsert := ht.insertPath filename hwritten hclosed hassigned hunmapped
  rw [← hfile] at hinsert
  exact hinsert.bind fun _ u hu => Cmd.meets_pure hu

/-- The call makes its rule, or there is no temporary file. -/
lemma run_meets (sys : System) (h : (⟨[], [], [], false, false, false, false⟩ : Stage).Holds c s) :
    Cmd.Meets (c.run sys) s
      (fun _ t => (⟨[c.rule], [], [], c.early, c.early, false, false⟩ : Stage).Holds c t)
      (Broken c ⟨[], [], [], false, false, false, false⟩) := by
  cases c with
  | inputFile outfile filepath =>
    rw [Call.run, inputFile]
    cases hm : outfile.isMapped with
    | true => simpa only [Call.rule, hm] using! rule_meets h _ _
    | false => simpa only [Call.rule, hm] using! rule_meets h _ _
  | inputUrl outfile filepath =>
    rw [Call.run, inputUrl]
    cases hm : outfile.isMapped with
    | true => simpa only [Call.rule, hm] using! rule_meets h _ _
    | false => simpa only [Call.rule, hm] using! rule_meets h _ _
  | copyFile dst src =>
    rw [Call.run, copyFile]
    cases hm : dst.isMapped with
    | true => simpa only [Call.rule, hm] using! rule_meets h _ _
    | false => simpa only [Call.rule, hm] using! rule_meets h _ _
  | fileRead result src => exact rule_meets h _ _
  | fileWrite dst str =>
    rw [Call.run, fileWrite, ruleFileHelper, outputWaits]
    cases hm : dst.isMapped with
    | true => simpa only [Call.rule, Call.early, hm] using! rule_meets h _ _
    | false =>
      have hinit := initUnmapped_meets sys h rfl rfl hm rfl rfl rfl
      simp only [Call.rule, Call.early, hm, Bool.not_false, Bool.false_eq_true, if_false, bind_assoc]
      exact hinit.bind fun _ t ht => rule_meets ht _ _
  | blobRead result src => exact rule_meets h _ _
  | fileLines result src => exact rule_meets h _ _

/-! ### Main result -/

lemma inv_of_broken {e : Stop} (h : Broken c p e t) (hrules : p.rules = []) (herrors : p.errors = []) :
    Inv c true { t with errors := t.errors ++ [e] } := by
  obtain ⟨he, ⟨rules, errors, available, written, assigned, dropped, closed⟩, hr, hs, hq⟩ := h
  obtain rfl : rules = [] := hr.trans hrules
  obtain rfl : errors = [] := hs.trans herrors
  exact ⟨_, .broken he, (hq.error e).forget⟩

lemma inv_of_finished (h : Finished c p t) (hrules : p.rules = []) (herrors : p.errors = []) :
    Inv c true t := by
  obtain ⟨⟨rules, errors, available, written, assigned, dropped, closed⟩, hr, hs, ha, hd, hcl, hq⟩ := h
  obtain rfl : rules = [] := hr.trans hrules
  obtain rfl : errors = [] := hs.trans herrors
  obtain rfl : assigned = c.unmapped := ha
  obtain rfl : dropped = true := hd
  obtain rfl : closed = true := hcl
  exact ⟨_, .finished, hq.forget⟩

lemma inv_call (h : Inv c false s) : Inv c true (perform (c.run sys) s) := by
  obtain ⟨p, hphase, hp⟩ := h
  cases hphase with
  | idle =>
    rcases perform_cases (run_meets sys hp) with hpending | ⟨e, t, hbroken, heq⟩
    · exact ⟨_, .pending, hpending⟩
    · rw [heq]
      exact inv_of_broken hbroken rfl rfl

lemma inv_others {data : ℕ → Datum} {cache : ℕ → Option Value} {disk : Text → Option Bytes}
    (h : Inv c called s) (ho : c.Others s { s with data := data, cache := cache, disk := disk }) :
    Inv c called { s with data := data, cache := cache, disk := disk } := by
  obtain ⟨p, hphase, hp⟩ := h
  have havailable : p.available = [] := by cases hphase <;> rfl
  exact ⟨p, hphase, hp.others ho havailable⟩

/-- The only rule that can fire is the one that the call made. -/
lemma inv_fire {before after : List Rule} {r : Rule} (hc : c.Supported) (h : Inv c called s)
    (hr : s.rules = before ++ r :: after) (hready : r.Ready s) :
    Inv c called (perform (r.body.exec sys) { s with rules := before ++ after }) := by
  obtain ⟨p, hphase, hp⟩ := h
  have hmem : r ∈ p.rules := by
    rw [← hp.rules, hr]
    exact List.mem_append_right _ (.head _)
  cases hphase with
  | idle => exact absurd hmem (List.not_mem_nil)
  | finished => exact absurd hmem (List.not_mem_nil)
  | broken => exact absurd hmem (List.not_mem_nil)
  | pending =>
    obtain rfl : r = c.rule := List.mem_singleton.mp hmem
    have hrest : before ++ after = [] := by
      have hlength := congrArg List.length (hr.symm.trans hp.rules)
      simp only [List.length_append, List.length_cons, List.length_nil] at hlength
      exact List.eq_nil_of_length_eq_zero (by rw [List.length_append]; omega)
    have hfiring : (Stage.firing c [] []).Holds c { s with rules := before ++ after } :=
      { hp with
        rules := hrest
        available := hready }
    rcases perform_cases (body_serves sys hc [] [] _ hfiring) with
      hfinished | ⟨e, t, hbroken, heq⟩
    · exact inv_of_finished hfinished rfl rfl
    · rw [heq]
      exact inv_of_broken hbroken rfl rfl

lemma reached_inv (hc : c.Supported) (h : Reached sys c called s) : Inv c called s := by
  induction h with
  | start h => exact ⟨_, .idle, h.holds⟩
  | others _ ho ih => exact inv_others ih ho
  | call _ ih => exact inv_call ih
  | fire _ hr hready ih => exact inv_fire hc ih hr hready

/-- The rule waits for nothing that the body does not read. -/
lemma Call.waitfor_subset_needs (c : Call) : c.rule.waitfor ⊆ c.needs := by
  cases c with
  | inputFile outfile filepath =>
    cases hm : outfile.isMapped <;> simp [rule, needs, mapped, outfile?, hm, output, input, getFilePath]
  | inputUrl outfile filepath =>
    cases hm : outfile.isMapped <;> simp [rule, needs, mapped, outfile?, hm, output, input, getFilePath]
  | copyFile dst src =>
    cases hm : dst.isMapped <;>
      simp [rule, needs, mapped, outfile?, hm, output, input, getFilePath, getFileTd]
  | fileRead result src => simp [rule, needs, mapped, outfile?, input, getFileTd]
  | fileWrite dst str =>
    cases hm : dst.isMapped <;> simp [rule, needs, mapped, outfile?, hm, output, input, getFilePath]
  | blobRead result src => simp [rule, needs, mapped, outfile?, input, getFileTd]
  | fileLines result src => simp [rule, needs, mapped, outfile?, input, getFileTd]

/-- What is asked of the builtin in a state that a run reaches. -/
structure FollowsProtocol (c : Call) (called : Bool) (s : State) : Prop where
  reads : ∀ r ∈ s.reads, r.2 = true
  assigned : s.assigned = [] ∨ c.unmapped ∧ s.assigned = [c.output]
  closes : s.closes = [] ∨ ClosedOnce c s.closes
  drops : s.drops = 0 ∨ s.drops = Pi.single c.input 1
  errors : ∀ e ∈ s.errors, e.Outside
  ready : ∀ r ∈ s.rules, (∀ h ∈ c.needs, s.ready h) → r.Ready s
  complete : called → s.rules = [] → s.errors = [] →
    s.assigned = (if c.unmapped then [c.output] else []) ∧ ClosedOnce c s.closes ∧
      (s.data c.output).closed ∧ s.drops = Pi.single c.input 1

/-- In every run, whatever is mapped and in whatever order the paths and the inputs become
available. -/
theorem file_builtins_follow_protocol (hc : c.Supported) (h : Reached sys c called s) :
    FollowsProtocol c called s := by
  obtain ⟨p, hphase, hp⟩ := reached_inv hc h
  have hassigned := hp.assigned
  have hcloses := hp.closes
  have hdrops := hp.drops
  refine ⟨hp.reads, ?_, ?_, ?_, ?_, ?_, ?_⟩
  · cases ha : p.assigned with
    | false =>
      rw [ha] at hassigned
      exact .inl hassigned
    | true =>
      rw [ha] at hassigned
      exact .inr ⟨hp.unmapped ha, hassigned⟩
  · cases hclosed : p.closed with
    | false =>
      rw [hclosed] at hcloses
      exact .inl hcloses
    | true =>
      rw [hclosed] at hcloses
      exact .inr hcloses
  · cases hd : p.dropped with
    | false =>
      rw [hd] at hdrops
      exact .inl hdrops
    | true =>
      rw [hd] at hdrops
      exact .inr hdrops
  · intro e he
    rw [hp.errors] at he
    cases hphase with
    | broken hout =>
      rw [List.mem_singleton.mp he]
      exact hout
    | idle | pending | finished => exact absurd he List.not_mem_nil
  · intro r hr hneeds
    rw [hp.rules] at hr
    cases hphase with
    | pending =>
      rw [List.mem_singleton.mp hr]
      exact fun handle hmem => hneeds handle (c.waitfor_subset_needs hmem)
    | idle | finished | broken => exact absurd hr List.not_mem_nil
  · intro hcalled hrules herrors
    cases hphase with
    | finished => exact ⟨hassigned, hcloses, hp.isClosed, hdrops⟩
    | idle => exact Bool.noConfusion hcalled
    | pending => exact absurd (hrules.symm.trans hp.rules) (List.cons_ne_nil _ _).symm
    | broken => exact absurd (herrors.symm.trans hp.errors) (List.cons_ne_nil _ _).symm

/-- Files of single bytes, which can all be written. -/
def plain : System where
  tempfile := fun _ => some ['t']
  makesDirectory := fun _ => true
  writes := fun _ => true
  decode := List.map fun b => Char.ofNat b.toNat
  encode := List.map fun ch => UInt8.ofNat ch.toNat
  isSpace := Char.isWhitespace
  unread := []

/-- A copy of the file 2 to the unmapped file 1. -/
def copying : Call := .copyFile ⟨1, false⟩ ⟨2, true⟩

def atStart : State where
  data := fun _ => ⟨none, false⟩
  cache := fun _ => none
  disk := fun _ => none
  rules := []
  reads := []
  assigned := []
  closes := []
  drops := 0
  errors := []

/-- The copy is called, and then the file 2 is closed. -/
def arrived : State :=
  { perform (copying.run plain) atStart with
    data := fun id => if id = 2 then ⟨some (.file ['a']), true⟩ else ⟨none, false⟩
    cache := fun _ => none
    disk := fun _ => none }

lemma reached_arrived : Reached plain copying true arrived := by
  have hstart : copying.Fresh atStart :=
    ⟨rfl, by rintro v ⟨⟩, ⟨by rintro ⟨⟩, by rintro v ⟨⟩⟩, rfl, rfl, rfl, rfl, rfl, rfl⟩
  refine .others (.call (.start hstart)) ⟨fun id h => Bool.noConfusion h, .inl rfl, ?_⟩
  exact ⟨fun _ => ⟨.file ['a'], rfl, rfl⟩, by rintro v ⟨⟩⟩

def copied : State := perform (copying.rule.body.exec plain) { arrived with rules := [] }

theorem file_builtins_follow_protocol_copy :
    FollowsProtocol copying true copied ∧ copied.rules = [] ∧ copied.errors = [] ∧
      copied.assigned = [1] := by
  have hready : copying.rule.Ready arrived := by
    intro handle hmem
    rw [List.mem_singleton.mp hmem]
    rfl
  have hreached : Reached plain copying true copied :=
    Reached.fire reached_arrived (List.nil_append _).symm hready
  exact ⟨file_builtins_follow_protocol trivial hreached, rfl, rfl, rfl⟩

end Turbine.Files
