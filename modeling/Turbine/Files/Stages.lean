import Turbine.Files.Model

/-! What a call of a builtin on files has done so far, and what its commands and the body of its rule
add to that. -/

namespace Turbine.Files

open Turbine.Library

namespace Call

def output : Call → ℕ
  | .inputFile outfile _ | .inputUrl outfile _ => outfile.file
  | .copyFile dst _ | .fileWrite dst _ => dst.file
  | .fileRead result _ | .blobRead result _ | .fileLines result _ => result

def outfile? : Call → Option FileHandle
  | .inputFile outfile _ | .inputUrl outfile _ => some outfile
  | .copyFile dst _ | .fileWrite dst _ => some dst
  | .fileRead _ _ | .blobRead _ _ | .fileLines _ _ => none

def input : Call → ℕ
  | .inputFile _ filepath | .inputUrl _ filepath => filepath
  | .fileWrite _ str => str
  | .copyFile _ src | .fileRead _ src | .blobRead _ src | .fileLines _ src => src.file

/-- The type of the input, a string or a file. -/
def inputText? : Call → Value → Option Text
  | .inputFile _ _ | .inputUrl _ _ | .fileWrite _ _ => Value.string?
  | .copyFile _ _ | .fileRead _ _ | .blobRead _ _ | .fileLines _ _ => Value.path?

def mapped (c : Call) : Bool := c.outfile?.any (·.isMapped)

def unmapped (c : Call) : Bool := c.outfile?.any (!·.isMapped)

/-- A copy from one address to another is refused. -/
def Supported : Call → Prop
  | .inputUrl outfile _ => outfile.isMapped = false
  | _ => True

/-- Whatever the input and its entry in the cache hold has the input's type. -/
structure Sound (c : Call) (input : Datum) (cached : Option Value) : Prop where
  closed : input.closed → ∃ v, input.value = some v ∧ (c.inputText? v).isSome
  cached : ∀ v, cached = some v → (c.inputText? v).isSome

end Call

/-! ### Stages of a call -/

/-- How far a call is: the rules that wait, what is known to be available, and whether the call has
written the output's value, assigned its path, dropped the input and closed the output. -/
structure Stage where
  rules : List Rule
  errors : List Stop
  available : List Handle
  written : Bool
  assigned : Bool
  dropped : Bool
  closed : Bool

def ClosedOnce (c : Call) (closes : List (ℕ × Option Value)) : Prop :=
  ∃ v, closes = [(c.output, some v)] ∧ (c.outfile?.isSome → v.IsFile)

structure Stage.Holds (c : Call) (p : Stage) (s : State) : Prop where
  rules : s.rules = p.rules
  errors : s.errors = p.errors
  reads : ∀ r ∈ s.reads, r.2 = true
  assigned : s.assigned = if p.assigned then [c.output] else []
  unmapped : p.assigned → c.unmapped
  drops : s.drops = if p.dropped then Pi.single c.input 1 else 0
  closes : if p.closed then ClosedOnce c s.closes else s.closes = []
  isClosed : (s.data c.output).closed = p.closed
  path : p.assigned → s.ready (.path c.output)
  blank : p.written = false → c.mapped = false → (s.data c.output).value = none
  sound : c.Sound (s.data c.input) (s.cache c.input)
  available : ∀ h ∈ p.available, s.ready h

/-- The rule of a call. -/
def Call.rule : Call → Rule
  | .inputFile outfile filepath =>
    if outfile.isMapped then
      ⟨[getFilePath outfile, .td filepath], .inputFileCopy outfile filepath⟩
    else ⟨[.td filepath], .inputFile outfile filepath⟩
  | .inputUrl outfile filepath =>
    if outfile.isMapped then
      ⟨[getFilePath outfile, .td filepath], .inputUrlError (getFilePath outfile) (.td filepath)⟩
    else ⟨[.td filepath], .inputUrl outfile filepath⟩
  | .copyFile dst src =>
    if dst.isMapped then ⟨[getFilePath dst, getFileTd src], .copyFile dst src⟩
    else ⟨[getFileTd src], .copyFileTd dst src⟩
  | .fileRead result src => ⟨[getFileTd src], .fileRead result src⟩
  | .fileWrite dst str =>
    if dst.isMapped then ⟨[.td str, getFilePath dst], .fileWrite dst str⟩
    else ⟨[.td str], .fileWrite dst str⟩
  | .blobRead result src => ⟨[getFileTd src], .blobRead result src⟩
  | .fileLines result src => ⟨[getFileTd src], .fileLines result src⟩

/-- Whether the output gets its path when the builtin is called. -/
def Call.early : Call → Bool
  | .fileWrite dst _ => !dst.isMapped
  | _ => false

/-- An error that the files caused, after nothing but what the call is to do. -/
def Broken (c : Call) (p : Stage) (e : Stop) (t : State) : Prop :=
  e.Outside ∧ ∃ q : Stage, q.rules = p.rules ∧ q.errors = p.errors ∧ q.Holds c t

variable {sys : System} {c : Call} {p : Stage} {s t : State} {id : ℕ} {v : Value}

lemma ready_assign {handle : Handle} (h : s.ready handle) (hvalue : (s.data id).value = none) :
    (s.assign id v).ready handle := by
  cases handle with
  | td other =>
    by_cases heq : other = id
    · subst heq
      simpa only [State.ready, State.assign, Function.update_self] using h
    · simpa only [State.ready, State.assign, Function.update_of_ne heq] using h
  | path other =>
    have hne : other ≠ id := by
      rintro rfl
      rw [State.ready, hvalue] at h
      exact absurd h (by simp)
    simpa only [State.ready, State.assign, Function.update_of_ne hne] using h

lemma ready_close {handle : Handle} (h : s.ready handle) : (s.close id).ready handle := by
  cases handle with
  | td other =>
    by_cases heq : other = id
    · simp only [State.ready, State.close, heq, Function.update_self]
    · simpa only [State.ready, State.close, Function.update_of_ne heq] using h
  | path other =>
    by_cases heq : other = id
    · subst heq
      simpa only [State.ready, State.close, Function.update_self] using h
    · simpa only [State.ready, State.close, Function.update_of_ne heq] using h

lemma Call.mapped_eq_false (h : c.unmapped = true) : c.mapped = false := by
  unfold Call.unmapped at h
  unfold Call.mapped
  cases hout : c.outfile? with
  | none => rfl
  | some outfile =>
    rw [hout] at h
    simpa using h

lemma Call.unmapped_of_isSome (hmapped : c.mapped = false) (h : c.outfile?.isSome) :
    c.unmapped = true := by
  unfold Call.mapped at hmapped
  unfold Call.unmapped
  obtain ⟨outfile, hout⟩ := Option.isSome_iff_exists.mp h
  rw [hout] at hmapped ⊢
  simpa using hmapped

namespace Stage.Holds

lemma broken (h : p.Holds c s) {e : Stop} (he : e.Outside) : Broken c p e s :=
  ⟨he, p, rfl, rfl, h⟩

lemma input_closed (h : p.Holds c s) (hin : .td c.input ∈ p.available) :
    (s.data c.input).closed = true := h.available _ hin

/-- The input is not the output, which nobody has closed. -/
lemma input_ne_output (h : p.Holds c s) (hin : .td c.input ∈ p.available)
    (hclosed : p.closed = false) : c.input ≠ c.output := by
  intro heq
  have hopen := h.isClosed
  rw [← heq, h.input_closed hin, hclosed] at hopen
  exact Bool.noConfusion hopen

lemma available_path (h : p.Holds c s) (hp : .path c.output ∈ p.available ∨ p.assigned) :
    ∃ path, (s.data c.output).value = some (.file path) := by
  have hready : s.ready (.path c.output) := hp.elim (h.available _) h.path
  rw [State.ready] at hready
  rcases hvalue : (s.data c.output).value with _ | _ | path | _ | _
  all_goals rw [hvalue] at hready
  case some.file => exact ⟨path, rfl⟩
  all_goals exact absurd hready (by simp [Value.path?])

lemma noteRead (h : p.Holds c s) {handle : Handle} (hready : s.ready handle) :
    Cmd.Meets (noteRead handle) s (fun _ t => p.Holds c t) (Broken c p) where
  __ := h
  reads := by
    intro r hr
    rcases List.mem_append.mp hr with hr | hr
    · exact h.reads r hr
    · rw [List.mem_singleton.mp hr]
      exact hready

lemma drop (h : p.Holds c s) (hdropped : p.dropped = false) :
    { p with dropped := true }.Holds c { s with drops := s.drops + Pi.single c.input 1 } where
  __ := h
  drops := by
    dsimp only
    rw [h.drops, hdropped, if_neg (by simp), if_pos rfl, zero_add]

/-! ### What the commands do to a stage -/

lemma lookupOutput (h : p.Holds c s) (hp : .path c.output ∈ p.available ∨ p.assigned) :
    Cmd.Meets (adlbLookup c.output 0) s (fun _ t => p.Holds c t) (Broken c p) := by
  obtain ⟨path, hpath⟩ := h.available_path hp
  have hready : s.ready (.path c.output) := by rw [State.ready, hpath]; rfl
  refine (h.noteRead hready).bind fun _ t ht => ?_
  obtain ⟨path, hpath⟩ := ht.available_path hp
  refine Cmd.meets_of_ok (a := path) (t := t) ?_ ht
  simp [hpath, Value.path?, readRefcountDecr, Cmd.modify_bind_apply]

lemma lookupInput (h : p.Holds c s) (hin : .td c.input ∈ p.available)
    (htype : c.inputText? = Value.path?) (hdropped : p.dropped = false) :
    Cmd.Meets (adlbLookup c.input 1) s (fun _ t => { p with dropped := true }.Holds c t)
      (Broken c p) := by
  obtain ⟨v, hv, hpath⟩ := h.sound.closed (h.input_closed hin)
  rw [htype] at hpath
  have hready : s.ready (.path c.input) := by rw [State.ready, hv]; exact hpath
  refine (h.noteRead hready).bind fun _ t ht => ?_
  obtain ⟨v, hv, hpath⟩ := ht.sound.closed (ht.input_closed hin)
  rw [htype] at hpath
  obtain ⟨path, hpath⟩ := Option.isSome_iff_exists.mp hpath
  refine Cmd.meets_of_ok (a := path) ?_ (ht.drop hdropped)
  simp [hv, hpath, readRefcountDecr, Cmd.modify_bind_apply]

lemma cacheStore (h : p.Holds c s) (id : ℕ)
    (hv : id = c.input → (c.inputText? v).isSome) :
    Cmd.Meets (cacheStore id v) s (fun _ t => p.Holds c t) (Broken c p) where
  __ := h
  sound := by
    refine ⟨h.sound.closed, fun w (hw : Function.update s.cache id (some v) c.input = some w) => ?_⟩
    by_cases hid : c.input = id
    · rw [Function.update_apply, if_pos hid] at hw
      obtain rfl := Option.some.inj hw
      exact hv hid.symm
    · rw [Function.update_of_ne hid] at hw
      exact h.sound.cached w hw

lemma retrieve (h : p.Holds c s) (hin : .td c.input ∈ p.available) (hdropped : p.dropped = false) :
    Cmd.Meets (retrieve c.inputText? c.input 1) s
      (fun _ t => { p with dropped := true }.Holds c t) (Broken c p) := by
  refine (h.noteRead (h.available _ hin)).bind fun _ t ht => ?_
  cases hcache : t.cache c.input with
  | some v =>
    obtain ⟨text, htext⟩ := Option.isSome_iff_exists.mp (ht.sound.cached v hcache)
    refine Cmd.meets_of_ok (a := text) ?_ (ht.drop hdropped)
    simp [hcache, htext, readRefcountDecr, Cmd.modify_bind_apply, asType]
  | none =>
    obtain ⟨v, hv, htype⟩ := ht.sound.closed (ht.input_closed hin)
    obtain ⟨text, htext⟩ := Option.isSome_iff_exists.mp htype
    have hstored := (ht.drop hdropped).cacheStore c.input fun _ => htype
    refine Cmd.meets_of_ok (a := text) ?_ hstored
    simp [hcache, hv, htext, adlbRetrieveDecr, readRefcountDecr, Cmd.bind_apply, asType]
    rfl

lemma assign (h : p.Holds c s) (hwritten : p.written = false) (hclosed : p.closed = false)
    (hassigned : p.assigned = false) (hmapped : c.mapped = false) (hfile : v.IsFile → c.unmapped) :
    { p with written := true, assigned := decide v.IsFile }.Holds c (s.assign c.output v) where
  rules := h.rules
  errors := h.errors
  reads := h.reads
  assigned := by
    have hnone := h.assigned
    rw [hassigned, if_neg (by simp)] at hnone
    simp only [State.assign, hnone, List.nil_append, decide_eq_true_eq]
  unmapped := fun hv => hfile (of_decide_eq_true hv)
  drops := h.drops
  closes := h.closes
  isClosed := by
    simp only [State.assign, Function.update_self]
    exact h.isClosed
  path := by
    intro hv
    simp only [State.ready, State.assign, Function.update_self]
    exact of_decide_eq_true hv
  blank := fun h => Bool.noConfusion h
  sound := by
    refine ⟨fun hinput => ?_, h.sound.cached⟩
    have hne : c.input ≠ c.output := by
      intro heq
      have hopen := h.isClosed
      rw [hclosed] at hopen
      simp only [State.assign, heq, Function.update_self, hopen] at hinput
      exact Bool.noConfusion hinput
    simp only [State.assign, Function.update_of_ne hne] at hinput ⊢
    exact h.sound.closed hinput
  available := fun handle hmem =>
    ready_assign (h.available handle hmem) (h.blank hwritten hmapped)

lemma close (h : p.Holds c s) (hin : .td c.input ∈ p.available) (hclosed : p.closed = false)
    (hvalue : (s.data c.output).value = some v) (hfile : c.outfile?.isSome → v.IsFile) :
    { p with closed := true }.Holds c (s.close c.output) where
  rules := h.rules
  errors := h.errors
  reads := h.reads
  assigned := h.assigned
  unmapped := h.unmapped
  drops := h.drops
  closes := by
    have hnone := h.closes
    rw [hclosed, if_neg (by simp)] at hnone
    rw [if_pos rfl]
    exact ⟨v, by simp only [State.close, hnone, hvalue, List.nil_append], hfile⟩
  isClosed := by simp only [State.close, Function.update_self]
  path := fun hassigned => ready_close (h.path hassigned)
  blank := by
    simp only [State.close, Function.update_self]
    exact h.blank
  sound := by
    simp only [State.close, Function.update_of_ne (h.input_ne_output hin hclosed)]
    exact h.sound
  available := fun handle hmem => ready_close (h.available handle hmem)

lemma insertPath (h : p.Holds c s) (path : Text) (hwritten : p.written = false)
    (hclosed : p.closed = false) (hassigned : p.assigned = false) (hunmapped : c.unmapped) :
    Cmd.Meets (adlbInsert c.output path 0) s
      (fun _ t => { p with written := true, assigned := true }.Holds c t) (Broken c p) := by
  have hmapped := Call.mapped_eq_false hunmapped
  have hopen := h.isClosed.trans hclosed
  have hnone := h.blank hwritten hmapped
  refine Cmd.meets_of_ok (a := ()) ?_
    (h.assign (v := .file path) hwritten hclosed hassigned hmapped fun _ => hunmapped)
  rw [adlbInsert, adlbWrite, if_neg (by simp [hopen, hnone]), if_pos rfl]

/-- The output is stored and closed at once. -/
lemma store (h : p.Holds c s) (hin : .td c.input ∈ p.available) (hwritten : p.written = false)
    (hclosed : p.closed = false) (hassigned : p.assigned = false) (hmapped : c.mapped = false)
    (hfile : v.IsFile ↔ c.unmapped) :
    Cmd.Meets (adlbWrite c.output v 1) s
      (fun _ t => { p with written := true, assigned := c.unmapped, closed := true }.Holds c t)
      (Broken c p) := by
  have hopen := h.isClosed.trans hclosed
  have hnone := h.blank hwritten hmapped
  have hassign := h.assign (v := v) hwritten hclosed hassigned hmapped hfile.mp
  have hdecide : decide v.IsFile = c.unmapped :=
    (decide_eq_decide.mpr hfile).trans (Bool.decide_coe c.unmapped)
  rw [hdecide] at hassign
  have hvalue : ((s.assign c.output v).data c.output).value = some v := by
    simp only [State.assign, Function.update_self]
  have hclose := hassign.close hin hclosed hvalue fun hsome =>
    hfile.mpr (Call.unmapped_of_isSome hmapped hsome)
  refine Cmd.meets_of_ok (a := ()) ?_ hclose
  rw [adlbWrite, if_neg (by simp [hopen, hnone]), if_neg one_ne_zero, writeRefcountDecr,
    if_neg (by simp [State.assign, hopen])]

lemma storePath (h : p.Holds c s) {path : Text} (hin : .td c.input ∈ p.available)
    (hwritten : p.written = false) (hclosed : p.closed = false) (hassigned : p.assigned = false)
    (hunmapped : c.unmapped) :
    Cmd.Meets (adlbWrite c.output (.file path) 1) s
      (fun _ t => { p with written := true, assigned := c.unmapped, closed := true }.Holds c t)
      (Broken c p) :=
  h.store hin hwritten hclosed hassigned (Call.mapped_eq_false hunmapped)
    (iff_of_true rfl hunmapped)

lemma storeValue (h : p.Holds c s) (hin : .td c.input ∈ p.available)
    (hwritten : p.written = false) (hclosed : p.closed = false) (hassigned : p.assigned = false)
    (hout : c.outfile? = none) (hvalue : v.path? = none) :
    Cmd.Meets (adlbWrite c.output v 1) s
      (fun _ t => { p with written := true, assigned := c.unmapped, closed := true }.Holds c t)
      (Broken c p) := by
  have hfile : ¬v.IsFile := by simp [Value.IsFile, hvalue]
  have hunmapped : ¬c.unmapped = true := by simp [Call.unmapped, hout]
  have hmapped : c.mapped = false := by simp [Call.mapped, hout]
  exact h.store hin hwritten hclosed hassigned hmapped (iff_of_false hfile hunmapped)

/-- A file is closed once it has its path. -/
lemma closeOutput (h : p.Holds c s) (hin : .td c.input ∈ p.available) (hclosed : p.closed = false)
    (hp : .path c.output ∈ p.available ∨ p.assigned) :
    Cmd.Meets (writeRefcountDecr c.output) s (fun _ t => { p with closed := true }.Holds c t)
      (Broken c p) := by
  have hopen := h.isClosed.trans hclosed
  obtain ⟨path, hpath⟩ := h.available_path hp
  refine Cmd.meets_of_ok (a := ()) ?_ (h.close hin hclosed hpath fun _ => rfl)
  rw [writeRefcountDecr, if_neg (by simp [hopen])]

lemma disk (h : p.Holds c s) (files : Text → Option Bytes) :
    p.Holds c { s with disk := files } where
  __ := h

lemma mktemp (h : p.Holds c s) :
    Cmd.Meets (mktemp sys) s (fun _ t => p.Holds c t) (Broken c p) := by
  cases htemp : sys.tempfile s.disk with
  | none =>
    refine Cmd.meets_of_error (e := .noTempfile) ?_ (h.broken trivial)
    rw [Files.mktemp, htemp]
  | some result =>
    have hok : Files.mktemp sys s =
        (.ok result, { s with disk := Function.update s.disk result (some []) }) := by
      rw [Files.mktemp, htemp]
    exact Cmd.meets_of_ok hok (h.disk _)

lemma ensureDirectory (h : p.Holds c s) (f : Text) :
    Cmd.Meets (ensureDirectoryExists2 sys f) s (fun _ t => p.Holds c t) (Broken c p) := by
  unfold ensureDirectoryExists2
  split_ifs
  · exact Cmd.meets_pure h
  · exact Cmd.meets_throw (h.broken trivial)

lemma readBytes (h : p.Holds c s) (path : Text) :
    Cmd.Meets (readBytes path) s (fun _ t => p.Holds c t) (Broken c p) := by
  cases hdisk : s.disk path with
  | none =>
    refine Cmd.meets_of_error (e := .fileSystem path) ?_ (h.broken trivial)
    rw [Files.readBytes, hdisk]
  | some contents =>
    refine Cmd.meets_of_ok (a := contents) ?_ h
    rw [Files.readBytes, hdisk]

lemma writeBytes (h : p.Holds c s) (path : Text) (contents : Bytes) :
    Cmd.Meets (writeBytes sys path contents) s (fun _ t => p.Holds c t) (Broken c p) := by
  by_cases hwrites : sys.writes path
  · have hok : Files.writeBytes sys path contents s =
        (.ok (), { s with disk := Function.update s.disk path (some contents) }) := by
      rw [Files.writeBytes, if_pos hwrites]
    exact Cmd.meets_of_ok hok (h.disk _)
  · refine Cmd.meets_of_error (e := .fileSystem path) ?_ (h.broken trivial)
    rw [Files.writeBytes, if_neg hwrites]

lemma fileExists (h : p.Holds c s) (path : Text) :
    Cmd.Meets (fileExists path) s (fun _ t => p.Holds c t) (Broken c p) := h

lemma blobutilsRead (h : p.Holds c s) (path : Text) :
    Cmd.Meets (blobutilsRead sys path) s (fun _ t => p.Holds c t) (Broken c p) := h

lemma retrieveFile (h : p.Holds c s) {src : FileHandle} (hsrc : src.file = c.input)
    (htype : c.inputText? = Value.path?) (hin : .td c.input ∈ p.available)
    (hdropped : p.dropped = false) :
    Cmd.Meets (retrieveDecrFile src) s (fun _ t => { p with dropped := true }.Holds c t)
      (Broken c p) := by
  have hretrieve := h.retrieve hin hdropped
  rw [htype, ← hsrc] at hretrieve
  exact hretrieve.bind fun _ t ht => Cmd.meets_pure ht

lemma physicalCopy (h : p.Holds c s) (dstpath srcpath : Text) :
    Cmd.Meets (physicalFileCopy sys dstpath srcpath) s (fun _ t => p.Holds c t) (Broken c p) := by
  unfold physicalFileCopy
  refine (h.ensureDirectory dstpath).bind fun _ t ht => ?_
  refine (ht.readBytes srcpath).bind fun contents u hu => ?_
  exact hu.writeBytes dstpath contents

end Stage.Holds

/-! ### The bodies -/

/-- The call has done all that it is to do. -/
def Finished (c : Call) (p : Stage) (t : State) : Prop :=
  ∃ q : Stage, q.rules = p.rules ∧ q.errors = p.errors ∧ q.assigned = c.unmapped ∧
    q.dropped = true ∧ q.closed = true ∧ q.Holds c t

/-- Where a call is when its rule fires. -/
def Stage.firing (c : Call) (rules : List Rule) (errors : List Stop) : Stage :=
  ⟨rules, errors, c.rule.waitfor, c.early, c.early, false, false⟩

lemma Stage.Holds.finished {q : Stage} (h : q.Holds c t) (hrules : q.rules = p.rules)
    (herrors : q.errors = p.errors) (hassigned : q.assigned = c.unmapped)
    (hdropped : q.dropped = true) (hclosed : q.closed = true) : Finished c p t :=
  ⟨q, hrules, herrors, hassigned, hdropped, hclosed, h⟩

/-- Fired when what its rule waits for is there, the body finishes the call, or the files cause an
error. -/
def Serves (c : Call) (body : Script Unit) : Prop :=
  ∀ rules errors s, (Stage.firing c rules errors).Holds c s →
    Cmd.Meets body s (fun _ t => Finished c (.firing c rules errors) t)
      (Broken c (.firing c rules errors))

section Bodies

variable {outfile dst src : FileHandle} {filepath str result : ℕ}

lemma inputFileCopyBody_serves (hm : outfile.isMapped = true) :
    Serves (.inputFile outfile filepath) (inputFileCopyBody sys outfile filepath) := by
  intro rules errors s h
  have hpath : .path outfile.file ∈ (Call.inputFile outfile filepath).rule.waitfor := by
    simp [Call.rule, hm, getFilePath]
  have hin : .td filepath ∈ (Call.inputFile outfile filepath).rule.waitfor := by
    simp [Call.rule, hm]
  have hassigned : false = (Call.inputFile outfile filepath).unmapped := by
    simp [Call.unmapped, Call.outfile?, hm]
  unfold inputFileCopyBody
  refine (h.lookupOutput (.inl hpath)).bind fun dst t ht => ?_
  refine (ht.retrieve hin rfl).bind fun src u hu => ?_
  refine (hu.physicalCopy dst src).bind fun _ w hw => ?_
  exact (hw.closeOutput hin rfl (.inl hpath)).mono fun _ _ hclosed =>
    hclosed.finished rfl rfl hassigned rfl rfl

lemma inputFileBody_serves (hm : outfile.isMapped = false) :
    Serves (.inputFile outfile filepath) (inputFileBody outfile filepath) := by
  intro rules errors s h
  have hin : .td filepath ∈ (Call.inputFile outfile filepath).rule.waitfor := by
    simp [Call.rule, hm]
  have hunmapped : (Call.inputFile outfile filepath).unmapped = true := by
    simp [Call.unmapped, Call.outfile?, hm]
  unfold inputFileBody
  refine (h.retrieve hin rfl).bind fun path t ht => ?_
  unfold inputFileImpl
  refine (ht.fileExists path).bind fun found u hu => ?_
  split_ifs
  · exact (hu.storePath hin rfl rfl rfl hunmapped).mono fun _ _ hstored =>
      hstored.finished rfl rfl rfl rfl rfl
  · exact Cmd.meets_throw (hu.broken trivial)

lemma inputUrlBody_serves (hm : outfile.isMapped = false) :
    Serves (.inputUrl outfile filepath) (inputUrlBody outfile filepath) := by
  intro rules errors s h
  have hin : .td filepath ∈ (Call.inputUrl outfile filepath).rule.waitfor := by
    simp [Call.rule, hm]
  have hunmapped : (Call.inputUrl outfile filepath).unmapped = true := by
    simp [Call.unmapped, Call.outfile?, hm]
  unfold inputUrlBody
  refine (h.retrieve hin rfl).bind fun path t ht => ?_
  rw [inputUrlImpl, if_neg (by simp [hm])]
  exact (ht.storePath hin rfl rfl rfl hunmapped).mono fun _ _ hstored =>
    hstored.finished rfl rfl rfl rfl rfl

lemma copyFileBody_serves (hm : dst.isMapped = true) :
    Serves (.copyFile dst src) (copyFileBody sys dst src) := by
  intro rules errors s h
  have hpath : .path dst.file ∈ (Call.copyFile dst src).rule.waitfor := by
    simp [Call.rule, hm, getFilePath]
  have hin : .td src.file ∈ (Call.copyFile dst src).rule.waitfor := by
    simp [Call.rule, hm, getFileTd]
  have hassigned : false = (Call.copyFile dst src).unmapped := by
    simp [Call.unmapped, Call.outfile?, hm]
  unfold copyFileBody
  refine (h.lookupOutput (.inl hpath)).bind fun dstpath t ht => ?_
  refine (ht.retrieveFile rfl rfl hin rfl).bind fun srcVal u hu => ?_
  refine (hu.physicalCopy dstpath srcVal.path).bind fun _ w hw => ?_
  exact (hw.closeOutput hin rfl (.inl hpath)).mono fun _ _ hclosed =>
    hclosed.finished rfl rfl hassigned rfl rfl

lemma copyFileTdBody_serves (hm : dst.isMapped = false) :
    Serves (.copyFile dst src) (copyFileTdBody dst src) := by
  intro rules errors s h
  have hin : .td src.file ∈ (Call.copyFile dst src).rule.waitfor := by
    simp [Call.rule, hm, getFileTd]
  have hunmapped : (Call.copyFile dst src).unmapped = true := by
    simp [Call.unmapped, Call.outfile?, hm]
  unfold copyFileTdBody
  refine (h.retrieveFile rfl rfl hin rfl).bind fun tmp t ht => ?_
  have hstore : Cmd.Meets (storeFile dst tmp true) t
      (fun _ u => Finished (.copyFile dst src) (.firing (.copyFile dst src) rules errors) u)
      (Broken (.copyFile dst src) (.firing (.copyFile dst src) rules errors)) := by
    rw [storeFile, if_pos rfl]
    refine (ht.storePath hin rfl rfl rfl hunmapped).bind fun _ u hu => ?_
    refine (hu.cacheStore dst.file fun _ => rfl).bind fun _ w hw => ?_
    exact Cmd.meets_pure (hw.finished rfl rfl rfl rfl rfl)
  exact hstore.bind fun _ u hu => Cmd.meets_pure hu

lemma fileReadBody_serves : Serves (.fileRead result src) (fileReadBody sys result src) := by
  intro rules errors s h
  have hin : .td src.file ∈ (Call.fileRead result src).rule.waitfor := List.mem_singleton_self _
  unfold fileReadBody
  refine (h.lookupInput hin rfl rfl).bind fun path t ht => ?_
  refine (ht.noteRead (ht.available _ hin)).bind fun _ u hu => ?_
  refine (hu.readBytes path).bind fun fileData w hw => ?_
  exact (hw.storeValue hin rfl rfl rfl rfl rfl).mono fun _ _ hstored =>
    hstored.finished rfl rfl rfl rfl rfl

lemma fileWriteBody_serves : Serves (.fileWrite dst str) (fileWriteBody sys dst str) := by
  intro rules errors s h
  have hin : .td str ∈ (Call.fileWrite dst str).rule.waitfor := by
    cases hm : dst.isMapped <;> simp [Call.rule, hm]
  -- an unmapped file has had its path since the call
  have hpath : .path dst.file ∈ (Call.fileWrite dst str).rule.waitfor ∨
      (Call.fileWrite dst str).early = true := by
    cases hm : dst.isMapped <;> simp [Call.rule, Call.early, hm, getFilePath]
  have hassigned : (Call.fileWrite dst str).early = (Call.fileWrite dst str).unmapped := by
    simp [Call.early, Call.unmapped, Call.outfile?]
  unfold fileWriteBody
  refine (h.retrieve hin rfl).bind fun strVal t ht => ?_
  refine (ht.lookupOutput hpath).bind fun d u hu => ?_
  refine (hu.ensureDirectory d).bind fun _ w hw => ?_
  refine (hw.writeBytes d (sys.encode strVal)).bind fun _ x hx => ?_
  exact (hx.closeOutput hin rfl hpath).mono fun _ _ hclosed =>
    hclosed.finished rfl rfl hassigned rfl rfl

lemma blobReadBody_serves : Serves (.blobRead result src) (blobReadBody sys result src) := by
  intro rules errors s h
  have hin : .td src.file ∈ (Call.blobRead result src).rule.waitfor := List.mem_singleton_self _
  unfold blobReadBody
  refine (h.retrieveFile rfl rfl hin rfl).bind fun val t ht => ?_
  refine (ht.blobutilsRead val.path).bind fun blob u hu => ?_
  exact (hu.storeValue hin rfl rfl rfl rfl rfl).mono fun _ _ hstored =>
    hstored.finished rfl rfl rfl rfl rfl

lemma fileLinesBody_serves : Serves (.fileLines result src) (fileLinesBody sys result src) := by
  intro rules errors s h
  have hin : .td src.file ∈ (Call.fileLines result src).rule.waitfor := List.mem_singleton_self _
  unfold fileLinesBody
  refine (h.retrieveFile rfl rfl hin rfl).bind fun val t ht => ?_
  have himpl : Cmd.Meets (fileLinesImpl sys val) t
      (fun _ u => Stage.Holds (.fileLines result src)
        { Stage.firing (.fileLines result src) rules errors with dropped := true } u)
      (Broken (.fileLines result src) (.firing (.fileLines result src) rules errors)) :=
    (ht.readBytes val.path).bind fun _ u hu => Cmd.meets_pure hu
  refine himpl.bind fun lines u hu => ?_
  exact (hu.storeValue hin rfl rfl rfl rfl rfl).mono fun _ _ hstored =>
    hstored.finished rfl rfl rfl rfl rfl

/-- The body of the rule that a call makes. -/
lemma body_serves (sys : System) (hc : c.Supported) : Serves c (c.rule.body.exec sys) := by
  cases c with
  | inputFile outfile filepath =>
    cases hm : outfile.isMapped with
    | true => simpa only [Call.rule, hm] using! inputFileCopyBody_serves hm
    | false => simpa only [Call.rule, hm] using! inputFileBody_serves hm
  | inputUrl outfile filepath =>
    have hm : outfile.isMapped = false := hc
    simpa only [Call.rule, hm] using! inputUrlBody_serves hm
  | copyFile dst src =>
    cases hm : dst.isMapped with
    | true => simpa only [Call.rule, hm] using! copyFileBody_serves hm
    | false => simpa only [Call.rule, hm] using! copyFileTdBody_serves hm
  | fileRead result src => exact fileReadBody_serves
  | fileWrite dst str =>
    have hbody : (Call.fileWrite dst str).rule.body = .fileWrite dst str := by
      cases hm : dst.isMapped <;> simp [Call.rule, hm]
    rw [hbody]
    exact fileWriteBody_serves
  | blobRead result src => exact blobReadBody_serves
  | fileLines result src => exact fileLinesBody_serves

end Bodies

end Turbine.Files
