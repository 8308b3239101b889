import Turbine.Library.Shell

/-! The command line of an external command: how `sync_exec` writes its words, and when a shell
reads them back as they were. -/

namespace Turbine.App

open Turbine.Library.Shell

abbrev Word := List Char

/-- `kwopts`: the files that are given instead of the standard streams. -/
structure Kwopts where
  stdin : Option Word
  stdout : Option Word
  stderr : Option Word

structure Redirects where
  stdinSrc : Word
  stdoutDst : Word
  stderrDst : Word

def setupRedirectsC (kwopts : Kwopts) : Redirects where
  stdinSrc := kwopts.stdin.getD "/dev/stdin".toList
  stdoutDst := kwopts.stdout.getD "/dev/stdout".toList
  stderrDst := kwopts.stderr.getD "/dev/stderr".toList

/-- The words that `exec_external` passes to `sync_exec`. -/
def execWords (cmd : Word) (args : List Word) (r : Redirects) : List Word :=
  cmd :: args ++ [['<'], r.stdinSrc, ['>'], r.stdoutDst, ['2', '>'], r.stderrDst]

-- the words that `Sync_Exec_Cmd` takes for redirections
def isRedirection : Word → Bool
  | '>' :: _ => true
  | '<' :: _ => true
  | s => s = ['2', '>']

def wordText (s : Word) : List Char :=
  if isRedirection s then s ++ [' '] else '"' :: (s ++ ['"', ' '])

-- in a string of Tcl the null character takes two bytes
def byteSize (c : Char) : ℕ := if c = Char.ofNat 0 then 2 else c.utf8Size

def byteLength (text : List Char) : ℕ := (text.map byteSize).sum

def cmdSize : ℕ := 16 * 1024

/-- The buffer for the command, and what was written to it. -/
inductive Buffer
  | text (cmd : List Char)
  | overrun
  deriving DecidableEq

/-- `append`, which writes to wherever the text has come to, with a final null. -/
def append : Buffer → List Char → Buffer
  | .text cmd, s => if byteLength (cmd ++ s) + 1 ≤ cmdSize then .text (cmd ++ s) else .overrun
  | .overrun, _ => .overrun

def buildCommand (words : List Word) : Buffer :=
  words.foldl (fun p s => append p (wordText s)) (.text [])

/-- The command as it was asked for. -/
def asked (cmd : Word) (args : List Word) (r : Redirects) : Command where
  argv := cmd :: args
  redirects := [⟨0, .input, r.stdinSrc⟩, ⟨1, .output, r.stdoutDst⟩, ⟨2, .output, r.stderrDst⟩]

/-- The text fits, and a shell runs what was asked for. -/
def ReadsBack (cmd : Word) (args : List Word) (kwopts : Kwopts) : Prop :=
  ∃ text, buildCommand (execWords cmd args (setupRedirectsC kwopts)) = .text text ∧
    parse text = some (asked cmd args (setupRedirectsC kwopts))

/-- No word is taken for a redirection or changed between double quotes. -/
def Literal (w : Word) : Prop := isRedirection w = false ∧ quotable w = true

def commandText (words : List Word) : List Char := words.flatMap wordText

structure Accepted (cmd : Word) (args : List Word) (r : Redirects) : Prop where
  literal : ∀ w ∈ cmd :: args ++ [r.stdinSrc, r.stdoutDst, r.stderrDst], Literal w
  fits : byteLength (commandText (execWords cmd args r)) < cmdSize

variable {cmd : Word} {args : List Word} {r : Redirects} {words : List Word} {w : Word}
  {tokens : List Token} {others : List Char}

/-! ### The buffer -/

lemma byteLength_append (text text' : List Char) :
    byteLength (text ++ text') = byteLength text + byteLength text' := by
  simp [byteLength]

lemma foldl_overrun (words : List Word) :
    words.foldl (fun p s => append p (wordText s)) .overrun = .overrun := by
  induction words with
  | nil => rfl
  | cons w words ih => exact ih

lemma foldl_text (words : List Word) (text : List Char) (h : byteLength text < cmdSize) :
    words.foldl (fun p s => append p (wordText s)) (.text text) =
      if byteLength (text ++ commandText words) < cmdSize then .text (text ++ commandText words)
      else .overrun := by
  induction words generalizing text with
  | nil => simp [commandText, h]
  | cons w words ih =>
    have hcons : text ++ commandText (w :: words) = text ++ wordText w ++ commandText words := by
      simp [commandText]
    rw [List.foldl_cons, append, hcons]
    split
    · rename_i hfits
      exact ih _ hfits
    · rename_i hlong
      rw [foldl_overrun, if_neg]
      rw [byteLength_append]
      omega

lemma buildCommand_eq (words : List Word) (text : List Char) :
    buildCommand words = .text text ↔
      byteLength (commandText words) < cmdSize ∧ commandText words = text := by
  rw [buildCommand, foldl_text words [] (by decide), List.nil_append]
  split <;> simp [*]

/-! ### Reading the words back -/

lemma lex_literal (h : Literal w) (others : List Char) :
    lex start (wordText w ++ others) = (lex start others).map (Token.word w true :: ·) := by
  rw [wordText, h.1, if_neg Bool.false_ne_true]
  simpa using lex_quoted_word h.2 others

lemma lex_literals (h : ∀ w ∈ words, Literal w) (others : List Char) :
    lex start (commandText words ++ others) =
      (lex start others).map ((words.map fun w => Token.word w true) ++ ·) := by
  induction words with
  | nil => simp [commandText]
  | cons w words ih =>
    have hcons : commandText (w :: words) ++ others = wordText w ++ (commandText words ++ others) := by
      simp [commandText]
    rw [hcons, lex_literal (h w List.mem_cons_self),
      ih fun w hw => h w (List.mem_cons_of_mem _ hw), Option.map_map]
    rfl

lemma lex_input (others : List Char) :
    lex start ('<' :: ' ' :: others) = (lex start others).map (Token.op none .input :: ·) := by
  unfold start
  cases h : lex ⟨.bare, none⟩ others <;>
    simp [lex, step, bareStep, start, opOf, State.redirect, State.flush, h]

lemma lex_output (others : List Char) :
    lex start ('>' :: ' ' :: others) = (lex start others).map (Token.op none .output :: ·) := by
  unfold start
  cases h : lex ⟨.bare, none⟩ others <;>
    simp [lex, step, bareStep, start, opOf, State.redirect, State.flush, h]

lemma lex_error (others : List Char) :
    lex start ('2' :: '>' :: ' ' :: others) =
      (lex start others).map (Token.op (some 2) .output :: ·) := by
  have hplain : plain '2' = true := by decide
  have hdigits : digitsOf ['2'] = some 2 := by decide
  unfold start
  cases h : lex ⟨.bare, none⟩ others <;>
    simp [lex, step, bareStep, start, opOf, State.redirect, State.flush, State.push, hplain,
      hdigits, h]

lemma gather_words (words : List Word) (tokens : List Token) :
    gather ((words.map fun w => Token.word w true) ++ tokens) =
      (gather tokens).map fun c => ⟨words ++ c.argv, c.redirects⟩ := by
  induction words with
  | nil => simp
  | cons w words ih =>
    rw [List.map_cons, List.cons_append, gather, ih]
    cases gather tokens <;> rfl

def redirectTokens (r : Redirects) : List Token :=
  [.op none .input, .word r.stdinSrc true, .op none .output, .word r.stdoutDst true,
    .op (some 2) .output, .word r.stderrDst true]

def redirectWords (r : Redirects) : List Word :=
  [['<'], r.stdinSrc, ['>'], r.stdoutDst, ['2', '>'], r.stderrDst]

lemma lex_redirects (h₀ : Literal r.stdinSrc) (h₁ : Literal r.stdoutDst) (h₂ : Literal r.stderrDst) :
    lex start (commandText (redirectWords r)) = some (redirectTokens r) := by
  have htext : commandText (redirectWords r) =
      '<' :: ' ' :: (wordText r.stdinSrc ++ '>' :: ' ' :: (wordText r.stdoutDst ++
        '2' :: '>' :: ' ' :: (wordText r.stderrDst ++ []))) := by
    simp [commandText, redirectWords, wordText, isRedirection]
  rw [htext, lex_input, lex_literal h₀, lex_output, lex_literal h₁, lex_error, lex_literal h₂]
  rfl

lemma parse_asked (h : ∀ w ∈ cmd :: args ++ [r.stdinSrc, r.stdoutDst, r.stderrDst], Literal w) :
    parse (commandText (execWords cmd args r)) = some (asked cmd args r) := by
  have hwords : ∀ w ∈ cmd :: args, Literal w := fun w hw => h w (List.mem_append_left _ hw)
  have htext : commandText (execWords cmd args r) =
      commandText (cmd :: args) ++ commandText (redirectWords r) := by
    simp [commandText, execWords, redirectWords]
  have hlex : lex start (commandText (execWords cmd args r)) =
      some (((cmd :: args).map fun w => Token.word w true) ++ redirectTokens r) := by
    rw [htext, lex_literals hwords, lex_redirects (h _ (by simp)) (h _ (by simp)) (h _ (by simp))]
    rfl
  have hgather := gather_words (cmd :: args) (redirectTokens r)
  rw [List.map_cons, List.cons_append] at hlex hgather
  simp only [parse, hlex, Option.bind_eq_bind, Option.bind_some, hgather]
  simp [gather, redirectTokens, asked, defaultFd]

/-! ### Words that are not read back -/

lemma count_wordText (w : Word) {x : Char} (hq : x ≠ '"') (hs : x ≠ ' ') :
    (wordText w).count x = w.count x := by
  unfold wordText
  split <;> simp [hq.symm, hs.symm]

lemma count_commandText (words : List Word) {x : Char} (hq : x ≠ '"') (hs : x ≠ ' ') :
    (commandText words).count x = words.flatten.count x := by
  induction words with
  | nil => rfl
  | cons w words ih =>
    have hcons : commandText (w :: words) = wordText w ++ commandText words := by
      simp [commandText]
    rw [hcons, List.count_append, ih, count_wordText w hq hs, List.flatten_cons, List.count_append]

lemma isRedirection_pos (h : isRedirection w = true) : 0 < w.countP isOpChar := by
  unfold isRedirection at h
  split at h
  · simp [isOpChar, opOf]
  · simp [isOpChar, opOf]
  · obtain rfl : w = ['2', '>'] := by simpa using h
    decide

/-- Words that are read without loss are literal or redirections. -/
lemma literal_of_tight (hq : ∀ w ∈ words, ∀ x ∈ w, x ≠ '"')
    (h : Tight start (commandText words) tokens) :
    (∀ w ∈ words, isRedirection w = false → quotable w = true) ∧
      words.countP isRedirection ≤ ops tokens := by
  induction words generalizing tokens with
  | nil => simp
  | cons w words ih =>
    have hcons : commandText (w :: words) = wordText w ++ commandText words := by
      simp [commandText]
    have hw := hq w List.mem_cons_self
    have hq' : ∀ w ∈ words, ∀ x ∈ w, x ≠ '"' := fun w hw => hq w (List.mem_cons_of_mem _ hw)
    rw [hcons, wordText] at h
    cases hr : isRedirection w with
    | true =>
      rw [hr, if_pos rfl, List.append_assoc, List.singleton_append] at h
      obtain ⟨out, rest, rfl, hrest, hops⟩ := h.bare hw (by decide) (by decide)
      obtain ⟨hquotable, hle⟩ := ih hq' hrest
      have hpos : 0 < ops out := hops ▸ isRedirection_pos hr
      refine ⟨?_, ?_⟩
      · intro w' hw' hr'
        rcases List.mem_cons.mp hw' with rfl | hw'
        · simp [hr] at hr'
        · exact hquotable w' hw' hr'
      · rw [List.countP_cons, hr, if_pos rfl, ops_append]
        omega
    | false =>
      rw [hr, if_neg Bool.false_ne_true] at h
      have h' : Tight start ('"' :: (w ++ '"' :: ' ' :: commandText words)) tokens := by
        simpa using h
      obtain ⟨hquotable, out, rest, rfl, hrest⟩ := h'.quoted_word hw
      obtain ⟨hquotables, hle⟩ := ih hq' hrest
      refine ⟨?_, ?_⟩
      · intro w' hw' hr'
        rcases List.mem_cons.mp hw' with rfl | hw'
        · exact hquotable
        · exact hquotables w' hw' hr'
      · rw [List.countP_cons, hr, if_neg Bool.false_ne_true, ops_append]
        omega

lemma flatten_execWords (cmd : Word) (args : List Word) (r : Redirects) {x : Char}
    (h : x ≠ '<' ∧ x ≠ '>' ∧ x ≠ '2') :
    (execWords cmd args r).flatten.count x = (cmd :: args).flatten.count x +
      [r.stdinSrc, r.stdoutDst, r.stderrDst].flatten.count x := by
  simp [execWords, h.1.symm, h.2.1.symm, h.2.2.symm]
  omega

lemma literal_of_parse (h : parse (commandText (execWords cmd args r)) = some (asked cmd args r)) :
    ∀ w ∈ cmd :: args ++ [r.stdinSrc, r.stdoutDst, r.stderrDst], Literal w := by
  obtain ⟨tokens, hlex, hgather⟩ : ∃ tokens,
      lex start (commandText (execWords cmd args r)) = some tokens ∧
        gather tokens = some (asked cmd args r) := by
    cases hlex : lex start (commandText (execWords cmd args r)) with
    | none => simp [parse, hlex] at h
    | some tokens =>
      refine ⟨tokens, rfl, ?_⟩
      simp only [parse, hlex, Option.bind_eq_bind, Option.bind_some] at h
      split at h
      · exact h
      · cases h
  obtain ⟨hops, htexts⟩ := gather_spec hgather
  have hcount : ∀ x, x ≠ '"' → x ≠ ' ' → x ≠ '<' ∧ x ≠ '>' ∧ x ≠ '2' →
      (texts tokens).count x = (commandText (execWords cmd args r)).count x := by
    intro x hq hs hx
    rw [htexts, count_commandText _ hq hs, flatten_execWords _ _ _ hx]
    rfl
  have htight : Tight start (commandText (execWords cmd args r)) tokens :=
    ⟨hlex, by decide, hcount _ (by decide) (by decide) (by decide),
      hcount _ (by decide) (by decide) (by decide)⟩
  -- then no word has a double quote
  have hnone := htight.no_quote
  rw [htexts] at hnone
  have hquote : (execWords cmd args r).flatten.count '"' = 0 := by
    rw [flatten_execWords _ _ _ (by decide)]
    exact Nat.le_zero.mp hnone
  have hq : ∀ w ∈ execWords cmd args r, ∀ x ∈ w, x ≠ '"' := by
    rintro w hw _ hx rfl
    exact List.count_eq_zero.mp hquote (List.mem_flatten.mpr ⟨w, hw, hx⟩)
  obtain ⟨hquotable, hle⟩ := literal_of_tight hq htight
  have hthree : (execWords cmd args r).countP isRedirection =
      (cmd :: args ++ [r.stdinSrc, r.stdoutDst, r.stderrDst]).countP isRedirection + 3 := by
    simp [execWords, List.countP_cons, isRedirection]
    omega
  have hzero : (cmd :: args ++ [r.stdinSrc, r.stdoutDst, r.stderrDst]).countP isRedirection = 0 := by
    have hlength : (asked cmd args r).redirects.length = 3 := rfl
    omega
  intro w hw
  have hr : isRedirection w = false := by
    simpa using List.countP_eq_zero.mp hzero w hw
  refine ⟨hr, hquotable w ?_ hr⟩
  simp only [execWords, List.mem_append, List.mem_cons, List.not_mem_nil, or_false] at hw ⊢
  tauto

theorem readsBack_iff (cmd : Word) (args : List Word) (kwopts : Kwopts) :
    ReadsBack cmd args kwopts ↔ Accepted cmd args (setupRedirectsC kwopts) := by
  constructor
  · rintro ⟨text, hbuild, hparse⟩
    obtain ⟨hfits, rfl⟩ := (buildCommand_eq _ _).mp hbuild
    exact ⟨literal_of_parse hparse, hfits⟩
  · intro h
    exact ⟨_, (buildCommand_eq _ _).mpr ⟨h.fits, rfl⟩, parse_asked h.literal⟩

-- a variable is expanded
theorem not_readsBack_variable :
    ¬ ∀ (cmd : Word) (args : List Word) (kwopts : Kwopts), ReadsBack cmd args kwopts := by
  intro h
  obtain ⟨text, hbuild, hparse⟩ := h "echo".toList ["$HOME".toList] ⟨none, none, none⟩
  obtain ⟨-, rfl⟩ := (buildCommand_eq _ _).mp hbuild
  have hliteral := literal_of_parse hparse "$HOME".toList (by simp)
  exact absurd hliteral.2 (by decide)

end Turbine.App
