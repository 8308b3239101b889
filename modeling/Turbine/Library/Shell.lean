import Mathlib

/-! The words and redirections of a simple command, as a POSIX shell reads them from its text.
Text that has an expansion, an operator other than `<` and `>`, or outside quotes a character
with a meaning of its own, has no reading here. -/

namespace Turbine.Library.Shell

inductive Mode
  | bare
  | bareEscape
  | afterOp
  | double
  | doubleEscape
  | single
  deriving DecidableEq

inductive Op | input | output
  deriving DecidableEq

-- of a word it matters whether any of it was quoted
inductive Token
  | word (text : List Char) (quoted : Bool)
  | op (fd : Option ℕ) (op : Op)
  deriving DecidableEq

/-- The mode, and the word that is being read. -/
structure State where
  mode : Mode
  word : Option (List Char × Bool)

def start : State := ⟨.bare, none⟩

def opOf : Char → Option Op
  | '<' => some .input
  | '>' => some .output
  | _ => none

-- characters that stand for themselves outside quotes
def plain (c : Char) : Bool := c.isAlphanum || "_-./,:+@%".toList.contains c

-- after a backslash between double quotes
def escapable (c : Char) : Bool := "$`\"\\".toList.contains c

def expands (c : Char) : Bool := c = '$' || c = '`'

def State.push (s : State) (mode : Mode) (cs : List Char) (quoted : Bool) : State where
  mode := mode
  word := match s.word with
    | none => some (cs, quoted)
    | some (text, q) => some (text ++ cs, q || quoted)

def State.flush (s : State) : List Token :=
  match s.word with
  | none => []
  | some (text, quoted) => [.word text quoted]

def digitsOf (text : List Char) : Option ℕ :=
  if text.all Char.isDigit then some (text.foldl (fun n c => 10 * n + (c.toNat - 48)) 0) else none

/-- A redirection; an unquoted number right before it is its file descriptor. -/
def State.redirect (s : State) (op : Op) : List Token :=
  match s.word with
  | none => [.op none op]
  | some (text, true) => [.word text true, .op none op]
  | some (text, false) =>
    match digitsOf text with
    | some fd => [.op (some fd) op]
    | none => [.word text false, .op none op]

def bareStep (s : State) (c : Char) : Option (List Token × State) :=
  if c = ' ' ∨ c = '\t' then some (s.flush, start)
  else if c = '"' then some ([], s.push .double [] true)
  else if c = '\'' then some ([], s.push .single [] true)
  else if c = '\\' then some ([], { s with mode := .bareEscape })
  else match opOf c with
    | some op => some (s.redirect op, ⟨.afterOp, none⟩)
    | none => if plain c then some ([], s.push .bare [c] false) else none

def step (s : State) (c : Char) : Option (List Token × State) :=
  match s.mode with
  | .bare => bareStep s c
  -- `<<`, `>>`, `<>`, `>|` and `>&` are other operators
  | .afterOp => if (opOf c).isSome then none else bareStep s c
  | .bareEscape =>
    if c = '\n' then some ([], { s with mode := .bare }) else some ([], s.push .bare [c] true)
  | .double =>
    if c = '"' then some ([], { s with mode := .bare })
    else if c = '\\' then some ([], { s with mode := .doubleEscape })
    else if expands c then none
    else some ([], s.push .double [c] true)
  | .doubleEscape =>
    if c = '\n' then some ([], { s with mode := .double })
    else if escapable c then some ([], s.push .double [c] true)
    else some ([], s.push .double ['\\', c] true)
  | .single =>
    if c = '\'' then some ([], { s with mode := .bare }) else some ([], s.push .single [c] true)

def finish (s : State) : Option (List Token) :=
  match s.mode with
  | .bare | .afterOp => some s.flush
  | _ => none

def lex : State → List Char → Option (List Token)
  | s, [] => finish s
  | s, c :: cs => do
    let (out, s') ← step s c
    let rest ← lex s' cs
    pure (out ++ rest)

structure Redirect where
  fd : ℕ
  op : Op
  file : List Char
  deriving DecidableEq

structure Command where
  argv : List (List Char)
  redirects : List Redirect
  deriving DecidableEq

def defaultFd : Op → ℕ
  | .input => 0
  | .output => 1

def gather : List Token → Option Command
  | [] => some ⟨[], []⟩
  | .word text _ :: tokens => do
    let c ← gather tokens
    pure ⟨text :: c.argv, c.redirects⟩
  | .op fd op :: .word file _ :: tokens => do
    let c ← gather tokens
    pure ⟨c.argv, ⟨fd.getD (defaultFd op), op, file⟩ :: c.redirects⟩
  | .op _ _ :: _ => none

/-- The command of a text. Its name has to be quoted, lest it is a reserved word or an alias. -/
def parse (text : List Char) : Option Command := do
  let tokens ← lex start text
  match tokens with
  | .word _ true :: _ => gather tokens
  | _ => none

example : parse "\"echo\" \"a b\" > \"out\" ".toList =
    some ⟨["echo".toList, "a b".toList], [⟨1, .output, "out".toList⟩]⟩ := by decide

/-! ### What a reading keeps of the text -/

def Token.text : Token → List Char
  | .word text _ => text
  | .op .. => []

def texts (tokens : List Token) : List Char := tokens.flatMap Token.text

def State.text (s : State) : List Char :=
  match s.word with
  | none => []
  | some (text, _) => text

-- how often a character is held: a backslash between double quotes may still stand for itself
def State.held (s : State) (x : Char) : ℕ :=
  s.text.count x + if s.mode = .doubleEscape ∧ x = '\\' then 1 else 0

variable {s s' : State} {c x : Char} {out tokens : List Token} {cs : List Char}

@[simp] lemma texts_nil : texts [] = [] := rfl

@[simp] lemma texts_append (tokens tokens' : List Token) :
    texts (tokens ++ tokens') = texts tokens ++ texts tokens' := by
  simp [texts]

@[simp] lemma texts_flush (s : State) : texts s.flush = s.text := by
  rcases s with ⟨mode, _ | ⟨text, quoted⟩⟩ <;> simp [State.flush, State.text, texts, Token.text]

@[simp] lemma text_push (s : State) (mode : Mode) (cs : List Char) (quoted : Bool) :
    (s.push mode cs quoted).text = s.text ++ cs := by
  rcases s with ⟨mode', _ | ⟨text, q⟩⟩ <;> simp [State.push, State.text]

@[simp] lemma mode_push (s : State) (mode : Mode) (cs : List Char) (quoted : Bool) :
    (s.push mode cs quoted).mode = mode := rfl

@[simp] lemma text_mode (s : State) (mode : Mode) : ({ s with mode := mode } : State).text = s.text :=
  rfl

@[simp] lemma text_none (mode : Mode) : (⟨mode, none⟩ : State).text = [] := rfl

@[simp] lemma text_start : start.text = [] := rfl

lemma count_redirect_le (s : State) (op : Op) (x : Char) :
    (texts (s.redirect op)).count x ≤ s.text.count x := by
  rcases s with ⟨mode, _ | ⟨text, _ | _⟩⟩
  · simp [State.redirect, texts, Token.text]
  · cases hd : digitsOf text <;> simp [State.redirect, hd, texts, Token.text, State.text]
  · simp [State.redirect, texts, Token.text, State.text]

/-- What a step outside quotes does. -/
inductive BareStep (s : State) : Char → List Token → State → Prop
  | blank {b} : b = ' ' ∨ b = '\t' → BareStep s b s.flush start
  | double : BareStep s '"' [] (s.push .double [] true)
  | single : BareStep s '\'' [] (s.push .single [] true)
  | escape : BareStep s '\\' [] { s with mode := .bareEscape }
  | redirect {b op} : opOf b = some op → BareStep s b (s.redirect op) ⟨.afterOp, none⟩
  | plain {b} : b ≠ ' ' → b ≠ '"' → opOf b = none → BareStep s b [] (s.push .bare [b] false)

lemma bareStep_cases (h : bareStep s c = some (out, s')) : BareStep s c out s' := by
  unfold bareStep at h
  split_ifs at h with h₁ h₂ h₃ h₄
  · obtain ⟨rfl, rfl⟩ := by simpa using h
    exact .blank h₁
  · obtain ⟨rfl, rfl⟩ := by simpa using h
    exact h₂ ▸ .double
  · obtain ⟨rfl, rfl⟩ := by simpa using h
    exact h₃ ▸ .single
  · obtain ⟨rfl, rfl⟩ := by simpa using h
    exact h₄ ▸ .escape
  · cases hop : opOf c with
    | some op =>
      obtain ⟨rfl, rfl⟩ := by simpa [hop] using h
      exact .redirect hop
    | none =>
      obtain ⟨rfl, rfl⟩ := by simpa [hop] using h
      exact .plain (fun hb => h₁ (.inl hb)) h₂ hop
  · cases hop : opOf c with
    | some op =>
      obtain ⟨rfl, rfl⟩ := by simpa [hop] using h
      exact .redirect hop
    | none => simp [hop] at h

/-- What a step does, by the mode. -/
inductive Step (s : State) : Mode → Char → List Token → State → Prop
  | bare {b o r} : BareStep s b o r → Step s .bare b o r
  | afterOp {b o r} : BareStep s b o r → Step s .afterOp b o r
  | unquote : Step s .double '"' [] { s with mode := .bare }
  | escape : Step s .double '\\' [] { s with mode := .doubleEscape }
  | letter {b} : b ≠ '"' → b ≠ '\\' → expands b = false →
      Step s .double b [] (s.push .double [b] true)
  | joined : Step s .doubleEscape '\n' [] { s with mode := .double }
  | escaped {b} : escapable b = true → Step s .doubleEscape b [] (s.push .double [b] true)
  | kept {b} : b ≠ '"' → b ≠ '\\' → b ≠ '\n' → escapable b = false →
      Step s .doubleEscape b [] (s.push .double ['\\', b] true)
  | bareJoined : Step s .bareEscape '\n' [] { s with mode := .bare }
  | bareEscaped {b} : Step s .bareEscape b [] (s.push .bare [b] true)
  | unsingle : Step s .single '\'' [] { s with mode := .bare }
  | literal {b} : Step s .single b [] (s.push .single [b] true)

lemma step_cases (h : step s c = some (out, s')) : Step s s.mode c out s' := by
  cases hm : s.mode <;> simp only [step, hm] at h
  · exact .bare (bareStep_cases h)
  · split_ifs at h with h₁
    · obtain ⟨rfl, rfl⟩ := by simpa using h
      exact h₁ ▸ .bareJoined
    · obtain ⟨rfl, rfl⟩ := by simpa using h
      exact .bareEscaped
  · split_ifs at h
    exact .afterOp (bareStep_cases h)
  · split_ifs at h with h₁ h₂ h₃
    · obtain ⟨rfl, rfl⟩ := by simpa using h
      exact h₁ ▸ .unquote
    · obtain ⟨rfl, rfl⟩ := by simpa using h
      exact h₂ ▸ .escape
    · obtain ⟨rfl, rfl⟩ := by simpa using h
      exact .letter h₁ h₂ (by simpa using h₃)
  · split_ifs at h with h₁ h₂
    · obtain ⟨rfl, rfl⟩ := by simpa using h
      exact h₁ ▸ .joined
    · obtain ⟨rfl, rfl⟩ := by simpa using h
      exact .escaped h₂
    · obtain ⟨rfl, rfl⟩ := by simpa using h
      have hne : ∀ x, escapable x = true → c ≠ x := by
        rintro x hx rfl
        exact h₂ hx
      exact .kept (hne _ rfl) (hne _ rfl) h₁ (by simpa using h₂)
  · split_ifs at h with h₁
    · obtain ⟨rfl, rfl⟩ := by simpa using h
      exact h₁ ▸ .unsingle
    · obtain ⟨rfl, rfl⟩ := by simpa using h
      exact .literal

lemma count_bareStep_le (h : BareStep s c out s') (x : Char) :
    (texts out).count x + s'.held x ≤ [c].count x + s.text.count x := by
  cases h with
  | blank _ => simp [State.held, start]
  | double => simp [State.held]
  | single => simp [State.held]
  | escape => simp [State.held]
  | @redirect _ op _ =>
    have hle := count_redirect_le s op x
    simp only [State.held, text_none, List.count_nil]
    simp
    omega
  | plain _ _ _ =>
    simp [State.held]
    omega

/-- A step adds no characters of its own. -/
lemma count_step_le (h : Step s s.mode c out s') (x : Char) :
    (texts out).count x + s'.held x ≤ [c].count x + s.held x := by
  have hheld : s.held x = s.text.count x +
    if s.mode = .doubleEscape ∧ x = '\\' then 1 else 0 := rfl
  generalize s.mode = mode at h hheld
  rw [hheld]
  cases h with
  | bare h => simpa using count_bareStep_le h x
  | afterOp h => simpa using count_bareStep_le h x
  | unquote => simp [State.held]
  | escape => by_cases hx : x = '\\' <;> simp [State.held, hx, eq_comm]
  | letter => simp [State.held]; omega
  | joined => simp [State.held]; omega
  | escaped => simp [State.held]; omega
  | kept =>
    by_cases hx : x = '\\'
    · simp [State.held, hx, List.count_cons]
      omega
    · simp [State.held, hx, List.count_cons, Ne.symm hx]
      omega
  | bareJoined => simp [State.held]
  | bareEscaped => simp [State.held]; omega
  | unsingle => simp [State.held]
  | literal => simp [State.held]; omega

lemma lex_cons_eq_some :
    lex s (c :: cs) = some tokens ↔ ∃ out s' rest, step s c = some (out, s') ∧
      lex s' cs = some rest ∧ tokens = out ++ rest := by
  constructor
  · intro h
    cases hs : step s c with
    | none => simp [lex, hs] at h
    | some r =>
      cases hr : lex r.2 cs with
      | none => simp [lex, hs, hr] at h
      | some rest => exact ⟨r.1, r.2, rest, rfl, hr, by simpa [lex, hs, hr, eq_comm] using h⟩
  · rintro ⟨out, s', rest, hs, hr, rfl⟩
    simp [lex, hs, hr]

lemma count_lex_le (h : lex s cs = some tokens) (x : Char) :
    (texts tokens).count x ≤ cs.count x + s.held x := by
  induction cs generalizing s tokens with
  | nil =>
    have hflush : tokens = s.flush := by
      simp only [lex, finish] at h
      split at h <;> simp_all
    rw [hflush, texts_flush, State.held]
    simp
  | cons c cs ih =>
    obtain ⟨out, s', rest, hs, hr, rfl⟩ := lex_cons_eq_some.mp h
    have hstep := count_step_le (step_cases hs) x
    have hrest := ih hr
    rw [texts_append, List.count_append]
    rw [← List.singleton_append, List.count_append]
    omega

/-! ### Readings that lose no backslash and no single quote -/

/-- What a step does that takes no escape and no single quote. -/
inductive OpenStep (s : State) : Mode → Char → List Token → State → Prop
  | blank {m b} : m ≠ .double → m ≠ .doubleEscape → b = ' ' ∨ b = '\t' →
      OpenStep s m b s.flush start
  | quote {m} : m ≠ .double → m ≠ .doubleEscape → OpenStep s m '"' [] (s.push .double [] true)
  | redirect {m b op} : m ≠ .double → m ≠ .doubleEscape → opOf b = some op →
      OpenStep s m b (s.redirect op) ⟨.afterOp, none⟩
  | plain {m b} : m ≠ .double → m ≠ .doubleEscape → b ≠ ' ' → b ≠ '"' → opOf b = none →
      OpenStep s m b [] (s.push .bare [b] false)
  | unquote : OpenStep s .double '"' [] { s with mode := .bare }
  | escape : OpenStep s .double '\\' [] { s with mode := .doubleEscape }
  | letter {b} : b ≠ '"' → b ≠ '\\' → expands b = false →
      OpenStep s .double b [] (s.push .double [b] true)
  | kept {b} : b ≠ '"' → b ≠ '\\' → b ≠ '\n' → escapable b = false →
      OpenStep s .doubleEscape b [] (s.push .double ['\\', b] true)

/-- A reading in which every backslash and every single quote stands for itself. -/
structure Tight (s : State) (cs : List Char) (tokens : List Token) : Prop where
  lex_eq : lex s cs = some tokens
  isOpen : s.mode ≠ .bareEscape ∧ s.mode ≠ .single
  backslash : (texts tokens).count '\\' = cs.count '\\' + s.held '\\'
  apostrophe : (texts tokens).count '\'' = cs.count '\'' + s.held '\''

lemma openStep_of_bareStep {m : Mode} (h : BareStep s c out s') (hd : m ≠ .double)
    (he : m ≠ .doubleEscape) (hm : s'.mode ≠ .bareEscape ∧ s'.mode ≠ .single) :
    OpenStep s m c out s' := by
  cases h with
  | blank h => exact .blank hd he h
  | double => exact .quote hd he
  | single => exact absurd rfl hm.2
  | escape => exact absurd rfl hm.1
  | redirect h => exact .redirect hd he h
  | plain h h' h'' => exact .plain hd he h h' h''

-- a step into an escape outside quotes, or into single quotes, has lost a character
lemma count_lt_of_closed (h : Step s s.mode c out s') (hs : s.mode ≠ .bareEscape ∧ s.mode ≠ .single)
    (hm : s'.mode = .bareEscape ∨ s'.mode = .single) :
    (texts out).count '\\' + s'.held '\\' < [c].count '\\' + s.held '\\' ∨
      (texts out).count '\'' + s'.held '\'' < [c].count '\'' + s.held '\'' := by
  have hbare : ∀ m, s.mode = m → m ≠ .doubleEscape → BareStep s c out s' →
      (texts out).count '\\' + s'.held '\\' < [c].count '\\' + s.held '\\' ∨
        (texts out).count '\'' + s'.held '\'' < [c].count '\'' + s.held '\'' := by
    intro m hmode hne hb
    cases hb with
    | blank _ => rcases hm with hm | hm <;> cases hm
    | double => rcases hm with hm | hm <;> cases hm
    | single => exact .inr (by simp [State.held])
    | escape => exact .inl (by simp [State.held, hmode, hne])
    | redirect _ => rcases hm with hm | hm <;> cases hm
    | plain _ _ _ => rcases hm with hm | hm <;> cases hm
  generalize hmode : s.mode = mode at h hs
  cases h with
  | bare h => exact hbare _ hmode (by decide) h
  | afterOp h => exact hbare _ hmode (by decide) h
  | bareJoined => exact absurd rfl hs.1
  | bareEscaped => exact absurd rfl hs.1
  | unsingle => exact absurd rfl hs.2
  | literal => exact absurd rfl hs.2
  | unquote => rcases hm with hm | hm <;> cases hm
  | escape => rcases hm with hm | hm <;> cases hm
  | letter => rcases hm with hm | hm <;> cases hm
  | joined => rcases hm with hm | hm <;> cases hm
  | escaped => rcases hm with hm | hm <;> cases hm
  | kept => rcases hm with hm | hm <;> cases hm

-- between double quotes, an escape has lost its backslash
lemma openStep_of_step (h : Step s s.mode c out s') (hs : s.mode ≠ .bareEscape ∧ s.mode ≠ .single)
    (hm : s'.mode ≠ .bareEscape ∧ s'.mode ≠ .single)
    (heq : (texts out).count '\\' + s'.held '\\' = [c].count '\\' + s.held '\\') :
    OpenStep s s.mode c out s' := by
  have hheld : s.held '\\' = s.text.count '\\' + if s.mode = .doubleEscape then 1 else 0 := by
    simp [State.held]
  rw [hheld] at heq
  generalize s.mode = mode at h hs heq
  cases h with
  | bare h => exact openStep_of_bareStep h (by decide) (by decide) hm
  | afterOp h => exact openStep_of_bareStep h (by decide) (by decide) hm
  | unquote => exact .unquote
  | escape => exact .escape
  | letter h₁ h₂ h₃ => exact .letter h₁ h₂ h₃
  | joined => simp [State.held] at heq
  | escaped h =>
    simp [State.held] at heq
    omega
  | kept h₁ h₂ h₃ h₄ => exact .kept h₁ h₂ h₃ h₄
  | bareJoined => exact absurd rfl hs.1
  | bareEscaped => exact absurd rfl hs.1
  | unsingle => exact absurd rfl hs.2
  | literal => exact absurd rfl hs.2

lemma Tight.cons (h : Tight s (c :: cs) tokens) :
    ∃ out s' rest, OpenStep s s.mode c out s' ∧ Tight s' cs rest ∧ tokens = out ++ rest := by
  obtain ⟨out, s', rest, hs, hr, rfl⟩ := lex_cons_eq_some.mp h.lex_eq
  have hstep := step_cases hs
  have hslash := h.backslash
  have hquote := h.apostrophe
  rw [texts_append, List.count_append, ← List.singleton_append, List.count_append] at hslash hquote
  have hle := fun x => count_step_le hstep x
  have hrest := fun x => count_lex_le hr x
  have h₁ := hle '\\'
  have h₂ := hle '\''
  have h₃ := hrest '\\'
  have h₄ := hrest '\''
  have hm : s'.mode ≠ .bareEscape ∧ s'.mode ≠ .single := by
    by_contra hclosed
    rw [not_and_or, not_not, not_not] at hclosed
    rcases count_lt_of_closed hstep h.isOpen hclosed with hlt | hlt <;> omega
  refine ⟨out, s', rest, openStep_of_step hstep h.isOpen hm (by omega), ⟨hr, hm, ?_, ?_⟩, rfl⟩
  · omega
  · omega

lemma count_quote_le (h : OpenStep s s.mode c out s') :
    (texts out).count '"' + s'.text.count '"' ≤ s.text.count '"' := by
  generalize s.mode = mode at h
  cases h with
  | blank => simp
  | quote => simp
  | @redirect _ _ op => simpa using count_redirect_le s op '"'
  | plain _ _ _ h => simp [h]
  | unquote => simp
  | escape => simp
  | letter h => simp [h]
  | kept h => simp [h]

/-- No double quote stands for itself. -/
lemma Tight.no_quote (h : Tight s cs tokens) : (texts tokens).count '"' ≤ s.text.count '"' := by
  induction cs generalizing s tokens with
  | nil =>
    have hle := count_lex_le h.lex_eq '"'
    simpa [State.held] using hle
  | cons c cs ih =>
    obtain ⟨out, s', rest, hstep, hrest, rfl⟩ := h.cons
    have hle := count_quote_le hstep
    have hle' := ih hrest
    rw [texts_append, List.count_append]
    omega

/-! ### Words between double quotes -/

/-- Words that stand for themselves between double quotes. -/
def quotable : List Char → Bool
  | [] => true
  | '\\' :: cs =>
    (match cs with
      | [] => false
      | d :: _ => !escapable d && d ≠ '\n') && quotable cs
  | c :: cs => c ≠ '"' && !expands c && quotable cs

def quoted (text : List Char) (mode : Mode) : State := ⟨mode, some (text, true)⟩

lemma lex_of_step {s : State} (h : step s c = some ([], s')) : lex s (c :: cs) = lex s' cs := by
  cases hl : lex s' cs <;> simp [lex, h, hl]

lemma quotable_cons_of_ne (h : c ≠ '\\') :
    quotable (c :: cs) = (c ≠ '"' && !expands c && quotable cs) := by
  rw [quotable.eq_def]
  split
  · rename_i heq
    cases heq
  · rename_i heq
    exact absurd (List.cons.inj heq).1 h
  · rename_i heq
    obtain ⟨rfl, rfl⟩ := List.cons.inj heq
    rfl

lemma not_expands_of_not_escapable {d : Char} (h : escapable d = false) :
    d ≠ '"' ∧ d ≠ '\\' ∧ expands d = false := by
  simp_all [escapable, expands]

/-- A quotable word is read as it is, up to the closing quote. -/
lemma lex_quotable (w : List Char) (others : List Char) : ∀ u,
    (quotable w → lex (quoted u .double) (w ++ '"' :: others) = lex (quoted (u ++ w) .bare) others) ∧
    (∀ d w', w = d :: w' → escapable d = false → d ≠ '\n' → quotable w' →
      lex (quoted u .doubleEscape) (w ++ '"' :: others) =
        lex (quoted (u ++ '\\' :: w) .bare) others) := by
  induction w with
  | nil =>
    intro u
    refine ⟨fun _ => ?_, fun d w' h => by cases h⟩
    rw [List.nil_append, List.append_nil, lex_of_step]
    rfl
  | cons c w ih =>
    intro u
    constructor
    · intro h
      by_cases hc : c = '\\'
      · subst hc
        rw [List.cons_append, @lex_of_step (quoted u .doubleEscape) _ _ _ rfl]
        cases w with
        | nil => simp [quotable] at h
        | cons d w' =>
          have hd : (escapable d = false ∧ ¬ d = '\n') ∧ quotable (d :: w') = true := by
            simpa [quotable] using h
          have hw' : quotable w' = true := by
            have hne := not_expands_of_not_escapable hd.1.1
            have hcons := hd.2
            rw [quotable_cons_of_ne hne.2.1] at hcons
            simp_all
          exact (ih u).2 d w' rfl hd.1.1 hd.1.2 hw'
      · rw [quotable_cons_of_ne hc] at h
        obtain ⟨⟨hq, he⟩, hw⟩ : (¬ c = '"' ∧ expands c = false) ∧ quotable w = true := by
          simpa using h
        rw [List.cons_append, @lex_of_step (quoted (u ++ [c]) .double)]
        · rw [(ih (u ++ [c])).1 hw, List.append_assoc, List.singleton_append]
        · simp [step, quoted, hq, hc, he, State.push]
    · rintro d w' ⟨⟩ hd hn hw'
      rw [List.cons_append, @lex_of_step (quoted (u ++ ['\\', c]) .double)]
      · rw [(ih (u ++ ['\\', c])).1 hw', List.append_assoc]
        rfl
      · simp [step, quoted, hd, hn, State.push]

lemma openStep_double (h : OpenStep s .double c out s') : out = [] ∧
    (c = '"' ∧ s' = { s with mode := .bare } ∨ c = '\\' ∧ s' = { s with mode := .doubleEscape } ∨
      c ≠ '"' ∧ c ≠ '\\' ∧ expands c = false ∧ s' = s.push .double [c] true) := by
  cases h with
  | blank hne => exact absurd rfl hne
  | quote hne => exact absurd rfl hne
  | redirect hne => exact absurd rfl hne
  | plain hne => exact absurd rfl hne
  | unquote => exact ⟨rfl, .inl ⟨rfl, rfl⟩⟩
  | escape => exact ⟨rfl, .inr (.inl ⟨rfl, rfl⟩)⟩
  | letter h₁ h₂ h₃ => exact ⟨rfl, .inr (.inr ⟨h₁, h₂, h₃, rfl⟩)⟩

lemma openStep_doubleEscape (h : OpenStep s .doubleEscape c out s') : out = [] ∧
    c ≠ '\n' ∧ escapable c = false ∧ s' = s.push .double ['\\', c] true := by
  cases h with
  | blank _ hne => exact absurd rfl hne
  | quote _ hne => exact absurd rfl hne
  | redirect _ hne => exact absurd rfl hne
  | plain _ hne => exact absurd rfl hne
  | kept _ _ h₃ h₄ => exact ⟨rfl, h₃, h₄, rfl⟩

-- the first part of what follows a backslash
def afterBackslash : List Char → Bool
  | [] => false
  | d :: _ => !escapable d && d ≠ '\n'

lemma quotable_backslash (cs : List Char) :
    quotable ('\\' :: cs) = (afterBackslash cs && quotable cs) := by
  cases cs <;> rfl

/-- A word that is read without loss is quotable. -/
lemma Tight.double {w others : List Char} (hq : ∀ x ∈ w, x ≠ '"') : ∀ {u tokens},
    (Tight (quoted u .double) (w ++ '"' :: others) tokens →
      quotable w ∧ Tight (quoted (u ++ w) .bare) others tokens) ∧
    (Tight (quoted u .doubleEscape) (w ++ '"' :: others) tokens →
      (afterBackslash w ∧ quotable w) ∧ Tight (quoted (u ++ '\\' :: w) .bare) others tokens) := by
  induction w with
  | nil =>
    intro u tokens
    constructor
    · intro h
      obtain ⟨out, s', rest, hstep, hrest, rfl⟩ := h.cons
      obtain ⟨rfl, ⟨-, rfl⟩ | ⟨hc, -⟩ | ⟨hc, -⟩⟩ := openStep_double hstep
      · exact ⟨rfl, by simpa [quoted] using hrest⟩
      · cases hc
      · exact absurd rfl hc
    · intro h
      obtain ⟨out, s', rest, hstep, hrest, rfl⟩ := h.cons
      obtain ⟨rfl, -, hc, -⟩ := openStep_doubleEscape hstep
      cases hc
  | cons c w ih =>
    intro u tokens
    have ih' := @ih fun x hx => hq x (List.mem_cons_of_mem _ hx)
    constructor
    · intro h
      obtain ⟨out, s', rest, hstep, hrest, rfl⟩ := h.cons
      obtain ⟨rfl, ⟨hc, -⟩ | ⟨rfl, rfl⟩ | ⟨h₁, h₂, h₃, rfl⟩⟩ := openStep_double hstep
      · exact absurd hc (hq c List.mem_cons_self)
      · obtain ⟨⟨hfirst, hw⟩, htight⟩ := ih'.2 hrest
        exact ⟨by simp [quotable_backslash, hfirst, hw], htight⟩
      · obtain ⟨hw, htight⟩ := ih'.1 hrest
        refine ⟨by simp [quotable_cons_of_ne h₂, h₁, h₃, hw], ?_⟩
        simpa [quoted] using htight
    · intro h
      obtain ⟨out, s', rest, hstep, hrest, rfl⟩ := h.cons
      obtain ⟨rfl, hn, he, rfl⟩ := openStep_doubleEscape hstep
      obtain ⟨h₁, h₂, h₃⟩ := not_expands_of_not_escapable he
      obtain ⟨hw, htight⟩ := ih'.1 hrest
      refine ⟨⟨by simp [afterBackslash, he, hn], ?_⟩, by simpa [quoted] using htight⟩
      simp [quotable_cons_of_ne h₂, h₁, h₃, hw]

/-! ### Words that are not quoted -/

def Token.isOp : Token → Bool
  | .word .. => false
  | .op .. => true

def ops (tokens : List Token) : ℕ := tokens.countP Token.isOp

@[simp] lemma ops_append (tokens tokens' : List Token) :
    ops (tokens ++ tokens') = ops tokens + ops tokens' := List.countP_append ..

lemma ops_flush (s : State) : ops s.flush = 0 := by
  rcases s with ⟨mode, _ | ⟨text, quoted⟩⟩ <;> rfl

lemma ops_redirect (s : State) (op : Op) : ops (s.redirect op) = 1 := by
  rcases s with ⟨mode, _ | ⟨text, _ | _⟩⟩
  · rfl
  · cases hd : digitsOf text <;> simp [State.redirect, hd, ops, Token.isOp]
  · rfl

def isOpChar (c : Char) : Bool := (opOf c).isSome

lemma openStep_bare (h : OpenStep s s.mode c out s') (hd : s.mode ≠ .double)
    (he : s.mode ≠ .doubleEscape) (hq : c ≠ '"') :
    s'.mode ≠ .double ∧ s'.mode ≠ .doubleEscape ∧ ops out = [c].countP isOpChar := by
  generalize s.mode = mode at h hd he
  cases h with
  | blank _ _ hb =>
    refine ⟨by decide, by decide, ?_⟩
    rcases hb with rfl | rfl <;> simp [ops_flush, isOpChar, opOf]
  | quote => exact absurd rfl hq
  | redirect _ _ hop => exact ⟨by decide, by decide, by simp [ops_redirect, isOpChar, hop]⟩
  | plain _ _ _ _ hop => exact ⟨by simp, by simp, by simp [ops, isOpChar, hop]⟩
  | unquote => exact absurd rfl hd
  | escape => exact absurd rfl hd
  | letter => exact absurd rfl hd
  | kept => exact absurd rfl he

lemma openStep_space (h : OpenStep s s.mode ' ' out s') (hd : s.mode ≠ .double)
    (he : s.mode ≠ .doubleEscape) : out = s.flush ∧ s' = start := by
  generalize s.mode = mode at h hd he
  cases h with
  | blank _ _ hb => exact ⟨rfl, rfl⟩
  | redirect _ _ hop => cases hop
  | plain _ _ hb => exact absurd rfl hb
  | letter => exact absurd rfl hd
  | kept => exact absurd rfl he

/-- A word without quotes has a redirection for each `<` and `>`. -/
lemma Tight.bare {w others : List Char} (hq : ∀ x ∈ w, x ≠ '"') : ∀ {s tokens},
    s.mode ≠ .double → s.mode ≠ .doubleEscape → Tight s (w ++ ' ' :: others) tokens →
    ∃ out rest, tokens = out ++ rest ∧ Tight start others rest ∧ ops out = w.countP isOpChar := by
  induction w with
  | nil =>
    intro s tokens hd he h
    obtain ⟨out, s', rest, hstep, hrest, rfl⟩ := h.cons
    obtain ⟨rfl, rfl⟩ := openStep_space hstep hd he
    exact ⟨_, rest, rfl, hrest, ops_flush s⟩
  | cons c w ih =>
    intro s tokens hd he h
    obtain ⟨out, s', rest, hstep, hrest, rfl⟩ := h.cons
    obtain ⟨hd', he', hops⟩ := openStep_bare hstep hd he (hq c List.mem_cons_self)
    obtain ⟨out', rest', rfl, hrest', hops'⟩ :=
      ih (fun x hx => hq x (List.mem_cons_of_mem _ hx)) hd' he' hrest
    refine ⟨out ++ out', rest', (List.append_assoc ..).symm, hrest', ?_⟩
    rw [ops_append, hops, hops', ← List.countP_append, List.singleton_append]

/-! ### Commands -/

lemma gather_spec {command : Command} (h : gather tokens = some command) :
    ops tokens = command.redirects.length ∧ ∀ x, (texts tokens).count x =
      command.argv.flatten.count x + (command.redirects.map (·.file)).flatten.count x := by
  induction tokens using gather.induct generalizing command with
  | case1 =>
    obtain rfl : (⟨[], []⟩ : Command) = command := by simpa [gather] using h
    exact ⟨rfl, fun x => by simp⟩
  | case2 text q tokens ih =>
    cases hg : gather tokens with
    | none => simp [gather, hg] at h
    | some c =>
      obtain rfl : (⟨text :: c.argv, c.redirects⟩ : Command) = command := by
        simpa [gather, hg] using h
      obtain ⟨hops, htexts⟩ := ih hg
      refine ⟨by simpa [ops, Token.isOp] using hops, fun x => ?_⟩
      have hx := htexts x
      simp only [texts, List.flatMap_cons, Token.text, List.count_append, List.flatten_cons] at hx ⊢
      omega
  | case3 fd op file q tokens ih =>
    cases hg : gather tokens with
    | none => simp [gather, hg] at h
    | some c =>
      obtain rfl : (⟨c.argv, ⟨fd.getD (defaultFd op), op, file⟩ :: c.redirects⟩ : Command) =
          command := by simpa [gather, hg] using h
      obtain ⟨hops, htexts⟩ := ih hg
      refine ⟨?_, fun x => ?_⟩
      · rw [← List.singleton_append, ← List.singleton_append (l := tokens), ops_append, ops_append,
          hops, List.length_cons]
        simp [ops, Token.isOp]
        omega
      have hx := htexts x
      simp only [texts, List.flatMap_cons, Token.text, List.count_append, List.map_cons,
        List.flatten_cons, List.nil_append] at hx ⊢
      omega
  | case4 fd op tokens hne => simp [gather] at h

lemma lex_quoted_word {w : List Char} (h : quotable w) (others : List Char) :
    lex start ('"' :: (w ++ '"' :: ' ' :: others)) =
      (lex start others).map (Token.word w true :: ·) := by
  rw [@lex_of_step (quoted [] .double) _ _ _ rfl, (lex_quotable w _ []).1 h]
  have hspace : step (quoted w .bare) ' ' = some ([.word w true], start) := by
    simp [step, bareStep, quoted, State.flush]
  rw [List.nil_append, lex, hspace]
  cases hl : lex start others <;> simp [hl]

lemma openStep_quote (h : OpenStep start .bare '"' out s') : s' = quoted [] .double := by
  cases h with
  | blank _ _ hb => rcases hb with hb | hb <;> cases hb
  | quote => rfl
  | redirect _ _ hop => cases hop
  | plain _ _ _ hb => exact absurd rfl hb

/-- The word between double quotes at the front of a reading without loss. -/
lemma Tight.quoted_word {w others : List Char} (hq : ∀ x ∈ w, x ≠ '"')
    (h : Tight start ('"' :: (w ++ '"' :: ' ' :: others)) tokens) :
    quotable w ∧ ∃ out rest, tokens = out ++ rest ∧ Tight start others rest := by
  obtain ⟨out, s', rest, hstep, hrest, rfl⟩ := h.cons
  obtain rfl := openStep_quote hstep
  obtain ⟨hw, hbare⟩ := (Tight.double hq).1 hrest
  obtain ⟨out', s', rest', hstep', hrest', rfl⟩ := hbare.cons
  obtain ⟨rfl, rfl⟩ := openStep_space hstep' (by simp [quoted]) (by simp [quoted])
  exact ⟨hw, _, rest', (List.append_assoc ..).symm, hrest'⟩

end Turbine.Library.Shell
