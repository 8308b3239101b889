import Mathlib

/-! The string form of a list of words: quoting, splitting at white space, and joining. Which
words stand for themselves in it, and that all others come out shorter or longer. -/

namespace Turbine.Library.ListSyntax

abbrev Str := List Char

def space (c : Char) : Bool :=
  c = ' ' || c = '\t' || c = '\n' || c = '\r' || c = '\x0b' || c = '\x0c'

/-! ### Quoting -/

/-- Braces that close before they open, or do not close. -/
def unbalanced (depth : ℕ) : Str → Bool
  | [] => depth ≠ 0
  | '{' :: s => unbalanced (depth + 1) s
  | '}' :: s => depth = 0 || unbalanced (depth - 1) s
  | _ :: s => unbalanced depth s

def braced (c : Char) : Bool := c = '{' || c = '}'

def substituted (c : Char) : Bool :=
  space c || c = '[' || c = ']' || c = '$' || c = ';' || c = '"' || c = '\\'

/-- A word that is written as it is. A leading `#` is quoted in the first word. -/
def plain (isFirst : Bool) (s : Str) : Bool :=
  s ≠ [] && !unbalanced 0 s && !s.any substituted && s.head? ≠ some '{' &&
    !(isFirst && s.head? = some '#')

/-- No form with braces: they are unbalanced, or a backslash ends the word or a line in it. -/
def unbraceable : Str → Bool
  | [] => false
  | ['\\'] => true
  | '\\' :: '\n' :: _ => true
  | '\\' :: _ :: s => unbraceable s
  | _ :: s => unbraceable s

def escapeChar (c : Char) : Char :=
  match c with
  | '\n' => 'n'
  | '\t' => 't'
  | '\r' => 'r'
  | '\x0b' => 'v'
  | '\x0c' => 'f'
  | c => c

def escape (p : Char → Bool) : Str → Str
  | [] => []
  | c :: s => if p c then '\\' :: escapeChar c :: escape p s else c :: escape p s

def quote (isFirst : Bool) (s : Str) : Str :=
  if plain isFirst s then s
  else if s = [] then ['{', '}']
  else if unbalanced 0 s || unbraceable s then
    let escaped := escape (fun c => substituted c || braced c) s
    if isFirst && s.head? = some '#' then '\\' :: escaped else escaped
  -- only closing brackets and double quotes are escaped
  else if s.any (fun c => c = ']' || c = '"') && s.head? ≠ some '{' && s.head? ≠ some '"' &&
      !(isFirst && s.head? = some '#') &&
      !s.any (fun c => substituted c && c ≠ ']' && c ≠ '"') then escape substituted s
  else '{' :: s ++ ['}']

def join : List Str → Str
  | [] => []
  | [w] => w
  | w :: ws => w ++ ' ' :: join ws

def listString : List Str → Str
  | [] => []
  | w :: ws => join (quote true w :: ws.map (quote false))

lemma length_escape_le (p : Char → Bool) (s : Str) : s.length ≤ (escape p s).length := by
  induction s with
  | nil => simp [escape]
  | cons c s ih =>
    by_cases hp : p c = true <;> simp [escape, hp] <;> omega

lemma length_lt_escape {p : Char → Bool} {s : Str} {c : Char} (hc : c ∈ s) (hp : p c = true) :
    s.length < (escape p s).length := by
  induction s with
  | nil => simp at hc
  | cons d s ih =>
    rcases List.mem_cons.mp hc with rfl | hc
    · have hle := length_escape_le p s
      simp [escape, hp]
      omega
    · have hlt := ih hc
      by_cases hd : p d = true <;> simp [escape, hd] <;> omega

lemma exists_braced {depth : ℕ} {s : Str} (h : unbalanced depth s = true) :
    depth ≠ 0 ∨ ∃ c ∈ s, braced c = true := by
  fun_induction unbalanced depth s with
  | case1 depth => exact .inl (by simpa using h)
  | case2 depth s ih => exact .inr ⟨'{', by simp, rfl⟩
  | case3 depth s ih => exact .inr ⟨'}', by simp, rfl⟩
  | case4 depth c s _ _ ih =>
    rcases ih h with hdepth | ⟨d, hd, hbraced⟩
    · exact .inl hdepth
    · exact .inr ⟨d, .tail _ hd, hbraced⟩

lemma mem_of_unbraceable {s : Str} (h : unbraceable s = true) : '\\' ∈ s := by
  fun_induction unbraceable s with
  | case1 => simp at h
  | case2 => simp
  | case3 => simp
  | case4 => simp
  | case5 c s _ _ _ ih => exact .tail _ (ih h)

/-- A word that is not plain comes out longer. -/
lemma quote_eq_iff {isFirst : Bool} {s : Str} : quote isFirst s = s ↔ plain isFirst s = true := by
  unfold quote
  by_cases hplain : plain isFirst s = true
  · simp [hplain]
  refine iff_of_false ?_ hplain
  intro heq
  have hlength := congrArg List.length heq
  rw [if_neg hplain] at hlength
  by_cases hnil : s = []
  · simp [hnil] at hlength
  rw [if_neg hnil] at hlength
  by_cases hescape : (unbalanced 0 s || unbraceable s) = true
  · have hlt : s.length < (escape (fun c => substituted c || braced c) s).length := by
      rcases Bool.or_eq_true_iff.mp hescape with h | h
      · obtain ⟨c, hc, hbraced⟩ := (exists_braced h).resolve_left (by simp)
        exact length_lt_escape hc (by simp [hbraced])
      · exact length_lt_escape (mem_of_unbraceable h) (by decide)
    rw [if_pos hescape] at hlength
    by_cases hhash : (isFirst && s.head? = some '#') = true
    · rw [if_pos hhash, List.length_cons] at hlength
      omega
    · rw [if_neg hhash] at hlength
      omega
  rw [if_neg hplain, if_neg hnil, if_neg hescape] at heq
  split at heq
  · rename_i hmask
    simp only [Bool.and_eq_true, List.any_eq_true] at hmask
    obtain ⟨⟨⟨⟨⟨c, hc, hclose⟩, -⟩, -⟩, -⟩, -⟩ := hmask
    have hlt : s.length < (escape substituted s).length := by
      refine length_lt_escape hc ?_
      have hcases : c = ']' ∨ c = '"' := by simpa using hclose
      rcases hcases with rfl | rfl <;> rfl
    rw [heq] at hlt
    omega
  · have hbraces := congrArg List.length heq
    rw [List.cons_append, List.length_cons, List.length_append] at hbraces
    omega

/-! ### Splitting -/

inductive Mode
  | between
  | bare (word : Str)
  | brace (depth : ℕ) (word : Str)
  | quoted (word : Str)
  -- behind the end of a word in braces or quotes
  | after (word : Str)

def isOctal (c : Char) : Bool := '0' ≤ c && c ≤ '7'

def isHex (c : Char) : Bool :=
  '0' ≤ c && c ≤ '9' || 'a' ≤ c && c ≤ 'f' || 'A' ≤ c && c ≤ 'F'

def digit (c : Char) : ℕ :=
  if c ≤ '9' then c.toNat - '0'.toNat else if c ≤ 'F' then c.toNat - 'A'.toNat + 10
  else c.toNat - 'a'.toNat + 10

def number (base : ℕ) (digits : Str) : Char :=
  Char.ofNat (digits.foldl (fun n c => n * base + digit c) 0)

/-- The character that a backslash and what comes behind it stand for, and how much comes behind
it. -/
def unescape : Str → Char × ℕ
  | [] => ('\\', 0)
  | 'a' :: _ => ('\x07', 1)
  | 'b' :: _ => ('\x08', 1)
  | 'f' :: _ => ('\x0c', 1)
  | 'n' :: _ => ('\n', 1)
  | 'r' :: _ => ('\r', 1)
  | 't' :: _ => ('\t', 1)
  | 'v' :: _ => ('\x0b', 1)
  | '\n' :: s => (' ', 1 + (s.takeWhile fun c => c = ' ' || c = '\t').length)
  | 'x' :: s =>
    let digits := (s.take 2).takeWhile isHex
    if digits = [] then ('x', 1) else (number 16 digits, 1 + digits.length)
  | 'u' :: s =>
    let digits := (s.take 4).takeWhile isHex
    if digits = [] then ('u', 1) else (number 16 digits, 1 + digits.length)
  | 'U' :: s =>
    let digits := (s.take 8).takeWhile isHex
    if digits = [] then ('U', 1) else (number 16 digits, 1 + digits.length)
  | c :: s =>
    let digits := ((c :: s).take 3).takeWhile isOctal
    if digits = [] then (c, 1) else (number 8 digits, digits.length)

/-- The words of the string form; nothing if it is not well formed. The fuel is its length. -/
def splitFrom : ℕ → Mode → Str → Option (List Str)
  | _, .between, [] => some []
  | _, .bare word, [] => some [word]
  | _, .after word, [] => some [word]
  | _, .brace _ _, [] => none
  | _, .quoted _, [] => none
  | 0, _, _ :: _ => none
  | fuel + 1, .between, c :: s =>
    if space c then splitFrom fuel .between s
    else if c = '{' then splitFrom fuel (.brace 0 []) s
    else if c = '"' then splitFrom fuel (.quoted []) s
    else if c = '\\' then
      splitFrom fuel (.bare [(unescape s).1]) (s.drop (unescape s).2)
    else splitFrom fuel (.bare [c]) s
  | fuel + 1, .bare word, c :: s =>
    if space c then (splitFrom fuel .between s).map (word :: ·)
    else if c = '\\' then
      splitFrom fuel (.bare (word ++ [(unescape s).1])) (s.drop (unescape s).2)
    else splitFrom fuel (.bare (word ++ [c])) s
  | fuel + 1, .brace depth word, c :: s =>
    if c = '{' then splitFrom fuel (.brace (depth + 1) (word ++ [c])) s
    else if c = '}' then
      if depth = 0 then splitFrom fuel (.after word) s
      else splitFrom fuel (.brace (depth - 1) (word ++ [c])) s
    else if c = '\\' then splitFrom fuel (.brace depth (word ++ c :: s.take 1)) (s.drop 1)
    else splitFrom fuel (.brace depth (word ++ [c])) s
  | fuel + 1, .quoted word, c :: s =>
    if c = '"' then splitFrom fuel (.after word) s
    else if c = '\\' then
      splitFrom fuel (.quoted (word ++ [(unescape s).1])) (s.drop (unescape s).2)
    else splitFrom fuel (.quoted (word ++ [c])) s
  | fuel + 1, .after word, c :: s =>
    if space c then (splitFrom fuel .between s).map (word :: ·) else none

attribute [local simp] splitFrom

def split (s : Str) : Option (List Str) := splitFrom s.length .between s

/-- A word that stands for itself between white space. -/
def bareWord (w : Str) : Bool :=
  w ≠ [] && !w.any (fun c => space c || c = '\\') && w.head? ≠ some '{' && w.head? ≠ some '"'

/-- The last word may have a backslash at its end. -/
def lastWord (w : Str) : Bool :=
  bareWord w || (w.getLast? = some '\\' && (w.length = 1 || bareWord w.dropLast))

def bareWords : List Str → Bool
  | [] => true
  | [w] => lastWord w
  | w :: ws => bareWord w && bareWords ws

def weight (ws : List Str) : ℕ := (ws.map fun w => w.length + 1).sum

@[simp] lemma weight_nil : weight [] = 0 := rfl

@[simp] lemma weight_cons (w : Str) (ws : List Str) :
    weight (w :: ws) = w.length + 1 + weight ws := by simp [weight]

/-- What the words can weigh that are split off from here on. -/
def Mode.bound : Mode → Str → ℕ
  | .between, s => s.length + 1
  | .bare w, s | .after w, s => w.length + s.length + 1
  | .brace _ w, s | .quoted w, s => w.length + s.length

lemma length_drop_le (s : Str) (n : ℕ) : (s.drop n).length ≤ s.length := by
  rw [List.length_drop]
  omega

lemma weight_le {fuel : ℕ} {mode : Mode} {s : Str} {ws : List Str}
    (h : splitFrom fuel mode s = some ws) : weight ws ≤ mode.bound s := by
  induction fuel generalizing mode s ws with
  | zero =>
    cases s with
    | nil =>
      cases mode <;> simp only [splitFrom, Option.some.injEq, reduceCtorEq] at h <;>
        simp [← h, Mode.bound]
    | cons c s => cases mode <;> simp at h
  | succ fuel ih =>
    cases s with
    | nil =>
      cases mode <;> simp only [splitFrom, Option.some.injEq, reduceCtorEq] at h <;>
        simp [← h, Mode.bound]
    | cons c s =>
      have hdrop := length_drop_le s
      cases mode with
      | between =>
        simp only [splitFrom] at h
        split_ifs at h <;> have hle := ih h <;> simp only [Mode.bound, List.length_cons,
          List.length_nil] at hle ⊢ <;> have hn := hdrop (unescape s).2 <;> omega
      | bare w =>
        simp only [splitFrom] at h
        split_ifs at h with hspace hslash
        · obtain ⟨ws', hws', rfl⟩ := Option.map_eq_some_iff.mp h
          have hle := ih hws'
          simp only [Mode.bound, weight_cons, List.length_cons] at hle ⊢
          omega
        · have hle := ih h
          have hn := hdrop (unescape s).2
          simp only [Mode.bound, List.length_append, List.length_cons, List.length_nil] at hle ⊢
          omega
        · have hle := ih h
          simp only [Mode.bound, List.length_append, List.length_cons, List.length_nil] at hle ⊢
          omega
      | brace depth w =>
        simp only [splitFrom] at h
        split_ifs at h <;> have hle := ih h <;>
          simp only [Mode.bound, List.length_append, List.length_cons, List.length_nil,
            List.length_take, List.length_drop] at hle ⊢ <;> omega
      | quoted w =>
        simp only [splitFrom] at h
        have hn := hdrop (unescape s).2
        split_ifs at h <;> have hle := ih h <;>
          simp only [Mode.bound, List.length_append, List.length_cons, List.length_nil]
            at hle ⊢ <;> omega
      | after w =>
        simp only [splitFrom] at h
        split_ifs at h
        obtain ⟨ws', hws', rfl⟩ := Option.map_eq_some_iff.mp h
        have hle := ih hws'
        simp only [Mode.bound, weight_cons, List.length_cons] at hle ⊢
        omega

lemma bareWords_cons {w : Str} {ws : List Str} (hw : bareWord w = true)
    (hws : bareWords ws = true) : bareWords (w :: ws) = true := by
  cases ws with
  | nil => simp [bareWords, lastWord, hw]
  | cons v ws => simpa [bareWords, hw] using hws

lemma bareWord_append {w : Str} {c : Char} (hw : bareWord w = true) (hspace : ¬space c = true)
    (hslash : c ≠ '\\') : bareWord (w ++ [c]) = true := by
  simp only [bareWord, Bool.and_eq_true, decide_eq_true_eq, Bool.not_eq_true', ne_eq] at hw ⊢
  obtain ⟨⟨⟨hne, hany⟩, hbrace⟩, hquote⟩ := hw
  refine ⟨⟨⟨by simp, ?_⟩, ?_⟩, ?_⟩
  · rw [List.any_append, hany]
    simp [hspace, hslash]
  · rwa [List.head?_append_of_ne_nil _ hne]
  · rwa [List.head?_append_of_ne_nil _ hne]

lemma bareWord_singleton {c : Char} (hspace : ¬space c = true) (hslash : c ≠ '\\')
    (hbrace : c ≠ '{') (hquote : c ≠ '"') : bareWord [c] = true := by
  simp [bareWord, hspace, hslash, hbrace, hquote]

lemma unescape_pos {c : Char} {s : Str} : 0 < (unescape (c :: s)).2 := by
  unfold unescape
  split
  · simp_all
  all_goals dsimp only
  all_goals try split_ifs with hdigits
  all_goals first
    | exact Nat.one_pos
    | exact Nat.add_pos_left Nat.one_pos _
    | exact List.length_pos_iff.mpr hdigits

/-- Words that weigh as much as they can stand for themselves. -/
lemma bareWords_of_tight (fuel : ℕ) :
    (∀ s ws, splitFrom fuel .between s = some ws → weight ws = s.length + 1 →
      bareWords ws = true) ∧
    ∀ word s ws, bareWord word = true → splitFrom fuel (.bare word) s = some ws →
      weight ws = word.length + s.length + 1 → bareWords ws = true := by
  induction fuel with
  | zero =>
    constructor
    · intro s ws h htight
      cases s with
      | nil =>
        simp only [splitFrom, Option.some.injEq] at h
        simp [← h] at htight
      | cons c s => simp at h
    · intro word s ws hword h htight
      cases s with
      | nil =>
        simp only [splitFrom, Option.some.injEq] at h
        simp [← h, bareWords, lastWord, hword]
      | cons c s => simp at h
  | succ fuel ih =>
    obtain ⟨ihbetween, ihbare⟩ := ih
    constructor
    · intro s ws h htight
      cases s with
      | nil =>
        simp only [splitFrom, Option.some.injEq] at h
        simp [← h] at htight
      | cons c s =>
        simp only [splitFrom] at h
        rw [List.length_cons] at htight
        split_ifs at h with hspace hbrace hquote hslash
        · have hle := weight_le h
          simp only [Mode.bound] at hle
          omega
        · have hle := weight_le h
          simp only [Mode.bound, List.length_nil] at hle
          omega
        · have hle := weight_le h
          simp only [Mode.bound, List.length_nil] at hle
          omega
        · cases s with
          | nil =>
            simp only [unescape, List.drop_nil] at h
            cases fuel <;> simp only [splitFrom, Option.some.injEq] at h <;>
              simp [← h, bareWords, lastWord]
          | cons d s =>
            -- the backslash and what it stands for take more room than the character
            have hle := weight_le h
            have hpos := @unescape_pos d s
            simp only [Mode.bound, List.length_drop, List.length_cons, List.length_nil] at hle htight
            omega
        · exact ihbare [c] s ws (bareWord_singleton hspace hslash hbrace hquote) h
            (by rw [htight, List.length_singleton]; omega)
    · intro word s ws hword h htight
      cases s with
      | nil =>
        simp only [splitFrom, Option.some.injEq] at h
        simp [← h, bareWords, lastWord, hword]
      | cons c s =>
        simp only [splitFrom] at h
        rw [List.length_cons] at htight
        split_ifs at h with hspace hslash
        · obtain ⟨ws', hws', rfl⟩ := Option.map_eq_some_iff.mp h
          rw [weight_cons] at htight
          exact bareWords_cons hword (ihbetween s ws' hws' (by omega))
        · cases s with
          | nil =>
            simp only [unescape, List.drop_nil] at h
            cases fuel <;> simp only [splitFrom, Option.some.injEq] at h <;>
              simp [← h, bareWords, lastWord, hword]
          | cons d s =>
            have hle := weight_le h
            have hpos := @unescape_pos d s
            simp only [Mode.bound, List.length_append, List.length_drop, List.length_cons,
              List.length_nil] at hle htight
            omega
        · exact ihbare (word ++ [c]) s ws (bareWord_append hword hspace hslash) h
            (by rw [htight, List.length_append, List.length_singleton]; omega)

lemma splitFrom_bare {u : Str} (hu : ∀ c ∈ u, (space c || c = '\\') = false) (n : ℕ) (word t : Str) :
    splitFrom (u.length + n) (.bare word) (u ++ t) = splitFrom n (.bare (word ++ u)) t := by
  induction u generalizing word with
  | nil => simp
  | cons c u ih =>
    have hc := Bool.or_eq_false_iff.mp (hu c (by simp))
    have hcount : (c :: u).length + n = u.length + n + 1 := by
      rw [List.length_cons]
      omega
    rw [hcount, List.cons_append, splitFrom, if_neg (by simp [hc.1]),
      if_neg (by simpa using hc.2), ih (fun d hd => hu d (by simp [hd]))]
    simp

/-- A word of its own, read from where a word may begin. -/
lemma splitFrom_bareWord {w : Str} (hw : bareWord w = true) (n : ℕ) (t : Str) :
    splitFrom (w.length + n) .between (w ++ t) = splitFrom n (.bare w) t := by
  cases w with
  | nil => simp [bareWord] at hw
  | cons c u =>
    simp only [bareWord, Bool.and_eq_true, decide_eq_true_eq, Bool.not_eq_true', ne_eq,
      List.any_eq_false, List.head?_cons, Option.some.injEq] at hw
    obtain ⟨⟨⟨-, hany⟩, hbrace⟩, hquote⟩ := hw
    have hc : space c = false ∧ c ≠ '\\' := by simpa using hany c (by simp)
    have hcount : (c :: u).length + n = u.length + n + 1 := by
      rw [List.length_cons]
      omega
    rw [hcount, List.cons_append, splitFrom, if_neg (by simp [hc.1]), if_neg hbrace,
      if_neg hquote, if_neg hc.2,
      splitFrom_bare (fun d hd => by simpa using hany d (by simp [hd]))]
    rfl

lemma split_lastWord {w : Str} (hw : lastWord w = true) : split w = some [w] := by
  rcases Bool.or_eq_true_iff.mp hw with hbare | hslash
  · have hread := splitFrom_bareWord hbare 0 []
    rw [List.append_nil, Nat.add_zero] at hread
    rw [split, hread, splitFrom]
  · simp only [Bool.and_eq_true, decide_eq_true_eq, Bool.or_eq_true] at hslash
    obtain ⟨hlast, hfront⟩ := hslash
    obtain ⟨u, rfl⟩ := List.getLast?_eq_some_iff.mp hlast
    rw [List.dropLast_concat] at hfront
    rcases hfront with hone | hbare
    · have hnil : u = [] := by simpa using hone
      subst hnil
      rfl
    · rw [split, List.length_append, splitFrom_bareWord hbare]
      simp [space, unescape]

lemma length_join {w : Str} {ws : List Str} : (join (w :: ws)).length + 1 = weight (w :: ws) := by
  induction ws generalizing w with
  | nil => simp [join]
  | cons v ws ih =>
    rw [join, List.length_append, List.length_cons, weight_cons, ← ih]
    · omega
    · simp

lemma split_join {ws : List Str} (h : bareWords ws = true) : split (join ws) = some ws := by
  induction ws with
  | nil => rfl
  | cons w ws ih =>
    cases ws with
    | nil => exact split_lastWord h
    | cons v ws =>
      obtain ⟨hw, hws⟩ : bareWord w = true ∧ bareWords (v :: ws) = true := by
        simpa [bareWords] using h
      have hrest := ih hws
      rw [split] at hrest ⊢
      rw [join, List.length_append, splitFrom_bareWord hw, List.length_cons, splitFrom,
        if_pos (by decide), hrest]
      · rfl
      · simp

/-! ### Concatenation -/

def trimEnd (s : Str) : Str :=
  let t := (s.reverse.dropWhile space).reverse
  -- a space behind a backslash stays
  if t.length < s.length && t.getLast? = some '\\' then s.take (t.length + 1) else t

def trim (s : Str) : Str := trimEnd (s.dropWhile space)

/-- The arguments are trimmed, those that are left empty are left out. -/
def concatString (args : List Str) : Str := join ((args.map trim).filter (· ≠ []))

lemma length_dropWhile_le (p : Char → Bool) (s : Str) : (s.dropWhile p).length ≤ s.length :=
  (List.dropWhile_suffix p).length_le

lemma length_trim_le (s : Str) : (trim s).length ≤ s.length := by
  have hstart := length_dropWhile_le space s
  have hend := length_dropWhile_le space (s.dropWhile space).reverse
  rw [List.length_reverse] at hend
  unfold trim trimEnd
  dsimp only
  split_ifs with hkeep
  · rw [List.length_take]
    omega
  · rw [List.length_reverse]
    omega

lemma weight_trimmed_le (args : List Str) :
    weight ((args.map trim).filter (· ≠ [])) ≤ weight args := by
  induction args with
  | nil => rfl
  | cons a args ih =>
    have hle := length_trim_le a
    rw [List.map_cons, List.filter_cons]
    split_ifs <;> simp only [weight_cons] <;> omega

lemma trim_eq_self {s : Str} (h : ∀ c ∈ s, space c = false) : trim s = s := by
  have hkeep : ∀ t : Str, (∀ c ∈ t, space c = false) → t.dropWhile space = t := by
    intro t ht
    cases t with
    | nil => rfl
    | cons c t => rw [List.dropWhile_cons_of_neg (by simp [ht c (by simp)])]
  rw [trim, hkeep s h, trimEnd, hkeep s.reverse (fun c hc => h c (List.mem_reverse.mp hc)),
    List.reverse_reverse]
  simp

lemma bareWord_spaceless {w : Str} (h : bareWord w = true) : w ≠ [] ∧ ∀ c ∈ w, space c = false := by
  simp only [bareWord, Bool.and_eq_true, decide_eq_true_eq, Bool.not_eq_true', ne_eq,
    List.any_eq_false, Bool.or_eq_true, not_or, Bool.not_eq_true] at h
  exact ⟨h.1.1.1, fun c hc => (h.1.1.2 c hc).1⟩

lemma lastWord_spaceless {w : Str} (h : lastWord w = true) : w ≠ [] ∧ ∀ c ∈ w, space c = false := by
  rcases Bool.or_eq_true_iff.mp h with hbare | hslash
  · exact bareWord_spaceless hbare
  simp only [Bool.and_eq_true, decide_eq_true_eq, Bool.or_eq_true] at hslash
  obtain ⟨hlast, hfront⟩ := hslash
  obtain ⟨u, rfl⟩ := List.getLast?_eq_some_iff.mp hlast
  rw [List.dropLast_concat] at hfront
  have hu : ∀ c ∈ u, space c = false := by
    rcases hfront with hone | hbare
    · have hnil : u = [] := by simpa using hone
      simp [hnil]
    · exact (bareWord_spaceless hbare).2
  refine ⟨by simp, fun c hc => ?_⟩
  rcases List.mem_append.mp hc with hc | hc
  · exact hu c hc
  · rw [List.mem_singleton.mp hc]
    rfl

lemma bareWords_spaceless {ws : List Str} (h : bareWords ws = true) :
    ∀ w ∈ ws, w ≠ [] ∧ ∀ c ∈ w, space c = false := by
  induction ws with
  | nil => simp
  | cons w ws ih =>
    cases ws with
    | nil => simpa using lastWord_spaceless h
    | cons v ws =>
      obtain ⟨hw, hws⟩ : bareWord w = true ∧ bareWords (v :: ws) = true := by
        simpa [bareWords] using h
      exact List.forall_mem_cons.mpr ⟨bareWord_spaceless hw, ih hws⟩

/-- The words that are still the same ones after they were concatenated and split again. -/
theorem split_concatString_iff {ws : List Str} :
    split (concatString ws) = some ws ↔ bareWords ws = true := by
  constructor
  · intro h
    cases ws with
    | nil => rfl
    | cons w ws =>
      have htrimmed := weight_trimmed_le (w :: ws)
      have hle := weight_le h
      simp only [Mode.bound] at hle
      cases hkept : ((w :: ws).map trim).filter (· ≠ []) with
      | nil =>
        rw [concatString, hkept] at h
        simp [join, split] at h
      | cons v vs =>
        rw [hkept] at htrimmed
        have hlength : (concatString (w :: ws)).length + 1 = weight (v :: vs) := by
          rw [concatString, hkept, length_join]
        exact (bareWords_of_tight _).1 _ _ h (by omega)
  · intro h
    have hwords := bareWords_spaceless h
    have hkept : (ws.map trim).filter (· ≠ []) = ws := by
      rw [List.map_congr_left (fun w hw => trim_eq_self (hwords w hw).2), List.map_id',
        List.filter_eq_self]
      intro w hw
      simpa using (hwords w hw).1
    rw [concatString, hkept, split_join h]

end Turbine.Library.ListSyntax
