import Turbine.Library.ListSyntax

/-! The names of the resource variables: made from the base name of a file, with a number behind
it where the name is in use. -/

namespace Turbine.MkStatic

open Library.ListSyntax

/-! ### Glob patterns -/

/-- The rest of the pattern behind the entry of a character class that has the character. -/
def inClass (c : Char) : Str → Option Str
  | [] => none
  | ']' :: _ => none
  | [_, '-'] => none
  | lo :: '-' :: hi :: p =>
    if lo ≤ c ∧ c ≤ hi ∨ hi ≤ c ∧ c ≤ lo then some p else inClass c p
  | lo :: p => if lo = c then some p else inClass c p

def behindClass (p : Str) : Str := (p.dropWhile (· ≠ ']')).drop 1

def globMatch : ℕ → Str → Str → Bool
  | 0, _, _ => false
  | _ + 1, [], s => s = []
  | fuel + 1, '*' :: p, s => s.tails.any (globMatch fuel p)
  | _ + 1, _ :: _, [] => false
  | fuel + 1, '?' :: p, _ :: s => globMatch fuel p s
  | fuel + 1, '[' :: p, c :: s =>
    match inClass c p with
    | none => false
    | some p => globMatch fuel (behindClass p) s
  | _ + 1, ['\\'], _ => false
  | fuel + 1, '\\' :: d :: p, c :: s => d = c && globMatch fuel p s
  | fuel + 1, d :: p, c :: s => d = c && globMatch fuel p s

def stringMatch (pattern s : Str) : Bool := globMatch (pattern.length + 1) pattern s

/-- `lsearch list pattern`, which takes the name for a glob pattern. -/
def lsearch (list : List Str) (pattern : Str) : Bool := list.any (stringMatch pattern)

lemma globMatch_literal {p : Str} (hp : ∀ c ∈ p, c ≠ '*' ∧ c ≠ '?' ∧ c ≠ '[' ∧ c ≠ '\\') {fuel : ℕ}
    (hfuel : p.length < fuel) (s : Str) : globMatch fuel p s = decide (p = s) := by
  induction p generalizing fuel s with
  | nil =>
    cases fuel with
    | zero => simp at hfuel
    | succ fuel => simp [globMatch, eq_comm]
  | cons d p ih =>
    obtain ⟨hstar, hmark, hclass, hslash⟩ := hp d (by simp)
    cases fuel with
    | zero => simp at hfuel
    | succ fuel =>
      cases s with
      | nil => simp [globMatch]
      | cons c s =>
        rw [List.length_cons] at hfuel
        rw [globMatch, ih (fun e he => hp e (by simp [he])) (by omega)]
        · simp
        all_goals simp [*]

/-! ### File names -/

/-- The components of a path with where they begin. -/
def components : ℕ → Str → Str → List (ℕ × Str)
  | start, name, [] => if name = [] then [] else [(start, name)]
  | start, name, '/' :: s =>
    if name = [] then components (start + 1) [] s
    else (start, name) :: components (start + name.length + 1) [] s
  | start, name, c :: s => components start (name ++ [c]) s

/-- `file tail`. A component that begins with a tilde is a home directory in front, and is not
taken for one elsewhere. -/
def fileTail (path : Str) : Str :=
  match (components 0 [] path).getLast? with
  | none => []
  | some (start, name) =>
    if name.head? = some '~' then if start = 0 then [] else '.' :: '/' :: name else name

def fileBaseVarname (fname : Str) : Str :=
  (fileTail fname).map fun c => if c = '.' || c = '-' then '_' else c

def bundledFileBasename (path : Str) : Str := fileTail path

/-! ### Variables -/

def numbered (basename : Str) : ℕ → Str
  | 0 => basename
  | attempt + 1 => basename ++ '_' :: Nat.toDigits 10 (attempt + 1)

def unusedFrom (usedNames : List Str) (basename : Str) : ℕ → ℕ → Option Str
  | 0, _ => none
  | fuel + 1, attempt =>
    if lsearch usedNames (numbered basename attempt) then
      unusedFrom usedNames basename fuel (attempt + 1)
    else some (numbered basename attempt)

inductive Err
  | attempts
  | badList
  | duplicateBaseName (name : Str)
  deriving DecidableEq

structure Options where
  resourceVarPrefix : Str
  -- ensured by `main`
  nonempty : resourceVarPrefix ≠ []

def Options.basename (opts : Options) (fname : Str) : Str :=
  opts.resourceVarPrefix ++ fileBaseVarname fname

/-- `spare` is what the loop may try beyond one name more than are in use. -/
def varnameFromFile (spare : ℕ) (opts : Options) (fname : Str) (usedNames : List Str) :
    Except Err Str :=
  match unusedFrom usedNames (opts.basename fname) (usedNames.length + 1 + spare) 0 with
  | none => .error .attempts
  | some name => .ok name

/-- The loop over files in which every name is added to those in use. -/
def varnames (spare : ℕ) (opts : Options) : List Str → List Str → Except Err (List Str)
  | _, [] => .ok []
  | used, fname :: files => do
    let name ← varnameFromFile spare opts fname used
    let names ← varnames spare opts (used ++ [name]) files
    return name :: names

/-! ### Identifiers -/

def identifierChar (c : Char) : Bool := c.isAlphanum || c = '_'

def identifierShape : Str → Bool
  | [] => false
  | c :: s => (c.isAlpha || c = '_') && s.all identifierChar

def keywords : List Str :=
  ["auto", "break", "case", "char", "const", "continue", "default", "do", "double", "else", "enum",
    "extern", "float", "for", "goto", "if", "inline", "int", "long", "register", "restrict",
    "return", "short", "signed", "sizeof", "static", "struct", "switch", "typedef", "union",
    "unsigned", "void", "volatile", "while", "_Alignas", "_Alignof", "_Atomic", "_Bool",
    "_Complex", "_Generic", "_Imaginary", "_Noreturn", "_Static_assert",
    "_Thread_local"].map String.toList

def identifier (s : Str) : Bool := identifierShape s && !keywords.contains s

def mainScriptString : Str := "__turbine_tcl_main".toList

/-- A name for a variable next to that of the main script. -/
def resourceName (s : Str) : Bool := identifier s && s ≠ mainScriptString

lemma identifierShape_mem {s : Str} (h : identifierShape s = true) :
    ∀ c ∈ s, identifierChar c = true := by
  cases s with
  | nil => simp
  | cons c s =>
    simp only [identifierShape, Bool.and_eq_true, List.all_eq_true] at h
    obtain ⟨hc, hs⟩ := h
    refine List.forall_mem_cons.mpr ⟨?_, hs⟩
    rcases Bool.or_eq_true_iff.mp hc with hc | hc
    · simp [identifierChar, Char.isAlphanum, hc]
    · simp [identifierChar, of_decide_eq_true hc]

lemma identifierShape_append {s t : Str} (hs : s ≠ []) :
    identifierShape (s ++ t) = (identifierShape s && t.all identifierChar) := by
  cases s with
  | nil => contradiction
  | cons c s => simp [identifierShape, List.all_append, Bool.and_assoc]

lemma identifierChar_of_mem_toDigits {n : ℕ} {c : Char} (h : c ∈ Nat.toDigits 10 n) :
    identifierChar c = true := by
  have hdigit := Nat.isDigit_of_mem_toDigits (by omega) (by omega) h
  simp [identifierChar, Char.isAlphanum, hdigit]

lemma identifierShape_numbered {s : Str} (hs : s ≠ []) (attempt : ℕ) :
    identifierShape (numbered s attempt) = identifierShape s := by
  cases attempt with
  | zero => rfl
  | succ attempt =>
    have hdigits : (Nat.toDigits 10 (attempt + 1)).all identifierChar = true :=
      List.all_eq_true.mpr fun c hc => identifierChar_of_mem_toDigits hc
    have hunderscore : identifierChar '_' = true := rfl
    rw [numbered, identifierShape_append hs, List.all_cons, hdigits, hunderscore]
    simp

lemma identifierShape_ne_nil {s : Str} (h : identifierShape s = true) : s ≠ [] := by
  rintro rfl
  exact absurd h (by decide)

/-- No name that is taken ends in a digit. -/
def reserved : List Str := mainScriptString :: keywords

lemma resourceName_iff {s : Str} :
    resourceName s = true ↔ identifierShape s = true ∧ s ∉ reserved := by
  simp [resourceName, identifier, reserved, and_assoc, and_comm]

lemma reserved_last : reserved.all (fun s => !s.getLast?.any Char.isDigit) = true := by
  rfl

lemma numbered_notMem_reserved (s : Str) (attempt : ℕ) : numbered s (attempt + 1) ∉ reserved := by
  intro hmem
  have hlast : ∀ c, (numbered s (attempt + 1)).getLast? = some c → c.isDigit = true := by
    intro c hc
    have hne : Nat.toDigits 10 (attempt + 1) ≠ [] := Nat.toDigits_ne_nil
    rw [numbered, List.getLast?_append_of_ne_nil _ (by simp), List.getLast?_cons,
      List.getLast?_eq_some_getLast hne, Option.getD_some] at hc
    cases hc
    exact Nat.isDigit_of_mem_toDigits (by omega) (by omega) (List.getLast_mem hne)
  have hreserved := List.all_eq_true.mp reserved_last _ hmem
  cases hc : (numbered s (attempt + 1)).getLast? with
  | none => simp [numbered] at hc
  | some c => simp [hc, hlast c hc] at hreserved

lemma stringMatch_iff {p s : Str} (hp : identifierShape p = true) :
    stringMatch p s = true ↔ p = s := by
  rw [stringMatch, globMatch_literal _ (Nat.lt_succ_self _), decide_eq_true_eq]
  intro c hc
  have hchar := identifierShape_mem hp c hc
  refine ⟨?_, ?_, ?_, ?_⟩ <;> rintro rfl <;> exact absurd hchar (by decide)

lemma numbered_injective {s : Str} {i j : ℕ} (h : numbered s i = numbered s j) : i = j := by
  have hlength := congrArg List.length h
  cases i with
  | zero =>
    cases j with
    | zero => rfl
    | succ j => simp [numbered] at hlength
  | succ i =>
    cases j with
    | zero => simp [numbered] at hlength
    | succ j =>
      simp only [numbered, List.append_cancel_left_eq, List.cons.injEq, true_and] at h
      have hvalue := congrArg (fun digits => Nat.ofDigitChars 10 digits 0) h
      simpa using hvalue

/-! ### Allocation -/

lemma unusedFrom_eq_some {used : List Str} {base name : Str} {fuel attempt : ℕ}
    (h : unusedFrom used base fuel attempt = some name) :
    ∃ i ≥ attempt, name = numbered base i ∧ lsearch used name = false ∧
      ∀ j, attempt ≤ j → j < i → lsearch used (numbered base j) = true := by
  induction fuel generalizing attempt with
  | zero => simp [unusedFrom] at h
  | succ fuel ih =>
    rw [unusedFrom] at h
    split_ifs at h with hused
    · obtain ⟨i, hi, hname, hfree, hbefore⟩ := ih h
      refine ⟨i, by omega, hname, hfree, fun j hj hlt => ?_⟩
      rcases Nat.eq_or_lt_of_le hj with rfl | hj
      · exact hused
      · exact hbefore j hj hlt
    · cases h
      exact ⟨attempt, le_rfl, rfl, by simpa using hused, fun j hj hlt => by omega⟩

lemma unusedFrom_eq_none {used : List Str} {base : Str} {fuel attempt : ℕ}
    (h : unusedFrom used base fuel attempt = none) :
    ∀ i < fuel, lsearch used (numbered base (attempt + i)) = true := by
  induction fuel generalizing attempt with
  | zero => simp
  | succ fuel ih =>
    rw [unusedFrom] at h
    split_ifs at h with hused
    intro i hi
    cases i with
    | zero => exact hused
    | succ i =>
      have hnext := ih h i (by omega)
      rwa [Nat.add_right_comm] at hnext

lemma lsearch_iff {used : List Str} {name : Str} (h : identifierShape name = true) :
    lsearch used name = true ↔ name ∈ used := by
  simp [lsearch, stringMatch_iff h]

/-- One name more than are in use cannot all be in use. -/
lemma unusedFrom_isSome {used : List Str} {base : Str} (hbase : identifierShape base = true)
    (spare : ℕ) : ∃ name, unusedFrom used base (used.length + 1 + spare) 0 = some name := by
  cases h : unusedFrom used base (used.length + 1 + spare) 0 with
  | some name => exact ⟨name, rfl⟩
  | none =>
    have hshape : ∀ i, identifierShape (numbered base i) = true := fun i => by
      rw [identifierShape_numbered (identifierShape_ne_nil hbase), hbase]
    have hused : (List.range (used.length + 1)).map (numbered base) ⊆ used := by
      intro name hname
      obtain ⟨i, hi, rfl⟩ := List.mem_map.mp hname
      have hi := List.mem_range.mp hi
      have hsearch := unusedFrom_eq_none h i (by omega)
      rw [Nat.zero_add] at hsearch
      exact (lsearch_iff (hshape i)).mp hsearch
    have hnodup : ((List.range (used.length + 1)).map (numbered base)).Nodup :=
      List.nodup_range.map fun i j => numbered_injective
    have hle := (hnodup.subperm hused).length_le
    simp at hle

lemma basename_ne_nil (opts : Options) (fname : Str) : opts.basename fname ≠ [] := by
  simp [Options.basename, opts.nonempty]

/-- The name is a good one only if the file's own is: a number is put behind a name that is in
use, and none in use is reserved. -/
lemma resourceName_basename {spare : ℕ} {opts : Options} {fname name : Str} {used : List Str}
    (h : varnameFromFile spare opts fname used = .ok name)
    (hused : ∀ u ∈ used, resourceName u = true) (hname : resourceName name = true) :
    resourceName (opts.basename fname) = true := by
  rw [varnameFromFile] at h
  cases hsearch : unusedFrom used (opts.basename fname) (used.length + 1 + spare) 0 with
  | none => simp [hsearch] at h
  | some found =>
    rw [hsearch] at h
    cases h
    obtain ⟨i, -, rfl, hfree, hbefore⟩ := unusedFrom_eq_some hsearch
    cases i with
    | zero => exact hname
    | succ i =>
      have hshape := (resourceName_iff.mp hname).1
      rw [identifierShape_numbered (basename_ne_nil opts fname)] at hshape
      have hmem := hbefore 0 le_rfl (Nat.succ_pos i)
      exact hused _ ((lsearch_iff hshape).mp hmem)

lemma varnameFromFile_ok (spare : ℕ) {opts : Options} {fname : Str} {used : List Str}
    (h : resourceName (opts.basename fname) = true) :
    ∃ name, varnameFromFile spare opts fname used = .ok name ∧ name ∉ used ∧
      resourceName name = true := by
  obtain ⟨hshape, hreserved⟩ := resourceName_iff.mp h
  obtain ⟨name, hsearch⟩ := @unusedFrom_isSome used _ hshape spare
  obtain ⟨i, -, rfl, hfree, -⟩ := unusedFrom_eq_some hsearch
  have hname : identifierShape (numbered (opts.basename fname) i) = true := by
    rw [identifierShape_numbered (basename_ne_nil opts fname), hshape]
  refine ⟨_, by rw [varnameFromFile, hsearch], fun hmem => ?_, resourceName_iff.mpr ⟨hname, ?_⟩⟩
  · rw [(lsearch_iff hname).mpr hmem] at hfree
    cases hfree
  · cases i with
    | zero => exact hreserved
    | succ i => exact numbered_notMem_reserved _ i

lemma varnames_resourceName {spare : ℕ} {opts : Options} {files names used : List Str}
    (h : varnames spare opts used files = .ok names) (hused : ∀ u ∈ used, resourceName u = true)
    (hnames : ∀ v ∈ names, resourceName v = true) :
    ∀ f ∈ files, resourceName (opts.basename f) = true := by
  induction files generalizing used names with
  | nil => simp
  | cons fname files ih =>
    rw [varnames] at h
    cases hname : varnameFromFile spare opts fname used with
    | error e => simp [hname, bind, Except.bind] at h
    | ok name =>
      cases hrest : varnames spare opts (used ++ [name]) files with
      | error e => simp [hname, hrest, bind, Except.bind] at h
      | ok rest =>
        simp only [hname, hrest, bind, Except.bind, pure, Except.pure, Except.ok.injEq] at h
        subst h
        obtain ⟨hfirst, hothers⟩ := List.forall_mem_cons.mp hnames
        refine List.forall_mem_cons.mpr ⟨resourceName_basename hname hused hfirst, ?_⟩
        refine ih hrest ?_ hothers
        intro u hu
        rcases List.mem_append.mp hu with hu | hu
        · exact hused u hu
        · rwa [List.mem_singleton.mp hu]

lemma varnames_ok (spare : ℕ) {opts : Options} {files used : List Str}
    (h : ∀ f ∈ files, resourceName (opts.basename f) = true) (hused : used.Nodup) :
    ∃ names, varnames spare opts used files = .ok names ∧ (used ++ names).Nodup ∧
      ∀ v ∈ names, resourceName v = true := by
  induction files generalizing used with
  | nil => exact ⟨[], rfl, by simpa using hused, by simp⟩
  | cons fname files ih =>
    obtain ⟨hfirst, hothers⟩ := List.forall_mem_cons.mp h
    obtain ⟨name, hname, hfresh, hvalid⟩ := @varnameFromFile_ok spare opts fname used hfirst
    have hnext : (used ++ [name]).Nodup := by
      rw [← List.concat_eq_append]
      exact hused.concat hfresh
    obtain ⟨names, hnames, hnodup, hall⟩ := ih hothers hnext
    refine ⟨name :: names, ?_, by simpa using hnodup, List.forall_mem_cons.mpr ⟨hvalid, hall⟩⟩
    simp [varnames, hname, hnames, bind, Except.bind, pure, Except.pure]

lemma varnames_length {spare : ℕ} {opts : Options} {files names used : List Str}
    (h : varnames spare opts used files = .ok names) : names.length = files.length := by
  induction files generalizing used names with
  | nil =>
    cases h
    rfl
  | cons fname files ih =>
    rw [varnames] at h
    cases hname : varnameFromFile spare opts fname used with
    | error e => simp [hname, bind, Except.bind] at h
    | ok name =>
      cases hrest : varnames spare opts (used ++ [name]) files with
      | error e => simp [hname, hrest, bind, Except.bind] at h
      | ok rest =>
        simp only [hname, hrest, bind, Except.bind, pure, Except.pure, Except.ok.injEq] at h
        subst h
        simp [ih hrest]

lemma varnames_append {spare : ℕ} {opts : Options} (used files others : List Str) :
    varnames spare opts used (files ++ others) = do
      let names ← varnames spare opts used files
      let rest ← varnames spare opts (used ++ names) others
      return names ++ rest := by
  induction files generalizing used with
  | nil =>
    simp only [List.nil_append, varnames]
    cases h : varnames spare opts used others <;> simp [h, bind, Except.bind, pure, Except.pure]
  | cons fname files ih =>
    simp only [List.cons_append, varnames, ih, bind_assoc, pure_bind, List.append_assoc]
    rfl

end Turbine.MkStatic
