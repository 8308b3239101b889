import Turbine.Library.MapM
import Turbine.MkStatic.Names

/-! What the generated C text declares, defines and evaluates, and when every embedded file has
its own variable. -/

namespace Turbine.MkStatic

open Library Library.ListSyntax

/-! ### The generated text -/

structure Manifest where
  mainScript : Str
  libScripts : List Str
  -- empty ones are left out by `read_manifest`
  libScripts_ne : [] ∉ libScripts
  bundledFiles : List Str

inductive Lib
  | file (srcFile : Str)
  | package (name version : Str) (srcFiles : List Str)

def Lib.srcFiles : Lib → List Str
  | .file srcFile => [srcFile]
  | .package _ _ srcFiles => srcFiles

def Lib.isPackage : Lib → Bool
  | .file _ => false
  | .package .. => true

/-- `foreach` over two lists; what is missing in the shorter one is empty. -/
def foreach2 : List Str → List Str → List (Str × Str)
  | [], fs => fs.map ([], ·)
  | v :: vs, fs => (v, fs.headD []) :: foreach2 vs fs.tail

/-- `concat $lists {*}$words`, read as a list: each of the lists is one element, and the words
are split again. -/
def concat (lists : List (List Str)) (words : List Str) : Except Err (List Str) :=
  match split (concatString words) with
  | none => .error .badList
  | some words => .ok (lists.map listString ++ words)

def initLibSrcVars (spare : ℕ) (opts : Options) :
    List Str → List Lib → Except Err (List (List Str))
  | _, [] => .ok []
  | used, lib :: libs => do
    let srcVars ← varnames spare opts used lib.srcFiles
    let rest ← initLibSrcVars spare opts (used ++ srcVars) libs
    return srcVars :: rest

/-- The base name of a file is compared with `bundledBasenames` and not added to it. -/
def bundledVarnames (spare : ℕ) (opts : Options) (bundledBasenames : List Str) :
    List Str → List Str → Except Err (List Str)
  | _, [] => .ok []
  | used, bundledFile :: files => do
    let bundledVar ← varnameFromFile spare opts bundledFile used
    if bundledBasenames.contains (bundledFileBasename bundledFile) then
      .error (.duplicateBaseName (bundledFileBasename bundledFile))
    else do
      let rest ← bundledVarnames spare opts bundledBasenames (used ++ [bundledVar]) files
      return bundledVar :: rest

/-- The parts of the text that name resource variables, each variable with its file. -/
structure CText where
  resourceDecls : List (Str × Str)
  bundledFileData : List Str
  bundledFileNames : List Str
  pkgInitFns : List (List (Str × Str))
  tclLibInit : List (Str × Str)
  resourceData : List (Str × Str)

/-- The template with its placeholders replaced. -/
def fillPlaceholders (manifest : Manifest) (libs : List (List Str × Lib))
    (libScriptVars bundledVars allSrcVars allSrcFiles : List Str) : CText where
  resourceDecls := foreach2 allSrcVars allSrcFiles ++ foreach2 bundledVars manifest.bundledFiles
  bundledFileData := bundledVars
  bundledFileNames := manifest.bundledFiles.map bundledFileBasename
  pkgInitFns := (libs.filter (·.2.isPackage)).map (fun lib => foreach2 lib.1 lib.2.srcFiles) ++
    [foreach2 libScriptVars manifest.libScripts]
  tclLibInit := (libs.filter (!·.2.isPackage)).flatMap fun lib => foreach2 lib.1 lib.2.srcFiles
  resourceData := foreach2 allSrcVars allSrcFiles ++ foreach2 bundledVars manifest.bundledFiles

def fillCTemplate (spare : ℕ) (opts : Options) (manifest : Manifest) (initLibSrc : List Lib) :
    Except Err CText := do
  let libVars ← initLibSrcVars spare opts [] initLibSrc
  let libScriptVars ← varnames spare opts libVars.flatten manifest.libScripts
  let bundledVars ← bundledVarnames spare opts [] (libVars.flatten ++ libScriptVars)
    manifest.bundledFiles
  let allSrcVars ← concat libVars libScriptVars
  let allSrcFiles ← concat (initLibSrc.map Lib.srcFiles) manifest.libScripts
  return fillPlaceholders manifest (libVars.zip initLibSrc) libScriptVars bundledVars allSrcVars
    allSrcFiles

def Manifest.mainScripts (manifest : Manifest) : List Str :=
  if manifest.mainScript ≠ [] then [manifest.mainScript] else []

def scriptsWord : Str := "scripts".toList

/-- The files in the dependency file. For a package it is the word `scripts` itself. -/
def writeDepsFile (manifest : Manifest) (initLibSrc : List Lib) : List Str :=
  manifest.libScripts ++ manifest.mainScripts ++ initLibSrc.flatMap fun lib =>
    match lib with
    | .file srcFile => [srcFile]
    | .package _ _ _ => [scriptsWord]

/-! ### What is asked of it -/

def sourceFiles (manifest : Manifest) (libs : List Lib) : List Str :=
  libs.flatMap Lib.srcFiles ++ manifest.libScripts

def CText.evaluated (text : CText) : List (Str × Str) := text.pkgInitFns.flatten ++ text.tclLibInit

/-- Each file has a variable of its own, next to that of the main script. -/
structure Embeds (manifest : Manifest) (libs : List Lib) (text : CText) : Prop where
  files : text.resourceDecls.map Prod.snd = sourceFiles manifest libs ++ manifest.bundledFiles
  defined : text.resourceData = text.resourceDecls
  distinct : (mainScriptString :: text.resourceDecls.map Prod.fst).Nodup
  identifiers : ∀ v ∈ text.resourceDecls.map Prod.fst, identifier v = true
  evaluated : ∀ v ∈ text.evaluated.map Prod.fst, v ∈ text.resourceDecls.map Prod.fst

def Meets (spare : ℕ) (opts : Options) (manifest : Manifest) (libs : List Lib) : Prop :=
  (if (manifest.bundledFiles.map bundledFileBasename).Nodup then
    ∃ text, fillCTemplate spare opts manifest libs = .ok text ∧ Embeds manifest libs text
  else ∃ name, fillCTemplate spare opts manifest libs = .error (.duplicateBaseName name)) ∧
  ∀ f ∈ sourceFiles manifest libs ++ manifest.mainScripts, f ∈ writeDepsFile manifest libs

/-- One file in every package, and no name that a list or a C text would have to quote. -/
structure Embeddable (opts : Options) (manifest : Manifest) (libs : List Lib) : Prop where
  single : ∀ lib ∈ libs, ∃ f, lib.srcFiles = [f] ∧ plain true f = true
  scripts : bareWords manifest.libScripts = true
  names : ∀ f ∈ sourceFiles manifest libs ++ manifest.bundledFiles,
    resourceName (opts.basename f) = true
  basenames : (manifest.bundledFiles.map bundledFileBasename).Nodup
  deps : ∀ lib ∈ libs, lib.isPackage = true → ∀ f ∈ lib.srcFiles,
    f ∈ manifest.libScripts ∨ f ∈ manifest.mainScripts ∨ .file f ∈ libs ∨ f = scriptsWord

/-! ### Pairs of variables and files -/

lemma foreach2_eq_zip {vs fs : List Str} (h : vs.length = fs.length) :
    foreach2 vs fs = vs.zip fs := by
  induction vs generalizing fs with
  | nil =>
    rw [List.length_eq_zero_iff.mp h.symm]
    rfl
  | cons v vs ih =>
    cases fs with
    | nil => simp at h
    | cons f fs =>
      rw [foreach2, List.tail_cons, ih (by simpa using h), List.zip_cons_cons, List.headD_cons]

lemma mem_foreach2 {vs fs : List Str} {v : Str} (hv : v ∈ vs) :
    v ∈ (foreach2 vs fs).map Prod.fst := by
  induction vs generalizing fs with
  | nil => simp at hv
  | cons u vs ih =>
    rw [foreach2, List.map_cons]
    rcases List.mem_cons.mp hv with rfl | hv
    · exact .head _
    · exact .tail _ (ih hv)

/-- Where no variable is missing, the files are padded. -/
lemma foreach2_snd {vs fs : List Str} (h : [] ∉ (foreach2 vs fs).map Prod.fst) :
    ∃ n, (foreach2 vs fs).map Prod.snd = fs ++ List.replicate n [] := by
  induction vs generalizing fs with
  | nil =>
    cases fs with
    | nil => exact ⟨0, rfl⟩
    | cons f fs => simp [foreach2] at h
  | cons v vs ih =>
    rw [foreach2, List.map_cons, List.mem_cons, not_or] at h
    obtain ⟨n, hn⟩ := ih h.2
    cases fs with
    | nil => exact ⟨n + 1, by rw [foreach2, List.map_cons, hn]; rfl⟩
    | cons f fs => exact ⟨n, by rw [foreach2, List.map_cons, hn]; rfl⟩

/-! ### The lists of variables -/

lemma bundledVarnames_nil (spare : ℕ) (opts : Options) (used files : List Str) :
    bundledVarnames spare opts [] used files = varnames spare opts used files := by
  induction files generalizing used with
  | nil => rfl
  | cons f files ih => simp [bundledVarnames, varnames, ih]

lemma initLibSrcVars_flatten (spare : ℕ) (opts : Options) (used : List Str) (libs : List Lib) :
    (initLibSrcVars spare opts used libs).map List.flatten =
      varnames spare opts used (libs.flatMap Lib.srcFiles) := by
  induction libs generalizing used with
  | nil => rfl
  | cons lib libs ih =>
    rw [List.flatMap_cons, varnames_append, initLibSrcVars]
    cases hvars : varnames spare opts used lib.srcFiles with
    | error e => rfl
    | ok vars =>
      have hrest := ih (used ++ vars)
      cases hlibs : initLibSrcVars spare opts (used ++ vars) libs with
      | error e =>
        rw [hlibs] at hrest
        simp [hlibs, ← hrest, bind, Except.bind, Except.map]
      | ok rest =>
        rw [hlibs] at hrest
        simp [hlibs, ← hrest, bind, Except.bind, Except.map, pure, Except.pure]

lemma initLibSrcVars_length {spare : ℕ} {opts : Options} {used : List Str} {libs : List Lib}
    {libVars : List (List Str)} (h : initLibSrcVars spare opts used libs = .ok libVars) :
    List.Forall₂ (fun vars lib => vars.length = lib.srcFiles.length) libVars libs := by
  induction libs generalizing used libVars with
  | nil =>
    cases h
    exact .nil
  | cons lib libs ih =>
    rw [initLibSrcVars] at h
    cases hvars : varnames spare opts used lib.srcFiles with
    | error e => simp [hvars, bind, Except.bind] at h
    | ok vars =>
      cases hrest : initLibSrcVars spare opts (used ++ vars) libs with
      | error e => simp [hvars, hrest, bind, Except.bind] at h
      | ok rest =>
        simp only [hvars, hrest, bind, Except.bind, pure, Except.pure, Except.ok.injEq] at h
        subst h
        exact .cons (varnames_length hvars) (ih hrest)

/-- Every variable that was allocated for a library is evaluated. -/
lemma mem_flatten_iff {libVars : List (List Str)} {libs : List Lib}
    (h : List.Forall₂ (fun vars lib => vars.length = lib.srcFiles.length) libVars libs) (v : Str) :
    v ∈ libVars.flatten ↔
      ∃ lib ∈ libVars.zip libs, v ∈ (foreach2 lib.1 lib.2.srcFiles).map Prod.fst := by
  induction h with
  | nil => simp
  | @cons vars lib libVars libs hlength hrest ih =>
    have hvars : v ∈ vars ↔ v ∈ (foreach2 vars lib.srcFiles).map Prod.fst := by
      rw [foreach2_eq_zip hlength, List.map_fst_zip hlength.le]
    rw [List.flatten_cons, List.mem_append, ih, hvars, List.zip_cons_cons]
    simp

/-- What the template is filled with, once all names are found and all lists are read. -/
structure Filled (spare : ℕ) (opts : Options) (manifest : Manifest) (libs : List Lib)
    (text : CText) where
  libVars : List (List Str)
  scriptVars : List Str
  bundledVars : List Str
  varWords : List Str
  fileWords : List Str
  vars : varnames spare opts [] (sourceFiles manifest libs ++ manifest.bundledFiles) =
    .ok (libVars.flatten ++ scriptVars ++ bundledVars)
  lengths : List.Forall₂ (fun vars lib => vars.length = lib.srcFiles.length) libVars libs
  bundledLength : bundledVars.length = manifest.bundledFiles.length
  varSplit : split (concatString scriptVars) = some varWords
  fileSplit : split (concatString manifest.libScripts) = some fileWords
  decls : text.resourceDecls =
    foreach2 (libVars.map listString ++ varWords)
      ((libs.map Lib.srcFiles).map listString ++ fileWords) ++
      bundledVars.zip manifest.bundledFiles
  data : text.resourceData = text.resourceDecls
  evaluated : ∀ v, v ∈ text.evaluated.map Prod.fst ↔ v ∈ libVars.flatten ++ scriptVars

lemma varnames_error {spare : ℕ} {opts : Options} {used files : List Str} {e : Err}
    (h : varnames spare opts used files = .error e) : e = .attempts := by
  induction files generalizing used with
  | nil => simp [varnames] at h
  | cons f files ih =>
    rw [varnames] at h
    cases hname : varnameFromFile spare opts f used with
    | error e' =>
      have he' : e' = .attempts := by
        rw [varnameFromFile] at hname
        split at hname <;> cases hname
        rfl
      simpa [hname, bind, Except.bind, he', eq_comm] using h
    | ok name =>
      cases hrest : varnames spare opts (used ++ [name]) files with
      | error e' =>
        simp only [hname, hrest, bind, Except.bind, Except.error.injEq] at h
        exact ih (h ▸ hrest)
      | ok names => simp [hname, hrest, bind, Except.bind, pure, Except.pure] at h

/-- Why nothing is generated: no name is found, or a list cannot be read. -/
inductive Fails (spare : ℕ) (opts : Options) (manifest : Manifest) (libs : List Lib) : Err → Prop
  | names (h : ∀ names,
      varnames spare opts [] (sourceFiles manifest libs ++ manifest.bundledFiles) ≠ .ok names) :
      Fails spare opts manifest libs .attempts
  | vars (names scriptVars : List Str)
      (h : varnames spare opts [] (sourceFiles manifest libs ++ manifest.bundledFiles) = .ok names)
      (hsub : scriptVars ⊆ names) (hsplit : split (concatString scriptVars) = none) :
      Fails spare opts manifest libs .badList
  | files (hsplit : split (concatString manifest.libScripts) = none) :
      Fails spare opts manifest libs .badList

lemma evaluated_iff {manifest : Manifest} {libs : List Lib} {libVars : List (List Str)}
    {scriptVars : List Str}
    (hlib : List.Forall₂ (fun vars lib => vars.length = lib.srcFiles.length) libVars libs)
    (hscripts : scriptVars.length = manifest.libScripts.length)
    (bundledVars allSrcVars allSrcFiles : List Str) (v : Str) :
    v ∈ (fillPlaceholders manifest (libVars.zip libs) scriptVars bundledVars allSrcVars
        allSrcFiles).evaluated.map Prod.fst ↔ v ∈ libVars.flatten ++ scriptVars := by
  have hscriptVars : v ∈ scriptVars ↔
      v ∈ (foreach2 scriptVars manifest.libScripts).map Prod.fst := by
    rw [foreach2_eq_zip hscripts, List.map_fst_zip hscripts.le]
  have hsplit : v ∈ libVars.flatten ↔
      (∃ lib ∈ libVars.zip libs, lib.2.isPackage = true ∧
        v ∈ (foreach2 lib.1 lib.2.srcFiles).map Prod.fst) ∨
      ∃ lib ∈ libVars.zip libs, lib.2.isPackage = false ∧
        v ∈ (foreach2 lib.1 lib.2.srcFiles).map Prod.fst := by
    rw [mem_flatten_iff hlib]
    constructor
    · rintro ⟨lib, hlib, hv⟩
      cases hkind : lib.2.isPackage
      · exact .inr ⟨lib, hlib, hkind, hv⟩
      · exact .inl ⟨lib, hlib, hkind, hv⟩
    · rintro (⟨lib, hlib, -, hv⟩ | ⟨lib, hlib, -, hv⟩) <;> exact ⟨lib, hlib, hv⟩
  rw [List.mem_append, hsplit, hscriptVars]
  simp only [CText.evaluated, fillPlaceholders, List.flatten_append, List.map_append,
    List.mem_append, List.flatten_singleton, List.map_flatten, List.mem_flatten, List.map_map,
    List.mem_map, List.mem_filter, List.map_flatMap, List.mem_flatMap, Bool.not_eq_true',
    Function.comp_apply]
  constructor
  · rintro ((⟨_, ⟨lib, ⟨hlib, hkind⟩, rfl⟩, hv⟩ | hv) | ⟨lib, ⟨hlib, hkind⟩, hv⟩)
    · exact .inl (.inl ⟨lib, hlib, hkind, List.mem_map.mp hv⟩)
    · exact .inr hv
    · exact .inl (.inr ⟨lib, hlib, hkind, hv⟩)
  · rintro ((⟨lib, hlib, hkind, hv⟩ | ⟨lib, hlib, hkind, hv⟩) | hv)
    · exact .inl (.inl ⟨_, ⟨lib, ⟨hlib, hkind⟩, rfl⟩, List.mem_map.mpr hv⟩)
    · exact .inr ⟨lib, ⟨hlib, hkind⟩, hv⟩
    · exact .inl (.inr hv)

/-- What `fillCTemplate` does: it fails in one of these ways or fills in the template. -/
lemma fillCTemplate_cases (spare : ℕ) (opts : Options) (manifest : Manifest) (libs : List Lib) :
    (∃ e, fillCTemplate spare opts manifest libs = .error e ∧
      Fails spare opts manifest libs e) ∨
    ∃ text, fillCTemplate spare opts manifest libs = .ok text ∧
      Nonempty (Filled spare opts manifest libs text) := by
  have hall : varnames spare opts [] (sourceFiles manifest libs ++ manifest.bundledFiles) = do
      let names ← varnames spare opts [] (libs.flatMap Lib.srcFiles)
      let scripts ← varnames spare opts names manifest.libScripts
      let bundled ← varnames spare opts (names ++ scripts) manifest.bundledFiles
      return names ++ scripts ++ bundled := by
    rw [sourceFiles, List.append_assoc, varnames_append]
    refine bind_congr fun names => ?_
    rw [List.nil_append, varnames_append]
    simp
  have hflat := initLibSrcVars_flatten spare opts [] libs
  unfold fillCTemplate
  simp only [bundledVarnames_nil, bind, Except.bind, pure, Except.pure] at hall ⊢
  cases hlibs : initLibSrcVars spare opts [] libs with
  | error e =>
    rw [hlibs] at hflat
    rw [← hflat] at hall
    have he : e = .attempts := varnames_error hflat.symm
    refine .inl ⟨e, rfl, he ▸ .names fun names h => ?_⟩
    rw [hall] at h
    cases h
  | ok libVars =>
    rw [hlibs] at hflat
    rw [← hflat] at hall
    simp only [Except.map] at hall ⊢
    cases hscripts : varnames spare opts libVars.flatten manifest.libScripts with
    | error e =>
      refine .inl ⟨e, rfl, varnames_error hscripts ▸ .names fun names h => ?_⟩
      rw [hall, hscripts] at h
      cases h
    | ok scriptVars =>
      rw [hscripts] at hall
      simp only at hall ⊢
      cases hbundled : varnames spare opts (libVars.flatten ++ scriptVars) manifest.bundledFiles with
      | error e =>
        refine .inl ⟨e, rfl, varnames_error hbundled ▸ .names fun names h => ?_⟩
        rw [hall, hbundled] at h
        cases h
      | ok bundledVars =>
        rw [hbundled] at hall
        simp only [concat] at hall ⊢
        cases hvars : split (concatString scriptVars) with
        | none => exact .inl ⟨_, rfl, .vars _ scriptVars hall (by simp) hvars⟩
        | some varWords =>
          cases hfiles : split (concatString manifest.libScripts) with
          | none => exact .inl ⟨_, rfl, .files hfiles⟩
          | some fileWords =>
            have hlength := varnames_length hbundled
            exact .inr ⟨_, rfl, ⟨{
              libVars, scriptVars, bundledVars, varWords, fileWords
              vars := hall
              lengths := initLibSrcVars_length hlibs
              bundledLength := hlength
              varSplit := hvars
              fileSplit := hfiles
              decls := by rw [← foreach2_eq_zip hlength]; rfl
              data := rfl
              evaluated := evaluated_iff (initLibSrcVars_length hlibs) (varnames_length hscripts)
                _ _ _ }⟩⟩

/-! ### When every file is embedded -/

lemma listString_singleton (s : Str) : listString [s] = quote true s := rfl

/-- The string form of a list is a name only if it has one element. -/
lemma length_of_identifier {vars : List Str} (h : identifierShape (listString vars) = true) :
    ∃ v, vars = [v] := by
  cases vars with
  | nil => exact absurd h (by decide)
  | cons v vars =>
    cases vars with
    | nil => exact ⟨v, rfl⟩
    | cons u vars =>
      have hmem : ' ' ∈ listString (v :: u :: vars) := by simp [listString, join]
      exact absurd (identifierShape_mem h ' ' hmem) (by decide)

lemma notMem_of_identifier {s : Str} (h : identifierShape s = true) {c : Char}
    (hc : identifierChar c = false) : c ∉ s := fun hmem => by
  rw [identifierShape_mem h c hmem] at hc
  cases hc

lemma identifierChar_false {c : Char} (h : substituted c = true ∨ braced c = true ∨ c = '#') :
    identifierChar c = false := by
  simp only [substituted, space, braced, Bool.or_eq_true, decide_eq_true_eq] at h
  rcases h with h | h | rfl
  · rcases h with (((((((((((rfl | rfl) | rfl) | rfl) | rfl) | rfl) | rfl) | rfl) | rfl) | rfl) | rfl) | rfl) <;> rfl
  · rcases h with rfl | rfl <;> rfl
  · rfl

lemma head_ne_of_identifier {s : Str} (h : identifierShape s = true) {c : Char}
    (hc : identifierChar c = false) : s.head? ≠ some c := fun hhead =>
  notMem_of_identifier h hc (List.mem_of_mem_head? hhead)

lemma bareWord_of_identifier {s : Str} (h : identifierShape s = true) : bareWord s = true := by
  simp only [bareWord, Bool.and_eq_true, decide_eq_true_eq, Bool.not_eq_true', List.any_eq_false,
    Bool.or_eq_true]
  refine ⟨⟨⟨identifierShape_ne_nil h, fun c hc hbad => ?_⟩, ?_⟩, ?_⟩
  · refine notMem_of_identifier h (identifierChar_false (.inl ?_)) hc
    simp only [substituted, Bool.or_eq_true, decide_eq_true_eq]
    tauto
  · exact head_ne_of_identifier h rfl
  · exact head_ne_of_identifier h rfl

lemma bareWords_of_identifiers {vars : List Str} (h : ∀ v ∈ vars, identifierShape v = true) :
    bareWords vars = true := by
  induction vars with
  | nil => rfl
  | cons v vars ih =>
    obtain ⟨hv, hvars⟩ := List.forall_mem_cons.mp h
    exact bareWords_cons (bareWord_of_identifier hv) (ih hvars)

lemma unbalanced_eq_false {s : Str} (h : ∀ c ∈ s, braced c = false) : unbalanced 0 s = false := by
  cases hs : unbalanced 0 s with
  | false => rfl
  | true =>
    obtain ⟨c, hc, hbraced⟩ := (exists_braced hs).resolve_left (by simp)
    rw [h c hc] at hbraced
    cases hbraced

lemma plain_of_identifier {s : Str} (h : identifierShape s = true) (isFirst : Bool) :
    plain isFirst s = true := by
  simp only [plain, Bool.and_eq_true, decide_eq_true_eq, Bool.not_eq_true', List.any_eq_false,
    Bool.and_eq_false_iff]
  refine ⟨⟨⟨⟨identifierShape_ne_nil h, unbalanced_eq_false fun c hc => ?_⟩, fun c hc hbad => ?_⟩,
    ?_⟩, .inr ?_⟩
  · cases hbraced : braced c with
    | false => rfl
    | true => exact absurd hc (notMem_of_identifier h (identifierChar_false (.inr (.inl hbraced))))
  · exact notMem_of_identifier h (identifierChar_false (.inl hbad)) hc
  · exact head_ne_of_identifier h rfl
  · simpa using head_ne_of_identifier h (identifierChar_false (.inr (.inr rfl)))

lemma singletons {libs : List Lib} (h : ∀ lib ∈ libs, ∃ f, lib.srcFiles = [f]) :
    libs.map Lib.srcFiles = (libs.flatMap Lib.srcFiles).map ([·]) := by
  induction libs with
  | nil => rfl
  | cons lib libs ih =>
    obtain ⟨⟨f, hf⟩, hlibs⟩ := List.forall_mem_cons.mp h
    rw [List.map_cons, List.flatMap_cons, hf, ih hlibs]
    rfl

lemma listStrings_singletons (files : List Str) :
    (files.map ([·])).map listString = files.map (quote true) := by
  rw [List.map_map]
  exact List.map_congr_left fun f _ => listString_singleton f

lemma listStrings_flatten {lists : List (List Str)}
    (h : ∀ list ∈ lists, ∃ s, list = [s] ∧ plain true s = true) :
    lists.map listString = lists.flatten := by
  induction lists with
  | nil => rfl
  | cons list lists ih =>
    obtain ⟨⟨s, rfl, hplain⟩, hlists⟩ := List.forall_mem_cons.mp h
    rw [List.map_cons, List.flatten_cons, ih hlists, listString_singleton, quote_eq_iff.mpr hplain]
    rfl

lemma resourceName_of_embeds {manifest : Manifest} {libs : List Lib} {text : CText}
    (h : Embeds manifest libs text) :
    ∀ v ∈ text.resourceDecls.map Prod.fst, resourceName v = true := by
  intro v hv
  have hmain : v ≠ mainScriptString := by
    rintro rfl
    exact (List.nodup_cons.mp h.distinct).1 hv
  rw [resourceName, h.identifiers v hv]
  simpa using hmain

lemma Filled.declared {spare : ℕ} {opts : Options} {manifest : Manifest} {libs : List Lib}
    {text : CText} (filled : Filled spare opts manifest libs text) {v : Str}
    (hv : v ∈ filled.libVars.map listString ∨ v ∈ filled.bundledVars) :
    v ∈ text.resourceDecls.map Prod.fst := by
  rw [filled.decls, List.map_append, List.mem_append, List.map_fst_zip filled.bundledLength.le]
  exact hv.imp (fun hv => mem_foreach2 (List.mem_append_left _ hv)) id

lemma names_of_embeds {spare : ℕ} {opts : Options} {manifest : Manifest} {libs : List Lib}
    {text : CText} (filled : Filled spare opts manifest libs text)
    (h : Embeds manifest libs text) :
    ∀ f ∈ sourceFiles manifest libs ++ manifest.bundledFiles,
      resourceName (opts.basename f) = true := by
  have hnames := resourceName_of_embeds h
  refine varnames_resourceName filled.vars (by simp) fun v hv => hnames v ?_
  rcases List.mem_append.mp hv with hv | hv
  · exact h.evaluated v ((filled.evaluated v).mpr hv)
  · exact filled.declared (.inr hv)

lemma single_of_embeds {spare : ℕ} {opts : Options} {manifest : Manifest} {libs : List Lib}
    {text : CText} (filled : Filled spare opts manifest libs text)
    (h : Embeds manifest libs text) : ∀ lib ∈ libs, ∃ f, lib.srcFiles = [f] := by
  have hvars : ∀ vars ∈ filled.libVars, ∃ v, vars = [v] := by
    intro vars hvars
    have hname := resourceName_of_embeds h _
      (filled.declared (.inl (List.mem_map_of_mem hvars)))
    exact length_of_identifier (resourceName_iff.mp hname).1
  intro lib hlib
  obtain ⟨vars, hmem, hlength⟩ := exists_of_forall₂ filled.lengths hlib
  obtain ⟨v, rfl⟩ := hvars vars hmem
  exact List.length_eq_one_iff.mp hlength.symm

lemma listed_of_embeds {spare : ℕ} {opts : Options} {manifest : Manifest} {libs : List Lib}
    {text : CText} (filled : Filled spare opts manifest libs text)
    (h : Embeds manifest libs text) :
    (∀ lib ∈ libs, ∃ f, lib.srcFiles = [f] ∧ plain true f = true) ∧
      bareWords manifest.libScripts = true := by
  have hsingle := single_of_embeds filled h
  have hnil : [] ∉ text.resourceDecls.map Prod.fst := fun hmem =>
    absurd (h.identifiers [] hmem) (by decide)
  rw [filled.decls, List.map_append, List.mem_append, not_or] at hnil
  obtain ⟨n, hpadded⟩ := foreach2_snd hnil.1
  have hfiles := h.files
  rw [filled.decls, List.map_append, hpadded, List.map_snd_zip filled.bundledLength.ge,
    List.append_cancel_right_eq, singletons hsingle, listStrings_singletons, sourceFiles,
    List.append_assoc] at hfiles
  obtain ⟨hquoted, hscripts⟩ := List.append_inj hfiles (by simp)
  have hwords : filled.fileWords = manifest.libScripts := by
    cases n with
    | zero => simpa using hscripts
    | succ n =>
      refine absurd ?_ manifest.libScripts_ne
      rw [← hscripts]
      simp
  refine ⟨fun lib hlib => ?_, split_concatString_iff.mp (hwords ▸ filled.fileSplit)⟩
  obtain ⟨f, hf⟩ := hsingle lib hlib
  refine ⟨f, hf, quote_eq_iff.mp ?_⟩
  have hmem : f ∈ libs.flatMap Lib.srcFiles := List.mem_flatMap.mpr ⟨lib, hlib, by simp [hf]⟩
  rw [← List.map_id (libs.flatMap Lib.srcFiles), List.map_map] at hquoted
  exact List.map_inj_left.mp hquoted f hmem

lemma mem_writeDepsFile {manifest : Manifest} {libs : List Lib} {f : Str} :
    f ∈ writeDepsFile manifest libs ↔ f ∈ manifest.libScripts ∨ f ∈ manifest.mainScripts ∨
      .file f ∈ libs ∨ f = scriptsWord ∧ ∃ lib ∈ libs, lib.isPackage = true := by
  have hlibs : (f ∈ libs.flatMap fun lib =>
      match lib with
      | .file srcFile => [srcFile]
      | .package _ _ _ => [scriptsWord]) ↔
      .file f ∈ libs ∨ f = scriptsWord ∧ ∃ lib ∈ libs, lib.isPackage = true := by
    rw [List.mem_flatMap]
    constructor
    · rintro ⟨lib, hlib, hf⟩
      cases lib with
      | file srcFile => exact .inl (List.mem_singleton.mp hf ▸ hlib)
      | package name version srcFiles => exact .inr ⟨List.mem_singleton.mp hf, _, hlib, rfl⟩
    · rintro (hlib | ⟨rfl, lib, hlib, hpackage⟩)
      · exact ⟨_, hlib, .head _⟩
      · cases lib with
        | file srcFile => cases hpackage
        | package name version srcFiles => exact ⟨_, hlib, .head _⟩
  rw [writeDepsFile, List.mem_append, List.mem_append, hlibs, or_assoc]

lemma deps_iff (manifest : Manifest) (libs : List Lib) :
    (∀ f ∈ sourceFiles manifest libs ++ manifest.mainScripts, f ∈ writeDepsFile manifest libs) ↔
      ∀ lib ∈ libs, lib.isPackage = true → ∀ f ∈ lib.srcFiles,
        f ∈ manifest.libScripts ∨ f ∈ manifest.mainScripts ∨ .file f ∈ libs ∨ f = scriptsWord := by
  simp only [mem_writeDepsFile]
  constructor
  · intro h lib hlib hpackage f hf
    have hmem := List.mem_flatMap.mpr ⟨lib, hlib, hf⟩
    have hlisted := h f (by simp [sourceFiles, hmem])
    tauto
  · intro h f hf
    rw [sourceFiles, List.mem_append, List.mem_append, List.mem_flatMap] at hf
    rcases hf with (⟨lib, hlib, hf⟩ | hscript) | hmain
    · cases lib with
      | file srcFile =>
        rw [List.mem_singleton.mp hf]
        exact .inr (.inr (.inl hlib))
      | package name version srcFiles =>
        have hlisted := h _ hlib rfl f hf
        have hpackage : ∃ lib ∈ libs, lib.isPackage = true := ⟨_, hlib, rfl⟩
        tauto
    · exact .inl hscript
    · exact .inr (.inl hmain)

/-! The other direction: names need no quoting, so every list comes out as it went in. -/

section Embeddable

variable {spare : ℕ} {opts : Options} {manifest : Manifest} {libs : List Lib}

lemma Embeddable.filled (h : Embeddable opts manifest libs) :
    ∃ text, fillCTemplate spare opts manifest libs = .ok text ∧
      Nonempty (Filled spare opts manifest libs text) := by
  rcases fillCTemplate_cases spare opts manifest libs with ⟨e, -, hfails⟩ | hfilled
  · exfalso
    obtain ⟨names, hnames, -, hvalid⟩ := varnames_ok spare h.names List.nodup_nil
    cases hfails with
    | names hnone => exact hnone names hnames
    | vars names' scriptVars hnames' hsub hsplit =>
      obtain rfl : names = names' := by simpa [hnames] using hnames'
      have hread := split_concatString_iff.mpr
        (bareWords_of_identifiers fun v hv => (resourceName_iff.mp (hvalid v (hsub hv))).1)
      rw [hsplit] at hread
      cases hread
    | files hsplit =>
      rw [split_concatString_iff.mpr h.scripts] at hsplit
      cases hsplit
  · exact hfilled

lemma Embeddable.embeds (h : Embeddable opts manifest libs) {text : CText}
    (filled : Filled spare opts manifest libs text) : Embeds manifest libs text := by
  obtain ⟨names, hnames, hnodup, hvalid⟩ := varnames_ok spare h.names List.nodup_nil
  rw [filled.vars] at hnames
  cases hnames
  have hshape : ∀ v ∈ filled.libVars.flatten ++ filled.scriptVars, identifierShape v = true :=
    fun v hv => (resourceName_iff.mp (hvalid v (List.mem_append_left _ hv))).1
  have hvars : filled.libVars.map listString = filled.libVars.flatten := by
    refine listStrings_flatten fun vars hvars => ?_
    obtain ⟨lib, hlib, hlength⟩ := exists_of_forall₂ filled.lengths.flip hvars
    obtain ⟨f, hf, -⟩ := h.single lib hlib
    rw [hf] at hlength
    obtain ⟨v, rfl⟩ := List.length_eq_one_iff.mp hlength
    refine ⟨v, rfl, plain_of_identifier (hshape v ?_) true⟩
    exact List.mem_append_left _ (List.mem_flatten.mpr ⟨_, hvars, .head _⟩)
  have hvarWords : filled.varWords = filled.scriptVars := by
    have hread := split_concatString_iff.mpr
      (bareWords_of_identifiers fun v hv => hshape v (List.mem_append_right _ hv))
    rw [filled.varSplit] at hread
    exact Option.some.inj hread
  have hfiles : (libs.map Lib.srcFiles).map listString = libs.flatMap Lib.srcFiles := by
    rw [List.flatMap_def]
    refine listStrings_flatten fun files hfiles => ?_
    obtain ⟨lib, hlib, rfl⟩ := List.mem_map.mp hfiles
    exact h.single lib hlib
  have hfileWords : filled.fileWords = manifest.libScripts := by
    have hread := split_concatString_iff.mpr h.scripts
    rw [filled.fileSplit] at hread
    exact Option.some.inj hread
  have hlength : (filled.libVars.flatten ++ filled.scriptVars).length =
      (sourceFiles manifest libs).length := by
    have htotal := varnames_length filled.vars
    simpa only [List.length_append, filled.bundledLength, Nat.add_right_cancel_iff] using htotal
  have hdecls := filled.decls
  rw [hvars, hvarWords, hfiles, hfileWords, ← sourceFiles, foreach2_eq_zip hlength] at hdecls
  have hfst : text.resourceDecls.map Prod.fst =
      filled.libVars.flatten ++ filled.scriptVars ++ filled.bundledVars := by
    rw [hdecls, List.map_append, List.map_fst_zip hlength.le,
      List.map_fst_zip filled.bundledLength.le]
  have hsnd : text.resourceDecls.map Prod.snd =
      sourceFiles manifest libs ++ manifest.bundledFiles := by
    rw [hdecls, List.map_append, List.map_snd_zip hlength.ge,
      List.map_snd_zip filled.bundledLength.ge]
  constructor
  case files => exact hsnd
  case defined => exact filled.data
  case distinct =>
    rw [hfst]
    refine List.nodup_cons.mpr ⟨fun hmem => ?_, hnodup⟩
    exact absurd (hvalid _ hmem) (by decide)
  case identifiers =>
    rw [hfst]
    intro v hv
    exact (Bool.and_eq_true_iff.mp (hvalid v hv)).1
  case evaluated =>
    rw [hfst]
    intro v hv
    exact List.mem_append_left _ ((filled.evaluated v).mp hv)

end Embeddable

/-- Nothing is ever rejected for its base name. -/
lemma Meets.embeds {spare : ℕ} {opts : Options} {manifest : Manifest} {libs : List Lib}
    (h : Meets spare opts manifest libs) :
    (manifest.bundledFiles.map bundledFileBasename).Nodup ∧
      ∃ text, Nonempty (Filled spare opts manifest libs text) ∧ Embeds manifest libs text := by
  obtain ⟨hfill, -⟩ := h
  rcases fillCTemplate_cases spare opts manifest libs with ⟨e, he, hfails⟩ | ⟨text, htext, hfilled⟩
  · split_ifs at hfill with hnodup
    · obtain ⟨text, htext, -⟩ := hfill
      rw [htext] at he
      cases he
    · obtain ⟨name, hname⟩ := hfill
      rw [hname] at he
      cases he
      cases hfails
  · split_ifs at hfill with hnodup
    · obtain ⟨text', htext', hembeds⟩ := hfill
      rw [htext] at htext'
      cases htext'
      exact ⟨hnodup, text, hfilled, hembeds⟩
    · obtain ⟨name, hname⟩ := hfill
      rw [htext] at hname
      cases hname

/-- Every file gets its own variable exactly if every package has one file and no name needs
quoting; nothing rejects files of one base name, and packages are left out of the dependencies. -/
theorem meets_iff (spare : ℕ) (opts : Options) (manifest : Manifest) (libs : List Lib) :
    Meets spare opts manifest libs ↔ Embeddable opts manifest libs := by
  constructor
  · intro h
    obtain ⟨hnodup, text, ⟨filled⟩, hembeds⟩ := h.embeds
    obtain ⟨hsingle, hscripts⟩ := listed_of_embeds filled hembeds
    exact ⟨hsingle, hscripts, names_of_embeds filled hembeds, hnodup,
      (deps_iff manifest libs).mp h.2⟩
  · intro h
    obtain ⟨text, htext, ⟨filled⟩⟩ := @Embeddable.filled spare opts manifest libs h
    refine ⟨?_, (deps_iff manifest libs).mpr h.deps⟩
    rw [if_pos h.basenames]
    exact ⟨text, htext, h.embeds filled⟩

/-- The prefix without `-r`. -/
def defaultOptions : Options where
  resourceVarPrefix := "__turbine_tcl_resource_".toList
  nonempty := fun h => by cases h

def onlyLibs : Manifest where
  mainScript := []
  libScripts := []
  libScripts_ne := fun h => by cases h
  bundledFiles := []

/-- The two variables of a package are declared as one. -/
theorem not_meets_two_files : ¬Meets 0 defaultOptions onlyLibs
    [.package "geometry".toList "1.0".toList ["/lib/geometry/area.tcl".toList,
      "/lib/geometry/points.tcl".toList]] := by
  intro h
  obtain ⟨-, text, ⟨filled⟩, hembeds⟩ := h.embeds
  obtain ⟨f, hf⟩ := single_of_embeds filled hembeds _ (.head _)
  cases hf

example : varnames 0 defaultOptions [] ["/a/x-1.tcl".toList, "/b/x.1.tcl".toList] =
    .ok ["__turbine_tcl_resource_x_1_tcl".toList, "__turbine_tcl_resource_x_1_tcl_1".toList] := by
  rfl

end Turbine.MkStatic
