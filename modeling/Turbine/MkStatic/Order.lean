import Turbine.Library.Comparators
import Turbine.MkStatic.Names

/-! The order in which the scripts and packages of the Tcl libraries are initialised. -/

namespace Turbine.MkStatic

open Library.ListSyntax Library.Comparators

/-! ### Entries -/

/-- What `locate_lib_src` collects: `FILE <file>` or `PACKAGE <name> <version> <files>`. -/
def isEntry : List Str → Bool
  | [type, _] => type = "FILE".toList
  | type :: _ :: _ :: _ => type = "PACKAGE".toList
  | _ => false

/-- A library, as the Tcl list that stands for it. -/
structure LibEntry where
  text : Str
  words : List Str
  split_text : split text = some words
  isEntry_words : isEntry words = true

@[ext]
lemma LibEntry.ext {lib1 lib2 : LibEntry} (h : lib1.text = lib2.text) : lib1 = lib2 := by
  obtain ⟨text, words, hsplit, _⟩ := lib1
  obtain ⟨text', words', hsplit', _⟩ := lib2
  obtain rfl : text = text' := h
  obtain rfl : words = words' := Option.some.inj (hsplit.symm.trans hsplit')
  rfl

instance : DecidableEq LibEntry := fun lib1 lib2 =>
  decidable_of_iff (lib1.text = lib2.text) ⟨LibEntry.ext, congrArg LibEntry.text⟩

def LibEntry.type (lib : LibEntry) : Str := lib.words.getD 0 []

def LibEntry.file (lib : LibEntry) : Str := lib.words.getD 1 []

/-- `file dir`: all components but the last. -/
def fileDir (path : Str) : Str :=
  let root := if path.head? = some '/' then ['/'] else []
  match (components 0 [] path).dropLast with
  | [] => if root = [] then ['.'] else root
  | names => root ++ List.intercalate ['/'] (names.map Prod.snd)

def stringCompare (string1 string2 : Str) : ℤ := threeWay string1 string2

/-! ### The comparison -/

def coreModules : List Str := ["init.tcl".toList, "package.tcl".toList, "tm.tcl".toList]

/-- The index in the list of core modules, or -1. -/
def coreModuleIx (lib : LibEntry) : ℤ :=
  if lib.type ≠ "FILE".toList then -1
  else match coreModules.idxOf? (fileTail lib.file) with
    | none => -1
    | some ix => ix

def libInitOrder (lib1 lib2 : LibEntry) : ℤ :=
  let coreIx1 := coreModuleIx lib1
  let coreIx2 := coreModuleIx lib2
  if coreIx1 ≥ 0 then
    if coreIx2 ≥ 0 ∧ coreIx2 ≤ coreIx1 then 1 else -1
  else if coreIx2 ≥ 0 then 1
  else if lib1.type = "PACKAGE".toList then
    if lib2.type = "PACKAGE".toList then stringCompare lib1.text lib2.text else -1
  else if lib2.type = "PACKAGE".toList then 1
  else
    let basenameCompare := stringCompare (fileTail lib1.file) (fileTail lib2.file)
    if basenameCompare ≠ 0 then basenameCompare
    else stringCompare (fileDir lib1.file) (fileDir lib2.file)

/-! ### Keys -/

/-- The groups in the order in which they come: the core modules, the packages, the rest. -/
def group (lib : LibEntry) : ℕ :=
  if 0 ≤ coreModuleIx lib then (coreModuleIx lib).toNat
  else if lib.type = "PACKAGE".toList then 3 else 4

def key (lib : LibEntry) : ℕ ×ₗ Str ×ₗ Str :=
  toLex (group lib, toLex (
    if 0 ≤ coreModuleIx lib then ([], [])
    else if lib.type = "PACKAGE".toList then (lib.text, [])
    else (fileTail lib.file, fileDir lib.file)))

lemma coreModuleIx_cases (lib : LibEntry) :
    coreModuleIx lib = -1 ∨ 0 ≤ coreModuleIx lib ∧ coreModuleIx lib < 3 ∧
      lib.type = "FILE".toList := by
  unfold coreModuleIx
  by_cases htype : lib.type = "FILE".toList
  · rw [if_neg (not_not.mpr htype)]
    cases hix : coreModules.idxOf? (fileTail lib.file) with
    | none => exact .inl rfl
    | some ix =>
      obtain ⟨hlt, -, -⟩ := List.idxOf?_eq_some_iff.mp hix
      have hlength : coreModules.length = 3 := rfl
      exact .inr ⟨by simp, by simp only; omega, htype⟩
  · exact .inl (if_pos htype)

lemma type_of_not_package {lib : LibEntry} (h : lib.type ≠ "PACKAGE".toList) :
    lib.type = "FILE".toList := by
  obtain ⟨text, words, hsplit, hentry⟩ := lib
  match words, hentry with
  | [type, _], hentry => exact of_decide_eq_true hentry
  | type :: _ :: _ :: _, hentry => exact absurd (of_decide_eq_true hentry) h

/-- The two entries are not core modules of one name. -/
def CoresApart (lib1 lib2 : LibEntry) : Prop :=
  coreModuleIx lib1 = coreModuleIx lib2 → coreModuleIx lib1 = -1

lemma group_of_core {lib : LibEntry} (h : 0 ≤ coreModuleIx lib) :
    (group lib : ℤ) = coreModuleIx lib := by
  rw [group, if_pos h, Int.toNat_of_nonneg h]

lemma group_of_not_core {lib : LibEntry} (h : coreModuleIx lib = -1) :
    group lib = if lib.type = "PACKAGE".toList then 3 else 4 := by
  rw [group, h]
  rfl

lemma threeWay_key_of_group {lib1 lib2 : LibEntry} (h : group lib1 < group lib2) :
    threeWay (key lib1) (key lib2) = -1 :=
  threeWay_of_lt (Prod.Lex.toLex_lt_toLex.mpr (.inl h))

lemma threeWay_key_of_group_gt {lib1 lib2 : LibEntry} (h : group lib2 < group lib1) :
    threeWay (key lib1) (key lib2) = 1 :=
  threeWay_of_gt (Prod.Lex.toLex_lt_toLex.mpr (.inl h))

lemma key_of_package {lib : LibEntry} (hcore : coreModuleIx lib = -1)
    (htype : lib.type = "PACKAGE".toList) : key lib = toLex (3, toLex (lib.text, [])) := by
  rw [key, group_of_not_core hcore, hcore, if_pos htype, if_pos htype]
  rfl

lemma key_of_file {lib : LibEntry} (hcore : coreModuleIx lib = -1)
    (htype : lib.type ≠ "PACKAGE".toList) :
    key lib = toLex (4, toLex (fileTail lib.file, fileDir lib.file)) := by
  rw [key, group_of_not_core hcore, hcore, if_neg htype, if_neg htype]
  rfl

lemma libInitOrder_of_not_core {lib1 lib2 : LibEntry} (h1 : coreModuleIx lib1 = -1)
    (h2 : coreModuleIx lib2 = -1) :
    libInitOrder lib1 lib2 = threeWay (key lib1) (key lib2) := by
  rw [libInitOrder, h1, h2]
  simp only [Int.reduceNeg, ge_iff_le, Int.reduceLE, ↓reduceIte]
  by_cases hp1 : lib1.type = "PACKAGE".toList
  · by_cases hp2 : lib2.type = "PACKAGE".toList
    · rw [if_pos hp1, if_pos hp2, key_of_package h1 hp1, key_of_package h2 hp2, threeWay_toLex,
        threeWay_toLex, threeWay_self, threeWay_self, stringCompare]
      by_cases hzero : threeWay lib1.text lib2.text = 0
      · simp [hzero]
      · simp [hzero]
    · rw [if_pos hp1, if_neg hp2, threeWay_key_of_group]
      rw [group_of_not_core h1, group_of_not_core h2, if_pos hp1, if_neg hp2]
      omega
  · by_cases hp2 : lib2.type = "PACKAGE".toList
    · rw [if_neg hp1, if_pos hp2, threeWay_key_of_group_gt]
      rw [group_of_not_core h1, group_of_not_core h2, if_neg hp1, if_pos hp2]
      omega
    · rw [if_neg hp1, if_neg hp2, key_of_file h1 hp1, key_of_file h2 hp2, threeWay_toLex,
        threeWay_toLex, threeWay_self]
      rfl

/-- Entries are compared by their keys, unless both are core modules of one name. -/
lemma libInitOrder_eq {lib1 lib2 : LibEntry} (h : CoresApart lib1 lib2) :
    libInitOrder lib1 lib2 = threeWay (key lib1) (key lib2) := by
  rcases coreModuleIx_cases lib1 with h1 | ⟨h1, hlt1, -⟩
  · rcases coreModuleIx_cases lib2 with h2 | ⟨h2, hlt2, -⟩
    · exact libInitOrder_of_not_core h1 h2
    · have hgroup := group_of_core h2
      have hnot : ¬ coreModuleIx lib1 ≥ 0 := by omega
      rw [libInitOrder, if_neg hnot, if_pos h2, threeWay_key_of_group_gt]
      rw [group_of_not_core h1]
      split_ifs <;> omega
  · have hgroup := group_of_core h1
    rcases coreModuleIx_cases lib2 with h2 | ⟨h2, hlt2, -⟩
    · have hnot : ¬ (coreModuleIx lib2 ≥ 0 ∧ coreModuleIx lib2 ≤ coreModuleIx lib1) := by omega
      rw [libInitOrder, if_pos h1, if_neg hnot, threeWay_key_of_group]
      rw [group_of_not_core h2]
      split_ifs <;> omega
    · have hgroup2 := group_of_core h2
      have hne : coreModuleIx lib1 ≠ coreModuleIx lib2 := fun heq => by
        have := h heq
        omega
      rw [libInitOrder, if_pos h1]
      rcases lt_or_gt_of_ne hne with hlt | hgt
      · rw [if_neg (by omega), threeWay_key_of_group (by omega)]
      · rw [if_pos ⟨h2, hgt.le⟩, threeWay_key_of_group_gt (by omega)]

/-- Of two core modules of one name each comes after the other. -/
lemma libInitOrder_of_core {lib1 lib2 : LibEntry} (h : 0 ≤ coreModuleIx lib1)
    (heq : coreModuleIx lib1 = coreModuleIx lib2) : libInitOrder lib1 lib2 = 1 := by
  have hboth : coreModuleIx lib2 ≥ 0 ∧ coreModuleIx lib2 ≤ coreModuleIx lib1 :=
    ⟨heq ▸ h, heq ▸ le_refl _⟩
  rw [libInitOrder, if_pos h, if_pos hboth]

/-- The two entries are the same file, named in different ways. -/
def SameFile (lib1 lib2 : LibEntry) : Prop :=
  lib1.type = "FILE".toList ∧ lib2.type = "FILE".toList ∧
    fileTail lib1.file = fileTail lib2.file ∧ fileDir lib1.file = fileDir lib2.file

lemma key_eq {lib1 lib2 : LibEntry} (h : key lib1 = key lib2) :
    lib1 = lib2 ∨ ¬ CoresApart lib1 lib2 ∨ SameFile lib1 lib2 := by
  have hgroup : group lib1 = group lib2 := congrArg (fun k => (ofLex k).1) h
  rcases coreModuleIx_cases lib1 with h1 | ⟨h1, hlt1, -⟩
  · rcases coreModuleIx_cases lib2 with h2 | ⟨h2, hlt2, -⟩
    · rw [group_of_not_core h1, group_of_not_core h2] at hgroup
      by_cases hp1 : lib1.type = "PACKAGE".toList
      · by_cases hp2 : lib2.type = "PACKAGE".toList
        · rw [key_of_package h1 hp1, key_of_package h2 hp2] at h
          exact .inl (LibEntry.ext (congrArg (fun k => (ofLex (ofLex k).2).1) h))
        · rw [if_pos hp1, if_neg hp2] at hgroup
          omega
      · by_cases hp2 : lib2.type = "PACKAGE".toList
        · rw [if_neg hp1, if_pos hp2] at hgroup
          omega
        · rw [key_of_file h1 hp1, key_of_file h2 hp2] at h
          exact .inr (.inr ⟨type_of_not_package hp1, type_of_not_package hp2,
            congrArg (fun k => (ofLex (ofLex k).2).1) h,
            congrArg (fun k => (ofLex (ofLex k).2).2) h⟩)
    · have hcore := group_of_core h2
      rw [← hgroup, group_of_not_core h1] at hcore
      split_ifs at hcore <;> omega
  · have hcore := group_of_core h1
    rcases coreModuleIx_cases lib2 with h2 | ⟨h2, hlt2, -⟩
    · rw [hgroup, group_of_not_core h2] at hcore
      split_ifs at hcore <;> omega
    · refine .inr (.inl fun hapart => ?_)
      have hcore2 := group_of_core h2
      have := hapart (by omega)
      omega

lemma libInitOrder_of_sameFile {lib1 lib2 : LibEntry} (hcore : coreModuleIx lib1 = -1)
    (h : SameFile lib1 lib2) : libInitOrder lib1 lib2 = 0 := by
  obtain ⟨htype1, htype2, htail, hdir⟩ := h
  have hcore2 : coreModuleIx lib2 = -1 := by
    rw [coreModuleIx, htype1] at hcore
    rw [coreModuleIx, htype2, ← htail, hcore]
  rw [libInitOrder_of_not_core hcore hcore2, threeWay_eq_zero_iff,
    key_of_file hcore (by rw [htype1]; decide), key_of_file hcore2 (by rw [htype2]; decide), htail,
    hdir]

/-! ### Main result -/

/-- On the pairs of entries the comparison is an order, and `lsort` makes of every arrangement the
same list, with the groups one after the other. -/
structure WellDefined (Pairs : LibEntry → LibEntry → Prop) (S : Finset LibEntry) : Prop where
  opposite : ∀ lib1 ∈ S, ∀ lib2 ∈ S, Pairs lib1 lib2 → Opposite libInitOrder lib1 lib2
  transitive : TransitiveOn libInitOrder S
  unique : ∀ found found' : List LibEntry, (found : Multiset LibEntry) = S.val →
    (found' : Multiset LibEntry) = S.val → lsort libInitOrder found = lsort libInitOrder found'
  grouped : ∀ found : List LibEntry, (found : Multiset LibEntry) = S.val →
    (lsort libInitOrder found).Pairwise fun lib1 lib2 => group lib1 ≤ group lib2

/-- No two of the entries are core modules of one name, or the same file. -/
def Apart (S : Finset LibEntry) : Prop :=
  ∀ lib1 ∈ S, ∀ lib2 ∈ S, lib1 ≠ lib2 → CoresApart lib1 lib2 ∧ ¬ SameFile lib1 lib2

lemma Apart.keyed {S : Finset LibEntry} (h : Apart S) : Keyed libInitOrder key (S : Set LibEntry) where
  compares := fun lib1 h1 lib2 h2 hne => libInitOrder_eq (h lib1 h1 lib2 h2 hne).1
  injective := by
    intro lib1 h1 lib2 h2 hkey
    by_contra hne
    obtain ⟨hcores, hfiles⟩ := h lib1 h1 lib2 h2 hne
    rcases key_eq hkey with heq | hnot | hsame
    · exact hne heq
    · exact hnot hcores
    · exact hfiles hsame

lemma group_le_of_key_le {lib1 lib2 : LibEntry} (h : key lib1 ≤ key lib2) :
    group lib1 ≤ group lib2 := by
  rcases Prod.Lex.toLex_le_toLex.mp h with hlt | ⟨heq, -⟩
  · exact hlt.le
  · exact heq.le

lemma Apart.wellDefined {S : Finset LibEntry} (h : Apart S) {Pairs : LibEntry → LibEntry → Prop}
    (hpairs : ∀ lib ∈ S, Pairs lib lib → coreModuleIx lib = -1) : WellDefined Pairs S := by
  have hkeyed := h.keyed
  have hmem : ∀ {found : List LibEntry}, (found : Multiset LibEntry) = S.val →
      ∀ lib ∈ found, lib ∈ (S : Set LibEntry) := by
    intro found hfound lib hlib
    exact Finset.mem_val.mp (hfound ▸ Multiset.mem_coe.mpr hlib)
  have hnodup : ∀ {found : List LibEntry}, (found : Multiset LibEntry) = S.val → found.Nodup := by
    intro found hfound
    exact Multiset.coe_nodup.mp (hfound ▸ S.nodup)
  refine ⟨?_, hkeyed.transitive, ?_, ?_⟩
  · intro lib1 h1 lib2 h2 hcompared
    by_cases hne : lib1 = lib2
    · subst hne
      have hzero : libInitOrder lib1 lib1 = 0 := by
        rw [libInitOrder_of_not_core (hpairs lib1 h1 hcompared) (hpairs lib1 h1 hcompared),
          threeWay_self]
      exact ⟨by rw [hzero]; rfl, fun _ => rfl⟩
    · exact hkeyed.opposite h1 h2 hne
  · intro found found' hfound hfound'
    exact hkeyed.lsort_eq_of_perm (hmem hfound) (hnodup hfound)
      (Multiset.coe_eq_coe.mp (hfound.trans hfound'.symm))
  · intro found hfound
    exact (hkeyed.lsort_pairwise (hmem hfound) (hnodup hfound)).imp group_le_of_key_le

lemma not_opposite_of_core {lib1 lib2 : LibEntry} (h : ¬ CoresApart lib1 lib2) :
    ¬ Opposite libInitOrder lib1 lib2 := by
  obtain ⟨heq, hcore⟩ := Classical.not_imp.mp h
  have hnonneg : 0 ≤ coreModuleIx lib1 := by
    rcases coreModuleIx_cases lib1 with h1 | ⟨h1, -, -⟩
    · exact absurd h1 hcore
    · exact h1
  rintro ⟨hsign, -⟩
  rw [libInitOrder_of_core hnonneg heq, libInitOrder_of_core (heq ▸ hnonneg) heq.symm] at hsign
  exact absurd hsign (by decide)

lemma WellDefined.apart {S : Finset LibEntry} {Pairs : LibEntry → LibEntry → Prop}
    (h : WellDefined Pairs S) (hpairs : ∀ lib1 lib2, lib1 ≠ lib2 → Pairs lib1 lib2) :
    Apart S := by
  intro lib1 h1 lib2 h2 hne
  have hopposite := h.opposite lib1 h1 lib2 h2 (hpairs lib1 lib2 hne)
  have hcores : CoresApart lib1 lib2 := by
    by_contra hnot
    exact not_opposite_of_core hnot hopposite
  refine ⟨hcores, fun hsame => ?_⟩
  have hcore : coreModuleIx lib1 = -1 := by
    apply hcores
    rw [coreModuleIx, coreModuleIx, hsame.1, hsame.2.1, hsame.2.2.1]
  exact hne (hopposite.2 (libInitOrder_of_sameFile hcore hsame))

/-- An entry compares with itself as equal if it is no core module. -/
theorem lib_init_order_meets_iff (S : Finset LibEntry) :
    (WellDefined (· ≠ ·) S ↔ Apart S) ∧
    (WellDefined (fun _ _ => True) S ↔ Apart S ∧ ∀ lib ∈ S, coreModuleIx lib = -1) := by
  constructor
  · constructor
    · exact fun h => h.apart fun _ _ hne => hne
    · exact fun h => h.wellDefined fun _ _ hne => absurd rfl hne
  · constructor
    · intro h
      refine ⟨h.apart fun _ _ _ => trivial, fun lib hlib => ?_⟩
      by_contra hcore
      exact not_opposite_of_core (fun hapart => hcore (hapart rfl)) (h.opposite lib hlib lib hlib
        trivial)
    · rintro ⟨hapart, hcore⟩
      exact hapart.wellDefined fun lib hlib _ => hcore lib hlib

def initLib : LibEntry where
  text := "FILE tcl8/init.tcl".toList
  words := ["FILE".toList, "tcl8/init.tcl".toList]
  split_text := by decide
  isEntry_words := by decide

def initLib86 : LibEntry where
  text := "FILE tcl8.6/init.tcl".toList
  words := ["FILE".toList, "tcl8.6/init.tcl".toList]
  split_text := by decide
  isEntry_words := by decide

/-- Two scripts `init.tcl` come out in the opposite order. -/
theorem not_lib_init_order :
    ¬ WellDefined (· ≠ ·) {initLib, initLib86} ∧
      lsort libInitOrder [initLib, initLib86] = [initLib86, initLib] ∧
      lsort libInitOrder [initLib86, initLib] = [initLib, initLib86] := by
  have hcore : coreModuleIx initLib = coreModuleIx initLib86 := by decide
  have hnonneg : 0 ≤ coreModuleIx initLib := by decide
  have hforth := libInitOrder_of_core hnonneg hcore
  have hback := libInitOrder_of_core (hcore ▸ hnonneg) hcore.symm
  refine ⟨fun h => ?_, ?_, ?_⟩
  · have hopposite := h.opposite initLib (by simp) initLib86 (by simp) (by decide)
    exact not_opposite_of_core (fun hapart => absurd (hapart hcore) (by decide)) hopposite
  · simp [lsort, List.mergeSort, hforth]
  · simp [lsort, List.mergeSort, hback]

end Turbine.MkStatic
