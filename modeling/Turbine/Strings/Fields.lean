import Turbine.Data.Arrays
import Turbine.Library.Separators

/-! Splitting a string into an array of fields, and joining the fields of an array. -/

namespace Turbine.Strings.Fields

open Turbine.Library Separators Turbine.Data Arrays

abbrev Text := List Char

abbrev Array := OrderedDict ℤ Text

/-! ### The implementations -/

/-- Tcl's `split`: at every character of `splitChars`, or into characters if there are none. -/
def tclSplit (string splitChars : Text) : List Text :=
  if string = [] then []
  else if splitChars = [] then string.map ([·])
  else string.splitOnP (· ∈ splitChars)

-- a subscript that is not there yet: `dict append` enters the token as it is
def splitLoop : List Text → ℤ → Array → Array
  | [], _, resultDict => resultDict
  | tok :: toks, i, resultDict => splitLoop toks (i + 1) (resultDict.set i tok)

def splitImpl (s delimiter : Text) : Array := splitLoop (tclSplit s delimiter) 0 .empty

def stringJoinImpl (container : Array) (separator : Text) : Text :=
  let sortedKeys := container.keys.mergeSort
  -- the subscripts are the container's own
  let A := sortedKeys.map fun i => (container.get? i).getD []
  separator.intercalate A

/-! ### The bodies of the rules -/

abbrev Body := Script ℤ Text

/-- The order in which the server enumerates an array. -/
structure Enumeration where
  order : Array → Array
  perm : ∀ d, (order d).entries.Perm d.entries

def enumerateDict (enumeration : Enumeration) (container : ℕ) (decr : ℤ) : Body Array := fun s =>
  (.ok (enumeration.order (s.contents container)),
    { s with
      readRefs := Function.update s.readRefs container (s.readRefs container - decr) })

-- without a delimiter it is a space
def delimiterValue (delimiter : ℕ) : Body Text :=
  if delimiter = 0 then pure [' '] else retrieveDecr delimiter

def splitBody (result s delimiter : ℕ) : Body Unit := do
  let sValue ← retrieveDecr s
  let dValue ← delimiterValue delimiter
  let rVal := splitImpl sValue dValue
  arrayKvBuild result rVal 1

def idText (id : ℕ) : Text := Nat.toDigits 10 id

def stringJoinBody (enumeration : Enumeration) (result container separator : ℕ) : Body Unit := do
  let _separatorValue ← retrieveDecr separator
  let containerVal ← enumerateDict enumeration container 1
  -- the id, not the value that was retrieved
  store result (stringJoinImpl containerVal (idText separator))

/-! ### The implementations undo each other -/

lemma keys_values_splitLoop (toks : List Text) (n : ℕ) (d : Array)
    (hd : d.keys = (List.range n).map (↑)) :
    (splitLoop toks n d).keys = (List.range (n + toks.length)).map ((↑) : ℕ → ℤ) ∧
      (splitLoop toks n d).values = d.values ++ toks := by
  induction toks generalizing n d with
  | nil => exact ⟨hd, (List.append_nil _).symm⟩
  | cons tok toks ih =>
    have hnot : (n : ℤ) ∉ d.keys := by simp [hd]
    have hkeys : (d.set n tok).keys = (List.range (n + 1)).map ((↑) : ℕ → ℤ) := by
      rw [OrderedDict.keys_set_of_notMem tok hnot, hd, List.range_succ, List.map_append]
      rfl
    obtain ⟨hks, hvs⟩ := ih (n + 1) _ hkeys
    rw [splitLoop]
    constructor
    · rw [List.length_cons, Nat.add_comm toks.length 1, ← Nat.add_assoc]
      exact hks
    · rw [OrderedDict.values_set_of_notMem tok hnot, List.append_assoc] at hvs
      exact hvs

lemma pairwise_range (n : ℕ) :
    ((List.range n).map ((↑) : ℕ → ℤ)).Pairwise fun i j => decide (i ≤ j) := by
  rw [List.pairwise_map]
  refine List.pairwise_le_range.imp ?_
  intro i j hij
  exact decide_eq_true (Int.ofNat_le.mpr hij)

lemma stringJoinImpl_splitImpl (s delimiter separator : Text) :
    stringJoinImpl (splitImpl s delimiter) separator =
      separator.intercalate (tclSplit s delimiter) := by
  obtain ⟨hkeys, hvalues⟩ := keys_values_splitLoop (tclSplit s delimiter) 0 .empty rfl
  have hsorted : (splitImpl s delimiter).keys.mergeSort = (splitImpl s delimiter).keys := by
    apply List.mergeSort_of_pairwise
    rw [splitImpl, ← Nat.cast_zero, hkeys]
    exact pairwise_range _
  rw [stringJoinImpl, hsorted, OrderedDict.map_keys_get?, splitImpl, ← Nat.cast_zero, hvalues]
  rfl

lemma tclSplit_eq {s : Text} (hs : s ≠ []) (d : Char) : tclSplit s [d] = s.splitOn d := by
  rw [tclSplit, if_neg hs, if_neg (List.cons_ne_nil _ _), List.splitOn_eq_splitOnP]
  congr
  funext c
  simp only [List.mem_singleton]
  rfl

lemma intercalate_tclSplit (s : Text) (d : Char) : [d].intercalate (tclSplit s [d]) = s := by
  by_cases hs : s = []
  · rw [hs]
    rfl
  · rw [tclSplit_eq hs, List.intercalate_splitOn]

lemma length_tclSplit_le_one_iff (s : Text) (d : Char) :
    (tclSplit s [d]).length ≤ 1 ↔ d ∉ s := by
  by_cases hs : s = []
  · simp [hs, tclSplit]
  · rw [tclSplit_eq hs, length_splitOn_le_one_iff]

/-! ### The order of the array does not matter -/

lemma get?_perm {d d' : Array} (h : d.entries.Perm d'.entries) (i : ℤ) : d.get? i = d'.get? i := by
  refine Option.ext fun v => ?_
  rw [← OrderedDict.mem_entries_iff, ← OrderedDict.mem_entries_iff]
  exact h.mem_iff

lemma stringJoinImpl_perm {d d' : Array} (h : d.entries.Perm d'.entries) (separator : Text) :
    stringJoinImpl d separator = stringJoinImpl d' separator := by
  have hkeys : d.keys.mergeSort = d'.keys.mergeSort := by
    have hperm : d.keys.mergeSort.Perm d'.keys.mergeSort :=
      (List.mergeSort_perm _ _).trans ((h.map Prod.fst).trans (List.mergeSort_perm _ _).symm)
    exact hperm.eq_of_sortedLE List.sortedLE_mergeSort List.sortedLE_mergeSort
  rw [stringJoinImpl, stringJoinImpl, hkeys]
  simp only [get?_perm h]

lemma stringJoinImpl_eq_iff (d : Array) (a b : Text) :
    stringJoinImpl d a = stringJoinImpl d b ↔ d.entries.length ≤ 1 ∨ a = b := by
  rw [stringJoinImpl, stringJoinImpl, intercalate_eq_iff, List.length_map, List.length_mergeSort,
    OrderedDict.keys, List.length_map]

/-! ### The bodies -/

structure SplitInputs (s : Store ℤ Text) (result str delimiter : ℕ) (sValue dValue : Text) :
    Prop where
  result : s.contents result = .empty
  str : s.value str = some sValue
  delimiter : if delimiter = 0 then dValue = [' '] else s.value delimiter = some dValue

structure JoinInputs (s : Store ℤ Text) (result container separator : ℕ) (array : Array)
    (separatorValue : Text) : Prop where
  result : s.value result = none
  container : s.contents container = array
  separator : s.value separator = some separatorValue

section Bodies

variable {s : Store ℤ Text} {result str delimiter container separator : ℕ}
  {sValue dValue separatorValue : Text} {array : Array} {enumeration : Enumeration}

lemma splitBody_ends (h : SplitInputs s result str delimiter sValue dValue) :
    Cmd.Ends (splitBody result str delimiter) s fun _ t =>
      (t.contents result).entries = (splitImpl sValue dValue).entries ∧ t.value = s.value := by
  have hdelimiter := h.delimiter
  have hfill : ∀ t : Store ℤ Text, t.contents = s.contents → t.value = s.value →
      Cmd.Ends (arrayKvBuild result (splitImpl sValue dValue) 1) t fun _ u =>
        (u.contents result).entries = (splitImpl sValue dValue).entries ∧ u.value = s.value := by
    intro t hcontents hvalue
    have hempty : t.contents result = .empty := by rw [hcontents, h.result]
    exact ⟨(), _, arrayKvBuild_apply hempty _ 1, entries_fill hempty _ 1, hvalue⟩
  rw [splitBody]
  apply Cmd.bind_ends_of_ok (retrieveDecr_apply h.str)
  by_cases hzero : delimiter = 0
  · rw [if_pos hzero] at hdelimiter
    apply Cmd.bind_ends_of_ok (a := dValue) (t := s.read str)
    · rw [delimiterValue, if_pos hzero, hdelimiter]
      rfl
    · exact hfill _ rfl rfl
  · rw [if_neg hzero] at hdelimiter
    apply Cmd.bind_ends_of_ok (a := dValue) (t := (s.read str).read delimiter)
    · rw [delimiterValue, if_neg hzero]
      exact retrieveDecr_apply (s := s.read str) hdelimiter
    · exact hfill _ rfl rfl

lemma stringJoinBody_ends (enumeration : Enumeration)
    (h : JoinInputs s result container separator array separatorValue) :
    Cmd.Ends (stringJoinBody enumeration result container separator) s fun _ t =>
      t.value result = some (stringJoinImpl array (idText separator)) := by
  have henum : stringJoinImpl (enumeration.order (s.contents container)) (idText separator) =
      stringJoinImpl array (idText separator) := by
    rw [h.container]
    exact stringJoinImpl_perm (enumeration.perm array) _
  rw [stringJoinBody]
  apply Cmd.bind_ends_of_ok (retrieveDecr_apply h.separator)
  apply Cmd.bind_ends_of_ok (by rfl)
  rw [← henum]
  exact ⟨(), _, store_apply (by exact h.result) _, Function.update_self ..⟩

end Bodies

/-! ### Main result -/

def SplitMeets (s : Store ℤ Text) (result str delimiter : ℕ) (sValue dValue : Text) : Prop :=
  Cmd.Ends (splitBody result str delimiter) s fun _ t =>
    (t.contents result).entries = (splitImpl sValue dValue).entries

def JoinMeets (enumeration : Enumeration) (s : Store ℤ Text) (result container separator : ℕ)
    (array : Array) (separatorValue : Text) : Prop :=
  Cmd.Ends (stringJoinBody enumeration result container separator) s fun _ t =>
    t.value result = some (stringJoinImpl array separatorValue)

/-- What is split into the array and joined again is the string. -/
def JoinUndoesSplit (enumeration : Enumeration) (s : Store ℤ Text)
    (array str delimiter result separator : ℕ) (sValue : Text) : Prop :=
  Cmd.Ends (do
    splitBody array str delimiter
    stringJoinBody enumeration result array separator) s fun _ t => t.value result = some sValue

lemma joinUndoesSplit_iff (enumeration : Enumeration) {s : Store ℤ Text}
    {array str delimiter result separator : ℕ} {sValue : Text} {d : Char}
    (h : SplitInputs s array str delimiter sValue [d]) (hresult : s.value result = none)
    (hseparator : s.value separator = some [d]) :
    JoinUndoesSplit enumeration s array str delimiter result separator sValue ↔
      d ∉ sValue ∨ [d] = idText separator := by
  have hends : Cmd.Ends (do
      splitBody array str delimiter
      stringJoinBody enumeration result array separator) s fun _ t =>
        t.value result = some ((idText separator).intercalate (tclSplit sValue [d])) := by
    refine (splitBody_ends h).bind ?_
    rintro - t ⟨hentries, hvalue⟩
    have hperm : (t.contents array).entries.Perm (splitImpl sValue [d]).entries := by
      rw [hentries]
    rw [← stringJoinImpl_splitImpl, ← stringJoinImpl_perm hperm]
    exact stringJoinBody_ends enumeration
      ⟨by rw [hvalue, hresult], rfl, by rw [hvalue, hseparator]⟩
  rw [JoinUndoesSplit, Cmd.ends_eq_iff hends, Option.some.injEq, ← length_tclSplit_le_one_iff,
    eq_comm (a := [d]), ← intercalate_eq_iff, intercalate_tclSplit]

theorem join_undoes_split_iff (enumeration : Enumeration) :
    (∀ s d, stringJoinImpl (splitImpl s [d]) [d] = s) ∧
      (∀ s result str delimiter sValue dValue,
        SplitInputs s result str delimiter sValue dValue →
          SplitMeets s result str delimiter sValue dValue) ∧
      (∀ s result container separator array v,
        JoinInputs s result container separator array v →
          (JoinMeets enumeration s result container separator array v ↔
            array.entries.length ≤ 1 ∨ v = idText separator)) ∧
      ∀ s array str delimiter result separator sValue d,
        SplitInputs s array str delimiter sValue [d] → s.value result = none →
          s.value separator = some [d] →
            (JoinUndoesSplit enumeration s array str delimiter result separator sValue ↔
              d ∉ sValue ∨ [d] = idText separator) := by
  refine ⟨?_, ?_, ?_, ?_⟩
  · intro s d
    rw [stringJoinImpl_splitImpl, intercalate_tclSplit]
  · intro s result str delimiter sValue dValue h
    exact (splitBody_ends h).mono fun _ _ ht => ht.1
  · intro s result container separator array v h
    rw [JoinMeets, Cmd.ends_eq_iff (stringJoinBody_ends enumeration h), Option.some.injEq,
      stringJoinImpl_eq_iff, eq_comm (a := v)]
  · intro s array str delimiter result separator sValue d h hresult hseparator
    exact joinUndoesSplit_iff enumeration h hresult hseparator

def strings (str delimiter : Text) : Store ℤ Text where
  value := fun id => [none, some str, some delimiter].getD id none
  readRefs _ := 1
  contents _ := .empty
  writeRefs _ := 1

def inOrder : Enumeration := ⟨id, fun _ => .refl _⟩

theorem join_undoes_split_iff_whole :
    SplitMeets (strings ['a'] [',']) 3 1 2 ['a'] [','] ∧
      JoinMeets inOrder (strings ['a'] ['2']) 4 3 2 .empty ['2'] ∧
        JoinUndoesSplit inOrder (strings ['a'] [',']) 3 1 2 4 2 ['a'] := by
  obtain ⟨-, hsplit, hjoin, hundoes⟩ := join_undoes_split_iff inOrder
  have hinputs : SplitInputs (strings ['a'] [',']) 3 1 2 ['a'] [','] := ⟨rfl, rfl, rfl⟩
  exact ⟨hsplit _ 3 1 2 ['a'] [','] hinputs,
    (hjoin _ 4 3 2 .empty ['2'] ⟨rfl, rfl, rfl⟩).mpr (.inl (Nat.zero_le 1)),
    (hundoes _ 3 1 2 4 2 ['a'] ',' hinputs rfl rfl).mpr (.inl (by decide))⟩

/-- The fields of `a,b` come back with the id of the separator between them. -/
theorem not_join_undoes_split :
    ¬ ∀ enumeration s array str delimiter result separator sValue d,
      SplitInputs s array str delimiter sValue [d] → s.value result = none →
        s.value separator = some [d] →
          JoinUndoesSplit enumeration s array str delimiter result separator sValue := by
  intro h
  have hinputs : SplitInputs (strings ['a', ',', 'b'] [',']) 3 1 2 ['a', ',', 'b'] [','] :=
    ⟨rfl, rfl, rfl⟩
  have hcond := (joinUndoesSplit_iff inOrder hinputs rfl rfl).mp
    (h inOrder _ 3 1 2 4 2 _ ',' hinputs rfl rfl)
  exact absurd hcond (by decide)

end Turbine.Strings.Fields
