import Turbine.Data.Integers

/-! Integers read from strings, and the strings that are made of them. -/

namespace Turbine.Data.Integers

open Turbine.Library Radix

/-- `Turbine_ParseInt_Impl` -/
def parseInt (str : Text) (base : ℕ) : Except Stop ℤ :=
  let name := String.ofList str
  let conversion := strtol str base
  match conversion.errno with
  | some .erange => .error (.user
      s!"toint: Integer representation of '{name}' base {base} is out of range of 64 bit integers")
  | some .einval => .error (.user
      s!"toint: '{name}' cannot be interpreted as an base {base} integer ")
  | none =>
    let consumed := str.length - conversion.rest.length
    if consumed = 0 then
      .error (.user s!"toint: '{name}' cannot be interpreted as a base {base} integer ")
    else if consumed < str.length ∧ (str.drop consumed).any (!isSpace ·) then
      .error (.user s!"toint: Invalid trailing characters in '{name}'")
    else .ok conversion.val

def tointImpl (str : Text) : Except Stop ℤ := parseInt str 10

/-- `Tcl_GetIntFromObj`: as for wide integers, with 32 bits. -/
def getInt (s : Text) : Option ℤ :=
  (getWideInt s).bind fun n =>
    if -2 ^ 32 < n ∧ n < 2 ^ 32 then some (Int.bmod n (2 ^ 32)) else none

def parseIntImpl (str base : Text) : Except Stop ℤ :=
  match getInt base with
  | none => .error (.badValue base)
  | some b =>
    if b ≥ 1 then parseInt str b.toNat else .error (.user s!"Base must be positive: {b}")

def tointBody (input result : ℕ) : Script Unit := do
  let t ← adlbRetrieveDecr input 1 none
  let i ← Cmd.ofExcept (tointImpl t)
  storeInteger result (text i)

def parseIntBody (str base result : ℕ) : Script Unit := do
  let strVal ← retrieveString str "CACHED" 1
  let baseVal ← retrieveInteger base "CACHED" 1
  let i ← Cmd.ofExcept (parseIntImpl strVal baseVal)
  storeInteger result (text i)

def fromintBody (result input : ℕ) : Script Unit := do
  let t ← retrieveInteger input "CACHED" 1
  storeString result t

/-! ### What is accepted -/

/-- White space, a sign, `0x` if the base is 16, digits and white space, for an integer of 64 bits. -/
def IsNumber (s : Text) (base : ℕ) (n : ℤ) : Prop :=
  ∃ p : Parts, p.WellFormed base ∧ (∀ c ∈ p.trailing, isSpace c = true) ∧ p.text = s ∧
    p.denotes base = n ∧ Fits64 n

/-- When the number ends at `p.trailing`, it is accepted if it fits and only white space follows. -/
lemma parseInt_parts {p : Parts} {base : ℕ} (hne : p.digits ≠ [])
    (hconversion : strtol p.text base =
      if Fits64 (p.denotes base) then ⟨p.denotes base, none, p.trailing⟩
      else ⟨outermost p.negative, some .erange, p.trailing⟩) (n : ℤ) :
    parseInt p.text base = .ok n ↔
      (∀ c ∈ p.trailing, isSpace c = true) ∧ p.denotes base = n ∧ Fits64 n := by
  by_cases hfits : Fits64 (p.denotes base)
  · rw [if_pos hfits] at hconversion
    have hfront : p.text = (p.blanks ++ p.sign ++ p.zeroX ++ p.digits) ++ p.trailing := by
      simp [Parts.text]
    have hconsumed : p.text.length - p.trailing.length =
        (p.blanks ++ p.sign ++ p.zeroX ++ p.digits).length := by
      rw [hfront, List.length_append, Nat.add_sub_cancel]
    have hpos : (p.blanks ++ p.sign ++ p.zeroX ++ p.digits).length ≠ 0 := by
      simp [hne]
    have hdrop : p.text.drop (p.blanks ++ p.sign ++ p.zeroX ++ p.digits).length = p.trailing := by
      rw [hfront, List.drop_left]
    simp only [parseInt, hconversion, hconsumed, if_neg hpos, hdrop]
    split_ifs with hrest
    · simp only [false_iff]
      rintro ⟨hspaces, -⟩
      obtain ⟨c, hc, hnot⟩ := List.any_eq_true.mp hrest.2
      rw [hspaces c hc] at hnot
      exact absurd hnot (by decide)
    · have hspaces : ∀ c ∈ p.trailing, isSpace c = true := by
        intro c hc
        by_contra hnot
        refine hrest ⟨?_, List.any_eq_true.mpr ⟨c, hc, by simpa using hnot⟩⟩
        have hlength := congrArg List.length hfront
        rw [List.length_append] at hlength
        have hpos := List.length_pos_of_mem hc
        omega
      rw [Except.ok.injEq]
      exact ⟨fun heq => ⟨hspaces, heq, heq ▸ hfits⟩, fun h => h.2.1⟩
  · rw [if_neg hfits] at hconversion
    simp only [parseInt, hconversion, reduceCtorEq, false_iff]
    rintro ⟨-, rfl, hfits'⟩
    exact hfits hfits'

lemma isSpace_ne {base : ℕ} (hbase : base ≤ 36) {c : Char} (h : isSpace c = true) :
    isDigit base c = false ∧ c ≠ 'x' ∧ c ≠ 'X' := by
  refine ⟨?_, ?_, ?_⟩
  · by_contra hdigit
    rw [Bool.not_eq_false] at hdigit
    rw [(isDigit_ne hbase hdigit).1] at h
    exact Bool.noConfusion h
  · rintro rfl
    exact absurd h (by decide)
  · rintro rfl
    exact absurd h (by decide)

lemma parseInt_eq_ok_iff {s : Text} {base : ℕ} (hbase : 2 ≤ base ∧ base ≤ 36) {n : ℤ} :
    parseInt s base = .ok n ↔ IsNumber s base n := by
  constructor
  · intro h
    rcases strtol_cases hbase s with hnothing | ⟨p, hp, rfl, hconversion⟩
    · simp [parseInt, hnothing] at h
    · obtain ⟨hspaces, hn, hfits⟩ := (parseInt_parts hp.nonempty hconversion n).mp h
      exact ⟨p, hp, hspaces, rfl, hn, hfits⟩
  · rintro ⟨p, hp, hspaces, rfl, hn, hfits⟩
    have hconversion := hp.strtol_text hbase fun c hc => isSpace_ne hbase.2 (hspaces c hc)
    exact (parseInt_parts hp.nonempty hconversion n).mpr ⟨hspaces, hn, hfits⟩

/-- What `strtol` and the two checks behind it refuse is reported to the user. -/
lemma parseInt_error (s : Text) (base : ℕ) (h : ∀ n, parseInt s base ≠ .ok n) :
    ∃ message, parseInt s base = .error (.user message) := by
  unfold parseInt at h ⊢
  dsimp only at h ⊢
  split
  · exact ⟨_, rfl⟩
  · exact ⟨_, rfl⟩
  · next hnone =>
    rw [hnone] at h
    dsimp only at h
    split_ifs at h ⊢
    · exact ⟨_, rfl⟩
    · exact ⟨_, rfl⟩
    · exact absurd rfl (h _)

lemma getInt_text {base : ℕ} (hbase : base ≤ 36) : getInt (text base) = some (base : ℤ) := by
  have hfits : Fits64 (base : ℤ) := ⟨by omega, by omega⟩
  rw [getInt, getWideInt_text hfits, Option.bind_some, if_pos ⟨by omega, by omega⟩,
    Int.bmod_eq_of_le (by omega) (by omega)]

lemma parseIntImpl_text (s : Text) {base : ℕ} (hbase : 2 ≤ base ∧ base ≤ 36) :
    parseIntImpl s (text base) = parseInt s base := by
  have hpos : (base : ℤ) ≥ 1 := by omega
  simp only [parseIntImpl, getInt_text hbase.2]
  rw [if_pos hpos, Int.toNat_natCast]

lemma isNumber_text {n : ℤ} (h : Fits64 n) : IsNumber (text n) 10 n := by
  refine ⟨⟨[], if n < 0 then ['-'] else [], [], Nat.toDigits 10 n.natAbs, []⟩, ⟨?_, ?_, .inl rfl,
    Nat.toDigits_ne_nil, fun c hc => (mem_toDigits hc).2.1⟩, ?_, ?_, ?_, h⟩
  · simp
  · dsimp only
    split_ifs
    · exact .inr (.inr rfl)
    · exact .inl rfl
  · simp
  · simp only [Parts.text, text, List.nil_append, List.append_nil]
    split_ifs <;> rfl
  · have hnegative : (decide ((if n < 0 then ['-'] else []) = ['-'])) = decide (n < 0) := by
      split_ifs with hneg <;> simp [hneg]
    simp only [Parts.denotes, Parts.negative, hnegative, value_toDigits, withSign_natAbs]

lemma tointImpl_text {n : ℤ} (h : Fits64 n) : tointImpl (text n) = .ok n :=
  (parseInt_eq_ok_iff ⟨by omega, by omega⟩).mpr (isNumber_text h)

lemma trimmed_text (n : ℤ) : trimmed (text n) = text n := by
  by_cases hn : n = 0
  · subst hn
    decide
  · have hdrop : (text n).dropWhile (· = '0') = text n := by
      apply dropWhile_eq_self
      have hhead : (text n).head? ≠ some '0' := by
        unfold text
        split_ifs
        · simp
        · exact head_toDigits (by omega)
      intro c hc
      have hne : c ≠ '0' := by
        rintro rfl
        exact hhead hc
      simpa using hne
    rw [trimmed, hdrop, ite_self]

/-! ### The bodies -/

section Bodies

variable {s : State} {input result : ℕ} {n : ℤ}

lemma fromintBody_apply (hn : Fits64 n) (hinput : s.server input = some (.integer n))
    (hcache : s.cache input = some (.integer n) ∨ s.cache input = none)
    (hresult : s.server result = none) :
    ∃ t, fromintBody result input s = (.ok (), t) ∧
      t.server = Function.update s.server result (some (.string (text n))) := by
  have hencode : encode .integer (Datum.integer n).text = some (.integer n) := by
    rw [encode, Datum.text, getWideInt_text hn]
    rfl
  obtain ⟨t, ht, hserver⟩ :=
    retrieveTyped_text (d := .integer n) rfl hencode hinput hcache "CACHED" 1
  have hunset : t.server result = none := by rw [hserver, hresult]
  have hread : retrieveInteger input "CACHED" 1 s = (.ok (text n), t) := ht
  refine ⟨{ t with server := Function.update t.server result (some (.string (text n))) }, ?_, ?_⟩
  · rw [fromintBody, Cmd.bind_of_ok hread]
    exact adlbStore_apply rfl hunset
  · exact congrArg (Function.update · result _) hserver

lemma tointBody_apply {str : Text} (hinput : s.server input = some (.string str))
    (hresult : s.server result = none) (hn : tointImpl str = .ok n) (hfits : Fits64 n) :
    ∃ t, tointBody input result s = (.ok (), t) ∧
      t.server = Function.update s.server result (some (.integer n)) := by
  have hretrieve : adlbRetrieveDecr input 1 none s = (.ok str, s.drop input 1) := by
    simp [adlbRetrieveDecr, hinput, Datum.text]
  have hstore : getWideInt (trimmed (text n)) = some n := by
    rw [trimmed_text, getWideInt_text hfits]
  have hunset : (s.drop input 1).server result = none := hresult
  have hparse : Cmd.ofExcept (tointImpl str) (s.drop input 1) = (.ok n, s.drop input 1) := by
    rw [Cmd.ofExcept_apply, hn]
  have hbody : tointBody input result s = storeInteger result (text n) (s.drop input 1) := by
    rw [tointBody, Cmd.bind_of_ok hretrieve, Cmd.bind_of_ok hparse]
  exact ⟨_, hbody.trans (storeInteger_apply hstore hunset), rfl⟩

lemma tointBody_of_error {str : Text} (hinput : s.server input = some (.string str))
    {stop : Stop} (hstop : tointImpl str = .error stop) :
    tointBody input result s = (.error stop, s.drop input 1) := by
  have hretrieve : adlbRetrieveDecr input 1 none s = (.ok str, s.drop input 1) := by
    simp [adlbRetrieveDecr, hinput, Datum.text]
  rw [tointBody, Cmd.bind_of_ok hretrieve]
  apply Cmd.bind_of_error
  rw [Cmd.ofExcept_apply, hstop]

end Bodies

/-! ### Main result -/

/-- What denotes no number in the base is refused. -/
def RefusesOthers (base : ℕ) : Prop :=
  ∀ s, (¬∃ n, IsNumber s base n) → ∃ message, parseIntImpl s (text base) = .error (.user message)

/-- A future whose value is the text of `n`, as `fromint` stores it, is stored back as `n`. -/
def ComesBack (n : ℤ) : Prop :=
  ∀ (s : State) input middle result, s.server input = some (.integer n) →
    (s.cache input = some (.integer n) ∨ s.cache input = none) → s.server middle = none →
    ∃ str t, fromintBody middle input s = (.ok (), t) ∧
      t.server = Function.update s.server middle (some (.string str)) ∧ tointImpl str = .ok n ∧
      ∀ u : State, u.server middle = t.server middle → u.server result = none →
        ∃ v, tointBody middle result u = (.ok (), v) ∧
          v.server = Function.update u.server result (some (.integer n))

theorem parse_int_reads_numbers {base : ℕ} (hbase : 2 ≤ base ∧ base ≤ 36) :
    (∀ s n, parseIntImpl s (text base) = .ok n ↔ IsNumber s base n) ∧ RefusesOthers base ∧
      (∀ (s : State) input result str, s.server input = some (.string str) →
        (¬∃ n, IsNumber str 10 n) →
        ∃ message, tointBody input result s = (.error (.user message), s.drop input 1)) ∧
      ∀ n, Fits64 n → ComesBack n := by
  refine ⟨?_, ?_, ?_, ?_⟩
  · intro s n
    rw [parseIntImpl_text s hbase, parseInt_eq_ok_iff hbase]
  · intro s hnone
    rw [parseIntImpl_text s hbase]
    exact parseInt_error _ _ fun n hn => hnone ⟨n, (parseInt_eq_ok_iff hbase).mp hn⟩
  · intro s input result str hinput hnone
    obtain ⟨message, hmessage⟩ := parseInt_error str 10 fun n hn =>
      hnone ⟨n, (parseInt_eq_ok_iff ⟨by omega, by omega⟩).mp hn⟩
    exact ⟨message, tointBody_of_error hinput hmessage⟩
  · intro n hfits s input middle result hinput hcache hmiddle
    obtain ⟨t, ht, hserver⟩ := fromintBody_apply hfits hinput hcache hmiddle
    refine ⟨text n, t, ht, hserver, tointImpl_text hfits, fun u hu hresult => ?_⟩
    rw [hserver, Function.update_self] at hu
    exact tointBody_apply hu hresult (tointImpl_text hfits) hfits

theorem parse_int_reads_numbers_decimal :
    (∀ s n, parseIntImpl s (text 10) = .ok n ↔ IsNumber s 10 n) ∧ RefusesOthers 10 ∧
      (∀ (s : State) input result str, s.server input = some (.string str) →
        (¬∃ n, IsNumber str 10 n) →
        ∃ message, tointBody input result s = (.error (.user message), s.drop input 1)) ∧
      ∀ n, Fits64 n → ComesBack n :=
  parse_int_reads_numbers ⟨by decide, by decide⟩

end Turbine.Data.Integers
