import Turbine.Dataflow.Meaning

/-! Every body reads its inputs, from the cache or from the server, drops a reference to each and
stores what the call means, or stops with the error of the call. -/

namespace Turbine.Dataflow

open Turbine.Library Radix Dataflow Turbine.Data.Integers Turbine.Strings.Substrings

variable {types : ℕ → Ty}

/-- The futures that are set have their types and values that come back from the server. -/
structure Sound (types : ℕ → Ty) (server : ℕ → Option Datum) : Prop where
  typed : ∀ i d, server i = some d → d.type = types i
  stored : ∀ i d, server i = some d → encode d.type d.text = some d

def Coherent (server cache : ℕ → Option Datum) : Prop := ∀ i d, cache i = some d → server i = some d

structure Holds (types : ℕ → Ty) (s : State) : Prop where
  sound : Sound types s.server
  coherent : Coherent s.server s.cache

/-- Between the two states, these futures were read, each as often as it occurs. -/
structure Reads (types : ℕ → Ty) (ids : List ℕ) (s t : State) : Prop where
  server : t.server = s.server
  refs : ∀ i, t.readRefs i = s.readRefs i - ids.count i
  holds : Holds types t

/-- What a call that means `r` leaves of a state. -/
def Outcome (types : ℕ → Ty) (task : Task ℕ Datum Stop) (s : State) :
    Except Stop Datum → Except Stop Unit × State → Prop
  | .ok d, (r, t) => r = .ok () ∧ t.server = Function.update s.server task.output (some d) ∧
      (∀ i, t.readRefs i = s.readRefs i - task.inputs.count i) ∧ Holds types t
  | .error e, (r, t) => r = .error e ∧ t.server = s.server ∧ Holds types t

/-- The action does what the call means, wherever its inputs are set and its output is not. -/
def Implements (types : ℕ → Ty) (action : Script Unit) (task : Task ℕ Datum Stop) : Prop :=
  ∀ s vals, Holds types s → s.server task.output = none →
    (∀ i ∈ task.inputs, s.server i = some (vals i)) →
    Outcome types task s (task.compute (task.inputs.map vals)) (action s)

/-! ### Texts of integers -/

lemma tclNumber_toDigits (n : ℕ) : tclNumber (Nat.toDigits 10 n) = some n := by
  have hdigits : ∀ c ∈ Nat.toDigits 10 n, isDigit 10 c = true := fun c hc => (mem_toDigits hc).2.1
  have hmeans := tclNumber_eq_iff Nat.toDigits_ne_nil hdigits
  rw [value_toDigits] at hmeans
  rw [hmeans]
  by_cases hn : n = 0
  · exact .inr ⟨by simp [hn, significant], by simp [hn, isDigit, Radix.digitValue]⟩
  · exact .inl (head_toDigits hn)

lemma signed_trim_text (n : ℤ) :
    signed (trim (text n)) = (decide (n < 0), Nat.toDigits 10 n.natAbs) := by
  rw [trim_eq_self (isSpace_of_decimal (decimalOf_text n)), signed_text]

@[simp] lemma operand_text (n : ℤ) : operand (text n) = .ok n := by
  simp only [operand, signed_trim_text, tclNumber_toDigits, withSign_natAbs]

lemma getWideInt_text_eq (n : ℤ) : getWideInt (text n) = wide n := by
  simp only [getWideInt, signed_trim_text, tclNumber_toDigits, withSign_natAbs, Option.bind_some]

lemma fits_of_wide {n m : ℤ} (h : wide n = some m) : Fits64 m := by
  rw [wide] at h
  split_ifs at h
  rw [← Option.some.inj h]
  have hlow := Int.le_bmod (x := n) (m := 2 ^ 64) (by omega)
  have hhigh := Int.bmod_lt (x := n) (m := 2 ^ 64) (by omega)
  exact ⟨by omega, by omega⟩

lemma index_text (n : ℤ) : index (text n) = position n := by
  rw [index, getInt, getWideInt_text_eq, position]
  cases wide n with
  | none => rfl
  | some m =>
    rw [Option.bind_some]
    dsimp only
    split_ifs <;> rfl

/-! ### Reading -/

section Reads

variable {ids : List ℕ} {s t : State} {i : ℕ} {d : Datum}

lemma reads_start (h : Holds types s) : Reads types [] s s := ⟨rfl, by simp, h⟩

lemma Reads.drop (h : Reads types ids s t) (i : ℕ) : Reads types (ids ++ [i]) s (t.drop i 1) where
  server := h.server
  refs j := by
    by_cases hj : j = i
    · subst hj
      simp [State.drop, h.refs]
      omega
    · simp [State.drop, Function.update_of_ne hj, h.refs, Ne.symm hj]
  holds := ⟨h.holds.sound, h.holds.coherent⟩

lemma Reads.fill (h : Reads types ids s t) (hi : s.server i = some d) :
    Reads types ids s { t with cache := Function.update t.cache i (some d) } where
  server := h.server
  refs := h.refs
  holds := by
    refine ⟨h.holds.sound, fun j e he => ?_⟩
    dsimp only at he ⊢
    by_cases hj : j = i
    · subst hj
      rw [Function.update_self] at he
      rw [← he, ← hi, h.server]
    · rw [Function.update_of_ne hj] at he
      exact h.holds.coherent j e he

lemma Reads.typed (h : Reads types ids s t) {type : Ty} (htype : types i = type)
    (hi : s.server i = some d) :
    ∃ u, retrieveTyped type i "CACHED" 1 t = (.ok d.text, u) ∧ Reads types (ids ++ [i]) s u := by
  have hserver : t.server i = some d := by rw [h.server, hi]
  have hd : d.type = type := (h.holds.sound.typed i d hserver).trans htype
  have hencode : encode type d.text = some d := hd ▸ h.holds.sound.stored i d hserver
  cases hcache : t.cache i with
  | some e =>
    have he : some e = some d := (h.holds.coherent i e hcache).symm.trans hserver
    obtain rfl := Option.some.inj he
    refine ⟨t.drop i 1, ?_, h.drop i⟩
    simp [retrieveTyped, Cmd.bind_apply, cacheCheck, cacheRetrieve, hcache,
      readRefcountDecr, Cmd.map_apply, Except.map]
  | none =>
    have hretrieve : adlbRetrieveDecr i 1 (some type) t = (.ok d.text, t.drop i 1) := by
      simp [adlbRetrieveDecr, hserver, hd]
    refine ⟨_, ?_, (h.drop i).fill hi⟩
    simp [retrieveTyped, Cmd.bind_apply, cacheCheck, hcache, hretrieve,
      cacheStore_apply hencode, Cmd.map_apply, Except.map]

lemma Reads.untyped (h : Reads types ids s t) (hi : s.server i = some d) :
    ∃ u, retrieveDecr i t = (.ok d.text, u) ∧ Reads types (ids ++ [i]) s u :=
  ⟨t.drop i 1, by simp [retrieveDecr, adlbRetrieveDecr, h.server, hi], h.drop i⟩

lemma Reads.mapM {get : ℕ → Script Text} {vals : ℕ → Datum} {inputs : List ℕ}
    (h : Reads types ids s t)
    (hget : ∀ ids t, Reads types ids s t → ∀ i ∈ inputs,
      ∃ u, get i t = (.ok (vals i).text, u) ∧ Reads types (ids ++ [i]) s u) :
    ∃ u, inputs.mapM get t = (.ok ((inputs.map vals).map Datum.text), u) ∧
      Reads types (ids ++ inputs) s u := by
  induction inputs generalizing ids t with
  | nil => exact ⟨t, rfl, by rwa [List.append_nil]⟩
  | cons i inputs ih =>
    obtain ⟨u, hu, hreads⟩ := hget ids t h i (.head _)
    obtain ⟨v, hv, hreads⟩ := ih hreads fun ids t h j hj => hget ids t h j (.tail _ hj)
    refine ⟨v, ?_, by rwa [List.append_cons]⟩
    rw [List.mapM_cons, Cmd.bind_of_ok hu, Cmd.bind_of_ok hv]
    rfl

end Reads

/-! ### Storing -/

section Stores

variable {task : Task ℕ Datum Stop} {s t : State}

lemma Sound.update {server : ℕ → Option Datum} (h : Sound types server) {i : ℕ} {d : Datum}
    (htype : d.type = types i) (hd : encode d.type d.text = some d) :
    Sound types (Function.update server i (some d)) where
  typed j e he := by
    by_cases hj : j = i
    · subst hj
      rw [Function.update_self, Option.some_inj] at he
      rw [← he, htype]
    · rw [Function.update_of_ne hj] at he
      exact h.typed j e he
  stored j e he := by
    by_cases hj : j = i
    · subst hj
      rw [Function.update_self, Option.some_inj] at he
      rw [← he, hd]
    · rw [Function.update_of_ne hj] at he
      exact h.stored j e he

lemma Coherent.update {server cache : ℕ → Option Datum} (h : Coherent server cache) {i : ℕ}
    (hi : server i = none) (d : Datum) : Coherent (Function.update server i (some d)) cache := by
  intro j e he
  have hj : j ≠ i := by
    rintro rfl
    rw [h j e he] at hi
    cases hi
  rw [Function.update_of_ne hj]
  exact h j e he

lemma Coherent.update_both {server cache : ℕ → Option Datum} (h : Coherent server cache) (i : ℕ)
    (d : Option Datum) : Coherent (Function.update server i d) (Function.update cache i d) := by
  intro j e he
  by_cases hj : j = i
  · subst hj
    rwa [Function.update_self] at he ⊢
  · rw [Function.update_of_ne hj] at he ⊢
    exact h j e he

lemma encode_integer {n : ℤ} (h : Fits64 n) :
    encode (Datum.integer n).type (Datum.integer n).text = some (.integer n) := by
  rw [Datum.type, Datum.text, encode, getWideInt_text h]
  rfl

lemma getWideInt_fits {value : Text} {n : ℤ} (h : getWideInt value = some n) : Fits64 n := by
  obtain ⟨m, -, hm⟩ := Option.bind_eq_some_iff.mp h
  exact fits_of_wide hm

lemma ofText_text (n : ℤ) : ofText (text n) = ofInteger n := by
  rw [ofText, trimmed_text, getWideInt_text_eq, ofInteger]

lemma ofInteger_of_fits {n : ℤ} (h : Fits64 n) : ofInteger n = .ok (.integer n) := by
  rw [ofInteger, wide_of_fits h]

lemma Reads.integer_stored (h : Reads types task.inputs s t) (hunset : s.server task.output = none)
    (htype : types task.output = .integer) (value : Text) :
    Outcome types task s (ofText value) (storeInteger task.output value t) := by
  have hserver : t.server task.output = none := by rw [h.server, hunset]
  rw [ofText]
  cases hn : getWideInt (trimmed value) with
  | some n =>
    rw [storeInteger_apply hn hserver]
    refine ⟨rfl, by rw [h.server], h.refs, ?_, ?_⟩
    · exact h.holds.sound.update htype.symm (encode_integer (getWideInt_fits hn))
    · exact h.holds.coherent.update_both _ _
  | none =>
    have hencode : encode .integer (trimmed value) = none := by rw [encode, hn]; rfl
    have hstore : adlbStore task.output .integer (trimmed value) t =
        (.error (.badValue (trimmed value)), t) := by
      simp only [adlbStore, hencode]
    rw [storeInteger, Cmd.bind_of_error hstore]
    exact ⟨rfl, h.server, h.holds⟩

lemma Reads.string_stored (h : Reads types task.inputs s t) (hunset : s.server task.output = none)
    (htype : types task.output = .string) (value : Text) :
    Outcome types task s (.ok (.string value)) (storeString task.output value t) := by
  have hserver : t.server task.output = none := by rw [h.server, hunset]
  rw [storeString, adlbStore_apply (d := .string value) rfl hserver]
  refine ⟨rfl, by rw [h.server], h.refs, ?_, ?_⟩
  · exact h.holds.sound.update htype.symm rfl
  · exact h.holds.coherent.update hserver _

end Stores

/-! ### The bodies -/

section Bodies

variable {task : Task ℕ Datum Stop} {s t : State} {i : ℕ} {d : Datum}

lemma Holds.integer (h : Holds types s) (hi : s.server i = some d) (htype : types i = .integer) :
    ∃ n, d = .integer n := by
  have hd := (h.sound.typed i d hi).trans htype
  cases d with
  | integer n => exact ⟨n, rfl⟩
  | string v => cases hd

lemma Holds.string (h : Holds types s) (hi : s.server i = some d) (htype : types i = .string) :
    ∃ v, d = .string v := by
  have hd := (h.sound.typed i d hi).trans htype
  cases d with
  | integer n => cases hd
  | string v => exact ⟨v, rfl⟩

lemma outcome_bind {α : Type} {m : Except Stop α} {f : α → Except Stop Datum} {k : α → Script Unit}
    (hreads : Reads types task.inputs s t) (h : ∀ a, Outcome types task s (f a) (k a t)) :
    Outcome types task s (m >>= f) ((Cmd.ofExcept m >>= k) t) := by
  cases m with
  | error e => exact ⟨rfl, hreads.server, hreads.holds⟩
  | ok a => exact h a

lemma outcome_integer {m : Except Stop ℤ} {r : Except Stop Text} (hr : r = m.map text)
    (h : Reads types task.inputs s t) (hunset : s.server task.output = none)
    (htype : types task.output = .integer) :
    Outcome types task s (m >>= ofInteger)
      ((Cmd.ofExcept r >>= fun value => storeInteger task.output value) t) := by
  subst hr
  cases m with
  | error e => exact ⟨rfl, h.server, h.holds⟩
  | ok n =>
    have hstore := h.integer_stored hunset htype (text n)
    rwa [ofText_text] at hstore

lemma outcome_string {r : Except Stop Text} (h : Reads types task.inputs s t)
    (hunset : s.server task.output = none) (htype : types task.output = .string) :
    Outcome types task s (r >>= fun value => .ok (.string value))
      ((Cmd.ofExcept r >>= fun value => storeString task.output value) t) :=
  outcome_bind h fun value => h.string_stored hunset htype value

end Bodies

/-! ### What the implementations compute -/

def Unary.impl : Unary → Text → Except Stop Text
  | .negateInteger => expr₁ (0 - ·)
  | .absInteger => expr₁ (|·|)
  | .not => expr₁ fun a => truth (a = 0)
  | .copyInteger => .ok

def Binary.impl : Binary → Text → Text → Except Stop Text
  | .plusInteger => expr₂ (· + ·)
  | .minusInteger => expr₂ (· - ·)
  | .multiplyInteger => expr₂ (· * ·)
  | .divideInteger => divideIntegerImpl
  | .modInteger => modIntegerImpl
  | .maxInteger => expr₂ max
  | .minInteger => expr₂ min
  | .and => exprAnd
  | .or => exprOr
  | .eqInteger => expr₂ fun a b => truth (a = b)
  | .neqInteger => expr₂ fun a b => truth (a ≠ b)
  | .ltInteger => expr₂ fun a b => truth (a < b)
  | .lteInteger => expr₂ fun a b => truth (a ≤ b)
  | .gtInteger => expr₂ fun a b => truth (a > b)
  | .gteInteger => expr₂ fun a b => truth (a ≥ b)

lemma Unary.action_eq (op : Unary) (c a : ℕ) : (op.rule c a).action = unaryBody op.impl c a := by
  cases op <;> rfl

lemma Binary.action_eq (op : Binary) (c a b : ℕ) :
    (op.rule c a b).action = binaryBody op.impl c a b := by
  cases op <;> rfl

lemma Unary.impl_text (op : Unary) (a : ℤ) : op.impl (text a) = .ok (text (op.meaning a)) := by
  cases op with
  | negateInteger => simp [impl, expr₁, meaning, bind, Except.bind, pure, Except.pure]
  | absInteger => simp [impl, expr₁, meaning, bind, Except.bind, pure, Except.pure]
  | not => simp [impl, expr₁, meaning, bind, Except.bind, pure, Except.pure]
  | copyInteger => rfl

lemma expr₂_text (f : ℤ → ℤ → ℤ) (a b : ℤ) : expr₂ f (text a) (text b) = .ok (text (f a b)) := by
  simp [expr₂, bind, Except.bind, pure, Except.pure]

/-- The quotient of the absolute values with the sign of both is the truncated quotient. -/
lemma sign_mul_fdiv (a b : ℤ) :
    (if b < 0 then (if a < 0 then 1 * -1 else 1) * -1 else if a < 0 then 1 * -1 else 1) *
      Int.fdiv |a| |b| = Int.tdiv a b := by
  rw [Int.fdiv_eq_ediv_of_nonneg _ (abs_nonneg b), ← Int.tdiv_eq_ediv_of_nonneg (abs_nonneg a)]
  split_ifs with hb ha ha
  · rw [abs_of_neg ha, abs_of_neg hb, Int.neg_tdiv, Int.tdiv_neg]
    ring
  · rw [abs_of_nonneg (not_lt.mp ha), abs_of_neg hb, Int.tdiv_neg]
    ring
  · rw [abs_of_neg ha, abs_of_nonneg (not_lt.mp hb), Int.neg_tdiv]
    ring
  · rw [abs_of_nonneg (not_lt.mp ha), abs_of_nonneg (not_lt.mp hb), one_mul]

lemma sign_mul_fmod (a b : ℤ) :
    (if a ≥ 0 then 1 else -1) * Int.fmod |a| |b| = Int.tmod a b := by
  have habs : Int.tmod a |b| = Int.tmod a b := by
    rcases abs_choice b with hb | hb <;> rw [hb]
    rw [Int.tmod_neg]
  rw [Int.fmod_eq_emod_of_nonneg _ (abs_nonneg b), ← Int.tmod_eq_emod_of_nonneg (abs_nonneg a),
    ← habs]
  split_ifs with ha
  · rw [abs_of_nonneg ha, one_mul]
  · rw [abs_of_neg (not_le.mp ha), Int.neg_tmod]
    ring

lemma divideIntegerImpl_text (a b : ℤ) :
    divideIntegerImpl (text a) (text b) = (Binary.divideInteger.meaning a b).map text := by
  simp only [divideIntegerImpl, operand_text, Binary.meaning, bind, Except.bind]
  by_cases hb : b = 0
  · rw [if_pos (abs_eq_zero.mpr hb), if_pos hb]
    rfl
  · rw [if_neg (fun h => hb (abs_eq_zero.mp h)), if_neg hb, sign_mul_fdiv]
    rfl

lemma modIntegerImpl_text (a b : ℤ) :
    modIntegerImpl (text a) (text b) = (Binary.modInteger.meaning a b).map text := by
  simp only [modIntegerImpl, operand_text, Binary.meaning, bind, Except.bind]
  by_cases hb : b = 0
  · rw [if_pos (abs_eq_zero.mpr hb), if_pos hb]
    rfl
  · rw [if_neg (fun h => hb (abs_eq_zero.mp h)), if_neg hb, sign_mul_fmod]
    rfl

lemma exprAnd_text (a b : ℤ) :
    exprAnd (text a) (text b) = .ok (text (truth (a ≠ 0 ∧ b ≠ 0))) := by
  simp only [exprAnd, operand_text, bind, Except.bind]
  by_cases ha : a = 0
  · simp [ha, truth, pure, Except.pure]
  · simp [ha, pure, Except.pure]

lemma exprOr_text (a b : ℤ) :
    exprOr (text a) (text b) = .ok (text (truth (a ≠ 0 ∨ b ≠ 0))) := by
  simp only [exprOr, operand_text, bind, Except.bind]
  by_cases ha : a = 0
  · simp [ha, pure, Except.pure]
  · simp [ha, truth, pure, Except.pure]

lemma Binary.impl_text (op : Binary) (a b : ℤ) :
    op.impl (text a) (text b) = (op.meaning a b).map text := by
  cases op with
  | divideInteger => exact divideIntegerImpl_text a b
  | modInteger => exact modIntegerImpl_text a b
  | and => exact exprAnd_text a b
  | or => exact exprOr_text a b
  | _ => exact expr₂_text _ a b

/-! ### What the bodies do -/

section Implements

variable {s : State} {vals : ℕ → Datum}

lemma Reads.integer {ids : List ℕ} {t : State} (h : Reads types ids s t) {i : ℕ}
    (htype : types i = .integer) (hi : s.server i = some (vals i)) (hs : Holds types s) :
    ∃ n u, vals i = .integer n ∧ retrieveDecrInteger i t = (.ok (text n), u) ∧
      Reads types (ids ++ [i]) s u := by
  obtain ⟨n, hn⟩ := hs.integer hi htype
  obtain ⟨u, hu, hreads⟩ := h.typed htype hi
  rw [hn] at hu
  exact ⟨n, u, hn, hu, hreads⟩

lemma Reads.string {ids : List ℕ} {t : State} (h : Reads types ids s t) {i : ℕ}
    (htype : types i = .string) (hi : s.server i = some (vals i)) (hs : Holds types s) :
    ∃ v u, vals i = .string v ∧ retrieveDecrString i t = (.ok v, u) ∧
      Reads types (ids ++ [i]) s u := by
  obtain ⟨v, hv⟩ := hs.string hi htype
  obtain ⟨u, hu, hreads⟩ := h.typed htype hi
  rw [hv] at hu
  exact ⟨v, u, hv, hu, hreads⟩

lemma unaryBody_implements (op : Unary) {c a : ℕ} (hc : types c = .integer)
    (ha : types a = .integer) :
    Implements types (unaryBody op.impl c a) (Call.unary op c a).task := by
  intro s vals hs hunset hvals
  obtain ⟨x, t, hx, hread, hreads⟩ := (reads_start hs).integer ha (hvals a (.head _)) hs
  rw [unaryBody, Cmd.bind_of_ok hread]
  change Outcome types _ s (Call.compute _ [vals a]) _
  rw [hx]
  exact outcome_integer (m := .ok (op.meaning x)) (op.impl_text x) hreads hunset hc

lemma binaryBody_implements (op : Binary) {c a b : ℕ} (hc : types c = .integer)
    (ha : types a = .integer) (hb : types b = .integer) :
    Implements types (binaryBody op.impl c a b) (Call.binary op c a b).task := by
  intro s vals hs hunset hvals
  obtain ⟨x, t, hx, hread, hreads⟩ := (reads_start hs).integer ha (hvals a (.head _)) hs
  rw [binaryBody, Cmd.bind_of_ok hread]
  obtain ⟨y, u, hy, hread, hreads⟩ := hreads.integer hb (hvals b (.tail _ (.head _))) hs
  rw [Cmd.bind_of_ok hread]
  change Outcome types _ s (Call.compute _ [vals a, vals b]) _
  rw [hx, hy]
  exact outcome_integer (op.impl_text x y) hreads hunset hc

lemma fits_truth (b : Bool) : Fits64 (truth b) := by cases b <;> decide

lemma Reads.truth_stored {task : Task ℕ Datum Stop} {t : State} (h : Reads types task.inputs s t)
    (hunset : s.server task.output = none) (htype : types task.output = .integer) (b : Bool) :
    Outcome types task s (.ok (.integer (truth b))) (storeInteger task.output (text (truth b)) t) := by
  have hstore := h.integer_stored hunset htype (text (truth b))
  rwa [ofText_text, ofInteger_of_fits (fits_truth b)] at hstore

lemma store_implements {type : Ty} {c : ℕ} (value : Text) (hc : types c = type) :
    Implements types (storeOf type c value) (Call.store type c value).task := by
  intro s vals hs hunset _
  cases type with
  | integer => exact (reads_start hs).integer_stored hunset hc value
  | string => exact (reads_start hs).string_stored hunset hc value

lemma compareStrings_outcome {p : Text → Text → Bool} {c a b : ℕ} {task : Task ℕ Datum Stop}
    (hinputs : task.inputs = [a, b]) (hc : types task.output = .integer) (ha : types a = .string)
    (hb : types b = .string) (hout : task.output = c) (hs : Holds types s)
    (hunset : s.server task.output = none) (hvals : ∀ i ∈ task.inputs, s.server i = some (vals i)) :
    ∃ v w, vals a = .string v ∧ vals b = .string w ∧
      Outcome types task s (.ok (.integer (truth (p v w)))) (compareStringsBody p c a b s) := by
  subst hout
  rw [hinputs] at hvals
  obtain ⟨v, t, hv, hread, hreads⟩ := (reads_start hs).string ha (hvals a (.head _)) hs
  obtain ⟨w, u, hw, hread', hreads⟩ := hreads.string hb (hvals b (.tail _ (.head _))) hs
  refine ⟨v, w, hv, hw, ?_⟩
  rw [compareStringsBody, Cmd.bind_of_ok hread, Cmd.bind_of_ok hread']
  have hall : Reads types task.inputs s u := by
    rw [hinputs]
    exact hreads
  exact hall.truth_stored hunset hc _

lemma eqString_implements {c a b : ℕ} (hc : types c = .integer) (ha : types a = .string)
    (hb : types b = .string) : Implements types (eqStringBody c a b) (Call.eqString c a b).task := by
  intro s vals hs hunset hvals
  obtain ⟨v, w, hv, hw, houtcome⟩ :=
    compareStrings_outcome (p := (· = ·)) rfl hc ha hb rfl hs hunset hvals
  change Outcome types _ s (Call.compute _ [vals a, vals b]) _
  rw [hv, hw]
  exact houtcome

lemma neqString_implements {c a b : ℕ} (hc : types c = .integer) (ha : types a = .string)
    (hb : types b = .string) :
    Implements types (neqStringBody c a b) (Call.neqString c a b).task := by
  intro s vals hs hunset hvals
  obtain ⟨v, w, hv, hw, houtcome⟩ :=
    compareStrings_outcome (p := fun v w => !(v = w)) rfl hc ha hb rfl hs hunset hvals
  change Outcome types _ s (Call.compute _ [vals a, vals b]) _
  rw [hv, hw]
  simp only [Call.compute, ne_eq, decide_not]
  exact houtcome

lemma copyString_implements {o i : ℕ} (ho : types o = .string) (hi : types i = .string) :
    Implements types (copyStringBody o i) (Call.copyString o i).task := by
  intro s vals hs hunset hvals
  obtain ⟨v, t, hv, hread, hreads⟩ := (reads_start hs).string hi (hvals i (.head _)) hs
  rw [copyStringBody, Cmd.bind_of_ok hread]
  change Outcome types _ s (Call.compute _ [vals i]) _
  rw [hv]
  exact hreads.string_stored hunset ho v

lemma zero_implements {output input : ℕ} (hout : types output = .integer) :
    Implements types (zeroBody output input) (Call.zero output input).task := by
  intro s vals hs hunset _
  have hreads : Reads types (Call.zero output input).task.inputs s (s.drop input 1) :=
    (reads_start hs).drop input
  have hstore := hreads.integer_stored hunset hout (text 0)
  rw [ofText_text, ofInteger_of_fits (by decide)] at hstore
  exact hstore

lemma copyVoid_implements {o i : ℕ} (ho : types o = .integer) :
    Implements types (copyVoidBody o i) (Call.copyVoid o i).task := by
  intro s vals hs hunset _
  have hencode : encode .integer (text 12345) = some (.integer 12345) :=
    encode_integer (n := 12345) (by decide)
  have hunset' : s.server o = none := hunset
  rw [copyVoidBody, storeVoid, Cmd.bind_of_ok (adlbStore_apply hencode hunset')]
  refine ⟨rfl, rfl, ?_, hs.sound.update ho.symm hencode, hs.coherent.update hunset _⟩
  exact ((reads_start hs).drop i).refs

lemma strcat_implements {result : ℕ} (inputs : List ℕ) (hresult : types result = .string) :
    Implements types (strcatBody result inputs) (Call.strcat result inputs).task := by
  intro s vals hs hunset hvals
  have hget : ∀ ids t, Reads types ids s t → ∀ i ∈ inputs,
      ∃ u, retrieveDecr i t = (.ok (vals i).text, u) ∧ Reads types (ids ++ [i]) s u :=
    fun ids t h i hi => h.untyped (hvals i hi)
  obtain ⟨t, hread, hreads⟩ := (reads_start hs).mapM hget
  rw [strcatBody, Cmd.bind_of_ok hread]
  exact hreads.string_stored hunset hresult _

lemma dircat_implements {result : ℕ} {inputs : List ℕ} (hresult : types result = .string)
    (hinputs : ∀ i ∈ inputs, types i = .string) :
    Implements types (dircatBody result inputs) (Call.dircat result inputs).task := by
  intro s vals hs hunset hvals
  have hget : ∀ ids t, Reads types ids s t → ∀ i ∈ inputs,
      ∃ u, retrieveDecrString i t = (.ok (vals i).text, u) ∧ Reads types (ids ++ [i]) s u :=
    fun ids t h i hi => h.typed (hinputs i hi) (hvals i hi)
  obtain ⟨t, hread, hreads⟩ := (reads_start hs).mapM hget
  rw [dircatBody, Cmd.bind_of_ok hread]
  exact hreads.string_stored hunset hresult _

lemma substringImpl_text (v : Text) (i n : ℤ) :
    substringImpl v (text i) (text n) = substringMeaning v i n := by
  simp only [substringImpl, operand_text, index_text, substringMeaning, bind, Except.bind]

lemma findTextImpl_text (str subs : Text) (startIndex endIndex : ℤ) :
    findTextImpl str subs (text startIndex) (text endIndex) =
      (findMeaning str subs startIndex endIndex).map text := by
  simp only [findTextImpl, operand_text, index_text, findMeaning, bind, Except.bind]
  cases position startIndex <;> rfl

lemma substring_implements {result v i n : ℕ} (hresult : types result = .string)
    (hv : types v = .string) (hi : types i = .integer) (hn : types n = .integer) :
    Implements types (substringBody result v i n) (Call.substring result v i n).task := by
  intro s vals hs hunset hvals
  have hset : ∀ j ∈ [v, i, n], s.server j = some (vals j) := hvals
  obtain ⟨w, t, hw, hread, hreads⟩ := (reads_start hs).string hv (hset v (by simp)) hs
  rw [substringBody, Cmd.bind_of_ok hread]
  obtain ⟨x, u, hx, hread, hreads⟩ := hreads.integer hi (hset i (by simp)) hs
  rw [Cmd.bind_of_ok hread]
  obtain ⟨y, u', hy, hread, hreads⟩ := hreads.integer hn (hset n (by simp)) hs
  rw [Cmd.bind_of_ok hread, substringImpl_text]
  change Outcome types _ s (Call.compute _ [vals v, vals i, vals n]) _
  rw [hw, hx, hy]
  exact outcome_string hreads hunset hresult

lemma find_implements {result str subs startIndex endIndex : ℕ}
    (hresult : types result = .integer) (hstr : types str = .string) (hsubs : types subs = .string)
    (hstart : types startIndex = .integer) (hend : types endIndex = .integer) :
    Implements types (findBody result str subs startIndex endIndex)
      (Call.find result str subs startIndex endIndex).task := by
  intro s vals hs hunset hvals
  have hset : ∀ j ∈ [str, subs, startIndex, endIndex], s.server j = some (vals j) := hvals
  obtain ⟨v, t, hv, hread, hreads⟩ := (reads_start hs).string hstr (hset str (by simp)) hs
  rw [findBody, Cmd.bind_of_ok hread]
  obtain ⟨w, u, hw, hread, hreads⟩ := hreads.string hsubs (hset subs (by simp)) hs
  rw [Cmd.bind_of_ok hread]
  obtain ⟨x, u', hx, hread, hreads⟩ := hreads.integer hstart (hset startIndex (by simp)) hs
  rw [Cmd.bind_of_ok hread]
  obtain ⟨y, u'', hy, hread, hreads⟩ := hreads.integer hend (hset endIndex (by simp)) hs
  rw [Cmd.bind_of_ok hread]
  change Outcome types _ s
    (Call.compute _ [vals str, vals subs, vals startIndex, vals endIndex]) _
  rw [hv, hw, hx, hy]
  exact outcome_integer (findTextImpl_text v w x y) hreads hunset hresult

lemma outcome_number {task : Task ℕ Datum Stop} {t : State} (r : Except Stop ℤ)
    (h : Reads types task.inputs s t) (hunset : s.server task.output = none)
    (htype : types task.output = .integer) :
    Outcome types task s (r >>= ofInteger)
      ((Cmd.ofExcept r >>= fun n => storeInteger task.output (text n)) t) := by
  refine outcome_bind h fun n => ?_
  have hstore := h.integer_stored hunset htype (text n)
  rwa [ofText_text] at hstore

lemma toint_implements {result input : ℕ} (hresult : types result = .integer) :
    Implements types (tointBody input result) (Call.toint result input).task := by
  intro s vals hs hunset hvals
  obtain ⟨t, hread, hreads⟩ := (reads_start hs).untyped (hvals input (.head _))
  have hread' : adlbRetrieveDecr input 1 none s = (.ok (vals input).text, t) := hread
  rw [tointBody, Cmd.bind_of_ok hread']
  exact outcome_number _ hreads hunset hresult

lemma parseInt_implements {result str base : ℕ} (hresult : types result = .integer)
    (hstr : types str = .string) (hbase : types base = .integer) :
    Implements types (parseIntBody str base result) (Call.parseInt result str base).task := by
  intro s vals hs hunset hvals
  have hset : ∀ j ∈ [str, base], s.server j = some (vals j) := hvals
  obtain ⟨v, t, hv, hread, hreads⟩ := (reads_start hs).string hstr (hset str (by simp)) hs
  have hread' : retrieveString str "CACHED" 1 s = (.ok v, t) := hread
  rw [parseIntBody, Cmd.bind_of_ok hread']
  obtain ⟨x, u, hx, hread, hreads⟩ := hreads.integer hbase (hset base (by simp)) hs
  have hread' : retrieveInteger base "CACHED" 1 t = (.ok (text x), u) := hread
  rw [Cmd.bind_of_ok hread']
  change Outcome types _ s (Call.compute _ [vals str, vals base]) _
  rw [hv, hx]
  exact outcome_number _ hreads hunset hresult

lemma fromint_implements {result input : ℕ} (hresult : types result = .string)
    (hinput : types input = .integer) :
    Implements types (fromintBody result input) (Call.fromint result input).task := by
  intro s vals hs hunset hvals
  obtain ⟨n, t, hn, hread, hreads⟩ := (reads_start hs).integer hinput (hvals input (.head _)) hs
  have hread' : retrieveInteger input "CACHED" 1 s = (.ok (text n), t) := hread
  rw [fromintBody, Cmd.bind_of_ok hread']
  change Outcome types _ s (Call.compute _ [vals input]) _
  rw [hn]
  exact hreads.string_stored hunset hresult (text n)

/-- Whatever the builtin, its body does what the call means. -/
lemma Call.implements {call : Call} (h : call.Typed types) :
    Implements types call.rule.action call.task := by
  cases call with
  | store type c value => exact store_implements value h
  | unary op c a =>
    change Implements types (op.rule c a).action _
    rw [op.action_eq]
    exact unaryBody_implements op h.1 h.2
  | binary op c a b =>
    change Implements types (op.rule c a b).action _
    rw [op.action_eq]
    exact binaryBody_implements op h.1 h.2.1 h.2.2
  | eqString c a b => exact eqString_implements h.1 h.2.1 h.2.2
  | neqString c a b => exact neqString_implements h.1 h.2.1 h.2.2
  | copyVoid o i => exact copyVoid_implements h
  | copyString o i => exact copyString_implements h.1 h.2
  | zero output input => exact zero_implements h
  | strcat result inputs => exact strcat_implements inputs h
  | dircat result inputs => exact dircat_implements h.1 h.2
  | substring result v i n => exact substring_implements h.1 h.2.1 h.2.2.1 h.2.2.2
  | find result str subs startIndex endIndex =>
    exact find_implements h.1 h.2.1 h.2.2.1 h.2.2.2.1 h.2.2.2.2
  | toint result input => exact toint_implements h
  | parseInt result str base => exact parseInt_implements h.1 h.2.1 h.2.2
  | fromint result input => exact fromint_implements h.1 h.2

lemma Call.inputs_eq (call : Call) : call.rule.inputs = call.inputs := by
  cases call with
  | unary op c a => cases op <;> rfl
  | binary op c a b => cases op <;> rfl
  | _ => rfl

end Implements

end Turbine.Dataflow
