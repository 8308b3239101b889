import Turbine.Library.OrderedDict
import Turbine.Strings.Fields

/-! The arguments of the program: which are joined, which are flagged, and which are positional. -/

namespace Turbine.App.Argv

open Turbine.Library
open Turbine.Strings.Fields (tclSplit)

abbrev Text := List Char

/-- `turbine_argc`, `turbine_argv` and `turbine_argp`. -/
structure Parsed where
  argc : ℕ
  argv : OrderedDict Text Text
  argp : List Text

inductive Stop
  | user (message : String)
  deriving DecidableEq

/-- `string first` for one character; an index below 0 is taken for 0. -/
def stringFirst (c : Char) (t : Text) (i : ℤ) : Option ℕ :=
  if c ∈ t.drop i.toNat then some (i.toNat + (t.drop i.toNat).idxOf c) else none

/-- The two loops over `p`: the inner one is running while there is a `t` with an open quote. -/
def argvHelper : Option Text → ℤ → List Text → Except Stop (List Text)
  | none, _, [] => .ok []
  | some _, _, [] => .error (.user "argv: unmatched quotes!")
  | none, i, t :: s =>
    match stringFirst '-' t i with
    | none => (argvHelper none i s).map (t :: ·)
    | some _ =>
      match stringFirst '"' t i with
      | none => (argvHelper none i s).map (t :: ·)
      | some j2 => argvHelper (some (t.eraseIdx j2)) i s
  | some t, i, w :: s =>
    let t := t ++ ' ' :: w
    match stringFirst '"' t 0 with
    | none => argvHelper (some t) i s
    | some j4 =>
      let j5 : ℤ := j4 - 1
      (argvHelper none j5 s).map (t.eraseIdx j4 :: ·)

def classify (arg : Text) (a : Parsed) : Parsed :=
  let tokens := tclSplit arg ['=']
  let token := tokens.headD []
  if token.head? = some '-' then
    let key := token.tail
    let key := if key.head? = some '-' then key.tail else key
    let value := tokens.getD 1 []
    { a with argv := a.argv.set key value }
  else { a with argp := a.argp ++ [arg], argc := a.argc + 1 }

/-- The loop of `argv_init` over the first `remaining` arguments. -/
def classifyAll : ℕ → List Text → Parsed → Parsed
  | 0, _, a => a
  | remaining + 1, L, a =>
    let arg := L.headD []
    -- string replacement may cause early break
    if arg = [] then a else classifyAll remaining L.tail (classify arg a)

def argvInit (isServer : Bool) (program : Text) (argv : List Text) (a : Parsed) :
    Except Stop Parsed :=
  if isServer then .ok a
  else do
    let L ← argvHelper none 0 argv
    return classifyAll argv.length L ⟨0, .empty, [program]⟩

/-! ### What the arguments are -/

inductive Item
  | plain (arg : Text)
  /-- One dash or two, and a value behind an equals sign, if there is one. -/
  | flag (double : Bool) (key : Text) (value : Option Text)
  | quoted (double : Bool) (key piece : Text) (pieces : List Text)

def dashes (double : Bool) : Text := if double then ['-', '-'] else ['-']

def renderRest : Text → List Text → List Text
  | v, [] => [v ++ ['"']]
  | v, w :: pieces => v :: renderRest w pieces

/-- The arguments that the shell passes: a quoted one in as many pieces as there are blanks. -/
def Item.render : Item → List Text
  | .plain arg => [arg]
  | .flag double key none => [dashes double ++ key]
  | .flag double key (some value) => [dashes double ++ key ++ '=' :: value]
  | .quoted double key piece pieces => renderRest (dashes double ++ key ++ '=' :: '"' :: piece) pieces

def joined (piece : Text) (pieces : List Text) : Text := piece ++ pieces.flatMap (' ' :: ·)

/-- What is to be recorded of an item. -/
def Item.record : Item → Parsed → Parsed
  | .plain arg, a => { a with argp := a.argp ++ [arg], argc := a.argc + 1 }
  | .flag _ key value, a => { a with argv := a.argv.set key (value.getD []) }
  | .quoted _ key piece pieces, a => { a with argv := a.argv.set key (joined piece pieces) }

def recordAll (items : List Item) (a : Parsed) : Parsed := items.foldl (fun a item => item.record a) a

/-- Whatever was recorded before, the items are what is recorded. -/
def Parses (items : List Item) : Prop :=
  ∀ program a, argvInit false program (items.flatMap Item.render) a =
    .ok (recordAll items ⟨0, .empty, [program]⟩)

/-- The helper takes the argument for the first piece of a quoted one. -/
def Opens (i : ℤ) (t : Text) : Prop :=
  (stringFirst '-' t i).isSome ∧ (stringFirst '"' t i).isSome

instance (i : ℤ) (t : Text) : Decidable (Opens i t) := inferInstanceAs (Decidable (_ ∧ _))

/-- A key that can be told from the dashes before it and from the value. -/
def KeyOk (double : Bool) (key : Text) : Prop :=
  '=' ∉ key ∧ '"' ∉ key ∧ (double = false → key.head? ≠ some '-')

/-- The item is recognized when the helper starts to look at index `i`. -/
def Item.Regular (i : ℤ) : Item → Prop
  | .plain arg => arg ≠ [] ∧ arg.head? ≠ some '-' ∧ ¬Opens i arg
  | .flag double key value => KeyOk double key ∧ (∀ v ∈ value, '=' ∉ v) ∧
      ∀ arg ∈ (Item.flag double key value).render, ¬Opens i arg
  | .quoted double key piece pieces => KeyOk double key ∧ pieces ≠ [] ∧
      (∀ v ∈ piece :: pieces, '"' ∉ v ∧ '=' ∉ v) ∧ Opens i (dashes double ++ key ++ '=' :: '"' :: piece)

/-- The last index of the argument that was joined last. -/
def Item.next (i : ℤ) : Item → ℤ
  | .quoted double key piece pieces =>
    (dashes double ++ key ++ '=' :: joined piece pieces).length - 1
  | _ => i

def RegularFrom : ℤ → List Item → Prop
  | _, [] => True
  | i, item :: items => item.Regular i ∧ RegularFrom (item.next i) items

/-- The argument that the pieces of the item make together. -/
def Item.arg : Item → Text
  | .plain arg => arg
  | .flag double key none => dashes double ++ key
  | .flag double key (some value) => dashes double ++ key ++ '=' :: value
  | .quoted double key piece pieces => dashes double ++ key ++ '=' :: joined piece pieces

/-! ### Joining -/

lemma stringFirst_eq {c : Char} {front back : Text} {i : ℤ} (hfront : c ∉ front)
    (hi : i.toNat ≤ front.length) : stringFirst c (front ++ c :: back) i = some front.length := by
  have hdrop : (front ++ c :: back).drop i.toNat = front.drop i.toNat ++ c :: back := by
    rw [List.drop_append_of_le_length hi]
  have hnot : c ∉ front.drop i.toNat := fun h => hfront (List.mem_of_mem_drop h)
  rw [stringFirst, hdrop, if_pos (by simp), List.idxOf_append_of_notMem hnot, List.idxOf_cons_self,
    List.length_drop]
  congr 1
  omega

lemma stringFirst_none {c : Char} {t : Text} {i : ℤ} (h : c ∉ t) : stringFirst c t i = none :=
  if_neg fun hmem => h (List.mem_of_mem_drop hmem)

/-- An index from which the character is found is not behind its only place. -/
lemma toNat_le_of_stringFirst {c : Char} {front back : Text} {i : ℤ} (hback : c ∉ back)
    (h : (stringFirst c (front ++ c :: back) i).isSome) : i.toNat ≤ front.length := by
  by_contra hlt
  have hdrop : ∃ n, (front ++ c :: back).drop i.toNat = back.drop n := by
    obtain ⟨n, hn⟩ := Nat.exists_eq_add_of_lt (not_le.mp hlt)
    refine ⟨n, ?_⟩
    rw [hn, add_assoc, ← List.drop_drop, List.drop_left, List.drop_succ_cons]
  obtain ⟨n, hn⟩ := hdrop
  rw [stringFirst, hn, if_neg fun hmem => hback (List.mem_of_mem_drop hmem)] at h
  exact absurd h (by simp)

lemma eraseIdx_front (front back : Text) (c : Char) :
    (front ++ c :: back).eraseIdx front.length = front ++ back := by
  rw [List.eraseIdx_append_of_length_le le_rfl, Nat.sub_self, List.eraseIdx_cons_zero]

/-- The inner loop ends at the piece with the closing quote. -/
lemma argvHelper_pieces {t v : Text} {pieces : List Text} {rest : List Text} {i : ℤ}
    (ht : '"' ∉ t) (hv : ∀ w ∈ v :: pieces, '"' ∉ w) :
    argvHelper (some t) i (renderRest v pieces ++ rest) =
      (argvHelper none ((t ++ (v :: pieces).flatMap (' ' :: ·)).length - 1) rest).map
        ((t ++ (v :: pieces).flatMap (' ' :: ·)) :: ·) := by
  induction pieces generalizing t v with
  | nil =>
    have hquote : '"' ∉ t ++ ' ' :: v := by
      simpa [ht] using hv v (by simp)
    have hsplit : t ++ ' ' :: (v ++ ['"']) = (t ++ ' ' :: v) ++ '"' :: [] := by simp
    simp only [renderRest, List.singleton_append, argvHelper]
    rw [hsplit, stringFirst_eq hquote (by simp)]
    simp only [eraseIdx_front, List.append_nil, List.flatMap_cons, List.flatMap_nil]
  | cons w pieces ih =>
    have hquote : '"' ∉ t ++ ' ' :: v := by
      simpa [ht] using hv v (by simp)
    simp only [renderRest, List.cons_append, argvHelper]
    rw [stringFirst_none hquote]
    dsimp only
    rw [ih hquote fun w' hw' => hv w' (List.mem_cons_of_mem _ hw')]
    simp

lemma argvHelper_closed {t : Text} {s : List Text} {i : ℤ} (h : ¬Opens i t) :
    argvHelper none i (t :: s) = (argvHelper none i s).map (t :: ·) := by
  rw [argvHelper]
  cases hdash : stringFirst '-' t i with
  | none => rfl
  | some j1 =>
    cases hquote : stringFirst '"' t i with
    | none => rfl
    | some j2 => exact absurd ⟨by rw [hdash]; rfl, by rw [hquote]; rfl⟩ h

lemma argvHelper_opens {front piece : Text} {s : List Text} {i : ℤ} (hfront : '"' ∉ front)
    (hpiece : '"' ∉ piece) (h : Opens i (front ++ '"' :: piece)) :
    argvHelper none i ((front ++ '"' :: piece) :: s) = argvHelper (some (front ++ piece)) i s := by
  obtain ⟨hdash, hquote⟩ := h
  obtain ⟨j1, hj1⟩ := Option.isSome_iff_exists.mp hdash
  rw [argvHelper, hj1]
  dsimp only
  rw [stringFirst_eq hfront (toNat_le_of_stringFirst hpiece hquote)]
  dsimp only
  rw [eraseIdx_front]

lemma argvHelper_item {item : Item} {rest : List Text} {i : ℤ} (h : item.Regular i) :
    argvHelper none i (item.render ++ rest) =
      (argvHelper none (item.next i) rest).map (item.arg :: ·) := by
  cases item with
  | plain arg => exact argvHelper_closed h.2.2
  | flag double key value =>
    cases value with
    | none => exact argvHelper_closed (h.2.2 _ (List.mem_singleton_self _))
    | some value => exact argvHelper_closed (h.2.2 _ (List.mem_singleton_self _))
  | quoted double key piece pieces =>
    obtain ⟨hkey, hne, hpieces, hopens⟩ := h
    obtain ⟨hpiece, hrest⟩ := List.forall_mem_cons.mp hpieces
    obtain ⟨w, ws, rfl⟩ := List.exists_cons_of_ne_nil hne
    have hfront : '"' ∉ dashes double ++ key ++ ['='] := by
      cases double <;> simp [dashes, hkey.2.1]
    have hpieces' : '"' ∉ dashes double ++ key ++ ['='] ++ piece := by
      rw [List.mem_append, not_or]
      exact ⟨hfront, hpiece.1⟩
    have hopen : dashes double ++ key ++ '=' :: '"' :: piece =
        dashes double ++ key ++ ['='] ++ '"' :: piece := by simp
    have harg : dashes double ++ key ++ '=' :: joined piece (w :: ws) =
        dashes double ++ key ++ ['='] ++ piece ++ (w :: ws).flatMap (' ' :: ·) := by simp [joined]
    rw [hopen] at hopens
    simp only [Item.render, renderRest, List.cons_append, Item.next, Item.arg]
    rw [hopen, argvHelper_opens hfront hpiece.1 hopens,
      argvHelper_pieces hpieces' fun v hv => (hrest v hv).1, ← harg]

lemma argvHelper_items {items : List Item} {i : ℤ} (h : RegularFrom i items) :
    argvHelper none i (items.flatMap Item.render) = .ok (items.map Item.arg) := by
  induction items generalizing i with
  | nil => rfl
  | cons item items ih => 
    rw [List.flatMap_cons, argvHelper_item h.1, ih h.2, List.map_cons]
    rfl

/-! ### Classification -/

lemma tclSplit_eq {s : Text} (hs : s ≠ []) : tclSplit s ['='] = s.splitOn '=' := by
  rw [tclSplit, if_neg hs, if_neg (List.cons_ne_nil _ _), List.splitOn]
  congr 1
  funext c
  simp [beq_eq_decide]

lemma tclSplit_value {token value : Text} (htoken : '=' ∉ token) (hvalue : '=' ∉ value) :
    tclSplit (token ++ '=' :: value) ['='] = [token, value] := by
  rw [tclSplit_eq (by simp), List.splitOn_append_cons_self, List.splitOn_eq_singleton htoken,
    List.splitOn_eq_singleton hvalue]
  rfl

lemma token_prefix {arg : Text} (hne : arg ≠ []) : (tclSplit arg ['=']).headD [] <+: arg := by
  rw [tclSplit_eq hne]
  by_cases hmem : '=' ∈ arg
  · obtain ⟨token, value, rfl, htoken⟩ := List.eq_append_cons_of_mem hmem
    rw [List.splitOn_append_cons_self, List.splitOn_eq_singleton htoken]
    exact List.prefix_append ..
  · rw [List.splitOn_eq_singleton hmem]
    exact List.prefix_rfl

/-- A token with dashes is recorded under the key behind them. -/
lemma classify_flag {arg key value : Text} {double : Bool} (hkey : KeyOk double key)
    (htoken : (tclSplit arg ['=']).headD [] = dashes double ++ key)
    (hvalue : (tclSplit arg ['=']).getD 1 [] = value) (a : Parsed) :
    classify arg a = { a with argv := a.argv.set key value } := by
  unfold classify
  simp only [htoken, hvalue]
  cases double with
  | true => simp [dashes]
  | false =>
    have hhead := hkey.2.2 rfl
    simp [dashes, hhead]

lemma notMem_dashes_append {double : Bool} {key : Text} (hkey : KeyOk double key) :
    '=' ∉ dashes double ++ key := by
  cases double <;> simp [dashes, hkey.1]

lemma classify_item {item : Item} {i : ℤ} (h : item.Regular i) (a : Parsed) :
    classify item.arg a = item.record a := by
  cases item with
  | plain arg =>
    obtain ⟨hne, hdash, -⟩ := h
    have htoken : ((tclSplit arg ['=']).headD []).head? ≠ some '-' := by
      intro hhead
      obtain ⟨rest, hrest⟩ := token_prefix hne
      refine hdash ?_
      rw [← hrest, List.head?_append, hhead]
      rfl
    unfold classify
    dsimp only [Item.arg]
    rw [if_neg htoken]
    rfl
  | flag double key value =>
    obtain ⟨hkey, hvalue, -⟩ := h
    have htoken := notMem_dashes_append hkey
    cases value with
    | none =>
      have hne : dashes double ++ key ≠ [] := by cases double <;> simp [dashes]
      have hsplit : tclSplit (dashes double ++ key) ['='] = [dashes double ++ key] := by
        rw [tclSplit_eq hne, List.splitOn_eq_singleton htoken]
      exact classify_flag hkey (by rw [Item.arg, hsplit]; rfl) (by rw [Item.arg, hsplit]; rfl) a
    | some value =>
      have hsplit := tclSplit_value htoken (hvalue value rfl)
      exact classify_flag hkey (by rw [Item.arg, hsplit]; rfl) (by rw [Item.arg, hsplit]; rfl) a
  | quoted double key piece pieces =>
    obtain ⟨hkey, -, hpieces, -⟩ := h
    have hjoined : '=' ∉ joined piece pieces := by
      obtain ⟨hpiece, hrest⟩ := List.forall_mem_cons.mp hpieces
      simp only [joined, List.mem_append, List.mem_flatMap, List.mem_cons, not_or, not_exists,
        not_and]
      exact ⟨hpiece.2, fun v hv => ⟨by decide, (hrest v hv).2⟩⟩
    have hsplit := tclSplit_value (notMem_dashes_append hkey) hjoined
    exact classify_flag hkey (by rw [Item.arg, hsplit]; rfl) (by rw [Item.arg, hsplit]; rfl) a

lemma arg_ne_nil {item : Item} {i : ℤ} (h : item.Regular i) : item.arg ≠ [] := by
  cases item with
  | plain arg => exact h.1
  | flag double key value => cases value <;> cases double <;> simp [Item.arg, dashes]
  | quoted double key piece pieces => cases double <;> simp [Item.arg, dashes]

/-- The loop records the items, and stops where the joined list is at its end. -/
lemma classifyAll_items {items : List Item} {i : ℤ} (h : RegularFrom i items) {remaining : ℕ}
    (hlength : items.length ≤ remaining) (a : Parsed) :
    classifyAll remaining (items.map Item.arg) a = recordAll items a := by
  induction items generalizing i remaining a with
  | nil => cases remaining <;> rfl
  | cons item items ih =>
    cases remaining with
    | zero => exact absurd hlength (by simp)
    | succ remaining =>
      rw [List.map_cons, classifyAll, List.headD_cons, if_neg (arg_ne_nil h.1), List.tail_cons,
        classify_item h.1]
      exact ih h.2 (Nat.le_of_succ_le_succ hlength) _

lemma render_ne_nil (item : Item) : item.render ≠ [] := by
  rcases item with arg | ⟨double, key, - | value⟩ | ⟨double, key, piece, - | ⟨w, pieces⟩⟩ <;>
    simp [Item.render, renderRest]

lemma length_le_render (items : List Item) : items.length ≤ (items.flatMap Item.render).length := by
  induction items with
  | nil => exact le_refl _
  | cons item items ih =>
    have hpos := List.length_pos_of_ne_nil (render_ne_nil item)
    rw [List.flatMap_cons, List.length_append, List.length_cons]
    omega

/-! ### Main result -/

theorem argv_init_parses {items : List Item} (h : RegularFrom 0 items) : Parses items := by
  intro program a
  have hjoin := argvHelper_items h
  simp only [argvInit, hjoin, Bool.false_eq_true, if_false]
  exact congrArg Except.ok (classifyAll_items h (length_le_render items) _)

/-- Every kind of item, with an empty piece in the quoted one and an empty value. -/
def oneOfEach : List Item :=
  [.plain ['a'], .quoted true ['k'] ['x'] [[], ['y']], .flag false ['F'] (some []),
    .flag true ['b'] none]

theorem argv_init_parses_one_of_each : Parses oneOfEach :=
  argv_init_parses ⟨⟨by decide, by decide, by decide⟩,
    ⟨⟨by decide, by decide, by decide⟩, by decide, by decide, by decide⟩,
    ⟨⟨by decide, by decide, by decide⟩, by decide, by decide⟩,
    ⟨⟨by decide, by decide, by decide⟩, by decide, by decide⟩, trivial⟩

lemma not_parses {β : Type} {items : List Item} (f : Parsed → β)
    (h : (argvInit false [] (items.flatMap Item.render) ⟨0, .empty, []⟩).toOption.map f ≠
      some (f (recordAll items ⟨0, .empty, [[]]⟩))) : ¬Parses items :=
  fun hparses => h (by rw [hparses]; rfl)

/-- A flag without a value is recorded as one and not as a positional argument. A value is cut at
its second equals sign, an empty argument ends the loop, and of the quoted arguments one that is in
one piece, or that comes after another, is not put together. -/
theorem not_argv_init_parses :
    ¬Parses [.plain ['-', 'k']] ∧ ¬Parses [.flag true ['k'] (some ['a', '=', 'b'])] ∧
      ¬Parses [.plain [], .plain ['a']] ∧ ¬Parses [.quoted true ['k'] ['v'] []] ∧
      ¬Parses [.quoted true ['k'] ['a'] [['b']], .quoted true ['l'] ['c'] [['d']]] :=
  ⟨not_parses Parsed.argc (by decide), not_parses (·.argv.get? ['k']) (by decide),
    not_parses Parsed.argc (by decide), not_parses Parsed.argc (by decide),
    not_parses Parsed.argc (by decide)⟩

end Turbine.App.Argv
