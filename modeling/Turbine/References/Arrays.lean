import Turbine.References.Builtins

/-! What the builtins are for: operations on futures and arrays that are written once, with no
references to count and nothing that is ever deleted. -/

namespace Turbine.References

/-- What is stored under a subscript, or as the reference that a future is set to. -/
structure Cell where
  holder : ℕ
  subscript : Option Text
  target : ℕ
  deriving DecidableEq

def cellsOf (cells : List Cell) (id : ℕ) : List Cell := cells.filter fun c => c.holder = id

def targetOf (cells : List Cell) (id : ℕ) (subscript : Option Text) : Option ℕ :=
  ((cellsOf cells id).find? fun c => c.subscript = subscript).map Cell.target

def countOf (cells : List Cell) (id : ℕ) : ℕ := (cellsOf cells id).countP fun c => c.subscript ≠ none

structure Arrays where
  values : ℕ → Option Text
  cells : List Cell
  waiting : Multiset Waiting
  next : ℕ

namespace Arrays

def target (a : Arrays) (id : ℕ) (subscript : Option Text) : Option ℕ :=
  targetOf a.cells id subscript

def text (a : Arrays) (id : ℕ) : Option Text :=
  a.values id <|> (a.target id none).map (Nat.toDigits 10)

def set (a : Arrays) (id : ℕ) (value : Text) : Arrays :=
  { a with values := Function.update a.values id (some value) }

def add (a : Arrays) (cell : Cell) : Arrays := { a with cells := cell :: a.cells }

def allocate (a : Arrays) : Arrays := { a with next := a.next + 1 }

def wait (a : Arrays) (w : Waiting) : Arrays := { a with waiting := w ::ₘ a.waiting }

end Arrays

/-! ### Operations -/

/-- A datum, or what a future refers to. -/
inductive Operand
  | datum (id : ℕ)
  | referred (r : ℕ)

inductive Subscript
  | text (i : Text)
  | future (id : ℕ)

def Operand.Denotes (a : Arrays) : Operand → ℕ → Prop
  | datum id, d => d = id
  | referred r, d => a.target r none = some d

def Subscript.Denotes (a : Arrays) : Subscript → Text → Prop
  | text i, s => s = i
  | future id, s => a.text id = some s

/-- A future is set, once. -/
def Sets (id : ℕ) (value : Text) (a b : Arrays) : Prop := a.values id = none ∧ b = a.set id value

/-- A member or a reference is stored, once. -/
def Stores (id : ℕ) (subscript : Option Text) (d : ℕ) (a b : Arrays) : Prop :=
  a.target id subscript = none ∧ b = a.add ⟨id, subscript, d⟩

/-- The member that is there, or a new one. -/
def Nests (c : ℕ) (i : Text) (d : ℕ) (a b : Arrays) : Prop :=
  a.target c (some i) = some d ∧ b = a ∨
    d = a.next ∧ Stores c (some i) d a.allocate b

/-- A future becomes a reference to the member when it is there. -/
def Finds (c : ℕ) (i : Text) (r : ℕ) (a b : Arrays) : Prop :=
  ∃ d, a.target c (some i) = some d ∧ Stores r none d a b

def Looks (c : ℕ) (i : Text) (r : ℕ) (a b : Arrays) : Prop :=
  Finds c i r a b ∨ b = a.wait ⟨c, i, r⟩

inductive Op
  | insert (c : Operand) (i : Subscript) (d : Operand)
  | lookup (c : Operand) (i : Subscript) (r : ℕ)
  | create (r : ℕ) (c : Operand) (i : Subscript)
  | copy (o : ℕ) (v : Operand)
  | signal (o : ℕ) (v : Operand)
  | size (result c : ℕ)
  | member (result c : ℕ) (i : Subscript)

def Op.Performs : Op → Arrays → Arrays → Prop
  | insert c i d, a, b => ∃ c' i' d', c.Denotes a c' ∧ i.Denotes a i' ∧ d.Denotes a d' ∧
      Stores c' (some i') d' a b
  | lookup c i r, a, b => ∃ c' i', c.Denotes a c' ∧ i.Denotes a i' ∧ Looks c' i' r a b
  | create r c i, a, b => ∃ c' i' d m, c.Denotes a c' ∧ i.Denotes a i' ∧ Nests c' i' d a m ∧
      Stores r none d m b
  | copy o v, a, b => ∃ v' value, v.Denotes a v' ∧ a.text v' = some value ∧ Sets o value a b
  | signal o _, a, b => Sets o (Nat.toDigits 10 12345) a b
  | size result c, a, b => Sets result (Nat.toDigits 10 (countOf a.cells c)) a b
  | member result c i, a, b => ∃ i', i.Denotes a i' ∧
      Sets result (if (a.target c (some i')).isSome then ['1'] else ['0']) a b

/-- A copy of what a future refers to becomes a copy of the datum. -/
inductive Op.Follows (a : Arrays) : Op → Op → Prop
  | copy {o r d : ℕ} : a.target r none = some d → Follows a (copy o (.referred r)) (copy o (.datum d))
  | signal {o r d : ℕ} : a.target r none = some d →
      Follows a (signal o (.referred r)) (signal o (.datum d))

/-! ### Programs -/

/-- The operations that are to be done. -/
structure Program where
  arrays : Arrays
  ops : Multiset Op

/-- Operations are called and done in any order, and in between the program creates data and stores
values, references and members. -/
inductive Program.Step : Program → Program → Prop
  | call {p : Program} (op : Op) : Step p { p with ops := op ::ₘ p.ops }
  | perform {p : Program} {op : Op} {rest : Multiset Op} {b : Arrays} : p.ops = op ::ₘ rest →
      op.Performs p.arrays b → Step p ⟨b, rest⟩
  | follow {p : Program} {op op' : Op} {rest : Multiset Op} : p.ops = op ::ₘ rest →
      op.Follows p.arrays op' → Step p ⟨p.arrays, op' ::ₘ rest⟩
  | found {p : Program} {w : Waiting} {waiting : Multiset Waiting} {b : Arrays} :
      p.arrays.waiting = w ::ₘ waiting →
      Finds w.container w.subscript w.reference { p.arrays with waiting := waiting } b →
      Step p { p with arrays := b }
  | allocate {p : Program} : Step p { p with arrays := p.arrays.allocate }
  | set {p : Program} {id : ℕ} {value : Text} {b : Arrays} : Sets id value p.arrays b →
      Step p { p with arrays := b }
  | add {p : Program} {id d : ℕ} {subscript : Option Text} {b : Arrays} :
      Stores id subscript d p.arrays b → Step p { p with arrays := b }
  | nest {p : Program} {c d : ℕ} {i : Text} {b : Arrays} : Nests c i d p.arrays b →
      Step p { p with arrays := b }
  | look {p : Program} {c r : ℕ} {i : Text} {b : Arrays} : Looks c i r p.arrays b →
      Step p { p with arrays := b }

def Program.start : Program := ⟨⟨fun _ => none, [], 0, 1⟩, 0⟩

def Program.Reach : Program → Program → Prop := Relation.ReflTransGen Program.Step

/-! ### What is written stays -/

/-- Values stay, and cells are only added in front. -/
structure Arrays.Grows (a b : Arrays) : Prop where
  values : ∀ id value, a.values id = some value → b.values id = some value
  cells : a.cells <:+ b.cells

namespace Arrays.Grows

variable {a b c : Arrays}

lemma of_eq (hvalues : b.values = a.values) (hcells : b.cells = a.cells) : a.Grows b :=
  ⟨fun _ _ h => hvalues ▸ h, hcells ▸ List.suffix_rfl⟩

lemma trans (hab : a.Grows b) (hbc : b.Grows c) : a.Grows c :=
  ⟨fun id value h => hbc.values id value (hab.values id value h), hab.cells.trans hbc.cells⟩

lemma of_sets {id : ℕ} {value : Text} (h : Sets id value a b) : a.Grows b := by
  obtain ⟨hnone, rfl⟩ := h
  refine ⟨fun i v hv => ?_, List.suffix_rfl⟩
  have hne : i ≠ id := by
    rintro rfl
    exact absurd (hnone.symm.trans hv) (Option.some_ne_none v).symm
  exact (Function.update_of_ne hne _ _).trans hv

lemma of_stores {id d : ℕ} {subscript : Option Text} (h : Stores id subscript d a b) :
    a.Grows b := by
  obtain ⟨-, rfl⟩ := h
  exact ⟨fun _ _ h => h, List.suffix_cons _ _⟩

lemma of_nests {c d : ℕ} {i : Text} (h : Nests c i d a b) : a.Grows b := by
  rcases h with ⟨-, rfl⟩ | ⟨-, hstores⟩
  · exact of_eq rfl rfl
  · have hallocate : a.Grows a.allocate := of_eq rfl rfl
    exact hallocate.trans (of_stores hstores)

lemma of_finds {c r : ℕ} {i : Text} (h : Finds c i r a b) : a.Grows b := by
  obtain ⟨d, -, hstores⟩ := h
  exact of_stores hstores

lemma of_looks {c r : ℕ} {i : Text} (h : Looks c i r a b) : a.Grows b := by
  rcases h with hfinds | rfl
  · exact of_finds hfinds
  · exact of_eq rfl rfl

end Arrays.Grows

lemma Op.Performs.grows {op : Op} {a b : Arrays} (h : op.Performs a b) : a.Grows b := by
  cases op with
  | insert c i d =>
    obtain ⟨c', i', d', -, -, -, hstores⟩ := h
    exact .of_stores hstores
  | lookup c i r =>
    obtain ⟨c', i', -, -, hlooks⟩ := h
    exact .of_looks hlooks
  | create r c i =>
    obtain ⟨c', i', d, m, -, -, hnests, hstores⟩ := h
    exact .trans (.of_nests hnests) (.of_stores hstores)
  | copy o v =>
    obtain ⟨v', value, -, -, hsets⟩ := h
    exact .of_sets hsets
  | signal o v => exact .of_sets h
  | size result c => exact .of_sets h
  | member result c i =>
    obtain ⟨i', -, hsets⟩ := h
    exact .of_sets hsets

lemma Program.Step.grows {p p' : Program} (h : Program.Step p p') : p.arrays.Grows p'.arrays := by
  cases h with
  | call op => exact .of_eq rfl rfl
  | perform _ hperforms => exact hperforms.grows
  | follow _ _ => exact .of_eq rfl rfl
  | @found w waiting b _ hfinds =>
    have hserved : p.arrays.Grows { p.arrays with waiting := waiting } := .of_eq rfl rfl
    exact hserved.trans (.of_finds hfinds)
  | allocate => exact .of_eq rfl rfl
  | set hsets => exact .of_sets hsets
  | add hstores => exact .of_stores hstores
  | nest hnests => exact .of_nests hnests
  | look hlooks => exact .of_looks hlooks

lemma Program.Reach.grows {p p' : Program} (h : Program.Reach p p') :
    p.arrays.Grows p'.arrays := by
  induction h with
  | refl => exact .of_eq rfl rfl
  | tail _ hlast ih => exact ih.trans hlast.grows

/-! ### The builtins -/

/-- The operation that a builtin stands for. -/
def Call.op : Call → Op
  | cFInsert c i d _ _ => .insert (.datum c) (.future i) (.datum d)
  | cFInsertR c i r _ _ => .insert (.datum c) (.future i) (.referred r)
  | cVInsertR c i r _ _ => .insert (.datum c) (.text i) (.referred r)
  | cFLookup c i r => .lookup (.datum c) (.future i) r
  | dereference .void v r => .signal v (.referred r)
  | dereference _ v r => .copy v (.referred r)
  | copy .void o i => .signal o (.datum i)
  | copy _ o i => .copy o (.datum i)
  | crVLookup cr i d => .lookup (.referred cr) (.text i) d
  | crFLookup cr i d => .lookup (.referred cr) (.future i) d
  | crFInsert cr j d => .insert (.referred cr) (.future j) (.datum d)
  | crVInsert cr j d => .insert (.referred cr) (.text j) (.datum d)
  | crVInsertR cr j dr => .insert (.referred cr) (.text j) (.referred dr)
  | crFInsertR cr j dr => .insert (.referred cr) (.future j) (.referred dr)
  | cFCreate r c i _ _ => .create r (.datum c) (.future i)
  | crVCreate r cr i => .create r (.referred cr) (.text i)
  | crFCreate r cr i => .create r (.referred cr) (.future i)
  | containerSize result container => .size result container
  | existsMember result c i | contains result c i => .member result c (.future i)
  | structrefReference structr subscript result => .lookup (.referred structr) (.text subscript) result
  | structInsertR struct subscript r _ _ => .insert (.datum struct) (.text subscript) (.referred r)

end Turbine.References
