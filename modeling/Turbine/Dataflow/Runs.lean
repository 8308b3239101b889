import Turbine.Dataflow.Bodies

/-! Runs of a program of calls on several processes, each with a cache: rules are made and fired in
any order, on any process, and caches lose entries. -/

namespace Turbine.Dataflow

open Turbine.Library Radix Dataflow Turbine.Data.Integers

/-- The server, the processes that share it, the calls that are not made yet and the rules that
have not fired yet. An error stops the run. -/
structure World (W : Type) where
  server : ℕ → Option Datum
  readRefs : ℕ → ℤ
  caches : W → ℕ → Option Datum
  program : Multiset Call
  rules : Multiset Call
  stopped : Option Stop

variable {W : Type}

def World.start (calls : Multiset Call) (refs : ℕ → ℤ) : World W :=
  ⟨fun _ => none, refs, fun _ _ => none, calls, 0, none⟩

/-- What the process `p` sees. -/
def World.on (w : World W) (p : W) : State := ⟨w.server, w.readRefs, w.caches p⟩

/-- What a body leaves. -/
def World.after [DecidableEq W] (w : World W) (p : W) : Except Stop Unit × State → World W
  | (.ok _, s) => { w with
      server := s.server, readRefs := s.readRefs, caches := Function.update w.caches p s.cache }
  | (.error e, s) => { w with
      server := s.server, readRefs := s.readRefs, caches := Function.update w.caches p s.cache
      stopped := some e }

def World.run [DecidableEq W] (w : World W) (p : W) (call : Call) : World W :=
  w.after p (call.rule.action (w.on p))

def World.evict [DecidableEq W] (w : World W) (p : W) (i : ℕ) : World W :=
  { w with caches := Function.update w.caches p (Function.update (w.caches p) i none) }

def Call.isStore : Call → Bool
  | store _ _ _ => true
  | _ => false

/-- What processes do: constants are stored at once, calls make a rule, and a
rule is fired once its inputs are set. -/
inductive Advance [DecidableEq W] : World W → World W → Prop
  | store {w : World W} {call : Call} {rest : Multiset Call} (p : W) : w.stopped = none →
      w.program = call ::ₘ rest → call.isStore → Advance w ({ w with program := rest }.run p call)
  | call {w : World W} {call : Call} {rest : Multiset Call} : w.stopped = none →
      w.program = call ::ₘ rest → ¬ call.isStore →
      Advance w { w with program := rest, rules := call ::ₘ w.rules }
  | fire {w : World W} {call : Call} {rest : Multiset Call} (p : W) : w.stopped = none →
      w.rules = call ::ₘ rest → (∀ i ∈ call.rule.inputs, (w.server i).isSome) →
      Advance w ({ w with rules := rest }.run p call)

inductive Step [DecidableEq W] : World W → World W → Prop
  | advance {w w' : World W} : Advance w w' → Step w w'
  | evict {w : World W} (p : W) (i : ℕ) : Step w (w.evict p i)

def Reach [DecidableEq W] : World W → World W → Prop := Relation.ReflTransGen Step

def World.pending (w : World W) : Multiset Call := w.program + w.rules

def World.Finished (w : World W) : Prop := w.stopped = none ∧ w.pending = 0

/-! ### Programs -/

def tasks (calls : Multiset Call) : Multiset (Task ℕ Datum Stop) := calls.map Call.task

/-- What a compiler makes sure of: calls have the types of their builtins and no future is set by
two of them. -/
structure Compiled (types : ℕ → Ty) (calls : Multiset Call) : Prop where
  typed : ∀ call ∈ calls, call.Typed types
  single : SingleAssignment (tasks calls)

@[simp] lemma tasks_cons (call : Call) (calls : Multiset Call) :
    tasks (call ::ₘ calls) = call.task ::ₘ tasks calls := Multiset.map_cons _ _ _

lemma mem_tasks {call : Call} {calls : Multiset Call} (h : call ∈ calls) :
    call.task ∈ tasks calls := Multiset.mem_map_of_mem _ h

/-! ### A program -/

def division : Multiset Call :=
  .store .integer 0 ['-', '7'] ::ₘ .store .integer 1 ['2'] ::ₘ
    .binary .divideInteger 2 0 1 ::ₘ .binary .modInteger 3 0 1 ::ₘ 0

lemma mem_division {call : Call} : call ∈ division ↔
    call = .store .integer 0 ['-', '7'] ∨ call = .store .integer 1 ['2'] ∨
      call = .binary .divideInteger 2 0 1 ∨ call = .binary .modInteger 3 0 1 := by
  simp only [division, Multiset.mem_cons, Multiset.notMem_zero, or_false]

lemma division_compiled : Compiled (fun _ => .integer) division where
  typed := by
    intro call hcall
    rcases mem_division.mp hcall with rfl | rfl | rfl | rfl <;> simp [Call.Typed]
  single := by
    have hnodup : ([0, 1, 2, 3] : List ℕ).Nodup := by decide
    exact Multiset.coe_nodup.mpr hnodup

lemma division_acyclic : Acyclic (tasks division) := by
  refine ⟨id, fun t ht i hi => ?_⟩
  obtain ⟨call, hcall, rfl⟩ := Multiset.mem_map.mp ht
  rcases mem_division.mp hcall with rfl | rfl | rfl | rfl <;>
    simp [Call.task, Call.inputs, Call.output] at hi ⊢ <;> omega

lemma division_closed : Closed (tasks division) := by
  intro t ht i hi
  obtain ⟨call, hcall, rfl⟩ := Multiset.mem_map.mp ht
  have hinput : i = 0 ∨ i = 1 := by
    rcases mem_division.mp hcall with rfl | rfl | rfl | rfl
    · cases hi
    · cases hi
    · exact List.mem_pair.mp hi
    · exact List.mem_pair.mp hi
  rcases hinput with rfl | rfl
  · exact ⟨_, mem_tasks (mem_division.mpr (.inl rfl)), rfl⟩
  · exact ⟨_, mem_tasks (mem_division.mpr (.inr (.inl rfl))), rfl⟩

/-! ### The invariant -/

/-- Some calls are done, one may have failed and stopped the run, and the others are pending. -/
structure Inv (types : ℕ → Ty) (calls : Multiset Call) (refs : ℕ → ℤ) (done failed : Multiset Call)
    (w : World W) : Prop where
  calls_eq : done + failed + w.pending = calls
  explains : Explains (tasks calls) (tasks done) (tasks (failed + w.pending)) w.server
  sound : Sound types w.server
  coherent : ∀ p, Coherent w.server (w.caches p)
  readRefs : w.stopped = none → ∀ i, w.readRefs i = refs i - uses (tasks done) i
  failed_none : w.stopped = none → failed = 0
  fails : ∀ e, w.stopped = some e → ∃ call ∈ calls, Fails (tasks calls) call.task e

variable {types : ℕ → Ty} {calls done failed : Multiset Call} {refs : ℕ → ℤ} {w w' : World W}

lemma inv_start : Inv types calls refs 0 0 (World.start calls refs : World W) where
  calls_eq := by simp [World.start, World.pending]
  explains := by
    simpa [World.start, World.pending, tasks] using explains_start (tasks calls)
  sound := ⟨by simp [World.start], by simp [World.start]⟩
  coherent p := by simp [Coherent, World.start]
  readRefs := by simp [World.start, tasks]
  failed_none _ := rfl
  fails e := by simp [World.start]

lemma Inv.same_pending (h : Inv types calls refs done failed w) {program rules : Multiset Call}
    (hpending : program + rules = w.pending) :
    Inv types calls refs done failed { w with program := program, rules := rules } where
  __ := h
  calls_eq := by simpa only [World.pending, hpending] using h.calls_eq
  explains := by simpa only [World.pending, hpending] using h.explains

/-- Every future that is set has the value that the calls give it, in the server as in the caches,
and when no call is left, every future that the calls give a value has it. -/
structure Computes (calls : Multiset Call) (w : World W) : Prop where
  server : ∀ i d, w.server i = some d → Means (tasks calls) i d
  caches : ∀ p i d, w.caches p i = some d → Means (tasks calls) i d
  finished : w.Finished → ∀ i d, w.server i = some d ↔ Means (tasks calls) i d

lemma Inv.computes (h : Inv types calls refs done failed w) (hcompiled : Compiled types calls) :
    Computes calls w where
  server := h.explains.means
  caches p i d hd := h.explains.means i d (h.coherent p i d hd)
  finished := by
    rintro ⟨hgoing, hpending⟩ i d
    refine ⟨h.explains.means i d, h.explains.store_of_means hcompiled.single ?_⟩
    simp [h.failed_none hgoing, hpending, tasks]

/-- Only calls that fail by what their inputs mean stop a run, and no run finishes if one does. -/
structure Explained (calls : Multiset Call) (w : World W) : Prop where
  stopped : ∀ e, w.stopped = some e → ∃ call ∈ calls, Fails (tasks calls) call.task e
  finished : w.Finished → ∀ call ∈ calls, ∀ e, ¬ Fails (tasks calls) call.task e

lemma Inv.explained (h : Inv types calls refs done failed w) (hcompiled : Compiled types calls) :
    Explained calls w where
  stopped := h.fails
  finished := by
    rintro ⟨hgoing, hpending⟩ call hcall e
    have hdone : call ∈ done := by
      rw [← h.calls_eq, h.failed_none hgoing, hpending] at hcall
      simpa using hcall
    exact h.explains.not_fails hcompiled.single (mem_tasks hdone) e

/-! ### Steps -/

variable [DecidableEq W]

lemma Inv.evict (h : Inv types calls refs done failed w) (p : W) (i : ℕ) :
    Inv types calls refs done failed (w.evict p i) where
  __ := h
  coherent q j d hd := by
    refine h.coherent q j d ?_
    by_cases hq : q = p
    · subst hq
      by_cases hj : j = i
      · simp [World.evict, hj] at hd
      · simpa [World.evict, hj] using hd
    · simpa [World.evict, hq] using hd

lemma coherent_update {caches : W → ℕ → Option Datum} {server server' cache : ℕ → Option Datum}
    {p : W} (h : ∀ q, Coherent server (caches q)) (hp : Coherent server' cache)
    (hserver : ∀ j d, server j = some d → server' j = some d) (q : W) :
    Coherent server' (Function.update caches p cache q) := by
  by_cases hq : q = p
  · subst hq
    rwa [Function.update_self]
  · rw [Function.update_of_ne hq]
    exact fun j d hd => hserver j d (h q j d hd)

lemma update_extends {server : ℕ → Option Datum} {i : ℕ} (hi : server i = none) (d : Datum) :
    ∀ j e, server j = some e → Function.update server i (some d) j = some e := by
  intro j e he
  have hj : j ≠ i := by
    rintro rfl
    rw [hi] at he
    cases he
  rwa [Function.update_of_ne hj]

section Run

variable {program rules : Multiset Call} {call : Call} {p : W} {s : State}

lemma Inv.done_step (h : Inv types calls refs done 0 w) (hgoing : w.stopped = none)
    (hpending : w.pending = call ::ₘ (program + rules)) {vals : ℕ → Datum}
    (hvals : ∀ i ∈ call.inputs, w.server i = some (vals i)) {d : Datum}
    (hd : call.compute (call.inputs.map vals) = .ok d) (hunset : w.server call.output = none)
    (hserver : s.server = Function.update w.server call.output (some d))
    (hrefs : ∀ i, s.readRefs i = w.readRefs i - call.inputs.count i) (hs : Holds types s) :
    Inv types calls refs (call ::ₘ done) 0
      ({ w with program := program, rules := rules }.after p (.ok (), s)) where
  calls_eq := by
    rw [← h.calls_eq, hpending]
    simp [World.after, World.pending, Multiset.cons_add, Multiset.add_cons]
  explains := by
    have hexplains := h.explains
    rw [hpending, zero_add, tasks_cons] at hexplains
    have hfire := hexplains.fire hvals hd
    rw [zero_add, tasks_cons]
    simp only [World.after, World.pending, hserver]
    exact hfire
  sound := hs.sound
  coherent := by
    refine coherent_update h.coherent hs.coherent ?_
    simpa only [World.after, hserver] using update_extends hunset d
  readRefs _ i := by
    have hbefore := h.readRefs hgoing i
    have hdrop := hrefs i
    simp only [World.after, tasks_cons, uses_cons, Call.task]
    push_cast
    omega
  failed_none _ := rfl
  fails e he := by
    rw [World.after, hgoing] at he
    cases he

lemma Inv.failed_step (h : Inv types calls refs done 0 w)
    (hpending : w.pending = call ::ₘ (program + rules)) {e : Stop}
    (hfails : Fails (tasks calls) call.task e) (hserver : s.server = w.server)
    (hs : Holds types s) :
    Inv types calls refs done {call}
      ({ w with program := program, rules := rules }.after p (.error e, s)) where
  calls_eq := by
    rw [← h.calls_eq, hpending]
    simp [World.after, World.pending, Multiset.add_cons, add_assoc, Multiset.singleton_add]
  explains := by
    have hexplains := h.explains
    rw [hpending, zero_add] at hexplains
    simpa only [World.after, World.pending, hserver, Multiset.singleton_add] using hexplains
  sound := hs.sound
  coherent := by
    refine coherent_update h.coherent hs.coherent ?_
    simp [World.after, hserver]
  readRefs hgoing := by simp [World.after] at hgoing
  failed_none hgoing := by simp [World.after] at hgoing
  fails e' he := by
    obtain rfl : e = e' := by simpa [World.after] using he
    exact ⟨call, h.calls_eq ▸ by simp [hpending], hfails⟩

lemma Inv.run (h : Inv types calls refs done failed w) (hcompiled : Compiled types calls)
    (hgoing : w.stopped = none) (hpending : w.pending = call ::ₘ (program + rules))
    (hready : ∀ i ∈ call.rule.inputs, (w.server i).isSome) (p : W) :
    ∃ done' failed', Inv types calls refs done' failed'
      ({ w with program := program, rules := rules }.run p call) := by
  obtain rfl := h.failed_none hgoing
  have hmem : call ∈ w.pending := hpending ▸ Multiset.mem_cons_self _ _
  have hcall : call ∈ calls := h.calls_eq ▸ by simp [hmem]
  have hunset : w.server call.output = none :=
    h.explains.output_unset hcompiled.single (mem_tasks (by simpa using hmem))
  obtain ⟨vals, hvals⟩ : ∃ vals : ℕ → Datum, ∀ i ∈ call.inputs, w.server i = some (vals i) := by
    refine ⟨fun i => (w.server i).getD (.integer 0), fun i hi => ?_⟩
    obtain ⟨d, hd⟩ := Option.isSome_iff_exists.mp (hready i (call.inputs_eq ▸ hi))
    simp only [hd, Option.getD_some]
  have houtcome := Call.implements (hcompiled.typed call hcall) (w.on p) vals
    ⟨h.sound, h.coherent p⟩ hunset hvals
  have hcompute : call.task.compute (call.task.inputs.map vals) =
    call.compute (call.inputs.map vals) := rfl
  rw [hcompute] at houtcome
  have hrun : ({ w with program := program, rules := rules } : World W).run p call =
      ({ w with program := program, rules := rules } : World W).after p
        (call.rule.action (w.on p)) := rfl
  rw [hrun]
  generalize call.rule.action (w.on p) = out at houtcome
  obtain ⟨r, s⟩ := out
  cases hd : call.compute (call.inputs.map vals) with
  | ok d =>
    rw [hd] at houtcome
    obtain ⟨rfl, hserver, hrefs, hs⟩ := houtcome
    exact ⟨_, _, h.done_step hgoing hpending hvals hd hunset hserver hrefs hs⟩
  | error e =>
    rw [hd] at houtcome
    obtain ⟨rfl, hserver, hs⟩ := houtcome
    exact ⟨_, _, h.failed_step hpending (h.explains.fails hvals hd) hserver hs⟩

end Run

lemma Inv.advance (h : Inv types calls refs done failed w) (hcompiled : Compiled types calls)
    (hstep : Advance w w') : ∃ done' failed', Inv types calls refs done' failed' w' := by
  cases hstep with
  | @store call rest p hgoing hprogram hstore =>
    have hpending : w.pending = call ::ₘ (rest + w.rules) := by
      rw [World.pending, hprogram, Multiset.cons_add]
    refine h.run hcompiled hgoing hpending ?_ p
    cases call with
    | store type c value => simp [Call.rule]
    | _ => simp [Call.isStore] at hstore
  | @call call rest hgoing hprogram _ =>
    have hpending : rest + (call ::ₘ w.rules) = w.pending := by
      rw [World.pending, hprogram, Multiset.cons_add, Multiset.add_cons]
    exact ⟨done, failed, h.same_pending hpending⟩
  | @fire call rest p hgoing hrules hready =>
    have hpending : w.pending = call ::ₘ (w.program + rest) := by
      rw [World.pending, hrules, Multiset.add_cons]
    exact h.run hcompiled hgoing hpending hready p

lemma Inv.step (h : Inv types calls refs done failed w) (hcompiled : Compiled types calls)
    (hstep : Step w w') : ∃ done' failed', Inv types calls refs done' failed' w' := by
  cases hstep with
  | advance hadvance => exact h.advance hcompiled hadvance
  | evict p i => exact ⟨done, failed, h.evict p i⟩

lemma Reach.inv (hcompiled : Compiled types calls) (h : Reach (.start calls refs) w) :
    ∃ done failed, Inv types calls refs done failed w := by
  induction h with
  | refl => exact ⟨0, 0, inv_start⟩
  | tail _ hstep ih =>
    obtain ⟨done, failed, hinv⟩ := ih
    exact hinv.step hcompiled hstep

/-! ### Progress -/

/-- What a run has left to do: a call is made and its rule is fired. -/
def World.left (w : World W) : ℕ := 2 * w.program.card + w.rules.card

@[simp] lemma World.run_left (w : World W) (p : W) (call : Call) : (w.run p call).left = w.left := by
  rw [World.run]
  rcases call.rule.action (w.on p) with ⟨_ | _, s⟩ <;> rfl

lemma Advance.left_lt (h : Advance w w') : w'.left < w.left := by
  cases h with
  | @store call rest p _ hprogram _ =>
    rw [World.run_left, World.left, World.left, hprogram, Multiset.card_cons]
    dsimp only
    omega
  | @call call rest _ hprogram _ =>
    rw [World.left, World.left, hprogram, Multiset.card_cons]
    dsimp only
    rw [Multiset.card_cons]
    omega
  | @fire call rest p _ hrules _ =>
    rw [World.run_left, World.left, World.left, hrules, Multiset.card_cons]
    dsimp only
    omega

lemma exists_advance_of_program (p : W) (hgoing : w.stopped = none) (hne : w.program ≠ 0) :
    ∃ w', Advance w w' := by
  obtain ⟨call, hcall⟩ := Multiset.exists_mem_of_ne_zero hne
  obtain ⟨rest, hprogram⟩ := Multiset.exists_cons_of_mem hcall
  by_cases hstore : call.isStore = true
  · exact ⟨_, .store p hgoing hprogram hstore⟩
  · exact ⟨_, .call hgoing hprogram hstore⟩

/-- When all calls are made, one of the rules has all its inputs. -/
lemma Inv.exists_advance (h : Inv types calls refs done failed w)
    (hacyclic : Acyclic (tasks calls)) (hclosed : Closed (tasks calls)) (p : W)
    (hgoing : w.stopped = none) (hne : w.pending ≠ 0) : ∃ w', Advance w w' := by
  by_cases hprogram : w.program = 0
  · have hpending : failed + w.pending = w.rules := by
      rw [h.failed_none hgoing, zero_add, World.pending, hprogram, zero_add]
    have hrules : tasks w.rules ≠ 0 := by
      rw [World.pending, hprogram, zero_add] at hne
      simpa [tasks] using hne
    have hexplains := h.explains
    rw [hpending] at hexplains
    obtain ⟨t, ht, hready⟩ := hexplains.exists_ready hacyclic hclosed hrules
    obtain ⟨call, hcall, rfl⟩ := Multiset.mem_map.mp ht
    obtain ⟨rest, hrest⟩ := Multiset.exists_cons_of_mem hcall
    refine ⟨_, .fire p hgoing hrest fun i hi => hready i ?_⟩
    rwa [call.inputs_eq] at hi
  · exact exists_advance_of_program p hgoing hprogram

lemma Reach.exists_end (hcompiled : Compiled types calls) (hacyclic : Acyclic (tasks calls))
    (hclosed : Closed (tasks calls)) (p : W) (h : Reach (.start calls refs) w) :
    ∃ w', Reach w w' ∧ (w'.Finished ∨ w'.stopped.isSome) := by
  induction hn : w.left using Nat.strong_induction_on generalizing w with
  | _ n ih =>
    cases hgoing : w.stopped with
    | some e => exact ⟨w, .refl, .inr (by rw [hgoing]; rfl)⟩
    | none =>
      by_cases hpending : w.pending = 0
      · exact ⟨w, .refl, .inl ⟨hgoing, hpending⟩⟩
      · obtain ⟨done, failed, hinv⟩ := h.inv hcompiled
        obtain ⟨v, hadvance⟩ := hinv.exists_advance hacyclic hclosed p hgoing hpending
        have hstep : Step w v := .advance hadvance
        obtain ⟨w', hrun, hend⟩ := ih v.left (hn ▸ hadvance.left_lt) (h.tail hstep) rfl
        exact ⟨w', .head hstep hrun, hend⟩

/-! ### A run -/

def quotients (i : ℕ) : Datum := .integer ([-7, 2, -3, -1].getD i 0)

lemma means_of_call {call : Call} (hcall : call ∈ calls) (vals : ℕ → Datum)
    (hvals : ∀ i ∈ call.inputs, Means (tasks calls) i (vals i))
    (hd : call.compute (call.inputs.map vals) = .ok (vals call.output)) :
    Means (tasks calls) call.output (vals call.output) :=
  .computed (mem_tasks hcall) hvals hd

lemma compute_store (c : ℕ) {value : Text} {n : ℤ} (h : getWideInt (trimmed value) = some n) :
    (Call.store .integer c value).compute [] = .ok (.integer n) := by
  simp only [Call.compute, ofText, h]

lemma compute_binary {op : Binary} {x y n : ℤ} (c a b : ℕ) (h : op.meaning x y = .ok n)
    (hn : Fits64 n) :
    (Call.binary op c a b).compute [.integer x, .integer y] = .ok (.integer n) := by
  simp only [Call.compute, h, bind, Except.bind, ofInteger_of_fits hn]

lemma division_means {call : Call} (hcall : call ∈ division) :
    Means (tasks division) call.output (quotients call.output) := by
  have h₀ : Means (tasks division) 0 (quotients 0) := by
    have hmem : .store .integer 0 ['-', '7'] ∈ division := mem_division.mpr (.inl rfl)
    exact means_of_call hmem quotients nofun (compute_store _ (by decide))
  have h₁ : Means (tasks division) 1 (quotients 1) := by
    have hmem : .store .integer 1 ['2'] ∈ division := mem_division.mpr (.inr (.inl rfl))
    exact means_of_call hmem quotients nofun (compute_store _ (by decide))
  have hinputs : ∀ i ∈ [0, 1], Means (tasks division) i (quotients i) :=
    List.forall_mem_cons.mpr ⟨h₀, List.forall_mem_singleton.mpr h₁⟩
  have hcalls := mem_division.mp hcall
  rcases hcalls with rfl | rfl | rfl | rfl
  · exact h₀
  · exact h₁
  · exact means_of_call hcall quotients hinputs (compute_binary _ _ _ rfl (by decide))
  · exact means_of_call hcall quotients hinputs (compute_binary _ _ _ rfl (by decide))

/-- No call of the program fails, so the run that there is has finished. -/
lemma division_run (refs : ℕ → ℤ) : ∃ w : World (Fin 2), Reach (.start division refs) w ∧
    w.Finished ∧ ∀ call ∈ division, w.server call.output = some (quotients call.output) := by
  have hstart : Reach (.start division refs) (.start division refs : World (Fin 2)) := .refl
  obtain ⟨w, hw, hend⟩ := hstart.exists_end division_compiled division_acyclic division_closed 0
  obtain ⟨done, failed, hinv⟩ := hw.inv division_compiled
  rcases hend with hfinished | hstopped
  · refine ⟨w, hw, hfinished, fun call hcall => ?_⟩
    exact ((hinv.computes division_compiled).finished hfinished _ _).mpr (division_means hcall)
  · obtain ⟨e, he⟩ := Option.isSome_iff_exists.mp hstopped
    obtain ⟨failing, hmem, hfails⟩ := hinv.fails e he
    exact absurd hfails
      ((division_means hmem).not_fails division_compiled.single (mem_tasks hmem) e)

/-! ### What runs compute -/

theorem runs_compute_meaning (hcompiled : Compiled types calls) :
    (∀ i d d', Means (tasks calls) i d → Means (tasks calls) i d' → d = d') ∧
      ∀ refs (w : World W), Reach (.start calls refs) w → Computes calls w := by
  refine ⟨fun i d d' hd hd' => hd.unique hcompiled.single hd', fun refs w hw => ?_⟩
  obtain ⟨done, failed, hinv⟩ := hw.inv hcompiled
  exact hinv.computes hcompiled

theorem runs_compute_meaning_division : ∃ w : World (Fin 2),
    Reach (.start division fun _ => 2) w ∧ w.Finished ∧ w.server 2 = some (.integer (-3)) ∧
      Computes division w := by
  obtain ⟨w, hw, hfinished, hset⟩ := division_run fun _ => 2
  have hquotient := hset (.binary .divideInteger 2 0 1) (by simp [mem_division])
  exact ⟨w, hw, hfinished, hquotient, (runs_compute_meaning division_compiled).2 _ w hw⟩

/-! ### Errors -/

/-- As long as calls are left, the run can go on, and it comes to an end. -/
structure Progresses (calls : Multiset Call) (w : World W) : Prop where
  advance : w.stopped = none → w.pending ≠ 0 → ∃ w', Advance w w'
  decreases : ∀ w', Advance w w' → w'.left < w.left
  ends : ∃ w', Reach w w' ∧ (w'.Finished ∨ w'.stopped.isSome)

theorem runs_come_to_an_end [Nonempty W] (hcompiled : Compiled types calls)
    (hacyclic : Acyclic (tasks calls)) (hclosed : Closed (tasks calls)) :
    ∀ refs (w : World W), Reach (.start calls refs) w → Progresses calls w := by
  intro refs w hw
  obtain ⟨p⟩ := ‹Nonempty W›
  obtain ⟨done, failed, hinv⟩ := hw.inv hcompiled
  exact ⟨hinv.exists_advance hacyclic hclosed p, fun w' => Advance.left_lt,
    hw.exists_end hcompiled hacyclic hclosed p⟩

theorem runs_come_to_an_end_division : ∃ w w' : World (Fin 2),
    w = .start division (fun _ => 2) ∧ Reach w w' ∧ w'.Finished ∧ Progresses division w ∧
      Progresses division w' := by
  obtain ⟨w', hw', hfinished, -⟩ := division_run fun _ => 2
  have hall := runs_come_to_an_end (W := Fin 2) division_compiled division_acyclic division_closed
    fun _ => 2
  exact ⟨_, w', rfl, hw', hfinished, hall _ .refl, hall w' hw'⟩

/-! ### References -/

lemma uses_le {done pending : Multiset (Task ℕ Datum Stop)} {call : Call}
    (h : call.task ∈ pending) (i : ℕ) :
    uses done i + call.inputs.count i ≤ uses (done + pending) i := by
  obtain ⟨rest, rfl⟩ := Multiset.exists_cons_of_mem h
  have hinputs : call.task.inputs = call.inputs := rfl
  rw [uses_add, uses_cons, hinputs]
  omega

/-- A call that is left finds a reference for each of its uses, and when no call is left, all that
were used are gone. -/
structure Lasts (calls : Multiset Call) (refs : ℕ → ℤ) (w : World W) : Prop where
  pending : ∀ call ∈ w.pending, ∀ i, (call.inputs.count i : ℤ) ≤ w.readRefs i
  finished : w.pending = 0 → ∀ i, w.readRefs i = refs i - uses (tasks calls) i

theorem references_last (hcompiled : Compiled types calls)
    (hrefs : ∀ i, (uses (tasks calls) i : ℤ) ≤ refs i) :
    ∀ w : World W, Reach (.start calls refs) w → w.stopped = none → Lasts calls refs w := by
  intro w hw hgoing
  obtain ⟨done, failed, hinv⟩ := hw.inv hcompiled
  have hsplit : tasks done + tasks w.pending = tasks calls := by
    rw [← hinv.calls_eq, hinv.failed_none hgoing, add_zero, tasks, tasks, tasks, Multiset.map_add]
  constructor
  · intro call hcall i
    have hle : uses (tasks done) i + call.inputs.count i ≤
        uses (tasks done + tasks w.pending) i := uses_le (mem_tasks hcall) i
    rw [hsplit] at hle
    have hall := hrefs i
    rw [hinv.readRefs hgoing i]
    omega
  · intro hpending i
    rw [hinv.readRefs hgoing i, ← hsplit, hpending]
    simp [tasks]

/-- The reference counts that the program needs. -/
def divisionRefs (i : ℕ) : ℤ := if i < 2 then 2 else 0

theorem references_last_division : ∃ w : World (Fin 2),
    Reach (.start division divisionRefs) w ∧ w.Finished ∧ Lasts division divisionRefs w := by
  have henough : ∀ i, (uses (tasks division) i : ℤ) ≤ divisionRefs i := by
    intro i
    have huses : uses (tasks division) i = [0, 1].count i + [0, 1].count i := by
      simp [uses, division, Call.task, Call.inputs, tasks]
    rw [huses, divisionRefs]
    rcases i with _ | _ | i <;> simp
  obtain ⟨w, hw, hfinished, -⟩ := division_run divisionRefs
  exact ⟨w, hw, hfinished, references_last division_compiled henough w hw hfinished.1⟩

end Turbine.Dataflow
