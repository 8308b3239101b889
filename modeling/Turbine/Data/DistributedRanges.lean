import Turbine.Data.Ranges

/-! A range spread over several containers, each of them filled by a task of its own. -/

namespace Turbine.Data.DistributedRanges

open Turbine.Library Progressions Arrays Ranges

structure Task where
  priority : ℤ
  result : ℕ
  start : ℤ
  stop : ℤ
  step : ℤ

structure State where
  store : Numbers ℤ
  -- the members of containers of references
  members : ℕ → OrderedDict ℕ ℕ
  next : ℕ
  tasks : List Task
  priority : ℤ

abbrev Client := Cmd State Stop

def onStore {α : Type} (c : Script ℕ ℤ α) : Client α := fun s =>
  ((c s.store).1, { s with store := (c s.store).2 })

def Store.create (store : Numbers ℤ) (id : ℕ) : Numbers ℤ :=
  { store with
    readRefs := Function.update store.readRefs id 1
    contents := Function.update store.contents id .empty
    writeRefs := Function.update store.writeRefs id 1 }

def allocateContainer : Client ℕ := fun s =>
  (.ok s.next, { s with store := Store.create s.store s.next, next := s.next + 1 })

def containerInsert (id subscript member : ℕ) : Client Unit := fun s =>
  if subscript ∈ (s.members id).keys then (.error (.doubleWrite id), s)
  else (.ok (), { s with
    members := Function.update s.members id ((s.members id).set subscript member) })

def getPriority : Client ℤ := fun s => (.ok s.priority, s)

def put (task : Task) : Client Unit := Cmd.modify fun s => { s with tasks := s.tasks ++ [task] }

def writeRefcountDecr (id : ℕ) : Client Unit := Cmd.modify fun s =>
  { s with store := { s.store with
      writeRefs := Function.update s.store.writeRefs id (s.store.writeRefs id - 1) } }

def divide (a b : ℤ) : Client ℤ := if b = 0 then Cmd.throw .divideByZero else pure (a.fdiv b)

def putPart (result : ℕ) (step : ℤ) (i : ℕ) : Client Unit := do
  let c ← allocateContainer
  containerInsert result i c
  let s := i * step
  let e := s + step - 1
  let prio ← getPriority
  put ⟨prio, c, s, e, 1⟩

def drangeBody (result start stop parts : ℕ) : Client Unit := do
  let startValue ← onStore (retrieveDecr start)
  let endValue ← onStore (retrieveDecr stop)
  let partsValue ← onStore (retrieveDecr parts)
  let size := endValue - startValue + 1
  let step ← divide size partsValue
  forM (List.range partsValue.toNat) (putPart result step)
  writeRefcountDecr result

def runTask (fuel : ℕ) (task : Task) : Script ℕ ℤ Unit :=
  rangeWork fuel task.result task.start task.stop task.step

/-! ### What the tasks leave in the containers -/

section Tasks

variable {m fuel : ℕ}

/-- A task for `m` integers, whose container is empty. -/
structure Fills (m : ℕ) (s : Numbers ℤ) (task : Task) : Prop where
  contents : s.contents task.result = .empty
  step : task.step = 1
  count : ∀ k, k < m ↔ progression task.start 1 k ≤ task.stop

lemma runTask_ends (hfuel : m < fuel) {s : Numbers ℤ} {task : Task} (h : Fills m s task) :
    Cmd.Ends (runTask fuel task) s fun _ t =>
      (t.contents task.result).entries = terms (progression task.start 1) m ∧
        ∀ c, c ≠ task.result → t.contents c = s.contents c := by
  have hbuild := buildRangeDict_builds fuel task.start task.stop 1
  rw [collect_count h.count hfuel, Option.map_eq_some_iff] at hbuild
  obtain ⟨d, hd, hentries⟩ := hbuild
  refine ⟨(), s.fill task.result d 1, ?_, ?_, fun c hc => Function.update_of_ne hc _ _⟩
  · rw [runTask, rangeWork, work, h.step, hd]
    exact arrayKvBuild_apply h.contents d 1
  · rw [entries_fill h.contents, hentries]

lemma runTasks_end (hfuel : m < fuel) {tasks : List Task}
    (hnodup : (tasks.map Task.result).Nodup) {s : Numbers ℤ} (h : ∀ task ∈ tasks, Fills m s task) :
    Cmd.Ends (forM tasks (runTask fuel)) s fun _ t =>
      (∀ task ∈ tasks, (t.contents task.result).entries = terms (progression task.start 1) m) ∧
        ∀ c ∉ tasks.map Task.result, t.contents c = s.contents c := by
  induction tasks generalizing s with
  | nil => exact Cmd.ends_pure ⟨fun _ hmem => absurd hmem List.not_mem_nil, fun _ _ => rfl⟩
  | cons task tasks ih =>
    obtain ⟨hnot, hnodup⟩ := List.nodup_cons.mp hnodup
    obtain ⟨htask, htasks⟩ := List.forall_mem_cons.mp h
    rw [List.forM_cons]
    refine (runTask_ends hfuel htask).bind ?_
    rintro - t ⟨hfilled, hsame⟩
    have hother : ∀ other ∈ tasks, other.result ≠ task.result := by
      intro other hmem heq
      exact hnot (List.mem_map.mpr ⟨other, hmem, heq⟩)
    have hfills : ∀ other ∈ tasks, Fills m t other := by
      intro other hmem
      refine ⟨?_, (htasks other hmem).step, (htasks other hmem).count⟩
      rw [hsame _ (hother other hmem)]
      exact (htasks other hmem).contents
    refine (ih hnodup hfills).mono ?_
    rintro - u ⟨hall, hrest⟩
    refine ⟨List.forall_mem_cons.mpr ⟨?_, hall⟩, fun c hc => ?_⟩
    · rw [hrest _ hnot, hfilled]
    · obtain ⟨hc, hcs⟩ := not_or.mp (mt List.mem_cons.mpr hc)
      rw [hrest c hcs, hsame c hc]

end Tasks

/-! ### The tasks that are put -/

def State.part (s : State) (step : ℤ) (i : ℕ) : Task :=
  ⟨s.priority, s.next + i, i * step, i * step + step - 1, 1⟩

/-- From `s` the first `n` parts have been put. -/
structure Put (s : State) (result : ℕ) (step : ℤ) (n : ℕ) (t : State) : Prop where
  members : (t.members result).entries = (List.range n).map fun i => (i, s.next + i)
  tasks : t.tasks = (List.range n).map (s.part step)
  next : t.next = s.next + n
  priority : t.priority = s.priority
  contents : ∀ i < n, t.store.contents (s.next + i) = .empty

lemma Put.keys {s t : State} {result n : ℕ} {step : ℤ} (h : Put s result step n t) :
    (t.members result).keys = List.range n := by
  rw [OrderedDict.keys, h.members, List.map_map]
  exact List.map_id _

lemma Put.values {s t : State} {result n : ℕ} {step : ℤ} (h : Put s result step n t) :
    (t.members result).values = (List.range n).map (s.next + ·) := by
  rw [OrderedDict.values, h.members, List.map_map]
  rfl

lemma putPart_ends {s t : State} {result n : ℕ} {step : ℤ} (h : Put s result step n t) :
    Cmd.Ends (putPart result step n) t fun _ u => Put s result step (n + 1) u := by
  have hnot : n ∉ (t.members result).keys := by
    rw [h.keys]
    exact List.not_mem_range_self
  refine ⟨(), { t with
    store := Store.create t.store t.next
    next := t.next + 1
    members := Function.update t.members result ((t.members result).set n t.next)
    tasks := t.tasks ++ [⟨t.priority, t.next, n * step, n * step + step - 1, 1⟩] }, ?_, ?_⟩
  · rw [putPart, Cmd.bind_of_ok (by rfl)]
    rw [Cmd.bind_of_ok (by rw [containerInsert, if_neg hnot])]
    rfl
  · constructor
    · simp only [Function.update_self]
      rw [OrderedDict.entries_set_of_notMem _ hnot, h.members, h.next, List.range_succ,
        List.map_append, List.map_singleton]
    · simp only [h.tasks, h.next, h.priority, List.range_succ, List.map_append,
        List.map_singleton, State.part]
    · simp only [h.next, add_assoc]
    · exact h.priority
    · intro i hi
      simp only [Store.create, h.next]
      rcases Nat.lt_succ_iff_lt_or_eq.mp hi with hi | rfl
      · rw [Function.update_of_ne (by omega), h.contents i hi]
      · rw [Function.update_self]

lemma putParts_end {s t : State} {result : ℕ} {step : ℤ} (h : Put s result step 0 t) (n : ℕ) :
    Cmd.Ends (forM (List.range n) (putPart result step)) t fun _ u => Put s result step n u := by
  induction n with
  | zero => exact Cmd.ends_pure h
  | succ n ih =>
    rw [List.range_succ, List.forM_append]
    refine ih.bind fun _ u hu => ?_
    rw [List.forM_cons]
    exact (putPart_ends hu).bind fun _ v hv => Cmd.ends_pure hv

/-! ### The integers in all the containers -/

lemma flatMap_range (n m : ℕ) :
    ((List.range n).flatMap fun i => (List.range m).map (i * m + ·)) = List.range (n * m) := by
  induction n with
  | zero => simp
  | succ n ih => rw [List.range_succ, List.flatMap_append, ih, List.flatMap_singleton,
      Nat.succ_mul, List.range_add]

def integers (first last : ℤ) : List ℤ :=
  (List.range (last - first + 1).toNat).map fun (k : ℕ) => first + k

/-- The inputs are closed, and nothing is in the result yet. -/
structure Ready (s : State) (result start stop parts : ℕ) (first last n : ℤ) : Prop where
  members : s.members result = .empty
  tasks : s.tasks = []
  start : s.store.value start = some first
  stop : s.store.value stop = some last
  parts : s.store.value parts = some n

/-- In whatever order the tasks run, the containers together hold `list`. -/
def Distributes (result start stop parts : ℕ) (s : State) (n : ℕ) (list : List ℤ) : Prop :=
  Cmd.Ends (drangeBody result start stop parts) s fun _ t =>
    (t.members result).keys = List.range n ∧
      ∀ order : List Task, order.Perm t.tasks → ∃ enough, ∀ fuel ≥ enough,
        Cmd.Ends (forM order (runTask fuel)) t.store fun _ u =>
          (t.members result).values.flatMap (fun c => (u.contents c).values) = list

variable {s : State} {result start stop parts : ℕ} {first last n : ℤ}

/-- The parts all have the same length, and start at zero. -/
lemma Put.filled {t : State} {k m : ℕ} {order : List Task} {fuel : ℕ} (h : Put s result m k t)
    (horder : order.Perm t.tasks) (hfuel : m < fuel) :
    Cmd.Ends (forM order (runTask fuel)) t.store fun _ u =>
      (t.members result).values.flatMap (fun c => (u.contents c).values) =
        (List.range (k * m)).map ((↑) : ℕ → ℤ) := by
  have hresults : t.tasks.map Task.result = (List.range k).map (s.next + ·) := by
    rw [h.tasks, List.map_map]
    rfl
  have hnodup : (order.map Task.result).Nodup := by
    rw [(horder.map _).nodup_iff, hresults]
    exact List.nodup_range.map fun _ _ hij => Nat.add_left_cancel hij
  have hfills : ∀ task ∈ order, Fills m t.store task := by
    intro task hmem
    rw [horder.mem_iff, h.tasks] at hmem
    obtain ⟨i, hi, rfl⟩ := List.mem_map.mp hmem
    refine ⟨h.contents i (List.mem_range.mp hi), rfl, fun j => ?_⟩
    simp only [progression, State.part]
    omega
  refine (runTasks_end hfuel hnodup hfills).mono ?_
  rintro - u ⟨hall, -⟩
  rw [h.values, List.flatMap_map, ← flatMap_range, List.map_flatMap]
  refine List.flatMap_congr fun i hi => ?_
  have hentries := hall (s.part m i)
    (horder.mem_iff.mpr (h.tasks ▸ List.mem_map_of_mem hi))
  change ((u.contents (s.next + i)).entries.map Prod.snd) = _
  rw [show s.next + i = (s.part m i).result from rfl, hentries, terms, List.map_map, List.map_map]
  refine List.map_congr_left fun j _ => ?_
  simp [progression, State.part]

lemma onStore_apply {α : Type} {c : Script ℕ ℤ α} {s : State} {a : α} {u : Numbers ℤ}
    (h : c s.store = (.ok a, u)) : onStore c s = (.ok a, { s with store := u }) := by
  rw [onStore, h]

lemma drangeBody_ends (h : Ready s result start stop parts first last n) (hn : n ≠ 0) :
    Cmd.Ends (drangeBody result start stop parts) s fun _ t =>
      Put s result ((last - first + 1).fdiv n) n.toNat t := by
  let u := { s with store := ((s.store.read start).read stop).read parts }
  have hput : Put s result ((last - first + 1).fdiv n) 0 u := by
    refine ⟨?_, h.tasks, rfl, rfl, fun i hi => absurd hi (Nat.not_lt_zero i)⟩
    change (s.members result).entries = _
    rw [h.members]
    rfl
  rw [drangeBody]
  apply Cmd.bind_ends_of_ok (onStore_apply (retrieveDecr_apply h.start))
  apply Cmd.bind_ends_of_ok (onStore_apply (retrieveDecr_apply (s := s.store.read start) h.stop))
  apply Cmd.bind_ends_of_ok (onStore_apply
    (retrieveDecr_apply (s := (s.store.read start).read stop) h.parts))
  apply Cmd.bind_ends_of_ok (a := (last - first + 1).fdiv n) (t := u)
  · rw [divide, if_neg hn]
    rfl
  refine (putParts_end hput n.toNat).bind ?_
  rintro - t ht
  exact ⟨(), _, rfl, ⟨ht.members, ht.tasks, ht.next, ht.priority, ht.contents⟩⟩

lemma distributes_iff (h : Ready s result start stop parts first last n) (hle : first ≤ last)
    (hn : 1 ≤ n) (list : List ℤ) : Distributes result start stop parts s n.toNat list ↔
      (List.range (n.toNat * ((last - first + 1).fdiv n).toNat)).map ((↑) : ℕ → ℤ) = list := by
  obtain ⟨⟨⟩, t, hrun, hput⟩ := drangeBody_ends h (by omega)
  generalize hm : ((last - first + 1).fdiv n).toNat = m
  have hstep : (last - first + 1).fdiv n = m := by
    rw [← hm, Int.toNat_of_nonneg (Int.fdiv_nonneg (by omega) (by omega))]
  rw [hstep] at hput
  constructor
  · rintro ⟨⟨⟩, t', hrun', -, horders⟩
    obtain ⟨-, rfl⟩ := Prod.mk.inj (hrun.symm.trans hrun')
    obtain ⟨enough, hends⟩ := horders t.tasks (.refl _)
    obtain ⟨⟨⟩, u, hu, hlist⟩ := hends (max enough (m + 1)) (le_max_left _ _)
    obtain ⟨⟨⟩, u', hu', hlist'⟩ := hput.filled (.refl _) (le_max_right enough (m + 1))
    obtain ⟨-, rfl⟩ := Prod.mk.inj (hu.symm.trans hu')
    exact hlist'.symm.trans hlist
  · rintro rfl
    exact ⟨(), t, hrun, hput.keys, fun order horder =>
      ⟨m + 1, fun fuel hfuel => hput.filled horder hfuel⟩⟩

lemma range_eq_integers_iff (hle : first ≤ last) (hn : 1 ≤ n) :
    (List.range (n.toNat * ((last - first + 1).fdiv n).toNat)).map ((↑) : ℕ → ℤ) =
      integers first last ↔ first = 0 ∧ n ∣ last - first + 1 := by
  have hsize : 0 < last - first + 1 := by omega
  have hstep : 0 ≤ (last - first + 1).fdiv n := Int.fdiv_nonneg hsize.le (by omega)
  have htotal : ((n.toNat * ((last - first + 1).fdiv n).toNat : ℕ) : ℤ) =
      n * ((last - first + 1) / n) := by
    rw [Nat.cast_mul, Int.toNat_of_nonneg (by omega), Int.toNat_of_nonneg hstep,
      Int.fdiv_eq_ediv_of_nonneg _ (by omega)]
  constructor
  · intro heq
    have hlength := congrArg List.length heq
    simp only [integers, List.length_map, List.length_range] at hlength
    have hdvd : n ∣ last - first + 1 := ⟨(last - first + 1) / n, by omega⟩
    have hhead := congrArg List.head? heq
    obtain ⟨size, hsucc⟩ := Nat.exists_eq_add_one.mpr (Int.lt_toNat.mpr hsize)
    rw [hlength, integers, hsucc] at hhead
    simp only [List.range_succ_eq_map, List.map_cons, List.head?_cons, Option.some.injEq,
      Nat.cast_zero, add_zero] at hhead
    exact ⟨hhead.symm, hdvd⟩
  · rintro ⟨rfl, hdvd⟩
    rw [Int.mul_ediv_cancel' hdvd] at htotal
    rw [integers, ← Int.toNat_natCast (n.toNat * _), htotal]
    simp

/-! ### Main result -/

theorem drange_meets_iff (h : Ready s result start stop parts first last n) (hle : first ≤ last)
    (hn : 1 ≤ n) :
    Distributes result start stop parts s n.toNat (integers first last) ↔
      first = 0 ∧ n ∣ last - first + 1 := by
  rw [distributes_iff h hle hn, range_eq_integers_iff hle hn]

def closed (first last n : ℤ) : State where
  store := ⟨fun id => [first, last, n][id]?, fun _ => 1, fun _ => .empty, fun _ => 1⟩
  members _ := .empty
  next := 4
  tasks := []
  priority := 0

theorem drange_meets_iff_even :
    Distributes 3 0 1 2 (closed 0 5 3) 3 (integers 0 5) :=
  (drange_meets_iff (n := 3) ⟨rfl, rfl, rfl, rfl, rfl⟩ (by decide) (by decide)).mpr
    ⟨rfl, by decide⟩

/-- Seven integers in two parts: the last is lost. -/
theorem not_drange_meets :
    ¬ ∀ s result start stop parts first last n, Ready s result start stop parts first last n →
      first ≤ last → 1 ≤ n →
        Distributes result start stop parts s n.toNat (integers first last) := by
  intro h
  have hready : Ready (closed 0 6 2) 3 0 1 2 0 6 2 := ⟨rfl, rfl, rfl, rfl, rfl⟩
  have hlist := (distributes_iff hready (by decide) (by decide) _).mp
    (h _ 3 0 1 2 0 6 2 hready (by decide) (by decide))
  exact absurd hlist (by decide)

end Turbine.Data.DistributedRanges
