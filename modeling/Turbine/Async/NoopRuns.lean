import Turbine.Async.Executors
import Turbine.Library.Settlements

/-! The no-op executor over whole runs: its counter agrees with its active slots, and the tasks
it reports are tasks that it launched, each once. -/

namespace Turbine.Async

open Turbine.Library

/-- The executor, the callbacks of the tasks it was given, and the tasks it has reported. -/
structure NoopHistory where
  state : NoopState
  launched : List TaskCallbacks
  reported : List CompletedTask

/-- The calls made of the executor since it was started; each call has come back. -/
inductive NoopRun : NoopHistory → Prop
  | start : NoopRun ⟨noopStart, [], []⟩
  | execute {h callbacks s} : NoopRun h → h.state.used < h.state.total →
      noopExecute h.state callbacks = some s → NoopRun ⟨s, h.launched ++ [callbacks], h.reported⟩
  | wait {h size coin val₀ val₁ draws tasks s} : NoopRun h → 1 ≤ size →
      noopWait h.state size coin val₀ val₁ draws = some (tasks, s) →
      NoopRun ⟨s, h.launched, h.reported ++ tasks⟩
  | poll {h size lucky coin val₀ val₁ draws tasks s} : NoopRun h → 1 ≤ size →
      noopPoll h.state size lucky coin val₀ val₁ draws = some (tasks, s) →
      NoopRun ⟨s, h.launched, h.reported ++ tasks⟩

/-- The states in which `fill_completed` enters `choose_completed`. -/
inductive EntersChoose (s : NoopState) (size : ℕ) (coin : Bool) (val : Obj) (draws : List ℕ) :
    NoopState → Prop
  | first : EntersChoose s size coin val draws s
  | second {task s' rest} : s.used > 1 ∧ coin ∧ size ≥ 2 →
      chooseCompleted val s draws = some ((task, s'), rest) → EntersChoose s size coin val draws s'

structure NoopHistory.Accounts (h : NoopHistory) : Prop where
  wf : h.state.Wf
  total_pos : 0 < h.state.total
  conserved : (↑h.launched : Multiset TaskCallbacks) =
    ↑(h.reported.map (·.callbacks)) + activeCallbacks h.state.tasks

lemma NoopHistory.Accounts.execute {h : NoopHistory} {callbacks : TaskCallbacks} {s : NoopState}
    (ha : h.Accounts) (he : noopExecute h.state callbacks = some s) :
    (⟨s, h.launched ++ [callbacks], h.reported⟩ : NoopHistory).Accounts := by
  obtain ⟨hwf, -, htotal, hactive⟩ := ha.wf.execute he
  refine ⟨hwf, htotal ▸ ha.total_pos, ?_⟩
  rw [← Multiset.coe_add, ha.conserved, hactive, Multiset.coe_singleton, ← Multiset.singleton_add]
  abel

lemma NoopHistory.Accounts.report {h : NoopHistory} {size : ℕ} {tasks : List CompletedTask}
    {s : NoopState} (ha : h.Accounts) (hr : noopReports h.state size tasks s) :
    (⟨s, h.launched, h.reported ++ tasks⟩ : NoopHistory).Accounts := by
  obtain ⟨hwf, -, htotal, hactive⟩ := ha.wf.reports hr
  refine ⟨hwf, htotal ▸ ha.total_pos, ?_⟩
  rw [ha.conserved, hactive, List.map_append, ← Multiset.coe_add, add_assoc]

lemma NoopRun.accounts {h : NoopHistory} (hr : NoopRun h) : h.Accounts := by
  induction hr with
  | start => exact ⟨noopStart_wf, by decide, rfl⟩
  | execute _ _ he ih => exact ih.execute he
  | wait _ _ hw ih => exact ih.report (.inr ⟨_, _, _, _, hw⟩)
  | poll _ _ hp ih => exact ih.report (.inl ⟨_, _, _, _, _, hp⟩)

lemma fillCompleted_length {s s' : NoopState} {size : ℕ} {coin : Bool} {val₀ val₁ : Obj}
    {draws : List ℕ} {tasks : List CompletedTask} (hsize : 1 ≤ size)
    (h : fillCompleted s size coin val₀ val₁ draws = some (tasks, s')) : tasks.length ≤ size := by
  unfold fillCompleted at h
  split at h
  · rename_i hpair
    simp only [Option.bind_eq_bind, Option.bind_eq_some_iff] at h
    obtain ⟨_, -, _, -, he⟩ := h
    cases he
    exact hpair.2.2
  · simp only [Option.bind_eq_bind, Option.bind_eq_some_iff] at h
    obtain ⟨_, -, he⟩ := h
    cases he
    exact hsize

lemma noopReports_length {s s' : NoopState} {size : ℕ} {tasks : List CompletedTask}
    (hsize : 1 ≤ size) (h : noopReports s size tasks s') : tasks.length ≤ size := by
  rcases h with ⟨_, _, _, _, _, hp⟩ | ⟨_, _, _, _, hw⟩
  · unfold noopPoll at hp
    split at hp
    · exact fillCompleted_length hsize hp
    · cases hp
      exact Nat.zero_le _
  · unfold noopWait at hw
    split at hw
    · exact fillCompleted_length hsize hw
    · cases hw
      exact Nat.zero_le _

/-- An active slot can be drawn, and drawing it ends the choice. -/
lemma chooseCompleted_of_active {s : NoopState} (hlength : s.tasks.length = s.total)
    (hactive : 0 < activeCount s.tasks) (val : Obj) :
    ∃ r, (chooseCompleted val s [r]).isSome := by
  obtain ⟨task, hmem, hact⟩ := List.countP_pos_iff.mp hactive
  obtain ⟨i, hi, rfl⟩ := List.mem_iff_getElem.mp hmem
  refine ⟨i, ?_⟩
  have hmod : i % s.total = i := Nat.mod_eq_of_lt (hlength ▸ hi)
  simp [chooseCompleted, hmod, List.getElem?_eq_getElem hi, hact]

/-- While slots are used, `choose_completed` is entered with a slot that is active: the second
time one of at least two is left. -/
lemma EntersChoose.active {s s' : NoopState} {size : ℕ} {coin : Bool} {val : Obj} {draws : List ℕ}
    (h : EntersChoose s size coin val draws s') (hwf : s.Wf) (hused : 0 < s.used) :
    0 < s'.used ∧ 0 < activeCount s'.tasks ∧ s'.tasks.length = s'.total := by
  have hu := hwf.used_eq
  cases h with
  | first => exact ⟨hused, hu ▸ hused, hwf.length_eq⟩
  | second hpair hchoose =>
    obtain ⟨hused', htotal, hlength, hcount, -⟩ := chooseCompleted_spec hchoose
    refine ⟨hused'.symm ▸ hused, ?_, hlength.trans (hwf.length_eq.trans htotal.symm)⟩
    have := hpair.1
    omega

/-- In every run of the no-op executor its counter is the number of its active slots, a launch
finds a free slot, what it has reported are different tasks of those launched, and it chooses among
active slots. -/
theorem noop_accounts {h : NoopHistory} (hrun : NoopRun h) :
    h.state.used = activeCount h.state.tasks ∧ h.state.used ≤ h.state.total ∧
      (h.state.used < h.state.total → ∀ callbacks, (noopExecute h.state callbacks).isSome) ∧
      Settles (h.reported.map (·.callbacks)) h.launched ∧
      (∀ size tasks s, 1 ≤ size → noopReports h.state size tasks s → tasks.length ≤ size) ∧
      ∀ size coin val draws s, 0 < h.state.used →
        EntersChoose h.state size coin val draws s →
        0 < s.used ∧ 0 < activeCount s.tasks ∧ ∃ r, (chooseCompleted val s [r]).isSome := by
  have ha := hrun.accounts
  refine ⟨ha.wf.used_eq, ha.wf.used_le, ?_, ?_, ?_, ?_⟩
  · exact fun hfree callbacks => ha.wf.execute_isSome callbacks hfree
  · exact settles_of_le (ha.conserved ▸ Multiset.le_add_right _ _)
  · exact fun size tasks s hsize hr => noopReports_length hsize hr
  · intro size coin val draws s hused henters
    obtain ⟨hused', hactive, hlength⟩ := henters.active ha.wf hused
    exact ⟨hused', hactive, chooseCompleted_of_active hlength hactive val⟩

-- one task is launched, and reported by a wait that draws its slot
theorem noop_accounts_reported : ∃ h : NoopHistory,
    h.launched = [⟨some 1, none⟩] ∧ h.reported.map (·.callbacks) = [⟨some 1, none⟩] ∧
      h.state.used = activeCount h.state.tasks ∧
      Settles (h.reported.map (·.callbacks)) h.launched := by
  have hlaunch : NoopRun _ := .execute .start (by decide)
    (rfl : noopExecute noopStart ⟨some 1, none⟩ = some _)
  have hrun : NoopRun _ := .wait hlaunch le_rfl (rfl : noopWait _ 1 false 7 8 [4] = some (_, _))
  obtain ⟨hused, -, -, hsettles, -⟩ := noop_accounts hrun
  exact ⟨_, rfl, rfl, hused, hsettles⟩

end Turbine.Async
