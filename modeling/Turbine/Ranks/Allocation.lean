import Turbine.Library.OrderedDict

/-! How the ranks of a communicator are divided into servers and workers of each work type. -/

namespace Turbine.Ranks

open Turbine.Library

abbrev Counts := OrderedDict String ℤ

structure RankAllocation where
  servers : ℤ
  workers : ℤ
  workersByType : Counts

inductive Err
  | tooManyWorkers (workersByType : Counts) (workers runningSum : ℤ)
  | noServers
  | noWorkers
  | noSuchKey (key : String)
  | noSuchVariable (name : String)

def lappendNew (types : List String) (workType : String) : List String :=
  if workType ∈ types then types else types ++ [workType]

def declareCustomWorkTypes (addtlWorkTypes args : List String) : List String :=
  args.foldl lappendNew addtlWorkTypes

def registerAllExecutors (addtlWorkTypes availableExecutors : List String) : List String :=
  availableExecutors.foldl lappendNew addtlWorkTypes

/-- The custom work types after the calls that declare some, when `init` has added the
executors. -/
def addtlWorkTypes (declared : List (List String)) (availableExecutors : List String) :
    List String :=
  registerAllExecutors (declared.foldl declareCustomWorkTypes []) availableExecutors

section Allocation

variable (toupper : String → String) (env : String → Option ℤ)

def workerCount (workType : String) : ℤ :=
  (env ("TURBINE_" ++ toupper workType ++ "_WORKERS")).getD 0

def allocateType (acc : Counts × ℤ) (workType : String) : Counts × ℤ :=
  let count := workerCount toupper env workType
  if count > 0 then (acc.1.set workType count, acc.2 + count) else acc

def rankAllocation (addtlWorkTypes : List String) (adlbSize : ℤ) : Except Err RankAllocation :=
  let nServers := (env "ADLB_SERVERS").getD 1
  let nWorkers := adlbSize - nServers
  let (nWorkersByType, runningSum) := addtlWorkTypes.foldl (allocateType toupper env) (.empty, 0)
  if runningSum ≥ nWorkers then .error (.tooManyWorkers nWorkersByType nWorkers runningSum)
  else
    let nRegularWorkers := nWorkers - runningSum
    .ok ⟨nServers, nWorkers, nWorkersByType.set "WORK" nRegularWorkers⟩

end Allocation

def assertControlSanity (nAdlbServers : ℤ) : Except Err Unit :=
  if nAdlbServers ≤ 0 then .error .noServers else .ok ()

def lsearch (types : List String) (workType : String) : Option ℕ := types.idxOf? workType

def lreplace (types : List String) (pos : Option ℕ) : List String :=
  match pos with
  | none => types
  | some pos => types.eraseIdx pos

def lsort (types : List String) : List String := types.insertionSort (· ≤ ·)

def workTypesFromAllocation (allocation : RankAllocation) : List String :=
  let workTypes := allocation.workersByType.keys
  let workPos := lsearch workTypes "WORK"
  let executors := lsort (lreplace workTypes workPos)
  "WORK" :: executors

/-! ### Modes -/

def dictGet (counts : Counts) (key : String) : Except Err ℤ :=
  match counts.get? key with
  | none => .error (.noSuchKey key)
  | some n => .ok n

/-- The loop over the work types; the variable `mode` may be left unset. -/
def findMode (counts : Counts) (rank : ℤ) : ℤ → List String → Except Err (Option String)
  | _, [] => .ok none
  | k, workType :: workTypes => do
    let n ← dictGet counts workType
    if rank < k + n then return some workType
    else findMode counts rank (k + n) workTypes

def logRankLayout (allocation : RankAllocation) (workTypes : List String) : Except Err Unit :=
  if allocation.workers ≤ 0 then .error .noWorkers
  else workTypes.forM fun workType => do let _ ← dictGet allocation.workersByType workType

def chooseMode (allocation : RankAllocation) (workTypes : List String) (amserver : Bool)
    (rank : ℤ) : Except Err (Option String) :=
  if amserver then .ok (some "SERVER") else findMode allocation.workersByType rank 0 workTypes

def setupMode (allocation : RankAllocation) (workTypes : List String) (amserver : Bool)
    (rank : ℤ) : Except Err String := do
  let _ ← dictGet allocation.workersByType "WORK"
  match ← chooseMode allocation workTypes amserver rank with
  | none => .error (.noSuchVariable "mode")
  | some mode => do
    if rank = 0 then logRankLayout allocation workTypes
    return mode

/-- The mode that a rank sets up, where the ranks below the worker count are workers. -/
def modeOf (allocation : RankAllocation) (workTypes : List String) (rank : ℤ) :
    Except Err String :=
  setupMode allocation workTypes (decide (allocation.workers ≤ rank)) rank

def enum (members : List String) : OrderedDict String ℕ :=
  (members.foldl (fun (acc : OrderedDict String ℕ × ℕ) member =>
    (acc.1.set member acc.2, acc.2 + 1)) (.empty, 0)).1

/-- The loop that a rank enters, with the work type that it asks for. -/
inductive Role
  | server
  | workerLoop (workType : ℕ)
  | asyncExecWorkerLoop (name : String) (workType : ℕ)
  deriving DecidableEq

def Role.workType : Role → Option ℕ
  | .server => none
  | .workerLoop workType => some workType
  | .asyncExecWorkerLoop _ workType => some workType

section Worker

variable (workTypes : OrderedDict String ℕ)

def adlbWorkType (name : String) : Except Err ℕ :=
  match workTypes.get? name with
  | none => .error (.noSuchVariable ("WORK_TYPE(" ++ name ++ ")"))
  | some workType => .ok workType

def standardWorker (mode : String) : Except Err Role := do
  return .workerLoop (← adlbWorkType workTypes mode)

def asyncExecWorker (workType : String) : Except Err Role := do
  return .asyncExecWorkerLoop workType (← adlbWorkType workTypes workType)

def customWorker (availableExecutors : List String) (mode : String) : Except Err Role :=
  if mode ∉ availableExecutors then standardWorker workTypes mode
  else asyncExecWorker workTypes mode

def enterMode (availableExecutors : List String) (mode : String) : Except Err Role :=
  if mode = "SERVER" then .ok .server
  else if mode = "WORK" then standardWorker workTypes "WORK"
  else customWorker workTypes availableExecutors mode

end Worker

/-! ### What is allocated -/

lemma nodup_lappendNew {types : List String} (h : types.Nodup) (workType : String) :
    (lappendNew types workType).Nodup := by
  unfold lappendNew
  split
  · exact h
  · rename_i hnot
    simpa [List.nodup_append, h] using fun a ha (heq : a = workType) => hnot (heq ▸ ha)

lemma nodup_foldl_lappendNew (args : List String) {types : List String} (h : types.Nodup) :
    (args.foldl lappendNew types).Nodup := by
  induction args generalizing types with
  | nil => exact h
  | cons arg args ih => exact ih (nodup_lappendNew h arg)

lemma nodup_addtlWorkTypes (declared : List (List String)) (availableExecutors : List String) :
    (addtlWorkTypes declared availableExecutors).Nodup := by
  have hdeclared : ∀ types : List String, types.Nodup →
      (declared.foldl declareCustomWorkTypes types).Nodup := by
    induction declared with
    | nil => exact fun _ h => h
    | cons args declared ih => exact fun _ h => ih _ (nodup_foldl_lappendNew args h)
  exact nodup_foldl_lappendNew _ (hdeclared [] List.nodup_nil)

structure Allocated (types : List String) (acc : Counts × ℤ) : Prop where
  keys : ∀ t ∈ acc.1.keys, t ∈ types
  sum : acc.1.values.sum = acc.2
  pos : ∀ t n, acc.1.get? t = some n → 0 < n

variable {toupper : String → String} {env : String → Option ℤ}

lemma Allocated.step {types : List String} {acc : Counts × ℤ} (h : Allocated types acc)
    {workType : String} (hnew : workType ∉ types) :
    Allocated (types ++ [workType]) (allocateType toupper env acc workType) := by
  have hkey : workType ∉ acc.1.keys := fun hmem => hnew (h.keys workType hmem)
  unfold allocateType
  by_cases hcount : workerCount toupper env workType > 0
  · rw [if_pos hcount]
    constructor
    · intro t ht
      rw [OrderedDict.keys_set_of_notMem _ hkey] at ht
      rcases List.mem_append.mp ht with ht | ht
      · exact List.mem_append_left _ (h.keys t ht)
      · exact List.mem_append_right _ ht
    · rw [OrderedDict.values_set_of_notMem _ hkey, List.sum_append, h.sum, List.sum_singleton]
    · intro t n hget
      rw [OrderedDict.get?_set] at hget
      by_cases ht : t = workType
      · rw [if_pos ht] at hget
        obtain rfl := Option.some.inj hget
        exact hcount
      · rw [if_neg ht] at hget
        exact h.pos t n hget
  · rw [if_neg hcount]
    exact ⟨fun t ht => List.mem_append_left _ (h.keys t ht), h.sum, h.pos⟩

lemma allocated_foldl (rest : List String) {types : List String} {acc : Counts × ℤ}
    (h : Allocated types acc) (hnodup : (types ++ rest).Nodup) :
    Allocated (types ++ rest) (rest.foldl (allocateType toupper env) acc) := by
  induction rest generalizing types acc with
  | nil => simpa using h
  | cons workType rest ih =>
    have hnew : workType ∉ types := fun hmem =>
      (List.nodup_append.mp hnodup).2.2 _ hmem _ List.mem_cons_self rfl
    have hsplit : types ++ workType :: rest = (types ++ [workType]) ++ rest := by simp
    rw [hsplit] at hnodup ⊢
    exact ih (h.step hnew) hnodup

/-- What `rank_allocation` promises of its result. -/
structure Sound (adlbSize : ℤ) (addtl : List String) (allocation : RankAllocation) : Prop where
  total : allocation.servers + allocation.workers = adlbSize
  sum : allocation.workersByType.values.sum = allocation.workers
  pos : ∀ t n, allocation.workersByType.get? t = some n → 0 < n
  keys : ∃ rest, allocation.workersByType.keys = rest ++ ["WORK"] ∧ "WORK" ∉ rest ∧
    ∀ t ∈ rest, t ∈ addtl

theorem sound_rankAllocation {addtl : List String} {adlbSize : ℤ} {allocation : RankAllocation}
    (hnodup : addtl.Nodup) (hwork : "WORK" ∉ addtl)
    (h : rankAllocation toupper env addtl adlbSize = .ok allocation) :
    Sound adlbSize addtl allocation := by
  have hall : Allocated addtl (addtl.foldl (allocateType toupper env) (.empty, 0)) :=
    @allocated_foldl _ _ addtl [] _ ⟨by simp [OrderedDict.keys, OrderedDict.empty], rfl,
      by simp [OrderedDict.get?, OrderedDict.empty]⟩ (by simpa using hnodup)
  unfold rankAllocation at h
  generalize addtl.foldl (allocateType toupper env) (.empty, 0) = acc at h hall
  obtain ⟨counts, runningSum⟩ := acc
  simp only at h
  by_cases hmany : runningSum ≥ adlbSize - (env "ADLB_SERVERS").getD 1
  · simp [hmany] at h
  · rw [if_neg hmany] at h
    obtain rfl := Except.ok.inj h
    have hkey : "WORK" ∉ counts.keys := fun hmem => hwork (hall.keys _ hmem)
    constructor
    · simp
    · simp only [OrderedDict.values_set_of_notMem _ hkey, List.sum_append, List.sum_singleton]
      have hsum : counts.values.sum = runningSum := hall.sum
      omega
    · intro t n hget
      simp only [OrderedDict.get?_set] at hget
      by_cases ht : t = "WORK"
      · rw [if_pos ht] at hget
        have hn := Option.some.inj hget
        omega
      · rw [if_neg ht] at hget
        exact hall.pos t n hget
    · exact ⟨counts.keys, OrderedDict.keys_set_of_notMem _ hkey, hkey, hall.keys⟩

end Turbine.Ranks
