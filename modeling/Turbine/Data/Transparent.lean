import Turbine.Data.Retrieve

/-! Retrieves that find a datum in the cache do the same as those that do not. -/

namespace Turbine.Data.Retrieve

open Turbine.Library

/-- The cache has what the server has. -/
def Consistent (s : State) : Prop :=
  ∀ id type value, s.cache id = some (type, value) → s.server.value id = some value

@[simp] lemma drop_value (server : Server) (id : ℕ) (decr : ℤ) :
    (server.drop id decr).value = server.value := rfl

@[simp] lemma drop_zero (server : Server) (id : ℕ) : server.drop id 0 = server := by
  simp [Server.drop]

lemma fetch_of_some {server : Server} {id : ℕ} {value : String} (decr : ℕ)
    (h : server.value id = some value) :
    server.fetch decr id = (.ok value, server.drop id decr) := by
  simp [Server.fetch, h]

lemma fetch_of_none {server : Server} {id : ℕ} (decr : ℕ) (h : server.value id = none) :
    server.fetch decr id = (.error (.unset id), server) := by
  simp [Server.fetch, h]

@[simp] lemma fetch_value (server : Server) (decr id : ℕ) :
    (server.fetch decr id).2.value = server.value := by
  cases h : server.value id with
  | none => rw [fetch_of_none decr h]
  | some value => rw [fetch_of_some decr h, drop_value]

lemma Consistent.of_eq {s t : State} (h : Consistent s) (hcache : t.cache = s.cache)
    (hvalue : t.server.value = s.server.value) : Consistent t := by
  intro id type value hid
  rw [hvalue]
  exact h id type value (by rwa [← hcache])

lemma Consistent.fill {s t : State} {id : ℕ} {type : Ty} {value : String} (h : Consistent s)
    (hcache : t.cache = Function.update s.cache id (some (type, value)))
    (hvalue : t.server.value = s.server.value) (hid : s.server.value id = some value) :
    Consistent t := by
  intro id' type' value' hid'
  rw [hcache] at hid'
  rw [hvalue]
  by_cases heq : id' = id
  · subst heq
    obtain ⟨-, rfl⟩ : type = type' ∧ value = value' := by simpa using hid'
    exact hid
  · exact h id' type' value' (by simpa [heq] using hid')

/-- The script returns and leaves at the server what the server's answer alone would. -/
structure Fetches (script : Script String) (decr id : ℕ) (s : State) : Prop where
  result : (script s).1 = (s.server.fetch decr id).1
  server : (script s).2.server = (s.server.fetch decr id).2
  consistent : Consistent (script s).2

section Commands

variable {s : State} {id decr : ℕ} {type : Ty} {value : String}

lemma adlbRetrieveDecr_apply (type : Option Ty) :
    adlbRetrieveDecr id decr type s =
      ((s.server.fetch decr id).1, { s with server := (s.server.fetch decr id).2 }) := by
  unfold adlbRetrieveDecr Server.fetch
  cases s.server.value id <;> rfl

lemma cacheCheck_apply : cacheCheck id s = (.ok (s.cache id).isSome, s) := rfl

lemma cacheRetrieve_apply (h : s.cache id = some (type, value)) :
    cacheRetrieve id s = (.ok value, s) := by
  simp [cacheRetrieve, h]

lemma readRefcountDecr_apply :
    readRefcountDecr id decr s = (.ok (), { s with server := s.server.drop id decr }) := rfl

lemma cacheStore_apply :
    cacheStore id type value s =
      (.ok (), { s with cache := Function.update s.cache id (some (type, value)) }) := rfl

/-- A hit: the value in the cache, with the reference dropped at the server. -/
lemma hit_fetches {script : Script String} (hs : Consistent s)
    (hcache : s.cache id = some (type, value))
    (hscript : script s = (.ok value, { s with server := s.server.drop id decr })) :
    Fetches script decr id s := by
  have hvalue := hs id type value hcache
  refine ⟨?_, ?_, ?_⟩
  · rw [hscript, fetch_of_some _ hvalue]
  · rw [hscript, fetch_of_some _ hvalue]
  · rw [hscript]
    exact hs.of_eq rfl rfl

/-- A miss: the server's answer, which the cache may keep. -/
lemma miss_fetches {script : Script String} (hs : Consistent s)
    (hscript : (script s).1 = (s.server.fetch decr id).1 ∧
      (script s).2.server = (s.server.fetch decr id).2)
    (hcache : (script s).2.cache = s.cache ∨ ∃ type value, s.server.value id = some value ∧
      (script s).2.cache = Function.update s.cache id (some (type, value))) :
    Fetches script decr id s := by
  have hvalue : (script s).2.server.value = s.server.value := by rw [hscript.2, fetch_value]
  refine ⟨hscript.1, hscript.2, ?_⟩
  rcases hcache with hcache | ⟨type, value, hid, hcache⟩
  · exact hs.of_eq hcache hvalue
  · exact hs.fill hcache hvalue hid

end Commands

/-- The two ways to ask the server are one. -/
lemma retrieve_decr_or (type : Ty) (id decrref : ℕ) :
    (if decrref = 0 then adlbRetrieve id type else adlbRetrieveDecr id decrref (some type)) =
      adlbRetrieveDecr id decrref (some type) := by
  by_cases hdecr : decrref = 0
  · rw [if_pos hdecr, hdecr, adlbRetrieve]
  · rw [if_neg hdecr]

lemma retrieveTyped_fetches (type : Ty) (fills : Bool) (id : ℕ) (cachemode : String) (decrref : ℕ)
    {s : State} (hs : Consistent s) :
    Fetches (retrieveTyped type fills id cachemode decrref) decrref id s := by
  by_cases hmode : cachemode = "CACHED"
  · cases hcache : s.cache id with
    | none =>
      cases hvalue : s.server.value id with
      | none =>
        refine miss_fetches hs ?_ (.inl ?_) <;>
          simp [retrieveTyped, retrieve_decr_or, Cmd.bind_apply, cacheCheck_apply, hmode, hcache,
            adlbRetrieveDecr_apply, fetch_of_none _ hvalue]
      | some value =>
        cases fills with
        | false =>
          refine miss_fetches hs ?_ (.inl ?_) <;>
            simp [retrieveTyped, retrieve_decr_or, Cmd.bind_apply, cacheCheck_apply, hmode, hcache,
              adlbRetrieveDecr_apply, fetch_of_some _ hvalue]
        | true =>
          refine miss_fetches hs ?_ (.inr ⟨type, value, hvalue, ?_⟩) <;>
            simp [retrieveTyped, retrieve_decr_or, Cmd.bind_apply, cacheCheck_apply, hmode, hcache,
              adlbRetrieveDecr_apply, fetch_of_some _ hvalue, cacheStore_apply, Cmd.map_apply,
              Except.map]
    | some entry =>
      obtain ⟨type', value⟩ := entry
      refine hit_fetches hs hcache ?_
      by_cases hdecr : decrref = 0
      · simp [retrieveTyped, Cmd.bind_apply, cacheCheck_apply, hmode, hcache, hdecr,
          cacheRetrieve_apply hcache]
      · simp [retrieveTyped, Cmd.bind_apply, cacheCheck_apply, hmode, hcache, hdecr,
          cacheRetrieve_apply hcache, readRefcountDecr_apply, Cmd.map_apply, Except.map]
  · cases hvalue : s.server.value id with
    | none =>
      refine miss_fetches hs ?_ (.inl ?_) <;>
        simp [retrieveTyped, retrieve_decr_or, Cmd.bind_apply, cacheCheck_apply, hmode,
          adlbRetrieveDecr_apply, fetch_of_none _ hvalue]
    | some value =>
      refine miss_fetches hs ?_ (.inl ?_) <;>
        simp [retrieveTyped, retrieve_decr_or, Cmd.bind_apply, cacheCheck_apply, hmode,
          adlbRetrieveDecr_apply, fetch_of_some _ hvalue]

lemma retrieveOne_fetches (cachemode : String) (readDecr : ℕ) (type : Option Ty) (id : ℕ)
    {s : State} (hs : Consistent s) :
    Fetches (retrieveOne cachemode readDecr type id) readDecr id s := by
  by_cases hmode : cachemode = "CACHED"
  · cases hcache : s.cache id with
    | none =>
      refine miss_fetches hs ?_ ?_
      · simp [retrieveOne, Cmd.bind_apply, cacheCheck_apply, hmode, hcache, adlbRetrieveDecr_apply]
      · simp [retrieveOne, Cmd.bind_apply, cacheCheck_apply, hmode, hcache, adlbRetrieveDecr_apply]
    | some entry =>
      obtain ⟨type', value⟩ := entry
      refine hit_fetches hs hcache ?_
      by_cases hdecr : readDecr = 0
      · simp [retrieveOne, Cmd.bind_apply, cacheCheck_apply, hmode, hcache, hdecr,
          cacheRetrieve_apply hcache]
      · simp [retrieveOne, Cmd.bind_apply, cacheCheck_apply, hmode, hcache, hdecr,
          cacheRetrieve_apply hcache, readRefcountDecr_apply, Cmd.map_apply, Except.map]
  · refine miss_fetches hs ?_ ?_
    · simp [retrieveOne, Cmd.bind_apply, cacheCheck_apply, hmode, adlbRetrieveDecr_apply]
    · simp [retrieveOne, Cmd.bind_apply, cacheCheck_apply, hmode, adlbRetrieveDecr_apply]

/-! ### References to files -/

lemma retrieveFileRef_miss (id : ℕ) (cachemode : String) (decrref : ℕ) {s : State}
    (h : cachemode = "CACHED" → s.cache id = none) :
    retrieveFileRef id cachemode decrref s = retrieveTyped .fileRef true id cachemode decrref s := by
  by_cases hmode : cachemode = "CACHED"
  · simp [retrieveFileRef, retrieveTyped, Cmd.bind_apply, cacheCheck_apply, hmode, h hmode]
  · simp [retrieveFileRef, retrieveTyped, Cmd.bind_apply, cacheCheck_apply, hmode]

/-- A hit drops one reference if it is to drop any. -/
lemma retrieveFileRef_hit (id decrref : ℕ) {s : State} {type : Ty} {value : String}
    (hcache : s.cache id = some (type, value)) :
    retrieveFileRef id "CACHED" decrref s =
      (.ok value, { s with server := s.server.drop id (min decrref 1 : ℕ) }) := by
  by_cases hdecr : decrref = 0
  · simp [retrieveFileRef, Cmd.bind_apply, cacheCheck_apply, hcache, hdecr,
      cacheRetrieve_apply hcache]
  · have hmin : min decrref 1 = 1 := by omega
    simp [retrieveFileRef, Cmd.bind_apply, cacheCheck_apply, hcache, hdecr, hmin,
      cacheRetrieve_apply hcache, readRefcountDecr_apply, Cmd.map_apply, Except.map]

lemma drop_inj {server : Server} {id : ℕ} {m n : ℕ} (h : server.drop id m = server.drop id n) :
    m = n := by
  have hrefs := congrFun (congrArg Server.readRefs h) id
  simpa [Server.drop] using hrefs

lemma retrieveFileRef_fetches_iff (id : ℕ) (cachemode : String) (decrref : ℕ) {s : State}
    (hs : Consistent s) :
    ((retrieveFileRef id cachemode decrref s).1 = (s.server.fetch decrref id).1 ∧
      (retrieveFileRef id cachemode decrref s).2.server = (s.server.fetch decrref id).2) ↔
      (cachemode = "CACHED" → (s.cache id).isSome → decrref ≤ 1) := by
  by_cases hmiss : cachemode = "CACHED" → s.cache id = none
  · have hfetches := retrieveTyped_fetches .fileRef true id cachemode decrref hs
    rw [retrieveFileRef_miss id cachemode decrref hmiss]
    refine iff_of_true ⟨hfetches.result, hfetches.server⟩ ?_
    intro hmode hsome
    simp [hmiss hmode] at hsome
  · obtain ⟨rfl, hsome⟩ := Classical.not_imp.mp hmiss
    obtain ⟨⟨type, value⟩, hcache⟩ := Option.ne_none_iff_exists'.mp hsome
    rw [retrieveFileRef_hit id decrref hcache, fetch_of_some _ (hs id type value hcache)]
    simp only [hcache, Option.isSome_some, true_and, forall_const]
    constructor
    · intro hdrop
      have hmin := drop_inj hdrop
      omega
    · intro hle
      rw [min_eq_left hle]

lemma retrieveFileRef_consistent (id : ℕ) (cachemode : String) (decrref : ℕ) {s : State}
    (hs : Consistent s) : Consistent (retrieveFileRef id cachemode decrref s).2 := by
  by_cases hmiss : cachemode = "CACHED" → s.cache id = none
  · rw [retrieveFileRef_miss id cachemode decrref hmiss]
    exact (retrieveTyped_fetches .fileRef true id cachemode decrref hs).consistent
  · obtain ⟨rfl, hsome⟩ := Classical.not_imp.mp hmiss
    obtain ⟨⟨type, value⟩, hcache⟩ := Option.ne_none_iff_exists'.mp hsome
    rw [retrieveFileRef_hit id decrref hcache]
    exact hs.of_eq rfl rfl

/-! ### Batches -/

/-- A batch returns and leaves at the server what the server's answers alone would. -/
structure FetchesAll {α : Type} (script : Script α) (f : List String → α) (decr : ℕ)
    (ids : List ℕ) (s : State) : Prop where
  result : (script s).1 = (s.server.fetchAll decr ids).1.map f
  server : (script s).2.server = (s.server.fetchAll decr ids).2
  consistent : Consistent (script s).2

lemma FetchesAll.nil {α : Type} {f : List String → α} {decr : ℕ} {s : State} (hs : Consistent s) :
    FetchesAll (pure (f [])) f decr [] s := ⟨rfl, rfl, hs⟩

lemma FetchesAll.cons {α : Type} {script : Script String} {rest : String → Script α}
    {f : List String → α} {decr id : ℕ} {ids : List ℕ} {s : State} (h : Fetches script decr id s)
    (hrest : ∀ value t, Consistent t → FetchesAll (rest value) (fun values => f (value :: values))
      decr ids t) :
    FetchesAll (script >>= rest) f decr (id :: ids) s := by
  obtain ⟨hresult, hserver, hconsistent⟩ := h
  rcases hscript : script s with ⟨result, t⟩
  rw [hscript] at hresult hserver hconsistent
  simp only at hresult hserver hconsistent
  cases hfetch : s.server.fetch decr id with
  | mk answer server =>
    rw [hfetch] at hresult hserver
    simp only at hresult hserver
    subst hresult hserver
    cases result with
    | error e =>
      have hbind := Cmd.bind_of_error (f := rest) hscript
      refine ⟨?_, ?_, ?_⟩
      · simp [hbind, Server.fetchAll, hfetch, Except.map]
      · simp [hbind, Server.fetchAll, hfetch]
      · rwa [hbind]
    | ok value =>
      have hbind := Cmd.bind_of_ok (f := rest) hscript
      obtain ⟨hresult', hserver', hconsistent'⟩ := hrest value t hconsistent
      refine ⟨?_, ?_, ?_⟩
      · rw [hbind, hresult']
        simp only [Server.fetchAll, hfetch]
        cases (t.server.fetchAll decr ids).1 <;> rfl
      · rw [hbind, hserver']
        simp only [Server.fetchAll, hfetch]
      · rwa [hbind]

lemma multiRetrieve_fetches (cachemode : String) (readDecr : ℕ) (type : Option Ty) (ids : List ℕ)
    {s : State} (hs : Consistent s) :
    FetchesAll (multiRetrieve ids cachemode readDecr type) id readDecr ids s := by
  have hloop : ∀ (f : List String → List String) (t : State), Consistent t →
      FetchesAll (f <$> multiRetrieve ids cachemode readDecr type) f readDecr ids t := by
    induction ids with
    | nil =>
      intro f t ht
      exact .nil ht
    | cons id ids ih =>
      intro f t ht
      have hcons : f <$> multiRetrieve (id :: ids) cachemode readDecr type =
          retrieveOne cachemode readDecr type id >>= fun value =>
            (fun values => f (value :: values)) <$> multiRetrieve ids cachemode readDecr type := by
        rw [multiRetrieve, multiRetrieve, List.mapM_cons]
        simp
      rw [hcons]
      exact .cons (retrieveOne_fetches cachemode readDecr type id ht) fun value t' ht' =>
        ih _ t' ht'
  simpa using hloop id s hs

lemma dictAppend_of_notMem {result : OrderedDict String String} {key : String} (val : String)
    (h : key ∉ result.keys) : dictAppend result key val = result.set key val := by
  have hget : result.get? key = none := by
    rw [Option.eq_none_iff_forall_ne_some]
    intro old hold
    exact h (OrderedDict.mem_keys_iff.mpr ⟨old, hold⟩)
  simp [dictAppend, hget]

/-- The keys are distinct, so nothing is ever appended to a value. -/
lemma multiRetrieveKvLoop_fetches (cachemode : String) (readDecr : ℕ) (type : Option Ty)
    (ids : List (String × ℕ)) (result : OrderedDict String String)
    (hnodup : (result.keys ++ ids.map Prod.fst).Nodup) {s : State} (hs : Consistent s) :
    FetchesAll (OrderedDict.entries <$> multiRetrieveKvLoop cachemode readDecr type result ids)
      (fun values => result.entries ++ (ids.map Prod.fst).zip values) readDecr
      (ids.map Prod.snd) s := by
  induction ids generalizing result s with
  | nil => exact ⟨by simp [multiRetrieveKvLoop, Server.fetchAll, Cmd.map_apply, Except.map], rfl, hs⟩
  | cons entry ids ih =>
    obtain ⟨key, id⟩ := entry
    have hnew : key ∉ result.keys := fun hmem =>
      (List.nodup_append.mp hnodup).2.2 _ hmem _ List.mem_cons_self rfl
    have hcons : OrderedDict.entries <$>
          multiRetrieveKvLoop cachemode readDecr type result ((key, id) :: ids) =
        retrieveOne cachemode readDecr type id >>= fun value => OrderedDict.entries <$>
          multiRetrieveKvLoop cachemode readDecr type (result.set key value) ids := by
      simp [multiRetrieveKvLoop, dictAppend_of_notMem _ hnew]
    rw [hcons]
    refine .cons (retrieveOne_fetches cachemode readDecr type id hs) ?_
    intro value t ht
    have hrest := ih (result.set key value) (by
      simpa [OrderedDict.keys_set_of_notMem _ hnew] using hnodup) ht
    simpa [OrderedDict.entries_set_of_notMem _ hnew] using hrest

/-! ### Histories -/

variable (formats : Formats)

lemma retrieveFile_apply (fileHandle : FileHandle) (cachemode : String) (decrref : ℕ) (s : State) :
    retrieveFile formats fileHandle cachemode decrref s =
      ((retrieveTyped .file true fileHandle.file cachemode decrref s).1.bind
        (createLocalFileRef formats fileHandle),
        (retrieveTyped .file true fileHandle.file cachemode decrref s).2) := by
  rw [retrieveFile, Cmd.bind_apply]
  rcases retrieveTyped .file true fileHandle.file cachemode decrref s with ⟨_ | result, t⟩ <;> rfl

lemma multiRetrieveKv_fetches (ids : OrderedDict String ℕ) (cachemode : String) (readDecr : ℕ)
    (type : Option Ty) {s : State} (hs : Consistent s) :
    FetchesAll (OrderedDict.entries <$> multiRetrieveKv ids cachemode readDecr type)
      (fun values => ids.keys.zip values) readDecr ids.values s := by
  have hloop := multiRetrieveKvLoop_fetches cachemode readDecr type ids.entries .empty
    (by simpa [OrderedDict.keys, OrderedDict.empty] using ids.nodup) hs
  exact hloop

lemma multiRetrieveKvDecr_consistent (ids : OrderedDict String ℕ) (decr : ℕ) (cachemode : String)
    (type : Option Ty) {s : State} (hs : Consistent s) :
    Consistent (multiRetrieveKvDecr ids decr cachemode type s).2 := by
  unfold multiRetrieveKvDecr
  rcases ids.entries with _ | ⟨⟨key, id⟩, ids⟩
  · exact hs
  · by_cases hmode : cachemode = "CACHED"
    · cases hcache : s.cache id with
      | none =>
        simpa [multiRetrieveKvDecrLoop, Cmd.bind_apply, cacheCheck_apply, hmode, hcache] using hs
      | some entry =>
        simp only [multiRetrieveKvDecrLoop, Cmd.bind_apply, cacheCheck_apply, hmode, hcache,
          Option.isSome_some, and_self, if_true, cacheRetrieve_apply hcache,
          readRefcountDecr_apply]
        exact hs.of_eq rfl rfl
    · simpa [multiRetrieveKvDecrLoop, Cmd.bind_apply, cacheCheck_apply, hmode] using hs

lemma Call.run_consistent (call : Call) {s : State} (hs : Consistent s) :
    Consistent (call.run formats s).2 := by
  cases call with
  | integer id cachemode decrref | ref id cachemode decrref | struct id cachemode decrref
  | float id cachemode decrref | string id cachemode decrref =>
    rw [Call.run, Cmd.map_apply]
    exact (retrieveTyped_fetches _ _ id cachemode decrref hs).consistent
  | file fileHandle cachemode decrref =>
    rw [Call.run, Cmd.map_apply, retrieveFile_apply]
    exact (retrieveTyped_fetches _ _ fileHandle.file cachemode decrref hs).consistent
  | fileRef id cachemode decrref =>
    rw [Call.run, Cmd.map_apply]
    exact retrieveFileRef_consistent id cachemode decrref hs
  | multi ids cachemode readDecr type =>
    rw [Call.run, Cmd.map_apply]
    exact (multiRetrieve_fetches cachemode readDecr type ids hs).consistent
  | multiKv ids cachemode readDecr type =>
    rw [Call.run, Cmd.map_apply]
    have hfetches := (multiRetrieveKv_fetches ids cachemode readDecr type hs).consistent
    rwa [Cmd.map_apply] at hfetches
  | multiDecr ids decr cachemode type =>
    rw [Call.run, Cmd.map_apply]
    exact hs
  | multiKvDecr ids decr cachemode type =>
    rw [Call.run, Cmd.map_apply]
    exact multiRetrieveKvDecr_consistent ids decr cachemode type hs

lemma adlbStore_consistent (id : ℕ) (type : Ty) (value : String) {s : State} (hs : Consistent s) :
    Consistent (adlbStore formats id type value s).2 := by
  unfold adlbStore
  by_cases haccepts : formats.accepts type value = true
  · cases hvalue : s.server.value id with
    | some old => simpa [haccepts] using hs
    | none =>
      simp only [haccepts, if_true]
      intro id' type' value' hid'
      have hold := hs id' type' value' hid'
      by_cases heq : id' = id
      · subst heq
        rw [hvalue] at hold
        cases hold
      · simpa [heq] using hold
  · simpa [haccepts] using hs

/-- A store that succeeds leaves the same value at the server and in the cache. -/
lemma store_consistent (id : ℕ) (type : Ty) (value : String) {s : State} (hs : Consistent s) :
    Consistent ((do
      adlbStore formats id type value
      cacheStore id type value : Script Unit) s).2 := by
  have hstored := adlbStore_consistent formats id type value hs
  rcases hstore : adlbStore formats id type value s with ⟨e | _, t⟩
  · rw [Cmd.bind_of_error hstore]
    rwa [hstore] at hstored
  · rw [Cmd.bind_of_ok hstore]
    rw [hstore] at hstored
    have hvalue : t.server.value id = some value := by
      unfold adlbStore at hstore
      by_cases haccepts : formats.accepts type value = true
      · cases hold : s.server.value id with
        | some old => simp [haccepts, hold] at hstore
        | none =>
          simp only [haccepts, hold, if_true, Prod.mk.injEq, true_and] at hstore
          rw [← hstore]
          simp
      · simp [haccepts] at hstore
    exact Consistent.fill (s := t) hstored rfl rfl hvalue

lemma act_consistent {s : State} (hs : Consistent s) (action : Action) :
    Consistent (act formats s action) := by
  cases action with
  | storeInteger id value => exact store_consistent formats id _ _ hs
  | storeRef id value => exact store_consistent formats id _ _ hs
  | storeFile id value => exact store_consistent formats id _ _ hs
  | storeFileRef id value => exact store_consistent formats id _ _ hs
  | storeStruct id value => exact adlbStore_consistent formats id _ _ hs
  | storeFloat id value => exact adlbStore_consistent formats id _ _ hs
  | storeString id value => exact adlbStore_consistent formats id _ _ hs
  | retrieve call => exact call.run_consistent formats hs
  | evict id =>
    intro id' type value hid'
    by_cases heq : id' = id
    · simp [act, heq] at hid'
    · exact hs id' type value (by simpa [act, heq] using hid')

theorem after_consistent (readRefs : ℕ → ℤ) (history : List Action) :
    Consistent (after formats readRefs history) := by
  have hfold : ∀ s, Consistent s → Consistent (history.foldl (act formats) s) := by
    induction history with
    | nil => exact fun _ hs => hs
    | cons action history ih => exact fun s hs => ih _ (act_consistent formats hs action)
  exact hfold _ fun id type value hid => by simp [start] at hid

/-! ### Transparency -/

lemma transparent_of_fetches {call : Call} {script : Script String} {decr id : ℕ} {s : State}
    (hrun : call.run formats s = (Result.value <$> script) s)
    (hexpected : call.expected formats s.server =
      ((s.server.fetch decr id).1.map .value, (s.server.fetch decr id).2))
    (h : Fetches script decr id s) : Transparent formats call s := by
  rw [Transparent, hrun, hexpected, Cmd.map_apply]
  exact ⟨congrArg (Except.map Result.value) h.result, h.server⟩

/-- The server's answers name no command. -/
lemma fetchAll_ne_noSuchCommand {α : Type} (f : List String → α) (decr : ℕ) (ids : List ℕ)
    (server : Server) (name : String) :
    (server.fetchAll decr ids).1.map f ≠ .error (.noSuchCommand name) := by
  induction ids generalizing server f with
  | nil => simp [Server.fetchAll, Except.map]
  | cons id ids ih =>
    cases hvalue : server.value id with
    | none => simp [Server.fetchAll, fetch_of_none _ hvalue, Except.map]
    | some value =>
      have hrest := ih (fun values => f (value :: values)) (server.drop id decr)
      simp only [Server.fetchAll, fetch_of_some _ hvalue]
      cases hfetch : ((server.drop id decr).fetchAll decr ids).1 with
      | error e => simpa [hfetch, Except.map] using hrest
      | ok values => simp [Except.map]

lemma multiRetrieveKvDecrLoop_error (decr : ℕ) (cachemode : String)
    (result : OrderedDict String String) (entry : String × ℕ) (ids : List (String × ℕ))
    (s : State) :
    (multiRetrieveKvDecrLoop decr cachemode result (entry :: ids) s).1 =
      .error (.noSuchCommand "else") := by
  obtain ⟨key, id⟩ := entry
  by_cases hmode : cachemode = "CACHED"
  · cases hcache : s.cache id with
    | none => simp [multiRetrieveKvDecrLoop, Cmd.bind_apply, cacheCheck_apply, hmode, hcache]
    | some entry =>
      simp [multiRetrieveKvDecrLoop, Cmd.bind_apply, cacheCheck_apply, hmode, hcache,
        cacheRetrieve_apply hcache, readRefcountDecr_apply]
  · simp [multiRetrieveKvDecrLoop, Cmd.bind_apply, cacheCheck_apply, hmode]

lemma transparent_iff_of_consistent (call : Call) {s : State} (hs : Consistent s) :
    Transparent formats call s ↔ Keeps s call := by
  cases call with
  | integer id cachemode decrref | ref id cachemode decrref | struct id cachemode decrref
  | float id cachemode decrref | string id cachemode decrref =>
    refine iff_of_true ?_ trivial
    exact transparent_of_fetches formats rfl rfl (retrieveTyped_fetches _ _ id cachemode decrref hs)
  | file fileHandle cachemode decrref =>
    have hfetches := retrieveTyped_fetches .file true fileHandle.file cachemode decrref hs
    refine iff_of_true ?_ trivial
    rw [Transparent, Call.run, Cmd.map_apply, retrieveFile_apply, Call.expected, hfetches.result]
    refine ⟨?_, hfetches.server⟩
    cases (s.server.fetch decrref fileHandle.file).1 <;> rfl
  | fileRef id cachemode decrref =>
    rw [Transparent, Call.run, Cmd.map_apply, Call.expected, Keeps,
      ← retrieveFileRef_fetches_iff id cachemode decrref hs]
    refine and_congr_left fun _ => ?_
    cases (retrieveFileRef id cachemode decrref s).1 <;>
      cases (s.server.fetch decrref id).1 <;> simp [Except.map]
  | multi ids cachemode readDecr type =>
    have hfetches := multiRetrieve_fetches cachemode readDecr type ids hs
    refine iff_of_true ?_ trivial
    rw [Transparent, Call.run, Cmd.map_apply, hfetches.result, hfetches.server]
    refine ⟨?_, rfl⟩
    rw [Call.expected]
    cases (s.server.fetchAll readDecr ids).1 <;> rfl
  | multiKv ids cachemode readDecr type =>
    have hfetches := multiRetrieveKv_fetches ids cachemode readDecr type hs
    refine iff_of_true ?_ trivial
    have hresult := hfetches.result
    have hserver := hfetches.server
    rw [Cmd.map_apply] at hresult hserver
    rw [Transparent, Call.run, Cmd.map_apply, Call.expected]
    refine ⟨?_, hserver⟩
    revert hresult
    cases (multiRetrieveKv ids cachemode readDecr type s).1 <;>
      cases (s.server.fetchAll readDecr ids.values).1 <;> simp [Except.map]
  | multiDecr ids decr cachemode type =>
    refine iff_of_false ?_ id
    rintro ⟨hresult, -⟩
    exact fetchAll_ne_noSuchCommand _ _ _ _ _ hresult.symm
  | multiKvDecr ids decr cachemode type =>
    rw [Transparent, Call.run, Cmd.map_apply, Call.expected, Keeps, multiRetrieveKvDecr,
      OrderedDict.keys, OrderedDict.values]
    rcases ids.entries with _ | ⟨entry, ids⟩
    · exact iff_of_true ⟨rfl, rfl⟩ rfl
    · refine iff_of_false ?_ (List.cons_ne_nil _ _)
      rintro ⟨hresult, -⟩
      simp only [multiRetrieveKvDecrLoop_error] at hresult
      exact fetchAll_ne_noSuchCommand _ _ _ _ _ hresult.symm

end Turbine.Data.Retrieve
