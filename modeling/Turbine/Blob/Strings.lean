import Turbine.Adlb.Packing

/-! Strings as blobs: a blob value is a list with a pointer and a length, and the blob of a string
holds its bytes and a terminator. -/

namespace Turbine.Blob

open Tcl Adlb

/-- The allocated blocks under the pointers to them, as Tcl values hold these. -/
abbrev Heap := Int64 → Option Bytes

/-- What the servers hold for an id. -/
abbrev DataStore := ℤ → Option Bytes

/-- `malloc` always finds room, and `ADLB_Store` decides which data it takes. -/
structure BlobEnv (Obj D : Type) where
  tcl : TclApi Obj D
  adlb : DataLib D
  malloc : Heap → ℕ → Int64
  accepts : ℤ → Bytes → Bool

/-- The bytes of a packed blob are those of the blob. -/
structure PacksBlobs {D : Type} (adlb : DataLib D) : Prop where
  pack_blob : ∀ b, adlb.pack (.blob b) .blob = some b
  unpackBlob_eq : ∀ b, adlb.unpackBlob b = some b

def intMax : ℕ := 2147483647

variable {Obj D : Type} (env : BlobEnv Obj D)

def buildTclBlob (data : Int64) (length : ℕ) (handle : Option Obj) : Obj :=
  env.tcl.newList
    ([env.tcl.newWideInt data, env.tcl.newWideInt (Int64.ofNat length)] ++ handle.toList)

/-- The pointer and the length, the latter as a `size_t`. -/
def extractPtrLength (ptr length : Obj) : TclResult (Int64 × ℕ) := do
  let p ← TclResult.require (env.tcl.getWideInt ptr)
    ("Error extracting pointer from " ++ showBytes (env.tcl.getString ptr))
  let n ← TclResult.require (env.tcl.getWideInt length)
    ("Error extracting blob length from " ++ showBytes (env.tcl.getString length))
  .ok (p, n.toBitVec.toNat)

def extractTclBlob (obj : Obj) : TclResult (Int64 × ℕ) :=
  match env.tcl.getList obj with
  | some [ptr, length] | some [ptr, length, _] => extractPtrLength env ptr length
  | _ => .error ["Error interpreting " ++ showBytes (env.tcl.getString obj) ++ " as blob list"]

/-- `malloc` and `memcpy`. -/
def allocate (heap : Heap) (data : Bytes) : Heap × Int64 :=
  let p := env.malloc heap data.length
  (Function.update heap p (some data), p)

/-- `length + 1` is an `int`. -/
def adlbBlobFromStringCmd (heap : Heap) (obj : Obj) : TclResult (Heap × Obj) :=
  let data := env.tcl.getString obj
  if data.length + 1 ≤ intMax then
    let (heap, blob) := allocate env heap (data ++ [0])
    .ok (heap, buildTclBlob env blob (data.length + 1) none)
  else .undefined

/-- The index `length - 1`: one before the block when the length is zero. -/
def lastIndex (length : ℕ) : ℤ := (BitVec.ofNat 64 length - 1).toInt

def readAt (block : Bytes) (i : ℤ) : Option UInt8 := if 0 ≤ i then block[i.toNat]? else none

/-- The indexes that are read, and the string; a read outside of the block is undefined. -/
def adlbBlobToStringCmd (heap : Heap) (obj : Obj) : List ℤ × TclResult Obj :=
  match extractTclBlob env obj with
  | .error info => ([], .error info)
  | .abort assertion => ([], .abort assertion)
  | .undefined => ([], .undefined)
  | .ok (p, length) =>
    if length < intMax then
      let block := (heap p).getD []
      match readAt block (lastIndex length) with
      | none => ([lastIndex length], .undefined)
      | some last =>
        if last = 0 then
          (lastIndex length :: (List.range (intPred length).toNat).map (fun i : ℕ => (i : ℤ)),
            newStringObj env.tcl block (intPred length))
        else ([lastIndex length], .error ["blob must be null terminated"])
    else ([], .error ["blob size must be smaller than INT_MAX"])

/-- `adlb::store <id> blob <value>` -/
def storeBlob (heap : Heap) (data : DataStore) (id : ℤ) (obj : Obj) : TclResult DataStore := do
  let (p, length) ← extractTclBlob env obj
  match heap p with
  | none => .undefined
  | some block =>
    if length ≤ block.length then
      let packed ← TclResult.require (env.adlb.pack (.blob (block.take length)) .blob)
        "Error packing data"
      TclResult.condition (env.accepts id packed) "adlb::store failed!"
      .ok (Function.update data id (some packed))
    else .undefined

/-- `adlb::retrieve <id>`, for a datum that is a blob. -/
def retrieve (heap : Heap) (data : DataStore) (id : ℤ) : TclResult (Heap × Obj) := do
  let packed ← TclResult.require (data id) "adlb::retrieve failed!"
  TclResult.assert (packed.length ≤ env.adlb.dataMax) "length <= ADLB_DATA_MAX"
  let blob ← TclResult.require (env.adlb.unpackBlob packed)
    "Retrieve failed due to error unpacking data"
  let (heap, p) := allocate env heap blob
  .ok (heap, buildTclBlob env p blob.length none)

/-- `adlb::retrieve_blob <handle>` -/
def retrieveBlob (heap : Heap) (data : DataStore) (id : ℤ) (handle : Obj) :
    TclResult (Heap × Obj) := do
  let blob ← TclResult.require (data id) "adlb::retrieve failed!"
  let (heap, p) := allocate env heap blob
  .ok (heap, buildTclBlob env p blob.length (some handle))

/-- One of the two commands returns this value. -/
def Retrieves (heap : Heap) (data : DataStore) (id : ℤ) (heap' : Heap) (v : Obj) : Prop :=
  retrieve env heap data id = .ok (heap', v) ∨
    ∃ handle, retrieveBlob env heap data id handle = .ok (heap', v)

/-- A value whose length is that of the bytes behind its pointer. -/
def IsBlob (heap : Heap) (obj : Obj) (bytes : Bytes) : Prop :=
  ∃ p block, extractTclBlob env obj = .ok (p, bytes.length) ∧ heap p = some block ∧
    bytes <+: block

/-- Read back at once, and when it was stored and retrieved, whatever was done to the memory in
between. -/
structure StringSurvives (obj : Obj) : Prop where
  direct : ∀ heap, ∃ heap' v reads o, adlbBlobFromStringCmd env heap obj = .ok (heap', v) ∧
    adlbBlobToStringCmd env heap' v = (reads, .ok o) ∧
    env.tcl.getString o = env.tcl.getString obj
  stored : ∀ heap data id heap' v data', adlbBlobFromStringCmd env heap obj = .ok (heap', v) →
    storeBlob env heap' data id v = .ok data' →
    ∀ heap₁ heap₂ v', Retrieves env heap₁ data' id heap₂ v' →
      ∃ reads o, adlbBlobToStringCmd env heap₂ v' = (reads, .ok o) ∧
        env.tcl.getString o = env.tcl.getString obj

/-- What is read of a blob, which blobs are refused, and the way back of those that are not. -/
structure BlobReads (heap : Heap) (obj : Obj) (bytes : Bytes) : Prop where
  inBounds : ∀ i ∈ (adlbBlobToStringCmd env heap obj).1, 0 ≤ i ∧ i < bytes.length
  terminated : bytes.getLast? ≠ some 0 → ∃ info, (adlbBlobToStringCmd env heap obj).2 = .error info
  back : ∀ o, (adlbBlobToStringCmd env heap obj).2 = .ok o → ∀ heap₁, ∃ heap₂ v,
    adlbBlobFromStringCmd env heap₁ o = .ok (heap₂, v) ∧ IsBlob env heap₂ v bytes

variable {env}

lemma extractPtrLength_new (hT : env.tcl.Lawful) (p : Int64) {length : ℕ} (h : length < 2 ^ 64) :
    extractPtrLength env (env.tcl.newWideInt p) (env.tcl.newWideInt (Int64.ofNat length)) =
      .ok (p, length) := by
  have hlength : (Int64.ofNat length).toBitVec.toNat = length := by
    change (BitVec.ofNat 64 length).toNat = length
    rw [BitVec.toNat_ofNat, Nat.mod_eq_of_lt h]
  rw [extractPtrLength, hT.getWideInt_newWideInt, hT.getWideInt_newWideInt]
  simp only [TclResult.require_some, TclResult.ok_bind, hlength]

lemma extractTclBlob_build (hT : env.tcl.Lawful) (p : Int64) {length : ℕ} (h : length < 2 ^ 64)
    (handle : Option Obj) :
    extractTclBlob env (buildTclBlob env p length handle) = .ok (p, length) := by
  have hp := extractPtrLength_new hT p h
  cases handle with
  | none =>
    rw [buildTclBlob, extractTclBlob, hT.getList_newList _ (by simp)]
    exact hp
  | some handle =>
    rw [buildTclBlob, extractTclBlob, hT.getList_newList _ (by simp)]
    exact hp

lemma lastIndex_succ {n : ℕ} (h : n < intMax) : lastIndex (n + 1) = n := by
  have hn : n < 2 ^ 31 := by
    rw [intMax] at h
    omega
  have hpred : BitVec.ofNat 64 (n + 1) - 1 = BitVec.ofNat 64 n := by
    rw [BitVec.ofNat_add]
    exact BitVec.add_sub_cancel _ _
  rw [lastIndex, hpred, BitVec.toInt_eq_toNat_bmod, BitVec.toNat_ofNat,
    Nat.mod_eq_of_lt (by omega)]
  refine Int.bmod_eq_of_le ?_ ?_ <;> omega

lemma isBlob_allocate (hT : env.tcl.Lawful) (heap : Heap) {bytes : Bytes}
    (h : bytes.length < 2 ^ 64) (handle : Option Obj) :
    IsBlob env (allocate env heap bytes).1
      (buildTclBlob env (allocate env heap bytes).2 bytes.length handle) bytes :=
  ⟨_, bytes, extractTclBlob_build hT _ h handle, Function.update_self .., List.prefix_rfl⟩

/-- The last byte is read first, and then the others are copied. -/
lemma blobToString_append {heap : Heap} {obj : Obj} {s : Bytes} {c : UInt8}
    (h : IsBlob env heap obj (s ++ [c])) (hlt : s.length + 1 < intMax) :
    adlbBlobToStringCmd env heap obj =
      if c = 0 then
        ((s.length : ℤ) :: (List.range s.length).map (fun i : ℕ => (i : ℤ)),
          .ok (env.tcl.newString s))
      else ([(s.length : ℤ)], .error ["blob must be null terminated"]) := by
  obtain ⟨p, block, hextract, hheap, rest, rfl⟩ := h
  rw [List.length_append, List.length_singleton] at hextract
  have hpred : intPred (s.length + 1) = s.length := by
    refine intPred_succ ?_
    rw [intMax] at hlt
    omega
  have hread : readAt (s ++ [c] ++ rest) s.length = some c := by
    simp [readAt]
  have hstring : newStringObj env.tcl (s ++ [c] ++ rest) s.length = .ok (env.tcl.newString s) := by
    have hle : s.length ≤ (s ++ [c] ++ rest).length := by simp
    rw [newStringObj, if_neg (by omega), Int.toNat_natCast, if_pos hle]
    simp
  rw [adlbBlobToStringCmd, hextract]
  dsimp only
  rw [if_pos hlt, lastIndex_succ (by omega), hheap, Option.getD_some, hread, hpred, hstring,
    Int.toNat_natCast]

lemma blobToString_long {heap : Heap} {obj : Obj} {bytes : Bytes} (h : IsBlob env heap obj bytes)
    (hle : intMax ≤ bytes.length) :
    adlbBlobToStringCmd env heap obj = ([], .error ["blob size must be smaller than INT_MAX"]) := by
  obtain ⟨p, block, hextract, -, -⟩ := h
  rw [adlbBlobToStringCmd, hextract]
  dsimp only
  rw [if_neg hle.not_gt]

lemma blobToString_empty {heap : Heap} {obj : Obj} (h : IsBlob env heap obj []) :
    adlbBlobToStringCmd env heap obj = ([-1], .undefined) := by
  obtain ⟨p, block, hextract, -, -⟩ := h
  have hlast : lastIndex ([] : Bytes).length = -1 := by decide
  have hread : readAt ((heap p).getD []) (-1) = none := by simp [readAt]
  rw [adlbBlobToStringCmd, hextract]
  dsimp only
  rw [hlast, hread, if_pos (by decide)]

lemma blobFromString_of_le {obj : Obj} (h : (env.tcl.getString obj).length + 1 ≤ intMax)
    (heap : Heap) :
    adlbBlobFromStringCmd env heap obj = .ok
      ((allocate env heap (env.tcl.getString obj ++ [0])).1,
        buildTclBlob env (allocate env heap (env.tcl.getString obj ++ [0])).2
          (env.tcl.getString obj ++ [0]).length none) := by
  rw [adlbBlobFromStringCmd, if_pos h, List.length_append, List.length_singleton]

/-- The blob of a string ends in its terminator, and the string is what comes before it. -/
lemma blobToString_of_string (hT : env.tcl.Lawful) {heap : Heap} {v : Obj} {s : Bytes}
    (h : IsBlob env heap v (s ++ [0])) (hlt : s.length + 1 < intMax) :
    ∃ reads o, adlbBlobToStringCmd env heap v = (reads, .ok o) ∧ env.tcl.getString o = s := by
  rw [blobToString_append h hlt, if_pos rfl]
  exact ⟨_, _, rfl, hT.getString_newString s⟩

lemma storeBlob_eq_ok (hP : PacksBlobs env.adlb) {heap : Heap} {data data' : DataStore} {id : ℤ}
    {v : Obj} {bytes : Bytes} (h : IsBlob env heap v bytes)
    (hstore : storeBlob env heap data id v = .ok data') : data' id = some bytes := by
  obtain ⟨p, block, hextract, hheap, rest, rfl⟩ := h
  have hle : bytes.length ≤ (bytes ++ rest).length := by simp
  rw [storeBlob, hextract, TclResult.ok_bind] at hstore
  dsimp only at hstore
  rw [hheap] at hstore
  dsimp only at hstore
  rw [if_pos hle, hP.pack_blob, List.take_left', TclResult.require_some, TclResult.ok_bind,
    TclResult.bind_eq_ok] at hstore
  · obtain ⟨-, -, hdata⟩ := hstore
    rw [← TclResult.ok.inj hdata, Function.update_self]
  · rfl

/-- Both commands copy what is stored into a new block. -/
lemma retrieves_isBlob (hT : env.tcl.Lawful) (hP : PacksBlobs env.adlb) {heap heap' : Heap}
    {data : DataStore} {id : ℤ} {v : Obj} {bytes : Bytes} (hdata : data id = some bytes)
    (hlt : bytes.length < 2 ^ 64) (h : Retrieves env heap data id heap' v) :
    IsBlob env heap' v bytes := by
  rcases h with h | ⟨handle, h⟩
  · rw [retrieve, hdata, TclResult.require_some, TclResult.ok_bind, TclResult.bind_eq_ok] at h
    obtain ⟨-, -, h⟩ := h
    rw [hP.unpackBlob_eq, TclResult.require_some, TclResult.ok_bind] at h
    obtain ⟨rfl, rfl⟩ := Prod.mk.inj (TclResult.ok.inj h)
    exact isBlob_allocate hT heap hlt none
  · rw [retrieveBlob, hdata, TclResult.require_some, TclResult.ok_bind] at h
    obtain ⟨rfl, rfl⟩ := Prod.mk.inj (TclResult.ok.inj h)
    exact isBlob_allocate hT heap hlt (some handle)

lemma stringSurvives_iff (hT : env.tcl.Lawful) (hP : PacksBlobs env.adlb) (obj : Obj) :
    StringSurvives env obj ↔ (env.tcl.getString obj).length + 1 < intMax := by
  constructor
  · intro h
    by_contra hle
    obtain ⟨heap', v, reads, o, hfrom, hto, -⟩ := h.direct fun _ => none
    by_cases hmax : (env.tcl.getString obj).length + 1 ≤ intMax
    · rw [blobFromString_of_le hmax] at hfrom
      obtain ⟨rfl, rfl⟩ := Prod.mk.inj (TclResult.ok.inj hfrom)
      have hlen : (env.tcl.getString obj ++ [0]).length = intMax := by
        rw [List.length_append, List.length_singleton]
        omega
      have hblob := @isBlob_allocate _ _ env hT (fun _ => none) (env.tcl.getString obj ++ [0])
        (by rw [hlen, intMax]; omega) none
      rw [blobToString_long hblob hlen.ge] at hto
      cases hto
    · rw [adlbBlobFromStringCmd, if_neg hmax] at hfrom
      cases hfrom
  · intro hlt
    have hlen : (env.tcl.getString obj ++ [0]).length < 2 ^ 64 := by
      rw [List.length_append, List.length_singleton]
      rw [intMax] at hlt
      omega
    have hblob (heap : Heap) := isBlob_allocate hT heap hlen none
    constructor
    · intro heap
      obtain ⟨reads, o, hto, ho⟩ := blobToString_of_string hT (hblob heap) hlt
      exact ⟨_, _, reads, o, blobFromString_of_le hlt.le heap, hto, ho⟩
    · intro heap data id heap' v data' hfrom hstore heap₁ heap₂ v' hretrieve
      rw [blobFromString_of_le hlt.le] at hfrom
      obtain ⟨rfl, rfl⟩ := Prod.mk.inj (TclResult.ok.inj hfrom)
      have hdata := storeBlob_eq_ok hP (hblob heap) hstore
      exact blobToString_of_string hT (retrieves_isBlob hT hP hdata hlen hretrieve) hlt

lemma blobReads_iff (hT : env.tcl.Lawful) {heap : Heap} {obj : Obj} {bytes : Bytes}
    (h : IsBlob env heap obj bytes) : BlobReads env heap obj bytes ↔ bytes ≠ [] := by
  constructor
  · rintro hreads rfl
    have hmem : (-1 : ℤ) ∈ (adlbBlobToStringCmd env heap obj).1 := by
      rw [blobToString_empty h]
      exact List.mem_singleton_self _
    exact absurd (hreads.inBounds _ hmem).1 (by decide)
  · intro hne
    by_cases hlt : bytes.length < intMax
    · obtain ⟨s, c, rfl⟩ : ∃ s c, bytes = s ++ [c] :=
        ⟨_, _, (List.dropLast_append_getLast hne).symm⟩
      rw [List.length_append, List.length_singleton] at hlt
      have hcmd := blobToString_append h hlt
      constructor
      · have hbound : ∀ i ∈ (s.length : ℤ) :: (List.range s.length).map (fun i : ℕ => (i : ℤ)),
            0 ≤ i ∧ i < (s ++ [c]).length := by
          intro i hi
          rw [List.length_append, List.length_singleton]
          rcases List.mem_cons.mp hi with rfl | hi
          · omega
          · obtain ⟨j, hj, rfl⟩ := List.mem_map.mp hi
            rw [List.mem_range] at hj
            omega
        intro i hi
        refine hbound i ?_
        rw [hcmd] at hi
        split at hi
        · exact hi
        · exact List.mem_cons.mpr (Or.inl (List.mem_singleton.mp hi))
      · intro hlast
        have hc : c ≠ 0 := by
          rintro rfl
          exact hlast (by simp)
        rw [hcmd, if_neg hc]
        exact ⟨_, rfl⟩
      · intro o ho heap₁
        rw [hcmd] at ho
        split at ho
        case isTrue hc =>
          subst hc
          obtain rfl := TclResult.ok.inj ho
          have hstring := hT.getString_newString s
          have hfrom := @blobFromString_of_le _ _ env (env.tcl.newString s)
            (by rw [hstring]; exact hlt.le) heap₁
          rw [hstring] at hfrom
          have hlen : (s ++ [0]).length < 2 ^ 64 := by
            rw [List.length_append, List.length_singleton]
            rw [intMax] at hlt
            omega
          exact ⟨_, _, hfrom, isBlob_allocate hT heap₁ hlen none⟩
        case isFalse => cases ho
    · have hcmd := blobToString_long h (not_lt.mp hlt)
      constructor
      · intro i hi
        rw [hcmd] at hi
        cases hi
      · intro _
        rw [hcmd]
        exact ⟨_, rfl⟩
      · intro o ho
        rw [hcmd] at ho
        cases ho

theorem strings_survive_iff (hT : env.tcl.Lawful) (hP : PacksBlobs env.adlb) :
    (∀ obj, StringSurvives env obj ↔ (env.tcl.getString obj).length + 1 < intMax) ∧
      ∀ heap obj bytes, IsBlob env heap obj bytes →
        (BlobReads env heap obj bytes ↔ bytes ≠ []) :=
  ⟨stringSurvives_iff hT hP, fun _ _ _ h => blobReads_iff hT h⟩

def valueEnv : BlobEnv Value UInt64 where
  tcl := values
  adlb := packing
  malloc _ _ := Int64.ofNat 4096
  accepts _ _ := true

lemma packing_packsBlobs : PacksBlobs packing := ⟨fun _ => rfl, fun _ => rfl⟩

theorem strings_survive_iff_word :
    StringSurvives valueEnv (.str [104, 105]) ∧
      ∃ heap v, IsBlob valueEnv heap v [104, 0] ∧ BlobReads valueEnv heap v [104, 0] := by
  obtain ⟨hstrings, hblobs⟩ := @strings_survive_iff _ _ valueEnv values_lawful packing_packsBlobs
  have hblob : IsBlob valueEnv _ _ [104, 0] :=
    isBlob_allocate values_lawful (fun _ => none) (by decide) none
  exact ⟨(hstrings _).mpr (by decide), _, _, hblob, (hblobs _ _ _ hblob).mpr (by simp)⟩

/-- The value of an empty block. -/
theorem not_strings_survive :
    ¬ ∀ heap v bytes, IsBlob valueEnv heap v bytes → BlobReads valueEnv heap v bytes := by
  intro h
  have hblob : IsBlob valueEnv _ _ [] :=
    isBlob_allocate values_lawful (fun _ => none) (by decide) none
  exact (blobReads_iff values_lawful hblob).mp (h _ _ _ hblob) rfl

end Turbine.Blob
