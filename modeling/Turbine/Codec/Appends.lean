import Turbine.Codec.Layout
import Turbine.Library.Writer

/-! The encoder appends the layout of a value and nothing else, at every position of a type list
where the types of the value stand. -/

namespace Turbine.Codec

open Tcl Adlb Library TclResult

variable {Obj D : Type} {E : Env Obj D}

section Encoding

variable (E) (canonicalize : Bool)

lemma encoding_container (k : DataType) (v : CompoundTy) (o : Obj) :
    encoding E canonicalize (.container k v) o = (E.tcl.getDict o).bind fun d =>
      ((dictOrder E canonicalize d).mapM fun e => (encoding E canonicalize v e.2).map
        (entryBytes E.adlb k v.head.1 (E.tcl.getString e.1))).map fun pieces =>
          E.adlb.containerHdr (dictOrder E canonicalize d).length k v.head.1 ++ pieces.flatten := by
  unfold encoding
  cases hd : E.tcl.getDict o with
  | none =>
    have hr : reading E canonicalize (.container k v) o = none := by rw [reading, hd]; rfl
    rw [hr]
    rfl
  | some d =>
    simp only [reading, hd, Option.bind_eq_bind, Option.bind_some]
    refine (mapM_bind_mapM_length _ _ (fun n pieces => E.adlb.containerHdr n k v.head.1 ++ pieces.flatten)
      (dictOrder E canonicalize d)).trans ?_
    congr 2
    funext e
    cases reading E canonicalize v e.2 with
    | none => rfl
    | some r =>
      simp only [Option.bind_some]
      cases layout E.adlb v r <;> rfl

lemma encoding_multiset (v : CompoundTy) (o : Obj) :
    encoding E canonicalize (.multiset v) o = (E.tcl.getList o).bind fun l =>
      ((listOrder E canonicalize l).mapM fun e => (encoding E canonicalize v e).map
        (withLen E.adlb v.head.1)).map fun pieces =>
          E.adlb.multisetHdr (listOrder E canonicalize l).length v.head.1 ++ pieces.flatten := by
  unfold encoding
  cases hl : E.tcl.getList o with
  | none =>
    have hr : reading E canonicalize (.multiset v) o = none := by rw [reading, hl]; rfl
    rw [hr]
    rfl
  | some l =>
    simp only [reading, hl, Option.bind_eq_bind, Option.bind_some]
    refine (mapM_bind_mapM_length _ _ (fun n pieces => E.adlb.multisetHdr n v.head.1 ++ pieces.flatten)
      (listOrder E canonicalize l)).trans ?_
    congr 2
    funext e
    cases reading E canonicalize v e with
    | none => rfl
    | some r =>
      simp only [Option.bind_some]
      cases layout E.adlb v r <;> rfl

end Encoding

section Entries

variable {canonicalize : Bool}

lemma appendBytes_writes (piece : Bytes) :
    Writes (2 ^ 64) (fun out => DataLib.appendBytes out piece) (some piece) := by
  intro out _ out'
  rw [appendBytes_eq_some]
  constructor
  · rintro ⟨rfl, hlt⟩
    exact ⟨piece, rfl, rfl, by simpa using hlt⟩
  · rintro ⟨b, ⟨⟩, rfl, hlt⟩
    exact ⟨rfl, by simpa using hlt⟩

lemma writes_after_header {w : Bytes → Option Bytes}
    {pieces : Option (List Bytes)} (h : Writes (2 ^ 64) w (pieces.map List.flatten))
    (header : Bytes) :
    Writes (2 ^ 64) (fun out => (DataLib.appendBytes out header).bind w)
      (pieces.map fun pieces => header ++ pieces.flatten) := by
  have hseq := (appendBytes_writes header).seq h
  cases pieces <;> exact hseq

lemma length_dictOrder (d : List (Obj × Obj)) :
    (dictOrder E canonicalize d).length = d.length := by
  unfold dictOrder
  split
  · rw [List.length_filterMap_eq_countP, List.countP_eq_length.mpr]
    · rw [(E.tcl.lsort_perm _).length_eq, List.length_map]
    · intro key hkey
      rw [Option.isSome_map]
      exact E.tcl.dictGet_isSome ((E.tcl.lsort_perm _).mem_iff.mp hkey)
  · rfl

variable (canonicalize) in
lemma length_listOrder (l : List Obj) : (listOrder E canonicalize l).length = l.length := by
  unfold listOrder
  split
  · exact (E.tcl.lsort_perm l).length_eq
  · rfl

lemma foldlM_lookup {d : List (Obj × Obj)} (step : Obj → Obj → Bytes → TclResult Bytes)
    (keys : List Obj) (h : ∀ key ∈ keys, (E.tcl.dictGet d key).isSome) (out : Bytes) :
    keys.foldlM (fun out key => match E.tcl.dictGet d key with
      | some val => step key val out
      | none => .undefined) out =
    (keys.filterMap fun key => (E.tcl.dictGet d key).map fun v => (key, v)).foldlM
      (fun out e => step e.1 e.2 out) out := by
  induction keys generalizing out with
  | nil => rfl
  | cons key keys ih =>
    obtain ⟨val, hval⟩ := Option.isSome_iff_exists.mp (h key (List.mem_cons_self ..))
    have hrest := ih fun key' hkey' => h key' (List.mem_cons_of_mem _ hkey')
    simp [hval, hrest]

lemma tclAppendKeyVal_writes {append : Append Obj} {pos : ℕ} {k t : DataType} (key : Obj) {val : Obj}
    {b : Option Bytes}
    (h : Writes (2 ^ 64) (fun out => (append pos val true out).okValue)
      (b.map (withLen E.adlb t))) :
    Writes (2 ^ 64) (fun out => (tclAppendKeyVal E append (pos + 1) k key val out).okValue)
      (b.map (entryBytes E.adlb k t (E.tcl.getString key))) := by
  have hkey := appendBytes_writes (withLen E.adlb k (E.tcl.getString key ++ [0]))
  have hseq : Writes (2 ^ 64)
      (fun out => (tclAppendKeyVal E append (pos + 1) k key val out).okValue) _ :=
    (hkey.seq h).congr (by
      intro out _
      simp [tclAppendKeyVal, DataLib.appendBuffer, withLen])
  cases b with
  | none => exact hseq
  | some b => exact hseq

lemma tclDictToPackedContainer_writes {append : Append Obj} {types : CompoundType} {pos : ℕ}
    {k : DataType} {v : CompoundTy} (hat : types.At pos (.container k v)) (dict : Obj)
    (h : ∀ o, Writes (2 ^ 64) (fun out => (append (pos + 2) o true out).okValue)
      ((encoding E canonicalize v o).map (withLen E.adlb v.head.1))) :
    Writes (2 ^ 64)
      (fun out => (tclDictToPackedContainer E append types (pos + 1) dict canonicalize out).okValue)
      (encoding E canonicalize (.container k v) dict) := by
  rw [encoding_container]
  have hentries (d : List (Obj × Obj)) := Writes.foldlM (dictOrder E canonicalize d)
    fun e _ => tclAppendKeyVal_writes (k := k) e.1 (h e.2)
  refine (Writes.bind _ fun d _ => writes_after_header (hentries d) _).congr ?_
  intro out _
  obtain ⟨_, hkey⟩ := compoundTypeNext_type hat.2.1
  obtain ⟨_, hval⟩ := compoundTypeNext_type hat.2.2.head_type
  simp only [tclDictToPackedContainer, hkey, hval, okValue_bind, okValue_check,
    okValue_require, okValue_ok, Option.bind_some, DataLib.packContainerHdr, length_dictOrder]
  congr 1
  funext d
  congr 1
  funext out
  cases canonicalize with
  | false => simp [okValue_foldlM, dictOrder]
  | true =>
    have hlookup := foldlM_lookup (E := E) (d := d) (fun key val out =>
      (tclAppendKeyVal E append (pos + 3) k key val out).addInfo "Error appending key/val")
      (E.tcl.lsort (d.map Prod.fst))
      (fun key hkey => E.tcl.dictGet_isSome ((E.tcl.lsort_perm _).mem_iff.mp hkey)) out
    refine (congrArg okValue hlookup).trans ?_
    simp [okValue_foldlM, dictOrder]

lemma tclListToPackedMultiset_writes {append : Append Obj} {types : CompoundType} {pos : ℕ}
    {v : CompoundTy} (hat : types.At pos (.multiset v)) (list : Obj)
    (h : ∀ o, Writes (2 ^ 64) (fun out => (append (pos + 1) o true out).okValue)
      ((encoding E canonicalize v o).map (withLen E.adlb v.head.1))) :
    Writes (2 ^ 64)
      (fun out => (tclListToPackedMultiset E append types (pos + 1) list canonicalize out).okValue)
      (encoding E canonicalize (.multiset v) list) := by
  rw [encoding_multiset]
  have helems (l : List Obj) := Writes.foldlM (listOrder E canonicalize l) fun e _ => h e
  refine (Writes.bind _ fun l _ => writes_after_header (helems l) _).congr ?_
  intro out _
  obtain ⟨_, helem⟩ := compoundTypeNext_type hat.2.head_type
  simp only [tclListToPackedMultiset, helem, okValue_bind, okValue_check,
    okValue_require, okValue_ok, Option.bind_some, DataLib.packMultisetHdr, length_listOrder]
  congr 1
  funext l
  rw [← length_listOrder (E := E) canonicalize l]
  simp [okValue_foldlM, listOrder]

end Entries

section Append

variable {canonicalize : Bool}

def prefixed (adlb : DataLib D) (prefixLen : Bool) (type : DataType) (b : Bytes) : Bytes :=
  if prefixLen then withLen adlb type b else b

lemma overwrite_room (hE : E.adlb.Lawful) {type : DataType} (hpad : E.adlb.packPadSize type = true)
    (out b : Bytes) (hb : b.length < 2 ^ 64) :
    overwrite (out ++ List.replicate E.adlb.vintMaxBytes 0 ++ b) out.length
      (E.adlb.vintEncode b.length) = out ++ withLen E.adlb type b := by
  have hle := hE.vintEncode_le b.length hb
  have hdrop : (out ++ List.replicate E.adlb.vintMaxBytes 0 ++ b).drop
      (out.length + (E.adlb.vintEncode b.length).length) =
        List.replicate (E.adlb.vintMaxBytes - (E.adlb.vintEncode b.length).length) 0 ++ b := by
    rw [List.append_assoc, List.drop_append, List.drop_eq_nil_of_le (by omega), List.nil_append,
      Nat.add_sub_cancel_left, List.drop_append_of_le_length (by simpa using hle),
      List.drop_replicate]
  rw [overwrite, hdrop, List.append_assoc out, List.take_left]
  simp [withLen, DataLib.lenPrefix, hpad]

lemma length_withLen (hE : E.adlb.Lawful) {type : DataType}
    (hpad : E.adlb.packPadSize type = true) {b : Bytes} (hb : b.length < 2 ^ 64) :
    (withLen E.adlb type b).length = E.adlb.vintMaxBytes + b.length := by
  have hle := hE.vintEncode_le b.length hb
  simp only [withLen, DataLib.lenPrefix, hpad, if_true, List.length_append, List.length_replicate]
  omega

lemma writes_backpatched (hE : E.adlb.Lawful) {type : DataType}
    (hpad : E.adlb.packPadSize type = true) {w : Bytes → Option Bytes} {piece : Option Bytes}
    (h : Writes (2 ^ 64) w piece) :
    Writes (2 ^ 64) (fun out =>
      (DataLib.appendBytes out (List.replicate E.adlb.vintMaxBytes 0)).bind fun room =>
        (w room).map fun res => overwrite res out.length
          (E.adlb.vintEncode (res.length - out.length - E.adlb.vintMaxBytes)))
      (piece.map (withLen E.adlb type)) := by
  intro out _ out'
  simp only [Option.bind_eq_some_iff, Option.map_eq_some_iff, appendBytes_eq_some]
  have hlen (b : Bytes) : (out ++ List.replicate E.adlb.vintMaxBytes 0 ++ b).length -
      out.length - E.adlb.vintMaxBytes = b.length := by
    simp only [List.length_append, List.length_replicate]
    omega
  constructor
  · rintro ⟨_, ⟨rfl, hroom⟩, res, hres, rfl⟩
    obtain ⟨b, hb, rfl, hlt⟩ := (h _ (by simpa using hroom) res).mp hres
    simp only [List.length_append, List.length_replicate] at hlt
    have hb' : b.length < 2 ^ 64 := by omega
    refine ⟨withLen E.adlb type b, ⟨b, hb, rfl⟩, ?_, ?_⟩
    · rw [hlen, overwrite_room hE hpad out b hb']
    · rw [hlen, overwrite_room hE hpad out b hb', List.length_append, length_withLen hE hpad hb']
      omega
  · rintro ⟨_, ⟨b, hb, rfl⟩, rfl, hlt⟩
    have hb' : b.length < 2 ^ 64 := by
      simp only [withLen, List.length_append] at hlt
      omega
    rw [List.length_append, length_withLen hE hpad hb'] at hlt
    have hroom : (out ++ List.replicate E.adlb.vintMaxBytes (0 : UInt8)).length < 2 ^ 64 := by
      simp only [List.length_append, List.length_replicate]
      omega
    refine ⟨_, ⟨rfl, by simpa using hroom⟩, out ++ List.replicate E.adlb.vintMaxBytes 0 ++ b,
      (h _ hroom _).mpr ⟨b, hb, rfl, ?_⟩, ?_⟩
    · simp only [List.length_append, List.length_replicate]
      omega
    · rw [hlen, overwrite_room hE hpad out b hb']

lemma writes_nested (hE : E.adlb.Lawful) {type : DataType} (hpad : E.adlb.packPadSize type = true)
    {w : Bytes → TclResult Bytes} {piece : Option Bytes}
    (h : Writes (2 ^ 64) (fun out => (w out).okValue) piece) (prefixLen : Bool) :
    Writes (2 ^ 64) (fun out => okValue (do
      let startPos := out.length
      let out ← if prefixLen then
          TclResult.require
            (DataLib.appendBytes out (List.replicate E.adlb.vintMaxBytes 0)) "Error resizing"
        else .ok out
      let out ← w out
      if prefixLen then
        let packedLen := out.length - startPos - E.adlb.vintMaxBytes
        .ok (overwrite out startPos (E.adlb.vintEncode packedLen))
      else .ok out)) (piece.map (prefixed E.adlb prefixLen type)) := by
  cases prefixLen with
  | false =>
    have hpiece : piece.map (prefixed E.adlb false type) = piece := by cases piece <;> rfl
    rw [hpiece]
    refine h.congr ?_
    intro out _
    simp
  | true =>
    refine (writes_backpatched hE hpad h).congr ?_
    intro out _
    simp only [if_true, okValue_bind, okValue_require, okValue_ok, Option.map_eq_bind,
      Function.comp_def]

/-- What the encoder of a type list calls for the values nested in one at `ctypePos`. -/
abbrev nestedAppend (E : Env Obj D) (types : CompoundType) (ctypePos : ℕ) (canonicalize : Bool) :
    Append Obj := fun pos o prefixLen out =>
  if ctypePos < pos ∧ ctypePos < types.len then
    adlbTclobjBinAppend E types pos o prefixLen canonicalize out
  else .undefined

variable (canonicalize) in
theorem adlbTclobjBinAppend_writes (hE : E.adlb.Lawful) (types : CompoundType) (T : CompoundTy) :
    ∀ pos, types.At pos T → ∀ o prefixLen, Writes (2 ^ 64)
      (fun out => (adlbTclobjBinAppend E types pos o prefixLen canonicalize out).okValue)
      ((encoding E canonicalize T o).map (prefixed E.adlb prefixLen T.head.1)) := by
  induction T with
  | leaf t e ht =>
    intro pos hat o prefixLen
    have hpad : E.adlb.packPadSize t = false := hE.packPadSize_scalar ht
    have hwrites : Writes (2 ^ 64) (fun out => (encoding E canonicalize (.leaf t e ht) o).bind
        fun b => DataLib.appendBytes out (prefixed E.adlb prefixLen t b))
        ((encoding E canonicalize (.leaf t e ht) o).map (prefixed E.adlb prefixLen t)) := by
      rw [Option.map_eq_bind]
      exact Writes.bind _ fun b _ => appendBytes_writes _
    refine hwrites.congr ?_
    intro out _
    rw [adlbTclobjBinAppend, compoundTypeNext_entry hat]
    simp only [ok_bind, hpad, Bool.false_eq_true, if_false, okValue_bind,
      okValue_require, encoding, Option.bind_assoc, DataLib.appendBuffer]
    congr 1
    funext datum
    change _ = (E.adlb.pack datum t).bind _
    cases E.adlb.pack datum t with
    | none => rfl
    | some b => cases prefixLen <;> simp [prefixed, withLen, hE.lenPrefix_scalar ht]
  | container k v ih =>
    intro pos hat o prefixLen
    have hnested (o : Obj) : Writes (2 ^ 64)
        (fun out => (nestedAppend E types pos canonicalize (pos + 2) o true out).okValue)
        ((encoding E canonicalize v o).map (withLen E.adlb v.head.1)) := by
      refine (ih (pos + 2) hat.2.2 o true).congr ?_
      intro out _
      simp [nestedAppend, hat.lt]
    have hpad : E.adlb.packPadSize .container = true := by simp [hE.packPadSize_iff]
    refine (writes_nested hE hpad (tclDictToPackedContainer_writes hat o hnested)
      prefixLen).congr ?_
    intro out _
    obtain ⟨_, hnext⟩ := compoundTypeNext_type hat.1
    rw [adlbTclobjBinAppend, hnext]
    simp only [ok_bind, hpad, if_true]
  | multiset v ih =>
    intro pos hat o prefixLen
    have hnested (o : Obj) : Writes (2 ^ 64)
        (fun out => (nestedAppend E types pos canonicalize (pos + 1) o true out).okValue)
        ((encoding E canonicalize v o).map (withLen E.adlb v.head.1)) := by
      refine (ih (pos + 1) hat.2 o true).congr ?_
      intro out _
      simp [nestedAppend, hat.lt]
    have hpad : E.adlb.packPadSize .multiset = true := by simp [hE.packPadSize_iff]
    refine (writes_nested hE hpad (tclListToPackedMultiset_writes hat o hnested)
      prefixLen).congr ?_
    intro out _
    obtain ⟨_, hnext⟩ := compoundTypeNext_type hat.1
    rw [adlbTclobjBinAppend, hnext]
    simp only [ok_bind, hpad, if_true]

/-- The encoder of nested values succeeds exactly on values with an encoding that fits into memory,
and then returns it. -/
theorem adlbTclobj2binCompound_eq_ok (hE : E.adlb.Lawful) (T : CompoundTy) (o : Obj) (b : Bytes) :
    adlbTclobj2binCompound E T.toCompoundType o canonicalize = .ok b ↔
      encoding E canonicalize T o = some b ∧ b.length < 2 ^ 64 := by
  have h := adlbTclobjBinAppend_writes canonicalize hE T.toCompoundType T 0
    T.at_toCompoundType o false [] (by simp) b
  have hpiece : (encoding E canonicalize T o).map (prefixed E.adlb false T.head.1) =
      encoding E canonicalize T o := by
    cases encoding E canonicalize T o <;> rfl
  rw [adlbTclobj2binCompound, ← okValue_eq_some, h, hpiece]
  constructor
  · rintro ⟨b, hb, rfl, hlt⟩
    exact ⟨hb, hlt⟩
  · rintro ⟨hb, hlt⟩
    exact ⟨b, hb, rfl, hlt⟩

end Append

end Turbine.Codec
