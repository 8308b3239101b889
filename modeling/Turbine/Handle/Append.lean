import Turbine.Handle.Model
import Turbine.Tcl.Values

/-! Appending subscripts to a parsed handle, against parsing the handle that
`adlb::subscript_struct` builds from the same subscripts. -/

namespace Turbine.Handle

open Tcl Library

section Text

/-- A path behind an id: every part has a dot in front. -/
def pathText (path : List Bytes) : Bytes := path.flatMap (dot :: ·)

def handleText (id : Int64) (path : List Bytes) : Bytes := decimal id.toInt ++ pathText path

/-- The binary form of a path: its parts with dots between them and a final zero byte. -/
def binarySubscript : List Bytes → Bytes
  | [] => []
  | f :: path => f ++ pathText path ++ [0]

end Text

variable {Obj D : Type} {lib : HandleLib} {tcl : TclApi Obj D} {m m' : Memory}

def Memory.WritesFit (m : Memory) : Prop := ∀ w ∈ m.writes, w.stop ≤ w.requested

/-- The buffer has the storage that its length says. -/
def AdlbBuffer.Valid (m : Memory) (buf : AdlbBuffer) : Prop :=
  match buf.data with
  | none => buf.length = 0
  | some (.string _) => False
  | some p => ∃ b, m.read p = some b ∧ b.length = buf.length

/-- Numbers are read from their decimal form, a text with a dot is no integer, and a buffer that
was resized has room for as many bytes as were asked for. -/
structure HandleLib.Lawful (lib : HandleLib) (tcl : TclApi Obj D) : Prop where
  getWideInt_decimal : ∀ o id, tcl.getString o = decimal (Int64.toInt id) →
    tcl.getWideInt o = some id
  getWideInt_dot : ∀ o, dot ∈ tcl.getString o → tcl.getWideInt o = none
  int64Parse_decimal : ∀ id, lib.int64Parse (decimal (Int64.toInt id)) = some id
  resizeBuf_isSome : ∀ m buf u n, (lib.resizeBuf m buf u n).isSome
  resizeBuf_valid : ∀ m (buf : AdlbBuffer) u n m' buf' u', buf.Valid m →
    lib.resizeBuf m buf u n = some (m', buf', u') → buf'.Valid m' ∧ n ≤ buf'.length
  resizeBuf_writes : ∀ m buf u n m' buf' u', lib.resizeBuf m buf u n = some (m', buf', u') →
    m'.writes = m.writes

section Memory

variable {buf : AdlbBuffer} {requested pos : ℕ} {new : Bytes}

lemma Memory.read_store {p : Place} {old : Bytes} (b : Bytes) (hp : ∀ s, p ≠ .string s)
    (hold : m.read p = some old) : (m.store p b).read p = some b := by
  cases p with
  | scratch => rfl
  | block n =>
    have hlt : n < m.blocks.length := by
      by_contra hge
      simp [read, List.getElem?_eq_none (not_lt.mp hge)] at hold
    simp [store, read, hlt]
  | string s => exact absurd rfl (hp s)

lemma Memory.write_eq_ok (h : m.write requested buf pos new = .ok m') :
    ∃ p old, buf.data = some p ∧ m.read p = some old ∧ pos + new.length ≤ old.length ∧
      m'.read p = some (splice old pos new) ∧
      m'.writes = m.writes ++ [⟨requested, pos + new.length⟩] := by
  unfold write at h
  split at h
  · cases h
  · cases h
  · next p hstr hp =>
    split at h
    · cases h
    · next old hold =>
      split at h
      · next hle =>
        cases h
        exact ⟨p, old, hp, hold, hle, read_store _ (by simpa using hstr) hold, rfl⟩
      · cases h

lemma AdlbBuffer.Valid.exists_read (h : buf.Valid m) (h0 : buf.length ≠ 0) :
    ∃ p b, buf.data = some p ∧ (∀ s, p ≠ .string s) ∧ m.read p = some b ∧
      b.length = buf.length := by
  unfold Valid at h
  split at h
  · exact absurd h h0
  · exact h.elim
  · next p hstr hp =>
    obtain ⟨b, hb, hlen⟩ := h
    exact ⟨p, b, hp, by simpa using hstr, hb, hlen⟩

lemma AdlbBuffer.valid_of_read {p : Place} {b : Bytes} (hp : buf.data = some p)
    (hstr : ∀ s, p ≠ .string s) (hb : m.read p = some b) (hlen : b.length = buf.length) :
    buf.Valid m := by
  unfold Valid
  split
  · next hnone => simp [hnone] at hp
  · next s hs => exact absurd (Option.some.inj (hp.symm.trans hs)) (hstr s)
  · next p' _ hp' =>
    obtain rfl : p = p' := Option.some.inj (hp.symm.trans hp')
    exact ⟨b, hb, hlen⟩

lemma Memory.write_isOk (requested : ℕ) (hbuf : buf.Valid m) (h0 : buf.length ≠ 0)
    (hle : pos + new.length ≤ buf.length) :
    ∃ m', m.write requested buf pos new = .ok m' ∧ buf.Valid m' := by
  obtain ⟨p, b, hp, hstr, hb, hlen⟩ := hbuf.exists_read h0
  have hw : ∃ m', m.write requested buf pos new = .ok m' := by
    unfold write
    rw [hp]
    cases p with
    | string s => exact absurd rfl (hstr s)
    | scratch => simp [hb, hlen, hle]
    | block n => simp [hb, hlen, hle]
  obtain ⟨m', hm'⟩ := hw
  obtain ⟨p', old, hp', hold, hle', hread, -⟩ := write_eq_ok hm'
  obtain rfl : p = p' := Option.some.inj (hp.symm.trans hp')
  obtain rfl : b = old := Option.some.inj (hb.symm.trans hold)
  exact ⟨m', hm', AdlbBuffer.valid_of_read hp hstr hread (by rw [length_splice hle', hlen])⟩

lemma Memory.WritesFit.write (hm : m.WritesFit) (h : m.write requested buf pos new = .ok m')
    (hle : pos + new.length ≤ requested) : m'.WritesFit := by
  obtain ⟨-, -, -, -, -, -, hwrites⟩ := write_eq_ok h
  intro w hw
  rw [hwrites, List.mem_append, List.mem_singleton] at hw
  rcases hw with hw | rfl
  · exact hm w hw
  · exact hle

end Memory

section Parse

variable {str : Bytes} {buf : AdlbBuffer} {sub : AdlbSubscript} {u : Bool}

variable (str sub u) in
lemma adlbParseStructSubscript_fresh (append : Bool) (hlib : lib.Lawful tcl) (hbuf : buf.Valid m)
    (hm : m.WritesFit) (h : ¬ (append = true ∧ 0 < sub.length)) :
    ∃ m' buf' u', adlbParseStructSubscript lib m str buf sub u append =
        .ok (m', buf', ⟨buf'.data, str.length + 1⟩, u') ∧
      m'.bytes ⟨buf'.data, str.length + 1⟩ = some (str ++ [0]) ∧ m'.WritesFit := by
  obtain ⟨⟨m₁, buf', u'⟩, hresize⟩ :=
    Option.isSome_iff_exists.mp (hlib.resizeBuf_isSome m buf u (str.length + 1))
  obtain ⟨hbuf₁, hlen⟩ := hlib.resizeBuf_valid _ _ _ _ _ _ _ hbuf hresize
  have hm₁ : m₁.WritesFit := by
    unfold Memory.WritesFit
    rw [hlib.resizeBuf_writes _ _ _ _ _ _ _ hresize]
    exact hm
  obtain ⟨m₂, hm₂, hbuf₂⟩ := Memory.write_isOk (str.length + 1) hbuf₁ (by omega)
    (show 0 + str.length ≤ buf'.length by omega)
  obtain ⟨m₃, hm₃, -⟩ := Memory.write_isOk (str.length + 1) hbuf₂ (by omega)
    (show str.length + [(0 : UInt8)].length ≤ buf'.length by simpa using hlen)
  refine ⟨m₃, buf', u', ?_, ?_, (hm₁.write hm₂ (by omega)).write hm₃ (by simp)⟩
  · simp only [adlbParseStructSubscript, if_neg h, hresize, TclResult.require_some,
      TclResult.ok_bind, hm₂, hm₃, TclResult.pure_eq]
  · obtain ⟨p, old, hp, -, hle, hread₂, -⟩ := Memory.write_eq_ok hm₂
    obtain ⟨p', old', hp', hold', -, hread₃, -⟩ := Memory.write_eq_ok hm₃
    obtain rfl : p = p' := Option.some.inj (hp.symm.trans hp')
    obtain rfl : splice old 0 str = old' := Option.some.inj (hread₂.symm.trans hold')
    rw [splice_splice_zero, splice_zero] at hread₃
    simp [Memory.bytes, hp, hread₃, List.take_append]

lemma Memory.bytes_eq_some {b : Bytes} (h : m.bytes sub = some b) (h0 : 0 < sub.length) :
    ∃ p old, sub.key = some p ∧ m.read p = some old ∧ sub.length ≤ old.length ∧
      b = old.take sub.length := by
  rw [bytes, if_neg (by omega)] at h
  obtain ⟨old, hold, h⟩ := Option.bind_eq_some_iff.mp h
  obtain ⟨p, hp, hread⟩ := Option.bind_eq_some_iff.mp hold
  split at h
  · next hle =>
    cases h
    exact ⟨p, old, hp, hread, hle, rfl⟩
  · cases h

lemma Memory.length_of_bytes {b : Bytes} (h : m.bytes sub = some b) : b.length = sub.length := by
  rcases Nat.eq_zero_or_pos sub.length with h0 | h0
  · simp_all [bytes]
  · obtain ⟨p, old, -, -, hle, rfl⟩ := bytes_eq_some h h0
    simpa using hle

lemma adlbParseStructSubscript_append {m' : Memory} {buf' : AdlbBuffer} {sub' : AdlbSubscript}
    {u' : Bool} (hsub : 0 < sub.length)
    (h : adlbParseStructSubscript lib m str buf sub u true = .ok (m', buf', sub', u')) :
    sub'.length = sub.length + (str.length + 1) ∧
      ∀ b, m'.bytes sub' = some b → b[str.length]? = some 0 := by
  rw [adlbParseStructSubscript, if_pos ⟨rfl, hsub⟩] at h
  simp only [TclResult.bind_eq_ok, TclResult.pure_eq] at h
  obtain ⟨⟨m₁, buf₁, u₁⟩, -, m₂, -, m₃, -, m₄, -, m₅, hm₅, h⟩ := h
  cases h
  obtain ⟨p, old, hp, -, hle, hread, -⟩ := Memory.write_eq_ok hm₅
  refine ⟨rfl, fun b hb => ?_⟩
  obtain ⟨p', old', hp', hread', -, rfl⟩ := Memory.bytes_eq_some hb (by simp)
  obtain rfl : p = p' := Option.some.inj (hp.symm.trans hp')
  obtain rfl := Option.some.inj (hread.symm.trans hread')
  rw [List.getElem?_take_of_lt (by simp; omega)]
  exact getElem?_splice_self hle

lemma adlbParseStructSubscript_length_pos {append : Bool} {m' : Memory} {buf' : AdlbBuffer}
    {sub' : AdlbSubscript} {u' : Bool}
    (h : adlbParseStructSubscript lib m str buf sub u append = .ok (m', buf', sub', u')) :
    0 < sub'.length := by
  unfold adlbParseStructSubscript at h
  split at h
  · simp only [TclResult.bind_eq_ok, TclResult.pure_eq] at h
    obtain ⟨_, _, _, _, _, _, _, _, _, _, h⟩ := h
    cases h
    exact Nat.add_pos_right _ (Nat.succ_pos _)
  · simp only [TclResult.bind_eq_ok, TclResult.pure_eq] at h
    obtain ⟨_, _, _, _, _, _, h⟩ := h
    cases h
    exact Nat.succ_pos _

end Parse

section Handle

variable {id : Int64} {path : List Bytes} {o : Obj} {u : Bool}

lemma adlbExtractHandle_path {f : Bytes} (hlib : lib.Lawful tcl)
    (ho : tcl.getString o = handleText id (f :: path)) :
    adlbExtractHandle lib tcl o = .ok (id, some (f ++ pathText path)) := by
  have htext : tcl.getString o = decimal id.toInt ++ dot :: (f ++ pathText path) := by
    rw [ho]
    simp [handleText, pathText]
  have hint : tcl.getWideInt o = none := hlib.getWideInt_dot o (by simp [htext])
  have hidx : (tcl.getString o).idxOf? dot = some (decimal id.toInt).length := by
    have hnone : (decimal id.toInt).findIdx? (· == dot) = none := by
      rw [List.findIdx?_eq_none_iff]
      intro x hx
      simpa using fun h : x = dot => dot_notMem_decimal _ (h ▸ hx)
    rw [htext, List.idxOf?, List.findIdx?_append, hnone, List.findIdx?_cons]
    simp
  simp only [adlbExtractHandle, hint, hidx, TclResult.require_some, TclResult.ok_bind,
    TclResult.pure_eq]
  rw [htext, List.take_left, List.drop_append, hlib.int64Parse_decimal]
  simp

lemma adlbParseHandle_plain (hlib : lib.Lawful tcl) (ho : tcl.getString o = handleText id []) :
    adlbParseHandle lib tcl m o u = .ok (m, ⟨id, ⟨adlbNoSub, ⟨none, 0⟩⟩⟩) := by
  have hint : tcl.getWideInt o = some id :=
    hlib.getWideInt_decimal o id (by simpa [handleText, pathText] using ho)
  simp [adlbParseHandle, adlbExtractHandle, hint]

lemma adlbParseHandle_spec (hlib : lib.Lawful tcl) (hm : m.WritesFit)
    (ho : tcl.getString o = handleText id path) :
    ∃ m' p, adlbParseHandle lib tcl m o u = .ok (m', p) ∧ p.id = id ∧
      m'.bytes p.sub.val = some (binarySubscript path) ∧ m'.WritesFit := by
  cases path with
  | nil =>
    refine ⟨m, ⟨id, ⟨adlbNoSub, ⟨none, 0⟩⟩⟩, adlbParseHandle_plain hlib ho, rfl, ?_, hm⟩
    simp [Memory.bytes, adlbNoSub, binarySubscript]
  | cons f path =>
    have hbuf : (initialBuf m u).Valid m := by
      cases u <;> simp [initialBuf, AdlbBuffer.Valid, tclAdlbScratchBuf, Memory.read]
    obtain ⟨m', buf', u', hparse, hbytes, hm'⟩ := adlbParseStructSubscript_fresh
      (f ++ pathText path) adlbNoSub u false hlib hbuf hm (by simp)
    refine ⟨m', ⟨id, ⟨⟨buf'.data, (f ++ pathText path).length + 1⟩, buf'⟩⟩, ?_, rfl, hbytes, hm'⟩
    simp only [adlbParseHandle, adlbExtractHandle_path hlib ho, TclResult.ok_bind, hparse,
      TclResult.pure_eq]

end Handle

section Agree

variable (lib tcl)

/-- One call of `ADLB_Parse_Subscript` that appends to the subscript of a parsed handle. -/
def appendStep (useScratch : Bool) (s : Memory × TclAdlbHandle) (obj : Obj) :
    TclResult (Memory × TclAdlbHandle) := do
  let (m, sub) ← adlbParseSubscript lib tcl s.1 obj .struct s.2.sub true useScratch
  pure (m, { s.2 with sub })

def parseAndAppend (m : Memory) (handle : Obj) (subs : List Obj) (useScratch : Bool) :
    TclResult (Memory × TclAdlbHandle) := do
  let s ← adlbParseHandle lib tcl m handle useScratch
  subs.foldlM (appendStep lib tcl useScratch) s

/-- Appending the subscripts to the parsed handle gives the id and the binary subscript of the
handle that is built from them, and both ways write only where room was asked for. -/
def AppendAgrees (m₁ : Memory) (u₁ : Bool) (m₂ : Memory) (u₂ : Bool) (handle : Obj)
    (subs : List Obj) (path : List Bytes) : Prop :=
  ∃ m₁' p₁ joined m₂' p₂ b,
    parseAndAppend lib tcl m₁ handle subs u₁ = .ok (m₁', p₁) ∧
    adlbSubscriptStructCmd tcl handle subs = .ok joined ∧
    adlbParseHandle lib tcl m₂ joined u₂ = .ok (m₂', p₂) ∧
    p₁.id = p₂.id ∧ p₁.sub.val.length = p₂.sub.val.length ∧
    m₁'.bytes p₁.sub.val = some b ∧ m₂'.bytes p₂.sub.val = some b ∧
    b = binarySubscript path ∧ (∀ i, b[i]? = some 0 ↔ i + 1 = b.length) ∧
    m₁'.WritesFit ∧ m₂'.WritesFit

variable {lib tcl} {id : Int64} {path : List Bytes} {handle o : Obj} {u : Bool} {subs : List Obj}
  {s s' : Memory × TclAdlbHandle}

lemma binarySubscript_nul (hpath : ∀ f ∈ path, 0 ∉ f) (i : ℕ) :
    (binarySubscript path)[i]? = some 0 ↔ i + 1 = (binarySubscript path).length := by
  cases path with
  | nil => simp [binarySubscript]
  | cons f path =>
    have htext : (0 : UInt8) ∉ f ++ pathText path := by
      rw [List.forall_mem_cons] at hpath
      simpa [pathText, hpath.1, dot] using hpath.2
    rw [binarySubscript, List.length_append, List.length_singleton, Nat.add_right_cancel_iff]
    rcases Nat.lt_trichotomy i (f ++ pathText path).length with hi | rfl | hi
    · rw [List.getElem?_append_left hi]
      refine ⟨fun h0 => absurd (List.mem_of_getElem? h0) htext, fun heq => ?_⟩
      omega
    · simp
    · rw [List.getElem?_eq_none (by simp at hi ⊢; omega)]
      simp only [reduceCtorEq, false_iff]
      omega

lemma handleText_append (h : tcl.getString handle = handleText id path) :
    tcl.getString handle ++ (subs.flatMap fun sub => dot :: tcl.getString sub) =
      handleText id (path ++ subs.map tcl.getString) := by
  rw [h, handleText, handleText, pathText, pathText, List.flatMap_append, List.flatMap_map,
    List.append_assoc]

lemma adlbSubscriptStructCmd_eq_ok (h : tcl.getString handle = handleText id path) {joined : Obj} :
    adlbSubscriptStructCmd tcl handle subs = .ok joined ↔
      (handleText id (path ++ subs.map tcl.getString)).length < 2 ^ 31 ∧
        joined = tcl.newString (handleText id (path ++ subs.map tcl.getString)) := by
  simp only [adlbSubscriptStructCmd, adlbSubscriptImpl, handleText_append h]
  simp
  split_ifs <;> simp_all [eq_comm]

lemma appendStep_of_ne (ho : tcl.getString o ≠ []) :
    appendStep lib tcl u s o =
      (adlbParseStructSubscript lib s.1 (tcl.getString o) s.2.sub.buf s.2.sub.val
        (s.2.sub.buf.data = some .scratch) true >>= fun r =>
          .ok (r.1, { s.2 with sub := ⟨r.2.2.1, r.2.1⟩ })) := by
  have hlen : ¬ (tcl.getString o).length = 0 := by simpa using ho
  simp only [appendStep, adlbParseSubscript, if_neg hlen, if_true, TclResult.pure_eq]
  cases adlbParseStructSubscript lib s.1 (tcl.getString o) s.2.sub.buf s.2.sub.val
    (s.2.sub.buf.data = some .scratch) true <;> rfl

lemma appendStep_length_pos (ho : tcl.getString o ≠ [])
    (h : appendStep lib tcl u s o = .ok s') : 0 < s'.2.sub.val.length := by
  rw [appendStep_of_ne ho, TclResult.bind_eq_ok] at h
  obtain ⟨r, hr, h⟩ := h
  cases h
  exact adlbParseStructSubscript_length_pos hr

lemma appendStep_nul (ho : tcl.getString o ≠ []) (hs : 0 < s.2.sub.val.length)
    (h : appendStep lib tcl u s o = .ok s') :
    s'.2.sub.val.length = s.2.sub.val.length + ((tcl.getString o).length + 1) ∧
      ∀ b, s'.1.bytes s'.2.sub.val = some b → b[(tcl.getString o).length]? = some 0 := by
  rw [appendStep_of_ne ho, TclResult.bind_eq_ok] at h
  obtain ⟨r, hr, h⟩ := h
  cases h
  exact adlbParseStructSubscript_append hs hr

lemma appendStep_plain (id : Int64) (hlib : lib.Lawful tcl) (hm : m.WritesFit) (ho : tcl.getString o ≠ []) :
    ∃ m' p, appendStep lib tcl u (m, ⟨id, ⟨adlbNoSub, ⟨none, 0⟩⟩⟩) o = .ok (m', p) ∧ p.id = id ∧
      m'.bytes p.sub.val = some (binarySubscript [tcl.getString o]) ∧ m'.WritesFit := by
  obtain ⟨m', buf', u', hparse, hbytes, hm'⟩ := adlbParseStructSubscript_fresh
    (tcl.getString o) adlbNoSub false true hlib (show AdlbBuffer.Valid m ⟨none, 0⟩ from rfl) hm
    (by simp [adlbNoSub])
  refine ⟨m', ⟨id, ⟨⟨buf'.data, (tcl.getString o).length + 1⟩, buf'⟩⟩, ?_, rfl, ?_, hm'⟩
  · rw [appendStep_of_ne ho]
    simp only [reduceCtorEq, decide_false, hparse, TclResult.ok_bind]
  · simpa [binarySubscript, pathText] using hbytes

lemma parseAndAppend_concat :
    parseAndAppend lib tcl m handle (subs ++ [o]) u =
      parseAndAppend lib tcl m handle subs u >>= fun s => appendStep lib tcl u s o := by
  simp only [parseAndAppend, List.foldlM_append, List.foldlM_cons, List.foldlM_nil, bind_pure,
    bind_assoc]

lemma length_pos_of_run (hlib : lib.Lawful tcl) (hm : m.WritesFit)
    (hhandle : tcl.getString handle = handleText id path)
    (hsubs : ∀ o ∈ subs, tcl.getString o ≠ []) (hne : path ≠ [] ∨ subs ≠ [])
    (h : parseAndAppend lib tcl m handle subs u = .ok s) : 0 < s.2.sub.val.length := by
  cases subs using List.reverseRecOn with
  | nil =>
    obtain ⟨m', p, hparse, -, hbytes, -⟩ := adlbParseHandle_spec (u := u) hlib hm hhandle
    have hrun : parseAndAppend lib tcl m handle [] u = .ok (m', p) := by
      simp [parseAndAppend, hparse]
    obtain rfl : s = (m', p) := TclResult.ok.inj (h.symm.trans hrun)
    rw [← Memory.length_of_bytes hbytes]
    cases path with
    | nil => simp at hne
    | cons f path => simp [binarySubscript]
  | append_singleton subs o =>
    rw [parseAndAppend_concat, TclResult.bind_eq_ok] at h
    obtain ⟨s₁, -, hlast⟩ := h
    exact appendStep_length_pos (hsubs o (by simp)) hlast

section Main

variable {m₁ m₂ : Memory} {u₁ u₂ : Bool}

lemma subs_of_appendAgrees (hlib : lib.Lawful tcl) (hm₁ : m₁.WritesFit)
    (hhandle : tcl.getString handle = handleText id path)
    (hsubs : ∀ o ∈ subs, tcl.getString o ≠ []) {p : List Bytes}
    (h : AppendAgrees lib tcl m₁ u₁ m₂ u₂ handle subs p) :
    subs = [] ∨ path = [] ∧ subs.length = 1 := by
  obtain ⟨m₁', p₁, joined, m₂', p₂, b, hrun, -, -, -, -, hb, -, -, hnul, -, -⟩ := h
  cases subs using List.reverseRecOn with
  | nil => exact Or.inl rfl
  | append_singleton subs o =>
    rw [parseAndAppend_concat, TclResult.bind_eq_ok] at hrun
    obtain ⟨s, hinit, hlast⟩ := hrun
    have ho := hsubs o (by simp)
    by_contra hcond
    have hpos : 0 < s.2.sub.val.length := by
      refine length_pos_of_run hlib hm₁ hhandle (fun o' ho' => hsubs o' (by simp [ho'])) ?_ hinit
      by_contra hempty
      simp_all
    obtain ⟨hlen, hzero⟩ := appendStep_nul ho hpos hlast
    have hlast_index : (tcl.getString o).length + 1 = b.length := (hnul _).mp (hzero b hb)
    rw [Memory.length_of_bytes hb, hlen] at hlast_index
    omega

variable (u₁) in
lemma parseAndAppend_single (hlib : lib.Lawful tcl) (hm₁ : m₁.WritesFit)
    (hhandle : tcl.getString handle = handleText id path)
    (hsubs : ∀ o ∈ subs, tcl.getString o ≠ []) (h : subs = [] ∨ path = [] ∧ subs.length = 1) :
    ∃ m₁' p₁, parseAndAppend lib tcl m₁ handle subs u₁ = .ok (m₁', p₁) ∧ p₁.id = id ∧
      m₁'.bytes p₁.sub.val = some (binarySubscript (path ++ subs.map tcl.getString)) ∧
      m₁'.WritesFit := by
  rcases h with rfl | ⟨rfl, hone⟩
  · obtain ⟨m₁', p₁, hparse₁, h₁⟩ := adlbParseHandle_spec (u := u₁) hlib hm₁ hhandle
    exact ⟨m₁', p₁, by simp [parseAndAppend, hparse₁], by simpa using h₁⟩
  · obtain ⟨o, rfl⟩ := List.length_eq_one_iff.mp hone
    obtain ⟨m₁', p₁, hstep, h₁⟩ :=
      appendStep_plain (u := u₁) id hlib hm₁ (hsubs o (by simp))
    refine ⟨m₁', p₁, ?_, by simpa using h₁⟩
    rw [← List.nil_append [o], parseAndAppend_concat, parseAndAppend,
      adlbParseHandle_plain hlib hhandle]
    exact hstep

/-- Appending agrees with the handle that is built from all subscripts exactly when there is
nothing to append, or a single subscript to a plain id; the built handle has to fit in an `int`. -/
theorem appendAgrees_iff (hlib : lib.Lawful tcl) (hT : tcl.Lawful) (hm₁ : m₁.WritesFit)
    (hm₂ : m₂.WritesFit) (hhandle : tcl.getString handle = handleText id path)
    (hpath : ∀ f ∈ path, 0 ∉ f)
    (hsubs : ∀ o ∈ subs, tcl.getString o ≠ [] ∧ 0 ∉ tcl.getString o) :
    AppendAgrees lib tcl m₁ u₁ m₂ u₂ handle subs (path ++ subs.map tcl.getString) ↔
      (handleText id (path ++ subs.map tcl.getString)).length < 2 ^ 31 ∧
        (subs = [] ∨ path = [] ∧ subs.length = 1) := by
  have hne : ∀ o ∈ subs, tcl.getString o ≠ [] := fun o ho => (hsubs o ho).1
  constructor
  · intro h
    refine ⟨?_, subs_of_appendAgrees hlib hm₁ hhandle hne h⟩
    obtain ⟨_, _, _, _, _, _, -, hjoined, -⟩ := h
    exact ((adlbSubscriptStructCmd_eq_ok hhandle).mp hjoined).1
  · rintro ⟨hlen, hsingle⟩
    obtain ⟨m₂', p₂, hparse, hid, hbytes, hm₂'⟩ := adlbParseHandle_spec (u := u₂) hlib hm₂
      (hT.getString_newString (handleText id (path ++ subs.map tcl.getString)))
    obtain ⟨m₁', p₁, hrun, hid₁, hbytes₁, hm₁'⟩ :=
      parseAndAppend_single u₁ hlib hm₁ hhandle hne hsingle
    refine ⟨m₁', p₁, _, m₂', p₂, _, hrun, (adlbSubscriptStructCmd_eq_ok hhandle).mpr ⟨hlen, rfl⟩,
      hparse, hid₁.trans hid.symm, ?_, hbytes₁, hbytes, rfl, binarySubscript_nul ?_, hm₁', hm₂'⟩
    · rw [← Memory.length_of_bytes hbytes₁, ← Memory.length_of_bytes hbytes]
    · intro f hf
      rcases List.mem_append.mp hf with hf | hf
      · exact hpath f hf
      · obtain ⟨o, ho, rfl⟩ := List.mem_map.mp hf
        exact (hsubs o ho).2

end Main

end Agree

section Concrete

/-- A buffer that is too small becomes a new block with the old contents in front. The old block is
freed, unless the caller owns it. -/
def growBuf (m : Memory) (buf : AdlbBuffer) (usingCallerBuf : Bool) (minLength : ℕ) :
    Memory × AdlbBuffer × Bool :=
  if minLength ≤ buf.length then (m, buf, usingCallerBuf)
  else
    let old := (buf.data.bind m.read).getD []
    let blocks := match buf.data with
      | some (.block n) => if usingCallerBuf then m.blocks else m.blocks.set n none
      | _ => m.blocks
    let new := old.take minLength ++ List.replicate (minLength - old.length) 0
    ({ m with blocks := blocks ++ [some new] }, ⟨some (.block blocks.length), minLength⟩, false)

def handleLib : HandleLib where
  int64Parse s := (Value.str s).wideInt
  resizeBuf m buf u n := some (growBuf m buf u n)

lemma growBuf_valid {m m' : Memory} {buf buf' : AdlbBuffer} {u u' : Bool} {n : ℕ}
    (hbuf : buf.Valid m) (h : growBuf m buf u n = (m', buf', u')) :
    buf'.Valid m' ∧ n ≤ buf'.length := by
  unfold growBuf at h
  split at h
  · next hle =>
    cases h
    exact ⟨hbuf, hle⟩
  · cases h
    refine ⟨?_, le_refl n⟩
    simp [AdlbBuffer.Valid, Memory.read]
    omega

theorem handleLib_lawful : handleLib.Lawful values where
  getWideInt_decimal _ _ h := Value.wideInt_decimal h
  getWideInt_dot o h := by
    have hparse : parseInt o.text = none := parseInt_dot h
    simp [values, Value.wideInt, hparse]
  int64Parse_decimal _ := Value.wideInt_decimal rfl
  resizeBuf_isSome _ _ _ _ := rfl
  resizeBuf_valid _ _ _ _ _ _ _ hbuf h := growBuf_valid hbuf (Option.some.inj h)
  resizeBuf_writes m buf u n m' buf' u' h := by
    have h := Option.some.inj h
    unfold growBuf at h
    split at h <;> cases h <;> rfl

/-- A memory with nothing allocated. -/
def emptyMemory (scratchLen : ℕ) : Memory := ⟨List.replicate scratchLen 0, [], []⟩

theorem appendAgrees_plain : AppendAgrees handleLib values (emptyMemory 64) true (emptyMemory 64)
    false (.str [49, 50]) [.str [51]] [[51]] := by
  have hhandle : values.getString (.str [49, 50]) = handleText 12 [] := by decide
  have hsubs : ∀ o ∈ [Value.str [51]], values.getString o ≠ [] ∧ 0 ∉ values.getString o := by decide
  have hfit : (emptyMemory 64).WritesFit := by simp [emptyMemory, Memory.WritesFit]
  refine (appendAgrees_iff handleLib_lawful values_lawful hfit hfit hhandle (by simp) hsubs).mpr
    ⟨?_, Or.inr ⟨rfl, rfl⟩⟩
  decide

/-- Behind `1.2` the zero byte of an appended `3` overwrites the dot. -/
theorem not_appendAgrees_path : ¬AppendAgrees handleLib values (emptyMemory 64) true
    (emptyMemory 64) true (.str [49, 46, 50]) [.str [51]] [[50], [51]] := by
  intro h
  have hhandle : values.getString (.str [49, 46, 50]) = handleText 1 [[50]] := by decide
  have hsubs := subs_of_appendAgrees handleLib_lawful (by simp [emptyMemory, Memory.WritesFit])
    hhandle (by decide) h
  simp at hsubs

end Concrete

end Turbine.Handle
