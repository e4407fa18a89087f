/-
  FuseNt.Module.DirReading

  What is read of a directory: the replies of the module library to `READDIR`,
  in terms of the entries that the file system gives.

  There is one specification for each of the two ways to fill a directory.
  Without offsets, the entries are taken down when the directory is rewound and
  the reads are cut out of the stream.  With offsets, a read returns the
  longest list of entries it has room for; only if there are none is the file
  system not asked any more.  A read of bytes in front of the contents is no
  step of either: no handle serves it.
-/

import FuseNt.Module.DirHandle

namespace FuseNt

open FuseNt.Lib

-- ============================================================================
-- Streams
-- ============================================================================

def FillArgs.size (e : FillArgs) : Nat := fuseDirentSize e.name.length

/-- The length of the stream. -/
def fillSizes (es : List FillArgs) : Nat := (es.map FillArgs.size).sum

section Streams

variable (conf : InoConfig) (lookupNode : FileName → Option Nat)

def FillArgs.record (e : FillArgs) (off : Nat) : List UInt8 :=
  direntBytes e.name (entryStat conf lookupNode e.name e.statp) off

/-- The stream from the offset `pos` on of a directory whose entries have no
    offsets: they get those behind their records. -/
def plainStream : Nat → List FillArgs → List UInt8
  | _, [] => []
  | pos, e :: rest =>
      e.record conf lookupNode (pos + e.size) ++ plainStream (pos + e.size) rest

/-- The stream of entries that have offsets. -/
def offsetStream (es : List FillArgs) : List UInt8 :=
  es.flatMap fun e => e.record conf lookupNode e.off

@[simp] theorem length_record (e : FillArgs) (off : Nat) :
    (e.record conf lookupNode off).length = e.size := length_direntBytes

@[simp] theorem length_plainStream (pos : Nat) (es : List FillArgs) :
    (plainStream conf lookupNode pos es).length = fillSizes es := by
  induction es generalizing pos with
  | nil => rfl
  | cons e rest ih =>
      rw [plainStream, List.length_append, length_record, ih]
      exact (List.sum_cons ..).symm

@[simp] theorem length_offsetStream (es : List FillArgs) :
    (offsetStream conf lookupNode es).length = fillSizes es := by
  induction es with
  | nil => rfl
  | cons e rest ih =>
      rw [offsetStream, List.flatMap_cons, List.length_append, length_record]
      exact congrArg (e.size + ·) ih

end Streams

/-- The entries that `room` bytes are enough for. -/
def roomFor : Nat → List FillArgs → List FillArgs
  | _, [] => []
  | room, e :: rest => if room < e.size then [] else e :: roomFor (room - e.size) rest

/-- They are a first part of the entries, and no longer part would fit. -/
theorem roomFor_spec (room : Nat) (es : List FillArgs) :
    ∃ k, roomFor room es = es.take k ∧
      IsGreatest {k | k ≤ es.length ∧ fillSizes (es.take k) ≤ room} k := by
  induction es generalizing room with
  | nil => exact ⟨0, rfl, ⟨le_rfl, Nat.zero_le _⟩, fun k hk => hk.1⟩
  | cons e rest ih =>
      by_cases hroom : room < e.size
      · refine ⟨0, if_pos hroom, ⟨Nat.zero_le _, Nat.zero_le _⟩, fun k hk => ?_⟩
        cases k with
        | zero => exact le_rfl
        | succ k =>
            have := hk.2
            simp only [List.take_succ_cons, fillSizes, List.map_cons, List.sum_cons] at this
            omega
      · obtain ⟨k, htake, ⟨hle, hfits⟩, hmost⟩ := ih (room - e.size)
        refine ⟨k + 1, ?_, ⟨Nat.succ_le_succ hle, ?_⟩, fun j hj => ?_⟩
        · rw [roomFor, if_neg hroom, htake, List.take_succ_cons]
        · simp only [fillSizes, List.take_succ_cons, List.map_cons, List.sum_cons] at hfits ⊢
          omega
        · cases j with
          | zero => exact Nat.zero_le _
          | succ j =>
              have hj₂ := hj.2
              simp only [fillSizes, List.take_succ_cons, List.map_cons, List.sum_cons] at hj₂
              exact Nat.succ_le_succ (hmost ⟨Nat.le_of_succ_le_succ hj.1, by
                show (List.map FillArgs.size (List.take j rest)).sum ≤ room - e.size
                omega⟩)

-- ============================================================================
-- Filling
-- ============================================================================

/-- The bytes are behind those that were there. -/
structure Appended (dh dh' : FuseDh) (bytes : List UInt8) : Prop extends dh'.Ok where
  len : dh'.len = dh.len + bytes.length
  read : dh'.contents.read 0 dh'.len = dh.contents.read 0 dh.len ++ bytes
  needlen : dh'.needlen = dh.needlen
  error : dh'.error = dh.error

namespace Appended

variable {dh dh' dh'' : FuseDh} {bytes bytes' : List UInt8}

theorem refl (h : dh.Ok) : Appended dh dh [] :=
  { h with
    len := rfl
    read := (List.append_nil _).symm
    needlen := rfl
    error := rfl }

theorem trans (h : Appended dh dh' bytes) (h' : Appended dh' dh'' bytes') :
    Appended dh dh'' (bytes ++ bytes') :=
  { h'.toOk with
    len := by rw [h'.len, h.len, List.length_append, Nat.add_assoc]
    read := by rw [h'.read, h.read, List.append_assoc]
    needlen := h'.needlen.trans h.needlen
    error := h'.error.trans h.error }

/-- A record is written behind the others. -/
theorem write {size : Nat} (filled : Bool) (hlen : dh.len + bytes.length ≤ size)
    (hsize : size < 2 ^ 32) :
    Appended dh
      { dh with
        size := size
        filled := filled
        contents := dh.contents.write dh.len bytes
        len := dh.len + bytes.length } bytes where
  len_le := hlen
  size_lt := hsize
  len := rfl
  read := by
    show (dh.contents.write dh.len bytes).read 0 (dh.len + bytes.length) = _
    rw [Mem.read_add, Nat.zero_add, Mem.read_write_same,
      Mem.read_write_disjoint _ _ _ _ _ (.inl (by omega))]
  needlen := rfl
  error := rfl

end Appended

section Filling

variable (conf : InoConfig) (call : ReaddirCall) {dh : FuseDh} {es : List FillArgs}

/-- Entries without offsets are all kept, if there is memory. -/
theorem runFill_plain (h : dh.Ok) (hes : ∀ e ∈ es, e.off = 0)
    (hlt : dh.len + fillSizes es < 2 ^ 32) :
    ∃ dh', runFill conf call dh (fillAll es) = some (0, dh') ∧ dh'.filled = dh.filled ∧
      (Appended dh dh' (plainStream conf call.lookupNode dh.len es) ∨
        dh'.Ok ∧ dh'.error = -eNoMem ∧ ∃ size, call.realloc size = false) := by
  induction es generalizing dh with
  | nil => exact ⟨dh, rfl, rfl, .inl (.refl h)⟩
  | cons e rest ih =>
      obtain ⟨name, statp, off⟩ := e
      obtain rfl : off = 0 := hes _ List.mem_cons_self
      have hsizes : fillSizes (⟨name, statp, 0⟩ :: rest) = fuseDirentSize name.length + fillSizes rest :=
        List.sum_cons ..
      rw [hsizes] at hlt
      rw [fillAll, runFill]
      rcases fillDir_plain call.realloc name (entryStat conf call.lookupNode name statp) h with
        ⟨hfull, hmem⟩ | ⟨size, contents, hkept, hlen, hsize, hcontents⟩
      · rw [hfull]
        exact ⟨_, rfl, rfl, .inr ⟨⟨h.len_le, h.size_lt⟩, rfl, hmem⟩⟩
      · have hsmall : dh.len + fuseDirentSize name.length < 2 ^ 32 := by omega
        rw [hkept, hcontents hsmall]
        rw [Nat.mod_eq_of_lt hsmall] at hlen ⊢
        have happ : Appended dh _ (direntBytes name (entryStat conf call.lookupNode name statp)
            (dh.len + fuseDirentSize name.length)) :=
          Appended.write dh.filled (by rw [length_direntBytes]; exact hlen) hsize
        rw [length_direntBytes] at happ
        obtain ⟨dh', hrun, hfilled, hdone⟩ := ih happ.toOk
          (fun e he => hes e (List.mem_cons_of_mem _ he)) (by simp only; omega)
        refine ⟨dh', hrun, hfilled, hdone.imp_left fun hrest => ?_⟩
        exact happ.trans hrest

/-- Of entries with offsets those are kept that the read has room for, if there
    is memory. -/
theorem runFill_offset (h : dh.Ok) (hes : ∀ e ∈ es, e.off ≠ 0) (hle : dh.len ≤ dh.needlen)
    (hneed : dh.needlen < 2 ^ 32) :
    ∃ dh', runFill conf call dh (fillAll es) = some (0, dh') ∧
      (Appended dh dh' (offsetStream conf call.lookupNode (roomFor (dh.needlen - dh.len) es)) ∧
          dh'.filled = (es.isEmpty && dh.filled) ∨
        dh'.Ok ∧ dh'.error = -eNoMem ∧ ∃ size, call.realloc size = false) := by
  induction es generalizing dh with
  | nil => exact ⟨dh, rfl, .inl ⟨.refl h, rfl⟩⟩
  | cons e rest ih =>
      obtain ⟨name, statp, off⟩ := e
      have hoff : off ≠ 0 := hes _ List.mem_cons_self
      rw [fillAll, runFill]
      rcases fillDir_offset call.realloc name (entryStat conf call.lookupNode name statp) h hoff hle
        hneed with ⟨hfull, hmem⟩ | ⟨size, hmin, hsize, hkept⟩
      · rw [hfull]
        exact ⟨_, rfl, .inr ⟨⟨h.len_le, h.size_lt⟩, rfl, hmem⟩⟩
      · rw [hkept]
        by_cases hroom : dh.needlen < dh.len + fuseDirentSize name.length
        · have hnone : roomFor (dh.needlen - dh.len) (⟨name, statp, off⟩ :: rest) = [] :=
            if_pos (by show dh.needlen - dh.len < fuseDirentSize name.length; omega)
          rw [if_pos hroom, hnone]
          refine ⟨_, rfl, .inl ⟨?_, rfl⟩⟩
          exact ⟨⟨hle.trans hmin, hsize⟩, rfl, (List.append_nil _).symm, rfl, rfl⟩
        · have hmore : roomFor (dh.needlen - dh.len) (⟨name, statp, off⟩ :: rest) =
              ⟨name, statp, off⟩ :: roomFor (dh.needlen - dh.len - fuseDirentSize name.length) rest :=
            if_neg (by show ¬ dh.needlen - dh.len < fuseDirentSize name.length; omega)
          have happ : Appended dh _
              (direntBytes name (entryStat conf call.lookupNode name statp) off) :=
            Appended.write false (by rw [length_direntBytes]; omega) hsize
          rw [length_direntBytes] at happ
          rw [if_neg hroom, hmore]
          obtain ⟨dh', hrun, hdone⟩ := ih happ.toOk (fun e he => hes e (List.mem_cons_of_mem _ he))
            (by simp only; omega) hneed
          rcases hdone with ⟨hrest, hfilled⟩ | hfail
          · rw [Nat.sub_add_eq] at hrest
            refine ⟨dh', hrun, .inl ⟨happ.trans hrest, ?_⟩⟩
            rw [hfilled, Bool.and_false]
            rfl
          · exact ⟨dh', hrun, .inr hfail⟩

end Filling

-- ============================================================================
-- The specifications
-- ============================================================================

/-- A read, and what is replied to it. -/
abbrev DirRead := ReaddirCall × Except Int (List UInt8)

/-- The entries are gone through because the directory is rewound or because
    nothing is there. -/
def Asks (call : ReaddirCall) (empty : Prop) : Prop := call.off = 0 ∨ empty

/-- The error that a read ends with when the entries cannot be gone through. -/
def ReadError (call : ReaddirCall) (err : Int) : Prop :=
  (err = -eNoMem ∧ ∃ size, call.realloc size = false) ∨ (err = call.pathErr ∧ err ≠ 0)

/-- A directory whose entries have no offsets.  The state is the stream that has
    been taken down. -/
inductive PlainServes (conf : InoConfig) :
    Option (List UInt8) → DirRead → Option (List UInt8) → Prop
  | kept {stream : List UInt8} {call : ReaddirCall} (hoff : 0 < call.off) :
      PlainServes conf (some stream) (call, .ok ((stream.drop call.off.toNat).take call.size))
        (some stream)
  | filled {state : Option (List UInt8)} {call : ReaddirCall} {es : List FillArgs}
      (hasks : Asks call (state = none)) (hfs : call.fs = fillAll es) (hpath : call.pathErr = 0)
      (hoff : 0 ≤ call.off) :
      PlainServes conf state
        (call, .ok (((plainStream conf call.lookupNode 0 es).drop call.off.toNat).take call.size))
        (some (plainStream conf call.lookupNode 0 es))
  | failed {state : Option (List UInt8)} {call : ReaddirCall} {err : Int}
      (hasks : Asks call (state = none)) (herr : ReadError call err) :
      PlainServes conf state (call, .error err) none

/-- A directory whose entries have offsets.  The state says whether a read has
    found that there are none left: from then on a read that is served finds
    nothing, until the directory is rewound. -/
inductive OffsetServes (conf : InoConfig) : Bool → DirRead → Bool → Prop
  | ended {call : ReaddirCall} (hoff : 0 < call.off) : OffsetServes conf true (call, .ok []) true
  | filled {ended : Bool} {call : ReaddirCall} {es : List FillArgs}
      (hasks : Asks call (ended = false)) (hfs : call.fs = fillAll es) (hpath : call.pathErr = 0)
      (hoff : es = [] → 0 ≤ call.off) :
      OffsetServes conf ended
        (call, .ok (offsetStream conf call.lookupNode (roomFor call.size es))) es.isEmpty
  | failed {ended : Bool} {call : ReaddirCall} {err : Int} (hasks : Asks call (ended = false))
      (herr : ReadError call err) : OffsetServes conf ended (call, .error err) false

/-- The file system gives its entries without offsets, and they fill less than
    4 GiB. -/
def PlainRead (read : DirRead) : Prop :=
  ∃ es, read.1.fs = fillAll es ∧ (∀ e ∈ es, e.off = 0) ∧ fillSizes es < 2 ^ 32

/-- The file system gives its entries with offsets. -/
def OffsetRead (read : DirRead) : Prop :=
  ∃ es, read.1.fs = fillAll es ∧ ∀ e ∈ es, e.off ≠ 0

section Refinement

variable (conf : InoConfig) {call : ReaddirCall} {dh : FuseDh} {es : List FillArgs}

/-- What `fuse_lib_readdir` does behind the refill. -/
theorem fuseLibReaddir_of_refill {err : Int} {dh' : FuseDh}
    (hfill : dh.refill conf call = some (err, dh')) :
    fuseLibReaddir conf call dh =
      if err ≠ 0 then some (.error err, dh')
      else (dh'.reply (dh'.replyRange call).1 (dh'.replyRange call).2).map fun buf => (.ok buf, dh') := by
  rw [fuseLibReaddir, hfill]
  by_cases herr : err = 0
  · simp only [herr, Option.bind_eq_bind, Option.bind_some, ne_eq, not_true_eq_false, if_false]
    exact (Option.map_eq_bind ..).symm
  · simp [herr]

/-- A handle that is filled replies a part of the contents. -/
theorem reply_filled (hok : dh.Ok) (hfilled : dh.filled = true) (bytes : List UInt8)
    (hlen : dh.len = bytes.length) (hread : dh.contents.read 0 dh.len = bytes) :
    dh.reply (dh.replyRange call).1 (dh.replyRange call).2 =
      if 0 ≤ call.off then some ((bytes.drop call.off.toNat).take call.size) else none := by
  have hle := hok.len_le
  have hlt := hok.size_lt
  have hsize := call.size_lt
  by_cases hpos : 0 ≤ call.off
  case neg => rw [if_neg hpos, FuseDh.reply_before hok hfilled (not_le.mp hpos)]
  case pos =>
  obtain ⟨off, hcall⟩ : ∃ off : Nat, call.off = off := ⟨call.off.toNat, by omega⟩
  rw [if_pos hpos, FuseDh.replyRange, if_pos hfilled, hcall, Int.toNat_natCast]
  by_cases hoff : off < dh.len
  · have hrange : ∀ n, n ≤ call.size → off + n ≤ dh.len →
        (n = call.size ∨ dh.len ≤ off + n) →
        dh.reply off n = some ((bytes.drop off).take call.size) := by
      intro n hn hin hend
      rw [FuseDh.reply, if_pos (.inr (by omega)), Int.toNat_natCast]
      have hslice := Mem.read_slice hread off n hin
      rw [Nat.zero_add] at hslice
      rw [hslice]
      rcases hend with rfl | hend
      · rfl
      · rw [List.take_of_length_le (by rw [List.length_drop]; omega),
          List.take_of_length_le (by rw [List.length_drop]; omega)]
    rw [if_pos (by omega), Int.emod_eq_of_lt (by omega) (by omega)]
    split
    case isTrue => exact hrange _ (by omega) (by omega) (.inr (by omega))
    case isFalse => exact hrange _ le_rfl (by omega) (.inl rfl)
  · rw [if_neg (by omega), List.drop_eq_nil_of_le (by omega), List.take_nil]
    exact if_pos (.inl rfl)

/-- A handle that is not filled replies all of the contents. -/
theorem reply_not_filled (hok : dh.Ok) (hfilled : dh.filled = false) :
    dh.reply (dh.replyRange call).1 (dh.replyRange call).2 = some (dh.contents.read 0 dh.len) := by
  have hle := hok.len_le
  rw [FuseDh.replyRange, hfilled]
  exact if_pos (.inr (by simpa using hle))

theorem refill_kept (hoff : call.off ≠ 0) (hfilled : dh.filled = true) :
    dh.refill conf call = some (0, dh) := by
  simp only [FuseDh.refill, if_neg hoff, hfilled, if_true]

/-- The handle as it is when the entries are gone through. -/
def FuseDh.rewound (dh : FuseDh) : FuseDh := { dh with filled := false }

theorem refill_asks (hasks : call.off = 0 ∨ dh.filled = false) :
    dh.refill conf call = readdirFill conf call dh.rewound := by
  have hrewound : (if call.off = 0 then { dh with filled := false } else dh) = dh.rewound := by
    split
    case isTrue => rfl
    case isFalse hoff => rw [FuseDh.rewound, ← hasks.resolve_left hoff]
  simp only [FuseDh.refill, hrewound]
  rfl

/-- The handle that `readdir_fill` gives to the file system. -/
def FuseDh.started (dh : FuseDh) (size : Nat) : FuseDh :=
  { dh with len := 0, error := 0, needlen := size, filled := true }

/-- The entries are gone through: it succeeds with what the file system's calls
    make of the handle, or fails and leaves the handle to be filled again. -/
theorem readdirFill_spec (hok : dh.Ok) {P : FuseDh → Prop}
    (hrun : ∃ dh', runFill conf call (dh.started call.size) call.fs = some (0, dh') ∧
      (dh'.Ok ∧ dh'.error = 0 ∧ P dh' ∨
        dh'.Ok ∧ dh'.error = -eNoMem ∧ ∃ size, call.realloc size = false)) :
    ∃ err dh', readdirFill conf call dh.rewound = some (err, dh') ∧ dh'.Ok ∧
      (err = 0 ∧ call.pathErr = 0 ∧ P dh' ∨
        err ≠ 0 ∧ ReadError call err ∧ dh'.filled = false) := by
  rw [readdirFill]
  by_cases hpath : call.pathErr = 0
  case neg =>
      exact ⟨call.pathErr, dh.rewound, if_pos hpath, ⟨hok.len_le, hok.size_lt⟩,
        .inr ⟨hpath, .inr ⟨rfl, hpath⟩, rfl⟩⟩
  case pos =>
  obtain ⟨dh', hrun, hdone⟩ := hrun
  rw [if_neg (not_not.mpr hpath), show runFill conf call { dh.rewound with
    len := 0, error := 0, needlen := call.size, filled := true } call.fs = some (0, dh') from hrun]
  rcases hdone with ⟨hok', herr, hP⟩ | ⟨hok', herr, hmem⟩
  · refine ⟨0, dh', ?_, hok', .inl ⟨rfl, hpath, hP⟩⟩
    simp [herr]
  · refine ⟨-eNoMem, { dh' with filled := false }, ?_, ⟨hok'.len_le, hok'.size_lt⟩,
      .inr ⟨?_, .inl ⟨rfl, hmem⟩, rfl⟩⟩
    · simp [herr, eNoMem]
    · unfold eNoMem
      omega

/-- A reply that there is under a condition only. -/
theorem served_of_guard {c : Prop} [Decidable c] {buf : List UInt8}
    {reply : Except Int (List UInt8)} {dh' : FuseDh}
    (h : (if c then some buf else none).map (fun buf => (Except.ok buf, dh)) = some (reply, dh')) :
    c ∧ .ok buf = reply ∧ dh = dh' := by
  split at h
  case isTrue hc => simpa [hc] using h
  case isFalse => cases h

/-- What a handle is while the entries have no offsets. -/
def HoldsStream (dh : FuseDh) (state : Option (List UInt8)) : Prop :=
  dh.Ok ∧ match state with
    | none => dh.filled = false
    | some stream => dh.filled = true ∧ dh.len = stream.length ∧ dh.contents.read 0 dh.len = stream

/-- The handle serves reads as the specification without offsets says. -/
theorem plain_simulates (m : Mem) :
    Simulates (ReaddirStep conf) (PlainServes conf) PlainRead HoldsStream (fuseLibOpendir m) none where
  start := ⟨⟨le_rfl, Nat.two_pow_pos 32⟩, rfl⟩
  follow := by
    rintro dh state ⟨call, reply⟩ dh' ⟨hok, hstate⟩ ⟨es, hfs, hplain, hlt⟩ hserve
    have hserve : fuseLibReaddir conf call dh = some (reply, dh') := hserve
    by_cases hasks : Asks call (state = none)
    case pos =>
        have hasks' : call.off = 0 ∨ dh.filled = false := hasks.imp_right fun hnone => by
          rw [hnone] at hstate
          exact hstate
        have hstart : (dh.started call.size).Ok := ⟨Nat.zero_le _, hok.size_lt⟩
        have hlt' : (dh.started call.size).len + fillSizes es < 2 ^ 32 := by
          rw [show (dh.started call.size).len = 0 from rfl, Nat.zero_add]
          exact hlt
        obtain ⟨dh₁, hrun, hfilled, hdone⟩ := runFill_plain conf call hstart hplain hlt'
        rw [← hfs] at hrun
        obtain ⟨err, dh₂, hfill, hok₂, hresult⟩ := readdirFill_spec conf hok (P := fun dh₁ =>
            HoldsStream dh₁ (some (plainStream conf call.lookupNode 0 es)))
          ⟨dh₁, hrun, hdone.imp_left fun happ => ⟨happ.toOk, happ.error, happ.toOk, hfilled, by
            simpa [FuseDh.started] using happ.len, happ.read⟩⟩
        rw [fuseLibReaddir_of_refill conf (refill_asks conf hasks' ▸ hfill)] at hserve
        rcases hresult with ⟨rfl, hpath, hholds⟩ | ⟨hne, herr, hempty⟩
        · obtain ⟨-, hfilled₂, hlen₂, hread₂⟩ := hholds
          rw [if_neg (not_not.mpr rfl), reply_filled hok₂ hfilled₂ _ hlen₂ hread₂] at hserve
          obtain ⟨hoff, rfl, rfl⟩ := served_of_guard hserve
          exact ⟨_, .filled hasks hfs hpath hoff, hok₂, hfilled₂, hlen₂, hread₂⟩
        · rw [if_pos hne, Option.some.injEq, Prod.mk.injEq] at hserve
          obtain ⟨rfl, rfl⟩ := hserve
          exact ⟨none, .failed hasks herr, hok₂, hempty⟩
    case neg =>
        obtain ⟨hoff, hsome⟩ := not_or.mp hasks
        obtain ⟨stream, rfl⟩ := Option.ne_none_iff_exists'.mp hsome
        obtain ⟨hfilled, hlen, hread⟩ := hstate
        rw [fuseLibReaddir_of_refill conf (refill_kept conf hoff hfilled),
          if_neg (not_not.mpr rfl), reply_filled hok hfilled _ hlen hread] at hserve
        obtain ⟨hpos, rfl, rfl⟩ := served_of_guard hserve
        exact ⟨some stream, .kept (lt_of_le_of_ne hpos (Ne.symm hoff)), hok, hfilled, hlen, hread⟩

/-- What a handle is while the entries have offsets. -/
structure KnowsEnd (dh : FuseDh) (ended : Bool) : Prop extends dh.Ok where
  filled : dh.filled = ended
  empty : ended = true → dh.len = 0

/-- The handle serves reads as the specification with offsets says. -/
theorem offset_simulates (m : Mem) :
    Simulates (ReaddirStep conf) (OffsetServes conf) OffsetRead KnowsEnd (fuseLibOpendir m) false where
  start := ⟨⟨le_rfl, Nat.two_pow_pos 32⟩, rfl, fun _ => rfl⟩
  follow := by
    rintro dh ended ⟨call, reply⟩ dh' hknows ⟨es, hfs, hoffsets⟩ hserve
    have hserve : fuseLibReaddir conf call dh = some (reply, dh') := hserve
    have hok := hknows.toOk
    by_cases hasks : Asks call (ended = false)
    case pos =>
        have hasks' : call.off = 0 ∨ dh.filled = false :=
          hasks.imp_right fun hended => hknows.filled.trans hended
        have hstart : (dh.started call.size).Ok := ⟨Nat.zero_le _, hok.size_lt⟩
        obtain ⟨dh₁, hrun, hdone⟩ := runFill_offset conf call hstart hoffsets
          (Nat.zero_le _) call.size_lt
        rw [← hfs] at hrun
        obtain ⟨err, dh₂, hfill, hok₂, hresult⟩ := readdirFill_spec conf hok (P := fun dh₁ =>
            dh₁.len = fillSizes (roomFor call.size es) ∧ dh₁.contents.read 0 dh₁.len =
              offsetStream conf call.lookupNode (roomFor call.size es) ∧ dh₁.filled = es.isEmpty)
          ⟨dh₁, hrun, hdone.imp_left fun ⟨happ, hfilled⟩ => ⟨happ.toOk, happ.error, by
            simpa [FuseDh.started] using happ.len, happ.read, by
            simpa [FuseDh.started] using hfilled⟩⟩
        rw [fuseLibReaddir_of_refill conf (refill_asks conf hasks' ▸ hfill)] at hserve
        rcases hresult with ⟨rfl, hpath, hlen₂, hread₂, hfilled₂⟩ | ⟨hne, herr, hempty⟩
        · have hreply : dh₂.reply (dh₂.replyRange call).1 (dh₂.replyRange call).2 =
              if es = [] → 0 ≤ call.off then
                some (offsetStream conf call.lookupNode (roomFor call.size es))
              else none := by
            cases es with
            | nil =>
                rw [reply_filled hok₂ hfilled₂ [] hlen₂ hread₂, List.drop_nil, List.take_nil]
                simp only [true_imp_iff]
                rfl
            | cons e rest => rw [reply_not_filled hok₂ hfilled₂, hread₂, if_pos (by simp)]
          rw [if_neg (not_not.mpr rfl), hreply] at hserve
          obtain ⟨hoff, rfl, rfl⟩ := served_of_guard hserve
          refine ⟨es.isEmpty, .filled hasks hfs hpath hoff, hok₂, hfilled₂, fun hend => ?_⟩
          rw [hlen₂, List.isEmpty_iff.mp hend]
          rfl
        · rw [if_pos hne, Option.some.injEq, Prod.mk.injEq] at hserve
          obtain ⟨rfl, rfl⟩ := hserve
          exact ⟨false, .failed hasks herr, hok₂, hempty, by simp⟩
    case neg =>
        obtain ⟨hoff, hended⟩ := not_or.mp hasks
        obtain rfl : ended = true := by simpa using hended
        rw [fuseLibReaddir_of_refill conf (refill_kept conf hoff hknows.filled),
          if_neg (not_not.mpr rfl), reply_filled hok hknows.filled []
            (hknows.empty rfl) (by rw [hknows.empty rfl, Mem.read_zero_length]),
          List.drop_nil, List.take_nil] at hserve
        obtain ⟨hpos, rfl, rfl⟩ := served_of_guard hserve
        exact ⟨true, .ended (lt_of_le_of_ne hpos (Ne.symm hoff)), hknows⟩

end Refinement

-- ============================================================================
-- Runs
-- ============================================================================

section Runs

variable {conf : InoConfig} {m : Mem} {tr : List (FuseDh × DirRead)} {dh : FuseDh}

/-- Whatever is read of a directory whose entries have no offsets, the replies
    are those of the specification. -/
theorem readdir_plain (hrun : Run (ReaddirStep conf) (fuseLibOpendir m) tr dh)
    (hreads : ∀ read ∈ labels tr, PlainRead read) :
    ∃ tr' state, Run (PlainServes conf) none tr' state ∧ labels tr' = labels tr := by
  obtain ⟨tr', state, hspec, -, hlabels⟩ := (plain_simulates conf m).run hrun hreads
  exact ⟨tr', state, hspec, hlabels⟩

theorem readdir_plain_letter :
    ∃ reply tr' state, Run (PlainServes ⟨false, false⟩) none tr' state ∧
      labels tr' = [(readLetter 0, reply)] := by
  obtain ⟨reply, dh, hserve⟩ := readLetter_step 0
  refine ⟨reply, readdir_plain (Run.snoc .nil hserve) fun read hread => ?_⟩
  rw [List.mem_singleton.mp hread]
  exact ⟨_, rfl, by simp, by decide⟩

/-- Whatever is read of a directory whose entries have offsets, the replies are
    those of the specification. -/
theorem readdir_offset (hrun : Run (ReaddirStep conf) (fuseLibOpendir m) tr dh)
    (hreads : ∀ read ∈ labels tr, OffsetRead read) :
    ∃ tr' ended, Run (OffsetServes conf) false tr' ended ∧ labels tr' = labels tr := by
  obtain ⟨tr', ended, hspec, -, hlabels⟩ := (offset_simulates conf m).run hrun hreads
  exact ⟨tr', ended, hspec, hlabels⟩

theorem readdir_offset_letter :
    ∃ reply tr' ended, Run (OffsetServes ⟨false, false⟩) false tr' ended ∧
      labels tr' = [(readLetter 7, reply)] := by
  obtain ⟨reply, dh, hserve⟩ := readLetter_step 7
  refine ⟨reply, readdir_offset (Run.snoc .nil hserve) fun read hread => ?_⟩
  rw [List.mem_singleton.mp hread]
  exact ⟨_, rfl, by simp⟩

end Runs

end FuseNt
