/-
  FuseNt.Module.DirHandle

  The directory handles of the module library (fuse.c).  A file system gives
  the entries of a directory to `fill_dir`, which keeps them in the contents of
  the handle as the stream that `READDIR` returns.

  A file system passes an offset of 0 with every entry, and the whole stream is
  kept for the reads that follow; or it passes the offset that a read has to
  begin at to go on behind the entry, and every read asks it again.

  The offsets within the contents are of the 32 bit type `unsigned`, the lengths
  that are passed around of type `size_t`.  The result `none` stands for an
  access outside the contents.
-/

import FuseNt.Lib.Simulation
import FuseNt.Module.DirSafety
import FuseNt.Module.Nodes

namespace FuseNt

open FuseNt.Lib

-- ============================================================================
-- struct fuse_dh
-- ============================================================================

def eNoMem : Int := 12

/-- What `struct fuse_config` has to say about the numbers of directory entries. -/
structure InoConfig where
  useIno : Bool
  readdirIno : Bool

/-- `struct fuse_dh`.  The contents are a block of `size` bytes, and NULL if
    there are none; the bytes behind stand for what fresh memory holds. -/
structure FuseDh where
  contents : Mem
  len : Nat
  size : Nat
  needlen : Nat
  filled : Bool
  error : Int

/-- The handle that `fuse_lib_opendir` makes. -/
def fuseLibOpendir (contents : Mem) : FuseDh := ⟨contents, 0, 0, 0, false, 0⟩

/-- The loop of `extend_contents`. -/
def growSize : Nat → Nat → Nat → Option Nat
  | 0, _, _ => none
  | fuel + 1, newsize, minsize =>
      if newsize < minsize then
        growSize fuel (if 0x80000000 ≤ newsize then 0xffffffff else newsize * 2) minsize
      else some newsize

/-- `extend_contents`, and whether it returns 0.  `realloc` says whether there is
    a block of some size.  The loop takes 32 rounds at most. -/
def extendContents (realloc : Nat → Bool) (dh : FuseDh) (minsize : Nat) : Option (Bool × FuseDh) :=
  if dh.size < minsize then
    (growSize 33 (if dh.size = 0 then 1024 else dh.size) minsize).map fun newsize =>
      if realloc newsize then (true, { dh with size := newsize })
      else (false, { dh with error := -eNoMem })
  else some (true, dh)

/-- The record of an entry. -/
def direntBytes (name : FileName) (stbuf : FileStat) (off : Nat) : List UInt8 :=
  leBytes 8 stbuf.ino ++ leBytes 8 off ++ leBytes 4 name.length ++
    leBytes 4 ((stbuf.mode &&& 0o170000) >>> 12) ++ name ++
    List.replicate (fuseDirentSize name.length - (fuseNameOffset + name.length)) 0

/-- `fuse_add_direntry` to the offset `p` of the contents, which have `bufsize`
    bytes there. -/
def fuseAddDirentry (dh : FuseDh) (p bufsize : Nat) (name : FileName) (stbuf : FileStat)
    (off : Nat) : Option FuseDh :=
  if fuseDirentSize name.length ≤ bufsize ∧ dh.size ≠ 0 then
    if p + fuseDirentSize name.length ≤ dh.size then
      some { dh with contents := (fuseAddDirent dh.contents p name stbuf off).1 }
    else none
  else some dh

/-- The entry's `struct stat` as `fill_dir` has it; `lookupNode` finds the node
    id of a name in this directory. -/
def entryStat (conf : InoConfig) (lookupNode : FileName → Option Nat) (name : FileName)
    (statp : Option FileStat) : FileStat :=
  let stbuf := statp.getD ⟨fuseUnknownIno, 0⟩
  if conf.useIno then stbuf
  else if conf.readdirIno then { stbuf with ino := (lookupNode name).getD fuseUnknownIno }
  else { stbuf with ino := fuseUnknownIno }

/-- A difference of the type `unsigned`. -/
def subUnsigned (a b : Nat) : Nat := (a + 2 ^ 32 - b) % 2 ^ 32

/-- `fill_dir`, and whether it returns 1. -/
def fillDir (realloc : Nat → Bool) (dh : FuseDh) (name : FileName) (stbuf : FileStat) (off : Nat) :
    Option (Bool × FuseDh) :=
  if off ≠ 0 then do
    let (ok, dh) ← extendContents realloc dh dh.needlen
    if ok then
      let dh := { dh with filled := false }
      let newlen := dh.len + fuseDirentSize name.length
      let dh ← fuseAddDirentry dh dh.len (subUnsigned dh.needlen dh.len) name stbuf off
      return if dh.needlen < newlen then (true, dh) else (false, { dh with len := newlen % 2 ^ 32 })
    else return (true, dh)
  else do
    let newlen := dh.len + fuseDirentSize name.length
    let (ok, dh) ← extendContents realloc dh (newlen % 2 ^ 32)
    if ok then
      let dh ← fuseAddDirentry dh dh.len (subUnsigned dh.size dh.len) name stbuf newlen
      return (false, { dh with len := newlen % 2 ^ 32 })
    else return (true, dh)

/-- What a file system does when it is to fill a directory: it returns, or it
    calls `filler` with an entry and goes on as it likes. -/
inductive DirFill where
  | ret (res : Int)
  | fill (name : FileName) (statp : Option FileStat) (off : Nat) (next : Bool → DirFill)

/-- The arguments of a call of `filler`. -/
structure FillArgs where
  name : FileName
  statp : Option FileStat
  off : Nat

/-- A file system that passes on entries until `filler` returns 1. -/
def fillAll : List FillArgs → DirFill
  | [] => .ret 0
  | e :: rest => .fill e.name e.statp e.off fun full => if full then .ret 0 else fillAll rest

/-- A request of `READDIR`: its arguments, the result of `get_path`, the nodes
    and the memory there are, and what the file system does.  The offset is of
    the signed type `off_t`. -/
structure ReaddirCall where
  size : Nat
  off : Int
  pathErr : Int
  lookupNode : FileName → Option Nat
  realloc : Nat → Bool
  fs : DirFill
  size_lt : size < 2 ^ 32
  le_off : -(2 ^ 63) ≤ off

/-- `fuse_fs_readdir` with `fill_dir`. -/
def runFill (conf : InoConfig) (call : ReaddirCall) (dh : FuseDh) : DirFill → Option (Int × FuseDh)
  | .ret res => some (res, dh)
  | .fill name statp off next =>
      match fillDir call.realloc dh name (entryStat conf call.lookupNode name statp) off with
      | none => none
      | some (full, dh) => runFill conf call dh (next full)

/-- `readdir_fill`. -/
def readdirFill (conf : InoConfig) (call : ReaddirCall) (dh : FuseDh) : Option (Int × FuseDh) :=
  if call.pathErr ≠ 0 then some (call.pathErr, dh)
  else
    (runFill conf call { dh with len := 0, error := 0, needlen := call.size, filled := true }
        call.fs).map fun (err, dh) =>
      let err := if err = 0 then dh.error else err
      (err, if err ≠ 0 then { dh with filled := false } else dh)

/-- `fuse_reply_buf` with `size` bytes of the contents. -/
def FuseDh.reply (dh : FuseDh) (off : Int) (size : Nat) : Option (List UInt8) :=
  if size = 0 ∨ (0 ≤ off ∧ off + size ≤ dh.size) then some (dh.contents.read off.toNat size)
  else none

/-- The part of the contents that a read is for.  The end of the read is a
    `size_t`, so that it wraps around for a negative offset. -/
def FuseDh.replyRange (dh : FuseDh) (call : ReaddirCall) : Int × Nat :=
  if dh.filled then
    if call.off < dh.len then
      (call.off, if dh.len < (call.off + call.size) % 2 ^ 64 then (dh.len - call.off).toNat
        else call.size)
    else (call.off, 0)
  else (0, dh.len)

/-- The first half of `fuse_lib_readdir`. -/
def FuseDh.refill (conf : InoConfig) (call : ReaddirCall) (dh : FuseDh) : Option (Int × FuseDh) :=
  let dh := if call.off = 0 then { dh with filled := false } else dh
  if dh.filled then some (0, dh) else readdirFill conf call dh

/-- `fuse_lib_readdir`: the reply, and the handle. -/
def fuseLibReaddir (conf : InoConfig) (call : ReaddirCall) (dh : FuseDh) :
    Option (Except Int (List UInt8) × FuseDh) := do
  let (err, dh) ← dh.refill conf call
  if err ≠ 0 then return (.error err, dh)
  else
    let (off, size) := dh.replyRange call
    let buf ← dh.reply off size
    return (.ok buf, dh)

-- ============================================================================
-- Records
-- ============================================================================

section Records

variable {name : FileName} {stbuf : FileStat} {off : Nat}

theorem fuseDirentSize_ge (n : Nat) : fuseNameOffset + n ≤ fuseDirentSize n := by
  simp only [fuseDirentSize, fuseNameOffset]
  omega

@[simp] theorem length_direntBytes : (direntBytes name stbuf off).length =
    fuseDirentSize name.length := by
  have := fuseDirentSize_ge name.length
  simp only [direntBytes, List.length_append, length_leBytes, List.length_replicate]
  unfold fuseNameOffset at *
  omega

/-- A record is written in one piece. -/
theorem fuseAddDirent_eq_write (m : Mem) (p : Nat) :
    (fuseAddDirent m p name stbuf off).1 = m.write p (direntBytes name stbuf off) := by
  have hwrites : m.writes [(p, leBytes 8 stbuf.ino), (p + 8, leBytes 8 off),
      (p + 16, leBytes 4 name.length), (p + 20, leBytes 4 ((stbuf.mode &&& 0o170000) >>> 12)),
      (p + fuseNameOffset, name)] = m.write p (leBytes 8 stbuf.ino ++ leBytes 8 off ++
        leBytes 4 name.length ++ leBytes 4 ((stbuf.mode &&& 0o170000) >>> 12) ++ name) := by
    simp only [← Mem.write_append, Mem.writes, List.length_append, length_leBytes]
    rfl
  have hpad : p + (fuseNameOffset + name.length) = p + (leBytes 8 stbuf.ino ++ leBytes 8 off ++
      leBytes 4 name.length ++ leBytes 4 ((stbuf.mode &&& 0o170000) >>> 12) ++ name).length := by
    simp only [List.length_append, length_leBytes]
    rfl
  simp only [fuseAddDirent, hwrites]
  split
  case isTrue => rw [Mem.zero_eq_write, hpad, Mem.write_append, direntBytes]
  case isFalse hzero => rw [direntBytes, not_not.mp hzero, List.replicate_zero, List.append_nil]

end Records

-- ============================================================================
-- Room for an entry
-- ============================================================================

/-- The entries are within the contents. -/
structure FuseDh.Ok (dh : FuseDh) : Prop where
  len_le : dh.len ≤ dh.size
  size_lt : dh.size < 2 ^ 32

/-- The loop doubles the size until it is enough. -/
theorem growSize_spec {fuel newsize minsize : Nat} (hfuel : minsize ≤ newsize * 2 ^ fuel)
    (hnew : newsize < 2 ^ 32) (hmin : minsize < 2 ^ 32) :
    ∃ size, growSize (fuel + 1) newsize minsize = some size ∧ minsize ≤ size ∧ newsize ≤ size ∧
      size < 2 ^ 32 := by
  induction fuel generalizing newsize with
  | zero =>
      rw [pow_zero, Nat.mul_one] at hfuel
      exact ⟨newsize, by rw [growSize, if_neg (by omega)], hfuel, le_rfl, hnew⟩
  | succ fuel ih =>
      rw [growSize]
      by_cases hless : newsize < minsize
      case neg => exact ⟨newsize, if_neg hless, not_lt.mp hless, le_rfl, hnew⟩
      case pos =>
      rw [if_pos hless]
      by_cases hbig : 0x80000000 ≤ newsize
      case pos =>
          rw [if_pos hbig]
          have hpos : 0 < 2 ^ fuel := Nat.two_pow_pos fuel
          obtain ⟨size, hgrow, hsize⟩ := @ih 0xffffffff
            (le_trans (by omega) (Nat.le_mul_of_pos_right _ hpos)) (by omega)
          exact ⟨size, hgrow, hsize.1, by omega, hsize.2.2⟩
      case neg =>
          rw [if_neg hbig]
          obtain ⟨size, hgrow, hsize⟩ := @ih (newsize * 2)
            (by rw [Nat.mul_assoc, ← Nat.pow_succ']; exact hfuel) (by omega)
          exact ⟨size, hgrow, hsize.1, by omega, hsize.2.2⟩

section Fill

variable (realloc : Nat → Bool) {dh : FuseDh} (name : FileName) (stbuf : FileStat) {off : Nat}

/-- There is room afterwards, or `extend_contents` has set the error. -/
theorem extendContents_spec (hok : dh.Ok) {minsize : Nat} (hmin : minsize < 2 ^ 32) :
    (∃ size, extendContents realloc dh minsize = some (true, { dh with size := size }) ∧
      minsize ≤ size ∧ dh.size ≤ size ∧ size < 2 ^ 32) ∨
    extendContents realloc dh minsize = some (false, { dh with error := -eNoMem }) ∧
      ∃ size, realloc size = false := by
  have hsize := hok.size_lt
  by_cases hless : dh.size < minsize
  case neg => exact .inl ⟨dh.size, by rw [extendContents, if_neg hless], not_lt.mp hless, le_rfl, hsize⟩
  case pos =>
  have hstart : ∃ start, (if dh.size = 0 then 1024 else dh.size) = start ∧ 1 ≤ start ∧
      dh.size ≤ start ∧ start < 2 ^ 32 := by
    refine ⟨_, rfl, ?_⟩
    split <;> omega
  obtain ⟨start, hstart, hpos, hle, hlt⟩ := hstart
  obtain ⟨size, hgrow, henough, hge, hlt'⟩ :=
    @growSize_spec 32 start minsize (by omega) hlt hmin
  rw [extendContents, if_pos hless, hstart, hgrow, Option.map_some]
  cases hmem : realloc size with
  | true => exact .inl ⟨size, rfl, henough, hle.trans hge, hlt'⟩
  | false => exact .inr ⟨rfl, size, hmem⟩

/-- An entry without an offset: it is kept, or there is no memory. -/
theorem fillDir_plain (hok : dh.Ok) :
    (fillDir realloc dh name stbuf 0 = some (true, { dh with error := -eNoMem }) ∧
      ∃ size, realloc size = false) ∨
    ∃ size contents, fillDir realloc dh name stbuf 0 = some (false,
        { dh with
          size := size
          contents := contents
          len := (dh.len + fuseDirentSize name.length) % 2 ^ 32 }) ∧
      (dh.len + fuseDirentSize name.length) % 2 ^ 32 ≤ size ∧ size < 2 ^ 32 ∧
      (dh.len + fuseDirentSize name.length < 2 ^ 32 → contents = dh.contents.write dh.len
        (direntBytes name stbuf (dh.len + fuseDirentSize name.length))) := by
  have hlen := hok.len_le
  have hpos := fuseDirentSize_ge name.length
  simp only [fillDir, ne_eq, not_true_eq_false, if_false]
  have hlt : (dh.len + fuseDirentSize name.length) % 2 ^ 32 < 2 ^ 32 := Nat.mod_lt _ (by omega)
  rcases extendContents_spec realloc hok hlt with
    ⟨size, hext, hmin, hge, hlt⟩ | ⟨hext, hmem⟩
  · right
    have hsub : subUnsigned size dh.len = size - dh.len := by
      unfold subUnsigned
      omega
    rw [hext]
    simp only [Option.bind_eq_bind, Option.bind_some, if_true]
    rw [fuseAddDirentry, hsub]
    by_cases hfits : fuseDirentSize name.length ≤ size - dh.len ∧ size ≠ 0
    · rw [if_pos hfits, if_pos (by simp only; omega)]
      exact ⟨size, _, rfl, hmin, hlt, fun _ => fuseAddDirent_eq_write _ _⟩
    · rw [if_neg hfits]
      refine ⟨size, dh.contents, rfl, hmin, hlt, fun hsmall => absurd ?_ hfits⟩
      rw [Nat.mod_eq_of_lt hsmall] at hmin
      unfold fuseNameOffset at hpos
      omega
  · left
    rw [hext]
    exact ⟨rfl, hmem⟩

/-- An entry with an offset, where the contents are not longer than the read
    that they are for: it is kept if the read has room for it. -/
theorem fillDir_offset (hok : dh.Ok) (hoff : off ≠ 0) (hle : dh.len ≤ dh.needlen)
    (hneed : dh.needlen < 2 ^ 32) :
    (fillDir realloc dh name stbuf off = some (true, { dh with error := -eNoMem }) ∧
      ∃ size, realloc size = false) ∨
    ∃ size, dh.needlen ≤ size ∧ size < 2 ^ 32 ∧ fillDir realloc dh name stbuf off =
      if dh.needlen < dh.len + fuseDirentSize name.length then
        some (true, { dh with size := size, filled := false })
      else some (false,
        { dh with
          size := size
          filled := false
          contents := dh.contents.write dh.len (direntBytes name stbuf off)
          len := dh.len + fuseDirentSize name.length }) := by
  have hpos := fuseDirentSize_ge name.length
  simp only [fillDir, ne_eq, hoff, not_false_eq_true, if_true]
  rcases extendContents_spec realloc hok hneed with
    ⟨size, hext, hmin, hge, hlt⟩ | ⟨hext, hmem⟩
  · right
    refine ⟨size, hmin, hlt, ?_⟩
    have hsub : subUnsigned dh.needlen dh.len = dh.needlen - dh.len := by
      unfold subUnsigned
      omega
    rw [hext]
    simp only [Option.bind_eq_bind, Option.bind_some, if_true]
    rw [fuseAddDirentry, hsub]
    by_cases hfull : dh.needlen < dh.len + fuseDirentSize name.length
    · rw [if_neg (by omega), if_pos hfull]
      simp only [Option.bind_some, hfull, if_true]
      rfl
    · unfold fuseNameOffset at hpos
      rw [if_pos ⟨by omega, by simp only; omega⟩, if_pos (by simp only; omega), if_neg hfull]
      simp only [Option.bind_some, hfull, if_false]
      rw [Nat.mod_eq_of_lt (by omega), fuseAddDirent_eq_write]
      rfl
  · left
    rw [hext]
    exact ⟨rfl, hmem⟩

end Fill

-- ============================================================================
-- Accesses
-- ============================================================================

/-- Either all the entries have offsets, or none has. -/
def DirFill.Only (plain : Bool) : DirFill → Prop
  | .ret _ => True
  | .fill _ _ off next => (off = 0 ↔ plain = true) ∧ ∀ full, (next full).Only plain

/-- A file system keeps to one of the two ways. -/
def DirFill.Unmixed (t : DirFill) : Prop := ∃ plain, t.Only plain

/-- What `fill_dir` keeps of the handle while a read is served.  With offsets
    the contents do not get longer than the read. -/
structure FuseDh.Filling (plain : Bool) (size : Nat) (dh : FuseDh) : Prop extends dh.Ok where
  needlen : dh.needlen = size
  filled : plain = true → dh.filled = true
  offset : plain = false → dh.len ≤ size ∧ (dh.filled = true → dh.len = 0)

/-- The rest of the handle that is left when a file system returns. -/
theorem runFill_filling (conf : InoConfig) (call : ReaddirCall) {plain : Bool} {dh : FuseDh}
    (h : dh.Filling plain call.size) {t : DirFill} (ht : t.Only plain) :
    ∃ res dh', runFill conf call dh t = some (res, dh') ∧ dh'.Filling plain call.size := by
  induction t generalizing dh with
  | ret res => exact ⟨res, dh, rfl, h⟩
  | fill name statp off next ih =>
      have hstep : ∃ full dh', fillDir call.realloc dh name
          (entryStat conf call.lookupNode name statp) off = some (full, dh') ∧
          dh'.Filling plain call.size := by
        have hneed : dh.needlen < 2 ^ 32 := h.needlen ▸ call.size_lt
        cases plain with
        | true =>
            obtain rfl : off = 0 := ht.1.mpr rfl
            rcases fillDir_plain call.realloc name
              (entryStat conf call.lookupNode name statp) h.toOk with
              ⟨hfull, -⟩ | ⟨size, contents, hkept, hlen, hlt, -⟩
            · exact ⟨_, _, hfull, ⟨h.len_le, h.size_lt⟩, h.needlen, h.filled, h.offset⟩
            · exact ⟨_, _, hkept, ⟨hlen, hlt⟩, h.needlen, h.filled, by simp⟩
        | false =>
            have hoff : off ≠ 0 := fun h0 => Bool.noConfusion (ht.1.mp h0)
            have hle : dh.len ≤ dh.needlen := h.needlen ▸ (h.offset rfl).1
            rcases fillDir_offset call.realloc name
              (entryStat conf call.lookupNode name statp) h.toOk hoff hle hneed with
              ⟨hfull, -⟩ | ⟨size, hmin, hlt, hkept⟩
            · exact ⟨_, _, hfull, ⟨h.len_le, h.size_lt⟩, h.needlen, h.filled, h.offset⟩
            · split at hkept
              case isTrue =>
                  exact ⟨_, _, hkept, ⟨hle.trans hmin, hlt⟩, h.needlen, by simp,
                    fun _ => ⟨(h.offset rfl).1, by simp⟩⟩
              case isFalse hroom =>
                  have hroom := not_lt.mp hroom
                  exact ⟨_, _, hkept, ⟨hroom.trans hmin, hlt⟩, h.needlen, by simp,
                    fun _ => ⟨h.needlen ▸ hroom, by simp⟩⟩
      obtain ⟨full, dh', hfill, hfilling⟩ := hstep
      rw [runFill, hfill]
      exact ih full hfilling (ht.2 full)

theorem readdirFill_ok (conf : InoConfig) {call : ReaddirCall} {dh : FuseDh} (h : dh.Ok)
    {plain : Bool} (hfs : call.fs.Only plain) :
    ∃ err dh', readdirFill conf call dh = some (err, dh') ∧ dh'.Ok ∧
      (err = 0 → dh'.filled = false → dh'.len ≤ call.size) := by
  rw [readdirFill]
  by_cases hpath : call.pathErr = 0
  case neg =>
      refine ⟨call.pathErr, dh, if_pos hpath, h, fun h0 => absurd h0 hpath⟩
  case pos =>
  have hstart : FuseDh.Filling plain call.size
      { dh with len := 0, error := 0, needlen := call.size, filled := true } :=
    ⟨⟨Nat.zero_le _, h.size_lt⟩, rfl, fun _ => rfl, fun _ => ⟨Nat.zero_le _, fun _ => rfl⟩⟩
  obtain ⟨res, dh', hrun, hfilling⟩ := runFill_filling conf call hstart hfs
  rw [if_neg (not_not.mpr hpath), hrun, Option.map_some]
  dsimp only
  generalize (if res = 0 then dh'.error else res) = err
  by_cases herr : err = 0
  case neg =>
      rw [if_pos herr]
      exact ⟨_, _, rfl, ⟨hfilling.len_le, hfilling.size_lt⟩, fun h0 => absurd h0 herr⟩
  case pos =>
      rw [if_neg (not_not.mpr herr)]
      refine ⟨_, _, rfl, hfilling.toOk, fun _ hfilled => ?_⟩
      cases plain with
      | true =>
          rw [hfilling.filled rfl] at hfilled
          cases hfilled
      | false => exact (hfilling.offset rfl).1

/-- A read of a handle that is filled, or that is to be replied in whole: the
    offset is not in front of the contents. -/
def FuseDh.AtOrBehind (dh : FuseDh) (call : ReaddirCall) : Prop :=
  dh.filled = true → 0 ≤ call.off

/-- The part that is replied is within the contents and not longer than what
    was asked for. -/
theorem FuseDh.reply_ok {dh : FuseDh} {call : ReaddirCall} (h : dh.Ok)
    (hshort : dh.filled = false → dh.len ≤ call.size) (hoff : dh.AtOrBehind call) :
    ∃ buf, dh.reply (dh.replyRange call).1 (dh.replyRange call).2 = some buf ∧
      buf.length ≤ call.size := by
  have hlen := h.len_le
  have hlt := h.size_lt
  have hsize := call.size_lt
  have hrange : ((dh.replyRange call).2 = 0 ∨
      (0 ≤ (dh.replyRange call).1 ∧ (dh.replyRange call).1 + (dh.replyRange call).2 ≤ dh.len)) ∧
      (dh.replyRange call).2 ≤ call.size := by
    rw [FuseDh.replyRange]
    cases hfilled : dh.filled with
    | false => exact ⟨.inr (by simp), by simpa using hshort hfilled⟩
    | true =>
        have hpos := hoff hfilled
        rw [if_pos rfl]
        split
        next hin =>
          rw [Int.emod_eq_of_lt (by omega) (by omega)]
          split <;> simp only <;> omega
        next => exact ⟨.inl rfl, Nat.zero_le _⟩
  refine ⟨_, if_pos (hrange.1.imp_right fun ⟨h0, hin⟩ => ⟨h0, by omega⟩), ?_⟩
  rw [Mem.length_read]
  exact hrange.2

/-- In front of the contents of a filled handle at least one byte is read. -/
theorem FuseDh.reply_before {dh : FuseDh} {call : ReaddirCall} (h : dh.Ok)
    (hfilled : dh.filled = true) (hoff : call.off < 0) :
    dh.reply (dh.replyRange call).1 (dh.replyRange call).2 = none := by
  have hlen := h.len_le
  have hlt := h.size_lt
  have hlow := call.le_off
  have hpos : (dh.replyRange call).1 = call.off ∧ (dh.replyRange call).2 ≠ 0 := by
    rw [FuseDh.replyRange, if_pos hfilled, if_pos (by omega)]
    refine ⟨rfl, ?_⟩
    by_cases hzero : call.size = 0
    · -- a read of nothing ends where it begins, which as a `size_t` is behind everything
      rw [hzero, Int.natCast_zero, Int.add_zero, if_pos (by omega)]
      simp only
      omega
    · split <;> simp only <;> omega
  rw [FuseDh.reply, if_neg]
  omega

/-- The handle after the refill, and when the read that follows stays within
    the contents. -/
theorem fuseLibReaddir_spec (conf : InoConfig) {call : ReaddirCall} {dh : FuseDh} (h : dh.Ok)
    (hfs : call.fs.Unmixed) :
    ∃ err dh', dh.refill conf call = some (err, dh') ∧ dh'.Ok ∧
      ((err = 0 → dh'.AtOrBehind call) → ∃ reply, fuseLibReaddir conf call dh = some (reply, dh') ∧
        ∀ buf, reply = .ok buf → buf.length ≤ call.size) ∧
      (¬ (err = 0 → dh'.AtOrBehind call) → fuseLibReaddir conf call dh = none) := by
  obtain ⟨plain, hfs⟩ := hfs
  have hfill : ∃ err dh', dh.refill conf call = some (err, dh') ∧ dh'.Ok ∧
      (err = 0 → dh'.filled = false → dh'.len ≤ call.size) := by
    have hrewound : (if call.off = 0 then { dh with filled := false } else dh).Ok := by
      split
      case isTrue => exact ⟨h.len_le, h.size_lt⟩
      case isFalse => exact h
    rw [FuseDh.refill]
    generalize (if call.off = 0 then { dh with filled := false } else dh) = dh at hrewound
    cases hfilled : dh.filled with
    | false => exact readdirFill_ok conf hrewound hfs
    | true => exact ⟨0, dh, rfl, hrewound, fun _ h0 => by rw [hfilled] at h0; cases h0⟩
  obtain ⟨err, dh', hfill, hok, hshort⟩ := hfill
  refine ⟨err, dh', hfill, hok, fun hoff => ?_, fun hoff => ?_⟩
  · rw [fuseLibReaddir, hfill]
    by_cases herr : err = 0
    case neg => exact ⟨.error err, by simp [herr], fun _ h => by cases h⟩
    case pos =>
        obtain ⟨buf, hbuf, hsize⟩ := FuseDh.reply_ok hok (hshort herr) (hoff herr)
        refine ⟨.ok buf, by simp [herr, hbuf], fun b hb => ?_⟩
        cases hb
        exact hsize
  · obtain ⟨rfl, hfront⟩ := Classical.not_imp.mp hoff
    obtain ⟨hfilled, hneg⟩ := Classical.not_imp.mp hfront
    rw [fuseLibReaddir, hfill]
    simp [FuseDh.reply_before hok hfilled (not_le.mp hneg)]

/-- A read that begins in the contents is served without an access outside. -/
theorem fuseLibReaddir_ok (conf : InoConfig) {call : ReaddirCall} {dh : FuseDh} (h : dh.Ok)
    (hfs : call.fs.Unmixed) (hoff : 0 ≤ call.off) :
    ∃ reply dh', fuseLibReaddir conf call dh = some (reply, dh') ∧ dh'.Ok ∧
      ∀ buf, reply = .ok buf → buf.length ≤ call.size := by
  obtain ⟨err, dh', -, hok, hserve, -⟩ := fuseLibReaddir_spec conf h hfs
  obtain ⟨reply, hreply, hsize⟩ := hserve fun _ _ => hoff
  exact ⟨reply, dh', hreply, hok, hsize⟩

-- ============================================================================
-- Runs
-- ============================================================================

/-- A read of a directory that is open, with its reply. -/
def ReaddirStep (conf : InoConfig) (dh : FuseDh) (read : ReaddirCall × Except Int (List UInt8))
    (dh' : FuseDh) : Prop :=
  fuseLibReaddir conf read.1 dh = some (read.2, dh')

theorem ReaddirStep.ok {conf : InoConfig} {dh dh' : FuseDh}
    {read : ReaddirCall × Except Int (List UInt8)} (h : dh.Ok) (hfs : read.1.fs.Unmixed)
    (hs : ReaddirStep conf dh read dh') : dh'.Ok := by
  obtain ⟨err, dh₁, -, hok, hserve, hnone⟩ := fuseLibReaddir_spec conf h hfs
  have hs : fuseLibReaddir conf read.1 dh = some (read.2, dh') := hs
  by_cases hoff : err = 0 → dh₁.AtOrBehind read.1
  · obtain ⟨reply, hreply, -⟩ := hserve hoff
    rw [hs, Option.some.injEq, Prod.mk.injEq] at hreply
    exact hreply.2 ▸ hok
  · rw [hnone hoff] at hs
    cases hs

/-- However a directory is read, whatever it holds and however much memory there
    is, filling the handle does not access bytes outside the contents, if each
    time it is asked the file system gives all its entries with offsets or all
    without.  The reply stays within them, and is not longer than what was asked
    for, unless the offset is negative and the handle is filled. -/
theorem readdir_in_bounds {conf : InoConfig} {m : Mem}
    {tr : List (FuseDh × ReaddirCall × Except Int (List UInt8))} {dh : FuseDh}
    (hrun : Run (ReaddirStep conf) (fuseLibOpendir m) tr dh)
    (hfs : ∀ x ∈ tr, x.2.1.fs.Unmixed) (call : ReaddirCall) (hcall : call.fs.Unmixed) :
    ∃ err dh', dh.refill conf call = some (err, dh') ∧
      ((∃ reply dh'', fuseLibReaddir conf call dh = some (reply, dh'') ∧
          ∀ buf, reply = .ok buf → buf.length ≤ call.size) ↔
        (err = 0 → dh'.filled = true → 0 ≤ call.off)) := by
  have hok : dh.Ok := by
    have hopened : (fuseLibOpendir m).Ok := ⟨le_rfl, Nat.two_pow_pos 32⟩
    exact Run.invariant hopened (fun _ _ _ hs hunmixed hserve => hserve.ok hs hunmixed) hrun hfs
  obtain ⟨err, dh', hfill, -, hserve, hnone⟩ := fuseLibReaddir_spec conf hok hcall
  refine ⟨err, dh', hfill, fun hserved => ?_, fun hoff => ?_⟩
  · by_contra hoff
    obtain ⟨reply, dh'', hreply, -⟩ := hserved
    rw [hnone hoff] at hreply
    cases hreply
  · obtain ⟨reply, hreply, hsize⟩ := hserve hoff
    exact ⟨reply, dh', hreply, hsize⟩

/-- A read of a directory with one file. -/
def readLetter (off : Nat) : ReaddirCall where
  size := 40
  off := 0
  pathErr := 0
  lookupNode := fun _ => none
  realloc := fun _ => true
  fs := fillAll [⟨[0x61], none, off⟩]
  size_lt := by omega
  le_off := by omega

theorem readLetter_unmixed (off : Nat) : (readLetter off).fs.Unmixed := by
  refine ⟨decide (off = 0), decide_eq_true_iff.symm, fun full => ?_⟩
  cases full <;> trivial

/-- It is served. -/
theorem readLetter_step (off : Nat) :
    ∃ reply dh, ReaddirStep ⟨false, false⟩ (fuseLibOpendir Mem.zeros) (readLetter off, reply) dh := by
  have hopened : (fuseLibOpendir Mem.zeros).Ok := ⟨le_rfl, Nat.two_pow_pos 32⟩
  obtain ⟨reply, dh, hserve, -⟩ :=
    fuseLibReaddir_ok ⟨false, false⟩ hopened (readLetter_unmixed off) le_rfl
  exact ⟨reply, dh, hserve⟩

/-- The same read at an offset of -1. -/
def readBefore (off : Nat) : ReaddirCall :=
  { readLetter off with
    off := -1
    le_off := by omega }

/-- After the directory was read, a read in front of its contents leaves them. -/
theorem readdir_in_bounds_letter :
    ∃ reply dh err dh', ReaddirStep ⟨false, false⟩ (fuseLibOpendir Mem.zeros) (readLetter 0, reply) dh ∧
      dh.refill ⟨false, false⟩ (readBefore 0) = some (err, dh') ∧
      ((∃ reply dh'', fuseLibReaddir ⟨false, false⟩ (readBefore 0) dh = some (reply, dh'') ∧
          ∀ buf, reply = .ok buf → buf.length ≤ 40) ↔
        (err = 0 → dh'.filled = true → (0 : Int) ≤ -1)) := by
  obtain ⟨reply, dh, hserve⟩ := readLetter_step 0
  obtain ⟨err, dh', hfill, hiff⟩ := readdir_in_bounds (Run.snoc .nil hserve)
    (by intro x hx; rw [List.mem_singleton.mp hx]; exact readLetter_unmixed 0) (readBefore 0)
    (readLetter_unmixed 0)
  exact ⟨reply, dh, err, dh', hserve, hfill, hiff⟩

end FuseNt
