/-
  FuseNt.Module.DirStream

  The two formats of a directory: the stream of `struct fuse_dirent` records
  that a file system returns for `READDIR`, written by `fuse_add_dirent`, and
  the chain of `FILE_DIRECTORY_INFORMATION` records that
  `fusent_do_buffer_dirlisting` compiles from it.

  A stream may be cut anywhere.  The loop reads the name length of a record
  before it knows that the record is whole, but only if the part before the name
  is, so that a cut is never taken for a bad name.

  `Taken` says which entries a cut stream and a listing buffer have room for;
  the loop takes the longest such list.
-/

import FuseNt.Lib.Utf
import FuseNt.Module.Handlers
import Mathlib.Order.Bounds.Basic

namespace FuseNt

open FuseNt.Lib

-- ============================================================================
-- fuse_add_dirent
-- ============================================================================

/-- `struct stat`, as far as a directory entry has it. -/
structure FileStat where
  ino : Nat
  mode : Nat

/-- `fuse_add_dirent`: the buffer, and the place behind the record.  `name` is
    the string up to its NUL. -/
def fuseAddDirent (m : Mem) (buf : Nat) (name : List UInt8) (stbuf : FileStat) (off : Nat) :
    Mem × Nat :=
  let namelen := name.length
  let entlen := fuseNameOffset + namelen
  let entsize := fuseDirentSize namelen
  let padlen := entsize - entlen
  let m := m.writes
    [(buf, leBytes 8 stbuf.ino), (buf + 8, leBytes 8 off), (buf + 16, leBytes 4 namelen),
      (buf + 20, leBytes 4 ((stbuf.mode &&& 0o170000) >>> 12)), (buf + fuseNameOffset, name)]
  (if padlen ≠ 0 then m.zero (buf + entlen) padlen else m, buf + entsize)

/-- An entry of a directory.  Its name is not empty, and has at most
    `FUSE_NAME_MAX` bytes in UTF-8. -/
structure DirEntry where
  text : List Char
  stat : FileStat
  off : Nat
  text_ne : text ≠ []
  length_le : (utf8 text).length ≤ fuseNameMax

namespace DirEntry

/-- The size of the record in the stream. -/
def size (e : DirEntry) : Nat := fuseDirentSize (utf8 e.text).length

/-- The name in UTF-16. -/
def name (e : DirEntry) : DirName where
  bytes := utf16le e.text
  two_le := two_le_length_utf16le e.text_ne
  length_le := by
    have hutf := length_utf16le_le e.text
    have hlen := e.length_le
    unfold fuseNameMax at hlen
    omega

theorem size_bounds (e : DirEntry) :
    fuseNameOffset + (utf8 e.text).length ≤ e.size ∧ fuseNameOffset < e.size := by
  have hutf := length_utf16le_le e.text
  have htwo := two_le_length_utf16le e.text_ne
  simp only [size, fuseDirentSize, fuseNameOffset]
  omega

end DirEntry

/-- The stream of a directory, at `buf`. -/
def addDirents (m : Mem) (buf : Nat) : List DirEntry → Mem
  | [] => m
  | e :: rest =>
      let (m, buf) := fuseAddDirent m buf (utf8 e.text) e.stat e.off
      addDirents m buf rest

/-- The length of a stream. -/
def direntSizes (es : List DirEntry) : Nat := (es.map DirEntry.size).sum

-- ============================================================================
-- The translation
-- ============================================================================

section Translation

-- `fusent_transcode` from UTF-8 to UTF-16LE, to a buffer of the given length;
-- `none` if it returns -1
variable (transcode : List UInt8 → Nat → Option (List UInt8)) (epoch : Nat) (giantbuf : Mem)

/-- The loop of `fusent_do_buffer_dirlisting` over the `nbytes` bytes at `p` of
    the stream.  `none` if it has not ended within its fuel, or if a name cannot
    be transcoded: its terminator is then stored at `fnbuf[(size_t) -1 / 2]`. -/
def translateDirents : Nat → Nat → Nat → DirBuffer → Option (Except Int DirBuffer)
  | 0, _, _, _ => none
  | fuel + 1, p, nbytes, s =>
      if fuseNameOffset ≤ nbytes ∧ sizeofFileDirectoryInformation ≤ s.nbytesout then
        let namelen := giantbuf.readLe (p + 16) 4
        let reclen := fuseDirentSize namelen
        if namelen = 0 ∨ fuseNameMax < namelen then some (.error eIo)
        else if nbytes < reclen then some (.ok s)
        else
          match transcode (giantbuf.read (p + fuseNameOffset) namelen) (fuseNameMax * 2) with
          | none => none
          | some utf16 =>
              let fdilen := fusentFdientSize utf16.length
              if s.nbytesout < fdilen then some (.ok s)
              else
                translateDirents fuel (p + reclen) (nbytes - reclen)
                  { out := storeRecord s.out s.o epoch utf16
                    o := s.o + fdilen
                    nbytesout := s.nbytesout - fdilen
                    lastfdi := some s.o }
      else some (.ok s)

/-- `fusent_do_buffer_dirlisting` from the reply to `READDIR` on. -/
def translateListing (outbuf : Mem) (nbytes fuel : Nat) : Option (Except Int DirListing) :=
  (translateDirents transcode epoch giantbuf fuel 0 nbytes ⟨outbuf, 0, dirBufferLength, none⟩).map
    fun r => r.map DirBuffer.toListing

end Translation

-- ============================================================================
-- A stream
-- ============================================================================

/-- The record at `p` is for the entry `e`. -/
structure DirentAt (m : Mem) (p : Nat) (e : DirEntry) : Prop where
  namelen : m.readLe (p + 16) 4 = (utf8 e.text).length
  name : m.read (p + fuseNameOffset) (utf8 e.text).length = utf8 e.text

/-- The records at `p` are for the entries `es`. -/
def DirentsAt (m : Mem) : Nat → List DirEntry → Prop
  | _, [] => True
  | p, e :: rest => DirentAt m p e ∧ DirentsAt m (p + e.size) rest

section Stream

variable {m m' : Mem} {p : Nat} {e : DirEntry} {es : List DirEntry}

theorem DirentAt.congr (h : DirentAt m p e)
    (hm : ∀ i, i < fuseNameOffset + (utf8 e.text).length → m' (p + i) = m (p + i)) :
    DirentAt m' p e := by
  refine ⟨?_, ?_⟩
  · rw [← h.namelen]
    refine Mem.readLe_congr fun i hi => ?_
    rw [Nat.add_assoc]
    exact hm _ (by unfold fuseNameOffset; omega)
  · rw [← h.name]
    simp only [Mem.length_read]
    refine Mem.read_congr fun i hi => ?_
    rw [Nat.add_assoc]
    exact hm _ (by omega)

/-- A record is written at its place, and nothing before it. -/
theorem fuseAddDirent_spec (m : Mem) (p : Nat) (e : DirEntry) :
    DirentAt (fuseAddDirent m p (utf8 e.text) e.stat e.off).1 p e ∧
      (fuseAddDirent m p (utf8 e.text) e.stat e.off).2 = p + e.size ∧
      ∀ i, i < p → (fuseAddDirent m p (utf8 e.text) e.stat e.off).1 i = m i := by
  have hlen := e.length_le
  unfold fuseNameMax at hlen
  -- the padding comes behind the name
  have hpad : ∀ i, i < p + (fuseNameOffset + (utf8 e.text).length) →
      (fuseAddDirent m p (utf8 e.text) e.stat e.off).1 i = m.writes
        [(p, leBytes 8 e.stat.ino), (p + 8, leBytes 8 e.off),
          (p + 16, leBytes 4 (utf8 e.text).length),
          (p + 20, leBytes 4 ((e.stat.mode &&& 0o170000) >>> 12)),
          (p + fuseNameOffset, utf8 e.text)] i := by
    intro i hi
    simp only [fuseAddDirent]
    split
    case isTrue => exact Mem.zero_of_not_mem _ _ _ _ (Or.inl hi)
    case isFalse => rfl
  refine ⟨DirentAt.congr ⟨?_, ?_⟩ fun i hi => hpad _ (by omega), rfl, fun i hi => ?_⟩
  · simp only [Mem.writes]
    rw [Mem.readLe_write_disjoint _ _ _ _ _ (by unfold fuseNameOffset; omega),
      Mem.readLe_write_disjoint _ _ _ _ _ (by omega), ← Mem.writeLe, Mem.readLe_writeLe_same]
    exact Nat.mod_eq_of_lt (by omega)
  · exact Mem.read_write_same _ _ _
  · rw [hpad i (by omega)]
    unfold fuseNameOffset
    refine Mem.writes_of_not_mem _ _ _ ?_
    simp only [List.mem_cons, List.not_mem_nil, or_false]
    rintro w (rfl | rfl | rfl | rfl | rfl) <;> simp only <;> omega

/-- The stream holds the entries, and nothing before it is written. -/
theorem addDirents_spec (m : Mem) (p : Nat) (es : List DirEntry) :
    DirentsAt (addDirents m p es) p es ∧ ∀ i, i < p → addDirents m p es i = m i := by
  induction es generalizing m p with
  | nil => exact ⟨trivial, fun _ _ => rfl⟩
  | cons e rest ih =>
      have hsize := e.size_bounds
      obtain ⟨hat, hplace, hkeep⟩ := fuseAddDirent_spec m p e
      simp only [addDirents, hplace]
      obtain ⟨hrest, hsame⟩ := ih (fuseAddDirent m p (utf8 e.text) e.stat e.off).1 (p + e.size)
      refine ⟨⟨hat.congr fun i hi => hsame _ (by omega), hrest⟩, fun i hi => ?_⟩
      rw [hsame i (by omega), hkeep i hi]

end Stream

-- ============================================================================
-- The loop
-- ============================================================================

/-- The first `k` entries are whole in the first `nbytes` bytes of the stream,
    and there is room for their records. -/
structure Taken (es : List DirEntry) (nbytes room k : Nat) : Prop where
  le_length : k ≤ es.length
  whole : direntSizes (es.take k) ≤ nbytes
  fits : sizes ((es.take k).map DirEntry.name) ≤ room

/-- A conversion that is right: it succeeds if there is room for the result. -/
def Transcodes (transcode : List UInt8 → Nat → Option (List UInt8)) : Prop :=
  ∀ text dlen, (utf16le text).length ≤ dlen → transcode (utf8 text) dlen = some (utf16le text)

section Loop

variable {es rest : List DirEntry} {e : DirEntry} {nbytes room k : Nat}

theorem Taken.zero : Taken es nbytes room 0 := ⟨Nat.zero_le _, Nat.zero_le _, Nat.zero_le _⟩

theorem taken_succ : Taken (e :: rest) nbytes room (k + 1) ↔
    e.size ≤ nbytes ∧ e.name.size ≤ room ∧
      Taken rest (nbytes - e.size) (room - e.name.size) k := by
  have hiff : ∀ {a b n : Nat}, a + b ≤ n ↔ a ≤ n ∧ b ≤ n - a := by omega
  constructor
  · rintro ⟨hle, hwhole, hfits⟩
    simp only [List.take_succ_cons, List.map_cons, direntSizes, List.sum_cons, sizes_cons, hiff]
      at hwhole hfits
    exact ⟨hwhole.1, hfits.1, Nat.le_of_succ_le_succ hle, hwhole.2, hfits.2⟩
  · rintro ⟨hsize, hname, hle, hwhole, hfits⟩
    refine ⟨Nat.succ_le_succ hle, ?_, ?_⟩
    · simp only [List.take_succ_cons, List.map_cons, direntSizes, List.sum_cons, hiff]
      exact ⟨hsize, hwhole⟩
    · simp only [List.take_succ_cons, List.map_cons, sizes_cons, hiff]
      exact ⟨hname, hfits⟩

/-- Nothing can be taken if the first entry cannot. -/
theorem isGreatest_zero (h : ∀ e rest, es = e :: rest → nbytes < e.size ∨ room < e.name.size) :
    IsGreatest {k | Taken es nbytes room k} 0 := by
  refine ⟨Taken.zero, fun k hk => ?_⟩
  cases k with
  | zero => exact Nat.le_refl _
  | succ k =>
      cases es with
      | nil => exact absurd hk.le_length (by simp)
      | cons e rest =>
          obtain ⟨hsize, hname, -⟩ := taken_succ.mp hk
          have := h e rest rfl
          omega

/-- The first entry, and the most of the rest. -/
theorem isGreatest_succ (hsize : e.size ≤ nbytes) (hname : e.name.size ≤ room)
    (h : IsGreatest {k | Taken rest (nbytes - e.size) (room - e.name.size) k} k) :
    IsGreatest {k | Taken (e :: rest) nbytes room k} (k + 1) := by
  refine ⟨taken_succ.mpr ⟨hsize, hname, h.1⟩, fun j hj => ?_⟩
  cases j with
  | zero => exact Nat.zero_le _
  | succ j => exact Nat.succ_le_succ (h.2 (taken_succ.mp hj).2.2)

variable {transcode : List UInt8 → Nat → Option (List UInt8)} {stream giantbuf : Mem}
  {p fuel : Nat} {s : DirBuffer} {done : List DirName}

/-- A round in front of an entry: the record is read as it was written, as far
    as it is there. -/
theorem translateDirents_round (htrans : Transcodes transcode) (epoch : Nat)
    (he : DirentAt stream p e) (hcut : ∀ i, i < nbytes → giantbuf (p + i) = stream (p + i)) :
    translateDirents transcode epoch giantbuf (fuel + 1) p nbytes s =
      if nbytes < e.size ∨ s.nbytesout < e.name.size then some (.ok s)
      else
        translateDirents transcode epoch giantbuf fuel (p + e.size) (nbytes - e.size)
          ⟨storeRecord s.out s.o epoch e.name.bytes, s.o + e.name.size,
            s.nbytesout - e.name.size, some s.o⟩ := by
  obtain ⟨hsize, hoffset⟩ := e.size_bounds
  have hname := e.name.size_bounds
  by_cases hguard : fuseNameOffset ≤ nbytes ∧ sizeofFileDirectoryInformation ≤ s.nbytesout
  case neg =>
      rw [translateDirents, if_neg hguard, if_pos]
      unfold sizeofFileDirectoryInformation at hguard
      omega
  case pos =>
  have hlen : giantbuf.readLe (p + 16) 4 = (utf8 e.text).length := by
    rw [← he.namelen]
    refine Mem.readLe_congr fun i hi => ?_
    rw [Nat.add_assoc]
    exact hcut _ (by unfold fuseNameOffset at hguard; omega)
  have hvalid : ¬ ((utf8 e.text).length = 0 ∨ fuseNameMax < (utf8 e.text).length) := by
    have hutf := length_utf16le_le e.text
    have htwo := two_le_length_utf16le e.text_ne
    have hmax := e.length_le
    omega
  rw [translateDirents, if_pos hguard]
  simp only [hlen, if_neg hvalid]
  by_cases hwhole : nbytes < e.size
  case pos => rw [if_pos (show nbytes < fuseDirentSize _ from hwhole), if_pos (Or.inl hwhole)]
  case neg =>
  have hread : giantbuf.read (p + fuseNameOffset) (utf8 e.text).length = utf8 e.text := by
    rw [← he.name]
    simp only [Mem.length_read]
    refine Mem.read_congr fun i hi => ?_
    rw [Nat.add_assoc]
    exact hcut _ (by omega)
  have hutf : transcode (utf8 e.text) (fuseNameMax * 2) = some (utf16le e.text) := by
    refine htrans _ _ ?_
    have hle := e.name.length_le
    exact hle
  rw [if_neg (show ¬ nbytes < fuseDirentSize _ from hwhole), hread, hutf]
  simp only [hwhole, false_or]
  rfl

/-- The loop takes as many entries as it can. -/
theorem translateDirents_stream (htrans : Transcodes transcode) (epoch : Nat)
    (hes : DirentsAt stream p es) (hbytes : nbytes ≤ direntSizes es)
    (hcut : ∀ i, i < nbytes → giantbuf (p + i) = stream (p + i)) (hc : Compiled s done) :
    ∃ s' k, (∀ fuel, nbytes ≤ fuel →
        translateDirents transcode epoch giantbuf (fuel + 1) p nbytes s = some (.ok s')) ∧
      IsGreatest {k | Taken es nbytes s.nbytesout k} k ∧
      Compiled s' (done ++ (es.take k).map DirEntry.name) := by
  induction es generalizing p nbytes s done with
  | nil =>
      obtain rfl : nbytes = 0 := Nat.le_zero.mp hbytes
      refine ⟨s, 0, fun fuel _ => ?_, isGreatest_zero (by simp), by simpa using hc⟩
      rw [translateDirents, if_neg (by simp [fuseNameOffset])]
  | cons e rest ih =>
      obtain ⟨he, hrest⟩ := hes
      have hsize := e.size_bounds
      by_cases hstop : nbytes < e.size ∨ s.nbytesout < e.name.size
      case pos =>
          refine ⟨s, 0, fun fuel _ => ?_, isGreatest_zero ?_, by simpa using hc⟩
          · rw [translateDirents_round htrans epoch he hcut, if_pos hstop]
          · rintro e' rest' heq
            cases heq
            exact hstop
      case neg =>
          have hstored := hc.store epoch e.name (by omega)
          have hleft : nbytes - e.size ≤ direntSizes rest := by
            simp only [direntSizes, List.map_cons, List.sum_cons] at hbytes ⊢
            omega
          have hcut' : ∀ i, i < nbytes - e.size →
              giantbuf (p + e.size + i) = stream (p + e.size + i) := by
            intro i hi
            rw [Nat.add_assoc]
            exact hcut _ (by omega)
          obtain ⟨s', k, hrun, hmost, hdone⟩ := ih hrest hleft hcut' hstored
          refine ⟨s', k + 1, fun fuel hfuel => ?_,
            isGreatest_succ (by omega) (by omega) hmost, ?_⟩
          · rw [translateDirents_round htrans epoch he hcut, if_neg hstop]
            obtain ⟨fuel, rfl⟩ : ∃ n, fuel = n + 1 := ⟨fuel - 1, by omega⟩
            exact hrun fuel (by omega)
          · rwa [List.append_assoc] at hdone

end Loop

-- ============================================================================
-- The listing
-- ============================================================================

/-- The listing consists of records for the names `rs`, and ends with the last
    name. -/
structure Translated (dl : DirListing) (rs : List DirName) : Prop where
  off : dl.off = 0
  chained : Chained dl.listing 0 rs
  empty : rs = [] → dl.len = 0
  len : ∀ init x, rs = init ++ [x] → dl.len = sizes init + dirFileNameOffset + x.bytes.length

theorem Compiled.translated {s : DirBuffer} {rs : List DirName} (hc : Compiled s rs) :
    Translated s.toListing rs := by
  have hchained := hc.left.chained
  rw [s.toListing_off] at hchained
  refine ⟨s.toListing_off, hchained, ?_, ?_⟩
  · rintro rfl
    have hempty := hc.left.nil rfl
    rw [s.toListing_off] at hempty
    exact Nat.le_zero.mp hempty
  · rintro init x rfl
    have hsome : s.lastfdi = some (sizes init) := (hc.lastfdi _).mpr ⟨init, x, rfl, rfl⟩
    obtain ⟨-, -, ⟨hlen, -⟩, -⟩ := linked_append.mp hc.linked
    rw [Nat.zero_add] at hlen
    simp only [DirBuffer.toListing, hsome, hlen]

/-- A directory stream that is cut anywhere is translated to the longest list of
    entries that are whole in it and have room in the listing. -/
theorem translateListing_stream {transcode : List UInt8 → Nat → Option (List UInt8)}
    (htrans : Transcodes transcode) (epoch : Nat) (es : List DirEntry) (m giantbuf outbuf : Mem)
    {nbytes : Nat} (hbytes : nbytes ≤ direntSizes es)
    (hcut : ∀ i, i < nbytes → giantbuf i = addDirents m 0 es i) :
    ∃ dl k, Settles (translateListing transcode epoch giantbuf outbuf nbytes) (.ok dl) ∧
      IsGreatest {k | Taken es nbytes dirBufferLength k} k ∧
      Translated dl ((es.take k).map DirEntry.name) := by
  have hempty : Compiled ⟨outbuf, 0, dirBufferLength, none⟩ [] := ⟨trivial, rfl, rfl, by simp⟩
  have hcut' : ∀ i, i < nbytes → giantbuf (0 + i) = addDirents m 0 es (0 + i) := by
    simpa only [Nat.zero_add] using hcut
  obtain ⟨s', k, hrun, hmost, hdone⟩ := translateDirents_stream htrans epoch
    (addDirents_spec m 0 es).1 hbytes hcut' hempty
  refine ⟨s'.toListing, k, ⟨nbytes + 1, fun fuel hfuel => ?_⟩, hmost, hdone.translated⟩
  obtain ⟨fuel, rfl⟩ : ∃ n, fuel = n + 1 := ⟨fuel - 1, by omega⟩
  rw [translateListing, hrun fuel (by omega)]
  rfl

/-- `utf8ToUtf16le` as a conversion to a buffer. -/
def sampleTranscode (bytes : List UInt8) (dlen : Nat) : Option (List UInt8) :=
  (utf8ToUtf16le bytes).filter fun out => decide (out.length ≤ dlen)

/-- The entry of a file with a name of one letter. -/
def letterEntry (c : Char) (h : (utf8 [c]).length ≤ fuseNameMax) : DirEntry where
  text := [c]
  stat := ⟨2, 0o100644⟩
  off := 0
  text_ne := List.cons_ne_nil _ _
  length_le := h

/-- The stream of two files, cut within the second record. -/
theorem translateListing_two_files :
    ∃ dl k, Settles (translateListing sampleTranscode 0
        (addDirents Mem.zeros 0 [letterEntry 'a' (by decide), letterEntry 'b' (by decide)])
        Mem.zeros 40) (.ok dl) ∧
      IsGreatest {k | Taken [letterEntry 'a' (by decide), letterEntry 'b' (by decide)] 40
        dirBufferLength k} k ∧
      Translated dl (([letterEntry 'a' (by decide), letterEntry 'b' (by decide)].take k).map
        DirEntry.name) := by
  refine translateListing_stream (fun text dlen hlen => ?_) 0 _ Mem.zeros _ _ (by decide)
    fun _ _ => rfl
  rw [sampleTranscode, utf8ToUtf16le_utf8, Option.filter_some, if_pos (decide_eq_true hlen)]

-- ============================================================================
-- The entries first
-- ============================================================================

end FuseNt
