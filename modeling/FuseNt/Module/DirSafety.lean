/-
  FuseNt.Module.DirSafety

  Directories whose names are arbitrary bytes.

  A file system may give a file any name, and `fusent_do_buffer_dirlisting` has
  the name converted to UTF-16 by `fusent_transcode`.  That function returns a
  `size_t`, and -1 cast to it if `iconv` fails; the loop does not look.  The
  value becomes the index of a terminator, the length of a copy, and through the
  sum in `fusent_fdient_size`, which wraps, the size of a record that always has
  room.

  `DirWrite` is a write of the function to one of its two buffers.  The writes
  stay inside, and the listing is the one of the entries, if each name that is
  converted is a text in UTF-8, and only then.
-/

import FuseNt.Lib.Span
import FuseNt.Module.DirStream

namespace FuseNt

open FuseNt.Lib

-- ============================================================================
-- The writes
-- ============================================================================

/-- The buffers that `fusent_do_buffer_dirlisting` writes to. -/
inductive DirBuf where
  | fnbuf
  | outbuf
deriving DecidableEq

/-- `(FUSE_NAME_MAX+1) * sizeof(WCHAR)`, and `len`. -/
def DirBuf.length : DirBuf → Nat
  | .fnbuf => (fuseNameMax + 1) * 2
  | .outbuf => dirBufferLength

/-- A write to a buffer: the first offset and the length. -/
structure DirWrite where
  buf : DirBuf
  span : Span
deriving DecidableEq

/-- The write stays inside its buffer. -/
def DirWrite.Fits (w : DirWrite) : Prop := Below [w.span] w.buf.length

theorem DirWrite.fits_iff {buf : DirBuf} {off n : Nat} :
    DirWrite.Fits ⟨buf, off, n⟩ ↔ (0 < n → off + n ≤ buf.length) := by
  simp [DirWrite.Fits]

/-- The result of `fusent_transcode`, a `size_t`. -/
def transcodedLength : Option (List UInt8) → Nat
  | some utf16 => utf16.length
  | none => 2 ^ 64 - 1

/-- `fdilen`, a `size_t`. -/
def wrappedFdientSize (utf16lenbytes : Nat) : Nat := fusentFdientSize utf16lenbytes % 2 ^ 64

/-- The conversion of a name, and the terminator behind it.  `iconv` may use all
    of the buffer that it is given, also if it fails. -/
def nameWrites (utf16lenbytes : Nat) : List DirWrite :=
  [⟨.fnbuf, 0, fuseNameMax * 2⟩, ⟨.fnbuf, utf16lenbytes / 2 * 2, 2⟩]

/-- The record at `o`: the fields before the name, and the name. -/
def recordWrites (o utf16lenbytes : Nat) : List DirWrite :=
  [⟨.outbuf, o, dirFileNameOffset⟩, ⟨.outbuf, o + dirFileNameOffset, utf16lenbytes⟩]

/-- `lastfdi->NextEntryOffset = 0`. -/
def lastWrites (s : DirBuffer) : List DirWrite :=
  s.lastfdi.toList.map fun l => ⟨.outbuf, l, 4⟩

section Writes

variable (transcode : List UInt8 → Nat → Option (List UInt8)) (epoch : Nat)

/-- The writes of the loop of `fusent_do_buffer_dirlisting`, and of what follows
    it.  They end with a record whose name could not be converted, since it is
    stored over what lies behind the buffers. -/
def direntsWrites (giantbuf : Mem) : Nat → Nat → Nat → DirBuffer → List DirWrite
  | 0, _, _, _ => []
  | fuel + 1, p, nbytes, s =>
      if fuseNameOffset ≤ nbytes ∧ sizeofFileDirectoryInformation ≤ s.nbytesout then
        let namelen := giantbuf.readLe (p + 16) 4
        let reclen := fuseDirentSize namelen
        if namelen = 0 ∨ fuseNameMax < namelen then []
        else if nbytes < reclen then lastWrites s
        else
          let name := transcode (giantbuf.read (p + fuseNameOffset) namelen) (fuseNameMax * 2)
          let utf16lenbytes := transcodedLength name
          let fdilen := wrappedFdientSize utf16lenbytes
          nameWrites utf16lenbytes ++
            if s.nbytesout < fdilen then lastWrites s
            else
              recordWrites s.o utf16lenbytes ++
                match name with
                | none => []
                | some utf16 =>
                    direntsWrites giantbuf fuel (p + reclen) (nbytes - reclen)
                      { out := storeRecord s.out s.o epoch utf16
                        o := s.o + fdilen
                        nbytesout := s.nbytesout - fdilen
                        lastfdi := some s.o }
      else lastWrites s

-- what `outh`, `giantbuf` and `outbuf` hold at first, and what the file system
-- replies
variable (outh : OutHeader) (giantbuf outbuf : Mem) (opendir readdir : FsReply)

/-- The header and `giantbuf` after the reply to `OPENDIR`. -/
def opendirReply : Hijack := fuseSendReplyIovNofree ⟨outh, giantbuf, dirBufferLength⟩ opendir

/-- The header and `giantbuf` after the reply to `READDIR`. -/
def readdirReply : Hijack :=
  fuseSendReplyIovNofree { opendirReply outh giantbuf opendir with buflen := dirBufferLength } readdir

/-- `nbytes`, a `size_t`. -/
def streamLength (h : Hijack) : Nat := (h.header.len + 2 ^ 64 - sizeofFuseOutHeader) % 2 ^ 64

/-- `fusent_do_buffer_dirlisting`. -/
def listDirectory (fuel : Nat) : Option (Except Int DirListing) :=
  let h := opendirReply outh giantbuf opendir
  if h.header.error ≠ 0 then some (.error (-h.header.error))
  else
    let h := readdirReply outh giantbuf opendir readdir
    if h.header.error ≠ 0 then some (.error (-h.header.error))
    else translateListing transcode epoch h.buf outbuf (streamLength h) fuel

/-- The writes of `fusent_do_buffer_dirlisting`. -/
def listDirectoryWrites (fuel : Nat) : List DirWrite :=
  let h := opendirReply outh giantbuf opendir
  if h.header.error ≠ 0 then []
  else
    let h := readdirReply outh giantbuf opendir readdir
    if h.header.error ≠ 0 then []
    else direntsWrites transcode epoch h.buf fuel 0 (streamLength h) ⟨outbuf, 0, dirBufferLength, none⟩

/-- Every write stays inside its buffer, and the function ends: with a positive
    error, or with a listing of the entries at the start of the stream that lies
    inside `outbuf`. -/
structure ListingSafe : Prop where
  fits : ∀ fuel, ∀ w ∈ listDirectoryWrites transcode epoch outh giantbuf outbuf opendir readdir fuel,
    w.Fits
  listed :
    (∃ err, 0 < err ∧
      Settles (listDirectory transcode epoch outh giantbuf outbuf opendir readdir) (.error err)) ∨
    ∃ es dl,
      Settles (listDirectory transcode epoch outh giantbuf outbuf opendir readdir) (.ok dl) ∧
      DirentsAt (readdirReply outh giantbuf opendir readdir).buf 0 es ∧
      Translated dl (es.map DirEntry.name) ∧ sizes (es.map DirEntry.name) ≤ dirBufferLength

end Writes

-- ============================================================================
-- The names that are converted
-- ============================================================================

/-- The loop converts the name of the record at `p`: the record is whole, the
    length of its name is valid, and the listing has room for a record. -/
structure Converts (giantbuf : Mem) (p nbytes nbytesout : Nat) : Prop where
  room : sizeofFileDirectoryInformation ≤ nbytesout
  pos : giantbuf.readLe (p + 16) 4 ≠ 0
  le_max : giantbuf.readLe (p + 16) 4 ≤ fuseNameMax
  whole : fuseDirentSize (giantbuf.readLe (p + 16) 4) ≤ nbytes

/-- The name of the record at `p`. -/
def direntName (giantbuf : Mem) (p : Nat) : List UInt8 :=
  giantbuf.read (p + fuseNameOffset) (giantbuf.readLe (p + 16) 4)

/-- Behind entries that are whole in the stream and have room in the listing, a
    name that is converted is a text in UTF-8. -/
def NamesInUtf8 (giantbuf : Mem) (p nbytes room : Nat) : Prop :=
  ∀ es, DirentsAt giantbuf p es → direntSizes es ≤ nbytes → sizes (es.map DirEntry.name) ≤ room →
    Converts giantbuf (p + direntSizes es) (nbytes - direntSizes es)
      (room - sizes (es.map DirEntry.name)) →
    ∃ text, direntName giantbuf (p + direntSizes es) = utf8 text

/-- `fusent_transcode` from UTF-8 to UTF-16LE: `iconv` converts a text that has
    room, and fails if the bytes are not a text in UTF-8. -/
structure Iconv (transcode : List UInt8 → Nat → Option (List UInt8)) : Prop where
  complete : Transcodes transcode
  sound : ∀ bytes dlen utf16, transcode bytes dlen = some utf16 →
    ∃ text, bytes = utf8 text ∧ utf16 = utf16le text

section Names

variable {giantbuf : Mem} {p nbytes room : Nat} {e : DirEntry} {es : List DirEntry}

@[simp] theorem direntSizes_nil : direntSizes [] = 0 := rfl

@[simp] theorem direntSizes_cons : direntSizes (e :: es) = e.size + direntSizes es := rfl

/-- A name in UTF-8 belongs to an entry. -/
theorem Converts.entry {text : List Char} (h : Converts giantbuf p nbytes room)
    (htext : direntName giantbuf p = utf8 text) :
    ∃ e, DirentAt giantbuf p e ∧ e.size ≤ nbytes := by
  have hlen : (utf8 text).length = giantbuf.readLe (p + 16) 4 := by
    rw [← htext, direntName, Mem.length_read]
  have hne : text ≠ [] := by
    rintro rfl
    exact h.pos hlen.symm
  have hread : giantbuf.read (p + fuseNameOffset) (utf8 text).length = utf8 text := by
    rw [hlen]
    exact htext
  have hsize : fuseDirentSize (utf8 text).length ≤ nbytes := by
    rw [hlen]
    exact h.whole
  exact ⟨⟨text, ⟨giantbuf.readLe p 8, giantbuf.readLe (p + 20) 4 <<< 12⟩,
    giantbuf.readLe (p + 8) 8, hne, hlen.trans_le h.le_max⟩, ⟨hlen.symm, hread⟩, hsize⟩

/-- The name of an entry is converted if its record is whole. -/
theorem DirentAt.converts (he : DirentAt giantbuf p e) (hsize : e.size ≤ nbytes)
    (hroom : sizeofFileDirectoryInformation ≤ room) : Converts giantbuf p nbytes room := by
  have hpos : 0 < (utf8 e.text).length := by
    have hutf := length_utf16le_le e.text
    have htwo := two_le_length_utf16le e.text_ne
    omega
  refine ⟨hroom, ?_, ?_, ?_⟩
  · rw [he.namelen]
    omega
  · rw [he.namelen]
    exact e.length_le
  · rw [he.namelen]
    exact hsize

theorem NamesInUtf8.head (h : NamesInUtf8 giantbuf p nbytes room)
    (hconv : Converts giantbuf p nbytes room) : ∃ text, direntName giantbuf p = utf8 text :=
  h [] trivial (Nat.zero_le _) (Nat.zero_le _) hconv

/-- The entries behind the first one. -/
theorem NamesInUtf8.tail (h : NamesInUtf8 giantbuf p nbytes room) (he : DirentAt giantbuf p e)
    (hsize : e.size ≤ nbytes) (hname : e.name.size ≤ room) :
    NamesInUtf8 giantbuf (p + e.size) (nbytes - e.size) (room - e.name.size) := by
  intro es hes hbytes hfits hconv
  rw [Nat.sub_sub, Nat.sub_sub, Nat.add_assoc] at hconv
  rw [Nat.add_assoc]
  refine h (e :: es) ⟨he, hes⟩ ?_ ?_ hconv
  · rw [direntSizes_cons]
    omega
  · rw [List.map_cons, sizes_cons]
    omega

end Names

-- ============================================================================
-- A round
-- ============================================================================

section Round

variable (transcode : List UInt8 → Nat → Option (List UInt8)) (epoch : Nat) {giantbuf : Mem}
  {p nbytes : Nat} {e : DirEntry} {s : DirBuffer} {done : List DirName}

theorem Converts.head_le {room : Nat} (h : Converts giantbuf p nbytes room) :
    fuseNameOffset ≤ nbytes := by
  have hwhole := h.whole
  unfold fuseDirentSize fuseNameOffset at hwhole
  unfold fuseNameOffset
  omega

/-- The loop ends if it does not convert a name. -/
theorem round_ended (h : ¬ Converts giantbuf p nbytes s.nbytesout) :
    (∀ fuel, translateDirents transcode epoch giantbuf (fuel + 1) p nbytes s = some (.ok s) ∧
      direntsWrites transcode epoch giantbuf (fuel + 1) p nbytes s = lastWrites s) ∨
    ∀ fuel, translateDirents transcode epoch giantbuf (fuel + 1) p nbytes s = some (.error eIo) ∧
      direntsWrites transcode epoch giantbuf (fuel + 1) p nbytes s = [] := by
  simp only [translateDirents, direntsWrites]
  by_cases hguard : fuseNameOffset ≤ nbytes ∧ sizeofFileDirectoryInformation ≤ s.nbytesout
  case neg =>
      left
      simp only [if_neg hguard, implies_true, and_self]
  case pos =>
  by_cases hbad : giantbuf.readLe (p + 16) 4 = 0 ∨ fuseNameMax < giantbuf.readLe (p + 16) 4
  case pos =>
      right
      simp only [if_pos hguard, if_pos hbad, implies_true, and_self]
  case neg =>
  by_cases hcut : nbytes < fuseDirentSize (giantbuf.readLe (p + 16) 4)
  case pos =>
      left
      simp only [if_pos hguard, if_neg hbad, if_pos hcut, implies_true, and_self]
  case neg =>
      exact absurd ⟨hguard.2, by omega, by omega, by omega⟩ h

/-- The writes of a round that converts a name. -/
theorem direntsWrites_converts (h : Converts giantbuf p nbytes s.nbytesout) (fuel : Nat) :
    ∃ more, direntsWrites transcode epoch giantbuf (fuel + 1) p nbytes s =
      nameWrites (transcodedLength (transcode (direntName giantbuf p) (fuseNameMax * 2))) ++ more := by
  have hvalid : ¬ (giantbuf.readLe (p + 16) 4 = 0 ∨ fuseNameMax < giantbuf.readLe (p + 16) 4) := by
    have hpos := h.pos
    have hle := h.le_max
    omega
  simp only [direntsWrites, if_pos (And.intro h.head_le h.room), if_neg hvalid,
    if_neg (Nat.not_lt.mpr h.whole)]
  exact ⟨_, rfl⟩

/-- The writes of a round in front of an entry. -/
theorem direntsWrites_round {transcode} (htrans : Transcodes transcode) (he : DirentAt giantbuf p e)
    (hsize : e.size ≤ nbytes) (hroom : sizeofFileDirectoryInformation ≤ s.nbytesout) (fuel : Nat) :
    direntsWrites transcode epoch giantbuf (fuel + 1) p nbytes s =
      nameWrites e.name.bytes.length ++
        if s.nbytesout < e.name.size then lastWrites s
        else
          recordWrites s.o e.name.bytes.length ++
            direntsWrites transcode epoch giantbuf fuel (p + e.size) (nbytes - e.size)
              ⟨storeRecord s.out s.o epoch e.name.bytes, s.o + e.name.size,
                s.nbytesout - e.name.size, some s.o⟩ := by
  have h := he.converts hsize hroom
  have hvalid : ¬ ((utf8 e.text).length = 0 ∨ fuseNameMax < (utf8 e.text).length) := by
    have hpos := h.pos
    have hle := h.le_max
    rw [he.namelen] at hpos hle
    omega
  have hutf : transcode (utf8 e.text) (fuseNameMax * 2) = some e.name.bytes :=
    htrans _ _ e.name.length_le
  have hfdilen : wrappedFdientSize e.name.bytes.length = e.name.size := by
    have hle := e.name.size_bounds
    have hmax := e.name.length_le
    exact Nat.mod_eq_of_lt (show e.name.size < 2 ^ 64 by omega)
  rw [direntsWrites, if_pos ⟨h.head_le, h.room⟩]
  simp only [he.namelen, if_neg hvalid, he.name, hutf, transcodedLength, hfdilen]
  rw [if_neg (show ¬ nbytes < fuseDirentSize _ from Nat.not_lt.mpr hsize)]
  rfl

theorem nameWrites_fit (x : DirName) : ∀ w ∈ nameWrites x.bytes.length, w.Fits := by
  have hle := x.length_le
  simp only [nameWrites, List.forall_mem_cons, DirWrite.fits_iff, DirBuf.length, fuseNameMax]
  exact ⟨by omega, by omega, by simp⟩

theorem recordWrites_fit (hc : Compiled s done) {x : DirName} (hroom : ¬ s.nbytesout < x.size) :
    ∀ w ∈ recordWrites s.o x.bytes.length, w.Fits := by
  have hplace := hc.place
  have hspace := hc.room
  have hsize := x.size_bounds
  simp only [recordWrites, List.forall_mem_cons, DirWrite.fits_iff, DirBuf.length, dirBufferLength,
    dirFileNameOffset]
  exact ⟨by omega, by omega, by simp⟩

theorem lastWrites_fit (hc : Compiled s done) : ∀ w ∈ lastWrites s, w.Fits := by
  intro w hw
  obtain ⟨l, hl, rfl⟩ := List.mem_map.mp hw
  obtain ⟨init, x, rfl, rfl⟩ := (hc.lastfdi l).mp (Option.mem_toList.mp hl)
  have hspace := hc.room
  have hsize := x.size_bounds
  simp only [sizes_append, sizes_cons] at hspace
  rw [DirWrite.fits_iff, DirBuf.length, dirBufferLength]
  omega

end Round

-- ============================================================================
-- The loop
-- ============================================================================

section Loop

variable {transcode : List UInt8 → Nat → Option (List UInt8)} {epoch : Nat} {giantbuf : Mem}
  {p nbytes : Nat} {es : List DirEntry} {s : DirBuffer} {done : List DirName}

/-- If the names that are converted are texts in UTF-8, the writes of the loop
    stay inside the buffers. -/
theorem direntsWrites_fit (htrans : Transcodes transcode)
    (hutf : NamesInUtf8 giantbuf p nbytes s.nbytesout) (hc : Compiled s done) (fuel : Nat) :
    ∀ w ∈ direntsWrites transcode epoch giantbuf fuel p nbytes s, w.Fits := by
  induction fuel generalizing p nbytes s done with
  | zero => simp [direntsWrites]
  | succ fuel ih =>
      by_cases hconv : Converts giantbuf p nbytes s.nbytesout
      case neg =>
          rcases round_ended transcode epoch hconv with hend | hend
          · rw [(hend fuel).2]
            exact lastWrites_fit hc
          · rw [(hend fuel).2]
            simp
      case pos =>
      obtain ⟨text, htext⟩ := hutf.head hconv
      obtain ⟨e, he, hsize⟩ := hconv.entry htext
      rw [direntsWrites_round epoch htrans he hsize hconv.room]
      refine List.forall_mem_append.mpr ⟨nameWrites_fit e.name, ?_⟩
      split
      case isTrue => exact lastWrites_fit hc
      case isFalse hroom =>
          refine List.forall_mem_append.mpr ⟨recordWrites_fit hc hroom, ?_⟩
          exact ih (hutf.tail he hsize (Nat.not_lt.mp hroom)) (hc.store epoch e.name hroom)

/-- And the loop ends: with an error, or with records for entries of the
    stream. -/
theorem translateDirents_ends (htrans : Transcodes transcode)
    (hutf : NamesInUtf8 giantbuf p nbytes s.nbytesout) (hc : Compiled s done) :
    ∃ r, (∀ fuel, nbytes ≤ fuel →
        translateDirents transcode epoch giantbuf (fuel + 1) p nbytes s = some r) ∧
      (r = .error eIo ∨
        ∃ es s', r = .ok s' ∧ DirentsAt giantbuf p es ∧
          Compiled s' (done ++ es.map DirEntry.name)) := by
  -- every entry takes some bytes
  induction nbytes using Nat.strong_induction_on generalizing p s done with
  | _ nbytes ih =>
      by_cases hconv : Converts giantbuf p nbytes s.nbytesout
      case neg =>
          rcases round_ended transcode epoch hconv with hend | hend
          · exact ⟨.ok s, fun fuel _ => (hend fuel).1,
              Or.inr ⟨[], s, rfl, trivial, by simpa using hc⟩⟩
          · exact ⟨.error eIo, fun fuel _ => (hend fuel).1, Or.inl rfl⟩
      case pos =>
      obtain ⟨text, htext⟩ := hutf.head hconv
      obtain ⟨e, he, hsize⟩ := hconv.entry htext
      have hbounds := e.size_bounds
      by_cases hroom : s.nbytesout < e.name.size
      case pos =>
          refine ⟨.ok s, fun fuel _ => ?_, Or.inr ⟨[], s, rfl, trivial, by simpa using hc⟩⟩
          rw [translateDirents_round htrans epoch he fun _ _ => rfl, if_pos (Or.inr hroom)]
      case neg =>
      obtain ⟨r, hrun, hr⟩ := ih (nbytes - e.size) (by omega)
        (hutf.tail he hsize (Nat.not_lt.mp hroom)) (hc.store epoch e.name hroom)
      refine ⟨r, fun fuel hfuel => ?_, ?_⟩
      · rw [translateDirents_round htrans epoch he fun _ _ => rfl, if_neg (by omega)]
        obtain ⟨fuel, rfl⟩ : ∃ n, fuel = n + 1 := ⟨fuel - 1, by omega⟩
        exact hrun fuel (by omega)
      · rcases hr with hr | ⟨es, s', rfl, hes, hdone⟩
        · exact Or.inl hr
        · refine Or.inr ⟨e :: es, s', rfl, ⟨he, hes⟩, ?_⟩
          rwa [List.append_assoc] at hdone

/-- A name that is not a text in UTF-8 is terminated outside `fnbuf`. -/
theorem exists_not_fits (epoch : Nat) (h : Iconv transcode) (hes : DirentsAt giantbuf p es)
    (hbytes : direntSizes es ≤ nbytes) (hfits : sizes (es.map DirEntry.name) ≤ s.nbytesout)
    (hconv : Converts giantbuf (p + direntSizes es) (nbytes - direntSizes es)
      (s.nbytesout - sizes (es.map DirEntry.name)))
    (hbad : ∀ text, direntName giantbuf (p + direntSizes es) ≠ utf8 text) :
    ∃ w ∈ direntsWrites transcode epoch giantbuf (es.length + 1) p nbytes s, ¬ w.Fits := by
  induction es generalizing p nbytes s with
  | nil =>
      have hnone : transcode (direntName giantbuf p) (fuseNameMax * 2) = none := by
        cases hname : transcode (direntName giantbuf p) (fuseNameMax * 2) with
        | none => rfl
        | some utf16 =>
            obtain ⟨text, htext, -⟩ := h.sound _ _ _ hname
            exact absurd htext (hbad text)
      have hconv : Converts giantbuf p nbytes s.nbytesout := hconv
      obtain ⟨more, hmore⟩ := direntsWrites_converts transcode epoch hconv 0
      refine ⟨⟨.fnbuf, (2 ^ 64 - 1) / 2 * 2, 2⟩, ?_, ?_⟩
      · rw [List.length_nil, hmore]
        refine List.mem_append_left _ ?_
        rw [hnone]
        simp [nameWrites, transcodedLength]
      · rw [DirWrite.fits_iff]
        decide
  | cons e rest ih =>
      obtain ⟨he, hrest⟩ := hes
      have hname := e.name.size_bounds
      simp only [direntSizes_cons, List.map_cons, sizes_cons] at hbytes hfits hconv hbad
      rw [← Nat.add_assoc] at hconv hbad
      rw [← Nat.sub_sub, ← Nat.sub_sub] at hconv
      have hroom : sizeofFileDirectoryInformation ≤ s.nbytesout := by
        unfold sizeofFileDirectoryInformation
        omega
      obtain ⟨w, hw, hout⟩ := ih (s := ⟨storeRecord s.out s.o epoch e.name.bytes,
        s.o + e.name.size, s.nbytesout - e.name.size, some s.o⟩) hrest (by omega)
        (by dsimp only; omega) hconv hbad
      refine ⟨w, ?_, hout⟩
      rw [List.length_cons, direntsWrites_round epoch h.complete he (by omega) hroom,
        if_neg (by omega)]
      exact List.mem_append_right _ (List.mem_append_right _ hw)

end Loop

-- ============================================================================
-- The listing
-- ============================================================================

section Listing

variable {transcode : List UInt8 → Nat → Option (List UInt8)} {epoch : Nat} {outh : OutHeader}
  {giantbuf outbuf : Mem} {opendir readdir : FsReply}

/-- A failure of `OPENDIR` or `READDIR` is returned as a positive error, and
    nothing is written. -/
theorem listingSafe_of_error (h : opendir.error ≠ 0 ∨ readdir.error ≠ 0) :
    ListingSafe transcode epoch outh giantbuf outbuf opendir readdir := by
  have hopen : (opendirReply outh giantbuf opendir).header.error = replyError opendir.error := by
    rw [opendirReply, fuseSendReplyIovNofree_header]
  have hread : (readdirReply outh giantbuf opendir readdir).header.error =
      replyError readdir.error := by
    rw [readdirReply, fuseSendReplyIovNofree_header]
  have hpos : ∀ {error : Int}, replyError error ≠ 0 → 0 < -replyError error := by
    intro error herror
    have hbounds := replyError_bounds error
    omega
  by_cases hfirst : replyError opendir.error = 0
  case neg =>
      refine ⟨fun fuel w hw => ?_, Or.inl ⟨_, hpos hfirst, 0, fun fuel _ => ?_⟩⟩
      · simp [listDirectoryWrites, hopen, hfirst] at hw
      · simp [listDirectory, hopen, hfirst]
  case pos =>
  have hsecond : replyError readdir.error ≠ 0 := by
    rw [replyError_eq_zero_iff] at hfirst
    rw [ne_eq, replyError_eq_zero_iff]
    exact h.resolve_left (not_not.mpr hfirst)
  refine ⟨fun fuel w hw => ?_, Or.inl ⟨_, hpos hsecond, 0, fun fuel _ => ?_⟩⟩
  · simp [listDirectoryWrites, hopen, hfirst, hread, hsecond] at hw
  · simp [listDirectory, hopen, hfirst, hread, hsecond]

/-- If both succeed, the stream is translated. -/
theorem listDirectory_of_opened (hopen : opendir.error = 0) (hread : readdir.error = 0) (fuel : Nat) :
    listDirectory transcode epoch outh giantbuf outbuf opendir readdir fuel =
      translateListing transcode epoch (readdirReply outh giantbuf opendir readdir).buf outbuf
        (streamLength (readdirReply outh giantbuf opendir readdir)) fuel ∧
    listDirectoryWrites transcode epoch outh giantbuf outbuf opendir readdir fuel =
      direntsWrites transcode epoch (readdirReply outh giantbuf opendir readdir).buf fuel 0
        (streamLength (readdirReply outh giantbuf opendir readdir))
        ⟨outbuf, 0, dirBufferLength, none⟩ := by
  have hfirst : (opendirReply outh giantbuf opendir).header.error = 0 := by
    rw [opendirReply, fuseSendReplyIovNofree_header]
    exact replyError_eq_zero_iff.mpr hopen
  have hsecond : (readdirReply outh giantbuf opendir readdir).header.error = 0 := by
    rw [readdirReply, fuseSendReplyIovNofree_header]
    exact replyError_eq_zero_iff.mpr hread
  constructor
  · simp only [listDirectory, hfirst, hsecond, ne_eq, not_true, if_false]
  · simp only [listDirectoryWrites, hfirst, hsecond, ne_eq, not_true, if_false]

/-- A stream of names in UTF-8 is listed. -/
theorem listingSafe_of_utf8 (htrans : Transcodes transcode) (hopen : opendir.error = 0)
    (hread : readdir.error = 0)
    (hutf : NamesInUtf8 (readdirReply outh giantbuf opendir readdir).buf 0
      (streamLength (readdirReply outh giantbuf opendir readdir)) dirBufferLength) :
    ListingSafe transcode epoch outh giantbuf outbuf opendir readdir := by
  have hempty : Compiled ⟨outbuf, 0, dirBufferLength, none⟩ [] := ⟨trivial, rfl, rfl, by simp⟩
  refine ⟨fun fuel => ?_, ?_⟩
  · rw [(listDirectory_of_opened hopen hread fuel).2]
    exact direntsWrites_fit htrans hutf hempty fuel
  obtain ⟨r, hrun, hr⟩ := translateDirents_ends (s := ⟨outbuf, 0, dirBufferLength, none⟩) htrans
    hutf hempty
  have hsettles : Settles (listDirectory transcode epoch outh giantbuf outbuf opendir readdir)
      (r.map DirBuffer.toListing) := by
    refine ⟨streamLength (readdirReply outh giantbuf opendir readdir) + 1, fun fuel hfuel => ?_⟩
    obtain ⟨fuel, rfl⟩ : ∃ n, fuel = n + 1 := ⟨fuel - 1, by omega⟩
    rw [(listDirectory_of_opened hopen hread _).1, translateListing, hrun fuel (by omega)]
    rfl
  rcases hr with rfl | ⟨es, s', rfl, hes, hdone⟩
  · exact Or.inl ⟨eIo, by decide, hsettles⟩
  · refine Or.inr ⟨es, s'.toListing, hsettles, hes, hdone.translated, ?_⟩
    have hroom := hdone.room
    rw [List.nil_append] at hroom
    unfold dirBufferLength
    omega

/-- A stream with a name that is not in UTF-8 is not safe. -/
theorem ListingSafe.namesInUtf8 (h : Iconv transcode) (hopen : opendir.error = 0)
    (hread : readdir.error = 0)
    (hsafe : ListingSafe transcode epoch outh giantbuf outbuf opendir readdir) :
    NamesInUtf8 (readdirReply outh giantbuf opendir readdir).buf 0
      (streamLength (readdirReply outh giantbuf opendir readdir)) dirBufferLength := by
  intro es hes hbytes hroom hconv
  by_contra hbad
  obtain ⟨w, hw, hout⟩ := exists_not_fits (s := ⟨outbuf, 0, dirBufferLength, none⟩) epoch h hes
    hbytes hroom hconv (not_exists.mp hbad)
  rw [← (listDirectory_of_opened hopen hread _).2] at hw
  exact hout (hsafe.fits _ w hw)

/-- The listing is safe if the directory cannot be read, or if every name in the
    stream that is converted is a text in UTF-8, and only then. -/
theorem dirlisting_safe_iff (h : Iconv transcode) :
    ListingSafe transcode epoch outh giantbuf outbuf opendir readdir ↔
      opendir.error ≠ 0 ∨ readdir.error ≠ 0 ∨
        NamesInUtf8 (readdirReply outh giantbuf opendir readdir).buf 0
          (streamLength (readdirReply outh giantbuf opendir readdir)) dirBufferLength := by
  constructor
  · intro hsafe
    by_cases hopen : opendir.error = 0
    case neg => exact Or.inl hopen
    case pos =>
    by_cases hread : readdir.error = 0
    case neg => exact Or.inr (Or.inl hread)
    case pos => exact Or.inr (Or.inr (hsafe.namesInUtf8 h hopen hread))
  · rintro (hopen | hread | hutf)
    · exact listingSafe_of_error (Or.inl hopen)
    · exact listingSafe_of_error (Or.inr hread)
    · by_cases herror : opendir.error ≠ 0 ∨ readdir.error ≠ 0
      case pos => exact listingSafe_of_error herror
      case neg =>
          obtain ⟨hopen, hread⟩ := not_or.mp herror
          exact listingSafe_of_utf8 h.complete (not_not.mp hopen) (not_not.mp hread) hutf

end Listing

theorem iconv_sampleTranscode : Iconv sampleTranscode := by
  refine ⟨fun text dlen hlen => ?_, fun bytes dlen utf16 h => ?_⟩
  · rw [sampleTranscode, utf8ToUtf16le_utf8, Option.filter_some, if_pos (decide_eq_true hlen)]
  · rw [sampleTranscode, Option.filter_eq_some_iff] at h
    exact eq_utf8_of_utf8ToUtf16le h.1

/-- The reply to `READDIR` for a directory with one file, whose name is a byte. -/
def oneFile (b : UInt8) : FsReply :=
  fuseReplyBuf ((fuseAddDirent Mem.zeros 0 [b] ⟨2, 0o100644⟩ 0).1.read 0 (fuseDirentSize 1))

/-- A file "a" is listed. -/
theorem dirlisting_safe_a :
    ListingSafe sampleTranscode 0 ⟨0, 0⟩ Mem.zeros Mem.zeros (fuseReplyOpen 0 0) (oneFile 0x61) := by
  refine (dirlisting_safe_iff iconv_sampleTranscode).mpr (Or.inr (Or.inr ?_))
  intro es hes hbytes hroom hconv
  cases es with
  | nil => exact ⟨['a'], by decide⟩
  | cons e rest =>
      -- the record of an entry takes all of the stream
      have hlength : streamLength (readdirReply ⟨0, 0⟩ Mem.zeros (fuseReplyOpen 0 0) (oneFile 0x61)) =
          32 := by
        decide
      have hsize : 32 ≤ e.size := by
        have hbounds := e.size_bounds
        unfold DirEntry.size fuseDirentSize fuseNameOffset at *
        omega
      have hhead := hconv.head_le
      rw [hlength, direntSizes_cons] at hhead
      unfold fuseNameOffset at hhead
      omega

/-- A file whose name is the byte 0xff is not: the name is not in UTF-8. -/
theorem dirlisting_unsafe_ff :
    ¬ ListingSafe sampleTranscode 0 ⟨0, 0⟩ Mem.zeros Mem.zeros (fuseReplyOpen 0 0) (oneFile 0xff) := by
  intro h
  have hw := h.fits 1 ⟨.fnbuf, 2 ^ 64 - 2, 2⟩ (by decide)
  rw [DirWrite.fits_iff] at hw
  exact absurd (hw (by decide)) (by decide)

end FuseNt
