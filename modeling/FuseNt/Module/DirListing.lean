/-
  FuseNt.Module.DirListing

  From the entries of a path based file system to the listing that a directory
  control request returns: `fill_dir`, the reply to the one read that
  `fusent_do_buffer_dirlisting` makes, and its translation.

  The read asks for 8192 bytes, and the listing has as many.  Without offsets
  the reply may end within a record, with offsets it ends behind one; the
  translation takes the same entries of both.
-/

import FuseNt.Module.DirReading

namespace FuseNt

open FuseNt.Lib

-- ============================================================================
-- The entries in a reply
-- ============================================================================

/-- The bytes are records for the entries, with any numbers and offsets. -/
inductive StreamOf : List DirEntry → List UInt8 → Prop
  | nil : StreamOf [] []
  | cons {e : DirEntry} {rest : List DirEntry} {bytes : List UInt8} (stbuf : FileStat) (off : Nat)
      (h : StreamOf rest bytes) :
      StreamOf (e :: rest) (direntBytes (utf8 e.text) stbuf off ++ bytes)

section Streams

variable {es : List DirEntry} {bytes : List UInt8} {m : Mem} {p : Nat}

theorem StreamOf.length (h : StreamOf es bytes) : bytes.length = direntSizes es := by
  induction h with
  | nil => rfl
  | cons stbuf off h ih =>
      rw [List.length_append, length_direntBytes, ih]
      exact (List.sum_cons ..).symm

/-- A record is read as `fuse_add_dirent` has written it. -/
theorem direntAt_of_bytes (e : DirEntry) (stbuf : FileStat) (off : Nat)
    (hm : ∀ i (hi : i < (direntBytes (utf8 e.text) stbuf off).length),
      m (p + i) = (direntBytes (utf8 e.text) stbuf off)[i]) : DirentAt m p e := by
  obtain ⟨hat, -⟩ := fuseAddDirent_spec Mem.zeros p { e with stat := stbuf, off := off }
  rw [fuseAddDirent_eq_write] at hat
  have hwritten : DirentAt (Mem.zeros.write p (direntBytes (utf8 e.text) stbuf off)) p e :=
    ⟨hat.namelen, hat.name⟩
  apply hwritten.congr
  intro i hi
  have hlen : i < (direntBytes (utf8 e.text) stbuf off).length := by
    rw [length_direntBytes]
    exact lt_of_lt_of_le hi (fuseDirentSize_ge _)
  rw [hm i hlen, Mem.write_of_mem _ _ _ _ hlen]

/-- The stream holds the entries. -/
theorem StreamOf.direntsAt (h : StreamOf es bytes)
    (hm : ∀ i (hi : i < bytes.length), m (p + i) = bytes[i]) : DirentsAt m p es := by
  induction h generalizing p with
  | nil => trivial
  | @cons e rest bytes stbuf off h ih =>
      have hsize : (direntBytes (utf8 e.text) stbuf off).length = e.size := length_direntBytes
      constructor
      · apply direntAt_of_bytes e stbuf off
        intro i hi
        rw [hm i (by rw [List.length_append]; omega), List.getElem_append_left hi]
      · apply ih
        intro i hi
        rw [Nat.add_assoc, hm _ (by rw [List.length_append]; omega),
          List.getElem_append_right (by omega)]
        congr 1
        omega

end Streams

/-- The reply is the start of a stream for the entries, and has all those that
    are whole in `room` bytes. -/
structure ReplyOf (es : List DirEntry) (room : Nat) (reply : List UInt8) : Prop where
  starts : ∃ stream, StreamOf es stream ∧ reply <+: stream
  length_le : reply.length ≤ room
  whole : ∀ k, k ≤ es.length → direntSizes (es.take k) ≤ room → direntSizes (es.take k) ≤ reply.length

/-- The entries that are taken of the reply are those that are taken of as many
    bytes as were asked for. -/
theorem ReplyOf.taken_iff {es : List DirEntry} {room : Nat} {reply : List UInt8}
    (h : ReplyOf es room reply) {size k : Nat} : Taken es reply.length size k ↔ Taken es room size k :=
  ⟨fun hk => ⟨hk.le_length, hk.whole.trans h.length_le, hk.fits⟩,
    fun hk => ⟨hk.le_length, h.whole k hk.le_length hk.whole, hk.fits⟩⟩

/-- The directory control code turns the reply into a listing of the longest
    list of entries that fits the read and the listing. -/
theorem listDirectory_of_reply {transcode : List UInt8 → Nat → Option (List UInt8)}
    (htrans : Transcodes transcode) (epoch : Nat) (outh : OutHeader) (giantbuf outbuf : Mem)
    (fh openFlags : Nat) {es : List DirEntry} {reply : List UInt8}
    (h : ReplyOf es dirBufferLength reply) :
    ∃ dl k, Settles (listDirectory transcode epoch outh giantbuf outbuf (fuseReplyOpen fh openFlags)
        (fuseReplyBuf reply)) (.ok dl) ∧
      IsGreatest {k | Taken es dirBufferLength dirBufferLength k} k ∧
      Translated dl ((es.take k).map DirEntry.name) := by
  have hsmall := h.length_le
  unfold dirBufferLength at hsmall
  obtain ⟨stream, hstream, hprefix⟩ := h.starts
  have hlength : streamLength (readdirReply outh giantbuf (fuseReplyOpen fh openFlags)
      (fuseReplyBuf reply)) = reply.length := by
    have hiov : (fuseReplyBuf reply).length = reply.length := by
      rw [fuseReplyBuf, sendReply, FsReply.length]
      split
      case isTrue hnil => rw [hnil]; rfl
      case isFalse => simp
    rw [streamLength, readdirReply, fuseSendReplyIovNofree_header, hiov]
    show ((16 + reply.length) % 2 ^ 32 + 2 ^ 64 - 16) % 2 ^ 64 = reply.length
    omega
  have hbuf : ∀ i (hi : i < reply.length), (readdirReply outh giantbuf (fuseReplyOpen fh openFlags)
      (fuseReplyBuf reply)).buf i = reply[i] := by
    intro i hi
    have hne : reply ≠ [] := List.ne_nil_of_length_pos (by omega)
    have htake : reply.take dirBufferLength = reply := List.take_of_length_le h.length_le
    have hiov : fuseReplyBuf reply = ⟨0, [reply]⟩ := by rw [fuseReplyBuf, sendReply, if_neg hne]
    rw [readdirReply, hiov]
    show ((opendirReply outh giantbuf (fuseReplyOpen fh openFlags)).buf.write 0
      (reply.take dirBufferLength)) i = reply[i]
    have hwritten := Mem.write_of_mem (opendirReply outh giantbuf (fuseReplyOpen fh openFlags)).buf 0 i
      reply hi
    rw [Nat.zero_add] at hwritten
    rw [htake, hwritten]
  have hat : DirentsAt (Mem.zeros.write 0 stream) 0 es :=
    hstream.direntsAt fun i hi => Mem.write_of_mem _ _ _ _ hi
  have hcut : ∀ i, i < reply.length → (readdirReply outh giantbuf (fuseReplyOpen fh openFlags)
      (fuseReplyBuf reply)).buf (0 + i) = Mem.zeros.write 0 stream (0 + i) := by
    intro i hi
    rw [Mem.write_of_mem _ _ _ _ (lt_of_lt_of_le hi hprefix.length_le), Nat.zero_add, hbuf i hi]
    exact hprefix.getElem hi
  have hbytes : reply.length ≤ direntSizes es := hstream.length ▸ hprefix.length_le
  have hempty : Compiled ⟨outbuf, 0, dirBufferLength, none⟩ [] := ⟨trivial, rfl, rfl, by simp⟩
  obtain ⟨s', k, hrun, hmost, hdone⟩ :=
    translateDirents_stream htrans epoch hat hbytes hcut hempty
  refine ⟨s'.toListing, k, ⟨reply.length + 1, fun fuel hfuel => ?_⟩, ?_, hdone.translated⟩
  · obtain ⟨fuel, rfl⟩ : ∃ n, fuel = n + 1 := ⟨fuel - 1, by omega⟩
    rw [(listDirectory_of_opened rfl rfl _).1, translateListing, hlength, hrun fuel (by omega)]
    rfl
  · simpa only [h.taken_iff] using hmost

-- ============================================================================
-- The replies of the module library
-- ============================================================================

/-- What a file system passes to `filler` for an entry. -/
def DirEntry.fillArgs (e : DirEntry) : FillArgs := ⟨utf8 e.text, some e.stat, e.off⟩

section Replies

variable (conf : InoConfig) (lookupNode : FileName → Option Nat) (es : List DirEntry)

theorem fillSizes_fillArgs : fillSizes (es.map DirEntry.fillArgs) = direntSizes es := by
  rw [fillSizes, List.map_map, direntSizes]
  rfl

theorem plainStream_streamOf (pos : Nat) :
    StreamOf es (plainStream conf lookupNode pos (es.map DirEntry.fillArgs)) := by
  induction es generalizing pos with
  | nil => exact .nil
  | cons e rest ih => exact .cons _ _ (ih _)

theorem offsetStream_streamOf :
    StreamOf es (offsetStream conf lookupNode (es.map DirEntry.fillArgs)) := by
  induction es with
  | nil => exact .nil
  | cons e rest ih => exact .cons _ _ ih

theorem direntSizes_take_le (es : List DirEntry) (k : Nat) :
    direntSizes (es.take k) ≤ direntSizes es := by
  rw [direntSizes, direntSizes, List.map_take]
  exact (List.take_sublist _ _).sum_le_sum fun _ _ => Nat.zero_le _

/-- Entries without offsets: the stream is cut off behind the bytes asked for. -/
theorem replyOf_plain (room : Nat) : ReplyOf es room
    ((plainStream conf lookupNode 0 (es.map DirEntry.fillArgs)).take room) where
  starts := ⟨_, plainStream_streamOf conf lookupNode es 0, List.take_prefix _ _⟩
  length_le := List.length_take_le _ _
  whole := by
    intro k hk hroom
    have hle := direntSizes_take_le es k
    rw [List.length_take, length_plainStream, fillSizes_fillArgs]
    omega

/-- Entries with offsets: the reply ends behind the last one that is whole. -/
theorem replyOf_offset (room : Nat) : ReplyOf es room
    (offsetStream conf lookupNode (roomFor room (es.map DirEntry.fillArgs))) := by
  obtain ⟨k, htake, ⟨hle, hfits⟩, hmost⟩ := roomFor_spec room (es.map DirEntry.fillArgs)
  rw [← List.map_take] at htake hfits
  rw [fillSizes_fillArgs] at hfits
  rw [htake]
  have hlength := length_offsetStream conf lookupNode ((es.take k).map DirEntry.fillArgs)
  rw [fillSizes_fillArgs] at hlength
  refine ⟨⟨_, offsetStream_streamOf conf lookupNode es, ?_⟩, ?_, fun j hj hroom => ?_⟩
  · have hsplit : es.map DirEntry.fillArgs = (es.take k).map DirEntry.fillArgs ++
        (es.drop k).map DirEntry.fillArgs := by rw [← List.map_append, List.take_append_drop]
    rw [hsplit, offsetStream, offsetStream, List.flatMap_append]
    exact List.prefix_append _ _
  · rw [hlength]
    exact hfits
  · have hjk : j ≤ k := hmost ⟨by rwa [List.length_map], by
      rw [← List.map_take, fillSizes_fillArgs]
      exact hroom⟩
    rw [hlength, ← Nat.min_eq_left hjk, ← List.take_take]
    exact direntSizes_take_le _ _

end Replies

-- ============================================================================
-- The whole way
-- ============================================================================

theorem le_first_off : -(2 ^ 63) ≤ (0 : Int) := by omega

/-- The read of `fusent_do_buffer_dirlisting`, of a directory with the entries. -/
def listingCall (lookupNode : FileName → Option Nat) (realloc : Nat → Bool) (es : List DirEntry) :
    ReaddirCall where
  size := dirBufferLength
  off := 0
  pathErr := 0
  lookupNode := lookupNode
  realloc := realloc
  fs := fillAll (es.map DirEntry.fillArgs)
  size_lt := by
    unfold dirBufferLength
    omega
  le_off := le_first_off

/-- The file system gives the entries in one of the two ways. -/
def GivenInOneWay (es : List DirEntry) : Prop :=
  ((∀ e ∈ es, e.off = 0) ∧ direntSizes es < 2 ^ 32) ∨ ∀ e ∈ es, e.off ≠ 0

/-- What `fuse_lib_readdir` passes to the low level. -/
def readdirFsReply : Except Int (List UInt8) → FsReply
  | .ok buf => fuseReplyBuf buf
  | .error err => fuseReplyErr (-err)

theorem fillAll_only {plain : Bool} {args : List FillArgs}
    (h : ∀ e ∈ args, (e.off = 0 ↔ plain = true)) : (fillAll args).Only plain := by
  induction args with
  | nil => trivial
  | cons e rest ih =>
      refine ⟨h e List.mem_cons_self, fun full => ?_⟩
      cases full with
      | true => trivial
      | false => exact ih fun e he => h e (List.mem_cons_of_mem _ he)

/-- What a file system passes on tells which entries it has. -/
theorem fillAll_injective : Function.Injective fillAll := by
  intro args
  induction args with
  | nil =>
      intro args' h
      cases args' with
      | nil => rfl
      | cons e' rest' => cases h
  | cons e rest ih =>
      intro args' h
      cases args' with
      | nil => cases h
      | cons e' rest' =>
          rw [fillAll, fillAll, DirFill.fill.injEq] at h
          obtain ⟨hname, hstat, hoff, hnext⟩ := h
          have hrest : rest = rest' := ih (congrFun hnext false)
          cases e
          cases e'
          simp only at hname hstat hoff
          rw [hname, hstat, hoff, hrest]

/-- The one read of a fresh handle returns the start of the stream, or there is
    no memory for it. -/
theorem first_read (conf : InoConfig) (m : Mem) (lookupNode : FileName → Option Nat)
    (realloc : Nat → Bool) {es : List DirEntry} (hes : GivenInOneWay es) :
    ∃ reply dh, fuseLibReaddir conf (listingCall lookupNode realloc es) (fuseLibOpendir m) =
        some (reply, dh) ∧
      ((∃ buf, reply = .ok buf ∧ ReplyOf es dirBufferLength buf) ∨
        reply = .error (-eNoMem) ∧ ∃ size, realloc size = false) := by
  have hopened : (fuseLibOpendir m).Ok := ⟨le_rfl, Nat.two_pow_pos 32⟩
  have hfailed : ∀ {reply : Except Int (List UInt8)} {err : Int}, reply = .error err →
      ReadError (listingCall lookupNode realloc es) err →
      reply = .error (-eNoMem) ∧ ∃ size, realloc size = false := by
    rintro reply err rfl (⟨rfl, hmem⟩ | ⟨hpath, hne⟩)
    · exact ⟨rfl, hmem⟩
    · exact absurd hpath hne
  rcases hes with ⟨hplain, hlt⟩ | hoffsets
  · have hargs : ∀ e ∈ es.map DirEntry.fillArgs, e.off = 0 := by
      intro e he
      obtain ⟨d, hd, rfl⟩ := List.mem_map.mp he
      exact hplain d hd
    have hfs : (listingCall lookupNode realloc es).fs.Unmixed :=
      ⟨true, fillAll_only fun e he => by simp [hargs e he]⟩
    obtain ⟨reply, dh, hserve, -⟩ := fuseLibReaddir_ok conf hopened hfs le_rfl
    refine ⟨reply, dh, hserve, ?_⟩
    have hsim := plain_simulates conf m
    obtain ⟨state, hspec, -⟩ := hsim.follow _ _ (listingCall lookupNode realloc es, reply) _
      hsim.start ⟨_, rfl, hargs, by rw [fillSizes_fillArgs]; exact hlt⟩ hserve
    cases hspec with
    | filled hasks hsame hpath hoff =>
        rw [← fillAll_injective hsame]
        exact .inl ⟨_, rfl, replyOf_plain conf lookupNode es dirBufferLength⟩
    | failed hasks herr => exact .inr (hfailed rfl herr)
  · have hargs : ∀ e ∈ es.map DirEntry.fillArgs, e.off ≠ 0 := by
      intro e he
      obtain ⟨d, hd, rfl⟩ := List.mem_map.mp he
      exact hoffsets d hd
    have hfs : (listingCall lookupNode realloc es).fs.Unmixed :=
      ⟨false, fillAll_only fun e he => by simp [hargs e he]⟩
    obtain ⟨reply, dh, hserve, -⟩ := fuseLibReaddir_ok conf hopened hfs le_rfl
    refine ⟨reply, dh, hserve, ?_⟩
    have hsim := offset_simulates conf m
    obtain ⟨ended, hspec, -⟩ := hsim.follow _ _ (listingCall lookupNode realloc es, reply) _
      hsim.start ⟨_, rfl, hargs⟩ hserve
    cases hspec with
    | filled hasks hsame hpath hoff =>
        rw [← fillAll_injective hsame]
        exact .inl ⟨_, rfl, replyOf_offset conf lookupNode es dirBufferLength⟩
    | failed hasks herr => exact .inr (hfailed rfl herr)

/-- A directory of a path based file system is listed: the listing has the names
    of the longest list of its entries, from the first on, that is whole in the
    bytes the module asks for and has room in the listing.  It does not matter
    in which way the file system gives its entries, what the node ids are and
    what the buffers held.  Without memory the request fails with ENOMEM. -/
theorem directory_listed {transcode : List UInt8 → Nat → Option (List UInt8)}
    (htrans : Transcodes transcode) (epoch : Nat) (outh : OutHeader) (giantbuf outbuf contents : Mem)
    (fh openFlags : Nat) (conf : InoConfig) (lookupNode : FileName → Option Nat)
    (realloc : Nat → Bool) {es : List DirEntry} (hes : GivenInOneWay es) :
    ∃ reply dh result,
      fuseLibReaddir conf (listingCall lookupNode realloc es) (fuseLibOpendir contents) =
        some (reply, dh) ∧
      Settles (listDirectory transcode epoch outh giantbuf outbuf (fuseReplyOpen fh openFlags)
        (readdirFsReply reply)) result ∧
      ((∃ dl k, result = .ok dl ∧
          IsGreatest {k | Taken es dirBufferLength dirBufferLength k} k ∧
          Translated dl ((es.take k).map DirEntry.name)) ∨
        result = .error eNoMem ∧ ∃ size, realloc size = false) := by
  obtain ⟨reply, dh, hserve, hreply⟩ := first_read conf contents lookupNode realloc hes
  rcases hreply with ⟨buf, rfl, hbuf⟩ | ⟨rfl, hmem⟩
  · obtain ⟨dl, k, hsettles, hmost, hdone⟩ :=
      listDirectory_of_reply htrans epoch outh giantbuf outbuf fh openFlags hbuf
    exact ⟨_, dh, .ok dl, hserve, hsettles, .inl ⟨dl, k, rfl, hmost, hdone⟩⟩
  · refine ⟨_, dh, .error eNoMem, hserve, ⟨0, fun fuel _ => ?_⟩, .inr ⟨rfl, hmem⟩⟩
    have hopen : (opendirReply outh giantbuf (fuseReplyOpen fh openFlags)).header.error = 0 := by
      rw [opendirReply, fuseSendReplyIovNofree_header]
      rfl
    have hread : (readdirReply outh giantbuf (fuseReplyOpen fh openFlags)
        (readdirFsReply (.error (-eNoMem)))).header.error = -eNoMem := by
      rw [readdirReply, fuseSendReplyIovNofree_header]
      rfl
    simp only [listDirectory, hopen, hread]
    rfl

/-- Two files, without offsets. -/
theorem directory_listed_letters :
    ∃ reply dh result,
      fuseLibReaddir ⟨false, false⟩ (listingCall (fun _ => none) (fun _ => true)
          [letterEntry 'a' (by decide), letterEntry 'b' (by decide)]) (fuseLibOpendir Mem.zeros) =
        some (reply, dh) ∧
      Settles (listDirectory sampleTranscode 0 ⟨0, 0⟩ Mem.zeros Mem.zeros (fuseReplyOpen 8 0)
        (readdirFsReply reply)) result ∧
      ((∃ dl k, result = .ok dl ∧
          IsGreatest {k | Taken [letterEntry 'a' (by decide), letterEntry 'b' (by decide)]
            dirBufferLength dirBufferLength k} k ∧
          Translated dl (([letterEntry 'a' (by decide), letterEntry 'b' (by decide)].take k).map
            DirEntry.name)) ∨
        result = .error eNoMem ∧ ∃ size, (fun _ => true) (size : Nat) = false) := by
  refine directory_listed (fun text dlen hlen => ?_) 0 ⟨0, 0⟩ Mem.zeros Mem.zeros Mem.zeros 8 0
    ⟨false, false⟩ (fun _ => none) (fun _ => true) (.inl ⟨fun e he => ?_, by decide⟩)
  · rw [sampleTranscode, utf8ToUtf16le_utf8, Option.filter_some, if_pos (decide_eq_true hlen)]
  · rcases List.mem_pair.mp he with rfl | rfl
    all_goals rfl

end FuseNt
