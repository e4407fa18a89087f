/-
  FuseNt.Module.DirControl

  How the module library answers directory queries (fuse_lowlevel.c).

  The directory is read once for a handle and kept as a buffer of chained
  `FILE_DIRECTORY_INFORMATION` records (`fusent_do_buffer_dirlisting`); each
  query then copies as many records as fit, from the handle's cursor on, and
  advances the cursor (`fusent_do_directory_control`).

  `Chained m off rs` says that the records at `off` have the names `rs`.  The
  buffer of a handle is chained, and so is the payload of every reply.
-/

import FuseNt.Driver.Query
import FuseNt.Proto

namespace FuseNt

open FuseNt.Lib

/-- `fusent_fdient_size`: the size of a record with a name of `f` bytes,
    rounded up to a multiple of 8. -/
def fusentFdientSize (f : Nat) : Nat := (sizeofFileDirectoryInformation + f - 2 + 7) / 8 * 8

/-- `FUSENT_DIRLISTING`. -/
structure DirListing where
  listing : Mem
  off : Nat
  len : Nat
  singlefile : Bool

-- ============================================================================
-- fusent_do_buffer_dirlisting
-- ============================================================================

/-- The variables of the loop that compiles the listing. -/
structure DirBuffer where
  out : Mem
  o : Nat
  nbytesout : Nat
  lastfdi : Option Nat

/-- `FILE_ATTRIBUTE_NORMAL`. -/
def fileAttributeNormal : Nat := 0x80

/-- The fields between `NextEntryOffset` and `FileNameLength`, which are filled
    in from zeroed attributes: index, four times, two sizes and the file
    attributes.  `epoch` is what `fusent_unixtime_to_wintime` makes of 0. -/
def recordAttrs (epoch : Nat) : List UInt8 :=
  leBytes 4 0 ++ leBytes 8 epoch ++ leBytes 8 epoch ++ leBytes 8 epoch ++ leBytes 8 epoch ++
    leBytes 8 0 ++ leBytes 8 0 ++ leBytes 4 fileAttributeNormal

/-- Store a record. -/
def storeRecord (m : Mem) (off epoch : Nat) (name : List UInt8) : Mem :=
  (((m.writeLe off 4 (fusentFdientSize name.length)).write (off + 4) (recordAttrs epoch)).writeLe
    (off + 60) 4 name.length).write (off + dirFileNameOffset) name

/-- The name of a directory entry in UTF-16.  In UTF-8 it has 1 to
    `FUSE_NAME_MAX` = 1024 bytes, and it is transcoded into a buffer of as many
    characters. -/
@[ext] structure DirName where
  bytes : List UInt8
  two_le : 2 ≤ bytes.length
  length_le : bytes.length ≤ 2048
deriving DecidableEq

/-- The loop over the directory entries; `none` is an entry whose name is empty
    or longer than `FUSE_NAME_MAX`. -/
def bufferDirents (epoch : Nat) : DirBuffer → List (Option DirName) → Except Int DirBuffer
  | s, [] => .ok s
  | s, dirent :: rest =>
      if sizeofFileDirectoryInformation ≤ s.nbytesout then
        match dirent with
        | none => .error eIo
        | some name =>
            let fdilen := fusentFdientSize name.bytes.length
            if s.nbytesout < fdilen then .ok s
            else
              bufferDirents epoch
                { out := storeRecord s.out s.o epoch name.bytes
                  o := s.o + fdilen
                  nbytesout := s.nbytesout - fdilen
                  lastfdi := some s.o } rest
      else .ok s

/-- What follows the loop: the last record is made to end the chain. -/
def DirBuffer.toListing (s : DirBuffer) : DirListing :=
  match s.lastfdi with
  | some l =>
      { listing := s.out.writeLe l 4 0
        off := 0
        len := l + dirFileNameOffset + fileNameLength s.out l
        singlefile := false }
  | none => { listing := s.out, off := 0, len := 0, singlefile := false }

@[simp] theorem DirBuffer.toListing_off (s : DirBuffer) : s.toListing.off = 0 := by
  unfold toListing
  split <;> rfl

/-- `fusent_do_buffer_dirlisting`, with a buffer `listbuf` of 8192 bytes from
    `malloc`; `dir` is what the file system returns for `OPENDIR` and
    `READDIR`, an error or the entries. -/
def fusentDoBufferDirlisting (listbuf : Mem) (epoch : Nat)
    (dir : Except Int (List (Option DirName))) : Except Int DirListing := do
  let dirents ← dir
  let s ← bufferDirents epoch ⟨listbuf, 0, 8192, none⟩ dirents
  return s.toListing

-- ============================================================================
-- fusent_do_directory_control
-- ============================================================================

/-- The variables of the copy loop; `p` and `o` are offsets in the listing and
    in the reply. -/
structure DirSend where
  bytesleft : Nat
  p : Nat
  o : Nat
  out : Mem
  lastfdi : Option Nat
  recordscopied : Nat
  singlefile : Bool

/-- The copy loop; `none` if it has not ended within its fuel. -/
def copyListing (listing : Mem) (len : Nat) (singleEntry : Bool) : Nat → DirSend → Option DirSend
  | 0, _ => none
  | fuel + 1, s =>
      if sizeofFileDirectoryInformation ≤ s.bytesleft ∧ s.p < len then
        let fdilen := fusentFdientSize (fileNameLength listing s.p)
        if s.bytesleft < fdilen then some s
        else
          let s' : DirSend :=
            { bytesleft := s.bytesleft - fdilen
              p := s.p + fdilen
              o := s.o + fdilen
              out := s.out.write s.o (listing.read s.p fdilen)
              lastfdi := some s.o
              recordscopied := s.recordscopied + 1
              singlefile := s.singlefile }
          if nextEntryOffset listing s.p = 0 then some s'
          else if singleEntry then some { s' with singlefile := true }
          else if s.singlefile then some s'
          else copyListing listing len singleEntry fuel s'
      else some s

/-- A reply that is a header with the given status only. -/
def fusentReplyStatus (m : Mem) (pirp : Pirp) (fop : Pfile) (status : NtStatus) : Message :=
  ⟨(fusentFillResp m pirp fop 0).writeLe respStatusOffset 4 status.toNat, sizeofFusentResp⟩

/-- The answer from a handle's listing: the reply, the new listing, and
    `recordscopied`. -/
def sendListing (fuel : Nat) (outbuf : Mem) (dl : DirListing) (length : Nat) (singleEntry : Bool)
    (pirp : Pirp) (fop : Pfile) : Option (Message × DirListing × Nat) :=
  if dl.len ≤ dl.off then
    some (fusentReplyStatus outbuf pirp fop statusNoMoreFiles, dl, 0)
  else do
    let s ← copyListing dl.listing dl.len singleEntry fuel
      ⟨length, dl.off, sizeofFusentResp, outbuf, none, 0, dl.singlefile⟩
    match s.lastfdi with
    | none =>
        some (fusentReplyStatus outbuf pirp fop statusBufferOverflow,
          { dl with singlefile := s.singlefile }, 0)
    | some l =>
        some (fusentReplyDirctrl (s.out.writeLe l 4 0) pirp fop (s.o % 2 ^ 32),
          { dl with off := s.p, singlefile := s.singlefile }, s.recordscopied)

def irpMnQueryDirectory : UInt8 := 1

def slRestartScan : UInt8 := 1

def slReturnSingleEntry : UInt8 := 2

/-- The environment of a directory request: whether the handle is known, what
    the file system returns for the directory, the converted time 0, and what
    is in the two buffers that `malloc` returns. -/
structure DirEnv where
  opened : Bool
  dir : Except Int (List (Option DirName))
  epoch : Nat
  listbuf : Mem
  outbuf : Mem

/-- The listing that a request is answered from.  With `SL_RESTART_SCAN` the old
    listing is dropped first. -/
def dirlistingFor (env : DirEnv) (sp : IoStackLocation) (handle : Option DirListing) :
    Except Int DirListing :=
  let kept := if sp.flags &&& slRestartScan != 0 then none else handle
  match kept with
  | some dl => .ok dl
  | none => fusentDoBufferDirlisting env.listbuf env.epoch env.dir

/-- `irpsp->Flags & SL_RETURN_SINGLE_ENTRY`. -/
def singleEntry (sp : IoStackLocation) : Bool := sp.flags &&& slReturnSingleEntry != 0

/-- `fusent_do_directory_control` on the stack location `sp`, for a handle that
    may have a listing: the reply, the handle's new listing, and the number of
    records copied into the reply. -/
def fusentDoDirectoryControl (fuel : Nat) (env : DirEnv) (sp : IoStackLocation) (pirp : Pirp)
    (fop : Pfile) (handle : Option DirListing) : Option (Message × Option DirListing × Nat) :=
  if sp.minorFunction ≠ irpMnQueryDirectory then
    some (fusentReplyError env.outbuf pirp fop eNoSys, handle, 0)
  else if !env.opened then
    some (fusentReplyError env.outbuf pirp fop eBadF, handle, 0)
  else
    match dirlistingFor env sp handle with
    | .error err => some (fusentReplyError env.outbuf pirp fop err, none, 0)
    | .ok dl => do
        let (msg, dl', n) ← sendListing fuel env.outbuf dl sp.queryDirectoryLength
          (singleEntry sp) pirp fop
        some (msg, some dl', n)

-- ============================================================================
-- Chained records
-- ============================================================================

namespace DirName

/-- The size of the record for a name. -/
def size (x : DirName) : Nat := fusentFdientSize x.bytes.length

/-- A record holds its fields, and some padding. -/
theorem size_bounds (x : DirName) :
    70 + x.bytes.length ≤ x.size ∧ x.size ≤ 77 + x.bytes.length ∧ 72 ≤ x.size := by
  have h2 := x.two_le
  simp only [size, fusentFdientSize, sizeofFileDirectoryInformation]
  omega

end DirName

/-- The size of the records for a list of names. -/
def sizes (rs : List DirName) : Nat := (rs.map DirName.size).sum

@[simp] theorem sizes_nil : sizes [] = 0 := rfl

@[simp] theorem sizes_cons (x : DirName) (rs : List DirName) :
    sizes (x :: rs) = x.size + sizes rs := by
  simp [sizes]

@[simp] theorem sizes_append (rs rs' : List DirName) : sizes (rs ++ rs') = sizes rs + sizes rs' := by
  simp [sizes]

/-- The record at `off` has the name `x`. -/
def NameAt (m : Mem) (off : Nat) (x : DirName) : Prop :=
  fileNameLength m off = x.bytes.length ∧ m.read (off + dirFileNameOffset) x.bytes.length = x.bytes

/-- The records at `off` have the names `rs`, and each leads to the next. -/
def Linked (m : Mem) : Nat → List DirName → Prop
  | _, [] => True
  | off, x :: rest =>
      nextEntryOffset m off = x.size ∧ NameAt m off x ∧ Linked m (off + x.size) rest

/-- The records at `off` have the names `rs`, each but the last leads to the
    next, and the last ends the chain. -/
def Chained (m : Mem) : Nat → List DirName → Prop
  | _, [] => True
  | off, x :: rest =>
      nextEntryOffset m off = (if rest = [] then 0 else x.size) ∧ NameAt m off x ∧
        Chained m (off + x.size) rest

section Chained

variable {m m' : Mem} {off : Nat} {x : DirName} {rs : List DirName}

theorem NameAt.congr {off' : Nat} (h : NameAt m off x)
    (hm : ∀ i, i < x.size → m' (off' + i) = m (off + i)) : NameAt m' off' x := by
  have hsize := x.size_bounds
  obtain ⟨hlen, hname⟩ := h
  refine ⟨?_, ?_⟩
  · rw [← hlen]
    refine Mem.readLe_congr fun i hi => ?_
    rw [Nat.add_assoc, Nat.add_assoc]
    exact hm _ (by omega)
  · rw [← hname]
    simp only [Mem.length_read]
    refine Mem.read_congr fun i hi => ?_
    rw [Nat.add_assoc, Nat.add_assoc]
    exact hm _ (by unfold dirFileNameOffset; omega)

theorem Linked.congr (h : Linked m off rs) (hm : ∀ i, i < sizes rs → m' (off + i) = m (off + i)) :
    Linked m' off rs := by
  induction rs generalizing off with
  | nil => trivial
  | cons x rest ih =>
      obtain ⟨hnext, hname, hrest⟩ := h
      have hsize := x.size_bounds
      rw [sizes_cons] at hm
      refine ⟨?_, hname.congr fun i hi => hm i (by omega), ih hrest fun i hi => ?_⟩
      · rw [← hnext]
        exact Mem.readLe_congr fun i hi => hm i (by omega)
      · rw [Nat.add_assoc]
        exact hm _ (by omega)

theorem Chained.congr (h : Chained m off rs)
    (hm : ∀ i, i < sizes rs → m' (off + i) = m (off + i)) : Chained m' off rs := by
  induction rs generalizing off with
  | nil => trivial
  | cons x rest ih =>
      obtain ⟨hnext, hname, hrest⟩ := h
      have hsize := x.size_bounds
      rw [sizes_cons] at hm
      refine ⟨?_, hname.congr fun i hi => hm i (by omega), ih hrest fun i hi => ?_⟩
      · rw [← hnext]
        exact Mem.readLe_congr fun i hi => hm i (by omega)
      · rw [Nat.add_assoc]
        exact hm _ (by omega)

theorem linked_append {rs' : List DirName} :
    Linked m off (rs ++ rs') ↔ Linked m off rs ∧ Linked m (off + sizes rs) rs' := by
  induction rs generalizing off with
  | nil => simp [Linked]
  | cons x rest ih => simp [Linked, ih, and_assoc, Nat.add_assoc]

/-- Clearing the link of the last record ends the chain. -/
theorem Linked.terminate (hl : Linked m off rs) (hx : NameAt m (off + sizes rs) x) :
    Chained (m.writeLe (off + sizes rs) 4 0) off (rs ++ [x]) := by
  induction rs generalizing off with
  | nil =>
      refine ⟨?_, ?_, trivial⟩
      · simp only [sizes_nil, Nat.add_zero, nextEntryOffset, if_true]
        rw [Mem.readLe_writeLe_same, Nat.zero_mod]
      · have hbounds := x.size_bounds
        obtain ⟨hlen, hname⟩ := hx
        rw [sizes_nil, Nat.add_zero] at hlen hname ⊢
        refine ⟨?_, ?_⟩
        · rw [← hlen]
          exact Mem.readLe_writeLe_disjoint _ _ _ _ _ _ (by omega)
        · rw [Mem.writeLe, Mem.read_write_disjoint _ _ _ _ _
            (by unfold dirFileNameOffset; simp), hname]
  | cons y rest ih =>
      obtain ⟨hnext, hname, hrest⟩ := hl
      have hsize := y.size_bounds
      have hassoc : off + sizes (y :: rest) = off + y.size + sizes rest := by
        rw [sizes_cons]
        omega
      rw [hassoc] at hx ⊢
      have hkeep : ∀ i, i < y.size →
          (m.writeLe (off + y.size + sizes rest) 4 0) (off + i) = m (off + i) :=
        fun i hi => Mem.writeLe_of_not_mem _ _ _ _ _ (by omega)
      refine ⟨?_, hname.congr hkeep, ih hrest hx⟩
      have hsame : nextEntryOffset (m.writeLe (off + y.size + sizes rest) 4 0) off =
          nextEntryOffset m off :=
        Mem.readLe_congr fun i hi => hkeep i (by omega)
      rw [if_neg (by simp), hsame, hnext]

/-- The bytes determine a chain. -/
theorem Chained.unique {rs' : List DirName} (h : Chained m off rs) (h' : Chained m off rs')
    (hne : rs ≠ []) (hne' : rs' ≠ []) : rs = rs' := by
  induction rs generalizing off rs' with
  | nil => exact absurd rfl hne
  | cons x rest ih =>
      cases rs' with
      | nil => exact absurd rfl hne'
      | cons y rest' =>
          obtain ⟨hnext, ⟨hlen, hname⟩, hrest⟩ := h
          obtain ⟨hnext', ⟨hlen', hname'⟩, hrest'⟩ := h'
          have hxy : x = y := by
            rw [← hlen, hlen'] at hname
            exact DirName.ext (hname.symm.trans hname')
          subst hxy
          have hsize := x.size_bounds
          congr 1
          rw [hnext] at hnext'
          by_cases hr : rest = [] <;> by_cases hr' : rest' = []
          · rw [hr, hr']
          · rw [if_pos hr, if_neg hr'] at hnext'
            omega
          · rw [if_neg hr, if_pos hr'] at hnext'
            omega
          · exact ih hrest hrest' hr hr'

end Chained

-- ============================================================================
-- The listing of a handle
-- ============================================================================

/-- The records `rs` are what is left of a handle's listing, from the cursor on. -/
structure Left (dl : DirListing) (rs : List DirName) : Prop where
  chained : Chained dl.listing dl.off rs
  nil : rs = [] → dl.len ≤ dl.off
  last : ∀ init x, rs = init ++ [x] →
    dl.off + sizes init < dl.len ∧ dl.len ≤ dl.off + sizes rs
  bound : sizes rs ≤ 8192

theorem Left.congr {dl dl' : DirListing} {rs : List DirName} (h : Left dl rs)
    (hlisting : dl'.listing = dl.listing) (hoff : dl'.off = dl.off) (hlen : dl'.len = dl.len) :
    Left dl' rs := by
  obtain ⟨hch, hnil, hlast, hbound⟩ := h
  rw [← hlisting, ← hoff] at hch
  rw [← hoff, ← hlen] at hnil hlast
  exact ⟨hch, hnil, hlast, hbound⟩

/-- What is left is determined by the listing and the cursor. -/
theorem Left.unique {dl : DirListing} {rs rs' : List DirName} (h : Left dl rs)
    (h' : Left dl rs') : rs = rs' := by
  have hopen : ∀ {rs}, Left dl rs → rs ≠ [] → ¬ dl.len ≤ dl.off := by
    intro rs h hne
    obtain ⟨init, x, heq⟩ := (List.eq_nil_or_concat rs).resolve_left hne
    have := h.last init x (by rw [heq, List.concat_eq_append])
    omega
  by_cases hne : rs = [] <;> by_cases hne' : rs' = []
  · rw [hne, hne']
  · exact absurd (h.nil hne) (hopen h' hne')
  · exact absurd (h'.nil hne') (hopen h hne)
  · exact h.chained.unique h'.chained hne hne'

@[simp] theorem length_recordAttrs (epoch : Nat) : (recordAttrs epoch).length = 56 := by
  simp [recordAttrs]

/-- A stored record leads to the place behind it, and has its name. -/
theorem storeRecord_spec (m : Mem) (off epoch : Nat) (x : DirName) :
    nextEntryOffset (storeRecord m off epoch x.bytes) off = x.size ∧
      NameAt (storeRecord m off epoch x.bytes) off x ∧
      ∀ i, i < off → storeRecord m off epoch x.bytes i = m i := by
  have hsize := x.size_bounds
  have hlen := x.length_le
  unfold storeRecord
  refine ⟨?_, ⟨?_, ?_⟩, ?_⟩
  · rw [nextEntryOffset, Mem.readLe_write_disjoint _ _ _ _ _ (by unfold dirFileNameOffset; omega),
      Mem.readLe_writeLe_disjoint _ _ _ _ _ _ (by omega),
      Mem.readLe_write_disjoint _ _ _ _ _ (by omega), Mem.readLe_writeLe_same]
    exact Nat.mod_eq_of_lt (show x.size < _ by omega)
  · rw [fileNameLength, Mem.readLe_write_disjoint _ _ _ _ _ (by unfold dirFileNameOffset; omega),
      Mem.readLe_writeLe_same]
    exact Nat.mod_eq_of_lt (by omega)
  · exact Mem.read_write_same ..
  · intro i hi
    rw [Mem.write_of_not_mem _ _ _ _ (by omega), Mem.writeLe_of_not_mem _ _ _ _ _ (by omega),
      Mem.write_of_not_mem _ _ _ _ (by omega), Mem.writeLe_of_not_mem _ _ _ _ _ (by omega)]

/-- What the loop has compiled: the records `done`. -/
structure Compiled (s : DirBuffer) (done : List DirName) : Prop where
  linked : Linked s.out 0 done
  place : s.o = sizes done
  room : s.nbytesout + sizes done = 8192
  lastfdi : ∀ l, s.lastfdi = some l ↔ ∃ init x, done = init ++ [x] ∧ l = sizes init

/-- One record more. -/
theorem Compiled.store {s : DirBuffer} {done : List DirName} (hc : Compiled s done) (epoch : Nat)
    (x : DirName) (hroom : ¬ s.nbytesout < x.size) :
    Compiled ⟨storeRecord s.out s.o epoch x.bytes, s.o + x.size, s.nbytesout - x.size, some s.o⟩
      (done ++ [x]) := by
  obtain ⟨hnext, hname, hkeep⟩ := storeRecord_spec s.out s.o epoch x
  have hplace := hc.place
  have hspace := hc.room
  refine ⟨linked_append.mpr ⟨hc.linked.congr fun i hi => ?_, ?_⟩, ?_, ?_, fun l => ?_⟩
  · rw [Nat.zero_add]
    exact hkeep i (by omega)
  · rw [Nat.zero_add, ← hplace]
    exact ⟨hnext, hname, trivial⟩
  · simp [hplace]
  · simp only [sizes_append, sizes_cons, sizes_nil]
    omega
  · constructor
    · rintro ⟨⟩
      exact ⟨done, x, rfl, hplace⟩
    · rintro ⟨init, y, heq, rfl⟩
      obtain ⟨rfl, -⟩ := List.append_inj' heq rfl
      rw [hplace]

/-- The loop compiles entries from the first on. -/
theorem bufferDirents_compiled (epoch : Nat) {dirents : List (Option DirName)}
    {done : List DirName} {s s' : DirBuffer} (hc : Compiled s done)
    (h : bufferDirents epoch s dirents = .ok s') :
    ∃ taken, taken.map some <+: dirents ∧ Compiled s' (done ++ taken) := by
  have hstop : s = s' → ∃ taken, taken.map some <+: dirents ∧ Compiled s' (done ++ taken) := by
    rintro rfl
    exact ⟨[], List.nil_prefix, by rwa [List.append_nil]⟩
  induction dirents generalizing s done with
  | nil =>
      rw [bufferDirents, Except.ok.injEq] at h
      exact hstop h
  | cons dirent dirents ih =>
      simp only [bufferDirents] at h
      split at h
      · cases dirent with
        | none => simp at h
        | some x =>
            simp only at h
            split at h
            · exact hstop (Except.ok.inj h)
            · rename_i hroom
              obtain ⟨taken, hpre, hc'⟩ := ih (hc.store epoch x hroom) h (by
                rintro rfl
                exact ⟨[], List.nil_prefix, by rw [List.append_nil]; exact hc.store epoch x hroom⟩)
              refine ⟨x :: taken, List.cons_prefix_cons.mpr ⟨rfl, hpre⟩, ?_⟩
              rwa [List.append_assoc] at hc'
      · exact hstop (Except.ok.inj h)

/-- A compiled listing has all its records left. -/
theorem Compiled.left {s : DirBuffer} {rs : List DirName} (hc : Compiled s rs) :
    Left s.toListing rs := by
  have hroom := hc.room
  rcases List.eq_nil_or_concat rs with rfl | ⟨init, x, rfl⟩
  · have hnone : s.lastfdi = none := by
      rw [Option.eq_none_iff_forall_not_mem]
      intro l hl
      obtain ⟨init, x, heq, -⟩ := (hc.lastfdi l).mp hl
      simp at heq
    refine ⟨trivial, fun _ => ?_, by simp, by simp⟩
    simp [DirBuffer.toListing, hnone]
  · rw [List.concat_eq_append] at *
    have hsome : s.lastfdi = some (sizes init) := (hc.lastfdi _).mpr ⟨init, x, rfl, rfl⟩
    obtain ⟨hinit, hx⟩ := linked_append.mp hc.linked
    have hname : NameAt s.out (0 + sizes init) x := hx.2.1
    have hchain := hinit.terminate hname
    have hlen := hname.1
    rw [Nat.zero_add] at hchain hlen
    have hsize := x.size_bounds
    refine ⟨?_, by simp, ?_, by omega⟩
    · simpa [DirBuffer.toListing, hsome] using hchain
    · intro init' y heq
      obtain ⟨rfl, -⟩ := List.append_inj' heq rfl
      simp only [DirBuffer.toListing, hsome, hlen, dirFileNameOffset, sizes_append, sizes_cons,
        sizes_nil]
      omega

/-- A fresh listing has entries of the directory left, from the first on. -/
theorem fusentDoBufferDirlisting_left {listbuf : Mem} {epoch : Nat}
    {dir : Except Int (List (Option DirName))} {dl : DirListing}
    (h : fusentDoBufferDirlisting listbuf epoch dir = .ok dl) :
    ∃ dirents rs, dir = .ok dirents ∧ rs.map some <+: dirents ∧ Left dl rs ∧ dl.off = 0 := by
  cases dir with
  | error err => simp [fusentDoBufferDirlisting, bind, Except.bind] at h
  | ok dirents =>
      simp only [fusentDoBufferDirlisting, bind, Except.bind, pure, Except.pure] at h
      cases hs : bufferDirents epoch ⟨listbuf, 0, 8192, none⟩ dirents with
      | error err => simp [hs] at h
      | ok s =>
          simp only [hs, Except.ok.injEq] at h
          have hempty : Compiled ⟨listbuf, 0, 8192, none⟩ [] := ⟨trivial, rfl, rfl, by simp⟩
          obtain ⟨rs, hpre, hc⟩ := bufferDirents_compiled epoch hempty hs
          exact ⟨dirents, rs, rfl, hpre, h ▸ hc.left, h ▸ s.toListing_off⟩

-- ============================================================================
-- The copy loop
-- ============================================================================

/-- How many of the records `rs` fit in `b` bytes; one at most if `single`. -/
def fitting (single : Bool) : Nat → List DirName → Nat
  | _, [] => 0
  | b, x :: rest =>
      if b < x.size then 0
      else if single then 1
      else fitting single (b - x.size) rest + 1

theorem sizes_take_fitting_le (single : Bool) (b : Nat) (rs : List DirName) :
    sizes (rs.take (fitting single b rs)) ≤ b := by
  induction rs generalizing b with
  | nil => simp
  | cons x rest ih =>
      unfold fitting
      split
      · simp
      · split
        · simp
          omega
        · have := ih (b - x.size)
          simp only [List.take_succ_cons, sizes_cons]
          omega

theorem Chained.drop {m : Mem} {off : Nat} {rs : List DirName} (h : Chained m off rs) (n : Nat) :
    Chained m (off + sizes (rs.take n)) (rs.drop n) := by
  induction n generalizing off rs with
  | zero => simpa using h
  | succ n ih =>
      cases rs with
      | nil => trivial
      | cons x rest =>
          have := ih h.2.2
          rwa [Nat.add_assoc] at this

/-- What the copy loop has done when it ends: it has copied the records
    `copied` from where it was, and the last of them is linked to nothing yet. -/
structure CopiedRecords (listing : Mem) (s s' : DirSend) (copied : List DirName) : Prop where
  records : s'.recordscopied = s.recordscopied + copied.length
  p : s'.p = s.p + sizes copied
  o : s'.o = s.o + sizes copied
  keeps : ∀ i, i < s.o → s'.out i = s.out i
  bytes : ∀ i, i < sizes copied → s'.out (s.o + i) = listing (s.p + i)
  none : copied = [] → s'.lastfdi = s.lastfdi
  some : ∀ init x, copied = init ++ [x] → s'.lastfdi = some (s.o + sizes init) ∧
    Linked s'.out s.o init ∧ NameAt s'.out (s.o + sizes init) x

theorem CopiedRecords.refl (listing : Mem) (s : DirSend) : CopiedRecords listing s s [] :=
  ⟨rfl, rfl, rfl, fun _ _ => rfl, by simp, fun _ => rfl, by simp⟩

/-- The record `x` copied from the listing. -/
def copyRecord (listing : Mem) (s : DirSend) (x : DirName) (single : Bool) : DirSend :=
  { bytesleft := s.bytesleft - x.size
    p := s.p + x.size
    o := s.o + x.size
    out := s.out.write s.o (listing.read s.p x.size)
    lastfdi := some s.o
    recordscopied := s.recordscopied + 1
    singlefile := single }

section Copy

variable {listing : Mem} {s s' : DirSend} {x : DirName} {rest : List DirName} {single : Bool}

theorem copyRecord_out (i : Nat) (hi : i < x.size) :
    (copyRecord listing s x single).out (s.o + i) = listing (s.p + i) := by
  have hi' : i < (listing.read s.p x.size).length := by simpa using hi
  exact (Mem.write_of_mem s.out s.o i _ hi').trans (Mem.getElem_read ..)

theorem copyRecord_keeps (i : Nat) (hi : i < s.o) :
    (copyRecord listing s x single).out i = s.out i :=
  Mem.write_of_not_mem _ _ _ _ (.inl hi)

/-- A record copied, and nothing behind it. -/
theorem CopiedRecords.one (hx : NameAt listing s.p x) :
    CopiedRecords listing s (copyRecord listing s x single) [x] := by
  refine ⟨rfl, by simp [copyRecord], by simp [copyRecord], copyRecord_keeps, fun i hi => ?_,
    by simp, ?_⟩
  · exact copyRecord_out i (by simpa using hi)
  intro init y heq
  obtain ⟨rfl, hxy⟩ := List.append_inj' (show [] ++ [x] = init ++ [y] from heq) rfl
  obtain rfl : x = y := by simpa using hxy
  exact ⟨by simp [copyRecord], trivial, hx.congr copyRecord_out⟩

/-- A record copied, and then more. -/
theorem CopiedRecords.cons (hnext : nextEntryOffset listing s.p = x.size) (hx : NameAt listing s.p x)
    (hc : CopiedRecords listing (copyRecord listing s x single) s' rest) :
    CopiedRecords listing s s' (x :: rest) := by
  have hsize := x.size_bounds
  have ho : (copyRecord listing s x single).o = s.o + x.size := rfl
  have hout : ∀ i, i < x.size → s'.out (s.o + i) = listing (s.p + i) := by
    intro i hi
    rw [hc.keeps _ (by omega), copyRecord_out i hi]
  refine ⟨?_, ?_, ?_, ?_, ?_, by simp, ?_⟩
  · rw [hc.records]
    simp [copyRecord]
    omega
  · rw [hc.p]
    simp [copyRecord, Nat.add_assoc]
  · rw [hc.o, ho, sizes_cons, Nat.add_assoc]
  · intro i hi
    rw [hc.keeps i (by omega), copyRecord_keeps i hi]
  · intro i hi
    by_cases hx : i < x.size
    · exact hout i hx
    · have hrest := hc.bytes (i - x.size) (by rw [sizes_cons] at hi; omega)
      have hp : (copyRecord listing s x single).p = s.p + x.size := rfl
      rw [ho, hp] at hrest
      rw [show s.o + i = s.o + x.size + (i - x.size) by omega,
        show s.p + i = s.p + x.size + (i - x.size) by omega]
      exact hrest
  · intro init y heq
    rcases List.eq_nil_or_concat rest with rfl | ⟨init', z, rfl⟩
    · obtain ⟨rfl, hxy⟩ := List.append_inj' (show [] ++ [x] = init ++ [y] from heq) rfl
      obtain rfl : x = y := by simpa using hxy
      exact ⟨by rw [hc.none rfl]; rfl, trivial, hx.congr hout⟩
    · rw [List.concat_eq_append] at hc heq
      obtain ⟨rfl, hzy⟩ := List.append_inj' (show (x :: init') ++ [z] = init ++ [y] from heq) rfl
      obtain rfl : z = y := by simpa using hzy
      obtain ⟨hlast, hlinked, hname⟩ := hc.some init' z rfl
      rw [ho] at hlast hlinked hname
      rw [sizes_cons, ← Nat.add_assoc]
      refine ⟨hlast, ⟨?_, hx.congr hout, hlinked⟩, hname⟩
      rw [← hnext]
      exact Mem.readLe_congr fun i hi => hout i (by omega)

end Copy

/-- A round of the copy loop at the record `x`. -/
theorem copyListing_record {listing : Mem} {len : Nat} {s : DirSend} {x : DirName}
    (hx : NameAt listing s.p x) (hp : s.p < len) (single : Bool) (fuel : Nat) :
    copyListing listing len single (fuel + 1) s =
      if s.bytesleft < x.size then some s
      else if nextEntryOffset listing s.p = 0 then some (copyRecord listing s x s.singlefile)
      else if single then some (copyRecord listing s x true)
      else if s.singlefile then some (copyRecord listing s x s.singlefile)
      else copyListing listing len single fuel (copyRecord listing s x s.singlefile) := by
  have hsize := x.size_bounds
  have hfdilen : fusentFdientSize (fileNameLength listing s.p) = x.size := by
    rw [hx.1, DirName.size]
  rw [copyListing]
  simp only [hfdilen, hp, and_true]
  by_cases hroom : s.bytesleft < x.size
  · simp [hroom]
  · have hbasic : sizeofFileDirectoryInformation ≤ s.bytesleft := by
      unfold sizeofFileDirectoryInformation
      omega
    simp only [hroom, if_false, hbasic, if_true]
    rfl

/-- The copy loop ends, and has copied the records that fit.  While records are
    left, the handle is in single-entry mode if it was before or if a record
    was copied under the flag. -/
theorem copyListing_copied (len : Nat) (single : Bool) {listing : Mem} {rs : List DirName}
    {s : DirSend} (hne : rs ≠ []) (hch : Chained listing s.p rs)
    (hlen : ∀ init x, rs = init ++ [x] → s.p + sizes init < len) :
    ∃ s', (∀ fuel, rs.length ≤ fuel → copyListing listing len single (fuel + 1) s = some s') ∧
      CopiedRecords listing s s' (rs.take (fitting (single || s.singlefile) s.bytesleft rs)) ∧
      (rs.drop (fitting (single || s.singlefile) s.bytesleft rs) ≠ [] →
        s'.singlefile = (s.singlefile ||
          (single && decide (0 < fitting (single || s.singlefile) s.bytesleft rs)))) := by
  induction rs generalizing s with
  | nil => exact absurd rfl hne
  | cons x rest ih =>
      obtain ⟨hnext, hx, hrest⟩ := hch
      have hsize := x.size_bounds
      have hp : s.p < len := by
        obtain ⟨init, y, heq⟩ := (List.eq_nil_or_concat (x :: rest)).resolve_left hne
        rw [List.concat_eq_append] at heq
        have := hlen init y heq
        omega
      simp only [copyListing_record hx hp]
      unfold fitting
      by_cases hroom : s.bytesleft < x.size
      · simp only [hroom, if_true]
        exact ⟨s, fun _ _ => rfl, .refl listing s, by simp⟩
      simp only [hroom, if_false]
      by_cases hlast : rest = []
      · subst hlast
        rw [if_pos rfl] at hnext
        simp only [hnext, if_true]
        refine ⟨_, fun _ _ => rfl, ?_, ?_⟩
        · have htake : [x].take (if (single || s.singlefile) = true then 1
              else fitting (single || s.singlefile) (s.bytesleft - x.size) [] + 1) = [x] := by
            split <;> simp
          rw [htake]
          exact .one hx
        · split <;> simp
      rw [if_neg hlast] at hnext
      have hlink : nextEntryOffset listing s.p ≠ 0 := by omega
      simp only [hlink, if_false]
      cases single with
      | true => exact ⟨_, fun _ _ => rfl, by simpa using .one hx, by simp [copyRecord]⟩
      | false =>
          cases hsf : s.singlefile with
          | true => exact ⟨_, fun _ _ => rfl, by simpa using .one hx, by simp [copyRecord]⟩
          | false =>
              obtain ⟨s', hs', hc, hsingle⟩ := ih (s := copyRecord listing s x false) hlast hrest
                fun init y heq => by
                  have := hlen (x :: init) y (by rw [heq, List.cons_append])
                  rwa [sizes_cons, ← Nat.add_assoc] at this
              refine ⟨s', fun fuel hfuel => ?_, ?_, ?_⟩
              · obtain ⟨fuel, rfl⟩ : ∃ k, fuel = k + 1 := ⟨fuel - 1, by simp at hfuel; omega⟩
                simpa using hs' fuel (by simpa using hfuel)
              · simpa [copyRecord] using CopiedRecords.cons hnext hx hc
              · simpa [copyRecord] using hsingle

-- ============================================================================
-- The reply
-- ============================================================================

/-- A message with the records `rs` behind its header. -/
structure Payload (msg : Message) (rs : List DirName) : Prop where
  length : msg.length = sizeofFusentResp + sizes rs
  buflen : msg.bytes.readLe respParamsOffset 4 = sizes rs
  chained : Chained msg.bytes sizeofFusentResp rs

section Reply

variable (m : Mem) (pirp : Pirp) (fop : Pfile)

theorem fusentFillResp_buflen (error : Int) :
    (fusentFillResp m pirp fop error).readLe respParamsOffset 4 = 0 := by
  have hzero : (fusentFillResp m pirp fop error).readLe respParamsOffset 4 =
      Mem.zeros.readLe 0 4 :=
    Mem.readLe_congr fun i hi =>
      fusentFillResp_params _ _ _ _ (by unfold respParamsOffset sizeofFusentResp; omega)
  rw [hzero]
  rfl

theorem payload_fusentReplyError (error : Int) :
    Payload (fusentReplyError m pirp fop error) [] :=
  ⟨rfl, fusentFillResp_buflen m pirp fop (-error), trivial⟩

theorem payload_fusentReplyStatus (status : NtStatus) :
    Payload (fusentReplyStatus m pirp fop status) [] := by
  refine ⟨rfl, ?_, trivial⟩
  rw [fusentReplyStatus, Mem.readLe_writeLe_disjoint _ _ _ _ _ _ (by decide),
    fusentFillResp_buflen]
  rfl

theorem payload_fusentReplyDirctrl {rs : List DirName} (hsize : sizes rs ≤ 8192)
    (hch : Chained m sizeofFusentResp rs) :
    Payload (fusentReplyDirctrl m pirp fop ((sizeofFusentResp + sizes rs) % 2 ^ 32)) rs := by
  have hlen : (sizeofFusentResp + sizes rs) % 2 ^ 32 = sizeofFusentResp + sizes rs := by
    unfold sizeofFusentResp
    omega
  rw [hlen]
  refine ⟨rfl, ?_, hch.congr fun i hi => ?_⟩
  · rw [fusentReplyDirctrl, Mem.readLe_writeLe_same]
    unfold sizeofFusentResp
    omega
  · refine (Mem.writeLe_of_not_mem _ _ _ _ _ ?_).trans
      (fusentFillResp_payload _ _ _ _ (by omega))
    unfold respParamsOffset sizeofFusentResp
    omega

end Reply

theorem fitting_le_length (single : Bool) (b : Nat) (rs : List DirName) :
    fitting single b rs ≤ rs.length := by
  induction rs generalizing b with
  | nil => exact Nat.le_refl 0
  | cons x rest ih =>
      unfold fitting
      have := ih (b - x.size)
      split
      · omega
      · split <;> simp only [List.length_cons] <;> omega

/-- What is left when the cursor has passed `n` records. -/
theorem Left.advance {dl : DirListing} {rs : List DirName} (hl : Left dl rs) (hne : rs ≠ [])
    (n : Nat) (single : Bool) :
    Left { dl with off := dl.off + sizes (rs.take n), singlefile := single } (rs.drop n) := by
  have hsum : sizes (rs.take n) + sizes (rs.drop n) = sizes rs := by
    rw [← sizes_append, List.take_append_drop]
  have hbound := hl.bound
  refine ⟨hl.chained.drop n, fun hnil => ?_, fun init x heq => ?_, by omega⟩
  · obtain ⟨init, x, hrs⟩ := (List.eq_nil_or_concat rs).resolve_left hne
    rw [List.concat_eq_append] at hrs
    have := hl.last init x hrs
    rw [hnil, sizes_nil] at hsum
    simp only
    omega
  · have hrs : rs = (rs.take n ++ init) ++ [x] := by
      rw [List.append_assoc, ← heq, List.take_append_drop]
    have := hl.last _ x hrs
    rw [sizes_append] at this
    simp only
    omega

/-- The status that a message gives. -/
def replyStatus (msg : Message) : NtStatus := UInt32.ofNat (msg.bytes.readLe respStatusOffset 4)

theorem replyStatus_fusentReplyStatus (m : Mem) (pirp : Pirp) (fop : Pfile) (status : NtStatus) :
    replyStatus (fusentReplyStatus m pirp fop status) = status := by
  have hlt : status.toNat < 256 ^ 4 := status.toNat_lt
  rw [replyStatus, fusentReplyStatus, Mem.readLe_writeLe_same, Nat.mod_eq_of_lt hlt,
    UInt32.ofNat_toNat]

theorem replyStatus_fusentReplyDirctrl (m : Mem) (pirp : Pirp) (fop : Pfile) (buflen : Nat) :
    replyStatus (fusentReplyDirctrl m pirp fop buflen) = statusSuccess := by
  rw [replyStatus, fusentReplyDirctrl, Mem.readLe_writeLe_disjoint _ _ _ _ _ _ (by decide),
    fusentFillResp_status]
  rfl

/-- The reply `msg` has the first `n` of the records `rs` that are left in `dl`,
    and the cursor passes just these; `single` is the flag of the request. -/
structure SentRecords (dl : DirListing) (rs : List DirName) (n : Nat) (single : Bool)
    (msg : Message) (dl' : DirListing) : Prop where
  listing : dl'.listing = dl.listing
  len : dl'.len = dl.len
  off : dl'.off = dl.off + sizes (rs.take n)
  payload : Payload msg (rs.take n)
  left : Left dl' (rs.drop n)
  status : replyStatus msg = if rs = [] then statusNoMoreFiles
    else if n = 0 then statusBufferOverflow else statusSuccess
  /-- But for the link of the last record, the bytes are those of the listing. -/
  bytes : ∀ init x, rs.take n = init ++ [x] → ∀ i, i < sizes (rs.take n) →
    i < sizes init ∨ sizes init + 4 ≤ i →
    msg.bytes (sizeofFusentResp + i) = dl.listing (dl.off + i)
  singlefile : rs.drop n ≠ [] → dl'.singlefile = (dl.singlefile || (single && decide (0 < n)))

/-- The answer from a listing has the records that fit. -/
theorem sendListing_spec {dl : DirListing} {rs : List DirName} (hl : Left dl rs) (outbuf : Mem)
    (length : Nat) (single : Bool) (pirp : Pirp) (fop : Pfile) :
    ∃ msg dl', (∀ fuel, rs.length < fuel → sendListing fuel outbuf dl length single pirp fop =
        some (msg, dl', fitting (single || dl.singlefile) length rs)) ∧
      SentRecords dl rs (fitting (single || dl.singlefile) length rs) single msg dl' := by
  by_cases hne : rs = []
  · subst hne
    refine ⟨fusentReplyStatus outbuf pirp fop statusNoMoreFiles, dl, fun fuel _ => ?_, rfl, rfl, rfl,
      payload_fusentReplyStatus outbuf pirp fop _, hl, replyStatus_fusentReplyStatus ..,
      by simp, by simp⟩
    rw [sendListing, if_pos (hl.nil rfl)]
    rfl
  obtain ⟨last, z, hrs⟩ := (List.eq_nil_or_concat rs).resolve_left hne
  rw [List.concat_eq_append] at hrs
  have hopen : ¬ dl.len ≤ dl.off := by
    have := hl.last last z hrs
    omega
  obtain ⟨s', hs', hc, hsingle⟩ := copyListing_copied dl.len single
    (s := ⟨length, dl.off, sizeofFusentResp, outbuf, none, 0, dl.singlefile⟩) hne hl.chained
    fun init x heq => (hl.last init x heq).1
  have hrun : ∀ fuel, rs.length < fuel → copyListing dl.listing dl.len single fuel
      ⟨length, dl.off, sizeofFusentResp, outbuf, none, 0, dl.singlefile⟩ = some s' := by
    intro fuel hfuel
    obtain ⟨fuel, rfl⟩ : ∃ k, fuel = k + 1 := ⟨fuel - 1, by omega⟩
    exact hs' fuel (by omega)
  have hle := fitting_le_length (single || dl.singlefile) length rs
  simp only at hc hsingle
  generalize fitting (single || dl.singlefile) length rs = n at hc hsingle hle ⊢
  have hsum : sizes (rs.take n) + sizes (rs.drop n) = sizes rs := by
    rw [← sizes_append, List.take_append_drop]
  have hbound := hl.bound
  rcases List.eq_nil_or_concat (rs.take n) with hnil | ⟨init, x, htake⟩
  · -- not even the first record fits
    have hn : n = 0 := (List.take_eq_nil_iff.mp hnil).resolve_right hne
    subst hn
    refine ⟨fusentReplyStatus outbuf pirp fop statusBufferOverflow,
      { dl with singlefile := s'.singlefile }, fun fuel hfuel => ?_, rfl, rfl, rfl,
      payload_fusentReplyStatus outbuf pirp fop _, ?_, ?_, by simp, hsingle⟩
    · simp only [sendListing, hopen, if_false, hrun fuel hfuel, Option.bind_eq_bind,
        Option.bind_some, hc.none hnil]
    · simpa using hl.advance hne 0 s'.singlefile
    · rw [if_neg hne, if_pos rfl, replyStatus_fusentReplyStatus]
  · rw [List.concat_eq_append] at htake
    obtain ⟨hlast, hlinked, hname⟩ := hc.some init x htake
    have hpay := payload_fusentReplyDirctrl _ pirp fop (by omega)
      (htake ▸ hlinked.terminate hname)
    have hn : n ≠ 0 := by
      rintro rfl
      simp at htake
    refine ⟨_, { dl with off := dl.off + sizes (rs.take n), singlefile := s'.singlefile },
      fun fuel hfuel => ?_, rfl, rfl, rfl, hpay, hl.advance hne n s'.singlefile, ?_, ?_, hsingle⟩
    · have hrec : s'.recordscopied = n := by
        rw [hc.records, List.length_take]
        simp only
        omega
      simp only [sendListing, hopen, if_false, hrun fuel hfuel, Option.bind_eq_bind,
        Option.bind_some, hlast, hc.o, hc.p, hrec]
    · rw [if_neg hne, if_neg hn, replyStatus_fusentReplyDirctrl]
    · intro init' y heq i hi hlink
      obtain ⟨rfl, -⟩ := List.append_inj' (htake.symm.trans heq) rfl
      have hheader : respParamsOffset + 4 ≤ sizeofFusentResp := by decide
      refine (Mem.writeLe_of_not_mem _ _ _ _ _ (by omega)).trans
        ((fusentFillResp_payload _ _ _ _ (by omega)).trans ?_)
      refine (Mem.writeLe_of_not_mem _ _ _ _ _ ?_).trans (hc.bytes i hi)
      simp only
      omega

-- ============================================================================
-- fusent_do_directory_control
-- ============================================================================

/-- The result of a computation that is given enough fuel. -/
def Settles {α : Type} (f : Nat → Option α) (r : α) : Prop := ∃ n, ∀ fuel, n ≤ fuel → f fuel = some r

theorem Settles.unique {α : Type} {f : Nat → Option α} {r r' : α} (h : Settles f r)
    (h' : Settles f r') : r = r' := by
  obtain ⟨n, hn⟩ := h
  obtain ⟨n', hn'⟩ := h'
  have heq := hn (max n n') (by omega)
  rw [hn' (max n n') (by omega)] at heq
  exact (Option.some.inj heq).symm

/-- What comes after a computation that settles. -/
theorem Settles.bind {α β : Type} {f : Nat → Option α} {k : α → Option β} {r : α} {r' : β}
    (h : Settles f r) (hk : k r = some r') : Settles (fun fuel => (f fuel).bind k) r' := by
  obtain ⟨n, hn⟩ := h
  refine ⟨n, fun fuel hfuel => ?_⟩
  dsimp only
  rw [hn fuel hfuel, Option.bind_some, hk]

/-- The request gets past the checks. -/
def DirAccepted (env : DirEnv) (sp : IoStackLocation) : Prop :=
  sp.minorFunction = irpMnQueryDirectory ∧ env.opened = true

/-- The records that are sent for a request, and the handle's new listing. -/
inductive DirAnswer (env : DirEnv) (sp : IoStackLocation) (handle : Option DirListing) :
    List DirName → Option DirListing → Prop
  | refused : ¬ DirAccepted env sp → DirAnswer env sp handle [] handle
  | failed {err : Int} : DirAccepted env sp → dirlistingFor env sp handle = .error err →
      DirAnswer env sp handle [] none
  | sent {dl dl' : DirListing} {rs : List DirName} {n : Nat} : DirAccepted env sp →
      dirlistingFor env sp handle = .ok dl → Left dl rs →
      n = fitting (singleEntry sp || dl.singlefile) sp.queryDirectoryLength rs →
      dl'.listing = dl.listing → dl'.len = dl.len → Left dl' (rs.drop n) →
      DirAnswer env sp handle (rs.take n) (some dl')

section Answer

variable {env : DirEnv} {sp : IoStackLocation} {handle : Option DirListing}

theorem fusentDoDirectoryControl_refused (handle : Option DirListing)
    (hacc : ¬ DirAccepted env sp) (pirp : Pirp) (fop : Pfile) :
    ∃ err, ∀ fuel, fusentDoDirectoryControl fuel env sp pirp fop handle =
      some (fusentReplyError env.outbuf pirp fop err, handle, 0) := by
  unfold fusentDoDirectoryControl
  by_cases hmin : sp.minorFunction = irpMnQueryDirectory
  · have hopened : env.opened = false := by
      cases ho : env.opened with
      | true => exact absurd ⟨hmin, ho⟩ hacc
      | false => rfl
    exact ⟨eBadF, fun _ => by rw [if_neg (by simpa using hmin), if_pos (by simp [hopened])]⟩
  · exact ⟨eNoSys, fun _ => by rw [if_pos hmin]⟩

/-- The listing that a request is answered from is the handle's, or fresh. -/
theorem dirlistingFor_cases {dl : DirListing} (h : dirlistingFor env sp handle = .ok dl) :
    (handle = some dl ∧ (sp.flags &&& slRestartScan != 0) = false) ∨
      ((handle = none ∨ (sp.flags &&& slRestartScan != 0) = true) ∧
        fusentDoBufferDirlisting env.listbuf env.epoch env.dir = .ok dl) := by
  unfold dirlistingFor at h
  cases hre : (sp.flags &&& slRestartScan != 0) with
  | true =>
      rw [hre] at h
      exact .inr ⟨.inr rfl, h⟩
  | false =>
      rw [hre] at h
      cases handle with
      | none => exact .inr ⟨.inl rfl, h⟩
      | some old => exact .inl ⟨congrArg some (Except.ok.inj h), rfl⟩

theorem dirlistingFor_left {dl : DirListing} (hleft : ∀ dl ∈ handle, ∃ rs, Left dl rs)
    (h : dirlistingFor env sp handle = .ok dl) : ∃ rs, Left dl rs := by
  rcases dirlistingFor_cases h with ⟨rfl, -⟩ | ⟨-, hfresh⟩
  · exact hleft dl rfl
  · obtain ⟨-, rs, -, -, hl, -⟩ := fusentDoBufferDirlisting_left hfresh
    exact ⟨rs, hl⟩

/-- Every request is answered, from what is left of the listing. -/
theorem fusentDoDirectoryControl_answer (env : DirEnv) (sp : IoStackLocation) (pirp : Pirp)
    (fop : Pfile) (hleft : ∀ dl ∈ handle, ∃ rs, Left dl rs) :
    ∃ msg handle' sent, Payload msg sent ∧ DirAnswer env sp handle sent handle' ∧
      Settles (fun fuel => fusentDoDirectoryControl fuel env sp pirp fop handle)
        (msg, handle', sent.length) := by
  by_cases hacc : DirAccepted env sp
  · have hrun : ∀ fuel, fusentDoDirectoryControl fuel env sp pirp fop handle =
        match dirlistingFor env sp handle with
        | .error err => some (fusentReplyError env.outbuf pirp fop err, none, 0)
        | .ok dl => (sendListing fuel env.outbuf dl sp.queryDirectoryLength (singleEntry sp)
            pirp fop).bind fun r => some (r.1, some r.2.1, r.2.2) := by
      intro fuel
      rw [fusentDoDirectoryControl, if_neg (by simp [hacc.1]), if_neg (by simp [hacc.2])]
      rfl
    cases hdl : dirlistingFor env sp handle with
    | error err =>
        refine ⟨_, none, [], payload_fusentReplyError env.outbuf pirp fop err, .failed hacc hdl,
          0, fun fuel _ => ?_⟩
        simp only [hrun, hdl]
        rfl
    | ok dl =>
        obtain ⟨rs, hl⟩ := dirlistingFor_left hleft hdl
        obtain ⟨msg, dl', hsend, hsent⟩ := sendListing_spec hl env.outbuf
          sp.queryDirectoryLength (singleEntry sp) pirp fop
        have hcount := Nat.min_eq_left
          (fitting_le_length (singleEntry sp || dl.singlefile) sp.queryDirectoryLength rs)
        refine ⟨msg, some dl', _, hsent.payload,
          .sent hacc hdl hl rfl hsent.listing hsent.len hsent.left, rs.length + 1,
          fun fuel hfuel => ?_⟩
        simp only [hrun, hdl, List.length_take, hcount, hsend fuel hfuel, Option.bind_some]
  · obtain ⟨err, hrun⟩ := fusentDoDirectoryControl_refused handle hacc pirp fop
    exact ⟨_, handle, [], payload_fusentReplyError env.outbuf pirp fop err, .refused hacc, 0,
      fun fuel _ => hrun fuel⟩

end Answer

/-- A round of the copy loop ends it, or uses up some of the buffer. -/
theorem copyListing_round (listing : Mem) (len : Nat) (single : Bool) (s : DirSend) :
    (∃ s', ∀ fuel, copyListing listing len single (fuel + 1) s = some s') ∨
      ∃ s', s'.bytesleft < s.bytesleft ∧ ∀ fuel,
        copyListing listing len single (fuel + 1) s = copyListing listing len single fuel s' := by
  have hsize : 1 ≤ fusentFdientSize (fileNameLength listing s.p) := by
    unfold fusentFdientSize sizeofFileDirectoryInformation
    omega
  by_cases hgo : sizeofFileDirectoryInformation ≤ s.bytesleft ∧ s.p < len
  · by_cases hfull : s.bytesleft < fusentFdientSize (fileNameLength listing s.p)
    · exact .inl ⟨_, fun fuel => by rw [copyListing, if_pos hgo]; exact if_pos hfull⟩
    · by_cases hend : nextEntryOffset listing s.p = 0
      · refine .inl ⟨?_, fun fuel => ?stop⟩
        case stop =>
          simp only [copyListing, hgo, hfull, hend, and_self, if_true, if_false]
          rfl
      · cases single with
        | true =>
            refine .inl ⟨?_, fun fuel => ?stop⟩
            case stop =>
              simp only [copyListing, hgo, hfull, hend, and_self, if_true, if_false]
              rfl
        | false =>
            cases hsticky : s.singlefile with
            | true =>
                refine .inl ⟨?_, fun fuel => ?stop⟩
                case stop =>
                  simp only [copyListing, hgo, hfull, hend, hsticky, and_self, if_true, if_false,
                    Bool.false_eq_true]
                  rfl
            | false =>
                refine .inr ⟨?_, ?_, fun fuel => ?round⟩
                case round =>
                  simp only [copyListing, hgo, hfull, hend, hsticky, and_self, if_true, if_false,
                    Bool.false_eq_true]
                  rfl
                simp only
                have := hgo.1
                unfold sizeofFileDirectoryInformation at this
                omega
  · exact .inl ⟨_, fun fuel => by rw [copyListing, if_neg hgo]⟩

/-- The copy loop ends within its buffer. -/
theorem copyListing_isSome (listing : Mem) (len : Nat) (single : Bool) {fuel : Nat} {s : DirSend}
    (hfuel : s.bytesleft < fuel) : (copyListing listing len single fuel s).isSome := by
  induction fuel generalizing s with
  | zero => omega
  | succ fuel ih =>
      obtain ⟨s', hend⟩ | ⟨s', hless, hround⟩ := copyListing_round listing len single s
      · rw [hend]
        rfl
      · rw [hround]
        exact ih (by omega)

/-- More fuel does not change how the loop ends. -/
theorem copyListing_mono {listing : Mem} {len : Nat} {single : Bool} {fuel fuel' : Nat}
    {s s' : DirSend} (h : copyListing listing len single fuel s = some s') (hle : fuel ≤ fuel') :
    copyListing listing len single fuel' s = some s' := by
  induction fuel generalizing s fuel' with
  | zero => simp [copyListing] at h
  | succ fuel ih =>
      obtain ⟨fuel', rfl⟩ : ∃ k, fuel' = k + 1 := ⟨fuel' - 1, by omega⟩
      obtain ⟨s₁, hend⟩ | ⟨s₁, -, hround⟩ := copyListing_round listing len single s
      · rw [hend] at h ⊢
        exact h
      · rw [hround] at h ⊢
        exact ih h (by omega)

/-- Fuel for every byte of the buffer is enough for an answer. -/
theorem sendListing_settles (outbuf : Mem) (dl : DirListing) (length : Nat) (single : Bool)
    (pirp : Pirp) (fop : Pfile) :
    ∃ r, ∀ fuel, length < fuel → sendListing fuel outbuf dl length single pirp fop = some r := by
  obtain ⟨s', hs'⟩ := Option.isSome_iff_exists.mp (copyListing_isSome dl.listing dl.len single
    (s := ⟨length, dl.off, sizeofFusentResp, outbuf, none, 0, dl.singlefile⟩) (Nat.lt_succ_self _))
  have hsome : ∃ r, sendListing (length + 1) outbuf dl length single pirp fop = some r := by
    unfold sendListing
    simp only [hs', Option.bind_eq_bind, Option.bind_some]
    split
    · exact ⟨_, rfl⟩
    · split <;> exact ⟨_, rfl⟩
  obtain ⟨r, hr⟩ := hsome
  refine ⟨r, fun fuel hfuel => ?_⟩
  rw [← hr]
  unfold sendListing
  rw [hs', copyListing_mono hs' hfuel]

/-- The answers that there are. -/
theorem sendListing_cases {fuel length n : Nat} {outbuf : Mem} {dl dl' : DirListing} {single : Bool}
    {pirp : Pirp} {fop : Pfile} {msg : Message}
    (h : sendListing fuel outbuf dl length single pirp fop = some (msg, dl', n)) :
    (∃ status, msg = fusentReplyStatus outbuf pirp fop status) ∨
      ∃ m buflen, msg = fusentReplyDirctrl m pirp fop buflen := by
  unfold sendListing at h
  split at h
  · obtain ⟨rfl, -⟩ := Prod.mk.inj (Option.some.inj h)
    exact .inl ⟨_, rfl⟩
  obtain ⟨d, -, h⟩ := Option.bind_eq_some_iff.mp h
  split at h
  · obtain ⟨rfl, -⟩ := Prod.mk.inj (Option.some.inj h)
    exact .inl ⟨_, rfl⟩
  · obtain ⟨rfl, -⟩ := Prod.mk.inj (Option.some.inj h)
    exact .inr ⟨_, _, rfl⟩

/-- Fuel for every byte of the buffer is enough for a request. -/
theorem Settles.fusentDoDirectoryControl {env : DirEnv} {sp : IoStackLocation} {pirp : Pirp}
    {fop : Pfile} {handle : Option DirListing} {r : Message × Option DirListing × Nat}
    (h : Settles (fun fuel => fusentDoDirectoryControl fuel env sp pirp fop handle) r) :
    fusentDoDirectoryControl (sp.queryDirectoryLength + 1) env sp pirp fop handle = some r := by
  obtain ⟨n, hn⟩ := h
  have hmore := hn (max n (sp.queryDirectoryLength + 1)) (by omega)
  rw [← hmore]
  unfold FuseNt.fusentDoDirectoryControl
  split
  · rfl
  · split
    · rfl
    · cases dirlistingFor env sp handle with
      | error err => rfl
      | ok dl =>
          obtain ⟨r, hsend⟩ := sendListing_settles env.outbuf dl sp.queryDirectoryLength
            (singleEntry sp) pirp fop
          simp only [hsend _ (Nat.lt_succ_self _), hsend _ (by omega : sp.queryDirectoryLength <
            max n (sp.queryDirectoryLength + 1))]

end FuseNt
