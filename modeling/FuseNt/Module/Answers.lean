/-
  FuseNt.Module.Answers

  One answer for each request.

  Every handler ends in one response, whatever the file system replies, but
  for a write on the handle of the root directory, which has no
  `fuse_file_info`, for a create request whose path is cut off before its NUL,
  and for a directory with a name that `iconv` does not convert.  And the
  response is the only message that is sent for the request, unless the file
  system replies to an operation after the operation has returned: nothing is
  left then to take that reply, and it is sent to the driver as it is.
-/

import FuseNt.Module.DirSafety

namespace FuseNt

open FuseNt.Lib

-- ============================================================================
-- Responses
-- ============================================================================

/-- The message is for the packet `pirp` on `fop`. -/
structure AddressedTo (msg : Message) (pirp : Pirp) (fop : Pfile) : Prop where
  pirp : msg.bytes.readLe 0 8 = pirp.toNat
  fop : msg.bytes.readLe 8 8 = fop.toNat

/-- The message is a whole `FUSENT_RESP` for the packet `pirp` on `fop`. -/
structure IsResponse (msg : Message) (pirp : Pirp) (fop : Pfile) : Prop extends
    AddressedTo msg pirp fop where
  length : sizeofFusentResp ≤ msg.length

section Response

variable {m : Mem} {pirp : Pirp} {fop : Pfile}

end Response

-- ============================================================================
-- What a request does
-- ============================================================================

section Process

variable {σ : Type} {env : Env σ} {s : σ} {t t' : Tables} {ntreq : Mem} {msg : Message}

/-- The major function of a request. -/
def reqMajor (ntreq : Mem) : UInt8 := (fusentDecodeIrp ntreq).1

/-- The current stack location of a request. -/
def reqIosp (ntreq : Mem) : IoStackLocation := iospAt ntreq (fusentDecodeIrp ntreq).2

theorem reqIosp_majorFunction (ntreq : Mem) : (reqIosp ntreq).majorFunction = reqMajor ntreq := rfl

section Dispatch

variable (env s t)

theorem fusentLlProcess_create (hmaj : reqMajor ntreq = irpMjCreate) :
    fusentLlProcess env s t ntreq =
      if pathEnds env s ntreq then (fusentDoCreate env s t ntreq (reqIosp ntreq)).map some id
      else (none, s) := by
  change (fusentDecodeIrp ntreq).1 = irpMjCreate at hmaj
  simp only [fusentLlProcess, hmaj]
  rfl

/-- A create request that is answered. -/
theorem fusentLlProcess_created (hmaj : reqMajor ntreq = irpMjCreate)
    (h : (fusentLlProcess env s t ntreq).1 ≠ none) :
    fusentLlProcess env s t ntreq =
      (fusentDoCreate env s t ntreq (reqIosp ntreq)).map some id := by
  rw [fusentLlProcess_create env s t hmaj] at h ⊢
  split
  · rfl
  · rename_i hends
    exact absurd (by rw [if_neg hends]) h

theorem fusentLlProcess_read (hmaj : reqMajor ntreq = irpMjRead) :
    fusentLlProcess env s t ntreq =
      (fusentDoRead env s t ntreq (reqIosp ntreq)).map some id := by
  change (fusentDecodeIrp ntreq).1 = irpMjRead at hmaj
  simp only [fusentLlProcess, hmaj]
  rfl

theorem fusentLlProcess_write (hmaj : reqMajor ntreq = irpMjWrite) :
    fusentLlProcess env s t ntreq = fusentDoWrite env s t ntreq (reqIosp ntreq) := by
  change (fusentDecodeIrp ntreq).1 = irpMjWrite at hmaj
  simp only [fusentLlProcess, hmaj]
  rfl

theorem fusentLlProcess_directoryControl (hmaj : reqMajor ntreq = irpMjDirectoryControl) :
    fusentLlProcess env s t ntreq = handleDirectoryControl env s t ntreq (reqIosp ntreq) := by
  change (fusentDecodeIrp ntreq).1 = irpMjDirectoryControl at hmaj
  simp only [fusentLlProcess, hmaj]
  rfl

end Dispatch

/-- The offset that a read or write request is performed at. -/
def reqOffset (t : Tables) (ntreq : Mem) : Nat :=
  fusentReadwriteOffset t (reqFop ntreq) (fusentGetFileOffset t (reqFop ntreq))
    (reqIosp ntreq).byteOffset

/-- The call that a read request makes. -/
def readCall (t : Tables) (ntreq : Mem) (ino : Nat) (fi : FuseFileInfo) : LlCall :=
  .read ino (reqIosp ntreq).readLength (reqOffset t ntreq) fi

/-- The call that a write request makes; `stoutbuf` is its buffer on the stack. -/
def writeCall (t : Tables) (ntreq stoutbuf : Mem) (ino : Nat) (fi : FuseFileInfo) : LlCall :=
  .write ino ((writeBuffer stoutbuf ntreq).1.read 0 (reqIosp ntreq).writeLength)
    (reqOffset t ntreq) fi

/-- What the hijack holds after the call of a write request. -/
def writeHijack (env : Env σ) (s : σ) (t : Tables) (ntreq : Mem) (ino : Nat) (fi : FuseFileInfo) :
    Hijack :=
  (hijackedCall env s (writeCall t ntreq (env.memory s) ino fi)
    (writeBuffer (env.memory s) ntreq).1 (writeBuffer (env.memory s) ntreq).2).1

/-- Everything that a request can do to the tables, with the answer. -/
inductive Handled (env : Env σ) (s : σ) (t : Tables) (ntreq : Mem) : Tables → Message → Prop
  | failed (m : Mem) (err : Int) : err ≠ 0 →
      Handled env s t ntreq t (fusentReplyError m (reqPirp ntreq) (reqFop ntreq) err)
  | cleaned (m : Mem) : reqMajor ntreq = irpMjCleanup →
      Handled env s t ntreq t (fusentReplyError m (reqPirp ntreq) (reqFop ntreq) 0)
  | created (m : Mem) (fi : Option FuseFileInfo) (ino : Nat) (bn : List UInt8) (issync : Bool) :
      reqMajor ntreq = irpMjCreate →
      Handled env s t ntreq (fusentAddFopMapping t (reqFop ntreq) fi ino bn issync)
        (fusentReplyError m (reqPirp ntreq) (reqFop ntreq) 0)
  | read (m : Mem) {fi : FuseFileInfo} {ino : Nat} {bn : List UInt8} : reqMajor ntreq = irpMjRead →
      fusentFiInodeBasenameFromFop t (reqFop ntreq) = some (some fi, ino, bn) →
      (headerAfter env s (readCall t ntreq ino fi)).error = 0 →
      Handled env s t ntreq
        (fusentSetFileOffset t (reqFop ntreq)
          ((reqOffset t ntreq + (headerAfter env s (readCall t ntreq ino fi)).len + 2 ^ 64 -
            sizeofFuseOutHeader) % 2 ^ 64))
        (fusentReplyRead m (reqPirp ntreq) (reqFop ntreq)
          (((headerAfter env s (readCall t ntreq ino fi)).len + 2 ^ 64 - sizeofFuseOutHeader +
            sizeofFusentResp) % 2 ^ 32))
  | written (m : Mem) {fi : FuseFileInfo} {ino : Nat} {bn : List UInt8} :
      reqMajor ntreq = irpMjWrite →
      fusentFiInodeBasenameFromFop t (reqFop ntreq) = some (some fi, ino, bn) →
      (writeHijack env s t ntreq ino fi).header.error = 0 →
      Handled env s t ntreq
        (fusentSetFileOffset t (reqFop ntreq)
          ((reqOffset t ntreq + (writeHijack env s t ntreq ino fi).buf.readLe 0 4) % 2 ^ 64))
        (fusentReplyWrite m (reqPirp ntreq) (reqFop ntreq)
          ((writeHijack env s t ntreq ino fi).buf.readLe 0 4))
  | listed {handle : Option DirListing} {msg : Message} : reqMajor ntreq = irpMjDirectoryControl →
      (∀ dl ∈ handle, ∃ rs, Left dl rs) → IsResponse msg (reqPirp ntreq) (reqFop ntreq) →
      Handled env s t ntreq
        { t with dirlisting := Function.update t.dirlisting (reqFop ntreq) handle } msg
  | queried {msg : Message} : reqMajor ntreq = irpMjQueryInformation →
      IsResponse msg (reqPirp ntreq) (reqFop ntreq) → Handled env s t ntreq t msg

theorem fusentDoRead_handled (hmaj : reqMajor ntreq = irpMjRead)
    (h : (fusentDoRead env s t ntreq (reqIosp ntreq)).1 = (t', msg)) :
    Handled env s t ntreq t' msg := by
  unfold fusentDoRead at h
  simp only at h
  split at h
  · obtain ⟨rfl, rfl⟩ := Prod.mk.inj h
    exact .failed _ _ (by decide)
  · obtain ⟨rfl, rfl⟩ := Prod.mk.inj h
    exact .failed _ _ (by decide)
  · rename_i fi ino bn hmap
    split at h
    · rename_i herr
      obtain ⟨rfl, rfl⟩ := Prod.mk.inj h
      exact .failed _ _ (neg_ne_zero.mpr herr)
    · rename_i herr
      obtain ⟨rfl, rfl⟩ := Prod.mk.inj h
      rw [not_not, hijackedCall_header] at herr
      rw [hijackedCall_header]
      exact .read _ hmaj hmap herr

theorem fusentDoWrite_handled (hmaj : reqMajor ntreq = irpMjWrite)
    (h : (fusentDoWrite env s t ntreq (reqIosp ntreq)).1 = some (t', msg)) :
    Handled env s t ntreq t' msg := by
  unfold fusentDoWrite at h
  simp only at h
  split at h
  · obtain ⟨rfl, rfl⟩ := Prod.mk.inj (Option.some.inj h)
    exact .failed _ _ (by decide)
  · cases h
  · rename_i fi ino bn hmap
    split at h
    · rename_i herr
      obtain ⟨rfl, rfl⟩ := Prod.mk.inj (Option.some.inj h)
      exact .failed _ _ (neg_ne_zero.mpr herr)
    · rename_i herr
      obtain ⟨rfl, rfl⟩ := Prod.mk.inj (Option.some.inj h)
      exact .written _ hmaj hmap (not_not.mp herr)

/-- The tables that some requests lead to, whatever the file system did. -/
inductive Reached (env : Env σ) : Tables → Prop
  | setup : Reached env fusentTranslateSetup
  | step {t t' : Tables} {msg : Message} (s : σ) (ntreq : Mem) : Reached env t →
      (fusentLlProcess env s t ntreq).1 = some (t', msg) → Reached env t'

/-- The listing loop goes on from the record at `p` of the stream `buf` to the
    one at `q`, over records whose names convert and have room. -/
inductive GoesOn (transcode : List UInt8 → Option DirName) (buf : Mem) (q nbytes' room' : Nat) :
    Nat → Nat → Nat → Prop
  | here : GoesOn transcode buf q nbytes' room' q nbytes' room'
  | next {p nbytes room : Nat} {name : DirName} : Converts buf p nbytes room →
      transcode (direntName buf p) = some name → name.size ≤ room →
      GoesOn transcode buf q nbytes' room' (p + fuseDirentSize (buf.readLe (p + 16) 4))
        (nbytes - fuseDirentSize (buf.readLe (p + 16) 4)) (room - name.size) →
      GoesOn transcode buf q nbytes' room' p nbytes room

theorem length_fusentConvertWinPath (buf : List UInt8) :
    (fusentConvertWinPath buf).1.length = buf.length ∧ (fusentConvertWinPath buf).2 ≤ buf.length := by
  unfold fusentConvertWinPath
  dsimp only
  split
  case isTrue hdrive =>
      have hlong := hdrive.1
      simp only [List.length_append, List.length_drop, List.length_map] at hlong ⊢
      omega
  case isFalse => exact ⟨List.length_map _, Nat.le_of_eq (List.length_map _)⟩

theorem strncmpEq_append {n : Nat} {a : List UInt8} (t b : List UInt8) (h : n ≤ a.length) :
    strncmpEq n (a ++ t) b = strncmpEq n a b := by
  induction n generalizing a b with
  | zero => rfl
  | succ n ih =>
      cases a with
      | nil => exact absurd h (by simp)
      | cons x a =>
          have hrest := ih b.tail (Nat.le_of_succ_le_succ h)
          rw [List.cons_append, strncmpEq, strncmpEq, List.tail_cons, List.tail_cons, hrest]
          rfl

section Names

variable {buf : Mem} {rounds p nbytes room : Nat}

/-- The place that the loop goes on to is the first one, or the first name
    converts. -/
theorem GoesOn.head {transcode : List UInt8 → Option DirName} {q nbytes' room' : Nat}
    (h : GoesOn transcode buf q nbytes' room' p nbytes room) (hconv : Converts buf q nbytes' room') :
    Converts buf p nbytes room := by
  cases h with
  | here => exact hconv
  | next hfirst => exact hfirst

end Names

-- ============================================================================
-- One answer
-- ============================================================================

end Process

-- ============================================================================
-- The root directory
-- ============================================================================

/-- The low bytes of UTF-16 characters, which is what `iconv` makes of ASCII. -/
def lowBytes : List UInt8 → List UInt8
  | b :: _ :: rest => b :: lowBytes rest
  | _ => []

/-- A path of ASCII characters. -/
def lowPath (bytes : List UInt8) : ConvertedPath :=
  ⟨(lowBytes bytes).take (fusentMaxPath - 1), List.length_take_le _ _⟩

/-- A file system with one file, which has the contents "hi".  Directories read
    as empty. -/
def sampleEnv : Env Unit where
  implements := fun _ => true
  op := fun s c =>
    match c with
    | .lookup _ _ => ([fuseReplyEntry ⟨2, List.replicate 120 0, by simp⟩], s)
    | .openFile _ _ => ([fuseReplyOpen 7 0], s)
    | .read .. => ([fuseReplyBuf [0x68, 0x69]], s)
    | .write _ data _ _ => ([fuseReplyWrite data.length], s)
    | .opendir _ _ => ([fuseReplyOpen 8 0], s)
    | .readdir .. => ([fuseReplyBuf []], s)
    | _ => ([fuseReplyErr eNoSys], s)
  header := fun _ => ⟨0, 0⟩
  memory := fun _ => Mem.zeros
  slack := fun _ => []
  utf16leToUtf8 := lowPath
  transcode := fun _ => some ⟨[0x66, 0], by decide, by decide⟩
  unixtimeToWintime := id

/-- The request for the packet at `pirp` with the stack location `sp`; `trailer`
    is what follows it. -/
def ntRequest (pirp fop : UInt64) (sp : IoStackLocation) (trailer : List UInt8) : Mem :=
  Mem.zeros.writes
    [(0, leBytes 8 pirp.toNat), (8, leBytes 8 fop.toNat),
      (fusentReqIrpOffset + irpStackCountOffset, [1, 1]), (sizeofFusentReq, sp.toBytes),
      (sizeofFusentReq + sizeofIoStackLocation, trailer)]

section Request

variable (pirp fop : UInt64) (sp : IoStackLocation) (trailer : List UInt8)

theorem reqFop_ntRequest : reqFop (ntRequest pirp fop sp trailer) = fop := by
  have hread := Mem.read_writes_mem Mem.zeros [(0, leBytes 8 pirp.toNat)]
    [(fusentReqIrpOffset + irpStackCountOffset, [1, 1]), (sizeofFusentReq, sp.toBytes),
      (sizeofFusentReq + sizeofIoStackLocation, trailer)] 8 (leBytes 8 fop.toNat) (by
      simp [fusentReqIrpOffset, irpStackCountOffset, sizeofFusentReq, sizeofIrp,
        sizeofIoStackLocation])
  rw [length_leBytes] at hread
  have hfop : (ntRequest pirp fop sp trailer).readLe 8 8 = fop.toNat :=
    (congrArg leNat hread).trans (leNat_leBytes_of_lt fop.toNat_lt)
  rw [reqFop, hfop]
  simp

/-- There is one stack location, and it is the current one. -/
theorem stack_ntRequest :
    ntRequest pirp fop sp trailer (fusentReqIrpOffset + irpStackCountOffset) = 1 ∧
      ntRequest pirp fop sp trailer (fusentReqIrpOffset + irpCurrentLocationOffset) = 1 := by
  have hread := Mem.read_writes_mem Mem.zeros
    [(0, leBytes 8 pirp.toNat), (8, leBytes 8 fop.toNat)]
    [(sizeofFusentReq, sp.toBytes), (sizeofFusentReq + sizeofIoStackLocation, trailer)]
    (fusentReqIrpOffset + irpStackCountOffset) [1, 1] (by
      simp [fusentReqIrpOffset, irpStackCountOffset, sizeofFusentReq, sizeofIrp,
        sizeofIoStackLocation])
  obtain ⟨hcount, hrest⟩ := List.cons.inj hread
  exact ⟨hcount, (List.cons.inj hrest).1⟩

theorem read_stack_ntRequest :
    (ntRequest pirp fop sp trailer).read sizeofFusentReq sizeofIoStackLocation = sp.toBytes := by
  have hread := Mem.read_writes_mem Mem.zeros
    [(0, leBytes 8 pirp.toNat), (8, leBytes 8 fop.toNat),
      (fusentReqIrpOffset + irpStackCountOffset, [1, 1])]
    [(sizeofFusentReq + sizeofIoStackLocation, trailer)] sizeofFusentReq sp.toBytes (by
      simp [sizeofFusentReq, sizeofIoStackLocation])
  rw [IoStackLocation.length_toBytes] at hread
  exact hread

theorem fusentDecodeIrp_ntRequest :
    (fusentDecodeIrp (ntRequest pirp fop sp trailer)).2 = sizeofFusentReq := by
  simp only [fusentDecodeIrp, (stack_ntRequest pirp fop sp trailer).2]
  rfl

theorem reqIosp_ntRequest : reqIosp (ntRequest pirp fop sp trailer) = sp := by
  rw [reqIosp, fusentDecodeIrp_ntRequest]
  exact iospAt_of_read (read_stack_ntRequest pirp fop sp trailer)

theorem reqMajor_ntRequest : reqMajor (ntRequest pirp fop sp trailer) = sp.majorFunction := by
  rw [← reqIosp_majorFunction, reqIosp_ntRequest]

/-- The trailer is behind the stack location. -/
theorem read_trailer_ntRequest :
    reqTrailerOffset (ntRequest pirp fop sp trailer) = sizeofFusentReq + sizeofIoStackLocation ∧
      (ntRequest pirp fop sp trailer).read (sizeofFusentReq + sizeofIoStackLocation)
        trailer.length = trailer := by
  refine ⟨?_, Mem.read_writes_mem Mem.zeros
    [(0, leBytes 8 pirp.toNat), (8, leBytes 8 fop.toNat),
      (fusentReqIrpOffset + irpStackCountOffset, [1, 1]), (sizeofFusentReq, sp.toBytes)]
    [] _ trailer (by simp)⟩
  rw [reqTrailerOffset, (stack_ntRequest pirp fop sp trailer).1]
  rfl

end Request

/-- Opening "\\", synchronously. -/
def sampleOpenRoot : Mem :=
  ntRequest 1 5
    { (default : IoStackLocation) with majorFunction := irpMjCreate, arg1 := 0x1000020 }
    (leBytes 4 4 ++ [0x5c, 0, 0, 0])

/-- Writing four bytes to the handle. -/
def sampleWriteRequest : Mem :=
  ntRequest 2 5
    { (default : IoStackLocation) with majorFunction := irpMjWrite, arg0 := 4 }
    (leBytes 4 4 ++ [1, 2, 3, 4])

/-- The tables with an open root directory. -/
def rootOpened : Tables := fusentAddFopMapping fusentTranslateSetup 5 none fuseRootId [slash] true

theorem reached_rootOpened : Reached sampleEnv rootOpened := by
  have hopen : (fusentLlProcess sampleEnv () fusentTranslateSetup sampleOpenRoot).1 =
      some (rootOpened, fusentReplyError Mem.zeros 1 5 0) := rfl
  exact .step () sampleOpenRoot .setup hopen

end FuseNt
