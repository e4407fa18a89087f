/-
  FuseNt.Module.Handlers

  The handlers of the module library (fuse_lowlevel.c): `fusent_ll_process`
  takes a `FUSENT_REQ` message apart, calls the file system, keeps what it has
  to remember about a handle in the fop tables, and answers.

  What a handler finds in memory that it does not initialise is up to the
  `Env`: the header of a reply that has not been made, the buffers from
  `malloc`, and the variables that `fusent_get_parent_inode` leaves alone when
  it fails.
-/

import FuseNt.Module.Lowlevel

namespace FuseNt

open FuseNt.Lib

-- ============================================================================
-- The fop tables
-- ============================================================================

/-- The tables from file objects to what is known about a handle.  The
    `fuse_file_info` is a pointer, and NULL for the root directory. -/
@[ext] structure Tables where
  fi : Pfile → Option (Option FuseFileInfo)
  ino : Pfile → Option Nat
  basename : Pfile → Option (List UInt8)
  pos : Pfile → Option Nat
  sync : Pfile → Option Bool
  dirlisting : Pfile → Option DirListing

/-- `fusent_translate_setup`. -/
def fusentTranslateSetup : Tables :=
  ⟨fun _ => none, fun _ => none, fun _ => none, fun _ => none, fun _ => none, fun _ => none⟩

/-- `fusent_add_fop_mapping`.  The position is a `uint64_t`. -/
def fusentAddFopMapping (t : Tables) (fop : Pfile) (fi : Option FuseFileInfo) (ino : Nat)
    (basename : List UInt8) (issync : Bool) : Tables :=
  { t with
    fi := Function.update t.fi fop (some fi)
    ino := Function.update t.ino fop (some ino)
    pos := Function.update t.pos fop (some 0)
    sync := Function.update t.sync fop (some issync)
    basename := Function.update t.basename fop (some basename) }

/-- `fusent_fi_inode_basename_from_fop`. -/
def fusentFiInodeBasenameFromFop (t : Tables) (fop : Pfile) :
    Option (Option FuseFileInfo × Nat × List UInt8) := do
  let fi ← t.fi fop
  let ino ← t.ino fop
  let bn ← t.basename fop
  return (fi, ino, bn)

/-- `FILE_USE_FILE_POINTER_POSITION`, with a high part of -1. -/
def fileUseFilePointerPosition : UInt64 := 0xfffffffffffffffe

/-- `fusent_readwrite_offset`. -/
def fusentReadwriteOffset (t : Tables) (fop : Pfile) (curoff : Nat) (off : UInt64) : Nat :=
  if t.sync fop = some true ∧ (off = fileUseFilePointerPosition ∨ off = 0) then curoff
  else off.toNat

/-- `fusent_get_file_offset`. -/
def fusentGetFileOffset (t : Tables) (fop : Pfile) : Nat := (t.pos fop).getD 0

/-- `fusent_set_file_offset`. -/
def fusentSetFileOffset (t : Tables) (fop : Pfile) (offset : Nat) : Tables :=
  match t.pos fop with
  | some _ => { t with pos := Function.update t.pos fop (some offset) }
  | none => t

-- ============================================================================
-- The request
-- ============================================================================

def reqPirp (ntreq : Mem) : Pirp := UInt64.ofNat (ntreq.readLe 0 8)

def reqFop (ntreq : Mem) : Pfile := UInt64.ofNat (ntreq.readLe 8 8)

/-- `ntreq->irp.Flags`. -/
def reqIrpFlags (ntreq : Mem) : UInt32 := UInt32.ofNat (ntreq.readLe (fusentReqIrpOffset + 16) 4)

/-- The stack location at an offset of a request. -/
def iospAt (ntreq : Mem) (off : Nat) : IoStackLocation where
  majorFunction := ntreq off
  minorFunction := ntreq (off + 1)
  flags := ntreq (off + 2)
  control := ntreq (off + 3)
  pad := UInt32.ofNat (ntreq.readLe (off + 4) 4)
  arg0 := UInt64.ofNat (ntreq.readLe (off + 8) 8)
  arg1 := UInt64.ofNat (ntreq.readLe (off + 16) 8)
  arg2 := UInt64.ofNat (ntreq.readLe (off + 24) 8)
  arg3 := UInt64.ofNat (ntreq.readLe (off + 32) 8)
  deviceObject := UInt64.ofNat (ntreq.readLe (off + 40) 8)
  fileObject := UInt64.ofNat (ntreq.readLe (off + 48) 8)
  completionRoutine := UInt64.ofNat (ntreq.readLe (off + 56) 8)
  context := UInt64.ofNat (ntreq.readLe (off + 64) 8)

/-- A stack location is read back from its memory image. -/
theorem iospAt_of_read {ntreq : Mem} {off : Nat} {sp : IoStackLocation}
    (h : ntreq.read off sizeofIoStackLocation = sp.toBytes) : iospAt ntreq off = sp := by
  have hbyte : ∀ i b, sp.toBytes[i]? = some b → ntreq (off + i) = b := by
    intro i b hb
    rw [← h] at hb
    obtain ⟨hi, rfl⟩ := List.getElem?_eq_some_iff.mp hb
    exact (Mem.getElem_read _ _ _ _ hi).symm
  have hslice : ∀ i k, i + k ≤ sizeofIoStackLocation →
      ntreq.readLe (off + i) k = leNat ((sp.toBytes.drop i).take k) :=
    fun i k hk => congrArg leNat (Mem.read_slice h i k hk)
  have hulong : ∀ i (x : UInt32), i + 4 ≤ sizeofIoStackLocation →
      (sp.toBytes.drop i).take 4 = leBytes 4 x.toNat →
      UInt32.ofNat (ntreq.readLe (off + i) 4) = x := by
    intro i x hi hx
    rw [hslice i 4 hi, hx, leNat_leBytes_of_lt x.toNat_lt]
    simp
  have hslot : ∀ i (x : UInt64), i + 8 ≤ sizeofIoStackLocation →
      (sp.toBytes.drop i).take 8 = leBytes 8 x.toNat →
      UInt64.ofNat (ntreq.readLe (off + i) 8) = x := by
    intro i x hi hx
    rw [hslice i 8 hi, hx, leNat_leBytes_of_lt x.toNat_lt]
    simp
  unfold iospAt
  rw [hbyte 1 sp.minorFunction rfl, hbyte 2 sp.flags rfl, hbyte 3 sp.control rfl,
    hulong 4 sp.pad (by decide) rfl, hslot 8 sp.arg0 (by decide) rfl,
    hslot 16 sp.arg1 (by decide) rfl, hslot 24 sp.arg2 (by decide) rfl,
    hslot 32 sp.arg3 (by decide) rfl, hslot 40 sp.deviceObject (by decide) rfl,
    hslot 48 sp.fileObject (by decide) rfl, hslot 56 sp.completionRoutine (by decide) rfl,
    hslot 64 sp.context (by decide) rfl]
  have hmajor : ntreq off = sp.majorFunction := hbyte 0 _ rfl
  rw [hmajor]

/-- `Parameters.Create.Options`. -/
def IoStackLocation.createOptions (sp : IoStackLocation) : Nat := IoStackLocation.ulong sp.arg1

/-- `Parameters.Read.ByteOffset` and `Parameters.Write.ByteOffset`. -/
def IoStackLocation.byteOffset (sp : IoStackLocation) : UInt64 := sp.arg2

/-- The memory from an offset on. -/
def behind (m : Mem) (off : Nat) : Mem := fun i => m (off + i)

/-- A buffer with room for a response, and `payload` behind it. -/
def withPayload (m payload : Mem) : Mem :=
  fun i => if i < sizeofFusentResp then m i else payload (i - sizeofFusentResp)

section Handlers

variable {σ : Type} (env : Env σ)

-- ============================================================================
-- Paths
-- ============================================================================

def slash : UInt8 := 0x2f

/-- The string at the start of a buffer. -/
def cString (buf : List UInt8) : List UInt8 := buf.takeWhile (· ≠ 0)

/-- `!strncmp(a, b, n)`. -/
def strncmpEq : Nat → List UInt8 → List UInt8 → Bool
  | 0, _, _ => true
  | n + 1, a, b =>
      if a.headD 0 ≠ b.headD 0 then false
      else if a.headD 0 = 0 then true
      else strncmpEq n a.tail b.tail

def isAlpha (b : UInt8) : Bool := (0x41 ≤ b && b ≤ 0x5a) || (0x61 ≤ b && b ≤ 0x7a)

/-- `fusent_convert_win_path`: the buffer, and the length of the path in it.  A
    drive is stripped by moving what follows it. -/
def fusentConvertWinPath (buf : List UInt8) : List UInt8 × Nat :=
  let buf := buf.map fun b => if b = 0x5c then slash else b
  if 2 < buf.length ∧ isAlpha (buf.getD 0 0) ∧ buf.getD 1 0 = 0x3a then
    (buf.drop 2 ++ buf.drop (buf.length - 2), buf.length - 2)
  else (buf, buf.length)

def fuseRootId : Nat := 1

/-- `fuse_ino_t` is an `unsigned long`, which has 32 bits. -/
def fuseIno (nodeid : Nat) : Nat := nodeid % 2 ^ 32

/-- The loop of `fusent_get_parent_inode`, over the parts of the path between
    slashes: the result, the offset of the basename, and its parent.  `bn` and
    `ino` are what is there if a lookup fails. -/
def lookupParents (bn ino : Nat) : σ → Mem → Nat → Nat → List (List UInt8) → (Int × Nat × Nat) × σ
  | s, hijackbuf, off, curino, name :: next :: rest =>
      let (h, s) := hijackedCall env s (.lookup curino name) hijackbuf sizeofFuseEntryOut
      if h.header.error ≠ 0 then ((h.header.error, bn, ino), s)
      else
        lookupParents bn ino s h.buf (off + name.length + 1) (fuseIno (h.buf.readLe 0 8))
          (next :: rest)
  | s, _, off, curino, _ => ((0, off, curino), s)

/-- `fusent_get_parent_inode`. -/
def fusentGetParentInode (s : σ) (fn : List UInt8) (bn ino : Nat) : (Int × Nat × Nat) × σ :=
  if fn.head? ≠ some slash then ((-1, bn, ino), s)
  else if !env.implements .lookup then ((-1, bn, ino), s)
  else lookupParents env bn ino s (env.memory s) 1 fuseRootId (fn.tail.splitOn slash)

/-- `fusent_get_inode`: the parent of "a" in the path with "/a" appended. -/
def fusentGetInode (s : σ) (fn : List UInt8) (bn ino : Nat) : (Int × Nat × Nat) × σ :=
  let ((res, off, ino), s') := fusentGetParentInode env s (fn ++ [slash, 0x61]) bn ino
  ((res, if 0 ≤ res then off else bn, ino), s')

-- ============================================================================
-- IRP_MJ_CREATE
-- ============================================================================

def fileSupersede : Nat := 0
def fileOpen : Nat := 1
def fileCreate : Nat := 2
def fileOverwrite : Nat := 4
def fileOverwriteIf : Nat := 5

def fileSynchronousIoAlert : UInt32 := 0x10
def fileSynchronousIoNonalert : UInt32 := 0x20
def irpSynchronousApi : UInt32 := 0x4

def oCreat : Nat := 0x100
def oTrunc : Nat := 0x200
def oExcl : Nat := 0x400

/-- Whether `fuse_flags` has `O_CREAT`. -/
def createsFile (options : Nat) : Bool :=
  options / 2 ^ 24 ≠ fileOpen && options / 2 ^ 24 ≠ fileOverwrite

/-- `fuse_flags`. -/
def createFuseFlags (options : Nat) : Nat :=
  let createDisp := options / 2 ^ 24
  (if createsFile options then oCreat else 0) + (if createDisp = fileCreate then oExcl else 0) +
    (if createDisp = fileOverwrite ∨ createDisp = fileOverwriteIf ∨ createDisp = fileSupersede then
      oTrunc else 0)

/-- `issync`. -/
def createIsSync (options : Nat) (irpFlags : UInt32) : Bool :=
  flagOn (UInt32.ofNat options) fileSynchronousIoAlert ||
    flagOn (UInt32.ofNat options) fileSynchronousIoNonalert || flagOn irpFlags irpSynchronousApi

def sizeofFuseOpenOut : Nat := 16

/-- The path of a create request in UTF-8 with slashes: the buffer it is in,
    and its length. -/
def createPath (ntreq : Mem) : List UInt8 × Nat :=
  let (fnamelen, fnamep) := fusentDecodeRequestCreate ntreq
  fusentConvertWinPath (env.utf16leToUtf8 (ntreq.read fnamep fnamelen)).val

/-- The operation that a create request comes down to, and the basename, or
    `ENOENT`: a `CREATE` in the parent directory, or an `OPEN`. -/
def createCall (s : σ) (ntreq : Mem) (options : Nat) :
    Option (LlCall × List UInt8) × σ :=
  let (converted, _) := createPath env ntreq
  let outbuf := converted ++ env.slack s
  let bn := (env.memory s).readLe 0 8
  let ino := (env.memory s).readLe 8 4
  if createsFile options then
    let ((res, bn, parent), s') := fusentGetParentInode env s (cString outbuf) bn ino
    if res < 0 then (none, s')
    else
      -- the basename is moved to the front, in one buffer
      let moved := (outbuf.drop bn).take (converted.length - bn) ++ [0]
      let outbuf := moved ++ outbuf.drop moved.length
      (some (.create parent (cString outbuf) ((env.memory s').readLe 4 4) (createFuseFlags options),
        cString (outbuf.drop bn)), s')
  else
    let ((res, bn, inode), s') := fusentGetInode env s (cString outbuf) bn ino
    if res < 0 then (none, s')
    else (some (.openFile inode (createFuseFlags options), cString (outbuf.drop bn)), s')

/-- The inode of a handle from the reply to a `CREATE` or an `OPEN`, and its
    `fuse_file_info`. -/
def openedFile (c : LlCall) (giantbuf fresh : Mem) : Nat × FuseFileInfo :=
  let info (off : Nat) : FuseFileInfo :=
    ⟨giantbuf.readLe off 8, giantbuf.readLe (off + 8) 4, fresh.readLe 0 8⟩
  match c with
  | .openFile inode _ => (inode, info 0)
  | _ => (fuseIno (giantbuf.readLe 0 8), info sizeofFuseEntryOut)

/-- What `fusent_do_create` finds out: an error, or the `fuse_file_info`, the
    inode and the basename of the handle.  The root directory is not opened,
    and has no `fuse_file_info`. -/
def createHandle (s : σ) (ntreq : Mem) (iosp : IoStackLocation) :
    Except Int (Option FuseFileInfo × Nat × List UInt8) × σ :=
  let (converted, utf8len) := createPath env ntreq
  if strncmpEq utf8len (converted ++ env.slack s) [slash] then
    (.ok (none, fuseRootId, [slash]), s)
  else
    match createCall env s ntreq iosp.createOptions with
    | (none, s) => (.error eNoEnt, s)
    | (some (c, basename), s) =>
        let (h, s) := hijackedCall env s c (env.memory s) (sizeofFuseEntryOut + sizeofFuseOpenOut)
        if h.header.error ≠ 0 then (.error (-h.header.error), s)
        else
          let (ino, fi) := openedFile c h.buf (env.memory s)
          (.ok (some fi, ino, basename), s)

/-- `fusent_do_create`. -/
def fusentDoCreate (s : σ) (t : Tables) (ntreq : Mem) (iosp : IoStackLocation) :
    (Tables × Message) × σ :=
  let fop := reqFop ntreq
  let issync := createIsSync iosp.createOptions (reqIrpFlags ntreq)
  match createHandle env s ntreq iosp with
  | (.error err, s) => ((t, fusentReplyError (env.memory s) (reqPirp ntreq) fop err), s)
  | (.ok (fi, ino, basename), s) =>
      ((fusentAddFopMapping t fop fi ino basename issync,
        fusentReplyError (env.memory s) (reqPirp ntreq) fop 0), s)

-- ============================================================================
-- IRP_MJ_READ and IRP_MJ_WRITE
-- ============================================================================

/-- `fusent_do_read`. -/
def fusentDoRead (s : σ) (t : Tables) (ntreq : Mem) (iosp : IoStackLocation) :
    (Tables × Message) × σ :=
  let fop := reqFop ntreq
  let replyError (s : σ) (err : Int) : (Tables × Message) × σ :=
    ((t, fusentReplyError (env.memory s) (reqPirp ntreq) fop err), s)
  match fusentFiInodeBasenameFromFop t fop with
  | none => replyError s eBadF
  | some (none, _, _) => replyError s eBadF
  | some (some fi, inode, _) =>
      let giantbuf := env.memory s
      let offset := fusentReadwriteOffset t fop (fusentGetFileOffset t fop) iosp.byteOffset
      let (h, s) := hijackedCall env s (.read inode iosp.readLength offset fi)
        (behind giantbuf sizeofFusentResp) iosp.readLength
      if h.header.error ≠ 0 then replyError s (-h.header.error)
      else
        ((fusentSetFileOffset t fop
            ((offset + h.header.len + 2 ^ 64 - sizeofFuseOutHeader) % 2 ^ 64),
          fusentReplyRead (withPayload giantbuf h.buf) (reqPirp ntreq) fop
            ((h.header.len + 2 ^ 64 - sizeofFuseOutHeader + sizeofFusentResp) % 2 ^ 32)), s)

def sizeofFuseWriteOut : Nat := 8

/-- The buffer that has the data to write and receives the reply, and its
    length. -/
def writeBuffer (stoutbuf ntreq : Mem) : Mem × Nat :=
  let (outbuflen, outbufp) := fusentDecodeRequestWrite ntreq
  if sizeofFuseWriteOut ≤ outbuflen then (behind ntreq outbufp, outbuflen)
  else (stoutbuf.write 0 (ntreq.read outbufp outbuflen), sizeofFuseWriteOut)

/-- `fusent_do_write`; `none` if it dereferences a NULL `fuse_file_info`. -/
def fusentDoWrite (s : σ) (t : Tables) (ntreq : Mem) (iosp : IoStackLocation) :
    Option (Tables × Message) × σ :=
  let fop := reqFop ntreq
  let replyError (s : σ) (err : Int) : Option (Tables × Message) × σ :=
    (some (t, fusentReplyError (env.memory s) (reqPirp ntreq) fop err), s)
  match fusentFiInodeBasenameFromFop t fop with
  | none => replyError s eBadF
  | some (none, _, _) => (none, s)
  | some (some fi, inode, _) =>
      let (outbuf, outbuflen) := writeBuffer (env.memory s) ntreq
      let offset := fusentReadwriteOffset t fop (fusentGetFileOffset t fop) iosp.byteOffset
      let (h, s) := hijackedCall env s
        (.write inode (outbuf.read 0 iosp.writeLength) offset fi) outbuf outbuflen
      let written := h.buf.readLe 0 4
      if h.header.error ≠ 0 then replyError s (-h.header.error)
      else
        (some (fusentSetFileOffset t fop ((offset + written) % 2 ^ 64),
          fusentReplyWrite (env.memory s) (reqPirp ntreq) fop written), s)

-- ============================================================================
-- IRP_MJ_DIRECTORY_CONTROL
-- ============================================================================

/-- `FUSE_NAME_OFFSET`: the size of a `struct fuse_dirent` without the name. -/
def fuseNameOffset : Nat := 24

/-- `fuse_dirent_size`. -/
def fuseDirentSize (namelen : Nat) : Nat := (fuseNameOffset + namelen + 7) / 8 * 8

def fuseNameMax : Nat := 1024

/-- The entries that the loop of `fusent_do_buffer_dirlisting` takes from the
    `nbytes` bytes at `p` of a reply to `READDIR`, with `room` bytes left in the
    listing; an entry whose name is empty or too long is the last one that is
    looked at.  `none` if a name does not convert: the length of its record is
    then taken from `(size_t) -1`.  Every entry takes more than a byte, so that
    `nbytes` rounds are enough. -/
def direntsOf (buf : Mem) : Nat → Nat → Nat → Nat → Option (List (Option DirName))
  | 0, _, _, _ => some []
  | rounds + 1, p, nbytes, room =>
      if nbytes < fuseNameOffset ∨ room < sizeofFileDirectoryInformation then some []
      else
        let namelen := buf.readLe (p + 16) 4
        if namelen = 0 ∨ fuseNameMax < namelen then some [none]
        else if nbytes < fuseDirentSize namelen then some []
        else
          match env.transcode (buf.read (p + fuseNameOffset) namelen) with
          | none => none
          | some name =>
              if room < name.size then some []
              else
                (direntsOf buf rounds (p + fuseDirentSize namelen)
                  (nbytes - fuseDirentSize namelen) (room - name.size)).map (some name :: ·)

/-- The length of the listing buffer and of the buffer for `READDIR`. -/
def dirBufferLength : Nat := 8192

/-- The calls of `fusent_do_buffer_dirlisting`: the entries of the directory. -/
def readDirectory (s : σ) (inode : Nat) : Option (Except Int (List (Option DirName))) × σ :=
  let (h, s) := hijackedCall env s (.opendir inode 0) (env.memory s) dirBufferLength
  if h.header.error ≠ 0 then (some (.error (-h.header.error)), s)
  else
    let (h, s) := hijackedCall env s (.readdir inode dirBufferLength 0 (h.buf.readLe 0 8)) h.buf
      dirBufferLength
    if h.header.error ≠ 0 then (some (.error (-h.header.error)), s)
    else
      let nbytes := (h.header.len + 2 ^ 64 - sizeofFuseOutHeader) % 2 ^ 64
      ((direntsOf env h.buf nbytes 0 nbytes dirBufferLength).map .ok, s)

/-- The request has the directory read: there is no listing yet, or the scan is
    restarted. -/
def readsDirectory (t : Tables) (fop : Pfile) (iosp : IoStackLocation) : Bool :=
  iosp.minorFunction = irpMnQueryDirectory &&
    ((t.dirlisting fop).isNone || iosp.flags &&& slRestartScan != 0)

/-- The entries of the directory, if a request has it read. -/
def directoryFor (s : σ) (t : Tables) (fop : Pfile) (iosp : IoStackLocation) :
    Option (Except Int (List (Option DirName))) × σ :=
  match fusentFiInodeBasenameFromFop t fop with
  | some (_, inode, _) =>
      if readsDirectory t fop iosp then readDirectory env s inode else (some (.ok []), s)
  | none => (some (.ok []), s)

/-- `fusent_do_directory_control` with the calls it makes; `none` if a name of
    the directory does not convert. -/
def handleDirectoryControl (s : σ) (t : Tables) (ntreq : Mem) (iosp : IoStackLocation) :
    Option (Tables × Message) × σ :=
  let fop := reqFop ntreq
  match directoryFor env s t fop iosp with
  | (none, s) => (none, s)
  | (some dir, s) =>
      let dirEnv : DirEnv :=
        { opened := (fusentFiInodeBasenameFromFop t fop).isSome
          dir := dir
          epoch := env.unixtimeToWintime 0
          listbuf := env.memory s
          outbuf := env.memory s }
      -- the copy loop ends before it has used up its buffer
      match fusentDoDirectoryControl (iosp.queryDirectoryLength + 1) dirEnv iosp (reqPirp ntreq) fop
        (t.dirlisting fop) with
      | some (msg, handle, _) =>
          (some ({ t with dirlisting := Function.update t.dirlisting fop handle }, msg), s)
      | none => (none, s)

-- ============================================================================
-- IRP_MJ_QUERY_INFORMATION
-- ============================================================================

def sizeofFuseAttrOut : Nat := 104

/-- The offset of `attr` in a `struct fuse_attr_out`. -/
def fuseAttrOffset : Nat := 16

def fileAttributeDirectory : Nat := 0x10

/-- `S_ISDIR`. -/
def sIsDir (mode : Nat) : Bool := mode / 2 ^ 12 % 16 = 4

/-- `fusent_unixmode_to_winattr`. -/
def fusentUnixmodeToWinattr (mode : Nat) : Nat :=
  if sIsDir mode then fileAttributeDirectory else fileAttributeNormal

/-- `fusent_reply_query_information` on the attributes at `st` of `attr`. -/
def fusentReplyQueryInformation (resp : Mem) (pirp : Pirp) (fop : Pfile) (attr : Mem) (st : Nat) :
    Message :=
  let fileinfo := sizeofFusentResp
  let mtime := attr.readLe (st + 32) 8
  let ctime := attr.readLe (st + 40) 8
  let mode := attr.readLe (st + 60) 4
  ⟨((fusentFillResp resp pirp fop 0).writeLe respParamsOffset 4 sizeofFusentFileInformation).writes
      [(fileinfo + 8, leBytes 8 (env.unixtimeToWintime (attr.readLe (st + 24) 8))),
        (fileinfo + 16, leBytes 8 (env.unixtimeToWintime mtime)),
        (fileinfo + 24, leBytes 8 (env.unixtimeToWintime (if ctime < mtime then mtime else ctime))),
        (fileinfo + 32, leBytes 4 (fusentUnixmodeToWinattr mode)),
        (fileinfo + 40, leBytes 8 (attr.readLe (st + 16) 8 * 512)),
        (fileinfo + 48, leBytes 8 (attr.readLe (st + 8) 8)),
        (fileinfo + 56, leBytes 4 (attr.readLe (st + 64) 4)),
        (fileinfo + 61, leBytes 1 (if sIsDir mode then 1 else 0)),
        (fileinfo + 60, leBytes 1 0),
        (fileinfo + 0, leBytes 8 (env.unixtimeToWintime 0))],
    sizeofFusentResp + sizeofFusentFileInformation⟩

/-- `fusent_do_query_information`. -/
def fusentDoQueryInformation (s : σ) (t : Tables) (ntreq : Mem) : (Tables × Message) × σ :=
  let fop := reqFop ntreq
  match fusentFiInodeBasenameFromFop t fop with
  | none => ((t, fusentReplyError (env.memory s) (reqPirp ntreq) fop eBadF), s)
  | some (_, inode, _) =>
      let (h, s) := hijackedCall env s (.getattr inode) (env.memory s) sizeofFuseAttrOut
      if h.header.error ≠ 0 then
        ((t, fusentReplyError (env.memory s) (reqPirp ntreq) fop (-h.header.error)), s)
      else
        ((t, fusentReplyQueryInformation env (env.memory s) (reqPirp ntreq) fop h.buf
          fuseAttrOffset), s)

-- ============================================================================
-- fusent_ll_process
-- ============================================================================

def irpMjClose : UInt8 := 0x02
def irpMjFlushBuffers : UInt8 := 0x09
def irpMjCleanup : UInt8 := 0x12

/-- The path of a create request is a string in its block.  The one of the root
    is compared by its length only. -/
def pathEnds (s : σ) (ntreq : Mem) : Bool :=
  let (converted, utf8len) := createPath env ntreq
  let outbuf := converted ++ env.slack s
  strncmpEq utf8len outbuf [slash] || outbuf.contains 0

/-- `fusent_ll_process` on the request `ntreq`: the tables and the answer, or
    `none` if it does not get to an answer: a path is read beyond its block, a
    name of a directory does not convert, or a NULL `fuse_file_info` is
    dereferenced.  `fusent_decode_irp` never fails. -/
def fusentLlProcess (s : σ) (t : Tables) (ntreq : Mem) : Option (Tables × Message) × σ :=
  let (irptype, off) := fusentDecodeIrp ntreq
  let iosp := iospAt ntreq off
  let replyError (err : Int) : Option (Tables × Message) × σ :=
    (some (t, fusentReplyError (env.memory s) (reqPirp ntreq) (reqFop ntreq) err), s)
  if irptype = irpMjCreate then
    if pathEnds env s ntreq then (fusentDoCreate env s t ntreq iosp).map some id else (none, s)
  else if irptype = irpMjRead then (fusentDoRead env s t ntreq iosp).map some id
  else if irptype = irpMjWrite then fusentDoWrite env s t ntreq iosp
  else if irptype = irpMjDirectoryControl then handleDirectoryControl env s t ntreq iosp
  else if irptype = irpMjCleanup then replyError 0
  else if irptype = irpMjClose then replyError eNoSys
  else if irptype = irpMjFlushBuffers then replyError eNoSys
  else if irptype = irpMjQueryInformation then (fusentDoQueryInformation env s t ntreq).map some id
  else replyError eNoSys

end Handlers

end FuseNt
