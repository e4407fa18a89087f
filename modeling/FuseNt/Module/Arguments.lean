/-
  FuseNt.Module.Arguments

  Where the arguments of the file system's operations come from.

  The handlers fill in a `struct fuse_create_in`, `fuse_read_in` or
  `fuse_write_in` in memory from `malloc` or on the stack, field by field, and
  call `do_create`, `do_read` or `do_write` of libfuse, which were written for
  structures that the kernel has filled in.  The `fuse_file_info` that a read or
  write takes its handle from was filled in the same way when the file was
  opened.

  Two runs on the same requests and the same replies are compared, a `Script`
  with two contents of fresh memory.  `mode` and `lock_owner` are never set, and
  so no operation that is reached has the same arguments in all runs.
-/

import FuseNt.Module.Positions

namespace FuseNt

open FuseNt.Lib

-- ============================================================================
-- The argument structures
-- ============================================================================

/-- What an operation is passed: by its parameters, by the `fuse_file_info`, and
    by the context of the request. -/
inductive FsArguments where
  | create (name : List UInt8) (flags mode umask : Nat)
  | read (size offset fh flags lockOwner writepage : Nat)
  | write (size offset fh flags lockOwner writepage : Nat)
deriving DecidableEq

/-- `struct fuse_create_in` at the start of `stbuf`.  `mode` at 4 is not set. -/
def fuseCreateIn (stbuf : Mem) (fuseFlags : Nat) : Mem :=
  stbuf.writes [(0, leBytes 4 fuseFlags), (8, leBytes 4 0o11)]

/-- `struct fuse_read_in` and `struct fuse_write_in` have the same layout.  The
    flags of the transfer at 20 are not set. -/
def fuseTransferIn (stack : Mem) (fi : FuseFileInfo) (len offset : Nat) : Mem :=
  stack.writes
    [(0, leBytes 8 fi.fh), (32, leBytes 4 fi.flags), (24, leBytes 8 fi.lockOwner),
      (16, leBytes 4 len), (8, leBytes 8 offset)]

/-- `readargs`. -/
def fuseReadIn : Mem → FuseFileInfo → Nat → Nat → Mem := fuseTransferIn

/-- `writeargs`. -/
def fuseWriteIn : Mem → FuseFileInfo → Nat → Nat → Mem := fuseTransferIn

/-- `do_create`.  `fusent_do_init` has set `proto_minor` to 16, so that the umask
    is taken from `arg`. -/
def doCreate (arg : Mem) (name : List UInt8) : FsArguments :=
  .create name (arg.readLe 0 4) (arg.readLe 4 4) (arg.readLe 8 4)

/-- `do_read`, which zeroes its `fuse_file_info` first. -/
def doRead (arg : Mem) : FsArguments :=
  .read (arg.readLe 16 4) (arg.readLe 8 8) (arg.readLe 0 8) (arg.readLe 32 4) (arg.readLe 24 8) 0

/-- `do_write`; the page flag is `write_flags & 1`. -/
def doWrite (arg : Mem) : FsArguments :=
  .write (arg.readLe 16 4) (arg.readLe 8 8) (arg.readLe 0 8) (arg.readLe 32 4) (arg.readLe 24 8)
    (arg.readLe 20 4 % 2)

section Structures

variable (m : Mem) (fi : FuseFileInfo) (len offset : Nat)

/-- All but the mode is set. -/
theorem doCreate_fuseCreateIn (fuseFlags : Nat) (name : List UInt8) :
    doCreate (fuseCreateIn m fuseFlags) name =
      .create name (fuseFlags % 2 ^ 32) (m.readLe 4 4) 0o11 := by
  have hapart : [(0, leBytes 4 fuseFlags), (8, leBytes 4 0o11)].Pairwise
      fun w w' => w.1 + w.2.length ≤ w'.1 ∨ w'.1 + w'.2.length ≤ w.1 := by
    simp
  have hmode : (fuseCreateIn m fuseFlags).readLe 4 4 = m.readLe 4 4 :=
    Mem.readLe_writes_disjoint _ _ _ _ (by simp)
  rw [doCreate, hmode, fuseCreateIn, Mem.readLe_writes_of_mem (v := fuseFlags) hapart (by simp),
    Mem.readLe_writes_of_mem (v := 0o11) hapart (by simp)]
  rfl

/-- The fields that a transfer sets are read back. -/
theorem readLe_fuseTransferIn {off k v : Nat}
    (h : (off, leBytes k v) ∈
      [(0, leBytes 8 fi.fh), (32, leBytes 4 fi.flags), (24, leBytes 8 fi.lockOwner),
        (16, leBytes 4 len), (8, leBytes 8 offset)]) :
    (fuseTransferIn m fi len offset).readLe off k = v % 256 ^ k :=
  Mem.readLe_writes_of_mem (by simp) h

/-- Everything that a read passes on is set. -/
theorem doRead_fuseReadIn : doRead (fuseReadIn m fi len offset) =
    .read (len % 2 ^ 32) (offset % 2 ^ 64) (fi.fh % 2 ^ 64) (fi.flags % 2 ^ 32)
      (fi.lockOwner % 2 ^ 64) 0 := by
  have hfield := @readLe_fuseTransferIn m fi len offset
  rw [doRead, fuseReadIn, hfield (v := len) (by simp), hfield (v := offset) (by simp),
    hfield (v := fi.fh) (by simp), hfield (v := fi.flags) (by simp),
    hfield (v := fi.lockOwner) (by simp)]
  rfl

/-- A write passes on a flag that is not set. -/
theorem doWrite_fuseWriteIn : doWrite (fuseWriteIn m fi len offset) =
    .write (len % 2 ^ 32) (offset % 2 ^ 64) (fi.fh % 2 ^ 64) (fi.flags % 2 ^ 32)
      (fi.lockOwner % 2 ^ 64) (m.readLe 20 4 % 2) := by
  have hfield := @readLe_fuseTransferIn m fi len offset
  have hflags : (fuseTransferIn m fi len offset).readLe 20 4 = m.readLe 20 4 :=
    Mem.readLe_writes_disjoint _ _ _ _ (by simp)
  rw [doWrite, fuseWriteIn, hflags, hfield (v := len) (by simp), hfield (v := offset) (by simp),
    hfield (v := fi.fh) (by simp), hfield (v := fi.flags) (by simp),
    hfield (v := fi.lockOwner) (by simp)]
  rfl

end Structures

-- ============================================================================
-- What a request passes on
-- ============================================================================

section Request

variable {σ : Type} (env : Env σ) (s : σ) (t : Tables) (ntreq : Mem)

/-- The arguments of the `create` operation, if a create request gets to it. -/
def createArguments : Option FsArguments :=
  let (converted, utf8len) := createPath env ntreq
  if strncmpEq utf8len (converted ++ env.slack s) [slash] || !env.implements .create then none
  else
    match createCall env s ntreq (reqIosp ntreq).createOptions with
    | (some (.create _ name _ flags, _), s') =>
        some (doCreate (fuseCreateIn (env.memory s') flags) name)
    | _ => none

/-- The arguments of the `read` operation, if a read request gets to it. -/
def readArguments : Option FsArguments :=
  match fusentFiInodeBasenameFromFop t (reqFop ntreq) with
  | some (some fi, _, _) =>
      if env.implements .read then
        some (doRead (fuseReadIn (env.memory s) fi (reqIosp ntreq).readLength (reqOffset t ntreq)))
      else none
  | _ => none

/-- The arguments of the `write` operation, if a write request gets to it. -/
def writeArguments : Option FsArguments :=
  match fusentFiInodeBasenameFromFop t (reqFop ntreq) with
  | some (some fi, _, _) =>
      if env.implements .write then
        some (doWrite (fuseWriteIn (env.memory s) fi (reqIosp ntreq).writeLength
          (reqOffset t ntreq)))
      else none
  | _ => none

/-- The arguments that a request passes to `create`, `read` or `write`. -/
def reachedArguments : Option FsArguments :=
  if reqMajor ntreq = irpMjCreate then createArguments env s ntreq
  else if reqMajor ntreq = irpMjRead then readArguments env s t ntreq
  else if reqMajor ntreq = irpMjWrite then writeArguments env s t ntreq
  else none

/-- The call is the one with these arguments. -/
def FsArguments.Agrees : FsArguments → LlCall → Prop
  | .create name flags mode _, .create _ name' mode' flags' =>
      name = name' ∧ flags = flags' % 2 ^ 32 ∧ mode = mode'
  | .read size offset fh flags lockOwner _, .read _ size' offset' fi =>
      size = size' % 2 ^ 32 ∧ offset = offset' % 2 ^ 64 ∧ fh = fi.fh % 2 ^ 64 ∧
        flags = fi.flags % 2 ^ 32 ∧ lockOwner = fi.lockOwner % 2 ^ 64
  | .write size offset fh flags lockOwner _, .write _ data offset' fi =>
      size = data.length % 2 ^ 32 ∧ offset = offset' % 2 ^ 64 ∧ fh = fi.fh % 2 ^ 64 ∧
        flags = fi.flags % 2 ^ 32 ∧ lockOwner = fi.lockOwner % 2 ^ 64
  | _, _ => False

/-- A create request gets to the `create` operation: it is not for the root, it
    asks for `O_CREAT`, and the parent is found. -/
structure ReachesCreate : Prop where
  implemented : env.implements .create = true
  notRoot : strncmpEq (createPath env ntreq).2 ((createPath env ntreq).1 ++ env.slack s) [slash] =
    false
  creates : createsFile (reqIosp ntreq).createOptions = true
  found : 0 ≤ (fusentGetParentInode env s (cString ((createPath env ntreq).1 ++ env.slack s))
    ((env.memory s).readLe 0 8) ((env.memory s).readLe 8 4)).1.1

/-- The file object of a request has a `fuse_file_info`. -/
def HasFileInfo : Prop :=
  ∃ fi inode bn, fusentFiInodeBasenameFromFop t (reqFop ntreq) = some (some fi, inode, bn)

/-- A request gets to its operation. -/
def ReachesOperation : Prop :=
  (reqMajor ntreq = irpMjCreate ∧ ReachesCreate env s ntreq) ∨
    (reqMajor ntreq = irpMjRead ∧ env.implements .read = true ∧ HasFileInfo t ntreq) ∨
    (reqMajor ntreq = irpMjWrite ∧ env.implements .write = true ∧ HasFileInfo t ntreq)

end Request

section Reaches

variable {σ : Type} (env : Env σ) (s : σ) (t : Tables) (ntreq : Mem)

/-- With `O_CREAT`, a file is created in the parent that is found. -/
theorem createCall_creates {options : Nat} (hcreates : createsFile options = true) :
    let r := fusentGetParentInode env s (cString ((createPath env ntreq).1 ++ env.slack s))
      ((env.memory s).readLe 0 8) ((env.memory s).readLe 8 4)
    (r.1.1 < 0 ∧ createCall env s ntreq options = (none, r.2)) ∨
      (0 ≤ r.1.1 ∧ ∃ name basename, createCall env s ntreq options =
        (some (.create r.1.2.2 name ((env.memory r.2).readLe 4 4) (createFuseFlags options),
          basename), r.2)) := by
  intro r
  unfold createCall
  dsimp only
  rw [if_pos hcreates]
  by_cases hres : r.1.1 < 0
  case pos => exact Or.inl ⟨hres, if_pos hres⟩
  case neg => exact Or.inr ⟨Int.not_lt.mp hres, _, _, if_neg hres⟩

/-- Without `O_CREAT`, a file is opened. -/
theorem createCall_opens {options : Nat} (hopens : createsFile options = false) :
    ∀ c ∈ (createCall env s ntreq options).1, c.1.op = .openFile := by
  unfold createCall
  dsimp only
  rw [if_neg (by simp [hopens])]
  split
  case isTrue => simp
  case isFalse =>
      rintro c ⟨⟩
      rfl

variable {env s t ntreq}

/-- A request that gets to `create` passes on what it finds as the mode. -/
theorem ReachesCreate.arguments (h : ReachesCreate env s ntreq) :
    ∃ parent name basename s',
      createCall env s ntreq (reqIosp ntreq).createOptions =
        (some (.create parent name ((env.memory s').readLe 4 4)
          (createFuseFlags (reqIosp ntreq).createOptions), basename), s') ∧
      createArguments env s ntreq =
        some (.create name (createFuseFlags (reqIosp ntreq).createOptions % 2 ^ 32)
          ((env.memory s').readLe 4 4) 0o11) := by
  rcases createCall_creates env s ntreq h.creates with ⟨hneg, -⟩ | ⟨-, name, basename, hcall⟩
  · exact absurd h.found (Int.not_le.mpr hneg)
  · refine ⟨_, name, basename, _, hcall, ?_⟩
    unfold createArguments
    dsimp only
    rw [h.notRoot, h.implemented, hcall]
    exact congrArg some (doCreate_fuseCreateIn ..)

theorem createArguments_eq_none (h : ¬ ReachesCreate env s ntreq) :
    createArguments env s ntreq = none := by
  unfold createArguments
  dsimp only
  split
  case isTrue => rfl
  case isFalse hnot =>
  rw [Bool.or_eq_true, not_or, Bool.not_eq_true, Bool.not_eq_true, Bool.not_eq_false'] at hnot
  rcases Bool.eq_false_or_eq_true (createsFile (reqIosp ntreq).createOptions) with hcreates | hopens
  · rcases createCall_creates env s ntreq hcreates with ⟨-, hcall⟩ | ⟨hres, -⟩
    · rw [hcall]
    · exact absurd ⟨hnot.2, hnot.1, hcreates, hres⟩ h
  · have hop := createCall_opens env s ntreq hopens
    split
    case h_1 parent name mode flags basename s' hcall =>
        rw [hcall] at hop
        exact absurd (hop _ rfl) (by simp [LlCall.op])
    case h_2 => rfl

/-- A request on a file that the file system can read. -/
theorem readArguments_eq {fi : FuseFileInfo} {inode : Nat} {bn : List UInt8}
    (hmap : fusentFiInodeBasenameFromFop t (reqFop ntreq) = some (some fi, inode, bn))
    (himp : env.implements .read = true) :
    readArguments env s t ntreq =
      some (.read ((reqIosp ntreq).readLength % 2 ^ 32) (reqOffset t ntreq % 2 ^ 64)
        (fi.fh % 2 ^ 64) (fi.flags % 2 ^ 32) (fi.lockOwner % 2 ^ 64) 0) := by
  rw [readArguments, hmap]
  dsimp only
  rw [if_pos himp, doRead_fuseReadIn]

theorem writeArguments_eq {fi : FuseFileInfo} {inode : Nat} {bn : List UInt8}
    (hmap : fusentFiInodeBasenameFromFop t (reqFop ntreq) = some (some fi, inode, bn))
    (himp : env.implements .write = true) :
    writeArguments env s t ntreq =
      some (.write ((reqIosp ntreq).writeLength % 2 ^ 32) (reqOffset t ntreq % 2 ^ 64)
        (fi.fh % 2 ^ 64) (fi.flags % 2 ^ 32) (fi.lockOwner % 2 ^ 64)
        ((env.memory s).readLe 20 4 % 2)) := by
  rw [writeArguments, hmap]
  dsimp only
  rw [if_pos himp, doWrite_fuseWriteIn]

/-- The ways in which a request passes arguments on. -/
theorem reachedArguments_cases {a : FsArguments} (h : reachedArguments env s t ntreq = some a) :
    (reqMajor ntreq = irpMjCreate ∧ ReachesCreate env s ntreq ∧
      createArguments env s ntreq = some a) ∨
    (∃ fi inode bn, reqMajor ntreq = irpMjRead ∧ env.implements .read = true ∧
      fusentFiInodeBasenameFromFop t (reqFop ntreq) = some (some fi, inode, bn) ∧
      a = .read ((reqIosp ntreq).readLength % 2 ^ 32) (reqOffset t ntreq % 2 ^ 64)
        (fi.fh % 2 ^ 64) (fi.flags % 2 ^ 32) (fi.lockOwner % 2 ^ 64) 0) ∨
    ∃ fi inode bn, reqMajor ntreq = irpMjWrite ∧ env.implements .write = true ∧
      fusentFiInodeBasenameFromFop t (reqFop ntreq) = some (some fi, inode, bn) ∧
      a = .write ((reqIosp ntreq).writeLength % 2 ^ 32) (reqOffset t ntreq % 2 ^ 64)
        (fi.fh % 2 ^ 64) (fi.flags % 2 ^ 32) (fi.lockOwner % 2 ^ 64)
        ((env.memory s).readLe 20 4 % 2) := by
  unfold reachedArguments at h
  split at h
  case isTrue hmaj =>
      refine Or.inl ⟨hmaj, ?_, h⟩
      by_contra hnot
      rw [createArguments_eq_none hnot] at h
      cases h
  case isFalse =>
  split at h
  case isTrue hmaj =>
      have hargs := h
      unfold readArguments at h
      split at h
      case h_2 => cases h
      case h_1 fi inode bn hmap =>
      split at h
      case isFalse => cases h
      case isTrue himp =>
          rw [readArguments_eq hmap himp, Option.some.injEq] at hargs
          exact Or.inr (Or.inl ⟨fi, inode, bn, hmaj, himp, hmap, hargs.symm⟩)
  case isFalse =>
  split at h
  case isFalse => cases h
  case isTrue hmaj =>
      have hargs := h
      unfold writeArguments at h
      split at h
      case h_2 => cases h
      case h_1 fi inode bn hmap =>
      split at h
      case isFalse => cases h
      case isTrue himp =>
          rw [writeArguments_eq hmap himp, Option.some.injEq] at hargs
          exact Or.inr (Or.inr ⟨fi, inode, bn, hmaj, himp, hmap, hargs.symm⟩)

/-- A request passes arguments on if it gets to its operation. -/
theorem reachedArguments_isSome_iff :
    (reachedArguments env s t ntreq).isSome ↔ ReachesOperation env s t ntreq := by
  constructor
  · intro h
    obtain ⟨a, ha⟩ := Option.isSome_iff_exists.mp h
    rcases reachedArguments_cases ha with ⟨hmaj, hreach, -⟩ | ⟨fi, inode, bn, hmaj, himp, hmap, -⟩ |
      ⟨fi, inode, bn, hmaj, himp, hmap, -⟩
    · exact Or.inl ⟨hmaj, hreach⟩
    · exact Or.inr (Or.inl ⟨hmaj, himp, fi, inode, bn, hmap⟩)
    · exact Or.inr (Or.inr ⟨hmaj, himp, fi, inode, bn, hmap⟩)
  · rintro (⟨hmaj, hreach⟩ | ⟨hmaj, himp, fi, inode, bn, hmap⟩ | ⟨hmaj, himp, fi, inode, bn, hmap⟩)
    · obtain ⟨parent, name, basename, s', -, hargs⟩ := hreach.arguments
      rw [reachedArguments, if_pos hmaj, hargs]
      rfl
    · rw [reachedArguments, hmaj, if_neg (by decide), if_pos rfl, readArguments_eq hmap himp]
      rfl
    · rw [reachedArguments, hmaj, if_neg (by decide), if_neg (by decide), if_pos rfl,
        writeArguments_eq hmap himp]
      rfl

end Reaches

-- ============================================================================
-- The calls
-- ============================================================================

section Logged

variable {σ : Type} {env : Env σ} {x x' : σ × Tables} {l : Transaction} {a : FsArguments}

/-- A call of an operation that is implemented is logged. -/
theorem mem_logged (env : Env σ) (s : σ × CallLog) {c : LlCall} (himp : env.implements c.op = true) :
    ∃ r, (c, r) ∈ (fuseLlOp env.logged s c).2.2 := by
  have hlogged : fuseLlOp env.logged s c = env.logged.op s c := if_pos himp
  rw [hlogged]
  exact ⟨_, List.mem_append_right _ (List.mem_singleton_self _)⟩

section State

variable {env : Env σ} {s s' : σ} {t : Tables} {ntreq : Mem} {fi : FuseFileInfo} {inode : Nat}
  {bn : List UInt8}

/-- A create request that is not for the root ends with its call. -/
theorem fusentDoCreate_state {iosp : IoStackLocation} {c : LlCall}
    (hroot : strncmpEq (createPath env ntreq).2 ((createPath env ntreq).1 ++ env.slack s) [slash] =
      false)
    (hcall : createCall env s ntreq iosp.createOptions = (some (c, bn), s')) :
    (fusentDoCreate env s t ntreq iosp).2 = (fuseLlOp env s' c).2 := by
  have hhandle : (createHandle env s ntreq iosp).2 = (fuseLlOp env s' c).2 := by
    unfold createHandle
    dsimp only
    rw [hroot, hcall]
    dsimp only
    rw [if_neg (by decide)]
    split <;> rfl
  rw [← hhandle]
  unfold fusentDoCreate
  dsimp only
  split
  case h_1 hres => rw [hres]
  case h_2 hres => rw [hres]

variable (hmap : fusentFiInodeBasenameFromFop t (reqFop ntreq) = some (some fi, inode, bn))

include hmap

theorem fusentDoRead_state : (fusentDoRead env s t ntreq (reqIosp ntreq)).2 =
    (fuseLlOp env s (readCall t ntreq inode fi)).2 := by
  unfold fusentDoRead
  dsimp only
  rw [hmap]
  dsimp only
  split <;> rfl

theorem fusentDoWrite_state : (fusentDoWrite env s t ntreq (reqIosp ntreq)).2 =
    (fuseLlOp env s (writeCall t ntreq (env.memory s) inode fi)).2 := by
  unfold fusentDoWrite
  dsimp only
  rw [hmap]
  dsimp only
  split <;> rfl

end State

/-- The arguments that a request passes on are those of a call that it makes. -/
theorem SessionStep.agrees (h : SessionStep env x l x')
    (ha : reachedArguments env.logged (x.1, []) x.2 l.ntreq = some a) :
    ∃ c ∈ l.calls, a.Agrees c.1 := by
  have hcalls : l.calls = (fusentLlProcess env.logged (x.1, []) x.2 l.ntreq).2.2 :=
    (congrArg (fun r => r.2.2) h).symm
  rcases reachedArguments_cases ha with ⟨hmaj, hreach, hargs⟩ |
    ⟨fi, inode, bn, hmaj, himp, hmap, rfl⟩ | ⟨fi, inode, bn, hmaj, himp, hmap, rfl⟩
  · obtain ⟨parent, name, basename, s', hcall, hsome⟩ := hreach.arguments
    obtain rfl := Option.some.inj (hargs.symm.trans hsome)
    obtain ⟨r, hr⟩ := mem_logged env s' (c := .create parent name ((env.logged.memory s').readLe 4 4)
      (createFuseFlags (reqIosp l.ntreq).createOptions)) hreach.implemented
    rw [← fusentDoCreate_state (t := x.2) hreach.notRoot hcall] at hr
    rw [SessionStep] at h
    rw [fusentLlProcess_created _ _ _ hmaj (by simp [h])] at hcalls
    refine ⟨_, hcalls ▸ hr, ?_⟩
    exact ⟨rfl, rfl, rfl⟩
  · obtain ⟨r, hr⟩ := mem_logged env (x.1, []) (c := readCall x.2 l.ntreq inode fi) himp
    rw [← fusentDoRead_state hmap] at hr
    rw [fusentLlProcess_read _ _ _ hmaj] at hcalls
    refine ⟨_, hcalls ▸ hr, ?_⟩
    exact ⟨rfl, rfl, rfl, rfl, rfl⟩
  · obtain ⟨r, hr⟩ := mem_logged env (x.1, [])
      (c := writeCall x.2 l.ntreq (env.logged.memory (x.1, [])) inode fi) himp
    rw [← fusentDoWrite_state hmap] at hr
    rw [fusentLlProcess_write _ _ _ hmaj] at hcalls
    refine ⟨_, hcalls ▸ hr, ?_⟩
    refine ⟨?_, rfl, rfl, rfl, rfl⟩
    rw [Mem.length_read]

end Logged

-- ============================================================================
-- Two runs
-- ============================================================================

/-- What two runs have in common besides the requests: the operations that there
    are, the replies to each call, and the conversions. -/
structure Script where
  implements : LlOp → Bool
  replies : Nat → List FsReply
  utf16leToUtf8 : List UInt8 → ConvertedPath
  transcode : List UInt8 → Option DirName
  unixtimeToWintime : Nat → Nat

/-- What fresh memory on the heap and the stack holds in a run, by the number of
    requests and the number of calls before. -/
structure Fresh where
  header : Nat → Nat → OutHeader
  memory : Nat → Nat → Mem
  slack : Nat → Nat → List UInt8

/-- Memory that is full of the byte `b`. -/
def Fresh.full (b : UInt8) : Fresh := ⟨fun _ _ => ⟨0, 0⟩, fun _ _ _ => b, fun _ _ => []⟩

namespace Script

variable (sc : Script)

/-- What surrounds the handlers at the `k`-th request. -/
def env (fr : Fresh) (k : Nat) : Env Nat where
  implements := sc.implements
  op := fun n _ => (sc.replies n, n + 1)
  header := fr.header k
  memory := fr.memory k
  slack := fr.slack k
  utf16leToUtf8 := sc.utf16leToUtf8
  transcode := sc.transcode
  unixtimeToWintime := sc.unixtimeToWintime

/-- The number of requests, the number of calls and the tables after some
    requests; `none` if a NULL `fuse_file_info` was dereferenced. -/
def run (fr : Fresh) : Nat → Nat → Tables → List Mem → Option (Nat × Nat × Tables)
  | k, n, t, [] => some (k, n, t)
  | k, n, t, ntreq :: rest =>
      match fusentLlProcess (sc.env fr k) n t ntreq with
      | (some (t, _), n) => run fr (k + 1) n t rest
      | (none, _) => none

/-- The arguments that the request `ntreq` passes on after the requests `reqs`. -/
def arguments (fr : Fresh) (reqs : List Mem) (ntreq : Mem) : Option FsArguments :=
  (sc.run fr 0 0 fusentTranslateSetup reqs).bind fun r =>
    reachedArguments (sc.env fr r.1) r.2.1 r.2.2 ntreq

/-- The request gets to its operation. -/
def Reaches (fr : Fresh) (reqs : List Mem) (ntreq : Mem) : Prop :=
  ∃ k n t, sc.run fr 0 0 fusentTranslateSetup reqs = some (k, n, t) ∧
    ReachesOperation (sc.env fr k) n t ntreq

/-- Whatever fresh memory holds, the arguments are the same. -/
def FromRequest (reqs : List Mem) (ntreq : Mem) : Prop :=
  ∀ fr fr', sc.arguments fr reqs ntreq = sc.arguments fr' reqs ntreq

theorem arguments_isSome_iff {fr : Fresh} {reqs : List Mem} {ntreq : Mem} :
    (sc.arguments fr reqs ntreq).isSome ↔ sc.Reaches fr reqs ntreq := by
  unfold arguments Reaches
  cases hrun : sc.run fr 0 0 fusentTranslateSetup reqs with
  | none => simp
  | some r =>
      rw [Option.bind_some, reachedArguments_isSome_iff]
      constructor
      · exact fun h => ⟨r.1, r.2.1, r.2.2, rfl, h⟩
      · rintro ⟨k, n, t, heq, h⟩
        cases heq
        exact h

end Script

-- ============================================================================
-- Memory that is full of a byte
-- ============================================================================

/-- The argument that is not set. -/
def FsArguments.stray : FsArguments → Nat
  | .create _ _ mode _ => mode
  | .read _ _ _ _ lockOwner _ => lockOwner
  | .write _ _ _ _ lockOwner _ => lockOwner

/-- The lock owners in the tables end in the byte `b`. -/
def OwnersEndIn (b : UInt8) (t : Tables) : Prop :=
  ∀ p fi, t.fi p = some (some fi) → fi.lockOwner % 256 = b.toNat

/-- Only a create request changes which handles there are. -/
theorem Handled.fi_eq {σ : Type} {env : Env σ} {s : σ} {t t' : Tables} {ntreq : Mem} {msg : Message}
    (h : Handled env s t ntreq t' msg) (hcreate : reqMajor ntreq ≠ irpMjCreate) : t'.fi = t.fi := by
  cases h with
  | failed | cleaned | listed | queried => rfl
  | created _ _ _ _ _ hmaj => exact absurd hmaj hcreate
  | read | written => exact fusentSetFileOffset_fi _ _ _

theorem fi_of_fop {t : Tables} {fop : Pfile} {fi : Option FuseFileInfo} {inode : Nat}
    {bn : List UInt8} (h : fusentFiInodeBasenameFromFop t fop = some (fi, inode, bn)) :
    t.fi fop = some fi := by
  obtain ⟨fi', hfi, h⟩ := Option.bind_eq_some_iff.mp h
  obtain ⟨inode', -, h⟩ := Option.bind_eq_some_iff.mp h
  obtain ⟨bn', -, h⟩ := Option.bind_eq_some_iff.mp h
  obtain ⟨rfl, -⟩ := Prod.mk.inj (Option.some.inj h)
  exact hfi

section Full

variable {σ : Type} {env : Env σ} {b : UInt8} (hfull : ∀ s i, env.memory s i = b)
  {s : σ} {t t' : Tables} {ntreq : Mem} {msg : Message}

include hfull

/-- The lock owner of a new handle is what was in its memory. -/
theorem createHandle_owner {iosp : IoStackLocation} {fi : FuseFileInfo} {ino : Nat}
    {bn : List UInt8} (h : (createHandle env s ntreq iosp).1 = .ok (some fi, ino, bn)) :
    fi.lockOwner % 256 = b.toNat := by
  unfold createHandle at h
  dsimp only at h
  split at h
  case isTrue => cases h
  case isFalse =>
  split at h
  case h_1 => cases h
  case h_2 c basename s' _ =>
  split at h
  case isTrue => cases h
  case isFalse =>
      have howner : ∀ buf fresh, (openedFile c buf fresh).2.lockOwner = fresh.readLe 0 8 := by
        intro buf fresh
        unfold openedFile
        dsimp only
        split <;> rfl
      obtain ⟨hfi, -⟩ := Prod.mk.inj (Except.ok.inj h)
      rw [← Option.some.inj hfi, howner, Mem.readLe_mod_byte, hfull]

/-- A create request enters such a lock owner, or it changes nothing. -/
theorem fusentDoCreate_owners {iosp : IoStackLocation} (ht : OwnersEndIn b t)
    (h : (fusentDoCreate env s t ntreq iosp).1 = (t', msg)) : OwnersEndIn b t' := by
  unfold fusentDoCreate at h
  dsimp only at h
  split at h
  case h_1 =>
      obtain ⟨rfl, -⟩ := Prod.mk.inj h
      exact ht
  case h_2 fi ino bn s' hhandle =>
      obtain ⟨rfl, -⟩ := Prod.mk.inj h
      intro p fi' hp
      have hp : Function.update t.fi (reqFop ntreq) (some fi) p = some (some fi') := hp
      by_cases hfop : p = reqFop ntreq
      case neg =>
          rw [Function.update_of_ne hfop] at hp
          exact ht p fi' hp
      case pos =>
          rw [hfop, Function.update_self] at hp
          obtain rfl := Option.some.inj hp
          exact createHandle_owner hfull (congrArg Prod.fst hhandle)

/-- Every request keeps the lock owners as they are, or enters such a one. -/
theorem fusentLlProcess_owners (ht : OwnersEndIn b t)
    (h : (fusentLlProcess env s t ntreq).1 = some (t', msg)) : OwnersEndIn b t' := by
  have hkept : t'.fi = t.fi → OwnersEndIn b t' := by
    intro hfi p fi hp
    rw [hfi] at hp
    exact ht p fi hp
  by_cases hcreate : reqMajor ntreq = irpMjCreate
  case pos =>
      rw [fusentLlProcess_created _ _ _ hcreate (by simp [h])] at h
      exact fusentDoCreate_owners hfull ht (Option.some.inj h)
  case neg =>
  by_cases hread : reqMajor ntreq = irpMjRead
  case pos =>
      rw [fusentLlProcess_read _ _ _ hread] at h
      exact hkept ((fusentDoRead_handled hread (Option.some.inj h)).fi_eq hcreate)
  case neg =>
  by_cases hwrite : reqMajor ntreq = irpMjWrite
  case pos =>
      rw [fusentLlProcess_write _ _ _ hwrite] at h
      exact hkept ((fusentDoWrite_handled hwrite h).fi_eq hcreate)
  case neg => exact hkept (fusentLlProcess_keeps hcreate hread hwrite h).1

/-- The argument that is not set ends in the byte that memory is full of. -/
theorem stray_of_full (ht : OwnersEndIn b t) {a : FsArguments}
    (h : reachedArguments env s t ntreq = some a) : a.stray % 256 = b.toNat := by
  have howner : ∀ {fi inode bn},
      fusentFiInodeBasenameFromFop t (reqFop ntreq) = some (some fi, inode, bn) →
      fi.lockOwner % 2 ^ 64 % 256 = b.toNat := by
    intro fi inode bn hmap
    have hlow := ht _ _ (fi_of_fop hmap)
    omega
  rcases reachedArguments_cases h with ⟨-, hreach, hargs⟩ | ⟨fi, inode, bn, -, -, hmap, rfl⟩ |
    ⟨fi, inode, bn, -, -, hmap, rfl⟩
  · obtain ⟨parent, name, basename, s', -, hsome⟩ := hreach.arguments
    obtain rfl := Option.some.inj (hargs.symm.trans hsome)
    rw [FsArguments.stray, Mem.readLe_mod_byte, hfull]
  · exact howner hmap
  · exact howner hmap

end Full

namespace Script

variable (sc : Script)

/-- Runs in memory that is full of a byte enter only such lock owners. -/
theorem run_owners {b : UInt8} {k n k' n' : Nat} {t t' : Tables} {reqs : List Mem}
    (ht : OwnersEndIn b t) (h : sc.run (.full b) k n t reqs = some (k', n', t')) :
    OwnersEndIn b t' := by
  induction reqs generalizing k n t with
  | nil =>
      cases h
      exact ht
  | cons ntreq rest ih =>
      rw [run] at h
      split at h
      case h_2 => cases h
      case h_1 t₁ msg n₁ hproc =>
          exact ih (fusentLlProcess_owners (fun _ _ => rfl) ht (congrArg Prod.fst hproc)) h

theorem stray_full {b : UInt8} {reqs : List Mem} {ntreq : Mem} {a : FsArguments}
    (h : sc.arguments (.full b) reqs ntreq = some a) : a.stray % 256 = b.toNat := by
  obtain ⟨⟨k, n, t⟩, hrun, ha⟩ := Option.bind_eq_some_iff.mp h
  have hsetup : OwnersEndIn b fusentTranslateSetup := by
    intro p fi hp
    cases hp
  exact stray_of_full (fun _ _ => rfl) (sc.run_owners hsetup hrun) ha

/-- A request that reaches its operation in some run passes on different
    arguments in two runs. -/
theorem not_fromRequest {fr : Fresh} {reqs : List Mem} {ntreq : Mem}
    (h : sc.Reaches fr reqs ntreq) : ¬ sc.FromRequest reqs ntreq := by
  intro hsame
  obtain ⟨a, ha⟩ := Option.isSome_iff_exists.mp (sc.arguments_isSome_iff.mpr h)
  have hzero := sc.stray_full ((hsame (.full 0) fr).trans ha)
  have hone := sc.stray_full ((hsame (.full 1) fr).trans ha)
  rw [hzero] at hone
  exact absurd hone (by decide)

end Script

/-- The arguments of an operation do not depend on what fresh memory holds
    exactly if the request never gets to the operation. -/
theorem arguments_from_request_iff (sc : Script) (reqs : List Mem) (ntreq : Mem) :
    sc.FromRequest reqs ntreq ↔ ∀ fr, ¬ sc.Reaches fr reqs ntreq := by
  constructor
  · intro hsame fr h
    exact sc.not_fromRequest h hsame
  · intro h fr fr'
    have hnone : ∀ fr, sc.arguments fr reqs ntreq = none := by
      intro fr
      rw [← Option.not_isSome_iff_eq_none, sc.arguments_isSome_iff]
      exact h fr
    rw [hnone fr, hnone fr']

/-- A file system that creates a file and then writes to it. -/
def sampleScript : Script where
  implements := fun _ => true
  replies := fun n =>
    if n = 0 then [fuseReplyCreate ⟨2, leBytes 120 0, length_zero_rest⟩ 7 0] else [fuseReplyWrite 4]
  utf16leToUtf8 := sampleEnv.utf16leToUtf8
  transcode := sampleEnv.transcode
  unixtimeToWintime := sampleEnv.unixtimeToWintime

/-- Creating "\\a". -/
def sampleCreateFile : Mem :=
  ntRequest 1 5
    { (default : IoStackLocation) with majorFunction := irpMjCreate, arg1 := 0x2000020 }
    (leBytes 4 6 ++ [0x5c, 0, 0x61, 0, 0, 0])

/-- The mode of the file, and the lock owner and the page flag of what is then
    read from and written to it, are what was in memory. -/
theorem arguments_from_memory :
    ¬ sampleScript.FromRequest [] sampleCreateFile ∧
      ¬ sampleScript.FromRequest [sampleCreateFile] (sampleReadRequest 2) ∧
      ¬ sampleScript.FromRequest [sampleCreateFile] sampleWriteRequest := by
  refine ⟨fun h => ?_, fun h => ?_, fun h => ?_⟩
  · exact absurd (h (.full 0) (.full 1)) (by decide +kernel)
  · exact absurd (h (.full 0) (.full 1)) (by decide +kernel)
  · exact absurd (h (.full 0) (.full 1)) (by decide +kernel)

end FuseNt
