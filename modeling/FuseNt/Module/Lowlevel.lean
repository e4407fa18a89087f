/-
  FuseNt.Module.Lowlevel

  How the handlers of the module library call the file system
  (fuse_lowlevel.c).

  A handler calls a low-level operation and needs its result at once, while
  the operation answers by calling one of the `fuse_reply_*` functions.  So
  the handler arms `response_hijack`: for the time of the call, a reply is
  stored in a header and a buffer of the handler's and not sent.  A reply that
  is made after the operation has returned finds the hijack disarmed, and is
  sent to the driver as it is.

  The file system and the memory that the handlers find uninitialised are an
  `Env`: a machine over an arbitrary type of states.
-/

import FuseNt.Module.DirControl

namespace FuseNt

open FuseNt.Lib

-- ============================================================================
-- Replies
-- ============================================================================

/-- `struct fuse_out_header`, without its `unique` field, which is 0. -/
structure OutHeader where
  len : Nat
  error : Int
deriving DecidableEq

def sizeofFuseOutHeader : Nat := 16

def eRange : Int := 34

/-- What is passed to `fuse_send_reply_iov_nofree`: the error, and the buffers
    that follow the header. -/
structure FsReply where
  error : Int
  iov : List (List UInt8)
deriving DecidableEq

/-- The number of bytes in the buffers. -/
def FsReply.length (r : FsReply) : Nat := (r.iov.map List.length).sum

/-- `send_reply`. -/
def sendReply (error : Int) (arg : List UInt8) : FsReply :=
  ⟨error, if arg = [] then [] else [arg]⟩

/-- `fuse_reply_err`. -/
def fuseReplyErr (err : Int) : FsReply := sendReply (-err) []

/-- `fuse_reply_buf`. -/
def fuseReplyBuf (buf : List UInt8) : FsReply := sendReply 0 buf

/-- `fuse_reply_iov`. -/
def fuseReplyIov (iov : List (List UInt8)) : FsReply := ⟨0, iov⟩

/-- `fuse_reply_write`: a `struct fuse_write_out`. -/
def fuseReplyWrite (count : Nat) : FsReply := sendReply 0 (leBytes 4 count ++ leBytes 4 0)

/-- A `struct fuse_open_out`. -/
def fuseOpenOut (fh openFlags : Nat) : List UInt8 := leBytes 8 fh ++ leBytes 4 openFlags ++ leBytes 4 0

/-- `fuse_reply_open`. -/
def fuseReplyOpen (fh openFlags : Nat) : FsReply := sendReply 0 (fuseOpenOut fh openFlags)

def sizeofFuseEntryOut : Nat := 128

/-- A `struct fuse_entry_out`: the node id, and the fields behind it. -/
structure FuseEntryOut where
  nodeid : Nat
  rest : List UInt8
  rest_length : rest.length = 120

/-- The fields behind the node id, if they are all 0. -/
theorem length_zero_rest : (leBytes 120 0).length = 120 := length_leBytes 120 0

def FuseEntryOut.toBytes (e : FuseEntryOut) : List UInt8 := leBytes 8 e.nodeid ++ e.rest

/-- `fuse_reply_entry`. -/
def fuseReplyEntry (e : FuseEntryOut) : FsReply := sendReply 0 e.toBytes

/-- `fuse_reply_create`. -/
def fuseReplyCreate (e : FuseEntryOut) (fh openFlags : Nat) : FsReply :=
  sendReply 0 (e.toBytes ++ fuseOpenOut fh openFlags)

-- ============================================================================
-- fuse_send_reply_iov_nofree
-- ============================================================================

/-- The `error` field of the header that is sent. -/
def replyError (error : Int) : Int := if error ≤ -1000 ∨ 0 < error then -eRange else error

/-- What `response_hijack` and `response_hijack_buf` point to, and
    `response_hijack_buflen`. -/
structure Hijack where
  header : OutHeader
  buf : Mem
  buflen : Nat

/-- `fuse_send_reply_iov_nofree` while the hijack is armed: the header is stored
    and as much of the first buffer as there is room for. -/
def fuseSendReplyIovNofree (h : Hijack) (r : FsReply) : Hijack :=
  let header : OutHeader := ⟨(sizeofFuseOutHeader + r.length) % 2 ^ 32, replyError r.error⟩
  match r.iov with
  | [] => { h with header := header }
  | arg :: _ => ⟨header, h.buf.write 0 (arg.take h.buflen), arg.length⟩

section Hijack

variable (h : Hijack) (r : FsReply)

@[simp] theorem fuseSendReplyIovNofree_header : (fuseSendReplyIovNofree h r).header =
    ⟨(sizeofFuseOutHeader + r.length) % 2 ^ 32, replyError r.error⟩ := by
  unfold fuseSendReplyIovNofree
  split <;> rfl

end Hijack

/-- The error of a reply is one of the codes that `fusent_reply_error` takes. -/
theorem replyError_bounds (error : Int) : -1000 < replyError error ∧ replyError error ≤ 0 := by
  unfold replyError eRange
  split <;> omega

theorem replyError_eq_zero_iff {error : Int} : replyError error = 0 ↔ error = 0 := by
  unfold replyError eRange
  split <;> omega

-- ============================================================================
-- The operations
-- ============================================================================

/-- The members of `struct fuse_lowlevel_ops` that the handlers call. -/
inductive LlOp where
  | lookup
  | getattr
  | openFile
  | read
  | write
  | opendir
  | readdir
  | create
deriving DecidableEq

/-- `struct fuse_file_info`, as far as the handlers fill it in. -/
structure FuseFileInfo where
  fh : Nat
  flags : Nat
  lockOwner : Nat
deriving DecidableEq

/-- A call of an operation, with what the operation is passed. -/
inductive LlCall where
  | lookup (parent : Nat) (name : List UInt8)
  | getattr (ino : Nat)
  | openFile (ino flags : Nat)
  | read (ino size offset : Nat) (fi : FuseFileInfo)
  | write (ino : Nat) (data : List UInt8) (offset : Nat) (fi : FuseFileInfo)
  | opendir (ino flags : Nat)
  | readdir (ino size offset fh : Nat)
  | create (parent : Nat) (name : List UInt8) (mode flags : Nat)
deriving DecidableEq

def LlCall.op : LlCall → LlOp
  | .lookup .. => .lookup
  | .getattr .. => .getattr
  | .openFile .. => .openFile
  | .read .. => .read
  | .write .. => .write
  | .opendir .. => .opendir
  | .readdir .. => .readdir
  | .create .. => .create

def fusentMaxPath : Nat := 256

/-- What `iconv` stores of a path: the room for it is one byte short of
    `FUSENT_MAX_PATH`. -/
abbrev ConvertedPath := { bytes : List UInt8 // bytes.length ≤ fusentMaxPath - 1 }

/-- What surrounds the handlers. -/
structure Env (σ : Type) where
  /-- Whether the file system has the operation. -/
  implements : LlOp → Bool
  /-- An operation of the file system: the replies it makes before it returns. -/
  op : σ → LlCall → List FsReply × σ
  /-- What a `struct fuse_out_header` on the stack holds. -/
  header : σ → OutHeader
  /-- What a buffer on the stack or from `malloc` holds. -/
  memory : σ → Mem
  /-- What the rest of its block holds behind a path. -/
  slack : σ → List UInt8
  /-- `iconv` from UTF-16LE to UTF-8, for a path. -/
  utf16leToUtf8 : List UInt8 → ConvertedPath
  /-- `fusent_transcode` of the name of a directory entry; `none` if it returns
      `(size_t) -1`. -/
  transcode : List UInt8 → Option DirName
  /-- `fusent_unixtime_to_wintime`. -/
  unixtimeToWintime : Nat → Nat

section Call

variable {σ : Type} (env : Env σ)

/-- `fuse_ll_ops[op].func`.  Without the operation, opening succeeds and the
    rest is not implemented. -/
def fuseLlOp (s : σ) (c : LlCall) : List FsReply × σ :=
  if env.implements c.op then env.op s c
  else
    match c.op with
    | .openFile | .opendir => ([fuseReplyOpen 0 0], s)
    | _ => ([fuseReplyErr eNoSys], s)

/-- A call with the hijack armed on an uninitialised header and on `buf`. -/
def hijackedCall (s : σ) (c : LlCall) (buf : Mem) (buflen : Nat) : Hijack × σ :=
  let (replies, s') := fuseLlOp env s c
  (replies.foldl fuseSendReplyIovNofree ⟨env.header s, buf, buflen⟩, s')

/-- The header that a call leaves: the one of its last reply. -/
def headerAfter (s : σ) (c : LlCall) : OutHeader :=
  (fuseLlOp env s c).1.foldl
    (fun _ r => ⟨(sizeofFuseOutHeader + r.length) % 2 ^ 32, replyError r.error⟩) (env.header s)

/-- The header does not depend on the buffer. -/
theorem foldl_fuseSendReplyIovNofree_header (replies : List FsReply) (h : Hijack) :
    (replies.foldl fuseSendReplyIovNofree h).header = replies.foldl
      (fun _ r => ⟨(sizeofFuseOutHeader + r.length) % 2 ^ 32, replyError r.error⟩) h.header := by
  induction replies generalizing h with
  | nil => rfl
  | cons r rest ih => rw [List.foldl_cons, ih, List.foldl_cons, fuseSendReplyIovNofree_header]

@[simp] theorem hijackedCall_header (s : σ) (c : LlCall) (buf : Mem) (buflen : Nat) :
    (hijackedCall env s c buf buflen).1.header = headerAfter env s c :=
  foldl_fuseSendReplyIovNofree_header _ _

@[simp] theorem hijackedCall_state (s : σ) (c : LlCall) (buf : Mem) (buflen : Nat) :
    (hijackedCall env s c buf buflen).2 = (fuseLlOp env s c).2 := rfl

/-- The operation makes one reply, before it returns. -/
def RepliesWith (s : σ) (c : LlCall) (r : FsReply) : Prop := (fuseLlOp env s c).1 = [r]

section Replies

variable {env} {s : σ} {c : LlCall} {r : FsReply} (h : RepliesWith env s c r)

include h

theorem RepliesWith.hijackedCall (buf : Mem) (buflen : Nat) :
    (hijackedCall env s c buf buflen).1 =
      fuseSendReplyIovNofree ⟨env.header s, buf, buflen⟩ r := by
  have hr : (fuseLlOp env s c).1 = [r] := h
  simp only [FuseNt.hijackedCall, hr]
  rfl

theorem RepliesWith.headerAfter : headerAfter env s c =
    ⟨(sizeofFuseOutHeader + r.length) % 2 ^ 32, replyError r.error⟩ := by
  have hr : (fuseLlOp env s c).1 = [r] := h
  simp only [FuseNt.headerAfter, hr]
  rfl

end Replies

end Call

end FuseNt
