/-
  FuseNt.Module.Positions

  The file positions of the handles.

  The position of a handle is compared with what the file system was asked for
  and what it replied, call by call: `Env.logged` keeps a log of that.  A read
  or write on a handle leaves its position behind the transferred bytes, as
  long as the length of the reply does not wrap around, and reads and writes
  that go by the position therefore tile the file.
-/

import FuseNt.Lib.Run
import FuseNt.Module.Answers

namespace FuseNt

open FuseNt.Lib

-- ============================================================================
-- Sessions
-- ============================================================================

/-- The calls of operations that were made, with the replies to each. -/
abbrev CallLog := List (LlCall × List FsReply)

/-- The surroundings with a log of the calls. -/
def Env.logged {σ : Type} (env : Env σ) : Env (σ × CallLog) where
  implements := env.implements
  op := fun s c => ((env.op s.1 c).1, (env.op s.1 c).2, s.2 ++ [(c, (env.op s.1 c).1)])
  header := fun s => env.header s.1
  memory := fun s => env.memory s.1
  slack := fun s => env.slack s.1
  utf16leToUtf8 := env.utf16leToUtf8
  transcode := env.transcode
  unixtimeToWintime := env.unixtimeToWintime

/-- A request, the calls that were made for it, and the answer. -/
structure Transaction where
  ntreq : Mem
  calls : CallLog
  msg : Message

section Session

variable {σ : Type}

/-- A request is handled. -/
def SessionStep (env : Env σ) (x : σ × Tables) (l : Transaction) (x' : σ × Tables) : Prop :=
  fusentLlProcess env.logged (x.1, []) x.2 l.ntreq = (some (x'.2, l.msg), (x'.1, l.calls))

/-- The number of bytes in a `struct fuse_write_out`. -/
def writtenCount (r : FsReply) : Nat := leNat ((r.iov.headD []).take 4)

/-- The offset and the number of bytes of a successful read or write. -/
def transferOf : CallLog → Option (Nat × Nat)
  | [(.read _ _ offset _, [r])] => if r.error = 0 then some (offset, r.length) else none
  | [(.write _ _ offset _, [r])] => if r.error = 0 then some (offset, writtenCount r) else none
  | _ => none

/-- What a request does as far as positions go. -/
inductive PosEvent where
  | created (p : Pfile)
  | transferred (p : Pfile) (offset count : Nat)
  | other
deriving DecidableEq

/-- The event of a request. -/
def eventOf (env : Env σ) (x : σ × Tables) (l : Transaction) : PosEvent :=
  if reqMajor l.ntreq = irpMjCreate then
    match (createHandle env.logged (x.1, []) l.ntreq (reqIosp l.ntreq)).1 with
    | .ok _ => .created (reqFop l.ntreq)
    | .error _ => .other
  else if reqMajor l.ntreq = irpMjRead ∨ reqMajor l.ntreq = irpMjWrite then
    match transferOf l.calls with
    | some (offset, count) => .transferred (reqFop l.ntreq) offset count
    | none => .other
  else .other

/-- The position of `p` after an event. -/
def positionAfter (p : Pfile) (pos : Option Nat) : PosEvent → Option Nat
  | .created q => if q = p then some 0 else pos
  | .transferred q offset count => if q = p then some (offset + count) else pos
  | .other => pos

/-- A read or write that succeeds is for no more bytes than were asked for. -/
def AtMostRequested : LlCall × List FsReply → Prop
  | (.read _ size _ _, replies) => ∀ r ∈ replies, r.error = 0 → r.length ≤ size
  | (.write _ data _ _, replies) => ∀ r ∈ replies, r.error = 0 →
      ∃ count, r = fuseReplyWrite count ∧ count ≤ data.length
  | _ => True

/-- The reply to a read or write is made before the operation returns, the
    length of a read does not wrap around as a `uint32_t`, and the transfer ends
    before the end of the `uint64_t` offsets. -/
def NoWrap : LlCall × List FsReply → Prop
  | (.read _ _ offset _, replies) => ∃ r, replies = [r] ∧ (r.error = 0 →
      sizeofFuseOutHeader + r.length < 2 ^ 32 ∧ offset + r.length < 2 ^ 64)
  | (.write _ _ offset _, replies) => ∃ r, replies = [r] ∧ (r.error = 0 →
      offset + writtenCount r < 2 ^ 64)
  | _ => True

/-- The call is as it should be. -/
def TransferOk (c : LlCall × List FsReply) : Prop := AtMostRequested c ∧ NoWrap c

-- ============================================================================
-- One request
-- ============================================================================

variable {env : Env σ} {x x' : σ × Tables} {l : Transaction}

theorem fuseLlOp_logged (env : Env σ) (s : σ) (c : LlCall) :
    fuseLlOp env.logged (s, []) c =
      if env.implements c.op then ((env.op s c).1, (env.op s c).2, [(c, (env.op s c).1)])
      else ((fuseLlOp env s c).1, s, []) := by
  unfold fuseLlOp
  by_cases himp : env.implements c.op
  · simp [Env.logged, himp]
  · simp only [Env.logged, himp]
    cases c <;> rfl

/-- Every handle has a position. -/
def Positioned (t : Tables) : Prop := ∀ p, (t.fi p).isSome → (t.pos p).isSome

@[simp] theorem fusentSetFileOffset_fi (t : Tables) (fop : Pfile) (offset : Nat) :
    (fusentSetFileOffset t fop offset).fi = t.fi := by
  unfold fusentSetFileOffset
  split <;> rfl

@[simp] theorem fusentSetFileOffset_sync (t : Tables) (fop : Pfile) (offset : Nat) :
    (fusentSetFileOffset t fop offset).sync = t.sync := by
  unfold fusentSetFileOffset
  split <;> rfl

theorem fusentSetFileOffset_pos {t : Tables} {fop : Pfile} (h : (t.pos fop).isSome) (offset : Nat)
    (p : Pfile) : (fusentSetFileOffset t fop offset).pos p =
      if fop = p then some offset else t.pos p := by
  obtain ⟨old, hold⟩ := Option.isSome_iff_exists.mp h
  simp only [fusentSetFileOffset, hold, Function.update_apply]
  by_cases hp : p = fop
  · subst hp
    simp
  · simp [hp, Ne.symm hp]

theorem fusentFiInodeBasenameFromFop_fi {t : Tables} {fop : Pfile}
    {r : Option FuseFileInfo × Nat × List UInt8}
    (h : fusentFiInodeBasenameFromFop t fop = some r) : (t.fi fop).isSome := by
  obtain ⟨fi, hfi, -⟩ := Option.bind_eq_some_iff.mp h
  simp [hfi]

/-- The position that a read computes. -/
theorem readPosition_eq {offset n : Nat} (hlen : sizeofFuseOutHeader + n < 2 ^ 32)
    (hend : offset + n < 2 ^ 64) :
    (offset + (sizeofFuseOutHeader + n) % 2 ^ 32 + 2 ^ 64 - sizeofFuseOutHeader) % 2 ^ 64 =
      offset + n := by
  unfold sizeofFuseOutHeader at *
  omega

/-- A read or write request transfers nothing and changes nothing, or it leaves
    the position behind what it transferred. -/
def TransferStep (t t' : Tables) (l : Transaction) : Prop :=
  (transferOf l.calls = none ∧ t' = t) ∨
    ∃ count, transferOf l.calls = some (reqOffset t l.ntreq, count) ∧
      (t.fi (reqFop l.ntreq)).isSome ∧
      t' = fusentSetFileOffset t (reqFop l.ntreq) (reqOffset t l.ntreq + count)

/-- The handler makes the call `c`, and the position is set if it succeeds. -/
def Performs (env : Env σ) (s : σ) (t : Tables) (ntreq : Mem) (c : LlCall) (position : Nat)
    (t' : Tables) (s' : σ) : Prop :=
  s' = (fuseLlOp env s c).2 ∧
    (((headerAfter env s c).error ≠ 0 ∧ t' = t) ∨
      ((headerAfter env s c).error = 0 ∧ t' = fusentSetFileOffset t (reqFop ntreq) position))

theorem fusentDoRead_performs {s s' : σ} {t t' : Tables} {ntreq : Mem} {msg : Message}
    (h : fusentDoRead env s t ntreq (reqIosp ntreq) = ((t', msg), s')) :
    ((∀ fi ino bn, fusentFiInodeBasenameFromFop t (reqFop ntreq) ≠ some (some fi, ino, bn)) ∧
      s' = s ∧ t' = t) ∨ ∃ fi ino bn,
      fusentFiInodeBasenameFromFop t (reqFop ntreq) = some (some fi, ino, bn) ∧
      Performs env s t ntreq (readCall t ntreq ino fi)
        ((reqOffset t ntreq + (headerAfter env s (readCall t ntreq ino fi)).len + 2 ^ 64 -
          sizeofFuseOutHeader) % 2 ^ 64) t' s' := by
  unfold fusentDoRead at h
  simp only at h
  split at h
  · rename_i hmap
    cases h
    exact .inl ⟨by simp [hmap], rfl, rfl⟩
  · rename_i hmap
    cases h
    exact .inl ⟨by simp [hmap], rfl, rfl⟩
  · rename_i fi ino bn hmap
    rw [hijackedCall_header] at h
    refine .inr ⟨fi, ino, bn, hmap, ?_⟩
    split at h
    · rename_i herr
      cases h
      exact ⟨rfl, .inl ⟨herr, rfl⟩⟩
    · rename_i herr
      cases h
      exact ⟨rfl, .inr ⟨not_not.mp herr, rfl⟩⟩

theorem fusentDoWrite_performs {s s' : σ} {t t' : Tables} {ntreq : Mem} {msg : Message}
    (h : fusentDoWrite env s t ntreq (reqIosp ntreq) = (some (t', msg), s')) :
    (s' = s ∧ t' = t) ∨ ∃ fi ino bn,
      fusentFiInodeBasenameFromFop t (reqFop ntreq) = some (some fi, ino, bn) ∧
      Performs env s t ntreq (writeCall t ntreq (env.memory s) ino fi)
        ((reqOffset t ntreq + (writeHijack env s t ntreq ino fi).buf.readLe 0 4) % 2 ^ 64) t' s' := by
  unfold fusentDoWrite at h
  simp only at h
  split at h
  · cases h
    exact .inl ⟨rfl, rfl⟩
  · cases h
  · rename_i fi ino bn hmap
    rw [hijackedCall_header] at h
    refine .inr ⟨fi, ino, bn, hmap, ?_⟩
    split at h
    · rename_i herr
      cases h
      exact ⟨rfl, .inl ⟨herr, rfl⟩⟩
    · rename_i herr
      cases h
      exact ⟨rfl, .inr ⟨not_not.mp herr, rfl⟩⟩

/-- A read or write that the file system does not implement fails, and is not
    logged; one that it implements is, with its reply. -/
theorem logged_transfer (env : Env σ) (s : σ) {c : LlCall} (hop : c.op = .read ∨ c.op = .write) :
    ((fuseLlOp env.logged (s, []) c).2.2 = [] ∧
        (headerAfter env.logged (s, []) c).error ≠ 0) ∨
      ((fuseLlOp env.logged (s, []) c).2.2 = [(c, (fuseLlOp env.logged (s, []) c).1)]) := by
  by_cases himp : env.implements c.op
  · right
    rw [fuseLlOp_logged, if_pos himp]
  · left
    have hreplies : (fuseLlOp env.logged (s, []) c).1 = [fuseReplyErr eNoSys] := by
      rw [fuseLlOp_logged, if_neg himp, fuseLlOp, if_neg himp]
      rcases hop with hop | hop <;> rw [hop]
    refine ⟨by rw [fuseLlOp_logged, if_neg himp], ?_⟩
    unfold headerAfter
    rw [hreplies]
    simp [fuseReplyErr, sendReply, replyError_eq_zero_iff, eNoSys]

/-- A read or write that fails transfers nothing. -/
theorem transferOf_failed {c : LlCall} (hop : c.op = .read ∨ c.op = .write) {r : FsReply}
    (herr : r.error ≠ 0) : transferOf [(c, [r])] = none := by
  cases c <;> simp [LlCall.op] at hop <;> exact if_neg herr

theorem NoWrap.single {c : LlCall} {replies : List FsReply} (h : NoWrap (c, replies))
    (hop : c.op = .read ∨ c.op = .write) : ∃ r, replies = [r] := by
  cases c <;> simp [LlCall.op] at hop
  · obtain ⟨r, hr, -⟩ := h
    exact ⟨r, hr⟩
  · obtain ⟨r, hr, -⟩ := h
    exact ⟨r, hr⟩

/-- A call whose success sets the position behind what it transferred. -/
theorem Performs.transferStep {c : LlCall} {position : Nat}
    (h : Performs env.logged (x.1, []) x.2 l.ntreq c position x'.2 (x'.1, l.calls))
    (hop : c.op = .read ∨ c.op = .write) (hfi : (x.2.fi (reqFop l.ntreq)).isSome)
    (hok : ∀ c ∈ l.calls, TransferOk c)
    (hset : ∀ r, RepliesWith env.logged (x.1, []) c r → r.error = 0 → TransferOk (c, [r]) →
      ∃ count, transferOf [(c, [r])] = some (reqOffset x.2 l.ntreq, count) ∧
        position = reqOffset x.2 l.ntreq + count) :
    TransferStep x.2 x'.2 l := by
  obtain ⟨hstate, hcases⟩ := h
  have hcalls := congrArg Prod.snd hstate
  simp only at hcalls
  rcases logged_transfer env x.1 hop with ⟨hnone, hfails⟩ | hlogged
  · refine .inl ⟨by rw [hcalls, hnone]; rfl, ?_⟩
    exact hcases.elim And.right fun hsucceeds => absurd hsucceeds.1 hfails
  rw [hlogged] at hcalls
  have hcok := hok _ (by rw [hcalls]; exact List.mem_singleton_self _)
  obtain ⟨r, hreplies⟩ := hcok.2.single hop
  rw [RepliesWith.headerAfter hreplies] at hcases
  simp only [ne_eq, replyError_eq_zero_iff] at hcases
  rw [hreplies] at hcalls hcok
  rcases hcases with ⟨herr, hsame⟩ | ⟨hsucc, hmoved⟩
  · exact .inl ⟨by rw [hcalls, transferOf_failed hop herr], hsame⟩
  · obtain ⟨count, htransfer, rfl⟩ := hset r hreplies hsucc hcok
    exact .inr ⟨count, by rw [hcalls, htransfer], hfi, hmoved⟩

theorem SessionStep.read (h : SessionStep env x l x') (hok : ∀ c ∈ l.calls, TransferOk c)
    (hmaj : reqMajor l.ntreq = irpMjRead) : TransferStep x.2 x'.2 l := by
  rw [SessionStep, fusentLlProcess_read _ _ _ hmaj] at h
  have hread : fusentDoRead env.logged (x.1, []) x.2 l.ntreq (reqIosp l.ntreq) =
      ((x'.2, l.msg), (x'.1, l.calls)) := by
    obtain ⟨hres, hstate⟩ := Prod.mk.inj h
    exact Prod.ext (Option.some.inj hres) hstate
  rcases fusentDoRead_performs hread with ⟨-, hstate, hsame⟩ | ⟨fi, ino, bn, hmap, hperforms⟩
  · exact .inl ⟨by rw [(Prod.mk.inj hstate).2]; rfl, hsame⟩
  refine hperforms.transferStep (.inl rfl) (fusentFiInodeBasenameFromFop_fi hmap) hok ?_
  intro r hreplies hsucc hcok
  obtain ⟨r', hr', hfits⟩ := hcok.2
  obtain rfl : r = r' := List.head_eq_of_cons_eq hr'
  obtain ⟨hlen, hend⟩ := hfits hsucc
  refine ⟨r.length, if_pos hsucc, ?_⟩
  rw [hreplies.headerAfter, readPosition_eq hlen hend]

/-- A read of an open file that the file system has. -/
theorem sessionStep_read {s : σ} {t : Tables} {ntreq : Mem} {fi : FuseFileInfo} {ino : Nat}
    {bn : List UInt8} {r : FsReply} (hmaj : reqMajor ntreq = irpMjRead)
    (hmap : fusentFiInodeBasenameFromFop t (reqFop ntreq) = some (some fi, ino, bn))
    (himp : env.implements (readCall t ntreq ino fi).op)
    (hreply : (env.op s (readCall t ntreq ino fi)).1 = [r]) (hsucc : r.error = 0) :
    ∃ msg, SessionStep env (s, t) ⟨ntreq, [(readCall t ntreq ino fi, [r])], msg⟩
      ((env.op s (readCall t ntreq ino fi)).2,
        fusentSetFileOffset t (reqFop ntreq)
          ((reqOffset t ntreq + (sizeofFuseOutHeader + r.length) % 2 ^ 32 + 2 ^ 64 -
            sizeofFuseOutHeader) % 2 ^ 64)) := by
  have hcall : fuseLlOp env.logged (s, []) (readCall t ntreq ino fi) =
      ([r], (env.op s (readCall t ntreq ino fi)).2, [(readCall t ntreq ino fi, [r])]) := by
    rw [fuseLlOp_logged, if_pos himp, hreply]
  have hheader := RepliesWith.headerAfter (congrArg Prod.fst hcall)
  obtain ⟨⟨t', msg⟩, s', hread⟩ : ∃ r s',
      fusentDoRead env.logged (s, []) t ntreq (reqIosp ntreq) = (r, s') := ⟨_, _, rfl⟩
  refine ⟨msg, ?_⟩
  rw [SessionStep, fusentLlProcess_read _ _ _ hmaj, hread]
  rcases fusentDoRead_performs hread with ⟨hnone, -⟩ | ⟨fi', ino', bn', hmap', rfl, hset⟩
  · exact absurd hmap (hnone fi ino bn)
  · rw [hmap] at hmap'
    obtain ⟨rfl, rfl, rfl⟩ : fi = fi' ∧ ino = ino' ∧ bn = bn' := by simpa using hmap'
    rw [hheader] at hset
    simp only [ne_eq, replyError_eq_zero_iff, hsucc, not_true, false_and, false_or, true_and] at hset
    rw [hset, hcall]
    rfl

/-- The hijack buffer of a write has room for the reply. -/
theorem le_writeBuffer_length (stoutbuf ntreq : Mem) :
    sizeofFuseWriteOut ≤ (writeBuffer stoutbuf ntreq).2 := by
  unfold writeBuffer
  simp only
  split
  · assumption
  · exact le_refl _

/-- The count that a write finds in its buffer is the one of the reply. -/
theorem hijack_written {s : σ} {c : LlCall} {count : Nat}
    (h : RepliesWith env s c (fuseReplyWrite count)) (hcount : count < 2 ^ 32) (buf : Mem)
    {buflen : Nat} (hlen : sizeofFuseWriteOut ≤ buflen) :
    (hijackedCall env s c buf buflen).1.buf.readLe 0 4 = count := by
  rw [h.hijackedCall]
  have hiov : (fuseReplyWrite count).iov = [leBytes 4 count ++ leBytes 4 0] := rfl
  have htake : (leBytes 4 count ++ leBytes 4 0).take buflen = leBytes 4 count ++ leBytes 4 0 :=
    List.take_of_length_le (by simpa [sizeofFuseWriteOut] using hlen)
  simp only [fuseSendReplyIovNofree, hiov, htake]
  have hread := Mem.read_slice (Mem.read_write_same buf 0 (leBytes 4 count ++ leBytes 4 0)) 0 4
    (by simp)
  rw [List.drop_zero, List.take_left' (length_leBytes 4 count)] at hread
  exact (congrArg leNat hread).trans (leNat_leBytes_of_lt (k := 4) (by norm_num; omega))

theorem writtenCount_fuseReplyWrite {count : Nat} (hcount : count < 2 ^ 32) :
    writtenCount (fuseReplyWrite count) = count := by
  have hiov : (fuseReplyWrite count).iov.headD [] = leBytes 4 count ++ leBytes 4 0 := rfl
  rw [writtenCount, hiov, List.take_left' (length_leBytes 4 count)]
  exact leNat_leBytes_of_lt (k := 4) (by norm_num; omega)

theorem SessionStep.write (h : SessionStep env x l x') (hok : ∀ c ∈ l.calls, TransferOk c)
    (hmaj : reqMajor l.ntreq = irpMjWrite) : TransferStep x.2 x'.2 l := by
  rw [SessionStep, fusentLlProcess_write _ _ _ hmaj] at h
  rcases fusentDoWrite_performs h with ⟨hstate, hsame⟩ | ⟨fi, ino, bn, hmap, hperforms⟩
  · exact .inl ⟨by rw [(Prod.mk.inj hstate).2]; rfl, hsame⟩
  refine hperforms.transferStep (.inr rfl) (fusentFiInodeBasenameFromFop_fi hmap) hok ?_
  intro r hreplies hsucc hcok
  obtain ⟨count, rfl, hle⟩ := hcok.1 r (List.mem_singleton_self _) hsucc
  have hcount : count < 2 ^ 32 := by
    refine lt_of_le_of_lt hle ?_
    rw [Mem.length_read]
    exact IoStackLocation.ulong_lt _
  obtain ⟨r', hr', hfits⟩ := hcok.2
  obtain rfl : fuseReplyWrite count = r' := List.head_eq_of_cons_eq hr'
  have hend := hfits hsucc
  rw [writtenCount_fuseReplyWrite hcount] at hend
  have hwritten : (writeHijack env.logged (x.1, []) x.2 l.ntreq ino fi).buf.readLe 0 4 = count :=
    hijack_written hreplies hcount _ (le_writeBuffer_length _ _)
  refine ⟨count, ?_, ?_⟩
  · rw [writeCall, transferOf, if_pos hsucc, writtenCount_fuseReplyWrite hcount]
  · rw [hwritten, Nat.mod_eq_of_lt hend]

-- ============================================================================
-- Every request
-- ============================================================================

/-- What a request does to the positions. -/
structure PosStep (env : Env σ) (x : σ × Tables) (l : Transaction) (x' : σ × Tables) : Prop where
  pos : ∀ p, x'.2.pos p = positionAfter p (x.2.pos p) (eventOf env x l)
  positioned : Positioned x'.2
  sync : ∀ p, eventOf env x l ≠ .created p → x'.2.sync p = x.2.sync p
  offset : ∀ p offset count, eventOf env x l = .transferred p offset count →
    reqFop l.ntreq = p ∧ (reqMajor l.ntreq = irpMjRead ∨ reqMajor l.ntreq = irpMjWrite) ∧
      offset = reqOffset x.2 l.ntreq

/-- A request that keeps the handles and their positions is no event. -/
theorem posStep_of_kept (ht : Positioned x.2) (hevent : eventOf env x l = .other)
    (hfi : x'.2.fi = x.2.fi) (hpos : x'.2.pos = x.2.pos) (hsync : x'.2.sync = x.2.sync) :
    PosStep env x l x' where
  pos p := by rw [hevent, hpos]; rfl
  positioned p hp := by
    rw [hfi] at hp
    rw [hpos]
    exact ht p hp
  sync p _ := by rw [hsync]
  offset p offset count h := by
    rw [hevent] at h
    cases h

theorem eventOf_transfer (env : Env σ) (x : σ × Tables)
    (hmaj : reqMajor l.ntreq = irpMjRead ∨ reqMajor l.ntreq = irpMjWrite) :
    eventOf env x l =
      match transferOf l.calls with
      | some (offset, count) => .transferred (reqFop l.ntreq) offset count
      | none => .other := by
  have hcreate : reqMajor l.ntreq ≠ irpMjCreate := by
    rcases hmaj with hmaj | hmaj <;> rw [hmaj] <;> decide
  rw [eventOf, if_neg hcreate, if_pos hmaj]

theorem TransferStep.posStep (h : TransferStep x.2 x'.2 l)
    (hmaj : reqMajor l.ntreq = irpMjRead ∨ reqMajor l.ntreq = irpMjWrite) (ht : Positioned x.2) :
    PosStep env x l x' := by
  have hevent := eventOf_transfer env x hmaj
  rcases h with ⟨hnone, hsame⟩ | ⟨count, hsome, hfi, hset⟩
  · rw [hnone] at hevent
    exact posStep_of_kept ht hevent (by rw [hsame]) (by rw [hsame]) (by rw [hsame])
  · rw [hsome] at hevent
    constructor
    · intro p
      rw [hset, hevent, fusentSetFileOffset_pos (ht _ hfi)]
      rfl
    · intro p hp
      rw [hset, fusentSetFileOffset_fi] at hp
      rw [hset, fusentSetFileOffset_pos (ht _ hfi)]
      split
      · rfl
      · exact ht p hp
    · intro p _
      rw [hset, fusentSetFileOffset_sync]
    · intro p offset count' h
      rw [hevent] at h
      obtain ⟨hp, hoffset, -⟩ := PosEvent.transferred.inj h
      exact ⟨hp, hmaj, hoffset.symm⟩

theorem SessionStep.create (h : SessionStep env x l x') (hmaj : reqMajor l.ntreq = irpMjCreate)
    (ht : Positioned x.2) : PosStep env x l x' := by
  rw [SessionStep] at h
  rw [fusentLlProcess_created _ _ _ hmaj (by simp [h])] at h
  have hcreate : (fusentDoCreate env.logged (x.1, []) x.2 l.ntreq (reqIosp l.ntreq)).1.1 = x'.2 :=
    congrArg Prod.fst (Option.some.inj (congrArg Prod.fst h))
  have hevent : eventOf env x l =
      match (createHandle env.logged (x.1, []) l.ntreq (reqIosp l.ntreq)).1 with
      | .ok _ => .created (reqFop l.ntreq)
      | .error _ => .other := by
    rw [eventOf, if_pos hmaj]
  unfold fusentDoCreate at hcreate
  simp only at hcreate
  split at hcreate
  · rename_i err s' hres
    rw [hres] at hevent
    exact posStep_of_kept ht hevent (by rw [← hcreate]) (by rw [← hcreate]) (by rw [← hcreate])
  · rename_i fi ino bn s' hres
    rw [hres] at hevent
    simp only at hcreate hevent
    constructor
    · intro p
      rw [hevent, ← hcreate]
      by_cases hp : p = reqFop l.ntreq
      · subst hp
        simp [fusentAddFopMapping, positionAfter]
      · simp [fusentAddFopMapping, positionAfter, hp, Ne.symm hp]
    · intro p hfi
      rw [← hcreate] at hfi ⊢
      by_cases hp : p = reqFop l.ntreq
      · subst hp
        simp [fusentAddFopMapping]
      · simp only [fusentAddFopMapping, Function.update_of_ne hp] at hfi ⊢
        exact ht p hfi
    · intro p hother
      have hp : p ≠ reqFop l.ntreq := fun hp => hother (by rw [hevent, hp])
      simp [← hcreate, fusentAddFopMapping, hp]
    · intro p offset count h
      rw [hevent] at h
      cases h

theorem handleDirectoryControl_keeps {s : σ} {t t' : Tables} {ntreq : Mem} {iosp : IoStackLocation}
    {msg : Message} (h : (handleDirectoryControl env s t ntreq iosp).1 = some (t', msg)) :
    t'.fi = t.fi ∧ t'.pos = t.pos ∧ t'.sync = t.sync := by
  unfold handleDirectoryControl at h
  simp only at h
  split at h
  · cases h
  · split at h
    · obtain ⟨rfl, -⟩ := Prod.mk.inj (Option.some.inj h)
      exact ⟨rfl, rfl, rfl⟩
    · cases h

theorem fusentDoQueryInformation_keeps (env : Env σ) (s : σ) (t : Tables) (ntreq : Mem) :
    (fusentDoQueryInformation env s t ntreq).1.1 = t := by
  unfold fusentDoQueryInformation
  simp only
  split
  · rfl
  · split <;> rfl

/-- The requests other than create, read and write keep the handles and their
    positions. -/
theorem fusentLlProcess_keeps {s : σ} {t t' : Tables} {ntreq : Mem} {msg : Message}
    (hcreate : reqMajor ntreq ≠ irpMjCreate) (hread : reqMajor ntreq ≠ irpMjRead)
    (hwrite : reqMajor ntreq ≠ irpMjWrite)
    (h : (fusentLlProcess env s t ntreq).1 = some (t', msg)) :
    t'.fi = t.fi ∧ t'.pos = t.pos ∧ t'.sync = t.sync := by
  unfold reqMajor at hcreate hread hwrite
  unfold fusentLlProcess at h
  simp only at h
  rw [if_neg hcreate, if_neg hread, if_neg hwrite] at h
  have hsame : ∀ {err : Int}, some (t, fusentReplyError (env.memory s) (reqPirp ntreq)
      (reqFop ntreq) err) = some (t', msg) → t'.fi = t.fi ∧ t'.pos = t.pos ∧ t'.sync = t.sync := by
    intro err h
    obtain ⟨rfl, -⟩ := Prod.mk.inj (Option.some.inj h)
    exact ⟨rfl, rfl, rfl⟩
  split at h
  · exact handleDirectoryControl_keeps h
  split at h
  · exact hsame h
  split at h
  · exact hsame h
  split at h
  · exact hsame h
  split at h
  · have hquery := congrArg Prod.fst (Option.some.inj h)
    obtain rfl : t = t' := (fusentDoQueryInformation_keeps env s t ntreq).symm.trans hquery
    exact ⟨rfl, rfl, rfl⟩
  · exact hsame h

/-- A request whose calls are as they should be moves the positions as it
    should. -/
theorem SessionStep.posStep (h : SessionStep env x l x') (hok : ∀ c ∈ l.calls, TransferOk c)
    (ht : Positioned x.2) : PosStep env x l x' := by
  by_cases hcreate : reqMajor l.ntreq = irpMjCreate
  · exact h.create hcreate ht
  by_cases hread : reqMajor l.ntreq = irpMjRead
  · exact (h.read hok hread).posStep (.inl hread) ht
  by_cases hwrite : reqMajor l.ntreq = irpMjWrite
  · exact (h.write hok hwrite).posStep (.inr hwrite) ht
  have hevent : eventOf env x l = .other := by
    rw [eventOf, if_neg hcreate, if_neg (not_or.mpr ⟨hread, hwrite⟩)]
  obtain ⟨hfi, hpos, hsync⟩ :=
    fusentLlProcess_keeps hcreate hread hwrite (congrArg Prod.fst h)
  exact posStep_of_kept ht hevent hfi hpos hsync

-- ============================================================================
-- Runs
-- ============================================================================

/-- The pieces, each an offset and a number of bytes, lie end to end from `lo`
    to `hi`. -/
def Tiles : Nat → List (Nat × Nat) → Nat → Prop
  | lo, [], hi => lo = hi
  | lo, (offset, count) :: rest, hi => offset = lo ∧ Tiles (lo + count) rest hi

theorem Tiles.snoc {lo mid count : Nat} {pieces : List (Nat × Nat)} (h : Tiles lo pieces mid) :
    Tiles lo (pieces ++ [(mid, count)]) (mid + count) := by
  induction pieces generalizing lo with
  | nil =>
      obtain rfl : lo = mid := h
      exact ⟨rfl, rfl⟩
  | cons piece rest ih => exact ⟨h.1, ih h.2⟩

/-- The steps of a run, with the states they were taken in. -/
abbrev Trace (σ : Type) := List ((σ × Tables) × Transaction)

/-- The events of a run. -/
def eventsOf (env : Env σ) (tr : Trace σ) : List PosEvent := tr.map fun y => eventOf env y.1 y.2

/-- The transfers on `p`. -/
def transfersOn (p : Pfile) (events : List PosEvent) : List (Nat × Nat) :=
  events.filterMap fun e =>
    match e with
    | .transferred q offset count => if q = p then some (offset, count) else none
    | _ => none

/-- All calls of a run are as they should be. -/
def TransfersOk (tr : Trace σ) : Prop := ∀ y ∈ tr, ∀ c ∈ y.2.calls, TransferOk c

/-- A read or write on `p` goes by the position. -/
def PointerRelative (p : Pfile) (l : Transaction) : Prop :=
  reqFop l.ntreq = p → reqMajor l.ntreq = irpMjRead ∨ reqMajor l.ntreq = irpMjWrite →
    (reqIosp l.ntreq).byteOffset = fileUseFilePointerPosition ∨ (reqIosp l.ntreq).byteOffset = 0

theorem reqOffset_of_pointerRelative {t : Tables} (hsync : t.sync (reqFop l.ntreq) = some true)
    (hmaj : reqMajor l.ntreq = irpMjRead ∨ reqMajor l.ntreq = irpMjWrite)
    (hrel : PointerRelative (reqFop l.ntreq) l) :
    reqOffset t l.ntreq = (t.pos (reqFop l.ntreq)).getD 0 := by
  rw [reqOffset, fusentReadwriteOffset, if_pos ⟨hsync, hrel rfl hmaj⟩]
  rfl

variable {tr : Trace σ}

theorem transfersOk_snoc {y : (σ × Tables) × Transaction} :
    TransfersOk (tr ++ [y]) ↔ TransfersOk tr ∧ ∀ c ∈ y.2.calls, TransferOk c := by
  unfold TransfersOk
  rw [List.forall_mem_append, List.forall_mem_singleton]

theorem eventsOf_snoc (env : Env σ) (tr : Trace σ) (x : σ × Tables) (l : Transaction) :
    eventsOf env (tr ++ [(x, l)]) = eventsOf env tr ++ [eventOf env x l] :=
  List.map_append

theorem transfersOn_append (p : Pfile) (events events' : List PosEvent) :
    transfersOn p (events ++ events') = transfersOn p events ++ transfersOn p events' :=
  List.filterMap_append

theorem positions_of_run (hrun : Run (SessionStep env) x tr x') (ht : Positioned x.2)
    (hok : TransfersOk tr) :
    Positioned x'.2 ∧
      ∀ p, x'.2.pos p = (eventsOf env tr).foldl (positionAfter p) (x.2.pos p) := by
  induction hrun with
  | nil => exact ⟨ht, fun p => rfl⟩
  | snoc _ hs ih =>
      obtain ⟨hpre, hlast⟩ := transfersOk_snoc.mp hok
      obtain ⟨hpositioned, hpos⟩ := ih hpre
      have hstep := hs.posStep hlast hpositioned
      refine ⟨hstep.positioned, fun p => ?_⟩
      rw [hstep.pos p, hpos p, eventsOf_snoc, List.foldl_append]
      rfl

/-- Reads and writes that go by the position lie end to end. -/
theorem tiles_of_run (hrun : Run (SessionStep env) x tr x') (ht : Positioned x.2)
    (hok : TransfersOk tr) {p : Pfile} (hsync : x.2.sync p = some true)
    (hrel : ∀ y ∈ tr, PointerRelative p y.2 ∧ eventOf env y.1 y.2 ≠ .created p) :
    x'.2.sync p = some true ∧
      Tiles ((x.2.pos p).getD 0) (transfersOn p (eventsOf env tr)) ((x'.2.pos p).getD 0) := by
  induction hrun with
  | nil => exact ⟨hsync, rfl⟩
  | @snoc tr y y' l hpre hs ih =>
      obtain ⟨hokpre, hoklast⟩ := transfersOk_snoc.mp hok
      obtain ⟨hrelpre, hrellast⟩ := List.forall_mem_append.mp hrel
      obtain ⟨hrellast, hnew⟩ := hrellast _ (List.mem_singleton_self _)
      obtain ⟨hsyncpre, htiles⟩ := ih hokpre hrelpre
      have hstep := hs.posStep hoklast (positions_of_run hpre ht hokpre).1
      refine ⟨(hstep.sync p hnew).trans hsyncpre, ?_⟩
      rw [hstep.pos p, eventsOf_snoc, transfersOn_append]
      cases hevent : eventOf env y l with
      | created q =>
          have hq : q ≠ p := fun hq => hnew (by rw [← hq]; exact hevent)
          simpa [transfersOn, positionAfter, hq] using htiles
      | other => simpa [transfersOn, positionAfter] using htiles
      | transferred q offset count =>
          by_cases hq : q = p
          · subst hq
            obtain ⟨hfop, hmaj, rfl⟩ := hstep.offset _ _ _ hevent
            subst hfop
            have hoffset := reqOffset_of_pointerRelative hsyncpre hmaj hrellast
            simpa [transfersOn, positionAfter, hoffset] using htiles.snoc
          · simpa [transfersOn, positionAfter, hq] using htiles

/-- In every session whose calls are as they should be, a handle's position is
    where its last transfer ended, and on a synchronous handle the transfers
    that go by the position tile the file. -/
theorem file_positions {s₀ : σ} (hrun : Run (SessionStep env) (s₀, fusentTranslateSetup) tr x)
    (hok : TransfersOk tr) :
    (∀ p, x.2.pos p = (eventsOf env tr).foldl (positionAfter p) none) ∧
      ∀ p tr' x', Run (SessionStep env) x tr' x' → TransfersOk tr' → x.2.sync p = some true →
        (∀ y ∈ tr', PointerRelative p y.2 ∧ eventOf env y.1 y.2 ≠ .created p) →
        Tiles ((x.2.pos p).getD 0) (transfersOn p (eventsOf env tr')) ((x'.2.pos p).getD 0) := by
  have hsetup : Positioned fusentTranslateSetup := fun p hp => by cases hp
  obtain ⟨hpositioned, hpos⟩ := positions_of_run hrun hsetup hok
  refine ⟨hpos, fun p tr' x' hrun' hok' hsync hrel => ?_⟩
  exact (tiles_of_run hrun' hpositioned hok' hsync hrel).2

end Session

-- ============================================================================
-- A file without end
-- ============================================================================

/-- A file system with one file, which reads as zeros without end. -/
def zeroEnv : Env Unit :=
  { sampleEnv with
    op := fun s c =>
      match c with
      | .read _ size _ _ => ([fuseReplyBuf (List.replicate size 0)], s)
      | _ => sampleEnv.op s c }

/-- Opening "\\a", synchronously. -/
def sampleOpenFile : Mem :=
  ntRequest 1 5
    { (default : IoStackLocation) with majorFunction := irpMjCreate, arg1 := 0x1000020 }
    (leBytes 4 6 ++ [0x5c, 0, 0x61, 0, 0, 0])

/-- Reading from where the position is. -/
def sampleReadSp (length : UInt64) : IoStackLocation :=
  { (default : IoStackLocation) with majorFunction := irpMjRead, arg0 := length }

def sampleReadRequest (length : UInt64) : Mem := ntRequest 2 5 (sampleReadSp length) []

/-- The tables with the open file at the position `o`. -/
structure FileAt (t : Tables) (o : Nat) : Prop where
  handle : fusentFiInodeBasenameFromFop t 5 = some (some ⟨7, 0, 0⟩, 2, [])
  sync : t.sync 5 = some true
  pos : t.pos 5 = some o

theorem zero_open : ∃ l t, SessionStep zeroEnv ((), fusentTranslateSetup) l ((), t) ∧
    (∀ c ∈ l.calls, TransferOk c) ∧ FileAt t 0 := by
  have hopen : ((fusentLlProcess zeroEnv.logged ((), []) fusentTranslateSetup sampleOpenFile).1.map
      fun r => (fusentFiInodeBasenameFromFop r.1 5, r.1.sync 5, r.1.pos 5)) =
        some (some (some ⟨7, 0, 0⟩, 2, []), some true, some 0) := by
    decide +kernel
  have hops : (fusentLlProcess zeroEnv.logged ((), []) fusentTranslateSetup
      sampleOpenFile).2.2.map (fun c => c.1.op) = [.lookup, .openFile] := by
    decide +kernel
  generalize hproc : fusentLlProcess zeroEnv.logged ((), []) fusentTranslateSetup sampleOpenFile =
    r at hopen hops
  obtain ⟨⟨t, msg⟩, hres, hfacts⟩ := Option.map_eq_some_iff.mp hopen
  simp only [Prod.mk.injEq] at hfacts
  refine ⟨⟨sampleOpenFile, r.2.2, msg⟩, t, hproc.trans (Prod.ext hres rfl), fun c hc => ?_,
    ⟨hfacts.1, hfacts.2.1, hfacts.2.2⟩⟩
  have hop : c.1.op ∈ [LlOp.lookup, LlOp.openFile] := by
    rw [← hops]
    exact List.mem_map_of_mem hc
  obtain ⟨c, replies⟩ := c
  cases c <;> simp [LlCall.op] at hop <;> exact ⟨trivial, trivial⟩

theorem length_zeros (n : Nat) : (fuseReplyBuf (List.replicate n 0)).length = n := by
  unfold fuseReplyBuf sendReply FsReply.length
  split
  · rename_i hnil
    rw [(List.replicate_eq_nil_iff _).mp hnil]
    rfl
  · simp

theorem zero_read {t : Tables} {o : Nat} (ht : FileAt t o) (length : UInt64)
    (hlength : length.toNat < 2 ^ 32) :
    ∃ l, SessionStep zeroEnv ((), t) l ((), fusentSetFileOffset t 5
        ((o + (sizeofFuseOutHeader + length.toNat) % 2 ^ 32 + 2 ^ 64 - sizeofFuseOutHeader) %
          2 ^ 64)) ∧
      l.ntreq = sampleReadRequest length ∧
      l.calls = [(.read 2 length.toNat o ⟨7, 0, 0⟩,
        [fuseReplyBuf (List.replicate length.toNat 0)])] := by
  have hfop : reqFop (sampleReadRequest length) = 5 := reqFop_ntRequest ..
  have hiosp : reqIosp (sampleReadRequest length) = sampleReadSp length := reqIosp_ntRequest ..
  have hmaj : reqMajor (sampleReadRequest length) = irpMjRead := reqMajor_ntRequest ..
  have hoffset : reqOffset t (sampleReadRequest length) = o := by
    rw [reqOffset, hfop, hiosp, fusentReadwriteOffset, if_pos ⟨ht.sync, .inr rfl⟩,
      fusentGetFileOffset, ht.pos]
    rfl
  have hcall : readCall t (sampleReadRequest length) 2 ⟨7, 0, 0⟩ =
      .read 2 length.toNat o ⟨7, 0, 0⟩ := by
    rw [readCall, hoffset, hiosp]
    exact congrArg (LlCall.read 2 · o _) (Nat.mod_eq_of_lt hlength)
  have hreply : (zeroEnv.op () (readCall t (sampleReadRequest length) 2 ⟨7, 0, 0⟩)).1 =
      [fuseReplyBuf (List.replicate length.toNat 0)] := by
    rw [hcall]
    rfl
  obtain ⟨msg, hstep⟩ := sessionStep_read hmaj (by rw [hfop]; exact ht.handle) rfl hreply rfl
  rw [hcall, hoffset, hfop, length_zeros] at hstep
  exact ⟨_, hstep, rfl, rfl⟩

theorem FileAt.read {t : Tables} {o : Nat} (ht : FileAt t o) (o' : Nat) :
    FileAt (fusentSetFileOffset t 5 o') o' where
  handle := by
    have hmap := ht.handle
    unfold fusentSetFileOffset
    rw [ht.pos]
    exact hmap
  sync := by rw [fusentSetFileOffset_sync, ht.sync]
  pos := by rw [fusentSetFileOffset_pos (by rw [ht.pos]; rfl), if_pos rfl]

section Zeros

variable {l : Transaction} {o n : Nat}
  (hcalls : l.calls = [(.read 2 n o ⟨7, 0, 0⟩, [fuseReplyBuf (List.replicate n 0)])])

include hcalls

theorem zeros_atMostRequested : ∀ c ∈ l.calls, AtMostRequested c := by
  intro c hc
  rw [hcalls, List.mem_singleton] at hc
  subst hc
  intro r hr _
  rw [List.mem_singleton.mp hr, length_zeros]

theorem zeros_transferOk (hlen : sizeofFuseOutHeader + n < 2 ^ 32) (hend : o + n < 2 ^ 64) :
    ∀ c ∈ l.calls, TransferOk c := by
  intro c hc
  refine ⟨zeros_atMostRequested hcalls c hc, ?_⟩
  rw [hcalls, List.mem_singleton] at hc
  subst hc
  refine ⟨_, rfl, fun _ => ?_⟩
  rw [length_zeros]
  exact ⟨hlen, hend⟩

theorem zeros_event {length : UInt64} (hreq : l.ntreq = sampleReadRequest length)
    (x : Unit × Tables) : eventOf zeroEnv x l = .transferred 5 o n := by
  have hfop : reqFop l.ntreq = 5 := hreq ▸ reqFop_ntRequest ..
  have hmaj : reqMajor l.ntreq = irpMjRead := hreq ▸ reqMajor_ntRequest ..
  have htransfer : transferOf l.calls = some (o, n) := by
    have hsucc : (fuseReplyBuf (List.replicate n 0)).error = 0 := rfl
    rw [hcalls, transferOf, if_pos hsucc, length_zeros]
  rw [eventOf_transfer zeroEnv x (.inl hmaj), htransfer, hfop]

theorem zeros_relative {length : UInt64} (hreq : l.ntreq = sampleReadRequest length)
    (x : Unit × Tables) : PointerRelative 5 l ∧ eventOf zeroEnv x l ≠ .created 5 := by
  have hiosp : reqIosp l.ntreq = sampleReadSp length := hreq ▸ reqIosp_ntRequest ..
  refine ⟨fun _ _ => .inr ?_, ?_⟩
  · rw [hiosp]
    rfl
  · rw [zeros_event hcalls hreq]
    exact PosEvent.noConfusion

end Zeros

/-- Two reads of two bytes each lie end to end. -/
theorem file_positions_two_reads :
    ∃ tr x tr' x', Run (SessionStep zeroEnv) ((), fusentTranslateSetup) tr x ∧ TransfersOk tr ∧
      Run (SessionStep zeroEnv) x tr' x' ∧ TransfersOk tr' ∧
      transfersOn 5 (eventsOf zeroEnv tr') = [(0, 2), (2, 2)] ∧
      Tiles 0 (transfersOn 5 (eventsOf zeroEnv tr')) ((x'.2.pos 5).getD 0) := by
  obtain ⟨l₀, t, hopen, hok₀, ht⟩ := zero_open
  obtain ⟨l₁, hread₁, hreq₁, hcalls₁⟩ := zero_read ht 2 (by decide)
  obtain ⟨l₂, hread₂, hreq₂, hcalls₂⟩ := zero_read (ht.read 2) 2 (by decide)
  have hnil : TransfersOk ([] : Trace Unit) := fun _ h => absurd h List.not_mem_nil
  have hrun := Run.nil.snoc hopen
  have hrun' := (Run.nil.snoc hread₁).snoc hread₂
  have hok : TransfersOk ([] ++ [(((), fusentTranslateSetup), l₀)]) := transfersOk_snoc.mpr ⟨hnil, hok₀⟩
  have hok₁ := zeros_transferOk hcalls₁ (by decide) (by decide)
  have hok₂ := zeros_transferOk hcalls₂ (by decide) (by decide)
  have hok' : TransfersOk ([] ++ [(((), t), l₁)] ++ [(((), fusentSetFileOffset t 5 2), l₂)]) :=
    transfersOk_snoc.mpr ⟨transfersOk_snoc.mpr ⟨hnil, hok₁⟩, hok₂⟩
  refine ⟨_, _, _, _, hrun, hok, hrun', hok', ?_, ?_⟩
  · simp [eventsOf, zeros_event hcalls₁ hreq₁, zeros_event hcalls₂ hreq₂, transfersOn]
  · have htiles := (file_positions hrun hok).2 5 _ _ hrun' hok' ht.sync ?_
    · rwa [ht.pos] at htiles
    · rw [List.nil_append, List.forall_mem_append, List.forall_mem_singleton,
        List.forall_mem_singleton]
      exact ⟨zeros_relative hcalls₁ hreq₁ _, zeros_relative hcalls₂ hreq₂ _⟩

/-- A read of 2³² - 16 bytes moves the position by -16. -/
theorem file_positions_huge_read :
    ∃ tr x, Run (SessionStep zeroEnv) ((), fusentTranslateSetup) tr x ∧
      (∀ y ∈ tr, ∀ c ∈ y.2.calls, AtMostRequested c) ∧
      x.2.pos 5 ≠ (eventsOf zeroEnv tr).foldl (positionAfter 5) none := by
  obtain ⟨l₀, t, hopen, hok₀, ht⟩ := zero_open
  obtain ⟨l₁, hread, hreq, hcalls⟩ := zero_read ht 0xfffffff0 (by decide)
  refine ⟨_, _, (Run.nil.snoc hopen).snoc hread, ?_, ?_⟩
  · rw [List.nil_append, List.forall_mem_append, List.forall_mem_singleton,
      List.forall_mem_singleton]
    exact ⟨fun c hc => (hok₀ c hc).1, zeros_atMostRequested hcalls⟩
  · rw [eventsOf_snoc, zeros_event hcalls hreq, List.foldl_append, (ht.read _).pos]
    change some _ ≠ some (0 + UInt64.toNat 0xfffffff0)
    decide

end FuseNt
