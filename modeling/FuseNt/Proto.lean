/-
  FuseNt.Proto

  The messages between the driver and a module: the layout of `FUSENT_REQ`
  and `FUSENT_RESP` (fusent_proto.h), and the module library's routines that
  take a request apart and build a response (fusent_proto.c,
  fusent_routines.c and the reply functions of fuse_lowlevel.c).

  A request is a fixed header, the stack locations of the packet it stands
  for, and a trailer whose place depends on how many stack locations there
  are.  A response is a header of 28 bytes of fields, padded to 32, and a
  payload that the header declares to follow it.
-/

import FuseNt.Nt

namespace FuseNt

open FuseNt.Lib

-- ============================================================================
-- Layout
-- ============================================================================

/-- The offset of `irp` in a `FUSENT_REQ`, behind `pirp` and `fop`. -/
def fusentReqIrpOffset : Nat := 16

/-- `sizeof(FUSENT_REQ)`, which is also the offset of `iostack`. -/
def sizeofFusentReq : Nat := fusentReqIrpOffset + sizeofIrp

/-- `sizeof(FUSENT_RESP)`: two pointers, three 32-bit fields, padded to 8 bytes. -/
def sizeofFusentResp : Nat := 32

/-- The offset of `error` in a `FUSENT_RESP`. -/
def respErrorOffset : Nat := 16

/-- The offset of `status` in a `FUSENT_RESP`. -/
def respStatusOffset : Nat := 20

/-- The offset of `params` in a `FUSENT_RESP`; every member of the union is
    one `uint32_t`. -/
def respParamsOffset : Nat := 24

-- ============================================================================
-- Decoding a request
-- ============================================================================

/-- The offset `req->iostack + req->irp.StackCount` of a request. -/
def reqTrailerOffset (req : Mem) : Nat :=
  sizeofFusentReq + (req (fusentReqIrpOffset + irpStackCountOffset)).toNat * sizeofIoStackLocation

/-- `fusent_decode_request_create`: the length of the file name in bytes, and
    the offset of its first character. -/
def fusentDecodeRequestCreate (req : Mem) : Nat × Nat :=
  (req.readLe (reqTrailerOffset req) 4, reqTrailerOffset req + 4)

/-- `fusent_decode_request_write`: the length of the data, and its offset. -/
def fusentDecodeRequestWrite (req : Mem) : Nat × Nat :=
  (req.readLe (reqTrailerOffset req) 4, reqTrailerOffset req + 4)

/-- `fusent_decode_irp` on a request: the major function of the current stack
    location, and the offset of that location.  `CurrentLocation` is 1-based. -/
def fusentDecodeIrp (req : Mem) : UInt8 × Nat :=
  let cur := (req (fusentReqIrpOffset + irpCurrentLocationOffset)).toNat
  let off := sizeofFusentReq + cur * sizeofIoStackLocation - sizeofIoStackLocation
  (req off, off)

-- ============================================================================
-- Building a response
-- ============================================================================

/-- A message to the driver: its bytes and how many of them are sent. -/
structure Message where
  bytes : Mem
  length : Nat

def eNoEnt : Int := 2
def eIo : Int := 5
def eBadF : Int := 9
def eAgain : Int := 11
def eAcces : Int := 13
def eExist : Int := 17
def eNoSys : Int := 40

/-- `fusent_translate_errno`.  Errors arrive negative, and the table lists the
    positive codes; `ENOSPC` is listed with the default. -/
def fusentTranslateErrno (err : Int) : NtStatus :=
  if 0 ≤ err then statusSuccess
  else if err = eAcces then statusAccessDenied
  else if err = eBadF then statusInvalidHandle
  else if err = eNoEnt then statusNoSuchFile
  else if err = eExist then statusCannotMake
  else if err = eNoSys then statusNotImplemented
  else if err = eAgain then statusRetry
  else statusUnsuccessful

/-- `fusent_fill_resp`. -/
def fusentFillResp (m : Mem) (pirp : Pirp) (fop : Pfile) (error : Int) : Mem :=
  ((((m.zero 0 sizeofFusentResp).writeLe 0 8 pirp.toNat).writeLe 8 8 fop.toNat).writeLe
    respErrorOffset 4 (error % (2 ^ 32 : Nat)).toNat).writeLe
    respStatusOffset 4 (fusentTranslateErrno error).toNat

section FillResp

variable (m : Mem) (pirp : Pirp) (fop : Pfile) (error : Int)

theorem fusentFillResp_pirp : (fusentFillResp m pirp fop error).readLe 0 8 = pirp.toNat := by
  unfold fusentFillResp
  rw [Mem.readLe_writeLe_disjoint _ _ _ _ _ _ (by decide),
    Mem.readLe_writeLe_disjoint _ _ _ _ _ _ (by decide),
    Mem.readLe_writeLe_disjoint _ _ _ _ _ _ (by decide), Mem.readLe_writeLe_same]
  exact Nat.mod_eq_of_lt pirp.toNat_lt

theorem fusentFillResp_status : (fusentFillResp m pirp fop error).readLe respStatusOffset 4 =
    (fusentTranslateErrno error).toNat := by
  unfold fusentFillResp
  rw [Mem.readLe_writeLe_same]
  exact Nat.mod_eq_of_lt (fusentTranslateErrno error).toNat_lt

/-- The parameters and the padding behind them are zero. -/
theorem fusentFillResp_params {i : Nat} (h : respParamsOffset ≤ i ∧ i < sizeofFusentResp) :
    fusentFillResp m pirp fop error i = 0 := by
  unfold respParamsOffset sizeofFusentResp at h
  unfold fusentFillResp
  rw [Mem.writeLe_of_not_mem _ _ _ _ _ (by unfold respStatusOffset; omega),
    Mem.writeLe_of_not_mem _ _ _ _ _ (by unfold respErrorOffset; omega),
    Mem.writeLe_of_not_mem _ _ _ _ _ (by omega), Mem.writeLe_of_not_mem _ _ _ _ _ (by omega)]
  exact Mem.zero_of_mem _ _ _ _ (by unfold sizeofFusentResp; omega)

/-- What follows the header is left alone. -/
theorem fusentFillResp_payload {i : Nat} (h : sizeofFusentResp ≤ i) :
    fusentFillResp m pirp fop error i = m i := by
  unfold sizeofFusentResp at h
  unfold fusentFillResp
  rw [Mem.writeLe_of_not_mem _ _ _ _ _ (by unfold respStatusOffset; omega),
    Mem.writeLe_of_not_mem _ _ _ _ _ (by unfold respErrorOffset; omega),
    Mem.writeLe_of_not_mem _ _ _ _ _ (by omega), Mem.writeLe_of_not_mem _ _ _ _ _ (by omega)]
  exact Mem.zero_of_not_mem _ _ _ _ (by unfold sizeofFusentResp; omega)

end FillResp

/-- `fusent_reply_error`: the error code is negated on the way. -/
def fusentReplyError (m : Mem) (pirp : Pirp) (fop : Pfile) (error : Int) : Message :=
  ⟨fusentFillResp m pirp fop (-error), sizeofFusentResp⟩

/-- `fusent_reply_write`. -/
def fusentReplyWrite (m : Mem) (pirp : Pirp) (fop : Pfile) (written : Nat) : Message :=
  ⟨(fusentFillResp m pirp fop 0).writeLe respParamsOffset 4 written, sizeofFusentResp⟩

/-- `fusent_reply_read` on the buffer `buf`, which has the data behind room for
    the header; `buflen` is a `uint32_t` that includes the header. -/
def fusentReplyRead (buf : Mem) (pirp : Pirp) (fop : Pfile) (buflen : Nat) : Message :=
  let readlen := (buflen + 2 ^ 32 - sizeofFusentResp) % 2 ^ 32
  let resp := (fusentFillResp buf pirp fop 0).writeLe respParamsOffset 4 readlen
  let resp := if readlen = 0 then resp.writeLe respStatusOffset 4 statusEndOfFile.toNat else resp
  ⟨resp, buflen⟩

/-- The reply of `fusent_do_read` for the data `d` that the file system put
    behind room for a header, in a buffer `buf` fresh from `malloc`.
    `outh.len`, a `uint32_t`, counts the data and a `fuse_out_header`. -/
def fusentDoReadReply (buf : Mem) (pirp : Pirp) (fop : Pfile) (d : List UInt8) : Message :=
  let outhLen := (16 + d.length) % 2 ^ 32
  fusentReplyRead (buf.write sizeofFusentResp d) pirp fop
    ((outhLen + 2 ^ 64 - 16 + sizeofFusentResp) % 2 ^ 32)

/-- `fusent_reply_dirctrl`. -/
def fusentReplyDirctrl (buf : Mem) (pirp : Pirp) (fop : Pfile) (buflen : Nat) : Message :=
  let readlen := (buflen + 2 ^ 32 - sizeofFusentResp) % 2 ^ 32
  ⟨(fusentFillResp buf pirp fop 0).writeLe respParamsOffset 4 readlen, buflen⟩

end FuseNt
