/-
  FuseNt.Driver.RequestBounds

  Where `FuseCheckForWork` writes in the buffer of a module packet.

  It compares one size, `ReqSize`, with the length of the buffer, and then
  makes copies whose places it computes anew.  `ReqSize` is a `ULONG`: for a
  write of almost 4 GiB it wraps.  The data of a write, which `ReqSize` leaves
  room for, is put behind that room.  And the name is computed under the create
  flag of the packet while it is copied for the major function.

  `RequestFits` says for which requests and buffers none of this matters.
-/

import FuseNt.RoundTrip.Request
import FuseNt.Lib.Span

namespace FuseNt

open FuseNt.Lib

-- ============================================================================
-- What is written
-- ============================================================================

/-- The variable `FileNameLength`, which starts out as `(ULONG) -1`. -/
def fileNameLengthVar (files : Pfile → UnicodeString) (irp : Irp) (sp : IoStackLocation) : Nat :=
  if flagOn irp.flags irpCreateOperation then requestNameLength (files sp.fileObject).text
  else 2 ^ 32 - 1

/-- The places in the module's buffer that the request for `irp` is written
    to, in the order of the source. -/
def requestSpans (files : Pfile → UnicodeString) (irp : Irp) (sp : IoStackLocation) : List Span :=
  [(0, 8), (8, 8), (fusentReqIrpOffset, sizeofIrp),
    (sizeofFusentReq, irp.stackCount.toNat * sizeofIoStackLocation)] ++
  if sp.majorFunction = irpMjCreate then
    [(reqTrailer irp, 4), (reqTrailer irp + 4, fileNameLengthVar files irp sp)]
  else if sp.majorFunction = irpMjWrite then
    [(reqSize files irp sp, 4), (reqSize files irp sp + 4, sp.writeLength)]
  else []

/-- `ReqSize` as a sum of natural numbers. -/
def reqSizeExact (files : Pfile → UnicodeString) (irp : Irp) (sp : IoStackLocation) : Nat :=
  if flagOn irp.flags irpCreateOperation then
    reqTrailer irp + 4 + ((requestName (files sp.fileObject).text).length + 1) * 2
  else if flagOn irp.flags irpWriteOperation then reqTrailer irp + 4 + 8 + sp.writeLength
  else reqTrailer irp

section Sizes

variable (files : Pfile → UnicodeString) (irp : Irp) (sp : IoStackLocation)

/-- A stack location takes 72 bytes, and there are fewer than 128. -/
theorem reqTrailer_bounds : 224 ≤ reqTrailer irp ∧ reqTrailer irp < 2 ^ 14 := by
  have hcount := irp.stackCount_lt
  simp only [reqTrailer, sizeofFusentReq, fusentReqIrpOffset, sizeofIrp, sizeofIoStackLocation]
  omega

/-- `ReqSize` wraps for a write only. -/
theorem reqSize_eq_exact_iff : reqSize files irp sp = reqSizeExact files irp sp ↔
    (flagOn irp.flags irpWriteOperation = true → flagOn irp.flags irpCreateOperation = false →
      reqTrailer irp + 12 + sp.writeLength < 2 ^ 32) := by
  have htrailer := reqTrailer_bounds irp
  cases hc : flagOn irp.flags irpCreateOperation with
  | true =>
      refine iff_of_true ?_ (fun _ h => by cases h)
      rw [(reqSize_create files sp hc).2, reqSizeExact, if_pos hc, Nat.mul_comm]
  | false =>
      unfold reqSize reqSizeExact
      rw [hc]
      cases hw : flagOn irp.flags irpWriteOperation with
      | true =>
          simp only [Bool.false_eq_true, if_false, if_true, true_implies]
          omega
      | false =>
          simp only [Bool.false_eq_true, if_false]
          exact iff_of_true (Nat.mod_eq_of_lt (by omega)) (fun h => by cases h)

/-- The request is at least as long as its header. -/
theorem reqTrailer_le_exact : reqTrailer irp ≤ reqSizeExact files irp sp := by
  unfold reqSizeExact
  split
  · omega
  split
  · omega
  · exact Nat.le_refl _

end Sizes

-- ============================================================================
-- The copies
-- ============================================================================

section Copies

variable {files : Pfile → UnicodeString} {irp : Irp} {sp : IoStackLocation}

/-- The copies of `requestWrites` are at these places. -/
theorem requestWrites_spans {p : Pirp} {ws : List (Nat × List UInt8)}
    (h : requestWrites files p irp sp = some ws) :
    requestSpans files irp sp = ws.map fun x => (x.1, x.2.length) := by
  unfold requestWrites at h
  unfold requestSpans
  split at h
  case isTrue hmajor =>
      rw [if_pos hmajor]
      split at h
      case isTrue hflag =>
          obtain ⟨hname, -⟩ := reqSize_create files sp hflag
          cases h
          simp [fileNameLengthVar, hflag, hname]
      case isFalse => cases h
  case isFalse hmajor =>
      rw [if_neg hmajor]
      split at h
      case isTrue hwrite =>
          cases h
          simp [hwrite]
      case isFalse hwrite =>
          cases h
          simp [hwrite]

/-- A round that delivers a request changes the module's buffer at these places
    only. -/
theorem Copied.outside {w w' : World} {u m : Pirp} {usp : IoStackLocation}
    {ws : List (Nat × List UInt8)} (hc : Copied w w' u m usp ws) {i : Nat}
    (hi : ¬ Touches (requestSpans w.files (w.irps u) usp) i) :
    (w'.irps m).systemBuffer i = (w.irps m).systemBuffer i := by
  rw [hc.buffer]
  apply Mem.writes_of_not_mem
  intro x hx
  by_contra hnot
  apply hi
  rw [requestWrites_spans hc.copies]
  exact ⟨_, List.mem_map_of_mem hx, by omega, by simp only; omega⟩

end Copies

-- ============================================================================
-- The bound
-- ============================================================================

/-- The request for `irp` in the buffer of the module packet at `msp`: if
    `ReqSize` passes the check, everything is written below the length of the
    buffer; and `ReqSize` does not wrap. -/
structure RequestWithin (files : Pfile → UnicodeString) (irp : Irp) (sp msp : IoStackLocation) :
    Prop where
  copies : reqSize files irp sp ≤ msp.outputBufferLength →
    Below (requestSpans files irp sp) msp.outputBufferLength
  size : reqSize files irp sp = reqSizeExact files irp sp

/-- The condition.  The size of a write is below 4 GiB.  And if the request
    passes the check, a create has its flag, and the length and the data of a
    write have room behind the room that is made for them. -/
structure RequestFits (files : Pfile → UnicodeString) (irp : Irp) (sp msp : IoStackLocation) :
    Prop where
  small : flagOn irp.flags irpWriteOperation = true →
    flagOn irp.flags irpCreateOperation = false → reqTrailer irp + 12 + sp.writeLength < 2 ^ 32
  create : reqSizeExact files irp sp ≤ msp.outputBufferLength →
    sp.majorFunction = irpMjCreate → flagOn irp.flags irpCreateOperation = true
  write : reqSizeExact files irp sp ≤ msp.outputBufferLength → sp.majorFunction = irpMjWrite →
    reqSizeExact files irp sp + 4 + sp.writeLength ≤ msp.outputBufferLength

/-- Every byte of a request is written below the length of the module's buffer,
    and its size does not wrap, exactly if the request meets the condition. -/
theorem request_within_buffer (files : Pfile → UnicodeString) (irp : Irp)
    (sp msp : IoStackLocation) :
    RequestWithin files irp sp msp ↔ RequestFits files irp sp msp := by
  have htrailer := reqTrailer_bounds irp
  have hle := reqTrailer_le_exact files irp sp
  have hbuf : msp.outputBufferLength < 2 ^ 32 := IoStackLocation.ulong_lt _
  have hheader : sizeofFusentReq + irp.stackCount.toNat * sizeofIoStackLocation =
    reqTrailer irp := rfl
  constructor
  · rintro ⟨hcopies, hsize⟩
    refine ⟨(reqSize_eq_exact_iff files irp sp).mp hsize, fun hfit hmajor => ?_,
      fun hfit hmajor => ?_⟩
    · by_contra hflag
      have hbelow := hcopies (hsize ▸ hfit)
      simp only [requestSpans, if_pos hmajor, fileNameLengthVar, if_neg hflag, below_append,
        below_cons] at hbelow
      have hname := hbelow.2.2.1 (by decide)
      omega
    · have hbelow := hcopies (hsize ▸ hfit)
      have hcreate : ¬ sp.majorFunction = irpMjCreate := by
        rw [hmajor]
        decide
      simp only [requestSpans, if_neg hcreate, if_pos hmajor, below_append, below_cons, hsize]
        at hbelow
      have hlength := hbelow.2.1 (by decide)
      have hdata := hbelow.2.2.1
      omega
  · rintro ⟨hsmall, hcreate, hwrite⟩
    have hsize := (reqSize_eq_exact_iff files irp sp).mpr hsmall
    refine ⟨fun hfit => ?_, hsize⟩
    rw [hsize] at hfit
    have hfront : Below [(0, 8), (8, 8), (fusentReqIrpOffset, sizeofIrp),
        (sizeofFusentReq, irp.stackCount.toNat * sizeofIoStackLocation)]
        msp.outputBufferLength := by
      simp only [below_cons, below_nil, and_true, fusentReqIrpOffset, sizeofIrp, hheader]
      omega
    refine below_append.mpr ⟨hfront, ?_⟩
    split
    case isTrue hmajor =>
        have hflag := hcreate hfit hmajor
        have hexact : reqSizeExact files irp sp =
            reqTrailer irp + 4 + requestNameLength (files sp.fileObject).text := by
          rw [reqSizeExact, if_pos hflag, (reqSize_create files sp hflag).1, Nat.mul_comm 2]
        simp only [below_cons, below_nil, and_true, fileNameLengthVar, if_pos hflag]
        omega
    case isFalse =>
        split
        case isTrue hmajor =>
            have hroom := hwrite hfit hmajor
            simp only [below_cons, below_nil, and_true, hsize]
            omega
        case isFalse => exact below_nil

/-- The stack location of a module packet with a buffer of `n` bytes. -/
def sampleModuleSp (n : UInt64) : IoStackLocation :=
  { (default : IoStackLocation) with majorFunction := irpMjFileSystemControl, arg0 := n }

/-- A write of 8 bytes into a buffer of just `ReqSize` bytes. -/
theorem request_beyond_buffer :
    ∃ sp, (sampleWrite 8).currentStackLocation = some sp ∧
      reqSize (fun _ => UnicodeString.empty) (sampleWrite 8) sp =
        (sampleModuleSp 316).outputBufferLength ∧
      ¬ RequestWithin (fun _ => UnicodeString.empty) (sampleWrite 8) sp (sampleModuleSp 316) := by
  refine ⟨_, rfl, by decide, fun h => ?_⟩
  have hlast : 323 < 316 := h.copies (by decide) 323 ⟨(320, 8), by decide, by decide, by decide⟩
  omega

end FuseNt
