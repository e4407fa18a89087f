/-
  FuseNt.RoundTrip.Error

  Errors on their way from a file system to the application.

  `fusent_reply_error` negates the error code and `fusent_translate_errno`
  compares the negated code with the positive ones of its table, so that every
  error becomes `STATUS_UNSUCCESSFUL`.  `FuseCopyResponse` stores the status in
  the packet, and goes on to overwrite it if the request was a query, because a
  reply with an error has no file information.
-/

import FuseNt.RoundTrip.Read

namespace FuseNt

open FuseNt.Lib

section Driver

variable {w : World} {ms : ModuleStruct} {O : List Entry} {q : Option Addr} {p : Pirp}
  {usp : IoStackLocation} {buf : Mem} {fop : Pfile} {e : Int} {resp : Irp}

/-- What the driver reads from a packet that carries an error. -/
structure ErrorMessage (msg : Mem) (p : Pirp) : Prop where
  pirp : respPirp msg = p
  status : msg.readLe respStatusOffset 4 = statusUnsuccessful.toNat
  buflen : msg.readLe respParamsOffset 4 = 0

/-- A listing without bytes has no records. -/
theorem dirGuard_empty (msg : Mem) (needed : Nat → Nat) {s : DirCopy} (h : s.remaining = 0) :
    dirGuard msg needed s = false := by
  simp [dirGuard, h, sizeofFileDirectoryInformation]

theorem copyDirEntries_empty (cls : DirClass) (msg : Mem) {s : DirCopy} (h : s.remaining = 0)
    {fuel : Nat} (hfuel : 0 < fuel) : copyDirEntries cls msg fuel s = some s := by
  cases fuel with
  | zero => contradiction
  | succ fuel => simp [copyDirEntries, dirGuard_empty msg _ h]

theorem copyNamesEntries_empty (msg : Mem) {s : DirCopy} (h : s.remaining = 0) {fuel : Nat}
    (hfuel : 0 < fuel) : copyNamesEntries msg fuel s = some s := by
  cases fuel with
  | zero => contradiction
  | succ fuel => simp [copyNamesEntries, dirGuard_empty msg _ h]

/-- The driver goes through the listing of a directory reply even if the reply
    is an error; it leaves the status alone. -/
theorem fuseCopyDirectoryControl_empty (c : Wchar) {irp : Irp} (msg : Mem) (src : Nat)
    (husp : irp.currentStackLocation = some usp) :
    ∃ st, ∀ fuel, 0 < fuel → fuseCopyDirectoryControl fuel c irp msg src 0 =
      some ⟨{ irp with
        userBuffer := irp.userBuffer.zero 0
          (toLong usp.queryDirectoryLength % (2 ^ 64 : Nat)).toNat }, st, c, []⟩ := by
  unfold fuseCopyDirectoryControl
  simp only [husp, Option.bind_eq_bind, Option.bind_some]
  cases DirQuery.ofCode usp.queryDirectoryClass with
  | none => exact ⟨_, fun _ _ => rfl⟩
  | some query =>
      refine ⟨statusSuccess, fun fuel hfuel => ?_⟩
      cases query with
      | records cls =>
          simp only
          rw [copyDirEntries_empty cls msg ?_ hfuel, Option.bind_some, endChain]
          rfl
      | names =>
          simp only
          rw [copyNamesEntries_empty msg ?_ hfuel, Option.bind_some, endChain]
          rfl

/-- The packet after a response with an error: a query ends with a status of
    its own. -/
theorem ErrorMessage.fillResponse {msg : Mem} (hm : ErrorMessage msg p) (c : Wchar)
    (files : Pfile → UnicodeString) {irp : Irp} (husp : irp.currentStackLocation = some usp) :
    ∃ irp' st, (∀ fuel, 0 < fuel →
        FuseNt.fillResponse fuel c files irp usp msg = some (irp', st, c)) ∧
      irp'.ioStatus.status = if usp.majorFunction = irpMjQueryInformation
        then statusInvalidBufferSize else statusUnsuccessful := by
  have hfail : ntSuccess (UInt32.ofNat statusUnsuccessful.toNat) = false := by decide
  have hshort : ¬ sizeofFusentFileInformation ≤ 0 := by decide
  unfold FuseNt.fillResponse
  simp only [hm.status, hm.buflen, hfail, Bool.false_eq_true, if_false, if_neg hshort]
  by_cases hq : usp.majorFunction = irpMjQueryInformation
  · simp only [if_pos hq]
    exact ⟨_, _, fun _ _ => rfl, rfl⟩
  by_cases hd : usp.majorFunction = irpMjDirectoryControl
  · simp only [if_neg hq, if_pos hd]
    have husp' : ({ irp with ioStatus := { irp.ioStatus with
        status := UInt32.ofNat statusUnsuccessful.toNat } } : Irp).currentStackLocation = some usp :=
      husp
    obtain ⟨st, hcopy⟩ := fuseCopyDirectoryControl_empty c msg sizeofFusentResp husp'
    refine ⟨{ irp with
      ioStatus := { irp.ioStatus with status := UInt32.ofNat statusUnsuccessful.toNat }
      userBuffer := irp.userBuffer.zero 0
        (toLong usp.queryDirectoryLength % (2 ^ 64 : Nat)).toNat }, st, fun fuel hfuel => ?_, rfl⟩
    rw [hcopy fuel hfuel]
    rfl
  · simp only [if_neg hq, if_neg hd]
    exact ⟨_, _, fun _ _ => rfl, rfl⟩

end Driver

end FuseNt
