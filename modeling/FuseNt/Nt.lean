/-
  FuseNt.Nt

  The NT data the driver and the module library work on, in the x86-64
  layout: status codes, I/O stack locations, I/O request packets and the
  counted strings of file objects.

  An I/O stack location and the header of an I/O request packet are records
  of the fields the code names, with every remaining byte kept in an opaque
  field, so that `IoStackLocation.toBytes` and `Irp.toBytes` are the exact
  memory images that `FuseCheckForWork` copies to a module.
-/

import FuseNt.Lib.Bytes

namespace FuseNt

open FuseNt.Lib

-- ============================================================================
-- Status codes and request codes
-- ============================================================================

/-- `NTSTATUS`, as its 32-bit pattern. -/
abbrev NtStatus := UInt32

def statusSuccess : NtStatus := 0x00000000
def statusPending : NtStatus := 0x00000103
def statusBufferOverflow : NtStatus := 0x80000005
def statusNoMoreFiles : NtStatus := 0x80000006
def statusUnsuccessful : NtStatus := 0xC0000001
def statusNotImplemented : NtStatus := 0xC0000002
def statusInvalidInfoClass : NtStatus := 0xC0000003
def statusInvalidHandle : NtStatus := 0xC0000008
def statusInvalidParameter : NtStatus := 0xC000000D
def statusNoSuchFile : NtStatus := 0xC000000F
def statusInvalidDeviceRequest : NtStatus := 0xC0000010
def statusEndOfFile : NtStatus := 0xC0000011
def statusAccessDenied : NtStatus := 0xC0000022
def statusInvalidUserBuffer : NtStatus := 0xC00000E8
def statusCancelled : NtStatus := 0xC0000120
def statusInvalidBufferSize : NtStatus := 0xC0000206
def statusRetry : NtStatus := 0xC000022D
def statusCannotMake : NtStatus := 0xC00002EA

/-- `NT_SUCCESS`: the status is non-negative as a signed number. -/
def ntSuccess (status : NtStatus) : Bool := status.toNat < 2 ^ 31

def irpMjCreate : UInt8 := 0x00
def irpMjRead : UInt8 := 0x03
def irpMjWrite : UInt8 := 0x04
def irpMjQueryInformation : UInt8 := 0x05
def irpMjDirectoryControl : UInt8 := 0x0c
def irpMjFileSystemControl : UInt8 := 0x0d

def irpCreateOperation : UInt32 := 0x00000080
def irpWriteOperation : UInt32 := 0x00000200

/-- `FlagOn`. -/
def flagOn (flags mask : UInt32) : Bool := flags &&& mask != 0

-- ============================================================================
-- I/O stack locations
-- ============================================================================

/-- The address of an I/O request packet. -/
abbrev Pirp := UInt64

/-- The address of a file object. -/
abbrev Pfile := UInt64

/-- A UTF-16 code unit (`WCHAR`). -/
abbrev Wchar := UInt16

/-- `IO_STACK_LOCATION`.  The `Parameters` union is kept as its four
    pointer-sized slots; every member of the union the code uses starts at one
    of them. -/
structure IoStackLocation where
  majorFunction : UInt8
  minorFunction : UInt8
  flags : UInt8
  control : UInt8
  pad : UInt32
  arg0 : UInt64
  arg1 : UInt64
  arg2 : UInt64
  arg3 : UInt64
  deviceObject : UInt64
  fileObject : Pfile
  completionRoutine : UInt64
  context : UInt64
deriving DecidableEq, Repr, Inhabited

namespace IoStackLocation

/-- The `ULONG` at the start of a parameter slot. -/
def ulong (slot : UInt64) : Nat := slot.toNat % 2 ^ 32

/-- `Parameters.Read.Length`. -/
def readLength (sp : IoStackLocation) : Nat := ulong sp.arg0

/-- `Parameters.Write.Length`. -/
def writeLength (sp : IoStackLocation) : Nat := ulong sp.arg0

/-- `Parameters.QueryDirectory.Length`. -/
def queryDirectoryLength (sp : IoStackLocation) : Nat := ulong sp.arg0

/-- `Parameters.QueryDirectory.FileInformationClass`. -/
def queryDirectoryClass (sp : IoStackLocation) : Nat := ulong sp.arg2

/-- `Parameters.QueryFile.Length`. -/
def queryFileLength (sp : IoStackLocation) : Nat := ulong sp.arg0

/-- `Parameters.QueryFile.FileInformationClass`. -/
def queryFileClass (sp : IoStackLocation) : Nat := ulong sp.arg1

/-- `Parameters.FileSystemControl.OutputBufferLength`. -/
def outputBufferLength (sp : IoStackLocation) : Nat := ulong sp.arg0

/-- `Parameters.FileSystemControl.InputBufferLength`. -/
def inputBufferLength (sp : IoStackLocation) : Nat := ulong sp.arg1

/-- `Parameters.FileSystemControl.FsControlCode`. -/
def fsControlCode (sp : IoStackLocation) : Nat := ulong sp.arg2

theorem ulong_lt (slot : UInt64) : ulong slot < 2 ^ 32 := Nat.mod_lt _ (by decide)

/-- The memory image of a stack location. -/
def toBytes (sp : IoStackLocation) : List UInt8 :=
  [sp.majorFunction, sp.minorFunction, sp.flags, sp.control] ++ leBytes 4 sp.pad.toNat ++
  leBytes 8 sp.arg0.toNat ++ leBytes 8 sp.arg1.toNat ++
  leBytes 8 sp.arg2.toNat ++ leBytes 8 sp.arg3.toNat ++
  leBytes 8 sp.deviceObject.toNat ++ leBytes 8 sp.fileObject.toNat ++
  leBytes 8 sp.completionRoutine.toNat ++ leBytes 8 sp.context.toNat

end IoStackLocation

/-- `sizeof(IO_STACK_LOCATION)`. -/
def sizeofIoStackLocation : Nat := 72

@[simp] theorem IoStackLocation.length_toBytes (sp : IoStackLocation) :
    sp.toBytes.length = sizeofIoStackLocation := by
  simp [IoStackLocation.toBytes, sizeofIoStackLocation]

-- ============================================================================
-- I/O request packets
-- ============================================================================

/-- `IO_STATUS_BLOCK`. -/
structure IoStatusBlock where
  status : NtStatus
  pad : UInt32
  information : UInt64
deriving DecidableEq, Repr, Inhabited

/-- `IRP`, with the memory it refers to: the stack locations that follow it,
    the one `IoGetCurrentIrpStackLocation` finds, the contents of
    `AssociatedIrp.SystemBuffer`, and the contents of the caller's buffer as
    `FuseMapUserBuffer` maps it. -/
structure Irp where
  typeSize : UInt64
  mdlAddress : UInt64
  flags : UInt32
  flagsPad : UInt32
  associatedIrp : UInt64
  threadListFlink : UInt64
  threadListBlink : UInt64
  ioStatus : IoStatusBlock
  requestorMode : UInt8
  pendingReturned : UInt8
  stackCount : UInt8
  currentLocation : UInt8
  cancel : Bool
  cancelIrql : UInt8
  apcEnvironment : UInt8
  allocationFlags : UInt8
  /-- Everything from `UserIosb` to the end of `Tail`. -/
  tail : List UInt8
  stack : List IoStackLocation
  currentStackLocation : Option IoStackLocation
  systemBuffer : Mem
  userBuffer : Mem
  tail_length : tail.length = 136
  stack_length : stack.length = stackCount.toNat
  /-- `StackCount` is a `CCHAR` and not negative. -/
  stackCount_lt : stackCount.toNat < 128

namespace Irp

/-- An all-zero packet without stack locations. -/
def zeroed : Irp where
  typeSize := 0
  mdlAddress := 0
  flags := 0
  flagsPad := 0
  associatedIrp := 0
  threadListFlink := 0
  threadListBlink := 0
  ioStatus := default
  requestorMode := 0
  pendingReturned := 0
  stackCount := 0
  currentLocation := 0
  cancel := false
  cancelIrql := 0
  apcEnvironment := 0
  allocationFlags := 0
  tail := List.replicate 136 0
  stack := []
  currentStackLocation := none
  systemBuffer := Mem.zeros
  userBuffer := Mem.zeros
  tail_length := by simp
  stack_length := rfl
  stackCount_lt := by decide

instance : Inhabited Irp := ⟨zeroed⟩

/-- A packet with the single stack location `sp`, which is the current one. -/
def withStackLocation (irp : Irp) (sp : IoStackLocation) : Irp :=
  { irp with
    stackCount := 1
    currentLocation := 1
    stack := [sp]
    currentStackLocation := some sp
    stack_length := rfl
    stackCount_lt := by decide }

/-- The memory image of the packet's header. -/
def toBytes (irp : Irp) : List UInt8 :=
  leBytes 8 irp.typeSize.toNat ++ leBytes 8 irp.mdlAddress.toNat ++
  leBytes 4 irp.flags.toNat ++ leBytes 4 irp.flagsPad.toNat ++
  leBytes 8 irp.associatedIrp.toNat ++
  leBytes 8 irp.threadListFlink.toNat ++ leBytes 8 irp.threadListBlink.toNat ++
  leBytes 4 irp.ioStatus.status.toNat ++ leBytes 4 irp.ioStatus.pad.toNat ++
  leBytes 8 irp.ioStatus.information.toNat ++
  [irp.requestorMode, irp.pendingReturned, irp.stackCount, irp.currentLocation,
    if irp.cancel then 1 else 0, irp.cancelIrql, irp.apcEnvironment, irp.allocationFlags] ++
  irp.tail

/-- The memory image of the stack locations that follow the header. -/
def stackBytes (irp : Irp) : List UInt8 := (irp.stack.map IoStackLocation.toBytes).flatten

end Irp

/-- `sizeof(IRP)`. -/
def sizeofIrp : Nat := 208

/-- The offset of `StackCount` in an `IRP`. -/
def irpStackCountOffset : Nat := 0x42

/-- The offset of `CurrentLocation` in an `IRP`. -/
def irpCurrentLocationOffset : Nat := 0x43

@[simp] theorem Irp.length_toBytes (irp : Irp) : irp.toBytes.length = sizeofIrp := by
  simp [Irp.toBytes, sizeofIrp, irp.tail_length]

theorem Irp.toBytes_stackCount (irp : Irp) :
    irp.toBytes[irpStackCountOffset]? = some irp.stackCount := rfl

theorem Irp.toBytes_currentLocation (irp : Irp) :
    irp.toBytes[irpCurrentLocationOffset]? = some irp.currentLocation := rfl

@[simp] theorem Irp.length_stackBytes (irp : Irp) :
    irp.stackBytes.length = irp.stackCount.toNat * sizeofIoStackLocation := by
  have h : irp.stackBytes.length = irp.stack.length * sizeofIoStackLocation := by
    unfold Irp.stackBytes
    induction irp.stack with
    | nil => simp
    | cons sp rest ih =>
        rw [List.map_cons, List.flatten_cons, List.length_append, ih,
          IoStackLocation.length_toBytes, List.length_cons, Nat.succ_mul, Nat.add_comm]
  rw [h, irp.stack_length]

-- ============================================================================
-- File names
-- ============================================================================

/-- L'\\'. -/
def backslash : Wchar := 0x5c

/-- The `UNICODE_STRING` of a name without NULs that is NUL-terminated: the
    characters before the terminator, and whatever memory lies behind it.
    (`UNICODE_STRING` promises neither: that is `ObjectName`.) -/
structure UnicodeString where
  text : List Wchar
  slack : Nat → Wchar
  text_ne_nul : 0 ∉ text
  /-- `Length` is a `USHORT` that counts bytes. -/
  length_lt : 2 * text.length < 2 ^ 16

namespace UnicodeString

/-- The string without characters. -/
def empty : UnicodeString where
  text := []
  slack := fun _ => 0
  text_ne_nul := by simp
  length_lt := by simp

instance : Inhabited UnicodeString := ⟨empty⟩

/-- `Length`: the number of bytes of the string without its terminator. -/
def length (s : UnicodeString) : Nat := 2 * s.text.length

/-- `Buffer[i]`. -/
def buffer (s : UnicodeString) (i : Nat) : Wchar :=
  if i < s.text.length then s.text.getD i 0
  else if i = s.text.length then 0
  else s.slack (i - s.text.length - 1)

/-- The bytes of `n` characters of `Buffer`, starting at character `i`. -/
def bytes (s : UnicodeString) (i n : Nat) : List UInt8 :=
  ((List.range n).map fun k => leBytes 2 (s.buffer (i + k)).toNat).flatten

end UnicodeString

/-- The UTF-16LE bytes of a string. -/
def wcharBytes (text : List Wchar) : List UInt8 :=
  (text.map fun c => leBytes 2 c.toNat).flatten

@[simp] theorem length_wcharBytes (text : List Wchar) :
    (wcharBytes text).length = 2 * text.length := by
  unfold wcharBytes
  induction text with
  | nil => rfl
  | cons c rest ih =>
      rw [List.map_cons, List.flatten_cons, List.length_append, ih, length_leBytes,
        List.length_cons]
      omega

end FuseNt
