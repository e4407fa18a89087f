/-
  FuseNt.Driver.Io

  The queues of a mounted module (fuseio.cc): `FuseAddIrpToModuleList` puts a
  packet on one of them, `FuseCheckForWork` pairs waiting requests with module
  packets, `FuseCopyResponse` answers a request the module was given, and
  `module_struct_delete` completes whatever is left at dismount.

  The queues are the source's: singly linked `IRP_LIST` nodes in pool memory,
  with a head and a tail pointer each in the `MODULE_STRUCT`.  A function
  returns `none` where the code would touch memory that is not allocated, and
  a loop also when it has not ended within its fuel.
-/

import FuseNt.Driver.Query
import FuseNt.Lib.Chain
import FuseNt.Proto

namespace FuseNt

open FuseNt.Lib

-- ============================================================================
-- The state the queue code works on
-- ============================================================================

/-- What happened to packets, in order: put on a queue, handed to a module in
    a module packet, given back to the I/O manager by `IoCompleteRequest`. -/
inductive Event where
  | queuedUserspace (p : Pirp)
  | queuedModule (p : Pirp)
  | delivered (userspaceIrp moduleIrp : Pirp)
  | completed (p : Pirp)
deriving DecidableEq, Repr

/-- Kernel memory as the driver sees it: packets and file names by address,
    the pool's `IRP_LIST` nodes, and the static character of `str_hash_fn`;
    and the history of the packets. -/
structure World where
  irps : Pirp → Irp
  files : Pfile → UnicodeString
  heap : Heap Pirp
  strHashC : Wchar
  log : List Event

/-- `MODULE_STRUCT`, without the mutex. -/
structure ModuleStruct where
  moduleIrpList : Option Addr
  userspaceIrpList : Option Addr
  outstandingIrpList : Option Addr
  moduleIrpListEnd : Option Addr
  userspaceIrpListEnd : Option Addr
  outstandingIrpListEnd : Option Addr
  moduleName : List Wchar
  moduleFileObject : Pfile
deriving DecidableEq, Repr

namespace World

/-- Store a packet. -/
def setIrp (w : World) (p : Pirp) (irp : Irp) : World :=
  { w with irps := fun q => if q = p then irp else w.irps q }

/-- `IoCompleteRequest`. -/
def complete (w : World) (p : Pirp) : World := { w with log := w.log ++ [.completed p] }

/-- `ExFreePool` of an `IRP_LIST` node. -/
def free (w : World) (a : Addr) : World := { w with heap := w.heap.free a }

/-- Record a step in the history. -/
def record (w : World) (e : Event) : World := { w with log := w.log ++ [e] }

end World

namespace ModuleStruct

/-- The struct as `RtlZeroMemory` leaves it, for a file object and a name. -/
def zeroed (name : List Wchar) (fileObject : Pfile) : ModuleStruct :=
  ⟨none, none, none, none, none, none, name, fileObject⟩

/-- Move the head of `UserspaceIrpList` to `next`, and drop the tail pointer
    with the last entry. -/
def popUserspace (ms : ModuleStruct) (next : Option Addr) : ModuleStruct :=
  { ms with
    userspaceIrpList := next
    userspaceIrpListEnd := if next = none then none else ms.userspaceIrpListEnd }

/-- The same for `ModuleIrpList`. -/
def popModule (ms : ModuleStruct) (next : Option Addr) : ModuleStruct :=
  { ms with
    moduleIrpList := next
    moduleIrpListEnd := if next = none then none else ms.moduleIrpListEnd }

end ModuleStruct

-- ============================================================================
-- FuseAddIrpToModuleList
-- ============================================================================

/-- Link a new node for `p`, allocated at `a`, behind the tail pointer `last`;
    the node becomes the head where there is no tail. -/
def appendNode (h : Heap Pirp) (head last : Option Addr) (p : Pirp) (a : Addr) :
    Option (Heap Pirp × Option Addr) :=
  if h a ≠ none then none
  else
    match last with
    | none => some (h.set a (some ⟨p, none⟩), some a)
    | some e => do
        -- the node is allocated, then linked, then filled in
        let h ← (h.set a (some ⟨0, none⟩)).setNext e (some a)
        some (h.set a (some ⟨p, none⟩), head)

/-- The append of `FuseAddIrpToModuleList`, as one thread runs it alone: the
    guard of `ModuleLock` is a temporary, and the mutex free again before it. -/
def appendIrp (w : World) (ms : ModuleStruct) (p : Pirp) (addToModuleList : Bool) (a : Addr) :
    Option (World × ModuleStruct) :=
  if addToModuleList then do
    let (heap, head) ← appendNode w.heap ms.moduleIrpList ms.moduleIrpListEnd p a
    some ({ w with heap := heap, log := w.log ++ [.queuedModule p] },
      { ms with moduleIrpList := head, moduleIrpListEnd := some a })
  else do
    let (heap, head) ← appendNode w.heap ms.userspaceIrpList ms.userspaceIrpListEnd p a
    some ({ w with heap := heap, log := w.log ++ [.queuedUserspace p] },
      { ms with userspaceIrpList := head, userspaceIrpListEnd := some a })

/-- The output buffer of a module packet can hold a request without trailer. -/
def moduleBufferOk (irp : Irp) (sp : IoStackLocation) : Bool :=
  decide (sizeofFusentReq + irp.stackCount.toNat * sizeofIoStackLocation ≤ sp.outputBufferLength)

/-- `FuseAddIrpToModuleList`, for the packet `p` and the node address `a` the
    pool returns. -/
def fuseAddIrpToModuleList (w : World) (ms : ModuleStruct) (p : Pirp) (addToModuleList : Bool)
    (a : Addr) : Option (World × ModuleStruct × Bool) := do
  let ok ←
    if addToModuleList then
      (w.irps p).currentStackLocation.map (moduleBufferOk (w.irps p))
    else some true
  if ok then do
    let (w, ms) ← appendIrp w ms p addToModuleList a
    some (w, ms, true)
  else some (w, ms, false)

-- ============================================================================
-- FuseCheckForWork
-- ============================================================================

/-- The name a create request carries: the first character is skipped, then
    everything up to the next backslash.  (A file object with an empty name is
    never queued, see `fuseAddUserspaceIrp`.) -/
def requestName (text : List Wchar) : List Wchar :=
  (text.drop 1).dropWhile (· ≠ backslash)

/-- `FileNameLength` of a create request, in bytes and with the terminator. -/
def requestNameLength (text : List Wchar) : Nat := ((requestName text).length + 1) * 2 % 2 ^ 32

/-- The offset behind the stack locations of a request for `irp`. -/
def reqTrailer (irp : Irp) : Nat :=
  sizeofFusentReq + irp.stackCount.toNat * sizeofIoStackLocation

/-- `ReqSize`, a `ULONG`. -/
def reqSize (files : Pfile → UnicodeString) (irp : Irp) (sp : IoStackLocation) : Nat :=
  if flagOn irp.flags irpCreateOperation then
    (reqTrailer irp + 4 + requestNameLength (files sp.fileObject).text) % 2 ^ 32
  else if flagOn irp.flags irpWriteOperation then
    (reqTrailer irp + 4 + 8 + sp.writeLength) % 2 ^ 32
  else reqTrailer irp % 2 ^ 32

/-- `ReqSize` is a `ULONG`. -/
theorem reqSize_lt (files : Pfile → UnicodeString) (irp : Irp) (sp : IoStackLocation) :
    reqSize files irp sp < 2 ^ 32 := by
  unfold reqSize
  split
  · exact Nat.mod_lt _ (by decide)
  split
  · exact Nat.mod_lt _ (by decide)
  · exact Nat.mod_lt _ (by decide)

/-- The copies that put the request for `irp` into a module's buffer.  What
    follows the stack locations depends on the major function, while the name
    is computed under the create flag: without it there is nothing to copy
    from.  The data of a write is taken from `SystemBuffer` as if there were
    always one. -/
def requestWrites (files : Pfile → UnicodeString) (p : Pirp) (irp : Irp) (sp : IoStackLocation) :
    Option (List (Nat × List UInt8)) :=
  let header :=
    [(0, leBytes 8 p.toNat), (8, leBytes 8 sp.fileObject.toNat),
      (fusentReqIrpOffset, irp.toBytes), (sizeofFusentReq, irp.stackBytes)]
  if sp.majorFunction = irpMjCreate then
    if flagOn irp.flags irpCreateOperation then
      let text := (files sp.fileObject).text
      some (header ++
        [(reqTrailer irp, leBytes 4 (requestNameLength text)),
          (reqTrailer irp + 4, wcharBytes (requestName text ++ [0]))])
    else none
  else if sp.majorFunction = irpMjWrite then
    some (header ++
      [(reqSize files irp sp, leBytes 4 sp.writeLength),
        (reqSize files irp sp + 4, irp.systemBuffer.read 0 sp.writeLength)])
  else some header

/-- Copy the request into the module packet `m`, and move its node `ue` from
    the userspace queue to the outstanding list. -/
def deliver (w : World) (ms : ModuleStruct) (ue : Addr) (uc : Cell Pirp) (usp : IoStackLocation)
    (m : Pirp) : Option (World × ModuleStruct) := do
  let ws ← requestWrites w.files uc.val (w.irps uc.val) usp
  let mIrp := w.irps m
  let w := w.setIrp m
    { mIrp with
      systemBuffer := mIrp.systemBuffer.writes ws
      ioStatus := { mIrp.ioStatus with
        information := UInt64.ofNat (reqSize w.files (w.irps uc.val) usp) } }
  let w := w.record (.delivered uc.val m)
  let ms := ms.popUserspace uc.next
  match ms.outstandingIrpListEnd with
  | some e => do
      let heap ← w.heap.setNext e (some ue)
      some ({ w with heap := heap }, { ms with outstandingIrpListEnd := some ue })
  | none =>
      some (w, { ms with outstandingIrpList := some ue, outstandingIrpListEnd := some ue })

/-- Take the head node `me` off the module queue, free it, and complete the
    module packet. -/
def finishModuleIrp (w : World) (ms : ModuleStruct) (me : Addr) (m : Pirp) :
    Option (World × ModuleStruct) := do
  let mc ← w.heap me
  some ((w.free me).complete m, ms.popModule mc.next)

/-- One round of the loop of `FuseCheckForWork`. -/
def pairHead (w : World) (ms : ModuleStruct) : Option (World × ModuleStruct) := do
  let me ← ms.moduleIrpList
  let ue ← ms.userspaceIrpList
  let mc ← w.heap me
  let uc ← w.heap ue
  if (w.irps uc.val).cancel then some (w, ms.popUserspace uc.next)
  else if (w.irps mc.val).cancel then some (w, ms.popModule mc.next)
  else
    match (w.irps uc.val).currentStackLocation with
    | none => some (w, ms.popUserspace uc.next)
    | some usp => do
        let msp ← (w.irps mc.val).currentStackLocation
        if reqSize w.files (w.irps uc.val) usp ≤ msp.outputBufferLength then do
          let (w, ms) ← deliver w ms ue uc usp mc.val
          finishModuleIrp w ms me mc.val
        else finishModuleIrp w ms me mc.val

/-- The loop of `FuseCheckForWork`, as one thread runs it alone; `found` is
    `FoundWork`. -/
def pairLoop (inFlight : Option Pirp) :
    Nat → World → ModuleStruct → Bool → Option (World × ModuleStruct × Bool)
  | 0, _, _, _ => none
  | fuel + 1, w, ms, found =>
      match ms.moduleIrpList, ms.userspaceIrpList with
      | some me, some _ => do
          let mc ← w.heap me
          let (w', ms') ← pairHead w ms
          pairLoop inFlight fuel w' ms' (found || inFlight == some mc.val)
      | _, _ => some (w, ms, found)

/-- `FuseCheckForWork`, as one thread runs it alone. -/
def fuseCheckForWork (fuel : Nat) (w : World) (ms : ModuleStruct) (inFlight : Option Pirp) :
    Option (World × ModuleStruct × Bool) :=
  if ms.moduleIrpList.isSome && ms.userspaceIrpList.isSome then pairLoop inFlight fuel w ms false
  else some (w, ms, false)

-- ============================================================================
-- FuseCopyResponse
-- ============================================================================

/-- The search of the outstanding list: `some none` if no entry matches, else
    the matching node with the one before it. -/
def findOutstanding (h : Heap Pirp) (p : Pirp) :
    Nat → Option Addr → Option Addr → Option (Option (Option Addr × Addr))
  | 0, _, _ => none
  | _ + 1, _, none => some none
  | fuel + 1, prev, some a => do
      let c ← h a
      if c.val = p then some (some (prev, a)) else findOutstanding h p fuel (some a) c.next

/-- What a successful response means for a read or a write.  The payload of a
    read is taken to start right behind `params.read.buflen`. -/
def fillReadWrite (irp : Irp) (usp : IoStackLocation) (msg : Mem) : Irp × NtStatus :=
  let buflen := msg.readLe respParamsOffset 4
  if usp.majorFunction = irpMjRead then
    if buflen ≤ usp.readLength then
      ({ irp with
        userBuffer := irp.userBuffer.write 0 (msg.read (respParamsOffset + 4) buflen)
        ioStatus := { irp.ioStatus with information := UInt64.ofNat buflen } }, statusSuccess)
    else
      ({ irp with ioStatus := { irp.ioStatus with status := statusInvalidBufferSize } },
        statusInvalidBufferSize)
  else if usp.majorFunction = irpMjWrite then
    ({ irp with ioStatus := { irp.ioStatus with information := UInt64.ofNat buflen } },
      statusSuccess)
  else (irp, statusSuccess)

/-- Fill in the userspace packet from the response message.  The payload of a
    query is taken to follow the whole header. -/
def fillResponse (fuel : Nat) (c : Wchar) (files : Pfile → UnicodeString) (irp : Irp)
    (usp : IoStackLocation) (msg : Mem) : Option (Irp × NtStatus × Wchar) :=
  let status := UInt32.ofNat (msg.readLe respStatusOffset 4)
  let buflen := msg.readLe respParamsOffset 4
  let irp := { irp with ioStatus := { irp.ioStatus with status := status } }
  let r := if ntSuccess status then fillReadWrite irp usp msg else (irp, statusSuccess)
  if usp.majorFunction = irpMjQueryInformation then
    if sizeofFusentFileInformation ≤ buflen then do
      let (irp, st) ← fuseCopyInformation files r.1 msg sizeofFusentResp
      some (irp, st, c)
    else
      some ({ r.1 with ioStatus := { r.1.ioStatus with status := statusInvalidBufferSize } },
        statusInvalidBufferSize, c)
  else if usp.majorFunction = irpMjDirectoryControl then do
    let d ← fuseCopyDirectoryControl fuel c r.1 msg sizeofFusentResp buflen
    some (d.irp, d.status, d.strHashC)
  else some (r.1, r.2, c)

/-- Unlink the node `cur`, which follows `prev`, from the outstanding list and
    free it. -/
def unlinkOutstanding (w : World) (ms : ModuleStruct) (prev : Option Addr) (cur : Addr) :
    Option (World × ModuleStruct) := do
  let (heap, ms) ←
    match prev with
    | some pe => do
        -- PreviousEntry->Next = PreviousEntry->Next->Next
        let pc ← w.heap pe
        let n ← pc.next
        let nc ← w.heap n
        let heap ← w.heap.setNext pe nc.next
        some (heap, ms)
    | none => do
        let cc ← w.heap cur
        some (w.heap, { ms with outstandingIrpList := cc.next })
  let cc ← heap cur
  let ms := if cc.next = none then { ms with outstandingIrpListEnd := prev } else ms
  some ({ w with heap := heap.free cur }, ms)

/-- The branch of `FuseCopyResponse` for a matching entry. -/
def answerOutstanding (fuel : Nat) (w : World) (ms : ModuleStruct) (prev : Option Addr)
    (cur : Addr) (p : Pirp) (msg : Mem) : Option (World × ModuleStruct × NtStatus) :=
  if (w.irps p).cancel then do
    let cc ← w.heap cur
    some (w, { ms with
      outstandingIrpList := cc.next
      outstandingIrpListEnd := if cc.next = none then none else ms.outstandingIrpListEnd },
      statusCancelled)
  else do
    let usp ← (w.irps p).currentStackLocation
    let (irp, status, c) ← fillResponse fuel w.strHashC w.files (w.irps p) usp msg
    let w := { (w.setIrp p irp).complete p with strHashC := c }
    let (w, ms) ← unlinkOutstanding w ms prev cur
    some (w, ms, status)

/-- The packet a response message names (`FuseNtResp->pirp`). -/
def respPirp (msg : Mem) : Pirp := UInt64.ofNat (msg.readLe 0 8)

/-- `FuseCopyResponse`, for the response packet `irp` of the module, as one
    thread runs it alone. -/
def fuseCopyResponse (fuel : Nat) (w : World) (ms : ModuleStruct) (irp : Irp) :
    Option (World × ModuleStruct × NtStatus) := do
  let sp ← irp.currentStackLocation
  if sizeofFusentResp ≤ sp.inputBufferLength then
    let msg := irp.systemBuffer
    if ms.outstandingIrpList = none then some (w, ms, statusInvalidDeviceRequest)
    else do
      match ← findOutstanding w.heap (respPirp msg) fuel none ms.outstandingIrpList with
      | some (prev, cur) => answerOutstanding fuel w ms prev cur (respPirp msg) msg
      | none => some (w, ms, statusInvalidDeviceRequest)
  else some (w, ms, statusInvalidBufferSize)

-- ============================================================================
-- module_struct_delete
-- ============================================================================

/-- Complete the packets of a list as cancelled and free its nodes. -/
def cancelList : Nat → World → Option Addr → Option World
  | _, w, none => some w
  | 0, _, some _ => none
  | fuel + 1, w, some a => do
      let c ← w.heap a
      let irp := w.irps c.val
      let w := w.setIrp c.val
        { irp with ioStatus := { irp.ioStatus with status := statusCancelled } }
      cancelList fuel ((w.complete c.val).free a) c.next

/-- `module_struct_delete` (the freeing of the struct itself apart). -/
def moduleStructDelete (fuel : Nat) (w : World) (ms : ModuleStruct) : Option World := do
  let w ← cancelList fuel w ms.moduleIrpList
  let w ← cancelList fuel w ms.userspaceIrpList
  cancelList fuel w ms.outstandingIrpList

-- ============================================================================
-- Sample packets
-- ============================================================================

/-- Kernel memory in which nothing is allocated and nothing has happened. -/
def emptyWorld : World where
  irps := fun _ => Irp.zeroed
  files := fun _ => UnicodeString.empty
  heap := Heap.empty
  strHashC := 0
  log := []

/-- A request to read 16 bytes. -/
def sampleRead : Irp :=
  Irp.zeroed.withStackLocation
    { (default : IoStackLocation) with majorFunction := irpMjRead, arg0 := 16 }

/-- A module packet with a buffer of 4096 bytes, and room for a response of 64. -/
def sampleModule : Irp :=
  Irp.zeroed.withStackLocation
    { (default : IoStackLocation) with
      majorFunction := irpMjFileSystemControl, arg0 := 4096, arg1 := 64 }

end FuseNt
