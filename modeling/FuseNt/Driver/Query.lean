/-
  FuseNt.Driver.Query

  fusequery.cc: how the driver turns the payload of a module's response into
  what the application asked for.  `FuseCopyInformation` fills the system
  buffer of a query-information packet from a `FUSENT_FILE_INFORMATION`;
  `FuseCopyDirectoryControl` re-encodes a chain of
  `FILE_DIRECTORY_INFORMATION` records in the information class of the
  request.

  Both read the module's message, a buffer `msg`, from an offset on.  Lengths
  are computed as the source computes them: `ULONG` arithmetic is reduced
  modulo `2 ^ 32`, comparisons of a `LONG` see the signed value (`toLong`).
-/

import FuseNt.Driver.StrHash

namespace FuseNt

open FuseNt.Lib

/-- Conversion to `LONG`: the low 32 bits as a signed number. -/
def toLong (n : Int) : Int := n.bmod (2 ^ 32)

theorem toLong_eq {n : Int} (h : -(2 ^ 31) ≤ n ∧ n < 2 ^ 31) : toLong n = n := by
  unfold toLong
  rw [Int.bmod_eq_of_le] <;> omega

-- ============================================================================
-- FuseCopyInformation
-- ============================================================================

def fileBasicInformation : Nat := 4
def fileStandardInformation : Nat := 5
def fileNameInformation : Nat := 9
def fileAllInformation : Nat := 18

/-- `sizeof(FUSENT_FILE_INFORMATION)`. -/
def sizeofFusentFileInformation : Nat := 64

/-- The buffer being filled, and what is left of its length. -/
structure QueryFill where
  buffer : Mem
  length : Int

/-- `FuseQueryBasicInfo`: a `FILE_BASIC_INFORMATION` at `dst` from the module's
    `FUSENT_FILE_INFORMATION` at `src`. -/
def fuseQueryBasicInfo (msg : Mem) (src dst : Nat) (q : QueryFill) : QueryFill :=
  if q.length < 40 then q
  else
    { buffer := (q.buffer.zero dst 40).writes
        [(dst + 32, msg.read (src + 32) 4), (dst + 24, msg.read (src + 24) 8),
          (dst + 0, msg.read (src + 0) 8), (dst + 8, msg.read (src + 8) 8),
          (dst + 16, msg.read (src + 16) 8)]
      length := q.length - 40 }

/-- `FuseQueryStandardInfo`. -/
def fuseQueryStandardInfo (msg : Mem) (src dst : Nat) (q : QueryFill) : QueryFill :=
  if q.length < 24 then q
  else
    { buffer := (q.buffer.zero dst 24).writes
        [(dst + 0, msg.read (src + 40) 8), (dst + 8, msg.read (src + 48) 8),
          (dst + 20, msg.read (src + 60) 1), (dst + 21, msg.read (src + 61) 1),
          (dst + 16, msg.read (src + 56) 4)]
      length := q.length - 24 }

/-- `FuseQueryNameInfo`.  `FileName.Length` counts bytes, and the source
    multiplies it by `sizeof(WCHAR)` once more. -/
def fuseQueryNameInfo (name : UnicodeString) (dst : Nat) (q : QueryFill) : QueryFill :=
  let fileNameLength := 2 * name.length
  let informationLength := toLong (8 + fileNameLength : Nat)
  if q.length < informationLength then q
  else
    { buffer := (q.buffer.zero dst (8 + fileNameLength)).writes
        [(dst + 4, name.bytes 0 name.length), (dst + 0, leBytes 4 fileNameLength)]
      length := q.length - informationLength }

/-- `FuseCopyInformation`.  The three fillers write into the parts of one
    `FILE_ALL_INFORMATION` at the start of the system buffer, whichever class
    was asked for. -/
def fuseCopyInformation (files : Pfile → UnicodeString) (irp : Irp) (msg : Mem) (src : Nat) :
    Option (Irp × NtStatus) := do
  let sp ← irp.currentStackLocation
  let name := files sp.fileObject
  let q : QueryFill := ⟨irp.systemBuffer, toLong sp.queryFileLength⟩
  let (q, status) :=
    if sp.queryFileClass = fileAllInformation then
      (fuseQueryNameInfo name 96 (fuseQueryStandardInfo msg src 40 (fuseQueryBasicInfo msg src 0 q)),
        statusSuccess)
    else if sp.queryFileClass = fileBasicInformation then
      (fuseQueryBasicInfo msg src 0 q, statusSuccess)
    else if sp.queryFileClass = fileStandardInformation then
      (fuseQueryStandardInfo msg src 40 q, statusSuccess)
    else if sp.queryFileClass = fileNameInformation then
      (fuseQueryNameInfo name 96 q, statusSuccess)
    else (q, statusInvalidParameter)
  let status := if q.length < 0 then statusBufferOverflow else status
  let length := if q.length < 0 then 0 else q.length
  let information := ((sp.queryFileLength : Int) - length) % (2 ^ 32 : Nat)
  some ({ irp with
    systemBuffer := q.buffer
    ioStatus := { irp.ioStatus with information := UInt64.ofNat information.toNat } }, status)

-- ============================================================================
-- FuseCopyDirectoryControl
-- ============================================================================

/-- The directory information classes that share one loop. -/
inductive DirClass where
  | directory
  | fullDirectory
  | idFullDirectory
  | bothDirectory
  | idBothDirectory
deriving DecidableEq, Repr

namespace DirClass

/-- The size of the record structure of a class. -/
def sizeof : DirClass → Nat
  | directory => 72
  | fullDirectory => 72
  | idFullDirectory => 88
  | bothDirectory => 96
  | idBothDirectory => 112

/-- The offset of `FileName` in the record structure. -/
def nameOffset : DirClass → Nat
  | directory => 64
  | fullDirectory => 68
  | idFullDirectory => 80
  | bothDirectory => 94
  | idBothDirectory => 104

/-- Whether the record has a `ShortName`, at offset 70 with its length at 68. -/
def hasShortName : DirClass → Bool
  | bothDirectory => true
  | idBothDirectory => true
  | _ => false

end DirClass

/-- What the `switch` of `FuseCopyDirectoryControl` distinguishes. -/
inductive DirQuery where
  | records (cls : DirClass)
  | names
deriving DecidableEq, Repr

/-- The information class codes of the `switch`. -/
def DirQuery.ofCode (code : Nat) : Option DirQuery :=
  if code = 1 then some (.records .directory)
  else if code = 2 then some (.records .fullDirectory)
  else if code = 38 then some (.records .idFullDirectory)
  else if code = 3 then some (.records .bothDirectory)
  else if code = 37 then some (.records .idBothDirectory)
  else if code = 12 then some .names
  else none

/-- `sizeof(FILE_DIRECTORY_INFORMATION)`. -/
def sizeofFileDirectoryInformation : Nat := 72

/-- `sizeof(FILE_NAMES_INFORMATION)`. -/
def sizeofFileNamesInformation : Nat := 16

/-- `NextEntryOffset` of the `FILE_DIRECTORY_INFORMATION` at `off`. -/
def nextEntryOffset (m : Mem) (off : Nat) : Nat := m.readLe off 4

/-- `FileNameLength` of the `FILE_DIRECTORY_INFORMATION` at `off`. -/
def fileNameLength (m : Mem) (off : Nat) : Nat := m.readLe (off + 60) 4

/-- The offset of `FileName` in a `FILE_DIRECTORY_INFORMATION`. -/
def dirFileNameOffset : Nat := 64

/-- The variables of the copy loops: `Length`, `ModuleDirInformationLength`,
    the offsets of `ModuleDirInformation` and of `DirInfo` (or `NamesInfo`),
    the application's buffer, the last record written, and the static
    character of `str_hash_fn`.  `placed` lists the records copied so far, each
    with its offset in the output and in the message. -/
structure DirCopy where
  length : Int
  remaining : Nat
  src : Nat
  dst : Nat
  buffer : Mem
  last : Option Nat
  strHashC : Wchar
  placed : List (Nat × Nat)

/-- The conditions of both loops that concern the module's listing, together
    with the one on the room that is left (`needed`). -/
def dirGuard (msg : Mem) (needed : Nat → Nat) (s : DirCopy) : Bool :=
  decide (sizeofFileDirectoryInformation ≤ s.remaining) &&
  decide (nextEntryOffset msg s.src ≤ s.remaining) &&
  decide (sizeofFileDirectoryInformation + fileNameLength msg s.src - 2 ≤ s.remaining) &&
  decide (toLong (needed (fileNameLength msg s.src)) ≤ s.length)

/-- The room the loop condition asks for before a record with a name of `f` bytes. -/
def dirNeeded (f : Nat) : Nat := sizeofFileDirectoryInformation + f - 2 + 8

/-- `n += sizeof(LONGLONG) - n % sizeof(LONGLONG)` on a `ULONG`. -/
def alignLonglong (n : Nat) : Nat := (n + (8 - n % 8)) % 2 ^ 32

/-- `DirInformationLength` for a name of `f` bytes. -/
def dirInformationLength (cls : DirClass) (f : Nat) : Nat :=
  alignLonglong ((cls.sizeof + f - 4) % 2 ^ 32)

/-- The branch that copies one record. -/
def placeDirEntry (cls : DirClass) (msg : Mem) (s : DirCopy) : DirCopy :=
  let f := fileNameLength msg s.src
  let dil := dirInformationLength cls f
  let name := msg.read (s.src + dirFileNameOffset) f
  let header := msg.read s.src (sizeofFileDirectoryInformation - 8 - 2)
  let shortName := msg.read (s.src + dirFileNameOffset) (min f 24)
  let buffer := ((s.buffer.zero s.dst dil).write s.dst header).write (s.dst + cls.nameOffset) name
  { s with
    length := toLong (s.length - dil)
    -- the loop condition keeps this from wrapping
    remaining := s.remaining - (sizeofFileDirectoryInformation + f - 2)
    src := s.src + nextEntryOffset msg s.src
    dst := s.dst + dil
    buffer :=
      if cls.hasShortName then
        (buffer.write (s.dst + 70) shortName).writeLe (s.dst + 68) 1 (min f 24)
      else buffer
    last := some s.dst
    placed := s.placed ++ [(s.dst, s.src)] }

/-- The loop over the records of a directory class. -/
def copyDirEntries (cls : DirClass) (msg : Mem) : Nat → DirCopy → Option DirCopy
  | 0, _ => none
  | fuel + 1, s =>
      if dirGuard msg dirNeeded s then
        if toLong (dirInformationLength cls (fileNameLength msg s.src)) ≤ s.length then
          copyDirEntries cls msg fuel (placeDirEntry cls msg s)
        else
          some { s with buffer := (s.buffer.writeLe s.dst 4 0).writeLe (s.dst + 60) 4 0 }
      else some s

/-- The room the loop condition asks for before a names record. -/
def namesNeeded (f : Nat) : Nat := sizeofFileNamesInformation + f - 2

/-- `NamesInformationLength` for a name of `f` bytes. -/
def namesInformationLength (f : Nat) : Nat :=
  alignLonglong ((sizeofFileNamesInformation + f - 2) % 2 ^ 32)

/-- The body of the names loop. -/
def placeNamesEntry (fuel : Nat) (msg : Mem) (s : DirCopy) : Option DirCopy := do
  let f := fileNameLength msg s.src
  let nil := namesInformationLength f
  let chars : Nat → Wchar := fun i =>
    UInt16.ofNat (msg.readLe (s.src + dirFileNameOffset + 2 * i) 2)
  let (hash, c) ← strHashFn fuel s.strHashC chars
  some { s with
    length := toLong (s.length - nil)
    remaining := s.remaining - nextEntryOffset msg s.src
    src := s.src + nextEntryOffset msg s.src
    dst := s.dst + nil
    buffer := (((s.buffer.write (s.dst + 12) (msg.read (s.src + dirFileNameOffset) f)).writeLe
      (s.dst + 8) 4 f).writeLe (s.dst + 4) 4 hash.toNat).writeLe s.dst 4 nil
    last := some s.dst
    strHashC := c
    placed := s.placed ++ [(s.dst, s.src)] }

/-- The loop over the records of `FileNamesInformation`. -/
def copyNamesEntries (msg : Mem) : Nat → DirCopy → Option DirCopy
  | 0, _ => none
  | fuel + 1, s =>
      if dirGuard msg namesNeeded s then
        (placeNamesEntry fuel msg s).bind (copyNamesEntries msg fuel)
      else some s

/-- The result of `FuseCopyDirectoryControl`. -/
structure DirReply where
  irp : Irp
  status : NtStatus
  strHashC : Wchar
  placed : List (Nat × Nat)

/-- `LastDirInfo->NextEntryOffset = 0`, when there is a last record. -/
def endChain (s : DirCopy) : Mem :=
  match s.last with
  | none => s.buffer
  | some off => s.buffer.writeLe off 4 0

/-- `FuseCopyDirectoryControl`, on the listing of `len` bytes at offset `src`
    of the message; `none` if a loop has not ended within `fuel` rounds. -/
def fuseCopyDirectoryControl (fuel : Nat) (c : Wchar) (irp : Irp) (msg : Mem) (src len : Nat) :
    Option DirReply := do
  let sp ← irp.currentStackLocation
  let length := toLong sp.queryDirectoryLength
  let s : DirCopy :=
    { length := length
      remaining := len
      src := src
      dst := 0
      -- RtlZeroMemory takes the LONG as a SIZE_T
      buffer := irp.userBuffer.zero 0 (length % (2 ^ 64 : Nat)).toNat
      last := none
      strHashC := c
      placed := [] }
  match DirQuery.ofCode sp.queryDirectoryClass with
  | some (.records cls) =>
      let s ← copyDirEntries cls msg fuel s
      some ⟨{ irp with userBuffer := endChain s }, statusSuccess, s.strHashC, s.placed⟩
  | some .names =>
      let s ← copyNamesEntries msg fuel s
      some ⟨{ irp with userBuffer := endChain s }, statusSuccess, s.strHashC, s.placed⟩
  | none => some ⟨{ irp with userBuffer := s.buffer }, statusInvalidInfoClass, c, []⟩

end FuseNt
