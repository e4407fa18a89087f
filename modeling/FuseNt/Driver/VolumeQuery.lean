/-
  FuseNt.Driver.VolumeQuery

  fusequery.cc: `FuseCopyVolumeInformation`, which answers volume queries
  without the module.

  Each filler checks the remaining length against the size of its structure.
  For `FileFsVolumeInformation` that size includes the module's name; for
  `FileFsAttributeInformation` it does not, though the name is copied there
  too, with a terminator behind it.
-/

import FuseNt.Driver.Names
import FuseNt.Driver.QueryResult

namespace FuseNt

open FuseNt.Lib

namespace IoStackLocation

/-- `Parameters.QueryVolume.Length`. -/
def queryVolumeLength (sp : IoStackLocation) : Nat := ulong sp.arg0

/-- `Parameters.QueryVolume.FsInformationClass`. -/
def queryVolumeClass (sp : IoStackLocation) : Nat := ulong sp.arg1

end IoStackLocation

-- ============================================================================
-- The fillers
-- ============================================================================

def fileFsVolumeInformation : Nat := 1
def fileFsSizeInformation : Nat := 3
def fileFsDeviceInformation : Nat := 4
def fileFsAttributeInformation : Nat := 5
def fileFsFullSizeInformation : Nat := 7

/-- `FuseCopyModuleName` to the offset `dst`: the characters and a terminator
    behind them; returns `*Length` too. -/
def fuseCopyModuleName (fuel : Nat) (name : ObjectName) (m : Mem) (dst : Nat) :
    Option (Mem × Nat) := do
  let (start, length) ← fuseExtractModuleName fuel name
  some (m.write dst (name.bytes start length ++ [0, 0]), length)

/-- The fields of a `FILE_FS_VOLUME_INFORMATION` besides the label, in the order
    in which they are stored. -/
def volumeFields (volumeLabelLength time : Nat) : List (Nat × List UInt8) :=
  [(12, leBytes 4 (2 * volumeLabelLength)), (8, leBytes 4 0x1337), (0, leBytes 8 time), (16, [0])]

/-- `FuseQueryFsVolumeInfo`, once it has the length of the label. -/
def fillVolumeInfo (fuel : Nat) (name : ObjectName) (time : Nat) (q : QueryFill)
    (volumeLabelLength : Nat) : Option (QueryFill × NtStatus) :=
  let informationLength := 24 + 2 * volumeLabelLength
  if q.length < toLong informationLength then some (q, statusBufferOverflow)
  else do
    let (buffer, volumeLabelLength) ←
      fuseCopyModuleName fuel name (q.buffer.zero 0 informationLength) 18
    some (⟨buffer.writes (volumeFields volumeLabelLength time), q.length - toLong informationLength⟩,
      statusSuccess)

/-- `FuseQueryFsVolumeInfo`; `time` is what `KeQuerySystemTime` returns. -/
def fuseQueryFsVolumeInfo (fuel : Nat) (name : ObjectName) (time : Nat) (q : QueryFill) :
    Option (QueryFill × NtStatus) := do
  let extracted ← fuseExtractModuleName fuel name
  fillVolumeInfo fuel name time q extracted.2

/-- `FuseQueryFsAttributeInfo`. -/
def fuseQueryFsAttributeInfo (fuel : Nat) (name : ObjectName) (q : QueryFill) :
    Option (QueryFill × NtStatus) :=
  if q.length < 16 then some (q, statusBufferOverflow)
  else do
    let (buffer, moduleNameLength) ←
      fuseCopyModuleName fuel name ((q.buffer.zero 0 16).write 0 (leBytes 4 6)) 12
    some ({ buffer := buffer.writes [(8, leBytes 4 moduleNameLength), (4, leBytes 4 (256 * 2))]
            length := q.length - 16 }, statusSuccess)

/-- A structure of a fixed size, zeroed and filled with fields. -/
def fixedVolumeInfo (size : Nat) (fields : List (Nat × List UInt8)) (q : QueryFill) :
    QueryFill × NtStatus :=
  if q.length < size then (q, statusBufferOverflow)
  else (⟨(q.buffer.zero 0 size).writes fields, q.length - size⟩, statusSuccess)

/-- `FuseQueryFsSizeInfo`. -/
def fuseQueryFsSizeInfo : QueryFill → QueryFill × NtStatus :=
  fixedVolumeInfo 24
    [(20, leBytes 4 4096), (16, leBytes 4 4096), (8, leBytes 4 4096), (0, leBytes 4 4096)]

/-- `FuseQueryFsDeviceInfo`. -/
def fuseQueryFsDeviceInfo : QueryFill → QueryFill × NtStatus :=
  fixedVolumeInfo 8 [(0, leBytes 4 9), (4, leBytes 4 0)]

/-- `FuseQueryFsFullSizeInfo`. -/
def fuseQueryFsFullSizeInfo : QueryFill → QueryFill × NtStatus :=
  fixedVolumeInfo 32
    [(28, leBytes 4 4098), (24, leBytes 4 4098), (8, leBytes 4 4098), (16, leBytes 4 4098),
      (0, leBytes 4 4098)]

/-- The `switch` of `FuseCopyVolumeInformation`. -/
def fillVolume (fuel : Nat) (name : ObjectName) (time cls : Nat) (q : QueryFill) :
    Option (QueryFill × NtStatus) :=
  if cls = fileFsVolumeInformation then fuseQueryFsVolumeInfo fuel name time q
  else if cls = fileFsAttributeInformation then fuseQueryFsAttributeInfo fuel name q
  else if cls = fileFsSizeInformation then some (fuseQueryFsSizeInfo q)
  else if cls = fileFsDeviceInformation then some (fuseQueryFsDeviceInfo q)
  else if cls = fileFsFullSizeInformation then some (fuseQueryFsFullSizeInfo q)
  else some (q, statusInvalidParameter)

/-- The packet with the filled buffer; the difference is one of `ULONG`s. -/
def volumeIrp (irp : Irp) (length : Nat) (q : QueryFill) : Irp :=
  { irp with
    systemBuffer := q.buffer
    ioStatus := { irp.ioStatus with
      information := UInt64.ofNat (((length : Int) - q.length) % (2 ^ 32 : Nat)).toNat } }

/-- `FuseCopyVolumeInformation` for the packet `p`; `files` are the names of the
    file objects, which may be any. -/
def fuseCopyVolumeInformation (fuel : Nat) (files : Pfile → ObjectName) (w : World) (p : Pirp)
    (time : Nat) : Option (World × NtStatus) := do
  let irp := w.irps p
  let sp ← irp.currentStackLocation
  let filled ← fillVolume fuel (files sp.fileObject) time sp.queryVolumeClass
    ⟨irp.systemBuffer, toLong sp.queryVolumeLength⟩
  some ((w.setIrp p (volumeIrp irp sp.queryVolumeLength filled.1)).complete p, filled.2)

-- ============================================================================
-- The property and the condition
-- ============================================================================

/-- What a volume query does to the packet: the buffer changes below `Length`
    only, `Information` is at most `Length` and covers what has changed, and a
    query that reports an overflow changes nothing. -/
structure VolumeOk (length : Nat) (irp irp' : Irp) (status : NtStatus) : Prop where
  inside : ∀ i, length ≤ i → irp'.systemBuffer i = irp.systemBuffer i
  information : irp'.ioStatus.information.toNat ≤ length
  covered : ∀ i, irp'.ioStatus.information.toNat ≤ i → irp'.systemBuffer i = irp.systemBuffer i
  overflow : status = statusBufferOverflow → irp'.systemBuffer = irp.systemBuffer

/-- `FuseCopyVolumeInformation` returns and does this, for every packet with
    the stack location `sp` on a file of this name. -/
def VolumeResult (sp : IoStackLocation) (name : ObjectName) : Prop :=
  ∃ rounds, ∀ fuel, rounds ≤ fuel → ∀ files w p time, (w.irps p).currentStackLocation = some sp →
    files sp.fileObject = name →
    ∃ w' status, fuseCopyVolumeInformation fuel files w p time = some (w', status) ∧
      VolumeOk sp.queryVolumeLength (w.irps p) (w'.irps p) status

/-- The search for the end of the module's name ends. -/
def SearchEnds (name : ObjectName) : Prop := name.count = 0 ∨ ∃ j, name.StopsAt j

/-- The name is empty; or the search finds a backslash behind at most one
    character; or the name is a backslash only, and the search ends at a NUL. -/
def ShortModuleName (name : ObjectName) : Prop :=
  name.count = 0 ∨ ∃ j, name.StopsAt j ∧
    (name.buffer j = backslash ∧ j ≤ name.start + 1 ∨
      name.buffer j ≠ backslash ∧ name.count = 1 ∧ name.start = 1)

-- ============================================================================
-- What the fillers do
-- ============================================================================

/-- A filler has left the buffer alone and reports an overflow (or that it does
    not know the class), or it has used the first `n` bytes of what was left. -/
inductive Filled (q : QueryFill) : QueryFill → NtStatus → Prop
  | skipped (status : NtStatus) : Filled q q status
  | used (n : Nat) (m : Mem) (room : (n : Int) ≤ q.length) (behind : ∀ i, n ≤ i → m i = q.buffer i) :
      Filled q ⟨m, q.length - n⟩ statusSuccess

section Fillers

variable {q q' : QueryFill} {name : ObjectName} {fuel time cls start len : Nat} {status : NtStatus}

theorem length_bytes (name : ObjectName) (i n : Nat) : (name.bytes i n).length = 2 * n := by
  unfold ObjectName.bytes
  rw [List.length_flatten, List.map_map]
  simp [Function.comp_def, Nat.mul_comm]

/-- The name of the module is taken to be `len` characters from `start` on. -/
def Extracted (name : ObjectName) (start len : Nat) : Prop :=
  ∃ rounds, ∀ fuel, rounds ≤ fuel → fuseExtractModuleName fuel name = some (start, len)

theorem extracted_of_stops {j : Nat} (hpos : 0 < name.count) (h : name.StopsAt j) :
    Extracted name name.start (name.reported j) :=
  ⟨j + 1, fun _ hfuel => fuseExtractModuleName_of_stops hpos h hfuel⟩

/-- The lengths of names are small. -/
theorem reported_lt {j : Nat} (hpos : 0 < name.count) (h : name.StopsAt j) :
    name.reported j + 16 < 2 ^ 30 := by
  have hlen := name.length_lt
  have hj : j + 16 < 2 ^ 30 := by
    rcases name.near hpos with ⟨k, hk, hlt, hstop⟩ | hnone
    · by_contra hge
      exact h.first k (ObjectName.start_le.trans hk) (by omega) hstop
    · rcases Nat.eq_zero_or_pos j with rfl | hj
      · omega
      · exact absurd h.stop (hnone j hj)
  unfold ObjectName.reported ObjectName.length
  split <;> omega

theorem fuseCopyModuleName_eq (hextract : fuseExtractModuleName fuel name = some (start, len))
    (m : Mem) (dst : Nat) :
    fuseCopyModuleName fuel name m dst =
      some (m.write dst (name.bytes start len ++ [0, 0]), len) := by
  rw [fuseCopyModuleName, hextract]
  rfl

theorem fixedVolumeInfo_filled {size : Nat} {fields : List (Nat × List UInt8)}
    (hfields : ∀ f ∈ fields, f.1 + f.2.length ≤ size) :
    Filled q (fixedVolumeInfo size fields q).1 (fixedVolumeInfo size fields q).2 := by
  unfold fixedVolumeInfo
  split
  case isTrue => exact .skipped _
  case isFalse hroom =>
      refine .used size _ (by omega) fun i hi => ?_
      rw [Mem.writes_of_not_mem _ _ _ fun f hf => Or.inr ((hfields f hf).trans hi),
        Mem.zero_of_not_mem _ _ _ _ (by omega)]

theorem fuseQueryFsVolumeInfo_filled
    (hextract : fuseExtractModuleName fuel name = some (start, len)) (hlt : len + 16 < 2 ^ 30) :
    ∃ q' status, fuseQueryFsVolumeInfo fuel name time q = some (q', status) ∧
      Filled q q' status := by
  have hlong : toLong ((24 + 2 * len : Nat) : Int) = (24 + 2 * len : Nat) := toLong_eq (by omega)
  rw [fuseQueryFsVolumeInfo, hextract, Option.bind_eq_bind, Option.bind_some, fillVolumeInfo]
  simp only [fuseCopyModuleName_eq hextract, Option.bind_eq_bind, Option.bind_some, hlong]
  split
  case isTrue => exact ⟨_, _, rfl, .skipped _⟩
  case isFalse hroom =>
      refine ⟨_, _, rfl, .used _ _ (by omega) fun i hi => ?_⟩
      rw [Mem.writes_of_not_mem _ _ _ (by simp [volumeFields]; omega),
        Mem.write_of_not_mem _ _ _ _ ?_, Mem.zero_of_not_mem _ _ _ _ (by omega)]
      rw [List.length_append, length_bytes]
      exact Or.inr (by simp; omega)

/-- What `FuseQueryFsAttributeInfo` writes. -/
def putAttribute (name : ObjectName) (start len : Nat) (m : Mem) : Mem :=
  Mem.writes (((m.zero 0 16).write 0 (leBytes 4 6)).write 12 (name.bytes start len ++ [0, 0]))
    [(8, leBytes 4 len), (4, leBytes 4 (256 * 2))]

theorem fuseQueryFsAttributeInfo_eq
    (hextract : fuseExtractModuleName fuel name = some (start, len)) (hroom : 16 ≤ q.length) :
    fuseQueryFsAttributeInfo fuel name q =
      some (⟨putAttribute name start len q.buffer, q.length - 16⟩, statusSuccess) := by
  rw [fuseQueryFsAttributeInfo, if_neg (by omega)]
  simp only [fuseCopyModuleName_eq hextract, Option.bind_eq_bind, Option.bind_some]
  rfl

theorem putAttribute_behind (hname : len ≤ 1) (m : Mem) {i : Nat} (hi : 16 ≤ i) :
    putAttribute name start len m i = m i := by
  have hend : 12 + (name.bytes start len ++ [0, 0]).length ≤ i := by
    rw [List.length_append, length_bytes]
    simp only [List.length_cons, List.length_nil]
    omega
  rw [putAttribute, Mem.writes_of_not_mem _ _ _ (by simp; omega),
    Mem.write_of_not_mem _ _ _ _ (Or.inr hend), Mem.write_of_not_mem _ _ _ _ (by simp; omega),
    Mem.zero_of_not_mem _ _ _ _ (by omega)]

/-- A name of two characters or more goes on behind the structure. -/
theorem putAttribute_spills (name : ObjectName) (start : Nat) (hname : 2 ≤ len) :
    ∃ x, ∀ m, putAttribute name start len m 16 = x := by
  have hlt : 4 < (name.bytes start len ++ [0, 0]).length := by
    rw [List.length_append, length_bytes]
    simp only [List.length_cons, List.length_nil]
    omega
  refine ⟨(name.bytes start len ++ [0, 0])[4], fun m => ?_⟩
  rw [putAttribute, Mem.writes_of_not_mem _ _ _ (by simp),
    show 16 = 12 + 4 from rfl, Mem.write_of_mem _ _ _ _ hlt]

/-- A filler that does not look at the name. -/
theorem fillVolume_fixed (hvolume : cls ≠ fileFsVolumeInformation)
    (hattribute : cls = fileFsAttributeInformation → q.length < 16) :
    ∃ q' status, fillVolume fuel name time cls q = some (q', status) ∧ Filled q q' status := by
  rw [fillVolume, if_neg hvolume]
  split
  case isTrue hcls =>
      rw [fuseQueryFsAttributeInfo, if_pos (hattribute hcls)]
      exact ⟨_, _, rfl, .skipped _⟩
  split
  · exact ⟨_, _, rfl, fixedVolumeInfo_filled (by simp)⟩
  split
  · exact ⟨_, _, rfl, fixedVolumeInfo_filled (by simp)⟩
  split
  · exact ⟨_, _, rfl, fixedVolumeInfo_filled (by simp)⟩
  · exact ⟨_, _, rfl, .skipped _⟩

/-- The fillers, unless an attribute query spills a name. -/
theorem fillVolume_filled (hextract : fuseExtractModuleName fuel name = some (start, len))
    (hlt : len + 16 < 2 ^ 30)
    (hok : cls = fileFsAttributeInformation → 16 ≤ q.length → len ≤ 1) :
    ∃ q' status, fillVolume fuel name time cls q = some (q', status) ∧ Filled q q' status := by
  by_cases hvolume : cls = fileFsVolumeInformation
  · rw [fillVolume, if_pos hvolume]
    exact fuseQueryFsVolumeInfo_filled hextract hlt
  by_cases hattribute : cls = fileFsAttributeInformation ∧ 16 ≤ q.length
  · obtain ⟨hcls, hroom⟩ := hattribute
    rw [fillVolume, if_neg hvolume, if_pos hcls, fuseQueryFsAttributeInfo_eq hextract hroom]
    exact ⟨_, _, rfl, .used 16 _ hroom fun i hi => putAttribute_behind (hok hcls hroom) _ hi⟩
  · exact fillVolume_fixed hvolume fun hcls => Int.lt_of_not_ge fun hroom => hattribute ⟨hcls, hroom⟩

/-- A filler that looks at a name without an end does not return. -/
theorem fillVolume_runs {m : Mem} {length : Int}
    (hruns : fuseExtractModuleName fuel name = none)
    (hlooks : cls = fileFsVolumeInformation ∨ cls = fileFsAttributeInformation ∧ 16 ≤ length) :
    fillVolume fuel name time cls ⟨m, length⟩ = none := by
  rcases hlooks with rfl | ⟨rfl, hroom⟩
  · rw [fillVolume, if_pos rfl, fuseQueryFsVolumeInfo, hruns]
    rfl
  · rw [fillVolume, if_neg (by decide), if_pos rfl, fuseQueryFsAttributeInfo,
      if_neg (not_lt.mpr hroom), fuseCopyModuleName, hruns]
    rfl

end Fillers

-- ============================================================================
-- The packet
-- ============================================================================

section Packet

variable {irp : Irp} {q : QueryFill} {status : NtStatus} {w : World} {p : Pirp}
  {sp : IoStackLocation} {fuel time n : Nat} {name : ObjectName} {files : Pfile → ObjectName}

theorem volumeIrp_information :
    (volumeIrp irp n q).ioStatus.information.toNat = (((n : Int) - q.length) % (2 ^ 32 : Nat)).toNat := by
  refine UInt64.toNat_ofNat_of_lt' ?_
  rw [UInt64.size]
  omega

/-- A `ULONG` as a `LONG`. -/
theorem toLong_cases (hn : n < 2 ^ 32) :
    toLong n = n ∧ n < 2 ^ 31 ∨ toLong n = n - 2 ^ 32 ∧ 2 ^ 31 ≤ n ∧ n < 2 ^ 32 := by
  by_cases hpos : n < 2 ^ 31
  · exact Or.inl ⟨toLong_eq (by omega), hpos⟩
  · exact Or.inr ⟨toLong_of_ge (Nat.le_of_not_lt hpos) hn, Nat.le_of_not_lt hpos, hn⟩

/-- A filler that has used what it was allowed to. -/
theorem Filled.volumeOk {length : Int}
    (hlength : length = n ∧ n < 2 ^ 31 ∨ length = n - 2 ^ 32 ∧ 2 ^ 31 ≤ n ∧ n < 2 ^ 32)
    (h : Filled ⟨irp.systemBuffer, length⟩ q status) :
    VolumeOk n irp (volumeIrp irp n q) status := by
  cases h with
  | skipped =>
      have hinfo : (volumeIrp irp n ⟨irp.systemBuffer, length⟩).ioStatus.information.toNat = 0 := by
        rw [volumeIrp_information]
        dsimp only
        omega
      exact ⟨fun _ _ => rfl, hinfo ▸ Nat.zero_le n, fun _ _ => rfl, fun _ => rfl⟩
  | used k m hroom hbehind =>
      dsimp only at hroom hbehind ⊢
      have hinfo : (volumeIrp irp n ⟨m, length - k⟩).ioStatus.information.toNat = k := by
        rw [volumeIrp_information]
        dsimp only
        omega
      refine ⟨fun i hi => hbehind i (by omega), by omega, fun i hi => hbehind i (by omega), ?_⟩
      exact fun h => absurd h (by decide)

theorem fuseCopyVolumeInformation_eq (hsp : (w.irps p).currentStackLocation = some sp)
    {filled : QueryFill × NtStatus}
    (hfill : fillVolume fuel (files sp.fileObject) time sp.queryVolumeClass
      ⟨(w.irps p).systemBuffer, toLong sp.queryVolumeLength⟩ = some filled) :
    fuseCopyVolumeInformation fuel files w p time =
      some ((w.setIrp p (volumeIrp (w.irps p) sp.queryVolumeLength filled.1)).complete p,
        filled.2) := by
  rw [fuseCopyVolumeInformation, hsp, Option.bind_eq_bind, Option.bind_some, hfill,
    Option.bind_eq_bind, Option.bind_some]

/-- A name is short if at most one character is taken for the module's name. -/
theorem reported_le_one_iff {j : Nat} (hpos : 0 < name.count) (h : name.StopsAt j) :
    name.reported j ≤ 1 ↔ ShortModuleName name := by
  have hone := name.start_le
  unfold ShortModuleName
  constructor
  · intro hle
    refine .inr ⟨j, h, ?_⟩
    rw [ObjectName.reported, ObjectName.length] at hle
    by_cases hb : name.buffer j = backslash
    · rw [if_pos hb] at hle
      exact .inl ⟨hb, by omega⟩
    · rw [if_neg hb] at hle
      exact .inr ⟨hb, by omega⟩
  · rintro (hnone | ⟨k, hk, hshort⟩)
    · omega
    · rw [h.unique hk, ObjectName.reported, ObjectName.length]
      rcases hshort with ⟨hb, hle⟩ | ⟨hb, hcount, hstart⟩
      · rw [if_pos hb]
        omega
      · rw [if_neg hb]
        omega

/-- A packet with the stack location `sp` whose system buffer is filled with one
    byte. -/
def sampleVolumeWorld (sp : IoStackLocation) (x : UInt8) : World :=
  { emptyWorld with
    irps := fun _ => { Irp.zeroed.withStackLocation sp with systemBuffer := fun _ => x } }

/-- All files have this name. -/
def filesNamed (name : ObjectName) (_ : Pfile) : ObjectName := name

/-- A query for the attributes with a longer name changes the byte behind the
    structure. -/
theorem attribute_spills (hcls : sp.queryVolumeClass = fileFsAttributeInformation)
    (hroom : 16 ≤ sp.queryVolumeLength) (hpos : sp.queryVolumeLength < 2 ^ 31) {start len : Nat}
    (hextract : Extracted name start len) (hname : 2 ≤ len) : ¬ VolumeResult sp name := by
  rintro ⟨rounds, h⟩
  obtain ⟨rounds', hextract⟩ := hextract
  obtain ⟨x, hx⟩ := putAttribute_spills name start hname
  -- the byte behind the structure was another one
  have hlen : toLong sp.queryVolumeLength = sp.queryVolumeLength := toLong_eq (by omega)
  have hsp : ((sampleVolumeWorld sp (x + 1)).irps 0).currentStackLocation = some sp := rfl
  obtain ⟨w', status, hcall, hok⟩ := h (max rounds rounds') (by omega) (filesNamed name)
    (sampleVolumeWorld sp (x + 1)) 0 0 hsp rfl
  have hfill : fillVolume (max rounds rounds') (filesNamed name sp.fileObject) 0 sp.queryVolumeClass
      ⟨((sampleVolumeWorld sp (x + 1)).irps 0).systemBuffer, toLong sp.queryVolumeLength⟩ =
      some (⟨putAttribute name start len fun _ => x + 1, sp.queryVolumeLength - 16⟩,
        statusSuccess) := by
    rw [hcls, hlen, fillVolume, if_neg (by decide), if_pos rfl, filesNamed,
      fuseQueryFsAttributeInfo_eq (hextract _ (by omega)) (by dsimp only; omega)]
    rfl
  rw [fuseCopyVolumeInformation_eq hsp hfill, Option.some.injEq, Prod.mk.injEq] at hcall
  obtain ⟨rfl, rfl⟩ := hcall
  have hinfo : (volumeIrp ((sampleVolumeWorld sp (x + 1)).irps 0) sp.queryVolumeLength
      ⟨putAttribute name start len fun _ => x + 1, sp.queryVolumeLength - 16⟩).ioStatus.information.toNat =
      16 := by
    rw [volumeIrp_information]
    dsimp only
    omega
  have hbyte : putAttribute name start len (fun _ => x + 1) 16 = x + 1 := hok.covered 16 hinfo.le
  have hsame := (hx _).symm.trans hbyte
  simp at hsame

/-- A query that has to search a name without an end does not return. -/
theorem volumeResult_runs (hpos : 0 < name.count) (hruns : ∀ j, ¬ name.StopsAt j)
    (hlooks : sp.queryVolumeClass = fileFsVolumeInformation ∨
      sp.queryVolumeClass = fileFsAttributeInformation ∧ 16 ≤ toLong sp.queryVolumeLength) :
    ¬ VolumeResult sp name := by
  rintro ⟨rounds, h⟩
  have hsp : ((sampleVolumeWorld sp 0).irps 0).currentStackLocation = some sp := rfl
  obtain ⟨w', status, hcall, -⟩ := h rounds le_rfl (filesNamed name) (sampleVolumeWorld sp 0) 0 0 hsp
    rfl
  have hnone : fillVolume rounds (filesNamed name sp.fileObject) 0 sp.queryVolumeClass
      ⟨((sampleVolumeWorld sp 0).irps 0).systemBuffer, toLong sp.queryVolumeLength⟩ = none :=
    fillVolume_runs (fuseExtractModuleName_of_runs hpos hruns) hlooks
  rw [fuseCopyVolumeInformation, hsp, Option.bind_eq_bind, Option.bind_some, hnone] at hcall
  cases hcall

/-- A query keeps within the buffer if the fillers do. -/
theorem volumeResult_of_filled (rounds : Nat)
    (h : ∀ fuel, rounds ≤ fuel → ∀ time m, ∃ q status,
      fillVolume fuel name time sp.queryVolumeClass ⟨m, toLong sp.queryVolumeLength⟩ =
        some (q, status) ∧ Filled ⟨m, toLong sp.queryVolumeLength⟩ q status) :
    VolumeResult sp name := by
  have hlt : sp.queryVolumeLength < 2 ^ 32 := IoStackLocation.ulong_lt _
  refine ⟨rounds, fun fuel hfuel files w p time hsp hname => ?_⟩
  obtain ⟨q, status, hfill, hfilled⟩ := h fuel hfuel time (w.irps p).systemBuffer
  refine ⟨_, _, fuseCopyVolumeInformation_eq hsp (hname ▸ hfill), ?_⟩
  have hirp : (((w.setIrp p (volumeIrp (w.irps p) sp.queryVolumeLength q)).complete p).irps p) =
      volumeIrp (w.irps p) sp.queryVolumeLength q := if_pos rfl
  rw [hirp]
  exact hfilled.volumeOk (toLong_cases hlt)

/-- A volume query returns and keeps within the buffer, exactly if: one for the
    volume finds an end of the module's name; and one for the attributes that has
    room for the structure finds a module's name of one character at most. -/
theorem volume_information_iff (sp : IoStackLocation) (name : ObjectName) :
    VolumeResult sp name ↔
      (sp.queryVolumeClass = fileFsVolumeInformation → SearchEnds name) ∧
        (sp.queryVolumeClass = fileFsAttributeInformation → 16 ≤ sp.queryVolumeLength →
          sp.queryVolumeLength < 2 ^ 31 → ShortModuleName name) := by
  have hlt : sp.queryVolumeLength < 2 ^ 32 := IoStackLocation.ulong_lt _
  -- as a signed number, the length has room for the structure if it is not too large
  have hsigned : 16 ≤ toLong sp.queryVolumeLength ↔
      16 ≤ sp.queryVolumeLength ∧ sp.queryVolumeLength < 2 ^ 31 := by
    rcases toLong_cases hlt with ⟨heq, hpos⟩ | ⟨heq, hge, -⟩ <;> rw [heq] <;> omega
  rcases Nat.eq_zero_or_pos name.count with hempty | hpos
  · -- an empty name
    refine iff_of_true ?_ ⟨fun _ => .inl hempty, fun _ _ _ => .inl hempty⟩
    exact volumeResult_of_filled 0 fun fuel _ time m =>
      fillVolume_filled (fuseExtractModuleName_of_empty hempty) (by omega) fun _ _ => Nat.zero_le 1
  by_cases hends : ∃ j, name.StopsAt j
  · -- the search stops
    obtain ⟨j, hj⟩ := hends
    have hextract := extracted_of_stops hpos hj
    constructor
    · refine fun h => ⟨fun _ => .inr ⟨j, hj⟩, fun hcls hroom hlow => ?_⟩
      by_contra hname
      rw [← reported_le_one_iff hpos hj] at hname
      exact attribute_spills hcls hroom hlow hextract (Nat.lt_of_not_le hname) h
    · rintro ⟨-, hok⟩
      obtain ⟨rounds, hextract⟩ := hextract
      refine volumeResult_of_filled rounds fun fuel hfuel time m =>
        fillVolume_filled (hextract fuel hfuel) (reported_lt hpos hj) fun hcls hroom => ?_
      dsimp only at hroom
      obtain ⟨hroom, hlow⟩ := hsigned.mp hroom
      exact (reported_le_one_iff hpos hj).mpr (hok hcls hroom hlow)
  · -- the search runs out of the memory
    have hruns : ∀ j, ¬ name.StopsAt j := not_exists.mp hends
    have hlong : ¬ ShortModuleName name := by
      rintro (h | ⟨j, hj, -⟩)
      · omega
      · exact hruns j hj
    constructor
    · refine fun h => ⟨fun hcls => absurd h (volumeResult_runs hpos hruns (.inl hcls)), ?_⟩
      intro hcls hroom hlow
      exact absurd h (volumeResult_runs hpos hruns (.inr ⟨hcls, hsigned.mpr ⟨hroom, hlow⟩⟩))
    · rintro ⟨hvolume, hattribute⟩
      have hnot : sp.queryVolumeClass ≠ fileFsVolumeInformation := fun hcls =>
        (hvolume hcls).elim (by omega) hends
      refine volumeResult_of_filled 0 fun fuel _ time m => fillVolume_fixed hnot fun hcls => ?_
      by_contra hroom
      dsimp only at hroom
      obtain ⟨hroom, hlow⟩ := hsigned.mp (not_lt.mp hroom)
      exact hlong (hattribute hcls hroom hlow)

end Packet

/-- A query for the attributes, with room for the structure, on a file of a
    module with a name of three characters; and on a file with a NUL in its name,
    of which the search finds no backslash. -/
theorem volume_information_spills :
    ∃ (sp : IoStackLocation) (name name' : ObjectName), sp.queryVolumeLength = 16 ∧
      name.text = [backslash, 101, 120, 116, backslash] ∧ ¬ VolumeResult sp name ∧
      name'.text = [backslash, 0, backslash] ∧ ¬ VolumeResult sp name' := by
  refine ⟨{ (default : IoStackLocation) with
      arg0 := 16, arg1 := UInt64.ofNat fileFsAttributeInformation },
    ⟨5, fun i => [backslash, 101, 120, 116, backslash].getD i 0, by decide,
      fun _ => .inl ⟨4, by decide, by decide, .inl (by decide)⟩⟩,
    ⟨3, fun i => [backslash, 0, backslash].getD i 0, by decide,
      fun _ => .inl ⟨1, by decide, by decide, .inr (by decide)⟩⟩, rfl, rfl, ?_, rfl, ?_⟩
  · refine attribute_spills rfl (by decide) (by decide) (extracted_of_stops (j := 4) (by decide)
      ⟨by decide, .inl (by decide), by decide⟩) (by decide)
  · refine attribute_spills rfl (by decide) (by decide) (extracted_of_stops (j := 1) (by decide)
      ⟨by decide, .inr (by decide), by decide⟩) (by decide)

end FuseNt
