/-
  FuseNt.Driver.QueryResult

  What `FuseCopyInformation` returns for each of its classes.

  The fillers skip what does not fit and leave the remaining length as it is,
  so that it never becomes negative: a buffer that is too small is reported as
  a success.  The parts are written where `FILE_ALL_INFORMATION` has them, also
  when only one of them was asked for, and the parts that it skips are not
  counted in `IoStatus.Information`.  What is left is the basic class, whose
  part comes first.
-/

import FuseNt.Driver.Query

namespace FuseNt

open FuseNt.Lib

-- ============================================================================
-- The classes
-- ============================================================================

/-- The classes that `FuseCopyInformation` handles. -/
inductive InfoClass where
  | basic
  | standard
  | name
  | all
deriving DecidableEq, Repr

/-- The fields of the `FILE_BASIC_INFORMATION` of a `FUSENT_FILE_INFORMATION`. -/
def basicFields (msg : Mem) (src : Nat) : List (Nat × List UInt8) :=
  [(0, msg.read (src + 0) 8), (8, msg.read (src + 8) 8), (16, msg.read (src + 16) 8),
    (24, msg.read (src + 24) 8), (32, msg.read (src + 32) 4)]

/-- The fields of its `FILE_STANDARD_INFORMATION`. -/
def standardFields (msg : Mem) (src : Nat) : List (Nat × List UInt8) :=
  [(0, msg.read (src + 40) 8), (8, msg.read (src + 48) 8), (16, msg.read (src + 56) 4),
    (20, msg.read (src + 60) 1), (21, msg.read (src + 61) 1)]

/-- The fields of the `FILE_NAME_INFORMATION`. -/
def nameFields (name : UnicodeString) : List (Nat × List UInt8) :=
  [(0, leBytes 4 (2 * name.length)), (4, name.bytes 0 name.length)]

/-- The size of a `FILE_NAME_INFORMATION` with the name. -/
def nameInformationSize (name : UnicodeString) : Nat := 8 + 2 * name.length

namespace InfoClass

def code : InfoClass → Nat
  | basic => fileBasicInformation
  | standard => fileStandardInformation
  | name => fileNameInformation
  | all => fileAllInformation

/-- The size of the structure of a class. -/
def size (fileName : UnicodeString) : InfoClass → Nat
  | basic => 40
  | standard => 24
  | name => nameInformationSize fileName
  | all => 96 + nameInformationSize fileName

/-- The fields of the structure of a class, by their offsets in it. -/
def fields (fileName : UnicodeString) (msg : Mem) (src : Nat) :
    InfoClass → List (Nat × List UInt8)
  | basic => basicFields msg src
  | standard => standardFields msg src
  | name => nameFields fileName
  | all =>
      basicFields msg src ++ (standardFields msg src).map (fun f => (40 + f.1, f.2)) ++
        (nameFields fileName).map (fun f => (96 + f.1, f.2))

/-- The fillers that the `switch` calls for a class. -/
def fill (fileName : UnicodeString) (msg : Mem) (src : Nat) (q : QueryFill) :
    InfoClass → QueryFill
  | basic => fuseQueryBasicInfo msg src 0 q
  | standard => fuseQueryStandardInfo msg src 40 q
  | name => fuseQueryNameInfo fileName 96 q
  | all =>
      fuseQueryNameInfo fileName 96 (fuseQueryStandardInfo msg src 40 (fuseQueryBasicInfo msg src 0 q))

end InfoClass

-- ============================================================================
-- The result
-- ============================================================================

/-- What a query for the class is to do: it writes within `Length`; if the
    structure of the class fits, it is at the start of the buffer, and
    `Information` is its end; otherwise the status says so. -/
structure InformationOk (cls : InfoClass) (fileName : UnicodeString) (length : Nat) (msg : Mem)
    (src : Nat) (irp irp' : Irp) (status : NtStatus) : Prop where
  inside : ∀ i, length ≤ i → irp'.systemBuffer i = irp.systemBuffer i
  filled : cls.size fileName ≤ length → status = statusSuccess ∧
    (∀ f ∈ cls.fields fileName msg src, irp'.systemBuffer.read f.1 f.2.length = f.2) ∧
    irp'.ioStatus.information.toNat = cls.size fileName
  overflow : length < cls.size fileName → status = statusBufferOverflow

/-- `FuseCopyInformation` does it, for every buffer and every message. -/
def InformationResult (files : Pfile → UnicodeString) (sp : IoStackLocation) (cls : InfoClass) :
    Prop :=
  ∀ irp msg src, irp.currentStackLocation = some sp →
    ∃ irp' status, fuseCopyInformation files irp msg src = some (irp', status) ∧
      InformationOk cls (files sp.fileObject) sp.queryFileLength msg src irp irp' status

section Result

variable {files : Pfile → UnicodeString} {sp : IoStackLocation} {cls : InfoClass} {irp : Irp}
  {msg : Mem} {src : Nat} {fileName : UnicodeString} {q : QueryFill}

theorem toLong_of_ge {n : Nat} (h : 2 ^ 31 ≤ n) (hlt : n < 2 ^ 32) : toLong n = n - 2 ^ 32 := by
  unfold toLong
  rw [Int.bmod_def]
  omega

theorem nameInformationSize_lt (fileName : UnicodeString) :
    nameInformationSize fileName < 2 ^ 31 - 96 := by
  have := fileName.length_lt
  unfold nameInformationSize UnicodeString.length
  omega

/-- `FuseCopyInformation` on a class that it handles. -/
theorem fuseCopyInformation_eq (hsp : irp.currentStackLocation = some sp)
    (hcls : sp.queryFileClass = cls.code) :
    fuseCopyInformation files irp msg src =
      let q := cls.fill (files sp.fileObject) msg src
        ⟨irp.systemBuffer, toLong sp.queryFileLength⟩
      let length := if q.length < 0 then 0 else q.length
      some ({ irp with
        systemBuffer := q.buffer
        ioStatus := { irp.ioStatus with
          information :=
            UInt64.ofNat (((sp.queryFileLength : Int) - length) % (2 ^ 32 : Nat)).toNat } },
        if q.length < 0 then statusBufferOverflow else statusSuccess) := by
  simp only [fuseCopyInformation, hsp, hcls, Option.bind_eq_bind, Option.bind_some]
  cases cls <;> rfl

/-- A filler: what does not fit is skipped. -/
def fillPart (needed : Int) (put : Mem → Mem) (q : QueryFill) : QueryFill :=
  if q.length < needed then q else ⟨put q.buffer, q.length - needed⟩

theorem fillPart_of_neg {needed : Int} {put : Mem → Mem} (hneeded : 0 ≤ needed)
    (hq : q.length < 0) : fillPart needed put q = q :=
  if_pos (by omega)

theorem fillPart_nonneg {needed : Int} {put : Mem → Mem} (hq : 0 ≤ q.length) :
    0 ≤ (fillPart needed put q).length := by
  unfold fillPart
  split
  · exact hq
  · dsimp only
    omega

theorem fillPart_of_le (needed : Int) {put : Mem → Mem} (hq : needed ≤ q.length) :
    fillPart needed put q = ⟨put q.buffer, q.length - needed⟩ :=
  if_neg (by omega)

/-- Bytes that no part reaches are kept. -/
theorem fillPart_keeps {needed : Int} {put : Mem → Mem} {i : Nat} (hput : ∀ m, put m i = m i) :
    (fillPart needed put q).buffer i = q.buffer i := by
  unfold fillPart
  split
  · rfl
  · exact hput q.buffer

/-- What `FuseQueryBasicInfo` writes. -/
def putBasic (msg : Mem) (src dst : Nat) (m : Mem) : Mem :=
  (m.zero dst 40).writes
    [(dst + 32, msg.read (src + 32) 4), (dst + 24, msg.read (src + 24) 8),
      (dst + 0, msg.read (src + 0) 8), (dst + 8, msg.read (src + 8) 8),
      (dst + 16, msg.read (src + 16) 8)]

/-- What `FuseQueryStandardInfo` writes. -/
def putStandard (msg : Mem) (src dst : Nat) (m : Mem) : Mem :=
  (m.zero dst 24).writes
    [(dst + 0, msg.read (src + 40) 8), (dst + 8, msg.read (src + 48) 8),
      (dst + 20, msg.read (src + 60) 1), (dst + 21, msg.read (src + 61) 1),
      (dst + 16, msg.read (src + 56) 4)]

/-- What `FuseQueryNameInfo` writes. -/
def putName (name : UnicodeString) (dst : Nat) (m : Mem) : Mem :=
  (m.zero dst (nameInformationSize name)).writes
    [(dst + 4, name.bytes 0 name.length), (dst + 0, leBytes 4 (2 * name.length))]

theorem fuseQueryBasicInfo_eq (msg : Mem) (src dst : Nat) :
    fuseQueryBasicInfo msg src dst = fillPart 40 (putBasic msg src dst) := rfl

theorem fuseQueryStandardInfo_eq (msg : Mem) (src dst : Nat) :
    fuseQueryStandardInfo msg src dst = fillPart 24 (putStandard msg src dst) := rfl

theorem fuseQueryNameInfo_eq (name : UnicodeString) (dst : Nat) :
    fuseQueryNameInfo name dst = fillPart (nameInformationSize name) (putName name dst) := by
  have hsize := nameInformationSize_lt name
  unfold nameInformationSize at hsize
  funext q
  unfold fuseQueryNameInfo
  simp only [toLong_eq (show -(2 ^ 31) ≤ ((8 + 2 * name.length : Nat) : Int) ∧
    ((8 + 2 * name.length : Nat) : Int) < 2 ^ 31 by omega)]
  rfl

/-- A negative length is what the caller's length was. -/
theorem InfoClass.fill_of_neg {b : Mem} {n : Int} (hn : n < 0) :
    cls.fill fileName msg src ⟨b, n⟩ = ⟨b, n⟩ := by
  have hq : (⟨b, n⟩ : QueryFill).length < 0 := hn
  cases cls <;> simp only [InfoClass.fill, fuseQueryBasicInfo_eq, fuseQueryStandardInfo_eq,
    fuseQueryNameInfo_eq]
  case basic => exact fillPart_of_neg (by decide) hq
  case standard => exact fillPart_of_neg (by decide) hq
  case name => exact fillPart_of_neg (Int.natCast_nonneg _) hq
  case all =>
    rw [fillPart_of_neg (by decide) hq, fillPart_of_neg (by decide) hq,
      fillPart_of_neg (Int.natCast_nonneg _) hq]

/-- The fillers do not make the remaining length negative. -/
theorem InfoClass.fill_nonneg {b : Mem} {n : Int} (hn : 0 ≤ n) :
    0 ≤ (cls.fill fileName msg src ⟨b, n⟩).length := by
  have hq : 0 ≤ (⟨b, n⟩ : QueryFill).length := hn
  cases cls <;> simp only [InfoClass.fill, fuseQueryBasicInfo_eq, fuseQueryStandardInfo_eq,
    fuseQueryNameInfo_eq]
  case basic => exact fillPart_nonneg hq
  case standard => exact fillPart_nonneg hq
  case name => exact fillPart_nonneg hq
  case all => exact fillPart_nonneg (fillPart_nonneg (fillPart_nonneg hq))

/-- The part of the standard class and that of the name class come later. -/
theorem InfoClass.fill_start (hcls : cls = .standard ∨ cls = .name) :
    (cls.fill fileName msg src q).buffer 0 = q.buffer 0 := by
  rcases hcls with rfl | rfl
  · rw [InfoClass.fill, fuseQueryStandardInfo_eq]
    refine fillPart_keeps fun m => ?_
    rw [putStandard, Mem.writes_of_not_mem _ _ _ (by simp), Mem.zero_of_not_mem _ _ _ _ (by simp)]
  · rw [InfoClass.fill, fuseQueryNameInfo_eq]
    refine fillPart_keeps fun m => ?_
    rw [putName, Mem.writes_of_not_mem _ _ _ (by simp), Mem.zero_of_not_mem _ _ _ _ (by simp)]

/-- The structure of each of these classes has a field at its start. -/
theorem InfoClass.fields_start (fileName : UnicodeString) (hcls : cls = .standard ∨ cls = .name) :
    ∃ x rest, (0, x :: rest) ∈ cls.fields fileName Mem.zeros 0 := by
  rcases hcls with rfl | rfl
  · exact ⟨_, _, List.mem_cons_self⟩
  · exact ⟨_, _, List.mem_cons_self⟩

/-- All three parts. -/
theorem InfoClass.fill_all_length (hq : 72 + 2 * fileName.length ≤ q.length) :
    (InfoClass.all.fill fileName msg src q).length = q.length - (72 + 2 * fileName.length) := by
  have hsize : (nameInformationSize fileName : Int) = 8 + 2 * fileName.length := by
    simp [nameInformationSize]
  rw [InfoClass.fill, fuseQueryBasicInfo_eq, fuseQueryStandardInfo_eq, fuseQueryNameInfo_eq,
    fillPart_of_le 40 (by omega), fillPart_of_le 24 (by dsimp only; omega),
    fillPart_of_le (nameInformationSize fileName) (by dsimp only; omega)]
  dsimp only
  omega

/-- The status and `IoStatus.Information` that go with what is left. -/
def fillStatusOf (q : QueryFill) : NtStatus :=
  if q.length < 0 then statusBufferOverflow else statusSuccess

def fillInformation (length : Nat) (q : QueryFill) : Nat :=
  (((length : Int) - if q.length < 0 then 0 else q.length) % (2 ^ 32 : Nat)).toNat

theorem fillStatusOf_of_neg {b : Mem} {n : Int} (hn : n < 0) :
    fillStatusOf ⟨b, n⟩ = statusBufferOverflow :=
  if_pos hn

theorem fillStatusOf_of_nonneg (hq : 0 ≤ q.length) : fillStatusOf q = statusSuccess :=
  if_neg (not_lt.mpr hq)

/-- What the property says of the fillers. -/
theorem informationResult_iff (hcls : sp.queryFileClass = cls.code) :
    InformationResult files sp cls ↔ ∀ b msg src,
      let q := cls.fill (files sp.fileObject) msg src ⟨b, toLong sp.queryFileLength⟩
      (∀ i, sp.queryFileLength ≤ i → q.buffer i = b i) ∧
      (cls.size (files sp.fileObject) ≤ sp.queryFileLength →
        fillStatusOf q = statusSuccess ∧
        (∀ f ∈ cls.fields (files sp.fileObject) msg src, q.buffer.read f.1 f.2.length = f.2) ∧
        fillInformation sp.queryFileLength q = cls.size (files sp.fileObject)) ∧
      (sp.queryFileLength < cls.size (files sp.fileObject) →
        fillStatusOf q = statusBufferOverflow) := by
  have hinfo : ∀ q : QueryFill, (UInt64.ofNat (fillInformation sp.queryFileLength q)).toNat =
      fillInformation sp.queryFileLength q := by
    intro q
    refine UInt64.toNat_ofNat_of_lt' ?_
    unfold fillInformation
    rw [UInt64.size]
    omega
  constructor
  · intro h b msg src
    obtain ⟨irp', status, hcall, hok⟩ :=
      h { Irp.zeroed.withStackLocation sp with systemBuffer := b } msg src rfl
    rw [fuseCopyInformation_eq rfl hcls, Option.some.injEq, Prod.mk.injEq] at hcall
    obtain ⟨rfl, rfl⟩ := hcall
    refine ⟨hok.inside, fun hfits => ?_, hok.overflow⟩
    obtain ⟨hstatus, hfields, hend⟩ := hok.filled hfits
    exact ⟨hstatus, hfields, (hinfo _).symm.trans hend⟩
  · intro h irp msg src hsp
    obtain ⟨hinside, hfilled, hover⟩ := h irp.systemBuffer msg src
    refine ⟨_, _, fuseCopyInformation_eq hsp hcls, hinside, fun hfits => ?_, hover⟩
    obtain ⟨hstatus, hfields, hend⟩ := hfilled hfits
    exact ⟨hstatus, hfields, (hinfo _).trans hend⟩

/-- The basic class with enough room. -/
theorem fill_basic (b : Mem) {n : Nat} (hn : 40 ≤ n) :
    InfoClass.basic.fill fileName msg src ⟨b, n⟩ = ⟨putBasic msg src 0 b, n - 40⟩ := by
  rw [InfoClass.fill, fuseQueryBasicInfo_eq, fillPart_of_le 40 (by dsimp only; omega)]

theorem putBasic_fields (b : Mem) : ∀ f ∈ basicFields msg src,
    (putBasic msg src 0 b).read f.1 f.2.length = f.2 := by
  intro f hf
  refine Mem.read_writes_of_mem (by simp) ?_
  simp only [basicFields, List.mem_cons, List.not_mem_nil, or_false] at hf
  rcases hf with rfl | rfl | rfl | rfl | rfl <;> simp

theorem putBasic_behind (b : Mem) {i : Nat} (hi : 40 ≤ i) : putBasic msg src 0 b i = b i := by
  rw [putBasic, Mem.writes_of_not_mem _ _ _ (by simp; omega),
    Mem.zero_of_not_mem _ _ _ _ (by omega)]

/-- Whatever was at the start of the buffer stays there. -/
theorem not_filled (hcls : cls = .standard ∨ cls = .name) {n : Int} :
    ¬ ∀ b, ∀ f ∈ cls.fields fileName Mem.zeros 0,
      (cls.fill fileName Mem.zeros 0 ⟨b, n⟩).buffer.read f.1 f.2.length = f.2 := by
  intro h
  obtain ⟨x, rest, hfield⟩ := InfoClass.fields_start fileName hcls
  have hbyte := (Mem.read_eq_iff _ _ _).mp (h (fun _ => x + 1) _ hfield) 0 (by simp)
  rw [Nat.add_zero, InfoClass.fill_start hcls] at hbyte
  have hx : x + 1 = x := hbyte
  simp at hx

/-- What the call of a query returns is right for no class but the basic one,
    and for that one if the length is not too small, nor negative as a LONG. -/
theorem copy_information_iff (files : Pfile → UnicodeString) (sp : IoStackLocation)
    (cls : InfoClass) (hcls : sp.queryFileClass = cls.code) :
    InformationResult files sp cls ↔
      cls = .basic ∧ 40 ≤ sp.queryFileLength ∧ sp.queryFileLength < 2 ^ 31 := by
  have hlt : sp.queryFileLength < 2 ^ 32 := IoStackLocation.ulong_lt _
  have hname := nameInformationSize_lt (files sp.fileObject)
  have hsize : cls.size (files sp.fileObject) < 2 ^ 31 := by
    cases cls <;> simp only [InfoClass.size] <;> omega
  rw [informationResult_iff hcls]
  constructor
  · intro h
    have hpos : sp.queryFileLength < 2 ^ 31 := by
      by_contra hge
      have hneg : toLong sp.queryFileLength < 0 := by
        rw [toLong_of_ge (Nat.le_of_not_lt hge) hlt]
        omega
      have hstatus := ((h Mem.zeros Mem.zeros 0).2.1 (by omega)).1
      rw [InfoClass.fill_of_neg hneg, fillStatusOf_of_neg hneg] at hstatus
      exact absurd hstatus (by decide)
    have hlong : toLong sp.queryFileLength = sp.queryFileLength := toLong_eq (by omega)
    simp only [hlong] at h
    have hfits : cls.size (files sp.fileObject) ≤ sp.queryFileLength := by
      by_contra hno
      have hstatus := (h Mem.zeros Mem.zeros 0).2.2 (Nat.lt_of_not_le hno)
      rw [fillStatusOf_of_nonneg (InfoClass.fill_nonneg (Int.natCast_nonneg _))] at hstatus
      exact absurd hstatus (by decide)
    cases cls with
    | basic => exact ⟨rfl, hfits, hpos⟩
    | standard => exact absurd (fun b => ((h b Mem.zeros 0).2.1 hfits).2.1) (not_filled (Or.inl rfl))
    | name => exact absurd (fun b => ((h b Mem.zeros 0).2.1 hfits).2.1) (not_filled (Or.inr rfl))
    | all =>
        have hend := ((h Mem.zeros Mem.zeros 0).2.1 hfits).2.2
        have hroom : 104 + 2 * (files sp.fileObject).length ≤ sp.queryFileLength := by
          simpa [InfoClass.size, nameInformationSize, ← Nat.add_assoc] using hfits
        rw [fillInformation, InfoClass.fill_all_length (by dsimp only; omega)] at hend
        simp only [InfoClass.size, nameInformationSize] at hend
        omega
  · rintro ⟨rfl, hle, hpos⟩ b msg src
    have hlong : toLong sp.queryFileLength = sp.queryFileLength := toLong_eq (by omega)
    rw [hlong, fill_basic b hle]
    refine ⟨fun i hi => putBasic_behind b (hle.trans hi), fun _ => ⟨?_, putBasic_fields b, ?_⟩,
      fun hno => absurd hle (not_le.mpr hno)⟩
    · exact fillStatusOf_of_nonneg (by dsimp only; omega)
    · rw [fillInformation, InfoClass.size]
      dsimp only
      omega

end Result

/-- The stack location of a query for a class with a buffer of `n` bytes. -/
def sampleQuerySp (cls : InfoClass) (n : UInt64) : IoStackLocation :=
  { (default : IoStackLocation) with arg0 := n, arg1 := UInt64.ofNat cls.code }

/-- A query for the basic class with a buffer that just holds it. -/
theorem copy_information_basic :
    InformationResult (fun _ => .empty) (sampleQuerySp .basic 40) .basic :=
  (copy_information_iff (fun _ => .empty) (sampleQuerySp .basic 40) .basic rfl).mpr (by decide)

/-- A query for the standard class with a buffer that just holds it: the
    structure is written behind the buffer. -/
theorem copy_information_standard :
    (sampleQuerySp .standard 24).queryFileLength = 24 ∧
      ¬ InformationResult (fun _ => .empty) (sampleQuerySp .standard 24) .standard := by
  refine ⟨rfl, fun h => ?_⟩
  obtain ⟨irp', status, hcall, hok⟩ :=
    h { Irp.zeroed.withStackLocation (sampleQuerySp .standard 24) with systemBuffer := fun _ => 1 }
      Mem.zeros 0 rfl
  have hcls : (sampleQuerySp .standard 24).queryFileClass = InfoClass.standard.code := rfl
  rw [fuseCopyInformation_eq rfl hcls, Option.some.injEq, Prod.mk.injEq] at hcall
  obtain ⟨rfl, rfl⟩ := hcall
  exact absurd (hok.inside 40 (by decide)) (by decide)

end FuseNt
