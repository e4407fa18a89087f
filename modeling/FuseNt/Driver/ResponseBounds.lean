/-
  FuseNt.Driver.ResponseBounds

  Which bytes of a module's message `FuseCopyResponse` reads.

  The message is checked to hold a `FUSENT_RESP`.  How much payload follows is
  taken from the message itself: the length of a read is compared with the
  length the application asked for, that of a query with the size of the
  structure to be read, that of a listing with nothing, and none of them with
  the length of the message.

  `ResponseFits` says for which messages this is enough.
-/

import FuseNt.Driver.DirBounds
import FuseNt.Driver.Fleet
import FuseNt.RoundTrip.Read

namespace FuseNt

open FuseNt.Lib

-- ============================================================================
-- What is read
-- ============================================================================

/-- What `FuseQueryBasicInfo` reads of the `FUSENT_FILE_INFORMATION` at `src`. -/
def basicInfoReads (src : Nat) : List Span :=
  [(src + 32, 4), (src + 24, 8), (src + 0, 8), (src + 8, 8), (src + 16, 8)]

/-- What `FuseQueryStandardInfo` reads of it. -/
def standardInfoReads (src : Nat) : List Span :=
  [(src + 40, 8), (src + 48, 8), (src + 60, 1), (src + 61, 1), (src + 56, 4)]

/-- `FuseQueryBasicInfo` is called and has room. -/
def FillsBasic (sp : IoStackLocation) : Prop :=
  (sp.queryFileClass = fileAllInformation ∨ sp.queryFileClass = fileBasicInformation) ∧
    40 ≤ toLong sp.queryFileLength

/-- `FuseQueryStandardInfo` is called and has room, behind the basic
    information if that was filled in before. -/
def FillsStandard (sp : IoStackLocation) : Prop :=
  sp.queryFileClass = fileAllInformation ∧
      (64 ≤ toLong sp.queryFileLength ∨
        24 ≤ toLong sp.queryFileLength ∧ toLong sp.queryFileLength < 40) ∨
    sp.queryFileClass = fileStandardInformation ∧ 24 ≤ toLong sp.queryFileLength

instance (sp : IoStackLocation) : Decidable (FillsBasic sp) :=
  inferInstanceAs (Decidable (_ ∧ _))

instance (sp : IoStackLocation) : Decidable (FillsStandard sp) :=
  inferInstanceAs (Decidable (_ ∨ _))

/-- What `FuseCopyInformation` reads. -/
def informationReads (sp : IoStackLocation) (src : Nat) : List Span :=
  (if FillsBasic sp then basicInfoReads src else []) ++
    if FillsStandard sp then standardInfoReads src else []

/-- `params.read.buflen`, `params.query.buflen` or `params.dirctrl.buflen`. -/
def respBuflen (msg : Mem) : Nat := msg.readLe respParamsOffset 4

/-- The branch for the major function looks at `params`. -/
def ReadsParams (usp : IoStackLocation) (msg : Mem) : Prop :=
  ntSuccess (UInt32.ofNat (msg.readLe respStatusOffset 4)) = true ∧
      (usp.majorFunction = irpMjRead ∨ usp.majorFunction = irpMjWrite) ∨
    usp.majorFunction = irpMjQueryInformation ∨ usp.majorFunction = irpMjDirectoryControl

instance (usp : IoStackLocation) (msg : Mem) : Decidable (ReadsParams usp msg) :=
  inferInstanceAs (Decidable (_ ∨ _))

/-- What is read of a message that answers a packet at `usp`, the records of a
    listing apart: the status and the error, which are printed, and what the
    branch for the major function needs. -/
def answerReads (usp : IoStackLocation) (msg : Mem) : List Span :=
  [(respStatusOffset, 4), (respErrorOffset, 4)] ++
  (if ReadsParams usp msg then [(respParamsOffset, 4)] else []) ++
  (if ntSuccess (UInt32.ofNat (msg.readLe respStatusOffset 4)) = true ∧
      usp.majorFunction = irpMjRead ∧ respBuflen msg ≤ usp.readLength then
    [(respParamsOffset + 4, respBuflen msg)]
  else []) ++
  if usp.majorFunction = irpMjQueryInformation ∧ sizeofFusentFileInformation ≤ respBuflen msg then
    informationReads usp sizeofFusentResp
  else []

/-- The search of `FuseCopyResponse` finds the packet. -/
def Matched (w : World) (ms : ModuleStruct) (q : Pirp) : Prop :=
  ∃ fuel prev cur, findOutstanding w.heap q fuel none ms.outstandingIrpList = some (some (prev, cur))

/-- The message answers a packet that is outstanding and not cancelled, at
    `usp`. -/
structure AnswersAt (w : World) (ms : ModuleStruct) (msg : Mem) (usp : IoStackLocation) : Prop where
  matched : Matched w ms (respPirp msg)
  live : (w.irps (respPirp msg)).cancel = false
  location : (w.irps (respPirp msg)).currentStackLocation = some usp

/-- Byte `i` of a message of `len` bytes is read: the packet it names, what
    answers that packet, and the rounds over a listing.  (The static character
    of `str_hash_fn` is zero: it reads no name.) -/
inductive ResponseReads (w : World) (ms : ModuleStruct) (msg : Mem) (len : Nat) (i : Nat) : Prop
  | pirp (whole : sizeofFusentResp ≤ len) (touches : Touches [(0, 8)] i)
  | answer {usp : IoStackLocation} (whole : sizeofFusentResp ≤ len)
      (answers : AnswersAt w ms msg usp) (touches : Touches (answerReads usp msg) i)
  | listing {usp : IoStackLocation} {q : DirQuery} {s : DirCopy} (whole : sizeofFusentResp ≤ len)
      (answers : AnswersAt w ms msg usp) (major : usp.majorFunction = irpMjDirectoryControl)
      (supported : DirQuery.ofCode usp.queryDirectoryClass = some q)
      (visits : q.Visits msg (dirCopyStart (w.irps (respPirp msg))
        (toLong usp.queryDirectoryLength) (respBuflen msg)) s)
      (touches : Touches (q.roundReads msg s) i)

-- ============================================================================
-- Nothing else is read
-- ============================================================================

section Agreement

variable {msg msg' : Mem} {src dst : Nat} {q : QueryFill}

theorem fuseQueryBasicInfo_agree (h : 40 ≤ q.length → AgreeOn (basicInfoReads src) msg msg') :
    fuseQueryBasicInfo msg src dst q = fuseQueryBasicInfo msg' src dst q := by
  unfold fuseQueryBasicInfo
  split
  case isTrue => rfl
  case isFalse hroom =>
      have hagree := h (by omega)
      have hread : ∀ {off n}, (off, n) ∈ basicInfoReads src → msg.read off n = msg'.read off n :=
        fun hmem => hagree.read hmem
      rw [hread (by simp [basicInfoReads]), hread (by simp [basicInfoReads]),
        hread (by simp [basicInfoReads]), hread (by simp [basicInfoReads]),
        hread (by simp [basicInfoReads])]

theorem fuseQueryStandardInfo_agree
    (h : 24 ≤ q.length → AgreeOn (standardInfoReads src) msg msg') :
    fuseQueryStandardInfo msg src dst q = fuseQueryStandardInfo msg' src dst q := by
  unfold fuseQueryStandardInfo
  split
  case isTrue => rfl
  case isFalse hroom =>
      have hagree := h (by omega)
      have hread : ∀ {off n}, (off, n) ∈ standardInfoReads src → msg.read off n = msg'.read off n :=
        fun hmem => hagree.read hmem
      rw [hread (by simp [standardInfoReads]), hread (by simp [standardInfoReads]),
        hread (by simp [standardInfoReads]), hread (by simp [standardInfoReads]),
        hread (by simp [standardInfoReads])]

theorem fuseQueryBasicInfo_length :
    (fuseQueryBasicInfo msg src dst q).length = if q.length < 40 then q.length else q.length - 40 := by
  unfold fuseQueryBasicInfo
  split <;> rfl

/-- `FuseCopyInformation` reads what `informationReads` says. -/
theorem fuseCopyInformation_agree {files : Pfile → UnicodeString} {irp : Irp} {sp : IoStackLocation}
    (hsp : irp.currentStackLocation = some sp) (h : AgreeOn (informationReads sp src) msg msg') :
    fuseCopyInformation files irp msg src = fuseCopyInformation files irp msg' src := by
  have hbasic : FillsBasic sp → AgreeOn (basicInfoReads src) msg msg' := by
    intro hf
    refine h.mono fun x hx => ?_
    rw [informationReads, if_pos hf]
    exact List.mem_append_left _ hx
  have hstandard : FillsStandard sp → AgreeOn (standardInfoReads src) msg msg' := by
    intro hf
    refine h.mono fun x hx => ?_
    rw [informationReads, if_pos hf]
    exact List.mem_append_right _ hx
  unfold fuseCopyInformation
  rw [hsp]
  simp only [Option.bind_eq_bind, Option.bind_some]
  unfold FillsBasic at hbasic
  unfold FillsStandard at hstandard
  generalize toLong sp.queryFileLength = room at hbasic hstandard ⊢
  split
  case isTrue hall =>
      have hfirst : fuseQueryBasicInfo msg src 0 ⟨irp.systemBuffer, room⟩ =
          fuseQueryBasicInfo msg' src 0 ⟨irp.systemBuffer, room⟩ :=
        fuseQueryBasicInfo_agree fun hroom => hbasic ⟨.inl hall, hroom⟩
      rw [hfirst]
      have hlength : (fuseQueryBasicInfo msg' src 0 ⟨irp.systemBuffer, room⟩).length =
          if room < 40 then room else room - 40 := fuseQueryBasicInfo_length
      generalize fuseQueryBasicInfo msg' src 0 ⟨irp.systemBuffer, room⟩ = q at hlength ⊢
      have hsecond : fuseQueryStandardInfo msg src 40 q = fuseQueryStandardInfo msg' src 40 q := by
        refine fuseQueryStandardInfo_agree fun hroom => hstandard (.inl ⟨hall, ?_⟩)
        split at hlength
        · omega
        · omega
      rw [hsecond]
  case isFalse =>
  split
  case isTrue hclass =>
      have hfirst : fuseQueryBasicInfo msg src 0 ⟨irp.systemBuffer, room⟩ =
          fuseQueryBasicInfo msg' src 0 ⟨irp.systemBuffer, room⟩ :=
        fuseQueryBasicInfo_agree fun hroom => hbasic ⟨.inr hclass, hroom⟩
      rw [hfirst]
  case isFalse =>
  split
  case isTrue hclass =>
      have hfirst : fuseQueryStandardInfo msg src 40 ⟨irp.systemBuffer, room⟩ =
          fuseQueryStandardInfo msg' src 40 ⟨irp.systemBuffer, room⟩ :=
        fuseQueryStandardInfo_agree fun hroom => hstandard (.inr ⟨hclass, hroom⟩)
      rw [hfirst]
  case isFalse => rfl

variable {files : Pfile → UnicodeString} {irp : Irp} {usp : IoStackLocation} {fuel : Nat}

theorem answerReads_status (h : AgreeOn (answerReads usp msg) msg msg') :
    msg.readLe respStatusOffset 4 = msg'.readLe respStatusOffset 4 :=
  h.readLe (by simp [answerReads])

theorem answerReads_buflen (h : AgreeOn (answerReads usp msg) msg msg')
    (hp : ReadsParams usp msg) : respBuflen msg = respBuflen msg' :=
  h.readLe (by simp [answerReads, hp])

theorem fillReadWrite_agree (h : AgreeOn (answerReads usp msg) msg msg')
    (hok : ntSuccess (UInt32.ofNat (msg.readLe respStatusOffset 4)) = true) :
    fillReadWrite irp usp msg = fillReadWrite irp usp msg' := by
  unfold fillReadWrite
  split
  case isTrue hread =>
      have hlen : msg.readLe respParamsOffset 4 = msg'.readLe respParamsOffset 4 :=
        answerReads_buflen h (.inl ⟨hok, .inl hread⟩)
      simp only [← hlen]
      split
      case isTrue hfit =>
          have hdata : msg.read (respParamsOffset + 4) (msg.readLe respParamsOffset 4) =
              msg'.read (respParamsOffset + 4) (msg.readLe respParamsOffset 4) := by
            refine h.read ?_
            have hbranch : ntSuccess (UInt32.ofNat (msg.readLe respStatusOffset 4)) = true ∧
                usp.majorFunction = irpMjRead ∧ respBuflen msg ≤ usp.readLength :=
              ⟨hok, hread, hfit⟩
            rw [answerReads, if_pos hbranch]
            simp [respBuflen]
          rw [hdata]
      case isFalse => rfl
  case isFalse =>
  split
  case isTrue hwrite =>
      have hlen : msg.readLe respParamsOffset 4 = msg'.readLe respParamsOffset 4 :=
        answerReads_buflen h (.inl ⟨hok, .inr hwrite⟩)
      rw [hlen]
  case isFalse => rfl

/-- A packet that is neither a read nor a write is left alone. -/
theorem fillReadWrite_other (hr : usp.majorFunction ≠ irpMjRead)
    (hw : usp.majorFunction ≠ irpMjWrite) : fillReadWrite irp usp msg = (irp, statusSuccess) := by
  simp only [fillReadWrite, if_neg hr, if_neg hw]

/-- `FuseCopyDirectoryControl` reads what its rounds read. -/
theorem fuseCopyDirectoryControl_agree {len : Nat} (hsp : irp.currentStackLocation = some usp)
    (h : ∀ q, DirQuery.ofCode usp.queryDirectoryClass = some q → ∀ s,
      q.Visits msg (dirCopyStart irp (toLong usp.queryDirectoryLength) len) s →
      AgreeOn (q.roundReads msg s) msg msg') :
    fuseCopyDirectoryControl fuel 0 irp msg sizeofFusentResp len =
      fuseCopyDirectoryControl fuel 0 irp msg' sizeofFusentResp len := by
  cases hq : DirQuery.ofCode usp.queryDirectoryClass with
  | some q =>
      rw [fuseCopyDirectoryControl_eq hsp hq, fuseCopyDirectoryControl_eq hsp hq,
        copyEntries_agree rfl (h q hq)]
  | none =>
      unfold fuseCopyDirectoryControl
      rw [hsp]
      simp only [Option.bind_eq_bind, Option.bind_some, hq]

/-- The second half of `fillResponse`, from what the first made of the packet. -/
def fillQuery (fuel : Nat) (c : Wchar) (files : Pfile → UnicodeString) (usp : IoStackLocation)
    (msg : Mem) (r : Irp × NtStatus) : Option (Irp × NtStatus × Wchar) :=
  if usp.majorFunction = irpMjQueryInformation then
    if sizeofFusentFileInformation ≤ respBuflen msg then do
      let (irp, st) ← fuseCopyInformation files r.1 msg sizeofFusentResp
      some (irp, st, c)
    else
      some ({ r.1 with ioStatus := { r.1.ioStatus with status := statusInvalidBufferSize } },
        statusInvalidBufferSize, c)
  else if usp.majorFunction = irpMjDirectoryControl then do
    let d ← fuseCopyDirectoryControl fuel c r.1 msg sizeofFusentResp (respBuflen msg)
    some (d.irp, d.status, d.strHashC)
  else some (r.1, r.2, c)

/-- The first half. -/
def fillStatus (irp : Irp) (usp : IoStackLocation) (msg : Mem) : Irp × NtStatus :=
  let status := UInt32.ofNat (msg.readLe respStatusOffset 4)
  let irp := { irp with ioStatus := { irp.ioStatus with status := status } }
  if ntSuccess status then fillReadWrite irp usp msg else (irp, statusSuccess)

theorem fillResponse_eq (c : Wchar) : fillResponse fuel c files irp usp msg =
    fillQuery fuel c files usp msg (fillStatus irp usp msg) := by
  simp only [fillResponse, fillQuery, fillStatus, respBuflen]

theorem fillStatus_agree (h : AgreeOn (answerReads usp msg) msg msg') :
    fillStatus irp usp msg = fillStatus irp usp msg' := by
  simp only [fillStatus, ← answerReads_status h]
  split
  case isTrue hok => exact fillReadWrite_agree h hok
  case isFalse => rfl

/-- The first half does not touch what the second uses. -/
theorem fillStatus_keeps (irp : Irp) (msg : Mem) (hr : usp.majorFunction ≠ irpMjRead)
    (hw : usp.majorFunction ≠ irpMjWrite) :
    (fillStatus irp usp msg).1.currentStackLocation = irp.currentStackLocation ∧
      (fillStatus irp usp msg).1.userBuffer = irp.userBuffer := by
  simp only [fillStatus, fillReadWrite_other hr hw, ite_self]
  exact ⟨trivial, trivial⟩

theorem fillResponse_agree (hsp : irp.currentStackLocation = some usp)
    (h : AgreeOn (answerReads usp msg) msg msg')
    (hlist : usp.majorFunction = irpMjDirectoryControl → ∀ q,
      DirQuery.ofCode usp.queryDirectoryClass = some q → ∀ s,
      q.Visits msg (dirCopyStart irp (toLong usp.queryDirectoryLength) (respBuflen msg)) s →
      AgreeOn (q.roundReads msg s) msg msg') :
    fillResponse fuel 0 files irp usp msg = fillResponse fuel 0 files irp usp msg' := by
  rw [fillResponse_eq, fillResponse_eq, ← fillStatus_agree h]
  unfold fillQuery
  split
  case isTrue hquery =>
      obtain ⟨hloc, -⟩ := fillStatus_keeps irp msg
        (show usp.majorFunction ≠ irpMjRead by rw [hquery]; decide) (by rw [hquery]; decide)
      rw [← answerReads_buflen h (.inr (.inl hquery))]
      split
      case isTrue hsize =>
          have hinfo : AgreeOn (informationReads usp sizeofFusentResp) msg msg' := by
            refine h.mono fun x hx => ?_
            rw [answerReads, if_pos (show _ ∧ _ from ⟨hquery, hsize⟩)]
            exact List.mem_append_right _ hx
          rw [fuseCopyInformation_agree (hloc.trans hsp) hinfo]
      case isFalse => rfl
  case isFalse =>
  split
  case isTrue hdir =>
      obtain ⟨hloc, hbuffer⟩ := fillStatus_keeps irp msg
        (show usp.majorFunction ≠ irpMjRead by rw [hdir]; decide) (by rw [hdir]; decide)
      rw [← answerReads_buflen h (.inr (.inr hdir))]
      generalize fillStatus irp usp msg = r at hloc hbuffer ⊢
      have hcopy : fuseCopyDirectoryControl fuel 0 r.1 msg sizeofFusentResp (respBuflen msg) =
          fuseCopyDirectoryControl fuel 0 r.1 msg' sizeofFusentResp (respBuflen msg) := by
        refine fuseCopyDirectoryControl_agree (hloc.trans hsp) fun q hq s hs => hlist hdir q hq s ?_
        simp only [dirCopyStart, hbuffer] at hs
        exact hs
      rw [hcopy]
  case isFalse => rfl

/-- The branches of `FuseCopyResponse` behind its search. -/
def answerFound (fuel : Nat) (w : World) (ms : ModuleStruct) (p : Pirp) (msg : Mem) :
    Option (Option Addr × Addr) → Option (World × ModuleStruct × NtStatus)
  | some (prev, cur) => answerOutstanding fuel w ms prev cur p msg
  | none => some (w, ms, statusInvalidDeviceRequest)

theorem fuseCopyResponse_eq {w : World} {ms : ModuleStruct} {sp : IoStackLocation}
    (hsp : irp.currentStackLocation = some sp) :
    fuseCopyResponse fuel w ms irp =
      if sizeofFusentResp ≤ sp.inputBufferLength then
        if ms.outstandingIrpList = none then some (w, ms, statusInvalidDeviceRequest)
        else (findOutstanding w.heap (respPirp irp.systemBuffer) fuel none
          ms.outstandingIrpList).bind
          (answerFound fuel w ms (respPirp irp.systemBuffer) irp.systemBuffer)
      else some (w, ms, statusInvalidBufferSize) := by
  simp only [fuseCopyResponse, hsp, Option.bind_eq_bind, Option.bind_some]
  rfl

/-- `FuseCopyResponse` depends on the bytes of the message that are read, and on
    no others. -/
theorem fuseCopyResponse_agree {w : World} {ms : ModuleStruct} {sp : IoStackLocation} {irp' : Irp}
    (hc : w.strHashC = 0) (hsp : irp.currentStackLocation = some sp)
    (hsp' : irp'.currentStackLocation = some sp)
    (h : ∀ i, ResponseReads w ms irp.systemBuffer sp.inputBufferLength i →
      irp.systemBuffer i = irp'.systemBuffer i) :
    fuseCopyResponse fuel w ms irp = fuseCopyResponse fuel w ms irp' := by
  rw [fuseCopyResponse_eq hsp, fuseCopyResponse_eq hsp']
  split
  case isFalse => rfl
  case isTrue hwhole =>
  split
  case isTrue => rfl
  case isFalse =>
  have hagree : AgreeOn [(0, 8)] irp.systemBuffer irp'.systemBuffer :=
    fun i hi => h i (.pirp hwhole hi)
  have hpirp : respPirp irp.systemBuffer = respPirp irp'.systemBuffer := by
    unfold respPirp
    rw [hagree.readLe (List.mem_singleton_self _)]
  rw [← hpirp]
  refine Option.bind_congr fun found hfind => ?_
  cases found with
  | none => rfl
  | some pc =>
      obtain ⟨prev, cur⟩ := pc
      simp only [answerFound, answerOutstanding]
      split
      case isTrue => rfl
      case isFalse hlive =>
      refine Option.bind_congr fun usp hloc => ?_
      have hans : AnswersAt w ms irp.systemBuffer usp :=
        ⟨⟨fuel, prev, cur, hfind⟩, Bool.eq_false_iff.mpr hlive, hloc⟩
      have hfill : fillResponse fuel 0 w.files (w.irps (respPirp irp.systemBuffer)) usp
          irp.systemBuffer = fillResponse fuel 0 w.files (w.irps (respPirp irp.systemBuffer)) usp
          irp'.systemBuffer :=
        fillResponse_agree hloc (fun i hi => h i (.answer hwhole hans hi))
          fun hm q hq s hs i hi => h i (.listing hwhole hans hm hq hs hi)
      rw [hc, hfill]

end Agreement

-- ============================================================================
-- The condition
-- ============================================================================

/-- The payload that is read of a message of `len` bytes is there: the data of a
    read that is not longer than asked for, the fields of a query that are
    filled in, and the records of a listing that the driver comes to. -/
structure AnswerFits (usp : IoStackLocation) (msg : Mem) (len : Nat) : Prop where
  read : ntSuccess (UInt32.ofNat (msg.readLe respStatusOffset 4)) = true →
    usp.majorFunction = irpMjRead → respBuflen msg ≤ usp.readLength →
    respParamsOffset + 4 + respBuflen msg ≤ len
  basic : usp.majorFunction = irpMjQueryInformation →
    sizeofFusentFileInformation ≤ respBuflen msg → FillsBasic usp → sizeofFusentResp + 36 ≤ len
  standard : usp.majorFunction = irpMjQueryInformation →
    sizeofFusentFileInformation ≤ respBuflen msg → FillsStandard usp → sizeofFusentResp + 62 ≤ len
  listing : usp.majorFunction = irpMjDirectoryControl → ∀ q,
    DirQuery.ofCode usp.queryDirectoryClass = some q → ∀ c,
    DirCursor.Reaches q msg
      (dirCursorStart (toLong usp.queryDirectoryLength) (respBuflen msg)) c → c.ReadsOk q msg len

section Fits

variable {w : World} {ms : ModuleStruct} {usp : IoStackLocation} {msg : Mem} {len : Nat}

theorem below_informationReads :
    Below (informationReads usp sizeofFusentResp) len ↔
      (FillsBasic usp → sizeofFusentResp + 36 ≤ len) ∧
        (FillsStandard usp → sizeofFusentResp + 62 ≤ len) := by
  have hbasic : Below (basicInfoReads sizeofFusentResp) len ↔ sizeofFusentResp + 36 ≤ len := by
    simp only [basicInfoReads, below_cons, below_nil, and_true]
    omega
  have hstandard : Below (standardInfoReads sizeofFusentResp) len ↔
      sizeofFusentResp + 62 ≤ len := by
    simp only [standardInfoReads, below_cons, below_nil, and_true]
    omega
  rw [informationReads, below_append]
  refine and_congr ?_ ?_
  · split
    case isTrue h => exact hbasic.trans (imp_iff_right h).symm
    case isFalse h => exact iff_of_true below_nil fun h' => absurd h' h
  · split
    case isTrue h => exact hstandard.trans (imp_iff_right h).symm
    case isFalse h => exact iff_of_true below_nil fun h' => absurd h' h

theorem below_answerReads (hlen : sizeofFusentResp ≤ len) :
    Below (answerReads usp msg) len ↔
      (ntSuccess (UInt32.ofNat (msg.readLe respStatusOffset 4)) = true →
        usp.majorFunction = irpMjRead → respBuflen msg ≤ usp.readLength →
        respParamsOffset + 4 + respBuflen msg ≤ len) ∧
      (usp.majorFunction = irpMjQueryInformation →
        sizeofFusentFileInformation ≤ respBuflen msg →
        (FillsBasic usp → sizeofFusentResp + 36 ≤ len) ∧
          (FillsStandard usp → sizeofFusentResp + 62 ≤ len)) := by
  have hhead : Below ([(respStatusOffset, 4), (respErrorOffset, 4)] ++
      if ReadsParams usp msg then [(respParamsOffset, 4)] else []) len := by
    unfold sizeofFusentResp at hlen
    refine below_append.mpr ⟨?_, ?_⟩
    · simp only [below_cons, below_nil, and_true, respStatusOffset, respErrorOffset]
      omega
    · split
      case isTrue =>
          simp only [below_cons, below_nil, and_true, respParamsOffset]
          omega
      case isFalse => exact below_nil
  have hdata : Below (if ntSuccess (UInt32.ofNat (msg.readLe respStatusOffset 4)) = true ∧
      usp.majorFunction = irpMjRead ∧ respBuflen msg ≤ usp.readLength then
      [(respParamsOffset + 4, respBuflen msg)] else []) len ↔
      (ntSuccess (UInt32.ofNat (msg.readLe respStatusOffset 4)) = true →
        usp.majorFunction = irpMjRead → respBuflen msg ≤ usp.readLength →
        respParamsOffset + 4 + respBuflen msg ≤ len) := by
    split
    case isTrue h =>
        unfold sizeofFusentResp at hlen
        simp only [below_cons, below_nil, and_true, h.1, h.2.1, h.2.2, true_implies,
          respParamsOffset]
        omega
    case isFalse h => exact iff_of_true below_nil fun h₁ h₂ h₃ => absurd ⟨h₁, h₂, h₃⟩ h
  have hquery : Below (if usp.majorFunction = irpMjQueryInformation ∧
      sizeofFusentFileInformation ≤ respBuflen msg then informationReads usp sizeofFusentResp
      else []) len ↔
      (usp.majorFunction = irpMjQueryInformation → sizeofFusentFileInformation ≤ respBuflen msg →
        (FillsBasic usp → sizeofFusentResp + 36 ≤ len) ∧
          (FillsStandard usp → sizeofFusentResp + 62 ≤ len)) := by
    split
    case isTrue h =>
        rw [below_informationReads]
        exact ⟨fun h' _ _ => h', fun h' => h' h.1 h.2⟩
    case isFalse h => exact iff_of_true below_nil fun h₁ h₂ => absurd ⟨h₁, h₂⟩ h
  rw [answerReads, below_append, below_append, and_iff_right hhead, hdata, hquery]

/-- What is read of a message stays below its length exactly if the payload
    that is read is there. -/
theorem response_within_message (w : World) (ms : ModuleStruct) (msg : Mem) (len : Nat) :
    (∀ i, ResponseReads w ms msg len i → i < len) ↔
      (sizeofFusentResp ≤ len → ∀ usp, AnswersAt w ms msg usp → AnswerFits usp msg len) := by
  constructor
  · intro h hlen usp hans
    obtain ⟨hread, hquery⟩ := (below_answerReads hlen).mp fun i hi => h i (.answer hlen hans hi)
    refine ⟨hread, fun hm hb => (hquery hm hb).1, fun hm hb => (hquery hm hb).2,
      fun hm q hq => ?_⟩
    exact (dirCopyStart_reads_iff ..).mp fun s hs i hi => h i (.listing hlen hans hm hq hs hi)
  · rintro h i (⟨hlen, hi⟩ | ⟨hlen, hans, hi⟩ | ⟨hlen, hans, hm, hq, hs, hi⟩)
    · have hpirp : Below [(0, 8)] len := by
        unfold sizeofFusentResp at hlen
        simp only [below_cons, below_nil, and_true]
        omega
      exact hpirp i hi
    · have hfits := h hlen _ hans
      exact (below_answerReads hlen).mpr ⟨hfits.read, fun hm hb =>
        ⟨hfits.basic hm hb, hfits.standard hm hb⟩⟩ i hi
    · have hfits := (h hlen _ hans).listing hm _ hq
      exact (dirCopyStart_reads_iff ..).mpr hfits _ hs i hi

end Fits

/-- A successful response to the packet 1 that announces 16 bytes of data. -/
def sampleShortAnswer : Mem := (Mem.zeros.writeLe 0 8 1).writeLe respParamsOffset 4 16

/-- The header of a response without data answers a read of 16 bytes: what
    follows the message in memory is copied to the application. -/
theorem response_beyond_message :
    ∃ i, ResponseReads oneOutstanding.1 oneOutstanding.2 sampleShortAnswer sizeofFusentResp i ∧
      ¬ i < sizeofFusentResp := by
  have hans : AnswersAt oneOutstanding.1 oneOutstanding.2 sampleShortAnswer
      { (default : IoStackLocation) with majorFunction := irpMjRead, arg0 := 16 } :=
    ⟨⟨2, none, 101, rfl⟩, rfl, rfl⟩
  refine ⟨32, .answer (Nat.le_refl _) hans ⟨(28, 16), ?_, by decide, by decide⟩, by decide⟩
  decide

end FuseNt
