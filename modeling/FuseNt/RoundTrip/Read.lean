/-
  FuseNt.RoundTrip.Read

  Data that a module returns for a read request, from the module library to
  the application's buffer.

  The library puts the data behind the whole response header, 32 bytes into
  the message.  The driver takes it from right behind `params.read.buflen`,
  28 bytes into the message: the application receives the four bytes of
  padding, and loses the last four bytes of the data.  `read_roundTrip_iff`
  says for which data this makes no difference.
-/

import FuseNt.Driver.ReplyRep

namespace FuseNt

open FuseNt.Lib

/-- The response packet `irp` holds the message: its input buffer has the
    message's bytes, and its length. -/
def Carries (irp : Irp) (msg : Message) : Prop :=
  (∃ sp, irp.currentStackLocation = some sp ∧ sp.inputBufferLength = msg.length) ∧
    ∀ i, i < msg.length → irp.systemBuffer i = msg.bytes i

/-- The read request `p` was completed with the data `d`. -/
def ReadDelivered (w w' : World) (p : Pirp) (d : List UInt8) : Prop :=
  w'.log = w.log ++ [.completed p] ∧ (w'.irps p).userBuffer.read 0 d.length = d ∧
    (w'.irps p).ioStatus.information.toNat = d.length

-- ============================================================================
-- The message
-- ============================================================================

section Message

variable (buf : Mem) (p : Pirp) (fop : Pfile) {d : List UInt8}

/-- The length of the message, a `uint32_t`. -/
theorem length_fusentDoReadReply :
    (fusentDoReadReply buf p fop d).length = (d.length + 32) % 2 ^ 32 := by
  simp only [fusentDoReadReply, fusentReplyRead, sizeofFusentResp]
  omega

/-- The header declares the length of the data, and the data is behind it. -/
theorem bytes_fusentDoReadReply (hd : d.length < 2 ^ 32) (hpos : 1 ≤ d.length) :
    (fusentDoReadReply buf p fop d).bytes =
      (fusentFillResp (buf.write sizeofFusentResp d) p fop 0).writeLe respParamsOffset 4
        d.length := by
  have hlen : ((((16 + d.length) % 2 ^ 32 + 2 ^ 64 - 16 + 32) % 2 ^ 32) + 2 ^ 32 - 32) % 2 ^ 32 =
      d.length := by
    omega
  have hne : d.length ≠ 0 := by omega
  simp only [fusentDoReadReply, fusentReplyRead, sizeofFusentResp, hlen, hne, if_false]

variable (hd : d.length < 2 ^ 32) (hpos : 1 ≤ d.length)

include hd hpos

theorem fusentDoReadReply_pirp :
    (fusentDoReadReply buf p fop d).bytes.readLe 0 8 = p.toNat := by
  rw [bytes_fusentDoReadReply buf p fop hd hpos,
    Mem.readLe_writeLe_disjoint _ _ _ _ _ _ (by decide), fusentFillResp_pirp]

theorem fusentDoReadReply_status :
    (fusentDoReadReply buf p fop d).bytes.readLe respStatusOffset 4 = 0 := by
  rw [bytes_fusentDoReadReply buf p fop hd hpos,
    Mem.readLe_writeLe_disjoint _ _ _ _ _ _ (by decide), fusentFillResp_status]
  rfl

theorem fusentDoReadReply_buflen :
    (fusentDoReadReply buf p fop d).bytes.readLe respParamsOffset 4 = d.length := by
  rw [bytes_fusentDoReadReply buf p fop hd hpos, Mem.readLe_writeLe_same]
  exact Nat.mod_eq_of_lt hd

/-- The four bytes between the declared length and the data are zero. -/
theorem fusentDoReadReply_padding {i : Nat} (hi : i < 4) :
    (fusentDoReadReply buf p fop d).bytes (respParamsOffset + 4 + i) = 0 := by
  rw [bytes_fusentDoReadReply buf p fop hd hpos, Mem.writeLe_of_not_mem _ _ _ _ _ (by omega)]
  exact fusentFillResp_params _ _ _ _ (by unfold respParamsOffset sizeofFusentResp; omega)

theorem fusentDoReadReply_data {i : Nat} (hi : i < d.length) :
    (fusentDoReadReply buf p fop d).bytes (sizeofFusentResp + i) = d[i] := by
  rw [bytes_fusentDoReadReply buf p fop hd hpos,
    Mem.writeLe_of_not_mem _ _ _ _ _ (by unfold respParamsOffset sizeofFusentResp; omega),
    fusentFillResp_payload _ _ _ _ (by omega), Mem.write_of_mem _ _ _ _ hi]

end Message

/-- Four zero bytes in front of a string, cut to its length, are the string
    again only if it is all zero. -/
theorem shifted_eq_iff {m : Mem} {off : Nat} {d : List UInt8} (hpad : ∀ i, i < 4 → m (off + i) = 0)
    (hdata : ∀ i (h : i < d.length), m (off + 4 + i) = d[i]) :
    m.read off d.length = d ↔ ∀ b ∈ d, b = 0 := by
  rw [Mem.read_eq_iff]
  constructor
  · intro h
    have hzero : ∀ i (hi : i < d.length), d[i] = 0 := by
      intro i
      induction i using Nat.strongRecOn with
      | ind i ih =>
          intro hi
          rw [← h i hi]
          by_cases h4 : i < 4
          · exact hpad i h4
          · have hprev := hdata (i - 4) (by omega)
            rw [ih (i - 4) (by omega) (by omega)] at hprev
            rwa [show off + 4 + (i - 4) = off + i by omega] at hprev
    intro b hb
    obtain ⟨i, hi, rfl⟩ := List.mem_iff_getElem.mp hb
    exact hzero i hi
  · intro h i hi
    rw [h _ (List.getElem_mem hi)]
    by_cases h4 : i < 4
    · exact hpad i h4
    · have hprev := hdata (i - 4) (by omega)
      rw [h _ (List.getElem_mem _)] at hprev
      rwa [show off + 4 + (i - 4) = off + i by omega] at hprev

-- ============================================================================
-- The driver's side
-- ============================================================================

section Driver

variable {w : World} {ms : ModuleStruct} {O : List Entry} {q : Option Addr} {p : Pirp}
  {usp : IoStackLocation} {buf : Mem} {fop : Pfile} {d : List UInt8} {resp : Irp}

/-- What the driver reads from a packet that carries a reply with data. -/
structure ReadMessage (msg : Mem) (p : Pirp) (d : List UInt8) : Prop where
  pirp : respPirp msg = p
  status : msg.readLe respStatusOffset 4 = 0
  buflen : msg.readLe respParamsOffset 4 = d.length
  padding : ∀ i, i < 4 → msg (respParamsOffset + 4 + i) = 0
  data : ∀ i (h : i < d.length), msg (respParamsOffset + 4 + 4 + i) = d[i]

theorem Carries.readMessage (hresp : Carries resp (fusentDoReadReply buf p fop d))
    (hpos : 1 ≤ d.length) (hd : d.length < 2 ^ 32 - 32) :
    respFits resp ∧ ReadMessage resp.systemBuffer p d := by
  obtain ⟨⟨sp, hsp, hlen⟩, hbytes⟩ := hresp
  rw [length_fusentDoReadReply, Nat.mod_eq_of_lt (by omega)] at hlen hbytes
  have hd32 : d.length < 2 ^ 32 := by omega
  have hle : ∀ off k, off + k ≤ 32 → resp.systemBuffer.readLe off k =
      (fusentDoReadReply buf p fop d).bytes.readLe off k := by
    intro off k hk
    exact Mem.readLe_congr fun i hi => hbytes (off + i) (by omega)
  refine ⟨⟨sp, hsp, by unfold sizeofFusentResp; omega⟩, ?_, ?_, ?_, ?_, ?_⟩
  · rw [respPirp, hle 0 8 (by omega), fusentDoReadReply_pirp buf p fop hd32 hpos]
    simp
  · rw [hle _ _ (by decide), fusentDoReadReply_status buf p fop hd32 hpos]
  · rw [hle _ _ (by decide), fusentDoReadReply_buflen buf p fop hd32 hpos]
  · intro i hi
    rw [hbytes _ (by unfold respParamsOffset; omega)]
    exact fusentDoReadReply_padding buf p fop hd32 hpos hi
  · intro i hi
    rw [hbytes _ (by unfold respParamsOffset; omega)]
    exact fusentDoReadReply_data buf p fop hd32 hpos hi

/-- The packet as the driver fills it in: with the bytes from 28 on. -/
def readFilled (irp : Irp) (msg : Mem) (n : Nat) : Irp :=
  { irp with
    userBuffer := irp.userBuffer.write 0 (msg.read (respParamsOffset + 4) n)
    ioStatus := { irp.ioStatus with status := statusSuccess, information := UInt64.ofNat n } }

theorem ReadMessage.fillResponse {msg : Mem} (hm : ReadMessage msg p d) (fuel : Nat) (c : Wchar)
    (files : Pfile → UnicodeString) (irp : Irp) (hmaj : usp.majorFunction = irpMjRead)
    (hd : d.length ≤ usp.readLength) :
    FuseNt.fillResponse fuel c files irp usp msg =
      some (readFilled irp msg d.length, statusSuccess, c) := by
  have hq : (irpMjRead = irpMjQueryInformation) = False := by decide
  have hdir : (irpMjRead = irpMjDirectoryControl) = False := by decide
  have hok : ntSuccess 0 = true := by decide
  simp [FuseNt.fillResponse, fillReadWrite, hm.status, hm.buflen, hmaj, hd, hq, hdir, hok,
    readFilled, statusSuccess]

/-- The data a read request gets is the data the file system returned exactly
    if the message is not too long for its `uint32_t` length and the data is
    all zero. -/
theorem read_roundTrip_iff (hs : Seg w.heap ms.outstandingIrpList O q) (hp : p ∈ vals O)
    (hlive : (w.irps p).cancel = false) (husp : (w.irps p).currentStackLocation = some usp)
    (hmaj : usp.majorFunction = irpMjRead) (hpos : 1 ≤ d.length)
    (hd : d.length ≤ usp.readLength) (hresp : Carries resp (fusentDoReadReply buf p fop d)) :
    ∃ w' ms' status,
      (∀ fuel, O.length < fuel → fuseCopyResponse fuel w ms resp = some (w', ms', status)) ∧
      (ReadDelivered w w' p d ↔ d.length < 2 ^ 32 - 32 ∧ ∀ b ∈ d, b = 0) := by
  have hd32 : d.length < 2 ^ 32 := lt_of_le_of_lt hd (IoStackLocation.ulong_lt _)
  by_cases hlong : d.length < 2 ^ 32 - 32
  · obtain ⟨hfits, hmsg⟩ := hresp.readMessage hpos hlong
    obtain ⟨h', ms', hans⟩ := fuseCopyResponse_answers hfits hmsg.pirp hs hp hlive husp
    refine ⟨_, ms', statusSuccess, fun fuel hfuel => hans fuel hfuel
      (hmsg.fillResponse fuel _ _ _ hmaj hd), ?_⟩
    have hread : ((w.irps p).userBuffer.write 0
        (resp.systemBuffer.read (respParamsOffset + 4) d.length)).read 0 d.length =
        resp.systemBuffer.read (respParamsOffset + 4) d.length := by
      have hsame := Mem.read_write_same (w.irps p).userBuffer 0
        (resp.systemBuffer.read (respParamsOffset + 4) d.length)
      rwa [Mem.length_read] at hsame
    have hinfo : (UInt64.ofNat d.length).toNat = d.length := by
      rw [UInt64.toNat_ofNat']
      exact Nat.mod_eq_of_lt (by omega)
    rw [← shifted_eq_iff hmsg.padding hmsg.data, and_iff_right hlong]
    simp [ReadDelivered, World.setIrp, readFilled, hread, hinfo]
  · -- the length of the message wraps around, and the driver finds it too short
    obtain ⟨⟨sp, hsp, hlen⟩, -⟩ := hresp
    rw [length_fusentDoReadReply] at hlen
    have hshort : ¬ sizeofFusentResp ≤ sp.inputBufferLength := by
      unfold sizeofFusentResp
      omega
    refine ⟨w, ms, statusInvalidBufferSize, fun fuel _ => ?_, ?_⟩
    · simp [fuseCopyResponse, hsp, hshort]
    · constructor
      · rintro ⟨hlog, -⟩
        simp at hlog
      · rintro ⟨h, -⟩
        exact absurd h hlong

end Driver

/-- A packet at `1` that was handed to the module, to read 16 bytes. -/
def oneOutstanding : World × ModuleStruct :=
  ({ emptyWorld with
      irps := fun _ => sampleRead
      heap := Heap.empty.set 101 (some ⟨1, none⟩) },
    { ModuleStruct.zeroed [] 0 with
      outstandingIrpList := some 101, outstandingIrpListEnd := some 101 })

/-- The packet with which the module returns `d`. -/
def readResponse (d : List UInt8) : Irp :=
  let msg := fusentDoReadReply Mem.zeros 1 0 d
  { Irp.zeroed.withStackLocation
      { (default : IoStackLocation) with
        majorFunction := irpMjFileSystemControl, arg1 := UInt64.ofNat msg.length } with
    systemBuffer := msg.bytes }

/-- Six zero bytes. -/
def zeroBytes : List UInt8 := [0, 0, 0, 0, 0, 0]

/-- Six zero bytes arrive, four of which were padding. -/
theorem read_roundTrip_zero_bytes :
    ∃ w' ms' status, fuseCopyResponse 2 oneOutstanding.1 oneOutstanding.2
      (readResponse zeroBytes) = some (w', ms', status) ∧
        ReadDelivered oneOutstanding.1 w' 1 zeroBytes := by
  obtain ⟨w', ms', status, hcopy, hiff⟩ := read_roundTrip_iff
    (show Seg oneOutstanding.1.heap oneOutstanding.2.outstandingIrpList [(101, 1)] none by decide)
    (show (1 : Pirp) ∈ vals [((101 : Addr), (1 : Pirp))] by decide) rfl rfl rfl
    (show 1 ≤ zeroBytes.length by decide) (by decide)
    (show Carries (readResponse zeroBytes) (fusentDoReadReply Mem.zeros 1 0 zeroBytes) from
      ⟨⟨_, rfl, rfl⟩, fun _ _ => rfl⟩)
  exact ⟨w', ms', status, hcopy 2 (by decide), hiff.mpr ⟨by decide, by simp [zeroBytes]⟩⟩

/-- A byte that is not zero does not arrive. -/
theorem read_roundTrip_lost_byte :
    Carries (readResponse [7]) (fusentDoReadReply Mem.zeros 1 0 [7]) ∧
      ∃ w' ms' status, fuseCopyResponse 2 oneOutstanding.1 oneOutstanding.2 (readResponse [7]) =
        some (w', ms', status) ∧ ¬ ReadDelivered oneOutstanding.1 w' 1 [7] := by
  refine ⟨⟨⟨_, rfl, rfl⟩, fun _ _ => rfl⟩, _, _, _, rfl, ?_⟩
  rintro ⟨-, hdata, -⟩
  revert hdata
  decide

end FuseNt
