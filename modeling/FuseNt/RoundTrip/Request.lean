/-
  FuseNt.RoundTrip.Request

  Requests from the driver to the module library: what `FuseCheckForWork`
  copies into a module's buffer, and what the library's decoders find there.

  The header, the packet and its stack locations are laid out alike on both
  sides.  For a create request the trailer is too: `create_roundTrip`.  For a
  write request the driver takes the data from the system buffer, which the
  I/O manager does not give it, and puts the length and the data behind the area
  it reserved for them, while the library reads them from that area, so that the
  decoder sees what the module's buffer held before: `write_roundTrip_iff`.
-/

import FuseNt.Driver.Io

namespace FuseNt

open FuseNt.Lib

-- ============================================================================
-- What a delivery copies
-- ============================================================================

/-- The module packet `m` received the request for `u`: the copies `ws` were
    made into its buffer, and the size was reported. -/
structure Copied (w w' : World) (u m : Pirp) (usp : IoStackLocation)
    (ws : List (Nat × List UInt8)) : Prop where
  userSp : (w.irps u).currentStackLocation = some usp
  copies : requestWrites w.files u (w.irps u) usp = some ws
  buffer : (w'.irps m).systemBuffer = (w.irps m).systemBuffer.writes ws
  information : (w'.irps m).ioStatus.information =
    UInt64.ofNat (reqSize w.files (w.irps u) usp)

/-- The world after `deliver`, as far as the packets and the history go. -/
theorem deliver_copied {w w' : World} {ms ms' : ModuleStruct} {ue : Addr} {uc : Cell Pirp}
    {usp : IoStackLocation} {m : Pirp} (husp : (w.irps uc.val).currentStackLocation = some usp)
    (hd : deliver w ms ue uc usp m = some (w', ms')) :
    w'.log = w.log ++ [.delivered uc.val m] ∧ ∃ ws, Copied w w' uc.val m usp ws := by
  obtain ⟨ws, hws, -⟩ := Option.bind_eq_some_iff.mp hd
  simp only [deliver, hws, Option.bind_eq_bind, Option.bind_some] at hd
  split at hd
  · obtain ⟨heap, -, hd⟩ := Option.bind_eq_some_iff.mp hd
    obtain ⟨rfl, -⟩ := by simpa using hd
    exact ⟨rfl, ws, husp, hws, by simp [World.record, World.setIrp],
      by simp [World.record, World.setIrp]⟩
  · obtain ⟨rfl, -⟩ := by simpa using hd
    exact ⟨rfl, ws, husp, hws, by simp [World.record, World.setIrp],
      by simp [World.record, World.setIrp]⟩

/-- Completing the module packet changes neither packets nor earlier history. -/
theorem finishModuleIrp_world {w w' : World} {ms ms' : ModuleStruct} {me : Addr} {m : Pirp}
    (hf : finishModuleIrp w ms me m = some (w', ms')) :
    w'.irps = w.irps ∧ w'.log = w.log ++ [.completed m] := by
  obtain ⟨mc, -, hf⟩ := Option.bind_eq_some_iff.mp hf
  obtain ⟨rfl, -⟩ := by simpa using hf
  exact ⟨rfl, rfl⟩

/-- A round that delivers `u` to `m` copies the request for `u` to `m`, and
    completes `m`. -/
theorem pairHead_copied {w w' : World} {ms ms' : ModuleStruct} {u m : Pirp}
    (hp : pairHead w ms = some (w', ms'))
    (hlog : .delivered u m ∈ w'.log.drop w.log.length) :
    w'.log = w.log ++ [.delivered u m, .completed m] ∧ ∃ usp ws, Copied w w' u m usp ws := by
  obtain ⟨me, -, hp⟩ := Option.bind_eq_some_iff.mp hp
  obtain ⟨ue, -, hp⟩ := Option.bind_eq_some_iff.mp hp
  obtain ⟨mc, -, hp⟩ := Option.bind_eq_some_iff.mp hp
  obtain ⟨uc, -, hp⟩ := Option.bind_eq_some_iff.mp hp
  split at hp
  · obtain ⟨rfl, -⟩ := by simpa using hp
    simp at hlog
  split at hp
  · obtain ⟨rfl, -⟩ := by simpa using hp
    simp at hlog
  cases husp : (w.irps uc.val).currentStackLocation with
  | none =>
      simp only [husp] at hp
      obtain ⟨rfl, -⟩ := by simpa using hp
      simp at hlog
  | some usp =>
      simp only [husp] at hp
      obtain ⟨msp, -, hp⟩ := Option.bind_eq_some_iff.mp hp
      split at hp
      · obtain ⟨⟨w₁, ms₁⟩, hd, hf⟩ := Option.bind_eq_some_iff.mp hp
        obtain ⟨hlog₁, ws, hcopy⟩ := deliver_copied husp hd
        obtain ⟨hirps, hlog₂⟩ := finishModuleIrp_world hf
        obtain ⟨rfl, rfl⟩ : u = uc.val ∧ m = mc.val := by
          simpa [hlog₂, hlog₁] using hlog
        exact ⟨by simp [hlog₂, hlog₁], usp, ws, hcopy.userSp, hcopy.copies, hirps ▸ hcopy.buffer,
          hirps ▸ hcopy.information⟩
      · obtain ⟨-, hlog₂⟩ := finishModuleIrp_world hp
        simp [hlog₂] at hlog

/-- `u` and `m` are at the heads of the two queues. -/
def AtHeads (w : World) (ms : ModuleStruct) (u m : Pirp) : Prop :=
  (∃ ue next, ms.userspaceIrpList = some ue ∧ w.heap ue = some ⟨u, next⟩) ∧
    ∃ me next, ms.moduleIrpList = some me ∧ w.heap me = some ⟨m, next⟩

/-- A round delivers a request that fits, if neither packet is cancelled. -/
theorem pairHead_delivers {w w' : World} {ms ms' : ModuleStruct} {u m : Pirp}
    {usp msp : IoStackLocation} (hheads : AtHeads w ms u m) (hcu : (w.irps u).cancel = false)
    (hcm : (w.irps m).cancel = false) (husp : (w.irps u).currentStackLocation = some usp)
    (hmsp : (w.irps m).currentStackLocation = some msp)
    (hfit : reqSize w.files (w.irps u) usp ≤ msp.outputBufferLength)
    (hp : pairHead w ms = some (w', ms')) :
    w'.log = w.log ++ [.delivered u m, .completed m] ∧ ∃ ws, Copied w w' u m usp ws := by
  obtain ⟨⟨ue, un, hu, huc⟩, me, mn, hm, hmc⟩ := hheads
  simp only [pairHead, hu, hm, huc, hmc, hcu, hcm, husp, hmsp, hfit, Option.bind_eq_bind,
    Option.bind_some, Bool.false_eq_true, if_false, if_true] at hp
  obtain ⟨⟨w₁, ms₁⟩, hd, hf⟩ := Option.bind_eq_some_iff.mp hp
  obtain ⟨hlog₁, ws, hcopy⟩ := deliver_copied husp hd
  obtain ⟨hirps, hlog₂⟩ := finishModuleIrp_world hf
  exact ⟨by simp [hlog₂, hlog₁], ws, hcopy.userSp, hcopy.copies, hirps ▸ hcopy.buffer,
    hirps ▸ hcopy.information⟩

-- ============================================================================
-- The header
-- ============================================================================

/-- The copies every request starts with. -/
def headerWrites (p : Pirp) (irp : Irp) (sp : IoStackLocation) : List (Nat × List UInt8) :=
  [(0, leBytes 8 p.toNat), (8, leBytes 8 sp.fileObject.toNat),
    (fusentReqIrpOffset, irp.toBytes), (sizeofFusentReq, irp.stackBytes)]

/-- What the header of a request holds: the addresses of the packet and of its
    file object, the packet, and its stack locations. -/
structure ReqHeader (req : Mem) (p : Pirp) (irp : Irp) (sp : IoStackLocation) : Prop where
  pirp : req.readLe 0 8 = p.toNat
  fop : req.readLe 8 8 = sp.fileObject.toNat
  packet : req.read fusentReqIrpOffset sizeofIrp = irp.toBytes
  iostack : req.read sizeofFusentReq (irp.stackCount.toNat * sizeofIoStackLocation) =
    irp.stackBytes

section Header

/-- Copies behind the stack locations leave the header alone. -/
theorem reqHeader_writes (m : Mem) (p : Pirp) (irp : Irp) (sp : IoStackLocation)
    {ws : List (Nat × List UInt8)} (h : ∀ x ∈ ws, reqTrailer irp ≤ x.1) :
    ReqHeader (m.writes (headerWrites p irp sp ++ ws)) p irp sp := by
  have hoff : fusentReqIrpOffset = 16 := rfl
  have hreq : sizeofFusentReq = 224 := rfl
  have hirp : sizeofIrp = 208 := rfl
  have hlater : ∀ off n, off + n ≤ reqTrailer irp →
      ∀ x ∈ ws, off + n ≤ x.1 ∨ x.1 + x.2.length ≤ off :=
    fun off n hn x hx => Or.inl (le_trans hn (h x hx))
  have htrailer : 224 ≤ reqTrailer irp := by
    unfold reqTrailer
    omega
  constructor
  · have hread := Mem.read_writes_mem m [] ((8, leBytes 8 sp.fileObject.toNat) ::
      (fusentReqIrpOffset, irp.toBytes) :: (sizeofFusentReq, irp.stackBytes) :: ws) 0
      (leBytes 8 p.toNat) (by
        simp only [List.mem_cons, length_leBytes]
        rintro x (rfl | rfl | rfl | hx)
        · simp
        · simp [hoff]
        · simp [hreq]
        · exact hlater 0 8 (by omega) x hx)
    rw [length_leBytes] at hread
    rw [Mem.readLe]
    exact (congrArg leNat hread).trans (leNat_leBytes_of_lt p.toNat_lt)
  · have hread := Mem.read_writes_mem m [(0, leBytes 8 p.toNat)]
      ((fusentReqIrpOffset, irp.toBytes) :: (sizeofFusentReq, irp.stackBytes) :: ws) 8
      (leBytes 8 sp.fileObject.toNat) (by
        simp only [List.mem_cons, length_leBytes]
        rintro x (rfl | rfl | hx)
        · simp [hoff]
        · simp [hreq]
        · exact hlater 8 8 (by omega) x hx)
    rw [length_leBytes] at hread
    rw [Mem.readLe]
    exact (congrArg leNat hread).trans (leNat_leBytes_of_lt sp.fileObject.toNat_lt)
  · have hread := Mem.read_writes_mem m
      [(0, leBytes 8 p.toNat), (8, leBytes 8 sp.fileObject.toNat)]
      ((sizeofFusentReq, irp.stackBytes) :: ws) fusentReqIrpOffset irp.toBytes (by
        simp only [List.mem_cons, Irp.length_toBytes, hoff, hirp]
        rintro x (rfl | hx)
        · simp [hreq]
        · exact hlater 16 208 (by omega) x hx)
    rwa [Irp.length_toBytes] at hread
  · have hread := Mem.read_writes_mem m
      [(0, leBytes 8 p.toNat), (8, leBytes 8 sp.fileObject.toNat),
        (fusentReqIrpOffset, irp.toBytes)] ws sizeofFusentReq irp.stackBytes (by
        intro x hx
        rw [Irp.length_stackBytes]
        exact hlater _ _ (le_refl _) x hx)
    rwa [Irp.length_stackBytes] at hread

variable {p : Pirp} {irp : Irp} {sp : IoStackLocation}

/-- One byte of a range that was read. -/
theorem byte_of_read {req : Mem} {off n i : Nat} {bs : List UInt8} {b : UInt8}
    (h : req.read off n = bs) (hb : bs[i]? = some b) : req (off + i) = b := by
  subst h
  obtain ⟨hi, rfl⟩ := List.getElem?_eq_some_iff.mp hb
  exact (Mem.getElem_read req off n i hi).symm

/-- The library finds the trailer where the driver put it. -/
theorem ReqHeader.trailer {req : Mem} (h : ReqHeader req p irp sp) :
    reqTrailerOffset req = reqTrailer irp := by
  unfold reqTrailerOffset reqTrailer
  rw [byte_of_read h.packet irp.toBytes_stackCount]

/-- The library finds the current stack location, which NT keeps at the
    1-based index `CurrentLocation` behind the packet. -/
theorem ReqHeader.decodeIrp {req : Mem} (h : ReqHeader req p irp sp)
    (hcur : 1 ≤ irp.currentLocation.toNat)
    (hsp : irp.stack[irp.currentLocation.toNat - 1]? = some sp) :
    (fusentDecodeIrp req).1 = sp.majorFunction ∧
      req.read (fusentDecodeIrp req).2 sizeofIoStackLocation = sp.toBytes := by
  obtain ⟨hi, hget⟩ := List.getElem?_eq_some_iff.mp hsp
  have hloc : (req (fusentReqIrpOffset + irpCurrentLocationOffset)).toNat =
      irp.currentLocation.toNat := by
    rw [byte_of_read h.packet irp.toBytes_currentLocation]
  have hlt : irp.currentLocation.toNat - 1 < irp.stackCount.toNat := by
    rwa [irp.stack_length] at hi
  have hfit : (irp.currentLocation.toNat - 1) * sizeofIoStackLocation + sizeofIoStackLocation ≤
      irp.stackCount.toNat * sizeofIoStackLocation := by
    rw [← Nat.succ_mul]
    exact Nat.mul_le_mul_right _ hlt
  have hread : req.read (sizeofFusentReq +
      (irp.currentLocation.toNat - 1) * sizeofIoStackLocation) sizeofIoStackLocation =
      sp.toBytes := by
    rw [Mem.read_slice h.iostack _ _ hfit, Irp.stackBytes,
      flatten_slice _ _ IoStackLocation.length_toBytes _ _ hi, hget]
  have hoff : sizeofFusentReq + irp.currentLocation.toNat * sizeofIoStackLocation -
      sizeofIoStackLocation =
      sizeofFusentReq + (irp.currentLocation.toNat - 1) * sizeofIoStackLocation := by
    unfold sizeofIoStackLocation
    omega
  simp only [fusentDecodeIrp, hloc, hoff]
  refine ⟨?_, hread⟩
  have hfirst := byte_of_read (i := 0) hread (show sp.toBytes[0]? = some sp.majorFunction from rfl)
  rwa [Nat.add_zero] at hfirst

end Header

-- ============================================================================
-- Create requests
-- ============================================================================

/-- The name-stripping loop stops at the first backslash behind the module
    component, or at the end. -/
theorem requestName_eq {c : Wchar} {comp rest : List Wchar} (hcomp : backslash ∉ comp)
    (hrest : ∀ x ∈ rest.head?, x = backslash) :
    requestName (c :: (comp ++ rest)) = rest := by
  have hall : ∀ x ∈ comp, decide (x ≠ backslash) = true := by
    intro x hx
    have hne : x ≠ backslash := fun h => hcomp (h ▸ hx)
    simpa using hne
  rw [requestName, List.drop_succ_cons, List.drop_zero, List.dropWhile_append_of_pos hall]
  cases rest with
  | nil => rfl
  | cons x rest =>
      have hx : x = backslash := hrest x (by simp)
      simp [hx]

/-- The size of a create request: no field wraps around, since a file name has
    fewer than 2^15 characters. -/
theorem reqSize_create (files : Pfile → UnicodeString) {irp : Irp} (sp : IoStackLocation)
    (hflag : flagOn irp.flags irpCreateOperation = true) :
    requestNameLength (files sp.fileObject).text =
        2 * ((requestName (files sp.fileObject).text).length + 1) ∧
      reqSize files irp sp =
        reqTrailer irp + 4 + 2 * ((requestName (files sp.fileObject).text).length + 1) := by
  have hname : (requestName (files sp.fileObject).text).length ≤
      (files sp.fileObject).text.length := by
    unfold requestName
    exact (List.dropWhile_sublist _).length_le.trans (by simp)
  have hlt := (files sp.fileObject).length_lt
  have hcount := irp.stackCount_lt
  have hlen : requestNameLength (files sp.fileObject).text =
      2 * ((requestName (files sp.fileObject).text).length + 1) := by
    unfold requestNameLength
    omega
  refine ⟨hlen, ?_⟩
  simp only [reqSize, hflag, if_true, hlen, reqTrailer, sizeofFusentReq, fusentReqIrpOffset,
    sizeofIrp, sizeofIoStackLocation]
  omega

/-- A create request that fits is delivered, and the library decodes from the
    module's buffer the current stack location, the packet and its file
    object, and the name behind the module component with its terminator; the
    size reported is exactly what the encoding occupies. -/
theorem create_roundTrip {w w' : World} {ms ms' : ModuleStruct} {u m : Pirp}
    {usp msp : IoStackLocation} {c : Wchar} {comp rest : List Wchar}
    (hheads : AtHeads w ms u m) (hcu : (w.irps u).cancel = false)
    (hcm : (w.irps m).cancel = false) (husp : (w.irps u).currentStackLocation = some usp)
    (hmsp : (w.irps m).currentStackLocation = some msp)
    (hmaj : usp.majorFunction = irpMjCreate)
    (hcur : 1 ≤ (w.irps u).currentLocation.toNat)
    (hstack : (w.irps u).stack[(w.irps u).currentLocation.toNat - 1]? = some usp)
    (hname : (w.files usp.fileObject).text = c :: (comp ++ rest)) (hcomp : backslash ∉ comp)
    (hrest : ∀ x ∈ rest.head?, x = backslash)
    (hflag : flagOn (w.irps u).flags irpCreateOperation = true)
    (hfit : reqTrailer (w.irps u) + 4 + 2 * (rest.length + 1) ≤ msp.outputBufferLength)
    (hp : pairHead w ms = some (w', ms')) :
    .delivered u m ∈ w'.log ∧
    (fusentDecodeIrp (w'.irps m).systemBuffer).1 = usp.majorFunction ∧
    (w'.irps m).systemBuffer.read (fusentDecodeIrp (w'.irps m).systemBuffer).2
      sizeofIoStackLocation = usp.toBytes ∧
    (w'.irps m).systemBuffer.readLe 0 8 = u.toNat ∧
    (w'.irps m).systemBuffer.readLe 8 8 = usp.fileObject.toNat ∧
    (fusentDecodeRequestCreate (w'.irps m).systemBuffer).1 = 2 * (rest.length + 1) ∧
    (w'.irps m).systemBuffer.read (fusentDecodeRequestCreate (w'.irps m).systemBuffer).2
      (2 * (rest.length + 1)) = wcharBytes (rest ++ [0]) ∧
    (w'.irps m).ioStatus.information.toNat =
      (fusentDecodeRequestCreate (w'.irps m).systemBuffer).2 + 2 * (rest.length + 1) := by
  have hreq : requestName (w.files usp.fileObject).text = rest := by
    rw [hname, requestName_eq hcomp hrest]
  obtain ⟨hlen, hsize⟩ := reqSize_create w.files usp hflag
  rw [hreq] at hlen hsize
  obtain ⟨hlog, ws, hcopy⟩ := pairHead_delivers hheads hcu hcm husp hmsp (by omega) hp
  obtain ⟨-, hws, hbuf, hinfo⟩ := hcopy
  have hws' : ws = headerWrites u (w.irps u) usp ++
      [(reqTrailer (w.irps u), leBytes 4 (2 * (rest.length + 1))),
        (reqTrailer (w.irps u) + 4, wcharBytes (rest ++ [0]))] := by
    simpa [requestWrites, hmaj, hflag, hreq, hlen, headerWrites, eq_comm] using hws
  subst hws'
  have hhead : ReqHeader (w'.irps m).systemBuffer u (w.irps u) usp := by
    rw [hbuf]
    exact reqHeader_writes _ _ _ _ (by simp)
  have hfield : (w'.irps m).systemBuffer.read (reqTrailer (w.irps u)) 4 =
      leBytes 4 (2 * (rest.length + 1)) := by
    have hread := Mem.read_writes_mem (w.irps m).systemBuffer (headerWrites u (w.irps u) usp)
      [(reqTrailer (w.irps u) + 4, wcharBytes (rest ++ [0]))] (reqTrailer (w.irps u))
      (leBytes 4 (2 * (rest.length + 1))) (by simp)
    rwa [length_leBytes, ← hbuf] at hread
  have hfname : (w'.irps m).systemBuffer.read (reqTrailer (w.irps u) + 4)
      (2 * (rest.length + 1)) = wcharBytes (rest ++ [0]) := by
    have hread := Mem.read_writes_mem (w.irps m).systemBuffer
      (headerWrites u (w.irps u) usp ++
        [(reqTrailer (w.irps u), leBytes 4 (2 * (rest.length + 1)))])
      [] (reqTrailer (w.irps u) + 4) (wcharBytes (rest ++ [0])) (by simp)
    rw [List.append_assoc, List.cons_append, List.nil_append, ← hbuf] at hread
    simpa using hread
  have hbound : msp.outputBufferLength < 2 ^ 32 := IoStackLocation.ulong_lt _
  obtain ⟨hmajor, hspb⟩ := hhead.decodeIrp hcur hstack
  refine ⟨by simp [hlog], hmajor, hspb, hhead.pirp, hhead.fop, ?_, ?_, ?_⟩
  · rw [fusentDecodeRequestCreate, hhead.trailer]
    show leNat ((w'.irps m).systemBuffer.read (reqTrailer (w.irps u)) 4) = _
    rw [hfield]
    exact leNat_leBytes_of_lt (by omega)
  · rw [fusentDecodeRequestCreate, hhead.trailer]
    exact hfname
  · rw [fusentDecodeRequestCreate, hhead.trailer, hinfo, hsize, UInt64.toNat_ofNat']
    exact Nat.mod_eq_of_lt (by omega)

/-- The packet `u` waits at address 1, and the module packet `sampleModule` at
    address 2; all file objects have the name `name`. -/
def oneWaiting (u : Irp) (name : UnicodeString) : World × ModuleStruct :=
  ({ emptyWorld with
      irps := fun p => if p = 1 then u else sampleModule
      files := fun _ => name
      heap := (Heap.empty.set 101 (some ⟨1, none⟩)).set 102 (some ⟨2, none⟩) },
    { ModuleStruct.zeroed [] 0 with
      userspaceIrpList := some 101, userspaceIrpListEnd := some 101
      moduleIrpList := some 102, moduleIrpListEnd := some 102 })

/-- A create request. -/
def sampleCreate : Irp :=
  { Irp.zeroed.withStackLocation
      { (default : IoStackLocation) with majorFunction := irpMjCreate, fileObject := 5 } with
    flags := irpCreateOperation }

/-- The name "\\m\\f". -/
def sampleName : UnicodeString where
  text := [backslash, 0x6d, backslash, 0x66]
  slack := fun _ => 0
  text_ne_nul := by decide
  length_lt := by decide

/-- Opening "\\m\\f" asks the module m for "\\f". -/
theorem create_roundTrip_sample :
    ∃ w' ms', pairHead (oneWaiting sampleCreate sampleName).1
        (oneWaiting sampleCreate sampleName).2 = some (w', ms') ∧
      (fusentDecodeRequestCreate (w'.irps 2).systemBuffer).1 = 6 ∧
      (w'.irps 2).systemBuffer.read (fusentDecodeRequestCreate (w'.irps 2).systemBuffer).2 6 =
        wcharBytes [backslash, 0x66, 0] := by
  have hheads : AtHeads (oneWaiting sampleCreate sampleName).1
      (oneWaiting sampleCreate sampleName).2 1 2 :=
    ⟨⟨101, none, rfl, rfl⟩, 102, none, rfl, rfl⟩
  have hname : sampleName.text = backslash :: ([0x6d] ++ [backslash, 0x66]) := rfl
  have hp : pairHead (oneWaiting sampleCreate sampleName).1
      (oneWaiting sampleCreate sampleName).2 = some (_, _) := rfl
  obtain ⟨-, -, -, -, -, hlen, hread, -⟩ := create_roundTrip hheads rfl rfl rfl rfl rfl
    (by decide) rfl hname (by decide) (by simp) (by decide) (by decide) hp
  exact ⟨_, _, hp, hlen, hread⟩

-- ============================================================================
-- Write requests
-- ============================================================================

/-- The library decodes the `n` bytes `d` from a write request, all of them
    among the `info` bytes the request is said to have. -/
def WriteDecoded (req : Mem) (info n : Nat) (d : List UInt8) : Prop :=
  (fusentDecodeRequestWrite req).1 = n ∧ req.read (fusentDecodeRequestWrite req).2 n = d ∧
    (fusentDecodeRequestWrite req).2 + n ≤ info

/-- The size computed for the request leaves room for a length and the data
    behind the stack locations: by the write flag, unless the 32-bit sum wraps
    around, or by the name that the create flag reserves room for. -/
def WriteReserved (files : Pfile → UnicodeString) (irp : Irp) (sp : IoStackLocation) : Prop :=
  if flagOn irp.flags irpCreateOperation then
    sp.writeLength ≤ requestNameLength (files sp.fileObject).text
  else
    flagOn irp.flags irpWriteOperation = true ∧ reqTrailer irp + 12 + sp.writeLength < 2 ^ 32

instance (files : Pfile → UnicodeString) (irp : Irp) (sp : IoStackLocation) :
    Decidable (WriteReserved files irp sp) :=
  inferInstanceAs (Decidable (if flagOn irp.flags irpCreateOperation = true then
      sp.writeLength ≤ requestNameLength (files sp.fileObject).text
    else flagOn irp.flags irpWriteOperation = true ∧
      reqTrailer irp + 12 + sp.writeLength < 2 ^ 32))

theorem reqTrailer_le (irp : Irp) : 224 ≤ reqTrailer irp ∧ reqTrailer irp ≤ 9368 := by
  have hcount := irp.stackCount_lt
  simp only [reqTrailer, sizeofFusentReq, fusentReqIrpOffset, sizeofIrp, sizeofIoStackLocation]
  omega

/-- What is reserved, in terms of the size. -/
theorem writeReserved_iff (files : Pfile → UnicodeString) (irp : Irp) (sp : IoStackLocation) :
    WriteReserved files irp sp ↔ reqTrailer irp + 4 + sp.writeLength ≤ reqSize files irp sp := by
  have htrailer := reqTrailer_le irp
  by_cases hc : flagOn irp.flags irpCreateOperation = true
  · obtain ⟨hlen, hsize⟩ := reqSize_create files sp hc
    rw [WriteReserved, if_pos hc, hlen, hsize]
    omega
  · rw [WriteReserved, if_neg hc, reqSize, if_neg hc]
    by_cases hw : flagOn irp.flags irpWriteOperation = true
    · rw [if_pos hw]
      have hn : sp.writeLength < 2 ^ 32 := IoStackLocation.ulong_lt _
      simp only [hw, true_and]
      omega
    · simp only [hw, if_false, Bool.false_eq_true, false_and, false_iff]
      omega

/-- If the size wraps around, it is smaller than the data. -/
theorem reqSize_lt_writeLength {files : Pfile → UnicodeString} {irp : Irp} {sp : IoStackLocation}
    (h : reqSize files irp sp < reqTrailer irp) : reqSize files irp sp < sp.writeLength := by
  have htrailer := reqTrailer_le irp
  by_cases hc : flagOn irp.flags irpCreateOperation = true
  · obtain ⟨-, hsize⟩ := reqSize_create files sp hc
    omega
  · have hn : sp.writeLength < 2 ^ 32 := IoStackLocation.ulong_lt _
    rw [reqSize, if_neg hc] at h ⊢
    split at h
    · rename_i hw
      rw [if_pos hw]
      omega
    · omega

/-- A length and data lie behind each other. -/
theorem read_length_data {req : Mem} {off n : Nat} {d : List UInt8} (hn : n < 2 ^ 32) :
    req.read off (4 + n) = leBytes 4 n ++ d ↔ req.readLe off 4 = n ∧ req.read (off + 4) n = d := by
  rw [Mem.read_add, Mem.readLe]
  constructor
  · intro h
    obtain ⟨h1, h2⟩ := List.append_inj h (by simp)
    rw [h1]
    exact ⟨leNat_leBytes_of_lt (by omega), h2⟩
  · rintro ⟨h1, h2⟩
    have h3 := leBytes_leNat (req.read off 4)
    rw [Mem.length_read, h1] at h3
    rw [← h3, h2]

/-- The data of a write of at least a byte is copied from `SystemBuffer`; here
    that is NULL. -/
def readsNull (irp : Irp) (sp : IoStackLocation) : Bool :=
  sp.majorFunction = irpMjWrite && irp.associatedIrp = 0 && sp.writeLength ≠ 0

/-- A delivery that copies from NULL. -/
def Event.fromNull (w : World) : Event → Bool
  | delivered u _ => (w.irps u).currentStackLocation.any (readsNull (w.irps u))
  | _ => false

/-- A round of the loop in `FuseCheckForWork`, as `pairHead` has it, but for the
    system buffers: `pairHead` reads them as if they were there, and the round
    does not get past a copy from NULL. -/
def pairHeadReading (w : World) (ms : ModuleStruct) : Option (World × ModuleStruct) :=
  (pairHead w ms).filter fun r => !(r.1.log.drop w.log.length).any (Event.fromNull w)

/-- A write packet as the I/O manager makes it for this device, which has
    neither `DO_BUFFERED_IO` nor `DO_DIRECT_IO`: the data is in the buffer of the
    user, and there is no system buffer. -/
structure NeitherIo (irp : Irp) (sp : IoStackLocation) (d : List UInt8) : Prop where
  noSystemBuffer : irp.associatedIrp = 0
  data : irp.userBuffer.read 0 sp.writeLength = d

/-- The round ends, and the module decodes the `n` bytes `d` from its packet. -/
def WriteArrives (w : World) (ms : ModuleStruct) (m : Pirp) (n : Nat) (d : List UInt8) : Prop :=
  ∃ w' ms', pairHeadReading w ms = some (w', ms') ∧
    WriteDecoded (w'.irps m).systemBuffer (w'.irps m).ioStatus.information.toNat n d

/-- The round ends exactly if nothing is read from NULL. -/
theorem pairHeadReading_eq {w w' : World} {ms ms' : ModuleStruct} {u m : Pirp}
    {usp : IoStackLocation} (hp : pairHead w ms = some (w', ms'))
    (hlog : .delivered u m ∈ w'.log.drop w.log.length)
    (husp : (w.irps u).currentStackLocation = some usp) :
    pairHeadReading w ms = if readsNull (w.irps u) usp then none else some (w', ms') := by
  obtain ⟨hlog', -⟩ := pairHead_copied hp hlog
  have hnull : (w'.log.drop w.log.length).any (Event.fromNull w) = readsNull (w.irps u) usp := by
    simp [hlog', Event.fromNull, husp]
  rw [pairHeadReading, hp, Option.filter_some, hnull]
  cases readsNull (w.irps u) usp <;> rfl

/-- What `pairHead` puts into the module's buffer is decoded as the length and
    the data exactly if room was reserved for them and that room held them
    already, before the copy. -/
theorem writeDecoded_iff {w w' : World} {ms ms' : ModuleStruct} {u m : Pirp}
    {usp : IoStackLocation} {d : List UInt8} (hp : pairHead w ms = some (w', ms'))
    (hlog : .delivered u m ∈ w'.log.drop w.log.length)
    (husp : (w.irps u).currentStackLocation = some usp)
    (hmaj : usp.majorFunction = irpMjWrite) :
    WriteDecoded (w'.irps m).systemBuffer (w'.irps m).ioStatus.information.toNat usp.writeLength
        d ↔
      WriteReserved w.files (w.irps u) usp ∧
        (w.irps m).systemBuffer.read (reqTrailer (w.irps u)) (4 + usp.writeLength) =
          leBytes 4 usp.writeLength ++ d := by
  obtain ⟨-, usp', ws, husp', hws, hbuf, hinfo⟩ := pairHead_copied hp hlog
  obtain rfl := Option.some.inj (husp.symm.trans husp')
  have hsize := reqSize_lt w.files (w.irps u) usp
  have hn : usp.writeLength < 2 ^ 32 := IoStackLocation.ulong_lt _
  have hinfo' : (w'.irps m).ioStatus.information.toNat = reqSize w.files (w.irps u) usp := by
    rw [hinfo, UInt64.toNat_ofNat']
    exact Nat.mod_eq_of_lt (by omega)
  have hws' : ws = headerWrites u (w.irps u) usp ++
      [(reqSize w.files (w.irps u) usp, leBytes 4 usp.writeLength),
        (reqSize w.files (w.irps u) usp + 4,
          (w.irps u).systemBuffer.read 0 usp.writeLength)] := by
    have hnc : (irpMjWrite = irpMjCreate) = False := by decide
    simpa [requestWrites, hmaj, hnc, headerWrites, eq_comm] using hws
  subst hws'
  rw [writeReserved_iff, hinfo']
  by_cases hR : reqTrailer (w.irps u) ≤ reqSize w.files (w.irps u) usp
  · have hhead : ReqHeader (w'.irps m).systemBuffer u (w.irps u) usp := by
      rw [hbuf]
      refine reqHeader_writes _ _ _ _ ?_
      simp
      omega
    simp only [WriteDecoded, fusentDecodeRequestWrite, hhead.trailer]
    rw [← and_assoc, ← read_length_data hn, and_comm]
    refine and_congr_right fun hroom => ?_
    -- the copies are behind the room
    have hold : (w'.irps m).systemBuffer.read (reqTrailer (w.irps u)) (4 + usp.writeLength) =
        (w.irps m).systemBuffer.read (reqTrailer (w.irps u)) (4 + usp.writeLength) := by
      rw [hbuf]
      refine Mem.read_writes_disjoint _ _ _ _ ?_
      have hirp : sizeofFusentReq + (w.irps u).stackCount.toNat * sizeofIoStackLocation =
          reqTrailer (w.irps u) := rfl
      have htrailer := reqTrailer_le (w.irps u)
      simp only [headerWrites, List.cons_append, List.nil_append, List.mem_cons,
        List.not_mem_nil, or_false]
      rintro x (rfl | rfl | rfl | rfl | rfl | rfl)
      · right; simp; omega
      · right; simp; omega
      · right
        simp [fusentReqIrpOffset, sizeofIrp]
        omega
      · right
        simp only [Irp.length_stackBytes]
        omega
      · left; simp; omega
      · left; simp; omega
    rw [hold]
  · -- the size wrapped around: the data cannot lie within it
    have hlt := reqSize_lt_writeLength (Nat.lt_of_not_le hR)
    constructor
    · rintro ⟨-, -, hle⟩
      omega
    · rintro ⟨hroom, -⟩
      omega

/-- A write request arrives exactly if there is a system buffer to read or
    nothing to read from it, room was reserved for the length and the data, and
    that room held them already.  The writes that the I/O manager makes for this
    device, and that `FuseFsdWrite` queues, never do. -/
theorem write_roundTrip_iff {w w' : World} {ms ms' : ModuleStruct} {u m : Pirp}
    {usp : IoStackLocation} (hp : pairHead w ms = some (w', ms'))
    (hlog : .delivered u m ∈ w'.log.drop w.log.length)
    (husp : (w.irps u).currentStackLocation = some usp)
    (hmaj : usp.majorFunction = irpMjWrite) (d : List UInt8) :
    (WriteArrives w ms m usp.writeLength d ↔
      ((w.irps u).associatedIrp ≠ 0 ∨ usp.writeLength = 0) ∧
        WriteReserved w.files (w.irps u) usp ∧
        (w.irps m).systemBuffer.read (reqTrailer (w.irps u)) (4 + usp.writeLength) =
          leBytes 4 usp.writeLength ++ d) ∧
      (NeitherIo (w.irps u) usp d → usp.writeLength ≠ 0 →
        ¬ WriteArrives w ms m usp.writeLength d) := by
  have hround := pairHeadReading_eq hp hlog husp
  have hiff : WriteArrives w ms m usp.writeLength d ↔
      ((w.irps u).associatedIrp ≠ 0 ∨ usp.writeLength = 0) ∧
        WriteReserved w.files (w.irps u) usp ∧
        (w.irps m).systemBuffer.read (reqTrailer (w.irps u)) (4 + usp.writeLength) =
          leBytes 4 usp.writeLength ++ d := by
    rw [← writeDecoded_iff hp hlog husp hmaj, WriteArrives, hround]
    by_cases hbuf : (w.irps u).associatedIrp ≠ 0 ∨ usp.writeLength = 0
    · have hreads : readsNull (w.irps u) usp = false := by
        rcases hbuf with hbuf | hbuf <;> simp [readsNull, hbuf]
      simp [hreads, hbuf]
    · have hreads : readsNull (w.irps u) usp = true := by
        rw [not_or, not_not] at hbuf
        simp [readsNull, hmaj, hbuf]
      simp [hreads, hbuf]
  refine ⟨hiff, fun hio hlen harrives => ?_⟩
  exact (hiff.mp harrives).1.elim (fun h => h hio.noSystemBuffer) hlen

/-- A request to write `n` bytes, each of them 7, as the I/O manager makes it. -/
def sampleWrite (n : UInt64) : Irp :=
  { Irp.zeroed.withStackLocation
      { (default : IoStackLocation) with majorFunction := irpMjWrite, arg0 := n } with
    flags := irpWriteOperation
    userBuffer := fun _ => 7 }

/-- The same request from a caller that allocates a system buffer. -/
def bufferedWrite (n : UInt64) : Irp :=
  { sampleWrite n with associatedIrp := 0x8000, systemBuffer := fun _ => 7 }

/-- Its five bytes are in the module's buffer already. -/
def heldWorld : World :=
  (oneWaiting (bufferedWrite 5) .empty).1.setIrp 2
    { sampleModule with
      systemBuffer := Mem.zeros.write (reqTrailer (bufferedWrite 5))
        (leBytes 4 5 ++ List.replicate 5 7) }

/-- They arrive, if there is a system buffer. -/
theorem write_roundTrip_held :
    WriteArrives heldWorld (oneWaiting (bufferedWrite 5) .empty).2 2 5 (List.replicate 5 7) := by
  have hp : pairHead heldWorld (oneWaiting (bufferedWrite 5) .empty).2 = some (_, _) := rfl
  exact (write_roundTrip_iff (u := 1) (m := 2) hp (by decide) rfl rfl _).1.mpr
    ⟨.inl (by decide), by decide, by decide⟩

/-- A write of one byte does not get to the module, and with a system buffer it
    is not what the module finds. -/
theorem write_roundTrip_lost_byte :
    (NeitherIo (sampleWrite 1) { (default : IoStackLocation) with
        majorFunction := irpMjWrite, arg0 := 1 } [7] ∧
      (∃ w' ms', pairHead (oneWaiting (sampleWrite 1) .empty).1
          (oneWaiting (sampleWrite 1) .empty).2 = some (w', ms') ∧ .delivered 1 2 ∈ w'.log) ∧
      ¬ WriteArrives (oneWaiting (sampleWrite 1) .empty).1 (oneWaiting (sampleWrite 1) .empty).2 2 1
        [7]) ∧
      ¬ WriteArrives (oneWaiting (bufferedWrite 1) .empty).1
        (oneWaiting (bufferedWrite 1) .empty).2 2 1 [7] := by
  refine ⟨⟨⟨rfl, by decide⟩, ⟨_, _, rfl, by decide⟩, ?_⟩, ?_⟩
  · rintro ⟨w', ms', hround, -⟩
    have hnull : pairHeadReading (oneWaiting (sampleWrite 1) .empty).1
        (oneWaiting (sampleWrite 1) .empty).2 = none := rfl
    rw [hnull] at hround
    cases hround
  · rintro ⟨w', ms', hround, hlen, -, -⟩
    have hends : pairHeadReading (oneWaiting (bufferedWrite 1) .empty).1
        (oneWaiting (bufferedWrite 1) .empty).2 = some (_, _) := rfl
    obtain ⟨rfl, -⟩ := Prod.mk.inj (Option.some.inj (hends.symm.trans hround))
    revert hlen
    decide

end FuseNt
