/-
  FuseNt.Driver.Impersonation

  Can a live module be impersonated?

  `FuseFsdFileSystemControl` and `FuseCheckUnmountModule` compare the file
  object of a request with the one the module was mounted with, and a lookup
  finds the oldest module of a name.  That keeps other handles away from the
  module, except where the outstanding list of one module runs on into memory
  that another module has by now: a node that was moved to the outstanding
  list keeps its link, and the end pointer of the list may be left at a node
  that was freed.
-/

import FuseNt.Driver.System

namespace FuseNt

open FuseNt.Lib

-- ============================================================================
-- The property and the condition
-- ============================================================================

/-- What a step may do, for every name whose first handle is open. -/
structure Faithful (s : System) (l : SysCall) (s' : System) : Prop where
  /-- Its requests are delivered to packets issued on that handle. -/
  delivered : ∀ name h, s.holder name = .held h → ∀ u m,
    .delivered u m ∈ s'.driver.world.log.drop s.driver.world.log.length →
    s'.route u = some name → s'.issuer m = some h
  /-- They are completed by responses from that handle. -/
  answered : ∀ name h, s.holder name = .held h → ∀ p irp a sp, l = .fsControl p irp a →
    irp.currentStackLocation = some sp → sp.fsControlCode = irpFuseModuleResponse → ∀ u,
    .completed u ∈ s'.driver.world.log.drop s.driver.world.log.length →
    s'.route u = some name → sp.fileObject = h
  /-- The module stays mounted until that handle is closed. -/
  mounted : ∀ name h, s.holder name = .held h → l ≠ .closeFile h → ∃ addr ms ms',
    s.driver.find name = some (addr, ms) ∧ ms.moduleFileObject = h ∧
    s'.driver.find name = some (addr, ms') ∧ ms'.moduleFileObject = h

/-- The condition on a step: a response does not lead the search of the
    outstanding list beyond its end, and a module is dismounted only while its
    outstanding list ends. -/
def SysStepOk (s : System) (l : SysCall) : Prop :=
  match l with
  | .fsControl _ irp _ => ∀ sp addr ms, irp.currentStackLocation = some sp →
      sp.fsControlCode = irpFuseModuleResponse →
      s.driver.find (s.driver.nameOf sp.fileObject) = some (addr, ms) →
      ms.moduleFileObject = sp.fileObject →
      ReplyOk s.driver.world ms (respPirp irp.systemBuffer)
  | .closeFile f => ∀ addr ms, s.driver.find (s.driver.nameOf f) = some (addr, ms) →
      ms.moduleFileObject = f → OutstandingEnds s.driver.world ms
  | _ => True

-- ============================================================================
-- Steps
-- ============================================================================

section Steps

variable {s s' : System} {xs xs' : List Mounted} {n n' : Nat} {l : SysCall}

/-- A lookup between calls. -/
theorem SysInv.find_eq {pre post : List Mounted} {x : Mounted} {name : List Wchar}
    (hi : SysInv s xs n) (hn : n < hmapPresetSize) (hx : FirstNamed xs name pre x post) :
    s.driver.find name = some (x.addr, x.ms) := by
  obtain ⟨found, hget⟩ := hmapGet_isSome hi.fleet.static hi.registered hn name
  obtain ⟨-, ⟨-, hnone⟩ | ⟨pre', y, post', rfl, hy, hms⟩⟩ := hi.lookup hget
  · simp [hx.registrationOf_eq] at hnone
  · have hsame : y.registration = x.registration :=
      Option.some.inj (hy.registrationOf_eq.symm.trans hx.registrationOf_eq)
    have haddr : y.addr = x.addr := congrArg (fun r => r.2.1) hsame
    have hxms := hi.fleet.stored x (by rw [hx.split]; simp)
    simp only [Driver.find, hget, Option.bind_eq_bind, Option.bind_some, haddr, hxms]

theorem SysInv.find_of_registration {name : List Wchar} {a : Addr} {h : Pfile}
    (hi : SysInv s xs n) (hn : n < hmapPresetSize)
    (hreg : registrationOf xs name = some (name, a, h)) :
    ∃ ms, s.driver.find name = some (a, ms) ∧ ms.moduleFileObject = h := by
  obtain ⟨found, hget⟩ := hmapGet_isSome hi.fleet.static hi.registered hn name
  obtain ⟨-, ⟨-, hnone⟩ | ⟨pre, x, post, -, hx, -⟩⟩ := hi.lookup hget
  · simp [hreg] at hnone
  · obtain ⟨-, rfl, rfl⟩ : x.registration = (name, a, h) ∧ x.addr = a ∧
        x.ms.moduleFileObject = h := by
      have := Option.some.inj (hx.registrationOf_eq.symm.trans hreg)
      exact ⟨this, congrArg (fun r => r.2.1) this, congrArg (fun r => r.2.2) this⟩
    exact ⟨x.ms, hi.find_eq hn hx, rfl⟩

/-- A step is faithful if deliveries are between packets of the oldest module
    of a name, responses complete packets of their handle's module, and the
    lookup of a name does not change while its holder is open. -/
theorem SysInv.faithful (hi : SysInv s xs n) (hi' : SysInv s' xs' n') (hn : n < hmapPresetSize)
    (hn' : n' < hmapPresetSize)
    (hlog : ∃ evs, s'.driver.world.log = s.driver.world.log ++ evs ∧ ∀ u m,
      .delivered u m ∈ evs →
        ∃ r, registrationOf xs r.1 = some r ∧ s'.route u = some r.1 ∧ s'.issuer m = some r.2.2)
    (hans : ∀ p irp a sp, l = .fsControl p irp a → irp.currentStackLocation = some sp →
      sp.fsControlCode = irpFuseModuleResponse → ∀ u name,
      .completed u ∈ s'.driver.world.log.drop s.driver.world.log.length →
      s'.route u = some name → ∃ addr, registrationOf xs name = some (name, addr, sp.fileObject))
    (hreg : ∀ name h, s.holder name = .held h → l ≠ .closeFile h →
      registrationOf xs' name = registrationOf xs name) : Faithful s l s' := by
  have hheld : ∀ name h, s.holder name = .held h →
      ∃ a, registrationOf xs name = some (name, a, h) := by
    intro name h hname
    have := hi.holders name
    rwa [hname] at this
  refine ⟨?_, ?_, ?_⟩
  · intro name h hname u m hd hu
    obtain ⟨evs, hlog, hall⟩ := hlog
    rw [hlog, List.drop_left] at hd
    obtain ⟨⟨k, b, f⟩, hr, hru, hrm⟩ := hall u m hd
    obtain rfl : k = name := Option.some.inj (hru.symm.trans hu)
    obtain ⟨a, ha⟩ := hheld _ h hname
    obtain ⟨-, -, rfl⟩ : k = k ∧ b = a ∧ f = h := by simpa [ha, eq_comm] using hr
    exact hrm
  · intro name h hname p irp a sp hl hsp hcode u hu hroute
    obtain ⟨addr, hr⟩ := hans p irp a sp hl hsp hcode u name hu hroute
    obtain ⟨b, hb⟩ := hheld name h hname
    obtain ⟨-, hf⟩ : addr = b ∧ sp.fileObject = h := by simpa [hr] using hb
    exact hf
  · intro name h hname hl
    obtain ⟨a, ha⟩ := hheld name h hname
    obtain ⟨ms, hfind, hms⟩ := hi.find_of_registration hn ha
    obtain ⟨ms', hfind', hms'⟩ := hi'.find_of_registration hn' ((hreg name h hname hl).trans ha)
    exact ⟨a, ms, ms', hfind, hms, hfind', hms'⟩

/-- A call after which the same modules are mounted. -/
theorem SysInv.faithful_of_kept {s₁ : System} {d : Driver} (hi : SysInv s xs n)
    (hn : n < hmapPresetSize) (hk : Kept s₁ xs n d)
    (hlog : s₁.driver.world.log = s.driver.world.log) (hroute : s'.route = s₁.route)
    (hissuer : s'.issuer = s₁.issuer) (hd : s'.driver = d) (hholder : s'.holder = s₁.holder)
    (hans : ∀ p irp a sp, l = .fsControl p irp a → irp.currentStackLocation = some sp →
      sp.fsControlCode = irpFuseModuleResponse → ∀ u name,
      .completed u ∈ d.world.log.drop s₁.driver.world.log.length →
      s₁.route u = some name → ∃ addr, registrationOf xs name = some (name, addr, sp.fileObject)) :
    ∃ xs', SysInv s' xs' n ∧ Faithful s l s' := by
  obtain ⟨⟨xs', hi', hmap⟩, hlog'⟩ := hk
  subst hd
  have hi' : SysInv s' xs' n :=
    ⟨hi'.fleet, hi'.registered, hroute ▸ hi'.routed, hissuer ▸ hi'.issued, hholder ▸ hi'.holders⟩
  refine ⟨xs', hi', hi.faithful hi' hn hn ?_ ?_ fun name h _ _ => by rw [registrationOf, hmap]; rfl⟩
  · rw [hroute, hissuer, ← hlog]
    exact hlog'
  · rw [hroute, ← hlog]
    exact hans

/-- An open or a cancel. -/
theorem irrelevant_faithful (hi : SysInv s xs n) (hn : n < hmapPresetSize) (irps : Pirp → Irp)
    (files : Pfile → UnicodeString) (opened : List Pfile) (hl : ∀ p irp a, l ≠ .fsControl p irp a)
    (hs' : s' = { s with
      driver := { s.driver with world := { s.driver.world with irps := irps, files := files } }
      opened := opened }) :
    SysInv s' xs n ∧ Faithful s l s' := by
  subst hs'
  have hi' := hi.irrelevant irps files opened
  exact ⟨hi', hi.faithful hi' hn hn ⟨[], (List.append_nil _).symm, by simp⟩
    (fun p irp a _ h => absurd h (hl p irp a)) fun _ _ _ _ => rfl⟩

theorem System.mounts_le_requested (s : System) (sp : IoStackLocation) :
    s.mounts ≤ (s.requested sp).mounts := by
  unfold System.requested
  simp only
  split <;> omega

/-- `FuseAddUserspaceIrp` as a step. -/
theorem userspace_faithful {d : Driver} {p : Pirp} {irp : Irp} {sp : IoStackLocation} {a : Addr}
    {status : NtStatus} {fuel : Nat} (hi : SysInv s xs n) (hn : n < hmapPresetSize)
    (hp : completions s.driver.world.log p ≠ some 0)
    (hcall : fuseAddUserspaceIrp fuel (s.driver.setIrp p irp) p sp a = some (d, status))
    (hs' : s' = { s.arrived p
      (some (fuseAllocateModuleName (s.driver.world.files sp.fileObject).text)) none with
        driver := d }) :
    ∃ xs', SysInv s' xs' n ∧ Faithful s (.userspace p irp a) s' := by
  subst hs'
  have hi₁ := (hi.arrived (hi.not_mem hp)
    (some (fuseAllocateModuleName (s.driver.world.files sp.fileObject).text)) none).irrelevant
    (s.driver.world.setIrp p irp).irps s.driver.world.files s.opened
  have hk := fuseAddUserspaceIrp_kept hi₁ hp (if_pos rfl) hcall
  exact hi.faithful_of_kept hn hk rfl rfl rfl rfl rfl fun _ _ _ _ hl => by simp at hl

/-- `FuseFsdFileSystemControl` as a step. -/
theorem fsControl_faithful {d : Driver} {p : Pirp} {irp : Irp} {sp : IoStackLocation} {a : Addr}
    {status : NtStatus} {fuel : Nat} (hi : SysInv s xs n) (hn : n < hmapPresetSize)
    (hp : completions s.driver.world.log p ≠ some 0)
    (hsp : irp.currentStackLocation = some sp)
    (hno : ∀ name, ¬ s.mountsName sp name)
    (hok : SysStepOk s (.fsControl p irp a))
    (hcall : fuseFsdFileSystemControl fuel (s.driver.setIrp p irp) p sp a = some (d, status))
    (hs' : s' = { (s.requested sp).arrived p none (some sp.fileObject) with driver := d }) :
    ∃ xs', SysInv s' xs' n ∧ Faithful s (.fsControl p irp a) s' := by
  subst hs'
  have hi₁ := (hi.arrived (hi.not_mem hp) none (some sp.fileObject)).irrelevant
    (s.driver.world.setIrp p irp).irps s.driver.world.files s.opened
  have hirp : (s.driver.world.setIrp p irp).irps p = irp := if_pos rfl
  have hk := fuseFsdFileSystemControl_kept hi₁ hp (if_pos rfl) hno
    (fun hcode pre x post hx hfop => by
      have := hok sp x.addr x.ms hsp hcode (hi.find_eq hn hx) hfop
      rw [← hirp] at this
      exact this) hcall
  have hholder : ((s.requested sp).arrived p none (some sp.fileObject)).holder = s.holder :=
    funext fun name => if_neg fun h => hno name h.1
  refine hi.faithful_of_kept hn hk.toKept rfl rfl rfl rfl hholder ?_
  intro p' irp' a' sp' hl hsp' hcode u name hu hroute
  obtain ⟨-, rfl, -⟩ := SysCall.fsControl.inj hl
  obtain rfl : sp = sp' := Option.some.inj (hsp.symm.trans hsp')
  rcases hk.completes hcode u hu with rfl | ⟨addr, hr, hreg⟩
  · -- the response packet itself was routed for no module
    simp [System.arrived] at hroute
  · obtain rfl : s.driver.nameOf sp.fileObject = name := Option.some.inj (hr.symm.trans hroute)
    exact ⟨addr, hreg⟩

/-- A mount as a step. -/
theorem mount_faithful {d : Driver} {p : Pirp} {irp : Irp} {sp : IoStackLocation} {a : Addr}
    {status : NtStatus} {fuel : Nat} {name : List Wchar} (hi : SysInv s xs n)
    (hn : n + 1 < hmapPresetSize) (hp : completions s.driver.world.log p ≠ some 0)
    (hsp : irp.currentStackLocation = some sp) (hmount : s.mountsName sp name)
    (hcall : fuseFsdFileSystemControl fuel (s.driver.setIrp p irp) p sp a = some (d, status))
    (hs' : s' = { (s.requested sp).arrived p none (some sp.fileObject) with driver := d }) :
    ∃ xs', SysInv s' xs' (n + 1) ∧ Faithful s (.fsControl p irp a) s' := by
  subst hs'
  have hi₁ := (hi.arrived (hi.not_mem hp) none (some sp.fileObject)).irrelevant
    (s.driver.world.setIrp p irp).irps s.driver.world.files s.opened
  obtain ⟨hlog, hi'⟩ := fuseFsdFileSystemControl_mounts hi₁ hp hmount hcall
  refine ⟨_, hi', hi.faithful hi' (by omega) hn ⟨_, hlog, by simp⟩ ?_ ?_⟩
  · intro p' irp' a' sp' hl hsp' hcode
    obtain ⟨-, rfl, -⟩ := SysCall.fsControl.inj hl
    obtain rfl : sp = sp' := Option.some.inj (hsp.symm.trans hsp')
    rw [hmount.1] at hcode
    exact absurd hcode (by decide)
  · intro k h hk _
    have hheld := hi.holders k
    rw [hk] at hheld
    obtain ⟨b, hb⟩ := hheld
    rw [registrationOf_concat, hb, Option.some_or]

/-- A close as a step. -/
theorem closeFile_faithful {d : Driver} {f : Pfile} {b : Bool} {fuel : Nat} (hi : SysInv s xs n)
    (hn : n < hmapPresetSize) (hok : SysStepOk s (.closeFile f))
    (hcall : fuseCheckUnmountModule fuel s.driver f = some (d, b))
    (hs' : s' = { s.closed f with driver := d }) :
    ∃ xs', SysInv s' xs' n ∧ Faithful s (.closeFile f) s' := by
  subst hs'
  have hans : ∀ p irp a sp, SysCall.closeFile f = .fsControl p irp a →
      irp.currentStackLocation = some sp → sp.fsControlCode = irpFuseModuleResponse →
      ∀ u name, .completed u ∈ d.world.log.drop s.driver.world.log.length →
      s.route u = some name → ∃ addr, registrationOf xs name = some (name, addr, sp.fileObject) :=
    fun _ _ _ _ hl => by simp at hl
  rcases fuseCheckUnmountModule_cases hi
    (fun pre x post hx hf => hok x.addr x.ms (hi.find_eq hn hx) hf) hcall with
    rfl | ⟨pre, x, post, hx, hf, hi', us, hlog⟩
  · have hi' : SysInv { s.closed f with driver := s.driver } xs n :=
      ⟨hi.fleet, hi.registered, hi.routed, hi.issued, fun name => (hi.holders name).release f⟩
    exact ⟨xs, hi', hi.faithful hi' hn hn ⟨[], by simp, by simp⟩ hans fun _ _ _ _ => rfl⟩
  · refine ⟨pre ++ post, hi', hi.faithful hi' hn hn ⟨_, hlog, by simp⟩ hans ?_⟩
    intro name h hname hl
    have hheld := hi.holders name
    rw [hname] at hheld
    obtain ⟨a, ha⟩ := hheld
    have hne : x.ms.moduleName ≠ name := by
      rintro rfl
      have hreg := hx.registrationOf_eq
      rw [← hx.named, ha] at hreg
      have hfh : h = f := (congrArg (fun r => r.2.2) (Option.some.inj hreg)).trans hf
      exact hl (by rw [hfh])
    rw [registrationOf_remove hne, hx.split]

/-- Every step that meets the condition keeps the invariant and is faithful. -/
theorem step_faithful (hi : SysInv s xs n) (hn : n ≤ s.mounts) (hok : SysStepOk s l)
    (hs : SysStep s l s') (hm : s'.mounts < hmapPresetSize) :
    ∃ xs' n', SysInv s' xs' n' ∧ n' ≤ s'.mounts ∧ Faithful s l s' := by
  cases hs with
  | @openFile f name _ =>
      obtain ⟨hi', hf⟩ := irrelevant_faithful (l := .openFile f name) hi
        (Nat.lt_of_le_of_lt hn hm) s.driver.world.irps (s.driver.setFile f name).world.files
        (f :: s.opened) (by simp) rfl
      exact ⟨xs, n, hi', hn, hf⟩
  | userspace fuel hp _ _ hcall =>
      obtain ⟨xs', hi', hf⟩ := userspace_faithful hi (Nat.lt_of_le_of_lt hn hm) hp hcall rfl
      exact ⟨xs', n, hi', hn, hf⟩
  | @fsControl d p irp sp a status fuel hp hsp _ hcall =>
      have hle := s.mounts_le_requested sp
      have hm' : (s.requested sp).mounts < hmapPresetSize := hm
      by_cases hmount : s.mountsName sp (s.driver.nameOf sp.fileObject)
      · have hcount : (s.requested sp).mounts = s.mounts + 1 := if_pos hmount.1
        obtain ⟨xs', hi', hf⟩ := mount_faithful hi (by omega) hp hsp hmount hcall rfl
        exact ⟨xs', n + 1, hi', by show n + 1 ≤ (s.requested sp).mounts; omega, hf⟩
      · have hno : ∀ name, ¬ s.mountsName sp name := fun name h =>
          hmount ⟨h.1, h.2.1, rfl⟩
        obtain ⟨xs', hi', hf⟩ := fsControl_faithful hi (by omega) hp hsp hno hok hcall rfl
        exact ⟨xs', n, hi', hn.trans hle, hf⟩
  | cancel p =>
      obtain ⟨hi', hf⟩ := irrelevant_faithful (l := .cancel p) hi (Nat.lt_of_le_of_lt hn hm)
        (s.driver.world.cancel p).irps s.driver.world.files s.opened (by simp) rfl
      exact ⟨xs, n, hi', hn, hf⟩
  | closeFile fuel _ hcall =>
      obtain ⟨xs', hi', hf⟩ := closeFile_faithful hi (Nat.lt_of_le_of_lt hn hm) hok hcall rfl
      exact ⟨xs', n, hi', hn, hf⟩

end Steps

/-- Mount requests are only counted up. -/
theorem mounts_mono {s s' : System} {l : SysCall} (hs : SysStep s l s') : s.mounts ≤ s'.mounts := by
  cases hs with
  | @fsControl _ _ _ sp => exact s.mounts_le_requested sp
  | _ => exact Nat.le_refl _

/-- The invariant holds along every run whose steps meet the condition, while
    there are fewer mounts than slots. -/
theorem run_inv (w : World) {tr : List (System × SysCall)} {s : System}
    (hrun : Run SysStep (System.started w) tr s) (hok : ∀ x ∈ tr, SysStepOk x.1 x.2)
    (hm : s.mounts < hmapPresetSize) : ∃ xs n, SysInv s xs n ∧ n ≤ s.mounts := by
  refine Run.invariant (I := fun s => s.mounts < hmapPresetSize →
    ∃ xs n, SysInv s xs n ∧ n ≤ s.mounts) ?_ ?_ hrun hok hm
  · intro _
    refine ⟨[], 0, ⟨⟨by simp, by simp, by simp, by simp, Owned.nil _, rfl⟩, ?_, by simp, by simp,
      fun _ => rfl⟩, Nat.le_refl 0⟩
    exact Represents.empty hmapPresetSize homeSlot
  · intro s l s' hI hl hs hm'
    obtain ⟨xs, n, hi, hn⟩ := hI (Nat.lt_of_le_of_lt (mounts_mono hs) hm')
    obtain ⟨xs', n', hi', hn', -⟩ := step_faithful hi hn hl hs hm'
    exact ⟨xs', n', hi', hn'⟩

/-- While fewer modules are mounted than the map has slots, and no response
    and no dismount runs beyond the end of an outstanding list, a live module
    is not impersonated. -/
theorem module_not_impersonated (w : World) {tr : List (System × SysCall)} {s s' : System} {l : SysCall}
    (hrun : Run SysStep (System.started w) tr s) (hok : ∀ x ∈ tr, SysStepOk x.1 x.2)
    (hstep : SysStep s l s') (hl : SysStepOk s l) (hm : s'.mounts < hmapPresetSize) :
    Faithful s l s' := by
  obtain ⟨xs, n, hi, hn⟩ := run_inv w hrun hok (Nat.lt_of_le_of_lt (mounts_mono hstep) hm)
  obtain ⟨-, -, -, -, hf⟩ := step_faithful hi hn hl hstep hm
  exact hf

-- ============================================================================
-- Sample runs
-- ============================================================================

/-- A control request on the file object `f`. -/
def sampleControl (f : Pfile) (code : Nat) (msg : Mem) : Irp :=
  { Irp.zeroed.withStackLocation
      { (default : IoStackLocation) with
        majorFunction := irpMjFileSystemControl
        arg0 := 4096
        arg1 := 64
        arg2 := UInt64.ofNat code
        fileObject := f } with
    systemBuffer := msg }

def sampleMount (f : Pfile) : Irp := sampleControl f irpFuseMount Mem.zeros

def sampleRequest (f : Pfile) : Irp := sampleControl f irpFuseModuleRequest Mem.zeros

/-- A successful response without payload to the packet `p`. -/
def sampleAnswer (f : Pfile) (p : Pirp) : Irp :=
  sampleControl f irpFuseModuleResponse (Mem.zeros.writeLe 0 8 p.toNat)

/-- A request to read 16 bytes of the file object `f`. -/
def sampleReadOf (f : Pfile) : Irp :=
  Irp.zeroed.withStackLocation
    { (default : IoStackLocation) with majorFunction := irpMjRead, arg0 := 16, fileObject := f }

/-- The module name `\v`. -/
def sampleModuleName : UnicodeString := ⟨[backslash, 118], fun _ => 0, by decide, by decide⟩

/-- The module name `\w`. -/
def sampleOtherName : UnicodeString := ⟨[backslash, 119], fun _ => 0, by decide, by decide⟩

/-- The file `\v\x` on the first module. -/
def sampleFileName : UnicodeString :=
  ⟨[backslash, 118, backslash, 120], fun _ => 0, by decide, by decide⟩

/-- Control requests other than responses meet the condition. -/
theorem sampleControl_ok {s : System} {p : Pirp} {f : Pfile} {code : Nat} {msg : Mem} {a : Addr}
    (h : (UInt64.ofNat code).toNat % 2 ^ 32 ≠ irpFuseModuleResponse) :
    SysStepOk s (.fsControl p (sampleControl f code msg) a) := by
  rintro sp addr ms ⟨⟩ hcode
  exact absurd hcode h

/-- Handle 2 mounts the name of handle 1 again and asks for work, in vain; the
    request is delivered to handle 1 and answered by it. -/
theorem module_not_impersonated_two_modules :
    ∃ tr s l s', Run SysStep (System.started emptyWorld) tr s ∧ SysStep s l s' ∧
      s'.driver.world.log = s.driver.world.log ++ [.completed 21, .completed 32] ∧
      s.holder [118] = .held 1 ∧ s.route 21 = some [118] ∧ Faithful s l s' := by
  have h1 : Run SysStep (System.started emptyWorld) _ _ :=
    Run.nil.snoc (l := .openFile 1 sampleModuleName) (.openFile (by decide))
  have h2 := h1.snoc (l := .openFile 2 sampleModuleName) (.openFile (by decide))
  have h3 := h2.snoc (l := .openFile 3 sampleFileName) (.openFile (by decide))
  have h4 := h3.snoc (l := .fsControl 11 (sampleMount 1) 201)
    (.fsControl 8 (by decide) rfl (by decide) rfl)
  have h5 := h4.snoc (l := .fsControl 12 (sampleMount 2) 202)
    (.fsControl 8 (by decide) rfl (by decide) rfl)
  have h6 := h5.snoc (l := .userspace 21 (sampleReadOf 3) 101)
    (.userspace 8 (by decide) rfl (by decide) rfl)
  have h7 := h6.snoc (l := .fsControl 31 (sampleRequest 2) 103)
    (.fsControl 8 (by decide) rfl (by decide) rfl)
  have hrun := h7.snoc (l := .fsControl 31 (sampleRequest 1) 103)
    (.fsControl 8 (by decide) rfl (by decide) rfl)
  refine ⟨_, _, .fsControl 32 (sampleAnswer 1 21) 0, _, hrun,
    .fsControl 8 (by decide) rfl (by decide) rfl, rfl, rfl, rfl, ?_⟩
  refine module_not_impersonated emptyWorld hrun ?_
    (show SysStep _ (.fsControl 32 (sampleAnswer 1 21) 0) _ from
      .fsControl 8 (by decide) rfl (by decide) rfl) ?_ (by decide)
  · intro x hx
    simp only [List.nil_append, List.cons_append, List.mem_cons, List.not_mem_nil,
      or_false] at hx
    rcases hx with rfl | rfl | rfl | rfl | rfl | rfl | rfl | rfl
    · trivial
    · trivial
    · trivial
    · exact sampleControl_ok (by decide)
    · exact sampleControl_ok (by decide)
    · trivial
    · exact sampleControl_ok (by decide)
    · exact sampleControl_ok (by decide)
  · rintro sp addr ms ⟨⟩ - hfind -
    have hend : some (some 101) = some ms.outstandingIrpListEnd :=
      congrArg (Option.map fun r : Addr × ModuleStruct => r.2.outstandingIrpListEnd) hfind
    refine Or.inl fun e c he hc => ?_
    obtain rfl : 101 = e := Option.some.inj ((Option.some.inj hend).trans he)
    exact (Option.some.inj hc) ▸ rfl

/-- Handle 1 has the module `v`, handle 2 the module `w`.  Handle 1 answers the
    first of two requests, whose node 101 stays the end of its outstanding list
    and is handed out again for `w`.  The second request for `v` is then linked
    behind it, and handle 2 answers it. -/
theorem module_impersonated :
    ∃ tr s l s', Run SysStep (System.started emptyWorld) tr s ∧ SysStep s l s' ∧
      s'.mounts < hmapPresetSize ∧ ¬ Faithful s l s' := by
  have h1 : Run SysStep (System.started emptyWorld) _ _ :=
    Run.nil.snoc (l := .openFile 1 sampleModuleName) (.openFile (by decide))
  have h2 := h1.snoc (l := .openFile 2 sampleOtherName) (.openFile (by decide))
  have h3 := h2.snoc (l := .openFile 3 sampleFileName) (.openFile (by decide))
  have h4 := h3.snoc (l := .fsControl 11 (sampleMount 1) 201)
    (.fsControl 8 (by decide) rfl (by decide) rfl)
  have h5 := h4.snoc (l := .fsControl 12 (sampleMount 2) 202)
    (.fsControl 8 (by decide) rfl (by decide) rfl)
  have h6 := h5.snoc (l := .userspace 21 (sampleReadOf 3) 101)
    (.userspace 8 (by decide) rfl (by decide) rfl)
  have h7 := h6.snoc (l := .userspace 22 (sampleReadOf 3) 102)
    (.userspace 8 (by decide) rfl (by decide) rfl)
  have h8 := h7.snoc (l := .fsControl 31 (sampleRequest 1) 103)
    (.fsControl 8 (by decide) rfl (by decide) rfl)
  have h9 := h8.snoc (l := .fsControl 32 (sampleAnswer 1 21) 0)
    (.fsControl 8 (by decide) rfl (by decide) rfl)
  have h10 := h9.snoc (l := .userspace 24 (sampleReadOf 2) 101)
    (.userspace 8 (by decide) rfl (by decide) rfl)
  have h11 := h10.snoc (l := .fsControl 33 (sampleRequest 2) 103)
    (.fsControl 8 (by decide) rfl (by decide) rfl)
  have h12 := h11.snoc (l := .fsControl 34 (sampleRequest 1) 104)
    (.fsControl 8 (by decide) rfl (by decide) rfl)
  refine ⟨_, _, .fsControl 35 (sampleAnswer 2 22) 0, _, h12,
    .fsControl 8 (by decide) rfl (by decide) rfl, by decide, fun hf => ?_⟩
  have hfrom := hf.answered [118] 1 rfl 35 (sampleAnswer 2 22) 0 _ rfl rfl rfl 22 (by decide) rfl
  exact absurd hfrom (by decide)

end FuseNt
