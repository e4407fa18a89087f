/-
  FuseNt.Driver.System

  The driver with all its handles.

  A step is a call the I/O manager makes, on behalf of any process: a file
  object is opened or closed, a userspace request arrives, a file system
  control request arrives, or a packet is cancelled.  Next to the driver the
  state has a history: which handle was the first to mount a name and whether
  it is still open, which name a userspace packet was routed for, and on which
  handle a control packet was issued.

  The invariant `SysInv` ties the history to the lists of the mounted modules,
  and there is one lemma for each dispatch routine that says what a call does
  to it.
-/

import FuseNt.Driver.Registry

namespace FuseNt

open FuseNt.Lib

-- ============================================================================
-- The system
-- ============================================================================

/-- What became of the first handle that mounted a name. -/
inductive Holder where
  | never
  | held (h : Pfile)
  | released
deriving DecidableEq, Repr

/-- The driver, the open handles, and the history. -/
structure System where
  driver : Driver
  opened : List Pfile
  holder : List Wchar → Holder
  /-- The module a userspace packet was last sent to. -/
  route : Pirp → Option (List Wchar)
  /-- The handle a control packet was last issued on. -/
  issuer : Pirp → Option Pfile
  /-- The number of `IRP_FUSE_MOUNT` requests so far. -/
  mounts : Nat

/-- What can happen; `a` is the address the pool returns if the call
    allocates. -/
inductive SysCall where
  | openFile (f : Pfile) (name : UnicodeString)
  | userspace (p : Pirp) (irp : Irp) (a : Addr)
  | fsControl (p : Pirp) (irp : Irp) (a : Addr)
  | cancel (p : Pirp)
  | closeFile (f : Pfile)

namespace Driver

/-- A packet arrives. -/
def setIrp (d : Driver) (p : Pirp) (irp : Irp) : Driver :=
  { d with world := d.world.setIrp p irp }

/-- A file object is created. -/
def setFile (d : Driver) (f : Pfile) (name : UnicodeString) : Driver :=
  { d with world := { d.world with files := fun g => if g = f then name else d.world.files g } }

/-- The name a handle mounts. -/
def nameOf (d : Driver) (f : Pfile) : List Wchar := mountName (d.world.files f).text

/-- The module `hmap_get` finds under a name. -/
def find (d : Driver) (name : List Wchar) : Option (Addr × ModuleStruct) := do
  let (_, found) ← d.hmapGet hmapPresetSize name
  let a ← found
  let ms ← d.modules a
  some (a, ms)

end Driver

namespace System

/-- Before the first call: no module, and static storage is zero. -/
def started (w : World) : System where
  driver := ⟨{ w with strHashC := 0 }, fun _ => none, Table.empty, 0⟩
  opened := []
  holder := fun _ => .never
  route := fun _ => none
  issuer := fun _ => none
  mounts := 0

/-- The packet `p` is now one for the module `name`, or one issued on `f`. -/
def arrived (s : System) (p : Pirp) (name : Option (List Wchar)) (f : Option Pfile) : System :=
  { s with
    route := fun q => if q = p then name else s.route q
    issuer := fun q => if q = p then f else s.issuer q }

/-- A control request on the file object `f` is a mount request that is not
    turned down. -/
def mountsName (s : System) (sp : IoStackLocation) (name : List Wchar) : Prop :=
  sp.fsControlCode = irpFuseMount ∧ 1 < (s.driver.world.files sp.fileObject).length ∧
    s.driver.nameOf sp.fileObject = name

instance (s : System) (sp : IoStackLocation) (name : List Wchar) :
    Decidable (s.mountsName sp name) :=
  inferInstanceAs (Decidable (_ ∧ _ ∧ _))

/-- The history after a control request. -/
def requested (s : System) (sp : IoStackLocation) : System :=
  { s with
    holder := fun name =>
      if s.mountsName sp name ∧ s.holder name = .never then .held sp.fileObject
      else s.holder name
    mounts := if sp.fsControlCode = irpFuseMount then s.mounts + 1 else s.mounts }

/-- The history after a close. -/
def closed (s : System) (f : Pfile) : System :=
  { s with
    opened := s.opened.filter (· ≠ f)
    holder := fun name => if s.holder name = .held f then .released else s.holder name }

end System

/-- The transitions. -/
inductive SysStep : System → SysCall → System → Prop
  | openFile {s : System} {f : Pfile} {name : UnicodeString} (fresh : f ∉ s.opened) :
      SysStep s (.openFile f name)
        { s with driver := s.driver.setFile f name, opened := f :: s.opened }
  | userspace {s : System} {d : Driver} {p : Pirp} {irp : Irp} {sp : IoStackLocation} {a : Addr}
      {status : NtStatus} (fuel : Nat) (reusable : completions s.driver.world.log p ≠ some 0)
      (location : irp.currentStackLocation = some sp) (opened : sp.fileObject ∈ s.opened)
      (call : fuseAddUserspaceIrp fuel (s.driver.setIrp p irp) p sp a = some (d, status)) :
      SysStep s (.userspace p irp a)
        { s.arrived p
            (some (fuseAllocateModuleName (s.driver.world.files sp.fileObject).text)) none with
          driver := d }
  | fsControl {s : System} {d : Driver} {p : Pirp} {irp : Irp} {sp : IoStackLocation} {a : Addr}
      {status : NtStatus} (fuel : Nat) (reusable : completions s.driver.world.log p ≠ some 0)
      (location : irp.currentStackLocation = some sp) (opened : sp.fileObject ∈ s.opened)
      (call : fuseFsdFileSystemControl fuel (s.driver.setIrp p irp) p sp a = some (d, status)) :
      SysStep s (.fsControl p irp a)
        { (s.requested sp).arrived p none (some sp.fileObject) with driver := d }
  | cancel {s : System} (p : Pirp) :
      SysStep s (.cancel p)
        { s with driver := { s.driver with world := s.driver.world.cancel p } }
  | closeFile {s : System} {d : Driver} {f : Pfile} {dismounted : Bool} (fuel : Nat)
      (opened : f ∈ s.opened)
      (call : fuseCheckUnmountModule fuel s.driver f = some (d, dismounted)) :
      SysStep s (.closeFile f) { s.closed f with driver := d }

-- ============================================================================
-- Registrations
-- ============================================================================

/-- What a lookup of a module shows: its name, where it is, and its handle. -/
def Mounted.registration (x : Mounted) : List Wchar × Addr × Pfile :=
  (x.ms.moduleName, x.addr, x.ms.moduleFileObject)

/-- The oldest registration of a name. -/
def registrationOf (xs : List Mounted) (name : List Wchar) : Option (List Wchar × Addr × Pfile) :=
  (xs.map Mounted.registration).find? (·.1 = name)

section Registrations

variable {xs pre post : List Mounted} {x : Mounted} {name : List Wchar}

theorem FirstNamed.registrationOf_eq (hx : FirstNamed xs name pre x post) :
    registrationOf xs name = some x.registration := by
  obtain ⟨rfl, hname, hpre⟩ := hx
  rw [registrationOf, List.map_append, List.map_cons, List.find?_append,
    List.find?_eq_none.mpr, Option.none_or, List.find?_cons_of_pos]
  · exact decide_eq_true hname
  · intro r hr
    obtain ⟨y, hy, rfl⟩ := List.mem_map.mp hr
    exact fun h => hpre y hy (of_decide_eq_true h)

theorem registrationOf_eq_none (hall : ∀ x ∈ xs, x.ms.moduleName ≠ name) :
    registrationOf xs name = none := by
  rw [registrationOf, List.find?_eq_none]
  intro r hr
  obtain ⟨y, hy, rfl⟩ := List.mem_map.mp hr
  exact fun h => hall y hy (of_decide_eq_true h)

/-- A new module does not hide an older one of the same name. -/
theorem registrationOf_concat (xs : List Mounted) (x : Mounted) (name : List Wchar) :
    registrationOf (xs ++ [x]) name =
      (registrationOf xs name).or
        (if x.ms.moduleName = name then some x.registration else none) := by
  rw [registrationOf, List.map_append, List.find?_append]
  congr 1
  by_cases h : x.ms.moduleName = name <;> simp [Mounted.registration, h]

/-- The removal of a module does not show in the lookup of other names. -/
theorem registrationOf_remove (h : x.ms.moduleName ≠ name) :
    registrationOf (pre ++ post) name = registrationOf (pre ++ x :: post) name := by
  simp only [registrationOf, List.map_append, List.map_cons, List.find?_append]
  rw [List.find?_cons_of_neg]
  exact fun hn => h (of_decide_eq_true hn)

end Registrations

-- ============================================================================
-- The invariant
-- ============================================================================

/-- What the lookup of a name shows, given the history of the name. -/
def HolderOk (xs : List Mounted) (name : List Wchar) : Holder → Prop
  | .never => registrationOf xs name = none
  | .held h => ∃ a, registrationOf xs name = some (name, a, h)
  | .released => True

/-- A mount makes its handle the holder of the name if it is the first. -/
theorem HolderOk.concat {xs : List Mounted} {name : List Wchar} {holder : Holder}
    (h : HolderOk xs name holder) (x : Mounted) :
    HolderOk (xs ++ [x]) name
      (if x.ms.moduleName = name ∧ holder = .never then .held x.ms.moduleFileObject
        else holder) := by
  cases holder with
  | never =>
      have hnone : registrationOf xs name = none := h
      by_cases hx : x.ms.moduleName = name
      · rw [if_pos ⟨hx, rfl⟩]
        refine ⟨x.addr, ?_⟩
        rw [registrationOf_concat, hnone, Option.none_or, if_pos hx, Mounted.registration, hx]
      · rw [if_neg fun hc => hx hc.1]
        show registrationOf _ name = none
        rw [registrationOf_concat, hnone, Option.none_or, if_neg hx]
  | held f =>
      obtain ⟨a, ha⟩ := h
      rw [if_neg (by simp)]
      refine ⟨a, ?_⟩
      rw [registrationOf_concat, ha, Option.some_or]
  | released =>
      rw [if_neg (by simp)]
      trivial

/-- The handle of the oldest module of some name is closed. -/
theorem HolderOk.remove {xs pre post : List Mounted} {x : Mounted} {k name : List Wchar}
    {holder : Holder} (hx : FirstNamed xs k pre x post) (h : HolderOk xs name holder) :
    HolderOk (pre ++ post) name
      (if holder = .held x.ms.moduleFileObject then .released else holder) := by
  have hreg : x.ms.moduleName = name → registrationOf xs name = some x.registration := by
    intro hname
    rw [← hname, hx.named]
    exact hx.registrationOf_eq
  obtain ⟨rfl, -, -⟩ := hx
  cases holder with
  | never =>
      rw [if_neg (by simp)]
      have hnone : registrationOf (pre ++ x :: post) name = none := h
      show registrationOf _ name = none
      rw [registrationOf_remove fun hn => ?_, hnone]
      simp [hreg hn] at hnone
  | held f =>
      obtain ⟨a, ha⟩ := h
      by_cases hf : f = x.ms.moduleFileObject
      · rw [if_pos (by rw [hf])]
        trivial
      · rw [if_neg fun hc => hf (Holder.held.inj hc)]
        refine ⟨a, ?_⟩
        rw [registrationOf_remove fun hn => ?_, ha]
        rw [hreg hn, Option.some.injEq, Mounted.registration, Prod.mk.injEq, Prod.mk.injEq] at ha
        exact hf ha.2.2.symm
  | released =>
      rw [if_neg (by simp)]
      trivial

/-- A handle without a module is closed. -/
theorem HolderOk.release {xs : List Mounted} {name : List Wchar} {holder : Holder}
    (h : HolderOk xs name holder) (f : Pfile) :
    HolderOk xs name (if holder = .held f then .released else holder) := by
  split
  · trivial
  · exact h

/-- The modules `xs` are mounted, their lists hold the packets that were sent
    to them, and a name whose first handle is open belongs to that handle. -/
structure SysInv (s : System) (xs : List Mounted) (n : Nat) : Prop where
  fleet : Fleet s.driver xs
  registered : Registered s.driver.map xs n
  routed : ∀ x ∈ xs, ∀ u, u ∈ vals x.U ∨ u ∈ vals x.O → s.route u = some x.ms.moduleName
  issued : ∀ x ∈ xs, ∀ m ∈ vals x.M, s.issuer m = some x.ms.moduleFileObject
  holders : ∀ name, HolderOk xs name (s.holder name)

/-- The link of the last outstanding request is null. -/
def OutstandingEnds (w : World) (ms : ModuleStruct) : Prop :=
  ∀ e c, ms.outstandingIrpListEnd = some e → w.heap e = some c → c.next = none

/-- `s.driver` becomes `d`, the same modules are mounted, and deliveries are
    between packets of the oldest module of a name. -/
structure Kept (s : System) (xs : List Mounted) (n : Nat) (d : Driver) : Prop where
  inv : ∃ xs', SysInv { s with driver := d } xs' n ∧
    xs'.map Mounted.registration = xs.map Mounted.registration
  log : ∃ evs, d.world.log = s.driver.world.log ++ evs ∧ ∀ u m, .delivered u m ∈ evs →
    ∃ r, registrationOf xs r.1 = some r ∧ s.route u = some r.1 ∧ s.issuer m = some r.2.2

namespace SysInv

variable {s : System} {xs pre post : List Mounted} {x x' : Mounted} {n : Nat} {p : Pirp}
  {name : List Wchar}

theorem not_mem (hi : SysInv s xs n) (hp : completions s.driver.world.log p ≠ some 0) :
    p ∉ xs.flatMap Mounted.packets :=
  hi.fleet.owned.not_mem hp

/-- The packets' contents, the file names and the open handles do not matter. -/
theorem irrelevant (hi : SysInv s xs n) (irps : Pirp → Irp) (files : Pfile → UnicodeString)
    (opened : List Pfile) :
    SysInv { s with
      driver := { s.driver with world := { s.driver.world with irps := irps, files := files } }
      opened := opened } xs n :=
  ⟨hi.fleet.irrelevant irps files s.driver.map s.driver.size, hi.registered, hi.routed, hi.issued, hi.holders⟩

theorem mem_packets {u : Pirp} (hx : x ∈ xs)
    (hu : u ∈ vals x.U ∨ u ∈ vals x.M ∨ u ∈ vals x.O) : u ∈ xs.flatMap Mounted.packets := by
  refine List.mem_flatMap.mpr ⟨x, hx, ?_⟩
  simp only [Mounted.packets, packets, List.mem_append, or_assoc]
  exact hu

/-- A packet arrives that is on no list. -/
theorem arrived (hi : SysInv s xs n) (hp : p ∉ xs.flatMap Mounted.packets)
    (name : Option (List Wchar)) (f : Option Pfile) : SysInv (s.arrived p name f) xs n := by
  refine ⟨hi.fleet, hi.registered, fun x hx u hu => ?_, fun x hx m hm => ?_, hi.holders⟩
  · have hne : u ≠ p := fun h => hp (h ▸ mem_packets hx (by grind))
    exact (if_neg hne).trans (hi.routed x hx u hu)
  · have hne : m ≠ p := fun h => hp (h ▸ mem_packets hx (by grind))
    exact (if_neg hne).trans (hi.issued x hx m hm)

theorem kept (hi : SysInv s xs n) : Kept s xs n s.driver :=
  ⟨⟨xs, hi, rfl⟩, [], by simp, by simp⟩

/-- A packet is completed that is on no list. -/
theorem complete (hi : SysInv s xs n) (hp : p ∉ xs.flatMap Mounted.packets) :
    SysInv { s with driver := { s.driver with world := s.driver.world.complete p } } xs n :=
  ⟨hi.fleet.complete hp, hi.registered, hi.routed, hi.issued, hi.holders⟩

theorem kept_complete (hi : SysInv s xs n) (hp : p ∉ xs.flatMap Mounted.packets) :
    Kept s xs n { s.driver with world := s.driver.world.complete p } :=
  ⟨⟨xs, hi.complete hp, rfl⟩, [.completed p], rfl, by simp⟩

/-- The oldest module of a name works. -/
theorem work {us ps : List Pirp} {w' : World} (hi : SysInv s xs n)
    (hx : FirstNamed xs name pre x post) (hl : Local us ps s.driver.world x w' x')
    (hus : ∀ u ∈ us, s.route u = some x.ms.moduleName)
    (hps : ∀ m ∈ ps, s.issuer m = some x.ms.moduleFileObject) :
    Kept s xs n { s.driver.setModule x.addr (some x'.ms) with world := w' } := by
  have hreg := hx.registrationOf_eq
  obtain ⟨rfl, rfl, -⟩ := hx
  have hmem : x ∈ pre ++ x :: post := by simp
  have hmap : (pre ++ x' :: post).map Mounted.registration =
      (pre ++ x :: post).map Mounted.registration := by
    simp [Mounted.registration, hl.addr, hl.name, hl.fop]
  have hbind : (pre ++ x' :: post).map Mounted.binding =
      (pre ++ x :: post).map Mounted.binding := by
    simp [Mounted.binding, hl.addr, hl.name]
  have huser : ∀ u, u ∈ vals x.U ∨ u ∈ us → s.route u = some x.ms.moduleName := fun u hu =>
    hu.elim (fun h => hi.routed x hmem u (Or.inl h)) (hus u)
  have hmod : ∀ m, m ∈ vals x.M ∨ m ∈ ps → s.issuer m = some x.ms.moduleFileObject := fun m hm =>
    hm.elim (hi.issued x hmem m) (hps m)
  refine ⟨⟨pre ++ x' :: post, ⟨hi.fleet.update hl, ?_, ?_, ?_, ?_⟩, hmap⟩, ?_⟩
  · have hr := hi.registered
    unfold Registered at hr ⊢
    rw [hbind]
    exact hr
  · intro y hy u hu
    rcases List.mem_cons.mp (List.perm_middle.mem_iff.mp hy) with rfl | hy
    · rw [hl.name]
      rcases hu with hu | hu
      · exact huser u (hl.user u hu)
      · rcases hl.out u hu with hu | hu
        · exact hi.routed x hmem u (Or.inr hu)
        · exact huser u hu
    · exact hi.routed y (Fleet.mem_other hy) u hu
  · intro y hy m hm
    rcases List.mem_cons.mp (List.perm_middle.mem_iff.mp hy) with rfl | hy
    · rw [hl.fop]
      exact hmod m (hl.module m hm)
    · exact hi.issued y (Fleet.mem_other hy) m hm
  · intro name
    have h := hi.holders name
    show HolderOk _ name (s.holder name)
    cases hn : s.holder name with
    | never =>
        rw [hn] at h
        simpa only [HolderOk, registrationOf, hmap] using h
    | held f =>
        rw [hn] at h
        simpa only [HolderOk, registrationOf, hmap] using h
    | released => trivial
  · obtain ⟨evs, hlog, hd⟩ := hl.log
    refine ⟨evs, hlog, fun u m hm => ⟨x.registration, hreg, ?_⟩⟩
    obtain ⟨hu, hm⟩ := hd u m hm
    exact ⟨huser u hu, hmod m hm⟩

end SysInv

-- ============================================================================
-- The calls
-- ============================================================================

/-- A packet is completed that is on no list after the call. -/
theorem Kept.complete {s : System} {xs : List Mounted} {n : Nat} {d : Driver} {p : Pirp}
    (hk : Kept s xs n d) (hp : completions d.world.log p ≠ some 0) :
    Kept s xs n { d with world := d.world.complete p } := by
  obtain ⟨⟨xs', hi, hmap⟩, evs, hlog, hd⟩ := hk
  refine ⟨⟨xs', hi.complete (hi.not_mem hp), hmap⟩, evs ++ [.completed p], ?_, ?_⟩
  · show d.world.log ++ [.completed p] = _
    rw [hlog, List.append_assoc]
  · intro u m hm
    exact hd u m (by simpa using hm)

section Calls

variable {s : System} {xs pre post : List Mounted} {x : Mounted} {n fuel : Nat} {d : Driver}
  {p : Pirp} {a : Addr} {name : List Wchar} {status : NtStatus} {sp : IoStackLocation}

/-- A lookup in the course of a call. -/
theorem SysInv.lookup (hi : SysInv s xs n) {found : Option Addr}
    (hget : s.driver.hmapGet fuel name = some (d, found)) :
    d = s.driver ∧ ((found = none ∧ registrationOf xs name = none) ∨
      ∃ pre x post, found = some x.addr ∧ FirstNamed xs name pre x post ∧
        s.driver.modules x.addr = some x.ms) := by
  obtain ⟨hd, hcase⟩ := hmapGet_spec hi.fleet.static hi.registered hget
  refine ⟨hd, ?_⟩
  rcases hcase with ⟨hnone, hall⟩ | ⟨pre, x, post, hfound, hx⟩
  · exact Or.inl ⟨hnone, registrationOf_eq_none hall⟩
  · exact Or.inr ⟨pre, x, post, hfound, hx, hi.fleet.stored x (by rw [hx.split]; simp)⟩

/-- `FuseAddUserspaceIrp`. -/
theorem fuseAddUserspaceIrp_kept (hi : SysInv s xs n)
    (hp : completions s.driver.world.log p ≠ some 0)
    (hroute : s.route p =
      some (fuseAllocateModuleName (s.driver.world.files sp.fileObject).text))
    (hcall : fuseAddUserspaceIrp fuel s.driver p sp a = some (d, status)) : Kept s xs n d := by
  unfold fuseAddUserspaceIrp at hcall
  simp only at hcall
  split at hcall
  · obtain ⟨⟨d₁, found⟩, hget, hcall⟩ := Option.bind_eq_some_iff.mp hcall
    obtain ⟨rfl, ⟨rfl, -⟩ | ⟨pre, x, post, rfl, hx, hms⟩⟩ := hi.lookup hget
    · obtain ⟨rfl, -⟩ := Prod.mk.inj (Option.some.inj hcall)
      exact hi.kept_complete (hi.not_mem hp)
    · simp only [hms, Option.bind_eq_bind, Option.bind_some] at hcall
      obtain ⟨⟨w₁, ms₁, ok⟩, hadd, hcall⟩ := Option.bind_eq_some_iff.mp hcall
      obtain ⟨⟨w₂, ms₂, found⟩, hwork, hcall⟩ := Option.bind_eq_some_iff.mp hcall
      obtain ⟨rfl, -⟩ := Prod.mk.inj (Option.some.inj hcall)
      have hs : x.Sound s.driver.world.heap := hi.fleet.sound x (by rw [hx.split]; simp)
      obtain ⟨x₁, rfl, h₁⟩ := fuseAddIrpToModuleList_local hs hp hadd
      obtain ⟨x₂, rfl, h₂⟩ := fuseCheckForWork_local h₁.sound hwork
      refine hi.work hx (h₁.trans h₂) (fun u hu => ?_) (by simp)
      obtain rfl : u = p := by simpa using hu
      rw [hroute, hx.named]
  · obtain ⟨rfl, -⟩ := Prod.mk.inj (Option.some.inj hcall)
    exact hi.kept_complete (hi.not_mem hp)

/-- `IRP_FUSE_MODULE_REQUEST`. -/
theorem moduleRequest_kept (hi : SysInv s xs n) (hx : FirstNamed xs name pre x post)
    (hp : completions s.driver.world.log p ≠ some 0)
    (hissuer : s.issuer p = some x.ms.moduleFileObject)
    (hcall : moduleRequest fuel s.driver p x.addr x.ms a = some (d, status)) :
    Kept s xs n d := by
  have hs : x.Sound s.driver.world.heap := hi.fleet.sound x (by rw [hx.split]; simp)
  obtain ⟨⟨w₁, ms₁, ok⟩, hadd, hcall⟩ := Option.bind_eq_some_iff.mp hcall
  cases ok with
  | true =>
      obtain ⟨⟨w₂, ms₂, found⟩, hwork, hcall⟩ := Option.bind_eq_some_iff.mp hcall
      obtain ⟨rfl, -⟩ := Prod.mk.inj (Option.some.inj hcall)
      obtain ⟨x₁, rfl, h₁⟩ := fuseAddIrpToModuleList_local hs hp hadd
      obtain ⟨x₂, rfl, h₂⟩ := fuseCheckForWork_local h₁.sound hwork
      refine hi.work hx (h₁.trans h₂) (by simp) (fun m hm => ?_)
      obtain rfl : m = p := by simpa using hm
      exact hissuer
  | false =>
      cases fuseAddIrpToModuleList_arrival hs hadd with
      | refused _ hw hms =>
      subst hw hms
      obtain ⟨rfl, -⟩ := Prod.mk.inj (Option.some.inj hcall)
      exact (hi.work hx (Local.refl hs) (by simp) (by simp)).complete hp

/-- `IRP_FUSE_MODULE_RESPONSE`, with the packets it completes. -/
theorem moduleResponse_kept (hi : SysInv s xs n) (hx : FirstNamed xs name pre x post)
    (hp : completions s.driver.world.log p ≠ some 0)
    (hok : ReplyOk s.driver.world x.ms (respPirp (s.driver.world.irps p).systemBuffer))
    (hcall : moduleResponse fuel s.driver p x.addr x.ms = some (d, status)) :
    Kept s xs n d ∧ ∀ u, .completed u ∈ d.world.log.drop s.driver.world.log.length →
      u = p ∨ s.route u = some name := by
  have hmem : x ∈ xs := by rw [hx.split]; simp
  obtain ⟨⟨w₁, ms₁, st⟩, hcopy, hcall⟩ := Option.bind_eq_some_iff.mp hcall
  obtain ⟨rfl, -⟩ := Prod.mk.inj (Option.some.inj hcall)
  obtain ⟨⟨x₁, rfl, h₁⟩, us, hlog, hus⟩ :=
    fuseCopyResponse_local (hi.fleet.sound x hmem) hok hcopy
  have hnot : p ∉ us := fun h =>
    hi.not_mem hp (SysInv.mem_packets hmem (Or.inr (Or.inr (hus p h))))
  have hp₁ : completions w₁.log p ≠ some 0 := by
    rw [hlog, completions_append_completed, List.count_eq_zero.mpr hnot]
    simpa using hp
  refine ⟨(hi.work hx h₁ (by simp) (by simp)).complete hp₁, fun u hu => ?_⟩
  simp only [World.complete, hlog, List.append_assoc, List.drop_left, List.mem_append,
    List.mem_map, List.mem_singleton, Event.completed.injEq, exists_eq_right] at hu
  rcases hu with hu | hu
  · rw [← hx.named]
    exact Or.inr (hi.routed x hmem u (Or.inr (hus u hu)))
  · exact Or.inl hu

/-- The call was a control request `p` on the file object of `sp`; a response
    completes requests of the module of that handle only. -/
structure Controlled (s : System) (xs : List Mounted) (n : Nat) (p : Pirp) (sp : IoStackLocation)
    (d : Driver) : Prop extends Kept s xs n d where
  completes : sp.fsControlCode = irpFuseModuleResponse →
    ∀ u, .completed u ∈ d.world.log.drop s.driver.world.log.length →
      u = p ∨ ∃ addr, s.route u = some (s.driver.nameOf sp.fileObject) ∧
        registrationOf xs (s.driver.nameOf sp.fileObject) =
          some (s.driver.nameOf sp.fileObject, addr, sp.fileObject)

/-- `FuseFsdFileSystemControl`, when it does not mount a module. -/
theorem fuseFsdFileSystemControl_kept (hi : SysInv s xs n)
    (hp : completions s.driver.world.log p ≠ some 0)
    (hissuer : s.issuer p = some sp.fileObject)
    (hno : ∀ name, ¬ s.mountsName sp name)
    (hok : sp.fsControlCode = irpFuseModuleResponse → ∀ pre x post,
      FirstNamed xs (s.driver.nameOf sp.fileObject) pre x post →
      x.ms.moduleFileObject = sp.fileObject →
      ReplyOk s.driver.world x.ms (respPirp (s.driver.world.irps p).systemBuffer))
    (hcall : fuseFsdFileSystemControl fuel s.driver p sp a = some (d, status)) :
    Controlled s xs n p sp d := by
  have hidle : Controlled s xs n p sp s.driver := ⟨hi.kept, by simp⟩
  have hdone := hi.kept_complete (hi.not_mem hp)
  unfold fuseFsdFileSystemControl at hcall
  simp only at hcall
  split at hcall
  · obtain ⟨rfl, -⟩ := Prod.mk.inj (Option.some.inj hcall)
    exact hidle
  rename_i hlen
  split at hcall
  · rename_i hmount
    exact absurd ⟨hmount, by omega, rfl⟩ (hno _)
  split at hcall
  · rename_i hkind
    obtain ⟨⟨d₁, found⟩, hget, hcall⟩ := Option.bind_eq_some_iff.mp hcall
    obtain ⟨rfl, ⟨rfl, -⟩ | ⟨pre, x, post, rfl, hx, hms⟩⟩ := hi.lookup hget
    · obtain ⟨rfl, -⟩ := Prod.mk.inj (Option.some.inj hcall)
      exact hidle
    simp only [hms, Option.bind_eq_bind, Option.bind_some] at hcall
    split at hcall
    · rename_i hfop
      split at hcall
      · rename_i hreq
        refine ⟨moduleRequest_kept hi hx hp (by rw [hissuer, hfop]) hcall, fun hresp => ?_⟩
        rw [hreq] at hresp
        exact absurd hresp (by decide)
      · rename_i hreq
        obtain ⟨hkept, hcomp⟩ := moduleResponse_kept hi hx hp
          (hok (hkind.resolve_left hreq) pre x post hx hfop) hcall
        refine ⟨hkept, fun _ u hu => (hcomp u hu).imp id fun hr => ⟨x.addr, hr, ?_⟩⟩
        have hreg := hx.registrationOf_eq
        rw [Mounted.registration, hx.named, hfop] at hreg
        exact hreg
    · obtain ⟨rfl, -⟩ := Prod.mk.inj (Option.some.inj hcall)
      exact ⟨hdone, fun _ u hu => Or.inl (by simpa [World.complete] using hu)⟩
  · rename_i hkind
    obtain ⟨rfl, -⟩ := Prod.mk.inj (Option.some.inj hcall)
    exact ⟨hdone, fun hresp => absurd (Or.inr hresp) hkind⟩

end Calls

section Mounting

variable {s : System} {xs : List Mounted} {n fuel : Nat} {d : Driver} {p : Pirp} {a : Addr}
  {status : NtStatus} {sp : IoStackLocation}

/-- `FuseFsdFileSystemControl`, when it mounts a module. -/
theorem fuseFsdFileSystemControl_mounts (hi : SysInv s xs n)
    (hp : completions s.driver.world.log p ≠ some 0) {name : List Wchar}
    (hmount : s.mountsName sp name)
    (hcall : fuseFsdFileSystemControl fuel s.driver p sp a = some (d, status)) :
    d.world.log = s.driver.world.log ++ [.completed p] ∧
      SysInv { s.requested sp with driver := d }
        (xs ++ [Mounted.fresh a name sp.fileObject]) (n + 1) := by
  obtain ⟨hcode, hlen, rfl⟩ := hmount
  unfold fuseFsdFileSystemControl at hcall
  simp only [hcode, if_true, if_neg (by omega : ¬ (s.driver.world.files sp.fileObject).length ≤ 1)]
    at hcall
  unfold mountModule at hcall
  simp only at hcall
  split at hcall
  · contradiction
  rename_i hfree
  obtain ⟨d₁, hadd, hcall⟩ := Option.bind_eq_some_iff.mp hcall
  obtain ⟨rfl, -⟩ := Prod.mk.inj (Option.some.inj hcall)
  have hfleet := hi.fleet.mount (not_not.mp hfree) (s.driver.nameOf sp.fileObject) sp.fileObject
  obtain ⟨t, rfl, hreg⟩ := hmapAdd_spec (d := s.driver.setModule a _)
    (x := Mounted.fresh a (s.driver.nameOf sp.fileObject) sp.fileObject) hfleet.static
    hi.registered hadd
  refine ⟨rfl, (hfleet.irrelevant _ _ t _).complete ?_, hreg, ?_, ?_, ?_⟩
  · exact Owned.not_mem hfleet.owned hp
  · intro x hx
    rcases List.mem_append.mp hx with hx | hx
    · exact hi.routed x hx
    · rw [List.mem_singleton.mp hx]
      simp [Mounted.fresh]
  · intro x hx
    rcases List.mem_append.mp hx with hx | hx
    · exact hi.issued x hx
    · rw [List.mem_singleton.mp hx]
      simp [Mounted.fresh]
  · intro name
    have h := (hi.holders name).concat
      (Mounted.fresh a (s.driver.nameOf sp.fileObject) sp.fileObject)
    have hfirst : (s.mountsName sp name ∧ s.holder name = .never) ↔
        (s.driver.nameOf sp.fileObject = name ∧ s.holder name = .never) := by
      simp [System.mountsName, hcode, hlen]
    show HolderOk _ name (if s.mountsName sp name ∧ s.holder name = .never then
      .held sp.fileObject else s.holder name)
    rw [if_congr hfirst rfl rfl]
    exact h

/-- The handle of the oldest module of a name is closed, and the module is
    dismounted. -/
theorem SysInv.dismount {pre post : List Mounted} {x : Mounted} {name : List Wchar} {f : Pfile}
    {w : World} {t : Table (List Wchar) Addr} (hi : SysInv s xs n)
    (hx : FirstNamed xs name pre x post) (hf : x.ms.moduleFileObject = f)
    (hok : OutstandingEnds s.driver.world x.ms)
    (hdel : moduleStructDelete fuel s.driver.world x.ms = some w)
    (hreg : Registered t (pre ++ post) n) :
    SysInv { s.closed f with
        driver := { s.driver.setModule x.addr none with world := w, map := t } } (pre ++ post) n ∧
      ∃ us : List Pirp, w.log = s.driver.world.log ++ us.map .completed := by
  have hhold := fun name => (hi.holders name).remove hx
  obtain ⟨rfl, -, -⟩ := hx
  subst hf
  have hsound := hi.fleet.sound x (by simp)
  have hnext : x.nxt = none := hsound.next_eq_none hok
  have hrep : Rep s.driver.world.heap x.ms x.U x.M x.O none := hnext ▸ hsound
  refine ⟨⟨(hi.fleet.dismount hnext hdel).irrelevant _ _ t _, hreg, ?_, ?_, hhold⟩, _,
    (moduleStructDelete_spec hrep hdel).1⟩
  · exact fun y hy => hi.routed y (Fleet.mem_other hy)
  · exact fun y hy => hi.issued y (Fleet.mem_other hy)

/-- `FuseCheckUnmountModule`: nothing happens, or the handle's own module is
    dismounted. -/
theorem fuseCheckUnmountModule_cases (hi : SysInv s xs n) {f : Pfile} {b : Bool}
    (hok : ∀ pre x post, FirstNamed xs (s.driver.nameOf f) pre x post →
      x.ms.moduleFileObject = f → OutstandingEnds s.driver.world x.ms)
    (hcall : fuseCheckUnmountModule fuel s.driver f = some (d, b)) :
    d = s.driver ∨ ∃ pre x post, FirstNamed xs (s.driver.nameOf f) pre x post ∧
      x.ms.moduleFileObject = f ∧
      SysInv { s.closed f with driver := d } (pre ++ post) n ∧
      ∃ us : List Pirp, d.world.log = s.driver.world.log ++ us.map .completed := by
  unfold fuseCheckUnmountModule at hcall
  simp only at hcall
  split at hcall
  · obtain ⟨⟨d₁, found⟩, hget, hcall⟩ := Option.bind_eq_some_iff.mp hcall
    obtain ⟨rfl, ⟨rfl, -⟩ | ⟨pre, x, post, rfl, hx, hms⟩⟩ := hi.lookup hget
    · obtain ⟨rfl, -⟩ := Prod.mk.inj (Option.some.inj hcall)
      exact Or.inl rfl
    simp only [hms, Option.bind_eq_bind, Option.bind_some] at hcall
    split at hcall
    · rename_i hfop
      obtain ⟨⟨d₂, removed⟩, hrem, hcall⟩ := Option.bind_eq_some_iff.mp hcall
      obtain ⟨rfl, -⟩ := Prod.mk.inj (Option.some.inj hcall)
      rcases hmapRemove_spec hi.fleet.static hi.registered hi.fleet.stored hrem with
        ⟨rfl, -⟩ | ⟨pre', y, post', w, t, hy, hdel, rfl, hreg⟩
      · exact Or.inl rfl
      have hsame : y.registration = x.registration :=
        Option.some.inj (hy.registrationOf_eq.symm.trans hx.registrationOf_eq)
      have hyf : y.ms.moduleFileObject = f := by
        rw [← hfop]
        exact congrArg (fun r => r.2.2) hsame
      exact Or.inr ⟨pre', y, post', hy, hyf, hi.dismount hy hyf (hok pre' y post' hy hyf) hdel hreg⟩
    · obtain ⟨rfl, -⟩ := Prod.mk.inj (Option.some.inj hcall)
      exact Or.inl rfl
  · obtain ⟨rfl, -⟩ := Prod.mk.inj (Option.some.inj hcall)
    exact Or.inl rfl

end Mounting

end FuseNt
