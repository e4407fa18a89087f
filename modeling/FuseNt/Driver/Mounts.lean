/-
  FuseNt.Driver.Mounts

  `ModuleMap` along runs of the driver.

  What the map has bound does not depend on the queues of the modules: calls
  that do not mount or dismount leave the map as it is, a mount adds a newest
  registration, and a close takes away the oldest registration of the closed
  handle's name if it is the handle's own (`Remount`).  Registrations are kept
  as `(name, address, file object)`.
-/

import FuseNt.Driver.System

namespace FuseNt

open FuseNt.Lib

-- ============================================================================
-- The registrations
-- ============================================================================

/-- The handle that a call mounts a module with: the call is an
    `IRP_FUSE_MOUNT` that is not turned down for the length of its name. -/
def System.mountsBy (s : System) : SysCall → Option Pfile
  | .fsControl _ irp _ => do
      let sp ← irp.currentStackLocation
      if s.mountsName sp (s.driver.nameOf sp.fileObject) then some sp.fileObject else none
  | _ => none

/-- The number of mounts in a run. -/
def mountsIn (tr : List (System × SysCall)) : Nat := tr.countP fun x => (x.1.mountsBy x.2).isSome

/-- The name a registration is found under, and where the module is. -/
def regBinding (r : List Wchar × Addr × Pfile) : List Wchar × Addr := (r.1, r.2.1)

/-- The map has the registrations `rs`, oldest first, and `n` of its slots are
    taken. -/
structure Mapped (d : Driver) (rs : List (List Wchar × Addr × Pfile)) (n : Nat) : Prop where
  represents : Represents d.map hmapPresetSize homeSlot (rs.map regBinding) n
  static : d.world.strHashC = 0
  stored : ∀ r ∈ rs, ∃ ms, d.modules r.2.1 = some ms ∧ ms.identity = (r.1, r.2.2)
  distinct : (rs.map (·.2.1)).Nodup

/-- What a call does that neither mounts nor dismounts. -/
structure SameMap (d d' : Driver) : Prop where
  map : d'.map = d.map
  size : d'.size = d.size
  static : d.world.strHashC = 0 → d'.world.strHashC = 0
  modules : ∀ a ms, d.modules a = some ms →
    ∃ ms', d'.modules a = some ms' ∧ ms'.identity = ms.identity
  others : ∀ a, d.modules a = none → d'.modules a = none
  files : d'.world.files = d.world.files

section Calls

variable {s : System} {d d' : Driver} {rs : List (List Wchar × Addr × Pfile)} {n fuel : Nat}
  {name : List Wchar} {p : Pirp} {a : Addr} {sp : IoStackLocation} {status : NtStatus}

theorem SameMap.refl (d : Driver) : SameMap d d :=
  ⟨rfl, rfl, id, fun _ ms h => ⟨ms, h, rfl⟩, fun _ h => h, rfl⟩

/-- A module works. -/
theorem SameMap.work {ms ms' : ModuleStruct} {w : World} (hms : d.modules a = some ms)
    (hk : Keeps d.world ms w ms') : SameMap d { d.setModule a (some ms') with world := w } := by
  refine ⟨rfl, rfl, hk.static, fun b msb hb => ?_, fun b hb => ?_, hk.files⟩
  · by_cases hba : b = a
    · subst hba
      obtain rfl : ms = msb := Option.some.inj (hms.symm.trans hb)
      exact ⟨ms', if_pos rfl, hk.identity⟩
    · exact ⟨msb, (if_neg hba).trans hb, rfl⟩
  · have hba : b ≠ a := by
      rintro rfl
      rw [hms] at hb
      contradiction
    exact (if_neg hba).trans hb

/-- A packet is completed after the call. -/
theorem SameMap.complete (h : SameMap d d') (p : Pirp) :
    SameMap d { d' with world := d'.world.complete p } :=
  ⟨h.map, h.size, h.static, h.modules, h.others, h.files⟩

theorem Mapped.same (hm : Mapped d rs n) (h : SameMap d d') : Mapped d' rs n := by
  refine ⟨h.map ▸ hm.represents, h.static hm.static, fun r hr => ?_, hm.distinct⟩
  obtain ⟨ms, hms, hid⟩ := hm.stored r hr
  obtain ⟨ms', hms', hid'⟩ := h.modules _ ms hms
  exact ⟨ms', hms', hid'.trans hid⟩

/-- The packets' contents and the file names do not matter. -/
theorem Mapped.irrelevant (hm : Mapped d rs n) (irps : Pirp → Irp)
    (files : Pfile → UnicodeString) :
    Mapped { d with world := { d.world with irps := irps, files := files } } rs n :=
  ⟨hm.represents, hm.static, hm.stored, hm.distinct⟩

/-- A split of the bindings is a split of the registrations. -/
theorem registration_of_binding {l l' : List (List Wchar × Addr)}
    (hsplit : rs.map regBinding = l ++ (name, a) :: l') (hpre : ∀ e ∈ l, e.1 ≠ name) :
    ∃ pre f post, rs = pre ++ (name, a, f) :: post ∧ (∀ q ∈ pre, q.1 ≠ name) ∧
      l = pre.map regBinding ∧ l' = post.map regBinding := by
  obtain ⟨pre, rs', rfl, rfl, hrs'⟩ := List.map_eq_append_iff.mp hsplit
  obtain ⟨⟨k, b, f⟩, post, rfl, hr, rfl⟩ := List.map_eq_cons_iff.mp hrs'
  obtain ⟨rfl, rfl⟩ := Prod.mk.inj hr
  exact ⟨pre, f, post, rfl, fun q hq => hpre _ (List.mem_map_of_mem hq), rfl, rfl⟩

/-- A lookup finds the oldest registration of the name. -/
theorem Mapped.lookup (hm : Mapped d rs n) {found : Option Addr}
    (hget : d.hmapGet fuel name = some (d', found)) :
    d' = d ∧ ((found = none ∧ ∀ r ∈ rs, r.1 ≠ name) ∨
      ∃ pre b f post ms, found = some b ∧ rs = pre ++ (name, b, f) :: post ∧
        (∀ q ∈ pre, q.1 ≠ name) ∧ d.modules b = some ms ∧ ms.moduleFileObject = f) := by
  obtain ⟨hd, ⟨hnone, hall⟩ | ⟨l, b, l', hfound, hsplit, hpre⟩⟩ :=
    hmapGet_represents hm.static hm.represents hget
  · exact ⟨hd, Or.inl ⟨hnone, fun r hr => hall _ (List.mem_map_of_mem hr)⟩⟩
  · obtain ⟨pre, f, post, hrs, hpre, -, -⟩ := registration_of_binding hsplit hpre
    obtain ⟨ms, hms, hid⟩ := hm.stored (name, b, f) (by rw [hrs]; simp)
    exact ⟨hd, Or.inr ⟨pre, b, f, post, ms, hfound, hrs, hpre, hms, congrArg Prod.snd hid⟩⟩

/-- `FuseAddUserspaceIrp`. -/
theorem fuseAddUserspaceIrp_same (hm : Mapped d rs n)
    (hcall : fuseAddUserspaceIrp fuel d p sp a = some (d', status)) : SameMap d d' := by
  unfold fuseAddUserspaceIrp at hcall
  simp only at hcall
  split at hcall
  · obtain ⟨⟨d₁, found⟩, hget, hcall⟩ := Option.bind_eq_some_iff.mp hcall
    obtain ⟨rfl, ⟨rfl, -⟩ | ⟨-, b, -, -, ms, rfl, -, -, hms, -⟩⟩ := hm.lookup hget
    · obtain ⟨rfl, -⟩ := Prod.mk.inj (Option.some.inj hcall)
      exact (SameMap.refl d₁).complete p
    · simp only [hms, Option.bind_eq_bind, Option.bind_some] at hcall
      obtain ⟨⟨w₁, ms₁, ok⟩, hadd, hcall⟩ := Option.bind_eq_some_iff.mp hcall
      obtain ⟨⟨w₂, ms₂, found⟩, hwork, hcall⟩ := Option.bind_eq_some_iff.mp hcall
      obtain ⟨rfl, -⟩ := Prod.mk.inj (Option.some.inj hcall)
      exact SameMap.work hms ((fuseAddIrpToModuleList_keeps hadd).trans
        (fuseCheckForWork_keeps hwork))
  · obtain ⟨rfl, -⟩ := Prod.mk.inj (Option.some.inj hcall)
    exact (SameMap.refl d).complete p

/-- `IRP_FUSE_MODULE_REQUEST`. -/
theorem moduleRequest_same {ms : ModuleStruct} {b : Addr} (hms : d.modules b = some ms)
    (hcall : moduleRequest fuel d p b ms a = some (d', status)) : SameMap d d' := by
  obtain ⟨⟨w₁, ms₁, ok⟩, hadd, hcall⟩ := Option.bind_eq_some_iff.mp hcall
  have hkeep := fuseAddIrpToModuleList_keeps hadd
  cases ok with
  | true =>
      obtain ⟨⟨w₂, ms₂, found⟩, hwork, hcall⟩ := Option.bind_eq_some_iff.mp hcall
      obtain ⟨rfl, -⟩ := Prod.mk.inj (Option.some.inj hcall)
      exact SameMap.work hms (hkeep.trans (fuseCheckForWork_keeps hwork))
  | false =>
      obtain ⟨rfl, -⟩ := Prod.mk.inj (Option.some.inj hcall)
      exact (SameMap.work hms hkeep).complete p

/-- `IRP_FUSE_MODULE_RESPONSE`. -/
theorem moduleResponse_same {ms : ModuleStruct} {b : Addr} (hms : d.modules b = some ms)
    (hcall : moduleResponse fuel d p b ms = some (d', status)) : SameMap d d' := by
  obtain ⟨⟨w₁, ms₁, st⟩, hcopy, hcall⟩ := Option.bind_eq_some_iff.mp hcall
  obtain ⟨rfl, -⟩ := Prod.mk.inj (Option.some.inj hcall)
  exact (SameMap.work hms (fuseCopyResponse_keeps hcopy)).complete p

/-- `FuseFsdFileSystemControl`, when it does not mount a module. -/
theorem fuseFsdFileSystemControl_same (hm : Mapped d rs n)
    (hno : ¬ (sp.fsControlCode = irpFuseMount ∧ 1 < (d.world.files sp.fileObject).length))
    (hcall : fuseFsdFileSystemControl fuel d p sp a = some (d', status)) : SameMap d d' := by
  unfold fuseFsdFileSystemControl at hcall
  simp only at hcall
  split at hcall
  · obtain ⟨rfl, -⟩ := Prod.mk.inj (Option.some.inj hcall)
    exact .refl _
  rename_i hlen
  split at hcall
  · rename_i hmount
    exact absurd ⟨hmount, by omega⟩ hno
  split at hcall
  · obtain ⟨⟨d₁, found⟩, hget, hcall⟩ := Option.bind_eq_some_iff.mp hcall
    obtain ⟨rfl, ⟨rfl, -⟩ | ⟨-, b, -, -, ms, rfl, -, -, hms, -⟩⟩ := hm.lookup hget
    · obtain ⟨rfl, -⟩ := Prod.mk.inj (Option.some.inj hcall)
      exact .refl _
    simp only [hms, Option.bind_eq_bind, Option.bind_some] at hcall
    split at hcall
    · split at hcall
      · exact moduleRequest_same hms hcall
      · exact moduleResponse_same hms hcall
    · obtain ⟨rfl, -⟩ := Prod.mk.inj (Option.some.inj hcall)
      exact (SameMap.refl _).complete p
  · obtain ⟨rfl, -⟩ := Prod.mk.inj (Option.some.inj hcall)
    exact (SameMap.refl _).complete p

/-- `IRP_FUSE_MOUNT` stores an idle module at an address that was free, and
    enters it in the map. -/
theorem fuseFsdFileSystemControl_mount (hcode : sp.fsControlCode = irpFuseMount)
    (hlen : 1 < (d.world.files sp.fileObject).length)
    (hcall : fuseFsdFileSystemControl fuel d p sp a = some (d', status)) :
    d.modules a = none ∧ ∃ d₁,
      (d.setModule a (some (.zeroed (d.nameOf sp.fileObject) sp.fileObject))).hmapAdd fuel
        (d.nameOf sp.fileObject) a = some d₁ ∧
      d' = { d₁ with world := d₁.world.complete p } := by
  unfold fuseFsdFileSystemControl at hcall
  simp only [hcode, if_true, if_neg (by omega : ¬ (d.world.files sp.fileObject).length ≤ 1)]
    at hcall
  unfold mountModule at hcall
  simp only at hcall
  split at hcall
  · contradiction
  rename_i hfree
  obtain ⟨d₁, hadd, hcall⟩ := Option.bind_eq_some_iff.mp hcall
  obtain ⟨rfl, -⟩ := Prod.mk.inj (Option.some.inj hcall)
  exact ⟨not_not.mp hfree, d₁, hadd, rfl⟩

/-- `FuseFsdFileSystemControl`, when it mounts a module; there was a free slot. -/
theorem fuseFsdFileSystemControl_mapped (hm : Mapped d rs n)
    (hcode : sp.fsControlCode = irpFuseMount)
    (hlen : 1 < (d.world.files sp.fileObject).length)
    (hcall : fuseFsdFileSystemControl fuel d p sp a = some (d', status)) :
    n < hmapPresetSize ∧ d'.world.files = d.world.files ∧
      Mapped d' (rs ++ [(d.nameOf sp.fileObject, a, sp.fileObject)]) (n + 1) := by
  obtain ⟨hfree, d₁, hadd, rfl⟩ := fuseFsdFileSystemControl_mount hcode hlen hcall
  have hrep : Represents (d.setModule a (some (ModuleStruct.zeroed (d.nameOf sp.fileObject)
      sp.fileObject))).map hmapPresetSize homeSlot (rs.map regBinding) n := hm.represents
  have hn : n < hmapPresetSize := by
    by_contra hfull
    have hnone := hrep.vacant_eq_none (Nat.le_of_not_lt hfull)
      (homeSlot_lt (d.nameOf sp.fileObject)) fuel
    simp only [Driver.hmapAdd, Driver.hashSlot_eq (d := d.setModule a _) hm.static,
      Option.bind_eq_bind, Option.bind_some] at hadd
    obtain ⟨i, hi, -⟩ := Option.bind_eq_some_iff.mp hadd
    rw [hnone] at hi
    contradiction
  obtain ⟨t, rfl, hrep'⟩ := hmapAdd_represents (d := d.setModule a _) hm.static hrep hadd
  have hne : ∀ r ∈ rs, r.2.1 ≠ a := by
    intro r hr ha
    obtain ⟨ms, hms, -⟩ := hm.stored r hr
    rw [ha, hfree] at hms
    contradiction
  refine ⟨hn, rfl, ?_, hm.static, ?_, ?_⟩
  · rw [List.map_append]
    exact hrep'
  · intro r hr
    rcases List.mem_append.mp hr with hr | hr
    · obtain ⟨ms, hms, hid⟩ := hm.stored r hr
      exact ⟨ms, (if_neg (hne r hr)).trans hms, hid⟩
    · rw [List.mem_singleton.mp hr]
      exact ⟨_, if_pos rfl, rfl⟩
  · rw [List.map_append, List.nodup_append]
    refine ⟨hm.distinct, by simp, fun b hb c hc hbc => ?_⟩
    obtain ⟨r, hr, rfl⟩ := List.mem_map.mp hb
    obtain rfl : a = c := by simpa [eq_comm] using hc
    exact hne r hr hbc

/-- The oldest registration of a name is unique. -/
theorem first_unique {pre pre' post post' : List (List Wchar × Addr × Pfile)}
    {r r' : List Wchar × Addr × Pfile} (hrs : rs = pre ++ r :: post) (hr : r.1 = name)
    (hpre : ∀ q ∈ pre, q.1 ≠ name) (hrs' : rs = pre' ++ r' :: post') (hr' : r'.1 = name)
    (hpre' : ∀ q ∈ pre', q.1 ≠ name) : r = r' := by
  have hfind : rs.find? (·.1 = name) = some r :=
    List.find?_eq_some_iff_append.mpr ⟨by simpa using hr, pre, post, hrs,
      fun q hq => by simpa using hpre q hq⟩
  have hfind' : rs.find? (·.1 = name) = some r' :=
    List.find?_eq_some_iff_append.mpr ⟨by simpa using hr', pre', post', hrs',
      fun q hq => by simpa using hpre' q hq⟩
  exact Option.some.inj (hfind.symm.trans hfind')

/-- Without one of the registrations, the others have addresses of their own. -/
theorem Mapped.others (hm : Mapped d rs n) {pre post : List (List Wchar × Addr × Pfile)}
    {r : List Wchar × Addr × Pfile} (hrs : rs = pre ++ r :: post) :
    (∀ q ∈ pre ++ post, q.2.1 ≠ r.2.1) ∧ ((pre ++ post).map (·.2.1)).Nodup := by
  have hnd := hm.distinct
  rw [hrs, List.map_append, List.map_cons, List.nodup_middle, ← List.map_append] at hnd
  obtain ⟨hnot, hrest⟩ := List.nodup_cons.mp hnd
  exact ⟨fun q hq hqr => hnot (List.mem_map.mpr ⟨q, hq, hqr⟩), hrest⟩

/-- `hmap_remove` of a name that is registered. -/
theorem Mapped.dismount (hm : Mapped d rs n) {pre post : List (List Wchar × Addr × Pfile)}
    {addr : Addr} {f : Pfile} {removed : Bool} (hrs : rs = pre ++ (name, addr, f) :: post)
    (hpre : ∀ q ∈ pre, q.1 ≠ name) (hrem : d.hmapRemove fuel name = some (d', removed)) :
    d'.world.files = d.world.files ∧
      ∃ pre post, rs = pre ++ (name, addr, f) :: post ∧ (∀ q ∈ pre, q.1 ≠ name) ∧
        Mapped d' (pre ++ post) n := by
  rcases hmapRemove_represents hm.static hm.represents hrem with
    ⟨-, hall⟩ | ⟨l, b, l', ms, w, t, hsplit, hl, hms, hdel, rfl, hrep⟩
  · have hmem : (name, addr, f) ∈ rs := by rw [hrs]; simp
    exact absurd rfl (hall (name, addr) (List.mem_map.mpr ⟨_, hmem, rfl⟩))
  obtain ⟨pre', f', post', hrs', hpre', rfl, rfl⟩ := registration_of_binding hsplit hl
  obtain ⟨-, rfl, rfl⟩ : name = name ∧ addr = b ∧ f = f' := by
    simpa using first_unique hrs rfl hpre hrs' rfl hpre'
  obtain ⟨hne, hnd⟩ := hm.others hrs'
  obtain ⟨hstatic, hfiles⟩ := moduleStructDelete_static hdel
  refine ⟨hfiles, pre', post', hrs', hpre', ?_, hstatic.trans hm.static, fun r hr => ?_, ?_⟩
  · rw [List.map_append]
    exact hrep
  · have hmem : r ∈ rs := by
      rw [hrs', List.mem_append, List.mem_cons]
      exact (List.mem_append.mp hr).imp id Or.inr
    obtain ⟨ms', hms', hid⟩ := hm.stored r hmem
    exact ⟨ms', (if_neg (hne r hr)).trans hms', hid⟩
  · exact hnd

/-- `FuseCheckUnmountModule`: nothing happens, and the closed handle does not
    have the oldest module of its name, or that module is dismounted. -/
theorem fuseCheckUnmountModule_mapped (hm : Mapped d rs n) {f : Pfile} {b : Bool}
    (hcall : fuseCheckUnmountModule fuel d f = some (d', b)) :
    d'.world.files = d.world.files ∧ ((d' = d ∧ (0 < (d.world.files f).length → ∀ pre r post, rs = pre ++ r :: post →
        r.1 = d.nameOf f → (∀ q ∈ pre, q.1 ≠ d.nameOf f) → r.2.2 ≠ f)) ∨
      ∃ pre addr post, d.hmapGet fuel (d.nameOf f) = some (d, some addr) ∧
        rs = pre ++ (d.nameOf f, addr, f) :: post ∧
        (∀ q ∈ pre, q.1 ≠ d.nameOf f) ∧ Mapped d' (pre ++ post) n) := by
  unfold fuseCheckUnmountModule at hcall
  simp only at hcall
  split at hcall
  · obtain ⟨⟨d₁, found⟩, hget, hcall⟩ := Option.bind_eq_some_iff.mp hcall
    obtain ⟨rfl, ⟨rfl, hall⟩ | ⟨pre, addr, g, post, ms, rfl, hrs, hpre, hms, hfop⟩⟩ :=
      hm.lookup hget
    · obtain ⟨rfl, -⟩ := Prod.mk.inj (Option.some.inj hcall)
      refine ⟨rfl, Or.inl ⟨rfl, fun _ pre r post hrs hr _ => ?_⟩⟩
      exact absurd hr (hall r (by rw [hrs]; simp))
    simp only [hms, Option.bind_eq_bind, Option.bind_some] at hcall
    split at hcall
    · rename_i hown
      obtain ⟨⟨d₂, removed⟩, hrem, hcall⟩ := Option.bind_eq_some_iff.mp hcall
      obtain ⟨rfl, -⟩ := Prod.mk.inj (Option.some.inj hcall)
      obtain rfl : g = f := hfop.symm.trans hown
      obtain ⟨hfiles, pre', post', hcase⟩ := hm.dismount hrs hpre hrem
      exact ⟨hfiles, Or.inr ⟨pre', addr, post', hget, hcase⟩⟩
    · rename_i hother
      obtain ⟨rfl, -⟩ := Prod.mk.inj (Option.some.inj hcall)
      refine ⟨rfl, Or.inl ⟨rfl, fun _ pre' r post' hrs' hr hpre' hf => hother ?_⟩⟩
      obtain rfl := first_unique hrs rfl hpre hrs' hr hpre'
      rw [hfop, ← hf]
  · rename_i hlen
    obtain ⟨rfl, -⟩ := Prod.mk.inj (Option.some.inj hcall)
    exact ⟨rfl, Or.inl ⟨rfl, fun h => absurd h hlen⟩⟩

end Calls

-- ============================================================================
-- Steps and runs
-- ============================================================================

/-- What a call does to the registrations and to the number of taken slots. -/
inductive Remount (s : System) (l : SysCall) (rs : List (List Wchar × Addr × Pfile)) (n : Nat) :
    List (List Wchar × Addr × Pfile) → Nat → Prop
  | same (hno : ∀ f, l ≠ .closeFile f) (hnot : s.mountsBy l = none) : Remount s l rs n rs n
  | mount {f : Pfile} {a : Addr} (hl : s.mountsBy l = some f) (hopen : f ∈ s.opened)
      (hlen : 1 < (s.driver.world.files f).length) (hn : n < hmapPresetSize) :
      Remount s l rs n (rs ++ [(s.driver.nameOf f, a, f)]) (n + 1)
  | stay {f : Pfile} (hl : l = .closeFile f)
      (hno : 0 < (s.driver.world.files f).length → ∀ pre r post, rs = pre ++ r :: post →
        r.1 = s.driver.nameOf f → (∀ q ∈ pre, q.1 ≠ s.driver.nameOf f) → r.2.2 ≠ f) :
      Remount s l rs n rs n
  | dismount {f : Pfile} {pre post : List (List Wchar × Addr × Pfile)} {a : Addr} {fuel : Nat}
      (hl : l = .closeFile f)
      (hget : s.driver.hmapGet fuel (s.driver.nameOf f) = some (s.driver, some a)) (hrs : rs = pre ++ (s.driver.nameOf f, a, f) :: post)
      (hpre : ∀ q ∈ pre, q.1 ≠ s.driver.nameOf f) : Remount s l rs n (pre ++ post) n

section Steps

variable {s s' : System} {l : SysCall} {rs : List (List Wchar × Addr × Pfile)} {n : Nat}

/-- The control request is the call that `mountsBy` looks at. -/
theorem System.mountsBy_fsControl {p : Pirp} {irp : Irp} {sp : IoStackLocation} {a : Addr}
    (s : System) (hsp : irp.currentStackLocation = some sp) :
    s.mountsBy (.fsControl p irp a) =
      if s.mountsName sp (s.driver.nameOf sp.fileObject) then some sp.fileObject else none := by
  simp [System.mountsBy, hsp]

/-- Every call changes the registrations in one of these ways. -/
theorem step_remount (hm : Mapped s.driver rs n) (hs : SysStep s l s') :
    (∀ f ∈ s.opened, s'.driver.world.files f = s.driver.world.files f) ∧
      ∃ rs' n', Remount s l rs n rs' n' ∧ Mapped s'.driver rs' n' := by
  cases hs with
  | @openFile f name hfresh =>
      refine ⟨fun g hg => if_neg (ne_of_mem_of_not_mem hg hfresh), rs, n, .same (by simp) rfl, ?_⟩
      exact hm.irrelevant s.driver.world.irps (s.driver.setFile f name).world.files
  | @userspace d p irp sp a status fuel hp hsp _ hcall =>
      have hm₁ := hm.irrelevant (s.driver.world.setIrp p irp).irps s.driver.world.files
      have hsame := fuseAddUserspaceIrp_same hm₁ hcall
      exact ⟨fun f _ => congrFun hsame.files f, rs, n, .same (by simp) rfl, hm₁.same hsame⟩
  | @fsControl d p irp sp a status fuel hp hsp hopen hcall =>
      have hm₁ := hm.irrelevant (s.driver.world.setIrp p irp).irps s.driver.world.files
      have hby := s.mountsBy_fsControl (p := p) (a := a) hsp
      by_cases hmount : s.mountsName sp (s.driver.nameOf sp.fileObject)
      · obtain ⟨hn, hfiles, hm'⟩ := fuseFsdFileSystemControl_mapped hm₁ hmount.1 hmount.2.1 hcall
        exact ⟨fun f _ => congrFun hfiles f, _, _,
          .mount (hby.trans (if_pos hmount)) hopen hmount.2.1 hn, hm'⟩
      · have hsame := fuseFsdFileSystemControl_same hm₁ (fun h => hmount ⟨h.1, h.2, rfl⟩) hcall
        exact ⟨fun f _ => congrFun hsame.files f, rs, n,
          .same (by simp) (hby.trans (if_neg hmount)), hm₁.same hsame⟩
  | cancel p =>
      exact ⟨fun _ _ => rfl, rs, n, .same (by simp) rfl,
        hm.irrelevant (s.driver.world.cancel p).irps s.driver.world.files⟩
  | @closeFile d f b fuel hopen hcall =>
      obtain ⟨hfiles, hcase⟩ := fuseCheckUnmountModule_mapped hm hcall
      refine ⟨fun g _ => congrFun hfiles g, ?_⟩
      rcases hcase with ⟨rfl, hno⟩ | ⟨pre, a, post, hget, hrs, hpre, hm'⟩
      · exact ⟨rs, n, .stay rfl hno, hm⟩
      · exact ⟨_, n, .dismount rfl hget hrs hpre, hm'⟩

theorem started_mapped (w : World) : Mapped (System.started w).driver [] 0 :=
  ⟨Represents.empty hmapPresetSize homeSlot, rfl, by simp, by simp⟩

/-- One slot is taken for each mount, and no slot is ever given back. -/
theorem run_mapped (w : World) {tr : List (System × SysCall)}
    (hrun : Run SysStep (System.started w) tr s) :
    ∃ rs, Mapped s.driver rs (mountsIn tr) := by
  induction hrun with
  | nil => exact ⟨[], started_mapped w⟩
  | @snoc tr s s' l _ hs ih =>
      obtain ⟨rs, hm⟩ := ih
      obtain ⟨-, rs', n', hre, hm'⟩ := step_remount hm hs
      have hcount : mountsIn (tr ++ [(s, l)]) =
          mountsIn tr + if (s.mountsBy l).isSome then 1 else 0 := by
        simp [mountsIn, List.countP_append, List.countP_singleton]
      rw [hcount]
      cases hre with
      | same _ hnot => exact ⟨_, by simpa [hnot] using hm'⟩
      | mount hl => exact ⟨_, by simpa [hl] using hm'⟩
      | stay hl => exact ⟨_, by simpa [hl, System.mountsBy] using hm'⟩
      | dismount hl => exact ⟨_, by simpa [hl, System.mountsBy] using hm'⟩

end Steps

end FuseNt
