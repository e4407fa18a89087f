/-
  FuseNt.Driver.Dismount

  What long runs of mounts and dismounts do to `ModuleMap`.

  Two questions.  Do the probe loops of `__oa_get_location` and
  `__oa_hmap_add` come to an end?  A removed entry keeps its slot and the table
  does not grow, so that they do while fewer modules than slots have been
  mounted since the driver was loaded, and after that no more
  (`probes_end_iff`).  And does the close of a handle dismount what the handle
  has mounted?  `FuseCheckUnmountModule` removes the oldest module of the
  handle's name if it is the handle's own, and no other (`closed_unmounted`).
-/

import FuseNt.Driver.Mounts
import FuseNt.Driver.Impersonation

namespace FuseNt

open FuseNt.Lib

-- ============================================================================
-- The probe loops
-- ============================================================================

/-- The loops that the next lookup, dismount or mount runs come to an end. -/
structure ProbesEnd (d : Driver) : Prop where
  /-- `__oa_get_location`, which `hmap_get` and `hmap_remove` call. -/
  search : ∀ name, ∃ fuel, (d.oaGetLocation fuel name).isSome
  /-- `__oa_hmap_add`. -/
  insert : ∀ name a, ∃ fuel, (d.hmapAdd fuel name a).isSome

section Probes

variable {d : Driver} {rs : List (List Wchar × Addr × Pfile)} {n : Nat} {name : List Wchar}
  {a : Addr}

theorem Mapped.hmapAdd_eq (hm : Mapped d rs n) (fuel : Nat) (name : List Wchar) (a : Addr) :
    d.hmapAdd fuel name a =
      (d.map.vacant hmapPresetSize fuel (homeSlot name)).map fun i =>
        { d with map := d.map.set i (some (some name, a)), size := d.size + 1 } := by
  simp only [Driver.hmapAdd, Driver.hashSlot_eq hm.static, Option.bind_eq_bind, Option.bind_some]
  cases d.map.vacant hmapPresetSize fuel (homeSlot name) with
  | none => rfl
  | some i =>
      show some _ = some _
      rw [← hm.static]

/-- The loops end while a slot is free. -/
theorem Mapped.probesEnd (hm : Mapped d rs n) (hn : n < hmapPresetSize) : ProbesEnd d := by
  constructor
  · intro name
    refine ⟨hmapPresetSize, ?_⟩
    rw [oaGetLocation_eq hm.static, Option.isSome_map]
    exact hm.represents.locate_isSome hn (homeSlot_lt name)
  · intro name a
    refine ⟨hmapPresetSize, ?_⟩
    rw [hm.hmapAdd_eq, Option.isSome_map]
    exact hm.represents.vacant_isSome hn (homeSlot_lt name)

/-- With all slots taken a mount does not end. -/
theorem Mapped.hmapAdd_spins (hm : Mapped d rs n) (hn : hmapPresetSize ≤ n) (fuel : Nat)
    (name : List Wchar) (a : Addr) : d.hmapAdd fuel name a = none := by
  rw [hm.hmapAdd_eq, hm.represents.vacant_eq_none hn (homeSlot_lt name), Option.map_none]

/-- With all slots taken the lookup of a name that is not mounted does not end. -/
theorem Mapped.oaGetLocation_spins (hm : Mapped d rs n) (hn : hmapPresetSize ≤ n)
    (hname : ∀ r ∈ rs, r.1 ≠ name) (fuel : Nat) : d.oaGetLocation fuel name = none := by
  have hkeys : ∀ e ∈ rs.map regBinding, e.1 ≠ name := by
    intro e he
    obtain ⟨r, hr, rfl⟩ := List.mem_map.mp he
    exact hname r hr
  rw [oaGetLocation_eq hm.static, hm.represents.locate_eq_none hn (homeSlot_lt name) hkeys,
    Option.map_none]

/-- After every run the loops end if and only if fewer modules than slots have
    been mounted in it, however many of them have been dismounted. -/
theorem probes_end_iff (w : World) {tr : List (System × SysCall)} {s : System}
    (hrun : Run SysStep (System.started w) tr s) :
    ProbesEnd s.driver ↔ mountsIn tr < hmapPresetSize := by
  obtain ⟨rs, hm⟩ := run_mapped w hrun
  constructor
  · intro h
    by_contra hfull
    obtain ⟨fuel, hadd⟩ := h.insert [] 0
    rw [hm.hmapAdd_spins (Nat.le_of_not_lt hfull)] at hadd
    contradiction
  · exact hm.probesEnd

end Probes

-- ============================================================================
-- One module, restarted again and again
-- ============================================================================

section Restart

variable {d : Driver} {rs : List (List Wchar × Addr × Pfile)} {n k : Nat} {p : Pirp}
  {sp : IoStackLocation} {a : Addr} {f : Pfile}

/-- A mount returns while a slot is free. -/
theorem Mapped.mount_returns (hm : Mapped d rs n) (hn : n < hmapPresetSize)
    (hcode : sp.fsControlCode = irpFuseMount) (hlen : 1 < (d.world.files sp.fileObject).length)
    (hfree : d.modules a = none) :
    ∃ t, fuseFsdFileSystemControl hmapPresetSize d p sp a =
      some ({ d.setModule a (some (.zeroed (d.nameOf sp.fileObject) sp.fileObject)) with
        world := d.world.complete p, map := t, size := d.size + 1 }, statusSuccess) := by
  have hshort : ¬ (d.world.files sp.fileObject).length ≤ 1 := by omega
  obtain ⟨i, hi⟩ := Option.isSome_iff_exists.mp
    (hm.represents.vacant_isSome hn (homeSlot_lt (d.nameOf sp.fileObject)))
  refine ⟨d.map.set i (some (some (d.nameOf sp.fileObject), a)), ?_⟩
  unfold fuseFsdFileSystemControl mountModule
  simp only [hshort, hcode, hfree, if_true, if_false, ne_eq, not_true_eq_false, Driver.hmapAdd,
    Driver.hashSlot_eq (d := d.setModule a _) hm.static, Option.bind_eq_bind, Option.bind_some]
  rw [show mountName (d.world.files sp.fileObject).text = d.nameOf sp.fileObject from rfl,
    show (d.setModule a _).map = d.map from rfl, hi, Option.bind_some]
  show some _ = some _
  rw [show ({ (d.setModule a _).world with strHashC := 0 } : World) = d.world from ?_]
  · rfl
  · rw [← hm.static]
    rfl

/-- The close of a handle whose idle module is the only one returns while a
    slot is free. -/
theorem Mapped.dismount_returns (hm : Mapped d [(d.nameOf f, a, f)] n) (hn : n < hmapPresetSize)
    (hlen : 0 < (d.world.files f).length)
    (hms : d.modules a = some (.zeroed (d.nameOf f) f)) :
    ∃ t, fuseCheckUnmountModule hmapPresetSize d f =
      some ({ d.setModule a none with map := t }, true) := by
  obtain ⟨i, hloc, hslot⟩ : ∃ i,
      d.map.locate hmapPresetSize (d.nameOf f) hmapPresetSize (homeSlot (d.nameOf f)) =
        some (some i) ∧ d.map i = some (some (d.nameOf f), a) := by
    obtain ⟨r, hr⟩ := Option.isSome_iff_exists.mp
      (hm.represents.locate_isSome hn (homeSlot_lt (d.nameOf f)))
    rcases hm.represents.locate (homeSlot_lt _) hr with
      ⟨-, hall⟩ | ⟨i, pre, b, post, rfl, hsplit, -, hslot, -⟩
    · exact absurd rfl (hall (d.nameOf f, a) (by simp [regBinding]))
    · obtain ⟨-, rfl⟩ : pre = [] ∧ a = b := by
        cases pre with
        | nil => exact ⟨rfl, by simpa [regBinding] using (List.cons.inj hsplit).1⟩
        | cons => simp at hsplit
      exact ⟨i, hr, hslot⟩
  refine ⟨d.map.set i (some (none, a)), ?_⟩
  have hname : mountName (d.world.files f).text = d.nameOf f := rfl
  have hfop : (ModuleStruct.zeroed (d.nameOf f) f).moduleFileObject = f := rfl
  have hdel : moduleStructDelete hmapPresetSize d.world (.zeroed (d.nameOf f) f) = some d.world :=
    rfl
  unfold fuseCheckUnmountModule
  simp only [hlen, if_true, hname, Driver.hmapGet, Driver.hmapRemove, oaGetLocation_eq hm.static,
    hloc, hslot, hms, hfop, hdel, Option.map_some, Option.bind_eq_bind, Option.bind_some]
  rfl

/-- A moment in the life of the module `\v`, after `k` mounts: the open
    handles, the registrations, and what is at address 0. -/
structure Moment (s : System) (k : Nat) (handles : List Pfile)
    (rs : List (List Wchar × Addr × Pfile)) (m : Option ModuleStruct) : Prop where
  mapped : Mapped s.driver rs k
  opened : s.opened = handles
  named : ∀ f ∈ handles, s.driver.world.files f = sampleModuleName
  reusable : completions s.driver.world.log 11 ≠ some 0
  module : s.driver.modules 0 = m

variable {w : World} {tr : List (System × SysCall)} {s : System}

theorem Moment.openFile (h : Moment s k [] [] none) :
    ∃ s', SysStep s (.openFile 1 sampleModuleName) s' ∧ Moment s' k [1] [] none := by
  refine ⟨_, .openFile (by simp [h.opened]),
    h.mapped.irrelevant s.driver.world.irps (s.driver.setFile 1 sampleModuleName).world.files,
    by simp [h.opened], ?_, h.reusable, h.module⟩
  intro f hf
  rw [List.mem_singleton.mp hf]
  rfl

theorem Moment.mount (h : Moment s k [1] [] none) (hk : k < hmapPresetSize) :
    ∃ s', SysStep s (.fsControl 11 (sampleMount 1) 0) s' ∧
      Moment s' (k + 1) [1] [([118], 0, 1)] (some (.zeroed [118] 1)) := by
  have hm : Mapped (s.driver.setIrp 11 (sampleMount 1)) [] k :=
    h.mapped.irrelevant (s.driver.world.setIrp 11 (sampleMount 1)).irps s.driver.world.files
  obtain ⟨sp, hsp, hcode, hfile⟩ : ∃ sp, (sampleMount 1).currentStackLocation = some sp ∧
      sp.fsControlCode = irpFuseMount ∧ sp.fileObject = 1 := ⟨_, rfl, rfl, rfl⟩
  have hnamed : (s.driver.setIrp 11 (sampleMount 1)).world.files sp.fileObject =
      sampleModuleName := by
    rw [hfile]
    exact h.named 1 (by simp)
  have hname : (s.driver.setIrp 11 (sampleMount 1)).nameOf sp.fileObject = [118] := by
    rw [Driver.nameOf, hnamed]
    rfl
  have hlen : 1 < ((s.driver.setIrp 11 (sampleMount 1)).world.files sp.fileObject).length := by
    rw [hnamed]
    decide
  obtain ⟨t, hcall⟩ := hm.mount_returns (p := 11) hk hcode hlen h.module
  obtain ⟨-, -, hm'⟩ := fuseFsdFileSystemControl_mapped hm hcode hlen hcall
  have hrs : [] ++ [((s.driver.setIrp 11 (sampleMount 1)).nameOf sp.fileObject, (0 : Addr),
      sp.fileObject)] = [([118], 0, 1)] := by
    rw [hname, hfile, List.nil_append]
  rw [hrs] at hm'
  refine ⟨_, .fsControl hmapPresetSize h.reusable hsp (by simp [hfile, h.opened]) hcall, hm',
    h.opened, h.named, ?_, ?_⟩
  · show completions (s.driver.world.log ++ [.completed 11]) 11 ≠ some 0
    rw [completions_concat]
    simp [countCompletion]
  · show (if (0 : Addr) = 0 then some (ModuleStruct.zeroed _ sp.fileObject)
      else s.driver.modules 0) = _
    rw [if_pos rfl, hname, hfile]

theorem Moment.closeFile (h : Moment s k [1] [([118], 0, 1)] (some (.zeroed [118] 1)))
    (hk : k < hmapPresetSize) :
    ∃ s', SysStep s (.closeFile 1) s' ∧ Moment s' k [] [] none := by
  have hnamed := h.named 1 (by simp)
  have hname : s.driver.nameOf 1 = [118] := by
    rw [Driver.nameOf, hnamed]
    rfl
  have hm : Mapped s.driver [(s.driver.nameOf 1, 0, 1)] k := hname ▸ h.mapped
  obtain ⟨t, hcall⟩ := hm.dismount_returns hk (by rw [hnamed]; decide) (hname ▸ h.module)
  obtain ⟨-, ⟨hd, hno⟩ | ⟨pre, b, post, -, hrs, -, hm'⟩⟩ := fuseCheckUnmountModule_mapped hm hcall
  · exact absurd rfl (hno (by rw [hnamed]; decide) [] _ [] rfl rfl (by simp))
  obtain ⟨rfl, rfl⟩ : pre = [] ∧ post = [] := by
    cases pre with
    | nil => exact ⟨rfl, (List.cons.inj hrs).2.symm⟩
    | cons => simp at hrs
  refine ⟨_, .closeFile hmapPresetSize (by simp [h.opened]) hcall, hm', ?_, by simp, h.reusable,
    ?_⟩
  · show s.opened.filter (· ≠ 1) = []
    rw [h.opened]
    rfl
  · show (if (0 : Addr) = 0 then none else s.driver.modules 0) = none
    rw [if_pos rfl]

/-- The module is started and stopped `k` times. -/
theorem restarts (hk : k < hmapPresetSize) :
    ∃ tr s, Run SysStep (System.started emptyWorld) tr s ∧ Moment s k [] [] none := by
  induction k with
  | zero =>
      exact ⟨[], _, .nil, started_mapped emptyWorld, rfl, by simp, by decide, rfl⟩
  | succ k ih =>
      obtain ⟨tr, s, hrun, h⟩ := ih (by omega)
      obtain ⟨s₁, hs₁, h₁⟩ := h.openFile
      obtain ⟨s₂, hs₂, h₂⟩ := h₁.mount (by omega)
      obtain ⟨s₃, hs₃, h₃⟩ := h₂.closeFile hk
      exact ⟨_, s₃, ((hrun.snoc hs₁).snoc hs₂).snoc hs₃, h₃⟩

/-- A run with two mounts and a dismount. -/
theorem probes_end_iff_two_mounts :
    ∃ tr s, Run SysStep (System.started emptyWorld) tr s ∧ mountsIn tr = 2 ∧
      (ProbesEnd s.driver ↔ mountsIn tr < hmapPresetSize) := by
  have h1 : Run SysStep (System.started emptyWorld) _ _ :=
    Run.nil.snoc (l := .openFile 1 sampleModuleName) (.openFile (by decide))
  have h2 := h1.snoc (l := .fsControl 11 (sampleMount 1) 201)
    (.fsControl 8 (by decide) rfl (by decide) rfl)
  have h3 := h2.snoc (l := .closeFile 1) (.closeFile 8 (by decide) rfl)
  have h4 := h3.snoc (l := .openFile 2 sampleOtherName) (.openFile (by decide))
  have hrun := h4.snoc (l := .fsControl 12 (sampleMount 2) 202)
    (.fsControl 8 (by decide) rfl (by decide) rfl)
  exact ⟨_, _, hrun, rfl, probes_end_iff emptyWorld hrun⟩

/-- The module `\v` is started 64 times and stopped in between.  Then the
    lookup of `\w` and every further mount search forever. -/
theorem probes_spin :
    ∃ tr s, Run SysStep (System.started emptyWorld) tr s ∧
      (∀ fuel, s.driver.oaGetLocation fuel [119] = none) ∧
      (∀ fuel name a, s.driver.hmapAdd fuel name a = none) ∧ ¬ ProbesEnd s.driver := by
  obtain ⟨tr, s, hrun, h⟩ := restarts (k := 63) (by decide)
  obtain ⟨s₁, hs₁, h₁⟩ := h.openFile
  obtain ⟨s₂, hs₂, h₂⟩ := h₁.mount (by decide)
  have hfull : hmapPresetSize ≤ 63 + 1 := by decide
  have hlookup : ∀ fuel, s₂.driver.oaGetLocation fuel [119] = none :=
    h₂.mapped.oaGetLocation_spins hfull (by simp)
  refine ⟨_, s₂, (hrun.snoc hs₁).snoc hs₂, hlookup, h₂.mapped.hmapAdd_spins hfull, fun hend => ?_⟩
  obtain ⟨fuel, hsome⟩ := hend.search [119]
  rw [hlookup] at hsome
  contradiction

end Restart

-- ============================================================================
-- What a close leaves behind
-- ============================================================================

/-- The condition on a step: when a handle is closed, every module that was
    mounted with it is the one that the lookup of its name finds. -/
def CloseOk (s : System) (l : SysCall) : Prop :=
  match l with
  | .closeFile f => ∀ i name a ms, s.driver.map i = some (some name, a) →
      s.driver.modules a = some ms → ms.moduleFileObject = f →
      ∃ fuel, s.driver.hmapGet fuel (s.driver.nameOf f) = some (s.driver, some a)
  | _ => True

/-- Every module in the map was mounted with a handle that is open. -/
def AllOpen (s : System) : Prop :=
  ∀ i name a ms, s.driver.map i = some (some name, a) → s.driver.modules a = some ms →
    ms.moduleFileObject ∈ s.opened

/-- No lookup returns a module that was mounted with the file object `h`. -/
def Unmounted (s : System) (h : Pfile) : Prop :=
  ∀ fuel name d a ms, s.driver.hmapGet fuel name = some (d, some a) → d.modules a = some ms →
    ms.moduleFileObject ≠ h

/-- The registrations, with handles that are open and have a name. -/
structure OpenInv (s : System) (rs : List (List Wchar × Addr × Pfile)) (n : Nat) : Prop where
  mapped : Mapped s.driver rs n
  opened : ∀ r ∈ rs, r.2.2 ∈ s.opened ∧ 0 < (s.driver.world.files r.2.2).length

section Close

variable {s s' : System} {l : SysCall} {rs : List (List Wchar × Addr × Pfile)} {n : Nat}

/-- The slots of the map hold the registered modules. -/
theorem Mapped.slot_iff (hm : Mapped s.driver rs n) {f : Pfile} {a : Addr} :
    (∃ i name ms, s.driver.map i = some (some name, a) ∧ s.driver.modules a = some ms ∧
      ms.moduleFileObject = f) ↔ ∃ name, (name, a, f) ∈ rs := by
  constructor
  · rintro ⟨i, name, ms, hi, hms, rfl⟩
    obtain ⟨⟨k, b, g⟩, hr, hkb⟩ := List.mem_map.mp (hm.represents.mem_iff.mpr ⟨i, hi⟩)
    obtain ⟨rfl, rfl⟩ := Prod.mk.inj hkb
    obtain ⟨ms', hms', hid⟩ := hm.stored _ hr
    obtain rfl : ms = ms' := Option.some.inj (hms.symm.trans hms')
    obtain rfl : ms.moduleFileObject = g := congrArg Prod.snd hid
    exact ⟨k, hr⟩
  · rintro ⟨name, hr⟩
    obtain ⟨i, hi⟩ := hm.represents.mem_iff.mp (List.mem_map_of_mem (f := regBinding) hr)
    obtain ⟨ms, hms, hid⟩ := hm.stored _ hr
    exact ⟨i, name, ms, hi, hms, congrArg Prod.snd hid⟩

theorem Mapped.allOpen_iff (hm : Mapped s.driver rs n) :
    AllOpen s ↔ ∀ r ∈ rs, r.2.2 ∈ s.opened := by
  constructor
  · rintro h ⟨name, a, f⟩ hr
    obtain ⟨i, k, ms, hi, hms, rfl⟩ := hm.slot_iff.mpr ⟨name, hr⟩
    exact h i k a ms hi hms
  · intro h i name a ms hi hms
    obtain ⟨k, hr⟩ := hm.slot_iff.mp ⟨i, name, ms, hi, hms, rfl⟩
    exact h _ hr

/-- Two registrations at one address are the same. -/
theorem Mapped.eq_of_addr (hm : Mapped s.driver rs n) {r r' : List Wchar × Addr × Pfile}
    (hr : r ∈ rs) (hr' : r' ∈ rs) (h : r.2.1 = r'.2.1) : r = r' :=
  List.inj_on_of_nodup_map hm.distinct hr hr' h

/-- A close that meets the condition: a module of the handle is the oldest one
    of the handle's name. -/
theorem Mapped.closeOk_iff (hm : Mapped s.driver rs n) {f : Pfile} :
    CloseOk s (.closeFile f) ↔ ∀ r ∈ rs, r.2.2 = f →
      ∃ fuel, s.driver.hmapGet fuel (s.driver.nameOf f) = some (s.driver, some r.2.1) := by
  constructor
  · rintro h ⟨name, a, g⟩ hr rfl
    obtain ⟨i, k, ms, hi, hms, hf⟩ := hm.slot_iff.mpr ⟨name, hr⟩
    exact h i k a ms hi hms hf
  · intro h i name a ms hi hms hf
    obtain ⟨k, hr⟩ := hm.slot_iff.mp ⟨i, name, ms, hi, hms, hf⟩
    exact h _ hr rfl

/-- Only a close takes away handles. -/
theorem step_opened (hs : SysStep s l s') (hno : ∀ f, l ≠ .closeFile f) :
    ∀ f ∈ s.opened, f ∈ s'.opened := by
  cases hs with
  | openFile _ => exact fun f hf => List.mem_cons_of_mem _ hf
  | userspace _ _ _ _ _ => exact fun f hf => hf
  | fsControl _ _ _ _ _ => exact fun f hf => hf
  | cancel _ => exact fun f hf => hf
  | closeFile _ _ _ => exact absurd rfl (hno _)

theorem step_closed {f : Pfile} (hs : SysStep s (.closeFile f) s') :
    s'.opened = s.opened.filter (· ≠ f) := by
  cases hs with
  | closeFile _ _ _ => rfl

/-- A close that meets the condition leaves no registration of the handle. -/
theorem OpenInv.closed {f : Pfile} {rs' : List (List Wchar × Addr × Pfile)} {n' : Nat}
    (hi : OpenInv s rs n) (hok : CloseOk s (.closeFile f))
    (hre : Remount s (.closeFile f) rs n rs' n') : ∀ r ∈ rs', r ∈ rs ∧ r.2.2 ≠ f := by
  have hfound : ∀ r ∈ rs, r.2.2 = f → ∃ pre post, rs = pre ++ r :: post ∧
      r.1 = s.driver.nameOf f ∧ ∀ q ∈ pre, q.1 ≠ s.driver.nameOf f := by
    intro r hr hf
    obtain ⟨fuel, hget⟩ := hi.mapped.closeOk_iff.mp hok r hr hf
    obtain ⟨-, ⟨hnone, -⟩ | ⟨pre, b, g, post, ms, hsome, hrs, hpre, -, -⟩⟩ := hi.mapped.lookup hget
    · contradiction
    obtain rfl : r = (s.driver.nameOf f, b, g) :=
      hi.mapped.eq_of_addr hr (by rw [hrs]; simp) (Option.some.inj hsome)
    exact ⟨pre, post, hrs, rfl, hpre⟩
  cases hre with
  | same hno => exact absurd rfl (hno f)
  | mount hl => simp [System.mountsBy] at hl
  | stay hl hno =>
      obtain rfl := SysCall.closeFile.inj hl
      refine fun r hr => ⟨hr, fun hf => ?_⟩
      obtain ⟨pre, post, hrs, hname, hpre⟩ := hfound r hr hf
      exact hno (hf ▸ (hi.opened r hr).2) pre r post hrs hname hpre hf
  | @dismount g pre post a fuel hl hget hrs hpre =>
      obtain rfl := SysCall.closeFile.inj hl
      intro r hr
      have hmem : r ∈ rs := by
        rw [hrs, List.mem_append, List.mem_cons]
        exact (List.mem_append.mp hr).imp id Or.inr
      refine ⟨hmem, fun hf => ?_⟩
      obtain ⟨pre', post', hrs', hname', hpre'⟩ := hfound r hmem hf
      obtain rfl := first_unique hrs rfl hpre hrs' hname' hpre'
      exact (hi.mapped.others hrs).1 _ hr rfl

/-- A step that meets the condition. -/
theorem OpenInv.step (hi : OpenInv s rs n) (hok : CloseOk s l) (hs : SysStep s l s') :
    ∃ rs' n', OpenInv s' rs' n' := by
  obtain ⟨hfiles, rs', n', hre, hm'⟩ := step_remount hi.mapped hs
  refine ⟨rs', n', hm', ?_⟩
  have hkept : ∀ r ∈ rs, 0 < (s'.driver.world.files r.2.2).length := by
    intro r hr
    obtain ⟨hopen, hlen⟩ := hi.opened r hr
    rwa [hfiles _ hopen]
  by_cases hclose : ∃ f, l = .closeFile f
  · obtain ⟨f, rfl⟩ := hclose
    intro r hr
    obtain ⟨hmem, hne⟩ := hi.closed hok hre r hr
    refine ⟨?_, hkept r hmem⟩
    rw [step_closed hs]
    exact List.mem_filter.mpr ⟨(hi.opened r hmem).1, by simpa using hne⟩
  · have hopen := step_opened hs fun f hf => hclose ⟨f, hf⟩
    cases hre with
    | same => exact fun r hr => ⟨hopen _ (hi.opened r hr).1, hkept r hr⟩
    | @mount f a _ hf hlen _ =>
        intro r hr
        rcases List.mem_append.mp hr with hr | hr
        · exact ⟨hopen _ (hi.opened r hr).1, hkept r hr⟩
        · obtain rfl := List.mem_singleton.mp hr
          refine ⟨hopen f hf, ?_⟩
          show 0 < (s'.driver.world.files f).length
          rw [hfiles f hf]
          omega
    | stay hl => exact absurd ⟨_, hl⟩ hclose
    | dismount hl => exact absurd ⟨_, hl⟩ hclose

/-- A step that does not meet the condition leaves a module without a handle. -/
theorem OpenInv.step_bad (hi : OpenInv s rs n) (hbad : ¬ CloseOk s l) (hs : SysStep s l s') :
    ¬ AllOpen s' := by
  obtain ⟨-, rs', n', hre, hm'⟩ := step_remount hi.mapped hs
  rw [hm'.allOpen_iff]
  intro hall
  obtain ⟨f, rfl⟩ : ∃ f, l = .closeFile f := by
    cases l with
    | closeFile f => exact ⟨f, rfl⟩
    | _ => exact absurd trivial hbad
  have hleft : ∀ r ∈ rs', r.2.2 ≠ f := by
    intro r hr hf
    have hmem := hall r hr
    rw [step_closed hs, hf] at hmem
    simpa using (List.mem_filter.mp hmem).2
  refine hbad (hi.mapped.closeOk_iff.mpr fun r hr hf => ?_)
  cases hre with
  | same hno => exact absurd rfl (hno f)
  | mount hl => simp [System.mountsBy] at hl
  | stay hl hno => exact absurd hf (hleft r hr)
  | @dismount g pre post a fuel hl hget hrs hpre =>
      obtain rfl := SysCall.closeFile.inj hl
      refine ⟨fuel, ?_⟩
      rw [hrs] at hr
      rcases List.mem_cons.mp (List.perm_middle.mem_iff.mp hr) with rfl | hr
      · exact hget
      · exact absurd hf (hleft r hr)

theorem started_openInv (w : World) : OpenInv (System.started w) [] 0 :=
  ⟨started_mapped w, by simp⟩

/-- Along a run every module in the map has an open handle if and only if
    every close meets the condition. -/
theorem allOpen_iff (w : World) {tr : List (System × SysCall)}
    (hrun : Run SysStep (System.started w) tr s) :
    ((∀ x ∈ tr, AllOpen x.1) ∧ AllOpen s) ↔ ∀ x ∈ tr, CloseOk x.1 x.2 :=
  Run.good_iff (I := fun s => ∃ rs n, OpenInv s rs n) ⟨[], 0, started_openInv w⟩
    (fun _ ⟨_, _, hi⟩ => hi.mapped.allOpen_iff.mpr fun r hr => (hi.opened r hr).1)
    (fun _ _ _ ⟨_, _, hi⟩ hok hs => hi.step hok hs)
    (fun _ _ _ ⟨_, _, hi⟩ hbad hs => hi.step_bad hbad hs) hrun

/-- In every run in which every close meets the condition, a lookup never
    returns a module that was mounted with a handle that is closed. -/
theorem closed_unmounted (w : World) {tr : List (System × SysCall)}
    (hrun : Run SysStep (System.started w) tr s) (hok : ∀ x ∈ tr, CloseOk x.1 x.2) {h : Pfile}
    (hclosed : h ∉ s.opened) : Unmounted s h := by
  obtain ⟨rs, n, hi⟩ := Run.invariant (I := fun s => ∃ rs n, OpenInv s rs n)
    ⟨[], 0, started_openInv w⟩ (fun _ _ _ ⟨_, _, hi⟩ hok hs => hi.step hok hs) hrun hok
  intro fuel name d a ms hget hms hf
  obtain ⟨rfl, ⟨hnone, -⟩ | ⟨pre, b, g, post, ms', hsome, hrs, -, hms', hg⟩⟩ :=
    hi.mapped.lookup hget
  · contradiction
  obtain rfl : a = b := Option.some.inj hsome
  obtain rfl : ms = ms' := Option.some.inj (hms.symm.trans hms')
  refine hclosed ?_
  rw [← hf, hg]
  exact (hi.opened (name, a, g) (by rw [hrs]; simp)).1

end Close

/-- Handles 1 and 2 mount the modules `\v` and `\w`, and handle 1 is closed. -/
theorem closed_unmounted_two_modules :
    ∃ tr s, Run SysStep (System.started emptyWorld) tr s ∧ s.opened = [2] ∧
      (s.driver.find [119]).isSome ∧ Unmounted s 1 := by
  have h1 : Run SysStep (System.started emptyWorld) _ _ :=
    Run.nil.snoc (l := .openFile 1 sampleModuleName) (.openFile (by decide))
  have h2 := h1.snoc (l := .openFile 2 sampleOtherName) (.openFile (by decide))
  have h3 := h2.snoc (l := .fsControl 11 (sampleMount 1) 201)
    (.fsControl 8 (by decide) rfl (by decide) rfl)
  have h4 := h3.snoc (l := .fsControl 12 (sampleMount 2) 202)
    (.fsControl 8 (by decide) rfl (by decide) rfl)
  have hrun := h4.snoc (l := .closeFile 1) (.closeFile 8 (by decide) rfl)
  refine ⟨_, _, hrun, rfl, rfl, closed_unmounted emptyWorld hrun ?_ (by decide)⟩
  intro x hx
  simp only [List.nil_append, List.cons_append, List.mem_cons, List.not_mem_nil, or_false] at hx
  rcases hx with rfl | rfl | rfl | rfl | rfl
  · trivial
  · trivial
  · trivial
  · trivial
  · intro i name a ms hi hms hf
    replace hi : (if i = 6 then some (some [119], 202) else
      if i = 5 then some (some [118], 201) else none) = some (some name, a) := hi
    split at hi
    · obtain ⟨-, rfl⟩ : [119] = name ∧ (202 : Addr) = a := by simpa using hi
      rw [← Option.some.inj hms] at hf
      exact absurd hf (by decide)
    · split at hi
      · obtain ⟨-, rfl⟩ : [118] = name ∧ (201 : Addr) = a := by simpa using hi
        exact ⟨8, rfl⟩
      · contradiction

/-- Handle 1 mounts the name `\v` twice and is closed.  Its second module is
    still found, and nobody is left to serve it. -/
theorem closed_still_mounted :
    ∃ tr s, Run SysStep (System.started emptyWorld) tr s ∧
      (∃ x ∈ tr, x.2 = .closeFile 1) ∧ 1 ∉ s.opened ∧ ¬ Unmounted s 1 := by
  have h1 : Run SysStep (System.started emptyWorld) _ _ :=
    Run.nil.snoc (l := .openFile 1 sampleModuleName) (.openFile (by decide))
  have h2 := h1.snoc (l := .fsControl 11 (sampleMount 1) 201)
    (.fsControl 8 (by decide) rfl (by decide) rfl)
  have h3 := h2.snoc (l := .fsControl 12 (sampleMount 1) 202)
    (.fsControl 8 (by decide) rfl (by decide) rfl)
  have hrun := h3.snoc (l := .closeFile 1) (.closeFile 8 (by decide) rfl)
  refine ⟨_, _, hrun, ⟨_, List.mem_append_right _ (List.mem_singleton_self _), rfl⟩, by decide,
    fun h => ?_⟩
  exact h 8 [118] _ 202 (.zeroed [118] 1) rfl rfl rfl

end FuseNt
