/-
  FuseNt.Driver.Unload

  `free_hmap`, when the driver is unloaded.

  The loop is to call `module_struct_delete` on every module of the map.  It
  runs up to `size`, the number of mounts, and not up to `capacity`; and a
  dismount has left its pointer in its slot.  Since all names have one home,
  the mounts take the slots one after the other (`Laid`): the loop finds the
  pointers of the mounts whose slot lies below the number of mounts, whether
  or not they have been dismounted since.
-/

import FuseNt.Driver.Dismount
import FuseNt.Lib.Replay

namespace FuseNt

open FuseNt.Lib

-- ============================================================================
-- The code
-- ============================================================================

namespace Driver

/-- `hmap->map[it].v`; `none` is a null pointer. -/
def valueAt (d : Driver) (it : Nat) : Option Addr := (d.map it).map Prod.snd

/-- `free_hmap`: the pointers that the loop calls `del_fn` on, in order. -/
def freeHmap (d : Driver) : List Addr := (List.range d.size.toNat).filterMap d.valueAt

end Driver

-- ============================================================================
-- The property and the condition
-- ============================================================================

/-- `free_hmap` deletes every module that is mounted once, and nothing else. -/
structure UnloadsOnce (d : Driver) : Prop where
  once : ∀ a, (d.modules a).isSome → d.freeHmap.count a = 1
  mounted : ∀ a ∈ d.freeHmap, (d.modules a).isSome

/-- The address of the `MODULE_STRUCT` that a call mounts. -/
def System.mountsAt (s : System) : SysCall → Option Addr
  | .fsControl p irp a => (s.mountsBy (.fsControl p irp a)).map fun _ => a
  | _ => none

/-- The addresses of the `MODULE_STRUCT`s of the mounts of a run, oldest first. -/
def mountAddrs (tr : List (System × SysCall)) : List Addr :=
  tr.filterMap fun x => x.1.mountsAt x.2

/-- The slot of the mount with the number `k`. -/
def mountSlot (k : Nat) : Nat := (5381 + k) % hmapPresetSize

/-- The mount with the number `k` of those at `as` was at the address `a`, and
    its slot lies below the number of mounts. -/
def LoopReaches (as : List Addr) (k : Nat) (a : Addr) : Prop :=
  as[k]? = some a ∧ mountSlot k < as.length

/-- The condition: of the mounts of a run, which were at `as`, the structs of
    those with a slot below their number are the ones that are mounted, each at
    an address of its own. -/
structure UnloadOk (d : Driver) (as : List Addr) : Prop where
  mounted : ∀ k a, LoopReaches as k a → (d.modules a).isSome
  reached : ∀ a, (d.modules a).isSome → ∃ k, LoopReaches as k a
  apart : ∀ j k a, LoopReaches as j a → LoopReaches as k a → j = k

-- ============================================================================
-- The layout of the map
-- ============================================================================

/-- The map after mounts at the addresses `as`. -/
structure Laid (d : Driver) (as : List Addr) : Prop where
  taken : ∀ k a, as[k]? = some a → d.valueAt (mountSlot k) = some a
  free : ∀ i, (∀ k, k < as.length → mountSlot k ≠ i) → d.map i = none
  size : d.size = UInt32.ofNat as.length
  fits : as.length ≤ hmapPresetSize
  stored : ∀ a, (d.modules a).isSome → a ∈ as

section Layout

variable {d d' : Driver} {as : List Addr} {a : Addr} {fuel : Nat} {name : List Wchar}

theorem mountSlot_eq (k : Nat) (name : List Wchar) :
    (homeSlot name + k) % hmapPresetSize = mountSlot k := by
  rw [homeSlot, mountSlot, Nat.mod_add_mod]

/-- As long as there are slots, the mounts take different ones. -/
theorem mountSlot_inj {j k : Nat} (hj : j < hmapPresetSize) (hk : k < hmapPresetSize)
    (h : mountSlot j = mountSlot k) : j = k := by
  rw [mountSlot, mountSlot, show hmapPresetSize = 64 from rfl] at h
  rw [show hmapPresetSize = 64 from rfl] at hj hk
  omega

theorem Laid.empty (w : World) : Laid (System.started w).driver [] :=
  ⟨by simp, fun _ _ => rfl, rfl, Nat.zero_le _, fun _ h => absurd h (by simp [System.started])⟩

/-- What a call does that mounts nothing: the values stay in their slots, and
    no module comes up. -/
structure SameValues (d d' : Driver) : Prop where
  value : ∀ i, d'.valueAt i = d.valueAt i
  size : d'.size = d.size
  modules : ∀ a, d.modules a = none → d'.modules a = none

theorem SameValues.refl (d : Driver) : SameValues d d := ⟨fun _ => rfl, rfl, fun _ h => h⟩

theorem SameMap.values (h : SameMap d d') : SameValues d d' :=
  ⟨fun i => by rw [Driver.valueAt, h.map, Driver.valueAt], h.size, h.others⟩

theorem Laid.same (h : Laid d as) (hsame : SameValues d d') : Laid d' as := by
  refine ⟨fun k a hk => (hsame.value _).trans (h.taken k a hk), fun i hi => ?_,
    hsame.size.trans h.size, h.fits, fun a ha => ?_⟩
  · have hnone := hsame.value i
    rw [Driver.valueAt, Driver.valueAt, h.free i hi] at hnone
    exact Option.map_eq_none_iff.mp hnone
  · by_contra hnot
    have hnone : d.modules a = none := by
      by_contra hsome
      exact hnot (h.stored a (Option.isSome_iff_ne_none.mpr hsome))
    rw [hsame.modules a hnone] at ha
    contradiction

theorem Laid.world (h : Laid d as) (w : World) : Laid { d with world := w } as :=
  ⟨h.taken, h.free, h.size, h.fits, h.stored⟩

theorem Laid.taken_ne (h : Laid d as) {k : Nat} (hk : k < as.length) :
    d.map (mountSlot k) ≠ none := by
  intro hnone
  have hval := h.taken k as[k] (List.getElem?_eq_getElem hk)
  rw [Driver.valueAt, hnone] at hval
  contradiction

/-- The search for an empty slot ends at the slot behind the last mount's. -/
theorem Laid.vacant (h : Laid d as) {i : Nat}
    (hi : d.map.vacant hmapPresetSize fuel (homeSlot name) = some i) :
    as.length < hmapPresetSize ∧ i = mountSlot as.length := by
  obtain ⟨hnone, -, n, hn, hpass⟩ := Table.vacant_spec hi (homeSlot_lt name)
  rw [mountSlot_eq] at hn
  -- the search does not stop at a slot that is taken
  have hstop : ∀ k, k < as.length → mountSlot k ≠ i := by
    intro k hk hki
    exact h.taken_ne hk (hki ▸ hnone)
  have hroom : as.length < hmapPresetSize := by
    refine lt_of_le_of_ne h.fits fun hfull => ?_
    have hlt : n % hmapPresetSize < hmapPresetSize := Nat.mod_lt _ (by decide)
    refine hstop (n % hmapPresetSize) (by omega) ?_
    rw [hn, mountSlot, mountSlot, Nat.add_mod_mod]
  refine ⟨hroom, ?_⟩
  rcases Nat.lt_trichotomy n as.length with hlt | heq | hgt
  · exact absurd hn.symm (hstop n hlt)
  · rw [hn, heq]
  · -- and it does not pass the first free one
    refine absurd (h.free _ fun k hk hslot => ?_) (mountSlot_eq as.length name ▸ hpass _ hgt)
    exact absurd (mountSlot_inj (by omega) hroom hslot) (by omega)

/-- `hmap_add` of a module that has just been stored. -/
theorem Laid.add (h : Laid d as) (hc : d.world.strHashC = 0) {ms : ModuleStruct}
    (hadd : (d.setModule a (some ms)).hmapAdd fuel name a = some d') : Laid d' (as ++ [a]) := by
  simp only [Driver.hmapAdd, Driver.hashSlot_eq (d := d.setModule a _) hc, Option.bind_eq_bind,
    Option.bind_some] at hadd
  obtain ⟨i, hi, hadd⟩ := Option.bind_eq_some_iff.mp hadd
  obtain ⟨hroom, rfl⟩ := h.vacant hi
  have hmap : d'.map = d.map.set (mountSlot as.length) (some (some name, a)) := by
    rw [← Option.some.inj hadd]
    rfl
  have hsize : d'.size = d.size + 1 := by
    rw [← Option.some.inj hadd]
    rfl
  have hmodules : ∀ b, b ≠ a → d'.modules b = d.modules b := by
    intro b hb
    rw [← Option.some.inj hadd]
    exact if_neg hb
  have hlen : (as ++ [a]).length = as.length + 1 := by simp
  refine ⟨fun k b hk => ?_, fun j hj => ?_, ?_, by omega, fun b hb => ?_⟩
  · rcases Nat.lt_trichotomy k as.length with hlt | rfl | hgt
    · rw [List.getElem?_append_left hlt] at hk
      have hne : mountSlot k ≠ mountSlot as.length := fun heq =>
        absurd (mountSlot_inj (by omega) hroom heq) (by omega)
      rw [Driver.valueAt, hmap, Table.set_of_ne _ _ hne]
      exact h.taken k b hk
    · rw [Driver.valueAt, hmap, Table.set_same]
      simpa using hk
    · rw [List.getElem?_eq_none (by omega)] at hk
      contradiction
  · have hne : j ≠ mountSlot as.length := fun heq => hj as.length (by omega) heq.symm
    rw [hmap, Table.set_of_ne _ _ hne]
    exact h.free j fun k hk => hj k (by omega)
  · rw [hsize, h.size, hlen, UInt32.ofNat_add]
    rfl
  · rw [List.mem_append, List.mem_singleton]
    by_cases hba : b = a
    · exact Or.inr hba
    · rw [hmodules b hba] at hb
      exact Or.inl (h.stored b hb)

/-- `hmap_remove` leaves every value in its slot. -/
theorem hmapRemove_values {removed : Bool} (hc : d.world.strHashC = 0)
    (hrem : d.hmapRemove fuel name = some (d', removed)) : SameValues d d' := by
  obtain ⟨⟨d₁, r⟩, hfind, hret⟩ := Option.bind_eq_some_iff.mp hrem
  obtain ⟨rfl, -⟩ := oaGetLocation_spec hc hfind
  match r with
  | none =>
      obtain ⟨rfl, -⟩ := Prod.mk.inj (Option.some.inj hret)
      exact .refl _
  | some i =>
      obtain ⟨⟨key, b⟩, hslot, hret⟩ := Option.bind_eq_some_iff.mp hret
      obtain ⟨ms, -, hret⟩ := Option.bind_eq_some_iff.mp hret
      obtain ⟨w, -, hret⟩ := Option.bind_eq_some_iff.mp hret
      obtain ⟨rfl, -⟩ := Prod.mk.inj (Option.some.inj hret)
      refine ⟨fun j => ?_, rfl, fun c hc => ?_⟩
      · show (d₁.map.set i (some (none, b)) j).map Prod.snd = (d₁.map j).map Prod.snd
        by_cases hj : j = i
        · rw [hj, Table.set_same, hslot, Option.map_some, Option.map_some]
        · rw [Table.set_of_ne _ _ hj]
      · show (if c = b then none else d₁.modules c) = none
        rw [hc, ite_self]

end Layout

-- ============================================================================
-- Steps and runs
-- ============================================================================

section Steps

variable {s s' : System} {d d' : Driver} {as : List Addr} {l : SysCall} {n fuel : Nat}
  {rs : List (List Wchar × Addr × Pfile)} {p : Pirp} {sp : IoStackLocation} {a : Addr}
  {status : NtStatus}

/-- A mount. -/
theorem fuseFsdFileSystemControl_laid (h : Laid d as) (hc : d.world.strHashC = 0)
    (hcode : sp.fsControlCode = irpFuseMount)
    (hlen : 1 < (d.world.files sp.fileObject).length)
    (hcall : fuseFsdFileSystemControl fuel d p sp a = some (d', status)) :
    Laid d' (as ++ [a]) := by
  obtain ⟨-, d₁, hadd, rfl⟩ := fuseFsdFileSystemControl_mount hcode hlen hcall
  exact (h.add hc hadd).world _

/-- A close. -/
theorem fuseCheckUnmountModule_values (hc : d.world.strHashC = 0) {f : Pfile} {b : Bool}
    (hcall : fuseCheckUnmountModule fuel d f = some (d', b)) : SameValues d d' := by
  unfold fuseCheckUnmountModule at hcall
  simp only at hcall
  split at hcall
  · obtain ⟨⟨d₁, found⟩, hget, hcall⟩ := Option.bind_eq_some_iff.mp hcall
    obtain ⟨⟨d₂, r⟩, hfind, hret⟩ := Option.bind_eq_some_iff.mp hget
    obtain ⟨rfl, -⟩ := oaGetLocation_spec hc hfind
    obtain ⟨rfl, rfl⟩ := Prod.mk.inj (Option.some.inj hret)
    split at hcall
    · obtain ⟨rfl, -⟩ := Prod.mk.inj (Option.some.inj hcall)
      exact .refl _
    · obtain ⟨ms, -, hcall⟩ := Option.bind_eq_some_iff.mp hcall
      split at hcall
      · obtain ⟨⟨d₃, removed⟩, hrem, hcall⟩ := Option.bind_eq_some_iff.mp hcall
        obtain ⟨rfl, -⟩ := Prod.mk.inj (Option.some.inj hcall)
        exact hmapRemove_values hc hrem
      · obtain ⟨rfl, -⟩ := Prod.mk.inj (Option.some.inj hcall)
        exact .refl _
  · obtain ⟨rfl, -⟩ := Prod.mk.inj (Option.some.inj hcall)
    exact .refl _

/-- A step appends the mount that it makes. -/
theorem step_laid (h : Laid s.driver as) (hm : Mapped s.driver rs n) (hs : SysStep s l s') :
    Laid s'.driver (as ++ (s.mountsAt l).toList) := by
  cases hs with
  | openFile hfresh =>
      show Laid _ (as ++ [])
      rw [List.append_nil]
      exact h.world _
  | @userspace d p irp sp a status fuel hp hsp _ hcall =>
      have hm₁ := hm.irrelevant (s.driver.world.setIrp p irp).irps s.driver.world.files
      show Laid _ (as ++ [])
      rw [List.append_nil]
      exact Laid.same (h.world _) (fuseAddUserspaceIrp_same hm₁ hcall).values
  | @fsControl d p irp sp a status fuel hp hsp hopen hcall =>
      have hm₁ := hm.irrelevant (s.driver.world.setIrp p irp).irps s.driver.world.files
      have h₁ : Laid (s.driver.setIrp p irp) as := h.world _
      rw [System.mountsAt, s.mountsBy_fsControl hsp]
      by_cases hmount : s.mountsName sp (s.driver.nameOf sp.fileObject)
      · rw [if_pos hmount]
        exact fuseFsdFileSystemControl_laid h₁ hm₁.static hmount.1 hmount.2.1 hcall
      · rw [if_neg hmount, Option.map_none, Option.toList_none, List.append_nil]
        have hsame := fuseFsdFileSystemControl_same hm₁ (fun hc => hmount ⟨hc.1, hc.2, rfl⟩) hcall
        exact h₁.same hsame.values
  | cancel p =>
      show Laid _ (as ++ [])
      rw [List.append_nil]
      exact h.world _
  | @closeFile d f b fuel hopen hcall =>
      show Laid _ (as ++ [])
      rw [List.append_nil]
      exact h.same (fuseCheckUnmountModule_values hm.static hcall)

/-- The map after a run. -/
theorem run_laid (w : World) {tr : List (System × SysCall)}
    (hrun : Run SysStep (System.started w) tr s) : Laid s.driver (mountAddrs tr) := by
  induction hrun with
  | nil => exact .empty w
  | @snoc tr s s' l hr hs ih =>
      obtain ⟨rs, hm⟩ := run_mapped w hr
      have hlast : mountAddrs (tr ++ [(s, l)]) = mountAddrs tr ++ (s.mountsAt l).toList := by
        rw [mountAddrs, List.filterMap_append, mountAddrs, List.filterMap_cons, List.filterMap_nil]
        cases s.mountsAt l <;> rfl
      rw [hlast]
      exact step_laid ih hm hs

end Steps

-- ============================================================================
-- The loop of free_hmap
-- ============================================================================

section Loop

variable {d : Driver} {as : List Addr} {a : Addr}

theorem Laid.size_toNat (h : Laid d as) : d.size.toNat = as.length := by
  have hfits : as.length ≤ 64 := h.fits
  rw [h.size, UInt32.toNat_ofNat_of_lt' (by rw [UInt32.size]; omega)]

/-- A slot that is not empty is the slot of a mount. -/
theorem Laid.valueAt_iff (h : Laid d as) {i : Nat} :
    d.valueAt i = some a ↔ ∃ k, as[k]? = some a ∧ mountSlot k = i := by
  constructor
  · intro hval
    by_contra hno
    have hnone : d.map i = none := by
      refine h.free i fun k hk hki => hno ⟨k, ?_, hki⟩
      have hk' := h.taken k as[k] (List.getElem?_eq_getElem hk)
      rw [hki, hval] at hk'
      rw [List.getElem?_eq_getElem hk, hk']
    rw [Driver.valueAt, hnone] at hval
    contradiction
  · rintro ⟨k, hk, rfl⟩
    exact h.taken k a hk

/-- The loop deletes the structs of the mounts that it reaches. -/
theorem Laid.mem_freeHmap (h : Laid d as) : a ∈ d.freeHmap ↔ ∃ k, LoopReaches as k a := by
  rw [Driver.freeHmap, List.mem_filterMap, h.size_toNat]
  constructor
  · rintro ⟨i, hi, hval⟩
    obtain ⟨k, hk, rfl⟩ := h.valueAt_iff.mp hval
    exact ⟨k, hk, List.mem_range.mp hi⟩
  · rintro ⟨k, hk, hlt⟩
    exact ⟨mountSlot k, List.mem_range.mpr hlt, h.taken k a hk⟩

/-- It deletes none of them twice if they were at different addresses. -/
theorem Laid.nodup_freeHmap (h : Laid d as) :
    d.freeHmap.Nodup ↔ ∀ j k a, LoopReaches as j a → LoopReaches as k a → j = k := by
  rw [Driver.freeHmap, h.size_toNat, List.Nodup, List.pairwise_filterMap]
  constructor
  · intro hpair j k a hj hk
    have hlt : ∀ m, LoopReaches as m a → m < hmapPresetSize := by
      intro m hm
      obtain ⟨hm, -⟩ := List.getElem?_eq_some_iff.mp hm.1
      exact Nat.lt_of_lt_of_le hm h.fits
    by_contra hne
    have hslots : mountSlot j ≠ mountSlot k := fun heq =>
      hne (mountSlot_inj (hlt j hj) (hlt k hk) heq)
    have hsymm : Std.Symm fun i i' => ∀ b, d.valueAt i = some b → ∀ b', d.valueAt i' = some b' →
        b ≠ b' := ⟨fun _ _ hxy b hb b' hb' => (hxy b' hb' b hb).symm⟩
    exact hpair.forall (List.mem_range.mpr hj.2) (List.mem_range.mpr hk.2) hslots a
      (h.taken j a hj.1) a (h.taken k a hk.1) rfl
  · intro hapart
    refine List.Pairwise.imp_of_mem ?_ List.nodup_range
    intro i i' hi hi' hne b hb b' hb' hbb
    obtain ⟨j, hj, rfl⟩ := h.valueAt_iff.mp hb
    obtain ⟨k, hk, rfl⟩ := h.valueAt_iff.mp hb'
    rw [← hbb] at hk
    exact hne (congrArg mountSlot
      (hapart j k b ⟨hj, List.mem_range.mp hi⟩ ⟨hk, List.mem_range.mp hi'⟩))

end Loop

/-- Exactly the elements with `P` occur in a list, each of them once. -/
theorem count_one_iff {l : List Addr} {P : Addr → Prop} :
    ((∀ a, P a → l.count a = 1) ∧ ∀ a ∈ l, P a) ↔ l.Nodup ∧ ∀ a, a ∈ l ↔ P a := by
  constructor
  · rintro ⟨hone, hall⟩
    refine ⟨List.nodup_iff_count_le_one.mpr fun a => ?_, fun a => ⟨hall a, fun hP => ?_⟩⟩
    · by_cases ha : a ∈ l
      · exact (hone a (hall a ha)).le
      · rw [List.count_eq_zero_of_not_mem ha]
        exact Nat.zero_le _
    · exact List.count_pos_iff.mp (by rw [hone a hP]; exact Nat.one_pos)
  · rintro ⟨hnodup, hmem⟩
    exact ⟨fun a hP => List.count_eq_one_of_mem hnodup ((hmem a).mpr hP), fun a => (hmem a).mp⟩

/-- `free_hmap` deletes the mounted modules, and each of them once, exactly if
    the run was `UnloadOk`. -/
theorem unload_once_iff (w : World) {tr : List (System × SysCall)} {s : System}
    (hrun : Run SysStep (System.started w) tr s) :
    UnloadsOnce s.driver ↔ UnloadOk s.driver (mountAddrs tr) := by
  have h := run_laid w hrun
  have hcount : UnloadsOnce s.driver ↔
      s.driver.freeHmap.Nodup ∧ ∀ a, a ∈ s.driver.freeHmap ↔ (s.driver.modules a).isSome := by
    rw [← count_one_iff]
    exact ⟨fun ho => ⟨ho.once, ho.mounted⟩, fun ho => ⟨ho.1, ho.2⟩⟩
  rw [hcount, h.nodup_freeHmap]
  constructor
  · rintro ⟨hapart, hmem⟩
    refine ⟨fun k a hk => ?_, fun a ha => ?_, hapart⟩
    · exact (hmem a).mp (h.mem_freeHmap.mpr ⟨k, hk⟩)
    · exact h.mem_freeHmap.mp ((hmem a).mpr ha)
  · intro hok
    refine ⟨hok.apart, fun a => ⟨fun ha => ?_, fun ha => ?_⟩⟩
    · obtain ⟨k, hk⟩ := h.mem_freeHmap.mp ha
      exact hok.mounted k a hk
    · exact h.mem_freeHmap.mpr (hok.reached a ha)

/-- Where no address was given out twice, the condition says that the mounts
    with a slot below their number are still mounted, and that the others are
    not. -/
theorem Laid.unloadOk_iff {d : Driver} {as : List Addr} (h : Laid d as) (hnodup : as.Nodup) :
    UnloadOk d as ↔
      ∀ k a, as[k]? = some a → ((d.modules a).isSome ↔ mountSlot k < as.length) := by
  have hunique : ∀ (j k : Nat) a, as[j]? = some a → as[k]? = some a → j = k := by
    intro j k a hj hk
    obtain ⟨hlt, -⟩ := List.getElem?_eq_some_iff.mp hj
    exact (List.getElem?_inj hlt hnodup).mp (hj.trans hk.symm)
  constructor
  · intro hok k a hk
    refine ⟨fun ha => ?_, fun hlt => hok.mounted k a ⟨hk, hlt⟩⟩
    obtain ⟨j, hj, hlt⟩ := hok.reached a ha
    rw [← hunique j k a hj hk]
    exact hlt
  · intro hall
    refine ⟨fun k a hk => (hall k a hk.1).mpr hk.2, fun a ha => ?_, fun j k a hj hk =>
      hunique j k a hj.1 hk.1⟩
    obtain ⟨k, hk⟩ := List.mem_iff_getElem?.mp (h.stored a ha)
    exact ⟨k, hk, (hall k a hk).mp ha⟩

-- ============================================================================
-- Sample runs
-- ============================================================================

namespace System

/-- The step of a call, with `fuel` rounds for its loops. -/
def exec (fuel : Nat) (s : System) : SysCall → Option System
  | .openFile f name => do
      guard (f ∉ s.opened)
      some { s with driver := s.driver.setFile f name, opened := f :: s.opened }
  | .userspace p irp a => do
      guard (completions s.driver.world.log p ≠ some 0)
      let sp ← irp.currentStackLocation
      guard (sp.fileObject ∈ s.opened)
      let (d, _) ← fuseAddUserspaceIrp fuel (s.driver.setIrp p irp) p sp a
      some { s.arrived p
        (some (fuseAllocateModuleName (s.driver.world.files sp.fileObject).text)) none with
        driver := d }
  | .fsControl p irp a => do
      guard (completions s.driver.world.log p ≠ some 0)
      let sp ← irp.currentStackLocation
      guard (sp.fileObject ∈ s.opened)
      let (d, _) ← fuseFsdFileSystemControl fuel (s.driver.setIrp p irp) p sp a
      some { (s.requested sp).arrived p none (some sp.fileObject) with driver := d }
  | .cancel p => some { s with driver := { s.driver with world := s.driver.world.cancel p } }
  | .closeFile f => do
      guard (f ∈ s.opened)
      let (d, _) ← fuseCheckUnmountModule fuel s.driver f
      some { s.closed f with driver := d }

theorem exec_sound {fuel : Nat} {s s' : System} {l : SysCall} (h : s.exec fuel l = some s') :
    SysStep s l s' := by
  cases l with
  | openFile f name =>
      simp only [exec, Option.bind_eq_bind, Option.bind_eq_some_iff, Option.guard_eq_some',
        Option.some.injEq] at h
      obtain ⟨-, hfresh, rfl⟩ := h
      exact .openFile hfresh
  | userspace p irp a =>
      simp only [exec, Option.bind_eq_bind, Option.bind_eq_some_iff, Option.guard_eq_some',
        Option.some.injEq] at h
      obtain ⟨-, hp, sp, hsp, -, hopen, ⟨d, status⟩, hcall, rfl⟩ := h
      exact .userspace fuel hp hsp hopen hcall
  | fsControl p irp a =>
      simp only [exec, Option.bind_eq_bind, Option.bind_eq_some_iff, Option.guard_eq_some',
        Option.some.injEq] at h
      obtain ⟨-, hp, sp, hsp, -, hopen, ⟨d, status⟩, hcall, rfl⟩ := h
      exact .fsControl fuel hp hsp hopen hcall
  | cancel p =>
      obtain rfl := Option.some.inj h
      exact .cancel p
  | closeFile f =>
      simp only [exec, Option.bind_eq_bind, Option.bind_eq_some_iff, Option.guard_eq_some',
        Option.some.injEq] at h
      obtain ⟨-, hopen, ⟨d, b⟩, hcall, rfl⟩ := h
      exact .closeFile fuel hopen hcall

end System

/-- The mounts can be read off the map. -/
theorem Laid.values_eq {d : Driver} {as : List Addr} (h : Laid d as) :
    (List.range d.size.toNat).map (fun k => d.valueAt (mountSlot k)) = as.map some := by
  refine List.ext_getElem (by simp [h.size_toNat]) fun k hk hk' => ?_
  have hlt : k < as.length := by simpa using hk'
  rw [List.getElem_map, List.getElem_map, List.getElem_range]
  exact h.taken k as[k] (List.getElem?_eq_getElem hlt)

theorem letter_ne_nul (k : Nat) : 0 ∉ [backslash, UInt16.ofNat (97 + k % 26)] := by
  intro h
  rcases List.mem_pair.mp h with h | h
  · exact absurd h (by decide)
  · have hzero := congrArg UInt16.toNat h
    rw [UInt16.toNat_ofNat_of_lt' (by rw [UInt16.size]; omega), UInt16.toNat_zero] at hzero
    omega

/-- The module names `\a`, `\b`, … -/
def numberedName (k : Nat) : UnicodeString where
  text := [backslash, UInt16.ofNat (97 + k % 26)]
  slack := fun _ => 0
  text_ne_nul := letter_ne_nul k
  length_lt := by simp

/-- Six modules are mounted, and all but the first dismounted. -/
def sampleMounts : List SysCall :=
  ((List.range 6).flatMap fun k => [.openFile (.ofNat (1 + k)) (numberedName k),
    .fsControl (.ofNat (11 + k)) (sampleMount (.ofNat (1 + k))) (201 + k)]) ++
  (List.range 5).map fun k => .closeFile (.ofNat (2 + k))

/-- The module that is left is deleted, and no other. -/
theorem unload_once_one_left :
    ∃ tr s, Run SysStep (System.started emptyWorld) tr s ∧ mountAddrs tr = List.range' 201 6 ∧
      (s.driver.modules 201).isSome ∧ UnloadsOnce s.driver := by
  have hview : (replay (System.exec 8) (fun _ _ => true) (System.started emptyWorld)
      sampleMounts).map (fun s =>
        ((List.range s.driver.size.toNat).map fun k => s.driver.valueAt (mountSlot k),
          (List.range 6).map fun k => (s.driver.modules (201 + k)).isSome)) =
      some ((List.range' 201 6).map some, (List.range 6).map fun k => decide (mountSlot k < 6)) := by
    decide +kernel
  obtain ⟨s, hs, hview⟩ := Option.map_eq_some_iff.mp hview
  obtain ⟨hvalues, hmodules⟩ := Prod.mk.inj hview
  rw [List.map_inj_left] at hmodules
  obtain ⟨tr, hrun, -⟩ := Run.replay System.exec_sound Run.nil (by simp) hs
  have hlaid := run_laid emptyWorld hrun
  have haddrs : mountAddrs tr = List.range' 201 6 :=
    (Option.some_injective _).list_map (hlaid.values_eq.symm.trans hvalues)
  refine ⟨tr, s, hrun, haddrs, hmodules 0 (by decide), (unload_once_iff emptyWorld hrun).mpr ?_⟩
  refine (hlaid.unloadOk_iff (haddrs ▸ List.nodup_range')).mpr fun k a hk => ?_
  rw [haddrs, List.getElem?_eq_some_iff] at hk
  obtain ⟨hlt, rfl⟩ := hk
  have hleft := hmodules k (by simpa using hlt)
  rw [List.getElem_range', Nat.one_mul, hleft, decide_eq_true_iff, haddrs, List.length_range']

/-- A module is mounted, and the driver is unloaded: the module is not deleted. -/
theorem unload_forgets_module :
    ∃ tr s, Run SysStep (System.started emptyWorld) tr s ∧ (s.driver.modules 201).isSome ∧
      s.driver.freeHmap = [] ∧ ¬ UnloadsOnce s.driver := by
  have h1 : Run SysStep (System.started emptyWorld) _ _ :=
    Run.nil.snoc (l := .openFile 1 sampleModuleName) (.openFile (by decide))
  have hrun := h1.snoc (l := .fsControl 11 (sampleMount 1) 201)
    (.fsControl 8 (by decide) rfl (by decide) rfl)
  refine ⟨_, _, hrun, rfl, rfl, fun honce => ?_⟩
  exact absurd (honce.once 201 rfl) (by decide)

end FuseNt
