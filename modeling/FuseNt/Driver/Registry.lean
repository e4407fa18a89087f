/-
  FuseNt.Driver.Registry

  `ModuleMap` and the mounted modules.

  The map has one live binding for each mounted module, in the order in which
  they were mounted (`Registered`).  `str_hash_fn` returns its seed for every
  name, so that all names share one home slot; that costs time and nothing
  else.  A lookup finds the oldest module of a name (`FirstNamed`), and the
  removal of a name takes that module away.
-/

import FuseNt.Driver.Fleet

namespace FuseNt

open FuseNt.Lib

/-- The slot at which every search starts. -/
def homeSlot (_ : List Wchar) : Nat := 5381 % hmapPresetSize

theorem homeSlot_lt (name : List Wchar) : homeSlot name < hmapPresetSize :=
  Nat.mod_lt _ (by decide)

/-- What the map knows of a module. -/
def Mounted.binding (x : Mounted) : List Wchar × Addr := (x.ms.moduleName, x.addr)

/-- The map has the modules `xs`; `n` of its slots are taken. -/
def Registered (t : Table (List Wchar) Addr) (xs : List Mounted) (n : Nat) : Prop :=
  Represents t hmapPresetSize homeSlot (xs.map Mounted.binding) n

/-- `x` is the oldest module with the name. -/
structure FirstNamed (xs : List Mounted) (name : List Wchar) (pre : List Mounted) (x : Mounted)
    (post : List Mounted) : Prop where
  split : xs = pre ++ x :: post
  named : x.ms.moduleName = name
  older : ∀ y ∈ pre, y.ms.moduleName ≠ name

section Map

variable {d d' : Driver} {l : List (List Wchar × Addr)} {n fuel : Nat} {name : List Wchar}

theorem Driver.hashSlot_eq (hc : d.world.strHashC = 0) :
    d.hashSlot fuel name = some (homeSlot name, 0) := by
  simp only [Driver.hashSlot, hc, strHashFn_zero]
  rfl

/-- A call that leaves the static character zero leaves the driver as it is. -/
theorem Driver.static_eq (hc : d.world.strHashC = 0) :
    { d with world := { d.world with strHashC := 0 } } = d := by
  rw [← hc]

theorem oaGetLocation_eq (hc : d.world.strHashC = 0) :
    d.oaGetLocation fuel name =
      (d.map.locate hmapPresetSize name fuel (homeSlot name)).map fun r => (d, r) := by
  simp only [Driver.oaGetLocation, Driver.hashSlot_eq hc, Option.bind_eq_bind, Option.bind_some]
  cases d.map.locate hmapPresetSize name fuel (homeSlot name) with
  | none => rfl
  | some r => exact congrArg (fun e => some (e, r)) (Driver.static_eq hc)

theorem oaGetLocation_spec (hc : d.world.strHashC = 0) {r : Option Nat}
    (h : d.oaGetLocation fuel name = some (d', r)) :
    d' = d ∧ d.map.locate hmapPresetSize name fuel (homeSlot name) = some r := by
  rw [oaGetLocation_eq hc] at h
  obtain ⟨r', hloc, hr⟩ := Option.map_eq_some_iff.mp h
  obtain ⟨rfl, rfl⟩ := Prod.mk.inj hr
  exact ⟨rfl, hloc⟩

/-- `hmap_get` finds the oldest binding of the name, and changes nothing. -/
theorem hmapGet_represents (hc : d.world.strHashC = 0)
    (hr : Represents d.map hmapPresetSize homeSlot l n) {found : Option Addr}
    (hget : d.hmapGet fuel name = some (d', found)) :
    d' = d ∧ ((found = none ∧ ∀ e ∈ l, e.1 ≠ name) ∨
      ∃ pre a post, found = some a ∧ l = pre ++ (name, a) :: post ∧ ∀ e ∈ pre, e.1 ≠ name) := by
  obtain ⟨⟨d₁, r⟩, hfind, hret⟩ := Option.bind_eq_some_iff.mp hget
  obtain ⟨rfl, hloc⟩ := oaGetLocation_spec hc hfind
  obtain ⟨rfl, rfl⟩ := Prod.mk.inj (Option.some.inj hret)
  refine ⟨rfl, ?_⟩
  rcases hr.locate (homeSlot_lt name) hloc with ⟨rfl, hall⟩ | ⟨i, pre, a, post, rfl, hl, hpre, hslot, -⟩
  · exact Or.inl ⟨rfl, hall⟩
  · refine Or.inr ⟨pre, a, post, ?_, hl, hpre⟩
    simp only [Option.bind_some, hslot, Option.map_some]

/-- While a slot is free `hmap_get` returns. -/
theorem hmapGet_isSome (hc : d.world.strHashC = 0)
    (hr : Represents d.map hmapPresetSize homeSlot l n) (hn : n < hmapPresetSize)
    (name : List Wchar) : ∃ found, d.hmapGet hmapPresetSize name = some (d, found) := by
  obtain ⟨r, hloc⟩ := Option.isSome_iff_exists.mp (hr.locate_isSome hn (homeSlot_lt name))
  simp only [Driver.hmapGet, oaGetLocation_eq hc, hloc, Option.map_some, Option.bind_eq_bind,
    Option.bind_some]
  exact ⟨_, rfl⟩

/-- `hmap_add` makes a newest binding. -/
theorem hmapAdd_represents (hc : d.world.strHashC = 0)
    (hr : Represents d.map hmapPresetSize homeSlot l n) {a : Addr}
    (hadd : d.hmapAdd fuel name a = some d') :
    ∃ t, d' = { d with map := t, size := d.size + 1 } ∧
      Represents t hmapPresetSize homeSlot (l ++ [(name, a)]) (n + 1) := by
  simp only [Driver.hmapAdd, Driver.hashSlot_eq hc, Option.bind_eq_bind, Option.bind_some] at hadd
  obtain ⟨i, hi, hadd⟩ := Option.bind_eq_some_iff.mp hadd
  refine ⟨d.map.set i (some (some name, a)), ?_, hr.add a (homeSlot_lt name) hi⟩
  rw [← Option.some.inj hadd, ← hc]

/-- `hmap_remove` deletes the module of the oldest binding of the name. -/
theorem hmapRemove_represents (hc : d.world.strHashC = 0)
    (hr : Represents d.map hmapPresetSize homeSlot l n) {removed : Bool}
    (hrem : d.hmapRemove fuel name = some (d', removed)) :
    (d' = d ∧ ∀ e ∈ l, e.1 ≠ name) ∨
      ∃ pre a post ms w t, l = pre ++ (name, a) :: post ∧ (∀ e ∈ pre, e.1 ≠ name) ∧
        d.modules a = some ms ∧ moduleStructDelete fuel d.world ms = some w ∧
        d' = { d.setModule a none with world := w, map := t } ∧
        Represents t hmapPresetSize homeSlot (pre ++ post) n := by
  obtain ⟨⟨d₁, r⟩, hfind, hret⟩ := Option.bind_eq_some_iff.mp hrem
  obtain ⟨rfl, hloc⟩ := oaGetLocation_spec hc hfind
  rcases hr.locate (homeSlot_lt name) hloc with
    ⟨rfl, hall⟩ | ⟨i, pre, a, post, rfl, hl, hpre, hslot, hrep⟩
  · obtain ⟨rfl, rfl⟩ := Prod.mk.inj (Option.some.inj hret)
    exact Or.inl ⟨rfl, hall⟩
  · simp only [hslot, Option.bind_eq_bind, Option.bind_some] at hret
    obtain ⟨ms, hms, hret⟩ := Option.bind_eq_some_iff.mp hret
    obtain ⟨w, hdel, hret⟩ := Option.bind_eq_some_iff.mp hret
    obtain ⟨rfl, -⟩ := Prod.mk.inj (Option.some.inj hret)
    exact Or.inr ⟨pre, a, post, ms, w, _, hl, hpre, hms, hdel, rfl, hrep⟩

end Map

-- ============================================================================
-- The mounted modules
-- ============================================================================

section Modules

variable {d d' : Driver} {xs : List Mounted} {x : Mounted} {n fuel : Nat} {name : List Wchar}

/-- A split of the bindings is a split of the modules. -/
theorem firstNamed_of_binding {l l' : List (List Wchar × Addr)} {a : Addr}
    (hsplit : xs.map Mounted.binding = l ++ (name, a) :: l') (hpre : ∀ e ∈ l, e.1 ≠ name) :
    ∃ pre x post, x.addr = a ∧ FirstNamed xs name pre x post ∧
      (pre ++ post).map Mounted.binding = l ++ l' := by
  obtain ⟨pre, xs', rfl, rfl, hxs'⟩ := List.map_eq_append_iff.mp hsplit
  obtain ⟨x, post, rfl, hx, rfl⟩ := List.map_eq_cons_iff.mp hxs'
  obtain ⟨hname, haddr⟩ := Prod.mk.inj hx
  exact ⟨pre, x, post, haddr, ⟨rfl, hname, fun y hy => hpre _ (List.mem_map_of_mem hy)⟩,
    List.map_append⟩

/-- `hmap_get` finds the oldest module of the name. -/
theorem hmapGet_spec (hc : d.world.strHashC = 0) (hr : Registered d.map xs n)
    {found : Option Addr} (hget : d.hmapGet fuel name = some (d', found)) :
    d' = d ∧ ((found = none ∧ ∀ x ∈ xs, x.ms.moduleName ≠ name) ∨
      ∃ pre x post, found = some x.addr ∧ FirstNamed xs name pre x post) := by
  obtain ⟨hd, ⟨hnone, hall⟩ | ⟨l, a, l', hfound, hsplit, hpre⟩⟩ := hmapGet_represents hc hr hget
  · exact ⟨hd, Or.inl ⟨hnone, fun x hx => hall _ (List.mem_map_of_mem hx)⟩⟩
  · obtain ⟨pre, x, post, rfl, hx, -⟩ := firstNamed_of_binding hsplit hpre
    exact ⟨hd, Or.inr ⟨pre, x, post, hfound, hx⟩⟩

/-- `hmap_add` makes the module the newest one. -/
theorem hmapAdd_spec (hc : d.world.strHashC = 0) (hr : Registered d.map xs n)
    (hadd : d.hmapAdd fuel x.ms.moduleName x.addr = some d') :
    ∃ t, d' = { d with map := t, size := d.size + 1 } ∧ Registered t (xs ++ [x]) (n + 1) := by
  obtain ⟨t, hd, hrep⟩ := hmapAdd_represents hc hr hadd
  refine ⟨t, hd, ?_⟩
  unfold Registered
  rw [List.map_append]
  exact hrep

/-- `hmap_remove` deletes the oldest module of the name. -/
theorem hmapRemove_spec (hc : d.world.strHashC = 0) (hr : Registered d.map xs n)
    (hstored : ∀ x ∈ xs, d.modules x.addr = some x.ms) {removed : Bool}
    (hrem : d.hmapRemove fuel name = some (d', removed)) :
    (d' = d ∧ ∀ x ∈ xs, x.ms.moduleName ≠ name) ∨
      ∃ pre x post w t, FirstNamed xs name pre x post ∧
        moduleStructDelete fuel d.world x.ms = some w ∧
        d' = { d.setModule x.addr none with world := w, map := t } ∧
        Registered t (pre ++ post) n := by
  rcases hmapRemove_represents hc hr hrem with
    ⟨hd, hall⟩ | ⟨l, a, l', ms, w, t, hsplit, hpre, hms, hdel, hd, hrep⟩
  · exact Or.inl ⟨hd, fun x hx => hall _ (List.mem_map_of_mem hx)⟩
  · obtain ⟨pre, x, post, rfl, hx, hrest⟩ := firstNamed_of_binding hsplit hpre
    obtain rfl : x.ms = ms := Option.some.inj ((hstored x (by rw [hx.split]; simp)).symm.trans hms)
    refine Or.inr ⟨pre, x, post, w, t, hx, hdel, hd, ?_⟩
    unfold Registered
    rw [hrest]
    exact hrep

end Modules

end FuseNt
