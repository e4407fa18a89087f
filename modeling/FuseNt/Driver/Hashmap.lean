/-
  FuseNt.Driver.Hashmap

  The hash map of hashmap.cc on its own, for any keys, any values and any hash
  function.

  A key stands for the text it points to: `str_eq_fn` compares texts, and the
  text of a key does not change while the key is in the map.  A slot is empty
  when its value is null, and a removed binding keeps its slot and its value,
  with a null key.

  What the map is for is said by `BindingList`: a list of bindings, oldest
  first.  `Hashmap.exec_refines` relates the two over sequences of calls.
-/

import FuseNt.Driver.ModuleMap

namespace FuseNt

open FuseNt.Lib

variable {κ ν : Type _}

-- ============================================================================
-- The code
-- ============================================================================

/-- `hashmap`. -/
structure Hashmap (κ ν : Type _) where
  map : Table κ ν
  size : UInt32
  capacity : Nat
  hashFn : κ → UInt32

/-- `mk_hmap`. -/
def mkHmap (hashFn : κ → UInt32) : Hashmap κ ν where
  map := Table.empty
  size := 0
  capacity := hmapPresetSize
  hashFn := hashFn

namespace Hashmap

/-- `hash_fn(in) % capacity`. -/
def home (h : Hashmap κ ν) (k : κ) : Nat := (h.hashFn k).toNat % h.capacity

/-- `__hmap_add`, with `__oa_hmap_add`. -/
def hmapAdd (fuel : Nat) (h : Hashmap κ ν) (k : κ) (v : ν) : Option (Hashmap κ ν × Bool) := do
  let i ← h.map.vacant h.capacity fuel (h.home k)
  some ({ h with map := h.map.set i (some (some k, v)), size := h.size + 1 }, true)

variable [DecidableEq κ]

/-- `__oa_get_location`; `none` is -1. -/
def oaGetLocation (fuel : Nat) (h : Hashmap κ ν) (k : κ) : Option (Option Nat) :=
  h.map.locate h.capacity k fuel (h.home k)

/-- `__hmap_get`; `none` is a null pointer. -/
def hmapGet (fuel : Nat) (h : Hashmap κ ν) (k : κ) : Option (Option ν) := do
  let location ← h.oaGetLocation fuel k
  some (location.bind fun i => (h.map i).map Prod.snd)

/-- `__hmap_remove`, with the values that `del_fn` is called on. -/
def hmapRemove (fuel : Nat) (h : Hashmap κ ν) (k : κ) :
    Option (Hashmap κ ν × List ν × Bool) := do
  let location ← h.oaGetLocation fuel k
  match location.bind fun i => (h.map i).map fun s => (i, s.2) with
  | some (i, v) => some ({ h with map := h.map.set i (some (none, v)) }, [v], true)
  | none => some (h, [], false)

end Hashmap

/-- A call. -/
inductive MapCall (κ ν : Type _) where
  | add (k : κ) (v : ν)
  | get (k : κ)
  | remove (k : κ)

namespace MapCall

/-- The key a call is about. -/
def key : MapCall κ ν → κ
  | .add k _ => k
  | .get k => k
  | .remove k => k

def isAdd : MapCall κ ν → Bool
  | .add _ _ => true
  | _ => false

end MapCall

/-- What a call returns, and what it destroys. -/
inductive MapResult (ν : Type _) where
  | added (ok : Bool)
  | got (v : Option ν)
  | removed (destroyed : List ν) (ok : Bool)

namespace Hashmap

variable [DecidableEq κ]

def call (fuel : Nat) (h : Hashmap κ ν) : MapCall κ ν → Option (Hashmap κ ν × MapResult ν)
  | .add k v => (h.hmapAdd fuel k v).map fun r => (r.1, .added r.2)
  | .get k => (h.hmapGet fuel k).map fun v => (h, .got v)
  | .remove k => (h.hmapRemove fuel k).map fun r => (r.1, .removed r.2.1 r.2.2)

/-- A sequence of calls. -/
def exec (fuel : Nat) (h : Hashmap κ ν) :
    List (MapCall κ ν) → Option (Hashmap κ ν × List (MapResult ν))
  | [] => some (h, [])
  | c :: cs => do
      let (h, r) ← h.call fuel c
      let (h, rs) ← h.exec fuel cs
      some (h, r :: rs)

end Hashmap

-- ============================================================================
-- What it is for
-- ============================================================================

/-- The bindings that have not been removed, oldest first. -/
abbrev BindingList (κ ν : Type _) := List (κ × ν)

namespace BindingList

variable [DecidableEq κ]

/-- The value of the oldest binding of a key. -/
def get (l : BindingList κ ν) (k : κ) : Option ν := (l.find? (·.1 = k)).map Prod.snd

/-- The bindings without the oldest one of a key. -/
def remove (l : BindingList κ ν) (k : κ) : BindingList κ ν := l.eraseP (·.1 = k)

def call (l : BindingList κ ν) : MapCall κ ν → BindingList κ ν × MapResult ν
  | .add k v => (l ++ [(k, v)], .added true)
  | .get k => (l, .got (l.get k))
  | .remove k => (l.remove k, .removed (l.get k).toList (l.get k).isSome)

def exec (l : BindingList κ ν) : List (MapCall κ ν) → BindingList κ ν × List (MapResult ν)
  | [] => (l, [])
  | c :: cs =>
      let (l, r) := l.call c
      let (l, rs) := exec l cs
      (l, r :: rs)

section First

variable {l pre post : BindingList κ ν} {k : κ} {v : ν}

theorem get_eq_none (h : ∀ e ∈ l, e.1 ≠ k) : l.get k = none := by
  rw [get, List.find?_eq_none.mpr (fun e he => by simpa using h e he), Option.map_none]

theorem remove_of_not_mem (h : ∀ e ∈ l, e.1 ≠ k) : l.remove k = l :=
  List.eraseP_of_forall_not fun e he => by simpa using h e he

theorem get_split (h : ∀ e ∈ pre, e.1 ≠ k) : get (pre ++ (k, v) :: post) k = some v := by
  rw [get, List.find?_append, List.find?_eq_none.mpr (fun e he => by simpa using h e he),
    Option.none_or, List.find?_cons_of_pos (by simp), Option.map_some]

theorem remove_split (h : ∀ e ∈ pre, e.1 ≠ k) : remove (pre ++ (k, v) :: post) k = pre ++ post := by
  rw [remove, List.eraseP_append_right _ (fun e he => by simpa using h e he),
    List.eraseP_cons_of_pos (by simp)]

/-- A call does not change what is bound to another key. -/
theorem get_call_of_ne (l : BindingList κ ν) (c : MapCall κ ν) (h : k ≠ c.key) :
    (l.call c).1.get k = l.get k := by
  cases c with
  | add k' v =>
      have hne : ¬ (k' = k) := fun he => h he.symm
      simp only [call, get, List.find?_append]
      rw [List.find?_cons_of_neg (by simpa using hne), List.find?_nil, Option.or_none]
  | get k' => rfl
  | remove k' =>
      have hne : k ≠ k' := h
      simp only [call, get, remove]
      congr 1
      induction l with
      | nil => rfl
      | cons e rest ih =>
          by_cases hek : e.1 = k'
          · rw [List.eraseP_cons_of_pos (by simpa using hek),
              List.find?_cons_of_neg (by simpa [hek] using hne.symm)]
          · rw [List.eraseP_cons_of_neg (by simpa using hek)]
            by_cases hk : e.1 = k
            · rw [List.find?_cons_of_pos (by simpa using hk),
                List.find?_cons_of_pos (by simpa using hk)]
            · rw [List.find?_cons_of_neg (by simpa using hk),
                List.find?_cons_of_neg (by simpa using hk), ih]

end First

end BindingList

-- ============================================================================
-- Refinement
-- ============================================================================

/-- The map `h` holds the bindings `l`, and `n` of its slots are taken. -/
structure Hashmap.Abstracts (h : Hashmap κ ν) (l : BindingList κ ν) (n : Nat) : Prop where
  capacity : h.capacity = hmapPresetSize
  represents : Represents h.map hmapPresetSize (fun k => (h.hashFn k).toNat % hmapPresetSize) l n

namespace Hashmap.Abstracts

variable {h : Hashmap κ ν} {l : BindingList κ ν} {n : Nat}

theorem empty (hashFn : κ → UInt32) : (mkHmap hashFn : Hashmap κ ν).Abstracts [] 0 :=
  ⟨rfl, Represents.empty _ _⟩

theorem home_eq (ha : h.Abstracts l n) (k : κ) :
    h.home k = (h.hashFn k).toNat % hmapPresetSize := by
  rw [Hashmap.home, ha.capacity]

theorem home_lt (h : Hashmap κ ν) (k : κ) : (h.hashFn k).toNat % hmapPresetSize < hmapPresetSize :=
  Nat.mod_lt _ (by decide)

/-- While a slot is free, `hmap_add` returns and adds a newest binding. -/
theorem hmapAdd (ha : h.Abstracts l n) (hn : n < hmapPresetSize) (k : κ) (v : ν) :
    ∃ h', h.hmapAdd hmapPresetSize k v = some (h', true) ∧ h'.Abstracts (l ++ [(k, v)]) (n + 1) := by
  obtain ⟨i, hi⟩ := Option.isSome_iff_exists.mp (ha.represents.vacant_isSome hn (home_lt h k))
  simp only [Hashmap.hmapAdd, ha.capacity, ha.home_eq, hi, Option.bind_eq_bind, Option.bind_some]
  exact ⟨_, rfl, rfl, ha.represents.add v (home_lt h k) hi⟩

variable [DecidableEq κ]

/-- While a slot is free, a search returns, with the slot of the oldest binding
    of the key. -/
theorem oaGetLocation (ha : h.Abstracts l n) (hn : n < hmapPresetSize) (k : κ) :
    (h.oaGetLocation hmapPresetSize k = some none ∧ ∀ e ∈ l, e.1 ≠ k) ∨
      ∃ i pre v post, h.oaGetLocation hmapPresetSize k = some (some i) ∧
        l = pre ++ (k, v) :: post ∧ (∀ e ∈ pre, e.1 ≠ k) ∧ h.map i = some (some k, v) ∧
        Hashmap.Abstracts { h with map := h.map.set i (some (none, v)) } (pre ++ post) n := by
  obtain ⟨r, hr⟩ := Option.isSome_iff_exists.mp (ha.represents.locate_isSome hn (home_lt h k))
  have hloc : h.oaGetLocation hmapPresetSize k = some r := by
    rw [Hashmap.oaGetLocation, ha.capacity, ha.home_eq]
    exact hr
  rw [hloc]
  rcases ha.represents.locate (home_lt h k) hr with
    ⟨rfl, hall⟩ | ⟨i, pre, v, post, rfl, hsplit, hpre, hslot, hrep⟩
  · exact Or.inl ⟨rfl, hall⟩
  · exact Or.inr ⟨i, pre, v, post, rfl, hsplit, hpre, hslot, ha.capacity, hrep⟩

/-- `hmap_get` returns what is bound. -/
theorem hmapGet (ha : h.Abstracts l n) (hn : n < hmapPresetSize) (k : κ) :
    h.hmapGet hmapPresetSize k = some (l.get k) := by
  rcases ha.oaGetLocation hn k with ⟨hloc, hall⟩ | ⟨i, pre, v, post, hloc, rfl, hpre, hslot, -⟩
  · simp only [Hashmap.hmapGet, hloc, Option.bind_eq_bind, Option.bind_some, Option.bind_none]
    rw [BindingList.get_eq_none hall]
  · simp only [Hashmap.hmapGet, hloc, Option.bind_eq_bind, Option.bind_some, hslot,
      Option.map_some]
    rw [BindingList.get_split hpre]

/-- `hmap_remove` removes the oldest binding of the key and destroys its value. -/
theorem hmapRemove (ha : h.Abstracts l n) (hn : n < hmapPresetSize) (k : κ) :
    ∃ h', h.hmapRemove hmapPresetSize k = some (h', (l.get k).toList, (l.get k).isSome) ∧
      h'.Abstracts (l.remove k) n ∧ (l.get k = none → h' = h) := by
  rcases ha.oaGetLocation hn k with
    ⟨hloc, hall⟩ | ⟨i, pre, v, post, hloc, rfl, hpre, hslot, habs⟩
  · simp only [Hashmap.hmapRemove, hloc, Option.bind_eq_bind, Option.bind_some, Option.bind_none]
    rw [BindingList.get_eq_none hall, BindingList.remove_of_not_mem hall]
    exact ⟨h, rfl, ha, fun _ => rfl⟩
  · simp only [Hashmap.hmapRemove, hloc, Option.bind_eq_bind, Option.bind_some, hslot,
      Option.map_some]
    rw [BindingList.get_split hpre, BindingList.remove_split hpre]
    exact ⟨_, rfl, habs, by simp⟩

/-- One call. -/
theorem call (ha : h.Abstracts l n) (hn : n < hmapPresetSize) (c : MapCall κ ν) :
    ∃ h', h.call hmapPresetSize c = some (h', (l.call c).2) ∧
      h'.Abstracts (l.call c).1 (n + if c.isAdd then 1 else 0) := by
  cases c with
  | add k v =>
      obtain ⟨h', hadd, habs⟩ := ha.hmapAdd hn k v
      exact ⟨h', by rw [Hashmap.call, hadd]; rfl, habs⟩
  | get k => exact ⟨h, by rw [Hashmap.call, ha.hmapGet hn k]; rfl, ha⟩
  | remove k =>
      obtain ⟨h', hrem, habs, -⟩ := ha.hmapRemove hn k
      exact ⟨h', by rw [Hashmap.call, hrem]; rfl, habs⟩

/-- A sequence of calls. -/
theorem exec (ha : h.Abstracts l n) {cs : List (MapCall κ ν)}
    (hadds : n + cs.countP MapCall.isAdd < hmapPresetSize) :
    ∃ h', h.exec hmapPresetSize cs = some (h', (l.exec cs).2) ∧
      h'.Abstracts (l.exec cs).1 (n + cs.countP MapCall.isAdd) := by
  induction cs generalizing h l n with
  | nil => exact ⟨h, rfl, ha⟩
  | cons c cs ih =>
      rw [List.countP_cons] at hadds ⊢
      obtain ⟨h₁, hcall, ha₁⟩ := ha.call (by omega) c
      obtain ⟨h₂, hexec, ha₂⟩ := ih ha₁ (by omega)
      refine ⟨h₂, ?_, ?_⟩
      · simp only [Hashmap.exec, hcall, hexec, Option.bind_eq_bind, Option.bind_some]
        rfl
      · rw [Nat.add_comm (List.countP MapCall.isAdd cs), ← Nat.add_assoc]
        exact ha₂

end Hashmap.Abstracts

/-- From the empty map on, with fewer adds than slots, all calls return: they
    return and destroy what they would on a list of bindings, a removal of what
    is not bound changes nothing, and no call changes what is bound to another
    key. -/
theorem Hashmap.exec_refines [DecidableEq κ] (hashFn : κ → UInt32) (cs : List (MapCall κ ν))
    (hadds : cs.countP MapCall.isAdd < hmapPresetSize) :
    ∃ h : Hashmap κ ν,
      (mkHmap hashFn).exec hmapPresetSize cs = some (h, (BindingList.exec [] cs).2) ∧
      (∀ k, h.hmapGet hmapPresetSize k = some ((BindingList.exec [] cs).1.get k)) ∧
      (∀ k, h.hmapGet hmapPresetSize k = some none →
        h.hmapRemove hmapPresetSize k = some (h, [], false)) ∧
      ∀ c, (cs ++ [c]).countP MapCall.isAdd < hmapPresetSize →
        ∃ h' r, h.call hmapPresetSize c = some (h', r) ∧
          ∀ k, k ≠ c.key → h'.hmapGet hmapPresetSize k = h.hmapGet hmapPresetSize k := by
  have hadds' : 0 + cs.countP MapCall.isAdd < hmapPresetSize := by omega
  obtain ⟨h, hexec, ha⟩ := (Hashmap.Abstracts.empty hashFn).exec hadds'
  rw [Nat.zero_add] at ha
  refine ⟨h, hexec, ha.hmapGet hadds, fun k hnone => ?_, fun c hc => ?_⟩
  · rw [ha.hmapGet hadds, Option.some.injEq] at hnone
    obtain ⟨h', hrem, -, hsame⟩ := ha.hmapRemove hadds k
    rw [hrem, hnone, hsame hnone]
    rfl
  · obtain ⟨h', hcall, ha'⟩ := ha.call hadds c
    refine ⟨h', _, hcall, fun k hk => ?_⟩
    have hlt : cs.countP MapCall.isAdd + (if c.isAdd then 1 else 0) < hmapPresetSize := by
      simpa [List.countP_append, List.countP_cons] using hc
    rw [ha'.hmapGet hlt, ha.hmapGet hadds, BindingList.get_call_of_ne _ _ hk]

/-- Two bindings of a key are removed in the order in which they were added. -/
theorem Hashmap.exec_refines_twice :
    ∃ h : Hashmap Nat Nat, (mkHmap fun _ => 5381).exec hmapPresetSize
        [.add 1 10, .add 1 20, .remove 1, .get 1, .remove 1, .get 1] =
      some (h, [.added true, .added true, .removed [10] true, .got (some 20), .removed [20] true,
        .got none]) := by
  obtain ⟨h, hexec, -⟩ := Hashmap.exec_refines (ν := Nat) (fun _ : Nat => 5381)
    [.add 1 10, .add 1 20, .remove 1, .get 1, .remove 1, .get 1] (by decide)
  exact ⟨h, hexec⟩

end FuseNt
