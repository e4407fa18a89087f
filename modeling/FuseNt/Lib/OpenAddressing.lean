/-
  FuseNt.Lib.OpenAddressing

  Hash tables with open addressing and linear probing, in which a key may be
  bound several times and a removed binding keeps its slot.

  A table is a function from slot numbers to slots.  `Holds t cap hash bs`
  says which bindings it has, in the order in which they were added: each sits
  in the first slot that was empty when it came, counted from the home of its
  key.  Slots are never given back, so that of several bindings of a key the
  one that was added first comes first on the way of a search: the table is an
  association list (`Represents`).
-/

import Mathlib.Data.List.Nodup
import Mathlib.Tactic

namespace FuseNt.Lib

/-- A table: a slot is empty, or has a value and a key, or has a value whose
    key was removed. -/
def Table (κ ν : Type _) := Nat → Option (Option κ × ν)

/-- A binding: its slot, the home of its key, the key unless it was removed,
    and the value. -/
structure Binding (κ ν : Type _) where
  pos : Nat
  home : Nat
  key : Option κ
  val : ν

namespace Table

variable {κ ν : Type _}

/-- The table without bindings. -/
def empty : Table κ ν := fun _ => none

/-- Replace the contents of a slot. -/
def set (t : Table κ ν) (i : Nat) (s : Option (Option κ × ν)) : Table κ ν :=
  fun j => if j = i then s else t j

theorem set_same (t : Table κ ν) (i : Nat) (s : Option (Option κ × ν)) : t.set i s i = s :=
  if_pos rfl

theorem set_of_ne (t : Table κ ν) {i j : Nat} (s : Option (Option κ × ν)) (h : j ≠ i) :
    t.set i s j = t j :=
  if_neg h

/-- The search for an empty slot, from slot `i` on. -/
def vacant (t : Table κ ν) (cap : Nat) : Nat → Nat → Option Nat
  | 0, _ => none
  | fuel + 1, i =>
      match t i with
      | none => some i
      | some _ => vacant t cap fuel ((i + 1) % cap)

variable [DecidableEq κ]

/-- The search for a key, from slot `i` on: it ends at a slot with the key, or
    at an empty one. -/
def locate (t : Table κ ν) (cap : Nat) (k : κ) : Nat → Nat → Option (Option Nat)
  | 0, _ => none
  | fuel + 1, i =>
      match t i with
      | none => some none
      | some (k', _) =>
          if k' = some k then some (some i) else locate t cap k fuel ((i + 1) % cap)

end Table

/-- The bindings of a table, oldest first. -/
structure Holds {κ ν : Type _} (t : Table κ ν) (cap : Nat) (hash : κ → Nat)
    (bs : List (Binding κ ν)) : Prop where
  slot : ∀ b ∈ bs, t b.pos = some (b.key, b.val)
  covered : ∀ i, t i ≠ none → i ∈ bs.map Binding.pos
  nodup : (bs.map Binding.pos).Nodup
  /-- On the way from its home to its slot a binding met older ones only. -/
  path : ∀ pre x post, bs.map (fun b => (b.pos, b.home)) = pre ++ x :: post →
    ∃ d, x.1 = (x.2 + d) % cap ∧ ∀ j, j < d → (x.2 + j) % cap ∈ pre.map Prod.fst
  home : ∀ b ∈ bs, ∀ k, b.key = some k → b.home = hash k

section Search

variable {κ ν : Type _} {t : Table κ ν} {cap : Nat} {hash : κ → Nat} {bs : List (Binding κ ν)}

theorem next_slot (i d cap : Nat) : ((i + 1) % cap + d) % cap = (i + (d + 1)) % cap := by
  rw [Nat.mod_add_mod, Nat.add_assoc, Nat.add_comm 1 d]

/-- What the search for an empty slot passes, and where it ends. -/
theorem Table.vacant_spec {fuel i p : Nat} (h : t.vacant cap fuel i = some p) (hi : i < cap) :
    t p = none ∧ p < cap ∧ ∃ d, p = (i + d) % cap ∧ ∀ j, j < d → t ((i + j) % cap) ≠ none := by
  induction fuel generalizing i with
  | zero => simp [vacant] at h
  | succ fuel ih =>
      unfold vacant at h
      cases hs : t i with
      | none =>
          obtain rfl : i = p := by simpa [hs] using h
          exact ⟨hs, hi, 0, by rw [Nat.add_zero, Nat.mod_eq_of_lt hi], by simp⟩
      | some s =>
          rw [hs] at h
          obtain ⟨hp, hlt, d, hd, hpass⟩ := ih h (Nat.mod_lt _ (by omega))
          refine ⟨hp, hlt, d + 1, by rw [hd, next_slot], fun j hj => ?_⟩
          cases j with
          | zero =>
              rw [Nat.add_zero, Nat.mod_eq_of_lt hi, hs]
              simp
          | succ j =>
              rw [← next_slot]
              exact hpass j (by omega)

/-- The search for an empty slot ends where there is one ahead. -/
theorem Table.vacant_isSome {i d : Nat} (hi : i < cap) (hend : t ((i + d) % cap) = none)
    {fuel : Nat} (hfuel : d < fuel) : (t.vacant cap fuel i).isSome := by
  induction d generalizing fuel i with
  | zero =>
      obtain ⟨fuel, rfl⟩ : ∃ n, fuel = n + 1 := ⟨fuel - 1, by omega⟩
      rw [Nat.add_zero, Nat.mod_eq_of_lt hi] at hend
      simp [vacant, hend]
  | succ d ih =>
      obtain ⟨fuel, rfl⟩ : ∃ n, fuel = n + 1 := ⟨fuel - 1, by omega⟩
      unfold vacant
      cases hs : t i with
      | none => rfl
      | some s => exact ih (Nat.mod_lt _ (by omega)) (by rw [next_slot]; exact hend) (by omega)

/-- It does not end where all slots are taken. -/
theorem Table.vacant_eq_none (hfull : ∀ i, i < cap → t i ≠ none) {i : Nat} (hi : i < cap)
    (fuel : Nat) : t.vacant cap fuel i = none := by
  induction fuel generalizing i with
  | zero => rfl
  | succ fuel ih =>
      unfold vacant
      cases hs : t i with
      | none => exact absurd hs (hfull i hi)
      | some s => exact ih (Nat.mod_lt _ (by omega))

variable [DecidableEq κ]

/-- Where the search for a key ends successfully, the key is. -/
theorem Table.locate_sound {fuel i p : Nat} {k : κ}
    (h : t.locate cap k fuel i = some (some p)) : ∃ v, t p = some (some k, v) := by
  induction fuel generalizing i with
  | zero => simp [locate] at h
  | succ fuel ih =>
      unfold locate at h
      cases hs : t i with
      | none => simp [hs] at h
      | some s =>
          obtain ⟨k', v⟩ := s
          rw [hs] at h
          simp only at h
          split at h
          · rename_i hk
            obtain rfl : i = p := by simpa using h
            exact ⟨v, by rw [hs, hk]⟩
          · exact ih h

/-- A search passes slots without the key. -/
theorem Table.locate_pass {fuel i d : Nat} {k : κ} {r : Option Nat} {v : ν}
    (h : t.locate cap k fuel i = some r) (hi : i < cap)
    (hpass : ∀ j, j < d → ∃ k' v', t ((i + j) % cap) = some (k', v') ∧ k' ≠ some k)
    (hend : t ((i + d) % cap) = some (some k, v)) : r = some ((i + d) % cap) := by
  induction d generalizing fuel i with
  | zero =>
      rw [Nat.add_zero, Nat.mod_eq_of_lt hi] at hend ⊢
      cases fuel with
      | zero => simp [locate] at h
      | succ fuel => simpa [locate, hend, eq_comm] using h
  | succ d ih =>
      cases fuel with
      | zero => simp [locate] at h
      | succ fuel =>
          obtain ⟨k', v', hs, hk⟩ := hpass 0 (by omega)
          rw [Nat.add_zero, Nat.mod_eq_of_lt hi] at hs
          simp only [locate, hs, hk, if_false] at h
          rw [← next_slot] at hend ⊢
          refine ih h (Nat.mod_lt _ (by omega)) (fun j hj => ?_) hend
          rw [next_slot]
          exact hpass (j + 1) (by omega)

/-- A search ends where there is an empty slot ahead, or one with the key. -/
theorem Table.locate_isSome {i d : Nat} (k : κ) (hi : i < cap)
    (hend : ∀ e, t ((i + d) % cap) = some e → e.1 = some k) {fuel : Nat} (hfuel : d < fuel) :
    (t.locate cap k fuel i).isSome := by
  induction d generalizing fuel i with
  | zero =>
      obtain ⟨fuel, rfl⟩ : ∃ n, fuel = n + 1 := ⟨fuel - 1, by omega⟩
      rw [Nat.add_zero, Nat.mod_eq_of_lt hi] at hend
      unfold locate
      cases hs : t i with
      | none => rfl
      | some e => simp [hend e hs]
  | succ d ih =>
      obtain ⟨fuel, rfl⟩ : ∃ n, fuel = n + 1 := ⟨fuel - 1, by omega⟩
      unfold locate
      cases hs : t i with
      | none => rfl
      | some s =>
          simp only
          split
          · rfl
          · exact ih (Nat.mod_lt _ (by omega)) (by rw [next_slot]; exact hend) (by omega)

/-- The search for a key does not end where all slots are taken and none has
    the key. -/
theorem Table.locate_eq_none {k : κ} (hfull : ∀ i, i < cap → t i ≠ none)
    (hk : ∀ i v, t i ≠ some (some k, v)) {i : Nat} (hi : i < cap) (fuel : Nat) :
    t.locate cap k fuel i = none := by
  induction fuel generalizing i with
  | zero => rfl
  | succ fuel ih =>
      unfold locate
      cases hs : t i with
      | none => exact absurd hs (hfull i hi)
      | some s =>
          obtain ⟨k', v⟩ := s
          have hne : k' ≠ some k := fun h => hk i v (by rw [hs, h])
          simp only [hne, if_false]
          exact ih (Nat.mod_lt _ (by omega))

end Search

namespace Holds

variable {κ ν : Type _} {t : Table κ ν} {cap : Nat} {hash : κ → Nat} {bs : List (Binding κ ν)}

theorem empty (cap : Nat) (hash : κ → Nat) : Holds (Table.empty : Table κ ν) cap hash [] :=
  ⟨by simp, by simp [Table.empty], List.nodup_nil, by simp, by simp⟩

/-- A binding is added in the slot the search for an empty one finds. -/
theorem add (h : Holds t cap hash bs) {k : κ} (v : ν) {fuel p : Nat} (hcap : hash k < cap)
    (hp : t.vacant cap fuel (hash k) = some p) :
    Holds (t.set p (some (some k, v))) cap hash (bs ++ [⟨p, hash k, some k, v⟩]) := by
  obtain ⟨hempty, -, d, hd, hpass⟩ := Table.vacant_spec hp hcap
  have hnew : p ∉ bs.map Binding.pos := by
    intro hm
    obtain ⟨b, hb, rfl⟩ := List.mem_map.mp hm
    rw [h.slot b hb] at hempty
    contradiction
  refine ⟨?_, ?_, ?_, ?_, ?_⟩
  · intro b hb
    rcases List.mem_append.mp hb with hb | hb
    · have hne : b.pos ≠ p := fun hbp => hnew (List.mem_map.mpr ⟨b, hb, hbp⟩)
      rw [Table.set_of_ne _ _ hne, h.slot b hb]
    · rw [List.mem_singleton.mp hb]
      exact Table.set_same ..
  · intro i hi
    by_cases hip : i = p
    · simp [hip]
    · rw [Table.set_of_ne _ _ hip] at hi
      simp [h.covered i hi]
  · rw [List.map_append, List.nodup_append]
    refine ⟨h.nodup, by simp, fun a ha b hb hab => hnew ?_⟩
    obtain rfl : b = p := by simpa using hb
    rwa [← hab]
  · intro pre x post heq
    rcases List.eq_nil_or_concat post with rfl | ⟨post, y, rfl⟩
    · rw [List.map_append] at heq
      obtain ⟨rfl, hx⟩ := List.append_inj' heq rfl
      obtain rfl : (p, hash k) = x := by simpa using hx
      refine ⟨d, hd, fun j hj => ?_⟩
      have := h.covered _ (hpass j hj)
      rwa [List.map_map]
    · rw [List.concat_eq_append, ← List.cons_append, ← List.append_assoc, List.map_append] at heq
      obtain ⟨heq, -⟩ := List.append_inj' heq rfl
      exact h.path pre x post heq
  · intro b hb k' hk'
    rcases List.mem_append.mp hb with hb | hb
    · exact h.home b hb k' hk'
    · rw [List.mem_singleton.mp hb] at hk' ⊢
      rw [← Option.some.inj hk']

/-- The key of a binding is removed. -/
theorem remove {pre post : List (Binding κ ν)} {b : Binding κ ν}
    (h : Holds t cap hash (pre ++ b :: post)) :
    Holds (t.set b.pos (some (none, b.val))) cap hash
      (pre ++ { b with key := none } :: post) := by
  have hpos : (pre ++ { b with key := none } :: post).map Binding.pos =
      (pre ++ b :: post).map Binding.pos := by simp
  have hnd := h.nodup
  rw [List.map_append, List.map_cons] at hnd
  refine ⟨?_, ?_, by rw [hpos]; exact h.nodup, ?_, ?_⟩
  · intro b' hb'
    by_cases heq : b' = { b with key := none }
    · rw [heq]
      exact Table.set_same ..
    · have hold : b' ∈ pre ++ b :: post ∧ b'.pos ≠ b.pos := by
        rcases List.mem_append.mp hb' with hm | hm
        · refine ⟨List.mem_append_left _ hm, fun hp => ?_⟩
          exact (List.nodup_append.mp hnd).2.2 b'.pos (List.mem_map_of_mem hm) b.pos
            (List.mem_cons_self ..) hp
        · have hm' := (List.mem_cons.mp hm).resolve_left heq
          refine ⟨List.mem_append_right _ (List.mem_cons_of_mem _ hm'), fun hp => ?_⟩
          have := (List.nodup_cons.mp (List.nodup_append.mp hnd).2.1).1
          exact this (hp ▸ List.mem_map_of_mem hm')
      rw [Table.set_of_ne _ _ hold.2, h.slot b' hold.1]
  · intro i hi
    rw [hpos]
    by_cases hip : i = b.pos
    · simp [hip]
    · rw [Table.set_of_ne _ _ hip] at hi
      exact h.covered i hi
  · intro pre' x post' heq
    refine h.path pre' x post' ?_
    rw [← heq]
    simp
  · intro b' hb' k hk
    rcases List.mem_append.mp hb' with hm | hm
    · exact h.home b' (List.mem_append_left _ hm) k hk
    · rcases List.mem_cons.mp hm with rfl | hm
      · simp at hk
      · exact h.home b' (List.mem_append_right _ (List.mem_cons_of_mem _ hm)) k hk

/-- A table with fewer bindings than slots has an empty slot. -/
theorem exists_vacant (h : Holds t cap hash bs) (hlen : bs.length < cap) :
    ∃ i, i < cap ∧ t i = none := by
  by_contra hall
  have hsub : List.range cap ⊆ bs.map Binding.pos := by
    intro i hi
    refine h.covered i fun hnone => hall ⟨i, List.mem_range.mp hi, hnone⟩
  have hle := (List.subperm_of_subset (List.nodup_range) hsub).length_le
  simp only [List.length_range, List.length_map] at hle
  omega

/-- From every slot on there is an empty one ahead, in a table with fewer
    bindings than slots. -/
theorem vacant_ahead (h : Holds t cap hash bs) (hlen : bs.length < cap) {i : Nat} (hi : i < cap) :
    ∃ d, d < cap ∧ t ((i + d) % cap) = none := by
  obtain ⟨j, hj, hempty⟩ := h.exists_vacant hlen
  refine ⟨(j + cap - i) % cap, Nat.mod_lt _ (by omega), ?_⟩
  have hmod : (i + (j + cap - i) % cap) % cap = j := by
    rw [Nat.add_mod_mod, show i + (j + cap - i) = j + cap by omega, Nat.add_mod_right,
      Nat.mod_eq_of_lt hj]
  rw [hmod]
  exact hempty

theorem pos_lt (h : Holds t cap hash bs) (hcap : 0 < cap) : ∀ i ∈ bs.map Binding.pos, i < cap := by
  intro i hi
  obtain ⟨b, hb, rfl⟩ := List.mem_map.mp hi
  obtain ⟨pre, post, hsplit⟩ := List.append_of_mem hb
  obtain ⟨d, hd, -⟩ := h.path (pre.map fun b => (b.pos, b.home)) (b.pos, b.home)
    (post.map fun b => (b.pos, b.home)) (by rw [hsplit, List.map_append, List.map_cons])
  rw [show b.pos = (b.home + d) % cap from hd]
  exact Nat.mod_lt _ hcap

/-- A table with as many bindings as slots has no empty slot. -/
theorem full (h : Holds t cap hash bs) (hlen : cap ≤ bs.length) {i : Nat} (hi : i < cap) :
    t i ≠ none := by
  have hsub : bs.map Binding.pos ⊆ List.range cap := fun j hj =>
    List.mem_range.mpr (h.pos_lt (by omega) j hj)
  have hperm : (bs.map Binding.pos).Perm (List.range cap) :=
    (List.subperm_of_subset h.nodup hsub).perm_of_length_le (by simpa using hlen)
  obtain ⟨b, hb, rfl⟩ := List.mem_map.mp (hperm.mem_iff.mpr (List.mem_range.mpr hi))
  rw [h.slot b hb]
  simp

variable [DecidableEq κ]

/-- A search finds the oldest binding of the key that was not removed. -/
theorem locate_eq (h : Holds t cap hash bs) {k : κ} {fuel : Nat} {r : Option Nat}
    (hcap : hash k < cap) (hr : t.locate cap k fuel (hash k) = some r) :
    r = (bs.find? fun b => b.key = some k).map Binding.pos := by
  cases hfind : bs.find? fun b => b.key = some k with
  | none =>
      cases r with
      | none => rfl
      | some p =>
          obtain ⟨v, hv⟩ := Table.locate_sound hr
          obtain ⟨b, hb, rfl⟩ := List.mem_map.mp (h.covered p (by simp [hv]))
          have hkey : b.key = some k := by
            rw [h.slot b hb] at hv
            exact (Prod.mk.inj (Option.some.inj hv)).1
          exact absurd hkey (by simpa using List.find?_eq_none.mp hfind b hb)
  | some b =>
      obtain ⟨hkey, pre, post, rfl, hpre⟩ := List.find?_eq_some_iff_append.mp hfind
      have hkey : b.key = some k := by simpa using hkey
      have hb : b ∈ pre ++ b :: post := by simp
      obtain ⟨d, hd, hpath⟩ := h.path (pre.map fun b => (b.pos, b.home)) (b.pos, b.home)
        (post.map fun b => (b.pos, b.home)) (by simp)
      have hhome := h.home b hb k hkey
      simp only [hhome] at hd hpath
      rw [Option.map_some, hd]
      refine Table.locate_pass hr hcap (fun j hj => ?_) (by rw [← hd, h.slot b hb, hkey])
      obtain ⟨b', hb', hpos⟩ : ∃ b' ∈ pre, b'.pos = (hash k + j) % cap := by
        have := hpath j hj
        rw [List.map_map] at this
        exact List.mem_map.mp this
      refine ⟨b'.key, b'.val, ?_, by simpa using hpre b' hb'⟩
      rw [← hpos, h.slot b' (List.mem_append_left _ hb')]

/-- In a table with fewer bindings than slots every search ends. -/
theorem locate_isSome (h : Holds t cap hash bs) (hlen : bs.length < cap) {k : κ}
    (hcap : hash k < cap) : (t.locate cap k cap (hash k)).isSome := by
  obtain ⟨d, hd, hempty⟩ := h.vacant_ahead hlen hcap
  exact Table.locate_isSome k hcap (by simp [hempty]) hd

/-- The search for a key that is bound ends, however full the table is. -/
theorem locate_bound (h : Holds t cap hash bs) {k : κ} {b : Binding κ ν} (hb : b ∈ bs)
    (hkey : b.key = some k) (hcap : hash k < cap) :
    ∃ rounds, ∀ fuel, rounds ≤ fuel → (t.locate cap k fuel (hash k)).isSome := by
  obtain ⟨pre, post, hsplit⟩ := List.append_of_mem hb
  obtain ⟨d, hd, -⟩ := h.path (pre.map fun b => (b.pos, b.home)) (b.pos, b.home)
    (post.map fun b => (b.pos, b.home)) (by rw [hsplit, List.map_append, List.map_cons])
  have hend : t ((hash k + d) % cap) = some (some k, b.val) := by
    rw [← h.home b hb k hkey, ← show b.pos = (b.home + d) % cap from hd, h.slot b hb, hkey]
  refine ⟨d + 1, fun fuel hfuel => Table.locate_isSome k hcap (fun e he => ?_) hfuel⟩
  rw [hend, Option.some.injEq] at he
  rw [← he]

end Holds

-- ============================================================================
-- The table as an association list
-- ============================================================================

/-- The bindings that were not removed. -/
def live {κ ν : Type _} (bs : List (Binding κ ν)) : List (κ × ν) :=
  bs.filterMap fun b => b.key.map fun k => (k, b.val)

/-- The table is the association list `l`, oldest binding first; `n` of its
    slots are taken. -/
def Represents {κ ν : Type _} (t : Table κ ν) (cap : Nat) (hash : κ → Nat) (l : List (κ × ν))
    (n : Nat) : Prop :=
  ∃ bs, Holds t cap hash bs ∧ live bs = l ∧ bs.length = n

namespace Represents

variable {κ ν : Type _} {t : Table κ ν} {cap : Nat} {hash : κ → Nat} {l : List (κ × ν)} {n : Nat}
  {k : κ}

theorem live_middle {pre post : List (Binding κ ν)} {b : Binding κ ν} (hb : b.key = some k) :
    live (pre ++ b :: post) = live pre ++ (k, b.val) :: live post := by
  simp [live, hb]

theorem empty (cap : Nat) (hash : κ → Nat) :
    Represents (Table.empty : Table κ ν) cap hash [] 0 :=
  ⟨[], Holds.empty cap hash, rfl, rfl⟩

/-- A new binding comes last. -/
theorem add (h : Represents t cap hash l n) (v : ν) {fuel p : Nat} (hcap : hash k < cap)
    (hp : t.vacant cap fuel (hash k) = some p) :
    Represents (t.set p (some (some k, v))) cap hash (l ++ [(k, v)]) (n + 1) := by
  obtain ⟨bs, hh, rfl, rfl⟩ := h
  refine ⟨_, hh.add v hcap hp, ?_, by simp⟩
  simp [live]

/-- While a slot is free a new binding finds a place. -/
theorem vacant_isSome (h : Represents t cap hash l n) (hn : n < cap) (hcap : hash k < cap) :
    (t.vacant cap cap (hash k)).isSome := by
  obtain ⟨bs, hh, rfl, rfl⟩ := h
  obtain ⟨d, hd, hempty⟩ := hh.vacant_ahead hn hcap
  exact Table.vacant_isSome hcap hempty hd

/-- With all slots taken, the search for one does not end. -/
theorem vacant_eq_none (h : Represents t cap hash l n) (hn : cap ≤ n) (hcap : hash k < cap)
    (fuel : Nat) : t.vacant cap fuel (hash k) = none := by
  obtain ⟨bs, hh, rfl, rfl⟩ := h
  exact Table.vacant_eq_none (fun i hi => hh.full hn hi) hcap fuel

/-- The bindings are what the slots with a key hold. -/
theorem mem_iff (h : Represents t cap hash l n) {v : ν} :
    (k, v) ∈ l ↔ ∃ i, t i = some (some k, v) := by
  obtain ⟨bs, hh, rfl, rfl⟩ := h
  constructor
  · intro hmem
    obtain ⟨b, hb, hkv⟩ := List.mem_filterMap.mp hmem
    obtain ⟨k', hk', hpair⟩ := Option.map_eq_some_iff.mp hkv
    obtain ⟨rfl, rfl⟩ := Prod.mk.inj hpair
    exact ⟨b.pos, (hh.slot b hb).trans (by rw [hk'])⟩
  · rintro ⟨i, hi⟩
    obtain ⟨b, hb, rfl⟩ := List.mem_map.mp (hh.covered i (by rw [hi]; simp))
    rw [hh.slot b hb, Option.some.injEq, Prod.mk.injEq] at hi
    refine List.mem_filterMap.mpr ⟨b, hb, ?_⟩
    rw [hi.1, hi.2, Option.map_some]

variable [DecidableEq κ]

/-- A search finds the oldest binding of the key, or there is none. -/
theorem locate (h : Represents t cap hash l n) {fuel : Nat} {r : Option Nat}
    (hcap : hash k < cap) (hr : t.locate cap k fuel (hash k) = some r) :
    (r = none ∧ ∀ e ∈ l, e.1 ≠ k) ∨
      ∃ i pre v post, r = some i ∧ l = pre ++ (k, v) :: post ∧ (∀ e ∈ pre, e.1 ≠ k) ∧
        t i = some (some k, v) ∧
        Represents (t.set i (some (none, v))) cap hash (pre ++ post) n := by
  obtain ⟨bs, hh, rfl, rfl⟩ := h
  rw [hh.locate_eq hcap hr]
  have hlive : ∀ bs' : List (Binding κ ν), (∀ b ∈ bs', b.key ≠ some k) →
      ∀ e ∈ live bs', e.1 ≠ k := by
    intro bs' hne e he hek
    obtain ⟨b, hb, hbe⟩ := List.mem_filterMap.mp he
    obtain ⟨k', hk', rfl⟩ := Option.map_eq_some_iff.mp hbe
    exact hne b hb (hk'.trans (congrArg some hek))
  cases hfind : bs.find? fun b => b.key = some k with
  | none =>
      refine Or.inl ⟨rfl, hlive bs fun b hb => ?_⟩
      simpa using List.find?_eq_none.mp hfind b hb
  | some b =>
      obtain ⟨hkey, pre, post, rfl, hpre⟩ := List.find?_eq_some_iff_append.mp hfind
      have hkey : b.key = some k := by simpa using hkey
      refine Or.inr ⟨b.pos, live pre, b.val, live post, rfl, live_middle hkey,
        hlive pre fun b' hb' => by simpa using hpre b' hb', ?_, _, hh.remove, ?_, by simp⟩
      · rw [← hkey]
        exact hh.slot b (by simp)
      · simp [live]

/-- With all slots taken, the search for a key that is not bound does not end. -/
theorem locate_eq_none (h : Represents t cap hash l n) (hn : cap ≤ n) (hcap : hash k < cap)
    (hk : ∀ e ∈ l, e.1 ≠ k) (fuel : Nat) : t.locate cap k fuel (hash k) = none := by
  have hfree : ∀ i v, t i ≠ some (some k, v) := fun i v hi => hk _ (h.mem_iff.mpr ⟨i, hi⟩) rfl
  obtain ⟨bs, hh, rfl, rfl⟩ := h
  exact Table.locate_eq_none (fun i hi => hh.full hn hi) hfree hcap fuel

/-- While a slot is free every search ends. -/
theorem locate_isSome (h : Represents t cap hash l n) (hn : n < cap) (hcap : hash k < cap) :
    (t.locate cap k cap (hash k)).isSome := by
  obtain ⟨bs, hh, rfl, rfl⟩ := h
  exact hh.locate_isSome hn hcap

/-- The search for a key that is bound ends. -/
theorem locate_bound (h : Represents t cap hash l n) {v : ν} (hk : (k, v) ∈ l)
    (hcap : hash k < cap) :
    ∃ rounds, ∀ fuel, rounds ≤ fuel → (t.locate cap k fuel (hash k)).isSome := by
  obtain ⟨bs, hh, rfl, rfl⟩ := h
  obtain ⟨b, hb, hkv⟩ := List.mem_filterMap.mp hk
  obtain ⟨k', hk', hpair⟩ := Option.map_eq_some_iff.mp hkv
  obtain ⟨rfl, -⟩ := Prod.mk.inj hpair
  exact hh.locate_bound hb hk' hcap

end Represents

end FuseNt.Lib
