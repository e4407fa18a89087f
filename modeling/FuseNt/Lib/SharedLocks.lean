/-
  FuseNt.Lib.SharedLocks

  Locks that several holders share, or that one holder has for itself, kept as
  one number for each: how many share it, or -1.

  A holder has a share in some locks, and perhaps one lock for itself.  `count`
  is the number that a lock has to have.  Holders are `Compatible` if nobody has
  a share in a lock that somebody has for itself.  They stay compatible when a
  new holder has looked at the numbers only.
-/

import Mathlib.Tactic
import Mathlib.Algebra.BigOperators.Group.List.Basic

namespace FuseNt.Lib

/-- What a holder has. -/
structure LockHolder (ι : Type _) where
  shared : List ι
  own : Option ι
deriving DecidableEq

namespace LockHolder

variable {ι : Type _}

/-- Nobody shares what somebody has for itself. -/
structure Compatible (hs : List (LockHolder ι)) : Prop where
  excludes : ∀ h ∈ hs, ∀ i, h.own = some i → ∀ h' ∈ hs, i ∉ h'.shared
  nodup : (hs.filterMap own).Nodup

variable {hs : List (LockHolder ι)} {h : LockHolder ι} {i : ι}

theorem mem_filterMap_own : i ∈ hs.filterMap own ↔ ∃ h ∈ hs, h.own = some i := List.mem_filterMap

namespace Compatible

theorem nil : Compatible ([] : List (LockHolder ι)) :=
  ⟨fun _ hmem => absurd hmem List.not_mem_nil, List.nodup_nil⟩

theorem perm {hs' : List (LockHolder ι)} (hc : Compatible hs) (hperm : hs.Perm hs') :
    Compatible hs' where
  excludes h hmem i hown h' hmem' :=
    hc.excludes h (hperm.mem_iff.mpr hmem) i hown h' (hperm.mem_iff.mpr hmem')
  nodup := (hperm.filterMap own).nodup_iff.mp hc.nodup

theorem of_cons (hc : Compatible (h :: hs)) : Compatible hs where
  excludes h hmem i hown h' hmem' :=
    hc.excludes h (List.mem_cons_of_mem _ hmem) i hown h' (List.mem_cons_of_mem _ hmem')
  nodup := by
    have hnodup := hc.nodup
    rw [List.filterMap_cons] at hnodup
    cases hown : h.own with
    | none => rwa [hown] at hnodup
    | some i =>
        rw [hown] at hnodup
        exact (List.nodup_cons.mp hnodup).2

end Compatible

variable [DecidableEq ι]

/-- What a holder adds to the number of a lock. -/
def adds (h : LockHolder ι) (i : ι) : Int := h.shared.count i - if h.own = some i then 1 else 0

/-- The number of a lock. -/
def count (hs : List (LockHolder ι)) (i : ι) : Int := (hs.map (·.adds i)).sum

@[simp] theorem count_nil : count ([] : List (LockHolder ι)) i = 0 := rfl

@[simp] theorem count_cons : count (h :: hs) i = h.adds i + count hs i := List.sum_cons

theorem count_perm {hs' : List (LockHolder ι)} (hperm : hs.Perm hs') : count hs i = count hs' i :=
  (hperm.map _).sum_eq

namespace Compatible

theorem erase (hc : Compatible hs) (hmem : h ∈ hs) : Compatible (hs.erase h) :=
  (hc.perm (List.perm_cons_erase hmem)).of_cons

/-- A lock that nobody has for itself counts its shares. -/
theorem count_shared (hfree : ∀ h ∈ hs, h.own ≠ some i) :
    count hs i = (hs.map fun h => h.shared.count i).sum := by
  induction hs with
  | nil => rfl
  | cons h hs ih =>
      have hadds : h.adds i = h.shared.count i := by
        rw [adds, if_neg (hfree h List.mem_cons_self), sub_zero]
      rw [count_cons, hadds, ih fun h' hmem => hfree h' (List.mem_cons_of_mem _ hmem),
        List.map_cons, List.sum_cons, Nat.cast_add]

/-- If nobody shares a lock twice, its number is how many share it. -/
theorem count_countP (hfree : ∀ h ∈ hs, h.own ≠ some i) (hnodup : ∀ h ∈ hs, h.shared.Nodup) :
    count hs i = hs.countP fun h => decide (i ∈ h.shared) := by
  induction hs with
  | nil => rfl
  | cons h hs ih =>
      have hadds : h.adds i = if i ∈ h.shared then 1 else 0 := by
        rw [adds, if_neg (hfree h List.mem_cons_self), sub_zero]
        by_cases hi : i ∈ h.shared
        · rw [if_pos hi, List.count_eq_one_of_mem (hnodup h List.mem_cons_self) hi]
          rfl
        · rw [if_neg hi, List.count_eq_zero.mpr hi]
          rfl
      rw [count_cons, hadds, List.countP_cons, Nat.cast_add, add_comm,
        ih (fun h' hmem => hfree h' (List.mem_cons_of_mem _ hmem))
          fun h' hmem => hnodup h' (List.mem_cons_of_mem _ hmem)]
      by_cases hi : i ∈ h.shared <;> simp [hi]

/-- A lock that is shared. -/
theorem count_pos (hc : Compatible hs) (hmem : h ∈ hs) (hi : i ∈ h.shared) : 0 < count hs i := by
  have hfree : ∀ h' ∈ hs, h'.own ≠ some i := fun h' hmem' hown =>
    hc.excludes h' hmem' i hown h hmem hi
  have hle : h.shared.count i ≤ (hs.map fun h => h.shared.count i).sum :=
    List.single_le_sum (by simp) _ (List.mem_map_of_mem hmem)
  have hpos : 0 < h.shared.count i := List.count_pos_iff.mpr hi
  rw [count_shared hfree]
  omega

/-- A lock that somebody has for itself. -/
theorem count_own (hc : Compatible hs) (hmem : h ∈ hs) (hown : h.own = some i) :
    count hs i = -1 := by
  have hc' := hc.perm (List.perm_cons_erase hmem)
  have hfree : ∀ h' ∈ hs.erase h, h'.own ≠ some i := by
    intro h' hmem' hown'
    have hnodup := hc'.nodup
    rw [List.filterMap_cons, hown] at hnodup
    exact (List.nodup_cons.mp hnodup).1 (mem_filterMap_own.mpr ⟨h', hmem', hown'⟩)
  have hzero : ∀ h' ∈ hs, h'.shared.count i = 0 := fun h' hmem' =>
    List.count_eq_zero.mpr (hc.excludes h hmem i hown h' hmem')
  have hsum : ((hs.erase h).map fun h => h.shared.count i).sum = 0 := by
    apply List.sum_eq_zero
    intro n hn
    obtain ⟨h', hmem', rfl⟩ := List.mem_map.mp hn
    exact hzero h' (List.mem_of_mem_erase hmem')
  rw [count_perm (List.perm_cons_erase hmem), count_cons, count_shared hfree, hsum, adds,
    hzero h hmem, if_pos hown]
  rfl

/-- The number is -1 just if somebody has the lock for itself. -/
theorem count_eq_neg_one (hc : Compatible hs) : count hs i = -1 ↔ ∃ h ∈ hs, h.own = some i := by
  constructor
  · intro hcount
    by_contra hnone
    have hfree : ∀ h ∈ hs, h.own ≠ some i := fun h hmem hown => hnone ⟨h, hmem, hown⟩
    rw [count_shared hfree] at hcount
    omega
  · rintro ⟨h, hmem, hown⟩
    exact hc.count_own hmem hown

/-- The number is 0 just if nobody has anything of the lock. -/
theorem count_eq_zero (hc : Compatible hs) :
    count hs i = 0 ↔ ∀ h ∈ hs, h.own ≠ some i ∧ i ∉ h.shared := by
  constructor
  · intro hcount h hmem
    constructor
    · intro hown
      rw [hc.count_own hmem hown] at hcount
      omega
    · intro hi
      exact absurd hcount (Int.ne_of_gt (hc.count_pos hmem hi))
  · intro hfree
    rw [count_shared fun h hmem => (hfree h hmem).1]
    have hsum : (hs.map fun h => h.shared.count i).sum = 0 := by
      apply List.sum_eq_zero
      intro n hn
      obtain ⟨h, hmem, rfl⟩ := List.mem_map.mp hn
      exact List.count_eq_zero.mpr (hfree h hmem).2
    rw [hsum]
    rfl

/-- A new holder takes shares where the number is not -1, and for itself a lock
    whose number is 0. -/
theorem cons (hc : Compatible hs) (hshared : ∀ i ∈ h.shared, count hs i ≠ -1 ∧ h.own ≠ some i)
    (hown : ∀ i, h.own = some i → count hs i = 0) : Compatible (h :: hs) where
  excludes := by
    intro h₁ hmem₁ i hown₁ h₂ hmem₂ hi
    rcases List.mem_cons.mp hmem₁ with heq₁ | hold₁ <;> rcases List.mem_cons.mp hmem₂ with heq₂ | hold₂
    · exact (hshared i (heq₂ ▸ hi)).2 (heq₁ ▸ hown₁)
    · exact (hc.count_eq_zero.mp (hown i (heq₁ ▸ hown₁)) h₂ hold₂).2 hi
    · exact (hshared i (heq₂ ▸ hi)).1 (hc.count_own hold₁ hown₁)
    · exact hc.excludes h₁ hold₁ i hown₁ h₂ hold₂ hi
  nodup := by
    rw [List.filterMap_cons]
    cases ho : h.own with
    | none => exact hc.nodup
    | some i =>
        refine List.nodup_cons.mpr ⟨fun hmem => ?_, hc.nodup⟩
        obtain ⟨h', hmem', hown'⟩ := mem_filterMap_own.mp hmem
        exact (hc.count_eq_zero.mp (hown i ho) h' hmem').1 hown'

end Compatible

end LockHolder

end FuseNt.Lib
