/-
  FuseNt.Module.Locks

  The record locks of a file, as the module library keeps them (fuse.c).

  `locks_insert` walks over the locks of all owners with a pointer to the
  pointer to the lock that is next.  The list before the pointer is never
  changed again, so the loop is a recursion over the list from the pointer on.
  A lock is a piece of its owner's map from the bytes of the file to the type
  of the lock on them; the loop paints the new lock over this map.
-/

import FuseNt.Lib.Ranges
import FuseNt.Lib.Run
import FuseNt.Proto

namespace FuseNt

open FuseNt.Lib

-- ============================================================================
-- struct lock
-- ============================================================================

/-- `F_RDLCK`, `F_WRLCK` and `F_UNLCK`. -/
inductive LockType where
  | rdlck
  | wrlck
  | unlck
deriving DecidableEq

def offsetMax : Int := 0x7fffffffffffffff

def eNoLck : Int := 39

/-- `struct lock`, a member of a list.  The offsets are of type `off_t`, which
    is signed. -/
structure Lock where
  type : LockType
  start : Int
  end_ : Int
  pid : Int
  owner : UInt64
deriving DecidableEq

/-- `locks_conflict`. -/
def locksConflict (locks : List Lock) (lock : Lock) : Option Lock :=
  locks.find? fun l =>
    decide (l.owner ≠ lock.owner) && (decide (lock.start ≤ l.end_ ∧ l.start ≤ lock.end_) &&
      decide (l.type = .wrlck ∨ lock.type = .wrlck))

/-- The lock with the range of `l`, too, which it meets. -/
def Lock.widen (lock l : Lock) : Lock :=
  { lock with
    start := if l.start < lock.start then l.start else lock.start
    end_ := if lock.end_ < l.end_ then l.end_ else lock.end_ }

/-- What is behind the loop of `locks_insert`: the list from the pointer on
    with the new lock in front.  `none` if `newl1` is NULL and needed. -/
def insertHere (newl1 : Bool) (lock : Lock) (locks : List Lock) : Option (List Lock) :=
  if lock.type = .unlck then some locks
  else if newl1 then some (lock :: locks)
  else none

/-- The loop of `locks_insert` and what is behind it; `newl1` and `newl2` say
    whether the pointers have memory.  The list is the one the pointer `lp`
    leads to.  `none` if the code writes to where a NULL pointer leads. -/
def insertLoop (newl1 newl2 : Bool) (lock : Lock) (locks : List Lock) : Option (List Lock) :=
  match locks with
  | [] => insertHere newl1 lock []
  | l :: rest =>
      if l.owner ≠ lock.owner then (insertLoop newl1 newl2 lock rest).map (l :: ·)
      else if lock.type = l.type then
        if l.end_ < lock.start - 1 then (insertLoop newl1 newl2 lock rest).map (l :: ·)
        else if lock.end_ < l.start - 1 then insertHere newl1 lock (l :: rest)
        else if l.start ≤ lock.start ∧ lock.end_ ≤ l.end_ then some (l :: rest)
        else insertLoop newl1 newl2 (lock.widen l) rest
      else
        if l.end_ < lock.start then (insertLoop newl1 newl2 lock rest).map (l :: ·)
        else if lock.end_ < l.start then insertHere newl1 lock (l :: rest)
        else if lock.start ≤ l.start ∧ l.end_ ≤ lock.end_ then insertLoop newl1 newl2 lock rest
        else if l.end_ ≤ lock.end_ then
          (insertLoop newl1 newl2 lock rest).map ({ l with end_ := lock.start - 1 } :: ·)
        else if lock.start ≤ l.start then
          insertHere newl1 lock ({ l with start := lock.end_ + 1 } :: rest)
        else if newl2 then
          -- `newl2` is the next lock of the list now
          (insertLoop newl1 false lock ({ l with start := lock.end_ + 1 } :: rest)).map
            ({ l with end_ := lock.start - 1 } :: ·)
        else none
termination_by (locks.length, newl2.toNat)

/-- `locks_insert`, with its result and the list it leaves.  `mem` says whether
    there is memory for two locks. -/
def locksInsert (locks : List Lock) (lock : Lock) (mem : Bool) : Option (Int × List Lock) :=
  if lock.type ≠ .unlck ∨ lock.start ≠ 0 ∨ lock.end_ ≠ offsetMax then
    if mem then (insertLoop true true lock locks).map fun locks => (0, locks)
    else some (-eNoLck, locks)
  else (insertLoop false false lock locks).map fun locks => (0, locks)

-- ============================================================================
-- What an insertion does
-- ============================================================================

/-- The locks of an owner. -/
def ofOwner (owner : UInt64) (locks : List Lock) : List Lock :=
  locks.filter fun l => l.owner = owner

def Lock.piece (l : Lock) : Piece LockType := ⟨l.start, l.end_, l.type⟩

/-- The locks of an owner as pieces of a map from the bytes of the file. -/
def piecesOf (owner : UInt64) (locks : List Lock) : List (Piece LockType) :=
  (ofOwner owner locks).map Lock.piece

section Owners

variable {l : Lock} {locks : List Lock} {owner : UInt64}

theorem ofOwner_cons_self (h : l.owner = owner) :
    ofOwner owner (l :: locks) = l :: ofOwner owner locks :=
  List.filter_cons_of_pos (decide_eq_true h)

theorem ofOwner_cons_other (h : l.owner ≠ owner) :
    ofOwner owner (l :: locks) = ofOwner owner locks :=
  List.filter_cons_of_neg (by simpa using h)

theorem piecesOf_cons_self (h : l.owner = owner) :
    piecesOf owner (l :: locks) = l.piece :: piecesOf owner locks := by
  rw [piecesOf, ofOwner_cons_self h]
  rfl

theorem piecesOf_cons_other (h : l.owner ≠ owner) :
    piecesOf owner (l :: locks) = piecesOf owner locks := by
  rw [piecesOf, ofOwner_cons_other h, piecesOf]

end Owners

/-- The list `locks'` is `locks` after the insertion of `lock`: the map of its
    owner is painted over, and the other owners' locks are as they were. -/
structure Inserted (lock : Lock) (locks locks' : List Lock) : Prop where
  painted : Painted lock.piece (decide (lock.type ≠ .unlck)) (piecesOf lock.owner locks)
    (piecesOf lock.owner locks')
  others : ∀ owner, owner ≠ lock.owner → ofOwner owner locks' = ofOwner owner locks

namespace Inserted

variable {lock l : Lock} {locks locks' : List Lock}

/-- Pass over the lock of another owner. -/
theorem skip_other (h : Inserted lock locks locks') (ho : l.owner ≠ lock.owner) :
    Inserted lock (l :: locks) (l :: locks') where
  painted := by
    rw [piecesOf_cons_other ho, piecesOf_cons_other ho]
    exact h.painted
  others := by
    intro owner hne
    by_cases howner : l.owner = owner
    · rw [ofOwner_cons_self howner, ofOwner_cons_self howner, h.others owner hne]
    · rw [ofOwner_cons_other howner, ofOwner_cons_other howner, h.others owner hne]

/-- A change to a lock of the owner is none for the others. -/
theorem others_cons (h : Inserted lock locks locks') {l' : Lock} (ho : l.owner = lock.owner)
    (ho' : l'.owner = lock.owner) :
    ∀ owner, owner ≠ lock.owner → ofOwner owner (l' :: locks') = ofOwner owner (l :: locks) := by
  intro owner hne
  rw [ofOwner_cons_other (ho' ▸ hne.symm), ofOwner_cons_other (ho ▸ hne.symm)]
  exact h.others owner hne

end Inserted

/-- What the loop relies on: there is memory for the locks it makes, and the
    owner's locks are a normal list without unlocked ranges. -/
structure Insertable (newl1 newl2 : Bool) (lock : Lock) (locks : List Lock) : Prop where
  memory₁ : lock.type = .unlck ∨ newl1 = true
  memory₂ : newl2 = true ∨ ∀ r ∈ piecesOf lock.owner locks, lock.start ≤ r.lo
  normal : Normal (piecesOf lock.owner locks)
  locked : ∀ r ∈ piecesOf lock.owner locks, r.val ≠ .unlck
  proper : lock.start ≤ lock.end_

namespace Insertable

variable {newl1 newl2 : Bool} {lock l : Lock} {rest : List Lock}

theorem tail_other (h : Insertable newl1 newl2 lock (l :: rest)) (ho : l.owner ≠ lock.owner) :
    Insertable newl1 newl2 lock rest := by
  have heq : piecesOf lock.owner (l :: rest) = piecesOf lock.owner rest := piecesOf_cons_other ho
  exact ⟨h.memory₁, heq ▸ h.memory₂, heq ▸ h.normal, heq ▸ h.locked, h.proper⟩

theorem pieces (h : Insertable newl1 newl2 lock (l :: rest)) (ho : l.owner = lock.owner) :
    Normal (l.piece :: piecesOf lock.owner rest) := by
  rw [← piecesOf_cons_self ho]
  exact h.normal

theorem tail (h : Insertable newl1 newl2 lock (l :: rest)) (ho : l.owner = lock.owner) :
    Insertable newl1 newl2 lock rest where
  memory₁ := h.memory₁
  memory₂ := h.memory₂.imp_right fun hlo r hr => by
    apply hlo
    rw [piecesOf_cons_self ho]
    exact List.mem_cons_of_mem _ hr
  normal := (h.pieces ho).tail
  locked := by
    intro r hr
    apply h.locked
    rw [piecesOf_cons_self ho]
    exact List.mem_cons_of_mem _ hr
  proper := h.proper

theorem head_locked (h : Insertable newl1 newl2 lock (l :: rest)) (ho : l.owner = lock.owner) :
    l.type ≠ .unlck := by
  apply h.locked l.piece
  rw [piecesOf_cons_self ho]
  exact List.mem_cons_self

/-- The pieces behind the first begin behind its end. -/
theorem widen (h : Insertable newl1 newl2 lock (l :: rest)) (ho : l.owner = lock.owner) :
    Insertable newl1 newl2 (lock.widen l) rest where
  memory₁ := h.memory₁
  memory₂ := (h.tail ho).memory₂.imp_right fun hlo r hr => by
    show (if l.start < lock.start then l.start else lock.start) ≤ r.lo
    have := hlo r hr
    split <;> omega
  normal := (h.tail ho).normal
  locked := (h.tail ho).locked
  proper := by
    show (if l.start < lock.start then l.start else lock.start) ≤
      (if lock.end_ < l.end_ then l.end_ else lock.end_)
    have := h.proper
    split <;> split <;> omega

/-- After a lock is split in two, there is nothing more to split. -/
theorem cut (h : Insertable newl1 newl2 lock (l :: rest)) (ho : l.owner = lock.owner)
    (hhi : lock.end_ < l.end_) :
    Insertable newl1 false lock ({ l with start := lock.end_ + 1 } :: rest) := by
  have heq : piecesOf lock.owner ({ l with start := lock.end_ + 1 } :: rest) =
      { l.piece with lo := lock.end_ + 1 } :: piecesOf lock.owner rest := piecesOf_cons_self ho
  have hn : Normal ({ l.piece with lo := lock.end_ + 1 } :: piecesOf lock.owner rest) :=
    (h.pieces ho).shrink hhi
  refine ⟨h.memory₁, .inr fun r hr => ?_, heq ▸ hn, fun r hr => ?_, h.proper⟩
  · rw [heq] at hr
    have hlo : lock.end_ + 1 ≤ r.lo := by
      rcases List.mem_cons.mp hr with rfl | hr
      · exact le_rfl
      · have hbefore := (hn.before r hr).1
        have := hn.head
        simp only at hbefore this
        omega
    have := h.proper
    omega
  · rw [heq] at hr
    rcases List.mem_cons.mp hr with rfl | hr
    · exact h.head_locked ho
    · exact (h.tail ho).locked r hr

end Insertable

/-- What `insertHere` does to a list that is behind the new lock. -/
theorem insertHere_inserted {newl1 newl2 : Bool} {lock : Lock} {locks : List Lock}
    (h : Insertable newl1 newl2 lock locks)
    (hbefore : ∀ s ∈ piecesOf lock.owner locks, lock.piece.Before s) :
    ∃ locks', insertHere newl1 lock locks = some locks' ∧ Inserted lock locks locks' := by
  have hpaint := @Painted.finish _ _ (decide (lock.type ≠ .unlck)) _ h.normal h.proper hbefore
  by_cases hun : lock.type = .unlck
  · refine ⟨locks, if_pos hun, ?_, fun _ _ => rfl⟩
    simpa [hun] using hpaint
  · refine ⟨lock :: locks, ?_, ?_, fun owner hne => ofOwner_cons_other hne.symm⟩
    · rw [insertHere, if_neg hun, if_pos (h.memory₁.resolve_left hun)]
    · rw [piecesOf_cons_self rfl]
      simpa [hun] using hpaint

/-- The first lock of the owner is behind the new one, and so are the others. -/
theorem insertHere_before {newl1 newl2 : Bool} {lock l : Lock} {rest : List Lock}
    (h : Insertable newl1 newl2 lock (l :: rest)) (ho : l.owner = lock.owner)
    (hbefore : lock.piece.Before l.piece) :
    ∃ locks', insertHere newl1 lock (l :: rest) = some locks' ∧
      Inserted lock (l :: rest) locks' := by
  apply insertHere_inserted h
  rw [piecesOf_cons_self ho]
  exact Painted.all_before (h.pieces ho) hbefore

/-- The loop of `locks_insert` never writes through a NULL pointer, and inserts
    the lock.  Each branch is one of the rules for painting. -/
theorem insertLoop_inserted {newl1 newl2 : Bool} {lock : Lock} {locks : List Lock}
    (h : Insertable newl1 newl2 lock locks) :
    ∃ locks', insertLoop newl1 newl2 lock locks = some locks' ∧ Inserted lock locks locks' := by
  fun_induction insertLoop newl1 newl2 lock locks with
  | case1 newl2 lock =>
      apply insertHere_inserted h
      simp [piecesOf, ofOwner]
  | case2 newl2 lock l rest ho ih =>
      obtain ⟨locks', hloop, hins⟩ := ih (h.tail_other ho)
      rw [hloop]
      exact ⟨_, rfl, hins.skip_other ho⟩
  | case3 newl2 lock l rest ho htype hend ih =>
      have ho := not_not.mp ho
      obtain ⟨locks', hloop, hins⟩ := ih (h.tail ho)
      rw [hloop]
      refine ⟨_, rfl, ?_, hins.others_cons ho ho⟩
      rw [piecesOf_cons_self ho, piecesOf_cons_self ho]
      apply hins.painted.skip (h.pieces ho)
      exact ⟨by show l.end_ < lock.start; omega, fun _ => by show l.end_ + 1 < lock.start; omega⟩
  | case4 newl2 lock l rest ho htype _ hend =>
      apply insertHere_before h (not_not.mp ho)
      exact ⟨by show lock.end_ < l.start; omega, fun _ => by show lock.end_ + 1 < l.start; omega⟩
  | case5 newl2 lock l rest ho htype _ _ hin =>
      have ho := not_not.mp ho
      refine ⟨_, rfl, ?_, fun _ _ => rfl⟩
      have hkeep : lock.type ≠ .unlck := htype ▸ h.head_locked ho
      rw [decide_eq_true hkeep, piecesOf_cons_self ho]
      exact .inside (h.pieces ho) htype.symm hin.1 hin.2
  | case6 newl2 lock l rest ho htype hlo hhi _ ih =>
      have ho := not_not.mp ho
      obtain ⟨locks', hloop, hins⟩ := ih (h.widen ho)
      refine ⟨locks', hloop, ?_, ?_⟩
      · have hkeep : lock.type ≠ .unlck := htype ▸ h.head_locked ho
        have hpaint := hins.painted
        rw [show (lock.widen l).type = lock.type from rfl, decide_eq_true hkeep] at hpaint
        rw [decide_eq_true hkeep, piecesOf_cons_self ho]
        apply hpaint.merge htype.symm
        · exact ⟨by show l.start ≤ lock.end_ + 1; omega, by show lock.start ≤ l.end_ + 1; omega⟩
        · show (if l.start < lock.start then l.start else lock.start) = min lock.start l.start
          split <;> omega
        · show (if lock.end_ < l.end_ then l.end_ else lock.end_) = max lock.end_ l.end_
          split <;> omega
      · intro owner hne
        rw [hins.others owner hne, ofOwner_cons_other (ho ▸ hne.symm)]
  | case7 newl2 lock l rest ho htype hend ih =>
      have ho := not_not.mp ho
      obtain ⟨locks', hloop, hins⟩ := ih (h.tail ho)
      rw [hloop]
      refine ⟨_, rfl, ?_, hins.others_cons ho ho⟩
      rw [piecesOf_cons_self ho, piecesOf_cons_self ho]
      exact hins.painted.skip (h.pieces ho) ⟨hend, fun heq => absurd heq.symm htype⟩
  | case8 newl2 lock l rest ho htype _ hend =>
      apply insertHere_before h (not_not.mp ho)
      exact ⟨hend, fun heq => absurd heq htype⟩
  | case9 newl2 lock l rest ho htype _ _ hin ih =>
      have ho := not_not.mp ho
      obtain ⟨locks', hloop, hins⟩ := ih (h.tail ho)
      refine ⟨locks', hloop, ?_, fun owner hne => ?_⟩
      · rw [piecesOf_cons_self ho]
        exact hins.painted.covered hin.1 hin.2
      · rw [hins.others owner hne, ofOwner_cons_other (ho ▸ hne.symm)]
  | case10 newl2 lock l rest ho htype hlo _ hin hend ih =>
      have ho := not_not.mp ho
      obtain ⟨locks', hloop, hins⟩ := ih (h.tail ho)
      rw [hloop]
      refine ⟨_, rfl, ?_, hins.others_cons ho ho⟩
      rw [piecesOf_cons_self ho, piecesOf_cons_self (by exact ho)]
      apply hins.painted.trim (h.pieces ho) (fun heq => htype heq.symm)
      · show l.start < lock.start
        omega
      · exact not_lt.mp hlo
      · exact hend
  | case11 newl2 lock l rest ho htype _ hlo _ hend hstart =>
      have ho := not_not.mp ho
      have hrest := h.cut ho (not_le.mp hend)
      obtain ⟨locks', hhere, hins⟩ := insertHere_before hrest ho
        ⟨by show lock.end_ < lock.end_ + 1; omega, fun heq => absurd heq htype⟩
      refine ⟨locks', hhere, ?_, fun owner hne => ?_⟩
      · have hpaint := hins.painted
        rw [piecesOf_cons_self (by exact ho)] at hpaint
        rw [piecesOf_cons_self ho]
        exact hpaint.shrink hstart (not_lt.mp hlo)
      · rw [hins.others owner hne, ofOwner_cons_other (ho ▸ hne.symm),
          ofOwner_cons_other (by exact ho ▸ hne.symm)]
  | case12 lock l rest ho htype hlo _ _ hend hstart ih =>
      have ho := not_not.mp ho
      obtain ⟨locks', hloop, hins⟩ := ih (h.cut ho (not_le.mp hend))
      rw [hloop]
      refine ⟨_, rfl, ?_, fun owner hne => ?_⟩
      · have hpaint := hins.painted
        rw [piecesOf_cons_self (by exact ho)] at hpaint
        rw [piecesOf_cons_self ho, piecesOf_cons_self (by exact ho)]
        exact hpaint.split (h.pieces ho) (fun heq => htype heq.symm) (not_le.mp hstart) h.proper
          (not_le.mp hend)
      · rw [ofOwner_cons_other (by exact ho ▸ hne.symm), hins.others owner hne,
          ofOwner_cons_other (ho ▸ hne.symm), ofOwner_cons_other (by exact ho ▸ hne.symm)]
  | case13 newl2 lock l rest ho htype _ _ _ _ hstart hnewl2 =>
      have hlo := h.memory₂.resolve_left hnewl2 l.piece
      rw [piecesOf_cons_self (not_not.mp ho)] at hlo
      exact absurd (hlo List.mem_cons_self) hstart

-- ============================================================================
-- The map from the bytes of a file to the locks on them
-- ============================================================================

/-- The type of the lock that an owner has on a byte. -/
def lockAt (locks : List Lock) (owner : UInt64) (p : Int) : Option LockType :=
  valueAt (piecesOf owner locks) p

/-- What the lists of locks are that `locks_insert` makes. -/
structure LocksOk (locks : List Lock) : Prop where
  normal : ∀ owner, Normal (piecesOf owner locks)
  held : ∀ owner p t, lockAt locks owner p = some t → t ≠ .unlck ∧ 0 ≤ p ∧ p ≤ offsetMax

/-- The map after the owner of `lock` was given what it says. -/
def setLock (m : UInt64 → Int → Option LockType) (lock : Lock) : UInt64 → Int → Option LockType :=
  Function.update m lock.owner
    (assign (m lock.owner) lock.start lock.end_ (if lock.type = .unlck then none else some lock.type))

namespace LocksOk

variable {lock l : Lock} {locks locks' : List Lock}

theorem nil : LocksOk [] where
  normal := fun _ => .nil
  held := fun _ _ _ h => by cases h

theorem piece_mem (hl : l ∈ locks) : l.piece ∈ piecesOf l.owner locks :=
  List.mem_map_of_mem (List.mem_filter.mpr ⟨hl, decide_eq_true rfl⟩)

/-- A lock of the list holds its bytes. -/
theorem lockAt_of_mem (h : LocksOk locks) (hl : l ∈ locks) {p : Int} (hlo : l.start ≤ p)
    (hhi : p ≤ l.end_) : lockAt locks l.owner p = some l.type :=
  (h.normal l.owner).valueAt_of_mem (piece_mem hl) ⟨hlo, hhi⟩

theorem start_le (h : LocksOk locks) (hl : l ∈ locks) : l.start ≤ l.end_ :=
  (h.normal l.owner).proper _ (piece_mem hl)

/-- A byte that is held is in a lock of the list. -/
theorem exists_of_lockAt {owner : UInt64} {p : Int} {t : LockType}
    (ht : lockAt locks owner p = some t) :
    ∃ l ∈ locks, l.owner = owner ∧ l.start ≤ p ∧ p ≤ l.end_ ∧ l.type = t := by
  obtain ⟨r, hr, hp, hval⟩ := exists_of_valueAt ht
  obtain ⟨l, hl, rfl⟩ := List.mem_map.mp hr
  obtain ⟨hmem, howner⟩ := List.mem_filter.mp hl
  exact ⟨l, hmem, of_decide_eq_true howner, hp.1, hp.2, hval⟩

theorem locked (h : LocksOk locks) (owner : UInt64) :
    ∀ r ∈ piecesOf owner locks, r.val ≠ .unlck ∧ 0 ≤ r.lo := by
  intro r hr
  have hlo := (h.normal owner).valueAt_of_mem hr ⟨le_rfl, (h.normal owner).proper r hr⟩
  have hheld := h.held owner r.lo r.val hlo
  exact ⟨hheld.1, hheld.2.1⟩

/-- An insertion gives the owner what the lock says, and keeps what the lists are. -/
theorem inserted (h : LocksOk locks) (hins : Inserted lock locks locks') (hlo : 0 ≤ lock.start)
    (hhi : lock.end_ ≤ offsetMax) :
    LocksOk locks' ∧ lockAt locks' = setLock (lockAt locks) lock := by
  have hmap : lockAt locks' = setLock (lockAt locks) lock := by
    funext owner
    by_cases howner : owner = lock.owner
    · subst howner
      rw [setLock, Function.update_self]
      show valueAt (piecesOf lock.owner locks') = _
      rw [hins.painted.value]
      by_cases hun : lock.type = .unlck
      · simp only [hun, Lock.piece, ne_eq, not_true_eq_false, decide_false]
        rfl
      · simp only [hun, Lock.piece, ne_eq, not_false_eq_true, decide_true]
        rfl
    · rw [setLock, Function.update_of_ne howner]
      show valueAt (piecesOf owner locks') = valueAt (piecesOf owner locks)
      rw [piecesOf, hins.others owner howner, piecesOf]
  refine ⟨⟨fun owner => ?_, fun owner p t ht => ?_⟩, hmap⟩
  · by_cases howner : owner = lock.owner
    · subst howner
      exact hins.painted.normal
    · rw [piecesOf, hins.others owner howner]
      exact h.normal owner
  · rw [hmap, setLock] at ht
    by_cases howner : owner = lock.owner
    · subst howner
      rw [Function.update_self, assign] at ht
      split at ht
      next hp =>
        split at ht
        next => cases ht
        next hun =>
          cases ht
          exact ⟨hun, hlo.trans hp.1, hp.2.trans hhi⟩
      next => exact h.held _ p t ht
    · rw [Function.update_of_ne howner] at ht
      exact h.held owner p t ht

end LocksOk

/-- The range is within a file. -/
structure Lock.InFile (lock : Lock) : Prop where
  start_nonneg : 0 ≤ lock.start
  proper : lock.start ≤ lock.end_
  end_le : lock.end_ ≤ offsetMax

/-- Unlocking the whole file takes no memory. -/
def Lock.clearsFile (lock : Lock) : Bool :=
  decide (lock.type = .unlck ∧ lock.start = 0 ∧ lock.end_ = offsetMax)

/-- `locks_insert` inserts the lock or reports that there is no memory. -/
theorem locksInsert_spec {locks : List Lock} {lock : Lock} (h : LocksOk locks)
    (hlock : lock.InFile) (mem : Bool) :
    ∃ res locks', locksInsert locks lock mem = some (res, locks') ∧ LocksOk locks' ∧
      lockAt locks' =
        if mem || lock.clearsFile then setLock (lockAt locks) lock else lockAt locks := by
  have hbase : ∀ newl, (lock.type = .unlck ∨ newl = true) →
      (newl = true ∨ ∀ r ∈ piecesOf lock.owner locks, lock.start ≤ r.lo) →
      ∃ locks', insertLoop newl newl lock locks = some locks' ∧ LocksOk locks' ∧
        lockAt locks' = setLock (lockAt locks) lock := by
    intro newl h₁ h₂
    have hready : Insertable newl newl lock locks :=
      ⟨h₁, h₂, h.normal _, fun r hr => (h.locked _ r hr).1, hlock.proper⟩
    obtain ⟨locks', hloop, hins⟩ := insertLoop_inserted hready
    exact ⟨locks', hloop, h.inserted hins hlock.start_nonneg hlock.end_le⟩
  by_cases hclear : lock.type ≠ .unlck ∨ lock.start ≠ 0 ∨ lock.end_ ≠ offsetMax
  · have hfalse : lock.clearsFile = false := by
      rw [Lock.clearsFile, decide_eq_false_iff_not]
      tauto
    rw [locksInsert, if_pos hclear, hfalse, Bool.or_false]
    cases mem with
    | true =>
        obtain ⟨locks', hloop, hok⟩ := hbase true (.inr rfl) (.inl rfl)
        rw [if_pos rfl, hloop]
        exact ⟨0, locks', rfl, hok⟩
    | false => exact ⟨-eNoLck, locks, rfl, h, rfl⟩
  · have htrue : lock.clearsFile = true := by
      rw [Lock.clearsFile, decide_eq_true_iff]
      tauto
    rw [locksInsert, if_neg hclear, htrue, Bool.or_true, if_pos rfl]
    have hun := of_decide_eq_true htrue
    obtain ⟨locks', hloop, hok⟩ := hbase false (.inl hun.1) (.inr fun r hr => by
      rw [hun.2.1]
      exact (h.locked _ r hr).2)
    rw [hloop]
    exact ⟨0, locks', rfl, hok⟩

-- ============================================================================
-- The requests that the kernel sends
-- ============================================================================

/-- `struct flock`. -/
structure Flock where
  lType : LockType
  lStart : Int
  lLen : Int
  lPid : Int

/-- `flock_to_lock`, and the owner that its callers put in. -/
def flockToLock (flock : Flock) (owner : UInt64) : Lock where
  type := flock.lType
  start := flock.lStart
  end_ := if flock.lLen ≠ 0 then flock.lStart + flock.lLen - 1 else offsetMax
  pid := flock.lPid
  owner := owner

/-- `lock_to_flock`. -/
def lockToFlock (lock : Lock) : Flock where
  lType := lock.type
  lStart := lock.start
  lLen := if lock.end_ = offsetMax then 0 else lock.end_ - lock.start + 1
  lPid := lock.pid

/-- `struct fuse_file_lock`, as the kernel sends it: its range is within a
    file, so that the offsets are the same as `off_t`. -/
structure FuseFileLock where
  start : Nat
  end_ : Nat
  type : LockType
  pid : Nat
  start_le : start ≤ end_
  end_le : end_ ≤ 0x7fffffffffffffff

/-- `convert_fuse_file_lock`. -/
def convertFuseFileLock (fl : FuseFileLock) : Flock where
  lType := fl.type
  lStart := fl.start
  lLen := if (fl.end_ : Int) = offsetMax then 0 else fl.end_ - fl.start + 1
  lPid := fl.pid

/-- `struct fuse_lk_out`. -/
structure FuseLkOut where
  start : Int
  end_ : Int
  type : LockType
  pid : Int
deriving DecidableEq

/-- `fuse_reply_lock`. -/
def fuseReplyLock (lock : Flock) : FuseLkOut :=
  if lock.lType ≠ .unlck then
    { start := lock.lStart
      end_ := if lock.lLen = 0 then offsetMax else lock.lStart + lock.lLen - 1
      type := lock.lType
      pid := lock.lPid }
  else { start := 0, end_ := 0, type := lock.lType, pid := lock.lPid }

/-- `fuse_lib_getlk`.  `common` is `fuse_lock_common` with `F_GETLK`: what the
    file system says, and what it makes of the lock it is given. -/
def fuseLibGetlk (locks : List Lock) (owner : UInt64) (lock : Flock)
    (common : Flock → Int × Flock) : Except Int FuseLkOut :=
  match locksConflict locks (flockToLock lock owner) with
  | some conflict => .ok (fuseReplyLock (lockToFlock conflict))
  | none =>
      let (err, lock) := common lock
      if err = 0 then .ok (fuseReplyLock lock) else .error err

/-- `fuse_lib_setlk`.  `common` is `fuse_lock_common` with `F_SETLK` or
    `F_SETLKW`: the lock is read again after it.  The result of `locks_insert` is
    not looked at. -/
def fuseLibSetlk (locks : List Lock) (owner : UInt64) (lock : Flock)
    (common : Flock → Int × Flock) (mem : Bool) : Option (Int × List Lock) :=
  let (err, lock) := common lock
  if err = 0 then (locksInsert locks (flockToLock lock owner) mem).map fun r => (err, r.2)
  else some (err, locks)

/-- `fuse_flush_common`; `err` is what the file system's `flush` says, and
    `common` its `lock` with `F_SETLK`. -/
def fuseFlushCommon (locks : List Lock) (owner : UInt64) (err : Int)
    (common : Flock → Int × Flock) (mem : Bool) : Option (Int × List Lock) :=
  let (errlock, lock) := common ⟨.unlck, 0, 0, 0⟩
  if errlock ≠ -eNoSys then
    (locksInsert locks (flockToLock lock owner) mem).map fun r =>
      (if err = -eNoSys then 0 else err, r.2)
  else some (err, locks)

/-- A file system that sets a lock says whether it did, and leaves the `struct
    flock` alone: only `F_GETLK` is to change it. -/
def leavesFlock (err : Int) (lock : Flock) : Int × Flock := (err, lock)

/-- A request on an opened file that may change its locks, with what the file
    system says to it and whether there is memory. -/
inductive LockCall where
  | setlk (owner : UInt64) (lk : FuseFileLock) (err : Int) (mem : Bool)
  | flush (owner : UInt64) (err errlock : Int) (mem : Bool)
  | release (owner : UInt64) (fiFlush : Bool) (err errlock : Int) (mem : Bool)

/-- The answer to a request, and the locks it leaves: `do_setlk_common`,
    `fuse_lib_flush` and `fuse_lib_release`. -/
def LockCall.serve (locks : List Lock) : LockCall → Option (Int × List Lock)
  | .setlk owner lk err mem =>
      fuseLibSetlk locks owner (convertFuseFileLock lk) (leavesFlock err) mem
  | .flush owner err errlock mem => fuseFlushCommon locks owner err (leavesFlock errlock) mem
  | .release owner fiFlush err errlock mem =>
      if fiFlush then
        (fuseFlushCommon locks owner err (leavesFlock errlock) mem).map fun r =>
          (if r.1 = -eNoSys then 0 else r.1, r.2)
      else some (0, locks)

/-- A file whose locks are `locks` serves a request. -/
def LockStep (locks : List Lock) (call : LockCall) (locks' : List Lock) : Prop :=
  ∃ reply, call.serve locks = some (reply, locks')

/-- What a request does to the map from owners and bytes to locks. -/
def LockCall.effect (m : UInt64 → Int → Option LockType) :
    LockCall → UInt64 → Int → Option LockType
  | .setlk owner lk err mem =>
      if err = 0 ∧ (mem = true ∨ lk.type = .unlck ∧ lk.start = 0 ∧ lk.end_ = 0x7fffffffffffffff) then
        Function.update m owner fun p =>
          if lk.start ≤ p ∧ p ≤ lk.end_ then (if lk.type = .unlck then none else some lk.type)
          else m owner p
      else m
  | .flush owner _ errlock _ =>
      if errlock = -eNoSys then m else Function.update m owner fun _ => none
  | .release owner fiFlush _ errlock _ =>
      if fiFlush = false ∨ errlock = -eNoSys then m else Function.update m owner fun _ => none

section Requests

variable {locks : List Lock}

theorem flockToLock_convert (fl : FuseFileLock) (owner : UInt64) :
    flockToLock (convertFuseFileLock fl) owner = ⟨fl.type, fl.start, fl.end_, fl.pid, owner⟩ := by
  have := fl.start_le
  rw [flockToLock, convertFuseFileLock, Lock.mk.injEq]
  refine ⟨rfl, rfl, ?_, rfl, rfl⟩
  show (if (if (fl.end_ : Int) = offsetMax then (0 : Int) else fl.end_ - fl.start + 1) ≠ 0 then
    (fl.start : Int) + (if (fl.end_ : Int) = offsetMax then (0 : Int) else fl.end_ - fl.start + 1)
      - 1 else offsetMax) = fl.end_
  by_cases hmax : (fl.end_ : Int) = offsetMax
  · rw [if_pos hmax, if_neg (not_not.mpr rfl), hmax]
  · rw [if_neg hmax, if_pos (by omega)]
    omega

theorem inFile_convert (fl : FuseFileLock) (owner : UInt64) :
    (flockToLock (convertFuseFileLock fl) owner).InFile := by
  rw [flockToLock_convert]
  have hlo := fl.start_le
  have hhi := fl.end_le
  refine ⟨Int.natCast_nonneg _, ?_, ?_⟩
  · show (fl.start : Int) ≤ fl.end_
    omega
  · show (fl.end_ : Int) ≤ 0x7fffffffffffffff
    omega

/-- A stored lock goes to the kernel as it is. -/
theorem fuseReplyLock_lockToFlock {l : Lock} (htype : l.type ≠ .unlck) (hle : l.start ≤ l.end_) :
    fuseReplyLock (lockToFlock l) = ⟨l.start, l.end_, l.type, l.pid⟩ := by
  have hlocked : (lockToFlock l).lType ≠ .unlck := htype
  rw [fuseReplyLock, if_pos hlocked, FuseLkOut.mk.injEq]
  refine ⟨rfl, ?_, rfl, rfl⟩
  show (if (if l.end_ = offsetMax then (0 : Int) else l.end_ - l.start + 1) = 0 then offsetMax
    else l.start + (if l.end_ = offsetMax then (0 : Int) else l.end_ - l.start + 1) - 1) = l.end_
  by_cases hmax : l.end_ = offsetMax
  · rw [if_pos hmax, if_pos rfl, hmax]
  · rw [if_neg hmax, if_neg (by omega)]
    omega

/-- What a flush does that the file system does not leave to the kernel. -/
theorem fuseFlushCommon_spec (h : LocksOk locks) (owner : UInt64) (err errlock : Int) (mem : Bool) :
    ∃ reply locks', fuseFlushCommon locks owner err (leavesFlock errlock) mem =
        some (reply, locks') ∧
      LocksOk locks' ∧
      lockAt locks' = if errlock = -eNoSys then lockAt locks
        else Function.update (lockAt locks) owner fun _ => none := by
  by_cases hsys : errlock = -eNoSys
  · refine ⟨err, locks, ?_, h, ?_⟩
    · exact if_neg (not_not.mpr hsys)
    · rw [if_pos hsys]
  · have hfile : (flockToLock ⟨.unlck, 0, 0, 0⟩ owner).InFile :=
      ⟨le_rfl, by show (0 : Int) ≤ 0x7fffffffffffffff; omega, le_rfl⟩
    obtain ⟨res, locks', hins, hok, hmap⟩ := locksInsert_spec h hfile mem
    refine ⟨if err = -eNoSys then 0 else err, locks', ?_, hok, ?_⟩
    · show (if errlock ≠ -eNoSys then _ else _) = _
      rw [if_pos hsys, hins]
      rfl
    · have hclear : (flockToLock ⟨.unlck, 0, 0, 0⟩ owner).clearsFile = true := rfl
      rw [hmap, hclear, Bool.or_true, if_pos rfl, if_neg hsys, setLock]
      show Function.update (lockAt locks) owner (assign (lockAt locks owner) 0 offsetMax none) = _
      congr 1
      funext p
      rw [assign]
      split
      next => rfl
      next hp =>
        cases hval : lockAt locks owner p with
        | none => rfl
        | some t => exact absurd (h.held owner p t hval).2 hp

/-- One request: it is served, and the map changes as `effect` says. -/
theorem LockCall.serve_spec (h : LocksOk locks) (call : LockCall) :
    ∃ reply locks', call.serve locks = some (reply, locks') ∧ LocksOk locks' ∧
      lockAt locks' = call.effect (lockAt locks) := by
  cases call with
  | setlk owner lk err mem =>
      by_cases herr : err = 0
      · obtain ⟨res, locks', hins, hok, hmap⟩ := locksInsert_spec h (inFile_convert lk owner) mem
        refine ⟨err, locks', ?_, hok, ?_⟩
        · show (if err = 0 then _ else _) = _
          rw [if_pos herr, hins]
          rfl
        · rw [hmap, flockToLock_convert]
          have hclear : (mem || Lock.clearsFile ⟨lk.type, lk.start, lk.end_, lk.pid, owner⟩) = true ↔
              mem = true ∨ lk.type = .unlck ∧ lk.start = 0 ∧ lk.end_ = 0x7fffffffffffffff := by
            rw [Bool.or_eq_true, Lock.clearsFile, decide_eq_true_iff]
            show mem = true ∨ lk.type = .unlck ∧ (lk.start : Int) = 0 ∧
              (lk.end_ : Int) = 0x7fffffffffffffff ↔ _
            rw [Int.natCast_eq_zero]
            norm_cast
          by_cases hmem : mem = true ∨
              lk.type = .unlck ∧ lk.start = 0 ∧ lk.end_ = 0x7fffffffffffffff
          · rw [if_pos (hclear.mpr hmem), effect, if_pos ⟨herr, hmem⟩]
            rfl
          · rw [if_neg (mt hclear.mp hmem), effect, if_neg fun h => hmem h.2]
      · refine ⟨err, locks, ?_, h, ?_⟩
        · exact if_neg herr
        · rw [effect, if_neg fun h => herr h.1]
  | flush owner err errlock mem => exact fuseFlushCommon_spec h owner err errlock mem
  | release owner fiFlush err errlock mem =>
      cases fiFlush with
      | false => exact ⟨0, locks, rfl, h, by rw [effect, if_pos (.inl rfl)]⟩
      | true =>
          obtain ⟨reply, locks', hflush, hok, hmap⟩ :=
            fuseFlushCommon_spec h owner err errlock mem
          refine ⟨if reply = -eNoSys then 0 else reply, locks', ?_, hok, ?_⟩
          · rw [serve, if_pos rfl, hflush]
            rfl
          · rw [hmap, effect]
            simp

end Requests

-- ============================================================================
-- Runs
-- ============================================================================

/-- A run of the requests on a file that had no locks. -/
abbrev LocksRun (tr : List (List Lock × LockCall)) (locks : List Lock) : Prop :=
  Run LockStep [] tr locks

section Runs

variable {tr tr' : List (List Lock × LockCall)} {locks locks' : List Lock}

theorem LockStep.spec (h : LocksOk locks) {call : LockCall} (hs : LockStep locks call locks') :
    LocksOk locks' ∧ lockAt locks' = call.effect (lockAt locks) := by
  obtain ⟨reply, hserve⟩ := hs
  obtain ⟨reply₁, locks₁, hserve₁, hok, hmap⟩ := call.serve_spec h
  rw [hserve, Option.some.injEq, Prod.mk.injEq] at hserve₁
  rw [hserve₁.2]
  exact ⟨hok, hmap⟩

theorem LocksRun.ok (hrun : LocksRun tr locks) : LocksOk locks :=
  hrun.always .nil fun _ _ _ h hs => (hs.spec h).1

/-- In every run of the requests on a file each request is served, without a
    write through a NULL pointer, and the list of the locks stands for the map
    that the requests make of the empty one. -/
theorem locks_refine (hrun : LocksRun tr locks) :
    lockAt locks = (tr.map Prod.snd).foldl LockCall.effect (fun _ _ => none) ∧
      ∀ call, ∃ reply locks', LockCall.serve locks call = some (reply, locks') := by
  constructor
  · induction hrun with
    | nil => rfl
    | snoc hr hs ih =>
        rw [List.map_append, List.foldl_append, ← ih]
        exact (hs.spec (LocksRun.ok hr)).2
  · intro call
    obtain ⟨reply, locks', hserve, -, -⟩ := call.serve_spec hrun.ok
    exact ⟨reply, locks', hserve⟩

/-- Bytes 0 to 9 are locked, and bytes 3 to 5 are given up. -/
theorem split_run :
    LocksRun
      ([] ++ [([], .setlk 1 ⟨0, 9, .wrlck, 7, by omega, by omega⟩ 0 true)] ++
        [([⟨.wrlck, 0, 9, 7, 1⟩], .setlk 1 ⟨3, 5, .unlck, 7, by omega, by omega⟩ 0 true)])
      [⟨.wrlck, 0, 2, 7, 1⟩, ⟨.wrlck, 6, 9, 7, 1⟩] := by
  refine Run.snoc (Run.snoc .nil ⟨0, ?_⟩) ⟨0, ?_⟩
  all_goals
    simp [LockCall.serve, fuseLibSetlk, leavesFlock, flockToLock_convert, locksInsert, insertLoop, insertHere]

/-- The rest of them is locked from the end on. -/
theorem parts_run :
    LocksRun
      ([] ++ [([], .setlk 1 ⟨6, 9, .wrlck, 8, by omega, by omega⟩ 0 true)] ++
        [([⟨.wrlck, 6, 9, 8, 1⟩], .setlk 1 ⟨0, 2, .wrlck, 8, by omega, by omega⟩ 0 true)])
      [⟨.wrlck, 0, 2, 8, 1⟩, ⟨.wrlck, 6, 9, 8, 1⟩] := by
  refine Run.snoc (Run.snoc .nil ⟨0, ?_⟩) ⟨0, ?_⟩
  all_goals
    simp [LockCall.serve, fuseLibSetlk, leavesFlock, flockToLock_convert, locksInsert, insertLoop, insertHere]

theorem locks_refine_split :
    lockAt [⟨.wrlck, 0, 2, 7, 1⟩, ⟨.wrlck, 6, 9, 7, 1⟩] =
      LockCall.effect
        (LockCall.effect (fun _ _ => none) (.setlk 1 ⟨0, 9, .wrlck, 7, by omega, by omega⟩ 0 true))
        (.setlk 1 ⟨3, 5, .unlck, 7, by omega, by omega⟩ 0 true) :=
  (locks_refine split_run).1

/-- The locks of an owner are stored in one way only: whatever requests led to
    the same bytes being held, the ranges in the list are the same.  They are in
    order and apart, and those of one type do not touch. -/
theorem locks_canonical (hrun : LocksRun tr locks) (hrun' : LocksRun tr' locks') {owner : UInt64}
    (hsame : lockAt locks owner = lockAt locks' owner) :
    Normal (piecesOf owner locks) ∧ piecesOf owner locks = piecesOf owner locks' :=
  ⟨hrun.ok.normal owner, (hrun.ok.normal owner).ext (hrun'.ok.normal owner) fun p => congrFun hsame p⟩

theorem locks_canonical_parts :
    Normal (piecesOf 1 [⟨.wrlck, 0, 2, 7, 1⟩, ⟨.wrlck, 6, 9, 7, 1⟩]) ∧
      piecesOf 1 [⟨.wrlck, 0, 2, 7, 1⟩, ⟨.wrlck, 6, 9, 7, 1⟩] =
        piecesOf 1 [⟨.wrlck, 0, 2, 8, 1⟩, ⟨.wrlck, 6, 9, 8, 1⟩] :=
  locks_canonical split_run parts_run rfl

/-- Another owner's lock is in the way of `lock` on the byte `p`. -/
def InTheWay (locks : List Lock) (lock : Lock) (p : Int) : Prop :=
  lock.start ≤ p ∧ p ≤ lock.end_ ∧ ∃ owner, owner ≠ lock.owner ∧
    ∃ t, lockAt locks owner p = some t ∧ (t = .wrlck ∨ lock.type = .wrlck)

/-- `locks_conflict` finds a lock that is in the way, if there is one. -/
theorem locksConflict_some (h : LocksOk locks) {lock l : Lock} (hle : lock.start ≤ lock.end_)
    (hfound : locksConflict locks lock = some l) :
    l ∈ locks ∧ l.owner ≠ lock.owner ∧ lock.start ≤ l.end_ ∧ l.start ≤ lock.end_ ∧
      (l.type = .wrlck ∨ lock.type = .wrlck) ∧ InTheWay locks lock (max lock.start l.start) := by
  have hl := List.mem_of_find?_eq_some hfound
  have htest := List.find?_some hfound
  simp only [Bool.and_eq_true, decide_eq_true_eq] at htest
  obtain ⟨howner, ⟨hend, hstart⟩, htype⟩ := htest
  have hlp := h.start_le hl
  refine ⟨hl, howner, hend, hstart, htype, le_max_left _ _, max_le hle hstart, l.owner, howner,
    l.type, h.lockAt_of_mem hl (le_max_right _ _) (max_le hend hlp), htype⟩

theorem locksConflict_none {lock : Lock} (hnone : locksConflict locks lock = none) (p : Int) :
    ¬ InTheWay locks lock p := by
  rintro ⟨hlo, hhi, owner, howner, t, ht, htype⟩
  obtain ⟨l, hl, rfl, hstart, hend, rfl⟩ := LocksOk.exists_of_lockAt ht
  have htest := List.find?_eq_none.mp hnone l hl
  simp only [Bool.and_eq_true, decide_eq_true_eq] at htest
  exact htest ⟨howner, ⟨hlo.trans hend, hstart.trans hhi⟩, htype⟩

/-- The answer to GETLK in every state that a run reaches.  If a lock is in the
    way, the kernel is told of one: it is given the whole range that its owner
    holds in this way.  If there is none, the file system is asked. -/
theorem getlk_answer (hrun : LocksRun tr locks) (owner : UInt64) (fl : FuseFileLock)
    (common : Flock → Int × Flock) :
    ((∃ p, InTheWay locks (flockToLock (convertFuseFileLock fl) owner) p) →
      ∃ out owner', fuseLibGetlk locks owner (convertFuseFileLock fl) common = .ok out ∧
        owner' ≠ owner ∧ (out.type = .wrlck ∨ fl.type = .wrlck) ∧
        fl.start ≤ out.end_ ∧ out.start ≤ fl.end_ ∧
        (∀ p, out.start ≤ p → p ≤ out.end_ → lockAt locks owner' p = some out.type) ∧
        lockAt locks owner' (out.start - 1) ≠ some out.type ∧
        lockAt locks owner' (out.end_ + 1) ≠ some out.type) ∧
    ((∀ p, ¬ InTheWay locks (flockToLock (convertFuseFileLock fl) owner) p) →
      fuseLibGetlk locks owner (convertFuseFileLock fl) common =
        if (common (convertFuseFileLock fl)).1 = 0 then
          .ok (fuseReplyLock (common (convertFuseFileLock fl)).2)
        else .error (common (convertFuseFileLock fl)).1) := by
  have hok := hrun.ok
  have hle := (inFile_convert fl owner).proper
  constructor
  · rintro ⟨p, hp⟩
    cases hc : locksConflict locks (flockToLock (convertFuseFileLock fl) owner) with
    | none => exact absurd hp (locksConflict_none hc p)
    | some l =>
        obtain ⟨hl, howner, hend, hstart, htype, -⟩ := locksConflict_some hok hle hc
        have hheld := hok.held l.owner l.start l.type
          (hok.lockAt_of_mem hl le_rfl (hok.start_le hl))
        rw [flockToLock_convert] at howner hend hstart htype
        refine ⟨⟨l.start, l.end_, l.type, l.pid⟩, l.owner, ?_, howner, htype, hend, hstart, ?_, ?_, ?_⟩
        · rw [fuseLibGetlk, hc]
          show Except.ok (fuseReplyLock (lockToFlock l)) = _
          rw [fuseReplyLock_lockToFlock hheld.1 (hok.start_le hl)]
        · exact fun p hlo hhi => hok.lockAt_of_mem hl hlo hhi
        · exact (hok.normal l.owner).valueAt_lo_ne (LocksOk.piece_mem hl)
        · exact (hok.normal l.owner).valueAt_hi_ne (LocksOk.piece_mem hl)
  · intro hnone
    cases hc : locksConflict locks (flockToLock (convertFuseFileLock fl) owner) with
    | none =>
        rw [fuseLibGetlk, hc]
    | some l =>
        obtain ⟨-, -, -, -, -, hway⟩ := locksConflict_some hok hle hc
        exact absurd hway (hnone _)

/-- One owner has the bytes 0 to 2 and 6 to 9; another asks for the bytes 1 to 7,
    and for those in between. -/
theorem getlk_answer_split :
    (∃ out, ∃ owner' : UInt64, fuseLibGetlk [⟨.wrlck, 0, 2, 7, 1⟩, ⟨.wrlck, 6, 9, 7, 1⟩] 2
          (convertFuseFileLock ⟨1, 7, .rdlck, 3, by omega, by omega⟩) (fun lock => (0, lock)) = .ok out ∧
        owner' ≠ 2 ∧ out = ⟨0, 2, .wrlck, 7⟩) ∧
      fuseLibGetlk [⟨.wrlck, 0, 2, 7, 1⟩, ⟨.wrlck, 6, 9, 7, 1⟩] 2
          (convertFuseFileLock ⟨3, 5, .wrlck, 3, by omega, by omega⟩) (fun lock => (0, lock)) =
        .ok ⟨3, 5, .wrlck, 3⟩ := by
  constructor
  · obtain ⟨out, owner', hout, howner, -⟩ :=
      (getlk_answer split_run 2 ⟨1, 7, .rdlck, 3, by omega, by omega⟩ fun lock => (0, lock)).1
        ⟨1, by decide, by decide, 1, by decide, .wrlck, rfl, .inl rfl⟩
    refine ⟨out, owner', hout, howner, ?_⟩
    have hreply : fuseLibGetlk [⟨.wrlck, 0, 2, 7, 1⟩, ⟨.wrlck, 6, 9, 7, 1⟩] 2
        (convertFuseFileLock ⟨1, 7, .rdlck, 3, by omega, by omega⟩) (fun lock => (0, lock)) =
        .ok ⟨0, 2, .wrlck, 7⟩ := rfl
    exact Except.ok.inj (hout.symm.trans hreply)
  · refine ((getlk_answer split_run 2 ⟨3, 5, .wrlck, 3, by omega, by omega⟩
      fun lock => (0, lock)).2 fun p => ?_).trans rfl
    apply locksConflict_none
    rw [flockToLock_convert]
    rfl

/-- No byte that one owner may write is held by another. -/
def Exclusive (m : UInt64 → Int → Option LockType) : Prop :=
  ∀ owner owner' p t t', owner ≠ owner' → m owner p = some t → m owner' p = some t' →
    t = .rdlck ∧ t' = .rdlck

/-- The request locks a range only where `locks_conflict` finds nothing. -/
def Granted (locks : List Lock) : LockCall → Prop
  | .setlk owner lk err mem => err = 0 → mem = true → lk.type ≠ .unlck →
      locksConflict locks (flockToLock (convertFuseFileLock lk) owner) = none
  | _ => True

/-- Changing the map of one owner, where what is new goes with the others' locks. -/
theorem Exclusive.update {m : UInt64 → Int → Option LockType} (h : Exclusive m) {owner : UInt64}
    {f : Int → Option LockType}
    (hf : ∀ p t, f p = some t → m owner p = some t ∨ ∀ owner' t', owner' ≠ owner →
      m owner' p = some t' → t = .rdlck ∧ t' = .rdlck) :
    Exclusive (Function.update m owner f) := by
  intro o o' p t t' hne ht ht'
  by_cases ho : o = owner
  · rw [ho, Function.update_self] at ht
    rw [Function.update_of_ne (ho ▸ hne.symm)] at ht'
    rcases hf p t ht with hold | hnew
    · exact h owner o' p t t' (ho ▸ hne) hold ht'
    · exact hnew o' t' (ho ▸ hne.symm) ht'
  · rw [Function.update_of_ne ho] at ht
    by_cases ho' : o' = owner
    · rw [ho', Function.update_self] at ht'
      rcases hf p t' ht' with hold | hnew
      · exact h o owner p t t' ho ht hold
      · exact (hnew o t ho ht).symm
    · rw [Function.update_of_ne ho'] at ht'
      exact h o o' p t t' hne ht ht'

/-- A request that is granted as it should be keeps the owners apart. -/
theorem Exclusive.effect (hok : LocksOk locks) (h : Exclusive (lockAt locks)) {call : LockCall}
    (hgranted : Granted locks call) : Exclusive (call.effect (lockAt locks)) := by
  have hnothing : ∀ owner, Exclusive (Function.update (lockAt locks) owner fun _ => none) :=
    fun owner => h.update fun p t ht => by cases ht
  cases call with
  | setlk owner lk err mem =>
      rw [LockCall.effect]
      split
      next heff =>
        apply h.update
        intro p t ht
        split at ht
        next hp =>
          split at ht
          next => cases ht
          next htype =>
            cases ht
            have hmem : mem = true := heff.2.resolve_right fun hun => htype hun.1
            refine .inr fun owner' t' hne ht' => ?_
            have hway := locksConflict_none (hgranted heff.1 hmem htype) p
            rw [flockToLock_convert] at hway
            have hheld := hok.held owner' p t' ht'
            have hfree : ¬ (t' = .wrlck ∨ lk.type = .wrlck) := fun hw =>
              hway ⟨hp.1, hp.2, owner', hne, t', ht', hw⟩
            cases hl : lk.type <;> cases hr : t' <;> simp_all
        next => exact .inl ht
      next => exact h
  | flush owner err errlock mem =>
      rw [LockCall.effect]
      split
      next => exact h
      next => exact hnothing owner
  | release owner fiFlush err errlock mem =>
      rw [LockCall.effect]
      split
      next => exact h
      next => exact hnothing owner

/-- A lock that is granted where another is in the way breaks the exclusion. -/
theorem not_exclusive_of_conflict (hok : LocksOk locks) {call : LockCall}
    (hbad : ¬ Granted locks call) : ¬ Exclusive (call.effect (lockAt locks)) := by
  cases call with
  | flush => exact absurd trivial hbad
  | release => exact absurd trivial hbad
  | setlk owner lk err mem =>
      simp only [Granted, Classical.not_imp] at hbad
      obtain ⟨herr, hmem, htype, hsome⟩ := hbad
      obtain ⟨l, hl⟩ := Option.ne_none_iff_exists'.mp hsome
      obtain ⟨hmem', howner, -, -, hwr, hlo, hhi, -⟩ :=
        locksConflict_some hok (inFile_convert lk owner).proper hl
      obtain ⟨-, -, hend, -⟩ := locksConflict_some hok (inFile_convert lk owner).proper hl
      rw [flockToLock_convert] at howner hwr hlo hhi hend
      intro hex
      have hnew : LockCall.effect (lockAt locks) (.setlk owner lk err mem) owner
          (max lk.start l.start) = some lk.type := by
        rw [LockCall.effect, if_pos ⟨herr, .inl hmem⟩, Function.update_self, if_pos ⟨hlo, hhi⟩,
          if_neg htype]
      have hold : LockCall.effect (lockAt locks) (.setlk owner lk err mem) l.owner
          (max lk.start l.start) = some l.type := by
        rw [LockCall.effect, if_pos ⟨herr, .inl hmem⟩, Function.update_of_ne howner]
        exact hok.lockAt_of_mem hmem' (le_max_right _ _) (max_le hend (hok.start_le hmem'))
      obtain ⟨hl₁, hl₂⟩ := hex l.owner owner _ _ _ howner hold hnew
      rw [hl₁, hl₂] at hwr
      simp at hwr

/-- The owners' locks exclude each other in every state of a run exactly if each
    lock that the file system grants, and that there is memory for, is one that
    `locks_conflict` has nothing against. -/
theorem exclusive_iff (hrun : LocksRun tr locks) :
    ((∀ x ∈ tr, Exclusive (lockAt x.1)) ∧ Exclusive (lockAt locks)) ↔
      ∀ x ∈ tr, Granted x.1 x.2 := by
  apply Run.good_iff (I := fun locks => LocksOk locks ∧ Exclusive (lockAt locks))
    (G := fun locks => Exclusive (lockAt locks)) _ _ _ _ hrun
  · exact ⟨.nil, fun _ _ _ _ _ _ h => by cases h⟩
  · exact fun _ h => h.2
  · rintro s call s' ⟨hok, hex⟩ hgranted hs
    obtain ⟨hok', hmap⟩ := hs.spec hok
    rw [hmap]
    exact ⟨hok', hex.effect hok hgranted⟩
  · rintro s call s' ⟨hok, -⟩ hbad hs
    rw [(hs.spec hok).2]
    exact not_exclusive_of_conflict hok hbad

theorem exclusive_iff_split :
    ((∀ x ∈ [([], LockCall.setlk 1 ⟨0, 9, .wrlck, 7, by omega, by omega⟩ 0 true),
        ([⟨.wrlck, 0, 9, 7, 1⟩], .setlk 1 ⟨3, 5, .unlck, 7, by omega, by omega⟩ 0 true)],
        Exclusive (lockAt x.1)) ∧
      Exclusive (lockAt [⟨.wrlck, 0, 2, 7, 1⟩, ⟨.wrlck, 6, 9, 7, 1⟩])) := by
  apply (exclusive_iff split_run).mpr
  intro x hx
  simp only [List.nil_append, List.singleton_append, List.mem_cons, List.not_mem_nil, or_false] at hx
  rcases hx with rfl | rfl
  · exact fun _ _ _ => rfl
  · exact fun _ _ h => absurd rfl h

end Runs

end FuseNt
