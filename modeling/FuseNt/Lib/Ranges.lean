/-
  FuseNt.Lib.Ranges

  Maps on the integers that are constant on ranges, kept as a list of pieces.

  `Normal` lists are in order and as short as they can be: no piece is empty,
  no two overlap, and two of one value do not even touch.  `Normal.ext` says
  that a map has one such list only.  `Painted x keep l l'` is the contract of
  a program that gives the range of `x` a new value: one rule for each thing
  that can be done with the first piece of the list.
-/

import Mathlib.Tactic

namespace FuseNt.Lib

/-- The integers from `lo` to `hi` have the value `val`. -/
@[ext] structure Piece (α : Type _) where
  lo : Int
  hi : Int
  val : α

namespace Piece

variable {α : Type _} {r s x : Piece α}

/-- The piece has the point `p`. -/
def Has (r : Piece α) (p : Int) : Prop := r.lo ≤ p ∧ p ≤ r.hi

instance (r : Piece α) (p : Int) : Decidable (r.Has p) := by
  unfold Has
  infer_instance

/-- The piece `r` ends before `s` begins, and is not to be merged with it. -/
def Before (r s : Piece α) : Prop := r.hi < s.lo ∧ (r.val = s.val → r.hi + 1 < s.lo)

theorem Before.trans (hrx : r.Before x) (hx : x.lo ≤ x.hi) (hxs : x.Before s) : r.Before s := by
  have h₁ := hrx.1
  have h₂ := hxs.1
  exact ⟨by omega, fun _ => by omega⟩

/-- What begins later with the same value is after `r`, too. -/
theorem Before.mono (hrx : r.Before x) (hlo : x.lo ≤ s.lo) (hval : x.val = s.val) :
    r.Before s := by
  refine ⟨by have := hrx.1; omega, fun h => ?_⟩
  have := hrx.2 (h.trans hval.symm)
  omega

/-- A piece that ends earlier with the same value is before `s`, too. -/
theorem Before.of_hi_le (hxs : x.Before s) (hhi : r.hi ≤ x.hi) (hval : r.val = x.val) :
    r.Before s := by
  refine ⟨by have := hxs.1; omega, fun h => ?_⟩
  have := hxs.2 (hval.symm.trans h)
  omega

end Piece

-- ============================================================================
-- Lists of pieces
-- ============================================================================

section Lists

variable {α : Type _} {r : Piece α} {l l' : List (Piece α)} {p : Int}

/-- The value that the first piece with the point has. -/
def valueAt : List (Piece α) → Int → Option α
  | [], _ => none
  | r :: rest, p => if r.Has p then some r.val else valueAt rest p

@[simp] theorem valueAt_nil : valueAt ([] : List (Piece α)) p = none := rfl

theorem valueAt_cons_of_has (h : r.Has p) : valueAt (r :: l) p = some r.val := if_pos h

theorem valueAt_cons_of_not (h : ¬ r.Has p) : valueAt (r :: l) p = valueAt l p := if_neg h

/-- A value comes from a piece of the list. -/
theorem exists_of_valueAt {v : α} (h : valueAt l p = some v) :
    ∃ r ∈ l, r.Has p ∧ r.val = v := by
  induction l with
  | nil => cases h
  | cons r t ih =>
      by_cases hp : r.Has p
      · rw [valueAt_cons_of_has hp] at h
        exact ⟨r, List.mem_cons_self, hp, Option.some.inj h⟩
      · rw [valueAt_cons_of_not hp] at h
        obtain ⟨s, hs, hsp⟩ := ih h
        exact ⟨s, List.mem_cons_of_mem _ hs, hsp⟩

theorem valueAt_eq_none (h : ∀ r ∈ l, ¬ r.Has p) : valueAt l p = none := by
  cases hv : valueAt l p with
  | none => rfl
  | some v =>
      obtain ⟨r, hr, hp, -⟩ := exists_of_valueAt hv
      exact absurd hp (h r hr)

/-- The pieces are in order, not empty, and none can be merged with another. -/
structure Normal (l : List (Piece α)) : Prop where
  proper : ∀ r ∈ l, r.lo ≤ r.hi
  ordered : l.Pairwise Piece.Before

namespace Normal

theorem nil : Normal ([] : List (Piece α)) := ⟨by simp, .nil⟩

theorem cons (hr : r.lo ≤ r.hi) (hl : Normal l) (hbefore : ∀ s ∈ l, r.Before s) :
    Normal (r :: l) where
  proper := by
    intro s hs
    rcases List.mem_cons.mp hs with rfl | hs
    · exact hr
    · exact hl.proper s hs
  ordered := List.pairwise_cons.mpr ⟨hbefore, hl.ordered⟩

theorem head (h : Normal (r :: l)) : r.lo ≤ r.hi := h.proper r List.mem_cons_self

theorem tail (h : Normal (r :: l)) : Normal l :=
  ⟨fun s hs => h.proper s (List.mem_cons_of_mem _ hs), h.ordered.tail⟩

theorem before (h : Normal (r :: l)) : ∀ s ∈ l, r.Before s := (List.pairwise_cons.mp h.ordered).1

/-- The first piece of a normal list may lose its front. -/
theorem shrink (h : Normal (r :: l)) {lo : Int} (hlo : lo ≤ r.hi) :
    Normal ({ r with lo := lo } :: l) :=
  cons hlo h.tail fun s hs => (h.before s hs).of_hi_le le_rfl rfl

/-- Where a piece of a normal list is, the list has its value. -/
theorem valueAt_of_mem (h : Normal l) (hr : r ∈ l) (hp : r.Has p) : valueAt l p = some r.val := by
  induction l with
  | nil => cases hr
  | cons s t ih =>
      rcases List.mem_cons.mp hr with rfl | hr
      · exact valueAt_cons_of_has hp
      · have hsr := (h.before r hr).1
        rw [valueAt_cons_of_not fun hs => by have := hs.2; have := hp.1; omega]
        exact ih h.tail hr

/-- Behind the first piece there is nothing up to its end. -/
theorem valueAt_tail (h : Normal (r :: l)) (hp : p ≤ r.hi) : valueAt l p = none := by
  apply valueAt_eq_none
  intro s hs hsp
  have := (h.before s hs).1
  have := hsp.1
  omega

/-- Behind the end of a piece its value does not go on. -/
theorem valueAt_hi_ne (h : Normal l) (hr : r ∈ l) : valueAt l (r.hi + 1) ≠ some r.val := by
  induction l with
  | nil => cases hr
  | cons s t ih =>
      intro hval
      rcases List.mem_cons.mp hr with rfl | hr
      · rw [valueAt_cons_of_not fun hs => by have := hs.2; omega] at hval
        obtain ⟨q, hq, hp, heq⟩ := exists_of_valueAt hval
        have := (h.before q hq).2 heq.symm
        have := hp.1
        omega
      · have hsr := (h.before r hr).1
        have hle := h.tail.proper r hr
        rw [valueAt_cons_of_not fun hs => by have := hs.2; omega] at hval
        exact ih h.tail hr hval

/-- Before the start of a piece there is another value, or none. -/
theorem valueAt_lo_ne (h : Normal l) (hr : r ∈ l) : valueAt l (r.lo - 1) ≠ some r.val := by
  induction l with
  | nil => cases hr
  | cons s t ih =>
      intro hval
      rcases List.mem_cons.mp hr with rfl | hr
      · rw [valueAt_cons_of_not fun hs => by have := hs.1; omega] at hval
        have hle := h.head
        rw [h.valueAt_tail (by omega)] at hval
        cases hval
      · by_cases hs : s.Has (r.lo - 1)
        · rw [valueAt_cons_of_has hs] at hval
          have := (h.before r hr).2 (Option.some.inj hval)
          have := hs.2
          omega
        · rw [valueAt_cons_of_not hs] at hval
          exact ih h.tail hr hval

/-- No piece begins before the first. -/
theorem lo_le_of_valueAt (h : Normal (r :: l)) {v : α} (hv : valueAt (r :: l) p = some v) :
    r.lo ≤ p := by
  obtain ⟨s, hs, hsp, -⟩ := exists_of_valueAt hv
  rcases List.mem_cons.mp hs with rfl | hs
  · exact hsp.1
  · have := (h.before s hs).1
    have := h.head
    have := hsp.1
    omega

/-- The end of the first piece is where its value ends. -/
theorem hi_le_of_valueAt (h : Normal (r :: l)) {hi : Int}
    (hv : ∀ p, r.lo ≤ p → p ≤ hi → valueAt (r :: l) p = some r.val) : hi ≤ r.hi := by
  by_contra hlt
  have hend := hv (r.hi + 1) (by have := h.head; omega) (by omega)
  rw [valueAt_cons_of_not fun hp => by have := hp.2; omega] at hend
  obtain ⟨s, hs, hsp, hval⟩ := exists_of_valueAt hend
  have := (h.before s hs).2 hval.symm
  have := hsp.1
  omega

/-- The first pieces of two normal lists of one map are the same. -/
theorem head_eq {r' : Piece α} (h : Normal (r :: l)) (h' : Normal (r' :: l'))
    (heq : ∀ p, valueAt (r :: l) p = valueAt (r' :: l') p) : r = r' := by
  have hself : ∀ {q : Piece α} {t : List (Piece α)} {p : Int}, q.lo ≤ p → p ≤ q.hi →
      valueAt (q :: t) p = some q.val := fun h₁ h₂ => valueAt_cons_of_has ⟨h₁, h₂⟩
  have hlo : r.lo = r'.lo := by
    apply le_antisymm
    · apply h.lo_le_of_valueAt
      rw [heq, hself le_rfl h'.head]
    · apply h'.lo_le_of_valueAt
      rw [← heq, hself le_rfl h.head]
  have hval : r.val = r'.val := by
    have h₁ := hself (t := l) le_rfl h.head
    rw [heq, hlo, hself le_rfl h'.head] at h₁
    exact (Option.some.inj h₁).symm
  have hhi : r.hi = r'.hi := by
    apply le_antisymm
    · apply h'.hi_le_of_valueAt
      intro p h₁ h₂
      rw [← heq, ← hval]
      exact hself (by omega) h₂
    · apply h.hi_le_of_valueAt
      intro p h₁ h₂
      rw [heq, hval]
      exact hself (by omega) h₂
  exact Piece.ext hlo hhi hval

/-- A map has one normal list only. -/
theorem ext (h : Normal l) (h' : Normal l') (heq : ∀ p, valueAt l p = valueAt l' p) : l = l' := by
  induction l generalizing l' with
  | nil =>
      cases l' with
      | nil => rfl
      | cons r' t' =>
          have := heq r'.lo
          rw [valueAt_cons_of_has ⟨le_rfl, h'.head⟩] at this
          cases this
  | cons r t ih =>
      cases l' with
      | nil =>
          have := heq r.lo
          rw [valueAt_cons_of_has ⟨le_rfl, h.head⟩] at this
          cases this
      | cons r' t' =>
          have hhead := head_eq h h' heq
          subst hhead
          rw [ih h.tail h'.tail fun p => ?_]
          by_cases hp : r.Has p
          · rw [h.valueAt_tail hp.2, h'.valueAt_tail hp.2]
          · have := heq p
            rwa [valueAt_cons_of_not hp, valueAt_cons_of_not hp] at this

end Normal

end Lists

-- ============================================================================
-- Painting a range
-- ============================================================================

/-- The map with the value `v` from `lo` to `hi`. -/
def assign {α : Type _} (m : Int → Option α) (lo hi : Int) (v : Option α) : Int → Option α :=
  fun p => if lo ≤ p ∧ p ≤ hi then v else m p

/-- `l'` is `l` with `x` painted over it, or wiped out if `x` is not kept.
    `origin` bounds where the pieces of `l'` begin: it puts `l'` behind a piece
    that is before `x` and `l`. -/
structure Painted {α : Type _} (x : Piece α) (keep : Bool) (l l' : List (Piece α)) : Prop where
  normal : Normal l'
  value : valueAt l' = assign (valueAt l) x.lo x.hi (if keep then some x.val else none)
  origin : ∀ s ∈ l', ∃ r ∈ x :: l, r.lo ≤ s.lo ∧ r.val = s.val

namespace Painted

variable {α : Type _} {x r : Piece α} {keep : Bool} {l l' : List (Piece α)}

theorem value_of_has (h : Painted x keep l l') {p : Int} (hp : x.Has p) :
    valueAt l' p = if keep then some x.val else none := by
  rw [h.value]
  exact if_pos hp

theorem value_of_not (h : Painted x keep l l') {p : Int} (hp : ¬ x.Has p) :
    valueAt l' p = valueAt l p := by
  rw [h.value]
  exact if_neg hp

/-- The rules below show the two cases of `value` with this. -/
theorem of_value (hnormal : Normal l')
    (hin : ∀ p, x.Has p → valueAt l' p = if keep then some x.val else none)
    (hout : ∀ p, ¬ x.Has p → valueAt l' p = valueAt l p)
    (horigin : ∀ s ∈ l', ∃ r ∈ x :: l, r.lo ≤ s.lo ∧ r.val = s.val) : Painted x keep l l' where
  normal := hnormal
  value := by
    funext p
    by_cases hp : x.Has p
    · rw [hin p hp]
      exact (if_pos hp).symm
    · rw [hout p hp]
      exact (if_neg hp).symm
  origin := horigin

/-- What is before `x` and `l` is before the painted list. -/
theorem before (h : Painted x keep l l') (hx : r.Before x) (hl : ∀ s ∈ l, r.Before s) :
    ∀ s ∈ l', r.Before s := by
  intro s hs
  obtain ⟨q, hq, hlo, hval⟩ := h.origin s hs
  rcases List.mem_cons.mp hq with rfl | hq
  · exact hx.mono hlo hval
  · exact (hl q hq).mono hlo hval

/-- The origin of the pieces behind a piece that begins with `r`. -/
theorem origin_cons (h : Painted x keep l l') {q : Piece α} (hlo : r.lo = q.lo)
    (hval : r.val = q.val) : ∀ s ∈ q :: l', ∃ t ∈ x :: r :: l, t.lo ≤ s.lo ∧ t.val = s.val := by
  intro s hs
  rcases List.mem_cons.mp hs with rfl | hs
  · exact ⟨r, by simp, hlo.le, hval⟩
  · obtain ⟨t, ht, hts⟩ := h.origin s hs
    refine ⟨t, ?_, hts⟩
    rcases List.mem_cons.mp ht with rfl | ht
    · exact List.mem_cons_self
    · simp [ht]

/-- Pass over a piece before `x`. -/
theorem skip (h : Painted x keep l l') (hn : Normal (r :: l)) (hrx : r.Before x) :
    Painted x keep (r :: l) (r :: l') := by
  apply of_value
  · exact .cons hn.head h.normal (h.before hrx hn.before)
  · intro p hp
    rw [valueAt_cons_of_not fun hr => by have := hrx.1; have := hr.2; have := hp.1; omega]
    exact h.value_of_has hp
  · intro p hp
    by_cases hr : r.Has p
    · rw [valueAt_cons_of_has hr, valueAt_cons_of_has hr]
    · rw [valueAt_cons_of_not hr, valueAt_cons_of_not hr, h.value_of_not hp]
  · exact h.origin_cons rfl rfl

/-- Delete a piece under `x`. -/
theorem covered (h : Painted x keep l l') (hlo : x.lo ≤ r.lo) (hhi : r.hi ≤ x.hi) :
    Painted x keep (r :: l) l' := by
  apply of_value h.normal
  · intro p hp
    exact h.value_of_has hp
  · intro p hp
    rw [h.value_of_not hp,
      valueAt_cons_of_not fun hr => hp ⟨hlo.trans hr.1, hr.2.trans hhi⟩]
  · intro s hs
    obtain ⟨t, ht, hts⟩ := h.origin s hs
    refine ⟨t, ?_, hts⟩
    rcases List.mem_cons.mp ht with rfl | ht
    · exact List.mem_cons_self
    · simp [ht]

/-- Delete a piece of the same value that touches `x`, and paint both. -/
theorem merge {lo hi : Int} (h : Painted { x with lo := lo, hi := hi } true l l')
    (hval : r.val = x.val) (htouch : r.lo ≤ x.hi + 1 ∧ x.lo ≤ r.hi + 1)
    (hlo : lo = min x.lo r.lo) (hhi : hi = max x.hi r.hi) :
    Painted x true (r :: l) l' := by
  have hboth : ∀ p, ({ x with lo := lo, hi := hi } : Piece α).Has p ↔ x.Has p ∨ r.Has p := by
    intro p
    simp only [Piece.Has]
    omega
  apply of_value h.normal
  · intro p hp
    exact h.value_of_has ((hboth p).mpr (.inl hp))
  · intro p hp
    by_cases hr : r.Has p
    · rw [valueAt_cons_of_has hr, hval]
      exact h.value_of_has ((hboth p).mpr (.inr hr))
    · rw [valueAt_cons_of_not hr]
      apply h.value_of_not
      rw [hboth p]
      exact not_or.mpr ⟨hp, hr⟩
  · intro s hs
    obtain ⟨t, ht, hts, htv⟩ := h.origin s hs
    rcases List.mem_cons.mp ht with rfl | ht
    · rcases le_total x.lo r.lo with hle | hle
      · exact ⟨x, List.mem_cons_self, by rw [hlo, min_eq_left hle] at hts; exact hts, htv⟩
      · refine ⟨r, by simp, ?_, hval.trans htv⟩
        rw [hlo, min_eq_right hle] at hts
        exact hts
    · exact ⟨t, by simp [ht], hts, htv⟩

/-- The piece `x` is there already. -/
theorem inside (hn : Normal (r :: l)) (hval : r.val = x.val) (hlo : r.lo ≤ x.lo)
    (hhi : x.hi ≤ r.hi) : Painted x true (r :: l) (r :: l) := by
  apply of_value hn
  · intro p hp
    rw [valueAt_cons_of_has ⟨hlo.trans hp.1, hp.2.trans hhi⟩, hval]
    rfl
  · exact fun _ _ => rfl
  · exact fun s hs => ⟨s, List.mem_cons_of_mem _ hs, le_rfl, rfl⟩

/-- Cut off the front of a piece, which is under `x`. -/
theorem shrink (h : Painted x keep ({ r with lo := x.hi + 1 } :: l) l') (hlo : x.lo ≤ r.lo)
    (hle : r.lo ≤ x.hi) : Painted x keep (r :: l) l' := by
  apply of_value h.normal
  · intro p hp
    exact h.value_of_has hp
  · intro p hp
    rw [h.value_of_not hp]
    have hrest : ({ r with lo := x.hi + 1 } : Piece α).Has p ↔ r.Has p := by
      simp only [Piece.Has] at *
      omega
    by_cases hr : r.Has p
    · rw [valueAt_cons_of_has hr, valueAt_cons_of_has (hrest.mpr hr)]
    · rw [valueAt_cons_of_not hr, valueAt_cons_of_not (mt hrest.mp hr)]
  · intro s hs
    obtain ⟨t, ht, hts, htv⟩ := h.origin s hs
    rcases List.mem_cons.mp ht with rfl | ht
    · exact ⟨t, List.mem_cons_self, hts, htv⟩
    · rcases List.mem_cons.mp ht with rfl | ht
      · exact ⟨r, by simp, by simp only at hts; omega, htv⟩
      · exact ⟨t, by simp [ht], hts, htv⟩

/-- Cut off the end of a piece, which is under `x`, and go on behind it. -/
theorem trim (h : Painted x keep l l') (hn : Normal (r :: l)) (hval : r.val ≠ x.val)
    (hlo : r.lo < x.lo) (hle : x.lo ≤ r.hi) (hhi : r.hi ≤ x.hi) :
    Painted x keep (r :: l) ({ r with hi := x.lo - 1 } :: l') := by
  have hrx : ({ r with hi := x.lo - 1 } : Piece α).Before x :=
    ⟨by show x.lo - 1 < x.lo; omega, fun h => absurd h hval⟩
  have hhas : ∀ p, ¬ x.Has p → (({ r with hi := x.lo - 1 } : Piece α).Has p ↔ r.Has p) := by
    intro p hp
    simp only [Piece.Has] at *
    omega
  apply of_value
  · refine .cons (by show r.lo ≤ x.lo - 1; omega) h.normal (h.before hrx fun s hs => ?_)
    exact (hn.before s hs).of_hi_le (by show x.lo - 1 ≤ r.hi; omega) rfl
  · intro p hp
    rw [valueAt_cons_of_not fun hr => by have := hrx.1; have := hr.2; have := hp.1; omega]
    exact h.value_of_has hp
  · intro p hp
    by_cases hr : r.Has p
    · rw [valueAt_cons_of_has ((hhas p hp).mpr hr), valueAt_cons_of_has hr]
    · rw [valueAt_cons_of_not (mt (hhas p hp).mp hr), valueAt_cons_of_not hr, h.value_of_not hp]
  · exact h.origin_cons rfl rfl

/-- Cut a piece in two around `x`, and go on with its second half. -/
theorem split (h : Painted x keep ({ r with lo := x.hi + 1 } :: l) l') (hn : Normal (r :: l))
    (hval : r.val ≠ x.val) (hlo : r.lo < x.lo) (hx : x.lo ≤ x.hi) (hhi : x.hi < r.hi) :
    Painted x keep (r :: l) ({ r with hi := x.lo - 1 } :: l') := by
  have hrx : ({ r with hi := x.lo - 1 } : Piece α).Before x :=
    ⟨by show x.lo - 1 < x.lo; omega, fun h => absurd h hval⟩
  have hrest : ∀ s ∈ ({ r with lo := x.hi + 1 } : Piece α) :: l,
      ({ r with hi := x.lo - 1 } : Piece α).Before s := by
    intro s hs
    rcases List.mem_cons.mp hs with rfl | hs
    · exact ⟨by show x.lo - 1 < x.hi + 1; omega, fun _ => by show x.lo - 1 + 1 < x.hi + 1; omega⟩
    · exact (hn.before s hs).of_hi_le (by show x.lo - 1 ≤ r.hi; omega) rfl
  apply of_value
  · exact .cons (by show r.lo ≤ x.lo - 1; omega) h.normal (h.before hrx hrest)
  · intro p hp
    rw [valueAt_cons_of_not fun hr => by have := hrx.1; have := hr.2; have := hp.1; omega]
    exact h.value_of_has hp
  · intro p hp
    by_cases hleft : ({ r with hi := x.lo - 1 } : Piece α).Has p
    · have hr : r.Has p := ⟨hleft.1, by have := hleft.2; simp only at this; omega⟩
      rw [valueAt_cons_of_has hleft, valueAt_cons_of_has hr]
    · rw [valueAt_cons_of_not hleft, h.value_of_not hp]
      have hright : ({ r with lo := x.hi + 1 } : Piece α).Has p ↔ r.Has p := by
        simp only [Piece.Has] at *
        omega
      by_cases hr : r.Has p
      · rw [valueAt_cons_of_has (hright.mpr hr), valueAt_cons_of_has hr]
      · rw [valueAt_cons_of_not (mt hright.mp hr), valueAt_cons_of_not hr]
  · intro s hs
    rcases List.mem_cons.mp hs with rfl | hs
    · exact ⟨r, by simp, le_rfl, rfl⟩
    · obtain ⟨t, ht, hts, htv⟩ := h.origin s hs
      rcases List.mem_cons.mp ht with rfl | ht
      · exact ⟨t, List.mem_cons_self, hts, htv⟩
      · rcases List.mem_cons.mp ht with rfl | ht
        · exact ⟨r, by simp, by simp only at hts; omega, htv⟩
        · exact ⟨t, by simp [ht], hts, htv⟩

/-- Put `x` in front of what is behind it. -/
theorem finish (hn : Normal l) (hx : x.lo ≤ x.hi) (hl : ∀ s ∈ l, x.Before s) :
    Painted x keep l (if keep then x :: l else l) := by
  have hnot : ∀ p, x.Has p → valueAt l p = none := by
    intro p hp
    apply valueAt_eq_none
    intro s hs hsp
    have := (hl s hs).1
    have := hsp.1
    have := hp.2
    omega
  cases keep with
  | true =>
      apply of_value (.cons hx hn hl)
      · intro p hp
        exact valueAt_cons_of_has hp
      · intro p hp
        exact valueAt_cons_of_not hp
      · exact fun s hs => ⟨s, hs, le_rfl, rfl⟩
  | false =>
      apply of_value hn
      · intro p hp
        exact hnot p hp
      · exact fun _ _ => rfl
      · exact fun s hs => ⟨s, List.mem_cons_of_mem _ hs, le_rfl, rfl⟩

/-- The first piece decides whether all of a normal list is behind `x`. -/
theorem all_before (hn : Normal (r :: l)) (hxr : x.Before r) : ∀ s ∈ r :: l, x.Before s := by
  intro s hs
  rcases List.mem_cons.mp hs with rfl | hs
  · exact hxr
  · exact hxr.trans hn.head (hn.before s hs)

end Painted

end FuseNt.Lib
