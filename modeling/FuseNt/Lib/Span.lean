/-
  FuseNt.Lib.Span

  Which bytes of a buffer a program accesses.

  An access is a span: its first offset and its length.  `Below` says of a list
  of accesses that they stay below a bound, byte by byte; the lemmas turn this
  into inequalities on the ends of the spans.  `AgreeOn` compares two buffers
  on the bytes accessed: what a program reads of the one it reads of the other.
-/

import FuseNt.Lib.Bytes

namespace FuseNt.Lib

/-- The first offset of an access and its length. -/
abbrev Span := Nat × Nat

/-- One of the accesses reaches the byte `i`. -/
def Touches (spans : List Span) (i : Nat) : Prop := ∃ s ∈ spans, s.1 ≤ i ∧ i < s.1 + s.2

/-- The accesses stay below `n`. -/
def Below (spans : List Span) (n : Nat) : Prop := ∀ i, Touches spans i → i < n

/-- The buffers have the same bytes where the accesses are. -/
def AgreeOn (spans : List Span) (m m' : Mem) : Prop := ∀ i, Touches spans i → m i = m' i

section Spans

variable {spans spans' : List Span} {s : Span} {i n : Nat}

@[simp] theorem touches_nil : ¬ Touches [] i := by
  rintro ⟨s, hs, -⟩
  cases hs

@[simp] theorem below_nil : Below [] n := fun _ h => absurd h touches_nil

@[simp] theorem touches_cons : Touches (s :: spans) i ↔
    (s.1 ≤ i ∧ i < s.1 + s.2) ∨ Touches spans i := by
  simp [Touches]

@[simp] theorem touches_append : Touches (spans ++ spans') i ↔
    Touches spans i ∨ Touches spans' i := by
  simp [Touches, or_and_right, exists_or]

/-- An access of some bytes is below `n` if it ends there. -/
@[simp] theorem below_cons : Below (s :: spans) n ↔ (0 < s.2 → s.1 + s.2 ≤ n) ∧ Below spans n := by
  simp only [Below, touches_cons, or_imp, forall_and]
  refine and_congr_left fun _ => ⟨fun h hpos => ?_, fun h i hi => ?_⟩
  · have hlast := h (s.1 + s.2 - 1) (by omega)
    omega
  · have hend := h (by omega)
    omega

@[simp] theorem below_append : Below (spans ++ spans') n ↔ Below spans n ∧ Below spans' n := by
  simp only [Below, touches_append, or_imp, forall_and]

end Spans

section Agreement

variable {spans spans' : List Span} {m m' : Mem} {off n : Nat}

theorem AgreeOn.mono (h : AgreeOn spans m m') (hsub : ∀ s ∈ spans', s ∈ spans) :
    AgreeOn spans' m m' := by
  rintro i ⟨s, hs, hi⟩
  exact h i ⟨s, hsub s hs, hi⟩

/-- A span that is accessed reads the same. -/
theorem AgreeOn.read (h : AgreeOn spans m m') (hs : (off, n) ∈ spans) :
    m.read off n = m'.read off n := by
  apply Mem.read_congr
  intro i hi
  apply h
  exact ⟨_, hs, by omega, by omega⟩

theorem AgreeOn.readLe (h : AgreeOn spans m m') (hs : (off, n) ∈ spans) :
    m.readLe off n = m'.readLe off n := by
  rw [Mem.readLe, h.read hs, Mem.readLe]

end Agreement

end FuseNt.Lib
