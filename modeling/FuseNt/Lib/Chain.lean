/-
  FuseNt.Lib.Chain

  Singly linked lists in a heap of cells.

  `Seg h p l q` says that following `next` from the pointer `p` visits exactly
  the cells of `l`, in order, and then arrives at the pointer `q`; a
  null-terminated list is a segment that ends in `none`.  The cells of `l` are
  given with their addresses, so that frame conditions ("the heap changed only
  elsewhere") are statements about addresses.

  A queue with a separately kept tail pointer is a segment together with
  `tail = lastAddr l`.  The lemmas here say what linking a cell behind the
  tail, unlinking a cell and freeing a cell do to a segment.
-/

import Mathlib.Data.List.Nodup
import Mathlib.Data.List.Lemmas
import Mathlib.Tactic

namespace FuseNt.Lib

/-- The address of a cell; a pointer is an `Option Addr`, `none` being null. -/
abbrev Addr := Nat

/-- A list cell: a value and a link. -/
structure Cell (α : Type _) where
  val : α
  next : Option Addr
deriving DecidableEq, Repr

/-- A heap of list cells; `none` is memory that is not allocated. -/
def Heap (α : Type _) := Addr → Option (Cell α)

namespace Heap

variable {α : Type _}

/-- The heap in which nothing is allocated. -/
def empty : Heap α := fun _ => none

/-- Replace the contents of one address. -/
def set (h : Heap α) (a : Addr) (c : Option (Cell α)) : Heap α :=
  fun b => if b = a then c else h b

/-- Give the cell at `a` back to the allocator. -/
def free (h : Heap α) (a : Addr) : Heap α := h.set a none

/-- Store into the link field of an allocated cell; fails on unallocated memory. -/
def setNext (h : Heap α) (a : Addr) (n : Option Addr) : Option (Heap α) :=
  (h a).map fun c => h.set a (some ⟨c.val, n⟩)

@[simp] theorem set_same (h : Heap α) (a : Addr) (c : Option (Cell α)) : h.set a c a = c := by
  simp [set]

theorem set_of_ne (h : Heap α) {a b : Addr} (c : Option (Cell α)) (hne : b ≠ a) :
    h.set a c b = h b := by
  simp [set, hne]

end Heap

-- ============================================================================
-- Segments
-- ============================================================================

variable {α : Type _}

/-- Following `next` from `p` visits the cells `l` and arrives at `q`. -/
def Seg (h : Heap α) : Option Addr → List (Addr × α) → Option Addr → Prop
  | p, [], q => p = q
  | p, (a, v) :: rest, q => p = some a ∧
      match h a with
      | none => False
      | some c => c.val = v ∧ Seg h c.next rest q

instance Seg.decidable [DecidableEq α] (h : Heap α) :
    ∀ (p : Option Addr) (l : List (Addr × α)) (q : Option Addr), Decidable (Seg h p l q)
  | p, [], q => inferInstanceAs (Decidable (p = q))
  | p, (a, v) :: rest, q =>
      have : Decidable (match h a with
          | none => False
          | some c => c.val = v ∧ Seg h c.next rest q) :=
        match h a with
        | none => instDecidableFalse
        | some c => @instDecidableAnd _ _ _ (Seg.decidable h c.next rest q)
      inferInstanceAs (Decidable (p = some a ∧ _))

/-- The addresses of the cells of a segment. -/
abbrev addrs (l : List (Addr × α)) : List Addr := l.map Prod.fst

/-- The values stored in the cells of a segment. -/
abbrev vals (l : List (Addr × α)) : List α := l.map Prod.snd

section Erase

variable {a b : Addr} {v : α} {l₁ l₂ : List (Addr × α)}

theorem addrs_erase_sublist : (addrs (l₁ ++ l₂)).Sublist (addrs (l₁ ++ (a, v) :: l₂)) :=
  (((List.Sublist.refl l₂).cons (a, v)).append_left l₁).map Prod.fst

/-- Without the cell at `a`, no cell is at `a`. -/
theorem ne_of_mem_erase (hnd : (addrs (l₁ ++ (a, v) :: l₂)).Nodup) (hb : b ∈ addrs (l₁ ++ l₂)) :
    b ≠ a := by
  rw [addrs, List.map_append, List.map_cons, List.nodup_middle, List.nodup_cons] at hnd
  rintro rfl
  rw [addrs, List.map_append] at hb
  exact hnd.1 hb

end Erase

/-- The pointer a segment that continues to `q` starts with. -/
def headAddr (l : List (Addr × α)) (q : Option Addr) : Option Addr :=
  match l with
  | [] => q
  | x :: _ => some x.1

/-- The pointer to the last cell of a segment, null if there is none. -/
def lastAddr (l : List (Addr × α)) : Option Addr := l.getLast?.map Prod.fst

@[simp] theorem seg_nil {h : Heap α} {p q : Option Addr} : Seg h p [] q ↔ p = q := Iff.rfl

theorem seg_cons {h : Heap α} {p q : Option Addr} {a : Addr} {v : α} {rest : List (Addr × α)} :
    Seg h p ((a, v) :: rest) q ↔ p = some a ∧ ∃ n, h a = some ⟨v, n⟩ ∧ Seg h n rest q := by
  simp only [Seg]
  constructor
  · rintro ⟨rfl, hm⟩
    cases hc : h a with
    | none => simp [hc] at hm
    | some c =>
        obtain ⟨val, next⟩ := c
        simp only [hc] at hm
        obtain ⟨rfl, hrest⟩ := hm
        exact ⟨rfl, next, rfl, hrest⟩
  · rintro ⟨rfl, n, hc, hrest⟩
    exact ⟨rfl, by simpa [hc] using hrest⟩

@[simp] theorem headAddr_nil (q : Option Addr) : headAddr ([] : List (Addr × α)) q = q := rfl

@[simp] theorem headAddr_cons (x : Addr × α) (l : List (Addr × α)) (q : Option Addr) :
    headAddr (x :: l) q = some x.1 := rfl

@[simp] theorem lastAddr_nil : lastAddr ([] : List (Addr × α)) = none := rfl

@[simp] theorem lastAddr_concat (l : List (Addr × α)) (x : Addr × α) :
    lastAddr (l ++ [x]) = some x.1 := by
  simp [lastAddr]

theorem lastAddr_cons_of_ne_nil (x : Addr × α) {l : List (Addr × α)} (h : l ≠ []) :
    lastAddr (x :: l) = lastAddr l := by
  simp [lastAddr, List.getLast?_cons, List.getLast?_eq_getLast_of_ne_nil h]

theorem lastAddr_append_of_ne_nil (l : List (Addr × α)) {l' : List (Addr × α)} (h : l' ≠ []) :
    lastAddr (l ++ l') = lastAddr l' := by
  simp [lastAddr, List.getLast?_append, List.getLast?_eq_getLast_of_ne_nil h]

theorem lastAddr_eq_none {l : List (Addr × α)} : lastAddr l = none ↔ l = [] := by
  simp [lastAddr]

theorem headAddr_eq_none {l : List (Addr × α)} : headAddr l none = none ↔ l = [] := by
  cases l <;> simp

/-- The first pointer of a segment. -/
theorem Seg.head_eq {h : Heap α} {p q : Option Addr} {l : List (Addr × α)} (hs : Seg h p l q) :
    p = headAddr l q := by
  cases l with
  | nil => exact hs
  | cons x rest => exact hs.1

/-- A segment survives any change of the heap outside its cells. -/
theorem Seg.frame {h h' : Heap α} {p q : Option Addr} {l : List (Addr × α)}
    (hs : Seg h p l q) (hframe : ∀ a ∈ addrs l, h' a = h a) : Seg h' p l q := by
  induction l generalizing p with
  | nil => exact hs
  | cons x rest ih =>
      obtain ⟨a, v⟩ := x
      obtain ⟨hp, n, hc, hrest⟩ := seg_cons.mp hs
      refine seg_cons.mpr ⟨hp, n, ?_, ih hrest fun b hb => hframe b (List.mem_cons_of_mem _ hb)⟩
      rw [hframe a (List.mem_cons_self ..), hc]

/-- Segments compose. -/
theorem seg_append {h : Heap α} {p q : Option Addr} {l l' : List (Addr × α)} :
    Seg h p (l ++ l') q ↔ ∃ r, Seg h p l r ∧ Seg h r l' q := by
  induction l generalizing p with
  | nil => simp
  | cons x rest ih =>
      obtain ⟨a, v⟩ := x
      rw [List.cons_append, seg_cons]
      constructor
      · rintro ⟨hp, n, hc, hrest⟩
        obtain ⟨r, h1, h2⟩ := ih.mp hrest
        exact ⟨r, seg_cons.mpr ⟨hp, n, hc, h1⟩, h2⟩
      · rintro ⟨r, h1, h2⟩
        obtain ⟨hp, n, hc, hrest⟩ := seg_cons.mp h1
        exact ⟨hp, n, hc, ih.mpr ⟨r, hrest, h2⟩⟩

/-- Every cell of a segment is allocated. -/
theorem Seg.allocated {h : Heap α} {p q : Option Addr} {l : List (Addr × α)} (hs : Seg h p l q)
    {a : Addr} (ha : a ∈ addrs l) : h a ≠ none := by
  induction l generalizing p with
  | nil => simp at ha
  | cons x rest ih =>
      obtain ⟨b, v⟩ := x
      obtain ⟨-, n, hc, hrest⟩ := seg_cons.mp hs
      rcases List.mem_cons.mp ha with rfl | ha
      · simp [hc]
      · exact ih hrest ha

/-- The last cell of a segment, and what its link holds. -/
theorem Seg.last_cell {h : Heap α} {p q : Option Addr} {l : List (Addr × α)} {a : Addr} {v : α}
    (hs : Seg h p (l ++ [(a, v)]) q) : h a = some ⟨v, q⟩ := by
  obtain ⟨r, -, h2⟩ := seg_append.mp hs
  obtain ⟨-, n, hc, hn⟩ := seg_cons.mp h2
  rwa [seg_nil.mp hn] at hc

/-- A cell within a segment: the segment up to it, and what its link holds. -/
theorem Seg.split {h : Heap α} {p q : Option Addr} {l₁ l₂ : List (Addr × α)} {a : Addr} {v : α}
    (hs : Seg h p (l₁ ++ (a, v) :: l₂) q) :
    Seg h p l₁ (some a) ∧ h a = some ⟨v, headAddr l₂ q⟩ ∧ Seg h (headAddr l₂ q) l₂ q := by
  obtain ⟨r, h1, h2⟩ := seg_append.mp hs
  obtain ⟨rfl, n, hc, hn⟩ := seg_cons.mp h2
  have hn' := hn.head_eq
  subst hn'
  exact ⟨h1, hc, hn⟩

/-- Redirecting the link of the last cell redirects the segment. -/
theorem Seg.set_last {h : Heap α} {p q : Option Addr} {l : List (Addr × α)} {a : Addr} {v : α}
    (r : Option Addr) (hs : Seg h p (l ++ [(a, v)]) q) (hnd : (addrs (l ++ [(a, v)])).Nodup) :
    Seg (h.set a (some ⟨v, r⟩)) p (l ++ [(a, v)]) r := by
  obtain ⟨m, h1, h2⟩ := seg_append.mp hs
  obtain ⟨hm, -⟩ := seg_cons.mp h2
  have hne : ∀ b ∈ addrs l, b ≠ a := by
    intro b hb hba
    rw [addrs, List.map_append] at hnd
    exact (List.nodup_append.mp hnd).2.2 b hb a (by simp) hba
  refine seg_append.mpr ⟨m, h1.frame fun b hb => Heap.set_of_ne h _ (hne b hb), ?_⟩
  exact seg_cons.mpr ⟨hm, r, Heap.set_same .., seg_nil.mpr rfl⟩

/-- A null-terminated list is determined by its first pointer. -/
theorem Seg.unique {h : Heap α} {p : Option Addr} {l l' : List (Addr × α)}
    (hs : Seg h p l none) (hs' : Seg h p l' none) : l = l' := by
  induction l generalizing p l' with
  | nil =>
      have hp : p = none := hs
      have hl' := hs'.head_eq
      rw [hp] at hl'
      exact (headAddr_eq_none.mp hl'.symm).symm
  | cons x rest ih =>
      obtain ⟨a, v⟩ := x
      obtain ⟨rfl, n, hc, hrest⟩ := seg_cons.mp hs
      cases l' with
      | nil => simp at hs'
      | cons y rest' =>
          obtain ⟨b, u⟩ := y
          obtain ⟨hp, n', hc', hrest'⟩ := seg_cons.mp hs'
          obtain rfl : a = b := by simpa using hp
          obtain ⟨rfl, rfl⟩ : v = u ∧ n = n' := by simpa [hc] using hc'
          rw [ih hrest hrest']

/-- The part of a list up to a given cell is determined by its first pointer. -/
theorem Seg.unique_upto {h : Heap α} {p : Option Addr} {e : Addr} {l l' : List (Addr × α)}
    (hs : Seg h p l (some e)) (he : e ∉ addrs l) (hs' : Seg h p l' (some e))
    (he' : e ∉ addrs l') : l = l' := by
  induction l generalizing p l' with
  | nil =>
      cases l' with
      | nil => rfl
      | cons y rest' =>
          obtain ⟨b, u⟩ := y
          obtain ⟨hp, -⟩ := seg_cons.mp hs'
          rw [seg_nil.mp hs, Option.some.injEq] at hp
          exact absurd (by simp [hp]) he'
  | cons x rest ih =>
      obtain ⟨a, v⟩ := x
      obtain ⟨rfl, n, hc, hrest⟩ := seg_cons.mp hs
      cases l' with
      | nil =>
          rw [seg_nil, Option.some.injEq] at hs'
          exact absurd (by simp [hs']) he
      | cons y rest' =>
          obtain ⟨b, u⟩ := y
          obtain ⟨hp, n', hc', hrest'⟩ := seg_cons.mp hs'
          obtain rfl : a = b := by simpa using hp
          obtain ⟨rfl, rfl⟩ : v = u ∧ n = n' := by simpa [hc] using hc'
          rw [ih hrest (fun hm => he (List.mem_cons_of_mem _ hm)) hrest'
            fun hm => he' (List.mem_cons_of_mem _ hm)]

-- ============================================================================
-- Queues with a tail pointer
-- ============================================================================

/-- The cells `l`, from `head` on, with `tail` pointing at the last of them and
    the link of the last holding `q`. -/
structure Queue (h : Heap α) (head tail : Option Addr) (l : List (Addr × α)) (q : Option Addr) :
    Prop where
  seg : Seg h head l q
  tail_eq : tail = lastAddr l

namespace Queue

variable {h h' : Heap α} {head tail q : Option Addr} {l : List (Addr × α)} {a : Addr} {v : α}

theorem frame (hq : Queue h head tail l q) (hframe : ∀ b ∈ addrs l, h' b = h b) :
    Queue h' head tail l q :=
  ⟨hq.seg.frame hframe, hq.tail_eq⟩

/-- The cell at the head of a queue. -/
theorem head_cell (hq : Queue h head tail ((a, v) :: l) none) :
    head = some a ∧ h a = some ⟨v, headAddr l none⟩ := by
  obtain ⟨hp, n, hc, hrest⟩ := seg_cons.mp hq.seg
  exact ⟨hp, by rw [hc, hrest.head_eq]⟩

/-- Moving the head on, and dropping the tail pointer with the last cell. -/
theorem pop (hq : Queue h head tail ((a, v) :: l) none) :
    Queue h (headAddr l none) (if headAddr l none = none then none else tail) l none := by
  obtain ⟨-, n, hc, hrest⟩ := seg_cons.mp hq.seg
  have hn := hrest.head_eq
  subst hn
  refine ⟨hrest, ?_⟩
  by_cases hl : l = []
  · simp [hl]
  · rw [if_neg (mt headAddr_eq_none.mp hl), hq.tail_eq, lastAddr_cons_of_ne_nil _ hl]

/-- An empty queue takes its first cell. -/
theorem first (hc : h a = some ⟨v, q⟩) : Queue h (some a) (some a) [(a, v)] q :=
  ⟨seg_cons.mpr ⟨rfl, q, hc, seg_nil.mpr rfl⟩, rfl⟩

/-- A queue with a tail pointer has a last cell there. -/
theorem last_of_tail {e : Addr} (hq : Queue h head (some e) l q) :
    ∃ l₀ u, l = l₀ ++ [(e, u)] := by
  have hlast := hq.tail_eq
  rcases List.eq_nil_or_concat l with rfl | ⟨l₀, x, rfl⟩
  · simp at hlast
  · rw [List.concat_eq_append, lastAddr_concat, Option.some.injEq] at hlast
    exact ⟨l₀, x.2, by rw [hlast, List.concat_eq_append]⟩

/-- Linking an allocated cell behind the tail: the queue takes over the cell
    with whatever its own link holds. -/
theorem link {e : Addr} {r : Option Addr} (hq : Queue h head (some e) l q)
    (hnd : (addrs l).Nodup) (ha : a ∉ addrs l) (hc : h a = some ⟨v, r⟩) :
    ∃ h₁, h.setNext e (some a) = some h₁ ∧ Queue h₁ head (some a) (l ++ [(a, v)]) r ∧
      ∀ b, b ≠ e → h₁ b = h b := by
  obtain ⟨l₀, u, rfl⟩ := hq.last_of_tail
  have hlast := hq.seg.last_cell
  have hae : a ≠ e := by
    rintro rfl
    exact ha (by simp)
  refine ⟨h.set e (some ⟨u, some a⟩), by simp [Heap.setNext, hlast],
    ⟨?_, (lastAddr_concat (l₀ ++ [(e, u)]) (a, v)).symm⟩, ?_⟩
  · refine seg_append.mpr ⟨some a, hq.seg.set_last (some a) hnd, ?_⟩
    exact seg_cons.mpr ⟨rfl, r, by rw [Heap.set_of_ne h _ hae, hc], seg_nil.mpr rfl⟩
  · intro b hb
    exact Heap.set_of_ne h _ hb

/-- The tail pointer after a cell was unlinked: it moves back to the cell
    before if there is nothing behind. -/
theorem tail_unlink {l₁ l₂ : List (Addr × α)}
    (hq : Queue h head tail (l₁ ++ (a, v) :: l₂) q) (hend : l₂ = [] → q = none) :
    (if headAddr l₂ q = none then lastAddr l₁ else tail) = lastAddr (l₁ ++ l₂) := by
  by_cases hl : l₂ = []
  · simp [hl, hend hl]
  · have hne : headAddr l₂ q ≠ none := by
      cases l₂ with
      | nil => exact absurd rfl hl
      | cons x l => simp
    rw [if_neg hne, hq.tail_eq, lastAddr_append_of_ne_nil _ hl,
      lastAddr_append_of_ne_nil _ (List.cons_ne_nil _ _), lastAddr_cons_of_ne_nil _ hl]

/-- Unlinking the first cell. -/
theorem unlink_head {l : List (Addr × α)} (hq : Queue h head tail ((a, v) :: l) q)
    (hend : l = [] → q = none) :
    Queue h (headAddr l q) (if headAddr l q = none then none else tail) l q := by
  rw [← List.nil_append ((a, v) :: l)] at hq
  exact ⟨hq.seg.split.2.2, hq.tail_unlink hend⟩

/-- Unlinking a later cell, through the link of the cell before it. -/
theorem unlink_next {l₁ l₂ : List (Addr × α)} {e : Addr} {u : α}
    (hq : Queue h head tail (l₁ ++ [(e, u)] ++ (a, v) :: l₂) q)
    (hnd : (addrs (l₁ ++ [(e, u)] ++ (a, v) :: l₂)).Nodup) (hend : l₂ = [] → q = none) :
    h e = some ⟨u, some a⟩ ∧
      Queue (h.set e (some ⟨u, headAddr l₂ q⟩)) head
        (if headAddr l₂ q = none then some e else tail) (l₁ ++ [(e, u)] ++ l₂) q := by
  obtain ⟨h1, -, h2⟩ := hq.seg.split
  have htail := hq.tail_unlink hend
  rw [lastAddr_concat] at htail
  have hnd' : (addrs (l₁ ++ [(e, u)])).Nodup := by grind
  refine ⟨h1.last_cell, seg_append.mpr ⟨_, h1.set_last (headAddr l₂ q) hnd', ?_⟩, htail⟩
  refine h2.frame fun b hb => Heap.set_of_ne h _ ?_
  grind

end Queue

end FuseNt.Lib
