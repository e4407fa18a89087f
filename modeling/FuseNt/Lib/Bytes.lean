/-
  FuseNt.Lib.Bytes

  Byte buffers and little-endian integers.

  A buffer is a total function from offsets to bytes (`Mem`): a program that
  writes past the end of an allocation still has a meaning here, and whether
  it did is a question about the offsets it touched.  `Mem.write` is `memcpy`,
  `Mem.read` is the byte string at an offset, `leBytes`/`leNat` are the
  little-endian encoding of a fixed-width integer and its inverse.
-/

import Mathlib.Data.List.GetD
import Mathlib.Tactic

namespace FuseNt.Lib

-- ============================================================================
-- Little-endian integers
-- ============================================================================

/-- The low `k` bytes of `n`, least significant first. -/
def leBytes : Nat → Nat → List UInt8
  | 0, _ => []
  | k + 1, n => UInt8.ofNat (n % 256) :: leBytes k (n / 256)

/-- The number a little-endian byte string stands for. -/
def leNat : List UInt8 → Nat
  | [] => 0
  | b :: rest => b.toNat + 256 * leNat rest

@[simp] theorem leNat_nil : leNat [] = 0 := rfl

@[simp] theorem leNat_cons (b : UInt8) (rest : List UInt8) :
    leNat (b :: rest) = b.toNat + 256 * leNat rest := rfl

@[simp] theorem length_leBytes (k n : Nat) : (leBytes k n).length = k := by
  induction k generalizing n with
  | zero => rfl
  | succ k ih => simp [leBytes, ih]

/-- Decoding the `k`-byte encoding of `n` gives `n` modulo `256 ^ k`. -/
theorem leNat_leBytes (k n : Nat) : leNat (leBytes k n) = n % 256 ^ k := by
  induction k generalizing n with
  | zero => simp [leBytes, Nat.mod_one]
  | succ k ih =>
      have hb : (UInt8.ofNat (n % 256)).toNat = n % 256 := by simp
      rw [leBytes, leNat_cons, hb, ih, Nat.pow_succ, Nat.mul_comm (256 ^ k) 256, Nat.mod_mul]

theorem leNat_leBytes_of_lt {k n : Nat} (h : n < 256 ^ k) : leNat (leBytes k n) = n := by
  rw [leNat_leBytes, Nat.mod_eq_of_lt h]

theorem leNat_lt (bs : List UInt8) : leNat bs < 256 ^ bs.length := by
  induction bs with
  | nil => simp
  | cons b rest ih =>
      have hb : b.toNat < 256 := b.toNat_lt
      simp only [leNat_cons, List.length_cons, Nat.pow_succ]
      omega

/-- A byte string is determined by its length and the number it encodes. -/
theorem leBytes_leNat (bs : List UInt8) : leBytes bs.length (leNat bs) = bs := by
  induction bs with
  | nil => rfl
  | cons b rest ih =>
      have hb : b.toNat < 256 := b.toNat_lt
      have hmod : (b.toNat + 256 * leNat rest) % 256 = b.toNat := by omega
      have hdiv : (b.toNat + 256 * leNat rest) / 256 = leNat rest := by omega
      rw [List.length_cons, leBytes, leNat_cons, hmod, hdiv, ih]
      simp

-- ============================================================================
-- Buffers
-- ============================================================================

/-- A byte buffer, indexed from its first byte. -/
def Mem := Nat → UInt8

namespace Mem

/-- The buffer of zero bytes. -/
def zeros : Mem := fun _ => 0

/-- The `n` bytes at offset `off`. -/
def read (m : Mem) (off n : Nat) : List UInt8 :=
  (List.range n).map fun i => m (off + i)

/-- The `k`-byte little-endian integer at offset `off`. -/
def readLe (m : Mem) (off k : Nat) : Nat := leNat (m.read off k)

/-- Copy the byte string `bs` to offset `off`. -/
def write (m : Mem) (off : Nat) (bs : List UInt8) : Mem :=
  fun i => if off ≤ i then bs.getD (i - off) (m i) else m i

/-- Store the `k`-byte little-endian integer `v` at offset `off`. -/
def writeLe (m : Mem) (off k v : Nat) : Mem := m.write off (leBytes k v)

/-- Zero the `n` bytes at offset `off`. -/
def zero (m : Mem) (off n : Nat) : Mem :=
  fun i => if off ≤ i ∧ i < off + n then 0 else m i

/-- A list of copies, performed from first to last. -/
def writes (m : Mem) : List (Nat × List UInt8) → Mem
  | [] => m
  | (off, bs) :: rest => (m.write off bs).writes rest

@[simp] theorem length_read (m : Mem) (off n : Nat) : (m.read off n).length = n := by
  simp [read]

theorem getElem_read (m : Mem) (off n i : Nat) (h : i < (m.read off n).length) :
    (m.read off n)[i] = m (off + i) := by
  simp [read]

/-- Two buffers that agree on a range, which may lie elsewhere in the second,
    read the same there. -/
theorem read_congr {m m' : Mem} {off off' n : Nat}
    (h : ∀ i, i < n → m (off + i) = m' (off' + i)) : m.read off n = m'.read off' n := by
  apply List.ext_getElem (by simp)
  intro i hi _
  rw [getElem_read, getElem_read]
  exact h i (by simpa using hi)

/-- The same for integers. -/
theorem readLe_congr {m m' : Mem} {off off' k : Nat}
    (h : ∀ i, i < k → m (off + i) = m' (off' + i)) : m.readLe off k = m'.readLe off' k := by
  rw [readLe, readLe, read_congr h]

theorem read_eq_iff (m : Mem) (off : Nat) (bs : List UInt8) :
    m.read off bs.length = bs ↔ ∀ i (h : i < bs.length), m (off + i) = bs[i] := by
  constructor
  · intro h i hi
    have hi' : i < (m.read off bs.length).length := by simpa using hi
    have hget := getElem_read m off bs.length i hi'
    rw [← hget]
    simp only [h]
  · intro h
    apply List.ext_getElem (by simp)
    intro i hi hi'
    rw [getElem_read, h i hi']

theorem write_of_mem (m : Mem) (off i : Nat) (bs : List UInt8) (h : i < bs.length) :
    m.write off bs (off + i) = bs[i] := by
  have hsub : off + i - off = i := by omega
  rw [write, if_pos (by omega), hsub, List.getD_eq_getElem _ _ h]

theorem write_of_not_mem (m : Mem) (off i : Nat) (bs : List UInt8)
    (h : i < off ∨ off + bs.length ≤ i) : m.write off bs i = m i := by
  unfold write
  by_cases hi : off ≤ i
  · rw [if_pos hi, List.getD_eq_default _ _ (by omega)]
  · rw [if_neg hi]

/-- Reading back a range that was just written. -/
theorem read_write_same (m : Mem) (off : Nat) (bs : List UInt8) :
    (m.write off bs).read off bs.length = bs :=
  (read_eq_iff _ off bs).mpr fun i hi => write_of_mem m off i bs hi

/-- A write outside the range read leaves it alone. -/
theorem read_write_disjoint (m : Mem) (off n o : Nat) (bs : List UInt8)
    (h : off + n ≤ o ∨ o + bs.length ≤ off) : (m.write o bs).read off n = m.read off n :=
  read_congr fun i hi => write_of_not_mem m o (off + i) bs (by omega)

/-- A byte string is read piece by piece. -/
theorem read_add (m : Mem) (off a b : Nat) :
    m.read off (a + b) = m.read off a ++ m.read (off + a) b := by
  simp [read, List.range_add, Nat.add_assoc]

@[simp] theorem read_zero_length (m : Mem) (off : Nat) : m.read off 0 = [] := rfl

theorem readLe_lt (m : Mem) (off k : Nat) : m.readLe off k < 256 ^ k := by
  have h := leNat_lt (m.read off k)
  rwa [length_read] at h

/-- The first byte is the lowest. -/
theorem readLe_mod_byte (m : Mem) (off k : Nat) : m.readLe off (k + 1) % 256 = (m off).toNat := by
  have hb : (m off).toNat < 256 := (m off).toNat_lt
  have hone : m.read off 1 = [m off] := rfl
  rw [readLe, Nat.add_comm, read_add, hone, List.singleton_append, leNat_cons]
  omega

theorem readLe_writeLe_same (m : Mem) (off k v : Nat) :
    (m.writeLe off k v).readLe off k = v % 256 ^ k := by
  have h := read_write_same m off (leBytes k v)
  rw [length_leBytes] at h
  rw [readLe, writeLe, h, leNat_leBytes]

theorem readLe_write_disjoint (m : Mem) (off k o : Nat) (bs : List UInt8)
    (h : off + k ≤ o ∨ o + bs.length ≤ off) : (m.write o bs).readLe off k = m.readLe off k := by
  rw [readLe, read_write_disjoint m off k o bs h, readLe]

theorem readLe_writeLe_disjoint (m : Mem) (off k o j v : Nat)
    (h : off + k ≤ o ∨ o + j ≤ off) : (m.writeLe o j v).readLe off k = m.readLe off k :=
  readLe_write_disjoint m off k o (leBytes j v) (by simpa using h)

theorem writeLe_of_not_mem (m : Mem) (off k v i : Nat) (h : i < off ∨ off + k ≤ i) :
    m.writeLe off k v i = m i :=
  write_of_not_mem m off i (leBytes k v) (by simpa using h)

theorem zero_of_mem (m : Mem) (off n i : Nat) (h : off ≤ i ∧ i < off + n) :
    m.zero off n i = 0 := by
  rw [zero, if_pos h]

theorem zero_of_not_mem (m : Mem) (off n i : Nat) (h : i < off ∨ off + n ≤ i) :
    m.zero off n i = m i := by
  rw [zero, if_neg (by omega)]

/-- A range no copy of the list reaches keeps its contents. -/
theorem read_writes_disjoint (ws : List (Nat × List UInt8)) (m : Mem) (off n : Nat)
    (h : ∀ w ∈ ws, off + n ≤ w.1 ∨ w.1 + w.2.length ≤ off) :
    (m.writes ws).read off n = m.read off n := by
  induction ws generalizing m with
  | nil => rfl
  | cons w rest ih =>
      rw [writes, ih _ (fun x hx => h x (List.mem_cons_of_mem _ hx)),
        read_write_disjoint m off n w.1 w.2 (h w (List.mem_cons_self ..))]

/-- A byte no copy of the list reaches is kept. -/
theorem writes_of_not_mem (ws : List (Nat × List UInt8)) (m : Mem) (i : Nat)
    (h : ∀ w ∈ ws, i < w.1 ∨ w.1 + w.2.length ≤ i) : m.writes ws i = m i := by
  induction ws generalizing m with
  | nil => rfl
  | cons w rest ih =>
      rw [writes, ih _ (fun x hx => h x (List.mem_cons_of_mem _ hx)),
        write_of_not_mem m w.1 i w.2 (h w (List.mem_cons_self ..))]

theorem writes_append (m : Mem) (ws ws' : List (Nat × List UInt8)) :
    m.writes (ws ++ ws') = (m.writes ws).writes ws' := by
  induction ws generalizing m with
  | nil => rfl
  | cons w rest ih => exact ih _

/-- Reading back one copy of a list, if no later one reaches it. -/
theorem read_writes_mem (m : Mem) (ws ws' : List (Nat × List UInt8)) (off : Nat)
    (bs : List UInt8)
    (h : ∀ w ∈ ws', off + bs.length ≤ w.1 ∨ w.1 + w.2.length ≤ off) :
    (m.writes (ws ++ (off, bs) :: ws')).read off bs.length = bs := by
  rw [writes_append, writes, read_writes_disjoint _ _ _ _ h, read_write_same]

/-- Reading back each of a list of copies that do not overlap. -/
theorem read_writes_of_mem {m : Mem} {ws : List (Nat × List UInt8)}
    (hws : ws.Pairwise fun w w' => w.1 + w.2.length ≤ w'.1 ∨ w'.1 + w'.2.length ≤ w.1)
    {w : Nat × List UInt8} (hw : w ∈ ws) : (m.writes ws).read w.1 w.2.length = w.2 := by
  obtain ⟨front, rest, rfl⟩ := List.append_of_mem hw
  have hrest := (List.pairwise_cons.mp (List.pairwise_append.mp hws).2.1).1
  exact read_writes_mem m front rest w.1 w.2 hrest

/-- The same for integers. -/
theorem readLe_writes_of_mem {m : Mem} {ws : List (Nat × List UInt8)}
    (hws : ws.Pairwise fun w w' => w.1 + w.2.length ≤ w'.1 ∨ w'.1 + w'.2.length ≤ w.1)
    {off k v : Nat} (hw : (off, leBytes k v) ∈ ws) : (m.writes ws).readLe off k = v % 256 ^ k := by
  have hread := read_writes_of_mem (m := m) hws hw
  rw [length_leBytes] at hread
  rw [readLe, hread, leNat_leBytes]

theorem readLe_writes_disjoint (ws : List (Nat × List UInt8)) (m : Mem) (off k : Nat)
    (h : ∀ w ∈ ws, off + k ≤ w.1 ∨ w.1 + w.2.length ≤ off) :
    (m.writes ws).readLe off k = m.readLe off k := by
  rw [readLe, read_writes_disjoint ws m off k h, readLe]

@[simp] theorem write_nil (m : Mem) (off : Nat) : m.write off [] = m := by
  funext i
  exact write_of_not_mem m off i [] (by simp; omega)

/-- Two strings that are copied one behind the other. -/
theorem write_append (m : Mem) (off : Nat) (bs bs' : List UInt8) :
    (m.write off bs).write (off + bs.length) bs' = m.write off (bs ++ bs') := by
  funext i
  rcases Nat.lt_or_ge i off with hbefore | hoff
  · rw [write_of_not_mem _ _ _ _ (by omega), write_of_not_mem _ _ _ _ (by omega),
      write_of_not_mem _ _ _ _ (by omega)]
  obtain ⟨j, rfl⟩ := Nat.exists_eq_add_of_le hoff
  rcases Nat.lt_or_ge j bs.length with hfirst | hsecond
  · rw [write_of_not_mem _ _ _ _ (by omega), write_of_mem _ _ _ _ hfirst,
      write_of_mem _ _ _ _ (by rw [List.length_append]; omega), List.getElem_append_left hfirst]
  obtain ⟨k, rfl⟩ := Nat.exists_eq_add_of_le hsecond
  rw [← Nat.add_assoc]
  rcases Nat.lt_or_ge k bs'.length with hin | hout
  · have hbound : bs.length + k < (bs ++ bs').length := by
      rw [List.length_append]
      omega
    have hget : (bs ++ bs')[bs.length + k] = bs'[k] := by
      rw [List.getElem_append_right (by omega)]
      congr 1
      omega
    rw [write_of_mem _ _ _ _ hin, Nat.add_assoc, write_of_mem _ _ _ _ hbound, hget]
  · rw [write_of_not_mem _ _ _ _ (by omega), write_of_not_mem _ _ _ _ (by omega),
      write_of_not_mem _ _ _ _ (by rw [List.length_append]; omega)]

theorem zero_eq_write (m : Mem) (off n : Nat) : m.zero off n = m.write off (List.replicate n 0) := by
  funext i
  by_cases hi : off ≤ i ∧ i < off + n
  · obtain ⟨j, rfl⟩ := Nat.exists_eq_add_of_le hi.1
    rw [zero_of_mem _ _ _ _ hi, write_of_mem _ _ _ _ (by rw [List.length_replicate]; omega),
      List.getElem_replicate]
  · rw [zero, if_neg hi, write_of_not_mem _ _ _ _ (by rw [List.length_replicate]; omega)]

/-- A part of a range that was read. -/
theorem read_slice {m : Mem} {off n : Nat} {bs : List UInt8} (h : m.read off n = bs) (i k : Nat)
    (hk : i + k ≤ n) : m.read (off + i) k = (bs.drop i).take k := by
  subst h
  apply List.ext_getElem
  · simp
    omega
  · intro j hj _
    simp [read, Nat.add_assoc]

end Mem

/-- One of equally long pieces of a byte string. -/
theorem flatten_slice {α : Type} (f : α → List UInt8) (k : Nat) (hf : ∀ x, (f x).length = k)
    (l : List α) (i : Nat) (hi : i < l.length) :
    ((l.map f).flatten.drop (i * k)).take k = f l[i] := by
  induction l generalizing i with
  | nil => simp at hi
  | cons x rest ih =>
      cases i with
      | zero => simp [← hf x]
      | succ i =>
          have hdrop : (i + 1) * k = (f x).length + i * k := by
            rw [hf, Nat.succ_mul, Nat.add_comm]
          rw [List.map_cons, List.flatten_cons, hdrop, List.drop_length_add_append]
          exact ih i (by simpa using hi)

end FuseNt.Lib
