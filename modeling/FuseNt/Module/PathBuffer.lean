/-
  FuseNt.Module.PathBuffer

  The buffer that `try_get_path` (fuse.c) makes a path in.  It goes from a node
  up to the root, so `add_name` writes in front of what there is, and moves it to
  the end of a larger buffer when there is no room.

  `buf` is a block of `bufsize` bytes, and `s` is kept as its distance from the
  start of the block.  The lengths of the buffer are of the type `unsigned`.
-/

import FuseNt.Lib.CString
import FuseNt.Module.DirHandle

namespace FuseNt

open FuseNt.Lib

-- ============================================================================
-- add_name
-- ============================================================================

/-- The memory there is: whether there is a block of some size, and what a fresh
    block holds. -/
structure PathHeap where
  has : Nat → Bool
  fresh : Mem

/-- Why the making of a path does not go on: the loop that looks for a size does
    not end, or there is an access outside the buffer. -/
inductive BufStop where
  | endless
  | outside
deriving DecidableEq

/-- `buf`, `bufsize` and `s`. -/
structure PathBuf where
  buf : Mem
  bufsize : Nat
  s : Nat

/-- The writes of `add_name` once there is room. -/
def PathBuf.store (b : PathBuf) (name : FileName) : Except BufStop PathBuf :=
  if name.length < b.s ∧ b.s ≤ b.bufsize then
    let s := b.s - name.length
    .ok ⟨(b.buf.write s name).write (s - 1) [slash], b.bufsize, s - 1⟩
  else .error .outside

/-- The block of `realloc`, with the path at its end. -/
def PathBuf.moveTo (b : PathBuf) (newbufsize : Nat) : Except BufStop PathBuf :=
  let pathlen := subUnsigned b.bufsize b.s
  if pathlen ≤ b.bufsize ∧ b.bufsize ≤ newbufsize then
    .ok ⟨b.buf.write (newbufsize - pathlen) (b.buf.read (b.bufsize - pathlen) pathlen), newbufsize,
      newbufsize - pathlen⟩
  else .error .outside

/-- `add_name`; the result is NULL if there is no memory.  The loop is the one of
    `extend_contents`. -/
def addName (heap : PathHeap) (b : PathBuf) (name : FileName) : Except BufStop (Option PathBuf) :=
  if b.s ≤ name.length then
    match growSize 33 b.bufsize (subUnsigned b.bufsize b.s + name.length + 1) with
    | none => .error .endless
    | some newbufsize =>
        if heap.has newbufsize then do
          let b ← b.moveTo newbufsize
          return some (← b.store name)
        else .ok none
  else do return some (← b.store name)

/-- The buffer that `try_get_path` starts with; `none` if there is no memory. -/
def mallocPath (heap : PathHeap) : Option PathBuf :=
  if heap.has 256 then some ⟨heap.fresh.write 255 [0], 256, 255⟩ else none

/-- The string in the buffer when the root has been reached. -/
def PathBuf.finish (b : PathBuf) : Option FileName :=
  let bytes := b.buf.read 0 b.bufsize
  if bytes.getD b.s 0 ≠ 0 then (memmoveToFront bytes b.s (b.bufsize - b.s)).bind stringIn
  else (memcpyTo bytes [slash, 0]).bind stringIn

-- ============================================================================
-- The path in the buffer
-- ============================================================================

/-- The names of a path, each behind a slash. -/
def slashed (names : List FileName) : FileName := names.flatMap (slash :: ·)

/-- The buffer has the path at its end. -/
structure PathBuf.Has (b : PathBuf) (path : FileName) : Prop where
  end_ : b.s + path.length + 1 = b.bufsize
  large : 256 ≤ b.bufsize
  small : b.bufsize < 2 ^ 32
  string : b.buf.read b.s (path.length + 1) = path ++ [0]

section Buffer

variable {heap : PathHeap} {b : PathBuf} {name path : FileName} {names : List FileName}

theorem slashed_concat (names : List FileName) (name : FileName) :
    slashed (names ++ [name]) = slashed names ++ slash :: name := by
  rw [slashed, List.flatMap_append, List.flatMap_singleton]
  rfl

theorem pathString_eq (names : List FileName) :
    pathString names = if names = [] then [slash] else slashed names := rfl

theorem mallocPath_has (h : mallocPath heap = some b) : b.Has [] := by
  rw [mallocPath] at h
  split at h
  · cases h
    exact ⟨rfl, le_rfl, by show 256 < 2 ^ 32; omega, Mem.read_write_same _ 255 [0]⟩
  · cases h

/-- A byte that is written in front of a string. -/
theorem write_front (m : Mem) (off : Nat) (c : UInt8) (bs : List UInt8) :
    (m.write (off + 1) bs).write off [c] = m.write off (c :: bs) := by
  have happend : m.write off (c :: bs) = (m.write off [c]).write (off + 1) bs :=
    (Mem.write_append m off [c] bs).symm
  rw [happend]
  funext i
  by_cases hi : i = off
  · subst hi
    rw [Mem.write_of_not_mem _ (i + 1) _ _ (by omega)]
    exact (Mem.write_of_mem _ i 0 [c] (by simp)).trans (Mem.write_of_mem _ i 0 [c] (by simp)).symm
  · have hout : i < off ∨ off + [c].length ≤ i := by
      rw [List.length_singleton]
      omega
    rw [Mem.write_of_not_mem _ _ _ _ hout]
    unfold Mem.write
    by_cases hin : off + 1 ≤ i
    · rw [if_pos hin, if_pos hin]
      congr 1
      exact (Mem.write_of_not_mem _ _ _ _ hout).symm
    · rw [if_neg hin, if_neg hin]
      exact (Mem.write_of_not_mem _ _ _ _ hout).symm

/-- A name is stored in front of the path. -/
theorem store_has (h : b.Has path) (name : FileName) (hroom : name.length < b.s) :
    ∃ b', b.store name = .ok b' ∧ b'.Has (slash :: name ++ path) := by
  have hend := h.end_
  refine ⟨_, if_pos ⟨hroom, by omega⟩, ?_, h.large, h.small, ?_⟩
  · show b.s - name.length - 1 + (slash :: name ++ path).length + 1 = b.bufsize
    rw [List.cons_append, List.length_cons, List.length_append]
    omega
  · obtain ⟨s, hs⟩ : ∃ s, b.s = s + (name.length + 1) := ⟨b.s - (name.length + 1), by omega⟩
    have hname : b.s - name.length = s + 1 := by omega
    have hat : s + (slash :: name).length = b.s := hs.symm
    have hlen : (slash :: name ++ path).length + 1 = (slash :: name).length + (path.length + 1) := by
      rw [List.length_append]
      omega
    simp only [hname]
    show ((b.buf.write (s + 1) name).write s [slash]).read s _ = _
    rw [write_front, hlen, Mem.read_add, Mem.read_write_same, hat,
      Mem.read_write_disjoint _ _ _ _ _ (by omega), h.string, List.append_assoc]

/-- The path is moved to the end of a larger buffer. -/
theorem moveTo_has (h : b.Has path) {newbufsize : Nat} (hlarge : b.bufsize ≤ newbufsize)
    (hsmall : newbufsize < 2 ^ 32) :
    ∃ b', b.moveTo newbufsize = .ok b' ∧ b'.Has path ∧ b'.s + path.length + 1 = newbufsize := by
  have hend := h.end_
  have hlen : subUnsigned b.bufsize b.s = path.length + 1 := by
    have hlt := h.small
    unfold subUnsigned
    omega
  have hat : b.bufsize - (path.length + 1) = b.s := by omega
  have hnew : newbufsize - (path.length + 1) + path.length + 1 = newbufsize := by omega
  rw [PathBuf.moveTo, hlen, hat, h.string]
  refine ⟨_, if_pos ⟨by omega, hlarge⟩, ⟨hnew, h.large.trans hlarge, hsmall, ?_⟩, hnew⟩
  have hsame := Mem.read_write_same b.buf (newbufsize - (path.length + 1)) (path ++ [0])
  rwa [List.length_append, List.length_singleton] at hsame

/-- A name is put in front of the path, or there is no memory for it.  What is
    asked for must be less than 4 GiB. -/
theorem addName_has (heap : PathHeap) (h : b.Has path) (hfits : path.length + name.length + 2 < 2 ^ 32) :
    (∃ b', addName heap b name = .ok (some b') ∧ b'.Has (slash :: name ++ path)) ∨
      addName heap b name = .ok none ∧ ∃ size, heap.has size = false := by
  have hend := h.end_
  by_cases hfull : b.s ≤ name.length
  case neg =>
      obtain ⟨b', hstore, hhas⟩ := store_has h name (not_le.mp hfull)
      rw [addName, if_neg hfull, hstore]
      exact .inl ⟨b', rfl, hhas⟩
  case pos =>
  have hlen : subUnsigned b.bufsize b.s = path.length + 1 := by
    have hlt := h.small
    unfold subUnsigned
    omega
  have hlarge := h.large
  obtain ⟨size, hgrow, henough, hge, hlt⟩ :=
    @growSize_spec 32 b.bufsize (path.length + 1 + name.length + 1) (by omega) h.small (by omega)
  rw [addName, if_pos hfull, hlen, hgrow]
  cases hmem : heap.has size with
  | false => exact .inr ⟨if_neg (by simp [hmem]), size, hmem⟩
  | true =>
      obtain ⟨b₁, hmove, hhas₁, hs₁⟩ := moveTo_has h hge hlt
      obtain ⟨b', hstore, hhas⟩ := store_has hhas₁ name (by omega)
      refine .inl ⟨b', ?_, hhas⟩
      show (if heap.has size = true then _ else _) = _
      rw [if_pos hmem, hmove]
      show (do return some (← b₁.store name)) = _
      rw [hstore]
      rfl

/-- A size of 4 GiB is never found. -/
theorem growSize_endless {fuel newsize minsize : Nat} (hnew : newsize < 2 ^ 32)
    (hmin : 2 ^ 32 ≤ minsize) : growSize fuel newsize minsize = none := by
  induction fuel generalizing newsize with
  | zero => rfl
  | succ fuel ih =>
      rw [growSize, if_pos (hnew.trans_le hmin)]
      apply ih
      split <;> omega

theorem addName_endless (h : b.Has path) (hlong : 2 ^ 32 ≤ path.length + name.length + 2) :
    addName heap b name = .error .endless := by
  have hend := h.end_
  have hlt := h.small
  have hlen : subUnsigned b.bufsize b.s = path.length + 1 := by
    unfold subUnsigned
    omega
  rw [addName, if_pos (by omega), hlen, growSize_endless hlt (by omega)]

/-- What is in the buffer at the end is the path of the names. -/
theorem finish_has (h : b.Has (slashed names)) (hnul : ∀ name ∈ names, (0 : UInt8) ∉ name) :
    b.finish = some (pathString names) := by
  have hend := h.end_
  have hbytes : b.buf.read 0 b.bufsize = b.buf.read 0 b.s ++ (slashed names ++ [0]) := by
    rw [← hend, Nat.add_assoc, Mem.read_add, Nat.zero_add, h.string]
  have hfront : (b.buf.read 0 b.s).length = b.s := Mem.length_read ..
  have hfirst : (b.buf.read 0 b.s ++ (slashed names ++ [0])).getD b.s 0 =
      (slashed names ++ [0]).getD 0 0 := by
    rw [List.getD_append_right _ _ _ _ (by omega), hfront, Nat.sub_self]
  rw [PathBuf.finish, hbytes, hfirst, pathString_eq]
  cases names with
  | nil =>
      have hlen : [slash, 0].length ≤ (b.buf.read 0 b.s ++ (slashed [] ++ [0])).length := by
        rw [List.length_append, hfront]
        show 2 ≤ b.s + (0 + 1)
        have hlarge := h.large
        have hat : b.s + 0 + 1 = b.bufsize := hend
        omega
      rw [if_neg (by simp [slashed]), memcpyTo, if_pos hlen, if_pos rfl]
      exact stringIn_append (by decide : (0 : UInt8) ∉ [slash])
  | cons name rest =>
      have hslash : slashed (name :: rest) = slash :: (name ++ slashed rest) := rfl
      have hfree : (0 : UInt8) ∉ slashed (name :: rest) := by
        rw [slashed, List.mem_flatMap]
        rintro ⟨n, hn, hmem⟩
        rcases List.mem_cons.mp hmem with hzero | hmem
        · exact absurd hzero (by decide)
        · exact hnul n hn hmem
      have hne : (slashed (name :: rest) ++ [0]).getD 0 0 ≠ 0 := by
        rw [hslash]
        show slash ≠ 0
        decide
      have hsize : b.bufsize - b.s = (slashed (name :: rest) ++ [0]).length := by
        rw [List.length_append]
        show _ = _ + 1
        omega
      have hmoved : b.s + (b.bufsize - b.s) ≤
          (b.buf.read 0 b.s ++ (slashed (name :: rest) ++ [0])).length := by
        simp only [hsize, List.length_append, hfront, le_refl]
      rw [if_pos hne, memmoveToFront, if_pos hmoved, Option.bind_some, if_neg (List.cons_ne_nil _ _)]
      have hdrop : (b.buf.read 0 b.s ++ (slashed (name :: rest) ++ [0])).drop b.s =
          slashed (name :: rest) ++ [0] := List.drop_left' hfront
      rw [hdrop, hsize, List.take_length, List.append_assoc]
      exact stringIn_append hfree

end Buffer

end FuseNt
