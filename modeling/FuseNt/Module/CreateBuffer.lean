/-
  FuseNt.Module.CreateBuffer

  The path of a create request in the buffers that `fusent_do_create` and
  `fusent_get_inode` have for it.

  `createCall` says what a create request comes down to.  Here the same code
  works on buffers that have an end: a result of `none` is an access behind one
  of them.  `iconv`, which is opened with `UTF-8//IGNORE`, is given room for 255
  bytes, and the path is a string only if its NUL is among them.
-/

import FuseNt.Lib.Utf
import FuseNt.Module.ParentInode

namespace FuseNt

open FuseNt.Lib

-- ============================================================================
-- The buffers
-- ============================================================================

def sizeofFuseCreateIn : Nat := 16
def sizeofFuseOpenIn : Nat := 8

/-- The bytes of `stbuf` from `outbuf2` on. -/
def pathRoom (creates : Bool) : Nat :=
  fusentMaxPath + max sizeofFuseCreateIn sizeofFuseOpenIn -
    if creates then sizeofFuseCreateIn else sizeofFuseOpenIn

/-- What the buffers hold before the path is stored in them: `stbuf` from
    `outbuf2` on, and `path` on the stack of `fusent_get_inode`. -/
structure PathMem (creates : Bool) where
  block : List UInt8
  stack : List UInt8
  block_length : block.length = pathRoom creates
  stack_length : stack.length = fusentMaxPath + 3

/-- The path of a create request in UTF-8 with slashes: what is stored at
    `outbuf2`, and `utf8len`. -/
def decodedPath (iconv : Utf16Converter) (fname : List UInt8) : List UInt8 × Nat :=
  fusentConvertWinPath (iconv.convert (fusentMaxPath - 1) fname)

/-- `!strncmp(outbuf2, "/", utf8len)`. -/
def isRootPath (iconv : Utf16Converter) (fname : List UInt8) : Bool :=
  strncmpEq (decodedPath iconv fname).2 (decodedPath iconv fname).1 [slash]

/-- What the path handling of `fusent_do_create` leads to: the reply for the
    root, `ENOENT`, or a call, with `basename` as an offset into the block. -/
inductive CreateEnd where
  | root
  | noEnt
  | call (c : LlCall) (basename : Nat) (block : List UInt8)

section Create

variable {σ : Type} (env : Env σ)

/-- `fusent_get_parent_inode` is called with nothing armed. -/
def walkFrom (s : σ) (path : List UInt8) : Walking σ :=
  ⟨path, ⟨false, false, 0⟩, env.header s, env.memory s, s, []⟩

/-- `basename` and `par_inode` or `inode` before they are set. -/
def freshName (s : σ) : Nat := (env.memory s).readLe 0 8
def freshInode (s : σ) : Nat := (env.memory s).readLe 8 4

/-- The end of the `CREATE` path, with the result of `fusent_get_parent_inode`
    and the length that `iconv` has returned. -/
def createInParent (options length : Nat) :
    (Int × Nat × Nat) × Walking σ → Option (CreateEnd × σ)
  | ((res, basename, parent), w) =>
      if res < 0 then
        -- the message prints the path
        (strlen w.path).map fun _ => (.noEnt, w.fs)
      else
        let n := (length + 2 ^ 64 - basename) % 2 ^ 64
        (memmoveToFront w.path basename n).bind fun moved =>
        (storeByte moved n 0).bind fun block =>
        (strlen block).map fun len =>
          (.call (.create parent (block.take len) ((env.memory w.fs).readLe 4 4)
            (createFuseFlags options)) basename block, w.fs)

/-- `path` in `fusent_get_inode`: the string `fn` with "/a" appended. -/
def appendFake (stack fn : List UInt8) : Option (List UInt8) :=
  (strlen fn).bind fun sl =>
  (memcpyTo stack (fn.take sl)).bind fun path =>
  (storeByte path sl slash).bind fun path =>
  (storeByte path (sl + 1) 0x61).bind fun path =>
  storeByte path (sl + 2) 0

/-- The end of the `OPEN` path, with the result of `fusent_get_parent_inode`
    for `path`.  The offset in `path` is used for `outbuf2`. -/
def openInode (options : Nat) (block : List UInt8) :
    (Int × Nat × Nat) × Walking σ → Option (CreateEnd × σ)
  | ((res, basename, inode), w) =>
      (strlen block).map fun _ =>
        if res < 0 then (.noEnt, w.fs)
        else (.call (.openFile inode (createFuseFlags options)) basename block, w.fs)

/-- The path handling of `fusent_do_create`, up to the call. -/
def createOnBuffers (iconv : Utf16Converter) (s : σ) (options : Nat) (m : PathMem (createsFile options)) (fname : List UInt8)
    (fuel : Nat) : Option (CreateEnd × σ) :=
  (memcpyTo m.block (decodedPath iconv fname).1).bind fun block =>
  if strncmpEq (decodedPath iconv fname).2 block [slash] then some (.root, s)
  else if createsFile options then
    (walkToParent env fuel (freshName env s) (freshInode env s) (walkFrom env s block)).bind
      (createInParent env options (decodedPath iconv fname).1.length)
  else
    (appendFake m.stack block).bind fun path =>
    (walkToParent env fuel (freshName env s) (freshInode env s) (walkFrom env s path)).bind
      (openInode options block)

end Create

-- ============================================================================
-- The decoded path
-- ============================================================================

section Convert

variable {buf : List UInt8}

/-- A drive has no NUL, and what is left of it behind the path has one only if
    the path has. -/
theorem nul_mem_fusentConvertWinPath : 0 ∈ (fusentConvertWinPath buf).1 ↔ 0 ∈ buf := by
  have hmap : 0 ∈ buf.map (fun b => if b = 0x5c then slash else b) ↔ 0 ∈ buf := by
    simp only [List.mem_map]
    constructor
    · rintro ⟨b, hb, hzero⟩
      split at hzero
      case isTrue => exact absurd hzero (by decide)
      case isFalse =>
          rw [← hzero]
          exact hb
    · intro hb
      exact ⟨0, hb, by decide⟩
  rw [← hmap]
  unfold fusentConvertWinPath
  dsimp only
  generalize buf.map (fun b => if b = 0x5c then slash else b) = units
  split
  case isFalse => exact Iff.rfl
  case isTrue hdrive =>
      match units, hdrive with
      | a :: b :: rest, ⟨_, halpha, hcolon⟩ =>
          have ha : ¬ (0 : UInt8) = a := by
            rintro rfl
            have hzero : isAlpha 0 = true := halpha
            exact absurd hzero (by decide)
          have hb : ¬ (0 : UInt8) = b := by
            rintro rfl
            have hzero : (0 : UInt8) = 0x3a := hcolon
            exact absurd hzero (by decide)
          have hdrop : ∀ n, 0 ∈ (a :: b :: rest).drop n → 0 ∈ rest := by
            intro n hn
            have hmem := List.mem_of_mem_drop hn
            simpa only [List.mem_cons, ha, hb, false_or] using hmem
          simp only [List.mem_append, List.mem_cons, ha, hb, false_or]
          constructor
          · rintro (h | h)
            · exact hdrop 2 h
            · exact hdrop _ h
          · exact fun h => .inl h

end Convert

/-- What `iconv` writes in the room that it is given has a NUL. -/
def TerminatedPath (iconv : Utf16Converter) (fname : List UInt8) : Prop :=
  0 ∈ iconv.convert (fusentMaxPath - 1) fname

theorem nul_mem_decodedPath {iconv : Utf16Converter} {fname : List UInt8} :
    0 ∈ (decodedPath iconv fname).1 ↔ TerminatedPath iconv fname :=
  nul_mem_fusentConvertWinPath

/-- That is so for a text with a NUL if the text fits in front of the NUL. -/
theorem terminatedPath_text (iconv : Utf16Converter) {text : List Char} (h : Char.ofNat 0 ∉ text)
    (rest : List UInt8) : TerminatedPath iconv (utf16le text ++ 0 :: 0 :: rest) ↔
      (utf8 text).length < fusentMaxPath - 1 := iconv.nul_mem_iff h

theorem length_decodedPath (iconv : Utf16Converter) (fname : List UInt8) :
    (decodedPath iconv fname).1.length ≤ fusentMaxPath - 1 ∧
      (decodedPath iconv fname).2 ≤ (decodedPath iconv fname).1.length := by
  have hconv := length_fusentConvertWinPath (iconv.convert (fusentMaxPath - 1) fname)
  have hlen := iconv.length_le (fusentMaxPath - 1) fname
  simp only [decodedPath]
  omega

/-- The block with the path in it. -/
def PathMem.filled {creates : Bool} (m : PathMem creates) (iconv : Utf16Converter) (fname : List UInt8) : List UInt8 :=
  (decodedPath iconv fname).1 ++ m.block.drop (decodedPath iconv fname).1.length

section Filled

variable {creates : Bool} (m : PathMem creates) (iconv : Utf16Converter) (fname : List UInt8)

theorem pathRoom_ge (creates : Bool) : fusentMaxPath ≤ pathRoom creates := by
  cases creates <;> decide

theorem PathMem.length_le_block : (decodedPath iconv fname).1.length < m.block.length := by
  have hlen := (length_decodedPath iconv fname).1
  have hroom := pathRoom_ge creates
  rw [m.block_length]
  have : fusentMaxPath = 256 := rfl
  omega

theorem PathMem.memcpyTo_block : memcpyTo m.block (decodedPath iconv fname).1 = some (m.filled iconv fname) :=
  if_pos (Nat.le_of_lt (m.length_le_block iconv fname))

theorem PathMem.length_filled : (m.filled iconv fname).length = m.block.length := by
  have hlt := m.length_le_block iconv fname
  rw [filled, List.length_append, List.length_drop]
  omega

theorem PathMem.strncmpEq_filled :
    strncmpEq (decodedPath iconv fname).2 (m.filled iconv fname) [slash] = isRootPath iconv fname :=
  strncmpEq_append _ _ (length_decodedPath iconv fname).2

end Filled

-- ============================================================================
-- Runs
-- ============================================================================

section Runs

variable {σ : Type} {env : Env σ} {lookup : σ → Nat → List UInt8 → LookupReply × σ} {options : Nat}
  {m : PathMem (createsFile options)} {iconv : Utf16Converter} {fname p post : List UInt8}

theorem createOnBuffers_eq (s : σ) (hroot : isRootPath iconv fname = false) (fuel : Nat) :
    createOnBuffers env iconv s options m fname fuel =
      if createsFile options then
        (walkToParent env fuel (freshName env s) (freshInode env s)
          (walkFrom env s (m.filled iconv fname))).bind
            (createInParent env options (decodedPath iconv fname).1.length)
      else
        (appendFake m.stack (m.filled iconv fname)).bind fun path =>
        (walkToParent env fuel (freshName env s) (freshInode env s) (walkFrom env s path)).bind
          (openInode options (m.filled iconv fname)) := by
  rw [createOnBuffers, m.memcpyTo_block, Option.bind_some, m.strncmpEq_filled, hroot]
  rfl

theorem createOnBuffers_root (s : σ) (hroot : isRootPath iconv fname = true) :
    Settles (createOnBuffers env iconv s options m fname) (.root, s) := by
  refine ⟨0, fun fuel _ => ?_⟩
  rw [createOnBuffers, m.memcpyTo_block, Option.bind_some, m.strncmpEq_filled, hroot]
  rfl

/-- If the path is not a string in its block, the handler leaves the block. -/
theorem createOnBuffers_none (h : env.implements .lookup = true → AnswersLookup env lookup) (s : σ)
    (hroot : isRootPath iconv fname = false) (hnul : 0 ∉ m.filled iconv fname) (fuel : Nat) :
    createOnBuffers env iconv s options m fname fuel = none := by
  rw [createOnBuffers_eq s hroot]
  split
  case isTrue =>
      rw [Option.bind_eq_none_iff]
      rintro ⟨⟨res, off, i⟩, w⟩ hrun
      obtain ⟨hpath, hfound⟩ := walkToParent_nul h hrun
      have hneg : res < 0 := by
        by_contra hnot
        exact hnul (hfound (Int.not_lt.mp hnot))
      rw [createInParent, if_pos hneg, hpath]
      exact Option.map_eq_none_iff.mpr (strlen_eq_none hnul)
  case isFalse => rw [appendFake, strlen_eq_none hnul, Option.bind_none, Option.bind_none]

theorem PathMem.take_drop_filled {off : Nat} (hoff : off ≤ (decodedPath iconv fname).1.length) :
    ((m.filled iconv fname).drop off).take ((decodedPath iconv fname).1.length - off) =
      (decodedPath iconv fname).1.drop off := by
  rw [filled, List.drop_append_of_le_length hoff]
  exact List.take_left' (List.length_drop ..)

theorem drop_dir (dir last post : List UInt8) :
    ((dir ++ slash :: last) ++ 0 :: post).drop (dir.length + 1) = last ++ 0 :: post := by
  rw [List.append_assoc, List.cons_append, List.drop_append]
  simp

/-- The block after the name from `off` on was moved to its front. -/
def PathMem.moved (m : PathMem (createsFile options)) (iconv : Utf16Converter) (fname : List UInt8) (off : Nat) :
    List UInt8 :=
  (decodedPath iconv fname).1.drop off ++
    0 :: (m.filled iconv fname).drop ((decodedPath iconv fname).1.length - off + 1)

theorem createInParent_moved {dir last : List UInt8} {i : Nat} {w : Walking σ}
    (hdec : (decodedPath iconv fname).1 = (dir ++ slash :: last) ++ 0 :: post) (hlast : 0 ∉ last)
    (hpath : w.path = m.filled iconv fname) :
    createInParent env options (decodedPath iconv fname).1.length ((0, dir.length + 1, i), w) =
      some (.call (.create i last ((env.memory w.fs).readLe 4 4) (createFuseFlags options))
        (dir.length + 1) (m.moved iconv fname (dir.length + 1)), w.fs) := by
  have hblock := m.length_le_block iconv fname
  have hfilled := m.length_filled iconv fname
  have hoff : dir.length + 1 < (decodedPath iconv fname).1.length := by
    simp only [hdec, List.length_append, List.length_cons]
    omega
  have hmax := (length_decodedPath iconv fname).1
  have hsize : ((decodedPath iconv fname).1.length + 2 ^ 64 - (dir.length + 1)) % 2 ^ 64 =
      (decodedPath iconv fname).1.length - (dir.length + 1) := by
    have hsmall : fusentMaxPath = 256 := rfl
    omega
  have hmove := memmoveToFront_storeByte
    (show dir.length + 1 + ((decodedPath iconv fname).1.length - (dir.length + 1)) ≤
      (m.filled iconv fname).length by omega)
    (show (decodedPath iconv fname).1.length - (dir.length + 1) < (m.filled iconv fname).length by omega)
  have hname : (decodedPath iconv fname).1.drop (dir.length + 1) = last ++ 0 :: post := by
    rw [hdec, drop_dir]
  rw [PathMem.take_drop_filled (Nat.le_of_lt hoff)] at hmove
  rw [createInParent, if_neg (by decide), hpath]
  dsimp only
  rw [hsize, ← Option.bind_assoc, hmove, Option.bind_some, ← PathMem.moved]
  have hstr : strlen (m.moved iconv fname (dir.length + 1)) = some last.length := by
    rw [PathMem.moved, hname, List.append_assoc]
    exact strlen_append hlast
  have htake : (m.moved iconv fname (dir.length + 1)).take last.length = last := by
    rw [PathMem.moved, hname, List.append_assoc, List.take_left]
  rw [hstr, Option.map_some, htake]

/-- `path` has room for every path that is a string within the bytes that
    `iconv` may write. -/
theorem appendFake_eq {stack : List UInt8} (post : List UInt8) (hp : 0 ∉ p)
    (hroom : p.length + 3 ≤ stack.length) :
    appendFake stack (p ++ 0 :: post) =
      some ((p ++ [slash, 0x61]) ++ 0 :: stack.drop (p.length + 3)) := by
  obtain ⟨a, b, c, rest, hrest⟩ : ∃ a b c rest, stack.drop p.length = a :: b :: c :: rest := by
    match hdrop : stack.drop p.length with
    | a :: b :: c :: rest => exact ⟨a, b, c, rest, rfl⟩
    | [] | [_] | [_, _] =>
        have hlen := congrArg List.length hdrop
        simp only [List.length_drop, List.length_cons, List.length_nil] at hlen
        omega
  have hmore : stack.drop (p.length + 3) = rest := by
    rw [← List.drop_drop, hrest]
    rfl
  have hcopy : memcpyTo stack p = some (p ++ a :: b :: c :: rest) := by
    rw [memcpyTo, if_pos (by omega), hrest]
  have hsecond : storeByte (p ++ slash :: b :: c :: rest) (p.length + 1) 0x61 =
      some (p ++ slash :: 0x61 :: c :: rest) := by
    have h := storeByte_append (p ++ [slash]) (c :: rest) 0x61 b
    simpa using h
  have hthird : storeByte (p ++ slash :: 0x61 :: c :: rest) (p.length + 2) 0 =
      some (p ++ slash :: 0x61 :: 0 :: rest) := by
    have h := storeByte_append (p ++ [slash, 0x61]) rest 0 c
    simpa using h
  rw [appendFake, strlen_append hp, Option.bind_some, List.take_left, hcopy, Option.bind_some,
    storeByte_append, Option.bind_some, hsecond, Option.bind_some, hthird, hmore]
  simp

section Terminated

variable (h : env.implements .lookup = true → AnswersLookup env lookup) (s : σ)
  (hroot : isRootPath iconv fname = false) (hp : 0 ∉ p) (hdec : (decodedPath iconv fname).1 = p ++ 0 :: post)

include hdec in
theorem PathMem.filled_eq : m.filled iconv fname =
    p ++ 0 :: (post ++ m.block.drop (decodedPath iconv fname).1.length) := by
  rw [filled, hdec]
  simp only [List.append_assoc, List.cons_append]

include h hroot hp hdec

/-- The `CREATE` path ends within the block. -/
theorem createOnBuffers_create (hcreates : createsFile options = true) :
    let r := fusentGetParentInode env s p (freshName env s) (freshInode env s)
    r.1.1 < 0 ∧ Refuses env lookup s p ∧
        Settles (createOnBuffers env iconv s options m fname) (.noEnt, r.2) ∨
      p.head? = some slash ∧ ∃ dir last i, p = dir ++ slash :: last ∧ slash ∉ last ∧
        r.1 = (0, dir.length + 1, i) ∧
        Settles (createOnBuffers env iconv s options m fname)
          (.call (.create i last ((env.memory r.2).readLe 4 4) (createFuseFlags options))
            (dir.length + 1) (m.moved iconv fname (dir.length + 1)), r.2) := by
  have hrun : createOnBuffers env iconv s options m fname = fun fuel =>
      (walkToParent env fuel (freshName env s) (freshInode env s)
        (walkFrom env s (m.filled iconv fname))).bind
          (createInParent env options (decodedPath iconv fname).1.length) := by
    funext fuel
    rw [createOnBuffers_eq s hroot, if_pos hcreates]
  have hfilled := PathMem.filled_eq (m := m) hdec
  obtain ⟨w, hwalk, hfs, hrestored⟩ := walkToParent_refines env (freshName env s)
    (freshInode env s) (w := walkFrom env s (m.filled iconv fname)) ⟨rfl, rfl⟩ hp hfilled
  have hends := fusentGetParentInode_ends h s (freshName env s) (freshInode env s) hp
  have hpath : w.path = m.filled iconv fname := hrestored.path
  dsimp only [walkFrom] at hwalk hfs hends ⊢
  generalize fusentGetParentInode env s p (freshName env s) (freshInode env s) = r
    at hwalk hfs hends ⊢
  obtain ⟨⟨res, off, i⟩, s'⟩ := r
  obtain rfl : w.fs = s' := hfs
  rw [hrun]
  rcases hends with ⟨hneg, hrefuses⟩ | ⟨hhead, dir, last, i, rfl, hlast, heq⟩
  · refine .inl ⟨hneg, hrefuses, hwalk.bind ?_⟩
    have hstr : strlen w.path = some p.length := by
      rw [hpath, hfilled]
      exact strlen_append hp
    rw [createInParent, if_pos hneg, hstr, Option.map_some]
  · cases heq
    have hnul : 0 ∉ last := fun hmem => hp (by simp [hmem])
    exact .inr ⟨hhead, dir, last, i, rfl, hlast, rfl, hwalk.bind (createInParent_moved hdec hnul hpath)⟩

/-- The `OPEN` path ends within the block and the buffer on the stack. -/
theorem createOnBuffers_open (hopens : createsFile options = false) :
    let r := fusentGetParentInode env s (p ++ [slash, 0x61]) (freshName env s) (freshInode env s)
    r.1.1 < 0 ∧ Refuses env lookup s (p ++ [slash, 0x61]) ∧
        Settles (createOnBuffers env iconv s options m fname) (.noEnt, r.2) ∨
      (p ++ [slash, 0x61]).head? = some slash ∧ ∃ i, r.1 = (0, p.length + 1, i) ∧
        Settles (createOnBuffers env iconv s options m fname)
          (.call (.openFile i (createFuseFlags options)) (p.length + 1) (m.filled iconv fname), r.2) := by
  have hfilled := PathMem.filled_eq (m := m) hdec
  have hroom : p.length + 3 ≤ m.stack.length := by
    have hmax := (length_decodedPath iconv fname).1
    rw [hdec, List.length_append, List.length_cons] at hmax
    rw [m.stack_length]
    omega
  have hfake := appendFake_eq (post ++ m.block.drop (decodedPath iconv fname).1.length) hp hroom
  rw [← hfilled] at hfake
  have hrun : createOnBuffers env iconv s options m fname = fun fuel =>
      (walkToParent env fuel (freshName env s) (freshInode env s)
        (walkFrom env s ((p ++ [slash, 0x61]) ++ 0 :: m.stack.drop (p.length + 3)))).bind
          (openInode options (m.filled iconv fname)) := by
    funext fuel
    rw [createOnBuffers_eq s hroot, if_neg (by simp [hopens]), hfake, Option.bind_some]
  have hp' : 0 ∉ p ++ [slash, 0x61] := by
    rw [List.mem_append, not_or]
    exact ⟨hp, by decide⟩
  obtain ⟨w, hwalk, hfs, -⟩ := walkToParent_refines env (freshName env s) (freshInode env s)
    (w := walkFrom env s ((p ++ [slash, 0x61]) ++ 0 :: m.stack.drop (p.length + 3)))
    ⟨rfl, rfl⟩ hp' rfl
  have hends := fusentGetParentInode_ends h s (freshName env s) (freshInode env s) hp'
  have hstr : strlen (m.filled iconv fname) = some p.length := by
    rw [hfilled]
    exact strlen_append hp
  dsimp only [walkFrom] at hwalk hfs hends ⊢
  generalize fusentGetParentInode env s (p ++ [slash, 0x61]) (freshName env s) (freshInode env s) = r
    at hwalk hfs hends ⊢
  obtain ⟨⟨res, off, i⟩, s'⟩ := r
  obtain rfl : w.fs = s' := hfs
  rw [hrun]
  rcases hends with ⟨hneg, hrefuses⟩ | ⟨hhead, dir, last, i, hdir, hlast, heq⟩
  · refine .inl ⟨hneg, hrefuses, hwalk.bind ?_⟩
    rw [openInode, hstr, Option.map_some, if_pos hneg]
  · -- the part behind the last slash is the "a"
    obtain ⟨rfl, -⟩ := dir_unique (show p ++ slash :: [0x61] = dir ++ slash :: last from hdir)
      (by decide) hlast
    cases heq
    refine .inr ⟨hhead, i, rfl, hwalk.bind ?_⟩
    rw [openInode, hstr, Option.map_some, if_neg (by decide)]

end Terminated

end Runs

-- ============================================================================
-- The calls of createCall
-- ============================================================================

/-- The call and the basename, as `createCall` has them. -/
def CreateEnd.outcome : CreateEnd → Option (LlCall × List UInt8)
  | .call c basename block => some (c, cString (block.drop basename))
  | _ => none

section Refines

variable {σ : Type} {env : Env σ} {lookup : σ → Nat → List UInt8 → LookupReply × σ} {options : Nat}
  {m : PathMem (createsFile options)} {iconv : Utf16Converter} {fname : List UInt8}

/-- For a path that is a string, the buffers hold what `createCall` says. -/
theorem createOnBuffers_refines (h : env.implements .lookup = true → AnswersLookup env lookup) (s : σ)
    {ntreq : Mem} (hpath : createPath env ntreq = decodedPath iconv fname)
    (hslack : env.slack s = m.block.drop (decodedPath iconv fname).1.length)
    (hroot : isRootPath iconv fname = false) (hnul : 0 ∈ (decodedPath iconv fname).1) :
    ∃ r s', Settles (createOnBuffers env iconv s options m fname) (r, s') ∧
      createCall env s ntreq options = (r.outcome, s') := by
  obtain ⟨p, post, hdec, hp⟩ := List.eq_append_cons_of_mem hnul
  have hstring : cString (m.filled iconv fname) = p := by
    rw [PathMem.filled_eq hdec]
    exact cString_append hp
  have hfilled : (createPath env ntreq).1 ++ env.slack s = m.filled iconv fname := by
    rw [hpath, hslack, PathMem.filled]
  unfold createCall
  dsimp only
  rw [hfilled, hstring]
  rcases Bool.eq_false_or_eq_true (createsFile options) with hcreates | hopens
  · rw [if_pos hcreates]
    have hend := createOnBuffers_create (m := m) h s hroot hp hdec hcreates
    unfold freshName freshInode at hend
    rcases hend with ⟨hneg, -, hrun⟩ | ⟨-, dir, last, i, rfl, -, heq, hrun⟩
    · refine ⟨_, _, hrun, ?_⟩
      rw [if_pos hneg]
      rfl
    · refine ⟨_, _, hrun, ?_⟩
      have hoff : dir.length + 1 ≤ (decodedPath iconv fname).1.length := by
        simp only [hdec, List.length_append, List.length_cons]
        omega
      have hnulLast : 0 ∉ last := fun hmem => hp (by simp [hmem])
      have hmoved : ((decodedPath iconv fname).1.drop (dir.length + 1) ++ [0]) ++ (m.filled iconv fname).drop
          ((decodedPath iconv fname).1.drop (dir.length + 1) ++ [0]).length =
            m.moved iconv fname (dir.length + 1) := by
        rw [PathMem.moved, List.length_append, List.length_drop, List.append_assoc]
        rfl
      have hname : cString (m.moved iconv fname (dir.length + 1)) = last := by
        rw [PathMem.moved, hdec, drop_dir, List.append_assoc]
        exact cString_append hnulLast
      simp only [heq, hpath, PathMem.take_drop_filled hoff, hmoved, hname]
      rfl
  · rw [if_neg (by simp [hopens]), fusentGetInode]
    have hend := createOnBuffers_open (m := m) h s hroot hp hdec hopens
    unfold freshName freshInode at hend
    rcases hend with ⟨hneg, -, hrun⟩ | ⟨-, i, heq, hrun⟩
    · refine ⟨_, _, hrun, ?_⟩
      dsimp only
      rw [if_pos hneg]
      rfl
    · refine ⟨_, _, hrun, ?_⟩
      simp only [heq]
      rfl

end Refines

-- ============================================================================
-- When the path stays within its buffers
-- ============================================================================

/-- Whatever the file system replies to lookups and whatever was in memory: the
    path handling comes to an end without an access outside the buffers, and
    the path is a string in its block unless it is the root. -/
def PathInBounds (iconv : Utf16Converter) (options : Nat) (fname : List UInt8) : Prop :=
  ∀ (σ : Type) (env : Env σ) (lookup : σ → Nat → List UInt8 → LookupReply × σ),
    (env.implements .lookup = true → AnswersLookup env lookup) →
    ∀ (s : σ) (m : PathMem (createsFile options)),
      ∃ r, Settles (createOnBuffers env iconv s options m fname) r ∧ (r.1 = .root ∨ 0 ∈ m.filled iconv fname)

/-- Memory without a NUL. -/
def PathMem.ones (creates : Bool) : PathMem creates where
  block := List.replicate (pathRoom creates) 1
  stack := List.replicate (fusentMaxPath + 3) 1
  block_length := List.length_replicate
  stack_length := List.length_replicate

theorem PathMem.nul_notMem_block (creates : Bool) (n : Nat) : 0 ∉ (ones creates).block.drop n := by
  intro hmem
  have hone := List.eq_of_mem_replicate (List.mem_of_mem_drop hmem)
  exact absurd hone (by decide)

theorem PathMem.nul_notMem_ones (creates : Bool) {iconv : Utf16Converter} {fname : List UInt8}
    (h : 0 ∉ (decodedPath iconv fname).1) : 0 ∉ (ones creates).filled iconv fname := by
  rw [filled, List.mem_append, not_or]
  exact ⟨h, nul_notMem_block _ _⟩

theorem lookupEnv_answers : AnswersLookup lookupEnv sampleLookup := ⟨rfl, fun _ _ _ => rfl⟩

theorem pathInBounds_iff_nul {iconv : Utf16Converter} {options : Nat} {fname : List UInt8} :
    PathInBounds iconv options fname ↔ isRootPath iconv fname = true ∨ 0 ∈ (decodedPath iconv fname).1 := by
  constructor
  · intro h
    by_contra hno
    rw [not_or, Bool.not_eq_true] at hno
    obtain ⟨r, ⟨n, hrun⟩, -⟩ := h Nat lookupEnv sampleLookup (fun _ => lookupEnv_answers) 0 (.ones _)
    have hnone := createOnBuffers_none (fun _ => lookupEnv_answers) 0 hno.1
      (PathMem.nul_notMem_ones (createsFile options) hno.2) n
    rw [hrun n (Nat.le_refl _)] at hnone
    cases hnone
  · intro h σ env lookup hlookup s m
    cases hroot : isRootPath iconv fname with
    | true => exact ⟨(.root, s), createOnBuffers_root s hroot, .inl rfl⟩
    | false =>
        have hmem : 0 ∈ (decodedPath iconv fname).1 := h.resolve_left (by simp [hroot])
        obtain ⟨p, post, hdec, hp⟩ := List.eq_append_cons_of_mem hmem
        have hfilled : 0 ∈ m.filled iconv fname := List.mem_append_left _ hmem
        rcases Bool.eq_false_or_eq_true (createsFile options) with hcreates | hopens
        · rcases createOnBuffers_create hlookup s hroot hp hdec hcreates with
            ⟨-, -, hrun⟩ | ⟨-, dir, last, i, -, -, -, hrun⟩
          · exact ⟨_, hrun, .inr hfilled⟩
          · exact ⟨_, hrun, .inr hfilled⟩
        · rcases createOnBuffers_open hlookup s hroot hp hdec hopens with
            ⟨-, -, hrun⟩ | ⟨-, i, -, hrun⟩
          · exact ⟨_, hrun, .inr hfilled⟩
          · exact ⟨_, hrun, .inr hfilled⟩

/-- Create requests stay within their buffers exactly if they are for the root,
    or what `iconv` makes of the path has a NUL before the room for it ends. -/
theorem create_path_in_bounds_iff (iconv : Utf16Converter) (options : Nat) (fname : List UInt8) :
    PathInBounds iconv options fname ↔
      isRootPath iconv fname = true ∨ TerminatedPath iconv fname := by
  rw [pathInBounds_iff_nul, nul_mem_decodedPath]

/-- A path of 86 characters that takes 256 bytes in UTF-8. -/
def longPath : List UInt8 :=
  utf16le (Char.ofNat 0x5c :: List.replicate 85 (Char.ofNat 0x20ac)) ++ [0, 0]

/-- It is neither opened nor created within the buffers. -/
theorem create_path_out_of_bounds :
    ¬ PathInBounds leavingOut (fileOpen * 2 ^ 24) longPath ∧
      ¬ PathInBounds leavingOut (fileCreate * 2 ^ 24) longPath := by
  have hlong : ¬ (isRootPath leavingOut longPath = true ∨ 0 ∈ (decodedPath leavingOut longPath).1) := by
    decide +kernel
  exact ⟨fun h => hlong (pathInBounds_iff_nul.mp h), fun h => hlong (pathInBounds_iff_nul.mp h)⟩

end FuseNt
