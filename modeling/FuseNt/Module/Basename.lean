/-
  FuseNt.Module.Basename

  The basename that `fusent_do_create` records for a handle.

  `basename` is a pointer into the block of the path.  On the `OPEN` path it is
  the place of the "a" that `fusent_get_inode` has appended to its own copy, one
  behind the end of the string in the block.  On the `CREATE` path the name is
  moved to the front of the block after the pointer was set, and may be moved
  over itself.
-/

import FuseNt.Module.CreateBuffer
import Mathlib.Data.List.TakeWhile

namespace FuseNt

open FuseNt.Lib

-- ============================================================================
-- The last component
-- ============================================================================

/-- The path of a create request. -/
def pathText (iconv : Utf16Converter) (fname : List UInt8) : List UInt8 := cString (decodedPath iconv fname).1

/-- What comes behind the last slash of a path. -/
def lastComponent (p : List UInt8) : List UInt8 := (p.splitOn slash).getLastD []

/-- The place of the last component. -/
def lastPlace (p : List UInt8) : Nat := p.length - (lastComponent p).length

theorem lastComponent_append {dir last : List UInt8} (h : slash ∉ last) :
    lastComponent (dir ++ slash :: last) = last := by
  rw [lastComponent, List.splitOn_append_cons_self, List.splitOn_eq_singleton h,
    List.getLastD_concat]

theorem nul_notMem_lastComponent {p : List UInt8} (h : 0 ∉ p) : 0 ∉ lastComponent p := by
  obtain ⟨init, last, hparts⟩ : ∃ init last, p.splitOn slash = init ++ [last] :=
    (List.eq_nil_or_concat' _).resolve_left (List.splitOn_ne_nil slash p)
  have hlast : Component last := component_of_mem_splitOn h (by rw [hparts]; simp)
  rw [lastComponent, hparts, List.getLastD_concat]
  exact hlast.1

theorem lastPlace_append {dir last : List UInt8} (h : slash ∉ last) :
    lastPlace (dir ++ slash :: last) = dir.length + 1 := by
  rw [lastPlace, lastComponent_append h, List.length_append, List.length_cons]
  omega

-- ============================================================================
-- What is recorded
-- ============================================================================

/-- Whatever the file system replies and whatever was in memory: if the call
    that the request comes down to succeeds, the string that is handed to
    `fusent_add_fop_mapping` is the last component of the path. -/
def RecordsBasename (iconv : Utf16Converter) (options : Nat) (fname : List UInt8) : Prop :=
  ∀ (σ : Type) (env : Env σ) (lookup : σ → Nat → List UInt8 → LookupReply × σ),
    (env.implements .lookup = true → AnswersLookup env lookup) →
    ∀ (s : σ) (m : PathMem (createsFile options)),
      ∃ r, Settles (createOnBuffers env iconv s options m fname) r ∧
        ∀ c basename block, r.1 = .call c basename block →
          (hijackedCall env r.2 c (env.memory r.2)
            (sizeofFuseEntryOut + sizeofFuseOpenOut)).1.header.error = 0 →
          stringIn (block.drop basename) = some (lastComponent (pathText iconv fname))

/-- The last component is where the pointer points to.  On the `CREATE` path it
    starts behind the place that it is moved to, or there is such a string as
    far behind it as it is in the block; on the `OPEN` path there is one behind
    the NUL of the path. -/
def BasenameInPlace (iconv : Utf16Converter) (options : Nat) (fname : List UInt8) : Prop :=
  let decoded := (decodedPath iconv fname).1
  let p := pathText iconv fname
  if createsFile options then
    decoded.length < 2 * lastPlace p ∨ cString (decoded.drop (2 * lastPlace p)) = lastComponent p
  else ∃ more, decoded = p ++ 0 :: (lastComponent p ++ 0 :: more)

section Moved

variable {options : Nat} {m : PathMem (createsFile options)} {iconv : Utf16Converter}
  {fname p post : List UInt8}

theorem stringIn_append_nul (buf rest : List UInt8) :
    stringIn (buf ++ 0 :: rest) = some (cString buf) := by
  by_cases h : 0 ∈ buf
  case neg =>
      have hall : cString buf = buf := by
        rw [cString, List.takeWhile_eq_self_iff]
        intro b hb
        refine decide_eq_true ?_
        rintro rfl
        exact h hb
      rw [stringIn_append h, hall]
  case pos =>
      obtain ⟨text, more, rfl, hnul⟩ := List.eq_append_cons_of_mem h
      rw [cString_append hnul, List.append_assoc]
      exact stringIn_append hnul

/-- The string at the pointer after the name was moved. -/
theorem stringIn_moved {dir last : List UInt8}
    (hdec : (decodedPath iconv fname).1 = (dir ++ slash :: last) ++ 0 :: post) (hlast : 0 ∉ last) :
    stringIn ((m.moved iconv fname (dir.length + 1)).drop (dir.length + 1)) =
      some (if (decodedPath iconv fname).1.length < 2 * (dir.length + 1) then last
        else cString ((decodedPath iconv fname).1.drop (2 * (dir.length + 1)))) := by
  have hfront : ((decodedPath iconv fname).1.drop (dir.length + 1)).length =
      (decodedPath iconv fname).1.length - (dir.length + 1) := List.length_drop ..
  have hoff : dir.length + 1 < (decodedPath iconv fname).1.length := by
    simp only [hdec, List.length_append, List.length_cons]
    omega
  rw [PathMem.moved, List.drop_append, hfront]
  split
  case isTrue hbehind =>
      -- the copy ends before the name
      have hover : ((decodedPath iconv fname).1.drop (dir.length + 1)).drop (dir.length + 1) = [] := by
        rw [List.drop_drop, List.drop_eq_nil_iff]
        omega
      obtain ⟨k, hk⟩ : ∃ k, dir.length + 1 - ((decodedPath iconv fname).1.length - (dir.length + 1)) =
          k + 1 := ⟨dir.length - ((decodedPath iconv fname).1.length - (dir.length + 1)), by omega⟩
      rw [hover, List.nil_append, hk, List.drop_succ_cons, List.drop_drop]
      have hplace : (decodedPath iconv fname).1.length - (dir.length + 1) + 1 + k = dir.length + 1 := by
        omega
      rw [hplace, PathMem.filled_eq hdec, drop_dir]
      exact stringIn_append hlast
  case isFalse hover =>
      have hzero : dir.length + 1 - ((decodedPath iconv fname).1.length - (dir.length + 1)) = 0 := by
        omega
      rw [hzero, List.drop_zero, List.drop_drop, stringIn_append_nul, Nat.two_mul]

end Moved

-- ============================================================================
-- When it is recorded
-- ============================================================================

/-- A file system that finds every name and opens every file. -/
def openingEnv : Env Nat :=
  { lookupEnv with
    op := fun n c =>
      match c with
      | .lookup parent name =>
          ([(sampleLookup n parent name).1.toReply], (sampleLookup n parent name).2)
      | .create _ _ _ _ => ([fuseReplyCreate ⟨2, leBytes 120 0, length_zero_rest⟩ 7 0], n)
      | _ => ([fuseReplyOpen 7 0], n) }

theorem openingEnv_answers : AnswersLookup openingEnv sampleLookup := ⟨rfl, fun _ _ _ => rfl⟩

theorem lookupNames_sampleLookup (n ino : Nat) (names : List (List UInt8)) :
    ∃ parent n', lookupNames sampleLookup n ino names = (.ok parent, n') := by
  induction names generalizing n ino with
  | nil => exact ⟨ino, n, rfl⟩
  | cons c rest ih => exact ih (n + 1) 2

theorem not_refuses_openingEnv {n : Nat} {p : List UInt8} (h : p.head? = some slash) :
    ¬ Refuses openingEnv sampleLookup n p := by
  rintro (hhead | himpl | ⟨names, e, n', hnames⟩)
  · exact hhead h
  · cases himpl
  · obtain ⟨parent, n'', hok⟩ := lookupNames_sampleLookup n fuseRootId names
    rw [hok] at hnames
    cases hnames

theorem openingEnv_creates (n parent mode flags : Nat) (name : List UInt8) (buf : Mem)
    (buflen : Nat) :
    (hijackedCall openingEnv n (.create parent name mode flags) buf buflen).1.header.error = 0 := by
  rw [hijackedCall_header]
  rfl

theorem openingEnv_opens (n ino flags : Nat) (buf : Mem) (buflen : Nat) :
    (hijackedCall openingEnv n (.openFile ino flags) buf buflen).1.header.error = 0 := by
  rw [hijackedCall_header]
  rfl

theorem append_nul_of_ones {a b rest ones : List UInt8} (hones : 0 ∉ ones)
    (h : a ++ ones = b ++ 0 :: rest) : ∃ more, a = b ++ 0 :: more := by
  rcases List.append_eq_append_iff.mp h with ⟨as, rfl, htail⟩ | ⟨as, rfl, htail⟩
  · exact absurd (by rw [htail]; simp) hones
  · cases as with
    | nil => exact absurd (by rw [← List.nil_append ones, ← htail]; exact List.mem_cons_self) hones
    | cons x more =>
        obtain ⟨rfl, -⟩ := List.cons.inj htail
        exact ⟨more, rfl⟩

section Recorded

variable {iconv : Utf16Converter} {options : Nat} {fname p post : List UInt8}

theorem pathText_eq (hp : 0 ∉ p) (hdec : (decodedPath iconv fname).1 = p ++ 0 :: post) :
    pathText iconv fname = p := by
  rw [pathText, hdec]
  exact cString_append hp

section Terminated

variable (hroot : isRootPath iconv fname = false) (hp : 0 ∉ p)
  (hdec : (decodedPath iconv fname).1 = p ++ 0 :: post)

include hroot hp hdec

theorem recordsBasename_create (hcreates : createsFile options = true) :
    RecordsBasename iconv options fname ↔ (p.head? = some slash → BasenameInPlace iconv options fname) := by
  have htext := pathText_eq hp hdec
  constructor
  · intro h hhead
    obtain ⟨r, hrun, hrecords⟩ := h Nat openingEnv sampleLookup (fun _ => openingEnv_answers) 0
      (.ones _)
    rcases createOnBuffers_create (m := .ones _) (fun _ => openingEnv_answers) 0 hroot hp hdec
        hcreates with
      ⟨-, hrefuses, -⟩ | ⟨-, dir, last, i, rfl, hlast, -, hrun'⟩
    · exact absurd hrefuses (not_refuses_openingEnv hhead)
    · obtain rfl := hrun.unique hrun'
      have hnul : 0 ∉ last := fun hmem => hp (by simp [hmem])
      have hstring := hrecords _ _ _ rfl (openingEnv_creates ..)
      rw [stringIn_moved hdec hnul, htext, lastComponent_append hlast] at hstring
      unfold BasenameInPlace
      dsimp only
      rw [if_pos hcreates, htext, lastComponent_append hlast, lastPlace_append hlast]
      split at hstring
      case isTrue hbehind => exact .inl hbehind
      case isFalse => exact .inr (Option.some.inj hstring)
  · intro h σ env lookup hlookup s m
    rcases createOnBuffers_create (m := m) hlookup s hroot hp hdec hcreates with
      ⟨-, -, hrun⟩ | ⟨hhead, dir, last, i, rfl, hlast, -, hrun⟩
    · exact ⟨_, hrun, fun c basename block hcall => by cases hcall⟩
    · refine ⟨_, hrun, fun c basename block hcall _ => ?_⟩
      cases hcall
      have hnul : 0 ∉ last := fun hmem => hp (by simp [hmem])
      have hplace := h hhead
      unfold BasenameInPlace at hplace
      dsimp only at hplace
      rw [if_pos hcreates, htext, lastComponent_append hlast, lastPlace_append hlast] at hplace
      rw [stringIn_moved hdec hnul, htext, lastComponent_append hlast]
      split
      case isTrue => rfl
      case isFalse hover => rw [hplace.resolve_left hover]

theorem recordsBasename_open (hopens : createsFile options = false) :
    RecordsBasename iconv options fname ↔
      ((p ++ [slash, 0x61]).head? = some slash → BasenameInPlace iconv options fname) := by
  have htext := pathText_eq hp hdec
  have hplace : BasenameInPlace iconv options fname ↔
      ∃ more, post = lastComponent p ++ 0 :: more := by
    unfold BasenameInPlace
    dsimp only
    rw [if_neg (by simp [hopens]), htext, hdec]
    simp only [List.append_cancel_left_eq, List.cons.injEq, true_and]
  have hbehind : ∀ m : PathMem (createsFile options), (m.filled iconv fname).drop (p.length + 1) =
      post ++ m.block.drop (decodedPath iconv fname).1.length := by
    intro m
    rw [PathMem.filled_eq hdec, ← List.drop_drop, List.drop_left]
    rfl
  rw [hplace]
  constructor
  · intro h hhead
    obtain ⟨r, hrun, hrecords⟩ := h Nat openingEnv sampleLookup (fun _ => openingEnv_answers) 0
      (.ones _)
    rcases createOnBuffers_open (m := .ones _) (fun _ => openingEnv_answers) 0 hroot hp hdec
        hopens with
      ⟨-, hrefuses, -⟩ | ⟨-, i, -, hrun'⟩
    · exact absurd hrefuses (not_refuses_openingEnv hhead)
    · obtain rfl := hrun.unique hrun'
      have hstring := hrecords _ _ _ rfl (openingEnv_opens ..)
      rw [hbehind, htext] at hstring
      obtain ⟨-, rest, hrest⟩ := stringIn_eq_some.mp hstring
      exact append_nul_of_ones (PathMem.nul_notMem_block _ _) hrest
  · intro h σ env lookup hlookup s m
    rcases createOnBuffers_open (m := m) hlookup s hroot hp hdec hopens with
      ⟨-, -, hrun⟩ | ⟨hhead, i, -, hrun⟩
    · exact ⟨_, hrun, fun c basename block hcall => by cases hcall⟩
    · refine ⟨_, hrun, fun c basename block hcall _ => ?_⟩
      cases hcall
      obtain ⟨more, rfl⟩ := h hhead
      rw [hbehind, htext, List.append_assoc]
      exact stringIn_append (nul_notMem_lastComponent hp)

end Terminated

theorem recordsBasename_iff_nul : RecordsBasename iconv options fname ↔
    isRootPath iconv fname = true ∨ 0 ∈ (decodedPath iconv fname).1 ∧
      ((walkedPath (pathText iconv fname) (createsFile options)).head? = some slash →
        BasenameInPlace iconv options fname) := by
  cases hroot : isRootPath iconv fname with
  | true =>
      refine iff_of_true ?_ (.inl rfl)
      intro σ env lookup hlookup s m
      exact ⟨_, createOnBuffers_root s hroot, fun c basename block hcall => by cases hcall⟩
  | false =>
      by_cases hnul : 0 ∈ (decodedPath iconv fname).1
      case neg =>
          refine iff_of_false (fun h => ?_) (by simp [hnul])
          obtain ⟨r, ⟨n, hrun⟩, -⟩ := h Nat lookupEnv sampleLookup (fun _ => lookupEnv_answers) 0
            (.ones _)
          have hnone := createOnBuffers_none (fun _ => lookupEnv_answers) 0 hroot
            (PathMem.nul_notMem_ones (createsFile options) hnul) n
          rw [hrun n (Nat.le_refl _)] at hnone
          cases hnone
      case pos =>
          obtain ⟨p, post, hdec, hp⟩ := List.eq_append_cons_of_mem hnul
          have hwalked : isRootPath iconv fname = true ∨ 0 ∈ (decodedPath iconv fname).1 ∧
              ((walkedPath (pathText iconv fname) (createsFile options)).head? = some slash →
                BasenameInPlace iconv options fname) ↔
              ((walkedPath p (createsFile options)).head? = some slash →
                BasenameInPlace iconv options fname) := by
            rw [pathText_eq hp hdec, hroot]
            simp [hnul]
          rw [← hroot, hwalked]
          rcases Bool.eq_false_or_eq_true (createsFile options) with hcreates | hopens
          · rw [walkedPath, if_pos hcreates]
            exact recordsBasename_create hroot hp hdec hcreates
          · rw [walkedPath, if_neg (by simp [hopens])]
            exact recordsBasename_open hroot hp hdec hopens

/-- The basename is recorded exactly if the request is for the root, or the path
    is a string in its block and, if it is walked down, its last component is
    where the pointer points to. -/
theorem basename_recorded_iff (iconv : Utf16Converter) (options : Nat) (fname : List UInt8) :
    RecordsBasename iconv options fname ↔
      isRootPath iconv fname = true ∨ TerminatedPath iconv fname ∧
        ((walkedPath (pathText iconv fname) (createsFile options)).head? = some slash →
          BasenameInPlace iconv options fname) := by
  rw [recordsBasename_iff_nul, nul_mem_decodedPath]

-- ============================================================================
-- Paths without a drive
-- ============================================================================

theorem exists_dir (h : slash ∈ p) : ∃ dir last, p = dir ++ slash :: last ∧ slash ∉ last := by
  obtain ⟨last, dir, hrev, hlast⟩ := List.eq_append_cons_of_mem (List.mem_reverse.mpr h)
  refine ⟨dir.reverse, last.reverse, ?_, by simpa using hlast⟩
  rw [← p.reverse_reverse, hrev]
  simp

theorem cString_drop_terminated (hp : 0 ∉ p) (n : Nat) : cString ((p ++ [0]).drop n) = p.drop n := by
  rw [List.drop_append]
  by_cases hn : n ≤ p.length
  case pos =>
      rw [Nat.sub_eq_zero_of_le hn, List.drop_zero]
      exact cString_append fun hmem => hp (List.mem_of_mem_drop hmem)
  case neg =>
      have hempty : ([0] : List UInt8).drop (n - p.length) = [] := by
        rw [List.drop_eq_nil_iff, List.length_singleton]
        omega
      rw [hempty, List.drop_eq_nil_of_le (by omega)]
      rfl

/-- For a path as the driver sends it, with a NUL behind it and nothing else:
    the basename is not recorded if the file is opened, and if it is created it
    is recorded only if it is shorter than the path of its directory. -/
theorem recordsBasename_terminated (hroot : isRootPath iconv fname = false) (hp : 0 ∉ p)
    (hhead : p.head? = some slash) (hdec : (decodedPath iconv fname).1 = p ++ [0]) :
    RecordsBasename iconv options fname ↔ createsFile options = true ∧
      (lastComponent p = [] ∨ (lastComponent p).length + 1 < lastPlace p) := by
  have htext := pathText_eq hp hdec
  obtain ⟨dir, last, rfl, hlast⟩ := exists_dir (List.mem_of_mem_head? (by rw [hhead]; rfl))
  rcases Bool.eq_false_or_eq_true (createsFile options) with hcreates | hopens
  · rw [recordsBasename_create hroot hp hdec hcreates]
    unfold BasenameInPlace
    dsimp only
    rw [if_pos hcreates, htext, hdec, cString_drop_terminated hp, lastComponent_append hlast,
      lastPlace_append hlast]
    have hlen : (dir ++ slash :: last ++ [0]).length = dir.length + last.length + 2 := by
      simp only [List.length_append, List.length_cons, List.length_nil]
      omega
    have hdrop : (dir ++ slash :: last).drop (2 * (dir.length + 1)) = last ↔ last = [] := by
      constructor
      · intro heq
        have hlast := congrArg List.length heq
        simp only [List.length_drop, List.length_append, List.length_cons] at hlast
        exact List.eq_nil_of_length_eq_zero (by omega)
      · rintro rfl
        rw [List.drop_eq_nil_iff]
        simp only [List.length_append, List.length_cons, List.length_nil]
        omega
    rw [hlen, hdrop]
    have hshort : dir.length + last.length + 2 < 2 * (dir.length + 1) ↔
        last.length + 1 < dir.length + 1 := by
      omega
    rw [hshort]
    exact ⟨fun h => ⟨hcreates, (h hhead).symm⟩, fun h _ => h.2.symm⟩
  · rw [recordsBasename_open hroot hp hdec hopens]
    refine iff_of_false (fun h => ?_) (by simp [hopens])
    have hplace := h (by simpa using hhead)
    unfold BasenameInPlace at hplace
    dsimp only at hplace
    rw [if_neg (by simp [hopens]), htext, hdec] at hplace
    obtain ⟨more, heq⟩ := hplace
    have hrest := congrArg List.length (List.append_cancel_left heq)
    simp only [List.length_cons, List.length_append, List.length_nil] at hrest
    omega

end Recorded

/-- The path `\foo` with its NUL. -/
def fooPath : List UInt8 := [0x5c, 0, 0x66, 0, 0x6f, 0, 0x6f, 0, 0, 0]

/-- The basename is recorded neither when the file is opened, nor when it is
    created. -/
theorem basename_not_recorded_foo :
    ¬ RecordsBasename leavingOut (fileOpen * 2 ^ 24) fooPath ∧
      ¬ RecordsBasename leavingOut (fileCreate * 2 ^ 24) fooPath := by
  have hroot : isRootPath leavingOut fooPath = false := by decide +kernel
  have hdec : (decodedPath leavingOut fooPath).1 = [0x2f, 0x66, 0x6f, 0x6f] ++ [0] := by
    decide +kernel
  constructor
  · rw [recordsBasename_terminated hroot (by decide) rfl hdec]
    decide +kernel
  · rw [recordsBasename_terminated hroot (by decide) rfl hdec]
    decide +kernel

end FuseNt
