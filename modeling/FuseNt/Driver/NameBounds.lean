/-
  FuseNt.Driver.NameBounds

  Which bytes of a file name the driver's routines read, and where they store
  what they have read.

  `FileName.Length` counts bytes.  `FuseExtractModuleName` takes it for a
  number of characters when no backslash ends the module's name, and
  `FuseQueryNameInfo` and `IRP_FUSE_MOUNT` multiply it by the size of a
  character once more; the terminator of `IRP_FUSE_MOUNT` is stored at an index
  that counts bytes too.  The search for the backslash does not know of
  `FileName.Length`: it ends at a NUL within the name, or goes on behind it.
-/

import FuseNt.Driver.VolumeQuery
import FuseNt.Lib.Span

namespace FuseNt

open FuseNt.Lib

-- ============================================================================
-- The copies
-- ============================================================================

/-- A copy out of a file name: after `scanned` has been read of it, `count`
    characters from character `start` on go to a destination of `room` bytes,
    and a terminator is stored at the index `nul` of the destination. -/
structure NameCopy where
  scanned : List Span
  start : Nat
  count : Nat
  nul : Option Nat
  room : Nat

namespace NameCopy

/-- What is read of the name, in bytes. -/
def reads (c : NameCopy) : List Span := c.scanned ++ [(2 * c.start, 2 * c.count)]

/-- What is written of the destination, in bytes. -/
def writes (c : NameCopy) : List Span :=
  (0, 2 * c.count) :: c.nul.toList.map fun i => (2 * i, 2)

/-- The characters that are copied. -/
def block (c : NameCopy) (name : ObjectName) : List Wchar :=
  copyWchars name.buffer c.start c.count

/-- The copy keeps within the name and within the destination. -/
structure Inside (c : NameCopy) (name : ObjectName) : Prop where
  reads : Below c.reads name.length
  writes : Below c.writes c.room

end NameCopy

/-- What `FuseExtractModuleName` reads: the first character, and what `wcsstr`
    goes through. -/
def extractReads (fuel : Nat) (name : ObjectName) : Option (List Span) :=
  if 0 < name.length then do
    let start := if name.buffer 0 = backslash then 1 else 0
    let stop ← scanWchars (fun c => c == backslash || c == 0) name.buffer fuel start
    some [(0, 2), (2 * start, 2 * (stop - start + 1))]
  else some []

/-- The copy of an extracted name, with its terminator. -/
def extractedCopy (scanned : List Span) (extracted : Nat × Nat) (room : Nat) : NameCopy :=
  ⟨scanned, extracted.1, extracted.2, some extracted.2, room⟩

/-- A copy that is made unless the length that is left is too small. -/
def guardedCopy (length needed : Int) (c : NameCopy) : List NameCopy :=
  if length < needed then [] else [c]

/-- The routines that copy names; `FuseCopyModuleName` has two callers. -/
inductive NameRoutine where
  | allocateModuleName
  | copyToVolumeLabel
  | copyToFileSystemName
  | queryNameInfo
  | mount
deriving DecidableEq, Repr

/-- The copies a routine makes; `length` is what is left of the caller's
    buffer. -/
def NameRoutine.copies (fuel : Nat) (name : ObjectName) (length : Int) :
    NameRoutine → Option (List NameCopy)
  | allocateModuleName => do
      let scanned ← extractReads fuel name
      let extracted ← fuseExtractModuleName fuel name
      some [extractedCopy scanned extracted (2 * (extracted.2 + 1))]
  | copyToVolumeLabel => do
      let scanned ← extractReads fuel name
      let extracted ← fuseExtractModuleName fuel name
      some (guardedCopy length (toLong (24 + 2 * extracted.2 : Nat))
        (extractedCopy scanned extracted (24 + 2 * extracted.2 - 18)))
  | copyToFileSystemName => do
      let scanned ← extractReads fuel name
      let extracted ← fuseExtractModuleName fuel name
      some (guardedCopy length 16 (extractedCopy scanned extracted (16 - 12)))
  | queryNameInfo =>
      some (guardedCopy length (toLong (8 + 2 * name.length : Nat))
        ⟨[], 0, name.length, none, 8 + 2 * name.length - 4⟩)
  | mount =>
      let moduleNameLength := 2 * (name.length - 1)
      some (if name.length ≤ 1 then []
        else [⟨[], 1, name.length - 1, some moduleNameLength, moduleNameLength + 2⟩])

-- ============================================================================
-- The property and the condition
-- ============================================================================

/-- `FuseExtractModuleName` returns, with the number of characters of the first
    component in `*Length`. -/
def ExtractsLength (name : ObjectName) : Prop :=
  ∃ rounds, ∀ fuel, rounds ≤ fuel → ∃ start,
    fuseExtractModuleName fuel name = some (start, name.component.length)

/-- A routine returns, and its copies keep within the name and within what was
    allocated or checked, whatever the length of the caller's buffer is. -/
def NameRoutine.StaysInside (r : NameRoutine) (name : ObjectName) : Prop :=
  ∃ rounds, ∀ fuel, rounds ≤ fuel → ∀ length,
    ∃ cs, r.copies fuel name length = some cs ∧ ∀ c ∈ cs, c.Inside name

/-- The search finds a backslash at `j`. -/
structure ObjectName.EndsAt (name : ObjectName) (j : Nat) : Prop extends name.StopsAt j where
  backslash : name.buffer j = backslash

/-- The name is empty, or the search finds a backslash in it. -/
def EndedComponent (name : ObjectName) : Prop :=
  name.count = 0 ∨ ∃ j, j < name.count ∧ name.EndsAt j

/-- The names on which a routine keeps within its bounds. -/
def NameRoutine.Holds (name : ObjectName) : NameRoutine → Prop
  | allocateModuleName => EndedComponent name
  | copyToVolumeLabel => EndedComponent name
  | copyToFileSystemName =>
      name.count = 0 ∨ ∃ j, j < name.count ∧ name.EndsAt j ∧ j ≤ name.start + 1
  | queryNameInfo => name.count = 0
  | mount => name.count = 0

-- ============================================================================
-- The copies are those of the routines
-- ============================================================================

section Routines

variable {name : ObjectName} {fuel : Nat} {c : NameCopy}

theorem guardedCopy_eq_singleton {length needed : Int} {c' : NameCopy}
    (h : guardedCopy length needed c' = [c]) : ¬ length < needed ∧ c' = c := by
  unfold guardedCopy at h
  split at h
  · simp at h
  · exact ⟨‹_›, List.head_eq_of_cons_eq h⟩

/-- `FuseAllocateModuleName` returns the copy and a terminator. -/
theorem moduleNameBlock_copies {length : Int}
    (h : NameRoutine.allocateModuleName.copies fuel name length = some [c]) :
    moduleNameBlock fuel name = some (c.block name ++ [0]) := by
  obtain ⟨scanned, -, h⟩ := Option.bind_eq_some_iff.mp h
  obtain ⟨extracted, hextract, h⟩ := Option.bind_eq_some_iff.mp h
  obtain rfl : extractedCopy scanned extracted (2 * (extracted.2 + 1)) = c := by simpa using h
  rw [moduleNameBlock, hextract]
  rfl

/-- `FuseCopyModuleName` stores the copy and a terminator. -/
theorem fuseCopyModuleName_copies {length : Int}
    (h : NameRoutine.copyToFileSystemName.copies fuel name length = some [c]) (m : Mem) (dst : Nat) :
    fuseCopyModuleName fuel name m dst =
      some (m.write dst (name.bytes c.start c.count ++ [0, 0]), c.count) := by
  obtain ⟨scanned, -, h⟩ := Option.bind_eq_some_iff.mp h
  obtain ⟨extracted, hextract, h⟩ := Option.bind_eq_some_iff.mp h
  obtain ⟨-, rfl⟩ := guardedCopy_eq_singleton (Option.some.inj h)
  rw [fuseCopyModuleName, hextract]
  rfl

/-- `IRP_FUSE_MOUNT` makes the key of the copy. -/
theorem mountNameBlock_copies {length : Int}
    (h : NameRoutine.mount.copies fuel name length = some [c]) :
    mountNameBlock name = c.block name := by
  unfold NameRoutine.copies at h
  simp only at h
  split at h
  · simp at h
  · obtain rfl := List.head_eq_of_cons_eq (Option.some.inj h)
    rfl

/-- `FuseQueryNameInfo` copies the bytes to its structure. -/
theorem fuseQueryNameInfo_copies {name : UnicodeString} {q : QueryFill} {dst : Nat}
    (h : NameRoutine.queryNameInfo.copies fuel name q.length = some [c]) :
    (fuseQueryNameInfo name dst q).buffer =
      (q.buffer.zero dst (8 + 2 * name.length)).writes
        [(dst + 4, name.bytes c.start c.count), (dst + 0, leBytes 4 (2 * name.length))] := by
  obtain ⟨hroom, rfl⟩ := guardedCopy_eq_singleton (Option.some.inj h)
  rw [UnicodeString.object_length] at hroom
  rw [fuseQueryNameInfo]
  simp only [UnicodeString.object_length]
  rw [if_neg hroom]

end Routines

-- ============================================================================
-- Where the copies keep within their bounds
-- ============================================================================

section Bounds

variable {name : ObjectName} {fuel j : Nat}

/-- What the search reads if it stops at `j`. -/
def scannedSpans (name : ObjectName) (j : Nat) : List Span :=
  [(0, 2), (2 * name.start, 2 * (j - name.start + 1))]

theorem extractReads_of_stops (hpos : 0 < name.count) (h : name.StopsAt j) (hfuel : j < fuel) :
    extractReads fuel name = some (scannedSpans name j) := by
  have hlen : 0 < name.length := Nat.mul_pos (by omega) hpos
  rw [extractReads, if_pos hlen]
  simp only [← ObjectName.start.eq_def, h.scan hfuel, Option.bind_eq_bind, Option.bind_some]
  rfl

theorem extractReads_of_empty (hnone : name.count = 0) : extractReads fuel name = some [] := by
  have hlen : name.length = 0 := by rw [ObjectName.length, hnone]
  rw [extractReads, hlen, if_neg (lt_irrefl 0)]

theorem extractReads_of_runs (hpos : 0 < name.count) (hruns : ∀ j, ¬ name.StopsAt j) :
    extractReads fuel name = none := by
  have hlen : 0 < name.length := Nat.mul_pos (by omega) hpos
  rw [extractReads, if_pos hlen]
  simp only [← ObjectName.start.eq_def]
  cases hscan : scanWchars (fun c => c == backslash || c == 0) name.buffer fuel name.start with
  | none => rfl
  | some j => exact absurd (ObjectName.stopsAt_of_scan hscan) (hruns j)

/-- The first characters of the values of `f` that `p` is true of. -/
theorem length_takeWhile_range {α : Type} {p : α → Bool} {f : Nat → α} {n m : Nat}
    (hall : ∀ k, k < n → p (f k) = true) (hend : n = m ∨ n < m ∧ p (f n) = false) :
    (((List.range m).map f).takeWhile p).length = n := by
  have hfirst : ∀ x ∈ (List.range n).map f, p x = true := by
    intro x hx
    obtain ⟨k, hk, rfl⟩ := List.mem_map.mp hx
    exact hall k (List.mem_range.mp hk)
  rcases hend with rfl | ⟨hlt, hstop⟩
  · rw [List.takeWhile_eq_self_iff.mpr hfirst]
    simp
  · obtain ⟨k, rfl⟩ : ∃ k, m = n + (k + 1) := ⟨m - n - 1, by omega⟩
    rw [List.range_add, List.map_append, List.takeWhile_append_of_pos hfirst,
      List.range_succ_eq_map]
    simp [hstop]

/-- The component, by the place of the first backslash. -/
theorem length_component {n : Nat} (hstart : name.start ≤ n)
    (hall : ∀ i, name.start ≤ i → i < n → name.buffer i ≠ backslash)
    (hend : n = name.count ∨ n < name.count ∧ name.buffer n = backslash) :
    name.component.length = n - name.start := by
  have hdrop : name.text.drop name.start =
      (List.range (name.count - name.start)).map fun k => name.buffer (name.start + k) := by
    apply List.ext_getElem (by simp [ObjectName.text])
    intro k hk _
    simp [ObjectName.text]
  rw [ObjectName.component, hdrop]
  apply length_takeWhile_range
  · intro k hk
    simpa using hall (name.start + k) (by omega) (by omega)
  · rcases hend with rfl | ⟨hlt, hback⟩
    · exact .inl rfl
    · refine .inr ⟨by omega, ?_⟩
      rw [Nat.add_sub_cancel' hstart, hback]
      simp

theorem ObjectName.component_le (name : ObjectName) : name.component.length ≤ name.count - name.start := by
  have hle := (List.takeWhile_prefix (l := name.text.drop name.start) (· ≠ backslash)).length_le
  have hcount : name.text.length = name.count := by simp [ObjectName.text]
  rwa [List.length_drop, hcount] at hle

/-- The length that is reported is right if the search finds a backslash, in the
    name or right behind it. -/
theorem reported_eq_iff (hpos : 0 < name.count) (h : name.StopsAt j) :
    name.reported j = name.component.length ↔ j ≤ name.count ∧ name.buffer j = backslash := by
  have hone := name.start_le
  have hle := name.component_le
  have hnone : ∀ i, name.start ≤ i → i < j → name.buffer i ≠ backslash := fun i hi hij hb =>
    h.first i hi hij (.inl hb)
  rw [ObjectName.reported, ObjectName.length]
  by_cases hb : name.buffer j = backslash
  · rw [if_pos hb]
    by_cases hj : j ≤ name.count
    · rw [length_component h.start_le hnone ((Nat.lt_or_eq_of_le hj).symm.imp_right fun hlt => ⟨hlt, hb⟩)]
      exact iff_of_true rfl ⟨hj, hb⟩
    · rw [length_component (n := name.count) (by omega) (fun i hi hij => hnone i hi (by omega))
        (.inl rfl)]
      have := h.start_le
      exact iff_of_false (by omega) fun hboth => hj hboth.1
  · rw [if_neg hb]
    exact iff_of_false (by omega) fun hboth => hb hboth.2

/-- A copy of an extracted name keeps within the name if the search found a
    backslash in it, and within the destination if that holds the terminator
    too. -/
theorem extractedCopy_inside_iff {room : Nat} (hpos : 0 < name.count) (h : name.StopsAt j) :
    (extractedCopy (scannedSpans name j) (name.start, name.reported j) room).Inside name ↔
      (j < name.count ∧ name.buffer j = backslash) ∧ 2 * name.reported j + 2 ≤ room := by
  have hone := name.start_le
  have hle := h.start_le
  have hwrites : Below (extractedCopy (scannedSpans name j) (name.start, name.reported j)
      room).writes room ↔ 2 * name.reported j + 2 ≤ room := by
    simp only [extractedCopy, NameCopy.writes, Option.toList_some, List.map_cons, List.map_nil,
      below_cons, below_nil, and_true]
    omega
  have hreads : Below (extractedCopy (scannedSpans name j) (name.start, name.reported j)
      room).reads name.length ↔ j < name.count ∧ name.buffer j = backslash := by
    simp only [extractedCopy, scannedSpans, NameCopy.reads, List.cons_append, List.nil_append,
      below_cons, below_nil, and_true, ObjectName.reported, ObjectName.length]
    by_cases hb : name.buffer j = backslash
    · rw [if_pos hb]
      simp only [hb, and_true]
      omega
    · rw [if_neg hb]
      simp only [hb, and_false, iff_false]
      omega
  exact ⟨fun hin => ⟨hreads.mp hin.reads, hwrites.mp hin.writes⟩,
    fun hin => ⟨hreads.mpr hin.1, hwrites.mpr hin.2⟩⟩

/-- The copies of the routines that extract the module's name. -/
theorem copies_extracted {scanned : List Span} {start len : Nat}
    (hreads : extractReads fuel name = some scanned)
    (hextract : fuseExtractModuleName fuel name = some (start, len)) (length : Int) :
    NameRoutine.allocateModuleName.copies fuel name length =
        some [extractedCopy scanned (start, len) (2 * (len + 1))] ∧
      NameRoutine.copyToVolumeLabel.copies fuel name length =
        some (guardedCopy length (toLong (24 + 2 * len : Nat))
          (extractedCopy scanned (start, len) (24 + 2 * len - 18))) ∧
      NameRoutine.copyToFileSystemName.copies fuel name length =
        some (guardedCopy length 16 (extractedCopy scanned (start, len) (16 - 12))) := by
  simp only [NameRoutine.copies, hreads, hextract, Option.bind_eq_bind, Option.bind_some, and_self]

/-- A routine that makes one copy for the lengths that it accepts. -/
theorem NameRoutine.staysInside_iff {r : NameRoutine} {c : NameCopy} {needed : Int} (rounds : Nat)
    (h : ∀ fuel, rounds ≤ fuel → ∀ length,
      r.copies fuel name length = some (guardedCopy length needed c)) :
    r.StaysInside name ↔ c.Inside name := by
  constructor
  · rintro ⟨rounds', hall⟩
    obtain ⟨cs, hcs, hinside⟩ := hall (max rounds rounds') (by omega) needed
    rw [h _ (by omega), guardedCopy, if_neg (lt_irrefl needed), Option.some.injEq] at hcs
    exact hinside c (by rw [← hcs]; exact List.mem_singleton_self c)
  · intro hinside
    refine ⟨rounds, fun fuel hfuel length => ⟨_, h fuel hfuel length, fun c' hc' => ?_⟩⟩
    unfold guardedCopy at hc'
    split at hc'
    · simp at hc'
    · rw [List.mem_singleton.mp hc']
      exact hinside

/-- The same without a check of the length. -/
theorem NameRoutine.staysInside_iff_all {r : NameRoutine} {cs : List NameCopy} (rounds : Nat)
    (h : ∀ fuel, rounds ≤ fuel → ∀ length, r.copies fuel name length = some cs) :
    r.StaysInside name ↔ ∀ c ∈ cs, c.Inside name := by
  constructor
  · rintro ⟨rounds', hall⟩
    obtain ⟨cs', hcs, hinside⟩ := hall (max rounds rounds') (by omega) 0
    rw [h _ (by omega), Option.some.injEq] at hcs
    exact hcs ▸ hinside
  · exact fun hinside => ⟨rounds, fun fuel hfuel length => ⟨cs, h fuel hfuel length, hinside⟩⟩

/-- The routines that extract the module's name. -/
def NameRoutine.extracts : NameRoutine → Bool
  | allocateModuleName => true
  | copyToVolumeLabel => true
  | copyToFileSystemName => true
  | queryNameInfo => false
  | mount => false

/-- They do not return if the search runs out of the memory. -/
theorem NameRoutine.not_staysInside_of_runs {r : NameRoutine} (hr : r.extracts = true)
    (hpos : 0 < name.count) (hruns : ∀ j, ¬ name.StopsAt j) : ¬ r.StaysInside name := by
  rintro ⟨rounds, h⟩
  obtain ⟨cs, hcs, -⟩ := h rounds le_rfl 0
  cases r with
  | queryNameInfo => cases hr
  | mount => cases hr
  | _ =>
      rw [NameRoutine.copies, extractReads_of_runs hpos hruns] at hcs
      cases hcs

/-- In an empty name they copy the terminator only. -/
theorem NameRoutine.staysInside_of_empty {r : NameRoutine} (hr : r.extracts = true)
    (hnone : name.count = 0) : r.StaysInside name := by
  have hinside : ∀ room, 2 ≤ room → (extractedCopy [] (0, 0) room).Inside name := by
    intro room hroom
    constructor <;>
      simp only [extractedCopy, NameCopy.reads, NameCopy.writes, List.nil_append,
        Option.toList_some, List.map_cons, List.map_nil, below_cons, below_nil, and_true] <;> omega
  have hcopies : ∀ fuel length, _ := fun fuel length =>
    copies_extracted (show extractReads fuel name = some [] from extractReads_of_empty hnone)
      (fuseExtractModuleName_of_empty hnone) length
  cases r with
  | queryNameInfo => cases hr
  | mount => cases hr
  | allocateModuleName =>
      rw [staysInside_iff_all 0 fun fuel _ length => (hcopies fuel length).1]
      simpa using hinside 2 le_rfl
  | copyToVolumeLabel =>
      rw [staysInside_iff 0 fun fuel _ length => (hcopies fuel length).2.1]
      exact hinside _ (by omega)
  | copyToFileSystemName =>
      rw [staysInside_iff 0 fun fuel _ length => (hcopies fuel length).2.2]
      exact hinside _ (by omega)

/-- A backslash is found in the name, in one place. -/
theorem endsAt_iff (h : name.StopsAt j) {P : Nat → Prop} :
    (∃ k, k < name.count ∧ name.EndsAt k ∧ P k) ↔
      (j < name.count ∧ name.buffer j = backslash) ∧ P j := by
  constructor
  · rintro ⟨k, hk, hends, hp⟩
    obtain rfl := h.unique hends.toStopsAt
    exact ⟨⟨hk, hends.backslash⟩, hp⟩
  · rintro ⟨⟨hj, hb⟩, hp⟩
    exact ⟨j, hj, ⟨h, hb⟩, hp⟩

theorem endedComponent_iff (hpos : 0 < name.count) (h : name.StopsAt j) :
    EndedComponent name ↔ j < name.count ∧ name.buffer j = backslash := by
  have hiff := endsAt_iff h (P := fun _ => True)
  simp only [and_true] at hiff
  rw [EndedComponent, hiff]
  exact or_iff_right (by omega)

/-- Where each of the routines keeps within its bounds. -/
theorem NameRoutine.staysInside_iff_holds (r : NameRoutine) (name : ObjectName) :
    r.StaysInside name ↔ r.Holds name := by
  have heven : name.length = 2 * name.count := rfl
  cases hr : r.extracts with
  | false =>
      cases r with
      | queryNameInfo =>
          rw [staysInside_iff 0 fun fuel _ length => rfl, Holds]
          constructor
          · rintro ⟨hreads, -⟩
            simp only [NameCopy.reads, List.nil_append, below_cons, below_nil, and_true] at hreads
            omega
          · intro h
            constructor <;>
              simp only [NameCopy.reads, NameCopy.writes, List.nil_append, Option.toList_none,
                List.map_nil, below_cons, below_nil, and_true] <;> omega
      | mount =>
          rw [staysInside_iff_all 0 fun fuel _ length => rfl, Holds]
          constructor
          · intro h
            by_contra hpos
            have hreads := (h _ (by rw [if_neg (by omega)]; exact List.mem_singleton_self _)).reads
            simp only [NameCopy.reads, List.nil_append, below_cons, below_nil, and_true] at hreads
            omega
          · intro h
            rw [if_pos (by omega)]
            simp
      | _ => cases hr
  | true =>
      rcases Nat.eq_zero_or_pos name.count with hnone | hpos
      · refine iff_of_true (staysInside_of_empty hr hnone) ?_
        cases r with
        | queryNameInfo => cases hr
        | mount => cases hr
        | _ => exact .inl hnone
      by_cases hends : ∃ j, name.StopsAt j
      · obtain ⟨j, hj⟩ := hends
        have hcopies : ∀ fuel, j + 1 ≤ fuel → ∀ length, _ := fun fuel hfuel length =>
          copies_extracted (extractReads_of_stops hpos hj hfuel)
            (fuseExtractModuleName_of_stops hpos hj hfuel) length
        have hended := endedComponent_iff hpos hj
        cases r with
        | queryNameInfo => cases hr
        | mount => cases hr
        | allocateModuleName =>
            rw [staysInside_iff_all (j + 1) fun fuel hfuel length => (hcopies fuel hfuel length).1]
            simp only [List.mem_singleton, forall_eq, extractedCopy_inside_iff hpos hj, Holds, hended]
            exact ⟨And.left, fun h => ⟨h, by omega⟩⟩
        | copyToVolumeLabel =>
            rw [staysInside_iff (j + 1) fun fuel hfuel length => (hcopies fuel hfuel length).2.1,
              extractedCopy_inside_iff hpos hj, Holds, hended]
            exact ⟨And.left, fun h => ⟨h, by omega⟩⟩
        | copyToFileSystemName =>
            rw [staysInside_iff (j + 1) fun fuel hfuel length => (hcopies fuel hfuel length).2.2,
              extractedCopy_inside_iff hpos hj, Holds, endsAt_iff hj, or_iff_right (by omega)]
            refine and_congr_right fun hboth => ?_
            rw [ObjectName.reported, if_pos hboth.2]
            have := hj.start_le
            omega
      · have hruns : ∀ j, ¬ name.StopsAt j := not_exists.mp hends
        refine iff_of_false (not_staysInside_of_runs hr hpos hruns) fun hholds => ?_
        cases r with
        | queryNameInfo => cases hr
        | mount => cases hr
        | copyToFileSystemName =>
            rcases hholds with h | ⟨j, -, hj, -⟩
            · omega
            · exact hruns j hj.toStopsAt
        | _ =>
            rcases hholds with h | ⟨j, -, hj⟩
            · omega
            · exact hruns j hj.toStopsAt

/-- Which names `FuseExtractModuleName` reports the right length of. -/
theorem extractsLength_iff (name : ObjectName) :
    ExtractsLength name ↔ name.count = 0 ∨ ∃ j, j ≤ name.count ∧ name.EndsAt j := by
  rcases Nat.eq_zero_or_pos name.count with hnone | hpos
  · refine iff_of_true ⟨0, fun fuel _ => ⟨0, ?_⟩⟩ (.inl hnone)
    have hcomponent : name.component = [] := by
      simp [ObjectName.component, ObjectName.text, hnone]
    rw [fuseExtractModuleName_of_empty hnone, hcomponent]
    rfl
  rw [or_iff_right (by omega)]
  constructor
  · rintro ⟨rounds, h⟩
    by_cases hends : ∃ j, name.StopsAt j
    · obtain ⟨j, hj⟩ := hends
      obtain ⟨start, hstart⟩ := h (max rounds (j + 1)) (by omega)
      rw [fuseExtractModuleName_of_stops hpos hj (by omega), Option.some.injEq,
        Prod.mk.injEq] at hstart
      obtain ⟨hle, hb⟩ := (reported_eq_iff hpos hj).mp hstart.2
      exact ⟨j, hle, hj, hb⟩
    · obtain ⟨start, hstart⟩ := h rounds le_rfl
      rw [fuseExtractModuleName_of_runs hpos (not_exists.mp hends)] at hstart
      cases hstart
  · rintro ⟨j, hle, hj⟩
    refine ⟨j + 1, fun fuel hfuel => ⟨name.start, ?_⟩⟩
    rw [fuseExtractModuleName_of_stops hpos hj.toStopsAt hfuel,
      (reported_eq_iff hpos hj.toStopsAt).mpr ⟨hle, hj.backslash⟩]

end Bounds

/-- `FuseExtractModuleName` reports the length of the first component, and the
    routines keep within their bounds, exactly on these names; on the empty
    name only all of it holds. -/
theorem names_handled_iff (name : ObjectName) :
    (ExtractsLength name ↔ name.count = 0 ∨ ∃ j, j ≤ name.count ∧ name.EndsAt j) ∧
      (∀ r : NameRoutine, r.StaysInside name ↔ r.Holds name) ∧
      ((ExtractsLength name ∧ ∀ r : NameRoutine, r.StaysInside name) ↔ name.count = 0) := by
  refine ⟨extractsLength_iff name, fun r => r.staysInside_iff_holds name, ?_⟩
  constructor
  · rintro ⟨-, hall⟩
    exact (NameRoutine.mount.staysInside_iff_holds name).mp (hall .mount)
  · intro h
    refine ⟨(extractsLength_iff name).mpr (.inl h), fun r =>
      (r.staysInside_iff_holds name).mpr ?_⟩
    cases r with
    | queryNameInfo => exact h
    | mount => exact h
    | _ => exact .inl h

/-- The name `\v` of a module, which has four bytes: its length is reported as
    3 characters instead of one, and the mount copies six bytes from the second
    character on and stores the terminator behind its block of eight bytes. -/
theorem names_handled_v :
    fuseExtractModuleName 8 sampleModuleName = some (1, 3) ∧
      sampleModuleName.object.component = [118] ∧
      NameRoutine.mount.copies 8 sampleModuleName 0 = some [⟨[], 1, 3, some 6, 8⟩] ∧
      ¬ NameRoutine.mount.StaysInside sampleModuleName := by
  refine ⟨by decide, by decide, rfl, fun h => ?_⟩
  have hnil : sampleModuleName.object.count = 0 :=
    (NameRoutine.mount.staysInside_iff_holds sampleModuleName.object).mp h
  exact absurd hnil (by decide)

end FuseNt
