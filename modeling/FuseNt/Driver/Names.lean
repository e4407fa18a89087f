/-
  FuseNt.Driver.Names

  File names and the modules they belong to.

  Three routines take a file name apart, each in its own way, and a fourth
  makes the key a module is mounted under.  They work on the characters of
  `FileName.Buffer` up to the terminator, while `FileName.Length`, which
  counts bytes, is used as a number of characters: what they copy can reach
  beyond the terminator.  Here they are modelled on the buffer, which may have
  anything in it: a name can contain a NUL, and there need not be one behind it.
  For names that end with a NUL they are compared with the functions on strings
  that the rest of the driver's model uses.
-/

import FuseNt.Driver.Impersonation
import FuseNt.Driver.Mounts
import Mathlib.Data.List.TakeWhile

namespace FuseNt

open FuseNt.Lib

-- ============================================================================
-- Wide-character strings in memory
-- ============================================================================

/-- The first character from `i` on at which a loop stops; `none` if it has not
    stopped after `fuel` characters. -/
def scanWchars (stop : Wchar → Bool) (buf : Nat → Wchar) : Nat → Nat → Option Nat
  | 0, _ => none
  | fuel + 1, i => if stop (buf i) then some i else scanWchars stop buf fuel (i + 1)

/-- `wcslen(buf + i)`. -/
def wcslen (fuel : Nat) (buf : Nat → Wchar) (i : Nat) : Option Nat :=
  (scanWchars (· == 0) buf fuel i).map (· - i)

/-- `wcsstr(buf + i, L"\\")`; the inner `none` is a null pointer. -/
def wcsstrBackslash (fuel : Nat) (buf : Nat → Wchar) (i : Nat) : Option (Option Nat) := do
  let j ← scanWchars (fun c => c == backslash || c == 0) buf fuel i
  some (if buf j = backslash then some j else none)

/-- `memcpy` of `n` characters from character `i` on. -/
def copyWchars (buf : Nat → Wchar) (i n : Nat) : List Wchar := (List.range n).map fun k => buf (i + k)

/-- The string at the start of a block of memory. -/
def wcharString (block : List Wchar) : List Wchar := block.takeWhile (· ≠ 0)

-- ============================================================================
-- The name of a file object
-- ============================================================================

/-- The name of a file object as it is, a `UNICODE_STRING`: `count` characters of
    any kind, and any memory behind them.  A search for the end of a component
    ends in the 2 GiB of kernel addresses, the last page of which is never mapped,
    or runs out of the memory. -/
structure ObjectName where
  count : Nat
  buffer : Nat → Wchar
  length_lt : 2 * count < 2 ^ 16
  near : 0 < count →
    (∃ j, 1 ≤ j ∧ j + 16 < 2 ^ 30 ∧ (buffer j = backslash ∨ buffer j = 0)) ∨
      ∀ j, 1 ≤ j → ¬ (buffer j = backslash ∨ buffer j = 0)

namespace ObjectName

/-- `Length`. -/
def length (name : ObjectName) : Nat := 2 * name.count

/-- The characters of the name. -/
def text (name : ObjectName) : List Wchar := (List.range name.count).map name.buffer

/-- The bytes of `n` characters of `Buffer`, starting at character `i`. -/
def bytes (name : ObjectName) (i n : Nat) : List UInt8 :=
  ((List.range n).map fun k => leBytes 2 (name.buffer (i + k)).toNat).flatten

end ObjectName

/-- A name that a NUL ends. -/
def UnicodeString.object (name : UnicodeString) : ObjectName where
  count := name.text.length
  buffer := name.buffer
  length_lt := name.length_lt
  near h := .inl ⟨name.text.length, h, by have := name.length_lt; omega, .inr (by
    rw [buffer, if_neg (Nat.lt_irrefl _), if_pos rfl])⟩

instance : Coe UnicodeString ObjectName := ⟨UnicodeString.object⟩

@[simp] theorem UnicodeString.object_length (name : UnicodeString) :
    name.object.length = name.length := rfl

@[simp] theorem UnicodeString.object_buffer (name : UnicodeString) :
    name.object.buffer = name.buffer := rfl

-- ============================================================================
-- The routines
-- ============================================================================

/-- `FuseExtractModuleName`: the character `ModuleName` points at, and
    `*Length`. -/
def fuseExtractModuleName (fuel : Nat) (name : ObjectName) : Option (Nat × Nat) :=
  let fileNameLength := name.length
  if 0 < fileNameLength then do
    let start := if name.buffer 0 = backslash then 1 else 0
    match ← wcsstrBackslash fuel name.buffer start with
    | some pos => some (start, pos - start)
    | none => some (start, if name.buffer 0 = backslash then fileNameLength - 1 else fileNameLength)
  else some (0, fileNameLength)

/-- The block `FuseAllocateModuleName` returns. -/
def moduleNameBlock (fuel : Nat) (name : ObjectName) : Option (List Wchar) := do
  let (start, length) ← fuseExtractModuleName fuel name
  some (copyWchars name.buffer start length ++ [0])

/-- The characters that `FuseCheckForWork` sends to a module for a create: the
    first one is passed without a look at it. -/
def requestNameBlock (fuel : Nat) (name : ObjectName) : Option (List Wchar) := do
  let fileName ← scanWchars (fun c => c == backslash || c == 0) name.buffer fuel 1
  let length ← wcslen fuel name.buffer fileName
  some (copyWchars name.buffer fileName (length + 1))

/-- The key of `IRP_FUSE_MOUNT`: `Length - 1` characters from
    `FileName.Buffer + 1` on.  (The terminator the source adds is stored
    behind the block.) -/
def mountNameBlock (name : ObjectName) : List Wchar :=
  copyWchars name.buffer 1 (name.length - 1)

-- ============================================================================
-- The end of the first component
-- ============================================================================

section Search

variable {stop : Wchar → Bool} {buf : Nat → Wchar} {fuel i j : Nat}

/-- A loop stops at the first character that it looks for. -/
theorem scanWchars_of_first (hij : i ≤ j) (hstop : stop (buf j) = true)
    (hfirst : ∀ k, i ≤ k → k < j → stop (buf k) = false) (hfuel : j - i < fuel) :
    scanWchars stop buf fuel i = some j := by
  induction fuel generalizing i with
  | zero => omega
  | succ fuel ih =>
      rw [scanWchars]
      rcases Nat.lt_or_eq_of_le hij with hlt | rfl
      · rw [hfirst i le_rfl hlt, if_neg Bool.false_ne_true]
        exact ih hlt (fun k hk => hfirst k (by omega)) (by omega)
      · rw [if_pos hstop]

theorem scanWchars_some (h : scanWchars stop buf fuel i = some j) :
    i ≤ j ∧ stop (buf j) = true ∧ ∀ k, i ≤ k → k < j → stop (buf k) = false := by
  induction fuel generalizing i with
  | zero => cases h
  | succ fuel ih =>
      rw [scanWchars] at h
      split at h
      case isTrue hstop =>
          obtain rfl := Option.some.inj h
          exact ⟨le_rfl, hstop, fun k hik hki => absurd hik (by omega)⟩
      case isFalse hgo =>
          obtain ⟨hle, hstop, hfirst⟩ := ih h
          refine ⟨by omega, hstop, fun k hik hkj => ?_⟩
          rcases Nat.lt_or_eq_of_le hik with hlt | rfl
          · exact hfirst k hlt hkj
          · simpa using hgo

end Search

namespace ObjectName

variable {name : ObjectName} {fuel j k : Nat}

/-- The first component starts behind a leading backslash. -/
def start (name : ObjectName) : Nat := if name.buffer 0 = backslash then 1 else 0

theorem start_le : name.start ≤ 1 := by
  unfold start
  split <;> omega

/-- The search for the end of the component stops at `j`, which may be anywhere
    in the memory. -/
structure StopsAt (name : ObjectName) (j : Nat) : Prop where
  start_le : name.start ≤ j
  stop : name.buffer j = backslash ∨ name.buffer j = 0
  first : ∀ i, name.start ≤ i → i < j → ¬ (name.buffer i = backslash ∨ name.buffer i = 0)

theorem stopsAt_of_scan
    (h : scanWchars (fun c => c == backslash || c == 0) name.buffer fuel name.start = some j) :
    name.StopsAt j := by
  obtain ⟨hle, hstop, hfirst⟩ := scanWchars_some h
  refine ⟨hle, by simpa using hstop, fun i hi hij => ?_⟩
  simpa using hfirst i hi hij

theorem StopsAt.scan (h : name.StopsAt j) (hfuel : j < fuel) :
    scanWchars (fun c => c == backslash || c == 0) name.buffer fuel name.start = some j :=
  scanWchars_of_first h.start_le (by simpa using h.stop)
    (fun k hk hkj => by simpa using h.first k hk hkj) (by omega)

/-- The search stops in one place. -/
theorem StopsAt.unique (h : name.StopsAt j) (h' : name.StopsAt k) : j = k := by
  rcases Nat.lt_trichotomy j k with hlt | heq | hgt
  · exact absurd h.stop (h'.first j h.start_le hlt)
  · exact heq
  · exact absurd h'.stop (h.first k h'.start_le hgt)

/-- `*Length`, if the search stops at `j`. -/
def reported (name : ObjectName) (j : Nat) : Nat :=
  if name.buffer j = backslash then j - name.start else name.length - name.start

/-- The component, as far as it is in the name. -/
def component (name : ObjectName) : List Wchar :=
  (name.text.drop name.start).takeWhile (· ≠ backslash)

end ObjectName

section Extract

variable {name : ObjectName} {fuel j : Nat}

theorem fuseExtractModuleName_of_stops (hpos : 0 < name.count) (h : name.StopsAt j)
    (hfuel : j < fuel) : fuseExtractModuleName fuel name = some (name.start, name.reported j) := by
  have hlen : 0 < name.length := Nat.mul_pos (by omega) hpos
  have hsearch : wcsstrBackslash fuel name.buffer name.start =
      some (if name.buffer j = backslash then some j else none) := by
    rw [wcsstrBackslash, h.scan hfuel]
    rfl
  have hreport : (if name.buffer 0 = backslash then name.length - 1 else name.length) =
      name.length - name.start := by
    rw [ObjectName.start]
    split <;> rfl
  rw [fuseExtractModuleName, if_pos hlen]
  simp only [hreport, ← ObjectName.start.eq_def, hsearch, Option.bind_eq_bind, Option.bind_some,
    ObjectName.reported]
  by_cases hb : name.buffer j = backslash
  · simp only [if_pos hb]
  · simp only [if_neg hb]

theorem fuseExtractModuleName_of_empty (hnone : name.count = 0) :
    fuseExtractModuleName fuel name = some (0, 0) := by
  have hlen : name.length = 0 := by rw [ObjectName.length, hnone]
  rw [fuseExtractModuleName, hlen, if_neg (lt_irrefl 0)]

/-- A search that runs out of the memory does not return. -/
theorem fuseExtractModuleName_of_runs (hpos : 0 < name.count) (hruns : ∀ j, ¬ name.StopsAt j) :
    fuseExtractModuleName fuel name = none := by
  have hlen : 0 < name.length := Nat.mul_pos (by omega) hpos
  have hsearch : wcsstrBackslash fuel name.buffer name.start = none := by
    rw [wcsstrBackslash]
    cases hscan : scanWchars (fun c => c == backslash || c == 0) name.buffer fuel name.start with
    | none => rfl
    | some j => exact absurd (ObjectName.stopsAt_of_scan hscan) (hruns j)
  rw [fuseExtractModuleName, if_pos hlen]
  simp only [← ObjectName.start.eq_def, hsearch]
  rfl

end Extract

-- ============================================================================
-- The blocks hold the strings
-- ============================================================================

section Blocks

variable (name : UnicodeString)

theorem UnicodeString.buffer_of_lt {i : Nat} (hi : i < name.text.length) :
    name.buffer i = name.text[i] := by
  rw [buffer, if_pos hi, List.getD_eq_getElem _ _ hi]

theorem UnicodeString.buffer_length : name.buffer name.text.length = 0 := by
  rw [buffer, if_neg (Nat.lt_irrefl _), if_pos rfl]

theorem UnicodeString.ne_nul {c : Wchar} {i : Nat} (hc : c ∈ name.text.drop i) : c ≠ 0 :=
  fun h => name.text_ne_nul (h ▸ List.mem_of_mem_drop hc)

/-- A loop that stops at the terminator stops at the first character of the
    string it is looking for, or at the terminator. -/
theorem scanWchars_eq {stop : Wchar → Bool} (hnul : stop 0 = true) {fuel i : Nat}
    (hi : i ≤ name.text.length) (hfuel : name.text.length - i < fuel) :
    scanWchars stop name.buffer fuel i =
      some (i + ((name.text.drop i).takeWhile fun c => !stop c).length) := by
  induction fuel generalizing i with
  | zero => omega
  | succ fuel ih =>
      unfold scanWchars
      rcases Nat.lt_or_eq_of_le hi with hlt | rfl
      · rw [name.buffer_of_lt hlt, List.drop_eq_getElem_cons hlt, List.takeWhile_cons]
        cases hs : stop name.text[i] with
        | true => simp
        | false =>
            rw [if_neg (by simp), ih (by omega) (by omega)]
            simp only [Bool.not_false, if_true, List.length_cons]
            congr 1
            omega
      · rw [name.buffer_length, if_pos hnul, List.drop_length]
        rfl

theorem wcslen_eq {fuel i : Nat} (hi : i ≤ name.text.length) (hfuel : name.text.length < fuel) :
    wcslen fuel name.buffer i = some (name.text.length - i) := by
  have hall : ((name.text.drop i).takeWhile fun c => !(c == 0)) = name.text.drop i := by
    rw [List.takeWhile_eq_self_iff]
    intro c hc
    simpa using name.ne_nul hc
  rw [wcslen, scanWchars_eq name (by decide) hi (by omega), hall, List.length_drop,
    Option.map_some]
  congr 1
  omega

/-- A copy that includes the terminator holds the rest of the string, whatever
    follows it. -/
theorem wcharString_copy {i n : Nat} (hi : i ≤ name.text.length) (hn : name.text.length - i < n)
    (behind : List Wchar) :
    wcharString (copyWchars name.buffer i n ++ behind) = name.text.drop i := by
  obtain ⟨m, rfl⟩ : ∃ m, n = name.text.length - i + (1 + m) := ⟨n - (name.text.length - i) - 1,
    by omega⟩
  have hcopy : (List.range (name.text.length - i)).map (fun k => name.buffer (i + k)) =
      name.text.drop i := by
    apply List.ext_getElem (by simp)
    intro k hk _
    rw [List.length_map, List.length_range] at hk
    rw [List.getElem_map, List.getElem_range, List.getElem_drop, name.buffer_of_lt]
  have hnul : ∀ c ∈ name.text.drop i, decide (c ≠ 0) = true := by
    intro c hc
    simpa using name.ne_nul hc
  have hend : name.buffer (i + (name.text.length - i)) = 0 := by
    rw [Nat.add_sub_cancel' hi, name.buffer_length]
  rw [wcharString, copyWchars, List.range_add, List.map_append, hcopy, List.append_assoc,
    List.takeWhile_append_of_pos hnul, Nat.add_comm 1 m, List.range_succ_eq_map]
  simp [hend]

/-- A copy that ends before the terminator holds that part of the string. -/
theorem wcharString_copy_part {i n : Nat} (hn : i + n ≤ name.text.length) :
    wcharString (copyWchars name.buffer i n ++ [0]) = (name.text.drop i).take n := by
  have hcopy : copyWchars name.buffer i n = (name.text.drop i).take n := by
    apply List.ext_getElem (by simp [copyWchars]; omega)
    intro k hk _
    simp only [copyWchars, List.length_map, List.length_range] at hk
    simp only [copyWchars, List.getElem_map, List.getElem_range, List.getElem_take,
      List.getElem_drop]
    exact name.buffer_of_lt (by omega)
  rw [wcharString, hcopy, List.takeWhile_append_of_pos]
  · simp
  · intro c hc
    simpa using name.ne_nul (List.mem_of_mem_take hc)

/-- The first component starts behind a leading backslash. -/
def moduleStart (text : List Wchar) : Nat := if text.head? = some backslash then 1 else 0

theorem fuseAllocateModuleName_eq (text : List Wchar) :
    fuseAllocateModuleName text = (text.drop (moduleStart text)).takeWhile (· ≠ backslash) := by
  unfold fuseAllocateModuleName moduleStart
  split
  · rfl
  · rfl

theorem buffer_zero_eq_backslash (h : name.text ≠ []) :
    name.buffer 0 = backslash ↔ name.text.head? = some backslash := by
  rw [name.buffer_of_lt (List.length_pos_iff.mpr h), List.head?_eq_getElem?,
    List.getElem?_eq_getElem (List.length_pos_iff.mpr h), Option.some.injEq]

/-- In a string, the search for a backslash or the terminator is one for a
    backslash. -/
theorem takeWhile_separator {l : List Wchar} (hl : ∀ c ∈ l, c ≠ 0) :
    (l.takeWhile fun c => !(c == backslash || c == 0)) = l.takeWhile (· ≠ backslash) := by
  induction l with
  | nil => rfl
  | cons c rest ih =>
      have hc : (c == 0) = false := by simpa using hl c (List.mem_cons_self ..)
      rw [List.takeWhile_cons, List.takeWhile_cons, hc,
        ih fun d hd => hl d (List.mem_cons_of_mem _ hd)]
      by_cases hb : c = backslash <;> simp [hb]

/-- Where the search for the end of a component stops. -/
theorem scan_separator {fuel i : Nat} (hi : i ≤ name.text.length)
    (hfuel : name.text.length < fuel) :
    scanWchars (fun c => c == backslash || c == 0) name.buffer fuel i =
      some (i + ((name.text.drop i).takeWhile (· ≠ backslash)).length) := by
  rw [scanWchars_eq name (by decide) hi (by omega), takeWhile_separator fun c => name.ne_nul]

theorem length_takeWhile_drop_le {i : Nat} (hi : i ≤ name.text.length) :
    i + ((name.text.drop i).takeWhile (· ≠ backslash)).length ≤ name.text.length := by
  have := (List.takeWhile_prefix (l := name.text.drop i) (· ≠ backslash)).length_le
  rw [List.length_drop] at this
  omega

/-- The rest behind a component is empty or starts with a backslash. -/
theorem dropWhile_cases (l : List Wchar) :
    l.dropWhile (· ≠ backslash) = [] ∨ ∃ rest, l.dropWhile (· ≠ backslash) = backslash :: rest := by
  cases hd : l.dropWhile (· ≠ backslash) with
  | nil => exact Or.inl rfl
  | cons c rest =>
      have hc := List.head?_dropWhile_not (p := (· ≠ backslash)) (l := l)
      rw [hd] at hc
      obtain rfl : c = backslash := by simpa using hc
      exact Or.inr ⟨rest, rfl⟩

/-- `wcsstr` finds the backslash behind the component, if there is one. -/
theorem wcsstrBackslash_eq {fuel i : Nat} (hi : i ≤ name.text.length)
    (hfuel : name.text.length < fuel) :
    wcsstrBackslash fuel name.buffer i =
      some (if backslash ∈ name.text.drop i then
        some (i + ((name.text.drop i).takeWhile (· ≠ backslash)).length) else none) := by
  have hsplit := List.takeWhile_append_dropWhile (p := (· ≠ backslash)) (l := name.text.drop i)
  simp only [wcsstrBackslash, scan_separator name hi hfuel, Option.bind_eq_bind, Option.bind_some]
  rcases dropWhile_cases (name.text.drop i) with hnil | ⟨rest, hrest⟩
  · rw [hnil, List.append_nil] at hsplit
    have hend : i + (name.text.drop i).length = name.text.length := by
      rw [List.length_drop]
      omega
    have hno : backslash ∉ name.text.drop i := by
      intro hmem
      rw [← hsplit] at hmem
      simpa using List.mem_takeWhile_imp hmem
    rw [hsplit, hend, name.buffer_length, if_neg hno]
    rfl
  · have hmem : backslash ∈ name.text.drop i := by
      rw [← hsplit, hrest]
      simp
    rw [if_pos hmem]
    generalize hn : ((name.text.drop i).takeWhile (· ≠ backslash)) = component at hsplit ⊢
    rw [hrest] at hsplit
    have hlt : i + component.length < name.text.length := by
      have := congrArg List.length hsplit
      rw [List.length_append, List.length_cons, List.length_drop] at this
      omega
    have hat : name.text[i + component.length] = backslash := by
      rw [← List.getElem_drop (h := by rw [List.length_drop]; omega)]
      simp only [← hsplit]
      simp
    rw [name.buffer_of_lt hlt, hat, if_pos rfl]

/-- The `*Length` of `FuseExtractModuleName`: the length of the first component
    if a backslash ends it, and otherwise one computed from `FileName.Length`. -/
def moduleNameLength (name : UnicodeString) : Nat :=
  if backslash ∈ name.text.drop (moduleStart name.text) then
    (fuseAllocateModuleName name.text).length
  else name.length - moduleStart name.text

theorem moduleStart_le (text : List Wchar) : moduleStart text ≤ text.length := by
  cases text with
  | nil => simp [moduleStart]
  | cons c rest =>
      unfold moduleStart
      split <;> simp

theorem start_object (h : name.text ≠ []) : name.object.start = moduleStart name.text := by
  rw [ObjectName.start, moduleStart, UnicodeString.object_buffer]
  exact if_congr (buffer_zero_eq_backslash name h) rfl rfl

/-- `FuseExtractModuleName` returns for every name that a NUL ends. -/
theorem fuseExtractModuleName_eq {fuel : Nat} (hfuel : name.text.length < fuel) :
    fuseExtractModuleName fuel name = some (moduleStart name.text, moduleNameLength name) := by
  by_cases h : name.text = []
  · have hlen : name.length = 0 := by simp [UnicodeString.length, h]
    rw [fuseExtractModuleName_of_empty (List.length_eq_zero_iff.mpr h)]
    simp [moduleNameLength, moduleStart, h, hlen]
  have hle := moduleStart_le name.text
  have hend := length_takeWhile_drop_le name hle
  have hstart := start_object name h
  have hstop : name.object.StopsAt (moduleStart name.text +
      ((name.text.drop (moduleStart name.text)).takeWhile (· ≠ backslash)).length) := by
    apply ObjectName.stopsAt_of_scan
    rw [hstart]
    exact scan_separator name hle hfuel
  rw [fuseExtractModuleName_of_stops (List.length_pos_iff.mpr h) hstop (by omega), hstart,
    Option.some.injEq, Prod.mk.injEq]
  refine ⟨rfl, ?_⟩
  -- the search and the test of the character agree on whether a backslash was found
  have hfound := wcsstrBackslash_eq name hle hfuel
  simp only [wcsstrBackslash, scan_separator name hle hfuel, Option.bind_eq_bind, Option.bind_some,
    Option.some.injEq] at hfound
  rw [ObjectName.reported, moduleNameLength, hstart, fuseAllocateModuleName_eq,
    UnicodeString.object_buffer]
  by_cases hmem : backslash ∈ name.text.drop (moduleStart name.text)
  · rw [if_pos hmem] at hfound ⊢
    split at hfound
    case isTrue hb => rw [if_pos hb, Nat.add_sub_cancel_left]
    case isFalse => cases hfound
  · rw [if_neg hmem] at hfound ⊢
    split at hfound
    case isTrue => cases hfound
    case isFalse hb => rw [if_neg hb, UnicodeString.object_length]

/-- `FuseAllocateModuleName` returns the first component. -/
theorem moduleNameBlock_eq (h : name.text ≠ []) {fuel : Nat} (hfuel : name.text.length < fuel) :
    ∃ block, moduleNameBlock fuel name = some block ∧
      wcharString block = fuseAllocateModuleName name.text := by
  have hpos := List.length_pos_iff.mpr h
  have hlen : name.length = 2 * name.text.length := rfl
  have hle := moduleStart_le name.text
  have hone : moduleStart name.text ≤ 1 := by
    unfold moduleStart
    split <;> omega
  simp only [moduleNameBlock, fuseExtractModuleName_eq name hfuel, UnicodeString.object_buffer,
    Option.bind_eq_bind, Option.bind_some]
  refine ⟨_, rfl, ?_⟩
  unfold moduleNameLength
  rw [fuseAllocateModuleName_eq]
  split
  case isTrue =>
      -- a backslash ends the component
      rw [wcharString_copy_part name (length_takeWhile_drop_le name hle)]
      exact (List.prefix_iff_eq_take.mp (List.takeWhile_prefix _)).symm
  case isFalse hno =>
      -- the terminator does, and the copy goes on behind it
      rw [wcharString_copy name hle (by omega), eq_comm, List.takeWhile_eq_self_iff]
      intro c hc
      simpa using ne_of_mem_of_not_mem hc hno

/-- `FuseCheckForWork` sends the rest. -/
theorem requestNameBlock_eq (h : name.text ≠ []) {fuel : Nat} (hfuel : name.text.length < fuel) :
    ∃ block, requestNameBlock fuel name = some block ∧
      wcharString block = requestName name.text := by
  have hpos : 1 ≤ name.text.length := List.length_pos_iff.mpr h
  have hend := length_takeWhile_drop_le name hpos
  simp only [requestNameBlock, UnicodeString.object_buffer, scan_separator name hpos hfuel, wcslen_eq name hend hfuel,
    Option.bind_eq_bind, Option.bind_some]
  refine ⟨_, rfl, ?_⟩
  rw [← List.append_nil (copyWchars ..), wcharString_copy name hend (Nat.lt_succ_self _),
    requestName, ← List.drop_drop]
  nth_rewrite 2 [← List.takeWhile_append_dropWhile (p := (· ≠ backslash)) (l := name.text.drop 1)]
  exact List.drop_left

/-- `IRP_FUSE_MOUNT` makes the key of everything but the first character. -/
theorem mountNameBlock_eq (h : name.text ≠ []) :
    wcharString (mountNameBlock name) = mountName name.text := by
  have hpos := List.length_pos_iff.mpr h
  have hlen : name.length = 2 * name.text.length := rfl
  rw [← List.append_nil (mountNameBlock name)]
  exact wcharString_copy name hpos (by rw [UnicodeString.object_length]; omega) []

end Blocks

-- ============================================================================
-- A name has one split
-- ============================================================================

/-- A file name is a leading backslash, if there is one, the name `M` of the
    module, and the path `P` within the module. -/
structure NameSplit (text M P : List Wchar) : Prop where
  split : text = (if text.head? = some backslash then [backslash] else []) ++ M ++ P
  component : backslash ∉ M
  path : P = [] ∨ P.head? = some backslash

theorem nameSplit {text : List Wchar} (h : text ≠ []) :
    NameSplit text (fuseAllocateModuleName text) (requestName text) where
  split := by
    obtain ⟨c, rest, rfl⟩ := List.exists_cons_of_ne_nil h
    rw [fuseAllocateModuleName_eq, requestName, moduleStart, List.head?_cons]
    by_cases hc : c = backslash
    · simp [hc]
    · simp [hc]
  component := by
    intro hmem
    rw [fuseAllocateModuleName_eq] at hmem
    simpa using List.mem_takeWhile_imp hmem
  path := by
    rcases dropWhile_cases (text.drop 1) with hnil | ⟨rest, hrest⟩
    · exact Or.inl hnil
    · exact Or.inr (by rw [requestName, hrest]; rfl)

/-- What the routines make of a name: `FuseAllocateModuleName` returns `M`, and
    `FuseCheckForWork` sends `P`. -/
structure TakenApart (name : UnicodeString) (M P : List Wchar) : Prop where
  module : ∀ fuel, name.text.length < fuel →
    ∃ block, moduleNameBlock fuel name = some block ∧ wcharString block = M
  request : ∀ fuel, name.text.length < fuel →
    ∃ block, requestNameBlock fuel name = some block ∧ wcharString block = P

-- ============================================================================
-- Routing
-- ============================================================================

/-- The module at `addr` is mounted under the key `key`. -/
def Driver.Serves (d : Driver) (key : List Wchar) (addr : Addr) : Prop :=
  ∃ i, d.map i = some (some key, addr)

/-- `FuseAddUserspaceIrp` once it has found the module at `addr`. -/
def queueUserspaceIrp (fuel : Nat) (d : Driver) (p : Pirp) (addr a : Addr) :
    Option (Driver × NtStatus) := do
  let ms ← d.modules addr
  let (w, ms, _) ← fuseAddIrpToModuleList d.world ms p false a
  let (w, ms, _) ← fuseCheckForWork fuel w ms none
  some ({ d.setModule addr (some ms) with world := w }, statusPending)

/-- The packet `p` on the file object of `sp`, whose name belongs to the module
    `M`, is queued to the module that serves `M` and to no other: it becomes
    the last of that module's userspace queue, before work is looked for. -/
structure RoutedTo (d : Driver) (p : Pirp) (sp : IoStackLocation) (a : Addr) (M : List Wchar) :
    Prop where
  served : ∀ addr, d.Serves M addr →
    ∃ rounds, ∀ fuel, rounds ≤ fuel →
      fuseAddUserspaceIrp fuel d p sp a = queueUserspaceIrp fuel d p addr a
  queued : ∀ addr ms U Q O nxt, d.Serves M addr → d.modules addr = some ms →
    Rep d.world.heap ms U Q O nxt → d.world.heap a = none →
    ∃ w' ms', fuseAddIrpToModuleList d.world ms p false a = some (w', ms', true) ∧
      Rep w'.heap ms' (U ++ [(a, p)]) Q O nxt
  unserved : (∀ addr, ¬ d.Serves M addr) → ∀ fuel r, fuseAddUserspaceIrp fuel d p sp a = some r →
    r = ({ d with world := d.world.complete p }, statusSuccess)

section Routing

variable {d : Driver} {rs : List (List Wchar × Addr × Pfile)} {n : Nat} {p : Pirp}
  {sp : IoStackLocation} {a : Addr}

theorem Mapped.serves_iff (hm : Mapped d rs n) {key : List Wchar} {addr : Addr} :
    d.Serves key addr ↔ ∃ f, (key, addr, f) ∈ rs := by
  rw [Driver.Serves, ← hm.represents.mem_iff, List.mem_map]
  constructor
  · rintro ⟨⟨k, b, f⟩, hr, hkb⟩
    obtain ⟨rfl, rfl⟩ := Prod.mk.inj hkb
    exact ⟨f, hr⟩
  · rintro ⟨f, hr⟩
    exact ⟨_, hr, rfl⟩

/-- A request is queued to the module that serves the first component of its
    name. -/
theorem Mapped.routed (hm : Mapped d rs n)
    (hdist : ∀ key b c, d.Serves key b → d.Serves key c → b = c)
    (hne : (d.world.files sp.fileObject).text ≠ []) :
    RoutedTo d p sp a (fuseAllocateModuleName (d.world.files sp.fileObject).text) := by
  have hpos := List.length_pos_iff.mpr hne
  have hlen : 0 < (d.world.files sp.fileObject).length := by
    unfold UnicodeString.length
    omega
  generalize hM : fuseAllocateModuleName (d.world.files sp.fileObject).text = M
  constructor
  · intro addr hserves
    obtain ⟨f, hr⟩ := hm.serves_iff.mp hserves
    obtain ⟨rounds, hends⟩ := hm.represents.locate_bound
      (List.mem_map.mpr ⟨_, hr, rfl⟩) (homeSlot_lt M)
    refine ⟨rounds, fun fuel hfuel => ?_⟩
    obtain ⟨r, hloc⟩ := Option.isSome_iff_exists.mp (hends fuel hfuel)
    have hget : d.hmapGet fuel M = some (d, r.bind fun i => (d.map i).map Prod.snd) := by
      simp only [Driver.hmapGet, oaGetLocation_eq hm.static, hloc, Option.map_some,
        Option.bind_eq_bind, Option.bind_some]
    have hfound : (r.bind fun i => (d.map i).map Prod.snd) = some addr := by
      rcases hm.lookup hget with ⟨-, ⟨-, hall⟩ | ⟨pre, b, g, post, -, hfound, hrs, -⟩⟩
      · exact absurd rfl (hall _ hr)
      · rw [hfound, hdist M b addr (hm.serves_iff.mpr ⟨g, by rw [hrs]; simp⟩) hserves]
    simp only [fuseAddUserspaceIrp, hM, if_pos hlen, hget, hfound, Option.bind_eq_bind,
      Option.bind_some]
    rfl
  · intro addr ms U Q O nxt _ _ hrep hfree
    obtain ⟨h', ms', happ, hrep', -⟩ := appendIrp_userspace (p := p) hrep hfree
    refine ⟨{ d.world with heap := h', log := d.world.log ++ [.queuedUserspace p] }, ms', ?_, hrep'⟩
    simp only [fuseAddIrpToModuleList, Bool.false_eq_true, if_false, Option.bind_eq_bind,
      Option.bind_some, if_true, happ]
  · intro hno fuel r hcall
    simp only [fuseAddUserspaceIrp, hM, if_pos hlen] at hcall
    obtain ⟨⟨d₁, found⟩, hget, hcall⟩ := Option.bind_eq_some_iff.mp hcall
    obtain ⟨rfl, ⟨rfl, -⟩ | ⟨pre, b, g, post, ms, -, hrs, -⟩⟩ := hm.lookup hget
    · exact (Option.some.inj hcall).symm
    · exact absurd (hm.serves_iff.mpr ⟨g, by rw [hrs]; simp⟩) (hno b)

/-- While a slot is free, a request for a module that is not mounted is
    completed at once. -/
theorem Mapped.unserved_returns (hm : Mapped d rs n) (hn : n < hmapPresetSize)
    (hno : ∀ addr, ¬ d.Serves (fuseAllocateModuleName (d.world.files sp.fileObject).text) addr) :
    ∃ fuel, fuseAddUserspaceIrp fuel d p sp a =
      some ({ d with world := d.world.complete p }, statusSuccess) := by
  obtain ⟨found, hget⟩ := hmapGet_isSome hm.static hm.represents hn
    (fuseAllocateModuleName (d.world.files sp.fileObject).text)
  obtain ⟨-, ⟨rfl, -⟩ | ⟨pre, b, g, post, ms, -, hrs, -⟩⟩ := hm.lookup hget
  · refine ⟨hmapPresetSize, ?_⟩
    simp only [fuseAddUserspaceIrp, hget, Option.bind_eq_bind, Option.bind_some, ite_self]
  · exact absurd (hm.serves_iff.mpr ⟨g, by rw [hrs]; simp⟩) (hno b)

end Routing

/-- In every state the driver can reach, and for every request on a file with a
    name: the name is an optional backslash, what `FuseAllocateModuleName`
    returns and what `FuseCheckForWork` sends; a handle `\c` mounts the key `c`;
    and if no key is mounted twice the request is queued to the module that is
    mounted under the name's first component, and to no module if there is none. -/
theorem name_routing (w : World) {tr : List (System × SysCall)} {s : System}
    (hrun : Run SysStep (System.started w) tr s)
    (hdist : ∀ key b c, s.driver.Serves key b → s.driver.Serves key c → b = c)
    (p : Pirp) (irp : Irp) (sp : IoStackLocation) (a : Addr)
    (hne : (s.driver.world.files sp.fileObject).text ≠ []) :
    ∃ M P, TakenApart (s.driver.world.files sp.fileObject) M P ∧
      NameSplit (s.driver.world.files sp.fileObject).text M P ∧
      (∀ (handle : UnicodeString) c, handle.text = backslash :: c →
        wcharString (mountNameBlock handle) = c ∧ mountName handle.text = c) ∧
      RoutedTo (s.driver.setIrp p irp) p sp a M ∧
      (mountsIn tr < hmapPresetSize → (∀ addr, ¬ s.driver.Serves M addr) →
        ∃ fuel, fuseAddUserspaceIrp fuel (s.driver.setIrp p irp) p sp a =
          some ({ s.driver.setIrp p irp with world := (s.driver.world.setIrp p irp).complete p },
            statusSuccess)) := by
  obtain ⟨rs, hm⟩ := run_mapped w hrun
  have hm' := hm.irrelevant (s.driver.world.setIrp p irp).irps s.driver.world.files
  refine ⟨_, _, ⟨fun fuel hfuel => moduleNameBlock_eq _ hne hfuel,
    fun fuel hfuel => requestNameBlock_eq _ hne hfuel⟩, nameSplit hne, fun handle c hc => ?_,
    hm'.routed hdist hne, fun hn hno => hm'.unserved_returns hn hno⟩
  rw [mountNameBlock_eq handle (by rw [hc]; simp), hc]
  exact ⟨rfl, rfl⟩

/-- The module `v` is mounted, and a request on `\v\x` goes to it. -/
theorem name_routing_mounted :
    ∃ tr s, Run SysStep (System.started emptyWorld) tr s ∧ s.driver.Serves [118] 201 ∧
      ∃ rounds, ∀ fuel, rounds ≤ fuel →
        fuseAddUserspaceIrp fuel (s.driver.setIrp 21 (sampleReadOf 3)) 21
          { (default : IoStackLocation) with fileObject := 3 } 101 =
        queueUserspaceIrp fuel (s.driver.setIrp 21 (sampleReadOf 3)) 21 201 101 := by
  have h1 : Run SysStep (System.started emptyWorld) _ _ :=
    Run.nil.snoc (l := .openFile 1 sampleModuleName) (.openFile (by decide))
  have h2 := h1.snoc (l := .openFile 3 sampleFileName) (.openFile (by decide))
  have hrun := h2.snoc (l := .fsControl 11 (sampleMount 1) 201)
    (.fsControl 8 (by decide) rfl (by decide) rfl)
  refine ⟨_, _, hrun, ⟨5, rfl⟩, ?_⟩
  obtain ⟨M, P, hparts, -, -, hroute, -⟩ := name_routing emptyWorld hrun
    (by
      rintro key b c ⟨i, hi⟩ ⟨j, hj⟩
      have hi : (if i = 5 then some (some [118], 201) else none) = some (some key, b) := hi
      have hj : (if j = 5 then some (some [118], 201) else none) = some (some key, c) := hj
      have hb : 201 = b := by split at hi <;> simp_all
      have hc : 201 = c := by split at hj <;> simp_all
      rw [← hb, hc])
    21 (sampleReadOf 3) { (default : IoStackLocation) with fileObject := 3 } 101 (by decide)
  obtain ⟨block, hblock, hM⟩ := hparts.module 5 (by decide)
  obtain rfl : [118, 0] = block := Option.some.inj hblock
  obtain rfl : [118] = M := hM
  exact hroute.served 201 ⟨5, rfl⟩

end FuseNt
