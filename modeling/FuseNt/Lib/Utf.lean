/-
  FuseNt.Lib.Utf

  Texts in UTF-8 and in UTF-16LE.

  A text is a list of characters; its encodings are lists of bytes.  A character
  takes at most twice as many bytes in UTF-16 as in UTF-8.

  `Utf16Converter` is what a program can rely on of a conversion into a buffer:
  characters are converted one by one as long as there is room.  What becomes of
  bytes that are no text is left open; `leavingOut` is a converter that leaves
  them out.
-/

import FuseNt.Lib.Bytes

namespace FuseNt.Lib

/-- The bytes of a text in UTF-8. -/
def utf8 (text : List Char) : List UInt8 := text.flatMap String.utf8EncodeChar

/-- The bytes of a character in UTF-16LE: one unit, or a surrogate pair. -/
def utf16leChar (c : Char) : List UInt8 :=
  if c.toNat < 0x10000 then leBytes 2 c.toNat
  else
    leBytes 2 (0xd800 + (c.toNat - 0x10000) / 0x400) ++
      leBytes 2 (0xdc00 + (c.toNat - 0x10000) % 0x400)

/-- The bytes of a text in UTF-16LE. -/
def utf16le (text : List Char) : List UInt8 := text.flatMap utf16leChar

theorem length_utf16leChar (c : Char) :
    2 ≤ (utf16leChar c).length ∧ (utf16leChar c).length ≤ 2 * (String.utf8EncodeChar c).length := by
  rw [String.length_utf8EncodeChar]
  have hpos := c.utf8Size_pos
  unfold utf16leChar
  split
  case isTrue =>
      rw [length_leBytes]
      omega
  case isFalse hlarge =>
      -- four bytes in both encodings
      have hsize : c.utf8Size = 4 := by
        rw [Char.utf8Size_eq_four_iff, UInt32.lt_iff_toNat_lt]
        have hval : ¬ c.val.toNat < 0x10000 := hlarge
        have hlast : (0xffff : UInt32).toNat = 0xffff := rfl
        omega
      simp only [List.length_append, length_leBytes]
      omega

theorem length_utf16le_le (text : List Char) : (utf16le text).length ≤ 2 * (utf8 text).length := by
  induction text with
  | nil => exact Nat.le_refl _
  | cons c rest ih =>
      have hchar := (length_utf16leChar c).2
      simp only [utf16le, utf8, List.flatMap_cons, List.length_append] at ih ⊢
      omega

theorem two_le_length_utf16le {text : List Char} (h : text ≠ []) : 2 ≤ (utf16le text).length := by
  cases text with
  | nil => exact absurd rfl h
  | cons c rest =>
      have hchar := (length_utf16leChar c).1
      simp only [utf16le, List.flatMap_cons, List.length_append]
      omega

/-- The text that some bytes are in UTF-8, in UTF-16LE. -/
def utf8ToUtf16le (bytes : List UInt8) : Option (List UInt8) :=
  (String.fromUTF8? bytes.toByteArray).map fun text => utf16le text.toList

theorem utf8ToUtf16le_utf8 (text : List Char) : utf8ToUtf16le (utf8 text) = some (utf16le text) := by
  have hbytes : (utf8 text).toByteArray = (String.ofList text).toByteArray := by
    rw [String.toByteArray_ofList]
    rfl
  have htext : String.fromUTF8? (utf8 text).toByteArray = some (String.ofList text) := by
    rw [hbytes, String.fromUTF8?, dif_pos (String.ofList text).isValidUTF8]
    rfl
  rw [utf8ToUtf16le, htext, Option.map_some, String.toList_ofList]

/-- Only a text in UTF-8 is converted. -/
theorem eq_utf8_of_utf8ToUtf16le {bytes out : List UInt8} (h : utf8ToUtf16le bytes = some out) :
    ∃ text, bytes = utf8 text ∧ out = utf16le text := by
  unfold utf8ToUtf16le String.fromUTF8? at h
  split at h
  case isFalse => cases h
  case isTrue hvalid =>
  rw [Option.map_some, Option.some.injEq] at h
  refine ⟨_, ?_, h.symm⟩
  have htext : (String.fromUTF8 bytes.toByteArray hvalid).toList.utf8Encode = bytes.toByteArray :=
    String.utf8Encode_toList
  exact (List.toByteArray_inj.mp htext).symm

-- ============================================================================
-- From UTF-16 to UTF-8
-- ============================================================================

/-- A conversion from UTF-16LE to UTF-8: `convert n input` is what is written to a
    buffer of `n` bytes.  It writes the characters one by one, and stops before
    the first one that there is no room for. -/
structure Utf16Converter where
  convert : Nat → List UInt8 → List UInt8
  length_le : ∀ n input, (convert n input).length ≤ n
  fits : ∀ n text rest, (utf8 text).length ≤ n →
    ∃ more, convert n (utf16le text ++ rest) = utf8 text ++ more
  full : ∀ n text c rest, (utf8 text).length ≤ n → n < (utf8 (text ++ [c])).length →
    convert n (utf16le (text ++ [c]) ++ rest) = utf8 text

/-- The first character of some bytes in UTF-16LE, and the bytes behind it. -/
def decodeUtf16le : List UInt8 → Option (Char × List UInt8)
  | a :: b :: rest =>
      let u := leNat [a, b]
      if u < 0xd800 ∨ 0xdfff < u then some (Char.ofNat u, rest)
      else if u < 0xdc00 then
        match rest with
        | c :: d :: rest =>
            let v := leNat [c, d]
            if 0xdc00 ≤ v ∧ v ≤ 0xdfff then
              some (Char.ofNat (0x10000 + ((u - 0xd800) * 0x400 + (v - 0xdc00))), rest)
            else none
        | _ => none
      else none
  | _ => none

/-- The conversion to at most `n` bytes that leaves out every unit that is not
    part of a character, in at most `fuel` steps. -/
def convertUtf16le : Nat → Nat → List UInt8 → List UInt8
  | 0, _, _ => []
  | fuel + 1, n, input =>
      match decodeUtf16le input with
      | none => if input.length < 2 then [] else convertUtf16le fuel n (input.drop 2)
      | some (c, rest) =>
          let encoded := String.utf8EncodeChar c
          if encoded.length ≤ n then encoded ++ convertUtf16le fuel (n - encoded.length) rest
          else []

section Decode

variable {c : Char} {n fuel : Nat} {input rest : List UInt8}

theorem toNat_char_bounds (c : Char) :
    c.toNat < 0xd800 ∨ 0xdfff < c.toNat ∧ c.toNat < 0x110000 := c.valid

theorem exists_leBytes_two (n : Nat) : ∃ a b, leBytes 2 n = [a, b] := ⟨_, _, rfl⟩

/-- A character is read back. -/
theorem decodeUtf16le_utf16leChar (c : Char) (rest : List UInt8) :
    decodeUtf16le (utf16leChar c ++ rest) = some (c, rest) := by
  have hc := toNat_char_bounds c
  unfold utf16leChar
  split
  case isTrue hsmall =>
      obtain ⟨a, b, hab⟩ := exists_leBytes_two c.toNat
      have hu : leNat [a, b] = c.toNat := by
        rw [← hab]
        exact leNat_leBytes_of_lt (by omega)
      rw [hab]
      simp only [List.cons_append, List.nil_append, decodeUtf16le, hu]
      rw [if_pos (by omega), Char.ofNat_toNat]
  case isFalse hlarge =>
      generalize hm : c.toNat - 0x10000 = m
      obtain ⟨a, b, hab⟩ := exists_leBytes_two (0xd800 + m / 0x400)
      obtain ⟨a', b', hab'⟩ := exists_leBytes_two (0xdc00 + m % 0x400)
      have hu : leNat [a, b] = 0xd800 + m / 0x400 := by
        rw [← hab]
        exact leNat_leBytes_of_lt (by omega)
      have hv : leNat [a', b'] = 0xdc00 + m % 0x400 := by
        rw [← hab']
        exact leNat_leBytes_of_lt (by omega)
      rw [hab, hab']
      simp only [List.cons_append, List.nil_append, decodeUtf16le, hu, hv]
      rw [if_neg (by omega), if_pos (by omega), if_pos (by omega)]
      have hsum : 0x10000 + ((0xd800 + m / 0x400 - 0xd800) * 0x400 +
          (0xdc00 + m % 0x400 - 0xdc00)) = c.toNat := by
        omega
      rw [hsum, Char.ofNat_toNat]

theorem length_convertUtf16le_le : (convertUtf16le fuel n input).length ≤ n := by
  induction fuel generalizing n input with
  | zero => exact Nat.zero_le _
  | succ fuel ih =>
      rw [convertUtf16le]
      split
      case h_1 =>
          split
          case isTrue => exact Nat.zero_le _
          case isFalse => exact ih
      case h_2 c rest _ =>
          dsimp only
          split
          case isTrue hroom =>
              have hrest : (convertUtf16le fuel (n - (String.utf8EncodeChar c).length)
                  rest).length ≤ n - (String.utf8EncodeChar c).length := ih
              rw [List.length_append]
              omega
          case isFalse => exact Nat.zero_le _

/-- A text is converted character by character. -/
theorem convertUtf16le_text (text : List Char) (rest : List UInt8) (fuel n : Nat)
    (hfuel : (utf16le text).length ≤ fuel) (hroom : (utf8 text).length ≤ n) :
    ∃ fuel', fuel ≤ fuel' + (utf16le text).length ∧
      convertUtf16le fuel n (utf16le text ++ rest) =
        utf8 text ++ convertUtf16le fuel' (n - (utf8 text).length) rest := by
  induction text generalizing fuel n with
  | nil => exact ⟨fuel, le_rfl, rfl⟩
  | cons c text ih =>
      have hchar := (length_utf16leChar c).1
      simp only [utf16le, utf8, List.flatMap_cons, List.length_append, List.append_assoc] at *
      obtain ⟨fuel, rfl⟩ : ∃ k, fuel = k + 1 := ⟨fuel - 1, by omega⟩
      obtain ⟨fuel', hle, hrest⟩ := ih fuel (n - (String.utf8EncodeChar c).length) (by omega) (by omega)
      refine ⟨fuel', by omega, ?_⟩
      rw [convertUtf16le, decodeUtf16le_utf16leChar]
      dsimp only
      rw [if_pos (by omega), hrest, Nat.sub_sub]

theorem utf16le_append (text text' : List Char) :
    utf16le (text ++ text') = utf16le text ++ utf16le text' := List.flatMap_append

theorem utf8_append (text text' : List Char) : utf8 (text ++ text') = utf8 text ++ utf8 text' :=
  List.flatMap_append

/-- Bytes that are no text are left out. -/
def leavingOut : Utf16Converter where
  convert n input := convertUtf16le input.length n input
  length_le _ _ := length_convertUtf16le_le
  fits n text rest hroom := by
    obtain ⟨fuel', -, h⟩ := convertUtf16le_text text rest (utf16le text ++ rest).length n
      (by rw [List.length_append]; omega) hroom
    exact ⟨_, h⟩
  full n text c rest hroom hfull := by
    obtain ⟨fuel', -, h⟩ := convertUtf16le_text text (utf16le [c] ++ rest)
      (utf16le (text ++ [c]) ++ rest).length n
      (by rw [utf16le_append]; simp only [List.length_append]; omega) hroom
    rw [utf8_append, List.length_append] at hfull
    rw [utf16le_append, List.append_assoc] at *
    rw [h]
    cases fuel' with
    | zero => exact List.append_nil _
    | succ fuel' =>
        have hchar : utf16le [c] = utf16leChar c := List.append_nil _
        have hbytes : utf8 [c] = String.utf8EncodeChar c := List.append_nil _
        rw [hbytes] at hfull
        rw [hchar, convertUtf16le, decodeUtf16le_utf16leChar]
        dsimp only
        rw [if_neg (by omega), List.append_nil]

/-- Only the NUL character has a zero byte. -/
theorem eq_nul_of_mem (h : 0 ∈ String.utf8EncodeChar c) : c = Char.ofNat 0 := by
  have hzero : ∀ k, 0 < k → k < 256 → ¬ (0 : UInt8) = UInt8.ofNat k := by
    intro k hpos hlt heq
    have hnat := congrArg UInt8.toNat heq
    rw [UInt8.toNat_ofNat', Nat.mod_eq_of_lt hlt] at hnat
    exact absurd hnat (by simp; omega)
  unfold String.utf8EncodeChar at h
  dsimp only at h
  split at h
  case isTrue hascii =>
      rw [List.mem_singleton] at h
      have hval : c.toNat = 0 := by
        by_contra hne
        exact hzero c.val.toNat (Nat.pos_of_ne_zero hne) (by omega) h
      rw [← c.ofNat_toNat, hval]
  case isFalse =>
      exfalso
      split at h
      case isTrue =>
          simp only [List.mem_cons, List.not_mem_nil, or_false] at h
          rcases h with h | h <;> exact hzero _ (by omega) (by omega) h
      case isFalse =>
      split at h
      case isTrue =>
          simp only [List.mem_cons, List.not_mem_nil, or_false] at h
          rcases h with h | h | h <;> exact hzero _ (by omega) (by omega) h
      case isFalse =>
          simp only [List.mem_cons, List.not_mem_nil, or_false] at h
          rcases h with h | h | h | h <;> exact hzero _ (by omega) (by omega) h

theorem nul_notMem_utf8 {text : List Char} (h : Char.ofNat 0 ∉ text) : 0 ∉ utf8 text := by
  intro hmem
  obtain ⟨c, hc, hzero⟩ := List.mem_flatMap.mp hmem
  exact h (eq_nul_of_mem hzero ▸ hc)

/-- Of a text that is too long, a first part is the most that fits. -/
theorem exists_prefix_full {text : List Char} (h : n < (utf8 text).length) :
    ∃ first c more, text = first ++ c :: more ∧ (utf8 first).length ≤ n ∧
      n < (utf8 (first ++ [c])).length := by
  induction text generalizing n with
  | nil => exact absurd h (Nat.not_lt_zero n)
  | cons c text ih =>
      by_cases hc : n < (utf8 [c]).length
      · exact ⟨[], c, text, rfl, Nat.zero_le n, hc⟩
      · rw [← List.singleton_append, utf8_append, List.length_append] at h
        obtain ⟨first, d, more, rfl, hle, hlt⟩ := @ih (n - (utf8 [c]).length) (by omega)
        refine ⟨c :: first, d, more, rfl, ?_, ?_⟩
        · rw [← List.singleton_append, utf8_append, List.length_append]
          omega
        · rw [List.cons_append, ← List.singleton_append, utf8_append, List.length_append]
          omega

/-- The NUL behind a text is converted if there is room for it. -/
theorem Utf16Converter.nul_mem_iff (iconv : Utf16Converter) {text : List Char}
    (h : Char.ofNat 0 ∉ text) :
    0 ∈ iconv.convert n (utf16le text ++ 0 :: 0 :: rest) ↔ (utf8 text).length < n := by
  have hnul : utf16le text ++ 0 :: 0 :: rest = utf16le (text ++ [Char.ofNat 0]) ++ rest := by
    rw [utf16le_append, List.append_assoc]
    rfl
  have hbytes : utf8 (text ++ [Char.ofNat 0]) = utf8 text ++ [0] := by
    rw [utf8_append]
    rfl
  rw [hnul]
  constructor
  · intro hmem
    by_contra hlong
    have hfull : n < (utf8 (text ++ [Char.ofNat 0])).length := by
      rw [hbytes, List.length_append, List.length_singleton]
      omega
    obtain ⟨first, c, more, hsplit, hle, hlt⟩ := exists_prefix_full hfull
    rw [hsplit, List.append_cons first c more, utf16le_append, List.append_assoc,
      iconv.full n first c _ hle hlt] at hmem
    refine nul_notMem_utf8 (fun hfirst => ?_) hmem
    -- what is in front of the last character is part of the text
    have hbegins : first <+: text := by
      have hlast : (text ++ [Char.ofNat 0]).dropLast = (first ++ c :: more).dropLast := by rw [hsplit]
      rw [List.dropLast_concat, List.dropLast_append_of_ne_nil (List.cons_ne_nil c more)] at hlast
      exact ⟨_, hlast.symm⟩
    exact h (hbegins.subset hfirst)
  · intro hroom
    obtain ⟨more, hmore⟩ := iconv.fits n (text ++ [Char.ofNat 0]) rest (by
      rw [hbytes, List.length_append, List.length_singleton]
      omega)
    rw [hmore, hbytes]
    simp

end Decode

end FuseNt.Lib
