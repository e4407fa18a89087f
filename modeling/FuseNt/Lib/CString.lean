/-
  FuseNt.Lib.CString

  Strings in buffers of a known length.

  A buffer is the list of its bytes.  The functions of the C library are partial:
  `none` stands for an access behind the buffer, such as by a function that
  looks for the end of a string that does not end within it.
-/

import Mathlib.Data.List.Basic

namespace FuseNt.Lib

/-- `strlen` of the string at the start of a buffer. -/
def strlen : List UInt8 → Option Nat
  | [] => none
  | b :: rest => if b = 0 then some 0 else (strlen rest).map (· + 1)

/-- `strchr`: the offset of the first `c` in the string at the start of a
    buffer, or `some none` if the string has none. -/
def strchr (c : UInt8) : List UInt8 → Option (Option Nat)
  | [] => none
  | b :: rest =>
      if b = c then some (some 0)
      else if b = 0 then some none
      else (strchr c rest).map (Option.map (· + 1))

/-- `buf[i] = b`. -/
def storeByte (buf : List UInt8) (i : Nat) (b : UInt8) : Option (List UInt8) :=
  if i < buf.length then some (buf.set i b) else none

/-- `memcpy` of some bytes to the start of a buffer. -/
def memcpyTo (buf bytes : List UInt8) : Option (List UInt8) :=
  if bytes.length ≤ buf.length then some (bytes ++ buf.drop bytes.length) else none

/-- The string at the start of a buffer, if it ends within it. -/
def stringIn (buf : List UInt8) : Option (List UInt8) := (strlen buf).map fun len => buf.take len

/-- `memmove` of `n` bytes at `src` to the start of their buffer. -/
def memmoveToFront (buf : List UInt8) (src n : Nat) : Option (List UInt8) :=
  if src + n ≤ buf.length then some ((buf.drop src).take n ++ buf.drop n) else none

section Strings

variable {c : UInt8} {text post buf : List UInt8}

theorem strlen_append (h : 0 ∉ text) : strlen (text ++ 0 :: post) = some text.length := by
  induction text with
  | nil => rfl
  | cons b rest ih =>
      rw [List.mem_cons, not_or] at h
      rw [List.cons_append, strlen, if_neg (Ne.symm h.1), ih h.2]
      rfl

theorem strlen_eq_none (h : 0 ∉ buf) : strlen buf = none := by
  induction buf with
  | nil => rfl
  | cons b rest ih =>
      rw [List.mem_cons, not_or] at h
      rw [strlen, if_neg (Ne.symm h.1), ih h.2]
      rfl

theorem strlen_eq_some {len : Nat} : strlen buf = some len ↔
    ∃ text post, buf = text ++ 0 :: post ∧ 0 ∉ text ∧ text.length = len := by
  constructor
  · intro h
    have hmem : 0 ∈ buf := by
      by_contra hno
      rw [strlen_eq_none hno] at h
      cases h
    obtain ⟨text, post, rfl, hnul⟩ := List.eq_append_cons_of_mem hmem
    rw [strlen_append hnul] at h
    exact ⟨text, post, rfl, hnul, Option.some.inj h⟩
  · rintro ⟨text, post, rfl, hnul, rfl⟩
    exact strlen_append hnul

theorem stringIn_append (h : 0 ∉ text) : stringIn (text ++ 0 :: post) = some text := by
  rw [stringIn, strlen_append h, Option.map_some, List.take_left]

theorem stringIn_eq_some : stringIn buf = some text ↔ 0 ∉ text ∧ ∃ post, buf = text ++ 0 :: post := by
  constructor
  · intro h
    obtain ⟨len, hlen, htake⟩ := Option.map_eq_some_iff.mp h
    obtain ⟨t, post, rfl, hnul, rfl⟩ := strlen_eq_some.mp hlen
    rw [List.take_left] at htake
    subst htake
    exact ⟨hnul, post, rfl⟩
  · rintro ⟨hnul, post, rfl⟩
    exact stringIn_append hnul

theorem strchr_found (hc : c ∉ text) (h : 0 ∉ text) :
    strchr c (text ++ c :: post) = some (some text.length) := by
  induction text with
  | nil => rw [List.nil_append, strchr, if_pos rfl, List.length_nil]
  | cons b rest ih =>
      rw [List.mem_cons, not_or] at hc h
      rw [List.cons_append, strchr, if_neg (Ne.symm hc.1), if_neg (Ne.symm h.1), ih hc.2 h.2]
      rfl

theorem strchr_missing (hc : c ∉ text) (h : 0 ∉ text) (hne : c ≠ 0) :
    strchr c (text ++ 0 :: post) = some none := by
  induction text with
  | nil => rw [List.nil_append, strchr, if_neg hne.symm, if_pos rfl]
  | cons b rest ih =>
      rw [List.mem_cons, not_or] at hc h
      rw [List.cons_append, strchr, if_neg (Ne.symm hc.1), if_neg (Ne.symm h.1), ih hc.2 h.2]
      rfl

theorem nul_mem_of_strchr (h : strchr c buf = some none) : 0 ∈ buf := by
  induction buf with
  | nil => cases h
  | cons b rest ih =>
      rw [strchr] at h
      split at h
      case isTrue => cases h
      case isFalse =>
      split at h
      case isTrue hb =>
          rw [hb]
          exact List.mem_cons_self
      case isFalse =>
          obtain ⟨r, hr, hnone⟩ := Option.map_eq_some_iff.mp h
          obtain rfl := Option.map_eq_none_iff.mp hnone
          exact List.mem_cons_of_mem _ (ih hr)

theorem strchr_eq_some {k : Nat} (h : strchr c buf = some (some k)) :
    ∃ text post, buf = text ++ c :: post ∧ text.length = k ∧ 0 ∉ text := by
  induction buf generalizing k with
  | nil => cases h
  | cons b rest ih =>
      rw [strchr] at h
      split at h
      case isTrue hb =>
          cases h
          exact ⟨[], rest, by rw [hb]; rfl, rfl, List.not_mem_nil⟩
      case isFalse =>
      split at h
      case isTrue => cases h
      case isFalse hzero =>
          obtain ⟨r, hr, hsome⟩ := Option.map_eq_some_iff.mp h
          obtain ⟨j, rfl, rfl⟩ := Option.map_eq_some_iff.mp hsome
          obtain ⟨text, post, rfl, rfl, hnul⟩ := ih hr
          refine ⟨b :: text, post, rfl, rfl, ?_⟩
          rw [List.mem_cons, not_or]
          exact ⟨Ne.symm hzero, hnul⟩

theorem storeByte_append (text post : List UInt8) (b c : UInt8) :
    storeByte (text ++ c :: post) text.length b = some (text ++ b :: post) := by
  have hlt : text.length < (text ++ c :: post).length := by
    rw [List.length_append, List.length_cons]
    omega
  rw [storeByte, if_pos hlt, List.set_append_right _ _ (Nat.le_refl _), Nat.sub_self]
  rfl

/-- The end of a buffer moved to the front, and terminated. -/
theorem memmoveToFront_storeByte {src n : Nat} (hsrc : src + n ≤ buf.length) (hn : n < buf.length) :
    (memmoveToFront buf src n).bind (fun moved => storeByte moved n 0) =
      some ((buf.drop src).take n ++ 0 :: buf.drop (n + 1)) := by
  have hlen : ((buf.drop src).take n).length = n := by
    rw [List.length_take, List.length_drop]
    omega
  have hdrop : buf.drop n = buf[n] :: buf.drop (n + 1) := List.drop_eq_getElem_cons hn
  rw [memmoveToFront, if_pos hsrc, Option.bind_some, storeByte, if_pos]
  · rw [List.set_append_right _ _ (by omega), hlen, Nat.sub_self, hdrop]
    rfl
  · rw [List.length_append, hlen, List.length_drop]
    omega

end Strings

end FuseNt.Lib
