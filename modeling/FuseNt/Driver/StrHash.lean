/-
  FuseNt.Driver.StrHash

  `str_hash_fn` of hashmap.cc, Dan Bernstein's string hash over wide
  characters.  Both of its variables are static.  `hash` is reset at the
  start of every call, but the character `c` that controls the loop is not:
  it still holds what the previous call left, and is tested before it is
  first assigned.  A call therefore takes the static character and returns
  its new value.
-/

import FuseNt.Nt

namespace FuseNt

/-- The loop of `str_hash_fn` over the characters `s`, from character `i` on;
    `none` if the loop has not ended after `fuel` characters. -/
def strHashLoop (s : Nat → Wchar) : Nat → Nat → UInt32 → Wchar → Option (UInt32 × Wchar)
  | 0, _, hash, c => if c = 0 then some (hash, c) else none
  | fuel + 1, i, hash, c =>
      if c = 0 then some (hash, c)
      else strHashLoop s fuel (i + 1) (((hash <<< 5) + hash) + (s i).toUInt32) (s i)

/-- `str_hash_fn`, from the value `c` of its static character. -/
def strHashFn (fuel : Nat) (c : Wchar) (s : Nat → Wchar) : Option (UInt32 × Wchar) :=
  strHashLoop s fuel 0 5381 c

/-- Static storage starts out zero, and a call that starts from a zero
    character reads nothing, returns the seed and leaves the character zero. -/
theorem strHashFn_zero (fuel : Nat) (s : Nat → Wchar) :
    strHashFn fuel 0 s = some (5381, 0) := by
  cases fuel <;> rfl

-- ============================================================================
-- What the function is for
-- ============================================================================

/-- The hash that `str_hash_fn` is named after (djb2), from a value `h` over
    some characters: each step takes `h` to `33 * h + c`, modulo `2 ^ 32`. -/
def djb2From (h : UInt32) (chars : List Wchar) : UInt32 :=
  chars.foldl (fun h c => 33 * h + c.toUInt32) h

/-- The hash of some characters, from the seed 5381. -/
def djb2 (chars : List Wchar) : UInt32 := djb2From 5381 chars

/-- A NUL-terminated wide string in memory: its characters, and whatever
    stands behind its terminator. -/
structure WideString where
  text : List Wchar
  nonzero : 0 ∉ text
  behind : Nat → Wchar

namespace WideString

/-- The characters with the terminator. -/
def terminated (s : WideString) : List Wchar := s.text ++ [0]

/-- The memory from the first character on. -/
def chars (s : WideString) (i : Nat) : Wchar := s.terminated.getD i (s.behind i)

@[simp] theorem length_terminated (s : WideString) :
    s.terminated.length = s.text.length + 1 := by
  simp [terminated]

end WideString

/-- A call of `str_hash_fn` on a string, from the value `c` of its static
    character.  Each round of the loop reads one character, so the call is
    given as many rounds as the string has characters with its NUL: `none`
    if it reads on behind the NUL. -/
def strHashCall (c : Wchar) (s : WideString) : Option (UInt32 × Wchar) :=
  strHashFn s.terminated.length c s.chars

/-- The static character after some calls. -/
def strHashCalls : Wchar → List WideString → Option Wchar
  | c, [] => some c
  | c, s :: rest => do
      let (_, c) ← strHashCall c s
      strHashCalls c rest

/-- The call on `s`, after the calls on `earlier`, returns the hash of the
    string and reads no character behind its NUL.  Static storage starts out
    zero. -/
def HashesName (earlier : List WideString) (s : WideString) : Prop :=
  ∃ c c', strHashCalls 0 earlier = some c ∧
    strHashCall c s = some (djb2 s.terminated, c')

-- ============================================================================
-- The loop
-- ============================================================================

section Loop

variable {s : WideString} {c : Wchar} {hash : UInt32}

/-- The shift and the addition of the loop multiply by 33. -/
theorem shift_add_eq (hash : UInt32) : (hash <<< 5) + hash = 33 * hash := by
  rw [← UInt32.toNat_inj]
  simp only [UInt32.toNat_add, UInt32.toNat_shiftLeft, UInt32.toNat_mul, Nat.shiftLeft_eq,
    UInt32.reduceToNat, Nat.reduceMod, Nat.reducePow]
  omega

/-- Inside the string, from a character that is not a NUL, the loop adds the
    rest of the string and its NUL to the hash, and stops at the NUL. -/
theorem strHashLoop_eq {pre post : List Wchar} (hs : s.text = pre ++ post) (hc : c ≠ 0) :
    strHashLoop s.chars (post.length + 1) pre.length hash c =
      some (djb2From hash (post ++ [0]), 0) := by
  induction post generalizing pre c hash with
  | nil =>
      have hread : s.chars pre.length = 0 := by
        simp [WideString.chars, WideString.terminated, hs]
      simp [strHashLoop, hc, hread, djb2From, shift_add_eq]
  | cons x post ih =>
      have hread : s.chars pre.length = x := by
        simp [WideString.chars, WideString.terminated, hs]
      have hx : x ≠ 0 := by
        rintro rfl
        exact s.nonzero (by simp [hs])
      have hrest : s.text = (pre ++ [x]) ++ post := by simp [hs]
      have hnext : strHashLoop s.chars (post.length + 1) (pre.length + 1)
          (33 * hash + x.toUInt32) x =
          some (djb2From (33 * hash + x.toUInt32) (post ++ [0]), 0) := by
        simpa using ih hrest hx
      rw [List.length_cons, strHashLoop, if_neg hc, hread, shift_add_eq, hnext]
      rfl

/-- A call that enters the loop returns the hash of the string, and leaves
    the character zero. -/
theorem strHashCall_of_ne_zero (s : WideString) (hc : c ≠ 0) :
    strHashCall c s = some (djb2 s.terminated, 0) := by
  rw [strHashCall, strHashFn, WideString.length_terminated]
  have hloop := @strHashLoop_eq s c 5381 [] s.text rfl hc
  exact hloop

/-- But no call enters the loop: every call leaves the character zero, which
    is what the next one tests. -/
theorem strHashCalls_zero (earlier : List WideString) :
    strHashCalls 0 earlier = some 0 := by
  induction earlier with
  | nil => rfl
  | cons s rest ih => simpa [strHashCalls, strHashCall, strHashFn_zero] using ih

end Loop

/-- Every call returns the seed, so a string gets its hash only if that is the
    seed. -/
theorem strHashFn_name_iff (earlier : List WideString) (s : WideString) :
    HashesName earlier s ↔ djb2 s.terminated = 5381 := by
  unfold HashesName
  constructor
  · rintro ⟨c, c', hcalls, hcall⟩
    obtain rfl : (0 : Wchar) = c := by simpa [strHashCalls_zero] using hcalls
    rw [strHashCall, strHashFn_zero] at hcall
    exact (congrArg Prod.fst (Option.some.inj hcall)).symm
  · intro hseed
    refine ⟨0, 0, strHashCalls_zero earlier, ?_⟩
    rw [strHashCall, strHashFn_zero, hseed]

/-- The hash of the name `v` is not the seed. -/
theorem strHashFn_name_v :
    ¬ HashesName [] ⟨[0x76], by decide, fun _ => 0⟩ := by
  rintro ⟨c, c', hcalls, hcall⟩
  obtain rfl : (0 : Wchar) = c := by simpa [strHashCalls] using hcalls
  revert hcall
  simp [strHashCall, strHashFn_zero, djb2, djb2From, WideString.terminated]

end FuseNt
