/-
  FuseNt.Driver.Identity

  What no operation on a queue changes: the name and the file object of the
  module, the names of the open files, and the static character of
  `str_hash_fn`, which stays zero once it is.  These facts do not depend on the
  shape of the queues.
-/

import FuseNt.Driver.Io

namespace FuseNt

open FuseNt.Lib

-- ============================================================================
-- The static character
-- ============================================================================

/-- `str_hash_fn` ends at a terminator. -/
theorem strHashLoop_static {s : Nat → Wchar} {fuel i : Nat} {hash hash' : UInt32} {c c' : Wchar}
    (h : strHashLoop s fuel i hash c = some (hash', c')) : c' = 0 := by
  induction fuel generalizing i hash c with
  | zero =>
      unfold strHashLoop at h
      split at h
      · rename_i hc
        obtain ⟨-, rfl⟩ := Prod.mk.inj (Option.some.inj h)
        exact hc
      · contradiction
  | succ fuel ih =>
      unfold strHashLoop at h
      split at h
      · rename_i hc
        obtain ⟨-, rfl⟩ := Prod.mk.inj (Option.some.inj h)
        exact hc
      · exact ih h

theorem copyDirEntries_static {cls : DirClass} {msg : Mem} {fuel : Nat} {s s' : DirCopy}
    (h : copyDirEntries cls msg fuel s = some s') : s'.strHashC = s.strHashC := by
  induction fuel generalizing s with
  | zero => simp [copyDirEntries] at h
  | succ fuel ih =>
      unfold copyDirEntries at h
      split at h
      · split at h
        · exact (ih h).trans rfl
        · rw [← Option.some.inj h]
      · rw [← Option.some.inj h]

theorem copyNamesEntries_static {msg : Mem} {fuel : Nat} {s s' : DirCopy}
    (h : copyNamesEntries msg fuel s = some s') (hs : s.strHashC = 0) : s'.strHashC = 0 := by
  induction fuel generalizing s with
  | zero => simp [copyNamesEntries] at h
  | succ fuel ih =>
      unfold copyNamesEntries at h
      split at h
      · obtain ⟨s₁, hplace, h⟩ := Option.bind_eq_some_iff.mp h
        obtain ⟨⟨hash, c⟩, hhash, hplace⟩ := Option.bind_eq_some_iff.mp hplace
        refine ih h ?_
        rw [← Option.some.inj hplace]
        exact strHashLoop_static hhash
      · rwa [← Option.some.inj h]

/-- The static character of `str_hash_fn` is still zero after a response. -/
theorem fillResponse_static {fuel : Nat} {c : Wchar} {files : Pfile → UnicodeString}
    {irp irp' : Irp} {usp : IoStackLocation} {msg : Mem} {status : NtStatus}
    (h : fillResponse fuel 0 files irp usp msg = some (irp', status, c)) : c = 0 := by
  unfold fillResponse at h
  simp only at h
  split at h
  · split at h
    · obtain ⟨⟨irp₁, st⟩, -, h⟩ := Option.bind_eq_some_iff.mp h
      simp_all
    · simp_all
  · split at h
    · obtain ⟨d, hd, h⟩ := Option.bind_eq_some_iff.mp h
      obtain ⟨-, -, rfl⟩ : d.irp = irp' ∧ d.status = status ∧ d.strHashC = c := by simpa using h
      unfold fuseCopyDirectoryControl at hd
      obtain ⟨sp, -, hd⟩ := Option.bind_eq_some_iff.mp hd
      simp only at hd
      split at hd
      · obtain ⟨s, hs, hd⟩ := Option.bind_eq_some_iff.mp hd
        rw [← Option.some.inj hd]
        exact copyDirEntries_static hs
      · obtain ⟨s, hs, hd⟩ := Option.bind_eq_some_iff.mp hd
        rw [← Option.some.inj hd]
        exact copyNamesEntries_static hs rfl
      · rw [← Option.some.inj hd]
    · simp_all

/-- Cancelling a list does not hash, and renames no file. -/
theorem cancelList_static {fuel : Nat} {w w' : World} {head : Option Addr}
    (h : cancelList fuel w head = some w') :
    w'.strHashC = w.strHashC ∧ w'.files = w.files := by
  induction fuel generalizing w head with
  | zero =>
      cases head with
      | none =>
          rw [← Option.some.inj h]
          exact ⟨rfl, rfl⟩
      | some a => simp [cancelList] at h
  | succ fuel ih =>
      cases head with
      | none =>
          rw [← Option.some.inj h]
          exact ⟨rfl, rfl⟩
      | some a =>
          obtain ⟨c, -, h⟩ := Option.bind_eq_some_iff.mp h
          obtain ⟨hc, hf⟩ := ih h
          exact ⟨hc.trans rfl, hf.trans rfl⟩

theorem moduleStructDelete_static {fuel : Nat} {w w' : World} {ms : ModuleStruct}
    (h : moduleStructDelete fuel w ms = some w') :
    w'.strHashC = w.strHashC ∧ w'.files = w.files := by
  obtain ⟨w₁, h₁, h⟩ := Option.bind_eq_some_iff.mp h
  obtain ⟨w₂, h₂, h₃⟩ := Option.bind_eq_some_iff.mp h
  obtain ⟨hc₁, hf₁⟩ := cancelList_static h₁
  obtain ⟨hc₂, hf₂⟩ := cancelList_static h₂
  obtain ⟨hc₃, hf₃⟩ := cancelList_static h₃
  exact ⟨hc₃.trans (hc₂.trans hc₁), hf₃.trans (hf₂.trans hf₁)⟩

-- ============================================================================
-- The operations
-- ============================================================================

/-- The name and the file object of a module. -/
def ModuleStruct.identity (ms : ModuleStruct) : List Wchar × Pfile :=
  (ms.moduleName, ms.moduleFileObject)

/-- What every operation on the queues of `ms` keeps. -/
structure Keeps (w : World) (ms : ModuleStruct) (w' : World) (ms' : ModuleStruct) : Prop where
  identity : ms'.identity = ms.identity
  static : w.strHashC = 0 → w'.strHashC = 0
  files : w'.files = w.files

section Keeps

variable {w w' w'' : World} {ms ms' ms'' : ModuleStruct}

theorem Keeps.refl (w : World) (ms : ModuleStruct) : Keeps w ms w ms := ⟨rfl, id, rfl⟩

theorem Keeps.trans (h₁ : Keeps w ms w' ms') (h₂ : Keeps w' ms' w'' ms'') :
    Keeps w ms w'' ms'' :=
  ⟨h₂.identity.trans h₁.identity, fun h => h₂.static (h₁.static h), h₂.files.trans h₁.files⟩

theorem appendIrp_keeps {p : Pirp} {b : Bool} {a : Addr}
    (h : appendIrp w ms p b a = some (w', ms')) : Keeps w ms w' ms' := by
  unfold appendIrp at h
  split at h
  · obtain ⟨⟨heap, head⟩, -, h⟩ := Option.bind_eq_some_iff.mp h
    obtain ⟨rfl, rfl⟩ := Prod.mk.inj (Option.some.inj h)
    exact ⟨rfl, id, rfl⟩
  · obtain ⟨⟨heap, head⟩, -, h⟩ := Option.bind_eq_some_iff.mp h
    obtain ⟨rfl, rfl⟩ := Prod.mk.inj (Option.some.inj h)
    exact ⟨rfl, id, rfl⟩

theorem fuseAddIrpToModuleList_keeps {p : Pirp} {b ok : Bool} {a : Addr}
    (h : fuseAddIrpToModuleList w ms p b a = some (w', ms', ok)) :
    Keeps w ms w' ms' := by
  have hjoin : ∀ ok' : Bool, (if ok' = true then
      (appendIrp w ms p b a).bind fun r => some (r.1, r.2, true)
      else some (w, ms, false)) = some (w', ms', ok) → Keeps w ms w' ms' := by
    intro ok' h
    split at h
    · obtain ⟨⟨w₁, ms₁⟩, happ, h⟩ := Option.bind_eq_some_iff.mp h
      obtain ⟨rfl, rfl, -⟩ : w₁ = w' ∧ ms₁ = ms' ∧ true = ok := by simpa using h
      exact appendIrp_keeps happ
    · obtain ⟨rfl, rfl, -⟩ : w = w' ∧ ms = ms' ∧ false = ok := by simpa using h
      exact ⟨rfl, id, rfl⟩
  cases b with
  | false => exact hjoin true h
  | true =>
      obtain ⟨ok', -, h⟩ := Option.bind_eq_some_iff.mp h
      exact hjoin ok' h

theorem deliver_keeps {ue : Addr} {uc : Cell Pirp} {usp : IoStackLocation} {m : Pirp}
    (h : deliver w ms ue uc usp m = some (w', ms')) : Keeps w ms w' ms' := by
  obtain ⟨ws, -, h⟩ := Option.bind_eq_some_iff.mp h
  simp only at h
  split at h
  · obtain ⟨heap, -, h⟩ := Option.bind_eq_some_iff.mp h
    obtain ⟨rfl, rfl⟩ := Prod.mk.inj (Option.some.inj h)
    exact ⟨rfl, id, rfl⟩
  · obtain ⟨rfl, rfl⟩ := Prod.mk.inj (Option.some.inj h)
    exact ⟨rfl, id, rfl⟩

theorem finishModuleIrp_keeps {me : Addr} {m : Pirp}
    (h : finishModuleIrp w ms me m = some (w', ms')) : Keeps w ms w' ms' := by
  obtain ⟨mc, -, h⟩ := Option.bind_eq_some_iff.mp h
  obtain ⟨rfl, rfl⟩ := Prod.mk.inj (Option.some.inj h)
  exact ⟨rfl, id, rfl⟩

theorem pairHead_keeps (h : pairHead w ms = some (w', ms')) : Keeps w ms w' ms' := by
  obtain ⟨me, -, h⟩ := Option.bind_eq_some_iff.mp h
  obtain ⟨ue, -, h⟩ := Option.bind_eq_some_iff.mp h
  obtain ⟨mc, -, h⟩ := Option.bind_eq_some_iff.mp h
  obtain ⟨uc, -, h⟩ := Option.bind_eq_some_iff.mp h
  split at h
  · obtain ⟨rfl, rfl⟩ := Prod.mk.inj (Option.some.inj h)
    exact ⟨rfl, id, rfl⟩
  split at h
  · obtain ⟨rfl, rfl⟩ := Prod.mk.inj (Option.some.inj h)
    exact ⟨rfl, id, rfl⟩
  split at h
  · obtain ⟨rfl, rfl⟩ := Prod.mk.inj (Option.some.inj h)
    exact ⟨rfl, id, rfl⟩
  · obtain ⟨msp, -, h⟩ := Option.bind_eq_some_iff.mp h
    split at h
    · obtain ⟨⟨w₁, ms₁⟩, hd, hf⟩ := Option.bind_eq_some_iff.mp h
      exact (deliver_keeps hd).trans (finishModuleIrp_keeps hf)
    · exact finishModuleIrp_keeps h

theorem unlinkOutstanding_keeps {prev : Option Addr} {cur : Addr}
    (h : unlinkOutstanding w ms prev cur = some (w', ms')) : Keeps w ms w' ms' := by
  have hjoin : ∀ (heap : Heap Pirp) (ms₁ : ModuleStruct), ms₁.identity = ms.identity →
      ((heap cur).bind fun cc => some ({ w with heap := heap.free cur },
        if cc.next = none then { ms₁ with outstandingIrpListEnd := prev } else ms₁)) =
        some (w', ms') → Keeps w ms w' ms' := by
    intro heap ms₁ hid h
    obtain ⟨cc, -, h⟩ := Option.bind_eq_some_iff.mp h
    obtain ⟨rfl, rfl⟩ := Prod.mk.inj (Option.some.inj h)
    refine ⟨?_, id, rfl⟩
    rw [← hid]
    split <;> rfl
  cases prev with
  | none =>
      obtain ⟨cc, -, h⟩ := Option.bind_eq_some_iff.mp h
      exact hjoin w.heap { ms with outstandingIrpList := cc.next } rfl h
  | some pe =>
      obtain ⟨pc, -, h⟩ := Option.bind_eq_some_iff.mp h
      obtain ⟨n, -, h⟩ := Option.bind_eq_some_iff.mp h
      obtain ⟨nc, -, h⟩ := Option.bind_eq_some_iff.mp h
      obtain ⟨heap, -, h⟩ := Option.bind_eq_some_iff.mp h
      exact hjoin heap ms rfl h

theorem answerOutstanding_keeps {fuel : Nat} {prev : Option Addr} {cur : Addr} {p : Pirp}
    {msg : Mem} {status : NtStatus}
    (h : answerOutstanding fuel w ms prev cur p msg = some (w', ms', status)) :
    Keeps w ms w' ms' := by
  unfold answerOutstanding at h
  split at h
  · obtain ⟨cc, -, h⟩ := Option.bind_eq_some_iff.mp h
    obtain ⟨rfl, rfl, -⟩ := by simpa using h
    exact ⟨rfl, id, rfl⟩
  · obtain ⟨usp, -, h⟩ := Option.bind_eq_some_iff.mp h
    obtain ⟨⟨irp, st, c⟩, hfill, h⟩ := Option.bind_eq_some_iff.mp h
    obtain ⟨⟨w₁, ms₁⟩, hun, h⟩ := Option.bind_eq_some_iff.mp h
    obtain ⟨rfl, rfl, -⟩ : w₁ = w' ∧ ms₁ = ms' ∧ st = status := by simpa using h
    obtain ⟨hid, hst, hfiles⟩ := unlinkOutstanding_keeps hun
    exact ⟨hid, fun hw => hst (fillResponse_static (hw ▸ hfill)), hfiles⟩

theorem fuseCopyResponse_keeps {fuel : Nat} {irp : Irp} {status : NtStatus}
    (h : fuseCopyResponse fuel w ms irp = some (w', ms', status)) :
    Keeps w ms w' ms' := by
  unfold fuseCopyResponse at h
  obtain ⟨sp, -, h⟩ := Option.bind_eq_some_iff.mp h
  simp only at h
  split at h
  · split at h
    · obtain ⟨rfl, rfl, -⟩ := by simpa using h
      exact ⟨rfl, id, rfl⟩
    · obtain ⟨r, -, h⟩ := Option.bind_eq_some_iff.mp h
      split at h
      · exact answerOutstanding_keeps h
      · obtain ⟨rfl, rfl, -⟩ := by simpa using h
        exact ⟨rfl, id, rfl⟩
  · obtain ⟨rfl, rfl, -⟩ := by simpa using h
    exact ⟨rfl, id, rfl⟩

theorem pairLoop_keeps {inFlight : Option Pirp} {fuel : Nat} {found found' : Bool}
    (h : pairLoop inFlight fuel w ms found = some (w', ms', found')) : Keeps w ms w' ms' := by
  induction fuel generalizing w ms found with
  | zero => simp [pairLoop] at h
  | succ fuel ih =>
      rw [pairLoop] at h
      split at h
      · obtain ⟨mc, -, h⟩ := Option.bind_eq_some_iff.mp h
        obtain ⟨⟨w₁, ms₁⟩, hround, h⟩ := Option.bind_eq_some_iff.mp h
        exact (pairHead_keeps hround).trans (ih h)
      · obtain ⟨rfl, rfl, rfl⟩ := by simpa using h
        exact .refl w ms

theorem fuseCheckForWork_keeps {inFlight : Option Pirp} {fuel : Nat} {found : Bool}
    (h : fuseCheckForWork fuel w ms inFlight = some (w', ms', found)) : Keeps w ms w' ms' := by
  unfold fuseCheckForWork at h
  split at h
  · exact pairLoop_keeps h
  · obtain ⟨rfl, rfl, rfl⟩ := by simpa using h
    exact .refl w ms

end Keeps

end FuseNt
