/-
  FuseNt.Driver.Machine

  One mounted module as a transition system, with one thread in the driver.

  A step is an append, a round of the loop of `FuseCheckForWork`, a response
  or the dismount, or the I/O manager setting a packet's `Cancel` flag, which
  can come between two rounds.  (Nothing keeps two threads from being in these
  routines at the same time: `ModuleLock` is released at once.  Such runs are
  those of `Threads` and `Kernel`.)  The pool chooses the address of a new
  node, and a packet's address is used again only after the packet was
  completed.
-/

import FuseNt.Driver.ReplyRep
import FuseNt.Lib.Run

namespace FuseNt

open FuseNt.Lib

-- ============================================================================
-- The history of a packet
-- ============================================================================

/-- How one event changes the number of completions of `p`. -/
def countCompletion (p : Pirp) (k : Option Nat) : Event → Option Nat
  | .queuedUserspace q => if q = p then some 0 else k
  | .queuedModule q => if q = p then some 0 else k
  | .delivered _ _ => k
  | .completed q => if q = p then k.map (· + 1) else k

/-- How often `IoCompleteRequest` was called on `p` since `p` was last put on
    a queue; `none` if it never was. -/
def completions (log : List Event) (p : Pirp) : Option Nat :=
  log.foldl (countCompletion p) none

@[simp] theorem completions_nil (p : Pirp) : completions [] p = none := rfl

@[simp] theorem completions_concat (log : List Event) (e : Event) (p : Pirp) :
    completions (log ++ [e]) p = countCompletion p (completions log p) e := by
  simp [completions, List.foldl_append]

/-- Completing a list of packets. -/
theorem completions_append_completed (log : List Event) (l : List Pirp) (p : Pirp) :
    completions (log ++ l.map .completed) p = (completions log p).map (· + l.count p) := by
  induction l generalizing log with
  | nil => simp
  | cons q rest ih =>
      rw [List.map_cons, List.append_cons, ih, completions_concat]
      by_cases hq : q = p
      · subst hq
        cases completions log q <;> simp [countCompletion]
        omega
      · simp [countCompletion, hq]

/-- The packets of the three lists. -/
abbrev packets (U M O : List Entry) : List Pirp := vals U ++ vals M ++ vals O

section Packets

variable (U M O O₁ O₂ : List Entry) (a b : Addr) (p u m : Pirp)

theorem packets_queue_userspace : (p :: packets U M O).Perm (packets (U ++ [(a, p)]) M O) := by
  simp only [packets, vals, List.map_append, List.map_cons, List.map_nil, List.append_assoc]
  exact List.perm_middle.symm

theorem packets_queue_module : (p :: packets U M O).Perm (packets U (M ++ [(a, p)]) O) := by
  simp only [packets, vals, List.map_append, List.map_cons, List.map_nil, List.append_assoc]
  rw [← List.append_assoc, ← List.append_assoc]
  exact List.perm_middle.symm

theorem packets_pop_module : (packets U ((b, m) :: M) O).Perm (m :: packets U M O) := by
  simp only [packets, vals, List.map_cons, List.append_assoc, List.cons_append]
  exact List.perm_middle

theorem packets_deliver : (packets ((a, u) :: U) ((b, m) :: M) O).Perm
    (m :: packets U M (O ++ [(a, u)])) := by
  refine (packets_pop_module ((a, u) :: U) M O b m).trans (List.Perm.cons m ?_)
  simp only [packets, vals, List.map_cons, List.map_append, List.map_nil, List.cons_append]
  rw [← List.append_assoc]
  exact (List.perm_append_singleton u _).symm

theorem packets_unlink : (packets U M (O₁ ++ (a, p) :: O₂)).Perm
    (p :: packets U M (O₁ ++ O₂)) := by
  simp only [packets, vals, List.map_append, List.map_cons]
  rw [← List.append_assoc, ← List.append_assoc]
  exact List.perm_middle

end Packets

/-- The packets `L` are distinct, and wait for their completion. -/
structure Owned (log : List Event) (L : List Pirp) : Prop where
  nodup : L.Nodup
  waiting : ∀ p ∈ L, completions log p = some 0

namespace Owned

variable {log : List Event} {L L' : List Pirp} {p : Pirp}

theorem nil (log : List Event) : Owned log [] := ⟨List.nodup_nil, by simp⟩

theorem perm (ho : Owned log L) (hp : L.Perm L') : Owned log L' where
  nodup := hp.nodup_iff.mp ho.nodup
  waiting q hq := ho.waiting q (hp.mem_iff.mpr hq)

/-- Packets are forgotten. -/
theorem sublist (ho : Owned log L) (hs : L'.Sublist L) : Owned log L' where
  nodup := ho.nodup.sublist hs
  waiting q hq := ho.waiting q (hs.subset hq)

/-- A packet whose address is free to be used is none of them. -/
theorem not_mem (ho : Owned log L) (hp : completions log p ≠ some 0) : p ∉ L :=
  fun hm => hp (ho.waiting p hm)

/-- A packet arrives. -/
theorem queued (ho : Owned log L) {e : Event} (he : e = .queuedUserspace p ∨ e = .queuedModule p)
    (hp : completions log p ≠ some 0) : Owned (log ++ [e]) (p :: L) := by
  refine ⟨List.nodup_cons.mpr ⟨ho.not_mem hp, ho.nodup⟩, fun q hq => ?_⟩
  by_cases hpq : p = q
  · rcases he with rfl | rfl <;> simp [countCompletion, hpq]
  · have hq' : q ∈ L := (List.mem_cons.mp hq).resolve_left (Ne.symm hpq)
    rcases he with rfl | rfl <;> simp [countCompletion, hpq, ho.waiting q hq']

/-- A delivery changes nothing. -/
theorem delivered (ho : Owned log L) (u m : Pirp) : Owned (log ++ [.delivered u m]) L :=
  ⟨ho.nodup, fun q hq => by simp [countCompletion, ho.waiting q hq]⟩

/-- A waiting packet is completed. -/
theorem completed (ho : Owned log (p :: L)) : Owned (log ++ [.completed p]) L := by
  obtain ⟨hnot, hnd⟩ := List.nodup_cons.mp ho.nodup
  refine ⟨hnd, fun q hq => ?_⟩
  have hpq : p ≠ q := fun h => hnot (h ▸ hq)
  simp [countCompletion, hpq, ho.waiting q (List.mem_cons_of_mem _ hq)]

/-- A packet is completed that is none of them. -/
theorem completed_other (ho : Owned log L) (hp : p ∉ L) : Owned (log ++ [.completed p]) L := by
  refine ⟨ho.nodup, fun q hq => ?_⟩
  have hpq : p ≠ q := fun h => hp (h ▸ hq)
  simp [countCompletion, hpq, ho.waiting q hq]

/-- All packets of a list are completed. -/
theorem completed_all (ho : Owned log (L ++ L')) : Owned (log ++ L.map .completed) L' := by
  induction L generalizing log with
  | nil => simpa using ho
  | cons p rest ih =>
      rw [List.map_cons, List.append_cons]
      exact ih ho.completed

end Owned

-- ============================================================================
-- Steps
-- ============================================================================

/-- The state of the driver for one module; there is no `MODULE_STRUCT` any
    more after the dismount. -/
structure State where
  world : World
  module : Option ModuleStruct

/-- What can happen. -/
inductive Label where
  /-- A packet with the contents `irp` arrives at the address `p`, and
      `FuseAddIrpToModuleList` gets the node address `a` for it. -/
  | queue (p : Pirp) (irp : Irp) (addToModuleList : Bool) (a : Addr)
  /-- One round of the loop of `FuseCheckForWork`. -/
  | pair
  /-- The module's response packet `irp` is handled. -/
  | response (irp : Irp)
  | cancel (p : Pirp)
  | dismount

/-- The I/O manager sets the `Cancel` flag of a packet. -/
def World.cancel (w : World) (p : Pirp) : World := w.setIrp p { w.irps p with cancel := true }

/-- The transitions of a mounted module. -/
inductive Step : State → Label → State → Prop
  | queue {w w' : World} {ms ms' : ModuleStruct} {p : Pirp} {irp : Irp} {toModule ok : Bool}
      {a : Addr} (reusable : completions w.log p ≠ some 0)
      (add : fuseAddIrpToModuleList (w.setIrp p irp) ms p toModule a = some (w', ms', ok)) :
      Step ⟨w, some ms⟩ (.queue p irp toModule a) ⟨w', some ms'⟩
  | pair {w w' : World} {ms ms' : ModuleStruct} (round : pairHead w ms = some (w', ms')) :
      Step ⟨w, some ms⟩ .pair ⟨w', some ms'⟩
  | response {w w' : World} {ms ms' : ModuleStruct} {irp : Irp} {status : NtStatus} (fuel : Nat)
      (copy : fuseCopyResponse fuel w ms irp = some (w', ms', status)) :
      Step ⟨w, some ms⟩ (.response irp) ⟨w', some ms'⟩
  | cancel {w : World} {m : Option ModuleStruct} (p : Pirp) :
      Step ⟨w, m⟩ (.cancel p) ⟨w.cancel p, m⟩
  | dismount {w w' : World} {ms : ModuleStruct} (fuel : Nat)
      (delete : moduleStructDelete fuel w ms = some w') :
      Step ⟨w, some ms⟩ .dismount ⟨w', none⟩

/-- A freshly mounted module, in any kernel memory. -/
def State.mounted (w : World) (name : List Wchar) (fileObject : Pfile) : State :=
  ⟨w, some (ModuleStruct.zeroed name fileObject)⟩

/-- A call of `FuseCheckForWork` is a sequence of rounds. -/
theorem pairLoop_run {s₀ : State} {inFlight : Option Pirp} {fuel : Nat} {w w' : World}
    {ms ms' : ModuleStruct} {found found' : Bool} {tr : List (State × Label)}
    (hrun : Run Step s₀ tr ⟨w, some ms⟩)
    (hloop : pairLoop inFlight fuel w ms found = some (w', ms', found')) :
    ∃ tr', Run Step s₀ (tr ++ tr') ⟨w', some ms'⟩ ∧ ∀ x ∈ tr', x.2 = .pair := by
  induction fuel generalizing w ms found tr with
  | zero => simp [pairLoop] at hloop
  | succ fuel ih =>
      rw [pairLoop] at hloop
      split at hloop
      · obtain ⟨mc, -, hloop⟩ := Option.bind_eq_some_iff.mp hloop
        obtain ⟨⟨w₁, ms₁⟩, hround, hloop⟩ := Option.bind_eq_some_iff.mp hloop
        obtain ⟨tr', hrun', hall⟩ := ih (hrun.snoc (.pair hround)) hloop
        refine ⟨(⟨w, some ms⟩, .pair) :: tr', by simpa using hrun', ?_⟩
        intro x hx
        rcases List.mem_cons.mp hx with rfl | hx
        · rfl
        · exact hall x hx
      · obtain ⟨rfl, rfl, rfl⟩ := by simpa using hloop
        exact ⟨[], by simpa using hrun, by simp⟩

end FuseNt
