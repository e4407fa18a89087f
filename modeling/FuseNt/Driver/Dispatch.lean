/-
  FuseNt.Driver.Dispatch

  The loop of `FuseCheckForWork`, as one thread runs it alone.

  It ends because every round takes an entry off one of the two queues.
-/

import FuseNt.Driver.Machine

namespace FuseNt

open FuseNt.Lib

-- ============================================================================
-- The pairing loop ends
-- ============================================================================

/-- What the I/O manager promises about a packet: a create request carries the
    create flag.  `FuseCheckForWork` asserts it. -/
def CreateFlagged (irp : Irp) : Prop :=
  ∀ sp, irp.currentStackLocation = some sp → sp.majorFunction = irpMjCreate →
    flagOn irp.flags irpCreateOperation = true

/-- Lists whose packets the loop can work on. -/
structure Ready (w : World) (ms : ModuleStruct) (U M O : List Entry) (nxt : Option Addr) :
    Prop where
  rep : Rep w.heap ms U M O nxt
  owned : Owned w.log (packets U M O)
  createFlagged : ∀ p ∈ vals U, CreateFlagged (w.irps p)
  moduleSp : ∀ p ∈ vals M, ∃ sp, (w.irps p).currentStackLocation = some sp

section Loop

variable {w w' : World} {ms ms' : ModuleStruct} {U M O : List Entry} {nxt : Option Addr}

/-- A flagged packet can be copied. -/
theorem requestWrites_isSome (files : Pfile → UnicodeString) (p : Pirp) {irp : Irp}
    {sp : IoStackLocation} (hf : CreateFlagged irp) (hsp : irp.currentStackLocation = some sp) :
    ∃ ws, requestWrites files p irp sp = some ws := by
  unfold requestWrites
  by_cases hc : sp.majorFunction = irpMjCreate
  · simp [hc, hf sp hsp hc]
  · rw [if_neg hc]
    split <;> exact ⟨_, rfl⟩

/-- While both queues have an entry, a round can be run. -/
theorem Ready.pairHead {ua ma : Addr} {u m : Pirp}
    (hs : Ready w ms ((ua, u) :: U) ((ma, m) :: M) O nxt) :
    ∃ r, pairHead w ms = some r := by
  obtain ⟨hmh, hmc⟩ := hs.rep.module.head_cell
  obtain ⟨huh, huc⟩ := hs.rep.user.head_cell
  obtain ⟨msp, hmsp⟩ := hs.moduleSp m (by simp)
  simp only [FuseNt.pairHead, hmh, huh, hmc, huc, hmsp, Option.bind_eq_bind, Option.bind_some]
  split
  · exact ⟨_, rfl⟩
  split
  · exact ⟨_, rfl⟩
  cases husp : (w.irps u).currentStackLocation with
  | none => exact ⟨_, rfl⟩
  | some usp =>
      simp only
      split
      · obtain ⟨ws, hws⟩ := requestWrites_isSome w.files u (hs.createFlagged u (by simp)) husp
        obtain ⟨h', ms₁, hd, hrep, -, -⟩ := deliver_spec hs.rep hws m
        rw [hd, Option.bind_some]
        exact ⟨_, (finishModuleIrp_spec
          (w := { w.setIrp m (filledIrp w u usp m ws) with
            heap := h', log := w.log ++ [.delivered u m] }) hrep).1⟩
      · exact ⟨_, (finishModuleIrp_spec hs.rep).1⟩

section Keeps

variable {ua ma : Addr} {u m : Pirp}

/-- Without its first request the lists are still workable. -/
theorem Ready.dropUserspace (hs : Ready w ms ((ua, u) :: U) M O nxt)
    (hrep : Rep w.heap ms' U M O nxt) : Ready w ms' U M O nxt where
  rep := hrep
  owned := hs.owned.sublist (List.sublist_cons_self ..)
  createFlagged p hp := hs.createFlagged p (List.mem_cons_of_mem _ hp)
  moduleSp := hs.moduleSp

/-- Or without their first module packet. -/
theorem Ready.dropModule (hs : Ready w ms U ((ma, m) :: M) O nxt)
    (hrep : Rep w.heap ms' U M O nxt) : Ready w ms' U M O nxt where
  rep := hrep
  owned := (hs.owned.perm (packets_pop_module ..)).sublist (List.sublist_cons_self ..)
  createFlagged := hs.createFlagged
  moduleSp p hp := hs.moduleSp p (List.mem_cons_of_mem _ hp)

theorem Ready.deliver (hs : Ready w ms ((ua, u) :: U) ((ma, m) :: M) O nxt) {h' : Heap Pirp}
    (usp : IoStackLocation) (ws : List (Nat × List UInt8))
    (hrep : Rep h' ms' U M (O ++ [(ua, u)]) (headAddr U none)) :
    Ready { w.setIrp m (filledIrp w u usp m ws) with
      heap := h', log := w.log ++ [.delivered u m, .completed m] } ms' U M (O ++ [(ua, u)])
      (headAddr U none) := by
  have hnd := hs.owned.nodup
  have howned := ((hs.owned.perm (packets_deliver ..)).delivered u m).completed
  rw [List.append_assoc] at howned
  refine ⟨hrep, howned, ?_, ?_⟩
  · intro p hp
    have hpm : p ≠ m := by grind
    simpa [World.setIrp, hpm] using hs.createFlagged p (List.mem_cons_of_mem _ hp)
  · intro p hp
    have hpm : p ≠ m := by grind
    simpa [World.setIrp, hpm] using hs.moduleSp p (List.mem_cons_of_mem _ hp)

theorem Ready.bounce (hs : Ready w ms U ((ma, m) :: M) O nxt) {h' : Heap Pirp}
    (hrep : Rep h' ms' U M O nxt) :
    Ready { w with heap := h', log := w.log ++ [.completed m] } ms' U M O nxt where
  rep := hrep
  owned := (hs.owned.perm (packets_pop_module ..)).completed
  createFlagged := hs.createFlagged
  moduleSp p hp := hs.moduleSp p (List.mem_cons_of_mem _ hp)

end Keeps

/-- A round takes an entry off a queue, and leaves the rest workable. -/
theorem Ready.round (hs : Ready w ms U M O nxt) (hp : FuseNt.pairHead w ms = some (w', ms')) :
    ∃ U' M' O' nxt', Ready w' ms' U' M' O' nxt' ∧
      U'.length + M'.length < U.length + M.length := by
  obtain ⟨ua, u, U, ma, m, M, rfl, rfl⟩ := pairHead_heads hs.rep hp
  cases pairHead_round hs.rep hp with
  | dropUserspace _ hw hrep =>
      subst hw
      exact ⟨U, (ma, m) :: M, O, nxt, hs.dropUserspace hrep, by simp⟩
  | dropModule _ _ hw hrep =>
      subst hw
      exact ⟨(ua, u) :: U, M, O, nxt, hs.dropModule hrep, by simp⟩
  | deliver usp msp ws h' _ _ _ _ _ _ hw hrep _ _ =>
      subst hw
      exact ⟨U, M, O ++ [(ua, u)], _, hs.deliver usp ws hrep, by simp; omega⟩
  | bounce usp msp h' _ _ _ _ _ hw hrep _ _ =>
      subst hw
      exact ⟨(ua, u) :: U, M, O, nxt, hs.bounce hrep, by simp⟩

/-- The loop ends within as many rounds as the two queues have entries. -/
theorem pairLoop_returns (inFlight : Option Pirp) (found : Bool) (hs : Ready w ms U M O nxt) :
    ∃ r, ∀ fuel, U.length + M.length < fuel → pairLoop inFlight fuel w ms found = some r := by
  induction hn : U.length + M.length using Nat.strongRecOn generalizing w ms U M O nxt found with
  | ind n ih =>
      have hu := hs.rep.user.seg.head_eq
      have hm := hs.rep.module.seg.head_eq
      cases U with
      | nil =>
          rw [headAddr_nil] at hu
          refine ⟨(w, ms, found), fun fuel hfuel => ?_⟩
          obtain ⟨fuel, rfl⟩ : ∃ k, fuel = k + 1 := ⟨fuel - 1, by omega⟩
          cases hml : ms.moduleIrpList <;> simp [pairLoop, hu, hml]
      | cons x U =>
          cases M with
          | nil =>
              rw [headAddr_nil] at hm
              refine ⟨(w, ms, found), fun fuel hfuel => ?_⟩
              obtain ⟨fuel, rfl⟩ : ∃ k, fuel = k + 1 := ⟨fuel - 1, by omega⟩
              simp [pairLoop, hm]
          | cons y M =>
              obtain ⟨⟨w₁, ms₁⟩, hround⟩ := hs.pairHead
              obtain ⟨U', M', O', nxt', hs', hlt⟩ := hs.round hround
              obtain ⟨-, hmc⟩ := hs.rep.module.head_cell
              obtain ⟨r, hr⟩ := ih _ (hn ▸ hlt) (found || inFlight == some y.2) hs' rfl
              refine ⟨r, fun fuel hfuel => ?_⟩
              obtain ⟨fuel, rfl⟩ : ∃ k, fuel = k + 1 := ⟨fuel - 1, by omega⟩
              rw [headAddr_cons] at hu hm
              simp only [pairLoop, hu, hm, hmc, hround, Option.bind_eq_bind, Option.bind_some]
              exact hr fuel (by omega)

end Loop

end FuseNt
