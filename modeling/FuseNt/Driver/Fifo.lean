/-
  FuseNt.Driver.Fifo

  The order in which requests reach the module, before any response.

  Both queues are served from the head and filled at the tail, so that what
  was delivered so far followed by what still waits is a sublist of what
  arrived (`InOrder`): requests and module packets are only ever skipped,
  never overtaken.  When nothing is skipped the two are equal
  (`Undropped`), and the deliveries pair the arrivals off in order.

  The outstanding list runs on into the userspace queue here, which `Rep`
  allows for: neither queue is reached through it.
-/

import FuseNt.Driver.Machine

namespace FuseNt

open FuseNt.Lib

-- ============================================================================
-- Arrivals and deliveries
-- ============================================================================

/-- The userspace packets that were queued, in order. -/
def userspaceArrivals (log : List Event) : List Pirp :=
  log.filterMap fun
    | .queuedUserspace p => some p
    | _ => none

/-- The module packets that were queued, in order. -/
def moduleArrivals (log : List Event) : List Pirp :=
  log.filterMap fun
    | .queuedModule p => some p
    | _ => none

/-- The requests that were delivered, each with the module packet it was
    copied into, in order. -/
def deliveries (log : List Event) : List (Pirp × Pirp) :=
  log.filterMap fun
    | .delivered u m => some (u, m)
    | _ => none

/-- The request at the head fits into the buffer of the module packet at the
    head. -/
def HeadFits (w : World) (ms : ModuleStruct) : Prop :=
  ∀ ua uc usp ma mc msp, ms.userspaceIrpList = some ua → w.heap ua = some uc →
    (w.irps uc.val).currentStackLocation = some usp → ms.moduleIrpList = some ma →
    w.heap ma = some mc → (w.irps mc.val).currentStackLocation = some msp →
    reqSize w.files (w.irps uc.val) usp ≤ msp.outputBufferLength

/-- What was delivered, and then what waits, is in the order of arrival. -/
structure InOrder (w : World) (ms : ModuleStruct) (U M O : List Entry) (nxt : Option Addr) :
    Prop where
  rep : Rep w.heap ms U M O nxt
  owned : Owned w.log (packets U M O)
  userspace : ((deliveries w.log).map Prod.fst ++ vals U).Sublist (userspaceArrivals w.log)
  module : ((deliveries w.log).map Prod.snd ++ vals M).Sublist (moduleArrivals w.log)
  /-- Without responses no userspace packet is completed, so that no address
      is used for two of them. -/
  arrivals_nodup : (userspaceArrivals w.log).Nodup
  arrivals_waiting : ∀ p ∈ userspaceArrivals w.log, completions w.log p = some 0 ∧ p ∉ vals M

section Steps

variable {w w' : World} {ms ms' : ModuleStruct} {U M O : List Entry} {nxt : Option Addr}

theorem InOrder.queue {p : Pirp} {irp : Irp} {b ok : Bool} {a : Addr}
    (hs : InOrder w ms U M O nxt) (hp : completions w.log p ≠ some 0)
    (hadd : fuseAddIrpToModuleList (w.setIrp p irp) ms p b a = some (w', ms', ok)) :
    ∃ U M O nxt, InOrder w' ms' U M O nxt := by
  have hnew := hs.owned.not_mem hp
  have hold : p ∉ userspaceArrivals w.log := fun h => hp (hs.arrivals_waiting p h).1
  cases fuseAddIrpToModuleList_arrival (w := w.setIrp p irp) hs.rep hadd with
  | refused _ hw hms =>
      subst hw hms
      exact ⟨U, M, O, nxt, hs.rep, hs.owned, hs.userspace, hs.module, hs.arrivals_nodup,
        hs.arrivals_waiting⟩
  | userspace h' _ _ hw hrep _ =>
      subst hw
      have harr : userspaceArrivals (w.log ++ [.queuedUserspace p]) =
          userspaceArrivals w.log ++ [p] := by
        simp [userspaceArrivals]
      refine ⟨U ++ [(a, p)], M, O, nxt, hrep,
        (hs.owned.queued (Or.inl rfl) hp).perm (packets_queue_userspace ..), ?_, ?_, ?_, ?_⟩
      · simpa [deliveries, userspaceArrivals, World.setIrp] using
          hs.userspace.append (List.Sublist.refl [p])
      · simpa [deliveries, moduleArrivals, World.setIrp] using hs.module
      · show (userspaceArrivals (w.log ++ [.queuedUserspace p])).Nodup
        rw [harr]
        have hnd := hs.arrivals_nodup
        grind
      · intro q hq
        replace hq : q ∈ userspaceArrivals (w.log ++ [.queuedUserspace p]) := hq
        rw [harr] at hq
        by_cases hpq : p = q
        · subst hpq
          exact ⟨by simp [World.setIrp, countCompletion], by grind⟩
        · obtain ⟨hc, hm⟩ := hs.arrivals_waiting q (by grind)
          exact ⟨by simp [World.setIrp, countCompletion, hpq, hc], hm⟩
  | module h' _ _ _ _ hw hrep _ =>
      subst hw
      refine ⟨U, M ++ [(a, p)], O, nxt, hrep,
        (hs.owned.queued (Or.inr rfl) hp).perm (packets_queue_module ..), ?_, ?_, ?_, ?_⟩
      · simpa [deliveries, userspaceArrivals, World.setIrp] using hs.userspace
      · simpa [deliveries, moduleArrivals, World.setIrp] using
          hs.module.append (List.Sublist.refl [p])
      · simpa [userspaceArrivals, World.setIrp] using hs.arrivals_nodup
      · intro q hq
        replace hq : q ∈ userspaceArrivals w.log := by
          simpa [userspaceArrivals, World.setIrp] using hq
        have hpq : p ≠ q := fun h => hold (h ▸ hq)
        obtain ⟨hc, hm⟩ := hs.arrivals_waiting q hq
        exact ⟨by simp [World.setIrp, countCompletion, hpq, hc], by grind⟩

theorem InOrder.pair (hs : InOrder w ms U M O nxt) (hp : pairHead w ms = some (w', ms')) :
    ∃ U M O nxt, InOrder w' ms' U M O nxt := by
  obtain ⟨ua, u, U, ma, m, M, rfl, rfl⟩ := pairHead_heads hs.rep hp
  have huser := hs.userspace
  have hmodule := hs.module
  cases pairHead_round hs.rep hp with
  | dropUserspace _ hw hrep =>
      subst hw
      exact ⟨U, (ma, m) :: M, O, nxt, hrep, hs.owned.sublist (List.sublist_cons_self ..),
        ((List.Sublist.refl _).append (List.sublist_cons_self ..)).trans huser, hmodule,
        hs.arrivals_nodup, hs.arrivals_waiting⟩
  | dropModule _ _ hw hrep =>
      subst hw
      refine ⟨(ua, u) :: U, M, O, nxt, hrep,
        (hs.owned.perm (packets_pop_module ..)).sublist (List.sublist_cons_self ..), huser,
        ((List.Sublist.refl _).append (List.sublist_cons_self ..)).trans hmodule,
        hs.arrivals_nodup, fun q hq => ?_⟩
      obtain ⟨hc, hm⟩ := hs.arrivals_waiting q hq
      exact ⟨hc, fun h => hm (List.mem_cons_of_mem _ h)⟩
  | deliver usp msp ws h' _ _ _ _ _ _ hw hrep _ _ =>
      subst hw
      have howned := ((hs.owned.perm (packets_deliver ..)).delivered u m).completed
      rw [List.append_assoc] at howned
      refine ⟨U, M, O ++ [(ua, u)], _, hrep, howned, ?_, ?_, ?_, fun q hq => ?_⟩
      · simpa [deliveries, userspaceArrivals] using huser
      · simpa [deliveries, moduleArrivals] using hmodule
      · simpa [userspaceArrivals] using hs.arrivals_nodup
      · obtain ⟨hc, hm⟩ := hs.arrivals_waiting q (by simpa [userspaceArrivals] using hq)
        have hmq : m ≠ q := fun h => hm (by simp [h])
        refine ⟨?_, fun h => hm (List.mem_cons_of_mem _ h)⟩
        simpa [completions, List.foldl_append, countCompletion, hmq] using hc
  | bounce usp msp h' _ _ _ _ _ hw hrep _ _ =>
      subst hw
      refine ⟨(ua, u) :: U, M, O, nxt, hrep, (hs.owned.perm (packets_pop_module ..)).completed,
        ?_, ?_, ?_, fun q hq => ?_⟩
      · simpa [deliveries, userspaceArrivals] using huser
      · have hdrop := ((List.Sublist.refl ((deliveries w.log).map Prod.snd)).append
          (List.sublist_cons_self m (vals M))).trans hmodule
        simpa [deliveries, moduleArrivals] using hdrop
      · simpa [userspaceArrivals] using hs.arrivals_nodup
      · obtain ⟨hc, hm⟩ := hs.arrivals_waiting q (by simpa [userspaceArrivals] using hq)
        have hmq : m ≠ q := fun h => hm (by simp [h])
        refine ⟨?_, fun h => hm (List.mem_cons_of_mem _ h)⟩
        simpa [countCompletion, hmq] using hc

end Steps

/-- What was delivered, and then what waits, is everything that arrived. -/
structure Undropped (w : World) (ms : ModuleStruct) (U M O : List Entry) (nxt : Option Addr) :
    Prop where
  rep : Rep w.heap ms U M O nxt
  owned : Owned w.log (packets U M O)
  userspace : (deliveries w.log).map Prod.fst ++ vals U = userspaceArrivals w.log
  module : (deliveries w.log).map Prod.snd ++ vals M = moduleArrivals w.log
  live : ∀ p ∈ vals U ++ vals M,
    (w.irps p).cancel = false ∧ (w.irps p).currentStackLocation ≠ none

section Undropped

variable {w w' : World} {ms ms' : ModuleStruct} {U M O : List Entry} {nxt : Option Addr}

/-- A packet that arrives changes no packet that waits. -/
theorem Undropped.live_setIrp (hs : Undropped w ms U M O nxt) (irp : Irp) {p : Pirp}
    (hp : completions w.log p ≠ some 0) :
    ∀ q ∈ vals U ++ vals M, ((w.setIrp p irp).irps q).cancel = false ∧
      ((w.setIrp p irp).irps q).currentStackLocation ≠ none := by
  intro q hq
  have hqp : q ≠ p := fun h => hs.owned.not_mem hp (h ▸ List.mem_append_left _ hq)
  simpa [World.setIrp, hqp] using hs.live q hq

theorem Undropped.queue {p : Pirp} {irp : Irp} {b ok : Bool} {a : Addr}
    (hs : Undropped w ms U M O nxt) (hp : completions w.log p ≠ some 0)
    (hlive : irp.cancel = false ∧ irp.currentStackLocation ≠ none)
    (hadd : fuseAddIrpToModuleList (w.setIrp p irp) ms p b a = some (w', ms', ok)) :
    ∃ U M O nxt, Undropped w' ms' U M O nxt := by
  have hold := hs.live_setIrp irp hp
  have hnew : ((w.setIrp p irp).irps p).cancel = false ∧
      ((w.setIrp p irp).irps p).currentStackLocation ≠ none := by
    simpa [World.setIrp] using hlive
  cases fuseAddIrpToModuleList_arrival (w := w.setIrp p irp) hs.rep hadd with
  | refused _ hw hms =>
      subst hw hms
      exact ⟨U, M, O, nxt, hs.rep, hs.owned, hs.userspace, hs.module, hold⟩
  | userspace h' _ _ hw hrep _ =>
      subst hw
      refine ⟨U ++ [(a, p)], M, O, nxt, hrep,
        (hs.owned.queued (Or.inl rfl) hp).perm (packets_queue_userspace ..), ?_, ?_, ?_⟩
      · simpa [deliveries, userspaceArrivals, World.setIrp] using
          congrArg (· ++ [p]) hs.userspace
      · simpa [deliveries, moduleArrivals, World.setIrp] using hs.module
      · intro q hq
        by_cases hqp : q = p
        · exact hqp ▸ hnew
        · exact hold q (by grind)
  | module h' _ _ _ _ hw hrep _ =>
      subst hw
      refine ⟨U, M ++ [(a, p)], O, nxt, hrep,
        (hs.owned.queued (Or.inr rfl) hp).perm (packets_queue_module ..), ?_, ?_, ?_⟩
      · simpa [deliveries, userspaceArrivals, World.setIrp] using hs.userspace
      · simpa [deliveries, moduleArrivals, World.setIrp] using congrArg (· ++ [p]) hs.module
      · intro q hq
        by_cases hqp : q = p
        · exact hqp ▸ hnew
        · exact hold q (by grind)

theorem Undropped.pair (hs : Undropped w ms U M O nxt) (hfits : HeadFits w ms)
    (hp : pairHead w ms = some (w', ms')) : ∃ U M O nxt, Undropped w' ms' U M O nxt := by
  obtain ⟨ua, u, U, ma, m, M, rfl, rfl⟩ := pairHead_heads hs.rep hp
  have hu := hs.live u (by simp)
  have hm := hs.live m (by simp)
  cases pairHead_round hs.rep hp with
  | dropUserspace why _ _ =>
      rcases why with h | ⟨_, _, h⟩
      · simp [hu.1] at h
      · exact absurd h hu.2
  | dropModule _ h _ _ => simp [hm.1] at h
  | deliver usp msp ws h' _ _ _ _ _ _ hw hrep _ _ =>
      subst hw
      have howned := ((hs.owned.perm (packets_deliver ..)).delivered u m).completed
      rw [List.append_assoc] at howned
      have hnd := hs.owned.nodup
      refine ⟨U, M, O ++ [(ua, u)], _, hrep, howned, ?_, ?_, ?_⟩
      · simpa [deliveries, userspaceArrivals] using hs.userspace
      · simpa [deliveries, moduleArrivals] using hs.module
      · intro q hq
        have hqm : q ≠ m := by grind
        simpa [World.setIrp, hqm] using hs.live q (by grind)
  | bounce usp msp h' _ _ husp hmsp hlt _ _ _ _ =>
      obtain ⟨hmh, hmc⟩ := hs.rep.module.head_cell
      obtain ⟨huh, huc⟩ := hs.rep.user.head_cell
      exact absurd (hfits ua _ usp ma _ msp huh huc husp hmh hmc hmsp) (Nat.not_le.mpr hlt)

/-- The deliveries pair the arrivals off in order. -/
theorem Undropped.zip (hs : Undropped w ms U M O nxt) :
    (userspaceArrivals w.log).zip (moduleArrivals w.log) =
      deliveries w.log ++ (vals U).zip (vals M) := by
  have hzip : deliveries w.log =
      ((deliveries w.log).map Prod.fst).zip ((deliveries w.log).map Prod.snd) :=
    List.zip_of_prod rfl rfl
  rw [← hs.userspace, ← hs.module, List.zip_append (by simp), ← hzip]

end Undropped

end FuseNt
