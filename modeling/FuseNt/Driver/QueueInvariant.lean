/-
  FuseNt.Driver.QueueInvariant

  When the three lists of a module are well formed, over sequences of whole
  calls and while no packet is cancelled.

  A call of `FuseCheckForWork` leaves the outstanding list null-terminated in
  two cases only.  Either it delivers nothing: the first request that has a
  stack location fits into none of the waiting buffers.  Or it delivers
  everything: the requests find buffers in order (each takes the first one it
  fits into), and the last request of the queue is one of them, so that the
  last node that was moved had a null link.  `CheckOk` is this condition, and
  `wellFormed_iff` says that it decides whether a run keeps the lists well
  formed.
-/

import FuseNt.Driver.Machine
import Mathlib.Data.List.Forall2

namespace FuseNt

open FuseNt.Lib

-- ============================================================================
-- Greedy matching
-- ============================================================================

section Matching

variable {α β : Type} {R : α → β → Prop} {x : α} {y : β} {xs : List α} {ys : List β}

theorem sublistForall₂_of_cons (h : List.SublistForall₂ R (x :: xs) ys) :
    List.SublistForall₂ R xs ys := by
  induction ys with
  | nil => cases h
  | cons y ys ih =>
      cases h with
      | cons _ h => exact .cons_right h
      | cons_right h => exact .cons_right (ih h)

/-- Taking the first partner that fits is never worse. -/
theorem sublistForall₂_cons_of_rel (hxy : R x y) :
    List.SublistForall₂ R (x :: xs) (y :: ys) ↔ List.SublistForall₂ R xs ys := by
  constructor
  · intro h
    cases h with
    | cons _ h => exact h
    | cons_right h => exact sublistForall₂_of_cons h
  · exact .cons hxy

theorem sublistForall₂_cons_of_not_rel (hxy : ¬ R x y) :
    List.SublistForall₂ R (x :: xs) (y :: ys) ↔ List.SublistForall₂ R (x :: xs) ys := by
  constructor
  · intro h
    cases h with
    | cons hR _ => exact absurd hR hxy
    | cons_right h => exact h
  · exact .cons_right

end Matching

-- ============================================================================
-- Calls
-- ============================================================================

/-- A module between two calls. -/
structure Module where
  world : World
  module : ModuleStruct

/-- The calls. -/
inductive Call where
  | addIrp (p : Pirp) (irp : Irp) (addToModuleList : Bool) (a : Addr)
  | checkForWork (inFlight : Option Pirp)
  | copyResponse (irp : Irp)

/-- One call, while no packet is cancelled. -/
inductive CallStep : Module → Call → Module → Prop
  | addIrp {w w' : World} {ms ms' : ModuleStruct} {p : Pirp} {irp : Irp} {toModule ok : Bool}
      {a : Addr} (reusable : completions w.log p ≠ some 0) (live : irp.cancel = false)
      (add : fuseAddIrpToModuleList (w.setIrp p irp) ms p toModule a = some (w', ms', ok)) :
      CallStep ⟨w, ms⟩ (.addIrp p irp toModule a) ⟨w', ms'⟩
  | checkForWork {w w' : World} {ms ms' : ModuleStruct} {inFlight : Option Pirp} {found : Bool}
      (fuel : Nat) (check : fuseCheckForWork fuel w ms inFlight = some (w', ms', found)) :
      CallStep ⟨w, ms⟩ (.checkForWork inFlight) ⟨w', ms'⟩
  | copyResponse {w w' : World} {ms ms' : ModuleStruct} {irp : Irp} {status : NtStatus}
      (fuel : Nat) (copy : fuseCopyResponse fuel w ms irp = some (w', ms', status)) :
      CallStep ⟨w, ms⟩ (.copyResponse irp) ⟨w', ms'⟩

/-- The three lists are null-terminated chains of allocated nodes, each tail
    pointer designates the last node (or is null with the head), and no node
    is in two lists. -/
def WellFormed (s : Module) : Prop :=
  ∃ U M O, Rep s.world.heap s.module U M O none

/-- `p` has a stack location. -/
def hasSp (w : World) (p : Pirp) : Bool := (w.irps p).currentStackLocation.isSome

/-- The request for `u` fits into the buffer of the module packet `m`. -/
def fits (w : World) (u m : Pirp) : Prop :=
  ∃ usp msp, (w.irps u).currentStackLocation = some usp ∧
    (w.irps m).currentStackLocation = some msp ∧
    reqSize w.files (w.irps u) usp ≤ msp.outputBufferLength

/-- The first of the requests `us` with a stack location fits nowhere. -/
def DeliversNone (w : World) (us ms : List Pirp) : Prop :=
  ∀ u ∈ (us.filter (hasSp w)).head?, ∀ m ∈ ms, ¬ fits w u m

/-- The requests with a stack location find buffers in order, and the last
    request is one of them. -/
def DeliversAll (w : World) (us ms : List Pirp) : Prop :=
  List.SublistForall₂ (fits w) (us.filter (hasSp w)) ms ∧ ∀ u ∈ us.getLast?, hasSp w u = true

/-- `FuseCheckForWork` is about to deliver nothing, or everything. -/
def CheckOk (w : World) (ms : ModuleStruct) : Prop :=
  ∀ U M, Seg w.heap ms.userspaceIrpList U none → Seg w.heap ms.moduleIrpList M none →
    DeliversNone w (vals U) (vals M) ∨ DeliversAll w (vals U) (vals M)

/-- The condition on a call. -/
def CallOk (s : Module) : Call → Prop
  | .checkForWork _ => CheckOk s.world s.module
  | _ => True

-- ============================================================================
-- The pairing loop
-- ============================================================================

/-- Lists on which no round skips a cancelled packet. -/
structure Calm (w : World) (ms : ModuleStruct) (U M O : List Entry) (nxt : Option Addr) :
    Prop where
  rep : Rep w.heap ms U M O nxt
  owned : Owned w.log (packets U M O)
  live : ∀ p ∈ vals U ++ vals M, (w.irps p).cancel = false

section Loop

variable {w w' : World} {ms ms' : ModuleStruct} {U M O : List Entry} {nxt : Option Addr}

/-- Filling a module packet changes none of what the loop decides by. -/
theorem setIrp_filledIrp (w : World) (u : Pirp) (usp : IoStackLocation) (m : Pirp)
    (ws : List (Nat × List UInt8)) (q : Pirp) :
    ((w.setIrp m (filledIrp w u usp m ws)).irps q).currentStackLocation =
        (w.irps q).currentStackLocation ∧
      ((w.setIrp m (filledIrp w u usp m ws)).irps q).cancel = (w.irps q).cancel ∧
      ((w.setIrp m (filledIrp w u usp m ws)).irps q).flags = (w.irps q).flags ∧
      ((w.setIrp m (filledIrp w u usp m ws)).irps q).stackCount = (w.irps q).stackCount := by
  by_cases hq : q = m <;> simp [World.setIrp, hq, filledIrp]

/-- What a round does, as far as the lists and the size of the outstanding
    list's open end are concerned. -/
theorem Calm.round {ua ma : Addr} {u m : Pirp}
    (hs : Calm w ms ((ua, u) :: U) ((ma, m) :: M) O nxt)
    (hp : pairHead w ms = some (w', ms')) :
    (hasSp w' = hasSp w ∧ fits w' = fits w) ∧
    ((hasSp w u = false ∧ Calm w' ms' U ((ma, m) :: M) O nxt) ∨
      (hasSp w u = true ∧ fits w u m ∧ ∃ O', Calm w' ms' U M O' (headAddr U none)) ∨
      (hasSp w u = true ∧ ¬ fits w u m ∧ Calm w' ms' ((ua, u) :: U) M O nxt)) := by
  have hu := hs.live u (by simp)
  have hm := hs.live m (by simp)
  cases pairHead_round hs.rep hp with
  | dropUserspace why hw hrep =>
      subst hw
      have hnone : hasSp w' u = false := by
        rcases why with h | ⟨-, -, h⟩
        · simp [hu] at h
        · simp [hasSp, h]
      refine ⟨⟨rfl, rfl⟩, Or.inl ⟨hnone, hrep, hs.owned.sublist (List.sublist_cons_self ..), ?_⟩⟩
      exact fun p hp => hs.live p (List.mem_cons_of_mem _ hp)
  | dropModule _ h _ _ => simp [hm] at h
  | deliver usp msp ws h' _ _ husp hmsp hle _ hw hrep _ _ =>
      subst hw
      have howned := ((hs.owned.perm (packets_deliver ..)).delivered u m).completed
      rw [List.append_assoc] at howned
      have hsame := setIrp_filledIrp w u usp m ws
      refine ⟨⟨?_, ?_⟩, Or.inr (Or.inl ⟨by simp [hasSp, husp], ⟨usp, msp, husp, hmsp, hle⟩,
        O ++ [(ua, u)], hrep, howned, ?_⟩)⟩
      · funext q
        simp only [hasSp, (hsame q).1]
      · funext q r
        simp only [fits, (hsame q).1, (hsame r).1, reqSize, reqTrailer, (hsame q).2.2]
        rfl
      · intro p hp
        simp only [(hsame p).2.1]
        exact hs.live p (by grind)
  | bounce usp msp h' _ _ husp hmsp hlt hw hrep _ _ =>
      subst hw
      refine ⟨⟨rfl, rfl⟩, Or.inr (Or.inr ⟨by simp [hasSp, husp], ?_, hrep,
        (hs.owned.perm (packets_pop_module ..)).completed, ?_⟩)⟩
      · rintro ⟨usp', msp', husp', hmsp', hle⟩
        obtain rfl := Option.some.inj (husp.symm.trans husp')
        obtain rfl := Option.some.inj (hmsp.symm.trans hmsp')
        omega
      · exact fun p hp => hs.live p (by grind)

end Loop

section Delivers

variable {w : World} {u m : Pirp} {us ms : List Pirp}

theorem deliversNone_skip (hu : hasSp w u = false) :
    DeliversNone w (u :: us) ms ↔ DeliversNone w us ms := by
  simp [DeliversNone, hu]

theorem deliversNone_bounce (hu : hasSp w u = true) (hf : ¬ fits w u m) :
    DeliversNone w (u :: us) (m :: ms) ↔ DeliversNone w (u :: us) ms := by
  simp [DeliversNone, hu, hf]

theorem not_deliversNone_of_fits (hu : hasSp w u = true) (hf : fits w u m) :
    ¬ DeliversNone w (u :: us) (m :: ms) := by
  simp [DeliversNone, hu, hf]

theorem deliversAll_skip (hu : hasSp w u = false) (hus : us ≠ []) :
    DeliversAll w (u :: us) ms ↔ DeliversAll w us ms := by
  simp [DeliversAll, hu, List.getLast?_cons, List.getLast?_eq_getLast_of_ne_nil hus]

theorem not_deliversAll_skip (hu : hasSp w u = false) : ¬ DeliversAll w [u] ms := by
  simp [DeliversAll, hu]

theorem deliversAll_bounce (hu : hasSp w u = true) (hf : ¬ fits w u m) :
    DeliversAll w (u :: us) (m :: ms) ↔ DeliversAll w (u :: us) ms := by
  simp only [DeliversAll, hu, List.filter_cons_of_pos, sublistForall₂_cons_of_not_rel hf]

theorem deliversAll_deliver (hu : hasSp w u = true) (hf : fits w u m) (hus : us ≠ []) :
    DeliversAll w (u :: us) (m :: ms) ↔ DeliversAll w us ms := by
  simp only [DeliversAll, hu, List.filter_cons_of_pos, sublistForall₂_cons_of_rel hf,
    List.getLast?_cons, List.getLast?_eq_getLast_of_ne_nil hus]
  simp

theorem deliversAll_single (hu : hasSp w u = true) (hf : fits w u m) :
    DeliversAll w [u] (m :: ms) := by
  refine ⟨?_, by simp [hu]⟩
  simp only [hu, List.filter_cons_of_pos, List.filter_nil]
  exact .cons hf .nil

theorem not_deliversAll_of_nil (hus : us ≠ []) : ¬ DeliversAll w us [] := by
  rintro ⟨hsub, hlast⟩
  have hnil : us.filter (hasSp w) = [] := by
    cases hl : us.filter (hasSp w) with
    | nil => rfl
    | cons x xs =>
        rw [hl] at hsub
        cases hsub
  obtain ⟨x, hx⟩ : ∃ x, us.getLast? = some x :=
    ⟨_, List.getLast?_eq_getLast_of_ne_nil hus⟩
  have hmem : x ∈ us.filter (hasSp w) :=
    List.mem_filter.mpr ⟨List.mem_of_getLast? hx, hlast x hx⟩
  simp [hnil] at hmem

end Delivers

/-- The open end `nxt` of the outstanding list will be null after the loop. -/
def Closes (w : World) (nxt : Option Addr) (us ms : List Pirp) : Prop :=
  (nxt = none ∧ DeliversNone w us ms) ∨ (us ≠ [] ∧ DeliversAll w us ms)

/-- The loop leaves a null-terminated outstanding list exactly if it `Closes`. -/
theorem pairLoop_closes {inFlight : Option Pirp} {fuel : Nat} {found found' : Bool}
    {w w' : World} {ms ms' : ModuleStruct} {U M O : List Entry} {nxt : Option Addr}
    (hs : Calm w ms U M O nxt)
    (hloop : pairLoop inFlight fuel w ms found = some (w', ms', found')) :
    ∃ U' M' O' nxt', Calm w' ms' U' M' O' nxt' ∧
      (nxt' = none ↔ Closes w nxt (vals U) (vals M)) := by
  induction fuel generalizing w ms U M O nxt found with
  | zero => simp [pairLoop] at hloop
  | succ fuel ih =>
      have hu := hs.rep.user.seg.head_eq
      have hm := hs.rep.module.seg.head_eq
      cases U with
      | nil =>
          rw [headAddr_nil] at hu
          have hend : (w, ms, found) = (w', ms', found') := by
            cases hml : ms.moduleIrpList <;> simpa [pairLoop, hu, hml] using hloop
          obtain ⟨rfl, rfl, rfl⟩ := by simpa using hend
          exact ⟨[], M, O, nxt, hs, by simp [Closes, DeliversNone]⟩
      | cons x U =>
          cases M with
          | nil =>
              rw [headAddr_nil] at hm
              obtain ⟨rfl, rfl, rfl⟩ := by simpa [pairLoop, hm] using hloop
              refine ⟨x :: U, [], O, nxt, hs, ?_⟩
              simp [Closes, DeliversNone, not_deliversAll_of_nil (w := w)]
          | cons y M =>
              obtain ⟨ua, u⟩ := x
              obtain ⟨ma, m⟩ := y
              rw [headAddr_cons] at hu hm
              simp only [pairLoop, hu, hm, Option.bind_eq_bind] at hloop
              obtain ⟨mc, -, hloop⟩ := Option.bind_eq_some_iff.mp hloop
              obtain ⟨⟨w₁, ms₁⟩, hround, hloop⟩ := Option.bind_eq_some_iff.mp hloop
              obtain ⟨⟨hsp, hfits⟩, hcases⟩ := hs.round hround
              have hclose : ∀ nxt us ms, Closes w₁ nxt us ms ↔ Closes w nxt us ms := by
                intro nxt us ms
                simp only [Closes, DeliversNone, DeliversAll, hsp, hfits]
              rcases hcases with ⟨hno, hs'⟩ | ⟨hyes, hfit, O₁, hs'⟩ | ⟨hyes, hfit, hs'⟩
              · -- the request is skipped
                obtain ⟨U', M', O', nxt', hcalm, hiff⟩ := ih hs' hloop
                refine ⟨U', M', O', nxt', hcalm, hiff.trans ((hclose ..).trans ?_)⟩
                simp only [Closes, vals, List.map_cons, deliversNone_skip hno]
                cases U with
                | nil => simp [not_deliversAll_skip hno]
                | cons x U => simp [deliversAll_skip hno]
              · -- the request is delivered
                obtain ⟨U', M', O', nxt', hcalm, hiff⟩ := ih hs' hloop
                refine ⟨U', M', O', nxt', hcalm, hiff.trans ((hclose ..).trans ?_)⟩
                simp only [Closes, vals, List.map_cons, not_deliversNone_of_fits hyes hfit]
                cases U with
                | nil => simp [DeliversNone, deliversAll_single hyes hfit]
                | cons x U => simp [deliversAll_deliver hyes hfit]
              · -- the module packet is sent back
                obtain ⟨U', M', O', nxt', hcalm, hiff⟩ := ih hs' hloop
                refine ⟨U', M', O', nxt', hcalm, hiff.trans ((hclose ..).trans ?_)⟩
                simp only [Closes, vals, List.map_cons, deliversNone_bounce hyes hfit,
                  deliversAll_bounce hyes hfit]

-- ============================================================================
-- Whole runs
-- ============================================================================

/-- The open end of the outstanding list is determined by the pointers. -/
theorem Rep.nxt_unique {h : Heap Pirp} {ms : ModuleStruct} {U U' M M' O O' : List Entry}
    {nxt nxt' : Option Addr} (hr : Rep h ms U M O nxt) (hr' : Rep h ms U' M' O' nxt') :
    nxt = nxt' := by
  have hend := hr.out.tail_eq
  have hend' := hr'.out.tail_eq
  rcases List.eq_nil_or_concat O with rfl | ⟨L, ⟨e, v⟩, rfl⟩
  · rw [lastAddr_nil] at hend
    have hO' : O' = [] := lastAddr_eq_none.mp (hend'.symm.trans hend)
    rw [hr.out_nil rfl, hr'.out_nil hO']
  · rw [List.concat_eq_append] at hr hend
    rw [lastAddr_concat] at hend
    have hout' := hr'.out
    rw [hend] at hout'
    obtain ⟨L', v', rfl⟩ := hout'.last_of_tail
    have hcell := hr.out.seg.last_cell
    have hcell' := hout'.seg.last_cell
    rw [hcell] at hcell'
    simpa using (Cell.mk.inj (Option.some.inj hcell')).2

/-- Well-formed lists, with packets that are not cancelled. -/
def CalmInv (s : Module) : Prop := ∃ U M O, Calm s.world s.module U M O none

theorem Calm.check {w w' : World} {ms ms' : ModuleStruct} {U M O : List Entry} {fuel : Nat}
    {inFlight : Option Pirp} {found : Bool} (hs : Calm w ms U M O none)
    (hc : fuseCheckForWork fuel w ms inFlight = some (w', ms', found)) :
    ∃ U' M' O' nxt', Calm w' ms' U' M' O' nxt' ∧ (nxt' = none ↔ CheckOk w ms) := by
  have hclose : CheckOk w ms ↔ Closes w none (vals U) (vals M) := by
    have hok : CheckOk w ms ↔
        DeliversNone w (vals U) (vals M) ∨ DeliversAll w (vals U) (vals M) := by
      constructor
      · exact fun h => h U M hs.rep.user.seg hs.rep.module.seg
      · intro h U' M' hU' hM'
        rwa [hU'.unique hs.rep.user.seg, hM'.unique hs.rep.module.seg]
    rw [hok]
    cases U with
    | nil => simp [Closes, DeliversNone]
    | cons x U => simp [Closes]
  rw [fuseCheckForWork] at hc
  split at hc
  · obtain ⟨U', M', O', nxt', hcalm, hiff⟩ := pairLoop_closes hs hc
    exact ⟨U', M', O', nxt', hcalm, hiff.trans hclose.symm⟩
  · rename_i hempty
    obtain ⟨rfl, rfl, rfl⟩ := by simpa using hc
    refine ⟨U, M, O, none, hs, ?_⟩
    rw [hclose, hs.rep.user.seg.head_eq, hs.rep.module.seg.head_eq] at *
    cases U with
    | nil => simp [Closes, DeliversNone]
    | cons x U =>
        cases M with
        | nil => simp [Closes, DeliversNone]
        | cons y M => simp at hempty

theorem Calm.add {w w' : World} {ms ms' : ModuleStruct} {U M O : List Entry} {p : Pirp}
    {irp : Irp} {b ok : Bool} {a : Addr} (hs : Calm w ms U M O none)
    (hp : completions w.log p ≠ some 0) (hlive : irp.cancel = false)
    (hadd : fuseAddIrpToModuleList (w.setIrp p irp) ms p b a = some (w', ms', ok)) :
    CalmInv ⟨w', ms'⟩ := by
  have hnew := hs.owned.not_mem hp
  have hold : ∀ q ∈ vals U ++ vals M, ((w.setIrp p irp).irps q).cancel = false := by
    intro q hq
    have hqp : q ≠ p := by grind
    simpa [World.setIrp, hqp] using hs.live q hq
  cases fuseAddIrpToModuleList_arrival (w := w.setIrp p irp) hs.rep hadd with
  | refused _ hw hms =>
      subst hw hms
      exact ⟨U, M, O, hs.rep, hs.owned, hold⟩
  | userspace h' _ _ hw hrep _ =>
      subst hw
      refine ⟨U ++ [(a, p)], M, O, hrep,
        (hs.owned.queued (Or.inl rfl) hp).perm (packets_queue_userspace ..), fun q hq => ?_⟩
      by_cases hqp : q = p
      · simpa [World.setIrp, hqp] using hlive
      · exact hold q (by grind)
  | module h' _ _ _ _ hw hrep _ =>
      subst hw
      refine ⟨U, M ++ [(a, p)], O, hrep,
        (hs.owned.queued (Or.inr rfl) hp).perm (packets_queue_module ..), fun q hq => ?_⟩
      by_cases hqp : q = p
      · simpa [World.setIrp, hqp] using hlive
      · exact hold q (by grind)

theorem Calm.response {w w' : World} {ms ms' : ModuleStruct} {U M O : List Entry} {fuel : Nat}
    {irp : Irp} {status : NtStatus} (hs : Calm w ms U M O none)
    (hc : fuseCopyResponse fuel w ms irp = some (w', ms', status)) : CalmInv ⟨w', ms'⟩ := by
  have hnd := hs.owned.nodup
  cases fuseCopyResponse_reply_none hs.rep hc with
  | rejected hw hms _ =>
      subst hw hms
      exact ⟨U, M, O, hs⟩
  | dropped O₁ a O₂ _ hfound _ hw hrep =>
      subst hw
      have hsub : (packets U M O₂).Sublist (packets U M O) := by
        rw [hfound.split]
        refine List.Sublist.append_left ?_ _
        exact ((List.sublist_cons_self ..).trans (List.sublist_append_right ..)).map _
      exact ⟨U, M, O₂, hrep, hs.owned.sublist hsub, hs.live⟩
  | answered O₁ a O₂ h' usp fuel' irp' c hfound _ _ _ hw hrep _ _ =>
      subst hw
      have hsplit := hfound.split
      have howned := hs.owned
      rw [hsplit] at howned
      refine ⟨U, M, O₁ ++ O₂, hrep, (howned.perm (packets_unlink ..)).completed, fun q hq => ?_⟩
      have hqp : q ≠ respPirp irp.systemBuffer := by grind
      simpa [World.setIrp, hqp] using hs.live q hq

theorem call_calm {s s' : Module} {l : Call} (hi : CalmInv s) (hok : CallOk s l)
    (hs : CallStep s l s') : CalmInv s' := by
  obtain ⟨U, M, O, hcalm⟩ := hi
  cases hs with
  | addIrp hp hlive hadd => exact hcalm.add hp hlive hadd
  | checkForWork fuel hc =>
      obtain ⟨U', M', O', nxt', hcalm', hiff⟩ := hcalm.check hc
      obtain rfl := hiff.mpr hok
      exact ⟨U', M', O', hcalm'⟩
  | copyResponse fuel hc => exact hcalm.response hc

theorem call_breaks {s s' : Module} {l : Call} (hi : CalmInv s) (hbad : ¬ CallOk s l)
    (hs : CallStep s l s') : ¬ WellFormed s' := by
  obtain ⟨U, M, O, hcalm⟩ := hi
  cases hs with
  | addIrp hp hlive hadd => exact absurd trivial hbad
  | checkForWork fuel hc =>
      obtain ⟨U', M', O', nxt', hcalm', hiff⟩ := hcalm.check hc
      rintro ⟨U₂, M₂, O₂, hrep⟩
      exact hbad (hiff.mp (hcalm'.rep.nxt_unique hrep))
  | copyResponse fuel hc => exact absurd trivial hbad

/-- A sequence of calls on a zeroed `MODULE_STRUCT`, without cancelled packets,
    keeps the lists well formed exactly when every `FuseCheckForWork` delivers
    nothing or everything. -/
theorem wellFormed_iff (w : World) (name : List Wchar) (fileObject : Pfile)
    {tr : List (Module × Call)} {s : Module}
    (hrun : Run CallStep ⟨w, ModuleStruct.zeroed name fileObject⟩ tr s) :
    ((∀ x ∈ tr, WellFormed x.1) ∧ WellFormed s) ↔ ∀ x ∈ tr, CallOk x.1 x.2 := by
  refine Run.good_iff (I := CalmInv) ?_ ?_ (fun _ _ _ => call_calm) (fun _ _ _ => call_breaks)
    hrun
  · exact ⟨[], [], [], Rep.zeroed .., Owned.nil _, by simp⟩
  · rintro s ⟨U, M, O, hcalm⟩
    exact ⟨U, M, O, hcalm.rep⟩

/-- Two requests and two module packets: one call delivers both. -/
theorem wellFormed_two_delivered :
    ∃ tr s, Run CallStep ⟨emptyWorld, ModuleStruct.zeroed [] 0⟩ tr s ∧
      s.world.log.drop 4 = [.delivered 1 3, .completed 3, .delivered 2 4, .completed 4] ∧
      WellFormed s := by
  have h1 : Run CallStep ⟨emptyWorld, ModuleStruct.zeroed [] 0⟩ _ _ :=
    Run.nil.snoc (l := .addIrp 1 sampleRead false 101) (.addIrp (by decide) rfl rfl)
  have h2 := h1.snoc (l := .addIrp 2 sampleRead false 102) (.addIrp (by decide) rfl rfl)
  have h3 := h2.snoc (l := .addIrp 3 sampleModule true 103) (.addIrp (by decide) rfl rfl)
  have h4 := h3.snoc (l := .addIrp 4 sampleModule true 104) (.addIrp (by decide) rfl rfl)
  have hrun := h4.snoc (l := .checkForWork none) (.checkForWork 3 rfl)
  refine ⟨_, _, hrun, rfl, ((wellFormed_iff emptyWorld [] 0 hrun).mpr ?_).2⟩
  intro x hx
  simp only [List.nil_append, List.cons_append, List.mem_cons, List.not_mem_nil, or_false] at hx
  rcases hx with rfl | rfl | rfl | rfl | rfl
  · trivial
  · trivial
  · trivial
  · trivial
  · intro U M hU hM
    obtain rfl := hU.unique (show Seg _ _ [(101, 1), (102, 2)] none by decide)
    obtain rfl := hM.unique (show Seg _ _ [(103, 3), (104, 4)] none by decide)
    refine Or.inr ⟨.cons ⟨_, _, rfl, rfl, by decide⟩ (.cons ⟨_, _, rfl, rfl, by decide⟩ .nil),
      fun p hp => ?_⟩
    rw [← Option.some.inj hp]
    rfl

/-- Two requests and one module packet: the outstanding list is not
    null-terminated at its tail. -/
theorem not_wellFormed_two_waiting :
    ∃ tr s, Run CallStep ⟨emptyWorld, ModuleStruct.zeroed [] 0⟩ tr s ∧ ¬ WellFormed s := by
  have h1 : Run CallStep ⟨emptyWorld, ModuleStruct.zeroed [] 0⟩ _ _ :=
    Run.nil.snoc (l := .addIrp 1 sampleRead false 101) (.addIrp (by decide) rfl rfl)
  have h2 := h1.snoc (l := .addIrp 2 sampleRead false 102) (.addIrp (by decide) rfl rfl)
  have h3 := h2.snoc (l := .addIrp 3 sampleModule true 103) (.addIrp (by decide) rfl rfl)
  have hrun := h3.snoc (l := .checkForWork (some 3)) (.checkForWork 2 rfl)
  refine ⟨_, _, hrun, ?_⟩
  rintro ⟨U, M, O, hrep⟩
  -- the tail pointer of the chain 101, 102 is still at 101
  have hO := hrep.out.seg.unique (show Seg _ _ [(101, 1), (102, 2)] none by decide)
  have htail := hrep.out.tail_eq
  rw [hO] at htail
  revert htail
  decide

end FuseNt
