/-
  FuseNt.Driver.FoundWork

  What the result of `FuseCheckForWork` says about the in-flight packet.

  `FoundWork` is set as soon as the packet is at the head of `ModuleIrpList`
  while a request waits, before the round has looked at either of them.  The
  round may then drop the request (it is cancelled, or has no stack location)
  and find no other, or drop the packet itself; in both cases the caller is
  told that the packet was given work.

  The packet is the last of its queue.  Which requests are left for it depends
  on the packets before it: `UsedUp` says that none is.
-/

import FuseNt.Driver.Dispatch
import FuseNt.Driver.QueueInvariant
import FuseNt.Module.DirControl

namespace FuseNt

open FuseNt.Lib

-- ============================================================================
-- The requests that the earlier packets leave
-- ============================================================================

/-- The packet has not been cancelled. -/
def live (w : World) (p : Pirp) : Bool := !(w.irps p).cancel

/-- A request that a round hands to a module packet, if it fits. -/
def servable (w : World) (u : Pirp) : Bool := live w u && hasSp w u

/-- The requests that can be served find their buffers, in order, among the
    module packets that have not been cancelled. -/
def AllServed (w : World) (us ms : List Pirp) : Prop :=
  List.SublistForall₂ (fits w) (us.filter (servable w)) (ms.filter (live w))

/-- The requests behind the last one that can be served. -/
def trailing (w : World) : List Pirp → List Pirp
  | [] => []
  | u :: us => if (u :: us).all fun x => !servable w x then u :: us else trailing w us

/-- The module packets `ms` use up the requests `us`: some first part of them
    serves all requests that can be served, and behind it there is still a
    packet at which the requests behind the last of these are dropped.  A
    cancelled request is dropped at any packet, one without stack location only
    at a packet that has not been cancelled. -/
def UsedUp (w : World) (us ms : List Pirp) : Prop :=
  ∃ ms₁ ms₂, ms = ms₁ ++ ms₂ ∧ AllServed w us ms₁ ∧
    ∀ u ∈ trailing w us, ∃ m ∈ ms₂, live w u = false ∨ live w m = true

section UsedUp

variable {w : World} {u m : Pirp} {us ms : List Pirp}

theorem allServed_skip (hu : servable w u = false) :
    AllServed w (u :: us) ms ↔ AllServed w us ms := by
  simp only [AllServed, List.filter_cons, hu, Bool.false_eq_true, if_false]

theorem allServed_skip_module (hm : live w m = false) :
    AllServed w us (m :: ms) ↔ AllServed w us ms := by
  simp only [AllServed, List.filter_cons, hm, Bool.false_eq_true, if_false]

theorem allServed_deliver (hu : servable w u = true) (hm : live w m = true) (hf : fits w u m) :
    AllServed w (u :: us) (m :: ms) ↔ AllServed w us ms := by
  simp only [AllServed, List.filter_cons, hu, hm, if_true, sublistForall₂_cons_of_rel hf]

theorem allServed_bounce (hu : servable w u = true) (hm : live w m = true) (hf : ¬ fits w u m) :
    AllServed w (u :: us) (m :: ms) ↔ AllServed w (u :: us) ms := by
  simp only [AllServed, List.filter_cons, hu, hm, if_true, sublistForall₂_cons_of_not_rel hf]

/-- Without module packets nothing is served. -/
theorem allServed_nil : AllServed w us [] ↔ ∀ u ∈ us, servable w u = false := by
  unfold AllServed
  constructor
  · intro h u hu
    by_contra hs
    have hmem : u ∈ us.filter (servable w) := List.mem_filter.mpr ⟨hu, by simpa using hs⟩
    cases hl : us.filter (servable w) with
    | nil => simp [hl] at hmem
    | cons x xs =>
        rw [hl] at h
        cases h
  · intro h
    rw [List.filter_eq_nil_iff.mpr fun u hu => by simp [h u hu]]
    exact .nil

theorem allServed_append (h : AllServed w us ms) (ms' : List Pirp) :
    AllServed w us (ms ++ ms') := by
  unfold AllServed at h ⊢
  rw [List.filter_append]
  rw [List.sublistForall₂_iff] at h ⊢
  obtain ⟨l, hl, hsub⟩ := h
  exact ⟨l, hl, hsub.trans (List.sublist_append_left ..)⟩

theorem all_not_servable_iff :
    (us.all fun x => !servable w x) = true ↔ ∀ x ∈ us, servable w x = false := by
  simp only [List.all_eq_true, Bool.not_eq_true']

theorem trailing_of_none (h : ∀ x ∈ us, servable w x = false) : trailing w us = us := by
  cases us with
  | nil => rfl
  | cons u us => rw [trailing, if_pos (all_not_servable_iff.mpr h)]

theorem trailing_of_servable (hu : servable w u = true) :
    trailing w (u :: us) = trailing w us := by
  rw [trailing, if_neg]
  intro h
  have hfalse := all_not_servable_iff.mp h u (List.mem_cons_self ..)
  rw [hu] at hfalse
  cases hfalse

theorem usedUp_nil_left (ms : List Pirp) : UsedUp w [] ms :=
  ⟨[], ms, rfl, allServed_nil.mpr (by simp), fun _ hu => absurd hu List.not_mem_nil⟩

theorem not_usedUp_nil_right (u : Pirp) (us : List Pirp) : ¬ UsedUp w (u :: us) [] := by
  rintro ⟨ms₁, ms₂, hsplit, hserved, htrail⟩
  obtain ⟨rfl, rfl⟩ := List.append_eq_nil_iff.mp hsplit.symm
  rw [trailing_of_none (allServed_nil.mp hserved)] at htrail
  obtain ⟨m, hm, -⟩ := htrail u (List.mem_cons_self ..)
  cases hm

/-- What is used up is served as far as it can be. -/
theorem UsedUp.allServed (h : UsedUp w us ms) : AllServed w us ms := by
  obtain ⟨ms₁, ms₂, rfl, hserved, -⟩ := h
  exact allServed_append hserved ms₂

/-- If no request can be served, all are dropped. -/
theorem usedUp_of_none (h : ∀ x ∈ us, servable w x = false) :
    UsedUp w us ms ↔ ∀ u ∈ us, ∃ m ∈ ms, live w u = false ∨ live w m = true := by
  unfold UsedUp
  rw [trailing_of_none h]
  constructor
  · rintro ⟨ms₁, ms₂, rfl, -, htrail⟩ v hv
    obtain ⟨x, hx, hdrop⟩ := htrail v hv
    exact ⟨x, List.mem_append_right _ hx, hdrop⟩
  · intro hdrop
    exact ⟨[], ms, rfl, allServed_nil.mpr h, hdrop⟩

/-- A request is dropped at the first module packet. -/
theorem usedUp_skip (hu : servable w u = false) (hd : live w u = false ∨ live w m = true) :
    UsedUp w (u :: us) (m :: ms) ↔ UsedUp w us (m :: ms) := by
  by_cases hall : ∀ x ∈ us, servable w x = false
  · have hall' : ∀ x ∈ u :: us, servable w x = false := by
      intro x hx
      rcases List.mem_cons.mp hx with rfl | hx
      · exact hu
      · exact hall x hx
    rw [usedUp_of_none hall', usedUp_of_none hall, List.forall_mem_cons]
    exact and_iff_right ⟨m, List.mem_cons_self .., hd⟩
  · have htrailing : trailing w (u :: us) = trailing w us := by
      rw [trailing, if_neg]
      intro h
      exact hall fun x hx => all_not_servable_iff.mp h x (List.mem_cons_of_mem _ hx)
    simp only [UsedUp, htrailing, allServed_skip hu]

/-- A cancelled module packet is dropped at a request that is not. -/
theorem usedUp_skip_module (hu : live w u = true) (hm : live w m = false) :
    UsedUp w (u :: us) (m :: ms) ↔ UsedUp w (u :: us) ms := by
  constructor
  · rintro ⟨ms₁, ms₂, hsplit, hserved, htrail⟩
    cases ms₁ with
    | cons x ms₁ =>
        obtain ⟨rfl, rfl⟩ := List.cons.inj hsplit
        exact ⟨ms₁, ms₂, rfl, (allServed_skip_module hm).mp hserved, htrail⟩
    | nil =>
        obtain rfl : m :: ms = ms₂ := hsplit
        have hnone := allServed_nil.mp hserved
        rw [trailing_of_none hnone] at htrail
        -- the first request has no stack location and waits for a live packet
        obtain ⟨x, hx, hdrop⟩ := htrail u (List.mem_cons_self ..)
        have hlive : live w x = true := hdrop.resolve_left (by simp [hu])
        have hx' : x ∈ ms := by
          rcases List.mem_cons.mp hx with rfl | hx
          · simp [hm] at hlive
          · exact hx
        exact (usedUp_of_none hnone).mpr fun v _ => ⟨x, hx', Or.inr hlive⟩
  · rintro ⟨ms₁, ms₂, rfl, hserved, htrail⟩
    exact ⟨m :: ms₁, ms₂, rfl, (allServed_skip_module hm).mpr hserved, htrail⟩

/-- A request that can be served is not served without a packet, so that the
    first packet belongs to the first part. -/
theorem usedUp_of_servable {us' : List Pirp} (hu : servable w u = true)
    (hserve : ∀ ms, AllServed w (u :: us) (m :: ms) ↔ AllServed w us' ms)
    (htrailing : trailing w us' = trailing w us) :
    UsedUp w (u :: us) (m :: ms) ↔ UsedUp w us' ms := by
  simp only [UsedUp, trailing_of_servable hu, htrailing]
  constructor
  · rintro ⟨ms₁, ms₂, hsplit, hserved, htrail⟩
    cases ms₁ with
    | nil =>
        have hnone := allServed_nil.mp hserved u (List.mem_cons_self ..)
        simp [hu] at hnone
    | cons x ms₁ =>
        obtain ⟨rfl, rfl⟩ := List.cons.inj hsplit
        exact ⟨ms₁, ms₂, rfl, (hserve ms₁).mp hserved, htrail⟩
  · rintro ⟨ms₁, ms₂, rfl, hserved, htrail⟩
    exact ⟨m :: ms₁, ms₂, rfl, (hserve ms₁).mpr hserved, htrail⟩

theorem usedUp_deliver (hu : servable w u = true) (hm : live w m = true) (hf : fits w u m) :
    UsedUp w (u :: us) (m :: ms) ↔ UsedUp w us ms :=
  usedUp_of_servable hu (fun _ => allServed_deliver hu hm hf) rfl

theorem usedUp_bounce (hu : servable w u = true) (hm : live w m = true) (hf : ¬ fits w u m) :
    UsedUp w (u :: us) (m :: ms) ↔ UsedUp w (u :: us) ms :=
  usedUp_of_servable hu (fun _ => allServed_bounce hu hm hf) (trailing_of_servable hu)

end UsedUp

-- ============================================================================
-- The loop
-- ============================================================================

/-- `w'` has the same packets, as far as the loop decides by them. -/
structure SamePackets (w w' : World) : Prop where
  live : live w' = live w
  hasSp : hasSp w' = hasSp w
  fits : fits w' = fits w

namespace SamePackets

variable {w w' : World} {us ms : List Pirp}

theorem refl (w : World) : SamePackets w w := ⟨rfl, rfl, rfl⟩

theorem servable (h : SamePackets w w') : servable w' = servable w := by
  funext u
  simp only [FuseNt.servable, h.live, h.hasSp]

theorem trailing (h : SamePackets w w') : trailing w' us = trailing w us := by
  induction us with
  | nil => rfl
  | cons u us ih => simp only [FuseNt.trailing, h.servable, ih]

theorem allServed (h : SamePackets w w') : AllServed w' us ms ↔ AllServed w us ms := by
  simp only [AllServed, h.live, h.servable, h.fits]

theorem usedUp (h : SamePackets w w') : UsedUp w' us ms ↔ UsedUp w us ms := by
  simp only [UsedUp, h.allServed, h.trailing, h.live]

end SamePackets

/-- What a round does with the first request and the first module packet. -/
inductive Outcome (w : World) (x : Entry) (U : List Entry) (y : Entry) (M O : List Entry)
    (nxt : Option Addr) (w' : World) (ms' : ModuleStruct) : Prop
  /-- The request is dropped. -/
  | skip (request : servable w x.2 = false) (why : live w x.2 = false ∨ live w y.2 = true)
      (log : w'.log = w.log) (ready : Ready w' ms' U (y :: M) O nxt)
  /-- The module packet is dropped. -/
  | skipModule (request : live w x.2 = true) (packet : live w y.2 = false)
      (log : w'.log = w.log) (ready : Ready w' ms' (x :: U) M O nxt)
  /-- The request is handed over. -/
  | deliver (request : servable w x.2 = true) (packet : live w y.2 = true)
      (fit : fits w x.2 y.2)
      (log : w'.log = w.log ++ [.delivered x.2 y.2, .completed y.2])
      (ready : Ready w' ms' U M (O ++ [x]) (headAddr U none))
  /-- The request does not fit. -/
  | bounce (request : servable w x.2 = true) (packet : live w y.2 = true)
      (fit : ¬ fits w x.2 y.2) (log : w'.log = w.log ++ [.completed y.2])
      (ready : Ready w' ms' (x :: U) M O nxt)

section Loop

variable {w w' : World} {ms ms' : ModuleStruct} {U M O : List Entry} {nxt : Option Addr}
  {x y : Entry} {a : Addr} {m : Pirp} {found found' : Bool} {fuel : Nat}

/-- A round has one of the four outcomes. -/
theorem Ready.outcome (hs : Ready w ms (x :: U) (y :: M) O nxt)
    (hp : FuseNt.pairHead w ms = some (w', ms')) :
    SamePackets w w' ∧ Outcome w x U y M O nxt w' ms' := by
  obtain ⟨ua, u⟩ := x
  obtain ⟨ma, m⟩ := y
  cases pairHead_round hs.rep hp with
  | dropUserspace why hw hrep =>
      subst hw
      refine ⟨.refl _, .skip ?_ ?_ rfl (hs.dropUserspace hrep)⟩
      · rcases why with h | ⟨-, -, h⟩ <;> simp [servable, live, hasSp, h]
      · rcases why with h | ⟨-, h, -⟩ <;> simp [live, h]
  | dropModule hu hm hw hrep =>
      subst hw
      exact ⟨.refl _, .skipModule (by simp [live, hu]) (by simp [live, hm]) rfl
        (hs.dropModule hrep)⟩
  | deliver usp msp ws h' hu hm husp hmsp hle _ hw hrep _ _ =>
      subst hw
      have hsame := setIrp_filledIrp w u usp m ws
      refine ⟨⟨?_, ?_, ?_⟩, .deliver (by simp [servable, live, hasSp, hu, husp])
        (by simp [live, hm]) ⟨usp, msp, husp, hmsp, hle⟩ rfl (hs.deliver usp ws hrep)⟩
      · funext q
        simp only [live, (hsame q).2.1]
      · funext q
        simp only [hasSp, (hsame q).1]
      · funext q r
        simp only [fits, (hsame q).1, (hsame r).1, reqSize, reqTrailer, (hsame q).2.2]
        rfl
  | bounce usp msp h' hu hm husp hmsp hlt hw hrep _ _ =>
      subst hw
      refine ⟨⟨rfl, rfl, rfl⟩, .bounce (by simp [servable, live, hasSp, hu, husp])
        (by simp [live, hm]) ?_ rfl (hs.bounce hrep)⟩
      rintro ⟨usp', msp', husp', hmsp', hle⟩
      obtain rfl := Option.some.inj (husp.symm.trans husp')
      obtain rfl := Option.some.inj (hmsp.symm.trans hmsp')
      exact absurd hle (Nat.not_le.mpr hlt)

/-- The loop ends when a queue is empty. -/
theorem pairLoop_empty {inFlight : Option Pirp} (hr : Rep w.heap ms U M O nxt)
    (hempty : U = [] ∨ M = [])
    (hloop : pairLoop inFlight fuel w ms found = some (w', ms', found')) :
    w' = w ∧ ms' = ms ∧ found' = found := by
  have hu := hr.user.seg.head_eq
  have hm := hr.module.seg.head_eq
  cases fuel with
  | zero => simp [pairLoop] at hloop
  | succ fuel =>
      rcases hempty with rfl | rfl
      · rw [headAddr_nil] at hu
        cases hml : ms.moduleIrpList <;> simpa [pairLoop, hu, hml, eq_comm] using hloop
      · rw [headAddr_nil] at hm
        simpa [pairLoop, hm, eq_comm] using hloop

/-- Else it does a round, which sets `FoundWork` if the packet is the first. -/
theorem pairLoop_cons {inFlight : Option Pirp} (hr : Rep w.heap ms (x :: U) (y :: M) O nxt)
    (hloop : pairLoop inFlight (fuel + 1) w ms found = some (w', ms', found')) :
    ∃ w₁ ms₁, pairHead w ms = some (w₁, ms₁) ∧
      pairLoop inFlight fuel w₁ ms₁ (found || inFlight == some y.2) = some (w', ms', found') := by
  have hu := hr.user.seg.head_eq
  obtain ⟨hm, hmc⟩ := hr.module.head_cell
  rw [headAddr_cons] at hu
  simp only [pairLoop, hu, hm, hmc, Option.bind_eq_bind, Option.bind_some] at hloop
  obtain ⟨⟨w₁, ms₁⟩, hround, hloop⟩ := Option.bind_eq_some_iff.mp hloop
  exact ⟨w₁, ms₁, hround, hloop⟩

/-- The loop hands work to the packet `m`, the last of its queue. -/
def GivesWork (w : World) (us ms : List Pirp) (m : Pirp) : Prop :=
  live w m = true ∧ ¬ AllServed w us ms

/-- What has become of the packet `m` when the loop is over: `FoundWork` is set
    if the packets before `m` have not used up the requests, and the packet is
    completed if one that can be served was left. -/
structure InFlightResult (w : World) (U M : List Entry) (m : Pirp) (found : Bool) (w' : World)
    (M' : List Entry) (found' : Bool) : Prop where
  found : found' = true ↔ found = true ∨ ¬ UsedUp w (vals U) (vals M)
  served : GivesWork w (vals U) (vals M) m → completions w'.log m = some 1 ∧ m ∉ vals M'
  unserved : ¬ GivesWork w (vals U) (vals M) m → completions w'.log m = some 0
  queued : UsedUp w (vals U) (vals M) → m ∈ vals M'

/-- The packet waits for a request. -/
theorem Ready.waiting (hs : Ready w ms U (M ++ [(a, m)]) O nxt) :
    completions w.log m = some 0 :=
  hs.owned.waiting m (by simp [packets, vals])

/-- A round that leaves the packet `m` and `FoundWork` alone. -/
theorem InFlightResult.round {w₁ : World} {U₁ M₁ M' : List Entry}
    (h : InFlightResult w₁ U₁ M₁ m found w' M' found') (hsame : SamePackets w w₁)
    (hused : UsedUp w (vals U) (vals M) ↔ UsedUp w (vals U₁) (vals M₁))
    (hserved : AllServed w (vals U) (vals M) ↔ AllServed w (vals U₁) (vals M₁)) :
    InFlightResult w U M m found w' M' found' := by
  have hused' := hused.trans hsame.usedUp.symm
  have hgives : GivesWork w (vals U) (vals M) m ↔ GivesWork w₁ (vals U₁) (vals M₁) m := by
    simp only [GivesWork, hserved, hsame.live, hsame.allServed]
  exact
    { found := by rw [hused']; exact h.found
      served := fun hs => h.served (hgives.mp hs)
      unserved := fun hs => h.unserved (mt hgives.mpr hs)
      queued := fun hu => h.queued (hused'.mp hu) }

/-- A round at which the packet `m` is the first sets `FoundWork`. -/
theorem InFlightResult.first {M' : List Entry} (hfound : found' = true)
    (hserved : GivesWork w (vals (x :: U)) [] m → completions w'.log m = some 1 ∧ m ∉ vals M')
    (hunserved : ¬ GivesWork w (vals (x :: U)) [] m → completions w'.log m = some 0) :
    InFlightResult w (x :: U) [] m found w' M' found' where
  found := iff_of_true hfound (Or.inr (not_usedUp_nil_right _ _))
  served := hserved
  unserved := hunserved
  queued h := absurd h (not_usedUp_nil_right _ _)

/-- With a request that can be served at the head, the packet is completed. -/
theorem givesWork_first (hu : servable w x.2 = true) (hm : live w m = true) :
    GivesWork w (vals (x :: U)) [] m := by
  refine ⟨hm, fun hall => ?_⟩
  have hnone := allServed_nil.mp hall x.2 (by simp)
  rw [hu] at hnone
  cases hnone

theorem pairLoop_inFlight (hs : Ready w ms U (M ++ [(a, m)]) O nxt)
    (hloop : pairLoop (some m) fuel w ms found = some (w', ms', found')) :
    ∃ U' M' O' nxt', Ready w' ms' U' M' O' nxt' ∧
      InFlightResult w U M m found w' M' found' := by
  induction fuel generalizing w ms U M O nxt found with
  | zero => simp [pairLoop] at hloop
  | succ fuel ih =>
  have hwait := hs.waiting
  cases U with
  | nil =>
      obtain ⟨rfl, rfl, rfl⟩ := pairLoop_empty hs.rep (Or.inl rfl) hloop
      refine ⟨[], M ++ [(a, m)], O, nxt, hs, ⟨?_, ?_, fun _ => hwait, ?_⟩⟩
      · simp [usedUp_nil_left]
      · exact fun h => absurd (usedUp_nil_left _).allServed h.2
      · exact fun _ => by simp [vals]
  | cons x U =>
  cases M with
  | nil =>
      obtain ⟨w₁, ms₁, hround, hloop⟩ := pairLoop_cons hs.rep hloop
      obtain ⟨hsame, hout⟩ := hs.outcome hround
      have hset : (found || some m == some m) = true := by simp
      rw [hset] at hloop
      cases hout with
      | skip hu _ _ hready =>
          -- `m` stays, with the requests behind this one
          obtain ⟨U', M', O', nxt', hready', hres⟩ := ih (M := []) hready hloop
          have hgives : GivesWork w (vals (x :: U)) [] m ↔ GivesWork w₁ (vals U) (vals []) m := by
            simp only [GivesWork, hsame.live, hsame.allServed]
            rw [vals, List.map_cons, allServed_skip hu]
            exact Iff.rfl
          refine ⟨U', M', O', nxt', hready', .first (hres.found.mpr (Or.inl rfl)) ?_ ?_⟩
          · exact fun h => hres.served (hgives.mp h)
          · exact fun h => hres.unserved (mt hgives.mpr h)
      | skipModule _ hm hlog hready =>
          -- `m` is taken off its queue without being completed
          obtain ⟨rfl, rfl, rfl⟩ := pairLoop_empty hready.rep (Or.inr rfl) hloop
          refine ⟨_, _, _, _, hready, .first rfl ?_ ?_⟩
          · exact fun h => absurd h.1 (by simp [hm])
          · exact fun _ => hlog ▸ hwait
      | deliver hu hm _ hlog hready =>
          obtain ⟨rfl, rfl, rfl⟩ := pairLoop_empty hready.rep (Or.inr rfl) hloop
          refine ⟨_, _, _, _, hready, .first rfl ?_ fun h => absurd (givesWork_first hu hm) h⟩
          rw [hlog, List.append_cons, completions_concat, completions_concat]
          exact fun _ => ⟨by simp [countCompletion, hwait], by simp⟩
      | bounce hu hm _ hlog hready =>
          obtain ⟨rfl, rfl, rfl⟩ := pairLoop_empty hready.rep (Or.inr rfl) hloop
          refine ⟨_, _, _, _, hready, .first rfl ?_ fun h => absurd (givesWork_first hu hm) h⟩
          exact fun _ => ⟨by simp [hlog, countCompletion, hwait], by simp⟩
  | cons y M =>
      have hne : m ≠ y.2 := by
        have hnd := hs.owned.nodup
        rintro rfl
        simp only [packets, vals, List.cons_append, List.map_cons, List.map_append] at hnd
        grind
      obtain ⟨w₁, ms₁, hround, hloop⟩ := pairLoop_cons hs.rep hloop
      obtain ⟨hsame, hout⟩ := hs.outcome hround
      have hset : (found || some m == some y.2) = found := by simp [hne]
      rw [hset] at hloop
      cases hout with
      | skip hu why _ hready =>
          obtain ⟨U', M', O', nxt', hready', hres⟩ := ih (M := y :: M) hready hloop
          exact ⟨U', M', O', nxt', hready',
            hres.round hsame (usedUp_skip hu why) (allServed_skip hu)⟩
      | skipModule hu hm _ hready =>
          obtain ⟨U', M', O', nxt', hready', hres⟩ := ih hready hloop
          exact ⟨U', M', O', nxt', hready',
            hres.round hsame (usedUp_skip_module hu hm) (allServed_skip_module hm)⟩
      | deliver hu hm hf _ hready =>
          obtain ⟨U', M', O', nxt', hready', hres⟩ := ih hready hloop
          exact ⟨U', M', O', nxt', hready',
            hres.round hsame (usedUp_deliver hu hm hf) (allServed_deliver hu hm hf)⟩
      | bounce hu hm hf _ hready =>
          obtain ⟨U', M', O', nxt', hready', hres⟩ := ih hready hloop
          exact ⟨U', M', O', nxt', hready',
            hres.round hsame (usedUp_bounce hu hm hf) (allServed_bounce hu hm hf)⟩

end Loop

-- ============================================================================
-- The result
-- ============================================================================

section Result

variable {w : World} {ms : ModuleStruct} {U M O : List Entry} {nxt : Option Addr} {a : Addr}
  {m : Pirp}

/-- The test before the loop changes nothing: with an empty queue the loop would
    end at once. -/
theorem fuseCheckForWork_inFlight {w' : World} {ms' : ModuleStruct} {found : Bool} {fuel : Nat}
    (hs : Ready w ms U (M ++ [(a, m)]) O nxt)
    (hcheck : fuseCheckForWork fuel w ms (some m) = some (w', ms', found)) :
    ∃ U' M' O' nxt', Ready w' ms' U' M' O' nxt' ∧ InFlightResult w U M m false w' M' found := by
  unfold fuseCheckForWork at hcheck
  split at hcheck
  case isTrue => exact pairLoop_inFlight hs hcheck
  case isFalse hempty =>
      have hu := hs.rep.user.seg.head_eq
      have hm := hs.rep.module.seg.head_eq
      obtain rfl : U = [] := by
        cases U with
        | nil => rfl
        | cons x U => cases M <;> simp [hu, hm] at hempty
      have hloop : pairLoop (some m) 1 w ms false = some (w', ms', found) := by
        rw [headAddr_nil] at hu
        rw [← hcheck]
        cases hml : ms.moduleIrpList <;> simp [pairLoop, hu, hml]
      exact pairLoop_inFlight hs hloop

/-- The call returns. -/
theorem fuseCheckForWork_returns (inFlight : Option Pirp) (hs : Ready w ms U M O nxt) :
    ∃ r, Settles (fun fuel => fuseCheckForWork fuel w ms inFlight) r := by
  obtain ⟨r, hloop⟩ := pairLoop_returns inFlight false hs
  unfold fuseCheckForWork
  split
  case isTrue => exact ⟨r, U.length + M.length + 1, hloop⟩
  case isFalse => exact ⟨(w, ms, false), 0, fun _ _ => rfl⟩

end Result

end FuseNt
