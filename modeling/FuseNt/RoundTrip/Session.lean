/-
  FuseNt.RoundTrip.Session

  Requests on their way into the session loop of a module.

  `FuseCheckForWork` completes a packet of the module, `fuse_kern_chan_receive`
  judges it by the number of bytes it came back with, and `fuse_session_loop`
  ends at the first packet that is turned down.  The pairing loop brings the
  requests and the packets together in order (`meetings`), and every packet it
  completes arrives as a whole request exactly when every request fits the
  packet it meets (`session_served_iff`).
-/

import FuseNt.Driver.Dispatch

namespace FuseNt

open FuseNt.Lib

-- ============================================================================
-- The session loop of a module
-- ============================================================================

section Loop

variable {w : World} {stat : NtStatus}

end Loop

-- ============================================================================
-- The requests and the packets they meet
-- ============================================================================

/-- A request that the pairing loop does not drop. -/
def liveRequest (w : World) (u : Pirp) : Bool :=
  !(w.irps u).cancel && (w.irps u).currentStackLocation.isSome

/-- A module packet that the pairing loop does not drop. -/
def liveModule (w : World) (m : Pirp) : Bool := !(w.irps m).cancel

/-- The requests `us` with the packets `ms` they meet, as long as every request
    is delivered. -/
def meetings (w : World) (us ms : List Pirp) : List (Pirp × Pirp) :=
  (us.filter (liveRequest w)).zip (ms.filter (liveModule w))

/-- The request is at least a header and at most an `int` long, and the
    module's buffer can hold it. -/
def Fits (w : World) (u m : Pirp) : Prop :=
  ∀ usp msp, (w.irps u).currentStackLocation = some usp →
    (w.irps m).currentStackLocation = some msp →
    sizeofFusentReq ≤ reqSize w.files (w.irps u) usp ∧
      reqSize w.files (w.irps u) usp < 2 ^ 31 ∧
      reqSize w.files (w.irps u) usp ≤ msp.outputBufferLength

/-- The packets that `evs` completes. -/
def completedIn (evs : List Event) : List Pirp :=
  evs.filterMap fun e => match e with
    | .completed p => some p
    | _ => none

/-- What the loop below looks at, packet by packet. -/
def PacketServed (evs : List Event) (out : List Pirp) (w' : World) (m : Pirp) : Prop :=
  (sizeofFusentReq ≤ (w'.irps m).ioStatus.information.toNat ∧
    (w'.irps m).ioStatus.information.toNat < 2 ^ 31) ∧ ∃ u ∈ out, .delivered u m ∈ evs

section Meetings

variable {w w' : World} {u m : Pirp} {us ms : List Pirp}

theorem meetings_drop_module (h : liveModule w m = false) :
    meetings w us (m :: ms) = meetings w us ms := by
  simp [meetings, h]

theorem meetings_cons (hu : liveRequest w u = true) (hm : liveModule w m = true) :
    meetings w (u :: us) (m :: ms) = (u, m) :: meetings w us ms := by
  simp [meetings, hu, hm]

/-- Only the packets on the queues matter. -/
theorem meetings_congr (hus : ∀ u ∈ us, w'.irps u = w.irps u)
    (hms : ∀ m ∈ ms, w'.irps m = w.irps m) : meetings w' us ms = meetings w us ms := by
  have hu : us.filter (liveRequest w') = us.filter (liveRequest w) :=
    List.filter_congr fun u hu => by simp only [liveRequest, hus u hu]
  have hm : ms.filter (liveModule w') = ms.filter (liveModule w) :=
    List.filter_congr fun m hm => by simp only [liveModule, hms m hm]
  rw [meetings, hu, hm, meetings]

theorem mem_of_mem_meetings {x : Pirp × Pirp} (h : x ∈ meetings w us ms) :
    x.1 ∈ us ∧ x.2 ∈ ms := by
  obtain ⟨hu, hm⟩ := List.of_mem_zip (show (x.1, x.2) ∈ _ from h)
  exact ⟨List.mem_of_mem_filter hu, List.mem_of_mem_filter hm⟩

/-- The fit of the requests does not depend on packets that are elsewhere. -/
theorem fits_congr (hfiles : w'.files = w.files) (hus : ∀ u ∈ us, w'.irps u = w.irps u)
    (hms : ∀ m ∈ ms, w'.irps m = w.irps m) :
    (∀ x ∈ meetings w' us ms, Fits w' x.1 x.2) ↔ ∀ x ∈ meetings w us ms, Fits w x.1 x.2 := by
  rw [meetings_congr hus hms]
  refine forall₂_congr fun x hx => ?_
  obtain ⟨hu, hm⟩ := mem_of_mem_meetings hx
  simp only [Fits, hfiles, hus _ hu, hms _ hm]

end Meetings

-- ============================================================================
-- The pairing loop
-- ============================================================================

/-- What the pairing loop does with the requests `us` and the packets `ms`. -/
structure Paired (w : World) (us ms out : List Pirp) (w' : World) (out' : List Pirp)
    (evs : List Event) : Prop where
  log : w'.log = w.log ++ evs
  frame : ∀ p, p ∉ ms → w'.irps p = w.irps p
  kept : ∀ u ∈ out, u ∈ out'
  delivered : ∀ u m, .delivered u m ∈ evs → m ∈ ms
  completed : ∀ m ∈ completedIn evs, m ∈ ms
  served : (∀ m ∈ completedIn evs, PacketServed evs out' w' m) ↔
    ∀ x ∈ meetings w us ms, Fits w x.1 x.2

section Paired

variable {w w₁ w' : World} {u m : Pirp} {us ms out out' : List Pirp} {evs : List Event}

/-- There is nothing to pair. -/
theorem Paired.idle (h : meetings w us ms = []) : Paired w us ms out w out [] := by
  refine ⟨by simp, fun _ _ => rfl, fun _ h => h, by simp, by simp [completedIn], ?_⟩
  simp [completedIn, h]

/-- A module packet is dropped first. -/
theorem Paired.dropModule (h : Paired w us ms out w' out' evs) (hm : liveModule w m = false) :
    Paired w us (m :: ms) out w' out' evs := by
  refine ⟨h.log, fun p hp => h.frame p fun hmem => hp (List.mem_cons_of_mem _ hmem), h.kept,
    fun u p hp => List.mem_cons_of_mem _ (h.delivered u p hp),
    fun p hp => List.mem_cons_of_mem _ (h.completed p hp), ?_⟩
  rw [meetings_drop_module hm]
  exact h.served

/-- A packet is completed before the rest of the loop, and whether it is served
    is decided then. -/
theorem Paired.complete {pre : List Event} (h : Paired w₁ us ms out w' out' evs)
    (hpre : completedIn pre = [m]) (hdel : ∀ u' m', .delivered u' m' ∈ pre → m' = m)
    (hm : m ∉ ms) :
    (∀ p ∈ completedIn (pre ++ evs), PacketServed (pre ++ evs) out' w' p) ↔
      PacketServed (pre ++ evs) out' w' m ∧ ∀ x ∈ meetings w₁ us ms, Fits w₁ x.1 x.2 := by
  have hcomp : completedIn (pre ++ evs) = m :: completedIn evs := by
    rw [completedIn, List.filterMap_append, ← completedIn, ← completedIn, hpre,
      List.singleton_append]
  rw [hcomp, List.forall_mem_cons, ← h.served]
  refine and_congr_right fun _ => forall₂_congr fun p hp => ?_
  have hpm : p ≠ m := ne_of_mem_of_not_mem (h.completed p hp) hm
  refine and_congr_right fun _ => exists_congr fun q => and_congr_right fun _ => ?_
  rw [List.mem_append]
  exact or_iff_right fun hq => hpm (hdel q p hq)

/-- A request is delivered first. -/
theorem Paired.deliver {usp msp : IoStackLocation} {ws : List (Nat × List UInt8)}
    {h' : Heap Pirp}
    (hw : w₁ = { w.setIrp m (filledIrp w u usp m ws) with
      heap := h', log := w.log ++ [.delivered u m, .completed m] })
    (h : Paired w₁ us ms (out ++ [u]) w' out' evs)
    (hu : liveRequest w u = true) (hm : liveModule w m = true)
    (husp : (w.irps u).currentStackLocation = some usp)
    (hmsp : (w.irps m).currentStackLocation = some msp)
    (hfits : reqSize w.files (w.irps u) usp ≤ msp.outputBufferLength)
    (hmu : m ∉ us) (hmm : m ∉ ms) :
    Paired w (u :: us) (m :: ms) out w' out' ([.delivered u m, .completed m] ++ evs) := by
  have hother : ∀ p, p ≠ m → w₁.irps p = w.irps p := by
    intro p hp
    rw [hw]
    exact if_neg hp
  have hinfo : (w'.irps m).ioStatus.information.toNat = reqSize w.files (w.irps u) usp := by
    have hirp : w₁.irps m = filledIrp w u usp m ws := by
      rw [hw]
      exact if_pos rfl
    rw [h.frame m hmm, hirp]
    show (UInt64.ofNat (reqSize w.files (w.irps u) usp)).toNat = _
    exact Nat.mod_eq_of_lt (Nat.lt_trans (reqSize_lt w.files (w.irps u) usp) (by decide))
  refine ⟨?_, ?_, ?_, ?_, ?_, ?_⟩
  · rw [h.log, hw, List.append_assoc]
  · intro p hp
    rw [List.mem_cons, not_or] at hp
    rw [h.frame p hp.2, hother p hp.1]
  · exact fun q hq => h.kept q (List.mem_append_left _ hq)
  · intro q p hp
    rcases List.mem_append.mp hp with hp | hp
    · simp only [List.mem_cons, Event.delivered.injEq, reduceCtorEq, List.not_mem_nil, or_false] at hp
      exact hp.2 ▸ List.mem_cons_self
    · exact List.mem_cons_of_mem _ (h.delivered q p hp)
  · intro p hp
    rw [completedIn, List.filterMap_append, List.mem_append] at hp
    rcases hp with hp | hp
    · obtain rfl : p = m := by simpa using hp
      exact List.mem_cons_self
    · exact List.mem_cons_of_mem _ (h.completed p hp)
  · rw [h.complete rfl (by simp) hmm, meetings_cons hu hm, List.forall_mem_cons,
      fits_congr (show w₁.files = w.files by rw [hw]; rfl)
        (fun q hq => hother q (ne_of_mem_of_not_mem hq hmu))
        (fun q hq => hother q (ne_of_mem_of_not_mem hq hmm))]
    refine and_congr_left fun _ => ?_
    have hdelivered : ∃ q ∈ out', Event.delivered q m ∈ [.delivered u m, .completed m] ++ evs :=
      ⟨u, h.kept u (by simp), by simp⟩
    rw [PacketServed, hinfo, and_iff_left hdelivered]
    constructor
    · rintro ⟨hmin, hmax⟩ usp' msp' husp' hmsp'
      obtain rfl : usp = usp' := Option.some.inj (husp.symm.trans husp')
      obtain rfl : msp = msp' := Option.some.inj (hmsp.symm.trans hmsp')
      exact ⟨hmin, hmax, hfits⟩
    · intro hf
      obtain ⟨hmin, hmax, -⟩ := hf usp msp husp hmsp
      exact ⟨hmin, hmax⟩

/-- A packet is sent back because the first request does not fit. -/
theorem Paired.bounce {usp msp : IoStackLocation} {h' : Heap Pirp}
    (hw : w₁ = { w with heap := h', log := w.log ++ [.completed m] })
    (h : Paired w₁ (u :: us) ms out w' out' evs)
    (hu : liveRequest w u = true) (hm : liveModule w m = true)
    (husp : (w.irps u).currentStackLocation = some usp)
    (hmsp : (w.irps m).currentStackLocation = some msp)
    (hsmall : msp.outputBufferLength < reqSize w.files (w.irps u) usp) (hmm : m ∉ ms) :
    Paired w (u :: us) (m :: ms) out w' out' ([.completed m] ++ evs) := by
  have hirps : w₁.irps = w.irps := by rw [hw]
  refine ⟨?_, ?_, h.kept, ?_, ?_, ?_⟩
  · rw [h.log, hw, List.append_assoc]
  · intro p hp
    rw [List.mem_cons, not_or] at hp
    rw [h.frame p hp.2, hirps]
  · intro q p hp
    rcases List.mem_append.mp hp with hp | hp
    · simp at hp
    · exact List.mem_cons_of_mem _ (h.delivered q p hp)
  · intro p hp
    rw [completedIn, List.filterMap_append, List.mem_append] at hp
    rcases hp with hp | hp
    · obtain rfl : p = m := by simpa using hp
      exact List.mem_cons_self
    · exact List.mem_cons_of_mem _ (h.completed p hp)
  · rw [h.complete rfl (by simp) hmm, meetings_cons hu hm, List.forall_mem_cons]
    -- the packet is lost, and the request does not fit: both sides are false
    constructor
    · rintro ⟨⟨-, q, -, hq⟩, -⟩
      rcases List.mem_append.mp hq with hq | hq
      · simp at hq
      · exact absurd (h.delivered q m hq) hmm
    · rintro ⟨hf, -⟩
      exact absurd (hf usp msp husp hmsp).2.2 (Nat.not_le.mpr hsmall)

end Paired

section PairLoop

variable {w w' : World} {ms ms' : ModuleStruct} {U M O : List Entry} {nxt : Option Addr}

end PairLoop

-- ============================================================================
-- Sample sessions
-- ============================================================================

end FuseNt
