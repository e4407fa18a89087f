/-
  FuseNt.Driver.Replies

  Which packets a module's response can complete.

  The driver trusts a response because the packet it names is reachable from
  `OutstandingIrpList`.  A delivered request keeps the link it had in the
  userspace queue, so that requests still waiting there may be reachable too.
  `ReplyOk` excludes exactly the responses for which that matters: those that
  name the last outstanding request, or something behind it, while its link
  is not null.  In runs whose responses meet it, only requests that were
  handed to the module and not answered since are filled in and completed.
-/

import FuseNt.Driver.Machine

namespace FuseNt

open FuseNt.Lib

-- ============================================================================
-- What a module was given
-- ============================================================================

/-- How one event changes whether the module owes an answer to `p`. -/
def countDelivery (p : Pirp) (b : Bool) : Event → Bool
  | .queuedUserspace q => if q = p then false else b
  | .queuedModule q => if q = p then false else b
  | .delivered u _ => if u = p then true else b
  | .completed q => if q = p then false else b

/-- `p` was handed to the module, and since then neither completed nor queued
    as a new packet. -/
def awaitingReply (log : List Event) (p : Pirp) : Bool := log.foldl (countDelivery p) false

@[simp] theorem awaitingReply_concat (log : List Event) (e : Event) (p : Pirp) :
    awaitingReply (log ++ [e]) p = countDelivery p (awaitingReply log p) e := by
  simp [awaitingReply, List.foldl_append]

/-- What a response may do in going from `s` to `s'`. -/
structure LegitimateReply (s s' : State) : Prop where
  /-- The packets it completes are owed an answer. -/
  completes : ∀ p, .completed p ∈ s'.world.log.drop s.world.log.length →
    awaitingReply s.world.log p = true
  /-- So are the packets it writes to. -/
  fills : ∀ p, s'.world.irps p ≠ s.world.irps p → awaitingReply s.world.log p = true
  /-- It completes no packet of the userspace queue. -/
  waiting : ∀ ms U, s.module = some ms → Seg s.world.heap ms.userspaceIrpList U none →
    ∀ p ∈ vals U, .completed p ∉ s'.world.log.drop s.world.log.length

/-- The link of the last outstanding request is null, or the packet named is
    on the list before that request, or it is not on the list at all. -/
def ReplyOk (w : World) (ms : ModuleStruct) (p : Pirp) : Prop :=
  (∀ e c, ms.outstandingIrpListEnd = some e → w.heap e = some c → c.next = none) ∨
  (∃ l e, ms.outstandingIrpListEnd = some e ∧ Seg w.heap ms.outstandingIrpList l (some e) ∧
    e ∉ addrs l ∧ p ∈ vals l) ∨
  ∃ l, Seg w.heap ms.outstandingIrpList l none ∧ p ∉ vals l

/-- The condition on a step. -/
def ReplyStepOk (s : State) (l : Label) : Prop :=
  ∀ ms, s.module = some ms →
    match l with
    | .response irp => ReplyOk s.world ms (respPirp irp.systemBuffer)
    | _ => True

-- ============================================================================
-- The invariant
-- ============================================================================

/-- The lists up to the last outstanding request are well formed, and the
    module owes an answer to the outstanding packets and to no waiting one. -/
structure Served (w : World) (ms : ModuleStruct) (U M O : List Entry) (nxt : Option Addr) :
    Prop where
  rep : Rep w.heap ms U M O nxt
  owned : Owned w.log (packets U M O)
  outstanding : ∀ p ∈ vals O, awaitingReply w.log p = true
  userspace : ∀ p ∈ vals U, awaitingReply w.log p = false

/-- `Served` of some lists, while there is a module. -/
def ServedInv (s : State) : Prop :=
  ∀ ms, s.module = some ms → ∃ U M O nxt, Served s.world ms U M O nxt

section Steps

variable {w w' : World} {ms ms' : ModuleStruct} {U M O : List Entry} {nxt : Option Addr}

/-- The outstanding list is null-terminated when the link of its last node is null. -/
theorem Rep.next_eq_none (hr : Rep w.heap ms U M O nxt)
    (hnull : ∀ e c, ms.outstandingIrpListEnd = some e → w.heap e = some c → c.next = none) :
    nxt = none := by
  rcases List.eq_nil_or_concat O with hO | ⟨L, ⟨e, v⟩, hO⟩
  · exact hr.out_nil hO
  · rw [List.concat_eq_append] at hO
    subst hO
    refine hnull e _ ?_ hr.out.seg.last_cell
    rw [hr.out.tail_eq, lastAddr_concat]

/-- `ReplyOk` in terms of the lists: the search stays within the list or fails. -/
theorem ReplyOk.safe {p : Pirp} (hr : Rep w.heap ms U M O nxt) (hok : ReplyOk w ms p) :
    (∃ O₁ a O₂, Found O nxt p O₁ a O₂) ∨
      ∃ l, Seg w.heap ms.outstandingIrpList l none ∧ p ∉ vals l := by
  have hnd := hr.nodup
  rcases hok with hnull | ⟨l, e, hend, hseg, hel, hp⟩ | hnone
  · have hnxt : nxt = none := hr.next_eq_none hnull
    by_cases hp : p ∈ vals O
    · obtain ⟨O₁, a, O₂, hsplit, hfirst⟩ := exists_first hp
      exact Or.inl ⟨O₁, a, O₂, hsplit, hfirst, fun _ => hnxt⟩
    · exact Or.inr ⟨O, hnxt ▸ hr.out.seg, hp⟩
  · have hout := hr.out
    rw [hend] at hout
    obtain ⟨L, v, rfl⟩ := hout.last_of_tail
    obtain ⟨hL, -, -⟩ := hout.seg.split
    obtain rfl := hL.unique_upto (by grind) hseg hel
    obtain ⟨O₁, a, O₂, hsplit, hfirst⟩ := exists_first hp
    refine Or.inl ⟨O₁, a, O₂ ++ [(e, v)], by simp [hsplit], hfirst, by simp⟩
  · exact Or.inr hnone

theorem Served.queue {p : Pirp} {irp : Irp} {b ok : Bool} {a : Addr}
    (hs : Served w ms U M O nxt) (hp : completions w.log p ≠ some 0)
    (hadd : fuseAddIrpToModuleList (w.setIrp p irp) ms p b a = some (w', ms', ok)) :
    ∃ U M O nxt, Served w' ms' U M O nxt := by
  have hnew := hs.owned.not_mem hp
  cases fuseAddIrpToModuleList_arrival (w := w.setIrp p irp) hs.rep hadd with
  | refused _ hw hms =>
      subst hw hms
      exact ⟨U, M, O, nxt, hs.rep, hs.owned, hs.outstanding, hs.userspace⟩
  | userspace h' _ _ hw hrep _ =>
      subst hw
      refine ⟨U ++ [(a, p)], M, O, nxt, hrep,
        (hs.owned.queued (Or.inl rfl) hp).perm (packets_queue_userspace ..), ?_, ?_⟩
      · intro q hq
        have hpq : p ≠ q := by grind
        simp [countDelivery, hpq, World.setIrp, hs.outstanding q hq]
      · intro q hq
        by_cases hpq : p = q
        · simp [countDelivery, hpq]
        · simp [countDelivery, hpq, World.setIrp, hs.userspace q (by grind)]
  | module h' _ _ _ _ hw hrep _ =>
      subst hw
      refine ⟨U, M ++ [(a, p)], O, nxt, hrep,
        (hs.owned.queued (Or.inr rfl) hp).perm (packets_queue_module ..), ?_, ?_⟩
      · intro q hq
        have hpq : p ≠ q := by grind
        simp [countDelivery, hpq, World.setIrp, hs.outstanding q hq]
      · intro q hq
        have hpq : p ≠ q := by grind
        simp [countDelivery, hpq, World.setIrp, hs.userspace q hq]

theorem Served.pair (hs : Served w ms U M O nxt) (hp : pairHead w ms = some (w', ms')) :
    ∃ U M O nxt, Served w' ms' U M O nxt := by
  obtain ⟨ua, u, U, ma, m, M, rfl, rfl⟩ := pairHead_heads hs.rep hp
  have hnd := hs.owned.nodup
  cases pairHead_round hs.rep hp with
  | dropUserspace _ hw hrep =>
      subst hw
      exact ⟨U, (ma, m) :: M, O, nxt, hrep, hs.owned.sublist (List.sublist_cons_self ..),
        hs.outstanding, fun q hq => hs.userspace q (List.mem_cons_of_mem _ hq)⟩
  | dropModule _ _ hw hrep =>
      subst hw
      exact ⟨(ua, u) :: U, M, O, nxt, hrep,
        (hs.owned.perm (packets_pop_module ..)).sublist (List.sublist_cons_self ..),
        hs.outstanding, hs.userspace⟩
  | deliver usp msp ws h' _ _ _ _ _ _ hw hrep _ _ =>
      subst hw
      have howned := ((hs.owned.perm (packets_deliver ..)).delivered u m).completed
      rw [List.append_assoc] at howned
      have hlog : ∀ q, m ≠ q → awaitingReply (w.log ++ [.delivered u m, .completed m]) q =
          if u = q then true else awaitingReply w.log q := by
        intro q hmq
        simp [awaitingReply, List.foldl_append, countDelivery, hmq]
      refine ⟨U, M, O ++ [(ua, u)], _, hrep, howned, ?_, ?_⟩
      · intro q hq
        refine (hlog q (by grind)).trans ?_
        by_cases huq : u = q
        · simp [huq]
        · rw [if_neg huq]
          exact hs.outstanding q (by grind)
      · intro q hq
        refine (hlog q (by grind)).trans ?_
        rw [if_neg (by grind)]
        exact hs.userspace q (List.mem_cons_of_mem _ hq)
  | bounce usp msp h' _ _ _ _ _ hw hrep _ _ =>
      subst hw
      have hlog : ∀ q, m ≠ q →
          awaitingReply (w.log ++ [.completed m]) q = awaitingReply w.log q := by
        intro q hmq
        simp [countDelivery, hmq]
      refine ⟨(ua, u) :: U, M, O, nxt, hrep,
        (hs.owned.perm (packets_pop_module ..)).completed, ?_, ?_⟩
      · intro q hq
        exact (hlog q (by grind)).trans (hs.outstanding q hq)
      · intro q hq
        exact (hlog q (by grind)).trans (hs.userspace q hq)

/-- A response that meets the condition keeps the invariant, and is legitimate. -/
theorem Served.response {fuel : Nat} {irp : Irp} {status : NtStatus}
    (hs : Served w ms U M O nxt) (hok : ReplyOk w ms (respPirp irp.systemBuffer))
    (hc : fuseCopyResponse fuel w ms irp = some (w', ms', status)) :
    (∃ U M O nxt, Served w' ms' U M O nxt) ∧
      LegitimateReply ⟨w, some ms⟩ ⟨w', some ms'⟩ := by
  have hnd := hs.owned.nodup
  cases fuseCopyResponse_reply hs.rep (hok.safe hs.rep) hc with
  | rejected hw hms _ =>
      subst hw hms
      exact ⟨⟨U, M, O, nxt, hs⟩, by simp, by simp, by simp⟩
  | dropped O₁ a O₂ _ hfound _ hw hrep =>
      subst hw
      have hsub : (packets U M O₂).Sublist (packets U M O) := by
        rw [hfound.split]
        refine List.Sublist.append_left ?_ _
        exact ((List.sublist_cons_self ..).trans (List.sublist_append_right ..)).map _
      refine ⟨⟨U, M, O₂, nxt, hrep, hs.owned.sublist hsub, ?_, hs.userspace⟩, by simp, by simp,
        by simp⟩
      intro q hq
      exact hs.outstanding q (by rw [hfound.split]; simp [hq])
  | answered O₁ a O₂ h' usp fuel' irp' c hfound _ _ _ hw hrep _ _ =>
      subst hw
      have hsplit := hfound.split
      have hmem : respPirp irp.systemBuffer ∈ vals O := by simp [hsplit]
      have howned := hs.owned
      rw [hsplit] at howned
      have hlog : ∀ q, respPirp irp.systemBuffer ≠ q →
          awaitingReply (w.log ++ [.completed (respPirp irp.systemBuffer)]) q =
            awaitingReply w.log q := by
        intro q hq
        simp [countDelivery, hq]
      refine ⟨⟨U, M, O₁ ++ O₂, nxt, hrep, (howned.perm (packets_unlink ..)).completed, ?_, ?_⟩,
        ?_, ?_, ?_⟩
      · intro q hq
        exact (hlog q (by grind)).trans (hs.outstanding q (by grind))
      · intro q hq
        exact (hlog q (by grind)).trans (hs.userspace q hq)
      · intro q hq
        obtain rfl : q = respPirp irp.systemBuffer := by simpa using hq
        exact hs.outstanding _ hmem
      · intro q hq
        have hqp : q = respPirp irp.systemBuffer := by
          by_contra hne
          simp [World.setIrp, hne] at hq
        exact hqp ▸ hs.outstanding _ hmem
      · intro ms₁ U₁ hms₁ hseg q hq
        obtain rfl : ms = ms₁ := by simpa using hms₁
        obtain rfl := hseg.unique hs.rep.user.seg
        have hne : q ≠ respPirp irp.systemBuffer := by grind
        simpa using hne

end Steps

theorem step_served {s s' : State} {l : Label} (hi : ServedInv s) (hok : ReplyStepOk s l)
    (hs : Step s l s') : ServedInv s' := by
  cases hs with
  | queue hp hadd =>
      rintro ms ⟨⟩
      obtain ⟨U, M, O, nxt, hserved⟩ := hi _ rfl
      exact hserved.queue hp hadd
  | pair hround =>
      rintro ms ⟨⟩
      obtain ⟨U, M, O, nxt, hserved⟩ := hi _ rfl
      exact hserved.pair hround
  | response fuel hc =>
      rintro ms ⟨⟩
      obtain ⟨U, M, O, nxt, hserved⟩ := hi _ rfl
      exact (hserved.response (hok _ rfl) hc).1
  | cancel p =>
      intro ms hms
      obtain ⟨U, M, O, nxt, hserved⟩ := hi ms hms
      exact ⟨U, M, O, nxt, hserved.rep, hserved.owned, hserved.outstanding, hserved.userspace⟩
  | dismount fuel hd => rintro ms ⟨⟩

/-- In a run whose responses all meet `ReplyOk`, every response fills in and
    completes only a packet that the module was given and has not answered. -/
theorem response_legitimate (w : World) (name : List Wchar) (fileObject : Pfile)
    {tr : List (State × Label)} {s s' : State} {irp : Irp}
    (hrun : Run Step (State.mounted w name fileObject) tr s)
    (hok : ∀ x ∈ tr, ReplyStepOk x.1 x.2) (hok' : ReplyStepOk s (.response irp))
    (hs : Step s (.response irp) s') : LegitimateReply s s' := by
  have hinit : ServedInv (State.mounted w name fileObject) := by
    rintro ms ⟨⟩
    refine ⟨[], [], [], none, Rep.zeroed .., ?_, by simp, by simp⟩
    exact Owned.nil _
  have hinv := hrun.invariant hinit (fun _ _ _ => step_served) hok
  cases hs with
  | response fuel hc =>
      obtain ⟨U, M, O, nxt, hserved⟩ := hinv _ rfl
      exact (hserved.response (hok' _ rfl) hc).2

/-- A successful response that names the packet `p`. -/
def sampleResponse (p : Pirp) : Irp :=
  { sampleModule with systemBuffer := Mem.zeros.writeLe 0 8 p.toNat }

/-- The module answers the one request it was given. -/
theorem response_legitimate_single_request :
    ∃ tr s s', Run Step (State.mounted emptyWorld [] 0) tr s ∧
      Step s (.response (sampleResponse 1)) s' ∧
      s'.world.log = s.world.log ++ [.completed 1] ∧ LegitimateReply s s' := by
  have h1 : Run Step (State.mounted emptyWorld [] 0) _ _ :=
    Run.nil.snoc (l := .queue 1 sampleRead false 101) (.queue (by decide) rfl)
  have h2 := h1.snoc (l := .queue 2 sampleModule true 102) (.queue (by decide) rfl)
  have hrun := h2.snoc (.pair rfl)
  refine ⟨_, _, _, hrun, .response 2 rfl, rfl, ?_⟩
  refine response_legitimate emptyWorld [] 0 hrun ?_ ?_
    (show Step _ (.response (sampleResponse 1)) _ from .response 2 rfl)
  · intro x hx
    simp only [List.nil_append, List.cons_append, List.mem_cons, List.not_mem_nil,
      or_false] at hx
    rcases hx with rfl | rfl | rfl <;> exact fun _ _ => trivial
  · rintro ms ⟨⟩
    refine Or.inl fun e c he hc => ?_
    obtain rfl : 101 = e := Option.some.inj he
    exact (Option.some.inj hc) ▸ rfl

/-- Two requests wait, the first is delivered, and the module answers the
    second, which it was never given. -/
theorem response_not_legitimate_two_waiting :
    ∃ tr s s', Run Step (State.mounted emptyWorld [] 0) tr s ∧
      Step s (.response (sampleResponse 2)) s' ∧ ¬ LegitimateReply s s' := by
  have h1 : Run Step (State.mounted emptyWorld [] 0) _ _ :=
    Run.nil.snoc (l := .queue 1 sampleRead false 101) (.queue (by decide) rfl)
  have h2 := h1.snoc (l := .queue 2 sampleRead false 102) (.queue (by decide) rfl)
  have h3 := h2.snoc (l := .queue 3 sampleModule true 103) (.queue (by decide) rfl)
  have hrun := h3.snoc (.pair rfl)
  refine ⟨_, _, _, hrun, .response 3 rfl, fun hlegit => ?_⟩
  have hawaiting := hlegit.completes 2 (by decide)
  revert hawaiting
  decide

end FuseNt
