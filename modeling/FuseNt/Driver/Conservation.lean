/-
  FuseNt.Driver.Conservation

  When a module neither loses a packet nor completes one twice.

  Three branches of the queue code break the rule that every packet is either
  in exactly one list or completed once.  Packets that are cancelled or have
  no stack location are unlinked without being completed.  A delivered
  request keeps its link, so that the requests waiting behind it become part
  of the outstanding list while they still are in the userspace list.  And a
  response to a cancelled request unlinks it, and everything before it,
  without completing anything.  `StepOk` says that none of these is about to
  happen, and `conserved_iff` that this is exactly what is needed.
-/

import FuseNt.Driver.Machine

namespace FuseNt

open FuseNt.Lib

/-- The three lists, as null-terminated chains from the head pointers. -/
def Chains (s : State) (U M O : List Entry) : Prop :=
  match s.module with
  | none => U = [] ∧ M = [] ∧ O = []
  | some ms =>
      Seg s.world.heap ms.userspaceIrpList U none ∧ Seg s.world.heap ms.moduleIrpList M none ∧
        Seg s.world.heap ms.outstandingIrpList O none

/-- Every packet ever queued is in one list once and not completed, or in no
    list and completed once. -/
def Conserved (s : State) : Prop :=
  ∃ U M O, Chains s U M O ∧ ∀ p k, completions s.world.log p = some k →
    ((vals U ++ vals M ++ vals O).count p = 1 ∧ k = 0) ∨
    ((vals U ++ vals M ++ vals O).count p = 0 ∧ k = 1)

/-- A round finds no cancelled packet at the heads, the request has a stack
    location, and if the request fits it is the only one waiting. -/
def PairOk (w : World) (ms : ModuleStruct) : Prop :=
  ∀ ua uc ma mc, ms.userspaceIrpList = some ua → w.heap ua = some uc →
    ms.moduleIrpList = some ma → w.heap ma = some mc →
    (w.irps uc.val).cancel = false ∧ (w.irps mc.val).cancel = false ∧
    ∃ usp, (w.irps uc.val).currentStackLocation = some usp ∧
      ∀ msp, (w.irps mc.val).currentStackLocation = some msp →
        reqSize w.files (w.irps uc.val) usp ≤ msp.outputBufferLength → uc.next = none

/-- A response does not name a cancelled packet of the outstanding list. -/
def ResponseOk (w : World) (ms : ModuleStruct) (irp : Irp) : Prop :=
  respFits irp → ∀ O, Seg w.heap ms.outstandingIrpList O none →
    respPirp irp.systemBuffer ∈ vals O → (w.irps (respPirp irp.systemBuffer)).cancel = false

/-- The condition on a step. -/
def StepOk (s : State) (l : Label) : Prop :=
  ∀ ms, s.module = some ms →
    match l with
    | .pair => PairOk s.world ms
    | .response irp => ResponseOk s.world ms irp
    | _ => True

-- ============================================================================
-- The invariant
-- ============================================================================

/-- The packets `L` are all those that wait for their completion, and every
    other packet was completed at most once since it was queued. -/
structure Ledger (log : List Event) (L : List Pirp) : Prop extends Owned log L where
  complete : ∀ p, completions log p = some 0 → p ∈ L
  once : ∀ p k, completions log p = some k → k ≤ 1

/-- Well-formed lists that hold exactly the packets that are not completed. -/
def Inv (s : State) : Prop :=
  match s.module with
  | none => Ledger s.world.log []
  | some ms => ∃ U M O, Rep s.world.heap ms U M O none ∧ Ledger s.world.log (packets U M O)

namespace Ledger

variable {log : List Event} {L L' : List Pirp} {p : Pirp}

theorem perm (hl : Ledger log L) (hp : L.Perm L') : Ledger log L' where
  toOwned := hl.toOwned.perm hp
  complete q hq := hp.mem_iff.mp (hl.complete q hq)
  once := hl.once

/-- A packet arrives. -/
theorem queued (hl : Ledger log L) {e : Event} (he : e = .queuedUserspace p ∨ e = .queuedModule p)
    (hp : completions log p ≠ some 0) : Ledger (log ++ [e]) (p :: L) := by
  have hcount : ∀ q, completions (log ++ [e]) q = if p = q then some 0 else completions log q := by
    rcases he with rfl | rfl <;> simp [countCompletion]
  refine ⟨hl.toOwned.queued he hp, fun q hq => ?_, fun q k hk => ?_⟩
  · rw [hcount] at hq
    by_cases hpq : p = q
    · simp [hpq]
    · rw [if_neg hpq] at hq
      exact List.mem_cons_of_mem _ (hl.complete q hq)
  · rw [hcount] at hk
    by_cases hpq : p = q
    · simp only [hpq, if_true, Option.some.injEq] at hk
      omega
    · rw [if_neg hpq] at hk
      exact hl.once q k hk

/-- A delivery changes nothing. -/
theorem delivered (hl : Ledger log L) (u m : Pirp) : Ledger (log ++ [.delivered u m]) L where
  toOwned := hl.toOwned.delivered u m
  complete q hq := hl.complete q (by simpa [countCompletion] using hq)
  once q k hk := hl.once q k (by simpa [countCompletion] using hk)

/-- A waiting packet is completed. -/
theorem completed (hl : Ledger log (p :: L)) : Ledger (log ++ [.completed p]) L := by
  have hzero : completions log p = some 0 := hl.waiting p (List.mem_cons_self ..)
  refine ⟨hl.toOwned.completed, fun q hq => ?_, fun q k hk => ?_⟩
  · by_cases hpq : p = q
    · subst hpq
      simp [countCompletion, hzero] at hq
    · have hq' := hl.complete q (by simpa [countCompletion, hpq] using hq)
      exact (List.mem_cons.mp hq').resolve_left (Ne.symm hpq)
  · by_cases hpq : p = q
    · subst hpq
      simp [countCompletion, hzero] at hk
      omega
    · exact hl.once q k (by simpa [countCompletion, hpq] using hk)

/-- All waiting packets are completed. -/
theorem completed_all (hl : Ledger log (L ++ L')) :
    Ledger (log ++ L.map .completed) L' := by
  induction L generalizing log with
  | nil => simpa using hl
  | cons q rest ih =>
      rw [List.map_cons, List.append_cons]
      exact ih hl.completed

end Ledger

/-- The invariant gives the rule. -/
theorem Inv.conserved {s : State} (hi : Inv s) : Conserved s := by
  obtain ⟨w, m⟩ := s
  have key : ∀ {U M O : List Entry}, Chains ⟨w, m⟩ U M O → Ledger w.log (packets U M O) →
      Conserved ⟨w, m⟩ := by
    intro U M O hch hl
    refine ⟨U, M, O, hch, fun p k hk => ?_⟩
    by_cases hp : p ∈ packets U M O
    · have hzero := hl.waiting p hp
      rw [hk, Option.some.injEq] at hzero
      exact Or.inl ⟨List.count_eq_one_of_mem hl.nodup hp, hzero⟩
    · have hne : k ≠ 0 := by
        rintro rfl
        exact hp (hl.complete p hk)
      have hle := hl.once p k hk
      exact Or.inr ⟨List.count_eq_zero.mpr hp, by omega⟩
  cases m with
  | none => exact key ⟨rfl, rfl, rfl⟩ hi
  | some ms =>
      obtain ⟨U, M, O, hr, hl⟩ := hi
      exact key ⟨hr.user.seg, hr.module.seg, hr.out.seg⟩ hl

-- ============================================================================
-- Steps that keep the invariant
-- ============================================================================

section Steps

variable {w w' : World} {ms ms' : ModuleStruct} {U M O : List Entry}

theorem queue_inv {p : Pirp} {irp : Irp} {b ok : Bool} {a : Addr}
    (hr : Rep w.heap ms U M O none) (hl : Ledger w.log (packets U M O))
    (hp : completions w.log p ≠ some 0)
    (hadd : fuseAddIrpToModuleList (w.setIrp p irp) ms p b a = some (w', ms', ok)) :
    Inv ⟨w', some ms'⟩ := by
  cases fuseAddIrpToModuleList_arrival (w := w.setIrp p irp) hr hadd with
  | refused _ hw hms =>
      subst hw hms
      exact ⟨U, M, O, hr, hl⟩
  | userspace h' _ _ hw hrep _ =>
      subst hw
      refine ⟨U ++ [(a, p)], M, O, hrep, (hl.queued (Or.inl rfl) hp).perm ?_⟩
      exact packets_queue_userspace ..
  | module h' _ _ _ _ hw hrep _ =>
      subst hw
      refine ⟨U, M ++ [(a, p)], O, hrep, (hl.queued (Or.inr rfl) hp).perm ?_⟩
      exact packets_queue_module ..

/-- What `PairOk` says about the heads of well-formed lists. -/
theorem PairOk.heads {ua ma : Addr} {u m : Pirp}
    (hr : Rep w.heap ms ((ua, u) :: U) ((ma, m) :: M) O none) :
    PairOk w ms ↔ (w.irps u).cancel = false ∧ (w.irps m).cancel = false ∧
      ∃ usp, (w.irps u).currentStackLocation = some usp ∧
        ∀ msp, (w.irps m).currentStackLocation = some msp →
          reqSize w.files (w.irps u) usp ≤ msp.outputBufferLength → U = [] := by
  obtain ⟨hmh, hmc⟩ := hr.module.head_cell
  obtain ⟨huh, huc⟩ := hr.user.head_cell
  constructor
  · intro hok
    simpa [headAddr_eq_none] using hok ua _ ma _ huh huc hmh hmc
  · intro hok ua' uc ma' mc hu hcu hm hcm
    obtain rfl : ua = ua' := by simpa [huh] using hu
    obtain rfl : ma = ma' := by simpa [hmh] using hm
    obtain rfl := Option.some.inj (huc.symm.trans hcu)
    obtain rfl := Option.some.inj (hmc.symm.trans hcm)
    simpa [headAddr_eq_none] using hok

theorem pair_inv (hr : Rep w.heap ms U M O none) (hl : Ledger w.log (packets U M O))
    (hok : PairOk w ms) (hp : pairHead w ms = some (w', ms')) : Inv ⟨w', some ms'⟩ := by
  obtain ⟨ua, u, U, ma, m, M, rfl, rfl⟩ := pairHead_heads hr hp
  obtain ⟨hcu, hcm, usp, husp, hfit⟩ := (PairOk.heads hr).mp hok
  cases pairHead_round hr hp with
  | dropUserspace why _ _ =>
      rcases why with h | ⟨_, _, h⟩
      · simp [hcu] at h
      · simp [husp] at h
  | dropModule _ h _ _ => simp [hcm] at h
  | deliver usp' msp ws h' _ _ husp' hmsp hle _ hw hrep _ _ =>
      obtain rfl := Option.some.inj (husp.symm.trans husp')
      obtain rfl := hfit msp hmsp hle
      subst hw
      refine ⟨[], M, O ++ [(ua, u)], hrep, ?_⟩
      have hl' := ((hl.perm (packets_deliver ..)).delivered u m).completed
      rwa [List.append_assoc] at hl'
  | bounce usp' msp h' _ _ _ _ _ hw hrep _ _ =>
      subst hw
      exact ⟨(ua, u) :: U, M, O, hrep, (hl.perm (packets_pop_module ..)).completed⟩

theorem response_inv {fuel : Nat} {irp : Irp} {status : NtStatus}
    (hr : Rep w.heap ms U M O none) (hl : Ledger w.log (packets U M O))
    (hok : ResponseOk w ms irp)
    (hc : fuseCopyResponse fuel w ms irp = some (w', ms', status)) : Inv ⟨w', some ms'⟩ := by
  cases fuseCopyResponse_reply_none hr hc with
  | rejected hw hms _ =>
      subst hw hms
      exact ⟨U, M, O, hr, hl⟩
  | dropped O₁ a O₂ hfits hfound hcan _ _ =>
      have hmem : respPirp irp.systemBuffer ∈ vals O := by
        rw [hfound.split]
        simp
      rw [hok hfits O hr.out.seg hmem] at hcan
      simp at hcan
  | answered O₁ a O₂ h' usp fuel' irp' c hfound _ _ _ hw hrep _ _ =>
      subst hw
      refine ⟨U, M, O₁ ++ O₂, hrep, Ledger.completed (hl.perm ?_)⟩
      rw [hfound.split]
      exact packets_unlink ..

theorem dismount_inv {fuel : Nat} (hr : Rep w.heap ms U M O none)
    (hl : Ledger w.log (packets U M O)) (hd : moduleStructDelete fuel w ms = some w') :
    Inv ⟨w', none⟩ := by
  obtain ⟨hlog, -⟩ := moduleStructDelete_spec hr hd
  show Ledger w'.log []
  rw [hlog]
  refine Ledger.completed_all (hl.perm ?_)
  rw [List.append_nil]
  exact List.perm_append_comm.append_right _

end Steps

theorem step_inv {s s' : State} {l : Label} (hi : Inv s) (hok : StepOk s l) (hs : Step s l s') :
    Inv s' := by
  cases hs with
  | queue hp hadd =>
      obtain ⟨U, M, O, hr, hl⟩ := hi
      exact queue_inv hr hl hp hadd
  | pair hround =>
      obtain ⟨U, M, O, hr, hl⟩ := hi
      exact pair_inv hr hl (hok _ rfl) hround
  | response fuel hc =>
      obtain ⟨U, M, O, hr, hl⟩ := hi
      exact response_inv hr hl (hok _ rfl) hc
  | cancel p => exact hi
  | dismount fuel hd =>
      obtain ⟨U, M, O, hr, hl⟩ := hi
      exact dismount_inv hr hl hd

-- ============================================================================
-- Steps that break the rule
-- ============================================================================

/-- The chains are determined by the state, so that the rule can be refuted at
    any chains that are found. -/
theorem Conserved.at_chains {w : World} {ms : ModuleStruct} {U M O : List Entry}
    (hc : Conserved ⟨w, some ms⟩) (hch : Chains ⟨w, some ms⟩ U M O) {p : Pirp} {k : Nat}
    (hk : completions w.log p = some k) :
    ((packets U M O).count p = 1 ∧ k = 0) ∨ ((packets U M O).count p = 0 ∧ k = 1) := by
  obtain ⟨U', M', O', ⟨hU', hM', hO'⟩, hall⟩ := hc
  obtain ⟨hU, hM, hO⟩ := hch
  rw [hU.unique hU', hM.unique hM', hO.unique hO']
  exact hall p k hk

section Breaks

variable {w w' : World} {ms ms' : ModuleStruct} {U M O : List Entry} {p : Pirp}

/-- A packet that is in no list and was not completed is lost. -/
theorem not_conserved_of_lost (hr : Rep w.heap ms U M O none)
    (hzero : completions w.log p = some 0) (hp : p ∉ packets U M O) :
    ¬ Conserved ⟨w, some ms⟩ := by
  intro hc
  rcases hc.at_chains ⟨hr.user.seg, hr.module.seg, hr.out.seg⟩ hzero with ⟨hcount, -⟩ | ⟨-, h⟩
  · rw [List.count_eq_zero.mpr hp] at hcount
    omega
  · omega

/-- If the outstanding list runs on into waiting requests, those are in two
    lists. -/
theorem not_conserved_of_shared {ua : Addr} {k : Nat}
    (hr : Rep w.heap ms ((ua, p) :: U) M O (some ua)) (hk : completions w.log p = some k) :
    ¬ Conserved ⟨w, some ms⟩ := by
  intro hc
  have hU := hr.user.seg
  have hout : Seg w.heap ms.outstandingIrpList (O ++ (ua, p) :: U) none := by
    refine seg_append.mpr ⟨some ua, hr.out.seg, ?_⟩
    rwa [hU.head_eq] at hU
  have htwo : 2 ≤ (packets ((ua, p) :: U) M (O ++ (ua, p) :: U)).count p := by
    simp only [packets, vals, List.map_cons, List.map_append, List.count_append,
      List.count_cons_self]
    omega
  rcases hc.at_chains ⟨hU, hr.module.seg, hout⟩ hk with ⟨h, -⟩ | ⟨h, -⟩ <;> omega

theorem pair_breaks (hr : Rep w.heap ms U M O none) (hl : Ledger w.log (packets U M O))
    (hbad : ¬ PairOk w ms) (hp : pairHead w ms = some (w', ms')) :
    ¬ Conserved ⟨w', some ms'⟩ := by
  obtain ⟨ua, u, U, ma, m, M, rfl, rfl⟩ := pairHead_heads hr hp
  rw [PairOk.heads hr] at hbad
  have hnd := hl.nodup
  have hu : completions w.log u = some 0 := hl.waiting u (by simp)
  have hm : completions w.log m = some 0 := hl.waiting m (by simp)
  cases pairHead_round hr hp with
  | dropUserspace _ hw hrep =>
      subst hw
      exact not_conserved_of_lost hrep hu (by grind)
  | dropModule _ _ hw hrep =>
      subst hw
      exact not_conserved_of_lost hrep hm (by grind)
  | deliver usp msp ws h' hcu hcm husp hmsp hle _ hw hrep _ _ =>
      subst hw
      cases U with
      | nil =>
          refine absurd ⟨hcu, hcm, usp, husp, ?_⟩ hbad
          intros
          rfl
      | cons x U =>
          obtain ⟨xa, x⟩ := x
          have hx : completions w.log x = some 0 := hl.waiting x (by simp)
          have hxm : m ≠ x := by grind
          refine not_conserved_of_shared (k := 0) hrep ?_
          simp [completions, countCompletion, List.foldl_append, hxm]
          simpa [completions] using hx
  | bounce usp msp h' hcu hcm husp hmsp hlt hw hrep _ _ =>
      refine absurd ⟨hcu, hcm, usp, husp, ?_⟩ hbad
      intro msp' hmsp' hle
      obtain rfl := Option.some.inj (hmsp.symm.trans hmsp')
      omega

theorem response_breaks {fuel : Nat} {irp : Irp} {status : NtStatus}
    (hr : Rep w.heap ms U M O none) (hl : Ledger w.log (packets U M O))
    (hbad : ¬ ResponseOk w ms irp)
    (hc : fuseCopyResponse fuel w ms irp = some (w', ms', status)) :
    ¬ Conserved ⟨w', some ms'⟩ := by
  simp only [ResponseOk, not_forall] at hbad
  obtain ⟨hfits, O', hseg, hmem, hcan⟩ := hbad
  obtain rfl := hseg.unique hr.out.seg
  have hzero := hl.waiting _ (List.mem_append_right _ hmem)
  have hnd := hl.nodup
  cases fuseCopyResponse_reply_none hr hc with
  | rejected _ _ why =>
      rcases why with h | ⟨l, hl, hnot⟩
      · exact absurd hfits h
      · rw [hl.unique hseg] at hnot
        exact absurd hmem hnot
  | dropped O₁ a O₂ _ hfound _ hw hrep =>
      subst hw
      have hsplit := hfound.split
      exact not_conserved_of_lost hrep hzero (by grind)
  | answered _ _ _ _ _ _ _ _ _ hlive _ _ _ _ _ _ => exact absurd hlive hcan

end Breaks

theorem step_breaks {s s' : State} {l : Label} (hi : Inv s) (hbad : ¬ StepOk s l)
    (hs : Step s l s') : ¬ Conserved s' := by
  cases hs with
  | queue hp hadd => simp [StepOk] at hbad
  | pair hround =>
      obtain ⟨U, M, O, hr, hl⟩ := hi
      exact pair_breaks hr hl (by simpa [StepOk] using hbad) hround
  | response fuel hc =>
      obtain ⟨U, M, O, hr, hl⟩ := hi
      exact response_breaks hr hl (by simpa [StepOk] using hbad) hc
  | cancel p => simp [StepOk] at hbad
  | dismount fuel hd => simp [StepOk] at hbad

/-- A run of a mounted module keeps to the rule in all its states exactly when
    all its steps meet `StepOk`. -/
theorem conserved_iff (w : World) (hlog : w.log = []) (name : List Wchar) (fileObject : Pfile)
    {tr : List (State × Label)} {s : State}
    (hrun : Run Step (State.mounted w name fileObject) tr s) :
    ((∀ x ∈ tr, Conserved x.1) ∧ Conserved s) ↔ ∀ x ∈ tr, StepOk x.1 x.2 := by
  refine Run.good_iff (I := Inv) ?_ (fun _ hi => hi.conserved) (fun _ _ _ => step_inv)
    (fun _ _ _ => step_breaks) hrun
  refine ⟨[], [], [], Rep.zeroed .., ?_⟩
  show Ledger w.log []
  rw [hlog]
  exact ⟨Owned.nil [], by simp, by simp⟩

/-- A single request is delivered: the two packets are accounted for. -/
theorem conserved_single_request :
    ∃ tr s, Run Step (State.mounted emptyWorld [] 0) tr s ∧
      s.world.log = [.queuedUserspace 1, .queuedModule 2, .delivered 1 2, .completed 2] ∧
      Conserved s := by
  have h1 : Run Step (State.mounted emptyWorld [] 0) _ _ :=
    Run.nil.snoc (l := .queue 1 sampleRead false 101) (.queue (by decide) rfl)
  have h2 := h1.snoc (l := .queue 2 sampleModule true 102) (.queue (by decide) rfl)
  have hrun := h2.snoc (.pair rfl)
  refine ⟨_, _, hrun, rfl, ((conserved_iff emptyWorld rfl [] 0 hrun).mpr ?_).2⟩
  intro x hx
  simp only [List.nil_append, List.cons_append, List.mem_cons, List.not_mem_nil, or_false] at hx
  rcases hx with rfl | rfl | rfl
  · exact fun _ _ => trivial
  · exact fun _ _ => trivial
  · rintro ms ⟨⟩
    refine (PairOk.heads (show Rep _ _ [(101, 1)] [(102, 2)] [] none from ?_)).mpr
      ⟨rfl, rfl, _, rfl, fun _ _ _ => rfl⟩
    exact ⟨⟨by decide, rfl⟩, ⟨by decide, rfl⟩, ⟨rfl, rfl⟩, fun _ => rfl, by decide⟩

/-- Two requests wait and a module packet arrives: the second request is then
    in the userspace list and in the outstanding list. -/
theorem not_conserved_two_waiting :
    ∃ tr s, Run Step (State.mounted emptyWorld [] 0) tr s ∧ ¬ Conserved s := by
  have h1 : Run Step (State.mounted emptyWorld [] 0) _ _ :=
    Run.nil.snoc (l := .queue 1 sampleRead false 101) (.queue (by decide) rfl)
  have h2 := h1.snoc (l := .queue 2 sampleRead false 102) (.queue (by decide) rfl)
  have h3 := h2.snoc (l := .queue 3 sampleModule true 103) (.queue (by decide) rfl)
  have hrun := h3.snoc (.pair rfl)
  refine ⟨_, _, hrun, fun hc => ?_⟩
  have htwo := hc.at_chains (U := [(102, 2)]) (M := []) (O := [(101, 1), (102, 2)]) (p := 2)
    (k := 0) ⟨by decide, by decide, by decide⟩ (by decide)
  revert htwo
  decide

end FuseNt
