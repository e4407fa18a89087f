/-
  FuseNt.Driver.QueueRep

  What the queue operations do to the three lists of a module.

  `Rep h ms U M O nxt` says that the six pointers of `ms` describe the node
  lists `U` (userspace), `M` (module) and `O` (outstanding), on pairwise
  distinct nodes.  The first two are null-terminated.  The outstanding list
  runs up to the node its tail pointer designates, and `nxt` is what the link
  of that node holds: `deliver` moves a node without touching its link, so
  that after a delivery `nxt` is whatever was waiting behind the request.
  A module whose lists are all null-terminated has `nxt = none`.

  There is one specification lemma for each operation; everything later about
  the lists is derived from these.
-/

import FuseNt.Driver.Io

namespace FuseNt

open FuseNt.Lib

/-- A node of a queue: its address and the packet it holds. -/
abbrev Entry := Addr × Pirp

/-- The lists a module's pointers stand for. -/
structure Rep (h : Heap Pirp) (ms : ModuleStruct) (U M O : List Entry) (nxt : Option Addr) :
    Prop where
  user : Queue h ms.userspaceIrpList ms.userspaceIrpListEnd U none
  module : Queue h ms.moduleIrpList ms.moduleIrpListEnd M none
  out : Queue h ms.outstandingIrpList ms.outstandingIrpListEnd O nxt
  out_nil : O = [] → nxt = none
  nodup : (addrs U ++ addrs M ++ addrs O).Nodup

namespace Rep

variable {h h' : Heap Pirp} {ms : ModuleStruct} {U M O : List Entry} {nxt : Option Addr}

/-- A zeroed struct has three empty lists. -/
theorem zeroed (h : Heap Pirp) (name : List Wchar) (fileObject : Pfile) :
    Rep h (ModuleStruct.zeroed name fileObject) [] [] [] none :=
  ⟨⟨rfl, rfl⟩, ⟨rfl, rfl⟩, ⟨rfl, rfl⟩, fun _ => rfl, List.nodup_nil⟩

/-- The lists depend only on the memory of their own nodes. -/
theorem frame (hr : Rep h ms U M O nxt)
    (hframe : ∀ a, a ∈ addrs U ∨ a ∈ addrs M ∨ a ∈ addrs O → h' a = h a) :
    Rep h' ms U M O nxt where
  user := hr.user.frame fun a ha => hframe a (Or.inl ha)
  module := hr.module.frame fun a ha => hframe a (Or.inr (Or.inl ha))
  out := hr.out.frame fun a ha => hframe a (Or.inr (Or.inr ha))
  out_nil := hr.out_nil
  nodup := hr.nodup

/-- Every node of the lists is allocated. -/
theorem allocated (hr : Rep h ms U M O nxt) {a : Addr}
    (ha : a ∈ addrs U ∨ a ∈ addrs M ∨ a ∈ addrs O) : h a ≠ none := by
  rcases ha with ha | ha | ha
  · exact hr.user.seg.allocated ha
  · exact hr.module.seg.allocated ha
  · exact hr.out.seg.allocated ha

/-- A free address belongs to no list. -/
theorem not_mem_of_free (hr : Rep h ms U M O nxt) {a : Addr} (ha : h a = none) :
    a ∉ addrs U ∧ a ∉ addrs M ∧ a ∉ addrs O :=
  ⟨fun hm => hr.allocated (Or.inl hm) ha, fun hm => hr.allocated (Or.inr (Or.inl hm)) ha,
    fun hm => hr.allocated (Or.inr (Or.inr hm)) ha⟩

theorem nodup_user (hr : Rep h ms U M O nxt) : (addrs U).Nodup :=
  (List.nodup_append.mp (List.nodup_append.mp hr.nodup).1).1

theorem nodup_module (hr : Rep h ms U M O nxt) : (addrs M).Nodup :=
  (List.nodup_append.mp (List.nodup_append.mp hr.nodup).1).2.1

theorem nodup_out (hr : Rep h ms U M O nxt) : (addrs O).Nodup :=
  (List.nodup_append.mp hr.nodup).2.1

section Disjoint

variable {a b : Addr}

theorem user_ne_module (hr : Rep h ms U M O nxt) (ha : a ∈ addrs U) (hb : b ∈ addrs M) : a ≠ b :=
  (List.nodup_append.mp (List.nodup_append.mp hr.nodup).1).2.2 a ha b hb

theorem user_ne_out (hr : Rep h ms U M O nxt) (ha : a ∈ addrs U) (hb : b ∈ addrs O) : a ≠ b :=
  (List.nodup_append.mp hr.nodup).2.2 a (List.mem_append_left _ ha) b hb

theorem module_ne_out (hr : Rep h ms U M O nxt) (ha : a ∈ addrs M) (hb : b ∈ addrs O) : a ≠ b :=
  (List.nodup_append.mp hr.nodup).2.2 a (List.mem_append_right _ ha) b hb

end Disjoint

/-- Dropping the first userspace node. -/
theorem popUserspace {x : Entry} (hr : Rep h ms (x :: U) M O nxt) :
    Rep h (ms.popUserspace (headAddr U none)) U M O nxt where
  user := hr.user.pop
  module := hr.module
  out := hr.out
  out_nil := hr.out_nil
  nodup := (List.nodup_cons.mp hr.nodup).2

/-- Dropping the first module node. -/
theorem popModule {x : Entry} (hr : Rep h ms U (x :: M) O nxt) :
    Rep h (ms.popModule (headAddr M none)) U M O nxt where
  user := hr.user
  module := hr.module.pop
  out := hr.out
  out_nil := hr.out_nil
  nodup := by
    refine hr.nodup.sublist ?_
    exact ((List.sublist_cons_self x.1 (addrs M)).append_left (addrs U)).append_right (addrs O)

end Rep

-- ============================================================================
-- FuseAddIrpToModuleList
-- ============================================================================

/-- Appending a node to a null-terminated queue. -/
theorem appendNode_spec {h : Heap Pirp} {head tail : Option Addr} {l : List Entry} {p : Pirp}
    {a : Addr} (hq : Queue h head tail l none) (hnd : (addrs l).Nodup) (ha : h a = none) :
    ∃ h' head', appendNode h head tail p a = some (h', head') ∧
      Queue h' head' (some a) (l ++ [(a, p)]) none ∧ h' a ≠ none ∧
      ∀ b, b ≠ a → b ∉ addrs l → h' b = h b := by
  have hal : a ∉ addrs l := fun hm => hq.seg.allocated hm ha
  cases tail with
  | none =>
      have hl : l = [] := lastAddr_eq_none.mp hq.tail_eq.symm
      subst hl
      refine ⟨h.set a (some ⟨p, none⟩), some a, by simp [appendNode, ha],
        Queue.first (Heap.set_same ..), by simp, ?_⟩
      intro b hb _
      exact Heap.set_of_ne h _ hb
  | some e =>
      obtain ⟨l₀, u, rfl⟩ := hq.last_of_tail
      have hae : a ≠ e := by
        rintro rfl
        exact hal (by simp)
      have hlast := hq.seg.last_cell
      -- the two stores into the new node leave the linked node behind
      have hset : ((h.set a (some ⟨0, none⟩)).setNext e (some a)).map
          (fun h₁ => h₁.set a (some ⟨p, none⟩)) =
          (h.set a (some ⟨p, none⟩)).setNext e (some a) := by
        simp only [Heap.setNext, Heap.set_of_ne h _ hae.symm, hlast, Option.map_some,
          Option.some.injEq]
        funext b
        simp only [Heap.set]
        grind
      have hq' : Queue (h.set a (some ⟨p, none⟩)) head (some e) (l₀ ++ [(e, u)]) none :=
        hq.frame fun b hb => Heap.set_of_ne h _ fun hba => hal (hba ▸ hb)
      obtain ⟨h₁, hh₁, hq₁, hf₁⟩ := hq'.link hnd hal (Heap.set_same ..)
      refine ⟨h₁, head, ?_, hq₁, ?_, ?_⟩
      · rw [hh₁] at hset
        obtain ⟨h₂, hh₂, hh₂'⟩ := Option.map_eq_some_iff.mp hset
        simp [appendNode, ha, hh₂, hh₂']
      · rw [hf₁ a hae]
        simp
      · intro b hb hbl
        have hbe : b ≠ e := by
          rintro rfl
          exact hbl (by simp)
        rw [hf₁ b hbe, Heap.set_of_ne h _ hb]

/-- Queueing a userspace packet. -/
theorem appendIrp_userspace {w : World} {ms : ModuleStruct} {U M O : List Entry}
    {nxt : Option Addr} {p : Pirp} {a : Addr} (hr : Rep w.heap ms U M O nxt)
    (ha : w.heap a = none) :
    ∃ h' ms', appendIrp w ms p false a =
        some ({ w with heap := h', log := w.log ++ [.queuedUserspace p] }, ms') ∧
      Rep h' ms' (U ++ [(a, p)]) M O nxt ∧ ms'.moduleFileObject = ms.moduleFileObject ∧
      ms'.moduleName = ms.moduleName ∧ ∀ b, b ≠ a → b ∉ addrs U → h' b = w.heap b := by
  have hnd := hr.nodup
  obtain ⟨haU, haM, haO⟩ := hr.not_mem_of_free ha
  obtain ⟨h', head', happ, hq, -, hf⟩ := appendNode_spec (p := p) hr.user hr.nodup_user ha
  refine ⟨h', { ms with userspaceIrpList := head', userspaceIrpListEnd := some a },
    by simp [appendIrp, happ], ?_, rfl, rfl, hf⟩
  exact
    { user := hq
      module := hr.module.frame fun b hb =>
        hf b (ne_of_mem_of_not_mem hb haM) fun hU => hr.user_ne_module hU hb rfl
      out := hr.out.frame fun b hb =>
        hf b (ne_of_mem_of_not_mem hb haO) fun hU => hr.user_ne_out hU hb rfl
      out_nil := hr.out_nil
      nodup := by grind }

/-- Queueing a module packet. -/
theorem appendIrp_module {w : World} {ms : ModuleStruct} {U M O : List Entry}
    {nxt : Option Addr} {p : Pirp} {a : Addr} (hr : Rep w.heap ms U M O nxt)
    (ha : w.heap a = none) :
    ∃ h' ms', appendIrp w ms p true a =
        some ({ w with heap := h', log := w.log ++ [.queuedModule p] }, ms') ∧
      Rep h' ms' U (M ++ [(a, p)]) O nxt ∧ ms'.moduleFileObject = ms.moduleFileObject ∧
      ms'.moduleName = ms.moduleName ∧ ∀ b, b ≠ a → b ∉ addrs M → h' b = w.heap b := by
  have hnd := hr.nodup
  obtain ⟨haU, haM, haO⟩ := hr.not_mem_of_free ha
  obtain ⟨h', head', happ, hq, -, hf⟩ := appendNode_spec (p := p) hr.module hr.nodup_module ha
  refine ⟨h', { ms with moduleIrpList := head', moduleIrpListEnd := some a },
    by simp [appendIrp, happ], ?_, rfl, rfl, hf⟩
  exact
    { user := hr.user.frame fun b hb =>
        hf b (ne_of_mem_of_not_mem hb haU) fun hM => hr.user_ne_module hb hM rfl
      module := hq
      out := hr.out.frame fun b hb =>
        hf b (ne_of_mem_of_not_mem hb haO) fun hM => hr.module_ne_out hM hb rfl
      out_nil := hr.out_nil
      nodup := by grind }

/-- What `FuseAddIrpToModuleList` can do with the packet `p`, and what it
    returns. -/
inductive Arrival (w : World) (ms : ModuleStruct) (U M O : List Entry) (nxt : Option Addr)
    (p : Pirp) (addToModuleList : Bool) (a : Addr) (w' : World) (ms' : ModuleStruct) :
    Bool → Prop
  /-- A module packet with too small a buffer is refused. -/
  | refused (isModule : addToModuleList = true) (world : w' = w) (same : ms' = ms) :
      Arrival w ms U M O nxt p addToModuleList a w' ms' false
  /-- A userspace packet becomes the last of its queue. -/
  | userspace (h' : Heap Pirp)
      (isUserspace : addToModuleList = false)
      (fresh : w.heap a = none)
      (world : w' = { w with heap := h', log := w.log ++ [.queuedUserspace p] })
      (rep : Rep h' ms' (U ++ [(a, p)]) M O nxt)
      (frame : ∀ b, b ≠ a → b ∉ addrs U → h' b = w.heap b) :
      Arrival w ms U M O nxt p addToModuleList a w' ms' true
  /-- A module packet becomes the last of its queue. -/
  | module (h' : Heap Pirp) (sp : IoStackLocation)
      (isModule : addToModuleList = true)
      (moduleSp : (w.irps p).currentStackLocation = some sp)
      (fresh : w.heap a = none)
      (world : w' = { w with heap := h', log := w.log ++ [.queuedModule p] })
      (rep : Rep h' ms' U (M ++ [(a, p)]) O nxt)
      (frame : ∀ b, b ≠ a → b ∉ addrs M → h' b = w.heap b) :
      Arrival w ms U M O nxt p addToModuleList a w' ms' true

/-- The pool hands out free memory only. -/
theorem appendNode_fresh {h h' : Heap Pirp} {head last head' : Option Addr} {p : Pirp} {a : Addr}
    (happ : appendNode h head last p a = some (h', head')) : h a = none := by
  by_contra hne
  simp [appendNode, hne] at happ

/-- Queueing a packet on well-formed lists. -/
theorem fuseAddIrpToModuleList_arrival {w w' : World} {ms ms' : ModuleStruct}
    {U M O : List Entry} {nxt : Option Addr} {p : Pirp} {b ok : Bool} {a : Addr}
    (hr : Rep w.heap ms U M O nxt)
    (hadd : fuseAddIrpToModuleList w ms p b a = some (w', ms', ok)) :
    Arrival w ms U M O nxt p b a w' ms' ok := by
  cases b with
  | false =>
      simp only [fuseAddIrpToModuleList, Bool.false_eq_true, if_false, if_true,
        Option.bind_eq_bind, Option.bind_some] at hadd
      obtain ⟨⟨w₁, ms₁⟩, happ, heq⟩ := Option.bind_eq_some_iff.mp hadd
      obtain ⟨rfl, rfl, rfl⟩ : w₁ = w' ∧ ms₁ = ms' ∧ true = ok := by simpa using heq
      have hfresh : w.heap a = none := by
        obtain ⟨⟨h₁, head₁⟩, happ, -⟩ := Option.bind_eq_some_iff.mp happ
        exact appendNode_fresh happ
      obtain ⟨h', ms'', hspec, hrep, -, -, hframe⟩ := appendIrp_userspace (p := p) hr hfresh
      obtain ⟨rfl, rfl⟩ := by simpa using hspec.symm.trans happ
      exact .userspace h' rfl hfresh rfl hrep hframe
  | true =>
      cases hsp : (w.irps p).currentStackLocation with
      | none => simp [fuseAddIrpToModuleList, hsp] at hadd
      | some sp =>
          simp only [fuseAddIrpToModuleList, if_true, hsp, Option.map_some, Option.bind_eq_bind,
            Option.bind_some] at hadd
          split at hadd
          · obtain ⟨⟨w₁, ms₁⟩, happ, heq⟩ := Option.bind_eq_some_iff.mp hadd
            obtain ⟨rfl, rfl, rfl⟩ : w₁ = w' ∧ ms₁ = ms' ∧ true = ok := by simpa using heq
            have hfresh : w.heap a = none := by
              obtain ⟨⟨h₁, head₁⟩, happ, -⟩ := Option.bind_eq_some_iff.mp happ
              exact appendNode_fresh happ
            obtain ⟨h', ms'', hspec, hrep, -, -, hframe⟩ := appendIrp_module (p := p) hr hfresh
            obtain ⟨rfl, rfl⟩ := by simpa using hspec.symm.trans happ
            exact .module h' sp rfl hsp hfresh rfl hrep hframe
          · obtain ⟨rfl, rfl, rfl⟩ := by simpa using hadd
            exact .refused rfl rfl rfl

-- ============================================================================
-- One round of FuseCheckForWork
-- ============================================================================

/-- The module packet `m` after the request for `u` was copied into it. -/
def filledIrp (w : World) (u : Pirp) (usp : IoStackLocation) (m : Pirp)
    (ws : List (Nat × List UInt8)) : Irp :=
  { w.irps m with
    systemBuffer := (w.irps m).systemBuffer.writes ws
    ioStatus := { (w.irps m).ioStatus with
      information := UInt64.ofNat (reqSize w.files (w.irps u) usp) } }

/-- What a round can do to the lists `(ua, u) :: U`, `(ma, m) :: M` and `O`. -/
inductive Round (w : World) (ua : Addr) (u : Pirp) (U : List Entry) (ma : Addr) (m : Pirp)
    (M O : List Entry) (nxt : Option Addr) (w' : World) (ms' : ModuleStruct) : Prop
  /-- The request is cancelled, or has no stack location: it is taken off its
      queue and nothing else happens. -/
  | dropUserspace
      (why : (w.irps u).cancel = true ∨
        (w.irps u).cancel = false ∧ (w.irps m).cancel = false ∧
          (w.irps u).currentStackLocation = none)
      (world : w' = w)
      (rep : Rep w.heap ms' U ((ma, m) :: M) O nxt)
  /-- The module packet is cancelled: it is taken off its queue. -/
  | dropModule
      (live : (w.irps u).cancel = false)
      (cancelled : (w.irps m).cancel = true)
      (world : w' = w)
      (rep : Rep w.heap ms' ((ua, u) :: U) M O nxt)
  /-- The request is copied, its node becomes the last outstanding one, and
      the module packet is completed. -/
  | deliver
      (usp msp : IoStackLocation) (ws : List (Nat × List UInt8)) (h' : Heap Pirp)
      (live : (w.irps u).cancel = false)
      (liveModule : (w.irps m).cancel = false)
      (userSp : (w.irps u).currentStackLocation = some usp)
      (moduleSp : (w.irps m).currentStackLocation = some msp)
      (fits : reqSize w.files (w.irps u) usp ≤ msp.outputBufferLength)
      (copies : requestWrites w.files u (w.irps u) usp = some ws)
      (world : w' = { w.setIrp m (filledIrp w u usp m ws) with
        heap := h'
        log := w.log ++ [.delivered u m, .completed m] })
      (rep : Rep h' ms' U M (O ++ [(ua, u)]) (headAddr U none))
      (frame : ∀ b, b ≠ ma → b ∉ addrs O → h' b = w.heap b)
      (freed : h' ma = none)
  /-- The request does not fit: the module packet is completed empty. -/
  | bounce
      (usp msp : IoStackLocation) (h' : Heap Pirp)
      (live : (w.irps u).cancel = false)
      (liveModule : (w.irps m).cancel = false)
      (userSp : (w.irps u).currentStackLocation = some usp)
      (moduleSp : (w.irps m).currentStackLocation = some msp)
      (tooSmall : msp.outputBufferLength < reqSize w.files (w.irps u) usp)
      (world : w' = { w with heap := h', log := w.log ++ [.completed m] })
      (rep : Rep h' ms' ((ua, u) :: U) M O nxt)
      (frame : ∀ b, b ≠ ma → h' b = w.heap b)
      (freed : h' ma = none)

section Round

variable {w w' : World} {ms ms' : ModuleStruct} {ua ma : Addr} {u m : Pirp}
  {U M O : List Entry} {nxt : Option Addr}

/-- Taking the completed module packet's node off its queue and freeing it. -/
theorem finishModuleIrp_spec (hr : Rep w.heap ms U ((ma, m) :: M) O nxt) :
    finishModuleIrp w ms ma m =
        some ((w.free ma).complete m, ms.popModule (headAddr M none)) ∧
      Rep (w.heap.free ma) (ms.popModule (headAddr M none)) U M O nxt := by
  obtain ⟨-, hc⟩ := hr.module.head_cell
  have hnd := hr.nodup
  refine ⟨by simp [finishModuleIrp, hc], hr.popModule.frame ?_⟩
  intro a ha
  exact Heap.set_of_ne _ _ (by grind)

/-- Copying a request and moving its node to the outstanding list. -/
theorem deliver_spec (hr : Rep w.heap ms ((ua, u) :: U) M O nxt) {usp : IoStackLocation}
    {ws : List (Nat × List UInt8)} (hws : requestWrites w.files u (w.irps u) usp = some ws)
    (m : Pirp) :
    ∃ h' ms', deliver w ms ua ⟨u, headAddr U none⟩ usp m =
        some ({ w.setIrp m (filledIrp w u usp m ws) with
          heap := h', log := w.log ++ [.delivered u m] }, ms') ∧
      Rep h' ms' U M (O ++ [(ua, u)]) (headAddr U none) ∧
      ms'.moduleIrpList = ms.moduleIrpList ∧
      ∀ b, b ∉ addrs O → h' b = w.heap b := by
  obtain ⟨-, hc⟩ := hr.user.head_cell
  have hnd := hr.nodup
  have hpop := hr.popUserspace
  have hout := hr.out
  cases hend : ms.outstandingIrpListEnd with
  | none =>
      have hO : O = [] := lastAddr_eq_none.mp (by rw [← hout.tail_eq, hend])
      subst hO
      refine ⟨w.heap,
        { ms.popUserspace (headAddr U none) with
          outstandingIrpList := some ua, outstandingIrpListEnd := some ua },
        by simp [deliver, hws, ModuleStruct.popUserspace, hend, filledIrp, World.record,
          World.setIrp], ?_, rfl, fun b _ => rfl⟩
      exact
        { user := hpop.user
          module := hpop.module
          out := Queue.first hc
          out_nil := by simp
          nodup := by grind }
  | some e =>
      rw [hend] at hout
      obtain ⟨h', hh', hq', hf'⟩ := hout.link (by grind) (by grind) hc
      have heO : e ∈ addrs O := by
        obtain ⟨l₀, v, rfl⟩ := hout.last_of_tail
        simp
      refine ⟨h',
        { ms.popUserspace (headAddr U none) with outstandingIrpListEnd := some ua },
        by simp [deliver, hws, ModuleStruct.popUserspace, hend, filledIrp, World.record,
          World.setIrp, hh'], ?_, rfl, fun b hb => hf' b (by grind)⟩
      exact
        { user := hpop.user.frame fun b hb => hf' b (by grind)
          module := hpop.module.frame fun b hb => hf' b (by grind)
          out := hq'
          out_nil := by simp
          nodup := by grind }

/-- A round needs an entry in both queues. -/
theorem pairHead_heads {U₀ M₀ : List Entry} (hr : Rep w.heap ms U₀ M₀ O nxt)
    (hp : pairHead w ms = some (w', ms')) :
    ∃ ua u U ma m M, U₀ = (ua, u) :: U ∧ M₀ = (ma, m) :: M := by
  have hu := hr.user.seg.head_eq
  have hm := hr.module.seg.head_eq
  cases U₀ with
  | nil =>
      rw [headAddr_nil] at hu
      cases hml : ms.moduleIrpList <;> simp [pairHead, hu, hml] at hp
  | cons x U =>
      cases M₀ with
      | nil =>
          rw [headAddr_nil] at hm
          simp [pairHead, hm] at hp
      | cons y M => exact ⟨x.1, x.2, U, y.1, y.2, M, rfl, rfl⟩

/-- A round from well-formed lists does one of the four things. -/
theorem pairHead_round (hr : Rep w.heap ms ((ua, u) :: U) ((ma, m) :: M) O nxt)
    (hp : pairHead w ms = some (w', ms')) : Round w ua u U ma m M O nxt w' ms' := by
  obtain ⟨hmh, hmc⟩ := hr.module.head_cell
  obtain ⟨huh, huc⟩ := hr.user.head_cell
  have hnd := hr.nodup
  simp only [pairHead, hmh, huh, hmc, huc, Option.bind_eq_bind, Option.bind_some] at hp
  by_cases hcu : (w.irps u).cancel = true
  · simp only [hcu, if_true, Option.some.injEq, Prod.mk.injEq] at hp
    obtain ⟨rfl, rfl⟩ := hp
    exact .dropUserspace (Or.inl hcu) rfl hr.popUserspace
  have hcu' : (w.irps u).cancel = false := by simpa using hcu
  by_cases hcm : (w.irps m).cancel = true
  · simp only [hcu', hcm, if_true, Bool.false_eq_true, if_false, Option.some.injEq,
      Prod.mk.injEq] at hp
    obtain ⟨rfl, rfl⟩ := hp
    exact .dropModule hcu' hcm rfl hr.popModule
  have hcm' : (w.irps m).cancel = false := by simpa using hcm
  cases husp : (w.irps u).currentStackLocation with
  | none =>
      simp only [hcu', hcm', husp, Bool.false_eq_true, if_false, Option.some.injEq,
        Prod.mk.injEq] at hp
      obtain ⟨rfl, rfl⟩ := hp
      exact .dropUserspace (Or.inr ⟨hcu', hcm', husp⟩) rfl hr.popUserspace
  | some usp =>
      cases hmsp : (w.irps m).currentStackLocation with
      | none => simp [hcu', hcm', husp, hmsp] at hp
      | some msp =>
          simp only [hcu', hcm', husp, hmsp, Bool.false_eq_true, if_false,
            Option.bind_some] at hp
          by_cases hfit : reqSize w.files (w.irps u) usp ≤ msp.outputBufferLength
          · rw [if_pos hfit] at hp
            cases hws : requestWrites w.files u (w.irps u) usp with
            | none => simp [deliver, hws] at hp
            | some ws =>
                obtain ⟨h', ms₁, hd, hrep, hml, hf⟩ := deliver_spec hr hws m
                rw [hd, Option.bind_some] at hp
                obtain ⟨hfin, hrep'⟩ := finishModuleIrp_spec
                  (w := { w.setIrp m (filledIrp w u usp m ws) with
                    heap := h', log := w.log ++ [.delivered u m] }) hrep
                simp only [hfin, Option.some.injEq, Prod.mk.injEq] at hp
                obtain ⟨rfl, rfl⟩ := hp
                refine .deliver usp msp ws (h'.free ma) hcu' hcm' husp hmsp hfit hws ?_ hrep' ?_ ?_
                · simp [World.complete, World.free, World.setIrp]
                · intro b hb hbO
                  rw [Heap.free, Heap.set_of_ne _ _ hb, hf b hbO]
                · exact Heap.set_same ..
          · rw [if_neg hfit] at hp
            obtain ⟨hfin, hrep'⟩ := finishModuleIrp_spec hr
            simp only [hfin, Option.some.injEq, Prod.mk.injEq] at hp
            obtain ⟨rfl, rfl⟩ := hp
            exact .bounce usp msp (w.heap.free ma) hcu' hcm' husp hmsp (by omega) rfl hrep'
              (fun b hb => Heap.set_of_ne _ _ hb) (Heap.set_same ..)

end Round

end FuseNt
