/-
  FuseNt.Driver.ReplyRep

  What `FuseCopyResponse` and `module_struct_delete` do to the three lists of
  a module, in the terms of `Rep`.

  The search of `FuseCopyResponse` follows links until it finds the packet or
  a null pointer, so that it sees more than the outstanding list when the link
  of the last outstanding node is not null.  `Found` says where the packet is
  when the search stays within the list; the specification lemma is stated for
  that case and for a search that fails.
-/

import FuseNt.Driver.QueueRep

namespace FuseNt

open FuseNt.Lib

-- ============================================================================
-- The search
-- ============================================================================

/-- `O₁`, `a` and `O₂` split the outstanding list `O` at the node `a` that is
    the first to hold `p`; it is the last node only if its link is null. -/
structure Found (O : List Entry) (nxt : Option Addr) (p : Pirp) (O₁ : List Entry) (a : Addr)
    (O₂ : List Entry) : Prop where
  split : O = O₁ ++ (a, p) :: O₂
  first : p ∉ vals O₁
  last : O₂ = [] → nxt = none

/-- A member of a list has a first occurrence. -/
theorem exists_first {p : Pirp} {l : List Entry} (hp : p ∈ vals l) :
    ∃ l₁ a l₂, l = l₁ ++ (a, p) :: l₂ ∧ p ∉ vals l₁ := by
  induction l with
  | nil => simp at hp
  | cons x rest ih =>
      obtain ⟨b, v⟩ := x
      by_cases hv : v = p
      · exact ⟨[], b, rest, by simp [hv], by simp⟩
      · have hrest : p ∈ vals rest := by
          rcases List.mem_cons.mp hp with rfl | hp
          · exact absurd rfl hv
          · exact hp
        obtain ⟨l₁, a, l₂, rfl, hfirst⟩ := ih hrest
        refine ⟨(b, v) :: l₁, a, l₂, rfl, ?_⟩
        intro hmem
        rcases List.mem_cons.mp hmem with rfl | hmem
        · exact hv rfl
        · exact hfirst hmem

/-- The search stops at the first node that holds the packet, and knows the
    node before it. -/
theorem findOutstanding_split {h : Heap Pirp} {p : Pirp} {fuel : Nat} {prev head q : Option Addr}
    {l₁ l₂ : List Entry} {a : Addr} {r : Option (Option Addr × Addr)}
    (hs : Seg h head (l₁ ++ (a, p) :: l₂) q) (hfirst : p ∉ vals l₁)
    (hf : findOutstanding h p fuel prev head = some r) :
    r = some ((lastAddr l₁).or prev, a) := by
  induction l₁ generalizing fuel prev head with
  | nil =>
      obtain ⟨rfl, n, hc, -⟩ := seg_cons.mp hs
      cases fuel with
      | zero => simp [findOutstanding] at hf
      | succ fuel => simpa [findOutstanding, hc, eq_comm] using hf
  | cons x rest ih =>
      obtain ⟨b, v⟩ := x
      obtain ⟨rfl, n, hc, hrest⟩ := seg_cons.mp hs
      have hv : v ≠ p := fun h => hfirst (by simp [h])
      cases fuel with
      | zero => simp [findOutstanding] at hf
      | succ fuel =>
          simp only [findOutstanding, hc, hv, Option.bind_eq_bind, Option.bind_some,
            if_false] at hf
          rw [ih hrest (fun h => hfirst (by simp [h])) hf]
          cases rest with
          | nil => simp [lastAddr]
          | cons y rest =>
              obtain ⟨e, he⟩ : ∃ e, lastAddr (y :: rest) = some e := by
                rw [← Option.isSome_iff_exists, Option.isSome_iff_ne_none]
                simp [lastAddr_eq_none]
              rw [lastAddr_cons_of_ne_nil _ (List.cons_ne_nil y rest), he]
              simp

/-- With enough fuel the search gets there. -/
theorem findOutstanding_of_mem {h : Heap Pirp} {p : Pirp} {fuel : Nat} {prev head q : Option Addr}
    {l₁ l₂ : List Entry} {a : Addr} (hs : Seg h head (l₁ ++ (a, p) :: l₂) q)
    (hfirst : p ∉ vals l₁) (hfuel : l₁.length < fuel) :
    findOutstanding h p fuel prev head = some (some ((lastAddr l₁).or prev, a)) := by
  suffices hsome : ∃ r, findOutstanding h p fuel prev head = some r by
    obtain ⟨r, hr⟩ := hsome
    rw [hr, findOutstanding_split hs hfirst hr]
  induction l₁ generalizing fuel prev head with
  | nil =>
      obtain ⟨rfl, n, hc, -⟩ := seg_cons.mp hs
      obtain ⟨fuel, rfl⟩ : ∃ k, fuel = k + 1 := ⟨fuel - 1, by simp at hfuel; omega⟩
      simp [findOutstanding, hc]
  | cons x rest ih =>
      obtain ⟨b, v⟩ := x
      obtain ⟨rfl, n, hc, hrest⟩ := seg_cons.mp hs
      have hv : v ≠ p := fun h => hfirst (by simp [h])
      obtain ⟨fuel, rfl⟩ : ∃ k, fuel = k + 1 := ⟨fuel - 1, by simp at hfuel; omega⟩
      have hfuel' : rest.length < fuel := by simpa using hfuel
      obtain ⟨r, hr⟩ : ∃ r, findOutstanding h p fuel (some b) n = some r :=
        ih hrest (fun h => hfirst (by simp [h])) hfuel'
      exact ⟨r, by simpa [findOutstanding, hc, hv] using hr⟩

/-- The search fails on a null-terminated list without the packet. -/
theorem findOutstanding_not_mem {h : Heap Pirp} {p : Pirp} {fuel : Nat} {prev head : Option Addr}
    {l : List Entry} {r : Option (Option Addr × Addr)} (hs : Seg h head l none)
    (hp : p ∉ vals l) (hf : findOutstanding h p fuel prev head = some r) : r = none := by
  induction l generalizing fuel prev head with
  | nil =>
      rw [seg_nil] at hs
      subst hs
      cases fuel with
      | zero => simp [findOutstanding] at hf
      | succ fuel => simpa [findOutstanding, eq_comm] using hf
  | cons x rest ih =>
      obtain ⟨b, v⟩ := x
      obtain ⟨rfl, n, hc, hrest⟩ := seg_cons.mp hs
      have hv : v ≠ p := fun h => hp (by simp [h])
      cases fuel with
      | zero => simp [findOutstanding] at hf
      | succ fuel =>
          simp only [findOutstanding, hc, hv, Option.bind_eq_bind, Option.bind_some,
            if_false] at hf
          exact ih hrest (fun h => hp (by simp [h])) hf

-- ============================================================================
-- FuseCopyResponse
-- ============================================================================

section Reply

variable {w w' : World} {ms ms' : ModuleStruct} {U M O O₁ O₂ : List Entry} {nxt : Option Addr}
  {a : Addr} {p : Pirp}

/-- Taking a node off the outstanding list. -/
theorem unlinkOutstanding_spec (hr : Rep w.heap ms U M (O₁ ++ (a, p) :: O₂) nxt)
    (hend : O₂ = [] → nxt = none) :
    ∃ h' ms', unlinkOutstanding w ms (lastAddr O₁) a = some ({ w with heap := h' }, ms') ∧
      Rep h' ms' U M (O₁ ++ O₂) nxt ∧ h' a = none ∧
      ∀ b, b ∉ addrs (O₁ ++ (a, p) :: O₂) → h' b = w.heap b := by
  have hnd := hr.nodup.sublist (addrs_erase_sublist.append_left (addrs U ++ addrs M))
  have ha : a ∈ addrs (O₁ ++ (a, p) :: O₂) := by simp
  obtain ⟨-, hca, -⟩ := hr.out.seg.split
  have hnil : O₁ ++ O₂ = [] → nxt = none := fun h => hend (List.append_eq_nil_iff.mp h).2
  rcases List.eq_nil_or_concat O₁ with rfl | ⟨L, ⟨e, u⟩, rfl⟩
  · have hq := hr.out.unlink_head hend
    refine ⟨w.heap.free a,
      { ms with
        outstandingIrpList := headAddr O₂ nxt
        outstandingIrpListEnd :=
          if headAddr O₂ nxt = none then none else ms.outstandingIrpListEnd },
      ?_, ?_, Heap.set_same .., ?_⟩
    · simp only [unlinkOutstanding, lastAddr_nil, hca, Option.bind_eq_bind, Option.bind_some]
      split <;> simp_all
    · exact
        { user := hr.user.frame fun b hb => Heap.set_of_ne _ _ (hr.user_ne_out hb ha)
          module := hr.module.frame fun b hb => Heap.set_of_ne _ _ (hr.module_ne_out hb ha)
          out := hq.frame fun b hb => Heap.set_of_ne _ _ (ne_of_mem_erase hr.nodup_out hb)
          out_nil := hnil
          nodup := hnd }
    · intro b hb
      exact Heap.set_of_ne _ _ (ne_of_mem_of_not_mem ha hb).symm
  · rw [List.concat_eq_append] at hr hnil hnd ha ⊢
    have he : e ∈ addrs (L ++ [(e, u)] ++ (a, p) :: O₂) := by simp
    obtain ⟨hce, hq⟩ := hr.out.unlink_next hr.nodup_out hend
    have hae : a ≠ e := (ne_of_mem_erase hr.nodup_out (by simp)).symm
    refine ⟨(w.heap.set e (some ⟨u, headAddr O₂ nxt⟩)).free a,
      { ms with
        outstandingIrpListEnd :=
          if headAddr O₂ nxt = none then some e else ms.outstandingIrpListEnd },
      ?_, ?_, Heap.set_same .., ?_⟩
    · simp only [unlinkOutstanding, lastAddr_concat, hce, hca, Heap.setNext,
        Option.bind_eq_bind, Option.bind_some, Option.map_some, Heap.set_of_ne _ _ hae]
      split <;> simp_all
    · have hframe : ∀ b, b ≠ a → b ≠ e →
          ((w.heap.set e (some ⟨u, headAddr O₂ nxt⟩)).free a) b = w.heap b := by
        intro b hba hbe
        rw [Heap.free, Heap.set_of_ne _ _ hba, Heap.set_of_ne _ _ hbe]
      exact
        { user := hr.user.frame fun b hb => hframe b (hr.user_ne_out hb ha) (hr.user_ne_out hb he)
          module := hr.module.frame fun b hb =>
            hframe b (hr.module_ne_out hb ha) (hr.module_ne_out hb he)
          out := hq.frame fun b hb => Heap.set_of_ne _ _ (ne_of_mem_erase hr.nodup_out hb)
          out_nil := hnil
          nodup := hnd }
    · intro b hb
      rw [Heap.free, Heap.set_of_ne _ _ (ne_of_mem_of_not_mem ha hb).symm,
        Heap.set_of_ne _ _ (ne_of_mem_of_not_mem he hb).symm]

/-- What the pointers stand for once the entry behind `a` is made the head. -/
theorem Rep.dropThrough {h : Heap Pirp} (hr : Rep h ms U M (O₁ ++ (a, p) :: O₂) nxt)
    (hend : O₂ = [] → nxt = none) :
    Rep h { ms with
      outstandingIrpList := headAddr O₂ nxt
      outstandingIrpListEnd :=
        if headAddr O₂ nxt = none then none else ms.outstandingIrpListEnd } U M O₂ nxt := by
  obtain ⟨-, -, hseg⟩ := hr.out.seg.split
  have hnd := hr.nodup
  refine { user := hr.user, module := hr.module, out := ⟨hseg, ?_⟩, out_nil := hend,
           nodup := by grind }
  by_cases hO₂ : O₂ = []
  · simp [hO₂, hend hO₂]
  · have hne : headAddr O₂ nxt ≠ none := by
      cases O₂ with
      | nil => exact absurd rfl hO₂
      | cons x l => simp
    show (if headAddr O₂ nxt = none then none else ms.outstandingIrpListEnd) = _
    rw [if_neg hne, hr.out.tail_eq, lastAddr_append_of_ne_nil _ (List.cons_ne_nil _ _),
      lastAddr_cons_of_ne_nil _ hO₂]

/-- The response packet holds at least a response header. -/
def respFits (irp : Irp) : Prop :=
  ∃ sp, irp.currentStackLocation = some sp ∧ sizeofFusentResp ≤ sp.inputBufferLength

/-- What a response that names `p` can do; `ok` says that it holds a header. -/
inductive Reply (w : World) (ms : ModuleStruct) (U M O : List Entry) (nxt : Option Addr)
    (ok : Prop) (p : Pirp) (msg : Mem) (w' : World) (ms' : ModuleStruct) (status : NtStatus) :
    Prop
  /-- Nothing, if the message is too short or `p` is not found. -/
  | rejected (world : w' = w) (same : ms' = ms)
      (why : ¬ ok ∨ ∃ l, Seg w.heap ms.outstandingIrpList l none ∧ p ∉ vals l)
  /-- A cancelled packet is taken off the list, with all nodes before it. -/
  | dropped (O₁ : List Entry) (a : Addr) (O₂ : List Entry)
      (fits : ok)
      (found : Found O nxt p O₁ a O₂)
      (cancelled : (w.irps p).cancel = true)
      (world : w' = w)
      (rep : Rep w.heap ms' U M O₂ nxt)
  /-- The packet is filled in, completed and taken off the list. -/
  | answered (O₁ : List Entry) (a : Addr) (O₂ : List Entry) (h' : Heap Pirp)
      (usp : IoStackLocation) (fuel : Nat) (irp : Irp) (c : Wchar)
      (found : Found O nxt p O₁ a O₂)
      (live : (w.irps p).cancel = false)
      (userSp : (w.irps p).currentStackLocation = some usp)
      (filled : fillResponse fuel w.strHashC w.files (w.irps p) usp msg = some (irp, status, c))
      (world : w' = { w.setIrp p irp with
        heap := h'
        log := w.log ++ [.completed p]
        strHashC := c })
      (rep : Rep h' ms' U M (O₁ ++ O₂) nxt)
      (freed : h' a = none)
      (frame : ∀ b, b ∉ addrs O → h' b = w.heap b)

/-- The branch for a matching entry. -/
theorem answerOutstanding_spec {fuel : Nat} {msg : Mem} {status : NtStatus} {ok : Prop}
    (hok : ok) (hr : Rep w.heap ms U M O nxt) (hfound : Found O nxt p O₁ a O₂)
    (ha : answerOutstanding fuel w ms (lastAddr O₁) a p msg = some (w', ms', status)) :
    Reply w ms U M O nxt ok p msg w' ms' status := by
  obtain ⟨hsplit, hfirst, hend⟩ := hfound
  subst hsplit
  have hnd := hr.nodup
  by_cases hcan : (w.irps p).cancel = true
  · obtain ⟨-, hca, -⟩ := hr.out.seg.split
    simp only [answerOutstanding, hcan, if_true, hca, Option.bind_eq_bind, Option.bind_some,
      Option.some.injEq, Prod.mk.injEq] at ha
    obtain ⟨rfl, rfl, rfl⟩ := ha
    exact .dropped O₁ a O₂ hok ⟨rfl, hfirst, hend⟩ hcan rfl (hr.dropThrough hend)
  · have hlive : (w.irps p).cancel = false := by simpa using hcan
    cases husp : (w.irps p).currentStackLocation with
    | none => simp [answerOutstanding, hlive, husp] at ha
    | some usp =>
        cases hfill : fillResponse fuel w.strHashC w.files (w.irps p) usp msg with
        | none => simp [answerOutstanding, hlive, husp, hfill] at ha
        | some r =>
            obtain ⟨irp, st, c⟩ := r
            obtain ⟨h', ms₁, hun, hrep, hfree, hframe⟩ := unlinkOutstanding_spec
              (w := { (w.setIrp p irp).complete p with strHashC := c }) hr hend
            simp only [answerOutstanding, hlive, husp, hfill, hun, Bool.false_eq_true, if_false,
              Option.bind_eq_bind, Option.bind_some, Option.some.injEq, Prod.mk.injEq] at ha
            obtain ⟨rfl, rfl, rfl⟩ := ha
            exact .answered O₁ a O₂ h' usp fuel irp c ⟨rfl, hfirst, hend⟩ hlive husp hfill
              (by simp [World.complete, World.setIrp]) hrep hfree hframe

/-- A response whose search stays within the outstanding list, or fails. -/
theorem fuseCopyResponse_reply {fuel : Nat} {irp : Irp} {status : NtStatus}
    (hr : Rep w.heap ms U M O nxt)
    (hsafe : (∃ O₁ a O₂, Found O nxt (respPirp irp.systemBuffer) O₁ a O₂) ∨
      ∃ l, Seg w.heap ms.outstandingIrpList l none ∧ respPirp irp.systemBuffer ∉ vals l)
    (hc : fuseCopyResponse fuel w ms irp = some (w', ms', status)) :
    Reply w ms U M O nxt (respFits irp) (respPirp irp.systemBuffer) irp.systemBuffer w' ms'
      status := by
  cases hsp : irp.currentStackLocation with
  | none => simp [fuseCopyResponse, hsp] at hc
  | some sp =>
      simp only [fuseCopyResponse, hsp, Option.bind_eq_bind, Option.bind_some] at hc
      split at hc
      · rename_i hfits
        split at hc
        · rename_i hnil
          obtain ⟨rfl, rfl, rfl⟩ := by simpa using hc
          exact .rejected rfl rfl (Or.inr ⟨[], hnil, by simp⟩)
        · obtain ⟨r, hfind, hc⟩ := Option.bind_eq_some_iff.mp hc
          rcases hsafe with ⟨O₁, a, O₂, hfound⟩ | ⟨l, hseg, hl⟩
          · have hout := hr.out.seg
            rw [hfound.split] at hout
            have hr' := findOutstanding_split hout hfound.first hfind
            subst hr'
            rw [Option.or_none] at hc
            exact answerOutstanding_spec ⟨sp, hsp, hfits⟩ hr hfound hc
          · have hr' := findOutstanding_not_mem hseg hl hfind
            subst hr'
            obtain ⟨rfl, rfl, rfl⟩ := by simpa using hc
            exact .rejected rfl rfl (Or.inr ⟨l, hseg, hl⟩)
      · rename_i hshort
        obtain ⟨rfl, rfl, rfl⟩ := by simpa using hc
        refine .rejected rfl rfl (Or.inl ?_)
        rintro ⟨sp', hsp', hfits⟩
        obtain rfl : sp = sp' := by simpa [hsp] using hsp'
        exact hshort hfits

/-- With null-terminated lists every response is covered. -/
theorem fuseCopyResponse_reply_none {fuel : Nat} {irp : Irp} {status : NtStatus}
    (hr : Rep w.heap ms U M O none)
    (hc : fuseCopyResponse fuel w ms irp = some (w', ms', status)) :
    Reply w ms U M O none (respFits irp) (respPirp irp.systemBuffer) irp.systemBuffer w' ms'
      status := by
  refine fuseCopyResponse_reply hr ?_ hc
  by_cases hp : respPirp irp.systemBuffer ∈ vals O
  · obtain ⟨O₁, a, O₂, hsplit, hfirst⟩ := exists_first hp
    exact Or.inl ⟨O₁, a, O₂, hsplit, hfirst, fun _ => rfl⟩
  · exact Or.inr ⟨O, hr.out.seg, hp⟩

/-- Unlinking touches the list only, and succeeds for every node that is found. -/
theorem unlinkOutstanding_some {q : Option Addr}
    (hs : Seg w.heap ms.outstandingIrpList (O₁ ++ (a, p) :: O₂) q) (hfirst : p ∉ vals O₁) :
    ∃ h' ms', unlinkOutstanding w ms (lastAddr O₁) a = some ({ w with heap := h' }, ms') := by
  obtain ⟨h1, hca, -⟩ := hs.split
  rcases List.eq_nil_or_concat O₁ with rfl | ⟨L, ⟨e, u⟩, rfl⟩
  · simp only [unlinkOutstanding, lastAddr_nil, hca, Option.bind_eq_bind, Option.bind_some]
    exact ⟨_, _, rfl⟩
  · rw [List.concat_eq_append] at h1 hfirst ⊢
    have hce := h1.last_cell
    have hae : a ≠ e := by
      rintro rfl
      rw [hca] at hce
      exact hfirst (by simp [(Cell.mk.inj (Option.some.inj hce)).1])
    simp only [unlinkOutstanding, lastAddr_concat, hce, hca, Heap.setNext, Option.bind_eq_bind,
      Option.bind_some, Option.map_some, Heap.set_of_ne _ _ hae]
    exact ⟨_, _, rfl⟩

/-- A response to a packet on the outstanding chain is carried out. -/
theorem fuseCopyResponse_answers {irp irp' : Irp} {status : NtStatus} {c : Wchar}
    {q : Option Addr} {usp : IoStackLocation} (hfits : respFits irp)
    (hpirp : respPirp irp.systemBuffer = p) (hs : Seg w.heap ms.outstandingIrpList O q)
    (hmem : p ∈ vals O) (hlive : (w.irps p).cancel = false)
    (husp : (w.irps p).currentStackLocation = some usp) :
    ∃ h' ms', ∀ fuel, O.length < fuel →
      fillResponse fuel w.strHashC w.files (w.irps p) usp irp.systemBuffer =
        some (irp', status, c) →
      fuseCopyResponse fuel w ms irp = some ({ w.setIrp p irp' with
        heap := h', log := w.log ++ [.completed p], strHashC := c }, ms', status) := by
  obtain ⟨sp, hsp, hle⟩ := hfits
  obtain ⟨O₁, a, O₂, rfl, hfirst⟩ := exists_first hmem
  have hhead : ms.outstandingIrpList ≠ none := by
    rw [hs.head_eq]
    cases O₁ <;> simp
  obtain ⟨h', ms', hun⟩ := unlinkOutstanding_some
    (w := { (w.setIrp p irp').complete p with strHashC := c }) hs hfirst
  refine ⟨h', ms', fun fuel hfuel hfill => ?_⟩
  have hlt : O₁.length < fuel := by
    rw [List.length_append] at hfuel
    omega
  have hfind : findOutstanding w.heap p fuel none ms.outstandingIrpList =
      some (some ((lastAddr O₁).or none, a)) := findOutstanding_of_mem hs hfirst hlt
  simp only [fuseCopyResponse, hsp, hle, hhead, hpirp, hfind, answerOutstanding, hlive, husp,
    hfill, hun, Option.bind_eq_bind, Option.bind_some, Option.or_none, if_true, if_false,
    Bool.false_eq_true]
  simp [World.complete, World.setIrp]

end Reply

-- ============================================================================
-- module_struct_delete
-- ============================================================================

/-- Cancelling a null-terminated list completes its packets in order. -/
theorem cancelList_spec {fuel : Nat} {w w' : World} {head : Option Addr} {l : List Entry}
    (hs : Seg w.heap head l none) (hnd : (addrs l).Nodup)
    (hc : cancelList fuel w head = some w') :
    w'.log = w.log ++ (vals l).map .completed ∧ ∀ b, b ∉ addrs l → w'.heap b = w.heap b := by
  induction l generalizing fuel w head with
  | nil =>
      rw [seg_nil] at hs
      subst hs
      cases fuel <;> simp_all [cancelList]
  | cons x rest ih =>
      obtain ⟨a, p⟩ := x
      obtain ⟨rfl, n, hcell, hrest⟩ := seg_cons.mp hs
      cases fuel with
      | zero => simp [cancelList] at hc
      | succ fuel =>
          simp only [cancelList, hcell, Option.bind_eq_bind, Option.bind_some] at hc
          obtain ⟨ha, hnd⟩ := List.nodup_cons.mp hnd
          have hrest' := hrest.frame fun b hb =>
            Heap.set_of_ne w.heap none (ne_of_mem_of_not_mem hb ha)
          obtain ⟨hlog, hheap⟩ := ih hrest' hnd hc
          refine ⟨by simpa [World.free, World.complete, World.setIrp] using hlog, ?_⟩
          intro b hb
          obtain ⟨hba, hb⟩ := List.ne_and_not_mem_of_not_mem_cons hb
          rw [hheap b hb]
          exact Heap.set_of_ne _ _ hba

/-- Dismounting completes every packet of the three lists, once for each entry. -/
theorem moduleStructDelete_spec {fuel : Nat} {w w' : World} {ms : ModuleStruct}
    {U M O : List Entry} (hr : Rep w.heap ms U M O none)
    (hd : moduleStructDelete fuel w ms = some w') :
    w'.log = w.log ++ (vals M ++ vals U ++ vals O).map .completed ∧
      ∀ b, b ∉ addrs U → b ∉ addrs M → b ∉ addrs O → w'.heap b = w.heap b := by
  obtain ⟨w₁, h₁, hd⟩ := Option.bind_eq_some_iff.mp hd
  obtain ⟨w₂, h₂, h₃⟩ := Option.bind_eq_some_iff.mp hd
  obtain ⟨hlog₁, hheap₁⟩ := cancelList_spec hr.module.seg hr.nodup_module h₁
  have hU := hr.user.seg.frame fun b hb => hheap₁ b fun hM => hr.user_ne_module hb hM rfl
  obtain ⟨hlog₂, hheap₂⟩ := cancelList_spec hU hr.nodup_user h₂
  have hO := hr.out.seg.frame fun b hb =>
    (hheap₂ b fun hU => hr.user_ne_out hU hb rfl).trans
      (hheap₁ b fun hM => hr.module_ne_out hM hb rfl)
  obtain ⟨hlog₃, hheap₃⟩ := cancelList_spec hO hr.nodup_out h₃
  refine ⟨by simp [hlog₃, hlog₂, hlog₁], ?_⟩
  intro b hbU hbM hbO
  rw [hheap₃ b hbO, hheap₂ b hbU, hheap₁ b hbM]

end FuseNt
