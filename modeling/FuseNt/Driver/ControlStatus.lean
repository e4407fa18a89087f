/-
  FuseNt.Driver.ControlStatus

  What the status of `FuseFsdFileSystemControl` says about its packet.

  A dispatch routine that returns STATUS_PENDING completes the packet later,
  and one that returns anything else has completed it.  Two exits return a
  status without completing the packet: the one for a file name that is too
  short, and the one for a module that is not mounted.  A request for work is
  marked pending according to the result of `FuseCheckForWork`, which may say
  that the packet was given work when it was not.

  `ControlBranch` says what the routine can do, and `ControlOk` when status
  and completion agree.
-/

import FuseNt.Driver.FoundWork
import FuseNt.Driver.Interleaving
import FuseNt.Driver.ResponseFrame

namespace FuseNt

open FuseNt.Lib

-- ============================================================================
-- The branches
-- ============================================================================

/-- The packet asks for work, or brings a response. -/
def isModuleCode (sp : IoStackLocation) : Prop :=
  sp.fsControlCode = irpFuseModuleRequest ∨ sp.fsControlCode = irpFuseModuleResponse

/-- The ways through `FuseFsdFileSystemControl`. -/
inductive ControlBranch (fuel : Nat) (d : Driver) (xs : List Mounted) (n : Nat) (p : Pirp)
    (sp : IoStackLocation) (a : Addr) (d' : Driver) (status : NtStatus) : Prop
  /-- The file name has no character behind the backslash. -/
  | badName (short : (d.world.files sp.fileObject).length ≤ 1)
      (same : d' = d) (code : status = statusInvalidParameter)
  /-- A module is mounted, or the control code is not known, or the handle is
      not that of the module: the packet is completed. -/
  | completed (long : 1 < (d.world.files sp.fileObject).length)
      (log : d'.world.log = d.world.log ++ [.completed p]) (code : status ≠ statusPending)
      (why : isModuleCode sp → ∃ pre x post,
        FirstNamed xs (d.nameOf sp.fileObject) pre x post ∧
          x.ms.moduleFileObject ≠ sp.fileObject)
  /-- No module of the name is mounted, and the lookup comes to a free slot. -/
  | unmounted (long : 1 < (d.world.files sp.fileObject).length) (module : isModuleCode sp)
      (none : ∀ x ∈ xs, x.ms.moduleName ≠ d.nameOf sp.fileObject) (free : n < hmapPresetSize)
      (same : d' = d) (code : status = statusInvalidParameter)
  /-- The module asks for work. -/
  | request (pre : List Mounted) (x : Mounted) (post : List Mounted)
      (long : 1 < (d.world.files sp.fileObject).length)
      (code : sp.fsControlCode = irpFuseModuleRequest)
      (first : FirstNamed xs (d.nameOf sp.fileObject) pre x post)
      (handle : x.ms.moduleFileObject = sp.fileObject)
      (call : moduleRequest fuel d p x.addr x.ms a = some (d', status))
  /-- The module responds. -/
  | response (pre : List Mounted) (x : Mounted) (post : List Mounted)
      (long : 1 < (d.world.files sp.fileObject).length)
      (code : sp.fsControlCode = irpFuseModuleResponse)
      (first : FirstNamed xs (d.nameOf sp.fileObject) pre x post)
      (handle : x.ms.moduleFileObject = sp.fileObject)
      (call : moduleResponse fuel d p x.addr x.ms = some (d', status))

section Branches

variable {fuel n : Nat} {d d' : Driver} {xs : List Mounted} {p : Pirp} {sp : IoStackLocation}
  {a : Addr} {status : NtStatus}

theorem mount_ne_module (h : sp.fsControlCode = irpFuseMount) : ¬ isModuleCode sp := by
  unfold isModuleCode
  rw [h]
  decide

/-- `hmap_add` does not touch what has happened. -/
theorem hmapAdd_log {name : List Wchar} (hadd : d.hmapAdd fuel name a = some d') :
    d'.world.log = d.world.log := by
  obtain ⟨⟨hash, c⟩, -, hadd⟩ := Option.bind_eq_some_iff.mp hadd
  obtain ⟨i, -, hadd⟩ := Option.bind_eq_some_iff.mp hadd
  rw [← Option.some.inj hadd]

/-- Without a free slot the lookup of a name that no module has does not
    return. -/
theorem hmapGet_spins {name : List Wchar} {found : Option Addr} (hc : d.world.strHashC = 0)
    (hr : Registered d.map xs n) (hfull : hmapPresetSize ≤ n)
    (hnone : ∀ x ∈ xs, x.ms.moduleName ≠ name) :
    d.hmapGet fuel name ≠ some (d', found) := by
  have hlocate := hr.locate_eq_none hfull (homeSlot_lt name) (fun e he => ?_) fuel
  · simp [Driver.hmapGet, oaGetLocation_eq hc, hlocate]
  · obtain ⟨x, hx, rfl⟩ := List.mem_map.mp he
    exact hnone x hx

theorem fuseFsdFileSystemControl_branch (hf : Fleet d xs) (hr : Registered d.map xs n)
    (hcall : fuseFsdFileSystemControl fuel d p sp a = some (d', status)) :
    ControlBranch fuel d xs n p sp a d' status := by
  unfold fuseFsdFileSystemControl at hcall
  simp only at hcall
  split at hcall
  case isTrue hshort =>
      obtain ⟨rfl, rfl⟩ := Prod.mk.inj (Option.some.inj hcall)
      exact .badName hshort rfl rfl
  case isFalse hlong =>
  have hlong := Nat.lt_of_not_le hlong
  split at hcall
  case isTrue hmount =>
      unfold mountModule at hcall
      simp only at hcall
      split at hcall
      case isTrue => cases hcall
      case isFalse =>
      obtain ⟨d₁, hadd, hcall⟩ := Option.bind_eq_some_iff.mp hcall
      obtain ⟨rfl, rfl⟩ := Prod.mk.inj (Option.some.inj hcall)
      refine .completed hlong ?_ (by decide) fun h => absurd h (mount_ne_module hmount)
      show d₁.world.log ++ [.completed p] = _
      rw [hmapAdd_log hadd]
      rfl
  case isFalse =>
  split at hcall
  case isTrue hmodule =>
      obtain ⟨⟨d₁, found⟩, hget, hcall⟩ := Option.bind_eq_some_iff.mp hcall
      obtain ⟨rfl, ⟨rfl, hnone⟩ | ⟨pre, x, post, rfl, hfirst⟩⟩ := hmapGet_spec hf.static hr hget
      · obtain ⟨rfl, rfl⟩ := Prod.mk.inj (Option.some.inj hcall)
        refine .unmounted hlong hmodule hnone (Nat.lt_of_not_le fun hfull => ?_) rfl rfl
        exact hmapGet_spins hf.static hr hfull hnone hget
      have hx : x ∈ xs := by
        rw [hfirst.split]
        simp
      simp only [hf.stored x hx, Option.bind_eq_bind, Option.bind_some] at hcall
      split at hcall
      case isTrue hhandle =>
          split at hcall
          case isTrue hcode => exact .request pre x post hlong hcode hfirst hhandle hcall
          case isFalse hcode =>
              exact .response pre x post hlong (hmodule.resolve_left hcode) hfirst hhandle hcall
      case isFalse hhandle =>
          obtain ⟨rfl, rfl⟩ := Prod.mk.inj (Option.some.inj hcall)
          exact .completed hlong rfl (by decide) fun _ => ⟨pre, x, post, hfirst, hhandle⟩
  case isFalse hmodule =>
      obtain ⟨rfl, rfl⟩ := Prod.mk.inj (Option.some.inj hcall)
      exact .completed hlong rfl (by decide) fun h => absurd h hmodule

/-- A handle of a mounted module gets through to the module's own branch. -/
theorem fuseFsdFileSystemControl_module {pre post : List Mounted} {x : Mounted}
    (hf : Fleet d xs) (hr : Registered d.map xs n)
    (hlong : 1 < (d.world.files sp.fileObject).length) (hmodule : isModuleCode sp)
    (hfirst : FirstNamed xs (d.nameOf sp.fileObject) pre x post)
    (hhandle : x.ms.moduleFileObject = sp.fileObject) :
    ∃ rounds, ∀ fuel, rounds ≤ fuel → fuseFsdFileSystemControl fuel d p sp a =
      if sp.fsControlCode = irpFuseModuleRequest then moduleRequest fuel d p x.addr x.ms a
      else moduleResponse fuel d p x.addr x.ms := by
  have hx : x ∈ xs := by
    rw [hfirst.split]
    simp
  have hbound : (d.nameOf sp.fileObject, x.addr) ∈ xs.map Mounted.binding :=
    List.mem_map.mpr ⟨x, hx, by rw [Mounted.binding, hfirst.named]⟩
  obtain ⟨rounds, hrounds⟩ := hr.locate_bound hbound (homeSlot_lt _)
  refine ⟨rounds, fun fuel hfuel => ?_⟩
  obtain ⟨r, hloc⟩ := Option.isSome_iff_exists.mp (hrounds fuel hfuel)
  obtain ⟨found, hget⟩ : ∃ found, d.hmapGet fuel (d.nameOf sp.fileObject) = some (d, found) := by
    simp only [Driver.hmapGet, oaGetLocation_eq hf.static, hloc, Option.map_some,
      Option.bind_eq_bind, Option.bind_some]
    exact ⟨_, rfl⟩
  have hfound : found = some x.addr := by
    obtain ⟨-, ⟨-, hnone⟩ | ⟨pre', x', post', rfl, hfirst'⟩⟩ := hmapGet_spec hf.static hr hget
    · exact absurd hfirst.named (hnone x hx)
    · have hreg := hfirst'.registrationOf_eq.symm.trans hfirst.registrationOf_eq
      exact congrArg (fun r => some r.2.1) (Option.some.inj hreg)
  have hmount : sp.fsControlCode ≠ irpFuseMount := fun h => mount_ne_module h hmodule
  unfold fuseFsdFileSystemControl
  simp only [if_neg (Nat.not_le.mpr hlong), if_neg hmount]
  rw [if_pos (show _ ∨ _ from hmodule), show mountName (d.world.files sp.fileObject).text = d.nameOf sp.fileObject
    from rfl, hget, hfound]
  simp only [Option.bind_eq_bind, Option.bind_some, hf.stored x hx, hhandle, if_true]

/-- The request for a module that is not mounted is dropped. -/
theorem fuseFsdFileSystemControl_unmounted (hf : Fleet d xs) (hr : Registered d.map xs n)
    (hlong : 1 < (d.world.files sp.fileObject).length) (hmodule : isModuleCode sp)
    (hn : n < hmapPresetSize) (hnone : ∀ x ∈ xs, x.ms.moduleName ≠ d.nameOf sp.fileObject) :
    fuseFsdFileSystemControl hmapPresetSize d p sp a = some (d, statusInvalidParameter) := by
  obtain ⟨found, hget⟩ := hmapGet_isSome hf.static hr hn (d.nameOf sp.fileObject)
  have hfound : found = none := by
    obtain ⟨-, ⟨hnone, -⟩ | ⟨pre, x, post, -, hfirst⟩⟩ := hmapGet_spec hf.static hr hget
    · exact hnone
    · exact absurd hfirst.named (hnone x (by simp [hfirst.split]))
  have hmount : sp.fsControlCode ≠ irpFuseMount := fun h => mount_ne_module h hmodule
  unfold fuseFsdFileSystemControl
  simp only [if_neg (Nat.not_le.mpr hlong), if_neg hmount]
  rw [if_pos (show _ ∨ _ from hmodule), show mountName (d.world.files sp.fileObject).text =
    d.nameOf sp.fileObject from rfl, hget, hfound]
  rfl

end Branches

-- ============================================================================
-- Requests
-- ============================================================================

/-- A driver whose modules are in order: their lists are on different nodes and
    hold different packets that wait for their completion, `ModuleMap` has them
    and `n` of its slots are taken, a create request carries the create flag,
    and a module packet has a stack location. -/
structure DriverOk (d : Driver) (xs : List Mounted) (n : Nat) : Prop where
  fleet : Fleet d xs
  registered : Registered d.map xs n
  createFlagged : ∀ x ∈ xs, ∀ u ∈ vals x.U, CreateFlagged (d.world.irps u)
  moduleSp : ∀ x ∈ xs, ∀ m ∈ vals x.M, ∃ sp, (d.world.irps m).currentStackLocation = some sp

/-- A file system control packet that is not in use, and a free address `a`. -/
structure ControlArrives (d : Driver) (p : Pirp) (sp : IoStackLocation) (a : Addr) : Prop where
  location : (d.world.irps p).currentStackLocation = some sp
  major : sp.majorFunction = irpMjFileSystemControl
  unused : completions d.world.log p ≠ some 0
  node : d.world.heap a = none
  struct : d.modules a = none

/-- How often the packet is completed by a call that takes `d` to `d'`. -/
def CompletedTimes (d d' : Driver) (p : Pirp) (k : Nat) : Prop :=
  ∃ evs, d'.world.log = d.world.log ++ evs ∧ evs.count (.completed p) = k

/-- The packet is on the `ModuleIrpList` of one mounted module, once. -/
def OnOneModuleList (d : Driver) (p : Pirp) : Prop :=
  ∃ xs n, Fleet d xs ∧ Registered d.map xs n ∧ (xs.flatMap fun x => vals x.M).count p = 1

/-- The status and what has become of the packet agree. -/
def StatusTrue (d d' : Driver) (p : Pirp) (status : NtStatus) : Prop :=
  if status = statusPending then CompletedTimes d d' p 0 ∧ OnOneModuleList d' p
  else CompletedTimes d d' p 1

theorem CompletedTimes.unique {d d' : Driver} {p : Pirp} {k k' : Nat}
    (h : CompletedTimes d d' p k) (h' : CompletedTimes d d' p k') : k = k' := by
  obtain ⟨evs, hlog, rfl⟩ := h
  obtain ⟨evs', hlog', rfl⟩ := h'
  rw [List.append_cancel_left (hlog.symm.trans hlog')]

/-- Events that queue nothing add to the completions of a packet. -/
theorem completions_append_quiet {log evs : List Event} {p : Pirp}
    (hq : ∀ e ∈ evs, e.queues = false) :
    completions (log ++ evs) p = (completions log p).map (· + evs.count (.completed p)) := by
  induction evs generalizing log with
  | nil => simp
  | cons e evs ih =>
      have he : e.queues = false := hq e (List.mem_cons_self ..)
      rw [List.append_cons, ih fun e' he' => hq e' (List.mem_cons_of_mem _ he'),
        completions_concat]
      cases e with
      | queuedUserspace q => simp [Event.queues] at he
      | queuedModule q => simp [Event.queues] at he
      | delivered u m => simp [countCompletion]
      | completed q =>
          by_cases hqp : q = p
          · subst hqp
            cases completions log q <;> simp [countCompletion]
            omega
          · simp [countCompletion, hqp]

section Request

variable {w w' : World} {ms ms' : ModuleStruct} {U M O : List Entry} {nxt : Option Addr}
  {found found' : Bool} {fuel : Nat} {inFlight : Option Pirp}

/-- The pairing loop queues nothing. -/
theorem pairLoop_quiet (hs : Ready w ms U M O nxt)
    (hloop : pairLoop inFlight fuel w ms found = some (w', ms', found')) :
    ∃ evs, w'.log = w.log ++ evs ∧ ∀ e ∈ evs, e.queues = false := by
  induction fuel generalizing w ms U M O nxt found with
  | zero => simp [pairLoop] at hloop
  | succ fuel ih =>
  cases U with
  | nil =>
      obtain ⟨rfl, -, -⟩ := pairLoop_empty hs.rep (Or.inl rfl) hloop
      exact ⟨[], by simp, by simp⟩
  | cons x U =>
  cases M with
  | nil =>
      obtain ⟨rfl, -, -⟩ := pairLoop_empty hs.rep (Or.inr rfl) hloop
      exact ⟨[], by simp, by simp⟩
  | cons y M =>
      obtain ⟨w₁, ms₁, hround, hloop⟩ := pairLoop_cons hs.rep hloop
      obtain ⟨-, hout⟩ := hs.outcome hround
      cases hout with
      | skip _ _ hlog hready => exact hlog ▸ ih hready hloop
      | skipModule _ _ hlog hready => exact hlog ▸ ih hready hloop
      | deliver _ _ _ hlog hready =>
          obtain ⟨evs, hlog', hq⟩ := ih hready hloop
          refine ⟨[.delivered x.2 y.2, .completed y.2] ++ evs, ?_, ?_⟩
          · rw [hlog', hlog, List.append_assoc]
          · simpa [Event.queues] using hq
      | bounce _ _ _ hlog hready =>
          obtain ⟨evs, hlog', hq⟩ := ih hready hloop
          refine ⟨[.completed y.2] ++ evs, ?_, ?_⟩
          · rw [hlog', hlog, List.append_assoc]
          · simpa [Event.queues] using hq

theorem fuseCheckForWork_quiet (hs : Ready w ms U M O nxt)
    (hcheck : fuseCheckForWork fuel w ms inFlight = some (w', ms', found)) :
    ∃ evs, w'.log = w.log ++ evs ∧ ∀ e ∈ evs, e.queues = false := by
  unfold fuseCheckForWork at hcheck
  split at hcheck
  case isTrue => exact pairLoop_quiet hs hcheck
  case isFalse =>
      obtain ⟨rfl, -, -⟩ : w = w' ∧ ms = ms' ∧ false = found := by simpa using hcheck
      exact ⟨[], by simp, by simp⟩

/-- The packet is queued behind the module packets that wait. -/
theorem Ready.request {p : Pirp} {sp : IoStackLocation} {a : Addr} {h' : Heap Pirp}
    (hs : Ready w ms U M O nxt) (hp : completions w.log p ≠ some 0)
    (hsp : (w.irps p).currentStackLocation = some sp)
    (hrep : Rep h' ms' U (M ++ [(a, p)]) O nxt) :
    Ready { w with heap := h', log := w.log ++ [.queuedModule p] } ms' U (M ++ [(a, p)]) O nxt where
  rep := hrep
  owned := (hs.owned.queued (Or.inr rfl) hp).perm (packets_queue_module ..)
  createFlagged := hs.createFlagged
  moduleSp m hm := by
    simp only [vals, List.map_append, List.mem_append, List.map_cons, List.map_nil,
      List.mem_singleton] at hm
    rcases hm with hm | rfl
    · exact hs.moduleSp m hm
    · exact ⟨sp, hsp⟩

end Request

section Status

variable {d d' : Driver} {xs pre post : List Mounted} {x : Mounted} {n fuel : Nat} {p : Pirp}
  {sp : IoStackLocation} {a : Addr} {status : NtStatus}

theorem DriverOk.ready (hok : DriverOk d xs n) (hx : x ∈ xs) :
    Ready d.world x.ms x.U x.M x.O x.nxt where
  rep := hok.fleet.sound x hx
  owned := by
    have hsub := (List.singleton_sublist.mpr hx).flatMap Mounted.packets
    rw [List.flatMap_singleton] at hsub
    exact hok.fleet.owned.sublist hsub
  createFlagged := hok.createFlagged x hx
  moduleSp := hok.moduleSp x hx

/-- A packet on one of the lists is on it once. -/
theorem Fleet.onOneModuleList (hf : Fleet d xs) (hr : Registered d.map xs n) (hx : x ∈ xs)
    (hp : p ∈ vals x.M) : OnOneModuleList d p := by
  refine ⟨xs, n, hf, hr, ?_⟩
  have hsub : (xs.flatMap fun x => vals x.M).Sublist (xs.flatMap Mounted.packets) := by
    refine List.Sublist.flatMap_right xs fun x _ => ?_
    exact (List.sublist_append_right ..).trans (List.sublist_append_left ..)
  exact List.count_eq_one_of_mem (hf.owned.nodup.sublist hsub) (List.mem_flatMap.mpr ⟨x, hx, hp⟩)

/-- The condition on a request for work of the module `x`: if the packet's
    buffer is large enough, the requests that wait are used up before its turn
    comes, or it is given one. -/
def RequestOk (d : Driver) (x : Mounted) (p : Pirp) (sp : IoStackLocation) : Prop :=
  moduleBufferOk (d.world.irps p) sp = true →
    UsedUp d.world (vals x.U) (vals x.M) ∨ GivesWork d.world (vals x.U) (vals x.M) p

/-- The answer of `FuseAddIrpToModuleList` is that of the check of the buffer. -/
theorem fuseAddIrpToModuleList_ok {w w' : World} {ms ms' : ModuleStruct} {ok : Bool}
    (hsp : (w.irps p).currentStackLocation = some sp)
    (hadd : fuseAddIrpToModuleList w ms p true a = some (w', ms', ok)) :
    ok = moduleBufferOk (w.irps p) sp := by
  simp only [fuseAddIrpToModuleList, if_true, hsp, Option.map_some, Option.bind_eq_bind,
    Option.bind_some] at hadd
  split at hadd
  case isTrue h =>
      obtain ⟨r, -, hadd⟩ := Option.bind_eq_some_iff.mp hadd
      obtain ⟨-, -, rfl⟩ := by simpa using hadd
      exact h.symm
  case isFalse h =>
      obtain ⟨-, -, rfl⟩ := by simpa using hadd
      exact (Bool.eq_false_iff.mpr h).symm

/-- How often a packet is completed that was queued in the call. -/
theorem completedTimes_queued {evs : List Event} {k : Nat}
    (hlog : d'.world.log = d.world.log ++ [.queuedModule p] ++ evs)
    (hq : ∀ e ∈ evs, e.queues = false) (hk : completions d'.world.log p = some k) :
    CompletedTimes d d' p k := by
  refine ⟨.queuedModule p :: evs, by rw [hlog, List.append_assoc]; rfl, ?_⟩
  rw [hlog, completions_append_quiet hq, completions_concat] at hk
  simpa [countCompletion] using hk

/-- The modules after one of them has worked. -/
theorem Registered.update {t : Table (List Wchar) Addr} {us ps : List Pirp} {w w' : World}
    {x' : Mounted} (hr : Registered t (pre ++ x :: post) n) (hl : Local us ps w x w' x') :
    Registered t (pre ++ x' :: post) n := by
  have hbinding : (pre ++ x' :: post).map Mounted.binding =
      (pre ++ x :: post).map Mounted.binding := by
    simp [Mounted.binding, hl.name, hl.addr]
  unfold Registered
  rw [hbinding]
  exact hr

/-- A request for work. -/
theorem moduleRequest_status (hok : DriverOk d xs n) (ha : ControlArrives d p sp a)
    (hxs : xs = pre ++ x :: post)
    (hcall : moduleRequest fuel d p x.addr x.ms a = some (d', status)) :
    StatusTrue d d' p status ↔ RequestOk d x p sp := by
  have hx : x ∈ xs := by simp [hxs]
  have hs := hok.ready hx
  obtain ⟨⟨w₁, ms₁, ok⟩, hadd, hcall⟩ := Option.bind_eq_some_iff.mp hcall
  have hbuffer := fuseAddIrpToModuleList_ok ha.location hadd
  obtain ⟨x₁, rfl, hlocal₁⟩ := fuseAddIrpToModuleList_local hs.rep ha.unused hadd
  unfold RequestOk
  rw [← hbuffer]
  cases fuseAddIrpToModuleList_arrival hs.rep hadd with
  | refused _ hw hms =>
      -- the packet is completed with an error
      obtain ⟨rfl, rfl⟩ := by simpa using hcall
      refine iff_of_true ?_ (by simp)
      rw [StatusTrue, if_neg (by decide)]
      exact ⟨[.completed p], by rw [hw]; rfl, by simp⟩
  | userspace _ h => cases h
  | module h' sp' _ _ _ hw hrep _ =>
      simp only [if_true] at hcall
      obtain ⟨⟨w', ms', found⟩, hcheck, hcall⟩ := Option.bind_eq_some_iff.mp hcall
      obtain ⟨rfl, rfl⟩ := Prod.mk.inj (Option.some.inj hcall)
      have hs₁ : Ready w₁ x₁.ms x.U (x.M ++ [(a, p)]) x.O x.nxt := by
        rw [hw]
        exact hs.request ha.unused ha.location hrep
      have hsame : SamePackets d.world w₁ := by
        rw [hw]
        exact ⟨rfl, rfl, rfl⟩
      obtain ⟨x₂, rfl, hlocal₂⟩ := fuseCheckForWork_local hlocal₁.sound hcheck
      have hlocal := hlocal₁.trans hlocal₂
      obtain ⟨U', M', O', nxt', hready, hres⟩ := fuseCheckForWork_inFlight hs₁ hcheck
      obtain ⟨evs, hlog, hquiet⟩ := fuseCheckForWork_quiet hs₁ hcheck
      have htimes : ∀ k, completions w'.log p = some k → CompletedTimes d
          { d.setModule x.addr (some x₂.ms) with world := w' } p k := by
        intro k hk
        refine completedTimes_queued ?_ hquiet hk
        rw [hlog, hw]
      have hgives : GivesWork d.world (vals x.U) (vals x.M) p ↔
          GivesWork w₁ (vals x.U) (vals x.M) p := by
        simp only [GivesWork, hsame.live, hsame.allServed]
      have hfound : found = true ↔ ¬ UsedUp d.world (vals x.U) (vals x.M) := by
        rw [← hsame.usedUp]
        simpa using hres.found
      simp only [true_implies]
      cases found with
      | true =>
          -- the packet counts as served
          have hused := hfound.mp rfl
          rw [if_pos rfl, StatusTrue, if_neg (by decide), or_iff_right hused, hgives]
          constructor
          · intro hone
            by_contra hnot
            exact absurd (hone.unique (htimes 0 (hres.unserved hnot))) (by decide)
          · exact fun h => htimes 1 (hres.served h).1
      | false =>
          -- the packet waits
          have hused : UsedUp d.world (vals x.U) (vals x.M) := by
            by_contra hnot
            exact absurd (hfound.mpr hnot) (by decide)
          have hused₁ := hsame.usedUp.mpr hused
          refine iff_of_true ?_ (Or.inl hused)
          rw [if_neg (by decide), StatusTrue, if_pos rfl]
          refine ⟨htimes 0 (hres.unserved fun h => h.2 hused₁.allServed), ?_⟩
          have hM : M' = x₂.M := hready.rep.module.seg.unique hlocal.sound.module.seg
          have hfleet := hok.fleet
          have hreg := hok.registered
          rw [hxs] at hfleet hreg
          refine (hfleet.update hlocal).onOneModuleList (n := n) (x := x₂) (hreg.update hlocal)
            (by simp) ?_
          rw [← hM]
          exact hres.queued hused₁

/-- The call returns. -/
theorem moduleRequest_returns (hok : DriverOk d xs n) (ha : ControlArrives d p sp a)
    (hx : x ∈ xs) :
    ∃ rounds, ∀ fuel, rounds ≤ fuel → ∃ r, moduleRequest fuel d p x.addr x.ms a = some r := by
  have hs := hok.ready hx
  obtain ⟨h', ms', happ, hrep, -⟩ := appendIrp_module (p := p) hs.rep ha.node
  cases hbuffer : moduleBufferOk (d.world.irps p) sp with
  | false =>
      refine ⟨0, fun fuel _ => ?_⟩
      simp [moduleRequest, fuseAddIrpToModuleList, ha.location, hbuffer]
  | true =>
      have hs₁ := hs.request ha.unused ha.location hrep
      obtain ⟨⟨w', ms'', found⟩, rounds, hcheck⟩ := fuseCheckForWork_returns (some p) hs₁
      refine ⟨rounds, fun fuel hfuel => ?_⟩
      have hsome := hcheck fuel hfuel
      dsimp only at hsome
      simp only [moduleRequest, fuseAddIrpToModuleList, ha.location, hbuffer, happ, hsome, if_true,
        Option.map_some, Option.bind_eq_bind, Option.bind_some]
      exact ⟨_, rfl⟩

end Status

-- ============================================================================
-- Responses
-- ============================================================================

/-- The search of `FuseCopyResponse` comes to a node that holds `p`. -/
def OnChain (w : World) (ms : ModuleStruct) (p : Pirp) : Prop :=
  ∃ l q, Seg w.heap ms.outstandingIrpList l q ∧ p ∈ vals l

/-- The response packet `p` answers itself: it names its own address, and the
    search finds it. -/
def AnswersItself (w : World) (ms : ModuleStruct) (p : Pirp) : Prop :=
  respFits (w.irps p) ∧ respPirp (w.irps p).systemBuffer = p ∧ live w p = true ∧ OnChain w ms p

section Response

variable {w w' : World} {ms ms' : ModuleStruct} {p : Pirp} {fuel : Nat} {irp : Irp}
  {status : NtStatus}

/-- What is found is on the chain. -/
theorem findOutstanding_onChain {h : Heap Pirp} {prev head pe : Option Addr} {cur : Addr}
    (hf : findOutstanding h p fuel prev head = some (some (pe, cur))) :
    ∃ l q, Seg h head l q ∧ p ∈ vals l := by
  induction fuel generalizing prev head with
  | zero => simp [findOutstanding] at hf
  | succ fuel ih =>
      cases head with
      | none => simp [findOutstanding] at hf
      | some a =>
          obtain ⟨c, hc, hf⟩ := Option.bind_eq_some_iff.mp hf
          split at hf
          case isTrue hv =>
              refine ⟨[(a, p)], c.next, seg_cons.mpr ⟨rfl, c.next, ?_, rfl⟩, by simp⟩
              rw [hc, ← hv]
          case isFalse =>
              obtain ⟨l, q, hs, hp⟩ := ih hf
              exact ⟨(a, c.val) :: l, q, seg_cons.mpr ⟨rfl, c.next, hc, hs⟩, by simp [hp]⟩

theorem success_ne_pending : statusSuccess ≠ statusPending := by decide

theorem invalidParameter_ne_pending : statusInvalidParameter ≠ statusPending := by decide

theorem invalidInfoClass_ne_pending : statusInvalidInfoClass ≠ statusPending := by decide

theorem invalidBufferSize_ne_pending : statusInvalidBufferSize ≠ statusPending := by decide

theorem fuseCopyInformation_status {files : Pfile → UnicodeString} {irp' : Irp} {msg : Mem}
    {src : Nat} (h : fuseCopyInformation files irp msg src = some (irp', status)) :
    status ≠ statusPending := by
  have hoverflow : ∀ r : QueryFill × NtStatus, r.2 ≠ statusPending →
      (if r.1.length < 0 then statusBufferOverflow else r.2) ≠ statusPending := by
    intro r hr
    split
    · decide
    · exact hr
  obtain ⟨sp, -, h⟩ := Option.bind_eq_some_iff.mp h
  rw [Option.some.injEq, Prod.mk.injEq] at h
  rw [← h.2]
  refine hoverflow _ ?_
  split
  · exact success_ne_pending
  split
  · exact success_ne_pending
  split
  · exact success_ne_pending
  split
  · exact success_ne_pending
  · exact invalidParameter_ne_pending

theorem fuseCopyDirectoryControl_status {c : Wchar} {msg : Mem} {src len : Nat} {r : DirReply}
    (h : fuseCopyDirectoryControl fuel c irp msg src len = some r) :
    r.status ≠ statusPending := by
  obtain ⟨sp, -, h⟩ := Option.bind_eq_some_iff.mp h
  split at h
  · obtain ⟨s, -, h⟩ := Option.bind_eq_some_iff.mp h
    rw [← Option.some.inj h]
    exact success_ne_pending
  · obtain ⟨s, -, h⟩ := Option.bind_eq_some_iff.mp h
    rw [← Option.some.inj h]
    exact success_ne_pending
  · rw [← Option.some.inj h]
    exact invalidInfoClass_ne_pending

theorem fillStatus_status (irp : Irp) (usp : IoStackLocation) (msg : Mem) :
    (fillStatus irp usp msg).2 ≠ statusPending := by
  unfold fillStatus fillReadWrite
  simp only
  split
  · split
    · split
      · exact success_ne_pending
      · exact invalidBufferSize_ne_pending
    · split <;> exact success_ne_pending
  · exact success_ne_pending

/-- The status of a response is never that of a pending packet. -/
theorem fillResponse_status {c c' : Wchar} {files : Pfile → UnicodeString} {irp' : Irp}
    {usp : IoStackLocation} {msg : Mem}
    (h : fillResponse fuel c files irp usp msg = some (irp', status, c')) :
    status ≠ statusPending := by
  rw [fillResponse_eq] at h
  unfold fillQuery at h
  split at h
  case isTrue =>
      split at h
      case isTrue =>
          obtain ⟨⟨irp₁, st⟩, hcopy, h⟩ := Option.bind_eq_some_iff.mp h
          obtain ⟨-, rfl, -⟩ : irp₁ = irp' ∧ st = status ∧ c = c' := by simpa using h
          exact fuseCopyInformation_status hcopy
      case isFalse =>
          obtain ⟨-, rfl, -⟩ := by simpa using h
          decide
  case isFalse =>
  split at h
  case isTrue =>
      obtain ⟨r, hcopy, h⟩ := Option.bind_eq_some_iff.mp h
      obtain ⟨-, rfl, -⟩ : r.irp = irp' ∧ r.status = status ∧ r.strHashC = c' := by simpa using h
      exact fuseCopyDirectoryControl_status hcopy
  case isFalse =>
      obtain ⟨-, rfl, -⟩ : (fillStatus irp usp msg).1 = irp' ∧
        (fillStatus irp usp msg).2 = status ∧ c = c' := by simpa using h
      exact fillStatus_status irp usp msg

theorem unlinkOutstanding_log {prev : Option Addr} {cur : Addr}
    (h : unlinkOutstanding w ms prev cur = some (w', ms')) : w'.log = w.log := by
  unfold unlinkOutstanding at h
  cases prev with
  | some pe =>
      obtain ⟨pc, -, h⟩ := Option.bind_eq_some_iff.mp h
      obtain ⟨b, -, h⟩ := Option.bind_eq_some_iff.mp h
      obtain ⟨nc, -, h⟩ := Option.bind_eq_some_iff.mp h
      obtain ⟨heap, -, h⟩ := Option.bind_eq_some_iff.mp h
      obtain ⟨r, -, h⟩ := Option.bind_eq_some_iff.mp h
      obtain ⟨cc, -, h⟩ := Option.bind_eq_some_iff.mp h
      rw [Option.some.injEq, Prod.mk.injEq] at h
      rw [← h.1]
  | none =>
      obtain ⟨c, -, h⟩ := Option.bind_eq_some_iff.mp h
      obtain ⟨r, -, h⟩ := Option.bind_eq_some_iff.mp h
      obtain ⟨cc, -, h⟩ := Option.bind_eq_some_iff.mp h
      rw [Option.some.injEq, Prod.mk.injEq] at h
      rw [← h.1]

/-- What a response adds to the history: nothing, or the completion of the
    packet it names, which the search has found. -/
theorem fuseCopyResponse_log (hsp : ∃ sp, irp.currentStackLocation = some sp)
    (hc : fuseCopyResponse fuel w ms irp = some (w', ms', status)) :
    status ≠ statusPending ∧
      (w'.log = w.log ∨
        w'.log = w.log ++ [.completed (respPirp irp.systemBuffer)] ∧ respFits irp ∧
          live w (respPirp irp.systemBuffer) = true ∧
          OnChain w ms (respPirp irp.systemBuffer)) := by
  obtain ⟨sp, hsp⟩ := hsp
  rw [fuseCopyResponse_eq hsp] at hc
  split at hc
  case isFalse =>
      obtain ⟨rfl, -, rfl⟩ := by simpa using hc
      exact ⟨by decide, Or.inl rfl⟩
  case isTrue hfits =>
  split at hc
  case isTrue =>
      obtain ⟨rfl, -, rfl⟩ := by simpa using hc
      exact ⟨by decide, Or.inl rfl⟩
  case isFalse =>
  obtain ⟨r, hfind, hc⟩ := Option.bind_eq_some_iff.mp hc
  match r with
  | none =>
      obtain ⟨rfl, -, rfl⟩ := by simpa [answerFound] using hc
      exact ⟨by decide, Or.inl rfl⟩
  | some (prev, cur) =>
      have hc : answerOutstanding fuel w ms prev cur (respPirp irp.systemBuffer)
        irp.systemBuffer = some (w', ms', status) := hc
      unfold answerOutstanding at hc
      split at hc
      case isTrue =>
          obtain ⟨cc, -, hc⟩ := Option.bind_eq_some_iff.mp hc
          obtain ⟨rfl, -, rfl⟩ := by simpa using hc
          exact ⟨by decide, Or.inl rfl⟩
      case isFalse hlive =>
          obtain ⟨usp, -, hc⟩ := Option.bind_eq_some_iff.mp hc
          obtain ⟨⟨irp₁, st, c⟩, hfill, hc⟩ := Option.bind_eq_some_iff.mp hc
          obtain ⟨⟨w₁, ms₁⟩, hun, hc⟩ := Option.bind_eq_some_iff.mp hc
          obtain ⟨rfl, rfl, rfl⟩ : w₁ = w' ∧ ms₁ = ms' ∧ st = status := by simpa using hc
          refine ⟨fillResponse_status hfill, Or.inr ⟨?_, ⟨sp, hsp, hfits⟩, by simpa [live] using hlive,
            findOutstanding_onChain hfind⟩⟩
          exact unlinkOutstanding_log hun

end Response

-- ============================================================================
-- The status
-- ============================================================================

/-- When `FuseFsdFileSystemControl` returns, it returns STATUS_PENDING, the
    packet has not been completed and is on the `ModuleIrpList` of one module;
    or it returns another status, and the packet has been completed once. -/
def CompletedOrPending (d : Driver) (p : Pirp) (sp : IoStackLocation) (a : Addr) : Prop :=
  ∀ fuel d' status, fuseFsdFileSystemControl fuel d p sp a = some (d', status) →
    StatusTrue d d' p status

/-- The condition: the file name has a character behind the backslash; the
    module of a request for work or of a response is mounted (or `ModuleMap` has
    no free slot, so that the lookup does not return); a request for work that
    gets to its module is `RequestOk`, and a response does not answer itself. -/
structure ControlOk (d : Driver) (xs : List Mounted) (n : Nat) (p : Pirp) (sp : IoStackLocation) :
    Prop where
  named : 1 < (d.world.files sp.fileObject).length
  mounted : isModuleCode sp → n < hmapPresetSize →
    ∃ x ∈ xs, x.ms.moduleName = d.nameOf sp.fileObject
  request : sp.fsControlCode = irpFuseModuleRequest →
    ∀ pre x post, FirstNamed xs (d.nameOf sp.fileObject) pre x post →
      x.ms.moduleFileObject = sp.fileObject → RequestOk d x p sp
  response : sp.fsControlCode = irpFuseModuleResponse →
    ∀ pre x post, FirstNamed xs (d.nameOf sp.fileObject) pre x post →
      x.ms.moduleFileObject = sp.fileObject → ¬ AnswersItself d.world x.ms p

section Final

variable {d d' : Driver} {xs : List Mounted} {x : Mounted} {n fuel : Nat} {p : Pirp}
  {sp : IoStackLocation} {a : Addr} {status : NtStatus}

/-- A call that completes nothing and returns a status. -/
theorem not_statusTrue_same (h : status ≠ statusPending) : ¬ StatusTrue d d p status := by
  rw [StatusTrue, if_neg h]
  rintro ⟨evs, hlog, hone⟩
  obtain rfl : evs = [] := by simpa using hlog
  simp at hone

/-- A response that does not answer itself. -/
theorem moduleResponse_status (ha : ControlArrives d p sp a) {ms : ModuleStruct} {b : Addr}
    (hself : ¬ AnswersItself d.world ms p)
    (hcall : moduleResponse fuel d p b ms = some (d', status)) : StatusTrue d d' p status := by
  obtain ⟨⟨w₁, ms₁, st⟩, hcopy, hcall⟩ := Option.bind_eq_some_iff.mp hcall
  obtain ⟨rfl, rfl⟩ := Prod.mk.inj (Option.some.inj hcall)
  obtain ⟨hne, hlog⟩ := fuseCopyResponse_log ⟨sp, ha.location⟩ hcopy
  rw [StatusTrue, if_neg hne]
  rcases hlog with hlog | ⟨hlog, hfits, hlive, hchain⟩
  · exact ⟨[.completed p], by simp [World.complete, hlog], by simp⟩
  · have hother : respPirp (d.world.irps p).systemBuffer ≠ p := by
      intro heq
      rw [heq] at hlive hchain
      exact hself ⟨hfits, heq, hlive, hchain⟩
    refine ⟨[.completed (respPirp (d.world.irps p).systemBuffer), .completed p], ?_, ?_⟩
    · simp [World.complete, hlog]
    · simp [hother]

/-- A response that answers itself is completed twice. -/
theorem moduleResponse_twice (ha : ControlArrives d p sp a) (hstatic : d.world.strHashC = 0)
    {ms : ModuleStruct} (b : Addr) (hself : AnswersItself d.world ms p) :
    ∃ rounds, ∀ fuel, rounds ≤ fuel → ∃ d' status,
      moduleResponse fuel d p b ms = some (d', status) ∧ ¬ StatusTrue d d' p status := by
  obtain ⟨hfits, hpirp, hlive, l, q, hseg, hmem⟩ := hself
  have hends : ListingEnds sp (d.world.irps p).systemBuffer := by
    intro hdir
    rw [ha.major] at hdir
    exact absurd hdir (by decide)
  obtain ⟨⟨irp', status, c⟩, rounds, hfill⟩ := fillResponse_settles d.world.files ha.location hends
  obtain ⟨h', ms', hcopy⟩ := @fuseCopyResponse_answers d.world ms l p (d.world.irps p) irp' status c
    q sp hfits hpirp hseg hmem (by simpa [live] using hlive) ha.location
  refine ⟨max rounds (l.length + 1), fun fuel hfuel => ?_⟩
  have hsome : fillResponse fuel d.world.strHashC d.world.files (d.world.irps p) sp
      (d.world.irps p).systemBuffer = some (irp', status, c) := by
    rw [hstatic]
    exact hfill fuel (by omega)
  refine ⟨_, status, by rw [moduleResponse, hcopy fuel (by omega) hsome]; rfl, ?_⟩
  rw [StatusTrue, if_neg (fillResponse_status hsome)]
  intro hone
  refine absurd (hone.unique ⟨[.completed p, .completed p], ?_, rfl⟩) (by simp)
  simp [World.complete]

/-- `FuseFsdFileSystemControl` completes its packet, or returns STATUS_PENDING,
    exactly if the request is `ControlOk`. -/
theorem control_status_iff (hok : DriverOk d xs n) (ha : ControlArrives d p sp a) :
    CompletedOrPending d p sp a ↔ ControlOk d xs n p sp := by
  have hf := hok.fleet
  have hr := hok.registered
  constructor
  · intro hall
    have hnamed : 1 < (d.world.files sp.fileObject).length := by
      by_contra hshort
      have hcall : fuseFsdFileSystemControl 0 d p sp a = some (d, statusInvalidParameter) := by
        simp only [fuseFsdFileSystemControl, if_pos (Nat.le_of_not_lt hshort)]
      exact not_statusTrue_same invalidParameter_ne_pending (hall _ _ _ hcall)
    refine ⟨hnamed, fun hmodule hn => ?_, fun hcode pre x post hfirst hhandle => ?_,
      fun hcode pre x post hfirst hhandle hself => ?_⟩
    · by_contra hnone
      push Not at hnone
      have hcall := fuseFsdFileSystemControl_unmounted (p := p) (a := a) hf hr hnamed hmodule hn hnone
      exact not_statusTrue_same invalidParameter_ne_pending (hall _ _ _ hcall)
    · obtain ⟨rounds, hrun⟩ :=
        fuseFsdFileSystemControl_module (p := p) (a := a) hf hr hnamed (Or.inl hcode) hfirst hhandle
      have hx : x ∈ xs := by simp [hfirst.split]
      obtain ⟨rounds', hreturns⟩ := moduleRequest_returns hok ha hx
      obtain ⟨⟨d', status⟩, hcall⟩ := hreturns (max rounds rounds') (by omega)
      refine (moduleRequest_status hok ha hfirst.split hcall).mp (hall (max rounds rounds') _ _ ?_)
      rw [hrun _ (by omega), if_pos hcode, hcall]
    · obtain ⟨rounds, hrun⟩ :=
        fuseFsdFileSystemControl_module (p := p) (a := a) hf hr hnamed (Or.inr hcode) hfirst hhandle
      obtain ⟨rounds', hreturns⟩ := moduleResponse_twice ha hf.static x.addr hself
      obtain ⟨d', status, hcall, hnot⟩ := hreturns (max rounds rounds') (by omega)
      have hne : sp.fsControlCode ≠ irpFuseModuleRequest := by
        rw [hcode]
        decide
      refine hnot (hall (max rounds rounds') _ _ ?_)
      rw [hrun _ (by omega), if_neg hne, hcall]
  · intro hcond fuel d' status hcall
    cases fuseFsdFileSystemControl_branch hf hr hcall with
    | badName hshort _ _ => exact absurd hcond.named (Nat.not_lt.mpr hshort)
    | completed _ hlog hne _ =>
        rw [StatusTrue, if_neg hne]
        exact ⟨[.completed p], hlog, by simp⟩
    | unmounted _ hmodule hnone hfree _ _ =>
        obtain ⟨x, hx, hname⟩ := hcond.mounted hmodule hfree
        exact absurd hname (hnone x hx)
    | request pre x post _ hcode hfirst hhandle hcall =>
        exact (moduleRequest_status hok ha hfirst.split hcall).mpr
          (hcond.request hcode pre x post hfirst hhandle)
    | response pre x post _ hcode hfirst hhandle hcall =>
        exact moduleResponse_status ha (hcond.response hcode pre x post hfirst hhandle) hcall

end Final

/-- The driver after it was loaded; the packet `irp` arrives on a handle of the
    name `\v`. -/
def sampleLoaded (irp : Irp) : Driver :=
  ⟨{ emptyWorld with irps := fun _ => irp, files := fun _ => sampleModuleName }, fun _ => none,
    Table.empty, 0⟩

theorem sampleLoaded_ok (irp : Irp) : DriverOk (sampleLoaded irp) [] 0 where
  fleet :=
    { stored := by simp
      distinct := by simp
      sound := by simp
      apart := List.Pairwise.nil
      owned := Owned.nil _
      static := rfl }
  registered := Represents.empty _ _
  createFlagged := by simp
  moduleSp := by simp

/-- The stack location of a control request on the file object `f`. -/
def sampleControlSp (f : Pfile) (code : Nat) : IoStackLocation :=
  { (default : IoStackLocation) with
    majorFunction := irpMjFileSystemControl
    arg0 := 4096
    arg1 := 64
    arg2 := UInt64.ofNat code
    fileObject := f }

/-- The module `\v`, mounted by the handle 1, with the read request 1. -/
def sampleWaiting : Mounted :=
  ⟨201, { ModuleStruct.zeroed [118] 1 with
    userspaceIrpList := some 101, userspaceIrpListEnd := some 101 }, [(101, 1)], [], [], none⟩

/-- The driver with this module; the packet 31 asks for work. -/
def sampleMounted : Driver :=
  ⟨{ emptyWorld with
      irps := fun p => if p = 31 then sampleRequest 1 else sampleRead
      files := fun _ => sampleModuleName
      heap := Heap.empty.set 101 (some ⟨1, none⟩)
      log := [.queuedUserspace 1] },
    fun b => if b = 201 then some sampleWaiting.ms else none,
    Table.empty.set 5 (some (some [118], 201)), 1⟩

theorem sampleMounted_ok : DriverOk sampleMounted [sampleWaiting] 1 where
  fleet :=
    { stored := by simp [sampleMounted, sampleWaiting]
      distinct := by simp
      sound := fun x hx => by
        rw [List.mem_singleton.mp hx]
        exact
          { user := Queue.first rfl
            module := ⟨rfl, rfl⟩
            out := ⟨rfl, rfl⟩
            out_nil := fun _ => rfl
            nodup := by decide }
      apart := List.pairwise_singleton ..
      owned := by
        refine ⟨by decide, fun p hp => ?_⟩
        obtain rfl : p = 1 := List.mem_singleton.mp hp
        rfl
      static := rfl }
  registered := (Represents.empty hmapPresetSize homeSlot).add (k := [118]) 201 (homeSlot_lt [118])
    (show Table.empty.vacant hmapPresetSize 1 (homeSlot [118]) = some 5 from rfl)
  createFlagged x hx u hu sp hsp hcreate := by
    obtain rfl := List.mem_singleton.mp hx
    obtain rfl : u = 1 := List.mem_singleton.mp hu
    obtain rfl := Option.some.inj hsp
    exact absurd hcreate (by decide)
  moduleSp x hx m hm := by
    obtain rfl := List.mem_singleton.mp hx
    cases hm

/-- The packet is handed the read request. -/
theorem control_status_request :
    CompletedOrPending sampleMounted 31 (sampleControlSp 1 irpFuseModuleRequest) 103 := by
  refine (control_status_iff sampleMounted_ok ⟨rfl, rfl, by decide, rfl, rfl⟩).mpr
    ⟨by decide, fun _ _ => ⟨_, List.mem_singleton_self _, rfl⟩, ?_, ?_⟩
  · intro _ pre x post hfirst _ _
    have hx : x ∈ [sampleWaiting] := by
      rw [hfirst.split]
      simp
    obtain rfl := List.mem_singleton.mp hx
    exact Or.inr (givesWork_first (x := (101, 1)) (U := []) rfl rfl)
  · exact fun hcode => absurd hcode (by decide)

/-- The packet asks for work, but no module is mounted: it is neither completed
    nor pending. -/
theorem control_status_unmounted :
    DriverOk (sampleLoaded (sampleRequest 1)) [] 0 ∧
      ControlArrives (sampleLoaded (sampleRequest 1)) 31
        (sampleControlSp 1 irpFuseModuleRequest) 103 ∧
      ¬ CompletedOrPending (sampleLoaded (sampleRequest 1)) 31
        (sampleControlSp 1 irpFuseModuleRequest) 103 := by
  have hok := sampleLoaded_ok (sampleRequest 1)
  refine ⟨hok, ⟨rfl, rfl, by decide, rfl, rfl⟩, fun hall => ?_⟩
  have hcall := fuseFsdFileSystemControl_unmounted (p := 31) (a := 103) hok.fleet hok.registered
    (show 1 < ((sampleLoaded (sampleRequest 1)).world.files
      (sampleControlSp 1 irpFuseModuleRequest).fileObject).length by decide) (Or.inl rfl)
    (by decide) (by simp)
  exact not_statusTrue_same invalidParameter_ne_pending (hall _ _ _ hcall)

end FuseNt
