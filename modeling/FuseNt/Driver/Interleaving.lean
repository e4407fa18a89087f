/-
  FuseNt.Driver.Interleaving

  The dispatch routines as threads that run at the same time.

  A routine looks a module up in `ModuleMap`, puts its packet on a queue,
  locks the caller's buffer and marks the packet pending, looks for work,
  handles a response, or dismounts the module, and the steps of different
  threads mix in any order.  Nothing is locked: `ModuleLock` is free again
  before the append, the pairing loop and the search for a response begin (see
  `Threads`).  Each of these takes two steps, one that reads where to work
  (`LastEntry`, the two entries, the matching entry) and one that works there,
  whatever other threads have done in between.

  A packet can be completed by another thread as soon as it is on a list, and
  a `MODULE_STRUCT` can be deleted while a thread has a pointer to it.  What a
  step accesses is `TouchesIrp` and `TouchesModule`; the condition `OnTime`
  says of a step that it does not work on lists another thread is working on,
  and does not complete or delete anything a thread has still to touch, and
  runs whose steps all meet it never access anything too late.  Packets and
  `MODULE_STRUCT`s are named by their allocation: memory that is used again
  has another name.
-/

import FuseNt.Driver.Impersonation
import FuseNt.Driver.Threads

namespace FuseNt

open FuseNt.Lib

-- ============================================================================
-- Threads
-- ============================================================================

/-- What a thread was called for, with the packet it was called with. -/
inductive Job where
  | userspace (p : Pirp)
  | request (p : Pirp)
  | response (p : Pirp)
  | close
deriving DecidableEq, Repr

def Job.irp : Job → Option Pirp
  | userspace p => some p
  | request p => some p
  | response p => some p
  | close => none

/-- `AddToModuleList` of `FuseAddIrpToModuleList`. -/
def Job.toModule : Job → Bool
  | request _ => true
  | _ => false

/-- The control code that calls for the job. -/
def Job.suits (sp : IoStackLocation) : Job → Prop
  | userspace _ => True
  | request _ => sp.fsControlCode = irpFuseModuleRequest
  | response _ => sp.fsControlCode = irpFuseModuleResponse
  | close => True

/-- Where a thread is. -/
inductive Pc where
  | idle
  /-- Called on the file object `f`. -/
  | called (j : Job) (f : Pfile)
  /-- `hmap_get` has returned the module at `a`. -/
  | found (j : Job) (f : Pfile) (a : Addr)
  /-- In the append: `LastEntry` was read. -/
  | appending (j : Job) (a : Addr) (last : Option Addr)
  /-- The packet is on a list of the module. -/
  | queued (j : Job) (a : Addr)
  /-- A userspace packet was marked pending. -/
  | marked (a : Addr)
  /-- At the condition of the loop of `FuseCheckForWork`, with `FoundWork`. -/
  | pairing (inFlight : Option Pirp) (a : Addr) (foundWork : Bool)
  /-- In the body of the loop, with the entries it has read. -/
  | paired (inFlight : Option Pirp) (a : Addr) (foundWork : Bool) (x : Pairing)
  /-- In `FuseCopyResponse` with the response `p`: `cur` holds the packet `q`
      that is named, and follows `prev`. -/
  | matched (p q : Pirp) (a : Addr) (prev : Option Addr) (cur : Addr)
  /-- `FuseCheckForWork` has returned `FALSE` for the module packet. -/
  | unpaired (p : Pirp)
deriving DecidableEq, Repr

namespace Pc

/-- The packet the thread was called with, while no other thread knows of it. -/
def carried : Pc → Option Pirp
  | called j _ => j.irp
  | found j _ _ => j.irp
  | appending j _ _ => j.irp
  | matched p _ _ _ _ => some p
  | _ => none

/-- The packet on a list that the thread has still to lock and mark, or may
    have to. -/
def window : Pc → Option Pirp
  | queued j _ => j.irp
  | pairing inFlight _ false => inFlight
  | paired inFlight _ false _ => inFlight
  | unpaired p => some p
  | _ => none

/-- The packet of its own that the thread accesses in its next step. -/
def own : Pc → Option Pirp
  | called j _ => j.irp
  | found j _ _ => j.irp
  | queued (.userspace p) _ => some p
  | matched p _ _ _ _ => some p
  | unpaired p => some p
  | _ => none

/-- The module the thread has a pointer to. -/
def module : Pc → Option Addr
  | found _ _ a => some a
  | appending _ a _ => some a
  | queued _ a => some a
  | marked a => some a
  | pairing _ a _ => some a
  | paired _ a _ _ => some a
  | matched _ _ a _ _ => some a
  | _ => none

/-- The thread is about to work on the lists of the module at `a`, where it has
    read to do so. -/
def inside (a : Addr) : Pc → Bool
  | appending _ b _ => b == a
  | paired _ b _ _ => b == a
  | matched _ _ b _ _ => b == a
  | _ => false

theorem module_of_inside {pc : Pc} {a : Addr} (h : pc.inside a = true) : pc.module = some a := by
  cases pc <;> simp_all [inside, module]

/-- The thread is about to call `FuseCheckForWork`. -/
def checks : Pc → Option (Option Pirp × Addr)
  | queued (.request p) a => some (some p, a)
  | marked a => some (none, a)
  | _ => none

/-- Where a thread is after `FuseCheckForWork`: only a module packet without
    work is marked pending then. -/
def afterCheck (inFlight : Option Pirp) (foundWork : Bool) : Pc :=
  match inFlight with
  | some p => if foundWork then idle else unpaired p
  | none => idle

end Pc

/-- The driver and its threads, and the `MODULE_STRUCT`s that were deleted. -/
structure Kernel (T : Type) where
  driver : Driver
  pc : T → Pc
  deleted : List Addr

/-- The steps; `node` and `a` are addresses the pool returns. -/
inductive KernelCall (T : Type) where
  | mount (p : Pirp) (irp : Irp) (a : Addr)
  | call (t : T) (j : Job) (f : Pfile) (irp : Irp)
  | lookup (t : T)
  | append (t : T)
  | store (t : T) (node : Addr)
  | mark (t : T)
  | check (t : T)
  | round (t : T)
  | pair (t : T)
  | leave (t : T)
  | respond (t : T)
  | answer (t : T)
  | dismount (t : T)
  | cancel (p : Pirp)

/-- The packets an event is about. -/
def Event.packets : Event → List Pirp
  | queuedUserspace p => [p]
  | queuedModule p => [p]
  | delivered u m => [u, m]
  | completed p => [p]

/-- The history has something about the packet. -/
def Mentions (log : List Event) (q : Pirp) : Prop := ∃ e ∈ log, q ∈ e.packets

namespace Kernel

variable {T : Type}

/-- No module is mounted and nothing has happened. -/
def start (T : Type) (w : World) : Kernel T where
  driver := ⟨{ w with strHashC := 0, log := [] }, fun _ => none, Table.empty, 0⟩
  pc := fun _ => .idle
  deleted := []

/-- `p` names a packet that was not there before. -/
def Unused (s : Kernel T) (p : Pirp) : Prop :=
  (∀ t, (s.pc t).carried ≠ some p) ∧ ¬ Mentions s.driver.world.log p

/-- No other thread than `t` works on the lists of the module at `a`. -/
def Alone (s : Kernel T) (t : T) (a : Addr) : Prop := ∀ t', t' ≠ t → (s.pc t').inside a = false

/-- `IoCompleteRequest`. -/
def complete (d : Driver) (p : Pirp) : Driver := { d with world := d.world.complete p }

/-- The module at `a` works. -/
def work (d : Driver) (a : Addr) (w : World) (ms : ModuleStruct) : Driver :=
  { d.setModule a (some ms) with world := w }

variable [DecidableEq T]

/-- The thread `t` goes on, with the driver `d`. -/
def go (s : Kernel T) (t : T) (pc : Pc) (d : Driver) : Kernel T :=
  { s with driver := d, pc := fun t' => if t' = t then pc else s.pc t' }

end Kernel

/-- The name a routine looks up, if the name of the file object is long enough
    for it to look one up at all. -/
def Driver.lookupName (d : Driver) (f : Pfile) : Job → Option (List Wchar)
  | .userspace _ =>
      if 0 < (d.world.files f).length then some (fuseAllocateModuleName (d.world.files f).text)
      else none
  | .close => if 0 < (d.world.files f).length then some (d.nameOf f) else none
  | _ => if 1 < (d.world.files f).length then some (d.nameOf f) else none

/-- A routine that finds no module completes a userspace packet, and leaves a
    control packet alone. -/
def Driver.notFound (d : Driver) : Job → Driver
  | .userspace p => Kernel.complete d p
  | _ => d

/-- The append behind `last`, the tail pointer as it was read. -/
def appendAt (w : World) (ms : ModuleStruct) (p : Pirp) (b : Bool) (last : Option Addr) (a : Addr) :
    Option (World × ModuleStruct) := do
  let (heap, head) ← appendNode w.heap (ms.head b) last p a
  some ({ w with heap := heap, log := w.log ++ [.queued p b] },
    (ms.setHead head b).setTail (some a) b)

/-- The body of the loop of `FuseCheckForWork`, for the entries as they were
    read. -/
def pairTaken (w : World) (ms : ModuleStruct) (x : Pairing) : Option (World × ModuleStruct) :=
  if (w.irps x.userspaceIrp).cancel then do
    let uc ← w.heap x.userspaceEntry
    some (w, ms.popUserspace uc.next)
  else if (w.irps x.moduleIrp).cancel then do
    let mc ← w.heap x.moduleEntry
    some (w, ms.popModule mc.next)
  else
    match (w.irps x.userspaceIrp).currentStackLocation with
    | none => do
        let uc ← w.heap x.userspaceEntry
        some (w, ms.popUserspace uc.next)
    | some usp => do
        let msp ← (w.irps x.moduleIrp).currentStackLocation
        if reqSize w.files (w.irps x.userspaceIrp) usp ≤ msp.outputBufferLength then do
          let uc ← w.heap x.userspaceEntry
          let (w, ms) ← deliver w ms x.userspaceEntry ⟨x.userspaceIrp, uc.next⟩ usp x.moduleIrp
          finishModuleIrp w ms x.moduleEntry x.moduleIrp
        else finishModuleIrp w ms x.moduleEntry x.moduleIrp

section Steps

variable {T : Type} [DecidableEq T]

/-- The transitions. -/
inductive KernelStep : Kernel T → KernelCall T → Kernel T → Prop
  | mount {s : Kernel T} {p : Pirp} {irp : Irp} {sp : IoStackLocation} {a : Addr} {d : Driver}
      {status : NtStatus} (fuel : Nat) (unused : s.Unused p) (fresh : a ∉ s.deleted)
      (location : irp.currentStackLocation = some sp)
      (long : 1 < (s.driver.world.files sp.fileObject).length)
      (mount : mountModule fuel (s.driver.setIrp p irp) p sp a = some (d, status)) :
      KernelStep s (.mount p irp a) { s with driver := d }
  | call {s : Kernel T} {t : T} {j : Job} {p : Pirp} {f : Pfile} {irp : Irp}
      {sp : IoStackLocation} (idle : s.pc t = .idle) (packet : j.irp = some p)
      (unused : s.Unused p) (location : irp.currentStackLocation = some sp)
      (file : sp.fileObject = f) (suits : j.suits sp) :
      KernelStep s (.call t j f irp) (s.go t (.called j f) (s.driver.setIrp p irp))
  | callClose {s : Kernel T} {t : T} {f : Pfile} {irp : Irp} (idle : s.pc t = .idle) :
      KernelStep s (.call t .close f irp) (s.go t (.called .close f) s.driver)
  | lookup {s : Kernel T} {t : T} {j : Job} {f : Pfile} {name : List Wchar} {d : Driver} {a : Addr}
      (fuel : Nat) (here : s.pc t = .called j f) (named : s.driver.lookupName f j = some name)
      (get : s.driver.hmapGet fuel name = some (d, some a)) :
      KernelStep s (.lookup t) (s.go t (.found j f a) d)
  | lookupFails {s : Kernel T} {t : T} {j : Job} {f : Pfile} {d : Driver}
      (here : s.pc t = .called j f)
      (get : s.driver.lookupName f j = none ∧ d = s.driver ∨ ∃ name fuel,
        s.driver.lookupName f j = some name ∧ s.driver.hmapGet fuel name = some (d, none)) :
      KernelStep s (.lookup t) (s.go t .idle (d.notFound j))
  | appendUserspace {s : Kernel T} {t : T} {p : Pirp} {f : Pfile} {a : Addr} {ms : ModuleStruct}
      (here : s.pc t = .found (.userspace p) f a) (stored : s.driver.modules a = some ms) :
      KernelStep s (.append t) (s.go t (.appending (.userspace p) a (ms.tail false)) s.driver)
  | appendModule {s : Kernel T} {t : T} {p : Pirp} {f : Pfile} {a : Addr} {ms : ModuleStruct}
      {sp : IoStackLocation} (here : s.pc t = .found (.request p) f a)
      (stored : s.driver.modules a = some ms) (own : ms.moduleFileObject = f)
      (location : (s.driver.world.irps p).currentStackLocation = some sp)
      (accepted : moduleBufferOk (s.driver.world.irps p) sp = true) :
      KernelStep s (.append t) (s.go t (.appending (.request p) a (ms.tail true)) s.driver)
  | refuse {s : Kernel T} {t : T} {p : Pirp} {f : Pfile} {a : Addr} {ms : ModuleStruct}
      (here : s.pc t = .found (.request p) f a) (stored : s.driver.modules a = some ms)
      (why : ms.moduleFileObject ≠ f ∨ ∃ sp,
        (s.driver.world.irps p).currentStackLocation = some sp ∧
          moduleBufferOk (s.driver.world.irps p) sp = false) :
      KernelStep s (.append t) (s.go t .idle (Kernel.complete s.driver p))
  | store {s : Kernel T} {t : T} {j : Job} {p : Pirp} {a node : Addr} {last : Option Addr}
      {ms ms' : ModuleStruct} {w : World} (here : s.pc t = .appending j a last)
      (packet : j.irp = some p) (stored : s.driver.modules a = some ms)
      (add : appendAt s.driver.world ms p j.toModule last node = some (w, ms')) :
      KernelStep s (.store t node) (s.go t (.queued j a) (Kernel.work s.driver a w ms'))
  | markUserspace {s : Kernel T} {t : T} {p : Pirp} {a : Addr}
      (here : s.pc t = .queued (.userspace p) a) :
      KernelStep s (.mark t) (s.go t (.marked a) s.driver)
  | markModule {s : Kernel T} {t : T} {p : Pirp} (here : s.pc t = .unpaired p) :
      KernelStep s (.mark t) (s.go t .idle s.driver)
  | check {s : Kernel T} {t : T} {i : Option Pirp} {a : Addr} {ms : ModuleStruct}
      (here : (s.pc t).checks = some (i, a)) (stored : s.driver.modules a = some ms)
      (both : ms.moduleIrpList ≠ none ∧ ms.userspaceIrpList ≠ none) :
      KernelStep s (.check t) (s.go t (.pairing i a false) s.driver)
  | checkEmpty {s : Kernel T} {t : T} {i : Option Pirp} {a : Addr} {ms : ModuleStruct}
      (here : (s.pc t).checks = some (i, a)) (stored : s.driver.modules a = some ms)
      (empty : ms.moduleIrpList = none ∨ ms.userspaceIrpList = none) :
      KernelStep s (.check t) (s.go t (Pc.afterCheck i false) s.driver)
  | round {s : Kernel T} {t : T} {i : Option Pirp} {a : Addr} {found : Bool} {ms : ModuleStruct}
      {x : Pairing} {r r' : Option Addr} (here : s.pc t = .pairing i a found)
      (stored : s.driver.modules a = some ms) (head : ms.moduleIrpList = some x.moduleEntry)
      (userspaceHead : ms.userspaceIrpList = some x.userspaceEntry)
      (cell : s.driver.world.heap x.moduleEntry = some ⟨x.moduleIrp, r⟩)
      (userspaceCell : s.driver.world.heap x.userspaceEntry = some ⟨x.userspaceIrp, r'⟩) :
      KernelStep s (.round t)
        (s.go t (.paired i a (found || i == some x.moduleIrp) x) s.driver)
  | pair {s : Kernel T} {t : T} {i : Option Pirp} {a : Addr} {found : Bool} {x : Pairing}
      {ms ms' : ModuleStruct} {w : World} (here : s.pc t = .paired i a found x)
      (stored : s.driver.modules a = some ms)
      (pair : pairTaken s.driver.world ms x = some (w, ms')) :
      KernelStep s (.pair t) (s.go t (.pairing i a found) (Kernel.work s.driver a w ms'))
  | leave {s : Kernel T} {t : T} {i : Option Pirp} {a : Addr} {found : Bool} {ms : ModuleStruct}
      (here : s.pc t = .pairing i a found) (stored : s.driver.modules a = some ms)
      (empty : ms.moduleIrpList = none ∨ ms.userspaceIrpList = none) :
      KernelStep s (.leave t) (s.go t (Pc.afterCheck i found) s.driver)
  | respond {s : Kernel T} {t : T} {p : Pirp} {f : Pfile} {a cur : Addr} {prev : Option Addr}
      {ms : ModuleStruct} {sp : IoStackLocation} (fuel : Nat)
      (here : s.pc t = .found (.response p) f a) (stored : s.driver.modules a = some ms)
      (own : ms.moduleFileObject = f)
      (location : (s.driver.world.irps p).currentStackLocation = some sp)
      (fits : sizeofFusentResp ≤ sp.inputBufferLength)
      (search : findOutstanding s.driver.world.heap (respPirp (s.driver.world.irps p).systemBuffer)
        fuel none ms.outstandingIrpList = some (some (prev, cur))) :
      KernelStep s (.respond t)
        (s.go t (.matched p (respPirp (s.driver.world.irps p).systemBuffer) a prev cur) s.driver)
  | respondRefused {s : Kernel T} {t : T} {p : Pirp} {f : Pfile} {a : Addr} {ms : ModuleStruct}
      (here : s.pc t = .found (.response p) f a) (stored : s.driver.modules a = some ms)
      (why : ms.moduleFileObject ≠ f ∨
        (∃ sp, (s.driver.world.irps p).currentStackLocation = some sp ∧
          sp.inputBufferLength < sizeofFusentResp) ∨
        ∃ fuel, findOutstanding s.driver.world.heap
          (respPirp (s.driver.world.irps p).systemBuffer) fuel none ms.outstandingIrpList =
            some none) :
      KernelStep s (.respond t) (s.go t .idle (Kernel.complete s.driver p))
  | answer {s : Kernel T} {t : T} {p q : Pirp} {a cur : Addr} {prev : Option Addr}
      {ms ms' : ModuleStruct} {w : World} {status : NtStatus} (fuel : Nat)
      (here : s.pc t = .matched p q a prev cur) (stored : s.driver.modules a = some ms)
      (answer : answerOutstanding fuel s.driver.world ms prev cur q
        (s.driver.world.irps p).systemBuffer = some (w, ms', status)) :
      KernelStep s (.answer t)
        (s.go t .idle (Kernel.complete (Kernel.work s.driver a w ms') p))
  | dismount {s : Kernel T} {t : T} {f : Pfile} {a b : Addr} {ms : ModuleStruct} {d d' : Driver}
      (fuel : Nat) (here : s.pc t = .found .close f a) (stored : s.driver.modules a = some ms)
      (own : ms.moduleFileObject = f)
      (get : s.driver.hmapGet fuel (s.driver.nameOf f) = some (d', some b))
      (remove : s.driver.hmapRemove fuel (s.driver.nameOf f) = some (d, true)) :
      KernelStep s (.dismount t) { s.go t .idle d with deleted := b :: s.deleted }
  | dismountNone {s : Kernel T} {t : T} {f : Pfile} {a : Addr} {ms : ModuleStruct}
      (here : s.pc t = .found .close f a) (stored : s.driver.modules a = some ms)
      (why : ms.moduleFileObject ≠ f ∨
        ∃ fuel d', s.driver.hmapGet fuel (s.driver.nameOf f) = some (d', none)) :
      KernelStep s (.dismount t) (s.go t .idle s.driver)
  | cancel {s : Kernel T} (p : Pirp) :
      KernelStep s (.cancel p)
        { s with driver := { s.driver with world := s.driver.world.cancel p } }

end Steps

-- ============================================================================
-- Accesses
-- ============================================================================

/-- The packets of a list, as far as a walk of `fuel` nodes gets. -/
def walkList (h : Heap Pirp) : Nat → Option Addr → List Pirp
  | 0, _ => []
  | _ + 1, none => []
  | fuel + 1, some a =>
      match h a with
      | none => []
      | some c => c.val :: walkList h fuel c.next

/-- A packet on one of the three lists of a module. -/
def Listed (w : World) (ms : ModuleStruct) (q : Pirp) : Prop :=
  ∃ fuel, q ∈ walkList w.heap fuel ms.moduleIrpList ∨
    q ∈ walkList w.heap fuel ms.userspaceIrpList ∨ q ∈ walkList w.heap fuel ms.outstandingIrpList

/-- The packet is at the head of a queue. -/
def AtHead (w : World) (head : Option Addr) (q : Pirp) : Prop :=
  ∃ a c, head = some a ∧ w.heap a = some c ∧ c.val = q

namespace Kernel

variable {T : Type} (s : Kernel T)

/-- A round of the pairing loop completes the module packet it has taken:
    neither packet is cancelled, and the request has a stack location. -/
def HandsOver (w : World) (x : Pairing) : Prop :=
  (w.irps x.moduleIrp).cancel = false ∧ (w.irps x.userspaceIrp).cancel = false ∧
    (w.irps x.userspaceIrp).currentStackLocation ≠ none

/-- The condition on a step.  While a thread stores into the lists of a module,
    no other thread is between its reads and its stores there.  A round does not
    complete a module packet whose dispatcher, another thread, may still mark
    it.  A response is one that `ReplyOk` allows, and the packet it answers was
    marked.  When a module is deleted its outstanding list ends, its packets
    were marked, and no other thread has a pointer to it. -/
def OnTime (l : KernelCall T) : Prop :=
  match l with
  | .store t _ => ∀ j a last, s.pc t = .appending j a last → s.Alone t a
  | .pair t => ∀ i a b x, s.pc t = .paired i a b x → s.Alone t a ∧
      (HandsOver s.driver.world x → ∀ t', t' ≠ t → (s.pc t').window ≠ some x.moduleIrp)
  | .respond t => ∀ p f a ms, s.pc t = .found (.response p) f a →
      s.driver.modules a = some ms → ms.moduleFileObject = f →
      ReplyOk s.driver.world ms (respPirp (s.driver.world.irps p).systemBuffer)
  | .answer t => ∀ p q a prev cur, s.pc t = .matched p q a prev cur → s.Alone t a ∧
      ((s.driver.world.irps q).cancel = false → ∀ t', (s.pc t').window ≠ some q)
  | .dismount t => ∀ f a ms fuel d b ms', s.pc t = .found .close f a →
      s.driver.modules a = some ms → ms.moduleFileObject = f →
      s.driver.hmapGet fuel (s.driver.nameOf f) = some (d, some b) →
      s.driver.modules b = some ms' →
      OutstandingEnds s.driver.world ms' ∧
      (∀ q, Listed s.driver.world ms' q → ∀ t', (s.pc t').window ≠ some q) ∧
      ∀ t', t' ≠ t → (s.pc t').module ≠ some b
  | _ => True

end Kernel

-- ============================================================================
-- The history
-- ============================================================================

section History

variable {log evs : List Event} {q : Pirp}

theorem mentions_append : Mentions (log ++ evs) q ↔ Mentions log q ∨ Mentions evs q := by
  simp only [Mentions, List.mem_append, or_and_right, exists_or]

theorem mentions_of_completed (h : .completed q ∈ log) : Mentions log q :=
  ⟨_, h, List.mem_singleton_self q⟩

theorem mentions_completed {l : List Pirp} : Mentions (l.map .completed) q ↔ q ∈ l := by
  constructor
  · rintro ⟨e, he, hq⟩
    obtain ⟨r, hr, rfl⟩ := List.mem_map.mp he
    rwa [List.mem_singleton.mp hq]
  · intro hq
    exact mentions_of_completed (List.mem_map_of_mem hq)

/-- A packet that waits is known. -/
theorem mentions_of_completions {k : Nat} (h : completions log q = some k) : Mentions log q := by
  by_contra hnot
  have hnone : completions log q = none := by
    clear h
    induction log using List.reverseRecOn with
    | nil => rfl
    | append_singleton log e ih =>
        rw [mentions_append, not_or] at hnot
        have he : q ∉ e.packets := fun he => hnot.2 ⟨e, List.mem_singleton_self e, he⟩
        rw [completions_concat, ih hnot.1]
        cases e with
        | queuedUserspace p => simpa [countCompletion, Event.packets, eq_comm] using he
        | queuedModule p => simpa [countCompletion, Event.packets, eq_comm] using he
        | delivered u m => rfl
        | completed p => simp [countCompletion]
  rw [hnone] at h
  contradiction

/-- Packets are put on lists. -/
def Event.queues : Event → Bool
  | queuedUserspace _ => true
  | queuedModule _ => true
  | _ => false

/-- A packet that was completed, and not queued after that, does not wait. -/
theorem completions_ne_zero (hq : ∀ e ∈ evs, e.queues = false) (h : .completed q ∈ evs) :
    completions (log ++ evs) q ≠ some 0 := by
  induction evs using List.reverseRecOn with
  | nil => simp at h
  | append_singleton evs e ih =>
      have hrest := ih fun e' he' => hq e' (List.mem_append_left _ he')
      have he : e.queues = false := hq e (by simp)
      rw [← List.append_assoc, completions_concat]
      by_cases hc : e = .completed q
      · subst hc
        cases completions (log ++ evs) q <;> simp [countCompletion]
      · have hmem : .completed q ∈ evs := by
          rcases List.mem_append.mp h with h | h
          · exact h
          · exact absurd (List.mem_singleton.mp h).symm hc
        cases e with
        | queuedUserspace p => simp [Event.queues] at he
        | queuedModule p => simp [Event.queues] at he
        | delivered u m => exact hrest hmem
        | completed p =>
            have hp : p ≠ q := fun hp => hc (by rw [hp])
            simpa [countCompletion, hp] using hrest hmem

end History

-- ============================================================================
-- The invariant
-- ============================================================================

/-- What the threads can rely on: a packet that a thread has still to mark is
    not completed, and a packet that it was called with and has not queued yet
    is known to no one else. -/
structure ThreadsOk {T : Type} (log : List Event) (pc : T → Pc) : Prop where
  window : ∀ t q, (pc t).window = some q → .completed q ∉ log ∧ Mentions log q
  carried : ∀ t q, (pc t).carried = some q → ¬ Mentions log q
  apart : ∀ t t' q, (pc t).carried = some q → (pc t').carried = some q → t = t'

namespace ThreadsOk

variable {T : Type} {log evs : List Event} {pc : T → Pc} {t : T} {q : Pirp}

theorem window_ne (h : ThreadsOk log pc) (hq : (pc t).carried = some q) (t' : T) :
    (pc t').window ≠ some q :=
  fun hw => h.carried t q hq (h.window t' q hw).2

/-- The accesses to packets of their own are in time. -/
theorem own (h : ThreadsOk log pc) (hq : (pc t).own = some q) : .completed q ∉ log := by
  have hcases : (pc t).carried = some q ∨ (pc t).window = some q := by
    cases hpc : pc t with
    | queued j a =>
        rw [hpc] at hq
        cases j <;> simp [Pc.own] at hq
        exact Or.inr (by simpa [Pc.window, Job.irp] using hq)
    | unpaired p =>
        rw [hpc] at hq
        exact Or.inr hq
    | called j f =>
        rw [hpc] at hq
        exact Or.inl hq
    | found j f a =>
        rw [hpc] at hq
        exact Or.inl hq
    | matched p q' a prev cur =>
        rw [hpc] at hq
        exact Or.inl hq
    | _ =>
        rw [hpc] at hq
        simp [Pc.own] at hq
  rcases hcases with hc | hw
  · exact fun hm => h.carried t q hc (mentions_of_completed hm)
  · exact (h.window t q hw).1

/-- A packet is completed that no thread knows of. -/
theorem unrelated (h : ThreadsOk log pc) (hc : ∀ t, (pc t).carried ≠ some q)
    (hq : ¬ Mentions log q) : ThreadsOk (log ++ [.completed q]) pc := by
  refine ⟨fun t q' hw => ?_, fun t q' hq' hm => ?_, h.apart⟩
  · obtain ⟨hnot, hm⟩ := h.window t q' hw
    rw [List.mem_append, not_or, mentions_append]
    refine ⟨⟨hnot, fun hd => hq ?_⟩, Or.inl hm⟩
    obtain rfl : q' = q := by simpa using hd
    exact hm
  · rcases mentions_append.mp hm with hm | hm
    · exact h.carried t q' hq' hm
    · obtain rfl : q' = q := by simpa [Mentions, Event.packets] using hm
      exact hc t hq'

variable [DecidableEq T]

/-- An idle thread is called with a packet that was not there before. -/
theorem call (h : ThreadsOk log pc) (hc : ∀ t, (pc t).carried ≠ some q) (hq : ¬ Mentions log q)
    (pc' : Pc) (hw : pc'.window = none) (hc' : pc'.carried = some q) :
    ThreadsOk log fun t' => if t' = t then pc' else pc t' := by
  refine ⟨fun t' q' hwin => ?_, fun t' q' hcar => ?_, fun t₁ t₂ q' h₁ h₂ => ?_⟩
  · split at hwin
    · rw [hw] at hwin
      contradiction
    · exact h.window t' q' hwin
  · split at hcar
    · obtain rfl : q = q' := Option.some.inj (hc'.symm.trans hcar)
      exact hq
    · exact h.carried t' q' hcar
  · split at h₁
    · split at h₂
      · rename_i ht₁ ht₂
        rw [ht₁, ht₂]
      · exact absurd (h₂.trans (h₁.symm.trans hc')) (hc t₂)
    · split at h₂
      · exact absurd (h₁.trans (h₂.symm.trans hc')) (hc t₁)
      · exact h.apart t₁ t₂ q' h₁ h₂

/-- The thread `t` takes a step to `pc'` in which `evs` happens. -/
theorem go (h : ThreadsOk log pc) (pc' : Pc)
    (hknown : ∀ q, Mentions evs q → (pc t).carried = some q ∨ Mentions log q)
    (hdone : ∀ q, .completed q ∈ evs → ∀ t', t' ≠ t → (pc t').window ≠ some q)
    (hwindow : ∀ q, pc'.window = some q → .completed q ∉ evs ∧
      ((pc t).window = some q ∨ Mentions evs q ∧ (pc t).carried = some q))
    (hcarried : ∀ q, pc'.carried = some q → (pc t).carried = some q ∧ ¬ Mentions evs q) :
    ThreadsOk (log ++ evs) fun t' => if t' = t then pc' else pc t' := by
  have hold : ∀ t' q, (if t' = t then pc' else pc t').carried = some q →
      (pc t').carried = some q := by
    intro t' q hq
    split at hq
    · rename_i ht
      rw [ht]
      exact (hcarried q hq).1
    · exact hq
  refine ⟨fun t' q hq => ?_, fun t' q hq hm => ?_, fun t₁ t₂ q h₁ h₂ =>
    h.apart t₁ t₂ q (hold t₁ q h₁) (hold t₂ q h₂)⟩
  · rw [List.mem_append, not_or, mentions_append]
    split at hq
    · obtain ⟨hevs, hw | ⟨hm, hc⟩⟩ := hwindow q hq
      · exact ⟨⟨(h.window t q hw).1, hevs⟩, Or.inl (h.window t q hw).2⟩
      · exact ⟨⟨fun hd => h.carried t q hc (mentions_of_completed hd), hevs⟩, Or.inr hm⟩
    · rename_i ht
      obtain ⟨hnot, hm⟩ := h.window t' q hq
      exact ⟨⟨hnot, fun hd => hdone q hd t' ht hq⟩, Or.inl hm⟩
  · have hc := hold t' q hq
    rcases mentions_append.mp hm with hm | hm
    · exact h.carried t' q hc hm
    · by_cases ht : t' = t
      · rw [if_pos ht] at hq
        exact (hcarried q hq).2 hm
      · rcases hknown q hm with hown | hlog
        · exact ht (h.apart t' t q hc hown)
        · exact h.carried t' q hc hlog

/-- The thread `t` goes on without anything happening to packets. -/
theorem stay (h : ThreadsOk log pc) (pc' : Pc)
    (hwindow : ∀ q, pc'.window = some q → (pc t).window = some q)
    (hcarried : ∀ q, pc'.carried = some q → (pc t).carried = some q) :
    ThreadsOk log fun t' => if t' = t then pc' else pc t' := by
  have hnone : ∀ q, ¬ Mentions [] q := by simp [Mentions]
  have hgo : ThreadsOk (log ++ []) fun t' => if t' = t then pc' else pc t' :=
    h.go pc' (fun q hq => absurd hq (hnone q)) (by simp)
      (fun q hq => ⟨by simp, Or.inl (hwindow q hq)⟩) (fun q hq => ⟨hcarried q hq, hnone q⟩)
  rwa [List.append_nil] at hgo

/-- The thread `t` completes its packet and returns. -/
theorem completes (h : ThreadsOk log pc) (hq : (pc t).carried = some q) :
    ThreadsOk (log ++ [.completed q]) fun t' => if t' = t then .idle else pc t' := by
  refine h.go _ (fun q' hm => Or.inl ?_) (fun q' hd t' _ => ?_) (by simp [Pc.window])
    (by simp [Pc.carried])
  · simp only [Mentions, List.mem_singleton, exists_eq_left, Event.packets] at hm
    rw [hm, hq]
  · obtain rfl : q' = q := by simpa using hd
    exact h.window_ne hq t'

end ThreadsOk

/-- While the tail pointer is still the one that was read, the append is that of
    one thread alone. -/
theorem appendAt_tail (w : World) (ms : ModuleStruct) (p : Pirp) (b : Bool) (a : Addr) :
    appendAt w ms p b (ms.tail b) a = appendIrp w ms p b a := by
  cases b <;> rfl

/-- What a thread has read of the lists of `x` is still so, and it has noticed if
    it has taken its own packet. -/
def Mounted.Current (x : Mounted) : Pc → Prop
  | .appending j _ last => last = x.ms.tail j.toModule
  | .paired i _ found y => (found = false → i ≠ some y.moduleIrp) ∧
      ∃ U M, x.U = (y.userspaceEntry, y.userspaceIrp) :: U ∧
        x.M = (y.moduleEntry, y.moduleIrp) :: M
  | .matched _ q _ prev cur => ∃ O₁ O₂, Found x.O x.nxt q O₁ cur O₂ ∧ prev = lastAddr O₁
  | _ => True

/-- The modules `xs` are mounted and not deleted, among them those the threads
    have pointers to, and the packets on their lists are not completed. -/
structure KernelInv {T : Type} (s : Kernel T) (xs : List Mounted) (n : Nat) : Prop where
  fleet : Fleet s.driver xs
  registered : Registered s.driver.map xs n
  alive : ∀ x ∈ xs, x.addr ∉ s.deleted
  held : ∀ t a, (s.pc t).module = some a → ∃ x ∈ xs, x.addr = a
  waiting : ∀ q ∈ xs.flatMap Mounted.packets, .completed q ∉ s.driver.world.log
  threads : ThreadsOk s.driver.world.log s.pc
  current : ∀ t, ∀ x ∈ xs, (s.pc t).inside x.addr = true → x.Current (s.pc t)

namespace KernelInv

variable {T : Type} {s : Kernel T} {xs pre post : List Mounted} {x x' : Mounted} {n : Nat} {t : T}
  {p q : Pirp} {a : Addr}

theorem mentions (hi : KernelInv s xs n) (hq : q ∈ xs.flatMap Mounted.packets) :
    Mentions s.driver.world.log q :=
  mentions_of_completions (hi.fleet.owned.waiting q hq)

/-- The packet a thread was called with is on no list. -/
theorem not_listed (hi : KernelInv s xs n) (hq : (s.pc t).carried = some q) :
    q ∉ xs.flatMap Mounted.packets :=
  fun hm => hi.threads.carried t q hq (hi.mentions hm)

/-- What `hmap_get` finds is mounted. -/
theorem lookup (hi : KernelInv s xs n) {fuel : Nat} {name : List Wchar} {d : Driver}
    {found : Option Addr} (hget : s.driver.hmapGet fuel name = some (d, found)) :
    d = s.driver ∧ ∀ b, found = some b → ∃ x ∈ xs, x.addr = b := by
  obtain ⟨rfl, hcase⟩ := hmapGet_spec hi.fleet.static hi.registered hget
  refine ⟨rfl, fun b hb => ?_⟩
  rcases hcase with ⟨rfl, -⟩ | ⟨pre, x, post, rfl, hx⟩
  · contradiction
  · exact ⟨x, by rw [hx.split]; simp, Option.some.inj hb⟩

/-- The module a thread has a pointer to is in memory. -/
theorem mounted (hi : KernelInv s xs n) (ha : (s.pc t).module = some a) {ms : ModuleStruct}
    (hms : s.driver.modules a = some ms) : ∃ x ∈ xs, x.addr = a ∧ x.ms = ms := by
  obtain ⟨x, hx, rfl⟩ := hi.held t a ha
  exact ⟨x, hx, rfl, Option.some.inj ((hi.fleet.stored x hx).symm.trans hms)⟩

/-- The packets' contents do not matter. -/
theorem irrelevant (hi : KernelInv s xs n) (irps : Pirp → Irp) :
    KernelInv { s with
      driver := { s.driver with world := { s.driver.world with irps := irps } } } xs n :=
  ⟨hi.fleet.irrelevant irps s.driver.world.files s.driver.map s.driver.size, hi.registered, hi.alive, hi.held,
    hi.waiting, hi.threads, hi.current⟩

/-- A module is mounted, at an address that was not used before. -/
theorem mount (hi : KernelInv s xs n) {fuel : Nat} {sp : IoStackLocation} {d : Driver}
    {status : NtStatus} (hunused : s.Unused p) (hfresh : a ∉ s.deleted)
    (hmount : mountModule fuel s.driver p sp a = some (d, status)) :
    KernelInv { s with driver := d }
      (xs ++ [Mounted.fresh a (s.driver.nameOf sp.fileObject) sp.fileObject]) (n + 1) := by
  unfold mountModule at hmount
  simp only at hmount
  split at hmount
  · contradiction
  rename_i hfree
  obtain ⟨d₁, hadd, hmount⟩ := Option.bind_eq_some_iff.mp hmount
  obtain ⟨rfl, -⟩ := Prod.mk.inj (Option.some.inj hmount)
  have hfleet := hi.fleet.mount (not_not.mp hfree) (s.driver.nameOf sp.fileObject) sp.fileObject
  obtain ⟨m, rfl, hreg⟩ := hmapAdd_spec (d := s.driver.setModule a _)
    (x := Mounted.fresh a (s.driver.nameOf sp.fileObject) sp.fileObject) hfleet.static
    hi.registered hadd
  have hpackets : (xs ++ [Mounted.fresh a (s.driver.nameOf sp.fileObject)
      sp.fileObject]).flatMap Mounted.packets = xs.flatMap Mounted.packets := by
    simp [Mounted.fresh, Mounted.packets]
  have hnot : p ∉ xs.flatMap Mounted.packets := fun hm => hunused.2 (hi.mentions hm)
  refine ⟨(hfleet.irrelevant _ _ m _).complete (by rw [hpackets]; exact hnot), hreg, fun x hx => ?_,
    fun t b hb => ?_, fun q hq hd => ?_, hi.threads.unrelated hunused.1 hunused.2,
    fun t x hx hin => ?_⟩
  · rcases List.mem_append.mp hx with hx | hx
    · exact hi.alive x hx
    · rw [List.mem_singleton.mp hx]
      exact hfresh
  · obtain ⟨x, hx, rfl⟩ := hi.held t b hb
    exact ⟨x, List.mem_append_left _ hx, rfl⟩
  · rw [hpackets] at hq
    rcases List.mem_append.mp hd with hd | hd
    · exact hi.waiting q hq hd
    · obtain rfl : q = p := by simpa using hd
      exact hnot hq
  · rcases List.mem_append.mp hx with hx | hx
    · exact hi.current t x hx hin
    · -- no thread can have a pointer to memory that was free
      obtain rfl := List.mem_singleton.mp hx
      obtain ⟨y, hy, hya⟩ := hi.held t a (Pc.module_of_inside hin)
      have hstored := hi.fleet.stored y hy
      rw [hya, not_not.mp hfree] at hstored
      contradiction

variable [DecidableEq T]

/-- Where a thread has a pointer after one thread has taken a step. -/
theorem held_go (hi : KernelInv s xs n) (pc' : Pc)
    (hmodule : ∀ a, pc'.module = some a → ∃ x ∈ xs, x.addr = a) (t' : T) {a : Addr}
    (ha : (if t' = t then pc' else s.pc t').module = some a) : ∃ x ∈ xs, x.addr = a := by
  split at ha
  · exact hmodule a ha
  · exact hi.held t' a ha

/-- What the threads have read after one thread has taken a step. -/
theorem current_go (hi : KernelInv s xs n) {pc' : Pc}
    (hcurrent : ∀ x ∈ xs, pc'.inside x.addr = true → x.Current pc') (t' : T) (hx : x ∈ xs)
    (hin : (if t' = t then pc' else s.pc t').inside x.addr = true) :
    x.Current (if t' = t then pc' else s.pc t') := by
  split at hin
  · rename_i ht
    rw [if_pos ht]
    exact hcurrent x hx hin
  · rename_i ht
    rw [if_neg ht]
    exact hi.current t' x hx hin

/-- A step that changes nothing but where the thread is. -/
theorem stay (hi : KernelInv s xs n) (pc' : Pc)
    (hmodule : ∀ a, pc'.module = some a → ∃ x ∈ xs, x.addr = a)
    (hwindow : ∀ q, pc'.window = some q → (s.pc t).window = some q)
    (hcarried : ∀ q, pc'.carried = some q → (s.pc t).carried = some q)
    (hcurrent : ∀ x ∈ xs, pc'.inside x.addr = true → x.Current pc') :
    KernelInv (s.go t pc' s.driver) xs n :=
  ⟨hi.fleet, hi.registered, hi.alive, fun t' _ ha => hi.held_go pc' hmodule t' ha, hi.waiting,
    hi.threads.stay pc' hwindow hcarried, fun t' _ hx hin => hi.current_go hcurrent t' hx hin⟩

/-- The thread completes its packet and returns. -/
theorem completes (hi : KernelInv s xs n) (hq : (s.pc t).carried = some q) :
    KernelInv (s.go t .idle (Kernel.complete s.driver q)) xs n := by
  have hnot := hi.not_listed hq
  refine ⟨hi.fleet.complete hnot, hi.registered, hi.alive,
    fun t' _ ha => hi.held_go .idle (by simp [Pc.module]) t' ha, fun q' hq' hd => ?_,
    hi.threads.completes hq,
    fun t' _ hx hin => hi.current_go (by simp [Pc.inside]) t' hx hin⟩
  rcases List.mem_append.mp hd with hd | hd
  · exact hi.waiting q' hq' hd
  · obtain rfl : q' = q := by simpa using hd
    exact hnot hq'

/-- A module works, for a thread that is alone there; its new packets were
    unknown. -/
theorem work {us ps : List Pirp} {evs : List Event} {w' : World} (hi : KernelInv s xs n)
    (hx : x ∈ xs) (hl : Local us ps s.driver.world x w' x')
    (hlog : w'.log = s.driver.world.log ++ evs)
    (hnew : ∀ q, q ∈ us ∨ q ∈ ps → ¬ Mentions s.driver.world.log q)
    (hwait : ∀ q, .completed q ∈ evs → completions w'.log q ≠ some 0) (pc' : Pc)
    (hmodule : ∀ b, pc'.module = some b → (s.pc t).module = some b)
    (halone : s.Alone t x.addr) (hout : ∀ b, pc'.inside b = false)
    (hthreads : ThreadsOk w'.log fun t' => if t' = t then pc' else s.pc t') :
    ∃ xs', KernelInv (s.go t pc' (Kernel.work s.driver x.addr w' x'.ms)) xs' n := by
  obtain ⟨pre, post, rfl⟩ := List.append_of_mem hx
  have hfleet := hi.fleet.update hl
  have haddr : ∀ b, (∃ y ∈ pre ++ x :: post, y.addr = b) → ∃ y ∈ pre ++ x' :: post, y.addr = b := by
    rintro b ⟨y, hy, rfl⟩
    rcases List.mem_cons.mp (List.perm_middle.mem_iff.mp hy) with rfl | hy
    · exact ⟨x', by simp, hl.addr⟩
    · exact ⟨y, Fleet.mem_other hy, rfl⟩
  refine ⟨pre ++ x' :: post, hfleet, ?_, fun y hy => ?_, fun t' b hb => haddr b ?_,
    fun q hq hd => ?_, hthreads, fun t' y hy hin => ?_⟩
  · have hr := hi.registered
    unfold Registered at hr ⊢
    rw [show (pre ++ x' :: post).map Mounted.binding = (pre ++ x :: post).map Mounted.binding by
      simp [Mounted.binding, hl.addr, hl.name]]
    exact hr
  · rcases List.mem_cons.mp (List.perm_middle.mem_iff.mp hy) with rfl | hy
    · rw [hl.addr]
      exact hi.alive x hx
    · exact hi.alive y (Fleet.mem_other hy)
  · exact hi.held_go pc' (fun b hb => hi.held t b (hmodule b hb)) t' hb
  · have hold : q ∈ (pre ++ x :: post).flatMap Mounted.packets ∨ q ∈ us ∨ q ∈ ps := by
      rcases List.mem_append.mp (Fleet.packets_middle.mem_iff.mp hq) with hq | hq
      · simp only [Mounted.packets, packets, List.mem_append, or_assoc] at hq
        have hmem : ∀ q, q ∈ vals x.U ∨ q ∈ vals x.M ∨ q ∈ vals x.O →
            q ∈ (pre ++ x :: post).flatMap Mounted.packets := fun q hq => SysInv.mem_packets hx hq
        rcases hq with hq | hq | hq
        · exact (hl.user q hq).imp (fun h => hmem q (Or.inl h)) Or.inl
        · exact (hl.module q hq).imp (fun h => hmem q (Or.inr (Or.inl h))) Or.inr
        · rcases hl.out q hq with h | h | h
          · exact Or.inl (hmem q (Or.inr (Or.inr h)))
          · exact Or.inl (hmem q (Or.inl h))
          · exact Or.inr (Or.inl h)
      · exact Or.inl (Fleet.packets_middle.mem_iff.mpr (List.mem_append_right _ hq))
    have hd : .completed q ∈ w'.log := hd
    rw [hlog] at hd
    rcases List.mem_append.mp hd with hd | hd
    · rcases hold with hq | hq
      · exact hi.waiting q hq hd
      · exact hnew q hq (mentions_of_completed hd)
    · exact hwait q hd (hfleet.owned.waiting q hq)
  · rcases List.mem_cons.mp (List.perm_middle.mem_iff.mp hy) with rfl | hy
    · have hin : (if t' = t then pc' else s.pc t').inside y.addr = true := hin
      split at hin
      · rw [hout] at hin
        contradiction
      · rename_i ht
        rw [hl.addr, halone t' ht] at hin
        contradiction
    · refine hi.current_go (fun _ _ h => ?_) t' (Fleet.mem_other hy) hin
      rw [hout] at h
      contradiction

/-- A packet is queued by the thread that was called with it. -/
theorem store (hi : KernelInv s xs n) (hx : x ∈ xs) {j : Job} (hj : j.irp = some p)
    {last : Option Addr} (here : s.pc t = .appending j x.addr last) (halone : s.Alone t x.addr)
    {node : Addr} {w' : World} {ms' : ModuleStruct}
    (hadd : appendAt s.driver.world x.ms p j.toModule last node = some (w', ms')) :
    ∃ xs', KernelInv (s.go t (.queued j x.addr) (Kernel.work s.driver x.addr w' ms')) xs' n := by
  have hcarried : (s.pc t).carried = some p := by
    rw [here]
    exact hj
  have hnot := hi.threads.carried t p hcarried
  have hp : completions s.driver.world.log p ≠ some 0 := fun h => hnot (mentions_of_completions h)
  -- the tail pointer is still the one that was read
  have hlast : x.Current (s.pc t) := hi.current t x hx (by rw [here]; simp [Pc.inside])
  rw [here] at hlast
  obtain rfl : last = x.ms.tail j.toModule := hlast
  rw [appendAt_tail] at hadd
  obtain ⟨⟨x', rfl, hl⟩, hlog⟩ := appendIrp_local (hi.fleet.sound x hx) hp hadd
  obtain ⟨e, hlog, hpk, hqueues⟩ : ∃ e : Event, w'.log = s.driver.world.log ++ [e] ∧
      e.packets = [p] ∧ e.queues = true := by
    cases hb : j.toModule with
    | false => exact ⟨.queuedUserspace p, by simpa [hb] using hlog, rfl, rfl⟩
    | true => exact ⟨.queuedModule p, by simpa [hb] using hlog, rfl, rfl⟩
  have hment : ∀ q, Mentions [e] q ↔ q = p := by simp [Mentions, hpk]
  have hdone : ∀ q, .completed q ∉ [e] := by
    intro q hq
    rw [← List.mem_singleton.mp hq] at hqueues
    simp [Event.queues] at hqueues
  refine hi.work hx hl hlog (fun q hq => ?_) (fun q hq => absurd hq (hdone q)) _
    (fun b hb => by rw [here]; exact hb) halone (fun _ => rfl) ?_
  · obtain rfl : q = p := by
      cases hb : j.toModule <;> simpa [hb] using hq
    exact hnot
  · rw [hlog]
    refine hi.threads.go _ (fun q hq => Or.inl ?_) (fun q hq => absurd hq (hdone q))
      (fun q hq => ⟨hdone q, Or.inr ⟨(hment q).mpr ?_, ?_⟩⟩) (by simp [Pc.carried])
    · rw [(hment q).mp hq, hcarried]
    · exact Option.some.inj (hq.symm.trans hj)
    · rw [hcarried]
      exact hj.symm.trans hq

end KernelInv

-- ============================================================================
-- Rounds and responses
-- ============================================================================

/-- A null-terminated queue begins with the cell its head points to. -/
theorem queue_eq_cons {h : Heap Pirp} {head tail r : Option Addr} {l : List Entry} {a : Addr}
    {p : Pirp} (hq : Queue h head tail l none) (hhead : head = some a)
    (hc : h a = some ⟨p, r⟩) : l = (a, p) :: l.tail := by
  cases l with
  | nil => exact absurd (hq.seg.head_eq.symm.trans hhead) (by simp)
  | cons y rest =>
      obtain ⟨hh, hcell⟩ := hq.head_cell
      obtain rfl : y.1 = a := Option.some.inj (hh.symm.trans hhead)
      have hp : y.2 = p := congrArg Cell.val (Option.some.inj (hcell.symm.trans hc))
      rw [List.tail_cons, ← hp]

/-- A search that `ReplyOk` allows finds the packet on the outstanding list. -/
theorem ReplyOk.found {w : World} {ms : ModuleStruct} {U M O : List Entry} {nxt : Option Addr}
    {p : Pirp} {fuel : Nat} {prev : Option Addr} {cur : Addr} (hok : ReplyOk w ms p)
    (hr : Rep w.heap ms U M O nxt)
    (hfind : findOutstanding w.heap p fuel none ms.outstandingIrpList = some (some (prev, cur))) :
    ∃ O₁ O₂, Found O nxt p O₁ cur O₂ ∧ prev = lastAddr O₁ := by
  rcases hok.safe hr with ⟨O₁, a, O₂, hfound⟩ | ⟨l, hseg, hnot⟩
  · have hout := hr.out.seg
    rw [hfound.split] at hout
    have heq := findOutstanding_split hout hfound.first hfind
    rw [Option.or_none, Option.some.injEq, Prod.mk.injEq] at heq
    obtain ⟨rfl, rfl⟩ := heq
    exact ⟨O₁, O₂, hfound, rfl⟩
  · exact absurd (findOutstanding_not_mem hseg hnot hfind) (by simp)

/-- While the entries are still at the heads, the body of the loop is a round. -/
theorem pairTaken_eq {w : World} {ms : ModuleStruct} {U M O : List Entry} {nxt : Option Addr}
    {x : Pairing} (hr : Rep w.heap ms ((x.userspaceEntry, x.userspaceIrp) :: U)
      ((x.moduleEntry, x.moduleIrp) :: M) O nxt) : pairTaken w ms x = pairHead w ms := by
  obtain ⟨hm, hmc⟩ := hr.module.head_cell
  obtain ⟨hu, huc⟩ := hr.user.head_cell
  cases husp : (w.irps x.userspaceIrp).currentStackLocation <;>
    simp [pairTaken, pairHead, hm, hu, hmc, huc, husp]

/-- What a round of the pairing loop adds to the history: if the module packet
    is handed over it is completed, and no other packet is. -/
theorem pairHead_events {w w' : World} {ms ms' : ModuleStruct} {U M O : List Entry}
    {nxt : Option Addr} {x : Pairing}
    (hr : Rep w.heap ms ((x.userspaceEntry, x.userspaceIrp) :: U)
      ((x.moduleEntry, x.moduleIrp) :: M) O nxt) (hp : pairHead w ms = some (w', ms')) :
    ∃ evs, w'.log = w.log ++ evs ∧ (∀ e ∈ evs, e.queues = false) ∧
      (∀ q, Mentions evs q → q = x.userspaceIrp ∨ q = x.moduleIrp) ∧
      ∀ q, .completed q ∈ evs → q = x.moduleIrp ∧ Kernel.HandsOver w x := by
  cases pairHead_round hr hp with
  | dropUserspace _ hw _ =>
      subst hw
      exact ⟨[], by simp, by simp, by simp [Mentions], by simp⟩
  | dropModule _ _ hw _ =>
      subst hw
      exact ⟨[], by simp, by simp, by simp [Mentions], by simp⟩
  | deliver usp msp ws h' hcu hcm husp _ _ _ hw _ _ _ =>
      subst hw
      refine ⟨[.delivered x.userspaceIrp x.moduleIrp, .completed x.moduleIrp], rfl,
        by simp [Event.queues], ?_, ?_⟩
      · intro q hq
        simp [Mentions, Event.packets] at hq
        grind
      · intro q hq
        exact ⟨by simpa using hq, hcm, hcu, by simp [husp]⟩
  | bounce usp msp h' hcu hcm husp _ _ hw _ _ _ =>
      subst hw
      refine ⟨[.completed x.moduleIrp], rfl, by simp [Event.queues], ?_, ?_⟩
      · intro q hq
        simp [Mentions, Event.packets] at hq
        exact Or.inr hq
      · intro q hq
        exact ⟨by simpa using hq, hcm, hcu, by simp [husp]⟩

/-- A response that stays within the outstanding list completes the packet it
    names if that is not cancelled, and no other packet. -/
theorem Reply.events {w w' : World} {ms ms' : ModuleStruct} {U M O : List Entry}
    {nxt : Option Addr} {ok : Prop} {p : Pirp} {msg : Mem} {status : NtStatus}
    (h : Reply w ms U M O nxt ok p msg w' ms' status) :
    ∃ evs, w'.log = w.log ++ evs ∧ (∀ e ∈ evs, e.queues = false) ∧
      (∀ q, Mentions evs q → q ∈ vals O) ∧
      ∀ q, .completed q ∈ evs → q = p ∧ (w.irps p).cancel = false := by
  cases h with
  | rejected hw _ _ =>
      subst hw
      exact ⟨[], by simp, by simp, by simp [Mentions], by simp⟩
  | dropped O₁ a O₂ _ _ _ hw _ =>
      subst hw
      exact ⟨[], by simp, by simp, by simp [Mentions], by simp⟩
  | answered O₁ a O₂ h' usp fuel' irp' c hfound hlive _ _ hw _ _ _ =>
      subst hw
      obtain ⟨rfl, -, -⟩ := hfound
      refine ⟨[.completed p], rfl, by simp [Event.queues], ?_, ?_⟩
      · intro q hq
        simp [Mentions, Event.packets] at hq
        simp [hq]
      · intro q hq
        exact ⟨by simpa using hq, hlive⟩

theorem AtHead.mem {w : World} {head tail : Option Addr} {l : List Entry} {q : Pirp}
    (h : AtHead w head q) (hq : Queue w.heap head tail l none) : q ∈ vals l := by
  obtain ⟨a, c, rfl, hc, rfl⟩ := h
  cases l with
  | nil => exact absurd hq.seg.head_eq (by simp)
  | cons x rest =>
      obtain ⟨hhead, hcell⟩ := hq.head_cell
      obtain rfl : a = x.1 := Option.some.inj hhead
      rw [← Option.some.inj (hcell.symm.trans hc)]
      exact List.mem_cons_self ..

theorem walkList_eq {h : Heap Pirp} {head : Option Addr} {l : List Entry}
    (hs : Seg h head l none) (fuel : Nat) : walkList h fuel head = (vals l).take fuel := by
  induction fuel generalizing head l with
  | zero => rw [walkList, List.take_zero]
  | succ fuel ih =>
      cases l with
      | nil =>
          rw [seg_nil] at hs
          rw [hs, walkList]
          rfl
      | cons x rest =>
          obtain ⟨rfl, nxt, hc, hrest⟩ := seg_cons.mp hs
          rw [walkList, hc]
          show x.2 :: walkList h fuel nxt = _
          rw [ih hrest]
          rfl

theorem mem_walkList {h : Heap Pirp} {head : Option Addr} {l : List Entry} {q : Pirp}
    (hs : Seg h head l none) : (∃ fuel, q ∈ walkList h fuel head) ↔ q ∈ vals l := by
  simp only [walkList_eq hs]
  constructor
  · rintro ⟨fuel, hq⟩
    exact List.mem_of_mem_take hq
  · intro hq
    exact ⟨(vals l).length, by rwa [List.take_length]⟩

/-- A module whose outstanding list ends lists the packets of its three lists. -/
theorem listed_iff {w : World} {ms : ModuleStruct} {U M O : List Entry} {q : Pirp}
    (hr : Rep w.heap ms U M O none) :
    Listed w ms q ↔ q ∈ vals M ∨ q ∈ vals U ∨ q ∈ vals O := by
  simp only [Listed, exists_or, mem_walkList hr.module.seg, mem_walkList hr.user.seg,
    mem_walkList hr.out.seg]

-- ============================================================================
-- Every step keeps the invariant
-- ============================================================================

section Steps

variable {T : Type} [DecidableEq T] {s s' : Kernel T} {xs : List Mounted} {x : Mounted} {n : Nat}
  {t : T} {p : Pirp} {a : Addr} {f : Pfile}

theorem Kernel.go_go (s : Kernel T) (t : T) (pc pc' : Pc) (d d' : Driver) :
    (s.go t pc d).go t pc' d' = s.go t pc' d' := by
  simp only [Kernel.go]
  congr 1
  funext t'
  split <;> rfl

theorem Kernel.go_same (s : Kernel T) (t : T) (pc : Pc) (d : Driver) : (s.go t pc d).pc t = pc :=
  if_pos rfl

omit [DecidableEq T] in
/-- The entries that a thread takes are at the heads of the queues. -/
theorem KernelInv.taken (hi : KernelInv s xs n) (hx : x ∈ xs) {y : Pairing} {r r' : Option Addr}
    (hm : x.ms.moduleIrpList = some y.moduleEntry)
    (hu : x.ms.userspaceIrpList = some y.userspaceEntry)
    (hmc : s.driver.world.heap y.moduleEntry = some ⟨y.moduleIrp, r⟩)
    (huc : s.driver.world.heap y.userspaceEntry = some ⟨y.userspaceIrp, r'⟩) :
    ∃ U M, x.U = (y.userspaceEntry, y.userspaceIrp) :: U ∧
      x.M = (y.moduleEntry, y.moduleIrp) :: M := by
  have hsound := hi.fleet.sound x hx
  refine ⟨x.U.tail, x.M.tail, queue_eq_cons hsound.user hu huc, queue_eq_cons hsound.module hm hmc⟩

/-- The body of the pairing loop. -/
theorem KernelInv.pair (hi : KernelInv s xs n) {i : Option Pirp} {found : Bool} {y : Pairing}
    {ms ms' : ModuleStruct} {w : World} (here : s.pc t = .paired i a found y)
    (hms : s.driver.modules a = some ms)
    (hpair : pairTaken s.driver.world ms y = some (w, ms')) (hok : s.OnTime (.pair t)) :
    ∃ xs', KernelInv (s.go t (.pairing i a found) (Kernel.work s.driver a w ms')) xs' n := by
  obtain ⟨halone, hmarked⟩ := hok i a found y here
  obtain ⟨x, hx, rfl, rfl⟩ := hi.mounted (t := t) (by rw [here]; rfl) hms
  have hcurrent : x.Current (s.pc t) := hi.current t x hx (by rw [here]; simp [Pc.inside])
  rw [here] at hcurrent
  obtain ⟨hfound, U, M, hU, hM⟩ := hcurrent
  have hsound := hi.fleet.sound x hx
  have hrep : Rep s.driver.world.heap x.ms ((y.userspaceEntry, y.userspaceIrp) :: U)
      ((y.moduleEntry, y.moduleIrp) :: M) x.O x.nxt := by
    rw [← hU, ← hM]
    exact hsound
  rw [pairTaken_eq hrep] at hpair
  obtain ⟨evs, hlog, hqueues, hknown, hdone⟩ := pairHead_events hrep hpair
  obtain ⟨x', rfl, hl⟩ := pairHead_local hsound hpair
  refine hi.work hx hl hlog (by simp) (fun q hq => ?_) _ (fun b hb => by rw [here]; exact hb)
    halone (fun _ => rfl) ?_
  · rw [hlog]
    exact completions_ne_zero hqueues hq
  · rw [hlog]
    refine hi.threads.go _ (fun q hq => Or.inr (hi.mentions (SysInv.mem_packets hx ?_)))
      (fun q hq t' ht' => ?_) (fun q hq => ?_) (by simp [Pc.carried])
    · rw [hU, hM]
      rcases hknown q hq with rfl | rfl
      · exact Or.inl (List.mem_cons_self ..)
      · exact Or.inr (Or.inl (List.mem_cons_self ..))
    · obtain ⟨rfl, hhands⟩ := hdone q hq
      exact hmarked hhands t' ht'
    · -- the thread still waits for its packet, which is then not the one it has taken
      cases found with
      | true => simp [Pc.window] at hq
      | false =>
          have hiq : i = some q := hq
          refine ⟨fun hd => hfound rfl ?_, Or.inl (by rw [here]; exact hiq)⟩
          rw [hiq, (hdone q hd).1]

/-- The work on the entry that a response names. -/
theorem KernelInv.answer (hi : KernelInv s xs n) {q : Pirp} {cur : Addr} {prev : Option Addr}
    {ms ms' : ModuleStruct} {w : World} {status : NtStatus} {fuel : Nat}
    (here : s.pc t = .matched p q a prev cur) (hms : s.driver.modules a = some ms)
    (hanswer : answerOutstanding fuel s.driver.world ms prev cur q
      (s.driver.world.irps p).systemBuffer = some (w, ms', status)) (hok : s.OnTime (.answer t)) :
    ∃ xs', KernelInv (s.go t .idle (Kernel.complete (Kernel.work s.driver a w ms') p)) xs' n := by
  obtain ⟨halone, hmarked⟩ := hok p q a prev cur here
  have hcarried : (s.pc t).carried = some p := by rw [here]; rfl
  obtain ⟨x, hx, rfl, rfl⟩ := hi.mounted (t := t) (by rw [here]; rfl) hms
  have hcurrent : x.Current (s.pc t) := hi.current t x hx (by rw [here]; simp [Pc.inside])
  rw [here] at hcurrent
  obtain ⟨O₁, O₂, hfound, rfl⟩ := hcurrent
  have hsound := hi.fleet.sound x hx
  have hreply := answerOutstanding_spec trivial hsound hfound hanswer
  obtain ⟨evs, hlog, hqueues, hknown, hdone⟩ := hreply.events
  obtain ⟨⟨x', rfl, hl⟩, -⟩ := hreply.local hsound (answerOutstanding_keeps hanswer)
  have hlisted : ∀ q, Mentions evs q → q ∈ xs.flatMap Mounted.packets := fun q hq =>
    SysInv.mem_packets hx (Or.inr (Or.inr (hknown q hq)))
  -- the module works first, then the thread's own packet is completed
  obtain ⟨xs', hi'⟩ := hi.work (t := t) hx hl hlog (by simp)
    (fun q hq => by rw [hlog]; exact completions_ne_zero hqueues hq) (.called (.response p) 0)
    (by simp [Pc.module]) halone (fun _ => rfl) (by
      rw [hlog]
      refine hi.threads.go _ (fun q hq => Or.inr (hi.mentions (hlisted q hq)))
        (fun q hq t' _ => ?_) (by simp [Pc.window])
        (fun q hq => ?_)
      · obtain ⟨rfl, hlive⟩ := hdone q hq
        exact hmarked hlive t'
      · have hpq : (s.pc t).carried = some q := hcarried.trans hq
        exact ⟨hpq, fun hm => hi.not_listed hpq (hlisted q hm)⟩)
  have := hi'.completes (t := t) (q := p) (by rw [Kernel.go_same]; rfl)
  rw [Kernel.go_go] at this
  exact ⟨xs', this⟩

omit [DecidableEq T] in
/-- What `hmap_get` finds under a name, `hmap_remove` deletes. -/
theorem KernelInv.removed (hi : KernelInv s xs n) {fuel : Nat} {name : List Wchar} {d d' : Driver}
    {b : Addr} (hget : s.driver.hmapGet fuel name = some (d', some b))
    (hrem : s.driver.hmapRemove fuel name = some (d, true)) :
    ∃ pre x post w m, xs = pre ++ x :: post ∧ x.addr = b ∧
      moduleStructDelete fuel s.driver.world x.ms = some w ∧
      d = { s.driver.setModule x.addr none with world := w, map := m } ∧
      Registered m (pre ++ post) n := by
  obtain ⟨-, ⟨hnone, -⟩ | ⟨pre₁, x₁, post₁, hfound, hx₁⟩⟩ :=
    hmapGet_spec hi.fleet.static hi.registered hget
  · contradiction
  rcases hmapRemove_spec hi.fleet.static hi.registered hi.fleet.stored hrem with
    ⟨-, hall⟩ | ⟨pre, x, post, w, m, hx, hdel, hd, hreg⟩
  · exact absurd hx₁.named (hall x₁ (by rw [hx₁.split]; simp))
  · have hsame : x.registration = x₁.registration :=
      Option.some.inj (hx.registrationOf_eq.symm.trans hx₁.registrationOf_eq)
    refine ⟨pre, x, post, w, m, hx.split, ?_, hdel, hd, hreg⟩
    rw [Option.some.inj hfound]
    exact congrArg (fun r => r.2.1) hsame

/-- A dismount. -/
theorem KernelInv.dismount (hi : KernelInv s xs n) {b : Addr} {ms : ModuleStruct} {d d' : Driver}
    {fuel : Nat} (here : s.pc t = .found .close f a) (hms : s.driver.modules a = some ms)
    (hown : ms.moduleFileObject = f)
    (hget : s.driver.hmapGet fuel (s.driver.nameOf f) = some (d', some b))
    (hrem : s.driver.hmapRemove fuel (s.driver.nameOf f) = some (d, true))
    (hok : s.OnTime (.dismount t)) :
    ∃ xs', KernelInv { s.go t .idle d with deleted := b :: s.deleted } xs' n := by
  obtain ⟨pre, x, post, w, m, rfl, rfl, hdel, rfl, hreg⟩ := hi.removed hget hrem
  have hx : x ∈ pre ++ x :: post := by simp
  obtain ⟨hends, hmarked, hfree⟩ :=
    hok f a ms fuel d' x.addr x.ms here hms hown hget (hi.fleet.stored x hx)
  have hsound := hi.fleet.sound x hx
  have hnext : x.nxt = none := hsound.next_eq_none hends
  have hrep : Rep s.driver.world.heap x.ms x.U x.M x.O none := hnext ▸ hsound
  have hfleet := (hi.fleet.dismount hnext hdel).irrelevant w.irps w.files m s.driver.size
  obtain ⟨hlog, -⟩ := moduleStructDelete_spec hrep hdel
  have hevs : ∀ q, Mentions ((vals x.M ++ vals x.U ++ vals x.O).map .completed) q ↔
      Listed s.driver.world x.ms q := by
    intro q
    rw [listed_iff hrep, mentions_completed, List.mem_append, List.mem_append, or_assoc]
  have hdone : ∀ q, .completed q ∈ (vals x.M ++ vals x.U ++ vals x.O).map Event.completed →
      Listed s.driver.world x.ms q := fun q hq => (hevs q).mp (mentions_of_completed hq)
  refine ⟨pre ++ post, hfleet, hreg, fun y hy => ?_, fun t' c hc => ?_, fun q hq hd => ?_, ?_,
    fun t' y hy hin => ?_⟩
  · rw [List.mem_cons, not_or]
    exact ⟨(hi.fleet.others hy).1, hi.alive y (Fleet.mem_other hy)⟩
  · have ht' : t' ≠ t := by
      rintro rfl
      simp [Kernel.go, Pc.module] at hc
    have hc' : (s.pc t').module = some c := by simpa [Kernel.go, ht'] using hc
    obtain ⟨y, hy, rfl⟩ := hi.held t' c hc'
    rcases List.mem_cons.mp (List.perm_middle.mem_iff.mp hy) with rfl | hy
    · exact absurd hc' (hfree t' ht')
    · exact ⟨y, hy, rfl⟩
  · have hd : .completed q ∈ w.log := hd
    have hwait : completions w.log q = some 0 := hfleet.owned.waiting q hq
    rw [hlog] at hd hwait
    rcases List.mem_append.mp hd with hd | hd
    · refine hi.waiting q (Fleet.packets_middle.mem_iff.mpr (List.mem_append_right _ hq)) hd
    · refine completions_ne_zero (fun e he => ?_) hd hwait
      obtain ⟨r, -, rfl⟩ := List.mem_map.mp he
      rfl
  · show ThreadsOk w.log _
    rw [hlog]
    refine hi.threads.go _ (fun q hq => Or.inr (hi.mentions (SysInv.mem_packets hx ?_)))
      (fun q hq t' _ => hmarked q (hdone q hq) t') (by simp [Pc.window]) (by simp [Pc.carried])
    have := (listed_iff hrep).mp ((hevs q).mp hq)
    tauto
  · exact hi.current_go (by simp [Pc.inside]) t' (Fleet.mem_other hy) hin

end Steps

-- ============================================================================
-- Runs on given inputs
-- ============================================================================

section Exec

variable {T : Type} [DecidableEq T] [Fintype T]

instance (log : List Event) (q : Pirp) : Decidable (Mentions log q) :=
  inferInstanceAs (Decidable (∃ e ∈ log, q ∈ e.packets))

instance (s : Kernel T) (p : Pirp) : Decidable (s.Unused p) :=
  inferInstanceAs (Decidable ((∀ t, (s.pc t).carried ≠ some p) ∧ ¬ Mentions s.driver.world.log p))

instance (s : Kernel T) (t : T) (a : Addr) : Decidable (s.Alone t a) :=
  inferInstanceAs (Decidable (∀ t', t' ≠ t → (s.pc t').inside a = false))

instance (sp : IoStackLocation) : (j : Job) → Decidable (j.suits sp)
  | .userspace _ => inferInstanceAs (Decidable True)
  | .request _ => inferInstanceAs (Decidable (sp.fsControlCode = irpFuseModuleRequest))
  | .response _ => inferInstanceAs (Decidable (sp.fsControlCode = irpFuseModuleResponse))
  | .close => inferInstanceAs (Decidable True)

/-- A step as a function, where no routine refuses its packet; `fuel` bounds the
    searches. -/
def Kernel.exec (fuel : Nat) (s : Kernel T) : KernelCall T → Option (Kernel T)
  | .mount p irp a => do
      let sp ← irp.currentStackLocation
      guard (s.Unused p ∧ a ∉ s.deleted ∧ 1 < (s.driver.world.files sp.fileObject).length)
      let (d, _) ← mountModule fuel (s.driver.setIrp p irp) p sp a
      some { s with driver := d }
  | .call t j f irp => do
      let p ← j.irp
      let sp ← irp.currentStackLocation
      guard (s.pc t = .idle ∧ s.Unused p ∧ sp.fileObject = f ∧ j.suits sp)
      some (s.go t (.called j f) (s.driver.setIrp p irp))
  | .lookup t =>
      match s.pc t with
      | .called j f => do
          let name ← s.driver.lookupName f j
          let (d, found) ← s.driver.hmapGet fuel name
          let a ← found
          some (s.go t (.found j f a) d)
      | _ => none
  | .append t =>
      match s.pc t with
      | .found (.userspace p) _ a => do
          let ms ← s.driver.modules a
          some (s.go t (.appending (.userspace p) a (ms.tail false)) s.driver)
      | .found (.request p) f a => do
          let ms ← s.driver.modules a
          let sp ← (s.driver.world.irps p).currentStackLocation
          guard (ms.moduleFileObject = f ∧ moduleBufferOk (s.driver.world.irps p) sp = true)
          some (s.go t (.appending (.request p) a (ms.tail true)) s.driver)
      | _ => none
  | .store t node =>
      match s.pc t with
      | .appending j a last => do
          let p ← j.irp
          let ms ← s.driver.modules a
          let (w, ms') ← appendAt s.driver.world ms p j.toModule last node
          some (s.go t (.queued j a) (Kernel.work s.driver a w ms'))
      | _ => none
  | .mark t =>
      match s.pc t with
      | .queued (.userspace _) a => some (s.go t (.marked a) s.driver)
      | .unpaired _ => some (s.go t .idle s.driver)
      | _ => none
  | .check t => do
      let (i, a) ← (s.pc t).checks
      let ms ← s.driver.modules a
      guard (ms.moduleIrpList ≠ none ∧ ms.userspaceIrpList ≠ none)
      some (s.go t (.pairing i a false) s.driver)
  | .round t =>
      match s.pc t with
      | .pairing i a found => do
          let ms ← s.driver.modules a
          let me ← ms.moduleIrpList
          let ue ← ms.userspaceIrpList
          let mc ← s.driver.world.heap me
          let uc ← s.driver.world.heap ue
          some (s.go t (.paired i a (found || i == some mc.val) ⟨me, mc.val, ue, uc.val⟩) s.driver)
      | _ => none
  | .pair t =>
      match s.pc t with
      | .paired i a found x => do
          let ms ← s.driver.modules a
          let (w, ms') ← pairTaken s.driver.world ms x
          some (s.go t (.pairing i a found) (Kernel.work s.driver a w ms'))
      | _ => none
  | .leave t =>
      match s.pc t with
      | .pairing i a found => do
          let ms ← s.driver.modules a
          guard (ms.moduleIrpList = none ∨ ms.userspaceIrpList = none)
          some (s.go t (Pc.afterCheck i found) s.driver)
      | _ => none
  | .respond t =>
      match s.pc t with
      | .found (.response p) f a => do
          let ms ← s.driver.modules a
          let sp ← (s.driver.world.irps p).currentStackLocation
          guard (ms.moduleFileObject = f ∧ sizeofFusentResp ≤ sp.inputBufferLength)
          let entry ← findOutstanding s.driver.world.heap
            (respPirp (s.driver.world.irps p).systemBuffer) fuel none ms.outstandingIrpList
          let (prev, cur) ← entry
          some (s.go t (.matched p (respPirp (s.driver.world.irps p).systemBuffer) a prev cur)
            s.driver)
      | _ => none
  | .answer t =>
      match s.pc t with
      | .matched p q a prev cur => do
          let ms ← s.driver.modules a
          let (w, ms', _) ← answerOutstanding fuel s.driver.world ms prev cur q
            (s.driver.world.irps p).systemBuffer
          some (s.go t .idle (Kernel.complete (Kernel.work s.driver a w ms') p))
      | _ => none
  | .dismount t =>
      match s.pc t with
      | .found .close f a => do
          let ms ← s.driver.modules a
          guard (ms.moduleFileObject = f)
          let (_, found) ← s.driver.hmapGet fuel (s.driver.nameOf f)
          let b ← found
          let (d, removed) ← s.driver.hmapRemove fuel (s.driver.nameOf f)
          guard (removed = true)
          some { s.go t .idle d with deleted := b :: s.deleted }
      | _ => none
  | .cancel p => some { s with driver := { s.driver with world := s.driver.world.cancel p } }

variable {s s' : Kernel T} {l : KernelCall T} {fuel : Nat}

/-- The function takes steps of the relation. -/
theorem exec_sound (h : s.exec fuel l = some s') : KernelStep s l s' := by
  cases l with
  | mount p irp a =>
      simp only [Kernel.exec, Option.bind_eq_bind, Option.bind_eq_some_iff,
        Option.guard_eq_some', Option.some.injEq] at h
      obtain ⟨sp, hsp, -, ⟨hunused, hfresh, hlong⟩, ⟨d, status⟩, hmount, rfl⟩ := h
      exact .mount fuel hunused hfresh hsp hlong hmount
  | call t j f irp =>
      simp only [Kernel.exec, Option.bind_eq_bind, Option.bind_eq_some_iff,
        Option.guard_eq_some', Option.some.injEq] at h
      obtain ⟨p, hp, sp, hsp, -, ⟨hidle, hunused, hfile, hsuits⟩, rfl⟩ := h
      exact .call hidle hp hunused hsp hfile hsuits
  | lookup t =>
      simp only [Kernel.exec] at h
      split at h
      case h_1 j f here =>
        simp only [Option.bind_eq_bind, Option.bind_eq_some_iff, Option.some.injEq] at h
        obtain ⟨name, hname, ⟨d, _⟩, hget, a, rfl, rfl⟩ := h
        exact .lookup fuel here hname hget
      case h_2 => contradiction
  | append t =>
      simp only [Kernel.exec] at h
      split at h
      case h_1 p f a here =>
        simp only [Option.bind_eq_bind, Option.bind_eq_some_iff, Option.some.injEq] at h
        obtain ⟨ms, hms, rfl⟩ := h
        exact .appendUserspace here hms
      case h_2 p f a here =>
        simp only [Option.bind_eq_bind, Option.bind_eq_some_iff, Option.guard_eq_some',
          Option.some.injEq] at h
        obtain ⟨ms, hms, sp, hsp, -, ⟨hown, hacc⟩, rfl⟩ := h
        exact .appendModule here hms hown hsp hacc
      case h_3 => contradiction
  | store t node =>
      simp only [Kernel.exec] at h
      split at h
      case h_1 j a last here =>
        simp only [Option.bind_eq_bind, Option.bind_eq_some_iff, Option.some.injEq] at h
        obtain ⟨p, hp, ms, hms, ⟨w, ms'⟩, hadd, rfl⟩ := h
        exact .store here hp hms hadd
      case h_2 => contradiction
  | mark t =>
      simp only [Kernel.exec] at h
      split at h
      case h_1 p a here =>
        cases h
        exact .markUserspace here
      case h_2 p here =>
        cases h
        exact .markModule here
      case h_3 => contradiction
  | check t =>
      simp only [Kernel.exec, Option.bind_eq_bind, Option.bind_eq_some_iff,
        Option.guard_eq_some', Option.some.injEq] at h
      obtain ⟨⟨i, a⟩, here, ms, hms, -, hboth, rfl⟩ := h
      exact .check here hms hboth
  | round t =>
      simp only [Kernel.exec] at h
      split at h
      case h_1 i a found here =>
        simp only [Option.bind_eq_bind, Option.bind_eq_some_iff, Option.some.injEq] at h
        obtain ⟨ms, hms, me, hme, ue, hue, ⟨m, r⟩, hmc, ⟨u, r'⟩, huc, rfl⟩ := h
        exact .round (x := ⟨me, m, ue, u⟩) here hms hme hue hmc huc
      case h_2 => contradiction
  | pair t =>
      simp only [Kernel.exec] at h
      split at h
      case h_1 i a found x here =>
        simp only [Option.bind_eq_bind, Option.bind_eq_some_iff, Option.some.injEq] at h
        obtain ⟨ms, hms, ⟨w, ms'⟩, hpair, rfl⟩ := h
        exact .pair here hms hpair
      case h_2 => contradiction
  | leave t =>
      simp only [Kernel.exec] at h
      split at h
      case h_1 i a found here =>
        simp only [Option.bind_eq_bind, Option.bind_eq_some_iff, Option.guard_eq_some',
          Option.some.injEq] at h
        obtain ⟨ms, hms, -, hempty, rfl⟩ := h
        exact .leave here hms hempty
      case h_2 => contradiction
  | respond t =>
      simp only [Kernel.exec] at h
      split at h
      case h_1 p f a here =>
        simp only [Option.bind_eq_bind, Option.bind_eq_some_iff, Option.guard_eq_some',
          Option.some.injEq] at h
        obtain ⟨ms, hms, sp, hsp, -, ⟨hown, hfits⟩, _, hfind, ⟨prev, cur⟩, rfl, rfl⟩ := h
        exact .respond fuel here hms hown hsp hfits hfind
      case h_2 => contradiction
  | answer t =>
      simp only [Kernel.exec] at h
      split at h
      case h_1 p q a prev cur here =>
        simp only [Option.bind_eq_bind, Option.bind_eq_some_iff, Option.some.injEq] at h
        obtain ⟨ms, hms, ⟨w, ms', status⟩, hanswer, rfl⟩ := h
        exact .answer fuel here hms hanswer
      case h_2 => contradiction
  | dismount t =>
      simp only [Kernel.exec] at h
      split at h
      case h_1 f a here =>
        simp only [Option.bind_eq_bind, Option.bind_eq_some_iff, Option.guard_eq_some',
          Option.some.injEq] at h
        obtain ⟨ms, hms, -, hown, ⟨d', _⟩, hget, b, rfl, ⟨d, _⟩, hrem, -, rfl, rfl⟩ := h
        exact .dismount fuel here hms hown hget hrem
      case h_2 => contradiction
  | cancel p =>
      simp only [Kernel.exec, Option.some.injEq] at h
      subst h
      exact .cancel p

end Exec

end FuseNt
