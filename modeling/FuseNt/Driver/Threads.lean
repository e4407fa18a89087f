/-
  FuseNt.Driver.Threads

  Threads that dispatch packets to one module at the same time.

  `ScopedExLock(&ModuleStruct->ModuleLock);` gives the guard no name.  It is a
  temporary, destroyed at the semicolon, so the mutex is free again before the
  first statement it was to protect: the append of `FuseAddIrpToModuleList`
  and the loop of `FuseCheckForWork` run without it.  A step here is one test
  or one statement of theirs, and the steps of the threads mix in any order.

  A thread returns only after it has read a null head, so the two heads are
  never both set when all threads have returned.  The rest needs what the
  mutex was to ensure (`Exclusive`): while one thread is in the middle of an
  append or of a round, no other thread begins or continues one.  Then the
  lists stay well formed, and every round of a loop takes an entry off a queue.
-/

import FuseNt.Driver.Dispatch
import FuseNt.Lib.Replay

namespace FuseNt

open FuseNt.Lib

-- ============================================================================
-- Statements about the lists
-- ============================================================================

namespace ModuleStruct

/-- The head pointer of the module queue, or of the userspace queue (`false`). -/
def head (ms : ModuleStruct) : Bool → Option Addr
  | true => ms.moduleIrpList
  | false => ms.userspaceIrpList

/-- The tail pointer of a queue. -/
def tail (ms : ModuleStruct) : Bool → Option Addr
  | true => ms.moduleIrpListEnd
  | false => ms.userspaceIrpListEnd

def setHead (ms : ModuleStruct) (p : Option Addr) : Bool → ModuleStruct
  | true => { ms with moduleIrpList := p }
  | false => { ms with userspaceIrpList := p }

def setTail (ms : ModuleStruct) (p : Option Addr) : Bool → ModuleStruct
  | true => { ms with moduleIrpListEnd := p }
  | false => { ms with userspaceIrpListEnd := p }

/-- Nothing is in the queue: the append goes by the tail pointer, the loop by
    the head pointer. -/
def Empty (ms : ModuleStruct) (b : Bool) : Prop := ms.head b = none ∧ ms.tail b = none

end ModuleStruct

/-- A statement that stores into the lists. -/
inductive ListStmt where
  /-- `LastEntry->Irp = Irp` -/
  | setIrp (entry : Addr) (p : Pirp)
  /-- `LastEntry->Next = NULL` -/
  | clearNext (entry : Addr)
  /-- `ModuleIrpListEnd = LastEntry` -/
  | setEnd (b : Bool) (entry : Addr)
  /-- `ModuleIrpList = ModuleIrpListEntry->Next` -/
  | popHead (b : Bool) (entry : Addr)
  /-- `if (!ModuleIrpList) ModuleIrpListEnd = NULL` -/
  | popEnd (b : Bool)
  /-- The entry becomes the last outstanding one. -/
  | addOutstanding (entry : Addr)
  | freeEntry (entry : Addr)
deriving DecidableEq, Repr

/-- What a statement does; `none` where it accesses memory that is not
    allocated. -/
def ListStmt.exec (h : Heap Pirp) (ms : ModuleStruct) :
    ListStmt → Option (Heap Pirp × ModuleStruct)
  | setIrp entry p => (h entry).map fun c => (h.set entry (some ⟨p, c.next⟩), ms)
  | clearNext entry => (h.setNext entry none).map fun h => (h, ms)
  | setEnd b entry => some (h, ms.setTail (some entry) b)
  | popHead b entry => (h entry).map fun c => (h, ms.setHead c.next b)
  | popEnd b => some (h, if ms.head b = none then ms.setTail none b else ms)
  | addOutstanding entry =>
      match ms.outstandingIrpListEnd with
      | some last =>
          (h.setNext last (some entry)).map fun h =>
            (h, { ms with outstandingIrpListEnd := some entry })
      | none =>
          some (h, { ms with
            outstandingIrpList := some entry, outstandingIrpListEnd := some entry })
  | freeEntry entry => if h entry = none then none else some (h.free entry, ms)

/-- Statements in a row. -/
def execStmts : List ListStmt → Heap Pirp → ModuleStruct → Option (Heap Pirp × ModuleStruct)
  | [], h, ms => some (h, ms)
  | st :: rest, h, ms => (st.exec h ms).bind fun r => execStmts rest r.1 r.2

/-- The last statements of an append. -/
def fillIn (b : Bool) (entry : Addr) (p : Pirp) : List ListStmt :=
  [.setIrp entry p, .clearNext entry, .setEnd b entry]

/-- The statements that take an entry off a queue. -/
def takeOff (b : Bool) (entry : Addr) : List ListStmt := [.popHead b entry, .popEnd b]

/-- `LastEntry->Next`, or the head where `LastEntry` is null, becomes the node
    the pool allocates at `a`, with whatever was left there. -/
def linkEntry (h : Heap Pirp) (ms : ModuleStruct) (b : Bool) (last : Option Addr) (a : Addr)
    (left : Cell Pirp) : Option (Heap Pirp × ModuleStruct) :=
  if h a ≠ none then none
  else
    match last with
    | none => some (h.set a (some left), ms.setHead (some a) b)
    | some e => ((h.set a (some left)).setNext e (some a)).map fun h => (h, ms)

/-- `LastEntry` is read back from where the new node was linked. -/
def linkedEntry (h : Heap Pirp) (ms : ModuleStruct) (b : Bool) : Option Addr → Option Addr
  | none => ms.head b
  | some e => (h e).bind Cell.next

section Stmts

variable {h : Heap Pirp} {ms : ModuleStruct} {b : Bool} {a : Addr} {c : Cell Pirp}

theorem execStmts_append (l l' : List ListStmt) (h : Heap Pirp) (ms : ModuleStruct) :
    execStmts (l ++ l') h ms = (execStmts l h ms).bind fun r => execStmts l' r.1 r.2 := by
  induction l generalizing h ms with
  | nil => rfl
  | cons st rest ih =>
      simp only [List.cons_append, execStmts, Option.bind_assoc]
      congr 1
      funext r
      exact ih r.1 r.2

theorem execStmts_takeOff_userspace (ms : ModuleStruct) (hc : h a = some c) :
    execStmts (takeOff false a) h ms = some (h, ms.popUserspace c.next) := by
  simp only [takeOff, execStmts, ListStmt.exec, hc, Option.map_some, Option.bind_some]
  cases hn : c.next <;>
    simp [ModuleStruct.head, ModuleStruct.setHead, ModuleStruct.setTail,
      ModuleStruct.popUserspace]

theorem execStmts_takeOff_module (ms : ModuleStruct) (hc : h a = some c) :
    execStmts (takeOff true a) h ms = some (h, ms.popModule c.next) := by
  simp only [takeOff, execStmts, ListStmt.exec, hc, Option.map_some, Option.bind_some]
  cases hn : c.next <;>
    simp [ModuleStruct.head, ModuleStruct.setHead, ModuleStruct.setTail, ModuleStruct.popModule]

/-- The statements of a delivery do what `deliver` does. -/
theorem deliver_stmts {w w' : World} {ms' : ModuleStruct} {usp : IoStackLocation} {m : Pirp}
    (hc : w.heap a = some c) (hd : deliver w ms a c usp m = some (w', ms')) :
    execStmts (takeOff false a ++ [.addOutstanding a]) w.heap ms = some (w'.heap, ms') := by
  rw [execStmts_append, execStmts_takeOff_userspace ms hc, Option.bind_some]
  obtain ⟨ws, -, hd⟩ := Option.bind_eq_some_iff.mp hd
  simp only [execStmts, ListStmt.exec]
  cases hend : (ms.popUserspace c.next).outstandingIrpListEnd with
  | some e =>
      simp only [hend] at hd
      obtain ⟨h', hset, hd⟩ := Option.bind_eq_some_iff.mp hd
      obtain ⟨rfl, rfl⟩ := Prod.mk.inj (Option.some.inj hd)
      have hset' : w.heap.setNext e (some a) = some h' := hset
      simp [hset']
  | none =>
      simp only [hend] at hd
      obtain ⟨rfl, rfl⟩ := Prod.mk.inj (Option.some.inj hd)
      simp [World.record, World.setIrp]

/-- The last statements of a round do what `finishModuleIrp` does. -/
theorem finish_stmts (ms : ModuleStruct) (hc : h a = some c) :
    execStmts (takeOff true a ++ [.freeEntry a]) h ms = some (h.free a, ms.popModule c.next) := by
  rw [execStmts_append, execStmts_takeOff_module ms hc, Option.bind_some]
  simp [execStmts, ListStmt.exec, hc]

/-- The statements of an append do what `appendNode` does. -/
theorem append_stmts {l : List Entry} (hq : Queue h (ms.head b) (ms.tail b) l none)
    (ha : h a = none) (left : Cell Pirp) (p : Pirp) :
    ∃ h₁ ms₁ h' p', linkEntry h ms b (ms.tail b) a left = some (h₁, ms₁) ∧
      linkedEntry h₁ ms₁ b (ms.tail b) = some a ∧
      appendNode h (ms.head b) (ms.tail b) p a = some (h', p') ∧
      execStmts (fillIn b a p) h₁ ms₁ = some (h', (ms.setHead p' b).setTail (some a) b) := by
  cases htail : ms.tail b with
  | none =>
      refine ⟨h.set a (some left), ms.setHead (some a) b, h.set a (some ⟨p, none⟩), some a,
        by simp [linkEntry, ha], ?_, by simp [appendNode, ha], ?_⟩
      · cases b <;> rfl
      · simp [fillIn, execStmts, ListStmt.exec, Heap.setNext]
        funext x
        simp only [Heap.set]
        split <;> rfl
  | some e =>
      rw [htail] at hq
      obtain ⟨l₀, u, rfl⟩ := hq.last_of_tail
      have hlast := hq.seg.last_cell
      have hae : e ≠ a := by
        rintro rfl
        simp [ha] at hlast
      have hset : ∀ c : Cell Pirp, (h.set a (some c)).setNext e (some a) =
          some ((h.set a (some c)).set e (some ⟨u, some a⟩)) := by
        intro c
        simp [Heap.setNext, Heap.set_of_ne h _ hae, hlast]
      have hhead : ms.setHead (ms.head b) b = ms := by cases b <;> rfl
      refine ⟨(h.set a (some left)).set e (some ⟨u, some a⟩), ms,
        ((h.set a (some ⟨0, none⟩)).set e (some ⟨u, some a⟩)).set a (some ⟨p, none⟩), ms.head b,
        by simp [linkEntry, ha, hset], by simp [linkedEntry], by simp [appendNode, ha, hset], ?_⟩
      rw [hhead]
      simp [fillIn, execStmts, ListStmt.exec, Heap.setNext, Heap.set_of_ne _ _ hae.symm]
      funext x
      simp only [Heap.set]
      grind

end Stmts

-- ============================================================================
-- The threads
-- ============================================================================

/-- `InFlightModuleIrp` and `FoundWork` of `FuseCheckForWork`. -/
structure Check where
  inFlight : Option Pirp
  foundWork : Bool
deriving DecidableEq, Repr

/-- The entries and packets a round of the loop works on. -/
structure Pairing where
  moduleEntry : Addr
  moduleIrp : Pirp
  userspaceEntry : Addr
  userspaceIrp : Pirp
deriving DecidableEq, Repr

/-- Where a thread is in dispatching a packet, with its local variables. -/
inductive Phase where
  | idle
  /-- `LastEntry` was read from the tail pointer. -/
  | linking (p : Pirp) (b : Bool) (last : Option Addr)
  /-- The new node is linked; `LastEntry` is still the one before. -/
  | linked (p : Pirp) (b : Bool) (last : Option Addr)
  /-- The statements left of the append. -/
  | storing (rest : List ListStmt) (c : Check)
  /-- Before the first test of `FuseCheckForWork`. -/
  | appended (c : Check)
  /-- `ModuleIrpList` was not null. -/
  | sawModule (c : Check)
  /-- At the condition of the loop. -/
  | testing (c : Check)
  /-- Its first half was true. -/
  | tested (c : Check)
  /-- In the body: the entries are read, one after the other. -/
  | taking (c : Check)
  | tookModule (c : Check) (moduleEntry : Addr)
  | tookBoth (c : Check) (moduleEntry userspaceEntry : Addr)
  /-- Before `UserspaceIrp->Cancel` is read. -/
  | paired (c : Check) (x : Pairing)
  /-- Before `ModuleIrp->Cancel` is read. -/
  | kept (c : Check) (x : Pairing)
  /-- Neither is cancelled. -/
  | matched (c : Check) (x : Pairing)
  /-- The statements left of the round, and the packet it completes then. -/
  | unlinking (rest : List ListStmt) (done : Option Pirp) (c : Check)
deriving DecidableEq, Repr

namespace Phase

/-- The packet is on its queue, and the call of `FuseCheckForWork` has not
    ended. -/
def busy : Phase → Bool
  | idle => false
  | linking .. => false
  | _ => true

/-- In the middle of an append or of a round. -/
def midway : Phase → Bool
  | idle => false
  | appended _ => false
  | sawModule _ => false
  | testing _ => false
  | _ => true

/-- In the loop of `FuseCheckForWork`. -/
def inLoop : Phase → Bool
  | idle => false
  | linking .. => false
  | linked .. => false
  | storing .. => false
  | appended _ => false
  | sawModule _ => false
  | _ => true

end Phase

/-- The next step of a thread, where it does not need memory from the pool. -/
def threadStep (w : World) (ms : ModuleStruct) : Phase → Option (World × ModuleStruct × Phase)
  | .idle => none
  | .linking .. => none
  | .linked p b last => do
      let entry ← linkedEntry w.heap ms b last
      some (w, ms, .storing (fillIn b entry p) ⟨if b then some p else none, false⟩)
  | .storing [] c => some (w, ms, .appended c)
  | .storing (st :: rest) c => do
      let (heap, ms) ← st.exec w.heap ms
      some ({ w with heap := heap }, ms, .storing rest c)
  | .appended c => some (w, ms, if ms.moduleIrpList = none then .idle else .sawModule c)
  | .sawModule c => some (w, ms, if ms.userspaceIrpList = none then .idle else .testing c)
  | .testing c => some (w, ms, if ms.moduleIrpList = none then .idle else .tested c)
  | .tested c => some (w, ms, if ms.userspaceIrpList = none then .idle else .taking c)
  | .taking c => do
      -- an entry that is null by now is a null dereference
      let me ← ms.moduleIrpList
      some (w, ms, .tookModule c me)
  | .tookModule c me => do
      let ue ← ms.userspaceIrpList
      some (w, ms, .tookBoth c me ue)
  | .tookBoth c me ue => do
      let mc ← w.heap me
      let uc ← w.heap ue
      some (w, ms, .paired { c with foundWork := c.foundWork || c.inFlight == some mc.val }
        ⟨me, mc.val, ue, uc.val⟩)
  | .paired c x =>
      if (w.irps x.userspaceIrp).cancel then
        some (w, ms, .unlinking (takeOff false x.userspaceEntry) none c)
      else some (w, ms, .kept c x)
  | .kept c x =>
      if (w.irps x.moduleIrp).cancel then
        some (w, ms, .unlinking (takeOff true x.moduleEntry) none c)
      else some (w, ms, .matched c x)
  | .matched c x =>
      match (w.irps x.userspaceIrp).currentStackLocation with
      | none => some (w, ms, .unlinking (takeOff false x.userspaceEntry) none c)
      | some usp => do
          let msp ← (w.irps x.moduleIrp).currentStackLocation
          let finish := takeOff true x.moduleEntry ++ [.freeEntry x.moduleEntry]
          if reqSize w.files (w.irps x.userspaceIrp) usp ≤ msp.outputBufferLength then do
            let ws ← requestWrites w.files x.userspaceIrp (w.irps x.userspaceIrp) usp
            let w := (w.setIrp x.moduleIrp (filledIrp w x.userspaceIrp usp x.moduleIrp ws)).record
              (.delivered x.userspaceIrp x.moduleIrp)
            some (w, ms, .unlinking (takeOff false x.userspaceEntry ++
              [.addOutstanding x.userspaceEntry] ++ finish) (some x.moduleIrp) c)
          else some (w, ms, .unlinking finish (some x.moduleIrp) c)
  | .unlinking [] none c => some (w, ms, .testing c)
  | .unlinking [] (some m) c => some (w.complete m, ms, .testing c)
  | .unlinking (st :: rest) done c => do
      let (heap, ms) ← st.exec w.heap ms
      some ({ w with heap := heap }, ms, .unlinking rest done c)

/-- A module and the threads `T` that dispatch packets to it. -/
structure Threads (T : Type) where
  world : World
  module : ModuleStruct
  phase : T → Phase

/-- The steps. -/
inductive ThreadLabel (T : Type) where
  /-- The packet that arrived at `p` is to be appended to the module queue, or
      to the userspace queue (`b = false`): thread `t` reads the tail pointer. -/
  | dispatch (t : T) (p : Pirp) (irp : Irp) (b : Bool)
  /-- Thread `t` links the node that the pool returned. -/
  | link (t : T) (a : Addr) (left : Cell Pirp)
  | step (t : T)
  | cancel (p : Pirp)

/-- A packet is put on a queue. -/
def Event.queued (p : Pirp) : Bool → Event
  | true => .queuedModule p
  | false => .queuedUserspace p

section Threads

variable {T : Type} [DecidableEq T]

namespace Threads

/-- Thread `t` goes on, with the memory as it is now. -/
def go (s : Threads T) (t : T) (w : World) (ms : ModuleStruct) (ph : Phase) : Threads T :=
  ⟨w, ms, fun t' => if t' = t then ph else s.phase t'⟩

/-- All threads idle, on a freshly mounted module. -/
def start (T : Type) (w : World) (name : List Wchar) (fileObject : Pfile) : Threads T :=
  ⟨w, ModuleStruct.zeroed name fileObject, fun _ => .idle⟩

omit [DecidableEq T] in
/-- No other thread than `t` is in the middle of an append or of a round. -/
def Alone (s : Threads T) (t : T) : Prop := ∀ t', t' ≠ t → (s.phase t').midway = false

omit [DecidableEq T] in
/-- What the mutex was to ensure: a thread takes a step of an append or of the
    loop only while no other is in the middle of one. -/
def Exclusive (s : Threads T) : ThreadLabel T → Prop
  | .dispatch t _ _ _ => s.Alone t
  | .link t _ _ => s.Alone t
  | .step t => (s.phase t).midway = true ∨ (s.phase t).inLoop = true → s.Alone t
  | .cancel _ => True

@[simp] theorem go_phase_same (s : Threads T) (t : T) (w : World) (ms : ModuleStruct)
    (ph : Phase) : (s.go t w ms ph).phase t = ph :=
  if_pos rfl

theorem go_phase_of_ne (s : Threads T) {t t' : T} (w : World) (ms : ModuleStruct) (ph : Phase)
    (h : t' ≠ t) : (s.go t w ms ph).phase t' = s.phase t' :=
  if_neg h

end Threads

/-- The transitions.  A module request whose buffer is too small for any work
    is completed by its dispatcher and does not come to the lists. -/
inductive ThreadStep : Threads T → ThreadLabel T → Threads T → Prop
  | dispatch {s : Threads T} {t : T} {p : Pirp} {irp : Irp} {b : Bool}
      (idle : s.phase t = .idle)
      (reusable : completions s.world.log p ≠ some 0)
      (flagged : CreateFlagged irp)
      (accepted : b = true → ∃ sp, irp.currentStackLocation = some sp ∧
        moduleBufferOk irp sp = true) :
      ThreadStep s (.dispatch t p irp b)
        (s.go t ((s.world.setIrp p irp).record (.queued p b)) s.module
          (.linking p b (s.module.tail b)))
  | link {s : Threads T} {t : T} {p : Pirp} {b : Bool} {last : Option Addr} {a : Addr}
      {left : Cell Pirp} {h : Heap Pirp} {ms : ModuleStruct}
      (here : s.phase t = .linking p b last)
      (store : linkEntry s.world.heap s.module b last a left = some (h, ms)) :
      ThreadStep s (.link t a left) (s.go t { s.world with heap := h } ms (.linked p b last))
  | step {s : Threads T} {t : T} {w : World} {ms : ModuleStruct} {ph : Phase}
      (run : threadStep s.world s.module (s.phase t) = some (w, ms, ph)) :
      ThreadStep s (.step t) (s.go t w ms ph)
  | cancel {s : Threads T} (p : Pirp) :
      ThreadStep s (.cancel p) { s with world := s.world.cancel p }

end Threads

/-- Packets are cancelled. -/
def World.cancelAll (w : World) (l : List Pirp) : World := l.foldl World.cancel w

/-- A thread that goes on from here comes to the end of its call, whatever is
    cancelled before each of its steps. -/
inductive Returns : World → ModuleStruct → Phase → Prop
  | idle {w : World} {ms : ModuleStruct} : Returns w ms .idle
  | step {w : World} {ms : ModuleStruct} {ph : Phase}
      (next : List Pirp → World × ModuleStruct × Phase)
      (run : ∀ l, threadStep (w.cancelAll l) ms ph = some (next l))
      (rest : ∀ l, Returns (next l).1 (next l).2.1 (next l).2.2) : Returns w ms ph

-- ============================================================================
-- No thread returns before it has read a null head
-- ============================================================================

/-- One of the heads is null, or some thread is on its way. -/
def Threads.Watched {T : Type} (s : Threads T) : Prop :=
  s.module.moduleIrpList = none ∨ s.module.userspaceIrpList = none ∨
    ∃ t, (s.phase t).busy = true

/-- A thread that is on its way stays so, or has read a null head. -/
theorem threadStep_busy {w w' : World} {ms ms' : ModuleStruct} {ph ph' : Phase}
    (h : threadStep w ms ph = some (w', ms', ph')) :
    ph'.busy = true ∨ ms'.moduleIrpList = none ∨ ms'.userspaceIrpList = none := by
  -- only the four tests of the heads can lead to `idle`
  have htest : ∀ {q : Option Addr} {next : Phase}, next.busy = true →
      (if q = none then Phase.idle else next).busy = true ∨ q = none := by
    intro q next hnext
    by_cases hq : q = none
    · exact Or.inr hq
    · rw [if_neg hq]
      exact Or.inl hnext
  cases ph with
  | idle => contradiction
  | linking p b last => contradiction
  | linked p b last =>
      obtain ⟨entry, -, h⟩ := Option.bind_eq_some_iff.mp h
      obtain ⟨rfl, rfl, rfl⟩ := by simpa using h
      exact Or.inl rfl
  | storing rest c =>
      cases rest with
      | nil =>
          obtain ⟨rfl, rfl, rfl⟩ := by simpa [threadStep] using h
          exact Or.inl rfl
      | cons st rest =>
          obtain ⟨r, -, h⟩ := Option.bind_eq_some_iff.mp h
          obtain ⟨rfl, rfl, rfl⟩ := by simpa using h
          exact Or.inl rfl
  | appended c =>
      obtain ⟨rfl, rfl, rfl⟩ := by simpa [threadStep] using h
      exact (htest rfl).imp_right Or.inl
  | sawModule c =>
      obtain ⟨rfl, rfl, rfl⟩ := by simpa [threadStep] using h
      exact (htest rfl).imp_right Or.inr
  | testing c =>
      obtain ⟨rfl, rfl, rfl⟩ := by simpa [threadStep] using h
      exact (htest rfl).imp_right Or.inl
  | tested c =>
      obtain ⟨rfl, rfl, rfl⟩ := by simpa [threadStep] using h
      exact (htest rfl).imp_right Or.inr
  | taking c =>
      obtain ⟨me, -, h⟩ := Option.bind_eq_some_iff.mp h
      obtain ⟨rfl, rfl, rfl⟩ := by simpa using h
      exact Or.inl rfl
  | tookModule c me =>
      obtain ⟨ue, -, h⟩ := Option.bind_eq_some_iff.mp h
      obtain ⟨rfl, rfl, rfl⟩ := by simpa using h
      exact Or.inl rfl
  | tookBoth c me ue =>
      obtain ⟨mc, -, h⟩ := Option.bind_eq_some_iff.mp h
      obtain ⟨uc, -, h⟩ := Option.bind_eq_some_iff.mp h
      obtain ⟨rfl, rfl, rfl⟩ := by simpa using h
      exact Or.inl rfl
  | paired c x =>
      rw [threadStep] at h
      split at h <;> obtain ⟨rfl, rfl, rfl⟩ := by simpa using h
      all_goals exact Or.inl rfl
  | kept c x =>
      rw [threadStep] at h
      split at h <;> obtain ⟨rfl, rfl, rfl⟩ := by simpa using h
      all_goals exact Or.inl rfl
  | matched c x =>
      rw [threadStep] at h
      split at h
      · obtain ⟨rfl, rfl, rfl⟩ := by simpa using h
        exact Or.inl rfl
      · obtain ⟨msp, -, h⟩ := Option.bind_eq_some_iff.mp h
        dsimp only at h
        split at h
        · obtain ⟨ws, -, h⟩ := Option.bind_eq_some_iff.mp h
          obtain ⟨rfl, rfl, rfl⟩ := by simpa using h
          exact Or.inl rfl
        · obtain ⟨rfl, rfl, rfl⟩ := by simpa using h
          exact Or.inl rfl
  | unlinking rest done c =>
      cases rest with
      | nil =>
          cases done with
          | none =>
              obtain ⟨rfl, rfl, rfl⟩ := by simpa [threadStep] using h
              exact Or.inl rfl
          | some m =>
              obtain ⟨rfl, rfl, rfl⟩ := by simpa [threadStep] using h
              exact Or.inl rfl
      | cons st rest =>
          obtain ⟨r, -, h⟩ := Option.bind_eq_some_iff.mp h
          obtain ⟨rfl, rfl, rfl⟩ := by simpa using h
          exact Or.inl rfl

section Threads

variable {T : Type} [DecidableEq T] {s s' : Threads T} {l : ThreadLabel T}

theorem step_watched (hi : s.Watched) (hs : ThreadStep s l s') : s'.Watched := by
  cases hs with
  | @dispatch t p irp b hidle =>
      refine hi.imp_right (Or.imp_right fun ⟨t', ht'⟩ => ⟨t', ?_⟩)
      have hne : t' ≠ t := by
        rintro rfl
        simp [hidle, Phase.busy] at ht'
      rw [s.go_phase_of_ne _ _ _ hne]
      exact ht'
  | @link t p b last a left h ms here store =>
      exact Or.inr (Or.inr ⟨t, by rw [s.go_phase_same]; rfl⟩)
  | @step t w ms ph run =>
      rcases threadStep_busy run with hbusy | hm | hu
      · exact Or.inr (Or.inr ⟨t, by rw [s.go_phase_same, hbusy]⟩)
      · exact Or.inl hm
      · exact Or.inr (Or.inl hu)
  | cancel p => exact hi

/-- In every interleaving, one of the heads is null when no thread is on its
    way. -/
theorem head_null_of_run {w : World} {name : List Wchar} {fileObject : Pfile}
    {tr : List (Threads T × ThreadLabel T)}
    (hrun : Run ThreadStep (Threads.start T w name fileObject) tr s)
    (hquiet : ∀ t, (s.phase t).busy = false) :
    s.module.moduleIrpList = none ∨ s.module.userspaceIrpList = none := by
  have hinv : s.Watched := hrun.always (Or.inl rfl) fun _ _ _ => step_watched
  rcases hinv with h | h | ⟨t, ht⟩
  · exact Or.inl h
  · exact Or.inr h
  · rw [hquiet t] at ht
    contradiction

end Threads

-- ============================================================================
-- The lists while threads keep out of each other's way
-- ============================================================================

/-- The lists are well formed, with `n` entries in the two queues. -/
def Lists (w : World) (ms : ModuleStruct) (n : Nat) : Prop :=
  ∃ U M O nxt, Ready w ms U M O nxt ∧ U.length + M.length = n

/-- The packet `p` is about to be appended. -/
structure Arriving (w : World) (ms : ModuleStruct) (p : Pirp) (b : Bool) (U M O : List Entry)
    (nxt : Option Addr) : Prop where
  ready : Ready w ms U M O nxt
  owned : Owned w.log (p :: packets U M O)
  createFlagged : CreateFlagged (w.irps p)
  location : b = true → ∃ sp, (w.irps p).currentStackLocation = some sp

/-- The entries of the round are at the heads of the queues. -/
def AtEntries (w : World) (ms : ModuleStruct) (n : Nat) (x : Pairing) : Prop :=
  ∃ U M O nxt, Ready w ms ((x.userspaceEntry, x.userspaceIrp) :: U)
    ((x.moduleEntry, x.moduleIrp) :: M) O nxt ∧ U.length + M.length + 2 = n

/-- The statements that are left, and the completion after them, lead to
    well-formed lists. -/
def Finishes (w : World) (ms : ModuleStruct) (n : Nat) (rest : List ListStmt)
    (done : Option Pirp) : Prop :=
  ∃ h' ms', execStmts rest w.heap ms = some (h', ms') ∧
    Lists { w with heap := h', log := w.log ++ done.toList.map .completed } ms' n

/-- What a thread finds, wherever it is, while no other is in the middle of an
    append or of a round. -/
def Sound (w : World) (ms : ModuleStruct) (n : Nat) : Phase → Prop
  | .linking p b last => last = ms.tail b ∧
      ∃ U M O nxt, Arriving w ms p b U M O nxt ∧ U.length + M.length = n
  | .linked p b last => ∃ entry, linkedEntry w.heap ms b last = some entry ∧
      Finishes w ms n (fillIn b entry p) none
  | .storing rest _ => Finishes w ms n rest none
  | .tested _ => Lists w ms n ∧ ms.moduleIrpList ≠ none
  | .taking _ => ∃ x, AtEntries w ms n x
  | .tookModule _ me => ∃ x, AtEntries w ms n x ∧ x.moduleEntry = me
  | .tookBoth _ me ue => ∃ x, AtEntries w ms n x ∧ x.moduleEntry = me ∧ x.userspaceEntry = ue
  | .paired _ x => AtEntries w ms n x
  | .kept _ x => AtEntries w ms n x
  | .matched _ x => AtEntries w ms n x
  | .unlinking rest done _ => Finishes w ms n rest done
  | .idle => Lists w ms n
  | .appended _ => Lists w ms n
  | .sawModule _ => Lists w ms n
  | .testing _ => Lists w ms n

theorem sound_iff_lists {w : World} {ms : ModuleStruct} {n : Nat} {ph : Phase}
    (h : ph.midway = false) : Sound w ms n ph ↔ Lists w ms n := by
  cases ph <;> first | exact Iff.rfl | contradiction

section Sound

variable {w : World} {ms : ModuleStruct} {n : Nat} {U M O : List Entry} {nxt : Option Addr}
  {p : Pirp} {b : Bool} {x : Pairing}

/-- The heads of the two queues are the entries of the round. -/
theorem AtEntries.heads (h : AtEntries w ms n x) :
    ms.moduleIrpList = some x.moduleEntry ∧ ms.userspaceIrpList = some x.userspaceEntry ∧
      (∃ r, w.heap x.moduleEntry = some ⟨x.moduleIrp, r⟩) ∧
      ∃ r, w.heap x.userspaceEntry = some ⟨x.userspaceIrp, r⟩ := by
  obtain ⟨U, M, O, nxt, hs, -⟩ := h
  obtain ⟨hm, hmc⟩ := hs.rep.module.head_cell
  obtain ⟨hu, huc⟩ := hs.rep.user.head_cell
  exact ⟨hm, hu, ⟨_, hmc⟩, ⟨_, huc⟩⟩

theorem Lists.atEntries (h : Lists w ms n) (hm : ms.moduleIrpList ≠ none)
    (hu : ms.userspaceIrpList ≠ none) : ∃ x, AtEntries w ms n x := by
  obtain ⟨U, M, O, nxt, hs, hn⟩ := h
  cases U with
  | nil => exact absurd hs.rep.user.seg.head_eq hu
  | cons u U =>
      cases M with
      | nil => exact absurd hs.rep.module.seg.head_eq hm
      | cons m M =>
          refine ⟨⟨m.1, m.2, u.1, u.2⟩, U, M, O, nxt, hs, ?_⟩
          simp only [List.length_cons] at hn
          omega

theorem AtEntries.lists (h : AtEntries w ms n x) : Lists w ms n := by
  obtain ⟨U, M, O, nxt, hs, hn⟩ := h
  refine ⟨_, _, O, nxt, hs, ?_⟩
  simp only [List.length_cons]
  omega

/-- A packet arrives that is on none of the lists. -/
theorem Ready.arriving {irp : Irp} (hs : Ready w ms U M O nxt)
    (hp : completions w.log p ≠ some 0) (hf : CreateFlagged irp)
    (hl : b = true → ∃ sp, irp.currentStackLocation = some sp) :
    Arriving ((w.setIrp p irp).record (.queued p b)) ms p b U M O nxt := by
  have hnew := hs.owned.not_mem hp
  have hother : ∀ q, q ∈ packets U M O → (w.setIrp p irp).irps q = w.irps q := by
    intro q hq
    exact if_neg (ne_of_mem_of_not_mem hq hnew)
  have howned := hs.owned.queued (p := p) (e := .queued p b) (by cases b <;> simp [Event.queued]) hp
  have hself : (w.setIrp p irp).irps p = irp := if_pos rfl
  refine ⟨⟨hs.rep, howned.sublist (List.sublist_cons_self ..), fun q hq => ?_, fun q hq => ?_⟩,
    howned, ?_, fun hb => ?_⟩
  · show CreateFlagged ((w.setIrp p irp).irps q)
    rw [hother q (by simp [packets, hq])]
    exact hs.createFlagged q hq
  · show ∃ sp, ((w.setIrp p irp).irps q).currentStackLocation = some sp
    rw [hother q (by simp [packets, hq])]
    exact hs.moduleSp q hq
  · show CreateFlagged ((w.setIrp p irp).irps p)
    rw [hself]
    exact hf
  · show ∃ sp, ((w.setIrp p irp).irps p).currentStackLocation = some sp
    rw [hself]
    exact hl hb

/-- The node is linked, and the statements that are left fill it in. -/
theorem Arriving.link (hs : Arriving w ms p b U M O nxt) {a : Addr} (left : Cell Pirp)
    (ha : w.heap a = none) :
    ∃ h₁ ms₁, linkEntry w.heap ms b (ms.tail b) a left = some (h₁, ms₁) ∧
      linkedEntry h₁ ms₁ b (ms.tail b) = some a ∧
      Finishes { w with heap := h₁ } ms₁ (U.length + M.length + 1) (fillIn b a p) none := by
  have hready := hs.ready
  cases b with
  | false =>
      obtain ⟨h₁, ms₁, h', p', hlink, hlinked, happ, hexec⟩ :=
        append_stmts (b := false) hready.rep.user ha left p
      obtain ⟨h'', ms', happ', hrep, -, -, -⟩ := appendIrp_userspace (p := p) hready.rep ha
      have happ'' : appendNode w.heap ms.userspaceIrpList ms.userspaceIrpListEnd p a =
          some (h', p') := happ
      obtain ⟨rfl, rfl⟩ : h' = h'' ∧ _ = ms' := by simpa [appendIrp, happ''] using happ'
      refine ⟨h₁, ms₁, hlink, hlinked, h', _, hexec, U ++ [(a, p)], M, O, nxt, ⟨hrep, ?_, ?_, ?_⟩,
        ?_⟩
      · simpa using hs.owned.perm (packets_queue_userspace U M O a p)
      · intro q hq
        simp only [vals, List.map_append, List.mem_append] at hq
        rcases hq with hq | hq
        · exact hready.createFlagged q hq
        · rw [List.mem_singleton.mp hq]
          exact hs.createFlagged
      · exact hready.moduleSp
      · simp only [List.length_append, List.length_singleton]
        omega
  | true =>
      obtain ⟨h₁, ms₁, h', p', hlink, hlinked, happ, hexec⟩ :=
        append_stmts (b := true) hready.rep.module ha left p
      obtain ⟨h'', ms', happ', hrep, -, -, -⟩ := appendIrp_module (p := p) hready.rep ha
      have happ'' : appendNode w.heap ms.moduleIrpList ms.moduleIrpListEnd p a =
          some (h', p') := happ
      obtain ⟨rfl, rfl⟩ : h' = h'' ∧ _ = ms' := by simpa [appendIrp, happ''] using happ'
      refine ⟨h₁, ms₁, hlink, hlinked, h', _, hexec, U, M ++ [(a, p)], O, nxt, ⟨hrep, ?_, ?_, ?_⟩,
        ?_⟩
      · simpa using hs.owned.perm (packets_queue_module U M O a p)
      · exact hready.createFlagged
      · intro q hq
        simp only [vals, List.map_append, List.mem_append] at hq
        rcases hq with hq | hq
        · exact hready.moduleSp q hq
        · rw [List.mem_singleton.mp hq]
          exact hs.location rfl
      · simp only [List.length_append, List.length_singleton]
        omega

-- ============================================================================
-- Cancelled packets
-- ============================================================================

theorem CreateFlagged.cancel {w : World} {q : Pirp} (p : Pirp) (h : CreateFlagged (w.irps q)) :
    CreateFlagged ((w.cancel p).irps q) := by
  by_cases hq : q = p
  · subst hq
    simpa [World.cancel, World.setIrp, CreateFlagged] using h
  · simpa [World.cancel, World.setIrp, hq] using h

theorem location_cancel (w : World) (p q : Pirp) :
    ((w.cancel p).irps q).currentStackLocation = (w.irps q).currentStackLocation := by
  by_cases hq : q = p
  · subst hq
    simp [World.cancel, World.setIrp]
  · simp [World.cancel, World.setIrp, hq]

theorem Ready.cancel (p : Pirp) (hs : Ready w ms U M O nxt) : Ready (w.cancel p) ms U M O nxt where
  rep := hs.rep
  owned := hs.owned
  createFlagged q hq := (hs.createFlagged q hq).cancel p
  moduleSp q hq := by
    rw [location_cancel]
    exact hs.moduleSp q hq

theorem Lists.cancel (p : Pirp) (hs : Lists w ms n) : Lists (w.cancel p) ms n := by
  obtain ⟨U, M, O, nxt, hready, hn⟩ := hs
  exact ⟨U, M, O, nxt, hready.cancel p, hn⟩

theorem AtEntries.cancel (p : Pirp) (hs : AtEntries w ms n x) : AtEntries (w.cancel p) ms n x := by
  obtain ⟨U, M, O, nxt, hready, hn⟩ := hs
  exact ⟨U, M, O, nxt, hready.cancel p, hn⟩

theorem Finishes.cancel (p : Pirp) {rest : List ListStmt} {done : Option Pirp}
    (hs : Finishes w ms n rest done) : Finishes (w.cancel p) ms n rest done := by
  obtain ⟨h', ms', hexec, hlists⟩ := hs
  exact ⟨h', ms', hexec, hlists.cancel p⟩

/-- No flag that is set matters to what a thread finds. -/
theorem Sound.cancel (p : Pirp) {ph : Phase} (hs : Sound w ms n ph) :
    Sound (w.cancel p) ms n ph := by
  cases ph with
  | linking q b last =>
      obtain ⟨hlast, U, M, O, nxt, harr, hn⟩ := hs
      refine ⟨hlast, U, M, O, nxt, ⟨harr.ready.cancel p, harr.owned, harr.createFlagged.cancel p,
        fun hb => ?_⟩, hn⟩
      rw [location_cancel]
      exact harr.location hb
  | linked q b last =>
      obtain ⟨entry, hentry, hfin⟩ := hs
      exact ⟨entry, hentry, hfin.cancel p⟩
  | storing rest c => exact Finishes.cancel p hs
  | tested c => exact ⟨hs.1.cancel p, hs.2⟩
  | taking c => exact hs.imp fun x hx => hx.cancel p
  | tookModule c me => exact hs.imp fun x hx => ⟨hx.1.cancel p, hx.2⟩
  | tookBoth c me ue => exact hs.imp fun x hx => ⟨hx.1.cancel p, hx.2⟩
  | paired c x => exact AtEntries.cancel p hs
  | kept c x => exact AtEntries.cancel p hs
  | matched c x => exact AtEntries.cancel p hs
  | unlinking rest done c => exact Finishes.cancel p hs
  | idle => exact Lists.cancel p hs
  | appended c => exact Lists.cancel p hs
  | sawModule c => exact Lists.cancel p hs
  | testing c => exact Lists.cancel p hs

theorem Sound.cancelAll {ph : Phase} (hs : Sound w ms n ph) (l : List Pirp) :
    Sound (w.cancelAll l) ms n ph := by
  induction l generalizing w with
  | nil => exact hs
  | cons p l ih => exact ih (hs.cancel p)

-- ============================================================================
-- A thread in the loop
-- ============================================================================

theorem Finishes.of_exec {rest : List ListStmt} {done : Option Pirp} {h' : Heap Pirp}
    {ms' : ModuleStruct} (hexec : execStmts rest w.heap ms = some (h', ms'))
    (hs : Ready { w with heap := h', log := w.log ++ done.toList.map .completed } ms' U M O nxt) :
    Finishes w ms (U.length + M.length) rest done :=
  ⟨h', ms', hexec, U, M, O, nxt, hs, rfl⟩

/-- The next of the statements that are left. -/
theorem Finishes.next {st : ListStmt} {rest : List ListStmt} {done : Option Pirp}
    (hs : Finishes w ms n (st :: rest) done) :
    ∃ h' ms', st.exec w.heap ms = some (h', ms') ∧
      Finishes { w with heap := h' } ms' n rest done := by
  obtain ⟨h', ms', hexec, hlists⟩ := hs
  obtain ⟨r, hst, hrest⟩ := Option.bind_eq_some_iff.mp hexec
  exact ⟨r.1, r.2, hst, h', ms', hrest, hlists⟩

/-- After the last statement. -/
theorem Finishes.lists {done : Option Pirp} (hs : Finishes w ms n [] done) :
    Lists { w with log := w.log ++ done.toList.map .completed } ms n := by
  obtain ⟨h', ms', hexec, hlists⟩ := hs
  obtain ⟨rfl, rfl⟩ := by simpa [execStmts] using hexec
  exact hlists

/-- The first request is taken off its queue. -/
theorem AtEntries.dropUserspace (hs : AtEntries w ms n x) :
    ∃ n', n' < n ∧ Finishes w ms n' (takeOff false x.userspaceEntry) none := by
  obtain ⟨U, M, O, nxt, hready, hn⟩ := hs
  have hexec := execStmts_takeOff_userspace ms hready.rep.user.head_cell.2
  refine ⟨_, ?_, Finishes.of_exec hexec (by
    simpa using hready.dropUserspace hready.rep.popUserspace)⟩
  simp only [List.length_cons]
  omega

/-- The first module packet is taken off its queue. -/
theorem AtEntries.dropModule (hs : AtEntries w ms n x) :
    ∃ n', n' < n ∧ Finishes w ms n' (takeOff true x.moduleEntry) none := by
  obtain ⟨U, M, O, nxt, hready, hn⟩ := hs
  have hexec := execStmts_takeOff_module ms hready.rep.module.head_cell.2
  refine ⟨_, ?_, Finishes.of_exec hexec (by
    simpa using hready.dropModule hready.rep.popModule)⟩
  simp only [List.length_cons]
  omega

/-- The request does not fit. -/
theorem AtEntries.bounce (hs : AtEntries w ms n x) :
    ∃ n', n' < n ∧ Finishes w ms n' (takeOff true x.moduleEntry ++ [.freeEntry x.moduleEntry])
      (some x.moduleIrp) := by
  obtain ⟨U, M, O, nxt, hready, hn⟩ := hs
  have hexec := finish_stmts ms hready.rep.module.head_cell.2
  refine ⟨_, ?_, Finishes.of_exec hexec (hready.bounce (finishModuleIrp_spec hready.rep).2)⟩
  simp only [List.length_cons]
  omega

/-- The request is copied, and its entry becomes outstanding. -/
theorem AtEntries.deliver {usp : IoStackLocation} {ws : List (Nat × List UInt8)}
    (hs : AtEntries w ms n x)
    (hws : requestWrites w.files x.userspaceIrp (w.irps x.userspaceIrp) usp = some ws) :
    ∃ n', n' < n ∧ Finishes ((w.setIrp x.moduleIrp (filledIrp w x.userspaceIrp usp x.moduleIrp
        ws)).record (.delivered x.userspaceIrp x.moduleIrp)) ms n'
      (takeOff false x.userspaceEntry ++ [.addOutstanding x.userspaceEntry] ++
        (takeOff true x.moduleEntry ++ [.freeEntry x.moduleEntry])) (some x.moduleIrp) := by
  obtain ⟨U, M, O, nxt, hready, hn⟩ := hs
  obtain ⟨h', ms₁, hd, hrep, -, -⟩ := deliver_spec hready.rep hws x.moduleIrp
  have hfirst := deliver_stmts hready.rep.user.head_cell.2 hd
  have hexec : execStmts (takeOff false x.userspaceEntry ++ [.addOutstanding x.userspaceEntry] ++
      (takeOff true x.moduleEntry ++ [.freeEntry x.moduleEntry])) w.heap ms =
      some (h'.free x.moduleEntry, ms₁.popModule (headAddr M none)) := by
    rw [execStmts_append, hfirst, Option.bind_some]
    exact finish_stmts ms₁ hrep.module.head_cell.2
  have hdone := hready.deliver usp ws (finishModuleIrp_spec
    (w := { w.setIrp x.moduleIrp (filledIrp w x.userspaceIrp usp x.moduleIrp ws) with
      heap := h', log := w.log ++ [.delivered x.userspaceIrp x.moduleIrp] }) hrep).2
  refine ⟨_, ?_, Finishes.of_exec hexec (U := U) (M := M) (by
    simpa [World.record, World.setIrp] using hdone)⟩
  omega

/-- How far a thread is from the end of the round or of the call it is in. -/
def Phase.extra : Phase → Nat
  | idle => 0
  | linking .. => 0
  | testing _ => 7
  | tested _ => 6
  | taking _ => 5
  | tookModule .. => 4
  | tookBoth .. => 3
  | paired .. => 2
  | kept .. => 1
  | matched .. => 0
  | unlinking rest _ _ => 8 + rest.length
  | _ => 8

/-- A bound on the steps that a thread can take in loops, with `n` entries in
    the queues after the append or the round that is going on. -/
def weight (n : Nat) (ph : Phase) : Nat := 20 * n + ph.extra

/-- A thread in the loop can take its next step, and is nearer to the end of
    its call then. -/
theorem Sound.advance {ph : Phase} (hs : Sound w ms n ph) (hloop : ph.inLoop = true) :
    ∃ w' ms' ph' n', threadStep w ms ph = some (w', ms', ph') ∧ Sound w' ms' n' ph' ∧
      n' ≤ n ∧ (ph' = .idle ∨ ph'.inLoop = true) ∧ weight n' ph' < weight n ph := by
  cases ph with
  | idle => contradiction
  | linking p b last => contradiction
  | linked p b last => contradiction
  | storing rest c => contradiction
  | appended c => contradiction
  | sawModule c => contradiction
  | testing c =>
      by_cases hm : ms.moduleIrpList = none
      · exact ⟨w, ms, .idle, n, by simp [threadStep, hm], hs, le_rfl, Or.inl rfl,
          by simp [weight, Phase.extra]⟩
      · exact ⟨w, ms, .tested c, n, by simp [threadStep, hm], ⟨hs, hm⟩,
          le_rfl, Or.inr rfl, by simp [weight, Phase.extra]⟩
  | tested c =>
      by_cases hu : ms.userspaceIrpList = none
      · exact ⟨w, ms, .idle, n, by simp [threadStep, hu], hs.1, le_rfl, Or.inl rfl,
          by simp [weight, Phase.extra]⟩
      · exact ⟨w, ms, .taking c, n, by simp [threadStep, hu], hs.1.atEntries hs.2 hu,
          le_rfl, Or.inr rfl, by simp [weight, Phase.extra]⟩
  | taking c =>
      obtain ⟨x, hx⟩ := hs
      exact ⟨w, ms, .tookModule c x.moduleEntry, n, by simp [threadStep, hx.heads.1], ⟨x, hx, rfl⟩,
        le_rfl, Or.inr rfl, by simp [weight, Phase.extra]⟩
  | tookModule c me =>
      obtain ⟨x, hx, rfl⟩ := hs
      exact ⟨w, ms, .tookBoth c x.moduleEntry x.userspaceEntry, n,
        by simp [threadStep, hx.heads.2.1], ⟨x, hx, rfl, rfl⟩, le_rfl, Or.inr rfl,
        by simp [weight, Phase.extra]⟩
  | tookBoth c me ue =>
      obtain ⟨x, hx, rfl, rfl⟩ := hs
      obtain ⟨-, -, ⟨r, hm⟩, r', hu⟩ := hx.heads
      exact ⟨w, ms, .paired ⟨c.inFlight, c.foundWork || c.inFlight == some x.moduleIrp⟩ x, n,
        by simp [threadStep, hm, hu], hx, le_rfl, Or.inr rfl, by simp [weight, Phase.extra]⟩
  | paired c x =>
      by_cases hc : (w.irps x.userspaceIrp).cancel = true
      · obtain ⟨n', hn', hfin⟩ := hs.dropUserspace
        refine ⟨w, ms, .unlinking _ none c, n', by rw [threadStep, if_pos hc], hfin,
          hn'.le, Or.inr rfl, ?_⟩
        simp only [weight, Phase.extra, takeOff, List.length_cons, List.length_nil]
        omega
      · exact ⟨w, ms, .kept c x, n, by rw [threadStep, if_neg hc], hs,
          le_rfl, Or.inr rfl, by simp [weight, Phase.extra]⟩
  | kept c x =>
      by_cases hc : (w.irps x.moduleIrp).cancel = true
      · obtain ⟨n', hn', hfin⟩ := hs.dropModule
        refine ⟨w, ms, .unlinking _ none c, n', by rw [threadStep, if_pos hc], hfin,
          hn'.le, Or.inr rfl, ?_⟩
        simp only [weight, Phase.extra, takeOff, List.length_cons, List.length_nil]
        omega
      · exact ⟨w, ms, .matched c x, n, by rw [threadStep, if_neg hc], hs,
          le_rfl, Or.inr rfl, by simp [weight, Phase.extra]⟩
  | matched c x =>
      have hs : AtEntries w ms n x := hs
      cases husp : (w.irps x.userspaceIrp).currentStackLocation with
      | none =>
          obtain ⟨n', hn', hfin⟩ := hs.dropUserspace
          refine ⟨w, ms, .unlinking _ none c, n', by simp [threadStep, husp], hfin,
            hn'.le, Or.inr rfl, ?_⟩
          simp only [weight, Phase.extra, takeOff, List.length_cons, List.length_nil]
          omega
      | some usp =>
          obtain ⟨msp, hmsp⟩ : ∃ sp, (w.irps x.moduleIrp).currentStackLocation = some sp := by
            obtain ⟨U, M, O, nxt, hready, -⟩ := hs
            exact hready.moduleSp x.moduleIrp (by simp)
          by_cases hfit : reqSize w.files (w.irps x.userspaceIrp) usp ≤ msp.outputBufferLength
          · obtain ⟨ws, hws⟩ : ∃ ws,
                requestWrites w.files x.userspaceIrp (w.irps x.userspaceIrp) usp = some ws := by
              obtain ⟨U, M, O, nxt, hready, -⟩ := hs
              exact requestWrites_isSome w.files x.userspaceIrp
                (hready.createFlagged x.userspaceIrp (by simp)) husp
            obtain ⟨n', hn', hfin⟩ := hs.deliver hws
            refine ⟨_, ms, .unlinking _ (some x.moduleIrp) c, n',
              by simp [threadStep, husp, hmsp, hfit, hws], hfin, hn'.le, Or.inr rfl, ?_⟩
            simp only [weight, Phase.extra, takeOff, List.length_append, List.length_cons,
              List.length_nil]
            omega
          · obtain ⟨n', hn', hfin⟩ := hs.bounce
            refine ⟨w, ms, .unlinking _ (some x.moduleIrp) c, n',
              by simp [threadStep, husp, hmsp, hfit], hfin, hn'.le, Or.inr rfl, ?_⟩
            simp only [weight, Phase.extra, takeOff, List.length_append, List.length_cons,
              List.length_nil]
            omega
  | unlinking rest done c =>
      cases rest with
      | nil =>
          have hlists := Finishes.lists hs
          cases done with
          | none =>
              simp only [Option.toList_none, List.map_nil, List.append_nil] at hlists
              exact ⟨w, ms, .testing c, n, rfl, hlists, le_rfl, Or.inr rfl,
                by simp [weight, Phase.extra]⟩
          | some m =>
              exact ⟨w.complete m, ms, .testing c, n, rfl, hlists, le_rfl, Or.inr rfl,
                by simp [weight, Phase.extra]⟩
      | cons st rest =>
          obtain ⟨h', ms', hst, hfin⟩ := Finishes.next hs
          exact ⟨{ w with heap := h' }, ms', .unlinking rest done c, n, by simp [threadStep, hst],
            hfin, le_rfl, Or.inr rfl, by simp [weight, Phase.extra]⟩

/-- Every loop comes to its end. -/
theorem Sound.returns {ph : Phase} (hs : Sound w ms n ph) (hloop : ph.inLoop = true) :
    Returns w ms ph := by
  induction hk : weight n ph using Nat.strongRecOn generalizing w ms n ph with
  | ind k ih =>
      have hnext : ∀ l : List Pirp, ∃ r : World × ModuleStruct × Phase,
          threadStep (w.cancelAll l) ms ph = some r ∧ Returns r.1 r.2.1 r.2.2 := by
        intro l
        obtain ⟨w', ms', ph', n', hrun, hs', -, hph, hlt⟩ := (hs.cancelAll l).advance hloop
        refine ⟨(w', ms', ph'), hrun, ?_⟩
        rcases hph with rfl | hloop'
        · exact .idle
        · exact ih _ (hk ▸ hlt) hs' hloop' rfl
      choose next hrun hrest using hnext
      exact .step next hrun hrest

end Sound

-- ============================================================================
-- Runs
-- ============================================================================

/-- Either no thread is midway and the lists are well formed, or one thread is,
    and finds what it relies on; `n` entries are in the queues, or will be. -/
def Threads.Orderly {T : Type} (s : Threads T) (n : Nat) : Prop :=
  ((∀ t, (s.phase t).midway = false) ∧ Lists s.world s.module n) ∨
    ∃ t, (s.phase t).midway = true ∧ s.Alone t ∧ Sound s.world s.module n (s.phase t)

section Threads

variable {T : Type} {s s' : Threads T} {l : ThreadLabel T} {t : T} {n : Nat}

/-- What a thread relies on while it is alone. -/
theorem Threads.Orderly.sound (ho : s.Orderly n) (ht : s.Alone t) :
    Sound s.world s.module n (s.phase t) := by
  rcases ho with ⟨hnone, hlists⟩ | ⟨t₀, hmid, -, hs⟩
  · exact (sound_iff_lists (hnone t)).mpr hlists
  · by_cases h : t₀ = t
    · exact h ▸ hs
    · rw [ht t₀ h] at hmid
      contradiction

variable [DecidableEq T]

/-- The step is one of the thread `t` in a loop. -/
def Threads.loops (s : Threads T) (t : T) : ThreadLabel T → Nat
  | .step t' => if t' = t ∧ (s.phase t).inLoop = true then 1 else 0
  | _ => 0

omit [DecidableEq T] in
/-- The step puts a packet on a queue. -/
def ThreadLabel.appends : ThreadLabel T → Nat
  | .link .. => 1
  | _ => 0

/-- How often the thread `t` takes a step in a loop. -/
def loopSteps (t : T) (tr : List (Threads T × ThreadLabel T)) : Nat :=
  (tr.map fun x => x.1.loops t x.2).sum

omit [DecidableEq T] in
/-- How many packets are put on a queue. -/
def appended (tr : List (Threads T × ThreadLabel T)) : Nat := (tr.map fun x => x.2.appends).sum

/-- A step of the thread `t`, alone, to a place where it finds what it needs. -/
theorem Threads.Orderly.go {w : World} {ms : ModuleStruct} {ph : Phase}
    (ht : s.Alone t) (hs : Sound w ms n ph) : (s.go t w ms ph).Orderly n := by
  have hothers : ∀ t', t' ≠ t → ((s.go t w ms ph).phase t').midway = false := by
    intro t' ht'
    rw [s.go_phase_of_ne _ _ _ ht']
    exact ht t' ht'
  cases hmid : ph.midway with
  | true => exact Or.inr ⟨t, by rw [s.go_phase_same, hmid], hothers, by
      rw [s.go_phase_same]
      exact hs⟩
  | false =>
      refine Or.inl ⟨fun t' => ?_, (sound_iff_lists hmid).mp hs⟩
      by_cases h : t' = t
      · rw [h, s.go_phase_same, hmid]
      · exact hothers t' h

/-- A step costs what the threads are farther from the end of their loops then. -/
def Threads.Pays (s : Threads T) (n : Nat) (l : ThreadLabel T) (s' : Threads T) (n' : Nat) : Prop :=
  ∀ t, weight n' (s'.phase t) + s.loops t l ≤ weight n (s.phase t) + 28 * l.appends

/-- A step of the thread `t` pays if it pays for `t`, and puts at most as many
    entries on the queues as it appends. -/
theorem Threads.pays_go {w : World} {ms : ModuleStruct} {ph : Phase} {n' : Nat}
    (hn : n' ≤ n + l.appends) (hother : ∀ t', t' ≠ t → s.loops t' l = 0)
    (hself : weight n' ph + s.loops t l ≤ weight n (s.phase t) + 28 * l.appends) :
    s.Pays n l (s.go t w ms ph) n' := by
  intro t'
  by_cases h : t' = t
  · rw [h, s.go_phase_same]
    exact hself
  · rw [s.go_phase_of_ne _ _ _ h, hother t' h]
    simp only [weight]
    omega

/-- The steps of an append and of the loop, and the tests before it. -/
theorem Sound.step {w w' : World} {ms ms' : ModuleStruct} {ph ph' : Phase}
    (hs : Sound w ms n ph) (hrun : threadStep w ms ph = some (w', ms', ph')) :
    ∃ n', Sound w' ms' n' ph' ∧ n' ≤ n ∧
      weight n' ph' + (if ph.inLoop = true then 1 else 0) ≤ weight n ph := by
  by_cases hloop : ph.inLoop = true
  · obtain ⟨w₁, ms₁, ph₁, n', hrun', hs', hn', -, hlt⟩ := hs.advance hloop
    obtain ⟨rfl, rfl, rfl⟩ := by simpa using hrun'.symm.trans hrun
    refine ⟨n', hs', hn', ?_⟩
    rw [if_pos hloop]
    exact hlt
  rw [if_neg hloop]
  cases ph with
  | linked p b last =>
      obtain ⟨entry, hentry, hfin⟩ := hs
      obtain ⟨rfl, rfl, rfl⟩ := by simpa [threadStep, hentry] using hrun
      exact ⟨n, hfin, le_rfl, le_rfl⟩
  | storing rest c =>
      cases rest with
      | nil =>
          obtain ⟨rfl, rfl, rfl⟩ := by simpa [threadStep] using hrun
          have hlists := Finishes.lists hs
          simp only [Option.toList_none, List.map_nil, List.append_nil] at hlists
          exact ⟨n, hlists, le_rfl, le_rfl⟩
      | cons st rest =>
          obtain ⟨h', ms₁, hst, hfin⟩ := Finishes.next hs
          obtain ⟨rfl, rfl, rfl⟩ := by simpa [threadStep, hst] using hrun
          exact ⟨n, hfin, le_rfl, le_rfl⟩
  | appended c =>
      obtain ⟨rfl, rfl, rfl⟩ := by simpa [threadStep] using hrun
      refine ⟨n, (sound_iff_lists ?_).mpr hs, le_rfl, ?_⟩
      · split <;> rfl
      · split <;> simp [weight, Phase.extra]
  | sawModule c =>
      obtain ⟨rfl, rfl, rfl⟩ := by simpa [threadStep] using hrun
      refine ⟨n, (sound_iff_lists ?_).mpr hs, le_rfl, ?_⟩
      · split <;> rfl
      · split <;> simp [weight, Phase.extra]
  | idle => contradiction
  | linking p b last => contradiction
  | _ => exact absurd rfl hloop

/-- The tests before the loop change nothing, and may come at any time. -/
theorem threadStep_outside {w w' : World} {ms ms' : ModuleStruct} {ph ph' : Phase}
    (hmid : ph.midway = false) (hloop : ph.inLoop = false)
    (hrun : threadStep w ms ph = some (w', ms', ph')) :
    w' = w ∧ ms' = ms ∧ ph'.midway = false ∧ ph'.extra ≤ ph.extra := by
  cases ph with
  | appended c =>
      obtain ⟨rfl, rfl, rfl⟩ := by simpa [threadStep] using hrun
      refine ⟨rfl, rfl, ?_, ?_⟩ <;> split <;> simp [Phase.midway, Phase.extra]
  | sawModule c =>
      obtain ⟨rfl, rfl, rfl⟩ := by simpa [threadStep] using hrun
      refine ⟨rfl, rfl, ?_, ?_⟩ <;> split <;> simp [Phase.midway, Phase.extra]
  | idle => contradiction
  | testing c => contradiction
  | _ => contradiction

theorem step_orderly (ho : s.Orderly n) (hx : s.Exclusive l) (hs : ThreadStep s l s') :
    ∃ n', s'.Orderly n' ∧ s.Pays n l s' n' := by
  cases hs with
  | @dispatch t p irp b hidle hp hf hacc =>
      have hsound := ho.sound hx
      rw [hidle] at hsound
      obtain ⟨U, M, O, nxt, hready, hn⟩ := hsound
      refine ⟨n, Threads.Orderly.go hx ⟨rfl, U, M, O, nxt, hready.arriving hp hf fun hb => ?_, hn⟩,
        Threads.pays_go le_self_add (fun _ _ => rfl) ?_⟩
      · obtain ⟨sp, hsp, -⟩ := hacc hb
        exact ⟨sp, hsp⟩
      · rw [hidle]
        exact le_rfl
  | @link t p b last a left h ms here store =>
      have hsound := ho.sound hx
      rw [here] at hsound
      obtain ⟨rfl, U, M, O, nxt, harr, rfl⟩ := hsound
      have ha : s.world.heap a = none := by
        by_contra hne
        simp [linkEntry, hne] at store
      obtain ⟨h₁, ms₁, hlink, hlinked, hfin⟩ := harr.link left ha
      obtain ⟨rfl, rfl⟩ := by simpa using hlink.symm.trans store
      refine ⟨_, Threads.Orderly.go hx ⟨a, hlinked, hfin⟩,
        Threads.pays_go le_rfl (fun _ _ => rfl) ?_⟩
      simp only [here, weight, Phase.extra, Threads.loops, ThreadLabel.appends]
      omega
  | @step t w ms ph run =>
      have hother : ∀ t', t' ≠ t → s.loops t' (.step t) = 0 := fun t' ht' =>
        if_neg fun h => ht' h.1.symm
      by_cases hin : (s.phase t).midway = true ∨ (s.phase t).inLoop = true
      · obtain ⟨n', hs', hn', hpays⟩ := (ho.sound (hx hin)).step run
        refine ⟨n', Threads.Orderly.go (hx hin) hs', Threads.pays_go hn' hother ?_⟩
        simpa [Threads.loops, ThreadLabel.appends] using hpays
      · obtain ⟨hmid, hloop⟩ := not_or.mp hin
        obtain ⟨rfl, rfl, hph, hextra⟩ :=
          threadStep_outside (by simpa using hmid) (by simpa using hloop) run
        have hsame : ∀ t', ((s.go t s.world s.module ph).phase t').midway =
            (s.phase t').midway := by
          intro t'
          by_cases h : t' = t
          · rw [h, s.go_phase_same, hph, Bool.eq_false_of_not_eq_true hmid]
          · rw [s.go_phase_of_ne _ _ _ h]
        refine ⟨n, ?_, Threads.pays_go le_self_add hother ?_⟩
        · rcases ho with ⟨hnone, hlists⟩ | ⟨t₀, hmid₀, halone, hsound⟩
          · exact Or.inl ⟨fun t' => (hsame t').trans (hnone t'), hlists⟩
          · have hne : t₀ ≠ t := by
              rintro rfl
              exact hmid hmid₀
            refine Or.inr ⟨t₀, (hsame t₀).trans hmid₀,
              fun t' ht' => (hsame t').trans (halone t' ht'), ?_⟩
            rw [s.go_phase_of_ne _ _ _ hne]
            exact hsound
        · simp only [weight, Threads.loops, ThreadLabel.appends, hloop]
          simpa using hextra
  | cancel p =>
      refine ⟨n, ?_, fun t => le_self_add⟩
      rcases ho with ⟨hnone, hlists⟩ | ⟨t, hmid, halone, hsound⟩
      · exact Or.inl ⟨hnone, hlists.cancel p⟩
      · exact Or.inr ⟨t, hmid, halone, hsound.cancel p⟩

omit [DecidableEq T] in
/-- While no thread is on its way, a queue with a null head is empty. -/
theorem Threads.Orderly.empty (ho : s.Orderly n) (hquiet : ∀ t, (s.phase t).busy = false)
    (hhead : s.module.moduleIrpList = none ∨ s.module.userspaceIrpList = none) :
    s.module.Empty true ∨ s.module.Empty false := by
  have hrep : ∃ U M O nxt, Rep s.world.heap s.module U M O nxt := by
    rcases ho with ⟨-, U, M, O, nxt, hready, -⟩ | ⟨t, hmid, -, hsound⟩
    · exact ⟨U, M, O, nxt, hready.rep⟩
    · -- a thread that is midway but not on its way has only read a tail pointer
      have hbusy := hquiet t
      cases hph : s.phase t with
      | linking p b last =>
          rw [hph] at hsound
          obtain ⟨-, U, M, O, nxt, harr, -⟩ := hsound
          exact ⟨U, M, O, nxt, harr.ready.rep⟩
      | idle =>
          rw [hph] at hmid
          contradiction
      | _ =>
          rw [hph] at hbusy
          contradiction
  obtain ⟨U, M, O, nxt, hrep⟩ := hrep
  rcases hhead with hm | hu
  · refine Or.inl ⟨hm, ?_⟩
    have hnil := headAddr_eq_none.mp (hrep.module.seg.head_eq.symm.trans hm)
    show s.module.moduleIrpListEnd = none
    rw [hrep.module.tail_eq, hnil, lastAddr_nil]
  · refine Or.inr ⟨hu, ?_⟩
    have hnil := headAddr_eq_none.mp (hrep.user.seg.head_eq.symm.trans hu)
    show s.module.userspaceIrpListEnd = none
    rw [hrep.user.tail_eq, hnil, lastAddr_nil]

omit [DecidableEq T] in
theorem start_orderly (w : World) (name : List Wchar) (fileObject : Pfile) :
    (Threads.start T w name fileObject).Orderly 0 :=
  Or.inl ⟨fun _ => rfl, [], [], [], none, ⟨Rep.zeroed .., Owned.nil _, by simp, by simp⟩, rfl⟩

/-- What the steps of a run cost has been paid for by the appends. -/
theorem run_orderly {w : World} {name : List Wchar} {fileObject : Pfile}
    {tr : List (Threads T × ThreadLabel T)}
    (hrun : Run ThreadStep (Threads.start T w name fileObject) tr s)
    (hok : ∀ x ∈ tr, x.1.Exclusive x.2) :
    ∃ n, s.Orderly n ∧ ∀ t, weight n (s.phase t) + loopSteps t tr ≤ 28 * appended tr := by
  induction hrun with
  | nil => exact ⟨0, start_orderly w name fileObject, fun t => le_rfl⟩
  | @snoc tr s s' l hrun hs ih =>
      obtain ⟨n, ho, hpaid⟩ := ih fun x hx => hok x (List.mem_append_left _ hx)
      have hx : s.Exclusive l := hok (s, l) (by simp)
      obtain ⟨n', ho', hpays⟩ := step_orderly ho hx hs
      refine ⟨n', ho', fun t => ?_⟩
      have hsteps : loopSteps t (tr ++ [(s, l)]) = loopSteps t tr + s.loops t l := by
        simp [loopSteps]
      have happends : appended (tr ++ [(s, l)]) = appended tr + l.appends := by
        simp [appended]
      rw [hsteps, happends]
      have hold := hpaid t
      have hnew := hpays t
      omega

/-- While the threads keep out of each other's way, one of the queues is empty
    when no thread is on its way.  Every loop that can go on comes to its end,
    whatever is cancelled meanwhile; and however the threads take turns, a
    thread takes at most 28 steps in loops for each packet that is appended. -/
theorem no_stranded_work (w : World) (name : List Wchar) (fileObject : Pfile)
    {tr : List (Threads T × ThreadLabel T)} {s : Threads T}
    (hrun : Run ThreadStep (Threads.start T w name fileObject) tr s)
    (hok : ∀ x ∈ tr, x.1.Exclusive x.2) :
    ((∀ t, (s.phase t).busy = false) → s.module.Empty true ∨ s.module.Empty false) ∧
    (∀ t, (s.phase t).inLoop = true → s.Alone t → Returns s.world s.module (s.phase t)) ∧
    ∀ t, loopSteps t tr ≤ 28 * appended tr := by
  obtain ⟨n, ho, hpaid⟩ := run_orderly hrun hok
  refine ⟨fun hquiet => ?_, fun t hloop ht => ?_, fun t => ?_⟩
  · exact ho.empty hquiet (head_null_of_run hrun hquiet)
  · exact (ho.sound ht).returns hloop
  · exact le_trans (Nat.le_add_left ..) (hpaid t)

end Threads

-- ============================================================================
-- A loop that does not end
-- ============================================================================

/-- The phases of a loop that takes the request of `x` off its queue again and
    again. -/
def Spinning (x : Pairing) : Phase → Prop
  | .testing _ => True
  | .tested _ => True
  | .taking _ => True
  | .tookModule _ me => me = x.moduleEntry
  | .tookBoth _ me ue => me = x.moduleEntry ∧ ue = x.userspaceEntry
  | .paired _ y => y = x
  | .unlinking rest done _ => done = none ∧
      rest ∈ [takeOff false x.userspaceEntry, [.popEnd false], []]
  | _ => False

section Spinning

variable {w : World} {ms : ModuleStruct} {x : Pairing} {r : Option Addr}

/-- Where the entry of a cancelled request is linked to itself, the loop goes
    round. -/
theorem Spinning.advance {ph : Phase} (hm : ms.moduleIrpList = some x.moduleEntry)
    (hmc : w.heap x.moduleEntry = some ⟨x.moduleIrp, r⟩)
    (hu : ms.userspaceIrpList = some x.userspaceEntry)
    (huc : w.heap x.userspaceEntry = some ⟨x.userspaceIrp, some x.userspaceEntry⟩)
    (hc : (w.irps x.userspaceIrp).cancel = true) (hs : Spinning x ph) :
    ∃ ph', threadStep w ms ph = some (w, ms, ph') ∧ Spinning x ph' := by
  have hhead : ms.setHead (some x.userspaceEntry) false = ms := by
    rw [← hu]
    rfl
  cases ph with
  | testing c => exact ⟨.tested c, by simp [threadStep, hm], trivial⟩
  | tested c => exact ⟨.taking c, by simp [threadStep, hu], trivial⟩
  | taking c => exact ⟨.tookModule c x.moduleEntry, by simp [threadStep, hm], rfl⟩
  | tookModule c me =>
      obtain rfl : me = x.moduleEntry := hs
      exact ⟨.tookBoth c x.moduleEntry x.userspaceEntry, by simp [threadStep, hu], rfl, rfl⟩
  | tookBoth c me ue =>
      obtain ⟨rfl, rfl⟩ := hs
      exact ⟨.paired ⟨c.inFlight, c.foundWork || c.inFlight == some x.moduleIrp⟩ x,
        by simp [threadStep, hmc, huc], rfl⟩
  | paired c y =>
      obtain rfl : y = x := hs
      exact ⟨.unlinking _ none c, by rw [threadStep, if_pos hc], rfl, by simp⟩
  | unlinking rest done c =>
      obtain ⟨rfl, hrest⟩ := hs
      simp only [List.mem_cons, List.not_mem_nil, or_false] at hrest
      rcases hrest with rfl | rfl | rfl
      · exact ⟨.unlinking [.popEnd false] none c, by
          simp [threadStep, takeOff, ListStmt.exec, huc, hhead], rfl, by simp⟩
      · exact ⟨.unlinking [] none c, by
          simp [threadStep, ListStmt.exec, ModuleStruct.head, hu], rfl, by simp⟩
      · exact ⟨.testing c, rfl, trivial⟩
  | _ => exact hs.elim

/-- It never comes to its end. -/
theorem Spinning.not_returns {ph : Phase} (hm : ms.moduleIrpList = some x.moduleEntry)
    (hmc : w.heap x.moduleEntry = some ⟨x.moduleIrp, r⟩)
    (hu : ms.userspaceIrpList = some x.userspaceEntry)
    (huc : w.heap x.userspaceEntry = some ⟨x.userspaceIrp, some x.userspaceEntry⟩)
    (hc : (w.irps x.userspaceIrp).cancel = true) (hs : Spinning x ph) : ¬ Returns w ms ph := by
  intro hret
  induction hret with
  | idle => exact hs
  | @step w ms ph next run rest ih =>
      obtain ⟨ph', hrun, hs'⟩ := hs.advance hm hmc hu huc hc
      have hnext : next [] = (w, ms, ph') := Option.some.inj ((run []).symm.trans hrun)
      have hspin := ih []
      rw [hnext] at hspin
      exact hspin hm hmc hu huc hc hs'

end Spinning

-- ============================================================================
-- Runs on given inputs
-- ============================================================================

instance (irp : Irp) : Decidable (CreateFlagged irp) :=
  match h : irp.currentStackLocation with
  | none => isTrue fun sp hsp => absurd (h.symm.trans hsp) (by simp)
  | some sp => decidable_of_iff
      (sp.majorFunction = irpMjCreate → flagOn irp.flags irpCreateOperation = true)
      ⟨fun hf _ hsp => Option.some.inj (h.symm.trans hsp) ▸ hf, fun hf => hf sp h⟩

section Exec

variable {T : Type} [DecidableEq T]

/-- A step as a function. -/
def Threads.exec (s : Threads T) : ThreadLabel T → Option (Threads T)
  | .dispatch t p irp b => do
      guard (s.phase t = .idle ∧ completions s.world.log p ≠ some 0 ∧ CreateFlagged irp ∧
        (b = true → irp.currentStackLocation.any (moduleBufferOk irp) = true))
      some (s.go t ((s.world.setIrp p irp).record (.queued p b)) s.module
        (.linking p b (s.module.tail b)))
  | .link t a left =>
      match s.phase t with
      | .linking p b last => do
          let (h, ms) ← linkEntry s.world.heap s.module b last a left
          some (s.go t { s.world with heap := h } ms (.linked p b last))
      | _ => none
  | .step t => do
      let (w, ms, ph) ← threadStep s.world s.module (s.phase t)
      some (s.go t w ms ph)
  | .cancel p => some { s with world := s.world.cancel p }

theorem thread_exec_sound {s s' : Threads T} {l : ThreadLabel T} (h : s.exec l = some s') :
    ThreadStep s l s' := by
  cases l with
  | dispatch t p irp b =>
      simp only [Threads.exec, Option.bind_eq_bind, Option.bind_eq_some_iff,
        Option.guard_eq_some', Option.some.injEq] at h
      obtain ⟨-, ⟨hidle, hp, hf, hacc⟩, rfl⟩ := h
      refine .dispatch hidle hp hf fun hb => ?_
      simpa [Option.any_eq_true] using hacc hb
  | link t a left =>
      simp only [Threads.exec] at h
      split at h
      case h_1 p b last here =>
        obtain ⟨⟨h₁, ms⟩, hstore, heq⟩ := Option.bind_eq_some_iff.mp h
        obtain rfl := Option.some.inj heq
        exact .link here hstore
      case h_2 => contradiction
  | step t =>
      obtain ⟨⟨w, ms, ph⟩, hrun, heq⟩ := Option.bind_eq_some_iff.mp h
      obtain rfl := Option.some.inj heq
      exact .step hrun
  | cancel p =>
      obtain rfl := Option.some.inj h
      exact .cancel p

end Exec

section Sample

variable {T : Type} [DecidableEq T] [Fintype T]

instance (s : Threads T) (t : T) : Decidable (s.Alone t) :=
  inferInstanceAs (Decidable (∀ t', t' ≠ t → (s.phase t').midway = false))

instance (s : Threads T) : (l : ThreadLabel T) → Decidable (s.Exclusive l)
  | .dispatch t _ _ _ => inferInstanceAs (Decidable (s.Alone t))
  | .link t _ _ => inferInstanceAs (Decidable (s.Alone t))
  | .step t => inferInstanceAs
      (Decidable ((s.phase t).midway = true ∨ (s.phase t).inLoop = true → s.Alone t))
  | .cancel _ => inferInstanceAs (Decidable True)

omit [DecidableEq T] [Fintype T] in
/-- Thread `t` is called with the packet at `p`, gets the node `a` for it, and
    takes `k` more steps. -/
def dispatches (t : T) (p : Pirp) (irp : Irp) (b : Bool) (a : Addr) (k : Nat) :
    List (ThreadLabel T) :=
  [.dispatch t p irp b, .link t a ⟨0, none⟩] ++ List.replicate k (.step t)

end Sample

/-- Four threads. -/
inductive Caller where
  | first
  | second
  | third
  | fourth
deriving DecidableEq

def Caller.all : List Caller := [first, second, third, fourth]

theorem Caller.mem_all (t : Caller) : t ∈ all.toFinset := by
  cases t <;> decide

instance : Fintype Caller := ⟨Caller.all.toFinset, Caller.mem_all⟩

/-- They are idle, on a freshly mounted module. -/
abbrev sampleThreads : Threads Caller := Threads.start Caller emptyWorld [] 0

/-- Two threads append a read each, the first of which is cancelled while the
    second thread comes to the loop with a module packet. -/
def sampleMeeting : List (ThreadLabel Caller) :=
  List.flatten
    [dispatches .first 1 sampleRead false 101 5, dispatches .second 11 sampleModule true 111 7,
      dispatches .third 2 sampleRead false 102 5, [.cancel 1, .step .second, .step .second]]

/-- The loop ends, with another thread in between, and all return. -/
def sampleParting : List (ThreadLabel Caller) :=
  List.flatten
    [[.step .second, .step .first], List.replicate 22 (.step .second), [.step .first, .step .third]]

/-- The loop ends although two other threads are on their way, and in the end
    the queues are empty. -/
theorem no_stranded_work_three_threads :
    (∃ tr s, Run ThreadStep sampleThreads tr s ∧
      (s.phase .first).busy = true ∧ (s.phase .third).busy = true ∧
      (s.phase .second).inLoop = true ∧ Returns s.world s.module (s.phase .second)) ∧
    ∃ tr s, Run ThreadStep sampleThreads tr s ∧
      s.world.log = [.queuedUserspace 1, .queuedModule 11, .queuedUserspace 2, .delivered 2 11,
        .completed 11] ∧ (s.module.Empty true ∨ s.module.Empty false) := by
  have hview : (replay Threads.exec (fun s l => decide (s.Exclusive l)) sampleThreads
      sampleMeeting).map
        (fun s => (s.phase .first, s.phase .second, s.phase .third, s.phase .fourth)) =
      some (.appended ⟨none, false⟩, .taking ⟨some 11, false⟩, .appended ⟨none, false⟩,
        .idle) := by
    decide +kernel
  obtain ⟨s, hs, hphases⟩ := Option.map_eq_some_iff.mp hview
  obtain ⟨h0, h1, h2, h3⟩ := by simpa using hphases
  obtain ⟨tr, hrun, hok⟩ := Run.replay thread_exec_sound Run.nil (by simp) hs
  have hok' : ∀ x ∈ tr, x.1.Exclusive x.2 := fun x hx => of_decide_eq_true (hok x hx)
  have hview' : (replay Threads.exec (fun s l => decide (s.Exclusive l)) sampleThreads
      (sampleMeeting ++ sampleParting)).map
        (fun s => (decide (∀ t, s.phase t = .idle), s.world.log)) =
      some (true, [.queuedUserspace 1, .queuedModule 11, .queuedUserspace 2, .delivered 2 11,
        .completed 11]) := by
    decide +kernel
  obtain ⟨s', hs', hphases'⟩ := Option.map_eq_some_iff.mp hview'
  obtain ⟨hidle, hlog⟩ := by simpa using hphases'
  obtain ⟨tr', hrun', hok''⟩ := Run.replay thread_exec_sound Run.nil (by simp) hs'
  refine ⟨⟨tr, s, hrun, by rw [h0]; rfl, by rw [h2]; rfl, by rw [h1]; rfl,
    (no_stranded_work emptyWorld [] 0 hrun hok').2.1 .second (by rw [h1]; rfl) fun t ht => ?_⟩,
    tr', s', hrun', hlog, (no_stranded_work emptyWorld [] 0 hrun' fun x hx =>
      of_decide_eq_true (hok'' x hx)).1 fun t => by rw [hidle t]; rfl⟩
  cases t with
  | first => rw [h0]; rfl
  | second => exact absurd rfl ht
  | third => rw [h2]; rfl
  | fourth => rw [h3]; rfl

/-- A request is appended behind the one that is being delivered: its entry is
    linked to one that is not on the queue any more. -/
def sampleAppendedLate : List (ThreadLabel Caller) :=
  List.flatten
    [dispatches .first 1 sampleRead false 101 6, [.dispatch .second 2 sampleRead false],
      dispatches .third 11 sampleModule true 111 23, [.link .second 102 ⟨0, none⟩],
      List.replicate 6 (.step .second), dispatches .third 12 sampleModule true 112 7]

/-- Three threads are about to work on the same two entries, the request of
    which is cancelled.  The first drops it and delivers the next request; the
    second drops it once more, finds the delivered request at the head again,
    and links its entry to itself; the third puts that entry back again. -/
def sampleSpinning : List (ThreadLabel Caller) :=
  List.flatten
    [dispatches .first 1 sampleRead false 101 6, dispatches .first 2 sampleRead false 102 6,
      [.cancel 1], dispatches .second 11 sampleModule true 111 12,
      dispatches .third 12 sampleModule true 112 12, dispatches .fourth 13 sampleModule true 113 12,
      List.replicate 21 (.step .second), List.replicate 21 (.step .third),
      List.replicate 4 (.step .fourth), [.cancel 2]]

/-- Without the mutex a request is left behind next to a module packet when all
    threads have returned, and a loop goes on for ever when all the other
    threads have. -/
theorem stranded_work :
    (∃ tr s, Run ThreadStep sampleThreads tr s ∧ (∀ t, s.phase t = .idle) ∧
      ¬ s.module.Empty true ∧ ¬ s.module.Empty false) ∧
    ∃ tr s, Run ThreadStep sampleThreads tr s ∧ (∀ t, t ≠ .fourth → s.phase t = .idle) ∧
      (s.phase .fourth).inLoop = true ∧ ¬ Returns s.world s.module (s.phase .fourth) := by
  constructor
  · have hview : (replay Threads.exec (fun _ _ => true) sampleThreads
        sampleAppendedLate).map (fun s => (decide (∀ t, s.phase t = .idle),
          s.module.moduleIrpList, s.module.userspaceIrpListEnd)) =
        some (true, some 112, some 102) := by
      decide +kernel
    obtain ⟨s, hs, hphases⟩ := Option.map_eq_some_iff.mp hview
    obtain ⟨hidle, hm, hu⟩ := by simpa using hphases
    obtain ⟨tr, hrun, -⟩ := Run.replay thread_exec_sound Run.nil (by simp) hs
    refine ⟨tr, s, hrun, hidle, fun h => ?_, fun h => ?_⟩
    · exact absurd (hm.symm.trans h.1) (by simp)
    · exact absurd (hu.symm.trans h.2) (by simp)
  · have hview : (replay Threads.exec (fun _ _ => true) sampleThreads
        sampleSpinning).map
          (fun s => (decide (∀ t, t ≠ .fourth → s.phase t = .idle), s.phase .fourth)) =
        some (true, .testing ⟨some 13, false⟩) := by
      decide +kernel
    have hmem : (replay Threads.exec (fun _ _ => true) sampleThreads
        sampleSpinning).map (fun s => decide (s.module.moduleIrpList = some 113 ∧
          s.module.userspaceIrpList = some 102 ∧ s.world.heap 113 = some ⟨13, none⟩ ∧
          s.world.heap 102 = some ⟨2, some 102⟩ ∧ (s.world.irps 2).cancel = true)) =
        some true := by
      decide +kernel
    obtain ⟨s, hs, hphases⟩ := Option.map_eq_some_iff.mp hview
    obtain ⟨hidle, h3⟩ := by simpa using hphases
    rw [hs] at hmem
    obtain ⟨hm, hu, hmc, huc, hc⟩ := by simpa using hmem
    obtain ⟨tr, hrun, -⟩ := Run.replay thread_exec_sound Run.nil (by simp) hs
    exact ⟨tr, s, hrun, hidle, by rw [h3]; rfl,
      Spinning.not_returns (x := ⟨113, 13, 102, 2⟩) hm hmc hu huc hc (by rw [h3]; trivial)⟩

end FuseNt
