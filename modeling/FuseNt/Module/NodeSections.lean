/-
  FuseNt.Module.NodeSections

  Requests that work with the nodes at the same time (fuse.c).

  What a request does with the nodes it does in sections during which it has
  `f->lock`, so that the sections of all requests come one after the other, in
  any order.  Between them a request has the locks on its paths.  A state keeps,
  besides the table, what the kernel has of the nodes: how many lookups it has
  not forgotten, and how many files it has open; and what the requests have of
  them: references for the time of a lookup of ".", and paths.

  `Allowed` is what the kernel and the requests keep to.  The kernel names the
  nodes it knows only, forgets what it has been told, and locks the directory of
  a name that is looked up, unlinked or renamed; it keeps a file that is open.
  A request works with the paths that it has.

  A lookup of ".." is left out, which goes on with a node that it does not have.
-/

import FuseNt.Lib.Run
import FuseNt.Module.PathLocks

namespace FuseNt.NodeTable

open FuseNt.Lib

-- ============================================================================
-- States
-- ============================================================================

/-- A path that a request has: the arguments and the results of `get_path`.  The
    nodes whose locks it shares are `way`.  With `pending`, it is still to take
    the node away from its name, or to put another one there. -/
structure PathHold where
  nodeid : Nat
  name : Option FileName
  path : FileName
  wnode : Option Nat
  way : List (Nat × FileName)
  pending : Bool
deriving DecidableEq

namespace PathHold

/-- The locks of a request. -/
def holder (h : PathHold) : LockHolder Nat := ⟨h.way.map Prod.fst, h.wnode⟩

/-- The place that a request is to change. -/
def slot (h : PathHold) : Option (Nat × FileName) :=
  if h.pending then h.name.map (h.nodeid, ·) else none

/-- It has changed it. -/
def settled (h : PathHold) : PathHold := { h with pending := false }

end PathHold

/-- The table, what the kernel has looked up and opened, and what the requests
    have. -/
structure Sys where
  table : Table
  held : Nat → Nat
  opens : Nat → Nat
  refs : Nat → Nat
  paths : List PathHold

/-- The state after `fuse_new_common`. -/
def Sys.new : Sys := ⟨fuseNewCommon, fun _ => 0, fun _ => 0, fun _ => 0, []⟩

/-- The places that are to be changed. -/
def Sys.slots (s : Sys) : List (Nat × FileName) := s.paths.filterMap PathHold.slot

/-- The nodes of the way up. -/
def wayUp (t : Table) : Nat → Nat → List (Nat × FileName)
  | 0, _ => []
  | fuel + 1, i =>
      match t.at_ i with
      | none => []
      | some (p, name) => (i, name) :: wayUp t fuel p

-- ============================================================================
-- Sections
-- ============================================================================

/-- What is done during one hold of `f->lock`. -/
inductive Section where
  /-- One round of `get_path_common`. -/
  | getPath (heap : PathHeap) (nodeid : Nat) (name : Option FileName) (wr : Bool) (ticket : Int)
  /-- One round of `get_path2`. -/
  | getPath2 (heap1 heap2 : PathHeap) (nodeid1 : Nat) (name1 : Option FileName) (nodeid2 : Nat)
      (name2 : Option FileName) (wr : Bool) (ticket : Int)
  /-- `free_path`, and each half of `free_path2`. -/
  | freePath (h : PathHold)
  /-- `find_node` with a path of the parent. -/
  | findNode (mem : NodeMem) (h : PathHold) (name : Option FileName)
  /-- `forget_node`, or one round of its loop. -/
  | forgetNode (nodeid nlookup : Nat)
  | removeNode (h : PathHold)
  /-- `rename_node` of `fuse_lib_rename`. -/
  | renameNode (strdup : Bool) (h h' : PathHold)
  /-- `rename_node` of `hide_node`. -/
  | hideNode (strdup : Bool) (h : PathHold) (newname : FileName)
  | openNode (ino : Nat)
  | release (ino : Nat)
  /-- The begin and the end of a lookup of ".". -/
  | refNode (nodeid : Nat)
  | unrefNode (nodeid : Nat)

/-- What comes of it. -/
inductive Reply where
  | done
  /-- The request has to wait for `f->lock` again. -/
  | wait
  | stale
  | err (err : Int)
  | path (r : PathResult)
  | path2 (r : PathResult2)
  /-- The number and the generation of the node. -/
  | entry (found : Option (Nat × Nat))
  | hidden (unlinkHidden : Bool)
deriving DecidableEq

/-- The paths of the requests when one more has been locked. -/
def Sys.withPath (s : Sys) (nodeid : Nat) (name : Option FileName) (wr : Bool) (path : FileName)
    (wnode : Option Nat) : List PathHold :=
  ⟨nodeid, name, path, wnode, wayUp s.table (2 ^ 32) nodeid, wr⟩ :: s.paths

/-- The generation of a node. -/
def Table.generationOf (t : Table) (i : Nat) : Nat := ((t.nodes i).map Node.generation).getD 0

/-- The sections. -/
def exec (noforget : Bool) (s : Sys) : Section → Except Stop (Reply × Sys)
  | .getPath heap nodeid name wr ticket => do
      let (r, t) ← tryGetPath heap s.table nodeid name wr ticket
      match r with
      | .failed _ => return (.path r, { s with table := t })
      | .locked path wnode =>
          return (.path r, { s with table := t, paths := s.withPath nodeid name wr path wnode })
  | .getPath2 heap1 heap2 nodeid1 name1 nodeid2 name2 wr ticket => do
      let (r, t) ← tryGetPath2 heap1 heap2 s.table nodeid1 name1 nodeid2 name2 wr ticket
      match r with
      | .failed _ => return (.path2 r, { s with table := t })
      | .locked path1 wnode1 path2 wnode2 =>
          let s1 := { s with paths := s.withPath nodeid1 name1 wr path1 wnode1 }
          return (.path2 r,
            { s1 with table := t, paths := s1.withPath nodeid2 name2 wr path2 wnode2 })
  | .freePath h => do
      let t ← unlockPath s.table h.nodeid h.wnode none 0
      return (.done, { s with table := t, paths := s.paths.erase h })
  | .findNode mem h name => do
      let (found, t) ← NodeTable.findNode noforget mem s.table h.nodeid name
      match found with
      | none => return (.entry none, { s with table := t })
      | some i =>
          return (.entry (some (i, t.generationOf i)), { s with table := t, held := bump s.held i })
  | .forgetNode nodeid nlookup =>
      if forgetWaits s.table nodeid nlookup then .ok (.wait, s)
      else do
        let t ← NodeTable.forgetNode s.table nodeid nlookup
        let held := Function.update s.held nodeid (s.held nodeid - nlookup)
        return (.done, { s with table := t, held := if nodeid = fuseRootId then s.held else held })
  | .removeNode h =>
      match h.name with
      | none => .error .dangling
      | some name => do
          let t ← NodeTable.removeNode noforget s.table h.nodeid name
          return (.done, { s with table := t, paths := h.settled :: s.paths.erase h })
  | .renameNode strdup h h' =>
      match h.name, h'.name with
      | some oldname, some newname => do
          let (err, t) ← NodeTable.renameNode noforget strdup s.table h.nodeid oldname h'.nodeid
            newname false
          let paths := h.settled :: h'.settled :: (s.paths.erase h).erase h'
          return (.err err, { s with table := t, paths := paths })
      | _, _ => .error .dangling
  | .hideNode strdup h newname =>
      match h.name with
      | none => .error .dangling
      | some oldname => do
          let (err, t) ← NodeTable.renameNode noforget strdup s.table h.nodeid oldname h.nodeid
            newname true
          return (.err err, { s with table := t })
  | .openNode ino => do
      let t ← NodeTable.openNode s.table ino
      return (.done, { s with table := t, opens := bump s.opens ino })
  | .release ino => do
      let (unlinkHidden, t) ← fuseDoRelease s.table ino
      let opens := Function.update s.opens ino (s.opens ino - 1)
      return (.hidden unlinkHidden, { s with table := t, opens := opens })
  | .refNode nodeid =>
      match NodeTable.refNode s.table nodeid with
      | none => .ok (.stale, s)
      | some t => .ok (.done, { s with table := t, refs := bump s.refs nodeid })
  | .unrefNode nodeid => do
      let t ← NodeTable.unrefNode s.table nodeid
      return (.done,
        { s with table := t, refs := Function.update s.refs nodeid (s.refs nodeid - 1) })

/-- The kernel has a node, or a lookup of "." has. -/
def Sys.Known (s : Sys) (i : Nat) : Prop := i = fuseRootId ∨ 0 < s.held i ∨ 0 < s.refs i

/-- The name is a string. -/
def IsName (name : FileName) : Prop := (0 : UInt8) ∉ name

instance (name : FileName) : Decidable (IsName name) := inferInstanceAs (Decidable (_ ∉ _))

/-- The arguments of `get_path`. -/
structure PathAsked (s : Sys) (nodeid : Nat) (name : Option FileName) (wr : Bool) : Prop where
  known : s.Known nodeid
  isName : ∀ n, name = some n → IsName n
  named : wr = true → name ≠ none
  locked : ∀ n, wr = true → name = some n → (nodeid, n) ∉ s.slots

/-- A node that is unlinked has been looked up, if there is no `forget`. -/
def LookedUpAt (noforget : Bool) (s : Sys) (h : PathHold) : Prop :=
  noforget = true → ∀ i name, h.name = some name → s.table.at_ i = some (h.nodeid, name) → 0 < s.held i

/-- What the kernel and the requests keep to. -/
def Allowed (noforget : Bool) (s : Sys) : Section → Prop
  | .getPath _ nodeid name wr ticket => PathAsked s nodeid name wr ∧ ticket ≠ 0
  | .getPath2 _ _ nodeid1 name1 nodeid2 name2 wr ticket =>
      PathAsked s nodeid1 name1 wr ∧ PathAsked s nodeid2 name2 wr ∧
        (wr = true → (nodeid1, name1) ≠ (nodeid2, name2)) ∧ ticket ≠ 0
  | .freePath h => h ∈ s.paths
  | .findNode _ h name =>
      h ∈ s.paths ∧ ∀ n, name = some n → IsName n ∧ (h.nodeid, n) ∉ s.slots
  | .forgetNode nodeid nlookup =>
      nodeid = fuseRootId ∨ 0 < s.held nodeid ∧ nlookup ≤ s.held nodeid ∧
        (nlookup = s.held nodeid → s.opens nodeid = 0)
  | .removeNode h => h ∈ s.paths ∧ h.slot ≠ none ∧ LookedUpAt noforget s h
  | .renameNode _ h h' =>
      h ∈ s.paths ∧ h' ∈ s.paths.erase h ∧ h.slot ≠ none ∧ h'.slot ≠ none ∧ LookedUpAt noforget s h'
  | .hideNode _ h newname =>
      h ∈ s.paths ∧ h.slot ≠ none ∧ IsName newname ∧ (h.nodeid, newname) ∉ s.slots
  | .openNode ino => 0 < s.held ino
  | .release ino => 0 < s.opens ino
  | .refNode _ => True
  | .unrefNode nodeid => 0 < s.refs nodeid

/-- A section that keeps to the rules, with what comes of it. -/
def SectionStep (noforget : Bool) (s : Sys) (l : Section × Reply) (s' : Sys) : Prop :=
  Allowed noforget s l.1 ∧ exec noforget s l.1 = .ok (l.2, s')

end FuseNt.NodeTable
