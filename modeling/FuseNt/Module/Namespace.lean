/-
  FuseNt.Module.Namespace

  What the nodes are for.  The kernel knows files by numbers, the file system by
  paths.  The names that the kernel has come across are kept as a forest: each
  number is at a place, which is a name below another number.  A number is given
  to a place when it is looked up for the first time, and goes with the file
  when it is renamed; the path of a number is what the names on the way to it
  say.

  There are no tables here, no counts of references, no locks and no tickets.
-/

import FuseNt.Lib.Simulation
import FuseNt.Module.NodeSections

namespace FuseNt.NodeTable

open FuseNt.Lib

/-- The places of the numbers, and how many lookups of each the kernel has not
    forgotten. -/
structure Names where
  place : Forest Nat FileName
  held : Nat → Nat

/-- No names have been looked up. -/
def Names.new : Names := ⟨fun _ => none, fun _ => 0⟩

/-- A place is empty. -/
def vacate (place : Forest Nat FileName) (x : Nat × FileName) : Forest Nat FileName :=
  fun i => if place i = some x then none else place i

/-- The path of a number, and of a name below it. -/
def Names.PathOf (n : Names) (nodeid : Nat) (name : Option FileName) (path : FileName) : Prop :=
  ∃ labels, Forest.Leads n.place fuseRootId nodeid labels ∧ path = pathString (labels ++ name.toList)

/-- The file at `old` goes to `new`, which is empty. -/
inductive Moves (place : Forest Nat FileName) (old new : Nat × FileName) :
    Int → Forest Nat FileName → Prop
  | moved {i : Nat} (h : place i = some old) : Moves place old new 0 (place.attach i new.1 new.2)
  /-- There is no memory for the name, and the file has none any more. -/
  | noMem {i : Nat} (h : place i = some old) : Moves place old new (-eNoMem) (place.detach i)

/-- What a section means for the names. -/
inductive NamesStep (noforget : Bool) (n : Names) : Section × Reply → Names → Prop
  | path {heap : PathHeap} {nodeid : Nat} {name : Option FileName} {wr : Bool} {ticket : Int}
      {path : FileName} {wnode : Option Nat} (h : n.PathOf nodeid name path) :
      NamesStep noforget n (.getPath heap nodeid name wr ticket, .path (.locked path wnode)) n
  | noPath {heap : PathHeap} {nodeid : Nat} {name : Option FileName} {wr : Bool} {ticket err : Int} :
      NamesStep noforget n (.getPath heap nodeid name wr ticket, .path (.failed err)) n
  | paths {heap1 heap2 : PathHeap} {nodeid1 nodeid2 : Nat} {name1 name2 : Option FileName} {wr : Bool}
      {ticket : Int} {path1 path2 : FileName} {wnode1 wnode2 : Option Nat}
      (h1 : n.PathOf nodeid1 name1 path1) (h2 : n.PathOf nodeid2 name2 path2) :
      NamesStep noforget n (.getPath2 heap1 heap2 nodeid1 name1 nodeid2 name2 wr ticket,
        .path2 (.locked path1 wnode1 path2 wnode2)) n
  | noPaths {heap1 heap2 : PathHeap} {nodeid1 nodeid2 : Nat} {name1 name2 : Option FileName}
      {wr : Bool} {ticket err : Int} :
      NamesStep noforget n (.getPath2 heap1 heap2 nodeid1 name1 nodeid2 name2 wr ticket,
        .path2 (.failed err)) n
  | freed {h : PathHold} : NamesStep noforget n (.freePath h, .done) n
  /-- The number of a place, or of the file itself. -/
  | known {mem : NodeMem} {h : PathHold} {name : Option FileName} {i generation : Nat}
      (hplace : match name with
        | none => i = h.nodeid
        | some name => n.place i = some (h.nodeid, name)) :
      NamesStep noforget n (.findNode mem h name, .entry (some (i, generation)))
        { n with held := bump n.held i }
  /-- A number that is not in use is given to a place. -/
  | new {mem : NodeMem} {h : PathHold} {name : FileName} {i generation : Nat}
      (hfree : ∀ j, n.place j ≠ some (h.nodeid, name)) (hroot : i ≠ fuseRootId)
      (hheld : n.held i = 0) (hplace : n.place i = none)
      (hchildren : Forest.children n.place i = ∅) :
      NamesStep noforget n (.findNode mem h (some name), .entry (some (i, generation)))
        ⟨n.place.attach i h.nodeid name, bump n.held i⟩
  | noMem {mem : NodeMem} {h : PathHold} {name : FileName} :
      NamesStep noforget n (.findNode mem h (some name), .entry none) n
  | waits {nodeid nlookup : Nat} : NamesStep noforget n (.forgetNode nodeid nlookup, .wait) n
  | forgotRoot {nlookup : Nat} : NamesStep noforget n (.forgetNode fuseRootId nlookup, .done) n
  /-- A number that has been forgotten gives up its place. -/
  | forgot {nodeid nlookup : Nat} (hroot : nodeid ≠ fuseRootId) :
      NamesStep noforget n (.forgetNode nodeid nlookup, .done)
        ⟨if n.held nodeid = nlookup ∧ noforget = false then n.place.detach nodeid else n.place,
          Function.update n.held nodeid (n.held nodeid - nlookup)⟩
  | removed {h : PathHold} {name : FileName} (hname : h.name = some name) :
      NamesStep noforget n (.removeNode h, .done) { n with place := vacate n.place (h.nodeid, name) }
  /-- The file that is in the way of another one has lost its place. -/
  | renamed {strdup : Bool} {h h' : PathHold} {oldname newname : FileName} {err : Int}
      {place : Forest Nat FileName} (hold : h.name = some oldname) (hnew : h'.name = some newname)
      (hmoves : Moves (vacate n.place (h'.nodeid, newname)) (h.nodeid, oldname)
        (h'.nodeid, newname) err place) :
      NamesStep noforget n (.renameNode strdup h h', .err err) { n with place := place }
  | unknown {strdup : Bool} {h h' : PathHold} {oldname : FileName} (hold : h.name = some oldname)
      (hfree : ∀ j, n.place j ≠ some (h.nodeid, oldname)) :
      NamesStep noforget n (.renameNode strdup h h', .err 0) n
  | hid {strdup : Bool} {h : PathHold} {oldname newname : FileName} {err : Int}
      {place : Forest Nat FileName} (hold : h.name = some oldname)
      (hfree : ∀ j, n.place j ≠ some (h.nodeid, newname))
      (hmoves : Moves n.place (h.nodeid, oldname) (h.nodeid, newname) err place) :
      NamesStep noforget n (.hideNode strdup h newname, .err err) { n with place := place }
  | notHid {strdup : Bool} {h : PathHold} {newname : FileName} {j : Nat}
      (htaken : n.place j = some (h.nodeid, newname)) :
      NamesStep noforget n (.hideNode strdup h newname, .err (-eBusy)) n
  | nothing {strdup : Bool} {h : PathHold} {oldname newname : FileName}
      (hold : h.name = some oldname) (hfree : ∀ j, n.place j ≠ some (h.nodeid, oldname)) :
      NamesStep noforget n (.hideNode strdup h newname, .err 0) n
  | opened {ino : Nat} : NamesStep noforget n (.openNode ino, .done) n
  | released {ino : Nat} {unlinkHidden : Bool} :
      NamesStep noforget n (.release ino, .hidden unlinkHidden) n
  | stale {nodeid : Nat} : NamesStep noforget n (.refNode nodeid, .stale) n
  | ref {nodeid : Nat} : NamesStep noforget n (.refNode nodeid, .done) n
  | unref {nodeid : Nat} : NamesStep noforget n (.unrefNode nodeid, .done) n

/-- The names that the nodes stand for. -/
def Sys.names (s : Sys) : Names := ⟨s.table.at_, s.held⟩

end FuseNt.NodeTable
