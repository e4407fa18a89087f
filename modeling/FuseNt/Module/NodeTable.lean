/-
  FuseNt.Module.NodeTable

  The nodes of the module library (fuse.c), with all that is done to them:
  files are looked up, forgotten, unlinked and renamed.

  A node is known by its id, which stands for the pointer to it as well: the
  memory of a node is in use exactly as long as its id is in the table.  The
  name table is kept as it is, a chain of nodes for each hash value.  Counts of
  references are not bounded.  Whatever makes the process stop is an error.
-/

import FuseNt.Lib.Forest
import FuseNt.Module.PathBuffer

namespace FuseNt.NodeTable

open FuseNt.Lib

-- ============================================================================
-- struct node and struct fuse
-- ============================================================================

/-- Why the process does not go on. -/
inductive Stop where
  /-- `get_node` or `unhash_name` aborts. -/
  | abort
  /-- An assertion fails. -/
  | assertion
  /-- A pointer is NULL, or leads to a node that has been freed. -/
  | dangling
  /-- `next_id` looks for an id forever. -/
  | noIds
  /-- A loop goes up from node to node forever. -/
  | loops
  /-- The making of a path stops. -/
  | path (stop : BufStop)
deriving DecidableEq

/-- `struct node`.  A `parent` or `name` of `none` is NULL. -/
structure Node where
  generation : Nat
  refctr : Int
  parent : Option Nat
  name : Option FileName
  nlookup : Nat
  openCount : Int
  isHidden : Bool
  treelock : Int
  ticket : Int
deriving DecidableEq

/-- The part of `struct fuse` that has to do with the nodes. -/
structure Table where
  nodes : Nat → Option Node
  nameTable : Nat → List Nat
  ctr : Nat
  generation : Nat

/-- The table that `fuse_new_common` makes. -/
def fuseNewCommon : Table where
  nodes := Function.update (fun _ => none) fuseRootId
    (some ⟨0, 1, none, some [slash], 1, 0, false, 0, 0⟩)
  nameTable := fun _ => []
  ctr := 0
  generation := 0

/-- Memory is written. -/
def Table.set (t : Table) (i : Nat) (node : Node) : Table :=
  { t with nodes := Function.update t.nodes i (some node) }

/-- A pointer is followed. -/
def Table.deref (t : Table) (i : Nat) : Except Stop Node :=
  match t.nodes i with
  | some node => .ok node
  | none => .error .dangling

/-- `get_node`. -/
def getNode (t : Table) (nodeid : Nat) : Except Stop Node :=
  match t.nodes nodeid with
  | some node => .ok node
  | none => .error .abort

-- ============================================================================
-- The name table
-- ============================================================================

/-- A `char` as an `unsigned int`. -/
def charUnsigned (c : UInt8) : Nat := if c.toNat < 128 then c.toNat else 2 ^ 32 - 256 + c.toNat

/-- `name_hash`. -/
def nameHash (parent : Nat) (name : FileName) : Nat :=
  let hash := match name with
    | [] => 0
    | c :: rest =>
        rest.foldl (fun hash c => (hash * 32 + 2 ^ 32 - hash + charUnsigned c) % 2 ^ 32)
          (charUnsigned c)
  (hash + parent) % 2 ^ 64 % 14057

/-- The loop of `lookup_node`. -/
def lookupChain (t : Table) (parent : Nat) (name : FileName) : List Nat → Except Stop (Option Nat)
  | [] => .ok none
  | i :: rest => do
      let node ← t.deref i
      match node.parent with
      | none => .error .dangling
      | some p =>
          let _ ← t.deref p
          if p = parent then
            match node.name with
            | none => .error .dangling
            | some n => if n = name then .ok (some i) else lookupChain t parent name rest
          else lookupChain t parent name rest

/-- `lookup_node`. -/
def lookupNode (t : Table) (parent : Nat) (name : FileName) : Except Stop (Option Nat) :=
  lookupChain t parent name (t.nameTable (nameHash parent name))

/-- `delete_node`. -/
def deleteNode (t : Table) (i : Nat) : Except Stop Table := do
  let node ← t.deref i
  if node.treelock ≠ 0 ∨ node.name ≠ none then .error .assertion
  else .ok { t with nodes := Function.update t.nodes i none }

/-- `unref_node`. -/
def unrefNode (t : Table) (i : Nat) : Except Stop Table := do
  let node ← t.deref i
  if node.refctr ≤ 0 then .error .assertion
  else
    let t := t.set i { node with refctr := node.refctr - 1 }
    if node.refctr - 1 = 0 then deleteNode t i else .ok t

/-- `unhash_name`. -/
def unhashName (t : Table) (i : Nat) : Except Stop Table := do
  let node ← t.deref i
  match node.name with
  | none => .ok t
  | some name =>
      match node.parent with
      | none => .error .dangling
      | some parent =>
          let _ ← t.deref parent
          let hash := nameHash parent name
          if i ∈ t.nameTable hash then
            let nameTable := Function.update t.nameTable hash ((t.nameTable hash).erase i)
            let t ← unrefNode { t with nameTable := nameTable } parent
            let node ← t.deref i
            .ok (t.set i { node with name := none, parent := none })
          else .error .abort

/-- `hash_name`, and whether it returns 0; `strdup` says whether there is memory
    for the name. -/
def hashName (t : Table) (i parentid : Nat) (name : FileName) (strdup : Bool) :
    Except Stop (Bool × Table) := do
  let hash := nameHash parentid name
  let parent ← getNode t parentid
  if strdup then
    let t := t.set parentid { parent with refctr := parent.refctr + 1 }
    let node ← t.deref i
    let t := t.set i { node with name := some name, parent := some parentid }
    return (true, { t with nameTable := Function.update t.nameTable hash (i :: t.nameTable hash) })
  else
    let node ← t.deref i
    return (false, t.set i { node with name := none })

-- ============================================================================
-- Looking up and forgetting
-- ============================================================================

/-- The loop of `next_id`; the result is the counter and the generation. -/
def nextIdLoop (t : Table) : Nat → Nat → Nat → Option (Nat × Nat)
  | 0, _, _ => none
  | fuel + 1, ctr, generation =>
      let ctr := (ctr + 1) % 2 ^ 32
      let generation := if ctr = 0 then (generation + 1) % 2 ^ 32 else generation
      if ctr = 0 ∨ ctr = fuseUnknownIno ∨ (t.nodes ctr).isSome then nextIdLoop t fuel ctr generation
      else some (ctr, generation)

/-- `next_id`.  After 2³² rounds the counter is back where it was. -/
def nextId (t : Table) : Except Stop Table :=
  match nextIdLoop t (2 ^ 32) t.ctr t.generation with
  | some (ctr, generation) => .ok { t with ctr := ctr, generation := generation }
  | none => .error .noIds

/-- What `find_node` gets when it asks for memory: whether `calloc` and `strdup`
    succeed. -/
structure NodeMem where
  calloc : Bool
  strdup : Bool

/-- `node->nlookup ++`. -/
def lookedUp (t : Table) (i : Nat) : Except Stop Table := do
  let node ← t.deref i
  return t.set i { node with nlookup := node.nlookup + 1 }

/-- `find_node`; the result is the id of the node, or `none` for NULL. -/
def findNode (noforget : Bool) (mem : NodeMem) (t : Table) (parent : Nat) (name : Option FileName) :
    Except Stop (Option Nat × Table) := do
  match name with
  | none =>
      let _ ← getNode t parent
      return (some parent, ← lookedUp t parent)
  | some name =>
      match ← lookupNode t parent name with
      | some i => return (some i, ← lookedUp t i)
      | none =>
          if mem.calloc then
            let t ← nextId t
            let node : Node := ⟨t.generation, 1, none, none, if noforget then 1 else 0, 0, false, 0, 0⟩
            -- the new node is not in the id table yet
            let _ ← getNode t parent
            let (hashed, t') ← hashName (t.set t.ctr node) t.ctr parent name mem.strdup
            if hashed then return (some t.ctr, ← lookedUp t' t.ctr) else return (none, t)
          else return (none, t)

/-- `forget_node`, the part below the loop that waits for the lock on the node. -/
def forgetNode (t : Table) (nodeid nlookup : Nat) : Except Stop Table := do
  if nodeid = fuseRootId then return t
  else
    let node ← getNode t nodeid
    if node.nlookup < nlookup then .error .assertion
    else
      let t := t.set nodeid { node with nlookup := node.nlookup - nlookup }
      if node.nlookup - nlookup = 0 then unrefNode (← unhashName t nodeid) nodeid
      else return t

/-- Whether `forget_node` waits. -/
def forgetWaits (t : Table) (nodeid nlookup : Nat) : Bool :=
  match t.nodes nodeid with
  | none => false
  | some node => nodeid ≠ fuseRootId ∧ node.nlookup = nlookup ∧ node.treelock ≠ 0

-- ============================================================================
-- Unlinking and renaming
-- ============================================================================

def eBusy : Int := 16

/-- `unlink_node`. -/
def unlinkNode (noforget : Bool) (t : Table) (i : Nat) : Except Stop Table := do
  if noforget then
    let node ← t.deref i
    if node.nlookup ≤ 1 then .error .assertion
    else unhashName (t.set i { node with nlookup := node.nlookup - 1 }) i
  else unhashName t i

/-- `remove_node`. -/
def removeNode (noforget : Bool) (t : Table) (dir : Nat) (name : FileName) : Except Stop Table := do
  match ← lookupNode t dir name with
  | none => return t
  | some i => unlinkNode noforget t i

/-- `rename_node`, from where the new name is free. -/
def moveNode (strdup : Bool) (t : Table) (i newdir : Nat) (newname : FileName) (hide : Bool) :
    Except Stop (Int × Table) := do
  let t ← unhashName t i
  let (hashed, t) ← hashName t i newdir newname strdup
  if hashed then
    if hide then
      let node ← t.deref i
      return (0, t.set i { node with isHidden := true })
    else return (0, t)
  else return (-eNoMem, t)

/-- `rename_node`, and what it returns. -/
def renameNode (noforget strdup : Bool) (t : Table) (olddir : Nat) (oldname : FileName)
    (newdir : Nat) (newname : FileName) (hide : Bool) : Except Stop (Int × Table) := do
  let node ← lookupNode t olddir oldname
  let newnode ← lookupNode t newdir newname
  match node with
  | none => return (0, t)
  | some i =>
      match newnode with
      | none => moveNode strdup t i newdir newname hide
      | some j =>
          if hide then return (-eBusy, t)
          else moveNode strdup (← unlinkNode noforget t j) i newdir newname hide

-- ============================================================================
-- Open files, and references for the time of a lookup of "."
-- ============================================================================

/-- `get_node(f, ino)->open_count++`. -/
def openNode (t : Table) (ino : Nat) : Except Stop Table := do
  let node ← getNode t ino
  return t.set ino { node with openCount := node.openCount + 1 }

/-- `fuse_do_release`, and whether it goes on to unlink a hidden file. -/
def fuseDoRelease (t : Table) (ino : Nat) : Except Stop (Bool × Table) := do
  let node ← getNode t ino
  if node.openCount ≤ 0 then .error .assertion
  else
    let node := { node with openCount := node.openCount - 1 }
    if node.isHidden ∧ node.openCount = 0 then
      return (true, t.set ino { node with isHidden := false })
    else return (false, t.set ino node)

/-- `dot->refctr++`; `none` if there is no such node. -/
def refNode (t : Table) (i : Nat) : Option Table :=
  (t.nodes i).map fun node => t.set i { node with refctr := node.refctr + 1 }

end FuseNt.NodeTable
