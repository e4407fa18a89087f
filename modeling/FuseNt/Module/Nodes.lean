/-
  FuseNt.Module.Nodes

  The node layer of the module library (fuse.c), which gives the operations of
  a path based file system to the handlers as low-level operations.

  A node is kept with its ancestors, as its `parent` pointer never changes: the
  requests that move or unlink a node do not exist here.  The hash tables are
  finite maps.  The locks on the paths are not modelled, and neither is the
  reference count: the only node that is ever forgotten is one that has just
  been made, and has no children.
-/

import FuseNt.Module.Handlers

namespace FuseNt

open FuseNt.Lib

-- ============================================================================
-- Nodes
-- ============================================================================

/-- The name of a file, without its NUL. -/
abbrev FileName := List UInt8

/-- `struct node`, with the nodes that `parent` leads to.  The root's `parent`
    is NULL. -/
inductive Node where
  | root
  | child (nodeid : Nat) (name : FileName) (parent : Node)
deriving DecidableEq

namespace Node

def nodeid : Node → Nat
  | root => fuseRootId
  | child nodeid _ _ => nodeid

def parent : Node → Option Node
  | root => none
  | child _ _ parent => some parent

/-- The names on the way from the root. -/
def names : Node → List FileName
  | root => []
  | child _ name parent => parent.names ++ [name]

end Node

/-- Why the process does not go on: `get_node` aborts, the NULL parent of the
    root is dereferenced, or `next_id` looks for an id forever. -/
inductive Stop where
  | abort
  | nullParent
  | noIds
deriving DecidableEq

/-- `struct fuse`.  The name table is keyed by the id of the parent and the
    name; `nlookup` is the field of the node with that id, and `fs` the state
    of the file system. -/
structure Fuse (φ : Type) where
  idTable : Nat → Option Node
  nameTable : Nat × FileName → Option Node
  nlookup : Nat → Nat
  ctr : Nat
  fs : φ

/-- What `struct fuse_config` has to say about nodes: whether `negative_timeout`
    is other than 0.0, and `noforget`. -/
structure FuseConfig where
  negativeTimeout : Bool
  noforget : Bool

/-- `struct stat`: whether `S_ISREG` holds, and what `fill_entry` makes of it
    behind the node id. -/
structure Stat where
  isReg : Bool
  rest : List UInt8
  rest_length : rest.length = 120

/-- The operations of the file system, as `fuse_fs_*` calls them.  Their result
    is 0 or negative for an error; opening a file yields `fh` and the flags. -/
structure PathFs (φ : Type) where
  getattr : φ → FileName → (Int × Stat) × φ
  fgetattr : φ → FileName → Nat → (Int × Stat) × φ
  openFile : φ → FileName → Nat → (Int × Nat × Nat) × φ
  create : φ → FileName → Nat → Nat → (Int × Nat × Nat) × φ
  release : φ → FileName → Nat → φ
  /-- The operations that do nothing with the nodes, up to their reply. -/
  other : φ → LlCall → FileName → FsReply × φ

section Nodes

variable {φ : Type}

/-- The state that `fuse_new_common` makes. -/
def fuseNewCommon (fs : φ) : Fuse φ where
  idTable := Function.update (fun _ => none) fuseRootId (some .root)
  nameTable := fun _ => none
  nlookup := Function.update (fun _ => 0) fuseRootId 1
  ctr := 0
  fs := fs

/-- `get_node`. -/
def getNode (f : Fuse φ) (nodeid : Nat) : Except Stop Node :=
  match f.idTable nodeid with
  | some node => .ok node
  | none => .error .abort

def fuseUnknownIno : Nat := 0xffffffff

/-- The loop of `next_id`. -/
def nextIdLoop (f : Fuse φ) : Nat → Nat → Option Nat
  | 0, _ => none
  | fuel + 1, ctr =>
      let ctr := (ctr + 1) % 2 ^ 32
      if ctr = 0 ∨ ctr = fuseUnknownIno ∨ (f.idTable ctr).isSome then nextIdLoop f fuel ctr
      else some ctr

/-- `next_id`.  After 2³² rounds the counter is back where it was. -/
def nextId (f : Fuse φ) : Except Stop Nat :=
  match nextIdLoop f (2 ^ 32) f.ctr with
  | some nodeid => .ok nodeid
  | none => .error .noIds

/-- `node->nlookup ++`. -/
def Fuse.lookedUp (f : Fuse φ) (node : Node) : Fuse φ :=
  { f with nlookup := Function.update f.nlookup node.nodeid (f.nlookup node.nodeid + 1) }

/-- A new node in the tables: `hash_name` and `hash_id`. -/
def Fuse.hash (f : Fuse φ) (nodeid : Nat) (name : FileName) (parent : Node) (nlookup : Nat) :
    Fuse φ :=
  { f with
    idTable := Function.update f.idTable nodeid (some (.child nodeid name parent))
    nameTable :=
      Function.update f.nameTable (parent.nodeid, name) (some (.child nodeid name parent))
    nlookup := Function.update f.nlookup nodeid nlookup
    ctr := nodeid }

/-- `find_node`. -/
def findNode (cfg : FuseConfig) (f : Fuse φ) (parent : Nat) (name : Option FileName) :
    Except Stop (Node × Fuse φ) :=
  match name with
  | none => do
      let node ← getNode f parent
      return (node, f.lookedUp node)
  | some name =>
      match f.nameTable (parent, name) with
      | some node => .ok (node, f.lookedUp node)
      | none => do
          let nodeid ← nextId f
          let parent ← getNode f parent
          let nlookup := if cfg.noforget then 2 else 1
          return (.child nodeid name parent, f.hash nodeid name parent nlookup)

/-- A node out of the tables: `unhash_name` and `delete_node`. -/
def Fuse.unhash (f : Fuse φ) : Node → Fuse φ
  | .root => f
  | .child nodeid name parent =>
      { f with
        idTable := Function.update f.idTable nodeid none
        nameTable := Function.update f.nameTable (parent.nodeid, name) none }

/-- `forget_node` of one lookup. -/
def forgetNode (f : Fuse φ) (nodeid : Nat) : Except Stop (Fuse φ) :=
  if nodeid = fuseRootId then .ok f
  else do
    let node ← getNode f nodeid
    let f' := { f with nlookup := Function.update f.nlookup nodeid (f.nlookup nodeid - 1) }
    return if f'.nlookup nodeid = 0 then f'.unhash node else f'

/-- The string of a path. -/
def pathString (names : List FileName) : FileName :=
  if names = [] then [slash] else names.flatMap (slash :: ·)

/-- `try_get_path`. -/
def tryGetPath (f : Fuse φ) (nodeid : Nat) (name : Option FileName) : Except Stop FileName := do
  let node ← getNode f nodeid
  return pathString (node.names ++ name.toList)

/-- `lookup_path`; `attr` is the result of `getattr`. -/
def lookupPath (cfg : FuseConfig) (f : Fuse φ) (nodeid : Nat) (name : Option FileName)
    (attr : (Int × Stat) × φ) : Except Stop ((Int × Nat × Stat) × Fuse φ) :=
  let ((res, stat), fs) := attr
  let f := { f with fs := fs }
  if res = 0 then do
    let (node, f) ← findNode cfg f nodeid name
    return ((0, node.nodeid, stat), f)
  else .ok ((res, 0, stat), f)

-- ============================================================================
-- The operations
-- ============================================================================

def eStale : Int := 251

/-- The name ".". -/
def dot : FileName := [0x2e]

/-- The name "..". -/
def dotdot : FileName := [0x2e, 0x2e]

variable (cfg : FuseConfig) (fs : PathFs φ)

/-- `fuse_lib_lookup` from where the parent and the name are settled; no name is
    for the parent itself. -/
def lookupAt (f : Fuse φ) (parent : Nat) (name : Option FileName) :
    Except Stop (FsReply × Fuse φ) := do
  let path ← tryGetPath f parent name
  let ((err, ino, stat), f) ← lookupPath cfg f parent name (fs.getattr f.fs path)
  let entry (ino : Nat) : FsReply := fuseReplyEntry ⟨ino, stat.rest, stat.rest_length⟩
  return (if err = 0 then entry ino
    else if err = -eNoEnt ∧ cfg.negativeTimeout then entry 0
    else fuseReplyErr (-err), f)

/-- `fuse_lib_lookup`. -/
def fuseLibLookup (f : Fuse φ) (parent : Nat) (name : FileName) :
    Except Stop (FsReply × Fuse φ) :=
  if name = dot then
    match f.idTable parent with
    | none => .ok (fuseReplyErr eStale, f)
    | some _ => lookupAt cfg fs f parent none
  else if name = dotdot then do
    let node ← getNode f parent
    match node.parent with
    | none => .error .nullParent
    | some parent => lookupAt cfg fs f parent.nodeid none
  else lookupAt cfg fs f parent (some name)

/-- `fuse_lib_open`. -/
def fuseLibOpen (f : Fuse φ) (ino flags : Nat) : Except Stop (FsReply × Fuse φ) := do
  let path ← tryGetPath f ino none
  let ((err, fh, openFlags), st) := fs.openFile f.fs path flags
  let f := { f with fs := st }
  if err = 0 then
    let _ ← getNode f ino
    return (fuseReplyOpen fh openFlags, f)
  else return (fuseReplyErr (-err), f)

/-- `fuse_lib_create`. -/
def fuseLibCreate (f : Fuse φ) (parent : Nat) (name : FileName) (mode flags : Nat) :
    Except Stop (FsReply × Fuse φ) := do
  let path ← tryGetPath f parent (some name)
  let ((err, fh, openFlags), st) := fs.create f.fs path mode flags
  if err = 0 then
    let ((err, ino, stat), f) ← lookupPath cfg f parent (some name) (fs.fgetattr st path fh)
    if err ≠ 0 then
      return (fuseReplyErr (-err), { f with fs := fs.release f.fs path fh })
    else if !stat.isReg then
      let f ← forgetNode { f with fs := fs.release f.fs path fh } ino
      return (fuseReplyErr eIo, f)
    else
      let _ ← getNode f ino
      return (fuseReplyCreate ⟨ino, stat.rest, stat.rest_length⟩ fh openFlags, f)
  else return (fuseReplyErr (-err), { f with fs := st })

/-- The node that a call is for. -/
def LlCall.nodeid : LlCall → Nat
  | .lookup parent _ => parent
  | .getattr ino => ino
  | .openFile ino _ => ino
  | .read ino _ _ _ => ino
  | .write ino _ _ _ => ino
  | .opendir ino _ => ino
  | .readdir ino _ _ _ => ino
  | .create parent _ _ _ => parent

/-- The other operations, which go by the path of the node. -/
def fuseLibOther (f : Fuse φ) (c : LlCall) : Except Stop (FsReply × Fuse φ) := do
  let path ← tryGetPath f c.nodeid none
  let (reply, st) := fs.other f.fs c path
  return (reply, { f with fs := st })

/-- `fuse_path_ops`. -/
def fusePathOps (f : Fuse φ) : LlCall → Except Stop (FsReply × Fuse φ)
  | .lookup parent name => fuseLibLookup cfg fs f parent name
  | .openFile ino flags => fuseLibOpen fs f ino flags
  | .create parent name mode flags => fuseLibCreate cfg fs f parent name mode flags
  | c => fuseLibOther fs f c

-- ============================================================================
-- The tables
-- ============================================================================

/-- The tables fit together: ids are found under their own number, the ancestors
    of a node are there, and the names are the ones of the nodes. -/
structure NodesOk (f : Fuse φ) : Prop where
  root : f.idTable fuseRootId = some .root
  nodeid : ∀ {i n}, f.idTable i = some n → n.nodeid = i
  range : ∀ {i n}, f.idTable i = some n → 0 < i ∧ i < 2 ^ 32
  parent : ∀ {i n p}, f.idTable i = some n → n.parent = some p → f.idTable p.nodeid = some p
  named : ∀ {p name n}, f.nameTable (p, name) = some n →
    f.idTable n.nodeid = some n ∧ ∃ i q, n = .child i name q ∧ q.nodeid = p
  looked : ∀ {i n}, i ≠ fuseRootId → f.idTable i = some n → 0 < f.nlookup i

/-- The id can be given to a new node. -/
structure FreeId (f : Fuse φ) (i : Nat) : Prop where
  pos : 0 < i
  known : i < fuseUnknownIno
  free : f.idTable i = none

/-- There are more than `k` ids for new nodes. -/
def Room (f : Fuse φ) (k : Nat) : Prop := ∃ ids : Finset Nat, k < ids.card ∧ ∀ i ∈ ids, FreeId f i

section Tables

variable {cfg fs} {f f' : Fuse φ} {p n : Node} {name : FileName} {i k : Nat}

theorem nodesOk_fuseNewCommon (st : φ) : NodesOk (fuseNewCommon st) where
  root := by simp [fuseNewCommon]
  nodeid := by
    intro i n h
    by_cases hi : i = fuseRootId
    · subst hi
      simp only [fuseNewCommon, Function.update_self, Option.some.injEq] at h
      subst h
      rfl
    · simp [fuseNewCommon, hi] at h
  range := by
    intro i n h
    by_cases hi : i = fuseRootId
    · subst hi
      decide
    · simp [fuseNewCommon, hi] at h
  parent := by
    intro i n p h hp
    by_cases hi : i = fuseRootId
    · subst hi
      simp only [fuseNewCommon, Function.update_self, Option.some.injEq] at h
      subst h
      cases hp
    · simp [fuseNewCommon, hi] at h
  named := by
    intro p name n h
    cases h
  looked := by
    intro i n hi h
    simp [fuseNewCommon, hi] at h

/-- What is not in the tables does not matter, as long as lookups are counted. -/
theorem NodesOk.congr (h : NodesOk f) (hid : f'.idTable = f.idTable)
    (hname : f'.nameTable = f.nameTable)
    (hlooked : ∀ {i n}, i ≠ fuseRootId → f.idTable i = some n → 0 < f'.nlookup i) :
    NodesOk f' where
  root := by rw [hid]; exact h.root
  nodeid := by rw [hid]; exact h.nodeid
  range := by rw [hid]; exact h.range
  parent := by rw [hid]; exact h.parent
  named := by rw [hid, hname]; exact h.named
  looked := by rw [hid]; exact hlooked

theorem NodesOk.withFs (h : NodesOk f) (st : φ) : NodesOk { f with fs := st } :=
  h.congr rfl rfl h.looked

theorem NodesOk.lookedUp (h : NodesOk f) (n : Node) : NodesOk (f.lookedUp n) := by
  refine h.congr rfl rfl ?_
  intro i m hi hm
  by_cases hn : i = n.nodeid
  · subst hn
    simp [Fuse.lookedUp]
  · simp only [Fuse.lookedUp, Function.update_of_ne hn]
    exact h.looked hi hm

theorem FreeId.ne (h : FreeId f i) (hn : f.idTable k = some n) : k ≠ i := by
  rintro rfl
  rw [h.free] at hn
  cases hn

theorem NodesOk.hash (h : NodesOk f) (hp : f.idTable p.nodeid = some p) (hi : FreeId f i)
    (hk : 0 < k) : NodesOk (f.hash i name p k) := by
  have hold : ∀ {j m}, f.idTable j = some m → (f.hash i name p k).idTable j = some m := by
    intro j m hm
    exact (Function.update_of_ne (hi.ne hm) _ _).trans hm
  have hnew : (f.hash i name p k).idTable i = some (.child i name p) := Function.update_self ..
  have hcases : ∀ {j m}, (f.hash i name p k).idTable j = some m →
      (j = i ∧ m = .child i name p) ∨ f.idTable j = some m := by
    intro j m hm
    by_cases hj : j = i
    · subst hj
      exact .inl ⟨rfl, (Option.some.inj (hnew.symm.trans hm)).symm⟩
    · exact .inr ((Function.update_of_ne hj _ _).symm.trans hm)
  constructor
  · exact hold h.root
  · intro j m hm
    rcases hcases hm with ⟨rfl, rfl⟩ | hm
    · rfl
    · exact h.nodeid hm
  · intro j m hm
    rcases hcases hm with ⟨rfl, -⟩ | hm
    · exact ⟨hi.pos, hi.known.trans (by decide)⟩
    · exact h.range hm
  · intro j m q hm hq
    rcases hcases hm with ⟨-, rfl⟩ | hm
    · obtain rfl : p = q := Option.some.inj hq
      exact hold hp
    · exact hold (h.parent hm hq)
  · intro q name' m hm
    by_cases hkey : (q, name') = (p.nodeid, name)
    · obtain ⟨rfl, rfl⟩ := Prod.mk.inj hkey
      have hm' : Node.child i name' p = m := by simpa [Fuse.hash] using hm
      subst hm'
      exact ⟨hnew, i, p, rfl, rfl⟩
    · simp only [Fuse.hash, Function.update_of_ne hkey] at hm
      obtain ⟨hm, hchild⟩ := h.named hm
      exact ⟨hold hm, hchild⟩
  · intro j m hj hm
    rcases hcases hm with ⟨rfl, -⟩ | hm
    · simpa [Fuse.hash] using hk
    · simp only [Fuse.hash, Function.update_of_ne (hi.ne hm)]
      exact h.looked hj hm

-- ============================================================================
-- next_id and find_node
-- ============================================================================

theorem nextIdLoop_free {fuel ctr : Nat} (h : nextIdLoop f fuel ctr = some i) : FreeId f i := by
  induction fuel generalizing ctr with
  | zero => cases h
  | succ fuel ih =>
      simp only [nextIdLoop] at h
      split at h
      · exact ih h
      · rename_i hfree
        obtain ⟨hpos, hknown, hnone⟩ := not_or.mp hfree |>.imp_right not_or.mp
        obtain rfl := Option.some.inj h
        have hlt := Nat.mod_lt (ctr + 1) (show 0 < 2 ^ 32 by decide)
        refine ⟨Nat.pos_of_ne_zero hpos, ?_, Option.not_isSome_iff_eq_none.mp hnone⟩
        unfold fuseUnknownIno at hknown ⊢
        omega

theorem nextIdLoop_isSome {fuel ctr : Nat} (hk : k < fuel) (h : FreeId f ((ctr + 1 + k) % 2 ^ 32)) :
    (nextIdLoop f fuel ctr).isSome := by
  induction k generalizing fuel ctr with
  | zero =>
      obtain ⟨fuel, rfl⟩ := Nat.exists_eq_succ_of_ne_zero (Nat.ne_of_gt hk)
      have hfree : ¬ ((ctr + 1) % 2 ^ 32 = 0 ∨ (ctr + 1) % 2 ^ 32 = fuseUnknownIno ∨
          (f.idTable ((ctr + 1) % 2 ^ 32)).isSome) := by
        rw [Nat.add_zero] at h
        rintro (hzero | hunknown | hused)
        · exact absurd hzero (Nat.ne_of_gt h.pos)
        · exact absurd hunknown (Nat.ne_of_lt h.known)
        · rw [h.free] at hused
          cases hused
      simp only [nextIdLoop, if_neg hfree]
      rfl
  | succ k ih =>
      obtain ⟨fuel, rfl⟩ := Nat.exists_eq_succ_of_ne_zero (Nat.ne_of_gt (Nat.zero_lt_of_lt hk))
      simp only [nextIdLoop]
      split
      · refine ih (Nat.lt_of_succ_lt_succ hk) ?_
        have hround : ((ctr + 1) % 2 ^ 32 + 1 + k) % 2 ^ 32 = (ctr + 1 + (k + 1)) % 2 ^ 32 := by
          omega
        rw [hround]
        exact h
      · rfl

/-- An id is found if there is one. -/
theorem nextId_cases (f : Fuse φ) :
    (∃ i, nextId f = .ok i ∧ FreeId f i) ∨ (nextId f = .error .noIds ∧ ¬ Room f 0) := by
  unfold nextId
  cases hloop : nextIdLoop f (2 ^ 32) f.ctr with
  | some i => exact .inl ⟨i, rfl, nextIdLoop_free hloop⟩
  | none =>
      refine .inr ⟨rfl, ?_⟩
      rintro ⟨ids, hcard, hfree⟩
      obtain ⟨i, hi⟩ := Finset.card_pos.mp hcard
      have hfound : (f.ctr + 1 + (i + 2 ^ 32 - 1 - f.ctr % 2 ^ 32) % 2 ^ 32) % 2 ^ 32 = i := by
        have hlt : i < 0xffffffff := (hfree i hi).known
        have hpos := (hfree i hi).pos
        omega
      have hsome := nextIdLoop_isSome (k := (i + 2 ^ 32 - 1 - f.ctr % 2 ^ 32) % 2 ^ 32)
        (Nat.mod_lt _ (by decide)) (by rw [hfound]; exact hfree i hi)
      rw [hloop] at hsome
      cases hsome

/-- The three ways to find a node. -/
inductive Finds (f : Fuse φ) (p : Node) : Option FileName → Node → Fuse φ → Prop
  | self : Finds f p none p (f.lookedUp p)
  | known {name : FileName} {n : Node} : f.nameTable (p.nodeid, name) = some n →
      Finds f p (some name) n (f.lookedUp n)
  | made {name : FileName} {i k : Nat} : f.nameTable (p.nodeid, name) = none → FreeId f i → 0 < k →
      Finds f p (some name) (.child i name p) (f.hash i name p k)

theorem findNode_finds (cfg : FuseConfig) (hp : f.idTable p.nodeid = some p)
    (name : Option FileName) :
    (∃ n f', findNode cfg f p.nodeid name = .ok (n, f') ∧ Finds f p name n f') ∨
      (findNode cfg f p.nodeid name = .error .noIds ∧ ¬ Room f 0) := by
  have hget : getNode f p.nodeid = .ok p := by
    unfold getNode
    rw [hp]
  cases name with
  | none =>
      refine .inl ⟨p, f.lookedUp p, ?_, .self⟩
      simp only [findNode, hget]
      rfl
  | some name =>
      cases hname : f.nameTable (p.nodeid, name) with
      | some n =>
          refine .inl ⟨n, f.lookedUp n, ?_, .known hname⟩
          simp only [findNode, hname]
      | none =>
          rcases nextId_cases f with ⟨i, hnext, hfree⟩ | ⟨hnext, hroom⟩
          · refine .inl ⟨_, _, ?_, .made (k := if cfg.noforget then 2 else 1) hname hfree (by
              split <;> decide)⟩
            simp only [findNode, hname, hnext, hget]
            rfl
          · refine .inr ⟨?_, hroom⟩
            simp only [findNode, hname, hnext]
            rfl

/-- What a node is like that has been found. -/
structure FoundNode (f : Fuse φ) (p : Node) (name : Option FileName) (n : Node) (f' : Fuse φ) :
    Prop where
  ok : NodesOk f'
  node : f'.idTable n.nodeid = some n
  names : n.names = p.names ++ name.toList
  fs : f'.fs = f.fs
  room : ∀ {k}, Room f (k + 1) → Room f' k

theorem Room.congr (h : Room f k) (hid : f'.idTable = f.idTable) : Room f' k := by
  obtain ⟨ids, hcard, hfree⟩ := h
  refine ⟨ids, hcard, fun i hi => ⟨(hfree i hi).pos, (hfree i hi).known, ?_⟩⟩
  rw [hid]
  exact (hfree i hi).free

theorem Room.lookedUp (h : Room f (k + 1)) (n : Node) : Room (f.lookedUp n) k := by
  obtain ⟨ids, hcard, hfree⟩ := h
  exact Room.congr ⟨ids, Nat.lt_of_succ_lt hcard, hfree⟩ rfl

theorem Room.hash (h : Room f (k + 1)) (i : Nat) (name : FileName) (p : Node) (nlookup : Nat) :
    Room (f.hash i name p nlookup) k := by
  obtain ⟨ids, hcard, hfree⟩ := h
  refine ⟨ids.erase i, ?_, fun j hj => ?_⟩
  · have hle := Finset.pred_card_le_card_erase (s := ids) (a := i)
    omega
  · obtain ⟨hne, hj⟩ := Finset.mem_erase.mp hj
    exact ⟨(hfree j hj).pos, (hfree j hj).known,
      (Function.update_of_ne hne _ _).trans (hfree j hj).free⟩

theorem Finds.found {name : Option FileName} (h : Finds f p name n f') (hf : NodesOk f)
    (hp : f.idTable p.nodeid = some p) : FoundNode f p name n f' := by
  cases h with
  | self =>
      exact ⟨hf.lookedUp p, hp, (List.append_nil _).symm, rfl, fun h => h.lookedUp p⟩
  | known hname =>
      obtain ⟨hn, i, q, rfl, hq⟩ := hf.named hname
      have hqp : q = p := by
        have hparent := hf.parent hn rfl
        rw [hq, hp] at hparent
        exact (Option.some.inj hparent).symm
      subst hqp
      exact ⟨hf.lookedUp _, hn, rfl, rfl, fun h => h.lookedUp _⟩
  | made hname hfree hk =>
      exact ⟨hf.hash hp hfree hk, Function.update_self .., rfl, rfl, fun h => h.hash ..⟩

/-- A node that was found for a name is not the root. -/
theorem Finds.ne_root (h : Finds f p (some name) n f') (hf : NodesOk f) :
    n.nodeid ≠ fuseRootId := by
  cases h with
  | known hname =>
      obtain ⟨hn, i, q, rfl, -⟩ := hf.named hname
      intro hroot
      rw [hroot, hf.root] at hn
      cases hn
  | made _ hfree _ => exact (hfree.ne hf.root).symm

/-- A node that was found can be forgotten again. -/
theorem Finds.forget (h : Finds f p (some name) n f') (hf : NodesOk f)
    (hp : f.idTable p.nodeid = some p) (st : φ) :
    ∃ f'', forgetNode { f' with fs := st } n.nodeid = .ok f'' ∧ NodesOk f'' := by
  have hfound := h.found hf hp
  have hne := h.ne_root hf
  have hget : getNode { f' with fs := st } n.nodeid = .ok n := by
    unfold getNode
    simp only [hfound.node]
  unfold forgetNode
  rw [if_neg hne, hget]
  refine ⟨_, rfl, ?_⟩
  cases h with
  | known hname =>
      -- the node was there, and is still looked up as often as before
      have hpos := hf.looked hne (hf.named hname).1
      have hcount : (f.lookedUp n).nlookup n.nodeid - 1 = f.nlookup n.nodeid := by
        simp [Fuse.lookedUp]
      simp only [Function.update_self, hcount]
      rw [if_neg (Nat.ne_of_gt hpos)]
      refine (hf.lookedUp n).congr rfl rfl ?_
      intro j m hj hm
      by_cases hjn : j = n.nodeid
      · subst hjn
        simpa using hpos
      · simp only [Function.update_of_ne hjn]
        exact (hf.lookedUp n).looked hj hm
  | @made _ i k hname hfree hk =>
      have hcount : (f.hash i name p k).nlookup (Node.child i name p).nodeid = k :=
        Function.update_self ..
      simp only [Function.update_self, hcount]
      split
      · -- the node is new, and leaves the tables as they were
        have hid : Function.update (f.hash i name p k).idTable i none = f.idTable := by
          simp only [Fuse.hash, Function.update_idem]
          rw [← hfree.free]
          exact Function.update_eq_self _ _
        have htable : Function.update (f.hash i name p k).nameTable (p.nodeid, name) none =
            f.nameTable := by
          simp only [Fuse.hash, Function.update_idem]
          rw [← hname]
          exact Function.update_eq_self _ _
        refine hf.congr hid htable ?_
        intro j m hj hm
        have hji : j ≠ i := hfree.ne hm
        simp only [Fuse.unhash, Fuse.hash, Node.nodeid, Function.update_of_ne hji]
        exact hf.looked hj hm
      · rename_i hcount
        have hok : NodesOk (f.hash i name p (k - 1)) :=
          hf.hash hp hfree (Nat.pos_of_ne_zero hcount)
        refine hok.congr rfl rfl ?_
        intro j m hj hm
        simpa [Fuse.hash, Node.nodeid] using hok.looked hj hm

-- ============================================================================
-- What an operation does
-- ============================================================================

theorem ok_bind {ε α β : Type} (a : α) (g : α → Except ε β) :
    (Except.ok a >>= g) = g a := rfl

theorem getNode_ok (h : f.idTable i = some n) : getNode f i = .ok n := by
  unfold getNode
  rw [h]

theorem tryGetPath_ok (h : f.idTable i = some n) (name : Option FileName) :
    tryGetPath f i name = .ok (pathString (n.names ++ name.toList)) := by
  unfold tryGetPath
  rw [getNode_ok h]
  rfl

theorem lookupPath_cases (cfg : FuseConfig) (hp : f.idTable p.nodeid = some p)
    (name : Option FileName) (res : Int) (stat : Stat) (st : φ) :
    (res ≠ 0 ∧ lookupPath cfg f p.nodeid name ((res, stat), st) =
        .ok ((res, 0, stat), { f with fs := st })) ∨
      (res = 0 ∧ ∃ n f', lookupPath cfg f p.nodeid name ((res, stat), st) =
        .ok ((0, n.nodeid, stat), f') ∧ Finds { f with fs := st } p name n f') ∨
      (res = 0 ∧ lookupPath cfg f p.nodeid name ((res, stat), st) = .error .noIds ∧
        ¬ Room f 0) := by
  by_cases hres : res = 0
  · right
    have hfind := findNode_finds cfg (f := { f with fs := st }) hp name
    rcases hfind with ⟨n, f', hfind, hfinds⟩ | ⟨hfind, hroom⟩
    · refine .inl ⟨hres, n, f', ?_, hfinds⟩
      simp only [lookupPath, hres, if_true, hfind]
      rfl
    · refine .inr ⟨hres, ?_, ?_⟩
      · simp only [lookupPath, hres, if_true, hfind]
        rfl
      · exact fun h => hroom (h.congr rfl)
  · refine .inl ⟨hres, ?_⟩
    simp only [lookupPath, if_neg hres]

/-- The reply to a lookup that fails. -/
def failedLookup (cfg : FuseConfig) (res : Int) (stat : Stat) : FsReply :=
  if res = -eNoEnt ∧ cfg.negativeTimeout then fuseReplyEntry ⟨0, stat.rest, stat.rest_length⟩
  else fuseReplyErr (-res)

/-- What a lookup can do whose `getattr` has the result `attr`; it leads to the
    node with the names `names`. -/
inductive LooksUp (cfg : FuseConfig) (f : Fuse φ) (names : List FileName) :
    (Int × Stat) × φ → Except Stop (FsReply × Fuse φ) → Prop
  | failed {res : Int} {stat : Stat} {st : φ} : res ≠ 0 →
      LooksUp cfg f names ((res, stat), st)
        (.ok (failedLookup cfg res stat, { f with fs := st }))
  | found {stat : Stat} {st : φ} {n : Node} {f' : Fuse φ} : NodesOk f' →
      f'.idTable n.nodeid = some n → n.names = names → f'.fs = st →
      (∀ {k}, Room f (k + 1) → Room f' k) →
      LooksUp cfg f names ((0, stat), st)
        (.ok (fuseReplyEntry ⟨n.nodeid, stat.rest, stat.rest_length⟩, f'))
  | full {stat : Stat} {st : φ} : ¬ Room f 0 →
      LooksUp cfg f names ((0, stat), st) (.error .noIds)

theorem lookupAt_looksUp (cfg : FuseConfig) (fs : PathFs φ) (hf : NodesOk f)
    (hp : f.idTable p.nodeid = some p) (name : Option FileName) :
    LooksUp cfg f (p.names ++ name.toList)
      (fs.getattr f.fs (pathString (p.names ++ name.toList))) (lookupAt cfg fs f p.nodeid name) := by
  simp only [lookupAt, tryGetPath_ok hp, bind, Except.bind, pure, Except.pure]
  obtain ⟨⟨res, stat⟩, st⟩ := fs.getattr f.fs (pathString (p.names ++ name.toList))
  rcases lookupPath_cases cfg hp name res stat st with
    ⟨hres, hpath⟩ | ⟨rfl, n, f', hpath, hfinds⟩ | ⟨rfl, hpath, hroom⟩
  · simp only [hpath, if_neg hres]
    exact .failed hres
  · have hfound := hfinds.found (hf.withFs st) hp
    simp only [hpath, if_true]
    exact .found hfound.ok hfound.node hfound.names hfound.fs
      fun hroom => hfound.room (hroom.congr rfl)
  · simp only [hpath]
    exact .full hroom

/-- The names of the node that `name` leads to from the node with `names`. -/
def goTo (names : List FileName) (name : FileName) : List FileName :=
  if name = dot then names
  else if name = dotdot then names.dropLast
  else names ++ [name]

/-- A lookup in a node that is there. -/
theorem fuseLibLookup_looksUp (cfg : FuseConfig) (fs : PathFs φ) (hf : NodesOk f)
    (hn : f.idTable i = some n) (hroot : ¬ (name = dotdot ∧ n = .root)) :
    LooksUp cfg f (goTo n.names name) (fs.getattr f.fs (pathString (goTo n.names name)))
      (fuseLibLookup cfg fs f i name) := by
  obtain rfl := hf.nodeid hn
  unfold fuseLibLookup goTo
  by_cases hdot : name = dot
  · rw [if_pos hdot, if_pos hdot, hn]
    simpa using lookupAt_looksUp cfg fs hf hn none
  rw [if_neg hdot, if_neg hdot]
  by_cases hdotdot : name = dotdot
  · rw [if_pos hdotdot, if_pos hdotdot, getNode_ok hn]
    cases n with
    | root => exact absurd ⟨hdotdot, rfl⟩ hroot
    | child i name' parent =>
        have hparent : f.idTable parent.nodeid = some parent := hf.parent hn rfl
        have hlook := lookupAt_looksUp cfg fs hf hparent none
        rw [Option.toList_none, List.append_nil] at hlook
        rw [Node.names, List.dropLast_concat]
        exact hlook
  · rw [if_neg hdotdot, if_neg hdotdot]
    exact lookupAt_looksUp cfg fs hf hn (some name)

/-- The operation replies and leaves the tables in order, or there is no id left
    for it. -/
def Serves (r : Except Stop (FsReply × Fuse φ)) : Prop :=
  (∃ reply f', r = .ok (reply, f') ∧ NodesOk f') ∨ r = .error .noIds

theorem LooksUp.serves {names : List FileName} {attr : (Int × Stat) × φ}
    {r : Except Stop (FsReply × Fuse φ)} (h : LooksUp cfg f names attr r) (hf : NodesOk f) :
    Serves r := by
  cases h with
  | failed => exact .inl ⟨_, _, rfl, hf.withFs _⟩
  | found hok => exact .inl ⟨_, _, rfl, hok⟩
  | full => exact .inr rfl

theorem fuseLibOpen_serves (fs : PathFs φ) (hf : NodesOk f) (hn : f.idTable i = some n)
    (flags : Nat) : Serves (fuseLibOpen fs f i flags) := by
  unfold fuseLibOpen
  rw [tryGetPath_ok hn, ok_bind]
  rcases fs.openFile f.fs (pathString (n.names ++ Option.toList none)) flags with
    ⟨⟨err, fh, openFlags⟩, st⟩
  have hget : getNode { f with fs := st } i = .ok n := getNode_ok hn
  simp only [hget]
  split <;> exact .inl ⟨_, _, rfl, hf.withFs st⟩

theorem fuseLibOther_serves (fs : PathFs φ) (hf : NodesOk f) {c : LlCall}
    (hn : f.idTable c.nodeid = some n) : Serves (fuseLibOther fs f c) := by
  simp only [fuseLibOther, tryGetPath_ok hn, bind, Except.bind, pure, Except.pure]
  exact .inl ⟨_, _, rfl, hf.withFs _⟩

theorem fuseLibCreate_serves (cfg : FuseConfig) (fs : PathFs φ) (hf : NodesOk f)
    (hn : f.idTable i = some n) (name : FileName) (mode flags : Nat) :
    Serves (fuseLibCreate cfg fs f i name mode flags) := by
  obtain rfl := hf.nodeid hn
  unfold fuseLibCreate
  rw [tryGetPath_ok hn, ok_bind]
  rcases fs.create f.fs (pathString (n.names ++ (some name).toList)) mode flags with
    ⟨⟨err, fh, openFlags⟩, st⟩
  simp only
  split
  · rcases fs.fgetattr st (pathString (n.names ++ (some name).toList)) fh with ⟨⟨res, stat⟩, st'⟩
    rcases lookupPath_cases cfg hn (some name) res stat st' with
      ⟨hres, hpath⟩ | ⟨-, m, f', hpath, hfinds⟩ | ⟨-, hpath, -⟩
    · rw [hpath, ok_bind]
      simp only [if_pos hres]
      exact .inl ⟨_, _, rfl, hf.withFs _⟩
    · have hfound := hfinds.found (hf.withFs st') hn
      rw [hpath, ok_bind]
      simp only [ne_eq, not_true, if_false, getNode_ok hfound.node]
      split
      · obtain ⟨f'', hforget, hok⟩ := hfinds.forget (hf.withFs st') hn
          (fs.release f'.fs (pathString (n.names ++ (some name).toList)) fh)
        simp only [hforget]
        exact .inl ⟨_, _, rfl, hok⟩
      · exact .inl ⟨_, _, rfl, hfound.ok⟩
    · rw [hpath]
      exact .inr rfl
  · exact .inl ⟨_, _, rfl, hf.withFs _⟩

/-- An operation on a node that is there. -/
theorem fusePathOps_serves (cfg : FuseConfig) (fs : PathFs φ) (hf : NodesOk f) {c : LlCall}
    (hn : f.idTable c.nodeid = some n) (hroot : c ≠ .lookup fuseRootId dotdot) :
    Serves (fusePathOps cfg fs f c) := by
  cases c with
  | lookup parent name =>
      refine (fuseLibLookup_looksUp cfg fs hf hn ?_).serves hf
      rintro ⟨rfl, rfl⟩
      exact hroot (congrArg (LlCall.lookup · dotdot) (hf.nodeid hn).symm)
  | openFile ino flags => exact fuseLibOpen_serves fs hf hn flags
  | create parent name mode flags => exact fuseLibCreate_serves cfg fs hf hn name mode flags
  | getattr | read | write | opendir | readdir => exact fuseLibOther_serves fs hf hn

/-- An operation on a node that is not there replies only to a lookup of ".",
    and changes nothing. -/
theorem fusePathOps_missing (cfg : FuseConfig) (fs : PathFs φ) {c : LlCall}
    (hn : f.idTable c.nodeid = none) :
    fusePathOps cfg fs f c = .error .abort ∨
      fusePathOps cfg fs f c = .ok (fuseReplyErr eStale, f) := by
  have hget : getNode f c.nodeid = .error .abort := by
    unfold getNode
    rw [hn]
  have hpath : ∀ name, tryGetPath f c.nodeid name = .error .abort := by
    intro name
    unfold tryGetPath
    rw [hget]
    rfl
  cases c with
  | lookup parent name =>
      simp only [LlCall.nodeid] at hn hget hpath
      simp only [fusePathOps, fuseLibLookup, hn, hget, lookupAt, hpath]
      split
      · exact .inr rfl
      · split <;> exact .inl rfl
  | openFile ino flags =>
      simp only [LlCall.nodeid] at hpath
      simp only [fusePathOps, fuseLibOpen, hpath]
      exact .inl rfl
  | create parent name mode flags =>
      simp only [LlCall.nodeid] at hpath
      simp only [fusePathOps, fuseLibCreate, hpath]
      exact .inl rfl
  | getattr | read | write | opendir | readdir =>
      simp only [fusePathOps, fuseLibOther, hpath]
      exact .inl rfl

theorem fusePathOps_nodesOk (hf : NodesOk f) {c : LlCall} {reply : FsReply}
    (h : fusePathOps cfg fs f c = .ok (reply, f')) : NodesOk f' := by
  cases hn : f.idTable c.nodeid with
  | none =>
      rcases fusePathOps_missing cfg fs hn with hmissing | hmissing <;> rw [hmissing] at h
      · cases h
      · cases h
        exact hf
  | some n =>
      by_cases hroot : c = .lookup fuseRootId dotdot
      · subst hroot
        have hnull : fusePathOps cfg fs f (.lookup fuseRootId dotdot) = .error .nullParent := by
          simp only [fusePathOps, fuseLibLookup, getNode_ok hf.root]
          rfl
        rw [hnull] at h
        cases h
      · rcases fusePathOps_serves cfg fs hf hn hroot with ⟨_, _, hserves, hok⟩ | hserves
        · rw [hserves] at h
          cases h
          exact hok
        · rw [hserves] at h
          cases h

/-- The states that operations lead to, whatever nodes they name. -/
inductive FuseReached (cfg : FuseConfig) (fs : PathFs φ) : Fuse φ → Prop
  | new (st : φ) : FuseReached cfg fs (fuseNewCommon st)
  | op {f f' : Fuse φ} {c : LlCall} {reply : FsReply} : FuseReached cfg fs f →
      fusePathOps cfg fs f c = .ok (reply, f') → FuseReached cfg fs f'

theorem FuseReached.nodesOk (h : FuseReached cfg fs f) : NodesOk f := by
  induction h with
  | new st => exact nodesOk_fuseNewCommon st
  | op _ hop ih => exact fusePathOps_nodesOk ih hop

end Tables

end Nodes

end FuseNt
