/-
  FuseNt.Module.PathLocks

  The locks on the paths of the module library (fuse.c).  A request works with
  the path of a node, so nothing on the way from the node to the root may move
  until it is done: `try_get_path` takes a share in the lock of each node on the
  way, and the lock of a node that is to move for the request alone.  What it
  cannot get it gives back, and the request tries again later.

  `treelock` is the number of shares, or -1.  A ticket keeps others from a lock
  that a request has waited for.
-/

import FuseNt.Lib.SharedLocks
import FuseNt.Module.NodeSpecs

namespace FuseNt.NodeTable

open FuseNt.Lib

-- ============================================================================
-- unlock_path and try_get_path
-- ============================================================================

/-- The loop of `unlock_path`. -/
def unlockLoop (end_ : Option Nat) (ticket : Int) : Nat → Table → Option Nat → Except Stop Table
  | 0, _, _ => .error .loops
  | fuel + 1, t, node =>
      if node = end_ then .ok t
      else match node with
        | none => .error .dangling
        | some i => do
            let node ← t.deref i
            if i = fuseRootId then .ok t
            else if node.treelock ≤ 0 then .error .assertion
            else
              let ticket' := if node.ticket = 0 then ticket else node.ticket
              let t := t.set i { node with treelock := node.treelock - 1, ticket := ticket' }
              unlockLoop end_ ticket fuel t node.parent

/-- The part of `unlock_path` that is for `wnode`. -/
def unlockWrite (t : Table) (wnode : Option Nat) (ticket : Int) : Except Stop Table :=
  match wnode with
  | none => .ok t
  | some w => do
      let node ← t.deref w
      if node.treelock ≠ -1 then .error .assertion
      else
        let ticket' := if node.ticket = 0 then ticket else node.ticket
        .ok (t.set w { node with treelock := 0, ticket := ticket' })

/-- `unlock_path`.  There are no ways with more than 2³² nodes. -/
def unlockPath (t : Table) (nodeid : Nat) (wnode end_ : Option Nat) (ticket : Int) :
    Except Stop Table := do
  let t ← unlockWrite t wnode ticket
  let _ ← getNode t nodeid
  unlockLoop end_ ticket (2 ^ 32) t (some nodeid)

/-- The locking of `wnode` by `try_get_path`; no result is for -EAGAIN. -/
def lockWrite (t : Table) (nodeid : Nat) (name : Option FileName) (ticket : Int) :
    Except Stop (Option (Option Nat) × Table) :=
  if ticket = 0 then .error .assertion
  else match name with
    | none => .error .dangling
    | some name => do
        match ← lookupNode t nodeid name with
        | none => return (some none, t)
        | some w =>
            let node ← t.deref w
            if node.treelock ≠ 0 ∨ node.ticket ≠ 0 ∧ node.ticket ≠ ticket then
              let ticket' := if node.ticket = 0 then ticket else node.ticket
              return (none, t.set w { node with ticket := ticket' })
            else return (some (some w), t.set w { node with treelock := -1, ticket := 0 })

/-- The same, if `wnodep` is not NULL. -/
def lockName (t : Table) (nodeid : Nat) (name : Option FileName) (wr : Bool) (ticket : Int) :
    Except Stop (Option (Option Nat) × Table) :=
  if wr then lockWrite t nodeid name ticket else .ok (some none, t)

/-- How the loop of `try_get_path` ends: at the root, or at a node with an
    error. -/
inductive Climb where
  | top (t : Table) (b : PathBuf)
  | failed (err : Int) (node : Nat) (t : Table)

/-- The loop of `try_get_path`. -/
def climb (heap : PathHeap) (ticket : Int) : Nat → Table → PathBuf → Nat → Except Stop Climb
  | 0, _, _, _ => .error .loops
  | fuel + 1, t, b, i => do
      let node ← t.deref i
      if i = fuseRootId then return .top t b
      else match node.name, node.parent with
        | some name, some parent =>
            match addName heap b name with
            | .error stop => .error (.path stop)
            | .ok none => return .failed (-eNoMem) i t
            | .ok (some b) =>
                if ticket = 0 then climb heap ticket fuel t b parent
                else if node.treelock = -1 ∨ node.ticket ≠ 0 ∧ node.ticket ≠ ticket then
                  return .failed (-eAgain) i t
                else
                  let t := t.set i { node with treelock := node.treelock + 1, ticket := 0 }
                  climb heap ticket fuel t b parent
        | _, _ => return .failed (-eNoEnt) i t

/-- What `try_get_path` returns: an error, or the path and `wnode`. -/
inductive PathResult where
  | failed (err : Int)
  | locked (path : FileName) (wnode : Option Nat)
deriving DecidableEq

/-- `add_name` of the name that the path ends with, if there is one. -/
def addLast (heap : PathHeap) (b : PathBuf) : Option FileName → Except Stop (Option PathBuf)
  | none => .ok (some b)
  | some name => (addName heap b name).mapError .path

/-- `try_get_path`; `wr` says that `wnodep` is not NULL. -/
def tryGetPath (heap : PathHeap) (t : Table) (nodeid : Nat) (name : Option FileName) (wr : Bool)
    (ticket : Int) : Except Stop (PathResult × Table) :=
  match mallocPath heap with
  | none => .ok (.failed (-eNoMem), t)
  | some b => do
      match ← addLast heap b name with
      | none => return (.failed (-eNoMem), t)
      | some b =>
          let (wnode, t) ← lockName t nodeid name wr ticket
          match wnode with
          | none => return (.failed (-eAgain), t)
          | some wnode =>
              let _ ← getNode t nodeid
              match ← climb heap ticket (2 ^ 32) t b nodeid with
              | .top t b =>
                  match b.finish with
                  | none => .error (.path .outside)
                  | some path => return (.locked path wnode, t)
              | .failed err end_ t =>
                  if ticket = 0 then return (.failed err, t)
                  else return (.failed err, ← unlockPath t nodeid wnode (some end_) ticket)

/-- What `try_get_path2` returns. -/
inductive PathResult2 where
  | failed (err : Int)
  | locked (path1 : FileName) (wnode1 : Option Nat) (path2 : FileName) (wnode2 : Option Nat)
deriving DecidableEq

/-- `try_get_path2`; there is memory of its own for each of the paths. -/
def tryGetPath2 (heap1 heap2 : PathHeap) (t : Table) (nodeid1 : Nat) (name1 : Option FileName)
    (nodeid2 : Nat) (name2 : Option FileName) (wr : Bool) (ticket : Int) :
    Except Stop (PathResult2 × Table) := do
  let (r, t) ← tryGetPath heap1 t nodeid1 name1 wr ticket
  match r with
  | .failed err => return (.failed err, t)
  | .locked path1 wnode1 =>
      let (r, t) ← tryGetPath heap2 t nodeid2 name2 wr ticket
      match r with
      | .failed err => return (.failed err, ← unlockPath t nodeid1 wnode1 none ticket)
      | .locked path2 wnode2 => return (.locked path1 wnode1 path2 wnode2, t)

-- ============================================================================
-- Tables that differ in their locks
-- ============================================================================

/-- A node without its ticket. -/
def Node.unticketed (node : Node) : Node := { node with ticket := 0 }

/-- The locks have changed by `δ`, the tickets in some way, and nothing else. -/
structure Relocked (t t' : Table) (δ : Nat → Int) : Prop where
  nodes : ∀ i, (t'.nodes i).map Node.unticketed =
    (t.nodes i).map fun node => { node with treelock := node.treelock + δ i, ticket := 0 }
  nameTable : t'.nameTable = t.nameTable
  ctr : t'.ctr = t.ctr
  generation : t'.generation = t.generation

section Relocked

variable {t t' t'' : Table} {δ δ' : Nat → Int} {hold : Nat → Nat} {i : Nat} {node : Node}

theorem Relocked.refl (t : Table) : Relocked t t 0 :=
  ⟨fun i => by
    cases t.nodes i with
    | none => rfl
    | some node => simp [Node.unticketed], rfl, rfl, rfl⟩

/-- A node that is there is still there. -/
theorem Relocked.exists_node (h : Relocked t t' δ) (hnode : t.nodes i = some node) :
    ∃ ticket, t'.nodes i = some { node with treelock := node.treelock + δ i, ticket := ticket } := by
  have hi := h.nodes i
  rw [hnode, Option.map_some] at hi
  obtain ⟨node', hnode', heq⟩ := Option.map_eq_some_iff.mp hi
  refine ⟨node'.ticket, hnode'.trans (congrArg some ?_)⟩
  obtain ⟨generation, refctr, parent, name, nlookup, openCount, isHidden, treelock, ticket⟩ := node'
  simp only [Node.unticketed, Node.mk.injEq] at heq ⊢
  simp [heq]

theorem Relocked.isSome (h : Relocked t t' δ) (i : Nat) :
    (t'.nodes i).isSome = (t.nodes i).isSome := by
  have hi := congrArg Option.isSome (h.nodes i)
  rwa [Option.isSome_map, Option.isSome_map] at hi

theorem Relocked.gone (h : Relocked t t' δ) (hnode : t.nodes i = none) : t'.nodes i = none := by
  have hi := h.isSome i
  rw [hnode] at hi
  simpa using hi

theorem Relocked.trans (h : Relocked t t' δ) (h' : Relocked t' t'' δ') :
    Relocked t t'' (δ + δ') where
  nodes i := by
    cases hnode : t.nodes i with
    | none =>
        rw [h'.gone (h.gone hnode)]
        rfl
    | some node =>
        obtain ⟨ticket, hnode'⟩ := h.exists_node hnode
        obtain ⟨ticket', hnode''⟩ := h'.exists_node hnode'
        rw [hnode'']
        simp [Node.unticketed, Int.add_assoc]
  nameTable := h'.nameTable.trans h.nameTable
  ctr := h'.ctr.trans h.ctr
  generation := h'.generation.trans h.generation

/-- One lock is written. -/
theorem Relocked.set (hnode : t.nodes i = some node) (treelock ticket : Int) :
    Relocked t (t.set i { node with treelock := treelock, ticket := ticket })
      (Function.update 0 i (treelock - node.treelock)) where
  nodes j := by
    by_cases hj : j = i
    · subst hj
      rw [Table.nodes_set_self, hnode, Function.update_self]
      simp [Node.unticketed]
    · rw [Table.nodes_set_of_ne hj, Function.update_of_ne hj]
      cases t.nodes j with
      | none => rfl
      | some node => simp [Node.unticketed]
  nameTable := rfl
  ctr := rfl
  generation := rfl

/-- The locks do not matter to the shape of the table. -/
theorem Relocked.shaped (h : Relocked t t' δ) (hs : Shaped t hold) :
    Shaped t' hold ∧ t'.at_ = t.at_ := by
  apply hs.of_links t' h.nameTable
  · intro j
    cases hnode : t.nodes j with
    | none => rw [h.gone hnode]
    | some node =>
        obtain ⟨ticket, hnode'⟩ := h.exists_node hnode
        rw [hnode']
        rfl
  · intro j node' hnode'
    have hj := h.isSome j
    rw [hnode'] at hj
    obtain ⟨node, hnode⟩ := Option.isSome_iff_exists.mp hj.symm
    obtain ⟨ticket, heq⟩ := h.exists_node hnode
    rw [hnode'] at heq
    cases heq
    show node.refctr = _ ∧ 0 < node.refctr
    exact hs.refs hnode

/-- The number of a lock. -/
def Table.lock (t : Table) (i : Nat) : Int := ((t.nodes i).map Node.treelock).getD 0

theorem Table.lock_of_nodes (hnode : t.nodes i = some node) : t.lock i = node.treelock := by
  rw [Table.lock, hnode]
  rfl

theorem Relocked.lock (h : Relocked t t' δ) (hnode : (t.nodes i).isSome) :
    t'.lock i = t.lock i + δ i := by
  obtain ⟨node, hnode⟩ := Option.isSome_iff_exists.mp hnode
  obtain ⟨ticket, hnode'⟩ := h.exists_node hnode
  rw [Table.lock_of_nodes hnode, Table.lock_of_nodes hnode']

/-- The ticket of a node. -/
def Table.ticket (t : Table) (i : Nat) : Int := ((t.nodes i).map Node.ticket).getD 0

theorem Table.ticket_of_nodes (hnode : t.nodes i = some node) : t.ticket i = node.ticket := by
  rw [Table.ticket, hnode]
  rfl

@[simp] theorem Table.ticket_set_self : (t.set i node).ticket i = node.ticket :=
  Table.ticket_of_nodes Table.nodes_set_self

theorem Table.ticket_set_of_ne {j : Nat} (h : j ≠ i) : (t.set i node).ticket j = t.ticket j := by
  rw [Table.ticket, Table.nodes_set_of_ne h]
  rfl

/-- A ticket has been left on some nodes that had none. -/
def Table.Leaves (ticket : Int) (t t' : Table) : Prop :=
  ∀ j, t'.ticket j = t.ticket j ∨ t.ticket j = 0 ∧ t'.ticket j = ticket

theorem Table.Leaves.refl (ticket : Int) (t : Table) : Table.Leaves ticket t t := fun _ => .inl rfl

theorem Table.Leaves.eq {ticket : Int} (h : Table.Leaves ticket t t') (hi : t.ticket i ≠ 0) :
    t'.ticket i = t.ticket i := (h i).resolve_right fun hzero => hi hzero.1

theorem Relocked.congr (h : Relocked t t' δ) (heq : ∀ j, δ j = δ' j) : Relocked t t' δ' := by
  rwa [← (funext heq : δ = δ')]

end Relocked

-- ============================================================================
-- unlock_path
-- ============================================================================

/-- The ticket of a lock that a request has to do without for now. -/
def leave (ticket old : Int) : Int := if old = 0 then ticket else old

theorem leave_of_ne {ticket old : Int} (h : old ≠ 0) : leave ticket old = old := if_neg h

/-- How often a node is on a way. -/
def onWay (way : List (Nat × FileName)) (i : Nat) : Int := (way.map Prod.fst).count i

section Unlock

variable {t : Table} {forest : Forest Nat FileName} {hold : Nat → Nat} {i stop : Nat}
  {way : List (Nat × FileName)}

theorem onWay_cons (x : Nat × FileName) (way : List (Nat × FileName)) (j : Nat) :
    onWay (x :: way) j = onWay way j + if x.1 = j then 1 else 0 := by
  rw [onWay, onWay, List.map_cons, List.count_cons]
  by_cases hj : x.1 = j
  · simp [hj]
  · simp [hj]

theorem onWay_of_not_mem {j : Nat} (h : j ∉ way.map Prod.fst) : onWay way j = 0 := by
  rw [onWay, List.count_eq_zero.mpr h]
  rfl

/-- The loop gives back the shares of the way to where it ends. -/
theorem unlockLoop_spec (hway : forest.Way stop i way) (hs : Shaped t hold) (hat : t.at_ = forest)
    {end_ : Option Nat} (hend : end_ = some stop ∨ end_ = none ∧ stop = fuseRootId)
    (hlive : (t.nodes i).isSome) (hlock : ∀ x ∈ way, 0 < t.lock x.1) (ticket : Int) {fuel : Nat}
    (hfuel : way.length < fuel) :
    ∃ t', unlockLoop end_ ticket fuel t (some i) = .ok t' ∧ (Relocked t t' fun j => -onWay way j) ∧
      ∀ j, t'.ticket j = if j ∈ way.map Prod.fst then leave ticket (t.ticket j) else t.ticket j := by
  induction hway generalizing t fuel with
  | top =>
      obtain ⟨fuel, rfl⟩ := Nat.exists_eq_succ_of_ne_zero (Nat.ne_of_gt hfuel)
      have hsame : Relocked t t fun j => -onWay [] j := (Relocked.refl t).congr fun _ => rfl
      rw [unlockLoop]
      have htick : ∀ j, t.ticket j =
          if j ∈ ([] : List (Nat × FileName)).map Prod.fst then leave ticket (t.ticket j)
          else t.ticket j := fun _ => (if_neg List.not_mem_nil).symm
      rcases hend with rfl | ⟨rfl, rfl⟩
      · exact ⟨t, if_pos rfl, hsame, htick⟩
      · obtain ⟨node, hnode⟩ := Option.isSome_iff_exists.mp hlive
        refine ⟨t, ?_, hsame, htick⟩
        rw [if_neg (Option.some_ne_none _)]
        simp only [Table.deref_ok hnode, ok_bind, if_true]
  | @step i p name rest hne hstep hrest ih =>
      have hati : t.at_ i = some (p, name) := by rw [hat, hstep]
      obtain ⟨node, hnode, hparent, -⟩ := exists_node_of_at hati
      obtain ⟨fuel, rfl⟩ := Nat.exists_eq_succ_of_ne_zero (Nat.ne_of_gt (Nat.zero_lt_of_lt hfuel))
      have hpos : 0 < node.treelock := by
        rw [← Table.lock_of_nodes hnode]
        exact hlock _ List.mem_cons_self
      have hnotend : some i ≠ end_ := by
        rcases hend with rfl | ⟨rfl, -⟩
        · exact fun heq => hne (Option.some.inj heq)
        · exact Option.some_ne_none _
      have hrelock := Relocked.set hnode (node.treelock - 1) (leave ticket node.ticket)
      obtain ⟨hs₁, hat₁⟩ := hrelock.shaped hs
      have hfresh : i ∉ rest.map Prod.fst := (List.nodup_cons.mp (hrest.step hne hstep).nodup).1
      have hlock₁ : ∀ x ∈ rest, 0 < (t.set i { node with
          treelock := node.treelock - 1
          ticket := leave ticket node.ticket }).lock x.1 := by
        intro x hx
        have hxi : x.1 ≠ i := fun heq => hfresh (heq ▸ List.mem_map_of_mem hx)
        rw [Table.lock, Table.nodes_set_of_ne hxi]
        exact hlock x (List.mem_cons_of_mem _ hx)
      obtain ⟨t', hrun, hrelock', htick⟩ := ih hs₁ (hat₁.trans hat)
        ((hrelock.isSome p).trans (hs.parent hati)) hlock₁ (Nat.lt_of_succ_lt_succ hfuel)
      refine ⟨t', ?_, (hrelock.trans hrelock').congr fun j => ?_, fun j => ?_⟩
      · rw [unlockLoop, if_neg hnotend]
        simp only [Table.deref_ok hnode, ok_bind]
        rw [if_neg (hs.ne_root hati), if_neg (not_le.mpr hpos)]
        rw [← hparent] at hrun
        exact hrun
      · rw [Pi.add_apply, onWay_cons]
        by_cases hj : i = j
        · subst hj
          rw [Function.update_self, if_pos rfl]
          omega
        · rw [Function.update_of_ne (Ne.symm hj), if_neg hj]
          simp
      · rw [htick j, List.map_cons]
        by_cases hj : j = i
        · subst hj
          rw [if_neg hfresh, if_pos List.mem_cons_self, Table.ticket_set_self,
            Table.ticket_of_nodes hnode]
        · rw [Table.ticket_set_of_ne hj]
          simp only [List.mem_cons, hj, false_or]

/-- What a lock for the request alone adds to the numbers. -/
def ownLock (wnode : Option Nat) (i : Nat) : Int := if wnode = some i then 1 else 0

theorem unlockWrite_spec {wnode : Option Nat} (hwnode : ∀ w, wnode = some w → t.lock w = -1)
    (ticket : Int) :
    ∃ t', unlockWrite t wnode ticket = .ok t' ∧ Relocked t t' (ownLock wnode) ∧
      ∀ j, t'.ticket j = if wnode = some j then leave ticket (t.ticket j) else t.ticket j := by
  cases wnode with
  | none =>
      exact ⟨t, rfl, (Relocked.refl t).congr fun _ => rfl, fun j => (if_neg (Option.some_ne_none j).symm).symm⟩
  | some w =>
      have hlock := hwnode w rfl
      cases hnode : t.nodes w with
      | none =>
          rw [Table.lock, hnode] at hlock
          cases hlock
      | some node =>
          rw [Table.lock_of_nodes hnode] at hlock
          refine ⟨_, ?_, (Relocked.set hnode 0 (leave ticket node.ticket)).congr fun j => ?_,
            fun j => ?_⟩
          · rw [unlockWrite, Table.deref_ok hnode, ok_bind, if_neg (not_not.mpr hlock)]
            rfl
          · rw [ownLock]
            by_cases hj : w = j
            · subst hj
              rw [Function.update_self, if_pos rfl, hlock]
              rfl
            · rw [Function.update_of_ne (Ne.symm hj), if_neg fun heq => hj (Option.some.inj heq)]
              rfl
          · by_cases hj : j = w
            · subst hj
              rw [if_pos rfl, Table.ticket_set_self, Table.ticket_of_nodes hnode]
            · rw [if_neg fun heq => hj (Option.some.inj heq).symm, Table.ticket_set_of_ne hj]

/-- A way has less than 2³² nodes. -/
theorem Shaped.way_length (hs : Shaped t hold) (hway : t.at_.Way stop i way) :
    way.length < 2 ^ 32 := by
  have hsub : way.map Prod.fst ⊆ (List.range (2 ^ 32)).tail := by
    intro j hj
    obtain ⟨x, hx, rfl⟩ := List.mem_map.mp hj
    obtain ⟨-, p, hat⟩ := hway.at_mem hx
    obtain ⟨node, hnode, -⟩ := Table.nodes_of_at hat
    obtain ⟨hpos, hlt⟩ := hs.range (Option.isSome_of_mem hnode)
    rw [List.tail_range]
    exact List.mem_range'_1.mpr ⟨hpos, by omega⟩
  have hle := (hway.nodup.subperm hsub).length_le
  rw [List.length_map, List.length_tail, List.length_range] at hle
  omega

/-- `unlock_path` gives back what `try_get_path` has taken up to where it
    ended. -/
theorem Shaped.unlockPath_spec (hs : Shaped t hold) (hway : t.at_.Way stop i way) {end_ : Option Nat}
    (hend : end_ = some stop ∨ end_ = none ∧ stop = fuseRootId) (hlive : (t.nodes i).isSome)
    (hlock : ∀ x ∈ way, 0 < t.lock x.1) {wnode : Option Nat}
    (hwnode : ∀ w, wnode = some w → t.lock w = -1) (ticket : Int) :
    ∃ t', unlockPath t i wnode end_ ticket = .ok t' ∧
      (Relocked t t' fun j => ownLock wnode j - onWay way j) ∧
      ∀ j, t'.ticket j = if wnode = some j ∨ j ∈ way.map Prod.fst then leave ticket (t.ticket j)
        else t.ticket j := by
  obtain ⟨t₁, hrun₁, hrelock₁, htick₁⟩ := unlockWrite_spec hwnode ticket
  obtain ⟨hs₁, hat₁⟩ := hrelock₁.shaped hs
  have hlive₁ : (t₁.nodes i).isSome := (hrelock₁.isSome i).trans hlive
  obtain ⟨node, hnode⟩ := Option.isSome_iff_exists.mp hlive₁
  have hlock₁ : ∀ x ∈ way, 0 < t₁.lock x.1 := by
    intro x hx
    obtain ⟨-, p, hat⟩ := hway.at_mem hx
    obtain ⟨xnode, hxnode, -⟩ := Table.nodes_of_at hat
    have hpos := hlock x hx
    have hown : ownLock wnode x.1 = 0 := by
      refine if_neg fun heq => ?_
      rw [hwnode _ heq] at hpos
      omega
    rw [hrelock₁.lock (Option.isSome_of_mem hxnode), hown, add_zero]
    exact hpos
  obtain ⟨t', hrun, hrelock, htick⟩ := unlockLoop_spec hway hs₁ hat₁ hend hlive₁ hlock₁ ticket
    (hs.way_length hway)
  refine ⟨t', ?_, (hrelock₁.trans hrelock).congr fun j => (sub_eq_add_neg _ _).symm, fun j => ?_⟩
  · rw [unlockPath, hrun₁, ok_bind, getNode_ok hnode, ok_bind]
    exact hrun
  · rw [htick j, htick₁ j]
    by_cases hj : wnode = some j
    · have hoff : j ∉ way.map Prod.fst := by
        intro hmem
        obtain ⟨x, hx, rfl⟩ := List.mem_map.mp hmem
        have hpos := hlock x hx
        rw [hwnode _ hj] at hpos
        omega
      rw [if_neg hoff, if_pos hj, if_pos (.inl hj)]
    · simp only [hj, false_or, if_false]

end Unlock

-- ============================================================================
-- try_get_path
-- ============================================================================

/-- The names of a way, from above. -/
def wayNames (way : List (Nat × FileName)) : List FileName := (way.map Prod.snd).reverse

theorem wayNames_cons (x : Nat × FileName) (way : List (Nat × FileName)) :
    wayNames (x :: way) = wayNames way ++ [x.2] := by
  rw [wayNames, List.map_cons, List.reverse_cons]
  rfl

theorem slashed_wayNames (x : Nat × FileName) (way : List (Nat × FileName)) (path : FileName) :
    slashed (wayNames way) ++ (slash :: x.2 ++ path) = slashed (wayNames (x :: way)) ++ path := by
  rw [wayNames_cons, slashed_concat, List.append_assoc]

/-- A request may pass a node that has no ticket, or its own one. -/
def Table.Passes (t : Table) (ticket : Int) (i : Nat) : Prop := t.ticket i = 0 ∨ t.ticket i = ticket

/-- Why the way up ends at `stop`: the node is locked or has the ticket of another
    request, there is no memory, or it hangs nowhere. -/
inductive PathFails (heap : PathHeap) (ticket : Int) (t : Table) (stop : Nat) : Int → Prop
  | again (hat : t.at_ stop ≠ none) (h : t.lock stop = -1 ∨ ¬ t.Passes ticket stop) :
      PathFails heap ticket t stop (-eAgain)
  | noMem {size : Nat} (h : heap.has size = false) : PathFails heap ticket t stop (-eNoMem)
  | noEnt (hroot : stop ≠ fuseRootId) (hat : t.at_ stop = none) : PathFails heap ticket t stop (-eNoEnt)

/-- The shares of a way have been taken. -/
structure Takes (ticket : Int) (way : List (Nat × FileName)) (t t' : Table) : Prop where
  relock : Relocked t t' (onWay way)
  free : ∀ x ∈ way, t.lock x.1 ≠ -1
  passes : ∀ x ∈ way, t.Passes ticket x.1
  tickets : ∀ j, t'.ticket j = if j ∈ way.map Prod.fst then 0 else t.ticket j

theorem Takes.nil (ticket : Int) (t : Table) : Takes ticket [] t t where
  relock := (Relocked.refl t).congr fun _ => rfl
  free _ hx := absurd hx List.not_mem_nil
  passes _ hx := absurd hx List.not_mem_nil
  tickets _ := (if_neg List.not_mem_nil).symm

/-- What the loop can do that begins at `i` with a path behind it. -/
inductive Climbs (heap : PathHeap) (ticket : Int) (t : Table) (i : Nat) (path : FileName) :
    Except Stop Climb → Prop
  | top {way : List (Nat × FileName)} {t' : Table} {b : PathBuf}
      (hway : t.at_.Way fuseRootId i way) (htakes : Takes ticket way t t')
      (hhas : b.Has (slashed (wayNames way) ++ path)) : Climbs heap ticket t i path (.ok (.top t' b))
  | failed {way : List (Nat × FileName)} {t' : Table} {err : Int} {stop : Nat}
      (hway : t.at_.Way stop i way) (htakes : Takes ticket way t t') (herr : PathFails heap ticket t stop err) :
      Climbs heap ticket t i path (.ok (.failed err stop t'))
  | endless {way : List (Nat × FileName)} {stop : Nat} (hway : t.at_.Way stop i way)
      (hlong : 2 ^ 32 ≤ (slashed (wayNames way) ++ path).length + 1) :
      Climbs heap ticket t i path (.error (.path .endless))

section TryPath

variable {t : Table} {hold : Nat → Nat} {i p : Nat} {name path : FileName} {node : Node}
  {heap : PathHeap} {ticket : Int}

/-- A share in the lock of a node has been taken, and then those of the way above. -/
theorem Takes.cons (hs : Shaped t hold) (hat : t.at_ i = some (p, name))
    (hnode : t.nodes i = some node) (hfree : node.treelock ≠ -1)
    (hpasses : node.ticket = 0 ∨ node.ticket = ticket) {stop : Nat} {way : List (Nat × FileName)}
    {t' : Table} (hway : t.at_.Way stop p way)
    (h : Takes ticket way (t.set i { node with treelock := node.treelock + 1, ticket := 0 }) t') :
    Takes ticket ((i, name) :: way) t t' := by
  have habove := (hs.acyclic i).not_below hat
  have hoff : ∀ {x}, x ∈ way → x.1 ≠ i := by
    rintro x hx rfl
    exact habove (hway.mem_above hx)
  have hfresh : i ∉ way.map Prod.fst := by
    intro hmem
    obtain ⟨x, hx, hxi⟩ := List.mem_map.mp hmem
    exact hoff hx hxi
  constructor
  · refine ((Relocked.set hnode (node.treelock + 1) 0).trans h.relock).congr fun j => ?_
    rw [Pi.add_apply, onWay_cons, add_comm, add_sub_cancel_left]
    by_cases hj : i = j
    · subst hj
      rw [Function.update_self, if_pos rfl]
    · rw [Function.update_of_ne (Ne.symm hj), if_neg hj]
      rfl
  · intro x hx
    rcases List.mem_cons.mp hx with rfl | hx
    · rw [Table.lock_of_nodes hnode]
      exact hfree
    · have hlock := h.free x hx
      rwa [Table.lock, Table.nodes_set_of_ne (hoff hx)] at hlock
  · intro x hx
    rcases List.mem_cons.mp hx with rfl | hx
    · rw [Table.Passes, Table.ticket_of_nodes hnode]
      exact hpasses
    · have hpass := h.passes x hx
      rwa [Table.Passes, Table.ticket_set_of_ne (hoff hx)] at hpass
  · intro j
    rw [h.tickets j, List.map_cons]
    by_cases hj : j = i
    · subst hj
      rw [if_neg hfresh, if_pos List.mem_cons_self, Table.ticket_set_self]
    · rw [Table.ticket_set_of_ne hj]
      simp only [List.mem_cons, hj, false_or]

theorem Climbs.step (hs : Shaped t hold) (hat : t.at_ i = some (p, name))
    (hnode : t.nodes i = some node) (hfree : node.treelock ≠ -1)
    (hpasses : node.ticket = 0 ∨ node.ticket = ticket) {r : Except Stop Climb}
    (h : Climbs heap ticket (t.set i { node with treelock := node.treelock + 1, ticket := 0 }) p
      (slash :: name ++ path) r) : Climbs heap ticket t i path r := by
  obtain ⟨-, hat₁⟩ := (Relocked.set hnode (node.treelock + 1) 0).shaped hs
  have habove := (hs.acyclic i).not_below hat
  have hnext : ∀ {stop : Nat} {way : List (Nat × FileName)}, t.at_.Way stop p way →
      t.at_.Way stop i ((i, name) :: way) := by
    intro stop way hway
    refine .step ?_ hat hway
    rintro rfl
    exact habove ⟨_, hway.leads⟩
  cases h with
  | top hway htakes hhas =>
      rw [hat₁] at hway
      exact .top (hnext hway) (htakes.cons hs hat hnode hfree hpasses hway) (slashed_wayNames .. ▸ hhas)
  | @failed way t' err stop hway htakes herr =>
      rw [hat₁] at hway
      refine .failed (hnext hway) (htakes.cons hs hat hnode hfree hpasses hway) ?_
      cases herr with
      | @again hat' h =>
          have hne : stop ≠ i := by
            rintro rfl
            exact habove ⟨_, hway.leads⟩
          rw [Table.lock, Table.nodes_set_of_ne hne, Table.Passes, Table.ticket_set_of_ne hne] at h
          exact .again (hat₁ ▸ hat') h
      | noMem h => exact .noMem h
      | noEnt hroot hat' => exact .noEnt hroot (hat₁ ▸ hat')
  | endless hway hlong =>
      rw [hat₁] at hway
      exact .endless (hnext hway) (slashed_wayNames (i, name) .. ▸ hlong)

/-- The loop takes shares on the way up until something is in its way. -/
theorem climb_spec (heap : PathHeap) {top : Nat} {way : List (Nat × FileName)} {forest : Forest Nat FileName}
    (hway : forest.Way top i way) (htop : forest top = none) (hs : Shaped t hold)
    (hat : t.at_ = forest) (hlive : (t.nodes i).isSome) (hticket : ticket ≠ 0) {b : PathBuf}
    (hb : b.Has path) {fuel : Nat} (hfuel : way.length < fuel) :
    Climbs heap ticket t i path (climb heap ticket fuel t b i) := by
  induction hway generalizing t b fuel path with
  | top =>
      obtain ⟨node, hnode⟩ := Option.isSome_iff_exists.mp hlive
      obtain ⟨fuel, rfl⟩ := Nat.exists_eq_succ_of_ne_zero (Nat.ne_of_gt (Nat.zero_lt_of_lt hfuel))
      rw [climb, Table.deref_ok hnode, ok_bind]
      by_cases hroot : top = fuseRootId
      · subst hroot
        rw [if_pos rfl]
        exact .top .top (.nil ticket t) hb
      · rw [if_neg hroot]
        simp only [(hs.nameless hnode hroot (hat ▸ htop)).2]
        exact .failed .top (.nil ticket t) (.noEnt hroot (hat ▸ htop))
  | @step i p name rest hne hstep hrest ih =>
      have hati : t.at_ i = some (p, name) := by rw [hat, hstep]
      obtain ⟨node, hnode, hparent, hname⟩ := exists_node_of_at hati
      obtain ⟨fuel, rfl⟩ := Nat.exists_eq_succ_of_ne_zero (Nat.ne_of_gt (Nat.zero_lt_of_lt hfuel))
      have hhere : ∀ {err : Int}, PathFails heap ticket t i err →
          Climbs heap ticket t i path (.ok (.failed err i t)) := fun herr =>
        .failed .top (.nil ticket t) herr
      rw [climb, Table.deref_ok hnode, ok_bind, if_neg (hs.ne_root hati)]
      obtain ⟨generation, refctr, parent, name', nlookup, openCount, isHidden, treelock, ticket'⟩ :=
        node
      obtain rfl : parent = some p := hparent
      obtain rfl : name' = some name := hname
      simp only
      by_cases hfits : path.length + name.length + 2 < 2 ^ 32
      case neg =>
          rw [addName_endless hb (not_lt.mp hfits)]
          have hone : t.at_.Way p i [(i, name)] := .step (hs.ne_parent hati) hati .top
          refine .endless hone ?_
          have hlen : (slashed (wayNames [(i, name)]) ++ path).length = name.length + path.length + 1 := by
            simp [wayNames, slashed]
          rw [hlen]
          omega
      case pos =>
      rcases addName_has heap hb hfits with ⟨b', hadd, hhas⟩ | ⟨hadd, size, hsize⟩
      case inr =>
          rw [hadd]
          exact hhere (.noMem hsize)
      rw [hadd]
      simp only [if_neg hticket]
      by_cases hlocked : treelock = -1 ∨ ticket' ≠ 0 ∧ ticket' ≠ ticket
      case pos =>
          rw [if_pos hlocked]
          apply hhere (.again (by rw [hati]; exact Option.some_ne_none _) _)
          rw [Table.lock_of_nodes hnode, Table.Passes, Table.ticket_of_nodes hnode]
          exact hlocked.imp_right not_or.mpr
      case neg =>
          rw [if_neg hlocked]
          obtain ⟨hunlocked, hticket'⟩ := not_or.mp hlocked
          have hpasses : ticket' = 0 ∨ ticket' = ticket := by
            rcases not_and_or.mp hticket' with hzero | hsame
            · exact .inl (not_not.mp hzero)
            · exact .inr (not_not.mp hsame)
          have hrelock := Relocked.set hnode (treelock + 1) 0
          obtain ⟨hs₁, hat₁⟩ := hrelock.shaped hs
          have hp := (hrelock.isSome p).trans (hs.parent hati)
          exact .step hs hati hnode hunlocked hpasses
            (ih hs₁ (hat₁.trans hat) hp hhas (Nat.lt_of_succ_lt_succ hfuel))

/-- What `wnode` can be when it has been locked. -/
structure LocksName (ticket : Int) (t : Table) (nodeid : Nat) (name : Option FileName) (wr : Bool)
    (wnode : Option Nat) : Prop where
  zero : ∀ w, wnode = some w → t.lock w = 0
  passes : ∀ w, wnode = some w → t.Passes ticket w
  read : wr = false → wnode = none
  write : wr = true → ∀ n, name = some n → ∀ w, wnode = some w ↔ t.at_ w = some (nodeid, n)

/-- Why `try_get_path` fails. -/
inductive Refuses (heap : PathHeap) (ticket : Int) (t : Table) (nodeid : Nat) (name : Option FileName)
    (wr : Bool) (t' : Table) : Int → Prop
  /-- The nodes up to where the way ends have the ticket now. -/
  | stopped {stop : Nat} {way : List (Nat × FileName)} {err : Int} (hway : t.at_.Way stop nodeid way)
      (herr : PathFails heap ticket t stop err) (hleft : ∀ x ∈ way, t'.ticket x.1 = ticket) :
      Refuses heap ticket t nodeid name wr t' err
  /-- The node of the name is locked, or has the ticket of another request. -/
  | waits {n : FileName} {w : Nat} (hwr : wr = true) (hname : name = some n)
      (hat : t.at_ w = some (nodeid, n)) (h : t.lock w ≠ 0 ∨ ¬ t.Passes ticket w) :
      Refuses heap ticket t nodeid name wr t' (-eAgain)

/-- What `try_get_path` can do. -/
inductive TriesPath (heap : PathHeap) (ticket : Int) (t : Table) (nodeid : Nat) (name : Option FileName)
    (wr : Bool) : Except Stop (PathResult × Table) → Prop
  /-- The path is the one that the node has. -/
  | locked {way : List (Nat × FileName)} {wnode : Option Nat} {t' : Table}
      (hway : t.at_.Way fuseRootId nodeid way)
      (hrelock : Relocked t t' fun j => onWay way j - ownLock wnode j)
      (hfree : ∀ x ∈ way, t.lock x.1 ≠ -1 ∧ wnode ≠ some x.1)
      (hown : LocksName ticket t nodeid name wr wnode) (hpasses : ∀ x ∈ way, t.Passes ticket x.1)
      (htickets : ∀ j, t'.ticket j =
        if wnode = some j ∨ j ∈ way.map Prod.fst then 0 else t.ticket j) :
      TriesPath heap ticket t nodeid name wr
        (.ok (.locked (pathString (wayNames way ++ name.toList)) wnode, t'))
  /-- No lock has been taken, but tickets have been left. -/
  | failed {err : Int} {t' : Table} (hrelock : Relocked t t' 0) (hleaves : Table.Leaves ticket t t')
      (hwhy : Refuses heap ticket t nodeid name wr t' err) :
      TriesPath heap ticket t nodeid name wr (.ok (.failed err, t'))
  /-- The path has a length of 4 GiB. -/
  | endless {way : List (Nat × FileName)} {stop : Nat} (hway : t.at_.Way stop nodeid way)
      (hlong : 2 ^ 32 ≤ (slashed (wayNames way ++ name.toList)).length + 1) :
      TriesPath heap ticket t nodeid name wr (.error (.path .endless))

/-- `wnode` is locked, or there is nothing to lock, or it has to be waited for. -/
theorem Shaped.lockWrite_spec (hs : Shaped t hold) (nodeid : Nat) (name : FileName)
    (hticket : ticket ≠ 0) :
    (∃ w t', lockWrite t nodeid (some name) ticket = .ok (none, t') ∧ Relocked t t' 0 ∧
        Table.Leaves ticket t t' ∧ t.at_ w = some (nodeid, name) ∧
        (t.lock w ≠ 0 ∨ ¬ t.Passes ticket w)) ∨
      ∃ wnode t', lockWrite t nodeid (some name) ticket = .ok (some wnode, t') ∧
        (Relocked t t' fun j => -ownLock wnode j) ∧
        (∀ w, wnode = some w → t.lock w = 0 ∧ t.Passes ticket w) ∧
        (∀ w, wnode = some w ↔ t.at_ w = some (nodeid, name)) ∧
        ∀ j, t'.ticket j = if wnode = some j then 0 else t.ticket j := by
  rw [lockWrite, if_neg hticket]
  rcases hs.lookup nodeid name with ⟨w, hlook, hat⟩ | ⟨hlook, hnone⟩
  · obtain ⟨node, hnode, -⟩ := Table.nodes_of_at hat
    have htick := Table.ticket_of_nodes hnode
    simp only [hlook, ok_bind, Table.deref_ok hnode]
    by_cases hlocked : node.treelock ≠ 0 ∨ node.ticket ≠ 0 ∧ node.ticket ≠ ticket
    · rw [if_pos hlocked]
      refine .inl ⟨w, _, rfl, (Relocked.set hnode node.treelock
        (if node.ticket = 0 then ticket else node.ticket)).congr fun j => ?_, fun j => ?_, hat, ?_⟩
      · rw [sub_self]
        exact congrFun (Function.update_eq_self w (0 : Nat → Int)) j
      · by_cases hjw : j = w
        · subst hjw
          rw [htick, Table.ticket_set_self]
          by_cases hzero : node.ticket = 0
          · exact .inr ⟨hzero, if_pos hzero⟩
          · exact .inl (if_neg hzero)
        · exact .inl (Table.ticket_set_of_ne hjw)
      · rw [Table.lock_of_nodes hnode, Table.Passes, htick]
        exact hlocked.imp_right not_or.mpr
    · obtain ⟨hzero, hticket'⟩ := not_or.mp hlocked
      have hzero : node.treelock = 0 := not_not.mp hzero
      have hpasses : t.Passes ticket w := by
        rw [Table.Passes, htick]
        rcases not_and_or.mp hticket' with hfree | hsame
        · exact .inl (not_not.mp hfree)
        · exact .inr (not_not.mp hsame)
      rw [if_neg hlocked]
      refine .inr ⟨some w, _, rfl, (Relocked.set hnode (-1) 0).congr fun j => ?_, ?_, ?_, ?_⟩
      · rw [hzero, ownLock]
        by_cases hj : w = j
        · subst hj
          rw [Function.update_self, if_pos rfl]
          rfl
        · rw [Function.update_of_ne (Ne.symm hj), if_neg fun heq => hj (Option.some.inj heq)]
          rfl
      · rintro w' ⟨⟩
        rw [Table.lock_of_nodes hnode, hzero]
        exact ⟨rfl, hpasses⟩
      · intro w'
        constructor
        · rintro ⟨⟩
          exact hat
        · intro hat'
          rw [hs.unique hat hat']
      · intro j
        by_cases hj : j = w
        · subst hj
          rw [if_pos rfl, Table.ticket_set_self]
        · rw [if_neg fun heq => hj (Option.some.inj heq).symm, Table.ticket_set_of_ne hj]
  · simp only [hlook, ok_bind]
    refine .inr ⟨none, t, rfl, (Relocked.refl t).congr fun j => rfl, ?_, ?_, ?_⟩
    · rintro w ⟨⟩
    · intro w
      constructor
      · rintro ⟨⟩
      · exact fun hat => absurd hat (hnone w)
    · exact fun j => (if_neg (Option.some_ne_none j).symm).symm

theorem Shaped.lockName_spec (hs : Shaped t hold) (nodeid : Nat) {name : Option FileName}
    {wr : Bool} (hwr : wr = true → name ≠ none) (hticket : ticket ≠ 0) :
    (∃ t', lockName t nodeid name wr ticket = .ok (none, t') ∧ Relocked t t' 0 ∧
        Table.Leaves ticket t t' ∧ ∀ heap t', Refuses heap ticket t nodeid name wr t' (-eAgain)) ∨
      ∃ wnode t', lockName t nodeid name wr ticket = .ok (some wnode, t') ∧
        (Relocked t t' fun j => -ownLock wnode j) ∧ LocksName ticket t nodeid name wr wnode ∧
        ∀ j, t'.ticket j = if wnode = some j then 0 else t.ticket j := by
  cases wr with
  | false =>
      refine .inr ⟨none, t, rfl, (Relocked.refl t).congr fun _ => rfl, ⟨?_, ?_, fun _ => rfl, ?_⟩,
        fun j => (if_neg (Option.some_ne_none j).symm).symm⟩
      · rintro w ⟨⟩
      · rintro w ⟨⟩
      · rintro ⟨⟩
  | true =>
      obtain ⟨n, rfl⟩ := Option.ne_none_iff_exists'.mp (hwr rfl)
      rcases hs.lockWrite_spec nodeid n hticket with
        ⟨w, t', hrun, hrelock, hleaves, hat, hblocked⟩ | ⟨wnode, t', hrun, hrelock, hzero, hiff, htick⟩
      · exact .inl ⟨t', hrun, hrelock, hleaves, fun _ _ => .waits rfl rfl hat hblocked⟩
      · refine .inr ⟨wnode, t', hrun, hrelock, ⟨fun w hw => (hzero w hw).1, fun w hw => (hzero w hw).2,
          ?_, ?_⟩, htick⟩
        · rintro ⟨⟩
        · rintro - m ⟨⟩
          exact hiff

/-- What has been locked is the node of the name. -/
theorem LocksName.place {nodeid : Nat} {name : Option FileName} {wr : Bool} {wnode : Option Nat}
    (h : LocksName ticket t nodeid name wr wnode) (hwr : wr = true → name ≠ none) {w : Nat}
    (hw : wnode = some w) : ∃ n, t.at_ w = some (nodeid, n) := by
  have hwr' : wr = true := by
    by_contra hfalse
    rw [h.read (by simpa using hfalse)] at hw
    cases hw
  obtain ⟨n, hn⟩ := Option.ne_none_iff_exists'.mp (hwr hwr')
  exact ⟨n, (h.write hwr' n hn w).mp hw⟩

/-- A node that has been locked is there, and its lock is -1 now. -/
theorem LocksName.lock {nodeid : Nat} {name : Option FileName} {wr : Bool} {wnode : Option Nat}
    (h : LocksName ticket t nodeid name wr wnode) (hwr : wr = true → name ≠ none) {t' : Table}
    (hrelock : Relocked t t' fun j => -ownLock wnode j) {w : Nat} (hw : wnode = some w) :
    (t.nodes w).isSome ∧ t'.lock w = -1 := by
  obtain ⟨n, hat⟩ := h.place hwr hw
  obtain ⟨node, hnode, -⟩ := Table.nodes_of_at hat
  have hown : ownLock wnode w = 1 := if_pos hw
  refine ⟨Option.isSome_of_mem hnode, ?_⟩
  rw [hrelock.lock (Option.isSome_of_mem hnode), h.zero w hw, hown]
  rfl

/-- The name that a path ends with. -/
theorem addLast_spec (heap : PathHeap) {b : PathBuf} (hb : b.Has []) (name : Option FileName) :
    (∃ b', addLast heap b name = .ok (some b') ∧ b'.Has (slashed name.toList)) ∨
      (addLast heap b name = .ok none ∧ ∃ size, heap.has size = false) ∨
      addLast heap b name = .error (.path .endless) ∧ 2 ^ 32 ≤ (slashed name.toList).length + 1 := by
  cases name with
  | none => exact .inl ⟨b, rfl, hb⟩
  | some name =>
      have hpath : slash :: name ++ [] = slashed [name] := rfl
      have hlen : (slashed [name]).length = name.length + 1 := by simp [slashed]
      by_cases hfits : ([] : FileName).length + name.length + 2 < 2 ^ 32
      · rcases addName_has heap hb hfits with ⟨b', hadd, hhas⟩ | ⟨hadd, hmem⟩
        · refine .inl ⟨b', ?_, hpath ▸ hhas⟩
          rw [addLast, hadd]
          rfl
        · refine .inr (.inl ⟨?_, hmem⟩)
          rw [addLast, hadd]
          rfl
      · refine .inr (.inr ⟨?_, ?_⟩)
        · rw [addLast, addName_endless hb (not_lt.mp hfits)]
          rfl
        · show 2 ^ 32 ≤ (slashed [name]).length + 1
          rw [hlen]
          simpa [Nat.add_assoc] using hfits

theorem slashed_append (names names' : List FileName) :
    slashed (names ++ names') = slashed names ++ slashed names' := List.flatMap_append

theorem mallocPath_none (h : mallocPath heap = none) : heap.has 256 = false := by
  rw [mallocPath] at h
  by_contra hhas
  rw [if_pos (by simpa using hhas)] at h
  cases h

/-- What has been done before the way up begins. -/
structure NameLocked (ticket : Int) (t t' : Table) (nodeid : Nat) (name : Option FileName) (wr : Bool)
    (wnode : Option Nat) : Prop where
  relock : Relocked t t' fun j => -ownLock wnode j
  own : LocksName ticket t nodeid name wr wnode
  tickets : ∀ j, t'.ticket j = if wnode = some j then 0 else t.ticket j
  named : wr = true → name ≠ none

section NameLocked

variable {t₁ t₂ : Table} {nodeid stop : Nat} {wr : Bool} {wnode : Option Nat}
  {way : List (Nat × FileName)} {lastName : Option FileName}

/-- The locks on the way are as they were: the node that has been locked, whose
    lock is -1, is not on it. -/
theorem NameLocked.lock (h : NameLocked ticket t t₁ nodeid lastName wr wnode)
    (hway : t₁.at_.Way stop nodeid way) (hfree : ∀ x ∈ way, t₁.lock x.1 ≠ -1)
    (hat : t₁.at_ = t.at_) {x : Nat × FileName} (hx : x ∈ way) :
    t₁.lock x.1 = t.lock x.1 ∧ wnode ≠ some x.1 := by
  obtain ⟨-, q, hxat⟩ := hway.at_mem hx
  rw [hat] at hxat
  obtain ⟨node, hnode, -⟩ := Table.nodes_of_at hxat
  have hsame := h.relock.lock (Option.isSome_of_mem hnode)
  have hne : wnode ≠ some x.1 := by
    intro heq
    exact hfree x hx (h.own.lock h.named h.relock heq).2
  have hown : ownLock wnode x.1 = 0 := if_neg hne
  rw [hown, neg_zero, add_zero] at hsame
  exact ⟨hsame, hne⟩

/-- A node that the way up comes to had its ticket from the beginning. -/
theorem NameLocked.passes (h : NameLocked ticket t t₁ nodeid lastName wr wnode)
    (hne : wnode ≠ some i) : t₁.Passes ticket i ↔ t.Passes ticket i := by
  rw [Table.Passes, h.tickets, if_neg hne, Table.Passes]

/-- The way up has come to the root. -/
theorem NameLocked.locked (h : NameLocked ticket t t₁ nodeid lastName wr wnode)
    (hat : t₁.at_ = t.at_) (hway : t₁.at_.Way fuseRootId nodeid way)
    (htakes : Takes ticket way t₁ t₂) :
    TriesPath heap ticket t nodeid lastName wr
      (.ok (.locked (pathString (wayNames way ++ lastName.toList)) wnode, t₂)) := by
  refine .locked (hat ▸ hway) ((h.relock.trans htakes.relock).congr fun j => ?_) ?_ h.own ?_ ?_
  · rw [Pi.add_apply]
    omega
  · intro x hx
    obtain ⟨hsame, hne⟩ := h.lock hway htakes.free hat hx
    exact ⟨hsame ▸ htakes.free x hx, hne⟩
  · intro x hx
    exact (h.passes (h.lock hway htakes.free hat hx).2).mp (htakes.passes x hx)
  · intro j
    rw [htakes.tickets j, h.tickets j]
    by_cases hj : j ∈ way.map Prod.fst
    · rw [if_pos hj, if_pos (.inr hj)]
    · rw [if_neg hj]
      simp only [hj, or_false]

/-- The reason why the way up has ended was there from the beginning. -/
theorem NameLocked.pathFails (h : NameLocked ticket t t₁ nodeid lastName wr wnode)
    (hs : Shaped t hold) (hat : t₁.at_ = t.at_) (hway : t₁.at_.Way stop nodeid way) {err : Int}
    (herr : PathFails heap ticket t₁ stop err) : PathFails heap ticket t stop err := by
  cases herr with
  | noMem h => exact .noMem h
  | noEnt hroot hstop => exact .noEnt hroot (hat ▸ hstop)
  | @again hstop hwhy =>
      -- the node that has been locked for the request is below the node of the path
      have hne : wnode ≠ some stop := by
        intro heq
        obtain ⟨n, hn⟩ := h.own.place h.named heq
        rw [hat] at hway
        exact (hs.acyclic stop).not_below hn ⟨_, hway.leads⟩
      have hown : ownLock wnode stop = 0 := if_neg hne
      obtain ⟨x, hx⟩ := Option.ne_none_iff_exists'.mp hstop
      rw [hat] at hx
      obtain ⟨node, hnode, -⟩ := Table.nodes_of_at hx
      rw [h.relock.lock (Option.isSome_of_mem hnode), hown, neg_zero, add_zero, h.passes hne] at hwhy
      exact .again (hat ▸ hstop) hwhy

/-- The tickets when all that has been locked is given back: what was passed had
    no ticket, or the one that is left there. -/
theorem NameLocked.leaves (h : NameLocked ticket t t₁ nodeid lastName wr wnode)
    (hat : t₁.at_ = t.at_) (hway : t₁.at_.Way stop nodeid way) (htakes : Takes ticket way t₁ t₂)
    {t₃ : Table} (htickets : ∀ j, t₃.ticket j = if wnode = some j ∨ j ∈ way.map Prod.fst then
      leave ticket (t₂.ticket j) else t₂.ticket j) : Table.Leaves ticket t t₃ := by
  intro j
  have hdone : ∀ {old : Int}, old = 0 ∨ old = ticket →
      leave ticket 0 = old ∨ old = 0 ∧ leave ticket 0 = ticket := by
    rintro old (hzero | hsame)
    · exact .inr ⟨hzero, if_pos rfl⟩
    · exact .inl ((if_pos rfl).trans hsame.symm)
  rw [htickets j, htakes.tickets j, h.tickets j]
  by_cases hw : wnode = some j
  · have hoff : j ∉ way.map Prod.fst := by
      intro hmem
      obtain ⟨x, hx, rfl⟩ := List.mem_map.mp hmem
      exact (h.lock hway htakes.free hat hx).2 hw
    rw [if_pos (.inl hw), if_neg hoff, if_pos hw]
    exact hdone (h.own.passes j hw)
  · by_cases hmem : j ∈ way.map Prod.fst
    · obtain ⟨x, hx, rfl⟩ := List.mem_map.mp hmem
      rw [if_pos (.inr hmem), if_pos hmem]
      exact hdone ((h.passes hw).mp (htakes.passes x hx))
    · rw [if_neg (not_or.mpr ⟨hw, hmem⟩), if_neg hmem, if_neg hw]
      exact .inl rfl

/-- The way up has ended before the root, and everything is given back. -/
theorem NameLocked.failed (h : NameLocked ticket t t₁ nodeid lastName wr wnode)
    (hs : Shaped t hold) (hlock : ∀ j, -1 ≤ t.lock j) (hlive : (t₁.nodes nodeid).isSome)
    (hway : t₁.at_.Way stop nodeid way) (htakes : Takes ticket way t₁ t₂) {err : Int}
    (herr : PathFails heap ticket t₁ stop err) :
    ∃ t₃, unlockPath t₂ nodeid wnode (some stop) ticket = .ok t₃ ∧
      TriesPath heap ticket t nodeid lastName wr (.ok (.failed err, t₃)) := by
  obtain ⟨hs₁, hat₁⟩ := h.relock.shaped hs
  obtain ⟨hs₂, hat₂⟩ := htakes.relock.shaped hs₁
  have hshare : ∀ x ∈ way, 0 < t₂.lock x.1 := by
    intro x hx
    obtain ⟨-, q, hxat⟩ := hway.at_mem hx
    obtain ⟨node, hnode, -⟩ := Table.nodes_of_at hxat
    obtain ⟨hsame, -⟩ := h.lock hway htakes.free hat₁ hx
    have hge := hlock x.1
    have hne := htakes.free x hx
    have hone : 1 ≤ onWay way x.1 := by
      have hpos : 0 < (way.map Prod.fst).count x.1 :=
        List.count_pos_iff.mpr (List.mem_map_of_mem hx)
      rw [onWay]
      omega
    rw [htakes.relock.lock (Option.isSome_of_mem hnode)]
    omega
  have hwnode : ∀ w, wnode = some w → t₂.lock w = -1 := by
    intro w hw
    obtain ⟨hlive', hlock₁⟩ := h.own.lock h.named h.relock hw
    have hoff : w ∉ way.map Prod.fst := by
      intro hmem
      obtain ⟨x, hx, rfl⟩ := List.mem_map.mp hmem
      exact (h.lock hway htakes.free hat₁ hx).2 hw
    rw [htakes.relock.lock ((h.relock.isSome w).trans hlive'), hlock₁, onWay_of_not_mem hoff, add_zero]
  obtain ⟨t₃, hrun₃, hrelock₃, htickets₃⟩ := hs₂.unlockPath_spec (hat₂ ▸ hway) (.inl rfl)
    ((htakes.relock.isSome nodeid).trans hlive) hshare hwnode ticket
  refine ⟨t₃, hrun₃, .failed (((h.relock.trans htakes.relock).trans hrelock₃).congr fun j => ?_)
    (h.leaves hat₁ hway htakes htickets₃)
    (.stopped (hat₁ ▸ hway) (h.pathFails hs hat₁ hway herr) fun x hx => ?_)⟩
  · rw [Pi.add_apply, Pi.add_apply, Pi.zero_apply]
    omega
  · have hmem : x.1 ∈ way.map Prod.fst := List.mem_map_of_mem hx
    rw [htickets₃ x.1, htakes.tickets x.1, if_pos (.inr hmem), if_pos hmem, leave, if_pos rfl]

end NameLocked

/-- `try_get_path` locks the path of the node, or leaves the locks as they
    were. -/
theorem Shaped.tryGetPath_spec (hs : Shaped t hold) (heap : PathHeap) (hlock : ∀ j, -1 ≤ t.lock j)
    (hclean : ∀ j q n, t.at_ j = some (q, n) → (0 : UInt8) ∉ n) {nodeid : Nat}
    (hlive : (t.nodes nodeid).isSome) {name : Option FileName}
    (hname : ∀ n, name = some n → (0 : UInt8) ∉ n) {wr : Bool} (hwr : wr = true → name ≠ none)
    (hticket : ticket ≠ 0) :
    TriesPath heap ticket t nodeid name wr (tryGetPath heap t nodeid name wr ticket) := by
  have hnoMem : ∀ {size : Nat}, heap.has size = false →
      TriesPath heap ticket t nodeid name wr (.ok (.failed (-eNoMem), t)) := fun hsize =>
    .failed (.refl t) (.refl ticket t)
      (.stopped .top (.noMem hsize) fun x hx => absurd hx List.not_mem_nil)
  rw [tryGetPath]
  cases hmalloc : mallocPath heap with
  | none => exact hnoMem (mallocPath_none hmalloc)
  | some b =>
      rcases addLast_spec heap (mallocPath_has hmalloc) name with
        ⟨b', hadd, hhas⟩ | ⟨hadd, size, hsize⟩ | ⟨hadd, hlong⟩
      case inr.inl =>
          simp only [hadd, ok_bind]
          exact hnoMem hsize
      case inr.inr =>
          simp only [hadd]
          exact .endless .top hlong
      simp only [hadd, ok_bind]
      rcases hs.lockName_spec nodeid hwr hticket with
        ⟨t₁, hrun₁, hrelock₁, hleaves₁, hwhy₁⟩ | ⟨wnode, t₁, hrun₁, hrelock₁, hown₁, htickets₁⟩
      · rw [hrun₁, ok_bind]
        exact .failed hrelock₁ hleaves₁ (hwhy₁ heap t₁)
      have hlocked : NameLocked ticket t t₁ nodeid name wr wnode := ⟨hrelock₁, hown₁, htickets₁, hwr⟩
      obtain ⟨hs₁, hat₁⟩ := hrelock₁.shaped hs
      have hlive₁ := (hrelock₁.isSome nodeid).trans hlive
      obtain ⟨node, hnode₁⟩ := Option.isSome_iff_exists.mp hlive₁
      rw [hrun₁, ok_bind]
      simp only [getNode_ok hnode₁, ok_bind]
      -- the way up
      obtain ⟨top, way, htop, hway⟩ := (hs₁.acyclic nodeid).exists_way
      have hclimb := climb_spec heap hway htop hs₁ rfl hlive₁ hticket hhas (hs₁.way_length hway)
      generalize hr : climb heap ticket (2 ^ 32) t₁ b' nodeid = r at hclimb
      cases hclimb with
      | endless hway' hlong =>
          rw [← slashed_append] at hlong
          exact .endless (hat₁ ▸ hway') hlong
      | @top way' t₂ b₂ hway' htakes hhas' =>
          rw [← slashed_append] at hhas'
          have hnames : ∀ n ∈ wayNames way' ++ name.toList, (0 : UInt8) ∉ n := by
            intro n hn
            rcases List.mem_append.mp hn with hn | hn
            · obtain ⟨x, hx, rfl⟩ := List.mem_map.mp (List.mem_reverse.mp hn)
              obtain ⟨-, q, hxat⟩ := hway'.at_mem hx
              exact hclean _ _ _ (hat₁ ▸ hxat)
            · exact hname n (Option.mem_toList.mp hn)
          simp only [ok_bind, finish_has hhas' hnames]
          exact hlocked.locked hat₁ hway' htakes
      | @failed way' t₂ err stop hway' htakes herr =>
          obtain ⟨t₃, hrun₃, htries⟩ := hlocked.failed hs hlock hlive₁ hway' htakes herr
          simp only [ok_bind, if_neg hticket, hrun₃]
          exact htries

end TryPath

end FuseNt.NodeTable
