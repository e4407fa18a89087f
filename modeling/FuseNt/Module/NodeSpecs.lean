/-
  FuseNt.Module.NodeSpecs

  What the functions of the node table do to a shaped table: to the forest, to
  the status of the nodes, and to the references that are held.

  A node that loses its last reference is freed.  Whether that is a parent that
  has lost a child, or the node that a reference was dropped to, it must not
  have a name or a lock; `Idle` says so of the nodes nobody holds.
-/

import FuseNt.Module.NodeShape

namespace FuseNt.NodeTable

open FuseNt.Lib

/-- A node that is not held has no place and no lock, and is not the root. -/
def Idle (t : Table) (hold : Nat → Nat) (i : Nat) : Prop :=
  hold i = 0 → i ≠ fuseRootId ∧ t.at_ i = none ∧ ∀ st, t.status i = some st → st.treelock = 0

/-- The nodes have kept their status, but some that are not held may be gone. -/
def Spared (hold : Nat → Nat) (status status' : Nat → Option Status) : Prop :=
  ∀ i, status' i = status i ∨ hold i = 0 ∧ status' i = none

/-- What a function has made of the table. -/
structure Did (t t' : Table) (hold : Nat → Nat) (forest : Forest Nat FileName) : Prop where
  shaped : Shaped t' hold
  at_ : t'.at_ = forest
  ctr : t'.ctr = t.ctr
  generation : t'.generation = t.generation

theorem Spared.of_eq (hold : Nat → Nat) {status status' : Nat → Option Status}
    (h : status' = status) : Spared hold status status' := fun i => .inl (congrFun h i)

theorem Spared.trans {hold : Nat → Nat} {status status' status'' : Nat → Option Status}
    (h : Spared hold status status') (h' : Spared hold status' status'') :
    Spared hold status status'' := by
  intro i
  rcases h' i with heq | hgone
  · rw [heq]
    exact h i
  · exact .inr hgone

theorem Spared.held {hold : Nat → Nat} {status status' : Nat → Option Status} {i : Nat}
    (h : Spared hold status status') (hi : hold i ≠ 0) : status' i = status i := by
  rcases h i with heq | ⟨hzero, -⟩
  · exact heq
  · exact absurd hzero hi

theorem Spared.some {hold : Nat → Nat} {status status' : Nat → Option Status} {i : Nat}
    {st : Status} (h : Spared hold status status') (hi : status' i = some st) :
    status i = some st := by
  rcases h i with heq | ⟨-, hgone⟩
  · rw [← heq, hi]
  · rw [hgone] at hi
    cases hi

/-- The counter has not been used, and the nodes have kept their generations. -/
structure Table.Keeps (t t' : Table) : Prop where
  ctr : t'.ctr = t.ctr
  generation : t'.generation = t.generation
  nodes : ∀ {i st'}, t'.status i = some st' →
    ∃ st, t.status i = some st ∧ st.generation = st'.generation

theorem Table.Keeps.trans {t t' t'' : Table} (h : t.Keeps t') (h' : t'.Keeps t'') : t.Keeps t'' where
  ctr := h'.ctr.trans h.ctr
  generation := h'.generation.trans h.generation
  nodes := by
    intro i st'' hst''
    obtain ⟨st', hst', heq'⟩ := h'.nodes hst''
    obtain ⟨st, hst, heq⟩ := h.nodes hst'
    exact ⟨st, hst, heq.trans heq'⟩

/-- The nodes have kept their tickets as well. -/
structure Table.Quiet (t t' : Table) : Prop where
  ctr : t'.ctr = t.ctr
  generation : t'.generation = t.generation
  nodes : ∀ {i st'}, t'.status i = some st' →
    ∃ st, t.status i = some st ∧ st.generation = st'.generation ∧ st.ticket = st'.ticket

theorem Table.Quiet.keeps {t t' : Table} (h : t.Quiet t') : t.Keeps t' where
  ctr := h.ctr
  generation := h.generation
  nodes := by
    intro i st' hst'
    obtain ⟨st, hst, heq, -⟩ := h.nodes hst'
    exact ⟨st, hst, heq⟩

theorem Table.Quiet.refl (t : Table) : t.Quiet t := ⟨rfl, rfl, fun hst => ⟨_, hst, rfl, rfl⟩⟩

theorem Table.Quiet.trans {t t' t'' : Table} (h : t.Quiet t') (h' : t'.Quiet t'') : t.Quiet t'' where
  ctr := h'.ctr.trans h.ctr
  generation := h'.generation.trans h.generation
  nodes := by
    intro i st'' hst''
    obtain ⟨st', hst', hgen', htick'⟩ := h'.nodes hst''
    obtain ⟨st, hst, hgen, htick⟩ := h.nodes hst'
    exact ⟨st, hst, hgen.trans hgen', htick.trans htick'⟩

/-- One node is written, and some may go. -/
theorem Did.quiet {t t' : Table} {hold hold' : Nat → Nat} {forest : Forest Nat FileName}
    (h : Did t t' hold forest) {i : Nat} {st st' : Status} (hst : t.status i = some st)
    (hspared : Spared hold' (Function.update t.status i (some st')) t'.status)
    (hgen : st'.generation = st.generation) (htick : st'.ticket = st.ticket) : t.Quiet t' where
  ctr := h.ctr
  generation := h.generation
  nodes := by
    intro j stj hstj
    have hj := hspared.some hstj
    by_cases hji : j = i
    · subst hji
      rw [Function.update_self] at hj
      cases hj
      exact ⟨st, hst, hgen.symm, htick.symm⟩
    · rw [Function.update_of_ne hji] at hj
      exact ⟨stj, hj, rfl, rfl⟩

theorem Table.Quiet.set {t : Table} {i : Nat} {node node' : Node} (hnode : t.nodes i = some node)
    (hgen : node'.generation = node.generation) (htick : node'.ticket = node.ticket) :
    t.Quiet (t.set i node') where
  ctr := rfl
  generation := rfl
  nodes := by
    intro j st' hst'
    rw [Table.status_set] at hst'
    by_cases hj : j = i
    · subst hj
      rw [Function.update_self] at hst'
      cases hst'
      exact ⟨_, Table.status_of_nodes hnode, hgen.symm, htick.symm⟩
    · rw [Function.update_of_ne hj] at hst'
      exact ⟨st', hst', rfl, rfl⟩

section Specs

variable {t : Table} {hold : Nat → Nat} {i p : Nat} {name : FileName} {node : Node}

theorem exists_node_of_at (hat : t.at_ i = some (p, name)) :
    ∃ node, t.nodes i = some node ∧ node.parent = some p ∧ node.name = some name := by
  obtain ⟨node, hnode, hplace⟩ := Table.nodes_of_at hat
  exact ⟨node, hnode, Node.place_eq_some.mp hplace⟩

theorem exists_node_of_status {st : Status} (h : t.status i = some st) :
    ∃ node, t.nodes i = some node ∧ node.status = st :=
  Option.map_eq_some_iff.mp h

theorem getNode_ok (h : t.nodes i = some node) : getNode t i = .ok node := by
  rw [getNode, h]

-- ============================================================================
-- lookup_node
-- ============================================================================

/-- The loop finds the first node of the chain that is in the place. -/
theorem Shaped.lookupChain (h : Shaped t hold) (dir : Nat) (name : FileName) {chain : List Nat}
    (hchain : ∀ i ∈ chain, t.at_ i ≠ none) :
    (∃ i, lookupChain t dir name chain = .ok (some i) ∧ t.at_ i = some (dir, name)) ∨
      lookupChain t dir name chain = .ok none ∧ ∀ i ∈ chain, t.at_ i ≠ some (dir, name) := by
  induction chain with
  | nil => exact .inr ⟨rfl, fun i hi => absurd hi List.not_mem_nil⟩
  | cons i rest ih =>
      obtain ⟨⟨p, n⟩, hat⟩ := Option.ne_none_iff_exists'.mp (hchain i List.mem_cons_self)
      obtain ⟨node, hnode, hparent, hname⟩ := exists_node_of_at hat
      obtain ⟨pnode, hpnode⟩ := Option.isSome_iff_exists.mp (h.parent hat)
      rw [NodeTable.lookupChain, Table.deref_ok hnode, ok_bind]
      simp only [hparent, hname, Table.deref_ok hpnode, ok_bind]
      have hrest := ih fun j hj => hchain j (List.mem_cons_of_mem _ hj)
      have hskip : t.at_ i ≠ some (dir, name) →
          (∃ i, NodeTable.lookupChain t dir name rest = .ok (some i) ∧ t.at_ i = some (dir, name)) ∨
            NodeTable.lookupChain t dir name rest = .ok none ∧
              ∀ j ∈ i :: rest, t.at_ j ≠ some (dir, name) := by
        intro hne
        refine hrest.imp_right fun hnone => ⟨hnone.1, fun j hj => ?_⟩
        rcases List.mem_cons.mp hj with rfl | hj
        · exact hne
        · exact hnone.2 j hj
      by_cases hp : p = dir
      case neg =>
          rw [if_neg hp]
          apply hskip
          rw [hat]
          rintro ⟨⟩
          exact hp rfl
      case pos =>
          subst hp
          rw [if_pos rfl]
          by_cases hn : n = name
          case neg =>
              rw [if_neg hn]
              apply hskip
              rw [hat]
              rintro ⟨⟩
              exact hn rfl
          case pos =>
              subst hn
              rw [if_pos rfl]
              exact .inl ⟨i, rfl, hat⟩

/-- `lookup_node` finds the node in the place. -/
theorem Shaped.lookup (h : Shaped t hold) (dir : Nat) (name : FileName) :
    (∃ i, lookupNode t dir name = .ok (some i) ∧ t.at_ i = some (dir, name)) ∨
      lookupNode t dir name = .ok none ∧ ∀ i, t.at_ i ≠ some (dir, name) := by
  have hchain : ∀ i ∈ t.nameTable (nameHash dir name), t.at_ i ≠ none := by
    intro i hi
    obtain ⟨p, n, hat, -⟩ := h.hashed.mp hi
    rw [hat]
    exact Option.some_ne_none _
  rcases h.lookupChain dir name hchain with hfound | ⟨hnone, hmissing⟩
  · exact .inl hfound
  · exact .inr ⟨hnone, fun i hat => hmissing i (h.hashed.mpr ⟨dir, name, hat, rfl⟩) hat⟩

theorem Shaped.lookup_found (h : Shaped t hold) (hat : t.at_ i = some (p, name)) :
    lookupNode t p name = .ok (some i) := by
  rcases h.lookup p name with ⟨j, hlook, hj⟩ | ⟨-, hnone⟩
  · rw [hlook, h.unique hat hj]
  · exact absurd hat (hnone i)

-- ============================================================================
-- unref_node
-- ============================================================================

theorem unrefNode_eq (hnode : t.nodes i = some node) : unrefNode t i =
    if node.refctr ≤ 0 then .error .assertion
    else if node.refctr - 1 = 0 then
      if node.treelock ≠ 0 ∨ node.name ≠ none then .error .assertion else .ok (t.delete i)
    else .ok (t.set i { node with refctr := node.refctr - 1 }) := by
  have hdelete : (t.set i { node with refctr := node.refctr - 1 }).delete i = t.delete i := by
    simp only [Table.delete, Table.set, Function.update_idem]
  have hrun : deleteNode (t.set i { node with refctr := node.refctr - 1 }) i =
      if node.treelock ≠ 0 ∨ node.name ≠ none then .error .assertion else .ok (t.delete i) := by
    rw [deleteNode, Table.deref_ok Table.nodes_set_self, ok_bind, ← hdelete]
    rfl
  rw [unrefNode, Table.deref_ok hnode, ok_bind, ← hrun]

/-- A reference is dropped. -/
theorem Shaped.unref (h : Shaped t (bump hold i)) (hnode : t.nodes i = some node)
    (hidle : Idle t hold i) :
    ∃ t', unrefNode t i = .ok t' ∧ Did t t' hold t.at_ ∧ Spared hold t.status t'.status := by
  obtain ⟨hcount, hpos⟩ := h.refs hnode
  rw [bump_self] at hcount
  rw [unrefNode_eq hnode, if_neg (not_le.mpr hpos)]
  by_cases hlast : node.refctr - 1 = 0
  case neg =>
      refine ⟨_, if_neg hlast, ⟨?_, Table.at_set_eq hnode rfl, rfl, rfl⟩,
        .of_eq _ (Table.status_set_eq hnode rfl)⟩
      exact h.setRefctr hnode (fun j hj => (bump_of_ne hj).symm) (by omega) (by omega)
  case pos =>
      have hold0 : hold i = 0 := by omega
      have hchildren : Forest.children t.at_ i = ∅ :=
        (Set.ncard_eq_zero (h.children_finite i)).mp (by omega)
      obtain ⟨hroot, hat, hlock⟩ := hidle hold0
      have hname := (h.nameless hnode hroot hat).2
      have htreelock : node.treelock = 0 := hlock _ (Table.status_of_nodes hnode)
      have hgone : ¬ (node.treelock ≠ 0 ∨ node.name ≠ none) :=
        not_or.mpr ⟨not_not.mpr htreelock, not_not.mpr hname⟩
      rw [if_pos hlast, if_neg hgone]
      refine ⟨_, rfl, ⟨h.delete hroot hat hold0 hchildren, ?_, rfl, rfl⟩, ?_⟩
      · rw [Table.at_delete]
        exact Forest.detach_of_none hat
      · intro j
        rw [Table.status_delete]
        by_cases hj : j = i
        · subst hj
          exact .inr ⟨hold0, Function.update_self ..⟩
        · exact .inl (Function.update_of_ne hj ..)

-- ============================================================================
-- unhash_name and hash_name
-- ============================================================================

/-- A node without a place is left alone. -/
theorem Shaped.unhash_none (h : Shaped t hold) (hnode : t.nodes i = some node)
    (hi : i ≠ fuseRootId) (hat : t.at_ i = none) : unhashName t i = .ok t := by
  rw [unhashName, Table.deref_ok hnode, ok_bind]
  simp only [(h.nameless hnode hi hat).2]

/-- A node is taken from its place. -/
theorem Shaped.unhash (h : Shaped t hold) (hat : t.at_ i = some (p, name)) (hidle : Idle t hold p) :
    ∃ t', unhashName t i = .ok t' ∧ Did t t' hold (t.at_.detach i) ∧
      Spared hold t.status t'.status := by
  obtain ⟨node, hnode, hparent, hname⟩ := exists_node_of_at hat
  obtain ⟨pnode, hpnode⟩ := Option.isSome_iff_exists.mp (h.parent hat)
  have hip := h.ne_parent hat
  obtain ⟨hshaped, hat'⟩ := h.clear hnode hat
  -- the reference is dropped while the node still has its place, which does not matter
  let t₀ : Table := { t with
    nameTable := Function.update t.nameTable (nameHash p name)
      ((t.nameTable (nameHash p name)).erase i) }
  let cleared := t.cleared i node (nameHash p name)
  have hstatus : cleared.status = t.status := Table.status_set_eq hnode rfl
  have hpnode' : cleared.nodes p = some pnode := (Table.nodes_set_of_ne hip.symm).trans hpnode
  have hidle' : Idle cleared hold p := by
    intro hold0
    obtain ⟨hroot, hnone, hlock⟩ := hidle hold0
    rw [hstatus, hat', Forest.detach_of_ne hip.symm]
    exact ⟨hroot, hnone, hlock⟩
  obtain ⟨t', hrun, hdid, hspared⟩ := hshaped.unref hpnode' hidle'
  have hcommute : ∃ t₁, unrefNode t₀ p = .ok t₁ ∧ t₁.nodes i = some node ∧
      t₁.set i { node with name := none, parent := none } = t' := by
    have hpnode₀ : t₀.nodes p = some pnode := hpnode
    rw [unrefNode_eq hpnode'] at hrun
    rw [unrefNode_eq hpnode₀]
    split at hrun
    · cases hrun
    rename_i hpos
    rw [if_neg hpos]
    split at hrun
    · rename_i hlast
      split at hrun
      · cases hrun
      rename_i hgone
      cases hrun
      rw [if_pos hlast, if_neg hgone]
      refine ⟨_, rfl, (Table.nodes_delete_of_ne hip).trans hnode, ?_⟩
      simp only [Table.set, Table.delete, t₀, cleared, Table.cleared]
      rw [Function.update_comm hip]
    · rename_i hlast
      cases hrun
      rw [if_neg hlast]
      refine ⟨_, rfl, (Table.nodes_set_of_ne hip).trans hnode, ?_⟩
      simp only [Table.set, t₀, cleared, Table.cleared]
      rw [Function.update_comm hip]
  obtain ⟨t₁, hrun₁, hnode₁, rfl⟩ := hcommute
  have hmem : i ∈ t.nameTable (nameHash p name) := h.hashed.mpr ⟨p, name, hat, rfl⟩
  refine ⟨_, ?_, ⟨hdid.shaped, hdid.at_.trans hat', hdid.ctr, hdid.generation⟩, hstatus ▸ hspared⟩
  rw [unhashName, Table.deref_ok hnode, ok_bind]
  simp only [hname, hparent, Table.deref_ok hpnode, ok_bind]
  rw [if_pos hmem, hrun₁, ok_bind, Table.deref_ok hnode₁, ok_bind]

/-- A node gets a place. -/
theorem Shaped.hash (h : Shaped t hold) (hnode : t.nodes i = some node) (hi : i ≠ fuseRootId)
    (hat : t.at_ i = none) (hp : (t.nodes p).isSome) (hfree : ∀ j, t.at_ j ≠ some (p, name))
    (hbelow : ¬ Forest.Below t.at_ i p) :
    ∃ t', hashName t i p name true = .ok (true, t') ∧ Did t t' hold (t.at_.attach i p name) ∧
      t'.status = t.status := by
  obtain ⟨pnode, hpnode⟩ := Option.isSome_iff_exists.mp hp
  have hip : i ≠ p := by
    rintro rfl
    exact hbelow (.refl _ _)
  obtain ⟨hcount, hpos⟩ := h.refs hpnode
  let t₁ := t.set p { pnode with refctr := pnode.refctr + 1 }
  have hat₁ : t₁.at_ = t.at_ := Table.at_set_eq hpnode rfl
  have hstatus₁ : t₁.status = t.status := Table.status_set_eq hpnode rfl
  have hnode₁ : t₁.nodes i = some node := (Table.nodes_set_of_ne hip).trans hnode
  have hshaped₁ : Shaped t₁ (bump hold p) :=
    h.setRefctr hpnode (fun j hj => bump_of_ne hj) (by omega) (by rw [bump_self]; omega)
  have hp₁ : (t₁.nodes p).isSome := by
    rw [Table.nodes_set_self]
    rfl
  obtain ⟨hshaped, hat'⟩ := hshaped₁.place hnode₁ hi (hat₁ ▸ hat) hp₁ (hat₁ ▸ hfree) (hat₁ ▸ hbelow)
  refine ⟨t₁.placed i node p name, ?_, ⟨hshaped, hat'.trans (by rw [hat₁]), rfl, rfl⟩, ?_⟩
  · rw [hashName, getNode_ok hpnode, ok_bind, if_pos rfl]
    show (t₁.deref i >>= _) = _
    rw [Table.deref_ok hnode₁]
    rfl
  · rw [← hstatus₁]
    exact Table.status_set_eq hnode₁ rfl

/-- There is no memory for the name. -/
theorem Shaped.hash_none (h : Shaped t hold) (hnode : t.nodes i = some node)
    (hi : i ≠ fuseRootId) (hat : t.at_ i = none) (hp : (t.nodes p).isSome) :
    hashName t i p name false = .ok (false, t) := by
  obtain ⟨pnode, hpnode⟩ := Option.isSome_iff_exists.mp hp
  have hname := (h.nameless hnode hi hat).2
  have hsame : t.set i { node with name := none } = t := by
    rw [← hname]
    show { t with nodes := Function.update t.nodes i (some node) } = t
    rw [← hnode, Function.update_eq_self]
  rw [hashName, getNode_ok hpnode, ok_bind, if_neg Bool.false_ne_true, Table.deref_ok hnode,
    ok_bind, hsame]
  rfl

-- ============================================================================
-- next_id
-- ============================================================================

/-- The id can be given to a new node. -/
structure NewId (t : Table) (i : Nat) : Prop where
  pos : 0 < i
  known : i < fuseUnknownIno
  free : t.nodes i = none

/-- The counter and the generation as one number of 64 bits. -/
def Table.pos (t : Table) : Nat := t.generation * 2 ^ 32 + t.ctr

/-- The counter and the generation are within 32 bits. -/
def Table.InRange (t : Table) : Prop := t.generation < 2 ^ 32 ∧ t.ctr < 2 ^ 32

/-- One round of the loop counts one on. -/
theorem pos_succ {ctr generation : Nat} (hctr : ctr < 2 ^ 32) (hgen : generation < 2 ^ 32) :
    (if (ctr + 1) % 2 ^ 32 = 0 then (generation + 1) % 2 ^ 32 else generation) * 2 ^ 32 +
        (ctr + 1) % 2 ^ 32 = (generation * 2 ^ 32 + ctr + 1) % 2 ^ 64 := by
  by_cases hlast : (ctr + 1) % 2 ^ 32 = 0
  · rw [if_pos hlast]
    omega
  · rw [if_neg hlast]
    omega

/-- The loop finds a free id, and counts one on in every round. -/
theorem nextIdLoop_some {fuel ctr generation : Nat} {r : Nat × Nat} (hctr : ctr < 2 ^ 32)
    (hgen : generation < 2 ^ 32) (h : nextIdLoop t fuel ctr generation = some r) :
    NewId t r.1 ∧ r.2 < 2 ^ 32 ∧ ∃ k, 0 < k ∧ k ≤ fuel ∧
      r.2 * 2 ^ 32 + r.1 = (generation * 2 ^ 32 + ctr + k) % 2 ^ 64 := by
  induction fuel generalizing ctr generation with
  | zero => cases h
  | succ fuel ih =>
      have hpos := pos_succ hctr hgen
      have hctr' : (ctr + 1) % 2 ^ 32 < 2 ^ 32 := Nat.mod_lt _ (by omega)
      have hgen' : (if (ctr + 1) % 2 ^ 32 = 0 then (generation + 1) % 2 ^ 32 else generation) <
          2 ^ 32 := by
        split
        · exact Nat.mod_lt _ (by omega)
        · exact hgen
      rw [nextIdLoop] at h
      split at h
      · obtain ⟨hnew, hlt, k, hk, hle, heq⟩ := ih hctr' hgen' h
        refine ⟨hnew, hlt, k + 1, by omega, by omega, ?_⟩
        rw [heq, hpos]
        omega
      · rename_i hfree
        cases h
        obtain ⟨hzero, hunknown, hsome⟩ := by simpa only [not_or] using hfree
        refine ⟨⟨Nat.pos_of_ne_zero hzero, ?_, ?_⟩, hgen', 1, by omega, by omega, hpos⟩
        · have hle : (ctr + 1) % 2 ^ 32 ≤ fuseUnknownIno := Nat.le_of_lt_succ hctr'
          exact lt_of_le_of_ne hle hunknown
        · simpa using hsome

/-- The loop goes on only if the ids it came by are in use. -/
theorem nextIdLoop_none {fuel ctr generation : Nat} (h : nextIdLoop t fuel ctr generation = none)
    {k : Nat} (hk : 0 < k) (hle : k ≤ fuel) : ¬ NewId t ((ctr + k) % 2 ^ 32) := by
  induction fuel generalizing ctr generation k with
  | zero => omega
  | succ fuel ih =>
      rw [nextIdLoop] at h
      split at h
      · rename_i hused
        intro hnew
        by_cases hone : k = 1
        · subst hone
          rcases hused with hzero | hunknown | hsome
          · exact absurd hzero (Nat.ne_of_gt hnew.pos)
          · exact absurd hunknown (Nat.ne_of_lt hnew.known)
          · rw [hnew.free] at hsome
            cases hsome
        · have hshift : ((ctr + 1) % 2 ^ 32 + (k - 1)) % 2 ^ 32 = (ctr + k) % 2 ^ 32 := by omega
          exact ih h (k := k - 1) (by omega) (by omega) (hshift ▸ hnew)
      · cases h

/-- The table when an id has been found. -/
structure Counted (t t' : Table) : Prop where
  nodes : t'.nodes = t.nodes
  nameTable : t'.nameTable = t.nameTable
  new : NewId t t'.ctr
  inRange : t'.InRange
  pos : ∃ k, 0 < k ∧ k ≤ 2 ^ 32 ∧ t'.pos = (t.pos + k) % 2 ^ 64

theorem nextId_cases (h : t.InRange) :
    (∃ t', nextId t = .ok t' ∧ Counted t t') ∨
      nextId t = .error .noIds ∧ ∀ i, ¬ NewId t i := by
  rw [nextId]
  cases hloop : nextIdLoop t (2 ^ 32) t.ctr t.generation with
  | some r =>
      obtain ⟨hnew, hlt, hcount⟩ := nextIdLoop_some h.2 h.1 hloop
      have hctr : r.1 < 2 ^ 32 := hnew.known.trans (by decide)
      exact .inl ⟨_, rfl, rfl, rfl, hnew, ⟨hlt, hctr⟩, hcount⟩
  | none =>
      refine .inr ⟨rfl, fun i hi => ?_⟩
      have hlt : i < 2 ^ 32 := hi.known.trans (by decide)
      have hctr := h.2
      obtain ⟨k, hk, hle, heq⟩ : ∃ k, 0 < k ∧ k ≤ 2 ^ 32 ∧ (t.ctr + k) % 2 ^ 32 = i := by
        by_cases hcase : t.ctr < i
        · exact ⟨i - t.ctr, by omega, by omega, by omega⟩
        · exact ⟨i + 2 ^ 32 - t.ctr, by omega, by omega, by omega⟩
      exact nextIdLoop_none hloop hk hle (heq ▸ hi)

theorem Counted.shaped {t' : Table} (hc : Counted t t') (h : Shaped t hold) :
    Shaped t' hold ∧ t'.at_ = t.at_ := by
  apply h.of_links t' hc.nameTable
  · intro j
    rw [hc.nodes]
  · rw [hc.nodes]
    exact h.refs

-- ============================================================================
-- find_node
-- ============================================================================

/-- A node is written without a change to its place and its references. -/
theorem Shaped.write (h : Shaped t hold) (hnode : t.nodes i = some node) (node' : Node)
    (hrefctr : node'.refctr = node.refctr) (hlinks : node'.links = node.links) :
    Did t (t.set i node') hold t.at_ ∧
      (t.set i node').status = Function.update t.status i (some node'.status) := by
  obtain ⟨hparent, hname⟩ := Prod.mk.inj hlinks
  refine ⟨⟨h.setStatus hnode hrefctr hlinks, Table.at_set_eq hnode ?_, rfl, rfl⟩, Table.status_set⟩
  rw [Node.place, Node.place, hparent, hname]

/-- A node is looked up once more. -/
def Status.lookedUp (st : Status) : Status := { st with nlookup := st.nlookup + 1 }

theorem Shaped.lookedUp (h : Shaped t hold) {st : Status} (hst : t.status i = some st) :
    ∃ t', lookedUp t i = .ok t' ∧ Did t t' hold t.at_ ∧
      t'.status = Function.update t.status i (some st.lookedUp) := by
  obtain ⟨node, hnode, rfl⟩ := exists_node_of_status hst
  obtain ⟨hdid, hstatus⟩ := h.write hnode { node with nlookup := node.nlookup + 1 } rfl rfl
  refine ⟨_, ?_, hdid, hstatus⟩
  rw [NodeTable.lookedUp, Table.deref_ok hnode]
  rfl

/-- The status of a new node that has been looked up once. -/
def newStatus (noforget : Bool) (generation : Nat) : Status :=
  ⟨generation, if noforget then 2 else 1, 0, false, 0, 0⟩

/-- What `find_node` can do when it is given a name. -/
inductive FindsNode (noforget : Bool) (t : Table) (hold : Nat → Nat) (parent : Nat)
    (name : FileName) : Except Stop (Option Nat × Table) → Prop
  | known {i : Nat} {st : Status} {t' : Table} (hat : t.at_ i = some (parent, name))
      (hst : t.status i = some st) (hdid : Did t t' hold t.at_)
      (hstatus : t'.status = Function.update t.status i (some st.lookedUp)) :
      FindsNode noforget t hold parent name (.ok (some i, t'))
  | noMem {t' : Table} (hshaped : Shaped t' hold) (hat : t'.at_ = t.at_)
      (hstatus : t'.status = t.status) (hcount : t' = t ∨ Counted t t') :
      FindsNode noforget t hold parent name (.ok (none, t'))
  | new {t₁ t' : Table} (hfree : ∀ i, t.at_ i ≠ some (parent, name)) (hcount : Counted t t₁)
      (hdid : Did t₁ t' (Function.update hold t₁.ctr 1) (t.at_.attach t₁.ctr parent name))
      (hstatus : t'.status =
        Function.update t.status t₁.ctr (some (newStatus noforget t₁.generation))) :
      FindsNode noforget t hold parent name (.ok (some t₁.ctr, t'))
  | noIds (hfull : ∀ i, ¬ NewId t i) : FindsNode noforget t hold parent name (.error .noIds)

theorem Shaped.findNode (h : Shaped t hold) (hrange : t.InRange) (noforget : Bool) (mem : NodeMem)
    {parent : Nat} (hparent : (t.nodes parent).isSome) (name : FileName) :
    FindsNode noforget t hold parent name (findNode noforget mem t parent (some name)) := by
  rcases h.lookup parent name with ⟨i, hlook, hat⟩ | ⟨hlook, hfree⟩
  · obtain ⟨node, hnode, -⟩ := Table.nodes_of_at hat
    have hst := Table.status_of_nodes hnode
    obtain ⟨t', hrun, hdid, hstatus⟩ := h.lookedUp hst
    simp only [NodeTable.findNode, hlook, ok_bind, hrun]
    exact .known hat hst hdid hstatus
  simp only [NodeTable.findNode, hlook, ok_bind]
  by_cases hmem : mem.calloc
  case neg =>
      rw [if_neg hmem]
      exact .noMem h rfl rfl (.inl rfl)
  case pos =>
  rw [if_pos hmem]
  rcases nextId_cases hrange with ⟨t₁, hnext, hcount⟩ | ⟨hnext, hfull⟩
  case inr =>
      rw [hnext]
      exact .noIds hfull
  rw [hnext, ok_bind]
  obtain ⟨hshaped₁, hat₁⟩ := hcount.shaped h
  have hstatus₁ : t₁.status = t.status := by
    funext j
    rw [Table.status, Table.status, hcount.nodes]
  obtain ⟨pnode, hpnode⟩ := Option.isSome_iff_exists.mp hparent
  have hpnode₁ : t₁.nodes parent = some pnode := (congrFun hcount.nodes parent).trans hpnode
  have hi : t₁.nodes t₁.ctr = none := (congrFun hcount.nodes _).trans hcount.new.free
  have hne : parent ≠ t₁.ctr := by
    rintro heq
    rw [heq, hi] at hpnode₁
    cases hpnode₁
  have hroot : t₁.ctr ≠ fuseRootId := by
    obtain ⟨r, hr, -⟩ := hshaped₁.root
    intro heq
    rw [heq, hr] at hi
    cases hi
  let node : Node := ⟨t₁.generation, 1, none, none, if noforget then 1 else 0, 0, false, 0, 0⟩
  obtain ⟨hshaped₂, hat₂⟩ := hshaped₁.insert node hi
    ⟨hcount.new.pos, hcount.new.known.trans (by decide)⟩ rfl rfl
  have hnone : (t₁.set t₁.ctr node).at_ t₁.ctr = none := by
    rw [hat₂, Table.at_, hi]
    rfl
  have hparent₂ : ((t₁.set t₁.ctr node).nodes parent).isSome := by
    rw [Table.nodes_set_of_ne hne, hpnode₁]
    rfl
  rw [getNode_ok hpnode₁, ok_bind]
  show FindsNode _ _ _ _ _ (hashName (t₁.set t₁.ctr node) t₁.ctr parent name mem.strdup >>= _)
  cases hdup : mem.strdup with
  | false =>
      rw [hshaped₂.hash_none Table.nodes_set_self hroot hnone hparent₂, ok_bind]
      exact .noMem hshaped₁ hat₁ hstatus₁ (.inr hcount)
  | true =>
      have hfree₂ : ∀ j, (t₁.set t₁.ctr node).at_ j ≠ some (parent, name) := by
        rw [hat₂, hat₁]
        exact hfree
      have hbelow : ¬ Forest.Below (t₁.set t₁.ctr node).at_ t₁.ctr parent := by
        -- nothing hangs from a node that is not there
        have hno : ∀ {j labels}, Forest.Leads t.at_ t₁.ctr j labels → j = t₁.ctr := by
          intro j labels hj
          induction hj with
          | refl => rfl
          | step hstep _ ih =>
              subst ih
              have hsome := h.parent hstep
              rw [hcount.new.free] at hsome
              cases hsome
        rw [hat₂, hat₁]
        rintro ⟨labels, hleads⟩
        exact hne (hno hleads)
      obtain ⟨t₃, hhash, hdid₃, hstatus₃⟩ :=
        hshaped₂.hash Table.nodes_set_self hroot hnone hparent₂ hfree₂ hbelow
      have hst₃ : t₃.status t₁.ctr = some node.status := by
        rw [hstatus₃]
        exact Table.status_of_nodes Table.nodes_set_self
      obtain ⟨t', hlooked, hdid', hstatus'⟩ := hdid₃.shaped.lookedUp hst₃
      have hnew : node.status.lookedUp = newStatus noforget t₁.generation := by
        cases noforget <;> rfl
      rw [hhash, ok_bind]
      simp only [if_true, hlooked, ok_bind]
      refine .new hfree hcount ⟨hdid'.shaped, ?_, hdid'.ctr.trans hdid₃.ctr,
        hdid'.generation.trans hdid₃.generation⟩ ?_
      · rw [hdid'.at_, hdid₃.at_, hat₂, hat₁]
      · rw [hstatus', hstatus₃, Table.status_set, Function.update_idem, hnew, hstatus₁]

/-- Without a name, the node itself is looked up. -/
theorem Shaped.findSelf (h : Shaped t hold) (noforget : Bool) (mem : NodeMem) {st : Status}
    (hst : t.status i = some st) :
    ∃ t', NodeTable.findNode noforget mem t i none = .ok (some i, t') ∧ Did t t' hold t.at_ ∧
      t'.status = Function.update t.status i (some st.lookedUp) := by
  obtain ⟨node, hnode, -⟩ := exists_node_of_status hst
  obtain ⟨t', hrun, hdid⟩ := h.lookedUp hst
  refine ⟨t', ?_, hdid⟩
  simp only [NodeTable.findNode, getNode_ok hnode, ok_bind, hrun]
  rfl

-- ============================================================================
-- forget_node
-- ============================================================================

/-- A node is idle after a change that left its place and its lock. -/
theorem Idle.mono {t' : Table} {hold' : Nat → Nat} (h : Idle t hold i) (hhold : hold' i = hold i)
    (hat : t.at_ i = none → t'.at_ i = none)
    (hst : ∀ st', t'.status i = some st' → ∃ st, t.status i = some st ∧ st.treelock = st'.treelock) :
    Idle t' hold' i := by
  intro hzero
  obtain ⟨hroot, hnone, hlock⟩ := h (hhold ▸ hzero)
  refine ⟨hroot, hat hnone, fun st' hst' => ?_⟩
  obtain ⟨st, hold_, heq⟩ := hst st' hst'
  exact heq ▸ hlock st hold_

/-- Some lookups are forgotten, but not all. -/
theorem Shaped.forget_some (h : Shaped t hold) (hi : i ≠ fuseRootId) {st : Status} {n : Nat}
    (hst : t.status i = some st) (hn : n < st.nlookup) :
    ∃ t', forgetNode t i n = .ok t' ∧ Did t t' hold t.at_ ∧
      t'.status = Function.update t.status i (some { st with nlookup := st.nlookup - n }) := by
  obtain ⟨node, hnode, rfl⟩ := exists_node_of_status hst
  have hlt : n < node.nlookup := hn
  obtain ⟨hdid, hstatus⟩ :=
    h.write hnode { node with nlookup := node.nlookup - n } rfl rfl
  refine ⟨_, ?_, hdid, hstatus⟩
  rw [forgetNode, if_neg hi, getNode_ok hnode, ok_bind, if_neg (by omega), if_neg (by omega)]
  rfl

/-- The last lookups are forgotten: the node loses its place, and the reference
    that the lookups were. -/
theorem Shaped.forget_last (h : Shaped t (bump hold i)) (hi : i ≠ fuseRootId) {st : Status}
    (hst : t.status i = some st) (hlock : st.treelock = 0)
    (hparent : ∀ p name, t.at_ i = some (p, name) → Idle t hold p) :
    ∃ t', forgetNode t i st.nlookup = .ok t' ∧ Did t t' hold (t.at_.detach i) ∧
      Spared hold (Function.update t.status i (some { st with nlookup := 0 })) t'.status := by
  obtain ⟨node, hnode, rfl⟩ := exists_node_of_status hst
  let node' : Node := { node with nlookup := node.nlookup - node.nlookup }
  obtain ⟨hdid₁, hstatus₁⟩ := h.write hnode node' rfl rfl
  have hzero : node'.status = { node.status with nlookup := 0 } := by
    show Status.mk _ (node.nlookup - node.nlookup) _ _ _ _ = _
    rw [Nat.sub_self]
    rfl
  rw [hzero] at hstatus₁
  -- first the place
  have hunhash : ∃ t₂, unhashName (t.set i node') i = .ok t₂ ∧
      Did t t₂ (bump hold i) (t.at_.detach i) ∧ Spared (bump hold i) (t.set i node').status t₂.status := by
    cases hat : t.at_ i with
    | none =>
        refine ⟨_, hdid₁.shaped.unhash_none Table.nodes_set_self hi (hdid₁.at_ ▸ hat), ?_, .of_eq _ rfl⟩
        rw [Forest.detach_of_none hat]
        exact hdid₁
    | some x =>
        obtain ⟨p, name⟩ := x
        have hpi : p ≠ i := (h.ne_parent hat).symm
        have hidle : Idle (t.set i node') (bump hold i) p := by
          apply (hparent p name hat).mono (bump_of_ne hpi)
          · rw [hdid₁.at_]
            exact id
          · intro st' hst'
            rw [hstatus₁, Function.update_of_ne hpi] at hst'
            exact ⟨st', hst', rfl⟩
        obtain ⟨t₂, hrun, hdid₂, hspared⟩ := hdid₁.shaped.unhash (hdid₁.at_ ▸ hat) hidle
        refine ⟨t₂, hrun, ⟨hdid₂.shaped, ?_, hdid₂.ctr, hdid₂.generation⟩, hspared⟩
        rw [hdid₂.at_, hdid₁.at_]
  obtain ⟨t₂, hrun₂, hdid₂, hspared₂⟩ := hunhash
  -- then the reference
  have hst₂ : t₂.status i = some { node.status with nlookup := 0 } := by
    rw [hspared₂.held (by rw [bump_self]; omega), hstatus₁, Function.update_self]
  obtain ⟨node₂, hnode₂, -⟩ := exists_node_of_status hst₂
  have hidle₂ : Idle t₂ hold i := by
    intro _
    refine ⟨hi, by rw [hdid₂.at_, Forest.detach_self], fun st' hst' => ?_⟩
    rw [hst₂] at hst'
    cases hst'
    exact hlock
  obtain ⟨t', hrun, hdid, hspared⟩ := hdid₂.shaped.unref hnode₂ hidle₂
  refine ⟨t', ?_, ⟨hdid.shaped, hdid.at_.trans hdid₂.at_, hdid.ctr.trans hdid₂.ctr,
    hdid.generation.trans hdid₂.generation⟩, ?_⟩
  · have hle : ¬ node.nlookup < node.status.nlookup := lt_irrefl _
    have hlast : node.nlookup - node.status.nlookup = 0 := Nat.sub_self _
    rw [forgetNode, if_neg hi, getNode_ok hnode, ok_bind, if_neg hle, if_pos hlast]
    show (unhashName (t.set i node') i >>= _) = _
    rw [hrun₂, ok_bind, hrun]
  · rw [← hstatus₁]
    intro j
    rcases hspared j with heq | hgone
    · rw [heq]
      by_cases hj : j = i
      · subst hj
        exact .inl (hspared₂.held (by rw [bump_self]; omega))
      · rcases hspared₂ j with heq₂ | ⟨hzero, hgone₂⟩
        · exact .inl heq₂
        · exact .inr ⟨(bump_of_ne hj).symm.trans hzero, hgone₂⟩
    · exact .inr hgone

-- ============================================================================
-- unlink_node, remove_node and rename_node
-- ============================================================================

/-- The status of a node that has been unlinked. -/
def Status.unlinked (noforget : Bool) (st : Status) : Status :=
  if noforget then { st with nlookup := st.nlookup - 1 } else st

/-- A node is unlinked.  Without `forget`, it must have been looked up. -/
theorem Shaped.unlink (h : Shaped t hold) (hat : t.at_ i = some (p, name)) {noforget : Bool}
    {st : Status} (hst : t.status i = some st) (hlooked : noforget → 1 < st.nlookup)
    (hidle : Idle t hold p) :
    ∃ t', unlinkNode noforget t i = .ok t' ∧ Did t t' hold (t.at_.detach i) ∧
      Spared hold (Function.update t.status i (some (st.unlinked noforget))) t'.status := by
  cases noforget with
  | false =>
      obtain ⟨t', hrun, hdid, hspared⟩ := h.unhash hat hidle
      refine ⟨t', hrun, hdid, ?_⟩
      show Spared hold (Function.update t.status i (some st)) t'.status
      rwa [← hst, Function.update_eq_self]
  | true =>
      obtain ⟨node, hnode, rfl⟩ := exists_node_of_status hst
      have hlt : 1 < node.nlookup := hlooked rfl
      obtain ⟨hdid₁, hstatus₁⟩ :=
        h.write hnode { node with nlookup := node.nlookup - 1 } rfl rfl
      have hpi : p ≠ i := (h.ne_parent hat).symm
      have hidle₁ : Idle (t.set i { node with nlookup := node.nlookup - 1 }) hold p := by
        apply hidle.mono rfl
        · rw [hdid₁.at_]
          exact id
        · intro st' hst'
          rw [hstatus₁, Function.update_of_ne hpi] at hst'
          exact ⟨st', hst', rfl⟩
      obtain ⟨t', hrun, hdid, hspared⟩ := hdid₁.shaped.unhash (hdid₁.at_ ▸ hat) hidle₁
      refine ⟨t', ?_, ⟨hdid.shaped, ?_, hdid.ctr, hdid.generation⟩, hstatus₁ ▸ hspared⟩
      · rw [unlinkNode, if_pos rfl, Table.deref_ok hnode, ok_bind, if_neg (not_le.mpr hlt), hrun]
      · rw [hdid.at_, hdid₁.at_]

theorem Shaped.remove (h : Shaped t hold) (hat : t.at_ i = some (p, name)) {noforget : Bool}
    {st : Status} (hst : t.status i = some st) (hlooked : noforget → 1 < st.nlookup)
    (hidle : Idle t hold p) :
    ∃ t', removeNode noforget t p name = .ok t' ∧ Did t t' hold (t.at_.detach i) ∧
      Spared hold (Function.update t.status i (some (st.unlinked noforget))) t'.status := by
  obtain ⟨t', hrun, hdid⟩ := h.unlink hat hst hlooked hidle
  refine ⟨t', ?_, hdid⟩
  rw [removeNode, h.lookup_found hat, ok_bind]
  exact hrun

/-- The flag of a hidden file. -/
def Status.hidden (hide : Bool) (st : Status) : Status :=
  if hide then { st with isHidden := true } else st

/-- A node goes from its place to one that is free. -/
theorem Shaped.move (h : Shaped t hold) (hat : t.at_ i = some (p, name)) {st : Status}
    (hst : t.status i = some st) (hheld : hold i ≠ 0) (hidle : Idle t hold p) {newdir : Nat}
    {newname : FileName} (hfree : ∀ j, t.at_ j ≠ some (newdir, newname)) (hnewdir : hold newdir ≠ 0)
    (hlive : (t.nodes newdir).isSome) (hbelow : ¬ Forest.Below t.at_ i newdir) (strdup hide : Bool) :
    ∃ t', moveNode strdup t i newdir newname hide = .ok (if strdup then 0 else -eNoMem, t') ∧
      Did t t' hold (if strdup then t.at_.attach i newdir newname else t.at_.detach i) ∧
      Spared hold (Function.update t.status i (some (st.hidden (strdup && hide)))) t'.status := by
  obtain ⟨t₁, hunhash, hdid₁, hspared₁⟩ := h.unhash hat hidle
  have hi := h.ne_root hat
  have hst₁ : t₁.status i = some st := (hspared₁.held hheld).trans hst
  obtain ⟨node, hnode, rfl⟩ := exists_node_of_status hst₁
  have hnone : t₁.at_ i = none := by rw [hdid₁.at_, Forest.detach_self]
  have hlive₁ : (t₁.nodes newdir).isSome := by
    rw [← Table.status_isSome, hspared₁.held hnewdir, Table.status_isSome]
    exact hlive
  rw [moveNode, hunhash, ok_bind]
  cases strdup with
  | false =>
      rw [hdid₁.shaped.hash_none hnode hi hnone hlive₁, ok_bind]
      refine ⟨t₁, rfl, hdid₁, ?_⟩
      show Spared hold (Function.update t.status i (some node.status)) t₁.status
      rwa [← hst, Function.update_eq_self]
  | true =>
      have hfree₁ : ∀ j, t₁.at_ j ≠ some (newdir, newname) := by
        intro j
        rw [hdid₁.at_]
        by_cases hj : j = i
        · rw [hj, Forest.detach_self]
          exact (Option.some_ne_none _).symm
        · rw [Forest.detach_of_ne hj]
          exact hfree j
      have hbelow₁ : ¬ Forest.Below t₁.at_ i newdir := by
        rw [hdid₁.at_]
        exact fun hb => hbelow hb.of_detach
      obtain ⟨t₂, hhash, hdid₂, hstatus₂⟩ :=
        hdid₁.shaped.hash hnode hi hnone hlive₁ hfree₁ hbelow₁
      have hforest : t₂.at_ = t.at_.attach i newdir newname := by
        rw [hdid₂.at_, hdid₁.at_, Forest.attach_detach]
      rw [hhash, ok_bind]
      cases hide with
      | false =>
          refine ⟨t₂, rfl, ⟨hdid₂.shaped, hforest, hdid₂.ctr.trans hdid₁.ctr,
            hdid₂.generation.trans hdid₁.generation⟩, ?_⟩
          show Spared hold (Function.update t.status i (some node.status)) t₂.status
          rw [← hst, Function.update_eq_self, hstatus₂]
          exact hspared₁
      | true =>
          have hst₂ : t₂.status i = some node.status := by rw [hstatus₂, hst₁]
          obtain ⟨node₂, hnode₂, heq⟩ := exists_node_of_status hst₂
          obtain ⟨hdid₃, hstatus₃⟩ :=
            hdid₂.shaped.write hnode₂ { node₂ with isHidden := true } rfl rfl
          refine ⟨_, ?_, ⟨hdid₃.shaped, hdid₃.at_.trans hforest, hdid₂.ctr.trans hdid₁.ctr,
            hdid₂.generation.trans hdid₁.generation⟩, ?_⟩
          · show (t₂.deref i >>= _) = _
            rw [Table.deref_ok hnode₂]
            rfl
          · have hhidden : ({ node₂ with isHidden := true } : Node).status =
                node.status.hidden (true && true) := by
              rw [← heq]
              rfl
            rw [hstatus₃, hhidden, hstatus₂]
            intro j
            by_cases hj : j = i
            · subst hj
              rw [Function.update_self, Function.update_self]
              exact .inl rfl
            · rw [Function.update_of_ne hj, Function.update_of_ne hj]
              exact hspared₁ j

end Specs

end FuseNt.NodeTable
