/-
  FuseNt.Module.NodeShape

  The nodes as a forest.  `Shaped` says that the name table has the nodes that
  have a name, and nothing else, and that every node is referred to as often as
  its count says: by its children, and `hold` times from elsewhere.

  Each change to the table is a step that takes a shaped table to a shaped one,
  and moves a reference between `hold` and the children.  The functions of the
  table are sequences of such steps, and what they do is said of the forest and
  of the status of the nodes alone.
-/

import FuseNt.Module.NodeTable

namespace FuseNt.NodeTable

open FuseNt.Lib

-- ============================================================================
-- Two views of the table
-- ============================================================================

/-- Where the node is. -/
def Node.place (node : Node) : Option (Nat × FileName) :=
  match node.parent, node.name with
  | some p, some name => some (p, name)
  | _, _ => none

/-- What the forest does not tell of a node. -/
structure Status where
  generation : Nat
  nlookup : Nat
  openCount : Int
  isHidden : Bool
  treelock : Int
  ticket : Int
deriving DecidableEq

def Node.status (node : Node) : Status :=
  ⟨node.generation, node.nlookup, node.openCount, node.isHidden, node.treelock, node.ticket⟩

namespace Table

/-- The nodes, with their place below another one. -/
def at_ (t : Table) : Forest Nat FileName := fun i => (t.nodes i).bind Node.place

/-- The nodes, with their status. -/
def status (t : Table) (i : Nat) : Option Status := (t.nodes i).map Node.status

/-- A node without its memory. -/
def delete (t : Table) (i : Nat) : Table := { t with nodes := Function.update t.nodes i none }

section Views

variable {t : Table} {i j : Nat} {node : Node}

@[simp] theorem nodes_set_self : (t.set i node).nodes i = some node := Function.update_self ..

theorem nodes_set_of_ne (h : j ≠ i) : (t.set i node).nodes j = t.nodes j :=
  Function.update_of_ne h ..

theorem nodes_set_cases {node' : Node} (h : (t.set i node).nodes j = some node') :
    (j = i ∧ node' = node) ∨ (j ≠ i ∧ t.nodes j = some node') := by
  by_cases hj : j = i
  · subst hj
    rw [nodes_set_self] at h
    cases h
    exact .inl ⟨rfl, rfl⟩
  · rw [nodes_set_of_ne hj] at h
    exact .inr ⟨hj, h⟩

/-- Writing to a node makes no node and frees none. -/
theorem isSome_set (h : t.nodes i = some node) (node' : Node) (j : Nat) :
    ((t.set i node').nodes j).isSome = (t.nodes j).isSome := by
  by_cases hj : j = i
  · subst hj
    rw [nodes_set_self, h]
    rfl
  · rw [nodes_set_of_ne hj]

@[simp] theorem nodes_delete_self : (t.delete i).nodes i = none := Function.update_self ..

theorem nodes_delete_of_ne (h : j ≠ i) : (t.delete i).nodes j = t.nodes j :=
  Function.update_of_ne h ..

@[simp] theorem nameTable_set : (t.set i node).nameTable = t.nameTable := rfl

@[simp] theorem nameTable_delete : (t.delete i).nameTable = t.nameTable := rfl

theorem at_of_nodes (h : t.nodes i = some node) : t.at_ i = node.place := by
  rw [at_, h, Option.bind_some]

theorem status_of_nodes (h : t.nodes i = some node) : t.status i = some node.status := by
  rw [status, h, Option.map_some]

theorem at_set : (t.set i node).at_ = Function.update t.at_ i node.place := by
  funext j
  by_cases hj : j = i
  · subst hj
    rw [Function.update_self, at_of_nodes nodes_set_self]
  · rw [Function.update_of_ne hj, at_, nodes_set_of_ne hj]
    rfl

theorem status_set : (t.set i node).status = Function.update t.status i (some node.status) := by
  funext j
  by_cases hj : j = i
  · subst hj
    rw [Function.update_self, status_of_nodes nodes_set_self]
  · rw [Function.update_of_ne hj, status, nodes_set_of_ne hj]
    rfl

theorem at_delete : (t.delete i).at_ = t.at_.detach i := by
  funext j
  by_cases hj : j = i
  · subst hj
    rw [Forest.detach_self, at_, nodes_delete_self]
    rfl
  · rw [Forest.detach_of_ne hj, at_, nodes_delete_of_ne hj]
    rfl

theorem status_delete : (t.delete i).status = Function.update t.status i none := by
  funext j
  by_cases hj : j = i
  · subst hj
    rw [Function.update_self, status, nodes_delete_self]
    rfl
  · rw [Function.update_of_ne hj, status, nodes_delete_of_ne hj]
    rfl

/-- A node that keeps its place. -/
theorem at_set_eq (h : t.nodes i = some node) {node' : Node} (hplace : node'.place = node.place) :
    (t.set i node').at_ = t.at_ := by
  rw [at_set, hplace, ← at_of_nodes h, Function.update_eq_self]

/-- A node that keeps its status. -/
theorem status_set_eq (h : t.nodes i = some node) {node' : Node}
    (hstatus : node'.status = node.status) : (t.set i node').status = t.status := by
  rw [status_set, hstatus, ← status_of_nodes h, Function.update_eq_self]

theorem deref_ok (h : t.nodes i = some node) : t.deref i = .ok node := by
  rw [deref, h]

theorem status_isSome : (t.status i).isSome = (t.nodes i).isSome := Option.isSome_map ..

end Views

end Table

theorem Node.place_eq_some {node : Node} {p : Nat} {name : FileName} :
    node.place = some (p, name) ↔ node.parent = some p ∧ node.name = some name := by
  obtain ⟨generation, refctr, parent, name', nlookup, openCount, isHidden, treelock, ticket⟩ := node
  cases parent <;> cases name' <;> simp [Node.place]

-- ============================================================================
-- Shaped tables
-- ============================================================================

/-- The table is in order, if `hold` counts the references that are not from a
    child. -/
structure Shaped (t : Table) (hold : Nat → Nat) : Prop where
  root : ∃ node, t.nodes fuseRootId = some node ∧ node.parent = none
  linked : ∀ {i node}, i ≠ fuseRootId → t.nodes i = some node → node.parent.isSome = node.name.isSome
  parent : ∀ {i p name}, t.at_ i = some (p, name) → (t.nodes p).isSome
  hashed : ∀ {hash i}, i ∈ t.nameTable hash ↔ ∃ p name, t.at_ i = some (p, name) ∧ hash = nameHash p name
  nodup : ∀ hash, (t.nameTable hash).Nodup
  unique : ∀ {i j x}, t.at_ i = some x → t.at_ j = some x → i = j
  acyclic : t.at_.Acyclic
  finite : {i | (t.nodes i).isSome}.Finite
  range : ∀ {i}, (t.nodes i).isSome → 0 < i ∧ i < 2 ^ 32
  refs : ∀ {i node}, t.nodes i = some node →
    node.refctr = hold i + (Forest.children t.at_ i).ncard ∧ 0 < node.refctr

/-- One more reference. -/
def bump (hold : Nat → Nat) (i : Nat) : Nat → Nat := Function.update hold i (hold i + 1)

@[simp] theorem bump_self (hold : Nat → Nat) (i : Nat) : bump hold i i = hold i + 1 :=
  Function.update_self ..

theorem bump_of_ne {hold : Nat → Nat} {i j : Nat} (h : j ≠ i) : bump hold i j = hold j :=
  Function.update_of_ne h ..

section Shape

variable {t : Table} {hold : Nat → Nat} {i p : Nat} {name : FileName} {node : Node}

theorem Shaped.at_root (h : Shaped t hold) : t.at_ fuseRootId = none := by
  obtain ⟨node, hnode, hparent⟩ := h.root
  rw [Table.at_of_nodes hnode, Node.place, hparent]

theorem Shaped.ne_root (h : Shaped t hold) (hat : t.at_ i = some (p, name)) : i ≠ fuseRootId := by
  rintro rfl
  rw [h.at_root] at hat
  cases hat

/-- A node with a place is there. -/
theorem Table.nodes_of_at {x : Nat × FileName} (hat : t.at_ i = some x) :
    ∃ node, t.nodes i = some node ∧ node.place = some x :=
  Option.bind_eq_some_iff.mp hat

theorem Shaped.children_finite (h : Shaped t hold) (i : Nat) : (Forest.children t.at_ i).Finite := by
  apply h.finite.subset
  rintro c ⟨name, hc⟩
  obtain ⟨node, hnode, -⟩ := Table.nodes_of_at hc
  show (t.nodes c).isSome
  rw [hnode]
  rfl

/-- A node without a place has neither a parent nor a name, but for the root. -/
theorem Shaped.nameless (h : Shaped t hold) (hnode : t.nodes i = some node) (hi : i ≠ fuseRootId)
    (hat : t.at_ i = none) : node.parent = none ∧ node.name = none := by
  have hlinked := h.linked hi hnode
  rw [Table.at_of_nodes hnode] at hat
  cases hparent : node.parent with
  | none =>
      rw [hparent] at hlinked
      exact ⟨rfl, Option.isSome_eq_false_iff.mp hlinked.symm |> Option.isNone_iff_eq_none.mp⟩
  | some p =>
      cases hname : node.name with
      | none =>
          rw [hparent, hname] at hlinked
          cases hlinked
      | some name =>
          rw [Node.place, hparent, hname] at hat
          cases hat

/-- A node is not its own parent. -/
theorem Shaped.ne_parent (h : Shaped t hold) (hat : t.at_ i = some (p, name)) : i ≠ p := by
  rintro rfl
  exact (h.acyclic i).not_below hat (.refl _ _)

-- ============================================================================
-- The steps
-- ============================================================================

/-- The parent and the name. -/
def Node.links (node : Node) : Option Nat × Option FileName := (node.parent, node.name)

/-- Nodes that keep their parents and names, and are referred to as often as
    they say. -/
theorem Shaped.of_links (h : Shaped t hold) (t' : Table) {hold' : Nat → Nat}
    (htable : t'.nameTable = t.nameTable)
    (hlinks : ∀ j, (t'.nodes j).map Node.links = (t.nodes j).map Node.links)
    (hrefs : ∀ {j n}, t'.nodes j = some n →
      n.refctr = hold' j + (Forest.children t.at_ j).ncard ∧ 0 < n.refctr) :
    Shaped t' hold' ∧ t'.at_ = t.at_ := by
  have hsome : ∀ j, (t'.nodes j).isSome = (t.nodes j).isSome := by
    intro j
    have hj := congrArg Option.isSome (hlinks j)
    rwa [Option.isSome_map, Option.isSome_map] at hj
  have hlink : ∀ {j n'}, t'.nodes j = some n' → ∃ n, t.nodes j = some n ∧ n.links = n'.links := by
    intro j n' hn'
    have hj := hlinks j
    rw [hn'] at hj
    exact Option.map_eq_some_iff.mp hj.symm
  have hat : t'.at_ = t.at_ := by
    funext j
    cases hn' : t'.nodes j with
    | none =>
        have hj := hsome j
        rw [hn'] at hj
        rw [Table.at_, Table.at_, hn', Option.isSome_eq_false_iff.mp hj.symm |>
          Option.isNone_iff_eq_none.mp]
    | some n' =>
        obtain ⟨n, hn, heq⟩ := hlink hn'
        obtain ⟨hparent, hname⟩ := Prod.mk.inj heq
        rw [Table.at_of_nodes hn', Table.at_of_nodes hn, Node.place, Node.place, hparent, hname]
  refine ⟨?_, hat⟩
  constructor
  · obtain ⟨n, hn, hparent⟩ := h.root
    have hr : (t'.nodes fuseRootId).isSome := by
      rw [hsome, hn]
      rfl
    obtain ⟨n', hn'⟩ := Option.isSome_iff_exists.mp hr
    obtain ⟨n₁, hn₁, heq⟩ := hlink hn'
    rw [hn] at hn₁
    cases hn₁
    exact ⟨n', hn', (Prod.mk.inj heq).1.symm.trans hparent⟩
  · intro j n' hj hn'
    obtain ⟨n, hn, heq⟩ := hlink hn'
    obtain ⟨hparent, hname⟩ := Prod.mk.inj heq
    rw [← hparent, ← hname]
    exact h.linked hj hn
  · intro j p name hj
    rw [hat] at hj
    rw [hsome]
    exact h.parent hj
  · rw [hat, htable]
    exact h.hashed
  · rw [htable]
    exact h.nodup
  · rw [hat]
    exact h.unique
  · rw [hat]
    exact h.acyclic
  · simp only [hsome]
    exact h.finite
  · intro j hj
    rw [hsome] at hj
    exact h.range hj
  · rw [hat]
    exact hrefs

/-- A node that keeps its parent and its name. -/
theorem links_set (hnode : t.nodes i = some node) {node' : Node} (hlinks : node'.links = node.links)
    (j : Nat) : ((t.set i node').nodes j).map Node.links = (t.nodes j).map Node.links := by
  by_cases hj : j = i
  · subst hj
    rw [Table.nodes_set_self, hnode, Option.map_some, Option.map_some, hlinks]
  · rw [Table.nodes_set_of_ne hj]

/-- A change of the status. -/
theorem Shaped.setStatus (h : Shaped t hold) (hnode : t.nodes i = some node) {node' : Node}
    (hrefctr : node'.refctr = node.refctr) (hlinks : node'.links = node.links) :
    Shaped (t.set i node') hold := by
  refine (h.of_links (t.set i node') rfl (links_set hnode hlinks) ?_).1
  intro j n hn
  rcases Table.nodes_set_cases hn with ⟨rfl, rfl⟩ | ⟨-, hn⟩
  · rw [hrefctr]
    exact h.refs hnode
  · exact h.refs hn

/-- A reference is counted. -/
theorem Shaped.setRefctr (h : Shaped t hold) (hnode : t.nodes i = some node) {hold' : Nat → Nat}
    (hothers : ∀ j, j ≠ i → hold' j = hold j) {refctr : Int} (hpos : 0 < refctr)
    (hrefs : refctr = hold' i + (Forest.children t.at_ i).ncard) :
    Shaped (t.set i { node with refctr := refctr }) hold' := by
  refine (h.of_links (t.set i { node with refctr := refctr }) rfl (links_set hnode rfl) ?_).1
  intro j n hn
  rcases Table.nodes_set_cases hn with ⟨rfl, rfl⟩ | ⟨hj, hn⟩
  · exact ⟨hrefs, hpos⟩
  · rw [hothers j hj]
    exact h.refs hn

/-- A node that nothing refers to and that has no name is freed. -/
theorem Shaped.delete (h : Shaped t (bump hold i)) (hi : i ≠ fuseRootId) (hat : t.at_ i = none)
    (hold0 : hold i = 0) (hchildren : Forest.children t.at_ i = ∅) : Shaped (t.delete i) hold := by
  have hat' : (t.delete i).at_ = t.at_ := by
    rw [Table.at_delete]
    exact Forest.detach_of_none hat
  have hlive : ∀ {j}, ((t.delete i).nodes j).isSome → j ≠ i ∧ (t.nodes j).isSome := by
    intro j hj
    have hji : j ≠ i := by
      rintro rfl
      rw [Table.nodes_delete_self] at hj
      cases hj
    rw [Table.nodes_delete_of_ne hji] at hj
    exact ⟨hji, hj⟩
  have hkeep : ∀ {j n}, (t.delete i).nodes j = some n → j ≠ i ∧ t.nodes j = some n := by
    intro j n hn
    obtain ⟨hji, -⟩ := hlive (Option.isSome_of_mem hn)
    exact ⟨hji, (Table.nodes_delete_of_ne hji).symm.trans hn⟩
  constructor
  · obtain ⟨n, hn, hparent⟩ := h.root
    exact ⟨n, (Table.nodes_delete_of_ne hi.symm).trans hn, hparent⟩
  · intro j n hj hn
    exact h.linked hj (hkeep hn).2
  · rw [hat']
    intro j p name hj
    have hpi : p ≠ i := by
      rintro rfl
      have hmem : j ∈ Forest.children t.at_ p := ⟨name, hj⟩
      rw [hchildren] at hmem
      exact hmem
    rw [Table.nodes_delete_of_ne hpi]
    exact h.parent hj
  · rw [hat']
    exact h.hashed
  · exact h.nodup
  · rw [hat']
    exact h.unique
  · rw [hat']
    exact h.acyclic
  · exact h.finite.subset fun j hj => (hlive hj).2
  · intro j hj
    exact h.range (hlive hj).2
  · intro j n hn
    obtain ⟨hji, hn⟩ := hkeep hn
    rw [hat', ← (bump_of_ne hji : bump hold i j = hold j)]
    exact h.refs hn

/-- A new node, which does not have a place yet. -/
theorem Shaped.insert (h : Shaped t hold) (node : Node) (hnode : t.nodes i = none) (hi : 0 < i ∧ i < 2 ^ 32)
    (hrefctr : node.refctr = 1) (hlinks : node.links = (none, none)) :
    Shaped (t.set i node) (Function.update hold i 1) ∧ (t.set i node).at_ = t.at_ := by
  obtain ⟨hparent, hname⟩ := Prod.mk.inj hlinks
  have hnone : t.at_ i = none := by
    rw [Table.at_, hnode]
    rfl
  have hat : (t.set i node).at_ = t.at_ := by
    rw [Table.at_set, Node.place, hparent, ← hnone, Function.update_eq_self]
  have hsome : ∀ {j}, (t.nodes j).isSome → j ≠ i ∧ ((t.set i node).nodes j).isSome := by
    intro j hj
    have hji : j ≠ i := by
      rintro rfl
      rw [hnode] at hj
      cases hj
    rw [Table.nodes_set_of_ne hji]
    exact ⟨hji, hj⟩
  refine ⟨?_, hat⟩
  constructor
  · obtain ⟨n, hn, hroot⟩ := h.root
    have hri := (hsome (Option.isSome_of_mem hn)).1
    exact ⟨n, (Table.nodes_set_of_ne hri).trans hn, hroot⟩
  · intro j n hj hn
    rcases Table.nodes_set_cases hn with ⟨-, rfl⟩ | ⟨-, hn⟩
    · rw [hparent, hname]
      rfl
    · exact h.linked hj hn
  · rw [hat]
    intro j p name hj
    exact (hsome (h.parent hj)).2
  · rw [hat]
    exact h.hashed
  · exact h.nodup
  · rw [hat]
    exact h.unique
  · rw [hat]
    exact h.acyclic
  · apply (h.finite.insert i).subset
    intro j hj
    obtain ⟨n, hn⟩ := Option.isSome_iff_exists.mp hj
    rcases Table.nodes_set_cases hn with ⟨rfl, -⟩ | ⟨-, hn⟩
    · exact Set.mem_insert _ _
    · exact Set.mem_insert_of_mem _ (Option.isSome_of_mem hn)
  · intro j hj
    obtain ⟨n, hn⟩ := Option.isSome_iff_exists.mp hj
    rcases Table.nodes_set_cases hn with ⟨rfl, -⟩ | ⟨-, hn⟩
    · exact hi
    · exact h.range (Option.isSome_of_mem hn)
  · intro j n hn
    rw [hat]
    rcases Table.nodes_set_cases hn with ⟨rfl, rfl⟩ | ⟨-, hn⟩
    · have hempty : Forest.children t.at_ j = ∅ := by
        apply Set.eq_empty_of_forall_notMem
        rintro c ⟨name, hc⟩
        exact (hsome (h.parent hc)).1 rfl
      rw [hrefctr, hempty, Set.ncard_empty, Function.update_self]
      exact ⟨rfl, Int.one_pos⟩
    · rw [Function.update_of_ne (hsome (Option.isSome_of_mem hn)).1]
      exact h.refs hn

/-- The table when a node has lost its place. -/
def Table.cleared (t : Table) (i : Nat) (node : Node) (hash : Nat) : Table :=
  { t.set i { node with name := none, parent := none } with
    nameTable := Function.update t.nameTable hash ((t.nameTable hash).erase i) }

/-- A node loses its place, and its parent a child.  The reference to the parent
    is still counted. -/
theorem Shaped.clear (h : Shaped t hold) (hnode : t.nodes i = some node)
    (hat : t.at_ i = some (p, name)) :
    Shaped (t.cleared i node (nameHash p name)) (bump hold p) ∧
      (t.cleared i node (nameHash p name)).at_ = t.at_.detach i := by
  have hroot := h.ne_root hat
  have hat' : (t.cleared i node (nameHash p name)).at_ = t.at_.detach i := Table.at_set
  have hsome : ∀ j, ((t.cleared i node (nameHash p name)).nodes j).isSome = (t.nodes j).isSome :=
    Table.isSome_set hnode _
  have hkeep : ∀ {j x}, t.at_.detach i j = some x → j ≠ i ∧ t.at_ j = some x := by
    intro j x hx
    have hj : j ≠ i := by
      rintro rfl
      rw [Forest.detach_self] at hx
      cases hx
    exact ⟨hj, (Forest.detach_of_ne hj).symm.trans hx⟩
  refine ⟨?_, hat'⟩
  constructor
  · obtain ⟨n, hn, hparent⟩ := h.root
    exact ⟨n, (Table.nodes_set_of_ne hroot.symm).trans hn, hparent⟩
  · intro j n hj hn
    rcases Table.nodes_set_cases (t := t) hn with ⟨-, rfl⟩ | ⟨-, hn⟩
    · rfl
    · exact h.linked hj hn
  · rw [hat']
    intro j q name' hj
    rw [hsome]
    exact h.parent (hkeep hj).2
  · intro hash j
    rw [hat']
    show j ∈ Function.update t.nameTable _ _ hash ↔ _
    constructor
    · intro hj
      have hboth : j ≠ i ∧ j ∈ t.nameTable hash := by
        by_cases hhash : hash = nameHash p name
        · subst hhash
          rw [Function.update_self] at hj
          exact (h.nodup _).mem_erase_iff.mp hj
        · rw [Function.update_of_ne hhash] at hj
          refine ⟨?_, hj⟩
          rintro rfl
          obtain ⟨q, name', hat₁, hhash₁⟩ := h.hashed.mp hj
          rw [hat] at hat₁
          cases hat₁
          exact hhash hhash₁
      obtain ⟨q, name', hat₁, hhash₁⟩ := h.hashed.mp hboth.2
      exact ⟨q, name', (Forest.detach_of_ne hboth.1).trans hat₁, hhash₁⟩
    · rintro ⟨q, name', hat₁, hhash₁⟩
      obtain ⟨hji, hat₁⟩ := hkeep hat₁
      have hj : j ∈ t.nameTable hash := h.hashed.mpr ⟨q, name', hat₁, hhash₁⟩
      by_cases hhash : hash = nameHash p name
      · subst hhash
        rw [Function.update_self]
        exact (h.nodup _).mem_erase_iff.mpr ⟨hji, hj⟩
      · rwa [Function.update_of_ne hhash]
  · intro hash
    show (Function.update t.nameTable _ _ hash).Nodup
    by_cases hhash : hash = nameHash p name
    · subst hhash
      rw [Function.update_self]
      exact (h.nodup _).erase i
    · rw [Function.update_of_ne hhash]
      exact h.nodup hash
  · rw [hat']
    intro j k x hj hk
    exact h.unique (hkeep hj).2 (hkeep hk).2
  · rw [hat']
    exact h.acyclic.detach i
  · simp only [hsome]
    exact h.finite
  · intro j hj
    rw [hsome] at hj
    exact h.range hj
  · intro j n hn
    rw [hat']
    have hrefs : ∃ n', t.nodes j = some n' ∧ n'.refctr = n.refctr := by
      rcases Table.nodes_set_cases (t := t) hn with ⟨rfl, rfl⟩ | ⟨-, hn⟩
      · exact ⟨node, hnode, rfl⟩
      · exact ⟨n, hn, rfl⟩
    obtain ⟨n', hn', hrefctr⟩ := hrefs
    obtain ⟨hcount, hpos⟩ := h.refs hn'
    rw [← hrefctr]
    refine ⟨?_, hpos⟩
    by_cases hjp : j = p
    · subst hjp
      have hmem : i ∈ Forest.children t.at_ j := ⟨name, hat⟩
      have hcard := Set.ncard_sdiff_singleton_add_one hmem (h.children_finite j)
      rw [Forest.children_detach_self, bump_self, hcount]
      omega
    · rw [Forest.children_detach_of_ne hat hjp, bump_of_ne hjp]
      exact hcount

/-- The table when a node has got a place. -/
def Table.placed (t : Table) (i : Nat) (node : Node) (p : Nat) (name : FileName) : Table :=
  { t.set i { node with name := some name, parent := some p } with
    nameTable :=
      Function.update t.nameTable (nameHash p name) (i :: t.nameTable (nameHash p name)) }

/-- A node gets a place that is not taken and not below itself.  The reference
    to the parent has been counted. -/
theorem Shaped.place (h : Shaped t (bump hold p)) (hnode : t.nodes i = some node)
    (hi : i ≠ fuseRootId) (hat : t.at_ i = none) (hp : (t.nodes p).isSome)
    (hfree : ∀ j, t.at_ j ≠ some (p, name)) (hbelow : ¬ Forest.Below t.at_ i p) :
    Shaped (t.placed i node p name) hold ∧ (t.placed i node p name).at_ = t.at_.attach i p name := by
  have hat' : (t.placed i node p name).at_ = t.at_.attach i p name := Table.at_set
  have hsome : ∀ j, ((t.placed i node p name).nodes j).isSome = (t.nodes j).isSome :=
    Table.isSome_set hnode _
  have hcases : ∀ {j x}, t.at_.attach i p name j = some x →
      (j = i ∧ x = (p, name)) ∨ (j ≠ i ∧ t.at_ j = some x) := by
    intro j x hx
    by_cases hj : j = i
    · subst hj
      rw [Forest.attach_self] at hx
      cases hx
      exact .inl ⟨rfl, rfl⟩
    · rw [Forest.attach_of_ne hj] at hx
      exact .inr ⟨hj, hx⟩
  have hfresh : ∀ {hash}, i ∉ t.nameTable hash := by
    intro hash hmem
    obtain ⟨q, name', hat₁, -⟩ := h.hashed.mp hmem
    rw [hat] at hat₁
    cases hat₁
  refine ⟨?_, hat'⟩
  constructor
  · obtain ⟨n, hn, hparent⟩ := h.root
    exact ⟨n, (Table.nodes_set_of_ne hi.symm).trans hn, hparent⟩
  · intro j n hj hn
    rcases Table.nodes_set_cases (t := t) hn with ⟨-, rfl⟩ | ⟨-, hn⟩
    · rfl
    · exact h.linked hj hn
  · rw [hat']
    intro j q name' hj
    rw [hsome]
    rcases hcases hj with ⟨-, heq⟩ | ⟨-, hj⟩
    · cases heq
      exact hp
    · exact h.parent hj
  · intro hash j
    rw [hat']
    show j ∈ Function.update t.nameTable _ _ hash ↔ _
    constructor
    · intro hj
      have hboth : (j = i ∧ hash = nameHash p name) ∨ j ∈ t.nameTable hash := by
        by_cases hhash : hash = nameHash p name
        · subst hhash
          rw [Function.update_self] at hj
          exact (List.mem_cons.mp hj).imp_left fun heq => ⟨heq, rfl⟩
        · rw [Function.update_of_ne hhash] at hj
          exact .inr hj
      rcases hboth with ⟨rfl, rfl⟩ | hmem
      · exact ⟨p, name, Forest.attach_self, rfl⟩
      · obtain ⟨q, name', hat₁, hhash₁⟩ := h.hashed.mp hmem
        have hji : j ≠ i := by
          rintro rfl
          exact hfresh hmem
        exact ⟨q, name', (Forest.attach_of_ne hji).trans hat₁, hhash₁⟩
    · rintro ⟨q, name', hat₁, hhash₁⟩
      rcases hcases hat₁ with ⟨rfl, heq⟩ | ⟨-, hat₁⟩
      · cases heq
        rw [hhash₁, Function.update_self]
        exact List.mem_cons_self
      · have hmem : j ∈ t.nameTable hash := h.hashed.mpr ⟨q, name', hat₁, hhash₁⟩
        by_cases hhash : hash = nameHash p name
        · subst hhash
          rw [Function.update_self]
          exact List.mem_cons_of_mem _ hmem
        · rwa [Function.update_of_ne hhash]
  · intro hash
    show (Function.update t.nameTable _ _ hash).Nodup
    by_cases hhash : hash = nameHash p name
    · subst hhash
      rw [Function.update_self]
      exact List.nodup_cons.mpr ⟨hfresh, h.nodup _⟩
    · rw [Function.update_of_ne hhash]
      exact h.nodup hash
  · rw [hat']
    intro j k x hj hk
    rcases hcases hj with ⟨hji, hx⟩ | ⟨-, hj₁⟩ <;> rcases hcases hk with ⟨hki, hx'⟩ | ⟨-, hk₁⟩
    · exact hji.trans hki.symm
    · exact absurd (hx ▸ hk₁) (hfree k)
    · exact absurd (hx' ▸ hj₁) (hfree j)
    · exact h.unique hj₁ hk₁
  · rw [hat']
    exact h.acyclic.attach hbelow name
  · simp only [hsome]
    exact h.finite
  · intro j hj
    rw [hsome] at hj
    exact h.range hj
  · intro j n hn
    rw [hat']
    have hrefs : ∃ n', t.nodes j = some n' ∧ n'.refctr = n.refctr := by
      rcases Table.nodes_set_cases (t := t) hn with ⟨rfl, rfl⟩ | ⟨-, hn⟩
      · exact ⟨node, hnode, rfl⟩
      · exact ⟨n, hn, rfl⟩
    obtain ⟨n', hn', hrefctr⟩ := hrefs
    obtain ⟨hcount, hpos⟩ := h.refs hn'
    rw [← hrefctr]
    refine ⟨?_, hpos⟩
    by_cases hjp : j = p
    · subst hjp
      have hmem : i ∉ Forest.children t.at_ j := by
        rintro ⟨name', hat₁⟩
        rw [hat] at hat₁
        cases hat₁
      rw [Forest.children_attach_self hat, Set.ncard_insert_of_notMem hmem (h.children_finite j),
        hcount, bump_self]
      omega
    · rw [Forest.children_attach_of_ne hat hjp, hcount, bump_of_ne hjp]

end Shape

end FuseNt.NodeTable
