/-
  FuseNt.Module.NodeInvariant

  What holds between the sections of the requests.  `CountsOk` is about the
  lookups, the open files and the references, `PathsOk` about the paths, and both
  see of the table only where the nodes are and their status.

  The lock of a node counts the requests that have it on their way, or is -1 if
  one of them has it as `wnode`.  So the nodes on a way stay where they are, as a
  node is moved only by the request that has it as `wnode`.
-/

import FuseNt.Module.NodeSections

namespace FuseNt.NodeTable

open FuseNt.Lib

-- ============================================================================
-- The invariant
-- ============================================================================

/-- The reference that the lookups of a node are. -/
def lookedIn (status : Nat → Option Status) (i : Nat) : Nat :=
  match status i with
  | none => 0
  | some st => if st.nlookup = 0 then 0 else 1

/-- How often a node is referred to, but for its children. -/
def Sys.hold (s : Sys) (i : Nat) : Nat := lookedIn s.table.status i + s.refs i

/-- The counts of a node fit what the kernel has of it. -/
structure CountOk (noforget : Bool) (i : Nat) (place : Option (Nat × FileName)) (st : Status)
    (held opens : Nat) : Prop where
  looked : place ≠ none ∨ i = fuseRootId ∨ st.treelock ≠ 0 → st.nlookup ≠ 0
  known : i ≠ fuseRootId → held ≤ st.nlookup
  exact : i ≠ fuseRootId → noforget = false → st.nlookup = held
  kept : i ≠ fuseRootId → noforget = true → place ≠ none → st.nlookup = held + 1
  opened : st.openCount = opens
  openHeld : 0 < opens → 0 < held

/-- The counts of all nodes.  Nobody has anything of a node that is not there. -/
structure CountsOk (noforget : Bool) (forest : Forest Nat FileName) (status : Nat → Option Status)
    (held opens refs : Nat → Nat) : Prop where
  node : ∀ {i st}, status i = some st → CountOk noforget i (forest i) st (held i) (opens i)
  dead : ∀ {i}, status i = none → held i = 0 ∧ opens i = 0 ∧ refs i = 0

/-- The locks fit the paths that the requests have. -/
structure PathsOk (forest : Forest Nat FileName) (status : Nat → Option Status)
    (paths : List PathHold) : Prop where
  way : ∀ h ∈ paths, forest.Way fuseRootId h.nodeid h.way
  path : ∀ h ∈ paths, h.path = pathString (wayNames h.way ++ h.name.toList)
  locks : ∀ {i st}, status i = some st → st.treelock = LockHolder.count (paths.map PathHold.holder) i
  compatible : LockHolder.Compatible (paths.map PathHold.holder)
  owned : ∀ h ∈ paths, ∀ w, h.wnode = some w → (status w).isSome
  slot : ∀ h ∈ paths, ∀ x i, h.slot = some x → forest i = some x → h.wnode = some i
  nodup : (paths.filterMap PathHold.slot).Nodup
  isName : ∀ h ∈ paths, ∀ name, h.name = some name → IsName name

/-- What holds between the sections. -/
structure Ok (noforget : Bool) (s : Sys) : Prop where
  shaped : Shaped s.table s.hold
  inRange : s.table.InRange
  clean : ∀ {i p name}, s.table.at_ i = some (p, name) → IsName name
  counts : CountsOk noforget s.table.at_ s.table.status s.held s.opens s.refs
  paths : PathsOk s.table.at_ s.table.status s.paths

section Parts

variable {noforget : Bool} {forest forest' : Forest Nat FileName}
  {status status' : Nat → Option Status} {held opens refs hold : Nat → Nat} {paths : List PathHold}
  {i : Nat} {st : Status}

theorem lookedIn_pos (hst : status i = some st) (h : st.nlookup ≠ 0) : lookedIn status i = 1 := by
  rw [lookedIn, hst]
  exact if_neg h

theorem lookedIn_zero (hst : status i = some st) (h : st.nlookup = 0) : lookedIn status i = 0 := by
  rw [lookedIn, hst]
  exact if_pos h

theorem lookedIn_none (hst : status i = none) : lookedIn status i = 0 := by
  rw [lookedIn, hst]

/-- A node that nobody holds has not been looked up, and is not open. -/
theorem CountsOk.of_unheld (h : CountsOk noforget forest status held opens refs)
    (hst : status i = some st) (hi : lookedIn status i + refs i = 0) :
    st.nlookup = 0 ∧ held i = 0 ∧ opens i = 0 ∧ refs i = 0 := by
  have hzero : st.nlookup = 0 := by
    by_contra hne
    rw [lookedIn_pos hst hne] at hi
    omega
  have hnode := h.node hst
  have hroot : i ≠ fuseRootId := fun heq => hnode.looked (.inr (.inl heq)) hzero
  have hheld : held i = 0 := by
    have hle := hnode.known hroot
    omega
  have hopens : opens i = 0 := by
    by_contra hne
    have hpos := hnode.openHeld (Nat.pos_of_ne_zero hne)
    omega
  exact ⟨hzero, hheld, hopens, by omega⟩

/-- Nodes that are not held may go. -/
theorem CountsOk.spare (h : CountsOk noforget forest status held opens refs)
    (hspared : Spared hold status status') (hhold : ∀ i, hold i = lookedIn status i + refs i) :
    CountsOk noforget forest status' held opens refs where
  node hst := h.node (hspared.some hst)
  dead := by
    intro i hnone
    rcases hspared i with heq | ⟨hzero, -⟩
    · exact h.dead (heq ▸ hnone)
    · cases hst : status i with
      | none => exact h.dead hst
      | some st => exact (h.of_unheld hst ((hhold i).symm.trans hzero)).2

theorem lookedIn_spare (hspared : Spared hold status status')
    (hhold : ∀ i, hold i = lookedIn status i + refs i) (i : Nat) :
    hold i = lookedIn status' i + refs i := by
  rcases hspared i with heq | ⟨hzero, hgone⟩
  · rw [hhold i, lookedIn, lookedIn, heq]
  · have hi := hhold i
    rw [lookedIn_none hgone]
    omega

/-- A node whose lock is taken is held. -/
theorem CountsOk.held_of_lock (h : CountsOk noforget forest status held opens refs)
    (hst : status i = some st) (hlock : st.treelock ≠ 0) : lookedIn status i + refs i ≠ 0 := by
  rw [lookedIn_pos hst ((h.node hst).looked (.inr (.inr hlock)))]
  omega

theorem PathsOk.lock_own (h : PathsOk forest status paths) {p : PathHold} (hp : p ∈ paths)
    (hown : p.wnode = some i) : ∃ st, status i = some st ∧ st.treelock = -1 := by
  obtain ⟨st, hst⟩ := Option.isSome_iff_exists.mp (h.owned p hp i hown)
  refine ⟨st, hst, ?_⟩
  rw [h.locks hst]
  exact h.compatible.count_own (List.mem_map_of_mem hp) hown

theorem PathsOk.spare (h : PathsOk forest status paths)
    (hc : CountsOk noforget forest status held opens refs) (hspared : Spared hold status status')
    (hhold : ∀ i, hold i = lookedIn status i + refs i) : PathsOk forest status' paths where
  way := h.way
  path := h.path
  locks hst := h.locks (hspared.some hst)
  compatible := h.compatible
  owned := by
    intro p hp w hw
    obtain ⟨st, hst, hlock⟩ := h.lock_own hp hw
    have hheld := hc.held_of_lock hst (by omega)
    rw [hspared.held (by rw [hhold]; exact hheld), hst]
    rfl
  slot := h.slot
  nodup := h.nodup
  isName := h.isName

-- ============================================================================
-- Changes
-- ============================================================================

theorem lookedIn_update (status : Nat → Option Status) (i : Nat) (st : Status) (j : Nat) :
    lookedIn (Function.update status i (some st)) j =
      if j = i then if st.nlookup = 0 then 0 else 1 else lookedIn status j := by
  by_cases hj : j = i
  · subst hj
    rw [lookedIn, Function.update_self, if_pos rfl]
  · rw [lookedIn, Function.update_of_ne hj, if_neg hj]
    rfl

/-- The number of references does not change while a node is looked up. -/
theorem lookedIn_update_looked (hst : status i = some st) (hne : st.nlookup ≠ 0) {st' : Status}
    (hne' : st'.nlookup ≠ 0) (j : Nat) :
    lookedIn (Function.update status i (some st')) j = lookedIn status j := by
  rw [lookedIn_update]
  by_cases hj : j = i
  · subst hj
    rw [if_pos rfl, if_neg hne', lookedIn_pos hst hne]
  · rw [if_neg hj]

/-- What the kernel has of one node changes, and the node with it. -/
theorem CountsOk.update (h : CountsOk noforget forest status held opens refs) {st' : Status}
    {held' opens' : Nat → Nat} (hforest : ∀ j, j ≠ i → forest' j = forest j)
    (hheld : ∀ j, j ≠ i → held' j = held j) (hopens : ∀ j, j ≠ i → opens' j = opens j)
    (hi : CountOk noforget i (forest' i) st' (held' i) (opens' i)) :
    CountsOk noforget forest' (Function.update status i (some st')) held' opens' refs where
  node := by
    intro j st hst
    by_cases hj : j = i
    · subst hj
      rw [Function.update_self] at hst
      cases hst
      exact hi
    · rw [Function.update_of_ne hj] at hst
      rw [hforest j hj, hheld j hj, hopens j hj]
      exact h.node hst
  dead := by
    intro j hnone
    have hj : j ≠ i := by
      rintro rfl
      rw [Function.update_self] at hnone
      cases hnone
    rw [Function.update_of_ne hj] at hnone
    rw [hheld j hj, hopens j hj]
    exact h.dead hnone

/-- The references of the requests change. -/
theorem CountsOk.setRefs (h : CountsOk noforget forest status held opens refs) {refs' : Nat → Nat}
    (hrefs : ∀ i, status i = none → refs' i = 0) :
    CountsOk noforget forest status held opens refs' where
  node := h.node
  dead hst := ⟨(h.dead hst).1, (h.dead hst).2.1, hrefs _ hst⟩

/-- Nodes that are not on a way may move, but not to a place that is to change. -/
theorem PathsOk.move (h : PathsOk forest status paths)
    (hway : ∀ p ∈ paths, ∀ x ∈ p.way, forest' x.1 = forest x.1)
    (hslot : ∀ x ∈ paths.filterMap PathHold.slot, ∀ i, forest' i = some x → forest i = some x) :
    PathsOk forest' status paths where
  way p hp := (h.way p hp).frame (hway p hp)
  path := h.path
  locks := h.locks
  compatible := h.compatible
  owned := h.owned
  slot p hp x i hx hi := h.slot p hp x i hx (hslot x (List.mem_filterMap.mpr ⟨p, hp, hx⟩) i hi)
  nodup := h.nodup
  isName := h.isName

/-- A node that is not on a way may be taken off. -/
theorem PathsOk.detach (h : PathsOk forest status paths)
    (hoff : ∀ p ∈ paths, ∀ x ∈ p.way, x.1 ≠ i) : PathsOk (forest.detach i) status paths := by
  apply h.move
  · exact fun p hp x hx => Forest.detach_of_ne (hoff p hp x hx)
  · intro x _ j hj
    by_cases hji : j = i
    · rw [hji, Forest.detach_self] at hj
      cases hj
    · rwa [Forest.detach_of_ne hji] at hj

/-- It may be hung up in a place that is not to change. -/
theorem PathsOk.attach (h : PathsOk forest status paths)
    (hoff : ∀ p ∈ paths, ∀ x ∈ p.way, x.1 ≠ i) {p : Nat} {name : FileName}
    (hslot : (p, name) ∉ paths.filterMap PathHold.slot) :
    PathsOk (forest.attach i p name) status paths := by
  apply h.move
  · exact fun q hq x hx => Forest.attach_of_ne (hoff q hq x hx)
  · intro x hx j hj
    by_cases hji : j = i
    · rw [hji, Forest.attach_self] at hj
      cases hj
      exact absurd hx hslot
    · rwa [Forest.attach_of_ne hji] at hj

/-- The names are still strings. -/
theorem clean_detach (h : ∀ {j p name}, forest j = some (p, name) → IsName name)
    {j p : Nat} {name : FileName} (hj : forest.detach i j = some (p, name)) : IsName name := by
  by_cases hji : j = i
  · rw [hji, Forest.detach_self] at hj
    cases hj
  · rw [Forest.detach_of_ne hji] at hj
    exact h hj

theorem clean_attach (h : ∀ {j p name}, forest j = some (p, name) → IsName name) {p : Nat}
    {name : FileName} (hname : IsName name) {j q : Nat} {name' : FileName}
    (hj : forest.attach i p name j = some (q, name')) : IsName name' := by
  by_cases hji : j = i
  · rw [hji, Forest.attach_self] at hj
    cases hj
    exact hname
  · rw [Forest.attach_of_ne hji] at hj
    exact h hj

/-- The status of a node changes, and its lock fits the paths. -/
theorem PathsOk.write (h : PathsOk forest status paths) {st' : Status}
    (hlock : st'.treelock = LockHolder.count (paths.map PathHold.holder) i) :
    PathsOk forest (Function.update status i (some st')) paths where
  way := h.way
  path := h.path
  locks := by
    intro j stj hstj
    by_cases hj : j = i
    · subst hj
      rw [Function.update_self] at hstj
      cases hstj
      exact hlock
    · rw [Function.update_of_ne hj] at hstj
      exact h.locks hstj
  compatible := h.compatible
  owned := by
    intro p hp w hw
    by_cases hj : w = i
    · subst hj
      rw [Function.update_self]
      rfl
    · rw [Function.update_of_ne hj]
      exact h.owned p hp w hw
  slot := h.slot
  nodup := h.nodup
  isName := h.isName

/-- The status of a node changes, but for its lock. -/
theorem PathsOk.update (h : PathsOk forest status paths) (hst : status i = some st) {st' : Status}
    (hlock : st'.treelock = st.treelock) :
    PathsOk forest (Function.update status i (some st')) paths :=
  h.write (hlock.trans (h.locks hst))

/-- Nobody has the lock of a node that is not there. -/
theorem PathsOk.count_gone (h : PathsOk forest status paths) (hforest : forest i = none)
    (hst : status i = none) : LockHolder.count (paths.map PathHold.holder) i = 0 := by
  apply h.compatible.count_eq_zero.mpr
  intro holder hmem
  obtain ⟨p, hp, rfl⟩ := List.mem_map.mp hmem
  constructor
  · intro hown
    have hsome := h.owned p hp i hown
    rw [hst] at hsome
    cases hsome
  · intro hshared
    obtain ⟨x, hx, rfl⟩ := List.mem_map.mp hshared
    obtain ⟨-, q, hat⟩ := (h.way p hp).at_mem hx
    rw [hforest] at hat
    cases hat

theorem PathsOk.perm (h : PathsOk forest status paths) {paths' : List PathHold}
    (hperm : paths.Perm paths') : PathsOk forest status paths' where
  way p hp := h.way p (hperm.mem_iff.mpr hp)
  path p hp := h.path p (hperm.mem_iff.mpr hp)
  locks hst := (h.locks hst).trans (LockHolder.count_perm (hperm.map _))
  compatible := h.compatible.perm (hperm.map _)
  owned p hp := h.owned p (hperm.mem_iff.mpr hp)
  slot p hp := h.slot p (hperm.mem_iff.mpr hp)
  nodup := (hperm.filterMap _).nodup_iff.mp h.nodup
  isName p hp := h.isName p (hperm.mem_iff.mpr hp)

theorem slot_settled (p : PathHold) : p.settled.slot = none := if_neg Bool.false_ne_true

/-- A request has changed its place. -/
theorem PathsOk.settle_head {p : PathHold} (h : PathsOk forest status (p :: paths)) :
    PathsOk forest status (p.settled :: paths) := by
  have hmem : ∀ {q}, q ∈ p.settled :: paths → q = p.settled ∨ q ∈ p :: paths := by
    intro q hq
    rcases List.mem_cons.mp hq with heq | hq
    · exact .inl heq
    · exact .inr (List.mem_cons_of_mem _ hq)
  have hp : p ∈ p :: paths := List.mem_cons_self
  constructor
  · intro q hq
    rcases hmem hq with rfl | hq
    · exact h.way p hp
    · exact h.way q hq
  · intro q hq
    rcases hmem hq with rfl | hq
    · exact h.path p hp
    · exact h.path q hq
  · exact h.locks
  · exact h.compatible
  · intro q hq
    rcases hmem hq with rfl | hq
    · exact h.owned p hp
    · exact h.owned q hq
  · intro q hq x i hslot
    rcases hmem hq with rfl | hq
    · rw [slot_settled] at hslot
      cases hslot
    · exact h.slot q hq x i hslot
  · have hnodup := h.nodup
    rw [List.filterMap_cons] at hnodup
    rw [List.filterMap_cons, slot_settled]
    cases hslot : p.slot with
    | none => rwa [hslot] at hnodup
    | some x =>
        rw [hslot] at hnodup
        exact (List.nodup_cons.mp hnodup).2
  · intro q hq
    rcases hmem hq with rfl | hq
    · exact h.isName p hp
    · exact h.isName q hq

theorem PathsOk.settle {p : PathHold} (h : PathsOk forest status paths) (hp : p ∈ paths) :
    PathsOk forest status (p.settled :: paths.erase p) :=
  (h.perm (List.perm_cons_erase hp)).settle_head

/-- The nodes of the ways are not those that a request has for itself. -/
theorem PathsOk.off_way (h : PathsOk forest status paths) {p : PathHold} (hp : p ∈ paths)
    (hown : p.wnode = some i) : ∀ q ∈ paths, ∀ x ∈ q.way, x.1 ≠ i := by
  rintro q hq x hx rfl
  exact h.compatible.excludes _ (List.mem_map_of_mem hp) _ hown _ (List.mem_map_of_mem hq)
    (List.mem_map_of_mem hx)

-- ============================================================================
-- States
-- ============================================================================

/-- The state that a section leads to. -/
theorem Ok.of_spared {t : Table} (hshaped : Shaped t hold) (hat : t.at_ = forest)
    (hspared : Spared hold status t.status) (hhold : ∀ i, hold i = lookedIn status i + refs i)
    (hrange : t.InRange) (hclean : ∀ {i p name}, forest i = some (p, name) → IsName name)
    (hcounts : CountsOk noforget forest status held opens refs) (hpaths : PathsOk forest status paths) :
    Ok noforget ⟨t, held, opens, refs, paths⟩ where
  shaped := by
    have heq : Sys.hold ⟨t, held, opens, refs, paths⟩ = hold :=
      funext fun i => (lookedIn_spare hspared hhold i).symm
    rw [heq]
    exact hshaped
  inRange := hrange
  clean hi := hclean (hat ▸ hi)
  counts := by
    show CountsOk noforget t.at_ t.status held opens refs
    rw [hat]
    exact hcounts.spare hspared hhold
  paths := by
    show PathsOk t.at_ t.status paths
    rw [hat]
    exact hpaths.spare hcounts hspared hhold

theorem Did.inRange {t t' : Table} (h : Did t t' hold forest) (hrange : t.InRange) : t'.InRange := by
  rw [Table.InRange, h.ctr, h.generation]
  exact hrange

variable {s : Sys}

/-- A node that has not been looked up is idle. -/
theorem Ok.idle_of_unlooked (h : Ok noforget s) (hi : lookedIn s.table.status i = 0) :
    i ≠ fuseRootId ∧ s.table.at_ i = none ∧ ∀ st, s.table.status i = some st → st.treelock = 0 := by
  cases hst : s.table.status i with
  | none =>
      have hnode : s.table.nodes i = none := by
        have hsome := s.table.status_isSome (i := i)
        rw [hst] at hsome
        simpa using hsome.symm
      refine ⟨?_, ?_, ?_⟩
      · rintro rfl
        obtain ⟨node, hroot, -⟩ := h.shaped.root
        rw [hnode] at hroot
        cases hroot
      · rw [Table.at_, hnode]
        rfl
      · rintro st ⟨⟩
  | some st =>
      have hnlookup : st.nlookup = 0 := by
        by_contra hne
        rw [lookedIn_pos hst hne] at hi
        cases hi
      refine ⟨fun hroot => (h.counts.node hst).looked (.inr (.inl hroot)) hnlookup, ?_, ?_⟩
      · by_contra hat
        exact (h.counts.node hst).looked (.inl hat) hnlookup
      · rintro st' ⟨⟩
        by_contra hlock
        exact (h.counts.node hst).looked (.inr (.inr hlock)) hnlookup

/-- A node that nobody holds is idle. -/
theorem Ok.idle (h : Ok noforget s) (i : Nat) : Idle s.table s.hold i := by
  intro hzero
  exact h.idle_of_unlooked (Nat.eq_zero_of_add_eq_zero_right hzero)

theorem Ok.status_of_at (h : Ok noforget s) {x : Nat × FileName} (hat : s.table.at_ i = some x) :
    ∃ st, s.table.status i = some st ∧ st.nlookup ≠ 0 := by
  obtain ⟨node, hnode, -⟩ := Table.nodes_of_at hat
  have hst := Table.status_of_nodes hnode
  exact ⟨_, hst, (h.counts.node hst).looked (.inl (by rw [hat]; exact Option.some_ne_none x))⟩

theorem Ok.status_root (h : Ok noforget s) :
    ∃ st, s.table.status fuseRootId = some st ∧ st.nlookup ≠ 0 := by
  obtain ⟨node, hnode, -⟩ := h.shaped.root
  have hst := Table.status_of_nodes hnode
  exact ⟨_, hst, (h.counts.node hst).looked (.inr (.inl rfl))⟩

/-- The node of a path is the root, or has a place. -/
theorem Ok.status_of_path (h : Ok noforget s) {p : PathHold} (hp : p ∈ s.paths) :
    ∃ st, s.table.status p.nodeid = some st ∧ st.nlookup ≠ 0 := by
  have hway := h.paths.way p hp
  generalize p.nodeid = i at hway ⊢
  generalize p.way = way at hway
  cases hway with
  | top => exact h.status_root
  | step _ hat _ => exact h.status_of_at hat

/-- No path of a request is below a node that one of them has for itself. -/
theorem Ok.not_below (h : Ok noforget s) {p q : PathHold} (hp : p ∈ s.paths)
    (hown : p.wnode = some i) (hi : i ≠ fuseRootId) (hq : q ∈ s.paths) :
    ¬ Forest.Below s.table.at_ i q.nodeid := by
  intro hbelow
  have hmem := (h.paths.way q hq).mem_of_below h.shaped.at_root hi hbelow
  obtain ⟨x, hx, hxi⟩ := List.mem_map.mp hmem
  exact h.paths.off_way hp hown q hq x hx hxi

theorem hold_ne_zero (hst : s.table.status i = some st) (hlooked : st.nlookup ≠ 0) :
    s.hold i ≠ 0 := by
  rw [Sys.hold, lookedIn_pos hst hlooked]
  omega

theorem isSome_of_status {t : Table} (hst : t.status i = some st) : (t.nodes i).isSome := by
  rw [← Table.status_isSome, hst]
  rfl

end Parts

-- ============================================================================
-- The start
-- ============================================================================

theorem nodes_new {i : Nat} {node : Node} (hnode : fuseNewCommon.nodes i = some node) :
    i = fuseRootId ∧ node = ⟨0, 1, none, some [slash], 1, 0, false, 0, 0⟩ := by
  by_cases hi : i = fuseRootId
  · subst hi
    exact ⟨rfl, (Option.some.inj hnode).symm⟩
  · have hnone : fuseNewCommon.nodes i = none := by
      show Function.update (fun _ => none) fuseRootId _ i = none
      exact Function.update_of_ne hi _ _
    rw [hnone] at hnode
    cases hnode

theorem at_new : fuseNewCommon.at_ = fun _ => none := by
  funext i
  cases hn : fuseNewCommon.nodes i with
  | none => rw [Table.at_, hn]; rfl
  | some node =>
      obtain ⟨-, rfl⟩ := nodes_new hn
      rw [Table.at_of_nodes hn]
      rfl

theorem ok_new (noforget : Bool) : Ok noforget Sys.new := by
  have hst : ∀ {i st}, fuseNewCommon.status i = some st →
      i = fuseRootId ∧ st = ⟨0, 1, 0, false, 0, 0⟩ := by
    intro i st hst
    obtain ⟨node, hn, rfl⟩ := exists_node_of_status hst
    obtain ⟨hi, rfl⟩ := nodes_new hn
    exact ⟨hi, rfl⟩
  have hnone : ∀ {i x}, fuseNewCommon.at_ i ≠ some x := by
    intro i x
    rw [at_new]
    exact (Option.some_ne_none x).symm
  have hchildren : ∀ i, Forest.children fuseNewCommon.at_ i = ∅ := by
    intro i
    apply Set.eq_empty_of_forall_notMem
    rintro c ⟨name, hc⟩
    exact hnone hc
  constructor
  · constructor
    · exact ⟨_, rfl, rfl⟩
    · intro i node hi hn
      exact absurd (nodes_new hn).1 hi
    · intro i p name hi
      exact absurd hi hnone
    · intro hash i
      constructor
      · exact fun hmem => absurd hmem List.not_mem_nil
      · rintro ⟨p, name, hi, -⟩
        exact absurd hi hnone
    · exact fun _ => List.nodup_nil
    · intro i j x hi
      exact absurd hi hnone
    · intro i
      exact .top (congrFun at_new i)
    · apply (Set.finite_singleton fuseRootId).subset
      intro i hi
      obtain ⟨node, hn⟩ := Option.isSome_iff_exists.mp hi
      exact (nodes_new hn).1
    · intro i hi
      obtain ⟨node, hn⟩ := Option.isSome_iff_exists.mp hi
      rw [(nodes_new hn).1]
      decide
    · intro i node hn
      obtain ⟨rfl, rfl⟩ := nodes_new hn
      rw [show Sys.new.table = fuseNewCommon from rfl, hchildren, Set.ncard_empty]
      exact ⟨rfl, Int.one_pos⟩
  · exact ⟨by decide, by decide⟩
  · intro i p name hi
    exact absurd hi hnone
  · constructor
    · intro i st h
      obtain ⟨rfl, rfl⟩ := hst h
      constructor
      · exact fun _ => Nat.one_ne_zero
      · exact fun hi => absurd rfl hi
      · exact fun hi => absurd rfl hi
      · exact fun hi => absurd rfl hi
      · rfl
      · exact fun hpos => absurd hpos (Nat.lt_irrefl 0)
    · exact fun _ => ⟨rfl, rfl, rfl⟩
  · constructor
    · exact fun h hmem => absurd hmem List.not_mem_nil
    · exact fun h hmem => absurd hmem List.not_mem_nil
    · intro i st h
      obtain ⟨-, rfl⟩ := hst h
      rfl
    · exact LockHolder.Compatible.nil
    · exact fun h hmem => absurd hmem List.not_mem_nil
    · exact fun h hmem => absurd hmem List.not_mem_nil
    · exact List.nodup_nil
    · exact fun h hmem => absurd hmem List.not_mem_nil

end FuseNt.NodeTable
