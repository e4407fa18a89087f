/-
  FuseNt.Module.NodeService

  Every section that keeps to the rules is served: the process does not stop in
  it, what it replies is what the names say, and the tables, the counts and the
  locks are in order afterwards.  Only when all numbers are in use, or a path is
  as long as the address space of 32 bits, `next_id` and `add_name` do not come
  to an end.
-/

import FuseNt.Module.Namespace
import FuseNt.Module.NodeInvariant

namespace FuseNt.NodeTable

open FuseNt.Lib

section Paths

variable {noforget : Bool} {s : Sys} {t t' : Table} {δ : Nat → Int} {i : Nat} {st : Status}

-- ============================================================================
-- Locks
-- ============================================================================

/-- The lock of a node has changed, and nothing else but its ticket. -/
structure Relocks (δ : Int) (st st' : Status) : Prop where
  nlookup : st'.nlookup = st.nlookup
  openCount : st'.openCount = st.openCount
  generation : st'.generation = st.generation
  treelock : st'.treelock = st.treelock + δ

theorem Relocked.status_some (h : Relocked t t' δ) {st' : Status} (hst : t'.status i = some st') :
    ∃ st, t.status i = some st ∧ Relocks (δ i) st st' := by
  obtain ⟨node', hnode', rfl⟩ := exists_node_of_status hst
  obtain ⟨node, hnode⟩ := Option.isSome_iff_exists.mp
    ((h.isSome i).symm.trans (Option.isSome_of_mem hnode'))
  obtain ⟨ticket, heq⟩ := h.exists_node hnode
  rw [hnode'] at heq
  cases heq
  exact ⟨_, Table.status_of_nodes hnode, rfl, rfl, rfl, rfl⟩

theorem Relocked.keeps (h : Relocked t t' δ) : t.Keeps t' where
  ctr := h.ctr
  generation := h.generation
  nodes := by
    intro i st' hst'
    obtain ⟨st, hst, heq⟩ := h.status_some hst'
    exact ⟨st, hst, heq.generation.symm⟩

theorem Relocked.status_isSome (h : Relocked t t' δ) (i : Nat) :
    (t'.status i).isSome = (t.status i).isSome := by
  rw [Table.status_isSome, Table.status_isSome, h.isSome]

theorem Relocked.lookedIn (h : Relocked t t' δ) (i : Nat) :
    lookedIn t'.status i = lookedIn t.status i := by
  cases hst' : t'.status i with
  | none =>
      have hsome := h.status_isSome i
      rw [hst'] at hsome
      have hst : t.status i = none := by simpa using hsome.symm
      rw [lookedIn_none hst', lookedIn_none hst]
  | some st' =>
      obtain ⟨st, hst, heq⟩ := h.status_some hst'
      rw [NodeTable.lookedIn, NodeTable.lookedIn, hst', hst]
      simp only [heq.nlookup]

/-- The locks have changed, with the paths that they are for. -/
theorem Ok.relock (h : Ok noforget s) (hrelock : Relocked s.table t δ) {paths : List PathHold}
    (hlooked : ∀ {i st}, s.table.status i = some st → st.treelock + δ i ≠ 0 → st.nlookup ≠ 0)
    (hpaths : PathsOk s.table.at_ t.status paths) :
    Ok noforget { s with table := t, paths := paths } where
  shaped := by
    have heq : Sys.hold { s with table := t, paths := paths } = s.hold :=
      funext fun i => congrArg (· + s.refs i) (hrelock.lookedIn i)
    rw [heq]
    exact (hrelock.shaped h.shaped).1
  inRange := by
    show t.InRange
    rw [Table.InRange, hrelock.ctr, hrelock.generation]
    exact h.inRange
  clean hi := h.clean ((hrelock.shaped h.shaped).2 ▸ hi)
  counts := by
    show CountsOk noforget t.at_ t.status s.held s.opens s.refs
    rw [(hrelock.shaped h.shaped).2]
    constructor
    · intro i st' hst'
      obtain ⟨st, hst, heq⟩ := hrelock.status_some hst'
      have hnode := h.counts.node hst
      constructor
      · intro hcase
        rw [heq.nlookup]
        rcases hcase with hat | hroot | hne
        · exact hnode.looked (.inl hat)
        · exact hnode.looked (.inr (.inl hroot))
        · exact hlooked hst (heq.treelock ▸ hne)
      · rw [heq.nlookup]
        exact hnode.known
      · rw [heq.nlookup]
        exact hnode.exact
      · rw [heq.nlookup]
        exact hnode.kept
      · rw [heq.openCount]
        exact hnode.opened
      · exact hnode.openHeld
    · intro i hnone
      have hsome := hrelock.status_isSome i
      rw [hnone] at hsome
      exact h.counts.dead (by simpa using hsome.symm)
  paths := by
    show PathsOk t.at_ t.status paths
    rw [(hrelock.shaped h.shaped).2]
    exact hpaths

theorem status_of_lock (hlive : (t.nodes i).isSome) :
    ∃ st, t.status i = some st ∧ t.lock i = st.treelock := by
  obtain ⟨node, hnode⟩ := Option.isSome_iff_exists.mp hlive
  exact ⟨_, Table.status_of_nodes hnode, Table.lock_of_nodes hnode⟩

/-- The number of a lock is the one that the paths say. -/
theorem Ok.lock_eq (h : Ok noforget s) (hlive : (s.table.nodes i).isSome) :
    s.table.lock i = LockHolder.count (s.paths.map PathHold.holder) i := by
  obtain ⟨st, hst, heq⟩ := status_of_lock hlive
  rw [heq, h.paths.locks hst]

theorem Ok.lock_ge (h : Ok noforget s) (i : Nat) : -1 ≤ s.table.lock i := by
  cases hnode : s.table.nodes i with
  | none =>
      rw [Table.lock, hnode]
      decide
  | some node =>
      rw [h.lock_eq (Option.isSome_of_mem hnode)]
      by_cases hown : LockHolder.count (s.paths.map PathHold.holder) i = -1
      · omega
      · have hfree : ∀ p ∈ s.paths.map PathHold.holder, p.own ≠ some i := fun p hp heq =>
          hown (h.paths.compatible.count_own hp heq)
        rw [LockHolder.Compatible.count_shared hfree]
        omega

/-- What the kernel or a request has is there. -/
theorem Ok.live (h : Ok noforget s) (hknown : s.Known i) : (s.table.nodes i).isSome := by
  rcases hknown with rfl | hpos
  · obtain ⟨node, hnode, -⟩ := h.shaped.root
    exact Option.isSome_of_mem hnode
  · rw [← Table.status_isSome]
    by_contra hnone
    obtain ⟨hheld, -, hrefs⟩ := h.counts.dead (by simpa using hnone)
    omega

theorem wayUp_eq {top : Nat} {way : List (Nat × FileName)} (hway : t.at_.Way top i way)
    (htop : t.at_ top = none) {fuel : Nat} (hfuel : way.length < fuel) : wayUp t fuel i = way := by
  induction hway generalizing fuel with
  | top =>
      obtain ⟨fuel, rfl⟩ := Nat.exists_eq_succ_of_ne_zero (Nat.ne_of_gt hfuel)
      rw [wayUp, htop]
  | step hne hat _ ih =>
      obtain ⟨fuel, rfl⟩ := Nat.exists_eq_succ_of_ne_zero (Nat.ne_of_gt (Nat.zero_lt_of_lt hfuel))
      rw [wayUp, hat]
      simp only [ih (Nat.lt_of_succ_lt_succ hfuel)]

theorem wayUp_congr (hat : t'.at_ = t.at_) (fuel i : Nat) : wayUp t' fuel i = wayUp t fuel i := by
  induction fuel generalizing i with
  | zero => rfl
  | succ fuel ih =>
      rw [wayUp, wayUp, hat]
      simp only [ih]

theorem holder_adds (p : PathHold) (i : Nat) :
    p.holder.adds i = onWay p.way i - ownLock p.wnode i := rfl

theorem mem_slots_withPath {nodeid : Nat} {name : Option FileName} {wr : Bool} {path : FileName}
    {wnode : Option Nat} {x : Nat × FileName}
    (hx : x ∈ (s.withPath nodeid name wr path wnode).filterMap PathHold.slot) :
    (x.1, some x.2) = (nodeid, name) ∨ x ∈ s.slots := by
  rw [Sys.withPath, List.filterMap_cons] at hx
  cases wr with
  | false => exact .inr hx
  | true =>
      cases name with
      | none => exact .inr hx
      | some n =>
          rcases List.mem_cons.mp hx with rfl | hx
          · exact .inl rfl
          · exact .inr hx

/-- A second path may be asked for while the first one is locked. -/
theorem PathAsked.withPath {nodeid1 nodeid2 : Nat} {name1 name2 : Option FileName} {wr : Bool}
    (hasked : PathAsked s nodeid2 name2 wr)
    (hne : wr = true → (nodeid1, name1) ≠ (nodeid2, name2)) {path : FileName} {wnode : Option Nat} :
    PathAsked { s with table := t, paths := s.withPath nodeid1 name1 wr path wnode } nodeid2 name2
      wr where
  known := hasked.known
  isName := hasked.isName
  named := hasked.named
  locked := by
    intro n hwr hn hmem
    rcases mem_slots_withPath hmem with heq | hmem
    · apply hne hwr
      rw [hn]
      exact heq.symm
    · exact hasked.locked n hwr hn hmem

-- ============================================================================
-- get_path and free_path
-- ============================================================================

/-- The path of a node is too long for its buffer. -/
def TooLong (s : Sys) (nodeid : Nat) (name : Option FileName) : Prop :=
  ∃ stop way, Forest.Way s.table.at_ stop nodeid way ∧
    2 ^ 32 ≤ (slashed (wayNames way ++ name.toList)).length + 1

/-- A path goes past a node: it is on the way, or is to be changed at the end. -/
def Sys.needs (s : Sys) (nodeid : Nat) (name : Option FileName) (wr : Bool) (i : Nat) : Prop :=
  i ∈ (wayUp s.table (2 ^ 32) nodeid).map Prod.fst ∨
    wr = true ∧ ∃ n, name = some n ∧ s.table.at_ i = some (nodeid, n)

/-- A round of `get_path`. -/
inductive GetsPath (noforget : Bool) (heap : PathHeap) (ticket : Int) (s : Sys) (nodeid : Nat)
    (name : Option FileName) (wr : Bool) : Except Stop (PathResult × Table) → Prop
  | locked {path : FileName} {wnode : Option Nat} {t : Table}
      (hok : Ok noforget { s with table := t, paths := s.withPath nodeid name wr path wnode })
      (hrelock : Relocked s.table t fun j => onWay (wayUp s.table (2 ^ 32) nodeid) j - ownLock wnode j)
      (hat : t.at_ = s.table.at_) (hpath : s.names.PathOf nodeid name path)
      (hneeds : ∀ j, s.needs nodeid name wr j ↔
        wnode = some j ∨ j ∈ (wayUp s.table (2 ^ 32) nodeid).map Prod.fst)
      (hpasses : ∀ j, s.needs nodeid name wr j → s.table.Passes ticket j ∧ t.ticket j = 0)
      (htickets : ∀ j, ¬ s.needs nodeid name wr j → t.ticket j = s.table.ticket j) :
      GetsPath noforget heap ticket s nodeid name wr (.ok (.locked path wnode, t))
  | failed {err : Int} {t : Table} (hok : Ok noforget { s with table := t })
      (hrelock : Relocked s.table t 0) (hat : t.at_ = s.table.at_)
      (hleaves : Table.Leaves ticket s.table t)
      (hwhy : Refuses heap ticket s.table nodeid name wr t err) :
      GetsPath noforget heap ticket s nodeid name wr (.ok (.failed err, t))
  | endless (hlong : TooLong s nodeid name) :
      GetsPath noforget heap ticket s nodeid name wr (.error (.path .endless))

/-- A new path has been locked. -/
theorem Ok.withPath (h : Ok noforget s) {nodeid : Nat} {name : Option FileName} {wr : Bool}
    (hasked : PathAsked s nodeid name wr) {way : List (Nat × FileName)} {wnode : Option Nat}
    (hway : s.table.at_.Way fuseRootId nodeid way)
    (hrelock : Relocked s.table t fun j => onWay way j - ownLock wnode j)
    (hfree : ∀ x ∈ way, s.table.lock x.1 ≠ -1 ∧ wnode ≠ some x.1)
    {ticket : Int} (hown : LocksName ticket s.table nodeid name wr wnode) :
    Ok noforget { s with
      table := t
      paths := s.withPath nodeid name wr (pathString (wayNames way ++ name.toList)) wnode } := by
  have hwayUp : wayUp s.table (2 ^ 32) nodeid = way :=
    wayUp_eq hway h.shaped.at_root (h.shaped.way_length hway)
  have hlive : ∀ {x}, x ∈ way → (s.table.nodes x.1).isSome := by
    intro x hx
    obtain ⟨-, p, hat⟩ := hway.at_mem hx
    obtain ⟨node, hnode, -⟩ := Table.nodes_of_at hat
    exact Option.isSome_of_mem hnode
  have hplace : ∀ {w}, wnode = some w → ∃ n, name = some n ∧ s.table.at_ w = some (nodeid, n) := by
    intro w hw
    have hwr : wr = true := by
      by_contra hfalse
      rw [hown.read (by simpa using hfalse)] at hw
      cases hw
    obtain ⟨n, hn⟩ := Option.ne_none_iff_exists'.mp (hasked.named hwr)
    exact ⟨n, hn, (hown.write hwr n hn w).mp hw⟩
  apply h.relock hrelock
  · -- a node whose lock is taken now is on the way, or in the place of the name
    intro i st hst hne
    by_cases hlock : st.treelock = 0
    · have hcase : i ∈ way.map Prod.fst ∨ wnode = some i := by
        by_contra hnot
        obtain ⟨hoff, hnotown⟩ := not_or.mp hnot
        have hown0 : ownLock wnode i = 0 := if_neg hnotown
        rw [onWay_of_not_mem hoff, hown0, hlock] at hne
        exact hne rfl
      have hat : s.table.at_ i ≠ none := by
        rcases hcase with hmem | hw
        · obtain ⟨x, hx, rfl⟩ := List.mem_map.mp hmem
          obtain ⟨-, p, hat⟩ := hway.at_mem hx
          rw [hat]
          exact Option.some_ne_none _
        · obtain ⟨n, -, hat⟩ := hplace hw
          rw [hat]
          exact Option.some_ne_none _
      exact (h.counts.node hst).looked (.inl hat)
    · exact (h.counts.node hst).looked (.inr (.inr hlock))
  · rw [Sys.withPath, hwayUp]
    constructor
    · intro p hp
      rcases List.mem_cons.mp hp with rfl | hp
      · exact hway
      · exact h.paths.way p hp
    · intro p hp
      rcases List.mem_cons.mp hp with rfl | hp
      · rfl
      · exact h.paths.path p hp
    · intro i st' hst'
      obtain ⟨st, hst, heq⟩ := hrelock.status_some hst'
      rw [heq.treelock, h.paths.locks hst, List.map_cons, LockHolder.count_cons, holder_adds, add_comm]
    · rw [List.map_cons]
      apply h.paths.compatible.cons
      · intro i hi
        obtain ⟨x, hx, rfl⟩ := List.mem_map.mp hi
        obtain ⟨hlock, hne⟩ := hfree x hx
        rw [h.lock_eq (hlive hx)] at hlock
        exact ⟨hlock, hne⟩
      · intro i hi
        obtain ⟨n, -, hat⟩ := hplace hi
        obtain ⟨node, hnode, -⟩ := Table.nodes_of_at hat
        rw [← h.lock_eq (Option.isSome_of_mem hnode)]
        exact hown.zero i hi
    · intro p hp w hw
      rw [hrelock.status_isSome]
      rcases List.mem_cons.mp hp with rfl | hp
      · obtain ⟨n, -, hat⟩ := hplace hw
        obtain ⟨st, hst, -⟩ := h.status_of_at hat
        rw [hst]
        rfl
      · exact h.paths.owned p hp w hw
    · intro p hp x i hslot hat
      rcases List.mem_cons.mp hp with rfl | hp
      · rw [PathHold.slot] at hslot
        cases hwr : wr with
        | false =>
            rw [hwr] at hslot
            cases hslot
        | true =>
            rw [hwr, if_pos rfl] at hslot
            obtain ⟨n, hn, rfl⟩ := Option.map_eq_some_iff.mp hslot
            exact (hown.write hwr n hn i).mpr hat
      · exact h.paths.slot p hp x i hslot hat
    · rw [List.filterMap_cons]
      cases hslot : PathHold.slot ⟨nodeid, name, pathString (wayNames way ++ name.toList), wnode,
          way, wr⟩ with
      | none => exact h.paths.nodup
      | some x =>
          refine List.nodup_cons.mpr ⟨fun hmem => ?_, h.paths.nodup⟩
          rw [PathHold.slot] at hslot
          cases hwr : wr with
          | false =>
              rw [hwr] at hslot
              cases hslot
          | true =>
              rw [hwr, if_pos rfl] at hslot
              obtain ⟨n, hn, rfl⟩ := Option.map_eq_some_iff.mp hslot
              exact hasked.locked n hwr hn hmem
    · intro p hp n hn
      rcases List.mem_cons.mp hp with rfl | hp
      · exact hasked.isName n hn
      · exact h.paths.isName p hp n hn

theorem Ok.lockPath (h : Ok noforget s) {nodeid : Nat} {name : Option FileName} {wr : Bool}
    (hasked : PathAsked s nodeid name wr) (heap : PathHeap) {ticket : Int} (hticket : ticket ≠ 0) :
    GetsPath noforget heap ticket s nodeid name wr (tryGetPath heap s.table nodeid name wr ticket) := by
  have htries := h.shaped.tryGetPath_spec heap h.lock_ge (fun _ _ _ hat => h.clean hat)
    (h.live hasked.known) hasked.isName hasked.named hticket
  generalize tryGetPath heap s.table nodeid name wr ticket = r at htries
  cases htries with
  | @locked way wnode t hway hrelock hfree hown hpasses htickets =>
      have hwayUp := wayUp_eq hway h.shaped.at_root (h.shaped.way_length hway)
      have hneeds : ∀ j, s.needs nodeid name wr j ↔ wnode = some j ∨ j ∈ way.map Prod.fst := by
        intro j
        rw [Sys.needs, hwayUp]
        constructor
        · rintro (hmem | ⟨hwr, n, hn, hat⟩)
          · exact .inr hmem
          · exact .inl ((hown.write hwr n hn j).mpr hat)
        · rintro (hw | hmem)
          · have hwr : wr = true := by
              by_contra hfalse
              rw [hown.read (by simpa using hfalse)] at hw
              cases hw
            obtain ⟨n, hn⟩ := Option.ne_none_iff_exists'.mp (hasked.named hwr)
            exact .inr ⟨hwr, n, hn, (hown.write hwr n hn j).mp hw⟩
          · exact .inl hmem
      refine .locked (h.withPath hasked hway hrelock hfree hown) (hwayUp.symm ▸ hrelock)
        (hrelock.shaped h.shaped).2 ⟨_, hway.leads, rfl⟩ (hwayUp.symm ▸ hneeds) ?_ ?_
      · intro j hj
        have hpassed := (hneeds j).mp hj
        refine ⟨?_, by rw [htickets j, if_pos hpassed]⟩
        rcases hpassed with hown' | hmem
        · exact hown.passes j hown'
        · obtain ⟨x, hx, rfl⟩ := List.mem_map.mp hmem
          exact hpasses x hx
      · intro j hj
        rw [htickets j, if_neg fun hpassed => hj ((hneeds j).mpr hpassed)]
  | failed hrelock hleaves hwhy =>
      refine .failed (h.relock hrelock ?_ ?_) hrelock (hrelock.shaped h.shaped).2 hleaves hwhy
      · intro i st hst hne
        rw [Pi.zero_apply, add_zero] at hne
        exact (h.counts.node hst).looked (.inr (.inr hne))
      · refine ⟨h.paths.way, h.paths.path, ?_, h.paths.compatible, ?_, h.paths.slot, h.paths.nodup,
          h.paths.isName⟩
        · intro i st' hst'
          obtain ⟨st, hst, heq⟩ := hrelock.status_some hst'
          rw [heq.treelock, Pi.zero_apply, add_zero, h.paths.locks hst]
        · intro p hp w hw
          rw [hrelock.status_isSome]
          exact h.paths.owned p hp w hw
  | endless hway hlong => exact .endless ⟨_, _, hway, hlong⟩

/-- `unlock_path` of a path that a request has. -/
theorem Ok.unlock (h : Ok noforget s) {p : PathHold} (hp : p ∈ s.paths) (ticket : Int) :
    ∃ t, unlockPath s.table p.nodeid p.wnode none ticket = .ok t ∧
      Ok noforget { s with table := t, paths := s.paths.erase p } ∧
      Relocked s.table t (fun j => ownLock p.wnode j - onWay p.way j) ∧ t.at_ = s.table.at_ ∧
      ∀ j, t.ticket j = if p.wnode = some j ∨ j ∈ p.way.map Prod.fst then
        leave ticket (s.table.ticket j) else s.table.ticket j := by
  have hway := h.paths.way p hp
  have hmem := List.mem_map_of_mem (f := PathHold.holder) hp
  obtain ⟨st, hst, -⟩ := h.status_of_path hp
  have hshare : ∀ x ∈ p.way, 0 < s.table.lock x.1 := by
    intro x hx
    obtain ⟨-, q, hat⟩ := hway.at_mem hx
    obtain ⟨node, hnode, -⟩ := Table.nodes_of_at hat
    rw [h.lock_eq (Option.isSome_of_mem hnode)]
    exact h.paths.compatible.count_pos hmem (List.mem_map_of_mem hx)
  have hown : ∀ w, p.wnode = some w → s.table.lock w = -1 := by
    intro w hw
    obtain ⟨stw, hstw, hlock⟩ := h.paths.lock_own hp hw
    obtain ⟨node, hnode, rfl⟩ := exists_node_of_status hstw
    rw [Table.lock_of_nodes hnode]
    exact hlock
  obtain ⟨t, hrun, hrelock, htickets⟩ := h.shaped.unlockPath_spec hway (.inr ⟨rfl, rfl⟩) (isSome_of_status hst)
    hshare hown ticket
  have hcount : ∀ i, LockHolder.count ((s.paths.erase p).map PathHold.holder) i =
      LockHolder.count (s.paths.map PathHold.holder) i - p.holder.adds i := by
    intro i
    have hperm := (List.perm_cons_erase hp).map PathHold.holder
    rw [LockHolder.count_perm hperm, List.map_cons, LockHolder.count_cons]
    omega
  have hsub : ∀ {q}, q ∈ s.paths.erase p → q ∈ s.paths := List.mem_of_mem_erase
  refine ⟨t, hrun, h.relock hrelock ?_ ?_, hrelock, (hrelock.shaped h.shaped).2, htickets⟩
  · -- where nobody has anything of a lock, there is nothing to give back
    intro i st hst hne
    by_cases hlock : st.treelock = 0
    · have hzero := h.paths.locks hst
      rw [hlock] at hzero
      obtain ⟨hnotown, hoff⟩ := h.paths.compatible.count_eq_zero.mp hzero.symm _ hmem
      have hown0 : ownLock p.wnode i = 0 := if_neg hnotown
      rw [hlock, hown0, onWay_of_not_mem hoff] at hne
      exact absurd rfl hne
    · exact (h.counts.node hst).looked (.inr (.inr hlock))
  · constructor
    · exact fun q hq => h.paths.way q (hsub hq)
    · exact fun q hq => h.paths.path q (hsub hq)
    · intro i st' hst'
      obtain ⟨st, hst, heq⟩ := hrelock.status_some hst'
      rw [heq.treelock, h.paths.locks hst, hcount, holder_adds]
      omega
    · have hperm := (List.perm_cons_erase hp).map PathHold.holder
      exact (h.paths.compatible.perm hperm).of_cons
    · intro q hq w hw
      rw [hrelock.status_isSome]
      exact h.paths.owned q (hsub hq) w hw
    · exact fun q hq => h.paths.slot q (hsub hq)
    · exact h.paths.nodup.sublist (List.erase_sublist.filterMap _)
    · exact fun q hq => h.paths.isName q (hsub hq)

-- ============================================================================
-- Two paths
-- ============================================================================

/-- What a node is needed for does not change while paths are locked. -/
theorem needs_congr {s₁ : Sys} (hat : s₁.table.at_ = s.table.at_) (nodeid : Nat)
    (name : Option FileName) (wr : Bool) (i : Nat) :
    s₁.needs nodeid name wr i ↔ s.needs nodeid name wr i := by
  rw [Sys.needs, Sys.needs, wayUp_congr hat, hat]

/-- A round of `get_path2`. -/
inductive GetsPaths (noforget : Bool) (ticket : Int) (s : Sys) (nodeid1 : Nat)
    (name1 : Option FileName) (nodeid2 : Nat) (name2 : Option FileName) (wr : Bool) :
    Except Stop (PathResult2 × Table) → Prop
  | locked {path1 path2 : FileName} {wnode1 wnode2 : Option Nat} {t : Table}
      (hok : Ok noforget { s with
        table := t
        paths := Sys.withPath { s with paths := s.withPath nodeid1 name1 wr path1 wnode1 } nodeid2
          name2 wr path2 wnode2 })
      (hkeeps : s.table.Keeps t) (hat : t.at_ = s.table.at_)
      (hpath1 : s.names.PathOf nodeid1 name1 path1) (hpath2 : s.names.PathOf nodeid2 name2 path2)
      (hpasses : ∀ j, s.needs nodeid1 name1 wr j ∨ s.needs nodeid2 name2 wr j →
        s.table.Passes ticket j)
      (htickets : ∀ j, ¬ (s.needs nodeid1 name1 wr j ∨ s.needs nodeid2 name2 wr j) →
        t.ticket j = s.table.ticket j) :
      GetsPaths noforget ticket s nodeid1 name1 nodeid2 name2 wr
        (.ok (.locked path1 wnode1 path2 wnode2, t))
  | failed {err : Int} {t : Table} (hok : Ok noforget { s with table := t })
      (hrelock : Relocked s.table t 0) (hat : t.at_ = s.table.at_)
      (hleaves : Table.Leaves ticket s.table t) :
      GetsPaths noforget ticket s nodeid1 name1 nodeid2 name2 wr (.ok (.failed err, t))
  | endless {nodeid : Nat} {name : Option FileName}
      (hmem : (nodeid, name) ∈ [(nodeid1, name1), (nodeid2, name2)]) (hlong : TooLong s nodeid name) :
      GetsPaths noforget ticket s nodeid1 name1 nodeid2 name2 wr (.error (.path .endless))

/-- When the second path fails, the first one is given back, and there are only
    tickets left. -/
theorem Ok.lockPaths (h : Ok noforget s) {nodeid1 nodeid2 : Nat} {name1 name2 : Option FileName}
    {wr : Bool} (hasked1 : PathAsked s nodeid1 name1 wr) (hasked2 : PathAsked s nodeid2 name2 wr)
    (hne : wr = true → (nodeid1, name1) ≠ (nodeid2, name2)) (heap1 heap2 : PathHeap) {ticket : Int}
    (hticket : ticket ≠ 0) :
    GetsPaths noforget ticket s nodeid1 name1 nodeid2 name2 wr
      (tryGetPath2 heap1 heap2 s.table nodeid1 name1 nodeid2 name2 wr ticket) := by
  have hgets1 := h.lockPath hasked1 heap1 hticket
  rw [tryGetPath2]
  generalize tryGetPath heap1 s.table nodeid1 name1 wr ticket = r1 at hgets1
  cases hgets1 with
  | failed hok hrelock hat hleaves => exact .failed hok hrelock hat hleaves
  | endless hlong => exact .endless List.mem_cons_self hlong
  | @locked path1 wnode1 t1 hok1 hrelock1 hat1 hpath1 hneeds1 hpasses1 htickets1 =>
      have hgets2 := hok1.lockPath (hasked2.withPath hne) heap2 hticket
      simp only [ok_bind]
      generalize tryGetPath heap2 t1 nodeid2 name2 wr ticket = r2 at hgets2
      cases hgets2 with
      | @failed err t2 hok2 hrelock2 hat2 hleaves2 _ =>
          obtain ⟨t3, hrun3, hok3, hrelock3, hat3, htickets3⟩ := hok2.unlock List.mem_cons_self ticket
          simp only [Sys.withPath, List.erase_cons_head] at hok3
          have hrun : unlockPath t2 nodeid1 wnode1 none ticket = .ok t3 := hrun3
          simp only [ok_bind, hrun]
          refine .failed hok3 (((hrelock1.trans hrelock2).trans hrelock3).congr fun j => ?_)
            (hat3.trans (hat2.trans hat1)) fun j => ?_
          · show onWay (wayUp s.table (2 ^ 32) nodeid1) j - ownLock wnode1 j + 0 +
              (ownLock wnode1 j - onWay (wayUp s.table (2 ^ 32) nodeid1) j) = 0
            omega
          · have htick : t3.ticket j =
                if wnode1 = some j ∨ j ∈ (wayUp s.table (2 ^ 32) nodeid1).map Prod.fst then
                  leave ticket (t2.ticket j) else t2.ticket j := htickets3 j
            by_cases hpass : s.needs nodeid1 name1 wr j
            · -- the ticket that has been taken off is put back
              obtain ⟨hown, hzero⟩ := hpasses1 j hpass
              rw [if_pos ((hneeds1 j).mp hpass)] at htick
              have hleft : t3.ticket j = ticket := by
                rw [htick]
                rcases hleaves2 j with heq | ⟨-, heq⟩
                · rw [heq, leave, if_pos hzero]
                · rw [heq, leave]
                  split <;> rfl
              rcases hown with hfree | hsame
              · exact .inr ⟨hfree, hleft⟩
              · exact .inl (hleft.trans hsame.symm)
            · rw [if_neg fun hmem => hpass ((hneeds1 j).mpr hmem)] at htick
              rcases hleaves2 j with heq | ⟨hfree, heq⟩
              · exact .inl (htick.trans (heq.trans (htickets1 j hpass)))
              · exact .inr ⟨(htickets1 j hpass).symm.trans hfree, htick.trans heq⟩
      | @locked path2 wnode2 t2 hok2 hrelock2 hat2 hpath2 _ hpasses2 htickets2 =>
          rw [Sys.names, hat1] at hpath2
          have hway : wayUp t1 (2 ^ 32) nodeid2 = wayUp s.table (2 ^ 32) nodeid2 :=
            wayUp_congr hat1 _ _
          simp only [Sys.withPath, hway] at hok2
          refine .locked hok2 (hrelock1.keeps.trans hrelock2.keeps) (hat2.trans hat1) hpath1 hpath2
            (fun j hneeds => ?_) fun j hnot => ?_
          · by_cases hpass : s.needs nodeid1 name1 wr j
            · exact (hpasses1 j hpass).1
            · have hpass2 := (hpasses2 j ((needs_congr hat1 _ _ _ _).mpr (hneeds.resolve_left hpass))).1
              have hsame := htickets1 j hpass
              rw [Table.Passes, ← hsame]
              exact hpass2
          · obtain ⟨hnot1, hnot2⟩ := not_or.mp hnot
            exact (htickets2 j fun hmem => hnot2 ((needs_congr hat1 _ _ _ _).mp hmem)).trans
              (htickets1 j hnot1)
      | endless hlong =>
          apply GetsPaths.endless (List.mem_cons_of_mem _ List.mem_cons_self)
          obtain ⟨stop, way, hway, hlen⟩ := hlong
          exact ⟨stop, way, hat1 ▸ hway, hlen⟩

-- ============================================================================
-- Looking up and forgetting
-- ============================================================================

/-- A node has been looked up once more. -/
theorem Ok.looksUp (h : Ok noforget s) (hst : s.table.status i = some st) (hne : st.nlookup ≠ 0)
    (hdid : Did s.table t s.hold s.table.at_)
    (hstatus : t.status = Function.update s.table.status i (some st.lookedUp)) :
    Ok noforget { s with table := t, held := bump s.held i } := by
  have hnode := h.counts.node hst
  have hne' : st.lookedUp.nlookup ≠ 0 := Nat.succ_ne_zero _
  apply Ok.of_spared hdid.shaped hdid.at_ (.of_eq _ hstatus) _ (hdid.inRange h.inRange) h.clean
  · apply h.counts.update (fun _ _ => rfl) (fun j hj => bump_of_ne hj) (fun _ _ => rfl)
    rw [bump_self]
    constructor
    · exact fun _ => hne'
    · exact fun hi => Nat.succ_le_succ (hnode.known hi)
    · exact fun hi hforget => congrArg (· + 1) (hnode.exact hi hforget)
    · exact fun hi hforget hplace => congrArg (· + 1) (hnode.kept hi hforget hplace)
    · exact hnode.opened
    · exact fun _ => Nat.succ_pos _
  · exact h.paths.update hst rfl
  · intro j
    rw [lookedIn_update_looked hst hne hne']
    rfl

/-- A node that is new has been looked up. -/
theorem Ok.makes (h : Ok noforget s) {p : PathHold} {name : FileName} (hname : IsName name) (hslot : (p.nodeid, name) ∉ s.slots) {t₁ : Table}
    (hcount : Counted s.table t₁)
    (hdid : Did t₁ t (Function.update s.hold t₁.ctr 1) (s.table.at_.attach t₁.ctr p.nodeid name))
    (hstatus : t.status =
      Function.update s.table.status t₁.ctr (some (newStatus noforget t₁.generation))) :
    Ok noforget { s with table := t, held := bump s.held t₁.ctr } := by
  have hgone : s.table.status t₁.ctr = none := by
    rw [Table.status, hcount.new.free]
    rfl
  have hplace : s.table.at_ t₁.ctr = none := by
    rw [Table.at_, hcount.new.free]
    rfl
  obtain ⟨hheld, hopens, hrefs⟩ := h.counts.dead hgone
  have hne : (newStatus noforget t₁.generation).nlookup ≠ 0 := by
    cases noforget
    · exact Nat.one_ne_zero
    · exact Nat.succ_ne_zero 1
  apply Ok.of_spared hdid.shaped hdid.at_ (.of_eq _ hstatus) _ (hdid.inRange hcount.inRange)
  · exact clean_attach h.clean hname
  · apply h.counts.update (fun j hj => Forest.attach_of_ne hj) (fun j hj => bump_of_ne hj)
      (fun _ _ => rfl)
    rw [bump_self, hheld, hopens]
    constructor
    · exact fun _ => hne
    · exact fun _ => Nat.pos_of_ne_zero hne
    · rintro - rfl
      rfl
    · rintro - rfl -
      rfl
    · rfl
    · exact fun hpos => absurd hpos (Nat.lt_irrefl 0)
  · apply PathsOk.write
    · apply h.paths.attach _ hslot
      rintro q hq x hx heq
      obtain ⟨-, r, hat⟩ := (h.paths.way q hq).at_mem hx
      rw [heq, hplace] at hat
      cases hat
    · exact (h.paths.count_gone hplace hgone).symm
  · intro j
    rw [lookedIn_update]
    by_cases hj : j = t₁.ctr
    · subst hj
      rw [Function.update_self, if_pos rfl, if_neg hne, hrefs]
    · rw [Function.update_of_ne hj, if_neg hj]
      rfl

/-- Some lookups of a node are forgotten, but it is still looked up. -/
theorem Ok.forgetsSome (h : Ok noforget s) (hi : i ≠ fuseRootId) (hst : s.table.status i = some st)
    {n : Nat} (hn : n < st.nlookup) (hle : n ≤ s.held i) (hopens : n = s.held i → s.opens i = 0)
    (hdid : Did s.table t s.hold s.table.at_)
    (hstatus : t.status =
      Function.update s.table.status i (some { st with nlookup := st.nlookup - n })) :
    Ok noforget { s with table := t, held := Function.update s.held i (s.held i - n) } := by
  have hnode := h.counts.node hst
  have hne' : st.nlookup - n ≠ 0 := Nat.sub_ne_zero_of_lt hn
  apply Ok.of_spared hdid.shaped hdid.at_ (.of_eq _ hstatus) _ (hdid.inRange h.inRange) h.clean
  · apply h.counts.update (fun _ _ => rfl) (fun j hj => Function.update_of_ne hj _ _) (fun _ _ => rfl)
    rw [Function.update_self]
    constructor
    · exact fun _ => hne'
    · intro _
      show s.held i - n ≤ st.nlookup - n
      have hknown := hnode.known hi
      omega
    · intro _ hforget
      show st.nlookup - n = s.held i - n
      rw [hnode.exact hi hforget]
    · intro _ hforget hplace
      show st.nlookup - n = s.held i - n + 1
      have hkept := hnode.kept hi hforget hplace
      omega
    · exact hnode.opened
    · intro hopen
      have hne : n ≠ s.held i := fun heq => absurd (hopens heq) (Nat.ne_of_gt hopen)
      omega
  · exact h.paths.update hst rfl
  · intro j
    rw [lookedIn_update_looked hst (Nat.ne_of_gt (Nat.zero_lt_of_lt hn)) hne']
    rfl

/-- The last lookups of a node are forgotten. -/
theorem Ok.forgetsLast (h : Ok noforget s) (hi : i ≠ fuseRootId) (hst : s.table.status i = some st)
    (hlock : st.treelock = 0) (hheld : s.held i = st.nlookup) (hpos : 0 < s.held i)
    (hopens : s.opens i = 0) :
    ∃ t, forgetNode s.table i st.nlookup = .ok t ∧ t.at_ = s.table.at_.detach i ∧
      s.table.Quiet t ∧ Ok noforget { s with table := t, held := Function.update s.held i 0 } := by
  have hne : st.nlookup ≠ 0 := by omega
  -- the lookups are one reference, which goes
  let hold := Function.update s.hold i (s.refs i)
  have hself : hold i = s.refs i := Function.update_self ..
  have hothers : ∀ j, j ≠ i → hold j = s.hold j := fun j hj => Function.update_of_ne hj _ _
  have hbump : bump hold i = s.hold := by
    funext j
    by_cases hj : j = i
    · subst hj
      rw [bump_self, hself, Sys.hold, lookedIn_pos hst hne, add_comm]
    · rw [bump_of_ne hj, hothers j hj]
  have hidle : ∀ p name, s.table.at_ i = some (p, name) → Idle s.table hold p := by
    intro p name hat
    have hpi : p ≠ i := (h.shaped.ne_parent hat).symm
    intro hzero
    exact h.idle p (hothers p hpi ▸ hzero)
  obtain ⟨t, hrun, hdid, hspared⟩ :=
    Shaped.forget_last (hbump.symm ▸ h.shaped) hi hst hlock hidle
  refine ⟨t, hrun, hdid.at_, hdid.quiet hst hspared rfl rfl, ?_⟩
  have hoff : ∀ q ∈ s.paths, q.wnode ≠ some i ∧ ∀ x ∈ q.way, x.1 ≠ i := by
    have hzero := h.paths.locks hst
    rw [hlock] at hzero
    have hall := h.paths.compatible.count_eq_zero.mp hzero.symm
    intro q hq
    obtain ⟨hown, hshared⟩ := hall _ (List.mem_map_of_mem hq)
    refine ⟨hown, ?_⟩
    rintro x hx rfl
    exact hshared (List.mem_map_of_mem hx)
  apply Ok.of_spared hdid.shaped hdid.at_ hspared _ (hdid.inRange h.inRange)
  · exact clean_detach h.clean
  · apply h.counts.update (fun j hj => Forest.detach_of_ne hj) (fun j hj => Function.update_of_ne hj _ _)
      (fun _ _ => rfl)
    rw [Function.update_self, Forest.detach_self, hopens]
    constructor
    · rintro (hplace | hroot | hlocked)
      · exact absurd rfl hplace
      · exact absurd hroot hi
      · exact absurd hlock hlocked
    · exact fun _ => le_rfl
    · exact fun _ _ => rfl
    · exact fun _ _ hplace => absurd rfl hplace
    · show st.openCount = 0
      rw [(h.counts.node hst).opened, hopens]
      rfl
    · exact id
  · exact (h.paths.detach fun q hq => (hoff q hq).2).update hst rfl
  · intro j
    rw [lookedIn_update]
    by_cases hj : j = i
    · subst hj
      rw [hself, if_pos rfl, if_pos rfl, zero_add]
    · rw [hothers j hj, if_neg hj]
      rfl

-- ============================================================================
-- Unlinking and renaming
-- ============================================================================

/-- Some requests have changed their places. -/
theorem Ok.setPaths (h : Ok noforget s) {paths : List PathHold}
    (hpaths : PathsOk s.table.at_ s.table.status paths) : Ok noforget { s with paths := paths } :=
  ⟨h.shaped, h.inRange, h.clean, h.counts, hpaths⟩

/-- A node is unlinked by the request that has it for itself. -/
theorem Ok.unlinks (h : Ok noforget s) {p : PathHold} (hp : p ∈ s.paths) (hown : p.wnode = some i)
    {x : Nat × FileName} (hat : s.table.at_ i = some x) (hheld : noforget = true → 0 < s.held i) :
    ∃ t, unlinkNode noforget s.table i = .ok t ∧ t.at_ = s.table.at_.detach i ∧
      s.table.Quiet t ∧ Ok noforget { s with table := t } := by
  obtain ⟨st, hst, hne⟩ := h.status_of_at hat
  have hnode := h.counts.node hst
  have hi : i ≠ fuseRootId := h.shaped.ne_root hat
  have hplace : s.table.at_ i ≠ none := by
    rw [hat]
    exact Option.some_ne_none x
  have hlooked : noforget = true → 1 < st.nlookup := by
    intro hforget
    have hkept := hnode.kept hi hforget hplace
    have hpos := hheld hforget
    omega
  obtain ⟨t, hrun, hdid, hspared⟩ := h.shaped.unlink hat hst hlooked (h.idle x.1)
  have hsame : (st.unlinked noforget).openCount = st.openCount ∧
      (st.unlinked noforget).treelock = st.treelock ∧
      (st.unlinked noforget).generation = st.generation ∧
      (st.unlinked noforget).ticket = st.ticket := by
    cases noforget <;> exact ⟨rfl, rfl, rfl, rfl⟩
  refine ⟨t, hrun, hdid.at_, hdid.quiet hst hspared hsame.2.2.1 hsame.2.2.2, ?_⟩
  -- what has become of the lookups
  have hne' : (st.unlinked noforget).nlookup ≠ 0 := by
    cases noforget with
    | false => exact hne
    | true => exact Nat.sub_ne_zero_of_lt (hlooked rfl)
  have hknown : s.held i ≤ (st.unlinked noforget).nlookup := by
    cases noforget with
    | false => exact hnode.known hi
    | true =>
        show s.held i ≤ st.nlookup - 1
        have hkept := hnode.kept hi rfl hplace
        omega
  have hexact : noforget = false → (st.unlinked noforget).nlookup = s.held i := by
    rintro rfl
    exact hnode.exact hi rfl
  apply Ok.of_spared hdid.shaped hdid.at_ hspared _ (hdid.inRange h.inRange)
  · exact clean_detach h.clean
  · apply h.counts.update (fun j hj => Forest.detach_of_ne hj) (fun _ _ => rfl) (fun _ _ => rfl)
    rw [Forest.detach_self]
    constructor
    · exact fun _ => hne'
    · exact fun _ => hknown
    · exact fun _ => hexact
    · exact fun _ _ hnot => absurd rfl hnot
    · rw [hsame.1]
      exact hnode.opened
    · exact hnode.openHeld
  · exact (h.paths.detach (h.paths.off_way hp hown)).update hst hsame.2.1
  · intro j
    rw [lookedIn_update_looked hst hne hne']
    rfl

/-- A node is moved by the request that has it for itself, to a place below a
    node whose path is locked. -/
theorem Ok.moves (h : Ok noforget s) {p p' : PathHold} (hp : p ∈ s.paths) (hown : p.wnode = some i)
    {x : Nat × FileName} (hat : s.table.at_ i = some x) (hp' : p' ∈ s.paths) {newname : FileName}
    (hname : IsName newname) (hfree : ∀ j, s.table.at_ j ≠ some (p'.nodeid, newname))
    (hslot : (p'.nodeid, newname) ∉ s.slots) (strdup hide : Bool) :
    ∃ t, moveNode strdup s.table i p'.nodeid newname hide =
        .ok (if strdup then 0 else -eNoMem, t) ∧
      t.at_ = (if strdup then s.table.at_.attach i p'.nodeid newname else s.table.at_.detach i) ∧
      s.table.Quiet t ∧ Ok noforget { s with table := t } := by
  obtain ⟨st, hst, hne⟩ := h.status_of_at hat
  have hnode := h.counts.node hst
  have hoff := h.paths.off_way hp hown
  have hplace : s.table.at_ i ≠ none := by
    rw [hat]
    exact Option.some_ne_none x
  have hbelow := h.not_below hp hown (h.shaped.ne_root hat) hp'
  obtain ⟨stp, hstp, hlooked⟩ := h.status_of_path hp'
  obtain ⟨t, hrun, hdid, hspared⟩ := h.shaped.move hat hst (hold_ne_zero hst hne) (h.idle x.1)
    hfree (hold_ne_zero hstp hlooked) (isSome_of_status hstp) hbelow strdup hide
  have hsame : (st.hidden (strdup && hide)).nlookup = st.nlookup ∧
      (st.hidden (strdup && hide)).openCount = st.openCount ∧
      (st.hidden (strdup && hide)).treelock = st.treelock ∧
      (st.hidden (strdup && hide)).generation = st.generation ∧
      (st.hidden (strdup && hide)).ticket = st.ticket := by
    cases strdup && hide <;> exact ⟨rfl, rfl, rfl, rfl, rfl⟩
  refine ⟨t, hrun, hdid.at_, hdid.quiet hst hspared hsame.2.2.2.1 hsame.2.2.2.2, ?_⟩
  have hne' : (st.hidden (strdup && hide)).nlookup ≠ 0 := hsame.1 ▸ hne
  apply Ok.of_spared hdid.shaped hdid.at_ hspared _ (hdid.inRange h.inRange)
  · cases strdup with
    | false => exact clean_detach h.clean
    | true => exact clean_attach h.clean hname
  · apply h.counts.update _ (fun _ _ => rfl) (fun _ _ => rfl)
    · constructor
      · exact fun _ => hne'
      · rw [hsame.1]
        exact hnode.known
      · rw [hsame.1]
        exact hnode.exact
      · rw [hsame.1]
        exact fun hi hforget _ => hnode.kept hi hforget hplace
      · rw [hsame.2.1]
        exact hnode.opened
      · exact hnode.openHeld
    · intro j hj
      cases strdup with
      | false => exact Forest.detach_of_ne hj
      | true => exact Forest.attach_of_ne hj
  · apply PathsOk.update _ hst hsame.2.2.1
    cases strdup with
    | false => exact h.paths.detach hoff
    | true => exact h.paths.attach hoff hslot
  · intro j
    rw [lookedIn_update_looked hst hne hne']
    rfl

end Paths

-- ============================================================================
-- Sections
-- ============================================================================

/-- The paths that a section asks for. -/
def Section.asked : Section → List (Nat × Option FileName)
  | .getPath _ nodeid name _ _ => [(nodeid, name)]
  | .getPath2 _ _ nodeid1 name1 nodeid2 name2 _ _ => [(nodeid1, name1), (nodeid2, name2)]
  | _ => []

/-- The number and the generation that the kernel is told. -/
def Reply.found : Reply → Option (Nat × Nat)
  | .entry found => found
  | _ => none

/-- What a section does to the ids. -/
inductive IdsStep (noforget : Bool) (t : Table) : Section → Reply → Table → Prop
  | kept {a : Section} {r : Reply} {t' : Table} (hkeeps : t.Keeps t') (hr : r.found = none) :
      IdsStep noforget t a r t'
  | known {a : Section} {i generation : Nat} {st : Status} {t' : Table} (hkeeps : t.Keeps t')
      (hst : t.status i = some st) (hsame : st.generation = generation) :
      IdsStep noforget t a (.entry (some (i, generation))) t'
  /-- An id is chosen, but not used. -/
  | unused {mem : NodeMem} {p : PathHold} {name : FileName} {t' : Table} (hcount : Counted t t') :
      IdsStep noforget t (.findNode mem p (some name)) (.entry none) t'
  | new {mem : NodeMem} {p : PathHold} {name : FileName} {t₁ t' : Table} (hcount : Counted t t₁)
      (hctr : t'.ctr = t₁.ctr) (hgeneration : t'.generation = t₁.generation)
      (hstatus : t'.status =
        Function.update t.status t₁.ctr (some (newStatus noforget t₁.generation))) :
      IdsStep noforget t (.findNode mem p (some name)) (.entry (some (t₁.ctr, t₁.generation))) t'

/-- The sections that lock paths and unlock them. -/
def Section.locks : Section → Bool
  | .getPath .. | .getPath2 .. | .freePath _ => true
  | _ => false

/-- What a section may come to. -/
inductive Serves (noforget : Bool) (s : Sys) (a : Section) : Except Stop (Reply × Sys) → Prop
  | ok {r : Reply} {s' : Sys} (hok : Ok noforget s')
      (hnames : NamesStep noforget s.names (a, r) s'.names)
      (hids : IdsStep noforget s.table a r s'.table)
      (htickets : a.locks = false → ∀ i st st', s.table.status i = some st →
        s'.table.status i = some st' → st'.ticket = st.ticket) : Serves noforget s a (.ok (r, s'))
  /-- All ids are in use. -/
  | noIds {mem : NodeMem} {p : PathHold} {name : FileName} (ha : a = .findNode mem p (some name))
      (hfull : ∀ i, ¬ NewId s.table i) : Serves noforget s a (.error .noIds)
  /-- A path has a length of 4 GiB. -/
  | endless {nodeid : Nat} {name : Option FileName} (ha : (nodeid, name) ∈ a.asked)
      (hlong : TooLong s nodeid name) : Serves noforget s a (.error (.path .endless))

section Served

variable {noforget : Bool} {s : Sys} {a : Section}

theorem Serves.of_ids {r : Reply} {s' : Sys} {n : Names} (hok : Ok noforget s')
    (hstep : NamesStep noforget s.names (a, r) n) (hplace : s'.table.at_ = n.place)
    (hheld : s'.held = n.held) (hids : IdsStep noforget s.table a r s'.table)
    (htickets : a.locks = false → ∀ i st st', s.table.status i = some st →
      s'.table.status i = some st' → st'.ticket = st.ticket) : Serves noforget s a (.ok (r, s')) := by
  have hnames : s'.names = n := by
    show Names.mk s'.table.at_ s'.held = n
    rw [hplace, hheld]
  apply Serves.ok hok _ hids htickets
  rw [hnames]
  exact hstep

theorem Table.Quiet.tickets {t t' : Table} (h : t.Quiet t') (i : Nat) (st st' : Status)
    (hst : t.status i = some st) (hst' : t'.status i = some st') : st'.ticket = st.ticket := by
  obtain ⟨st₀, hst₀, -, htick⟩ := h.nodes hst'
  rw [hst] at hst₀
  cases hst₀
  exact htick.symm

/-- A section that does not make a node, and does not lock a path. -/
theorem Serves.of {r : Reply} {s' : Sys} {n : Names} (hok : Ok noforget s')
    (hstep : NamesStep noforget s.names (a, r) n) (hquiet : s.table.Quiet s'.table)
    (hplace : s'.table.at_ = n.place) (hheld : s'.held = n.held) (hr : r.found = none) :
    Serves noforget s a (.ok (r, s')) :=
  .of_ids hok hstep hplace hheld (.kept hquiet.keeps hr) fun _ => hquiet.tickets

/-- A section that locks a path, or unlocks it. -/
theorem Serves.of_path {r : Reply} {s' : Sys} (hok : Ok noforget s')
    (hstep : NamesStep noforget s.names (a, r) s.names) (hkeeps : s.table.Keeps s'.table)
    (hplace : s'.table.at_ = s.table.at_) (hheld : s'.held = s.held) (hr : r.found = none)
    (ha : a.locks = true) : Serves noforget s a (.ok (r, s')) := by
  refine .of_ids hok hstep hplace hheld (.kept hkeeps hr) fun hlocks => ?_
  rw [ha] at hlocks
  cases hlocks

theorem Ok.serves_getPath (h : Ok noforget s) (heap : PathHeap) {nodeid : Nat} {name : Option FileName}
    {wr : Bool} {ticket : Int} (hasked : PathAsked s nodeid name wr) (hticket : ticket ≠ 0) :
    Serves noforget s (.getPath heap nodeid name wr ticket)
      (exec noforget s (.getPath heap nodeid name wr ticket)) := by
  have hgets := h.lockPath hasked heap hticket
  rw [exec]
  generalize tryGetPath heap s.table nodeid name wr ticket = r at hgets
  cases hgets with
  | locked hok hrelock hat hpath => exact .of_path hok (.path hpath) hrelock.keeps hat rfl rfl rfl
  | failed hok hrelock hat => exact .of_path hok .noPath hrelock.keeps hat rfl rfl rfl
  | endless hlong => exact .endless List.mem_cons_self hlong

/-- The second path is asked for while the first one is locked. -/
theorem Ok.serves_getPath2 (h : Ok noforget s) (heap1 heap2 : PathHeap) {nodeid1 nodeid2 : Nat}
    {name1 name2 : Option FileName} {wr : Bool} {ticket : Int}
    (hasked1 : PathAsked s nodeid1 name1 wr) (hasked2 : PathAsked s nodeid2 name2 wr)
    (hne : wr = true → (nodeid1, name1) ≠ (nodeid2, name2)) (hticket : ticket ≠ 0) :
    Serves noforget s (.getPath2 heap1 heap2 nodeid1 name1 nodeid2 name2 wr ticket)
      (exec noforget s (.getPath2 heap1 heap2 nodeid1 name1 nodeid2 name2 wr ticket)) := by
  have hgets := h.lockPaths hasked1 hasked2 hne heap1 heap2 hticket
  rw [exec]
  generalize tryGetPath2 heap1 heap2 s.table nodeid1 name1 nodeid2 name2 wr ticket = r at hgets
  cases hgets with
  | failed hok hrelock hat => exact .of_path hok .noPaths hrelock.keeps hat rfl rfl rfl
  | locked hok hkeeps hat hpath1 hpath2 =>
      exact .of_path hok (.paths hpath1 hpath2) hkeeps hat rfl rfl rfl
  | endless hmem hlong => exact .endless hmem hlong

theorem Ok.serves_freePath (h : Ok noforget s) {p : PathHold} (hp : p ∈ s.paths) :
    Serves noforget s (.freePath p) (exec noforget s (.freePath p)) := by
  obtain ⟨t, hrun, hok, hrelock, hat, -⟩ := h.unlock hp 0
  simp only [exec, hrun, ok_bind]
  exact .of_path hok .freed hrelock.keeps hat rfl rfl rfl

theorem generationOf_status (t : Table) (i : Nat) :
    t.generationOf i = ((t.status i).map Status.generation).getD 0 := by
  rw [Table.generationOf, Table.status, Option.map_map]
  rfl

theorem generationOf_lookedUp {status : Nat → Option Status} {t : Table} {i : Nat} {st : Status}
    (hstatus : t.status = Function.update status i (some st.lookedUp)) :
    t.generationOf i = st.generation := by
  rw [generationOf_status, hstatus, Function.update_self]
  rfl

theorem Ok.serves_findNode (h : Ok noforget s) (mem : NodeMem) {p : PathHold} (hp : p ∈ s.paths)
    {name : Option FileName} (hname : ∀ n, name = some n → IsName n ∧ (p.nodeid, n) ∉ s.slots) :
    Serves noforget s (.findNode mem p name) (exec noforget s (.findNode mem p name)) := by
  obtain ⟨stp, hstp, hnep⟩ := h.status_of_path hp
  rw [exec]
  cases name with
  | none =>
      obtain ⟨t, hrun, hdid, hstatus⟩ := h.shaped.findSelf noforget mem hstp
      simp only [hrun, ok_bind]
      have hquiet := hdid.quiet hstp (.of_eq s.hold hstatus) rfl rfl
      exact .of_ids (h.looksUp hstp hnep hdid hstatus) (.known rfl) hdid.at_ rfl
        (.known hquiet.keeps hstp (generationOf_lookedUp hstatus).symm) fun _ => hquiet.tickets
  | some name =>
      obtain ⟨hisName, hslot⟩ := hname name rfl
      have hfinds := h.shaped.findNode h.inRange noforget mem (isSome_of_status hstp) name
      generalize NodeTable.findNode noforget mem s.table p.nodeid (some name) = r at hfinds
      cases hfinds with
      | @known i st t hat hst hdid hstatus =>
          obtain ⟨st', hst', hne⟩ := h.status_of_at hat
          rw [hst] at hst'
          cases hst'
          have hquiet := hdid.quiet hst (.of_eq s.hold hstatus) rfl rfl
          exact .of_ids (h.looksUp hst hne hdid hstatus) (.known hat) hdid.at_ rfl
            (.known hquiet.keeps hst (generationOf_lookedUp hstatus).symm) fun _ => hquiet.tickets
      | @noMem t hshaped hat hstatus hcount =>
          have hrange : t.InRange := by
            rcases hcount with rfl | hcount
            · exact h.inRange
            · exact hcount.inRange
          have hok : Ok noforget { s with table := t } :=
            .of_spared hshaped hat (.of_eq _ hstatus) (fun _ => rfl) hrange h.clean h.counts h.paths
          refine .of_ids hok .noMem hat rfl ?_ fun _ j st st' hst hst' => ?_
          · rcases hcount with rfl | hcount
            · exact .kept (Table.Quiet.refl _).keeps rfl
            · exact .unused hcount
          · have heq : t.status j = some st := by rw [hstatus, hst]
            rw [show t.status j = some st' from hst'] at heq
            cases heq
            rfl
      | @new t₁ t hfree hcount hdid hstatus =>
          have hok := h.makes hisName hslot hcount hdid hstatus
          have hgeneration : t.generationOf t₁.ctr = t₁.generation := by
            rw [generationOf_status, hstatus, Function.update_self]
            rfl
          simp only [ok_bind, hgeneration]
          refine .of_ids hok (.new hfree ?_ ?_ ?_ ?_) hdid.at_ rfl
            (.new hcount hdid.ctr hdid.generation hstatus) fun _ j st st' hst hst' => ?_
          · intro hroot
            obtain ⟨node, hnode, -⟩ := h.shaped.root
            rw [← hroot, hcount.new.free] at hnode
            cases hnode
          · apply (h.counts.dead _).1
            rw [Table.status, hcount.new.free]
            rfl
          · show s.table.at_ t₁.ctr = none
            rw [Table.at_, hcount.new.free]
            rfl
          · apply Set.eq_empty_of_forall_notMem
            rintro c ⟨n, hc⟩
            have hsome := h.shaped.parent hc
            rw [hcount.new.free] at hsome
            cases hsome
          · have hj : j ≠ t₁.ctr := by
              rintro rfl
              rw [Table.status, hcount.new.free] at hst
              cases hst
            have heq : t.status j = some st := by rw [hstatus, Function.update_of_ne hj, hst]
            rw [show t.status j = some st' from hst'] at heq
            cases heq
            rfl
      | noIds hfull => exact .noIds rfl hfull

theorem Ok.serves_forgetNode (h : Ok noforget s) {nodeid nlookup : Nat}
    (hallowed : nodeid = fuseRootId ∨ 0 < s.held nodeid ∧ nlookup ≤ s.held nodeid ∧
      (nlookup = s.held nodeid → s.opens nodeid = 0)) :
    Serves noforget s (.forgetNode nodeid nlookup) (exec noforget s (.forgetNode nodeid nlookup)) := by
  rw [exec]
  by_cases hwaits : forgetWaits s.table nodeid nlookup
  case pos =>
      rw [if_pos hwaits]
      exact .of h .waits (.refl _) rfl rfl rfl
  case neg =>
  rw [if_neg hwaits]
  by_cases hroot : nodeid = fuseRootId
  case pos =>
      subst hroot
      simp only [NodeTable.forgetNode, if_true]
      exact .of h .forgotRoot (.refl _) rfl rfl rfl
  case neg =>
  obtain ⟨hpos, hle, hopens⟩ := hallowed.resolve_left hroot
  obtain ⟨node, hnode⟩ := Option.isSome_iff_exists.mp (h.live (.inr (.inl hpos)))
  have hst := Table.status_of_nodes hnode
  have hcount := h.counts.node hst
  have hknown : s.held nodeid ≤ node.nlookup := hcount.known hroot
  by_cases hlast : nlookup < node.nlookup
  case pos =>
      obtain ⟨t, hrun, hdid, hstatus⟩ := h.shaped.forget_some hroot hst hlast
      simp only [hrun, ok_bind, if_neg hroot]
      refine .of (h.forgetsSome hroot hst hlast hle hopens hdid hstatus) (.forgot hroot)
        (hdid.quiet hst (.of_eq s.hold hstatus) rfl rfl) ?_ rfl rfl
      rw [hdid.at_]
      have hnot : ¬ (s.held nodeid = nlookup ∧ noforget = false) := by
        rintro ⟨heq, hforget⟩
        have hexact : node.nlookup = s.held nodeid := hcount.exact hroot hforget
        omega
      exact (if_neg hnot).symm
  case neg =>
      have heq : nlookup = node.nlookup := by omega
      have hheld : s.held nodeid = node.nlookup := by omega
      have hlock : node.treelock = 0 := by
        by_contra hne
        apply hwaits
        rw [forgetWaits, hnode]
        exact decide_eq_true ⟨hroot, heq.symm, hne⟩
      obtain ⟨t, hrun, hat, hquiet, hok⟩ :=
        h.forgetsLast hroot hst hlock hheld hpos (hopens (heq.trans hheld.symm))
      have hrun' : NodeTable.forgetNode s.table nodeid nlookup = .ok t := by
        rw [heq]
        exact hrun
      have hzero : s.held nodeid - nlookup = 0 := by omega
      simp only [hrun', ok_bind, if_neg hroot]
      rw [hzero]
      refine .of hok (.forgot hroot) hquiet ?_ ?_ rfl
      · rw [hat]
        by_cases hforget : noforget = false
        · exact (if_pos ⟨hheld.trans heq.symm, hforget⟩).symm
        · -- without `forget`, a file that has a place is never forgotten
          have hplace : s.table.at_ nodeid = none := by
            by_contra hplace
            have hkept : node.nlookup = s.held nodeid + 1 :=
              hcount.kept hroot (by simpa using hforget) hplace
            omega
          rw [Forest.detach_of_none hplace]
          exact (if_neg fun hboth => hforget hboth.2).symm
      · show Function.update s.held nodeid 0 = Function.update s.held nodeid (s.held nodeid - nlookup)
        rw [hzero]

theorem vacate_of_free {forest : Forest Nat FileName} {x : Nat × FileName}
    (hfree : ∀ i, forest i ≠ some x) : vacate forest x = forest :=
  funext fun i => if_neg (hfree i)

/-- There is only one node to be taken from a place. -/
theorem Shaped.vacate {t : Table} {hold : Nat → Nat} (h : Shaped t hold) {i : Nat}
    {x : Nat × FileName} (hat : t.at_ i = some x) : vacate t.at_ x = t.at_.detach i := by
  funext j
  by_cases hj : j = i
  · rw [hj, Forest.detach_self]
    exact if_pos hat
  · rw [Forest.detach_of_ne hj]
    exact if_neg fun heq => hj (h.unique heq hat)

/-- A request that is to change a place has its name. -/
theorem exists_name {p : PathHold} (h : p.slot ≠ none) :
    ∃ name, p.name = some name ∧ p.slot = some (p.nodeid, name) := by
  rw [PathHold.slot] at h ⊢
  by_cases hpending : p.pending
  · rw [if_pos hpending] at h ⊢
    cases hname : p.name with
    | none =>
        rw [hname] at h
        exact absurd rfl h
    | some name => exact ⟨name, rfl, rfl⟩
  · rw [if_neg hpending] at h
    exact absurd rfl h

theorem Ok.serves_removeNode (h : Ok noforget s) {p : PathHold} (hp : p ∈ s.paths)
    (hslot : p.slot ≠ none) (hlooked : LookedUpAt noforget s p) :
    Serves noforget s (.removeNode p) (exec noforget s (.removeNode p)) := by
  obtain ⟨name, hname, hslot⟩ := exists_name hslot
  simp only [exec, hname, NodeTable.removeNode]
  rcases h.shaped.lookup p.nodeid name with ⟨i, hlook, hat⟩ | ⟨hlook, hfree⟩
  · obtain ⟨t, hrun, hat', hquiet, hok⟩ := h.unlinks hp (h.paths.slot p hp _ i hslot hat) hat
      fun hforget => hlooked hforget i name hname hat
    simp only [hlook, ok_bind, hrun]
    refine .of (hok.setPaths (hok.paths.settle hp)) (.removed hname) hquiet ?_ rfl rfl
    exact hat'.trans (h.shaped.vacate hat).symm
  · simp only [hlook, ok_bind]
    refine .of (h.setPaths (h.paths.settle hp)) (.removed hname) (.refl _) ?_ rfl rfl
    exact (vacate_of_free hfree).symm

/-- A node goes to a place that is free, and its place is free then. -/
theorem moves_of {forest : Forest Nat FileName} {i : Nat} {x : Nat × FileName}
    (hat : forest i = some x) (y : Nat × FileName) (strdup : Bool) :
    Moves forest x y (if strdup then 0 else -eNoMem)
      (if strdup then forest.attach i y.1 y.2 else forest.detach i) := by
  cases strdup with
  | false => exact .noMem hat
  | true => exact .moved hat

/-- Both requests of a rename have changed their places. -/
theorem PathsOk.settle_both {forest : Forest Nat FileName} {status : Nat → Option Status}
    {paths : List PathHold} (h : PathsOk forest status paths) {p p' : PathHold} (hp : p ∈ paths)
    (hp' : p' ∈ paths.erase p) :
    PathsOk forest status (p.settled :: p'.settled :: (paths.erase p).erase p') := by
  have hperm : (p.settled :: paths.erase p).Perm
      (p' :: p.settled :: (paths.erase p).erase p') :=
    ((List.perm_cons_erase hp').cons _).trans (.swap ..)
  exact (((h.settle hp).perm hperm).settle_head).perm (.swap ..)

theorem Ok.serves_renameNode (h : Ok noforget s) (strdup : Bool) {p p' : PathHold}
    (hp : p ∈ s.paths) (hp' : p' ∈ s.paths.erase p) (hslot : p.slot ≠ none) (hslot' : p'.slot ≠ none)
    (hlooked : LookedUpAt noforget s p') :
    Serves noforget s (.renameNode strdup p p') (exec noforget s (.renameNode strdup p p')) := by
  obtain ⟨oldname, hold, hslot⟩ := exists_name hslot
  obtain ⟨newname, hnew, hslot'⟩ := exists_name hslot'
  have hmem' : p' ∈ s.paths := List.mem_of_mem_erase hp'
  let paths := p.settled :: p'.settled :: (s.paths.erase p).erase p'
  have hpaths : PathsOk s.table.at_ s.table.status paths := h.paths.settle_both hp hp'
  -- the places are not to be changed any more, and there are two of them
  have hslots : s.paths.filterMap PathHold.slot |>.Perm
      ((p.nodeid, oldname) :: (p'.nodeid, newname) ::
        ((s.paths.erase p).erase p').filterMap PathHold.slot) := by
    have hperm := ((List.perm_cons_erase hp).trans ((List.perm_cons_erase hp').cons p)).filterMap
      PathHold.slot
    rwa [List.filterMap_cons_some hslot, List.filterMap_cons_some hslot'] at hperm
  have hnodup := hslots.nodup_iff.mp h.paths.nodup
  have hdistinct : (p.nodeid, oldname) ≠ (p'.nodeid, newname) := by
    intro heq
    exact (List.nodup_cons.mp hnodup).1 (heq ▸ List.mem_cons_self)
  have hfreed : (p'.nodeid, newname) ∉ paths.filterMap PathHold.slot := by
    rw [List.filterMap_cons_none (slot_settled p), List.filterMap_cons_none (slot_settled p')]
    exact (List.nodup_cons.mp (List.nodup_cons.mp hnodup).2).1
  -- a node that moves after the other one has gone
  have hmoves : ∀ {t : Table} {i : Nat}, Ok noforget { s with table := t, paths := paths } →
      t.at_ i = some (p.nodeid, oldname) → p.wnode = some i →
      t.at_ = vacate s.table.at_ (p'.nodeid, newname) → s.table.Quiet t →
      Serves noforget s (.renameNode strdup p p')
        (moveNode strdup t i p'.nodeid newname false >>= fun r =>
          .ok (.err r.1, { s with table := r.2, paths := paths })) := by
    intro t i hok hat hown hvacate hquiet
    have hfree : ∀ j, t.at_ j ≠ some (p'.nodeid, newname) := by
      intro j hj
      rw [hvacate, vacate] at hj
      split at hj
      · cases hj
      · rename_i hne
        exact hne hj
    have hp₀ : p.settled ∈ paths := List.mem_cons_self
    have hp₀' : p'.settled ∈ paths := List.mem_cons_of_mem _ List.mem_cons_self
    obtain ⟨t', hrun, hat', hquiet', hok'⟩ := hok.moves hp₀ hown hat hp₀'
      (h.paths.isName p' hmem' newname hnew) hfree hfreed strdup false
    have hrun' : moveNode strdup t i p'.nodeid newname false =
        .ok (if strdup then 0 else -eNoMem, t') := hrun
    have hplace : vacate s.table.at_ (p'.nodeid, newname) i = some (p.nodeid, oldname) :=
      hvacate ▸ hat
    rw [hrun', ok_bind]
    refine .of hok' (.renamed hold hnew (moves_of hplace _ strdup)) (hquiet.trans hquiet') ?_ rfl rfl
    rw [hat', hvacate]
    rfl
  simp only [exec, hold, hnew, NodeTable.renameNode]
  rcases h.shaped.lookup p.nodeid oldname with ⟨i, hlook, hat⟩ | ⟨hlook, hnone⟩
  case inr =>
      rcases h.shaped.lookup p'.nodeid newname with ⟨j, hlook', -⟩ | ⟨hlook', -⟩
      · simp only [hlook, hlook', ok_bind]
        exact .of (h.setPaths hpaths) (.unknown hold hnone) (.refl _) rfl rfl rfl
      · simp only [hlook, hlook', ok_bind]
        exact .of (h.setPaths hpaths) (.unknown hold hnone) (.refl _) rfl rfl rfl
  case inl =>
  have hown : p.wnode = some i := h.paths.slot p hp _ i hslot hat
  rcases h.shaped.lookup p'.nodeid newname with ⟨j, hlook', hat'⟩ | ⟨hlook', hnone⟩
  · obtain ⟨t, hrun, hdetach, hquiet, hok⟩ := h.unlinks hmem' (h.paths.slot p' hmem' _ j hslot' hat') hat'
      fun hforget => hlooked hforget j newname hnew hat'
    have hij : i ≠ j := by
      rintro rfl
      rw [hat] at hat'
      exact hdistinct (Option.some.inj hat')
    simp only [hlook, hlook', ok_bind, if_neg Bool.false_ne_true, hrun]
    have hvacate : t.at_ = vacate s.table.at_ (p'.nodeid, newname) :=
      hdetach.trans (h.shaped.vacate hat').symm
    have hat₁ : t.at_ i = some (p.nodeid, oldname) := by
      rw [hdetach, Forest.detach_of_ne hij]
      exact hat
    exact hmoves (hok.setPaths (hok.paths.settle_both hp hp')) hat₁ hown hvacate hquiet
  · simp only [hlook, hlook', ok_bind]
    exact hmoves (h.setPaths hpaths) hat hown (vacate_of_free hnone).symm (.refl _)

theorem Ok.serves_hideNode (h : Ok noforget s) (strdup : Bool) {p : PathHold} (hp : p ∈ s.paths)
    (hslot : p.slot ≠ none) {newname : FileName} (hname : IsName newname)
    (hfreed : (p.nodeid, newname) ∉ s.slots) :
    Serves noforget s (.hideNode strdup p newname) (exec noforget s (.hideNode strdup p newname)) := by
  obtain ⟨oldname, hold, hslot⟩ := exists_name hslot
  simp only [exec, hold, NodeTable.renameNode]
  rcases h.shaped.lookup p.nodeid oldname with ⟨i, hlook, hat⟩ | ⟨hlook, hnone⟩
  case inr =>
      rcases h.shaped.lookup p.nodeid newname with ⟨j, hlook', -⟩ | ⟨hlook', -⟩
      · simp only [hlook, hlook', ok_bind]
        exact .of h (.nothing hold hnone) (.refl _) rfl rfl rfl
      · simp only [hlook, hlook', ok_bind]
        exact .of h (.nothing hold hnone) (.refl _) rfl rfl rfl
  case inl =>
  rcases h.shaped.lookup p.nodeid newname with ⟨j, hlook', hat'⟩ | ⟨hlook', hfree⟩
  · simp only [hlook, hlook', ok_bind, if_true]
    exact .of h (.notHid hat') (.refl _) rfl rfl rfl
  · obtain ⟨t, hrun, hplace, hquiet, hok⟩ := h.moves hp (h.paths.slot p hp _ i hslot hat) hat hp hname hfree
      hfreed strdup true
    simp only [hlook, hlook', ok_bind, hrun]
    exact .of hok (.hid hold hfree (moves_of hat _ strdup)) hquiet hplace rfl rfl

/-- A file is opened or closed, and its node written. -/
theorem Ok.setsOpens (h : Ok noforget s) {i : Nat} {node : Node} (hnode : s.table.nodes i = some node)
    {openCount : Int} {opens : Nat} (heq : openCount = opens) (isHidden : Bool)
    (hopen : 0 < opens → 0 < s.held i) :
    Ok noforget { s with
      table := s.table.set i { node with openCount := openCount, isHidden := isHidden }
      opens := Function.update s.opens i opens } := by
  have hst := Table.status_of_nodes hnode
  have hcount := h.counts.node hst
  let node' : Node := { node with openCount := openCount, isHidden := isHidden }
  obtain ⟨hdid, hstatus⟩ := h.shaped.write hnode node' rfl rfl
  apply Ok.of_spared hdid.shaped hdid.at_ (.of_eq _ hstatus) _ (hdid.inRange h.inRange) h.clean
  · apply h.counts.update (fun _ _ => rfl) (fun _ _ => rfl) (fun j hj => Function.update_of_ne hj _ _)
    rw [Function.update_self]
    exact ⟨hcount.looked, hcount.known, hcount.exact, hcount.kept, heq, hopen⟩
  · exact h.paths.update hst rfl
  · intro j
    rw [lookedIn_update]
    by_cases hj : j = i
    · subst hj
      rw [if_pos rfl, Sys.hold, lookedIn, hst]
      rfl
    · rw [if_neg hj]
      rfl

theorem Ok.serves_openNode (h : Ok noforget s) {ino : Nat} (hheld : 0 < s.held ino) :
    Serves noforget s (.openNode ino) (exec noforget s (.openNode ino)) := by
  obtain ⟨node, hnode⟩ := Option.isSome_iff_exists.mp (h.live (.inr (.inl hheld)))
  have hopened : node.openCount = s.opens ino := (h.counts.node (Table.status_of_nodes hnode)).opened
  have hmore : node.openCount + 1 = ((s.opens ino + 1 : Nat) : Int) := by omega
  simp only [exec, NodeTable.openNode, getNode_ok hnode, ok_bind]
  exact .of (h.setsOpens hnode hmore node.isHidden fun _ => hheld) .opened (.set hnode rfl rfl)
    (Table.at_set_eq hnode rfl) rfl rfl

theorem Ok.serves_release (h : Ok noforget s) {ino : Nat} (hpos : 0 < s.opens ino) :
    Serves noforget s (.release ino) (exec noforget s (.release ino)) := by
  have hheld : 0 < s.held ino := by
    cases hst : s.table.status ino with
    | none =>
        obtain ⟨-, hopens, -⟩ := h.counts.dead hst
        omega
    | some st => exact (h.counts.node hst).openHeld hpos
  obtain ⟨node, hnode⟩ := Option.isSome_iff_exists.mp (h.live (.inr (.inl hheld)))
  have hopened : node.openCount = s.opens ino := (h.counts.node (Table.status_of_nodes hnode)).opened
  have hless : node.openCount - 1 = ((s.opens ino - 1 : Nat) : Int) := by omega
  simp only [exec, fuseDoRelease, getNode_ok hnode, ok_bind]
  rw [if_neg (by omega)]
  by_cases hlast : node.isHidden ∧ node.openCount - 1 = 0
  · simp only [if_pos hlast]
    exact .of (h.setsOpens hnode hless false fun _ => hheld) .released (.set hnode rfl rfl)
      (Table.at_set_eq hnode rfl) rfl rfl
  · simp only [if_neg hlast]
    exact .of (h.setsOpens hnode hless node.isHidden fun _ => hheld) .released (.set hnode rfl rfl)
      (Table.at_set_eq hnode rfl) rfl rfl

theorem Ok.serves_refNode (h : Ok noforget s) (nodeid : Nat) :
    Serves noforget s (.refNode nodeid) (exec noforget s (.refNode nodeid)) := by
  rw [exec, NodeTable.refNode]
  cases hnode : s.table.nodes nodeid with
  | none => exact .of h .stale (.refl _) rfl rfl rfl
  | some node =>
      obtain ⟨hrefs, hpos⟩ := h.shaped.refs hnode
      have hshaped : Shaped (s.table.set nodeid { node with refctr := node.refctr + 1 })
          (bump s.hold nodeid) :=
        h.shaped.setRefctr hnode (fun j hj => bump_of_ne hj) (by omega) (by rw [bump_self]; omega)
      have hat : (s.table.set nodeid { node with refctr := node.refctr + 1 }).at_ = s.table.at_ :=
        Table.at_set_eq hnode rfl
      have hstatus : (s.table.set nodeid { node with refctr := node.refctr + 1 }).status =
          s.table.status := Table.status_set_eq hnode rfl
      refine .of (Ok.of_spared hshaped hat (.of_eq _ hstatus) ?_ h.inRange h.clean ?_ h.paths) .ref
        (.set hnode rfl rfl) hat rfl rfl
      · intro j
        by_cases hj : j = nodeid
        · subst hj
          rw [bump_self, bump_self]
          rfl
        · rw [bump_of_ne hj, bump_of_ne hj]
          rfl
      · apply h.counts.setRefs
        intro j hnone
        have hj : j ≠ nodeid := by
          rintro rfl
          rw [Table.status_of_nodes hnode] at hnone
          cases hnone
        rw [bump_of_ne hj]
        exact (h.counts.dead hnone).2.2

theorem Ok.serves_unrefNode (h : Ok noforget s) {nodeid : Nat} (hpos : 0 < s.refs nodeid) :
    Serves noforget s (.unrefNode nodeid) (exec noforget s (.unrefNode nodeid)) := by
  obtain ⟨node, hnode⟩ := Option.isSome_iff_exists.mp (h.live (.inr (.inr hpos)))
  let hold := Function.update s.hold nodeid (s.hold nodeid - 1)
  have hself : hold nodeid = s.hold nodeid - 1 := Function.update_self ..
  have hothers : ∀ j, j ≠ nodeid → hold j = s.hold j := fun j hj => Function.update_of_ne hj _ _
  have hsum : s.hold nodeid = lookedIn s.table.status nodeid + s.refs nodeid := rfl
  have hbump : bump hold nodeid = s.hold := by
    funext j
    by_cases hj : j = nodeid
    · subst hj
      rw [bump_self, hself]
      omega
    · rw [bump_of_ne hj, hothers j hj]
  have hidle : Idle s.table hold nodeid := by
    intro hzero
    apply h.idle_of_unlooked
    omega
  obtain ⟨t, hrun, hdid, hspared⟩ := Shaped.unref (hbump.symm ▸ h.shaped) hnode hidle
  simp only [exec, hrun, ok_bind]
  refine .of (Ok.of_spared hdid.shaped hdid.at_ hspared ?_ (hdid.inRange h.inRange) h.clean ?_ h.paths)
    .unref ⟨hdid.ctr, hdid.generation, fun hst => ⟨_, hspared.some hst, rfl, rfl⟩⟩ hdid.at_ rfl rfl
  · intro j
    by_cases hj : j = nodeid
    · subst hj
      rw [hself, Function.update_self]
      omega
    · rw [hothers j hj, Function.update_of_ne hj]
      rfl
  · apply h.counts.setRefs
    intro j hnone
    have hzero := (h.counts.dead hnone).2.2
    have hj : j ≠ nodeid := by
      rintro rfl
      omega
    rw [Function.update_of_ne hj]
    exact hzero

/-- Every section that keeps to the rules is served. -/
theorem Ok.serves (h : Ok noforget s) (ha : Allowed noforget s a) :
    Serves noforget s a (exec noforget s a) := by
  cases a with
  | getPath heap nodeid name wr ticket => exact h.serves_getPath heap ha.1 ha.2
  | getPath2 heap1 heap2 nodeid1 name1 nodeid2 name2 wr ticket =>
      obtain ⟨hasked1, hasked2, hne, hticket⟩ := ha
      exact h.serves_getPath2 heap1 heap2 hasked1 hasked2 hne hticket
  | freePath p => exact h.serves_freePath ha
  | findNode mem p name => exact h.serves_findNode mem ha.1 ha.2
  | forgetNode nodeid nlookup => exact h.serves_forgetNode ha
  | removeNode p => exact h.serves_removeNode ha.1 ha.2.1 ha.2.2
  | renameNode strdup p p' =>
      obtain ⟨hp, hp', hslot, hslot', hlooked⟩ := ha
      exact h.serves_renameNode strdup hp hp' hslot hslot' hlooked
  | hideNode strdup p newname =>
      obtain ⟨hp, hslot, hname, hfreed⟩ := ha
      exact h.serves_hideNode strdup hp hslot hname hfreed
  | openNode ino => exact h.serves_openNode ha
  | release ino => exact h.serves_release ha
  | refNode nodeid => exact h.serves_refNode nodeid
  | unrefNode nodeid => exact h.serves_unrefNode ha

/-- A step keeps the state in order, and is a step of the names. -/
theorem Ok.step {l : Section × Reply} {s' : Sys} (h : Ok noforget s)
    (hstep : SectionStep noforget s l s') :
    Ok noforget s' ∧ NamesStep noforget s.names l s'.names ∧
      IdsStep noforget s.table l.1 l.2 s'.table ∧
      (l.1.locks = false → ∀ i st st', s.table.status i = some st → s'.table.status i = some st' →
        st'.ticket = st.ticket) := by
  obtain ⟨a, r⟩ := l
  obtain ⟨ha, hrun⟩ := hstep
  have hserves := h.serves ha
  rw [hrun] at hserves
  cases hserves with
  | ok hok hnames hids htickets => exact ⟨hok, hnames, hids, htickets⟩

/-- The state is in order in every run. -/
theorem ok_of_run {tr : List (Sys × (Section × Reply))}
    (hrun : Run (SectionStep noforget) Sys.new tr s) : Ok noforget s :=
  hrun.always (ok_new noforget) fun _ _ _ h hstep => (h.step hstep).1

end Served

end FuseNt.NodeTable
