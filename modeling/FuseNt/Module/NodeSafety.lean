/-
  FuseNt.Module.NodeSafety

  What holds in every run, in whatever order the sections of the requests come.

  The process goes on; what the kernel and the requests are told is what the
  names say; a path that a request has been given stays the path of its node
  until it gives it back; nobody works below a node that is being moved; and no
  node is lost or kept longer than somebody needs it.
-/

import FuseNt.Module.NodeService

namespace FuseNt.NodeTable

open FuseNt.Lib

-- ============================================================================
-- A run
-- ============================================================================

theorem PathAsked.read {s : Sys} {nodeid : Nat} (hknown : s.Known nodeid) :
    PathAsked s nodeid none false where
  known := hknown
  isName := by
    rintro n ⟨⟩
  named := by
    rintro ⟨⟩
  locked := by
    rintro n ⟨⟩

/-- The state after a section. -/
def Sys.after (s : Sys) (a : Section) : Sys :=
  match exec false s a with
  | .ok (_, s') => s'
  | .error _ => s

-- "/a/b" is looked up, and "a" is renamed to "c"; the results below are tried on this run.
namespace Tour

def heap : PathHeap := ⟨fun _ => true, fun _ => 0⟩

def root : PathHold := ⟨1, none, [slash], none, [], false⟩

def dir : PathHold := ⟨2, none, [slash, 0x61], none, [(2, [0x61])], false⟩

def old : PathHold := ⟨1, some [0x61], [slash, 0x61], some 2, [], true⟩

def new : PathHold := ⟨1, some [0x63], [slash, 0x63], none, [], true⟩

def s1 : Sys := Sys.new.after (.getPath heap 1 none false 1)
def s2 : Sys := s1.after (.findNode ⟨true, true⟩ root (some [0x61]))
def s3 : Sys := s2.after (.getPath heap 2 none false 2)
def s4 : Sys := s3.after (.findNode ⟨true, true⟩ dir (some [0x62]))
def s5 : Sys := s4.after (.freePath dir)
def s6 : Sys := s5.after (.getPath2 heap heap 1 (some [0x61]) 1 (some [0x63]) true 3)
def s7 : Sys := s6.after (.getPath heap 3 none false 4)
def s8 : Sys := s7.after (.renameNode true old new)

set_option maxRecDepth 100000

theorem step1 : SectionStep false Sys.new
    (.getPath heap 1 none false 1, .path (.locked [slash] none)) s1 :=
  ⟨⟨.read (.inl rfl), by decide⟩, by rfl⟩

theorem step2 : SectionStep false s1
    (.findNode ⟨true, true⟩ root (some [0x61]), .entry (some (2, 0))) s2 := by
  refine ⟨⟨by decide, ?_⟩, by rfl⟩
  rintro n ⟨⟩
  exact ⟨by decide, by decide⟩

theorem step3 : SectionStep false s2
    (.getPath heap 2 none false 2, .path (.locked [slash, 0x61] none)) s3 :=
  ⟨⟨.read (.inr (.inl (by decide))), by decide⟩, by rfl⟩

theorem step4 : SectionStep false s3
    (.findNode ⟨true, true⟩ dir (some [0x62]), .entry (some (3, 0))) s4 := by
  refine ⟨⟨by decide, ?_⟩, by rfl⟩
  rintro n ⟨⟩
  exact ⟨by decide, by decide⟩

theorem step5 : SectionStep false s4 (.freePath dir, .done) s5 :=
  ⟨(by decide : dir ∈ s4.paths), by rfl⟩

theorem asked6 {name : FileName} (hname : IsName name) : PathAsked s5 1 (some name) true where
  known := .inl rfl
  isName := by
    rintro n ⟨⟩
    exact hname
  named _ := Option.some_ne_none _
  locked := by
    intro n _ _
    rw [show s5.slots = [] by rfl]
    exact List.not_mem_nil

theorem step6 : SectionStep false s5
    (.getPath2 heap heap 1 (some [0x61]) 1 (some [0x63]) true 3,
      .path2 (.locked [slash, 0x61] (some 2) [slash, 0x63] none)) s6 :=
  ⟨⟨asked6 (by decide), asked6 (by decide), fun _ => by decide, by decide⟩, by rfl⟩

theorem step7 : SectionStep false s6
    (.getPath heap 3 none false 4, .path (.failed (-eAgain))) s7 :=
  ⟨⟨.read (.inr (.inl (by decide))), by decide⟩, by rfl⟩

theorem step8 : SectionStep false s7 (.renameNode true old new, .err 0) s8 := by
  refine ⟨⟨by decide, by decide, by decide, by decide, ?_⟩, by rfl⟩
  rintro ⟨⟩

theorem run4 : ∃ tr, Run (SectionStep false) Sys.new tr s4 :=
  ⟨_, .snoc (.snoc (.snoc (.snoc .nil step1) step2) step3) step4⟩

theorem run6 : ∃ tr, Run (SectionStep false) Sys.new tr s6 := by
  obtain ⟨tr, hrun⟩ := run4
  exact ⟨_, .snoc (.snoc hrun step5) step6⟩

theorem run7 : ∃ tr, Run (SectionStep false) Sys.new tr s7 := by
  obtain ⟨tr, hrun⟩ := run6
  exact ⟨_, hrun.snoc step7⟩

end Tour

section Safety

variable {noforget : Bool} {s s' : Sys} {tr : List (Sys × (Section × Reply))} {a : Section}

/-- No assertion fails, nothing is aborted and no pointer is stale.  A section
    comes to an end unless all ids are in use, or a path is as long as the
    address space of 32 bits. -/
theorem section_goes_on (hrun : Run (SectionStep noforget) Sys.new tr s) (ha : Allowed noforget s a) :
    (∃ r s', exec noforget s a = .ok (r, s')) ∨
      (exec noforget s a = .error .noIds ∧ (∃ mem p name, a = .findNode mem p (some name)) ∧
        ∀ i, 0 < i → i < fuseUnknownIno → (s.table.nodes i).isSome) ∨
      exec noforget s a = .error (.path .endless) ∧ ∃ x ∈ a.asked, TooLong s x.1 x.2 := by
  have hserves := (ok_of_run hrun).serves ha
  generalize exec noforget s a = result at hserves
  cases hserves with
  | ok => exact .inl ⟨_, _, rfl⟩
  | @noIds mem p name heq hfull =>
      refine .inr (.inl ⟨rfl, ⟨mem, p, name, heq⟩, fun i hpos hlt => ?_⟩)
      by_contra hnone
      exact hfull i ⟨hpos, hlt, by simpa using hnone⟩
  | endless hmem hlong => exact .inr (.inr ⟨rfl, _, hmem, hlong⟩)

theorem section_goes_on_rename :
    (∃ r s', exec false Tour.s7 (.renameNode true Tour.old Tour.new) = .ok (r, s')) ∨
      (exec false Tour.s7 (.renameNode true Tour.old Tour.new) = .error .noIds ∧
        (∃ mem p name, Section.renameNode true Tour.old Tour.new = .findNode mem p (some name)) ∧
        ∀ i, 0 < i → i < fuseUnknownIno → (Tour.s7.table.nodes i).isSome) ∨
      exec false Tour.s7 (.renameNode true Tour.old Tour.new) = .error (.path .endless) ∧
        ∃ x ∈ Section.asked (.renameNode true Tour.old Tour.new), TooLong Tour.s7 x.1 x.2 := by
  obtain ⟨tr, hrun⟩ := Tour.run7
  exact section_goes_on hrun Tour.step8.1

/-- What is asked and replied in a run is asked and replied in a run of the
    names, and the nodes stand for its names. -/
theorem names_of_run (hrun : Run (SectionStep noforget) Sys.new tr s) :
    ∃ tr', Run (NamesStep noforget) Names.new tr' s.names ∧ labels tr' = labels tr := by
  have hsim : Simulates (SectionStep noforget) (NamesStep noforget) (fun _ => True)
      (fun s n => Ok noforget s ∧ n = s.names) Sys.new Names.new := by
    constructor
    · refine ⟨ok_new noforget, ?_⟩
      show _ = Names.mk fuseNewCommon.at_ _
      rw [at_new]
      rfl
    · rintro s _ l s' ⟨hok, rfl⟩ - hstep
      obtain ⟨hok', hnames, -, -⟩ := hok.step hstep
      exact ⟨s'.names, hnames, hok', rfl⟩
  obtain ⟨tr', n, hspec, ⟨-, rfl⟩, hlabels⟩ := hsim.run hrun fun _ _ => trivial
  exact ⟨tr', hspec, hlabels⟩

theorem names_of_run_rename : ∃ tr tr', Run (SectionStep false) Sys.new tr Tour.s8 ∧
    Run (NamesStep false) Names.new tr' Tour.s8.names ∧ labels tr' = labels tr := by
  obtain ⟨tr, hrun⟩ := Tour.run7
  obtain ⟨tr', hnames⟩ := names_of_run (hrun.snoc Tour.step8)
  exact ⟨_, tr', hrun.snoc Tour.step8, hnames⟩

/-- The path of a request is the path of its node until it is given back. -/
theorem path_of_run (hrun : Run (SectionStep noforget) Sys.new tr s) {p : PathHold}
    (hp : p ∈ s.paths) (path : FileName) :
    s.names.PathOf p.nodeid p.name path ↔ path = p.path := by
  have hok := ok_of_run hrun
  have hleads := (hok.paths.way p hp).leads
  rw [hok.paths.path p hp]
  constructor
  · rintro ⟨labels, hleads', rfl⟩
    have heq : labels = wayNames p.way := hleads'.unique hok.shaped.at_root hleads
    rw [heq]
  · rintro rfl
    exact ⟨_, hleads, rfl⟩

set_option maxRecDepth 100000 in
theorem path_of_run_dir : Tour.s4.names.PathOf 2 none [slash, 0x61] := by
  obtain ⟨tr, hrun⟩ := Tour.run4
  exact (path_of_run hrun (by decide : Tour.dir ∈ Tour.s4.paths) _).mpr rfl

/-- The lock of a node is -1 if a request is to move the node, and then the node
    is not on the way of any path, and is nobody else's.  If not, it counts the
    paths that the node is on. -/
theorem locks_of_run (hrun : Run (SectionStep noforget) Sys.new tr s) {i : Nat} {node : Node}
    (hnode : s.table.nodes i = some node) :
    (i ∈ s.paths.filterMap PathHold.wnode → node.treelock = -1 ∧
      (∀ p ∈ s.paths, i ∉ p.way.map Prod.fst) ∧ (s.paths.filterMap PathHold.wnode).count i = 1) ∧
    (i ∉ s.paths.filterMap PathHold.wnode →
      node.treelock = s.paths.countP fun p => i ∈ p.way.map Prod.fst) := by
  have hok := ok_of_run hrun
  have hlock : node.treelock = LockHolder.count (s.paths.map PathHold.holder) i :=
    hok.paths.locks (Table.status_of_nodes hnode)
  have howners : s.paths.filterMap PathHold.wnode =
      (s.paths.map PathHold.holder).filterMap LockHolder.own := by
    rw [List.filterMap_map]
    rfl
  constructor
  · intro hmem
    obtain ⟨p, hp, hown⟩ := List.mem_filterMap.mp hmem
    refine ⟨?_, ?_, ?_⟩
    · rw [hlock]
      exact hok.paths.compatible.count_own (List.mem_map_of_mem hp) hown
    · intro q hq hi
      obtain ⟨x, hx, rfl⟩ := List.mem_map.mp hi
      exact hok.paths.off_way hp hown q hq x hx rfl
    · apply List.count_eq_one_of_mem _ hmem
      rw [howners]
      exact hok.paths.compatible.nodup
  · intro hmem
    rw [hlock, LockHolder.Compatible.count_countP, List.countP_map]
    · rfl
    · intro holder hholder hown
      rw [howners] at hmem
      exact hmem (List.mem_filterMap.mpr ⟨holder, hholder, hown⟩)
    · intro holder hholder
      obtain ⟨p, hp, rfl⟩ := List.mem_map.mp hholder
      exact (hok.paths.way p hp).nodup

set_option maxRecDepth 100000 in
theorem locks_of_run_old : ∃ node, Tour.s6.table.nodes 2 = some node ∧
    (2 ∈ Tour.s6.paths.filterMap PathHold.wnode → node.treelock = -1 ∧
      (∀ p ∈ Tour.s6.paths, 2 ∉ p.way.map Prod.fst) ∧
        (Tour.s6.paths.filterMap PathHold.wnode).count 2 = 1) ∧
    (2 ∉ Tour.s6.paths.filterMap PathHold.wnode →
      node.treelock = Tour.s6.paths.countP fun p => 2 ∈ p.way.map Prod.fst) := by
  obtain ⟨tr, hrun⟩ := Tour.run6
  exact ⟨_, rfl, locks_of_run hrun rfl⟩

/-- The references to a node are its lookups, together, and those of lookups of
    "." and of children. -/
theorem Ok.refctr_eq (h : Ok false s) {i : Nat} {node : Node} (hnode : s.table.nodes i = some node) :
    node.refctr = (if i = fuseRootId ∨ 0 < s.held i then 1 else 0) + s.refs i +
      (Forest.children s.table.at_ i).ncard ∧ 0 < node.refctr := by
  have hst := Table.status_of_nodes hnode
  have hcount := h.counts.node hst
  have hlooked : lookedIn s.table.status i = if i = fuseRootId ∨ 0 < s.held i then 1 else 0 := by
    by_cases hroot : i = fuseRootId
    · rw [if_pos (.inl hroot), lookedIn_pos hst (hcount.looked (.inr (.inl hroot)))]
    · have hexact : node.status.nlookup = s.held i := hcount.exact hroot rfl
      by_cases hheld : 0 < s.held i
      · rw [if_pos (.inr hheld), lookedIn_pos hst (by omega)]
      · rw [if_neg (not_or.mpr ⟨hroot, hheld⟩), lookedIn_zero hst (by omega)]
  obtain ⟨heq, hpos⟩ := h.shaped.refs hnode
  refine ⟨?_, hpos⟩
  rw [heq, Sys.hold, hlooked]
  push_cast
  rfl

theorem Ok.isSome_iff (h : Ok false s) (i : Nat) :
    (s.table.nodes i).isSome ↔ s.Known i ∨ (Forest.children s.table.at_ i).Nonempty := by
  constructor
  · intro hsome
    obtain ⟨node, hnode⟩ := Option.isSome_iff_exists.mp hsome
    obtain ⟨heq, hpos⟩ := h.refctr_eq hnode
    by_contra hnot
    obtain ⟨hunknown, hempty⟩ := not_or.mp hnot
    obtain ⟨hroot, hheld, hzero⟩ := by simpa only [Sys.Known, not_or] using hunknown
    rw [Set.not_nonempty_iff_eq_empty.mp hempty, Set.ncard_empty,
      if_neg (not_or.mpr ⟨hroot, hheld⟩)] at heq
    omega
  · rintro (hknown | ⟨c, name, hc⟩)
    · exact h.live hknown
    · exact h.shaped.parent hc

/-- A node is in the table as long as the kernel or a lookup has it, or another
    node hangs from it, and is referred to just as often. -/
theorem nodes_of_run (hrun : Run (SectionStep false) Sys.new tr s) (i : Nat) :
    ((s.table.nodes i).isSome ↔ s.Known i ∨ (Forest.children s.table.at_ i).Nonempty) ∧
    ∀ node, s.table.nodes i = some node →
      node.refctr = (if i = fuseRootId ∨ 0 < s.held i then 1 else 0) + s.refs i +
        (Forest.children s.table.at_ i).ncard :=
  ⟨(ok_of_run hrun).isSome_iff i, fun _ hnode => ((ok_of_run hrun).refctr_eq hnode).1⟩

theorem nodes_of_run_dir : ((Tour.s4.table.nodes 2).isSome ↔
      Tour.s4.Known 2 ∨ (Forest.children Tour.s4.table.at_ 2).Nonempty) ∧
    ∀ node, Tour.s4.table.nodes 2 = some node →
      node.refctr = (if 2 = fuseRootId ∨ 0 < Tour.s4.held 2 then 1 else 0) + Tour.s4.refs 2 +
        (Forest.children Tour.s4.table.at_ 2).ncard := by
  obtain ⟨tr, hrun⟩ := Tour.run4
  exact nodes_of_run hrun 2

/-- When everything has been forgotten, only the root is left, and no names. -/
theorem forgotten_of_run (hrun : Run (SectionStep false) Sys.new tr s)
    (hheld : ∀ i, i ≠ fuseRootId → s.held i = 0) (hrefs : ∀ i, s.refs i = 0) :
    (∀ i, (s.table.nodes i).isSome ↔ i = fuseRootId) ∧ (∀ hash, s.table.nameTable hash = []) := by
  have hok := ok_of_run hrun
  have hat : ∀ i, s.table.at_ i = none := by
    intro i
    by_contra hne
    obtain ⟨x, hx⟩ := Option.ne_none_iff_exists'.mp hne
    obtain ⟨st, hst, hlooked⟩ := hok.status_of_at hx
    have hroot := hok.shaped.ne_root hx
    apply hlooked
    rw [(hok.counts.node hst).exact hroot rfl, hheld i hroot]
  constructor
  · intro i
    rw [hok.isSome_iff]
    constructor
    · rintro ((hroot | hpos | hpos) | ⟨c, name, hc⟩)
      · exact hroot
      · by_contra hroot
        exact absurd (hheld i hroot) (Nat.ne_of_gt hpos)
      · exact absurd (hrefs i) (Nat.ne_of_gt hpos)
      · rw [hat c] at hc
        cases hc
    · exact fun hroot => .inl (.inl hroot)
  · intro hash
    apply List.eq_nil_iff_forall_not_mem.mpr
    intro i hmem
    obtain ⟨p, name, hi, -⟩ := hok.shaped.hashed.mp hmem
    rw [hat i] at hi
    cases hi

set_option maxRecDepth 100000 in
/-- The one file that was looked up is forgotten. -/
theorem forgotten_of_run_file : Tour.s2.held 2 = 1 ∧
    (∀ i, ((Tour.s2.after (.forgetNode 2 1)).table.nodes i).isSome ↔ i = fuseRootId) ∧
    ∀ hash, (Tour.s2.after (.forgetNode 2 1)).table.nameTable hash = [] := by
  have hforget : SectionStep false Tour.s2 (.forgetNode 2 1, .done)
      (Tour.s2.after (.forgetNode 2 1)) := ⟨.inr ⟨by decide, by decide, fun _ => by decide⟩, by rfl⟩
  have hrun := Run.snoc (.snoc (.snoc .nil Tour.step1) Tour.step2) hforget
  refine ⟨rfl, forgotten_of_run hrun ?_ fun _ => rfl⟩
  intro i _
  show Function.update (bump (fun _ => 0) 2) 2 _ i = 0
  by_cases hi : i = 2
  · subst hi
    rfl
  · rw [Function.update_of_ne hi, bump_of_ne hi]

theorem vacate_of_ne {forest : Forest Nat FileName} {x : Nat × FileName} {i : Nat}
    (h : forest i ≠ some x) : vacate forest x i = forest i := if_neg h

theorem vacate_less {forest : Forest Nat FileName} {x y : Nat × FileName} {i : Nat}
    (h : vacate forest x i = some y) : forest i = some y := by
  rw [vacate] at h
  split at h
  · cases h
  · exact h

/-- What a file that is renamed takes along goes to the new place with it. -/
theorem leads_of_moved {forest : Forest Nat FileName} {root i newdir : Nat} {newname : FileName}
    {labels inner : List FileName} (hrooted : forest.Rooted i)
    (hnewdir : Forest.Leads (vacate forest (newdir, newname)) root newdir labels)
    (hbelow : ¬ Forest.Below forest i newdir) {j : Nat} (hj : Forest.Leads forest i j inner)
    (hrooted' : Forest.Rooted (vacate forest (newdir, newname)) i) :
    Forest.Leads ((vacate forest (newdir, newname)).attach i newdir newname) root j
      (labels ++ [newname] ++ inner) := by
  apply Forest.Leads.moved hrooted' hnewdir
  · exact fun hb => hbelow (hb.of_less vacate_less)
  · apply hj.within hrooted
    intro k hne hk
    apply vacate_of_ne
    intro hat
    exact hbelow (hk.parent hne hat)

theorem rooted_vacate {forest : Forest Nat FileName} (h : forest.Acyclic) (x : Nat × FileName)
    (i : Nat) : Forest.Rooted (vacate forest x) i := by
  induction h i with
  | top hat =>
      apply Forest.Rooted.top
      rw [vacate_of_ne (by rw [hat]; exact (Option.some_ne_none x).symm), hat]
  | @step j p name hat _ ih =>
      by_cases hx : forest j = some x
      · exact .top (if_pos hx)
      · exact .step ((vacate_of_ne hx).trans hat) ih

theorem pathString_append {names : List FileName} (hne : names ≠ []) (inner : List FileName) :
    pathString (names ++ inner) = pathString names ++ slashed inner := by
  rw [pathString_eq, pathString_eq, if_neg hne, if_neg (List.append_ne_nil_of_left_ne_nil hne inner),
    slashed_append]

/-- A file that is not below one that is moved or replaced is where it was. -/
theorem leads_of_kept {forest : Forest Nat FileName} {i j newdir : Nat} {newname : FileName}
    (hoff : ¬ Forest.Below forest i j)
    (hkept : ∀ k, forest k = some (newdir, newname) → ¬ Forest.Below forest k j)
    (labels : List FileName) :
    Forest.Leads ((vacate forest (newdir, newname)).attach i newdir newname) fuseRootId j labels ↔
      Forest.Leads forest fuseRootId j labels := by
  apply Forest.Leads.frame_iff (U := fun x => ¬ Forest.Below forest i x ∧
    ∀ k, forest k = some (newdir, newname) → ¬ Forest.Below forest k x) _ _ ⟨hoff, hkept⟩
  · rintro x q name ⟨hnoti, hnotk⟩ hx
    exact ⟨fun hb => hnoti (hb.step hx), fun k hk hb => hnotk k hk (hb.step hx)⟩
  · rintro x ⟨hnoti, hnotk⟩
    have hxi : x ≠ i := by
      rintro rfl
      exact hnoti (.refl _ _)
    rw [Forest.attach_of_ne hxi]
    exact vacate_of_ne fun hx => hnotk x hx (.refl _ _)

/-- The node at a place that is to be changed is locked. -/
theorem Ok.own_slot (h : Ok noforget s) {p : PathHold} (hp : p ∈ s.paths) (hslot : p.slot ≠ none)
    {name : FileName} (hname : p.name = some name) {i : Nat}
    (hi : s.table.at_ i = some (p.nodeid, name)) : p.wnode = some i := by
  obtain ⟨n, hn, hslot⟩ := exists_name hslot
  rw [hname] at hn
  cases hn
  exact h.paths.slot p hp _ i hslot hi

/-- The names after a file has been renamed. -/
theorem Ok.at_renamed (h : Ok noforget s) {strdup : Bool} {p p' : PathHold}
    (hstep : SectionStep noforget s (.renameNode strdup p p', .err 0) s') {i : Nat}
    {oldname newname : FileName} (hold : p.name = some oldname) (hnew : p'.name = some newname)
    (hi : s.table.at_ i = some (p.nodeid, oldname)) :
    s'.table.at_ = (vacate s.table.at_ (p'.nodeid, newname)).attach i p'.nodeid newname := by
  obtain ⟨-, hnames, -, -⟩ := h.step hstep
  generalize hn : s'.names = n' at hnames
  cases hnames with
  | @renamed _ _ _ _ _ _ place hold' hnew' hmoves =>
      rw [hold] at hold'
      rw [hnew] at hnew'
      cases hold'
      cases hnew'
      have hat' : s'.table.at_ = place := congrArg Names.place hn
      cases hmoves with
      | moved hat =>
          rw [h.shaped.unique (vacate_less hat) hi] at hat'
          exact hat'
  | unknown hold' hfree =>
      rw [hold] at hold'
      cases hold'
      exact absurd hi (hfree i)

/-- The paths of the files that go with one that is renamed begin with its new
    path, and go on as before; the others stay, but for what the file replaces. -/
theorem renamed_of_run (hrun : Run (SectionStep noforget) Sys.new tr s) {strdup : Bool}
    {p p' : PathHold} (hstep : SectionStep noforget s (.renameNode strdup p p', .err 0) s')
    {i : Nat} {oldname newname : FileName} (hold : p.name = some oldname)
    (hnew : p'.name = some newname) (hi : s.table.at_ i = some (p.nodeid, oldname)) (j : Nat) :
    (∀ inner, Forest.Leads s.table.at_ i j inner →
      s.names.PathOf j none (p.path ++ slashed inner) ∧
        s'.names.PathOf j none (p'.path ++ slashed inner)) ∧
    (¬ Forest.Below s.table.at_ i j →
      (∀ k, s.table.at_ k = some (p'.nodeid, newname) → ¬ Forest.Below s.table.at_ k j) →
      ∀ path, s'.names.PathOf j none path ↔ s.names.PathOf j none path) := by
  have hok := ok_of_run hrun
  obtain ⟨hp, hp', hslot, hslot', -⟩ := hstep.1
  have hmem' : p' ∈ s.paths := List.mem_of_mem_erase hp'
  have hplace := hok.at_renamed hstep hold hnew hi
  have hbelow := hok.not_below hp (hok.own_slot hp hslot hold hi) (hok.shaped.ne_root hi) hmem'
  have hway : Forest.Leads (vacate s.table.at_ (p'.nodeid, newname)) fuseRootId p'.nodeid
      (wayNames p'.way) := by
    apply Forest.Way.leads
    apply (hok.paths.way p' hmem').frame
    intro x hx
    apply vacate_of_ne
    intro hk
    exact hok.paths.off_way hmem' (hok.own_slot hmem' hslot' hnew hk) p' hmem' x hx rfl
  constructor
  · intro inner hleads
    rw [hok.paths.path p hp, hok.paths.path p' hmem', hold, hnew]
    have hne : ∀ (names : List FileName) (name : FileName), names ++ (some name).toList ≠ [] :=
      fun names name => List.append_ne_nil_of_right_ne_nil _ (List.cons_ne_nil _ _)
    rw [← pathString_append (hne _ _), ← pathString_append (hne _ _)]
    have hbefore : Forest.Leads s.table.at_ fuseRootId j (wayNames p.way ++ [oldname] ++ inner) :=
      (Forest.Leads.step hi (hok.paths.way p hp).leads).trans hleads
    have hafter := leads_of_moved (hok.shaped.acyclic i) hway hbelow hleads
      (rooted_vacate hok.shaped.acyclic _ i)
    rw [← hplace] at hafter
    exact ⟨⟨_, hbefore, by rw [Option.toList_none, List.append_nil]; rfl⟩,
      ⟨_, hafter, by rw [Option.toList_none, List.append_nil]; rfl⟩⟩
  · intro hoff hkept path
    have hiff : ∀ labels, Forest.Leads s'.table.at_ fuseRootId j labels ↔
        Forest.Leads s.table.at_ fuseRootId j labels := by
      rw [hplace]
      exact leads_of_kept hoff hkept
    constructor
    · rintro ⟨labels, hleads, rfl⟩
      exact ⟨labels, (hiff labels).mp hleads, rfl⟩
    · rintro ⟨labels, hleads, rfl⟩
      exact ⟨labels, (hiff labels).mpr hleads, rfl⟩

set_option maxRecDepth 100000 in
theorem renamed_of_run_tour :
    (∀ inner, Forest.Leads Tour.s7.table.at_ 2 3 inner →
      Tour.s7.names.PathOf 3 none ([slash, 0x61] ++ slashed inner) ∧
        Tour.s8.names.PathOf 3 none ([slash, 0x63] ++ slashed inner)) ∧
    (¬ Forest.Below Tour.s7.table.at_ 2 3 →
      (∀ k, Tour.s7.table.at_ k = some (1, [0x63]) → ¬ Forest.Below Tour.s7.table.at_ k 3) →
      ∀ path, Tour.s8.names.PathOf 3 none path ↔ Tour.s7.names.PathOf 3 none path) := by
  obtain ⟨tr, hrun⟩ := Tour.run7
  exact renamed_of_run hrun Tour.step8 rfl rfl (by rfl : Tour.s7.table.at_ 2 = some (1, [0x61])) 3

/-- A request that does not get its paths leaves everything as it was, but for
    the tickets: what it had locked before it failed is free again. -/
theorem failed_of_run (hrun : Run (SectionStep noforget) Sys.new tr s) {r : Reply}
    (hstep : SectionStep noforget s (a, r) s')
    (hfailed : (∃ err, r = .path (.failed err)) ∨ ∃ err, r = .path2 (.failed err)) :
    Relocked s.table s'.table 0 ∧ s' = { s with table := s'.table } := by
  have hok := ok_of_run hrun
  obtain ⟨-, hnames, -, -⟩ := hok.step hstep
  obtain ⟨ha, hexec⟩ := hstep
  generalize s'.names = n' at hnames
  rcases hfailed with ⟨err, rfl⟩ | ⟨err, rfl⟩
  · cases hnames with
    | @noPath heap nodeid name wr ticket =>
        have hgets := hok.lockPath ha.1 heap ha.2
        rw [exec] at hexec
        generalize tryGetPath heap s.table nodeid name wr ticket = result at hgets hexec
        cases hgets with
        | locked => cases hexec
        | failed _ hrelock =>
            cases hexec
            exact ⟨hrelock, rfl⟩
        | endless => cases hexec
  · cases hnames with
    | @noPaths heap1 heap2 nodeid1 nodeid2 name1 name2 wr ticket =>
        obtain ⟨hasked1, hasked2, hne, hticket⟩ := ha
        have hgets := hok.lockPaths hasked1 hasked2 hne heap1 heap2 hticket
        rw [exec] at hexec
        generalize tryGetPath2 heap1 heap2 s.table nodeid1 name1 nodeid2 name2 wr ticket = result
          at hgets hexec
        cases hgets with
        | locked => cases hexec
        | failed _ hrelock =>
            cases hexec
            exact ⟨hrelock, rfl⟩
        | endless => cases hexec

theorem failed_of_run_tour : Relocked Tour.s6.table Tour.s7.table 0 ∧
    Tour.s7 = { Tour.s6 with table := Tour.s7.table } := by
  obtain ⟨tr, hrun⟩ := Tour.run6
  exact failed_of_run hrun Tour.step7 (.inl ⟨_, rfl⟩)

/-- A path of another request that is in the way of one that is asked for: it has
    a node for itself, or it goes past the node that is to be changed. -/
def Blocks (s : Sys) (nodeid : Nat) (name : Option FileName) (wr : Bool) (i : Nat) (p : PathHold) :
    Prop :=
  p.wnode = some i ∨ i ∈ p.way.map Prod.fst ∧ wr = true ∧
    ∃ n, name = some n ∧ s.table.at_ i = some (nodeid, n)

theorem isSome_of_at {t : Table} {i : Nat} (hat : t.at_ i ≠ none) : (t.nodes i).isSome := by
  obtain ⟨x, hx⟩ := Option.ne_none_iff_exists'.mp hat
  obtain ⟨node, hnode, -⟩ := Table.nodes_of_at hx
  exact Option.isSome_of_mem hnode

/-- Where a way has been left, the rest of it goes on. -/
theorem needs_stop {stop nodeid : Nat} {way : List (Nat × FileName)} (h : Ok noforget s)
    (hway : s.table.at_.Way stop nodeid way) (hat : s.table.at_ stop ≠ none) (name : Option FileName)
    (wr : Bool) : s.needs nodeid name wr stop := by
  obtain ⟨top, whole, htop, hwhole⟩ := (h.shaped.acyclic nodeid).exists_way
  have hne : stop ≠ top := by
    rintro rfl
    exact hat htop
  refine .inl ?_
  rw [wayUp_eq hwhole htop (h.shaped.way_length hwhole)]
  exact hwhole.mem_of_below htop hne ⟨_, hway.leads⟩

/-- A request that does not get its path has a reason for it: there is a node
    that another request has, or has left its ticket on; or there is no memory;
    or the node has no path. -/
theorem refused_of_run (hrun : Run (SectionStep noforget) Sys.new tr s) {heap : PathHeap} {nodeid : Nat}
    {name : Option FileName} {wr : Bool} {ticket err : Int}
    (hstep : SectionStep noforget s
      (.getPath heap nodeid name wr ticket, .path (.failed err)) s') :
    (err = -eAgain ∧ ∃ i, s.needs nodeid name wr i ∧
      (¬ s.table.Passes ticket i ∨ ∃ p ∈ s.paths, Blocks s nodeid name wr i p)) ∨
    (err = -eNoMem ∧ ∃ size, heap.has size = false) ∨
    err = -eNoEnt ∧ ∀ path, ¬ s.names.PathOf nodeid name path := by
  have hok := ok_of_run hrun
  obtain ⟨⟨hasked, hticket⟩, hexec⟩ := hstep
  have hgets := hok.lockPath hasked heap hticket
  rw [exec] at hexec
  generalize tryGetPath heap s.table nodeid name wr ticket = result at hgets hexec
  cases hgets with
  | locked => cases hexec
  | endless => cases hexec
  | failed _ _ _ _ hwhy =>
      cases hexec
      cases hwhy with
      | @waits n w hwr hname hat h =>
          refine .inl ⟨rfl, w, .inr ⟨hwr, n, hname, hat⟩, h.symm.imp_right fun hlock => ?_⟩
          have hlive : (s.table.nodes w).isSome := isSome_of_at (by rw [hat]; exact Option.some_ne_none _)
          rw [hok.lock_eq hlive, Ne, hok.paths.compatible.count_eq_zero] at hlock
          by_contra hnone
          apply hlock
          intro holder hmem
          obtain ⟨p, hp, rfl⟩ := List.mem_map.mp hmem
          exact ⟨fun hown => hnone ⟨p, hp, .inl hown⟩,
            fun hshared => hnone ⟨p, hp, .inr ⟨hshared, hwr, n, hname, hat⟩⟩⟩
      | @stopped stop way _ hway hfails _ =>
          cases hfails with
          | again hat h =>
              refine .inl ⟨rfl, stop, needs_stop hok hway hat name wr, h.symm.imp_right fun hlock => ?_⟩
              rw [hok.lock_eq (isSome_of_at hat), hok.paths.compatible.count_eq_neg_one] at hlock
              obtain ⟨holder, hmem, hown⟩ := hlock
              obtain ⟨p, hp, rfl⟩ := List.mem_map.mp hmem
              exact ⟨p, hp, .inl hown⟩
          | noMem h => exact .inr (.inl ⟨rfl, _, h⟩)
          | noEnt hroot hat =>
              refine .inr (.inr ⟨rfl, ?_⟩)
              rintro path ⟨labels, hleads, -⟩
              -- the root would be on the way
              obtain ⟨x, hx, heq⟩ := List.mem_map.mp
                (hway.mem_of_below hat hroot.symm ⟨labels, hleads⟩)
              obtain ⟨-, p, hatx⟩ := hway.at_mem hx
              rw [heq, hok.shaped.at_root] at hatx
              cases hatx

theorem refused_of_run_tour :
    (-eAgain = -eAgain ∧ ∃ i, Tour.s6.needs 3 none false i ∧
      (¬ Tour.s6.table.Passes 4 i ∨ ∃ p ∈ Tour.s6.paths, Blocks Tour.s6 3 none false i p)) ∨
    (-eAgain = -eNoMem ∧ ∃ size, Tour.heap.has size = false) ∨
    -eAgain = -eNoEnt ∧ ∀ path, ¬ Tour.s6.names.PathOf 3 none path := by
  obtain ⟨tr, hrun⟩ := Tour.run6
  exact refused_of_run hrun Tour.step7

end Safety

end FuseNt.NodeTable
