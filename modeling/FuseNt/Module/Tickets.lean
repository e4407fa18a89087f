/-
  FuseNt.Module.Tickets

  What the tickets on the nodes do.

  A request that cannot get a path leaves its ticket on the nodes it has come
  by, and nobody else may pass them until it has come back and got the path.
  So a ticket is as good as a lock for the request that is waiting.  It stays
  as well when the request does not come back, and when two requests have left
  their tickets in each other's way neither of them ever gets its paths.
-/

import FuseNt.Module.NodeSafety

namespace FuseNt.NodeTable

open FuseNt.Lib

/-- The ticket of a section that asks for paths. -/
def Section.ticket : Section → Option Int
  | .getPath _ _ _ _ ticket => some ticket
  | .getPath2 _ _ _ _ _ _ _ ticket => some ticket
  | _ => none

/-- A section gets the paths that it has asked for. -/
def Reply.got : Reply → Bool
  | .path (.locked ..) | .path2 (.locked ..) => true
  | _ => false

/-- The paths that a section asks for go past a node. -/
def Section.Needs (s : Sys) : Section → Nat → Prop
  | .getPath _ nodeid name wr _, i => s.needs nodeid name wr i
  | .getPath2 _ _ nodeid1 name1 nodeid2 name2 wr _, i =>
      s.needs nodeid1 name1 wr i ∨ s.needs nodeid2 name2 wr i
  | _, _ => False

section Tickets

variable {noforget : Bool} {s s' : Sys} {tr tr' : List (Sys × (Section × Reply))} {a : Section}
  {r : Reply} {i j : Nat}

theorem Table.ticket_of_status {t : Table} {st : Status} (hst : t.status i = some st) :
    t.ticket i = st.ticket := by
  obtain ⟨node, hnode, rfl⟩ := exists_node_of_status hst
  exact Table.ticket_of_nodes hnode

theorem Table.status_of_ticket {t : Table} (h : t.ticket i ≠ 0) : ∃ st, t.status i = some st := by
  cases hnode : t.nodes i with
  | none =>
      rw [Table.ticket, hnode] at h
      exact absurd rfl h
  | some node => exact ⟨_, Table.status_of_nodes hnode⟩

/-- A ticket stays, or it is the one of a request that passes the node. -/
def TicketStep (s : Sys) (a : Section) (r : Reply) (t' : Table) (i : Nat) : Prop :=
  (t'.ticket i = s.table.ticket i ∧ ¬ (r.got = true ∧ a.Needs s i)) ∨
    r.got = true ∧ a.Needs s i ∧ a.ticket = some (s.table.ticket i)

theorem Ok.ticket_getPath (h : Ok noforget s) {heap : PathHeap} {nodeid : Nat} {name : Option FileName}
    {wr : Bool} {ticket : Int} (ha : Allowed noforget s (.getPath heap nodeid name wr ticket))
    (hexec : exec noforget s (.getPath heap nodeid name wr ticket) = .ok (r, s'))
    (hi : s.table.ticket i ≠ 0) :
    TicketStep s (.getPath heap nodeid name wr ticket) r s'.table i := by
  have hgets := h.lockPath ha.1 heap ha.2
  rw [exec] at hexec
  generalize tryGetPath heap s.table nodeid name wr ticket = result at hgets hexec
  cases hgets with
  | locked _ _ _ _ _ hpasses htickets =>
      cases hexec
      by_cases hneeds : s.needs nodeid name wr i
      · have hsame : s.table.ticket i = ticket := (hpasses i hneeds).1.resolve_left hi
        exact .inr ⟨rfl, hneeds, congrArg some hsame.symm⟩
      · exact .inl ⟨htickets i hneeds, fun hboth => hneeds hboth.2⟩
  | failed _ _ _ hleaves =>
      cases hexec
      exact .inl ⟨hleaves.eq hi, fun hboth => Bool.false_ne_true hboth.1⟩
  | endless => cases hexec

theorem Ok.ticket_getPath2 (h : Ok noforget s) {heap1 heap2 : PathHeap} {nodeid1 nodeid2 : Nat}
    {name1 name2 : Option FileName} {wr : Bool} {ticket : Int}
    (ha : Allowed noforget s (.getPath2 heap1 heap2 nodeid1 name1 nodeid2 name2 wr ticket))
    (hexec : exec noforget s (.getPath2 heap1 heap2 nodeid1 name1 nodeid2 name2 wr ticket) =
      .ok (r, s'))
    (hi : s.table.ticket i ≠ 0) :
    TicketStep s (.getPath2 heap1 heap2 nodeid1 name1 nodeid2 name2 wr ticket) r s'.table i := by
  obtain ⟨hasked1, hasked2, hne, hticket⟩ := ha
  have hgets := h.lockPaths hasked1 hasked2 hne heap1 heap2 hticket
  rw [exec] at hexec
  generalize tryGetPath2 heap1 heap2 s.table nodeid1 name1 nodeid2 name2 wr ticket = result
    at hgets hexec
  cases hgets with
  | failed _ _ _ hleaves =>
      cases hexec
      exact .inl ⟨hleaves.eq hi, fun hboth => Bool.false_ne_true hboth.1⟩
  | endless => cases hexec
  | locked _ _ _ _ _ hpasses htickets =>
      cases hexec
      by_cases hneeds : s.needs nodeid1 name1 wr i ∨ s.needs nodeid2 name2 wr i
      · have hsame : s.table.ticket i = ticket := (hpasses i hneeds).resolve_left hi
        exact .inr ⟨rfl, hneeds, congrArg some hsame.symm⟩
      · exact .inl ⟨htickets i hneeds, fun hboth => hneeds hboth.2⟩

/-- What a step does to the ticket of a node. -/
theorem Ok.ticket_step (h : Ok noforget s) (hstep : SectionStep noforget s (a, r) s')
    (hi : s.table.ticket i ≠ 0) (hlive : (s'.table.nodes i).isSome) :
    TicketStep s a r s'.table i := by
  obtain ⟨-, -, -, htickets⟩ := h.step hstep
  obtain ⟨st, hst⟩ := Table.status_of_ticket hi
  have hquiet : a.locks = false → s'.table.ticket i = s.table.ticket i := by
    intro hlocks
    obtain ⟨node, hnode⟩ := Option.isSome_iff_exists.mp hlive
    have hst' := Table.status_of_nodes hnode
    rw [Table.ticket_of_status hst, Table.ticket_of_status hst']
    exact htickets hlocks i st _ hst hst'
  obtain ⟨ha, hexec⟩ := hstep
  cases a with
  | getPath => exact h.ticket_getPath ha hexec hi
  | getPath2 => exact h.ticket_getPath2 ha hexec hi
  | freePath p =>
      obtain ⟨t, hrun, -, -, -, htick⟩ := h.unlock ha 0
      simp only [exec, hrun, ok_bind] at hexec
      cases hexec
      refine .inl ⟨?_, fun hboth => hboth.2⟩
      show t.ticket i = s.table.ticket i
      rw [htick i, leave_of_ne hi]
      split <;> rfl
  | _ => exact .inl ⟨hquiet rfl, fun hboth => hboth.2⟩

/-- The node is there before every step of the run, and at the end. -/
def Stays (i : Nat) (tr : List (Sys × (Section × Reply))) (s' : Sys) : Prop :=
  (∀ x ∈ tr, (x.1.table.nodes i).isSome) ∧ (s'.table.nodes i).isSome

instance (i : Nat) (tr : List (Sys × (Section × Reply))) (s' : Sys) : Decidable (Stays i tr s') :=
  inferInstanceAs (Decidable (_ ∧ _))

theorem Stays.init {x : Sys × (Section × Reply)} (h : Stays i (tr ++ [x]) s') : Stays i tr x.1 :=
  ⟨fun y hy => h.1 y (List.mem_append_left _ hy),
    h.1 x (List.mem_append_right _ (List.mem_singleton_self x))⟩

/-- Until the request with the ticket of a node passes it, the ticket stays, and
    nobody passes the node. -/
theorem Ok.ticket_run (h : Ok noforget s) (hrun : Run (SectionStep noforget) s tr s')
    (hi : s.table.ticket i ≠ 0) (hstays : Stays i tr s')
    (hwaits : ∀ x ∈ tr, x.2.1.ticket = some (s.table.ticket i) → x.2.2.got = true →
      ¬ x.2.1.Needs x.1 i) :
    s'.table.ticket i = s.table.ticket i ∧
      ∀ x ∈ tr, x.2.2.got = true → ¬ x.2.1.Needs x.1 i := by
  induction hrun with
  | nil => exact ⟨rfl, fun x hx => absurd hx List.not_mem_nil⟩
  | @snoc tr s₁ s' l hrun hstep ih =>
      obtain ⟨hsame, hnone⟩ := ih hstays.init fun x hx => hwaits x (List.mem_append_left _ hx)
      have hok₁ : Ok noforget s₁ := hrun.always h fun _ _ _ hok hs => (hok.step hs).1
      have hlast := hwaits (s₁, l) (List.mem_append_right _ (List.mem_singleton_self _))
      rcases hok₁.ticket_step hstep (hsame ▸ hi) hstays.2 with ⟨heq, hnot⟩ | ⟨hgot, hneeds, hticket⟩
      · refine ⟨heq.trans hsame, fun x hx hgot hneeds => ?_⟩
        rcases List.mem_append.mp hx with hx | hx
        · exact hnone x hx hgot hneeds
        · rw [List.mem_singleton.mp hx] at hgot hneeds
          exact hnot ⟨hgot, hneeds⟩
      · exact absurd hneeds (hlast (hticket.trans (congrArg some hsame)) hgot)

-- ============================================================================
-- A run with crossed tickets
-- ============================================================================

-- "/c" and "/c/z" are looked up, too.  While "/c" is locked, a link of "/a/b" to
-- "/c/y" has to wait; then a link of "/c/z" to "/a/w" finds the ticket on "a".
namespace Crossed

open Tour (heap root dir)

def dirC : PathHold := ⟨4, none, [slash, 0x63], none, [(4, [0x63])], false⟩

def lockedC : PathHold := ⟨1, some [0x63], [slash, 0x63], some 4, [], true⟩

def linkB : Section := .getPath2 heap heap 3 none 4 (some [0x79]) false 5
def linkZ : Section := .getPath2 heap heap 5 none 2 (some [0x77]) false 6

def s5 : Sys := Tour.s4.after (.findNode ⟨true, true⟩ root (some [0x63]))
def s6 : Sys := s5.after (.getPath heap 4 none false 3)
def s7 : Sys := s6.after (.findNode ⟨true, true⟩ dirC (some [0x7a]))
def s8 : Sys := s7.after (.freePath dirC)
def s9 : Sys := s8.after (.getPath heap 1 (some [0x63]) true 4)
def s10 : Sys := s9.after linkB
def s11 : Sys := s10.after (.freePath lockedC)
def s12 : Sys := s11.after linkZ

set_option maxRecDepth 100000

theorem step5 : SectionStep false Tour.s4
    (.findNode ⟨true, true⟩ root (some [0x63]), .entry (some (4, 0))) s5 := by
  refine ⟨⟨by decide, ?_⟩, by rfl⟩
  rintro n ⟨⟩
  exact ⟨by decide, by decide⟩

theorem step6 : SectionStep false s5
    (.getPath heap 4 none false 3, .path (.locked [slash, 0x63] none)) s6 :=
  ⟨⟨.read (.inr (.inl (by decide))), by decide⟩, by rfl⟩

theorem step7 : SectionStep false s6
    (.findNode ⟨true, true⟩ dirC (some [0x7a]), .entry (some (5, 0))) s7 := by
  refine ⟨⟨by decide, ?_⟩, by rfl⟩
  rintro n ⟨⟩
  exact ⟨by decide, by decide⟩

theorem step8 : SectionStep false s7 (.freePath dirC, .done) s8 :=
  ⟨(by decide : dirC ∈ s7.paths), by rfl⟩

theorem step9 : SectionStep false s8
    (.getPath heap 1 (some [0x63]) true 4, .path (.locked [slash, 0x63] (some 4))) s9 := by
  refine ⟨⟨⟨.inl rfl, ?_, fun _ => Option.some_ne_none _, ?_⟩, by decide⟩, by rfl⟩
  · rintro n ⟨⟩
    decide
  · rintro n _ ⟨⟩
    decide

/-- A request for two paths without a lock for itself. -/
theorem asked2 {s : Sys} {nodeid1 nodeid2 : Nat} {name : FileName} {ticket : Int}
    (h1 : 0 < s.held nodeid1) (h2 : 0 < s.held nodeid2) (hname : IsName name) (hticket : ticket ≠ 0) :
    Allowed false s (.getPath2 heap heap nodeid1 none nodeid2 (some name) false ticket) := by
  refine ⟨.read (.inr (.inl h1)), ⟨.inr (.inl h2), ?_, by rintro ⟨⟩, by rintro n ⟨⟩⟩,
    by rintro ⟨⟩, hticket⟩
  rintro n ⟨⟩
  exact hname

theorem step10 : SectionStep false s9 (linkB, .path2 (.failed (-eAgain))) s10 :=
  ⟨asked2 (by decide) (by decide) (by decide) (by decide), by rfl⟩

theorem step11 : SectionStep false s10 (.freePath lockedC, .done) s11 :=
  ⟨(by decide : lockedC ∈ s10.paths), by rfl⟩

theorem step12 : SectionStep false s11 (linkZ, .path2 (.failed (-eAgain))) s12 :=
  ⟨asked2 (by decide) (by decide) (by decide) (by decide), by rfl⟩

/-- Both come back, and nothing has changed. -/
theorem step13 : SectionStep false s12 (linkB, .path2 (.failed (-eAgain))) (s12.after linkB) :=
  ⟨asked2 (by decide) (by decide) (by decide) (by decide), by rfl⟩

theorem step14 : SectionStep false (s12.after linkB)
    (linkZ, .path2 (.failed (-eAgain))) ((s12.after linkB).after linkZ) :=
  ⟨asked2 (by decide) (by decide) (by decide) (by decide), by rfl⟩

theorem run10 : ∃ tr, Run (SectionStep false) Sys.new tr s10 := by
  obtain ⟨tr, hrun⟩ := Tour.run4
  exact ⟨_, (((((hrun.snoc step5).snoc step6).snoc step7).snoc step8).snoc step9).snoc step10⟩

end Crossed

-- ============================================================================
-- Runs
-- ============================================================================

/-- As long as a node has the ticket of a request that waits, nobody gets a path
    that goes past it, and the ticket stays. -/
theorem ticket_of_run (hreached : Run (SectionStep noforget) Sys.new tr s)
    (hrun : Run (SectionStep noforget) s tr' s') (hi : s.table.ticket i ≠ 0)
    (hstays : Stays i tr' s')
    (hwaits : ∀ x ∈ tr', x.2.1.ticket = some (s.table.ticket i) → x.2.2.got = false) :
    s'.table.ticket i = s.table.ticket i ∧
      ∀ x ∈ tr', x.2.2.got = true → ¬ x.2.1.Needs x.1 i := by
  apply (ok_of_run hreached).ticket_run hrun hi hstays
  intro x hx hticket hgot
  rw [hwaits x hx hticket] at hgot
  cases hgot

set_option maxRecDepth 100000 in
theorem ticket_of_run_crossed : Crossed.s12.table.ticket 2 = Crossed.s10.table.ticket 2 ∧
    ∀ x ∈ [(Crossed.s10, (Section.freePath Crossed.lockedC, Reply.done)),
        (Crossed.s11, (Crossed.linkZ, Reply.path2 (.failed (-eAgain))))],
      x.2.2.got = true → ¬ x.2.1.Needs x.1 2 := by
  obtain ⟨tr, hrun⟩ := Crossed.run10
  refine ticket_of_run hrun (.snoc (.snoc .nil Crossed.step11) Crossed.step12) (by decide) ?_ ?_
  · decide
  · decide

/-- Two requests whose tickets are in each other's way do not get their paths
    any more, in whatever order they and the others try. -/
theorem deadlock_of_run (hreached : Run (SectionStep noforget) Sys.new tr s)
    (hrun : Run (SectionStep noforget) s tr' s') (hi : s.table.ticket i ≠ 0)
    (hj : s.table.ticket j ≠ 0) (hne : s.table.ticket i ≠ s.table.ticket j)
    (histays : Stays i tr' s') (hjstays : Stays j tr' s')
    (hineeds : ∀ x ∈ tr', x.2.1.ticket = some (s.table.ticket i) → x.2.1.Needs x.1 j)
    (hjneeds : ∀ x ∈ tr', x.2.1.ticket = some (s.table.ticket j) → x.2.1.Needs x.1 i) :
    ∀ x ∈ tr', x.2.1.ticket = some (s.table.ticket i) ∨ x.2.1.ticket = some (s.table.ticket j) →
      x.2.2.got = false := by
  have hok := ok_of_run hreached
  induction hrun with
  | nil => exact fun x hx => absurd hx List.not_mem_nil
  | @snoc tr' s₁ s' l hrun hstep ih =>
      obtain ⟨a, r⟩ := l
      have hfirst := ih histays.init hjstays.init
        (fun x hx => hineeds x (List.mem_append_left _ hx))
        fun x hx => hjneeds x (List.mem_append_left _ hx)
      have hmem : (s₁, a, r) ∈ tr' ++ [(s₁, a, r)] :=
        List.mem_append_right _ (List.mem_singleton_self _)
      have hfailed : ∀ {k : Int}, k = s.table.ticket i ∨ k = s.table.ticket j → ∀ n : Nat,
          ∀ x ∈ tr', x.2.1.ticket = some k → x.2.2.got = true → ¬ x.2.1.Needs x.1 n := by
        intro k hk n x hx hticket hgot
        have hboth : x.2.1.ticket = some (s.table.ticket i) ∨
            x.2.1.ticket = some (s.table.ticket j) := by
          rcases hk with rfl | rfl
          · exact .inl hticket
          · exact .inr hticket
        rw [hfirst x hx hboth] at hgot
        cases hgot
      obtain ⟨hsamei, -⟩ := hok.ticket_run hrun hi histays.init (hfailed (.inl rfl) i)
      obtain ⟨hsamej, -⟩ := hok.ticket_run hrun hj hjstays.init (hfailed (.inr rfl) j)
      have hok₁ : Ok noforget s₁ := hrun.always hok fun _ _ _ hok hs => (hok.step hs).1
      have hstepi := hok₁.ticket_step hstep (hsamei ▸ hi) histays.2
      have hstepj := hok₁.ticket_step hstep (hsamej ▸ hj) hjstays.2
      intro x hx hcase
      rcases List.mem_append.mp hx with hx | hx
      · exact hfirst x hx hcase
      · rw [List.mem_singleton.mp hx] at hcase ⊢
        by_contra hgot
        have hgot : r.got = true := by simpa using hgot
        rcases hcase with hticket | hticket
        · -- the first request would have to pass the ticket of the second
          have hneeds := hineeds _ hmem hticket
          rcases hstepj with ⟨-, hnot⟩ | ⟨-, -, hown⟩
          · exact hnot ⟨hgot, hneeds⟩
          · have heq := hticket.symm.trans (hown.trans (congrArg some hsamej))
            exact hne (Option.some.inj heq)
        · have hneeds := hjneeds _ hmem hticket
          rcases hstepi with ⟨-, hnot⟩ | ⟨-, -, hown⟩
          · exact hnot ⟨hgot, hneeds⟩
          · have heq := hticket.symm.trans (hown.trans (congrArg some hsamei))
            exact hne (Option.some.inj heq).symm

set_option maxRecDepth 100000 in
theorem deadlock_of_run_crossed : Crossed.s12.table.ticket 2 ≠ Crossed.s12.table.ticket 4 ∧
    ∀ x ∈ [(Crossed.s12, (Crossed.linkB, Reply.path2 (.failed (-eAgain)))),
        (Crossed.s12.after Crossed.linkB, (Crossed.linkZ, Reply.path2 (.failed (-eAgain))))],
      x.2.1.ticket = some (Crossed.s12.table.ticket 2) ∨
        x.2.1.ticket = some (Crossed.s12.table.ticket 4) → x.2.2.got = false := by
  obtain ⟨tr, hrun⟩ := Crossed.run10
  refine ⟨by decide, ?_⟩
  refine deadlock_of_run ((hrun.snoc Crossed.step11).snoc Crossed.step12)
    (.snoc (.snoc .nil Crossed.step13) Crossed.step14) (by decide) (by decide) (by decide) ?_ ?_ ?_ ?_
  · decide
  · decide
  · simp only [List.forall_mem_cons]
    exact ⟨fun _ => .inr (.inl (by decide)), fun hticket => absurd hticket (by decide),
      fun x hx => absurd hx List.not_mem_nil⟩
  · simp only [List.forall_mem_cons]
    exact ⟨fun hticket => absurd hticket (by decide), fun _ => .inr (.inl (by decide)),
      fun x hx => absurd hx List.not_mem_nil⟩

-- ============================================================================
-- Tickets that are left behind
-- ============================================================================

-- "/a" is unlinked while "/a/b" is known.
namespace Gone

open Tour (heap old)

def s6 : Sys := Tour.s5.after (.getPath heap 1 (some [0x61]) true 3)
def s7 : Sys := s6.after (.removeNode old)
def s8 : Sys := s7.after (.getPath heap 3 none false 4)

set_option maxRecDepth 100000

theorem step6 : SectionStep false Tour.s5
    (.getPath heap 1 (some [0x61]) true 3, .path (.locked [slash, 0x61] (some 2))) s6 :=
  ⟨⟨Tour.asked6 (by decide), by decide⟩, by rfl⟩

theorem step7 : SectionStep false s6 (.removeNode old, .done) s7 := by
  refine ⟨⟨by decide, by decide, ?_⟩, by rfl⟩
  rintro ⟨⟩

theorem step8 : SectionStep false s7
    (.getPath heap 3 none false 4, .path (.failed (-eNoEnt))) s8 :=
  ⟨⟨.read (.inr (.inl (by decide))), by decide⟩, by rfl⟩

theorem run7 : ∃ tr, Run (SectionStep false) Sys.new tr s7 := by
  obtain ⟨tr, hrun⟩ := Tour.run4
  exact ⟨_, ((hrun.snoc Tour.step5).snoc step6).snoc step7⟩

end Gone

/-- A request that fails for another reason than that it has to wait leaves its
    ticket, too, on the nodes up to where the way ends.  It does not come back,
    so nobody ever passes them again. -/
theorem left_of_run (hreached : Run (SectionStep noforget) Sys.new tr s) {heap : PathHeap} {nodeid : Nat}
    {name : Option FileName} {wr : Bool} {ticket err : Int} {s₁ : Sys} (herr : err ≠ -eAgain)
    (hstep : SectionStep noforget s
      (.getPath heap nodeid name wr ticket, .path (.failed err)) s₁) :
    ∃ stop way, s.table.at_.Way stop nodeid way ∧ PathFails heap ticket s.table stop err ∧
      ∀ x ∈ way, ∀ {tr' s'}, Run (SectionStep noforget) s₁ tr' s' → Stays x.1 tr' s' →
        (∀ y ∈ tr', y.2.1.ticket ≠ some ticket) →
        s'.table.ticket x.1 = ticket ∧ ∀ y ∈ tr', y.2.2.got = true → ¬ y.2.1.Needs y.1 x.1 := by
  have hok := ok_of_run hreached
  obtain ⟨hok₁, -⟩ := hok.step hstep
  obtain ⟨⟨hasked, hticket⟩, hexec⟩ := hstep
  have hgets := hok.lockPath hasked heap hticket
  rw [exec] at hexec
  generalize tryGetPath heap s.table nodeid name wr ticket = result at hgets hexec
  cases hgets with
  | locked => cases hexec
  | endless => cases hexec
  | failed _ _ _ _ hwhy =>
      cases hexec
      cases hwhy with
      | waits => exact absurd rfl herr
      | @stopped stop way _ hway hfails hleft =>
          refine ⟨stop, way, hway, hfails, fun x hx tr' s' hrun hstays hunused => ?_⟩
          have hsame := hleft x hx
          have hrun' := hok₁.ticket_run (i := x.1) hrun (by
            show _ ≠ 0
            rw [hsame]
            exact hticket) hstays fun y hy hy' => by
              rw [show Table.ticket _ x.1 = ticket from hsame] at hy'
              exact absurd hy' (hunused y hy)
          exact ⟨hrun'.1.trans hsame, hrun'.2⟩

theorem left_of_run_gone : ∃ stop way, Gone.s7.table.at_.Way stop 3 way ∧
    PathFails Tour.heap 4 Gone.s7.table stop (-eNoEnt) ∧
    ∀ x ∈ way, ∀ {tr' s'}, Run (SectionStep false) Gone.s8 tr' s' → Stays x.1 tr' s' →
      (∀ y ∈ tr', y.2.1.ticket ≠ some 4) →
      s'.table.ticket x.1 = 4 ∧ ∀ y ∈ tr', y.2.2.got = true → ¬ y.2.1.Needs y.1 x.1 := by
  obtain ⟨tr, hrun⟩ := Gone.run7
  exact left_of_run hrun (by decide) Gone.step8

end Tickets

end FuseNt.NodeTable
