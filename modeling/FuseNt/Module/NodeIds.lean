/-
  FuseNt.Module.NodeIds

  A number and its generation stand for one file.

  The number of a node that has been freed is used again, with a generation that
  is counted on when the numbers have gone round.  Together they are a counter
  of 64 bits, which goes on by at most 2³² for each node that is made.  So a pair
  is not told for a second node until 2³² nodes have been made.
-/

import FuseNt.Module.NodeSafety

namespace FuseNt.NodeTable

open FuseNt.Lib

/-- The lookup asks for a number: it makes a node, or has no memory for it. -/
def makes (x : Sys × (Section × Reply)) : Bool :=
  match x.2.2 with
  | .entry none => true
  | .entry (some (i, _)) => (x.1.table.nodes i).isNone
  | _ => false

/-- The counter has been at `n`, and has been nowhere behind it before. -/
structure IdsOk (tr : List (Sys × (Section × Reply))) (t : Table) (n : Nat) : Prop where
  bound : n ≤ 2 ^ 32 * tr.countP makes
  pos : t.pos = n % 2 ^ 64
  live : ∀ {i st}, t.status i = some st → i ≠ fuseRootId → st.generation * 2 ^ 32 + i ≤ n
  told : ∀ x ∈ tr, ∀ {i generation}, x.2.2.found = some (i, generation) → i ≠ fuseRootId →
    generation * 2 ^ 32 + i ≤ n

section Ids

variable {noforget : Bool} {s s' : Sys} {tr : List (Sys × (Section × Reply))} {a : Section}
  {r : Reply} {t' : Table} {n i generation : Nat}

theorem Table.Keeps.pos {t t' : Table} (h : t.Keeps t') : t'.pos = t.pos := by
  rw [Table.pos, Table.pos, h.ctr, h.generation]

theorem Counted.pos_eq {t t₁ : Table} (h : Counted t t₁) (hpos : t.pos = n % 2 ^ 64) :
    ∃ n', n < n' ∧ n' ≤ n + 2 ^ 32 ∧ t₁.pos = n' % 2 ^ 64 := by
  obtain ⟨k, hk, hle, heq⟩ := h.pos
  refine ⟨n + k, by omega, by omega, ?_⟩
  rw [heq, hpos, Nat.mod_add_mod]

theorem countP_makes_snoc (tr : List (Sys × (Section × Reply))) (x : Sys × (Section × Reply)) :
    (tr ++ [x]).countP makes = tr.countP makes + if makes x then 1 else 0 := by
  rw [List.countP_append, List.countP_singleton]

/-- The counter after a step. -/
theorem IdsOk.step (h : IdsOk tr s.table n) (hids : IdsStep noforget s.table a r t') :
    ∃ n', IdsOk (tr ++ [(s, a, r)]) t' n' := by
  have hmono : tr.countP makes ≤ (tr ++ [(s, a, r)]).countP makes := by
    rw [countP_makes_snoc]
    omega
  have hmem : ∀ {x}, x ∈ tr ++ [(s, a, r)] → x ∈ tr ∨ x = (s, a, r) := by
    intro x hx
    rcases List.mem_append.mp hx with hx | hx
    · exact .inl hx
    · exact .inr (List.mem_singleton.mp hx)
  cases hids with
  | kept hkeeps hr =>
      refine ⟨n, h.bound.trans (Nat.mul_le_mul_left _ hmono), hkeeps.pos.trans h.pos, ?_, ?_⟩
      · intro i st' hst' hi
        obtain ⟨st, hst, heq⟩ := hkeeps.nodes hst'
        exact heq ▸ h.live hst hi
      · intro x hx i generation hfound hi
        rcases hmem hx with hx | rfl
        · exact h.told x hx hfound hi
        · rw [hr] at hfound
          cases hfound
  | @known _ i generation st _ hkeeps hst hsame =>
      refine ⟨n, h.bound.trans (Nat.mul_le_mul_left _ hmono), hkeeps.pos.trans h.pos, ?_, ?_⟩
      · intro i st' hst' hi
        obtain ⟨st, hst, heq⟩ := hkeeps.nodes hst'
        exact heq ▸ h.live hst hi
      · intro x hx i generation hfound hi
        rcases hmem hx with hx | rfl
        · exact h.told x hx hfound hi
        · cases hfound
          exact hsame ▸ h.live hst hi
  | @unused mem p name _ hcount =>
      obtain ⟨n', hlt, hle, hpos⟩ := hcount.pos_eq h.pos
      have hmakes : makes (s, .findNode mem p (some name), .entry none) = true := rfl
      have hbound := h.bound
      refine ⟨n', ?_, hpos, ?_, ?_⟩
      · rw [countP_makes_snoc, if_pos hmakes]
        omega
      · intro i st hst hi
        rw [Table.status, hcount.nodes] at hst
        exact (h.live hst hi).trans hlt.le
      · intro x hx i generation hfound hi
        rcases hmem hx with hx | rfl
        · exact (h.told x hx hfound hi).trans hlt.le
        · cases hfound
  | @new mem p name t₁ _ hcount hctr hgeneration hstatus =>
      obtain ⟨n', hlt, hle, hpos⟩ := hcount.pos_eq h.pos
      have hmakes : makes (s, .findNode mem p (some name), .entry (some (t₁.ctr, t₁.generation))) =
          true := by
        show (s.table.nodes t₁.ctr).isNone = true
        rw [hcount.new.free]
        rfl
      have hbound := h.bound
      have hnew : t₁.generation * 2 ^ 32 + t₁.ctr ≤ n' := by
        show t₁.pos ≤ n'
        rw [hpos]
        exact Nat.mod_le _ _
      refine ⟨n', ?_, ?_, ?_, ?_⟩
      · rw [countP_makes_snoc, if_pos hmakes]
        omega
      · rw [Table.pos, hctr, hgeneration]
        exact hpos
      · intro i st hst hi
        rw [hstatus] at hst
        by_cases heq : i = t₁.ctr
        · subst heq
          rw [Function.update_self] at hst
          cases hst
          cases noforget
          · exact hnew
          · exact hnew
        · rw [Function.update_of_ne heq] at hst
          exact (h.live hst hi).trans hlt.le
      · intro x hx i generation hfound hi
        rcases hmem hx with hx | rfl
        · exact (h.told x hx hfound hi).trans hlt.le
        · cases hfound
          exact hnew

theorem idsOk_of_run (hrun : Run (SectionStep noforget) Sys.new tr s) : ∃ n, IdsOk tr s.table n := by
  induction hrun with
  | nil =>
      refine ⟨0, Nat.zero_le _, rfl, ?_, ?_⟩
      · intro i st hst hi
        obtain ⟨node, hnode, -⟩ := exists_node_of_status hst
        exact absurd (nodes_new hnode).1 hi
      · exact fun x hx => absurd hx List.not_mem_nil
  | snoc hrun hstep ih =>
      obtain ⟨n, hn⟩ := ih
      obtain ⟨-, -, hids, -⟩ := (ok_of_run hrun).step hstep
      exact hn.step hids

/-- The pair of a node that is made has not been told before. -/
theorem fresh_of_run (hrun : Run (SectionStep noforget) Sys.new tr s)
    (hmakes : tr.countP makes < 2 ^ 32)
    (hstep : SectionStep noforget s (a, .entry (some (i, generation))) s')
    (hnew : s.table.nodes i = none) : ∀ x ∈ tr, x.2.2 ≠ .entry (some (i, generation)) := by
  obtain ⟨n, hok⟩ := idsOk_of_run hrun
  obtain ⟨-, -, hids, -⟩ := (ok_of_run hrun).step hstep
  cases hids with
  | kept _ hr => cases hr
  | known _ hst _ =>
      obtain ⟨node, hnode, -⟩ := exists_node_of_status hst
      rw [hnew] at hnode
      cases hnode
  | @new mem p name t₁ _ hcount hctr hgeneration hstatus =>
      intro x hx heq
      have hroot : t₁.ctr ≠ fuseRootId := by
        intro hroot
        obtain ⟨node, hnode, -⟩ := (ok_of_run hrun).shaped.root
        rw [← hroot, hnew] at hnode
        cases hnode
      have htold := hok.told x hx (congrArg Reply.found heq) hroot
      obtain ⟨n', hlt, hle, hpos⟩ := hcount.pos_eq hok.pos
      have hbound := hok.bound
      have hctrpos := hcount.new.pos
      have hposeq : t₁.generation * 2 ^ 32 + t₁.ctr = n' % 2 ^ 64 := hpos
      -- the counter is not back at 0, as 0 is no number of a node
      have hwrap : n' < 2 ^ 64 := by
        have hle' : n' ≤ 2 ^ 64 := by omega
        by_contra hge
        have hfull : n' = 2 ^ 64 := by omega
        rw [hfull, Nat.mod_self] at hposeq
        omega
      rw [Nat.mod_eq_of_lt hwrap] at hposeq
      omega

/-- The node has the number, and the generation. -/
def Table.Has (t : Table) (i generation : Nat) : Prop :=
  ∃ st, t.status i = some st ∧ st.generation = generation

/-- A node that is there now, and was when its pair was told, has been there all
    the time. -/
theorem has_of_run (hrun : Run (SectionStep noforget) Sys.new tr s)
    (hmakes : tr.countP makes ≤ 2 ^ 32) (hhas : s.table.Has i generation)
    {tr₁ tr₂ : List (Sys × (Section × Reply))} {x : Sys × (Section × Reply)}
    (htr : tr = tr₁ ++ x :: tr₂) (hx : x.2.2 = .entry (some (i, generation))) :
    ∀ y ∈ tr₂, y.1.table.Has i generation := by
  induction hrun generalizing tr₂ with
  | nil => exact absurd htr.symm (by simp)
  | @snoc tr s s' l hrun hstep ih =>
      obtain ⟨a, r⟩ := l
      rcases List.eq_nil_or_concat tr₂ with rfl | ⟨rest, last, rfl⟩
      · exact fun y hy => absurd hy List.not_mem_nil
      rw [List.concat_eq_append, ← List.cons_append, ← List.append_assoc] at htr
      obtain ⟨rfl, hlast⟩ := List.append_inj' htr rfl
      obtain rfl := List.cons.inj hlast |>.1
      obtain ⟨-, -, hids, -⟩ := (ok_of_run hrun).step hstep
      have hcount := countP_makes_snoc (tr₁ ++ x :: rest) (s, a, r)
      -- a node that is made now has another pair
      have hbefore : s.table.Has i generation := by
        obtain ⟨st', hst', hsame'⟩ := hhas
        have hkept : s.table.Keeps s'.table → s.table.Has i generation := by
          intro hkeeps
          obtain ⟨st, hst, hsame⟩ := hkeeps.nodes hst'
          exact ⟨st, hst, hsame.trans hsame'⟩
        cases hids with
        | kept hkeeps => exact hkept hkeeps
        | known hkeeps => exact hkept hkeeps
        | unused hcounted =>
            rw [Table.status, hcounted.nodes] at hst'
            exact ⟨st', hst', hsame'⟩
        | @new mem p name t₁ _ hcounted hctr hgeneration hstatus =>
            by_cases hi : i = t₁.ctr
            · subst hi
              exfalso
              have hgen : t₁.generation = generation := by
                rw [hstatus, Function.update_self] at hst'
                cases hst'
                cases noforget
                · exact hsame'
                · exact hsame'
              have hmade : makes (s, .findNode mem p (some name),
                  .entry (some (t₁.ctr, t₁.generation))) = true := by
                show (s.table.nodes t₁.ctr).isNone = true
                rw [hcounted.new.free]
                rfl
              rw [if_pos hmade] at hcount
              have hmem : x ∈ tr₁ ++ x :: rest := List.mem_append_right _ List.mem_cons_self
              apply fresh_of_run hrun (by omega) hstep hcounted.new.free x hmem
              rw [hx, hgen]
            · rw [hstatus, Function.update_of_ne hi] at hst'
              exact ⟨st', hst', hsame'⟩
      have hrest := ih (by omega) hbefore rfl
      intro y hy
      rw [List.concat_eq_append] at hy
      rcases List.mem_append.mp hy with hy | hy
      · exact hrest y hy
      · rw [List.mem_singleton.mp hy]
        exact hbefore

/-- A number and a generation that the kernel is told twice are those of one
    node, which has been there all the time between. -/
theorem same_node {tr₁ tr₂ : List (Sys × (Section × Reply))} {x : Sys × (Section × Reply)}
    (hrun : Run (SectionStep noforget) Sys.new (tr₁ ++ x :: tr₂) s)
    (hmakes : (tr₁ ++ x :: tr₂).countP makes < 2 ^ 32) (hx : x.2.2 = .entry (some (i, generation)))
    (hstep : SectionStep noforget s (a, .entry (some (i, generation))) s') :
    ∀ t ∈ tr₂.map (fun y => y.1.table) ++ [s.table],
      ∃ node, t.nodes i = some node ∧ node.generation = generation := by
  obtain ⟨-, -, hids, -⟩ := (ok_of_run hrun).step hstep
  have hhas : s.table.Has i generation := by
    cases hids with
    | kept _ hr => cases hr
    | known _ hst hsame => exact ⟨_, hst, hsame⟩
    | new hcount hctr hgeneration hstatus =>
        have hmem : x ∈ tr₁ ++ x :: tr₂ := List.mem_append_right _ List.mem_cons_self
        exact absurd hx (fresh_of_run hrun hmakes hstep hcount.new.free x hmem)
  have hexists : ∀ {t : Table}, t.Has i generation →
      ∃ node, t.nodes i = some node ∧ node.generation = generation := by
    rintro t ⟨st, hst, hsame⟩
    obtain ⟨node, hnode, rfl⟩ := exists_node_of_status hst
    exact ⟨node, hnode, hsame⟩
  intro t ht
  rcases List.mem_append.mp ht with ht | ht
  · obtain ⟨y, hy, rfl⟩ := List.mem_map.mp ht
    exact hexists (has_of_run hrun hmakes.le hhas rfl hx y hy)
  · rw [List.mem_singleton.mp ht]
    exact hexists hhas

set_option maxRecDepth 100000 in
theorem same_node_dir : ∃ node, Tour.s5.table.nodes 2 = some node ∧ node.generation = 0 := by
  have hagain : SectionStep false Tour.s5
      (.findNode ⟨true, true⟩ Tour.root (some [0x61]), .entry (some (2, 0)))
      (Tour.s5.after (.findNode ⟨true, true⟩ Tour.root (some [0x61]))) := by
    refine ⟨⟨by decide, ?_⟩, by rfl⟩
    rintro n ⟨⟩
    exact ⟨by decide, by decide⟩
  have hrun := Run.snoc (.snoc (.snoc (.snoc (.snoc .nil Tour.step1) Tour.step2) Tour.step3)
    Tour.step4) Tour.step5
  exact @same_node _ _ _ _ _ _ [_] [_, _, _] _ hrun (by decide) rfl hagain _
    (List.mem_append_right _ (List.mem_singleton_self _))

end Ids

end FuseNt.NodeTable
