/-
  FuseNt.Lib.Forest

  Nodes that hang from other nodes by labelled edges.

  A forest says of every node where it is: the node it hangs from and the label
  of the edge, or nowhere.  It changes by taking a node off and by hanging it up.
  `Rooted` excludes cycles.  `Leads at a i labels` says how one gets from `a`
  down to `i`; a tree that is moved takes the way within it along.
-/

import Mathlib.Tactic
import Mathlib.Data.Set.Card

namespace FuseNt.Lib

/-- Where the nodes are. -/
abbrev Forest (ι α : Type _) := ι → Option (ι × α)

namespace Forest

variable {ι α : Type _}

/-- The nodes that hang from `p`. -/
def children (at_ : Forest ι α) (p : ι) : Set ι := {c | ∃ a, at_ c = some (p, a)}

/-- The way up from the node ends. -/
inductive Rooted (at_ : Forest ι α) : ι → Prop
  | top {i : ι} (h : at_ i = none) : Rooted at_ i
  | step {i p : ι} {a : α} (h : at_ i = some (p, a)) (hp : Rooted at_ p) : Rooted at_ i

/-- One gets from `a` down to the node along the labels. -/
inductive Leads (at_ : Forest ι α) (a : ι) : ι → List α → Prop
  | refl : Leads at_ a a []
  | step {i p : ι} {labels : List α} {l : α} (h : at_ i = some (p, l)) (hp : Leads at_ a p labels) :
      Leads at_ a i (labels ++ [l])

/-- The node is `a`, or in the tree below it. -/
def Below (at_ : Forest ι α) (a i : ι) : Prop := ∃ labels, Leads at_ a i labels

/-- There are no cycles. -/
def Acyclic (at_ : Forest ι α) : Prop := ∀ i, Rooted at_ i

section Ways

variable {at_ : Forest ι α} {a i p : ι} {l : α} {labels labels' : List α}

theorem Below.refl (at_ : Forest ι α) (a : ι) : Below at_ a a := ⟨[], .refl⟩

theorem Below.step (h : at_ i = some (p, l)) (hp : Below at_ a p) : Below at_ a i := by
  obtain ⟨labels, hp⟩ := hp
  exact ⟨_, .step h hp⟩

theorem mem_children : i ∈ children at_ p ↔ ∃ l, at_ i = some (p, l) := Iff.rfl

/-- Ways are put together. -/
theorem Leads.trans {b : ι} (h : Leads at_ a b labels) (h' : Leads at_ b i labels') :
    Leads at_ a i (labels ++ labels') := by
  induction h' with
  | refl => rwa [List.append_nil]
  | step hi _ ih =>
      rw [← List.append_assoc]
      exact .step hi ih

/-- There is only one way from a node that hangs nowhere. -/
theorem Leads.unique (ha : at_ a = none) (h : Leads at_ a i labels) (h' : Leads at_ a i labels') :
    labels = labels' := by
  induction h generalizing labels' with
  | refl =>
      cases h' with
      | refl => rfl
      | step hi _ => rw [ha] at hi; cases hi
  | step hi _ ih =>
      cases h' with
      | refl => rw [ha] at hi; cases hi
      | step hi' hp' =>
          rw [hi] at hi'
          cases hi'
          rw [ih hp']

/-- A way does not change if the nodes on it, and with them all above, are where
    they were. -/
theorem Leads.frame_iff {at' : Forest ι α} {U : ι → Prop}
    (hup : ∀ {j q m}, U j → at_ j = some (q, m) → U q) (hsame : ∀ {j}, U j → at' j = at_ j)
    (hi : U i) : Leads at' a i labels ↔ Leads at_ a i labels := by
  constructor
  · intro h
    induction h with
    | refl => exact .refl
    | step hat _ ih =>
        rw [hsame hi] at hat
        exact .step hat (ih (hup hi hat))
  · intro h
    induction h with
    | refl => exact .refl
    | step hat _ ih => exact .step ((hsame hi).trans hat) (ih (hup hi hat))

/-- The way to a node that is not below the one that moves does not change. -/
theorem Leads.frame {at' : Forest ι α} {b : ι} (h : Leads at_ a i labels) (hi : ¬ Below at_ b i)
    (hsame : ∀ j, j ≠ b → at' j = at_ j) : Leads at' a i labels := by
  apply (Leads.frame_iff (U := fun j => ¬ Below at_ b j) _ _ hi).mpr h
  · exact fun hj hat hq => hj (hq.step hat)
  · intro j hj
    apply hsame
    rintro rfl
    exact hj (.refl _ _)

/-- What is below a node, but is not the node, hangs from something below it. -/
theorem Below.parent (h : Below at_ a i) (hne : i ≠ a) (hat : at_ i = some (p, l)) : Below at_ a p := by
  obtain ⟨labels, h⟩ := h
  cases h with
  | refl => exact absurd rfl hne
  | step hat' hp =>
      rw [hat] at hat'
      cases hat'
      exact ⟨_, hp⟩

/-- Ways are not made by taking nodes off. -/
theorem Below.of_less {at' : Forest ι α} (hless : ∀ {j x}, at' j = some x → at_ j = some x)
    (h : Below at' a i) : Below at_ a i := by
  obtain ⟨labels, h⟩ := h
  induction h with
  | refl => exact .refl _ _
  | step hat _ ih => exact ih.step (hless hat)

/-- No node is below itself by a way that is not empty. -/
theorem Rooted.not_below (h : Rooted at_ i) (hat : at_ i = some (p, l)) : ¬ Below at_ i p := by
  rintro ⟨labels, hp⟩
  -- the way from `i` to `p` and back to `i` never ends
  have hloop : ∀ {q : ι}, Rooted at_ q → ∀ {ls : List α}, Leads at_ i q ls → False := by
    intro q hq
    induction hq with
    | top hnone =>
        intro ls hls
        cases hls with
        | refl => rw [hat] at hnone; cases hnone
        | step hq _ => rw [hnone] at hq; cases hq
    | step hq _ ihq =>
        intro ls hls
        cases hls with
        | refl =>
            rw [hat] at hq
            cases hq
            exact ihq hp
        | step hq' hls' =>
            rw [hq] at hq'
            cases hq'
            exact ihq hls'
  exact hloop h .refl

/-- The way within a tree does not change when its root moves. -/
theorem Leads.within {at' : Forest ι α} (hrooted : Rooted at_ a) (h : Leads at_ a i labels)
    (hsame : ∀ j, j ≠ a → Below at_ a j → at' j = at_ j) : Leads at' a i labels := by
  induction h with
  | refl => exact .refl
  | @step i p labels l hat hp ih =>
      have hne : i ≠ a := by
        rintro rfl
        exact hrooted.not_below hat ⟨labels, hp⟩
      exact .step ((hsame i hne ⟨_, .step hat hp⟩).trans hat) ih

end Ways

-- ============================================================================
-- The way up
-- ============================================================================

/-- The nodes from `i` up to `top`, which is not among them, with their labels. -/
inductive Way (at_ : Forest ι α) (top : ι) : ι → List (ι × α) → Prop
  | top : Way at_ top top []
  | step {i p : ι} {l : α} {way : List (ι × α)} (hne : i ≠ top) (h : at_ i = some (p, l))
      (hp : Way at_ top p way) : Way at_ top i ((i, l) :: way)

section Way

variable {at_ at' : Forest ι α} {top a i : ι} {way way' : List (ι × α)}

theorem Way.unique (h : Way at_ top i way) (h' : Way at_ top i way') : way = way' := by
  induction h generalizing way' with
  | top =>
      cases h' with
      | top => rfl
      | step hne _ _ => exact absurd rfl hne
  | step hne hat _ ih =>
      cases h' with
      | top => exact absurd rfl hne
      | step _ hat' hp' =>
          rw [hat] at hat'
          cases hat'
          rw [ih hp']

/-- Every node of a way is where the way says. -/
theorem Way.at_mem (h : Way at_ top i way) {x : ι × α} (hx : x ∈ way) :
    x.1 ≠ top ∧ ∃ p, at_ x.1 = some (p, x.2) := by
  induction h with
  | top => exact absurd hx List.not_mem_nil
  | @step i p l way hne hat _ ih =>
      rcases List.mem_cons.mp hx with rfl | hx
      · exact ⟨hne, p, hat⟩
      · exact ih hx

/-- A way does not change as long as its nodes stay where they are. -/
theorem Way.frame (h : Way at_ top i way) (hsame : ∀ x ∈ way, at' x.1 = at_ x.1) :
    Way at' top i way := by
  induction h with
  | top => exact .top
  | step hne hat _ ih =>
      refine .step hne ((hsame _ List.mem_cons_self).trans hat) (ih fun x hx => ?_)
      exact hsame x (List.mem_cons_of_mem _ hx)

/-- The way up, read from above. -/
theorem Way.leads (h : Way at_ top i way) : Leads at_ top i (way.map Prod.snd).reverse := by
  induction h with
  | top => exact .refl
  | step _ hat _ ih =>
      rw [List.map_cons, List.reverse_cons]
      exact .step hat ih

/-- A node of a way is above where the way begins. -/
theorem Way.mem_above (h : Way at_ top i way) {x : ι × α} (hx : x ∈ way) : Below at_ x.1 i := by
  induction h with
  | top => exact absurd hx List.not_mem_nil
  | step _ hat _ ih =>
      rcases List.mem_cons.mp hx with rfl | hx
      · exact .refl _ _
      · exact (ih hx).step hat

/-- What is above a node is on its way. -/
theorem Way.mem_of_below (h : Way at_ top i way) (htop : at_ top = none) (ha : a ≠ top)
    (hbelow : Below at_ a i) : a ∈ way.map Prod.fst := by
  obtain ⟨labels, hleads⟩ := hbelow
  induction hleads generalizing way with
  | refl =>
      cases h with
      | top => exact absurd rfl ha
      | step _ _ _ => exact List.mem_cons_self
  | step hat _ ih =>
      cases h with
      | top =>
          rw [htop] at hat
          cases hat
      | step _ hat' hp =>
          rw [hat] at hat'
          cases hat'
          exact List.mem_cons_of_mem _ (ih hp)

/-- The way of a node on the way is the rest of it. -/
theorem Way.suffix (h : Way at_ top i way) {x : ι × α} (hx : x ∈ way) :
    ∃ rest, Way at_ top x.1 rest ∧ rest.length ≤ way.length := by
  induction h with
  | top => exact absurd hx List.not_mem_nil
  | step hne hat hp ih =>
      rcases List.mem_cons.mp hx with rfl | hx
      · exact ⟨_, .step hne hat hp, le_rfl⟩
      · obtain ⟨rest, hrest, hle⟩ := ih hx
        exact ⟨rest, hrest, hle.trans (Nat.le_succ _)⟩

/-- No node is on a way twice. -/
theorem Way.nodup (h : Way at_ top i way) : (way.map Prod.fst).Nodup := by
  induction h with
  | top => exact List.nodup_nil
  | step hne hat hp ih =>
      rw [List.map_cons, List.nodup_cons]
      refine ⟨fun hmem => ?_, ih⟩
      obtain ⟨x, hx, hxi⟩ := List.mem_map.mp hmem
      obtain ⟨rest, hrest, hle⟩ := hp.suffix hx
      -- the way from `i` would be shorter than itself
      have heq := (Way.step hne hat hp).unique (hxi ▸ hrest)
      rw [← heq, List.length_cons] at hle
      exact absurd hle (Nat.not_succ_le_self _)

/-- Every way up ends. -/
theorem Rooted.exists_way (h : Rooted at_ i) : ∃ top way, at_ top = none ∧ Way at_ top i way := by
  induction h with
  | top hat => exact ⟨_, [], hat, .top⟩
  | @step i p a hat _ ih =>
      obtain ⟨top, way, htop, hway⟩ := ih
      refine ⟨top, _, htop, .step ?_ hat hway⟩
      rintro rfl
      rw [htop] at hat
      cases hat

end Way

-- ============================================================================
-- Taking off and hanging up
-- ============================================================================

section Changes

variable [DecidableEq ι] {at_ : Forest ι α} {i p q : ι} {l : α}

/-- A node is taken off. -/
def detach (at_ : Forest ι α) (i : ι) : Forest ι α := Function.update at_ i none

/-- A node is hung up. -/
def attach (at_ : Forest ι α) (i p : ι) (l : α) : Forest ι α := Function.update at_ i (some (p, l))

@[simp] theorem detach_self : detach at_ i i = none := Function.update_self ..

theorem detach_of_ne {j : ι} (h : j ≠ i) : detach at_ i j = at_ j := Function.update_of_ne h ..

/-- A node that hangs nowhere cannot be taken off. -/
theorem detach_of_none (h : at_ i = none) : detach at_ i = at_ := by
  rw [detach, ← h, Function.update_eq_self]

theorem attach_detach : attach (detach at_ i) i p l = attach at_ i p l := Function.update_idem ..

@[simp] theorem attach_self : attach at_ i p l i = some (p, l) := Function.update_self ..

theorem attach_of_ne {j : ι} (h : j ≠ i) : attach at_ i p l j = at_ j := Function.update_of_ne h ..

theorem children_attach_self (hi : at_ i = none) :
    children (attach at_ i p l) p = insert i (children at_ p) := by
  ext c
  rw [Set.mem_insert_iff, mem_children, mem_children]
  by_cases hc : c = i
  · subst hc
    simp
  · rw [attach_of_ne hc]
    simp [hc]

theorem children_attach_of_ne (hi : at_ i = none) (hq : q ≠ p) :
    children (attach at_ i p l) q = children at_ q := by
  ext c
  rw [mem_children, mem_children]
  by_cases hc : c = i
  · subst hc
    simp [hi, hq.symm]
  · rw [attach_of_ne hc]

theorem children_detach_self (at_ : Forest ι α) (i p : ι) :
    children (detach at_ i) p = children at_ p \ {i} := by
  ext c
  rw [Set.mem_sdiff, mem_children, mem_children, Set.mem_singleton_iff]
  by_cases hc : c = i
  · subst hc
    simp
  · rw [detach_of_ne hc]
    simp [hc]

theorem children_detach_of_ne (hi : at_ i = some (p, l)) (hq : q ≠ p) :
    children (detach at_ i) q = children at_ q := by
  rw [children_detach_self]
  apply Set.sdiff_singleton_eq_self
  rintro ⟨l', hl'⟩
  rw [hi] at hl'
  cases hl'
  exact hq rfl

theorem Below.of_detach {j : ι} (h : Below (Forest.detach at_ j) i p) : Below at_ i p := by
  apply h.of_less
  intro k x hk
  have hne : k ≠ j := by
    rintro rfl
    rw [detach_self] at hk
    cases hk
  exact (detach_of_ne hne).symm.trans hk

theorem Rooted.detach (h : Rooted at_ q) : Rooted (Forest.detach at_ i) q := by
  induction h with
  | @top j hj =>
      by_cases hji : j = i
      · exact .top (hji ▸ detach_self)
      · exact .top ((detach_of_ne hji).trans hj)
  | @step j p a hj _ ih =>
      by_cases hji : j = i
      · exact .top (hji ▸ detach_self)
      · exact .step ((detach_of_ne hji).trans hj) ih

theorem Acyclic.detach (h : Acyclic at_) (i : ι) : Acyclic (Forest.detach at_ i) :=
  fun j => (h j).detach

/-- A node may be hung up anywhere but below itself. -/
theorem Acyclic.attach (h : Acyclic at_) (hp : ¬ Below at_ i p) (l : α) :
    Acyclic (Forest.attach at_ i p l) := by
  have hkeep : ∀ {q : ι}, Rooted at_ q → ¬ Below at_ i q → Rooted (Forest.attach at_ i p l) q := by
    intro q hq
    induction hq with
    | @top j hj =>
        intro hbelow
        have hne : j ≠ i := by
          rintro rfl
          exact hbelow (.refl _ _)
        exact .top ((attach_of_ne hne).trans hj)
    | @step j p' a hj _ ih =>
        intro hbelow
        have hne : j ≠ i := by
          rintro rfl
          exact hbelow (.refl _ _)
        exact .step ((attach_of_ne hne).trans hj) (ih fun hb => hbelow (hb.step hj))
  have hself : Rooted (Forest.attach at_ i p l) i := .step attach_self (hkeep (h p) hp)
  intro q
  induction h q with
  | @top j hj =>
      by_cases hji : j = i
      · exact hji ▸ hself
      · exact .top ((attach_of_ne hji).trans hj)
  | @step j p' a hj _ ih =>
      by_cases hji : j = i
      · exact hji ▸ hself
      · exact .step ((attach_of_ne hji).trans hj) ih

/-- A tree that is taken from one place and hung up at another: the way to each
    of its nodes is the way to the new place, and on as before. -/
theorem Leads.moved {root j : ι} {labels inner : List α} (hrooted : Rooted at_ i)
    (hp : Leads at_ root p labels) (hbelow : ¬ Below at_ i p) (hj : Leads at_ i j inner) :
    Leads (Forest.attach at_ i p l) root j (labels ++ [l] ++ inner) := by
  have hp' : Leads (Forest.attach at_ i p l) root p labels :=
    hp.frame hbelow fun _ hne => attach_of_ne hne
  have hi : Leads (Forest.attach at_ i p l) root i (labels ++ [l]) := .step attach_self hp'
  exact hi.trans (hj.within hrooted fun _ hne _ => attach_of_ne hne)

end Changes

end Forest

end FuseNt.Lib
