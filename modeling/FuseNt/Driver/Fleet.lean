/-
  FuseNt.Driver.Fleet

  Several mounted modules in one pool.

  The nodes of all queues come from the same pool, and a node that was freed
  may be handed out again for another module.  What an operation on one module
  can do is `Local`: it changes the module's own nodes and memory that was
  free, and nothing else.  `Fleet` is the invariant that the lists of the
  mounted modules are on different nodes and hold different packets; local
  operations keep it.
-/

import FuseNt.Driver.Identity
import FuseNt.Driver.ModuleMap
import FuseNt.Driver.Replies

namespace FuseNt

open FuseNt.Lib

/-- A mounted module: where its `MODULE_STRUCT` is, and the lists its pointers
    stand for. -/
structure Mounted where
  addr : Addr
  ms : ModuleStruct
  U : List Entry
  M : List Entry
  O : List Entry
  nxt : Option Addr

namespace Mounted

/-- The nodes of its lists. -/
def nodes (x : Mounted) : List Addr := addrs x.U ++ addrs x.M ++ addrs x.O

/-- The packets of its lists. -/
def packets (x : Mounted) : List Pirp := FuseNt.packets x.U x.M x.O

/-- The lists are in the memory `h`. -/
def Sound (h : Heap Pirp) (x : Mounted) : Prop := Rep h x.ms x.U x.M x.O x.nxt

theorem mem_nodes {x : Mounted} {b : Addr} :
    b ∈ x.nodes ↔ b ∈ addrs x.U ∨ b ∈ addrs x.M ∨ b ∈ addrs x.O := by
  simp only [nodes, List.mem_append, or_assoc]

theorem Sound.frame {h h' : Heap Pirp} {x : Mounted} (hs : x.Sound h)
    (hf : ∀ b ∈ x.nodes, h' b = h b) : x.Sound h' :=
  Rep.frame hs fun b hb => hf b (mem_nodes.mpr hb)

theorem Sound.allocated {h : Heap Pirp} {x : Mounted} (hs : x.Sound h) {b : Addr}
    (hb : b ∈ x.nodes) : h b ≠ none :=
  Rep.allocated hs (mem_nodes.mp hb)

/-- A freshly mounted module. -/
def fresh (a : Addr) (name : List Wchar) (fop : Pfile) : Mounted :=
  ⟨a, ModuleStruct.zeroed name fop, [], [], [], none⟩

end Mounted

-- ============================================================================
-- Local operations
-- ============================================================================

/-- What an operation on the module `x` does; `us` and `ps` are the packets it
    puts on the userspace and the module queue. -/
structure Local (us ps : List Pirp) (w : World) (x : Mounted) (w' : World) (x' : Mounted) :
    Prop where
  addr : x'.addr = x.addr
  name : x'.ms.moduleName = x.ms.moduleName
  fop : x'.ms.moduleFileObject = x.ms.moduleFileObject
  sound : x'.Sound w'.heap
  nodes : ∀ b ∈ x'.nodes, b ∈ x.nodes ∨ w.heap b = none
  frame : ∀ b, b ∉ x.nodes → w.heap b ≠ none → w'.heap b = w.heap b
  hashC : w.strHashC = 0 → w'.strHashC = 0
  owned : ∀ rest, Owned w.log (x.packets ++ rest) → Owned w'.log (x'.packets ++ rest)
  user : ∀ u ∈ vals x'.U, u ∈ vals x.U ∨ u ∈ us
  module : ∀ m ∈ vals x'.M, m ∈ vals x.M ∨ m ∈ ps
  out : ∀ u ∈ vals x'.O, u ∈ vals x.O ∨ u ∈ vals x.U ∨ u ∈ us
  log : ∃ evs, w'.log = w.log ++ evs ∧ ∀ u m, .delivered u m ∈ evs →
    (u ∈ vals x.U ∨ u ∈ us) ∧ (m ∈ vals x.M ∨ m ∈ ps)

namespace Local

variable {us ps : List Pirp} {w w' w'' : World} {x x' x'' : Mounted}

theorem refl (hs : x.Sound w.heap) : Local [] [] w x w x where
  addr := rfl
  name := rfl
  fop := rfl
  sound := hs
  nodes b hb := Or.inl hb
  frame _ _ _ := rfl
  hashC h := h
  owned _ h := h
  user u hu := Or.inl hu
  module m hm := Or.inl hm
  out u hu := Or.inl hu
  log := ⟨[], by simp, by simp⟩

/-- What puts nothing on the queues. -/
theorem mono (h : Local [] [] w x w' x') : Local us ps w x w' x' where
  addr := h.addr
  name := h.name
  fop := h.fop
  sound := h.sound
  nodes := h.nodes
  frame := h.frame
  hashC := h.hashC
  owned := h.owned
  user u hu := Or.inl ((h.user u hu).resolve_right (by simp))
  module m hm := Or.inl ((h.module m hm).resolve_right (by simp))
  out u hu := (h.out u hu).imp_right fun hu => Or.inl (hu.resolve_right (by simp))
  log := by
    obtain ⟨evs, hlog, hd⟩ := h.log
    refine ⟨evs, hlog, fun u m hm => ?_⟩
    obtain ⟨hu, hm⟩ := hd u m hm
    exact ⟨Or.inl (hu.resolve_right (by simp)), Or.inl (hm.resolve_right (by simp))⟩

/-- An operation, and then one that queues nothing. -/
theorem trans (h₁ : Local us ps w x w' x') (h₂ : Local [] [] w' x' w'' x'') :
    Local us ps w x w'' x'' where
  addr := h₂.addr.trans h₁.addr
  name := h₂.name.trans h₁.name
  fop := h₂.fop.trans h₁.fop
  sound := h₂.sound
  nodes b hb := by
    rcases h₂.nodes b hb with hb | hb
    · exact h₁.nodes b hb
    · by_contra hn
      obtain ⟨hx, hw⟩ := not_or.mp hn
      exact hw ((h₁.frame b hx hw).symm.trans hb)
  frame b hb hw := by
    have h := h₁.frame b hb hw
    refine (h₂.frame b (fun hx' => ?_) (h ▸ hw)).trans h
    exact (h₁.nodes b hx').elim hb hw
  hashC h := h₂.hashC (h₁.hashC h)
  owned rest h := h₂.owned rest (h₁.owned rest h)
  user u hu := h₁.user u ((h₂.user u hu).resolve_right (by simp))
  module m hm := h₁.module m ((h₂.module m hm).resolve_right (by simp))
  out u hu := by
    rcases h₂.out u hu with hu | hu | hu
    · exact h₁.out u hu
    · exact Or.inr (h₁.user u hu)
    · simp at hu
  log := by
    obtain ⟨evs₁, hlog₁, hd₁⟩ := h₁.log
    obtain ⟨evs₂, hlog₂, hd₂⟩ := h₂.log
    refine ⟨evs₁ ++ evs₂, by rw [hlog₂, hlog₁, List.append_assoc], fun u m hm => ?_⟩
    rcases List.mem_append.mp hm with hm | hm
    · exact hd₁ u m hm
    · obtain ⟨hu, hm⟩ := hd₂ u m hm
      exact ⟨h₁.user u (hu.resolve_right (by simp)), h₁.module m (hm.resolve_right (by simp))⟩

end Local

-- ============================================================================
-- The operations are local
-- ============================================================================

section Locality

variable {w w' : World} {x : Mounted} {ms' : ModuleStruct}

/-- A round of `FuseCheckForWork`. -/
theorem pairHead_local (hs : x.Sound w.heap) (hp : pairHead w x.ms = some (w', ms')) :
    ∃ x', x'.ms = ms' ∧ Local [] [] w x w' x' := by
  obtain ⟨hname, hfop⟩ := Prod.mk.inj (pairHead_keeps hp).identity
  obtain ⟨addr, ms, U₀, M₀, O, nxt⟩ := x
  obtain ⟨ua, u, U, ma, m, M, rfl, rfl⟩ := pairHead_heads hs hp
  cases pairHead_round hs hp with
  | dropUserspace _ hw hrep =>
      subst hw
      refine ⟨⟨addr, ms', U, (ma, m) :: M, O, nxt⟩, rfl, ?_⟩
      exact
        { addr := rfl, name := hname, fop := hfop, sound := hrep, hashC := id
          nodes := fun b hb => Or.inl (List.mem_cons_of_mem _ hb)
          frame := fun _ _ _ => rfl
          owned := fun rest h => h.sublist (List.sublist_cons_self ..)
          user := fun q hq => Or.inl (List.mem_cons_of_mem _ hq)
          module := fun q hq => Or.inl hq
          out := fun q hq => Or.inl hq
          log := ⟨[], by simp, by simp⟩ }
  | dropModule _ _ hw hrep =>
      subst hw
      refine ⟨⟨addr, ms', (ua, u) :: U, M, O, nxt⟩, rfl, ?_⟩
      exact
        { addr := rfl, name := hname, fop := hfop, sound := hrep, hashC := id
          nodes := fun b hb => by
            simp only [Mounted.mem_nodes] at hb ⊢
            grind
          frame := fun _ _ _ => rfl
          owned := fun rest h =>
            (h.perm ((packets_pop_module ..).append_right rest)).sublist
              (List.sublist_cons_self ..)
          user := fun q hq => Or.inl hq
          module := fun q hq => Or.inl (List.mem_cons_of_mem _ hq)
          out := fun q hq => Or.inl hq
          log := ⟨[], by simp, by simp⟩ }
  | deliver usp msp ws h' _ _ _ _ _ _ hw hrep hframe _ =>
      subst hw
      refine ⟨⟨addr, ms', U, M, O ++ [(ua, u)], headAddr U none⟩, rfl, ?_⟩
      exact
        { addr := rfl, name := hname, fop := hfop, sound := hrep, hashC := id
          nodes := fun b hb => by
            simp only [Mounted.mem_nodes] at hb ⊢
            grind
          frame := fun b hb _ => by
            simp only [Mounted.mem_nodes] at hb
            exact hframe b (by grind) (by grind)
          owned := fun rest h => by
            have hd := ((h.perm ((packets_deliver ..).append_right rest)).delivered u m).completed
            rwa [List.append_assoc] at hd
          user := fun q hq => Or.inl (List.mem_cons_of_mem _ hq)
          module := fun q hq => Or.inl (List.mem_cons_of_mem _ hq)
          out := fun q hq => by
            simp only [vals, List.map_append, List.mem_append] at hq ⊢
            grind
          log := ⟨[.delivered u m, .completed m], rfl, fun u' m' hm => by
            obtain ⟨rfl, rfl⟩ : u' = u ∧ m' = m := by simpa using hm
            simp⟩ }
  | bounce usp msp h' _ _ _ _ _ hw hrep hframe _ =>
      subst hw
      refine ⟨⟨addr, ms', (ua, u) :: U, M, O, nxt⟩, rfl, ?_⟩
      exact
        { addr := rfl, name := hname, fop := hfop, sound := hrep, hashC := id
          nodes := fun b hb => by
            simp only [Mounted.mem_nodes] at hb ⊢
            grind
          frame := fun b hb _ => by
            simp only [Mounted.mem_nodes] at hb
            exact hframe b (by grind)
          owned := fun rest h =>
            (h.perm ((packets_pop_module ..).append_right rest)).completed
          user := fun q hq => Or.inl hq
          module := fun q hq => Or.inl (List.mem_cons_of_mem _ hq)
          out := fun q hq => Or.inl hq
          log := ⟨[.completed m], rfl, by simp⟩ }

/-- The loop of `FuseCheckForWork`. -/
theorem pairLoop_local {inFlight : Option Pirp} {fuel : Nat} {found found' : Bool}
    (hs : x.Sound w.heap) (hp : pairLoop inFlight fuel w x.ms found = some (w', ms', found')) :
    ∃ x', x'.ms = ms' ∧ Local [] [] w x w' x' := by
  induction fuel generalizing w x found with
  | zero => simp [pairLoop] at hp
  | succ fuel ih =>
      rw [pairLoop] at hp
      split at hp
      · obtain ⟨mc, -, hp⟩ := Option.bind_eq_some_iff.mp hp
        obtain ⟨⟨w₁, ms₁⟩, hround, hp⟩ := Option.bind_eq_some_iff.mp hp
        obtain ⟨x₁, rfl, h₁⟩ := pairHead_local hs hround
        obtain ⟨x', hms, h'⟩ := ih h₁.sound hp
        exact ⟨x', hms, h₁.trans h'⟩
      · obtain ⟨rfl, rfl, rfl⟩ := by simpa using hp
        exact ⟨x, rfl, .refl hs⟩

/-- `FuseCheckForWork`. -/
theorem fuseCheckForWork_local {inFlight : Option Pirp} {fuel : Nat} {found : Bool}
    (hs : x.Sound w.heap) (hp : fuseCheckForWork fuel w x.ms inFlight = some (w', ms', found)) :
    ∃ x', x'.ms = ms' ∧ Local [] [] w x w' x' := by
  unfold fuseCheckForWork at hp
  split at hp
  · exact pairLoop_local hs hp
  · obtain ⟨rfl, rfl, rfl⟩ := by simpa using hp
    exact ⟨x, rfl, .refl hs⟩

/-- The append of `FuseAddIrpToModuleList`, for a packet that is not in use. -/
theorem appendIrp_local {p : Pirp} {b : Bool} {a : Addr}
    (hs : x.Sound w.heap) (hp : completions w.log p ≠ some 0)
    (happ : appendIrp w x.ms p b a = some (w', ms')) :
    (∃ x', x'.ms = ms' ∧ Local (if b then [] else [p]) (if b then [p] else []) w x w' x') ∧
      w'.log = w.log ++ [if b then .queuedModule p else .queuedUserspace p] := by
  have hfresh : w.heap a = none := by
    cases b with
    | false =>
        obtain ⟨⟨h₁, head₁⟩, happ, -⟩ := Option.bind_eq_some_iff.mp happ
        exact appendNode_fresh happ
    | true =>
        obtain ⟨⟨h₁, head₁⟩, happ, -⟩ := Option.bind_eq_some_iff.mp happ
        exact appendNode_fresh happ
  obtain ⟨addr, ms, U, M, O, nxt⟩ := x
  cases b with
  | false =>
      obtain ⟨h', ms₁, hspec, hrep, hfop, hname, hframe⟩ :=
        appendIrp_userspace (p := p) hs hfresh
      obtain ⟨rfl, rfl⟩ := by simpa using hspec.symm.trans happ
      refine ⟨⟨⟨addr, ms₁, U ++ [(a, p)], M, O, nxt⟩, rfl, ?_⟩, rfl⟩
      exact
        { addr := rfl, name := hname, fop := hfop, sound := hrep, hashC := id
          nodes := fun b hb => by
            simp only [Mounted.mem_nodes] at hb ⊢
            grind
          frame := fun b hb hall => by
            simp only [Mounted.mem_nodes] at hb
            exact hframe b (by grind) (by grind)
          owned := fun rest h =>
            (h.queued (Or.inl rfl) hp).perm ((packets_queue_userspace ..).append_right rest)
          user := fun q hq => by
            simp only [vals, List.map_append, List.mem_append] at hq ⊢
            grind
          module := fun q hq => Or.inl hq
          out := fun q hq => Or.inl hq
          log := ⟨[.queuedUserspace p], rfl, by simp⟩ }
  | true =>
      obtain ⟨h', ms₁, hspec, hrep, hfop, hname, hframe⟩ := appendIrp_module (p := p) hs hfresh
      obtain ⟨rfl, rfl⟩ := by simpa using hspec.symm.trans happ
      refine ⟨⟨⟨addr, ms₁, U, M ++ [(a, p)], O, nxt⟩, rfl, ?_⟩, rfl⟩
      exact
        { addr := rfl, name := hname, fop := hfop, sound := hrep, hashC := id
          nodes := fun b hb => by
            simp only [Mounted.mem_nodes] at hb ⊢
            grind
          frame := fun b hb hall => by
            simp only [Mounted.mem_nodes] at hb
            exact hframe b (by grind) (by grind)
          owned := fun rest h =>
            (h.queued (Or.inr rfl) hp).perm ((packets_queue_module ..).append_right rest)
          user := fun q hq => Or.inl hq
          module := fun q hq => by
            simp only [vals, List.map_append, List.mem_append] at hq ⊢
            grind
          out := fun q hq => Or.inl hq
          log := ⟨[.queuedModule p], rfl, by simp⟩ }

/-- `FuseAddIrpToModuleList` appends, or leaves everything as it is. -/
theorem fuseAddIrpToModuleList_append {ms : ModuleStruct} {p : Pirp} {b ok : Bool} {a : Addr}
    (hadd : fuseAddIrpToModuleList w ms p b a = some (w', ms', ok)) :
    appendIrp w ms p b a = some (w', ms') ∨ w' = w ∧ ms' = ms := by
  have hcases : ∀ c : Bool, (if c then (appendIrp w ms p b a).bind fun x => some (x.1, x.2, true)
      else some (w, ms, false)) = some (w', ms', ok) →
      appendIrp w ms p b a = some (w', ms') ∨ w' = w ∧ ms' = ms := by
    intro c hc
    cases c with
    | false =>
        obtain ⟨rfl, rfl, -⟩ := by simpa using hc
        exact Or.inr ⟨rfl, rfl⟩
    | true =>
        obtain ⟨⟨w₁, ms₁⟩, happ, heq⟩ := Option.bind_eq_some_iff.mp hc
        obtain ⟨rfl, rfl, -⟩ : w₁ = w' ∧ ms₁ = ms' ∧ true = ok := by simpa using heq
        exact Or.inl happ
  cases b with
  | false => exact hcases true hadd
  | true =>
      cases hsp : (w.irps p).currentStackLocation with
      | none => simp [fuseAddIrpToModuleList, hsp] at hadd
      | some sp =>
          simp only [fuseAddIrpToModuleList, if_true, hsp, Option.map_some] at hadd
          exact hcases _ hadd

/-- `FuseAddIrpToModuleList`, for a packet that is not in use. -/
theorem fuseAddIrpToModuleList_local {p : Pirp} {b ok : Bool} {a : Addr}
    (hs : x.Sound w.heap) (hp : completions w.log p ≠ some 0)
    (hadd : fuseAddIrpToModuleList w x.ms p b a = some (w', ms', ok)) :
    ∃ x', x'.ms = ms' ∧ Local (if b then [] else [p]) (if b then [p] else []) w x w' x' := by
  rcases fuseAddIrpToModuleList_append hadd with happ | ⟨rfl, rfl⟩
  · exact (appendIrp_local hs hp happ).1
  · exact ⟨x, rfl, (Local.refl hs).mono⟩

/-- What a response does that stays within the outstanding list: it completes
    requests of that list only. -/
theorem Reply.local {ok : Prop} {p : Pirp} {msg : Mem} {status : NtStatus}
    (h : Reply w x.ms x.U x.M x.O x.nxt ok p msg w' ms' status) (hs : x.Sound w.heap)
    (hkeeps : Keeps w x.ms w' ms') :
    (∃ x', x'.ms = ms' ∧ Local [] [] w x w' x') ∧
      ∃ us : List Pirp, w'.log = w.log ++ us.map .completed ∧ ∀ u ∈ us, u ∈ vals x.O := by
  obtain ⟨hname, hfop⟩ := Prod.mk.inj hkeeps.identity
  obtain ⟨addr, ms, U, M, O, nxt⟩ := x
  cases h with
  | rejected hw hms _ =>
      subst hw hms
      exact ⟨⟨_, rfl, .refl hs⟩, [], by simp, by simp⟩
  | dropped O₁ a O₂ _ hfound _ hw hrep =>
      subst hw
      obtain ⟨hsplit, -, -⟩ := hfound
      refine ⟨⟨⟨addr, ms', U, M, O₂, nxt⟩, rfl, ?_⟩, [], by simp, by simp⟩
      exact
        { addr := rfl, name := hname, fop := hfop, sound := hrep, hashC := id
          nodes := fun b hb => by
            simp only [Mounted.mem_nodes] at hb ⊢
            grind
          frame := fun _ _ _ => rfl
          owned := fun rest h => by
            refine h.sublist (List.Sublist.append_right (List.Sublist.append_left ?_ _) _)
            rw [hsplit]
            exact ((List.sublist_cons_self ..).trans (List.sublist_append_right ..)).map _
          user := fun q hq => Or.inl hq
          module := fun q hq => Or.inl hq
          out := fun q hq => Or.inl (by rw [hsplit]; simp [hq])
          log := ⟨[], by simp, by simp⟩ }
  | answered O₁ a O₂ h' usp fuel' irp' c hfound _ _ hfill hw hrep _ hframe =>
      subst hw
      obtain ⟨rfl, -, -⟩ := hfound
      refine ⟨⟨⟨addr, ms', U, M, O₁ ++ O₂, nxt⟩, rfl, ?_⟩, [p], rfl, by simp⟩
      exact
        { addr := rfl, name := hname, fop := hfop, sound := hrep
          hashC := fun h => fillResponse_static (h ▸ hfill)
          nodes := fun b hb => by
            simp only [Mounted.mem_nodes] at hb ⊢
            grind
          frame := fun b hb _ => by
            simp only [Mounted.mem_nodes] at hb
            exact hframe b (by grind)
          owned := fun rest h =>
            (h.perm ((packets_unlink ..).append_right rest)).completed
          user := fun q hq => Or.inl hq
          module := fun q hq => Or.inl hq
          out := fun q hq => Or.inl (by grind)
          log := ⟨[.completed p], rfl, by simp⟩ }

/-- `FuseCopyResponse` completes requests of the outstanding list only. -/
theorem fuseCopyResponse_local {fuel : Nat} {irp : Irp} {status : NtStatus}
    (hs : x.Sound w.heap) (hok : ReplyOk w x.ms (respPirp irp.systemBuffer))
    (hc : fuseCopyResponse fuel w x.ms irp = some (w', ms', status)) :
    (∃ x', x'.ms = ms' ∧ Local [] [] w x w' x') ∧
      ∃ us : List Pirp, w'.log = w.log ++ us.map .completed ∧ ∀ u ∈ us, u ∈ vals x.O :=
  (fuseCopyResponse_reply hs (ReplyOk.safe hs hok) hc).local hs (fuseCopyResponse_keeps hc)

end Locality

-- ============================================================================
-- The mounted modules
-- ============================================================================

/-- Two modules have no node in common. -/
def Mounted.Apart (x y : Mounted) : Prop := ∀ b ∈ x.nodes, b ∉ y.nodes

theorem Mounted.Apart.symm {x y : Mounted} (h : x.Apart y) : y.Apart x :=
  fun b hy hx => h b hx hy

/-- The modules `xs` are in memory, on different nodes and with different
    packets. -/
structure Fleet (d : Driver) (xs : List Mounted) : Prop where
  stored : ∀ x ∈ xs, d.modules x.addr = some x.ms
  distinct : (xs.map Mounted.addr).Nodup
  sound : ∀ x ∈ xs, x.Sound d.world.heap
  apart : xs.Pairwise Mounted.Apart
  owned : Owned d.world.log (xs.flatMap Mounted.packets)
  static : d.world.strHashC = 0

namespace Fleet

variable {d : Driver} {xs pre post : List Mounted} {x x' : Mounted}

/-- The packets' contents, the file names and the map do not matter. -/
theorem irrelevant (hf : Fleet d xs) (irps : Pirp → Irp) (files : Pfile → UnicodeString)
    (map : Table (List Wchar) Addr) (size : UInt32) :
    Fleet { d with world := { d.world with irps := irps, files := files }, map := map, size := size }
      xs :=
  ⟨hf.stored, hf.distinct, hf.sound, hf.apart, hf.owned, hf.static⟩

/-- A packet is completed that is on no list. -/
theorem complete {p : Pirp} (hf : Fleet d xs) (hp : p ∉ xs.flatMap Mounted.packets) :
    Fleet { d with world := d.world.complete p } xs :=
  ⟨hf.stored, hf.distinct, hf.sound, hf.apart, hf.owned.completed_other hp, hf.static⟩

theorem packets_middle :
    ((pre ++ x :: post).flatMap Mounted.packets).Perm
      (x.packets ++ (pre ++ post).flatMap Mounted.packets) := by
  simp only [List.flatMap_append, List.flatMap_cons]
  rw [← List.append_assoc, ← List.append_assoc]
  exact List.perm_append_comm.append_right _

theorem mem_other {y : Mounted} (hy : y ∈ pre ++ post) : y ∈ pre ++ x :: post := by
  rw [List.mem_append, List.mem_cons]
  exact (List.mem_append.mp hy).imp id Or.inr

/-- The other modules are at other addresses and on other nodes. -/
theorem others (hf : Fleet d (pre ++ x :: post)) {y : Mounted} (hy : y ∈ pre ++ post) :
    y.addr ≠ x.addr ∧ x.Apart y := by
  have hmid := (List.pairwise_middle (fun h => Mounted.Apart.symm h)).mp hf.apart
  have hnd := (List.perm_middle.map Mounted.addr).nodup_iff.mp hf.distinct
  refine ⟨fun h => ?_, (List.pairwise_cons.mp hmid).1 y hy⟩
  exact (List.nodup_cons.mp hnd).1 (h ▸ List.mem_map_of_mem hy)

/-- Other modules keep their nodes when one module works. -/
theorem others_sound (hf : Fleet d (pre ++ x :: post)) {h' : Heap Pirp}
    (hframe : ∀ b, b ∉ x.nodes → d.world.heap b ≠ none → h' b = d.world.heap b) {y : Mounted}
    (hy : y ∈ pre ++ post) : y.Sound h' := by
  have hs := hf.sound y (mem_other hy)
  refine hs.frame fun b hb => hframe b (fun hx => ?_) (hs.allocated hb)
  exact (hf.others hy).2 b hx hb

/-- A module works. -/
theorem update {us ps : List Pirp} {w' : World} (hf : Fleet d (pre ++ x :: post))
    (hl : Local us ps d.world x w' x') :
    Fleet { d.setModule x.addr (some x'.ms) with world := w' } (pre ++ x' :: post) := by
  have hothers := fun y hy => hf.others_sound hl.frame (y := y) hy
  refine ⟨?_, ?_, ?_, ?_, ?_, hl.hashC hf.static⟩
  · intro y hy
    rcases List.mem_cons.mp (List.perm_middle.mem_iff.mp hy) with rfl | hy
    · exact if_pos hl.addr
    · exact (if_neg (hf.others hy).1).trans (hf.stored y (mem_other hy))
  · have hmap : (pre ++ x' :: post).map Mounted.addr = (pre ++ x :: post).map Mounted.addr := by
      simp [hl.addr]
    rw [hmap]
    exact hf.distinct
  · intro y hy
    rcases List.mem_cons.mp (List.perm_middle.mem_iff.mp hy) with rfl | hy
    · exact hl.sound
    · exact hothers y hy
  · have hmid := (List.pairwise_middle (fun h => Mounted.Apart.symm h)).mp hf.apart
    refine (List.pairwise_middle (fun h => Mounted.Apart.symm h)).mpr
      (List.pairwise_cons.mpr ⟨fun y hy b hb hby => ?_, (List.pairwise_cons.mp hmid).2⟩)
    rcases hl.nodes b hb with hx | hfree
    · exact (hf.others hy).2 b hx hby
    · exact (hf.sound y (mem_other hy)).allocated hby hfree
  · exact (hl.owned _ (hf.owned.perm packets_middle)).perm packets_middle.symm

/-- A module is mounted. -/
theorem mount (hf : Fleet d xs) {a : Addr} (ha : d.modules a = none) (name : List Wchar)
    (fop : Pfile) :
    Fleet (d.setModule a (some (ModuleStruct.zeroed name fop)))
      (xs ++ [Mounted.fresh a name fop]) := by
  have hne : ∀ y ∈ xs, y.addr ≠ a := fun y hy h => by
    have := hf.stored y hy
    simp [h, ha] at this
  refine ⟨?_, ?_, ?_, ?_, ?_, hf.static⟩
  · intro y hy
    rcases List.mem_append.mp hy with hy | hy
    · exact (if_neg (hne y hy)).trans (hf.stored y hy)
    · rw [List.mem_singleton.mp hy]
      exact if_pos rfl
  · rw [List.map_append, List.nodup_append]
    refine ⟨hf.distinct, by simp, fun b hb c hc hbc => ?_⟩
    obtain ⟨y, hy, rfl⟩ := List.mem_map.mp hb
    obtain rfl : c = a := by simpa [Mounted.fresh] using hc
    exact hne y hy hbc
  · intro y hy
    rcases List.mem_append.mp hy with hy | hy
    · exact hf.sound y hy
    · rw [List.mem_singleton.mp hy]
      exact Rep.zeroed ..
  · refine List.pairwise_append.mpr ⟨hf.apart, List.pairwise_singleton .., fun y _ z hz => ?_⟩
    rw [List.mem_singleton.mp hz]
    simp [Mounted.Apart, Mounted.nodes, Mounted.fresh]
  · have hpk : (xs ++ [Mounted.fresh a name fop]).flatMap Mounted.packets =
        xs.flatMap Mounted.packets := by
      simp [Mounted.fresh, Mounted.packets]
    rw [hpk]
    exact hf.owned

/-- A module whose outstanding list ends is dismounted. -/
theorem dismount {fuel : Nat} {w' : World} (hf : Fleet d (pre ++ x :: post)) (hx : x.nxt = none)
    (hd : moduleStructDelete fuel d.world x.ms = some w') :
    Fleet { d.setModule x.addr none with world := w' } (pre ++ post) := by
  have hs : Rep d.world.heap x.ms x.U x.M x.O none := hx ▸ hf.sound x (by simp)
  obtain ⟨hlog, hframe⟩ := moduleStructDelete_spec hs hd
  have hstatic := (moduleStructDelete_static hd).1
  have hsub : (pre ++ post).Sublist (pre ++ x :: post) :=
    List.Sublist.append_left (List.sublist_cons_self ..) _
  refine ⟨?_, hf.distinct.sublist (hsub.map _), ?_, hf.apart.sublist hsub, ?_,
    hstatic.trans hf.static⟩
  · intro y hy
    exact (if_neg (hf.others hy).1).trans (hf.stored y (mem_other hy))
  · intro y hy
    refine hf.others_sound (fun b hb _ => ?_) hy
    simp only [Mounted.mem_nodes, not_or] at hb
    exact hframe b hb.1 hb.2.1 hb.2.2
  · have hperm : x.packets.Perm (vals x.M ++ vals x.U ++ vals x.O) :=
      List.perm_append_comm.append_right _
    show Owned w'.log _
    rw [hlog]
    exact ((hf.owned.perm packets_middle).perm (hperm.append_right _)).completed_all

end Fleet

end FuseNt
