/-
  FuseNt.Module.PathWalk

  The calls that a create request makes to the node layer.

  The node layer trusts its caller: it aborts if it is called for a node that
  is not there, and dereferences a NULL pointer if ".." is looked up in the
  root.  `fusent_do_create` walks down a path that a program has passed to
  `CreateFile`, and there are two ways for it to go wrong: a ".." too many, and
  a lookup that fails but, as `negative_timeout` is set, is answered with node
  0.  `Walks` is the condition that neither happens.
-/

import FuseNt.Module.Answers
import FuseNt.Module.Nodes

namespace FuseNt

open FuseNt.Lib

-- ============================================================================
-- The process
-- ============================================================================

/-- A call of an operation, the state it was made in, and the reply if there is
    one. -/
structure Issued (φ : Type) where
  call : LlCall
  before : Fuse φ
  reply : Option FsReply

/-- The process of the module: the state of the library, unless it has stopped,
    and the calls that were made to it. -/
structure Process (φ : Type) where
  fuse : Except Stop (Fuse φ)
  calls : List (Issued φ)

section Process

variable {φ : Type} (cfg : FuseConfig) (fs : PathFs φ)

/-- A call, which is made only while the process is running. -/
def Process.perform (s : Process φ) (c : LlCall) : List FsReply × Process φ :=
  match s.fuse with
  | .error _ => ([], s)
  | .ok f =>
      match fusePathOps cfg fs f c with
      | .error stop => ([], ⟨.error stop, s.calls ++ [⟨c, f, none⟩]⟩)
      | .ok (reply, f') => ([reply], ⟨.ok f', s.calls ++ [⟨c, f, some reply⟩]⟩)

/-- The handlers over the node layer; the uninitialised memory is as in `base`. -/
def fuseEnv (base : Env (Process φ)) : Env (Process φ) :=
  { base with
    implements := fun _ => true
    op := Process.perform cfg fs }

/-- The node id in the reply to a lookup. -/
def repliedNodeid (r : FsReply) : Nat := fuseIno (leNat ((r.iov.headD []).take 8))

/-- The call was a lookup that was answered with the node `ino`. -/
def Issued.Yields (x : Issued φ) (ino : Nat) : Prop :=
  x.call.op = .lookup ∧ ∃ r, x.reply = some r ∧ r.error = 0 ∧ repliedNodeid r = ino

/-- The call names a node that exists: the root, or one that an earlier lookup
    was answered with. -/
structure NamesNode (earlier : List (Issued φ)) (x : Issued φ) : Prop where
  exists_node : (x.before.idTable x.call.nodeid).isSome
  known : x.call.nodeid = fuseRootId ∨
    (x.call.nodeid ≠ 0 ∧ ∃ y ∈ earlier, y.Yields x.call.nodeid)

/-- The call names a node that exists, and is not for ".." in the root. -/
def ProperCall (earlier : List (Issued φ)) (x : Issued φ) : Prop :=
  NamesNode earlier x ∧ x.call ≠ .lookup fuseRootId dotdot

/-- All calls were proper, and the process has neither aborted nor dereferenced
    the NULL parent of the root. -/
structure Disciplined (s : Process φ) : Prop where
  proper : ∀ earlier x later, s.calls = earlier ++ x :: later → ProperCall earlier x
  running : s.fuse ≠ .error .abort ∧ s.fuse ≠ .error .nullParent

-- ============================================================================
-- Paths
-- ============================================================================

/-- Looking up the names one after the other, from the node with the names
    `names`, does not lead above the root, and none of them is reported missing
    by a file system that is mounted with `negative_timeout`. -/
def Walks : φ → List FileName → List FileName → Prop
  | _, _, [] => True
  | st, names, name :: rest =>
      let attr := fs.getattr st (pathString (goTo names name))
      ¬ (name = dotdot ∧ names = []) ∧
        if attr.1.1 = 0 then Walks attr.2 (goTo names name) rest
        else ¬ (attr.1.1 = -eNoEnt ∧ cfg.negativeTimeout)

instance decidableWalks :
    ∀ (st : φ) (names rest : List FileName), Decidable (Walks cfg fs st names rest)
  | _, _, [] => .isTrue trivial
  | st, names, name :: rest =>
      have := decidableWalks (fs.getattr st (pathString (goTo names name))).2 (goTo names name) rest
      inferInstanceAs (Decidable (_ ∧ ite _ _ _))

/-- The path that `fusent_get_parent_inode` is called with. -/
def walkedPath (fn : List UInt8) (creates : Bool) : List UInt8 :=
  if creates then fn else fn ++ [slash, 0x61]

/-- The names that are looked up on the path. -/
def walkedNames (path : List UInt8) : List FileName := (path.tail.splitOn slash).dropLast

/-- A path can be walked: it is not one that is walked, or the walk is in order. -/
def Walkable (st : φ) (path : List UInt8) : Prop :=
  path.head? = some slash → Walks cfg fs st [] (walkedNames path)

-- ============================================================================
-- One call
-- ============================================================================

section Call

variable {cfg fs} {base : Env (Process φ)} {s : Process φ} {f f' : Fuse φ} {n : Node} {c : LlCall}
  {reply : FsReply}

theorem fuseLlOp_fuseEnv (s : Process φ) (c : LlCall) :
    fuseLlOp (fuseEnv cfg fs base) s c = s.perform cfg fs c := rfl

theorem perform_stopped {stop : Stop} (h : s.fuse = .error stop) (c : LlCall) :
    s.perform cfg fs c = ([], s) := by
  unfold Process.perform
  rw [h]

theorem perform_ok (h : s.fuse = .ok f) (hop : fusePathOps cfg fs f c = .ok (reply, f')) :
    s.perform cfg fs c = ([reply], ⟨.ok f', s.calls ++ [⟨c, f, some reply⟩]⟩) := by
  unfold Process.perform
  rw [h]
  simp only [hop]

theorem perform_stops {stop : Stop} (h : s.fuse = .ok f)
    (hop : fusePathOps cfg fs f c = .error stop) :
    s.perform cfg fs c = ([], ⟨.error stop, s.calls ++ [⟨c, f, none⟩]⟩) := by
  unfold Process.perform
  rw [h]
  simp only [hop]

theorem proper_snoc {calls : List (Issued φ)} {x : Issued φ} :
    (∀ earlier y later, calls ++ [x] = earlier ++ y :: later → ProperCall earlier y) ↔
      (∀ earlier y later, calls = earlier ++ y :: later → ProperCall earlier y) ∧
        ProperCall calls x := by
  constructor
  · intro h
    refine ⟨fun earlier y later hcalls => ?_, h calls x [] rfl⟩
    exact h earlier y (later ++ [x]) (by rw [hcalls]; simp)
  · rintro ⟨h, hx⟩ earlier y later hcalls
    rcases List.eq_nil_or_concat later with rfl | ⟨later, z, rfl⟩
    · obtain ⟨rfl, hxy⟩ := List.append_inj' hcalls rfl
      obtain ⟨rfl, -⟩ := List.cons.inj hxy
      exact hx
    · rw [List.concat_eq_append, ← List.cons_append, ← List.append_assoc] at hcalls
      exact h earlier y later (List.append_inj' hcalls rfl).1

/-- The walk has come to the node `n`. -/
structure Standing (s : Process φ) (f : Fuse φ) (n : Node) : Prop where
  fuse : s.fuse = .ok f
  ok : NodesOk f
  node : f.idTable n.nodeid = some n
  proper : ∀ earlier x later, s.calls = earlier ++ x :: later → ProperCall earlier x
  known : n.nodeid = fuseRootId ∨ ∃ y ∈ s.calls, y.Yields n.nodeid

/-- A call for that node is proper. -/
theorem Standing.properCall (h : Standing s f n) (hc : c.nodeid = n.nodeid)
    (hroot : c ≠ .lookup fuseRootId dotdot) (reply : Option FsReply) :
    ProperCall s.calls ⟨c, f, reply⟩ := by
  refine ⟨⟨?_, ?_⟩, hroot⟩
  · simp only [hc, h.node, Option.isSome_some]
  · simp only [hc]
    exact h.known.imp_right fun hknown => ⟨Nat.ne_of_gt (h.ok.range h.node).1, hknown⟩

/-- Whatever comes of it. -/
theorem Standing.perform (h : Standing s f n) (hc : c.nodeid = n.nodeid)
    (hroot : c ≠ .lookup fuseRootId dotdot) : Disciplined (s.perform cfg fs c).2 := by
  have hn : f.idTable c.nodeid = some n := by
    rw [hc]
    exact h.node
  rcases fusePathOps_serves cfg fs h.ok hn hroot with ⟨reply, f', hop, -⟩ | hop
  · rw [perform_ok h.fuse hop]
    exact ⟨proper_snoc.mpr ⟨h.proper, h.properCall hc hroot _⟩, by simp⟩
  · rw [perform_stops h.fuse hop]
    exact ⟨proper_snoc.mpr ⟨h.proper, h.properCall hc hroot _⟩, by simp⟩

/-- A call for a node that is not there is not proper. -/
theorem not_disciplined_of_missing (h : s.fuse = .ok f) (hc : f.idTable c.nodeid = none) :
    ¬ Disciplined (s.perform cfg fs c).2 := by
  intro hd
  have hcalls : ∃ reply, (s.perform cfg fs c).2.calls = s.calls ++ [⟨c, f, reply⟩] := by
    rcases fusePathOps_missing cfg fs hc with hop | hop
    · exact ⟨none, by rw [perform_stops h hop]⟩
    · exact ⟨_, by rw [perform_ok h hop]⟩
  obtain ⟨reply, hcalls⟩ := hcalls
  have hexists := (hd.proper s.calls _ [] hcalls).1.exists_node
  rw [hc] at hexists
  cases hexists

theorem FuseEntryOut.length_toBytes (e : FuseEntryOut) : e.toBytes.length = sizeofFuseEntryOut := by
  simp [FuseEntryOut.toBytes, e.rest_length, sizeofFuseEntryOut]

theorem fuseReplyEntry_iov (e : FuseEntryOut) : (fuseReplyEntry e).iov = [e.toBytes] := by
  have hne : e.toBytes ≠ [] := by
    intro hnil
    have hlen := e.length_toBytes
    rw [hnil] at hlen
    cases hlen
  simp [fuseReplyEntry, sendReply, hne]

/-- A lookup that is answered with an entry: the node id is read back. -/
theorem hijackedCall_entry {σ : Type} {env : Env σ} {t : σ} {c : LlCall} {e : FuseEntryOut}
    (h : RepliesWith env t c (fuseReplyEntry e)) (hid : e.nodeid < 2 ^ 32) (buf : Mem) :
    (hijackedCall env t c buf sizeofFuseEntryOut).1.header.error = 0 ∧
      fuseIno ((hijackedCall env t c buf sizeofFuseEntryOut).1.buf.readLe 0 8) = e.nodeid := by
  rw [h.hijackedCall]
  refine ⟨by rw [fuseSendReplyIovNofree_header]; rfl, ?_⟩
  have htake : e.toBytes.take sizeofFuseEntryOut = e.toBytes :=
    List.take_of_length_le e.length_toBytes.le
  simp only [fuseSendReplyIovNofree, fuseReplyEntry_iov, htake]
  have hread := Mem.read_slice (Mem.read_write_same buf 0 e.toBytes) 0 8
    (by rw [e.length_toBytes]; decide)
  rw [List.drop_zero, FuseEntryOut.toBytes, List.take_left' (length_leBytes 8 _)] at hread
  have hnat : (buf.write 0 e.toBytes).readLe 0 8 = e.nodeid :=
    (congrArg leNat hread).trans (leNat_leBytes_of_lt (k := 8) (hid.trans (by norm_num)))
  rw [hnat]
  exact Nat.mod_eq_of_lt hid

theorem repliedNodeid_fuseReplyEntry {e : FuseEntryOut} (hid : e.nodeid < 2 ^ 32) :
    repliedNodeid (fuseReplyEntry e) = e.nodeid := by
  rw [repliedNodeid, fuseReplyEntry_iov, List.headD_cons, FuseEntryOut.toBytes,
    List.take_left' (length_leBytes 8 _),
    leNat_leBytes_of_lt (k := 8) (hid.trans (by norm_num))]
  exact Nat.mod_eq_of_lt hid

end Call

-- ============================================================================
-- The walk
-- ============================================================================

/-- The end of a create request, after the walk: the call that it comes down to. -/
def finishCreate {σ : Type} (env : Env σ) (mk : Nat → Nat → σ → LlCall)
    (r : (Int × Nat × Nat) × σ) : σ :=
  if r.1.1 < 0 then r.2 else (fuseLlOp env r.2 (mk r.1.2.1 r.1.2.2 r.2)).2

/-- The call at the end is for the node that the walk led to, and no lookup. -/
structure FinalCall {σ : Type} (mk : Nat → Nat → σ → LlCall) : Prop where
  nodeid : ∀ bn ino s, (mk bn ino s).nodeid = ino
  noLookup : ∀ bn ino s, (mk bn ino s).op ≠ .lookup

section Walk

variable {cfg fs} {base : Env (Process φ)} {s s' : Process φ} {f f' : Fuse φ} {n : Node}
  {mk : Nat → Nat → Process φ → LlCall} {bn ino off cur : Nat} {buf : Mem}
  {name next : FileName} {rest : List FileName}

/-- Nothing more happens once the process has stopped. -/
theorem finishCreate_stopped {stop : Stop} (h : s.fuse = .error stop) (parts : List FileName) :
    finishCreate (fuseEnv cfg fs base) mk
      (lookupParents (fuseEnv cfg fs base) bn ino s buf off cur parts) = s := by
  have hwalk : (lookupParents (fuseEnv cfg fs base) bn ino s buf off cur parts).2 = s := by
    induction parts generalizing buf off cur with
    | nil => rfl
    | cons name rest ih =>
        cases rest with
        | nil => rfl
        | cons next rest =>
            have hstate : (hijackedCall (fuseEnv cfg fs base) s (.lookup cur name) buf
                sizeofFuseEntryOut).2 = s := by
              rw [hijackedCall_state, fuseLlOp_fuseEnv, perform_stopped h]
            simp only [lookupParents, hstate]
            split
            · rfl
            · exact ih
  unfold finishCreate
  rw [hwalk]
  split
  · rfl
  · rw [fuseLlOp_fuseEnv, perform_stopped h]

/-- A lookup that stops the process. -/
theorem finishCreate_stops {stop : Stop} (hstop : s'.fuse = .error stop)
    (h : s.perform cfg fs (.lookup cur name) = ([], s')) :
    finishCreate (fuseEnv cfg fs base) mk
      (lookupParents (fuseEnv cfg fs base) bn ino s buf off cur (name :: next :: rest)) = s' := by
  have hstate : (hijackedCall (fuseEnv cfg fs base) s (.lookup cur name) buf
      sizeofFuseEntryOut).2 = s' := by
    rw [hijackedCall_state, fuseLlOp_fuseEnv, h]
  simp only [lookupParents, hstate]
  split
  · unfold finishCreate
    split
    · rfl
    · rw [fuseLlOp_fuseEnv, perform_stopped hstop]
  · exact finishCreate_stopped hstop _

/-- A lookup that is answered with an error. -/
theorem finishCreate_error {reply : FsReply} (herr : reply.error ≠ 0)
    (h : s.perform cfg fs (.lookup cur name) = ([reply], s')) :
    finishCreate (fuseEnv cfg fs base) mk
      (lookupParents (fuseEnv cfg fs base) bn ino s buf off cur (name :: next :: rest)) = s' := by
  have hreplies : RepliesWith (fuseEnv cfg fs base) s (.lookup cur name) reply :=
    congrArg Prod.fst h
  have hstate : (hijackedCall (fuseEnv cfg fs base) s (.lookup cur name) buf
      sizeofFuseEntryOut).2 = s' := by
    rw [hijackedCall_state, fuseLlOp_fuseEnv, h]
  have hheader : (hijackedCall (fuseEnv cfg fs base) s (.lookup cur name) buf
      sizeofFuseEntryOut).1.header.error = replyError reply.error := by
    rw [hijackedCall_header, hreplies.headerAfter]
  have hne : replyError reply.error ≠ 0 := replyError_eq_zero_iff.not.mpr herr
  have hneg : replyError reply.error < 0 := lt_of_le_of_ne (replyError_bounds _).2 hne
  simp only [lookupParents, hstate, hheader, if_pos hne]
  exact if_pos hneg

/-- A lookup that is answered with an entry. -/
theorem finishCreate_entry (base : Env (Process φ)) (mk : Nat → Nat → Process φ → LlCall)
    (bn ino off : Nat) (buf : Mem) (next : FileName) (rest : List FileName) {e : FuseEntryOut}
    (hid : e.nodeid < 2 ^ 32) (h : s.perform cfg fs (.lookup cur name) = ([fuseReplyEntry e], s')) :
    ∃ buf' off', finishCreate (fuseEnv cfg fs base) mk
        (lookupParents (fuseEnv cfg fs base) bn ino s buf off cur (name :: next :: rest)) =
      finishCreate (fuseEnv cfg fs base) mk
        (lookupParents (fuseEnv cfg fs base) bn ino s' buf' off' e.nodeid (next :: rest)) := by
  have hreplies : RepliesWith (fuseEnv cfg fs base) s (.lookup cur name) (fuseReplyEntry e) :=
    congrArg Prod.fst h
  have hstate : (hijackedCall (fuseEnv cfg fs base) s (.lookup cur name) buf
      sizeofFuseEntryOut).2 = s' := by
    rw [hijackedCall_state, fuseLlOp_fuseEnv, h]
  obtain ⟨herr, hino⟩ := hijackedCall_entry hreplies hid buf
  refine ⟨(hijackedCall (fuseEnv cfg fs base) s (.lookup cur name) buf sizeofFuseEntryOut).1.buf,
    off + name.length + 1, ?_⟩
  simp only [lookupParents, hstate, herr, hino, ne_eq, not_true, if_false]

theorem finishCreate_end (mk : Nat → Nat → Process φ → LlCall) (s : Process φ)
    {parts : List FileName} (hparts : parts.length < 2) :
    finishCreate (fuseEnv cfg fs base) mk
        (lookupParents (fuseEnv cfg fs base) bn ino s buf off cur parts) =
      (s.perform cfg fs (mk off cur s)).2 := by
  match parts, hparts with
  | [], _ => rfl
  | [_], _ => rfl

theorem Standing.properLookup (h : Standing s f n) (hroot : ¬ (name = dotdot ∧ n = .root))
    (reply : Option FsReply) : ProperCall s.calls ⟨.lookup n.nodeid name, f, reply⟩ := by
  refine h.properCall rfl ?_ reply
  intro hcall
  obtain ⟨hid, rfl⟩ := LlCall.lookup.inj hcall
  have hn := h.node
  rw [hid, h.ok.root] at hn
  exact hroot ⟨rfl, (Option.some.inj hn).symm⟩

/-- The lookup of a name from where the walk has come to. -/
theorem Standing.lookup (h : Standing s f n) {e : FuseEntryOut} {n' : Node}
    (hroot : ¬ (name = dotdot ∧ n = .root)) (hok : NodesOk f')
    (hnode : f'.idTable n'.nodeid = some n') (he : e.nodeid = n'.nodeid) :
    Standing ⟨.ok f', s.calls ++ [⟨.lookup n.nodeid name, f, some (fuseReplyEntry e)⟩]⟩ f' n' where
  fuse := rfl
  ok := hok
  node := hnode
  proper := proper_snoc.mpr ⟨h.proper, h.properLookup hroot _⟩
  known := by
    refine .inr ⟨_, List.mem_append_right _ (List.mem_singleton_self _), rfl, _, rfl, rfl, ?_⟩
    rw [← he]
    exact repliedNodeid_fuseReplyEntry (he ▸ (hok.range hnode).2)

theorem FinalCall.ne_lookup (hmk : FinalCall mk) (bn ino : Nat) (s : Process φ) (parent : Nat)
    (name : FileName) : mk bn ino s ≠ .lookup parent name :=
  fun h => hmk.noLookup bn ino s (by rw [h]; rfl)

/-- If the names can be walked, the calls are proper. -/
theorem disciplined_of_walks (hmk : FinalCall mk) (parts : List FileName) (h : Standing s f n)
    (hw : Walks cfg fs f.fs n.names parts.dropLast) :
    Disciplined (finishCreate (fuseEnv cfg fs base) mk
      (lookupParents (fuseEnv cfg fs base) bn ino s buf off n.nodeid parts)) := by
  induction parts generalizing s f n buf off with
  | nil =>
      rw [finishCreate_end mk s (by decide)]
      exact h.perform (hmk.nodeid ..) (hmk.ne_lookup _ _ _ _ _)
  | cons name rest ih =>
      cases rest with
      | nil =>
          rw [finishCreate_end mk s (by simp)]
          exact h.perform (hmk.nodeid ..) (hmk.ne_lookup _ _ _ _ _)
      | cons next rest =>
          obtain ⟨habove, hw⟩ := hw
          have hroot : ¬ (name = dotdot ∧ n = .root) := fun hroot =>
            habove ⟨hroot.1, by rw [hroot.2]; rfl⟩
          have hlook := fuseLibLookup_looksUp cfg fs h.ok h.node hroot
          generalize fs.getattr f.fs (pathString (goTo n.names name)) = attr at hlook hw
          generalize hop : fuseLibLookup cfg fs f n.nodeid name = r at hlook
          have hproper := fun reply =>
            proper_snoc.mpr ⟨h.proper, h.properLookup hroot reply⟩
          cases hlook with
          | @failed res stat st hres =>
              rw [if_neg hres] at hw
              have hreply : (failedLookup cfg res stat).error ≠ 0 := by
                rw [failedLookup, if_neg hw]
                simpa [fuseReplyErr, sendReply] using hres
              rw [finishCreate_error hreply (perform_ok h.fuse hop)]
              exact ⟨hproper _, by simp⟩
          | @found stat st n' f' hok hnode hnames hst hroom =>
              obtain ⟨buf', off', hnext⟩ := finishCreate_entry base mk bn ino off buf next rest
                (e := ⟨n'.nodeid, stat.rest, stat.rest_length⟩) (hok.range hnode).2
                (perform_ok h.fuse hop)
              rw [hnext]
              refine ih (h.lookup hroot hok hnode rfl) ?_
              rw [hnames, hst]
              simpa using hw
          | full hroom =>
              rw [finishCreate_stops rfl (perform_stops h.fuse hop)]
              exact ⟨hproper _, by simp⟩

/-- A walk that has come to node 0 makes a call for it. -/
theorem not_disciplined_of_zero (hmk : FinalCall mk) (h : s.fuse = .ok f) (hf : NodesOk f)
    (parts : List FileName) : ¬ Disciplined (finishCreate (fuseEnv cfg fs base) mk
      (lookupParents (fuseEnv cfg fs base) bn ino s buf off 0 parts)) := by
  have hzero : f.idTable 0 = none := by
    cases hnode : f.idTable 0 with
    | none => rfl
    | some n => exact absurd (hf.range hnode).1 (Nat.lt_irrefl 0)
  have hend : ¬ Disciplined (s.perform cfg fs (mk off 0 s)).2 :=
    not_disciplined_of_missing h (by rw [hmk.nodeid]; exact hzero)
  match parts with
  | [] => exact hend
  | [_] => exact hend
  | name :: next :: rest =>
      have hlookup : ¬ Disciplined (s.perform cfg fs (.lookup 0 name)).2 :=
        not_disciplined_of_missing h hzero
      rcases fusePathOps_missing cfg fs (c := .lookup 0 name) hzero with hop | hop
      · rw [finishCreate_stops rfl (perform_stops h hop)]
        rwa [perform_stops h hop] at hlookup
      · rw [finishCreate_error (by decide) (perform_ok h hop)]
        rwa [perform_ok h hop] at hlookup

/-- If there are ids for all the nodes on the way, only names that can be walked
    lead to no call that is not proper. -/
theorem walks_of_disciplined (hmk : FinalCall mk) (parts : List FileName) (h : Standing s f n)
    (hroom : Room f parts.dropLast.length)
    (hd : Disciplined (finishCreate (fuseEnv cfg fs base) mk
      (lookupParents (fuseEnv cfg fs base) bn ino s buf off n.nodeid parts))) :
    Walks cfg fs f.fs n.names parts.dropLast := by
  induction parts generalizing s f n buf off with
  | nil => exact trivial
  | cons name rest ih =>
      cases rest with
      | nil => exact trivial
      | cons next rest =>
          by_cases hroot : name = dotdot ∧ n = .root
          · -- the NULL parent of the root
            obtain ⟨rfl, rfl⟩ := hroot
            have hop : fusePathOps cfg fs f (.lookup fuseRootId dotdot) = .error .nullParent := by
              simp only [fusePathOps, fuseLibLookup, getNode_ok h.ok.root]
              rfl
            rw [Node.nodeid, finishCreate_stops rfl (perform_stops h.fuse hop)] at hd
            exact absurd rfl hd.running.2
          have habove : ¬ (name = dotdot ∧ n.names = []) := by
            rintro ⟨rfl, hnames⟩
            cases n with
            | root => exact hroot ⟨rfl, rfl⟩
            | child i name' parent => simp [Node.names] at hnames
          refine ⟨habove, ?_⟩
          have hlook := fuseLibLookup_looksUp cfg fs h.ok h.node hroot
          generalize fs.getattr f.fs (pathString (goTo n.names name)) = attr at hlook
          generalize hop : fuseLibLookup cfg fs f n.nodeid name = r at hlook
          cases hlook with
          | @failed res stat st hres =>
              rw [if_neg hres]
              intro hnegative
              rw [failedLookup, if_pos hnegative] at hop
              obtain ⟨buf', off', hnext⟩ := finishCreate_entry base mk bn ino off buf next rest
                (e := ⟨0, stat.rest, stat.rest_length⟩) (Nat.two_pow_pos 32) (perform_ok h.fuse hop)
              rw [hnext] at hd
              exact not_disciplined_of_zero hmk rfl (h.ok.withFs st) _ hd
          | @found stat st n' f' hok hnode hnames hst hroom' =>
              obtain ⟨buf', off', hnext⟩ := finishCreate_entry base mk bn ino off buf next rest
                (e := ⟨n'.nodeid, stat.rest, stat.rest_length⟩) (hok.range hnode).2
                (perform_ok h.fuse hop)
              rw [hnext] at hd
              have hrest := ih (h.lookup hroot hok hnode rfl) (hroom' hroom) hd
              rw [hnames, hst] at hrest
              simpa using hrest
          | full hfull =>
              obtain ⟨ids, hcard, hfree⟩ := hroom
              exact absurd ⟨ids, Nat.zero_lt_of_lt hcard, hfree⟩ hfull

end Walk

-- ============================================================================
-- Create requests
-- ============================================================================

/-- The path of a create request, up to its NUL. -/
def requestPath {σ : Type} (env : Env σ) (s : σ) (ntreq : Mem) : List UInt8 :=
  cString ((createPath env ntreq).1 ++ env.slack s)

/-- The request is for the root, which makes no calls. -/
def opensRoot {σ : Type} (env : Env σ) (s : σ) (ntreq : Mem) : Bool :=
  strncmpEq (createPath env ntreq).2 ((createPath env ntreq).1 ++ env.slack s) [slash]

/-- The name of the file that a create request makes. -/
def createdName (outbuf : List UInt8) (length bn : Nat) : FileName :=
  let moved := (outbuf.drop bn).take (length - bn) ++ [0]
  cString (moved ++ outbuf.drop moved.length)

/-- The call that a create request comes down to after its walk. -/
def finalCall {σ : Type} (env : Env σ) (s : σ) (ntreq : Mem) (options : Nat) (bn ino : Nat)
    (s' : σ) : LlCall :=
  if createsFile options then
    .create ino
      (createdName ((createPath env ntreq).1 ++ env.slack s) (createPath env ntreq).1.length bn)
      ((env.memory s').readLe 4 4) (createFuseFlags options)
  else .openFile ino (createFuseFlags options)

theorem finalCall_ok {σ : Type} (env : Env σ) (s : σ) (ntreq : Mem) (options : Nat) :
    FinalCall (finalCall env s ntreq options) := by
  constructor
  · intro bn ino s'
    unfold finalCall
    split <;> rfl
  · intro bn ino s'
    unfold finalCall
    split <;> simp [LlCall.op]

/-- The walk of a create request. -/
def createWalk {σ : Type} (env : Env σ) (s : σ) (ntreq : Mem) (options : Nat) :
    (Int × Nat × Nat) × σ :=
  fusentGetParentInode env s (walkedPath (requestPath env s ntreq) (createsFile options))
    ((env.memory s).readLe 0 8) ((env.memory s).readLe 8 4)

theorem createCall_cases {σ : Type} (env : Env σ) (s : σ) (ntreq : Mem) (options : Nat) :
    let r := createWalk env s ntreq options
    (r.1.1 < 0 ∧ createCall env s ntreq options = (none, r.2)) ∨
      (¬ r.1.1 < 0 ∧ ∃ basename, createCall env s ntreq options =
        (some (finalCall env s ntreq options r.1.2.1 r.1.2.2 r.2, basename), r.2)) := by
  unfold createWalk createCall finalCall walkedPath requestPath createdName
  cases createsFile options with
  | true =>
      simp only [if_true]
      exact (Decidable.em _).imp (fun hneg => ⟨hneg, if_pos hneg⟩)
        fun hneg => ⟨hneg, _, if_neg hneg⟩
  | false =>
      simp only [fusentGetInode, Bool.false_eq_true, if_false]
      exact (Decidable.em _).imp (fun hneg => ⟨hneg, if_pos hneg⟩)
        fun hneg => ⟨hneg, _, if_neg hneg⟩

theorem createHandle_root_process {σ : Type} (env : Env σ) (s : σ) (ntreq : Mem)
    (iosp : IoStackLocation) (hroot : opensRoot env s ntreq = true) :
    (createHandle env s ntreq iosp).2 = s := by
  unfold opensRoot at hroot
  unfold createHandle
  simp only [hroot, if_true]

/-- A create request is a walk and a call. -/
theorem createHandle_process {σ : Type} (env : Env σ) (s : σ) (ntreq : Mem)
    (iosp : IoStackLocation) (hroot : opensRoot env s ntreq = false) :
    (createHandle env s ntreq iosp).2 =
      finishCreate env (finalCall env s ntreq iosp.createOptions)
        (createWalk env s ntreq iosp.createOptions) := by
  unfold opensRoot at hroot
  unfold createHandle finishCreate
  simp only [hroot, Bool.false_eq_true, if_false]
  rcases createCall_cases env s ntreq iosp.createOptions with ⟨hneg, hcall⟩ | ⟨hneg, bn, hcall⟩
  · simp only [hcall, if_pos hneg]
  · simp only [hcall, if_neg hneg, hijackedCall_state]
    split <;> rfl

theorem fusentDoCreate_process {σ : Type} (env : Env σ) (s : σ) (t : Tables) (ntreq : Mem)
    (iosp : IoStackLocation) :
    (fusentDoCreate env s t ntreq iosp).2 = (createHandle env s ntreq iosp).2 := by
  unfold fusentDoCreate
  simp only
  split
  · rename_i hcreate
    rw [hcreate]
  · rename_i hcreate
    rw [hcreate]

/-- The path of a create request can be walked, or is not walked at all. -/
def SafeCreate (env : Env (Process φ)) (s : Process φ) (st : φ) (ntreq : Mem) (options : Nat) :
    Prop :=
  opensRoot env s ntreq = true ∨
    Walkable cfg fs st (walkedPath (requestPath env s ntreq) (createsFile options))

section Create

variable {cfg fs} {f : Fuse φ}

theorem standing_root (hf : NodesOk f) : Standing ⟨.ok f, []⟩ f .root where
  fuse := rfl
  ok := hf
  node := hf.root
  proper := by
    intro earlier x later h
    exact absurd h.symm (List.append_ne_nil_of_right_ne_nil _ (List.cons_ne_nil _ _))
  known := .inl rfl

theorem createWalk_fuseEnv (base : Env (Process φ)) (s : Process φ) (ntreq : Mem) (options : Nat)
    (hpath : (walkedPath (requestPath (fuseEnv cfg fs base) s ntreq)
      (createsFile options)).head? = some slash) :
    createWalk (fuseEnv cfg fs base) s ntreq options =
      lookupParents (fuseEnv cfg fs base) ((base.memory s).readLe 0 8) ((base.memory s).readLe 8 4) s
        (base.memory s) 1 Node.root.nodeid ((walkedPath (requestPath (fuseEnv cfg fs base) s ntreq)
          (createsFile options)).tail.splitOn slash) := by
  unfold createWalk fusentGetParentInode
  rw [if_neg (not_not.mpr hpath)]
  rfl

/-- In every state of the node layer, and whatever is in memory that has not
    been initialised: a create request whose path is in order makes only proper
    calls, and, while there are ids for new nodes, no other one does. -/
theorem create_disciplined (hf : FuseReached cfg fs f) (base : Env (Process φ)) (t : Tables)
    (ntreq : Mem) (iosp : IoStackLocation) :
    (SafeCreate cfg fs (fuseEnv cfg fs base) ⟨.ok f, []⟩ f.fs ntreq iosp.createOptions →
        Disciplined (fusentDoCreate (fuseEnv cfg fs base) ⟨.ok f, []⟩ t ntreq iosp).2) ∧
      (Room f (walkedNames (walkedPath (requestPath (fuseEnv cfg fs base) ⟨.ok f, []⟩ ntreq)
          (createsFile iosp.createOptions))).length →
        Disciplined (fusentDoCreate (fuseEnv cfg fs base) ⟨.ok f, []⟩ t ntreq iosp).2 →
        SafeCreate cfg fs (fuseEnv cfg fs base) ⟨.ok f, []⟩ f.fs ntreq iosp.createOptions) := by
  have hstanding := standing_root hf.nodesOk
  have hmk := finalCall_ok (fuseEnv cfg fs base) ⟨.ok f, []⟩ ntreq iosp.createOptions
  have hidle : Disciplined (⟨.ok f, []⟩ : Process φ) := ⟨hstanding.proper, by simp⟩
  rw [fusentDoCreate_process]
  unfold SafeCreate Walkable
  cases hroot : opensRoot (fuseEnv cfg fs base) ⟨.ok f, []⟩ ntreq with
  | true =>
      refine ⟨fun _ => ?_, fun _ _ => .inl rfl⟩
      rw [createHandle_root_process _ _ _ _ hroot]
      exact hidle
  | false =>
      rw [createHandle_process _ _ _ _ hroot]
      by_cases hpath : (walkedPath (requestPath (fuseEnv cfg fs base) ⟨.ok f, []⟩ ntreq)
          (createsFile iosp.createOptions)).head? = some slash
      · rw [createWalk_fuseEnv base _ ntreq _ hpath]
        constructor
        · intro hsafe
          exact disciplined_of_walks hmk _ hstanding (hsafe.resolve_left (by decide) hpath)
        · intro hroom hd
          exact .inr fun _ => walks_of_disciplined hmk _ hstanding hroom hd
      · refine ⟨fun _ => ?_, fun _ _ => .inr fun h => absurd h hpath⟩
        have hwalk : createWalk (fuseEnv cfg fs base) ⟨.ok f, []⟩ ntreq iosp.createOptions =
            ((-1, (base.memory ⟨.ok f, []⟩).readLe 0 8, (base.memory ⟨.ok f, []⟩).readLe 8 4),
              ⟨.ok f, []⟩) := if_pos hpath
        rw [hwalk]
        exact hidle

end Create

end Process

-- ============================================================================
-- Opening files
-- ============================================================================

/-- The attributes of a file. -/
def sampleStat : Stat := ⟨true, leBytes 120 0, length_zero_rest⟩

/-- A file system with the files at the paths that are `present`. -/
def sampleFs (present : FileName → Bool) : PathFs Unit where
  getattr := fun st path => ((if present path then 0 else -eNoEnt, sampleStat), st)
  fgetattr := fun st _ _ => ((0, sampleStat), st)
  openFile := fun st _ _ => ((0, 7, 0), st)
  create := fun st _ _ _ => ((0, 7, 0), st)
  release := fun st _ _ => st
  other := fun st _ _ => (fuseReplyErr eNoSys, st)

/-- Memory that is all zeros. -/
def zeroMemory : Env (Process Unit) where
  implements := fun _ => true
  op := fun s _ => ([], s)
  header := fun _ => ⟨0, 0⟩
  memory := fun _ => Mem.zeros
  slack := fun _ => []
  utf16leToUtf8 := lowPath
  transcode := sampleEnv.transcode
  unixtimeToWintime := id

/-- The stack location of an open request. -/
def sampleOpenSp : IoStackLocation :=
  { (default : IoStackLocation) with majorFunction := irpMjCreate, arg1 := 0x1000020 }

/-- An open request for the path, which ends in a NUL. -/
def openRequest (path : List UInt8) : Mem :=
  ntRequest 1 5 sampleOpenSp (leBytes 4 (2 * path.length) ++ path.flatMap (fun b => [b, 0]))

/-- The process after an open request, with `negative_timeout` set. -/
def sampleOpened (present : FileName → Bool) (path : List UInt8) : Process Unit :=
  (fusentDoCreate (fuseEnv ⟨true, false⟩ (sampleFs present) zeroMemory)
    ⟨.ok (fuseNewCommon ()), []⟩ fusentTranslateSetup (openRequest path) sampleOpenSp).2

/-- Why the process has stopped, if it has. -/
def Process.stop {φ : Type} (s : Process φ) : Option Stop :=
  match s.fuse with
  | .error stop => some stop
  | .ok _ => none

theorem Process.fuse_of_stop {φ : Type} {s : Process φ} {stop : Stop} (h : s.stop = some stop) :
    s.fuse = .error stop := by
  unfold Process.stop at h
  split at h
  · rename_i stop' hfuse
    rw [hfuse, Option.some.inj h]
  · cases h

/-- Opening "\\a", which is there. -/
theorem create_disciplined_present :
    Disciplined (sampleOpened (fun path => path = [slash, 0x61]) [0x5c, 0x61, 0]) := by
  refine (create_disciplined (.new ()) zeroMemory fusentTranslateSetup _ sampleOpenSp).1 ?_
  unfold SafeCreate Walkable
  decide +kernel

/-- Opening "\\a", which is not there, aborts the process, and opening "\\.."
    dereferences a NULL pointer. -/
theorem create_disciplined_fails :
    ¬ Disciplined (sampleOpened (fun _ => false) [0x5c, 0x61, 0]) ∧
      ¬ Disciplined (sampleOpened (fun _ => true) [0x5c, 0x2e, 0x2e, 0]) := by
  have habort : (sampleOpened (fun _ => false) [0x5c, 0x61, 0]).stop = some .abort := by
    decide +kernel
  have hnull : (sampleOpened (fun _ => true) [0x5c, 0x2e, 0x2e, 0]).stop = some .nullParent := by
    decide +kernel
  exact ⟨fun h => h.running.1 (Process.fuse_of_stop habort),
    fun h => h.running.2 (Process.fuse_of_stop hnull)⟩

end FuseNt
