/-
  FuseNt.Module.ParentInode

  `fusent_get_parent_inode` on the buffer that the path is in.

  The loop cuts the path at the next slash, has the file system look up the part
  before it, and puts the slash back; the reply is diverted by two pointers in
  the request.  `lookupParents` is the same walk over the parts of the path, as
  the other handlers use it.  `walkPath_eq` says that the loop comes to the same
  result, and leaves the buffer and the pointers as they were.
-/

import FuseNt.Lib.CString
import FuseNt.Module.PathWalk

namespace FuseNt

open FuseNt.Lib

-- ============================================================================
-- The loop
-- ============================================================================

/-- The fields of `struct fuse_req` that divert a reply: whether
    `response_hijack` and `response_hijack_buf` are set, and
    `response_hijack_buflen`. -/
structure HijackFields where
  responseHijack : Bool
  responseHijackBuf : Bool
  responseHijackBuflen : Nat
deriving DecidableEq

/-- What the loop works on: the buffer of the path, the request, the header on
    the stack and the buffer for an entry, which the pointers of the request
    point to, the file system, and the replies that were sent to the driver. -/
structure Walking (σ : Type) where
  path : List UInt8
  req : HijackFields
  out : OutHeader
  hijackbuf : Mem
  fs : σ
  sent : List FsReply

section Walk

variable {σ : Type} (env : Env σ)

/-- `fuse_send_reply_iov_nofree`. -/
def Walking.reply (w : Walking σ) (r : FsReply) : Walking σ :=
  if w.req.responseHijack then
    let out : OutHeader := ⟨(sizeofFuseOutHeader + r.length) % 2 ^ 32, replyError r.error⟩
    match r.iov with
    | [] => { w with out := out }
    | arg :: _ =>
        if w.req.responseHijackBuf then
          { w with
            out := out
            hijackbuf := w.hijackbuf.write 0 (arg.take w.req.responseHijackBuflen)
            req := { w.req with responseHijackBuflen := arg.length } }
        else { w with out := out }
  else { w with sent := w.sent ++ [r] }

/-- `fuse_ll_ops[FUSE_LOOKUP].func(req, parent, fn)`. -/
def Walking.lookup (w : Walking σ) (parent fn : Nat) : Walking σ :=
  let (replies, fs) := fuseLlOp env w.fs (.lookup parent (cString (w.path.drop fn)))
  replies.foldl Walking.reply { w with fs := fs }

/-- The request is armed for a reply of one entry. -/
def Walking.arm (w : Walking σ) : Walking σ :=
  { w with out := env.header w.fs, req := ⟨true, true, sizeofFuseEntryOut⟩ }

def Walking.disarm (w : Walking σ) : Walking σ :=
  { w with req := { w.req with responseHijack := false, responseHijackBuf := false } }

/-- Store a byte in the path. -/
def Walking.store (w : Walking σ) (i : Nat) (b : UInt8) : Walking σ :=
  { w with path := w.path.set i b }

/-- The loop of `fusent_get_parent_inode`: the result, and what is in `*bn` and
    `*in`.  `none` if it has not ended within its fuel, or if the path does not
    end within its buffer. -/
def walkPath (bn ino : Nat) : Nat → Nat → Nat → Walking σ → Option ((Int × Nat × Nat) × Walking σ)
  | 0, _, _, _ => none
  | fuel + 1, fn, curino, w =>
      match strchr slash (w.path.drop fn) with
      | none => none
      | some none => some ((0, fn, curino), w)
      | some (some k) =>
          let nextsl := fn + k
          let w := ((((w.store nextsl 0).arm env).lookup env curino fn).disarm).store nextsl slash
          if w.out.error ≠ 0 then some ((w.out.error, bn, ino), w)
          else walkPath bn ino fuel (nextsl + 1) (fuseIno (w.hijackbuf.readLe 0 8)) w

/-- `fusent_get_parent_inode`. -/
def walkToParent (fuel bn ino : Nat) (w : Walking σ) : Option ((Int × Nat × Nat) × Walking σ) :=
  match w.path with
  | [] => none
  | b :: _ =>
      if b ≠ slash then some ((-1, bn, ino), w)
      else if !env.implements .lookup then some ((-1, bn, ino), w)
      else walkPath env bn ino fuel 1 fuseRootId { w with hijackbuf := env.memory w.fs }

end Walk

-- ============================================================================
-- A round
-- ============================================================================

section Round

variable {σ : Type} {pre name rest : List UInt8} {w : Walking σ}

theorem cString_append (h : 0 ∉ name) : cString (name ++ 0 :: rest) = name := by
  have hall : ∀ b ∈ name, decide (b ≠ 0) = true := by
    intro b hb
    refine decide_eq_true ?_
    rintro rfl
    exact h hb
  rw [cString, List.takeWhile_append_of_pos hall]
  simp

/-- A byte of the path that is replaced. -/
theorem set_between (b c : UInt8) :
    (pre ++ (name ++ c :: rest)).set (pre.length + name.length) b = pre ++ (name ++ b :: rest) := by
  rw [List.set_append_right _ _ (Nat.le_add_right _ _), Nat.add_sub_cancel_left,
    List.set_append_right _ _ (Nat.le_refl _), Nat.sub_self]
  rfl

/-- Replies to a request that is armed are stored as `fuseSendReplyIovNofree`
    says. -/
theorem Walking.foldl_reply {n : Nat} (replies : List FsReply) (hreq : w.req = ⟨true, true, n⟩) :
    replies.foldl Walking.reply w =
      let h := replies.foldl fuseSendReplyIovNofree ⟨w.out, w.hijackbuf, n⟩
      { w with out := h.header, hijackbuf := h.buf, req := ⟨true, true, h.buflen⟩ } := by
  induction replies generalizing w n with
  | nil =>
      obtain ⟨path, req, out, hijackbuf, fs, sent⟩ := w
      cases hreq
      rfl
  | cons r rest ih =>
      obtain ⟨path, req, out, hijackbuf, fs, sent⟩ := w
      cases hreq
      simp only [List.foldl_cons, Walking.reply, fuseSendReplyIovNofree, if_true]
      cases r.iov with
      | nil => exact ih rfl
      | cons arg more => exact ih rfl

/-- A round looks up the part before the slash, and leaves the path and the
    pointers as they were. -/
theorem walk_round (env : Env σ) (curino : Nat) (hpath : w.path = pre ++ (name ++ slash :: rest))
    (hname : 0 ∉ name) :
    ((((w.store (pre.length + name.length) 0).arm env).lookup env curino pre.length).disarm).store
        (pre.length + name.length) slash =
      let (h, s) := hijackedCall env w.fs (.lookup curino name) w.hijackbuf sizeofFuseEntryOut
      { w with out := h.header, hijackbuf := h.buf, fs := s, req := ⟨false, false, h.buflen⟩ } := by
  obtain ⟨path, req, out, hijackbuf, fs, sent⟩ := w
  simp only at hpath
  subst hpath
  have hcut : cString ((pre ++ (name ++ 0 :: rest)).drop pre.length) = name := by
    rw [List.drop_left, cString_append hname]
  simp only [Walking.store, Walking.arm, Walking.lookup, set_between, hcut, hijackedCall]
  rw [Walking.foldl_reply _ rfl]
  simp only [Walking.disarm, set_between]

end Round

-- ============================================================================
-- The walk
-- ============================================================================

/-- A part of a path. -/
def Component (c : List UInt8) : Prop := 0 ∉ c ∧ slash ∉ c

instance : DecidablePred Component := fun c => inferInstanceAs (Decidable (0 ∉ c ∧ slash ∉ c))

/-- Both pointers are NULL. -/
def HijackFields.Idle (req : HijackFields) : Prop :=
  req.responseHijack = false ∧ req.responseHijackBuf = false

/-- A walk leaves the path as it was, the pointers NULL, and has sent nothing. -/
structure Restored {σ : Type} (w w' : Walking σ) : Prop where
  path : w'.path = w.path
  idle : w'.req.Idle
  sent : w'.sent = w.sent

section Walk

variable {σ : Type} {post : List UInt8} {cs : List (List UInt8)}

/-- The loop walks over the parts of the path. -/
theorem walkPath_eq (env : Env σ) (w : Walking σ) (pre : List UInt8) (bn ino curino : Nat)
    (hne : cs ≠ []) (hcs : ∀ c ∈ cs, Component c)
    (hpath : w.path = pre ++ ([slash].intercalate cs ++ 0 :: post)) (hidle : w.req.Idle) :
    ∃ w', (∀ fuel, cs.length ≤ fuel → walkPath env bn ino fuel pre.length curino w =
        some ((lookupParents env bn ino w.fs w.hijackbuf pre.length curino cs).1, w')) ∧
      w'.fs = (lookupParents env bn ino w.fs w.hijackbuf pre.length curino cs).2 ∧
      Restored w w' := by
  induction cs generalizing pre curino w with
  | nil => exact absurd rfl hne
  | cons c rest ih =>
      obtain ⟨hnul, hslash⟩ := hcs c List.mem_cons_self
      cases rest with
      | nil =>
          refine ⟨w, fun fuel hfuel => ?_, rfl, rfl, hidle, rfl⟩
          obtain ⟨fuel, rfl⟩ : ∃ n, fuel = n + 1 := ⟨fuel - 1, by simp at hfuel; omega⟩
          rw [walkPath, hpath, List.drop_left, List.intercalate_singleton,
            strchr_missing hslash hnul (by decide)]
          rfl
      | cons d rest =>
          rw [List.intercalate_cons_cons, List.append_assoc, List.append_assoc,
            List.singleton_append] at hpath
          have hround := walk_round env curino hpath hnul
          have hstr : strchr slash (w.path.drop pre.length) = some (some c.length) := by
            rw [hpath, List.drop_left, strchr_found hslash hnul]
          rw [lookupParents]
          dsimp only at hround ⊢
          generalize hijackedCall env w.fs (.lookup curino c) w.hijackbuf sizeofFuseEntryOut = r
            at hround ⊢
          obtain ⟨h, s⟩ := r
          dsimp only at hround ⊢
          by_cases herr : h.header.error ≠ 0
          case pos =>
              refine ⟨{ w with
                out := h.header, hijackbuf := h.buf, fs := s, req := ⟨false, false, h.buflen⟩ },
                fun fuel hfuel => ?_, ?_, rfl, ⟨rfl, rfl⟩, rfl⟩
              · obtain ⟨fuel, rfl⟩ : ∃ n, fuel = n + 1 := ⟨fuel - 1, by simp at hfuel; omega⟩
                rw [walkPath, hstr]
                simp only [hround, if_pos herr]
              · rw [if_pos herr]
          case neg =>
              -- the rest of the path is behind the slash
              have hpath' : w.path = pre ++ (c ++ [slash]) ++
                  ([slash].intercalate (d :: rest) ++ 0 :: post) := by
                rw [hpath]
                simp only [List.append_assoc, List.singleton_append]
              obtain ⟨w', hrun, hfs, hrestored⟩ := ih
                { w with
                  out := h.header, hijackbuf := h.buf, fs := s, req := ⟨false, false, h.buflen⟩ }
                (pre ++ (c ++ [slash])) (fuseIno (h.buf.readLe 0 8)) (List.cons_ne_nil _ _)
                (fun c hc => hcs c (List.mem_cons_of_mem _ hc)) hpath' ⟨rfl, rfl⟩
              have hlen : (pre ++ (c ++ [slash])).length = pre.length + c.length + 1 := by
                simp only [List.length_append, List.length_cons, List.length_nil]
                omega
              rw [hlen] at hrun hfs
              rw [if_neg herr]
              refine ⟨w', fun fuel hfuel => ?_, hfs, hrestored.path, hrestored.idle, hrestored.sent⟩
              obtain ⟨fuel, rfl⟩ : ∃ n, fuel = n + 1 := ⟨fuel - 1, by simp at hfuel; omega⟩
              rw [walkPath, hstr]
              simp only [hround, if_neg herr]
              exact hrun fuel (by simpa using hfuel)

end Walk

-- ============================================================================
-- Lookups one after the other
-- ============================================================================

/-- How a file system replies to a lookup: with an entry, whose number is a
    `fuse_ino_t`, or with an error. -/
inductive LookupReply where
  | entry (e : FuseEntryOut) (small : e.nodeid < 2 ^ 32)
  | err (errno : Int) (ne_zero : errno ≠ 0)

def LookupReply.toReply : LookupReply → FsReply
  | entry e _ => fuseReplyEntry e
  | err errno _ => fuseReplyErr errno

section Lookups

variable {σ : Type} {env : Env σ}

/-- The names looked up one after the other, each in the node of the one before:
    the last node, or the first error. -/
def lookupNames (lookup : σ → Nat → List UInt8 → LookupReply × σ) :
    σ → Nat → List (List UInt8) → Except Int Nat × σ
  | s, ino, [] => (.ok ino, s)
  | s, ino, c :: rest =>
      match lookup s ino c with
      | (.entry e _, s) => lookupNames lookup s e.nodeid rest
      | (.err errno _, s) => (.error (replyError (-errno)), s)

/-- The file system implements `lookup`, and replies to it before it returns. -/
structure AnswersLookup (env : Env σ) (lookup : σ → Nat → List UInt8 → LookupReply × σ) : Prop where
  implements : env.implements .lookup = true
  op : ∀ s ino name, env.op s (.lookup ino name) =
    ([(lookup s ino name).1.toReply], (lookup s ino name).2)

variable {lookup : σ → Nat → List UInt8 → LookupReply × σ}

theorem AnswersLookup.call (h : AnswersLookup env lookup) (s : σ) (ino : Nat) (name : List UInt8) :
    fuseLlOp env s (.lookup ino name) =
      ([(lookup s ino name).1.toReply], (lookup s ino name).2) := by
  have himpl : env.implements (LlCall.lookup ino name).op = true := h.implements
  rw [fuseLlOp, if_pos himpl, h.op]

/-- The offset of the name behind some parts. -/
def behindParts (off : Nat) (init : List (List UInt8)) : Nat :=
  off + (init.map fun c => c.length + 1).sum

/-- The walk over the parts is the lookup of all but the last. -/
theorem lookupParents_eq (h : AnswersLookup env lookup) (bn ino : Nat) (s : σ) (hijackbuf : Mem)
    (off curino : Nat) (init : List (List UInt8)) (last : List UInt8) :
    lookupParents env bn ino s hijackbuf off curino (init ++ [last]) =
      match lookupNames lookup s curino init with
      | (.ok parent, s') => ((0, behindParts off init, parent), s')
      | (.error e, s') => ((e, bn, ino), s') := by
  induction init generalizing s hijackbuf off curino with
  | nil => rfl
  | cons c rest ih =>
      obtain ⟨d, more, hmore⟩ : ∃ d more, rest ++ [last] = d :: more :=
        List.exists_cons_of_ne_nil (by simp)
      rw [List.cons_append, hmore, lookupParents, lookupNames, ← hmore]
      have hcall := h.call s curino c
      have hstate : (hijackedCall env s (.lookup curino c) hijackbuf sizeofFuseEntryOut).2 =
          (lookup s curino c).2 := by
        rw [hijackedCall_state, hcall]
      cases hreply : lookup s curino c with
      | mk reply s₁ =>
          rw [hreply] at hcall hstate
          have hreplies : RepliesWith env s (.lookup curino c) reply.toReply :=
            congrArg Prod.fst hcall
          cases reply with
          | entry e hsmall =>
              obtain ⟨herr, hid⟩ := hijackedCall_entry hreplies hsmall hijackbuf
              dsimp only
              rw [if_neg (not_not_intro herr), hstate, hid, ih]
              have hoff : behindParts (off + c.length + 1) rest = behindParts off (c :: rest) := by
                simp only [behindParts, List.map_cons, List.sum_cons]
                omega
              rw [hoff]
          | err errno hne =>
              have hheader := hreplies.headerAfter
              dsimp only
              have herr : replyError (-errno) ≠ 0 := by
                rw [Ne, replyError_eq_zero_iff]
                omega
              rw [hijackedCall_header, hheader, hstate]
              exact if_pos herr

end Lookups

-- ============================================================================
-- fusent_get_parent_inode
-- ============================================================================

/-- The walk to the parent of `last` ends, and gives back what it borrowed.  It
    returns the parent and the place of `last` if all parts before it are found,
    and otherwise the first error; nothing is looked up behind that. -/
def WalksToParent {σ : Type} (env : Env σ) (lookup : σ → Nat → List UInt8 → LookupReply × σ)
    (bn ino : Nat) (w : Walking σ) (init : List (List UInt8)) (last : List UInt8) : Prop :=
  ∃ res w', Settles (fun fuel => walkToParent env fuel bn ino w) (res, w') ∧ Restored w w' ∧
    match lookupNames lookup w.fs fuseRootId init with
    | (.ok parent, s) => w'.fs = s ∧ res = (0, behindParts 1 init, parent) ∧
        cString (w.path.drop (behindParts 1 init)) = last
    | (.error e, s) => w'.fs = s ∧ res = (e, bn, ino) ∧ e < 0

section Parent

variable {σ : Type} {env : Env σ} {lookup : σ → Nat → List UInt8 → LookupReply × σ}

theorem lookupNames_error {s s' : σ} {ino : Nat} {cs : List (List UInt8)} {e : Int}
    (h : lookupNames lookup s ino cs = (.error e, s')) : e < 0 := by
  induction cs generalizing s ino with
  | nil => cases h
  | cons c rest ih =>
      rw [lookupNames] at h
      split at h
      case h_1 => exact ih h
      case h_2 errno hne _ _ =>
          have he : replyError (-errno) = e := Except.error.inj (Prod.mk.inj h).1
          have hzero : ¬ replyError (-errno) = 0 := by
            rw [replyError_eq_zero_iff]
            omega
          have hle := (replyError_bounds (-errno)).2
          omega

/-- A path is the directory, a slash and the last part. -/
theorem path_eq_dir (init : List (List UInt8)) (last : List UInt8) :
    ∃ dir, slash :: [slash].intercalate (init ++ [last]) = dir ++ slash :: last ∧
      dir.length + 1 = behindParts 1 init := by
  induction init with
  | nil =>
      refine ⟨[], ?_, rfl⟩
      rw [List.nil_append, List.intercalate_singleton]
      rfl
  | cons c rest ih =>
      obtain ⟨dir, hdir, hlen⟩ := ih
      have hne : rest ++ [last] ≠ [] := by simp
      refine ⟨slash :: (c ++ dir), ?_, ?_⟩
      · rw [List.cons_append, List.intercalate_cons_of_ne_nil hne, List.append_assoc,
          List.singleton_append, hdir]
        simp only [List.cons_append, List.append_assoc]
      · simp only [behindParts, List.map_cons, List.sum_cons, List.length_cons,
          List.length_append] at hlen ⊢
        omega

/-- The last part of a path is where it should be. -/
theorem drop_behindParts (init : List (List UInt8)) (last post : List UInt8) :
    (slash :: ([slash].intercalate (init ++ [last]) ++ post)).drop (behindParts 1 init) =
      last ++ post := by
  obtain ⟨dir, hdir, hlen⟩ := path_eq_dir init last
  have hsplit : slash :: ([slash].intercalate (init ++ [last]) ++ post) =
      (dir ++ [slash]) ++ (last ++ post) := by
    rw [← List.cons_append, hdir]
    simp only [List.append_assoc, List.cons_append, List.nil_append]
  have hfront : (dir ++ [slash]).length = behindParts 1 init := by
    rw [List.length_append, ← hlen]
    rfl
  rw [hsplit, ← hfront, List.drop_left]

/-- The walk down a path with a leading slash. -/
theorem walkToParent_walks (h : AnswersLookup env lookup) (bn ino : Nat) {w : Walking σ}
    (hidle : w.req.Idle) {init : List (List UInt8)} {last post : List UInt8}
    (hparts : ∀ c ∈ init ++ [last], Component c)
    (hpath : w.path = slash :: ([slash].intercalate (init ++ [last]) ++ 0 :: post)) :
    WalksToParent env lookup bn ino w init last := by
  obtain ⟨w', hrun, hfs, hrestored⟩ := walkPath_eq env
    { w with hijackbuf := env.memory w.fs } [slash] bn ino fuseRootId
    (show init ++ [last] ≠ [] by simp) hparts hpath hidle
  have hstart : ∀ fuel, walkToParent env fuel bn ino w =
      walkPath env bn ino fuel 1 fuseRootId { w with hijackbuf := env.memory w.fs } := by
    intro fuel
    simp only [walkToParent, hpath, h.implements]
    rfl
  have hplace : cString (w.path.drop (behindParts 1 init)) = last := by
    rw [hpath, drop_behindParts]
    exact cString_append (hparts last (by simp)).1
  rw [lookupParents_eq h] at hrun hfs
  unfold WalksToParent
  dsimp only at hrun hfs
  cases hnames : lookupNames lookup w.fs fuseRootId init with
  | mk found s =>
      rw [hnames] at hrun hfs
      have hrestored' : Restored w w' := ⟨hrestored.path, hrestored.idle, hrestored.sent⟩
      cases found with
      | ok parent =>
          refine ⟨_, w', ⟨(init ++ [last]).length, fun fuel hfuel => ?_⟩, hrestored', hfs, rfl,
            hplace⟩
          exact (hstart fuel).trans (hrun fuel hfuel)
      | error e =>
          refine ⟨_, w', ⟨(init ++ [last]).length, fun fuel hfuel => ?_⟩, hrestored', hfs, rfl,
            lookupNames_error hnames⟩
          exact (hstart fuel).trans (hrun fuel hfuel)

theorem walkToParent_rejects (env : Env σ) (fuel bn ino : Nat) {w : Walking σ} {b : UInt8}
    {rest : List UInt8} (hpath : w.path = b :: rest) (hb : b ≠ slash) :
    walkToParent env fuel bn ino w = some ((-1, bn, ino), w) := by
  simp only [walkToParent, hpath, if_pos hb]

/-- `fusent_get_parent_inode` walks down every path with a leading slash, and
    rejects the others. -/
theorem parent_inode_walk (h : AnswersLookup env lookup) (bn ino : Nat) (w : Walking σ)
    (hidle : w.req.Idle) :
    (∀ init last post, (∀ c ∈ init ++ [last], Component c) →
        w.path = slash :: ([slash].intercalate (init ++ [last]) ++ 0 :: post) →
        WalksToParent env lookup bn ino w init last) ∧
      ∀ b rest, w.path = b :: rest → b ≠ slash →
        Settles (fun fuel => walkToParent env fuel bn ino w) ((-1, bn, ino), w) :=
  ⟨fun _ _ _ hparts hpath => walkToParent_walks h bn ino hidle hparts hpath,
    fun _ _ hpath hb => ⟨0, fun fuel _ => walkToParent_rejects env fuel bn ino hpath hb⟩⟩

end Parent

-- ============================================================================
-- Strings
-- ============================================================================

section Strings

variable {σ : Type} {env : Env σ} {lookup : σ → Nat → List UInt8 → LookupReply × σ}

theorem component_of_mem_splitOn {text c : List UInt8} (h : 0 ∉ text) (hc : c ∈ text.splitOn slash) :
    Component c := by
  induction text generalizing c with
  | nil =>
      rw [List.splitOn_nil, List.mem_singleton] at hc
      subst hc
      exact ⟨List.not_mem_nil, List.not_mem_nil⟩
  | cons b rest ih =>
      rw [List.mem_cons, not_or] at h
      rw [List.splitOn_cons_eq_if_modifyHead] at hc
      split at hc
      case isTrue =>
          rcases List.mem_cons.mp hc with rfl | hc
          · exact ⟨List.not_mem_nil, List.not_mem_nil⟩
          · exact ih h.2 hc
      case isFalse hb =>
          obtain ⟨d, more, hparts⟩ := List.exists_cons_of_ne_nil (List.splitOn_ne_nil slash rest)
          rw [hparts, List.modifyHead_cons] at hc
          rcases List.mem_cons.mp hc with rfl | hc
          · obtain ⟨hnul, hslash⟩ := ih h.2 (hparts ▸ List.mem_cons_self)
            refine ⟨?_, ?_⟩
            · rw [List.mem_cons, not_or]
              exact ⟨h.1, hnul⟩
            · rw [List.mem_cons, not_or]
              exact ⟨fun heq => hb (by simp [heq]), hslash⟩
          · exact ih h.2 (hparts ▸ List.mem_cons_of_mem _ hc)

theorem AnswersLookup.error_le (h : AnswersLookup env lookup) (s : σ) (ino : Nat) (name : List UInt8)
    (buf : Mem) (buflen : Nat) :
    (hijackedCall env s (.lookup ino name) buf buflen).1.header.error ≤ 0 := by
  have hreplies : RepliesWith env s (.lookup ino name) (lookup s ino name).1.toReply :=
    congrArg Prod.fst (h.call s ino name)
  rw [hijackedCall_header, hreplies.headerAfter]
  exact (replyError_bounds _).2

/-- A walk that ends leaves the path as it was, and has found its NUL if it
    succeeds. -/
theorem walkPath_nul (h : AnswersLookup env lookup) {bn ino fuel fn curino : Nat} {w w' : Walking σ}
    {res : Int} {off i : Nat} (hrun : walkPath env bn ino fuel fn curino w = some ((res, off, i), w')) :
    w'.path = w.path ∧ (0 ≤ res → 0 ∈ w.path) := by
  induction fuel generalizing fn curino w with
  | zero => cases hrun
  | succ fuel ih =>
      rw [walkPath] at hrun
      split at hrun
      case h_1 => cases hrun
      case h_2 hstr =>
          cases hrun
          exact ⟨rfl, fun _ => List.mem_of_mem_drop (nul_mem_of_strchr hstr)⟩
      case h_3 k hstr =>
          obtain ⟨name, rest, hdrop, rfl, hnul⟩ := strchr_eq_some hstr
          obtain ⟨pre, hpath, rfl⟩ : ∃ pre, w.path = pre ++ (name ++ slash :: rest) ∧ pre.length = fn := by
            refine ⟨w.path.take fn, ?_, ?_⟩
            · rw [← hdrop, List.take_append_drop]
            · have hlen := congrArg List.length hdrop
              rw [List.length_drop, List.length_append, List.length_cons] at hlen
              rw [List.length_take]
              omega
          have hround := walk_round env curino hpath hnul
          have herror := h.error_le w.fs curino name w.hijackbuf sizeofFuseEntryOut
          dsimp only at hround hrun
          rw [hround] at hrun
          generalize hijackedCall env w.fs (.lookup curino name) w.hijackbuf sizeofFuseEntryOut = r
            at hrun herror
          split at hrun
          case isTrue hne =>
              cases hrun
              refine ⟨rfl, fun hres => absurd (le_antisymm herror hres) hne⟩
          case isFalse =>
              have hrest := ih hrun
              exact hrest

theorem walkToParent_nul (h : env.implements .lookup = true → AnswersLookup env lookup)
    {fuel bn ino : Nat} {w w' : Walking σ} {res : Int} {off i : Nat}
    (hrun : walkToParent env fuel bn ino w = some ((res, off, i), w')) :
    w'.path = w.path ∧ (0 ≤ res → 0 ∈ w.path) := by
  unfold walkToParent at hrun
  split at hrun
  case h_1 => cases hrun
  case h_2 =>
      split at hrun
      case isTrue =>
          cases hrun
          exact ⟨rfl, fun hres => absurd hres (by decide)⟩
      case isFalse =>
      split at hrun
      case isTrue =>
          cases hrun
          exact ⟨rfl, fun hres => absurd hres (by decide)⟩
      case isFalse himpl =>
          have hwalk := walkPath_nul (h (by simpa using himpl)) hrun
          exact hwalk

/-- The directory and the last part of a path are determined by it. -/
theorem dir_unique {dir dir' b b' : List UInt8} (h : dir ++ slash :: b = dir' ++ slash :: b')
    (hb : slash ∉ b) (hb' : slash ∉ b') : dir = dir' ∧ b = b' := by
  have hparts := congrArg (List.splitOn slash) h
  rw [List.splitOn_append_cons_self, List.splitOn_append_cons_self, List.splitOn_eq_singleton hb,
    List.splitOn_eq_singleton hb'] at hparts
  obtain rfl : b = b' := List.singleton_inj.mp (List.append_inj' hparts rfl).2
  exact ⟨(List.append_inj' h rfl).1, rfl⟩

/-- `fusent_get_parent_inode` has a reason not to find the parent of a path. -/
def Refuses (env : Env σ) (lookup : σ → Nat → List UInt8 → LookupReply × σ) (s : σ)
    (p : List UInt8) : Prop :=
  p.head? ≠ some slash ∨ env.implements .lookup = false ∨
    ∃ names e s', lookupNames lookup s fuseRootId names = (.error e, s')

/-- On a string, the loop over the buffer is the walk over the parts. -/
theorem walkToParent_refines (env : Env σ) (bn ino : Nat) {w : Walking σ} (hidle : w.req.Idle)
    {p post : List UInt8} (hp : 0 ∉ p) (hpath : w.path = p ++ 0 :: post) :
    ∃ w', Settles (fun fuel => walkToParent env fuel bn ino w)
        ((fusentGetParentInode env w.fs p bn ino).1, w') ∧
      w'.fs = (fusentGetParentInode env w.fs p bn ino).2 ∧ Restored w w' := by
  have hrejects : ∀ b rest, w.path = b :: rest → b ≠ slash → p.head? ≠ some slash →
      ∃ w', Settles (fun fuel => walkToParent env fuel bn ino w)
          ((fusentGetParentInode env w.fs p bn ino).1, w') ∧
        w'.fs = (fusentGetParentInode env w.fs p bn ino).2 ∧ Restored w w' := by
    intro b rest hw hb hhead
    rw [fusentGetParentInode, if_pos hhead]
    exact ⟨w, ⟨0, fun fuel _ => walkToParent_rejects env fuel bn ino hw hb⟩, rfl, rfl, hidle, rfl⟩
  cases p with
  | nil => exact hrejects 0 post hpath (by decide) (by simp)
  | cons b q =>
      by_cases hb : b = slash
      case neg => exact hrejects b _ hpath hb (by simpa using hb)
      case pos =>
      subst hb
      have hhead : ¬ (slash :: q).head? ≠ some slash := not_not_intro rfl
      rw [fusentGetParentInode, if_neg hhead]
      cases himpl : env.implements .lookup with
      | false =>
          refine ⟨w, ⟨0, fun fuel _ => ?_⟩, rfl, rfl, hidle, rfl⟩
          simp only [walkToParent, hpath, himpl]
          rfl
      | true =>
          have hq : 0 ∉ q := fun hmem => hp (List.mem_cons_of_mem _ hmem)
          have hparts : w.path = [slash] ++ ([slash].intercalate (q.splitOn slash) ++ 0 :: post) := by
            rw [List.intercalate_splitOn, hpath]
            rfl
          obtain ⟨w', hrun, hfs, hrestored⟩ := walkPath_eq env
            { w with hijackbuf := env.memory w.fs } [slash] bn ino fuseRootId
            (List.splitOn_ne_nil slash q) (fun c hc => component_of_mem_splitOn hq hc) hparts hidle
          refine ⟨w', ⟨(q.splitOn slash).length, fun fuel hfuel => ?_⟩, hfs, hrestored.path,
            hrestored.idle, hrestored.sent⟩
          refine Eq.trans ?_ (hrun fuel hfuel)
          simp only [walkToParent, hpath, himpl]
          rfl

/-- How `fusent_get_parent_inode` ends: with an error, or with the place behind
    the last slash. -/
theorem fusentGetParentInode_ends (h : env.implements .lookup = true → AnswersLookup env lookup)
    (s : σ) (bn ino : Nat) {p : List UInt8} (hp : 0 ∉ p) :
    let r := (fusentGetParentInode env s p bn ino).1
    r.1 < 0 ∧ Refuses env lookup s p ∨ p.head? = some slash ∧
      ∃ dir last i, p = dir ++ slash :: last ∧ slash ∉ last ∧ r = (0, dir.length + 1, i) := by
  have hneg : (-1 : Int) < 0 := by decide
  unfold fusentGetParentInode
  split
  case isTrue hhead => exact .inl ⟨hneg, .inl hhead⟩
  case isFalse hhead =>
  split
  case isTrue himpl => exact .inl ⟨hneg, .inr (.inl (by simpa using himpl))⟩
  case isFalse himpl =>
      obtain ⟨q, rfl⟩ : ∃ q, p = slash :: q := by
        cases p with
        | nil => exact absurd (List.head?_nil ▸ nofun) hhead
        | cons b q =>
            rw [not_not, List.head?_cons] at hhead
            exact ⟨q, by rw [Option.some.inj hhead]⟩
      have hq : 0 ∉ q := fun hmem => hp (List.mem_cons_of_mem _ hmem)
      obtain ⟨init, last, hparts⟩ : ∃ init last, q.splitOn slash = init ++ [last] :=
        (List.eq_nil_or_concat' _).resolve_left (List.splitOn_ne_nil slash q)
      have hlast : Component last := component_of_mem_splitOn hq (by rw [hparts]; simp)
      rw [List.tail_cons, hparts, lookupParents_eq (h (by simpa using himpl))]
      cases hnames : lookupNames lookup s fuseRootId init with
      | mk found s' =>
          cases found with
          | error e => exact .inl ⟨lookupNames_error hnames, .inr (.inr ⟨init, e, s', hnames⟩)⟩
          | ok parent =>
              obtain ⟨dir, hdir, hlen⟩ := path_eq_dir init last
              refine .inr ⟨rfl, dir, last, parent, ?_, hlast.2, ?_⟩
              · rw [← hdir, ← hparts, List.intercalate_splitOn]
              · rw [hlen]

end Strings

/-- A file system that finds every name, as node 2, and counts the lookups. -/
def sampleLookup (n _parent : Nat) (_name : List UInt8) : LookupReply × Nat :=
  (.entry ⟨2, leBytes 120 0, length_zero_rest⟩ (by decide), n + 1)

/-- The handlers over it. -/
def lookupEnv : Env Nat where
  implements := fun _ => true
  op := fun n c =>
    match c with
    | .lookup parent name =>
        ([(sampleLookup n parent name).1.toReply], (sampleLookup n parent name).2)
    | _ => ([fuseReplyErr eNoSys], n)
  header := fun _ => ⟨0, 0⟩
  memory := fun _ => Mem.zeros
  slack := fun _ => []
  utf16leToUtf8 := fun bytes => ⟨bytes.take (fusentMaxPath - 1), List.length_take_le _ _⟩
  transcode := fun _ => none
  unixtimeToWintime := id

/-- The walk down "/a/b". -/
theorem parent_inode_walk_two_parts :
    WalksToParent lookupEnv sampleLookup 0 0
      ⟨[0x2f, 0x61, 0x2f, 0x62, 0], ⟨false, false, 0⟩, ⟨0, 0⟩, Mem.zeros, 0, []⟩ [[0x61]] [0x62] :=
  (parent_inode_walk ⟨rfl, fun _ _ _ => rfl⟩ 0 0 _ ⟨rfl, rfl⟩).1 [[0x61]] [0x62] []
    (by decide) rfl

end FuseNt
