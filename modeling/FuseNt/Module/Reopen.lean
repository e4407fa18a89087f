/-
  FuseNt.Module.Reopen

  A file object that is used again.

  The kernel may give the address of a closed file object to a new one, and
  the module is not told that a handle was closed.  A create request replaces
  what the tables have for the file object, all but the directory listing: if
  one was left behind, the new handle is answered from it.
-/

import FuseNt.Module.Answers

namespace FuseNt

open FuseNt.Lib

/-- The tables as if `p` had never been used. -/
def Tables.forget (t : Tables) (p : Pfile) : Tables where
  fi := Function.update t.fi p none
  ino := Function.update t.ino p none
  basename := Function.update t.basename p none
  pos := Function.update t.pos p none
  sync := Function.update t.sync p none
  dirlisting := Function.update t.dirlisting p none

section Reopen

variable {σ : Type} {env : Env σ} {s : σ} {t : Tables} {p : Pfile} {ntreq create : Mem}

/-- The answers to the requests on `p` among the requests of a session. -/
def answersOn (env : Env σ) (p : Pfile) : σ → Tables → List Mem → List Message
  | _, _, [] => []
  | s, t, ntreq :: rest =>
      match fusentLlProcess env s t ntreq with
      | (none, _) => []
      | (some (t, msg), s) => (if reqFop ntreq = p then [msg] else []) ++ answersOn env p s t rest

/-- A create request on `p` that succeeds. -/
structure Creates (env : Env σ) (s : σ) (create : Mem) (p : Pfile) : Prop where
  major : reqMajor create = irpMjCreate
  fop : reqFop create = p
  ok : ∃ handle, (createHandle env s create (reqIosp create)).1 = .ok handle

/-- After a successful create, up to the next one, the answers on `p` are the
    same as if `p` had never been used. -/
def StartsClean (t : Tables) (p : Pfile) : Prop :=
  ∀ (σ : Type) (env : Env σ) (s : σ) (create : Mem) (later : List Mem), Creates env s create p →
    (∀ ntreq ∈ later, ¬ (reqMajor ntreq = irpMjCreate ∧ reqFop ntreq = p)) →
    answersOn env p s t (create :: later) = answersOn env p s (t.forget p) (create :: later)

-- ============================================================================
-- Without a listing
-- ============================================================================

/-- A create request that succeeds does the same in all tables. -/
theorem Creates.process (h : Creates env s create p) (hends : pathEnds env s create = true) :
    ∃ fi ino bn issync msg s', ∀ t, fusentLlProcess env s t create =
      (some (fusentAddFopMapping t p fi ino bn issync, msg), s') := by
  obtain ⟨hmaj, rfl, ⟨fi, ino, bn⟩, hok⟩ := h
  have hcreate : createHandle env s create (reqIosp create) =
      (.ok (fi, ino, bn), (createHandle env s create (reqIosp create)).2) := by
    rw [← hok]
  refine ⟨fi, ino, bn, createIsSync (reqIosp create).createOptions (reqIrpFlags create),
    fusentReplyError (env.memory (createHandle env s create (reqIosp create)).2) (reqPirp create)
      (reqFop create) 0, (createHandle env s create (reqIosp create)).2, fun t => ?_⟩
  rw [fusentLlProcess_create env s t hmaj, if_pos hends, fusentDoCreate, hcreate]
  rfl

/-- A new mapping hides all that was there but for a listing. -/
theorem fusentAddFopMapping_forget (hlisting : t.dirlisting p = none) (fi : Option FuseFileInfo)
    (ino : Nat) (bn : List UInt8) (issync : Bool) :
    fusentAddFopMapping (t.forget p) p fi ino bn issync =
      fusentAddFopMapping t p fi ino bn issync := by
  have hkept : Function.update t.dirlisting p none = t.dirlisting := by
    rw [← hlisting]
    exact Function.update_eq_self _ _
  simp [fusentAddFopMapping, Tables.forget, hkept]

theorem startsClean_of_no_listing (hlisting : t.dirlisting p = none) : StartsClean t p := by
  intro σ env s create later hcreate _
  cases hends : pathEnds env s create with
  | false => simp [answersOn, fusentLlProcess_create env s _ hcreate.major, hends]
  | true =>
      obtain ⟨fi, ino, bn, issync, msg, s', hprocess⟩ := hcreate.process hends
      rw [answersOn, answersOn, hprocess, hprocess]
      simp only [fusentAddFopMapping_forget hlisting]

-- ============================================================================
-- With a listing
-- ============================================================================

/-- A file system whose directories cannot be read. -/
def unreadableEnv : Env Unit :=
  { sampleEnv with op := fun s _ => ([fuseReplyErr eIo], s) }

/-- The stack location of a request to open a directory. -/
def openSp : IoStackLocation :=
  { (default : IoStackLocation) with majorFunction := irpMjCreate, arg1 := 0x1000020 }

/-- The name "\\" behind the stack location. -/
def rootTrailer : List UInt8 := leBytes 4 4 ++ [0x5c, 0, 0, 0]

/-- The stack location of a query of the directory. -/
def querySp : IoStackLocation :=
  { (default : IoStackLocation) with
    majorFunction := irpMjDirectoryControl
    minorFunction := irpMnQueryDirectory
    arg0 := 4096 }

/-- The path of the root directory. -/
theorem createPath_root (env : Env σ) (pirp fop : UInt64) (sp : IoStackLocation)
    (hconv : (env.utf16leToUtf8 [0x5c, 0, 0, 0]).val = [0x5c, 0]) :
    createPath env (ntRequest pirp fop sp rootTrailer) = ([slash, 0], 2) := by
  obtain ⟨hoff, hread⟩ := read_trailer_ntRequest pirp fop sp rootTrailer
  have hlen : (ntRequest pirp fop sp rootTrailer).readLe
      (sizeofFusentReq + sizeofIoStackLocation) 4 = 4 :=
    (congrArg leNat (Mem.read_slice hread 0 4 (by decide))).trans (by decide)
  have hname : (ntRequest pirp fop sp rootTrailer).read
      (sizeofFusentReq + sizeofIoStackLocation + 4) 4 = [0x5c, 0, 0, 0] :=
    Mem.read_slice hread 4 4 (by decide)
  simp only [createPath, fusentDecodeRequestCreate, hoff, hlen, hname, hconv]
  rfl

/-- The root directory is opened without the file system. -/
theorem createHandle_root (env : Env σ) (s : σ) (pirp fop : UInt64) (sp iosp : IoStackLocation)
    (hconv : (env.utf16leToUtf8 [0x5c, 0, 0, 0]).val = [0x5c, 0]) :
    createHandle env s (ntRequest pirp fop sp rootTrailer) iosp =
      (.ok (none, fuseRootId, [slash]), s) := by
  simp only [createHandle, createPath_root env pirp fop sp hconv]
  rfl

/-- The `error` field of a response. -/
def respError (msg : Message) : Nat := msg.bytes.readLe respErrorOffset 4

theorem respError_fusentReplyError (m : Mem) (pirp : Pirp) (fop : Pfile) (error : Int) :
    respError (fusentReplyError m pirp fop error) = (-error % (2 ^ 32 : Nat)).toNat := by
  rw [respError, fusentReplyError, fusentFillResp,
    Mem.readLe_writeLe_disjoint _ _ _ _ _ _ (by decide), Mem.readLe_writeLe_same]
  exact Nat.mod_eq_of_lt (by omega)

/-- An answer from a listing reports no error. -/
theorem respError_sendListing {fuel length n : Nat} {outbuf : Mem} {dl dl' : DirListing}
    {single : Bool} {pirp : Pirp} {fop : Pfile} {msg : Message}
    (h : sendListing fuel outbuf dl length single pirp fop = some (msg, dl', n)) :
    respError msg = 0 := by
  have hfill : ∀ m, (fusentFillResp m pirp fop 0).readLe respErrorOffset 4 = 0 :=
    fun m => respError_fusentReplyError m pirp fop 0
  rcases sendListing_cases h with ⟨status, rfl⟩ | ⟨m, buflen, rfl⟩
  · exact (Mem.readLe_writeLe_disjoint _ _ _ _ _ _ (by decide)).trans (hfill _)
  · exact (Mem.readLe_writeLe_disjoint _ _ _ _ _ _ (by decide)).trans (hfill _)

section Query

variable {iosp : IoStackLocation} {fi : Option FuseFileInfo} {ino : Nat} {bn : List UInt8}
  (hmap : fusentFiInodeBasenameFromFop t (reqFop ntreq) = some (fi, ino, bn))
  (hminor : iosp.minorFunction = irpMnQueryDirectory)

include hmap hminor

/-- A listing that is there is used. -/
theorem handleDirectoryControl_kept (env : Env σ) (s : σ) {dl : DirListing}
    (hdl : t.dirlisting (reqFop ntreq) = some dl) (hno : (iosp.flags &&& slRestartScan != 0) = false) :
    ∃ t' msg s', handleDirectoryControl env s t ntreq iosp = (some (t', msg), s') ∧
      respError msg = 0 := by
  have hfor : directoryFor env s t (reqFop ntreq) iosp = (some (.ok []), s) := by
    simp [directoryFor, readsDirectory, hmap, hdl, hno]
  have hkeep : ∀ dirEnv, dirlistingFor dirEnv iosp (some dl) = .ok dl := by
    intro dirEnv
    rw [dirlistingFor, hno]
    rfl
  obtain ⟨⟨msg, dl', n⟩, hsettles⟩ := sendListing_settles (env.memory s) dl
    iosp.queryDirectoryLength (singleEntry iosp) (reqPirp ntreq) (reqFop ntreq)
  have hsend := hsettles _ (Nat.lt_succ_self _)
  refine ⟨{ t with dirlisting := Function.update t.dirlisting (reqFop ntreq) (some dl') }, msg, s, ?_,
    respError_sendListing hsend⟩
  simp only [handleDirectoryControl, hfor, hdl, fusentDoDirectoryControl, hminor, hmap, hkeep,
    hsend, ne_eq, not_true_eq_false, if_false, Option.isSome_some, Bool.not_true,
    Bool.false_eq_true, Option.bind_eq_bind, Option.bind_some]

/-- Without one the directory is read. -/
theorem handleDirectoryControl_fresh (env : Env σ) (s : σ)
    (hdl : t.dirlisting (reqFop ntreq) = none) (herr : (headerAfter env s (.opendir ino 0)).error = -eIo) :
    ∃ t' m s', handleDirectoryControl env s t ntreq iosp =
      (some (t', fusentReplyError m (reqPirp ntreq) (reqFop ntreq) eIo), s') := by
  have hread : readDirectory env s ino =
      (some (.error eIo), (fuseLlOp env s (.opendir ino 0)).2) := by
    simp only [readDirectory, hijackedCall_header, hijackedCall_state, herr]
    rfl
  have hfor : directoryFor env s t (reqFop ntreq) iosp =
      (some (.error eIo), (fuseLlOp env s (.opendir ino 0)).2) := by
    simp [directoryFor, readsDirectory, hmap, hdl, hminor, hread]
  have hfail : ∀ dirEnv : DirEnv, dirEnv.dir = .error eIo →
      dirlistingFor dirEnv iosp none = .error eIo := by
    intro dirEnv hdir
    simp [dirlistingFor, fusentDoBufferDirlisting, hdir, bind, Except.bind]
  refine ⟨{ t with dirlisting := Function.update t.dirlisting (reqFop ntreq) none },
    env.memory (fuseLlOp env s (.opendir ino 0)).2, (fuseLlOp env s (.opendir ino 0)).2, ?_⟩
  simp only [handleDirectoryControl, hfor, hdl, fusentDoDirectoryControl, hminor, hmap,
    ne_eq, not_true_eq_false, if_false, Option.isSome_some, Bool.not_true, Bool.false_eq_true]
  rw [hfail _ rfl]

end Query

/-- A listing that was left behind shows: the new handle is answered from it even
    if the directory cannot be read. -/
theorem not_startsClean_of_listing {dl : DirListing} (hdl : t.dirlisting p = some dl) :
    ¬ StartsClean t p := by
  intro hclean
  have hcreate : Creates unreadableEnv () (ntRequest 1 p openSp rootTrailer) p :=
    ⟨reqMajor_ntRequest .., reqFop_ntRequest .., _,
      congrArg Prod.fst (createHandle_root unreadableEnv () 1 p openSp _ rfl)⟩
  have hfop : reqFop (ntRequest 2 p querySp []) = p := reqFop_ntRequest ..
  have hiosp : reqIosp (ntRequest 2 p querySp []) = querySp := reqIosp_ntRequest ..
  have hmaj : reqMajor (ntRequest 2 p querySp []) = irpMjDirectoryControl := reqMajor_ntRequest ..
  have hsame := hclean Unit unreadableEnv () _ [ntRequest 2 p querySp []] hcreate (by
    intro ntreq hntreq
    obtain rfl := List.mem_singleton.mp hntreq
    rw [hmaj]
    exact fun h => absurd h.1 (by decide))
  have hends : pathEnds unreadableEnv () (ntRequest 1 p openSp rootTrailer) = true := by
    simp only [pathEnds, createPath_root unreadableEnv 1 p openSp rfl]
    rfl
  obtain ⟨fi, ino, bn, issync, m₀, s', hprocess⟩ := hcreate.process hends
  have hmap : ∀ t : Tables, fusentFiInodeBasenameFromFop
      (fusentAddFopMapping t p fi ino bn issync) (reqFop (ntRequest 2 p querySp [])) =
        some (fi, ino, bn) := by
    intro t
    simp [hfop, fusentFiInodeBasenameFromFop, fusentAddFopMapping]
  have hminor : querySp.minorFunction = irpMnQueryDirectory := rfl
  have hdl₁ : (fusentAddFopMapping t p fi ino bn issync).dirlisting
      (reqFop (ntRequest 2 p querySp [])) = some dl := by
    rw [hfop]
    exact hdl
  have hdl₂ : (fusentAddFopMapping (t.forget p) p fi ino bn issync).dirlisting
      (reqFop (ntRequest 2 p querySp [])) = none := by
    simp [hfop, fusentAddFopMapping, Tables.forget]
  obtain ⟨t₁, m₁, s₁, hkept, herror⟩ :=
    handleDirectoryControl_kept (hmap t) hminor unreadableEnv s' hdl₁ (by decide)
  obtain ⟨t₂, m₂, s₂, hfresh⟩ :=
    handleDirectoryControl_fresh (hmap (t.forget p)) hminor unreadableEnv s' hdl₂ rfl
  simp only [answersOn, hprocess, fusentLlProcess_directoryControl _ _ _ hmaj, hiosp, hkept, hfresh,
    hfop, if_true, List.append_nil, List.append_cancel_left_eq, List.cons.injEq, and_true] at hsame
  rw [hsame, respError_fusentReplyError] at herror
  exact absurd herror (by decide)

end Reopen

/-- A handle starts clean exactly if no listing was left behind for its file
    object. -/
theorem startsClean_iff (t : Tables) (p : Pfile) : StartsClean t p ↔ t.dirlisting p = none := by
  constructor
  · intro hclean
    cases hdl : t.dirlisting p with
    | none => rfl
    | some dl => exact absurd hclean (not_startsClean_of_listing hdl)
  · exact startsClean_of_no_listing

/-- The root directory is opened and queried, and its file object is used again:
    the new handle does not start clean. -/
theorem startsClean_left_behind : ∃ t, Reached sampleEnv t ∧ ¬ StartsClean t 5 := by
  have hquery : ((fusentLlProcess sampleEnv () rootOpened (ntRequest 2 5 querySp [])).1.bind
      fun r => r.1.dirlisting 5).isSome = true := by decide
  obtain ⟨dl, hdl⟩ := Option.isSome_iff_exists.mp hquery
  obtain ⟨⟨t, msg⟩, hstep, hleft⟩ := Option.bind_eq_some_iff.mp hdl
  exact ⟨t, .step () _ reached_rootOpened hstep, not_startsClean_of_listing hleft⟩

end FuseNt
