/-
  FuseNt.Module.Paging

  A directory listing, page by page.

  A handle's listing is sent in pages, one for each query, whatever the
  lengths of the buffers and the flags of the queries are.  `Page` says in
  terms of the records that are left what one reply is, and `Paged` what a
  whole sequence of replies is: every record is sent once and in order.
-/

import FuseNt.Module.DirControl

namespace FuseNt

open FuseNt.Lib

/-- A query on the handle. -/
structure DirRequest where
  env : DirEnv
  sp : IoStackLocation
  pirp : Pirp

/-- The query is one that is answered from the handle's listing. -/
structure DirRequest.Continues (q : DirRequest) : Prop where
  accepted : DirAccepted q.env q.sp
  noRestart : (q.sp.flags &&& slRestartScan != 0) = false

/-- The replies to a sequence of queries, each with the listing it leaves. -/
def answerAll (fuel : Nat) (fop : Pfile) :
    Option DirListing → List DirRequest → Option (List (Message × Option DirListing))
  | _, [] => some []
  | handle, q :: qs => do
      let (msg, handle, _) ← fusentDoDirectoryControl fuel q.env q.sp q.pirp fop handle
      let rest ← answerAll fuel fop handle qs
      some ((msg, handle) :: rest)

-- ============================================================================
-- What a page is
-- ============================================================================

/-- `sent` is the longest part of `rs`, from the first record on, that fits in
    `length` bytes. -/
def LongestFitting (length : Nat) (rs sent : List DirName) : Prop :=
  sent <+: rs ∧ sizes sent ≤ length ∧
    ∀ more, more <+: rs → sizes more ≤ length → more.length ≤ sent.length

/-- The message has the records `sent` of the listing `dl`, from its cursor on:
    they are chained, the last one ends the chain, and the bytes are those of
    the listing but for the link of the last record. -/
structure SendsRecords (msg : Message) (dl : DirListing) (sent : List DirName) : Prop where
  payload : Payload msg sent
  bytes : ∀ init x, sent = init ++ [x] → ∀ i, i < sizes sent →
    i < sizes init ∨ sizes init + 4 ≤ i →
    msg.bytes (sizeofFusentResp + i) = dl.listing (dl.off + i)

/-- The reply `msg`, with the records `sent`, to a query with a buffer of
    `length` bytes while the records `rs` are left in `dl`; one record at most
    is sent if `single`. -/
structure Page (dl : DirListing) (rs : List DirName) (single : Bool) (length : Nat)
    (msg : Message) (dl' : DirListing) (sent : List DirName) : Prop where
  noMoreFiles : replyStatus msg = statusNoMoreFiles ↔ rs = []
  bufferOverflow : replyStatus msg = statusBufferOverflow ↔
    ∃ x rest, rs = x :: rest ∧ length < x.size
  /-- A reply without records leaves the cursor where it was. -/
  unchanged : replyStatus msg ≠ statusSuccess → sent = [] ∧ dl'.off = dl.off
  success : ∀ x rest, rs = x :: rest → x.size ≤ length → replyStatus msg = statusSuccess ∧
    sent ≠ [] ∧ if single then sent = [x] else LongestFitting length rs sent
  records : SendsRecords msg dl sent
  taken : sent <+: rs
  listing : dl'.listing = dl.listing
  cursor : dl'.off = dl.off + sizes sent

/-- The replies to the queries, with the records they have: the records `rs`
    are left at first, and `sticky` says whether an earlier query that returned
    a record was for a single entry. -/
def Paged : DirListing → List DirName → Bool → List DirRequest →
    List (Message × Option DirListing) → List (List DirName) → Prop
  | _, _, _, [], [], [] => True
  | dl, rs, sticky, q :: qs, (msg, handle) :: replies, sent :: rest =>
      ∃ dl', handle = some dl' ∧
        Page dl rs (singleEntry q.sp || sticky) q.sp.queryDirectoryLength msg dl' sent ∧
        Paged dl' (rs.drop sent.length) (sticky || (singleEntry q.sp && decide (sent ≠ []))) qs
          replies rest
  | _, _, _, _, _, _ => False

-- ============================================================================
-- One query
-- ============================================================================

section Fitting

variable {single : Bool} {length : Nat} {x : DirName} {rest : List DirName}

/-- A record that does not fit is not sent. -/
theorem fitting_eq_zero_iff : fitting single length (x :: rest) = 0 ↔ length < x.size := by
  unfold fitting
  split
  · simp_all
  · rename_i h
    split <;> simp [h]

theorem fitting_single (h : x.size ≤ length) : fitting true length (x :: rest) = 1 := by
  unfold fitting
  rw [if_neg (by omega), if_pos rfl]

/-- The records that fit are the longest part that does. -/
theorem longestFitting_fitting (length : Nat) (rs : List DirName) :
    LongestFitting length rs (rs.take (fitting false length rs)) := by
  refine ⟨List.take_prefix _ _, sizes_take_fitting_le false length rs, ?_⟩
  intro more hmore hfits
  induction rs generalizing length more with
  | nil => simp [List.prefix_nil.mp hmore]
  | cons y ys ih =>
      cases more with
      | nil => exact Nat.zero_le _
      | cons z zs =>
          obtain ⟨rfl, hzs⟩ := List.cons_prefix_cons.mp hmore
          rw [sizes_cons] at hfits
          unfold fitting
          rw [if_neg (by omega), if_neg (by decide), List.take_succ_cons, List.length_cons,
            List.length_cons]
          exact Nat.succ_le_succ (ih (length - z.size) zs hzs (by omega))

end Fitting

/-- A fresh listing is not in single-entry mode. -/
theorem fusentDoBufferDirlisting_singlefile {listbuf : Mem} {epoch : Nat}
    {dir : Except Int (List (Option DirName))} {dl : DirListing}
    (h : fusentDoBufferDirlisting listbuf epoch dir = .ok dl) : dl.singlefile = false := by
  cases dir with
  | error err => simp [fusentDoBufferDirlisting, bind, Except.bind] at h
  | ok dirents =>
      simp only [fusentDoBufferDirlisting, bind, Except.bind, pure, Except.pure] at h
      cases hs : bufferDirents epoch ⟨listbuf, 0, 8192, none⟩ dirents with
      | error err => simp [hs] at h
      | ok s =>
          simp only [hs, Except.ok.injEq] at h
          rw [← h, DirBuffer.toListing]
          split <;> rfl

section Query

variable {dl dl' : DirListing} {rs : List DirName} {single sticky : Bool} {length : Nat}
  {msg : Message}

/-- What the loop sends is a page. -/
theorem SentRecords.page {n : Nat} {flag : Bool} (h : SentRecords dl rs n flag msg dl')
    (hn : rs ≠ [] → n = fitting single length rs) : Page dl rs single length msg dl' (rs.take n) := by
  have hstatus := h.status
  have hrecords : SendsRecords msg dl (rs.take n) := ⟨h.payload, h.bytes⟩
  cases rs with
  | nil =>
      rw [if_pos rfl] at hstatus
      refine ⟨by simp [hstatus], ?_, fun _ => ⟨by simp, by simp [h.off]⟩, by simp, hrecords,
        List.take_prefix _ _, h.listing, h.off⟩
      rw [hstatus]
      exact iff_of_false (by decide) (by simp)
  | cons x rest =>
      rw [if_neg (by simp)] at hstatus
      have hzero : n = 0 ↔ length < x.size := by rw [hn (by simp), fitting_eq_zero_iff]
      by_cases hn0 : n = 0
      · rw [if_pos hn0] at hstatus
        refine ⟨?_, ?_, fun _ => ⟨by simp [hn0], by simp [h.off, hn0]⟩, ?_, hrecords,
          List.take_prefix _ _, h.listing, h.off⟩
        · rw [hstatus]
          exact iff_of_false (by decide) (by simp)
        · rw [hstatus]
          exact iff_of_true rfl ⟨x, rest, rfl, hzero.mp hn0⟩
        · rintro y ys ⟨⟩ hfits
          have := hzero.mp hn0
          omega
      · rw [if_neg hn0] at hstatus
        refine ⟨?_, ?_, fun hne => absurd hstatus hne, ?_, hrecords, List.take_prefix _ _,
          h.listing, h.off⟩
        · rw [hstatus]
          exact iff_of_false (by decide) (by simp)
        · rw [hstatus]
          refine iff_of_false (by decide) ?_
          rintro ⟨y, ys, ⟨⟩, hsmall⟩
          exact hn0 (hzero.mpr hsmall)
        · rintro y ys ⟨⟩ hfits
          refine ⟨hstatus, by simp [hn0], ?_⟩
          rw [hn (by simp)]
          cases single with
          | true => rw [if_pos rfl, fitting_single hfits, List.take_succ_cons, List.take_zero]
          | false => exact longestFitting_fitting length (x :: rest)

/-- A query is answered with a page, and the rest is left. -/
theorem fusentDoDirectoryControl_page {q : DirRequest} (hq : q.Continues) (hl : Left dl rs)
    (hs : rs ≠ [] → dl.singlefile = sticky) (fop : Pfile) :
    ∃ msg dl' n sent, (∀ fuel, rs.length < fuel →
        fusentDoDirectoryControl fuel q.env q.sp q.pirp fop (some dl) = some (msg, some dl', n)) ∧
      Page dl rs (singleEntry q.sp || sticky) q.sp.queryDirectoryLength msg dl' sent ∧
      Left dl' (rs.drop sent.length) ∧
      (rs.drop sent.length ≠ [] →
        dl'.singlefile = (sticky || (singleEntry q.sp && decide (sent ≠ [])))) := by
  obtain ⟨hacc, hno⟩ := hq
  have hdl : dirlistingFor q.env q.sp (some dl) = .ok dl := by
    rw [dirlistingFor, hno]
    rfl
  obtain ⟨msg, dl', hsend, hsent⟩ := sendListing_spec hl q.env.outbuf q.sp.queryDirectoryLength
    (singleEntry q.sp) q.pirp fop
  have hle := fitting_le_length (singleEntry q.sp || dl.singlefile) q.sp.queryDirectoryLength rs
  have hn : rs ≠ [] → fitting (singleEntry q.sp || dl.singlefile) q.sp.queryDirectoryLength rs =
      fitting (singleEntry q.sp || sticky) q.sp.queryDirectoryLength rs := fun hne => by rw [hs hne]
  generalize fitting (singleEntry q.sp || dl.singlefile) q.sp.queryDirectoryLength rs = n
    at hsend hsent hle hn
  have hlen : (rs.take n).length = n := by
    rw [List.length_take]
    omega
  refine ⟨msg, dl', n, rs.take n, fun fuel hfuel => ?_, hsent.page hn, ?_, ?_⟩
  · rw [fusentDoDirectoryControl, if_neg (by simp [hacc.1]), if_neg (by simp [hacc.2]), hdl]
    simp only [hsend fuel hfuel, Option.bind_eq_bind, Option.bind_some]
  · rw [hlen]
    exact hsent.left
  · rw [hlen]
    intro hrest
    have hne : rs ≠ [] := by
      rintro rfl
      simp at hrest
    rw [hsent.singlefile hrest, hs hne]
    congr 2
    rw [decide_eq_decide, ne_eq, List.take_eq_nil_iff, not_or]
    exact ⟨fun h => ⟨by omega, hne⟩, fun h => by omega⟩

end Query

-- ============================================================================
-- All queries
-- ============================================================================

section Queries

variable {dl : DirListing} {rs : List DirName} {sticky : Bool} {reqs : List DirRequest}
  {replies : List (Message × Option DirListing)} {pages : List (List DirName)}

/-- Every sequence of queries is answered in pages. -/
theorem answerAll_paged (fop : Pfile) (hreqs : ∀ q ∈ reqs, q.Continues) (hl : Left dl rs)
    (hs : rs ≠ [] → dl.singlefile = sticky) :
    ∃ replies pages, Settles (fun fuel => answerAll fuel fop (some dl) reqs) replies ∧
      Paged dl rs sticky reqs replies pages := by
  induction reqs generalizing dl rs sticky with
  | nil => exact ⟨[], [], ⟨0, fun _ _ => rfl⟩, trivial⟩
  | cons q reqs ih =>
      obtain ⟨msg, dl', n, sent, hrun, hpage, hl', hs'⟩ :=
        fusentDoDirectoryControl_page (hreqs q (by simp)) hl hs fop
      obtain ⟨replies, pages, ⟨fuel₀, hrest⟩, hpaged⟩ :=
        ih (fun q' hq' => hreqs q' (List.mem_cons_of_mem _ hq')) hl' hs'
      refine ⟨(msg, some dl') :: replies, sent :: pages, ⟨max fuel₀ (rs.length + 1),
        fun fuel hfuel => ?_⟩, dl', rfl, hpage, hpaged⟩
      simp only [answerAll, hrun fuel (by omega), hrest fuel (by omega), Option.bind_eq_bind,
        Option.bind_some]

/-- The pages are parts of the listing, in order, without gap or repetition. -/
theorem Paged.flatten_prefix (h : Paged dl rs sticky reqs replies pages) :
    pages.flatten <+: rs := by
  induction reqs generalizing dl rs sticky replies pages with
  | nil =>
      match replies, pages, h with
      | [], [], _ => exact List.nil_prefix
  | cons q reqs ih =>
      match replies, pages, h with
      | (msg, _) :: replies, sent :: pages, ⟨dl', _, hpage, hpaged⟩ =>
          have hsplit := List.prefix_iff_eq_append.mp hpage.taken
          rw [List.flatten_cons, ← hsplit]
          exact (List.prefix_append_right_inj sent).mpr (ih hpaged)

/-- The queries are told that there are no more files exactly when the pages so
    far are the whole listing. -/
theorem Paged.noMoreFiles_iff (h : Paged dl rs sticky reqs replies pages) {k : Nat}
    {msg : Message} {handle : Option DirListing} (hk : replies[k]? = some (msg, handle)) :
    replyStatus msg = statusNoMoreFiles ↔ (pages.take k).flatten = rs := by
  induction reqs generalizing dl rs sticky replies pages k with
  | nil =>
      match replies, pages, h with
      | [], [], _ => simp at hk
  | cons q reqs ih =>
      match replies, pages, h with
      | (msg', _) :: replies, sent :: pages, ⟨dl', _, hpage, hpaged⟩ =>
          cases k with
          | zero =>
              obtain ⟨rfl, -⟩ : msg' = msg ∧ _ := by simpa using hk
              rw [hpage.noMoreFiles, List.take_zero, List.flatten_nil, eq_comm]
          | succ k =>
              have hsplit := List.prefix_iff_eq_append.mp hpage.taken
              rw [ih hpaged (by simpa using hk), List.take_succ_cons, List.flatten_cons]
              constructor
              · intro hrest
                rw [hrest, hsplit]
              · intro hall
                rw [← hall, List.drop_left]

end Queries

/-- For every listing that is compiled, every sequence of queries on the handle
    that do not restart the scan is answered with the records of the listing,
    page by page. -/
theorem directory_paging {listbuf : Mem} {epoch : Nat} {dir : Except Int (List (Option DirName))}
    {dl : DirListing} (hlisting : fusentDoBufferDirlisting listbuf epoch dir = .ok dl)
    (fop : Pfile) {reqs : List DirRequest} (hreqs : ∀ q ∈ reqs, q.Continues) :
    ∃ dirents rs replies pages, dir = .ok dirents ∧ rs.map some <+: dirents ∧
      Chained dl.listing 0 rs ∧
      Settles (fun fuel => answerAll fuel fop (some dl) reqs) replies ∧
      Paged dl rs false reqs replies pages ∧ pages.flatten <+: rs ∧
      ∀ k msg handle, replies[k]? = some (msg, handle) →
        (replyStatus msg = statusNoMoreFiles ↔ (pages.take k).flatten = rs) := by
  obtain ⟨dirents, rs, hdir, hpre, hl, hoff⟩ := fusentDoBufferDirlisting_left hlisting
  have hsingle := fusentDoBufferDirlisting_singlefile hlisting
  obtain ⟨replies, pages, hrun, hpaged⟩ := answerAll_paged fop hreqs hl fun _ => hsingle
  have hch := hl.chained
  rw [hoff] at hch
  exact ⟨dirents, rs, replies, pages, hdir, hpre, hch, hrun, hpaged, hpaged.flatten_prefix,
    fun k msg handle hk => hpaged.noMoreFiles_iff hk⟩

/-- A directory with the files `a` and `b`, read by two queries for a single
    entry and a query that is told that there are no more files. -/
theorem directory_paging_two :
    let dir : Except Int (List (Option DirName)) :=
      .ok [some ⟨[97, 0], by decide, by decide⟩, some ⟨[98, 0], by decide, by decide⟩]
    let q : DirRequest := ⟨⟨true, dir, 0, Mem.zeros, Mem.zeros⟩,
      { (default : IoStackLocation) with
        majorFunction := irpMjDirectoryControl
        minorFunction := irpMnQueryDirectory
        flags := slReturnSingleEntry
        arg0 := 100 }, 7⟩
    ∃ dl dirents rs replies pages, fusentDoBufferDirlisting Mem.zeros 0 dir = .ok dl ∧
      dir = .ok dirents ∧ rs.map some <+: dirents ∧
      Settles (fun fuel => answerAll fuel 3 (some dl) [q, q, q]) replies ∧
      Paged dl rs false [q, q, q] replies pages ∧ pages.flatten <+: rs := by
  intro dir q
  obtain ⟨dl, hlisting⟩ : ∃ dl, fusentDoBufferDirlisting Mem.zeros 0 dir = .ok dl := ⟨_, rfl⟩
  have hq : ∀ q' ∈ [q, q, q], q'.Continues := by
    intro q' hq'
    have hq' : q' = q := by simpa using hq'
    subst hq'
    exact ⟨⟨rfl, rfl⟩, by decide⟩
  obtain ⟨dirents, rs, replies, pages, hdir, hpre, _, hrun, hpaged, hflat, _⟩ :=
    directory_paging hlisting 3 hq
  exact ⟨_, dirents, rs, replies, pages, hlisting, hdir, hpre, hrun, hpaged, hflat⟩

end FuseNt
