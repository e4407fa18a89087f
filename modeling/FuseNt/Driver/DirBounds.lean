/-
  FuseNt.Driver.DirBounds

  Which bytes the copy loops of `FuseCopyDirectoryControl` read and write, for
  any contents of the module's listing.

  A round reads the link and the length of a record before it knows that the
  record is there: the listing is tracked by two variables that are advanced by
  different amounts.  What it writes is measured with `ULONG` sums and `LONG`
  comparisons, so that a huge name length looks small or negative.

  The record a round is about, and what is left of the listing and of the
  output, are a `DirCursor`; these depend on the listing only.  `ReadsOk` and
  `WritesOk` say of a cursor when its round stays in bounds.
-/

import FuseNt.RoundTrip.DirControl
import FuseNt.Lib.Span

namespace FuseNt

open FuseNt.Lib

-- ============================================================================
-- The accesses of a round
-- ============================================================================

namespace DirQuery

/-- The room the loop condition asks for before a name of `f` bytes. -/
def needed : DirQuery → Nat → Nat
  | records _ => dirNeeded
  | names => namesNeeded

/-- The test behind the loop condition; the names loop has none. -/
def fits : DirQuery → Nat → Int → Bool
  | records cls, f, length => decide (toLong (dirInformationLength cls f) ≤ length)
  | names, _, _ => true

/-- What is read of the record at `src`, with a name of `f` bytes, to copy it. -/
def reads : DirQuery → Nat → Nat → List Span
  | records cls, src, f =>
      [(src, sizeofFileDirectoryInformation - 8 - 2), (src + dirFileNameOffset, f)] ++
        if cls.hasShortName then [(src + dirFileNameOffset, min f 24)] else []
  | names, src, f => [(src + dirFileNameOffset, f)]

/-- What is written for it at `dst`. -/
def writes : DirQuery → Nat → Nat → List Span
  | records cls, dst, f =>
      [(dst, dirInformationLength cls f), (dst, sizeofFileDirectoryInformation - 8 - 2),
        (dst + cls.nameOffset, f)] ++
        if cls.hasShortName then [(dst + 70, min f 24), (dst + 68, 1)] else []
  | names, dst, f => [(dst + 12, f), (dst + 8, 4), (dst + 4, 4), (dst, 4)]

/-- The reads of a round: `NextEntryOffset` in the second part of the loop
    condition, `FileNameLength` in the third, and the record. -/
def roundReads (q : DirQuery) (msg : Mem) (s : DirCopy) : List Span :=
  if sizeofFileDirectoryInformation ≤ s.remaining then
    (s.src, 4) ::
      if nextEntryOffset msg s.src ≤ s.remaining then
        (s.src + 60, 4) ::
          if dirGuard msg q.needed s && q.fits (fileNameLength msg s.src) s.length then
            q.reads s.src (fileNameLength msg s.src)
          else []
      else []
  else []

/-- `LastDirInfo->NextEntryOffset = 0`. -/
def endWrites : Option Nat → List Span
  | none => []
  | some off => [(off, 4)]

/-- The writes of a round, and those behind the loop if it is the last. -/
def roundWrites (q : DirQuery) (msg : Mem) (s : DirCopy) : List Span :=
  if dirGuard msg q.needed s then
    if q.fits (fileNameLength msg s.src) s.length then
      q.writes s.dst (fileNameLength msg s.src)
    else [(s.dst, 4), (s.dst + 60, 4)] ++ endWrites s.last
  else endWrites s.last

/-- A round that copies a record. -/
inductive Round (msg : Mem) : DirQuery → DirCopy → DirCopy → Prop
  | records {cls : DirClass} {s : DirCopy} (guard : dirGuard msg dirNeeded s = true)
      (fits : (records cls).fits (fileNameLength msg s.src) s.length = true) :
      Round msg (.records cls) s (placeDirEntry cls msg s)
  | names {fuel : Nat} {s s' : DirCopy} (guard : dirGuard msg namesNeeded s = true)
      (place : placeNamesEntry fuel msg s = some s') : Round msg .names s s'

/-- The loop comes to the state `s`. -/
abbrev Visits (q : DirQuery) (msg : Mem) : DirCopy → DirCopy → Prop :=
  Relation.ReflTransGen (Round msg q)

end DirQuery

-- ============================================================================
-- Cursors
-- ============================================================================

/-- The record at hand, and what is left. -/
structure DirCursor where
  src : Nat
  remaining : Nat
  length : Int
  dst : Nat
deriving DecidableEq, Repr

def DirCopy.cursor (s : DirCopy) : DirCursor := ⟨s.src, s.remaining, s.length, s.dst⟩

namespace DirCursor

variable (q : DirQuery) (msg : Mem) (c : DirCursor)

/-- `FileNameLength` of the record. -/
def nameLength : Nat := fileNameLength msg c.src

/-- The loop condition. -/
structure Passes : Prop where
  whole : sizeofFileDirectoryInformation ≤ c.remaining
  link : nextEntryOffset msg c.src ≤ c.remaining
  name : sizeofFileDirectoryInformation + c.nameLength msg - 2 ≤ c.remaining
  room : toLong (q.needed (c.nameLength msg)) ≤ c.length

/-- The record is copied. -/
structure Copied : Prop extends Passes q msg c where
  fits : q.fits (c.nameLength msg) c.length = true

/-- The next record. -/
def after : DirCursor where
  src := c.src + nextEntryOffset msg c.src
  remaining := c.remaining - q.consumed (c.nameLength msg) (nextEntryOffset msg c.src)
  length := toLong (c.length - q.entryLength (c.nameLength msg))
  dst := c.dst + q.entryLength (c.nameLength msg)

/-- The records from `c` on, as long as they are copied. -/
abbrev Reaches : DirCursor → DirCursor → Prop :=
  Relation.ReflTransGen fun c c' => c.Copied q msg ∧ c' = c.after q msg

end DirCursor

section Simulation

variable {q : DirQuery} {msg : Mem} {s s' s₀ : DirCopy} {c : DirCursor}

theorem dirGuard_iff_passes : dirGuard msg q.needed s = true ↔ s.cursor.Passes q msg := by
  simp only [dirGuard, Bool.and_eq_true, decide_eq_true_eq]
  constructor
  · rintro ⟨⟨⟨hwhole, hlink⟩, hname⟩, hroom⟩
    exact ⟨hwhole, hlink, hname, hroom⟩
  · rintro ⟨hwhole, hlink, hname, hroom⟩
    exact ⟨⟨⟨hwhole, hlink⟩, hname⟩, hroom⟩

theorem copied_iff : s.cursor.Copied q msg ↔
    (dirGuard msg q.needed s && q.fits (fileNameLength msg s.src) s.length) = true := by
  rw [Bool.and_eq_true, dirGuard_iff_passes]
  exact ⟨fun h => ⟨h.toPasses, h.fits⟩, fun h => ⟨h.1, h.2⟩⟩

/-- A round copies the record of its cursor, and goes on to the next. -/
theorem DirQuery.Round.cursor (h : q.Round msg s s') :
    s.cursor.Copied q msg ∧ s'.cursor = s.cursor.after q msg := by
  cases h with
  | records hguard hfits => exact ⟨⟨dirGuard_iff_passes.mp hguard, hfits⟩, rfl⟩
  | names hguard hplace =>
      refine ⟨⟨dirGuard_iff_passes (q := .names).mp hguard, rfl⟩, ?_⟩
      simp only [placeNamesEntry, Option.bind_eq_bind, Option.bind_eq_some_iff, Option.some.injEq,
        Prod.exists] at hplace
      obtain ⟨hash, c, -, rfl⟩ := hplace
      rfl

/-- The record that is copied is the last one so far. -/
theorem DirQuery.Round.last (h : q.Round msg s s') : s'.last = some s.dst := by
  cases h with
  | records => rfl
  | names hguard hplace =>
      simp only [placeNamesEntry, Option.bind_eq_bind, Option.bind_eq_some_iff, Option.some.injEq,
        Prod.exists] at hplace
      obtain ⟨hash, c, -, rfl⟩ := hplace
      rfl

/-- A record that is copied has a round. -/
theorem copyEntries_round (hc : s.cursor.Copied q msg) (h0 : s.strHashC = 0) :
    ∃ s', q.Round msg s s' ∧ s'.strHashC = 0 ∧
      ∀ fuel, q.copyEntries msg (fuel + 1) s = q.copyEntries msg fuel s' := by
  have hguard := dirGuard_iff_passes.mpr hc.toPasses
  cases q with
  | records cls =>
      simp only [DirQuery.needed] at hguard
      have hfits : toLong (dirInformationLength cls (fileNameLength msg s.src)) ≤ s.length :=
        of_decide_eq_true hc.fits
      refine ⟨_, .records hguard hc.fits, h0, fun fuel => ?_⟩
      rw [DirQuery.copyEntries, copyDirEntries, if_pos hguard, if_pos hfits]
  | names =>
      simp only [DirQuery.needed] at hguard
      obtain ⟨s', hplace, -, -, -, hzero, -⟩ := placeNamesEntry_spec msg h0
      refine ⟨s', .names hguard (hplace 0), hzero, fun fuel => ?_⟩
      rw [DirQuery.copyEntries, copyNamesEntries, if_pos hguard, hplace, Option.bind_some]

theorem DirQuery.Visits.cursor (h : q.Visits msg s₀ s) :
    DirCursor.Reaches q msg s₀.cursor s.cursor := by
  induction h with
  | refl => exact .refl
  | tail _ hround ih =>
      obtain ⟨hcopied, hafter⟩ := hround.cursor
      exact ih.tail ⟨hcopied, hafter⟩

/-- The loop comes to every record that the listing leads to. -/
theorem exists_visits (h0 : s₀.strHashC = 0) (h : DirCursor.Reaches q msg s₀.cursor c) :
    ∃ s, q.Visits msg s₀ s ∧ s.cursor = c ∧ s.strHashC = 0 := by
  induction h with
  | refl => exact ⟨s₀, .refl, rfl, h0⟩
  | tail _ hstep ih =>
      obtain ⟨s, hvisits, rfl, hzero⟩ := ih
      obtain ⟨hcopied, rfl⟩ := hstep
      obtain ⟨s', hround, hzero', -⟩ := copyEntries_round hcopied hzero
      exact ⟨s', hvisits.tail hround, hround.cursor.2, hzero'⟩

end Simulation

-- ============================================================================
-- Reads
-- ============================================================================

/-- What the round for a record reads ends at `bound`: the link if there could
    be a record, its length if the link is within the listing, and its name if
    it is copied. -/
structure DirCursor.ReadsOk (q : DirQuery) (msg : Mem) (bound : Nat) (c : DirCursor) : Prop where
  link : sizeofFileDirectoryInformation ≤ c.remaining → c.src + 4 ≤ bound
  fields : sizeofFileDirectoryInformation ≤ c.remaining →
    nextEntryOffset msg c.src ≤ c.remaining → c.src + dirFileNameOffset ≤ bound
  name : c.Copied q msg → c.src + dirFileNameOffset + c.nameLength msg ≤ bound

section Reads

variable {q : DirQuery} {msg : Mem} {bound : Nat} {s s₀ : DirCopy}

/-- A copy reads nothing behind the name. -/
theorem DirQuery.below_reads (q : DirQuery) {src f : Nat} (h : src + dirFileNameOffset ≤ bound) :
    Below (q.reads src f) bound ↔ src + dirFileNameOffset + f ≤ bound := by
  unfold dirFileNameOffset at *
  cases q with
  | records cls =>
      simp only [reads, dirFileNameOffset, sizeofFileDirectoryInformation]
      cases cls.hasShortName with
      | true =>
          simp only [if_true, below_append, below_cons, below_nil, and_true]
          omega
      | false =>
          simp only [Bool.false_eq_true, if_false, below_append, below_cons, below_nil, and_true]
          omega
  | names =>
      simp only [reads, dirFileNameOffset, below_cons, below_nil, and_true]
      omega

theorem below_roundReads : Below (q.roundReads msg s) bound ↔ s.cursor.ReadsOk q msg bound := by
  unfold DirQuery.roundReads
  split
  case isFalse hwhole =>
      refine iff_of_true below_nil ⟨fun h => absurd h hwhole, fun h => absurd h hwhole, fun h =>
        absurd h.whole hwhole⟩
  case isTrue hwhole =>
  split
  case isFalse hlink =>
      simp only [below_cons, below_nil, and_true]
      exact ⟨fun h => ⟨fun _ => h (by decide), fun _ h' => absurd h' hlink,
        fun h' => absurd h'.link hlink⟩, fun h _ => h.link hwhole⟩
  case isTrue hlink =>
  split
  case isFalse hno =>
      rw [← copied_iff] at hno
      simp only [below_cons, below_nil, and_true]
      refine ⟨fun h => ⟨fun _ => h.1 (by decide), fun _ _ => h.2 (by decide),
        fun h' => absurd h' hno⟩, fun h => ⟨fun _ => h.link hwhole, fun _ => h.fields hwhole hlink⟩⟩
  case isTrue hyes =>
      rw [← copied_iff] at hyes
      simp only [below_cons]
      constructor
      · rintro ⟨hlink', hfields, hcopy⟩
        have hfields := hfields (by decide)
        exact ⟨fun _ => hlink' (by decide), fun _ _ => hfields,
          fun _ => (q.below_reads hfields).mp hcopy⟩
      · rintro ⟨hlink', hfields, hname⟩
        have hfields := hfields hwhole hlink
        exact ⟨fun _ => hlink' hwhole, fun _ => hfields, (q.below_reads hfields).mpr (hname hyes)⟩

/-- The rounds of the loop read below `bound` exactly if the records do. -/
theorem visits_reads_iff (h0 : s₀.strHashC = 0) :
    (∀ s, q.Visits msg s₀ s → Below (q.roundReads msg s) bound) ↔
      ∀ c, DirCursor.Reaches q msg s₀.cursor c → c.ReadsOk q msg bound := by
  constructor
  · intro h c hc
    obtain ⟨s, hvisits, rfl, -⟩ := exists_visits h0 hc
    exact below_roundReads.mp (h s hvisits)
  · intro h s hs
    exact below_roundReads.mpr (h _ hs.cursor)

end Reads

-- ============================================================================
-- Nothing else is read
-- ============================================================================

section Agreement

variable {q : DirQuery} {msg msg' : Mem} {s s₀ : DirCopy}

/-- Listings that agree on the reads of a round have the same record there. -/
theorem roundReads_agree (h : AgreeOn (q.roundReads msg s) msg msg')
    (hwhole : sizeofFileDirectoryInformation ≤ s.remaining) :
    nextEntryOffset msg s.src = nextEntryOffset msg' s.src ∧
      (nextEntryOffset msg s.src ≤ s.remaining →
        fileNameLength msg s.src = fileNameLength msg' s.src) := by
  refine ⟨h.readLe ?_, fun hlink => h.readLe ?_⟩
  · rw [DirQuery.roundReads, if_pos hwhole]
    exact List.mem_cons_self
  · rw [DirQuery.roundReads, if_pos hwhole, if_pos hlink]
    exact List.mem_cons_of_mem _ List.mem_cons_self

theorem dirGuard_agree (h : AgreeOn (q.roundReads msg s) msg msg') :
    dirGuard msg q.needed s = dirGuard msg' q.needed s := by
  unfold dirGuard
  by_cases hwhole : sizeofFileDirectoryInformation ≤ s.remaining
  · obtain ⟨hnext, hname⟩ := roundReads_agree h hwhole
    rw [← hnext]
    by_cases hlink : nextEntryOffset msg s.src ≤ s.remaining
    · rw [hname hlink]
    · simp only [hlink, decide_false, Bool.and_false, Bool.false_and]
  · simp only [hwhole, decide_false, Bool.false_and]

/-- A record that is copied is read alike. -/
theorem reads_agree (h : AgreeOn (q.roundReads msg s) msg msg') (hc : s.cursor.Copied q msg) :
    nextEntryOffset msg s.src = nextEntryOffset msg' s.src ∧
      fileNameLength msg s.src = fileNameLength msg' s.src ∧
      AgreeOn (q.reads s.src (fileNameLength msg s.src)) msg msg' := by
  obtain ⟨hnext, hname⟩ := roundReads_agree h hc.whole
  refine ⟨hnext, hname hc.link, h.mono fun x hx => ?_⟩
  have hwhole : sizeofFileDirectoryInformation ≤ s.remaining := hc.whole
  have hlink : nextEntryOffset msg s.src ≤ s.remaining := hc.link
  rw [DirQuery.roundReads, if_pos hwhole, if_pos hlink, if_pos (copied_iff.mp hc)]
  exact List.mem_cons_of_mem _ (List.mem_cons_of_mem _ hx)

theorem placeDirEntry_agree {cls : DirClass}
    (h : AgreeOn ((DirQuery.records cls).roundReads msg s) msg msg')
    (hc : s.cursor.Copied (.records cls) msg) :
    placeDirEntry cls msg s = placeDirEntry cls msg' s := by
  obtain ⟨hnext, hname, hreads⟩ := reads_agree h hc
  have hhead : msg.read s.src (sizeofFileDirectoryInformation - 8 - 2) =
      msg'.read s.src (sizeofFileDirectoryInformation - 8 - 2) :=
    hreads.read (by simp [DirQuery.reads])
  have htext : msg.read (s.src + dirFileNameOffset) (fileNameLength msg s.src) =
      msg'.read (s.src + dirFileNameOffset) (fileNameLength msg s.src) :=
    hreads.read (by simp [DirQuery.reads])
  rw [hname] at htext
  simp only [placeDirEntry, hname, hhead, htext, hnext]
  cases hshort : cls.hasShortName with
  | true =>
      have hcut : msg.read (s.src + dirFileNameOffset) (min (fileNameLength msg s.src) 24) =
          msg'.read (s.src + dirFileNameOffset) (min (fileNameLength msg s.src) 24) :=
        hreads.read (by simp [DirQuery.reads, hshort])
      rw [hname] at hcut
      simp only [if_true, hcut]
  | false => simp only [Bool.false_eq_true, if_false]

theorem placeNamesEntry_agree (h : AgreeOn (DirQuery.names.roundReads msg s) msg msg')
    (hc : s.cursor.Copied .names msg) (h0 : s.strHashC = 0) (fuel : Nat) :
    placeNamesEntry fuel msg s = placeNamesEntry fuel msg' s := by
  obtain ⟨hnext, hname, hreads⟩ := reads_agree h hc
  have htext : msg.read (s.src + dirFileNameOffset) (fileNameLength msg s.src) =
      msg'.read (s.src + dirFileNameOffset) (fileNameLength msg s.src) :=
    hreads.read (by simp [DirQuery.reads])
  simp only [placeNamesEntry, h0, strHashFn_zero, Option.bind_eq_bind, Option.bind_some]
  rw [htext, hnext, hname]

/-- The loop depends on the bytes its rounds read, and on no others. -/
theorem copyEntries_agree (h0 : s₀.strHashC = 0)
    (h : ∀ s, q.Visits msg s₀ s → AgreeOn (q.roundReads msg s) msg msg') (fuel : Nat) :
    q.copyEntries msg fuel s₀ = q.copyEntries msg' fuel s₀ := by
  induction fuel generalizing s₀ with
  | zero => cases q <;> rfl
  | succ fuel ih =>
      have hhere := h s₀ .refl
      have hguard := dirGuard_agree hhere
      cases q with
      | records cls =>
          simp only [DirQuery.needed] at hguard
          simp only [DirQuery.copyEntries, copyDirEntries, ← hguard]
          split
          case isFalse => rfl
          case isTrue hpass =>
          have hpasses := (dirGuard_iff_passes (q := .records cls)).mp hpass
          obtain ⟨-, hname⟩ := roundReads_agree hhere hpasses.whole
          rw [← hname hpasses.link]
          split
          case isFalse => rfl
          case isTrue hfits =>
          have hround : (DirQuery.records cls).Round msg s₀ (placeDirEntry cls msg s₀) :=
            .records hpass (decide_eq_true hfits)
          rw [← placeDirEntry_agree hhere hround.cursor.1]
          exact ih h0 fun s hs => h s (.head hround hs)
      | names =>
          simp only [DirQuery.needed] at hguard
          simp only [DirQuery.copyEntries, copyNamesEntries, ← hguard]
          split
          case isFalse => rfl
          case isTrue hpass =>
          have hpasses := (dirGuard_iff_passes (q := .names)).mp hpass
          rw [← placeNamesEntry_agree hhere ⟨hpasses, rfl⟩ h0 fuel]
          obtain ⟨s', hplace, -, -, -, hzero, -⟩ := placeNamesEntry_spec msg h0
          rw [hplace, Option.bind_some, Option.bind_some]
          exact ih hzero fun s hs => h s (.head (.names hpass (hplace 0)) hs)

end Agreement

-- ============================================================================
-- Nothing else is written
-- ============================================================================

section Frame

variable {q : DirQuery} {msg : Mem} {s s' s₀ : DirCopy} {i fuel : Nat}

/-- A round that copies a record changes the output where it writes. -/
theorem DirQuery.Round.outside (h : q.Round msg s s')
    (hi : ¬ Touches (q.roundWrites msg s) i) : s'.buffer i = s.buffer i := by
  have hcopied := copied_iff.mp h.cursor.1
  rw [Bool.and_eq_true] at hcopied
  rw [roundWrites, if_pos hcopied.1, if_pos hcopied.2] at hi
  cases h with
  | @records cls _ hguard hfits =>
      simp only [writes, touches_append, touches_cons, not_or, not_and, Nat.not_lt] at hi
      have hcopy : (((s.buffer.zero s.dst (dirInformationLength cls (fileNameLength msg s.src))).write
          s.dst (msg.read s.src (sizeofFileDirectoryInformation - 8 - 2))).write
          (s.dst + cls.nameOffset) (msg.read (s.src + dirFileNameOffset)
            (fileNameLength msg s.src))) i = s.buffer i := by
        rw [Mem.write_of_not_mem _ _ _ _ (by rw [Mem.length_read]; omega),
          Mem.write_of_not_mem _ _ _ _ (by rw [Mem.length_read]; omega),
          Mem.zero_of_not_mem _ _ _ _ (by omega)]
      simp only [placeDirEntry]
      split
      case isFalse => exact hcopy
      case isTrue hshort =>
          rw [hshort] at hi
          simp only [if_true, touches_cons, not_or, not_and, Nat.not_lt] at hi
          rw [Mem.writeLe_of_not_mem _ _ _ _ _ (by omega),
            Mem.write_of_not_mem _ _ _ _ (by rw [Mem.length_read]; omega), hcopy]
  | names hguard hplace =>
      simp only [writes, touches_cons, not_or, not_and, Nat.not_lt] at hi
      simp only [placeNamesEntry, Option.bind_eq_bind, Option.bind_eq_some_iff, Option.some.injEq,
        Prod.exists] at hplace
      obtain ⟨hash, c, -, rfl⟩ := hplace
      show ((((s.buffer.write _ _).writeLe _ 4 _).writeLe _ 4 _).writeLe _ 4 _ : Mem) i = s.buffer i
      rw [Mem.writeLe_of_not_mem _ _ _ _ _ (by omega), Mem.writeLe_of_not_mem _ _ _ _ _ (by omega),
        Mem.writeLe_of_not_mem _ _ _ _ _ (by omega),
        Mem.write_of_not_mem _ _ _ _ (by rw [Mem.length_read]; omega)]

end Frame

-- ============================================================================
-- Room
-- ============================================================================

/-- `DirInformationLength` is not huge, and for `FileBothDirectoryInformation`
    the name does not end behind it where there is nothing left. -/
structure DirCursor.RecordFits (cls : DirClass) (msg : Mem) (c : DirCursor) : Prop where
  small : cls.sizeof + c.nameLength msg + 4 < 2 ^ 31
  padded : ¬ (cls = .bothDirectory ∧ c.nameLength msg % 8 = 3 ∧
    c.length = dirInformationLength cls (c.nameLength msg))

/-- What the round for a record writes has room: the record if it is copied,
    and the fields that mark the end of the output if it is not for want of
    room. -/
def DirCursor.WritesOk (msg : Mem) (c : DirCursor) : DirQuery → Prop
  | .records cls => (c.Copied (.records cls) msg → c.RecordFits cls msg) ∧
      (c.Passes (.records cls) msg →
        (DirQuery.records cls).fits (c.nameLength msg) c.length = false → 64 ≤ c.length)
  | .names => c.Copied .names msg → c.nameLength msg + 12 ≤ c.length

/-- The output has `total` bytes, of which `length` are left; the padding of a
    names record may exceed them. -/
structure DirCursor.InRoom (total : Nat) (c : DirCursor) : Prop where
  left : (c.dst : Int) + c.length = total
  padding : -16 ≤ c.length

section Room

variable {q : DirQuery} {msg : Mem} {c : DirCursor} {total : Nat} {s : DirCopy}

theorem nameLength_lt (msg : Mem) (c : DirCursor) : c.nameLength msg < 2 ^ 32 :=
  Mem.readLe_lt msg (c.src + 60) 4

/-- `DirInformationLength` of a name that is not huge. -/
theorem dirInformationLength_small {cls : DirClass} {f : Nat} (h : cls.sizeof + f + 4 < 2 ^ 31) :
    dirInformationLength cls f = cls.sizeof + f - 4 + (8 - (cls.sizeof + f - 4) % 8) ∧
      toLong (dirInformationLength cls f) = dirInformationLength cls f := by
  have hs : 72 ≤ cls.sizeof := by cases cls <;> decide
  have hlen : dirInformationLength cls f =
      cls.sizeof + f - 4 + (8 - (cls.sizeof + f - 4) % 8) := by
    simp only [dirInformationLength, alignLonglong]
    omega
  exact ⟨hlen, toLong_eq (by omega)⟩

/-- The record of a huge name is not written within the output. -/
theorem writes_huge {cls : DirClass} {dst f : Nat} (hf : f < 2 ^ 32) (htotal : total < 2 ^ 31)
    (h : 2 ^ 31 ≤ cls.sizeof + f + 4) :
    ¬ Below ((DirQuery.records cls).writes dst f) total := by
  have hs : 72 ≤ cls.sizeof ∧ cls.sizeof ≤ 112 := by cases cls <;> decide
  simp only [DirQuery.writes, below_append, below_cons]
  rintro ⟨⟨hzero, -, hname, -⟩, -⟩
  by_cases hlong : f < 2 ^ 31
  · -- the length does not wrap, and is no `LONG`
    have hlen : 2 ^ 31 ≤ dirInformationLength cls f := by
      simp only [dirInformationLength, alignLonglong]
      omega
    omega
  · omega

theorem below_writes_records {cls : DirClass} (hc : c.InRoom total) (htotal : total < 2 ^ 31)
    (hfits : (DirQuery.records cls).fits (c.nameLength msg) c.length = true) :
    Below ((DirQuery.records cls).writes c.dst (c.nameLength msg)) total ↔
      c.RecordFits cls msg := by
  have hf := nameLength_lt msg c
  have hleft := hc.left
  by_cases hsmall : cls.sizeof + c.nameLength msg + 4 < 2 ^ 31
  · obtain ⟨hlen, hlong⟩ := dirInformationLength_small hsmall
    have hroom : (dirInformationLength cls (c.nameLength msg) : Int) ≤ c.length := by
      rw [← hlong]
      exact of_decide_eq_true hfits
    have hiff : Below ((DirQuery.records cls).writes c.dst (c.nameLength msg)) total ↔
        ¬ (cls = .bothDirectory ∧ c.nameLength msg % 8 = 3 ∧
          c.length = dirInformationLength cls (c.nameLength msg)) := by
      generalize c.nameLength msg = f at *
      cases cls <;>
        simp only [DirQuery.writes, DirClass.hasShortName, DirClass.nameOffset, DirClass.sizeof,
          sizeofFileDirectoryInformation, Bool.false_eq_true, if_true, if_false, below_append,
          below_cons, below_nil, and_true, reduceCtorEq, false_and, not_false_eq_true,
          true_and, iff_true] at hlen ⊢ <;> omega
    rw [hiff]
    exact ⟨fun h => ⟨hsmall, h⟩, fun h => h.padded⟩
  · exact iff_of_false (writes_huge hf htotal (by omega)) fun h => hsmall h.small

theorem below_writes_names (hc : c.InRoom total) :
    Below (DirQuery.names.writes c.dst (c.nameLength msg)) total ↔
      c.nameLength msg + 12 ≤ c.length := by
  have hleft := hc.left
  simp only [DirQuery.writes, below_cons, below_nil, and_true]
  omega

/-- The next cursor, behind a record that is copied within the output. -/
theorem DirCursor.InRoom.after (hc : c.InRoom total) (htotal : total < 2 ^ 31)
    (hcopied : c.Copied q msg) (hok : c.WritesOk msg q) :
    (c.after q msg).InRoom total ∧ c.dst + 4 ≤ total ∧
      (q = .names → 0 < c.length ∧ (c.after q msg).length < c.length) := by
  obtain ⟨hleft, hpadding⟩ := hc
  cases q with
  | records cls =>
      obtain ⟨hsmall, -⟩ := hok.1 hcopied
      obtain ⟨hlen, hlong⟩ := dirInformationLength_small hsmall
      have hs : 72 ≤ cls.sizeof := by cases cls <;> decide
      have hroom : (dirInformationLength cls (c.nameLength msg) : Int) ≤ c.length := by
        rw [← hlong]
        exact of_decide_eq_true hcopied.fits
      have hafter : (c.after (.records cls) msg).length =
          c.length - dirInformationLength cls (c.nameLength msg) := by
        show toLong (c.length - dirInformationLength cls (c.nameLength msg)) = _
        exact toLong_eq (by omega)
      have hdst : (c.after (.records cls) msg).dst =
          c.dst + dirInformationLength cls (c.nameLength msg) := rfl
      exact ⟨⟨by omega, by omega⟩, by omega, fun h => by cases h⟩
  | names =>
      have hname := hok hcopied
      have hlen : namesInformationLength (c.nameLength msg) =
          14 + c.nameLength msg + (8 - (14 + c.nameLength msg) % 8) := by
        simp only [namesInformationLength, alignLonglong, sizeofFileNamesInformation]
        omega
      have hafter : (c.after .names msg).length =
          c.length - namesInformationLength (c.nameLength msg) := by
        show toLong (c.length - namesInformationLength (c.nameLength msg)) = _
        exact toLong_eq (by omega)
      have hdst : (c.after .names msg).dst =
          c.dst + namesInformationLength (c.nameLength msg) := rfl
      exact ⟨⟨by omega, by omega⟩, by omega, fun _ => ⟨by omega, by omega⟩⟩

/-- The state of the loop while it writes within the output. -/
structure DirCopy.InRoom (total : Nat) (s : DirCopy) : Prop where
  cursor : s.cursor.InRoom total
  ends : Below (DirQuery.endWrites s.last) total

theorem below_roundWrites (hs : s.InRoom total) (htotal : total < 2 ^ 31) :
    Below (q.roundWrites msg s) total ↔ s.cursor.WritesOk msg q := by
  have hpasses : dirGuard msg q.needed s = true ↔ s.cursor.Passes q msg := dirGuard_iff_passes
  have hleft : (s.dst : Int) + s.length = total := hs.cursor.left
  unfold DirQuery.roundWrites
  split
  case isFalse hguard =>
      rw [hpasses] at hguard
      refine iff_of_true hs.ends ?_
      cases q with
      | records cls => exact ⟨fun h => absurd h.toPasses hguard, fun h => absurd h hguard⟩
      | names => exact fun h => absurd h.toPasses hguard
  case isTrue hguard =>
  rw [hpasses] at hguard
  split
  case isTrue hfits =>
      cases q with
      | records cls =>
          have hbelow : Below ((DirQuery.records cls).writes s.cursor.dst (s.cursor.nameLength msg))
              total ↔ s.cursor.RecordFits cls msg := below_writes_records hs.cursor htotal hfits
          refine hbelow.trans
            ⟨fun h => ⟨fun _ => h, fun _ hno => ?_⟩, fun h => h.1 ⟨hguard, hfits⟩⟩
          have hyes : (DirQuery.records cls).fits (s.cursor.nameLength msg) s.cursor.length = true :=
            hfits
          rw [hyes] at hno
          cases hno
      | names =>
          have hbelow : Below (DirQuery.names.writes s.cursor.dst (s.cursor.nameLength msg)) total ↔
              s.cursor.nameLength msg + 12 ≤ s.cursor.length := below_writes_names hs.cursor
          refine hbelow.trans
            ⟨fun h _ => h, fun h => h ⟨hguard, hfits⟩⟩
  case isFalse hfits =>
      cases q with
      | records cls =>
          rw [below_append, below_cons, below_cons, and_iff_left hs.ends]
          have hstop : ¬ s.cursor.Copied (.records cls) msg := fun h => hfits h.fits
          have hmark : (((0 < 4 → s.dst + 4 ≤ total) ∧ (0 < 4 → s.dst + 60 + 4 ≤ total) ∧
              Below [] total)) ↔ 64 ≤ s.cursor.length := by
            have hlength : s.cursor.length = s.length := rfl
            simp only [below_nil, and_true]
            omega
          refine hmark.trans ⟨fun h => ⟨fun h' => absurd h' hstop, fun _ _ => h⟩,
            fun h => h.2 hguard ?_⟩
          exact Bool.eq_false_iff.mpr hfits
      | names => exact absurd rfl hfits

/-- A round keeps within the output. -/
theorem DirQuery.Round.inRoom {s' : DirCopy} (h : q.Round msg s s') (hs : s.InRoom total)
    (htotal : total < 2 ^ 31) (hok : s.cursor.WritesOk msg q) : s'.InRoom total := by
  obtain ⟨hcopied, hafter⟩ := h.cursor
  obtain ⟨hroom, hlast, -⟩ := hs.cursor.after htotal hcopied hok
  refine ⟨hafter ▸ hroom, ?_⟩
  rw [h.last, DirQuery.endWrites, below_cons]
  exact ⟨fun _ => hlast, below_nil⟩

/-- The rounds of the loop write within the output exactly if the records fit
    it. -/
theorem visits_writes_iff {s₀ : DirCopy} (h0 : s₀.strHashC = 0) (hs : s₀.InRoom total)
    (htotal : total < 2 ^ 31) :
    (∀ s, q.Visits msg s₀ s → Below (q.roundWrites msg s) total) ↔
      ∀ c, DirCursor.Reaches q msg s₀.cursor c → c.WritesOk msg q := by
  constructor
  · intro h c hc
    obtain ⟨s, hvisits, rfl, -⟩ := exists_visits h0 hc
    have hin : s.InRoom total := by
      clear hc
      induction hvisits with
      | refl => exact hs
      | tail hv hround ih => exact hround.inRoom ih htotal ((below_roundWrites ih htotal).mp (h _ hv))
    exact (below_roundWrites hin htotal).mp (h s hvisits)
  · intro h s hv
    have hin : s.InRoom total := by
      induction hv with
      | refl => exact hs
      | tail hv hround ih =>
          exact hround.inRoom ih htotal (h _ (DirQuery.Visits.cursor hv))
    exact (below_roundWrites hin htotal).mpr (h _ hv.cursor)

end Room

-- ============================================================================
-- Termination
-- ============================================================================

section Termination

variable {q : DirQuery} {msg : Mem} {s s₀ : DirCopy}

/-- The fields that mark the end of the output. -/
theorem mark_of_mem (b : Mem) (dst i : Nat) :
    ((b.writeLe dst 4 0).writeLe (dst + 60) 4 0) i = b i ∨
      dst ≤ i ∧ ((b.writeLe dst 4 0).writeLe (dst + 60) 4 0) i = 0 := by
  have hzero : ∀ (b : Mem) (off : Nat), b.writeLe off 4 0 i = b i ∨
      off ≤ i ∧ b.writeLe off 4 0 i = 0 := by
    intro b off
    by_cases hi : off ≤ i ∧ i < off + 4
    · obtain ⟨k, rfl⟩ : ∃ k, i = off + k := ⟨i - off, by omega⟩
      refine Or.inr ⟨by omega, ?_⟩
      have hk : k < (leBytes 4 0).length := by
        rw [length_leBytes]
        omega
      rw [Mem.writeLe, Mem.write_of_mem _ _ _ _ hk]
      obtain rfl | rfl | rfl | rfl : k = 0 ∨ k = 1 ∨ k = 2 ∨ k = 3 := by omega
      all_goals rfl
    · exact Or.inl (Mem.writeLe_of_not_mem _ _ _ _ _ (by omega))
  rcases hzero (b.writeLe dst 4 0) (dst + 60) with h | ⟨h, h'⟩
  · rw [h]
    exact hzero b dst
  · exact Or.inr ⟨by omega, h'⟩

/-- The loop ends with a record that is not copied: what it has written stays,
    and the rest of the output may be marked with zeros. -/
theorem copyEntries_ends (hc : ¬ s.cursor.Copied q msg) :
    ∃ s', (∀ fuel, q.copyEntries msg (fuel + 1) s = some s') ∧ s'.last = s.last ∧
      ∀ i, s'.buffer i = s.buffer i ∨ s.dst ≤ i ∧ s'.buffer i = 0 := by
  rw [copied_iff, Bool.and_eq_true, not_and] at hc
  cases q with
  | records cls =>
      by_cases hguard : dirGuard msg dirNeeded s = true
      · have hfits : ¬ toLong (dirInformationLength cls (fileNameLength msg s.src)) ≤ s.length := by
          simpa only [DirQuery.fits, decide_eq_true_eq] using hc hguard
        refine ⟨{ s with buffer := (s.buffer.writeLe s.dst 4 0).writeLe (s.dst + 60) 4 0 },
          fun fuel => ?_, rfl, mark_of_mem s.buffer s.dst⟩
        rw [DirQuery.copyEntries, copyDirEntries, if_pos hguard, if_neg hfits]
      · refine ⟨s, fun fuel => ?_, rfl, fun i => Or.inl rfl⟩
        rw [DirQuery.copyEntries, copyDirEntries, if_neg hguard]
  | names =>
      have hguard : ¬ dirGuard msg namesNeeded s = true := fun h => hc h rfl
      refine ⟨s, fun fuel => ?_, rfl, fun i => Or.inl rfl⟩
      rw [DirQuery.copyEntries, copyNamesEntries, if_neg hguard]

/-- A loop whose rounds make a number smaller ends. -/
theorem copyEntries_settles (measure : DirCursor → Nat) (h0 : s₀.strHashC = 0)
    (hless : ∀ c, DirCursor.Reaches q msg s₀.cursor c → c.Copied q msg →
      measure (c.after q msg) < measure c) :
    ∃ s', Settles (fun fuel => q.copyEntries msg fuel s₀) s' := by
  suffices h : ∃ s', ∀ fuel, measure s₀.cursor < fuel → q.copyEntries msg fuel s₀ = some s' by
    obtain ⟨s', hs'⟩ := h
    exact ⟨s', _, hs'⟩
  induction hn : measure s₀.cursor using Nat.strongRecOn generalizing s₀ with
  | ind n ih =>
      by_cases hc : s₀.cursor.Copied q msg
      · obtain ⟨s₁, hround, hzero, hrun⟩ := copyEntries_round hc h0
        have hafter := hround.cursor.2
        have hlt := hless _ .refl hc
        rw [← hafter, hn] at hlt
        obtain ⟨s', hs'⟩ := ih _ hlt hzero
          (fun c hreach => hless c (.head ⟨hc, hafter⟩ hreach)) rfl
        refine ⟨s', fun fuel hfuel => ?_⟩
        obtain ⟨fuel, rfl⟩ : ∃ k, fuel = k + 1 := ⟨fuel - 1, by omega⟩
        rw [hrun]
        exact hs' fuel (by omega)
      · obtain ⟨s', hs', -⟩ := copyEntries_ends hc
        refine ⟨s', fun fuel hfuel => ?_⟩
        obtain ⟨fuel, rfl⟩ : ∃ k, fuel = k + 1 := ⟨fuel - 1, by omega⟩
        exact hs' fuel

/-- The loop over a directory class ends: every record takes at least 70 bytes
    off the listing. -/
theorem copyEntries_records_settles (cls : DirClass) (h0 : s₀.strHashC = 0) :
    ∃ s', Settles (fun fuel => (DirQuery.records cls).copyEntries msg fuel s₀) s' := by
  refine copyEntries_settles DirCursor.remaining h0 fun c _ hcopied => ?_
  have hwhole := hcopied.whole
  simp only [DirCursor.after, DirQuery.consumed, sizeofFileDirectoryInformation] at hwhole ⊢
  omega

/-- The names loop ends if the names fit the output: each takes some of the
    room. -/
theorem copyEntries_names_settles {total : Nat} (htotal : total < 2 ^ 31)
    (h0 : s₀.strHashC = 0) (hroom : s₀.cursor.InRoom total)
    (hok : ∀ c, DirCursor.Reaches .names msg s₀.cursor c → c.WritesOk msg .names) :
    ∃ s', Settles (fun fuel => DirQuery.names.copyEntries msg fuel s₀) s' := by
  have hin : ∀ c, DirCursor.Reaches .names msg s₀.cursor c → c.InRoom total := by
    intro c hc
    induction hc with
    | refl => exact hroom
    | tail hreach hstep ih =>
        obtain ⟨hcopied, rfl⟩ := hstep
        exact (ih.after htotal hcopied (hok _ hreach)).1
  refine copyEntries_settles (fun c => c.length.toNat) h0 fun c hc hcopied => ?_
  obtain ⟨-, -, hless⟩ := (hin c hc).after htotal hcopied (hok c hc)
  obtain ⟨hpos, hlt⟩ := hless rfl
  omega

end Termination

-- ============================================================================
-- The whole function
-- ============================================================================

/-- The cursor at the start, for a listing of `len` bytes behind the header of
    the response. -/
def dirCursorStart (length : Int) (len : Nat) : DirCursor := ⟨sizeofFusentResp, len, length, 0⟩

/-- `visits_reads_iff` from the start of the loops. -/
theorem dirCopyStart_reads_iff (q : DirQuery) (msg : Mem) (bound : Nat) (irp : Irp) (length : Int)
    (len : Nat) :
    (∀ s, q.Visits msg (dirCopyStart irp length len) s → Below (q.roundReads msg s) bound) ↔
      ∀ c, DirCursor.Reaches q msg (dirCursorStart length len) c → c.ReadsOk q msg bound :=
  visits_reads_iff rfl

/-- `visits_writes_iff` from there, for a `Length` that is not negative. -/
theorem dirCopyStart_writes_iff (q : DirQuery) (msg : Mem) (irp : Irp) {length : Nat} (len : Nat)
    (hlen : length < 2 ^ 31) :
    (∀ s, q.Visits msg (dirCopyStart irp length len) s → Below (q.roundWrites msg s) length) ↔
      ∀ c, DirCursor.Reaches q msg (dirCursorStart length len) c → c.WritesOk msg q :=
  visits_writes_iff rfl ⟨⟨Int.zero_add _, by simp only [DirCopy.cursor, dirCopyStart]; omega⟩,
    below_nil⟩ hlen

/-- `FuseCopyDirectoryControl` returns, reads the listing of `len` bytes and
    nothing behind it, and writes the output buffer and nothing behind it. -/
structure DirControlSafe (q : DirQuery) (irp : Irp) (sp : IoStackLocation) (msg : Mem)
    (len : Nat) : Prop where
  returns : ∃ reply,
    Settles (fun fuel => fuseCopyDirectoryControl fuel 0 irp msg sizeofFusentResp len) reply
  reads : ∀ s, q.Visits msg (dirCopyStart irp (toLong sp.queryDirectoryLength) len) s →
    Below (q.roundReads msg s) (sizeofFusentResp + len)
  zeroes : Below [(0, (toLong sp.queryDirectoryLength % (2 ^ 64 : Nat)).toNat)]
    sp.queryDirectoryLength
  writes : ∀ s, q.Visits msg (dirCopyStart irp (toLong sp.queryDirectoryLength) len) s →
    Below (q.roundWrites msg s) sp.queryDirectoryLength

/-- The condition on a record: it is within the listing, and what is written
    for it has room.  The names loop keeps within the listing by itself. -/
def DirCursor.RecordOk (msg : Mem) (bound : Nat) (c : DirCursor) (q : DirQuery) : Prop :=
  (∀ cls, q = .records cls → c.ReadsOk q msg bound) ∧ c.WritesOk msg q

/-- The names loop takes off the listing what it passes of it. -/
theorem names_readsOk {msg : Mem} {c₀ c : DirCursor} (h : DirCursor.Reaches .names msg c₀ c) :
    c.ReadsOk .names msg (c₀.src + c₀.remaining) := by
  have hsum : c.src + c.remaining = c₀.src + c₀.remaining := by
    induction h with
    | refl => rfl
    | @tail b _ _ hstep ih =>
        obtain ⟨hcopied, rfl⟩ := hstep
        have hlink := hcopied.link
        simp only [DirCursor.after, DirQuery.consumed]
        omega
  refine ⟨fun hwhole => ?_, fun hwhole _ => ?_, fun hcopied => ?_⟩
  · unfold sizeofFileDirectoryInformation at hwhole
    omega
  · unfold sizeofFileDirectoryInformation at hwhole
    unfold dirFileNameOffset
    omega
  · have hname := hcopied.name
    unfold sizeofFileDirectoryInformation at hname
    unfold dirFileNameOffset
    omega

/-- For any contents of a listing: `FuseCopyDirectoryControl` is safe exactly if
    every record it comes to meets the condition. -/
theorem dir_control_safe_iff {irp : Irp} {sp : IoStackLocation} {q : DirQuery}
    (hsp : irp.currentStackLocation = some sp)
    (hq : DirQuery.ofCode sp.queryDirectoryClass = some q)
    (hlen : sp.queryDirectoryLength < 2 ^ 31) (msg : Mem) (len : Nat) :
    DirControlSafe q irp sp msg len ↔
      ∀ c, DirCursor.Reaches q msg (dirCursorStart sp.queryDirectoryLength len) c →
        c.RecordOk msg (sizeofFusentResp + len) q := by
  have hlong : toLong sp.queryDirectoryLength = sp.queryDirectoryLength := toLong_eq (by omega)
  have hreads := dirCopyStart_reads_iff q msg (sizeofFusentResp + len) irp sp.queryDirectoryLength
    len
  have hwrites := dirCopyStart_writes_iff q msg irp len hlen
  constructor
  · rintro ⟨-, hr, -, hw⟩ c hc
    rw [hlong] at hr hw
    exact ⟨fun _ _ => hreads.mp hr c hc, hwrites.mp hw c hc⟩
  · intro hok
    have hwok := fun c hc => (hok c hc).2
    have hsettles : ∃ s', Settles
        (fun fuel => q.copyEntries msg fuel (dirCopyStart irp sp.queryDirectoryLength len)) s' := by
      cases q with
      | records cls => exact copyEntries_records_settles cls rfl
      | names =>
          refine copyEntries_names_settles hlen rfl ⟨Int.zero_add _, ?_⟩ hwok
          simp only [DirCopy.cursor, dirCopyStart]
          omega
    obtain ⟨s', n, hrun⟩ := hsettles
    refine ⟨⟨dirReply irp s', n, fun fuel hfuel => ?_⟩, ?_, ?_, ?_⟩
    · show fuseCopyDirectoryControl fuel 0 irp msg sizeofFusentResp len = _
      rw [fuseCopyDirectoryControl_eq hsp hq, hlong]
      exact congrArg (Option.map (dirReply irp)) (hrun fuel hfuel)
    · rw [hlong]
      refine hreads.mpr fun c hc => ?_
      cases q with
      | records cls => exact (hok c hc).1 cls rfl
      | names => exact names_readsOk hc
    · rw [hlong, below_cons]
      exact ⟨fun _ => by omega, below_nil⟩
    · rw [hlong]
      exact hwrites.mpr hwok

/-- A response whose listing starts with a record without link and with a name
    length `f`; all else is zero. -/
def sampleListing (f : Nat) : Mem := Mem.zeros.writeLe (sizeofFusentResp + 60) 4 f

/-- A listing of 72 bytes with a name of one character, and room for it. -/
theorem dir_control_safe_one_record :
    DirControlSafe (.records .directory) (Irp.zeroed.withStackLocation (dirRequest 80))
      (dirRequest 80) (sampleListing 2) 72 := by
  refine (dir_control_safe_iff rfl rfl (by decide) _ _).mpr fun c hc => ?_
  have hfirst : (dirCursorStart (dirRequest 80).queryDirectoryLength 72).RecordOk (sampleListing 2)
      (sizeofFusentResp + 72) (.records .directory) :=
    ⟨fun _ _ => ⟨by decide, by decide, fun _ => by decide⟩, fun _ => ⟨by decide, by decide⟩,
      fun _ => by decide⟩
  rcases Relation.ReflTransGen.cases_head hc with rfl | ⟨b, ⟨-, rfl⟩, hrest⟩
  · exact hfirst
  · -- nothing is left of the listing
    have hempty : ((dirCursorStart (dirRequest 80).queryDirectoryLength 72).after
        (.records .directory) (sampleListing 2)).remaining = 0 := by decide
    rcases Relation.ReflTransGen.cases_head hrest with rfl | ⟨b, ⟨hcopied, -⟩, -⟩
    · have hno : ¬ sizeofFileDirectoryInformation ≤ 0 := by decide
      rw [← hempty] at hno
      exact ⟨fun _ _ => ⟨fun h => absurd h hno, fun h => absurd h hno, fun h => absurd h.whole hno⟩,
        fun h => absurd h.whole hno, fun h => absurd h.whole hno⟩
    · have hwhole := hcopied.whole
      rw [hempty] at hwhole
      exact absurd hwhole (by decide)

/-- A request for `FileBothDirectoryInformation`. -/
def bothRequest (length : UInt64) : IoStackLocation := { dirRequest length with arg2 := 3 }

/-- A name of 3 bytes and just `DirInformationLength` bytes of room: the last
    byte of the name is written behind the output. -/
theorem dir_control_unsafe_odd_name :
    (Irp.zeroed.withStackLocation (bothRequest 96)).currentStackLocation =
        some (bothRequest 96) ∧
      DirQuery.ofCode (bothRequest 96).queryDirectoryClass = some (.records .bothDirectory) ∧
      ¬ DirControlSafe (.records .bothDirectory) (Irp.zeroed.withStackLocation (bothRequest 96))
        (bothRequest 96) (sampleListing 3) 73 := by
  refine ⟨rfl, rfl, fun h => ?_⟩
  have hlast : 96 < 96 := h.writes _ .refl 96 ⟨(94, 3), by decide, by decide, by decide⟩
  omega

end FuseNt
