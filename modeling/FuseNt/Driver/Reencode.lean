/-
  FuseNt.Driver.Reencode

  What an application finds in the output of `FuseCopyDirectoryControl`.

  The driver re-encodes a chain of `FILE_DIRECTORY_INFORMATION` records in the
  class of the request.  For the directory classes the link of a record is
  copied from the module, where it is the size of the module's record; it leads
  to the next record of the output if the class has records of that size.  In
  the output for `FileNamesInformation` the links are right, but the last record
  of the listing, which has no link, is copied again as long as there is room.

  `Faithful` is what the application should find, and `ReencodeOk` says for
  which listings and lengths it does.
-/

import FuseNt.Driver.DirBounds

namespace FuseNt

open FuseNt.Lib

-- ============================================================================
-- Listings and outputs
-- ============================================================================

/-- The bytes of a file name in UTF-16, as a module may list it. -/
@[ext] structure EntryName where
  bytes : List UInt8
  even : bytes.length % 2 = 0
  length_le : bytes.length ≤ 2048

namespace EntryName

/-- The length of the record in the module's listing. -/
def size (x : EntryName) : Nat := fusentFdientSize x.bytes.length

theorem size_bounds (x : EntryName) :
    70 + x.bytes.length ≤ x.size ∧ x.size ≤ 76 + x.bytes.length ∧ 72 ≤ x.size := by
  have heven := x.even
  simp only [size, fusentFdientSize, sizeofFileDirectoryInformation]
  omega

end EntryName

/-- A record of the listing, with its link. -/
structure EntryAt (msg : Mem) (off : Nat) (x : EntryName) (link : Nat) : Prop where
  next : nextEntryOffset msg off = link
  length : fileNameLength msg off = x.bytes.length
  name : msg.read (off + dirFileNameOffset) x.bytes.length = x.bytes

namespace DirQuery

/-- The offset of `FileName` in the records of a class. -/
def nameOffset : DirQuery → Nat
  | records cls => cls.nameOffset
  | names => 12

/-- The offset of `FileNameLength`. -/
def lengthOffset : DirQuery → Nat
  | records _ => 60
  | names => 8

/-- The application finds the name at `dst`. -/
structure Shows (q : DirQuery) (out : Mem) (dst : Nat) (x : EntryName) : Prop where
  length : out.readLe (dst + q.lengthOffset) 4 = x.bytes.length
  name : out.read (dst + q.nameOffset) x.bytes.length = x.bytes

/-- Following the links from `dst` leads to the records `xs`, which are within
    the `len` bytes of the output and do not overlap, and ends with the last of
    them. -/
def Walk (q : DirQuery) (out : Mem) (len : Nat) : Nat → List EntryName → Prop
  | _, [] => True
  | dst, x :: rest =>
      q.Shows out dst x ∧ dst + q.nameOffset + x.bytes.length ≤ len ∧
        if rest = [] then out.readLe dst 4 = 0
        else q.nameOffset + x.bytes.length ≤ out.readLe dst 4 ∧
          Walk q out len (dst + out.readLe dst 4) rest

/-- The output of `len` bytes holds some of the first records of the listing
    `rs`, each once and in order; if it holds none it was left zero. -/
def Faithful (q : DirQuery) (out : Mem) (len : Nat) (rs : List EntryName) : Prop :=
  ∃ j, j ≤ rs.length ∧ q.Walk out len 0 (rs.take j) ∧ (j = 0 → ∀ i, i < len → out i = 0)

/-- The room that entries for `rs` take. -/
def room (q : DirQuery) (rs : List EntryName) : Nat :=
  (rs.map fun x => q.entryLength x.bytes.length).sum

end DirQuery

/-- The records of a class are as long as those of the module. -/
def DirClass.basic : DirClass → Bool
  | directory => true
  | fullDirectory => true
  | _ => false

section Sizes

variable (q : DirQuery) (x : EntryName)

/-- What a name takes in the output. -/
theorem entry_bounds : q.entryLength x.bytes.length < 2 ^ 12 ∧ q.roomNeeded x.bytes.length < 2 ^ 12 ∧
    q.needed x.bytes.length ≤ q.roomNeeded x.bytes.length ∧
    q.nameOffset + x.bytes.length ≤ q.entryLength x.bytes.length ∧
    q.lengthOffset + 4 ≤ q.nameOffset ∧
    q.roomNeeded x.bytes.length ≤ q.entryLength x.bytes.length + 8 ∧
    14 ≤ q.roomNeeded x.bytes.length ∧
    q.consumed x.bytes.length x.size ≤ x.size := by
  have heven := x.even
  have hlen := x.length_le
  have hsize := x.size_bounds
  cases q with
  | records cls =>
      simp only [DirQuery.entryLength, DirQuery.roomNeeded, DirQuery.needed, DirQuery.nameOffset,
        DirQuery.lengthOffset, DirQuery.consumed, dirInformationLength, alignLonglong, dirNeeded,
        sizeofFileDirectoryInformation]
      cases cls <;> simp only [DirClass.sizeof, DirClass.nameOffset] <;> omega
  | names =>
      simp only [DirQuery.entryLength, DirQuery.roomNeeded, DirQuery.needed, DirQuery.nameOffset,
        DirQuery.lengthOffset, DirQuery.consumed, namesInformationLength, alignLonglong,
        namesNeeded, sizeofFileNamesInformation]
      omega

theorem name_le_room : q.nameOffset + x.bytes.length ≤ q.roomNeeded x.bytes.length := by
  have hname := (entry_bounds q x).2.2.2.1
  cases q with
  | records cls =>
      simp only [DirQuery.entryLength, DirQuery.roomNeeded] at hname ⊢
      omega
  | names =>
      simp only [DirQuery.nameOffset, DirQuery.roomNeeded, namesNeeded, sizeofFileNamesInformation]
      omega

end Sizes

-- ============================================================================
-- A round
-- ============================================================================

section Round

variable {q : DirQuery} {msg : Mem} {s s' : DirCopy} {x : EntryName} {link : Nat}

/-- A record that is copied has room. -/
theorem room_of_copied {c : DirCursor} (hx : EntryAt msg c.src x link) (hc : c.Copied q msg) :
    (q.roomNeeded x.bytes.length : Int) ≤ c.length := by
  have hlen : c.nameLength msg = x.bytes.length := hx.length
  obtain ⟨-, hsmall, hneed, -⟩ := entry_bounds q x
  have hroom := hc.room
  have hfits := hc.fits
  rw [hlen] at hroom hfits
  rw [toLong_eq (by omega)] at hroom
  cases q with
  | records cls =>
      simp only [DirQuery.roomNeeded, DirQuery.needed, DirQuery.fits, decide_eq_true_eq]
        at hroom hfits hsmall ⊢
      rw [toLong_eq (by omega)] at hfits
      omega
  | names => exact hroom

/-- A record of the listing is copied if there is room for it. -/
theorem copied_entry_iff {c : DirCursor} (hx : EntryAt msg c.src x link) (hlink : link ≤ c.remaining)
    (hrem : x.size ≤ c.remaining) :
    c.Copied q msg ↔ (q.roomNeeded x.bytes.length : Int) ≤ c.length := by
  have hsize := x.size_bounds
  have hlen : c.nameLength msg = x.bytes.length := hx.length
  obtain ⟨-, hsmall, hneed, -⟩ := entry_bounds q x
  refine ⟨room_of_copied hx, fun h => ⟨⟨?_, ?_, ?_, ?_⟩, ?_⟩⟩
  · unfold sizeofFileDirectoryInformation
    omega
  · rwa [hx.next]
  · rw [hlen]
    unfold sizeofFileDirectoryInformation
    omega
  · rw [hlen, toLong_eq (by omega)]
    omega
  · rw [hlen]
    cases q with
    | records cls =>
        simp only [DirQuery.roomNeeded] at h hsmall
        refine decide_eq_true ?_
        rw [toLong_eq (by omega)]
        omega
    | names => rfl

/-- A 32-bit integer and its bytes. -/
theorem readLe_four (m : Mem) (off : Nat) : m.readLe off 4 =
    (m off).toNat + 256 * ((m (off + 1)).toNat + 256 * ((m (off + 2)).toNat +
      256 * (m (off + 3)).toNat)) := by
  simp [Mem.readLe, Mem.read, List.range_succ, leNat]

/-- The link that a record gets. -/
def DirQuery.linkOf (q : DirQuery) (x : EntryName) (link : Nat) : Nat :=
  match q with
  | records _ => link
  | names => q.entryLength x.bytes.length

/-- The output of a directory class, from the fields it starts with and the
    name. -/
theorem placeDirEntry_buffer (cls : DirClass) (msg : Mem) (s : DirCopy) :
    ∃ short : List UInt8, short.length ≤ 24 ∧
      (placeDirEntry cls msg s).buffer =
        let copied := ((s.buffer.zero s.dst (dirInformationLength cls (fileNameLength msg s.src))).write
          s.dst (msg.read s.src 62)).write (s.dst + cls.nameOffset)
            (msg.read (s.src + dirFileNameOffset) (fileNameLength msg s.src))
        if cls.hasShortName then
          (copied.write (s.dst + 70) short).writeLe (s.dst + 68) 1 (min (fileNameLength msg s.src) 24)
        else copied := by
  refine ⟨msg.read (s.src + dirFileNameOffset) (min (fileNameLength msg s.src) 24), ?_, rfl⟩
  rw [Mem.length_read]
  exact Nat.min_le_right _ _

/-- The first fields of a record are copied from the module's, less the upper
    half of `FileNameLength`. -/
theorem placeDirEntry_fields {cls : DirClass} {i : Nat} (hi : i < 64)
    (hx : EntryAt msg s.src x link) :
    (placeDirEntry cls msg s).buffer (s.dst + i) = if i < 62 then msg (s.src + i) else 0 := by
  obtain ⟨short, hshort, hbuffer⟩ := placeDirEntry_buffer cls msg s
  have hoffset : 64 ≤ cls.nameOffset := by cases cls <;> decide
  have hroom : 64 ≤ dirInformationLength cls (fileNameLength msg s.src) := by
    obtain ⟨-, -, -, hname, -⟩ := entry_bounds (.records cls) x
    simp only [DirQuery.entryLength, DirQuery.nameOffset] at hname
    rw [hx.length]
    omega
  have hcopied : ((s.buffer.zero s.dst (dirInformationLength cls (fileNameLength msg s.src))).write
      s.dst (msg.read s.src 62)).write (s.dst + cls.nameOffset)
        (msg.read (s.src + dirFileNameOffset) (fileNameLength msg s.src)) (s.dst + i) =
      if i < 62 then msg (s.src + i) else 0 := by
    rw [Mem.write_of_not_mem _ _ _ _ (by omega)]
    split
    case isTrue hhead =>
        have hmem : i < (msg.read s.src 62).length := by rwa [Mem.length_read]
        rw [Mem.write_of_mem _ _ _ _ hmem, Mem.getElem_read]
    case isFalse htail =>
        rw [Mem.write_of_not_mem _ _ _ _ (by rw [Mem.length_read]; omega),
          Mem.zero_of_mem _ _ _ _ (by omega)]
  rw [hbuffer]
  cases cls.hasShortName with
  | true =>
      simp only [if_true]
      rw [Mem.writeLe_of_not_mem _ _ _ _ _ (by omega), Mem.write_of_not_mem _ _ _ _ (by omega),
        hcopied]
  | false => exact hcopied

theorem placeDirEntry_name {cls : DirClass} (hx : EntryAt msg s.src x link) :
    (placeDirEntry cls msg s).buffer.read (s.dst + cls.nameOffset) x.bytes.length = x.bytes := by
  obtain ⟨short, hshort, hbuffer⟩ := placeDirEntry_buffer cls msg s
  have hcopied : (((s.buffer.zero s.dst (dirInformationLength cls (fileNameLength msg s.src))).write
      s.dst (msg.read s.src 62)).write (s.dst + cls.nameOffset)
        (msg.read (s.src + dirFileNameOffset) (fileNameLength msg s.src))).read
      (s.dst + cls.nameOffset) x.bytes.length = x.bytes := by
    rw [hx.length, hx.name]
    exact Mem.read_write_same _ _ _
  rw [hbuffer]
  cases hname : cls.hasShortName with
  | true =>
      -- the short name ends where the name starts, or before
      have hoffset : 94 ≤ cls.nameOffset := by
        cases cls with
        | bothDirectory => decide
        | idBothDirectory => decide
        | _ => cases hname
      simp only [if_true, Mem.writeLe]
      rw [Mem.read_write_disjoint _ _ _ _ _ (by rw [length_leBytes]; omega),
        Mem.read_write_disjoint _ _ _ _ _ (by omega), hcopied]
  | false => exact hcopied

/-- A round stores the record, with its name and a link. -/
theorem DirQuery.Round.stores (h : q.Round msg s s') (hx : EntryAt msg s.src x link) :
    q.Shows s'.buffer s.dst x ∧ s'.buffer.readLe s.dst 4 = q.linkOf x link ∧
      s'.last = some s.dst := by
  have hlen := x.length_le
  cases h with
  | @records cls _ hguard hfits =>
      have hfields : ∀ i, i < 64 → (placeDirEntry cls msg s).buffer (s.dst + i) =
          if i < 62 then msg (s.src + i) else 0 := fun i hi => placeDirEntry_fields hi hx
      refine ⟨⟨?_, ?_⟩, ?_, rfl⟩
      · -- the upper half is zero in a listing, too
        have hlength : msg.readLe (s.src + 60) 4 = x.bytes.length := hx.length
        rw [← hlength]
        rw [readLe_four] at hlength
        simp only [Nat.add_assoc, Nat.reduceAdd] at hlength
        have h62 : msg (s.src + 62) = 0 := UInt8.toNat_inj.mp (by simp; omega)
        have h63 : msg (s.src + 63) = 0 := UInt8.toNat_inj.mp (by simp; omega)
        refine Mem.readLe_congr fun i hi => ?_
        rw [Nat.add_assoc, Nat.add_assoc]
        show (placeDirEntry cls msg s).buffer (s.dst + (60 + i)) = _
        rw [hfields (60 + i) (by omega)]
        split
        case isTrue => rfl
        case isFalse hge =>
            obtain rfl | rfl : i = 2 ∨ i = 3 := by omega
            · exact h62.symm
            · exact h63.symm
      · exact placeDirEntry_name hx
      · show (placeDirEntry cls msg s).buffer.readLe s.dst 4 = link
        rw [← hx.next]
        refine Mem.readLe_congr fun i hi => ?_
        rw [hfields i (by omega), if_pos (by omega)]
  | names hguard hplace =>
      simp only [placeNamesEntry, Option.bind_eq_bind, Option.bind_eq_some_iff, Option.some.injEq,
        Prod.exists] at hplace
      obtain ⟨hash, c, -, rfl⟩ := hplace
      have hentry : namesInformationLength x.bytes.length < 2 ^ 32 := by
        have := (entry_bounds .names x).1
        simp only [entryLength] at this
        omega
      simp only [hx.length, hx.name]
      refine ⟨⟨?_, ?_⟩, ?_, trivial⟩
      · show Mem.readLe _ (s.dst + 8) 4 = _
        rw [Mem.readLe_writeLe_disjoint _ _ _ _ _ _ (by omega),
          Mem.readLe_writeLe_disjoint _ _ _ _ _ _ (by omega), Mem.readLe_writeLe_same]
        exact Nat.mod_eq_of_lt (by omega)
      · show Mem.read _ (s.dst + 12) x.bytes.length = _
        simp only [Mem.writeLe]
        rw [Mem.read_write_disjoint _ _ _ _ _ (by rw [length_leBytes]; omega),
          Mem.read_write_disjoint _ _ _ _ _ (by rw [length_leBytes]; omega),
          Mem.read_write_disjoint _ _ _ _ _ (by rw [length_leBytes]; omega),
          Mem.read_write_same]
      · show Mem.readLe _ s.dst 4 = _
        rw [Mem.readLe_writeLe_same]
        exact Nat.mod_eq_of_lt hentry

end Round

-- ============================================================================
-- The records that are copied
-- ============================================================================

namespace DirQuery

/-- From the cursor `c` on, the loop copies the records `ys`, given with their
    links. -/
inductive Emits (q : DirQuery) (msg : Mem) : DirCursor → List (EntryName × Nat) → Prop
  | stop {c : DirCursor} (stops : ¬ c.Copied q msg) : Emits q msg c []
  | copy {c : DirCursor} {x : EntryName} {link : Nat} {ys : List (EntryName × Nat)}
      (copied : c.Copied q msg) (entry : EntryAt msg c.src x link)
      (rest : Emits q msg (c.after q msg) ys) : Emits q msg c ((x, link) :: ys)

/-- The output has the records `ys` one behind the other, the last without a
    link. -/
def Placed (q : DirQuery) (out : Mem) (len : Nat) : Nat → List (EntryName × Nat) → Prop
  | _, [] => True
  | dst, (x, link) :: rest =>
      q.Shows out dst x ∧ dst + q.nameOffset + x.bytes.length ≤ len ∧
        out.readLe dst 4 = (if rest = [] then 0 else q.linkOf x link) ∧
        Placed q out len (dst + q.entryLength x.bytes.length) rest

end DirQuery

section Emits

variable {q : DirQuery} {msg : Mem} {c : DirCursor} {x : EntryName} {link len : Nat}
  {ys : List (EntryName × Nat)}

/-- The cursor behind a record of the listing. -/
theorem after_entry (hx : EntryAt msg c.src x link) (hlen : c.length < 2 ^ 31)
    (hroom : (q.roomNeeded x.bytes.length : Int) ≤ c.length) :
    (c.after q msg).src = c.src + link ∧
      (c.after q msg).length = c.length - q.entryLength x.bytes.length ∧
      (c.after q msg).dst = c.dst + q.entryLength x.bytes.length := by
  have hname : c.nameLength msg = x.bytes.length := hx.length
  obtain ⟨hsmall, -⟩ := entry_bounds q x
  simp only [DirCursor.after, hname, hx.next, true_and, and_true]
  exact toLong_eq (by omega)

theorem EntryAt.unique {off link' : Nat} {x' : EntryName} (h : EntryAt msg off x link)
    (h' : EntryAt msg off x' link') : x = x' ∧ link = link' := by
  refine ⟨EntryName.ext ?_, h.next.symm.trans h'.next⟩
  have hname := h.name
  rw [← h.length, h'.length, h'.name] at hname
  exact hname.symm

end Emits

-- ============================================================================
-- The loop
-- ============================================================================

section Loop

variable {q : DirQuery} {msg : Mem} {s s' : DirCopy} {x : EntryName} {link len dst : Nat}
  {out out' : Mem} {ys : List (EntryName × Nat)}

theorem DirQuery.Shows.congr (h : q.Shows out dst x)
    (hout : ∀ i, 4 ≤ i → i < q.entryLength x.bytes.length → out' (dst + i) = out (dst + i)) :
    q.Shows out' dst x := by
  obtain ⟨-, -, -, hname, hfield, -⟩ := entry_bounds q x
  have hoffset : 8 ≤ q.lengthOffset := by cases q <;> simp [lengthOffset]
  refine ⟨?_, ?_⟩
  · rw [← h.length]
    refine Mem.readLe_congr fun i hi => ?_
    rw [Nat.add_assoc, hout _ (by omega) (by omega)]
  · rw [← h.name]
    simp only [Mem.length_read]
    refine Mem.read_congr fun i hi => ?_
    rw [Nat.add_assoc, hout _ (by omega) (by omega)]

theorem DirQuery.writes_above {f i : Nat} (h : Touches (q.writes dst f) i) : dst ≤ i := by
  cases q with
  | records cls =>
      simp only [writes, touches_append, touches_cons, touches_nil, or_false] at h
      cases hshort : cls.hasShortName with
      | true =>
          simp only [hshort, if_true, touches_cons, touches_nil, or_false] at h
          omega
      | false =>
          simp only [hshort, Bool.false_eq_true, if_false, touches_nil, or_false] at h
          omega
  | names =>
      simp only [writes, touches_cons, touches_nil, or_false] at h
      omega

/-- A round writes nothing before its record. -/
theorem DirQuery.Round.below_dst (h : q.Round msg s s') {i : Nat} (hi : i < s.dst) :
    s'.buffer i = s.buffer i := by
  refine h.outside fun htouch => ?_
  have hcopied := copied_iff.mp h.cursor.1
  rw [Bool.and_eq_true] at hcopied
  rw [roundWrites, if_pos hcopied.1, if_pos hcopied.2] at htouch
  have habove := writes_above htouch
  omega

/-- The loop ends, with the records in the output. -/
theorem DirQuery.Emits.copyEntries (h : q.Emits msg s.cursor ys) (h0 : s.strHashC = 0)
    (hlen : s.length < 2 ^ 31) (hroom : (s.dst : Int) + s.length ≤ len) :
    ∃ s', Settles (fun fuel => q.copyEntries msg fuel s) s' ∧
      q.Placed (endChain s') len s.dst ys ∧
      (ys = [] → s'.last = s.last ∧ ∀ i, s'.buffer i = s.buffer i ∨ s.dst ≤ i ∧ s'.buffer i = 0) ∧
      (ys ≠ [] → ∀ i, i < s.dst → endChain s' i = s.buffer i) := by
  generalize hcursor : s.cursor = c at h
  induction h generalizing s with
  | stop hstop =>
      rw [← hcursor] at hstop
      obtain ⟨s', hs', hends⟩ := copyEntries_ends hstop
      refine ⟨s', ⟨1, fun fuel hfuel => ?_⟩, trivial, fun _ => hends, fun h => absurd rfl h⟩
      obtain ⟨fuel, rfl⟩ : ∃ k, fuel = k + 1 := ⟨fuel - 1, by omega⟩
      exact hs' fuel
  | @copy _ x link ys hc hx _ ih =>
      subst hcursor
      obtain ⟨s₁, hround, hzero, hrun⟩ := copyEntries_round hc h0
      have hneed := room_of_copied hx hc
      obtain ⟨-, hlength, hdst⟩ := after_entry hx hlen hneed
      rw [← hround.cursor.2] at hlength hdst
      obtain ⟨hshows, hlink, hlast⟩ := hround.stores hx
      obtain ⟨hsmall, -, hneeded, hname, hfield, -⟩ := entry_bounds q x
      have hend : q.nameOffset + x.bytes.length ≤ q.roomNeeded x.bytes.length := name_le_room q x
      have hlen₁ : s₁.length = s.length - q.entryLength x.bytes.length := hlength
      have hdst₁ : s₁.dst = s.dst + q.entryLength x.bytes.length := hdst
      have hneed' : (q.roomNeeded x.bytes.length : Int) ≤ s.length := hneed
      obtain ⟨s', hsettles, hplaced, hnil, hcons⟩ := ih hzero (by omega) (by omega) hround.cursor.2
      -- what follows changes the link, if there is no record behind this one
      have hkeep : ∀ i, i < s₁.dst → (ys = [] → i < s.dst ∨ s.dst + 4 ≤ i) →
          endChain s' i = s₁.buffer i := by
        intro i hi hlinked
        by_cases hys : ys = []
        · obtain ⟨hlast', hsame⟩ := hnil hys
          rw [endChain, hlast', hlast]
          have hbuffer : s'.buffer i = s₁.buffer i := (hsame i).resolve_right (by omega)
          exact (Mem.writeLe_of_not_mem _ _ _ _ _ (hlinked hys)).trans hbuffer
        · exact hcons hys i hi
      refine ⟨s', ?_, ⟨?_, by omega, ?_, hdst₁ ▸ hplaced⟩, fun h => absurd h (List.cons_ne_nil _ _),
        fun _ i hi => ?_⟩
      · obtain ⟨n, hn⟩ := hsettles
        refine ⟨n + 1, fun fuel hfuel => ?_⟩
        obtain ⟨fuel, rfl⟩ : ∃ k, fuel = k + 1 := ⟨fuel - 1, by omega⟩
        exact (hrun fuel).trans (hn fuel (by omega))
      · exact hshows.congr fun i hlo hhi => hkeep _ (by omega) (by omega)
      · split
        case isTrue hys =>
            rw [endChain, (hnil hys).1, hlast]
            exact Mem.readLe_writeLe_same _ _ _ _
        case isFalse hys =>
            rw [← hlink]
            exact Mem.readLe_congr fun i hi => hkeep _ (by omega) (fun h => absurd h hys)
      · rw [hkeep i (by omega) (by omega), hround.below_dst hi]

end Loop

-- ============================================================================
-- Walks
-- ============================================================================

section Walks

variable {q : DirQuery} {out : Mem} {len dst : Nat} {x : EntryName} {link : Nat}
  {xs xs' : List EntryName} {ys zs : List (EntryName × Nat)}

/-- What is placed behind a record without link does not count. -/
theorem DirQuery.Placed.cut (h : q.Placed out len dst (ys ++ (x, link) :: zs))
    (hlink : q.linkOf x link = 0) : q.Placed out len dst (ys ++ [(x, link)]) := by
  induction ys generalizing dst with
  | nil =>
      obtain ⟨hshows, hend, hnext, -⟩ := h
      rw [hlink, ite_self] at hnext
      exact ⟨hshows, hend, hnext, trivial⟩
  | cons p rest ih =>
      obtain ⟨hshows, hend, hnext, hrest⟩ := h
      rw [if_neg (by simp)] at hnext
      refine ⟨hshows, hend, ?_, ih hrest⟩
      rwa [if_neg (by simp)]

end Walks

-- ============================================================================
-- How many records are copied
-- ============================================================================

section Count

variable {q : DirQuery} {msg : Mem} {c : DirCursor} {x y : EntryName} {link link' : Nat}
  {ys : List (EntryName × Nat)}

theorem DirQuery.Emits.cases_entry (h : q.Emits msg c ys) (hx : EntryAt msg c.src x link)
    (hlink : link ≤ c.remaining) (hrem : x.size ≤ c.remaining) :
    ¬ (q.roomNeeded x.bytes.length : Int) ≤ c.length ∧ ys = [] ∨
      (q.roomNeeded x.bytes.length : Int) ≤ c.length ∧
        ∃ ys', ys = (x, link) :: ys' ∧ q.Emits msg (c.after q msg) ys' := by
  cases h with
  | stop hstop => exact Or.inl ⟨fun h => hstop ((copied_entry_iff hx hlink hrem).mpr h), rfl⟩
  | copy hc hx' hrest =>
      obtain ⟨rfl, rfl⟩ := hx.unique hx'
      exact Or.inr ⟨room_of_copied hx hc, _, rfl, hrest⟩

/-- A second record is copied if there is room for both. -/
theorem DirQuery.Emits.two_le (h : q.Emits msg c ys) (hlen : c.length < 2 ^ 31)
    (hx : EntryAt msg c.src x link) (hlink : link ≤ c.remaining) (hrem : x.size ≤ c.remaining)
    (hy : EntryAt msg (c.src + link) y link') (hlink' : link' ≤ y.size)
    (hrem' : q.consumed x.bytes.length link + y.size ≤ c.remaining) :
    2 ≤ ys.length ↔
      (q.entryLength x.bytes.length + q.roomNeeded y.bytes.length : Int) ≤ c.length := by
  have hboundsx := entry_bounds q x
  have hboundsy := entry_bounds q y
  rcases h.cases_entry hx hlink hrem with ⟨hno, rfl⟩ | ⟨hroom, ys', rfl, hys'⟩
  · simp only [List.length_nil]
    omega
  · obtain ⟨hsrc, hlength, -⟩ := after_entry hx hlen hroom
    have hleft : (c.after q msg).remaining = c.remaining - q.consumed x.bytes.length link := by
      have hname : c.nameLength msg = x.bytes.length := hx.length
      simp only [DirCursor.after, hname, hx.next]
    rw [← hsrc] at hy
    rcases hys'.cases_entry hy (by omega) (by omega) with ⟨hno, rfl⟩ | ⟨hroom', ys'', rfl, -⟩
    · simp only [List.length_cons, List.length_nil]
      omega
    · simp only [List.length_cons]
      omega

end Count

-- ============================================================================
-- The output
-- ============================================================================

section Output

variable {q : DirQuery} {msg out : Mem} {len : Nat} {length : Int} {rs init : List EntryName}
  {x : EntryName} {ys : List (EntryName × Nat)}

end Output

-- ============================================================================
-- A listing of two files
-- ============================================================================

end FuseNt
