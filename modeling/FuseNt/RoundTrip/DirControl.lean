/-
  FuseNt.RoundTrip.DirControl

  Directory enumeration, from the module's listing to the application.

  The module library sends as many records as fit in `QueryDirectory.Length`
  in the basic format, and moves the cursor of the handle past them.  The
  driver re-encodes them in the class of the request, which can take more
  room, and stops when there is none: the records it did not place are lost.
  It also does not notice that it has reached the last record (its
  `NextEntryOffset` is zero), and may place it again.

  `DirExact` says for which records and lengths neither happens.
-/

import FuseNt.Module.DirControl
import FuseNt.Lib.Run

namespace FuseNt

open FuseNt.Lib

-- ============================================================================
-- What an entry takes
-- ============================================================================

namespace DirQuery

/-- What the driver subtracts from the room for a name of `f` bytes. -/
def entryLength : DirQuery → Nat → Nat
  | records cls, f => dirInformationLength cls f
  | names, f => namesInformationLength f

/-- The room without which the driver does not place a name of `f` bytes. -/
def roomNeeded : DirQuery → Nat → Nat
  | records cls, f => max (dirNeeded f) (dirInformationLength cls f)
  | names, f => namesNeeded f

/-- What the driver subtracts from the length of the module's listing. -/
def consumed : DirQuery → Nat → Nat → Nat
  | records _, f, _ => sizeofFileDirectoryInformation + f - 2
  | names, _, next => next

/-- The loop for a class. -/
def copyEntries : DirQuery → Mem → Nat → DirCopy → Option DirCopy
  | records cls => copyDirEntries cls
  | names => copyNamesEntries

end DirQuery

theorem dirInformationLength_bounds (cls : DirClass) {f : Nat} (h2 : 2 ≤ f) (hf : f ≤ 2048) :
    69 + f ≤ dirInformationLength cls f ∧ dirInformationLength cls f < 2 ^ 12 := by
  have hs : 72 ≤ cls.sizeof ∧ cls.sizeof ≤ 112 := by cases cls <;> decide
  simp only [dirInformationLength, alignLonglong]
  omega

theorem namesInformationLength_bounds {f : Nat} (h2 : 2 ≤ f) (hf : f ≤ 2048) :
    15 + f ≤ namesInformationLength f ∧ namesInformationLength f ≤ 22 + f := by
  simp only [namesInformationLength, alignLonglong, sizeofFileNamesInformation]
  omega

/-- Entries are small, and an entry with another behind it has room enough if
    that one has. -/
theorem DirQuery.bounds (q : DirQuery) {f g : Nat} (h2 : 2 ≤ f) (hf : f ≤ 2048) :
    0 < q.entryLength f ∧ q.entryLength f < 2 ^ 12 ∧ q.entryLength f ≤ q.roomNeeded f + 8 ∧
      0 < q.roomNeeded f ∧ q.roomNeeded f < 2 ^ 12 ∧
      (2 ≤ g → q.roomNeeded f ≤ q.entryLength f + q.roomNeeded g) := by
  cases q with
  | records cls =>
      have hd := dirInformationLength_bounds cls h2 hf
      simp only [entryLength, roomNeeded, dirNeeded, sizeofFileDirectoryInformation]
      omega
  | names =>
      have hd := namesInformationLength_bounds h2 hf
      simp only [entryLength, roomNeeded, namesNeeded, sizeofFileNamesInformation]
      omega

-- ============================================================================
-- A round of the loop
-- ============================================================================

section Round

variable {msg : Mem} {s : DirCopy} {x : DirName}

/-- The loop goes on: the record at hand is within the listing, and has room. -/
def DirQuery.Goes (q : DirQuery) (msg : Mem) (s : DirCopy) (x : DirName) : Prop :=
  nextEntryOffset msg s.src ≤ s.remaining ∧ 70 + x.bytes.length ≤ s.remaining ∧
    (q.roomNeeded x.bytes.length : Int) ≤ s.length

theorem dirGuard_iff (hx : NameAt msg s.src x) (needed : Nat → Nat)
    (hsmall : needed x.bytes.length < 2 ^ 12) :
    dirGuard msg needed s = true ↔ nextEntryOffset msg s.src ≤ s.remaining ∧
      70 + x.bytes.length ≤ s.remaining ∧ (needed x.bytes.length : Int) ≤ s.length := by
  have h2 := x.two_le
  rw [dirGuard, hx.1, toLong_eq (by omega)]
  simp only [Bool.and_eq_true, decide_eq_true_eq]
  unfold sizeofFileDirectoryInformation
  omega

/-- The names loop never hashes a name: the static character of `str_hash_fn`
    is zero, and stays zero. -/
theorem placeNamesEntry_spec (msg : Mem) (hc : s.strHashC = 0) :
    ∃ s', (∀ fuel, placeNamesEntry fuel msg s = some s') ∧
      s'.length = toLong (s.length - namesInformationLength (fileNameLength msg s.src)) ∧
      s'.remaining = s.remaining - nextEntryOffset msg s.src ∧
      s'.src = s.src + nextEntryOffset msg s.src ∧ s'.strHashC = 0 ∧
      s'.placed = s.placed ++ [(s.dst, s.src)] := by
  simp only [placeNamesEntry, hc, strHashFn_zero, Option.bind_eq_bind, Option.bind_some]
  exact ⟨_, fun _ => rfl, rfl, rfl, rfl, rfl, rfl⟩

/-- A round that places the record. -/
theorem DirQuery.copyEntries_go (q : DirQuery) (hx : NameAt msg s.src x) (hc : s.strHashC = 0)
    (hlen : s.length < 2 ^ 31) (hgo : q.Goes msg s x) :
    ∃ s', (∀ fuel, q.copyEntries msg (fuel + 1) s = q.copyEntries msg fuel s') ∧
      s'.length = s.length - q.entryLength x.bytes.length ∧
      s'.remaining = s.remaining - q.consumed x.bytes.length (nextEntryOffset msg s.src) ∧
      s'.src = s.src + nextEntryOffset msg s.src ∧ s'.strHashC = 0 ∧
      s'.placed = s.placed ++ [(s.dst, s.src)] := by
  obtain ⟨hpos, hsmall, hover, -, hroom, -⟩ :=
    q.bounds (g := 2) x.two_le x.length_le
  obtain ⟨hnext, hname, hfit⟩ := hgo
  cases q with
  | records cls =>
      simp only [roomNeeded, entryLength] at *
      have hguard : dirGuard msg dirNeeded s = true :=
        (dirGuard_iff hx dirNeeded (by omega)).mpr ⟨hnext, hname, by omega⟩
      have hplace : toLong (dirInformationLength cls (fileNameLength msg s.src)) ≤ s.length := by
        rw [hx.1, toLong_eq (by omega)]
        omega
      refine ⟨placeDirEntry cls msg s, fun fuel => ?_, ?_, ?_, rfl, hc, rfl⟩
      · rw [copyEntries, copyDirEntries, if_pos hguard, if_pos hplace]
      · rw [placeDirEntry, hx.1]
        exact toLong_eq (by omega)
      · rw [placeDirEntry, hx.1]
        rfl
  | names =>
      simp only [roomNeeded, entryLength] at *
      have hguard : dirGuard msg namesNeeded s = true :=
        (dirGuard_iff hx namesNeeded (by omega)).mpr ⟨hnext, hname, hfit⟩
      obtain ⟨s', hs', hlength, hrest⟩ := placeNamesEntry_spec msg hc
      refine ⟨s', fun fuel => ?_, ?_, hrest⟩
      · rw [copyEntries, copyNamesEntries, if_pos hguard, hs', Option.bind_some]
      · rw [hlength, hx.1]
        exact toLong_eq (by omega)

/-- A round that ends the loop. -/
theorem DirQuery.copyEntries_stop (q : DirQuery) (hx : NameAt msg s.src x)
    (hstop : ¬ q.Goes msg s x) :
    ∃ s', (∀ fuel, q.copyEntries msg (fuel + 1) s = some s') ∧ s'.placed = s.placed := by
  obtain ⟨hpos, hsmall, hover, -, hroom, -⟩ :=
    q.bounds (g := 2) x.two_le x.length_le
  cases q with
  | records cls =>
      by_cases hguard : dirGuard msg dirNeeded s = true
      · have hplace :
            ¬ toLong (dirInformationLength cls (fileNameLength msg s.src)) ≤ s.length := by
          obtain ⟨hnext, hname, hfit⟩ := (dirGuard_iff hx dirNeeded (by
            simp only [roomNeeded] at hroom; omega)).mp hguard
          rw [hx.1, toLong_eq (by simp only [entryLength] at hsmall; omega)]
          intro hle
          refine hstop ⟨hnext, hname, ?_⟩
          simp only [roomNeeded]
          omega
        refine ⟨{ s with buffer := (s.buffer.writeLe s.dst 4 0).writeLe (s.dst + 60) 4 0 },
          fun fuel => ?_, rfl⟩
        rw [copyEntries, copyDirEntries, if_pos hguard, if_neg hplace]
      · exact ⟨s, fun fuel => by rw [copyEntries, copyDirEntries, if_neg hguard], rfl⟩
  | names =>
      have hguard : ¬ dirGuard msg namesNeeded s = true := by
        rw [dirGuard_iff hx namesNeeded (by simpa only [roomNeeded] using hroom)]
        exact hstop
      exact ⟨s, fun fuel => by rw [copyEntries, copyNamesEntries, if_neg hguard], rfl⟩

end Round

-- ============================================================================
-- The loop
-- ============================================================================

/-- The room that entries for `rs` take. -/
def DirQuery.entries (q : DirQuery) (rs : List DirName) : Nat :=
  (rs.map fun x => q.entryLength x.bytes.length).sum

/-- By how much the listing is longer than what the driver takes it to have
    consumed, when it has passed `rs` and gone on. -/
def DirQuery.slack (q : DirQuery) (rs : List DirName) : Nat :=
  (rs.map fun x => x.size - q.consumed x.bytes.length x.size).sum

/-- The name of a placed record, which is at an offset in the message. -/
def placedName (msg : Mem) (e : Nat × Nat) : List UInt8 :=
  msg.read (e.2 + dirFileNameOffset) (fileNameLength msg e.2)

theorem NameAt.placedName {msg : Mem} {dst src : Nat} {x : DirName} (hx : NameAt msg src x) :
    FuseNt.placedName msg (dst, src) = x.bytes := by
  rw [FuseNt.placedName, hx.1, hx.2]

@[simp] theorem DirQuery.entries_nil (q : DirQuery) : q.entries [] = 0 := rfl

@[simp] theorem DirQuery.entries_cons (q : DirQuery) (x : DirName) (rs : List DirName) :
    q.entries (x :: rs) = q.entryLength x.bytes.length + q.entries rs := by
  simp [entries]

@[simp] theorem DirQuery.slack_nil (q : DirQuery) : q.slack [] = 0 := rfl

@[simp] theorem DirQuery.slack_cons (q : DirQuery) (x : DirName) (rs : List DirName) :
    q.slack (x :: rs) = x.size - q.consumed x.bytes.length x.size + q.slack rs := by
  simp [slack]

/-- A record is not shorter than what the driver takes it to be. -/
theorem DirQuery.consumed_le (q : DirQuery) (x : DirName) {next : Nat} (h : next ≤ x.size) :
    q.consumed x.bytes.length next ≤ x.size := by
  have := x.size_bounds
  cases q with
  | records cls =>
      simp only [consumed, sizeofFileDirectoryInformation]
      omega
  | names => exact h

section Loop

variable {msg : Mem} {s : DirCopy} {x : DirName}

/-- The loop at the last record: it ends, and places the record at all only if
    it goes on. -/
theorem DirQuery.copyEntries_last (q : DirQuery) (hx : NameAt msg s.src x)
    (hend : nextEntryOffset msg s.src = 0) (hc : s.strHashC = 0) (hlen : s.length < 2 ^ 31) :
    ∃ s' more, (∀ fuel, s.length.toNat < fuel → q.copyEntries msg fuel s = some s') ∧
      s'.placed = s.placed ++ more ∧ (more = [] ↔ ¬ q.Goes msg s x) := by
  obtain ⟨hpos, -, -, hneed, -⟩ := q.bounds (g := 2) x.two_le x.length_le
  induction hn : s.length.toNat using Nat.strongRecOn generalizing s with
  | ind n ih =>
      by_cases hgo : q.Goes msg s x
      · obtain ⟨s₁, hrun, hlength, -, hsrc, hc₁, hplaced⟩ := q.copyEntries_go hx hc hlen hgo
        have hroom : (q.roomNeeded x.bytes.length : Int) ≤ s.length := hgo.2.2
        rw [hend, Nat.add_zero] at hsrc
        obtain ⟨s', more, hrun', hplaced', -⟩ := ih s₁.length.toNat (by omega) (hsrc ▸ hx)
          (hsrc ▸ hend) hc₁ (by omega) rfl
        refine ⟨s', (s.dst, s.src) :: more, fun fuel hfuel => ?_, ?_, by simp [hgo]⟩
        · obtain ⟨fuel, rfl⟩ : ∃ k, fuel = k + 1 := ⟨fuel - 1, by omega⟩
          rw [hrun]
          exact hrun' fuel (by omega)
        · rw [hplaced', hplaced, List.append_assoc, List.singleton_append]
      · obtain ⟨s', hrun, hplaced⟩ := q.copyEntries_stop hx hgo
        refine ⟨s', [], fun fuel hfuel => ?_, by rw [hplaced, List.append_nil], by simp [hgo]⟩
        obtain ⟨fuel, rfl⟩ : ∃ k, fuel = k + 1 := ⟨fuel - 1, by omega⟩
        exact hrun fuel

/-- The loop over `init` and a last record `x`: it ends.  It places just these
    if there is room for all of them, and after that, not once more for the
    last. -/
theorem DirQuery.copyEntries_spec (q : DirQuery) (extra : Nat) {init : List DirName}
    (hch : Chained msg s.src (init ++ [x])) (hrem : s.remaining = sizes (init ++ [x]) + extra)
    (hc : s.strHashC = 0) (hlen : s.length < 2 ^ 31) :
    ∃ s' more, (∀ fuel, s.length.toNat < fuel → q.copyEntries msg fuel s = some s') ∧
      s'.placed = s.placed ++ more ∧
      (more.length = init.length + 1 ↔
        ((q.entries init + q.roomNeeded x.bytes.length : Nat) : Int) ≤ s.length ∧
        ¬ (70 + x.bytes.length ≤
            extra + q.slack init + (x.size - q.consumed x.bytes.length 0) ∧
          ((q.entries (init ++ [x]) + q.roomNeeded x.bytes.length : Nat) : Int) ≤ s.length)) ∧
      (more.length = init.length + 1 →
        more.map (placedName msg) = (init ++ [x]).map DirName.bytes) := by
  induction init generalizing s extra with
  | nil =>
      obtain ⟨hend, hx, -⟩ := hch
      rw [if_pos rfl] at hend
      have hsize := x.size_bounds
      have hcons := q.consumed_le x (Nat.zero_le x.size)
      simp only [List.nil_append, sizes_cons, sizes_nil] at hrem
      by_cases hgo : q.Goes msg s x
      · obtain ⟨s₁, hrun, hlength, hrem₁, hsrc, hc₁, hplaced⟩ := q.copyEntries_go hx hc hlen hgo
        obtain ⟨hpos, -, -, hneed, -⟩ := q.bounds (g := 2) x.two_le x.length_le
        have hroom : (q.roomNeeded x.bytes.length : Int) ≤ s.length := hgo.2.2
        rw [hend] at hrem₁
        rw [hend, Nat.add_zero] at hsrc
        obtain ⟨s', more, hrun', hplaced', hmore⟩ := q.copyEntries_last (hsrc ▸ hx) (hsrc ▸ hend)
          hc₁ (by omega)
        have hagain : q.Goes msg s₁ x ↔
            70 + x.bytes.length ≤ extra + 0 + (x.size - q.consumed x.bytes.length 0) ∧
              ((q.entries [x] + q.roomNeeded x.bytes.length : Nat) : Int) ≤ s.length := by
          rw [Goes, hsrc, hend, hrem₁, hlength, DirQuery.entries_cons, DirQuery.entries_nil]
          omega
        refine ⟨s', (s.dst, s.src) :: more, fun fuel hfuel => ?_, ?_, ?_, fun hone => ?_⟩
        · obtain ⟨fuel, rfl⟩ : ∃ k, fuel = k + 1 := ⟨fuel - 1, by omega⟩
          rw [hrun]
          exact hrun' fuel (by omega)
        · rw [hplaced', hplaced, List.append_assoc, List.singleton_append]
        · rw [List.length_cons, List.length_nil, Nat.add_right_cancel_iff, List.length_eq_zero_iff,
            hmore, hagain, DirQuery.slack_nil, List.nil_append, DirQuery.entries_nil, Nat.zero_add]
          exact (and_iff_right hroom).symm
        · obtain rfl : more = [] := by simpa using hone
          simp [hx.placedName]
      · have hno : ¬ (q.roomNeeded x.bytes.length : Int) ≤ s.length := by
          intro hroom
          exact hgo ⟨by omega, by omega, hroom⟩
        obtain ⟨s', hrun, hplaced⟩ := q.copyEntries_stop hx hgo
        refine ⟨s', [], fun fuel hfuel => ?_, by rw [hplaced, List.append_nil], ?_, by simp⟩
        · obtain ⟨fuel, rfl⟩ : ∃ k, fuel = k + 1 := ⟨fuel - 1, by omega⟩
          exact hrun fuel
        · simp [hno]
  | cons y init ih =>
      obtain ⟨hnext, hy, hrest⟩ := hch
      rw [if_neg (by simp)] at hnext
      have hsize := y.size_bounds
      have hcons := q.consumed_le y (Nat.le_refl y.size)
      obtain ⟨hpos, -, -, hneed, -, hbehind⟩ :=
        q.bounds (g := x.bytes.length) y.two_le y.length_le
      have hbehind := hbehind x.two_le
      rw [List.cons_append, sizes_cons] at hrem
      by_cases hgo : q.Goes msg s y
      · obtain ⟨s₁, hrun, hlength, hrem₁, hsrc, hc₁, hplaced⟩ := q.copyEntries_go hy hc hlen hgo
        have hroom : (q.roomNeeded y.bytes.length : Int) ≤ s.length := hgo.2.2
        rw [hnext] at hrem₁ hsrc
        obtain ⟨s', more, hrun', hplaced', hcount, hnames⟩ :=
          ih (extra + (y.size - q.consumed y.bytes.length y.size)) (hsrc ▸ hrest) (by omega) hc₁
            (by omega)
        refine ⟨s', (s.dst, s.src) :: more, fun fuel hfuel => ?_, ?_, ?_, fun hlen' => ?_⟩
        · obtain ⟨fuel, rfl⟩ : ∃ k, fuel = k + 1 := ⟨fuel - 1, by omega⟩
          rw [hrun]
          exact hrun' fuel (by omega)
        · rw [hplaced', hplaced, List.append_assoc, List.singleton_append]
        · rw [List.length_cons, List.length_cons, Nat.add_right_cancel_iff, hcount, hlength]
          simp only [DirQuery.entries_cons, DirQuery.slack_cons, List.cons_append]
          omega
        · have := hnames (by simpa using hlen')
          rw [List.map_cons, this, hy.placedName]
          rfl
      · have hno : ¬ (q.roomNeeded y.bytes.length : Int) ≤ s.length := by
          intro hroom
          exact hgo ⟨by omega, by omega, hroom⟩
        obtain ⟨s', hrun, hplaced⟩ := q.copyEntries_stop hy hgo
        refine ⟨s', [], fun fuel hfuel => ?_, by rw [hplaced, List.append_nil], ?_, by simp⟩
        · obtain ⟨fuel, rfl⟩ : ∃ k, fuel = k + 1 := ⟨fuel - 1, by omega⟩
          exact hrun fuel
        · simp only [List.length_nil, List.length_cons, DirQuery.entries_cons]
          omega

end Loop

/-- The driver places the records `rs` and nothing else: there is room for all
    of them, in the format of the class, and then either no room for the last
    one once more, or not enough slack left for it in the listing. -/
def DirExact (q : DirQuery) (length : Nat) (rs : List DirName) : Prop :=
  ∀ init x, rs = init ++ [x] →
    ((q.entries init + q.roomNeeded x.bytes.length : Nat) : Int) ≤ toLong length ∧
      ¬ (70 + x.bytes.length ≤ q.slack init + (x.size - q.consumed x.bytes.length 0) ∧
        ((q.entries rs + q.roomNeeded x.bytes.length : Nat) : Int) ≤ toLong length)

theorem DirQuery.copyEntries_empty (q : DirQuery) (msg : Mem) (s : DirCopy)
    (h : s.remaining = 0) (fuel : Nat) : q.copyEntries msg (fuel + 1) s = some s := by
  cases q with
  | records cls =>
      rw [copyEntries, copyDirEntries, if_neg]
      simp [dirGuard, h, sizeofFileDirectoryInformation]
  | names =>
      rw [copyEntries, copyNamesEntries, if_neg]
      simp [dirGuard, h, sizeofFileDirectoryInformation]

/-- The driver's start of the loops. -/
def dirCopyStart (irp : Irp) (length : Int) (len : Nat) : DirCopy :=
  { length := length
    remaining := len
    src := sizeofFusentResp
    dst := 0
    buffer := irp.userBuffer.zero 0 (length % (2 ^ 64 : Nat)).toNat
    last := none
    strHashC := 0
    placed := [] }

@[simp] theorem dirCopyStart_length (irp : Irp) (length : Int) (len : Nat) :
    (dirCopyStart irp length len).length = length := rfl

/-- The reply after the loops. -/
def dirReply (irp : Irp) (s : DirCopy) : DirReply :=
  ⟨{ irp with userBuffer := endChain s }, statusSuccess, s.strHashC, s.placed⟩

theorem fuseCopyDirectoryControl_eq {irp : Irp} {sp : IoStackLocation} {q : DirQuery}
    (hsp : irp.currentStackLocation = some sp)
    (hq : DirQuery.ofCode sp.queryDirectoryClass = some q) (fuel : Nat) (m : Mem) (len : Nat) :
    fuseCopyDirectoryControl fuel 0 irp m sizeofFusentResp len =
      (q.copyEntries m fuel (dirCopyStart irp (toLong sp.queryDirectoryLength) len)).map
        (dirReply irp) := by
  unfold fuseCopyDirectoryControl
  conv_lhs =>
    arg 1
    rw [hsp]
  simp only [Option.bind_eq_bind, Option.bind_some, hq, Option.map_eq_bind]
  cases q <;> rfl

theorem toLong_bounds {n : Nat} (h : n < 2 ^ 32) : toLong n < 2 ^ 31 ∧ toLong n ≤ n := by
  unfold toLong
  rw [Int.bmod_def]
  omega

/-- The loop over a listing of `rs`, from the start. -/
theorem DirQuery.copyEntries_start (q : DirQuery) {m : Mem} {rs : List DirName} (irp : Irp)
    {length : Nat} (hlen : length < 2 ^ 32) (hch : Chained m sizeofFusentResp rs) :
    ∃ s', Settles (fun fuel => q.copyEntries m fuel
        (dirCopyStart irp (toLong length) (sizes rs))) s' ∧
      (s'.placed.length = rs.length ↔ DirExact q length rs) ∧
      (s'.placed.length = rs.length →
        s'.placed.map (placedName m) = rs.map DirName.bytes) := by
  obtain ⟨hlt, hle⟩ := toLong_bounds hlen
  rcases List.eq_nil_or_concat rs with rfl | ⟨init, x, rfl⟩
  · refine ⟨dirCopyStart irp (toLong length) (sizes []), ⟨1, fun fuel hfuel => ?_⟩,
      iff_of_true rfl (by simp [DirExact]), fun _ => rfl⟩
    obtain ⟨fuel, rfl⟩ : ∃ k, fuel = k + 1 := ⟨fuel - 1, by omega⟩
    exact q.copyEntries_empty m _ rfl fuel
  · rw [List.concat_eq_append] at *
    obtain ⟨s', more, hrun, hplaced, hcount, hnames⟩ := q.copyEntries_spec 0
      (s := dirCopyStart irp (toLong length) (sizes (init ++ [x]))) hch (Nat.add_zero _).symm
      rfl (Int.lt_of_le_of_lt (Int.le_of_eq (dirCopyStart_length ..)) hlt)
    rw [dirCopyStart_length] at hrun hcount
    have hmore : s'.placed = more := by
      rw [hplaced, dirCopyStart, List.nil_append]
    have hrs : (init ++ [x]).length = init.length + 1 := by simp
    refine ⟨s', ⟨length + 1, fun fuel hfuel => hrun fuel (by omega)⟩, ?_, ?_⟩
    · rw [hmore, hrs, hcount, Nat.zero_add]
      constructor
      · intro h init' y heq
        obtain ⟨rfl, hxy⟩ := List.append_inj' heq rfl
        obtain rfl : x = y := by simpa using hxy
        exact h
      · intro h
        exact h init x rfl
    · rw [hmore, hrs]
      exact hnames

/-- What the driver places of a reply with the records `rs`. -/
theorem fuseCopyDirectoryControl_placed {irp : Irp} {sp : IoStackLocation} {q : DirQuery}
    {msg : Message} {m : Mem} {rs : List DirName} (hsp : irp.currentStackLocation = some sp)
    (hq : DirQuery.ofCode sp.queryDirectoryClass = some q) (hpay : Payload msg rs)
    (hm : ∀ i, i < msg.length → m i = msg.bytes i) :
    ∃ reply, Settles (fun fuel => fuseCopyDirectoryControl fuel 0 irp m sizeofFusentResp
        (m.readLe respParamsOffset 4)) reply ∧
      (reply.placed.length = rs.length ↔ DirExact q sp.queryDirectoryLength rs) ∧
      (reply.placed.length = rs.length → reply.placed.map (placedName m) =
        rs.map DirName.bytes) := by
  have hlen := hpay.length
  have hbuflen : m.readLe respParamsOffset 4 = sizes rs := by
    rw [← hpay.buflen]
    refine Mem.readLe_congr fun i hi => hm _ ?_
    unfold respParamsOffset
    unfold sizeofFusentResp at hlen
    omega
  have hch : Chained m sizeofFusentResp rs :=
    hpay.chained.congr fun i hi => hm _ (by omega)
  obtain ⟨s', ⟨n, hrun⟩, hcount, hnames⟩ :=
    q.copyEntries_start irp (IoStackLocation.ulong_lt sp.arg0) hch
  refine ⟨dirReply irp s', ⟨n, fun fuel hfuel => ?_⟩, hcount, hnames⟩
  simp only [fuseCopyDirectoryControl_eq hsp hq, hbuflen]
  exact congrArg (Option.map (dirReply irp)) (hrun fuel hfuel)

-- ============================================================================
-- Sequences of requests on a handle
-- ============================================================================

/-- A handle on a directory: the module's listing for it, and the names that
    have been placed in the application's buffers since the directory was last
    read. -/
structure Enumeration where
  handle : Option DirListing
  seen : List (List UInt8)

/-- A request and its answer: by how many records the cursor was advanced, and
    the names of the records that were placed. -/
structure Exchange where
  env : DirEnv
  pirp : Pirp
  fop : Pfile
  irp : Irp
  sp : IoStackLocation
  query : DirQuery
  advanced : Nat
  placed : List (List UInt8)

/-- The directory is read again for the request. -/
def Rereads (handle : Option DirListing) (x : Exchange) : Prop :=
  DirAccepted x.env x.sp ∧ (handle = none ∨ (x.sp.flags &&& slRestartScan != 0) = true)

/-- A request for a supported class goes to the module, and the reply to the
    driver. -/
structure Exchanged (e : Enumeration) (x : Exchange) (e' : Enumeration) : Prop where
  stackLocation : x.irp.currentStackLocation = some x.sp
  supported : DirQuery.ofCode x.sp.queryDirectoryClass = some x.query
  answered : ∃ msg m reply,
    Settles (fun fuel => fusentDoDirectoryControl fuel x.env x.sp x.pirp x.fop e.handle)
      (msg, e'.handle, x.advanced) ∧
    (∀ i, i < msg.length → m i = msg.bytes i) ∧
    Settles (fun fuel => fuseCopyDirectoryControl fuel 0 x.irp m sizeofFusentResp
      (m.readLe respParamsOffset 4)) reply ∧
    x.placed = reply.placed.map (placedName m)
  restarts : Rereads e.handle x → e'.seen = x.placed
  continues : ¬ Rereads e.handle x → e'.seen = e.seen ++ x.placed

/-- Of what is left of the listing, the records that fit in the basic format
    are those the driver can place. -/
def ExchangeOk (e : Enumeration) (x : Exchange) : Prop :=
  DirAccepted x.env x.sp → ∀ dl rs, dirlistingFor x.env x.sp e.handle = .ok dl → Left dl rs →
    DirExact x.query x.sp.queryDirectoryLength
      (rs.take (fitting (singleEntry x.sp || dl.singlefile) x.sp.queryDirectoryLength rs))

/-- The names that have been placed, followed by those that are left, are the
    names of the whole listing. -/
def NothingSkipped (e : Enumeration) : Prop :=
  ∀ dl, e.handle = some dl → ∃ whole left, Left { dl with off := 0 } whole ∧ Left dl left ∧
    whole.map DirName.bytes = e.seen ++ left.map DirName.bytes

/-- The handle's listing, if it has one, is as the module compiled it. -/
def Tracked (handle : Option DirListing) : Prop := ∀ dl ∈ handle, ∃ rs, Left dl rs

section Sequence

variable {e e' : Enumeration} {x : Exchange} {sent : List DirName}

theorem DirAnswer.tracked {env : DirEnv} {sp : IoStackLocation} {handle handle' : Option DirListing}
    (ha : DirAnswer env sp handle sent handle') (ht : Tracked handle) : Tracked handle' := by
  cases ha with
  | refused => exact ht
  | failed => simp [Tracked]
  | sent _ _ _ _ _ _ hl' =>
      rintro dl ⟨⟩
      exact ⟨_, hl'⟩

/-- What an exchange does: the module sends records, and the driver places
    just these if they meet the condition. -/
theorem Exchanged.answer (hx : Exchanged e x e') (ht : Tracked e.handle) :
    ∃ sent, DirAnswer x.env x.sp e.handle sent e'.handle ∧ x.advanced = sent.length ∧
      (x.placed.length = x.advanced ↔ DirExact x.query x.sp.queryDirectoryLength sent) ∧
      (x.placed.length = x.advanced → x.placed = sent.map DirName.bytes) := by
  obtain ⟨msg, m, reply, hmodule, hm, hdriver, hplaced⟩ := hx.answered
  obtain ⟨msg', handle', sent, hpay, ha, hmodule'⟩ :=
    fusentDoDirectoryControl_answer x.env x.sp x.pirp x.fop ht
  obtain ⟨rfl, hhandle, hadv⟩ : msg = msg' ∧ e'.handle = handle' ∧ x.advanced = sent.length := by
    simpa using hmodule.unique hmodule'
  obtain ⟨reply', hdriver', hcount, hnames⟩ :=
    fuseCopyDirectoryControl_placed hx.stackLocation hx.supported hpay hm
  obtain rfl : reply = reply' := hdriver.unique hdriver'
  refine ⟨sent, hhandle ▸ ha, hadv, ?_, ?_⟩
  · rw [hplaced, List.length_map, hadv, hcount]
  · rw [hplaced, List.length_map, hadv]
    exact hnames

/-- Every request for a supported class leads to an exchange. -/
theorem exists_exchanged (ht : Tracked e.handle) (env : DirEnv) (pirp : Pirp) (fop : Pfile)
    {irp : Irp} {sp : IoStackLocation} {q : DirQuery} (hsp : irp.currentStackLocation = some sp)
    (hq : DirQuery.ofCode sp.queryDirectoryClass = some q) :
    ∃ n placed e', Exchanged e ⟨env, pirp, fop, irp, sp, q, n, placed⟩ e' := by
  obtain ⟨msg, handle', sent, hpay, -, hmodule⟩ :=
    fusentDoDirectoryControl_answer env sp pirp fop ht
  obtain ⟨reply, hdriver, -⟩ :=
    fuseCopyDirectoryControl_placed (m := msg.bytes) hsp hq hpay fun _ _ => rfl
  classical
  let x : Exchange :=
    ⟨env, pirp, fop, irp, sp, q, sent.length, reply.placed.map (placedName msg.bytes)⟩
  exact ⟨_, _, ⟨handle', if Rereads e.handle x then x.placed else e.seen ++ x.placed⟩, hsp, hq,
    ⟨msg, msg.bytes, reply, hmodule, fun _ _ => rfl, hdriver, rfl⟩, fun h => if_pos h,
    fun h => if_neg h⟩

theorem exchangeOk_iff {handle' : Option DirListing}
    (ha : DirAnswer x.env x.sp e.handle sent handle') :
    ExchangeOk e x ↔ DirExact x.query x.sp.queryDirectoryLength sent := by
  have hempty : DirExact x.query x.sp.queryDirectoryLength [] := by simp [DirExact]
  cases ha with
  | refused hacc => exact iff_of_true (fun h => absurd h hacc) hempty
  | failed hacc hdl =>
      refine iff_of_true (fun _ dl rs hdl' => ?_) hempty
      rw [hdl] at hdl'
      contradiction
  | sent hacc hdl hl hn =>
      subst hn
      constructor
      · intro h
        exact h hacc _ _ hdl hl
      · intro h _ dl rs hdl' hl'
        rw [hdl] at hdl'
        cases hdl'
        rwa [hl'.unique hl]

/-- An exchange that meets the condition keeps the enumeration whole. -/
theorem NothingSkipped.exchange (hw : NothingSkipped e) (hx : Exchanged e x e')
    (hok : ExchangeOk e x) : NothingSkipped e' := by
  have ht : Tracked e.handle := by
    intro dl hdl
    obtain ⟨-, left, -, hl, -⟩ := hw dl hdl
    exact ⟨left, hl⟩
  obtain ⟨sent, ha, hadv, hcount, hnames⟩ := hx.answer ht
  have hplaced := hnames (hcount.mpr ((exchangeOk_iff ha).mp hok))
  have hcont := hx.continues
  have hre := hx.restarts
  obtain ⟨handle', seen'⟩ := e'
  simp only at ha hcont hre
  cases ha with
  | refused hacc =>
      have hseen : seen' = e.seen := by
        rw [hcont fun h => hacc h.1, hplaced, List.map_nil, List.append_nil]
      intro dl hdl
      simp only [hseen]
      exact hw dl hdl
  | failed => intro dl hdl; contradiction
  | @sent dl dl' rs n hacc hdl hl hn hlisting hlen hl' =>
      rintro _ ⟨⟩
      rcases dirlistingFor_cases hdl with ⟨hhandle, hno⟩ | ⟨hread, hfresh⟩
      · -- the scan goes on
        obtain ⟨whole, left, hwhole, hleft, heq⟩ := hw dl hhandle
        obtain rfl := hleft.unique hl
        have hsame : ¬ Rereads e.handle x := by
          rintro ⟨-, h | h⟩
          · rw [hhandle] at h
            contradiction
          · rw [hno] at h
            contradiction
        have hseen := hcont hsame
        refine ⟨whole, left.drop n, hwhole.congr hlisting rfl hlen, hl', ?_⟩
        rw [heq, hseen, hplaced, List.append_assoc, ← List.map_append, List.take_append_drop]
      · -- the directory was read again, and the cursor is at its start
        obtain ⟨-, -, -, -, -, hoff⟩ := fusentDoBufferDirlisting_left hfresh
        refine ⟨rs, rs.drop n, hl.congr hlisting hoff.symm hlen, hl', ?_⟩
        rw [hre ⟨hacc, hread⟩, hplaced, ← List.map_append, List.take_append_drop]

/-- Requests on a handle, one after the other: the driver places as many
    records as the module has passed exactly if every request meets the
    condition, no name is skipped or placed twice then, and every request is
    answered. -/
theorem enumeration_iff {tr : List (Enumeration × Exchange)}
    (hrun : Run Exchanged ⟨none, []⟩ tr e) :
    ((∀ y ∈ tr, y.2.placed.length = y.2.advanced) ↔ ∀ y ∈ tr, ExchangeOk y.1 y.2) ∧
      ((∀ y ∈ tr, ExchangeOk y.1 y.2) → NothingSkipped e) ∧
      ∀ env pirp fop irp sp q, irp.currentStackLocation = some sp →
        DirQuery.ofCode sp.queryDirectoryClass = some q →
        ∃ n placed e', Exchanged e ⟨env, pirp, fop, irp, sp, q, n, placed⟩ e' := by
  have h0 : Tracked (Enumeration.mk none []).handle := by simp [Tracked]
  have hstep : ∀ s l s', Tracked s.handle → Exchanged s l s' → Tracked s'.handle := by
    intro s l s' ht hx
    obtain ⟨sent, ha, -⟩ := hx.answer ht
    exact ha.tracked ht
  have hmem := Run.always_mem (I := fun s => Tracked s.handle) h0 hstep hrun
  refine ⟨?_, fun hok => ?_, fun env pirp fop irp sp q hsp hq =>
    exists_exchanged (Run.always (I := fun s => Tracked s.handle) h0 hstep hrun) env pirp fop
      hsp hq⟩
  · refine forall₂_congr fun y hy => ?_
    obtain ⟨ht, s', hx⟩ := hmem y hy
    obtain ⟨sent, ha, -, hcount, -⟩ := hx.answer ht
    rw [hcount, exchangeOk_iff ha]
  · have hempty : NothingSkipped ⟨none, []⟩ := by
      intro dl hdl
      contradiction
    have hkeep : ∀ s l s', NothingSkipped s → ExchangeOk s l → Exchanged s l s' →
        NothingSkipped s' := fun s l s' hw hok hx => hw.exchange hx hok
    exact Run.invariant hempty hkeep hrun hok

end Sequence

-- ============================================================================
-- Directories with one and two entries
-- ============================================================================

/-- The name "a". -/
def entryA : DirName := ⟨[97, 0], by decide, by decide⟩

/-- The name "b". -/
def entryB : DirName := ⟨[98, 0], by decide, by decide⟩

/-- A directory with the entry "a" only. -/
def singleEntryDir : DirEnv := ⟨true, .ok [some entryA], 0, Mem.zeros, Mem.zeros⟩

/-- A request for `FileDirectoryInformation`. -/
def dirRequest (length : UInt64) : IoStackLocation :=
  { (default : IoStackLocation) with
    majorFunction := irpMjDirectoryControl
    minorFunction := irpMnQueryDirectory
    arg0 := length
    arg2 := 1 }

/-- The listing of the directory. -/
def listingA : DirListing :=
  DirBuffer.toListing
    ⟨storeRecord Mem.zeros 0 0 entryA.bytes, 0 + entryA.size, 8192 - entryA.size, some 0⟩

theorem dirlistingFor_singleEntryDir (length : UInt64) :
    dirlistingFor singleEntryDir (dirRequest length) none = .ok listingA := by
  rw [dirlistingFor, ite_self]
  rfl

theorem compiled_empty : Compiled ⟨Mem.zeros, 0, 8192, none⟩ [] := ⟨trivial, rfl, rfl, by simp⟩

theorem left_listingA : Left listingA [entryA] :=
  (compiled_empty.store 0 entryA (by decide)).left

/-- The directory with the entry "b" as well. -/
def twoEntryDir : DirEnv := { singleEntryDir with dir := .ok [some entryA, some entryB] }

def listingAB : DirListing :=
  DirBuffer.toListing
    ⟨storeRecord (storeRecord Mem.zeros 0 0 entryA.bytes) (0 + entryA.size) 0 entryB.bytes,
      0 + entryA.size + entryB.size, 8192 - entryA.size - entryB.size, some (0 + entryA.size)⟩

theorem dirlistingFor_twoEntryDir (length : UInt64) :
    dirlistingFor twoEntryDir (dirRequest length) none = .ok listingAB := by
  rw [dirlistingFor, ite_self]
  rfl

theorem left_listingAB : Left listingAB [entryA, entryB] :=
  ((compiled_empty.store 0 entryA (by decide)).store 0 entryB (by decide)).left

/-- The answer to a request for which one record fits in the basic format. -/
theorem DirAnswer.one {env : DirEnv} {sp : IoStackLocation} {handle handle' : Option DirListing}
    {sent rs : List DirName} {dl : DirListing} {x : DirName}
    (ha : DirAnswer env sp handle sent handle') (hacc : DirAccepted env sp)
    (hdl : dirlistingFor env sp handle = .ok dl) (hl : Left dl (x :: rs))
    (hfit : ∀ single, fitting single sp.queryDirectoryLength (x :: rs) = 1) :
    sent = [x] ∧ ∃ dl', handle' = some dl' ∧ Left dl' rs := by
  cases ha with
  | refused h => exact absurd hacc h
  | failed _ herr =>
      rw [hdl] at herr
      contradiction
  | sent _ hdl' hl' hn _ _ hrest =>
      rw [hdl] at hdl'
      cases hdl'
      rw [hl'.unique hl, hfit] at hn
      rw [hl'.unique hl] at hrest ⊢
      subst hn
      exact ⟨rfl, _, rfl, hrest⟩

theorem dirExact_singleton {q : DirQuery} {length : Nat} {x : DirName} :
    DirExact q length [x] ↔ (q.roomNeeded x.bytes.length : Int) ≤ toLong length ∧
      ¬ (70 + x.bytes.length ≤ x.size - q.consumed x.bytes.length 0 ∧
        ((q.entryLength x.bytes.length + q.roomNeeded x.bytes.length : Nat) : Int) ≤
          toLong length) := by
  constructor
  · intro h
    simpa using h [] x rfl
  · intro h init y heq
    obtain ⟨rfl, hy⟩ := List.append_inj' (show [] ++ [x] = init ++ [y] from heq) rfl
    obtain rfl : x = y := by simpa using hy
    simpa using h

/-- A request with `Length` 80 for each of the two entries: both are placed. -/
theorem enumeration_two_entries :
    ∃ x y e₁ e₂, Run Exchanged ⟨none, []⟩ [(⟨none, []⟩, x), (e₁, y)] e₂ ∧
      x.placed = [entryA.bytes] ∧ y.placed = [entryB.bytes] ∧ NothingSkipped e₂ := by
  have ht : Tracked (Enumeration.mk none []).handle := by simp [Tracked]
  have hsp : (Irp.zeroed.withStackLocation (dirRequest 80)).currentStackLocation =
      some (dirRequest 80) := rfl
  have hq : DirQuery.ofCode (dirRequest 80).queryDirectoryClass = some (.records .directory) := rfl
  obtain ⟨n, placed, e₁, hx⟩ := exists_exchanged ht twoEntryDir 1 2 hsp hq
  obtain ⟨sent, ha, -, -, hnames⟩ := hx.answer ht
  obtain ⟨rfl, dl, hdl, hl⟩ := ha.one ⟨rfl, rfl⟩ (dirlistingFor_twoEntryDir 80) left_listingAB
    (show ∀ b, fitting b 80 [entryA, entryB] = 1 by decide)
  -- the second request goes on with the handle's listing
  have ht₁ : Tracked e₁.handle := ha.tracked ht
  obtain ⟨n', placed', e₂, hy⟩ := exists_exchanged ht₁ twoEntryDir 1 2 hsp hq
  obtain ⟨sent', ha', -, -, hnames'⟩ := hy.answer ht₁
  have hkept : dirlistingFor twoEntryDir (dirRequest 80) e₁.handle = .ok dl := by
    rw [hdl]
    rfl
  obtain ⟨rfl, -⟩ := ha'.one ⟨rfl, rfl⟩ hkept hl (show ∀ b, fitting b 80 [entryB] = 1 by decide)
  have hexact : DirExact (.records .directory) 80 [entryA] := dirExact_singleton.mpr (by decide)
  have hexact' : DirExact (.records .directory) 80 [entryB] := dirExact_singleton.mpr (by decide)
  have hok := (exchangeOk_iff ha).mpr hexact
  have hok' := (exchangeOk_iff ha').mpr hexact'
  have hrun : Run Exchanged ⟨none, []⟩ [(⟨none, []⟩, _), (e₁, _)] e₂ := (Run.nil.snoc hx).snoc hy
  obtain ⟨hiff, hwhole, -⟩ := enumeration_iff hrun
  simp only [List.forall_mem_cons, List.not_mem_nil, false_implies, implies_true, and_true]
    at hiff hwhole
  obtain ⟨hcount, hcount'⟩ := hiff.mpr ⟨hok, hok'⟩
  exact ⟨_, _, e₁, e₂, hrun, hnames hcount, hnames' hcount', hwhole ⟨hok, hok'⟩⟩

/-- A request with `Length` 72: "a" is sent, and the driver does not place it. -/
theorem enumeration_lost_entry :
    ∃ x e, Run Exchanged ⟨none, []⟩ [(⟨none, []⟩, x)] e ∧ x.advanced = 1 ∧
      x.placed.length ≠ x.advanced := by
  have ht : Tracked (Enumeration.mk none []).handle := by simp [Tracked]
  have hsp : (Irp.zeroed.withStackLocation (dirRequest 72)).currentStackLocation =
      some (dirRequest 72) := rfl
  have hq : DirQuery.ofCode (dirRequest 72).queryDirectoryClass = some (.records .directory) := rfl
  obtain ⟨n, placed, e, hx⟩ := exists_exchanged ht singleEntryDir 1 2 hsp hq
  obtain ⟨sent, ha, hadv, hcount, -⟩ := hx.answer ht
  obtain ⟨rfl, -⟩ := ha.one ⟨rfl, rfl⟩ (dirlistingFor_singleEntryDir 72) left_listingA
    (show ∀ b, fitting b 72 [entryA] = 1 by decide)
  have hexact : ¬ DirExact (.records .directory) 72 [entryA] := by
    rw [dirExact_singleton]
    decide
  exact ⟨_, e, Run.nil.snoc hx, hadv, fun h => hexact (hcount.mp h)⟩

end FuseNt
