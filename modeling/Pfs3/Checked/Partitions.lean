import Pfs3.Checked.Parse

/-!
# Partitions of a disk image

The partition table of an RDB image (`rdb.rs`) and the size that `FileBlockDevice::new_impl` takes
for a partition from the length of the file, with every operation that could panic spelled out.

The four fields of a partition block that give its place are not checked against each other, nor
against the file.  `Fits` says when they describe a range that can be computed and opened.
-/

namespace Pfs3

open ByteList

namespace Rdb

/-- RDSK block signature. -/
def RDSK_MAGIC : ℕ := 0x5244534B
/-- PART block signature. -/
def PART_MAGIC : ℕ := 0x50415254
/-- Offset of rdb_highblock field in RDSK header. -/
def RDB_HIGHBLOCK_OFF : ℕ := 0x0C
/-- RDB dostype identifiers for PFS3-compatible filesystem handlers. -/
def RDB_PFS3_DOSTYPES : List ℕ :=
  [0x50465301, 0x50465302, 0x50465303, 0x50445301, 0x50445302, 0x50445303]
/-- Offset of the environment vector in a PART block. -/
def envOff : ℕ := 0x80

/-- Info about a detected PFS3 partition in an RDB image. -/
structure PartitionInfo where
  name : Name
  offset : ℕ
  blocks : ℕ
  deriving DecidableEq

/-! ## The code -/

/-- The byte offset and the number of blocks that the fields of a PART block give. -/
def range (surfaces bpt lowCyl highCyl : ℕ) : Except Fault (ℕ × ℕ) := do
  let tracks ← mulU64 lowCyl surfaces
  let sectors ← mulU64 tracks bpt
  let offset ← mulU64 sectors 512
  let above ← subU32 highCyl lowCyl
  let cylinders ← addU32 above 1
  let tracks ← mulU64 cylinders surfaces
  let blocks ← mulU64 tracks bpt
  pure (offset, blocks)

/-- One block of the scan: nothing unless it is a PART block of a PFS3 handler. -/
def partition (buf : Bytes) : Except Fault (Option PartitionInfo) := do
  let sig ← readU32 buf 0
  if sig ≠ PART_MAGIC then pure none
  else do
    let nlen ← readU8 buf 0x24
    let field ← slice buf 0x25 (0x25 + min nlen 30)
    let surfaces ← readU32 buf (envOff + 0x0C)
    let bpt ← readU32 buf (envOff + 0x14)
    let lowCyl ← readU32 buf (envOff + 0x24)
    let highCyl ← readU32 buf (envOff + 0x28)
    let dostype ← readU32 buf (envOff + 0x40)
    if dostype ∈ RDB_PFS3_DOSTYPES ∨ dostype ∈ PFS_TYPES then do
      let (offset, blocks) ← range surfaces bpt lowCyl highCyl
      pure (some { name := latin1ToString field, offset := offset, blocks := blocks })
    else pure none

/-- The next `n` blocks from `blk` on, up to one that the file does not hold whole. -/
def scan (file : Bytes) : ℕ → ℕ → Except Fault (List PartitionInfo)
  | _, 0 => pure []
  | blk, n + 1 => do
      let pos ← mulU64 blk 512
      let buf := (file.drop pos).take 512
      if buf.length < 512 then pure []
      else do
        let found ← partition buf
        let rest ← scan file (blk + 1) n
        pure (found.toList ++ rest)

/-- Detect all PFS3 partitions in an RDB disk image. -/
def detectPfs3Partitions (file : Bytes) : Except Fault (List PartitionInfo) := do
  let buf := file.take 512
  if buf.length < 512 then throw (.err .io)
  else do
    let sig ← readU32 buf 0
    if sig ≠ RDSK_MAGIC then pure []
    else do
      let rdbHighblock ← readU32 buf RDB_HIGHBLOCK_OFF
      let scanLimit ← addU64 (min rdbHighblock 1023) 1
      scan file 1 (scanLimit - 1)

/-- The number of blocks of the device that `new_impl` makes of a file of `fileLen` bytes. -/
def deviceBlocks (fileLen blockBytes partitionOffset totalBlocks : ℕ) : Except Fault ℕ :=
  if totalBlocks = 0 then do
    let len ← subU32 fileLen partitionOffset
    divide len blockBytes
  else pure totalBlocks

/-! ## What a partition table says -/

/-- Block `blk` of the file, as much as the file holds of it. -/
def blockOf (file : Bytes) (blk : ℕ) : Bytes := (file.drop (blk * 512)).take 512

/-- The block describes a partition of a PFS3 handler. -/
def isPart (buf : Bytes) : Bool :=
  be32 buf 0 = PART_MAGIC ∧
    (be32 buf (envOff + 0x40) ∈ RDB_PFS3_DOSTYPES ∨ be32 buf (envOff + 0x40) ∈ PFS_TYPES)

def surfaces (buf : Bytes) : ℕ := be32 buf (envOff + 0x0C)
def bpt (buf : Bytes) : ℕ := be32 buf (envOff + 0x14)
def lowCyl (buf : Bytes) : ℕ := be32 buf (envOff + 0x24)
def highCyl (buf : Bytes) : ℕ := be32 buf (envOff + 0x28)

/-- The whole blocks among the `n` from `blk` on. -/
def wholeBlocks (file : Bytes) (blk n : ℕ) : List Bytes :=
  ((List.range' blk n).map (blockOf file)).takeWhile fun buf => 512 ≤ buf.length

/-- The blocks of the file that describe a partition of a PFS3 handler. -/
def entries (file : Bytes) : List Bytes :=
  let header := blockOf file 0
  if header.length < 512 ∨ be32 header 0 ≠ RDSK_MAGIC then []
  else (wholeBlocks file 1 (min (be32 header RDB_HIGHBLOCK_OFF) 1023)).filter isPart

/-- The range of a block can be computed, is not empty and starts inside a file of `len` bytes. -/
structure Fits (len : ℕ) (buf : Bytes) : Prop where
  ordered : lowCyl buf ≤ highCyl buf
  counted : highCyl buf - lowCyl buf + 1 < U32
  surfaces : 1 ≤ surfaces buf
  bpt : 1 ≤ bpt buf
  ends : 512 * (highCyl buf + 1) * Rdb.surfaces buf * Rdb.bpt buf < U64
  starts : 512 * lowCyl buf * Rdb.surfaces buf * Rdb.bpt buf ≤ len

/-- The partition has the range that the block gives in the integers, it is not empty and ends
below `2^64`, and opening it in a file of `len` bytes does not panic. -/
structure Describes (len : ℕ) (buf : Bytes) (p : PartitionInfo) : Prop where
  offset : (p.offset : ℤ) = 512 * lowCyl buf * Rdb.surfaces buf * Rdb.bpt buf
  blocks : (p.blocks : ℤ) = ((highCyl buf : ℤ) - lowCyl buf + 1) * Rdb.surfaces buf * Rdb.bpt buf
  nonempty : 1 ≤ p.blocks
  ends : p.offset + 512 * p.blocks < U64
  opens : deviceBlocks len 512 p.offset 0 ≠ .error .panic

/-- Detection does not panic, and each partition it returns is that of its block. -/
def Safe (file : Bytes) : Prop :=
  detectPfs3Partitions file ≠ .error .panic ∧
    ∀ ps, detectPfs3Partitions file = .ok ps →
      List.Forall₂ (Describes file.length) (entries file) ps

/-! ## Steps that may panic -/

/-- The call does not return an error of the library. -/
def NeverFails {α : Type} (m : Except Fault α) : Prop := ∀ e, m ≠ .error (.err e)

section Steps

variable {α β : Type} {c : Prop} [Decidable c] {a b : ℕ} {k : ℕ → Except Fault α} {r : α}

theorem checked_bind :
    ((if c then Except.ok a else .error .panic) >>= k) = .ok r ↔ c ∧ k a = .ok r := by
  by_cases hc : c
  · rw [if_pos hc]
    exact ⟨fun h => ⟨hc, h⟩, fun h => h.2⟩
  · rw [if_neg hc]
    constructor
    · intro h
      cases h
    · intro h
      exact absurd h.1 hc

theorem mulU64_bind : (mulU64 a b >>= k) = .ok r ↔ a * b < U64 ∧ k (a * b) = .ok r :=
  checked_bind

theorem addU32_bind : (addU32 a b >>= k) = .ok r ↔ a + b < U32 ∧ k (a + b) = .ok r :=
  checked_bind

theorem subU32_bind : (subU32 a b >>= k) = .ok r ↔ b ≤ a ∧ k (a - b) = .ok r := checked_bind

theorem neverFails_ok (x : α) : NeverFails (.ok x) := fun _ h => by cases h

theorem neverFails_checked (x : α) : NeverFails (if c then .ok x else .error .panic) := by
  intro e h
  split at h
  · cases h
  · cases h

theorem NeverFails.bind {m : Except Fault β} {f : β → Except Fault α} (hm : NeverFails m)
    (hf : ∀ x, NeverFails (f x)) : NeverFails (m >>= f) := by
  cases m with
  | ok x => exact hf x
  | error g =>
      intro e h
      apply hm e
      cases h
      rfl

end Steps

/-! ## The range of one block -/

/-- The seven steps of the computation, and what they give. -/
theorem range_ok {s b low high o n : ℕ} :
    range s b low high = .ok (o, n) ↔
      (low * s < U64 ∧ low * s * b < U64 ∧ low * s * b * 512 < U64 ∧ low ≤ high ∧
        high - low + 1 < U32 ∧ (high - low + 1) * s < U64 ∧ (high - low + 1) * s * b < U64) ∧
      o = low * s * b * 512 ∧ n = (high - low + 1) * s * b := by
  unfold range
  rw [mulU64_bind, mulU64_bind, mulU64_bind, subU32_bind, addU32_bind, mulU64_bind, mulU64_bind]
  have hpair : (pure (low * s * b * 512, (high - low + 1) * s * b) : Except Fault (ℕ × ℕ)) =
      .ok (o, n) ↔ o = low * s * b * 512 ∧ n = (high - low + 1) * s * b :=
    ⟨fun h => by cases h; exact ⟨rfl, rfl⟩, fun h => by rw [h.1, h.2]; rfl⟩
  rw [hpair]
  tauto

theorem range_neverFails (s b low high : ℕ) : NeverFails (range s b low high) :=
  (neverFails_checked _).bind fun _ => (neverFails_checked _).bind fun _ =>
    (neverFails_checked _).bind fun _ => (neverFails_checked _).bind fun _ =>
      (neverFails_checked _).bind fun _ => (neverFails_checked _).bind fun _ =>
        (neverFails_checked _).bind fun _ => neverFails_ok _

/-- Opening takes the offset from the length of the file. -/
theorem deviceBlocks_opens {len offset : ℕ} :
    deviceBlocks len 512 offset 0 ≠ .error .panic ↔ offset ≤ len := by
  unfold deviceBlocks subU32
  rw [if_pos rfl]
  by_cases h : offset ≤ len
  · rw [if_pos h, ok_bind, divide_ok (by decide)]
    exact ⟨fun _ => h, fun _ hcon => by cases hcon⟩
  · rw [if_neg h]
    exact ⟨fun hcon => absurd rfl hcon, fun hle => absurd hle h⟩

/-- Where a range ends. -/
theorem range_end {s b low high : ℕ} (h : low ≤ high) :
    low * s * b * 512 + 512 * ((high - low + 1) * s * b) = 512 * (high + 1) * s * b := by
  obtain ⟨d, rfl⟩ := Nat.exists_eq_add_of_le h
  rw [Nat.add_sub_cancel_left]
  ring

/-- A range can be computed, is not empty and can be opened exactly if the fields fit. -/
theorem fits_iff {len : ℕ} {buf : Bytes} {name : Name} :
    Fits len buf ↔ ∃ r, range (surfaces buf) (bpt buf) (lowCyl buf) (highCyl buf) = .ok r ∧
      Describes len buf { name := name, offset := r.1, blocks := r.2 } := by
  constructor
  · rintro ⟨hle, hcount, hs, hb, hends, hstarts⟩
    -- Each product of the computation is at most the end of the range.
    have hbelow : ∀ x ≤ 512 * (highCyl buf + 1),
        x * surfaces buf < U64 ∧ x * surfaces buf * bpt buf < U64 := by
      intro x hx
      have hsb : x * surfaces buf * bpt buf ≤
          512 * (highCyl buf + 1) * surfaces buf * bpt buf := by gcongr
      have hs' : x * surfaces buf ≤ x * surfaces buf * bpt buf := Nat.le_mul_of_pos_right _ hb
      exact ⟨lt_of_le_of_lt (hs'.trans hsb) hends, lt_of_le_of_lt hsb hends⟩
    have hend := range_end (s := surfaces buf) (b := bpt buf) hle
    refine ⟨_, range_ok.2 ⟨⟨(hbelow _ (by omega)).1, (hbelow _ (by omega)).2, by omega, hle, hcount,
      (hbelow _ (by omega)).1, (hbelow _ (by omega)).2⟩, rfl, rfl⟩, ?_⟩
    refine ⟨?_, ?_, Nat.mul_pos (Nat.mul_pos (by omega) hs) hb,
      lt_of_eq_of_lt hend hends, deviceBlocks_opens.2 ?_⟩
    · push_cast
      ring
    · push_cast [Nat.cast_sub hle]
      ring
    · calc lowCyl buf * surfaces buf * bpt buf * 512
          = 512 * lowCyl buf * surfaces buf * bpt buf := by ring
        _ ≤ len := hstarts
  · rintro ⟨⟨o, n⟩, hrange, hdesc⟩
    obtain ⟨⟨-, -, -, hle, hcount, -, -⟩, rfl, rfl⟩ := range_ok.1 hrange
    have hne : 0 < (highCyl buf - lowCyl buf + 1) * surfaces buf * bpt buf := hdesc.nonempty
    have hends := hdesc.ends
    have hstarts := deviceBlocks_opens.1 hdesc.opens
    rw [range_end hle] at hends
    refine ⟨hle, hcount, ?_, Nat.pos_of_mul_pos_left hne, hends, ?_⟩
    · exact Nat.pos_of_mul_pos_left (Nat.pos_of_mul_pos_right hne)
    · calc 512 * lowCyl buf * surfaces buf * bpt buf
          = lowCyl buf * surfaces buf * bpt buf * 512 := by ring
        _ ≤ len := hstarts

/-! ## The blocks of the scan -/

/-- The name in a PART block. -/
def nameOf (buf : Bytes) : Name :=
  latin1ToString ((buf.drop 0x25).take (min (buf.getD 0x24 0).toNat 30))

section Block

variable {buf : Bytes}

theorem partition_eq (h : buf.length = 512) :
    partition buf =
      if isPart buf then
        range (surfaces buf) (bpt buf) (lowCyl buf) (highCyl buf) >>= fun r =>
          pure (some { name := nameOf buf, offset := r.1, blocks := r.2 })
      else pure none := by
  have hread : ∀ off, off + 4 ≤ 512 → readU32 buf off = .ok (be32 buf off) :=
    fun off hoff => if_pos (by omega)
  have hlen : readU8 buf 0x24 = .ok (buf.getD 0x24 0).toNat := if_pos (by omega)
  unfold partition
  rw [hread 0 (by decide), ok_bind]
  by_cases hsig : be32 buf 0 = PART_MAGIC
  · have hfield : 0x25 + min (buf.getD 0x24 0).toNat 30 ≤ buf.length := by omega
    rw [if_neg (not_not.2 hsig), hlen, ok_bind, slice_ok (Nat.le_add_right _ _) hfield, ok_bind,
      hread _ (by decide), ok_bind, hread _ (by decide), ok_bind, hread _ (by decide), ok_bind,
      hread _ (by decide), ok_bind, hread _ (by decide), ok_bind]
    by_cases hdos : be32 buf (envOff + 0x40) ∈ RDB_PFS3_DOSTYPES ∨
        be32 buf (envOff + 0x40) ∈ PFS_TYPES
    · have hpart : isPart buf := decide_eq_true ⟨hsig, hdos⟩
      rw [if_pos hdos, if_pos hpart, Nat.add_sub_cancel_left]
      rfl
    · rw [if_neg hdos, if_neg]
      simp [isPart, hdos]
  · rw [if_pos hsig, if_neg]
    simp [isPart, hsig]

theorem partition_neverFails (h : buf.length = 512) : NeverFails (partition buf) := by
  rw [partition_eq h]
  split
  · exact (range_neverFails _ _ _ _).bind fun _ => neverFails_ok _
  · exact neverFails_ok _

theorem partition_some (h : buf.length = 512) (hpart : isPart buf) {found : Option PartitionInfo}
    (hfound : partition buf = .ok found) : ∃ p, found = some p := by
  rw [partition_eq h, if_pos hpart] at hfound
  obtain ⟨r, -, hr⟩ := of_bind_ok hfound
  cases hr
  exact ⟨_, rfl⟩

/-- A block whose fields fit gives a partition that can be opened, and only such a block does. -/
theorem partition_fits (h : buf.length = 512) (hpart : isPart buf) {len : ℕ} :
    Fits len buf ↔ ∃ p, partition buf = .ok (some p) ∧ Describes len buf p := by
  rw [partition_eq h, if_pos hpart, @fits_iff len buf (nameOf buf)]
  constructor
  · rintro ⟨r, hr, hdesc⟩
    rw [hr, ok_bind]
    exact ⟨_, rfl, hdesc⟩
  · rintro ⟨p, hp, hdesc⟩
    obtain ⟨r, hr, hp⟩ := of_bind_ok hp
    cases hp
    exact ⟨r, hr, hdesc⟩

end Block

theorem length_blockOf (file : Bytes) (blk : ℕ) :
    (blockOf file blk).length = min 512 (file.length - blk * 512) := by
  simp [blockOf]

theorem length_of_mem_wholeBlocks {file buf : Bytes} {blk n : ℕ}
    (h : buf ∈ wholeBlocks file blk n) : buf.length = 512 := by
  unfold wholeBlocks at h
  have hwhole := List.mem_takeWhile_imp h
  rw [decide_eq_true_eq] at hwhole
  obtain ⟨i, -, rfl⟩ := List.mem_map.1 ((List.takeWhile_sublist _).subset h)
  have := length_blockOf file i
  omega

theorem wholeBlocks_succ (file : Bytes) (blk n : ℕ) :
    wholeBlocks file blk (n + 1) =
      if 512 ≤ (blockOf file blk).length then blockOf file blk :: wholeBlocks file (blk + 1) n
      else [] := by
  unfold wholeBlocks
  rw [List.range'_succ, List.map_cons, List.takeWhile_cons]
  simp

theorem scan_succ {file : Bytes} {blk n : ℕ} (hpos : blk * 512 < U64) :
    scan file blk (n + 1) =
      if 512 ≤ (blockOf file blk).length then
        partition (blockOf file blk) >>= fun found =>
          scan file (blk + 1) n >>= fun rest => pure (found.toList ++ rest)
      else pure [] := by
  rw [scan, mulU64_ok hpos, ok_bind]
  change (if (blockOf file blk).length < 512 then pure [] else _) = _
  by_cases hwhole : 512 ≤ (blockOf file blk).length
  · rw [if_pos hwhole, if_neg (not_lt.2 hwhole)]
    rfl
  · rw [if_neg hwhole, if_pos (not_le.1 hwhole)]

theorem scan_neverFails {file : Bytes} {n : ℕ} :
    ∀ {blk : ℕ}, (blk + n) * 512 < U64 → NeverFails (scan file blk n) := by
  induction n with
  | zero => exact fun _ => neverFails_ok _
  | succ n ih =>
      intro blk hend
      have hpos : blk * 512 < U64 := lt_of_le_of_lt (Nat.mul_le_mul_right 512 (by omega)) hend
      have hrest : (blk + 1 + n) * 512 < U64 :=
        lt_of_eq_of_lt (congrArg (· * 512) (by omega)) hend
      rw [scan_succ hpos]
      split
      · have hlen : (blockOf file blk).length = 512 := by
          have := length_blockOf file blk
          omega
        exact (partition_neverFails hlen).bind fun _ =>
          (ih hrest).bind fun _ => neverFails_ok _
      · exact neverFails_ok _

/-- The scan returns one partition for each block that describes one. -/
theorem scan_ok {file : Bytes} {n : ℕ} : ∀ {blk : ℕ} {ps : List PartitionInfo},
    (blk + n) * 512 < U64 →
      (scan file blk n = .ok ps ↔
        List.Forall₂ (fun buf p => partition buf = .ok (some p))
          ((wholeBlocks file blk n).filter isPart) ps) := by
  induction n with
  | zero =>
      intro blk ps _
      have hnil : (wholeBlocks file blk 0).filter isPart = [] := rfl
      rw [hnil, List.forall₂_nil_left_iff]
      exact ⟨fun h => by cases h; rfl, fun h => by rw [h]; rfl⟩
  | succ n ih =>
      intro blk ps hend
      have hpos : blk * 512 < U64 := lt_of_le_of_lt (Nat.mul_le_mul_right 512 (by omega)) hend
      have hrest : (blk + 1 + n) * 512 < U64 :=
        lt_of_eq_of_lt (congrArg (· * 512) (by omega)) hend
      rw [scan_succ hpos, wholeBlocks_succ]
      by_cases hwhole : 512 ≤ (blockOf file blk).length
      · have hlen : (blockOf file blk).length = 512 := by
          have := length_blockOf file blk
          omega
        rw [if_pos hwhole, if_pos hwhole, bind_eq_ok]
        by_cases hpart : isPart (blockOf file blk)
        · rw [List.filter_cons_of_pos hpart, List.forall₂_cons_left_iff]
          constructor
          · rintro ⟨found, hfound, hps⟩
            obtain ⟨rest, hscan, hps⟩ := of_bind_ok hps
            cases hps
            obtain ⟨p, rfl⟩ := partition_some hlen hpart hfound
            exact ⟨p, rest, hfound, (ih hrest).1 hscan, rfl⟩
          · rintro ⟨p, rest, hfound, htail, rfl⟩
            refine ⟨some p, hfound, ?_⟩
            rw [(ih hrest).2 htail]
            rfl
        · rw [List.filter_cons_of_neg hpart]
          have hnone : partition (blockOf file blk) = .ok none := by
            rw [partition_eq hlen, if_neg hpart]
            rfl
          constructor
          · rintro ⟨found, hfound, hps⟩
            rw [hnone] at hfound
            cases hfound
            obtain ⟨rest, hscan, hps⟩ := of_bind_ok hps
            cases hps
            exact (ih hrest).1 hscan
          · intro htail
            refine ⟨none, hnone, ?_⟩
            rw [(ih hrest).2 htail]
            rfl
      · rw [if_neg hwhole, if_neg hwhole, List.filter_nil, List.forall₂_nil_left_iff]
        exact ⟨fun h => by cases h; rfl, fun h => by rw [h]; rfl⟩

/-! ## Detection -/

section Forall₂

variable {α β : Type} {R S : α → β → Prop}

theorem exists_forall₂ {l : List α} (h : ∀ x ∈ l, ∃ y, R x y) : ∃ ys, List.Forall₂ R l ys := by
  induction l with
  | nil => exact ⟨[], .nil⟩
  | cons x l ih =>
      obtain ⟨y, hy⟩ := h x List.mem_cons_self
      obtain ⟨ys, hys⟩ := ih fun z hz => h z (List.mem_cons_of_mem _ hz)
      exact ⟨y :: ys, .cons hy hys⟩

theorem exists_of_forall₂ {l : List α} {ys : List β} (hR : List.Forall₂ R l ys)
    (hS : List.Forall₂ S l ys) : ∀ x ∈ l, ∃ y, R x y ∧ S x y := by
  induction hR with
  | nil => exact fun x hx => absurd hx List.not_mem_nil
  | cons hy hys ih =>
      cases hS with
      | cons hz hzs =>
          intro x hx
          rcases List.mem_cons.1 hx with rfl | hx
          · exact ⟨_, hy, hz⟩
          · exact ih hzs x hx

end Forall₂

/-- Either the file has no partition table, or its blocks are scanned. -/
theorem detect_cases (file : Bytes) :
    (detectPfs3Partitions file = .error (.err .io) ∨ detectPfs3Partitions file = .ok []) ∧
        entries file = [] ∨
      ∃ n < 1024, detectPfs3Partitions file = scan file 1 n ∧
        entries file = (wholeBlocks file 1 n).filter isPart := by
  have hheader : blockOf file 0 = file.take 512 := by simp [blockOf]
  unfold entries detectPfs3Partitions
  rw [hheader]
  by_cases hlen : (file.take 512).length < 512
  · rw [if_pos hlen, if_pos (Or.inl hlen)]
    exact Or.inl ⟨Or.inl rfl, rfl⟩
  · have hread : ∀ off, off + 4 ≤ 512 →
        readU32 (file.take 512) off = .ok (be32 (file.take 512) off) :=
      fun off hoff => if_pos (by omega)
    rw [if_neg hlen, hread 0 (by decide), ok_bind]
    by_cases hsig : be32 (file.take 512) 0 = RDSK_MAGIC
    · have hlimit : min (be32 (file.take 512) RDB_HIGHBLOCK_OFF) 1023 + 1 < U64 := by
        have hU : U64 = 18446744073709551616 := rfl
        omega
      rw [if_neg (not_not.2 hsig), if_neg (not_or.2 ⟨hlen, not_not.2 hsig⟩),
        hread RDB_HIGHBLOCK_OFF (by decide), ok_bind, addU64_ok hlimit, ok_bind]
      exact Or.inr ⟨_, by omega, rfl, rfl⟩
    · rw [if_pos hsig, if_pos (Or.inr hsig)]
      exact Or.inl ⟨Or.inr rfl, rfl⟩

/-- Detection is safe exactly on the files whose PART blocks, those of a PFS3 handler that the scan
reaches, all have fields that fit: cylinders in order and counted below `2^32`, surfaces and blocks
for each track, an end below `2^64` and a start inside the file. -/
theorem detectPfs3Partitions_safe (file : Bytes) :
    Safe file ↔ ∀ buf ∈ entries file, Fits file.length buf := by
  rcases detect_cases file with ⟨hdet, hnil⟩ | ⟨n, hn, hdet, hent⟩
  · rw [Safe, hnil]
    refine ⟨fun _ buf hbuf => absurd hbuf List.not_mem_nil, fun _ => ?_⟩
    rcases hdet with hdet | hdet
    · rw [hdet]
      exact ⟨by simp, fun ps hps => by cases hps⟩
    · rw [hdet]
      refine ⟨by simp, fun ps hps => ?_⟩
      cases hps
      exact .nil
  · have hU : U64 = 18446744073709551616 := rfl
    have hend : (1 + n) * 512 < U64 := by omega
    have hmem : ∀ buf ∈ entries file, buf.length = 512 ∧ isPart buf := by
      intro buf hbuf
      rw [hent, List.mem_filter] at hbuf
      exact ⟨length_of_mem_wholeBlocks hbuf.1, hbuf.2⟩
    rw [Safe, hdet]
    constructor
    · rintro ⟨hpanic, hdesc⟩ buf hbuf
      obtain ⟨hlen, hpart⟩ := hmem buf hbuf
      cases hscan : scan file 1 n with
      | error f =>
        cases f with
        | err e => exact absurd hscan (scan_neverFails hend e)
        | panic => exact absurd hscan hpanic
      | ok ps =>
        have hall := (scan_ok hend).1 hscan
        rw [← hent] at hall
        exact (partition_fits hlen hpart).2 (exists_of_forall₂ hall (hdesc ps hscan) buf hbuf)
    · intro hfits
      obtain ⟨ps, hps⟩ := exists_forall₂ fun buf hbuf =>
        (partition_fits (hmem buf hbuf).1 (hmem buf hbuf).2).1 (hfits buf hbuf)
      have hscan : scan file 1 n = .ok ps := by
        rw [scan_ok hend, ← hent]
        exact hps.imp fun _ _ h => h.1
      rw [hscan]
      refine ⟨by simp, fun ps' hps' => ?_⟩
      cases hps'
      exact hps.imp fun _ _ h => h.2

/-- An image of two blocks with one partition of the given fields. -/
def imageOf (surfaces bpt lowCyl highCyl : ℕ) : Bytes :=
  let header := splice (List.replicate 512 0) 0 (enc32 RDSK_MAGIC)
  let header := splice header RDB_HIGHBLOCK_OFF (enc32 1)
  let part := splice (List.replicate 512 0) 0 (enc32 PART_MAGIC)
  let part := splice part (envOff + 0x0C) (enc32 surfaces)
  let part := splice part (envOff + 0x14) (enc32 bpt)
  let part := splice part (envOff + 0x24) (enc32 lowCyl)
  let part := splice part (envOff + 0x28) (enc32 highCyl)
  header ++ splice part (envOff + 0x40) (enc32 ID_PFS_DISK)

example : detectPfs3Partitions (imageOf 1 2 0 0) =
    .ok [{ name := [], offset := 0, blocks := 2 }] := by
  decide +kernel

/-- A partition that starts at cylinder 1 and ends at cylinder 0 makes detection panic. -/
theorem detectPfs3Partitions_inverted : ¬ Safe (imageOf 1 1 1 0) := by
  have hpanic : detectPfs3Partitions (imageOf 1 1 1 0) = .error .panic := by decide +kernel
  exact fun hsafe => hsafe.1 hpanic

end Rdb

end Pfs3
