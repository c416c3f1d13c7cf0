import Mathlib.Data.List.Perm.Subperm
import Pfs3.Walk.Depth

/-!
# Range reads and extents

What the two file readers return, as functions of the bytes of the chain's blocks: the full
read is a prefix of them, a range read is a window of them.  How many blocks and bytes a reader
asks for depends on the lengths the extents claim, which no reader compares with the device.
-/

namespace Pfs3

open ByteList BlockCache

/-! ## Windows -/

/-- The bytes of `d` at positions `[offset, stop)`, when the first byte of `d` has position
`pos`. -/
def window (offset stop pos : ℕ) (d : Bytes) : Bytes := (d.take (stop - pos)).drop (offset - pos)

section Window

variable {offset stop pos : ℕ} {d : Bytes}

theorem window_append (offset stop pos : ℕ) (d d' : Bytes) :
    window offset stop pos (d ++ d') =
      window offset stop pos d ++ window offset stop (pos + d.length) d' := by
  unfold window
  rw [List.take_append, List.drop_append, List.length_take, ← Nat.sub_sub, ← Nat.sub_sub]
  by_cases hshort : stop - pos ≤ d.length
  · -- the first part holds the whole window
    have hnone : stop - pos - d.length = 0 := Nat.sub_eq_zero_of_le hshort
    rw [hnone, List.take_zero, List.drop_nil, List.drop_nil]
  · rw [Nat.min_eq_right (by omega)]

theorem window_of_le_offset (h : pos + d.length ≤ offset) : window offset stop pos d = [] := by
  unfold window
  apply List.drop_eq_nil_of_le
  rw [List.length_take]
  omega

theorem window_of_stop_le (h : stop ≤ pos) : window offset stop pos d = [] := by
  unfold window
  rw [Nat.sub_eq_zero_of_le h, List.take_zero, List.drop_nil]

/-- The window of a window that starts no later and stops no earlier. -/
theorem window_zero_take {size : ℕ} (h : stop ≤ size) :
    window offset stop 0 (d.take size) = window offset stop 0 d := by
  simp only [window, Nat.sub_zero, List.take_take]
  rw [min_eq_left h]

end Window

/-! ## The blocks of a chain -/

/-- The bytes of the blocks `blks`, one after the other. -/
def Device.concat (dev : Device) (blks : List ℕ) : Bytes :=
  blks.flatMap fun blk => (dev.sectors blk).val

/-- All blocks lie on the device, so that each of them can be read. -/
def Device.Holds (dev : Device) (blks : List ℕ) : Prop := ∀ blk ∈ blks, blk < dev.total

namespace Device

variable {dev : Device} {blk : ℕ} {blks : List ℕ}

theorem readBlock_of_lt (h : blk < dev.total) :
    dev.readBlock blk = .ok (dev.sectors blk).val := by
  unfold readBlock readBlocks
  rw [if_neg (by simp), if_neg (by omega)]
  simp [bytesAt]

theorem lt_of_readBlock {buf : Bytes} (h : dev.readBlock blk = .ok buf) : blk < dev.total := by
  unfold readBlock readBlocks at h
  split at h
  · cases h
  · split at h
    · cases h
    · omega

theorem length_concat (dev : Device) (blks : List ℕ) :
    (dev.concat blks).length = blks.length * SECTOR_SIZE := by
  induction blks with
  | nil => rfl
  | cons blk rest ih =>
      have hblk := (dev.sectors blk).property
      have hcons : dev.concat (blk :: rest) = (dev.sectors blk).val ++ dev.concat rest := rfl
      rw [hcons, List.length_append, hblk, ih, List.length_cons]
      ring

theorem concat_append (dev : Device) (as bs : List ℕ) :
    dev.concat (as ++ bs) = dev.concat as ++ dev.concat bs := List.flatMap_append

theorem holds_cons (h : dev.Holds (blk :: blks)) : blk < dev.total ∧ dev.Holds blks :=
  ⟨h blk List.mem_cons_self, fun b hb => h b (List.mem_cons_of_mem blk hb)⟩

end Device

namespace Volume

variable {dev : Device}

/-- The full read stops after `remaining` bytes, or at the end of the chain. -/
theorem readBlocksData_of_holds (blks : List ℕ) : ∀ remaining : ℕ, dev.Holds blks →
    readBlocksData dev blks remaining = .ok ((dev.concat blks).take remaining) := by
  induction blks with
  | nil =>
      intro remaining _
      rw [readBlocksData, Device.concat, List.flatMap_nil, List.take_nil]
      rfl
  | cons blk rest ih =>
      intro remaining hholds
      obtain ⟨hblk, hrest⟩ := Device.holds_cons hholds
      have hlen : (dev.sectors blk).val.length = SECTOR_SIZE := (dev.sectors blk).property
      have hcons : dev.concat (blk :: rest) = (dev.sectors blk).val ++ dev.concat rest := rfl
      rw [readBlocksData]
      by_cases hzero : remaining = 0
      · rw [if_pos hzero, hzero, List.take_zero]
        rfl
      · have htake : (dev.sectors blk).val.take (min remaining SECTOR_SIZE) =
            (dev.sectors blk).val.take remaining := by
          rw [List.take_eq_take_iff, hlen]
          omega
        have hleft : remaining - min remaining SECTOR_SIZE = remaining - SECTOR_SIZE := by omega
        rw [if_neg hzero, Device.readBlock_of_lt hblk, hcons, List.take_append, hlen]
        change (readBlocksData dev rest (remaining - min remaining SECTOR_SIZE) >>= _) = _
        rw [hleft, ih (remaining - SECTOR_SIZE) hrest, ← htake]
        rfl

/-- One block of a range read, cut to the window. -/
theorem window_block {offset stop pos : ℕ} {buf : Bytes} (hlen : buf.length = SECTOR_SIZE) :
    (buf.drop (if pos < offset then offset - pos else 0)).take
        ((if stop < pos + SECTOR_SIZE then stop - pos else SECTOR_SIZE) -
          (if pos < offset then offset - pos else 0)) = window offset stop pos buf := by
  have hstart : (if pos < offset then offset - pos else 0) = offset - pos := by
    split <;> omega
  rw [hstart, window, List.drop_take]
  split
  · rfl
  · -- the range goes on behind the block
    rw [List.take_eq_take_iff, List.length_drop]
    omega

/-- The blocks `i`, `i + 1`, .. of one extent, which starts at position `pos`. -/
theorem readExtentRange_of_holds {offset stop pos blocknr : ℕ} (n : ℕ) : ∀ i : ℕ,
    dev.Holds (List.range' (blocknr + i) n) →
    readExtentRange dev offset stop pos blocknr (List.range' i n) =
      .ok (window offset stop (pos + i * SECTOR_SIZE)
        (dev.concat (List.range' (blocknr + i) n))) := by
  induction n with
  | zero =>
      intro i _
      rw [List.range'_zero, List.range'_zero, readExtentRange, Device.concat, List.flatMap_nil,
        window, List.take_nil, List.drop_nil]
      rfl
  | succ n ih =>
      intro i hholds
      rw [List.range'_succ] at hholds
      obtain ⟨hblk, hrest⟩ := Device.holds_cons hholds
      have hlen : (dev.sectors (blocknr + i)).val.length = SECTOR_SIZE :=
        (dev.sectors (blocknr + i)).property
      have hcons : dev.concat ((blocknr + i) :: List.range' (blocknr + i + 1) n) =
          (dev.sectors (blocknr + i)).val ++ dev.concat (List.range' (blocknr + i + 1) n) := rfl
      have hnext : pos + i * SECTOR_SIZE + SECTOR_SIZE = pos + (i + 1) * SECTOR_SIZE := by ring
      have htail := ih (i + 1) hrest
      rw [List.range'_succ, List.range'_succ, readExtentRange, hcons, window_append, hlen, hnext]
      dsimp only
      by_cases hbefore : pos + (i + 1) * SECTOR_SIZE ≤ offset
      · have hnil : window offset stop (pos + i * SECTOR_SIZE) (dev.sectors (blocknr + i)).val = [] :=
          window_of_le_offset (by rw [hlen, hnext]; exact hbefore)
        rw [if_pos hbefore, htail, hnil]
        rfl
      · rw [if_neg hbefore]
        by_cases hafter : stop ≤ pos + i * SECTOR_SIZE
        · rw [if_pos hafter, window_of_stop_le hafter,
            window_of_stop_le (le_trans hafter (by rw [← hnext]; exact Nat.le_add_right _ _))]
          rfl
        · rw [if_neg hafter, Device.readBlock_of_lt hblk, htail, ← hnext]
          change Except.ok _ = Except.ok _
          rw [window_block hlen]
          rfl

/-- The extents of a chain whose first byte has position `pos`. -/
theorem readChainRange_of_holds {offset stop : ℕ} (chain : List Anode) : ∀ pos : ℕ,
    dev.Holds (AnodeReader.chainBlocks chain) →
    readChainRange dev offset stop chain pos =
      .ok (window offset stop pos (dev.concat (AnodeReader.chainBlocks chain))) := by
  induction chain with
  | nil =>
      intro pos _
      rw [readChainRange, AnodeReader.chainBlocks, List.flatMap_nil, Device.concat,
        List.flatMap_nil, window, List.take_nil, List.drop_nil]
      rfl
  | cons an rest ih =>
      intro pos hholds
      have hblocks : AnodeReader.chainBlocks (an :: rest) =
          List.range' an.blocknr an.clustersize ++ AnodeReader.chainBlocks rest := rfl
      rw [hblocks] at hholds
      have hextent : dev.Holds (List.range' an.blocknr an.clustersize) :=
        fun b hb => hholds b (List.mem_append_left _ hb)
      have hrest : dev.Holds (AnodeReader.chainBlocks rest) :=
        fun b hb => hholds b (List.mem_append_right _ hb)
      have hlen : (dev.concat (List.range' an.blocknr an.clustersize)).length =
          an.clustersize * SECTOR_SIZE := by rw [Device.length_concat, List.length_range']
      have htail := ih (pos + an.clustersize * SECTOR_SIZE) hrest
      rw [readChainRange, hblocks, Device.concat_append, window_append, hlen]
      by_cases hbefore : pos + an.clustersize * SECTOR_SIZE ≤ offset
      · have hnil : window offset stop pos
            (dev.concat (List.range' an.blocknr an.clustersize)) = [] :=
          window_of_le_offset (by rw [hlen]; exact hbefore)
        rw [if_pos hbefore, htail, hnil, List.nil_append]
      · rw [if_neg hbefore]
        by_cases hafter : stop ≤ pos
        · rw [if_pos hafter, window_of_stop_le hafter,
            window_of_stop_le (le_trans hafter (Nat.le_add_right _ _))]
          rfl
        · have hpart := @readExtentRange_of_holds dev offset stop pos an.blocknr an.clustersize 0
            (by rw [Nat.add_zero]; exact hextent)
          rw [Nat.add_zero, Nat.zero_mul, Nat.add_zero, ← List.range_eq_range'] at hpart
          rw [if_neg hafter, hpart, htail]
          rfl

/-! ## Range reads are slices of full reads -/

/-- The result of a stateless reader behind the walk of the chain. -/
theorem run_chain {α : Type} {v v' : Volume} {anodenr : ℕ} {chain : List Anode}
    (hchain : getAnodeChain anodenr v = .ok chain v') (f : List Anode → Volume → Except Fault α) {a : α}
    (ha : f chain v' = .ok a) :
    (do
      let chain ← getAnodeChain anodenr
      let v ← get
      liftM (f chain v) : VolumeM α) v = .ok a v' := by
  rw [Stop.bind_of_ok hchain]
  change (liftM (f chain v') : VolumeM α) v' = _
  rw [ha]
  rfl

theorem dev_getAnodeChain {v v' : Volume} {anodenr : ℕ} {chain : List Anode}
    (h : getAnodeChain anodenr v = .ok chain v') : v'.dev = v.dev := by
  change zoom Volume.cache (fun c v => { v with cache := c }) (v.anodes.getChain anodenr v.dev) v
    = _ at h
  unfold zoom at h
  split at h
  · injection h with _ hv
    rw [← hv]
  · cases h

/-- A range read returns the bytes of the full read at positions `[offset, offset + length)`, as
far as they exist below `fileSize`. -/
theorem readFileRange_eq_slice {v v' : Volume} {anodenr : ℕ} {chain : List Anode}
    (hchain : getAnodeChain anodenr v = .ok chain v')
    (hreadable : ∀ blk ∈ AnodeReader.chainBlocks chain, ∃ buf, v.dev.readBlock blk = .ok buf)
    (fileSize offset length : ℕ) :
    ∃ data s, readFileData anodenr fileSize v = .ok data v' ∧
      readFileRange anodenr fileSize offset length v =
        .ok ((data.take (min (offset + length) fileSize)).drop offset) s := by
  have hdev := dev_getAnodeChain hchain
  have hholds : v'.dev.Holds (AnodeReader.chainBlocks chain) := fun blk hblk => by
    obtain ⟨buf, hbuf⟩ := hreadable blk hblk
    rw [hdev]
    exact Device.lt_of_readBlock hbuf
  set bytes := v'.dev.concat (AnodeReader.chainBlocks chain) with hbytes
  have hfull : readFileData anodenr fileSize v = .ok (bytes.take fileSize) v' :=
    run_chain hchain (fun chain v => readBlocksData v.dev (AnodeReader.chainBlocks chain) fileSize)
      (readBlocksData_of_holds _ fileSize hholds)
  have hslice : window offset (min (offset + length) fileSize) 0 bytes =
      ((bytes.take fileSize).take (min (offset + length) fileSize)).drop offset := by
    rw [← @window_zero_take offset (min (offset + length) fileSize) bytes fileSize (min_le_right _ _)]
    rfl
  by_cases hpast : fileSize ≤ offset
  · refine ⟨_, v, hfull, ?_⟩
    have hnone : ((bytes.take fileSize).take (min (offset + length) fileSize)).drop offset = [] := by
      apply List.drop_eq_nil_of_le
      rw [List.length_take]
      omega
    rw [readFileRange, if_pos hpast, hnone]
    rfl
  · refine ⟨_, v', hfull, ?_⟩
    rw [readFileRange, if_neg hpast, ← hslice]
    exact run_chain hchain (fun chain v =>
      readChainRange v.dev offset (min (offset + length) fileSize) chain 0) (readChainRange_of_holds chain 0 hholds)

/-- A file of two extents with an extent of no blocks between them. -/
def splitSlots : Bytes :=
  enc32 2 ++ enc32 10 ++ enc32 6 ++ (enc32 0 ++ enc32 9 ++ enc32 7) ++
    (enc32 1 ++ enc32 14 ++ enc32 0)

theorem run_of_answer {α : Type} {v : Volume} {m : VolumeM α} {a : α} (h : v.answer m = .ok a) :
    ∃ v', m v = .ok a v' := by
  unfold answer at h
  split at h
  · rename_i b v' hrun
    injection h with h
    exact ⟨v', by rw [hrun, h]⟩
  · cases h
  · cases h

theorem chain_splitSlots : ∃ v', getAnodeChain 5 (handLaidVolume splitSlots []) =
    .ok [⟨2, 10, 6, 5⟩, ⟨0, 9, 7, 6⟩, ⟨1, 14, 0, 7⟩] v' :=
  run_of_answer (by decide +kernel)

/-- A range over both extents of that file. -/
theorem readFileRange_eq_slice_split : ∃ data s s',
    readFileData 5 1300 (handLaidVolume splitSlots []) = .ok data s ∧
      readFileRange 5 1300 700 2000 (handLaidVolume splitSlots []) =
        .ok ((data.take (min (700 + 2000) 1300)).drop 700) s' := by
  obtain ⟨v', hchain⟩ := chain_splitSlots
  obtain ⟨data, s, hfull, hrange⟩ := readFileRange_eq_slice hchain (fun blk hblk => by
    have hlt : blk < 20 := by
      have hall : ∀ b ∈ AnodeReader.chainBlocks [⟨2, 10, 6, 5⟩, ⟨0, 9, 7, 6⟩, ⟨1, 14, 0, 7⟩], b < 20 := by
        decide
      exact hall blk hblk
    exact ⟨_, Device.readBlock_of_lt hlt⟩) 1300 700 2000
  exact ⟨data, v', s, hfull, hrange⟩

/-! ## Extents and the device -/

/-- The capacity `read_file_data` requests for its buffer (`actual_size`). -/
def requestedCapacity (anodenr size : ℕ) : VolumeM ℕ := do
  let chain ← getAnodeChain anodenr
  let chainCapacity := (chain.map fun a => a.clustersize * SECTOR_SIZE).sum
  pure (min size chainCapacity)

theorem length_chainBlocks (chain : List Anode) :
    (AnodeReader.chainBlocks chain).length = (chain.map Anode.clustersize).sum := by
  rw [AnodeReader.chainBlocks, List.length_flatMap]
  simp only [List.length_range']

theorem sum_extentBytes (chain : List Anode) :
    (chain.map fun a => a.clustersize * SECTOR_SIZE).sum =
      (chain.map Anode.clustersize).sum * SECTOR_SIZE := by
  induction chain with
  | nil => rfl
  | cons an rest ih =>
      rw [List.map_cons, List.map_cons, List.sum_cons, List.sum_cons, ih, Nat.add_mul]

/-- Work and buffers of the readers of a chain are bounded by the device if and only if the
lengths of its extents are. -/
theorem chain_bounded_iff {v v' : Volume} {anodenr : ℕ} {chain : List Anode}
    (hchain : getAnodeChain anodenr v = .ok chain v') :
    ((∃ blocks s, validateAnodeChain anodenr v = .ok blocks s ∧ blocks.length ≤ v.dev.total) ∧
        ∀ size, ∃ n s, requestedCapacity anodenr size v = .ok n s ∧
          n ≤ v.dev.total * SECTOR_SIZE) ↔
      (chain.map Anode.clustersize).sum ≤ v.dev.total := by
  have hvalidate : validateAnodeChain anodenr v = .ok (AnodeReader.chainBlocks chain) v' :=
    Stop.bind_of_ok hchain
  have hcapacity : ∀ size, requestedCapacity anodenr size v =
      .ok (min size ((chain.map Anode.clustersize).sum * SECTOR_SIZE)) v' := fun size => by
    rw [← sum_extentBytes]
    exact Stop.bind_of_ok hchain
  constructor
  · rintro ⟨⟨blocks, s, hrun, hle⟩, -⟩
    rw [hvalidate] at hrun
    injection hrun with hblocks
    rw [← length_chainBlocks, hblocks]
    exact hle
  · intro hsum
    constructor
    · exact ⟨_, v', hvalidate, by rw [length_chainBlocks]; exact hsum⟩
    · intro size
      exact ⟨_, v', hcapacity size,
        le_trans (min_le_right _ _) (Nat.mul_le_mul_right SECTOR_SIZE hsum)⟩

/-- Extents that lie on the device and do not overlap are short enough. -/
theorem sum_le_total_of_nodup {dev : Device} {chain : List Anode}
    (hholds : dev.Holds (AnodeReader.chainBlocks chain))
    (hnodup : (AnodeReader.chainBlocks chain).Nodup) :
    (chain.map Anode.clustersize).sum ≤ dev.total := by
  have hsub : AnodeReader.chainBlocks chain ⊆ List.range dev.total :=
    fun b hb => List.mem_range.mpr (hholds b hb)
  have hlen := (List.subperm_of_subset hnodup hsub).length_le
  rw [length_chainBlocks, List.length_range] at hlen
  exact hlen

theorem chain_bounded_split :
    (∃ blocks s, validateAnodeChain 5 (handLaidVolume splitSlots []) = .ok blocks s ∧
        blocks.length ≤ 20) ∧
      ∀ size, ∃ n s, requestedCapacity 5 size (handLaidVolume splitSlots []) = .ok n s ∧
        n ≤ 20 * SECTOR_SIZE := by
  obtain ⟨v', hchain⟩ := chain_splitSlots
  exact (chain_bounded_iff hchain).mpr (by decide)

/-- The slots of a file whose one extent claims 2^32 - 1 blocks. -/
def hugeSlots : Bytes := enc32 4294967295 ++ enc32 10 ++ enc32 0

/-- On a device of 20 blocks the readers count 2^32 - 1 blocks, and a file size of 2^41 makes them
request nearly 2 TiB. -/
theorem chain_unbounded : Volume.fromDevice (handLaid hugeSlots []) =
      .ok (handLaidVolume hugeSlots []) ∧
    (∃ blocks s, validateAnodeChain 5 (handLaidVolume hugeSlots []) = .ok blocks s ∧
      (handLaid hugeSlots []).total < blocks.length ∧ blocks.length = 4294967295) ∧
    ∃ n s, requestedCapacity 5 2199023255552 (handLaidVolume hugeSlots []) = .ok n s ∧
      (handLaid hugeSlots []).total * SECTOR_SIZE < n ∧ n = 2199023255040 := by
  obtain ⟨v', hchain⟩ : ∃ v', getAnodeChain 5 (handLaidVolume hugeSlots []) =
      .ok [⟨4294967295, 10, 0, 5⟩] v' := run_of_answer (by decide +kernel)
  have hlen : (AnodeReader.chainBlocks [⟨4294967295, 10, 0, 5⟩]).length = 4294967295 := by
    rw [length_chainBlocks]
    rfl
  refine ⟨fromDevice_handLaid hugeSlots [], ⟨_, v', Stop.bind_of_ok hchain, ?_, hlen⟩, _, v',
    Stop.bind_of_ok hchain, ?_, rfl⟩
  · rw [hlen]
    decide
  · decide

end Volume

end Pfs3
