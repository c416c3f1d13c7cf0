import Pfs3.Checked.Readers
import Pfs3.Walk.Depth

/-!
# The read path is total

The readers of a volume with every operation that could panic spelled out.  Whatever the device
holds and whatever was read before, a call returns a value or an error, as long as the cache's
counter of reads has not come to its end.
-/

namespace Pfs3

open ByteList BlockCache Stop

namespace Checked

/-! ## Opening -/

/-- Open a PFS3 volume from an already-opened block device. -/
def fromDevice (offset : ℕ) (dev : Device) : Except Fault Volume := do
  let buf ← readBlocks offset dev ROOTBLOCK 1 SECTOR_SIZE
  let rb ← parseRootblock buf
  let rblkBytes ← mulU32 rb.rblkcluster 512
  let rootblock ← (if 512 < rblkBytes then do
      let bigBuf ← readBlocks offset dev ROOTBLOCK rb.rblkcluster rblkBytes
      parseRootblock bigBuf
    else pure rb)
  Volume.validateRbs rootblock
  if rootblock.hasExtension then
    match readReserved offset dev rootblock.extension rootblock.reservedBlksize .new with
    | .error f _ => .error f
    | .ok data cache => do
        let ext ← parseRootblockExt data
        pure ⟨dev, cache, rootblock, some ext, .new rootblock (some ext), .new rootblock⟩
  else pure ⟨dev, .new, rootblock, none, .new rootblock none, .new rootblock⟩

/-- The fields of a rootblock as the disk holds them. -/
structure RootInWords (rb : Rootblock) : Prop where
  firstreserved : rb.firstreserved < U32
  reservedBlksize : rb.reservedBlksize < 2 ^ 16
  rblkcluster : rb.rblkcluster < 2 ^ 16
  disksize : rb.disksize < U32
  extension : rb.extension < U32
  bitmapindex : ∀ b ∈ rb.bitmapindex, b < U32
  indexblocks : ∀ b ∈ rb.indexblocks, b < U32

theorem beWords_lt (l : Bytes) : ∀ v ∈ beWords l, v < U32 := by
  induction l using beWords.induct with
  | case1 a b c e rest ih =>
      intro v hv
      rw [beWords] at hv
      rcases List.mem_cons.mp hv with rfl | hv
      · exact be32_lt (a :: b :: c :: e :: rest) 0
      · exact ih v hv
  | case2 l hl =>
      intro v hv
      rw [beWords] at hv
      · cases hv
      · exact hl

theorem readWords_lt (data : Bytes) (off n : ℕ) : ∀ v ∈ readWords data off n, v < U32 :=
  fun v hv => beWords_lt _ v (List.mem_of_mem_take hv)

theorem rootInWords_parse {data : Bytes} {rb : Rootblock} (h : Rootblock.parse data = .ok rb) :
    RootInWords rb := by
  unfold Rootblock.parse at h
  split at h
  · cases h
  · split at h
    · cases h
    · injection h with h
      subst h
      refine ⟨be32_lt _ _, be16_lt _ _, be16_lt _ _, be32_lt _ _, be32_lt _ _,
        readWords_lt _ _ _, ?_⟩
      dsimp only
      split
      · exact fun b hb => absurd hb List.not_mem_nil
      · exact readWords_lt _ _ _

variable {offset : ℕ} {dev : Device} {v : Volume}

/-- What opening a volume makes sure of, for the checks. -/
structure Sound (v : Volume) : Prop where
  root : RootInWords v.rootblock
  rbs : 64 ≤ v.rootblock.reservedBlksize
  anodes : Sane v.anodes
  bitmap : SaneBitmap v.bitmap
  deldir : ∀ rext, v.rootblockExt = some rext → ∀ b ∈ rext.deldirblocks, b < U32

theorem sane_new {rb : Rootblock} (h : RootInWords rb) (hrbs : 64 ≤ rb.reservedBlksize)
    {rbe : Option RootblockExt} (hext : ∀ rext, rbe = some rext → ∀ b ∈ rext.superindex, b < U32) :
    Sane (.new rb rbe) := by
  have hlt := h.reservedBlksize
  refine ⟨hlt, ?_, ?_, ?_, ?_, h.indexblocks, ?_⟩
  · change rb.reservedBlksize / 4 - 3 ≠ 0
    omega
  · change rb.reservedBlksize / 4 - 3 < 2 ^ 14
    omega
  · change (rb.reservedBlksize - 16) / 12 ≠ 0
    omega
  · change (rb.reservedBlksize - 16) / 12 < 2 ^ 16
    omega
  · cases rbe with
    | none => exact fun b hb => absurd hb List.not_mem_nil
    | some rext => exact hext rext rfl

theorem saneBitmap_new {rb : Rootblock} (h : RootInWords rb) (hrbs : 64 ≤ rb.reservedBlksize) :
    SaneBitmap (.new rb) := by
  have hlt := h.reservedBlksize
  refine ⟨hlt, hrbs, ?_, ?_, h.bitmapindex⟩
  · change rb.reservedBlksize / 4 - 3 ≠ 0
    omega
  · change rb.reservedBlksize / 4 - 3 < 2 ^ 14
    omega

theorem sound_of_fromDevice (h : Volume.fromDevice dev = .ok v) : Sound v := by
  have hrest : ∀ {rootblock : Rootblock}, RootInWords rootblock → (do
      Volume.validateRbs rootblock
      if rootblock.hasExtension then
        match BlockCache.readReserved dev rootblock.extension rootblock.reservedBlksize .new with
        | .error f _ => .error f
        | .ok data cache => do
            let ext ← RootblockExt.parse data
            pure ⟨dev, cache, rootblock, some ext, .new rootblock (some ext), .new rootblock⟩
      else pure ⟨dev, .new, rootblock, none, .new rootblock none, .new rootblock⟩) = Except.ok v →
      Sound v := by
    intro rootblock hroot h
    obtain ⟨⟨⟩, hvalid, h⟩ := of_bind_ok h
    have hrbs : 64 ≤ rootblock.reservedBlksize := by
      unfold Volume.validateRbs at hvalid
      split at hvalid
      · cases hvalid
      · omega
    split at h
    · split at h
      · cases h
      · rename_i data cache hread
        obtain ⟨ext, hext, h⟩ := of_bind_ok h
        cases h
        have hwords : (∀ b ∈ ext.superindex, b < U32) ∧ ∀ b ∈ ext.deldirblocks, b < U32 := by
          unfold RootblockExt.parse at hext
          split at hext
          · cases hext
          · split at hext
            · cases hext
            · injection hext with hext
              subst hext
              exact ⟨readWords_lt _ _ _, readWords_lt _ _ _⟩
        refine ⟨hroot, hrbs, sane_new hroot hrbs ?_, saneBitmap_new hroot hrbs, ?_⟩
        · rintro rext hsome
          injection hsome with hsome
          exact hsome ▸ hwords.1
        · rintro rext hsome
          injection hsome with hsome
          exact hsome ▸ hwords.2
    · cases h
      exact ⟨hroot, hrbs, sane_new hroot hrbs (fun _ hcon => by cases hcon),
        saneBitmap_new hroot hrbs, fun _ hcon => by cases hcon⟩
  unfold Volume.fromDevice at h
  obtain ⟨buf, -, h⟩ := of_bind_ok h
  obtain ⟨rb, hrb, h⟩ := of_bind_ok h
  dsimp only at h
  split at h
  · obtain ⟨bigBuf, -, h⟩ := of_bind_ok h
    obtain ⟨rootblock, hroot, h⟩ := of_bind_ok h
    exact hrest (rootInWords_parse hroot) h
  · exact hrest (rootInWords_parse hrb) h

/-- Get the anode chain for a given anode number. -/
def getAnodeChain (offset anodenr : ℕ) : VolumeM (List Anode) := do
  let v ← get
  Volume.onCache (getChain offset v.anodes anodenr)

/-- Count free blocks by scanning the data bitmap. -/
def bitmapCountFree (offset : ℕ) : VolumeM ℕ := do
  let v ← get
  Volume.onCache (countFree offset v.bitmap v.rootblock.disksize)

/-- The words of the rootblock cluster from `i` on, with `n` rounds left. -/
def countCluster (cluster : Bytes) : (n i free : ℕ) → Except Fault ℕ
  | 0, i, free => if i + 4 ≤ cluster.length then throw .panic else pure free
  | n + 1, i, free => do
      let wordEnd ← addU64 i 4
      if wordEnd ≤ cluster.length then do
        let word ← readU32 cluster i
        let free ← addU32 free (BitmapReader.countOnes (BitVec.ofNat 32 word))
        countCluster cluster n wordEnd free
      else pure free

/-- Count free reserved blocks by scanning the reserved bitmap in the rootblock cluster. -/
def reservedCountFree (offset : ℕ) : VolumeM ℕ := do
  let v ← get
  let clusterSize ← mulU64 v.rootblock.rblkcluster SECTOR_SIZE
  let cluster ←
    readBlocks offset v.dev v.rootblock.firstreserved v.rootblock.rblkcluster clusterSize
  let start ← addU64 SECTOR_SIZE 12
  countCluster cluster cluster.length start 0

/-- List directory entries by anode number. -/
def listDirByAnode (offset dirAnode : ℕ) : VolumeM (List DirEntry) := do
  let v ← get
  Volume.onCache (listEntries offset v.anodes dirAnode)

/-- Resolve a path to a directory anode number. -/
def resolveDirPath (offset : ℕ) (path : Name) : VolumeM ℕ := do
  let v ← get
  Volume.onCache fun dev => resolveDirParts offset v.anodes dev ANODE_ROOTDIR (pathParts path)

/-- List directory entries at the given path. -/
def listDir (offset : ℕ) (path : Name) : VolumeM (List DirEntry) := do
  let dirAnode ← resolveDirPath offset path
  listDirByAnode offset dirAnode

/-- Look up a directory entry by path. Returns `none` for root. -/
def lookupPath (offset : ℕ) (path : Name) : VolumeM (Option DirEntry) := do
  let v ← get
  if (pathParts path).isEmpty then pure none
  else do
    -- the index of the last component
    let _ ← subU32 (pathParts path).length 1
    Volume.onCache fun dev => resolveParts offset v.anodes dev ANODE_ROOTDIR (pathParts path)

/-- The capacity of a chain, on top of `sum`. -/
def chainCapacity : List Anode → (sum : ℕ) → Except Fault ℕ
  | [], sum => pure sum
  | an :: rest, sum => do
      let bytes ← mulU64 an.clustersize SECTOR_SIZE
      let sum ← addU64 sum bytes
      chainCapacity rest sum

/-- The block loop of `read_file_data`: `remaining` bytes still wanted. -/
def readBlocksData (offset : ℕ) (dev : Device) :
    List (ℕ × ℕ) → (remaining : ℕ) → Except Fault Bytes
  | [], _ => pure []
  | (blocknr, i) :: rest, remaining =>
      if remaining = 0 then pure []
      else do
        let blk ← addU64 blocknr i
        let blockBuf ← readBlocks offset dev blk 1 SECTOR_SIZE
        let chunk := min remaining SECTOR_SIZE
        let part ← slice blockBuf 0 chunk
        let left ← subU32 remaining chunk
        let tail ← readBlocksData offset dev rest left
        pure (part ++ tail)

/-- Read file data by anode number and known size. -/
def readFileData (offset anodenr size : ℕ) : VolumeM Bytes := do
  let chain ← getAnodeChain offset anodenr
  let _ ← chainCapacity chain 0
  let v ← get
  readBlocksData offset v.dev (rounds chain) size

/-- Read a file's contents by path. -/
def readFile (offset : ℕ) (path : Name) : VolumeM Bytes := do
  match ← lookupPath offset path with
  | none => fail (.notFound (String.ofList path))
  | some entry =>
      if entry.isDir then fail .notADirectory
      else readFileData offset entry.anode entry.fileSize

/-- The blocks of one extent that overlap `[start, stop)`. -/
def readExtentRange (offset : ℕ) (dev : Device) (start stop blockPos blocknr : ℕ) :
    List ℕ → Except Fault Bytes
  | [] => pure []
  | i :: is => do
      let step ← mulU64 i SECTOR_SIZE
      let blkStart ← addU64 blockPos step
      let blkEnd ← addU64 blkStart SECTOR_SIZE
      if blkEnd ≤ start then readExtentRange offset dev start stop blockPos blocknr is
      else if stop ≤ blkStart then pure []
      else do
        let blk ← addU64 blocknr i
        let blockBuf ← readBlocks offset dev blk 1 SECTOR_SIZE
        let sliceStart ← (if blkStart < start then subU32 start blkStart else pure 0)
        let sliceEnd ← (if stop < blkEnd then subU32 stop blkStart else pure SECTOR_SIZE)
        let part ← slice blockBuf sliceStart sliceEnd
        let tail ← readExtentRange offset dev start stop blockPos blocknr is
        pure (part ++ tail)

/-- The extents that overlap `[start, stop)`. -/
def readChainRange (offset : ℕ) (dev : Device) (start stop : ℕ) :
    List Anode → (blockPos : ℕ) → Except Fault Bytes
  | [], _ => pure []
  | an :: rest, blockPos => do
      let extentBytes ← mulU64 an.clustersize SECTOR_SIZE
      let extentEnd ← addU64 blockPos extentBytes
      if extentEnd ≤ start then readChainRange offset dev start stop rest extentEnd
      else if stop ≤ blockPos then pure []
      else do
        let part ← readExtentRange offset dev start stop blockPos an.blocknr
          (List.range an.clustersize)
        let tail ← readChainRange offset dev start stop rest extentEnd
        pure (part ++ tail)

/-- Read a byte range from a file without loading the entire file. -/
def readFileRange (offset anodenr fileSize start length : ℕ) : VolumeM Bytes := do
  if fileSize ≤ start then pure []
  else do
    let stop ← addU64 start length
    let stop := min stop fileSize
    let chain ← getAnodeChain offset anodenr
    -- the capacity of the result
    let _ ← subU32 stop start
    let v ← get
    readChainRange offset v.dev start stop chain 0

/-- The slots of a deldir block. -/
def deldirSlots (data : Bytes) : List ℕ → Except Fault (List DelDirEntry)
  | [] => pure []
  | i :: is => do
      let step ← mulU64 i DELDIR_ENTRY_SIZE
      let off ← addU64 DELDIR_HEADER_SIZE step
      let slotEnd ← addU64 off DELDIR_ENTRY_SIZE
      if slotEnd ≤ data.length then do
        let raw ← slice data off slotEnd
        match ← parseDelDirEntry raw with
        | some entry => do
            let entries ← deldirSlots data is
            pure (entry :: entries)
        | none => deldirSlots data is
      else deldirSlots data is

/-- The entries of one deldir block: none unless it is one. -/
def deldirBlockEntries (data : Bytes) (entriesPerBlock : ℕ) : Except Fault (List DelDirEntry) := do
  let id ← readU16 data 0
  if id ≠ DELDIRID then pure [] else deldirSlots data (List.range entriesPerBlock)

/-- The entries of the given deldir blocks. -/
def listDeldirBlocks (offset rbs : ℕ) (dev : Device) : List ℕ → CacheM (List DelDirEntry)
  | [] => pure []
  | blk :: blks =>
      if blk = 0 then listDeldirBlocks offset rbs dev blks
      else do
        let data ← readReserved offset dev blk rbs
        let entries ← deldirBlockEntries data (deldirEntriesPerBlock rbs)
        let tail ← listDeldirBlocks offset rbs dev blks
        pure (entries ++ tail)

/-- List deleted files from the deldir (trash). -/
def listDeldir (offset : ℕ) : VolumeM (List DelDirEntry) := do
  let v ← get
  if v.rootblock.hasFlag MODE_DELDIR = false then pure []
  else
    match v.rootblockExt with
    | none => pure []
    | some rext => Volume.onCache fun dev =>
        listDeldirBlocks offset v.rootblock.reservedBlksize dev rext.deldirblocks

/-! ## What the checks leave -/

/-- The words of the rootblock cluster are counted without an overflow. -/
theorem countCluster_eq {cluster : Bytes} (hlen : cluster.length < 2 ^ 26) (n : ℕ) :
    ∀ i free, cluster.length ≤ i + 4 * n + 3 → i ≤ cluster.length + 1000 →
      free + 8 * (cluster.length - i) < U32 →
      countCluster cluster n i free = .ok (free + ((beWords (cluster.drop i)).map
        fun w => BitmapReader.countOnes (BitVec.ofNat 32 w)).sum) := by
  have hU : U64 = 18446744073709551616 := rfl
  have hshort : ∀ {i}, ¬ i + 4 ≤ cluster.length → beWords (cluster.drop i) = [] := fun h =>
    beWords_of_short (by rw [List.length_drop]; omega)
  induction n with
  | zero =>
      intro i free hn _ _
      have hend : ¬ i + 4 ≤ cluster.length := by omega
      rw [countCluster, if_neg hend, hshort hend]
      rfl
  | succ n ih =>
      intro i free hn hi hfree
      rw [countCluster, addU64_ok (by omega), ok_bind]
      by_cases hend : i + 4 ≤ cluster.length
      · have hle := countOnes_le (BitVec.ofNat 32 (be32 cluster i))
        rw [if_pos hend, readU32_ok hend, ok_bind, beWords_drop_of_le hend, List.map_cons,
          List.sum_cons]
        generalize BitmapReader.countOnes (BitVec.ofNat 32 (be32 cluster i)) = ones at hle ⊢
        rw [addU32_ok (by omega), ok_bind, ih (i + 4) (free + ones) (by omega) (by omega)
          (by omega), Nat.add_assoc]
      · rw [if_neg hend, hshort hend]
        rfl

theorem chainCapacity_ok : ∀ (chain : List Anode) (sum : ℕ), (∀ an ∈ chain, InWord an) →
    sum + chain.length * 2199023255552 < U64 → ∃ n, chainCapacity chain sum = .ok n := by
  have hU : U64 = 18446744073709551616 := rfl
  have hU' : U32 = 4294967296 := rfl
  have hs : SECTOR_SIZE = 512 := rfl
  intro chain
  induction chain with
  | nil => exact fun sum _ _ => ⟨sum, rfl⟩
  | cons an rest ih =>
      intro sum hwords hsum
      rw [List.length_cons] at hsum
      have han := (hwords an List.mem_cons_self).1
      have hbytes : an.clustersize * 512 ≤ 2199023255552 := by omega
      rw [chainCapacity, hs, mulU64_ok (by omega), ok_bind]
      generalize an.clustersize * 512 = bytes at hbytes ⊢
      rw [addU64_ok (by omega), ok_bind]
      exact ih _ (fun an' h => hwords an' (List.mem_cons_of_mem _ h)) (by omega)

theorem readBlocksData_eq (ho : IsOffset offset) : ∀ (ps : List (ℕ × ℕ)) (remaining : ℕ),
    (∀ p ∈ ps, p.1 < U32 ∧ p.2 < U32) → readBlocksData offset dev ps remaining =
      Volume.readBlocksData dev (ps.map fun p => p.1 + p.2) remaining := by
  have hU : U64 = 18446744073709551616 := rfl
  have hU' : U32 = 4294967296 := rfl
  intro ps
  induction ps with
  | nil => exact fun _ _ => rfl
  | cons p ps ih =>
      intro remaining h
      obtain ⟨blocknr, i⟩ := p
      obtain ⟨hb, hi⟩ := h _ List.mem_cons_self
      dsimp only at hb hi
      rw [readBlocksData, List.map_cons, Volume.readBlocksData]
      split
      · rfl
      · rw [addU64_ok (by omega), ok_bind, readBlocks_eq ho (by omega) (by decide)]
        unfold Device.readBlock
        cases hread : dev.readBlocks (blocknr + i) 1 SECTOR_SIZE with
        | error f => rfl
        | ok buf =>
            have hlen := Device.length_of_readBlocks hread
            have hchunk : min remaining SECTOR_SIZE ≤ buf.length := hlen ▸ min_le_right _ _
            rw [ok_bind, ok_bind]
            dsimp only
            rw [slice_ok (Nat.zero_le _) hchunk, ok_bind, subU32_ok (min_le_left _ _), ok_bind,
              ih _ fun p hp => h p (List.mem_cons_of_mem _ hp)]
            rfl

theorem readExtentRange_eq (ho : IsOffset offset) {start stop blockPos blocknr : ℕ}
    (hle : start ≤ stop) (hpos : blockPos < 2 ^ 62) (hb : blocknr < U32) : ∀ is : List ℕ,
    (∀ i ∈ is, i < U32) → readExtentRange offset dev start stop blockPos blocknr is =
      Volume.readExtentRange dev start stop blockPos blocknr is := by
  have hU : U64 = 18446744073709551616 := rfl
  have hU' : U32 = 4294967296 := rfl
  have hs : SECTOR_SIZE = 512 := rfl
  intro is
  induction is with
  | nil => exact fun _ => rfl
  | cons i is ih =>
      intro h
      have hi := h i List.mem_cons_self
      have ih := ih fun j hj => h j (List.mem_cons_of_mem _ hj)
      rw [readExtentRange, Volume.readExtentRange, hs, mulU64_ok (by omega), ok_bind,
        addU64_ok (by omega), ok_bind, addU64_ok (by omega), ok_bind, ih]
      dsimp only
      generalize hstart : blockPos + i * 512 = blkStart
      by_cases hbefore : blkStart + 512 ≤ start
      · rw [if_pos hbefore, if_pos hbefore]
      · rw [if_neg hbefore, if_neg hbefore]
        by_cases hbehind : stop ≤ blkStart
        · rw [if_pos hbehind, if_pos hbehind]
        · rw [if_neg hbehind, if_neg hbehind, addU64_ok (by omega), ok_bind,
            readBlocks_eq ho (by omega) (by decide)]
          unfold Device.readBlock
          rw [hs]
          cases hread : dev.readBlocks (blocknr + i) 1 512 with
          | error f => rfl
          | ok buf =>
              have hlen := Device.length_of_readBlocks hread
              have hfirst : (if blkStart < start then subU32 start blkStart else pure 0) =
                  Except.ok (if blkStart < start then start - blkStart else 0) := by
                split
                · exact subU32_ok (by omega)
                · rfl
              have hlast : (if stop < blkStart + 512 then subU32 stop blkStart else pure 512) =
                  Except.ok (if stop < blkStart + 512 then stop - blkStart else 512) := by
                split
                · exact subU32_ok (by omega)
                · rfl
              rw [ok_bind, ok_bind, hfirst, ok_bind, hlast, ok_bind,
                slice_ok (by split <;> split <;> omega) (by rw [hlen]; split <;> omega), ok_bind]

theorem readChainRange_eq (ho : IsOffset offset) {start stop : ℕ} (hle : start ≤ stop) :
    ∀ (chain : List Anode) (blockPos : ℕ), (∀ an ∈ chain, InWord an) →
      blockPos + chain.length * 2199023255552 < 2 ^ 62 →
      readChainRange offset dev start stop chain blockPos =
        Volume.readChainRange dev start stop chain blockPos := by
  have hU : U64 = 18446744073709551616 := rfl
  have hU' : U32 = 4294967296 := rfl
  have hs : SECTOR_SIZE = 512 := rfl
  intro chain
  induction chain with
  | nil => exact fun _ _ _ => rfl
  | cons an rest ih =>
      intro blockPos hwords hpos
      rw [List.length_cons] at hpos
      obtain ⟨hsize, hblocknr, -⟩ := hwords an List.mem_cons_self
      have hbytes : an.clustersize * 512 ≤ 2199023255552 := by omega
      rw [readChainRange, Volume.readChainRange, hs, mulU64_ok (by omega), ok_bind]
      generalize an.clustersize * 512 = bytes at hbytes ⊢
      rw [addU64_ok (by omega), ok_bind,
        ih _ (fun an' h => hwords an' (List.mem_cons_of_mem _ h)) (by omega),
        readExtentRange_eq ho hle (by omega) hblocknr _
          fun i hi => (List.mem_range.mp hi).trans hsize]

theorem deldirSlots_eq {data : Bytes} : ∀ is : List ℕ, (∀ i ∈ is, i < 2 ^ 16) →
    deldirSlots data is = .ok (is.filterMap fun i =>
      if DELDIR_HEADER_SIZE + i * DELDIR_ENTRY_SIZE + DELDIR_ENTRY_SIZE ≤ data.length then
        DelDirEntry.parse ((data.drop (DELDIR_HEADER_SIZE + i * DELDIR_ENTRY_SIZE)).take
          DELDIR_ENTRY_SIZE)
      else none) := by
  have hU : U64 = 18446744073709551616 := rfl
  have hh : DELDIR_HEADER_SIZE = 32 := rfl
  have he : DELDIR_ENTRY_SIZE = 32 := rfl
  intro is
  induction is with
  | nil => exact fun _ => rfl
  | cons i is ih =>
      intro h
      have hi := h i List.mem_cons_self
      have ih := ih fun j hj => h j (List.mem_cons_of_mem _ hj)
      rw [hh, he] at ih ⊢
      rw [deldirSlots, hh, he, mulU64_ok (by omega), ok_bind, addU64_ok (by omega), ok_bind,
        addU64_ok (by omega), ok_bind, List.filterMap_cons, ih]
      by_cases hin : 32 + i * 32 + 32 ≤ data.length
      · rw [if_pos hin, if_pos hin, slice_ok (by omega) hin, ok_bind, Nat.add_sub_cancel_left,
          parseDelDirEntry_eq, ok_bind]
        cases DelDirEntry.parse ((data.drop (32 + i * 32)).take 32) with
        | none => rfl
        | some entry => rfl
      · rw [if_neg hin, if_neg hin]

theorem deldirBlockEntries_eq {data : Bytes} (hlen : 2 ≤ data.length) {n : ℕ} (hn : n < 2 ^ 16) :
    deldirBlockEntries data n = .ok (Volume.deldirBlockEntries data n) := by
  unfold deldirBlockEntries Volume.deldirBlockEntries
  rw [readU16_ok hlen, ok_bind]
  by_cases hid : be16 data 0 ≠ DELDIRID
  · rw [if_pos hid, if_pos hid]
    rfl
  · rw [if_neg hid, if_neg hid]
    exact deldirSlots_eq _ fun i hi => (List.mem_range.mp hi).trans hn

theorem guarded_listDeldirBlocks (ho : IsOffset offset) {rbs : ℕ} (hge : 64 ≤ rbs)
    (hlt : rbs < 2 ^ 16) : ∀ blks : List ℕ, (∀ b ∈ blks, b < U32) →
      Counted dev rbs 0 (fun _ => True) (listDeldirBlocks offset rbs dev blks)
        (Volume.listDeldirBlocks rbs dev blks) := by
  have hU' : U32 = 4294967296 := rfl
  intro blks
  induction blks with
  | nil => exact fun _ => guarded_pure trivial
  | cons blk blks ih =>
      intro h
      have ih := ih fun b hb => h b (List.mem_cons_of_mem _ hb)
      have hblk : blk < 2 ^ 40 := by
        have := h blk List.mem_cons_self
        omega
      rw [listDeldirBlocks, Volume.listDeldirBlocks]
      split
      · exact ih
      · refine (guarded_readReserved ho hblk hlt).weaken.bind fun data hdata => ?_
        have hn : deldirEntriesPerBlock rbs < 2 ^ 16 :=
          lt_of_le_of_lt (Nat.div_le_self _ _) (by omega)
        rw [deldirBlockEntries_eq (by omega) hn, lift_ok_bind]
        exact ih.bind fun _ _ => guarded_pure trivial

/-! ## Agreement on a volume -/

/-- The number of cached reads that a volume has counted. -/
def reads (v : Volume) : ℕ := v.cache.generation

theorem guarded_onCache {α : Type} {f' f : Device → CacheM α} {n : ℕ} {Q : α → Prop}
    (h : Counted v.dev v.rootblock.reservedBlksize n Q (f' v.dev) (f v.dev)) :
    Guarded v.Like reads n Q (Volume.onCache f') (Volume.onCache f) := by
  rintro _ ⟨c, rfl, hc⟩
  rcases h c hc with ⟨heq, hall⟩ | ⟨c', hpanic, hend⟩
  · refine Or.inl ⟨by simp only [Volume.onCache, zoom, heq], fun a v' hrun => ?_⟩
    simp only [Volume.onCache, zoom] at hrun
    cases hf : f v.dev c with
    | error e c' =>
        rw [hf] at hrun
        cases hrun
    | ok b c' =>
        rw [hf] at hrun
        cases hrun
        obtain ⟨hc', ha, hcount, hlt⟩ := hall _ _ hf
        exact ⟨⟨c', rfl, hc'⟩, ha, hcount, hlt⟩
  · exact Or.inr ⟨{ v with cache := c' }, by simp only [Volume.onCache, zoom, hpanic], hend⟩

theorem agrees_onCache {α : Type} {f' f : Device → CacheM α}
    (h : Agrees (fun c => c.Mirrors v.dev v.rootblock.reservedBlksize) BlockCache.generation
      (f' v.dev) (f v.dev)) :
    Agrees v.Like reads (Volume.onCache f') (Volume.onCache f) := by
  rintro _ ⟨c, rfl, hc⟩
  rcases h c hc with heq | ⟨c', hpanic, hend⟩
  · exact Or.inl (by simp only [Volume.onCache, zoom, heq])
  · exact Or.inr ⟨{ v with cache := c' }, by simp only [Volume.onCache, zoom, hpanic], hend⟩

theorem guarded_get {α : Type} {k' k : Volume → VolumeM α} {n : ℕ} {Q : α → Prop}
    (h : Guarded v.Like reads n Q (k' v) (k v)) (hk' : ∀ c, k' { v with cache := c } = k' v)
    (hk : ∀ c, k { v with cache := c } = k v) :
    Guarded v.Like reads n Q (get >>= k') (get >>= k) := by
  rintro _ ⟨c, rfl, hc⟩
  have hrun := h { v with cache := c } ⟨c, rfl, hc⟩
  rw [← hk' c, ← hk c] at hrun
  exact hrun

theorem agrees_get {α : Type} {k' k : Volume → VolumeM α}
    (h : Agrees v.Like reads (k' v) (k v)) (hk' : ∀ c, k' { v with cache := c } = k' v)
    (hk : ∀ c, k { v with cache := c } = k v) :
    Agrees v.Like reads (get >>= k') (get >>= k) := by
  rintro _ ⟨c, rfl, hc⟩
  have hrun := h { v with cache := c } ⟨c, rfl, hc⟩
  rw [← hk' c, ← hk c] at hrun
  exact hrun

theorem guarded_getAnodeChain (ho : IsOffset offset) (hv : v.Opened) (hs : Sound v)
    (anodenr : ℕ) : Guarded v.Like reads 0 IsChain (getAnodeChain offset anodenr)
      (Volume.getAnodeChain anodenr) :=
  guarded_get (guarded_onCache (hv.anodesRbs ▸ guarded_getChain ho hs.anodes anodenr))
    (fun _ => rfl) fun _ => rfl

theorem agrees_bitmapCountFree (ho : IsOffset offset) (hv : v.Opened) (hs : Sound v) :
    Agrees v.Like reads (bitmapCountFree offset) Volume.bitmapCountFree :=
  have hsize := hs.root.disksize
  agrees_get (agrees_onCache (hv.bitmapRbs ▸ (guarded_countFreeLoop ho hs.bitmap _ 0 _ 0 le_rfl
    (by omega) (by omega)).agrees)) (fun _ => rfl) fun _ => rfl

theorem agrees_reservedCountFree (ho : IsOffset offset) (hs : Sound v) :
    Agrees v.Like reads (reservedCountFree offset) Volume.reservedCountFree := by
  have hU : U64 = 18446744073709551616 := rfl
  have hU' : U32 = 4294967296 := rfl
  have hsec : SECTOR_SIZE = 512 := rfl
  have hcluster := hs.root.rblkcluster
  have hfirst := hs.root.firstreserved
  have hbytes : v.rootblock.rblkcluster * SECTOR_SIZE < 2 ^ 26 := by
    rw [hsec]
    omega
  unfold reservedCountFree Volume.reservedCountFree
  refine agrees_get ?_ (fun _ => rfl) fun _ => rfl
  dsimp only
  rw [mulU64_ok (by omega), lift_ok_bind, readBlocks_eq ho (by omega) (by omega)]
  have hread : Guarded v.Like reads 0 (fun cluster : Bytes => cluster.length < 2 ^ 26)
      (liftM (v.dev.readBlocks v.rootblock.firstreserved v.rootblock.rblkcluster
        (v.rootblock.rblkcluster * SECTOR_SIZE)) : VolumeM Bytes)
      (liftM (v.dev.readBlocks v.rootblock.firstreserved v.rootblock.rblkcluster
        (v.rootblock.rblkcluster * SECTOR_SIZE))) := by
    refine guarded_lift fun cluster h => ?_
    have hlen := Device.length_of_readBlocks h
    omega
  refine hread.agrees_bind fun cluster hlen => ?_
  rw [addU64_ok (by omega), lift_ok_bind, countCluster_eq hlen _ _ _ (by omega) (by omega)
    (by omega), Nat.zero_add]
  exact fun _ _ => Or.inl rfl

theorem guarded_resolveDirPath (ho : IsOffset offset) (hv : v.Opened) (hs : Sound v)
    (path : Name) : Guarded v.Like reads 0 (fun _ => True) (resolveDirPath offset path)
      (Volume.resolveDirPath path) :=
  guarded_get (@guarded_onCache v ℕ
    (fun dev => resolveDirParts offset v.anodes dev ANODE_ROOTDIR (pathParts path))
    (fun dev => v.anodes.resolveDirParts dev ANODE_ROOTDIR (pathParts path)) 0 _
    (hv.anodesRbs ▸ guarded_resolveDirParts ho hs.anodes (pathParts path) ANODE_ROOTDIR))
    (fun _ => rfl) fun _ => rfl

theorem agrees_listDir (ho : IsOffset offset) (hv : v.Opened) (hs : Sound v) (path : Name) :
    Agrees v.Like reads (listDir offset path) (Volume.listDir path) :=
  (guarded_resolveDirPath ho hv hs path).agrees_bind fun dirAnode _ =>
    agrees_get (agrees_onCache (hv.anodesRbs ▸ (guarded_listEntries ho hs.anodes dirAnode).agrees))
      (fun _ => rfl) fun _ => rfl

theorem agrees_lookupPath (ho : IsOffset offset) (hv : v.Opened) (hs : Sound v) (path : Name) :
    Agrees v.Like reads (lookupPath offset path) (Volume.lookup path) := by
  refine agrees_get ?_ (fun _ => rfl) fun _ => rfl
  have hresolve := @agrees_onCache v _ (fun dev => resolveParts offset v.anodes dev ANODE_ROOTDIR
    (pathParts path)) (fun dev => v.anodes.resolveParts dev ANODE_ROOTDIR (pathParts path))
    (hv.anodesRbs ▸ agrees_resolveParts ho hs.anodes (pathParts path) ANODE_ROOTDIR)
  by_cases hnil : (pathParts path).isEmpty
  · rw [if_pos hnil, List.isEmpty_iff.mp hnil]
    exact fun _ _ => Or.inl rfl
  · have hlen : 1 ≤ (pathParts path).length := by
      refine List.length_pos_iff.mpr fun h => hnil ?_
      rw [h]
      rfl
    rw [if_neg hnil, subU32_ok hlen, lift_ok_bind]
    exact hresolve

theorem agrees_readFileData (ho : IsOffset offset) (hv : v.Opened) (hs : Sound v)
    (anodenr size : ℕ) :
    Agrees v.Like reads (readFileData offset anodenr size) (Volume.readFileData anodenr size) := by
  refine (guarded_getAnodeChain ho hv hs anodenr).agrees_bind fun chain hchain => ?_
  have hU : U64 = 18446744073709551616 := rfl
  have hmax : MAX_CHAIN_LEN = 1000000 := rfl
  have hlen := hchain.1
  obtain ⟨n, hn⟩ := chainCapacity_ok chain 0 hchain.2 (by omega)
  rw [hn, lift_ok_bind]
  refine agrees_get ?_ (fun _ => rfl) fun _ => rfl
  rw [readBlocksData_eq ho _ _ (mem_rounds hchain), map_rounds]
  exact fun _ _ => Or.inl rfl

theorem agrees_readFile (ho : IsOffset offset) (hv : v.Opened) (hs : Sound v) (path : Name) :
    Agrees v.Like reads (readFile offset path) (Volume.readFile path) := by
  refine (hv.steady_lookup path).agrees_bind (agrees_lookupPath ho hv hs path) fun o => ?_
  cases o with
  | none => exact fun _ _ => Or.inl rfl
  | some entry =>
      dsimp only
      split
      · exact fun _ _ => Or.inl rfl
      · exact agrees_readFileData ho hv hs entry.anode entry.fileSize

theorem agrees_readFileRange (ho : IsOffset offset) (hv : v.Opened) (hs : Sound v)
    {fileSize start length : ℕ} (hsize : fileSize < 2 ^ 48) (hlength : length < U32)
    (anodenr : ℕ) : Agrees v.Like reads (readFileRange offset anodenr fileSize start length)
      (Volume.readFileRange anodenr fileSize start length) := by
  have hU : U64 = 18446744073709551616 := rfl
  have hU' : U32 = 4294967296 := rfl
  have hmax : MAX_CHAIN_LEN = 1000000 := rfl
  unfold readFileRange Volume.readFileRange
  by_cases hend : fileSize ≤ start
  · rw [if_pos hend, if_pos hend]
    exact fun _ _ => Or.inl rfl
  · rw [if_neg hend, if_neg hend, addU64_ok (by omega), lift_ok_bind]
    refine (guarded_getAnodeChain ho hv hs anodenr).agrees_bind fun chain hchain => ?_
    have hlen := hchain.1
    have hle : start ≤ min (start + length) fileSize := by omega
    rw [subU32_ok hle, lift_ok_bind]
    refine agrees_get ?_ (fun _ => rfl) fun _ => rfl
    rw [readChainRange_eq ho hle chain 0 hchain.2 (by omega)]
    exact fun _ _ => Or.inl rfl

theorem agrees_listDeldir (ho : IsOffset offset) (hs : Sound v) :
    Agrees v.Like reads (listDeldir offset) Volume.listDeldir := by
  unfold listDeldir Volume.listDeldir
  refine agrees_get ?_ (fun _ => rfl) fun _ => rfl
  split
  · exact fun _ _ => Or.inl rfl
  · cases hext : v.rootblockExt with
    | none => exact fun _ _ => Or.inl rfl
    | some rext =>
        exact agrees_onCache (guarded_listDeldirBlocks ho hs.rbs hs.root.reservedBlksize _
          (hs.deldir rext hext)).agrees

/-! ## Readers that were not needed before -/

theorem steady_lift {σ α : Type} {I : σ → Prop} {e : Except Fault α} (h : e ≠ .error .panic) :
    Steady I (liftM e : EStateM Fault σ α) := by
  rcases e with (err | _) | a
  · exact ⟨.error err, fun s hs => ⟨s, rfl, hs⟩⟩
  · exact absurd rfl h
  · exact ⟨.ok a, fun s hs => ⟨a, s, rfl, rfl, hs⟩⟩

theorem bind_ne_panic {α β : Type} {e : Except Fault α} {k : α → Except Fault β}
    (h : e ≠ .error .panic) (hk : ∀ a, k a ≠ .error .panic) : (e >>= k) ≠ .error .panic := by
  rcases e with (err | _) | a
  · intro hcon
    cases hcon
  · exact absurd rfl h
  · exact hk a

theorem readBlocks_ne_panic (dev : Device) (block count bufLen : ℕ) :
    dev.readBlocks block count bufLen ≠ .error .panic := by
  unfold Device.readBlocks
  split
  · exact fun h => by cases h
  · split
    · exact fun h => by cases h
    · exact fun h => by cases h

theorem readExtentRange_ne_panic (dev : Device) (start stop blockPos blocknr : ℕ)
    (is : List ℕ) :
    Volume.readExtentRange dev start stop blockPos blocknr is ≠ .error .panic := by
  induction is with
  | nil => exact fun h => by cases h
  | cons i is ih =>
      unfold Volume.readExtentRange
      dsimp only
      split
      · exact ih
      · split
        · exact fun h => by cases h
        · exact bind_ne_panic (readBlocks_ne_panic dev _ _ _) fun _ =>
            bind_ne_panic ih fun _ h => by cases h

theorem readChainRange_ne_panic (dev : Device) (start stop : ℕ) (chain : List Anode) :
    ∀ blockPos, Volume.readChainRange dev start stop chain blockPos ≠ .error .panic := by
  induction chain with
  | nil => exact fun _ h => by cases h
  | cons an rest ih =>
      intro blockPos
      unfold Volume.readChainRange
      dsimp only
      split
      · exact ih _
      · split
        · exact fun h => by cases h
        · exact bind_ne_panic (readExtentRange_ne_panic dev _ _ _ _ _) fun _ =>
            bind_ne_panic (ih _) fun _ h => by cases h

theorem steady_readFileRange (hv : v.Opened) (anodenr fileSize start length : ℕ) :
    Steady v.Like (Volume.readFileRange anodenr fileSize start length) := by
  unfold Volume.readFileRange
  split
  · exact steady_pure []
  · refine (hv.steady_getAnodeChain anodenr).bind fun chain => ?_
    refine Volume.steady_get ?_ fun _ => rfl
    exact steady_lift (readChainRange_ne_panic v.dev _ _ chain 0)

theorem steady_resolveDirParts {r : AnodeReader} (h : r.Valid) (parts : List Name) :
    ∀ dirAnode : ℕ, Steady (fun c => c.Mirrors dev r.reservedBlksize)
      (r.resolveDirParts dev dirAnode parts) := by
  induction parts with
  | nil => exact fun dirAnode => steady_pure dirAnode
  | cons part rest ih =>
      intro dirAnode
      refine (AnodeReader.steady_lookup h dirAnode part).bind fun entry => ?_
      split
      · exact ih entry.anode
      · exact steady_fail _

theorem steady_listDir (hv : v.Opened) (path : Name) : Steady v.Like (Volume.listDir path) := by
  have hresolve : Steady v.Like (Volume.onCache fun dev =>
      v.anodes.resolveDirParts dev ANODE_ROOTDIR (pathParts path)) :=
    @Volume.steady_onCache v ℕ
      (fun dev => v.anodes.resolveDirParts dev ANODE_ROOTDIR (pathParts path))
      (hv.anodesRbs ▸ steady_resolveDirParts hv.anodes (pathParts path) ANODE_ROOTDIR)
  exact (Volume.steady_get hresolve fun _ => rfl).bind fun dirAnode =>
    hv.steady_listDirByAnode dirAnode

theorem steady_readFile (hv : v.Opened) (path : Name) : Steady v.Like (Volume.readFile path) := by
  refine (hv.steady_lookup path).bind fun o => ?_
  cases o with
  | none => exact steady_fail _
  | some entry =>
      dsimp only
      split
      · exact steady_fail _
      · exact hv.steady_readFileData entry.anode entry.fileSize

theorem steady_listDeldirBlocks (rbs : ℕ) (blks : List ℕ) :
    Steady (fun c => c.Mirrors dev rbs) (Volume.listDeldirBlocks rbs dev blks) := by
  induction blks with
  | nil => exact steady_pure []
  | cons blk blks ih =>
      unfold Volume.listDeldirBlocks
      split
      · exact ih
      · exact (steady_readReserved blk).bind fun _ => ih.bind fun _ => steady_pure _

theorem steady_listDeldir : Steady v.Like Volume.listDeldir := by
  unfold Volume.listDeldir
  refine Volume.steady_get ?_ fun _ => rfl
  split
  · exact steady_pure []
  · cases v.rootblockExt with
    | none => exact steady_pure []
    | some rext => exact Volume.steady_onCache (steady_listDeldirBlocks _ rext.deldirblocks)

/-! ## Calls -/

/-- The calls of the read path. -/
inductive ReadCall
  | listDir (path : Name)
  | lookup (path : Name)
  | readFile (path : Name)
  | readFileRange (anodenr fileSize start length : ℕ)
  | getAnodeChain (anodenr : ℕ)
  | bitmapCountFree
  | reservedCountFree
  | listDeldir

/-- A file size as the disk can hold it, and a length of type `u32`. -/
def ReadCall.Proper : ReadCall → Prop
  | .readFileRange _ fileSize _ length => fileSize < 2 ^ 48 ∧ length < U32
  | _ => True

/-- Make a call and drop its value. -/
def ReadCall.run (offset : ℕ) : ReadCall → VolumeM Unit
  | .listDir path => discard (Checked.listDir offset path)
  | .lookup path => discard (lookupPath offset path)
  | .readFile path => discard (Checked.readFile offset path)
  | .readFileRange anodenr fileSize start length =>
      discard (Checked.readFileRange offset anodenr fileSize start length)
  | .getAnodeChain anodenr => discard (Checked.getAnodeChain offset anodenr)
  | .bitmapCountFree => discard (Checked.bitmapCountFree offset)
  | .reservedCountFree => discard (Checked.reservedCountFree offset)
  | .listDeldir => discard (Checked.listDeldir offset)

/-- A call ends: with a value, with an error, or with a panic as the counter of reads is at its
end; in the first two cases the volume is as before up to its cache. -/
def Ends (v s : Volume) {α : Type} (m : VolumeM α) : Prop :=
  (∃ a s', m s = .ok a s' ∧ v.Like s') ∨ (∃ e s', m s = .error (.err e) s' ∧ v.Like s') ∨
    ∃ s', m s = .error .panic s' ∧ U64 ≤ reads s' + 1

theorem ends_of_agrees {α : Type} {m' m : VolumeM α} (h : Agrees v.Like reads m' m)
    (hm : Steady v.Like m) {s : Volume} (hs : v.Like s) : Ends v s m' := by
  obtain ⟨res, hres⟩ := hm
  rcases h s hs with heq | hpanic
  · cases res with
    | error e =>
        obtain ⟨s', hrun, hs'⟩ := hres.raise hs
        exact Or.inr (Or.inl ⟨e, s', heq.trans hrun, hs'⟩)
    | ok a =>
        obtain ⟨b, s', hrun, -, hs'⟩ := hres.ok hs
        exact Or.inl ⟨b, s', heq.trans hrun, hs'⟩
  · exact Or.inr (Or.inr hpanic)

theorem Ends.discard {α : Type} {m : VolumeM α} {s : Volume} (h : Ends v s m) :
    Ends v s (discard m) := by
  rcases h with ⟨a, s', hrun, hs'⟩ | ⟨e, s', hrun, hs'⟩ | ⟨s', hrun, hend⟩
  · exact Or.inl ⟨⟨⟩, s', bind_of_ok hrun, hs'⟩
  · exact Or.inr (Or.inl ⟨e, s', bind_of_error hrun, hs'⟩)
  · exact Or.inr (Or.inr ⟨s', bind_of_error hrun, hend⟩)

theorem ends_run (ho : IsOffset offset) (hv : v.Opened) (hs : Sound v) {c : ReadCall}
    (hc : c.Proper) {s : Volume} (hlike : v.Like s) : Ends v s (c.run offset) := by
  cases c with
  | listDir path =>
      exact (ends_of_agrees (agrees_listDir ho hv hs path) (steady_listDir hv path) hlike).discard
  | lookup path =>
      exact (ends_of_agrees (agrees_lookupPath ho hv hs path) (hv.steady_lookup path)
        hlike).discard
  | readFile path =>
      exact (ends_of_agrees (agrees_readFile ho hv hs path) (steady_readFile hv path)
        hlike).discard
  | readFileRange anodenr fileSize start length =>
      exact (ends_of_agrees (agrees_readFileRange ho hv hs hc.1 hc.2 anodenr)
        (steady_readFileRange hv anodenr fileSize start length) hlike).discard
  | getAnodeChain anodenr =>
      exact (ends_of_agrees (guarded_getAnodeChain ho hv hs anodenr).agrees
        (hv.steady_getAnodeChain anodenr) hlike).discard
  | bitmapCountFree =>
      exact (ends_of_agrees (agrees_bitmapCountFree ho hv hs) hv.steady_bitmapCountFree
        hlike).discard
  | reservedCountFree =>
      exact (ends_of_agrees (agrees_reservedCountFree ho hs) Volume.steady_reservedCountFree
        hlike).discard
  | listDeldir =>
      exact (ends_of_agrees (agrees_listDeldir ho hs) steady_listDeldir hlike).discard

/-- The states of a volume after calls that returned. -/
inductive Reached (offset : ℕ) (v : Volume) : Volume → Prop
  | opened : Reached offset v v
  | call {s s' : Volume} {c : ReadCall} (before : Reached offset v s) (proper : c.Proper)
      (run : c.run offset s = .ok () s' ∨ ∃ e, c.run offset s = .error (.err e) s') :
      Reached offset v s'

theorem Reached.like (ho : IsOffset offset) (hv : v.Opened) (hs : Sound v) {s : Volume}
    (h : Reached offset v s) : v.Like s := by
  induction h with
  | opened => exact hv.like
  | call before hc hrun ih =>
      rcases ends_run ho hv hs hc ih with ⟨a, s'', hrun', hlike⟩ | ⟨e, s'', hrun', hlike⟩ |
        ⟨s'', hrun', -⟩
      · rcases hrun with hrun | ⟨e, hrun⟩
        · injection hrun.symm.trans hrun' with _ hstate
          exact hstate ▸ hlike
        · cases hrun.symm.trans hrun'
      · rcases hrun with hrun | ⟨e', hrun⟩
        · cases hrun.symm.trans hrun'
        · injection hrun.symm.trans hrun' with _ hstate
          exact hstate ▸ hlike
      · rcases hrun with hrun | ⟨e', hrun⟩
        · cases hrun.symm.trans hrun'
        · cases hrun.symm.trans hrun'

end Checked

end Pfs3
