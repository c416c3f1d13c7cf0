import Pfs3.Model.Volume

/-!
# Writable volume

`Writer` keeps the geometry, the reserved and data bitmaps, and a queue of pending reserved
block writes that are flushed before the rootblock cluster.  Readers go through the volume's
cache to the device; `read_reserved_raw` looks into the queue first.
-/

namespace Pfs3

open ByteList

/-- Writable PFS3 volume — file/directory creation and deletion. -/
structure Writer where
  vol : Volume
  resblocksize : ℕ
  rescluster : ℕ
  indexPerBlock : ℕ
  anodesPerBlock : ℕ
  firstreserved : ℕ
  numreserved : ℕ
  bitmapstart : ℕ
  /-- Authoritative datestamp counter. -/
  datestamp : ℕ
  resBitmap : List (BitVec 32)
  /-- Bitmap blocks: block number and words. -/
  dataBm : List (ℕ × List (BitVec 32))
  /-- Pending reserved block writes, flushed before the rootblock update. -/
  pendingWrites : List (ℕ × Bytes)
  /-- The wall clock: the time its `n`-th reading returns, and how often it was read. -/
  clock : ℕ → Datestamp
  asked : ℕ

/-- A call on a writer. -/
abbrev WriterM := EStateM Fault Writer

namespace Writer

/-! ## State access -/

def setVol (v : Volume) (w : Writer) : Writer := { w with vol := v }

/-- Run a reader of the underlying volume. -/
def onVol {α : Type} (m : VolumeM α) : WriterM α := zoom Writer.vol setVol m

/-- Run a device operation. -/
def onDev {α : Type} (m : EStateM Fault Device α) : WriterM α :=
  onVol (zoom Volume.dev (fun d v => { v with dev := d }) m)

/-- `current_amiga_datestamp()`. -/
def currentAmigaDatestamp : WriterM Datestamp := fun w =>
  .ok (w.clock w.asked) { w with asked := w.asked + 1 }

def nextDatestamp : WriterM ℕ := do
  let w ← get
  let ds ← addU32 w.datestamp 1
  set { w with datestamp := ds }
  pure ds

def setBlocksfree (n : ℕ) : WriterM Unit :=
  modify fun w => { w with vol.rootblock.blocksfree := n }

def setReservedFree (n : ℕ) : WriterM Unit :=
  modify fun w => { w with vol.rootblock.reservedFree := n }

/-! ## Helpers -/

/-- A reserved block's content: the pending write if there is one, else the device. -/
def readReservedRaw (blk : ℕ) : WriterM Bytes := do
  let w ← get
  match w.pendingWrites.lookup blk with
  | some data => pure data
  | none => w.vol.dev.readBlocks blk w.rescluster w.resblocksize

/-- The queue after `write_reserved`: an existing entry for the block is replaced. -/
def queueWrite (blk : ℕ) (data : Bytes) : List (ℕ × Bytes) → List (ℕ × Bytes)
  | [] => [(blk, data)]
  | (b, d) :: rest => if b = blk then (blk, data) :: rest else (b, d) :: queueWrite blk data rest

def invalidate (blk : ℕ) (w : Writer) : Writer :=
  { w with vol.cache := w.vol.cache.invalidate blk }

def writeReserved (blk : ℕ) (data : Bytes) : WriterM Unit :=
  modify fun w =>
    { invalidate blk w with pendingWrites := queueWrite blk data w.pendingWrites }

def getAnodeBlockNr (seqnr : ℕ) : WriterM ℕ := do
  let w ← get
  onVol (Volume.onCache (w.vol.anodes.resolveAnodeBlock seqnr))

def getBitmapBlockNr (seqnr : ℕ) : WriterM (Option ℕ) := do
  let w ← get
  onVol (Volume.onCache (w.vol.bitmap.getBitmapBlock seqnr))

def getChain (anodenr : ℕ) : WriterM (List Anode) := onVol (Volume.getAnodeChain anodenr)

/-- The descent of `split_path` through the directories `parts`. -/
def descend : (parent : ℕ) → (parts : List Name) → WriterM ℕ
  | parent, [] => pure parent
  | parent, part :: rest => do
      let entries ← onVol (Volume.listDirByAnode parent)
      match entries.find? fun e => nameEqCi e.name part && e.isDir with
      | some dir => descend dir.anode rest
      | none => fail (.notFound (String.ofList part))

/-- Parent directory anode and last component of a path. -/
def splitPath (path : Name) : WriterM (ℕ × Name) := do
  let parts := pathParts path
  match parts.getLast? with
  | none => fail (.notFound "empty path")
  | some filename =>
      let parent ← descend ANODE_ROOTDIR parts.dropLast
      pure (parent, filename)

/-! ## Data bitmap -/

/-- `0x8000_0000 >> bit`. -/
def bitMask (bit : ℕ) : BitVec 32 := 0x80000000#32 >>> bit

def loadDataBitmapLoop : List ℕ → WriterM Unit
  | [] => pure ()
  | seq :: rest => do
      match ← getBitmapBlockNr seq with
      | none => loadDataBitmapLoop rest
      | some blk =>
          let data ← readReservedRaw blk
          let w ← get
          let longs := (readWords data 12 w.indexPerBlock).map (BitVec.ofNat 32)
          set { w with dataBm := w.dataBm ++ [(blk, longs)] }
          loadDataBitmapLoop rest

def loadDataBitmap : WriterM Unit := do
  let w ← get
  let bitsPerBmb := w.indexPerBlock * 32
  let ds := w.vol.rootblock.disksize
  loadDataBitmapLoop (List.range (min ((ds + bitsPerBmb - 1) / bitsPerBmb) 16384))

def writeDataBitmapBlock (bmIdx : ℕ) : WriterM Unit := do
  let w ← get
  match w.dataBm[bmIdx]? with
  | none => throw .panic
  | some (blk, longs) =>
      let data ← readReservedRaw blk
      let data ← putU32 data 4 w.datestamp
      let data ← putBytes data 12 (longs.flatMap fun l => enc32 l.toNat)
      writeReserved blk data

/-- How a scan for free bits ended. -/
inductive Scan
  | more
  | done
  | overflow
  | panic
  deriving DecidableEq

/-- Take free bits of one word: `base` is the block number of its first bit, `lim` the first
block number not handed out (`disksize + bitmapstart`, computed only when it is needed). -/
def takeBits (count base lim : ℕ) : List ℕ → BitVec 32 → List ℕ → BitVec 32 × List ℕ × Scan
  | [], long, allocated => (long, allocated, .more)
  | bit :: bits, long, allocated =>
      if long &&& bitMask bit ≠ 0 then
        let dataBlk := base + bit
        if U32 ≤ dataBlk then (long, allocated, .overflow)
        else if U32 ≤ lim then (long, allocated, .panic)
        else if lim ≤ dataBlk then takeBits count base lim bits long allocated
        else
          let long := long &&& ~~~ bitMask bit
          let allocated := allocated ++ [dataBlk]
          if allocated.length = count then (long, allocated, .done)
          else takeBits count base lim bits long allocated
      else takeBits count base lim bits long allocated

/-- Take free bits of the words of one bitmap block. -/
def takeLongs (count lim : ℕ) : (base : ℕ) → List (BitVec 32) → List ℕ →
    List (BitVec 32) × List ℕ × Scan
  | _, [], allocated => ([], allocated, .more)
  | base, long :: longs, allocated =>
      if long = 0 then
        let (longs, allocated, scan) := takeLongs count lim (base + 32) longs allocated
        (long :: longs, allocated, scan)
      else
        match takeBits count base lim (List.range 32) long allocated with
        | (long, allocated, .more) =>
            let (longs, allocated, scan) := takeLongs count lim (base + 32) longs allocated
            (long :: longs, allocated, scan)
        | (long, allocated, scan) => (long :: longs, allocated, scan)

def setLongs (bmIdx : ℕ) (longs : List (BitVec 32)) (w : Writer) : Writer :=
  { w with dataBm := w.dataBm.modify bmIdx fun p => (p.1, longs) }

/-- The loop of `alloc_data_blocks` over the bitmap blocks from `bmIdx` on. -/
def allocDataBlocksLoop (count : ℕ) : (n : ℕ) → (bmIdx : ℕ) → List ℕ → WriterM (List ℕ)
  | 0, _, _ => fail (.diskFull s!"not enough free blocks (need {count})")
  | n + 1, bmIdx, allocated => do
      let w ← get
      let lim := w.vol.rootblock.disksize + w.bitmapstart
      let longs := ((w.dataBm[bmIdx]?).map Prod.snd).getD []
      let base := bmIdx * w.indexPerBlock * 32 + w.bitmapstart
      let (longs, allocated, scan) := takeLongs count lim base longs allocated
      modify (setLongs bmIdx longs)
      match scan with
      | .panic => throw .panic
      | .overflow => fail (.corrupt "block number overflow in bitmap")
      | .done =>
          writeDataBitmapBlock bmIdx
          let free ← subU32 w.vol.rootblock.blocksfree count
          setBlocksfree free
          pure allocated
      | .more =>
          if allocated ≠ [] then writeDataBitmapBlock bmIdx
          allocDataBlocksLoop count n (bmIdx + 1) allocated

def allocDataBlocks (count : ℕ) : WriterM (List ℕ) := do
  let w ← get
  allocDataBlocksLoop count w.dataBm.length 0 []

def freeDataBlock (blk : ℕ) : WriterM Unit := do
  let w ← get
  if blk < w.bitmapstart then pure ()
  else
    let rel := blk - w.bitmapstart
    let bmIdx := rel / (w.indexPerBlock * 32)
    let remainder := rel % (w.indexPerBlock * 32)
    match w.dataBm[bmIdx]? with
    | none => pure ()
    | some (_, longs) =>
        match longs[remainder / 32]? with
        | none => throw .panic
        | some long =>
            modify (setLongs bmIdx (longs.set (remainder / 32) (long ||| bitMask (remainder % 32))))
            writeDataBitmapBlock bmIdx
            let free ← addU32 w.vol.rootblock.blocksfree 1
            setBlocksfree free

/-- `free_data_block(an.blocknr + i)` for every block of an extent. -/
def freeExtent (an : Anode) : WriterM Unit :=
  (List.range an.clustersize).forM fun i => do
    let blk ← addU32 an.blocknr i
    freeDataBlock blk

def freeDataBlocks (anodenr : ℕ) : WriterM Unit := do
  let chain ← getChain anodenr
  chain.forM freeExtent

/-! ## Reserved bitmap -/

def loadReservedBitmap : WriterM Unit := do
  let w ← get
  let rblkcluster := w.vol.rootblock.rblkcluster
  let cluster ← w.vol.dev.readBlocks w.firstreserved rblkcluster (rblkcluster * SECTOR_SIZE)
  let longs := readWords cluster (SECTOR_SIZE + 12) (w.numreserved / 32 + 1)
  set { w with resBitmap := longs.map (BitVec.ofNat 32) }

/-- The first set bit of a word. -/
def firstBit (long : BitVec 32) : Option ℕ :=
  (List.range 32).find? fun bit => long &&& bitMask bit ≠ 0

/-- Index of the first set bit of the words, the first word having index `li`. -/
def firstFree : (li : ℕ) → List (BitVec 32) → Option (ℕ × ℕ)
  | _, [] => none
  | li, long :: longs =>
      if long = 0 then firstFree (li + 1) longs
      else
        match firstBit long with
        | some bit => some (li, bit)
        | none => firstFree (li + 1) longs

def allocReservedBlock : WriterM ℕ := do
  let w ← get
  match firstFree 0 w.resBitmap with
  | none => fail (.diskFull "out of reserved blocks")
  | some (li, bit) =>
      set { w with resBitmap := w.resBitmap.modify li fun l => l &&& ~~~ bitMask bit }
      let free ← subU32 w.vol.rootblock.reservedFree 1
      setReservedFree free
      addU32 w.firstreserved ((li * 32 + bit) * w.rescluster)

def freeReservedBlock (blk : ℕ) : WriterM Unit := do
  let w ← get
  let rel ← subU32 blk w.firstreserved
  if w.rescluster = 0 then throw .panic
  else
    let idx := rel / w.rescluster
    if idx / 32 < w.resBitmap.length then
      set { w with resBitmap := w.resBitmap.modify (idx / 32) fun l => l ||| bitMask (idx % 32) }
      let free ← addU32 w.vol.rootblock.reservedFree 1
      setReservedFree free
    else pure ()

/-! ## Anode allocation -/

/-- Write the three fields of the slot at byte `base` and the block datestamp. -/
def putAnode (data : Bytes) (base clustersize blocknr next datestamp : ℕ) :
    Except Fault Bytes := do
  let data ← putU32 data base clustersize
  let data ← putU32 data (base + 4) blocknr
  let data ← putU32 data (base + 8) next
  putU32 data 4 datestamp

/-- Register `newBlk` at the slot `off` of the index block `idxBlk`. -/
def putIndexEntry (idxBlk off newBlk : ℕ) : WriterM Unit := do
  let idata ← readReservedRaw idxBlk
  let idata ← putU32 idata (INDEX_BLOCK_HEADER_SIZE + off * 4) newBlk
  let w ← get
  let idata ← putU32 idata 4 w.datestamp
  writeReserved idxBlk idata

/-- Allocate a new anode block and register it in the index. -/
def allocAnodeBlock (seqnr : ℕ) : WriterM ℕ := do
  let newBlk ← allocReservedBlock
  let w ← get
  let data ← putU16 (List.replicate w.resblocksize 0) 0 ABLKID
  let ds ← nextDatestamp
  let data ← putU32 data 4 ds
  let data ← putU32 data 8 seqnr
  writeReserved newBlk data
  let w ← get
  let ipb := w.indexPerBlock
  if ipb = 0 then throw .panic
  else if w.vol.rootblock.isLarge then
    let superNr := seqnr / (ipb * ipb)
    let idxInSuper := seqnr % (ipb * ipb) / ipb
    let offInIdx := seqnr % (ipb * ipb) % ipb
    let superBlk := ((w.vol.rootblockExt.map RootblockExt.superindex).getD []).getD superNr 0
    if superBlk = 0 then fail (.diskFull "no superindex slot available")
    else
      let sdata ← onVol (Volume.onCache fun dev =>
        BlockCache.readReserved dev superBlk w.resblocksize)
      let idxBlk ← readU32 sdata (INDEX_BLOCK_HEADER_SIZE + idxInSuper * 4)
      if idxBlk = 0 then
        let newIdx ← allocReservedBlock
        let idata ← putU16 (List.replicate w.resblocksize 0) 0 IBLKID
        let ds ← nextDatestamp
        let idata ← putU32 idata 4 ds
        let idata ← putU32 idata 8 idxInSuper
        let idata ← putU32 idata (INDEX_BLOCK_HEADER_SIZE + offInIdx * 4) newBlk
        writeReserved newIdx idata
        putIndexEntry superBlk idxInSuper newIdx
      else putIndexEntry idxBlk offInIdx newBlk
  else
    let idxBlk := w.vol.rootblock.indexblocks.getD (seqnr / ipb) 0
    if idxBlk = 0 then fail (.diskFull "no index block slot available")
    else putIndexEntry idxBlk (seqnr % ipb) newBlk
  modify (invalidate newBlk)
  pure newBlk

/-- The anode number of the slot `offset` of block `seqnr`. -/
def anodeNr (w : Writer) (seqnr offset : ℕ) : ℕ :=
  if w.vol.rootblock.isSplittedAnodes then seqnr * 65536 ||| offset
  else seqnr * w.anodesPerBlock + offset

/-- The first slot of an anode block, from `offset` on, that a new anode may take. -/
def findFreeSlot (w : Writer) (seqnr : ℕ) (data : Bytes) : (n : ℕ) → (offset : ℕ) →
    Except Fault (Option ℕ)
  | 0, _ => .ok none
  | n + 1, offset =>
      if w.anodeNr seqnr offset < ANODE_USERFIRST then findFreeSlot w seqnr data n (offset + 1)
      else do
        let base := ANODE_BLOCK_HEADER_SIZE + offset * ANODE_SIZE
        let cs ← readU32 data base
        let bn ← readU32 data (base + 4)
        if cs = 0 ∧ bn = 0 then pure (some offset)
        else findFreeSlot w seqnr data n (offset + 1)

/-- The loop of `alloc_anode` over sequence numbers. -/
def allocAnodeLoop (clustersize blocknr next : ℕ) : List ℕ → WriterM ℕ
  | [] => fail (.diskFull "no free anode slots")
  | seqnr :: rest => do
      let blkNum ← getAnodeBlockNr seqnr
      if blkNum = 0 then
        -- no anode block at this seqnr: allocate one and use its first usable slot
        let newBlk ← allocAnodeBlock seqnr
        let data ← readReservedRaw newBlk
        let w ← get
        let base := ANODE_BLOCK_HEADER_SIZE + ANODE_USERFIRST * ANODE_SIZE
        let data ← putAnode data base clustersize blocknr next w.datestamp
        writeReserved newBlk data
        pure (w.anodeNr seqnr ANODE_USERFIRST)
      else
        let data ← readReservedRaw blkNum
        let id ← readU16 data 0
        if id ≠ ABLKID then allocAnodeLoop clustersize blocknr next rest
        else
          let w ← get
          match ← findFreeSlot w seqnr data w.anodesPerBlock 0 with
          | none => allocAnodeLoop clustersize blocknr next rest
          | some offset =>
              let base := ANODE_BLOCK_HEADER_SIZE + offset * ANODE_SIZE
              let data ← putAnode data base clustersize blocknr next w.datestamp
              writeReserved blkNum data
              pure (w.anodeNr seqnr offset)

def allocAnode (clustersize blocknr next : ℕ) : WriterM ℕ :=
  allocAnodeLoop clustersize blocknr next (List.range 256)

/-- Maximal runs of consecutive block numbers, as start and length. -/
def clusters : List ℕ → List (ℕ × ℕ)
  | [] => []
  | b :: rest =>
      match clusters rest with
      | (start, count) :: more =>
          if start = b + 1 then (b, count + 1) :: more else (b, 1) :: (start, count) :: more
      | [] => [(b, 1)]

/-- Allocate the anodes of `clusters` from the last one to the first. -/
def createAnodes : List (ℕ × ℕ) → WriterM ℕ
  | [] => pure ANODE_EOF
  | (start, count) :: rest => do
      let nextNr ← createAnodes rest
      allocAnode count start nextNr

def createAnodeChain (blocks : List ℕ) : WriterM ℕ := createAnodes (clusters blocks)

/-- Write the 3 fields of a single anode slot on disk. -/
def writeAnodeFields (anodenr clustersize blocknr next : ℕ) : WriterM Unit := do
  let w ← get
  if w.vol.rootblock.isSplittedAnodes = false ∧ w.anodesPerBlock = 0 then throw .panic
  else
    let (seqnr, offset) :=
      if w.vol.rootblock.isSplittedAnodes then (anodenr / 65536, anodenr % 65536)
      else (anodenr / w.anodesPerBlock, anodenr % w.anodesPerBlock)
    let blkNum ← getAnodeBlockNr seqnr
    let data ← readReservedRaw blkNum
    let data ← putAnode data (ANODE_BLOCK_HEADER_SIZE + offset * ANODE_SIZE)
      clustersize blocknr next w.datestamp
    writeReserved blkNum data

/-- Clear a single anode slot (set all 3 fields to 0). -/
def clearSingleAnode (anodenr : ℕ) : WriterM Unit := writeAnodeFields anodenr 0 0 0

def clearAnodeChain (anodenr : ℕ) : WriterM Unit := do
  let chain ← getChain anodenr
  chain.forM fun an => clearSingleAnode an.nr

def freeAnodeChainReserved (anodenr : ℕ) : WriterM Unit := do
  let chain ← getChain anodenr
  chain.forM fun an => (List.range an.clustersize).forM fun i => do
    let blk ← addU32 an.blocknr i
    freeReservedBlock blk

/-- Free all data blocks and clear anode slots for a slice of anodes. -/
def freeAndClearAnodes (anodes : List Anode) : WriterM Unit :=
  anodes.forM fun an => do
    freeExtent an
    clearSingleAnode an.nr

/-- The loop of `truncate_anode_chain` with `remaining` blocks still to keep. -/
def truncateLoop : (remaining : ℕ) → List Anode → WriterM Unit
  | _, [] => pure ()
  | remaining, an :: rest =>
      if remaining = 0 then freeAndClearAnodes (an :: rest)
      else if remaining < an.clustersize then do
        -- partial: free tail blocks, shrink clustersize, set next=EOF
        (List.range' remaining (an.clustersize - remaining)).forM fun i => do
          let blk ← addU32 an.blocknr i
          freeDataBlock blk
        writeAnodeFields an.nr remaining an.blocknr ANODE_EOF
        freeAndClearAnodes rest
      else if remaining - an.clustersize = 0 then do
        writeAnodeFields an.nr an.clustersize an.blocknr ANODE_EOF
        freeAndClearAnodes rest
      else truncateLoop (remaining - an.clustersize) rest

/-- Truncate an anode chain to `keep_blocks` total blocks. -/
def truncateAnodeChain (head keepBlocks : ℕ) : WriterM Unit := do
  let chain ← getChain head
  truncateLoop keepBlocks chain

/-- Append a sub-chain to the tail of an existing anode chain. -/
def appendToAnodeChain (head newHead : ℕ) : WriterM Unit := do
  let chain ← getChain head
  match chain.getLast? with
  | none => fail (.anodeNotFound head)
  | some tail => writeAnodeFields tail.nr tail.clustersize tail.blocknr newHead

end Writer

end Pfs3
