import Pfs3.Model.Cache

/-!
# Anode (extent) lookup and chain traversal

Split mode: `anodenr = (seqnr << 16) | offset`; otherwise
`anodenr = seqnr * anodes_per_block + offset`.  A sequence number is resolved through the
index blocks of the rootblock, or on large disks through the superindex of the extension.
-/

namespace Pfs3

open ByteList

/-- Reads anode (extent) records from the reserved area. -/
structure AnodeReader where
  reservedBlksize : ℕ
  anodesPerBlock : ℕ
  indexPerBlock : ℕ
  splitMode : Bool
  isLarge : Bool
  indexblocks : List ℕ
  superindex : List ℕ

def MAX_CHAIN_LEN : ℕ := 1000000

namespace AnodeReader

/-- Create a new reader from rootblock and optional extension. -/
def new (rb : Rootblock) (rbe : Option RootblockExt) : AnodeReader where
  reservedBlksize := rb.reservedBlksize
  anodesPerBlock := rb.anodesPerBlock
  indexPerBlock := rb.indexPerBlock
  splitMode := rb.isSplittedAnodes
  isLarge := rb.isLarge
  indexblocks := rb.indexblocks
  superindex := (rbe.map RootblockExt.superindex).getD []

def readIndexEntry (r : AnodeReader) (block offset : ℕ) (dev : Device) : CacheM ℕ := do
  let data ← BlockCache.readReserved dev block r.reservedBlksize
  let off := INDEX_BLOCK_HEADER_SIZE + offset * 4
  if data.length < off + 4 then pure 0 else pure (be32 data off)

/-- Resolve an anode sequence number to its on-disk block number. -/
def resolveAnodeBlock (r : AnodeReader) (seqnr : ℕ) (dev : Device) : CacheM ℕ := do
  let ipb := r.indexPerBlock
  if ipb = 0 then throw .panic
  else if r.isLarge then
    let superBlk := r.superindex.getD (seqnr / (ipb * ipb)) 0
    if superBlk = 0 then pure 0
    else
      let idxBlk ← r.readIndexEntry superBlk (seqnr % (ipb * ipb) / ipb) dev
      if idxBlk = 0 then pure 0
      else r.readIndexEntry idxBlk (seqnr % (ipb * ipb) % ipb) dev
  else
    let idxBlk := r.indexblocks.getD (seqnr / ipb) 0
    if idxBlk = 0 then pure 0
    else r.readIndexEntry idxBlk (seqnr % ipb) dev

/-- Sequence number and slot of an anode number. -/
def splitNr (r : AnodeReader) (anodenr : ℕ) : ℕ × ℕ :=
  if r.splitMode then (anodenr / 65536, anodenr % 65536)
  else (anodenr / r.anodesPerBlock, anodenr % r.anodesPerBlock)

/-- Look up a single anode by number. -/
def getAnode (r : AnodeReader) (anodenr : ℕ) (dev : Device) : CacheM Anode := do
  if r.splitMode = false ∧ r.anodesPerBlock = 0 then throw .panic
  else
    let (seqnr, offset) := r.splitNr anodenr
    let blkNr ← r.resolveAnodeBlock seqnr dev
    if blkNr = 0 then fail (.anodeNotFound anodenr)
    else
      let data ← BlockCache.readReserved dev blkNr r.reservedBlksize
      if data.length < 16 then fail (.tooShort "anode block header")
      else if be16 data 0 ≠ ABLKID then fail (.badBlockId "anode block" ABLKID (be16 data 0))
      else
        let base := ANODE_BLOCK_HEADER_SIZE + offset * ANODE_SIZE
        if data.length < base + ANODE_SIZE then fail (.anodeNotFound anodenr)
        else pure (Anode.parse data base anodenr)

/-- The loop of `get_chain`, with room for `n` more anodes after those already `seen`. -/
def getChainLoop (r : AnodeReader) (dev : Device) :
    (n : ℕ) → (seen : List ℕ) → (nr : ℕ) → CacheM (List Anode)
  | 0, seen, nr =>
      if nr = ANODE_EOF then pure []
      else if nr ∈ seen then fail (.invalidPartition s!"anode cycle at {nr}")
      else fail (.invalidPartition "anode chain too long")
  | n + 1, seen, nr =>
      if nr = ANODE_EOF then pure []
      else if nr ∈ seen then fail (.invalidPartition s!"anode cycle at {nr}")
      else do
        let an ← r.getAnode nr dev
        let rest ← getChainLoop r dev n (nr :: seen) an.next
        pure (an :: rest)

/-- Follow an anode chain from `anodenr` to EOF. Detects cycles. -/
def getChain (r : AnodeReader) (anodenr : ℕ) (dev : Device) : CacheM (List Anode) :=
  r.getChainLoop dev MAX_CHAIN_LEN [] anodenr

end AnodeReader

/-! ## Bitmap index -/

/-- Bitmap index reader — resolves bitmap block sequence numbers. -/
structure BitmapReader where
  reservedBlksize : ℕ
  indexPerBlock : ℕ
  bitmapindex : List ℕ

namespace BitmapReader

/-- Create a new reader from rootblock metadata. -/
def new (rb : Rootblock) : BitmapReader :=
  ⟨rb.reservedBlksize, rb.indexPerBlock, rb.bitmapindex⟩

def getBitmapBlock (r : BitmapReader) (seqnr : ℕ) (dev : Device) : CacheM (Option ℕ) := do
  let ipb := r.indexPerBlock
  if ipb = 0 then throw .panic
  else
    let bmiBlk := r.bitmapindex.getD (seqnr / ipb) 0
    if bmiBlk = 0 then pure none
    else
      let data ← BlockCache.readReserved dev bmiBlk r.reservedBlksize
      let off := INDEX_BLOCK_HEADER_SIZE + seqnr % ipb * 4
      if data.length < off + 4 then pure none
      else if be32 data off = 0 then pure none
      else pure (some (be32 data off))

/-- `u32::count_ones`. -/
def countOnes (w : BitVec 32) : ℕ := (List.range 32).countP fun i => w.getMsbD i

/-- Free blocks counted in the words of one bitmap block, and the blocks still to account. -/
def countWords : List ℕ → (remaining free : ℕ) → ℕ × ℕ
  | [], remaining, free => (remaining, free)
  | word :: words, remaining, free =>
      if remaining = 0 then (remaining, free)
      else
        let bits := min remaining 32
        let w := BitVec.ofNat 32 word
        let mask := if bits = 32 then BitVec.allOnes 32 else BitVec.allOnes 32 <<< (32 - bits)
        countWords words (remaining - 32) (free + countOnes (w &&& mask))

/-- The loop of `count_free` over bitmap sequence numbers from `seqnr` on. -/
def countFreeLoop (r : BitmapReader) (dev : Device) :
    (n : ℕ) → (seqnr remaining free : ℕ) → CacheM ℕ
  | 0, _, _, free => pure free
  | n + 1, seqnr, remaining, free =>
      if remaining = 0 then pure free
      else do
        match ← r.getBitmapBlock seqnr dev with
        | none => pure free
        | some blk =>
            let data ← BlockCache.readReserved dev blk r.reservedBlksize
            let (remaining, free) :=
              countWords (beWords (data.drop BITMAP_BLOCK_HEADER_SIZE)) remaining free
            countFreeLoop r dev n (seqnr + 1) remaining free

/-- Count free blocks by scanning all bitmap blocks. Every bitmap block accounts for at
least one word, so `disksize` rounds are enough. -/
def countFree (r : BitmapReader) (disksize : ℕ) (dev : Device) : CacheM ℕ :=
  r.countFreeLoop dev disksize 0 disksize 0

end BitmapReader

end Pfs3
