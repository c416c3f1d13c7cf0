import Pfs3.Model.Api

/-!
# Formatter (mkfs)

`format_with_size`: boot block, rootblock cluster with the reserved bitmap, extension, bitmap
index and bitmap blocks, anode index block, anode block with the root directory's anode, and
the empty root directory block.
-/

namespace Pfs3

open ByteList

/-- Options for formatting a new PFS3 volume. -/
structure FormatOptions where
  volumeName : Name
  enableDeldir : Bool

/-- Result of a successful format operation. -/
structure FormatResult where
  volumeName : Name
  totalBlocks : ℕ
  dataBlocks : ℕ
  blocksFree : ℕ
  numReserved : ℕ
  reservedBlksize : ℕ
  deriving DecidableEq, Repr

namespace Format

def MAXSMALLDISK : ℕ := (MAXSMALLBITMAPINDEX + 1) * 253 * 253 * 32

def MAXNUMRESERVED : ℕ := 4096 + 255 * 1024 * 8

/-- The growth loop of `calc_num_reserved`: `i = 2^k` for the given exponents `k`, as long as
`i / 2 < total_blocks`. -/
def growTaken (totalBlocks : ℕ) : List ℕ → (taken : ℕ) → Except Fault ℕ
  | [], taken => .ok taken
  | k :: ks, taken =>
      if 2 ^ k / 2 < totalBlocks then
        let m := if 512 * 2048 ≤ 2 ^ k then 10 else 14
        if U32 ≤ taken * m ∨ U32 ≤ taken + taken * m / 16 then .error .panic
        else growTaken totalBlocks ks (taken + taken * m / 16)
      else .ok taken

def calcNumReserved (totalBlocks resblocksize : ℕ) : Except Fault ℕ := do
  let taken ← growTaken totalBlocks (List.range' 11 53) 32
  let taken := taken / (resblocksize / 1024)
  let taken := min (taken - 1) MAXNUMRESERVED
  let taken := (taken + 31) / 32 * 32
  pure (max taken 32)

/-! ## Reserved block allocator -/

/-- `bitmap`: `true` = free. -/
structure ReservedAllocator where
  bitmap : List Bool
  numreserved : ℕ
  roving : ℕ

namespace ReservedAllocator

/-- All blocks free but those of the rootblock cluster. -/
def new (numreserved rblkclusterResblocks : ℕ) : ReservedAllocator where
  bitmap := (List.range numreserved).map fun i => decide (rblkclusterResblocks ≤ i)
  numreserved := numreserved
  roving := rblkclusterResblocks

def alloc (a : ReservedAllocator) : Except Fault (ℕ × ReservedAllocator) :=
  match (List.range a.numreserved).find? fun i =>
      a.bitmap.getD ((a.roving + i) % a.numreserved) false with
  | some i =>
      let idx := (a.roving + i) % a.numreserved
      .ok (idx, { a with bitmap := a.bitmap.set idx false, roving := (idx + 1) % a.numreserved })
  | none => .error (.err (.diskFull "out of reserved blocks"))

/-- `n` allocations in a row. -/
def allocMany : ℕ → ReservedAllocator → Except Fault (List ℕ × ReservedAllocator)
  | 0, a => .ok ([], a)
  | n + 1, a => do
      let (idx, a) ← a.alloc
      let (rest, a) ← allocMany n a
      pure (idx :: rest, a)

def freeCount (a : ReservedAllocator) : ℕ := a.bitmap.count true

/-- One word of the bitmap: bit `bit` stands for block `i + bit`. -/
def bitmapWord (a : ReservedAllocator) (i : ℕ) : BitVec 32 :=
  (List.range 32).foldl (fun val bit =>
    if i + bit < a.numreserved ∧ a.bitmap.getD (i + bit) false then val ||| Writer.bitMask bit
    else val) 0

def buildBitmap (a : ReservedAllocator) : List (BitVec 32) :=
  (List.range ((a.numreserved + 31) / 32)).map fun k => a.bitmapWord (k * 32)

end ReservedAllocator

/-! ## Block images -/

/-- A sequence of `put_u16` / `put_u32` / `copy_from_slice` writes. -/
def putAll : List (ℕ × Bytes) → Bytes → Except Fault Bytes
  | [], d => .ok d
  | (off, src) :: rest, d => do
      let d ← putBytes d off src
      putAll rest d

/-- Reserved block size and whether super mode is used. -/
def blockMode (totalBlocks : ℕ) : ℕ × Bool :=
  if MAXSMALLDISK < totalBlocks then
    let max1k := (MAXBITMAPINDEX + 1) * 253 * 253 * 32
    let max2k := (MAXBITMAPINDEX + 1) * 509 * 509 * 32
    (if max2k < totalBlocks then 4096 else if max1k < totalBlocks then 2048 else 1024, true)
  else (1024, false)

/-- The loop that counts the KiB of reserved bitmap: 125 words fit in the first, 256 in each
further one.  `i` grows in every round, so `words` rounds are enough. -/
def resbmLoop (words : ℕ) : (n : ℕ) → (i resbm1k : ℕ) → ℕ
  | 0, _, resbm1k => resbm1k
  | n + 1, i, resbm1k => if i < words then resbmLoop words n (i + 256) (resbm1k + 1) else resbm1k

/-- Reserved bitmap size in KiB. -/
def resbm1k (numreserved : ℕ) : ℕ := resbmLoop (numreserved / 32) (numreserved / 32) 125 1

/-- A word of a fresh bitmap block whose first bit stands for data block `blockIdx`. -/
def freeWord (dataBlocks blockIdx : ℕ) : BitVec 32 :=
  if blockIdx < dataBlocks then
    BitVec.allOnes 32 <<< (32 - min (dataBlocks - blockIdx) 32)
  else 0

/-- Layout of the volume being formatted. -/
structure Layout where
  resblocksize : ℕ
  supermode : Bool
  rescluster : ℕ
  numreserved : ℕ
  rblkcluster : ℕ
  lastreserved : ℕ
  indexPerBlock : ℕ
  dataBlocks : ℕ
  rextBlk : ℕ
  bmBlocknrs : List ℕ
  bmiBlocknrs : List ℕ
  anidxBlk : ℕ
  anodeBlk : ℕ
  rootdirBlk : ℕ
  alloc : ReservedAllocator

def firstreserved : ℕ := 2

def options (l : Layout) : ℕ :=
  MODE_HARDDISK ||| MODE_SPLITTED_ANODES ||| MODE_DIR_EXTENSION ||| MODE_SIZEFIELD |||
    MODE_DATESTAMP ||| MODE_EXTROVING ||| MODE_LONGFN ||| MODE_EXTENSION |||
    (if l.supermode then MODE_SUPERINDEX else 0)

/-- Rootblock fields, index union and reserved bitmap, as written into the cluster. -/
def clusterFields (l : Layout) (totalBlocks : ℕ) (opts : FormatOptions) (now : Datestamp) :
    List (ℕ × Bytes) :=
  let name := (asBytes opts.volumeName).take 30
  let bmi := if l.supermode then l.bmiBlocknrs else l.bmiBlocknrs.take (MAXSMALLBITMAPINDEX + 1)
  [(0x00, enc32 ID_PFS_DISK), (0x04, enc32 (options l)), (0x08, enc32 1),
   (0x0C, enc16 now.day), (0x0E, enc16 now.minute), (0x10, enc16 now.tick), (0x12, enc16 0xF0),
   (0x14, [UInt8.ofNat name.length]), (0x15, name),
   (0x34, enc32 l.lastreserved), (0x38, enc32 firstreserved), (0x3C, enc32 l.alloc.freeCount),
   (0x40, enc16 l.resblocksize), (0x42, enc16 l.rblkcluster), (0x44, enc32 l.dataBlocks),
   (0x48, enc32 (l.dataBlocks / 20)), (0x54, enc32 totalBlocks), (0x58, enc32 l.rextBlk),
   (0x60, bmi.flatMap enc32)] ++
  (if l.supermode then []
   else [(0x60 + (MAXSMALLBITMAPINDEX + 1) * 4, enc32 l.anidxBlk)]) ++
  [(SECTOR_SIZE, enc16 BMBLKID), (SECTOR_SIZE + 8, enc32 0),
   (SECTOR_SIZE + 12,
    (l.alloc.buildBitmap.take ((l.rblkcluster * SECTOR_SIZE - (SECTOR_SIZE + 12)) / 4)).flatMap
      fun w => enc32 w.toNat)]

def rextFields (l : Layout) (now : Datestamp) : List (ℕ × Bytes) :=
  [(0x00, enc16 EXTENSIONID), (0x08, enc32 1), (0x0C, enc32 0x00130002),
   (0x10, enc16 now.day), (0x12, enc16 now.minute), (0x14, enc16 now.tick), (0x38, enc16 32)] ++
  (if l.supermode then [(0x40, enc32 l.anidxBlk)] else [])

def bmiFields (l : Layout) (seq : ℕ) : List (ℕ × Bytes) :=
  [(0, enc16 BMIBLKID), (4, enc32 1), (8, enc32 seq),
   (12, ((l.bmBlocknrs.drop (seq * l.indexPerBlock)).take l.indexPerBlock).flatMap enc32)]

def bmFields (l : Layout) (seq : ℕ) : List (ℕ × Bytes) :=
  [(0, enc16 BMBLKID), (4, enc32 1), (8, enc32 seq),
   (12, (List.range l.indexPerBlock).flatMap fun j =>
     enc32 (freeWord l.dataBlocks (seq * (l.indexPerBlock * 32) + j * 32)).toNat)]

def anidxFields (l : Layout) : List (ℕ × Bytes) :=
  [(0, enc16 IBLKID), (4, enc32 1), (8, enc32 0), (12, enc32 l.anodeBlk)]

def anodeFields (l : Layout) : List (ℕ × Bytes) :=
  let off := ANODE_BLOCK_HEADER_SIZE + ANODE_ROOTDIR * ANODE_SIZE
  [(0, enc16 ABLKID), (4, enc32 1), (8, enc32 0), (off, enc32 1), (off + 4, enc32 l.rootdirBlk),
   (off + 8, enc32 0)]

def rootdirFields : List (ℕ × Bytes) :=
  [(0x00, enc16 DBLKID), (0x04, enc32 1), (0x0C, enc32 ANODE_ROOTDIR),
   (0x10, enc32 ANODE_ROOTDIR)]

/-! ## Formatting -/

/-- A zeroed reserved block with the given fields, written at `blk`. -/
def writeImage (l : Layout) (blk : ℕ) (fields : List (ℕ × Bytes)) : EStateM Fault Device Unit := do
  let data ← putAll fields (List.replicate l.resblocksize 0)
  Device.writeReservedBlocks blk data l.rescluster

/-- The images of consecutive blocks of one kind, numbered from `seq` on. -/
def writeImages (l : Layout) (fields : ℕ → List (ℕ × Bytes)) : (seq : ℕ) → List ℕ →
    EStateM Fault Device Unit
  | _, [] => pure ()
  | seq, blk :: rest => do
      writeImage l blk (fields seq)
      writeImages l fields (seq + 1) rest

/-- Format a block device as PFS3 with explicit size. -/
def formatWithSize (totalBlocks : ℕ) (opts : FormatOptions) (now : Datestamp) :
    EStateM Fault Device FormatResult := do
  let (resblocksize, supermode) := blockMode totalBlocks
  let rescluster := resblocksize / SECTOR_SIZE
  let numreserved ← calcNumReserved totalBlocks resblocksize
  let resbmResblocks := (1024 * resbm1k numreserved + resblocksize - 1) / resblocksize
  let rblkcluster := rescluster * resbmResblocks
  let lastreserved := rescluster * numreserved + firstreserved - 1
  let (rextIdx, alloc) ← (ReservedAllocator.new numreserved resbmResblocks).alloc
  let blkOf := fun idx => firstreserved + idx * rescluster
  let indexPerBlock := resblocksize / 4 - 3
  let reservedArea := lastreserved - firstreserved + 1 + firstreserved
  if totalBlocks % U32 ≤ reservedArea then
    fail (.diskFull s!"disk too small: {totalBlocks} blocks, need at least {reservedArea + 1} for reserved area")
  else
    let dataBlocks := totalBlocks % U32 - reservedArea
    let bitsPerBmb := indexPerBlock * 32
    let noBmb := (dataBlocks + bitsPerBmb - 1) / bitsPerBmb
    let noBmi := (noBmb + indexPerBlock - 1) / indexPerBlock
    -- boot block
    Device.writeBlock 0 (enc32 ID_PFS_DISK ++ List.replicate (SECTOR_SIZE - 4) 0)
    Device.writeBlock 1 (List.replicate SECTOR_SIZE 0)
    let (bm, alloc) ← alloc.allocMany noBmb
    let (bmi, alloc) ← alloc.allocMany noBmi
    let (anidx, alloc) ← alloc.alloc
    let (anode, alloc) ← alloc.alloc
    let (rootdir, alloc) ← alloc.alloc
    let l : Layout :=
      { resblocksize, supermode, rescluster, numreserved, rblkcluster, lastreserved,
        indexPerBlock, dataBlocks, rextBlk := blkOf rextIdx, bmBlocknrs := bm.map blkOf,
        bmiBlocknrs := bmi.map blkOf, anidxBlk := blkOf anidx, anodeBlk := blkOf anode,
        rootdirBlk := blkOf rootdir, alloc }
    let rbData ← putAll (clusterFields l totalBlocks opts now)
      (List.replicate (rblkcluster * SECTOR_SIZE) 0)
    (List.range rblkcluster).forM fun i =>
      Device.writeBlock (firstreserved + i) (Sector.ofBytes (rbData.drop (i * SECTOR_SIZE))).val
    writeImage l l.rextBlk (rextFields l now)
    writeImages l (bmiFields l) 0 l.bmiBlocknrs
    -- the last bit position of the last bitmap block is computed in u32
    if U32 < noBmb * bitsPerBmb then throw .panic
    writeImages l (bmFields l) 0 l.bmBlocknrs
    writeImage l l.anidxBlk (anidxFields l)
    writeImage l l.anodeBlk (anodeFields l)
    writeImage l l.rootdirBlk rootdirFields
    Device.flush
    pure
      { volumeName := opts.volumeName, totalBlocks, dataBlocks, blocksFree := dataBlocks,
        numReserved := numreserved, reservedBlksize := resblocksize }

end Format

end Pfs3
