import Pfs3.Model.Anode

/-!
# Volume: read-only access

Directory listing and path resolution (`dir.rs`) and the top-level reader (`volume.rs`).
Directories are chains of dirblocks holding packed variable-length entries.
-/

namespace Pfs3

open ByteList

/-! ## Directory blocks -/

/-- Parse all direntries from a dirblock's entry area.  An entry is at least one byte long,
so as many rounds as bytes remain are enough. -/
def parseDirblockEntries (data : Bytes) : (n : ℕ) → (offset : ℕ) → List DirEntry
  | 0, _ => []
  | n + 1, offset =>
      if data.length ≤ offset then []
      else
        match DirEntry.parse data offset with
        | some (entry, next) => entry :: parseDirblockEntries data n next
        | none => []

/-- The entries `list_entries` takes from one block: none unless it is a dirblock. -/
def dirblockEntries (data : Bytes) : List DirEntry :=
  if data.length < DIR_BLOCK_HEADER_SIZE + 1 then []
  else if be16 data 0 ≠ DBLKID then []
  else parseDirblockEntries data (data.length - DIR_BLOCK_HEADER_SIZE) DIR_BLOCK_HEADER_SIZE

namespace AnodeReader

/-- The block numbers of a chain in order. -/
def chainBlocks (chain : List Anode) : List ℕ :=
  chain.flatMap fun an => List.range' an.blocknr an.clustersize

/-- The entries of the given directory blocks. -/
def listBlocks (r : AnodeReader) (dev : Device) : List ℕ → CacheM (List DirEntry)
  | [] => pure []
  | blk :: rest => do
      let data ← BlockCache.readReserved dev blk r.reservedBlksize
      let tail ← listBlocks r dev rest
      pure (dirblockEntries data ++ tail)

/-- List all entries in a directory given its anode number. -/
def listEntries (r : AnodeReader) (dirAnode : ℕ) (dev : Device) : CacheM (List DirEntry) := do
  let chain ← r.getChain dirAnode dev
  r.listBlocks dev (chainBlocks chain)

/-- Look up a single name in a directory (case-insensitive). -/
def lookup (r : AnodeReader) (dirAnode : ℕ) (name : Name) (dev : Device) : CacheM DirEntry := do
  let entries ← r.listEntries dirAnode dev
  match entries.find? fun e => nameEqCi e.name name with
  | some e => pure e
  | none => fail (.notFound (String.ofList name))

/-- The last component of a path: `NotFound` is no error. -/
def lookupLast (r : AnodeReader) (dirAnode : ℕ) (name : Name) (dev : Device) :
    CacheM (Option DirEntry) := fun c =>
  match r.lookup dirAnode name dev c with
  | .ok entry c' => .ok (some entry) c'
  | .error (.err (.notFound _)) c' => .ok none c'
  | .error f c' => .error f c'

/-- The loop of `resolve_path` over the remaining components. -/
def resolveParts (r : AnodeReader) (dev : Device) : (dirAnode : ℕ) → List Name →
    CacheM (Option DirEntry)
  | _, [] => pure none
  | dirAnode, [part] => r.lookupLast dirAnode part dev
  | dirAnode, part :: rest => do
      let entry ← r.lookup dirAnode part dev
      if entry.isDir then resolveParts r dev entry.anode rest else fail .notADirectory

/-- The loop of `resolve_dir_path` over the remaining components. -/
def resolveDirParts (r : AnodeReader) (dev : Device) : (dirAnode : ℕ) → List Name → CacheM ℕ
  | dirAnode, [] => pure dirAnode
  | dirAnode, part :: rest => do
      let entry ← r.lookup dirAnode part dev
      if entry.isDir then resolveDirParts r dev entry.anode rest else fail .notADirectory

end AnodeReader

/-- `path.split('/').filter(|s| !s.is_empty())`. -/
def pathParts (path : Name) : List Name := (path.splitOn '/').filter fun s => !s.isEmpty

/-! ## Volume -/

/-- A mounted PFS3 volume providing read access to files and directories. -/
structure Volume where
  dev : Device
  cache : BlockCache
  rootblock : Rootblock
  rootblockExt : Option RootblockExt
  anodes : AnodeReader
  bitmap : BitmapReader

/-- A call on a volume. -/
abbrev VolumeM := EStateM Fault Volume

namespace Volume

/-- Validate reserved block size is sane (prevents div-by-zero downstream). -/
def validateRbs (rb : Rootblock) : Except Fault Unit :=
  if rb.reservedBlksize < 64 then
    .error (.err (.corrupt s!"reserved_blksize {rb.reservedBlksize} too small (minimum 64)"))
  else .ok ()

/-- Open a PFS3 volume from an already-opened block device. -/
def fromDevice (dev : Device) : Except Fault Volume := do
  let buf ← dev.readBlock ROOTBLOCK
  let rb ← Rootblock.parse buf
  let rootblock ←
    if 512 < rb.rblkcluster * 512 then do
      let bigBuf ← dev.readBlocks ROOTBLOCK rb.rblkcluster (rb.rblkcluster * 512)
      Rootblock.parse bigBuf
    else pure rb
  validateRbs rootblock
  if rootblock.hasExtension then
    match BlockCache.readReserved dev rootblock.extension rootblock.reservedBlksize .new with
    | .error f _ => .error f
    | .ok data cache => do
        let ext ← RootblockExt.parse data
        pure ⟨dev, cache, rootblock, some ext, .new rootblock (some ext), .new rootblock⟩
  else pure ⟨dev, .new, rootblock, none, .new rootblock none, .new rootblock⟩

/-- Volume name. -/
def name (v : Volume) : Name := v.rootblock.diskname

/-- Total blocks on disk. -/
def totalBlocks (v : Volume) : ℕ := v.rootblock.disksize

/-- Run a reader on the volume's device and cache. -/
def onCache {α : Type} (m : Device → CacheM α) : VolumeM α := fun v =>
  zoom Volume.cache (fun c v => { v with cache := c }) (m v.dev) v

/-- Count free blocks by scanning the data bitmap. -/
def bitmapCountFree : VolumeM ℕ := do
  let v ← get
  onCache (v.bitmap.countFree v.rootblock.disksize)

/-- Get the anode chain for a given anode number. -/
def getAnodeChain (anodenr : ℕ) : VolumeM (List Anode) := do
  let v ← get
  onCache (v.anodes.getChain anodenr)

/-- Count free reserved blocks by scanning the reserved bitmap in the rootblock cluster. -/
def reservedCountFree : VolumeM ℕ := do
  let v ← get
  let rblkcluster := v.rootblock.rblkcluster
  let cluster ←
    v.dev.readBlocks v.rootblock.firstreserved rblkcluster (rblkcluster * SECTOR_SIZE)
  pure ((beWords (cluster.drop (SECTOR_SIZE + 12))).map
    fun w => BitmapReader.countOnes (BitVec.ofNat 32 w)).sum

/-! ### Directory operations -/

/-- List directory entries by anode number. -/
def listDirByAnode (dirAnode : ℕ) : VolumeM (List DirEntry) := do
  let v ← get
  onCache (v.anodes.listEntries dirAnode)

/-- Resolve a path to a directory anode number. -/
def resolveDirPath (path : Name) : VolumeM ℕ := do
  let v ← get
  onCache fun dev => v.anodes.resolveDirParts dev ANODE_ROOTDIR (pathParts path)

/-- List directory entries at the given path. -/
def listDir (path : Name) : VolumeM (List DirEntry) := do
  let dirAnode ← resolveDirPath path
  listDirByAnode dirAnode

/-- Look up a directory entry by path. Returns `none` for root. -/
def lookup (path : Name) : VolumeM (Option DirEntry) := do
  let v ← get
  onCache fun dev => v.anodes.resolveParts dev ANODE_ROOTDIR (pathParts path)

/-! ### File reading -/

/-- The block loop of `read_file_data`: `remaining` bytes still wanted. -/
def readBlocksData (dev : Device) : List ℕ → (remaining : ℕ) → Except Fault Bytes
  | [], _ => pure []
  | blk :: rest, remaining =>
      if remaining = 0 then pure []
      else do
        let blockBuf ← dev.readBlock blk
        let chunk := min remaining SECTOR_SIZE
        let tail ← readBlocksData dev rest (remaining - chunk)
        pure (blockBuf.take chunk ++ tail)

/-- Read file data by anode number and known size. -/
def readFileData (anodenr size : ℕ) : VolumeM Bytes := do
  let chain ← getAnodeChain anodenr
  let v ← get
  readBlocksData v.dev (AnodeReader.chainBlocks chain) size

/-- Read a file's contents by path. -/
def readFile (path : Name) : VolumeM Bytes := do
  match ← lookup path with
  | none => fail (.notFound (String.ofList path))
  | some entry =>
      if entry.isDir then fail .notADirectory else readFileData entry.anode entry.fileSize

/-- The blocks of one extent that overlap `[offset, stop)`; the extent starts at byte `blockPos`
of the file. -/
def readExtentRange (dev : Device) (offset stop blockPos blocknr : ℕ) :
    List ℕ → Except Fault Bytes
  | [] => pure []
  | i :: is =>
      let blkStart := blockPos + i * SECTOR_SIZE
      let blkEnd := blkStart + SECTOR_SIZE
      if blkEnd ≤ offset then readExtentRange dev offset stop blockPos blocknr is
      else if stop ≤ blkStart then pure []
      else do
        let blockBuf ← dev.readBlock (blocknr + i)
        let sliceStart := if blkStart < offset then offset - blkStart else 0
        let sliceEnd := if stop < blkEnd then stop - blkStart else SECTOR_SIZE
        let tail ← readExtentRange dev offset stop blockPos blocknr is
        pure ((blockBuf.drop sliceStart).take (sliceEnd - sliceStart) ++ tail)

/-- The extents that overlap `[offset, stop)`. -/
def readChainRange (dev : Device) (offset stop : ℕ) :
    List Anode → (blockPos : ℕ) → Except Fault Bytes
  | [], _ => pure []
  | an :: rest, blockPos =>
      let extentEnd := blockPos + an.clustersize * SECTOR_SIZE
      if extentEnd ≤ offset then readChainRange dev offset stop rest extentEnd
      else if stop ≤ blockPos then pure []
      else do
        let part ←
          readExtentRange dev offset stop blockPos an.blocknr (List.range an.clustersize)
        let tail ← readChainRange dev offset stop rest extentEnd
        pure (part ++ tail)

/-- Read a byte range from a file without loading the entire file. -/
def readFileRange (anodenr fileSize offset length : ℕ) : VolumeM Bytes := do
  if fileSize ≤ offset then pure []
  else do
    let chain ← getAnodeChain anodenr
    let v ← get
    readChainRange v.dev offset (min (offset + length) fileSize) chain 0

/-! ### Deldir -/

/-- The entries of one deldir block: none unless it is one. -/
def deldirBlockEntries (data : Bytes) (entriesPerBlock : ℕ) : List DelDirEntry :=
  if be16 data 0 ≠ DELDIRID then []
  else (List.range entriesPerBlock).filterMap fun i =>
    let off := DELDIR_HEADER_SIZE + i * DELDIR_ENTRY_SIZE
    if off + DELDIR_ENTRY_SIZE ≤ data.length then
      DelDirEntry.parse ((data.drop off).take DELDIR_ENTRY_SIZE)
    else none

/-- The entries of the given deldir blocks. -/
def listDeldirBlocks (rbs : ℕ) (dev : Device) : List ℕ → CacheM (List DelDirEntry)
  | [] => pure []
  | blk :: blks =>
      if blk = 0 then listDeldirBlocks rbs dev blks
      else do
        let data ← BlockCache.readReserved dev blk rbs
        let tail ← listDeldirBlocks rbs dev blks
        pure (deldirBlockEntries data (deldirEntriesPerBlock rbs) ++ tail)

/-- List deleted files from the deldir (trash). -/
def listDeldir : VolumeM (List DelDirEntry) := do
  let v ← get
  if v.rootblock.hasFlag MODE_DELDIR = false then pure []
  else
    match v.rootblockExt with
    | none => pure []
    | some rext => onCache fun dev => listDeldirBlocks v.rootblock.reservedBlksize dev rext.deldirblocks

end Volume

end Pfs3
