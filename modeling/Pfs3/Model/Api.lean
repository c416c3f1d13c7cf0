import Pfs3.Model.Writer

/-!
# Directory entries, commit, and the operations of `Writer`

Building, adding, finding and removing directory entries, the rootblock update that commits
a call, and the file and directory operations built from them.
-/

namespace Pfs3

open ByteList

namespace Writer

/-! ## Directory entries -/

/-- The encoded directory entry; the creation date is the time of the call. -/
def buildDirEntry (now : Datestamp) (name : Name) (entryType : ℤ) (anode fsize protection : ℕ) :
    Bytes :=
  let nameBytes := (asBytes name).take 107
  let nlen := nameBytes.length
  let fsizex := fsize / U32 % 65536
  let extraBytes := if 0 < fsizex then 4 else 2
  let baseSize := 18 + nlen + 1 + extraBytes
  let baseSize := if baseSize % 2 ≠ 0 then baseSize + 1 else baseSize
  let efOff := if (18 + nlen + 1) % 2 ≠ 0 then 18 + nlen + 2 else 18 + nlen + 1
  let head := [UInt8.ofNat baseSize, UInt8.ofNat (entryType % 256).toNat] ++ enc32 anode ++
    enc32 fsize ++ enc16 now.day ++ enc16 now.minute ++ enc16 now.tick ++
    [UInt8.ofNat protection, UInt8.ofNat nlen] ++ nameBytes
  let entry := head ++ List.replicate (efOff - (18 + nlen)) 0 ++
    (if 0 < fsizex then enc16 0x0040 ++ enc16 fsizex else enc16 0)
  entry ++ List.replicate (baseSize - entry.length) 0

/-- The walk of `find_dir_entry` over one block: the position of the first entry whose name
matches.  Every entry is at least one byte long, so `resblocksize` rounds are enough. -/
def findInBlock (rbs : ℕ) (data : Bytes) (name : Name) : (n : ℕ) → (pos : ℕ) →
    Except Fault (Option ℕ)
  | 0, _ => .ok none
  | n + 1, pos =>
      if rbs ≤ pos then .ok none
      else do
        let esize ← readU8 data pos
        if esize = 0 then pure none
        else
          let nlen ← readU8 data (pos + 17)
          if data.length < pos + 18 + nlen then throw .panic
          else if nameEqCi (latin1ToString ((data.drop (pos + 18)).take nlen)) name then
            pure (some pos)
          else findInBlock rbs data name n (pos + esize)

def findDirEntryLoop (name : Name) : List ℕ → WriterM (ℕ × Bytes × ℕ)
  | [] => fail (.notFound (String.ofList name))
  | blk :: rest => do
      let data ← readReservedRaw blk
      let id ← readU16 data 0
      if id ≠ DBLKID then findDirEntryLoop name rest
      else
        let w ← get
        match ← findInBlock w.resblocksize data name w.resblocksize DIR_BLOCK_HEADER_SIZE with
        | some pos => pure (blk, data, pos)
        | none => findDirEntryLoop name rest

/-- Find a directory entry by name, returning block number, block data and entry offset. -/
def findDirEntry (dirAnode : ℕ) (name : Name) : WriterM (ℕ × Bytes × ℕ) := do
  let chain ← getChain dirAnode
  findDirEntryLoop name (AnodeReader.chainBlocks chain)

/-- The end of the entries of a block. -/
def endOfEntries (rbs : ℕ) (data : Bytes) : (n : ℕ) → (pos : ℕ) → Except Fault ℕ
  | 0, pos => .ok pos
  | n + 1, pos =>
      if rbs ≤ pos then .ok pos
      else do
        let esize ← readU8 data pos
        if esize = 0 then pure pos else endOfEntries rbs data n (pos + esize)

def extendAnodeChain (headAnode newBlk : ℕ) : WriterM Unit := do
  let newAnodenr ← allocAnode 1 newBlk 0
  appendToAnodeChain headAnode newAnodenr

/-- The search of `add_dir_entry` for a block with room; `true` when the entry was placed. -/
def addToBlocks (entryBytes : Bytes) : List ℕ → WriterM Bool
  | [] => pure false
  | blk :: rest => do
      let data ← readReservedRaw blk
      let id ← readU16 data 0
      if id ≠ DBLKID then addToBlocks entryBytes rest
      else
        let w ← get
        let pos ← endOfEntries w.resblocksize data w.resblocksize DIR_BLOCK_HEADER_SIZE
        if pos + entryBytes.length < w.resblocksize then
          let data ← putBytes data pos entryBytes
          let data ← putBytes data (pos + entryBytes.length) [0]
          let ds ← nextDatestamp
          let data ← putU32 data 4 ds
          writeReserved blk data
          pure true
        else addToBlocks entryBytes rest

def addDirEntry (dirAnode : ℕ) (name : Name) (entryType : ℤ) (anode fsize protection : ℕ) :
    WriterM Unit := do
  let now ← currentAmigaDatestamp
  let entryBytes := buildDirEntry now name entryType anode fsize protection
  let chain ← getChain dirAnode
  let placed ← addToBlocks entryBytes (AnodeReader.chainBlocks chain)
  if placed then pure ()
  else
    -- no space: allocate new dir block and extend chain
    let newBlk ← allocReservedBlock
    let w ← get
    let newData ← putU16 (List.replicate w.resblocksize 0) 0 DBLKID
    let ds ← nextDatestamp
    let newData ← putU32 newData 4 ds
    let newData ← putU32 newData 0x0C dirAnode
    let newData ← putU32 newData 0x10 dirAnode
    let newData ← putBytes newData DIR_BLOCK_HEADER_SIZE entryBytes
    writeReserved newBlk newData
    extendAnodeChain dirAnode newBlk

def removeDirEntry (dirAnode : ℕ) (name : Name) : WriterM Unit := do
  let (blk, data, pos) ← findDirEntry dirAnode name
  let w ← get
  let esize ← readU8 data pos
  let remaining ← subU32 w.resblocksize (pos + esize)
  if data.length < pos + esize + remaining then throw .panic
  else
    let data := data.take pos ++ (data.drop (pos + esize)).take remaining ++
      List.replicate esize 0 ++ data.drop (pos + remaining + esize)
    let ds ← nextDatestamp
    let data ← putU32 data 4 ds
    writeReserved blk data

/-- Position of the `fsizex` field of the entry at `pos`, if the entry has one. -/
def fsizexPos (data : Bytes) (pos esize nlen : ℕ) : Except Fault (Option ℕ) :=
  let stop := pos + esize
  let coff := pos + 18 + nlen
  if coff < stop then do
    let clen ← readU8 data coff
    let fp := coff + 1 + clen
    let fp := if fp % 2 ≠ 0 then fp + 1 else fp
    if fp + 2 ≤ stop then
      let flags ← readU16 data fp
      pure (skip stop flags [(0x0001, 4), (0x0002, 2), (0x0004, 2), (0x0008, 4), (0x0010, 4),
        (0x0020, 4)] (fp + 2))
    else pure none
  else .ok none
where
  /-- Walk over the fields before `fsizex`; leaving the entry ends the walk. -/
  skip (stop flags : ℕ) : List (ℕ × ℕ) → ℕ → Option ℕ
    | [], fp => if flags &&& 0x0040 ≠ 0 ∧ fp + 2 ≤ stop then some fp else none
    | (flag, width) :: rest, fp =>
        if flags &&& flag ≠ 0 then
          if stop < fp + width then none else skip stop flags rest (fp + width)
        else skip stop flags rest fp

/-- Update the fsize (and fsizex) of an existing directory entry in-place. -/
def updateDirEntrySize (dirAnode : ℕ) (name : Name) (newSize : ℕ) : WriterM Unit := do
  let (blk, data, pos) ← findDirEntry dirAnode name
  let esize ← readU8 data pos
  let nlen ← readU8 data (pos + 17)
  let data ← putU32 data (pos + 6) newSize
  let data ←
    match ← fsizexPos data pos esize nlen with
    | some fp => putU16 data fp (newSize / U32)
    | none => pure data
  let now ← currentAmigaDatestamp
  let data ← putU16 data (pos + 10) now.day
  let data ← putU16 data (pos + 12) now.minute
  let data ← putU16 data (pos + 14) now.tick
  let ds ← nextDatestamp
  let data ← putU32 data 4 ds
  writeReserved blk data

/-! ## Rootblock update -/

/-- Write the queued blocks in order, each invalidated in the cache once it is written. -/
def flushWrites : List (ℕ × Bytes) → WriterM Unit
  | [] => pure ()
  | (blk, data) :: rest => do
      let w ← get
      onDev (Device.writeReservedBlocks blk data w.rescluster)
      modify (invalidate blk)
      flushWrites rest

/-- Flush all pending reserved block writes to disk. -/
def flushPending : WriterM Unit := do
  let w ← get
  set { w with pendingWrites := [] }
  flushWrites w.pendingWrites
  onDev Device.flush

def updateRootblock : WriterM Unit := do
  flushPending
  let w ← get
  let rblkcluster := w.vol.rootblock.rblkcluster
  let cluster ← w.vol.dev.readBlocks w.firstreserved rblkcluster (rblkcluster * SECTOR_SIZE)
  let ds ← nextDatestamp
  let cluster ← putU32 cluster RB_OFF_DATESTAMP ds
  let cluster ← putU32 cluster RB_OFF_RESERVED_FREE w.vol.rootblock.reservedFree
  let cluster ← putU32 cluster RB_OFF_BLOCKSFREE w.vol.rootblock.blocksfree
  -- reserved bitmap words, as far as the cluster has room for them
  let bmOff := SECTOR_SIZE + 12
  let words := w.resBitmap.take ((cluster.length - bmOff) / 4)
  let cluster := splice cluster bmOff (words.flatMap fun l => enc32 l.toNat)
  onDev (Device.writeBlocks w.firstreserved rblkcluster cluster)
  onDev Device.flush

/-! ## Opening -/

def ofVolume (vol : Volume) (clock : ℕ → Datestamp) : Except Fault Writer :=
  let rb := vol.rootblock
  let rescluster := rb.reservedBlksize / SECTOR_SIZE
  if rb.lastreserved < rb.firstreserved ∨ rescluster = 0 ∨ U32 ≤ rb.lastreserved + 1 then
    .error .panic
  else .ok
    { vol := vol
      resblocksize := rb.reservedBlksize
      rescluster := rescluster
      indexPerBlock := rb.indexPerBlock
      anodesPerBlock := rb.anodesPerBlock
      firstreserved := rb.firstreserved
      numreserved := (rb.lastreserved - rb.firstreserved + 1) / rescluster
      bitmapstart := rb.lastreserved + 1
      datestamp := rb.datestamp
      resBitmap := []
      dataBm := []
      pendingWrites := []
      clock := clock
      asked := 0 }

/-- Open a volume for writing. -/
def «open» (vol : Volume) (clock : ℕ → Datestamp) : Except Fault Writer := do
  let w ← ofVolume vol clock
  match (do loadReservedBitmap; loadDataBitmap : WriterM Unit) w with
  | .ok _ w => pure w
  | .error f _ => throw f

/-! ## File and directory operations -/

/-- Number of blocks for `len` bytes; an empty file takes one. -/
def blocksFor (len : ℕ) : ℕ := max ((len + SECTOR_SIZE - 1) / SECTOR_SIZE) 1

/-- Write `data` to the blocks, one sector each. -/
def writeDataBlocks : List ℕ → Bytes → WriterM Unit
  | [], _ => pure ()
  | blk :: rest, data => do
      onDev (Device.writeBlock blk (Sector.ofBytes data).val)
      writeDataBlocks rest (data.drop SECTOR_SIZE)

/-- Store `data` in newly allocated blocks and return the head of their anode chain. -/
def storeData (data : Bytes) : WriterM ℕ := do
  let blocks ← allocDataBlocks (blocksFor data.length % U32)
  writeDataBlocks blocks data
  onDev Device.flush
  createAnodeChain blocks

/-- Write file without committing — caller must call update_rootblock(). -/
def writeFileInNoCommit (parentAnode : ℕ) (name : Name) (data : Bytes) : WriterM Unit := do
  let anodenr ← storeData data
  addDirEntry parentAnode name ST_FILE anodenr data.length 0

/-- Overwrite an existing file's data in-place, reusing its anode. -/
def overwriteFileIn (parentAnode : ℕ) (name : Name) (fileAnode : ℕ) (data : Bytes) :
    WriterM Unit := do
  let newBlocksNeeded := blocksFor data.length % U32
  let oldChain ← getChain fileAnode
  let oldTotal := (oldChain.map Anode.clustersize).sum
  if U32 ≤ oldTotal then throw .panic
  else
    writeDataBlocks ((AnodeReader.chainBlocks oldChain).take newBlocksNeeded) data
    onDev Device.flush
    if newBlocksNeeded ≤ oldTotal then
      truncateAnodeChain fileAnode newBlocksNeeded
    else
      let newBlocks ← allocDataBlocks (newBlocksNeeded - oldTotal)
      writeDataBlocks newBlocks (data.drop (oldTotal * SECTOR_SIZE))
      onDev Device.flush
      let newChainHead ← createAnodeChain newBlocks
      appendToAnodeChain fileAnode newChainHead
    updateDirEntrySize parentAnode name data.length
    updateRootblock

/-- Create a file in a directory identified by anode. -/
def writeFileIn (parentAnode : ℕ) (name : Name) (data : Bytes) : WriterM Unit := do
  let create : WriterM Unit := do
    writeFileInNoCommit parentAnode name data
    updateRootblock
  match ← tryOk (findDirEntry parentAnode name) with
  | none => create
  | some (_, entryData, pos) =>
      let ty ← readU8 entryData (pos + 1)
      let entryType : ℤ := if ty < 128 then (ty : ℤ) else (ty : ℤ) - 256
      if entryType = ST_FILE ∨ entryType = ST_ROLLOVERFILE then
        let fileAnode ← readU32 entryData (pos + 2)
        overwriteFileIn parentAnode name fileAnode data
      else create

/-- Create a directory in a parent identified by anode. -/
def createDirIn (parentAnode : ℕ) (name : Name) : WriterM Unit := do
  let dirBlk ← allocReservedBlock
  let anodenr ← allocAnode 1 dirBlk 0
  let w ← get
  let dirData ← putU16 (List.replicate w.resblocksize 0) 0x00 DBLKID
  let ds ← nextDatestamp
  let dirData ← putU32 dirData 0x04 ds
  let dirData ← putU32 dirData 0x0C anodenr
  let dirData ← putU32 dirData 0x10 parentAnode
  writeReserved dirBlk dirData
  addDirEntry parentAnode name ST_USERDIR anodenr 0 0
  updateRootblock

/-- Create a softlink by parent anode. -/
def createSoftlinkIn (parentAnode : ℕ) (name target : Name) : WriterM Unit := do
  let data := asBytes target
  let anodenr ← storeData data
  addDirEntry parentAnode name ST_SOFTLINK anodenr data.length 0
  updateRootblock

/-- Write a file at the given path. Parent directories must exist. -/
def writeFile (path : Name) (data : Bytes) : WriterM Unit := do
  let (parentAnode, filename) ← splitPath path
  writeFileIn parentAnode filename data

/-- Create a directory at the given path. -/
def createDir (path : Name) : WriterM Unit := do
  let (parentAnode, dirname) ← splitPath path
  createDirIn parentAnode dirname

/-- Create a softlink in a parent directory. -/
def createSoftlink (path target : Name) : WriterM Unit := do
  let (parentAnode, name) ← splitPath path
  createSoftlinkIn parentAnode name target

/-- Create a hardlink in a parent directory. -/
def createHardlink (path : Name) (targetAnode : ℕ) : WriterM Unit := do
  let (parentAnode, name) ← splitPath path
  addDirEntry parentAnode name ST_LINKFILE targetAnode 0 0
  updateRootblock

/-! ### Deletion -/

def writeDeldirEntry (block : Bytes) (off : ℕ) (entry : DirEntry) : Except Fault Bytes := do
  let block ← putU32 block off entry.anode
  let block ← putU32 block (off + 4) entry.fileSize
  let block ← putU16 block (off + 8) entry.creationDay
  let block ← putU16 block (off + 10) entry.creationMinute
  let block ← putU16 block (off + 12) entry.creationTick
  let nameBytes := (asBytes entry.name).take 16
  let block ← putBytes block (off + 14) (nameBytes ++ List.replicate (16 - nameBytes.length) 0)
  putU16 block (off + 30) (entry.fileSize / U32)

/-- First free slot of a deldir block. -/
def freeDeldirSlot (data : Bytes) : (n : ℕ) → (i : ℕ) → Option ℕ
  | 0, _ => none
  | n + 1, i =>
      let off := DELDIR_HEADER_SIZE + i * DELDIR_ENTRY_SIZE
      if data.length < off + DELDIR_ENTRY_SIZE then none
      else if be32 data off = 0 then some off
      else freeDeldirSlot data n (i + 1)

/-- Put the entry into the first free slot of the deldir blocks. -/
def fillDeldirSlot (entry : DirEntry) (entriesPerBlock : ℕ) : List ℕ → WriterM Bool
  | [] => pure false
  | blk :: rest => do
      match ← tryOk (readReservedRaw blk) with
      | none => fillDeldirSlot entry entriesPerBlock rest
      | some data =>
          let id ← readU16 data 0
          if id ≠ DELDIRID then fillDeldirSlot entry entriesPerBlock rest
          else
            match freeDeldirSlot data entriesPerBlock 0 with
            | none => fillDeldirSlot entry entriesPerBlock rest
            | some off =>
                let blockData ← writeDeldirEntry data off entry
                writeReserved blk blockData
                pure true

def deldirblocks (w : Writer) : List ℕ :=
  ((w.vol.rootblockExt.map RootblockExt.deldirblocks).getD []).filter (· ≠ 0)

/-- Move a deleted file entry to the deldir. Returns false if deldir not enabled. -/
def moveToDeldir (entry : DirEntry) : WriterM Bool := do
  let w ← get
  if w.vol.rootblock.hasFlag MODE_DELDIR = false then pure false
  else
    match deldirblocks w with
    | [] => pure false
    | blk :: blks =>
        let entriesPerBlock := deldirEntriesPerBlock w.vol.rootblock.reservedBlksize
        if ← fillDeldirSlot entry entriesPerBlock (blk :: blks) then pure true
        else
          -- deldir full: evict the first slot of the first block
          match ← tryOk (readReservedRaw blk) with
          | none => pure false
          | some data =>
              let evictAnode ← readU32 data DELDIR_HEADER_SIZE
              if evictAnode ≠ 0 then
                let _ ← tryOk (freeDataBlocks evictAnode)
                let _ ← tryOk (clearAnodeChain evictAnode)
              let blockData ← writeDeldirEntry data DELDIR_HEADER_SIZE entry
              writeReserved blk blockData
              pure true

/-- Delete a file or empty directory by name in a parent directory. -/
def deleteIn (parentAnode : ℕ) (name : Name) : WriterM Unit := do
  let entries ← onVol (Volume.listDirByAnode parentAnode)
  match entries.find? fun e => nameEqCi e.name name with
  | none => fail (.notFound (String.ofList name))
  | some target =>
      if target.isDir then
        let sub ← onVol (Volume.listDirByAnode target.anode)
        if sub ≠ [] then fail .notEmpty
        else
          freeAnodeChainReserved target.anode
          clearAnodeChain target.anode
      else
        let moved ← moveToDeldir target
        if moved then pure ()
        else
          freeDataBlocks target.anode
          clearAnodeChain target.anode
      removeDirEntry parentAnode name
      updateRootblock

/-- Delete a file or empty directory at the given path. -/
def delete (path : Name) : WriterM Unit := do
  let (parentAnode, name) ← splitPath path
  deleteIn parentAnode name

/-- The longest slice `name[..len]`; a cut inside of a character panics. -/
def slicePrefix : (len : ℕ) → Name → Except Fault Name
  | 0, _ => .ok []
  | _ + 1, [] => .error .panic
  | n + 1, c :: rest =>
      if n + 1 < (String.utf8EncodeChar c).length then .error .panic
      else do
        let tail ← slicePrefix (n + 1 - (String.utf8EncodeChar c).length) rest
        pure (c :: tail)

/-- Set the volume name, in the rootblock cluster on the device. -/
def setVolumeName (name : Name) : WriterM Unit := do
  let nameBytes := asBytes name
  let len := min nameBytes.length 30
  let diskname ← slicePrefix len name
  modify fun w => { w with vol.rootblock.diskname := diskname }
  let w ← get
  let rblkcluster := w.vol.rootblock.rblkcluster
  let cluster ← w.vol.dev.readBlocks w.firstreserved rblkcluster (rblkcluster * SECTOR_SIZE)
  let cluster ← putBytes cluster RB_OFF_DISKNAME (List.replicate 32 0)
  let cluster ← putBytes cluster RB_OFF_DISKNAME [UInt8.ofNat len]
  let cluster ← putBytes cluster (RB_OFF_DISKNAME + 1) (nameBytes.take len)
  let ds ← nextDatestamp
  let cluster ← putU32 cluster RB_OFF_DATESTAMP ds
  onDev (Device.writeBlocks w.firstreserved rblkcluster cluster)
  onDev Device.flush

def updateDirEntryProtection (dirAnode : ℕ) (name : Name) (protection : UInt8) : WriterM Unit := do
  let (blk, data, pos) ← findDirEntry dirAnode name
  let data ← putBytes data (pos + 16) [protection]
  let ds ← nextDatestamp
  let data ← putU32 data 4 ds
  writeReserved blk data
  updateRootblock

def renameIn (srcParent : ℕ) (srcName : Name) (dstParent : ℕ) (dstName : Name) :
    WriterM Unit := do
  let entries ← onVol (Volume.listDirByAnode srcParent)
  match entries.find? fun e => nameEqCi e.name srcName with
  | none => fail (.notFound (String.ofList srcName))
  | some entry =>
      -- if destination exists, delete it first
      let dst ← tryOk (onVol (Volume.listDirByAnode dstParent))
      if (dst.getD []).any fun e => nameEqCi e.name dstName then deleteIn dstParent dstName
      addDirEntry dstParent dstName entry.entryType entry.anode entry.fileSize entry.protection
      removeDirEntry srcParent srcName
      updateRootblock

/-- Undelete a file from the deldir by index. Writes it to `dest_path`. -/
def undelete (deldirIdx : ℕ) (destPath : Name) : WriterM Unit := do
  let w ← get
  if w.vol.rootblockExt = none then fail (.notFound "no rootblock extension")
  else
    let entriesPerBlock := deldirEntriesPerBlock w.vol.rootblock.reservedBlksize
    if entriesPerBlock = 0 then fail (.corrupt "invalid reserved block size")
    else
      match (deldirblocks w)[deldirIdx / entriesPerBlock]? with
      | none => fail (.notFound s!"deldir index {deldirIdx} out of range")
      | some blk =>
          let data ← readReservedRaw blk
          let off := DELDIR_HEADER_SIZE + deldirIdx % entriesPerBlock * DELDIR_ENTRY_SIZE
          if data.length < off + DELDIR_ENTRY_SIZE then throw .panic
          else
            match DelDirEntry.parse ((data.drop off).take DELDIR_ENTRY_SIZE) with
            | none => fail (.notFound "empty deldir slot")
            | some entry =>
                if (← onVol (Volume.lookup destPath)).isSome then
                  fail (.alreadyExists (String.ofList destPath))
                else
                  let fileData ← onVol (Volume.readFileData entry.anode entry.fileSize)
                  let (parentAnode, filename) ← splitPath destPath
                  writeFileInNoCommit parentAnode filename fileData
                  let _ ← tryOk (clearAnodeChain entry.anode)
                  let blockData ← readReservedRaw blk
                  let blockData ← putBytes blockData off (List.replicate DELDIR_ENTRY_SIZE 0)
                  writeReserved blk blockData
                  updateRootblock

/-! ### Repairs -/

/-- Force-remove a directory entry without touching anodes or data blocks. -/
def forceRemoveEntry (parentAnode : ℕ) (name : Name) : WriterM Unit := do
  removeDirEntry parentAnode name
  updateRootblock

/-- Repair: set the rootblock's blocksfree field. -/
def repairBlocksfree (correctFree : ℕ) : WriterM Unit := do
  setBlocksfree correctFree
  updateRootblock

/-- Repair: set the rootblock's reserved_free field. -/
def repairReservedFree (correctFree : ℕ) : WriterM Unit := do
  setReservedFree correctFree
  updateRootblock

end Writer

end Pfs3
