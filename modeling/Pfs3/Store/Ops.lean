import Pfs3.Store.Basic

/-!
# Operations of the structured store

The functions of `Writer` on the structured store, one for one: readers look at the device
content `disk`, everything that goes through the queue of pending writes changes `live`.
-/

namespace Pfs3

open ByteList

/-- The part of the rootblock cluster that changes, as it is on the device. -/
structure Root where
  datestamp : ℕ
  blocksfree : ℕ
  reservedFree : ℕ
  resFree : ℕ → Bool

/-- A writer and its device. -/
structure Store where
  geo : Geometry
  datestamp : ℕ
  blocksfree : ℕ
  reservedFree : ℕ
  /-- Reserved bitmap in memory. -/
  resFree : ℕ → Bool
  /-- The reserved area on the device, and as it will be once the queue is written. -/
  disk : Meta
  live : Meta
  root : Root
  /-- Content of the data area. -/
  data : ℕ → Sector
  clock : ℕ → Datestamp
  asked : ℕ

/-- A call on a store. -/
abbrev StoreM := EStateM (Stop Fault) Store

/-- A fallible computation of the code inside a specification. -/
instance {ε σ : Type} : MonadLift (Except ε) (EStateM (Stop ε) σ) where
  monadLift
    | .ok a => pure a
    | .error e => throw (.raise e)

namespace Store

/-- `Err(e)` as the result of a call. -/
def fail {α : Type} (e : Error) : StoreM α := throw (.raise (.err e))

/-- The promise ends here. -/
def stuck {α : Type} : StoreM α := throw .stuck

/-- The value of a call as an `Option`, an `Err` dropped. -/
def tryOk {α : Type} (m : StoreM α) : StoreM (Option α) := fun S =>
  match m S with
  | .ok a S' => .ok (some a) S'
  | .error (.raise (.err _)) S' => .ok none S'
  | .error f S' => .error f S'

/-- Run a reader on the device content. -/
def onDisk {α : Type} (f : Meta → Reader α) : StoreM α := do
  let S ← get
  f S.disk

/-! ## Helpers -/

def currentAmigaDatestamp : StoreM Datestamp := fun S =>
  .ok (S.clock S.asked) { S with asked := S.asked + 1 }

def nextDatestamp : StoreM ℕ := do
  let S ← get
  let ds ← addU32 S.datestamp 1
  set { S with datestamp := ds }
  pure ds

def getChain (anodenr : ℕ) : StoreM (List Anode) := onDisk fun m => m.getChain anodenr

def listDir (dirAnode : ℕ) : StoreM (List Entry) := onDisk fun m => m.listEntries dirAnode

/-- A block that may become a directory or anode block: not an anode block yet. -/
def Usable (S : Store) (blk : ℕ) : Prop := S.geo.IsDynamic blk ∧ ∀ s < 253, S.live.index s ≠ blk

instance (S : Store) (blk : ℕ) : Decidable (S.Usable blk) := inferInstanceAs (Decidable (_ ∧ _))

def setDir (blk : ℕ) (d : Option DirBlock) (S : Store) : Store :=
  { S with live.dir := Function.update S.live.dir blk d }

/-- Queue a directory block. -/
def writeDir (blk : ℕ) (d : DirBlock) : StoreM Unit := do
  let S ← get
  if S.Usable blk then set (setDir blk (some d) S) else stuck

/-- The directory block `blk`, the queue included. -/
def readDir (blk : ℕ) : StoreM DirBlock := do
  let S ← get
  S.live.readDir blk

def setSlot (nr : ℕ) (s : Slot) (S : Store) : Store :=
  { S with live.slot := Function.update S.live.slot nr s }

/-- The descent of `split_path` through the directories `parts`. -/
def descend : (parent : ℕ) → (parts : List Name) → StoreM ℕ
  | parent, [] => pure parent
  | parent, part :: rest => do
      let entries ← listDir parent
      match entries.find? fun e => nameEqCi e.text part && e.isDir with
      | some dir => descend dir.anode.toNat rest
      | none => fail (.notFound (String.ofList part))

/-- Parent directory anode and last component of a path. -/
def splitPath (path : Name) : StoreM (ℕ × Name) := do
  let parts := pathParts path
  match parts.getLast? with
  | none => fail (.notFound "empty path")
  | some filename =>
      let parent ← descend ANODE_ROOTDIR parts.dropLast
      pure (parent, filename)

/-! ## Data blocks -/

/-- The free data blocks in order, counted from the start of the data area. -/
def freeBlocks (S : Store) : List ℕ := (List.range S.geo.dataBlocks).filter S.live.free

def allocDataBlocks (count : ℕ) : StoreM (List ℕ) := do
  let S ← get
  let got := S.freeBlocks.take count
  if 0 < count ∧ count ≤ S.freeBlocks.length then
    set { S with live.free := fun r => S.live.free r && decide (r ∉ got) }
    let free ← subU32 S.blocksfree count
    modify fun S => { S with blocksfree := free }
    pure (got.map fun r => S.geo.dataStart + r)
  else
    -- the bits of the blocks found so far stay cleared
    set { S with live.free := fun _ => false }
    fail (.diskFull s!"not enough free blocks (need {count})")

def freeDataBlock (blk : ℕ) : StoreM Unit := do
  let S ← get
  if blk < S.geo.dataStart then pure ()
  else if blk < S.geo.disksize then
    set { S with live.free := Function.update S.live.free (blk - S.geo.dataStart) true }
    let free ← addU32 S.blocksfree 1
    modify fun S => { S with blocksfree := free }
  else stuck

def freeExtent (an : Anode) : StoreM Unit :=
  (List.range an.clustersize).forM fun i => do
    let blk ← addU32 an.blocknr i
    freeDataBlock blk

def freeDataBlocks (anodenr : ℕ) : StoreM Unit := do
  let chain ← getChain anodenr
  chain.forM freeExtent

/-! ## Reserved blocks -/

def allocReservedBlock : StoreM ℕ := do
  let S ← get
  match (List.range S.geo.numreserved).find? S.resFree with
  | none => fail (.diskFull "out of reserved blocks")
  | some k =>
      set { S with resFree := Function.update S.resFree k false }
      let free ← subU32 S.reservedFree 1
      modify fun S => { S with reservedFree := free }
      pure (Geometry.blockAt k)

def freeReservedBlock (blk : ℕ) : StoreM Unit := do
  let S ← get
  if S.geo.IsDynamic blk then
    set { S with resFree := Function.update S.resFree ((blk - 2) / 2) true }
    let free ← addU32 S.reservedFree 1
    modify fun S => { S with reservedFree := free }
  else stuck

/-! ## Anodes -/

/-- Register `newBlk`, with empty slots, as the anode block of `seqnr`. -/
def register (seqnr newBlk : ℕ) (S : Store) : Store :=
  { S with
    live.index := Function.update S.live.index seqnr newBlk
    live.slot := fun nr => if nr / 65536 = seqnr then .empty else S.live.slot nr }

def allocAnodeBlock (seqnr : ℕ) : StoreM ℕ := do
  let newBlk ← allocReservedBlock
  let _ ← nextDatestamp
  let S ← get
  if S.Usable newBlk ∧ S.disk.index seqnr = 0 then
    set (setDir newBlk none S)
    if 253 ≤ seqnr then fail (.diskFull "no index block slot available")
    else
      modify (register seqnr newBlk)
      pure newBlk
  else stuck

/-- The first slot of the anode block of `seqnr` that a new anode may take. -/
def freeSlot (m : Meta) (seqnr : ℕ) : Option ℕ :=
  (List.range SLOTS).find? fun off =>
    ANODE_USERFIRST ≤ seqnr * 65536 + off ∧ (m.slot (seqnr * 65536 + off)).IsFree

/-- The loop of `alloc_anode` over sequence numbers. -/
def allocAnodeLoop (clustersize blocknr next : ℕ) : List ℕ → StoreM ℕ
  | [] => fail (.diskFull "no free anode slots")
  | seqnr :: rest => do
      let S ← get
      if S.disk.index seqnr = 0 then
        let newBlk ← allocAnodeBlock seqnr
        let nr := seqnr * 65536 + ANODE_USERFIRST
        let S ← get
        if newBlk = 0 ∨ S.live.index seqnr ≠ newBlk then stuck
        else
          set (setSlot nr (.ofNat clustersize blocknr next) S)
          pure nr
      else
        match freeSlot S.live seqnr with
        | none => allocAnodeLoop clustersize blocknr next rest
        | some off =>
            let nr := seqnr * 65536 + off
            set (setSlot nr (.ofNat clustersize blocknr next) S)
            pure nr

def allocAnode (clustersize blocknr next : ℕ) : StoreM ℕ :=
  allocAnodeLoop clustersize blocknr next (List.range 256)

/-- Allocate the anodes of `clusters` from the last one to the first. -/
def createAnodes : List (ℕ × ℕ) → StoreM ℕ
  | [] => pure ANODE_EOF
  | (start, count) :: rest => do
      let nextNr ← createAnodes rest
      allocAnode count start nextNr

def createAnodeChain (blocks : List ℕ) : StoreM ℕ := createAnodes (Writer.clusters blocks)

/-- Write the 3 fields of a single anode slot. -/
def writeAnodeFields (anodenr clustersize blocknr next : ℕ) : StoreM Unit := do
  let S ← get
  if S.disk.index (anodenr / 65536) = 0 ∨ SLOTS ≤ anodenr % 65536 then stuck
  else set (setSlot anodenr (.ofNat clustersize blocknr next) S)

def clearSingleAnode (anodenr : ℕ) : StoreM Unit := writeAnodeFields anodenr 0 0 0

def clearAnodeChain (anodenr : ℕ) : StoreM Unit := do
  let chain ← getChain anodenr
  chain.forM fun an => clearSingleAnode an.nr

def freeAnodeChainReserved (anodenr : ℕ) : StoreM Unit := do
  let chain ← getChain anodenr
  chain.forM fun an => (List.range an.clustersize).forM fun i => do
    let blk ← addU32 an.blocknr i
    freeReservedBlock blk

def freeAndClearAnodes (anodes : List Anode) : StoreM Unit :=
  anodes.forM fun an => do
    freeExtent an
    clearSingleAnode an.nr

/-- The loop of `truncate_anode_chain` with `remaining` blocks still to keep. -/
def truncateLoop : (remaining : ℕ) → List Anode → StoreM Unit
  | _, [] => pure ()
  | remaining, an :: rest =>
      if remaining = 0 then freeAndClearAnodes (an :: rest)
      else if remaining < an.clustersize then do
        (List.range' remaining (an.clustersize - remaining)).forM fun i => do
          let blk ← addU32 an.blocknr i
          freeDataBlock blk
        writeAnodeFields an.nr remaining an.blocknr ANODE_EOF
        freeAndClearAnodes rest
      else if remaining - an.clustersize = 0 then do
        writeAnodeFields an.nr an.clustersize an.blocknr ANODE_EOF
        freeAndClearAnodes rest
      else truncateLoop (remaining - an.clustersize) rest

def truncateAnodeChain (head keepBlocks : ℕ) : StoreM Unit := do
  let chain ← getChain head
  truncateLoop keepBlocks chain

/-- Append a sub-chain to the tail of an existing anode chain. -/
def appendToAnodeChain (head newHead : ℕ) : StoreM Unit := do
  let chain ← getChain head
  match chain.getLast? with
  | none => fail (.anodeNotFound head)
  | some tail => writeAnodeFields tail.nr tail.clustersize tail.blocknr newHead

/-! ## Directory entries -/

def findDirEntryLoop (name : Name) : List ℕ → StoreM (ℕ × DirBlock × ℕ)
  | [] => fail (.notFound (String.ofList name))
  | blk :: rest => do
      let d ← readDir blk
      match d.entries.findIdx? fun e => nameEqCi e.text name with
      | some i => pure (blk, d, i)
      | none => findDirEntryLoop name rest

/-- Find a directory entry by name: block number, block and position of the entry. -/
def findDirEntry (dirAnode : ℕ) (name : Name) : StoreM (ℕ × DirBlock × ℕ) := do
  let chain ← getChain dirAnode
  findDirEntryLoop name (AnodeReader.chainBlocks chain)

def extendAnodeChain (headAnode newBlk : ℕ) : StoreM Unit := do
  let newAnodenr ← allocAnode 1 newBlk 0
  appendToAnodeChain headAnode newAnodenr

/-- Room for an entry of `size` bytes, the end marker included. -/
def HasRoom (d : DirBlock) (size : ℕ) : Prop := 20 + d.size + size < 1024

instance (d : DirBlock) (size : ℕ) : Decidable (HasRoom d size) :=
  inferInstanceAs (Decidable (_ < _))

/-- The search of `add_dir_entry` for a block with room; `true` when the entry was placed. -/
def addToBlocks (entry : Entry) : List ℕ → StoreM Bool
  | [] => pure false
  | blk :: rest => do
      let d ← readDir blk
      if HasRoom d entry.size then
        let _ ← nextDatestamp
        writeDir blk { d with entries := d.entries ++ [entry] }
        pure true
      else addToBlocks entry rest

def addDirEntry (dirAnode : ℕ) (name : Name) (entryType : ℤ) (anode fsize protection : ℕ) :
    StoreM Unit := do
  let now ← currentAmigaDatestamp
  let entry := Entry.build now name entryType anode fsize protection
  let chain ← getChain dirAnode
  let placed ← addToBlocks entry (AnodeReader.chainBlocks chain)
  if placed then pure ()
  else
    let newBlk ← allocReservedBlock
    let _ ← nextDatestamp
    writeDir newBlk ⟨dirAnode, dirAnode, [entry]⟩
    extendAnodeChain dirAnode newBlk

def removeDirEntry (dirAnode : ℕ) (name : Name) : StoreM Unit := do
  let (blk, d, i) ← findDirEntry dirAnode name
  let _ ← nextDatestamp
  writeDir blk { d with entries := d.entries.eraseIdx i }

/-- Update the fsize (and fsizex) of an existing directory entry in-place. -/
def updateDirEntrySize (dirAnode : ℕ) (name : Name) (newSize : ℕ) : StoreM Unit := do
  let (blk, d, i) ← findDirEntry dirAnode name
  let now ← currentAmigaDatestamp
  let _ ← nextDatestamp
  writeDir blk { d with entries := d.entries.modify i (Entry.setSize newSize now) }

/-! ## Rootblock update -/

/-- The device content after the pending writes. -/
def flush (S : Store) : Store := { S with disk := S.live }

def updateRootblock : StoreM Unit := do
  modify flush
  let ds ← nextDatestamp
  modify fun S => { S with root := ⟨ds, S.blocksfree, S.reservedFree, S.resFree⟩ }

/-! ## File and directory operations -/

/-- Write `data` to the blocks, one sector each. -/
def writeDataBlocks : List ℕ → Bytes → StoreM Unit
  | [], _ => pure ()
  | blk :: rest, data => do
      let S ← get
      if blk < S.geo.dataStart ∨ S.geo.disksize ≤ blk then stuck
      else
        set { S with data := Function.update S.data blk (Sector.ofBytes data) }
        writeDataBlocks rest (data.drop SECTOR_SIZE)

/-- Store `data` in newly allocated blocks and return the head of their anode chain. -/
def storeData (data : Bytes) : StoreM ℕ := do
  let blocks ← allocDataBlocks (Writer.blocksFor data.length % U32)
  writeDataBlocks blocks data
  createAnodeChain blocks

def writeFileInNoCommit (parentAnode : ℕ) (name : Name) (data : Bytes) : StoreM Unit := do
  let anodenr ← storeData data
  addDirEntry parentAnode name ST_FILE anodenr data.length 0

/-- Overwrite an existing file's data in-place, reusing its anode. -/
def overwriteFileIn (parentAnode : ℕ) (name : Name) (fileAnode : ℕ) (data : Bytes) :
    StoreM Unit := do
  let newBlocksNeeded := Writer.blocksFor data.length % U32
  let oldChain ← getChain fileAnode
  let oldTotal := (oldChain.map Anode.clustersize).sum
  if U32 ≤ oldTotal then throw (.raise .panic)
  else
    writeDataBlocks ((AnodeReader.chainBlocks oldChain).take newBlocksNeeded) data
    if newBlocksNeeded ≤ oldTotal then
      truncateAnodeChain fileAnode newBlocksNeeded
    else
      let newBlocks ← allocDataBlocks (newBlocksNeeded - oldTotal)
      writeDataBlocks newBlocks (data.drop (oldTotal * SECTOR_SIZE))
      let newChainHead ← createAnodeChain newBlocks
      appendToAnodeChain fileAnode newChainHead
    updateDirEntrySize parentAnode name data.length
    updateRootblock

/-- Create a file in a directory identified by anode. -/
def writeFileIn (parentAnode : ℕ) (name : Name) (data : Bytes) : StoreM Unit := do
  let create : StoreM Unit := do
    writeFileInNoCommit parentAnode name data
    updateRootblock
  match ← tryOk (findDirEntry parentAnode name) with
  | none => create
  | some (_, d, i) =>
      match d.entries[i]? with
      | none => stuck
      | some e =>
          if e.entryType = ST_FILE ∨ e.entryType = ST_ROLLOVERFILE then
            overwriteFileIn parentAnode name e.anode.toNat data
          else create

/-- Create a directory in a parent identified by anode. -/
def createDirIn (parentAnode : ℕ) (name : Name) : StoreM Unit := do
  let dirBlk ← allocReservedBlock
  let anodenr ← allocAnode 1 dirBlk 0
  let _ ← nextDatestamp
  writeDir dirBlk ⟨anodenr, parentAnode, []⟩
  addDirEntry parentAnode name ST_USERDIR anodenr 0 0
  updateRootblock

/-- Create a softlink by parent anode. -/
def createSoftlinkIn (parentAnode : ℕ) (name target : Name) : StoreM Unit := do
  let data := asBytes target
  let anodenr ← storeData data
  addDirEntry parentAnode name ST_SOFTLINK anodenr data.length 0
  updateRootblock

def writeFile (path : Name) (data : Bytes) : StoreM Unit := do
  let (parentAnode, filename) ← splitPath path
  writeFileIn parentAnode filename data

def createDir (path : Name) : StoreM Unit := do
  let (parentAnode, dirname) ← splitPath path
  createDirIn parentAnode dirname

def createSoftlink (path target : Name) : StoreM Unit := do
  let (parentAnode, name) ← splitPath path
  createSoftlinkIn parentAnode name target

def createHardlink (path : Name) (targetAnode : ℕ) : StoreM Unit := do
  let (parentAnode, name) ← splitPath path
  addDirEntry parentAnode name ST_LINKFILE targetAnode 0 0
  updateRootblock

/-! ### Deletion -/

/-- Delete a file or empty directory by name in a parent directory; there is no deldir. -/
def deleteIn (parentAnode : ℕ) (name : Name) : StoreM Unit := do
  let entries ← listDir parentAnode
  match entries.find? fun e => nameEqCi e.text name with
  | none => fail (.notFound (String.ofList name))
  | some target =>
      let anode := target.anode.toNat
      if target.isDir then
        let sub ← listDir anode
        if sub.isEmpty then
          freeAnodeChainReserved anode
          clearAnodeChain anode
        else fail .notEmpty
      else
        freeDataBlocks anode
        clearAnodeChain anode
      removeDirEntry parentAnode name
      updateRootblock

def delete (path : Name) : StoreM Unit := do
  let (parentAnode, name) ← splitPath path
  deleteIn parentAnode name

/-- Set the volume name: of what the store knows, only the datestamp of the cluster changes. -/
def setVolumeName (name : Name) : StoreM Unit := do
  let _ ← Writer.slicePrefix (min (asBytes name).length 30) name
  let ds ← nextDatestamp
  modify fun S => { S with root.datestamp := ds }

def updateDirEntryProtection (dirAnode : ℕ) (name : Name) (protection : UInt8) : StoreM Unit := do
  let (blk, d, i) ← findDirEntry dirAnode name
  let _ ← nextDatestamp
  writeDir blk { d with entries := d.entries.modify i (Entry.setProtection protection) }
  updateRootblock

def renameIn (srcParent : ℕ) (srcName : Name) (dstParent : ℕ) (dstName : Name) :
    StoreM Unit := do
  let entries ← listDir srcParent
  match entries.find? fun e => nameEqCi e.text srcName with
  | none => fail (.notFound (String.ofList srcName))
  | some entry =>
      let dst ← tryOk (listDir dstParent)
      if (dst.getD []).any fun e => nameEqCi e.text dstName then deleteIn dstParent dstName
      addDirEntry dstParent dstName entry.entryType entry.anode.toNat entry.fileSize
        entry.protection.toNat
      removeDirEntry srcParent srcName
      updateRootblock

/-- Undelete a file from the deldir by index: there is no deldir. -/
def undelete (deldirIdx : ℕ) (_destPath : Name) : StoreM Unit :=
  fail (.notFound s!"deldir index {deldirIdx} out of range")

end Store

end Pfs3
