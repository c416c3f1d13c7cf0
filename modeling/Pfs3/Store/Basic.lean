import Pfs3.Lib.Sim
import Pfs3.Model.Format

/-!
# The structured store

What a small-mode volume with 1 KiB reserved blocks means, without its bytes: an anode table,
directory blocks as lists of entries, bitmaps as predicates.  `Meta` is the content of the
reserved area, seen on the device or through the queue of pending writes; its readers are
pure.  Reading something that the structure does not describe is *stuck*.
-/

namespace Pfs3

open ByteList

/-! ## Geometry -/

/-- Number of bitmap blocks for the given number of data blocks. -/
def bitmapBlocks (dataBlocks : ℕ) : ℕ := (dataBlocks + 8095) / 8096

/-- Number of bitmap index blocks. -/
def bitmapIndexBlocks (dataBlocks : ℕ) : ℕ := (bitmapBlocks dataBlocks + 252) / 253

/-- The layout of a small-mode volume: `resbm` KiB of rootblock cluster, then extension,
bitmap blocks, bitmap index blocks and the anode index block, all in the reserved area of
`numreserved` blocks of two sectors behind the boot block. -/
structure Geometry where
  numreserved : ℕ
  resbm : ℕ
  disksize : ℕ
  /-- The reserved bitmap has whole words, and the cluster has room for them. -/
  dvd : 32 ∣ numreserved
  words : numreserved / 32 + 131 ≤ 256 * resbm
  /-- There is a data area. -/
  data : 2 * numreserved + 2 < disksize
  layout : resbm + bitmapBlocks (disksize - (2 * numreserved + 2)) +
    bitmapIndexBlocks (disksize - (2 * numreserved + 2)) + 4 ≤ numreserved
  small : disksize ≤ Format.MAXSMALLDISK

namespace Geometry

variable (g : Geometry)

/-- The `k`-th reserved block. -/
def blockAt (k : ℕ) : ℕ := 2 + k * 2

/-- First block of the data area: `lastreserved + 1`. -/
def dataStart : ℕ := 2 * g.numreserved + 2

def dataBlocks : ℕ := g.disksize - g.dataStart

def noBmb : ℕ := bitmapBlocks g.dataBlocks

def noBmi : ℕ := bitmapIndexBlocks g.dataBlocks

def rext : ℕ := blockAt g.resbm

def bm (i : ℕ) : ℕ := blockAt (g.resbm + 1 + i)

def bmi (i : ℕ) : ℕ := blockAt (g.resbm + 1 + g.noBmb + i)

def anidx : ℕ := blockAt (g.resbm + 1 + g.noBmb + g.noBmi)

/-- Number of reserved blocks with a fixed use. -/
def base : ℕ := g.resbm + 2 + g.noBmb + g.noBmi

/-- The reserved blocks that are allocated and freed. -/
def IsDynamic (blk : ℕ) : Prop := ∃ k, g.base ≤ k ∧ k < g.numreserved ∧ blk = blockAt k

instance (blk : ℕ) : Decidable (g.IsDynamic blk) :=
  decidable_of_iff (g.base ≤ (blk - 2) / 2 ∧ (blk - 2) / 2 < g.numreserved ∧
      blk = blockAt ((blk - 2) / 2)) <| by
    constructor
    · rintro ⟨h₁, h₂, h₃⟩
      exact ⟨_, h₁, h₂, h₃⟩
    · rintro ⟨k, h₁, h₂, rfl⟩
      have hk : (blockAt k - 2) / 2 = k := by simp only [blockAt]; omega
      rw [hk]
      exact ⟨h₁, h₂, rfl⟩

end Geometry

/-! ## Anodes and entries -/

/-- Number of anodes of an anode block. -/
def SLOTS : ℕ := 84

/-- One slot of the anode table. -/
structure Slot where
  clustersize : UInt32
  blocknr : UInt32
  next : UInt32
  deriving DecidableEq

namespace Slot

def empty : Slot := ⟨0, 0, 0⟩

def ofNat (clustersize blocknr next : ℕ) : Slot :=
  ⟨UInt32.ofNat clustersize, UInt32.ofNat blocknr, UInt32.ofNat next⟩

/-- A slot that `alloc_anode` may hand out. -/
def IsFree (s : Slot) : Prop := s.clustersize = 0 ∧ s.blocknr = 0

instance (s : Slot) : Decidable s.IsFree := inferInstanceAs (Decidable (_ ∧ _))

/-- The anode read from the slot. -/
def anode (s : Slot) (nr : ℕ) : Anode :=
  ⟨s.clustersize.toNat, s.blocknr.toNat, s.next.toNat, nr⟩

end Slot

/-- A directory entry as this library writes it: no comment, and no extra field but an
optional `fsizex`. -/
structure Entry where
  type : UInt8
  anode : UInt32
  fsize : UInt32
  fsizex : Option UInt16
  day : UInt16
  minute : UInt16
  tick : UInt16
  protection : UInt8
  name : Bytes
  name_le : name.length ≤ 107

namespace Entry

/-- The entry written by `build_dir_entry`. -/
def build (now : Datestamp) (name : Name) (entryType : ℤ) (anode fsize protection : ℕ) : Entry where
  type := UInt8.ofNat (entryType % 256).toNat
  anode := UInt32.ofNat anode
  fsize := UInt32.ofNat fsize
  fsizex := if 0 < fsize / U32 % 65536 then some (UInt16.ofNat (fsize / U32)) else none
  day := UInt16.ofNat now.day
  minute := UInt16.ofNat now.minute
  tick := UInt16.ofNat now.tick
  protection := UInt8.ofNat protection
  name := (asBytes name).take 107
  name_le := by simp

/-- The name as it is read back. -/
def text (e : Entry) : Name := latin1ToString e.name

/-- The type as the signed byte it is read as. -/
def entryType (e : Entry) : ℤ :=
  if e.type.toNat < 128 then (e.type.toNat : ℤ) else (e.type.toNat : ℤ) - 256

def isDir (e : Entry) : Bool := e.entryType == ST_USERDIR

/-- The size as it is read back. -/
def fileSize (e : Entry) : ℕ := e.fsize.toNat ||| ((e.fsizex.map UInt16.toNat).getD 0 <<< 32)

/-- Length in the directory block, always even. -/
def size (e : Entry) : ℕ :=
  (18 + e.name.length + 1 + (if e.fsizex.isSome then 4 else 2) + 1) / 2 * 2

/-- The entry after `update_dir_entry_size`. -/
def setSize (newSize : ℕ) (now : Datestamp) (e : Entry) : Entry :=
  { e with
    fsize := UInt32.ofNat newSize
    fsizex := e.fsizex.map fun _ => UInt16.ofNat (newSize / U32)
    day := UInt16.ofNat now.day
    minute := UInt16.ofNat now.minute
    tick := UInt16.ofNat now.tick }

/-- The entry after `update_dir_entry_protection`. -/
def setProtection (protection : UInt8) (e : Entry) : Entry := { e with protection }

/-- What the readers return for the entry. -/
def toDirEntry (e : Entry) : DirEntry where
  entrySize := e.size
  entryType := e.entryType
  anode := e.anode.toNat
  fsize := e.fsize.toNat
  creationDay := e.day.toNat
  creationMinute := e.minute.toNat
  creationTick := e.tick.toNat
  protection := e.protection.toNat
  name := e.text
  comment := []
  extra := { fsizex := (e.fsizex.map UInt16.toNat).getD 0 }

end Entry

/-- A directory block: the header fields and the entries in order. -/
structure DirBlock where
  anodenr : ℕ
  parent : ℕ
  entries : List Entry

/-- Bytes taken by the entries. -/
def DirBlock.size (d : DirBlock) : ℕ := (d.entries.map Entry.size).sum

/-! ## The reserved area -/

/-- Content of the reserved area.  `index` gives the anode block of a sequence number (0 =
none), `slot` the anode of a number, `free` the data blocks that the bitmap shows as free,
counted from the start of the data area. -/
structure Meta where
  index : ℕ → ℕ
  slot : ℕ → Slot
  dir : ℕ → Option DirBlock
  free : ℕ → Bool

/-- A reader of the structured store. -/
abbrev Reader := Except (Stop Fault)

/-- `Err(e)` as the result of a reader. -/
def Reader.fail {α : Type} (e : Error) : Reader α := .error (.raise (.err e))

namespace Meta

/-- Look up a single anode by number. -/
def getAnode (m : Meta) (nr : ℕ) : Reader Anode :=
  if m.index (nr / 65536) = 0 ∨ SLOTS ≤ nr % 65536 then Reader.fail (.anodeNotFound nr)
  else .ok ((m.slot nr).anode nr)

/-- The loop of `get_chain`. -/
def getChainLoop (m : Meta) : (n : ℕ) → (seen : List ℕ) → (nr : ℕ) → Reader (List Anode)
  | 0, seen, nr =>
      if nr = ANODE_EOF then pure []
      else if nr ∈ seen then Reader.fail (.invalidPartition s!"anode cycle at {nr}")
      else Reader.fail (.invalidPartition "anode chain too long")
  | n + 1, seen, nr =>
      if nr = ANODE_EOF then pure []
      else if nr ∈ seen then Reader.fail (.invalidPartition s!"anode cycle at {nr}")
      else do
        let an ← m.getAnode nr
        let rest ← getChainLoop m n (nr :: seen) an.next
        pure (an :: rest)

def getChain (m : Meta) (nr : ℕ) : Reader (List Anode) := m.getChainLoop MAX_CHAIN_LEN [] nr

/-- The directory block `blk`. -/
def readDir (m : Meta) (blk : ℕ) : Reader DirBlock :=
  match m.dir blk with
  | some d => .ok d
  | none => .error .stuck

/-- The entries of the given directory blocks. -/
def listBlocks (m : Meta) : List ℕ → Reader (List Entry)
  | [] => pure []
  | blk :: rest => do
      let d ← m.readDir blk
      let tail ← listBlocks m rest
      pure (d.entries ++ tail)

/-- List all entries of a directory given its anode number. -/
def listEntries (m : Meta) (dirAnode : ℕ) : Reader (List Entry) := do
  let chain ← m.getChain dirAnode
  m.listBlocks (AnodeReader.chainBlocks chain)

/-- Look up a single name in a directory. -/
def lookup (m : Meta) (dirAnode : ℕ) (name : Name) : Reader Entry := do
  let entries ← m.listEntries dirAnode
  match entries.find? fun e => nameEqCi e.text name with
  | some e => pure e
  | none => Reader.fail (.notFound (String.ofList name))

/-- The last component of a path: `NotFound` is no error. -/
def lookupLast (m : Meta) (dirAnode : ℕ) (name : Name) : Reader (Option Entry) :=
  match m.lookup dirAnode name with
  | .ok entry => .ok (some entry)
  | .error (.raise (.err (.notFound _))) => .ok none
  | .error f => .error f

/-- The loop of `resolve_path` over the remaining components. -/
def resolveParts (m : Meta) : (dirAnode : ℕ) → List Name → Reader (Option Entry)
  | _, [] => pure none
  | dirAnode, [part] => m.lookupLast dirAnode part
  | dirAnode, part :: rest => do
      let entry ← m.lookup dirAnode part
      if entry.isDir then resolveParts m entry.anode.toNat rest else Reader.fail .notADirectory

/-- The loop of `resolve_dir_path` over the remaining components. -/
def resolveDirParts (m : Meta) : (dirAnode : ℕ) → List Name → Reader ℕ
  | dirAnode, [] => pure dirAnode
  | dirAnode, part :: rest => do
      let entry ← m.lookup dirAnode part
      if entry.isDir then resolveDirParts m entry.anode.toNat rest
      else Reader.fail .notADirectory

end Meta

/-- The block loop of `read_file_data` over the data area. -/
def readData (g : Geometry) (data : ℕ → Sector) : List ℕ → (remaining : ℕ) → Reader Bytes
  | [], _ => pure []
  | blk :: rest, remaining =>
      if remaining = 0 then pure []
      else if blk < g.dataStart ∨ g.disksize ≤ blk then .error .stuck
      else do
        let chunk := min remaining SECTOR_SIZE
        let tail ← readData g data rest (remaining - chunk)
        pure ((data blk).val.take chunk ++ tail)

namespace Meta

/-- Read file data by anode number and known size. -/
def readFileData (m : Meta) (g : Geometry) (data : ℕ → Sector) (anodenr size : ℕ) :
    Reader Bytes := do
  let chain ← m.getChain anodenr
  readData g data (AnodeReader.chainBlocks chain) size

/-- Look up a directory entry by path. Returns `none` for root. -/
def lookupPath (m : Meta) (path : Name) : Reader (Option Entry) :=
  m.resolveParts ANODE_ROOTDIR (pathParts path)

/-- Read a file's contents by path. -/
def readFile (m : Meta) (g : Geometry) (data : ℕ → Sector) (path : Name) : Reader Bytes := do
  match ← m.lookupPath path with
  | none => Reader.fail (.notFound (String.ofList path))
  | some entry =>
      if entry.isDir then Reader.fail .notADirectory
      else m.readFileData g data entry.anode.toNat entry.fileSize

/-- Resolve a path to a directory anode number. -/
def resolveDirPath (m : Meta) (path : Name) : Reader ℕ :=
  m.resolveDirParts ANODE_ROOTDIR (pathParts path)

/-- List directory entries at the given path. -/
def listDir (m : Meta) (path : Name) : Reader (List Entry) := do
  let dirAnode ← m.resolveDirPath path
  m.listEntries dirAnode

end Meta

end Pfs3
