import Mathlib.Data.List.DropRight
import Pfs3.Model.Error

/-!
# On-disk structures

Constants, anodes, directory entries, deldir entries, the rootblock and its extension, with
the parsers of `ondisk/` and the name helpers of `util.rs`.  All integers are big-endian.
A name is a list of Unicode characters (`str`), stored as the bytes of its UTF-8 form and
read back byte by byte as Latin-1.
-/

namespace Pfs3

open ByteList

/-! ## Names -/

/-- A Rust string. -/
abbrev Name := List Char

/-- `str::as_bytes`. -/
def asBytes (s : Name) : Bytes := s.flatMap String.utf8EncodeChar

/-- Convert Latin-1 (ISO 8859-1) bytes to a string. -/
def latin1ToString (data : Bytes) : Name := data.map fun b => Char.ofNat b.toNat

/-- Case-insensitive comparison for Amiga filenames (`eq_ignore_ascii_case`). -/
def nameEqCi (a b : Name) : Bool := a.map Char.toLower == b.map Char.toLower

/-- An Amiga datestamp (days, minutes, ticks). -/
structure Datestamp where
  day : ℕ
  minute : ℕ
  tick : ℕ
  deriving DecidableEq, Repr

/-! ## Constants -/

def DBLKID : ℕ := 0x4442
def ABLKID : ℕ := 0x4142
def IBLKID : ℕ := 0x4942
def BMBLKID : ℕ := 0x424D
def BMIBLKID : ℕ := 0x4D49
def DELDIRID : ℕ := 0x4444
def EXTENSIONID : ℕ := 0x4558

def MODE_HARDDISK : ℕ := 1
def MODE_SPLITTED_ANODES : ℕ := 2
def MODE_DIR_EXTENSION : ℕ := 4
def MODE_DELDIR : ℕ := 8
def MODE_SIZEFIELD : ℕ := 16
def MODE_EXTENSION : ℕ := 32
def MODE_DATESTAMP : ℕ := 64
def MODE_SUPERINDEX : ℕ := 128
def MODE_EXTROVING : ℕ := 512
def MODE_LONGFN : ℕ := 1024

def MAXSMALLBITMAPINDEX : ℕ := 4
def MAXBITMAPINDEX : ℕ := 103
def MAXSMALLINDEXNR : ℕ := 98
def MAXSUPER : ℕ := 15

def ANODE_EOF : ℕ := 0
def ANODE_ROOTDIR : ℕ := 5
def ANODE_USERFIRST : ℕ := 6

def ROOTBLOCK : ℕ := 2

/-- Standard Amiga sector size in bytes: the block size of every device modelled here. -/
def SECTOR_SIZE : ℕ := 512

def ID_PFS_DISK : ℕ := 0x50465301

/-- All recognized PFS3 disk type IDs. -/
def PFS_TYPES : List ℕ := [ID_PFS_DISK, 0x50465302, 0x41465301, 0x6D754146, 0x6D755046]

def ST_FILE : ℤ := -3
def ST_USERDIR : ℤ := 2
def ST_SOFTLINK : ℤ := 3
def ST_LINKFILE : ℤ := -4
def ST_ROLLOVERFILE : ℤ := -16

def ANODE_SIZE : ℕ := 12
def ANODE_BLOCK_HEADER_SIZE : ℕ := 16
def INDEX_BLOCK_HEADER_SIZE : ℕ := 12
def BITMAP_BLOCK_HEADER_SIZE : ℕ := 12
def DIR_BLOCK_HEADER_SIZE : ℕ := 20
def DELDIR_HEADER_SIZE : ℕ := 32
def DELDIR_ENTRY_SIZE : ℕ := 32

def RB_OFF_OPTIONS : ℕ := 0x04
def RB_OFF_DATESTAMP : ℕ := 0x08
def RB_OFF_DISKNAME : ℕ := 0x14
def RB_OFF_LASTRESERVED : ℕ := 0x34
def RB_OFF_FIRSTRESERVED : ℕ := 0x38
def RB_OFF_RESERVED_FREE : ℕ := 0x3C
def RB_OFF_RESERVED_BLKSIZE : ℕ := 0x40
def RB_OFF_RBLKCLUSTER : ℕ := 0x42
def RB_OFF_BLOCKSFREE : ℕ := 0x44
def RB_OFF_ALWAYSFREE : ℕ := 0x48
def RB_OFF_DISKSIZE : ℕ := 0x54
def RB_OFF_EXTENSION : ℕ := 0x58
def RB_OFF_INDEX_UNION : ℕ := 0x60

/-! ## Anodes -/

/-- A single anode (extent descriptor): block range + next pointer, with its number. -/
structure Anode where
  clustersize : ℕ
  blocknr : ℕ
  next : ℕ
  nr : ℕ
  deriving DecidableEq, Repr

/-- The three fields of the anode slot at byte `base` of an anode block. -/
def Anode.parse (data : Bytes) (base nr : ℕ) : Anode where
  clustersize := be32 data base
  blocknr := be32 data (base + 4)
  next := be32 data (base + 8)
  nr := nr

/-! ## Directory entries -/

/-- Extra fields appended after name+comment in a directory entry. -/
structure ExtraFields where
  link : ℕ := 0
  uid : ℕ := 0
  gid : ℕ := 0
  prot : ℕ := 0
  virtualsize : ℕ := 0
  rollpointer : ℕ := 0
  fsizex : ℕ := 0
  deriving DecidableEq, Repr

/-- Directory block header (20 bytes). -/
structure DirBlockHeader where
  id : ℕ
  datestamp : ℕ
  anodenr : ℕ
  parent : ℕ
  deriving DecidableEq, Repr

def DirBlockHeader.parse (data : Bytes) : Except Fault DirBlockHeader :=
  if data.length < 0x14 then .error (.err (.tooShort "dir block header"))
  else if be16 data 0 ≠ DBLKID then
    .error (.err (.badBlockId "dir block" DBLKID (be16 data 0)))
  else
    .ok {
      id := be16 data 0
      datestamp := be32 data 4
      anodenr := be32 data 0x0C
      parent := be32 data 0x10 }

/-- Variable-length directory entry. -/
structure DirEntry where
  entrySize : ℕ
  entryType : ℤ
  anode : ℕ
  fsize : ℕ
  creationDay : ℕ
  creationMinute : ℕ
  creationTick : ℕ
  protection : ℕ
  name : Name
  comment : Name
  extra : ExtraFields
  deriving DecidableEq, Repr

namespace DirEntry

/-- One optional field of the extra area: present when `flag` is set in `flags` and the
field ends inside the entry. -/
def takeField (raw : Bytes) (flags flag width pos : ℕ) : Option ℕ × ℕ :=
  if flags &&& flag ≠ 0 ∧ pos + width ≤ raw.length then
    (some (if width = 4 then be32 raw pos else be16 raw pos), pos + width)
  else (none, pos)

def parseExtrafields (raw : Bytes) (nlength : ℕ) : ExtraFields :=
  let nameEnd := 18 + nlength
  if raw.length ≤ nameEnd then {} else
    let clen := (raw.getD nameEnd 0).toNat
    let start := nameEnd + 1 + clen
    let fieldStart := if start % 2 ≠ 0 then start + 1 else start
    if raw.length < fieldStart + 2 then {} else
      let flags := be16 raw fieldStart
      let (link, pos) := takeField raw flags 0x0001 4 (fieldStart + 2)
      let (uid, pos) := takeField raw flags 0x0002 2 pos
      let (gid, pos) := takeField raw flags 0x0004 2 pos
      let (prot, pos) := takeField raw flags 0x0008 4 pos
      let (virtualsize, pos) := takeField raw flags 0x0010 4 pos
      let (rollpointer, pos) := takeField raw flags 0x0020 4 pos
      let (fsizex, _) := takeField raw flags 0x0040 2 pos
      { link := link.getD 0, uid := uid.getD 0, gid := gid.getD 0, prot := prot.getD 0,
        virtualsize := virtualsize.getD 0, rollpointer := rollpointer.getD 0,
        fsizex := fsizex.getD 0 }

/-- The entry held by the `entry_size` bytes `raw`. -/
def ofRaw (raw : Bytes) : DirEntry :=
  let nlength := (raw.getD 17 0).toNat
  let ty := (raw.getD 1 0).toNat
  let clen := (raw.getD (18 + nlength) 0).toNat
  { entrySize := (raw.getD 0 0).toNat
    entryType := if ty < 128 then (ty : ℤ) else (ty : ℤ) - 256
    anode := be32 raw 2
    fsize := be32 raw 6
    creationDay := be16 raw 10
    creationMinute := be16 raw 12
    creationTick := be16 raw 14
    protection := (raw.getD 16 0).toNat
    name := latin1ToString ((raw.drop 18).take nlength)
    comment :=
      if 18 + nlength < raw.length ∧ 18 + nlength + 1 + clen ≤ raw.length then
        latin1ToString ((raw.drop (18 + nlength + 1)).take clen)
      else []
    extra := parseExtrafields raw nlength }

/-- Parse one direntry from `data` at `offset`.
Returns the entry and the next offset, or `none` if end/invalid. -/
def parse (data : Bytes) (offset : ℕ) : Option (DirEntry × ℕ) :=
  if data.length ≤ offset then none else
    let entrySize := (data.getD offset 0).toNat
    if entrySize = 0 then none
    else if data.length < offset + entrySize ∨ entrySize < 18 then none
    else some (ofRaw ((data.drop offset).take entrySize), offset + entrySize)

def isDir (e : DirEntry) : Bool := e.entryType == ST_USERDIR

def isSoftlink (e : DirEntry) : Bool := e.entryType == ST_SOFTLINK

/-- Full file size including extended bits 32-47. -/
def fileSize (e : DirEntry) : ℕ := e.fsize ||| (e.extra.fsizex <<< 32)

end DirEntry

/-! ## Deldir entries -/

/-- Deleted directory entry (fixed 32 bytes). -/
structure DelDirEntry where
  anode : ℕ
  fsize : ℕ
  fsizex : ℕ
  creationDay : ℕ
  creationMinute : ℕ
  creationTick : ℕ
  filename : Name
  deriving DecidableEq, Repr

/-- Parse a deldir entry from 32 bytes. Returns `none` if slot is empty. -/
def DelDirEntry.parse (data : Bytes) : Option DelDirEntry :=
  if data.length < 32 then none
  else if be32 data 0 = 0 then none
  else some
    { anode := be32 data 0
      fsize := be32 data 4
      creationDay := be16 data 8
      creationMinute := be16 data 10
      creationTick := be16 data 12
      filename := (latin1ToString ((data.drop 14).take 16)).rdropWhile (· = '\x00')
      fsizex := be16 data 30 }

def DelDirEntry.fileSize (e : DelDirEntry) : ℕ := e.fsize ||| (e.fsizex <<< 32)

/-- Number of deldir entries that fit in one reserved block. -/
def deldirEntriesPerBlock (reservedBlksize : ℕ) : ℕ :=
  (reservedBlksize - DELDIR_HEADER_SIZE) / DELDIR_ENTRY_SIZE

/-! ## Rootblock -/

structure Rootblock where
  disktype : ℕ
  options : ℕ
  datestamp : ℕ
  diskname : Name
  lastreserved : ℕ
  firstreserved : ℕ
  reservedFree : ℕ
  reservedBlksize : ℕ
  rblkcluster : ℕ
  blocksfree : ℕ
  alwaysfree : ℕ
  disksize : ℕ
  extension : ℕ
  /-- Bitmap index block pointers (small: 5, large: 104). -/
  bitmapindex : List ℕ
  /-- Anode index block pointers (small mode only, up to 99). -/
  indexblocks : List ℕ
  deriving DecidableEq, Repr

/-- Up to `n` big-endian words from `off` on, as far as they lie inside `data`. -/
def readWords (data : Bytes) (off n : ℕ) : List ℕ := (beWords (data.drop off)).take n

def Rootblock.parse (data : Bytes) : Except Fault Rootblock :=
  if data.length < RB_OFF_INDEX_UNION then .error (.err (.tooShort "rootblock"))
  else if be32 data 0 ∉ PFS_TYPES then .error (.err (.badMagic "rootblock" (be32 data 0)))
  else
    let options := be32 data RB_OFF_OPTIONS
    let namelen := min (data.getD RB_OFF_DISKNAME 0).toNat 31
    let large := options &&& MODE_SUPERINDEX ≠ 0
    .ok
      { disktype := be32 data 0
        options := options
        datestamp := be32 data RB_OFF_DATESTAMP
        diskname := latin1ToString ((data.drop (RB_OFF_DISKNAME + 1)).take namelen)
        lastreserved := be32 data RB_OFF_LASTRESERVED
        firstreserved := be32 data RB_OFF_FIRSTRESERVED
        reservedFree := be32 data RB_OFF_RESERVED_FREE
        reservedBlksize := be16 data RB_OFF_RESERVED_BLKSIZE
        rblkcluster := be16 data RB_OFF_RBLKCLUSTER
        blocksfree := be32 data RB_OFF_BLOCKSFREE
        alwaysfree := be32 data RB_OFF_ALWAYSFREE
        disksize := be32 data RB_OFF_DISKSIZE
        extension := be32 data RB_OFF_EXTENSION
        bitmapindex :=
          readWords data RB_OFF_INDEX_UNION
            (if large then MAXBITMAPINDEX + 1 else MAXSMALLBITMAPINDEX + 1)
        indexblocks :=
          if large then []
          else readWords data (RB_OFF_INDEX_UNION + (MAXSMALLBITMAPINDEX + 1) * 4)
            (MAXSMALLINDEXNR + 1) }

namespace Rootblock

def hasFlag (rb : Rootblock) (flag : ℕ) : Bool := rb.options &&& flag != 0

/-- Number of u32 index entries per reserved block. -/
def indexPerBlock (rb : Rootblock) : ℕ := rb.reservedBlksize / 4 - 3

/-- Number of anodes that fit in one reserved block. -/
def anodesPerBlock (rb : Rootblock) : ℕ :=
  (rb.reservedBlksize - ANODE_BLOCK_HEADER_SIZE) / ANODE_SIZE

def isLarge (rb : Rootblock) : Bool := rb.hasFlag MODE_SUPERINDEX

def hasExtension (rb : Rootblock) : Bool := rb.hasFlag MODE_EXTENSION && rb.extension != 0

def isSplittedAnodes (rb : Rootblock) : Bool := rb.hasFlag MODE_SPLITTED_ANODES

end Rootblock

/-- Rootblock extension — additional metadata for PFS3 v2+. -/
structure RootblockExt where
  id : ℕ
  fnsize : ℕ
  superindex : List ℕ
  deldirblocks : List ℕ
  deriving DecidableEq, Repr

def RootblockExt.parse (data : Bytes) : Except Fault RootblockExt :=
  if data.length < 0x40 then .error (.err (.tooShort "rootblock extension"))
  else if be16 data 0 ≠ EXTENSIONID then
    .error (.err (.badBlockId "rootblock extension" EXTENSIONID (be16 data 0)))
  else .ok
    { id := be16 data 0
      fnsize := if be16 data 0x38 = 0 then 32 else be16 data 0x38
      superindex := readWords data 0x40 (MAXSUPER + 1)
      deldirblocks := readWords data 0x90 32 }

end Pfs3
