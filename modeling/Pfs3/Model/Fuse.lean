import Pfs3.Model.Api

/-!
# The FUSE driver

The requests of a read-write mount.  The driver keeps inodes, a name cache and one write buffer
for each inode beside the writer; a request ends with a reply or an error number, and state
changed before an error stays changed.
-/

namespace Pfs3

open ByteList

namespace Fuse

/-! ## Types -/

def FUSE_ROOT_INO : ℕ := 1
def TRASHCAN_INO : ℕ := 2

/-- Offset added to anode numbers to produce FUSE inode numbers. -/
def INODE_ANODE_OFFSET : ℕ := 100

/-- Base inode for deldir entries. -/
def DELDIR_INO_BASE : ℕ := 0x80000000

inductive FileType
  | directory
  | symlink
  | regularFile
  deriving DecidableEq, Repr

structure FileAttr where
  ino : ℕ
  size : ℕ
  blocks : ℕ
  kind : FileType
  deriving DecidableEq, Repr

structure InodeInfo where
  attr : FileAttr
  anode : ℕ
  parentIno : ℕ
  amigaProtection : ℕ
  name : Name

structure DeldirEntry where
  ino : ℕ
  anode : ℕ
  size : ℕ
  displayName : Name

/-- The state behind the driver's lock. -/
structure FsInner where
  access : Writer
  inodes : ℕ → Option InodeInfo
  nameCache : ℕ × Name → Option ℕ
  /-- Parent anode, name and bytes of an inode that is open for writing. -/
  writeBufs : ℕ → Option (ℕ × Name × Bytes)
  deldir : List DeldirEntry

inductive Errno
  | enoent
  | eio
  | eisdir
  | enotdir
  | enotempty
  deriving DecidableEq, Repr

/-- The ways a request ends without a reply: an error number, or a panic. -/
inductive Failure
  | reply (e : Errno)
  | panic
  deriving DecidableEq, Repr

/-- A request handler. -/
abbrev FuseM := EStateM Failure FsInner

/-! ## Helpers -/

/-- A call on the writer, with its result. -/
def library {α : Type} (m : WriterM α) : FuseM (Except Error α) := fun f =>
  match m f.access with
  | .ok a w => .ok (.ok a) { f with access := w }
  | .error (.err e) w => .ok (.error e) { f with access := w }
  | .error .panic w => .error .panic { f with access := w }

/-- A call on the writer; an `Err` is answered with `errno`. -/
def orReply {α : Type} (m : WriterM α) (errno : Errno) : FuseM α := do
  match ← library m with
  | .ok a => pure a
  | .error _ => throw (.reply errno)

def listDir (anode : ℕ) : WriterM (List DirEntry) := Writer.onVol (Volume.listDirByAnode anode)

def hasDeldir (f : FsInner) : Bool := f.access.vol.rootblock.hasFlag MODE_DELDIR

/-- The display names of equal deleted names are numbered. -/
def deldirEntry (entries : List DelDirEntry) (e : DelDirEntry) (i : ℕ) : DeldirEntry where
  ino := DELDIR_INO_BASE + i
  anode := e.anode
  size := e.fsize ||| (e.fsizex <<< 32)
  displayName :=
    let count := ((entries.take i).filter fun e' => nameEqCi e'.filename e.filename).length
    if count = 0 then e.filename else e.filename ++ '.' :: (toString count).toList

def rebuildDeldir : FuseM Unit := do
  let entries := (← library (Writer.onVol Volume.listDeldir)).toOption.getD []
  modify fun f =>
    { f with
      inodes := fun ino => if ino ∈ f.deldir.map DeldirEntry.ino then none else f.inodes ino
      deldir := entries.zipIdx.map fun (e, i) => deldirEntry entries e i }

def trashcanAttr : FileAttr := ⟨TRASHCAN_INO, 0, 0, .directory⟩

def anodeToIno (anode : ℕ) : ℕ :=
  if anode = ANODE_ROOTDIR then FUSE_ROOT_INO else anode + INODE_ANODE_OFFSET

def divCeil (a b : ℕ) : ℕ := (a + b - 1) / b

def makeAttr (entry : DirEntry) (parentIno : ℕ) : ℕ × InodeInfo :=
  let ino := anodeToIno entry.anode
  let kind := if entry.isDir then .directory
    else if entry.isSoftlink then .symlink else .regularFile
  (ino,
    { attr := ⟨ino, entry.fileSize, divCeil entry.fileSize SECTOR_SIZE, kind⟩
      anode := entry.anode
      parentIno := parentIno
      amigaProtection := entry.protection
      name := entry.name })

/-- Mounting: the root directory is known, everything else is looked up. -/
def mount (access : Writer) : FsInner :=
  let root : InodeInfo :=
    { attr := ⟨FUSE_ROOT_INO, 0, 0, .directory⟩
      anode := ANODE_ROOTDIR
      parentIno := FUSE_ROOT_INO
      amigaProtection := 0
      name := [] }
  let inner : FsInner :=
    { access := access
      inodes := Function.update (fun _ => none) FUSE_ROOT_INO (some root)
      nameCache := fun _ => none
      writeBufs := fun _ => none
      deldir := [] }
  match rebuildDeldir inner with
  | .ok _ inner => inner
  | .error _ inner => inner

def insertInode (ino : ℕ) (info : InodeInfo) (f : FsInner) : FsInner :=
  { f with inodes := Function.update f.inodes ino (some info) }

def cacheName (parent : ℕ) (name : Name) (ino : ℕ) (f : FsInner) : FsInner :=
  { f with nameCache := Function.update f.nameCache (parent, name) (some ino) }

def insertBuf (ino : ℕ) (buf : ℕ × Name × Bytes) (f : FsInner) : FsInner :=
  { f with writeBufs := Function.update f.writeBufs ino (some buf) }

def removeBuf (ino : ℕ) (f : FsInner) : FsInner :=
  { f with writeBufs := Function.update f.writeBufs ino none }

/-- Change the cached attributes of an inode, if it is known. -/
def modifyAttr (ino : ℕ) (g : FileAttr → FileAttr) (f : FsInner) : FsInner :=
  { f with
    inodes := Function.update f.inodes ino
      ((f.inodes ino).map fun info => { info with attr := g info.attr }) }

/-- The end of `lookup`, `mkdir` and `create`: inode and name are cached. -/
def remember (parent : ℕ) (name : Name) (entry : DirEntry) : FuseM FileAttr := do
  let (ino, info) := makeAttr entry parent
  modify (insertInode ino info)
  modify (cacheName parent name ino)
  pure info.attr

/-- `Vec::resize(n, 0)`. -/
def resize (buf : Bytes) (n : ℕ) : Bytes := buf.take n ++ List.replicate (n - buf.length) 0

/-- `data` over the bytes of `buf` from `offset` on; a gap before it is filled with zeros. -/
def writeAt (buf : Bytes) (offset : ℕ) (data : Bytes) : Bytes :=
  splice (if buf.length < offset + data.length then resize buf (offset + data.length) else buf)
    offset data

/-! ## Requests -/

/-- A file inside `.Trashcan`. -/
def lookupDeleted (parent : ℕ) (name : Name) : FuseM FileAttr := do
  let f ← get
  match f.deldir.find? fun de => nameEqCi de.displayName name with
  | none => throw (.reply .enoent)
  | some de => do
      let attr : FileAttr := ⟨de.ino, de.size, divCeil de.size 512, .regularFile⟩
      modify (insertInode de.ino ⟨attr, de.anode, TRASHCAN_INO, 0, de.displayName⟩)
      modify (cacheName parent name de.ino)
      pure attr

def lookup (parent : ℕ) (name : Name) : FuseM FileAttr := do
  let f ← get
  if parent = FUSE_ROOT_INO ∧ name = ".Trashcan".toList ∧ hasDeldir f = true then pure trashcanAttr
  else if parent = TRASHCAN_INO ∧ hasDeldir f = true then lookupDeleted parent name
  else
    match (f.nameCache (parent, name)).bind f.inodes with
    | some info => pure info.attr
    | none =>
        match f.inodes parent with
        | none => throw (.reply .enoent)
        | some dir => do
            let entries ← orReply (listDir dir.anode) .eio
            match entries.find? fun e => nameEqCi e.name name with
            | some entry => remember parent name entry
            | none => throw (.reply .enoent)

/-- The inode numbers, kinds and names of a directory, from the first one on. -/
def readdir (ino : ℕ) : FuseM (List (ℕ × FileType × Name)) := do
  let f ← get
  if ino = TRASHCAN_INO ∧ hasDeldir f = true then
    pure ((TRASHCAN_INO, .directory, ['.']) :: (FUSE_ROOT_INO, .directory, ['.', '.']) ::
      f.deldir.map fun de => (de.ino, .regularFile, de.displayName))
  else
    match f.inodes ino with
    | none => throw (.reply .enoent)
    | some dir =>
        if dir.attr.kind ≠ .directory then throw (.reply .enotdir)
        else do
          let entries ← orReply (listDir dir.anode) .eio
          let children := entries.map fun e => makeAttr e ino
          modify fun f => children.foldl (fun f c => insertInode c.1 c.2 f) f
          let trashcan := if ino = FUSE_ROOT_INO ∧ hasDeldir f = true then
            [(TRASHCAN_INO, .directory, ".Trashcan".toList)] else []
          pure ((ino, .directory, ['.']) :: (dir.parentIno, .directory, ['.', '.']) ::
            (children.map fun c => (c.1, c.2.attr.kind, c.2.name)) ++ trashcan)

/-- The flags of `open` that the driver reads. -/
structure OpenFlags where
  wronly : Bool
  rdwr : Bool
  trunc : Bool
  append : Bool
  deriving DecidableEq, Repr

def OpenFlags.isWrite (flags : OpenFlags) : Bool :=
  flags.wronly || flags.rdwr || flags.trunc || flags.append

def «open» (ino : ℕ) (flags : OpenFlags) : FuseM Unit := do
  let f ← get
  match f.inodes ino with
  | none => throw (.reply .enoent)
  | some info =>
      if info.attr.kind = .directory then throw (.reply .eisdir)
      else if flags.isWrite then do
        let parentAnode := (f.inodes info.parentIno).elim ANODE_ROOTDIR InodeInfo.anode
        let data ← if flags.trunc then pure []
          else do
            let data ← library (Writer.onVol (Volume.readFileData info.anode info.attr.size))
            pure (data.toOption.getD [])
        modify (insertBuf ino (parentAnode, info.name, data))
      else pure ()

def read (ino offset size : ℕ) : FuseM Bytes := do
  let f ← get
  match f.inodes ino with
  | none => throw (.reply .enoent)
  | some info =>
      orReply (Writer.onVol (Volume.readFileRange info.anode info.attr.size offset size)) .eio

/-- The anode of a known directory. -/
def directoryAnode (parent : ℕ) : FuseM ℕ := do
  let f ← get
  match f.inodes parent with
  | none => throw (.reply .enoent)
  | some info => if info.attr.kind = .directory then pure info.anode else throw (.reply .enoent)

/-- The entry that a call has just made, read from the directory again. -/
def findNew (parentAnode : ℕ) (name : Name) : FuseM DirEntry := do
  let entries ← orReply (listDir parentAnode) .eio
  match entries.find? fun e => nameEqCi e.name name with
  | some entry => pure entry
  | none => throw (.reply .eio)

def mkdir (parent : ℕ) (name : Name) : FuseM FileAttr := do
  let parentAnode ← directoryAnode parent
  orReply (Writer.createDirIn parentAnode name) .eio
  let entry ← findNew parentAnode name
  remember parent name entry

/-- The anode of a known parent, whatever it is. -/
def parentAnode (parent : ℕ) : FuseM ℕ := do
  let f ← get
  match f.inodes parent with
  | none => throw (.reply .enoent)
  | some info => pure info.anode

/-- The cached name goes, and its inode with it. -/
def forget (parent : ℕ) (name : Name) (f : FsInner) : FsInner :=
  match f.nameCache (parent, name) with
  | none => f
  | some ino =>
      { f with
        nameCache := Function.update f.nameCache (parent, name) none
        inodes := Function.update f.inodes ino none }

def unlink (parent : ℕ) (name : Name) : FuseM Unit := do
  let anode ← parentAnode parent
  orReply (Writer.deleteIn anode name) .eio
  modify (forget parent name)
  rebuildDeldir

def rmdir (parent : ℕ) (name : Name) : FuseM Unit := do
  let anode ← parentAnode parent
  orReply (Writer.deleteIn anode name) .enotempty
  modify (forget parent name)

/-- The cached name moves, and its inode is told. -/
def moveName (parent : ℕ) (name : Name) (newparent : ℕ) (newname : Name) (f : FsInner) : FsInner :=
  match f.nameCache (parent, name) with
  | none => f
  | some ino =>
      let inodes := Function.update f.inodes ino
        ((f.inodes ino).map fun info => { info with name := newname, parentIno := newparent })
      { f with
        inodes := inodes
        nameCache := Function.update (Function.update f.nameCache (newparent, newname) (some ino))
          (parent, name) none }

def rename (parent : ℕ) (name : Name) (newparent : ℕ) (newname : Name) : FuseM Unit := do
  let src ← parentAnode parent
  let dst ← parentAnode newparent
  orReply (Writer.renameIn src name dst newname) .eio
  modify (moveName parent name newparent newname)

def write (ino offset : ℕ) (data : Bytes) : FuseM ℕ := do
  let f ← get
  match f.writeBufs ino with
  | none => throw (.reply .eio)
  | some (parentAnode, name, buf) => do
      let buf := writeAt buf offset data
      modify (insertBuf ino (parentAnode, name, buf))
      modify (modifyAttr ino fun attr => { attr with size := buf.length })
      pure data.length

def create (parent : ℕ) (name : Name) : FuseM FileAttr := do
  let parentAnode ← directoryAnode parent
  orReply (Writer.writeFileIn parentAnode name []) .eio
  let entry ← findNew parentAnode name
  let attr ← remember parent name entry
  modify (insertBuf attr.ino (parentAnode, name, []))
  pure attr

def release (ino : ℕ) : FuseM Unit := do
  let f ← get
  modify (removeBuf ino)
  match f.writeBufs ino with
  | none => pure ()
  | some (parentAnode, name, data) =>
      if data = [] then pure ()
      else
        let fileAnode := (f.inodes ino).elim 0 InodeInfo.anode
        if fileAnode = 0 then pure ()
        else
          match ← library (Writer.overwriteFileIn parentAnode name fileAnode data) with
          | .error _ => do
              modify (insertBuf ino (parentAnode, name, data))
              throw (.reply .eio)
          | .ok _ => modify (modifyAttr ino fun attr =>
              { attr with size := data.length, blocks := divCeil data.length SECTOR_SIZE })

/-- `setattr` with a size and nothing else. -/
def setattr (ino size : ℕ) : FuseM FileAttr := do
  modify (modifyAttr ino fun attr => { attr with size := size })
  let f ← get
  match f.writeBufs ino with
  | none => pure ()
  | some (parentAnode, name, buf) => modify (insertBuf ino (parentAnode, name, resize buf size))
  let f ← get
  match f.inodes ino with
  | none => throw (.reply .enoent)
  | some info => pure info.attr

end Fuse

end Pfs3
