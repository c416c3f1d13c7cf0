import Pfs3.Model.Volume

/-!
# Commands that walk the tree

`pfs3 check` (the scan of `check.rs`) and `pfs3 extract`.  Both recurse over directories and
bound the recursion by the number of slashes in a display path, so their models take the
number of calls that may nest and stop with `deeper` when a call nests further.  What the
commands print is left out.
-/

namespace Pfs3

open ByteList

/-- Directories nest at most this deep. -/
def MAX_DIR_DEPTH : ℕ := 128

def DirEntry.isFile (e : DirEntry) : Bool :=
  decide (e.entryType < 0) && e.entryType != ST_ROLLOVERFILE

/-- Join a parent path and a filename with a single '/'. -/
def joinPfs3Path (parent name : Name) : Name :=
  if parent.getLast? = some '/' then parent ++ name else parent ++ '/' :: name

/-- How a walk ends early: a call nests deeper than allowed for, an error, or a panic. -/
inductive WalkStop
  | deeper
  | fault (f : Fault)

/-- Walk an anode chain and return all data block numbers. For fsck. -/
def Volume.validateAnodeChain (anodenr : ℕ) : VolumeM (List ℕ) := do
  let chain ← Volume.getAnodeChain anodenr
  pure (AnodeReader.chainBlocks chain)

/-! ## Check -/

namespace Check

/-- Findings of a check (`CheckCtx`); `usedBlocks` maps a block to the path that claims it. -/
structure Ctx where
  errors : ℕ := 0
  warnings : ℕ := 0
  files : ℕ := 0
  dirs : ℕ := 0
  usedBlocks : List (ℕ × Name) := []
  usedAnodes : List ℕ := []
  /-- Files to remove during repair: (parent_anode, name). -/
  brokenFiles : List (ℕ × Name) := []
  /-- Files with wrong size: (parent_anode, name, correct_size). -/
  wrongSize : List (ℕ × Name × ℕ) := []
  correctBlocksfree : Option ℕ := none
  correctReservedFree : Option ℕ := none

namespace Ctx

def error (c : Ctx) : Ctx := { c with errors := c.errors + 1 }

def warning (c : Ctx) : Ctx := { c with warnings := c.warnings + 1 }

/-- One block of `record_blocks`. -/
def recordBlock (owner : Name) (c : Ctx) (b : ℕ) : Ctx :=
  let c' := { c with usedBlocks := (b, owner) :: c.usedBlocks.filter fun p => p.1 != b }
  if (c.usedBlocks.lookup b).isSome then c'.error else c'

def recordBlocks (blocks : List ℕ) (owner : Name) (c : Ctx) : Ctx :=
  blocks.foldl (recordBlock owner) c

def insertAnodes (chain : List Anode) (c : Ctx) : Ctx :=
  { c with usedAnodes := chain.foldl (fun used an => an.nr :: used.erase an.nr) c.usedAnodes }

end Ctx

/-- A volume under check. -/
structure Scan where
  vol : Volume
  ctx : Ctx

abbrev ScanM := EStateM WalkStop Scan

/-- Update the findings. -/
def note (f : Ctx → Ctx) : ScanM Unit := modify fun s => { s with ctx := f s.ctx }

/-- A call on the volume, as a `Result`. -/
def ask {α : Type} (m : VolumeM α) : ScanM (Except Error α) := fun s =>
  match m s.vol with
  | .ok a vol => .ok (.ok a) { s with vol }
  | .error (.err e) vol => .ok (.error e) { s with vol }
  | .error .panic vol => .error (.fault .panic) { s with vol }

def recordAnodeChain (anodenr : ℕ) : ScanM Unit := do
  match ← ask (Volume.getAnodeChain anodenr) with
  | .ok chain => note (Ctx.insertAnodes chain)
  | .error _ => pure ()

/-- The body of the loop of `scan_dir`; `scanSub` is the nested call. -/
def scanEntry (scanSub : ℕ → Name → ScanM Unit) (dirAnode : ℕ) (path : Name) (entry : DirEntry) :
    ScanM Unit := do
  let entryPath := joinPfs3Path path entry.name
  if entry.isDir then
    note fun c => { c with dirs := c.dirs + 1 }
    match ← ask (Volume.validateAnodeChain entry.anode) with
    | .ok blocks =>
        note (Ctx.recordBlocks blocks entryPath)
        recordAnodeChain entry.anode
        scanSub entry.anode entryPath
    | .error _ =>
        note Ctx.error
        note fun c => { c with brokenFiles := c.brokenFiles ++ [(dirAnode, entry.name)] }
  else if entry.isFile || entry.entryType == ST_ROLLOVERFILE then
    note fun c => { c with files := c.files + 1 }
    match ← ask (Volume.validateAnodeChain entry.anode) with
    | .ok blocks =>
        note fun c =>
          if blocks.length < (entry.fileSize + SECTOR_SIZE - 1) / SECTOR_SIZE ∧ 0 < entry.fileSize
          then
            { c.warning with
              wrongSize := c.wrongSize ++ [(dirAnode, entry.name, blocks.length * SECTOR_SIZE)] }
          else c
        note (Ctx.recordBlocks blocks entryPath)
        recordAnodeChain entry.anode
    | .error _ =>
        note Ctx.error
        note fun c => { c with brokenFiles := c.brokenFiles ++ [(dirAnode, entry.name)] }

/-- `scan_dir`, with `n` calls that may nest. -/
def scanDir : (n : ℕ) → (dirAnode : ℕ) → (path : Name) → ScanM Unit
  | 0, _, _ => throw .deeper
  | n + 1, dirAnode, path =>
      if MAX_DIR_DEPTH < path.count '/' then note Ctx.error
      else do
        match ← ask (Volume.listDirByAnode dirAnode) with
        | .error _ => note Ctx.error
        | .ok entries => entries.forM (scanEntry (scanDir n) dirAnode path)

/-- A checked operation of the command itself. -/
def checked {α : Type} : Except Fault α → ScanM α
  | .ok a => pure a
  | .error f => throw (.fault f)

/-- Checks 1 and 2: rootblock and extension. -/
def checkRootblock (v : Volume) (c : Ctx) : Ctx :=
  let rb := v.rootblock
  let c := if rb.lastreserved ≤ rb.firstreserved then c.error
    else if rb.disksize = 0 then c.error else c
  if rb.hasExtension && v.rootblockExt.isNone then c.error else c

/-- Check 4: the bitmap against `blocksfree`. -/
def checkBitmap (rb : Rootblock) (repair : Bool) : ScanM Unit := do
  let bitmapFree := (← ask Volume.bitmapCountFree).toOption.getD 0
  let reservedBlocks ← checked (addU32 rb.lastreserved 1)
  let _dataArea ← checked (subU32 rb.disksize reservedBlocks)
  note fun c =>
    if bitmapFree = rb.blocksfree then c
    else { c.warning with
      correctBlocksfree := if repair then some bitmapFree else c.correctBlocksfree }

/-- Check 6: anode sanity. -/
def checkAnodes (c : Ctx) : Ctx := if 0 ∈ c.usedAnodes then c.warning else c

/-- Check 7: the reserved bitmap against `reserved_free`. -/
def checkReserved (rb : Rootblock) (repair : Bool) : ScanM Unit := do
  match ← ask Volume.reservedCountFree with
  | .ok actualFree =>
      note fun c =>
        if actualFree = rb.reservedFree then c
        else { c.warning with
          correctReservedFree := if repair then some actualFree else c.correctReservedFree }
  | .error _ => pure ()

/-- Phase 1 of `run`: the scan, on an opened volume. -/
def scan (n : ℕ) (repair : Bool) : ScanM Unit := do
  let s ← get
  note (checkRootblock s.vol)
  scanDir n ANODE_ROOTDIR ['/']
  checkBitmap s.vol.rootblock repair
  note checkAnodes
  checkReserved s.vol.rootblock repair

end Check

/-! ## Extract -/

/-- A path of the host file system, absolute: its components, `.` and `..` included. -/
abbrev HostPath := List Name

/-- A path with its `.` and `..` components resolved. -/
def HostPath.resolve (p : HostPath) : List Name :=
  p.foldl (fun place c =>
    if c = ['.'] then place else if c = ['.', '.'] then place.dropLast else place ++ [c]) []

/-- `Path::join`: a relative name is appended, an absolute one replaces the path. -/
def HostPath.join (p : HostPath) (name : Name) : HostPath :=
  if name.head? = some '/' then pathParts name else p ++ pathParts name

/-- The host file system: its directories and files, the places where the system refuses an
operation, and the places created or overwritten so far, oldest first. -/
structure Host where
  dirs : List Name → Bool
  files : List Name → Bool
  refuses : List Name → Bool
  created : List (List Name)

namespace Host

/-- Make one directory, unless it exists. -/
def mkdir (place : List Name) (h : Host) : Except Fault Host :=
  if h.dirs place then .ok h
  else if h.files place || h.refuses place then .error (.err .io)
  else .ok { h with dirs := Function.update h.dirs place true, created := h.created ++ [place] }

/-- Make the directories one after the other, up to the first failure. -/
def mkdirs : List HostPath → Host → Host × Except Fault Unit
  | [], h => (h, .ok ())
  | q :: rest, h =>
      match h.mkdir (HostPath.resolve q) with
      | .ok h => mkdirs rest h
      | .error f => (h, .error f)

/-- `std::fs::create_dir_all`: every missing directory on the way is made, outermost first. -/
def createDirAll (p : HostPath) (h : Host) : Host × Except Fault Unit := mkdirs p.inits h

/-- `std::fs::write`: the file is created or overwritten in an existing directory. -/
def write (p : HostPath) (h : Host) : Except Fault Host :=
  let place := HostPath.resolve p
  if p.dropLast.inits.all (fun q => h.dirs (HostPath.resolve q)) && !h.dirs place && !h.refuses place
  then
    .ok { h with files := Function.update h.files place true, created := h.created ++ [place] }
  else .error (.err .io)

end Host

namespace Extract

/-- A volume and the host it is extracted to. -/
structure Target where
  vol : Volume
  host : Host

abbrev ExtractM := EStateM WalkStop Target

/-- A call on the volume. -/
def ask {α : Type} (m : VolumeM α) : ExtractM α := fun s =>
  match m s.vol with
  | .ok a vol => .ok a { s with vol }
  | .error f vol => .error (.fault f) { s with vol }

def createDirAll (p : HostPath) : ExtractM Unit := fun s =>
  match s.host.createDirAll p with
  | (host, .ok ()) => .ok () { s with host }
  | (host, .error f) => .error (.fault f) { s with host }

def write (p : HostPath) : ExtractM Unit := fun s =>
  match s.host.write p with
  | .ok host => .ok () { s with host }
  | .error f => .error (.fault f) s

/-- The body of the loop of `extract_dir`; `extractSub` is the nested call. -/
def extractEntry (extractSub : ℕ → HostPath → Name → ExtractM Unit) (output : HostPath)
    (displayPath : Name) (entry : DirEntry) : ExtractM Unit := do
  let entryPath := joinPfs3Path displayPath entry.name
  let outPath := output.join entry.name
  if entry.isDir then
    createDirAll outPath
    extractSub entry.anode outPath entryPath
  else if entry.isFile then
    let _ ← ask (Volume.readFileData entry.anode entry.fileSize)
    write outPath

/-- `extract_dir`, with `n` calls that may nest. -/
def extractDir : (n : ℕ) → (dirAnode : ℕ) → (output : HostPath) → (displayPath : Name) →
    ExtractM Unit
  | 0, _, _, _ => throw .deeper
  | n + 1, dirAnode, output, displayPath =>
      if MAX_DIR_DEPTH < displayPath.count '/' then
        throw (.fault (.err (.corrupt
          s!"directory nesting too deep at {String.ofList displayPath}")))
      else do
        let entries ← ask (Volume.listDirByAnode dirAnode)
        entries.forM (extractEntry (extractDir n) output displayPath)

/-- The part of a path behind its last slash. -/
def lastPart (path : Name) : Name := (path.splitOn '/').getLastD []

/-- `run_vol`: extract what `path` names into the directory `output`. -/
def run (n : ℕ) (path : Name) (output : HostPath) : ExtractM Unit := do
  createDirAll output
  match ← ask (Volume.lookup path) with
  | some entry =>
      if entry.isDir then extractDir n entry.anode output path
      else
        let _ ← ask (Volume.readFileData entry.anode entry.fileSize)
        write (output.join (lastPart path))
  | none => extractDir n ANODE_ROOTDIR output ['/']

end Extract

end Pfs3
