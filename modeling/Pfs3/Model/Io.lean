import Mathlib.Logic.Function.Basic
import Pfs3.Model.Ondisk

/-!
# Block device

A device of `total` sectors of 512 bytes.  Reads beyond the end are I/O errors, writes
beyond it are `BlockOutOfRange`.  Writes go sector by sector; `faults n` says whether the
`n`-th sector write attempted on the device fails, and `log` records the sector writes that
took effect, oldest first.
-/

namespace Pfs3

open ByteList

/-- The content of one sector. -/
def Sector : Type := { b : Bytes // b.length = SECTOR_SIZE }

/-- The first 512 bytes of `b`, filled up with zeros. -/
def Sector.ofBytes (b : Bytes) : Sector :=
  ⟨(b ++ List.replicate SECTOR_SIZE 0).take SECTOR_SIZE, by simp⟩

structure Device where
  sectors : ℕ → Sector
  total : ℕ
  writable : Bool
  faults : ℕ → Bool
  attempts : ℕ
  log : List (ℕ × Sector)

namespace Device

/-- Concatenated content of `count` sectors from `block` on. -/
def bytesAt (d : Device) (block count : ℕ) : Bytes :=
  (List.range' block count).flatMap fun i => (d.sectors i).val

/-- Read `count` consecutive blocks into a zeroed buffer of `bufLen` bytes. -/
def readBlocks (d : Device) (block count bufLen : ℕ) : Except Fault Bytes :=
  if bufLen < count * SECTOR_SIZE then .error (.err (.tooShort "read buffer"))
  else if d.total < block + count then .error (.err .io)
  else .ok (d.bytesAt block count ++ List.replicate (bufLen - count * SECTOR_SIZE) 0)

def readBlock (d : Device) (block : ℕ) : Except Fault Bytes := d.readBlocks block 1 SECTOR_SIZE

/-- One sector write: it fails if the device's fault plan says so. -/
def writeSector (block : ℕ) (s : Sector) : EStateM Fault Device Unit := fun d =>
  if d.faults d.attempts then .error (.err .io) { d with attempts := d.attempts + 1 }
  else .ok ()
    { d with
      sectors := Function.update d.sectors block s
      attempts := d.attempts + 1
      log := d.log ++ [(block, s)] }

/-- The sector writes of `write_blocks`, in order. -/
def writeSectors : ℕ → List Sector → EStateM Fault Device Unit
  | _, [] => pure ()
  | block, s :: rest => do
      writeSector block s
      writeSectors (block + 1) rest

/-- Write `count` consecutive blocks from `data`. -/
def writeBlocks (block count : ℕ) (data : Bytes) : EStateM Fault Device Unit := do
  let d ← get
  if !d.writable then fail .readOnly
  else if d.total < block + count then fail (.blockOutOfRange block)
  else if data.length < count * SECTOR_SIZE then throw .panic
  else
    writeSectors block
      ((List.range count).map fun i => Sector.ofBytes (data.drop (i * SECTOR_SIZE)))

def writeBlock (block : ℕ) (data : Bytes) : EStateM Fault Device Unit := writeBlocks block 1 data

/-- Flush all pending writes to stable storage: the device keeps no volatile state. -/
def flush : EStateM Fault Device Unit := pure ()

/-- Write a reserved-size block (possibly spanning multiple device sectors). -/
def writeReservedBlocks (blk : ℕ) (data : Bytes) (rescluster : ℕ) : EStateM Fault Device Unit :=
  (List.range rescluster).forM fun i =>
    writeBlock (blk + i) (Sector.ofBytes (data.drop (i * SECTOR_SIZE))).val

end Device

end Pfs3
