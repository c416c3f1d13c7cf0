import Pfs3.Store.SimOps

/-!
# Calls

The calls of a client on a volume without deldir, as one type: what the writer does and what
the store says about it.
-/

namespace Pfs3

open ByteList Stop

/-- A call of a client. -/
inductive Call
  | writeFile (path : Name) (data : Bytes)
  | createDir (path : Name)
  | createSoftlink (path target : Name)
  | createHardlink (path : Name) (targetAnode : ℕ)
  | delete (path : Name)
  | renameIn (srcParent : ℕ) (srcName : Name) (dstParent : ℕ) (dstName : Name)
  | updateDirEntryProtection (dirAnode : ℕ) (name : Name) (protection : UInt8)
  | setVolumeName (name : Name)

namespace Call

/-- What the writer does. -/
def run : Call → WriterM Unit
  | .writeFile path data => Writer.writeFile path data
  | .createDir path => Writer.createDir path
  | .createSoftlink path target => Writer.createSoftlink path target
  | .createHardlink path targetAnode => Writer.createHardlink path targetAnode
  | .delete path => Writer.delete path
  | .renameIn srcParent srcName dstParent dstName =>
      Writer.renameIn srcParent srcName dstParent dstName
  | .updateDirEntryProtection dirAnode name protection =>
      Writer.updateDirEntryProtection dirAnode name protection
  | .setVolumeName name => Writer.setVolumeName name

/-- What the store says about it. -/
def spec : Call → StoreM Unit
  | .writeFile path data => Store.writeFile path data
  | .createDir path => Store.createDir path
  | .createSoftlink path target => Store.createSoftlink path target
  | .createHardlink path targetAnode => Store.createHardlink path targetAnode
  | .delete path => Store.delete path
  | .renameIn srcParent srcName dstParent dstName =>
      Store.renameIn srcParent srcName dstParent dstName
  | .updateDirEntryProtection dirAnode name protection =>
      Store.updateDirEntryProtection dirAnode name protection
  | .setVolumeName name => Store.setVolumeName name

theorem sim {g : Geometry} {w : Writer} {S : Store} (c : Call) (h : Rep g w S) :
    Sim (Rep g) Eq c.run c.spec w S := by
  cases c with
  | writeFile path data => exact h.writeFile path data
  | createDir path => exact h.createDir path
  | createSoftlink path target => exact h.createSoftlink path target
  | createHardlink path targetAnode => exact h.createHardlink path targetAnode
  | delete path => exact h.delete path
  | renameIn srcParent srcName dstParent dstName =>
      exact h.renameIn srcParent srcName dstParent dstName
  | updateDirEntryProtection dirAnode name protection =>
      exact h.updateDirEntryProtection dirAnode name protection
  | setVolumeName name => exact h.setVolumeName name

end Call

end Pfs3
