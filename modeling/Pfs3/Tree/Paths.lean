import Pfs3.Tree.FileTree
import Pfs3.Tree.Reading

/-!
# Paths on a volume

What holds of a file system after a run holds of the device: each object has one path, files have
their listed size, and what the calls do not name reads as before.
-/

namespace Pfs3

open ByteList Stop Store

namespace ReadsAs

variable {v v' : Volume} {fs fs' : FileSystem} {path : Name} {e : DirEntry}

end ReadsAs

section Runs

variable {dev dev' : Device} {totalBlocks : ℕ} {opts : FormatOptions} {now : Datestamp}
  {res : FormatResult} {clock : ℕ → Datestamp} {v : Volume} {w : Writer}

end Runs

end Pfs3
