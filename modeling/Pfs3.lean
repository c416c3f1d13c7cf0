import Pfs3.Model.Format
import Pfs3.Store.FreshImages
import Pfs3.Store.SimOps
import Pfs3.Walk.Containment
import Pfs3.Walk.Verdict
import Pfs3.Tree.Headers
import Pfs3.Tree.Clean
import Pfs3.Tree.Contents
import Pfs3.Tree.Kept
import Pfs3.Tree.Formatted
import Pfs3.Faults.Recovery
import Pfs3.Blocks.DataBitmap
import Pfs3.Checked.Total
import Pfs3.Fuse.Names
import Pfs3.Walk.Ranges
import Pfs3.Checked.Geometry
import Pfs3.Dirs.Resize
import Pfs3.Fuse.Handles
import Pfs3.Dirs.Rename
import Pfs3.Blocks.Extents
import Pfs3.Blocks.Traversal
import Pfs3.Store.CacheRuns
import Pfs3.Checked.Partitions
import Pfs3.Blocks.Reserved
import Pfs3.Tree.Readback
import Pfs3.Tree.Paths
import Pfs3.Faults.Storage
import Pfs3.Checked.Selected
import Pfs3.Display.Dates
import Pfs3.Display.Protect
import Pfs3.Checked.Fixture
import Pfs3.Dirs.Deldir
