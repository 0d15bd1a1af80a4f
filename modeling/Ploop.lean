import Ploop.Copy.Rounds
import Ploop.Copy.Success
import Ploop.Copy.Receiver
import Ploop.Copy.Stream
import Ploop.Copy.HandOff
import Ploop.Copy.Extents
import Ploop.Copy.Thaw
import Ploop.Balloon.Discard
import Ploop.Balloon.Relocation
import Ploop.Balloon.Trim
import Ploop.Balloon.Freed
import Ploop.Image.GrowMaps
import Ploop.Image.MergeOverlay
import Ploop.Image.MergeFormats
import Ploop.Image.Prealloc
import Ploop.Image.Raw
import Ploop.Image.Expand
import Ploop.Image.Version
import Ploop.Image.CheckBitmap
import Ploop.Image.CheckTwice
import Ploop.Image.SparseRepair
import Ploop.Image.MergeEmpty
import Ploop.Snapshot.Online
import Ploop.Snapshot.LetterCase
import Ploop.Snapshot.ImagesList
import Ploop.Snapshot.Temporary
import Ploop.Snapshot.Runs
import Ploop.Snapshot.Offline
import Ploop.Convert.Recovery
import Ploop.Xml.Writing
import Ploop.Xml.Resolve
import Ploop.Cbt.Checking
import Ploop.Cbt.Merging
import Ploop.Cbt.Used
import Ploop.Cbt.Extract
import Ploop.Cbt.Constant
import Ploop.Cbt.Truncation
import Ploop.Gpt.Resize
