import Ploop.Lib.ByteFile
import Ploop.Lib.Program
import Ploop.Image.Delta

/-!
# The disk descriptor

`struct ploop_disk_images_data` and the edits of `di.c`: images and snapshots
in two parallel arrays, tied together by guids.
-/

namespace Ploop.Dd

open Storage

abbrev Guid := List Char

abbrev Path := List Char

/-! ## Guids -/

/-- `guidcmp(p1, p2) == 0` -/
def guidEq (p1 p2 : Guid) : Bool := p1.map Char.toLower = p2.map Char.toLower

@[simp] theorem guidEq_refl (g : Guid) : guidEq g g = true := by simp [guidEq]

theorem guidEq_iff {g g' : Guid} :
    guidEq g g' = true ↔ g.map Char.toLower = g'.map Char.toLower := by
  simp [guidEq]

theorem guidEq_comm (g g' : Guid) : guidEq g g' = guidEq g' g := by
  simp [guidEq, eq_comm]

theorem guidEq_trans {g g' g'' : Guid} (h : guidEq g g') (h' : guidEq g' g'') : guidEq g g'' :=
  guidEq_iff.mpr ((guidEq_iff.mp h).trans (guidEq_iff.mp h'))

/-- Spellings of one guid cannot be told apart by `guidcmp`. -/
theorem guidEq_congr {g g' h h' : Guid} (hg : guidEq g g') (hh : guidEq h h') :
    guidEq g h = guidEq g' h' := by
  unfold guidEq
  rw [guidEq_iff.mp hg, guidEq_iff.mp hh]

def isXDigit (c : Char) : Bool :=
  ('0' ≤ c && c ≤ '9') || ('a' ≤ c && c ≤ 'f') || ('A' ≤ c && c ≤ 'F')

/-- `is_valid_guid` -/
def isValidGuid (guid : Guid) : Bool :=
  guid.length = 38 && guid[0]? = some '{' && guid[37]? = some '}' &&
    (List.range 36).all fun i => (guid[i + 1]?).any fun c =>
      if i = 8 ∨ i = 13 ∨ i = 18 ∨ i = 23 then c = '-' else isXDigit c

def topdeltaUuid : Guid := "{5fbaabe3-6958-40ff-92a7-860e329aab41}".toList

def noneUuid : Guid := "{00000000-0000-0000-0000-000000000000}".toList

/-! ## Data -/

structure ImageData where
  guid : Guid
  file : Path
  alien : Bool
  deriving DecidableEq

structure SnapshotData where
  guid : Guid
  parentGuid : Guid
  temporary : Bool
  alien : Bool
  deriving DecidableEq

structure VolumeData where
  parent : Option Path
  snapGuid : Option Guid
  ro : Bool
  deriving DecidableEq

/-- `raw` is `mode == PLOOP_RAW_MODE`. -/
structure DiskImagesData where
  size : ℕ
  blocksize : ℕ
  raw : Bool
  images : List ImageData
  snapshots : List SnapshotData
  topGuid : Option Guid
  vol : Option VolumeData
  deriving DecidableEq

namespace DiskImagesData

/-! ## Looking up -/

def findImageIdxByGuid (di : DiskImagesData) (guid : Guid) : Option ℕ :=
  di.images.findIdx? fun i => guidEq guid i.guid

def findImageByGuid (di : DiskImagesData) (guid : Guid) : Option Path :=
  (di.images.find? fun i => guidEq guid i.guid).map ImageData.file

def findSnapshotByGuid (di : DiskImagesData) (guid : Guid) : Option ℕ :=
  di.snapshots.findIdx? fun s => guidEq s.guid guid

/-- The snapshot at `find_snapshot_by_guid`. -/
def snapshotByGuid (di : DiskImagesData) (guid : Guid) : Option SnapshotData :=
  di.snapshots.find? fun s => guidEq s.guid guid

def getChildByUuid (di : DiskImagesData) (guid : Guid) : Option Guid :=
  (di.snapshots.find? fun s => guidEq s.parentGuid guid).map SnapshotData.guid

def getChildCountByUuid (di : DiskImagesData) (guid : Guid) : ℕ :=
  di.snapshots.countP fun s => guidEq s.parentGuid guid

/-- `guidcmp(di->top_guid, guid) == 0` -/
def isTop (di : DiskImagesData) (guid : Guid) : Bool := di.topGuid.any fun t => guidEq t guid

/-- `strcmp(di->top_guid, guid) == 0` -/
def isTopExactly (di : DiskImagesData) (guid : Guid) : Bool := di.topGuid = some guid

/-- The loop of `make_images_list` from the top down. -/
def imagesFrom (di : DiskImagesData) : ℕ → Guid → Option (List Path)
  | 0, _ => none
  | n + 1, guid => do
      let s ← di.snapshotByGuid guid
      let file ← di.findImageByGuid guid
      if s.parentGuid = noneUuid then some [file]
      else (file :: ·) <$> di.imagesFrom n s.parentGuid

/-- `make_images_list` with `reverse`. -/
def makeImagesList (di : DiskImagesData) (guid : Guid) : Option (List Path) :=
  di.imagesFrom (min di.snapshots.length di.images.length) guid

/-! ## Edits -/

/-- `if (guidcmp(p, guid) == 0) strcpy(p, new_guid)` -/
def rename (guid newGuid p : Guid) : Guid := if guidEq p guid then newGuid else p

def renameImage (guid newGuid : Guid) (i : ImageData) : ImageData :=
  { i with guid := rename guid newGuid i.guid }

def renameSnapshot (guid newGuid : Guid) (s : SnapshotData) : SnapshotData :=
  { s with guid := rename guid newGuid s.guid, parentGuid := rename guid newGuid s.parentGuid }

/-- `ploop_di_change_guid` -/
def changeGuid (di : DiskImagesData) (guid newGuid : Guid) : DiskImagesData :=
  { di with
    images := di.images.map (renameImage guid newGuid)
    snapshots := di.snapshots.map (renameSnapshot guid newGuid)
    topGuid := di.topGuid.map (rename guid newGuid) }

/-- `ploop_di_change_guid(di, di->snapshots[id]->parent_guid, new_guid)`: the
first argument is a field that the loop overwrites at `id`, so what follows is
compared with the new guid. -/
def changeParentGuid (di : DiskImagesData) (id : ℕ) (guid newGuid : Guid) : DiskImagesData :=
  { di with
    images := di.images.map (renameImage guid newGuid)
    snapshots := (di.snapshots.take (id + 1)).map (renameSnapshot guid newGuid) ++
      (di.snapshots.drop (id + 1)).map (renameSnapshot newGuid newGuid)
    topGuid := di.topGuid.map (rename newGuid newGuid) }

def setTemporary (di : DiskImagesData) (guid : Guid) : DiskImagesData :=
  match di.findSnapshotByGuid guid with
  | none => di
  | some i => { di with snapshots := di.snapshots.modify i fun s => { s with temporary := true } }

def pushImage (di : DiskImagesData) (i : ImageData) : DiskImagesData :=
  { di with images := di.images ++ [i] }

def pushSnapshot (di : DiskImagesData) (s : SnapshotData) : DiskImagesData :=
  { di with snapshots := di.snapshots ++ [s] }

def dropAt (di : DiskImagesData) (snapId imageId : ℕ) : DiskImagesData :=
  { di with snapshots := di.snapshots.eraseIdx snapId, images := di.images.eraseIdx imageId }

/-- The references to the parent that `ploop_di_merge_image` makes its own. -/
def mergeGuid (di : DiskImagesData) (guid : Guid) (snapshot : SnapshotData) : DiskImagesData :=
  { di with
    snapshots := di.snapshots.map fun s =>
      if guidEq s.guid snapshot.parentGuid then
        { s with guid := guid, temporary := snapshot.temporary, alien := snapshot.alien }
      else s
    images := di.images.map fun i =>
      if guidEq i.guid snapshot.parentGuid then { i with guid := guid, alien := snapshot.alien }
      else i }

/-- What `store_diskdescriptor` writes. -/
def toXml (di : DiskImagesData) : DiskImagesData :=
  { di with
    images := di.images.filter fun i => !i.alien
    snapshots := di.snapshots.filter fun s => !s.alien }

end DiskImagesData

end Ploop.Dd
