import Ploop.Image.Delta

/-!
# Growing a delta

`relocate_block`, `grow_delta` and `ploop_grow_delta_offline` of
`delta_read.c`.
-/

namespace Ploop

open Storage

/-- Load cluster `l2Cluster` of the table into the one-cluster cache. -/
def loadL2 (err : Sysexit) (l2Cluster : ℕ) : DeltaM Unit := do
  let d ← get
  if d.l2Cache ≠ some l2Cluster then
    let buf ← pread err d.cluster (l2Cluster * d.cluster)
    modify fun d => { d with l2 := bytesWord buf, l2Cache := some l2Cluster }

/-- The scan of `relocate_block`: `k` clusters are left, from `clu` on. -/
def findSlot (target : UInt32) : ℕ → ℕ → DeltaM (Option ℕ)
  | 0, _ => pure none
  | k + 1, clu => do
      let d ← get
      let n := d.cluster / 4
      let l2Cluster := u32 (clu + mapOffset) / n
      let l2Slot := u32 (clu + mapOffset) % n
      if d.l1Size ≤ l2Cluster then throw .reloc
      else do
        loadL2 .reloc l2Cluster
        if (← get).l2 l2Slot = target then pure (some clu)
        else findSlot target k (clu + 1)

/-- `struct reloc_map` -/
structure RelocMap where
  reqCluster : ℕ
  iblk : ℕ
  deriving DecidableEq

/-- Move image block `iblk` to the end of the file and return the record of
the move; `none` if no slot refers to the block. Every error is the `-1` that
`grow_delta` reports as `SYSEXIT_RELOC`. -/
def relocateBlock (iblk : ℕ) : DeltaM (Option RelocMap) := do
  let d ← get
  let cluster := d.cluster
  let n := cluster / 4
  let target := secToIoff (iblk * d.blocksize) d.blocksize d.version
  match ← findSlot target d.l2Size 0 with
  | none => pure none
  | some clu =>
      let l2Cluster := u32 (clu + mapOffset) / n
      let l2Slot := u32 (clu + mapOffset) % n
      let entry := (← get).l2 l2Slot
      let buf ← pread .reloc cluster (s2b (ioffToSec entry d.blocksize d.version))
      let head := (← get).allocHead
      let entry := secToIoff (head.toNat * d.blocksize) d.blocksize d.version
      modify fun d => { d with
        allocHead := head + 1
        l2 := Function.update d.l2 l2Slot entry }
      if entry = 0 then throw .reloc
      else do
        pwrite (s2b (ioffToSec entry d.blocksize d.version)) cluster buf
        fsync
        pwrite (l2Cluster * cluster + l2Slot * 4) 4 (wordBytes fun _ => entry)
        let head := (← get).allocHead
        pure (some ⟨u32 (2 ^ 32 + l2Slot - mapOffset), (head - 1).toNat⟩)

/-- Overwrite image block `i` with zeros. -/
def nullifyBlock (i : ℕ) : DeltaM Unit := do
  let d ← get
  pwrite (i * d.cluster) d.cluster fun _ => 0

/-- The relocation loop of `grow_delta`: `k` blocks are left, from `i` on.
`gm` says that the caller wants the records of the moves. -/
def growLoop (gm : Bool) : ℕ → ℕ → DeltaM (List (ℕ × RelocMap))
  | 0, _ => pure []
  | k + 1, i => do
      match gm, ← relocateBlock i with
      | true, some m => do
          let rest ← growLoop gm k (i + 1)
          pure ((i, m) :: rest)
      | _, _ => do
          fsync
          nullifyBlock i
          growLoop gm k (i + 1)

/-- `gm->ctl->rmap` and `gm->zblks` side by side, and the room made for them. -/
structure GrowMaps where
  alloced : ℕ
  maps : List (ℕ × RelocMap)

/-- The new table may reach past the end of the file: append zeros up to it.
The result is `i_l1_size_sync_alloc`. -/
def appendGap (iL1Size : ℕ) : DeltaM ℕ := do
  let head := (← get).allocHead.toNat
  if head < iL1Size then do
    Program.forRange nullifyBlock head (iL1Size - head)
    modify fun d => { d with allocHead := d.allocHead + UInt32.ofNat (iL1Size - head) }
    pure (iL1Size - head)
  else pure 0

/-- All requested blocks are relocated; time to update the header. -/
def updateHeader (ivh : PvdHeader) : DeltaM Unit := do
  fsync
  let size := (← get).file.size
  pwrite 0 headerBytes (wordBytes (if size / ivh.mSectors.toNat ≤ ivh.mFirstBlockOffset.toNat
    then { ivh with mFlags := cifEmpty } else ivh).toWords)

/-- The header `grow_delta` puts in place of the old one. -/
def grownHeader (bdsize blocksize : ℕ) (version : FmtVersion) : PvdHeader :=
  { (generatePvdHeader PvdHeader.zero bdsize blocksize version).1 with
    mDiskInUse := signatureDiskInUse }

def growDelta (bdsize : ℕ) (gm : Bool) : DeltaM GrowMaps := do
  let d ← get
  let ivh := grownHeader bdsize d.blocksize d.version
  let iL1Size := ivh.mFirstBlockOffset.toNat / ivh.mSectors.toNat
  let iL2Size := getSizeInSectors ivh / ivh.mSectors.toNat
  if d.allocHead.toNat < d.l1Size then throw .param
  else if d.l2Cache.isSome then throw .param
  else do
    let syncAlloc ← appendGap iL1Size
    -- `malloc` of a negative number of records fails
    if gm ∧ iL1Size < syncAlloc + d.l1Size then throw .malloc
    else do
      let n := iL1Size - syncAlloc - d.l1Size
      let maps ← growLoop gm n d.l1Size
      if gm then pure () else updateHeader ivh
      modify fun d => { d with l1Size := iL1Size, l2Size := iL2Size }
      pure ⟨n, maps⟩

/-- `check_blockdev_size` -/
def checkBlockdevSize (sectors blocksize : ℕ) : Bool := sectors % blocksize = 0

def growDeltaOfflineBody (newSize : ℕ) : DeltaM Unit := do
  let d ← get
  let oldSize := getSizeInSectors d.hdr0
  let newVh := (generatePvdHeader PvdHeader.zero newSize d.blocksize d.version).1
  if ¬ checkBlockdevSize newSize d.blocksize then throw .param
  else if getSizeInSectors newVh = oldSize then pure ()
  else if getSizeInSectors newVh < oldSize then throw .param
  else do
    dirtyDelta
    let _ ← growDelta (getSizeInSectors newVh) false
    clearDelta
    fsync

/-- The exit code (`none` is 0) and the image with its log of writes. -/
def ploopGrowDeltaOffline (image : File) (newSize : ℕ) : Option Sysexit × Disk :=
  match openDelta image false with
  | none => (some .open, Disk.new image)
  | some d =>
      match growDeltaOfflineBody newSize d with
      | .ok _ d => (none, d.disk)
      | .error e d => (some e, d.disk)

/-! ## The log -/

namespace Appends

open Program

theorem loadL2 (err : Sysexit) (p : ℕ) : Appends (loadL2 err p) :=
  Keeps.get.bind fun _ => Keeps.ite ((pread _ _ _).bind fun _ => forget fun _ => rfl) (Keeps.pure _)

theorem findSlot (target : UInt32) (k clu : ℕ) : Appends (findSlot target k clu) := by
  induction k generalizing clu with
  | zero => exact Keeps.pure none
  | succ k ih =>
      exact Keeps.get.bind fun _ => Keeps.ite (Keeps.throw _) ((loadL2 _ _).bind fun _ =>
        Keeps.get.bind fun _ => Keeps.ite (Keeps.pure _) (ih _))

theorem relocateBlock (iblk : ℕ) : Appends (relocateBlock iblk) := by
  refine Keeps.get.bind fun d => (findSlot _ _ _).bind fun r => ?_
  rcases r with _ | clu
  · exact Keeps.pure none
  · refine Keeps.get.bind fun _ => (pread _ _ _).bind fun _ => Keeps.get.bind fun _ =>
      (forget ?_).bind fun _ => Keeps.ite (Keeps.throw _) ?_
    · exact fun _ => rfl
    · exact (pwrite _ _ _).bind fun _ => fsync.bind fun _ => (pwrite _ _ _).bind fun _ =>
        Keeps.get.bind fun _ => Keeps.pure _

theorem nullifyBlock (i : ℕ) : Appends (nullifyBlock i) :=
  Keeps.get.bind fun _ => pwrite _ _ _

theorem growLoop (gm : Bool) (k i : ℕ) : Appends (growLoop gm k i) := by
  induction k generalizing i with
  | zero => exact Keeps.pure []
  | succ k ih =>
      refine (relocateBlock i).bind fun r => ?_
      have hzero : Appends (do Ploop.fsync; Ploop.nullifyBlock i; Ploop.growLoop gm k (i + 1)) :=
        fsync.bind fun _ => (nullifyBlock i).bind fun _ => ih (i + 1)
      cases gm with
      | false => exact hzero
      | true =>
          cases r with
          | none => exact hzero
          | some m => exact (ih (i + 1)).bind fun _ => Keeps.pure _

theorem appendGap (n : ℕ) : Appends (appendGap n) := by
  refine Keeps.get.bind fun _ => Keeps.ite ((Keeps.forRange nullifyBlock _ _).bind fun _ =>
    (forget ?_).bind fun _ => Keeps.pure _) (Keeps.pure _)
  exact fun _ => rfl

theorem updateHeader (ivh : PvdHeader) : Appends (updateHeader ivh) :=
  fsync.bind fun _ => Keeps.get.bind fun _ => pwrite _ _ _

theorem growDelta (bdsize : ℕ) (gm : Bool) : Appends (growDelta bdsize gm) := by
  refine Keeps.get.bind fun _ => Keeps.ite (Keeps.throw _) (Keeps.ite (Keeps.throw _)
    ((appendGap _).bind fun _ => Keeps.ite (Keeps.throw _) ((growLoop _ _ _).bind fun _ => ?_)))
  cases gm with
  | true =>
      refine (forget ?_).bind fun _ => Keeps.pure _
      exact fun _ => rfl
  | false =>
      refine (updateHeader _).bind fun _ => (forget ?_).bind fun _ => Keeps.pure _
      exact fun _ => rfl

theorem growDeltaOfflineBody (newSize : ℕ) : Appends (growDeltaOfflineBody newSize) :=
  Keeps.get.bind fun _ => Keeps.ite (Keeps.throw _) (Keeps.ite (Keeps.pure _)
    (Keeps.ite (Keeps.throw _) (dirtyDelta.bind fun _ => (growDelta _ _).bind fun _ =>
      clearDelta.bind fun _ => fsync)))

end Appends

end Ploop
