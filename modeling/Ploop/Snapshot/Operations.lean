import Ploop.Snapshot.World

/-!
# The snapshot operations

`snapshot.c` and the descriptor side of `merge.c`.
-/

namespace Ploop.Dd

section Operations

variable (o : Outside)

/-! ## What the device is busy with -/

/-- `ploop_get_mntn_state` -/
def getMntnState : DdM Mntn := do
  let t ← tick
  if o.fails t then throw (.exit .devioc) else pure (o.mntn t)

/-- `do_mntn_merge` up to its ioctl, which takes the top delta out of the stack.
The result is the file of that delta. -/
def mergeRunningTop : DdM Path := do
  callRc o
  let stack := (← get).store.kernel.getD []
  let top ← orParam (← getDi).topGuid
  let topDelta ← diMergeImage o top
  call o (.exit .fstat)
  (if (← try' o) && decide (stack.getLast? = some topDelta) then pure ()
    else throw (.exit .diskdescr))
  storeDiskdescriptor o true
  dropLevel o (stack.length - 1)
  pure topDelta

/-- `do_mntn_merge`: a merge of the top delta that has been cut off is done to
its end. -/
def doMntnMerge : DdM Unit := do
  let topDelta ← mergeRunningTop o
  if ← renameConf o then do
    let _ ← unlinkFile o topDelta
  else throw (.exit .rename)

/-- Of the other operations none changes the stack. -/
def completeRunningOperation : DdM Unit := do
  call o (.exit .open)
  match ← getMntnState o with
  | .merge => doMntnMerge o
  | .grow | .track => call o (.exit .devioc)
  | .fbloaded | .discard | .reloc => callRc o
  | _ => pure ()

/-! ## Merge -/

/-- The place of a file in the stack of the device, the base being 0. -/
def level (kernel : List Path) (file : Path) : Option ℕ := kernel.findIdx? (· = file)

/-- `start_level`, `end_level`, `online` and `merge_top` of a merge of `child`
into `parent`. Of `complete_running_operation`, the third call, only the result
is looked at: there is no merge to be completed here, which would free the names
that the caller holds. -/
def mergeLevels (child parent : Path) : DdM (ℕ × ℕ × Bool × Bool) := do
  match (← get).store.kernel with
  | none => pure (0, 1, false, false)
  | some stack => do
      call o (.exit .fstat)
      call o (.exit .fstat)
      callRc o
      callRc o
      match level stack child, level stack parent with
      | some e, some b =>
          if e = b + 1 then pure (b, e, true, e + 1 = stack.length) else throw (.exit .param)
      | none, none => pure (0, 1, false, false)
      | _, _ => throw (.exit .param)

/-- The end of a merge into a new file: its name goes into the descriptor and
the old file is removed. The result is whether that worked. -/
def renewImage (guid : Guid) (newDelta : Path) : DdM Bool := do
  call o (.exit .param)
  let newimg := o.realpath newDelta
  let di ← getDi
  let idx ← orParam (di.findImageIdxByGuid guid)
  let oldimg ← orParam (di.findImageByGuid guid)
  modifyDi fun di =>
    { di with images := di.images.modify idx fun i => { i with file := newimg } }
  storeDiskdescriptor o true
  unlinkFile o oldimg

/-- `ploop_merge_snapshot_by_guid` up to the end of `merge_image`. The result is
the file that is to be removed, and whether the stack has lost it. -/
def mergeDown (guid : Guid) (newDelta : Option Path) : DdM (Path × Bool) := do
  let di ← getDi
  let child ← orParam (di.snapshotByGuid guid)
  let fname ← orParam (di.findImageByGuid guid)
  guardParam (child.parentGuid ≠ noneUuid)
  let parentFname ← orParam (di.findImageByGuid child.parentGuid)
  let parent ← orParam (di.snapshotByGuid child.parentGuid)
  guardParam (di.getChildCountByUuid child.parentGuid ≤ 1)
  let _ ← findDev o
  let (startLevel, endLevel, online, mergeTop) ← mergeLevels o fname parentFname
  alloc o
  alloc o
  checkSnapshotMount o child.parentGuid parentFname parent.temporary
  checkSnapshotMount o guid fname child.temporary
  let deleteFname ← diMergeImage o guid
  storeDiskdescriptor o true
  let store := (← get).store
  mergeImage o
    { online := online
      startLevel := startLevel
      endLevel := endLevel
      raw := if online then store.kernelRaw && startLevel = 0
        else di.raw && guidEq parent.parentGuid noneUuid
      mergeTop := mergeTop
      names := [fname, parentFname]
      newDelta := newDelta }
  pure (deleteFname, online)

/-- `ploop_merge_snapshot_by_guid` -/
def mergeSnapshotByGuid (guid : Guid) (newDelta : Option Path) : DdM Unit := do
  let (deleteFname, _) ← mergeDown o guid newDelta
  let removed ← match newDelta with
    | none => pure true
    | some p => renewImage o guid p
  if ← renameConf o then do
    let gone ← unlinkFile o deleteFname
    if removed && gone then pure () else throw (.exit .unlink)
  else throw (.exit .rename)

def mergeAll (newDelta : Option Path) : ℕ → DdM Unit
  | 0 => throw .running
  | n + 1 => do
      let di ← getDi
      match di.topGuid with
      | none => throw (.exit .param)
      | some top => do
          mergeSnapshotByGuid o top newDelta
          if (← getDi).snapshots.length ≠ 1 then mergeAll newDelta n else pure ()

/-- `ploop_merge_snapshot`: one level, or all of them. -/
def ploopMergeSnapshot (guid : Option Guid) (all : Bool) (newDelta : Option Path) : DdM Unit := do
  lockDd o
  let di ← getDi
  match guid with
  | some g => mergeSnapshotByGuid o g newDelta
  | none =>
      if all then
        if di.snapshots.length ≠ 1 then mergeAll o newDelta di.snapshots.length
        else throw (.exit .param)
      else do
        let top ← orParam di.topGuid
        mergeSnapshotByGuid o top newDelta

/-! ## Delete -/

/-- A leaf is removed, and its file after the descriptor is stored. -/
def deleteLeaf (guid : Guid) (snap : SnapshotData) : DdM Unit := do
  let di ← getDi
  guardParam (snap.parentGuid ≠ noneUuid)
  if di.isTopExactly guid then do
    let parent ← orParam (di.snapshotByGuid snap.parentGuid)
    guardParam (!parent.temporary)
  else pure ()
  let fname ← orParam (di.findImageByGuid guid)
  checkSnapshotMount o guid fname snap.temporary
  let fname ← diRemoveImage o guid true
  storeDiskdescriptor o false
  if ← unlinkFile o fname then pure () else throw (.exit .unlink)

def doDeleteSnapshot (guid : Guid) : DdM Unit := do
  let di ← getDi
  match di.snapshotByGuid guid with
  | none => throw (.exit .nosnap)
  | some snap => do
      let running ← findDev o
      guardParam (!(running && di.isTopExactly guid))
      match di.getChildCountByUuid guid with
      | 0 => deleteLeaf o guid snap
      | 1 => do
          let child ← orParam (di.getChildByUuid guid)
          mergeSnapshotByGuid o child none
      | _ =>
          -- `ret` is still that of the search for a device, which is 1 if there is none
          if snap.temporary then
            if running then pure () else throw (.exit .creat)
          else do
            modifyDi (·.setTemporary guid)
            storeDiskdescriptor o false

def isSnapshotInUse (guid : Guid) : DdM Bool := do
  match (← getDi).findImageByGuid guid with
  | none => pure true
  | some fname => do
      let t ← tick
      pure (o.inUse t fname)

/-- The loop of `merge_temporary_snapshots` from the `i`th snapshot. -/
def mergeTemporaryFrom : ℕ → ℕ → DdM Unit
  | 0, _ => throw .running
  | n + 1, i => do
      let di ← getDi
      match di.snapshots[i]? with
      | none => pure ()
      | some s =>
          if s.temporary then do
            if ← isSnapshotInUse o s.guid then mergeTemporaryFrom n (i + 1)
            else do
              doDeleteSnapshot o s.guid
              if di.snapshots.length ≠ (← getDi).snapshots.length then mergeTemporaryFrom n 0
              else mergeTemporaryFrom n (i + 1)
          else mergeTemporaryFrom n (i + 1)

/-- Every turn goes on to the next snapshot or starts again with one less. -/
def mergeTemporarySnapshots : DdM Unit := do
  let n := (← getDi).snapshots.length
  mergeTemporaryFrom o ((n + 1) * (n + 1)) 0

/-- The result of the clean-up of temporary snapshots is not looked at. -/
def ploopDeleteSnapshot (guid : Guid) : DdM Unit := do
  lockDd o
  doDeleteSnapshot o guid
  let _ ← attempt (mergeTemporarySnapshots o)

/-! ## Create -/

/-- `create_snapshot` up to the ioctl, after which the kernel has the new delta. -/
def adoptDelta (delta : Path) (cbt : Bool) : DdM Unit := do
  callRc o
  call o (.exit .device)
  createSnapshotDelta o .open delta
  (if cbt then orUnlink o delta (callRc o) else pure ())
  orUnlink o delta (call o (.exit .devioc))
  setStack (· ++ [delta])

/-- `cbt_snapshot`: nothing to save if the bitmap was started just now. -/
def cbtSnapshot (prevDelta : Path) : DdM Unit := do
  callRc o
  if ← try' o then pure ()
  else do
    rewriteFile o prevDelta
    callRc o

/-- `create_snapshot` -/
def createSnapshot (delta : Path) (cbt : Bool) (prevDelta : Path) : DdM Unit := do
  adoptDelta o delta cbt
  (if cbt then orUnlink o delta (cbtSnapshot o prevDelta) else pure ())

/-- `get_snapshot_count`, which must not exceed the limit of the kernel. -/
def checkSnapshotCount : DdM Unit := do
  let di ← getDi
  match di.topGuid with
  | none => pure ()
  | some top => do
      let images ← orParam (di.makeImagesList top)
      guardParam (images.length ≤ 128 - 2)

def deltaName (di : DiskImagesData) (snapDir : Option Path) (fileGuid : Guid) : Path :=
  let base := (di.images.head?.map ImageData.file).getD []
  match snapDir with
  | none => base ++ '.' :: fileGuid
  | some dir => dir ++ '/' :: ((base.reverse.takeWhile (· ≠ '/')).reverse ++ '.' :: fileGuid)

/-- What is done for the new delta while no device runs, or when a running one
is not to be told. -/
def createOffline (fname prevFname : Path) (cbt raw running : Bool) : DdM Unit := do
  createSnapshotDelta o .creat fname
  if cbt then rewriteFile o fname
  else if raw then pure ()
  else if running then rewriteFile o fname
  else do
    rewriteFile o prevFname
    rewriteFile o fname

/-- The guids of a new snapshot, and whether there is a device. -/
structure Request where
  snapGuid : Guid
  fileGuid : Guid
  topGuid : Guid
  running : Bool

/-- `do_create_snapshot` up to the search for the device. -/
def checkRequest (guid : Option Guid) (cbt : Bool) : DdM Request := do
  (if cbt then call o (.exit .param) else pure ())
  guardParam (guid.all isValidGuid)
  let newGuid ← genUuid o
  let fileGuid ← genUuid o
  let di ← getDi
  let topGuid ←
    (if di.vol.any fun v => v.parent.isSome then genUuid o else pure topdeltaUuid)
  let snapGuid ← (match guid with
    | none => pure newGuid
    | some g => do
        guardParam (di.findSnapshotByGuid g).isNone
        pure g)
  checkSnapshotCount
  let running ← findDev o
  pure ⟨snapGuid, fileGuid, topGuid, running⟩

/-- What `do_create_snapshot` knows when it begins with the files. -/
structure NewSnapshot where
  fname : Path
  prevFname : Path
  raw : Bool
  running : Bool

/-- The new snapshot in the new version of the descriptor. -/
def listSnapshot (r : Request) (snapDir : Option Path) (temporary : Bool) : DdM NewSnapshot := do
  let snapDir ← (match snapDir with
    | none => pure none
    | some d => do
        call o (.exit .creat)
        pure (some (o.realpath d)))
  let di ← getDi
  let fname := deltaName di snapDir r.fileGuid
  let prevTop ← orParam di.topGuid
  let prevFname ← orParam (di.findImageByGuid prevTop)
  modifyDi (·.changeGuid prevTop r.snapGuid)
  (if temporary then modifyDi (·.setTemporary r.snapGuid) else pure ())
  diAddImage o fname r.topGuid r.snapGuid
  storeDiskdescriptor o true
  pure ⟨fname, prevFname, di.raw, r.running⟩

/-- `do_create_snapshot` up to the new version of the descriptor. -/
def prepareSnapshot (guid : Option Guid) (snapDir : Option Path) (cbt temporary offline : Bool) :
    DdM NewSnapshot := do
  let r ← checkRequest o guid cbt
  (if r.running && !offline then completeRunningOperation o else callRc o)
  mergeTemporarySnapshots o
  listSnapshot o r snapDir temporary

/-- The rest of `do_create_snapshot`. -/
def makeSnapshot (n : NewSnapshot) (cbt online : Bool) : DdM Unit := do
  let made ← attempt (
    if online then createSnapshot o n.fname cbt n.prevFname
    else createOffline o n.fname n.prevFname cbt n.raw n.running)
  match made with
  | .error e => do
      unlinkConfTmp o
      throw e
  | .ok _ =>
      if ← renameConf o then pure ()
      else do
        (if online then pure () else discard (unlinkFile o n.fname))
        unlinkConfTmp o
        throw (.exit .rename)

def doCreateSnapshot (guid : Option Guid) (snapDir : Option Path) (cbt temporary offline : Bool) :
    DdM Unit := do
  let n ← prepareSnapshot o guid snapDir cbt temporary offline
  makeSnapshot o n cbt (n.running && !offline)

def ploopCreateSnapshot (guid : Option Guid) (snapDir : Option Path)
    (cbt temporary offline : Bool) : DdM Unit := do
  lockDd o
  doCreateSnapshot o guid snapDir cbt temporary offline

/-! ## Switch -/

/-- `reset_top_delta` -/
def resetTopDelta (guid : Guid) : DdM Unit := do
  let top ← orParam (← getDi).topGuid
  let oldFname ← diRemoveImage o top false
  modifyDi (·.changeGuid guid topdeltaUuid)
  match ← attempt (storeDiskdescriptor o true) with
  | .error e => do
      unlinkConfTmp o
      throw e
  | .ok _ =>
      if ← renameConf o then do
        let _ ← unlinkFile o oldFname
      else do
        unlinkConfTmp o
        throw (.exit .rename)

/-- The old top goes away, or stays under a new guid. -/
def leaveTop (top : Guid) (skipDestroy : Bool) (guidOld : Option Guid) : DdM (Option Path) := do
  if skipDestroy then
    match guidOld with
    | none => pure none
    | some g => do
        guardParam (isValidGuid g)
        guardParam ((← getDi).findSnapshotByGuid g).isNone
        modifyDi (·.changeGuid top g)
        pure none
  else do
    guardParam (!(← findDev o))
    some <$> diRemoveImage o top false

def ploopSwitchSnapshotEx (guid : Guid) (guidOld : Option Guid) (skipCreate skipDestroy : Bool) :
    DdM Unit := do
  guardParam (isValidGuid guid)
  lockDd o
  let di ← getDi
  guardParam (!di.isTopExactly guid)
  let snap ← orParam (di.snapshotByGuid guid)
  guardParam (!snap.temporary)
  if skipCreate then resetTopDelta o guid
  else do
    callRc o
    let _ ← genUuid o
    let fileUuid ← genUuid o
    let top ← orParam di.topGuid
    let oldFname ← leaveTop o top skipDestroy guidOld
    let fname := deltaName (← getDi) none fileUuid
    diAddImage o fname topdeltaUuid guid
    storeDiskdescriptor o true
    match ← attempt (createSnapshotDelta o .creat fname) with
    | .error e => do
        unlinkConfTmp o
        throw e
    | .ok _ =>
        if ← renameConf o then
          match oldFname with
          | none => pure ()
          | some p => do
              let _ ← unlinkFile o p
        else do
          let _ ← unlinkFile o fname
          unlinkConfTmp o
          throw (.exit .rename)

end Operations

end Ploop.Dd
