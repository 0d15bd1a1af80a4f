import Ploop.Snapshot.Descriptor

/-!
# The descriptor on disk and everything around it

The state that the snapshot operations work on, and the calls of `di.c`,
`xml.c` and `ploop.c` they are made of. Whatever these calls depend on besides
the state is an `Outside` that answers by the number of the call.
-/

namespace Ploop.Dd

open Program Storage

/-- `minusOne` is the -1 of `store_diskdescriptor`, `running` a loop that has not
ended yet. -/
inductive Err where
  | exit (c : Sysexit)
  | minusOne
  | running
  deriving DecidableEq

/-- The delta files, and the stack of the running device from the base up, with
the format of its base. -/
structure Store where
  files : Path → Option File
  kernel : Option (List Path)
  kernelRaw : Bool

namespace Store

def put (s : Store) (p : Path) (f : Option File) : Store :=
  { s with files := Function.update s.files p f }

/-- The files of `fs` are written, over what was there. -/
def write (s : Store) (fs : Path → Option File) : Store :=
  { s with files := fun p => (fs p).or (s.files p) }

/-- A device that runs gets the stack `f` makes of its own. -/
def restack (s : Store) (f : List Path → List Path) : Store :=
  { s with kernel := s.kernel.map f }

theorem isSome_write {s : Store} {p : Path} (fs : Path → Option File)
    (h : (s.files p).isSome) : ((s.write fs).files p).isSome := by
  change ((fs p).or (s.files p)).isSome
  rw [Option.isSome_or, h, Bool.or_true]

/-- One file is written. -/
theorem write_update (s : Store) (p : Path) (f : File) :
    s.write (Function.update (fun _ => none) p (some f)) = s.put p (some f) := by
  unfold write put
  congr 1
  funext q
  by_cases hq : q = p
  · subst hq
    simp
  · simp [Function.update_of_ne hq]

end Store

/-- `DiskDescriptor.xml` is `conf`, and `conf_tmp` the new version beside it. -/
structure World where
  di : DiskImagesData
  conf : DiskImagesData
  confTmp : Option DiskImagesData
  store : Store
  time : ℕ

abbrev DdM := EStateM Err World

/-- The arguments of `merge_image`. -/
structure MergeArgs where
  online : Bool
  startLevel : ℕ
  endLevel : ℕ
  raw : Bool
  mergeTop : Bool
  names : List Path
  newDelta : Option Path

/-- `PLOOP_MNTN_OFF` and so on: what the device is busy with. -/
inductive Mntn where
  | off | balloon | fbloaded | snapshot | track | discard | merge | grow | reloc | pushBackup

/-- What the rest of the system answers: whether a call fails and with which
code, a generated guid, whether a file is mounted or in use, the contents of a
file that is written anew, the state of the device, and what `merge_image`
returns before its ioctls and which files it has written then. -/
structure Outside where
  fails : ℕ → Bool
  code : ℕ → Sysexit
  uuid : ℕ → Guid
  mounted : ℕ → Path → Bool → Option Sysexit
  inUse : ℕ → Path → Bool
  content : ℕ → File
  realpath : Path → Path
  mntn : ℕ → Mntn
  merge : ℕ → MergeArgs → Store → Option Sysexit × (Path → Option File)
  ancestors : List DiskImagesData

/-- Every call succeeds, and no file changes in a merge. -/
def calm : Outside where
  fails := fun _ => false
  code := fun _ => .sys
  uuid := fun _ => noneUuid
  mounted := fun _ _ _ => none
  inUse := fun _ _ => false
  content := fun _ => File.empty
  realpath := id
  mntn := fun _ => .off
  merge := fun _ _ _ => (none, fun _ => none)
  ancestors := []

section Calls

variable (o : Outside)

def tick : DdM ℕ := fun s => .ok s.time { s with time := s.time + 1 }

def modifyDi (f : DiskImagesData → DiskImagesData) : DdM Unit :=
  modify fun s => { s with di := f s.di }

def getDi : DdM DiskImagesData := do pure (← get).di

/-- A call that gives `e` when it fails. -/
def call (e : Err) : DdM Unit := do
  let t ← tick
  if o.fails t then throw e else pure ()

/-- A call that fails with a code of its own. -/
def callRc : DdM Unit := do
  let t ← tick
  if o.fails t then throw (.exit (o.code t)) else pure ()

/-- A call whose result is used, not passed on. -/
def try' : DdM Bool := do pure (!o.fails (← tick))

/-- `malloc`, `realloc` or `strdup` -/
def alloc : DdM Unit := call o (.exit .malloc)

def orParam {α : Type} : Option α → DdM α
  | none => throw (.exit .param)
  | some a => pure a

def guardParam (c : Bool) : DdM Unit := if c then pure () else throw (.exit .param)

/-- The result of a call as a value. -/
def attempt {α : Type} (x : DdM α) : DdM (Except Err α) := fun s =>
  match x s with
  | .ok a s' => .ok (.ok a) s'
  | .error e s' => .ok (.error e) s'

def genUuid : DdM Guid := do
  let t ← tick
  if o.fails t then throw (.exit (o.code t)) else pure (o.uuid t)

/-! ## `di.c` -/

def addImageEntry (fname : Path) (guid : Guid) : DdM Unit := do
  guardParam (isValidGuid guid)
  alloc o
  alloc o
  alloc o
  modifyDi (·.pushImage ⟨guid, fname, false⟩)

def addSnapshotEntry (guid parentGuid : Guid) (temporary : Bool) : DdM Unit := do
  guardParam (isValidGuid guid)
  guardParam (isValidGuid parentGuid)
  alloc o
  alloc o
  alloc o
  modifyDi (·.pushSnapshot ⟨guid, parentGuid, temporary, false⟩)

def diAddImage (fname : Path) (guid parentGuid : Guid) : DdM Unit := do
  alloc o
  addImageEntry o fname guid
  addSnapshotEntry o guid parentGuid false
  modifyDi fun di => { di with topGuid := some guid }

/-- The result is the file of the image. -/
def diRemoveImage (guid : Guid) (renewTopUuid : Bool) : DdM Path := do
  let di ← getDi
  let snapId ← orParam (di.findSnapshotByGuid guid)
  let snapshot ← orParam (di.snapshotByGuid guid)
  let imageId ← orParam (di.findImageIdxByGuid guid)
  let file ← orParam (di.findImageByGuid guid)
  guardParam (di.getChildCountByUuid guid = 0)
  guardParam (!guidEq snapshot.parentGuid noneUuid)
  alloc o
  if renewTopUuid && di.isTop guid then
    modifyDi (·.changeParentGuid snapId snapshot.parentGuid topdeltaUuid)
  else pure ()
  modifyDi (·.dropAt snapId imageId)
  pure file

def diMergeImage (guid : Guid) : DdM Path := do
  let di ← getDi
  let snapId ← orParam (di.findSnapshotByGuid guid)
  let snapshot ← orParam (di.snapshotByGuid guid)
  let imageId ← orParam (di.findImageIdxByGuid guid)
  let file ← orParam (di.findImageByGuid guid)
  guardParam (di.getChildCountByUuid snapshot.parentGuid ≤ 1)
  guardParam (!guidEq snapshot.parentGuid noneUuid)
  alloc o
  modifyDi fun di => (di.mergeGuid guid snapshot).dropAt snapId imageId
  if guidEq snapshot.guid topdeltaUuid then
    modifyDi (·.changeGuid snapshot.parentGuid topdeltaUuid)
  else pure ()
  pure file

/-! ## `xml.c` -/

/-- `convert_disk_descriptor` -/
def convertDiskDescriptor : DdM Unit := do
  let di ← getDi
  if di.vol.isSome then pure ()
  else
    match di.topGuid with
    | none => throw .minusOne
    | some top =>
        if guidEq top topdeltaUuid then pure ()
        else if (di.findImageByGuid topdeltaUuid).isSome ||
            (di.findSnapshotByGuid topdeltaUuid).isSome then throw .minusOne
        else modifyDi (·.changeGuid top topdeltaUuid)

def storeDiskdescriptor (tmp : Bool) : DdM Unit := do
  convertDiskDescriptor
  call o .minusOne
  modify fun s =>
    if tmp then { s with confTmp := some s.di.toXml } else { s with conf := s.di.toXml }

/-- `validate_disk_descriptor` -/
def validate (di : DiskImagesData) : Option DiskImagesData := do
  if di.vol.isSome then some di
  else if di.images.length = 0 || !isValidBlocksize di.blocksize then none
  else
    let di := if di.images.length = di.snapshots.length then di
      else { di with
        snapshots := di.snapshots ++ [⟨topdeltaUuid, noneUuid, false, false⟩]
        topGuid := some (di.topGuid.getD topdeltaUuid) }
    let di := if di.topGuid = none ∧ (di.findSnapshotByGuid topdeltaUuid).isSome then
        { di with topGuid := some topdeltaUuid }
      else di
    let top ← di.topGuid
    let s ← di.snapshotByGuid top
    if isValidGuid top && !s.temporary && di.images.length = di.snapshots.length then some di
    else none

/-- `parse_xml` only keeps entries with guids of the right form. -/
def parse (x : DiskImagesData) : Option DiskImagesData :=
  if (x.images.all fun i => isValidGuid i.guid) &&
      x.snapshots.all fun s => isValidGuid s.guid && isValidGuid s.parentGuid then some x
  else none

/-- `append_dd` -/
def appendDd (src dst : DiskImagesData) : DiskImagesData :=
  { dst with
    images := dst.images ++ src.images.map fun i => { i with alien := true }
    snapshots := dst.snapshots ++ src.snapshots.map fun s => { s with alien := true } }

/-- `ploop_read_dd`, where the descriptors of the ancestor volumes are given. -/
def readDd (x : DiskImagesData) : Option DiskImagesData := do
  let di ← validate (← parse x)
  if di.vol.any fun v => v.parent.isSome then
    some (o.ancestors.foldl (fun dst src => appendDd src dst) di)
  else some di

/-- `ploop_lock_dd` -/
def lockDd : DdM Unit := do
  call o (.exit .lock)
  match readDd o (← get).conf with
  | none => throw (.exit .lock)
  | some di => modifyDi fun _ => di

/-! ## Files and devices -/

def renameConf : DdM Bool := do
  let ok ← try' o
  let s ← get
  match s.confTmp with
  | some x =>
      if ok then do
        set { s with conf := x, confTmp := none }
        pure true
      else pure false
  | none => pure false

def unlinkConfTmp : DdM Unit := do
  if ← try' o then modify fun s => { s with confTmp := none } else pure ()

/-- `unlink` of a delta file; the result is true when it is gone. -/
def unlinkFile (p : Path) : DdM Bool := do
  let ok ← try' o
  let s ← get
  if ok && (s.store.files p).isSome then do
    set { s with store := s.store.put p none }
    pure true
  else pure false

/-- `create_snapshot_delta`: the file must be a new one (`O_EXCL`), and is gone
again after a failure. -/
def createSnapshotDelta (e : Sysexit) (p : Path) : DdM Unit := do
  let t ← tick
  let s ← get
  if o.fails t || (s.store.files p).isSome then throw (.exit e)
  else modify fun s => { s with store := s.store.put p (some (o.content t)) }

/-- A step that writes to a file that exists, such as saving a bitmap. -/
def rewriteFile (p : Path) : DdM Unit := do
  let t ← tick
  modify fun s =>
    { s with store := s.store.put p ((s.store.files p).map fun _ => o.content t) }
  if o.fails t then throw (.exit (o.code t)) else pure ()

/-- `ploop_find_dev_by_dd`: is there a device? -/
def findDev : DdM Bool := do
  call o (.exit .sys)
  pure (← get).store.kernel.isSome

/-- `check_snapshot_mount` -/
def checkSnapshotMount (guid : Guid) (fname : Path) (temporary : Bool) : DdM Unit := do
  if (← getDi).isTop guid then pure ()
  else do
    let t ← tick
    match o.mounted t fname temporary with
    | none => pure ()
    | some c => throw (.exit c)

/-- The clean-up of `create_snapshot` and `merge_image` after a failed step. -/
def orUnlink (delta : Path) (x : DdM Unit) : DdM Unit := do
  match ← attempt x with
  | .ok _ => pure ()
  | .error e => do
      let _ ← unlinkFile o delta
      throw e

/-! ## The stack of the kernel -/

def setStack (f : List Path → List Path) : DdM Unit :=
  modify fun s => { s with store := s.store.restack f }

/-- `replace_delta` -/
def replaceDelta (level : ℕ) (image : Path) : DdM Unit := do
  callRc o
  setStack (·.set level image)

/-- `PLOOP_IOC_DEL_DELTA`, or `PLOOP_IOC_MERGE` for the top delta -/
def dropLevel (level : ℕ) : DdM Unit := do
  call o (.exit .devioc)
  setStack (·.eraseIdx level)

/-- The end of `merge_image` on a running device: a new image takes the place of
the lower delta, and the upper one leaves the stack. -/
def mergeIoctls (a : MergeArgs) : DdM Unit :=
  match a.newDelta with
  | none => do
      call o (.exit .device)
      dropLevel o a.endLevel
  | some newDelta =>
      let newImage := o.realpath newDelta
      if a.mergeTop then orUnlink o newImage do
        replaceDelta o a.startLevel newImage
        call o (.exit .device)
        dropLevel o a.endLevel
      else do
        call o (.exit .device)
        replaceDelta o a.startLevel newImage
        dropLevel o a.endLevel

def mergeImage (a : MergeArgs) : DdM Unit := do
  let t ← tick
  let s ← get
  let r := o.merge t a s.store
  set { s with store := s.store.write r.2 }
  match r.1 with
  | some c => throw (.exit c)
  | none => if a.online then mergeIoctls o a else pure ()

/-! ## What the calls do to the state -/

section Specs

variable {o}

theorem call_run (e : Err) (s : World) : call o e s =
    if o.fails s.time then .error e { s with time := s.time + 1 }
    else .ok () { s with time := s.time + 1 } := by
  change (if o.fails s.time then throw e else pure () : DdM Unit) { s with time := s.time + 1 } = _
  split <;> rfl

theorem callRc_run (s : World) : callRc o s =
    if o.fails s.time then .error (.exit (o.code s.time)) { s with time := s.time + 1 }
    else .ok () { s with time := s.time + 1 } := by
  change (if o.fails s.time then throw (.exit (o.code s.time)) else pure () : DdM Unit)
    { s with time := s.time + 1 } = _
  split <;> rfl

theorem try_run (s : World) : try' o s = .ok (!o.fails s.time) { s with time := s.time + 1 } := rfl

theorem rewriteFile_run (p : Path) (s : World) : ∃ store, store.kernel = s.store.kernel ∧
    rewriteFile o p s =
      if o.fails s.time then .error (.exit (o.code s.time)) { s with store, time := s.time + 1 }
      else .ok () { s with store, time := s.time + 1 } := by
  refine ⟨s.store.put p ((s.store.files p).map fun _ => o.content s.time), rfl, ?_⟩
  change (if o.fails s.time then throw (.exit (o.code s.time)) else pure () : DdM Unit) _ = _
  split <;> rfl

theorem call_ok {e : Err} {s s' : World} {u : Unit} (h : call o e s = .ok u s') :
    s' = { s with time := s.time + 1 } := by
  change (if o.fails s.time then throw e else pure () : DdM Unit) { s with time := s.time + 1 } = _
    at h
  split at h
  · cases h
  · cases h
    rfl

theorem lockDd_ok {w s : World} {u : Unit} (h : lockDd o w = .ok u s) :
    readDd o w.conf = some s.di := by
  change EStateM.bind (call o _) _ w = _ at h
  unfold EStateM.bind at h
  cases hc : call o (.exit .lock) w with
  | error e s' =>
      rw [hc] at h
      cases h
  | ok a s' =>
      rw [hc, call_ok hc] at h
      cases hread : readDd o w.conf with
      | none =>
          change (match readDd o w.conf with
            | none => throw (.exit .lock)
            | some di => modifyDi fun _ => di : DdM Unit) _ = _ at h
          rw [hread] at h
          cases h
      | some di =>
          change (match readDd o w.conf with
            | none => throw (.exit .lock)
            | some di => modifyDi fun _ => di : DdM Unit) _ = _ at h
          rw [hread] at h
          cases h
          rfl

theorem findDev_di {s s' : World} {r : Bool} (h : findDev o s = .ok r s') : s'.di = s.di := by
  change EStateM.bind (call o _) _ s = _ at h
  unfold EStateM.bind at h
  cases hc : call o (.exit .sys) s with
  | error e s₁ =>
      rw [hc] at h
      cases h
  | ok a s₁ =>
      rw [hc, call_ok hc] at h
      cases h
      rfl

theorem guardParam_ok {c : Bool} {s s' : World} {u : Unit} (h : guardParam c s = .ok u s') :
    s' = s := by
  cases c with
  | false => cases h
  | true =>
      cases h
      rfl

end Specs

end Calls

end Ploop.Dd
