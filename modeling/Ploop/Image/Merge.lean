import Ploop.Image.Grow

/-!
# Merging deltas offline

`merge_image` of `merge.c` without a device, with the functions it calls:
`sync_cache`, `locate_l2_entry`, `do_create_delta`, `grow_raw_delta` and the
write side of `ploop_move_cbt`. Images are listed from the top delta down.
-/

namespace Ploop

open Storage

/-! ## The output delta -/

/-- Write the cached cluster of the table back. The header shares cluster 0. -/
def writePage (p cluster : ℕ) : DeltaM Unit := do
  let d ← get
  let skip := if p = 0 then headerBytes else 0
  pwrite (p * cluster + skip) (cluster - skip) fun j => wordBytes d.l2 (j + skip)

/-- Write the cached cluster of the table, with a barrier after it. -/
def writeIndex (cluster : ℕ) : DeltaM Unit := do
  let d ← get
  match d.l2Cache with
  | none => throw .abort
  | some p =>
      if d.l1Size ≤ p then throw .abort
      else do
        writePage p cluster
        fsync

/-- `sync_cache`; its `-1` is `abort` here. -/
def syncCache : DeltaM Unit := do
  let d ← get
  if d.l2Dirty then do
    fsync
    writeIndex d.cluster
    modify fun d => { d with l2Dirty := false }
  else pure ()

def syncIfCached : DeltaM Unit := do
  let d ← get
  if d.l2Cache.isSome then syncCache else pure ()

/-- Make cluster `i` of the table the cached one. -/
def fetchPage (i cluster : ℕ) : DeltaM Unit := do
  let d ← get
  if d.l2Cache = some i then pure ()
  else do
    syncIfCached
    modify fun d => { d with l2Cache := some i }
    let buf ← pread .read cluster (i * cluster)
    modify fun d => { d with l2 := bytesWord buf, l2Dirty := false }

/-- Give slot `k` of the cached cluster a block if it has none. -/
def allocSlot (k blocksize : ℕ) (version : FmtVersion) : DeltaM Unit := do
  let d ← get
  if d.l2 k ≠ 0 then pure ()
  else do
    let entry := secToIoff (d.allocHead.toNat * blocksize) blocksize version
    modify fun d => { d with allocHead := d.allocHead + 1, l2 := Function.update d.l2 k entry }
    if entry = 0 then throw .abort
    else modify fun d => { d with l2Dirty := true }

/-- Put `data` where slot `k` of cluster `i` of the table says. -/
def storeBlock (i k blocksize : ℕ) (version : FmtVersion) (data : ℕ → UInt8) : DeltaM Unit := do
  fetchPage i (s2b blocksize)
  allocSlot k blocksize version
  let entry := (← get).l2 k
  pwrite (s2b (ioffToSec entry blocksize version)) (s2b blocksize) data

def writeIfDirty (cluster : ℕ) : DeltaM Unit := do
  let d ← get
  if d.l2Dirty then writeIndex cluster else pure ()

/-- The end of `merge_image` on a ploop1 destination. `cluster` is that of the
sources, which is what the last cluster of the table is written with. -/
def finishMerge (cluster : ℕ) : DeltaM Unit := do
  fsync
  writeIfDirty cluster
  clearDelta
  fsync

/-! ## The sources -/

/-- Read cluster `i` of the table of a source into its cache. -/
def readL2 (i cluster : ℕ) (d : Delta) : Option Delta :=
  (d.file.pread cluster (i * cluster)).map fun buf =>
    { d with l2 := bytesWord buf, l2Cache := some i }

/-- `locate_l2_entry` over the deltas below the top one: the delta that has an
entry in slot `k` of cluster `i` of its table, and the deltas with what they
have cached by then. -/
def locateL2Entry (i k : ℕ) : List Delta → Except Sysexit (Option Delta × List Delta)
  | [] => .ok (none, [])
  | d :: ds =>
      if d.l2Cache = none ∧ d.l1Size ≤ i then .ok (none, d :: ds) -- grow is monotonic!
      else
        match if d.l2Cache = none then readL2 i d.cluster d else some d with
        | none => .error .read
        | some d =>
            if d.l2 k ≠ 0 then .ok (some d, d :: ds)
            else
              match locateL2Entry i k ds with
              | .ok (r, ds) => .ok (r, d :: ds)
              | .error e => .error e

structure MergeState where
  deltaArr : List Delta
  odelta : Delta

abbrev MergeM := EStateM Sysexit MergeState

/-- An operation on the output delta. -/
def onOutput {α : Type} (x : DeltaM α) : MergeM α := fun s =>
  match x s.odelta with
  | .ok a d => .ok a { s with odelta := d }
  | .error e d => .error e { s with odelta := d }

/-- Load cluster `i` of the top table, and forget those of the deltas below. -/
def loadTop (i cluster : ℕ) : List Delta → Option (List Delta)
  | [] => none
  | top :: lower =>
      match readL2 i cluster top with
      | none => none
      | some top => some (top :: lower.map fun d => { d with l2Cache := none })

/-- The delta to take slot `k` of cluster `i` of the table from. -/
def findSource (i k : ℕ) : List Delta → Except Sysexit (Option Delta × List Delta)
  | [] => .ok (none, [])
  | top :: lower =>
      if top.l2 k ≠ 0 then .ok (some top, top :: lower)
      else
        match locateL2Entry i k lower with
        | .ok (r, lower) => .ok (r, top :: lower)
        | .error e => .error e

/-- Write the data of slot `k` of cluster `i` of the table to the destination. -/
def putBlock (raw : Bool) (blocksize : ℕ) (version : FmtVersion) (i k : ℕ) (data : ℕ → UInt8) :
    DeltaM Unit :=
  if raw then
    pwrite ((i * (s2b blocksize / 4) + k - mapOffset) * s2b blocksize) (s2b blocksize) data
  else storeBlock i k blocksize version data

/-- One slot of the merge loop. -/
def mergeSlot (raw : Bool) (blocksize : ℕ) (version : FmtVersion) (i k : ℕ) : MergeM Unit := do
  let s ← get
  match findSource i k s.deltaArr with
  | .error e => throw e
  | .ok (src, da) => do
      modify fun s => { s with deltaArr := da }
      match src with
      | none => pure ()
      | some src =>
          match src.file.pread (s2b blocksize) (s2b (ioffToSec (src.l2 k) blocksize version)) with
          | none => throw .read
          | some data => onOutput (putBlock raw blocksize version i k data)

/-- Cluster `i` of the table, of `iEnd`. -/
def mergePage (raw : Bool) (blocksize : ℕ) (version : FmtVersion) (l2Size iEnd i : ℕ) :
    MergeM Unit := do
  let s ← get
  match loadTop i (s2b blocksize) s.deltaArr with
  | none => throw .read
  | some da => do
      modify fun s => { s with deltaArr := da }
      let kStart := if i = 0 then mapOffset else 0
      let kEnd := if i = iEnd - 1 then l2Size + mapOffset - i * s2b blocksize / 4
        else s2b blocksize / 4
      Program.forRange (mergeSlot raw blocksize version i) kStart (kEnd - kStart)

def mergeLoop (raw : Bool) (blocksize : ℕ) (version : FmtVersion) (l2Size : ℕ) : MergeM Unit :=
  let iEnd := (l2Size + mapOffset + s2b blocksize / 4 - 1) / (s2b blocksize / 4)
  Program.forRange (mergePage raw blocksize version l2Size iEnd) 0 iEnd

/-- The checks of block size and version against the source opened before. -/
def unlike (prev : Option Delta) (d : Delta) : Bool :=
  prev.any fun p => d.blocksize ≠ p.blocksize ∨ d.version ≠ p.version

/-- `extend_delta_array` for the sources after `prev`. -/
def openSourcesFrom (prev : Option Delta) : List File → Except Sysexit (List Delta)
  | [] => .ok []
  | img :: imgs =>
      match openDelta img false with
      | none => .error .open
      | some d =>
          if unlike prev d then .error .ploopfmt
          else
            match openSourcesFrom (some d) imgs with
            | .error e => .error e
            | .ok ds => .ok (d :: ds)

/-- Every source is opened and compared with the one before. -/
def openSources (imgs : List File) : Except Sysexit (List Delta) := openSourcesFrom none imgs

/-! ## The destination -/

/-- `open_delta` on a file that has been written to before. -/
def reopen (D : Disk) : Option Delta := (openDelta D.file false).map ({ · with disk := D })

/-- `create_image` in expanded mode, up to the name of the file. -/
def createImage (blocksize sizeSec : ℕ) (version : FmtVersion) : Except Sysexit Disk :=
  if sizeSec = 0 then .error .param
  else if ¬ checkBlockdevSize sizeSec blocksize then .error .creat
  else
    let (vh, fill) := generatePvdHeader PvdHeader.zero sizeSec blocksize version
    let cluster := s2b blocksize
    let D := (Disk.new File.empty).write
      ⟨0, cluster, wordBytes ({ vh with mFlags := cifEmpty } : PvdHeader).toWords⟩
    let D := (List.range (fill / cluster - 1)).foldl
      (fun D j => D.write ⟨(j + 1) * cluster, cluster, fun _ => 0⟩) D
    .ok D.sync

/-- `DEF_CLUSTER` -/
def defCluster : ℕ := 1024 * 1024

/-- `grow_raw_delta` without `sparse`: append zeros at the end. -/
def growRawDelta (appendSize : ℕ) : DeltaM Unit := do
  let pos := (← get).file.size
  Program.forRange (fun j => pwrite (pos + j * defCluster) (min defCluster
    (appendSize - j * defCluster)) fun _ => 0) 0 ((appendSize + defCluster - 1) / defCluster)
  fsync

/-- `open_delta_simple`: only the descriptor is used. -/
def openDeltaSimple (img : File) : Delta where
  disk := Disk.new img
  hdr0 := PvdHeader.zero
  l2 := fun _ => 0
  allocHead := 0
  l1Size := 0
  l2Size := 0
  l2Dirty := false
  l2Cache := none
  dirtied := 0
  blocksize := 0
  version := .v1

/-- A dirty bitmap in memory: its constant and stored parts, and the extension
block that describes it once the offsets of the stored parts are known. -/
structure DirtyBitmap where
  parts : List (Option (ℕ → UInt8))
  extBlock : List ℕ → ℕ → UInt8

/-- `save_dirty_bitmap_from_raw`: the stored parts one after the other, from
`offset` on; the result is their offsets in sectors. -/
def saveParts (blockSize : ℕ) : ℕ → List (Option (ℕ → UInt8)) → DeltaM (List ℕ)
  | _, [] => pure []
  | offset, none :: ps => saveParts blockSize offset ps
  | offset, some part :: ps => do
      pwrite offset blockSize part
      let rest ← saveParts blockSize (offset + blockSize) ps
      pure (b2s offset :: rest)

/-- `delta_save_optional_header` from memory. -/
def saveOptionalHeader (bitmap : DirtyBitmap) : DeltaM Unit := do
  let d ← get
  let offsets ← saveParts d.cluster d.file.size bitmap.parts
  let size := (← get).file.size
  let ext := (size + sectorSize - 1) / sectorSize
  let vh := { d.hdr0 with
    mDiskInUse := signatureDiskClosedV21
    mFormatExtensionOffsetLo := UInt32.ofNat ext
    mFormatExtensionOffsetHi := UInt32.ofNat (ext / 2 ^ 32) }
  pwrite 0 headerBytes (wordBytes vh.toWords)
  pwrite (ext * sectorSize) d.cluster (bitmap.extBlock offsets)

/-- `ploop_move_cbt` to a destination without an extension. Its result is not
looked at. `loadCbt` reads the bitmap of the top image. -/
def moveCbt (loadCbt : File → Option DirtyBitmap) (top : File) (D : Disk) : Disk :=
  match loadCbt top, reopen D with
  | some bitmap, some d =>
      match saveOptionalHeader bitmap d with
      | .ok _ d => d.disk
      | .error _ d => d.disk
  | _, _ => D

/-! ## `merge_image` -/

/-- Where `merge_image` puts the result. -/
inductive MergeBase where
  | ploop1 (img : File)
  | raw (img : File)
  | newImage

/-- What is known of the output once a computation on it is over. -/
def outcome : EStateM.Result Sysexit Delta Unit → Except Sysexit Delta × Disk
  | .ok _ d => (.ok d, d.disk)
  | .error e d => (.error e, d.disk)

/-- A ploop1 base is marked and grown to the size of the top delta. -/
def growBase (size : ℕ) : DeltaM Unit := do
  dirtyDelta
  let _ ← growDelta size false

/-- A raw base is as large as the top delta. -/
def growRawBase (size : ℕ) : DeltaM Unit := do
  let dstSize := ((← get).file.size + sectorSize - 1) / sectorSize
  if dstSize < size then growRawDelta (s2b (size - dstSize)) else pure ()

/-- The destination opened, with room for the disk of the top delta. -/
def openOutput (size : ℕ) (blocksize : ℕ) (version : FmtVersion) :
    MergeBase → Except Sysexit Delta × Disk
  | .ploop1 img =>
      match openDelta img false with
      | none => (.error .open, Disk.new img)
      | some d => outcome (growBase size d)
  | .raw img => outcome (growRawBase size (openDeltaSimple img))
  | .newImage =>
      match createImage blocksize size version with
      | .error e => (.error e, Disk.new File.empty)
      | .ok D => -- all of it is on the medium
          match openDelta D.file false with
          | none => (.error .open, D)
          | some d => outcome (dirtyDelta d)

/-- The destination before the merge. -/
def MergeBase.file : MergeBase → File
  | .ploop1 img => img
  | .raw img => img
  | .newImage => File.empty

def MergeBase.isRaw : MergeBase → Bool
  | .raw _ => true
  | _ => false

/-- The merge proper, once everything is open. -/
def mergeBody (raw : Bool) (blocksize : ℕ) (version : FmtVersion) (l2Size : ℕ) : MergeM Unit := do
  mergeLoop raw blocksize version l2Size
  onOutput (if raw then (do fsync; fsync) else finishMerge (s2b blocksize))

/-- With one source in place `images[1]` is the destination, which receives the
dirty bitmap of the top. -/
def afterMerge (loadCbt : File → Option DirtyBitmap) (images : List File) (base : MergeBase)
    (D : Disk) : Disk :=
  match base, images with
  | .ploop1 _, [img] => moveCbt loadCbt img D
  | _, _ => D

/-- The merge with all deltas open. -/
def mergeOpened (loadCbt : File → Option DirtyBitmap) (images : List File) (base : MergeBase)
    (top : Delta) (lower : List Delta) (d : Delta) : Option Sysexit × Disk :=
  match mergeBody base.isRaw top.blocksize top.version top.l2Size ⟨top :: lower, d⟩ with
  | .error e s => (some e, s.odelta.disk)
  | .ok _ s => (none, afterMerge loadCbt images base s.odelta.disk)

/-- `merge_image` without a device, from the source images, top first. The
result is the exit code (`none` is 0) and the destination with its log. -/
def mergeImage (loadCbt : File → Option DirtyBitmap) (images : List File) (base : MergeBase) :
    Option Sysexit × Disk :=
  match openSources images with
  | .error e => (some e, Disk.new base.file)
  | .ok [] => (some .ploopfmt, Disk.new base.file)
  | .ok (top :: lower) =>
      match openOutput (getSizeInSectors top.hdr0) top.blocksize top.version base with
      | (.error e, D) => (some e, D)
      | (.ok d, _) => mergeOpened loadCbt images base top lower d

/-! ## The log -/

namespace Appends

open Program

theorem writePage (p cluster : ℕ) : Appends (writePage p cluster) :=
  Keeps.get.bind fun _ => pwrite _ _ _

theorem writeIndex (cluster : ℕ) : Appends (writeIndex cluster) := by
  refine Keeps.get.bind fun d => ?_
  cases d.l2Cache with
  | none => exact Keeps.throw _
  | some p => exact Keeps.ite (Keeps.throw _) ((writePage p cluster).bind fun _ => fsync)

theorem syncCache : Appends syncCache := by
  refine Keeps.get.bind fun d => Keeps.ite (fsync.bind fun _ => (writeIndex _).bind fun _ =>
    forget ?_) (Keeps.pure _)
  exact fun _ => rfl

theorem syncIfCached : Appends syncIfCached :=
  Keeps.get.bind fun _ => Keeps.ite syncCache (Keeps.pure _)

theorem fetchPage (i cluster : ℕ) : Appends (fetchPage i cluster) := by
  refine Keeps.get.bind fun d => Keeps.ite (Keeps.pure _) (syncIfCached.bind fun _ =>
    (forget ?_).bind fun _ => (pread _ _ _).bind fun _ => forget ?_)
  · exact fun _ => rfl
  · exact fun _ => rfl

theorem allocSlot (k blocksize : ℕ) (version : FmtVersion) :
    Appends (allocSlot k blocksize version) := by
  refine Keeps.get.bind fun d => Keeps.ite (Keeps.pure _) ((forget ?_).bind fun _ =>
    Keeps.ite (Keeps.throw _) (forget ?_))
  · exact fun _ => rfl
  · exact fun _ => rfl

theorem storeBlock (i k blocksize : ℕ) (version : FmtVersion) (data : ℕ → UInt8) :
    Appends (storeBlock i k blocksize version data) :=
  (fetchPage _ _).bind fun _ => (allocSlot _ _ _).bind fun _ => Keeps.get.bind fun _ => pwrite _ _ _

theorem putBlock (raw : Bool) (blocksize : ℕ) (version : FmtVersion) (i k : ℕ)
    (data : ℕ → UInt8) : Appends (putBlock raw blocksize version i k data) :=
  Keeps.ite (pwrite _ _ _) (storeBlock _ _ _ _ _)

theorem finishMerge (cluster : ℕ) : Appends (finishMerge cluster) :=
  fsync.bind fun _ => (Keeps.get.bind fun _ => Keeps.ite (writeIndex _) (Keeps.pure _)).bind
    fun _ => clearDelta.bind fun _ => fsync

theorem growBase (size : ℕ) : Appends (growBase size) :=
  dirtyDelta.bind fun _ => (growDelta _ _).bind fun _ => Keeps.pure _

theorem saveParts (blockSize offset : ℕ) (parts : List (Option (ℕ → UInt8))) :
    Appends (saveParts blockSize offset parts) := by
  induction parts generalizing offset with
  | nil => exact Keeps.pure _
  | cons part parts ih =>
      cases part with
      | none => exact ih offset
      | some part => exact (pwrite _ _ _).bind fun _ => (ih _).bind fun _ => Keeps.pure _

theorem saveOptionalHeader (bitmap : DirtyBitmap) : Appends (saveOptionalHeader bitmap) :=
  Keeps.get.bind fun _ => (saveParts _ _ _).bind fun _ => Keeps.get.bind fun _ =>
    (pwrite _ _ _).bind fun _ => pwrite _ _ _

end Appends

/-- The merge reaches the disk of the destination through appends only. -/
def MergeState.Extends (s s' : MergeState) : Prop := s.odelta.Extends s'.odelta

instance : Std.Refl MergeState.Extends := ⟨fun s => Disk.Extends.refl s.odelta.disk⟩

instance : IsTrans MergeState MergeState.Extends := ⟨fun _ _ _ h h' => Disk.Extends.trans h h'⟩

section Log

open Program

theorem onOutput_keeps {α : Type} {x : DeltaM α} (h : Appends x) :
    Keeps MergeState.Extends (onOutput x) := by
  rintro s' s rfl
  have hx := h s.odelta s.odelta rfl
  unfold onOutput
  cases hrun : x s.odelta with
  | ok a d =>
      rw [hrun] at hx
      exact hx
  | error e d =>
      rw [hrun] at hx
      exact hx

variable (raw : Bool) (blocksize : ℕ) (version : FmtVersion) (l2Size : ℕ)

theorem mergeSlot_keeps (i k : ℕ) :
    Keeps MergeState.Extends (mergeSlot raw blocksize version i k) := by
  refine Keeps.get.bind fun s => ?_
  cases findSource i k s.deltaArr with
  | error e => exact Keeps.throw e
  | ok p =>
      obtain ⟨src, da⟩ := p
      refine Keeps.bind (Keeps.modify ?_) fun _ => ?_
      · exact fun s => Disk.Extends.refl s.odelta.disk
      · cases src with
        | none => exact Keeps.pure _
        | some src =>
            simp only
            cases src.file.pread (s2b blocksize) (s2b (ioffToSec (src.l2 k) blocksize version)) with
            | none => exact Keeps.throw _
            | some data => exact onOutput_keeps (Appends.putBlock _ _ _ _ _ _)

theorem mergeBody_keeps : Keeps MergeState.Extends (mergeBody raw blocksize version l2Size) := by
  refine Keeps.bind (Keeps.forRange (fun i => Keeps.get.bind fun s => ?_) _ _) fun _ =>
    onOutput_keeps (Keeps.ite (Appends.fsync.bind fun _ => Appends.fsync) (Appends.finishMerge _))
  cases loadTop i (s2b blocksize) s.deltaArr with
  | none => exact Keeps.throw _
  | some da =>
      refine Keeps.bind (Keeps.modify ?_) fun _ =>
        Keeps.forRange (mergeSlot_keeps raw blocksize version i) _ _
      exact fun s => Disk.Extends.refl s.odelta.disk

end Log

theorem afterMerge_extends (loadCbt : File → Option DirtyBitmap) (images : List File)
    (base : MergeBase) (D : Disk) : D.Extends (afterMerge loadCbt images base D) := by
  unfold afterMerge
  split
  · unfold moveCbt reopen
    cases loadCbt _ with
    | none => exact Disk.Extends.refl D
    | some bitmap =>
        cases openDelta D.file false with
        | none => exact Disk.Extends.refl D
        | some d =>
            have h := Appends.saveOptionalHeader bitmap { d with disk := D } _ rfl
            simp only [Option.map_some]
            cases hrun : saveOptionalHeader bitmap { d with disk := D } with
            | ok a s =>
                rw [hrun] at h
                exact h
            | error e s =>
                rw [hrun] at h
                exact h
  · exact Disk.Extends.refl D

/-- The ways a merge can end. -/
theorem mergeImage_cases (loadCbt : File → Option DirtyBitmap) (images : List File)
    (base : MergeBase) :
    (∃ e, mergeImage loadCbt images base = (some e, Disk.new base.file)) ∨
      ∃ top lower, openSources images = .ok (top :: lower) ∧
        ((∃ e D, openOutput (getSizeInSectors top.hdr0) top.blocksize top.version base
            = (.error e, D) ∧ mergeImage loadCbt images base = (some e, D)) ∨
          ∃ d D, openOutput (getSizeInSectors top.hdr0) top.blocksize top.version base
            = (.ok d, D) ∧ mergeImage loadCbt images base
              = mergeOpened loadCbt images base top lower d) := by
  unfold mergeImage
  cases hsrc : openSources images with
  | error e => exact Or.inl ⟨e, rfl⟩
  | ok ds =>
      cases ds with
      | nil => exact Or.inl ⟨.ploopfmt, rfl⟩
      | cons top lower =>
          refine Or.inr ⟨top, lower, rfl, ?_⟩
          rcases hout : openOutput (getSizeInSectors top.hdr0) top.blocksize top.version base with
            ⟨_ | d, D⟩
          · exact Or.inl ⟨_, D, rfl, by simp only [hout]⟩
          · exact Or.inr ⟨d, D, rfl, by simp only [hout]⟩

theorem outcome_ok {r : EStateM.Result Sysexit Delta Unit} {d : Delta}
    (h : (outcome r).1 = .ok d) : r = .ok () d := by
  cases r with
  | ok a s =>
      obtain rfl := Except.ok.inj h
      rfl
  | error e s => exact absurd h (by simp [outcome])

/-- What a merge that succeeds has gone through. -/
theorem mergeImage_ok {loadCbt : File → Option DirtyBitmap} {images : List File}
    {base : MergeBase} {D : Disk} (h : mergeImage loadCbt images base = (none, D)) :
    ∃ top lower d s, openSources images = .ok (top :: lower) ∧
      (openOutput (getSizeInSectors top.hdr0) top.blocksize top.version base).1 = .ok d ∧
      mergeBody base.isRaw top.blocksize top.version top.l2Size ⟨top :: lower, d⟩ = .ok () s ∧
      D = afterMerge loadCbt images base s.odelta.disk := by
  rcases mergeImage_cases loadCbt images base with
    ⟨e, hrun⟩ | ⟨top, lower, hsrc, ⟨e, D', -, hrun⟩ | ⟨d, D', hout, hrun⟩⟩
  · exact absurd (hrun.symm.trans h) (by simp)
  · exact absurd (hrun.symm.trans h) (by simp)
  · have hopened := hrun.symm.trans h
    unfold mergeOpened at hopened
    cases hb : mergeBody base.isRaw top.blocksize top.version top.l2Size ⟨top :: lower, d⟩ with
    | error e s =>
        rw [hb] at hopened
        exact absurd hopened (by simp)
    | ok a s =>
        rw [hb] at hopened
        exact ⟨top, lower, d, s, hsrc, by rw [hout], hb, (Prod.mk.inj hopened).2.symm⟩

end Ploop
