import Ploop.Image.Header
import Ploop.Lib.Crash
import Ploop.Lib.Program

/-!
# Open deltas

`struct delta`, the system calls made through it, and `delta_read.c` up to
`clear_delta`. The file behind the descriptor is kept as its initial content
and the log of writes and barriers, so that the same run serves both for what
a process reads back and for what a crash leaves.
-/

namespace Ploop

open Storage

/-- Exit codes of `libploop.h` used by the modelled functions. -/
inductive Sysexit where
  | creat | device | devioc | open | malloc | read | write | sysfs | ploopfmt | sys | protocol
  | loop | fstat | fsync | ebusy | ftruncate | lock | rename | abort | reloc | unlink
  | ploopinuse | param | diskdescr | nosnap
  deriving DecidableEq, Repr

/-! ## The file behind a descriptor -/

structure Disk where
  init : File
  log : List (Event Write)

namespace Disk

def new (f : File) : Disk := ⟨f, []⟩

def file (d : Disk) : File := view File.pwrite d.init d.log

def write (d : Disk) (w : Write) : Disk := { d with log := d.log ++ [.write w] }

def sync (d : Disk) : Disk := { d with log := d.log ++ [.sync] }

/-- A run starts from one file and only appends to its log. -/
def Extends (D D' : Disk) : Prop := D'.init = D.init ∧ D.log <+: D'.log

theorem Extends.refl (D : Disk) : D.Extends D := ⟨rfl, List.prefix_refl _⟩

theorem Extends.trans {D D' D'' : Disk} (h : D.Extends D') (h' : D'.Extends D'') : D.Extends D'' :=
  ⟨h'.1.trans h.1, h.2.trans h'.2⟩

theorem extends_write (D : Disk) (w : Write) : D.Extends (D.write w) :=
  ⟨rfl, List.prefix_append _ _⟩

theorem extends_sync (D : Disk) : D.Extends D.sync := ⟨rfl, List.prefix_append _ _⟩

@[simp] theorem file_new (f : File) : (new f).file = f := rfl

@[simp] theorem file_write (d : Disk) (w : Write) : (d.write w).file = d.file.pwrite w :=
  view_write _ _ _ _

@[simp] theorem file_sync (d : Disk) : d.sync.file = d.file := view_sync _ _ _

/-- A file never shrinks under a run. -/
theorem Extends.size_le {D D' : Disk} (h : D.Extends D') : D.file.size ≤ D'.file.size := by
  obtain ⟨hinit, t, ht⟩ := h
  unfold file
  rw [hinit, ← ht]
  induction t using List.reverseRecOn generalizing D' with
  | nil => rw [List.append_nil]
  | append_singleton t e ih =>
      have ih' := @ih ⟨D.init, D.log ++ t⟩ rfl rfl
      rw [← List.append_assoc]
      cases e with
      | write w =>
          rw [view_write]
          exact ih'.trans (File.le_size_pwrite _ w)
      | sync => rwa [view_sync]

end Disk

/-! ## Units of a delta -/

/-- `ploop_sec_to_ioff` -/
def secToIoff (offSec blocksize : ℕ) : FmtVersion → UInt32
  | .v1 => UInt32.ofNat offSec
  | .v2 => UInt32.ofNat (offSec / blocksize)

/-- `ploop_ioff_to_sec` -/
def ioffToSec (iblk : UInt32) (blocksize : ℕ) : FmtVersion → ℕ
  | .v1 => iblk.toNat
  | .v2 => iblk.toNat * blocksize

/-! ## `struct delta` -/

structure Delta where
  disk : Disk
  hdr0 : PvdHeader
  l2 : ℕ → UInt32
  allocHead : UInt32
  l1Size : ℕ
  l2Size : ℕ
  l2Dirty : Bool
  l2Cache : Option ℕ
  dirtied : ℕ
  blocksize : ℕ
  version : FmtVersion

abbrev DeltaM := EStateM Sysexit Delta

namespace Delta

def file (d : Delta) : File := d.disk.file

def write (d : Delta) (w : Write) : Delta := { d with disk := d.disk.write w }

def sync (d : Delta) : Delta := { d with disk := d.disk.sync }

/-- Bytes in a cluster. -/
def cluster (d : Delta) : ℕ := s2b d.blocksize

@[simp] theorem file_write (d : Delta) (w : Write) : (d.write w).file = d.file.pwrite w :=
  d.disk.file_write w

@[simp] theorem file_sync (d : Delta) : d.sync.file = d.file := d.disk.file_sync

end Delta

/-- `READ` and `PREAD`: a short read is the error `err` of the caller. -/
def pread (err : Sysexit) (len off : ℕ) : DeltaM (ℕ → UInt8) := do
  match (← get).file.pread len off with
  | some buf => pure buf
  | none => throw err

/-- `WRITE` and `PWRITE` -/
def pwrite (off len : ℕ) (src : ℕ → UInt8) : DeltaM Unit := modify (·.write ⟨off, len, src⟩)

def fsync : DeltaM Unit := modify Delta.sync

/-- `open_delta`; `allowDirty` is `OD_ALLOW_DIRTY`. -/
def openDelta (img : File) (allowDirty : Bool) : Option Delta := do
  let buf ← img.pread 4096 0
  let vh := PvdHeader.ofWords (bytesWord buf)
  let version ← ploop1Version vh
  if vh.mType ≠ prlImageCompressed ∨ ¬ isValidBlocksize vh.mSectors.toNat then none
  else if vh.mDiskInUse = signatureDiskInUse ∧ ¬ allowDirty then none
  else some {
    disk := Disk.new img
    hdr0 := vh
    l2 := fun _ => 0
    allocHead := UInt32.ofNat (img.size / u32 (vh.mSectors.toNat * sectorSize))
    l1Size := vh.mFirstBlockOffset.toNat / vh.mSectors.toNat
    l2Size := getSizeInSectors vh / vh.mSectors.toNat
    l2Dirty := false
    l2Cache := none
    dirtied := 0
    blocksize := vh.mSectors.toNat
    version := version }

/-- `change_delta_state` -/
def changeDeltaState (mDiskInUse : UInt32) : DeltaM Unit := do
  pwrite PvdHeader.offDiskInUse 4 (wordBytes fun _ => mDiskInUse)
  fsync

def dirtyDelta : DeltaM Unit := do
  changeDeltaState signatureDiskInUse
  modify fun d => { d with dirtied := 2 }

def clearDelta : DeltaM Unit := do
  changeDeltaState 0
  modify fun d => { d with dirtied := 0 }

/-- `change_delta_flags` -/
def changeDeltaFlags (flags : UInt32) : DeltaM Unit := do
  pwrite PvdHeader.offFlags 4 (wordBytes fun _ => flags)
  fsync

/-- `change_delta_version` -/
def changeDeltaVersion (version : FmtVersion) : DeltaM Unit := do
  let sig := ploop1Signature version
  pwrite 0 16 (wordBytes ({ PvdHeader.zero with mSig := sig }).toWords)
  fsync

/-! ## What a read does -/

section Read

open Program

variable {err : Sysexit} {len off : ℕ} {d : Delta}

theorem pread_run {buf : ℕ → UInt8} (h : d.file.pread len off = some buf) :
    pread err len off d = .ok buf d := by
  rw [pread, get_bind_run, h]
  rfl

theorem pread_run_error (h : d.file.pread len off = none) :
    pread err len off d = .error err d := by
  rw [pread, get_bind_run, h]
  rfl

/-- A read succeeds or passes the end of the file. -/
theorem pread_returns (d : Delta) (err : Sysexit) (len off : ℕ) :
    Triple (fun s => s = d) (pread err len off)
      (fun buf s => s = d ∧ off + len ≤ d.file.size ∧ buf = fun i => d.file.byte (off + i))
      (fun s => s = d ∧ d.file.size < off + len) := by
  rintro s rfl
  by_cases hend : off + len ≤ s.file.size
  · rw [pread_run (File.pread_eq_some.mpr ⟨hend, rfl⟩)]
    exact ⟨rfl, hend, rfl⟩
  · rw [pread_run_error (if_neg hend)]
    exact ⟨rfl, Nat.not_le.mp hend⟩

end Read

/-! ## What every computation keeps -/

/-- The log of the disk has only been appended to. -/
def Delta.Extends (d d' : Delta) : Prop := d.disk.Extends d'.disk

instance : Std.Refl Delta.Extends := ⟨fun d => Disk.Extends.refl d.disk⟩

instance : IsTrans Delta Delta.Extends := ⟨fun _ _ _ h h' => Disk.Extends.trans h h'⟩

/-- The computation reaches the disk through appends to its log only. -/
abbrev Appends {α : Type} (x : DeltaM α) : Prop := Program.Keeps Delta.Extends x

namespace Appends

open Program

theorem forget {f : Delta → Delta} (h : ∀ d, (f d).disk = d.disk) : Appends (modify f) :=
  Keeps.modify fun d => by
    unfold Delta.Extends
    rw [h d]
    exact Disk.Extends.refl _

theorem pread (err : Sysexit) (len off : ℕ) : Appends (pread err len off) := by
  refine Keeps.get.bind fun d => ?_
  cases d.file.pread len off with
  | none => exact Keeps.throw err
  | some buf => exact Keeps.pure buf

theorem pwrite (off len : ℕ) (src : ℕ → UInt8) : Appends (pwrite off len src) :=
  Keeps.modify fun (d : Delta) => d.disk.extends_write _

theorem fsync : Appends fsync := Keeps.modify fun (d : Delta) => d.disk.extends_sync

theorem changeDeltaState (v : UInt32) : Appends (changeDeltaState v) :=
  (pwrite _ _ _).bind fun _ => fsync

theorem dirtyDelta : Appends dirtyDelta :=
  (changeDeltaState _).bind fun _ => forget fun _ => rfl

theorem clearDelta : Appends clearDelta :=
  (changeDeltaState _).bind fun _ => forget fun _ => rfl

end Appends

end Ploop
