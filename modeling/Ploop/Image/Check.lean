import Ploop.Image.Layout

/-!
# `ploop_check`

The check looks at every slot of the index, cuts what follows the last block in
use and puts the header right. It never writes to a data block.
-/

namespace Ploop.Check

open Storage Program

/-- `CHECK_FORCE`, `CHECK_HARDFORCE` and so on. -/
structure Flags where
  force : Bool
  hardForce : Bool
  detailed : Bool
  dropInuse : Bool
  readonly : Bool
  raw : Bool
  talkative : Bool

/-- What the system answers: whether there is memory for the buffer and the bitmap,
and how `reopen_rw`, `check_and_repair_sparse` and `close` end. The repair of a sparse
file writes zeros where it reads as zero. -/
structure Calls where
  buffer : Bool
  bitmap : Bool
  reopen : Option Sysexit
  sparse : Option Sysexit
  close : Option Sysexit

/-- The file, what the caller's pointers point to, and the variables that
`struct ploop_check_desc` shares with `ploop_check`. -/
structure State where
  file : File
  blocksize : Option ℕ
  cbtAllowed : Option Bool
  clean : Bool
  fatality : Bool
  allocHead : ℕ
  bmap : ℕ → Bool

abbrev CheckM := EStateM Sysexit State

def readSafe (len off : ℕ) : CheckM (ℕ → UInt8) := do
  match (← get).file.pread len off with
  | some buf => pure buf
  | none => throw .read

def writeSafe (len off : ℕ) (buf : ℕ → UInt8) : CheckM Unit :=
  modify fun s => { s with file := s.file.pwrite ⟨off, len, buf⟩ }

/-- An `off_t` from 64 bits. -/
def offT (x : ℕ) : ℤ := if x < 2 ^ 63 then x else x - 2 ^ 64

/-! ## Slots -/

/-- The input of `struct ploop_check_desc`. -/
structure Desc where
  ro : Bool
  hardForce : Bool
  check : Bool
  bdSize : ℤ
  size : ℕ

def zeroIndex (clu : ℕ) : CheckM Unit := writeSafe 4 (clu * 4 + headerBytes) fun _ => 0

def zeroIndexFix (d : Desc) (clu : ℕ) (hardFix ignore fatal : Bool) : CheckM Unit :=
  if d.ro ∨ (hardFix ∧ ¬ d.hardForce) then
    modify fun s => { s with clean := false, fatality := s.fatality || fatal }
  else if ignore then pure ()
  else zeroIndex clu

/-- The part of `check_one_slot` for `d->check`. -/
def markBlock (d : Desc) (clu iblk : ℕ) : CheckM Unit := do
  if (← get).bmap iblk then zeroIndexFix d clu true true true
  modify fun s => { s with bmap := Function.update s.bmap iblk true }

def checkOneSlot (d : Desc) (clu isec blocksize : ℕ) (version : FmtVersion) : CheckM Unit :=
  let clusterLog := ffs blocksize - 1
  let iblk := u32 (isec >>> clusterLog)
  if d.bdSize < u32 (clu <<< clusterLog) then zeroIndexFix d clu false false false
  else if version = .v1 ∧ isec % 2 ^ clusterLog ≠ 0 then zeroIndexFix d clu true false true
  else if d.size < iblk * s2b blocksize + s2b blocksize then zeroIndexFix d clu true false true
  else do
    if d.check then markBlock d clu iblk
    modify fun s => { s with allocHead := max s.allocHead iblk }

/-- The slots of cluster `i` of the index; `l2_slot` counts the slots before. -/
def checkCluster (d : Desc) (vh : PvdHeader) (version : FmtVersion) (inUse : Bool) (i : ℕ) :
    CheckM Unit := do
  let blocksize := vh.mSectors.toNat
  let cluster := s2b blocksize
  let skip := if i = 0 then mapOffset else 0
  let l2 ← readSafe cluster (i * cluster)
  if ¬ d.ro ∧ inUse then writeSafe cluster (i * cluster) l2
  forRange (fun j =>
    let l2Slot := u32 (i * (cluster / 4) + j - mapOffset)
    if bytesWord l2 j = 0 then pure ()
    else checkOneSlot d l2Slot (ioffToSec (bytesWord l2 j) blocksize version) blocksize version)
    skip (cluster / 4 - skip)

/-! ## The whole check -/

/-- The result is whether there is a bitmap. -/
def startBitmap (c : Calls) (flags : Flags) (l1Slots : ℕ) : CheckM Bool :=
  if flags.detailed then
    if c.bitmap then do
      modify fun s => { s with bmap := fun b => b < l1Slots }
      pure true
    else if flags.talkative then pure false
    else throw .malloc
  else pure false

/-- What follows the loop over the index. -/
def finish (flags : Flags) (vh : PvdHeader) (l1Slots stSize : ℕ) (inUse : Bool) : CheckM Unit := do
  let s ← get
  let cluster := s2b vh.mSectors.toNat
  let allocHead := u32 (s.allocHead + 1)
  if s.fatality then throw .ploopfmt
  else do
    let tail : Bool := allocHead * cluster < stSize
    if tail ∧ ¬ flags.readonly then
      modify fun s => { s with file := s.file.ftruncate (allocHead * cluster) }
    let allocHead := if tail ∧ flags.readonly then u32 ((stSize + cluster - 1) / cluster)
      else allocHead
    let mFlags := if l1Slots < allocHead then vh.mFlags &&& ~~~cifEmpty else vh.mFlags ||| cifEmpty
    if inUse ∧ ¬ flags.dropInuse then throw .ploopinuse
    else if ¬ s.clean then throw .ploopfmt
    else if ¬ inUse ∧ vh.mFlags = mFlags then pure ()
    else if flags.readonly then throw .write
    else writeSafe headerBytes 0 (wordBytes ({ vh with mDiskInUse := 0, mFlags := mFlags }).toWords)

def checkIndex (c : Calls) (flags : Flags) (vh : PvdHeader) (version : FmtVersion)
    (l1Slots stSize : ℕ) (inUse : Bool) : CheckM Unit := do
  let check ← startBitmap c flags l1Slots
  match (if flags.readonly then none else c.reopen) with
  | some e => throw e
  | none => do
      let d : Desc := ⟨flags.readonly, flags.hardForce, check, offT (getSizeInSectors vh), stSize⟩
      forRange (checkCluster d vh version inUse) 0 l1Slots
      finish flags vh l1Slots stSize inUse

def checkImage (c : Calls) (flags : Flags) : CheckM Unit := do
  let stSize := (← get).file.size
  let buf ← readSafe headerBytes 0
  let vh := PvdHeader.ofWords (bytesWord buf)
  let blocksize := vh.mSectors.toNat
  let l1Slots := vh.mFirstBlockOffset.toNat >>> (ffs blocksize - 1)
  match ploop1Version vh with
  | none => throw .ploopfmt
  | some version =>
      if vh.mType ≠ prlImageCompressed then throw .ploopfmt
      else if ¬ isValidBlocksize blocksize then throw .ploopfmt
      else if vh.mFirstBlockOffset.toNat % blocksize ≠ 0 ∨ l1Slots = 0 then throw .ploopfmt
      else do
        modify fun s => { s with blocksize := s.blocksize.map fun _ => blocksize }
        if ¬ c.buffer then throw .malloc
        else do
          let inUse : Bool := vh.mDiskInUse = signatureDiskInUse
          modify fun s => { s with allocHead := l1Slots - 1, cbtAllowed := some !inUse }
          if ¬ inUse ∧ ¬ flags.force then pure ()
          else if inUse ∧ vh.mFlags &&& cifFmtVersionConvert ≠ 0 then throw .ebusy
          else checkIndex c flags vh version l1Slots stSize inUse

/-- `CHECK_RAW` needs no more than a block size. -/
def checkRaw : CheckM Unit := do
  match (← get).blocksize with
  | none => throw .param
  | some blocksize => if blocksize = 0 then throw .param else pure ()

/-- `blocksize` is what `blocksize_p` points to. The result is none for 0. -/
def ploopCheck (c : Calls) (flags : Flags) (blocksize : Option ℕ) (img : File) :
    Option Sysexit × State :=
  let start : State := ⟨img, blocksize, none, true, false, 0, fun _ => false⟩
  match (if flags.raw then checkRaw else checkImage c flags) start with
  | .ok _ s => (c.sparse.or c.close, s)
  | .error e s => (some e, s)

end Ploop.Check
