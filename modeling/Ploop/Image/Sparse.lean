import Ploop.Image.Cached

/-!
# `check_and_repair_sparse`

What the file system reports as a hole is written with zeros, a cluster at a time, unless a
reverse map of the table says that nothing uses the block.
-/

namespace Ploop.Check

open Storage Program

/-- `struct fiemap_extent` -/
structure Extent where
  logical : ℕ
  length : ℕ
  unwritten : Bool
  last : Bool

/-- What the system answers. `beyond` lies behind the buffer of zeros in memory, and `stray`
behind the reverse map. -/
structure SparseCalls where
  ext4 : Bool
  discard : Bool
  memory : Bool
  reopen : Option Sysexit
  extents : List Extent
  beyond : ℕ → UInt8
  stray : ℕ → UInt32

structure Sparse where
  file : File
  /-- The second descriptor; it is read before the first write. -/
  delta : Delta
  rmap : Option (ℕ → UInt32)
  log : Bool
  /-- Where the reverse map has been read. -/
  lookups : List ℕ
  writes : List Write

abbrev SparseM := EStateM Sysexit Sparse

/-! ## The reverse map -/

/-- `PLOOP_ZERO_INDEX` -/
def zeroIndexMark : UInt32 := 0xffffffff

/-- The loop of `range_build_rmap`: `k` clusters are left, from `clu` on. -/
def rmapScan (iblkStart iblkEnd rlen nRequested : ℕ) :
    ℕ → ℕ → ℕ → (ℕ → UInt32) → DeltaM (ℕ → UInt32)
  | 0, _, _, rmap => pure rmap
  | k + 1, clu, nFound, rmap => do
      let d ← get
      let n := d.cluster / 4
      let l2Cluster := u32 (clu + mapOffset) / n
      let l2Slot := u32 (clu + mapOffset) % n
      if d.l1Size ≤ l2Cluster then throw .abort
      else do
        loadL2 .read l2Cluster
        let d ← get
        let ridx := (d.l2 l2Slot).toNat / (secToIoff d.blocksize d.blocksize d.version).toNat
        if rlen ≤ ridx then throw .ploopfmt
        else if ridx ≠ 0 ∧ ridx < d.l1Size then throw .ploopfmt
        else if iblkStart ≤ ridx ∧ ridx < iblkEnd then
          let rmap := Function.update rmap ridx
            (UInt32.ofNat (l2Cluster * n + l2Slot + 2 ^ 32 - mapOffset))
          if nRequested ≤ nFound + 1 then pure rmap
          else rmapScan iblkStart iblkEnd rlen nRequested k (clu + 1) (nFound + 1) rmap
        else rmapScan iblkStart iblkEnd rlen nRequested k (clu + 1) nFound rmap

/-- `range_build_rmap` -/
def rangeBuildRmap (iblkStart iblkEnd rlen : ℕ) (stray : ℕ → UInt32) :
    DeltaM (ℕ → UInt32) := do
  let d ← get
  if iblkEnd ≤ iblkStart then throw .abort
  else if zeroIndexMark.toNat ≤ d.l2Size then throw .abort
  else do
    modify fun d => { d with l2Cache := none }
    rmapScan iblkStart iblkEnd rlen (iblkEnd - iblkStart) d.l2Size 0 0
      fun i => if i < rlen then zeroIndexMark else stray i

def onDelta {α : Type} (x : DeltaM α) : SparseM α := fun s =>
  match x s.delta with
  | .ok a d => .ok a { s with delta := d }
  | .error e d => .error e { s with delta := d }

/-! ## Filling -/

/-- The part of `fill_hole` that allocates and builds the map once. -/
def needRmap (c : SparseCalls) : SparseM Unit := do
  let s ← get
  if s.rmap.isSome then pure ()
  else if ¬ c.memory then throw .malloc
  else do
    let rmap ← onDelta (rangeBuildRmap 1 (u32 (s.delta.l2Size * 4)) s.delta.l2Size c.stray)
    modify fun s => { s with rmap := some rmap }

def lookupRmap (id : ℕ) : SparseM UInt32 := do
  modify fun s => { s with lookups := id :: s.lookups }
  return ((← get).rmap.getD fun _ => zeroIndexMark) id

/-- `pwrite` from the static buffer of 0x100000 zeros. -/
def fillZeros (c : SparseCalls) (offset len : ℕ) : SparseM Unit :=
  let w : Write := ⟨offset, len, fun j => if j < 0x100000 then 0 else c.beyond j⟩
  modify fun s => { s with file := s.file.pwrite w, writes := w :: s.writes }

/-- Nothing uses the block at `offset`. -/
def skipPiece (c : SparseCalls) (offset : ℕ) : SparseM Bool := do
  if c.discard then do
    needRmap c
    let d := (← get).delta
    if d.l1Size * d.cluster < offset then do
      let clu ← lookupRmap (u32 (offset / d.cluster))
      return clu = zeroIndexMark
    else return false
  else return false

def fillPiece (c : SparseCalls) (offset len : ℕ) : SparseM Unit := do
  if ← skipPiece c offset then pure ()
  else fillZeros c offset len

/-- The loop of `fill_hole`. Every turn takes a byte at least. -/
def fillPieces (c : SparseCalls) (stop : ℕ) : ℕ → ℕ → SparseM Unit
  | 0, _ => pure ()
  | n + 1, offset =>
      if stop ≤ offset then pure ()
      else do
        let cluster := (← get).delta.cluster
        let e := (offset + cluster) / cluster * cluster
        let len := min (e - offset) (stop - offset)
        fillPiece c offset len
        fillPieces c stop n (offset + len)

/-- The first hole is reported. -/
def report (c : SparseCalls) (repair : Bool) : SparseM Unit := do
  if (← get).log then pure ()
  else if ¬ repair then throw .ploopfmt
  else do
    modify fun s => { s with log := true }
    match c.reopen with
    | some e => throw e
    | none => pure ()

/-- `fill_hole` -/
def fillHole (c : SparseCalls) (repair : Bool) (start stop : ℕ) : SparseM Unit := do
  report c repair
  fillPieces c stop (stop - start) start

/-! ## The extents -/

/-- What one `FS_IOC_FIEMAP` reports from `start` on: the buffer holds 730 extents. -/
def fiemap (extents : List Extent) (start len : ℕ) : List Extent :=
  (extents.filter fun e => start < e.logical + e.length ∧ e.logical < start + len).take 730

/-- The `for` loop over the extents of one call; the result is `prev_end` and `last`. -/
def extentLoop (c : SparseCalls) (repair : Bool) (stSize : ℕ) :
    List Extent → ℕ → Bool → SparseM (ℕ × Bool)
  | [], prevEnd, last => pure (prevEnd, last)
  | e :: es, prevEnd, last => do
      if stSize ≤ e.logical then pure (prevEnd, true)
      else do
        let cluster := (← get).delta.cluster
        if e.unwritten ∧ (e.logical % cluster ≠ 0 ∨ e.length % cluster ≠ 0) then
          fillHole c repair e.logical (e.logical + e.length)
        if prevEnd ≠ e.logical then fillHole c repair prevEnd e.logical
        extentLoop c repair stSize es (e.logical + e.length) (last || e.last)

/-- The `while` loop. Every turn takes an extent at least. -/
def fiemapLoop (c : SparseCalls) (repair : Bool) (stSize : ℕ) : ℕ → ℕ → Bool → SparseM ℕ
  | 0, prevEnd, _ => pure prevEnd
  | n + 1, prevEnd, last =>
      if last ∨ stSize ≤ prevEnd then pure prevEnd
      else
        let found := fiemap c.extents prevEnd stSize
        if found = [] then pure prevEnd
        else do
          let (prevEnd, last) ← extentLoop c repair stSize found prevEnd last
          fiemapLoop c repair stSize n prevEnd last

def repairSparse (c : SparseCalls) (repair : Bool) (stSize : ℕ) : SparseM Unit := do
  let prevEnd ← fiemapLoop c repair stSize (c.extents.length + 1) 0 false
  if prevEnd < stSize then fillHole c repair prevEnd stSize

structure Outcome where
  ret : Option Sysexit
  file : File
  lookups : List ℕ
  writes : List Write

/-- `check_and_repair_sparse`; a return of none is 0. -/
def checkAndRepairSparse (c : SparseCalls) (repair : Bool) (img : File) : Outcome :=
  if ¬ c.ext4 then ⟨none, img, [], []⟩
  else match openDelta img true with
    | none => ⟨some .open, img, [], []⟩
    | some delta =>
        match repairSparse c repair img.size ⟨img, delta, none, false, [], []⟩ with
        | .ok _ s => ⟨none, s.file, s.lookups, s.writes⟩
        | .error e s => ⟨some e, s.file, s.lookups, s.writes⟩

end Ploop.Check
