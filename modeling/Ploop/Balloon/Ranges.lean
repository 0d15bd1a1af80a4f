import Ploop.Image.Sparse

/-!
# The relocation range of the balloon

`range_build` takes the blocks before the allocation head apart: which cluster owns each, after
the table of the image or after the map of free blocks, and which of them are free.
-/

namespace Ploop.Balloon

open Check

/-- `struct ploop_free_cluster_extent` -/
structure FreeExtent where
  clu : ℕ
  iblk : ℕ
  len : ℕ

/-- `struct ploop_relocblk` -/
structure RelocExtent where
  clu : ℕ
  iblk : ℕ
  len : ℕ
  free : Bool

/-- `struct freemap` and `struct relocmap` -/
structure ExtentMap (α : Type) where
  nEntriesAlloced : ℕ
  extents : List α

section Maps

variable (realloc : ℕ → Bool)

/-- Room for twice as many entries is made when there is none. -/
def ExtentMap.add {α : Type} (t : ExtentMap α) (e : α) : Option (ExtentMap α) :=
  if t.extents.length = t.nEntriesAlloced then
    if realloc (t.nEntriesAlloced * 2) then some ⟨t.nEntriesAlloced * 2, t.extents ++ [e]⟩
    else none
  else some ⟨t.nEntriesAlloced, t.extents ++ [e]⟩

def freemapAddExtent (t : ExtentMap FreeExtent) (clu iblk len : ℕ) :
    Option (ExtentMap FreeExtent) :=
  t.add realloc ⟨clu, iblk, len⟩

def relocmapAddExtent (t : ExtentMap RelocExtent) (clu iblk len : ℕ) (free : Bool) :
    Option (ExtentMap RelocExtent) :=
  if len = 0 then some t else t.add realloc ⟨clu, iblk, len, free⟩

/-- `x - y` in 32 bits. -/
def u32Sub (x y : ℕ) : ℕ := u32 (x + 2 ^ 32 - y)

/-! ## `rmap2freemap` -/

/-- `e_clu`, `e_iblk`, `e_len` and `state` -/
structure Pending where
  clu : ℕ
  iblk : ℕ
  len : ℕ
  state : Bool

/-- The block goes on with the extent. -/
def Pending.Joins (e : Pending) (iblk clu : ℕ) : Prop :=
  iblk = u32 (e.iblk + e.len) ∧ clu = u32 (e.clu + e.len)

instance (e : Pending) (iblk clu : ℕ) : Decidable (e.Joins iblk clu) :=
  inferInstanceAs (Decidable (_ ∧ _))

/-- The extent ends before the block; its length stays behind. -/
def flushBefore (clu : UInt32) (iblk : ℕ) (e : Pending) (t : ExtentMap FreeExtent) :
    Option (Pending × ExtentMap FreeExtent) :=
  if (clu = zeroIndexMark ∧ e.state) ∨
      (clu ≠ zeroIndexMark ∧ e.state ∧ ¬ e.Joins iblk clu.toNat) then
    (freemapAddExtent realloc t e.clu e.iblk e.len).map fun t =>
      ({ e with clu := 0, iblk := 0, state := false }, t)
  else some (e, t)

/-- What the block makes of the extent. -/
def extend (clu : UInt32) (iblk : ℕ) (e : Pending) : Pending :=
  if clu = zeroIndexMark then e
  else if e.Joins iblk clu.toNat then { e with len := u32 (e.len + 1) }
  else ⟨clu.toNat, iblk, 1, true⟩

/-- The loop over the blocks from `iblk` on, of which `k` are left, and what follows it. -/
def rmapBlocks (rmap : ℕ → UInt32) :
    ℕ → ℕ → Pending → ExtentMap FreeExtent → Option (ExtentMap FreeExtent)
  | 0, _, e, t => if e.state then freemapAddExtent realloc t e.clu e.iblk e.len else some t
  | k + 1, iblk, e, t =>
      (flushBefore realloc (rmap iblk) iblk e t).bind fun r =>
        rmapBlocks rmap k (iblk + 1) (extend (rmap iblk) iblk r.1) r.2

/-- `rmap2freemap` -/
def rmap2freemap (rmap : ℕ → UInt32) (iblkStart iblkEnd : ℕ) (t : ExtentMap FreeExtent) :
    Option (ExtentMap FreeExtent) :=
  rmapBlocks realloc rmap (iblkEnd - iblkStart) iblkStart ⟨0, 0, 0, false⟩ t

/-! ## `range_split` -/

/-- The free extent ends before the block. -/
def endsBefore (ri : ℕ) (f : FreeExtent) : Bool := u32 (f.iblk + f.len) ≤ ri

/-- `l`: up to the end of the free extent that the block lies in, or to its begin. -/
def pieceLen (ri rl : ℕ) (f : FreeExtent) : ℕ :=
  if f.iblk ≤ ri then u32Sub (min (u32 (ri + rl)) (u32 (f.iblk + f.len))) ri
  else u32Sub (min (u32 (ri + rl)) f.iblk) ri

/-- The loop over one extent of the range, with the free extents from `j` on; `none` when it goes
on. -/
def splitExtent : ℕ → List FreeExtent → ℕ → ℕ → ℕ → ExtentMap RelocExtent →
    Option (Except Sysexit (List FreeExtent × ExtentMap RelocExtent))
  | 0, _, _, _, _, _ => none
  | fuel + 1, free, ri, rc, rl, t =>
      if 0 < rl then
        match free.dropWhile (endsBefore ri) with
        | [] =>
            match relocmapAddExtent realloc t rc ri rl false with
            | none => some (.error .malloc)
            | some t => some (.ok ([], t))
        | f :: fs =>
            let l := pieceLen ri rl f
            match relocmapAddExtent realloc t rc ri l (f.iblk ≤ ri) with
            | none => some (.error .malloc)
            | some t =>
                splitExtent fuel (f :: fs) (u32 (ri + l)) (u32 (rc + l)) (u32Sub rl l) t
      else some (.ok (free, t))

/-- The loop over the extents of the range. -/
def splitExtents (fuel : ℕ) : List FreeExtent → List FreeExtent → ExtentMap RelocExtent →
    Option (Except Sysexit (ExtentMap RelocExtent))
  | [], _, t => some (.ok t)
  | e :: es, free, t =>
      match splitExtent realloc fuel free e.iblk e.clu e.len t with
      | none => none
      | some (.error ret) => some (.error ret)
      | some (.ok r) => splitExtents fuel es r.1 r.2

/-- `range_split` -/
def rangeSplit (fuel : ℕ) (rangemap freemap : ExtentMap FreeExtent)
    (relocmap : ExtentMap RelocExtent) : Option (Except Sysexit (ExtentMap RelocExtent)) :=
  match splitExtents realloc fuel rangemap.extents freemap.extents relocmap with
  | some (.ok t) =>
      if t.extents.length < rangemap.extents.length then some (.error .abort) else some (.ok t)
  | r => r

end Maps

/-! ## `range_fix_gaps` -/

/-- The loop over the blocks from `ridx` on, of which `k` are left. -/
def fixGaps : ℕ → ℕ → List FreeExtent → ℕ → (ℕ → UInt32) → ℕ → UInt32
  | 0, _, _, _, rmap => rmap
  | k + 1, ridx, fext, nToFix, rmap =>
      if rmap ridx ≠ zeroIndexMark then fixGaps k (ridx + 1) fext nToFix rmap
      else
        match fext.dropWhile (endsBefore ridx) with
        | [] => rmap
        | f :: fs =>
            if f.iblk ≤ ridx then
              let rmap := Function.update rmap ridx (UInt32.ofNat (f.clu + (ridx - f.iblk)))
              let nToFix := u32Sub nToFix 1
              if nToFix = 0 then rmap else fixGaps k (ridx + 1) (f :: fs) nToFix rmap
            else fixGaps k (ridx + 1) (f :: fs) nToFix rmap

def rangeFixGaps (freemap : ExtentMap FreeExtent) (iblkStart iblkEnd nToFix : ℕ)
    (rmap : ℕ → UInt32) : ℕ → UInt32 :=
  fixGaps (iblkEnd - iblkStart) iblkStart freemap.extents nToFix rmap

/-! ## `range_build` -/

/-- The loop of `range_build_rmap` with `n_found`. -/
def foundScan (iblkStart iblkEnd rlen nRequested : ℕ) :
    ℕ → ℕ → ℕ → (ℕ → UInt32) → DeltaM ((ℕ → UInt32) × ℕ)
  | 0, _, nFound, rmap => pure (rmap, nFound)
  | k + 1, clu, nFound, rmap => do
      let d ← get
      let n := d.cluster / 4
      let l2Cluster := u32 (clu + mapOffset) / n
      let l2Slot := u32 (clu + mapOffset) % n
      if d.l1Size ≤ l2Cluster then throw .abort
      else do
        loadL2 .read l2Cluster
        let d ← get
        let ridx := (d.l2 l2Slot).toNat / (secToIoff d.blocksize d.blocksize d.version).toNat
        if rlen ≤ ridx then throw .ploopfmt
        else if ridx ≠ 0 ∧ ridx < d.l1Size then throw .ploopfmt
        else if iblkStart ≤ ridx ∧ ridx < iblkEnd then
          let rmap := Function.update rmap ridx
            (UInt32.ofNat (l2Cluster * n + l2Slot + 2 ^ 32 - mapOffset))
          if nRequested ≤ nFound + 1 then pure (rmap, nFound + 1)
          else foundScan iblkStart iblkEnd rlen nRequested k (clu + 1) (nFound + 1) rmap
        else foundScan iblkStart iblkEnd rlen nRequested k (clu + 1) nFound rmap

/-- `range_build_rmap` with `*out`. -/
def rangeBuildRmapFound (iblkStart iblkEnd rlen : ℕ) (stray : ℕ → UInt32) :
    DeltaM ((ℕ → UInt32) × ℕ) := do
  let d ← get
  if iblkEnd ≤ iblkStart then throw .abort
  else if zeroIndexMark.toNat ≤ d.l2Size then throw .abort
  else do
    modify fun d => { d with l2Cache := none }
    foundScan iblkStart iblkEnd rlen (iblkEnd - iblkStart) d.l2Size 0 0
      fun i => if i < rlen then zeroIndexMark else stray i

/-- The part of `range_build` after `range_fix_gaps`. -/
def rangeMaps (realloc : ℕ → Bool) (fuel s aH : ℕ) (freemap rangemap : ExtentMap FreeExtent)
    (relocmap : ExtentMap RelocExtent) (rmap : ℕ → UInt32) :
    DeltaM (Option (ExtentMap FreeExtent × ExtentMap RelocExtent)) :=
  match rmap2freemap realloc rmap s aH rangemap with
  | none => throw .malloc
  | some rangemap =>
      match rangeSplit realloc fuel rangemap freemap relocmap with
      | none => pure none
      | some (.error ret) => throw ret
      | some (.ok relocmap) => pure (some (rangemap, relocmap))

/-- `range_build` -/
def rangeBuild (realloc : ℕ → Bool) (fuel aH nFreeBlocks rlen : ℕ) (stray : ℕ → UInt32)
    (freemap rangemap : ExtentMap FreeExtent) (relocmap : ExtentMap RelocExtent) :
    DeltaM (Option (ExtentMap FreeExtent × ExtentMap RelocExtent)) := do
  let s := u32Sub aH nFreeBlocks
  let (rmap, n) ← rangeBuildRmapFound s aH rlen stray
  rangeMaps realloc fuel s aH freemap rangemap relocmap
    (if n ≠ nFreeBlocks then rangeFixGaps freemap s aH (u32Sub nFreeBlocks n) rmap else rmap)

end Ploop.Balloon
