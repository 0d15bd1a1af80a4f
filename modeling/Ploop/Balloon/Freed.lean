import Ploop.Balloon.Fiemap
import Ploop.Balloon.Relocation

/-!
# What the balloon frees

`fiemap_build_rmap` looks the clusters of the extents up in the table, and what the reverse map
then holds is given to the kernel.
-/

namespace Ploop.Balloon

open Storage Program Check

/-! ## `fiemap_build_rmap` -/

/-- The slots of a page from `j` on, of which `k` are left. -/
def processSlots (rlen l2Cluster n : ℕ) : ℕ → ℕ → (ℕ → UInt32) → DeltaM (ℕ → UInt32)
  | 0, _, rmap => pure rmap
  | k + 1, j, rmap => do
      let d ← get
      if d.l2 j = 0 then processSlots rlen l2Cluster n k (j + 1) rmap
      else
        let ridx := (d.l2 j).toNat / (secToIoff d.blocksize d.blocksize d.version).toNat
        if rlen ≤ ridx then throw .ploopfmt
        else if ridx < d.l1Size then throw .ploopfmt
        else processSlots rlen l2Cluster n k (j + 1) (Function.update rmap ridx
          (UInt32.ofNat (l2Cluster * n + j + 2 ^ 32 - mapOffset)))

/-- The loop of `fiemap_extent_process`; `none` when it goes on. -/
def fiemapExtentProcess (rlen : ℕ) : ℕ → ℕ → ℕ → (ℕ → UInt32) → DeltaM (Option (ℕ → UInt32))
  | 0, _, _, _ => pure none
  | fuel + 1, clu, len, rmap => do
      if len = 0 then pure (some rmap)
      else
        let d ← get
        let n := d.cluster / 4
        let l2Cluster := u32 (clu + mapOffset) / n
        let l2Slot := u32 (clu + mapOffset) % n
        let last := min (u32 (l2Slot + len)) n
        if d.l1Size ≤ l2Cluster then throw .abort
        else do
          loadL2 .read l2Cluster
          let rmap ← processSlots rlen l2Cluster n (last - l2Slot) l2Slot rmap
          fiemapExtentProcess rlen fuel (u32 (clu + u32Sub last l2Slot))
            (u32Sub len (u32Sub last l2Slot)) rmap

/-- The loop of `fiemap_build_rmap`. -/
def processExtents (rlen fuel : ℕ) :
    List PloopExtent → (ℕ → UInt32) → DeltaM (Option (ℕ → UInt32))
  | [], rmap => pure (some rmap)
  | e :: es, rmap => do
      let d ← get
      let clu := e.pos / d.cluster
      let len := e.len / d.cluster
      if u64 (clu * d.cluster) ≠ e.pos ∨ u64 (len * d.cluster) ≠ e.len ∨
          zeroIndexMark.toNat ≤ clu ∨ zeroIndexMark.toNat ≤ len then throw .abort
      else
        match ← fiemapExtentProcess rlen fuel clu len rmap with
        | none => pure none
        | some rmap => processExtents rlen fuel es rmap

def fiemapBuildRmap (rlen fuel : ℕ) (stray : ℕ → UInt32) (t : ExtentMap PloopExtent) :
    DeltaM (Option (ℕ → UInt32)) := do
  modify fun d => { d with l2Cache := none }
  processExtents rlen fuel t.extents fun i => if i < rlen then zeroIndexMark else stray i

/-! ## What is given to `PLOOP_IOC_FREEBLKS` -/

/-- `freemap2freeblks`: the extents and the number of their blocks. -/
def freemap2freeblks (alloced : Bool) (t : ExtentMap FreeExtent) :
    Except Sysexit (List FreeExtent × ℕ) :=
  if alloced = false then .error .malloc
  else if t.extents.any fun e => e.len = 0 then .error .abort
  else .ok (t.extents, u32 (t.extents.map FreeExtent.len).sum)

/-- The answers of the kernel, and of `malloc` for the reverse map and for the result. -/
structure Kernel where
  fiemap : ℕ → ℕ → Except Sysexit (List FiemapExtent)
  realloc : ℕ → Bool
  reverseMap : Bool
  freeblks : Bool

/-- `nothing` is a balloon without a whole cluster, `running` a loop that has not ended yet. -/
inductive Freed where
  | nothing
  | blocks (m : List FreeExtent) (total : ℕ)
  | running

def orThrow {α : Type} : Except Sysexit α → DeltaM α
  | .error rc => throw rc
  | .ok a => pure a

def Freed.isBlocks : Freed → Bool
  | .blocks _ _ => true
  | _ => false

/-- The part of `ploop_balloon_change_size` from the reverse map to the kernel. -/
def freeblksOf (K : Kernel) (fuel : ℕ) (stray : ℕ → UInt32) (devStart oldSize newSize : ℕ) :
    DeltaM Freed := do
  let d ← get
  let rlen := u32 (d.l2Size + d.l2Size)
  if K.reverseMap = false then throw .malloc
  else
    match fiemapGet K.realloc K.fiemap (s2b devStart) oldSize newSize fuel 0 oldSize 0
        ⟨128, []⟩ with
    | none => pure .running
    | some r => do
        let pfiemap ← orThrow r
        match ← fiemapBuildRmap rlen fuel stray (fiemapAdjust d.cluster pfiemap) with
        | none => pure .running
        | some rmap =>
            match rmap2freemap K.realloc rmap 0 rlen ⟨128, []⟩ with
            | none => throw .malloc
            | some freemap =>
                if freemap.extents.length = 0 then pure .nothing
                else do
                  let (m, total) ← orThrow (freemap2freeblks K.freeblks freemap)
                  pure (.blocks m total)

/-! ## What the reverse map holds -/

/-- The bytes of cluster `c` are in `F`. -/
def WholeCluster (f : File) (F : ℕ → Prop) (c : ℕ) : Prop :=
  ∀ x, c * f.hdr.layout.cluster ≤ x → x < (c + 1) * f.hdr.layout.cluster → F x

/-- A block has the cluster that the table maps to it, and all of that is in `F`. -/
def Mapped (f : File) (F : ℕ → Prop) (rlen : ℕ) (rmap : ℕ → UInt32) : Prop :=
  ∀ b < rlen, rmap b ≠ zeroIndexMark →
    WholeCluster f F (rmap b).toNat ∧ f.hdr.layout.bat f (rmap b).toNat = some b

section Mapped

variable {f : File} {F : ℕ → Prop} {rlen : ℕ} {rmap : ℕ → UInt32}

/-- The clusters of an extent lie in it. -/
theorem PloopExtent.Within.whole {e : PloopExtent} {clu len c : ℕ}
    (he : e.Within F (f.hdr.layout.l2Size * f.hdr.layout.cluster))
    (hpos : clu * f.hdr.layout.cluster = e.pos) (hlen : len * f.hdr.layout.cluster = e.len)
    (hc : clu ≤ c) (hlt : c < clu + len) : WholeCluster f F c := by
  intro x hx hxc
  apply he.bytes
  · rw [← hpos]
    exact (Nat.mul_le_mul_right _ hc).trans hx
  · rw [← hpos, ← hlen, ← Nat.add_mul]
    exact hxc.trans_le (Nat.mul_le_mul_right _ hlt)

variable (hslots : f.hdr.layout.l2Size + mapOffset ≤ 2 ^ 32)

include hslots

theorem Mapped.put {b c : ℕ} (h : Mapped f F rlen rmap) (hb : f.hdr.layout.bat f c = some b)
    (hc : WholeCluster f F c) : Mapped f F rlen (Function.update rmap b (UInt32.ofNat c)) := by
  intro x hx hne
  by_cases hxb : x = b
  · subst hxb
    have hlt := Layout.bat_lt hb
    rw [Function.update_self, toNat_ofNat_clu (by rw [mapOffset] at hslots; omega)]
    exact ⟨hc, hb⟩
  · rw [Function.update_of_ne hxb] at hne ⊢
    exact h x hx hne

variable (hwf : WellFormed f)

include hwf

/-- The slots of a page are those of clusters in `F`. -/
theorem processSlots_spec {p j k : ℕ} (hj : mapOffset ≤ p * f.hdr.layout.slots + j)
    (hk : j + k ≤ f.hdr.layout.slots)
    (hlast : p * f.hdr.layout.slots + j + k ≤ f.hdr.layout.l2Size + mapOffset)
    (hin : ∀ i, j ≤ i → i < j + k → WholeCluster f F (p * f.hdr.layout.slots + i - mapOffset))
    (h : Mapped f F rlen rmap) :
    Triple (fun d => Cached f f.hdr.layout d ∧ d.l2Cache = some p)
      (processSlots rlen p f.hdr.layout.slots k j rmap)
      (fun rmap d => Cached f f.hdr.layout d ∧ Mapped f F rlen rmap) (fun _ => True) := by
  have hL := hwf.header.layout
  induction k generalizing j rmap with
  | zero =>
      apply Triple.ret
      rintro d ⟨hd, -⟩
      exact ⟨hd, h⟩
  | succ k ih =>
      obtain ⟨c, hc⟩ := Nat.exists_eq_add_of_le' hj
      have hclu : c < f.hdr.layout.l2Size := by omega
      have hrest : ∀ i, j + 1 ≤ i → i < j + 1 + k →
          WholeCluster f F (p * f.hdr.layout.slots + i - mapOffset) :=
        fun i hi hik => hin i (by omega) (by omega)
      apply Triple.look
      rintro d ⟨hd, hcache⟩
      have hword : d.l2 j = Layout.entry f c := by
        rw [hd.page p hcache j (by omega), hc]
        rfl
      have hskip : Triple (fun s => s = d)
          (processSlots rlen p f.hdr.layout.slots k (j + 1) rmap)
          (fun rmap d => Cached f f.hdr.layout d ∧ Mapped f F rlen rmap) (fun _ => True) :=
        (ih (by omega) (by omega) (by omega) hrest h).conseq
          (fun s hs => hs ▸ ⟨hd, hcache⟩) (fun _ _ hs => hs) fun _ hs => hs
      rw [hword]
      split
      case isTrue => exact hskip
      case isFalse hne =>
        cases hb : f.hdr.layout.bat f c with
        | none => exact absurd ((Layout.bat_eq_none hclu).mp hb) hne
        | some b =>
            have hridx : (Layout.entry f c).toNat /
                (secToIoff d.blocksize d.blocksize d.version).toNat = b := by
              have heq := ridx_eq hwf hslots hclu
              rw [hb, Option.getD_some, ridx, u32_of_lt (by omega)] at heq
              rwa [hd.blocksize, hd.version]
            have hlabel : UInt32.ofNat (p * f.hdr.layout.slots + j + 2 ^ 32 - mapOffset) =
                UInt32.ofNat c := by
              rw [hc]
              apply UInt32.toNat_inj.mp
              rw [UInt32.toNat_ofNat', UInt32.toNat_ofNat', Nat.add_right_comm,
                Nat.add_sub_cancel, Nat.add_mod_right]
            have hwhole := hin j le_rfl (by omega)
            rw [hc, Nat.add_sub_cancel] at hwhole
            dsimp only
            rw [hridx, hlabel]
            split
            case isTrue => exact Triple.raise fun _ _ => True.intro
            case isFalse =>
              split
              case isTrue => exact Triple.raise fun _ _ => True.intro
              case isFalse =>
                exact (ih (by omega) (by omega) (by omega) hrest
                  (h.put hslots hb hwhole)).conseq (fun s hs => hs ▸ ⟨hd, hcache⟩)
                  (fun _ _ hs => hs) fun _ hs => hs

theorem fiemapExtentProcess_spec {fuel clu len : ℕ} (hend : clu + len ≤ f.hdr.layout.l2Size)
    (hin : ∀ c, clu ≤ c → c < clu + len → WholeCluster f F c) (h : Mapped f F rlen rmap) :
    Triple (Cached f f.hdr.layout) (fiemapExtentProcess rlen fuel clu len rmap)
      (fun r d => Cached f f.hdr.layout d ∧ ∀ rmap, r = some rmap → Mapped f F rlen rmap)
      (fun _ => True) := by
  have hL := hwf.header.layout
  have hoff : mapOffset = 16 := rfl
  induction fuel generalizing clu len rmap with
  | zero => exact Triple.ret fun d hd => ⟨hd, nofun⟩
  | succ fuel ih =>
      rw [fiemapExtentProcess]
      split
      case isTrue =>
        apply Triple.ret
        intro d hd
        exact ⟨hd, fun rmap' heq => Option.some.inj heq ▸ h⟩
      case isFalse hlen =>
        have hslot : u32 (clu + mapOffset) = clu + mapOffset := u32_of_lt (by omega)
        have hdiv := Nat.div_add_mod' (clu + mapOffset) f.hdr.layout.slots
        have hmod := Nat.mod_lt (clu + mapOffset) hL.slots_pos
        apply Triple.look
        intro d hd
        dsimp only
        rw [hd.slots, hslot]
        generalize (clu + mapOffset) / f.hdr.layout.slots = p at hdiv ⊢
        generalize (clu + mapOffset) % f.hdr.layout.slots = slot at hdiv hmod ⊢
        split
        case isTrue => exact Triple.raise fun _ _ => True.intro
        case isFalse =>
          apply Triple.bind (R := fun _ e => Cached f f.hdr.layout e ∧ e.l2Cache = some p)
          · exact (loadL2_cached hd .read p).conseq (fun _ he => he) (fun _ _ he => he)
              fun _ _ => True.intro
          intro _
          generalize hlast : min (u32 (slot + len)) f.hdr.layout.slots = last
          have hroom : last - slot ≤ len ∧ last - slot + slot ≤ max slot f.hdr.layout.slots ∧
              u32Sub last slot ≤ len := by
            rcases Nat.lt_or_ge (slot + len) (2 ^ 32) with hlt | hge
            · rw [u32_of_lt hlt] at hlast
              rw [u32Sub_of_le (by omega) (by omega)]
              omega
            · -- the sum of two 32-bit numbers is 0 and nothing of the extent is looked at
              have hzero : slot + len = 2 ^ 32 := by omega
              rw [hzero, show u32 (2 ^ 32) = 0 from rfl, Nat.zero_min] at hlast
              subst hlast
              rw [u32Sub, u32_of_lt (by omega)]
              omega
          obtain ⟨hle, hpage, hstep⟩ := hroom
          apply Triple.bind (R := fun rmap e => Cached f f.hdr.layout e ∧ Mapped f F rlen rmap)
          · apply processSlots_spec hslots hwf (by omega) (by omega) (by omega) _ h
            intro i hi hik
            exact hin _ (by omega) (by omega)
          · intro rmap'
            apply Triple.start
            rintro e ⟨he, hmap⟩
            rw [u32_of_lt (by omega), u32Sub_of_le (by omega) hstep]
            exact (ih (by omega) (fun c hc hlt => hin c (by omega) (by omega)) hmap).conseq
              (fun s hs => hs ▸ he) (fun _ _ hs => hs) fun _ hs => hs

theorem processExtents_spec {fuel : ℕ} {es : List PloopExtent}
    (hes : ∀ e ∈ es, e.Within F (f.hdr.layout.l2Size * f.hdr.layout.cluster))
    (hB : f.hdr.layout.l2Size * f.hdr.layout.cluster < 2 ^ 64) (h : Mapped f F rlen rmap) :
    Triple (Cached f f.hdr.layout) (processExtents rlen fuel es rmap)
      (fun r _ => ∀ rmap, r = some rmap → Mapped f F rlen rmap) (fun _ => True) := by
  have hpos := hwf.header.layout.cluster_pos
  induction es generalizing rmap with
  | nil =>
      apply Triple.ret
      intro d _ rmap' heq
      exact Option.some.inj heq ▸ h
  | cons e es ih =>
      obtain ⟨he, hrest⟩ := List.forall_mem_cons.mp hes
      have hfit := he.ends
      have hclu := Nat.div_mul_le_self e.pos f.hdr.layout.cluster
      have hlen := Nat.div_mul_le_self e.len f.hdr.layout.cluster
      rw [processExtents]
      apply Triple.look
      intro d hd
      dsimp only
      rw [hd.cluster, u64_of_lt (by omega), u64_of_lt (by omega)]
      split
      case isTrue => exact Triple.raise fun _ _ => True.intro
      case isFalse hok =>
        obtain ⟨hclu, hok⟩ := not_or.mp hok
        obtain ⟨hlen, -⟩ := not_or.mp hok
        have hclu := not_not.mp hclu
        have hlen := not_not.mp hlen
        apply Triple.bind (R := fun r e => Cached f f.hdr.layout e ∧
          ∀ rmap, r = some rmap → Mapped f F rlen rmap)
        · apply (fiemapExtentProcess_spec hslots hwf _ (fun c => he.whole hclu hlen) h).conseq
          · rintro s rfl
            exact hd
          · exact fun _ _ hs => hs
          · exact fun _ _ => True.intro
          · refine Nat.le_of_mul_le_mul_right ?_ hpos
            rwa [Nat.add_mul, hclu, hlen]
        · intro r
          apply Triple.start
          rintro t ⟨ht, hr⟩
          cases r with
          | none => exact Triple.ret fun _ _ => nofun
          | some rmap' =>
              exact (ih hrest (hr rmap' rfl)).conseq (fun _ hs => hs ▸ ht) (fun _ _ hs => hs)
                fun _ hs => hs

theorem fiemapBuildRmap_spec {fuel : ℕ} {stray : ℕ → UInt32} {t : ExtentMap PloopExtent}
    (ht : ∀ e ∈ t.extents, e.Within F (f.hdr.layout.l2Size * f.hdr.layout.cluster))
    (hB : f.hdr.layout.l2Size * f.hdr.layout.cluster < 2 ^ 64) :
    Triple (Cached f f.hdr.layout) (fiemapBuildRmap rlen fuel stray t)
      (fun r _ => ∀ rmap, r = some rmap → Mapped f F rlen rmap) (fun _ => True) := by
  apply Triple.bind (R := fun _ => Cached f f.hdr.layout)
  · apply Triple.update
    intro d hd
    exact ⟨hd.file, hd.blocksize, hd.version, hd.l1Size,
      fun p hp => absurd hp (Option.some_ne_none p).symm⟩
  · intro _
    exact processExtents_spec hslots hwf ht hB fun b hb hne => absurd (if_pos hb) hne

end Mapped

/-! ## What is handed over -/

/-- The extents hold blocks with the clusters that the table maps to them, each block and each
cluster once, and all bytes of these clusters are in `F`. -/
structure ReallyFree (f : File) (F : ℕ → Prop) (m : List FreeExtent) : Prop where
  backed : ∀ e ∈ m, ∀ b, e.Has b → WholeCluster f F (e.cluAt b)
  mapped : ∀ e ∈ m, ∀ b, e.Has b → f.hdr.layout.bat f (e.cluAt b) = some b
  blocksOnce : ((m.flatMap FreeExtent.blocks).map Prod.fst).Nodup
  clustersOnce : ((m.flatMap FreeExtent.blocks).map Prod.snd).Nodup

section Handed

variable {f : File} {F : ℕ → Prop} {rlen : ℕ} {rmap : ℕ → UInt32}

/-- Block 0 is part of the index, so the search may as well begin behind it. -/
theorem rmap2freemap_index (realloc : ℕ → Bool) (t : ExtentMap FreeExtent)
    (hzero : rmap 0 = zeroIndexMark) {a : ℕ} (ha : 0 < a) :
    rmap2freemap realloc rmap 0 a t = rmap2freemap realloc rmap 1 a t := by
  obtain ⟨k, rfl⟩ := Nat.exists_eq_succ_of_ne_zero ha.ne'
  have hflush : flushBefore realloc (rmap 0) 0 ⟨0, 0, 0, false⟩ t =
      some (⟨0, 0, 0, false⟩, t) := flushBefore_keep (by simp)
  rw [rmap2freemap, rmap2freemap, Nat.sub_zero, Nat.succ_sub_one, rmapBlocks, hflush,
    Option.bind_some, extend_mark hzero]

theorem Mapped.reallyFree (hwf : WellFormed f) (h : Mapped f F rlen rmap) (hrlen : rlen < 2 ^ 32)
    {realloc : ℕ → Bool} {freemap : ExtentMap FreeExtent}
    (hrun : rmap2freemap realloc rmap 0 rlen ⟨128, []⟩ = some freemap) :
    ReallyFree f F freemap.extents := by
  have hzero : 0 < rlen → rmap 0 = zeroIndexMark := by
    intro hpos
    by_contra hne
    have hdata := (hwf.table.inData _ _ (h 0 hpos hne).2).1
    have hl1 := hwf.header.layout.l1_pos
    omega
  obtain ⟨s, hs, hblocks⟩ : ∃ s, s ≤ rlen ∧
      freemap.extents.flatMap FreeExtent.blocks = named rmap s (rlen - s) := by
    rcases Nat.eq_zero_or_pos rlen with rfl | hpos
    · cases hrun
      exact ⟨0, le_rfl, rfl⟩
    · rw [rmap2freemap_index realloc _ (hzero hpos) hpos] at hrun
      rcases rmap2freemap_lists realloc rmap ⟨128, []⟩ Nat.one_pos hpos hrlen.le with
        ⟨hno, -⟩ | ⟨t, new, ht, hext, hnew⟩
      · cases hno.symm.trans hrun
      · cases ht.symm.trans hrun
        rw [hext, List.nil_append]
        exact ⟨1, hpos, hnew.blocks⟩
  have hmem : ∀ b c, (b, c) ∈ freemap.extents.flatMap FreeExtent.blocks →
      WholeCluster f F c ∧ f.hdr.layout.bat f c = some b := by
    intro b c hbc
    rw [hblocks, mem_named] at hbc
    obtain ⟨-, hb, hne, rfl⟩ := hbc
    exact h b (by omega) hne
  have hhas : ∀ e ∈ freemap.extents, ∀ b, e.Has b →
      (b, e.cluAt b) ∈ freemap.extents.flatMap FreeExtent.blocks := by
    intro e he b hb
    exact List.mem_flatMap.mpr ⟨e, he, FreeExtent.mem_blocks_iff.mpr ⟨hb, rfl⟩⟩
  have hsorted : (freemap.extents.flatMap FreeExtent.blocks).Pairwise fun x y => x.1 < y.1 := by
    rw [hblocks]
    exact named_sorted
  refine ⟨fun e he b hb => (hmem _ _ (hhas e he b hb)).1,
    fun e he b hb => (hmem _ _ (hhas e he b hb)).2, ?_, ?_⟩
  · exact List.pairwise_map.mpr (hsorted.imp fun hlt => hlt.ne)
  · refine List.pairwise_map.mpr (hsorted.imp_of_mem fun {x y} hx hy hlt heq => ?_)
    have hbat := (hmem x.1 x.2 hx).2
    rw [heq, (hmem y.1 y.2 hy).2] at hbat
    exact hlt.ne (Option.some.inj hbat).symm

end Handed

/-- Where no slot number wraps around, what the balloon frees is free. -/
theorem freeblksOf_reallyFree {f : File} {dirty : Bool} {d d' : Delta} {E : List FiemapExtent}
    {K : Kernel} {fuel devStart oldSize newSize total : ℕ} {stray : ℕ → UInt32}
    {m : List FreeExtent} (hwf : WellFormed f) (hopen : openDelta f dirty = some d)
    (hsmall : f.hdr.layout.l2Size + mapOffset ≤ 2 ^ 32)
    (hE : FileOn E (s2b devStart) (f.hdr.layout.l2Size * f.hdr.layout.cluster))
    (hK : Describes E K.fiemap)
    (hrun : freeblksOf K fuel stray devStart oldSize newSize d = .ok (.blocks m total) d') :
    ReallyFree f (Backs E (s2b devStart) oldSize newSize) m := by
  have hat := openDelta_spec hopen
  have hB : f.hdr.layout.l2Size * f.hdr.layout.cluster + f.hdr.layout.cluster ≤ 2 ^ 64 := by
    have hbs : f.hdr.layout.cluster ≤ 2 ^ 26 := by
      have hle := hwf.header.layout.blocksize.le
      simp only [Layout.cluster, s2b]
      omega
    calc f.hdr.layout.l2Size * f.hdr.layout.cluster + f.hdr.layout.cluster
        = (f.hdr.layout.l2Size + 1) * f.hdr.layout.cluster := (Nat.succ_mul _ _).symm
      _ ≤ 2 ^ 32 * 2 ^ 26 := Nat.mul_le_mul (by rw [mapOffset] at hsmall; omega) hbs
      _ ≤ 2 ^ 64 := by decide
  have hpos := hwf.header.layout.cluster_pos
  rw [freeblksOf, get_bind_run] at hrun
  split at hrun
  case isTrue => exact absurd hrun throw_ne_ok
  case isFalse =>
    rcases hget : fiemapGet K.realloc K.fiemap (s2b devStart) oldSize newSize fuel 0 oldSize 0
      ⟨128, []⟩ with _ | _ | pfiemap
    · rw [hget] at hrun
      cases hrun
    · rw [hget] at hrun
      cases hrun
    · rw [hget] at hrun
      have hwithin := fiemapGet_spec hE (by omega) hK le_rfl (fun hne => absurd rfl hne)
        (fun x hx => absurd hx List.not_mem_nil) hget
      have hadjust : ∀ x ∈ (fiemapAdjust d.cluster pfiemap).extents,
          x.Within (Backs E (s2b devStart) oldSize newSize)
            (f.hdr.layout.l2Size * f.hdr.layout.cluster) := by
        intro x hx
        obtain ⟨y, hy, rfl⟩ := List.mem_map.mp hx
        rw [hat.cached.cluster]
        exact adjustExtent_within hB hpos (hwithin y hy)
      have hspec : Triple (Cached f f.hdr.layout)
          (fiemapBuildRmap (u32 (d.l2Size + d.l2Size)) fuel stray
            (fiemapAdjust d.cluster pfiemap)) _ _ :=
        fiemapBuildRmap_spec hsmall hwf hadjust (by omega)
      obtain ⟨_, _, hthrow, hrun⟩ := bind_eq_ok hrun
      cases hthrow
      obtain ⟨r, d₁, hbuild, hrun⟩ := bind_eq_ok hrun
      have hr := hspec.ok hat.cached hbuild
      cases r with
      | none => cases hrun
      | some rmap =>
          have hmapped := hr rmap rfl
          have hrlen : u32 (d.l2Size + d.l2Size) < 2 ^ 32 := u32_lt _
          dsimp only at hrun
          cases hfree : rmap2freemap K.realloc rmap 0 (u32 (d.l2Size + d.l2Size)) ⟨128, []⟩ with
          | none =>
              rw [hfree] at hrun
              cases hrun
          | some freemap =>
              have hright := hmapped.reallyFree hwf hrlen hfree
              rw [hfree] at hrun
              dsimp only at hrun
              split at hrun
              case isTrue => cases hrun
              case isFalse =>
                unfold freemap2freeblks at hrun
                split at hrun
                case isTrue => cases hrun
                case isFalse =>
                  split at hrun
                  case isTrue => cases hrun
                  case isFalse =>
                    cases hrun
                    exact hright

/-! ## A balloon of one cluster -/

/-- The balloon is one unwritten extent at byte `x` of the partition. -/
def oneExtent (x : ℕ) : FiemapExtent := ⟨0, x, 32768, 0x801⟩

def oneExtentKernel (x : ℕ) : Kernel where
  fiemap _ s := if s < 32768 then .ok [oneExtent x] else .ok []
  realloc _ := true
  reverseMap := true
  freeblks := true

theorem oneExtent_fileOn {x B : ℕ} (h : x + 32768 ≤ B) : FileOn [oneExtent x] (s2b 0) B where
  sorted := List.pairwise_singleton _ _
  logical e he := by
    rw [List.mem_singleton.mp he]
    simp [FiemapExtent.fileEnd, oneExtent]
  inside e he := by
    rw [List.mem_singleton.mp he]
    simpa [oneExtent, s2b] using h

theorem oneExtent_describes (x : ℕ) : Describes [oneExtent x] (oneExtentKernel x).fiemap := by
  intro k s l hl
  simp only [oneExtentKernel] at hl
  split at hl
  case isTrue hs =>
    cases hl
    refine ⟨List.Sublist.refl _, fun e he => ?_⟩
    rw [List.mem_singleton.mp he]
    simpa [FiemapExtent.fileEnd, oneExtent] using hs
  case isFalse =>
    cases hl
    exact ⟨List.nil_sublist _, fun _ he => absurd he List.not_mem_nil⟩

theorem fullDisk_frees : ((openDelta fullDisk true).bind fun d =>
    returned (freeblksOf (oneExtentKernel 0) 4 (fun _ => 0) 0 0 32768 d)).any Freed.isBlocks := by
  decide +kernel

theorem freeblksOf_reallyFree_fullDisk : ∃ d m total d', openDelta fullDisk true = some d ∧
    freeblksOf (oneExtentKernel 0) 4 (fun _ => 0) 0 0 32768 d = .ok (.blocks m total) d' ∧
      ReallyFree fullDisk (Backs [oneExtent 0] (s2b 0) 0 32768) m := by
  obtain ⟨r, hr, hblocks⟩ := (Option.any_eq_true _ _).mp fullDisk_frees
  obtain ⟨d, hopen, hrun⟩ := Option.bind_eq_some_iff.mp hr
  obtain ⟨d', hrun⟩ := returned_eq_some.mp hrun
  cases r with
  | nothing => cases hblocks
  | running => cases hblocks
  | blocks m total =>
      refine ⟨d, m, total, d', hopen, hrun, ?_⟩
      apply freeblksOf_reallyFree fullDisk_wellFormed hopen fullDisk_slots _
        (oneExtent_describes 0) hrun
      rw [fullDisk_layout]
      exact oneExtent_fileOn (by decide)

/-! ## A slot number that wraps around -/

/-- The table of 4294967295 clusters is open. -/
def vastDelta : Delta := (openDelta vastDisk true).getD
  ⟨Disk.new vastDisk, PvdHeader.zero, fun _ => 0, 0, 0, 0, false, none, 0, 0, .v2⟩

theorem vastDelta_eq : openDelta vastDisk true = some vastDelta := by
  rfl

/-- Cluster 4294967280. -/
def vastByte : ℕ := (2 ^ 32 - 16) * 32768

theorem oneExtent_collects {x : ℕ} (hx : x < 2 ^ 64) :
    fiemapGet (oneExtentKernel x).realloc (oneExtentKernel x).fiemap (s2b 0) 0 32768 2 0 0 0
      ⟨128, []⟩ = some (.ok ⟨128, [⟨x, 32768⟩]⟩) := by
  have hflags : (oneExtent x).flags = 0x801 := rfl
  have hun : ¬ (oneExtent x).Unexpected := by
    unfold FiemapExtent.Unexpected
    rw [hflags]
    decide
  have hlast : (oneExtent x).isLast = true := by
    unfold FiemapExtent.isLast
    rw [hflags]
    decide
  have hclip : (oneExtent x).clip 0 1 = oneExtent x := if_neg (by simp)
  have hkeep : keepExtent (oneExtentKernel x).realloc (s2b 0) 32768 (oneExtent x) ⟨128, []⟩ =
      some (false, ⟨128, [⟨x, 32768⟩]⟩) := by
    simp [keepExtent, oneExtent, s2b, fiemapAddExtent, absorb, ExtentMap.add, u64_of_lt hx]
    decide
  have hreply : (oneExtentKernel x).fiemap 0 0 = .ok [oneExtent x] := by
    simp [oneExtentKernel]
  rw [fiemapGet, hreply]
  simp [replyExtents, hun, hclip, hkeep, hlast]

theorem vast_adjusts : (fiemapAdjust vastDelta.cluster ⟨128, [⟨vastByte, 32768⟩]⟩).extents =
    [⟨vastByte, 32768⟩] := by
  decide +kernel

/-- The first word of the header is taken for the entry of the cluster. -/
theorem vast_misreads : (returned (fiemapBuildRmap (2 ^ 32 - 2) 2 (fun _ => 0)
    ⟨128, [⟨vastByte, 32768⟩]⟩ vastDelta)).any (fun r => r.any fun rmap =>
      rmap 0 = zeroIndexMark ∧ rmap 1752459607 = UInt32.ofNat (2 ^ 32 - 16)) := by
  decide +kernel

theorem vast_frees : ∃ m total d', freeblksOf (oneExtentKernel vastByte) 2 (fun _ => 0) 0 0 32768
    vastDelta = .ok (.blocks m total) d' ∧ ∃ e ∈ m, ∃ b, e.Has b := by
  obtain ⟨r, hr, hread⟩ := (Option.any_eq_true _ _).mp vast_misreads
  obtain ⟨rmap, rfl, hread⟩ := (Option.any_eq_true _ _).mp hread
  obtain ⟨hzero, hword⟩ := of_decide_eq_true hread
  obtain ⟨d', hbuild⟩ := returned_eq_some.mp hr
  rcases rmap2freemap_lists (fun _ => true) rmap ⟨128, []⟩ (a := 2 ^ 32 - 2) Nat.one_pos
    (by decide) (by decide) with ⟨-, n, hno⟩ | ⟨t, new, ht, hext, hnew⟩
  · cases hno
  have hmem : (1752459607, 2 ^ 32 - 16) ∈ t.extents.flatMap FreeExtent.blocks := by
    rw [hext, List.nil_append, hnew.blocks, mem_named, hword]
    decide
  have hlen : ∀ e ∈ t.extents, 0 < e.len := by
    rw [hext, List.nil_append]
    exact hnew.sorted.positive
  obtain ⟨e, he, hb⟩ := List.mem_flatMap.mp hmem
  have hrlen : u32 (vastDelta.l2Size + vastDelta.l2Size) = 2 ^ 32 - 2 := by
    decide +kernel
  have hadjust : fiemapBuildRmap (2 ^ 32 - 2) 2 (fun _ => 0)
      (fiemapAdjust vastDelta.cluster ⟨128, [⟨vastByte, 32768⟩]⟩) vastDelta =
        .ok (some rmap) d' := by
    rw [fiemapBuildRmap] at hbuild ⊢
    rw [vast_adjusts]
    exact hbuild
  have hfreemap : freemap2freeblks true t =
      .ok (t.extents, u32 (t.extents.map FreeExtent.len).sum) := by
    rw [freemap2freeblks, if_neg (by decide), if_neg]
    intro hany
    obtain ⟨x, hx, hxlen⟩ := List.any_eq_true.mp hany
    exact (hlen x hx).ne' (of_decide_eq_true hxlen)
  have hsome : ¬ t.extents.length = 0 := (List.length_pos_of_mem he).ne'
  have hlist : rmap2freemap (oneExtentKernel vastByte).realloc rmap 0 (2 ^ 32 - 2) ⟨128, []⟩ =
      some t := by
    rw [rmap2freemap_index _ _ hzero (by decide)]
    exact ht
  refine ⟨t.extents, u32 (t.extents.map FreeExtent.len).sum, d', ?_, e, he, _,
    (FreeExtent.mem_blocks_iff.mp hb).1⟩
  rw [freeblksOf, get_bind_run, if_neg (by decide), oneExtent_collects (by decide), hrlen]
  dsimp only
  rw [bind_run_ok (x := orThrow _) rfl, bind_run_ok hadjust]
  dsimp only
  rw [hlist]
  dsimp only
  have hfree : freemap2freeblks (oneExtentKernel vastByte).freeblks t =
      .ok (t.extents, u32 (t.extents.map FreeExtent.len).sum) := hfreemap
  rw [if_neg hsome, hfree, bind_run_ok (x := orThrow _) rfl]
  rfl

/-- A cluster that the table maps to no block is freed when its slot number wraps around. -/
theorem freeblksOf_frees_unmapped :
    ¬ ∀ (f : File) (dirty : Bool) (d d' : Delta) (E : List FiemapExtent) (K : Kernel)
      (fuel devStart oldSize newSize total : ℕ) (stray : ℕ → UInt32) (m : List FreeExtent),
      WellFormed f → openDelta f dirty = some d →
      FileOn E (s2b devStart) (f.hdr.layout.l2Size * f.hdr.layout.cluster) →
      Describes E K.fiemap →
      freeblksOf K fuel stray devStart oldSize newSize d = .ok (.blocks m total) d' →
      ReallyFree f (Backs E (s2b devStart) oldSize newSize) m := by
  intro hall
  obtain ⟨m, total, d', hrun, e, he, b, hb⟩ := vast_frees
  have hE : FileOn [oneExtent vastByte] (s2b 0)
      (vastDisk.hdr.layout.l2Size * vastDisk.hdr.layout.cluster) := by
    rw [vastDisk_layout]
    exact oneExtent_fileOn (by decide)
  have hfree := hall vastDisk true vastDelta d' _ _ _ _ _ _ _ _ _ vastDisk_wellFormed
    vastDelta_eq hE (oneExtent_describes vastByte) hrun
  have hmapped := hfree.mapped e he b hb
  rw [vastDisk_bat] at hmapped
  cases hmapped

end Ploop.Balloon
