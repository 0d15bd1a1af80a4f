import Ploop.Image.MergeLoop

/-!
# The two kinds of destination

A delta and a raw image both carry the loop of a merge to its end.
-/

namespace Ploop

open Storage Indirection Program

/-! ## Deltas -/

/-- The disk of a merge that is over. -/
structure Finished (L : Layout) (O R₀ : VDisk) (S₀ : Set ℕ) (n : ℕ) (D : Disk) : Prop where
  safe : D.Safe (Sound (Mask O R₀) L.cluster S₀)
  settled : D.Every fun x => x = D.file
  file : Held L {progress O R₀ n} (Backed L.cluster S₀ D.log) D.file

section Delta

variable {Ls : Set Layout} {L : Layout} {B : ℕ} {O R₀ : VDisk} {S₀ : Set ℕ} {T : ℕ → Option ℕ}
  {A n l2Size : ℕ} {d : Delta}

theorem Finished.content_eq {D : Disk} (h : Finished L O R₀ S₀ n D) :
    content D.file = progress O R₀ n := h.file.content

theorem Filled.destination (hl2 : l2Size ≤ L.l2Size) :
    Destination false L.blocksize L.version l2Size O (Filled Ls L B O R₀ S₀)
      (Unharmed L O R₀ S₀) where
  err := fun _ _ h => h.unharmed
  skip := fun _ _ hO h => h.skip hO
  put := by
    intro i k clu data d hk hclu hlt hO h
    have hL : L.Valid := by
      obtain ⟨T, A, h⟩ := h
      exact h.valid
    have hroom := hL.clu_lt (lt_of_lt_of_le hlt hl2)
    have hi : i < L.l1Size := by
      refine Nat.lt_of_mul_lt_mul_right (a := L.slots) (lt_of_le_of_lt ?_ hroom)
      rw [hclu]
      exact Nat.le_add_right _ k
    exact storeBlock_spec h hi hk hclu (lt_of_lt_of_le hlt hl2) hO

/-- The in-use mark is taken away between two barriers. -/
theorem Output.finish (h : Output Ls L B O R₀ S₀ T A n d) (hclean : L.bat d.file = T) (v : UInt32) :
    Finished L O R₀ S₀ n
      (d.disk.write ⟨PvdHeader.offDiskInUse, 4, wordBytes fun _ => v⟩).sync.sync := by
  have hback : Backed L.cluster S₀
      (d.disk.write ⟨PvdHeader.offDiskInUse, 4, wordBytes fun _ => v⟩).log
        = Backed L.cluster S₀ d.disk.log := backed_write _
  have hevery : (d.disk.write ⟨PvdHeader.offDiskInUse, 4, wordBytes fun _ => v⟩).Every fun x =>
      ∃ M : Layout, M.cluster = L.cluster ∧
        Held M (Mask O R₀) (Backed L.cluster S₀ d.disk.log) x := by
    refine Disk.Every.write (h.disk.every.mono ?_) fun x ⟨M, hM, hx⟩ =>
      ⟨M, hM, hx.write_diskInUse v⟩
    rintro x ⟨M, hM, hx, -⟩
    exact ⟨M, (h.disk.layouts M hM).1, hx.mono Set.inter_subset_left⟩
  have hsafe : (d.disk.write ⟨PvdHeader.offDiskInUse, 4, wordBytes fun _ => v⟩).Safe
      (Sound (Mask O R₀) L.cluster S₀) := by
    refine h.disk.safe.write (hevery.mono ?_)
    rintro x ⟨M, hM, hx⟩
    unfold Sound
    rw [hback]
    exact ⟨M, hM, hx⟩
  have hreads : L.readClu d.file ∈ ({progress O R₀ n} : Set VDisk) := by
    rw [Layout.readClu, hclean]
    exact h.reads
  have hheld : Held L {progress O R₀ n} (Backed L.cluster S₀ d.disk.log) d.file :=
    { h.disk.file.mono Set.inter_subset_left with reads := hreads }
  have hfile : Held L {progress O R₀ n} (Backed L.cluster S₀
      (d.disk.write ⟨PvdHeader.offDiskInUse, 4, wordBytes fun _ => v⟩).sync.log)
      (d.disk.write ⟨PvdHeader.offDiskInUse, 4, wordBytes fun _ => v⟩).file := by
    rw [Disk.file_write]
    refine (hheld.write_diskInUse v).mono ?_
    rw [← hback]
    exact backed_subset_sync
  have hmask : {progress O R₀ n} ⊆ Mask O R₀ := Set.singleton_subset_iff.mpr progress_mem
  have hsync := hsafe.sync (Disk.every_sync.mpr ⟨L, rfl, hfile.widen hmask⟩)
  have hfile' := hfile.mono backed_subset_sync
  rw [← Disk.file_sync] at hfile'
  have hfinal := hfile'
  rw [← Disk.file_sync] at hfinal
  refine ⟨hsync.sync (Disk.every_sync.mpr ⟨L, rfl, hfile'.widen hmask⟩), Disk.every_sync.mpr ?_,
    hfinal⟩
  simp only [Disk.file_sync]

theorem finishMerge_spec (h : Filled Ls L B O R₀ S₀ n d) {cluster : ℕ}
    (hcluster : L.cluster = cluster) :
    Triple (fun s => s = d) (finishMerge cluster) (fun _ s => Finished L O R₀ S₀ n s.disk)
      (Unharmed L O R₀ S₀) := by
  subst hcluster
  obtain ⟨T, A, h⟩ := h
  refine Triple.step (Triple.bind (R := fun _ (s : Delta) => ∃ e, Output Ls L B O R₀ S₀ T A n e ∧
    ¬ e.l2Dirty ∧ s.disk = e.disk) ?_ fun _ => Triple.start fun s ⟨e, he, hclean, hdisk⟩ => ?_)
  · refine Triple.look fun s hs => ?_
    subst hs
    by_cases hdirty : d.sync.l2Dirty
    · simp only [hdirty, if_true]
      refine (writeIndex_spec h).conseq (fun _ hs => hs) ?_ fun _ hs => hs
      rintro _ s ⟨hs, -⟩
      exact ⟨_, hs, Bool.false_ne_true, rfl⟩
    · simp only [hdirty]
      exact Triple.ret fun s hs => ⟨d.sync, h.sync, hdirty, congrArg Delta.disk hs⟩
  · refine Triple.bind (clearDelta_spec s) fun _ => Triple.update fun s' hs' => ?_
    have hdisk' : s'.sync.disk = (e.disk.write ⟨PvdHeader.offDiskInUse, 4,
        wordBytes fun _ => 0⟩).sync.sync := by
      rw [hs', ← hdisk]
      rfl
    rw [hdisk']
    exact he.finish (he.bat_eq hclean) 0

end Delta

/-! ## Raw images -/

/-- A raw image as a disk; past its end it reads zeros. -/
def rawContent (cluster : ℕ) (f : File) : VDisk := fun clu =>
  some fun j => if j < cluster then f.byte (clu * cluster + j) else 0

/-- A raw destination of at least `size` bytes with the clusters below `n` merged. -/
structure RawFilled (cluster : ℕ) (O R₀ : VDisk) (size n : ℕ) (d : Delta) : Prop where
  size : size ≤ d.file.size
  reads : rawContent cluster d.file = progress O R₀ n

section Raw

variable {cluster size n : ℕ} {O R₀ : VDisk} {f : File} {d : Delta}

theorem rawContent_pwrite (n : ℕ) (data : ℕ → UInt8) :
    rawContent cluster (f.pwrite ⟨n * cluster, cluster, data⟩) =
      Function.update (rawContent cluster f) n
        (some fun j => if j < cluster then data j else 0) := by
  funext clu
  by_cases e : clu = n
  · subst e
    rw [Function.update_self]
    refine congrArg some (funext fun j => ?_)
    by_cases hj : j < cluster
    · simp only [hj, if_true, File.byte_pwrite]
      rw [Storage.overlay_of_mem (by omega) (by omega)]
      congr 1
      omega
    · simp only [hj, if_false]
  · rw [Function.update_of_ne e]
    refine congrArg some (funext fun j => ?_)
    by_cases hj : j < cluster
    · simp only [hj, if_true, File.byte_pwrite]
      refine Storage.overlay_of_not_mem ?_
      rcases Nat.lt_or_gt_of_ne e with h | h
      · have := Nat.mul_le_mul_right cluster h
        rw [Nat.succ_mul] at this
        omega
      · have := Nat.mul_le_mul_right cluster h
        rw [Nat.succ_mul] at this
        omega
    · simp only [hj, if_false]

theorem RawFilled.destination {blocksize l2Size : ℕ} {version : FmtVersion} :
    Destination true blocksize version l2Size O (RawFilled (s2b blocksize) O R₀ size)
      (fun _ => True) where
  err := fun _ _ _ => True.intro
  skip := fun _ _ hO h => ⟨h.size, h.reads.trans (progress_succ_of_none hO).symm⟩
  put := by
    intro i k clu data d _ hclu _ hO h
    refine Triple.update fun s hs => ?_
    subst hs
    have hoff : i * (s2b blocksize / 4) + k - mapOffset = clu := by omega
    rw [hoff]
    refine ⟨?_, ?_⟩
    · rw [Delta.file_write]
      exact h.size.trans (s.file.le_size_pwrite _)
    · rw [Delta.file_write, rawContent_pwrite, progress_succ_of_some hO, h.reads]

/-- Zeros written past the end change no byte. -/
theorem rawContent_append {w : Write} (hoff : f.size ≤ w.off) (hzero : ∀ j, w.src j = 0) :
    rawContent cluster (f.pwrite w) = rawContent cluster f := by
  funext clu
  refine congrArg some (funext fun j => ?_)
  by_cases hj : j < cluster
  · simp only [hj, if_true, File.byte_pwrite]
    unfold Storage.overlay
    split
    · rw [hzero, f.eof _ (by omega)]
    · rfl
  · simp only [hj, if_false]

theorem growRawDelta_spec (appendSize : ℕ) {E : Delta → Prop} :
    Triple (fun s => s = d) (growRawDelta appendSize)
      (fun _ s => rawContent cluster s.file = rawContent cluster d.file ∧
        d.file.size + appendSize ≤ s.file.size) E := by
  have hpos : 0 < defCluster := by decide
  unfold growRawDelta
  generalize defCluster = C at hpos ⊢
  refine Triple.look fun s hs => ?_
  subst hs
  refine Triple.bind ((Triple.forRange (I := fun j (s' : Delta) =>
    rawContent cluster s'.file = rawContent cluster s.file ∧
      s.file.size + min appendSize (j * C) ≤ s'.file.size ∧
      s'.file.size ≤ s.file.size + j * C) 0 ((appendSize + C - 1) / C) ?_).conseq
    (fun s' hs' => ?_) (fun _ _ h => h) fun _ h => h) fun _ => Triple.update ?_
  · refine fun j _ hj => Triple.update fun s' ⟨h₁, h₂, h₃⟩ => ?_
    rw [zero_add, ← Nat.succ_le_iff, Nat.le_div_iff_mul_le hpos, Nat.succ_mul] at hj
    have hlen : min C (appendSize - j * C) ≠ 0 := by omega
    have hsize : (s'.write ⟨s.file.size + j * C, min C (appendSize - j * C), fun _ => 0⟩).file.size
        = max s'.file.size (s.file.size + j * C + min C (appendSize - j * C)) := by
      rw [Delta.file_write, File.size_pwrite, if_neg hlen]
    refine ⟨?_, ?_, ?_⟩
    · rw [Delta.file_write, rawContent_append h₃ fun _ => rfl]
      exact h₁
    · rw [hsize, Nat.succ_mul]
      omega
    · rw [hsize, Nat.succ_mul]
      omega
  · subst hs'
    exact ⟨rfl, by simp, by simp⟩
  · rintro s' ⟨h₁, h₂, -⟩
    have hle : appendSize ≤ (appendSize + C - 1) / C * C := le_alignUp hpos
    rw [zero_add, min_eq_left hle] at h₂
    rw [Delta.file_sync]
    exact ⟨h₁, h₂⟩

end Raw

end Ploop
