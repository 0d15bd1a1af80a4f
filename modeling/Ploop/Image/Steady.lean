import Ploop.Image.Held

/-!
# Runs that stay readable

A run on a delta is steady when whatever a power failure would leave now still
holds the disk and uses only blocks below the allocation head whose data is
durable, and when this was so at every earlier moment.
-/

namespace Ploop

open Storage Indirection

namespace Disk

def Every (P : File → Prop) (D : Disk) : Prop := Storage.Every File.pwrite D.init P D.log

def Safe (Good : List (Event Write) → File → Prop) (D : Disk) : Prop :=
  Storage.Safe File.pwrite D.init Good D.log

variable {D : Disk} {P Q : File → Prop} {Good : List (Event Write) → File → Prop}

theorem Every.file (h : D.Every P) : P D.file := h.view

theorem Every.mono (h : D.Every P) (hPQ : ∀ x, P x → Q x) : D.Every Q := Storage.Every.mono h hPQ

theorem every_sync : D.sync.Every P ↔ P D.file := Storage.every_sync

theorem Every.write (h : D.Every P) {w : Write} (hw : ∀ x, P x → P (x.pwrite w)) :
    (D.write w).Every P := Storage.Every.write h hw

theorem every_new {f : File} : (new f).Every P ↔ P f := every_nil

theorem Safe.every (h : D.Safe Good) : D.Every (Good D.log) := Storage.Safe.every h

theorem Safe.write (h : D.Safe Good) {w : Write} (hnow : (D.write w).Every (Good (D.write w).log)) :
    (D.write w).Safe Good := Storage.Safe.snoc h hnow

theorem Safe.sync (h : D.Safe Good) (hnow : D.sync.Every (Good D.sync.log)) :
    D.sync.Safe Good := Storage.Safe.snoc h hnow

theorem Safe.mono (h : D.Safe Good) {Good' : List (Event Write) → File → Prop}
    (hGood : ∀ log x, Good log x → Good' log x) : D.Safe Good' := Storage.Safe.mono h hGood

theorem safe_new {f : File} (h : Good [] f) : (new f).Safe Good := safe_nil h

end Disk

/-! ## Blocks with durable data -/

/-- Blocks of `C` bytes in use at the start, or written before the last
completed barrier. -/
def Backed (C : ℕ) (S₀ : Set ℕ) (log : List (Event Write)) : Set ℕ :=
  {b | b ∈ S₀ ∨ ∃ w ∈ durable log, w.off = b * C ∧ w.len = C}

section Backed

variable {C : ℕ} {S₀ : Set ℕ} {log : List (Event Write)}

theorem backed_write (w : Write) : Backed C S₀ (log ++ [.write w]) = Backed C S₀ log := by
  simp [Backed]

theorem backed_subset_sync : Backed C S₀ log ⊆ Backed C S₀ (log ++ [.sync]) := by
  rintro b (hb | ⟨w, hw, hoff⟩)
  · exact Or.inl hb
  · refine Or.inr ⟨w, ?_, hoff⟩
    rw [durable_sync, written]
    exact List.mem_append_left _ hw

theorem mem_backed_sync {b : ℕ} {w : Write} (hw : w ∈ written log) (hoff : w.off = b * C)
    (hlen : w.len = C) : b ∈ Backed C S₀ (log ++ [.sync]) :=
  Or.inr ⟨w, by rwa [durable_sync], hoff, hlen⟩

end Backed

/-- What must hold of every crash image: under its own header it is a well
formed image of one of the disks, every slot of which names durable data. -/
def Sound (R : Set VDisk) (C : ℕ) (S₀ : Set ℕ) (log : List (Event Write)) (x : File) : Prop :=
  ∃ L, L.cluster = C ∧ Held L R (Backed C S₀ log) x

theorem Sound.wellFormed {R : Set VDisk} {C : ℕ} {S₀ : Set ℕ} {log : List (Event Write)} {x : File}
    (h : Sound R C S₀ log x) : WellFormed x := by
  obtain ⟨L, -, hx⟩ := h
  exact hx.wellFormed

theorem Sound.content {R : Set VDisk} {C : ℕ} {S₀ : Set ℕ} {log : List (Event Write)} {x : File}
    (h : Sound R C S₀ log x) : Ploop.content x ∈ R := by
  obtain ⟨L, -, hx⟩ := h
  exact hx.content

theorem Sound.widen {R R' : Set VDisk} {C : ℕ} {S₀ : Set ℕ} {log : List (Event Write)} {x : File}
    (h : Sound R C S₀ log x) (hR : R ⊆ R') : Sound R' C S₀ log x := by
  obtain ⟨L, hL, hx⟩ := h
  exact ⟨L, hL, hx.widen hR⟩

structure Steady (L : Layout) (R : Set VDisk) (S₀ : Set ℕ) (A : ℕ) (D : Disk) : Prop where
  every : D.Every (Held L R (Backed L.cluster S₀ D.log ∩ Set.Iio A))
  safe : D.Safe (Sound R L.cluster S₀)

namespace Steady

variable {L : Layout} {R : Set VDisk} {S₀ : Set ℕ} {A : ℕ} {D : Disk}

theorem file (h : Steady L R S₀ A D) : Held L R (Backed L.cluster S₀ D.log ∩ Set.Iio A) D.file :=
  h.every.file

theorem valid (h : Steady L R S₀ A D) : L.Valid := h.file.valid

theorem start {f : File} (h : Held L R S₀ f) (hA : ∀ b ∈ S₀, b < A) :
    Steady L R S₀ A (Disk.new f) := by
  have hS : S₀ ⊆ Backed L.cluster S₀ [] ∩ Set.Iio A := fun b hb => ⟨Or.inl hb, hA b hb⟩
  exact ⟨Disk.every_new.mpr (h.mono hS),
    Disk.safe_new ⟨L, rfl, h.mono fun b hb => Or.inl hb⟩⟩

theorem mono (h : Steady L R S₀ A D) {A' : ℕ} (hA : A ≤ A') : Steady L R S₀ A' D :=
  ⟨h.every.mono fun _ hx => hx.mono fun _ hb => ⟨hb.1, lt_of_lt_of_le hb.2 hA⟩, h.safe⟩

/-- A write after which every crash image is as before is harmless. -/
theorem of_write (h : Steady L R S₀ A D) {w : Write} {A' : ℕ}
    (hw : (D.write w).Every (Held L R (Backed L.cluster S₀ D.log ∩ Set.Iio A'))) :
    Steady L R S₀ A' (D.write w) := by
  have hback : Backed L.cluster S₀ (D.write w).log = Backed L.cluster S₀ D.log := backed_write w
  refine ⟨hback ▸ hw, h.safe.write (hw.mono fun x hx => ⟨L, rfl, ?_⟩)⟩
  rw [hback]
  exact hx.mono Set.inter_subset_left

theorem write (h : Steady L R S₀ A D) {w : Write}
    (hw : ∀ S x, S ⊆ Set.Iio A → Held L R S x → Held L R S (x.pwrite w)) :
    Steady L R S₀ A (D.write w) :=
  h.of_write (h.every.write fun x hx => hw _ x Set.inter_subset_right hx)

theorem sync (h : Steady L R S₀ A D) : Steady L R S₀ A D.sync := by
  have hfile := h.file.mono (Set.inter_subset_inter_left (Set.Iio A) backed_subset_sync)
  refine ⟨Disk.every_sync.mpr hfile, h.safe.sync (Disk.every_sync.mpr ⟨L, rfl, ?_⟩)⟩
  exact hfile.mono Set.inter_subset_left

theorem write_diskInUse (h : Steady L R S₀ A D) (v : UInt32) :
    Steady L R S₀ A (D.write ⟨PvdHeader.offDiskInUse, 4, wordBytes fun _ => v⟩) :=
  h.write fun _ _ _ hx => hx.write_diskInUse v

/-- A block past the allocation head may be written at any time. -/
theorem write_fresh (h : Steady L R S₀ A D) {c : ℕ} (hc : L.l1Size ≤ c) (hA : A ≤ c)
    (src : ℕ → UInt8) : Steady L R S₀ A (D.write ⟨c * L.cluster, L.cluster, src⟩) := by
  refine h.write fun S x hS hx => hx.write_dead hc (fun clu hclu => ?_) src
  have : c < A := hS (hx.within clu c hclu)
  omega

/-- A block that was given up may be written once a barrier has made the new
table durable. -/
theorem write_released (h : Steady L R S₀ A D) {c : ℕ} (hc : L.l1Size ≤ c)
    (hdead : ∀ clu, L.bat D.file clu ≠ some c) (src : ℕ → UInt8) :
    Steady L R S₀ A (D.sync.write ⟨c * L.cluster, L.cluster, src⟩) := by
  have hs := h.sync.file
  rw [Disk.file_sync] at hs
  refine h.sync.of_write (every_write.mpr ⟨h.sync.every, ?_⟩)
  exact Disk.every_sync.mpr (hs.write_dead hc hdead src)

/-- The slot of a cluster is switched to the copy of its block, which a
barrier has made durable. -/
theorem relocate (h : Steady L R S₀ A D) {clu i off : ℕ} (hi : L.bat D.file clu = some i)
    (hA : L.l1Size ≤ A) (hfit : L.Fits A) (hoff : off = 4 * (clu + mapOffset)) {src : ℕ → UInt8}
    (hsrc : L.block D.file i = fun j => if j < L.cluster then src j else 0) :
    Steady L R S₀ (A + 1) ((D.write ⟨A * L.cluster, L.cluster, src⟩).sync.write
      ⟨off, 4, wordBytes fun _ => L.encode A⟩) := by
  have hcopied := (h.write_fresh hA le_rfl src).sync
  have hx := hcopied.file
  have hcpos := h.valid.cluster_pos
  have hdead : ∀ k, L.bat (D.write ⟨A * L.cluster, L.cluster, src⟩).sync.file k ≠ some A := by
    intro k hk
    exact lt_irrefl A (hx.within k A hk).2
  have hsize : A < (D.write ⟨A * L.cluster, L.cluster, src⟩).sync.file.size / L.cluster := by
    rw [Disk.file_sync, Disk.file_write, Nat.lt_div_iff_mul_lt hcpos]
    have := D.file.end_le_size_pwrite (w := ⟨A * L.cluster, L.cluster, src⟩) hcpos.ne'
    simp only at this
    omega
  have hbat : L.bat (D.write ⟨A * L.cluster, L.cluster, src⟩).sync.file clu = some i := by
    rw [← hi, Disk.file_sync, Disk.file_write]
    apply Layout.bat_congr
    intro hclu
    exact Layout.entry_pwrite_of_ge (h.valid.clu_lt hclu) (Nat.mul_le_mul_right _ hA)
  have hne : i ≠ A := by
    rintro rfl
    exact lt_irrefl i (h.file.within clu i hi).2
  have hcopy : L.block (D.write ⟨A * L.cluster, L.cluster, src⟩).sync.file A
      = L.block (D.write ⟨A * L.cluster, L.cluster, src⟩).sync.file i := by
    rw [Disk.file_sync, Disk.file_write, Layout.block_pwrite_self,
      Layout.block_pwrite_of_ne src hne, hsrc]
  have hmove := hx.move hbat hA hfit hsize hdead hcopy hoff
  have hmem : A ∈ Backed L.cluster S₀ (D.write ⟨A * L.cluster, L.cluster, src⟩).sync.log :=
    mem_backed_sync (w := ⟨A * L.cluster, L.cluster, src⟩) (by simp [Disk.write]) rfl rfl
  refine hcopied.of_write (every_write.mpr ⟨?_, ?_⟩)
  · exact (hcopied.mono (Nat.le_succ A)).every
  · rw [Disk.file_sync] at hmove
    refine Disk.every_sync.mpr (hmove.mono ?_)
    rintro b (rfl | hb)
    · exact ⟨hmem, Nat.lt_succ_self b⟩
    · exact ⟨hb.1, Nat.lt_succ_of_lt hb.2⟩

end Steady

end Ploop
