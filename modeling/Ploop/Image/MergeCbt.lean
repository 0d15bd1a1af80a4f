import Ploop.Image.MergeStart

/-!
# The dirty bitmap of the merged image

`ploop_move_cbt` writes past the end of the image, and a header with the same
layout: neither touches the disk the image holds.
-/

namespace Ploop

open Storage Indirection Program

/-- A write that leaves images with data below block `A` as they are. -/
def Harmless (L : Layout) (A : ℕ) (w : Write) : Prop :=
  ∀ R S x, S ⊆ Set.Iio A → Held L R S x → Held L R S (x.pwrite w)

section Harmless

variable {L : Layout} {A : ℕ} {w : Write}

/-- Past the index and the data. -/
theorem harmless_tail (hl1 : L.l1Size * L.cluster ≤ w.off) (hA : A * L.cluster ≤ w.off) :
    Harmless L A w := by
  intro R S x hS hx
  have hhdr : (x.pwrite w).hdr = x.hdr := hdr_pwrite_of_ge (hx.header_le.trans hl1)
  refine hx.frame (hhdr ▸ hx.header) (hhdr ▸ hx.layout) (x.le_size_pwrite w)
    (fun s hs => Layout.entry_pwrite_of_ge hs hl1) fun clu b hb => Layout.block_congr fun j hj => ?_
  have hlt : b < A := hS (hx.within clu b hb)
  have hle := Nat.mul_le_mul_right L.cluster hlt
  rw [Nat.succ_mul] at hle
  rw [File.byte_pwrite]
  exact Storage.overlay_of_lt (by omega)

/-- Another header for the same layout. -/
theorem harmless_header {vh : PvdHeader} (hvh : vh.Valid) (hlay : vh.layout = L) :
    Harmless L A ⟨0, headerBytes, wordBytes vh.toWords⟩ := by
  rintro R S x - hx
  subst hlay
  exact hx.switch hvh rfl rfl (fun clu hclu => Layout.bat_of_ge hclu)
    (fun i h₁ h₂ => absurd h₂ (Nat.not_lt.mpr h₁)) fun clu b hb => (hx.table.inData clu b hb).1

end Harmless

section Save

variable {L : Layout} {A F : ℕ} {P : Disk → Prop}

/-- A delta whose disk has `P`, with the header `vh` in memory, and a file of
at least `F` bytes. -/
structure Saving (L : Layout) (F : ℕ) (vh : PvdHeader) (P : Disk → Prop) (d : Delta) : Prop where
  disk : P d.disk
  hdr0 : d.hdr0 = vh
  size : F ≤ d.file.size

variable (hP : ∀ D w, Harmless L A w → P D → P (D.write w)) {vh : PvdHeader}

include hP

theorem Saving.write {d : Delta} (h : Saving L F vh P d) {w : Write} (hw : Harmless L A w) :
    Saving L F vh P (d.write w) where
  disk := hP d.disk w hw h.disk
  hdr0 := h.hdr0
  size := by
    rw [Delta.file_write]
    exact h.size.trans (d.file.le_size_pwrite w)

variable (hl1 : L.l1Size * L.cluster ≤ F) (hA : A * L.cluster ≤ F)

include hl1 hA

theorem saveParts_spec (blockSize : ℕ) (parts : List (Option (ℕ → UInt8))) {offset : ℕ}
    (hoff : F ≤ offset) :
    Triple (Saving L F vh P) (saveParts blockSize offset parts) (fun _ => Saving L F vh P)
      (Saving L F vh P) := by
  induction parts generalizing offset with
  | nil => exact Triple.ret fun _ h => h
  | cons part parts ih =>
      cases part with
      | none => exact ih hoff
      | some part =>
          refine Triple.bind (R := fun _ => Saving L F vh P) (Triple.update fun d hd => ?_)
            fun _ => Triple.bind (ih (hoff.trans (Nat.le_add_right _ _))) fun _ =>
              Triple.ret fun _ h => h
          exact hd.write hP (harmless_tail (hl1.trans hoff) (hA.trans hoff))

theorem saveOptionalHeader_spec (hvh : vh.Valid) (hlay : vh.layout = L) (bitmap : DirtyBitmap) :
    Triple (Saving L F vh P) (saveOptionalHeader bitmap) (fun _ => Saving L F vh P)
      (Saving L F vh P) := by
  refine Triple.look fun d hd => ?_
  refine Triple.bind ((saveParts_spec hP hl1 hA _ _ hd.size).conseq (fun s hs => hs ▸ hd)
    (fun _ _ h => h) fun _ h => h) fun offsets => Triple.look fun e he => ?_
  have hext : F ≤ (e.file.size + sectorSize - 1) / sectorSize * sectorSize :=
    he.size.trans (le_alignUp (by norm_num [sectorSize]))
  refine Triple.bind (R := fun _ => Saving L F vh P) (Triple.update fun s hs => ?_) fun _ =>
    Triple.update fun s hs => hs.write hP (harmless_tail (hl1.trans hext) (hA.trans hext))
  subst hs
  refine he.write hP (harmless_header ?_ ?_)
  · rw [hd.hdr0]
    exact ⟨hvh.version, hvh.type, hvh.aligned, hvh.layout⟩
  · rw [hd.hdr0]
    exact hlay

/-- What harmless writes keep, `ploop_move_cbt` keeps. -/
theorem moveCbt_spec (loadCbt : File → Option DirtyBitmap) (top : File) {D : Disk} (hD : P D)
    (hF : D.file.size = F) (hvh : D.file.hdr.Valid) (hlay : D.file.hdr.layout = L) :
    P (moveCbt loadCbt top D) := by
  unfold moveCbt reopen
  cases loadCbt top with
  | none => exact hD
  | some bitmap =>
      cases hopen : openDelta D.file false with
      | none => exact hD
      | some d =>
          have hat := openDelta_spec hopen
          have hsave : Saving L F D.file.hdr P { d with disk := D } := ⟨hD, hat.hdr0, hF.ge⟩
          have hspec := saveOptionalHeader_spec hP hl1 hA hvh hlay bitmap _ hsave
          simp only [Option.map_some]
          cases hrun : saveOptionalHeader bitmap { d with disk := D } with
          | ok a s =>
              rw [hrun] at hspec
              exact hspec.disk
          | error e s =>
              rw [hrun] at hspec
              exact hspec.disk

end Save

/-- The disk stays as it was, at every moment. -/
theorem Finished.moveCbt {L : Layout} {O R₀ : VDisk} {S₀ : Set ℕ} {n : ℕ} {D : Disk}
    (h : Finished L O R₀ S₀ n D) (hl1 : L.l1Size * L.cluster ≤ D.file.size)
    (loadCbt : File → Option DirtyBitmap) (top : File) :
    (moveCbt loadCbt top D).Safe (Sound (Mask O R₀) L.cluster S₀) ∧
      WellFormed (moveCbt loadCbt top D).file ∧
      content (moveCbt loadCbt top D).file = progress O R₀ n := by
  have hcpos := h.file.valid.cluster_pos
  have hA : D.file.size / L.cluster * L.cluster ≤ D.file.size := Nat.div_mul_le_self _ _
  have hbelow : ∀ clu b, L.bat D.file clu = some b → b < D.file.size / L.cluster :=
    fun clu b hb => (h.file.table.inData clu b hb).2
  have hsteady : Steady L (Mask O R₀) S₀ (D.file.size / L.cluster) D := by
    refine ⟨h.settled.mono ?_, h.safe⟩
    rintro x rfl
    exact { h.file.widen (Set.singleton_subset_iff.mpr progress_mem) with
      within := fun clu b hb => ⟨h.file.within clu b hb, hbelow clu b hb⟩ }
  have hheld : Held L {progress O R₀ n} (Set.Iio (D.file.size / L.cluster)) D.file :=
    { h.file with within := hbelow }
  have hvh := h.file.header
  have hlay := h.file.layout
  refine ⟨(moveCbt_spec (P := fun D' => Steady L (Mask O R₀) S₀ (D.file.size / L.cluster) D')
    (fun D' w hw hD' => hD'.write fun S x => hw _ S x) hl1 hA loadCbt top hsteady rfl hvh
    hlay).safe, ?_⟩
  have hfinal := moveCbt_spec (P := fun D' => Held L {progress O R₀ n}
    (Set.Iio (D.file.size / L.cluster)) D'.file) (fun D' w hw hD' => by
      rw [Disk.file_write]
      exact hw _ _ _ (Set.Subset.refl _) hD') hl1 hA loadCbt top hheld rfl hvh hlay
  exact ⟨hfinal.wellFormed, hfinal.content⟩

end Ploop
