import Ploop.Image.CheckLoop
import Ploop.Image.Blank

/-!
# The bitmap of `ploop_check`

It is allocated for the blocks of the file, but the index is marked as long as the header says,
and both its size and the number of blocks are 32-bit numbers.
-/

namespace Ploop.Check

open Storage Program

/-! ## The source -/

/-- `bmap_size`, in bytes. -/
def bmapSize (stSize cluster : ℕ) : ℕ := u32 (u32 ((stSize + cluster - 1) / cluster) + 31) / 8

/-- The words that the search for holes reads, from word `i` on. -/
def holeWords (bmap : ℕ → Bool) (allocHead : ℕ) : ℕ → ℕ → List ℕ
  | _, 0 => []
  | i, n + 1 =>
      if ∀ k < 32, bmap (i * 32 + k) then i :: holeWords bmap allocHead (i + 1) n
      else if allocHead ≤ u32 (i * 32) then [i]
      else i :: holeWords bmap allocHead (i + 1) n

/-- The word of a bit is allocated. -/
def Inside (size b : ℕ) : Prop := 4 * (b / 32) + 4 ≤ size

/-- Nothing outside the bitmap has been touched. A bit that is tested is set right after, so
the bits set in the end are all those that the marking of the index and the slots got at. -/
structure InBitmap (f : File) (s : State) : Prop where
  marks : ∀ b, s.bmap b = true → Inside (bmapSize f.size f.hdr.layout.cluster) b
  holes : ∀ w ∈ holeWords s.bmap (u32 (s.allocHead + 1)) 0
    (bmapSize f.size f.hdr.layout.cluster / 4),
    4 * w + 4 ≤ bmapSize f.size f.hdr.layout.cluster

/-- The bitmap has a bit for the index, and the number of blocks in 32 bits has not lost those
that the slots name. -/
def BitmapFits (flags : Flags) (f : File) : Prop :=
  f.hdr.layout.l1Size ≤ 32 * (bmapSize f.size f.hdr.layout.cluster / 4) ∧
    (2 ^ 32 ≤ (f.size + f.hdr.layout.cluster - 1) / f.hdr.layout.cluster + 31 →
      ∀ k < readable f, ∀ b, found (descOf flags true f) f k = some (.block b) →
        b < 32 * (bmapSize f.size f.hdr.layout.cluster / 4))

/-! ## The bits that are set -/

section Bits

variable {c : Calls} {flags : Flags} {f : File}

theorem inside_iff {size b : ℕ} : Inside size b ↔ b < 32 * (size / 4) := by
  unfold Inside
  omega

/-- The search stays in the bitmap whatever it finds. -/
theorem lt_of_mem_holeWords {bmap : ℕ → Bool} {allocHead i n w : ℕ}
    (h : w ∈ holeWords bmap allocHead i n) : w < i + n := by
  induction n generalizing i with
  | zero => exact absurd h List.not_mem_nil
  | succ n ih =>
      have htail : w ∈ i :: holeWords bmap allocHead (i + 1) n → w < i + (n + 1) := by
        intro hmem
        rcases List.mem_cons.mp hmem with rfl | hrest
        · omega
        · have := ih hrest
          omega
      unfold holeWords at h
      split at h
      · exact htail h
      · split at h
        · obtain rfl := List.mem_singleton.mp h
          omega
        · exact htail h

theorem holes_inside {bmap : ℕ → Bool} {allocHead size w : ℕ}
    (h : w ∈ holeWords bmap allocHead 0 (size / 4)) : 4 * w + 4 ≤ size := by
  have := lt_of_mem_holeWords h
  omega

instance : Std.Refl (fun s t : State => t.bmap = s.bmap) := ⟨fun _ => rfl⟩

instance : IsTrans State (fun s t : State => t.bmap = s.bmap) := ⟨fun _ _ _ h h' => h'.trans h⟩

theorem finish_bmap (vh : PvdHeader) (l1Slots stSize : ℕ) (inUse : Bool) :
    Keeps (fun s t : State => t.bmap = s.bmap) (finish flags vh l1Slots stSize inUse) := by
  apply Keeps.get.bind
  intro s
  have hend (n : ℕ) : Keeps (fun s t : State => t.bmap = s.bmap)
      (if inUse = true ∧ ¬ flags.dropInuse = true then throw .ploopinuse
      else if ¬ s.clean = true then throw .ploopfmt
      else if ¬ inUse = true ∧ vh.mFlags = (if l1Slots < n then vh.mFlags &&& ~~~cifEmpty
        else vh.mFlags ||| cifEmpty) then pure ()
      else if flags.readonly = true then throw .write
      else writeSafe headerBytes 0 (wordBytes ({ vh with
        mDiskInUse := 0
        mFlags := if l1Slots < n then vh.mFlags &&& ~~~cifEmpty
          else vh.mFlags ||| cifEmpty }).toWords) : CheckM Unit) := by
    apply Keeps.ite (Keeps.throw _)
    apply Keeps.ite (Keeps.throw _)
    apply Keeps.ite (Keeps.pure _)
    apply Keeps.ite (Keeps.throw _)
    exact Keeps.modify fun _ => rfl
  apply Keeps.ite (Keeps.throw _)
  dsimp only
  apply Keeps.ite
  · apply Keeps.bind
    · exact Keeps.modify fun _ => rfl
    · exact fun _ => hend _
  · exact hend _

/-- Every call that the bitmap depends on succeeds. -/
structure Granted (c : Calls) (flags : Flags) : Prop where
  buffer : c.buffer = true
  bitmap : c.bitmap = true
  reopen : flags.readonly = false → c.reopen = none

/-- The bits that are set when the check ends, in whatever way. -/
structure Bits (c : Calls) (flags : Flags) (f : File) (s : State) : Prop where
  sound : ∀ b, s.bmap b = true →
    c.bitmap = true ∧ Enters flags f.hdr ∧ Marked (descOf flags true f) f (readable f) b
  complete : Granted c flags → flags.detailed = true → headerBytes ≤ f.size →
    Enters flags f.hdr → ∀ b, Marked (descOf flags true f) f (readable f) b → s.bmap b = true

theorem Bits.congr {s t : State} (h : Bits c flags f s) (hst : t.bmap = s.bmap) :
    Bits c flags f t :=
  ⟨hst ▸ h.sound, hst ▸ h.complete⟩

theorem Bits.of_fresh {s : State} (h : Fresh f s)
    (hnot : Granted c flags → headerBytes ≤ f.size → Enters flags f.hdr → False) :
    Bits c flags f s := by
  constructor
  · intro b hb
    rw [h.bmap] at hb
    exact absurd hb Bool.false_ne_true
  · exact fun hc _ hsize henter => (hnot hc hsize henter).elim

theorem Scanned.bits {check : Bool} {s : State}
    (h : Scanned (descOf flags check f) f (readable f) s)
    (hcheck : check = true ↔ flags.detailed = true ∧ c.bitmap = true)
    (henter : Enters flags f.hdr) : Bits c flags f s := by
  constructor
  · intro b hb
    obtain ⟨hset, hm⟩ := (h.bmap b).mp hb
    exact ⟨(hcheck.mp hset).2, henter, hm⟩
  · intro hc hdetailed _ _ b hm
    exact (h.bmap b).mpr ⟨hcheck.mpr ⟨hdetailed, hc.bitmap⟩, hm⟩

theorem checkIndex_bits (hhdr : Legible f.hdr) (henter : Enters flags f.hdr) :
    Triple (fun s => Fresh f s ∧ s.allocHead = f.hdr.layout.l1Size - 1)
      (checkIndex c flags f.hdr f.hdr.layout.version f.hdr.layout.l1Size f.size
        (f.hdr.mDiskInUse = signatureDiskInUse))
      (fun _ => Bits c flags f) (Bits c flags f) := by
  apply Triple.start
  rintro s ⟨hs, hhead⟩
  apply Triple.bind (R := fun check t =>
    (check = true ↔ flags.detailed = true ∧ c.bitmap = true) ∧
      t = if check then { s with bmap := fun b => b < f.hdr.layout.l1Size } else s)
  · apply startBitmap_fresh.conseq
    · exact fun _ ht => ht
    · rintro check t ⟨rfl, -, ht⟩
      exact ⟨Bool.and_eq_true_iff, ht⟩
    · rintro t ⟨rfl, hnone⟩
      exact .of_fresh hs fun hc _ _ => hnone fun _ => .inl hc.bitmap
  · intro check
    apply Triple.start
    rintro t ⟨hcheck, ht⟩
    have hscan := hs.scanned (d := descOf flags check f) hhead
    rw [show (descOf flags check f).check = check from rfl, ← ht] at hscan
    cases hreopen : (if flags.readonly = true then none else c.reopen) with
    | some e =>
        apply Triple.raise
        rintro u rfl
        constructor
        · intro b hb
          obtain ⟨hset, hm⟩ := (hscan.bmap b).mp hb
          exact ⟨(hcheck.mp hset).2, henter, hm.imp_right fun ⟨k, hk, _⟩ =>
            absurd hk (Nat.not_lt_zero k)⟩
        · intro hc
          cases hro : flags.readonly with
          | true =>
              rw [if_pos hro] at hreopen
              cases hreopen
          | false =>
              rw [if_neg (Bool.eq_false_iff.mp hro), hc.reopen hro] at hreopen
              cases hreopen
    | none =>
        apply Triple.bind (R := fun _ u => Bits c flags f u)
        · apply (indexLoop_scanned (d := descOf flags check f) hhdr.blocksize _).conseq
          · rintro u rfl
            exact hscan
          · exact fun _ u hu => hu.1.bits hcheck henter
          · exact fun u hu => hu.1.bits hcheck henter
        · intro _
          apply Triple.start
          intro u hu
          apply (finish_bmap _ _ _ _ u).conseq
          · exact fun _ hv => hv
          · exact fun _ v hv => hu.congr hv
          · exact fun v hv => hu.congr hv

theorem checkImage_bits (hhdr : Legible f.hdr) :
    Triple (Fresh f) (checkImage c flags) (fun _ => Bits c flags f) (Bits c flags f) := by
  apply checkImage_legible hhdr
  · intro _ hnot s hs
    exact .of_fresh hs fun _ _ henter => hnot henter
  · intro hor s hs
    apply Bits.of_fresh hs
    intro hc hsize henter
    rcases hor with hshort | hbuffer | hnot
    · exact absurd hsize (Nat.not_le.mpr hshort)
    · exact absurd (hbuffer.symm.trans hc.buffer) Bool.false_ne_true
    · exact hnot henter
  · exact fun henter _ => checkIndex_bits hhdr henter

theorem ploopCheck_bits (hhdr : Legible f.hdr) (hraw : flags.raw = false) (blocksize : Option ℕ) :
    Bits c flags f (ploopCheck c flags blocksize f).2 := by
  have hstart : Fresh f ⟨f, blocksize, none, true, false, 0, fun _ => false⟩ := ⟨rfl, rfl, rfl, rfl⟩
  have hrun := @checkImage_bits c flags f hhdr _ hstart
  unfold ploopCheck
  rw [hraw, if_neg Bool.false_ne_true]
  dsimp only
  split at hrun
  case h_1 heq =>
    rw [heq]
    exact hrun
  case h_2 heq =>
    rw [heq]
    exact hrun

/-! ## Results -/

/-- A bitmap for the blocks of the file has a bit for each of them. -/
theorem lt_bmapSize {size cluster b : ℕ} (hpos : 0 < cluster) (hb : b * cluster + cluster ≤ size)
    (hsmall : (size + cluster - 1) / cluster + 31 < 2 ^ 32) :
    b < 32 * (bmapSize size cluster / 4) := by
  have hlt : b + 1 ≤ (size + cluster - 1) / cluster := by
    rw [Nat.le_div_iff_mul_le hpos, Nat.succ_mul]
    omega
  have hblocks : u32 ((size + cluster - 1) / cluster) = (size + cluster - 1) / cluster :=
    u32_of_lt (by omega)
  unfold bmapSize
  rw [hblocks, u32_of_lt hsmall]
  omega

/-- No bitmap has a bit for the last 32 blocks that 32 bits can tell. -/
theorem bmapSize_lt (size cluster : ℕ) : 32 * (bmapSize size cluster / 4) ≤ 2 ^ 32 - 32 := by
  have hlt := u32_lt (u32 ((size + cluster - 1) / cluster) + 31)
  unfold bmapSize
  omega

/-- A bitmap that fits is large enough for whatever the check finds. -/
theorem BitmapFits.inBitmap (hhdr : Legible f.hdr) (hraw : flags.raw = false)
    (blocksize : Option ℕ) (hfits : Enters flags f.hdr → BitmapFits flags f) :
    InBitmap f (ploopCheck c flags blocksize f).2 := by
  have hpos : 0 < f.hdr.layout.cluster := by
    have hslots := slots_gt hhdr.blocksize
    rw [Layout.cluster_eq]
    omega
  have hbits := ploopCheck_bits (c := c) hhdr hraw blocksize
  constructor
  · intro b hb
    obtain ⟨-, henter, hm⟩ := hbits.sound b hb
    obtain ⟨hindex, hslots⟩ := hfits henter
    apply inside_iff.mpr
    rcases hm with hlt | ⟨k, hk, hblock⟩
    · exact hlt.trans_le hindex
    · by_cases hsmall :
          (f.size + f.hdr.layout.cluster - 1) / f.hdr.layout.cluster + 31 < 2 ^ 32
      · exact lt_bmapSize hpos (found_block hblock).2 hsmall
      · exact hslots (Nat.not_lt.mp hsmall) k hk b hblock
  · exact fun w hw => holes_inside hw

/-- The check stays in its bitmap exactly when the bitmap is large enough for the index and for
the blocks that the slots name. -/
theorem ploopCheck_inBitmap_iff (hhdr : Legible f.hdr) (hsize : headerBytes ≤ f.size)
    (hdetailed : flags.detailed = true) (hraw : flags.raw = false) (blocksize : Option ℕ) :
    (∀ c, InBitmap f (ploopCheck c flags blocksize f).2) ↔
      (Enters flags f.hdr → BitmapFits flags f) := by
  have hl1 : 0 < f.hdr.layout.l1Size := Nat.pos_of_ne_zero hhdr.index
  constructor
  · intro hall henter
    have hbits := ploopCheck_bits (c := ⟨true, true, none, none, none⟩) hhdr hraw blocksize
    have hin : ∀ b, Marked (descOf flags true f) f (readable f) b →
        b < 32 * (bmapSize f.size f.hdr.layout.cluster / 4) := fun b hb =>
      inside_iff.mp ((hall _).marks b
        (hbits.complete ⟨rfl, rfl, fun _ => rfl⟩ hdetailed hsize henter b hb))
    constructor
    · have hlast := hin (f.hdr.layout.l1Size - 1) (.inl (by omega))
      omega
    · intro _ k hk b hb
      exact hin b (.inr ⟨k, hk, hb⟩)
  · exact fun hfits c => BitmapFits.inBitmap hhdr hraw blocksize hfits

end Bits

/-- An image with two clusters is checked inside the bitmap. -/
theorem ploopCheck_inBitmap_iff_crossed :
    (∀ c, InBitmap (crossedImage .v2)
      (ploopCheck c ⟨true, false, true, true, false, false, false⟩ none (crossedImage .v2)).2) ↔
      (Enters ⟨true, false, true, true, false, false, false⟩ (crossedImage .v2).hdr →
        BitmapFits ⟨true, false, true, true, false, false, false⟩ (crossedImage .v2)) :=
  ploopCheck_inBitmap_iff (legible_of_valid (crossedImage_wellFormed .v2).header) (by decide)
    rfl rfl none

/-- A header that tells an index of 33 clusters. -/
def longHeader : PvdHeader :=
  { (generatePvdHeader PvdHeader.zero (2 ^ 17) 64 .v1).1 with mFirstBlockOffset := 33 * 64 }

/-- One cluster. -/
def longImage : File := File.empty.pwrite ⟨0, 4 * 8192, wordBytes longHeader.toWords⟩

theorem longImage_blank : Blank longHeader 8192 1 longImage := blank_header (by decide)

/-- The mark of the last cluster of the index lies behind the bitmap. -/
theorem ploopCheck_outside : ¬ ∀ (f : File) (flags : Flags) (c : Calls) (blocksize : Option ℕ),
    Legible f.hdr → headerBytes ≤ f.size → flags.detailed = true → flags.raw = false →
    InBitmap f (ploopCheck c flags blocksize f).2 := by
  intro hall
  have hhdr := longImage_blank.hdr
  have hsize := longImage_blank.size
  have hlegible : Legible longImage.hdr := by
    rw [hhdr]
    exact ⟨by decide, rfl, by decide, by decide, by decide⟩
  have hbits := @ploopCheck_bits ⟨true, true, none, none, none⟩
    ⟨true, false, true, true, false, false, false⟩ longImage hlegible rfl none
  have hbit := hbits.complete ⟨rfl, rfl, fun _ => rfl⟩ rfl (by rw [hsize]; decide)
    (by rw [hhdr]; exact rfl) 32 (.inl (by rw [hhdr]; decide))
  have hin := (hall _ _ _ none hlegible (by rw [hsize]; decide) rfl rfl).marks 32 hbit
  rw [hhdr, hsize] at hin
  exact absurd hin (by unfold Inside; decide)

end Ploop.Check
