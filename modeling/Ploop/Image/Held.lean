import Ploop.Image.Layout

/-!
# Images under a run

`Held L R S x`: the image `x` has layout `L`, reads one of the disks of `R`, and
keeps its data in blocks of `S`. Each kind of write the library makes outside `check.c` either
leaves such an image alone or changes it in one stated way.
-/

namespace Ploop

open Storage Indirection

/-- What the clusters of a virtual disk read. -/
abbrev VDisk := ℕ → Option (ℕ → UInt8)

structure Held (L : Layout) (R : Set VDisk) (S : Set ℕ) (x : File) : Prop where
  header : x.hdr.Valid
  layout : x.hdr.layout = L
  table : L.TableOk x
  within : ∀ clu b, L.bat x clu = some b → b ∈ S
  reads : L.readClu x ∈ R

namespace Held

variable {L : Layout} {R R' : Set VDisk} {S S' : Set ℕ} {x y : File}

theorem valid (h : Held L R S x) : L.Valid := h.layout ▸ h.header.layout

theorem wellFormed (h : Held L R S x) : WellFormed x :=
  ⟨h.header, h.layout.symm ▸ h.table⟩

theorem content (h : Held L R S x) : Ploop.content x ∈ R := by
  rw [Ploop.content, h.layout]
  exact h.reads

theorem mono (h : Held L R S x) (hS : S ⊆ S') : Held L R S' x :=
  { h with within := fun clu b hb => hS (h.within clu b hb) }

theorem widen (h : Held L R S x) (hR : R ⊆ R') : Held L R' S x :=
  { h with reads := hR h.reads }

theorem of_wellFormed (h : WellFormed x) :
    Held x.hdr.layout {Ploop.content x} (live (x.hdr.layout.bat x)) x where
  header := h.header
  layout := rfl
  table := h.table
  within := fun _ _ hb => mem_live hb
  reads := rfl

/-- The slots decide about the table, whatever the blocks hold. -/
theorem frame_table (h : Held L R S x) (hhdr : y.hdr.Valid) (hlay : y.hdr.layout = L)
    (hsize : x.size ≤ y.size)
    (hent : ∀ s, s + mapOffset < L.l1Size * L.slots → Layout.entry y s = Layout.entry x s)
    (hR : L.readClu y ∈ R') : Held L R' S y := by
  have hbat : L.bat y = L.bat x := by
    funext clu
    exact Layout.bat_congr fun hclu => hent clu (h.valid.clu_lt hclu)
  refine ⟨hhdr, hlay, ⟨?_, ?_, ?_, ?_⟩, ?_, hR⟩
  · intro clu hclu
    rw [hent clu (h.valid.clu_lt hclu)]
    exact h.table.aligned clu hclu
  · intro clu b hb
    rw [hbat] at hb
    obtain ⟨h₁, h₂⟩ := h.table.inData clu b hb
    exact ⟨h₁, lt_of_lt_of_le h₂ (Nat.div_le_div_right hsize)⟩
  · rw [hbat]
    exact h.table.oneToOne
  · intro s hs hs'
    rw [hent s hs']
    exact h.table.unused s hs hs'
  · intro clu b hb
    exact h.within clu b (hbat ▸ hb)

/-- Everything depends only on the header, the slots of the index area and the
blocks in use. -/
theorem frame (h : Held L R S x) (hhdr : y.hdr.Valid) (hlay : y.hdr.layout = L)
    (hsize : x.size ≤ y.size)
    (hent : ∀ s, s + mapOffset < L.l1Size * L.slots → Layout.entry y s = Layout.entry x s)
    (hblk : ∀ clu b, L.bat x clu = some b → L.block y b = L.block x b) : Held L R S y := by
  have hread : L.readClu y = L.readClu x := by
    funext clu
    unfold Layout.readClu
    rw [show L.bat y = L.bat x from funext fun clu =>
      Layout.bat_congr fun hclu => hent clu (h.valid.clu_lt hclu)]
    exact read_congr fun b hb => hblk clu b hb
  exact h.frame_table hhdr hlay hsize hent (hread ▸ h.reads)

end Held

/-! ## Writes outside the header -/

theorem word_eq_of_ge {f : File} {w : Write} {i : ℕ} (h : headerBytes ≤ w.off) (hi : i < 16) :
    (f.pwrite w).word i = f.word i :=
  f.word_pwrite_of_not_mem (Or.inl (by rw [headerBytes] at h; omega))

theorem PvdHeader.ofWords_congr {w w' : ℕ → UInt32} (h : ∀ i < 16, w' i = w i) :
    PvdHeader.ofWords w' = PvdHeader.ofWords w := by
  simp only [ofWords, h 0 (by norm_num), h 1 (by norm_num), h 2 (by norm_num), h 3 (by norm_num),
    h 4 (by norm_num), h 5 (by norm_num), h 6 (by norm_num), h 7 (by norm_num), h 8 (by norm_num),
    h 9 (by norm_num), h 10 (by norm_num), h 11 (by norm_num), h 12 (by norm_num),
    h 13 (by norm_num), h 14 (by norm_num), h 15 (by norm_num)]

theorem hdr_pwrite_of_ge {f : File} {w : Write} (h : headerBytes ≤ w.off) :
    (f.pwrite w).hdr = f.hdr :=
  PvdHeader.ofWords_congr fun _ hi => word_eq_of_ge h hi

/-- `change_delta_state` touches one field of the header. -/
theorem hdr_pwrite_diskInUse (f : File) (v : UInt32) :
    (f.pwrite ⟨PvdHeader.offDiskInUse, 4, wordBytes fun _ => v⟩).hdr
      = { f.hdr with mDiskInUse := v } := by
  have hw : ∀ i < 16, (f.pwrite ⟨PvdHeader.offDiskInUse, 4, wordBytes fun _ => v⟩).word i
      = if i = 11 then v else f.word i := by
    intro i hi
    split
    · rename_i h
      subst h
      rw [f.word_pwrite_of_mem (o := 11) rfl le_rfl (by norm_num [PvdHeader.offDiskInUse])]
      simp
    · rename_i h
      exact f.word_pwrite_of_not_mem (by simp only [PvdHeader.offDiskInUse]; omega)
  rw [File.hdr, PvdHeader.ofWords_congr hw]
  rfl

theorem PvdHeader.Valid.setDiskInUse {vh : PvdHeader} (h : vh.Valid) (v : UInt32) :
    ({ vh with mDiskInUse := v } : PvdHeader).Valid :=
  ⟨h.version, h.type, h.aligned, h.layout⟩

/-- The header a file holds once one has been written over its first bytes. -/
theorem hdr_pwrite_header (f : File) (vh : PvdHeader) :
    (f.pwrite ⟨0, headerBytes, wordBytes vh.toWords⟩).hdr = vh := by
  have hw : ∀ i < 16,
      (f.pwrite ⟨0, headerBytes, wordBytes vh.toWords⟩).word i = vh.toWords i := by
    intro i hi
    rw [f.word_pwrite_of_mem (o := 0) rfl (by omega) (by norm_num [headerBytes]; omega)]
    simp
  rw [File.hdr, PvdHeader.ofWords_congr hw, PvdHeader.ofWords_toWords]

namespace Held

variable {L : Layout} {R R' : Set VDisk} {S S' : Set ℕ} {x y : File}

theorem header_le (h : Held L R S x) : headerBytes ≤ L.l1Size * L.cluster := by
  have h₁ := h.valid.l1_pos
  have h₂ := h.valid.slots_gt
  have h₃ : L.cluster ≤ L.l1Size * L.cluster := Nat.le_mul_of_pos_left _ h₁
  rw [Layout.cluster_eq] at h₃ ⊢
  rw [mapOffset] at h₂
  rw [headerBytes]
  omega

/-- Writing a block that no slot names. -/
theorem write_dead (h : Held L R S x) {c : ℕ} (hc : L.l1Size ≤ c)
    (hdead : ∀ clu, L.bat x clu ≠ some c) (src : ℕ → UInt8) :
    Held L R S (x.pwrite ⟨c * L.cluster, L.cluster, src⟩) := by
  have hoff : L.l1Size * L.cluster ≤ c * L.cluster := Nat.mul_le_mul_right _ hc
  have hhdr : (x.pwrite ⟨c * L.cluster, L.cluster, src⟩).hdr = x.hdr :=
    hdr_pwrite_of_ge (h.header_le.trans hoff)
  refine h.frame (hhdr ▸ h.header) (hhdr ▸ h.layout) (x.le_size_pwrite _) ?_ ?_
  · intro s hs
    exact Layout.entry_pwrite_of_ge hs hoff
  · intro clu b hb
    exact Layout.block_pwrite_of_ne src fun hbc => hdead clu (hbc ▸ hb)

theorem bat_pwrite_of_ge (h : Held L R S x) {w : Write} (hoff : L.l1Size * L.cluster ≤ w.off) :
    L.bat (x.pwrite w) = L.bat x := by
  funext clu
  exact Layout.bat_congr fun hclu => Layout.entry_pwrite_of_ge (h.valid.clu_lt hclu) hoff

/-- Writing a block that may be in use, where the clusters that read it may
change. -/
theorem write_block (h : Held L R S x) {b : ℕ} (hb : L.l1Size ≤ b) (src : ℕ → UInt8)
    (hR : ∀ r : VDisk, (∀ clu, L.bat x clu ≠ some b → r clu = L.readClu x clu) → r ∈ R) :
    Held L R S (x.pwrite ⟨b * L.cluster, L.cluster, src⟩) := by
  have hoff : L.l1Size * L.cluster ≤ b * L.cluster := Nat.mul_le_mul_right _ hb
  have hhdr : (x.pwrite ⟨b * L.cluster, L.cluster, src⟩).hdr = x.hdr :=
    hdr_pwrite_of_ge (h.header_le.trans hoff)
  refine h.frame_table (hhdr ▸ h.header) (hhdr ▸ h.layout) (x.le_size_pwrite _)
    (fun s hs => Layout.entry_pwrite_of_ge hs hoff) (hR _ fun clu hclu => ?_)
  unfold Layout.readClu
  rw [h.bat_pwrite_of_ge hoff]
  refine read_congr fun c hc => Layout.block_pwrite_of_ne src ?_
  rintro rfl
  exact hclu hc

theorem write_diskInUse (h : Held L R S x) (v : UInt32) :
    Held L R S (x.pwrite ⟨PvdHeader.offDiskInUse, 4, wordBytes fun _ => v⟩) := by
  have hhdr := hdr_pwrite_diskInUse x v
  refine h.frame ?_ ?_ (x.le_size_pwrite _) ?_ ?_
  · rw [hhdr]
    exact h.header.setDiskInUse v
  · rw [hhdr]
    exact h.layout
  · intro s hs
    exact x.word_pwrite_of_not_mem
      (Or.inr (by simp only [PvdHeader.offDiskInUse, mapOffset]; omega))
  · intro clu b hb
    have hb' := (h.table.inData clu b hb).1
    have := h.header_le.trans (Nat.mul_le_mul_right L.cluster hb')
    rw [headerBytes] at this
    exact Layout.block_pwrite_of_le (by simp only [PvdHeader.offDiskInUse]; omega)

/-- A new table over the blocks as they are. -/
theorem retable (h : Held L R S x) (hhdr : y.hdr.Valid) (hlay : y.hdr.layout = L)
    (hblk : ∀ b, L.l1Size ≤ b → L.block y b = L.block x b) {T : ℕ → Option ℕ}
    (hT : ∀ clu < L.l2Size, Layout.entry y clu = L.encodeSlot (T clu))
    (hout : ∀ clu, L.l2Size ≤ clu → T clu = none)
    (hfit : ∀ clu b, T clu = some b → L.l1Size ≤ b ∧ L.Fits b ∧ b < y.size / L.cluster)
    (hone : OneToOne T)
    (hunused : ∀ s, L.l2Size ≤ s → s + mapOffset < L.l1Size * L.slots → Layout.entry y s = 0)
    (hS : ∀ clu b, T clu = some b → b ∈ S') (hR : read T (L.block x) ∈ R') : Held L R' S' y := by
  have hlt : ∀ clu b, T clu = some b → clu < L.l2Size := by
    intro clu b hb
    by_contra hge
    exact absurd (hb.symm.trans (hout clu (Nat.not_lt.mp hge))) (Option.some_ne_none b)
  have hslot : ∀ s, s + mapOffset < L.l1Size * L.slots →
      Layout.entry y s = L.encodeSlot (T s) := by
    intro s hs
    by_cases hs' : s < L.l2Size
    · exact hT s hs'
    · rw [hunused s (Nat.not_lt.mp hs') hs, hout s (Nat.not_lt.mp hs')]
      rfl
  obtain ⟨hbat, htable⟩ := h.valid.tableOk_of_slots hslot
    (fun clu b hb => ⟨hlt clu b hb, hfit clu b hb⟩) hone
  refine ⟨hhdr, hlay, htable, ?_, ?_⟩
  · intro clu b hb
    exact hS clu b (hbat ▸ hb)
  · have hread : L.readClu y = read T (L.block x) := by
      funext clu
      unfold Layout.readClu
      rw [hbat]
      exact read_congr fun b hb => hblk b (hfit clu b hb).1
    rwa [hread]

/-- One slot of the table written by itself. -/
theorem entry_pwrite (x : File) {off k s : ℕ} (e : UInt32) (hoff : off = 4 * (k + mapOffset)) :
    Layout.entry (x.pwrite ⟨off, 4, wordBytes fun _ => e⟩) s
      = if s = k then e else Layout.entry x s := by
  subst hoff
  split
  · rename_i h
    subst h
    unfold Layout.entry
    rw [x.word_pwrite_of_mem (o := s + mapOffset) rfl le_rfl (by simp only; omega)]
    simp
  · rename_i h
    exact x.word_pwrite_of_not_mem (by simp only; omega)

/-- Give cluster `clu` the block `A`, which no slot names. -/
theorem assign (h : Held L R S x) {clu A off : ℕ} (hclu : clu < L.l2Size) (hA : L.l1Size ≤ A)
    (hfit : L.Fits A) (hsize : A < x.size / L.cluster) (hdead : ∀ k, L.bat x k ≠ some A)
    (hoff : off = 4 * (clu + mapOffset))
    (hR : Function.update (L.readClu x) clu (some (L.block x A)) ∈ R') :
    Held L R' (insert A S)
      (x.pwrite ⟨off, 4, wordBytes fun _ => L.encode A⟩) := by
  have hbs := h.valid.pos
  have hgrow := Nat.div_le_div_right (c := L.cluster)
    (x.le_size_pwrite ⟨off, 4, wordBytes fun _ => L.encode A⟩)
  have hend := Layout.slot_lt (h.valid.clu_lt hclu)
  have hhdr : (x.pwrite ⟨off, 4, wordBytes fun _ => L.encode A⟩).hdr = x.hdr :=
    hdr_pwrite_of_ge (by simp only [headerBytes, hoff, mapOffset]; omega)
  have hread : read (Function.update (L.bat x) clu (some A)) (L.block x)
      = Function.update (L.readClu x) clu (some (L.block x A)) :=
    read_update fun _ _ _ _ => rfl
  refine h.retable (hhdr ▸ h.header) (hhdr ▸ h.layout) ?_ ?_ ?_ ?_ ?_ ?_ ?_ (hread ▸ hR)
  · intro b hb
    have := Nat.mul_le_mul_right L.cluster hb
    exact Layout.block_pwrite_of_le (by simp only; omega)
  · intro k hk
    rw [entry_pwrite x _ hoff]
    by_cases e : k = clu
    · simp [e, Layout.encodeSlot]
    · rw [if_neg e, Function.update_of_ne e]
      exact h.table.entry_slot hbs hk
  · intro k hk
    rw [Function.update_of_ne (by omega)]
    exact Layout.bat_of_ge hk
  · intro k b hb
    by_cases e : k = clu
    · subst e
      rw [Function.update_self] at hb
      obtain rfl := Option.some.inj hb
      exact ⟨hA, hfit, lt_of_lt_of_le hsize hgrow⟩
    · rw [Function.update_of_ne e] at hb
      obtain ⟨h₁, h₂⟩ := h.table.inData k b hb
      exact ⟨h₁, h.table.fits hbs hb, lt_of_lt_of_le h₂ hgrow⟩
  · exact h.table.oneToOne.update fun k _ => hdead k
  · intro s hs hs'
    rw [entry_pwrite x _ hoff, if_neg (by omega)]
    exact h.table.unused s hs hs'
  · intro k b hb
    by_cases e : k = clu
    · subst e
      rw [Function.update_self] at hb
      exact Set.mem_insert_iff.mpr (Or.inl (Option.some.inj hb).symm)
    · rw [Function.update_of_ne e] at hb
      exact Set.mem_insert_of_mem _ (h.within k b hb)

/-- Move cluster `clu` from block `i` to the copy in block `A`. -/
theorem move (h : Held L R S x) {clu i A off : ℕ} (hi : L.bat x clu = some i)
    (hA : L.l1Size ≤ A) (hfit : L.Fits A) (hsize : A < x.size / L.cluster)
    (hdead : ∀ k, L.bat x k ≠ some A) (hcopy : L.block x A = L.block x i)
    (hoff : off = 4 * (clu + mapOffset)) :
    Held L R (insert A S) (x.pwrite ⟨off, 4, wordBytes fun _ => L.encode A⟩) := by
  have hclu : L.readClu x clu = some (L.block x A) := by
    rw [hcopy]
    exact read_of_some hi
  refine h.assign (Layout.bat_lt hi) hA hfit hsize hdead hoff ?_
  rw [← hclu, Function.update_eq_self]
  exact h.reads

section Switch

variable {vh : PvdHeader}

theorem entry_switch (x : File) (vh : PvdHeader) (s : ℕ) :
    Layout.entry (x.pwrite ⟨0, headerBytes, wordBytes vh.toWords⟩) s = Layout.entry x s :=
  x.word_pwrite_of_not_mem (Or.inr (by simp only [headerBytes, mapOffset]; omega))

/-- Slots without a cluster are empty, also those that a larger index adds. -/
theorem entry_added (h : Held L R S x)
    (hzero : ∀ i, L.l1Size * L.slots ≤ i → i < vh.layout.l1Size * L.slots → x.word i = 0) {s : ℕ}
    (hs : L.bat x s = none) (hs' : s + mapOffset < vh.layout.l1Size * L.slots) :
    Layout.entry x s = 0 := by
  by_cases hlt : s < L.l2Size
  · exact (Layout.bat_eq_none hlt).mp hs
  · by_cases hin : s + mapOffset < L.l1Size * L.slots
    · exact h.table.unused s (by omega) hin
    · exact hzero _ (by omega) hs'

/-- A new header over the same slots leaves the table as it is. -/
theorem bat_switch (h : Held L R S x) (hvh : vh.Valid)
    (hversion : vh.layout.version = L.version) (hblocksize : vh.layout.blocksize = L.blocksize)
    (hkeep : ∀ clu, vh.layout.l2Size ≤ clu → L.bat x clu = none)
    (hzero : ∀ i, L.l1Size * L.slots ≤ i → i < vh.layout.l1Size * L.slots → x.word i = 0) :
    vh.layout.bat (x.pwrite ⟨0, headerBytes, wordBytes vh.toWords⟩) = L.bat x := by
  have hslots : vh.layout.slots = L.slots := by
    rw [Layout.slots_eq, Layout.slots_eq, hblocksize]
  funext clu
  by_cases hclu' : clu < vh.layout.l2Size
  · by_cases hclu : clu < L.l2Size
    · simp only [Layout.bat, hclu, hclu', entry_switch, hversion, hblocksize]
    · have hnone : L.bat x clu = none := Layout.bat_of_ge (by omega)
      rw [hnone, Layout.bat_eq_none hclu', entry_switch]
      exact h.entry_added hzero hnone (hslots ▸ hvh.layout.clu_lt hclu')
  · rw [hkeep clu (by omega)]
    exact Layout.bat_of_ge (by omega)

/-- The index area grows over zeros and the disk over empty slots. -/
theorem switch (h : Held L R S x) (hvh : vh.Valid)
    (hversion : vh.layout.version = L.version) (hblocksize : vh.layout.blocksize = L.blocksize)
    (hkeep : ∀ clu, vh.layout.l2Size ≤ clu → L.bat x clu = none)
    (hzero : ∀ i, L.l1Size * L.slots ≤ i → i < vh.layout.l1Size * L.slots → x.word i = 0)
    (hdata : ∀ clu b, L.bat x clu = some b → vh.layout.l1Size ≤ b) :
    Held vh.layout R S (x.pwrite ⟨0, headerBytes, wordBytes vh.toWords⟩) := by
  have hhdr := hdr_pwrite_header x vh
  have hcluster : vh.layout.cluster = L.cluster := by rw [Layout.cluster, hblocksize]; rfl
  have hslots : vh.layout.slots = L.slots := by rw [Layout.slots, hcluster]; rfl
  have hbat := h.bat_switch hvh hversion hblocksize hkeep hzero
  refine ⟨by rwa [hhdr], by rw [hhdr], ⟨?_, ?_, ?_, ?_⟩, ?_, ?_⟩
  · intro clu hclu
    rw [entry_switch, hversion, hblocksize]
    by_cases hclu' : clu < L.l2Size
    · exact h.table.aligned clu hclu'
    · rw [h.entry_added hzero (Layout.bat_of_ge (by omega)) (hslots ▸ hvh.layout.clu_lt hclu)]
      cases L.version <;> simp [ioffToSec]
  · intro clu b hb
    rw [hbat] at hb
    refine ⟨hdata clu b hb, lt_of_lt_of_le (h.table.inData clu b hb).2 ?_⟩
    rw [hcluster]
    exact Nat.div_le_div_right (x.le_size_pwrite _)
  · rw [hbat]
    exact h.table.oneToOne
  · intro s hs hs'
    rw [entry_switch]
    exact h.entry_added hzero (hkeep s hs) (hslots ▸ hs')
  · intro clu b hb
    exact h.within clu b (hbat ▸ hb)
  · have hread : vh.layout.readClu (x.pwrite ⟨0, headerBytes, wordBytes vh.toWords⟩)
        = L.readClu x := by
      funext clu
      unfold Layout.readClu
      rw [hbat]
      refine read_congr fun b hb => ?_
      have hle := h.header_le.trans
        (Nat.mul_le_mul_right L.cluster (h.table.inData clu b hb).1)
      calc vh.layout.block (x.pwrite ⟨0, headerBytes, wordBytes vh.toWords⟩) b
          = L.block (x.pwrite ⟨0, headerBytes, wordBytes vh.toWords⟩) b := by
            unfold Layout.block
            rw [hcluster]
        _ = L.block x b := Layout.block_pwrite_of_le (by simp only; omega)
    rw [hread]
    exact h.reads

end Switch

end Held

end Ploop
