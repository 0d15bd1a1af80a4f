import Ploop.Image.MergeSource

/-!
# What a merge writes

The table of the output is `T`: on disk, but for one cluster of it that is held
in memory. The table only grows, a slot reaches the disk only after the block
it names, and blocks in use are overwritten only where a source covers them.
-/

namespace Ploop

open Storage Indirection Program

/-- Disks that differ from `R₀` only where the stack `O` covers it. -/
def Mask (O R₀ : VDisk) : Set VDisk := {R | ∀ clu, O clu = none → R clu = R₀ clu}

/-- The disk once the clusters below `n` are merged. -/
def progress (O R₀ : VDisk) (n : ℕ) : VDisk :=
  fun clu => if clu < n ∧ O clu ≠ none then O clu else R₀ clu

section Mask

variable {O R₀ : VDisk} {n : ℕ}

theorem progress_mem : progress O R₀ n ∈ Mask O R₀ := by
  intro clu hclu
  simp [progress, hclu]

theorem progress_zero : progress O R₀ 0 = R₀ := by
  funext clu
  simp [progress]

theorem progress_succ_of_none (h : O n = none) : progress O R₀ (n + 1) = progress O R₀ n := by
  funext clu
  by_cases e : clu = n
  · subst e
    simp [progress, h]
  · simp only [progress, show clu < n + 1 ↔ clu < n by omega]

theorem progress_succ_of_some {v : ℕ → UInt8} (h : O n = some v) :
    progress O R₀ (n + 1) = Function.update (progress O R₀ n) n (some v) := by
  funext clu
  by_cases e : clu = n
  · subst e
    simp [progress, h]
  · rw [Function.update_of_ne e]
    simp only [progress, show clu < n + 1 ↔ clu < n by omega]

/-- Changing a covered cluster stays within the mask. -/
theorem Mask.change {R r : VDisk} (hR : R ∈ Mask O R₀)
    (h : ∀ clu, O clu = none → r clu = R clu) : r ∈ Mask O R₀ :=
  fun clu hclu => (h clu hclu).trans (hR clu hclu)

end Mask

/-- The disk of the output: `T` is the table as it will be, the tables found
after a crash are parts of it. `Ls` are the layouts a crash may leave, `L` is
that of the file. -/
structure Merging (Ls : Set Layout) (L : Layout) (B : ℕ) (O R₀ : VDisk) (S₀ : Set ℕ)
    (T : ℕ → Option ℕ) (A : ℕ) (D : Disk) : Prop where
  layouts : ∀ M ∈ Ls, M.cluster = L.cluster ∧ M.l1Size ≤ B
  mem : L ∈ Ls
  every : D.Every fun x => ∃ M ∈ Ls, Held M (Mask O R₀) (Backed L.cluster S₀ D.log ∩ Set.Iio A) x ∧
    ∀ clu b, M.bat x clu = some b → T clu = some b
  safe : D.Safe (Sound (Mask O R₀) L.cluster S₀)
  file : Held L (Mask O R₀) (Backed L.cluster S₀ D.log ∩ Set.Iio A) D.file
  part : ∀ clu b, L.bat D.file clu = some b → T clu = some b
  low : B ≤ A
  oneToOne : OneToOne T
  out : ∀ clu, L.l2Size ≤ clu → T clu = none
  slots : ∀ clu b, T clu = some b → B ≤ b ∧ b < A ∧ L.Fits b ∧
    (b + 1) * L.cluster ≤ D.file.size ∧ b ∈ Backed L.cluster S₀ (D.log ++ [.sync])

namespace Merging

variable {Ls : Set Layout} {L : Layout} {B : ℕ} {O R₀ : VDisk} {S₀ : Set ℕ} {T : ℕ → Option ℕ}
  {A : ℕ} {D : Disk}

theorem valid (h : Merging Ls L B O R₀ S₀ T A D) : L.Valid := h.file.valid

theorem l1_le (h : Merging Ls L B O R₀ S₀ T A D) : L.l1Size ≤ B := (h.layouts L h.mem).2

/-- After one more event, durable data stays durable. -/
theorem backed_event {C : ℕ} {log : List (Event Write)} (e : Event Write) :
    Backed C S₀ (log ++ [.sync]) ⊆ Backed C S₀ (log ++ [e] ++ [.sync]) := by
  rintro b (hb | ⟨w, hw, h⟩)
  · exact Or.inl hb
  · refine Or.inr ⟨w, ?_, h⟩
    rw [durable_sync] at hw ⊢
    cases e with
    | write v => simpa using Or.inl hw
    | sync => simpa using hw

theorem sync (h : Merging Ls L B O R₀ S₀ T A D) : Merging Ls L B O R₀ S₀ T A D.sync := by
  have hmono : Backed L.cluster S₀ D.log ∩ Set.Iio A
      ⊆ Backed L.cluster S₀ D.sync.log ∩ Set.Iio A :=
    Set.inter_subset_inter_left _ backed_subset_sync
  have hfile := h.file.mono hmono
  refine ⟨h.layouts, h.mem, Disk.every_sync.mpr ⟨L, h.mem, hfile, h.part⟩,
    h.safe.sync (Disk.every_sync.mpr ⟨L, rfl, hfile.mono Set.inter_subset_left⟩), ?_, ?_, h.low,
    h.oneToOne, h.out, fun clu b hb => ?_⟩
  · rwa [Disk.file_sync]
  · rw [Disk.file_sync]
    exact h.part
  · obtain ⟨h₁, h₂, h₃, h₄, h₅⟩ := h.slots clu b hb
    rw [Disk.file_sync]
    exact ⟨h₁, h₂, h₃, h₄, backed_event _ h₅⟩

/-- A crash image stays one when a block that only covered clusters read is
written. -/
theorem held_write {M : Layout} {S : Set ℕ} {x : File} (hx : Held M (Mask O R₀) S x)
    (hpart : ∀ clu b, M.bat x clu = some b → T clu = some b) {b : ℕ} (hb : M.l1Size ≤ b)
    (hcover : ∀ clu, T clu = some b → O clu ≠ none) (src : ℕ → UInt8) :
    Held M (Mask O R₀) S (x.pwrite ⟨b * M.cluster, M.cluster, src⟩) ∧
      M.bat (x.pwrite ⟨b * M.cluster, M.cluster, src⟩) = M.bat x := by
  refine ⟨hx.write_block hb src fun r hr => Mask.change hx.reads fun clu hclu => hr clu ?_, ?_⟩
  · intro hbat
    exact hcover clu (hpart clu b hbat) hclu
  · exact hx.bat_pwrite_of_ge (Nat.mul_le_mul_right _ hb)

/-- Block `b` is written for cluster `clu₀`, which may get it only now. -/
theorem write (h : Merging Ls L B O R₀ S₀ T A D) {T' : ℕ → Option ℕ} {A' b clu₀ : ℕ} (hA : A ≤ A')
    (hb : B ≤ b) (hbA : b < A') (hfit : L.Fits b) (hcover : O clu₀ ≠ none)
    (hclu : T' clu₀ = some b) (hext : ∀ clu c, T clu = some c → T' clu = some c)
    (hnew : ∀ clu c, T' clu = some c → T clu = some c ∨ clu = clu₀ ∧ c = b)
    (hone : OneToOne T') (hout : ∀ clu, L.l2Size ≤ clu → T' clu = none) (src : ℕ → UInt8) :
    Merging Ls L B O R₀ S₀ T' A' (D.write ⟨b * L.cluster, L.cluster, src⟩) := by
  have hback : Backed L.cluster S₀ (D.write ⟨b * L.cluster, L.cluster, src⟩).log
      = Backed L.cluster S₀ D.log := backed_write _
  have hcov : ∀ clu, T clu = some b → O clu ≠ none := by
    intro clu hb'
    rwa [hone (hext clu b hb') hclu]
  have hstep : ∀ x M, M ∈ Ls →
      Held M (Mask O R₀) (Backed L.cluster S₀ D.log ∩ Set.Iio A) x →
      (∀ clu b, M.bat x clu = some b → T clu = some b) →
      Held M (Mask O R₀) (Backed L.cluster S₀ D.log ∩ Set.Iio A)
        (x.pwrite ⟨b * L.cluster, L.cluster, src⟩) ∧
        ∀ clu c, M.bat (x.pwrite ⟨b * L.cluster, L.cluster, src⟩) clu = some c →
          T clu = some c := by
    intro x M hM hx hpart
    obtain ⟨hcluster, hl1⟩ := h.layouts M hM
    obtain ⟨hheld, hbat⟩ := held_write hx hpart (hl1.trans hb) hcov src
    rw [hcluster] at hheld hbat
    exact ⟨hheld, fun clu c hc => hpart clu c (hbat ▸ hc)⟩
  have hmono : Backed L.cluster S₀ D.log ∩ Set.Iio A ⊆ Backed L.cluster S₀ D.log ∩ Set.Iio A' :=
    Set.inter_subset_inter_right _ (Set.Iio_subset_Iio hA)
  have hevery : (D.write ⟨b * L.cluster, L.cluster, src⟩).Every fun x => ∃ M ∈ Ls,
      Held M (Mask O R₀) (Backed L.cluster S₀ D.log ∩ Set.Iio A) x ∧
        ∀ clu b, M.bat x clu = some b → T clu = some b :=
    h.every.write fun x ⟨M, hM, hx, hpart⟩ => ⟨M, hM, hstep x M hM hx hpart⟩
  have hview := hstep D.file L h.mem h.file h.part
  refine ⟨h.layouts, h.mem, ?_, h.safe.write (hevery.mono ?_), ?_, ?_, h.low.trans hA, hone, hout,
    ?_⟩
  · rw [hback]
    refine hevery.mono ?_
    rintro x ⟨M, hM, hx, hpart⟩
    exact ⟨M, hM, hx.mono hmono, fun clu c hc => hext clu c (hpart clu c hc)⟩
  · rintro x ⟨M, hM, hx, -⟩
    unfold Sound
    rw [hback]
    exact ⟨M, (h.layouts M hM).1, hx.mono Set.inter_subset_left⟩
  · rw [hback, Disk.file_write]
    exact hview.1.mono hmono
  · intro clu c hc
    rw [Disk.file_write] at hc
    exact hext clu c (hview.2 clu c hc)
  · intro clu c hc
    have hsize := D.file.le_size_pwrite ⟨b * L.cluster, L.cluster, src⟩
    rw [Disk.file_write]
    rcases hnew clu c hc with hold | ⟨-, rfl⟩
    · obtain ⟨h₁, h₂, h₃, h₄, h₅⟩ := h.slots clu c hold
      exact ⟨h₁, by omega, h₃, h₄.trans hsize, backed_event _ h₅⟩
    · have hend := D.file.end_le_size_pwrite (w := ⟨c * L.cluster, L.cluster, src⟩)
        h.valid.cluster_pos.ne'
      refine ⟨hb, hbA, hfit, ?_, ?_⟩
      · rw [Nat.succ_mul]
        exact hend
      · exact mem_backed_sync (w := ⟨c * L.cluster, L.cluster, src⟩) (by simp [Disk.write]) rfl rfl

/-- The cluster of the table that was held in memory is written back: from now
on the table of the file is `T`. -/
theorem write_page (h : Merging Ls L B O R₀ S₀ T A D) {w : Write}
    (hoff : headerBytes ≤ w.off) (hend : w.off + w.len ≤ L.l1Size * L.cluster)
    (hentry : ∀ clu < L.l2Size, Layout.entry (D.file.pwrite w) clu = L.encodeSlot (T clu))
    (htail : ∀ s, L.l2Size ≤ s → s + mapOffset < L.l1Size * L.slots →
      Layout.entry (D.file.pwrite w) s = 0) (hmask : read T (L.block D.file) ∈ Mask O R₀) :
    Merging Ls L B O R₀ S₀ T A (D.sync.write w) ∧ L.bat (D.file.pwrite w) = T := by
  have hs := h.sync
  have hback : Backed L.cluster S₀ (D.sync.write w).log = Backed L.cluster S₀ D.sync.log :=
    backed_write _
  have hfile : (D.sync.write w).file = D.file.pwrite w := by rw [Disk.file_write, Disk.file_sync]
  have hhdr : (D.file.pwrite w).hdr = D.file.hdr := hdr_pwrite_of_ge hoff
  have hcpos := h.valid.cluster_pos
  have hsize := D.file.le_size_pwrite w
  have hne : ∀ clu b, T clu = some b → L.Fits b ∧ b ≠ 0 := by
    intro clu b hb
    have := h.valid.l1_pos
    have := h.l1_le
    obtain ⟨h₁, -, h₃, -⟩ := h.slots clu b hb
    exact ⟨h₃, by omega⟩
  have hbat : L.bat (D.file.pwrite w) = T := by
    funext clu
    by_cases hclu : clu < L.l2Size
    · exact Layout.bat_of_encodeSlot h.valid.pos hclu (hne clu) (hentry clu hclu)
    · rw [h.out clu (by omega), Layout.bat_of_ge (by omega)]
  have hnew :
      Held L (Mask O R₀) (Backed L.cluster S₀ D.sync.log ∩ Set.Iio A) (D.file.pwrite w) := by
    refine h.file.retable (hhdr ▸ h.file.header) (hhdr ▸ h.file.layout) ?_ hentry h.out ?_
      h.oneToOne htail ?_ hmask
    · intro b hb
      exact Layout.block_pwrite_of_le (hend.trans (Nat.mul_le_mul_right _ hb))
    · intro clu b hb
      obtain ⟨h₁, -, h₃, h₄, -⟩ := h.slots clu b hb
      refine ⟨h.l1_le.trans h₁, h₃, ?_⟩
      rw [← Nat.succ_le_iff, Nat.le_div_iff_mul_le hcpos]
      exact h₄.trans hsize
    · intro clu b hb
      obtain ⟨-, h₂, -, -, h₅⟩ := h.slots clu b hb
      exact ⟨h₅, h₂⟩
  have hevery : (D.sync.write w).Every fun x => ∃ M ∈ Ls,
      Held M (Mask O R₀) (Backed L.cluster S₀ D.sync.log ∩ Set.Iio A) x ∧
        ∀ clu b, M.bat x clu = some b → T clu = some b :=
    every_write.mpr ⟨hs.every, Disk.every_sync.mpr ⟨L, h.mem, hnew, fun clu b hb => hbat ▸ hb⟩⟩
  refine ⟨⟨h.layouts, h.mem, by rwa [hback], hs.safe.write (hevery.mono ?_), ?_, ?_, h.low,
    h.oneToOne, h.out, ?_⟩, hbat⟩
  · rintro x ⟨M, hM, hx, -⟩
    unfold Sound
    rw [hback]
    exact ⟨M, (h.layouts M hM).1, hx.mono Set.inter_subset_left⟩
  · rw [hback, hfile]
    exact hnew
  · rw [hfile, hbat]
    exact fun _ _ hb => hb
  · intro clu b hb
    obtain ⟨h₁, h₂, h₃, h₄, h₅⟩ := hs.slots clu b hb
    rw [hfile]
    rw [Disk.file_sync] at h₄
    exact ⟨h₁, h₂, h₃, h₄.trans hsize, backed_event _ h₅⟩

end Merging

/-! ## The table in memory -/

/-- A cluster of the table as it is written back: the header keeps its words. -/
def pageWrite (L : Layout) (l2 : ℕ → UInt32) (p : ℕ) : Write :=
  let skip := if p = 0 then headerBytes else 0
  ⟨p * L.cluster + skip, L.cluster - skip, fun j => wordBytes l2 (j + skip)⟩

section Page

variable {L : Layout} {l2 : ℕ → UInt32} {p : ℕ}

theorem pageWrite_off (hL : L.Valid) : headerBytes ≤ (pageWrite L l2 p).off := by
  have hgt := hL.slots_gt
  have hc := Layout.cluster_eq (L := L)
  simp only [pageWrite, headerBytes, mapOffset] at *
  by_cases hp : p = 0
  · simp [hp]
  · have := Nat.mul_le_mul_right L.cluster (Nat.pos_of_ne_zero hp)
    simp only [hp, if_false]
    omega

theorem pageWrite_end (hL : L.Valid) (hp : p < L.l1Size) :
    (pageWrite L l2 p).off + (pageWrite L l2 p).len ≤ L.l1Size * L.cluster := by
  have hgt := hL.slots_gt
  have hc := Layout.cluster_eq (L := L)
  have hle := Nat.mul_le_mul_right L.cluster hp
  rw [Nat.succ_mul] at hle
  simp only [pageWrite, headerBytes, mapOffset] at *
  split <;> omega

theorem entry_pageWrite (hL : L.Valid) (f : File) (s : ℕ) :
    Layout.entry (f.pwrite (pageWrite L l2 p)) s
      = if (s + mapOffset) / L.slots = p then l2 ((s + mapOffset) % L.slots)
        else Layout.entry f s := by
  have hgt := hL.slots_gt
  have hpos := hL.slots_pos
  have hc := Layout.cluster_eq (L := L)
  have hpc : p * L.cluster = 4 * (p * L.slots) := by
    rw [hc]
    ring
  have hw := Nat.div_add_mod' (s + mapOffset) L.slots
  have hm := Nat.mod_lt (s + mapOffset) hpos
  unfold Layout.entry
  by_cases hp : (s + mapOffset) / L.slots = p
  · rw [if_pos hp]
    rw [hp] at hw
    by_cases h0 : p = 0
    · subst h0
      rw [File.word_pwrite_of_mem _ (o := mapOffset) (by simp [pageWrite, headerBytes, mapOffset])
        (Nat.le_add_left _ _) (by simp only [pageWrite, headerBytes, mapOffset] at *; simp; omega)]
      have hs : (s + mapOffset) % L.slots = s + mapOffset := by omega
      rw [hs]
      refine Eq.trans (bytesWord_congr fun j hj => ?_) (congrFun (bytesWord_wordBytes l2) _)
      simp only [pageWrite, if_true, headerBytes, mapOffset]
      congr 1
      omega
    · rw [File.word_pwrite_of_mem _ (o := p * L.slots) (by simp [pageWrite, h0, hpc]) (by omega)
        (by simp only [pageWrite, h0, if_false]; omega)]
      refine Eq.trans (bytesWord_congr fun j hj => ?_) (congrFun (bytesWord_wordBytes l2) _)
      simp only [pageWrite, h0, if_false]
      congr 1
      omega
  · rw [if_neg hp, File.word_pwrite_of_not_mem]
    simp only [pageWrite, headerBytes, mapOffset] at *
    rcases Nat.lt_or_gt_of_ne hp with hlt | hgt'
    · left
      have := Nat.mul_le_mul_right L.slots hlt
      rw [Nat.succ_mul] at this
      omega
    · right
      have := Nat.mul_le_mul_right L.slots hgt'
      rw [Nat.succ_mul] at this
      split <;> omega

end Page

/-- The output with the clusters below `n` merged. -/
structure Output (Ls : Set Layout) (L : Layout) (B : ℕ) (O R₀ : VDisk) (S₀ : Set ℕ)
    (T : ℕ → Option ℕ) (A n : ℕ) (d : Delta) : Prop where
  version : d.version = L.version
  blocksize : d.blocksize = L.blocksize
  l1Size : d.l1Size = L.l1Size
  head : d.allocHead = UInt32.ofNat A
  room : A ≤ L.limit ∨ ∀ clu, O clu ≠ none → T clu ≠ none
  disk : Merging Ls L B O R₀ S₀ T A d.disk
  cached : ∀ p, d.l2Cache = some p → p < L.l1Size
  dirty : d.l2Dirty → d.l2Cache.isSome
  slot : ∀ clu < L.l2Size, d.l2Cache = some ((clu + mapOffset) / L.slots) →
    d.l2 ((clu + mapOffset) % L.slots) = L.encodeSlot (T clu)
  tail : ∀ s, L.l2Size ≤ s → s + mapOffset < L.l1Size * L.slots →
    d.l2Cache = some ((s + mapOffset) / L.slots) → d.l2 ((s + mapOffset) % L.slots) = 0
  rest : ∀ clu < L.l2Size, d.l2Cache ≠ some ((clu + mapOffset) / L.slots) →
    Layout.entry d.file clu = L.encodeSlot (T clu)
  clean : ¬ d.l2Dirty → ∀ clu < L.l2Size, Layout.entry d.file clu = L.encodeSlot (T clu)
  reads : read T (L.block d.file) = progress O R₀ n

namespace Output

variable {Ls : Set Layout} {L : Layout} {B : ℕ} {O R₀ : VDisk} {S₀ : Set ℕ} {T : ℕ → Option ℕ}
  {A n p : ℕ} {d : Delta}

theorem valid (h : Output Ls L B O R₀ S₀ T A n d) : L.Valid := h.disk.valid

theorem cluster (h : Output Ls L B O R₀ S₀ T A n d) : d.cluster = L.cluster := by
  rw [Delta.cluster, h.blocksize]
  rfl

/-- Writing the cached cluster of the table back, between two barriers. -/
theorem flush (h : Output Ls L B O R₀ S₀ T A n d) (hp : d.l2Cache = some p) {d' : Delta}
    (hd' : d' = ((d.sync.write (pageWrite L d.l2 p)).sync)) :
    Output Ls L B O R₀ S₀ T A n { d' with l2Dirty := false } ∧ L.bat d'.file = T := by
  have hL := h.valid
  have hlt := h.cached p hp
  have hoff : headerBytes ≤ (pageWrite L d.l2 p).off := pageWrite_off hL
  have hend : (pageWrite L d.l2 p).off + (pageWrite L d.l2 p).len ≤ L.l1Size * L.cluster :=
    pageWrite_end hL hlt
  have hentry : ∀ clu < L.l2Size,
      Layout.entry (d.file.pwrite (pageWrite L d.l2 p)) clu = L.encodeSlot (T clu) := by
    intro clu hclu
    rw [entry_pageWrite hL]
    split
    · rename_i e
      exact h.slot clu hclu (e ▸ hp)
    · rename_i e
      refine h.rest clu hclu fun hc => e ?_
      exact Option.some.inj (hc.symm.trans hp)
  have htail : ∀ s, L.l2Size ≤ s → s + mapOffset < L.l1Size * L.slots →
      Layout.entry (d.file.pwrite (pageWrite L d.l2 p)) s = 0 := by
    intro s hs hs'
    rw [entry_pageWrite hL]
    split
    · rename_i e
      exact h.tail s hs hs' (e ▸ hp)
    · exact h.disk.file.table.unused s hs hs'
  have hmask : read T (L.block d.file) ∈ Mask O R₀ := h.reads ▸ progress_mem
  obtain ⟨hdisk, hbat⟩ := h.disk.write_page hoff hend hentry htail hmask
  have hfile : d'.file = d.file.pwrite (pageWrite L d.l2 p) := by
    rw [hd', Delta.file_sync, Delta.file_write, Delta.file_sync]
  have hfile' : ({ d' with l2Dirty := false } : Delta).file = d'.file := rfl
  have hl2 : d'.l2 = d.l2 := by rw [hd']; rfl
  have hcache : d'.l2Cache = d.l2Cache := by rw [hd']; rfl
  refine ⟨⟨?_, ?_, ?_, ?_, h.room, ?_, ?_, by simp, ?_, ?_, ?_, ?_, ?_⟩, hfile ▸ hbat⟩
  · exact hd' ▸ h.version
  · exact hd' ▸ h.blocksize
  · exact hd' ▸ h.l1Size
  · exact hd' ▸ h.head
  · exact hd' ▸ hdisk.sync
  · exact hd' ▸ h.cached
  · exact hd' ▸ h.slot
  · exact hd' ▸ h.tail
  · intro clu hclu _
    rw [hfile', hfile]
    exact hentry clu hclu
  · intro _ clu hclu
    rw [hfile', hfile]
    exact hentry clu hclu
  · rw [hfile', hfile, ← h.reads]
    funext clu
    refine read_congr fun b hb => Layout.block_pwrite_of_le ?_
    have hB := (h.disk.slots clu b hb).1
    exact hend.trans (Nat.mul_le_mul_right _ (h.disk.l1_le.trans hB))

end Output

end Ploop
