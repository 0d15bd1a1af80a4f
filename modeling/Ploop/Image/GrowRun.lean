import Ploop.Image.Grow
import Ploop.Image.Steady

/-!
# Growing keeps an image readable

The scan of the table, the relocation loop and the switch of the header, each
with what it keeps at every moment and what it leaves behind when it succeeds.
-/

namespace Ploop

open Storage Indirection Program

/-! ## The scan -/

/-- The numbers of an open delta are those of a layout, and its cached cluster
of the table, if there is one, is that of the file. -/
structure Opened (L : Layout) (d : Delta) : Prop where
  version : d.version = L.version
  blocksize : d.blocksize = L.blocksize
  l1Size : d.l1Size = L.l1Size
  l2Size : d.l2Size = L.l2Size
  clean : ¬ d.l2Dirty
  cached : ∀ p, d.l2Cache = some p → p < L.l1Size
  cache : ∀ p, d.l2Cache = some p → ∀ k < L.slots, mapOffset ≤ p * L.slots + k →
    d.l2 k = d.file.word (p * L.slots + k)

theorem Opened.cluster {L : Layout} {d : Delta} (h : Opened L d) : d.cluster = L.cluster := by
  rw [Delta.cluster, h.blocksize]
  rfl

theorem Opened.sync {L : Layout} {d : Delta} (h : Opened L d) : Opened L d.sync :=
  ⟨h.version, h.blocksize, h.l1Size, h.l2Size, h.clean, h.cached, fun p hp k hk hk' => by
    rw [Delta.file_sync]
    exact h.cache p hp k hk hk'⟩

/-- A write past the index area leaves the cached cluster valid. -/
theorem Opened.write {L : Layout} {d : Delta} (h : Opened L d) {w : Write}
    (hoff : L.l1Size * L.cluster ≤ w.off) : Opened L (d.write w) := by
  refine ⟨h.version, h.blocksize, h.l1Size, h.l2Size, h.clean, h.cached, fun p hp k hk hk' => ?_⟩
  rw [Delta.file_write, d.file.word_pwrite_of_not_mem]
  · exact h.cache p hp k hk hk'
  · left
    have hp := h.cached p hp
    have := Nat.mul_le_mul_right L.slots hp
    rw [Layout.cluster_eq, Nat.mul_left_comm] at hoff
    rw [Nat.succ_mul] at this
    omega

/-- So does a write within the header. -/
theorem Opened.write_header {L : Layout} {d : Delta} (h : Opened L d) {w : Write}
    (hend : w.off + w.len ≤ headerBytes) : Opened L (d.write w) := by
  refine ⟨h.version, h.blocksize, h.l1Size, h.l2Size, h.clean, h.cached, fun p hp k hk hk' => ?_⟩
  rw [Delta.file_write, d.file.word_pwrite_of_not_mem]
  · exact h.cache p hp k hk hk'
  · right
    simp only [headerBytes, mapOffset] at *
    omega

/-- A new header leaves every slot as it is. -/
theorem Opened.switch {L L' : Layout} {d d' : Delta} (h : Opened L d) {vh : PvdHeader}
    (hversion : L'.version = L.version) (hblocksize : L'.blocksize = L.blocksize)
    (hcached : L.l1Size ≤ L'.l1Size ∨ d.l2Cache = none)
    (hd' : d' = { d.sync.write ⟨0, headerBytes, wordBytes vh.toWords⟩ with
      l1Size := L'.l1Size
      l2Size := L'.l2Size }) : Opened L' d' := by
  have hslots : L'.slots = L.slots := by
    rw [Layout.slots_eq, Layout.slots_eq, hblocksize]
  subst hd'
  refine ⟨h.version.trans hversion.symm, h.blocksize.trans hblocksize.symm, rfl, rfl,
    h.clean, ?_, ?_⟩
  · intro p hp
    have hlt := h.cached p hp
    rcases hcached with hle | hnone
    · omega
    · rw [show d.l2Cache = some p from hp] at hnone
      exact absurd hnone (Option.some_ne_none p)
  · intro p hp k hk hk'
    rw [hslots] at hk hk' ⊢
    refine (h.cache p hp k hk hk').trans ?_
    change _ = (d.sync.write _).file.word _
    rw [Delta.file_write, Delta.file_sync]
    exact (d.file.word_pwrite_of_not_mem (Or.inr (by
      simp only [headerBytes, mapOffset] at *
      omega))).symm

/-- Reading the table changes the cache only. -/
structure Scanned (L : Layout) (D : Disk) (H : UInt32) (d : Delta) : Prop where
  opened : Opened L d
  disk : d.disk = D
  head : d.allocHead = H

section Scan

variable {L : Layout} {D : Disk} {H : UInt32}

theorem pread_spec (err : Sysexit) (len off : ℕ) (d : Delta) :
    Triple (fun s => s = d) (pread err len off)
      (fun buf s => s = d ∧ buf = fun j => d.file.byte (off + j)) (fun s => s = d) :=
  (pread_returns d err len off).conseq (fun _ hs => hs) (fun _ _ hs => ⟨hs.1, hs.2.2⟩)
    fun _ hs => hs.1

/-- Reading a cluster of the table. -/
theorem pread_table_spec (err : Sysexit) (p : ℕ) :
    Triple (Scanned L D H) (pread err L.cluster (p * L.cluster))
      (fun buf d => Scanned L D H d ∧ ∀ k, bytesWord buf k = D.file.word (p * L.slots + k))
      (Scanned L D H) := by
  refine Triple.start fun d hd =>
    (pread_spec err _ _ d).conseq (fun _ h => h) ?_ fun s hs => hs ▸ hd
  rintro buf s ⟨hs, rfl⟩
  refine ⟨hs ▸ hd, fun k => ?_⟩
  rw [← hd.disk]
  exact Layout.bytesWord_page d.file p k

theorem loadL2_spec (err : Sysexit) {p : ℕ} (hp : p < L.l1Size) :
    Triple (Scanned L D H) (loadL2 err p) (fun _ d => Scanned L D H d ∧ d.l2Cache = some p)
      (Scanned L D H) := by
  refine Triple.look fun d hd => ?_
  by_cases hc : d.l2Cache = some p
  · simp only [hc, ne_eq, not_true_eq_false, if_false]
    exact Triple.ret fun s hs => hs ▸ ⟨hd, hc⟩
  · simp only [ne_eq, hc, not_false_eq_true, if_true, hd.opened.cluster]
    refine Triple.bind ((pread_table_spec err p).conseq (fun s hs => hs ▸ hd) (fun _ _ h => h)
      fun _ h => h) fun buf => ?_
    refine Triple.update fun s ⟨hs, hbuf⟩ => ⟨⟨?_, hs.disk, hs.head⟩, rfl⟩
    refine ⟨hs.opened.version, hs.opened.blocksize, hs.opened.l1Size, hs.opened.l2Size,
      hs.opened.clean, ?_, ?_⟩
    · intro q hq
      rwa [← Option.some.inj hq]
    intro q hq k _ _
    obtain rfl := Option.some.inj hq
    have hfile : s.file = D.file := congrArg Disk.file hs.disk
    exact (hbuf k).trans (congrArg (File.word · _) hfile.symm)

/-- The scan finds a slot with the entry, or there is none. -/
theorem findSlot_spec (hL : L.Valid) (hsmall : L.l2Size + mapOffset ≤ 2 ^ 32) (target : UInt32)
    (k clu : ℕ) (hk : clu + k ≤ L.l2Size) :
    Triple (Scanned L D H) (findSlot target k clu)
      (fun r d => Scanned L D H d ∧ match r with
        | some c => c < L.l2Size ∧ Layout.entry D.file c = target ∧
            d.l2Cache = some ((c + mapOffset) / L.slots)
        | none => ∀ c, clu ≤ c → c < clu + k → Layout.entry D.file c ≠ target)
      (Scanned L D H) := by
  induction k generalizing clu with
  | zero => exact Triple.ret fun s hs => ⟨hs, fun c h₁ h₂ => by omega⟩
  | succ k ih =>
      refine Triple.look fun d hd => ?_
      have hn : d.cluster / 4 = L.slots := by rw [hd.opened.cluster]; rfl
      have hu : u32 (clu + mapOffset) = clu + mapOffset := u32_of_lt (by omega)
      have hlt : (clu + mapOffset) / L.slots < L.l1Size := by
        rw [Nat.div_lt_iff_lt_mul hL.slots_pos]
        exact hL.clu_lt (by omega)
      simp only [hn, hu, hd.opened.l1Size, Nat.not_le.mpr hlt, if_false]
      refine Triple.bind ((loadL2_spec .reloc hlt).conseq (fun s hs => hs ▸ hd) (fun _ _ h => h)
        fun _ h => h) fun _ => ?_
      refine Triple.look fun e ⟨he, hcache⟩ => ?_
      have hentry : e.l2 ((clu + mapOffset) % L.slots) = Layout.entry D.file clu := by
        have h := he.opened.cache _ hcache ((clu + mapOffset) % L.slots)
          (Nat.mod_lt _ hL.slots_pos)
        rw [Nat.div_add_mod'] at h
        rw [h (Nat.le_add_left _ _), Layout.entry]
        exact congrArg (File.word · _) (congrArg Disk.file he.disk)
      by_cases ht : e.l2 ((clu + mapOffset) % L.slots) = target
      · simp only [ht, if_true]
        exact Triple.ret fun s hs => hs ▸ ⟨he, by omega, hentry.symm.trans ht, hcache⟩
      · simp only [ht, if_false]
        refine (ih (clu + 1) (by omega)).conseq (fun s hs => hs ▸ he) ?_ fun _ h => h
        rintro (_ | c) s ⟨hs, hr⟩
        · refine ⟨hs, fun c h₁ h₂ => ?_⟩
          rcases Nat.eq_or_lt_of_le h₁ with rfl | h₁
          · exact hentry ▸ ht
          · exact hr c h₁ (by omega)
        · exact ⟨hs, hr⟩

end Scan

/-! ## Moving a block -/

/-- The first block number whose entry is zero again. -/
def Layout.limit (L : Layout) : ℕ :=
  match L.version with
  | .v1 => 2 ^ 32 / L.blocksize
  | .v2 => 2 ^ 32

theorem Layout.fits_iff {L : Layout} (hbs : isValidBlocksize L.blocksize) {b : ℕ} :
    L.Fits b ↔ b < L.limit := by
  unfold Layout.Fits Layout.limit
  cases L.version with
  | v1 =>
      simp only
      rw [Nat.lt_div_iff_mul_lt' hbs.dvd, mul_comm]
  | v2 => rfl

theorem Layout.limit_le (L : Layout) : L.limit ≤ 2 ^ 32 := by
  unfold Layout.limit
  cases L.version with
  | v1 => exact Nat.div_le_self _ _
  | v2 => exact le_rfl

/-- The allocation head counts up to the limit, where the entry becomes zero
and the run stops. -/
theorem Layout.entry_head {L : Layout} (hbs : isValidBlocksize L.blocksize) {A : ℕ}
    (hA : A ≤ L.limit) {e : UInt32}
    (he : e = secToIoff ((UInt32.ofNat A).toNat * L.blocksize) L.blocksize L.version)
    (hne : e ≠ 0) : L.Fits A ∧ e = L.encode A := by
  have hfits : L.Fits A → A < 2 ^ 32 := by
    have hpos := hbs.pos
    unfold Layout.Fits
    cases L.version with
    | v1 => exact fun h => lt_of_le_of_lt (Nat.le_mul_of_pos_right A hpos) h
    | v2 => exact id
  rcases Nat.lt_or_ge A L.limit with h | h
  · have hf := (Layout.fits_iff hbs).mpr h
    refine ⟨hf, ?_⟩
    rw [he, UInt32.toNat_ofNat_of_lt' (hfits hf), Layout.encode]
  · obtain rfl : A = L.limit := by omega
    refine absurd ?_ hne
    rw [he]
    have hpos := hbs.pos
    unfold Layout.limit
    cases L.version with
    | v1 =>
        have hlt : 2 ^ 32 / L.blocksize < 2 ^ 32 :=
          Nat.div_lt_self (by norm_num) (by have := hbs.1; omega)
        simp only [secToIoff]
        rw [UInt32.toNat_ofNat_of_lt' hlt, Nat.div_mul_cancel hbs.dvd]
        rfl
    | v2 => simp [secToIoff]

/-- An open delta whose run has been steady so far. -/
structure Working (L : Layout) (R : Set VDisk) (S₀ : Set ℕ) (A : ℕ) (d : Delta) : Prop where
  opened : Opened L d
  steady : Steady L R S₀ A d.disk
  head : d.allocHead = UInt32.ofNat A

section Relocate

variable {L : Layout} {R : Set VDisk} {S₀ : Set ℕ} {A i : ℕ} {d : Delta}

/-- The disk after cluster `clu` was moved to block `A`. -/
def moved (L : Layout) (D : Disk) (clu A : ℕ) (src : ℕ → UInt8) : Disk :=
  ((D.write ⟨A * L.cluster, L.cluster, src⟩).sync).write
    ⟨4 * (clu + mapOffset), 4, wordBytes fun _ => L.encode A⟩

/-- A move changes one word below the block it moves to. -/
theorem word_moved (D : Disk) {clu j : ℕ} (src : ℕ → UInt8) (hj : j < A * L.slots) :
    (moved L D clu A src).file.word j
      = if j = clu + mapOffset then L.encode A else D.file.word j := by
  have hA : A * L.cluster = 4 * (A * L.slots) := by
    rw [Layout.cluster_eq]
    ring
  simp only [moved, Disk.file_write, Disk.file_sync]
  split
  · rename_i h
    subst h
    rw [File.word_pwrite_of_mem _ (o := clu + mapOffset) rfl le_rfl (by simp only; omega)]
    simp
  · rename_i h
    rw [File.word_pwrite_of_not_mem _ (by simp only; omega),
      File.word_pwrite_of_not_mem _ (by simp only; omega)]

theorem Opened.moved (h : Opened L d) {clu : ℕ} (hA : L.l1Size ≤ A)
    (src : ℕ → UInt8) (hcache : d.l2Cache = some ((clu + mapOffset) / L.slots)) {e : Delta}
    (he : e = { d with
      allocHead := d.allocHead + 1
      l2 := Function.update d.l2 ((clu + mapOffset) % L.slots) (L.encode A)
      disk := Ploop.moved L d.disk clu A src }) : Opened L e := by
  subst he
  refine ⟨h.version, h.blocksize, h.l1Size, h.l2Size, h.clean, h.cached, fun p hp k hk hk' => ?_⟩
  obtain rfl := Option.some.inj (hcache.symm.trans hp)
  have hw := Nat.div_add_mod' (clu + mapOffset) L.slots
  have hlt : (clu + mapOffset) / L.slots * L.slots + k < A * L.slots := by
    have h₁ := Nat.mul_le_mul_right L.slots (h.cached _ hcache)
    have h₂ := Nat.mul_le_mul_right L.slots hA
    rw [Nat.succ_mul] at h₁
    omega
  refine Eq.trans ?_ (word_moved d.disk src hlt).symm
  by_cases e : k = (clu + mapOffset) % L.slots
  · subst e
    simp [hw]
  · rw [if_neg (by omega)]
    exact (Function.update_of_ne e _ _).trans (h.cache _ hcache k hk hk')

/-- The record of a move of cluster `clu` to block `A`. -/
def relocRecord (L : Layout) (clu A : ℕ) : RelocMap :=
  ⟨u32 (2 ^ 32 + (clu + mapOffset) % L.slots - mapOffset), A⟩

theorem relocateBlock_spec (hsmall : L.l2Size + mapOffset ≤ 2 ^ 32)
    (hw : Working L R S₀ A d) (hi : L.l1Size ≤ i) (hfit : L.Fits i) (hA : L.l1Size ≤ A)
    (hroom : A ≤ L.limit ∨ ∀ clu, L.bat d.file clu ≠ some i) :
    Triple (fun s => s = d) (relocateBlock i)
      (fun r d' => match r with
        | none => Working L R S₀ A d' ∧ d'.disk = d.disk ∧ ∀ clu, L.bat d.file clu ≠ some i
        | some r => ∃ clu src, L.bat d.file clu = some i ∧ Working L R S₀ (A + 1) d' ∧
            L.Fits A ∧ d'.disk = moved L d.disk clu A src ∧ r = relocRecord L clu A)
      (fun d' => d'.disk.Safe (Sound R L.cluster S₀)) := by
  have hL := hw.steady.valid
  have hbs := hL.pos
  have hi0 : i ≠ 0 := by
    have := hL.l1_pos
    omega
  refine Triple.look fun s hs => ?_
  subst hs
  have hscan₀ : Scanned L s.disk s.allocHead s := ⟨hw.opened, rfl, rfl⟩
  have hn : L.cluster / 4 = L.slots := rfl
  simp only [hw.opened.cluster, hw.opened.blocksize, hw.opened.version, hw.opened.l2Size, hn]
  have hsafe : ∀ d', Scanned L s.disk s.allocHead d' → d'.disk.Safe (Sound R L.cluster S₀) :=
    fun d' h => h.disk ▸ hw.steady.safe
  refine Triple.bind ((findSlot_spec (D := s.disk) (H := s.allocHead) hL hsmall _ L.l2Size 0
    (by omega)).conseq (fun d' h => h ▸ hscan₀) (fun _ _ h => h) hsafe) fun r => ?_
  rcases r with _ | clu
  · refine Triple.ret ?_
    rintro d' ⟨hscan, hnone⟩
    refine ⟨⟨hscan.opened, hscan.disk ▸ hw.steady, hscan.head.trans hw.head⟩, hscan.disk, ?_⟩
    intro clu hclu
    refine hnone clu (Nat.zero_le _) (by simpa using Layout.bat_lt hclu) ?_
    exact hw.steady.file.table.entry_eq hbs hclu
  · refine Triple.look ?_
    rintro e ⟨hscan, hlt, hentry, hcache⟩
    have hfile : e.file = s.file := congrArg Disk.file hscan.disk
    have hclu : L.bat s.file clu = some i := Layout.bat_of_encode hbs hlt hfit hi0 hentry
    have hu : u32 (clu + mapOffset) = clu + mapOffset := u32_of_lt (by omega)
    have hl2 : e.l2 ((clu + mapOffset) % L.slots) = L.encode i := by
      have h := hscan.opened.cache _ hcache ((clu + mapOffset) % L.slots)
        (Nat.mod_lt _ hL.slots_pos)
      rw [Nat.div_add_mod', hfile] at h
      rw [h (Nat.le_add_left _ _)]
      exact hentry
    have hold : s2b (ioffToSec (L.encode i) L.blocksize L.version) = i * L.cluster := by
      rw [Layout.ioffToSec_encode hbs hfit, Layout.cluster, s2b, s2b, mul_assoc]
    simp only [hu, hl2, hold]
    refine Triple.bind ((pread_spec .reloc _ _ e).conseq (fun _ h => h) (fun _ _ h => h)
      fun d' h => hsafe d' (h ▸ hscan)) fun buf => ?_
    refine Triple.look ?_
    rintro e' ⟨rfl, hbuf⟩
    have hA' : A ≤ L.limit := hroom.resolve_right fun h => h clu hclu
    simp only [hscan.head, hw.head]
    refine Triple.step ?_
    by_cases hne : secToIoff ((UInt32.ofNat A).toNat * L.blocksize) L.blocksize L.version = 0
    · simp only [hne, if_true]
      refine Triple.raise fun d' h => ?_
      rw [h]
      exact hsafe e' hscan
    · obtain ⟨hfitA, henc⟩ := Layout.entry_head hL.blocksize hA' rfl hne
      have hnew : s2b (ioffToSec (L.encode A) L.blocksize L.version) = A * L.cluster := by
        rw [Layout.ioffToSec_encode hbs hfitA, Layout.cluster, s2b, s2b, mul_assoc]
      have hslot : (clu + mapOffset) / L.slots * L.cluster + (clu + mapOffset) % L.slots * 4
          = 4 * (clu + mapOffset) := by
        have := Nat.div_add_mod' (clu + mapOffset) L.slots
        rw [Layout.cluster_eq, Nat.mul_left_comm]
        omega
      rw [henc] at hne ⊢
      simp only [hne, if_false, hnew, hslot]
      refine Triple.step (Triple.step (Triple.step ?_))
      refine Triple.look fun e'' he'' => Triple.ret fun d' hd' => ?_
      subst hd'
      have hdisk : d'.disk = moved L s.disk clu A buf := by
        rw [he'', ← hscan.disk]
        rfl
      have hopened : Opened L d' := by
        refine hscan.opened.moved hA buf hcache (he''.trans ?_)
        simp only [hscan.head, hw.head]
        rfl
      have hsteady : Steady L R S₀ (A + 1) d'.disk := by
        rw [hdisk]
        refine hw.steady.relocate hclu hA hfitA rfl ?_
        rw [hbuf, hfile]
        rfl
      have hhead : d'.allocHead = UInt32.ofNat (A + 1) := by
        rw [he'']
        exact (UInt32.ofNat_add A 1).symm
      refine ⟨clu, buf, hclu, ⟨hopened, hsteady, hhead⟩, hfitA, hdisk, ?_⟩
      have hA32 : A < 2 ^ 32 := by
        have := (Layout.fits_iff hL.blocksize).mp hfitA
        exact this.trans_le (L.limit_le)
      have hlast : (d'.allocHead - 1).toNat = A := by
        rw [hhead, UInt32.ofNat_add, show UInt32.ofNat 1 = 1 from rfl, UInt32.add_sub_cancel]
        exact UInt32.toNat_ofNat_of_lt' hA32
      rw [hlast]
      rfl

end Relocate

/-! ## The relocation loop -/

/-- Block `i` is the next to be given up, of those from `L.l1Size` to `m`: the
words given up so far are zero, as are those appended from block `m` on, and
no slot names what is to become index. -/
structure Cleared (L : Layout) (l1' m i : ℕ) (x : File) : Prop where
  zero : ∀ j, L.l1Size * L.slots ≤ j → j < l1' * L.slots →
    j < i * L.slots ∨ m * L.slots ≤ j → x.word j = 0
  ahead : ∀ clu b, L.bat x clu = some b → i ≤ b ∧ (b < m ∨ l1' ≤ b)

/-- The loop at block `i`. Nothing is allocated past the limit: either the
head is still below it, or no block has been or will be moved. -/
structure Clearing (L : Layout) (R : Set VDisk) (S₀ : Set ℕ) (l1' m i A₁ A : ℕ) (d : Delta) :
    Prop where
  working : Working L R S₀ A d
  past : l1' ≤ A
  low : L.l1Size ≤ A
  room : A ≤ L.limit ∨ A = A₁ ∧ ∀ clu b, L.bat d.file clu = some b → l1' ≤ b
  cleared : Cleared L l1' m i d.file
  cache : L.l1Size ≤ l1' ∨ d.l2Cache = none

section Loop

variable {L : Layout} {R : Set VDisk} {S₀ : Set ℕ} {l1' m i A₁ A : ℕ} {d : Delta}

theorem bat_moved {D : Disk} {clu : ℕ} {src : ℕ → UInt8} (hL : L.Valid) (hclu : clu < L.l2Size)
    (hA : L.l1Size ≤ A) (hfit : L.Fits A) :
    L.bat (moved L D clu A src).file = Function.update (L.bat D.file) clu (some A) := by
  have hent : ∀ k < L.l2Size, Layout.entry (moved L D clu A src).file k
      = if k = clu then L.encode A else Layout.entry D.file k := by
    intro k hk
    have hlt := lt_of_lt_of_le (hL.clu_lt hk) (Nat.mul_le_mul_right L.slots hA)
    unfold Layout.entry
    rw [word_moved D src hlt]
    simp
  have hA0 : A ≠ 0 := by
    have := hL.l1_pos
    omega
  funext k
  by_cases e : k = clu
  · subst e
    rw [Function.update_self]
    exact Layout.bat_of_encode hL.pos hclu hfit hA0 (by rw [hent k hclu, if_pos rfl])
  · rw [Function.update_of_ne e]
    exact Layout.bat_congr fun hk => by rw [hent k hk, if_neg e]

/-- Zeroing a block that no slot names any more. -/
theorem Working.release (hw : Working L R S₀ A d) (hi : L.l1Size ≤ i)
    (hdead : ∀ clu, L.bat d.file clu ≠ some i) :
    Working L R S₀ A (d.sync.write ⟨i * L.cluster, L.cluster, fun _ => 0⟩) :=
  ⟨hw.opened.sync.write (Nat.mul_le_mul_right _ hi), hw.steady.write_released hi hdead _, hw.head⟩

theorem Cleared.release {x : File} (h : Cleared L l1' m i x) (hL : L.Valid) (hi : L.l1Size ≤ i)
    (hdead : ∀ clu, L.bat x clu ≠ some i) :
    Cleared L l1' m (i + 1) (x.pwrite ⟨i * L.cluster, L.cluster, fun _ => 0⟩) := by
  have hcluster : ∀ b, b * L.cluster = 4 * (b * L.slots) := by
    intro b
    rw [Layout.cluster_eq]
    ring
  have hc := Layout.cluster_eq (L := L)
  have hi' := hcluster i
  have hbat : L.bat (x.pwrite ⟨i * L.cluster, L.cluster, fun _ => 0⟩) = L.bat x := by
    funext clu
    refine Layout.bat_congr fun hclu => ?_
    exact Layout.entry_pwrite_of_ge (hL.clu_lt hclu) (Nat.mul_le_mul_right _ hi)
  constructor
  · intro j h₁ h₂ h₃
    by_cases hj : i * L.slots ≤ j ∧ j < (i + 1) * L.slots
    · rw [Nat.succ_mul] at hj
      rw [x.word_pwrite_of_mem (o := i * L.slots) hi' hj.1 (by simp only; omega)]
      rfl
    · rw [Nat.succ_mul] at hj h₃
      rw [x.word_pwrite_of_not_mem (by simp only; omega)]
      exact h.zero j h₁ h₂ (by omega)
  · intro clu b hb
    rw [hbat] at hb
    obtain ⟨h₁, h₂⟩ := h.ahead clu b hb
    have hne : b ≠ i := by
      rintro rfl
      exact hdead clu hb
    exact ⟨by omega, h₂⟩

/-- After a move the block moved from is free. -/
theorem Clearing.move (h : Clearing L R S₀ l1' m i A₁ A d) (hi : L.l1Size ≤ i) (hil : i < l1')
    {clu : ℕ} {src : ℕ → UInt8} (hclu : L.bat d.file clu = some i) {d' : Delta}
    (hw : Working L R S₀ (A + 1) d') (hfit : L.Fits A)
    (hdisk : d'.disk = moved L d.disk clu A src) :
    Clearing L R S₀ l1' m i A₁ (A + 1) d' ∧ ∀ k, L.bat d'.file k ≠ some i := by
  have hL := h.working.steady.valid
  have hpast := h.past
  have hbat : L.bat d'.file = Function.update (L.bat d.file) clu (some A) := by
    rw [Delta.file, hdisk]
    exact bat_moved hL (Layout.bat_lt hclu) (by omega) hfit
  have hlim := (Layout.fits_iff hL.blocksize).mp hfit
  refine ⟨⟨hw, by omega, by omega, Or.inl (by omega), ⟨?_, ?_⟩, Or.inl (by omega)⟩, ?_⟩
  · intro j h₁ h₂ h₃
    have hj := lt_of_lt_of_le h₂ (Nat.mul_le_mul_right L.slots hpast)
    have hin := hL.clu_lt (Layout.bat_lt hclu)
    rw [Delta.file, hdisk, word_moved d.disk src hj, if_neg (by omega)]
    exact h.cleared.zero j h₁ h₂ h₃
  · intro k b hb
    rw [hbat] at hb
    by_cases e : k = clu
    · subst e
      rw [Function.update_self] at hb
      obtain rfl := Option.some.inj hb
      omega
    · rw [Function.update_of_ne e] at hb
      exact h.cleared.ahead k b hb
  · intro k hk
    rw [hbat] at hk
    by_cases e : k = clu
    · subst e
      rw [Function.update_self] at hk
      have := Option.some.inj hk
      omega
    · rw [Function.update_of_ne e] at hk
      exact e (h.working.steady.file.table.oneToOne hk hclu)

theorem Clearing.release (h : Clearing L R S₀ l1' m i A₁ A d) (hi : L.l1Size ≤ i) (hil : i < l1')
    (hdead : ∀ clu, L.bat d.file clu ≠ some i) :
    Clearing L R S₀ l1' m (i + 1) A₁ A (d.sync.write ⟨i * L.cluster, L.cluster, fun _ => 0⟩) := by
  have hL := h.working.steady.valid
  have hfile : (d.sync.write ⟨i * L.cluster, L.cluster, fun _ => 0⟩).file
      = d.file.pwrite ⟨i * L.cluster, L.cluster, fun _ => 0⟩ := by
    rw [Delta.file_write, Delta.file_sync]
  have hbat : L.bat (d.file.pwrite ⟨i * L.cluster, L.cluster, fun _ => 0⟩) = L.bat d.file := by
    funext clu
    refine Layout.bat_congr fun hclu => ?_
    exact Layout.entry_pwrite_of_ge (hL.clu_lt hclu) (Nat.mul_le_mul_right _ hi)
  refine ⟨h.working.release hi hdead, h.past, h.low, ?_, ?_, Or.inl (by omega)⟩
  · rw [hfile, hbat]
    exact h.room
  · rw [hfile]
    exact h.cleared.release hL hi hdead

theorem nullifyBlock_spec (i : ℕ) (d : Delta) {E : Delta → Prop} :
    Triple (fun s => s = d) (nullifyBlock i)
      (fun _ s => s = d.write ⟨i * d.cluster, d.cluster, fun _ => 0⟩) E := by
  refine Triple.look fun s hs => ?_
  subst hs
  exact Triple.update fun s' hs' => hs' ▸ rfl

theorem growLoop_spec (hsmall : L.l1Size < l1' → L.l2Size + mapOffset ≤ 2 ^ 32)
    (hfit : ∀ b < l1', L.Fits b) (k : ℕ) (hm : k = 0 ∨ m ≤ l1') (hi : L.l1Size ≤ i)
    (hik : i + k = m) :
    Triple (fun d => ∃ A, Clearing L R S₀ l1' m i A₁ A d) (growLoop false k i)
      (fun _ d => ∃ A, Clearing L R S₀ l1' m m A₁ A d)
      (fun d => d.disk.Safe (Sound R L.cluster S₀)) := by
  induction k generalizing i with
  | zero =>
      obtain rfl : i = m := by omega
      exact Triple.ret fun d hd => hd
  | succ k ih =>
      -- whether or not a block was moved, `i` is free now and is zeroed next
      have hrest : Triple (fun d => ∃ A, Clearing L R S₀ l1' m i A₁ A d ∧
          ∀ clu, L.bat d.file clu ≠ some i)
          (do fsync; nullifyBlock i; growLoop false k (i + 1))
          (fun _ d => ∃ A, Clearing L R S₀ l1' m m A₁ A d)
          (fun d => d.disk.Safe (Sound R L.cluster S₀)) := by
        refine Triple.start fun d ⟨A, hd, hdead⟩ => Triple.step ?_
        refine Triple.bind (nullifyBlock_spec i d.sync) fun _ => ?_
        refine (ih (by omega) (by omega) (by omega)).conseq ?_ (fun _ _ h => h) fun _ h => h
        rintro s rfl
        refine ⟨A, ?_⟩
        have hc : d.sync.cluster = L.cluster := hd.working.opened.cluster
        rw [hc]
        exact hd.release hi (by omega) hdead
      refine Triple.start fun d ⟨A, hd⟩ => ?_
      have hroom : A ≤ L.limit ∨ ∀ clu, L.bat d.file clu ≠ some i := by
        refine hd.room.imp id fun h clu hclu => ?_
        have := h.2 clu i hclu
        omega
      unfold growLoop
      refine Triple.bind (relocateBlock_spec (hsmall (by omega)) hd.working hi (hfit i (by omega))
        hd.low hroom) fun r => ?_
      rcases r with _ | r
      · refine hrest.conseq ?_ (fun _ _ h => h) fun _ h => h
        rintro d' ⟨hw, hdisk, hdead⟩
        have hfile : d'.file = d.file := congrArg Disk.file hdisk
        refine ⟨A, ⟨hw, hd.past, hd.low, ?_, ?_, Or.inl (by omega)⟩, ?_⟩
        · rw [hfile]
          exact hd.room
        · rw [hfile]
          exact hd.cleared
        · rwa [hfile]
      · refine hrest.conseq ?_ (fun _ _ h => h) fun _ h => h
        rintro d' ⟨clu, src, hclu, hw, hfitA, hdisk, -⟩
        exact ⟨A + 1, hd.move hi (by omega) hclu hw hfitA hdisk⟩

end Loop

end Ploop
