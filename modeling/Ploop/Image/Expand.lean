import Ploop.Image.Cached
import Ploop.Image.Blank
import Ploop.Lib.Counter

/-!
# `expanded2preallocated`

Clusters without a block get the blocks from the end of the file on, in the order of the
clusters. What `fallocate` gives is not cleared, and a block number is cut to what an
entry can hold.
-/

namespace Ploop

open Storage Indirection Program

/-! ## The source -/

/-- What becomes of a call of `fallocate`. -/
inductive Fallocate where
  | done
  | notSupported
  | failed
  deriving DecidableEq

/-- The image and `data_off`. -/
abbrev ExpandM := EStateM Sysexit (Delta × ℕ)

/-- Make block `dataOff` a part of the file. -/
def newBlock (result : Fallocate) (dataOff : ℕ) : DeltaM Unit := do
  let d ← get
  match result with
  -- the file reaches past the block, and its bytes stay
  | .done => pwrite (dataOff * d.cluster) d.cluster fun i => d.file.byte (dataOff * d.cluster + i)
  | .notSupported => pwrite (dataOff * d.cluster) d.cluster fun _ => 0
  | .failed => throw .write

/-- Give the block at `data_off` to slot `l2Slot` of the cached cluster of the table. -/
def expandSlot (result : Fallocate) (l2Cluster l2Slot : ℕ) : ExpandM Unit := do
  let s ← get
  let entry := secToIoff (s.2 * s.1.blocksize) s.1.blocksize s.1.version
  modify fun s => ({ s.1 with l2 := Function.update s.1.l2 l2Slot entry }, s.2)
  onFst (newBlock result s.2)
  onFst (pwrite (l2Cluster * s.1.cluster + l2Slot * 4) 4 (wordBytes fun _ => entry))
  modify fun s => (s.1, s.2 + 1)

/-- One turn of the loop. -/
def expandCluster (fallocate : ℕ → Fallocate) (clu : ℕ) : ExpandM Unit := do
  let d := (← get).1
  let l2Cluster := u32 (clu + mapOffset) / (d.cluster / 4)
  let l2Slot := u32 (clu + mapOffset) % (d.cluster / 4)
  if d.l1Size ≤ l2Cluster then throw .read
  else do
    onFst (loadL2 .read l2Cluster)
    if (← get).1.l2 l2Slot = 0 then expandSlot (fallocate clu) l2Cluster l2Slot
    else pure ()

/-- `expanded2preallocated`: the image, if the function returns 0 before the fuel is used up. -/
def expanded2preallocated (fallocate : ℕ → Fallocate) (fuel : ℕ) (img : File) : Option File := do
  let d ← openDelta img false
  match countUp (2 ^ 32) (expandCluster fallocate) d.l2Size fuel 0 (d, d.allocHead.toNat) with
  | .ok true s => some s.1.file
  | _ => none

/-! ## Blocks that entries can name -/

namespace Layout

variable {L : Layout}

theorem limit_pos (hbs : isValidBlocksize L.blocksize) : 0 < L.limit := by
  have hle := hbs.le
  have hpos := hbs.pos
  unfold limit
  cases L.version with
  | v1 => exact Nat.div_pos (by omega) hpos
  | v2 => norm_num

/-- An entry keeps the block number up to multiples of the blocks it can name. -/
theorem ioffToSec_encode_mod (hbs : isValidBlocksize L.blocksize) (b : ℕ) :
    ioffToSec (L.encode b) L.blocksize L.version = b % L.limit * L.blocksize := by
  have hmul := Nat.div_mul_cancel hbs.dvd
  unfold encode limit
  cases L.version with
  | v1 =>
      simp only [secToIoff, ioffToSec, UInt32.toNat_ofNat']
      rw [← Nat.mul_mod_mul_right, hmul]
  | v2 =>
      simp only [secToIoff, ioffToSec, UInt32.toNat_ofNat', Nat.mul_div_cancel _ hbs.pos]

theorem encode_eq_zero (hbs : isValidBlocksize L.blocksize) {b : ℕ} :
    L.encode b = 0 ↔ b % L.limit = 0 := by
  have hsec := ioffToSec_encode_mod hbs b
  constructor
  · intro h
    have hzero : ioffToSec 0 L.blocksize L.version = 0 := by
      cases L.version <;> simp [ioffToSec]
    rw [h, hzero] at hsec
    exact (Nat.mul_eq_zero.mp hsec.symm).resolve_right hbs.pos.ne'
  · intro h
    rw [h, Nat.zero_mul] at hsec
    exact ioffToSec_eq_zero hbs.pos hsec

/-- The block a cluster has after `encode b` was put into its slot. -/
theorem bat_of_encode_mod (hbs : isValidBlocksize L.blocksize) {f : File} {clu b : ℕ}
    (hclu : clu < L.l2Size) (he : entry f clu = L.encode b) :
    L.bat f clu = if b % L.limit = 0 then none else some (b % L.limit) := by
  split
  case isTrue h => exact (bat_eq_none hclu).mpr (he.trans ((encode_eq_zero hbs).mpr h))
  case isFalse h =>
    have hne : L.encode b ≠ 0 := fun h0 => h ((encode_eq_zero hbs).mp h0)
    unfold bat
    rw [he, if_pos ⟨hclu, hne⟩, ioffToSec_encode_mod hbs, Nat.mul_div_cancel _ hbs.pos]

end Layout

/-! ## A preallocated image -/

/-- Every cluster has a block of its own and reads as before. -/
structure Expanded (f g : File) : Prop where
  hdr : g.hdr = f.hdr
  allocated : ∀ clu < f.hdr.layout.l2Size, ∃ b, f.hdr.layout.bat g clu = some b ∧
    f.hdr.layout.l1Size ≤ b
  oneToOne : OneToOne (f.hdr.layout.bat g)
  content : ∀ clu < f.hdr.layout.l2Size,
    content g clu = some ((Ploop.content f clu).getD fun _ => 0)

/-- # clusters below `m` without a block. -/
def unallocated (f : File) (m : ℕ) : ℕ := Nat.count (fun k => Layout.entry f k = 0) m

/-- `data_off` when the loop comes to a cluster. -/
def dataOff (f : File) (clu : ℕ) : ℕ :=
  u32 (f.size / f.hdr.layout.cluster) + unallocated f clu

/-- The block that the entry of a new cluster names lies behind the index, is nobody's, and
holds zeros, if these are not written. -/
structure NewBlockOk (fallocate : ℕ → Fallocate) (f : File) (clu : ℕ) : Prop where
  data : f.hdr.layout.l1Size ≤ dataOff f clu % f.hdr.layout.limit
  free : ∀ k, f.hdr.layout.bat f k ≠ some (dataOff f clu % f.hdr.layout.limit)
  clear : (fallocate clu = .notSupported ∧ dataOff f clu < f.hdr.layout.limit) ∨
    f.hdr.layout.block f (dataOff f clu % f.hdr.layout.limit) = fun _ => 0

def ExpandFits (fallocate : ℕ → Fallocate) (f : File) : Prop :=
  ∀ clu < f.hdr.layout.l2Size, Layout.entry f clu = 0 → NewBlockOk fallocate f clu

/-! ## One turn of the loop -/

section Turn

variable {f : File} {L : Layout} {fallocate : ℕ → Fallocate} {m : ℕ}

/-- The file after a cluster without a block got block `b`. -/
def expandFile (L : Layout) (fallocate : ℕ → Fallocate) (g : File) (m b : ℕ) : File :=
  (g.pwrite ⟨b * L.cluster, L.cluster, if fallocate m = .notSupported then fun _ => 0
    else fun i => g.byte (b * L.cluster + i)⟩).pwrite
      ⟨4 * u32 (m + mapOffset), 4, wordBytes fun _ => L.encode b⟩

theorem newBlock_spec {d₀ : Delta} (hc : d₀.cluster = L.cluster) (b : ℕ) :
    Triple (fun d => d = d₀) (newBlock (fallocate m) b)
      (fun _ d => d = d₀.write ⟨b * L.cluster, L.cluster, if fallocate m = .notSupported
        then fun _ => 0 else fun i => d₀.file.byte (b * L.cluster + i)⟩)
      (fun _ => fallocate m = .failed) := by
  refine Triple.look fun d hd => ?_
  subst hd
  rw [hc]
  cases hf : fallocate m with
  | done =>
      rw [if_neg (by decide)]
      refine Triple.update fun t ht => ?_
      rw [ht]
  | notSupported =>
      rw [if_pos rfl]
      refine Triple.update fun t ht => ?_
      rw [ht]
  | failed => exact Triple.raise fun _ _ => rfl

theorem expandSlot_spec {e : Delta} {b : ℕ} (hbs : e.blocksize = L.blocksize)
    (hversion : e.version = L.version) :
    Triple (fun s => s = (e, b)) (expandSlot (fallocate m) (u32 (m + mapOffset) / L.slots)
        (u32 (m + mapOffset) % L.slots))
      (fun _ s => s.1.file = expandFile L fallocate e.file m b ∧ s.1.blocksize = L.blocksize ∧
        s.1.version = L.version ∧ s.1.l1Size = e.l1Size ∧ s.1.l2Cache = e.l2Cache ∧
        s.1.l2 = Function.update e.l2 (u32 (m + mapOffset) % L.slots) (L.encode b) ∧ s.2 = b + 1)
      (fun _ => fallocate m = .failed) := by
  have hcluster : e.cluster = L.cluster := congrArg s2b hbs
  have hentry : secToIoff (b * e.blocksize) e.blocksize e.version = L.encode b := by
    rw [hbs, hversion]
    rfl
  refine Triple.look fun s hs => ?_
  subst hs
  dsimp only
  rw [hentry, hcluster]
  refine Triple.step ?_
  refine Triple.bind (R := fun _ s => s.1 = ({ e with
      l2 := Function.update e.l2 (u32 (m + mapOffset) % L.slots) (L.encode b) } : Delta).write
        ⟨b * L.cluster, L.cluster, if fallocate m = .notSupported then fun _ => 0
          else fun i => e.file.byte (b * L.cluster + i)⟩ ∧ s.2 = b) ?_ fun _ => ?_
  · have hnew := @newBlock_spec L fallocate m { e with
      l2 := Function.update e.l2 (u32 (m + mapOffset) % L.slots) (L.encode b) } hcluster b
    refine (hnew.onFst b).conseq ?_ (fun _ _ hs => hs) (fun _ hfail => hfail)
    rintro _ rfl
    exact ⟨rfl, rfl⟩
  · refine Triple.bind (R := fun _ s => s.1.file = expandFile L fallocate e.file m b ∧
      s.1.blocksize = L.blocksize ∧ s.1.version = L.version ∧ s.1.l1Size = e.l1Size ∧
      s.1.l2Cache = e.l2Cache ∧
      s.1.l2 = Function.update e.l2 (u32 (m + mapOffset) % L.slots) (L.encode b) ∧ s.2 = b)
      ?_ fun _ => ?_
    · rintro ⟨t, o⟩ ⟨ht, ho⟩
      simp only at ht ho
      subst ht ho
      have hoff : u32 (m + mapOffset) / L.slots * L.cluster
          + u32 (m + mapOffset) % L.slots * 4 = 4 * u32 (m + mapOffset) := by
        rw [Layout.cluster_eq]
        have hdm := Nat.div_add_mod' (u32 (m + mapOffset)) L.slots
        have hmul : u32 (m + mapOffset) / L.slots * (4 * L.slots)
            = 4 * (u32 (m + mapOffset) / L.slots * L.slots) := by ring
        omega
      rw [hoff]
      refine ⟨?_, hbs, hversion, rfl, rfl, rfl, rfl⟩
      simp only [Delta.file_write]
      rfl
    · refine Triple.update fun s hs => ?_
      obtain ⟨hfile, hbs, hversion, hl1, hcache, hl2, hs2⟩ := hs
      exact ⟨hfile, hbs, hversion, hl1, hcache, hl2, congrArg (· + 1) hs2⟩

/-- The page of cluster `m` is in the file, and so is a block for it. -/
structure Growable (L : Layout) (fallocate : ℕ → Fallocate) (g : File) (m : ℕ) : Prop where
  slot : u32 (m + mapOffset) / L.slots < L.l1Size
  page : u32 (m + mapOffset) / L.slots * L.cluster + L.cluster ≤ g.size
  block : fallocate m ≠ .failed

/-- A turn either leaves the file alone or makes a new block. -/
theorem expandCluster_spec (hL : L.Valid) {d₀ : Delta} {b : ℕ} (hc : Cached f L d₀) :
    Triple (fun s => s = (d₀, b)) (expandCluster fallocate m)
      (fun _ s => s.1.blocksize = L.blocksize ∧ s.1.version = L.version ∧ s.1.l1Size = L.l1Size ∧
        if f.word (u32 (m + mapOffset)) = 0 then
          s.1.file = expandFile L fallocate f m b ∧ s.2 = b + 1 ∧
            s.1.l2Cache = some (u32 (m + mapOffset) / L.slots) ∧
            ∀ j < L.slots, s.1.l2 j = if j = u32 (m + mapOffset) % L.slots then L.encode b
              else f.word (u32 (m + mapOffset) / L.slots * L.slots + j)
        else Cached f L s.1 ∧ s.2 = b)
      (fun _ => ¬ Growable L fallocate f m) := by
  refine Triple.look fun s hs => ?_
  subst hs
  dsimp only
  rw [hc.slots, hc.l1Size]
  split
  case isTrue hslot => exact Triple.raise fun _ _ hgrow => absurd hgrow.slot (Nat.not_lt.mpr hslot)
  case isFalse hslot =>
    refine Triple.bind (R := fun _ s => (Cached f L s.1 ∧
      s.1.l2Cache = some (u32 (m + mapOffset) / L.slots)) ∧ s.2 = b) ?_ fun _ => ?_
    · refine ((loadL2_cached hc .read _).onFst b).conseq ?_ (fun _ _ hs => hs) ?_
      · rintro _ rfl
        exact ⟨rfl, rfl⟩
      · exact fun s hend hgrow => absurd hgrow.page (Nat.not_le.mpr hend)
    · refine Triple.look fun ⟨e, b'⟩ ⟨⟨he, hpage⟩, hb⟩ => ?_
      obtain rfl : b' = b := hb
      simp only at he hpage ⊢
      have hword : e.l2 (u32 (m + mapOffset) % L.slots) = f.word (u32 (m + mapOffset)) := by
        rw [he.page _ hpage _ (Nat.mod_lt _ hL.slots_pos), Nat.div_add_mod']
      rw [hword]
      split
      case isFalse hne =>
        refine Triple.ret fun s hs => ?_
        subst hs
        exact ⟨he.blocksize, he.version, he.l1Size, he, rfl⟩
      case isTrue hzero =>
        refine (expandSlot_spec he.blocksize he.version).conseq (fun _ hs => hs) ?_
          fun _ hfail hgrow => hgrow.block hfail
        rintro _ s ⟨hfile, hbs, hversion, hl1, hcache, hl2, hoff⟩
        refine ⟨hbs, hversion, hl1.trans he.l1Size, he.file ▸ hfile, hoff, hcache.trans hpage,
          fun j hj => ?_⟩
        rw [hl2, Function.update_apply]
        split
        · rfl
        · exact he.page _ hpage j hj

/-- Whatever is cached, a turn makes at most one new block. -/
theorem expandCluster_file {d₀ : Delta} {b : ℕ} (hbs : d₀.blocksize = L.blocksize)
    (hversion : d₀.version = L.version) : Triple (fun s => s = (d₀, b)) (expandCluster fallocate m)
      (fun _ s => s.1.blocksize = L.blocksize ∧ s.1.version = L.version ∧
        (s.1.file = d₀.file ∨ s.1.file = expandFile L fallocate d₀.file m b)) (fun _ => True) := by
  have hslots : d₀.cluster / 4 = L.slots := congrArg (s2b · / 4) hbs
  refine Triple.look fun s hs => ?_
  subst hs
  dsimp only
  rw [hslots]
  split
  · exact Triple.raise fun _ _ => True.intro
  · refine Triple.bind (R := fun _ s => (s.1.file = d₀.file ∧ s.1.blocksize = L.blocksize ∧
      s.1.version = L.version) ∧ s.2 = b) ?_ fun _ => ?_
    · refine ((loadL2_same d₀ .read _).onFst b).conseq ?_ ?_ (fun _ hs => hs)
      · rintro _ rfl
        exact ⟨rfl, rfl⟩
      · rintro _ s ⟨⟨hfile, hbs', hversion'⟩, hb⟩
        exact ⟨⟨hfile, hbs'.trans hbs, hversion'.trans hversion⟩, hb⟩
    · refine Triple.look fun ⟨e, b'⟩ ⟨⟨hfile, hbs, hversion⟩, hb⟩ => ?_
      obtain rfl : b' = b := hb
      split
      · refine (expandSlot_spec hbs hversion).conseq (fun _ hs => hs) ?_ fun _ _ => True.intro
        rintro _ s ⟨hfile', hbs', hversion', -⟩
        exact ⟨hbs', hversion', .inr (hfile ▸ hfile')⟩
      · refine Triple.ret fun s hs => ?_
        subst hs
        exact ⟨hbs, hversion, .inl hfile⟩

theorem expandFile_size {g : File} {b : ℕ} : g.size ≤ (expandFile L fallocate g m b).size :=
  (File.le_size_pwrite _ _).trans (File.le_size_pwrite _ _)

/-- Words other than that of the slot are kept or cleared. -/
theorem expandFile_word {g : File} {b i : ℕ} (hi : i ≠ u32 (m + mapOffset)) :
    (expandFile L fallocate g m b).word i = g.word i ∨
      (expandFile L fallocate g m b).word i = 0 := by
  unfold expandFile
  rw [File.word_pwrite_of_not_mem _ (by simp only; omega)]
  have hoff : b * L.cluster = 4 * (b * L.slots) := by
    rw [Layout.cluster_eq]
    ring
  have hlen : L.cluster = 4 * L.slots := Layout.cluster_eq
  by_cases hin : b * L.slots ≤ i ∧ i < b * L.slots + L.slots
  · rw [File.word_pwrite_of_mem _ hoff hin.1 (by simp only; omega)]
    split
    · exact .inr rfl
    · left
      refine bytesWord_congr fun k _ => ?_
      rw [hoff]
      exact congrArg g.byte (by omega)
  · exact .inl (File.word_pwrite_of_not_mem _ (by simp only; omega))

theorem expandFile_slot {g : File} {b : ℕ} :
    (expandFile L fallocate g m b).word (u32 (m + mapOffset)) = L.encode b := by
  unfold expandFile
  rw [File.word_pwrite_of_mem _ rfl le_rfl le_rfl, bytesWord_wordBytes]

/-- Behind the index a new block disturbs no slot. -/
theorem expandFile_word_of_le {g : File} {b i : ℕ} (hb : L.l1Size ≤ b)
    (hi : i < L.l1Size * L.slots) :
    (expandFile L fallocate g m b).word i
      = if i = u32 (m + mapOffset) then L.encode b else g.word i := by
  split
  case isTrue heq =>
    rw [heq]
    exact expandFile_slot
  case isFalse hne =>
    have hoff : L.l1Size * L.cluster ≤ b * L.cluster := Nat.mul_le_mul_right _ hb
    have hindex : L.l1Size * L.cluster = 4 * (L.l1Size * L.slots) := by
      rw [Layout.cluster_eq]
      ring
    unfold expandFile
    rw [File.word_pwrite_of_not_mem _ (by simp only; omega),
      File.word_pwrite_of_not_mem _ (by simp only; omega)]

theorem expandFile_block {g : File} {b x : ℕ} (hw : u32 (m + mapOffset) < L.l1Size * L.slots)
    (hx : L.l1Size ≤ x) : L.block (expandFile L fallocate g m b) x =
      if fallocate m = .notSupported ∧ x = b then fun _ => 0 else L.block g x := by
  have hindex : L.l1Size * L.cluster = 4 * (L.l1Size * L.slots) := by
    rw [Layout.cluster_eq]
    ring
  have hle : L.l1Size * L.cluster ≤ x * L.cluster := Nat.mul_le_mul_right _ hx
  unfold expandFile
  rw [Layout.block_pwrite_of_le (by simp only; omega)]
  by_cases hxb : x = b
  · subst hxb
    rw [Layout.block_pwrite_self]
    by_cases hf : fallocate m = .notSupported
    · rw [if_pos hf, if_pos ⟨hf, rfl⟩]
      funext j
      split <;> rfl
    · rw [if_neg hf, if_neg fun h => hf h.1]
      rfl
  · rw [Layout.block_pwrite_of_ne _ hxb, if_neg fun h => hxb h.2]

end Turn

/-! ## The loop behind the index -/

section Loop

variable {f : File} {L : Layout} {fallocate : ℕ → Fallocate} {A m : ℕ}

/-- The image before cluster `m`, when new blocks are given from block `A` on. -/
structure ExpandAt (f : File) (L : Layout) (fallocate : ℕ → Fallocate) (A m : ℕ)
    (s : Delta × ℕ) : Prop where
  cached : Cached s.1.file L s.1
  off : s.2 = A + unallocated f m
  size : f.size ≤ s.1.file.size
  header : ∀ i < mapOffset, s.1.file.word i = f.word i
  done : ∀ k < m, Layout.entry f k = 0 →
    Layout.entry s.1.file k = L.encode (A + unallocated f k)
  same : ∀ k, k + mapOffset < L.l1Size * L.slots → m ≤ k ∨ Layout.entry f k ≠ 0 →
    Layout.entry s.1.file k = Layout.entry f k
  cleared : ∀ k < m, Layout.entry f k = 0 → fallocate k = .notSupported →
    L.block s.1.file (A + unallocated f k) = fun _ => 0
  kept : ∀ x, L.l1Size ≤ x → (∀ k < m, Layout.entry f k = 0 → fallocate k = .notSupported →
    A + unallocated f k ≠ x) → L.block s.1.file x = L.block f x

theorem unallocated_succ : unallocated f (m + 1)
    = unallocated f m + if Layout.entry f m = 0 then 1 else 0 := Nat.count_succ _ _

theorem unallocated_lt {k k' : ℕ} (h : k < k') (hk : Layout.entry f k = 0) :
    unallocated f k < unallocated f k' := by
  have hmono : unallocated f (k + 1) ≤ unallocated f k' := Nat.count_monotone _ h
  rw [unallocated_succ, if_pos hk] at hmono
  omega

theorem unallocated_inj {k k' : ℕ} (hk : Layout.entry f k = 0) (hk' : Layout.entry f k' = 0)
    (h : unallocated f k = unallocated f k') : k = k' := by
  rcases Nat.lt_trichotomy k k' with hlt | heq | hgt
  · exact absurd h (unallocated_lt hlt hk).ne
  · exact heq
  · exact absurd h (unallocated_lt hgt hk').ne'

theorem ExpandAt.start {s : Delta × ℕ} (hoff : s.2 = A) (hcached : Cached f L s.1) :
    ExpandAt f L fallocate A 0 s := by
  have hfile := hcached.file
  refine ⟨hfile.symm ▸ hcached, hoff, hfile.symm ▸ le_rfl, fun i _ => ?_, fun k hk => ?_,
    fun k _ _ => ?_, fun k hk => ?_, fun x _ _ => ?_⟩
  · rw [hfile]
  · exact absurd hk k.not_lt_zero
  · rw [hfile]
  · exact absurd hk k.not_lt_zero
  · rw [hfile]

theorem ExpandAt.turn {s : Delta × ℕ} (h : ExpandAt f L fallocate A m s) (hA : L.l1Size ≤ A)
    (hL : L.Valid) (hslot : m + mapOffset < L.l1Size * L.slots) (hsmall : m + mapOffset < 2 ^ 32) :
    Triple (fun t => t = s) (expandCluster fallocate m)
      (fun _ => ExpandAt f L fallocate A (m + 1))
      (fun _ => ¬ Growable L fallocate s.1.file m) := by
  have hw : u32 (m + mapOffset) = m + mapOffset := u32_of_lt hsmall
  refine (expandCluster_spec (b := s.2) hL h.cached).conseq (fun _ hs => hs) (fun _ t ht => ?_)
    (fun _ hs => hs)
  obtain ⟨hbs, hversion, hl1, ht⟩ := ht
  rw [hw] at ht
  have hentry : s.1.file.word (m + mapOffset) = Layout.entry f m := h.same m hslot (.inl le_rfl)
  rw [hentry] at ht
  split at ht
  case isFalse hne =>
    obtain ⟨hcached, hoff⟩ := ht
    have hcount : unallocated f (m + 1) = unallocated f m := by
      rw [unallocated_succ, if_neg hne, Nat.add_zero]
    have hfile := hcached.file
    refine ⟨hfile.symm ▸ hcached, ?_, ?_, ?_, ?_, ?_, ?_, ?_⟩
    · rw [hoff, h.off, hcount]
    · rw [hfile]
      exact h.size
    · rw [hfile]
      exact h.header
    · intro k hk hzero
      rw [hfile]
      refine h.done k (Nat.lt_of_le_of_ne (Nat.lt_succ_iff.mp hk) ?_) hzero
      rintro rfl
      exact hne hzero
    · intro k hk hor
      rw [hfile]
      exact h.same k hk (hor.imp (fun hle => by omega) id)
    · intro k hk hzero hf
      rw [hfile]
      refine h.cleared k (Nat.lt_of_le_of_ne (Nat.lt_succ_iff.mp hk) ?_) hzero hf
      rintro rfl
      exact hne hzero
    · intro x hx hfree
      rw [hfile]
      exact h.kept x hx fun k hk => hfree k (by omega)
  case isTrue hzero =>
    obtain ⟨hfile, hoff, hcache, hl2⟩ := ht
    have hb : L.l1Size ≤ s.2 := by
      rw [h.off]
      omega
    have hcount : unallocated f (m + 1) = unallocated f m + 1 := by
      rw [unallocated_succ, if_pos hzero]
    have hword : ∀ i < L.l1Size * L.slots, t.1.file.word i =
        if i = m + mapOffset then L.encode s.2 else s.1.file.word i := by
      intro i hi
      rw [hfile, expandFile_word_of_le hb hi, hw]
    have hblock : ∀ x, L.l1Size ≤ x → L.block t.1.file x =
        if fallocate m = .notSupported ∧ x = s.2 then fun _ => 0 else L.block s.1.file x := by
      intro x hx
      rw [hfile, expandFile_block (by rw [hw]; exact hslot) hx]
    refine ⟨⟨rfl, hbs, hversion, hl1, ?_⟩, ?_, ?_, ?_, ?_, ?_, ?_, ?_⟩
    · intro p hp j hj
      obtain rfl := Option.some.inj (hcache.symm.trans hp)
      have hdm := Nat.div_add_mod' (m + mapOffset) L.slots
      have hmod := Nat.mod_lt (m + mapOffset) hL.slots_pos
      have hpage : (m + mapOffset) / L.slots < L.l1Size :=
        (Nat.div_lt_iff_lt_mul hL.slots_pos).mpr hslot
      have hend := Nat.mul_le_mul_right L.slots (Nat.succ_le_of_lt hpage)
      rw [Nat.succ_mul] at hend
      rw [hl2 j hj, hword _ (by omega)]
      by_cases hj0 : j = (m + mapOffset) % L.slots
      · rw [if_pos hj0, if_pos (by omega)]
      · rw [if_neg hj0, if_neg (by omega)]
    · rw [hoff, h.off, hcount, Nat.add_assoc]
    · rw [hfile]
      exact h.size.trans expandFile_size
    · intro i hi
      rw [hword i (by omega), if_neg (by omega)]
      exact h.header i hi
    · intro k hk hk0
      rcases Nat.lt_succ_iff_lt_or_eq.mp hk with hlt | rfl
      · rw [Layout.entry, hword _ (by omega), if_neg (by omega)]
        exact h.done k hlt hk0
      · rw [Layout.entry, hword _ hslot, if_pos rfl, h.off]
    · intro k hk hor
      have hne : k ≠ m := by
        rintro rfl
        exact hor.elim (fun hle => by omega) fun hne => hne hzero
      rw [Layout.entry, hword _ hk, if_neg (by omega)]
      exact h.same k hk (hor.imp (fun hle => by omega) id)
    · intro k hk hk0 hf
      rw [hblock _ (by omega)]
      split
      · rfl
      · rename_i hnot
        rcases Nat.lt_succ_iff_lt_or_eq.mp hk with hlt | rfl
        · exact h.cleared k hlt hk0 hf
        · exact absurd ⟨hf, h.off.symm⟩ hnot
    · intro x hx hfree
      rw [hblock x hx, if_neg fun hand => hfree m (Nat.lt_succ_self m) hzero hand.1 (by
        rw [hand.2, h.off])]
      exact h.kept x hx fun k hk => hfree k (by omega)

/-- A run of the loop that ends, and why it may stop. -/
theorem expandLoop_spec (hA : L.l1Size ≤ A) (hL : L.Valid) {k : ℕ}
    (hslot : k + mapOffset ≤ L.l1Size * L.slots) (hsmall : k + mapOffset ≤ 2 ^ 32) :
    Triple (ExpandAt f L fallocate A 0) (forRange (expandCluster fallocate) 0 k)
      (fun _ => ExpandAt f L fallocate A k)
      (fun _ => ∃ m < k, ∃ g, f.size ≤ File.size g ∧ ¬ Growable L fallocate g m) := by
  have hloop := Triple.forRange (I := ExpandAt f L fallocate A)
    (E := fun _ => ∃ m < k, ∃ g, f.size ≤ File.size g ∧ ¬ Growable L fallocate g m) 0 k
    fun m _ hm => Triple.start fun s hs => (hs.turn hA hL (by omega) (by omega)).conseq
      (fun _ h => h) (fun _ _ h => h) fun _ hstop => ⟨m, by omega, _, hs.size, hstop⟩
  rwa [Nat.zero_add] at hloop

/-! ## The loop in front of the end of the index -/

/-- Either no cluster needed a block yet, or the first that did has the entry of block `A`,
unless that was cleared again. -/
structure ExpandFirst (f : File) (L : Layout) (A m : ℕ) (s : Delta × ℕ) : Prop where
  blocksize : s.1.blocksize = L.blocksize
  version : s.1.version = L.version
  first : (s.2 = A ∧ Cached f L s.1 ∧ ∀ k < m, Layout.entry f k ≠ 0) ∨
    ∃ k < m, Layout.entry f k = 0 ∧
      (Layout.entry s.1.file k = 0 ∨ Layout.entry s.1.file k = L.encode A)

theorem ExpandFirst.turn (hL : L.Valid) {s : Delta × ℕ} (h : ExpandFirst f L A m s)
    (hsmall : m + mapOffset < 2 ^ 32) : Triple (fun t => t = s) (expandCluster fallocate m)
      (fun _ => ExpandFirst f L A (m + 1)) (fun _ => True) := by
  have hw : u32 (m + mapOffset) = m + mapOffset := u32_of_lt hsmall
  rcases h.first with ⟨hoff, hc, hall⟩ | ⟨k, hk, hk0, hentry⟩
  · refine (expandCluster_spec (b := s.2) hL hc).conseq (fun _ hs => hs) (fun _ t ht => ?_)
      fun _ _ => True.intro
    obtain ⟨hbs, hversion, hl1, ht⟩ := ht
    rw [hw] at ht
    split at ht
    case isTrue hzero =>
      refine ⟨hbs, hversion, .inr ⟨m, Nat.lt_succ_self m, hzero, .inr ?_⟩⟩
      have hslot := @expandFile_slot L fallocate m f s.2
      rw [hw, ← ht.1] at hslot
      exact hslot.trans (congrArg L.encode hoff)
    case isFalse hne =>
      refine ⟨hbs, hversion, .inl ⟨ht.2.trans hoff, ht.1, fun k hk => ?_⟩⟩
      rcases Nat.lt_succ_iff_lt_or_eq.mp hk with hlt | rfl
      · exact hall k hlt
      · exact hne
  · refine (expandCluster_file (b := s.2) h.blocksize h.version).conseq (fun _ hs => hs)
      (fun _ t ht => ?_) (fun _ hs => hs)
    obtain ⟨hbs, hversion, hfile | hfile⟩ := ht
    · refine ⟨hbs, hversion, .inr ⟨k, Nat.lt_succ_of_lt hk, hk0, ?_⟩⟩
      rw [hfile]
      exact hentry
    · refine ⟨hbs, hversion, .inr ⟨k, Nat.lt_succ_of_lt hk, hk0, ?_⟩⟩
      have hne : k + mapOffset ≠ u32 (m + mapOffset) := by omega
      rw [hfile]
      rcases @expandFile_word L fallocate m s.1.file s.2 _ hne with heq | heq
      · unfold Layout.entry at hentry ⊢
        rw [heq]
        exact hentry
      · exact .inl heq

theorem expandFirst_spec (hL : L.Valid) {k : ℕ} (hsmall : k + mapOffset ≤ 2 ^ 32) :
    Triple (ExpandFirst f L A 0) (forRange (expandCluster fallocate) 0 k)
      (fun _ => ExpandFirst f L A k) (fun _ => True) := by
  have hloop := Triple.forRange (I := ExpandFirst f L A) (E := fun _ => True) 0 k
    fun m _ hm => Triple.start fun s hs =>
      (hs.turn hL (by omega) : Triple _ (expandCluster fallocate m) _ _)
  rwa [Nat.zero_add] at hloop

end Loop

/-! ## Counting blocks -/

section Count

/-- Keys with places of their own between two bounds are no more than these places. -/
theorem length_le_of_oneToOne {T : ℕ → Option ℕ} {lo hi n : ℕ} (hT : OneToOne T)
    (h : ∀ k < n, ∃ b, T k = some b ∧ lo ≤ b ∧ b < hi) : n ≤ hi - lo := by
  have hmaps : ∀ k ∈ Finset.range n, (T k).getD 0 ∈ Finset.Ico lo hi := by
    intro k hk
    obtain ⟨b, hb, hlo, hhi⟩ := h k (Finset.mem_range.mp hk)
    rw [hb]
    exact Finset.mem_Ico.mpr ⟨hlo, hhi⟩
  have hinj : Set.InjOn (fun k => (T k).getD 0) (Finset.range n) := by
    intro k hk k' hk' heq
    obtain ⟨b, hb, -⟩ := h k (Finset.mem_range.mp hk)
    obtain ⟨b', hb', -⟩ := h k' (Finset.mem_range.mp hk')
    simp only [hb, hb', Option.getD_some] at heq
    exact hT hb (heq ▸ hb')
  have hcard := Finset.card_le_card_of_injOn _ hmaps hinj
  rwa [Finset.card_range, Nat.card_Ico] at hcard

variable {f g : File} {L : Layout} {clu b : ℕ}

theorem Layout.bat_lt_limit (hbs : isValidBlocksize L.blocksize) (h : L.bat f clu = some b) :
    b < L.limit := by
  have he := (entry f clu).toNat_lt
  have hdvd := Nat.div_mul_cancel hbs.dvd
  unfold bat at h
  split at h
  · obtain rfl := Option.some.inj h
    unfold limit
    cases L.version with
    | v1 =>
        simp only [ioffToSec]
        rw [Nat.div_lt_iff_lt_mul hbs.pos, hdvd]
        exact he
    | v2 =>
        simp only [ioffToSec]
        rw [Nat.mul_div_cancel _ hbs.pos]
        exact he
  · exact absurd h.symm (Option.some_ne_none b)

/-- A disk all of whose clusters have blocks has few of them. -/
theorem Layout.Valid.small (hL : L.Valid) {T : ℕ → Option ℕ} (hT : OneToOne T)
    (h : ∀ k < L.l2Size, ∃ b, T k = some b ∧ L.l1Size ≤ b ∧ b < L.limit) :
    L.l2Size + mapOffset ≤ 2 ^ 32 := by
  have hcount := length_le_of_oneToOne hT h
  have hlimit := L.limit_le
  have hroom := hL.room
  have hbs := hL.blocksize.le
  rcases Nat.lt_or_ge L.l1Size 16 with hlt | hge
  · have hslots : L.l1Size * L.slots ≤ 16 * 2 ^ 24 := by
      rw [slots_eq]
      exact Nat.mul_le_mul hlt.le (by omega)
    omega
  · simp only [mapOffset] at hroom ⊢
    omega

end Count

/-! ## The conversion -/

section Convert

variable {f g : File} {fallocate : ℕ → Fallocate} {fuel : ℕ} (hwf : WellFormed f)

include hwf

theorem Expanded.small (h : Expanded f g) : f.hdr.layout.l2Size + mapOffset ≤ 2 ^ 32 := by
  refine hwf.header.layout.small h.oneToOne fun clu hclu => ?_
  obtain ⟨b, hb, hlo⟩ := h.allocated clu hclu
  exact ⟨b, hb, hlo, Layout.bat_lt_limit hwf.header.layout.blocksize hb⟩

theorem ExpandFits.count (h : ExpandFits fallocate f) {m : ℕ} (hm : m ≤ f.hdr.layout.l2Size) :
    dataOff f 0 % f.hdr.layout.limit + unallocated f m ≤ f.hdr.layout.limit := by
  have hl1 := hwf.header.layout.l1_pos
  have hpos := Layout.limit_pos hwf.header.layout.blocksize
  induction m with
  | zero => exact (Nat.mod_lt _ hpos).le
  | succ m ih =>
      have hprev := ih (by omega)
      rw [unallocated_succ]
      split
      case isFalse => exact hprev
      case isTrue hzero =>
        -- the block of cluster `m` is not block 0
        have hdata := (h m (by omega) hzero).data
        by_contra hpast
        have heq : dataOff f 0 % f.hdr.layout.limit + unallocated f m = f.hdr.layout.limit := by
          omega
        have hmod : dataOff f m % f.hdr.layout.limit = 0 := by
          have hadd : dataOff f m = dataOff f 0 + unallocated f m := rfl
          rw [hadd, ← Nat.mod_add_mod, heq, Nat.mod_self]
        omega

/-- The blocks named follow one another. -/
theorem ExpandFits.mod (h : ExpandFits fallocate f) {clu : ℕ} (hclu : clu < f.hdr.layout.l2Size)
    (hzero : Layout.entry f clu = 0) : dataOff f clu % f.hdr.layout.limit
      = dataOff f 0 % f.hdr.layout.limit + unallocated f clu := by
  have hcount := h.count hwf (Nat.succ_le_of_lt hclu)
  have hadd : dataOff f clu = dataOff f 0 + unallocated f clu := rfl
  rw [unallocated_succ, if_pos hzero] at hcount
  rw [hadd, ← Nat.mod_add_mod]
  exact Nat.mod_eq_of_lt (by omega)

/-- The table of the new image. -/
def expandedBat (f : File) (clu : ℕ) : Option ℕ :=
  if clu < f.hdr.layout.l2Size ∧ Layout.entry f clu = 0 then
    some (dataOff f clu % f.hdr.layout.limit)
  else f.hdr.layout.bat f clu

omit hwf in
theorem expandedBat_new {clu : ℕ} (hclu : clu < f.hdr.layout.l2Size)
    (hzero : Layout.entry f clu = 0) :
    expandedBat f clu = some (dataOff f clu % f.hdr.layout.limit) := if_pos ⟨hclu, hzero⟩

omit hwf in
theorem expandedBat_old {clu : ℕ} (hne : Layout.entry f clu ≠ 0) :
    expandedBat f clu = f.hdr.layout.bat f clu := if_neg fun h => hne h.2

theorem ExpandFits.exists_block (h : ExpandFits fallocate f) {clu : ℕ}
    (hclu : clu < f.hdr.layout.l2Size) : ∃ b, expandedBat f clu = some b ∧
      f.hdr.layout.l1Size ≤ b ∧ b < f.hdr.layout.limit := by
  by_cases hzero : Layout.entry f clu = 0
  · exact ⟨_, expandedBat_new hclu hzero, (h clu hclu hzero).data,
      Nat.mod_lt _ (Layout.limit_pos hwf.header.layout.blocksize)⟩
  · obtain ⟨b, hb⟩ : ∃ b, f.hdr.layout.bat f clu = some b :=
      Option.ne_none_iff_exists'.mp fun hnone => hzero ((Layout.bat_eq_none hclu).mp hnone)
    exact ⟨b, (expandedBat_old hzero).trans hb, (hwf.table.inData clu b hb).1,
      Layout.bat_lt_limit hwf.header.layout.blocksize hb⟩

theorem ExpandFits.oneToOne (h : ExpandFits fallocate f) : OneToOne (expandedBat f) := by
  intro k k' b hk hk'
  unfold expandedBat at hk hk'
  split at hk <;> split at hk'
  case isTrue.isTrue hnew hnew' =>
    have heq := (Option.some.inj hk).trans (Option.some.inj hk').symm
    rw [h.mod hwf hnew.1 hnew.2, h.mod hwf hnew'.1 hnew'.2] at heq
    exact unallocated_inj hnew.2 hnew'.2 (by omega)
  case isTrue.isFalse hnew hold =>
    rw [← hk] at hk'
    exact absurd hk' ((h k hnew.1 hnew.2).free k')
  case isFalse.isTrue hold hnew =>
    rw [← hk'] at hk
    exact absurd hk ((h k' hnew.1 hnew.2).free k)
  case isFalse.isFalse => exact hwf.table.oneToOne hk hk'

/-- New blocks lie behind the index. -/
theorem ExpandFits.le_dataOff (h : ExpandFits fallocate f) {k : ℕ}
    (hk : k < f.hdr.layout.l2Size) (hzero : Layout.entry f k = 0) :
    f.hdr.layout.l1Size ≤ dataOff f 0 := by
  have hex : ∃ k, k < f.hdr.layout.l2Size ∧ Layout.entry f k = 0 := ⟨k, hk, hzero⟩
  obtain ⟨hlt, hfirst⟩ := Nat.find_spec hex
  have hnone : unallocated f (Nat.find hex) = 0 :=
    Nat.count_iff_forall_not.mpr fun j hj hj0 => Nat.find_min hex hj ⟨hj.trans hlt, hj0⟩
  have hdata := (h _ hlt hfirst).data
  rw [h.mod hwf hlt hfirst, hnone, Nat.add_zero] at hdata
  exact hdata.trans (Nat.mod_le _ _)

theorem ExpandFits.small (h : ExpandFits fallocate f) :
    f.hdr.layout.l2Size + mapOffset ≤ 2 ^ 32 :=
  hwf.header.layout.small (h.oneToOne hwf) fun _ hclu => h.exists_block hwf hclu

/-! ## What a run that ends leaves -/

variable (h : expanded2preallocated fallocate fuel f = some g)

include h

omit hwf h in
theorem OpenedAt.dataOff {d : Delta} (h : OpenedAt f d) :
    d.allocHead.toNat = Ploop.dataOff f 0 := by
  rw [h.head, UInt32.toNat_ofNat']
  rfl

omit hwf in
theorem expanded2preallocated_loop : ∃ s s', s.2 = dataOff f 0 ∧
    Cached f f.hdr.layout s.1 ∧ s'.1.file = g ∧
      forRange (expandCluster fallocate) 0 f.hdr.layout.l2Size s = .ok () s' := by
  unfold expanded2preallocated at h
  simp only [Option.bind_eq_bind, Option.bind_eq_some_iff] at h
  obtain ⟨d, hd, h⟩ := h
  have hat := openDelta_spec hd
  split at h
  case h_1 s hrun =>
    obtain rfl := Option.some.inj h
    obtain ⟨hlt, hloop⟩ := (countUp_ok_iff (by norm_num)).mp ⟨fuel, hrun⟩
    rw [hat.opened.l2Size] at hloop
    exact ⟨_, s, hat.dataOff, hat.cached, rfl, hloop⟩
  case h_2 => exact absurd h (Option.some_ne_none g).symm

/-- If nobody needs a block, nothing happens; else the first who does has block `data_off`,
or none. -/
theorem expanded2preallocated_first (hsmall : f.hdr.layout.l2Size + mapOffset ≤ 2 ^ 32) :
    (g = f ∧ ∀ k < f.hdr.layout.l2Size, Layout.entry f k ≠ 0) ∨
      ∃ k < f.hdr.layout.l2Size, Layout.entry f k = 0 ∧
        (Layout.entry g k = 0 ∨ Layout.entry g k = f.hdr.layout.encode (dataOff f 0)) := by
  obtain ⟨s, s', hoff, hcached, rfl, hloop⟩ := expanded2preallocated_loop h
  have hstart : ExpandFirst f f.hdr.layout (dataOff f 0) 0 s :=
    ⟨hcached.blocksize, hcached.version, .inl ⟨hoff, hcached, fun k hk => absurd hk k.not_lt_zero⟩⟩
  have hend := (expandFirst_spec hwf.header.layout hsmall).ok hstart hloop
  exact hend.first.imp (fun hleft => ⟨hleft.2.1.file, hleft.2.2⟩) id

/-- Where new blocks lie behind the index, the image is as computed. -/
theorem expanded2preallocated_at (hsmall : f.hdr.layout.l2Size + mapOffset ≤ 2 ^ 32)
    (hA : f.hdr.layout.l1Size ≤ dataOff f 0) : ∃ s, s.1.file = g ∧
      ExpandAt f f.hdr.layout fallocate (dataOff f 0) f.hdr.layout.l2Size s := by
  obtain ⟨s, s', hoff, hcached, rfl, hloop⟩ := expanded2preallocated_loop h
  exact ⟨s', rfl, (expandLoop_spec hA hwf.header.layout hwf.header.layout.room hsmall).ok
    (ExpandAt.start hoff hcached) hloop⟩

omit h in
theorem Expanded.data (hexp : Expanded f g) {clu : ℕ} (hclu : clu < f.hdr.layout.l2Size)
    (hentry : Layout.entry g clu = f.hdr.layout.encode b) :
    f.hdr.layout.bat g clu = some (b % f.hdr.layout.limit) ∧
      f.hdr.layout.l1Size ≤ b % f.hdr.layout.limit := by
  obtain ⟨c, hc, hlo⟩ := hexp.allocated clu hclu
  have hbat := Layout.bat_of_encode_mod hwf.header.layout.blocksize hclu hentry
  rw [hc] at hbat
  split at hbat
  · exact absurd hbat (Option.some_ne_none c)
  · obtain rfl := Option.some.inj hbat
    exact ⟨hc, hlo⟩

theorem Expanded.fits (hexp : Expanded f g) : ExpandFits fallocate f := by
  intro clu hclu hzero
  have hsmall := hexp.small hwf
  rcases Nat.lt_or_ge (dataOff f 0) f.hdr.layout.l1Size with hlt | hA
  · -- the first new block lies in the index
    exfalso
    rcases expanded2preallocated_first hwf h hsmall with ⟨-, hall⟩ | ⟨k, hk, -, hentry⟩
    · exact hall clu hclu hzero
    · obtain ⟨b, hb, -⟩ := hexp.allocated k hk
      rcases hentry with h0 | hA
      · rw [(Layout.bat_eq_none hk).mpr h0] at hb
        exact absurd hb (Option.some_ne_none b).symm
      · have hlo := (hexp.data hwf hk hA).2
        exact absurd (Nat.mod_le _ _) (Nat.not_le.mpr (hlt.trans_le hlo))
  · obtain ⟨s, rfl, hs⟩ := expanded2preallocated_at hwf h hsmall hA
    have hnew : ∀ k < f.hdr.layout.l2Size, Layout.entry f k = 0 →
        f.hdr.layout.bat s.1.file k = some (dataOff f k % f.hdr.layout.limit) ∧
          f.hdr.layout.l1Size ≤ dataOff f k % f.hdr.layout.limit :=
      fun k hk hk0 => hexp.data hwf hk (hs.done k hk hk0)
    obtain ⟨hbat, hlo⟩ := hnew clu hclu hzero
    refine ⟨hlo, fun k hk => ?_, ?_⟩
    · have hklt := Layout.bat_lt hk
      have hne : Layout.entry f k ≠ 0 := by
        intro h0
        rw [(Layout.bat_eq_none hklt).mpr h0] at hk
        exact absurd hk (Option.some_ne_none _).symm
      have hsame := hs.same k (hwf.header.layout.clu_lt hklt) (.inr hne)
      have hbat' : f.hdr.layout.bat s.1.file k = some (dataOff f clu % f.hdr.layout.limit) :=
        (Layout.bat_congr fun _ => hsame).trans hk
      rw [hexp.oneToOne hbat' hbat] at hne
      exact hne hzero
    · by_cases hcleared : ∃ k < f.hdr.layout.l2Size, Layout.entry f k = 0 ∧
        fallocate k = .notSupported ∧ dataOff f k = dataOff f clu % f.hdr.layout.limit
      · obtain ⟨k, hk, hk0, hf, hoff⟩ := hcleared
        have hlt : dataOff f k < f.hdr.layout.limit := by
          rw [hoff]
          exact Nat.mod_lt _ (Layout.limit_pos hwf.header.layout.blocksize)
        have hbat' := (hnew k hk hk0).1
        rw [Nat.mod_eq_of_lt hlt, hoff] at hbat'
        obtain rfl := hexp.oneToOne hbat' hbat
        exact .inl ⟨hf, hlt⟩
      · right
        rw [← hs.kept _ hlo fun k hk hk0 hf hoff => hcleared ⟨k, hk, hk0, hf, hoff⟩]
        have hcontent := hexp.content clu hclu
        have hread : Ploop.content s.1.file clu
            = some (f.hdr.layout.block s.1.file (dataOff f clu % f.hdr.layout.limit)) := by
          unfold Ploop.content
          rw [hexp.hdr]
          exact read_of_some hbat
        have hnone : Ploop.content f clu = none :=
          read_of_none ((Layout.bat_eq_none hclu).mpr hzero)
        rw [hread, hnone] at hcontent
        exact Option.some.inj hcontent

omit h in
/-- A disk without a free cluster stays as it is. -/
theorem expanded_self (hall : ∀ k < f.hdr.layout.l2Size, Layout.entry f k ≠ 0) : Expanded f f := by
  have hsome : ∀ clu < f.hdr.layout.l2Size, ∃ b, f.hdr.layout.bat f clu = some b := fun clu hclu =>
    Option.ne_none_iff_exists'.mp fun hnone => hall clu hclu ((Layout.bat_eq_none hclu).mp hnone)
  refine ⟨rfl, fun clu hclu => ?_, hwf.table.oneToOne, fun clu hclu => ?_⟩
  · obtain ⟨b, hb⟩ := hsome clu hclu
    exact ⟨b, hb, (hwf.table.inData clu b hb).1⟩
  · obtain ⟨b, hb⟩ := hsome clu hclu
    have hread : content f clu = some (f.hdr.layout.block f b) := read_of_some hb
    rw [hread, Option.getD_some]

theorem ExpandFits.expanded (hfits : ExpandFits fallocate f) : Expanded f g := by
  have hsmall := hfits.small hwf
  have hL := hwf.header.layout
  rcases expanded2preallocated_first hwf h hsmall with ⟨rfl, hall⟩ | ⟨k₀, hk₀, hzero₀, -⟩
  · exact expanded_self hwf hall
  · have hA : f.hdr.layout.l1Size ≤ dataOff f 0 := hfits.le_dataOff hwf hk₀ hzero₀
    obtain ⟨s, rfl, hs⟩ := expanded2preallocated_at hwf h hsmall hA
    have hhdr : s.1.file.hdr = f.hdr := PvdHeader.ofWords_congr hs.header
    have hbat : ∀ clu, f.hdr.layout.bat s.1.file clu = expandedBat f clu := by
      intro clu
      by_cases hnew : clu < f.hdr.layout.l2Size ∧ Layout.entry f clu = 0
      · rw [expandedBat_new hnew.1 hnew.2,
          Layout.bat_of_encode_mod hL.blocksize hnew.1 (hs.done clu hnew.1 hnew.2)]
        have hdata := (hfits clu hnew.1 hnew.2).data
        have hl1 := hL.l1_pos
        have hne : dataOff f clu % f.hdr.layout.limit ≠ 0 := by omega
        exact if_neg hne
      · rw [expandedBat, if_neg hnew]
        refine Layout.bat_congr fun hclu => hs.same clu (hL.clu_lt hclu) (.inr fun h0 => ?_)
        exact hnew ⟨hclu, h0⟩
    have hclear : ∀ clu < f.hdr.layout.l2Size, Layout.entry f clu = 0 →
        f.hdr.layout.block s.1.file (dataOff f clu % f.hdr.layout.limit) = fun _ => 0 := by
      intro clu hclu hzero
      have hok := hfits clu hclu hzero
      by_cases hcleared : ∃ k < f.hdr.layout.l2Size, Layout.entry f k = 0 ∧
        fallocate k = .notSupported ∧ dataOff f k = dataOff f clu % f.hdr.layout.limit
      · obtain ⟨k, hk, hk0, hf, hoff⟩ := hcleared
        rw [← hoff]
        exact hs.cleared k hk hk0 hf
      · rcases hok.clear with ⟨hf, hlt⟩ | hzeros
        · exact absurd ⟨clu, hclu, hzero, hf, (Nat.mod_eq_of_lt hlt).symm⟩ hcleared
        · rw [hs.kept _ hok.data fun k hk hk0 hf hoff => hcleared ⟨k, hk, hk0, hf, hoff⟩]
          exact hzeros
    have hkept : ∀ clu b, f.hdr.layout.bat f clu = some b →
        f.hdr.layout.block s.1.file b = f.hdr.layout.block f b := by
      intro clu b hb
      refine hs.kept b (hwf.table.inData clu b hb).1 fun k hk hk0 _ hoff => ?_
      have hlt := Layout.bat_lt_limit hL.blocksize hb
      have hfree := (hfits k hk hk0).free clu
      have hoff' : dataOff f k = b := hoff
      rw [hoff', Nat.mod_eq_of_lt hlt] at hfree
      exact hfree hb
    refine ⟨hhdr, fun clu hclu => ?_, ?_, fun clu hclu => ?_⟩
    · obtain ⟨b, hb, hlo, -⟩ := hfits.exists_block hwf hclu
      exact ⟨b, (hbat clu).trans hb, hlo⟩
    · rw [funext hbat]
      exact hfits.oneToOne hwf
    · unfold content
      rw [hhdr]
      by_cases hzero : Layout.entry f clu = 0
      · have hnone : f.hdr.layout.bat f clu = none := (Layout.bat_eq_none hclu).mpr hzero
        have hread : f.hdr.layout.readClu f clu = none := read_of_none hnone
        rw [hread]
        exact (read_of_some ((hbat clu).trans (expandedBat_new hclu hzero))).trans
          (congrArg some (hclear clu hclu hzero))
      · obtain ⟨b, hb⟩ : ∃ b, f.hdr.layout.bat f clu = some b :=
          Option.ne_none_iff_exists'.mp fun hnone => hzero ((Layout.bat_eq_none hclu).mp hnone)
        have hread : f.hdr.layout.readClu f clu = some (f.hdr.layout.block f b) := read_of_some hb
        rw [hread, Option.getD_some, ← hkept clu b hb]
        exact read_of_some ((hbat clu).trans ((expandedBat_old hzero).trans hb))

/-- The conversion keeps the disk exactly if every new block is one that may be given. -/
theorem expanded2preallocated_iff : Expanded f g ↔ ExpandFits fallocate f :=
  ⟨fun hexp => hexp.fits hwf h, fun hfits => hfits.expanded hwf h⟩

end Convert

/-! ## The usual case -/

section Usual

variable {f : File} {result : Fallocate} (hwf : WellFormed f)
  (hindex : f.hdr.layout.l1Size * f.hdr.layout.cluster ≤ f.size)
  (hsize : f.size / f.hdr.layout.cluster < f.hdr.layout.limit)

include hwf hindex hsize

/-- No block is past what an entry can name, and what follows the last whole block is zeros
or is cleared. -/
theorem expandFits_iff : ExpandFits (fun _ => result) f ↔
    unallocated f f.hdr.layout.l2Size = 0 ∨
      (f.size / f.hdr.layout.cluster + unallocated f f.hdr.layout.l2Size ≤ f.hdr.layout.limit ∧
        (result = .notSupported ∨
          ∀ i, f.size / f.hdr.layout.cluster * f.hdr.layout.cluster ≤ i → f.byte i = 0)) := by
  have hL := hwf.header.layout
  have hcluster := hL.cluster_pos
  have hlimit := f.hdr.layout.limit_le
  have hoff : ∀ k, dataOff f k = f.size / f.hdr.layout.cluster + unallocated f k := fun k =>
    congrArg (· + unallocated f k) (u32_of_lt (hsize.trans_le hlimit))
  have hfirst : dataOff f 0 = f.size / f.hdr.layout.cluster := (hoff 0).trans (Nat.add_zero _)
  constructor
  · intro hfits
    refine or_iff_not_imp_left.mpr fun hsome => ⟨?_, ?_⟩
    · have hcount := hfits.count hwf (le_refl f.hdr.layout.l2Size)
      rwa [hfirst, Nat.mod_eq_of_lt hsize] at hcount
    · have hex : ∃ k, k < f.hdr.layout.l2Size ∧ Layout.entry f k = 0 := by
        by_contra hnone
        exact hsome (Nat.count_iff_forall_not.mpr fun k hk hk0 => hnone ⟨k, hk, hk0⟩)
      obtain ⟨hlt, hzero⟩ := Nat.find_spec hex
      have hnone : unallocated f (Nat.find hex) = 0 :=
        Nat.count_iff_forall_not.mpr fun j hj hj0 => Nat.find_min hex hj ⟨hj.trans hlt, hj0⟩
      have hblock : dataOff f (Nat.find hex) % f.hdr.layout.limit
          = f.size / f.hdr.layout.cluster := by
        rw [hoff, hnone, Nat.add_zero, Nat.mod_eq_of_lt hsize]
      refine (hfits _ hlt hzero).clear.imp And.left fun hclear i hi => ?_
      rw [hblock] at hclear
      rcases Nat.lt_or_ge (i - f.size / f.hdr.layout.cluster * f.hdr.layout.cluster)
        f.hdr.layout.cluster with hin | hbeyond
      · have hbyte := congrFun hclear (i - f.size / f.hdr.layout.cluster * f.hdr.layout.cluster)
        rw [Layout.block, if_pos hin, Nat.add_sub_cancel' hi] at hbyte
        exact hbyte
      · have hdm := Nat.div_add_mod' f.size f.hdr.layout.cluster
        have hmod := Nat.mod_lt f.size hcluster
        exact f.eof i (by omega)
  · rintro (hnone | ⟨hlast, hclear⟩) clu hclu hzero
    · exact absurd hzero (Nat.count_iff_forall_not.mp hnone clu hclu)
    · have hlt : unallocated f clu < unallocated f f.hdr.layout.l2Size := unallocated_lt hclu hzero
      have hmod : dataOff f clu % f.hdr.layout.limit
          = f.size / f.hdr.layout.cluster + unallocated f clu := by
        rw [hoff, Nat.mod_eq_of_lt (by omega)]
      have hl1 : f.hdr.layout.l1Size ≤ f.size / f.hdr.layout.cluster :=
        (Nat.le_div_iff_mul_le hcluster).mpr hindex
      refine ⟨?_, fun k hk => ?_, hclear.imp (fun hf => ⟨hf, ?_⟩) fun hzeros => ?_⟩
      · rw [hmod]
        exact hl1.trans (Nat.le_add_right _ _)
      · rw [hmod] at hk
        have hin := (hwf.table.inData k _ hk).2
        omega
      · rw [hoff]
        omega
      · rw [hmod]
        funext j
        unfold Layout.block
        split
        · refine hzeros _ ?_
          have hmul := Nat.mul_le_mul_right f.hdr.layout.cluster
            (Nat.le_add_right (f.size / f.hdr.layout.cluster) (unallocated f clu))
          omega
        · rfl

theorem exists_expanded2preallocated (hclean : f.hdr.mDiskInUse ≠ signatureDiskInUse)
    (hsmall : f.hdr.layout.l2Size + mapOffset ≤ 2 ^ 32) (hresult : result ≠ .failed) :
    ∃ fuel g, expanded2preallocated (fun _ => result) fuel f = some g := by
  have hL := hwf.header.layout
  have hl1 : f.hdr.layout.l1Size ≤ dataOff f 0 := by
    refine le_trans ((Nat.le_div_iff_mul_le hL.cluster_pos).mpr hindex) ?_
    exact (u32_of_lt (hsize.trans_le f.hdr.layout.limit_le)).ge
  have hlarge : 4096 ≤ f.size := by
    have hmul : 1 * f.hdr.layout.cluster ≤ f.hdr.layout.l1Size * f.hdr.layout.cluster :=
      Nat.mul_le_mul_right _ hL.l1_pos
    have hbs := hL.blocksize.1
    simp only [Layout.cluster, s2b] at hmul hindex
    omega
  obtain ⟨d, hd⟩ := @exists_openDelta f false hwf.header hlarge fun h => absurd h hclean
  have hat := openDelta_spec hd
  have hgrow : ∀ m < f.hdr.layout.l2Size, ∀ g, f.size ≤ File.size g →
      Growable f.hdr.layout (fun _ => result) g m := by
    intro m hm g hg
    have hslot := hL.clu_lt hm
    have hpage : (m + mapOffset) / f.hdr.layout.slots < f.hdr.layout.l1Size :=
      (Nat.div_lt_iff_lt_mul hL.slots_pos).mpr hslot
    have hend := Nat.mul_le_mul_right f.hdr.layout.cluster (Nat.succ_le_of_lt hpage)
    rw [Nat.succ_mul] at hend
    refine ⟨?_, ?_, hresult⟩
    · rwa [u32_of_lt (by omega)]
    · rw [u32_of_lt (by omega)]
      omega
  have hnone : ¬ ∃ m < f.hdr.layout.l2Size, ∃ g, f.size ≤ File.size g ∧
      ¬ Growable f.hdr.layout (fun _ => result) g m := by
    rintro ⟨m, hm, g, hg, hbad⟩
    exact hbad (hgrow m hm g hg)
  have hloop := (expandLoop_spec (f := f) hl1 hL hL.room hsmall).conseq
    (fun _ hs => hs) (fun _ _ hs => hs) fun _ hstop => hnone hstop
  obtain ⟨⟨⟩, s, hrun, -⟩ := hloop.exists_ok
    (ExpandAt.start (s := (d, d.allocHead.toNat)) hat.dataOff hat.cached)
  obtain ⟨fuel, hcount⟩ := (countUp_ok_iff (m := 2 ^ 32) (by norm_num)).mpr
    ⟨(by simp only [mapOffset] at hsmall; omega : f.hdr.layout.l2Size < 2 ^ 32), hrun⟩
  refine ⟨fuel, s.1.file, ?_⟩
  unfold expanded2preallocated
  simp only [Option.bind_eq_bind, hd, Option.bind_some, hat.opened.l2Size, hcount]

end Usual

theorem expanded2preallocated_iff_formatted : ∃ fuel g,
    expanded2preallocated (fun _ => .done) fuel (formatted .v2 2048) = some g ∧
      (Expanded (formatted .v2 2048) g ↔ ExpandFits (fun _ => .done) (formatted .v2 2048)) := by
  have hbs : isValidBlocksize 2048 := by decide
  have hwf : WellFormed (formatted .v2 2048) := formatted_wellFormed hbs
  obtain ⟨fuel, g, hg⟩ := exists_expanded2preallocated hwf (formatted_index_le hbs)
    (by rw [formatted_layout hbs, formatted_size hbs]; decide)
    (by rw [(formatted_blank hbs).hdr]; decide) (by rw [formatted_layout hbs]; decide)
    (by decide : Fallocate.done ≠ .failed)
  exact ⟨fuel, g, hg, expanded2preallocated_iff hwf hg⟩

/-! ## A tail that is not clear -/

/-- What lies behind the index is no matter of the table. -/
theorem WellFormed.pwrite {f : File} (hwf : WellFormed f) {w : Write}
    (h : f.hdr.layout.l1Size * f.hdr.layout.cluster ≤ w.off) :
    (f.pwrite w).hdr = f.hdr ∧ WellFormed (f.pwrite w) := by
  have hL := hwf.header.layout
  have hhead : headerBytes ≤ w.off := by
    have hmul : 1 * f.hdr.layout.cluster ≤ f.hdr.layout.l1Size * f.hdr.layout.cluster :=
      Nat.mul_le_mul_right _ hL.l1_pos
    have hbs := hL.blocksize.1
    simp only [Layout.cluster, s2b] at hmul h
    simp only [headerBytes]
    omega
  have hhdr := hdr_pwrite_of_ge (f := f) hhead
  have hbat : ∀ clu, f.hdr.layout.bat (f.pwrite w) clu = f.hdr.layout.bat f clu := fun clu =>
    Layout.bat_congr fun hclu => Layout.entry_pwrite_of_ge (hL.clu_lt hclu) h
  refine ⟨hhdr, hhdr.symm ▸ hwf.header, ?_⟩
  rw [hhdr]
  refine ⟨fun clu hclu => ?_, fun clu b hb => ?_, fun clu clu' b hb hb' => ?_, fun s hs hroom => ?_⟩
  · rw [Layout.entry_pwrite_of_ge (hL.clu_lt hclu) h]
    exact hwf.table.aligned clu hclu
  · rw [hbat] at hb
    have hin := hwf.table.inData clu b hb
    exact ⟨hin.1, hin.2.trans_le (Nat.div_le_div_right (File.le_size_pwrite _ _))⟩
  · rw [hbat] at hb hb'
    exact hwf.table.oneToOne hb hb'
  · rw [Layout.entry_pwrite_of_ge hroom h]
    exact hwf.table.unused s hs hroom

/-- An image whose last byte starts a block that nobody has. -/
def tailed : File := (formatted .v2 2048).pwrite ⟨s2b 2048, 1, fun _ => 1⟩

/-- The byte becomes a part of cluster 0. -/
theorem expanded2preallocated_not : ¬ ∀ (fallocate : ℕ → Fallocate) (fuel : ℕ) (f g : File),
    WellFormed f → expanded2preallocated fallocate fuel f = some g → Expanded f g := by
  intro hall
  have hbs : isValidBlocksize 2048 := by decide
  have hlayout : (formatted .v2 2048).hdr.layout = ⟨.v2, 2048, 1, 2 ^ 17 / 2048⟩ :=
    formatted_layout hbs
  have hblank := @formatted_wellFormed .v2 2048 hbs
  obtain ⟨hhdr, hwf⟩ : tailed.hdr = (formatted .v2 2048).hdr ∧ WellFormed tailed :=
    hblank.pwrite (w := ⟨s2b 2048, 1, fun _ => 1⟩) (by rw [hlayout]; decide)
  have hsize : tailed.size = s2b 2048 + 1 := by
    have hold : (formatted .v2 2048).size = s2b 2048 := formatted_size hbs
    rw [tailed, File.size_pwrite, hold]
    rfl
  have hlayout' : tailed.hdr.layout = ⟨.v2, 2048, 1, 2 ^ 17 / 2048⟩ := by
    rw [hhdr, hlayout]
  have hindex : tailed.hdr.layout.l1Size * tailed.hdr.layout.cluster ≤ tailed.size := by
    rw [hlayout', hsize]
    decide
  have hhead : tailed.size / tailed.hdr.layout.cluster = 1 := by
    rw [hlayout', hsize]
    decide
  have hlimit : tailed.size / tailed.hdr.layout.cluster < tailed.hdr.layout.limit := by
    rw [hhead, hlayout']
    decide
  obtain ⟨fuel, g, hg⟩ := exists_expanded2preallocated hwf hindex hlimit
    (by rw [hhdr, (formatted_blank hbs).hdr]; decide) (by rw [hlayout']; decide)
    (by decide : Fallocate.done ≠ .failed)
  have hfits := (hall _ fuel tailed g hwf hg).fits hwf hg
  have hfree : unallocated tailed tailed.hdr.layout.l2Size ≠ 0 := by
    have hentry : Layout.entry tailed 0 = 0 := by
      have hkeep : Layout.entry tailed 0 = Layout.entry (formatted .v2 2048) 0 :=
        File.word_pwrite_of_not_mem _ (.inl (by decide))
      rw [hkeep]
      exact (formatted_blank hbs).word _
    refine Nat.ne_of_gt ?_
    refine Nat.lt_of_le_of_lt (Nat.zero_le _) (unallocated_lt ?_ hentry)
    rw [hlayout']
    decide
  rcases (expandFits_iff hwf hindex hlimit).mp hfits with hnone | ⟨-, hf | hzeros⟩
  · exact hfree hnone
  · exact absurd hf (by decide)
  · have hbyte : tailed.byte (s2b 2048) = 1 := by
      rw [tailed, File.byte_pwrite]
      exact overlay_of_mem le_rfl (Nat.lt_succ_self _)
    have hzero := hzeros (s2b 2048) (by rw [hhead, hlayout']; decide)
    exact absurd (hbyte.symm.trans hzero) (by decide)

end Ploop
