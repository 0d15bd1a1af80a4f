import Ploop.Cbt.Reported
import Ploop.Image.Blank

/-!
# The bitmap of the clusters in use

`ploop_get_used_bitmap_from_image` reads the table of an image in pages of as many
bytes as a cluster has sectors, and stops after as many of these pages as the table
has clusters.
-/

namespace Ploop.Cbt

open Storage Program

/-- The open image, the bitmap so far, and the last entry of its map. -/
structure UsedScan where
  delta : Delta
  bmap : PloopBitmap
  pid : ℕ

abbrev UsedM := EStateM Sysexit UsedScan

/-- `clu_per_block`: bits in one entry of the map. -/
def cluPerBlock : ℕ := s2b 8 * 8

/-- `BMAP_SET` -/
def bmapSet (m : ℕ → UInt8) (x : ℕ) : ℕ → UInt8 :=
  packByte (Function.update (testBit m) x true)

/-- Page `p` of the table, in pages of `len` bytes. -/
def cachePage (len p : ℕ) : UsedM Unit := do
  let s ← get
  if s.delta.l2Cache ≠ some p then
    match s.delta.file.pread len (p * len) with
    | none => throw .read
    | some buf => set { s with delta := { s.delta with l2 := bytesWord buf, l2Cache := some p } }
  else pure ()

def PloopBitmap.put (bmap : PloopBitmap) (i : ℕ) (e : MemEntry) : PloopBitmap :=
  { bmap with map := Function.update bmap.map i e, written := bmap.written ++ [i] }

def PloopBitmap.setBit (bmap : PloopBitmap) (pid x : ℕ) : PloopBitmap :=
  { bmap with map := Function.update bmap.map pid (match bmap.map pid with
    | .block m => .block (bmapSet m x)
    -- not a pointer
    | .const v => .const v) }

/-- One turn of the loop; `n` is the number of slots in a page. -/
def usedSlot (cluster n clu : ℕ) : UsedM Unit := do
  cachePage cluster ((clu + mapOffset) / n)
  modify fun s =>
    if clu % cluPerBlock = 0 then
      { s with
        bmap := s.bmap.put (clu / cluPerBlock) (.block fun _ => 0), pid := clu / cluPerBlock }
    else s
  modify fun s =>
    if s.delta.l2 ((clu + mapOffset) % n) = 0 then s
    else { s with bmap := s.bmap.setBit s.pid (clu % cluPerBlock) }

/-- `d.l1_size * n - PLOOP_MAP_OFFSET`, in 32 bits. -/
def usedBound (l1Size n : ℕ) : ℕ := u32 (l1Size * n + 2 ^ 32 - mapOffset)

/-- `ploop_get_used_bitmap_from_image` -/
def ploopGetUsedBitmapFromImage (files : Dd.Path → Option File) (di : Dd.DiskImagesData)
    (guid : Option Dd.Guid) : Option PloopBitmap := do
  let img ← findImage di guid
  let f ← files img
  let d ← openDelta f true
  let cluster := d.blocksize
  let bmap ← ploopAllocBitmap (d.l2Size * d.blocksize) 8 cluster
  let n := cluster / 4
  match forRange (usedSlot cluster n) 0 (min (usedBound d.l1Size n) d.l2Size) ⟨d, bmap, 0⟩ with
  | .ok _ s => some s.bmap
  | .error _ _ => none

/-- Bit `k` of a bitmap. -/
def PloopBitmap.bit (bmap : PloopBitmap) (k : ℕ) : Bool :=
  match bmap.map (k / 32768) with
  | .block m => testBit m (k % 32768)
  | .const v => v

/-- The clusters in use, and nothing written outside of the map. -/
structure UsedExactly (f : File) (bmap : PloopBitmap) : Prop where
  bit : ∀ k < f.hdr.layout.l2Size, bmap.bit k = decide (Layout.entry f k ≠ 0)
  inside : ∀ i ∈ bmap.written, i < bmap.capacity

theorem cluPerBlock_eq : cluPerBlock = 32768 := rfl

@[simp] theorem testBit_bmapSet (m : ℕ → UInt8) (x y : ℕ) :
    testBit (bmapSet m x) y = Function.update (testBit m) x true y :=
  testBit_packByte _ y

/-! ## The page in memory -/

/-- What is cached of the table of `f`, in pages of `n` slots. -/
structure Cached (f : File) (n : ℕ) (d : Delta) : Prop where
  file : d.file = f
  page : ∀ p, d.l2Cache = some p → ∀ j < n, d.l2 j = f.word (p * n + j)

theorem cachePage_spec {f : File} {n p : ℕ} {s₀ : UsedScan} (hc : Cached f n s₀.delta)
    (hend : p * (4 * n) + 4 * n ≤ f.size) : Triple (fun s => s = s₀) (cachePage (4 * n) p)
      (fun _ s => s.bmap = s₀.bmap ∧ s.pid = s₀.pid ∧ Cached f n s.delta ∧ s.delta.l2Cache = some p)
      (fun _ => False) := by
  refine Triple.look fun s hs => ?_
  subst hs
  by_cases hp : s.delta.l2Cache = some p
  · rw [if_neg (not_not.mpr hp)]
    refine Triple.ret fun t ht => ?_
    subst ht
    exact ⟨rfl, rfl, hc, hp⟩
  · rw [if_pos hp]
    have hread : s.delta.file.pread (4 * n) (p * (4 * n)) =
        some fun i => f.byte (p * (4 * n) + i) := by
      rw [hc.file]
      exact if_pos hend
    rw [hread]
    refine fun t ht => ⟨rfl, rfl, ⟨hc.file, fun q hq j hj => ?_⟩, rfl⟩
    obtain rfl := Option.some.inj hq
    change bytesWord (fun i => f.byte (p * (4 * n) + i)) j = f.word (p * n + j)
    refine bytesWord_congr fun k hk => ?_
    have heq : p * (4 * n) + (4 * j + k) = 4 * (p * n + j) + k := by ring
    exact congrArg f.byte heq

/-! ## The map -/

/-- Bit `x` of a block of which clusters below `m` were looked at. -/
def seen (f : File) (m i x : ℕ) : Bool :=
  decide (i * 32768 + x < m ∧ Layout.entry f (i * 32768 + x) ≠ 0)

/-- The map when the clusters below `m` were looked at; the entries for those below `w` are
there. -/
structure Marked (f : File) (cap m w : ℕ) (bmap : PloopBitmap) (pid : ℕ) : Prop where
  capacity : bmap.capacity = cap
  pid : ∀ k, w = k + 1 → pid = k / 32768
  written : ∀ i, i ∈ bmap.written ↔ i * 32768 < w
  block : ∀ i, i * 32768 < w → ∃ b, bmap.map i = .block b ∧ ∀ x < 32768, testBit b x = seen f m i x
  rest : ∀ i, w ≤ i * 32768 → bmap.map i = .const false

section Marks

variable {f : File} {cap m pid : ℕ} {bmap : PloopBitmap}

theorem seen_of_ge {i x : ℕ} (h : m ≤ i * 32768 + x) : seen f m i x = false :=
  decide_eq_false fun hseen => absurd hseen.1 (Nat.not_lt.mpr h)

theorem seen_succ {i x : ℕ} (h : i * 32768 + x ≠ m) : seen f (m + 1) i x = seen f m i x := by
  refine decide_eq_decide.mpr (and_congr_left fun _ => ?_)
  omega

/-- The first cluster of an entry. -/
theorem Marked.fresh (h : Marked f cap m m bmap pid) (hm : m % 32768 = 0) :
    Marked f cap m (m + 1) (bmap.put (m / 32768) (.block fun _ => 0)) (m / 32768) where
  capacity := h.capacity
  pid k hk := by rw [Nat.succ.inj hk]
  written i := by
    simp only [PloopBitmap.put, List.mem_append, List.mem_singleton, h.written]
    omega
  block i hi := by
    simp only [PloopBitmap.put]
    by_cases heq : i = m / 32768
    · refine ⟨fun _ => 0, by rw [heq, Function.update_self], fun x _ => ?_⟩
      rw [seen_of_ge (by omega)]
      simp [testBit]
    · rw [Function.update_of_ne heq]
      exact h.block i (by omega)
  rest i hi := by
    simp only [PloopBitmap.put]
    rw [Function.update_of_ne (by omega)]
    exact h.rest i (by omega)

/-- Any other cluster. -/
theorem Marked.again (h : Marked f cap m m bmap pid) (hm : m % 32768 ≠ 0) :
    Marked f cap m (m + 1) bmap pid where
  capacity := h.capacity
  pid k hk := by
    have hpid := h.pid (m - 1) (by omega)
    omega
  written i := by
    rw [h.written]
    omega
  block i hi := h.block i (by omega)
  rest i hi := h.rest i (by omega)

theorem Marked.skip (h : Marked f cap m (m + 1) bmap pid) (hm : Layout.entry f m = 0) :
    Marked f cap (m + 1) (m + 1) bmap pid where
  capacity := h.capacity
  pid := h.pid
  written := h.written
  block i hi := by
    obtain ⟨b, hb, hbits⟩ := h.block i hi
    refine ⟨b, hb, fun x hx => (hbits x hx).trans ?_⟩
    by_cases heq : i * 32768 + x = m
    · simp [seen, heq, hm]
    · exact (seen_succ heq).symm
  rest := h.rest

theorem Marked.mark (h : Marked f cap m (m + 1) bmap pid) (hm : Layout.entry f m ≠ 0) :
    Marked f cap (m + 1) (m + 1) (bmap.setBit pid (m % 32768)) pid := by
  have hpid := h.pid m rfl
  obtain ⟨b, hb, hbits⟩ := h.block pid (by omega)
  have hmap : (bmap.setBit pid (m % 32768)).map =
      Function.update bmap.map pid (.block (bmapSet b (m % 32768))) := by
    rw [PloopBitmap.setBit, hb]
  refine ⟨h.capacity, h.pid, h.written, fun i hi => ?_, fun i hi => ?_⟩
  · by_cases heq : i = pid
    · subst heq
      refine ⟨_, by rw [hmap, Function.update_self], fun x hx => ?_⟩
      rw [testBit_bmapSet]
      by_cases hxm : x = m % 32768
      · subst hxm
        have hself : i * 32768 + m % 32768 = m := by omega
        rw [Function.update_self, seen, hself]
        exact (decide_eq_true ⟨m.lt_succ_self, hm⟩).symm
      · rw [Function.update_of_ne hxm, hbits x hx, seen_succ (by omega)]
    · obtain ⟨c, hc, hcbits⟩ := h.block i hi
      refine ⟨c, by rw [hmap, Function.update_of_ne heq, hc], fun x hx => ?_⟩
      rw [hcbits x hx, seen_succ (by omega)]
  · rw [hmap, Function.update_of_ne (by omega)]
    exact h.rest i hi

end Marks

/-! ## The loop -/

section Loop

variable {f : File} {cap n : ℕ}

/-- The scan before cluster `m`. -/
structure UsedAt (f : File) (cap n m : ℕ) (s : UsedScan) : Prop where
  cached : Cached f n s.delta
  marked : Marked f cap m m s.bmap s.pid

theorem usedSlot_spec {m : ℕ} (hn : 0 < n)
    (hend : (m + mapOffset) / n * (4 * n) + 4 * n ≤ f.size) :
    Triple (UsedAt f cap n m) (usedSlot (4 * n) n m) (fun _ => UsedAt f cap n (m + 1))
      (fun _ => False) := by
  refine Triple.start fun s₀ h₀ => ?_
  refine Triple.bind (cachePage_spec h₀.cached hend) fun _ => ?_
  refine Triple.bind (R := fun _ s => Cached f n s.delta ∧
    s.delta.l2Cache = some ((m + mapOffset) / n) ∧ Marked f cap m (m + 1) s.bmap s.pid)
    (Triple.update fun s hs => ?_) fun _ => Triple.update fun s hs => ?_
  · obtain ⟨hbmap, hpid, hcached, hpage⟩ := hs
    have hmarked : Marked f cap m m s.bmap s.pid := hbmap ▸ hpid ▸ h₀.marked
    rw [cluPerBlock_eq]
    split
    case isTrue hm => exact ⟨hcached, hpage, hmarked.fresh hm⟩
    case isFalse hm => exact ⟨hcached, hpage, hmarked.again hm⟩
  · obtain ⟨hcached, hpage, hmarked⟩ := hs
    have hslot : s.delta.l2 ((m + mapOffset) % n) = Layout.entry f m := by
      rw [hcached.page _ hpage _ (Nat.mod_lt _ hn), Nat.div_add_mod', Layout.entry]
    rw [hslot, cluPerBlock_eq]
    split
    case isTrue hm => exact ⟨hcached, hmarked.skip hm⟩
    case isFalse hm => exact ⟨hcached, hmarked.mark hm⟩

/-- The whole loop, while its pages lie in the file. -/
theorem usedLoop_spec {k : ℕ} (hn : 0 < n)
    (hend : ∀ m < k, (m + mapOffset) / n * (4 * n) + 4 * n ≤ f.size) :
    Triple (UsedAt f cap n 0) (forRange (usedSlot (4 * n) n) 0 k) (fun _ => UsedAt f cap n k)
      (fun _ => False) := by
  have hloop := Triple.forRange (I := UsedAt f cap n) (E := fun _ => False) 0 k
    fun m _ hm => usedSlot_spec hn (hend m (by omega))
  rwa [Nat.zero_add] at hloop

end Loop

/-! ## The bitmap of an image -/

/-- Clusters that the loop gets to: it takes every cluster of the table for one page. -/
def scanned (L : Layout) : ℕ := L.l1Size * (L.blocksize / 4) - mapOffset

/-- The loop gets to the last cluster in use, and the map has room for the first entry. -/
structure UsedFits (f : File) : Prop where
  room : min (scanned f.hdr.layout) f.hdr.layout.l2Size = 0 ∨ 64 ≤ f.hdr.layout.l2Size
  scanned : ∀ k < f.hdr.layout.l2Size, scanned f.hdr.layout ≤ k → Layout.entry f k = 0

section Used

variable {f : File} {m cap pid : ℕ} {bmap : PloopBitmap}

theorem Marked.bit (h : Marked f cap m m bmap pid) (k : ℕ) :
    bmap.bit k = decide (k < m ∧ Layout.entry f k ≠ 0) := by
  have hk : k / 32768 * 32768 + k % 32768 = k := by omega
  by_cases hlt : k / 32768 * 32768 < m
  · obtain ⟨b, hb, hbits⟩ := h.block _ hlt
    rw [PloopBitmap.bit, hb]
    dsimp only
    rw [hbits _ (Nat.mod_lt _ (by norm_num)), seen, hk]
  · rw [PloopBitmap.bit, h.rest _ (Nat.not_lt.mp hlt)]
    exact (decide_eq_false fun hand => by omega).symm

/-- The map has the entries exactly if there is one at all. -/
theorem Marked.inside_iff (h : Marked f (cap / 64) m m bmap pid) (hle : m ≤ cap) :
    (∀ i ∈ bmap.written, i < bmap.capacity) ↔ m = 0 ∨ 64 ≤ cap := by
  simp only [h.written, h.capacity]
  constructor
  · intro hall
    rcases Nat.eq_zero_or_pos m with hm | hm
    · exact .inl hm
    · have := hall 0 (by omega)
      exact .inr (by omega)
  · intro hcap i hi
    omega

variable {L : Layout}

theorem usedBound_eq (hL : L.Valid) (hfirst : L.l1Size * L.blocksize < 2 ^ 32) :
    usedBound L.l1Size (L.blocksize / 4) = scanned L := by
  have hlo := hL.blocksize.1
  have hn : 16 ≤ L.blocksize / 4 := by omega
  have hle : 1 * 16 ≤ L.l1Size * (L.blocksize / 4) := Nat.mul_le_mul hL.l1_pos hn
  have hmul : L.l1Size * (L.blocksize / 4) ≤ L.l1Size * L.blocksize :=
    Nat.mul_le_mul_left _ (Nat.div_le_self _ _)
  rw [usedBound, scanned, u32, mapOffset]
  omega

/-- The pages that are read lie in the index. -/
theorem scanned_page {m n : ℕ} (hn : 0 < n) (hm : m + mapOffset < L.l1Size * n) :
    (m + mapOffset) / n * (4 * n) + 4 * n ≤ L.l1Size * (4 * n) := by
  have hpage : (m + mapOffset) / n < L.l1Size := (Nat.div_lt_iff_lt_mul hn).mpr hm
  have hmul := Nat.mul_le_mul_right (4 * n) (Nat.succ_le_of_lt hpage)
  rwa [Nat.succ_mul] at hmul

end Used

section Run

variable {files : Dd.Path → Option File} {di : Dd.DiskImagesData} {guid : Option Dd.Guid}
  {img : Dd.Path} {f : File} (himg : findImage di guid = some img) (hfile : files img = some f)
  (hwf : WellFormed f) (hindex : f.hdr.layout.l1Size * f.hdr.layout.cluster ≤ f.size)

include himg hfile hwf hindex

/-- The function returns a bitmap of the clusters it got to. -/
theorem exists_usedBitmap : ∃ bmap pid, ploopGetUsedBitmapFromImage files di guid = some bmap ∧
    Marked f (f.hdr.layout.l2Size / 64) (min (scanned f.hdr.layout) f.hdr.layout.l2Size)
      (min (scanned f.hdr.layout) f.hdr.layout.l2Size) bmap pid := by
  have hL := hwf.header.layout
  have hpos := hL.pos
  have hlo := hL.blocksize.1
  have hle := hL.blocksize.le
  have hsize : 4096 ≤ f.size := by
    have hmul : 1 * f.hdr.layout.cluster ≤ f.hdr.layout.l1Size * f.hdr.layout.cluster :=
      Nat.mul_le_mul_right _ hL.l1_pos
    simp only [Layout.cluster, s2b] at hmul hindex
    omega
  obtain ⟨d, hd⟩ := @exists_openDelta f true hwf.header hsize fun _ => rfl
  have hat := openDelta_spec hd
  have hbs : d.blocksize = f.hdr.layout.blocksize := hat.opened.blocksize
  obtain ⟨n, hn⟩ : 4 ∣ f.hdr.layout.blocksize := by
    obtain ⟨k, hk, -, heq⟩ := isValidBlocksize_iff.mp hL.blocksize
    rw [heq]
    exact pow_dvd_pow 2 (by omega : 2 ≤ k)
  have hdiv : f.hdr.layout.blocksize / 4 = n := by omega
  have hfirst : f.hdr.layout.l1Size * f.hdr.layout.blocksize < 2 ^ 32 :=
    (Nat.div_mul_le_self _ _).trans_lt f.hdr.mFirstBlockOffset.toNat_lt
  have hbound : usedBound f.hdr.layout.l1Size n = scanned f.hdr.layout := by
    rw [← hdiv]
    exact usedBound_eq hL hfirst
  obtain ⟨bmap₀, halloc, hmarked⟩ : ∃ bmap₀,
      ploopAllocBitmap (f.hdr.layout.l2Size * f.hdr.layout.blocksize) 8 f.hdr.layout.blocksize =
        some bmap₀ ∧ Marked f (f.hdr.layout.l2Size / 64) 0 0 bmap₀ 0 := by
    have hsectors : u64 (u64 (8 * f.hdr.layout.blocksize) * 8) = f.hdr.layout.blocksize * 64 := by
      rw [u64_of_lt (by omega : 8 * f.hdr.layout.blocksize < 2 ^ 64), u64_of_lt (by omega)]
      omega
    have hcap : f.hdr.layout.l2Size * f.hdr.layout.blocksize / (f.hdr.layout.blocksize * 64) =
        f.hdr.layout.l2Size / 64 := by
      rw [← Nat.div_div_eq_div_mul, Nat.mul_div_cancel _ hpos]
    unfold ploopAllocBitmap
    simp only [hsectors, hcap]
    rw [if_neg (by omega)]
    refine ⟨_, rfl, rfl, fun k hk => absurd hk (by omega), fun i => ?_,
      fun i hi => absurd hi (by omega), fun _ _ => rfl⟩
    simp
  have hstart : UsedAt f (f.hdr.layout.l2Size / 64) n 0 ⟨d, bmap₀, 0⟩ := by
    refine ⟨⟨congrArg Disk.file hat.disk, fun p hp => ?_⟩, hmarked⟩
    rw [hat.cache] at hp
    exact absurd hp (Option.some_ne_none p).symm
  have hpages : ∀ m < min (scanned f.hdr.layout) f.hdr.layout.l2Size,
      (m + mapOffset) / n * (4 * n) + 4 * n ≤ f.size := by
    intro m hm
    have hlt : m + mapOffset < f.hdr.layout.l1Size * n := by
      have hm' := lt_of_lt_of_le hm (min_le_left _ _)
      rw [scanned, hdiv] at hm'
      omega
    refine (scanned_page (by omega) hlt).trans (le_trans ?_ hindex)
    rw [← hn]
    exact Nat.mul_le_mul_left _ (by simp only [Layout.cluster, s2b]; omega)
  obtain ⟨⟨⟩, s, hloop, hs⟩ := (usedLoop_spec (by omega) hpages).exists_ok hstart
  have hrun : ploopGetUsedBitmapFromImage files di guid = some s.bmap := by
    simp only [ploopGetUsedBitmapFromImage, Option.bind_eq_bind, himg, Option.bind_some, hfile, hd,
      hbs, hat.opened.l1Size, hat.opened.l2Size, halloc, hdiv, hbound]
    rw [hn, hloop]
  exact ⟨s.bmap, s.pid, hrun, hs.marked⟩

/-- The bitmap is right exactly if the loop and the map are long enough. -/
theorem usedBitmap_exact_iff :
    (∃ bmap, ploopGetUsedBitmapFromImage files di guid = some bmap ∧ UsedExactly f bmap) ↔
      UsedFits f := by
  obtain ⟨bmap, pid, hrun, hmarked⟩ := exists_usedBitmap himg hfile hwf hindex
  have hinside := hmarked.inside_iff (min_le_right _ _)
  constructor
  · rintro ⟨bmap', hrun', hexact⟩
    obtain rfl := Option.some.inj (hrun.symm.trans hrun')
    refine ⟨hinside.mp hexact.inside, fun k hk hge => ?_⟩
    by_contra hne
    have hbit := (hmarked.bit k).symm.trans (hexact.bit k hk)
    rw [decide_eq_true hne] at hbit
    have hlt := (of_decide_eq_true hbit).1
    omega
  · intro hfits
    refine ⟨_, hrun, fun k hk => (hmarked.bit k).trans (decide_eq_decide.mpr ?_),
      hinside.mpr hfits.room⟩
    constructor
    · exact fun h => h.2
    · intro hne
      have hlt : k < scanned f.hdr.layout := by
        by_contra hge
        exact hne (hfits.scanned k hk (Nat.not_lt.mp hge))
      exact ⟨lt_min hlt hk, hne⟩

end Run

theorem usedBitmap_exact_iff_formatted :
    (∃ bmap, ploopGetUsedBitmapFromImage (fun _ => some (formatted .v2 64)) smallDd none =
      some bmap ∧ UsedExactly (formatted .v2 64) bmap) ↔ UsedFits (formatted .v2 64) :=
  usedBitmap_exact_iff findImage_smallDd rfl (formatted_wellFormed (by decide))
    (formatted_index_le (by decide))

/-- With 32 clusters of 2 MB the first entry lies behind the map. -/
theorem usedBitmap_not_exact : ¬ ∀ (files : Dd.Path → Option File) (di : Dd.DiskImagesData)
    (guid : Option Dd.Guid) (img : Dd.Path) (f : File), findImage di guid = some img →
      files img = some f → WellFormed f →
        f.hdr.layout.l1Size * f.hdr.layout.cluster ≤ f.size →
          ∃ bmap, ploopGetUsedBitmapFromImage files di guid = some bmap ∧ UsedExactly f bmap := by
  intro hall
  have hbs : isValidBlocksize 4096 := by decide
  have hwf := @formatted_wellFormed .v2 4096 hbs
  have hindex := @formatted_index_le .v2 4096 hbs
  obtain ⟨bmap, hrun, hexact⟩ := hall (fun _ => some (formatted .v2 4096)) smallDd none ['i'] _
    findImage_smallDd rfl hwf hindex
  obtain ⟨bmap', pid, hrun', hmarked⟩ :=
    @exists_usedBitmap (fun _ => some (formatted .v2 4096)) smallDd none ['i'] _
      findImage_smallDd rfl
      hwf hindex
  obtain rfl := Option.some.inj (hrun'.symm.trans hrun)
  have hroom := (hmarked.inside_iff (min_le_right _ _)).mp hexact.inside
  rw [formatted_layout hbs] at hroom
  exact absurd hroom (by simp [scanned, mapOffset])

end Ploop.Cbt
