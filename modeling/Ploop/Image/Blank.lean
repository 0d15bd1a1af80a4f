import Ploop.Image.Held

/-!
# Images without a cluster

A header and zeros, as `do_create_delta` leaves them, and images of which only the header and
the table are given.
-/

namespace Ploop

open Storage Indirection

section Blank

variable {vh : PvdHeader} {f : File} {c n : ℕ}

theorem PvdHeader.toWords_of_ge {i : ℕ} (hi : 16 ≤ i) : vh.toWords i = 0 := by
  obtain ⟨k, rfl⟩ := Nat.exists_eq_add_of_le' hi
  rfl

/-- A file of `n` clusters with a header and zeros. -/
structure Blank (vh : PvdHeader) (c n : ℕ) (f : File) : Prop where
  size : f.size = n * (4 * c)
  word : ∀ i, f.word i = vh.toWords i

theorem blank_header (hc : 16 ≤ c) :
    Blank vh c 1 (File.empty.pwrite ⟨0, 4 * c, wordBytes vh.toWords⟩) := by
  have hsize : (File.empty.pwrite ⟨0, 4 * c, wordBytes vh.toWords⟩).size = 1 * (4 * c) := by
    rw [File.size_pwrite, if_neg (by simp only; omega)]
    simp [File.empty]
  refine ⟨hsize, fun i => ?_⟩
  by_cases hi : i < c
  · rw [File.word_pwrite_of_mem _ (o := 0) rfl (Nat.zero_le i) (by simp only; omega)]
    exact congrFun (bytesWord_wordBytes vh.toWords) i
  · rw [File.word_eof _ (by rw [hsize]; omega), PvdHeader.toWords_of_ge (by omega)]

theorem Blank.append (h : Blank vh c n f) (hc : 16 ≤ c) (hn : 0 < n) :
    Blank vh c (n + 1) (f.pwrite ⟨n * (4 * c), 4 * c, fun _ => 0⟩) := by
  have hle := Nat.mul_le_mul_right c hn
  have hmul : n * (4 * c) = 4 * (n * c) := by ring
  refine ⟨?_, fun i => ?_⟩
  · rw [File.size_pwrite, if_neg (by simp only; omega), h.size, Nat.succ_mul n (4 * c)]
    exact max_eq_right (Nat.le_add_right (n * (4 * c)) (4 * c))
  · by_cases hi : 4 * i + 4 ≤ n * (4 * c) ∨ n * (4 * c) + 4 * c ≤ 4 * i
    · rw [f.word_pwrite_of_not_mem hi, h.word]
    · rw [f.word_pwrite_of_mem (o := n * c) hmul (by omega) (by simp only; omega),
        PvdHeader.toWords_of_ge (by omega)]
      rfl

theorem Blank.fill {D : Disk} (h : Blank vh c 1 D.file) (hc : 16 ≤ c) (k : ℕ) :
    Blank vh c (k + 1) ((List.range k).foldl
      (fun D j => D.write ⟨(j + 1) * (4 * c), 4 * c, fun _ => 0⟩) D).file := by
  induction k with
  | zero => exact h
  | succ k ih =>
      rw [List.range_succ, List.foldl_append, List.foldl_cons, List.foldl_nil, Disk.file_write]
      exact ih.append hc (Nat.succ_pos k)

theorem Blank.hdr (h : Blank vh c n f) : f.hdr = vh :=
  PvdHeader.ofWords_congr (w := vh.toWords) fun i _ => h.word i

/-- A blank image is well formed and has no cluster. -/
theorem Blank.wellFormed (h : Blank vh c n f) (hvh : vh.Valid) :
    WellFormed f ∧ content f = fun _ => none := by
  have hentry : ∀ s, Layout.entry f s = 0 := fun s =>
    (h.word _).trans (PvdHeader.toWords_of_ge (Nat.le_add_left 16 s))
  have hbat : ∀ L : Layout, L.bat f = fun _ => none := by
    intro L
    funext clu
    unfold Layout.bat
    rw [if_neg fun hne => hne.2 (hentry clu)]
  have hzero : ∀ (bs : ℕ) (v : FmtVersion), ioffToSec 0 bs v = 0 := by
    intro bs v
    cases v <;> simp [ioffToSec]
  refine ⟨⟨h.hdr.symm ▸ hvh, ⟨?_, ?_, ?_, fun s _ _ => hentry s⟩⟩, ?_⟩
  · intro clu _
    rw [hentry clu, hzero]
    exact dvd_zero _
  · intro clu b hb
    rw [hbat] at hb
    exact absurd hb (Option.some_ne_none b).symm
  · intro clu clu' b hb
    rw [hbat] at hb
    exact absurd hb (Option.some_ne_none b).symm
  · funext clu
    exact read_of_none (congrFun (hbat _) clu)

end Blank

/-! ## Images with a given table -/

/-- A file of `size` bytes whose first `n` words are those of the header and the entries `e`. -/
def tabled (vh : PvdHeader) (e : ℕ → UInt32) (n size : ℕ) : File where
  size := size
  byte i := if i < 4 * n ∧ i < size then
    wordBytes (fun w => if w < mapOffset then vh.toWords w else e (w - mapOffset)) i else 0
  eof _ hi := if_neg fun h => absurd h.2 (Nat.not_lt.mpr hi)

section Tabled

variable {vh : PvdHeader} {e : ℕ → UInt32} {n size : ℕ}

theorem tabled_byte {i : ℕ} (hi : 4 * n ≤ i) : (tabled vh e n size).byte i = 0 :=
  if_neg fun h => absurd h.1 (Nat.not_lt.mpr hi)

theorem tabled_word (hsize : 4 * n ≤ size) {w : ℕ} (hw : w < n) :
    (tabled vh e n size).word w = if w < mapOffset then vh.toWords w else e (w - mapOffset) := by
  rw [← congrFun (bytesWord_wordBytes fun w => if w < mapOffset then vh.toWords w
    else e (w - mapOffset)) w]
  exact bytesWord_congr fun k hk => if_pos ⟨by omega, by omega⟩

theorem tabled_hdr (hn : 16 ≤ n) (hsize : 4 * n ≤ size) : (tabled vh e n size).hdr = vh :=
  PvdHeader.ofWords_congr fun i hi => (tabled_word hsize (by omega)).trans (if_pos hi)

theorem tabled_entry (hsize : 4 * n ≤ size) {s : ℕ} (hs : s + mapOffset < n) :
    Layout.entry (tabled vh e n size) s = e s := by
  rw [Layout.entry, tabled_word hsize hs, if_neg (Nat.not_lt.mpr (Nat.le_add_left _ _)),
    Nat.add_sub_cancel]

/-- Blocks of the file that are given to different clusters make a well formed image. -/
theorem tabled_wellFormed (hvh : vh.Valid) {T : ℕ → Option ℕ}
    (hsize : vh.layout.l1Size * vh.layout.cluster ≤ size) (hone : OneToOne T)
    (hT : ∀ clu b, T clu = some b → clu < vh.layout.l2Size ∧ vh.layout.l1Size ≤ b ∧
      vh.layout.Fits b ∧ b < size / vh.layout.cluster) :
    WellFormed (tabled vh (fun s => vh.layout.encodeSlot (T s))
        (vh.layout.l1Size * vh.layout.slots) size) ∧
      vh.layout.bat (tabled vh (fun s => vh.layout.encodeSlot (T s))
        (vh.layout.l1Size * vh.layout.slots) size) = T := by
  have hL := hvh.layout
  have hroom := hL.room
  have hwords : 4 * (vh.layout.l1Size * vh.layout.slots) ≤ size := by
    rwa [Layout.cluster_eq, Nat.mul_left_comm] at hsize
  have hhdr := @tabled_hdr vh (fun s => vh.layout.encodeSlot (T s)) _ _
    (le_trans (Nat.le_add_left _ _) hroom) hwords
  have hentry : ∀ s, s + mapOffset < vh.layout.l1Size * vh.layout.slots → Layout.entry
      (tabled vh (fun s => vh.layout.encodeSlot (T s)) (vh.layout.l1Size * vh.layout.slots) size) s
        = vh.layout.encodeSlot (T s) := fun s hs => tabled_entry hwords hs
  obtain ⟨hbat, htable⟩ := hL.tableOk_of_slots hentry hT hone
  exact ⟨⟨hhdr.symm ▸ hvh, hhdr.symm ▸ htable⟩, hbat⟩

end Tabled

/-- Cluster 0 is in block 2, cluster 5 in block 1. -/
def crossed : ℕ → Option ℕ := fun clu =>
  if clu = 0 then some 2 else if clu = 5 then some 1 else none

theorem crossed_eq_some {clu b : ℕ} (h : crossed clu = some b) :
    clu = 0 ∧ b = 2 ∨ clu = 5 ∧ b = 1 := by
  unfold crossed at h
  split at h
  case isTrue hclu => exact .inl ⟨hclu, (Option.some.inj h).symm⟩
  case isFalse =>
    split at h
    case isTrue hclu => exact .inr ⟨hclu, (Option.some.inj h).symm⟩
    case isFalse => exact absurd h nofun

def crossedHeader (version : FmtVersion) : PvdHeader :=
  (generatePvdHeader PvdHeader.zero (2 ^ 17) 64 version).1

/-- 64 MB with these two clusters. -/
def crossedImage (version : FmtVersion) : File :=
  tabled (crossedHeader version)
    (fun s => (crossedHeader version).layout.encodeSlot (crossed s))
    ((crossedHeader version).layout.l1Size * (crossedHeader version).layout.slots) (3 * 32768)

theorem crossedImage_hdr (version : FmtVersion) :
    (crossedImage version).hdr = crossedHeader version := by
  cases version <;> exact tabled_hdr (by decide) (by decide)

theorem crossedImage_entry (version : FmtVersion) {k : ℕ} (hk : k < 8176) :
    Layout.entry (crossedImage version) k =
      (crossedHeader version).layout.encodeSlot (crossed k) := by
  have hwords : (crossedHeader version).layout.l1Size * (crossedHeader version).layout.slots =
      8192 := by
    cases version <;> decide
  refine tabled_entry (by rw [hwords]; decide) ?_
  rw [hwords]
  simp only [mapOffset]
  omega

theorem crossedImage_spec (version : FmtVersion) : WellFormed (crossedImage version) ∧
    (crossedHeader version).layout.bat (crossedImage version) = crossed := by
  have hvalid : (crossedHeader version).Valid := by
    cases version <;> exact ⟨by decide, rfl, by decide, ⟨by decide, by decide⟩⟩
  refine tabled_wellFormed hvalid (by cases version <;> decide) ?_ ?_
  · intro clu clu' b hb hb'
    rcases crossed_eq_some hb with ⟨rfl, rfl⟩ | ⟨rfl, rfl⟩ <;>
      rcases crossed_eq_some hb' with ⟨rfl, h⟩ | ⟨rfl, h⟩ <;>
        first | rfl | exact absurd h (by decide)
  · intro clu b hb
    rcases crossed_eq_some hb with ⟨rfl, rfl⟩ | ⟨rfl, rfl⟩ <;> cases version <;> decide

theorem crossedImage_wellFormed (version : FmtVersion) : WellFormed (crossedImage version) :=
  (crossedImage_spec version).1

/-! ## An empty image of every format -/

/-- 64 MB without a cluster. -/
def formatted (version : FmtVersion) (blocksize : ℕ) : File :=
  File.empty.pwrite ⟨0, s2b blocksize,
    wordBytes (generatePvdHeader PvdHeader.zero (2 ^ 17) blocksize version).1.toWords⟩

section Formatted

variable {version : FmtVersion} {blocksize : ℕ} (hbs : isValidBlocksize blocksize)

include hbs

theorem formatted_generated :
    (generatePvdHeader PvdHeader.zero (2 ^ 17) blocksize version).1.GeneratedFor version blocksize
      (2 ^ 17) := by
  have hpos := hbs.pos
  refine generatePvdHeader_generatedFor hbs ?_ ?_
  · unfold Representable
    have := Nat.div_le_self (2 ^ 17) blocksize
    cases version <;> simp only <;> omega
  · obtain ⟨k, -, hk, rfl⟩ := isValidBlocksize_iff.mp hbs
    exact Nat.pow_dvd_pow 2 (by omega)

theorem formatted_index : indexBytes (2 ^ 17 / blocksize) blocksize = s2b blocksize := by
  have hmin := hbs.1
  have hle : 2 ^ 17 / blocksize ≤ 2 ^ 11 := Nat.div_le_of_le_mul (by omega)
  have hcluster : 64 * 512 ≤ s2b blocksize := Nat.mul_le_mul_right _ hmin
  unfold indexBytes alignUp
  rw [Nat.div_eq_of_lt_le (k := 1) (by simp only [headerBytes]; omega)
    (by simp only [headerBytes]; omega), Nat.one_mul]

theorem formatted_fits : IndexFits (2 ^ 17) blocksize := by
  have hle := hbs.le
  unfold IndexFits
  rw [formatted_index hbs]
  simp only [s2b]
  omega

theorem formatted_blank : Blank (generatePvdHeader PvdHeader.zero (2 ^ 17) blocksize version).1
    (blocksize * 128) 1 (formatted version blocksize) := by
  have hmin := hbs.1
  have hcluster : s2b blocksize = 4 * (blocksize * 128) := by
    simp only [s2b]
    omega
  unfold formatted
  rw [hcluster]
  exact blank_header (by omega)

theorem formatted_layout :
    (formatted version blocksize).hdr.layout = ⟨version, blocksize, 1, 2 ^ 17 / blocksize⟩ := by
  have hpos := hbs.pos
  rw [(formatted_blank hbs).hdr, (formatted_generated hbs).layout_eq (formatted_fits hbs)]
  unfold newLayout
  rw [formatted_index hbs, Nat.div_self (by simp only [s2b]; omega)]

theorem formatted_size : (formatted version blocksize).size = s2b blocksize := by
  rw [(formatted_blank hbs).size]
  simp only [s2b]
  omega

theorem formatted_wellFormed : WellFormed (formatted version blocksize) :=
  ((formatted_blank hbs).wellFormed
    ((formatted_generated hbs).valid hbs (formatted_fits hbs))).1

/-- The index is all there is. -/
theorem formatted_index_le : (formatted version blocksize).hdr.layout.l1Size *
    (formatted version blocksize).hdr.layout.cluster ≤ (formatted version blocksize).size := by
  rw [formatted_layout hbs, formatted_size hbs, Layout.cluster, Nat.one_mul]

end Formatted

end Ploop
