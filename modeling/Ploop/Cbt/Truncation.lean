import Ploop.Cbt.Removal

/-!
# Cutting off the blocks of an extension

The loop of `truncate_ext_blocks` looks for the last block of the file in the list, takes it out
and makes the file shorter. When it has come to the start of the file, `size - block_size` is an
offset just below `2 ^ 64`, and a list with that offset sends it around.
-/

namespace Ploop.Cbt

open Storage Program

/-! ## The loop -/

/-- `size - block_size` -/
def lastOffset (bs size : ℕ) : ℕ := u64 (2 ^ 64 + size - bs)

/-- The loop of `truncate_ext_blocks`, from a list and a size to the size it stops with. -/
inductive CutLoop (bs : ℕ) : List ℕ → ℕ → ℕ → Prop
  | stop {blocks : List ℕ} {size : ℕ} : lastOffset bs size ∉ blocks →
      CutLoop bs blocks size size
  | cut {blocks : List ℕ} {size size' : ℕ} : lastOffset bs size ∈ blocks →
      CutLoop bs (blocks.erase (lastOffset bs size)) (lastOffset bs size) size' →
      CutLoop bs blocks size size'

theorem lastOffset_succ {bs m : ℕ} (h : (m + 1) * bs ≤ 2 ^ 64) (hbs : 0 < bs) :
    lastOffset bs ((m + 1) * bs) = m * bs := by
  have hm : (m + 1) * bs = m * bs + bs := Nat.succ_mul m bs
  rw [lastOffset, u64]
  omega

theorem lastOffset_zero {bs n : ℕ} (hn : n * bs = 2 ^ 64) (hbs : 0 < bs) :
    lastOffset bs 0 = (n - 1) * bs := by
  have hle : bs ≤ n * bs := Nat.le_mul_of_pos_left bs (by
    apply Nat.pos_of_ne_zero
    rintro rfl
    simp at hn)
  rw [lastOffset, u64, Nat.sub_one_mul]
  omega

/-- `cutBlocks` with an entry of the list for each round. -/
def cut (bs : ℕ) (blocks : List ℕ) (size : ℕ) : ℕ := cutBlocks bs blocks.length blocks size

section Loop

variable {bs size : ℕ} {blocks : List ℕ}

theorem cut_stop (h : lastOffset bs size ∉ blocks) : cut bs blocks size = size := by
  rw [cut]
  cases blocks with
  | nil => rfl
  | cons x xs => exact if_neg h

theorem cut_mem (h : lastOffset bs size ∈ blocks) :
    cut bs blocks size =
      cut bs (blocks.erase (lastOffset bs size)) (lastOffset bs size) := by
  rw [cut, cut, List.length_erase_of_mem h]
  cases blocks with
  | nil => exact absurd h List.not_mem_nil
  | cons x xs => exact if_pos h

/-- The next round depends on the last block only. -/
theorem cut_congr {size' : ℕ} (hlast : lastOffset bs size = lastOffset bs size')
    (h : lastOffset bs size ∈ blocks) : cut bs blocks size = cut bs blocks size' := by
  rw [cut_mem h, hlast, ← cut_mem (hlast ▸ h)]

/-- Every round takes out an entry, so the loop ends. -/
theorem cut_loop (bs : ℕ) (blocks : List ℕ) (size : ℕ) :
    CutLoop bs blocks size (cut bs blocks size) := by
  induction hn : blocks.length generalizing blocks size with
  | zero =>
      obtain rfl := List.eq_nil_of_length_eq_zero hn
      exact .stop List.not_mem_nil
  | succ n ih =>
      by_cases h : lastOffset bs size ∈ blocks
      · rw [cut_mem h]
        apply CutLoop.cut h
        apply ih
        rw [List.length_erase_of_mem h, hn]
        rfl
      · rw [cut_stop h]
        exact .stop h

/-- Whole blocks stay whole, around the end of the offsets, too. -/
theorem CutLoop.dvd {size' : ℕ} (h : CutLoop bs blocks size size') (h64 : bs ∣ 2 ^ 64)
    (hdvd : bs ∣ size) : bs ∣ size' := by
  induction h with
  | stop _ => exact hdvd
  | cut _ _ ih =>
      apply ih
      apply (Nat.dvd_mod_iff h64).mpr
      exact Nat.dvd_sub (Nat.dvd_add h64 hdvd) dvd_rfl

end Loop

/-! ## Down to the start of the file -/

theorem count_erase_add {a : ℕ} {l : List ℕ} (h : a ∈ l) (x : ℕ) :
    (l.erase a).count x + (if x = a then 1 else 0) = l.count x := by
  by_cases hx : x = a
  · subst hx
    rw [if_pos rfl, List.count_erase_self]
    exact Nat.sub_add_cancel (List.one_le_count_iff.mpr h)
  · rw [if_neg hx, List.count_erase_of_ne hx, Nat.add_zero]

section Down

variable {bs m : ℕ} {blocks : List ℕ}

/-- It stops above the last block that is not in the list. -/
theorem cut_missing (hbs : 0 < bs) (hm : m * bs ≤ 2 ^ 64) {p : ℕ} (hp : p < m)
    (hmiss : p * bs ∉ blocks) (hall : ∀ i, p < i → i < m → i * bs ∈ blocks) :
    cut bs blocks (m * bs) = (p + 1) * bs := by
  induction m generalizing blocks with
  | zero => exact absurd hp (Nat.not_lt_zero p)
  | succ m ih =>
      have hlast := lastOffset_succ hm hbs
      rcases Nat.lt_succ_iff_lt_or_eq.mp hp with hlt | rfl
      · have hmem : lastOffset bs ((m + 1) * bs) ∈ blocks := by
          rw [hlast]
          exact hall m hlt (Nat.lt_succ_self m)
        rw [cut_mem hmem, hlast]
        apply ih (le_trans (Nat.mul_le_mul_right bs (Nat.le_succ m)) hm) hlt
        · intro h
          exact hmiss (List.mem_of_mem_erase h)
        · intro i h₁ h₂
          have hne : i * bs ≠ m * bs := fun h => h₂.ne (Nat.eq_of_mul_eq_mul_right hbs h)
          exact (List.mem_erase_of_ne hne).mpr (hall i h₁ (h₂.trans (Nat.lt_succ_self m)))
      · rw [cut_stop]
        rw [hlast]
        exact hmiss

/-- With all blocks in the list it comes to the start, and each block has been taken out once. -/
theorem cut_all (hbs : 0 < bs) (hm : m * bs ≤ 2 ^ 64) (hall : ∀ i, i < m → i * bs ∈ blocks) :
    ∃ rest : List ℕ, cut bs blocks (m * bs) = cut bs rest 0 ∧
      ∀ i, rest.count (i * bs) + (if i < m then 1 else 0) = blocks.count (i * bs) := by
  induction m generalizing blocks with
  | zero =>
      refine ⟨blocks, by rw [Nat.zero_mul], ?_⟩
      intro i
      rw [if_neg (Nat.not_lt_zero i), Nat.add_zero]
  | succ m ih =>
      have hlast := lastOffset_succ hm hbs
      have hmem : m * bs ∈ blocks := hall m (Nat.lt_succ_self m)
      have hne (i : ℕ) (h : i ≠ m) : i * bs ≠ m * bs :=
        fun heq => h (Nat.eq_of_mul_eq_mul_right hbs heq)
      obtain ⟨rest, hcut, hcount⟩ := @ih (blocks.erase (m * bs))
        (le_trans (Nat.mul_le_mul_right bs (Nat.le_succ m)) hm) (by
          intro i hi
          exact (List.mem_erase_of_ne (hne i hi.ne)).mpr (hall i (hi.trans (Nat.lt_succ_self m))))
      refine ⟨rest, ?_, ?_⟩
      · rw [cut_mem (by rw [hlast]; exact hmem), hlast]
        exact hcut
      · intro i
        rw [← count_erase_add hmem, ← hcount i, Nat.add_assoc]
        congr 1
        by_cases hi : i = m
        · subst hi
          simp
        · rw [if_neg (hne i hi), Nat.add_zero]
          split <;> split <;> omega

/-- Either some block is not in the list, and there is a last one, or all are. -/
theorem missing_or_all (P : ℕ → Prop) (m : ℕ) :
    (∃ p, p < m ∧ ¬ P p ∧ ∀ i, p < i → i < m → P i) ∨ ∀ i, i < m → P i := by
  induction m with
  | zero =>
      right
      intro i hi
      exact absurd hi (Nat.not_lt_zero i)
  | succ m ih =>
      by_cases hm : P m
      · rcases ih with ⟨p, hp, hmiss, hall⟩ | hall
        · left
          refine ⟨p, hp.trans (Nat.lt_succ_self m), hmiss, ?_⟩
          intro i h₁ h₂
          rcases Nat.lt_succ_iff_lt_or_eq.mp h₂ with h | rfl
          · exact hall i h₁ h
          · exact hm
        · right
          intro i hi
          rcases Nat.lt_succ_iff_lt_or_eq.mp hi with h | rfl
          · exact hall i h
          · exact hm
      · left
        refine ⟨m, Nat.lt_succ_self m, hm, ?_⟩
        intro i h₁ h₂
        omega

end Down

/-! ## From the start of the file -/

/-- At the start of the file it ends there only if every other block can be taken out as often as
the highest one. -/
theorem cut_zero_iff {bs n : ℕ} (hbs : 0 < bs) (hn : n * bs = 2 ^ 64) (blocks : List ℕ) :
    cut bs blocks 0 = 0 ↔
      ∀ i, i < n → blocks.count ((n - 1) * bs) ≤ blocks.count (i * bs) := by
  have hpos : 0 < n := by
    apply Nat.pos_of_ne_zero
    rintro rfl
    simp at hn
  have hlast := lastOffset_zero hn hbs
  induction hc : blocks.count ((n - 1) * bs) generalizing blocks with
  | zero =>
      rw [cut_stop]
      · simp
      · rw [hlast]
        exact List.count_eq_zero.mp hc
  | succ c ih =>
      have hmem : (n - 1) * bs ∈ blocks := List.count_pos_iff.mp (by omega)
      rcases missing_or_all (fun i => i * bs ∈ blocks) n with ⟨p, hp, hmiss, hall⟩ | hall
      · have hne : p ≠ n - 1 := by
          rintro rfl
          exact hmiss hmem
        constructor
        · intro h
          rw [cut_mem (by rw [hlast]; exact hmem), hlast,
            cut_missing hbs (hn ▸ Nat.mul_le_mul_right bs (Nat.sub_le n 1))
              (p := p) (by omega)] at h
          · exact absurd h (Nat.mul_pos (Nat.succ_pos p) hbs).ne'
          · intro h'
            exact hmiss (List.mem_of_mem_erase h')
          · intro i h₁ h₂
            apply (List.mem_erase_of_ne _).mpr (hall i h₁ (by omega))
            intro heq
            exact h₂.ne (Nat.eq_of_mul_eq_mul_right hbs heq)
        · intro h
          have hle := h p hp
          rw [List.count_eq_zero.mpr hmiss] at hle
          omega
      · have htop : (n - 1 + 1) * bs = n * bs := by rw [Nat.sub_add_cancel hpos]
        obtain ⟨rest, hcut, hcount⟩ := @cut_all bs n blocks hbs hn.le hall
        have htop' : lastOffset bs (n * bs) = (n - 1) * bs := by
          rw [← htop]
          exact lastOffset_succ (by rw [htop, hn]) hbs
        have hstart : cut bs blocks (n * bs) = cut bs blocks 0 :=
          cut_congr (htop'.trans hlast.symm) (by rw [htop']; exact hmem)
        have hc' : rest.count ((n - 1) * bs) = c := by
          have := hcount (n - 1)
          rw [if_pos (by omega)] at this
          omega
        rw [← hstart, hcut]
        apply (ih rest hc').trans
        constructor
        · intro h i hi
          have hle := h i hi
          have := hcount i
          rw [if_pos hi] at this
          omega
        · intro h i hi
          have hle := h i hi
          have := hcount i
          rw [if_pos hi] at this
          omega

/-! ## The file -/

/-- Whole blocks at the end are cut off, all of them in the list. -/
structure CutsListed (bs : ℕ) (blocks : List ℕ) (f g : File) : Prop where
  le : g.size ≤ f.size
  whole : bs ∣ g.size
  kept : ∀ i, i < g.size → g.byte i = f.byte i
  listed : ∀ off, bs ∣ off → g.size ≤ off → off < f.size → off ∈ blocks

/-- What `truncate_ext_blocks` is to do: it cuts as far as the first block that is not in the
list. -/
structure CutsTrailing (bs : ℕ) (blocks : List ℕ) (f g : File) : Prop
    extends CutsListed bs blocks f g where
  stops : ∀ off, off + bs = g.size → off ∉ blocks

/-- The offset below `2 ^ 64` does not send the loop around, or it comes back to the start. -/
def EndsInFile (bs : ℕ) (blocks : List ℕ) (size : ℕ) : Prop :=
  size = 0 ∨ (∃ off, bs ∣ off ∧ off < size ∧ off ∉ blocks) ∨
    ∀ off, bs ∣ off → off < 2 ^ 64 →
      blocks.count (2 ^ 64 - bs) + (if off < size then 1 else 0) ≤ blocks.count off

/-- The size the file is left with. -/
def cutSize (bs : ℕ) (blocks : List ℕ) (size : ℕ) : ℕ := min (cut bs blocks size) size

section Size

variable {bs k : ℕ} {blocks : List ℕ}

/-- A block of the file is missing. -/
theorem cutSize_missing (hbs : 0 < bs) (hk : k * bs ≤ 2 ^ 64) {p : ℕ} (hp : p < k)
    (hmiss : p * bs ∉ blocks) (hall : ∀ i, p < i → i < k → i * bs ∈ blocks) :
    cutSize bs blocks (k * bs) = (p + 1) * bs := by
  rw [cutSize, cut_missing hbs hk hp hmiss hall]
  exact min_eq_left (Nat.mul_le_mul_right bs hp)

/-- Every block of the file is in the list. -/
theorem cutSize_all (hbs : 0 < bs) (hdvd : bs ∣ 2 ^ 64) (hk : k * bs < 2 ^ 64) (hpos : 0 < k)
    (hall : ∀ i, i < k → i * bs ∈ blocks) :
    cutSize bs blocks (k * bs) = 0 ↔ ∀ off, bs ∣ off → off < 2 ^ 64 →
      blocks.count (2 ^ 64 - bs) + (if off < k * bs then 1 else 0) ≤ blocks.count off := by
  obtain ⟨n, hn⟩ := hdvd
  rw [Nat.mul_comm] at hn
  obtain ⟨rest, hcut, hcount⟩ := cut_all hbs hk.le hall
  have hkn : k < n := lt_of_mul_lt_mul_right (hn ▸ hk) bs.zero_le
  have htop : (n - 1) * bs = 2 ^ 64 - bs := by rw [Nat.sub_one_mul, hn]
  have hrest : rest.count (2 ^ 64 - bs) = blocks.count (2 ^ 64 - bs) := by
    have := hcount (n - 1)
    rw [if_neg (by omega), htop] at this
    exact this
  have hzero : cutSize bs blocks (k * bs) = 0 ↔ cut bs rest 0 = 0 := by
    have hsize : 0 < k * bs := Nat.mul_pos hpos hbs
    rw [cutSize, hcut]
    omega
  rw [hzero, cut_zero_iff hbs hn.symm, htop, hrest]
  constructor
  · rintro h off ⟨i, rfl⟩ hoff
    rw [Nat.mul_comm bs i] at hoff ⊢
    have hle := h i (lt_of_mul_lt_mul_right (hn ▸ hoff) bs.zero_le)
    have hlt : i * bs < k * bs ↔ i < k := Nat.mul_lt_mul_right hbs
    rw [← hcount i]
    simp only [hlt]
    omega
  · intro h i hi
    have hoff : i * bs < 2 ^ 64 := hn ▸ Nat.mul_lt_mul_of_pos_right hi hbs
    have hle := h (i * bs) (Nat.dvd_mul_left bs i) hoff
    have hlt : i * bs < k * bs ↔ i < k := Nat.mul_lt_mul_right hbs
    rw [← hcount i] at hle
    simp only [hlt] at hle
    omega

end Size

section Blocks

variable {bs : ℕ} {blocks : List ℕ} {f g : File}

/-- Whether the end of the file is listed or not, what is cut off is. -/
theorem cutSize_listed (hbs : 0 < bs) (h64 : bs ∣ 2 ^ 64) (hdvd : bs ∣ f.size)
    (hlt : f.size < 2 ^ 64) (hsize : g.size = cutSize bs blocks f.size)
    (hkept : ∀ i, i < g.size → g.byte i = f.byte i) : CutsListed bs blocks f g := by
  have hle : g.size ≤ f.size := hsize ▸ min_le_right _ _
  have hwhole : bs ∣ g.size := by
    rw [hsize, cutSize]
    rcases min_choice (cut bs blocks f.size) f.size with h | h
    · rw [h]
      exact (cut_loop bs blocks f.size).dvd h64 hdvd
    · rw [h]
      exact hdvd
  refine ⟨hle, hwhole, hkept, ?_⟩
  rintro off ⟨i, rfl⟩ h₁ h₂
  obtain ⟨k, hk⟩ := hdvd
  rw [Nat.mul_comm] at hk
  rw [hk] at hlt hsize h₂
  rw [Nat.mul_comm bs i] at h₁ h₂ ⊢
  have hi : i < k := lt_of_mul_lt_mul_right h₂ bs.zero_le
  rcases missing_or_all (fun i => i * bs ∈ blocks) k with ⟨p, hp, hmiss, hall⟩ | hall
  · rw [cutSize_missing hbs hlt.le hp hmiss hall] at hsize
    rw [hsize] at h₁
    exact hall i (Nat.le_of_mul_le_mul_right h₁ hbs) hi
  · exact hall i hi

theorem cutSize_iff (hbs : 0 < bs) (h64 : bs ∣ 2 ^ 64) (hdvd : bs ∣ f.size)
    (hlt : f.size < 2 ^ 64) (hsize : g.size = cutSize bs blocks f.size)
    (hkept : ∀ i, i < g.size → g.byte i = f.byte i) :
    CutsTrailing bs blocks f g ↔ EndsInFile bs blocks f.size := by
  have hlisted := cutSize_listed hbs h64 hdvd hlt hsize hkept
  obtain ⟨k, hk⟩ := hdvd
  rw [Nat.mul_comm] at hk
  rw [hk] at hlt hsize
  rcases missing_or_all (fun i => i * bs ∈ blocks) k with ⟨p, hp, hmiss, hall⟩ | hall
  · rw [cutSize_missing hbs hlt.le hp hmiss hall] at hsize
    apply iff_of_true
    · refine ⟨hlisted, ?_⟩
      intro off hoff
      have : off = p * bs := by
        rw [hsize, Nat.succ_mul] at hoff
        omega
      rw [this]
      exact hmiss
    · right
      left
      exact ⟨p * bs, Nat.dvd_mul_left _ _, hk ▸ Nat.mul_lt_mul_of_pos_right hp hbs, hmiss⟩
  · have hmem : ∀ off, bs ∣ off → off < f.size → off ∈ blocks := by
      rintro off ⟨i, rfl⟩ hoff
      rw [Nat.mul_comm bs i] at hoff ⊢
      rw [hk] at hoff
      exact hall i (lt_of_mul_lt_mul_right hoff bs.zero_le)
    have hzero : CutsTrailing bs blocks f g ↔ g.size = 0 := by
      constructor
      · intro h
        by_contra hne
        have hge : bs ≤ g.size := Nat.le_of_dvd (Nat.pos_of_ne_zero hne) h.whole
        apply h.stops (g.size - bs) (Nat.sub_add_cancel hge)
        apply hmem _ (Nat.dvd_sub h.whole dvd_rfl)
        have := h.le
        omega
      · intro h
        refine ⟨hlisted, ?_⟩
        intro off hoff
        omega
    rw [hzero, hsize]
    rcases Nat.eq_zero_or_pos k with rfl | hpos
    · rw [Nat.zero_mul] at hk ⊢
      apply iff_of_true
      · exact Nat.min_zero _
      · exact .inl hk
    · rw [cutSize_all hbs h64 hlt hpos hall, EndsInFile, hk]
      have hne : ¬ k * bs = 0 := (Nat.mul_pos hpos hbs).ne'
      have hno : ¬ ∃ off, bs ∣ off ∧ off < k * bs ∧ off ∉ blocks := by
        rintro ⟨off, hoff, h₁, h₂⟩
        exact h₂ (hmem off hoff (hk ▸ h₁))
      rw [or_iff_right hne, or_iff_right hno]

end Blocks

theorem truncateExtBlocks_run {bs : ℕ} (ctx : ExtContext) (d : Delta) (hdvd : bs ∣ d.file.size) :
    ∃ d', truncateExtBlocks ctx bs d = .ok { ctx with extBlocks := [] } d' ∧
      d'.file.size = cutSize bs ctx.extBlocks d.file.size ∧
      ∀ i, i < d'.file.size → d'.file.byte i = d.file.byte i := by
  have hmod : ¬ d.file.size % bs ≠ 0 := not_not.mpr (Nat.mod_eq_zero_of_dvd hdvd)
  have hrun : truncateExtBlocks ctx bs d =
      if cut bs ctx.extBlocks d.file.size < d.file.size then
        .ok { ctx with extBlocks := [] }
          { d with disk := Disk.new (d.file.ftruncate (cut bs ctx.extBlocks d.file.size)) }
      else .ok { ctx with extBlocks := [] } d := by
    rw [truncateExtBlocks, get_bind_run, if_neg hmod]
    by_cases hlt : cut bs ctx.extBlocks d.file.size < d.file.size
    · rw [if_pos hlt]
      exact congrFun (if_pos hlt) d
    · rw [if_neg hlt]
      exact congrFun (if_neg hlt) d
  rw [hrun]
  by_cases hlt : cut bs ctx.extBlocks d.file.size < d.file.size
  · rw [if_pos hlt]
    refine ⟨_, rfl, ?_, ?_⟩
    · exact (min_eq_left hlt.le).symm
    · intro i hi
      exact File.byte_ftruncate_of_lt _ hi
  · rw [if_neg hlt]
    refine ⟨d, rfl, ?_, ?_⟩
    · exact (min_eq_right (not_lt.mp hlt)).symm
    · intro i _
      rfl

/-- The loop ends, and what it cuts off is in the list. It goes as far as it is to go unless the
whole file and the offset below `2 ^ 64` are in the list. -/
theorem truncateExtBlocks_iff {blocksize : ℕ} (hbs : isValidBlocksize blocksize) (ctx : ExtContext)
    (d : Delta) (hdvd : s2b blocksize ∣ d.file.size) (hlt : d.file.size < 2 ^ 63) :
    CutLoop (s2b blocksize) ctx.extBlocks d.file.size
        (cutBlocks (s2b blocksize) ctx.extBlocks.length ctx.extBlocks d.file.size) ∧
      (∃ d', truncateExtBlocks ctx (s2b blocksize) d = .ok { ctx with extBlocks := [] } d' ∧
        CutsListed (s2b blocksize) ctx.extBlocks d.file d'.file) ∧
      ((∃ d', truncateExtBlocks ctx (s2b blocksize) d = .ok { ctx with extBlocks := [] } d' ∧
        CutsTrailing (s2b blocksize) ctx.extBlocks d.file d'.file) ↔
      EndsInFile (s2b blocksize) ctx.extBlocks d.file.size) := by
  have hpos : 0 < s2b blocksize := Nat.mul_pos hbs.pos (by norm_num)
  have h64 : s2b blocksize ∣ 2 ^ 64 := hbs.s2b_dvd.trans (by norm_num)
  have hlt' : d.file.size < 2 ^ 64 := hlt.trans (by norm_num)
  obtain ⟨d', hrun, hsize, hkept⟩ := truncateExtBlocks_run ctx d hdvd
  have hiff := cutSize_iff hpos h64 hdvd hlt' hsize hkept
  refine ⟨cut_loop _ _ _, ⟨d', hrun, cutSize_listed hpos h64 hdvd hlt' hsize hkept⟩, ?_, ?_⟩
  · rintro ⟨e, he, hcuts⟩
    rw [hrun] at he
    cases he
    exact hiff.mp hcuts
  · intro h
    exact ⟨d', hrun, hiff.mpr h⟩

/-- A file of one block. -/
def oneBlock : Delta :=
  { emptyImage 640 with disk := Disk.new (File.empty.ftruncate 32768) }

theorem oneBlock_size : oneBlock.file.size = 32768 := rfl

theorem eq_zero_of_lt_block {off : ℕ} (hdvd : 32768 ∣ off) (h : off < 32768) : off = 0 :=
  Nat.eq_zero_of_dvd_of_lt hdvd h

theorem truncateExtBlocks_iff_oneBlock : ∃ d',
    truncateExtBlocks ⟨[0], none⟩ (s2b 64) oneBlock = .ok ⟨[], none⟩ d' ∧
      CutsTrailing (s2b 64) [0] oneBlock.file d'.file := by
  apply (@truncateExtBlocks_iff 64 (by decide) ⟨[0], none⟩ oneBlock
    (by rw [oneBlock_size]; decide) (by rw [oneBlock_size]; norm_num)).2.2.mpr
  right
  right
  intro off hdvd _
  have htop : [0].count (2 ^ 64 - s2b 64) = 0 := by decide
  rw [htop, oneBlock_size]
  by_cases hlt : off < 32768
  · rw [eq_zero_of_lt_block hdvd hlt]
    decide
  · rw [if_neg hlt]
    exact Nat.zero_le _

/-- The block stays with the offset below `2 ^ 64` in the list, too. -/
theorem cuts_around : ¬ ∀ (blocksize : ℕ) (ctx : ExtContext) (d : Delta),
    isValidBlocksize blocksize → s2b blocksize ∣ d.file.size → d.file.size < 2 ^ 63 →
      ∃ d', truncateExtBlocks ctx (s2b blocksize) d = .ok { ctx with extBlocks := [] } d' ∧
        CutsTrailing (s2b blocksize) ctx.extBlocks d.file d'.file := by
  intro hall
  have hdvd : s2b 64 ∣ oneBlock.file.size := by
    rw [oneBlock_size]
    decide
  obtain ⟨e, he, hcuts⟩ := hall 64 ⟨[0, 2 ^ 64 - 32768], none⟩ oneBlock (by decide) hdvd
    (by rw [oneBlock_size]; norm_num)
  obtain ⟨d', hrun, hsize, hkept⟩ :=
    truncateExtBlocks_run ⟨[0, 2 ^ 64 - 32768], none⟩ oneBlock hdvd
  rw [hrun] at he
  cases he
  rcases (cutSize_iff (by decide) (by decide) hdvd (by rw [oneBlock_size]; norm_num) hsize
    hkept).mp hcuts with h | ⟨off, hoff, hlt, hmiss⟩ | h
  · rw [oneBlock_size] at h
    omega
  · rw [oneBlock_size] at hlt
    rw [eq_zero_of_lt_block hoff hlt] at hmiss
    exact hmiss List.mem_cons_self
  · have hzero := h 0 (dvd_zero _) (by norm_num)
    rw [oneBlock_size] at hzero
    exact absurd hzero (by decide)

end Ploop.Cbt
