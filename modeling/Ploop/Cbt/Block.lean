import Ploop.Cbt.Bitmap

/-!
# The extension block

What the loader finds in a block that the writer has filled.
-/

namespace Ploop.Cbt

open Storage Program

/-- The fields of a bitmap fit their places in the block. -/
structure DirtyBitmapRaw.Representable (raw : DirtyBitmapRaw ℕ) : Prop where
  mSize : raw.mSize < 2 ^ 64
  mGranularity : raw.mGranularity < 2 ^ 32
  mL1 : ∀ v ∈ raw.mL1, v < 2 ^ 64

/-- The bytes of the block up to the end of the table. -/
def usedBytes (n : ℕ) : ℕ := checkBytes + elementBytes + rawBytes + 8 * n

section Block

variable {md5 : List UInt8 → Sig} {bs : ℕ} {raw : DirtyBitmapRaw ℕ} {old : ℕ → UInt32}

theorem extBlock_of_ge {i : ℕ} (hi : 6 ≤ i) :
    extBlock md5 bs raw old i = elementWords raw old i := by
  obtain ⟨j, rfl⟩ := Nat.exists_eq_add_of_le' hi
  rfl

theorem elementWords_table (j : ℕ) : elementWords raw old (20 + j) =
    match raw.mL1[j / 2]? with
    | some v => if j % 2 = 0 then lo32 v else hi32 v
    | none => old (20 + j) := by
  rw [Nat.add_comm]
  rfl

/-- What lies past the table is what the buffer had. -/
theorem extBlock_tail {i : ℕ} (hi : 20 + 2 * raw.mL1.length ≤ i) :
    extBlock md5 bs raw old i = old i := by
  obtain ⟨j, rfl⟩ := Nat.exists_eq_add_of_le (Nat.le_of_add_right_le hi)
  rw [extBlock_of_ge (by omega), elementWords_table, List.getElem?_eq_none (by omega)]

variable {block : ℕ → UInt8}
  (hblock : ∀ i < bs, block i = wordBytes (extBlock md5 bs raw old) i)

include hblock

theorem rd32_block {i : ℕ} (hi : 4 * i + 4 ≤ bs) : rd32 block (4 * i) = extBlock md5 bs raw old i :=
  (rd32_congr fun j hj => hblock _ (by omega)).trans (rd32_wordBytes _ i)

theorem rd64_block {i : ℕ} (hi : 4 * i + 8 ≤ bs) : rd64 block (4 * i) =
    (extBlock md5 bs raw old i).toNat + 2 ^ 32 * (extBlock md5 bs raw old (i + 1)).toNat := by
  unfold rd64
  rw [rd32_block hblock (by omega), ← Nat.mul_succ, rd32_block hblock (by omega)]

/-- The checksum does not depend on itself. -/
theorem checksum_block : checksum md5 bs block =
    checksum md5 bs (wordBytes (elementWords raw old)) := by
  unfold checksum
  congr 1
  refine List.map_congr_left fun i hi => ?_
  have hlt := List.mem_range.mp hi
  rw [hblock _ (by omega)]
  unfold wordBytes
  rw [extBlock_of_ge (by simp only [checkBytes] at *; omega)]

theorem check_block (hbs : checkBytes ≤ bs) : rd64 block 0 = formatExtensionMagic ∧
    checksum md5 bs block = (rd32 block 8, rd32 block 12, rd32 block 16, rd32 block 20) := by
  unfold checkBytes at hbs
  constructor
  · have h := rd64_block hblock (i := 0) (by omega)
    rw [h]
    exact lo32_hi32 (by norm_num [formatExtensionMagic])
  · rw [checksum_block hblock, show 8 = 4 * 2 from rfl, show 12 = 4 * 3 from rfl,
      show 16 = 4 * 4 from rfl, show 20 = 4 * 5 from rfl, rd32_block hblock (by omega),
      rd32_block hblock (by omega), rd32_block hblock (by omega), rd32_block hblock (by omega)]
    rfl

theorem element_block (hbs : 44 ≤ bs) (hlen : rawBytes + 8 * raw.mL1.length < 2 ^ 32) :
    rd64 block checkBytes = extMagicDirtyBitmap ∧
      (rd32 block (checkBytes + 16)).toNat = rawBytes + 8 * raw.mL1.length := by
  constructor
  · rw [show checkBytes = 4 * 6 from rfl, rd64_block hblock (by omega)]
    exact lo32_hi32 (by norm_num [extMagicDirtyBitmap])
  · rw [show checkBytes + 16 = 4 * 10 from rfl, rd32_block hblock (by omega)]
    exact UInt32.toNat_ofNat_of_lt' hlen

/-- The bytes behind the table. -/
theorem tail_block {i : ℕ} (hi : usedBytes raw.mL1.length ≤ i) (hlt : i < bs) :
    block i = wordBytes old i := by
  rw [hblock i hlt, wordBytes, wordBytes, extBlock_tail]
  simp only [usedBytes, checkBytes, elementBytes, rawBytes] at hi
  omega

variable (hfit : usedBytes raw.mL1.length ≤ bs) (hbs : bs < 2 ^ 32)

include hfit hbs

theorem readRaw_block (hraw : raw.Representable) :
    readRaw block (checkBytes + elementBytes) = raw := by
  unfold usedBytes checkBytes elementBytes rawBytes at hfit
  have hlen : (rd32 block (checkBytes + elementBytes + 28)).toNat = raw.mL1.length := by
    rw [show checkBytes + elementBytes + 28 = 4 * 19 from rfl, rd32_block hblock (by omega)]
    exact UInt32.toNat_ofNat_of_lt' (by simp only [UInt32.size]; omega)
  have hsize : rd64 block (checkBytes + elementBytes) = raw.mSize := by
    rw [show checkBytes + elementBytes = 4 * 12 from rfl, rd64_block hblock (by omega)]
    exact lo32_hi32 hraw.mSize
  have hgran : (rd32 block (checkBytes + elementBytes + 24)).toNat = raw.mGranularity := by
    rw [show checkBytes + elementBytes + 24 = 4 * 18 from rfl, rd32_block hblock (by omega)]
    exact UInt32.toNat_ofNat_of_lt' hraw.mGranularity
  have hid : (rd32 block (checkBytes + elementBytes + 8),
      rd32 block (checkBytes + elementBytes + 12), rd32 block (checkBytes + elementBytes + 16),
      rd32 block (checkBytes + elementBytes + 20)) = raw.mId := by
    rw [show checkBytes + elementBytes + 8 = 4 * 14 from rfl,
      show checkBytes + elementBytes + 12 = 4 * 15 from rfl,
      show checkBytes + elementBytes + 16 = 4 * 16 from rfl,
      show checkBytes + elementBytes + 20 = 4 * 17 from rfl, rd32_block hblock (by omega),
      rd32_block hblock (by omega), rd32_block hblock (by omega), rd32_block hblock (by omega)]
    rfl
  have hl1 : (List.range raw.mL1.length).map
      (fun i => rd64 block (checkBytes + elementBytes + rawBytes + 8 * i)) = raw.mL1 := by
    refine List.ext_getElem (by simp) fun i h₁ h₂ => ?_
    rw [List.getElem_map, List.getElem_range,
      show checkBytes + elementBytes + rawBytes + 8 * i = 4 * (20 + 2 * i) by
        simp only [checkBytes, elementBytes, rawBytes]; omega,
      rd64_block hblock (by omega), extBlock_of_ge (by omega), extBlock_of_ge (by omega),
      elementWords_table, add_assoc 20, elementWords_table]
    have hlo : 2 * i / 2 = i := by omega
    have hhi : (2 * i + 1) / 2 = i := by omega
    have hodd : (2 * i + 1) % 2 = 1 := by omega
    simp only [hlo, hhi, hodd, List.getElem?_eq_getElem h₂, Nat.mul_mod_right, if_true,
      one_ne_zero, if_false]
    exact lo32_hi32 (hraw.mL1 _ (List.getElem_mem h₂))
  unfold readRaw
  rw [hlen, hsize, hgran, hid, hl1]

end Block

end Ploop.Cbt
