import Ploop.Lib.ByteFile

/-!
# Memory buffers

Little-endian words at any place of a buffer of bytes, and bitmaps packed
eight bits to the byte.
-/

namespace Storage

/-- The 32-bit word at byte `off`. -/
def rd32 (m : ℕ → UInt8) (off : ℕ) : UInt32 :=
  le32 (m off) (m (off + 1)) (m (off + 2)) (m (off + 3))

/-- The 64-bit word at byte `off`. -/
def rd64 (m : ℕ → UInt8) (off : ℕ) : ℕ := (rd32 m off).toNat + 2 ^ 32 * (rd32 m (off + 4)).toNat

theorem rd32_congr {m m' : ℕ → UInt8} {off : ℕ} (h : ∀ i < 4, m (off + i) = m' (off + i)) :
    rd32 m off = rd32 m' off := by
  have h₀ := h 0 (by omega)
  rw [Nat.add_zero] at h₀
  simp only [rd32, h₀, h 1 (by omega), h 2 (by omega), h 3 (by omega)]

theorem rd64_congr {m m' : ℕ → UInt8} {off : ℕ} (h : ∀ i < 8, m (off + i) = m' (off + i)) :
    rd64 m off = rd64 m' off := by
  have hlo : rd32 m off = rd32 m' off := rd32_congr fun i hi => h i (by omega)
  have hhi : rd32 m (off + 4) = rd32 m' (off + 4) := rd32_congr fun i hi => by
    simpa only [add_assoc] using h (4 + i) (by omega)
  simp only [rd64, hlo, hhi]

/-- A word of a buffer that was filled by words. -/
theorem rd32_wordBytes (src : ℕ → UInt32) (i : ℕ) : rd32 (wordBytes src) (4 * i) = src i :=
  congrFun (bytesWord_wordBytes src) i

def lo32 (v : ℕ) : UInt32 := UInt32.ofNat v

def hi32 (v : ℕ) : UInt32 := UInt32.ofNat (v / 2 ^ 32)

theorem lo32_hi32 {v : ℕ} (hv : v < 2 ^ 64) : (lo32 v).toNat + 2 ^ 32 * (hi32 v).toNat = v := by
  simp only [lo32, hi32, UInt32.toNat_ofNat']
  omega

/-! ## Bitmaps -/

/-- Byte `i` of the bitmap `b`. -/
def packByte (b : ℕ → Bool) (i : ℕ) : UInt8 :=
  UInt8.ofNat (Nat.ofBits fun j : Fin 8 => b (8 * i + j))

def testBit (m : ℕ → UInt8) (i : ℕ) : Bool := (m (i / 8)).toNat.testBit (i % 8)

theorem testBit_congr {m m' : ℕ → UInt8} {i j : ℕ} (h : m (i / 8) = m' (j / 8))
    (hij : i % 8 = j % 8) : testBit m i = testBit m' j := by
  simp only [testBit, h, hij]

@[simp] theorem testBit_packByte (b : ℕ → Bool) (i : ℕ) : testBit (packByte b) i = b i := by
  have hlt : i % 8 < 8 := Nat.mod_lt _ (by norm_num)
  have hval : (packByte b (i / 8)).toNat = Nat.ofBits fun j : Fin 8 => b (8 * (i / 8) + j) := by
    rw [packByte, UInt8.toNat_ofNat']
    exact Nat.mod_eq_of_lt (Nat.ofBits_lt_two_pow _)
  rw [testBit, hval, Nat.testBit_ofBits_lt _ _ hlt]
  exact congrArg b (Nat.div_add_mod i 8)

theorem packByte_testBit (m : ℕ → UInt8) (t : ℕ) : packByte (testBit m) t = m t := by
  refine UInt8.toNat.inj (Nat.eq_of_testBit_eq fun j => ?_)
  by_cases hj : j < 8
  · have h := testBit_packByte (testBit m) (8 * t + j)
    have hdiv : (8 * t + j) / 8 = t := by omega
    have hmod : (8 * t + j) % 8 = j := by omega
    simpa only [testBit, hdiv, hmod] using h
  · have hlt (x : UInt8) : x.toNat < 2 ^ j :=
      x.toNat_lt.trans_le (Nat.pow_le_pow_right (by norm_num) (Nat.not_lt.mp hj))
    rw [Nat.testBit_lt_two_pow (hlt _), Nat.testBit_lt_two_pow (hlt _)]

theorem packByte_congr {b b' : ℕ → Bool} {t t' : ℕ} (h : ∀ j < 8, b (8 * t + j) = b' (8 * t' + j)) :
    packByte b t = packByte b' t' := by
  unfold packByte
  exact congrArg (fun f : Fin 8 → Bool => UInt8.ofNat (Nat.ofBits f)) (funext fun j => h j j.isLt)

end Storage
