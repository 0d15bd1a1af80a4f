import Ploop.Image.Header
import Ploop.Lib.Buffer
import Ploop.Lib.Runs

/-!
# Searching a bitmap

`BitFindNextSet64` and `BitFindNextClear64` go through a bitmap one `__u64` at a time.
-/

namespace Ploop.Cbt

open Storage Runs

/-- The `__u64` number `p` of a buffer, read from its eight bytes. -/
def word64 (m : ℕ → UInt8) (p : ℕ) : BitVec 64 :=
  BitVec.ofNat 64 (Nat.ofBits fun j : Fin 64 => testBit m (64 * p + j))

/-- `BitFindLowestSet64` -/
def bitFindLowestSet64 (uVal : BitVec 64) : ℤ := if uVal = 0 then -1 else uVal.ctz.toNat

/-- `BitFindLowestClear64` -/
def bitFindLowestClear64 (uVal : BitVec 64) : ℤ := bitFindLowestSet64 (~~~uVal)

/-- The value of `pos + n` in the `__u32` of `pos`. -/
def posAdd (pos : ℕ) (n : ℤ) : ℤ := (pos + n) % 2 ^ 32

section Set

variable (bmap : ℕ → BitVec 64)

/-- From `check_tail` on. -/
def setTail (val : BitVec 64) (pos size : ℕ) : ℤ :=
  let val := val &&& (BitVec.allOnes 64 >>> (64 - size))
  if val = 0 then -1 else posAdd pos (bitFindLowestSet64 val)

/-- The loop over whole words and what follows it. -/
def setWords (p pos size : ℕ) : ℤ :=
  if 64 ≤ size then
    if bmap p ≠ 0 then posAdd pos (bitFindLowestSet64 (bmap p))
    else setWords (p + 1) (pos + 64) (size - 64)
  else if size = 0 then -1
  else setTail (bmap p) pos size
termination_by size

/-- `BitFindNextSet64` on a bitmap that is there. -/
def bitFindNextSet64 (size off : ℕ) : ℤ :=
  let p := off / 64
  let pos := off - off % 64
  if size ≤ off then -1
  else
    let size := size - pos
    let off := off % 64
    if off ≠ 0 then
      let val := bmap p &&& (BitVec.allOnes 64 <<< off)
      if size < 64 then setTail val pos size
      else if val ≠ 0 then posAdd pos (bitFindLowestSet64 val)
      else setWords bmap (p + 1) (pos + 64) (size - 64)
    else setWords bmap p pos size

end Set

section Clear

variable (bmap : ℕ → BitVec 64)

/-- From `check_tail` on. -/
def clearTail (val : BitVec 64) (pos size : ℕ) : ℤ :=
  let val := val ||| (BitVec.allOnes 64 <<< size)
  if BitVec.allOnes 64 = val then -1 else posAdd pos (bitFindLowestClear64 val)

/-- The loop over whole words and what follows it. -/
def clearWords (p pos size : ℕ) : ℤ :=
  if 64 ≤ size then
    if bmap p ≠ BitVec.allOnes 64 then posAdd pos (bitFindLowestClear64 (bmap p))
    else clearWords (p + 1) (pos + 64) (size - 64)
  else if size = 0 then -1
  else clearTail (bmap p) pos size
termination_by size

/-- `BitFindNextClear64` on a bitmap that is there. -/
def bitFindNextClear64 (size off : ℕ) : ℤ :=
  let p := off / 64
  let pos := off - off % 64
  if size ≤ off then -1
  else
    let size := size - pos
    let off := off % 64
    if off ≠ 0 then
      -- set all bits before desired
      let val := bmap p ||| (BitVec.allOnes 64 >>> (64 - off))
      if size < 64 then clearTail val pos size
      else if val ≠ BitVec.allOnes 64 then posAdd pos (bitFindLowestClear64 val)
      else clearWords bmap (p + 1) (pos + 64) (size - 64)
    else clearWords bmap p pos size

end Clear

variable {w : ℕ → BitVec 64} {m : ℕ → UInt8} {val : BitVec 64} {p pos size off i : ℕ}

/-! ## One word -/

/-- Bit `j` of the bitmap. -/
def bitAt (w : ℕ → BitVec 64) (j : ℕ) : Prop := (w (j / 64)).getLsbD (j % 64) = true

theorem bitAt_word (hi : i < 64) : bitAt w (64 * p + i) ↔ (w p).getLsbD i = true := by
  have hdiv : (64 * p + i) / 64 = p := by omega
  have hmod : (64 * p + i) % 64 = i := by omega
  rw [bitAt, hdiv, hmod]

theorem bitAt_word64 (m : ℕ → UInt8) (j : ℕ) : bitAt (word64 m) j ↔ testBit m j = true := by
  have hlt : j % 64 < 64 := Nat.mod_lt j (by norm_num)
  rw [bitAt, word64, BitVec.getLsbD_ofNat, Nat.testBit_ofBits_lt _ _ hlt, decide_eq_true hlt,
    Bool.true_and]
  exact iff_of_eq (congrArg (fun k => testBit m k = true) (Nat.div_add_mod j 64))

/-- What is looked at of word `p`: its bits from `a` up to `b`. -/
def Masked (w : ℕ → BitVec 64) (p a b : ℕ) (val : BitVec 64) : Prop :=
  ∀ i < 64, val.getLsbD i = true ↔ a ≤ i ∧ i < b ∧ (w p).getLsbD i = true

theorem Masked.none {a b : ℕ} (h : Masked w p a b 0) (hb : b ≤ 64) :
    ∀ j, 64 * p + a ≤ j → j < 64 * p + b → ¬ bitAt w j := by
  intro j haj hjb hbit
  obtain ⟨i, rfl⟩ := Nat.exists_eq_add_of_le ((Nat.le_add_right _ a).trans haj)
  have hi : i < b := Nat.lt_of_add_lt_add_left hjb
  have hzero := (h i (hi.trans_le hb)).mpr
    ⟨Nat.le_of_add_le_add_left haj, hi, (bitAt_word (hi.trans_le hb)).mp hbit⟩
  simp at hzero

theorem Masked.some {a b n : ℕ} (h : Masked w p a b val) (hval : val ≠ 0) (hn : 64 * p + b ≤ n)
    (hfit : n < 2 ^ 32) :
    Finds (bitAt w) (64 * p + a) n (posAdd (64 * p) (bitFindLowestSet64 val)) := by
  have hset := BitVec.getLsbD_true_ctz_of_ne_zero hval
  have hlt : val.ctz.toNat < 64 := BitVec.lt_of_getLsbD hset
  obtain ⟨ha, hb', hbit⟩ := (h _ hlt).mp hset
  have hpos : posAdd (64 * p) (bitFindLowestSet64 val) = ((64 * p + val.ctz.toNat : ℕ) : ℤ) := by
    rw [posAdd, bitFindLowestSet64, if_neg hval]
    push_cast
    omega
  rw [hpos]
  apply Finds.at _ (Nat.add_le_add_left ha _) (by omega) ((bitAt_word hlt).mpr hbit)
  intro j haj hjc hbit
  obtain ⟨i, rfl⟩ := Nat.exists_eq_add_of_le ((Nat.le_add_right _ a).trans haj)
  have hi : i < val.ctz.toNat := Nat.lt_of_add_lt_add_left hjc
  have hclear : val.getLsbD i = false := BitVec.getLsbD_false_of_lt_ctz hi
  have hone := (h i (hi.trans hlt)).mpr
    ⟨Nat.le_of_add_le_add_left haj, hi.trans hb', (bitAt_word (hi.trans hlt)).mp hbit⟩
  exact absurd (hclear.symm.trans hone) Bool.false_ne_true

theorem getLsbD_ones_shiftLeft (hi : i < 64) :
    (BitVec.allOnes 64 <<< off).getLsbD i = decide (off ≤ i) := by
  have hsub : i - off < 64 := (Nat.sub_le i off).trans_lt hi
  rw [BitVec.getLsbD_shiftLeft, BitVec.getLsbD_allOnes, decide_eq_true hi, decide_eq_true hsub,
    Bool.true_and, Bool.and_true, ← decide_not, decide_eq_decide, not_lt]

theorem getLsbD_ones_shiftRight (hsize : size ≤ 64) :
    (BitVec.allOnes 64 >>> (64 - size)).getLsbD i = decide (i < size) := by
  rw [BitVec.getLsbD_ushiftRight, BitVec.getLsbD_allOnes, decide_eq_decide]
  omega

theorem masked_word : Masked w p 0 64 (w p) := by
  intro i hi
  simp [hi]

theorem masked_after : Masked w p off 64 (w p &&& (BitVec.allOnes 64 <<< off)) := by
  intro i hi
  rw [BitVec.getLsbD_and, getLsbD_ones_shiftLeft hi, Bool.and_eq_true, decide_eq_true_eq]
  tauto

theorem Masked.before {a : ℕ} (h : Masked w p a 64 val) (hsize : size ≤ 64) :
    Masked w p a size (val &&& (BitVec.allOnes 64 >>> (64 - size))) := by
  intro i hi
  have hbit := h i hi
  rw [BitVec.getLsbD_and, getLsbD_ones_shiftRight hsize, Bool.and_eq_true, decide_eq_true_eq, hbit]
  tauto

/-! ## The next set bit -/

theorem setTail_finds {a : ℕ} (h : Masked w p a 64 val) (hsize : size ≤ 64)
    (hfit : 64 * p + size < 2 ^ 32) :
    Finds (bitAt w) (64 * p + a) (64 * p + size) (setTail val (64 * p) size) := by
  have hmask := h.before hsize
  rw [setTail]
  split
  · next hzero =>
      rw [hzero] at hmask
      exact Finds.none (hmask.none hsize)
  · next hval => exact hmask.some hval le_rfl hfit

theorem setWords_finds (hfit : 64 * p + size < 2 ^ 32) :
    Finds (bitAt w) (64 * p) (64 * p + size) (setWords w p (64 * p) size) := by
  induction size using Nat.strong_induction_on generalizing p with
  | _ size ih =>
      rw [setWords]
      split
      · next hle =>
          split
          · next hval => exact masked_word.some hval (Nat.add_le_add_left hle _) hfit
          · next hzero =>
              have hmask := masked_word (w := w) (p := p)
              rw [not_not.mp hzero] at hmask
              have hrest := ih (size - 64) (by omega) (p := p + 1) (by omega)
              have hend : 64 * (p + 1) + (size - 64) = 64 * p + size := by omega
              rw [hend] at hrest
              exact hrest.skip (by omega) (hmask.none le_rfl)
      · next hlt =>
          split
          · next hzero => exact Finds.empty (by omega)
          · exact setTail_finds masked_word (by omega) hfit

theorem bitFindNextSet64_finds (w : ℕ → BitVec 64) (off : ℕ) (hfit : size < 2 ^ 32) :
    Finds (bitAt w) off size (bitFindNextSet64 w size off) := by
  have hpos : off - off % 64 = 64 * (off / 64) := by omega
  rw [bitFindNextSet64]
  dsimp only
  split
  · next hle => exact Finds.empty hle
  · next hlt =>
      have hsize : 64 * (off / 64) + (size - 64 * (off / 64)) = size := by omega
      rw [hpos]
      split
      · have hoff : 64 * (off / 64) + off % 64 = off := Nat.div_add_mod off 64
        have hmask : Masked w (off / 64) (off % 64) 64 _ := masked_after
        split
        · next hshort =>
            have h := setTail_finds hmask hshort.le (hsize.trans_lt hfit)
            rwa [hsize, hoff] at h
        · next hlong =>
            split
            · next hval =>
                have h := hmask.some hval (n := size) (by omega) hfit
                rwa [hoff] at h
            · next hzero =>
                rw [not_not.mp hzero] at hmask
                have hend : 64 * (off / 64 + 1) + (size - 64 * (off / 64) - 64) = size := by omega
                have h := setWords_finds (w := w) (p := off / 64 + 1) (hend.trans_lt hfit)
                rw [hend] at h
                apply h.skip (by omega)
                intro j hj hj'
                exact hmask.none le_rfl j (hoff.trans_le hj) hj'
      · next hzero =>
          have h := setWords_finds (w := w) (hsize.trans_lt hfit)
          have hoff : 64 * (off / 64) = off := by omega
          rw [hsize] at h
          rwa [hoff] at h ⊢

/-! ## The next clear bit -/

theorem bitAt_not (j : ℕ) : bitAt (fun p => ~~~w p) j ↔ ¬ bitAt w j := by
  have hlt : j % 64 < 64 := Nat.mod_lt j (by norm_num)
  simp [bitAt, hlt]

theorem not_or_ones_shiftRight (hoff : off ≤ 64) :
    ~~~(val ||| (BitVec.allOnes 64 >>> (64 - off))) = ~~~val &&& (BitVec.allOnes 64 <<< off) := by
  apply BitVec.eq_of_getLsbD_eq
  intro i hi
  rw [BitVec.getLsbD_not, BitVec.getLsbD_or, BitVec.getLsbD_and, BitVec.getLsbD_not,
    getLsbD_ones_shiftRight hoff, getLsbD_ones_shiftLeft hi, Bool.not_or, ← decide_not,
    Bool.and_assoc]
  simp only [not_lt]

theorem not_or_ones_shiftLeft (hsize : size ≤ 64) :
    ~~~(val ||| (BitVec.allOnes 64 <<< size)) =
      ~~~val &&& (BitVec.allOnes 64 >>> (64 - size)) := by
  apply BitVec.eq_of_getLsbD_eq
  intro i hi
  rw [BitVec.getLsbD_not, BitVec.getLsbD_or, BitVec.getLsbD_and, BitVec.getLsbD_not,
    getLsbD_ones_shiftRight hsize, getLsbD_ones_shiftLeft hi, Bool.not_or, ← decide_not,
    Bool.and_assoc]
  simp only [not_le]

theorem not_eq_zero_iff : ~~~val = 0 ↔ val = BitVec.allOnes 64 := by
  constructor
  · intro h
    rw [← BitVec.not_not (b := val), h]
    rfl
  · rintro rfl
    rfl

theorem clearTail_eq (hsize : size ≤ 64) : clearTail val pos size = setTail (~~~val) pos size := by
  rw [clearTail, setTail, bitFindLowestClear64]
  simp only [← not_or_ones_shiftLeft hsize, not_eq_zero_iff, eq_comm]

theorem clearWords_eq : clearWords w p pos size = setWords (fun p => ~~~w p) p pos size := by
  induction size using Nat.strong_induction_on generalizing p pos with
  | _ size ih =>
      rw [clearWords, setWords, bitFindLowestClear64]
      split
      · next hle =>
          rw [ih (size - 64) (by omega)]
          simp only [ne_eq, not_eq_zero_iff]
      · next hlt => rw [clearTail_eq (by omega)]

theorem bitFindNextClear64_eq :
    bitFindNextClear64 w size off = bitFindNextSet64 (fun p => ~~~w p) size off := by
  have hlt : off % 64 < 64 := Nat.mod_lt off (by norm_num)
  rw [bitFindNextClear64, bitFindNextSet64]
  dsimp only
  split
  · rfl
  · split
    · next hoff =>
        rw [bitFindLowestClear64, clearWords_eq, ← not_or_ones_shiftRight hlt.le]
        split
        · next hshort => rw [clearTail_eq hshort.le]
        · simp only [ne_eq, not_eq_zero_iff]
    · rw [clearWords_eq]

theorem bitFindNextClear64_finds (w : ℕ → BitVec 64) (off : ℕ) (hfit : size < 2 ^ 32) :
    Finds (fun j => ¬ bitAt w j) off size (bitFindNextClear64 w size off) := by
  rw [bitFindNextClear64_eq]
  apply (bitFindNextSet64_finds _ off hfit).congr
  exact fun j _ => bitAt_not j

end Ploop.Cbt
