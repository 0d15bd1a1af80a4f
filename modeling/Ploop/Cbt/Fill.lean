import Ploop.Cbt.Upload
import Ploop.Cbt.Used

/-!
# Marking the granules of an extent

`BMAP_SET_BLOCK` sets bits one by one up to a whole byte, then whole bytes, then the bits that
are left. What it is given is the part of an extent that lies in the window.
-/

namespace Ploop.Cbt

open Storage

/-! ## Filling -/

/-- The loop up to a whole byte; it leaves `Start` behind. -/
def setUntilByte (bmap : ℕ → UInt8) (start stop : ℕ) : (ℕ → UInt8) × ℕ :=
  if start < stop ∧ start % 8 ≠ 0 then setUntilByte (bmapSet bmap start) (start + 1) stop
  else (bmap, start)
termination_by stop - start

/-- The loop over the last bits. -/
def setRemaining (bmap : ℕ → UInt8) (start stop : ℕ) : ℕ → UInt8 :=
  if start < stop then setRemaining (bmapSet bmap start) (start + 1) stop else bmap
termination_by stop - start

/-- `n` bytes of ones. -/
def fillBytes (bmap : ℕ → UInt8) (p n : ℕ) : ℕ → UInt8 :=
  fun t => if p ≤ t ∧ t < p + n then 255 else bmap t

/-- `BMAP_SET_BLOCK`; its `Len` is an `int`. -/
def bmapSetBlock (bmap : ℕ → UInt8) (start size : ℕ) : ℕ → UInt8 :=
  let stop := u32 (start + size)
  let (bmap, start) := setUntilByte bmap start stop
  let len := u32 (stop + 2 ^ 32 - start)
  if len = 0 ∨ 2 ^ 31 ≤ len then bmap
  else
    let byteSize := len - len % 8
    if byteSize = 0 then setRemaining bmap start stop
    else setRemaining (fillBytes bmap (start / 8) (byteSize / 8)) (start + byteSize) stop

/-- The first granule of the window that the extent touches, or the first of the window. -/
def firstGranule (byteGranularity offset : ℕ) (cur : CbtExtent) : ℕ :=
  max offset (cur.cePhysical / byteGranularity)

/-- The last one. -/
def lastGranule (byteGranularity size offset : ℕ) (cur : CbtExtent) : ℕ :=
  min (u64 (offset + size + 2 ^ 64 - 1))
    (u64 (cur.cePhysical + cur.ceLength + 2 ^ 64 - 1) / byteGranularity)

/-- The body of both loops over extents. -/
def setExtent (byteGranularity size offset : ℕ) (buf : ℕ → UInt8) (cur : CbtExtent) :
    ℕ → UInt8 :=
  let first := firstGranule byteGranularity offset cur
  let last := lastGranule byteGranularity size offset cur
  bmapSetBlock buf (u32 (u64 (first + 2 ^ 64 - offset))) (u32 (u64 (last + 2 ^ 64 - first + 1)))

/-! ## What is set -/

/-- The first byte behind the extent. -/
def CbtExtent.stop (e : CbtExtent) : ℕ := e.cePhysical + e.ceLength

/-- Some byte of the extent lies in the granule. -/
def Touches (byteGranularity : ℕ) (e : CbtExtent) (g : ℕ) : Prop :=
  ∃ x, e.cePhysical ≤ x ∧ x < e.stop ∧ x / byteGranularity = g

/-- Bits from `a` up to `b` were set. -/
def SetFrom (bmap bmap' : ℕ → UInt8) (a b : ℕ) : Prop :=
  ∀ j, testBit bmap' j = true ↔ testBit bmap j = true ∨ a ≤ j ∧ j < b

variable {bmap bmap' bmap'' : ℕ → UInt8} {start stop size a b c : ℕ}

theorem SetFrom.trans (h : SetFrom bmap bmap' a b) (h' : SetFrom bmap' bmap'' b c) (hab : a ≤ b)
    (hbc : b ≤ c) : SetFrom bmap bmap'' a c := by
  intro j
  have hjoin : (a ≤ j ∧ j < b) ∨ (b ≤ j ∧ j < c) ↔ a ≤ j ∧ j < c := by omega
  rw [h' j, h j, or_assoc, hjoin]

theorem SetFrom.refl (h : b ≤ a) : SetFrom bmap bmap a b := by
  intro j
  have hnone : ¬ (a ≤ j ∧ j < b) := by omega
  exact (or_iff_left hnone).symm

theorem setFrom_bmapSet : SetFrom bmap (bmapSet bmap start) start (start + 1) := by
  intro j
  rw [testBit_bmapSet, Function.update_apply]
  split
  · next h => exact iff_of_true rfl (.inr ⟨h.ge, h.trans_lt (Nat.lt_succ_self start)⟩)
  · next h =>
      have hnone : ¬ (start ≤ j ∧ j < start + 1) := by omega
      exact (or_iff_left hnone).symm

theorem setUntilByte_spec (bmap : ℕ → UInt8) (h : start ≤ stop) :
    SetFrom bmap (setUntilByte bmap start stop).1 start (setUntilByte bmap start stop).2 ∧
    start ≤ (setUntilByte bmap start stop).2 ∧ (setUntilByte bmap start stop).2 ≤ stop ∧
    ((setUntilByte bmap start stop).2 < stop → (setUntilByte bmap start stop).2 % 8 = 0) := by
  induction hk : stop - start using Nat.strong_induction_on generalizing bmap start with
  | _ k ih =>
      rw [setUntilByte]
      split
      · next hcond =>
          obtain ⟨hset, hle, hstop, hbyte⟩ := ih (stop - (start + 1)) (by omega)
            (bmapSet bmap start) hcond.1 rfl
          exact ⟨setFrom_bmapSet.trans hset (Nat.le_succ start) hle,
            (Nat.le_succ start).trans hle, hstop, hbyte⟩
      · next hcond =>
          exact ⟨SetFrom.refl le_rfl, le_rfl, h, by omega⟩

theorem setRemaining_spec (bmap : ℕ → UInt8) (h : start ≤ stop) :
    SetFrom bmap (setRemaining bmap start stop) start stop := by
  induction hk : stop - start using Nat.strong_induction_on generalizing bmap start with
  | _ k ih =>
      rw [setRemaining]
      split
      · next hlt =>
          have hrest := ih (stop - (start + 1)) (by omega) (bmapSet bmap start) hlt rfl
          exact setFrom_bmapSet.trans hrest (Nat.le_succ start) hlt
      · next hge => exact SetFrom.refl (Nat.not_lt.mp hge)

theorem fillBytes_spec (bmap : ℕ → UInt8) (p n : ℕ) :
    SetFrom bmap (fillBytes bmap p n) (8 * p) (8 * (p + n)) := by
  intro j
  have hin : p ≤ j / 8 ∧ j / 8 < p + n ↔ 8 * p ≤ j ∧ j < 8 * (p + n) := by omega
  rw [testBit, fillBytes, ← hin]
  split
  · next h =>
      have hone : (255 : UInt8).toNat.testBit (j % 8) = true := by
        have hlt : j % 8 < 8 := Nat.mod_lt j (by norm_num)
        interval_cases j % 8 <;> rfl
      rw [hone]
      exact iff_of_true rfl (.inr h)
  · next h =>
      rw [testBit]
      exact (or_iff_left h).symm

theorem bmapSetBlock_spec (hsize : size < 2 ^ 31) (hstop : start + size < 2 ^ 32) :
    SetFrom bmap (bmapSetBlock bmap start size) start (start + size) := by
  obtain ⟨hset, hle, hend, hbyte⟩ :=
    setUntilByte_spec bmap (Nat.le_add_right start size)
  rw [bmapSetBlock, u32_of_lt hstop]
  generalize setUntilByte bmap start (start + size) = q at hset hle hend hbyte ⊢
  obtain ⟨m, s⟩ := q
  dsimp only at hset hle hend hbyte ⊢
  have hlen : u32 (start + size + 2 ^ 32 - s) = start + size - s := by
    rw [u32]
    omega
  rw [hlen]
  split
  · next hdone =>
      have heq : s = start + size := by omega
      rwa [← heq]
  · next hmore =>
      have hs : s % 8 = 0 := hbyte (by omega)
      split
      · next hfew => exact hset.trans (setRemaining_spec _ hend) hle hend
      · next hmany =>
          have hfill := fillBytes_spec m (s / 8)
            ((start + size - s - (start + size - s) % 8) / 8)
          have hfrom : 8 * (s / 8) = s := by omega
          have hto : 8 * (s / 8 + (start + size - s - (start + size - s) % 8) / 8) =
              s + (start + size - s - (start + size - s) % 8) := by omega
          rw [hto, hfrom] at hfill
          exact (hset.trans hfill hle (by omega)).trans (setRemaining_spec _ (by omega)) (by omega)
            (by omega)

/-! ## The granules of an extent -/

/-- A subtraction of `__u64` that does not wrap. -/
theorem u64_sub_of_le (h : b ≤ a) (ha : a < 2 ^ 64) : u64 (a + 2 ^ 64 - b) = a - b := by
  have hsplit : a + 2 ^ 64 - b = a - b + 2 ^ 64 := by omega
  rw [u64, hsplit, Nat.add_mod_right, Nat.mod_eq_of_lt ((Nat.sub_le a b).trans_lt ha)]

variable {gran offset g : ℕ} {e : CbtExtent}

theorem touches_iff (hgran : 0 < gran) (he : e.cePhysical < e.stop) :
    Touches gran e g ↔ e.cePhysical / gran ≤ g ∧ g ≤ (e.stop - 1) / gran := by
  constructor
  · rintro ⟨x, hle, hlt, rfl⟩
    exact ⟨Nat.div_le_div_right hle, Nat.div_le_div_right (Nat.le_sub_one_of_lt hlt)⟩
  · rintro ⟨hfirst, hlast⟩
    have hin : g * gran ≤ e.stop - 1 := (Nat.le_div_iff_mul_le hgran).mp hlast
    have hbefore : e.cePhysical < (g + 1) * gran := (Nat.div_lt_iff_lt_mul hgran).mp
      (Nat.lt_succ_of_le hfirst)
    refine ⟨max e.cePhysical (g * gran), le_max_left _ _, ?_, ?_⟩
    · exact max_lt he (by omega)
    · rw [Nat.div_eq_iff hgran]
      rw [Nat.succ_mul] at hbefore
      omega

theorem setExtent_spec (hgran : 0 < gran) (hsize : size < 2 ^ 31)
    (hfit : (offset + size) * gran < 2 ^ 64) (he : e.cePhysical < e.stop) (hstop : e.stop < 2 ^ 64)
    (hbefore : e.cePhysical < (offset + size) * gran) (hafter : offset * gran < e.stop) (j : ℕ) :
    testBit (setExtent gran size offset bmap e) j = true ↔
      testBit bmap j = true ∨ j < size ∧ Touches gran e (offset + j) := by
  have hend : offset + size < 2 ^ 64 := (Nat.le_mul_of_pos_right _ hgran).trans_lt hfit
  have hfirst : e.cePhysical / gran < offset + size := (Nat.div_lt_iff_lt_mul hgran).mpr hbefore
  have hlast : offset ≤ (e.stop - 1) / gran :=
    (Nat.le_div_iff_mul_le hgran).mpr (Nat.le_sub_one_of_lt hafter)
  have horder : e.cePhysical / gran ≤ (e.stop - 1) / gran :=
    Nat.div_le_div_right (Nat.le_sub_one_of_lt he)
  rw [touches_iff hgran he, setExtent]
  have hlastval : lastGranule gran size offset e =
      min (offset + size - 1) ((e.stop - 1) / gran) := by
    have hbit : u64 (offset + size + 2 ^ 64 - 1) = offset + size - 1 :=
      u64_sub_of_le (Nat.one_le_of_lt hfirst) hend
    have hbyte : u64 (e.cePhysical + e.ceLength + 2 ^ 64 - 1) = e.stop - 1 :=
      u64_sub_of_le (Nat.one_le_of_lt he) hstop
    rw [lastGranule, hbit, hbyte]
  rw [hlastval, firstGranule]
  generalize e.cePhysical / gran = p at *
  generalize (e.stop - 1) / gran = q at *
  have hstart : u32 (u64 (max offset p + 2 ^ 64 - offset)) = max offset p - offset := by
    rw [u64_sub_of_le (le_max_left _ _) (by omega), u32_of_lt (by omega)]
  have hcount : u32 (u64 (min (offset + size - 1) q + 2 ^ 64 - max offset p + 1)) =
      min (offset + size - 1) q + 1 - max offset p := by
    rw [u32, u64]
    omega
  rw [hstart, hcount, bmapSetBlock_spec (by omega) (by omega) j]
  apply or_congr_right
  omega

end Ploop.Cbt
