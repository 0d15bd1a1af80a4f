import Ploop.Cbt.Bitmap

/-!
# Where `is_const_bit` reads

The loops of `is_const_bit` with the bytes they look at. The last loop runs once more than there
are bytes left, so a constant block is judged by the byte behind it.
-/

namespace Ploop.Cbt

open Storage

/-! ## The loops -/

/-- The bytes of a 64-bit word. -/
def wordReads (pos : ℕ) : List ℕ := List.range' pos 8

/-- The loop over 64-bit words from `pos` on, with `size` bytes left: what is left for the last
loop, or none when a word differs, and the bytes read. -/
def wordLoop (data : ℕ → UInt8) (first64 size pos : ℕ) : Option (ℕ × ℕ) × List ℕ :=
  if 8 < size then
    if rd64 data pos ≠ first64 then (none, wordReads pos)
    else
      let r := wordLoop data first64 (size - 8) (pos + 8)
      (r.1, wordReads pos ++ r.2)
  else (some (size, pos), [])
termination_by size

/-- The last loop: it counts `size` down to 0 and looks at a byte at 0, too. -/
def tailLoop (data : ℕ → UInt8) (first8 : UInt8) : ℕ → ℕ → Bool × List ℕ
  | 0, pos => (data pos = first8, [pos])
  | size + 1, pos =>
      if data pos ≠ first8 then (false, [pos])
      else
        let r := tailLoop data first8 size (pos + 1)
        (r.1, pos :: r.2)

/-- What follows the loop over the words. -/
def constTail (data : ℕ → UInt8) (size pos : ℕ) : Option Bool × List ℕ :=
  let r := tailLoop data (data 0) size pos
  (if r.1 then some (data 0 ≠ 0) else none, r.2)

/-- `is_const_bit` and the bytes it reads. -/
def isConstBitReads (data : ℕ → UInt8) (size : ℕ) : Option Bool × List ℕ :=
  if data 0 ≠ 0 ∧ data 0 ≠ 0xff then (none, [0])
  else if 8 < size then
    if rd64 data 0 ≠ 0 ∧ rd64 data 0 ≠ 2 ^ 64 - 1 then (none, 0 :: wordReads 0)
    else
      let r := wordLoop data (rd64 data 0) size 0
      match r.1 with
      | none => (none, 0 :: wordReads 0 ++ r.2)
      | some (size, pos) =>
          let t := constTail data size pos
          (t.1, 0 :: wordReads 0 ++ r.2 ++ t.2)
  else
    let t := constTail data size 0
    (t.1, 0 :: t.2)

/-! ## What the loops find -/

section Loops

variable {data : ℕ → UInt8} {w size pos i : ℕ} {v : UInt8}

theorem mem_wordReads : i ∈ wordReads pos ↔ pos ≤ i ∧ i < pos + 8 := List.mem_range'_1

theorem wordLoop_of_le (h : size ≤ 8) : wordLoop data w size pos = (some (size, pos), []) := by
  rw [wordLoop, if_neg (Nat.not_lt.mpr h)]

theorem wordLoop_differs (h : 8 < size) (hw : rd64 data pos ≠ w) :
    wordLoop data w size pos = (none, wordReads pos) := by
  rw [wordLoop, if_pos h, if_pos hw]

theorem wordLoop_same (h : 8 < size) (hw : rd64 data pos = w) :
    wordLoop data w size pos =
      ((wordLoop data w (size - 8) (pos + 8)).1,
        wordReads pos ++ (wordLoop data w (size - 8) (pos + 8)).2) := by
  rw [wordLoop, if_pos h, if_neg (not_not.mpr hw)]

theorem wordLoop_reads : ∀ i ∈ (wordLoop data w size pos).2, i < pos + size := by
  induction size using Nat.strong_induction_on generalizing pos with
  | h size ih =>
      intro i hi
      rcases Nat.lt_or_ge 8 size with hsize | hsize
      swap
      · rw [wordLoop_of_le hsize] at hi
        exact absurd hi List.not_mem_nil
      · by_cases hw : rd64 data pos = w
        · rw [wordLoop_same hsize hw] at hi
          rcases List.mem_append.mp hi with hi | hi
          · have hlt := (mem_wordReads.mp hi).2
            omega
          · have hlt := ih (size - 8) (by omega) i hi
            omega
        · rw [wordLoop_differs hsize hw] at hi
          have hlt := (mem_wordReads.mp hi).2
          omega

/-- The words are all the same, or the loop ends with a word that differs. -/
theorem wordLoop_result : (wordLoop data w size pos).1 =
    if ∀ i < (size - 1) / 8, rd64 data (pos + 8 * i) = w then
      some (size - 8 * ((size - 1) / 8), pos + 8 * ((size - 1) / 8))
    else none := by
  induction size using Nat.strong_induction_on generalizing pos with
  | h size ih =>
      rcases Nat.lt_or_ge 8 size with hsize | hsize
      swap
      · have hzero : (size - 1) / 8 = 0 := Nat.div_eq_of_lt (by omega)
        rw [wordLoop_of_le hsize, hzero, if_pos fun i hi => absurd hi (Nat.not_lt_zero i)]
        rfl
      · obtain ⟨n, hn⟩ : ∃ n, (size - 1) / 8 = n + 1 := ⟨(size - 1) / 8 - 1, by omega⟩
        have hrest : (size - 8 - 1) / 8 = n := by omega
        rw [hn]
        by_cases hw : rd64 data pos = w
        · have hiff : (∀ i < n + 1, rd64 data (pos + 8 * i) = w) ↔
              ∀ i < n, rd64 data (pos + 8 + 8 * i) = w := by
            constructor
            · intro h i hi
              have hnext := h (i + 1) (Nat.succ_lt_succ hi)
              rwa [Nat.mul_succ, Nat.add_comm (8 * i), ← Nat.add_assoc] at hnext
            · intro h i hi
              cases i with
              | zero => exact hw
              | succ i =>
                  rw [Nat.mul_succ, Nat.add_comm (8 * i), ← Nat.add_assoc]
                  exact h i (Nat.lt_of_succ_lt_succ hi)
          have hsize' : size - 8 - 8 * n = size - 8 * (n + 1) := by omega
          have hpos' : pos + 8 + 8 * n = pos + 8 * (n + 1) := by omega
          rw [wordLoop_same hsize hw, ih (size - 8) (by omega), hrest, hsize', hpos']
          exact if_congr hiff.symm rfl rfl
        · rw [wordLoop_differs hsize hw, if_neg]
          exact fun h => hw (h 0 (Nat.succ_pos n))

theorem tailLoop_result :
    (tailLoop data v size pos).1 = true ↔ ∀ i < size + 1, data (pos + i) = v := by
  induction size generalizing pos with
  | zero =>
      simp only [tailLoop, decide_eq_true_eq]
      constructor
      · intro h i hi
        obtain rfl := Nat.lt_one_iff.mp hi
        exact h
      · exact fun h => h 0 Nat.one_pos
  | succ size ih =>
      rw [tailLoop]
      split
      case isTrue hne =>
        constructor
        · exact fun h => absurd h (by simp)
        · exact fun h => absurd (h 0 (Nat.succ_pos _)) hne
      case isFalse heq =>
        dsimp only
        rw [ih]
        constructor
        · intro h i hi
          cases i with
          | zero => exact not_not.mp heq
          | succ i =>
              have hi' := h i (Nat.lt_of_succ_lt_succ hi)
              rwa [Nat.add_assoc, Nat.add_comm 1 i] at hi'
        · intro h i hi
          rw [Nat.add_assoc, Nat.add_comm 1 i]
          exact h (i + 1) (Nat.succ_lt_succ hi)

/-- Bytes that are all the same lead to the byte behind them. -/
theorem tailLoop_past (h : ∀ i < size, data (pos + i) = v) :
    pos + size ∈ (tailLoop data v size pos).2 := by
  induction size generalizing pos with
  | zero => exact List.mem_singleton_self _
  | succ size ih =>
      have hfirst : data pos = v := h 0 (Nat.succ_pos size)
      rw [tailLoop, if_neg (not_not.mpr hfirst)]
      apply List.mem_cons_of_mem
      have hrest : pos + 1 + size ∈ (tailLoop data v size (pos + 1)).2 := by
        apply ih
        intro i hi
        rw [Nat.add_assoc, Nat.add_comm 1 i]
        exact h (i + 1) (Nat.succ_lt_succ hi)
      rwa [Nat.add_assoc, Nat.add_comm 1 size] at hrest

/-- A byte that differs ends the loop. -/
theorem tailLoop_within (h : ∃ i < size, data (pos + i) ≠ v) :
    ∀ i ∈ (tailLoop data v size pos).2, i < pos + size := by
  induction size generalizing pos with
  | zero =>
      obtain ⟨i, hi, -⟩ := h
      exact absurd hi (Nat.not_lt_zero i)
  | succ size ih =>
      intro j hj
      rw [tailLoop] at hj
      split at hj
      case isTrue =>
        rw [List.mem_singleton.mp hj]
        omega
      case isFalse heq =>
        rcases List.mem_cons.mp hj with rfl | hj
        · omega
        · obtain ⟨i, hi, hne⟩ := h
          cases i with
          | zero => exact absurd hne heq
          | succ i =>
              have hlt := ih ⟨i, Nat.lt_of_succ_lt_succ hi, by
                rwa [Nat.add_assoc, Nat.add_comm 1 i]⟩ j hj
              omega

theorem constTail_result : (constTail data size pos).1 =
    if ∀ i < size + 1, data (pos + i) = data 0 then some (decide (data 0 ≠ 0)) else none :=
  if_congr tailLoop_result rfl rfl

/-- The reads do not change what the function returns. -/
theorem isConstBitReads_fst : (isConstBitReads data size).1 = isConstBit data size := by
  rw [isConstBitReads, isConstBit]
  by_cases hfirst : data 0 ≠ 0 ∧ data 0 ≠ 0xff
  · rw [if_pos hfirst, if_pos hfirst]
  · rw [if_neg hfirst, if_neg hfirst]
    rcases Nat.lt_or_ge 8 size with hsize | hsize
    · by_cases hwide : rd64 data 0 ≠ 0 ∧ rd64 data 0 ≠ 2 ^ 64 - 1
      · rw [if_pos hsize, if_pos hwide, if_pos ⟨hsize, hwide⟩]
      · have hwords := @wordLoop_result data (rd64 data 0) size 0
        simp only [Nat.zero_add] at hwords
        rw [if_pos hsize, if_neg hwide, if_neg fun h => hwide h.2, if_pos hsize]
        dsimp only
        rw [hwords]
        by_cases hall : ∀ i < (size - 1) / 8, rd64 data (8 * i) = rd64 data 0
        · rw [if_pos hall]
          dsimp only
          rw [constTail_result]
          exact if_congr ⟨fun h => ⟨hall, h⟩, fun h => h.2⟩ rfl rfl
        · rw [if_neg hall, if_neg fun h => hall h.1]
    · have hsmall := Nat.not_lt.mpr hsize
      rw [if_neg hsmall, if_neg fun h => hsmall h.1, if_neg hsmall]
      dsimp only
      rw [constTail_result]
      apply if_congr _ rfl rfl
      simp only [Nat.zero_add, Nat.mul_zero, Nat.sub_zero]
      exact ⟨fun h => ⟨fun i hi => absurd hi (Nat.not_lt_zero i), h⟩, fun h => h.2⟩

end Loops

/-! ## Constant blocks -/

/-- All bits of the first `size` bytes are `v`. -/
def AllBits (data : ℕ → UInt8) (size : ℕ) (v : Bool) : Prop :=
  ∀ j < 8 * size, (data (j / 8)).toNat.testBit (j % 8) = v

/-- What is asked of `is_const_bit`: the bytes behind the block do not matter to the result, and
they are not read. -/
structure ConstBitRight (data : ℕ → UInt8) (size : ℕ) : Prop where
  value : ∀ m : ℕ → UInt8, (∀ i < size, m i = data i) → ∀ v,
    (isConstBitReads m size).1 = some v ↔ AllBits data size v
  reads : ∀ i ∈ (isConstBitReads data size).2, i < size

section Right

variable {data : ℕ → UInt8} {size : ℕ} {v : Bool}

theorem byte_eq_iff (b : UInt8) :
    (∀ k < 8, b.toNat.testBit k = v) ↔ b = if v then 0xff else 0 := by
  have hlt : b.toNat < 2 ^ 8 := b.toNat_lt
  cases v with
  | true =>
      rw [if_pos rfl]
      constructor
      · intro h
        apply UInt8.toNat_inj.mp
        apply Nat.eq_of_testBit_eq
        intro k
        rcases Nat.lt_or_ge k 8 with hk | hk
        · rw [h k hk]
          interval_cases k <;> rfl
        · have hle := Nat.pow_le_pow_right (show 0 < 2 by decide) hk
          have hones : (0xff : UInt8).toNat < 2 ^ 8 := by decide
          rw [Nat.testBit_lt_two_pow (hlt.trans_le hle),
            Nat.testBit_lt_two_pow (hones.trans_le hle)]
      · rintro rfl k hk
        interval_cases k <;> rfl
  | false =>
      rw [if_neg (by simp)]
      constructor
      · intro h
        apply UInt8.toNat_inj.mp
        apply Nat.eq_of_testBit_eq
        intro k
        rcases Nat.lt_or_ge k 8 with hk | hk
        · rw [h k hk]
          interval_cases k <;> rfl
        · have hle := Nat.pow_le_pow_right (show 0 < 2 by decide) hk
          rw [Nat.testBit_lt_two_pow (hlt.trans_le hle)]
          exact (Nat.zero_testBit k).symm
      · rintro rfl k hk
        exact Nat.zero_testBit k

theorem allBits_iff : AllBits data size v ↔ ∀ i < size, data i = if v then 0xff else 0 := by
  constructor
  · intro h i hi
    rw [← byte_eq_iff]
    intro k hk
    have hbit := h (8 * i + k) (by omega)
    rwa [show (8 * i + k) / 8 = i by omega, show (8 * i + k) % 8 = k by omega] at hbit
  · intro h j hj
    exact (byte_eq_iff _).mpr (h (j / 8) (by omega)) (j % 8) (Nat.mod_lt _ (by decide))

/-- The byte all bits of which are `v`. -/
def fill (v : Bool) : UInt8 := if v then 0xff else 0

theorem rd64_fill {off : ℕ} (h : ∀ i < 8, data (off + i) = fill v) :
    rd64 data off = if v then 2 ^ 64 - 1 else 0 := by
  rw [rd64_eq, h 0 (by decide), h 1 (by decide), h 2 (by decide), h 3 (by decide),
    h 4 (by decide), h 5 (by decide), h 6 (by decide), h 7 (by decide)]
  cases v <;> decide

theorem fill_of_first (h : ¬ (data 0 ≠ 0 ∧ data 0 ≠ 0xff)) : ∃ v, data 0 = fill v := by
  by_cases hzero : data 0 = 0
  · exact ⟨false, hzero⟩
  · refine ⟨true, ?_⟩
    by_contra hff
    exact h ⟨hzero, hff⟩

theorem first_of_fill (h : data 0 = fill v) : ¬ (data 0 ≠ 0 ∧ data 0 ≠ 0xff) := by
  rw [h]
  cases v <;> decide

theorem wide_of_fill (h : rd64 data 0 = if v then 2 ^ 64 - 1 else 0) :
    ¬ (rd64 data 0 ≠ 0 ∧ rd64 data 0 ≠ 2 ^ 64 - 1) := by
  rintro ⟨hzero, hones⟩
  cases v with
  | true => exact hones h
  | false => exact hzero h

theorem fill_of_wide (h : ¬ (rd64 data 0 ≠ 0 ∧ rd64 data 0 ≠ 2 ^ 64 - 1)) :
    ∃ v : Bool, rd64 data 0 = if v then 2 ^ 64 - 1 else 0 := by
  by_cases hzero : rd64 data 0 = 0
  · exact ⟨false, hzero⟩
  · refine ⟨true, ?_⟩
    by_contra hones
    exact h ⟨hzero, hones⟩

/-- A constant block is judged by the byte behind it. -/
theorem isConstBitReads_past (hpos : 1 ≤ size) (h : AllBits data size v) :
    size ∈ (isConstBitReads data size).2 := by
  have hbytes : ∀ i < size, data i = fill v := allBits_iff.mp h
  have hfirst := hbytes 0 hpos
  rw [isConstBitReads, if_neg (first_of_fill hfirst)]
  rcases Nat.lt_or_ge 8 size with hsize | hsize
  · have hword : ∀ i ≤ (size - 1) / 8, i * 8 + 8 ≤ size →
        rd64 data (8 * i) = if v then 2 ^ 64 - 1 else 0 := by
      intro i _ hi
      apply rd64_fill
      intro r hr
      exact hbytes _ (by omega)
    have hzero := hword 0 (Nat.zero_le _) (by omega)
    have hwords := @wordLoop_result data (rd64 data 0) size 0
    simp only [Nat.zero_add] at hwords
    rw [if_pos fun i hi => (hword i hi.le (by omega)).trans hzero.symm] at hwords
    rw [if_pos hsize, if_neg (wide_of_fill hzero)]
    dsimp only
    rw [hwords]
    apply List.mem_append_right
    have hpast := @tailLoop_past data (size - 8 * ((size - 1) / 8)) (8 * ((size - 1) / 8))
      (data 0) fun i hi => (hbytes _ (by omega)).trans hfirst.symm
    rwa [Nat.add_sub_of_le (by omega)] at hpast
  · rw [if_neg (Nat.not_lt.mpr hsize)]
    apply List.mem_cons_of_mem
    have hpast := @tailLoop_past data size 0 (data 0) fun i hi => by
      rw [Nat.zero_add]
      exact (hbytes i hi).trans hfirst.symm
    rwa [Nat.zero_add] at hpast

/-- Words that are all the same hold the same bytes. -/
theorem byte_of_words {n i : ℕ} (hwide : ¬ (rd64 data 0 ≠ 0 ∧ rd64 data 0 ≠ 2 ^ 64 - 1))
    (hall : ∀ i < n, rd64 data (8 * i) = rd64 data 0) (hi : i < 8 * n) : data i = data 0 := by
  obtain ⟨v, hv⟩ := fill_of_wide hwide
  have hq := (hall (i / 8) (by omega)).trans hv
  have hbyte := byte_of_rd64 hq (r := i % 8) (Nat.mod_lt _ (by decide))
  rw [Nat.div_add_mod] at hbyte
  exact hbyte.trans (byte_of_rd64 hv (r := 0) (by decide)).symm

/-- In other blocks a byte ends the search before. -/
theorem isConstBitReads_within (hpos : 1 ≤ size) (h : ∀ v, ¬ AllBits data size v) :
    ∀ i ∈ (isConstBitReads data size).2, i < size := by
  rw [isConstBitReads]
  split
  case isTrue =>
    intro i hi
    rw [List.mem_singleton.mp hi]
    exact hpos
  case isFalse hfirst =>
    obtain ⟨v, hv⟩ := fill_of_first hfirst
    obtain ⟨k, hk, hne⟩ : ∃ k < size, data k ≠ data 0 := by
      by_contra hall
      apply h v
      rw [allBits_iff]
      intro i hi
      by_contra hne
      exact hall ⟨i, hi, fun heq => hne (heq.trans hv)⟩
    split
    case isTrue hsize =>
      have hwordreads : ∀ i ∈ wordReads 0, i < size := by
        intro i hi
        have hlt := (mem_wordReads.mp hi).2
        omega
      split
      case isTrue =>
        intro i hi
        rcases List.mem_cons.mp hi with rfl | hi
        · exact hpos
        · exact hwordreads i hi
      case isFalse hwide =>
        have hwords := @wordLoop_result data (rd64 data 0) size 0
        have hreads := @wordLoop_reads data (rd64 data 0) size 0
        simp only [Nat.zero_add] at hwords hreads
        have hbefore : ∀ i ∈ 0 :: wordReads 0 ++ (wordLoop data (rd64 data 0) size 0).2,
            i < size := by
          intro i hi
          rcases List.mem_append.mp hi with hi | hi
          · rcases List.mem_cons.mp hi with rfl | hi
            · exact hpos
            · exact hwordreads i hi
          · exact hreads i hi
        dsimp only
        rw [hwords]
        split_ifs with hall
        · intro i hi
          rcases List.mem_append.mp hi with hi | hi
          · exact hbefore i hi
          · have hk8 : 8 * ((size - 1) / 8) ≤ k := by
              by_contra hlt
              exact hne (byte_of_words hwide hall (Nat.not_le.mp hlt))
            have hin := @tailLoop_within data (size - 8 * ((size - 1) / 8))
              (8 * ((size - 1) / 8)) (data 0)
              ⟨k - 8 * ((size - 1) / 8), by omega, by rwa [Nat.add_sub_of_le hk8]⟩ i hi
            omega
        · exact hbefore
    case isFalse hsize =>
      intro i hi
      rcases List.mem_cons.mp hi with rfl | hi
      · exact hpos
      · have hin := @tailLoop_within data size 0 (data 0) ⟨k, hk, by rwa [Nat.zero_add]⟩ i hi
        omega

/-- `is_const_bit` looks at its block only if the block is not constant. -/
theorem constBitRight_iff (hpos : 1 ≤ size) :
    ConstBitRight data size ↔ ∀ v, ¬ AllBits data size v := by
  constructor
  · intro h v hv
    exact lt_irrefl size (h.reads size (isConstBitReads_past hpos hv))
  · intro h
    constructor
    · intro m hm v
      constructor
      · intro hsome
        rw [isConstBitReads_fst] at hsome
        rw [allBits_iff]
        intro i hi
        rw [← hm i hi]
        exact isConstBit_some hsome hi
      · exact fun hv => absurd hv (h v)
    · exact isConstBitReads_within hpos h

/-- A byte of zeros, with bytes of ones behind it. -/
def zeroByte (i : ℕ) : UInt8 := if i = 0 then 0 else 0xff

/-- A byte with one bit set. -/
def oneBit (i : ℕ) : UInt8 := if i = 0 then 1 else 0

theorem constBitRight_iff_oneBit :
    ConstBitRight oneBit 1 ↔ ∀ v, ¬ AllBits oneBit 1 v :=
  constBitRight_iff le_rfl

/-- The byte behind a constant block is read, and then the block does not count as constant. -/
theorem isConstBitReads_behind : ¬ ∀ (data : ℕ → UInt8) (size : ℕ), 1 ≤ size →
    ((∀ m : ℕ → UInt8, (∀ i < size, m i = data i) → ∀ v,
      (isConstBitReads m size).1 = some v ↔ AllBits data size v) ∨
      ∀ i ∈ (isConstBitReads data size).2, i < size) := by
  intro h
  rcases h zeroByte 1 le_rfl with hvalue | hreads
  · have hzero : AllBits zeroByte 1 false := by
      rw [allBits_iff]
      intro i hi
      obtain rfl := Nat.lt_one_iff.mp hi
      rfl
    have hsome := (hvalue zeroByte (fun _ _ => rfl) false).mpr hzero
    exact absurd hsome (by decide)
  · exact absurd (hreads 1 (by decide)) (lt_irrefl 1)

end Right

end Ploop.Cbt
