import Ploop.Lib.Chunks
import Ploop.Image.Header

/-!
# Discarding a range of the device

`blk_discard` of `balloon.c` cuts a range at multiples of the cluster, since one
`BLKDISCARD` takes fewer than 4 GB. It takes its cluster for sectors, and gets bytes.
-/

namespace Ploop.Balloon

open Chunks

def uintMax : ℕ := 2 ^ 32 - 1

/-! ## The loop -/

def maxDiscardLen (cluster : ℕ) : ℕ := s2b (b2s uintMax / cluster * cluster)

/-- `range[1]` of one turn. -/
def discardLen (cluster start len : ℕ) : ℕ :=
  let n := min len (maxDiscardLen cluster)
  if start % s2b cluster ≠ 0 ∧ n < len then u64 (n + 2 ^ 64 - start % s2b cluster) else n

/-- `blk_discard` from its `k`th call on. The result is the list of all ranges that were
passed to `BLKDISCARD` and the return value, if the loop ends. -/
def blkDiscardFrom (ioctl : ℕ → ℤ) (cluster : ℕ) :
    ℕ → ℕ → ℕ → ℕ → Option (List (ℕ × ℕ) × ℤ)
  | 0, _, _, _ => none
  | fuel + 1, k, start, len =>
      if len = 0 then some ([], 0)
      else
        let n := discardLen cluster start len
        if ioctl k ≠ 0 then some ([(start, n)], ioctl k)
        else (blkDiscardFrom ioctl cluster fuel (k + 1) (u64 (start + n))
          (u64 (len + 2 ^ 64 - n))).map fun r => ((start, n) :: r.1, r.2)

/-- The call that `ploop_blk_discard` leads to. -/
def blkDiscard (ioctl : ℕ → ℤ) (blocksize fuel start len : ℕ) : Option (List (ℕ × ℕ) × ℤ) :=
  blkDiscardFrom ioctl (s2b blocksize) fuel 0 start len

/-- With no failing call the loop ends, and its ranges cut `[start, start + len)` into pieces
that one call can take. Positions are 64-bit numbers. -/
def DiscardsRange (ioctl : ℕ → ℤ) (blocksize start len : ℕ) : Prop :=
  ∃ fuel l, blkDiscard ioctl blocksize fuel start len =
      some (l.map fun c => (u64 (start + c.1), c.2), 0) ∧
    Tiles 0 len l ∧ ∀ c ∈ l, c.2 ≤ uintMax

/-! ## One turn -/

section Turn

variable {ioctl : ℕ → ℤ} {cluster blocksize fuel k start len a n : ℕ}

theorem blkDiscardFrom_zero : blkDiscardFrom ioctl cluster (fuel + 1) k start 0 = some ([], 0) :=
  if_pos rfl

theorem blkDiscardFrom_turn (hioctl : ∀ k, ioctl k = 0) (hlen : 0 < len)
    (hn : discardLen cluster start len = n) :
    blkDiscardFrom ioctl cluster (fuel + 1) k start len =
      (blkDiscardFrom ioctl cluster fuel (k + 1) (u64 (start + n))
        (u64 (len + 2 ^ 64 - n))).map fun r => ((start, n) :: r.1, r.2) := by
  rw [blkDiscardFrom, if_neg hlen.ne']
  dsimp only
  rw [if_neg (not_not.mpr (hioctl k)), hn]

theorem s2b_pow (k : ℕ) : s2b (2 ^ k) = 2 ^ (k + 9) := by
  exact (pow_add 2 k 9).symm

/-- Up to 4 MB the limit is four gigabytes less one of the units the loop cuts at. -/
theorem maxDiscardLen_small {j : ℕ} (hj : j ≤ 22) :
    maxDiscardLen (2 ^ j) + s2b (2 ^ j) = 2 ^ 32 := by
  interval_cases j <;> decide

/-- The limit is 0 once a cluster has more bytes than four gigabytes have sectors. -/
theorem maxDiscardLen_large {j : ℕ} (hj : 23 ≤ j) : maxDiscardLen (2 ^ j) = 0 := by
  have hle : 2 ^ 23 ≤ 2 ^ j := Nat.pow_le_pow_right (by norm_num) hj
  have hzero : b2s uintMax / 2 ^ j = 0 := by
    apply Nat.div_eq_of_lt
    calc
      b2s uintMax < 2 ^ 23 := by decide
      _ ≤ 2 ^ j := hle
  unfold maxDiscardLen
  rw [hzero, zero_mul]
  rfl

/-- What one turn discards is not empty, within the rest and within the limit. -/
theorem discardLen_bounds {j : ℕ} (hj : j ≤ 22) (hlen : 0 < len) (hmax : len < 2 ^ 64) :
    0 < discardLen (2 ^ j) start len ∧ discardLen (2 ^ j) start len ≤ len ∧
      discardLen (2 ^ j) start len ≤ uintMax := by
  have hsum := maxDiscardLen_small hj
  have hpos : 0 < s2b (2 ^ j) := by
    rw [s2b_pow]
    positivity
  have hunit : s2b (2 ^ j) ≤ 2 ^ 31 := by
    rw [s2b_pow]
    exact Nat.pow_le_pow_right (by norm_num) (by omega)
  have hmod := Nat.mod_lt start hpos
  unfold discardLen uintMax
  dsimp only
  split
  case isTrue h =>
    -- only a range longer than the limit is cut back to a multiple of the unit
    have hmin : min len (maxDiscardLen (2 ^ j)) = maxDiscardLen (2 ^ j) := by
      apply min_eq_right
      by_contra hlt
      rw [min_eq_left (not_le.mp hlt).le] at h
      exact lt_irrefl _ h.2
    rw [hmin] at h ⊢
    have hsub : u64 (maxDiscardLen (2 ^ j) + 2 ^ 64 - start % s2b (2 ^ j)) =
        maxDiscardLen (2 ^ j) - start % s2b (2 ^ j) := by
      unfold u64
      omega
    rw [hsub]
    omega
  case isFalse => omega

theorem discardLen_aligned {j : ℕ} (hj : 23 ≤ j) (h : start % s2b (2 ^ j) = 0) :
    discardLen (2 ^ j) start len = 0 := by
  unfold discardLen
  dsimp only
  rw [maxDiscardLen_large hj, Nat.min_zero, if_neg fun hcut => hcut.1 h]

/-- The distance to the cut before `start` is subtracted from a limit of 0. -/
theorem discardLen_wraps {j : ℕ} (hj : 23 ≤ j) (hj' : j ≤ 26) (h : start % s2b (2 ^ j) ≠ 0)
    (hlen : 0 < len) : uintMax < discardLen (2 ^ j) start len := by
  have hmod : start % s2b (2 ^ j) < 2 ^ 35 := by
    calc
      start % s2b (2 ^ j) < 2 ^ (j + 9) := by
        rw [← s2b_pow]
        exact Nat.mod_lt _ (Nat.mul_pos (by positivity) (by norm_num))
      _ ≤ 2 ^ 35 := Nat.pow_le_pow_right (by norm_num) (by omega)
  unfold discardLen
  dsimp only
  rw [maxDiscardLen_large hj, Nat.min_zero, if_pos ⟨h, hlen⟩]
  unfold u64 uintMax
  omega

end Turn

/-! ## The whole loop -/

section Loop

variable {ioctl : ℕ → ℤ} {j fuel k start len a : ℕ}

/-- Every turn leaves less, and what it took goes in front of what the rest discards. -/
theorem blkDiscardFrom_tiles (hioctl : ∀ k, ioctl k = 0) (hj : j ≤ 22) (hmax : len < 2 ^ 64)
    (hfuel : len < fuel) :
    ∃ l, blkDiscardFrom ioctl (2 ^ j) fuel k (u64 (start + a)) len =
        some (l.map fun c => (u64 (start + c.1), c.2), 0) ∧
      Tiles a (a + len) l ∧ ∀ c ∈ l, c.2 ≤ uintMax := by
  induction fuel generalizing k len a with
  | zero => exact absurd hfuel (Nat.not_lt_zero _)
  | succ fuel ih =>
      rcases Nat.eq_zero_or_pos len with rfl | hlen
      · exact ⟨[], blkDiscardFrom_zero, rfl, fun c hc => absurd hc List.not_mem_nil⟩
      · obtain ⟨hpos, hle, hlim⟩ :=
          @discardLen_bounds (u64 (start + a)) len j hj hlen hmax
        generalize hn : discardLen (2 ^ j) (u64 (start + a)) len = n at hpos hle hlim
        have hstart : u64 (u64 (start + a) + n) = u64 (start + (a + n)) := by
          unfold u64
          rw [Nat.mod_add_mod, add_assoc]
        have hrest : u64 (len + 2 ^ 64 - n) = len - n := by
          unfold u64
          omega
        obtain ⟨l, hrun, htiles, hlimits⟩ :=
          @ih (k + 1) (len - n) (a + n) (by omega) (by omega)
        refine ⟨(a, n) :: l, ?_, ⟨rfl, hpos, ?_⟩, ?_⟩
        · rw [blkDiscardFrom_turn hioctl hlen hn, hstart, hrest, hrun]
          rfl
        · rwa [add_assoc, Nat.add_sub_cancel' hle] at htiles
        · intro c hc
          rcases List.mem_cons.mp hc with rfl | hc
          · exact hlim
          · exact hlimits c hc

/-- A range of length 0 is discarded again and again. -/
theorem blkDiscardFrom_endless (hioctl : ∀ k, ioctl k = 0) (hj : 23 ≤ j)
    (hstart : start < 2 ^ 64) (hal : start % s2b (2 ^ j) = 0) (hlen : 0 < len)
    (hmax : len < 2 ^ 64) : blkDiscardFrom ioctl (2 ^ j) fuel k start len = none := by
  induction fuel generalizing k with
  | zero => rfl
  | succ fuel ih =>
      have hsame : u64 (len + 2 ^ 64 - 0) = len := by
        unfold u64
        omega
      rw [blkDiscardFrom_turn hioctl hlen (discardLen_aligned hj hal), add_zero,
        u64_of_lt hstart, hsame, ih]
      rfl

/-- Clusters above 4 MB: the loop does not end, or its first range is too long. -/
theorem not_discardsRange (hioctl : ∀ k, ioctl k = 0) (hj : 23 ≤ j) (hj' : j ≤ 26)
    (hstart : start < 2 ^ 64) (hlen : 0 < len) (hmax : len < 2 ^ 64) {blocksize : ℕ}
    (hbs : s2b blocksize = 2 ^ j) : ¬ DiscardsRange ioctl blocksize start len := by
  rintro ⟨fuel, l, hrun, htiles, hlim⟩
  unfold blkDiscard at hrun
  rw [hbs] at hrun
  by_cases hal : start % s2b (2 ^ j) = 0
  · rw [blkDiscardFrom_endless hioctl hj hstart hal hlen hmax] at hrun
    exact absurd hrun (Option.some_ne_none _).symm
  · cases fuel with
    | zero => exact absurd hrun (Option.some_ne_none _).symm
    | succ fuel =>
        rw [blkDiscardFrom_turn hioctl hlen rfl] at hrun
        obtain ⟨r, -, hr⟩ := Option.map_eq_some_iff.mp hrun
        have hhead := congrArg Prod.fst hr
        cases l with
        | nil => exact absurd hhead (List.cons_ne_nil _ _)
        | cons c l =>
            have hc : discardLen (2 ^ j) start len = c.2 :=
              congrArg Prod.snd (List.cons.inj hhead).1
            have hwrap := discardLen_wraps hj hj' hal hlen
            rw [hc] at hwrap
            exact absurd (hlim c List.mem_cons_self) hwrap.not_ge

end Loop

/-- What `ploop_blk_discard` asks of the device is right for clusters of up to 4 MB. -/
theorem blkDiscard_iff {ioctl : ℕ → ℤ} {blocksize start len : ℕ} (hioctl : ∀ k, ioctl k = 0)
    (hbs : isValidBlocksize blocksize) (hstart : start < 2 ^ 64) (hlen : len < 2 ^ 64) :
    DiscardsRange ioctl blocksize start len ↔ len = 0 ∨ blocksize ≤ 8192 := by
  obtain ⟨k, -, hk, rfl⟩ := isValidBlocksize_iff.mp hbs
  have hsmall : 2 ^ k ≤ 8192 ↔ k ≤ 13 := by
    rw [show 8192 = 2 ^ 13 from rfl, Nat.pow_le_pow_iff_right (by norm_num)]
  rw [hsmall]
  constructor
  · intro h
    by_contra hnot
    rw [not_or, not_le] at hnot
    exact not_discardsRange hioctl (show 23 ≤ k + 9 by omega) (by omega) hstart
      (Nat.pos_of_ne_zero hnot.1) hlen (s2b_pow k) h
  · rintro (rfl | hk')
    · exact ⟨1, [], blkDiscardFrom_zero, rfl, fun c hc => absurd hc List.not_mem_nil⟩
    · obtain ⟨l, hrun, htiles, hlim⟩ :=
        @blkDiscardFrom_tiles ioctl (k + 9) (len + 1) 0 start len 0 hioctl (by omega) hlen
          (Nat.lt_succ_self len)
      rw [add_zero, u64_of_lt hstart] at hrun
      rw [zero_add] at htiles
      refine ⟨len + 1, l, ?_, htiles, hlim⟩
      unfold blkDiscard
      rw [s2b_pow]
      exact hrun

/-- Where the range ends within 64 bits, every byte of it and no other is discarded. -/
theorem DiscardsRange.mem_iff {ioctl : ℕ → ℤ} {blocksize start len : ℕ}
    (h : DiscardsRange ioctl blocksize start len) (hfit : start + len ≤ 2 ^ 64) :
    ∃ fuel issued, blkDiscard ioctl blocksize fuel start len = some (issued, 0) ∧
      ∀ x, (∃ r ∈ issued, r.1 ≤ x ∧ x < r.1 + r.2) ↔ start ≤ x ∧ x < start + len := by
  obtain ⟨fuel, l, hrun, htiles, -⟩ := h
  refine ⟨fuel, _, hrun, fun x => ?_⟩
  have hshift := htiles.shift start
  rw [zero_add, add_comm len] at hshift
  rw [← hshift.mem_iff]
  have hmap : (l.map fun c => (u64 (start + c.1), c.2)) = l.map fun c => (c.1 + start, c.2) := by
    apply List.map_congr_left
    intro c hc
    have hlt := ((htiles.mem_iff (x := c.1)).mp ⟨c, hc, le_rfl,
      Nat.lt_add_of_pos_right (htiles.pos hc)⟩).2
    rw [u64_of_lt (by omega), add_comm]
  rw [hmap]

theorem blkDiscard_iff_oneBlock :
    DiscardsRange (fun _ => 0) 2048 4096 (2 ^ 33) ↔ 2 ^ 33 = 0 ∨ 2048 ≤ 8192 :=
  blkDiscard_iff (fun _ => rfl) (by decide) (by norm_num) (by norm_num)

/-- A block of 8 MB: the first block is never discarded. -/
theorem blkDiscard_eightMegabytes : ¬ DiscardsRange (fun _ => 0) 16384 0 (2 ^ 23) :=
  not_discardsRange (j := 23) (fun _ => rfl) le_rfl (by norm_num) (by norm_num) (by norm_num)
    (by norm_num) (s2b_pow 14)

end Ploop.Balloon
