import Ploop.Image.Sparse

/-!
# The reverse map of `range_build_rmap`

Which blocks the map knows, and when it can be built. The search ends early when it has found
as many blocks as it was asked for.
-/

namespace Ploop.Check

open Storage Program

section Map

variable (f : File)

/-- The block that the search reads for a cluster; 0 for none. -/
def ridx (clu : ℕ) : ℕ :=
  (f.word (u32 (clu + mapOffset))).toNat /
    (secToIoff f.hdr.layout.blocksize f.hdr.layout.blocksize f.hdr.layout.version).toNat

/-- `iblk_end`, a number of bytes of the table cut to 32 bits. -/
def iblkEnd : ℕ := u32 (f.hdr.layout.l2Size * 4)

/-- A block in the range asked for. -/
def Wanted (b : ℕ) : Prop := 1 ≤ b ∧ b < iblkEnd f

instance (b : ℕ) : Decidable (Wanted f b) := inferInstanceAs (Decidable (_ ∧ _))

/-- How many clusters before `clu` have such a block. -/
def foundBefore : ℕ → ℕ
  | 0 => 0
  | clu + 1 => foundBefore clu + if Wanted f (ridx f clu) then 1 else 0

/-- The search has not ended before `clu`. -/
def Seen (clu : ℕ) : Prop := clu < f.hdr.layout.l2Size ∧ foundBefore f clu + 1 < iblkEnd f

/-- The map knows block `b`. -/
def Mapped (b : ℕ) : Prop := ∃ clu, Seen f clu ∧ ridx f clu = b ∧ Wanted f b

/-- The block is in the reach of the map and behind the index. -/
def InReach (clu : ℕ) : Prop :=
  ridx f clu < f.hdr.layout.l2Size ∧ (ridx f clu = 0 ∨ f.hdr.layout.l1Size ≤ ridx f clu)

/-- `range_build_rmap` builds the map. -/
structure MapBuilds : Prop where
  request : 1 < iblkEnd f
  size : f.hdr.layout.l2Size < zeroIndexMark.toNat
  blocks : ∀ clu, Seen f clu → InReach f clu

end Map

section Scan

variable {f : File} {d : Delta} {rmap : ℕ → UInt32} {clu : ℕ}

theorem foundBefore_mono {m n : ℕ} (h : m ≤ n) : foundBefore f m ≤ foundBefore f n := by
  induction h with
  | refl => exact le_rfl
  | step _ ih => exact ih.trans (Nat.le_add_right _ _)

theorem foundBefore_le (f : File) (n : ℕ) : foundBefore f n ≤ n := by
  induction n with
  | zero => exact le_rfl
  | succ n ih =>
      rw [foundBefore]
      split <;> omega

theorem Seen.mono {m n : ℕ} (h : Seen f n) (hm : m ≤ n) : Seen f m :=
  ⟨hm.trans_lt h.1, (Nat.succ_le_succ (foundBefore_mono hm)).trans_lt h.2⟩

/-- The map after the clusters before `clu`. -/
structure MapAt (f : File) (clu : ℕ) (rmap : ℕ → UInt32) : Prop where
  known : ∀ b < f.hdr.layout.l2Size, rmap b ≠ zeroIndexMark ↔
    ∃ k < clu, Seen f k ∧ ridx f k = b ∧ Wanted f b
  blocks : ∀ k < clu, Seen f k → InReach f k

/-- What the search ends with. -/
def MapFor (f : File) (rmap : ℕ → UInt32) : Prop :=
  ∀ b < f.hdr.layout.l2Size, rmap b ≠ zeroIndexMark ↔ Mapped f b

theorem MapAt.all (h : MapAt f clu rmap) (hend : ∀ k, Seen f k → k < clu) :
    MapFor f rmap ∧ ∀ k, Seen f k → InReach f k := by
  constructor
  · intro b hb
    rw [h.known b hb]
    constructor
    · rintro ⟨k, -, hk⟩
      exact ⟨k, hk⟩
    · rintro ⟨k, hk⟩
      exact ⟨k, hend k hk.1, hk⟩
  · exact fun k hk => h.blocks k (hend k hk) hk

theorem MapAt.idle (h : MapAt f clu rmap) (hreach : InReach f clu)
    (hnot : ¬ Wanted f (ridx f clu)) : MapAt f (clu + 1) rmap := by
  constructor
  · intro b hb
    rw [h.known b hb, Nat.exists_lt_succ_right]
    constructor
    · exact .inl
    · rintro (hk | ⟨-, rfl, hw⟩)
      · exact hk
      · exact absurd hw hnot
  · intro k hk hs
    rcases Nat.lt_succ_iff_lt_or_eq.mp hk with hlt | rfl
    · exact h.blocks k hlt hs
    · exact hreach

theorem MapAt.put (h : MapAt f clu rmap) (hs : Seen f clu) (hreach : InReach f clu)
    (hw : Wanted f (ridx f clu)) {v : UInt32} (hv : v ≠ zeroIndexMark) :
    MapAt f (clu + 1) (Function.update rmap (ridx f clu) v) := by
  constructor
  · intro b hb
    rw [Function.update_apply, Nat.exists_lt_succ_right, ← h.known b hb]
    split
    case isTrue heq =>
      subst heq
      exact ⟨fun _ => .inr ⟨hs, rfl, hw⟩, fun _ => hv⟩
    case isFalse hne =>
      constructor
      · exact .inl
      · rintro (hk | ⟨-, heq, -⟩)
        · exact hk
        · exact absurd heq.symm hne
  · intro k hk hs'
    rcases Nat.lt_succ_iff_lt_or_eq.mp hk with hlt | rfl
    · exact h.blocks k hlt hs'
    · exact hreach

theorem foundBefore_wanted (hw : Wanted f (ridx f clu)) :
    foundBefore f (clu + 1) = foundBefore f clu + 1 := by
  rw [foundBefore, if_pos hw]

theorem foundBefore_idle (hnot : ¬ Wanted f (ridx f clu)) :
    foundBefore f (clu + 1) = foundBefore f clu := by
  rw [foundBefore, if_neg hnot, Nat.add_zero]

/-- A cluster number is no mark. -/
theorem clu_ne_mark {slot : ℕ} (hslot : slot = u32 (clu + mapOffset))
    (hclu : clu < zeroIndexMark.toNat) :
    UInt32.ofNat (slot + 2 ^ 32 - mapOffset) ≠ zeroIndexMark := by
  intro h
  have hnat := congrArg UInt32.toNat h
  have hmark : zeroIndexMark.toNat = 2 ^ 32 - 1 := rfl
  rw [UInt32.toNat_ofNat', hmark] at hnat
  rw [hmark] at hclu
  simp only [u32, mapOffset] at hslot hnat
  omega

variable (hL : f.hdr.layout.Valid) (hindex : f.hdr.layout.l1Size * f.hdr.layout.cluster ≤ f.size)
  (hsize : f.hdr.layout.l2Size < zeroIndexMark.toNat)

include hL hindex hsize

theorem rmapScan_spec (k : ℕ) (hk : clu + k = f.hdr.layout.l2Size) (hm : MapAt f clu rmap)
    (hseen : foundBefore f clu + 1 < iblkEnd f) :
    Triple (Cached f f.hdr.layout)
      (rmapScan 1 (iblkEnd f) f.hdr.layout.l2Size (iblkEnd f - 1) k clu (foundBefore f clu) rmap)
      (fun m d => Cached f f.hdr.layout d ∧ MapFor f m ∧ ∀ k, Seen f k → InReach f k)
      (fun _ => ¬ ∀ k, Seen f k → InReach f k) := by
  induction k generalizing clu rmap with
  | zero =>
      apply Triple.ret
      intro d hd
      refine ⟨hd, hm.all fun k hs => ?_⟩
      have hlt := hs.1
      omega
  | succ k ih =>
      have hs : Seen f clu := ⟨by omega, hseen⟩
      have hslot : u32 (clu + mapOffset) < f.hdr.layout.l1Size * f.hdr.layout.slots :=
        (Nat.mod_le _ _).trans_lt (hL.clu_lt hs.1)
      have hpage : u32 (clu + mapOffset) / f.hdr.layout.slots < f.hdr.layout.l1Size :=
        (Nat.div_lt_iff_lt_mul hL.slots_pos).mpr hslot
      apply Triple.look
      intro d hd
      dsimp only
      rw [hd.slots, hd.l1Size, if_neg (Nat.not_le.mpr hpage)]
      apply Triple.bind (R := fun _ e => Cached f f.hdr.layout e ∧
        e.l2Cache = some (u32 (clu + mapOffset) / f.hdr.layout.slots))
      · apply (loadL2_cached hd .read _).conseq
        · exact fun _ he => he
        · exact fun _ _ he => he
        · intro e hshort
          have hend := Nat.mul_le_mul_right f.hdr.layout.cluster (Nat.succ_le_of_lt hpage)
          rw [Nat.succ_mul] at hend
          omega
      · intro _
        apply Triple.look
        rintro e ⟨he, hcache⟩
        have hword : e.l2 (u32 (clu + mapOffset) % f.hdr.layout.slots) =
            f.word (u32 (clu + mapOffset)) := by
          rw [he.page _ hcache _ (Nat.mod_lt _ hL.slots_pos), Nat.div_add_mod']
        have hridx : (e.l2 (u32 (clu + mapOffset) % f.hdr.layout.slots)).toNat /
            (secToIoff e.blocksize e.blocksize e.version).toNat = ridx f clu := by
          rw [hword, he.blocksize, he.version]
          rfl
        rw [hridx, he.l1Size, Nat.div_add_mod']
        split
        case isTrue hbeyond =>
          apply Triple.raise
          intro t _ hall
          exact absurd (hall clu hs).1 (Nat.not_lt.mpr hbeyond)
        case isFalse hinside =>
          split
          case isTrue hindexed =>
            apply Triple.raise
            intro t _ hall
            rcases (hall clu hs).2 with hzero | hge
            · exact hindexed.1 hzero
            · omega
          case isFalse hdata =>
            have hreach : InReach f clu := ⟨Nat.not_le.mp hinside, by omega⟩
            split
            case isFalse hnot =>
              have hm' := hm.idle hreach hnot
              have hnext := ih (by omega) hm' (by rwa [foundBefore_idle hnot])
              rw [foundBefore_idle hnot] at hnext
              apply hnext.conseq
              · rintro t rfl
                exact he
              · exact fun _ _ ht => ht
              · exact fun _ ht => ht
            case isTrue hw =>
              have hm' := hm.put hs hreach hw (clu_ne_mark rfl (hs.1.trans hsize))
              split
              case isTrue hend =>
                apply Triple.ret
                rintro t rfl
                refine ⟨he, hm'.all fun j hj => ?_⟩
                by_contra hge
                have hmono := foundBefore_mono (f := f) (Nat.not_lt.mp hge)
                have hlt := hj.2
                rw [foundBefore_wanted hw] at hmono
                omega
              case isFalse hmore =>
                have hnext := ih (by omega) hm' (by rw [foundBefore_wanted hw]; omega)
                rw [foundBefore_wanted hw] at hnext
                apply hnext.conseq
                · rintro t rfl
                  exact he
                · exact fun _ _ ht => ht
                · exact fun _ ht => ht

end Scan

section Build

variable {f : File}

/-- The map is built, or something is in its way. -/
theorem rangeBuildRmap_spec (hL : f.hdr.layout.Valid)
    (hindex : f.hdr.layout.l1Size * f.hdr.layout.cluster ≤ f.size) (stray : ℕ → UInt32) :
    Triple (fun d => Cached f f.hdr.layout d ∧ d.l2Size = f.hdr.layout.l2Size)
      (rangeBuildRmap 1 (iblkEnd f) f.hdr.layout.l2Size stray)
      (fun m d => Cached f f.hdr.layout d ∧ MapFor f m ∧ MapBuilds f)
      (fun _ => ¬ MapBuilds f) := by
  apply Triple.look
  rintro d ⟨hd, hl2⟩
  rw [hl2]
  split
  case isTrue hrequest =>
    apply Triple.raise
    exact fun _ _ hb => absurd hb.request (Nat.not_lt.mpr hrequest)
  case isFalse hrequest =>
    split
    case isTrue hlarge =>
      apply Triple.raise
      exact fun _ _ hb => absurd hb.size (Nat.not_lt.mpr hlarge)
    case isFalse hsmall =>
      have hsize := Nat.not_le.mp hsmall
      have hstart : MapAt f 0 fun i =>
          if i < f.hdr.layout.l2Size then zeroIndexMark else stray i := by
        constructor
        · intro b hb
          rw [if_pos hb]
          exact ⟨fun h => absurd rfl h, fun ⟨k, hk, _⟩ => absurd hk (Nat.not_lt_zero k)⟩
        · exact fun k hk => absurd hk (Nat.not_lt_zero k)
      have hscan := rmapScan_spec hL hindex hsize _ (Nat.zero_add _) hstart (by
        rw [foundBefore]
        omega)
      apply Triple.bind (R := fun _ e => Cached f f.hdr.layout e)
      · apply Triple.update
        rintro e rfl
        exact ⟨hd.file, hd.blocksize, hd.version, hd.l1Size,
          fun p hp => absurd hp (Option.some_ne_none p).symm⟩
      · intro _
        apply hscan.conseq
        · exact fun _ he => he
        · rintro m e ⟨he, hm, hreach⟩
          exact ⟨he, hm, Nat.not_le.mp hrequest, hsize, hreach⟩
        · exact fun _ he hb => he hb.blocks

end Build

end Ploop.Check
