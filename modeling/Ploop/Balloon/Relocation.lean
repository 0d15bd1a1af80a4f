import Ploop.Balloon.Split
import Ploop.Image.SparseRepair

/-!
# The relocation range is partitioned

The table names the owners of the blocks in the range, the map of free blocks fills the gaps, and
the split marks what is free.
-/

namespace Ploop.Balloon

open Storage Program Check

/-! ## The owners after the table -/

/-- The blocks in `[s, a)` that a cluster before `clu` has. -/
def known (f : File) (s a clu : ℕ) : Finset ℕ :=
  (Finset.Ico s a).filter fun b => ∃ c < clu, f.hdr.layout.bat f c = some b

/-- The reverse map and the number of blocks found, after the clusters before `clu`. -/
structure FoundAt (f : File) (s a clu : ℕ) (rmap : ℕ → UInt32) (n : ℕ) : Prop where
  label : ∀ b, s ≤ b → b < a → ∀ c < clu, f.hdr.layout.bat f c = some b → rmap b = UInt32.ofNat c
  mark : ∀ b, s ≤ b → b < a → (∀ c < clu, f.hdr.layout.bat f c ≠ some b) → rmap b = zeroIndexMark
  count : n = (known f s a clu).card

section Known

variable {f : File} {s a clu b n : ℕ} {rmap : ℕ → UInt32}

theorem mem_known : b ∈ known f s a clu ↔
    (s ≤ b ∧ b < a) ∧ ∃ c < clu, f.hdr.layout.bat f c = some b := by
  rw [known, Finset.mem_filter, Finset.mem_Ico]

theorem known_zero : known f s a 0 = ∅ := by
  apply Finset.eq_empty_of_forall_notMem
  intro b hb
  obtain ⟨c, hc, -⟩ := (mem_known.mp hb).2
  exact absurd hc (Nat.not_lt_zero c)

theorem known_subset : known f s a clu ⊆ Finset.Ico s a := Finset.filter_subset _ _

theorem known_idle (h : ∀ b, f.hdr.layout.bat f clu = some b → ¬ (s ≤ b ∧ b < a)) :
    known f s a (clu + 1) = known f s a clu := by
  ext b
  rw [mem_known, mem_known, Nat.exists_lt_succ_right]
  constructor
  · rintro ⟨hb, hc | hc⟩
    · exact ⟨hb, hc⟩
    · exact absurd hb (h b hc)
  · rintro ⟨hb, hc⟩
    exact ⟨hb, .inl hc⟩

theorem known_found (h : f.hdr.layout.bat f clu = some b) (hs : s ≤ b) (ha : b < a) :
    known f s a (clu + 1) = insert b (known f s a clu) := by
  ext x
  rw [Finset.mem_insert, mem_known, mem_known, Nat.exists_lt_succ_right]
  constructor
  · rintro ⟨hx, hc | hc⟩
    · exact .inr ⟨hx, hc⟩
    · exact .inl (Option.some.inj (hc.symm.trans h))
  · rintro (rfl | ⟨hx, hc⟩)
    · exact ⟨⟨hs, ha⟩, .inr h⟩
    · exact ⟨hx, .inl hc⟩

theorem FoundAt.idle (h : FoundAt f s a clu rmap n)
    (hnot : ∀ b, f.hdr.layout.bat f clu = some b → ¬ (s ≤ b ∧ b < a)) :
    FoundAt f s a (clu + 1) rmap n where
  label := by
    intro b hs ha c hc hb
    rcases Nat.lt_succ_iff_lt_or_eq.mp hc with hlt | rfl
    · exact h.label b hs ha c hlt hb
    · exact absurd ⟨hs, ha⟩ (hnot b hb)
  mark b hs ha hno := h.mark b hs ha fun c hc => hno c (hc.trans (Nat.lt_succ_self clu))
  count := by rw [known_idle hnot, h.count]

variable (hone : Indirection.OneToOne (f.hdr.layout.bat f))

include hone

theorem FoundAt.put (h : FoundAt f s a clu rmap n) (hb : f.hdr.layout.bat f clu = some b)
    (hs : s ≤ b) (ha : b < a) :
    FoundAt f s a (clu + 1) (Function.update rmap b (UInt32.ofNat clu)) (n + 1) where
  label := by
    intro x hx hxa c hc hcx
    rcases Nat.lt_succ_iff_lt_or_eq.mp hc with hlt | rfl
    · have hne : x ≠ b := by
        rintro rfl
        exact hlt.ne (hone hcx hb)
      rw [Function.update_of_ne hne]
      exact h.label x hx hxa c hlt hcx
    · obtain rfl := Option.some.inj (hcx.symm.trans hb)
      rw [Function.update_self]
  mark := by
    intro x hx hxa hno
    have hne : x ≠ b := by
      rintro rfl
      exact hno clu (Nat.lt_succ_self clu) hb
    rw [Function.update_of_ne hne]
    exact h.mark x hx hxa fun c hc => hno c (hc.trans (Nat.lt_succ_self clu))
  count := by
    have hfresh : b ∉ known f s a clu := by
      intro hmem
      obtain ⟨c, hc, hcb⟩ := (mem_known.mp hmem).2
      exact hc.ne (hone hcb hb)
    rw [known_found hb hs ha, Finset.card_insert_of_notMem hfresh, h.count]

/-- When every block of the range is found, the other clusters have none of them. -/
theorem FoundAt.full (h : FoundAt f s a clu rmap n) (hn : a - s ≤ n) {m : ℕ} (hm : clu ≤ m) :
    FoundAt f s a m rmap n := by
  have hall : known f s a clu = Finset.Ico s a := by
    apply Finset.eq_of_subset_of_card_le known_subset
    rwa [Nat.card_Ico, ← h.count]
  have hfound : ∀ b, s ≤ b → b < a → ∃ c < clu, f.hdr.layout.bat f c = some b := by
    intro b hs ha
    have hmem : b ∈ known f s a clu := by
      rw [hall]
      exact Finset.mem_Ico.mpr ⟨hs, ha⟩
    exact (mem_known.mp hmem).2
  constructor
  · intro b hs ha c _ hcb
    obtain ⟨c', hc', hcb'⟩ := hfound b hs ha
    obtain rfl := hone hcb' hcb
    exact h.label b hs ha c' hc' hcb'
  · intro b hs ha hno
    obtain ⟨c, hc, hcb⟩ := hfound b hs ha
    exact absurd hcb (hno c (hc.trans_le hm))
  · rw [h.count]
    apply congrArg Finset.card
    apply Finset.Subset.antisymm
    · intro b hb
      obtain ⟨hmem, c, hc, hcb⟩ := mem_known.mp hb
      exact mem_known.mpr ⟨hmem, c, hc.trans_le hm, hcb⟩
    · rw [hall]
      exact known_subset

end Known

section Scan

variable {f : File} {d : Delta} {s a rlen clu n : ℕ} {rmap : ℕ → UInt32} (hwf : WellFormed f)
  (hslots : f.hdr.layout.l2Size + mapOffset ≤ 2 ^ 32)

include hwf hslots

/-- The block that the search reads is the one of the table. -/
theorem ridx_eq (hclu : clu < f.hdr.layout.l2Size) :
    ridx f clu = (f.hdr.layout.bat f clu).getD 0 := by
  have hL := hwf.header.layout
  have hpos := hL.pos
  have hword : f.word (u32 (clu + mapOffset)) = Layout.entry f clu := by
    rw [u32_of_lt (by omega)]
    rfl
  rw [ridx, hword]
  cases hb : f.hdr.layout.bat f clu with
  | none =>
      rw [(Layout.bat_eq_none hclu).mp hb]
      exact Nat.zero_div _
  | some b =>
      have hfits := hwf.table.fits hpos hb
      have hle := hL.blocksize.le
      rw [hwf.table.entry_eq hpos hb, Layout.encode, Option.getD_some]
      unfold Layout.Fits at hfits
      cases hv : f.hdr.layout.version with
      | v1 =>
          rw [hv] at hfits
          simp only [secToIoff]
          rw [UInt32.toNat_ofNat_of_lt' hfits, UInt32.toNat_ofNat_of_lt' (by
            change _ < 2 ^ 32
            omega), Nat.mul_div_cancel _ hpos]
      | v2 =>
          rw [hv] at hfits
          simp only [secToIoff, Nat.mul_div_cancel _ hpos, Nat.div_self hpos]
          rw [UInt32.toNat_ofNat_of_lt' hfits]
          exact Nat.div_one b

variable (hindex : f.hdr.layout.l1Size * f.hdr.layout.cluster ≤ f.size)
  (hmapped : ∀ clu b, f.hdr.layout.bat f clu = some b → b < rlen)
  (hs : f.hdr.layout.l1Size ≤ s) (hsa : s < a) (ha : a ≤ rlen)

include hindex hmapped hs hsa ha

theorem foundScan_spec (k : ℕ) (hk : clu + k = f.hdr.layout.l2Size)
    (hm : FoundAt f s a clu rmap n) :
    Triple (Cached f f.hdr.layout) (foundScan s a rlen (a - s) k clu n rmap)
      (fun r d => Cached f f.hdr.layout d ∧ FoundAt f s a f.hdr.layout.l2Size r.1 r.2)
      (fun _ => False) := by
  have hL := hwf.header.layout
  have hone := hwf.table.oneToOne
  induction k generalizing clu n rmap with
  | zero =>
      apply Triple.ret
      intro d hd
      have hend : clu = f.hdr.layout.l2Size := hk
      exact ⟨hd, hend ▸ hm⟩
  | succ k ih =>
      have hclu : clu < f.hdr.layout.l2Size := by omega
      have hslot : u32 (clu + mapOffset) = clu + mapOffset := u32_of_lt (by omega)
      have hpage : (clu + mapOffset) / f.hdr.layout.slots < f.hdr.layout.l1Size :=
        (Nat.div_lt_iff_lt_mul hL.slots_pos).mpr (hL.clu_lt hclu)
      apply Triple.look
      intro d hd
      dsimp only
      rw [hd.slots, hd.l1Size, hslot, if_neg (Nat.not_le.mpr hpage)]
      apply Triple.bind (R := fun _ e => Cached f f.hdr.layout e ∧
        e.l2Cache = some ((clu + mapOffset) / f.hdr.layout.slots))
      · apply (loadL2_cached hd .read _).conseq
        · exact fun _ he => he
        · exact fun _ _ he => he
        · intro e hshort
          have hend := Nat.mul_le_mul_right f.hdr.layout.cluster (Nat.succ_le_of_lt hpage)
          rw [Nat.succ_mul] at hend
          omega
      · intro _
        apply Triple.look
        rintro e ⟨he, hcache⟩
        have hword : e.l2 ((clu + mapOffset) % f.hdr.layout.slots) =
            f.word (u32 (clu + mapOffset)) := by
          rw [he.page _ hcache _ (Nat.mod_lt _ hL.slots_pos), Nat.div_add_mod', hslot]
        have hridx : (e.l2 ((clu + mapOffset) % f.hdr.layout.slots)).toNat /
            (secToIoff e.blocksize e.blocksize e.version).toNat =
              (f.hdr.layout.bat f clu).getD 0 := by
          rw [hword, he.blocksize, he.version, ← ridx_eq hwf hslots hclu]
          rfl
        have hclub : UInt32.ofNat (clu + mapOffset + 2 ^ 32 - mapOffset) = UInt32.ofNat clu := by
          apply UInt32.toNat_inj.mp
          rw [UInt32.toNat_ofNat', UInt32.toNat_ofNat', Nat.add_right_comm, Nat.add_sub_cancel,
            Nat.add_mod_right]
        rw [hridx, he.l1Size, Nat.div_add_mod', hclub]
        cases hb : f.hdr.layout.bat f clu with
        | none =>
            have hm' := hm.idle fun b h => absurd (hb.symm.trans h) (Option.some_ne_none b).symm
            rw [Option.getD_none, if_neg (by omega), if_neg (by simp), if_neg (by
              have hl1 := hL.l1_pos
              omega)]
            apply (ih (by omega) hm').conseq
            · rintro t rfl
              exact he
            · exact fun _ _ ht => ht
            · exact fun _ ht => ht
        | some b =>
            have hdata := (hwf.table.inData clu b hb).1
            have hlt := hmapped clu b hb
            rw [Option.getD_some, if_neg (by omega), if_neg (by omega)]
            split
            case isFalse hnot =>
              have hm' := hm.idle fun b' h => Option.some.inj (hb.symm.trans h) ▸ hnot
              apply (ih (by omega) hm').conseq
              · rintro t rfl
                exact he
              · exact fun _ _ ht => ht
              · exact fun _ ht => ht
            case isTrue hin =>
              have hm' := hm.put hone hb hin.1 hin.2
              split
              case isTrue hall =>
                apply Triple.ret
                rintro t rfl
                exact ⟨he, hm'.full hone hall hclu⟩
              case isFalse =>
                apply (ih (by omega) hm').conseq
                · rintro t rfl
                  exact he
                · exact fun _ _ ht => ht
                · exact fun _ ht => ht

/-- `range_build_rmap` names the owner of every block of the range that the table knows. -/
theorem rangeBuildRmapFound_spec (stray : ℕ → UInt32) :
    Triple (fun d => Cached f f.hdr.layout d ∧ d.l2Size = f.hdr.layout.l2Size)
      (rangeBuildRmapFound s a rlen stray)
      (fun r _ => FoundAt f s a f.hdr.layout.l2Size r.1 r.2) (fun _ => False) := by
  apply Triple.look
  rintro d ⟨hd, hl2⟩
  have hmark : zeroIndexMark.toNat = 2 ^ 32 - 1 := rfl
  have hoff : mapOffset = 16 := rfl
  rw [hl2, if_neg (Nat.not_le.mpr hsa), if_neg (by omega)]
  have hstart : FoundAt f s a 0 (fun i => if i < rlen then zeroIndexMark else stray i) 0 := by
    constructor
    · exact fun _ _ _ c hc => absurd hc (Nat.not_lt_zero c)
    · exact fun b _ hb _ => if_pos (hb.trans_le ha)
    · rw [known_zero, Finset.card_empty]
  apply Triple.bind (R := fun _ e => Cached f f.hdr.layout e)
  · apply Triple.update
    rintro e rfl
    exact ⟨hd.file, hd.blocksize, hd.version, hd.l1Size,
      fun p hp => absurd hp (Option.some_ne_none p).symm⟩
  · intro _
    apply (foundScan_spec hwf hslots hindex hmapped hs hsa ha _ (Nat.zero_add _) hstart).conseq
    · exact fun _ he => he
    · exact fun _ _ he => he.2
    · exact fun _ he => he

end Scan

/-! ## The gaps -/

/-- The blocks in `[s, a)` that have no owner yet. -/
def gaps (rmap : ℕ → UInt32) (s a : ℕ) : Finset ℕ :=
  (Finset.Ico s a).filter fun b => rmap b = zeroIndexMark

/-- The owner of a gap is the one of the free map. -/
def filled (m : List FreeExtent) (rmap : ℕ → UInt32) (b : ℕ) : UInt32 :=
  if rmap b = zeroIndexMark then (freeOwner m b).elim zeroIndexMark UInt32.ofNat else rmap b

section Gaps

variable {f : File} {m : List FreeExtent} {rmap rmap' : ℕ → UInt32} {s a b n k clu ridx : ℕ}
  {v : UInt32}

theorem gaps_congr (h : ∀ b, s ≤ b → rmap' b = rmap b) : gaps rmap' s a = gaps rmap s a := by
  apply Finset.filter_congr
  intro b hb
  rw [h b (Finset.mem_Ico.mp hb).1]

theorem gaps_owned (h : rmap s ≠ zeroIndexMark) : gaps rmap s a = gaps rmap (s + 1) a := by
  ext b
  simp only [gaps, Finset.mem_filter, Finset.mem_Ico]
  constructor
  · rintro ⟨⟨hs, ha⟩, hb⟩
    have hne : s ≠ b := by
      rintro rfl
      exact h hb
    exact ⟨⟨hs.lt_of_ne hne, ha⟩, hb⟩
  · rintro ⟨⟨hs, ha⟩, hb⟩
    exact ⟨⟨by omega, ha⟩, hb⟩

theorem gaps_mark (h : rmap s = zeroIndexMark) (hsa : s < a) :
    (gaps rmap s a).card = (gaps rmap (s + 1) a).card + 1 := by
  have hsplit : gaps rmap s a = insert s (gaps rmap (s + 1) a) := by
    ext b
    simp only [gaps, Finset.mem_insert, Finset.mem_filter, Finset.mem_Ico]
    constructor
    · rintro ⟨⟨hs, ha⟩, hb⟩
      rcases hs.eq_or_lt with rfl | hlt
      · exact .inl rfl
      · exact .inr ⟨⟨hlt, ha⟩, hb⟩
    · rintro (rfl | ⟨⟨hs, ha⟩, hb⟩)
      · exact ⟨⟨le_rfl, hsa⟩, h⟩
      · exact ⟨⟨by omega, ha⟩, hb⟩
  have hfresh : s ∉ gaps rmap (s + 1) a := by
    simp [gaps]
  rw [hsplit, Finset.card_insert_of_notMem hfresh]

/-- The blocks that the table does not know are the gaps. -/
theorem FoundAt.card_gaps (h : FoundAt f s a clu rmap n) (hclu : clu ≤ 2 ^ 32 - 1) :
    (gaps rmap s a).card + n = a - s := by
  have hgap : ∀ b, b ∈ gaps rmap s a ↔ b ∈ Finset.Ico s a ∧ b ∉ known f s a clu := by
    intro b
    rw [gaps, Finset.mem_filter, mem_known, Finset.mem_Ico]
    refine and_congr_right fun hb => ?_
    constructor
    · rintro hmark ⟨-, c, hc, hcb⟩
      rw [h.label b hb.1 hb.2 c hc hcb] at hmark
      have hnat := congrArg UInt32.toNat hmark
      rw [UInt32.toNat_ofNat_of_lt' (by
        change c < 2 ^ 32
        omega)] at hnat
      have hzero : zeroIndexMark.toNat = 2 ^ 32 - 1 := rfl
      omega
    · intro hno
      exact h.mark b hb.1 hb.2 fun c hc hcb => hno ⟨hb, c, hc, hcb⟩
  have hsdiff : gaps rmap s a = Finset.Ico s a \ known f s a clu := by
    ext b
    rw [hgap, Finset.mem_sdiff]
  rw [hsdiff, h.count, Finset.card_sdiff_add_card_eq_card known_subset, Nat.card_Ico]

theorem filled_update (hne : ridx ≠ b) :
    filled m (Function.update rmap ridx v) b = filled m rmap b := by
  rw [filled, filled, Function.update_of_ne hne.symm]

/-- Nothing is left to fill. -/
theorem filled_of_gaps (h : gaps rmap s a = ∅) (hs : s ≤ b) (ha : b < a) :
    filled m rmap b = rmap b := by
  apply if_neg
  intro hmark
  have hmem : b ∈ gaps rmap s a := Finset.mem_filter.mpr ⟨Finset.mem_Ico.mpr ⟨hs, ha⟩, hmark⟩
  rw [h] at hmem
  exact absurd hmem (Finset.notMem_empty b)

/-- The loop fills the gaps; it ends early only when none is left. -/
theorem fixGaps_spec (hs : SortedMap m) (hm : EndsFit m) (hk : ridx + k = a)
    (hn : (gaps rmap ridx a).card ≤ n) (hpos : 0 < n) (hlt : n < 2 ^ 32) :
    (∀ b < ridx, fixGaps k ridx m n rmap b = rmap b) ∧
      ∀ b, ridx ≤ b → b < a → fixGaps k ridx m n rmap b = filled m rmap b := by
  induction k generalizing ridx m n rmap with
  | zero => exact ⟨fun _ _ => rfl, fun b hb hba => by omega⟩
  | succ k ih =>
      rw [fixGaps]
      by_cases hmark : rmap ridx = zeroIndexMark
      swap
      · rw [if_pos hmark]
        have hrest := ih hs hm (by omega) (gaps_owned hmark ▸ hn) hpos hlt
        constructor
        · exact fun b hb => hrest.1 b (hb.trans (Nat.lt_succ_self ridx))
        · intro b hb hba
          rcases hb.eq_or_lt with rfl | hb
          · rw [hrest.1 _ (Nat.lt_succ_self _), filled, if_neg hmark]
          · exact hrest.2 b hb hba
      · rw [if_neg (not_not.mpr hmark)]
        have hcard := gaps_mark hmark (show ridx < a by omega)
        have howner : ∀ b, ridx ≤ b →
            freeOwner (m.dropWhile (endsBefore ridx)) b = freeOwner m b :=
          fun b hb => freeOwner_dropWhile hm hb
        have hsuffix : m.dropWhile (endsBefore ridx) <:+ m := List.dropWhile_suffix _
        have hfilled : ∀ b, ridx ≤ b →
            filled (m.dropWhile (endsBefore ridx)) rmap b = filled m rmap b := by
          intro b hb
          rw [filled, filled, howner b hb]
        cases hdrop : m.dropWhile (endsBefore ridx) with
        | nil =>
            rw [hdrop] at hfilled
            dsimp only
            refine ⟨fun _ _ => rfl, fun b hb _ => ?_⟩
            rw [← hfilled b hb, filled]
            split
            case isTrue h => exact h
            case isFalse => rfl
        | cons e es =>
            have hend := lt_of_dropWhile hm hdrop
            rw [hdrop] at hfilled hsuffix howner
            have hs' := hs.suffix hsuffix
            have hm' := hm.suffix hsuffix
            dsimp only
            split
            case isFalse hnot =>
              have hrest := ih hs' hm' (by omega) (show (gaps rmap (ridx + 1) a).card ≤ n by omega)
                hpos hlt
              constructor
              · exact fun b hb => hrest.1 b (hb.trans (Nat.lt_succ_self ridx))
              · intro b hb hba
                rcases hb.eq_or_lt with rfl | hb'
                · rw [hrest.1 _ (Nat.lt_succ_self _), ← hfilled _ le_rfl, filled, if_pos hmark,
                    freeOwner_before hs' (Nat.not_le.mp hnot), hmark]
                  rfl
                · rw [hrest.2 b hb' hba, hfilled b hb]
            case isTrue hle =>
              have hsame : ∀ (v : UInt32) b, ridx ≠ b → Function.update rmap ridx v b = rmap b :=
                fun v b hne => Function.update_of_ne hne.symm v rmap
              have hhere : filled m rmap ridx = UInt32.ofNat (e.clu + (ridx - e.iblk)) := by
                rw [← hfilled _ le_rfl, filled, if_pos hmark, freeOwner_cons, if_pos ⟨hle, hend⟩]
                rfl
              have hnext : u32Sub n 1 = n - 1 := u32Sub_of_le hlt hpos
              rw [hnext]
              split
              case isTrue hzero =>
                refine ⟨fun b hb => hsame _ b hb.ne', fun b hb hba => ?_⟩
                rcases hb.eq_or_lt with rfl | hb'
                · rw [Function.update_self, hhere]
                · have hnone : gaps rmap (ridx + 1) a = ∅ :=
                    Finset.card_eq_zero.mp (by omega)
                  rw [hsame _ b hb'.ne, filled_of_gaps hnone hb' hba]
              case isFalse hmore =>
                have hleft : (gaps (Function.update rmap ridx
                    (UInt32.ofNat (e.clu + (ridx - e.iblk)))) (ridx + 1) a).card ≤ n - 1 := by
                  rw [gaps_congr (s := ridx + 1) fun b hb => hsame _ b (Nat.ne_of_lt hb)]
                  omega
                have hrest := ih hs' hm' (by omega) hleft (by omega) (by omega)
                constructor
                · intro b hb
                  rw [hrest.1 b (hb.trans (Nat.lt_succ_self ridx)), hsame _ b hb.ne']
                · intro b hb hba
                  rcases hb.eq_or_lt with rfl | hb'
                  · rw [hrest.1 _ (Nat.lt_succ_self _), Function.update_self, hhere]
                  · rw [hrest.2 b hb' hba, filled_update hb'.ne, hfilled b hb]

end Gaps

/-! ## The range -/

/-- Cluster `c` owns block `b`: after the table, or after the map of free blocks where the table
does not know the block. -/
def Owns (f : File) (m : List FreeExtent) (b c : ℕ) : Prop :=
  f.hdr.layout.bat f c = some b ∨
    (∀ k, f.hdr.layout.bat f k ≠ some b) ∧ ∃ e ∈ m, e.Has b ∧ e.cluAt b = c

/-- The extents list the owned blocks of `[s, a)`, each once and in order, with their owners and
the marks of the free ones. -/
structure Partitions (f : File) (m : List FreeExtent) (s a : ℕ) (r : List RelocExtent) : Prop where
  mem : ∀ b c free, (b, c, free) ∈ r.flatMap RelocExtent.blocks ↔
    (s ≤ b ∧ b < a) ∧ Owns f m b c ∧ (free = true ↔ ∃ e ∈ m, e.Has b)
  sorted : (r.flatMap RelocExtent.blocks).Pairwise fun x y => x.1 < y.1

section Range

variable {f : File} {m : List FreeExtent} {rmap rmap' : ℕ → UInt32} {s a b c n : ℕ}

theorem named_congr (h : ∀ b, s ≤ b → b < a → rmap' b = rmap b) :
    named rmap' s (a - s) = named rmap s (a - s) := by
  apply List.filterMap_congr
  intro b hb
  rw [List.mem_range'_1] at hb
  rw [h b hb.1 (by omega)]

/-- The reverse map after the gaps are fixed. -/
theorem FoundAt.fixed (h : FoundAt f s a f.hdr.layout.l2Size rmap n)
    (hslots : f.hdr.layout.l2Size + mapOffset ≤ 2 ^ 32) (hs : SortedMap m) (hm : EndsFit m)
    (hsa : s < a) (ha : a < 2 ^ 32) (cap : ℕ) (hb : s ≤ b) (hba : b < a) :
    (if n ≠ a - s then rangeFixGaps ⟨cap, m⟩ s a (u32Sub (a - s) n) rmap else rmap) b =
      filled m rmap b := by
  have hoff : mapOffset = 16 := rfl
  have hcard := h.card_gaps (by omega)
  split
  case isTrue hne =>
    have hleft : u32Sub (a - s) n = a - s - n := u32Sub_of_le (by omega) (by omega)
    rw [hleft]
    exact (fixGaps_spec hs hm (by omega) (by omega) (by omega) (by omega)).2 b hb hba
  case isFalse heq =>
    have hnone : gaps rmap s a = ∅ := Finset.card_eq_zero.mp (by omega)
    exact (filled_of_gaps hnone hb hba).symm

theorem toNat_ofNat_clu (hc : c < 2 ^ 32 - 1) : (UInt32.ofNat c).toNat = c :=
  UInt32.toNat_ofNat_of_lt' (by
    change c < 2 ^ 32
    omega)

theorem ofNat_ne_mark (hc : c < 2 ^ 32 - 1) : UInt32.ofNat c ≠ zeroIndexMark := by
  intro h
  have hnat := congrArg UInt32.toNat h
  have hmark : zeroIndexMark.toNat = 2 ^ 32 - 1 := rfl
  rw [toNat_ofNat_clu hc, hmark] at hnat
  omega

/-- The reverse map names the owners. -/
theorem FoundAt.owns_iff (h : FoundAt f s a f.hdr.layout.l2Size rmap n) (hwf : WellFormed f)
    (hslots : f.hdr.layout.l2Size + mapOffset ≤ 2 ^ 32) (hs : SortedMap m) (hm : BelowMark m)
    (hb : s ≤ b) (hba : b < a) :
    filled m rmap b ≠ zeroIndexMark ∧ (filled m rmap b).toNat = c ↔ Owns f m b c := by
  have hoff : mapOffset = 16 := rfl
  by_cases hbat : ∃ k, f.hdr.layout.bat f k = some b
  · obtain ⟨k, hk⟩ := hbat
    have hlt := Layout.bat_lt hk
    have hmark := ofNat_ne_mark (show k < 2 ^ 32 - 1 by omega)
    have hlabel := h.label b hb hba k hlt hk
    rw [filled, hlabel, if_neg hmark, toNat_ofNat_clu (by omega)]
    constructor
    · rintro ⟨-, rfl⟩
      exact .inl hk
    · rintro (hc | ⟨hno, -⟩)
      · exact ⟨hmark, hwf.table.oneToOne hk hc⟩
      · exact absurd hk (hno k)
  · have hno : ∀ k, f.hdr.layout.bat f k ≠ some b := fun k hk => hbat ⟨k, hk⟩
    rw [filled, if_pos (h.mark b hb hba fun k _ => hno k)]
    cases howner : freeOwner m b with
    | none =>
        have hnone := freeOwner_eq_none.mp howner
        constructor
        · exact fun hc => absurd rfl hc.1
        · rintro (hc | ⟨-, e, he, heb, -⟩)
          · exact absurd hc (hno c)
          · exact absurd heb (hnone e he)
    | some k =>
        obtain ⟨e, he, heb, rfl⟩ := (freeOwner_eq_some hs).mp howner
        have hlt : e.cluAt b < 2 ^ 32 - 1 := by
          have hfit := (hm e he).2
          have hle := heb.1
          have hbe := heb.2
          unfold FreeExtent.cluAt
          omega
        change UInt32.ofNat (e.cluAt b) ≠ _ ∧ (UInt32.ofNat (e.cluAt b)).toNat = c ↔ _
        rw [toNat_ofNat_clu hlt]
        constructor
        · rintro ⟨-, rfl⟩
          exact .inr ⟨hno, e, he, heb, rfl⟩
        · rintro (hc | ⟨-, e', he', heb', rfl⟩)
          · exact absurd hc (hno c)
          · have hother := (freeOwner_eq_some hs).mpr ⟨e', he', heb', rfl⟩
            exact ⟨ofNat_ne_mark hlt, Option.some.inj (howner.symm.trans hother)⟩

theorem isSome_freeOwner : (freeOwner m b).isSome = true ↔ ∃ e ∈ m, e.Has b := by
  rw [Option.isSome_iff_ne_none, Ne, freeOwner_eq_none]
  simp only [not_forall, not_not, exists_prop]

/-- What the reverse map names is the partition. -/
theorem FoundAt.partitions (h : FoundAt f s a f.hdr.layout.l2Size rmap n) (hwf : WellFormed f)
    (hslots : f.hdr.layout.l2Size + mapOffset ≤ 2 ^ 32) (hs : SortedMap m) (hm : BelowMark m)
    {r : List RelocExtent}
    (hr : r.flatMap RelocExtent.blocks = (named (filled m rmap) s (a - s)).map (marked m)) :
    Partitions f m s a r := by
  constructor
  · intro b c free
    rw [hr, List.mem_map]
    constructor
    · rintro ⟨⟨b', c'⟩, hmem, heq⟩
      cases heq
      obtain ⟨hb, hba, hnamed⟩ := mem_named.mp hmem
      have hrange : b' < a := by omega
      exact ⟨⟨hb, hrange⟩, (h.owns_iff hwf hslots hs hm hb hrange).mp hnamed, isSome_freeOwner⟩
    · rintro ⟨⟨hb, hba⟩, howns, hfree⟩
      have hnamed := (h.owns_iff hwf hslots hs hm hb hba).mpr howns
      refine ⟨(b, c), mem_named.mpr ⟨hb, by omega, hnamed⟩, ?_⟩
      rw [marked, Bool.eq_iff_iff.mpr (isSome_freeOwner.trans hfree.symm)]
  · rw [hr, List.pairwise_map]
    exact named_sorted

end Range

section Build

variable {f : File} {d : Delta} {realloc : ℕ → Bool} {fuel aH n rlen : ℕ}
  {stray : ℕ → UInt32} {freemap rangemap : ExtentMap FreeExtent} {relocmap : ExtentMap RelocExtent}

/-- What `range_build` hands over when there is memory, or that there is none. -/
def Built (realloc : ℕ → Bool) (P : List RelocExtent → Prop) :
    EStateM.Result Sysexit Delta (Option (ExtentMap FreeExtent × ExtentMap RelocExtent)) → Prop
  | .ok (some r) _ => P r.2.extents
  | .ok none _ => False
  | .error e _ => e = .malloc ∧ ∃ n, realloc n = false

theorem Built.imp {P Q : List RelocExtent → Prop}
    {r : EStateM.Result Sysexit Delta (Option (ExtentMap FreeExtent × ExtentMap RelocExtent))}
    (h : Built realloc P r) (hPQ : ∀ l, P l → Q l) : Built realloc Q r := by
  unfold Built at h ⊢
  split
  · exact hPQ _ h
  · exact h
  · exact h

/-- The maps of the caller are empty at first. -/
structure Fresh (rangemap : ExtentMap FreeExtent) (relocmap : ExtentMap RelocExtent) : Prop where
  range : rangemap.extents = []
  reloc : relocmap.extents = []

theorem rangeBuild_run {d' : Delta} {rmap : ℕ → UInt32} {k : ℕ}
    (h : rangeBuildRmapFound (u32Sub aH n) aH rlen stray d = .ok (rmap, k) d') :
    rangeBuild realloc fuel aH n rlen stray freemap rangemap relocmap d =
      rangeMaps realloc fuel (u32Sub aH n) aH freemap rangemap relocmap
        (if k ≠ n then rangeFixGaps freemap (u32Sub aH n) aH (u32Sub n k) rmap else rmap) d' :=
  bind_run_ok h

theorem rangeBuild_error {d' : Delta} {e : Sysexit}
    (h : rangeBuildRmapFound (u32Sub aH n) aH rlen stray d = .error e d') :
    rangeBuild realloc fuel aH n rlen stray freemap rangemap relocmap d = .error e d' :=
  bind_run_error h

/-- The extents list what a reverse map names, with the marks. -/
theorem rangeMaps_spec (rmap : ℕ → UInt32) {s : ℕ} (hpos : 0 < s) (hsa : s ≤ aH)
    (ha : aH < 2 ^ 32) (hs : SortedMap freemap.extents) (hm : EndsFit freemap.extents)
    (hfresh : Fresh rangemap relocmap) (hfuel : 2 ^ 32 ≤ fuel) :
    Built realloc (fun r => r.flatMap RelocExtent.blocks =
        (named rmap s (aH - s)).map (marked freemap.extents))
      (rangeMaps realloc fuel s aH freemap rangemap relocmap rmap d) := by
  rw [rangeMaps]
  rcases rmap2freemap_lists realloc rmap rangemap hpos hsa ha.le with
    ⟨hno, hmem⟩ | ⟨ranges, es, hranges, hes, hlists⟩
  · rw [hno]
    exact ⟨rfl, hmem⟩
  · rw [hranges]
    dsimp only
    rw [hfresh.range, List.nil_append] at hes
    have hbelow : BelowMark ranges.extents := by
      intro e he
      rw [hes] at he
      have hwithin := hlists.within e he
      exact ⟨hwithin.2.1.trans_lt ha, hwithin.2.2⟩
    rcases rangeSplit_spec realloc relocmap (hes ▸ hlists.sorted) hbelow hs hm hfuel with
      ⟨hno, hmem⟩ | ⟨relocs, new, hrelocs, hnew, hsplit⟩
    · rw [hno]
      exact ⟨rfl, hmem⟩
    · rw [hrelocs]
      change relocs.extents.flatMap RelocExtent.blocks = _
      rw [hnew, hfresh.reloc, List.nil_append, hsplit.blocks, hes, hlists.blocks]

/-- A request that the callers make: an image just opened, a range behind its index and before
the end of the reverse map, and a map of free blocks. -/
structure Request (f : File) (d : Delta) (m : List FreeExtent) (rlen aH n : ℕ) : Prop where
  wellFormed : WellFormed f
  index : f.hdr.layout.l1Size * f.hdr.layout.cluster ≤ f.size
  opened : ∃ dirty, openDelta f dirty = some d
  mapped : ∀ clu b, f.hdr.layout.bat f clu = some b → b < rlen
  reach : rlen < 2 ^ 32
  pos : 0 < n
  le : n ≤ aH
  start : f.hdr.layout.l1Size ≤ aH - n
  head : aH ≤ rlen
  sorted : SortedMap m
  words : ∀ e ∈ m, e.clu < 2 ^ 32 ∧ e.iblk < 2 ^ 32 ∧ e.len < 2 ^ 32

/-- The extents list what the reverse map of the table names after its gaps are fixed. -/
theorem rangeBuild_named (h : Request f d freemap.extents rlen aH n)
    (hslots : f.hdr.layout.l2Size + mapOffset ≤ 2 ^ 32) (hm : EndsFit freemap.extents)
    (hfresh : Fresh rangemap relocmap) (hfuel : 2 ^ 32 ≤ fuel) :
    Built realloc (fun r => ∃ rmap k, FoundAt f (aH - n) aH f.hdr.layout.l2Size rmap k ∧
        r.flatMap RelocExtent.blocks =
          (named (filled freemap.extents rmap) (aH - n) (aH - (aH - n))).map
            (marked freemap.extents))
      (rangeBuild realloc fuel aH n rlen stray freemap rangemap relocmap d) := by
  obtain ⟨dirty, hopen⟩ := h.opened
  have hd := openDelta_spec hopen
  have ha : aH < 2 ^ 32 := h.head.trans_lt h.reach
  have hstart : u32Sub aH n = aH - n := u32Sub_of_le ha h.le
  have hsa : aH - n < aH := Nat.sub_lt (h.pos.trans_le h.le) h.pos
  have hpos : 0 < aH - n := h.wellFormed.header.layout.l1_pos.trans_le h.start
  obtain ⟨⟨rmap, k⟩, d', hrun, hfound⟩ := (rangeBuildRmapFound_spec h.wellFormed hslots h.index
    h.mapped h.start hsa h.head stray).exists_ok ⟨hd.cached, hd.opened.l2Size⟩
  rw [← hstart] at hrun
  rw [rangeBuild_run hrun, hstart]
  have hfixed : ∀ b, aH - n ≤ b → b < aH →
      (if k ≠ n then rangeFixGaps freemap (aH - n) aH (u32Sub n k) rmap else rmap) b =
        filled freemap.extents rmap b := by
    intro b hb hba
    have hfix := hfound.fixed hslots h.sorted hm hsa ha freemap.nEntriesAlloced hb hba
    rwa [Nat.sub_sub_self h.le] at hfix
  apply (rangeMaps_spec _ hpos hsa.le ha h.sorted hm hfresh hfuel).imp
  intro r hr
  rw [named_congr hfixed] at hr
  exact ⟨rmap, k, hfound, hr⟩

/-- `range_build` partitions the range between its owners. It does not abort. -/
theorem rangeBuild_partitions (h : Request f d freemap.extents rlen aH n)
    (hslots : f.hdr.layout.l2Size + mapOffset ≤ 2 ^ 32) (hm : BelowMark freemap.extents)
    (hfresh : Fresh rangemap relocmap) (hfuel : 2 ^ 32 ≤ fuel) :
    Built realloc (Partitions f freemap.extents (aH - n) aH)
      (rangeBuild realloc fuel aH n rlen stray freemap rangemap relocmap d) := by
  apply (rangeBuild_named h hslots hm.ends hfresh hfuel).imp
  rintro r ⟨rmap, k, hfound, hr⟩
  exact hfound.partitions h.wellFormed hslots h.sorted hm hr

/-- A table with as many clusters as the mark is refused. -/
theorem rangeBuild_aborts (hsa : u32Sub aH n < aH) (hl2 : zeroIndexMark.toNat ≤ d.l2Size) :
    rangeBuild realloc fuel aH n rlen stray freemap rangemap relocmap d = .error .abort d := by
  have hrun : rangeBuildRmapFound (u32Sub aH n) aH rlen stray d = .error .abort d := by
    rw [rangeBuildRmapFound, get_bind_run, if_neg (Nat.not_le.mpr hsa), if_pos hl2]
    rfl
  exact rangeBuild_error hrun

/-- Extents whose end wraps around are skipped. -/
def Wrapped (m : List FreeExtent) : Prop := ∀ b, m.dropWhile (endsBefore b) = []

section Wrapped

variable {m : List FreeExtent} (hm : Wrapped m)

include hm

theorem Wrapped.fixGaps_eq (k ridx nToFix : ℕ) (rmap : ℕ → UInt32) :
    fixGaps k ridx m nToFix rmap = fixGaps k ridx [] nToFix rmap := by
  induction k generalizing ridx with
  | zero => rfl
  | succ k ih =>
      rw [fixGaps, fixGaps, hm ridx, ih, List.dropWhile_nil]

theorem Wrapped.splitExtents_eq (es : List FreeExtent) (t : ExtentMap RelocExtent) :
    splitExtents realloc fuel es m t = splitExtents realloc fuel es [] t := by
  induction es generalizing t with
  | nil => rfl
  | cons e es ih =>
      rw [splitExtents, splitExtents]
      cases fuel with
      | zero => rfl
      | succ fuel =>
          rw [splitExtent, splitExtent, hm e.iblk, List.dropWhile_nil]
          by_cases hlen : 0 < e.len
          · rw [if_pos hlen, if_pos hlen]
          · rw [if_neg hlen, if_neg hlen]
            exact ih t

theorem Wrapped.rangeMaps_eq (cap s : ℕ) (rmap : ℕ → UInt32) :
    rangeMaps realloc fuel s aH ⟨cap, m⟩ rangemap relocmap rmap d =
      rangeMaps realloc fuel s aH ⟨cap, []⟩ rangemap relocmap rmap d := by
  rw [rangeMaps, rangeMaps]
  cases rmap2freemap realloc rmap s aH rangemap with
  | none => rfl
  | some ranges =>
      dsimp only
      rw [rangeSplit, rangeSplit, hm.splitExtents_eq]

/-- They might as well not be there. -/
theorem Wrapped.rangeBuild_eq (cap : ℕ) :
    rangeBuild realloc fuel aH n rlen stray ⟨cap, m⟩ rangemap relocmap d =
      rangeBuild realloc fuel aH n rlen stray ⟨cap, []⟩ rangemap relocmap d := by
  cases hrun : rangeBuildRmapFound (u32Sub aH n) aH rlen stray d with
  | error e d' => rw [rangeBuild_error hrun, rangeBuild_error hrun]
  | ok r d' =>
      obtain ⟨rmap, k⟩ := r
      have hfix : rangeFixGaps ⟨cap, m⟩ (u32Sub aH n) aH (u32Sub n k) rmap =
          rangeFixGaps ⟨cap, []⟩ (u32Sub aH n) aH (u32Sub n k) rmap := hm.fixGaps_eq _ _ _ _
      rw [rangeBuild_run hrun, rangeBuild_run hrun, hfix, hm.rangeMaps_eq]

end Wrapped

theorem Built.and {P Q : List RelocExtent → Prop}
    {r : EStateM.Result Sysexit Delta (Option (ExtentMap FreeExtent × ExtentMap RelocExtent))}
    (hP : Built (fun _ => true) P r) (hQ : Built (fun _ => true) Q r) : ∃ l, P l ∧ Q l := by
  unfold Built at hP hQ
  split at hP
  · exact ⟨_, hP, hQ⟩
  · exact hP.elim
  · obtain ⟨-, n, hn⟩ := hP
    cases hn

end Build

/-! ## A block that two maps know -/

section FullDisk

variable {e : FreeExtent} {d : Delta}

theorem fullDisk_bat {clu b : ℕ} (h : fullDisk.hdr.layout.bat fullDisk clu = some b) : b = 1 := by
  have hlt := Layout.bat_lt h
  rw [fullDisk_layout] at hlt h
  obtain rfl := Nat.lt_one_iff.mp hlt
  rw [Layout.bat, fullDisk_entry] at h
  exact (Option.some.inj h).symm

theorem fullDisk_opens : ∃ d, openDelta fullDisk true = some d :=
  exists_openDelta fullDisk_wellFormed.header (by decide) fun _ => rfl

theorem sortedMap_singleton (hpos : 0 < e.len) : SortedMap [e] :=
  ⟨fun _ hx => List.mem_singleton.mp hx ▸ hpos, List.pairwise_singleton _ _⟩

theorem sortedMap_nil : SortedMap [] := ⟨fun _ h => absurd h List.not_mem_nil, List.Pairwise.nil⟩

/-- Blocks 1 and 2 are asked for. -/
theorem fullDisk_request (hopen : openDelta fullDisk true = some d) {m : List FreeExtent}
    (hs : SortedMap m) (hw : ∀ e ∈ m, e.clu < 2 ^ 32 ∧ e.iblk < 2 ^ 32 ∧ e.len < 2 ^ 32) :
    Request fullDisk d m 4 3 2 where
  wellFormed := fullDisk_wellFormed
  index := fullDisk_index_le
  opened := ⟨true, hopen⟩
  mapped clu b h := by
    rw [fullDisk_bat h]
    decide
  reach := by decide
  pos := by decide
  le := by decide
  start := by rw [fullDisk_layout]
  head := by decide
  sorted := hs
  words := hw

theorem fullDisk_slots : fullDisk.hdr.layout.l2Size + mapOffset ≤ 2 ^ 32 := by
  rw [fullDisk_layout]
  decide

theorem rangeBuild_partitions_fullDisk : ∃ d, openDelta fullDisk true = some d ∧
    Built (fun _ => true) (Partitions fullDisk [⟨5, 2, 1⟩] 1 3)
      (rangeBuild (fun _ => true) (2 ^ 32) 3 2 4 (fun _ => 0) ⟨1, [⟨5, 2, 1⟩]⟩ ⟨128, []⟩ ⟨128, []⟩
        d) := by
  obtain ⟨d, hd⟩ := fullDisk_opens
  refine ⟨d, hd, ?_⟩
  apply rangeBuild_partitions (f := fullDisk) (n := 2)
  · exact fullDisk_request hd (sortedMap_singleton Nat.one_pos) (by simp)
  · exact fullDisk_slots
  · intro e he
    rw [List.mem_singleton.mp he]
    decide
  · exact ⟨rfl, rfl⟩
  · exact le_rfl

/-- The request is answered when there is memory. -/
def Answered (f : File) (d : Delta) (m : List FreeExtent) (rlen aH n : ℕ) : Prop :=
  Built (fun _ => true) (Partitions f m (aH - n) aH)
    (rangeBuild (fun _ => true) (2 ^ 32) aH n rlen (fun _ => 0) ⟨m.length, m⟩ ⟨128, []⟩ ⟨128, []⟩ d)

/-- The table does not know block 2, so the map of free blocks says who owns it. -/
theorem fullDisk_owns (hb : e.Has 2) : Owns fullDisk [e] 2 (e.cluAt 2) :=
  .inr ⟨fun _ hk => absurd (fullDisk_bat hk) (by decide), e, by simp, hb, rfl⟩

/-- The cluster has the number of the mark. -/
def markExtent : FreeExtent := ⟨2 ^ 32 - 1, 2, 1⟩

/-- The end wraps around to block 0. -/
def wrappedExtent : FreeExtent := ⟨0, 2, 2 ^ 32 - 2⟩

theorem markExtent_request (hopen : openDelta fullDisk true = some d) :
    Request fullDisk d [markExtent] 4 3 2 :=
  fullDisk_request hopen (sortedMap_singleton Nat.one_pos) (by simp [markExtent])

theorem wrappedExtent_request (hopen : openDelta fullDisk true = some d) :
    Request fullDisk d [wrappedExtent] 4 3 2 :=
  fullDisk_request hopen (sortedMap_singleton (by decide)) (by simp [wrappedExtent])

theorem markExtent_misses (hopen : openDelta fullDisk true = some d) :
    ¬ Answered fullDisk d [markExtent] 4 3 2 := by
  intro h
  have hends : EndsFit [markExtent] := by
    intro e he
    rw [List.mem_singleton.mp he]
    decide
  have hfresh : Fresh ⟨128, []⟩ ⟨128, []⟩ := ⟨rfl, rfl⟩
  obtain ⟨r, hpart, rmap, k, hfound, hr⟩ := Built.and h
    (rangeBuild_named (markExtent_request hopen) fullDisk_slots hends hfresh le_rfl)
  have hhas : markExtent.Has 2 := by decide
  have hmem := (hpart.mem 2 _ true).mpr ⟨by decide, fullDisk_owns hhas, by simp [hhas]⟩
  rw [hr, List.mem_map] at hmem
  obtain ⟨⟨b, c⟩, hnamed, heq⟩ := hmem
  obtain rfl : b = 2 := congrArg Prod.fst heq
  have hgap : rmap 2 = zeroIndexMark :=
    hfound.mark 2 (by decide) (by decide) fun c _ hc => absurd (fullDisk_bat hc) (by decide)
  apply (mem_named.mp hnamed).2.2.1
  change filled [markExtent] rmap 2 = _
  rw [filled, if_pos hgap, freeOwner_cons, if_pos hhas]
  decide

theorem wrappedExtent_wrapped : Wrapped [wrappedExtent] := by
  intro b
  have hend : u32 (wrappedExtent.iblk + wrappedExtent.len) = 0 := by decide
  rw [List.dropWhile_cons, endsBefore, hend, if_pos (decide_eq_true (Nat.zero_le b))]
  rfl

theorem wrappedExtent_misses (hopen : openDelta fullDisk true = some d) :
    ¬ Answered fullDisk d [wrappedExtent] 4 3 2 := by
  intro h
  have hfresh : Fresh ⟨128, []⟩ ⟨128, []⟩ := ⟨rfl, rfl⟩
  have hempty := fullDisk_request hopen sortedMap_nil fun _ he => absurd he List.not_mem_nil
  have hbelow : BelowMark [] := fun _ he => absurd he List.not_mem_nil
  rw [Answered, wrappedExtent_wrapped.rangeBuild_eq] at h
  obtain ⟨r, hpart, rmap, k, hfound, hr⟩ := Built.and h
    (rangeBuild_named hempty fullDisk_slots hbelow.ends hfresh le_rfl)
  have hnone : Partitions fullDisk [] 1 3 r :=
    hfound.partitions hempty.wellFormed fullDisk_slots hempty.sorted hbelow hr
  have hhas : wrappedExtent.Has 2 := by decide
  have hmem := (hpart.mem 2 _ true).mpr ⟨by decide, fullDisk_owns hhas, by simp [hhas]⟩
  obtain ⟨-, howns, -⟩ := (hnone.mem 2 _ true).mp hmem
  rcases howns with hk | ⟨-, e, he, -⟩
  · exact absurd (fullDisk_bat hk) (by decide)
  · exact absurd he List.not_mem_nil

end FullDisk

/-! ## A table as large as the mark -/

def vastHeader : PvdHeader :=
  { PvdHeader.zero with
    mSig := ploop1Signature .v2
    mType := prlImageCompressed
    mSectors := 64
    mSizeInSectorsV1 := UInt32.ofNat (2 ^ 32 - 64)
    unused := 63
    mFirstBlockOffset := 64 * 524289 }

/-- A version 2 image of 4294967295 clusters, none of which has a block. -/
def vastDisk : File where
  size := 524290 * 32768
  byte := fun i => if i < 64 then wordBytes vastHeader.toWords i else 0
  eof := by
    intro i hi
    rw [if_neg (by omega)]

theorem vastDisk_hdr : vastDisk.hdr = vastHeader := by
  rw [← PvdHeader.ofWords_toWords vastHeader]
  apply PvdHeader.ofWords_congr
  intro i hi
  rw [← bytesWord_wordBytes vastHeader.toWords]
  exact bytesWord_congr fun j hj => if_pos (by omega)

theorem vastDisk_layout : vastDisk.hdr.layout = ⟨.v2, 64, 524289, 2 ^ 32 - 1⟩ := by
  rw [vastDisk_hdr]
  exact Layout.ext (by decide) (by decide) (by decide) (by decide)

theorem vastDisk_entry (s : ℕ) : Layout.entry vastDisk s = 0 := by
  have hbyte : ∀ k, vastDisk.byte (4 * (s + 16) + k) = 0 := fun k => if_neg (by omega)
  have hfirst := hbyte 0
  rw [Nat.add_zero] at hfirst
  unfold Layout.entry File.word bytesWord mapOffset
  rw [hfirst, hbyte 1, hbyte 2, hbyte 3]
  rfl

theorem vastDisk_bat (clu : ℕ) : vastDisk.hdr.layout.bat vastDisk clu = none := by
  rw [Layout.bat, vastDisk_entry]
  exact if_neg fun h => h.2 rfl

theorem vastDisk_wellFormed : WellFormed vastDisk := by
  have hno : ∀ clu b, vastDisk.hdr.layout.bat vastDisk clu ≠ some b := by
    intro clu b h
    rw [vastDisk_bat] at h
    cases h
  constructor
  · rw [vastDisk_hdr]
    exact ⟨by decide, by decide, by decide, by decide, by decide⟩
  · constructor
    · intro clu _
      rw [vastDisk_layout]
      exact Nat.dvd_mul_left _ _
    · exact fun clu b h => absurd h (hno clu b)
    · exact fun clu _ b h _ => absurd h (hno clu b)
    · exact fun s _ _ => vastDisk_entry s

section VastDisk

variable {d : Delta}

theorem vastDisk_index :
    vastDisk.hdr.layout.l1Size * vastDisk.hdr.layout.cluster ≤ vastDisk.size := by
  rw [vastDisk_layout]
  decide

theorem vastDisk_opens : ∃ d, openDelta vastDisk true = some d :=
  exists_openDelta vastDisk_wellFormed.header (by decide) fun _ => rfl

/-- The block behind the index is asked for. -/
theorem vastDisk_request (hopen : openDelta vastDisk true = some d) :
    Request vastDisk d [] 524290 524290 1 where
  wellFormed := vastDisk_wellFormed
  index := vastDisk_index
  opened := ⟨true, hopen⟩
  mapped clu b h := by
    rw [vastDisk_bat] at h
    cases h
  reach := by decide
  pos := by decide
  le := by decide
  start := by rw [vastDisk_layout]
  head := by decide
  sorted := sortedMap_nil
  words _ he := absurd he List.not_mem_nil

theorem vastDisk_refused (hopen : openDelta vastDisk true = some d) :
    ¬ Answered vastDisk d [] 524290 524290 1 := by
  intro h
  have hl2 : d.l2Size = 2 ^ 32 - 1 := by
    rw [(openDelta_spec hopen).opened.l2Size, vastDisk_layout]
  have hmark : zeroIndexMark.toNat = 2 ^ 32 - 1 := rfl
  rw [Answered, rangeBuild_aborts (by decide) (hmark.trans hl2.symm).le] at h
  cases h.1

end VastDisk

/-- Cluster numbers up to the mark, ends that wrap around and large tables are too much. -/
theorem rangeBuild_misses :
    (¬ ∀ f d m rlen aH n, Request f d m rlen aH n → f.hdr.layout.l2Size + mapOffset ≤ 2 ^ 32 →
      EndsFit m → Answered f d m rlen aH n) ∧
    (¬ ∀ f d m rlen aH n, Request f d m rlen aH n → f.hdr.layout.l2Size + mapOffset ≤ 2 ^ 32 →
      (∀ e ∈ m, e.clu + e.len < 2 ^ 32) → Answered f d m rlen aH n) ∧
    ¬ ∀ f d m rlen aH n, Request f d m rlen aH n → BelowMark m → Answered f d m rlen aH n := by
  obtain ⟨d, hd⟩ := fullDisk_opens
  refine ⟨fun h => ?_, fun h => ?_, fun h => ?_⟩
  · apply markExtent_misses hd
    apply h _ _ _ _ _ _ (markExtent_request hd) fullDisk_slots
    intro e he
    rw [List.mem_singleton.mp he]
    decide
  · apply wrappedExtent_misses hd
    apply h _ _ _ _ _ _ (wrappedExtent_request hd) fullDisk_slots
    intro e he
    rw [List.mem_singleton.mp he]
    decide
  · obtain ⟨d', hd'⟩ := vastDisk_opens
    exact vastDisk_refused hd' (h _ _ _ _ _ _ (vastDisk_request hd') fun _ he =>
      absurd he List.not_mem_nil)

end Ploop.Balloon
