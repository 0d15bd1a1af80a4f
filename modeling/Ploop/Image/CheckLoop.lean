import Ploop.Image.CheckValid

/-!
# What the loop of `ploop_check` finds

On any file with a legible header, however damaged its table: which slots are wiped, which
blocks are marked, and where the head of the allocation ends up.
-/

namespace Ploop.Check

open Storage Program

/-- A header that the tests at the start let through. -/
structure Legible (vh : PvdHeader) : Prop where
  version : (ploop1Version vh).isSome
  type : vh.mType = prlImageCompressed
  blocksize : isValidBlocksize vh.mSectors.toNat
  aligned : vh.mFirstBlockOffset.toNat % vh.mSectors.toNat = 0
  index : vh.layout.l1Size ≠ 0

theorem legible_of_valid {vh : PvdHeader} (h : vh.Valid) : Legible vh where
  version := h.version
  type := h.type
  blocksize := h.layout.blocksize
  aligned := h.aligned
  index := h.layout.l1_pos.ne'

/-- What `check_one_slot` makes of a slot in use. -/
inductive Verdict where
  | outside
  | corrupted
  | block (b : ℕ)
  deriving DecidableEq

def verdict (d : Desc) (clu isec blocksize : ℕ) (version : FmtVersion) : Verdict :=
  let clusterLog := ffs blocksize - 1
  let iblk := u32 (isec >>> clusterLog)
  if d.bdSize < u32 (clu <<< clusterLog) then .outside
  else if version = .v1 ∧ isec % 2 ^ clusterLog ≠ 0 then .corrupted
  else if d.size < iblk * s2b blocksize + s2b blocksize then .corrupted
  else .block iblk

def act (d : Desc) (clu : ℕ) : Verdict → CheckM Unit
  | .outside => zeroIndexFix d clu false false false
  | .corrupted => zeroIndexFix d clu true false true
  | .block b => do
      if d.check then markBlock d clu b
      modify fun s => { s with allocHead := max s.allocHead b }

/-- None for a slot that is not in use. -/
def found (d : Desc) (f : File) (k : ℕ) : Option Verdict :=
  if Layout.entry f k = 0 then none
  else some (verdict d (u32 k)
    (ioffToSec (Layout.entry f k) f.hdr.layout.blocksize f.hdr.layout.version)
    f.hdr.layout.blocksize f.hdr.layout.version)

section Found

variable (d : Desc) (f : File)

/-- Block `b` is marked when the slots before `n` have been looked at. -/
def Marked (n b : ℕ) : Prop :=
  b < f.hdr.layout.l1Size ∨ ∃ k < n, found d f k = some (.block b)

def Repairs (k : ℕ) : Prop :=
  d.ro = false ∧
    (found d f k = some .outside ∨ found d f k = some .corrupted ∧ d.hardForce = true)

/-- Slot `j` is written by one of the first `n` repairs. -/
def Wiped (n j : ℕ) : Prop := ∃ k < n, u32 k = j ∧ Repairs d f k

def Fatal (k : ℕ) : Prop :=
  (d.ro = true ∨ d.hardForce = false) ∧ (found d f k = some .corrupted ∨
    d.check = true ∧ ∃ b, found d f k = some (.block b) ∧ Marked d f k b)

/-- A slot that is reported and not repaired. -/
def Left (k : ℕ) : Prop := Fatal d f k ∨ d.ro = true ∧ found d f k = some .outside

/-- The last block that the index or one of the first `n` slots takes. -/
structure HeadAt (n h : ℕ) : Prop where
  index : f.hdr.layout.l1Size - 1 ≤ h
  slots : ∀ k < n, ∀ b, found d f k = some (.block b) → b ≤ h
  taken : h = f.hdr.layout.l1Size - 1 ∨ ∃ k < n, found d f k = some (.block h)

/-- The state after the first `n` slots. -/
structure Scanned (n : ℕ) (s : State) : Prop where
  size : s.file.size = f.size
  header : ∀ w < mapOffset, s.file.word w = f.word w
  wiped : ∀ j, Wiped d f n j → Layout.entry s.file j = 0
  kept : ∀ j, ¬ Wiped d f n j → Layout.entry s.file j = Layout.entry f j
  clean : s.clean = true ↔ ∀ k < n, ¬ Left d f k
  fatality : s.fatality = true ↔ ∃ k < n, Fatal d f k
  head : HeadAt d f n s.allocHead
  bmap : ∀ b, s.bmap b = true ↔ d.check = true ∧ Marked d f n b

end Found

section Step

variable {d : Desc} {f : File} {n k b : ℕ} {s t : State}

theorem verdict_block {clu isec blocksize : ℕ} {version : FmtVersion}
    (h : verdict d clu isec blocksize version = .block b) :
    b < 2 ^ 32 ∧ b * s2b blocksize + s2b blocksize ≤ d.size := by
  unfold verdict at h
  dsimp only at h
  split at h
  · cases h
  · split at h
    · cases h
    · split at h
      · cases h
      case isFalse hend =>
        injection h with h
        rw [h] at hend
        exact ⟨h ▸ u32_lt _, Nat.not_lt.mp hend⟩

theorem found_eq_some {v : Verdict} (h : found d f k = some v) : Layout.entry f k ≠ 0 ∧
    verdict d (u32 k) (ioffToSec (Layout.entry f k) f.hdr.layout.blocksize f.hdr.layout.version)
      f.hdr.layout.blocksize f.hdr.layout.version = v := by
  unfold found at h
  split at h
  · cases h
  case isFalse hne =>
    injection h with h
    exact ⟨hne, h⟩

/-- A block that a slot names lies in the file. -/
theorem found_block (h : found d f k = some (.block b)) :
    b < 2 ^ 32 ∧ b * f.hdr.layout.cluster + f.hdr.layout.cluster ≤ d.size :=
  verdict_block (found_eq_some h).2

theorem marked_succ : Marked d f (n + 1) b ↔ Marked d f n b ∨ found d f n = some (.block b) := by
  unfold Marked
  rw [Nat.exists_lt_succ_right, or_assoc]

theorem wiped_succ {j : ℕ} : Wiped d f (n + 1) j ↔ Wiped d f n j ∨ u32 n = j ∧ Repairs d f n :=
  Nat.exists_lt_succ_right

/-- Only slots that have been looked at are wiped. -/
theorem Wiped.lt {j : ℕ} (h : Wiped d f n j) : j < n := by
  obtain ⟨k, hk, rfl, -⟩ := h
  exact (Nat.mod_le k _).trans_lt hk

theorem HeadAt.none (h : HeadAt d f n k) (hfound : ∀ b, found d f n ≠ some (.block b)) :
    HeadAt d f (n + 1) k := by
  constructor
  · exact h.index
  · intro m hm b hb
    rcases Nat.lt_succ_iff_lt_or_eq.mp hm with hlt | rfl
    · exact h.slots m hlt b hb
    · exact absurd hb (hfound b)
  · apply h.taken.imp_right
    rintro ⟨m, hm, hb⟩
    exact ⟨m, hm.trans (Nat.lt_succ_self n), hb⟩

theorem HeadAt.max (h : HeadAt d f n k) (hfound : found d f n = some (.block b)) :
    HeadAt d f (n + 1) (max k b) := by
  constructor
  · exact h.index.trans (le_max_left k b)
  · intro m hm c hc
    rcases Nat.lt_succ_iff_lt_or_eq.mp hm with hlt | rfl
    · exact (h.slots m hlt c hc).trans (le_max_left k b)
    · rw [hfound] at hc
      injection hc with hc
      injection hc with hc
      exact hc ▸ le_max_right k b
  · rcases le_total k b with hle | hle
    · rw [max_eq_right hle]
      exact .inr ⟨n, Nat.lt_succ_self n, hfound⟩
    · rw [max_eq_left hle]
      apply h.taken.imp_right
      rintro ⟨m, hm, hb⟩
      exact ⟨m, hm.trans (Nat.lt_succ_self n), hb⟩

/-- What one slot does to the state. -/
structure SlotStep (d : Desc) (f : File) (n : ℕ) (s t : State) : Prop where
  repaired : Repairs d f n → t.file = s.file.pwrite ⟨u32 n * 4 + headerBytes, 4, fun _ => 0⟩
  same : ¬ Repairs d f n → t.file = s.file
  clean : t.clean = true ↔ s.clean = true ∧ ¬ Left d f n
  fatality : t.fatality = true ↔ s.fatality = true ∨ Fatal d f n
  head : t.allocHead = match found d f n with
    | some (.block b) => max s.allocHead b
    | _ => s.allocHead
  bmap : ∀ b, t.bmap b = true ↔
    s.bmap b = true ∨ d.check = true ∧ found d f n = some (.block b)

theorem word_zeroIndex {g : File} {j w : ℕ} :
    (g.pwrite ⟨j * 4 + headerBytes, 4, fun _ => 0⟩).word w =
      if w = j + mapOffset then 0 else g.word w := by
  have hoff : j * 4 + headerBytes = 4 * (j + mapOffset) := by
    simp only [headerBytes, mapOffset]
    omega
  split
  case isTrue h =>
    rw [g.word_pwrite_of_mem hoff (by omega) (by simp only; omega)]
    rfl
  case isFalse h =>
    apply g.word_pwrite_of_not_mem
    simp only [hoff]
    omega

theorem Scanned.next (h : Scanned d f n s) (hst : SlotStep d f n s t)
    (hin : 4 * (n + mapOffset) + 4 ≤ f.size) : Scanned d f (n + 1) t := by
  have hle : u32 n ≤ n := Nat.mod_le n _
  constructor
  · by_cases hr : Repairs d f n
    · rw [hst.repaired hr, File.size_pwrite_le, h.size]
      rw [h.size]
      simp only [headerBytes, mapOffset] at hin ⊢
      omega
    · rw [hst.same hr, h.size]
  · intro w hw
    by_cases hr : Repairs d f n
    · rw [hst.repaired hr, word_zeroIndex, if_neg (by omega), h.header w hw]
    · rw [hst.same hr, h.header w hw]
  · intro j hj
    by_cases hr : Repairs d f n
    · rw [Layout.entry, hst.repaired hr, word_zeroIndex]
      split
      case isTrue => rfl
      case isFalse hne =>
        rcases wiped_succ.mp hj with hold | ⟨rfl, -⟩
        · exact h.wiped j hold
        · exact absurd rfl hne
    · rw [hst.same hr]
      rcases wiped_succ.mp hj with hold | ⟨-, hnew⟩
      · exact h.wiped j hold
      · exact absurd hnew hr
  · intro j hj
    obtain ⟨hold, hnew⟩ := not_or.mp fun hor => hj (wiped_succ.mpr hor)
    by_cases hr : Repairs d f n
    · rw [Layout.entry, hst.repaired hr, word_zeroIndex,
        if_neg fun heq => hnew ⟨(Nat.add_right_cancel heq).symm, hr⟩]
      exact h.kept j hold
    · rw [hst.same hr]
      exact h.kept j hold
  · rw [hst.clean, h.clean, Nat.forall_lt_succ_right]
  · rw [hst.fatality, h.fatality, Nat.exists_lt_succ_right]
  · rw [hst.head]
    split
    case h_1 b hb => exact h.head.max hb
    case h_2 hno => exact h.head.none hno
  · intro b
    rw [hst.bmap, h.bmap, marked_succ, and_or_left]

/-- One slot, by its verdict. -/
theorem checkOneSlot_eq (d : Desc) (clu isec blocksize : ℕ) (version : FmtVersion) :
    checkOneSlot d clu isec blocksize version =
      act d clu (verdict d clu isec blocksize version) := by
  unfold checkOneSlot verdict
  dsimp only
  split
  case isTrue => rfl
  case isFalse =>
    split
    case isTrue => rfl
    case isFalse =>
      split
      case isTrue => rfl
      case isFalse => rfl

theorem outside_step (hfound : found d f n = some .outside) : Triple (fun t => t = s)
    (zeroIndexFix d (u32 n) false false false) (fun _ t => SlotStep d f n s t)
    (fun _ => False) := by
  have hnot : ¬ Fatal d f n := by
    rintro ⟨-, hcor | ⟨-, b, hb, -⟩⟩
    · cases hfound.symm.trans hcor
    · cases hfound.symm.trans hb
  have hno : ∀ b, ¬ (d.check = true ∧ found d f n = some (.block b)) := by
    rintro b ⟨-, hb⟩
    cases hfound.symm.trans hb
  unfold zeroIndexFix
  cases hro : d.ro with
  | true =>
      rw [if_pos (.inl rfl)]
      apply Triple.update
      rintro t rfl
      constructor
      · exact fun hr => absurd (hro.symm.trans hr.1) Bool.true_eq_false_eq_False
      · exact fun _ => rfl
      · exact ⟨fun hf => absurd hf Bool.false_ne_true, fun hl => absurd (.inr ⟨hro, hfound⟩) hl.2⟩
      · rw [Bool.or_false]
        exact ⟨.inl, fun hor => hor.resolve_right hnot⟩
      · rw [hfound]
      · exact fun b => ⟨.inl, fun hor => hor.resolve_right (hno b)⟩
  | false =>
      rw [if_neg (by simp), if_neg Bool.false_ne_true]
      apply Triple.update
      rintro t rfl
      constructor
      · exact fun _ => rfl
      · exact fun hr => absurd ⟨hro, .inl hfound⟩ hr
      · refine ⟨fun hc => ⟨hc, ?_⟩, fun hl => hl.1⟩
        rintro (hfatal | ⟨hro', -⟩)
        · exact hnot hfatal
        · exact absurd (hro.symm.trans hro') Bool.false_ne_true
      · exact ⟨.inl, fun hor => hor.resolve_right hnot⟩
      · rw [hfound]
      · exact fun b => ⟨.inl, fun hor => hor.resolve_right (hno b)⟩

theorem corrupted_step (hfound : found d f n = some .corrupted) : Triple (fun t => t = s)
    (zeroIndexFix d (u32 n) true false true) (fun _ t => SlotStep d f n s t)
    (fun _ => False) := by
  have hno : ∀ b, ¬ (d.check = true ∧ found d f n = some (.block b)) := by
    rintro b ⟨-, hb⟩
    cases hfound.symm.trans hb
  unfold zeroIndexFix
  split
  case isTrue hskip =>
    have hfatal : Fatal d f n := by
      refine ⟨?_, .inl hfound⟩
      rcases hskip with hro | ⟨-, hhard⟩
      · exact .inl hro
      · exact .inr (Bool.eq_false_iff.mpr hhard)
    apply Triple.update
    rintro t rfl
    constructor
    · rintro ⟨hro, hout | ⟨-, hhard⟩⟩
      · cases hfound.symm.trans hout
      · rcases hfatal.1 with h | h
        · exact absurd (hro.symm.trans h) Bool.false_ne_true
        · exact absurd (h.symm.trans hhard) Bool.false_ne_true
    · exact fun _ => rfl
    · exact ⟨fun hf => absurd hf Bool.false_ne_true, fun hl => absurd (.inl hfatal) hl.2⟩
    · rw [Bool.or_true]
      exact ⟨fun _ => .inr hfatal, fun _ => rfl⟩
    · rw [hfound]
    · exact fun b => ⟨.inl, fun hor => hor.resolve_right (hno b)⟩
  case isFalse hrun =>
    obtain ⟨hro, hhard⟩ := not_or.mp hrun
    have hhard' : d.hardForce = true := by
      by_contra h
      exact hhard ⟨rfl, h⟩
    have hro' : d.ro = false := Bool.eq_false_iff.mpr hro
    have hnot : ¬ Fatal d f n := by
      rintro ⟨h | h, -⟩
      · exact hro h
      · exact absurd (h.symm.trans hhard') Bool.false_ne_true
    rw [if_neg Bool.false_ne_true]
    apply Triple.update
    rintro t rfl
    constructor
    · exact fun _ => rfl
    · exact fun hr => absurd ⟨hro', .inr ⟨hfound, hhard'⟩⟩ hr
    · refine ⟨fun hc => ⟨hc, ?_⟩, fun hl => hl.1⟩
      rintro (hfatal | ⟨h, -⟩)
      · exact hnot hfatal
      · exact hro h
    · exact ⟨.inl, fun hor => hor.resolve_right hnot⟩
    · rw [hfound]
    · exact fun b => ⟨.inl, fun hor => hor.resolve_right (hno b)⟩

theorem markBlock_spec {clu : ℕ} : Triple (fun t => t = s) (markBlock d clu b) (fun _ t =>
    t = { s with
      clean := t.clean, fatality := t.fatality, bmap := Function.update s.bmap b true } ∧
    (t.clean = true ↔
      s.clean = true ∧ ¬ ((d.ro = true ∨ d.hardForce = false) ∧ s.bmap b = true)) ∧
    (t.fatality = true ↔
      s.fatality = true ∨ (d.ro = true ∨ d.hardForce = false) ∧ s.bmap b = true))
    (fun _ => False) := by
  apply Triple.look
  rintro s rfl
  dsimp only
  split
  case isFalse hb =>
    apply Triple.update
    rintro t rfl
    exact ⟨rfl, ⟨fun h => ⟨h, fun hl => hb hl.2⟩, fun h => h.1⟩,
      .inl, fun hor => hor.resolve_right fun hl => hb hl.2⟩
  case isTrue hb =>
    unfold zeroIndexFix
    split
    case isTrue hskip =>
      have hleft : d.ro = true ∨ d.hardForce = false :=
        hskip.imp_right fun h => Bool.eq_false_iff.mpr h.2
      apply Triple.step
      apply Triple.update
      rintro t rfl
      refine ⟨rfl, ⟨fun h => absurd h Bool.false_ne_true, fun h => absurd ⟨hleft, hb⟩ h.2⟩,
        fun _ => .inr ⟨hleft, hb⟩, fun _ => ?_⟩
      exact Bool.or_true _
    case isFalse hrun =>
      rw [if_pos rfl]
      have hnot : ¬ (d.ro = true ∨ d.hardForce = false) := by
        rintro (h | h)
        · exact hrun (.inl h)
        · exact hrun (.inr ⟨rfl, Bool.eq_false_iff.mp h⟩)
      apply Triple.update
      rintro t rfl
      exact ⟨rfl, ⟨fun h => ⟨h, fun hl => hnot hl.1⟩, fun h => h.1⟩,
        .inl, fun hor => hor.resolve_right fun hl => hnot hl.1⟩

/-- Nothing is written for a block, whether it is marked already or not. -/
theorem block_step (hfound : found d f n = some (.block b))
    (hmarked : s.bmap b = true ↔ d.check = true ∧ Marked d f n b) : Triple (fun t => t = s)
    (act d (u32 n) (.block b)) (fun _ t => SlotStep d f n s t) (fun _ => False) := by
  have hsame : ¬ Repairs d f n := by
    rintro ⟨-, hout | ⟨hcor, -⟩⟩
    · cases hfound.symm.trans hout
    · cases hfound.symm.trans hcor
  have hfatal : Fatal d f n ↔ (d.ro = true ∨ d.hardForce = false) ∧ s.bmap b = true := by
    rw [hmarked]
    constructor
    · rintro ⟨hskip, hcor | ⟨hcheck, c, hc, hm⟩⟩
      · cases hfound.symm.trans hcor
      · obtain rfl : b = c := by
          rw [hfound] at hc
          injection hc with hc
          injection hc
        exact ⟨hskip, hcheck, hm⟩
    · rintro ⟨hskip, hcheck, hm⟩
      exact ⟨hskip, .inr ⟨hcheck, b, hfound, hm⟩⟩
  have hleft : Left d f n ↔ Fatal d f n := by
    refine ⟨fun h => h.resolve_right ?_, .inl⟩
    rintro ⟨-, hout⟩
    cases hfound.symm.trans hout
  have hblock : ∀ c, found d f n = some (.block c) ↔ c = b := by
    intro c
    rw [hfound]
    constructor
    · intro h
      injection h with h
      injection h with h
      exact h.symm
    · rintro rfl
      rfl
  unfold act
  dsimp only
  cases hcheck : d.check with
  | false =>
      rw [if_neg Bool.false_ne_true]
      have hnot : ¬ Fatal d f n := by
        rw [hfatal, hmarked, hcheck]
        rintro ⟨-, h, -⟩
        exact Bool.false_ne_true h
      apply Triple.update
      rintro t rfl
      constructor
      · exact fun hr => absurd hr hsame
      · exact fun _ => rfl
      · exact ⟨fun h => ⟨h, fun hl => hnot (hleft.mp hl)⟩, fun h => h.1⟩
      · exact ⟨.inl, fun hor => hor.resolve_right hnot⟩
      · rw [hfound]
      · exact fun c => ⟨.inl, fun hor => hor.elim id fun h => absurd (hcheck.symm.trans h.1)
          Bool.false_ne_true⟩
  | true =>
      rw [if_pos rfl]
      apply Triple.bind (R := fun _ t => t = { s with
        clean := t.clean, fatality := t.fatality, bmap := Function.update s.bmap b true } ∧
        (t.clean = true ↔ s.clean = true ∧ ¬ Fatal d f n) ∧
        (t.fatality = true ↔ s.fatality = true ∨ Fatal d f n))
      · have hmark := @markBlock_spec d b s (u32 n)
        apply hmark.conseq
        · exact fun _ ht => ht
        · rintro _ t ⟨ht, hclean, hfatality⟩
          rw [hfatal]
          exact ⟨ht, hclean, hfatality⟩
        · exact fun _ ht => ht
      · intro _
        apply Triple.update
        rintro t ⟨ht, hclean, hfatality⟩
        rw [ht]
        constructor
        · exact fun hr => absurd hr hsame
        · exact fun _ => rfl
        · rw [hleft]
          exact hclean
        · exact hfatality
        · rw [hfound]
        · intro c
          dsimp only
          rw [hblock, Function.update_apply]
          split
          case isTrue hc => exact ⟨fun _ => .inr ⟨hcheck, hc⟩, fun _ => rfl⟩
          case isFalse hc => exact ⟨.inl, fun hor => hor.resolve_right fun h => hc h.2⟩

theorem idle_step (hfound : found d f n = none) : SlotStep d f n s s := by
  have hverdict : ∀ v, found d f n ≠ some v := by
    intro v hv
    cases hfound.symm.trans hv
  have hnot : ¬ Fatal d f n := by
    rintro ⟨-, hcor | ⟨-, b, hb, -⟩⟩
    · exact hverdict _ hcor
    · exact hverdict _ hb
  constructor
  · rintro ⟨-, hout | ⟨hcor, -⟩⟩
    · exact absurd hout (hverdict _)
    · exact absurd hcor (hverdict _)
  · exact fun _ => rfl
  · exact ⟨fun h => ⟨h, fun hl => hl.elim hnot fun ho => hverdict _ ho.2⟩, fun h => h.1⟩
  · exact ⟨.inl, fun hor => hor.resolve_right hnot⟩
  · rw [hfound]
  · exact fun b => ⟨.inl, fun hor => hor.resolve_right fun h => hverdict _ h.2⟩

theorem slot_scanned (hin : 4 * (n + mapOffset) + 4 ≤ f.size) :
    Triple (Scanned d f n) (if Layout.entry f n = 0 then pure () else
      checkOneSlot d (u32 n)
        (ioffToSec (Layout.entry f n) f.hdr.layout.blocksize f.hdr.layout.version)
        f.hdr.layout.blocksize f.hdr.layout.version)
      (fun _ => Scanned d f (n + 1)) fun _ => False := by
  apply Triple.start
  intro s hs
  split
  case isTrue hzero =>
    apply Triple.ret
    rintro t rfl
    exact hs.next (idle_step (if_pos hzero)) hin
  case isFalse hne =>
    have hfound : found d f n = some _ := if_neg hne
    rw [checkOneSlot_eq]
    generalize verdict d (u32 n)
      (ioffToSec (Layout.entry f n) f.hdr.layout.blocksize f.hdr.layout.version)
      f.hdr.layout.blocksize f.hdr.layout.version = v at hfound
    cases v with
    | outside =>
        exact (outside_step hfound).conseq (fun _ ht => ht) (fun _ _ ht => hs.next ht hin)
          fun _ ht => ht
    | corrupted =>
        exact (corrupted_step hfound).conseq (fun _ ht => ht) (fun _ _ ht => hs.next ht hin)
          fun _ ht => ht
    | block b =>
        exact (block_step hfound (hs.bmap b)).conseq (fun _ ht => ht)
          (fun _ _ ht => hs.next ht hin) fun _ ht => ht

end Step

/-! ## The index -/

section Index

variable {d : Desc} {f : File} {s : State} (hbs : isValidBlocksize f.hdr.layout.blocksize)

/-- The number of slots that can be read. -/
def readable (f : File) : ℕ :=
  min f.hdr.layout.l1Size (f.size / f.hdr.layout.cluster) * f.hdr.layout.slots - mapOffset

/-- What has been wiped lies behind the part of the index still to be read. -/
theorem Scanned.word {n w : ℕ} (h : Scanned d f n s) (hw : n + mapOffset ≤ w) :
    s.file.word w = f.word w := by
  obtain ⟨k, rfl⟩ := Nat.exists_eq_add_of_le' ((Nat.le_add_left _ _).trans hw)
  apply h.kept
  intro hwiped
  have hlt := hwiped.lt
  omega

include hbs

theorem slots_gt : mapOffset < f.hdr.layout.slots := by
  have hmin := hbs.1
  rw [Layout.slots_eq, mapOffset]
  omega

/-- The slots of one cluster of the index. -/
theorem slots_scanned {i : ℕ} (hin : (i + 1) * f.hdr.layout.cluster ≤ f.size) {l2 : ℕ → UInt8}
    (hl2 : ∀ j, mapOffset ≤ i * f.hdr.layout.slots + j → bytesWord l2 j =
      f.word (i * f.hdr.layout.slots + j)) :
    Triple (Scanned d f (i * f.hdr.layout.slots - mapOffset)) (forRange (fun j =>
      if bytesWord l2 j = 0 then pure ()
      else checkOneSlot d (u32 (i * f.hdr.layout.slots + j - mapOffset))
        (ioffToSec (bytesWord l2 j) f.hdr.layout.blocksize f.hdr.layout.version)
        f.hdr.layout.blocksize f.hdr.layout.version)
      (if i = 0 then mapOffset else 0) (f.hdr.layout.slots - if i = 0 then mapOffset else 0))
      (fun _ => Scanned d f ((i + 1) * f.hdr.layout.slots - mapOffset)) fun _ => False := by
  have hslots := slots_gt hbs
  have hsucc : (i + 1) * f.hdr.layout.slots = i * f.hdr.layout.slots + f.hdr.layout.slots :=
    Nat.succ_mul _ _
  rw [Layout.cluster_eq, Nat.mul_left_comm, hsucc] at hin
  have hfirst : i = 0 ∨ f.hdr.layout.slots ≤ i * f.hdr.layout.slots := by
    rcases Nat.eq_zero_or_pos i with h | h
    · exact .inl h
    · exact .inr (Nat.le_mul_of_pos_left _ h)
  generalize hskip : (if i = 0 then mapOffset else 0) = skip
  have hskip' : i * f.hdr.layout.slots + skip - mapOffset = i * f.hdr.layout.slots - mapOffset ∧
      skip ≤ f.hdr.layout.slots ∧ mapOffset ≤ i * f.hdr.layout.slots + skip := by
    rcases hfirst with rfl | h
    · rw [if_pos rfl] at hskip
      omega
    · have hpos : i ≠ 0 := by
        rintro rfl
        omega
      rw [if_neg hpos] at hskip
      omega
  obtain ⟨hstart, hle, hoff⟩ := hskip'
  have hstep : ∀ j, skip ≤ j → j < skip + (f.hdr.layout.slots - skip) →
      Triple (Scanned d f (i * f.hdr.layout.slots + j - mapOffset))
        (if bytesWord l2 j = 0 then pure ()
        else checkOneSlot d (u32 (i * f.hdr.layout.slots + j - mapOffset))
          (ioffToSec (bytesWord l2 j) f.hdr.layout.blocksize f.hdr.layout.version)
          f.hdr.layout.blocksize f.hdr.layout.version)
        (fun _ => Scanned d f (i * f.hdr.layout.slots + (j + 1) - mapOffset))
        (fun _ => False) := by
    intro j hj hj'
    have hk : i * f.hdr.layout.slots + j - mapOffset + mapOffset =
        i * f.hdr.layout.slots + j := by
      omega
    have hentry : bytesWord l2 j = Layout.entry f (i * f.hdr.layout.slots + j - mapOffset) := by
      rw [hl2 j (by omega), Layout.entry, hk]
    have hnext : i * f.hdr.layout.slots + (j + 1) - mapOffset =
        i * f.hdr.layout.slots + j - mapOffset + 1 := by
      omega
    rw [hentry, hnext]
    exact slot_scanned (by omega)
  have hloop := Triple.forRange
    (I := fun j => Scanned d f (i * f.hdr.layout.slots + j - mapOffset)) skip
    (f.hdr.layout.slots - skip) hstep
  apply hloop.conseq
  · intro t ht
    rwa [hstart]
  · intro _ t ht
    rwa [Nat.add_sub_cancel' hle, ← hsucc] at ht
  · exact fun _ ht => ht

theorem checkCluster_scanned (inUse : Bool) (i : ℕ) :
    Triple (fun s => Scanned d f (i * f.hdr.layout.slots - mapOffset) s ∧
        i * f.hdr.layout.cluster ≤ f.size)
      (checkCluster d f.hdr f.hdr.layout.version inUse i)
      (fun _ s => Scanned d f ((i + 1) * f.hdr.layout.slots - mapOffset) s ∧
        (i + 1) * f.hdr.layout.cluster ≤ f.size)
      (fun s => Scanned d f (i * f.hdr.layout.slots - mapOffset) s ∧
        i * f.hdr.layout.cluster ≤ f.size ∧ f.size < (i + 1) * f.hdr.layout.cluster) := by
  apply Triple.start
  rintro s ⟨hs, hle⟩
  have hsize := hs.size
  unfold checkCluster
  dsimp only
  apply Triple.bind (R := fun l2 t => t = s ∧ (i + 1) * f.hdr.layout.cluster ≤ f.size ∧
    l2 = fun j => s.file.byte (i * f.hdr.layout.cluster + j))
  · apply readSafe_spec.conseq
    · exact fun _ ht => ht
    · intro l2 t ht
      rw [hsize] at ht
      rw [Nat.succ_mul]
      exact ht
    · rintro t ⟨rfl, hshort⟩
      rw [hsize] at hshort
      rw [Nat.succ_mul]
      exact ⟨hs, hle, hshort⟩
  · intro l2
    apply Triple.start
    rintro t ⟨rfl, hend, hl2⟩
    have hread : ∀ j, mapOffset ≤ i * f.hdr.layout.slots + j →
        bytesWord l2 j = f.word (i * f.hdr.layout.slots + j) := by
      intro j hj
      rw [hl2, Layout.bytesWord_page]
      exact hs.word (by omega)
    have hloop := (@slots_scanned d f hbs i hend l2 hread).conseq
      (fun u (hu : u = t) => hu ▸ hs) (fun _ u hu => And.intro hu hend)
      fun u hu => (hu.elim : Scanned d f (i * f.hdr.layout.slots - mapOffset) u ∧
        i * f.hdr.layout.cluster ≤ f.size ∧ f.size < (i + 1) * f.hdr.layout.cluster)
    split
    case isTrue =>
      apply Triple.bind (R := fun _ u => u = t)
      · apply Triple.update
        rintro u rfl
        have hsame : u.file.pwrite ⟨i * f.hdr.layout.cluster, f.hdr.layout.cluster, l2⟩ =
            u.file := by
          rw [hl2]
          apply File.pwrite_self
          rwa [hsize, ← Nat.succ_mul]
        exact congrArg (fun g => { u with file := g }) hsame
      · exact fun _ => hloop
    case isFalse => exact hloop

theorem readable_of_le (h : f.hdr.layout.l1Size * f.hdr.layout.cluster ≤ f.size) :
    readable f = f.hdr.layout.l1Size * f.hdr.layout.slots - mapOffset := by
  have hpos : 0 < f.hdr.layout.cluster := by
    have := slots_gt hbs
    rw [Layout.cluster_eq]
    omega
  unfold readable
  rw [min_eq_left ((Nat.le_div_iff_mul_le hpos).mpr h)]

/-- The loop ends behind the last slot or where the file does. -/
theorem indexLoop_scanned (inUse : Bool) : Triple (Scanned d f 0)
    (forRange (checkCluster d f.hdr f.hdr.layout.version inUse) 0 f.hdr.layout.l1Size)
    (fun _ s => Scanned d f (readable f) s ∧
      f.hdr.layout.l1Size * f.hdr.layout.cluster ≤ f.size)
    (fun s => Scanned d f (readable f) s ∧
      f.size < f.hdr.layout.l1Size * f.hdr.layout.cluster) := by
  have hstep : ∀ i, 0 ≤ i → i < 0 + f.hdr.layout.l1Size →
      Triple (fun s => Scanned d f (i * f.hdr.layout.slots - mapOffset) s ∧
          i * f.hdr.layout.cluster ≤ f.size)
        (checkCluster d f.hdr f.hdr.layout.version inUse i)
        (fun _ s => Scanned d f ((i + 1) * f.hdr.layout.slots - mapOffset) s ∧
          (i + 1) * f.hdr.layout.cluster ≤ f.size)
        (fun s => Scanned d f (readable f) s ∧
          f.size < f.hdr.layout.l1Size * f.hdr.layout.cluster) := by
    intro i _ hi
    rw [Nat.zero_add] at hi
    apply (checkCluster_scanned hbs inUse i).conseq
    · exact fun _ hs => hs
    · exact fun _ _ hs => hs
    · rintro s ⟨hs, hle, hlt⟩
      refine ⟨?_, hlt.trans_le (Nat.mul_le_mul_right _ hi)⟩
      have hquot : f.size / f.hdr.layout.cluster = i := Nat.div_eq_of_lt_le hle hlt
      rw [readable, hquot, min_eq_right hi.le]
      exact hs
  have hloop := Triple.forRange (I := fun i s =>
    Scanned d f (i * f.hdr.layout.slots - mapOffset) s ∧ i * f.hdr.layout.cluster ≤ f.size)
    0 f.hdr.layout.l1Size hstep
  apply hloop.conseq
  · intro s hs
    simpa using hs
  · rintro _ s ⟨hs, hle⟩
    rw [Nat.zero_add] at hs hle
    rw [readable_of_le hbs hle]
    exact ⟨hs, hle⟩
  · exact fun _ hs => hs

end Index

/-! ## Around the loop -/

section Around

variable {c : Calls} {flags : Flags} {f : File}

/-- What `ploop_check` puts in its descriptor. -/
def descOf (flags : Flags) (check : Bool) (f : File) : Desc :=
  ⟨flags.readonly, flags.hardForce, check, offT (getSizeInSectors f.hdr), f.size⟩

/-- The state before the loop, without a bitmap. -/
structure Fresh (f : File) (s : State) : Prop where
  file : s.file = f
  clean : s.clean = true
  fatality : s.fatality = false
  bmap : s.bmap = fun _ => false

/-- The index is marked from the start. -/
theorem Fresh.scanned {d : Desc} {s : State} (h : Fresh f s)
    (hhead : s.allocHead = f.hdr.layout.l1Size - 1) : Scanned d f 0
      (if d.check then { s with bmap := fun b => b < f.hdr.layout.l1Size } else s) := by
  have hnone : ∀ {p : ℕ → Prop}, ¬ ∃ k < 0, p k := by
    rintro p ⟨k, hk, -⟩
    exact absurd hk (Nat.not_lt_zero k)
  have hstart (t : State) (hfile : t.file = f) (hclean : t.clean = true)
      (hfatal : t.fatality = false) (halloc : t.allocHead = f.hdr.layout.l1Size - 1)
      (hbmap : ∀ b, t.bmap b = true ↔ d.check = true ∧ Marked d f 0 b) : Scanned d f 0 t := by
    constructor
    · exact congrArg File.size hfile
    · exact fun w _ => congrArg (File.word · w) hfile
    · exact fun j hj => absurd hj hnone
    · exact fun j _ => congrArg (Layout.entry · j) hfile
    · exact ⟨fun _ k hk => absurd hk (Nat.not_lt_zero k), fun _ => hclean⟩
    · exact ⟨fun ht => absurd (hfatal.symm.trans ht) Bool.false_ne_true,
        fun hex => absurd hex hnone⟩
    · exact ⟨halloc.ge, fun k hk => absurd hk (Nat.not_lt_zero k), .inl halloc⟩
    · exact hbmap
  cases hcheck : d.check with
  | false =>
      rw [if_neg Bool.false_ne_true]
      apply hstart s h.file h.clean h.fatality hhead
      intro b
      rw [h.bmap, hcheck]
      exact ⟨fun hb => absurd hb Bool.false_ne_true, fun hb => absurd hb.1 Bool.false_ne_true⟩
  | true =>
      rw [if_pos rfl]
      apply hstart { s with bmap := fun b => b < f.hdr.layout.l1Size } h.file h.clean h.fatality
        hhead
      intro b
      rw [decide_eq_true_eq, hcheck]
      exact ⟨fun hb => ⟨rfl, .inl hb⟩, fun hb => hb.2.resolve_right hnone⟩

theorem startBitmap_fresh {s : State} : Triple (fun t => t = s)
    (startBitmap c flags f.hdr.layout.l1Size)
    (fun check t => check = (flags.detailed && c.bitmap) ∧
      (flags.detailed = true → c.bitmap = true ∨ flags.talkative = true) ∧
      t = if check then { s with bmap := fun b => b < f.hdr.layout.l1Size } else s)
    (fun t => t = s ∧ ¬ (flags.detailed = true → c.bitmap = true ∨ flags.talkative = true)) := by
  unfold startBitmap
  cases hdetailed : flags.detailed with
  | false =>
      rw [if_neg Bool.false_ne_true]
      apply Triple.ret
      rintro t rfl
      exact ⟨rfl, fun h => absurd h Bool.false_ne_true, rfl⟩
  | true =>
      rw [if_pos rfl]
      cases hbitmap : c.bitmap with
      | true =>
          rw [if_pos rfl]
          apply Triple.step
          apply Triple.ret
          rintro t rfl
          exact ⟨rfl, fun _ => .inl rfl, rfl⟩
      | false =>
          rw [if_neg Bool.false_ne_true]
          cases htalk : flags.talkative with
          | true =>
              rw [if_pos rfl]
              apply Triple.ret
              rintro t rfl
              exact ⟨rfl, fun _ => .inr rfl, rfl⟩
          | false =>
              rw [if_neg Bool.false_ne_true]
              apply Triple.raise
              intro t ht
              exact ⟨ht, fun h => (h rfl).elim Bool.false_ne_true Bool.false_ne_true⟩

/-- A check up to its loop. -/
theorem checkImage_legible (hhdr : Legible f.hdr)
    {Q : Unit → State → Prop} {E : State → Prop}
    (hskip : flags.force = false → ¬ Enters flags f.hdr → ∀ s, Fresh f s → Q () s)
    (hstop : f.size < headerBytes ∨ c.buffer = false ∨ ¬ Enters flags f.hdr →
      ∀ s, Fresh f s → E s)
    (hindex : Enters flags f.hdr → c.buffer = true →
      Triple (fun s => Fresh f s ∧ s.allocHead = f.hdr.layout.l1Size - 1)
        (checkIndex c flags f.hdr f.hdr.layout.version f.hdr.layout.l1Size f.size
          (f.hdr.mDiskInUse = signatureDiskInUse)) Q E) :
    Triple (Fresh f) (checkImage c flags) Q E := by
  obtain ⟨version, hversion⟩ := Option.isSome_iff_exists.mp hhdr.version
  have hlayout : f.hdr.layout.version = version := by
    rw [PvdHeader.layout, hversion, Option.getD_some]
  have hl1 : f.hdr.mFirstBlockOffset.toNat >>> (ffs f.hdr.mSectors.toNat - 1) =
      f.hdr.layout.l1Size := by
    rw [Nat.shiftRight_eq_div_pow, hhdr.blocksize.ffs]
    rfl
  rw [hlayout] at hindex
  apply Triple.look
  intro s hs
  apply Triple.bind (R := fun buf t => t = s ∧ buf = fun i => f.byte (0 + i))
  · apply readSafe_spec.conseq
    · exact fun _ ht => ht
    · rintro buf t ⟨ht, -, hbuf⟩
      rw [hs.file] at hbuf
      exact ⟨ht, hbuf⟩
    · rintro t ⟨rfl, hshort⟩
      rw [hs.file, Nat.zero_add] at hshort
      exact hstop (.inl hshort) t hs
  · intro buf
    apply Triple.start
    rintro t ⟨rfl, hbuf⟩
    have hof : PvdHeader.ofWords (bytesWord buf) = f.hdr := by
      rw [hbuf]
      simp only [Nat.zero_add]
      rfl
    dsimp only
    rw [hof, hl1, hversion, hs.file]
    dsimp only
    rw [if_neg (not_not.mpr hhdr.type), if_neg (not_not.mpr hhdr.blocksize),
      if_neg (not_or.mpr ⟨not_not.mpr hhdr.aligned, hhdr.index⟩)]
    apply Triple.bind (R := fun _ u => Fresh f u)
    · apply Triple.update
      rintro u rfl
      exact ⟨hs.file, hs.clean, hs.fatality, hs.bmap⟩
    · intro _
      cases hbuffer : c.buffer with
      | false => exact Triple.raise fun u hu => hstop (.inr (.inl hbuffer)) u hu
      | true =>
          rw [if_neg (not_not.mpr rfl)]
          apply Triple.bind (R := fun _ u => Fresh f u ∧ u.allocHead = f.hdr.layout.l1Size - 1)
          · apply Triple.update
            intro u hu
            exact ⟨⟨hu.file, hu.clean, hu.fatality, hu.bmap⟩, rfl⟩
          · intro _
            simp only [decide_eq_true_eq]
            by_cases huse : f.hdr.mDiskInUse = signatureDiskInUse
            · rw [if_neg fun h => h.1 huse]
              split
              case isTrue hconvert =>
                have hnot : ¬ Enters flags f.hdr := by
                  rw [Enters, if_pos huse]
                  exact hconvert.2
                exact Triple.raise fun u hu => hstop (.inr (.inr hnot)) u hu.1
              case isFalse hplain =>
                have henter : Enters flags f.hdr := by
                  rw [Enters, if_pos huse]
                  by_contra h
                  exact hplain ⟨huse, h⟩
                exact hindex henter hbuffer
            · split
              case isTrue hidle =>
                have hforce : flags.force = false := Bool.eq_false_iff.mpr hidle.2
                have hnot : ¬ Enters flags f.hdr := by
                  rw [Enters, if_neg huse]
                  exact hidle.2
                exact Triple.ret fun u hu => hskip hforce hnot u hu.1
              case isFalse hrun =>
                have henter : Enters flags f.hdr := by
                  rw [Enters, if_neg huse]
                  by_contra h
                  exact hrun ⟨huse, h⟩
                rw [if_neg fun h => huse h.1]
                exact hindex henter hbuffer

end Around

end Ploop.Check
