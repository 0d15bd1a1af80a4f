import Ploop.Image.SparseRun
import Ploop.Image.Blank

/-!
# When sparse repair works

The reverse map has one place for each cluster of the disk, and is asked about blocks of the
file; the number of blocks to look for is a number of bytes of the table.
-/

namespace Ploop.Check

open Storage Program

/-- What FIEMAP promises. -/
structure Reported (E : List Extent) (f : File) : Prop where
  order : E.Pairwise Before
  pos : ∀ e ∈ E, 0 < e.length
  zero : ∀ i < f.size, Unwritten E i → f.byte i = 0

/-- The table names block `b`. -/
def Referenced (f : File) (b : ℕ) : Prop := ∃ clu, f.hdr.layout.bat f clu = some b

/-- The pieces of all holes. -/
def pieces (f : File) (E : List Extent) : List (ℕ × ℕ) :=
  piecesAfter f.hdr.layout.cluster f.size E 0

/-- The repair did what it is for. -/
structure SparseRepaired (f : File) (E : List Extent) (o : Outcome) : Prop where
  ret : o.ret = none
  inside : ∀ id ∈ o.lookups, id < f.hdr.layout.l2Size
  filled : ∀ i < f.size, Hole E i →
    i < f.hdr.layout.l1Size * f.hdr.layout.cluster ∨ Referenced f (i / f.hdr.layout.cluster) →
    ∃ w ∈ o.writes, w.off ≤ i ∧ i < w.off + w.len ∧ w.src (i - w.off) = 0
  quiet : ∀ w ∈ o.writes, ∀ j < w.len, w.off + j < f.size → w.src j = f.byte (w.off + j)
  bytes : ∀ i < f.size, o.file.byte i = f.byte i

/-- What the pieces ask of the map and of the buffer of zeros. -/
structure Fillable (f : File) (E : List Extent) : Prop where
  builds : MapBuilds f
  reached : Reached f (pieces f E)
  zeros : ∀ p ∈ pieces f E, ¬ PassedOver f p → ∀ j < p.2, p.1 + j < f.size → j < 0x100000
  known : ∀ i < f.size, Hole E i → Referenced f (i / f.hdr.layout.cluster) →
    Mapped f (i / f.hdr.layout.cluster) ∨ ∃ p ∈ pieces f E,
      p.1 = f.hdr.layout.l1Size * f.hdr.layout.cluster ∧ p.1 ≤ i ∧ i < p.1 + p.2

section Repair

variable {c : SparseCalls} {f : File} {E : List Extent}

theorem foldr_pwrite_same {ws : List Write} (h : ∀ w ∈ ws, ∀ j < w.len, w.off + j < f.size →
    w.src j = f.byte (w.off + j)) {i : ℕ} (hi : i < f.size) :
    (ws.foldr (fun w g => g.pwrite w) f).byte i = f.byte i := by
  induction ws with
  | nil => rfl
  | cons w ws ih =>
      have hrest := ih fun w' hw' => h w' (List.mem_cons_of_mem _ hw')
      rw [List.foldr_cons, File.byte_pwrite]
      by_cases hin : w.off ≤ i ∧ i < w.off + w.len
      · have hsame := h w List.mem_cons_self (i - w.off) (by omega) (by omega)
        rw [overlay_of_mem hin.1 hin.2, hsame, Nat.add_sub_cancel' hin.1]
      · rw [overlay_of_not_mem (by omega)]
        exact hrest

theorem Referenced.lt {b : ℕ} (hL : f.hdr.layout.Valid) (h : Referenced f b) : b < 2 ^ 32 := by
  obtain ⟨clu, hb⟩ := h
  unfold Layout.bat at hb
  split at hb
  case isFalse => cases hb
  case isTrue =>
    obtain rfl := Option.some.inj hb
    have hlt := (Layout.entry f clu).toNat_lt
    have hbs : 0 < f.hdr.layout.blocksize := (by decide : 0 < 64).trans_le hL.blocksize.1
    unfold ioffToSec
    split
    · exact (Nat.div_le_self _ _).trans_lt hlt
    · rwa [Nat.mul_div_cancel _ hbs]

variable (hwf : WellFormed f)
  (hindex : f.hdr.layout.l1Size * f.hdr.layout.cluster ≤ f.size) (hE : Reported E f)

include hwf hindex

theorem index_pos : 4096 ≤ f.size := by
  have hroom := hwf.header.layout.room
  have hmin := hwf.header.layout.blocksize.1
  have hl1 : 1 ≤ f.hdr.layout.l1Size := by
    by_contra hzero
    rw [Nat.lt_one_iff.mp (Nat.not_le.mp hzero), Nat.zero_mul] at hroom
    exact absurd hroom (by simp [mapOffset])
  have hcluster : 4096 ≤ f.hdr.layout.cluster := by
    simp only [Layout.cluster, s2b]
    omega
  exact hcluster.trans ((Nat.le_mul_of_pos_left _ hl1).trans hindex)

include hE

/-- All pieces are dealt with, or the map cannot be built. -/
theorem checkAndRepairSparse_spec (hc : Ready c) (hext : c.extents = E) :
    (∃ s, Filled c f (pieces f E) s ∧
      checkAndRepairSparse c true f = ⟨none, s.file, s.lookups, s.writes⟩) ∨
    (checkAndRepairSparse c true f).ret ≠ none ∧ ¬ MapBuilds f ∧ pieces f E ≠ [] := by
  have hopen : ∃ d, openDelta f true = some d :=
    exists_openDelta hwf.header (index_pos hwf hindex) fun _ => rfl
  obtain ⟨d, hd⟩ := hopen
  have hat := openDelta_spec hd
  have hstart : Filled c f [] ⟨f, d, none, false, [], []⟩ := by
    constructor
    · exact hat.cached
    · exact fun _ => hat.opened.l2Size
    · exact fun m hm => absurd hm (Option.some_ne_none m).symm
    · exact fun h => absurd rfl h
    · exact fun id => ⟨fun h => absurd h List.not_mem_nil,
        fun ⟨_, hp, _⟩ => absurd hp List.not_mem_nil⟩
    · exact fun _ w => ⟨fun h => absurd h List.not_mem_nil,
        fun ⟨_, hp, _⟩ => absurd hp List.not_mem_nil⟩
    · rfl
  subst hext
  have hrun := @repairSparse_spec c f _ f.size hc hwf.header.layout hindex hstart hE.order
    hE.pos _ rfl
  unfold checkAndRepairSparse
  rw [if_neg (not_not.mpr hc.ext4), hd]
  dsimp only
  cases hres : repairSparse c true f.size ⟨f, d, none, false, [], []⟩ with
  | ok a s =>
      rw [hres] at hrun
      exact .inl ⟨s, hrun, rfl⟩
  | error e s =>
      rw [hres] at hrun
      exact .inr ⟨Option.some_ne_none e, hrun⟩

omit hwf hindex in
theorem pieces_of (hL : f.hdr.layout.Valid) {p : ℕ × ℕ} (hp : p ∈ pieces f E) :
    PieceOf f.hdr.layout.cluster E 0 p :=
  mem_piecesAfter hL.cluster_pos hE.order (fun _ _ => Nat.zero_le _) hp

omit hindex in
/-- A block in use that a piece not passed over starts in. -/
theorem mapped_or_first {p : ℕ × ℕ} {i : ℕ} (hp : p ∈ pieces f E) (hle : p.1 ≤ i)
    (hlt : i < p.1 + p.2) (hused : Referenced f (i / f.hdr.layout.cluster))
    (hwritten : ¬ PassedOver f p) : Mapped f (i / f.hdr.layout.cluster) ∨
      p.1 = f.hdr.layout.l1Size * f.hdr.layout.cluster := by
  have hL := hwf.header.layout
  have hsame := (pieces_of hE hL hp).sameCluster i hle hlt
  by_cases hdata : f.hdr.layout.l1Size * f.hdr.layout.cluster < p.1
  · left
    have hmap := not_not.mp fun h => hwritten ⟨hdata, h⟩
    rwa [← hsame, u32_of_lt (hused.lt hL)] at hmap
  · right
    obtain ⟨clu, hclu⟩ := hused
    have hge := (hwf.table.inData clu _ hclu).1
    rw [hsame, Nat.le_div_iff_mul_le hL.cluster_pos] at hge
    exact le_antisymm (Nat.not_lt.mp hdata) hge

/-- What was written where the pieces are in order. -/
theorem Fillable.repaired (h : pieces f E = [] ∨ Fillable f E) (hc : Ready c)
    (hext : c.extents = E) : SparseRepaired f E (checkAndRepairSparse c true f) := by
  have hL := hwf.header.layout
  rcases checkAndRepairSparse_spec hwf hindex hE hc hext with ⟨s, hs, hout⟩ | ⟨-, hno, hne⟩
  case inr => exact absurd (h.resolve_left hne).builds hno
  have hreach : Reached f (pieces f E) := by
    rcases h with hnil | hfill
    · rw [hnil]
      exact fun p hp => absurd hp List.not_mem_nil
    · exact hfill.reached
  have hwrites := hs.writes hreach
  have hquiet : ∀ w ∈ s.writes, ∀ j < w.len, w.off + j < f.size →
      w.src j = 0 ∧ f.byte (w.off + j) = 0 := by
    intro w hw j hj hsize
    obtain ⟨p, hp, hpass, rfl⟩ := (hwrites w).mp hw
    have hfill := h.resolve_left (List.ne_nil_of_mem hp)
    constructor
    · exact if_pos (hfill.zeros p hp hpass j hj hsize)
    · exact hE.zero _ hsize ((pieces_of hE hL hp).unwritten _ (Nat.le_add_right _ _)
        (Nat.add_lt_add_left hj _))
  have hsame : ∀ w ∈ s.writes, ∀ j < w.len, w.off + j < f.size → w.src j = f.byte (w.off + j) :=
    fun w hw j hj hsize => (hquiet w hw j hj hsize).1.trans (hquiet w hw j hj hsize).2.symm
  rw [hout]
  constructor
  · rfl
  · intro id hid
    obtain ⟨p, hp, hdata, rfl⟩ := (hs.lookups id).mp hid
    exact hreach p hp hdata
  · intro i hi hhole huse
    obtain ⟨q, hq, hcover⟩ := exists_mem_piecesAfter hL.cluster_pos (Nat.zero_le i) hi hhole
    have hfill := h.resolve_left (List.ne_nil_of_mem hq)
    have hwritten : ∃ p ∈ pieces f E, (p.1 ≤ i ∧ i < p.1 + p.2) ∧ ¬ PassedOver f p := by
      rcases huse with hlt | hused
      · exact ⟨q, hq, hcover, fun hpass => absurd (hpass.1.trans_le hcover.1) hlt.not_gt⟩
      · rcases hfill.known i hi hhole hused with hmap | ⟨p, hp, hstart, hle, hlt⟩
        · refine ⟨q, hq, hcover, fun hpass => hpass.2 ?_⟩
          rwa [← (pieces_of hE hL hq).sameCluster i hcover.1 hcover.2,
            u32_of_lt (hused.lt hL)]
        · exact ⟨p, hp, ⟨hle, hlt⟩, fun hpass => absurd hstart.symm hpass.1.ne⟩
    obtain ⟨p, hp, ⟨hle, hlt⟩, hpass⟩ := hwritten
    refine ⟨pieceWrite c p, (hwrites _).mpr ⟨p, hp, hpass, rfl⟩, hle, hlt, ?_⟩
    refine (hquiet _ ((hwrites _).mpr ⟨p, hp, hpass, rfl⟩) (i - p.1) ?_ ?_).1
    · exact Nat.sub_lt_left_of_lt_add hle hlt
    · exact (Nat.add_sub_cancel' hle).trans_lt hi
  · exact hsame
  · intro i hi
    dsimp only
    rw [hs.file]
    exact foldr_pwrite_same hsame hi

/-- What lies behind the buffer of zeros is not zero. -/
def onesBeyond (E : List Extent) : SparseCalls :=
  ⟨true, true, true, none, E, fun _ => 1, fun _ => 0⟩

theorem fillable_of_repaired (hne : pieces f E ≠ [])
    (h : SparseRepaired f E (checkAndRepairSparse (onesBeyond E) true f)) : Fillable f E := by
  have hL := hwf.header.layout
  have hc : Ready (onesBeyond E) := ⟨rfl, rfl, rfl, rfl⟩
  rcases checkAndRepairSparse_spec hwf hindex hE hc rfl with ⟨s, hs, hout⟩ | ⟨herr, -, -⟩
  case inr => exact absurd h.ret herr
  rw [hout] at h
  have hreach : Reached f (pieces f E) := fun p hp hdata =>
    h.inside _ ((hs.lookups _).mpr ⟨p, hp, hdata, rfl⟩)
  have hwrites := hs.writes hreach
  constructor
  · obtain ⟨m, hm⟩ := Option.isSome_iff_exists.mp (hs.built hne)
    exact (hs.rmap m hm).2
  · exact hreach
  · intro p hp hpass j hj hsize
    have hquiet := h.quiet _ ((hwrites _).mpr ⟨p, hp, hpass, rfl⟩) j hj hsize
    have hzero : f.byte (p.1 + j) = 0 := hE.zero _ hsize
      ((pieces_of hE hL hp).unwritten _ (Nat.le_add_right _ _) (Nat.add_lt_add_left hj _))
    by_contra hbig
    have hone : (pieceWrite (onesBeyond E) p).src j = 1 := if_neg hbig
    exact absurd (hone.symm.trans (hquiet.trans hzero)) (by decide)
  · intro i hi hhole hused
    obtain ⟨w, hw, hle, hlt, -⟩ := h.filled i hi hhole (.inr hused)
    obtain ⟨p, hp, hpass, rfl⟩ := (hwrites w).mp hw
    rcases mapped_or_first hwf hE hp hle hlt hused hpass with hmap | hfirst
    · exact .inl hmap
    · exact .inr ⟨p, hp, hfirst, hle, hlt⟩

/-- Sparse repair works if the map has a place for every block it is asked about and for
every block in use, and no piece is larger than the buffer of zeros. -/
theorem sparseRepaired_iff :
    (∀ c, Ready c → c.extents = E → SparseRepaired f E (checkAndRepairSparse c true f)) ↔
      pieces f E = [] ∨ Fillable f E := by
  constructor
  · intro h
    by_cases hnil : pieces f E = []
    · exact .inl hnil
    · exact .inr (fillable_of_repaired hwf hindex hE hnil
        (h (onesBeyond E) ⟨rfl, rfl, rfl, rfl⟩ rfl))
  · exact fun h _ hc hext => Fillable.repaired hwf hindex hE h hc hext

end Repair

/-! ## Two blocks in a hole -/

/-- All but the first 64 sectors is a hole. -/
def dataHole : List Extent := [⟨0, 32768, false, true⟩]

theorem dataHole_reported {f : File} (h : ∀ i, 32768 ≤ i → f.byte i = 0) : Reported dataHole f := by
  constructor
  · exact List.pairwise_singleton _ _
  · intro e he
    rw [List.mem_singleton.mp he]
    decide
  · intro i _ hun
    have hnot := hun _ (List.mem_singleton_self _) rfl
    exact h i (Nat.not_lt.mp fun hlt => hnot ⟨Nat.zero_le _, hlt⟩)

theorem crossedImage_layout : (crossedImage .v2).hdr.layout = ⟨.v2, 64, 1, 2048⟩ := by
  rw [crossedImage_hdr]
  rfl

theorem crossedImage_pieces :
    pieces (crossedImage .v2) dataHole = [(32768, 32768), (65536, 32768)] := by
  rw [pieces, crossedImage_layout]
  decide

theorem crossedImage_ridx {k : ℕ} (hk : k < 2048) :
    ridx (crossedImage .v2) k = (crossed k).getD 0 := by
  have hentry := crossedImage_entry .v2 (k := k) (by omega)
  rw [Layout.entry] at hentry
  rw [ridx, u32_of_lt (by simp only [mapOffset]; omega), hentry, crossedImage_layout]
  unfold crossed
  split
  case isTrue => decide
  case isFalse =>
    split
    case isTrue => decide
    case isFalse => decide

theorem crossedImage_seen {k : ℕ} (hk : k < 2048) : Seen (crossedImage .v2) k := by
  have hle := foundBefore_le (crossedImage .v2) k
  refine ⟨by rwa [crossedImage_layout], ?_⟩
  rw [iblkEnd, crossedImage_layout]
  change _ < 8192
  omega

theorem crossedImage_fillable : Fillable (crossedImage .v2) dataHole where
  builds := by
    refine ⟨?_, ?_, fun k hk => ?_⟩
    · rw [iblkEnd, crossedImage_layout]
      decide
    · rw [crossedImage_layout]
      decide
    · have hlt := hk.1
      rw [crossedImage_layout] at hlt
      rw [InReach, crossedImage_ridx hlt, crossedImage_layout]
      cases h : crossed k with
      | none => decide
      | some b => rcases crossed_eq_some h with ⟨-, rfl⟩ | ⟨-, rfl⟩ <;> decide
  reached := by
    rw [crossedImage_pieces, Reached, crossedImage_layout]
    decide
  zeros p hp _ j hj _ := by
    rw [crossedImage_pieces] at hp
    have hlen : ∀ q ∈ [(32768, 32768), (65536, 32768)], q.2 = 32768 := by decide
    have := hlen p hp
    omega
  known i _ _ hused := by
    obtain ⟨clu, hbat⟩ := hused
    rw [crossedImage_layout] at hbat ⊢
    have hclu : crossed clu = some (i / 32768) := by
      rw [← (crossedImage_spec .v2).2]
      exact hbat
    have hlt : clu < 2048 ∧ 1 ≤ i / 32768 ∧ i / 32768 < 8192 := by
      rcases crossed_eq_some hclu with ⟨rfl, hb⟩ | ⟨rfl, hb⟩ <;> omega
    refine .inl ⟨clu, crossedImage_seen hlt.1, ?_, ?_⟩
    · rw [crossedImage_ridx hlt.1, hclu]
      rfl
    · rw [Wanted, iblkEnd, crossedImage_layout]
      exact hlt.2

/-- Both blocks are filled. -/
theorem sparseRepaired_iff_crossed :
    pieces (crossedImage .v2) dataHole = [(32768, 32768), (65536, 32768)] ∧
    ∀ c, Ready c → c.extents = dataHole →
      SparseRepaired (crossedImage .v2) dataHole
        (checkAndRepairSparse c true (crossedImage .v2)) := by
  refine ⟨crossedImage_pieces, (sparseRepaired_iff (crossedImage_wellFormed .v2) ?_ ?_).mpr
    (.inr crossedImage_fillable)⟩
  · rw [crossedImage_layout]
    decide
  · have hwords : 4 * ((crossedHeader .v2).layout.l1Size * (crossedHeader .v2).layout.slots) =
        32768 := by
      decide
    exact dataHole_reported fun i hi => tabled_byte (hwords ▸ hi)

/-! ## A full disk -/

def fullHeader : PvdHeader := (generatePvdHeader PvdHeader.zero 64 64 .v2).1

/-- A version 2 image of one cluster, which is in block 1. -/
def fullDisk : File where
  size := 2 * 32768
  byte := fun i =>
    if i < 64 then wordBytes fullHeader.toWords i
    else if i = 64 then 1 else 0
  eof := by
    intro i hi
    rw [if_neg (by omega), if_neg (by omega)]

theorem fullDisk_hdr : fullDisk.hdr = fullHeader := by
  rw [← PvdHeader.ofWords_toWords fullHeader]
  apply PvdHeader.ofWords_congr
  intro i hi
  rw [← bytesWord_wordBytes fullHeader.toWords]
  exact bytesWord_congr fun j hj => if_pos (by omega)

theorem fullDisk_layout : fullDisk.hdr.layout = ⟨.v2, 64, 1, 1⟩ := by
  rw [fullDisk_hdr]
  rfl

theorem fullDisk_entry (s : ℕ) : Layout.entry fullDisk s = if s = 0 then 1 else 0 := by
  have hbyte : ∀ k, fullDisk.byte (4 * (s + 16) + k) = if 4 * (s + 16) + k = 64 then 1 else 0 := by
    intro k
    exact if_neg (by omega)
  have hfirst := hbyte 0
  rw [Nat.add_zero] at hfirst
  unfold Layout.entry File.word bytesWord mapOffset
  rw [hfirst, hbyte 1, hbyte 2, hbyte 3]
  by_cases hs : s = 0
  · subst hs
    rfl
  · rw [if_neg hs, if_neg (by omega), if_neg (by omega), if_neg (by omega), if_neg (by omega)]
    rfl

theorem fullDisk_wellFormed : WellFormed fullDisk := by
  have hslot : ∀ clu b, fullDisk.hdr.layout.bat fullDisk clu = some b → clu = 0 ∧ b = 1 := by
    intro clu b hb
    have hlt := Layout.bat_lt hb
    rw [fullDisk_layout] at hlt hb
    obtain rfl := Nat.lt_one_iff.mp hlt
    rw [Layout.bat, fullDisk_entry] at hb
    exact ⟨rfl, (Option.some.inj hb).symm⟩
  constructor
  · rw [fullDisk_hdr]
    exact ⟨by decide, by decide, by decide, by decide, by decide⟩
  · constructor
    · intro clu _
      rw [fullDisk_layout]
      exact Nat.dvd_mul_left _ _
    · intro clu b hb
      obtain ⟨-, rfl⟩ := hslot clu b hb
      rw [fullDisk_layout]
      decide
    · intro k k' i hk hk'
      rw [(hslot k i hk).1, (hslot k' i hk').1]
    · intro s hs _
      rw [fullDisk_layout] at hs
      rw [fullDisk_entry, if_neg (Nat.one_le_iff_ne_zero.mp hs)]

theorem fullDisk_index_le :
    fullDisk.hdr.layout.l1Size * fullDisk.hdr.layout.cluster ≤ fullDisk.size := by
  rw [fullDisk_layout]
  decide

theorem fullDisk_reported : Reported dataHole fullDisk :=
  dataHole_reported fun i hi => (if_neg (by omega)).trans (if_neg (by omega))

/-- The map has one place, for block 0. -/
theorem fullDisk_not_mapBuilds : ¬ MapBuilds fullDisk := by
  intro h
  have hseen : Seen fullDisk 0 := by
    rw [Seen, foundBefore, iblkEnd, fullDisk_layout]
    decide
  have hlt := (h.blocks 0 hseen).1
  have hridx : ridx fullDisk 0 = 1 := by
    have hword : fullDisk.word (u32 (0 + mapOffset)) = 1 := fullDisk_entry 0
    rw [ridx, hword, fullDisk_layout]
    decide
  rw [hridx, fullDisk_layout] at hlt
  exact absurd hlt (lt_irrefl 1)

/-- A full image is refused. -/
theorem checkAndRepairSparse_refuses : ¬ ∀ (c : SparseCalls) (f : File) (E : List Extent),
    WellFormed f → f.hdr.layout.l1Size * f.hdr.layout.cluster ≤ f.size → Reported E f → Ready c →
    c.extents = E → SparseRepaired f E (checkAndRepairSparse c true f) := by
  intro hall
  have hc : Ready (onesBeyond dataHole) := ⟨rfl, rfl, rfl, rfl⟩
  have hne : pieces fullDisk dataHole ≠ [] := by
    rw [pieces, fullDisk_layout]
    decide
  have hok := hall _ _ _ fullDisk_wellFormed fullDisk_index_le fullDisk_reported hc rfl
  exact fullDisk_not_mapBuilds (fillable_of_repaired fullDisk_wellFormed fullDisk_index_le
    fullDisk_reported hne hok).builds

end Ploop.Check
