import Ploop.Image.SparseMap

/-!
# What `fill_hole` writes

The holes are cut at the boundaries of the clusters. Of every piece behind the start of the data
the map is asked, and the pieces that it does not pass over are written.
-/

namespace Ploop.Check

open Storage Program

/-- The pieces of a hole from `offset` on, in at most `n` turns. -/
def piecesFrom (cluster stop : ℕ) : ℕ → ℕ → List (ℕ × ℕ)
  | 0, _ => []
  | n + 1, offset =>
      if stop ≤ offset then []
      else
        let len := min ((offset + cluster) / cluster * cluster - offset) (stop - offset)
        (offset, len) :: piecesFrom cluster stop n (offset + len)

def cutHole (cluster start stop : ℕ) : List (ℕ × ℕ) := piecesFrom cluster stop (stop - start) start

section Pieces

variable {cluster start stop n i : ℕ} {p : ℕ × ℕ}

/-- A piece lies in the hole and in one cluster. -/
structure IsPiece (cluster start stop : ℕ) (p : ℕ × ℕ) : Prop where
  start_le : start ≤ p.1
  pos : 0 < p.2
  end_le : p.1 + p.2 ≤ stop
  sameCluster : ∀ i, p.1 ≤ i → i < p.1 + p.2 → i / cluster = p.1 / cluster

/-- Where the cluster of an offset ends. -/
theorem clusterEnd (hpos : 0 < cluster) :
    (start + cluster) / cluster * cluster = start / cluster * cluster + cluster ∧
      start < start / cluster * cluster + cluster := by
  rw [Nat.add_div_right _ hpos, Nat.succ_mul]
  have hdiv := Nat.div_add_mod' start cluster
  have hmod := Nat.mod_lt start hpos
  omega

/-- The first piece of a hole. -/
theorem firstPiece (hpos : 0 < cluster) (hlt : start < stop) : IsPiece cluster start stop
    (start, min ((start + cluster) / cluster * cluster - start) (stop - start)) := by
  obtain ⟨heq, hend⟩ := @clusterEnd cluster start hpos
  rw [heq]
  constructor
  · exact le_rfl
  · simp only
    omega
  · simp only
    omega
  · intro i hi hi'
    simp only at hi hi' ⊢
    have hle := Nat.div_mul_le_self start cluster
    apply Nat.div_eq_of_lt_le
    · omega
    · rw [Nat.succ_mul]
      omega

theorem mem_piecesFrom (hpos : 0 < cluster) (h : p ∈ piecesFrom cluster stop n start) :
    IsPiece cluster start stop p := by
  induction n generalizing start with
  | zero => exact absurd h List.not_mem_nil
  | succ n ih =>
      unfold piecesFrom at h
      split at h
      case isTrue => exact absurd h List.not_mem_nil
      case isFalse hlt =>
        rcases List.mem_cons.mp h with rfl | hrest
        · exact firstPiece hpos (Nat.not_le.mp hlt)
        · have hp := ih hrest
          exact ⟨(Nat.le_add_right _ _).trans hp.start_le, hp.pos, hp.end_le, hp.sameCluster⟩

/-- The pieces cover the hole. -/
theorem exists_mem_piecesFrom (hpos : 0 < cluster) (hn : stop - start ≤ n) (hi : start ≤ i)
    (hlt : i < stop) : ∃ p ∈ piecesFrom cluster stop n start, p.1 ≤ i ∧ i < p.1 + p.2 := by
  induction n generalizing start with
  | zero => omega
  | succ n ih =>
      have hstart : start < stop := hi.trans_lt hlt
      have hfirst := firstPiece hpos hstart
      unfold piecesFrom
      rw [if_neg (Nat.not_le.mpr hstart)]
      generalize min ((start + cluster) / cluster * cluster - start) (stop - start) = len at *
      have hlen : 0 < len := hfirst.pos
      by_cases hin : i < start + len
      · exact ⟨_, List.mem_cons_self, hi, hin⟩
      · have hrest : stop - (start + len) ≤ n := by omega
        obtain ⟨p, hp, hcover⟩ := ih hrest (Nat.not_lt.mp hin)
        exact ⟨p, List.mem_cons_of_mem _ hp, hcover⟩

end Pieces

/-! ## One hole -/

/-- The calls that filling needs. -/
structure Ready (c : SparseCalls) : Prop where
  ext4 : c.ext4 = true
  discard : c.discard = true
  memory : c.memory = true
  reopen : c.reopen = none

/-- The map passes over a piece. -/
def PassedOver (f : File) (p : ℕ × ℕ) : Prop :=
  f.hdr.layout.l1Size * f.hdr.layout.cluster < p.1 ∧
    ¬ Mapped f (u32 (p.1 / f.hdr.layout.cluster))

/-- The write of a piece. -/
def pieceWrite (c : SparseCalls) (p : ℕ × ℕ) : Write :=
  ⟨p.1, p.2, fun j => if j < 0x100000 then 0 else c.beyond j⟩

/-- The pieces of which the map is asked are in its reach. -/
def Reached (f : File) (ps : List (ℕ × ℕ)) : Prop :=
  ∀ p ∈ ps, f.hdr.layout.l1Size * f.hdr.layout.cluster < p.1 →
    u32 (p.1 / f.hdr.layout.cluster) < f.hdr.layout.l2Size

/-- The state when the pieces `ps` have been dealt with. -/
structure Filled (c : SparseCalls) (f : File) (ps : List (ℕ × ℕ)) (s : Sparse) : Prop where
  delta : Cached f f.hdr.layout s.delta
  size : s.rmap = none → s.delta.l2Size = f.hdr.layout.l2Size
  rmap : ∀ m, s.rmap = some m → MapFor f m ∧ MapBuilds f
  built : ps ≠ [] → s.rmap.isSome
  lookups : ∀ id, id ∈ s.lookups ↔ ∃ p ∈ ps,
    f.hdr.layout.l1Size * f.hdr.layout.cluster < p.1 ∧ id = u32 (p.1 / f.hdr.layout.cluster)
  writes : Reached f ps → ∀ w, w ∈ s.writes ↔ ∃ p ∈ ps, ¬ PassedOver f p ∧ w = pieceWrite c p
  file : s.file = s.writes.foldr (fun w g => g.pwrite w) f

section Fill

variable {c : SparseCalls} {f : File} {ps : List (ℕ × ℕ)} {s : Sparse} (hc : Ready c)
  (hL : f.hdr.layout.Valid) (hindex : f.hdr.layout.l1Size * f.hdr.layout.cluster ≤ f.size)

include hc hL hindex

theorem needRmap_spec (hs : Filled c f ps s) : Triple (fun t => t = s) (needRmap c)
    (fun _ t => Filled c f ps t ∧ t.rmap.isSome) (fun _ => ¬ MapBuilds f) := by
  apply Triple.look
  rintro s rfl
  split
  case isTrue hsome =>
    apply Triple.ret
    rintro t rfl
    exact ⟨hs, hsome⟩
  case isFalse hnone =>
    have hrmap : s.rmap = none := Option.not_isSome_iff_eq_none.mp hnone
    rw [if_neg (not_not.mpr hc.memory), hs.size hrmap]
    apply Triple.bind (R := fun m t => MapFor f m ∧ MapBuilds f ∧ Cached f f.hdr.layout t.delta ∧
      t = { s with delta := t.delta })
    · intro t ht
      subst ht
      have hbuild := rangeBuildRmap_spec hL hindex c.stray t.delta ⟨hs.delta, hs.size hrmap⟩
      unfold onDelta
      cases hrun : rangeBuildRmap 1 (u32 (f.hdr.layout.l2Size * 4)) f.hdr.layout.l2Size c.stray
          t.delta with
      | ok m d =>
          rw [iblkEnd, hrun] at hbuild
          exact ⟨hbuild.2.1, hbuild.2.2, hbuild.1, rfl⟩
      | error e d =>
          rw [iblkEnd, hrun] at hbuild
          exact hbuild
    · intro m
      apply Triple.update
      rintro t ⟨hm, hb, hd, ht⟩
      rw [ht]
      refine ⟨⟨hd, ?_, ?_, ?_, hs.lookups, hs.writes, hs.file⟩, rfl⟩
      · exact fun h => absurd h (Option.some_ne_none m)
      · intro m' hm'
        obtain rfl := Option.some.inj hm'
        exact ⟨hm, hb⟩
      · exact fun _ => rfl

def askedLookups (f : File) (offset : ℕ) (lookups : List ℕ) : List ℕ :=
  if f.hdr.layout.l1Size * f.hdr.layout.cluster < offset then
    u32 (offset / f.hdr.layout.cluster) :: lookups
  else lookups

/-- The state once the map has been asked about a piece at `offset`. -/
structure Asked (c : SparseCalls) (f : File) (ps : List (ℕ × ℕ)) (offset : ℕ) (skip : Bool)
    (s : Sparse) : Prop where
  state : ∃ t m, Filled c f ps t ∧ t.rmap = some m ∧
    (skip = true ↔ f.hdr.layout.l1Size * f.hdr.layout.cluster < offset ∧
      m (u32 (offset / f.hdr.layout.cluster)) = zeroIndexMark) ∧
    s = { t with lookups := askedLookups f offset t.lookups }

theorem skipPiece_spec (hs : Filled c f ps s) (offset : ℕ) : Triple (fun t => t = s)
    (skipPiece c offset) (Asked c f ps offset) (fun _ => ¬ MapBuilds f) := by
  unfold skipPiece
  rw [if_pos hc.discard]
  apply Triple.bind (needRmap_spec hc hL hindex hs)
  intro _
  apply Triple.look
  rintro t ⟨ht, hsome⟩
  obtain ⟨m, hm⟩ := Option.isSome_iff_exists.mp hsome
  dsimp only
  rw [ht.delta.l1Size, ht.delta.cluster]
  split
  case isFalse hindexed =>
    apply Triple.ret
    rintro u rfl
    refine ⟨u, m, ht, hm, ⟨fun h => absurd h Bool.false_ne_true, fun h => absurd h.1 hindexed⟩, ?_⟩
    rw [askedLookups, if_neg hindexed]
  case isTrue hdata =>
    apply Triple.bind (R := fun v u => v = m (u32 (offset / f.hdr.layout.cluster)) ∧
      u = { t with lookups := u32 (offset / f.hdr.layout.cluster) :: t.lookups })
    · apply Triple.step
      apply Triple.look
      rintro u rfl
      apply Triple.ret
      rintro v rfl
      dsimp only
      rw [hm]
      exact ⟨rfl, rfl⟩
    · intro v
      apply Triple.ret
      rintro u ⟨rfl, rfl⟩
      refine ⟨t, m, ht, hm, ?_, ?_⟩
      · rw [decide_eq_true_eq]
        exact ⟨fun h => ⟨hdata, h⟩, fun h => h.2⟩
      · rw [askedLookups, if_pos hdata]

omit hc hL hindex in
theorem Asked.lookups {skip : Bool} {t : Sparse} {offset len id : ℕ}
    (h : Asked c f ps offset skip t) : id ∈ t.lookups ↔ ∃ p ∈ ps ++ [(offset, len)],
      f.hdr.layout.l1Size * f.hdr.layout.cluster < p.1 ∧
        id = u32 (p.1 / f.hdr.layout.cluster) := by
  obtain ⟨u, m, hu, -, -, rfl⟩ := h.state
  have hsplit : (∃ p ∈ ps ++ [(offset, len)],
      f.hdr.layout.l1Size * f.hdr.layout.cluster < p.1 ∧ id = u32 (p.1 / f.hdr.layout.cluster)) ↔
      id ∈ u.lookups ∨ f.hdr.layout.l1Size * f.hdr.layout.cluster < offset ∧
        id = u32 (offset / f.hdr.layout.cluster) := by
    rw [hu.lookups]
    simp only [List.mem_append, List.mem_singleton, or_and_right, exists_or, exists_eq_left]
  rw [hsplit]
  unfold askedLookups
  split
  case isTrue hdata =>
    rw [List.mem_cons, or_comm]
    exact or_congr_right ⟨fun h => ⟨hdata, h⟩, fun h => h.2⟩
  case isFalse hindexed => exact ⟨.inl, fun h => h.resolve_right fun h' => hindexed h'.1⟩

theorem fillPiece_spec (hs : Filled c f ps s) (offset len : ℕ) : Triple (fun t => t = s)
    (fillPiece c offset len) (fun _ => Filled c f (ps ++ [(offset, len)]))
    (fun _ => ¬ MapBuilds f) := by
  apply Triple.bind (skipPiece_spec hc hL hindex hs offset)
  intro skip
  apply Triple.start
  intro t ht
  obtain ⟨u, m, hu, hm, hskip, htu⟩ := id ht.state
  have hrmap : t.rmap = some m := by
    rw [htu]
    exact hm
  have hmem : ∀ w, (∃ p ∈ ps ++ [(offset, len)], ¬ PassedOver f p ∧ w = pieceWrite c p) ↔
      (∃ p ∈ ps, ¬ PassedOver f p ∧ w = pieceWrite c p) ∨
        ¬ PassedOver f (offset, len) ∧ w = pieceWrite c (offset, len) := by
    intro w
    simp only [List.mem_append, List.mem_singleton, or_and_right, exists_or, exists_eq_left]
  have hreach : Reached f (ps ++ [(offset, len)]) →
      Reached f ps ∧ (PassedOver f (offset, len) ↔ skip = true) := by
    intro h
    refine ⟨fun p hp => h p (List.mem_append_left _ hp), ?_⟩
    rw [hskip, PassedOver]
    apply and_congr_right
    intro hdata
    have hin := h (offset, len) (List.mem_append_right _ (List.mem_singleton.mpr rfl)) hdata
    rw [← (hu.rmap m hm).1 _ hin, not_not]
  have hwrites : t.writes = u.writes := by rw [htu]
  have hfile : t.file = u.file := by rw [htu]
  have hdelta : t.delta = u.delta := by rw [htu]
  split
  case isTrue htrue =>
    apply Triple.ret
    rintro v rfl
    refine ⟨hdelta ▸ hu.delta, ?_, ?_, ?_, fun id => ht.lookups, ?_, ?_⟩
    · exact fun h => absurd (hrmap.symm.trans h) (Option.some_ne_none m)
    · exact fun m' hm' => hu.rmap m' (hm.trans (hrmap.symm.trans hm'))
    · exact fun _ => hrmap ▸ rfl
    · intro h w
      obtain ⟨hold, hpass⟩ := hreach h
      rw [hmem, hwrites, hu.writes hold]
      exact ⟨.inl, fun hor => hor.resolve_right fun hnew => hnew.1 (hpass.mpr htrue)⟩
    · rw [hfile, hwrites]
      exact hu.file
  case isFalse hfalse =>
    apply Triple.update
    rintro v rfl
    refine ⟨hdelta ▸ hu.delta, ?_, ?_, ?_, fun id => ht.lookups, ?_, ?_⟩
    · exact fun h => absurd (hrmap.symm.trans h) (Option.some_ne_none m)
    · exact fun m' hm' => hu.rmap m' (hm.trans (hrmap.symm.trans hm'))
    · exact fun _ => hrmap ▸ rfl
    · intro h w
      obtain ⟨hold, hpass⟩ := hreach h
      have hno : ¬ PassedOver f (offset, len) := fun hp => hfalse (hpass.mp hp)
      rw [hmem, ← hu.writes hold, ← hwrites]
      change w ∈ pieceWrite c (offset, len) :: v.writes ↔ _
      rw [List.mem_cons, or_comm]
      exact or_congr_right ⟨fun h => ⟨hno, h⟩, fun h => h.2⟩
    · change v.file.pwrite (pieceWrite c (offset, len)) =
        (pieceWrite c (offset, len) :: v.writes).foldr (fun w g => g.pwrite w) f
      rw [List.foldr_cons, hfile, hwrites, hu.file]

theorem fillPieces_spec (hs : Filled c f ps s) (stop n offset : ℕ) : Triple (fun t => t = s)
    (fillPieces c stop n offset)
    (fun _ => Filled c f (ps ++ piecesFrom f.hdr.layout.cluster stop n offset))
    (fun _ => ¬ MapBuilds f ∧ piecesFrom f.hdr.layout.cluster stop n offset ≠ []) := by
  induction n generalizing ps s offset with
  | zero =>
      apply Triple.ret
      rintro t rfl
      rwa [piecesFrom, List.append_nil]
  | succ n ih =>
      unfold fillPieces piecesFrom
      split
      case isTrue =>
        apply Triple.ret
        rintro t rfl
        rwa [List.append_nil]
      case isFalse =>
        apply Triple.look
        rintro t rfl
        dsimp only
        rw [hs.delta.cluster]
        generalize min ((offset + f.hdr.layout.cluster) / f.hdr.layout.cluster *
          f.hdr.layout.cluster - offset) (stop - offset) = len
        apply Triple.bind (R := fun _ => Filled c f (ps ++ [(offset, len)]))
        · apply (fillPiece_spec hc hL hindex hs _ _).conseq
          · exact fun _ ht => ht
          · exact fun _ _ ht => ht
          · exact fun _ hno => ⟨hno, List.cons_ne_nil _ _⟩
        · intro _
          apply Triple.start
          intro u hu
          apply (ih hu (offset + len)).conseq
          · exact fun _ ht => ht
          · intro _ v hv
            rwa [List.append_assoc, List.singleton_append] at hv
          · exact fun _ hno => ⟨hno.1, List.cons_ne_nil _ _⟩

theorem fillHole_spec (hs : Filled c f ps s) (start stop : ℕ) : Triple (fun t => t = s)
    (fillHole c true start stop)
    (fun _ => Filled c f (ps ++ cutHole f.hdr.layout.cluster start stop))
    (fun _ => ¬ MapBuilds f ∧ cutHole f.hdr.layout.cluster start stop ≠ []) := by
  apply Triple.bind (R := fun _ t => Filled c f ps t)
  · apply Triple.look
    rintro t rfl
    split
    case isTrue =>
      apply Triple.ret
      rintro u rfl
      exact hs
    case isFalse =>
      rw [if_neg (not_not.mpr rfl)]
      apply Triple.step
      rw [hc.reopen]
      apply Triple.ret
      rintro u rfl
      exact ⟨hs.delta, hs.size, hs.rmap, hs.built, hs.lookups, hs.writes, hs.file⟩
  · intro _
    apply Triple.start
    intro t ht
    exact fillPieces_spec hc hL hindex ht stop _ start

end Fill

end Ploop.Check
