import Ploop.Snapshot.Settled

/-!
# Snapshots that go away

An image that is merged or deleted leaves a tree, and its file is removed when the descriptor on
disk does not list it any more.
-/

namespace Ploop.Dd

open Program Rooted Storage

variable {K : DiskImagesData → Store → Prop} {May : Guid → Prop} {o : Outside} {α β : Type}
  {d c : DiskImagesData} {g : Guid} {p : Path}

/-! ## Edits -/

theorem at_removeImage (hc : IsTree c) (renew : Bool) :
    Triple (At K d c) (diRemoveImage o g renew) (fun file s => ∃ i j snap,
      d.findSnapshotByGuid g = some i ∧ d.snapshotByGuid g = some snap ∧
      d.findImageIdxByGuid g = some j ∧ d.findImageByGuid g = some file ∧
      d.getChildCountByUuid g = 0 ∧ snap.parentGuid ≠ noneUuid ∧
      At K ((if renew && d.isTop g then d.changeParentGuid i snap.parentGuid topdeltaUuid
        else d).dropAt i j) c s) (Sound K) := by
  refine at_getDi (at_orParam hc fun i hi => at_orParam hc fun snap hsnap =>
    at_orParam hc fun j hj => at_orParam hc fun file hfile => at_guardParam hc fun hcount =>
    at_guardParam hc fun hbase => (at_step hc (keeps_call _)).bind fun _ => ?_)
  have hparent : snap.parentGuid ≠ noneUuid := by
    rintro heq
    rw [heq, guidEq_refl] at hbase
    exact Bool.false_ne_true hbase
  have hedit : Triple (At K d c)
      (if renew && d.isTop g then
        modifyDi (·.changeParentGuid i snap.parentGuid topdeltaUuid) else pure ())
      (fun _ => At K (if renew && d.isTop g then
        d.changeParentGuid i snap.parentGuid topdeltaUuid else d) c) (Sound K) := by
    split
    · exact at_modifyDi _
    · exact Triple.ret fun _ hs => hs
  refine Triple.when hedit ((at_modifyDi _).bind fun _ => Triple.ret fun s hs => ?_)
  exact ⟨i, j, snap, hi, hsnap, hj, hfile, of_decide_eq_true hcount, hparent, hs⟩

theorem at_mergeImage (hc : IsTree c) :
    Triple (At K d c) (diMergeImage o g) (fun file s => ∃ i j snap,
      d.findSnapshotByGuid g = some i ∧ d.snapshotByGuid g = some snap ∧
      d.findImageIdxByGuid g = some j ∧ d.findImageByGuid g = some file ∧
      d.getChildCountByUuid snap.parentGuid ≤ 1 ∧ snap.parentGuid ≠ noneUuid ∧
      At K (if guidEq snap.guid topdeltaUuid then
        ((d.mergeGuid g snap).dropAt i j).changeGuid snap.parentGuid topdeltaUuid
        else (d.mergeGuid g snap).dropAt i j) c s) (Sound K) := by
  refine at_getDi (at_orParam hc fun i hi => at_orParam hc fun snap hsnap =>
    at_orParam hc fun j hj => at_orParam hc fun file hfile => at_guardParam hc fun hcount =>
    at_guardParam hc fun hbase => (at_step hc (keeps_call _)).bind fun _ =>
    (at_modifyDi _).bind fun _ => ?_)
  have hparent : snap.parentGuid ≠ noneUuid := by
    rintro heq
    rw [heq, guidEq_refl] at hbase
    exact Bool.false_ne_true hbase
  have hedit : Triple (At K ((d.mergeGuid g snap).dropAt i j) c)
      (if guidEq snap.guid topdeltaUuid then
        modifyDi (·.changeGuid snap.parentGuid topdeltaUuid) else pure ())
      (fun _ => At K (if guidEq snap.guid topdeltaUuid then
        ((d.mergeGuid g snap).dropAt i j).changeGuid snap.parentGuid topdeltaUuid
        else (d.mergeGuid g snap).dropAt i j) c) (Sound K) := by
    split
    · exact at_modifyDi _
    · exact Triple.ret fun _ hs => hs
  refine Triple.when hedit (Triple.ret fun s hs => ?_)
  exact ⟨i, j, snap, hi, hsnap, hj, hfile, of_decide_eq_true hcount, hparent, hs⟩

theorem at_addImage (hc : IsTree c) (fname : Path) (p : Guid) :
    Triple (At K d c) (diAddImage o fname g p)
      (fun _ => At K { (d.pushImage ⟨g, fname, false⟩).pushSnapshot
        ⟨g, p, false, false⟩ with topGuid := some g } c) (Sound K) := by
  have himage : Triple (At K d c) (addImageEntry o fname g)
      (fun _ => At K (d.pushImage ⟨g, fname, false⟩) c) (Sound K) :=
    (at_step hc (keeps_guardParam _)).bind fun _ => (at_step hc (keeps_call _)).bind fun _ =>
      (at_step hc (keeps_call _)).bind fun _ => (at_step hc (keeps_call _)).bind fun _ =>
        at_modifyDi _
  have hsnapshot : Triple (At K (d.pushImage ⟨g, fname, false⟩) c) (addSnapshotEntry o g p false)
      (fun _ => At K ((d.pushImage ⟨g, fname, false⟩).pushSnapshot ⟨g, p, false, false⟩) c)
      (Sound K) :=
    (at_step hc (keeps_guardParam _)).bind fun _ => (at_step hc (keeps_guardParam _)).bind fun _ =>
      (at_step hc (keeps_call _)).bind fun _ => (at_step hc (keeps_call _)).bind fun _ =>
        (at_step hc (keeps_call _)).bind fun _ => at_modifyDi _
  exact (at_step hc (keeps_call _)).bind fun _ => himage.bind fun _ => hsnapshot.bind fun _ =>
    at_modifyDi _

/-! ## What removals keep -/

/-- The parent of the top delta can take its place: it stays, and has no other child. -/
def TopGoes (d : DiskImagesData) : Prop :=
  ∀ s p, d.snapshotByGuid topdeltaUuid = some s → d.snapshotByGuid s.parentGuid = some p →
    p.temporary = false ∧ d.getChildCountByUuid s.parentGuid = 1

/-- The guid may go. That of the top delta stays, and the one of its parent goes. -/
structure Goes (May : Guid → Prop) (d : DiskImagesData) (g : Guid) : Prop where
  may : May g
  top : guidEq g topdeltaUuid = true → TopGoes d ∧
    ∀ s, d.snapshotByGuid topdeltaUuid = some s → May s.parentGuid

/-- What `ploop_di_remove_image` makes of a descriptor. -/
def DiskImagesData.without (d : DiskImagesData) (g : Guid) (i : ℕ) (snap : SnapshotData) :
    DiskImagesData :=
  (if d.isTop g then d.changeParentGuid i snap.parentGuid topdeltaUuid else d).dropAt i i

/-- What is known of the arguments of a merge: it is offline where there is no device, and then
only a disk in raw mode has a raw base. -/
structure Asks (K : DiskImagesData → Store → Prop) (d : DiskImagesData) (names : List Path)
    (newDelta : Option Path) (a : MergeArgs) : Prop where
  names : a.names = names
  newDelta : a.newDelta = newDelta
  online : (∀ c st, K c st → st.kernel = none) → a.online = false
  raw : a.online = false → a.raw = true → d.raw = true

/-- `K` is kept when snapshots are removed whose guids may go. -/
structure Keeping (o : Outside) (newDelta : Option Path) (K : DiskImagesData → Store → Prop)
    (May : Guid → Prop) : Prop where
  congr : ∀ {g g'}, guidEq g g' = true → May g → May g'
  temporary : ∀ {d st s}, K d st → s ∈ d.snapshots → s.temporary = true → May s.guid
  mark : ∀ {d st g}, IsTree d → IsTree (d.setTemporary g) → May g → K d st →
    K (d.setTemporary g) st
  drop : ∀ {d st g i snap file}, IsTree d → d.findSnapshotByGuid g = some i →
    d.snapshotByGuid g = some snap → d.findImageByGuid g = some file →
    d.getChildCountByUuid g = 0 → snap.parentGuid ≠ noneUuid → Goes May d g → K d st →
    K (d.without g i snap) st ∧ Spare K (d.without g i snap) file
  merge : ∀ {d g i snap file parentFile}, IsTree d → d.findSnapshotByGuid g = some i →
    d.snapshotByGuid g = some snap → d.findImageByGuid g = some file →
    d.findImageByGuid snap.parentGuid = some parentFile →
    d.getChildCountByUuid snap.parentGuid ≤ 1 → snap.parentGuid ≠ noneUuid →
    May snap.parentGuid → ∀ {t a st}, Asks K d [file, parentFile] newDelta a →
    K d st → K d (st.write (o.merge t a st).2) ∧
      ((o.merge t a st).1 = none →
        K ((d.mergeGuid g snap).dropAt i i) (st.write (o.merge t a st).2)) ∧
      Spare K ((d.mergeGuid g snap).dropAt i i) file
  restack : ∀ {d st} f, K d st → K d (st.restack f)
  -- a merge into a new file renames the file of the parent, which is not followed
  renew : newDelta ≠ none → ∀ d st, K d st

/-- The tree has no new guids, and nothing in it depends on `p`. -/
def Left (K : DiskImagesData → Store → Prop) (p : Path) (c : DiskImagesData) (s : World) : Prop :=
  ∃ d, IsTree d ∧ keys d.entries ⊆ keys c.entries ∧ At K d d s ∧ Spare K d p

theorem left_unlink {E : World → Prop} :
    Triple (Left K p c) (unlinkFile o p) (fun _ => Settled K c) E :=
  fun s ⟨d, hd, hkeys, hs, hp⟩ => (at_unlink hp).conseq (fun _ ht => ht)
    (fun _ _ ht => ⟨d, hd, hkeys, ht⟩) (fun _ ht => ht) s hs

theorem settled_finish {gone : Bool} :
    Triple (Settled K c) (if gone then pure () else throw (.exit .unlink) : DdM Unit)
      (fun _ => Settled K c) (Sound K) := by
  split
  · exact Triple.ret fun _ hs => hs
  · exact Triple.raise fun _ hs => hs.sound

/-! ## Merge -/

/-- What `ploop_di_merge_image` makes of a tree. -/
theorem IsTree.mergeImage {i : ℕ} {snap : SnapshotData} (hd : IsTree d)
    (hi : d.findSnapshotByGuid g = some i) (hsnap : d.snapshotByGuid g = some snap)
    (hp : snap.parentGuid ≠ noneUuid) (honly : d.getChildCountByUuid snap.parentGuid ≤ 1) :
    (if guidEq snap.guid topdeltaUuid then
        ((d.mergeGuid g snap).dropAt i i).changeGuid snap.parentGuid topdeltaUuid
      else (d.mergeGuid g snap).dropAt i i) = (d.mergeGuid g snap).dropAt i i ∧
    IsTree ((d.mergeGuid g snap).dropAt i i) ∧
    keys ((d.mergeGuid g snap).dropAt i i).entries ⊆ keys d.entries := by
  have htree := hd.merge hi hsnap hp honly
  have hentries := entries_merge (s := snap) hd hi
  obtain ⟨hmem, hkey⟩ := snapshotByGuid_some hsnap
  have hentry := entry_mem hmem hp
  rw [hkey] at hentry
  have hne := (hd.tree.parent_ne hentry).symm
  refine ⟨?_, htree, ?_⟩
  · split
    · refine htree.changeGuid_absent hp ?_
      rw [hentries, mem_keys_merge hne]
      rintro (⟨heq, -⟩ | ⟨-, hno, -⟩)
      · exact hne heq.symm
      · exact hno rfl
    · rfl
  · rw [hentries]
    intro k hk
    rcases (mem_keys_merge hne).mp hk with ⟨rfl, -⟩ | ⟨-, -, hold⟩
    · exact mem_keys.mpr ⟨_, hentry⟩
    · exact hold

theorem calm_mergeIoctls {newDelta : Option Path} (hkeep : Keeping o newDelta K May)
    {a : MergeArgs} (ha : a.newDelta = newDelta) : Keeps (Calm K) (mergeIoctls o a) := by
  refine keeps_mergeIoctls (fun f => Keeps.modify fun _ => ⟨rfl, rfl, rfl, fun _ h =>
    hkeep.restack f h⟩) fun hnew p s => ?_
  rintro t rfl
  obtain ⟨gone, store, -, hrun⟩ := unlink_run (o := o) p t
  rw [hrun]
  exact ⟨rfl, rfl, rfl, fun _ _ => hkeep.renew (ha ▸ hnew) _ _⟩

theorem waits_mergeImage (hc : IsTree c) {newDelta : Option Path}
    (hkeep : Keeping o newDelta K May) {a : MergeArgs} (ha : a.newDelta = newDelta)
    (hmerge : ∀ t st, K c st → K c (st.write (o.merge t a st).2) ∧
      ((o.merge t a st).1 = none → K d (st.write (o.merge t a st).2))) :
    Triple (Waits K d c) (mergeImage o a) (fun _ => Due K d c) (Sound K) := by
  refine (waits_step hc keeps_tick).bind fun time => Triple.look fun s hs => ?_
  obtain ⟨hkept, hdone⟩ := hmerge time s.store hs.kept
  have hset : Triple (fun t => t = s)
      (set { s with store := s.store.write (o.merge time a s.store).2 } : DdM PUnit)
      (fun _ t => Waits K d c t ∧ t.store = s.store.write (o.merge time a s.store).2)
      (Sound K) :=
    fun _ _ => ⟨⟨⟨hs.di, hs.conf, hkept⟩, hs.confTmp⟩, rfl⟩
  refine hset.bind fun _ => ?_
  cases hresult : (o.merge time a s.store).1 with
  | some e => exact Triple.raise fun _ ht => ht.1.sound hc
  | none =>
      refine Triple.conseq (P := Due K d c) ?_ (fun t ht => ⟨ht.1, ht.2 ▸ hdone hresult⟩)
        (fun _ _ h => h) fun _ h => h
      dsimp only
      split
      · exact due_step hc (calm_mergeIoctls hkeep ha)
      · exact Triple.ret fun _ h => h

/-- A new version with the keys of `c` can be renamed, and nothing in it depends on `p`. -/
def Coming (K : DiskImagesData → Store → Prop) (p : Path) (c : DiskImagesData) (s : World) : Prop :=
  ∃ d, IsTree d ∧ keys d.entries ⊆ keys c.entries ∧ Due K d c s ∧ Spare K d p

theorem coming_step (hc : IsTree c) {x : DdM α} (h : Keeps (Calm K) x) :
    Triple (Coming K p c) x (fun _ => Coming K p c) (Sound K) :=
  fun s ⟨d, hd, hkeys, hs, hp⟩ => (due_step hc h).conseq (fun _ ht => ht)
    (fun _ _ ht => ⟨d, hd, hkeys, ht, hp⟩) (fun _ ht => ht) s hs

theorem coming_rename (hc : IsTree c) : Triple (Coming K p c) (renameConf o)
    (fun ok s => if ok then Left K p c s else Sound K s) (Sound K) := by
  rintro s ⟨d, hd, hkeys, hs, hp⟩
  refine (due_rename hc).conseq (fun _ ht => ht) (fun ok t ht => ?_) (fun _ ht => ht) s hs
  cases ok with
  | false => exact ht.sound hc
  | true => exact ⟨d, hd, hkeys, ht, hp⟩

theorem coming_renewImage (hc : IsTree c) (hany : ∀ d st, K d st) (newDelta : Path) :
    Triple (Coming K p c) (renewImage o g newDelta) (fun _ => Coming K p c) (Sound K) := by
  refine (coming_step hc (keeps_call _)).bind fun _ => ?_
  rintro s ⟨d, hd, hkeys, hs, -⟩
  have hstore : Triple (At K d c) (do
      let di ← getDi
      let idx ← orParam (di.findImageIdxByGuid g)
      let oldimg ← orParam (di.findImageByGuid g)
      modifyDi fun di =>
        { di with images := di.images.modify idx fun i => { i with file := o.realpath newDelta } }
      storeDiskdescriptor o true
      unlinkFile o oldimg) (fun _ => Coming K p c) (Sound K) := by
    refine at_getDi (at_orParam hc fun idx _ => at_orParam hc fun oldimg _ =>
      (at_modifyDi _).bind fun _ => (at_storeTmp (hd.setFile idx) hc).bind fun _ => ?_)
    exact (waits_unlink fun st _ => hany c _).conseq (fun _ h => h)
      (fun _ _ ht => ⟨_, hd.setFile idx, hkeys, ⟨ht, hany _ _⟩, fun st _ => hany _ _⟩) fun _ h => h
  exact hstore s hs.toAt

theorem at_mergeLevels (hc : IsTree c) (child parent : Path) :
    Triple (At K d c) (mergeLevels o child parent) (fun levels s => At K d c s ∧
      ((∀ c st, K c st → st.kernel = none) → levels.2.2.1 = false)) (Sound K) := by
  by_cases hnone : ∀ c st, K c st → st.kernel = none
  · refine Triple.look fun s hs => ?_
    rw [hnone c s.store hs.kept]
    refine Triple.ret ?_
    rintro _ rfl
    exact ⟨hs, fun _ => rfl⟩
  · exact (at_step hc (keeps_mergeLevels child parent)).conseq (fun _ h => h)
      (fun _ _ h => ⟨h, fun hall => absurd hall hnone⟩) fun _ h => h

theorem coming_mergeDown (hd : IsTree d) {newDelta : Option Path}
    (hkeep : Keeping o newDelta K May)
    (hmay : ∀ snap, d.snapshotByGuid g = some snap → May snap.parentGuid) :
    Triple (At K d d) (mergeDown o g newDelta) (fun r => Coming K r.1 d) (Sound K) := by
  refine at_getDi (at_orParam hd fun child hchild => at_orParam hd fun fname hfname =>
    at_guardParam hd fun _ => at_orParam hd fun parentFname hparentFname =>
    at_orParam hd fun parent _ => at_guardParam hd fun _ => (at_step hd keeps_findDev).bind fun _ =>
    (at_mergeLevels hd _ _).bind fun levels => Triple.known fun honline => ?_)
  obtain ⟨startLevel, endLevel, online, mergeTop⟩ := levels
  refine (at_step hd (keeps_call _)).bind fun _ => (at_step hd (keeps_call _)).bind fun _ =>
    (at_step hd (keeps_checkSnapshotMount _ _ _)).bind fun _ =>
    (at_step hd (keeps_checkSnapshotMount _ _ _)).bind fun _ =>
    (at_mergeImage hd).bind fun deleteFname => ?_
  refine Triple.start fun s ⟨i, j, snap, hi, hsnap, hj, hfile, hcount, hparent, hs⟩ => ?_
  rw [imageIdx_eq hd.toPaired, hi] at hj
  cases hj
  rw [hsnap] at hchild
  cases hchild
  rw [hfile] at hfname
  cases hfname
  obtain ⟨hsame, htree, hkeys⟩ := hd.mergeImage hi hsnap hparent hcount
  rw [hsame] at hs
  refine Triple.conseq (P := At K ((d.mergeGuid g child).dropAt i i) d) ?_ (fun _ ht => ht ▸ hs)
    (fun _ _ h => h) fun _ h => h
  refine (at_storeTmp htree hd).bind fun _ => ?_
  refine Triple.bind (R := fun _ => Waits K ((d.mergeGuid g child).dropAt i i) d)
    (Triple.read fun _ h => h) fun w => ?_
  have hmerge : ∀ {t a st}, Asks K d [fname, parentFname] newDelta a → K d st →
      K d (st.write (o.merge t a st).2) ∧
        ((o.merge t a st).1 = none →
          K ((d.mergeGuid g child).dropAt i i) (st.write (o.merge t a st).2)) ∧
        Spare K ((d.mergeGuid g child).dropAt i i) fname :=
    hkeep.merge hd hi hsnap hfile hparentFname hcount hparent (hmay child hsnap)
  have hasks : ∀ raw startLevel endLevel mergeTop, (online = false → raw = true → d.raw = true) →
      Asks K d [fname, parentFname] newDelta
        ⟨online, startLevel, endLevel, raw, mergeTop, [fname, parentFname], newDelta⟩ :=
    fun _ _ _ _ hraw => ⟨rfl, rfl, honline, hraw⟩
  have hspare := (hmerge (t := 0) (hasks false 0 0 false fun _ hno => absurd hno (by simp))
    hs.kept).2.2
  refine (waits_mergeImage hd hkeep rfl fun t st hst => ?_).bind fun _ =>
    Triple.ret fun _ ht => ⟨_, htree, hkeys, ht, hspare⟩
  · have hraw : online = false → (if online then w.store.kernelRaw && startLevel = 0
        else d.raw && guidEq parent.parentGuid noneUuid) = true → d.raw = true := by
      rintro rfl hraw
      exact (Bool.and_eq_true_iff.mp hraw).1
    have hafter := hmerge (t := t) (hasks _ startLevel endLevel mergeTop hraw) hst
    exact ⟨hafter.1, hafter.2.1⟩

theorem settled_mergeSnapshot (hd : IsTree d) {newDelta : Option Path}
    (hkeep : Keeping o newDelta K May)
    (hmay : ∀ snap, d.snapshotByGuid g = some snap → May snap.parentGuid) :
    Triple (At K d d) (mergeSnapshotByGuid o g newDelta) (fun _ => Settled K d) (Sound K) := by
  refine (coming_mergeDown hd hkeep hmay).bind ?_
  rintro ⟨fname, online⟩
  have hfinish : ∀ removed : Bool, Triple (Coming K fname d) (do
      if ← renameConf o then do
        let gone ← unlinkFile o fname
        if removed && gone then pure () else throw (.exit .unlink)
      else throw (.exit .rename)) (fun _ => Settled K d) (Sound K) := by
    refine fun removed => (coming_rename hd).bind fun ok => ?_
    cases ok with
    | false => exact Triple.raise fun _ h => h
    | true => exact left_unlink.bind fun _ => settled_finish
  cases newDelta with
  | none => exact hfinish true
  | some p => exact (coming_renewImage hd (hkeep.renew (Option.some_ne_none p)) p).bind hfinish

theorem topdelta_may (hd : IsTree d) (hall : ∀ p, guidEq p topdeltaUuid = false → May p) :
    ∀ snap, d.snapshotByGuid topdeltaUuid = some snap → May snap.parentGuid := by
  intro snap hsnap
  refine hall _ (Bool.eq_false_iff.mpr fun heq => ?_)
  rw [guidEq_iff_fold] at heq
  obtain ⟨hmem, hkey⟩ := snapshotByGuid_some hsnap
  by_cases hp : snap.parentGuid = noneUuid
  · rw [hp, fold_noneUuid] at heq
    exact fold_topdelta_ne_none heq.symm
  · refine hd.tree.parent_ne (entry_mem hmem hp) ?_
    rw [heq, hkey]

/-- Every level is merged into a tree that has no new guids. -/
theorem settled_mergeAll {newDelta : Option Path} (hkeep : Keeping o newDelta K May)
    (hall : ∀ p, guidEq p topdeltaUuid = false → May p) (n : ℕ) :
    Triple (Settled K c) (mergeAll o newDelta n) (fun _ => Settled K c) (Sound K) := by
  induction n with
  | zero => exact Triple.raise fun _ hs => hs.sound
  | succ n ih =>
      refine settled_start fun d hd hkeys => at_getDi ?_
      rw [hd.top]
      refine ((settled_mergeSnapshot hd hkeep (topdelta_may hd hall)).conseq (fun _ h => h)
        (fun _ t ht => ht.trans hkeys) fun _ h => h).bind (R := fun _ => Settled K c) fun _ => ?_
      refine (settled_step keeps_getDi).bind fun di => ?_
      split
      · exact ih
      · exact Triple.ret fun _ h => h

/-! ## Delete -/

theorem ne_none_of_mem (hd : IsTree d) (hg : fold g ∈ keys d.entries) : g ≠ noneUuid := by
  rintro rfl
  exact hd.named (fold_noneUuid ▸ hg)

theorem isTop_iff (hd : IsTree d) : d.isTop g = true ↔ fold g = fold topdeltaUuid := by
  unfold DiskImagesData.isTop
  rw [hd.top]
  change guidEq topdeltaUuid g = true ↔ _
  rw [guidEq_iff_fold, eq_comm]

theorem lookup_congr {g' : Guid} (h : fold g = fold g') :
    d.findSnapshotByGuid g = d.findSnapshotByGuid g' ∧
      d.snapshotByGuid g = d.snapshotByGuid g' := by
  have hsame : ∀ s : SnapshotData, guidEq s.guid g = guidEq s.guid g' :=
    fun s => guidEq_congr (guidEq_refl _) (guidEq_iff_fold.mpr h)
  unfold DiskImagesData.findSnapshotByGuid DiskImagesData.snapshotByGuid
  simp only [hsame, and_self]

/-- What `ploop_di_remove_image` makes of a tree. -/
theorem IsTree.removeImage {i : ℕ} {snap : SnapshotData} (hd : IsTree d)
    (hi : d.findSnapshotByGuid g = some i) (hsnap : d.snapshotByGuid g = some snap)
    (hcount : d.getChildCountByUuid g = 0) (hp : snap.parentGuid ≠ noneUuid)
    (hsafe : guidEq g topdeltaUuid = true → TopGoes d) :
    IsTree (d.without g i snap) ∧ keys (d.without g i snap).entries ⊆ keys d.entries := by
  obtain ⟨hmem, hkey⟩ := snapshotByGuid_some hsnap
  have hentry := entry_mem hmem hp
  rw [hkey] at hentry
  have hg := ne_none_of_mem hd (mem_keys.mpr ⟨_, hentry⟩)
  have hprune := entries_drop hd.tree hi i
  unfold DiskImagesData.without
  split
  case isTrue htop =>
    rw [isTop_iff hd] at htop
    obtain ⟨hfind, hby⟩ := lookup_congr (d := d) htop
    rw [hfind] at hi
    rw [hby] at hsnap
    rw [htop] at hentry hprune
    obtain ⟨p, hpar⟩ := Option.isSome_iff_exists.mp
      (snapshotByGuid_isSome.mpr (hd.tree.parent_mem hentry))
    obtain ⟨hstays, hone⟩ := hsafe (guidEq_iff_fold.mpr htop) snap p hsnap hpar
    rw [hd.changeParentGuid hi hsnap hp hone.le]
    have hbare := hd.dropTop hi hentry
    have hin : fold snap.parentGuid ∈ keys (d.dropAt i i).entries := by
      rw [hprune, mem_keys_prune]
      exact ⟨hd.tree.parent_mem hentry, hd.tree.parent_ne hentry⟩
    refine ⟨hbare.changeGuid hd.top hin ?_ ?_, ?_⟩
    · rw [hprune]
      intro e he heq
      obtain ⟨hold, hne⟩ := mem_prune.mp he
      exact hne (only_child hp hone.le hentry e hold heq)
    · intro x hx hxkey
      have hsame := snapshotByGuid_eq hd.tree (List.mem_of_mem_eraseIdx hx) hxkey
      rw [hpar] at hsame
      exact Option.some.inj hsame ▸ hstays
    · rw [entries_changeGuid hp topdelta_ne_none, keys_rename, hprune]
      intro k hk
      obtain ⟨k₀, hk₀, rfl⟩ := List.mem_map.mp hk
      unfold replaceKey
      split
      · exact hd.hasTop
      · exact (mem_keys_prune.mp hk₀).1
  case isFalse htop =>
    rw [isTop_iff hd] at htop
    refine ⟨hd.dropLeaf hi hentry (no_child hg hcount) htop, ?_⟩
    rw [hprune]
    exact fun k hk => (mem_keys_prune.mp hk).1

theorem settled_deleteLeaf (hd : IsTree d) (hkeep : Keeping o none K May) (hgoes : Goes May d g)
    (snap : SnapshotData) :
    Triple (At K d d) (deleteLeaf o g snap) (fun _ => Settled K d) (Sound K) := by
  have hremove : Triple (At K d d) (do
      let fname ← orParam (d.findImageByGuid g)
      checkSnapshotMount o g fname snap.temporary
      let fname ← diRemoveImage o g true
      storeDiskdescriptor o false
      if ← unlinkFile o fname then pure () else throw (.exit .unlink))
      (fun _ => Settled K d) (Sound K) := by
    refine at_orParam hd fun fname _ => (at_step hd (keeps_checkSnapshotMount _ _ _)).bind
      fun _ => (at_removeImage hd true).bind fun fname => ?_
    refine Triple.start fun s ⟨i, j, snap, hi, hsnap, hj, hfile, hcount, hparent, hs⟩ => ?_
    rw [imageIdx_eq hd.toPaired, hi] at hj
    cases hj
    rw [Bool.true_and] at hs
    obtain ⟨htree, hkeys⟩ := hd.removeImage hi hsnap hcount hparent fun htop => (hgoes.top htop).1
    have hdrop : ∀ {st}, K d st → K (d.without g i snap) st ∧ Spare K (d.without g i snap) fname :=
      hkeep.drop hd hi hsnap hfile hcount hparent hgoes
    have hstore : Triple (fun t => t = s) (storeDiskdescriptor o false)
        (fun _ => Left K fname d) (Sound K) :=
      (at_storeConf htree hd fun _ hst => (hdrop hst).1).conseq (fun _ ht => ht ▸ hs)
        (fun _ t ht => ⟨_, htree, hkeys, ht, (hdrop hs.kept).2⟩) fun _ h => h
    exact hstore.bind fun _ => left_unlink.bind fun _ => settled_finish
  refine at_getDi (at_guardParam hd fun _ => ?_)
  dsimp only
  split
  · exact at_orParam hd fun parent _ => at_guardParam hd fun _ => hremove
  · exact hremove

/-- The child that is merged is one of the snapshot. -/
theorem child_may (hcongr : ∀ {g g'}, guidEq g g' = true → May g → May g') (hmay : May g)
    (htree : Tree d.entries) {child : Guid} (hchild : d.getChildByUuid g = some child) :
    ∀ snap, d.snapshotByGuid child = some snap → May snap.parentGuid := by
  intro snap hsnap
  obtain ⟨s, hs, rfl⟩ := Option.map_eq_some_iff.mp hchild
  have hparent := List.find?_some hs
  rw [snapshotByGuid_eq htree (List.mem_of_find?_eq_some hs) rfl] at hsnap
  cases hsnap
  exact hcongr (guidEq_comm _ _ ▸ hparent) hmay

theorem settled_delete (hd : IsTree d) (hkeep : Keeping o none K May) (hgoes : Goes May d g) :
    Triple (At K d d) (doDeleteSnapshot o g) (fun _ => Settled K d) (Sound K) := by
  refine at_getDi ?_
  cases hsnap : d.snapshotByGuid g with
  | none => exact Triple.raise fun _ hs => hs.sound hd
  | some snap =>
      refine (at_step hd keeps_findDev).bind fun running => at_guardParam hd fun _ => ?_
      split
      · exact settled_deleteLeaf hd hkeep hgoes snap
      · exact at_orParam hd fun child hchild => settled_mergeSnapshot hd hkeep
          (child_may hkeep.congr hgoes.may hd.tree hchild)
      · rename_i n hzero hone
        split
        · split
          · exact Triple.ret fun s hs => hs.settled hd
          · exact Triple.raise fun _ hs => hs.sound hd
        · have hother : fold g ≠ fold topdeltaUuid := by
            intro htop
            refine hzero ?_
            have hin := snapshotByGuid_isSome.mp (Option.isSome_iff_exists.mpr ⟨snap, hsnap⟩)
            rw [childCount (ne_none_of_mem hd hin), List.countP_eq_zero]
            intro e he
            rw [htop]
            simpa using hd.topLeaf e he
          have htree := hd.setTemporary hother
          refine (at_modifyDi _).bind fun _ => (at_storeConf htree hd fun _ hst =>
            hkeep.mark hd htree hgoes.may hst).conseq (fun _ h => h)
            (fun _ s hs => ⟨_, htree, ?_, hs⟩) fun _ h => h
          rw [entries_setTemporary]
          exact List.Subset.refl _

/-- A temporary snapshot may go, and is not the top delta. -/
theorem temporary_goes (hd : IsTree d) (hkeep : Keeping o none K May) {st : Store}
    (hst : K d st) {x : SnapshotData} (hx : x ∈ d.snapshots) (htemp : x.temporary = true) :
    Goes May d x.guid where
  may := hkeep.temporary hst hx htemp
  top htop := by
    have hstays := hd.topStays x hx htop
    rw [htemp] at hstays
    cases hstays

theorem settled_temporary (hkeep : Keeping o none K May) (n i : ℕ) :
    Triple (Settled K c) (mergeTemporaryFrom o n i) (fun _ => Settled K c) (Sound K) := by
  induction n generalizing i with
  | zero => exact Triple.raise fun _ hs => hs.sound
  | succ n ih =>
      refine settled_start fun d hd hkeys => at_getDi ?_
      have hback : ∀ t, At K d d t → Settled K c t := fun t ht => ⟨d, hd, hkeys, ht⟩
      have hgo : ∀ j, Triple (At K d d) (mergeTemporaryFrom o n j) (fun _ => Settled K c)
          (Sound K) := fun j => (ih j).conseq hback (fun _ _ h => h) fun _ h => h
      cases hx : d.snapshots[i]? with
      | none => exact Triple.ret hback
      | some x =>
          dsimp only
          split
          case isFalse => exact hgo (i + 1)
          case isTrue htemp =>
            refine (at_step hd (keeps_isSnapshotInUse _)).bind fun used => ?_
            cases used with
            | true => exact hgo (i + 1)
            | false =>
                have hdelete : Triple (At K d d) (doDeleteSnapshot o x.guid)
                    (fun _ => Settled K c) (Sound K) := fun s hs =>
                  (settled_delete hd hkeep (temporary_goes hd hkeep hs.kept
                    (List.mem_of_getElem? hx) htemp)).conseq (fun _ h => h)
                    (fun _ t ht => ht.trans hkeys) (fun _ h => h) s hs
                refine hdelete.bind fun _ => (settled_step keeps_getDi).bind fun di => ?_
                split
                · exact ih 0
                · exact ih (i + 1)

theorem settled_cleanUp (hkeep : Keeping o none K May) :
    Triple (Settled K c) (mergeTemporarySnapshots o) (fun _ => Settled K c) (Sound K) :=
  (settled_step keeps_getDi).bind fun _ => settled_temporary hkeep _ _

/-! ## Calls -/

/-- A world with `c` on disk. -/
structure On (K : DiskImagesData → Store → Prop) (c : DiskImagesData) (s : World) : Prop where
  conf : s.conf = c
  kept : K c s.store

theorem On.sound {s : World} (h : On K c s) (hc : IsTree c) : Sound K s := by
  obtain ⟨rfl, hkept⟩ := h
  exact ⟨hc, hkept⟩

theorem on_step (hc : IsTree c) {x : DdM α} (h : Keeps (Calm K) x) :
    Triple (On K c) x (fun _ => On K c) (Sound K) :=
  calm_step (fun _ _ hs ht => ⟨ht.conf.trans hs.conf, ht.kept _ hs.kept⟩)
    (fun _ hs => hs.sound hc) h

theorem at_lock (hc : IsTree c) :
    Triple (On K c) (lockDd o) (fun _ => At K c c) (Sound K) := by
  refine (on_step hc (keeps_call _)).bind fun _ => Triple.look fun s hs => ?_
  cases hread : readDd o s.conf with
  | none =>
      refine Triple.raise ?_
      rintro _ rfl
      exact hs.sound hc
  | some d =>
      rw [hs.conf] at hread
      refine Triple.update ?_
      rintro _ rfl
      exact ⟨hc.readDd hread, hs.conf, hs.kept⟩

theorem sound_delete (hc : IsTree c) (hkeep : Keeping o none K May) (hgoes : Goes May c g) :
    Triple (On K c) (ploopDeleteSnapshot o g) (fun _ => Sound K) (Sound K) := by
  refine (at_lock hc).bind fun _ => (settled_delete hc hkeep hgoes).bind fun _ => ?_
  refine (attempt_spec (settled_cleanUp hkeep)).total.bind fun r => Triple.ret fun s hs => ?_
  cases r with
  | ok _ => exact hs.sound
  | error _ => exact hs

/-- The guids that a merge takes away may go. -/
structure MergeGoes (May : Guid → Prop) (c : DiskImagesData) (guid : Option Guid) (all : Bool) :
    Prop where
  one : ∀ g, guid.getD topdeltaUuid = g → ∀ s, c.snapshotByGuid g = some s → May s.parentGuid
  all : guid = none → all = true → ∀ p, guidEq p topdeltaUuid = false → May p

theorem sound_merge (hc : IsTree c) {newDelta : Option Path} (hkeep : Keeping o newDelta K May)
    {guid : Option Guid} {all : Bool} (hgoes : MergeGoes May c guid all) :
    Triple (On K c) (ploopMergeSnapshot o guid all newDelta) (fun _ => Sound K) (Sound K) := by
  have hone : Triple (At K c c) (mergeSnapshotByGuid o (guid.getD topdeltaUuid) newDelta)
      (fun _ => Sound K) (Sound K) :=
    (settled_mergeSnapshot hc hkeep (hgoes.one _ rfl)).conseq (fun _ h => h) (fun _ _ h => h.sound)
      fun _ h => h
  refine (at_lock hc).bind fun _ => at_getDi ?_
  cases guid with
  | some g => exact hone
  | none =>
      dsimp only
      cases all with
      | true =>
          rw [if_pos rfl]
          split
          · exact (settled_mergeAll hkeep (hgoes.all rfl rfl) _).conseq
              (fun _ hs => hs.settled hc) (fun _ _ h => h.sound) fun _ h => h
          · exact Triple.raise fun _ hs => hs.sound hc
      | false =>
          rw [if_neg Bool.false_ne_true, hc.top]
          exact at_orParam hc fun top htop => by
            cases htop
            exact hone

end Ploop.Dd
