import Ploop.Snapshot.Spelling

/-!
# Operations with a guid in another case

A merge or a switch stores the guid it is given, so from there on the two runs
are compared up to case; before that they are the same run.
-/

namespace Ploop.Dd

open Program Storage

/-! ## Lookups do not see the case -/

namespace DiskImagesData

variable {g g' : Guid} (h : guidEq g g') (di : DiskImagesData)

include h

theorem findImageIdxByGuid_congr : di.findImageIdxByGuid g = di.findImageIdxByGuid g' := by
  rw [← findImageIdxByGuid_fold, guidEq_iff_fold.mp h, findImageIdxByGuid_fold]

theorem findImageByGuid_congr : di.findImageByGuid g = di.findImageByGuid g' := by
  rw [← findImageByGuid_fold, guidEq_iff_fold.mp h, findImageByGuid_fold]

theorem findSnapshotByGuid_congr : di.findSnapshotByGuid g = di.findSnapshotByGuid g' := by
  rw [← findSnapshotByGuid_fold, guidEq_iff_fold.mp h, findSnapshotByGuid_fold]

theorem snapshotByGuid_congr : di.snapshotByGuid g = di.snapshotByGuid g' := by
  unfold snapshotByGuid
  congr 1
  funext s
  exact guidEq_congr (guidEq_refl _) h

theorem getChildByUuid_congr : di.getChildByUuid g = di.getChildByUuid g' := by
  unfold getChildByUuid
  congr 2
  funext s
  exact guidEq_congr (guidEq_refl _) h

theorem getChildCountByUuid_congr : di.getChildCountByUuid g = di.getChildCountByUuid g' := by
  rw [← getChildCountByUuid_fold, guidEq_iff_fold.mp h, getChildCountByUuid_fold]

theorem isTop_congr : di.isTop g = di.isTop g' := by
  rw [← isTop_fold, guidEq_iff_fold.mp h, isTop_fold]

theorem rename_congr (n p : Guid) : rename g n p = rename g' n p := by
  unfold rename
  rw [guidEq_congr (guidEq_refl p) h]

theorem changeGuid_congr (n : Guid) : di.changeGuid g n = di.changeGuid g' n := by
  unfold changeGuid renameImage renameSnapshot
  simp only [fun p => rename_congr h n p]
  congr 1
  exact congrArg (Option.map · di.topGuid) (funext fun p => rename_congr h n p)

theorem setTemporary_congr : di.setTemporary g = di.setTemporary g' := by
  unfold setTemporary
  rw [findSnapshotByGuid_congr h]

end DiskImagesData

/-! ## Alike worlds -/

structure World.Alike (w w' : World) : Prop where
  di : w.di.Alike w'.di
  conf : w.conf.Alike w'.conf
  confTmp : w.confTmp.map DiskImagesData.fold = w'.confTmp.map DiskImagesData.fold
  store : w.store = w'.store
  time : w.time = w'.time

theorem World.Alike.refl (w : World) : w.Alike w := ⟨rfl, rfl, rfl, rfl, rfl⟩

section Calls

variable {o : Outside} {α : Type}

/-- Two computations that cannot be told apart from alike worlds. -/
abbrev Same (x y : DdM α) : Prop := Sim World.Alike Eq x y

theorem same_tick : Same tick tick :=
  fun _ _ h => ⟨h.time, h.di, h.conf, h.confTmp, h.store, congrArg (· + 1) h.time⟩

theorem same_getDi : Sim World.Alike DiskImagesData.Alike getDi getDi :=
  fun _ _ h => ⟨h.di, h⟩

theorem same_modifyDi {f f' : DiskImagesData → DiskImagesData}
    (hf : ∀ di di' : DiskImagesData, di.Alike di' → (f di).Alike (f' di')) :
    Same (modifyDi f) (modifyDi f') :=
  Sim.update fun _ _ h => ⟨hf _ _ h.di, h.conf, h.confTmp, h.store, h.time⟩

theorem same_call (e : Err) : Same (call o e) (call o e) := by
  refine same_tick.bind fun t t' ht => ?_
  subst ht
  exact Sim.ite Iff.rfl Sim.raise (Sim.ret rfl)

theorem same_callRc : Same (callRc o) (callRc o) := by
  refine same_tick.bind fun t t' ht => ?_
  subst ht
  exact Sim.ite Iff.rfl Sim.raise (Sim.ret rfl)

theorem same_try : Same (try' o) (try' o) := by
  refine same_tick.bind fun t t' ht => ?_
  subst ht
  exact Sim.ret rfl

theorem same_alloc : Same (alloc o) (alloc o) := same_call _

theorem same_guardParam {c d : Bool} (h : c = d) : Same (guardParam c) (guardParam d) := by
  subst h
  exact Sim.ite Iff.rfl (Sim.ret rfl) Sim.raise

theorem same_orParam {β γ : Type} {V : β → γ → Prop} {a : Option β} {b : Option γ}
    (h : Option.Rel V a b) : Sim World.Alike V (orParam a) (orParam b) := by
  cases h with
  | none => exact Sim.raise
  | some h => exact Sim.ret h

theorem same_orParam_eq {β : Type} {a b : Option β} (h : a = b) : Same (orParam a) (orParam b) := by
  subst h
  cases a with
  | none => exact Sim.raise
  | some a => exact Sim.ret rfl

theorem same_attempt {x y : DdM α} (h : Same x y) : Same (attempt x) (attempt y) := by
  intro s t hst
  have hxy := h s t hst
  unfold attempt
  cases hx : x s with
  | ok a s' =>
      cases hy : y t with
      | ok b t' =>
          rw [hx, hy] at hxy
          exact ⟨congrArg Except.ok hxy.1, hxy.2⟩
      | error e t' =>
          rw [hx, hy] at hxy
          exact hxy.elim
  | error e s' =>
      cases hy : y t with
      | ok b t' =>
          rw [hx, hy] at hxy
          exact hxy.elim
      | error e' t' =>
          rw [hx, hy] at hxy
          exact ⟨congrArg Except.error hxy.1, hxy.2⟩

theorem same_genUuid : Same (genUuid o) (genUuid o) := by
  refine same_tick.bind fun t t' ht => ?_
  subst ht
  exact Sim.ite Iff.rfl Sim.raise (Sim.ret rfl)

/-! ## Alike descriptors -/

section Alike

variable {di di' : DiskImagesData} {g g' : Guid}

theorem alike_findImageIdx (h : di.Alike di') (hg : guidEq g g') :
    di.findImageIdxByGuid g = di'.findImageIdxByGuid g' := by
  rw [← di.findImageIdxByGuid_fold, ← di'.findImageIdxByGuid_fold, h, guidEq_iff_fold.mp hg]

theorem alike_findImage (h : di.Alike di') (hg : guidEq g g') :
    di.findImageByGuid g = di'.findImageByGuid g' := by
  rw [← di.findImageByGuid_fold, ← di'.findImageByGuid_fold, h, guidEq_iff_fold.mp hg]

theorem alike_findSnapshot (h : di.Alike di') (hg : guidEq g g') :
    di.findSnapshotByGuid g = di'.findSnapshotByGuid g' := by
  rw [← di.findSnapshotByGuid_fold, ← di'.findSnapshotByGuid_fold, h, guidEq_iff_fold.mp hg]

theorem alike_childCount (h : di.Alike di') (hg : guidEq g g') :
    di.getChildCountByUuid g = di'.getChildCountByUuid g' := by
  rw [← di.getChildCountByUuid_fold, ← di'.getChildCountByUuid_fold, h, guidEq_iff_fold.mp hg]

theorem alike_isTop (h : di.Alike di') (hg : guidEq g g') : di.isTop g = di'.isTop g' := by
  rw [← di.isTop_fold, ← di'.isTop_fold, h, guidEq_iff_fold.mp hg]

theorem alike_snapshot (h : di.Alike di') (hg : guidEq g g') :
    Option.Rel (fun s s' : SnapshotData => s.fold = s'.fold) (di.snapshotByGuid g)
      (di'.snapshotByGuid g') := by
  have heq : (di.snapshotByGuid g).map SnapshotData.fold =
      (di'.snapshotByGuid g').map SnapshotData.fold := by
    rw [← di.snapshotByGuid_fold, ← di'.snapshotByGuid_fold, h, guidEq_iff_fold.mp hg]
  cases h₁ : di.snapshotByGuid g with
  | none =>
      cases h₂ : di'.snapshotByGuid g' with
      | none => exact Option.Rel.none
      | some s' => simp [h₁, h₂] at heq
  | some s =>
      cases h₂ : di'.snapshotByGuid g' with
      | none => simp [h₁, h₂] at heq
      | some s' =>
          rw [h₁, h₂] at heq
          exact Option.Rel.some (Option.some.inj heq)

theorem alike_changeGuid {n n' : Guid} (h : di.Alike di') (hg : guidEq g g') (hn : guidEq n n') :
    (di.changeGuid g n).Alike (di'.changeGuid g' n') := by
  unfold DiskImagesData.Alike
  rw [di.changeGuid_fold, di'.changeGuid_fold, h, guidEq_iff_fold.mp hg, guidEq_iff_fold.mp hn]

theorem alike_dropAt (h : di.Alike di') (i j : ℕ) : (di.dropAt i j).Alike (di'.dropAt i j) := by
  unfold DiskImagesData.Alike
  rw [di.dropAt_fold, di'.dropAt_fold, h]

theorem alike_mergeGuid {s s' : SnapshotData} (h : di.Alike di') (hg : guidEq g g')
    (hs : s.fold = s'.fold) : (di.mergeGuid g s).Alike (di'.mergeGuid g' s') := by
  unfold DiskImagesData.Alike
  rw [di.mergeGuid_fold, di'.mergeGuid_fold, h, guidEq_iff_fold.mp hg, hs]

theorem alike_toXml (h : di.Alike di') : di.toXml.Alike di'.toXml := by
  unfold DiskImagesData.Alike
  rw [di.toXml_fold, di'.toXml_fold, h]

theorem alike_pushImage {i i' : ImageData} (h : di.Alike di') (hi : i.fold = i'.fold) :
    (di.pushImage i).Alike (di'.pushImage i') := by
  have h₁ := congrArg DiskImagesData.images h
  unfold DiskImagesData.Alike DiskImagesData.fold at *
  simp_all [DiskImagesData.pushImage]

theorem alike_pushSnapshot {s s' : SnapshotData} (h : di.Alike di') (hs : s.fold = s'.fold) :
    (di.pushSnapshot s).Alike (di'.pushSnapshot s') := by
  unfold DiskImagesData.Alike DiskImagesData.fold at *
  simp_all [DiskImagesData.pushSnapshot]

theorem alike_setTop (h : di.Alike di') (hg : guidEq g g') :
    DiskImagesData.Alike { di with topGuid := some g } { di' with topGuid := some g' } := by
  unfold DiskImagesData.Alike DiskImagesData.fold at *
  simp_all [guidEq_iff_fold.mp hg]

theorem SnapshotData.fold_parent {s s' : SnapshotData} (h : s.fold = s'.fold) :
    guidEq s.parentGuid s'.parentGuid :=
  guidEq_iff_fold.mpr (congrArg SnapshotData.parentGuid h)

theorem SnapshotData.fold_guid {s s' : SnapshotData} (h : s.fold = s'.fold) :
    guidEq s.guid s'.guid :=
  guidEq_iff_fold.mpr (congrArg SnapshotData.guid h)

end Alike

/-! ## `di.c` -/

section Edits

variable {g g' : Guid}

theorem same_addImageEntry (hg : guidEq g g') (p : Path) :
    Same (addImageEntry o p g) (addImageEntry o p g') := by
  refine (same_guardParam (isValidGuid_congr hg)).bind fun _ _ _ => same_alloc.bind fun _ _ _ =>
    same_alloc.bind fun _ _ _ => same_alloc.bind fun _ _ _ => same_modifyDi fun di di' h => ?_
  exact alike_pushImage h (by simp [ImageData.fold, guidEq_iff_fold.mp hg])

theorem same_addSnapshotEntry {p p' : Guid} (hg : guidEq g g') (hp : guidEq p p') (b : Bool) :
    Same (addSnapshotEntry o g p b) (addSnapshotEntry o g' p' b) := by
  refine (same_guardParam (isValidGuid_congr hg)).bind fun _ _ _ =>
    (same_guardParam (isValidGuid_congr hp)).bind fun _ _ _ => same_alloc.bind fun _ _ _ =>
      same_alloc.bind fun _ _ _ => same_alloc.bind fun _ _ _ => same_modifyDi fun di di' h => ?_
  exact alike_pushSnapshot h
    (by simp [SnapshotData.fold, guidEq_iff_fold.mp hg, guidEq_iff_fold.mp hp])

theorem same_diAddImage {p p' : Guid} (hg : guidEq g g') (hp : guidEq p p') (f : Path) :
    Same (diAddImage o f g p) (diAddImage o f g' p') :=
  same_alloc.bind fun _ _ _ => (same_addImageEntry hg f).bind fun _ _ _ =>
    (same_addSnapshotEntry hg hp false).bind fun _ _ _ => same_modifyDi fun _ _ h =>
      alike_setTop h hg

/-- The edits that do not keep the guid they are given are the same run. -/
theorem diRemoveImage_congr (hg : guidEq g g') (b : Bool) :
    diRemoveImage o g b = diRemoveImage o g' b := by
  unfold diRemoveImage
  congr 1
  funext di
  rw [di.findSnapshotByGuid_congr hg, di.snapshotByGuid_congr hg, di.findImageIdxByGuid_congr hg,
    di.findImageByGuid_congr hg, di.getChildCountByUuid_congr hg, di.isTop_congr hg]

theorem same_diRemoveImage (hg : guidEq g g') :
    Same (diRemoveImage o g false) (diRemoveImage o g' false) := by
  refine same_getDi.bind fun di di' h => ?_
  refine (same_orParam_eq (alike_findSnapshot h hg)).bind fun i i' hi => ?_
  refine (same_orParam (alike_snapshot h hg)).bind fun s s' hs => ?_
  refine (same_orParam_eq (alike_findImageIdx h hg)).bind fun j j' hj => ?_
  refine (same_orParam_eq (alike_findImage h hg)).bind fun f f' hf => ?_
  have hparent := SnapshotData.fold_parent hs
  subst hi hj hf
  refine (same_guardParam (by rw [alike_childCount h hg])).bind fun _ _ _ => ?_
  refine (same_guardParam (by rw [guidEq_congr hparent (guidEq_refl noneUuid)])).bind
    fun _ _ _ => ?_
  exact same_alloc.bind fun _ _ _ => Sim.bind (same_modifyDi fun _ _ h => alike_dropAt h i j)
    fun _ _ _ => Sim.ret rfl

theorem checkSnapshotMount_congr (hg : guidEq g g') (p : Path) (b : Bool) :
    checkSnapshotMount o g p b = checkSnapshotMount o g' p b := by
  unfold checkSnapshotMount
  congr 1
  funext di
  rw [di.isTop_congr hg]

theorem same_checkSnapshotMount (hg : guidEq g g') (p : Path) {b b' : Bool} (hb : b = b') :
    Same (checkSnapshotMount o g p b) (checkSnapshotMount o g' p b') := by
  subst hb
  refine same_getDi.bind fun di di' h => Sim.ite (by rw [alike_isTop h hg]) (Sim.ret rfl) ?_
  refine same_tick.bind fun t t' ht => ?_
  subst ht
  cases o.mounted t p b with
  | none => exact Sim.ret rfl
  | some c => exact Sim.raise

theorem same_diMergeImage (hg : guidEq g g') : Same (diMergeImage o g) (diMergeImage o g') := by
  refine same_getDi.bind fun di di' h => ?_
  refine (same_orParam_eq (alike_findSnapshot h hg)).bind fun i i' hi => ?_
  refine (same_orParam (alike_snapshot h hg)).bind fun s s' hs => ?_
  refine (same_orParam_eq (alike_findImageIdx h hg)).bind fun j j' hj => ?_
  refine (same_orParam_eq (alike_findImage h hg)).bind fun f f' hf => ?_
  have hparent := SnapshotData.fold_parent hs
  subst hi hj hf
  refine (same_guardParam (by rw [alike_childCount h hparent])).bind fun _ _ _ => ?_
  refine (same_guardParam (by rw [guidEq_congr hparent (guidEq_refl noneUuid)])).bind
    fun _ _ _ => ?_
  refine same_alloc.bind fun _ _ _ => Sim.bind (same_modifyDi fun _ _ h =>
    alike_dropAt (alike_mergeGuid h hg hs) i j) fun _ _ _ => ?_
  have htop : guidEq s.guid topdeltaUuid = guidEq s'.guid topdeltaUuid :=
    guidEq_congr (SnapshotData.fold_guid hs) (guidEq_refl _)
  refine Sim.ite (by rw [htop]) (Sim.bind (same_modifyDi fun _ _ h =>
    alike_changeGuid h hparent (guidEq_refl _)) fun _ _ _ => Sim.ret rfl) (Sim.ret rfl)

end Edits

/-! ## `xml.c` and the files -/

theorem alike_top {di di' : DiskImagesData} (h : di.Alike di') :
    Option.Rel (fun t t' => guidEq t t' = true) di.topGuid di'.topGuid := by
  have heq : di.topGuid.map fold = di'.topGuid.map fold := congrArg DiskImagesData.topGuid h
  cases h₁ : di.topGuid with
  | none =>
      cases h₂ : di'.topGuid with
      | none => exact Option.Rel.none
      | some t' => simp [h₁, h₂] at heq
  | some t =>
      cases h₂ : di'.topGuid with
      | none => simp [h₁, h₂] at heq
      | some t' =>
          rw [h₁, h₂] at heq
          exact Option.Rel.some (guidEq_iff_fold.mpr (Option.some.inj heq))

theorem same_convert : Same convertDiskDescriptor convertDiskDescriptor := by
  refine same_getDi.bind fun di di' h => ?_
  have hvol : di.vol = di'.vol := (DiskImagesData.mk.inj h).2.2.2.2.2.2
  refine Sim.ite (by rw [hvol]) (Sim.ret rfl) ?_
  cases htop : di.topGuid with
  | none =>
      have ht := alike_top h
      rw [htop] at ht
      generalize di'.topGuid = t' at ht
      cases ht
      exact Sim.raise
  | some t =>
      have ht := alike_top h
      rw [htop] at ht
      generalize di'.topGuid = t' at ht
      cases ht with
      | some ht =>
          refine Sim.ite (by rw [guidEq_congr ht (guidEq_refl topdeltaUuid)]) (Sim.ret rfl) ?_
          refine Sim.ite ?_ Sim.raise (same_modifyDi fun _ _ h =>
            alike_changeGuid h ht (guidEq_refl _))
          rw [alike_findImage h (guidEq_refl _), alike_findSnapshot h (guidEq_refl _)]

theorem same_store (tmp : Bool) : Same (storeDiskdescriptor o tmp) (storeDiskdescriptor o tmp) := by
  refine same_convert.bind fun _ _ _ => (same_call _).bind fun _ _ _ => Sim.update fun s t h => ?_
  cases tmp with
  | true => exact ⟨h.di, h.conf, congrArg some (alike_toXml h.di), h.store, h.time⟩
  | false => exact ⟨h.di, alike_toXml h.di, h.confTmp, h.store, h.time⟩

theorem same_renameConf : Same (renameConf o) (renameConf o) := by
  refine same_try.bind fun b b' hb => Sim.look.bind fun s t h => ?_
  subst hb
  have htmp := h.confTmp
  cases h₁ : s.confTmp with
  | none =>
      cases h₂ : t.confTmp with
      | none => exact Sim.ret rfl
      | some x' => simp [h₁, h₂] at htmp
  | some x =>
      cases h₂ : t.confTmp with
      | none => simp [h₁, h₂] at htmp
      | some x' =>
          rw [h₁, h₂] at htmp
          refine Sim.ite Iff.rfl (fun _ _ _ => ⟨rfl, ?_⟩) (Sim.ret rfl)
          exact ⟨h.di, Option.some.inj htmp, rfl, h.store, h.time⟩

theorem same_unlinkConfTmp : Same (unlinkConfTmp o) (unlinkConfTmp o) := by
  refine same_try.bind fun b b' hb => Sim.ite (by rw [hb]) ?_ (Sim.ret rfl)
  exact Sim.update fun _ _ h => ⟨h.di, h.conf, rfl, h.store, h.time⟩

theorem same_unlinkFile (p : Path) : Same (unlinkFile o p) (unlinkFile o p) := by
  refine same_try.bind fun b b' hb => Sim.look.bind fun s t h => ?_
  subst hb
  rw [h.store]
  refine Sim.ite Iff.rfl (fun _ _ _ => ⟨rfl, ?_⟩) (Sim.ret rfl)
  exact ⟨h.di, h.conf, h.confTmp, rfl, h.time⟩

theorem same_createSnapshotDelta (e : Sysexit) (p : Path) :
    Same (createSnapshotDelta o e p) (createSnapshotDelta o e p) := by
  refine same_tick.bind fun t t' ht => Sim.look.bind fun w w' hw => ?_
  subst ht
  refine Sim.ite (by rw [hw.store]) Sim.raise (Sim.update fun s s' h => ?_)
  exact ⟨h.di, h.conf, h.confTmp, by simp only [h.store], h.time⟩

theorem same_findDev : Same (findDev o) (findDev o) :=
  (same_call _).bind fun _ _ _ => Sim.look.bind fun _ _ h => Sim.ret (by rw [h.store])

theorem same_orUnlink {x : DdM Unit} (h : Same x x) (p : Path) :
    Same (orUnlink o p x) (orUnlink o p x) := by
  refine (same_attempt h).bind fun r r' hr => ?_
  subst hr
  cases r with
  | ok _ => exact Sim.ret rfl
  | error e => exact (same_unlinkFile p).bind fun _ _ _ => Sim.raise

theorem same_setStack (f : List Path → List Path) : Same (setStack f) (setStack f) :=
  Sim.update fun _ _ h => ⟨h.di, h.conf, h.confTmp, congrArg (·.restack f) h.store, h.time⟩

theorem same_mergeIoctls (a : MergeArgs) : Same (mergeIoctls o a) (mergeIoctls o a) := by
  have hdrop : Same (dropLevel o a.endLevel) (dropLevel o a.endLevel) :=
    (same_call _).bind fun _ _ _ => same_setStack _
  have hreplace (p : Path) : Same (replaceDelta o a.startLevel p) (replaceDelta o a.startLevel p) :=
    same_callRc.bind fun _ _ _ => same_setStack _
  unfold mergeIoctls
  split
  · exact (same_call _).bind fun _ _ _ => hdrop
  · refine Sim.ite Iff.rfl (same_orUnlink ?_ _) ?_
    · exact (hreplace _).bind fun _ _ _ => (same_call _).bind fun _ _ _ => hdrop
    · exact (same_call _).bind fun _ _ _ => (hreplace _).bind fun _ _ _ => hdrop

theorem same_mergeImage (a : MergeArgs) : Same (mergeImage o a) (mergeImage o a) := by
  refine same_tick.bind fun t t' ht => Sim.look.bind fun s s' h => ?_
  subst ht
  rw [h.store]
  refine Sim.bind (V := Eq) (fun _ _ _ => ⟨rfl, h.di, h.conf, h.confTmp, rfl, h.time⟩)
    fun _ _ _ => ?_
  split
  · exact Sim.raise
  · exact Sim.ite Iff.rfl (same_mergeIoctls a) (Sim.ret rfl)

/-! ## Merge -/

theorem same_mergeLevels (c p : Path) : Same (mergeLevels o c p) (mergeLevels o c p) := by
  refine Sim.look.bind fun s t h => ?_
  rw [h.store]
  split
  · exact Sim.ret rfl
  · refine (same_call _).bind fun _ _ _ => (same_call _).bind fun _ _ _ =>
      same_callRc.bind fun _ _ _ => same_callRc.bind fun _ _ _ => ?_
    split
    · exact Sim.ite Iff.rfl (Sim.ret rfl) Sim.raise
    · exact Sim.ret rfl
    · exact Sim.raise

theorem alike_setFile {di di' : DiskImagesData} (h : di.Alike di') (i : ℕ) (p : Path) :
    DiskImagesData.Alike { di with images := di.images.modify i fun j => { j with file := p } }
      { di' with images := di'.images.modify i fun j => { j with file := p } } := by
  have hmap : ∀ l : List ImageData,
      (l.modify i fun j => { j with file := p }).map ImageData.fold =
        (l.map ImageData.fold).modify i fun j => { j with file := p } := by
    intro l
    induction l generalizing i with
    | nil => cases i <;> rfl
    | cons j l ih =>
        cases i with
        | zero => rfl
        | succ i => simp [List.modify_succ_cons, ih]
  have himages := (DiskImagesData.mk.inj h).2.2.2.1
  unfold DiskImagesData.Alike DiskImagesData.fold at *
  simp only [DiskImagesData.mk.injEq] at h ⊢
  obtain ⟨h₁, h₂, h₃, h₄, h₅, h₆, h₇⟩ := h
  exact ⟨h₁, h₂, h₃, by rw [hmap, hmap, h₄], h₅, h₆, h₇⟩

theorem same_renewImage {g g' : Guid} (hg : guidEq g g') (p : Path) :
    Same (renewImage o g p) (renewImage o g' p) := by
  refine (same_call _).bind fun _ _ _ => same_getDi.bind fun di di' h => ?_
  refine (same_orParam_eq (alike_findImageIdx h hg)).bind fun i i' hi => ?_
  refine (same_orParam_eq (alike_findImage h hg)).bind fun f f' hf => ?_
  subst hi hf
  exact (same_modifyDi fun _ _ h => alike_setFile h _ _).bind fun _ _ _ =>
    (same_store true).bind fun _ _ _ => same_unlinkFile f

theorem same_mergeDown {g g' : Guid} (hg : guidEq g g') (n : Option Path) :
    Same (mergeDown o g n) (mergeDown o g' n) := by
  refine same_getDi.bind fun di di' h => ?_
  refine (same_orParam (alike_snapshot h hg)).bind fun c c' hc => ?_
  refine (same_orParam_eq (alike_findImage h hg)).bind fun f f' hf => ?_
  subst hf
  have hparent := SnapshotData.fold_parent hc
  have hnone : decide (c.parentGuid ≠ noneUuid) = decide (c'.parentGuid ≠ noneUuid) :=
    decide_eq_decide.mpr (not_congr (eq_noneUuid_congr hparent))
  refine (same_guardParam hnone).bind fun _ _ _ => ?_
  refine (same_orParam_eq (alike_findImage h hparent)).bind fun pf pf' hpf => ?_
  subst hpf
  refine (same_orParam (alike_snapshot h hparent)).bind fun p p' hp => ?_
  have hbase : guidEq p.parentGuid noneUuid = guidEq p'.parentGuid noneUuid :=
    guidEq_congr (SnapshotData.fold_parent hp) (guidEq_refl _)
  have hraw : di.raw = di'.raw := (DiskImagesData.mk.inj h).2.2.1
  refine (same_guardParam (by rw [alike_childCount h hparent])).bind fun _ _ _ => ?_
  refine same_findDev.bind fun _ _ _ => (same_mergeLevels f pf).bind fun l l' hl => ?_
  subst hl
  refine same_alloc.bind fun _ _ _ => same_alloc.bind fun _ _ _ => ?_
  refine (same_checkSnapshotMount hparent pf (congrArg SnapshotData.temporary hp)).bind
    fun _ _ _ => ?_
  refine (same_checkSnapshotMount hg f (congrArg SnapshotData.temporary hc)).bind fun _ _ _ => ?_
  refine (same_diMergeImage hg).bind fun df df' hdf => ?_
  subst hdf
  refine (same_store true).bind fun _ _ _ => Sim.look.bind fun s t hst => ?_
  have hargs : ∀ a a' : MergeArgs, a = a' → Same (mergeImage o a) (mergeImage o a') := by
    rintro a _ rfl
    exact same_mergeImage a
  exact (hargs _ _ (by rw [hst.store, hraw, hbase])).bind fun _ _ _ => Sim.ret rfl

theorem same_mergeSnapshotByGuid {g g' : Guid} (hg : guidEq g g') (n : Option Path) :
    Same (mergeSnapshotByGuid o g n) (mergeSnapshotByGuid o g' n) := by
  refine (same_mergeDown hg n).bind fun r r' hr => ?_
  subst hr
  obtain ⟨df, -⟩ := r
  -- what follows the merge into a new file, or into the parent
  have hend : ∀ r : Bool, Same
      (do
        if ← renameConf o then do
          let gone ← unlinkFile o df
          if r && gone then pure () else throw (.exit .unlink)
        else throw (.exit .rename))
      (do
        if ← renameConf o then do
          let gone ← unlinkFile o df
          if r && gone then pure () else throw (.exit .unlink)
        else throw (.exit .rename)) := by
    intro r
    refine same_renameConf.bind fun b b' hb => Sim.ite (by rw [hb]) ?_ Sim.raise
    refine (same_unlinkFile df).bind fun u u' hu => ?_
    subst hu
    exact Sim.ite Iff.rfl (Sim.ret rfl) Sim.raise
  cases n with
  | none => exact hend true
  | some p =>
      refine (same_renewImage hg p).bind fun r r' hr => ?_
      subst hr
      exact hend r

/-! ## Switch -/

theorem resetTopDelta_congr {g g' : Guid} (hg : guidEq g g') :
    resetTopDelta o g = resetTopDelta o g' := by
  unfold resetTopDelta
  simp only [fun di : DiskImagesData => di.changeGuid_congr hg topdeltaUuid]

theorem same_leaveTop {t t' : Guid} {b : Bool} {n n' : Option Guid} (ht : guidEq t t')
    (hn : Option.Rel (fun g g' => guidEq g g' = true) n n') :
    Same (leaveTop o t b n) (leaveTop o t' b n') := by
  unfold leaveTop
  refine Sim.ite Iff.rfl ?_ ?_
  · cases hn with
    | none => exact Sim.ret rfl
    | @some g g' hg =>
        refine (same_guardParam (isValidGuid_congr hg)).bind fun _ _ _ => same_getDi.bind
          fun di di' h => (same_guardParam (by rw [alike_findSnapshot h hg])).bind fun _ _ _ => ?_
        exact Sim.bind (same_modifyDi fun _ _ h => alike_changeGuid h ht hg) fun _ _ _ =>
          Sim.ret rfl
  · refine same_findDev.bind fun r r' hr => (same_guardParam (by rw [hr])).bind fun _ _ _ => ?_
    exact (same_diRemoveImage ht).bind fun _ _ hf => Sim.ret (congrArg some hf)

theorem alike_deltaName {di di' : DiskImagesData} (h : di.Alike di') (d : Option Path) (u : Guid) :
    deltaName di d u = deltaName di' d u := by
  have himages : (di.images.map ImageData.fold) = di'.images.map ImageData.fold :=
    congrArg DiskImagesData.images h
  have hhead : di.images.head?.map ImageData.file = di'.images.head?.map ImageData.file := by
    have := congrArg (fun l => l.head?.map ImageData.file) himages
    simpa [Function.comp_def, ImageData.fold] using this
  unfold deltaName
  rw [hhead]

end Calls

end Ploop.Dd
