import Ploop.Snapshot.Edits

/-!
# Cleaning up temporary snapshots

`merge_temporary_snapshots` goes through the array of snapshots, and starts again whenever one of
them is gone.
-/

namespace Ploop.Dd

open Program Storage

/-! ## One turn of the loop -/

section Turns

variable (o : Outside)

/-- The turn for the `i`th of `n` snapshots: the place to go on from. -/
def turnFor (n i : ℕ) (s : SnapshotData) : DdM (Option ℕ) :=
  if s.temporary then do
    if ← isSnapshotInUse o s.guid then pure (some (i + 1))
    else do
      doDeleteSnapshot o s.guid
      if n ≠ (← getDi).snapshots.length then pure (some 0) else pure (some (i + 1))
  else pure (some (i + 1))

/-- The `i`th turn of the loop, which ends at the end of the array. -/
def temporaryTurn (i : ℕ) : DdM (Option ℕ) := do
  let di ← getDi
  match di.snapshots[i]? with
  | none => pure none
  | some s => turnFor o di.snapshots.length i s

/-- One turn goes from a place in the array and a world to the next. -/
def Turn (p q : ℕ × World) : Prop := temporaryTurn o p.1 p.2 = .ok (some q.1) q.2

/-- The loop comes to the `i`th snapshot in this world. -/
def Comes (s : World) (i : ℕ) (t : World) : Prop :=
  Relation.ReflTransGen (Turn o) (0, s) (i, t)

/-- The loop comes to delete `guid`, of a temporary snapshot that is not in use. -/
def Deletes (s : World) (guid : Guid) (t : World) : Prop :=
  ∃ i u x, Comes o s i u ∧ u.di.snapshots[i]? = some x ∧ x.temporary = true ∧
    isSnapshotInUse o x.guid u = .ok false t ∧ guid = x.guid

/-- The snapshot is temporary already and stays as it has several children, and there is no
device. -/
def NothingToDo (guid : Guid) (t : World) : Prop :=
  ∃ snap, t.di.snapshotByGuid guid = some snap ∧ snap.temporary = true ∧
    2 ≤ t.di.getChildCountByUuid guid ∧ o.fails t.time = false ∧ t.store.kernel = none

/-- The snapshot has an image, and that is not in use. -/
def Unused (di : DiskImagesData) (x : SnapshotData) : Prop :=
  ∃ fname, di.findImageByGuid x.guid = some fname ∧ o.inUse 0 fname = false

/-- The clean-up ends, it fails only where a deletion or a merge has failed, and when it does not
fail every unused temporary snapshot left has several children. -/
structure CleansUp (s : World) : Prop where
  ends : ∃ i t, Comes o s i t ∧ ∀ q, ¬ Turn o (i, t) q
  failed : ∀ e s', mergeTemporarySnapshots o s = .error e s' →
    ∃ guid t, Deletes o s guid t ∧ doDeleteSnapshot o guid t = .error e s' ∧
      ¬ NothingToDo o guid t
  left : ∀ s', mergeTemporarySnapshots o s = .ok () s' → ∀ x ∈ s'.di.snapshots,
    x.temporary = true → Unused o s'.di x → 2 ≤ s'.di.getChildCountByUuid x.guid

theorem mergeTemporaryFrom_succ (n i : ℕ) :
    mergeTemporaryFrom o (n + 1) i = temporaryTurn o i >>= fun next =>
      match next with
      | none => pure ()
      | some j => mergeTemporaryFrom o n j := by
  rw [mergeTemporaryFrom, temporaryTurn, bind_assoc]
  congr 1
  funext di
  cases di.snapshots[i]? with
  | none => rfl
  | some x =>
      dsimp only
      rw [turnFor]
      split
      case isFalse => rfl
      case isTrue =>
        rw [bind_assoc]
        congr 1
        funext used
        cases used with
        | true => rfl
        | false =>
            simp only [Bool.false_eq_true, if_false, bind_assoc]
            congr 1
            funext _
            congr 1
            funext di'
            split <;> rfl

end Turns

/-! ## What a deletion leaves of the descriptor -/

section Descriptors

variable {a b g n : Guid} {di di' di'' : DiskImagesData}

theorem rename_guidEq (h : guidEq a b) : guidEq (DiskImagesData.rename g n a)
    (DiskImagesData.rename g n b) := by
  have hsame : guidEq a g = guidEq b g := guidEq_congr h (guidEq_refl g)
  unfold DiskImagesData.rename
  rw [hsame]
  split
  · exact guidEq_refl n
  · exact h

/-- A new name tells no two guids together that were apart. -/
theorem rename_guidEq_iff (ha : guidEq a n = false) (hb : guidEq b n = false) :
    guidEq (DiskImagesData.rename g n a) (DiskImagesData.rename g n b) = guidEq a b := by
  unfold DiskImagesData.rename
  by_cases hag : guidEq a g = true <;> by_cases hbg : guidEq b g = true
  · rw [if_pos hag, if_pos hbg, guidEq_refl]
    rw [guidEq_comm] at hbg
    exact (guidEq_trans hag hbg).symm
  · rw [if_pos hag, if_neg hbg, guidEq_comm, hb, guidEq_congr hag (guidEq_refl b), guidEq_comm]
    exact ((Bool.not_eq_true _).mp hbg).symm
  · rw [if_neg hag, if_pos hbg, ha, guidEq_congr (guidEq_refl a) hbg]
    exact ((Bool.not_eq_true _).mp hag).symm
  · rw [if_neg hag, if_neg hbg]

theorem find_congr {α : Type} {p q : α → Bool} {l : List α} (h : ∀ x ∈ l, p x = q x) :
    l.find? p = l.find? q := by
  induction l with
  | nil => rfl
  | cons x l ih =>
      rw [List.find?_cons, List.find?_cons, h x List.mem_cons_self,
        ih fun y hy => h y (List.mem_cons_of_mem x hy)]

/-- The snapshots are the same ones: a mark is new only on one with several children, no children
are lost, and the images are those they were. -/
structure Kept (di di' : DiskImagesData) : Prop where
  length : di'.snapshots.length = di.snapshots.length
  entry : ∀ (j : ℕ) (x' : SnapshotData), di'.snapshots[j]? = some x' →
    ∃ x, di.snapshots[j]? = some x ∧
    (x'.temporary = true → x.temporary = true ∨ 2 ≤ di'.getChildCountByUuid x'.guid) ∧
    di.getChildCountByUuid x.guid ≤ di'.getChildCountByUuid x'.guid ∧
    di'.findImageByGuid x'.guid = di.findImageByGuid x.guid

theorem Kept.refl (di : DiskImagesData) : Kept di di :=
  ⟨rfl, fun _ x h => ⟨x, h, Or.inl, le_rfl, rfl⟩⟩

theorem Kept.trans (h : Kept di di') (h' : Kept di' di'') : Kept di di'' where
  length := h'.length.trans h.length
  entry j x'' hx'' := by
    obtain ⟨x', hx', hmark', hcount', himage'⟩ := h'.entry j x'' hx''
    obtain ⟨x, hx, hmark, hcount, himage⟩ := h.entry j x' hx'
    refine ⟨x, hx, fun ht => ?_, hcount.trans hcount', himage'.trans himage⟩
    rcases hmark' ht with ht' | hmany
    · exact (hmark ht').imp_right fun hmany => hmany.trans hcount'
    · exact Or.inr hmany

theorem kept_changeGuid (himage : di.findImageByGuid n = none)
    (hsnap : di.findSnapshotByGuid n = none) : Kept di (di.changeGuid g n) where
  length := List.length_map _
  entry j x' hx' := by
    change (di.snapshots.map _)[j]? = _ at hx'
    rw [List.getElem?_map] at hx'
    obtain ⟨x, hx, rfl⟩ := Option.map_eq_some_iff.mp hx'
    have hguid : guidEq x.guid n = false := by
      have hall := List.findIdx?_eq_none_iff.mp hsnap
      exact hall x (List.mem_of_getElem? hx)
    refine ⟨x, hx, Or.inl, ?_, ?_⟩
    · unfold DiskImagesData.getChildCountByUuid DiskImagesData.changeGuid
      dsimp only
      rw [List.countP_map]
      apply List.countP_mono_left
      intro s _ hs
      exact rename_guidEq hs
    · unfold DiskImagesData.findImageByGuid DiskImagesData.changeGuid
      dsimp only
      rw [List.find?_map, Option.map_map]
      have hall : ∀ i ∈ di.images, guidEq n i.guid = false := by
        have hnone := Option.map_eq_none_iff.mp himage
        exact fun i hi => by simpa using List.find?_eq_none.mp hnone i hi
      have hfind : (di.images.find? ((fun i => guidEq (DiskImagesData.renameSnapshot g n x).guid
          i.guid) ∘ DiskImagesData.renameImage g n)) =
          di.images.find? fun i => guidEq x.guid i.guid := by
        apply find_congr
        intro i hi
        have hi' := hall i hi
        rw [guidEq_comm] at hi'
        exact rename_guidEq_iff hguid hi'
      rw [hfind]
      rfl

theorem countP_modify {α : Type} {p : α → Bool} {f : α → α} (hf : ∀ x, p (f x) = p x) (l : List α)
    (i : ℕ) : (l.modify i f).countP p = l.countP p := by
  induction l generalizing i with
  | nil => rw [List.modify_nil]
  | cons x l ih =>
      cases i with
      | zero => rw [List.modify_zero_cons, List.countP_cons, List.countP_cons, hf]
      | succ i => rw [List.modify_succ_cons, List.countP_cons, List.countP_cons, ih]

theorem kept_setTemporary (hmany : 2 ≤ di.getChildCountByUuid g) : Kept di (di.setTemporary g) := by
  unfold DiskImagesData.setTemporary
  rcases hi : di.findSnapshotByGuid g with _ | i
  · exact Kept.refl di
  obtain ⟨hlt, hfound, -⟩ := List.findIdx?_eq_some_iff_getElem.mp hi
  let mark := fun s : SnapshotData => { s with temporary := true }
  change Kept di { di with snapshots := di.snapshots.modify i mark }
  have hcount : ∀ a, DiskImagesData.getChildCountByUuid
      { di with snapshots := di.snapshots.modify i mark } a = di.getChildCountByUuid a :=
    fun a => countP_modify (p := fun s : SnapshotData => guidEq s.parentGuid a) (f := mark)
      (fun _ => rfl) _ _
  refine ⟨List.length_modify _ _ _, fun j x' hx' => ?_⟩
  change (di.snapshots.modify i mark)[j]? = _ at hx'
  rw [List.getElem?_modify] at hx'
  obtain ⟨x, hx, rfl⟩ := Option.map_eq_some_iff.mp hx'
  refine ⟨x, hx, ?_⟩
  rw [hcount]
  split
  case isTrue hij =>
    subst hij
    obtain ⟨_, rfl⟩ := List.getElem?_eq_some_iff.mp hx
    refine ⟨fun _ => Or.inr ?_, le_rfl, rfl⟩
    have hsame : di.getChildCountByUuid di.snapshots[i].guid = di.getChildCountByUuid g := by
      unfold DiskImagesData.getChildCountByUuid
      congr 1
      funext s
      exact guidEq_congr (guidEq_refl _) hfound
    exact hmany.trans_eq hsame.symm
  case isFalse => exact ⟨Or.inl, le_rfl, rfl⟩

end Descriptors

/-! ## A deletion -/

section Deletion

variable {o : Outside} {α : Type} {d : DiskImagesData} {guid : Guid}

/-- The number of snapshots is the same. -/
def SameLength (s s' : World) : Prop := s'.di.snapshots.length = s.di.snapshots.length

instance : Timeless SameLength where
  refl _ := rfl
  trans _ _ _ h h' := h'.trans h
  tick _ := rfl

theorem lessened {x : DdM α} (h : Keeps SameLength x) :
    Triple (OneLess d) x (fun _ => OneLess d) (fun _ => True) := by
  apply Triple.start
  intro s hs
  exact (h s).conseq (fun _ h => h) (fun _ t ht => (congrArg (· + 1) ht).trans hs)
    fun _ _ => True.intro

theorem sameLength_convert : Keeps SameLength convertDiskDescriptor := by
  apply keeps_getDi.bind
  intro di
  apply Keeps.ite (Keeps.pure _)
  cases di.topGuid with
  | none => exact Keeps.throw _
  | some top =>
      apply Keeps.ite (Keeps.pure _)
      apply Keeps.ite (Keeps.throw _)
      exact Keeps.modify fun s => List.length_map _

theorem sameLength_store (tmp : Bool) : Keeps SameLength (storeDiskdescriptor o tmp) := by
  apply sameLength_convert.bind
  intro _
  apply (keeps_call _).bind
  intro _
  apply Keeps.modify
  intro s
  cases tmp <;> rfl

theorem sameDi_checkMount (fname : Path) (temporary : Bool) :
    Keeps SameDi (checkSnapshotMount o guid fname temporary) := by
  apply keeps_getDi.bind
  intro di
  apply Keeps.ite (Keeps.pure _)
  apply keeps_tick.bind
  intro t
  cases o.mounted t fname temporary with
  | none => exact Keeps.pure _
  | some c => exact Keeps.throw _

theorem sameLength_set {s s' : World} (h : SameLength s s') :
    Triple (fun t => t = s) (set s' : DdM PUnit) (fun _ t => SameLength s t)
      (fun t => SameLength s t) :=
  fun _ _ => h

theorem sameLength_unlinkFile (p : Path) : Keeps SameLength (unlinkFile o p) := by
  apply keeps_try.bind
  intro ok s
  apply Triple.look
  rintro t rfl
  apply Triple.start
  rintro u rfl
  split
  · exact (sameLength_set rfl).bind fun _ => Triple.ret fun _ h => h
  · exact Triple.ret fun _ h => h ▸ rfl

theorem sameLength_renameConf : Keeps SameLength (renameConf o) := by
  apply keeps_try.bind
  intro ok s
  apply Triple.look
  rintro t rfl
  cases t.confTmp with
  | none => exact Triple.ret fun _ h => h ▸ rfl
  | some x =>
      dsimp only
      split
      · exact (sameLength_set rfl).bind fun _ => Triple.ret fun _ h => h
      · exact Triple.ret fun _ h => h ▸ rfl

theorem sameLength_mergeImage (a : MergeArgs) : Keeps SameLength (mergeImage o a) := by
  apply keeps_tick.bind
  intro time s
  apply Triple.look
  rintro t rfl
  dsimp only
  have hset : SameLength t { t with store := t.store.write (o.merge time a t.store).2 } := rfl
  apply (sameLength_set hset).bind
  intro _
  cases (o.merge time a t.store).1 with
  | none =>
      dsimp only
      split
      · apply Triple.start
        intro u hu
        have hkeeps : Keeps SameLength (mergeIoctls o a) :=
          keeps_mergeIoctls (fun f => Keeps.modify fun _ => rfl) fun _ => sameLength_unlinkFile
        exact (hkeeps u).conseq (fun _ h => h) (fun _ _ h => h.trans hu) fun _ h => h.trans hu
      · exact Triple.ret fun _ h => h
  | some c => exact Triple.raise fun _ h => h

theorem sameDi_mergeLevels (child parent : Path) : Keeps SameDi (mergeLevels o child parent) := by
  apply Keeps.get.bind
  intro s
  cases s.store.kernel with
  | none => exact Keeps.pure _
  | some stack =>
      apply (keeps_call _).bind
      intro _
      apply (keeps_call _).bind
      intro _
      apply keeps_callRc.bind
      intro _
      apply keeps_callRc.bind
      intro _
      split
      · exact Keeps.ite (Keeps.pure _) (Keeps.throw _)
      · exact Keeps.pure _
      · exact Keeps.throw _

theorem sure {β : Type} {x : DdM β} (h : Keeps SameDi x) :
    Triple (fun s => s.di = d) x (fun _ s => s.di = d) (fun _ => True) :=
  (checked h).conseq (fun _ h => h) (fun _ _ h => h) fun _ _ => True.intro

/-- What remains after the checks of the place of the snapshot. -/
theorem removeLeaf_spec (temporary : Bool) :
    Triple (fun s => s.di = d) (do
      let fname ← orParam (d.findImageByGuid guid)
      checkSnapshotMount o guid fname temporary
      let fname ← diRemoveImage o guid true
      storeDiskdescriptor o false
      if ← unlinkFile o fname then pure () else throw (.exit .unlink))
      (fun _ => OneLess d) (fun _ => True) := by
  apply (sure (keeps_orParam _)).bind
  intro fname
  apply (sure (sameDi_checkMount _ _)).bind
  intro _
  apply ((diRemoveImage_spec guid true).conseq (fun _ h => h) (fun _ _ h => h)
    fun _ _ => True.intro).bind
  intro fname
  apply (lessened (sameLength_store false)).bind
  intro _
  apply (lessened (sameLength_unlinkFile fname)).bind
  intro gone
  cases gone with
  | true => exact Triple.ret fun _ h => h
  | false => exact Triple.raise fun _ _ => True.intro

/-- One snapshot less, or a failure. -/
theorem deleteLeaf_spec (snap : SnapshotData) :
    Triple (fun s => s.di = d) (deleteLeaf o guid snap) (fun _ => OneLess d) (fun _ => True) := by
  apply lookDi
  apply (sure (keeps_guardParam _)).bind
  intro _
  dsimp only
  split
  · apply (sure (keeps_orParam _)).bind
    intro parent
    apply (sure (keeps_guardParam _)).bind
    intro _
    exact removeLeaf_spec _
  · exact removeLeaf_spec _

theorem mergeDown_spec :
    Triple (fun s => s.di = d) (mergeDown o guid none) (fun _ => OneLess d) (fun _ => True) := by
  apply lookDi
  apply (sure (keeps_orParam _)).bind
  intro child
  apply (sure (keeps_orParam _)).bind
  intro fname
  apply (sure (keeps_guardParam _)).bind
  intro _
  apply (sure (keeps_orParam _)).bind
  intro parentFname
  apply (sure (keeps_orParam _)).bind
  intro parent
  apply (sure (keeps_guardParam _)).bind
  intro _
  apply (sure keeps_findDev).bind
  intro _
  apply (sure (sameDi_mergeLevels _ _)).bind
  rintro ⟨startLevel, endLevel, online, mergeTop⟩
  apply (sure (keeps_call _)).bind
  intro _
  apply (sure (keeps_call _)).bind
  intro _
  apply (sure (sameDi_checkMount _ _)).bind
  intro _
  apply (sure (sameDi_checkMount _ _)).bind
  intro _
  apply ((diMergeImage_spec guid).conseq (fun _ h => h) (fun _ _ h => h)
    fun _ _ => True.intro).bind
  intro deleteFname
  apply (lessened (sameLength_store true)).bind
  intro _
  apply (lessened Keeps.get).bind
  intro s
  exact (lessened (sameLength_mergeImage _)).bind fun _ => lessened (Keeps.pure _)

theorem mergeSnapshotByGuid_spec :
    Triple (fun s => s.di = d) (mergeSnapshotByGuid o guid none) (fun _ => OneLess d)
      (fun _ => True) := by
  apply mergeDown_spec.bind
  intro r
  apply (lessened (Keeps.pure true)).bind
  intro removed
  apply (lessened sameLength_renameConf).bind
  intro renamed
  cases renamed with
  | false => exact Triple.raise fun _ _ => True.intro
  | true =>
      apply (lessened (sameLength_unlinkFile _)).bind
      intro gone
      exact lessened (Keeps.ite (Keeps.pure _) (Keeps.throw _))

theorem kept_convert : Triple (fun s => s.di = d) convertDiskDescriptor (fun _ s => Kept d s.di)
    (fun _ => True) := by
  apply lookDi
  split
  · exact Triple.ret fun _ h => h ▸ Kept.refl _
  · cases d.topGuid with
    | none => exact Triple.raise fun _ _ => True.intro
    | some top =>
        dsimp only
        split
        · exact Triple.ret fun _ h => h ▸ Kept.refl _
        · split
          case isTrue => exact Triple.raise fun _ _ => True.intro
          case isFalse hfree =>
            rw [Bool.or_eq_true, not_or, Option.not_isSome_iff_eq_none,
              Option.not_isSome_iff_eq_none] at hfree
            apply Triple.update
            rintro s rfl
            exact kept_changeGuid hfree.1 hfree.2

theorem markTemporary_spec (hmany : 2 ≤ d.getChildCountByUuid guid) :
    Triple (fun s => s.di = d) (do
      modifyDi (·.setTemporary guid)
      storeDiskdescriptor o false)
      (fun _ s => OneLess d s ∨ 2 ≤ d.getChildCountByUuid guid ∧ Kept d s.di) (fun _ => True) := by
  apply Triple.bind (R := fun _ s => s.di = d.setTemporary guid)
  · apply Triple.update
    rintro s rfl
    rfl
  intro _
  apply Triple.bind kept_convert
  intro _
  apply Triple.bind (R := fun _ s => Kept (d.setTemporary guid) s.di)
  · apply Triple.start
    intro s hs
    have hcall : Keeps SameDi (call o .minusOne) := keeps_call _
    exact (hcall s).conseq (fun _ h => h) (fun _ t ht => ht ▸ hs) fun _ _ => True.intro
  intro _
  apply Triple.update
  intro s hs
  exact Or.inr ⟨hmany, (kept_setTemporary hmany).trans hs⟩

/-- A deletion that does not fail leaves one snapshot less, or one that has several children. -/
theorem doDeleteSnapshot_spec :
    Triple (fun s => s.di = d) (doDeleteSnapshot o guid)
      (fun _ s => OneLess d s ∨ 2 ≤ d.getChildCountByUuid guid ∧ Kept d s.di)
      (fun _ => True) := by
  apply lookDi
  cases d.snapshotByGuid guid with
  | none => exact Triple.raise fun _ _ => True.intro
  | some snap =>
      apply (sure keeps_findDev).bind
      intro running
      apply (sure (keeps_guardParam _)).bind
      intro _
      split
      case h_1 =>
        exact (deleteLeaf_spec snap).conseq (fun _ h => h) (fun _ _ h => Or.inl h) fun _ h => h
      case h_2 =>
        apply (sure (keeps_orParam _)).bind
        intro child
        exact mergeSnapshotByGuid_spec.conseq (fun _ h => h) (fun _ _ h => Or.inl h) fun _ h => h
      case h_3 hzero hone =>
        have hzero' : d.getChildCountByUuid guid ≠ 0 := hzero
        have hone' : d.getChildCountByUuid guid ≠ 1 := hone
        have hmany : 2 ≤ d.getChildCountByUuid guid := by omega
        split
        · split
          · exact Triple.ret fun _ h => Or.inr ⟨hmany, h ▸ Kept.refl _⟩
          · exact Triple.raise fun _ _ => True.intro
        · exact markTemporary_spec hmany

end Deletion

/-! ## The turns -/

section Loop

variable {o : Outside} {s t t' u : World} {i j fuel : ℕ} {x : SnapshotData} {e : Err}
  {guid : Guid} {r : Option ℕ}

theorem isSnapshotInUse_run (o : Outside) (guid : Guid) (t : World) :
    ∃ b u, isSnapshotInUse o guid t = .ok b u ∧ u.di = t.di ∧
      (b = false ↔ ∃ fname, t.di.findImageByGuid guid = some fname ∧
        o.inUse t.time fname = false) := by
  have hdi : getDi t = .ok t.di t := rfl
  rcases hfind : t.di.findImageByGuid guid with _ | fname
  · refine ⟨true, t, ?_, rfl, by simp⟩
    rw [isSnapshotInUse, bind_run_ok hdi, hfind]
    rfl
  · refine ⟨o.inUse t.time fname, { t with time := t.time + 1 }, ?_, rfl, by simp⟩
    rw [isSnapshotInUse, bind_run_ok hdi, hfind]
    rfl

theorem temporaryTurn_end (h : t.di.snapshots[i]? = none) : temporaryTurn o i t = .ok none t := by
  change (match t.di.snapshots[i]? with
    | none => pure none
    | some s => turnFor o t.di.snapshots.length i s : DdM (Option ℕ)) t = _
  rw [h]
  rfl

theorem temporaryTurn_at (h : t.di.snapshots[i]? = some x) :
    temporaryTurn o i t = turnFor o t.di.snapshots.length i x t := by
  change (match t.di.snapshots[i]? with
    | none => pure none
    | some s => turnFor o t.di.snapshots.length i s : DdM (Option ℕ)) t = _
  rw [h]

theorem temporaryTurn_skip (h : t.di.snapshots[i]? = some x) (hx : ¬ x.temporary = true) :
    temporaryTurn o i t = .ok (some (i + 1)) t := by
  rw [temporaryTurn_at h, turnFor, if_neg hx]
  rfl

theorem temporaryTurn_used (h : t.di.snapshots[i]? = some x) (hx : x.temporary = true)
    (hused : isSnapshotInUse o x.guid t = .ok true u) :
    temporaryTurn o i t = .ok (some (i + 1)) u := by
  rw [temporaryTurn_at h, turnFor, if_pos hx, bind_run_ok hused]
  rfl

theorem temporaryTurn_delete (h : t.di.snapshots[i]? = some x) (hx : x.temporary = true)
    (hunused : isSnapshotInUse o x.guid t = .ok false u)
    (hdel : doDeleteSnapshot o x.guid u = .ok () t') :
    temporaryTurn o i t = .ok (some
      (if t.di.snapshots.length ≠ t'.di.snapshots.length then 0 else i + 1)) t' := by
  rw [temporaryTurn_at h, turnFor, if_pos hx, bind_run_ok hunused, if_neg Bool.false_ne_true,
    bind_run_ok hdel]
  change (if t.di.snapshots.length ≠ t'.di.snapshots.length then pure (some 0)
    else pure (some (i + 1)) : DdM (Option ℕ)) t' = _
  split <;> rfl

theorem temporaryTurn_fails (h : t.di.snapshots[i]? = some x) (hx : x.temporary = true)
    (hunused : isSnapshotInUse o x.guid t = .ok false u)
    (hdel : doDeleteSnapshot o x.guid u = .error e t') :
    temporaryTurn o i t = .error e t' := by
  rw [temporaryTurn_at h, turnFor, if_pos hx, bind_run_ok hunused, if_neg Bool.false_ne_true,
    bind_run_error hdel]

/-- The ways of a turn. -/
theorem temporaryTurn_cases (o : Outside) (i : ℕ) (t : World) :
    (t.di.snapshots.length ≤ i ∧ temporaryTurn o i t = .ok none t) ∨
    (∃ x t', t.di.snapshots[i]? = some x ∧ temporaryTurn o i t = .ok (some (i + 1)) t' ∧
        t'.di = t.di ∧ (x.temporary = true → ∀ fname, t.di.findImageByGuid x.guid = some fname →
          o.inUse t.time fname = true)) ∨
    (∃ x u t', t.di.snapshots[i]? = some x ∧ x.temporary = true ∧ u.di = t.di ∧
        isSnapshotInUse o x.guid t = .ok false u ∧ doDeleteSnapshot o x.guid u = .ok () t' ∧
        temporaryTurn o i t = .ok (some
          (if t.di.snapshots.length ≠ t'.di.snapshots.length then 0 else i + 1)) t') ∨
    ∃ x u e t', t.di.snapshots[i]? = some x ∧ x.temporary = true ∧
        isSnapshotInUse o x.guid t = .ok false u ∧ doDeleteSnapshot o x.guid u = .error e t' ∧
        temporaryTurn o i t = .error e t' := by
  rcases h : t.di.snapshots[i]? with _ | x
  · exact Or.inl ⟨List.getElem?_eq_none_iff.mp h, temporaryTurn_end h⟩
  right
  by_cases hx : x.temporary = true
  · obtain ⟨b, u, hused, hdi, hb⟩ := isSnapshotInUse_run o x.guid t
    cases b with
    | true =>
        left
        refine ⟨x, u, rfl, temporaryTurn_used h hx hused, hdi, fun _ fname hfind => ?_⟩
        by_contra hno
        exact Bool.false_ne_true (hb.mpr ⟨fname, hfind, (Bool.not_eq_true _).mp hno⟩).symm
    | false =>
        right
        rcases hdel : doDeleteSnapshot o x.guid u with ⟨_, t'⟩ | ⟨e, t'⟩
        · exact Or.inl ⟨x, u, t', rfl, hx, hdi, hused, hdel, temporaryTurn_delete h hx hused hdel⟩
        · exact Or.inr ⟨x, u, e, t', rfl, hx, hused, hdel, temporaryTurn_fails h hx hused hdel⟩
  · left
    exact ⟨x, t, rfl, temporaryTurn_skip h hx, rfl, fun h => absurd h hx⟩

/-- A turn goes on in an array of the same length, or starts again in a shorter one. -/
def room (i : ℕ) (t : World) : ℕ :=
  t.di.snapshots.length * (t.di.snapshots.length + 1) + (t.di.snapshots.length - i)

theorem Turn.room_lt {p q : ℕ × World} (h : Turn o p q) : room q.1 q.2 < room p.1 p.2 := by
  obtain ⟨i, t⟩ := p
  obtain ⟨j, t'⟩ := q
  change temporaryTurn o i t = .ok (some j) t' at h
  unfold room
  dsimp only
  rcases temporaryTurn_cases o i t with ⟨-, hturn⟩ | ⟨x, u, hx, hturn, hdi, -⟩ |
    ⟨x, u, u', hx, -, hdi, -, hdel, hturn⟩ | ⟨x, u, e, u', -, -, -, -, hturn⟩
  · rw [hturn] at h
    exact absurd h (by simp)
  · rw [hturn] at h
    injection h with hj ht
    obtain rfl := Option.some.inj hj
    have hlt := (List.getElem?_eq_some_iff.mp hx).1
    rw [← ht, hdi]
    omega
  · rw [hturn] at h
    injection h with hj ht
    obtain rfl := Option.some.inj hj
    subst ht
    have hlt := (List.getElem?_eq_some_iff.mp hx).1
    rcases doDeleteSnapshot_spec.ok hdi hdel with hless | ⟨-, hkept⟩
    · have hless' : u'.di.snapshots.length + 1 = t.di.snapshots.length := hless
      rw [if_pos (by omega), ← hless']
      have hsquare : (u'.di.snapshots.length + 1) * (u'.di.snapshots.length + 1 + 1) =
          u'.di.snapshots.length * (u'.di.snapshots.length + 1) +
            2 * (u'.di.snapshots.length + 1) := by ring
      omega
    · rw [hkept.length, if_neg (fun h => h rfl)]
      omega
  · rw [hturn] at h
    exact absurd h (by simp)

theorem mergeTemporaryFrom_turn (h : temporaryTurn o i t = .ok (some j) t') :
    mergeTemporaryFrom o (fuel + 1) i t = mergeTemporaryFrom o fuel j t' := by
  rw [mergeTemporaryFrom_succ, bind_run_ok h]

/-- The loop ends at a last turn. -/
theorem mergeTemporaryFrom_run (hfuel : room i t < fuel) :
    ∃ j u, Relation.ReflTransGen (Turn o) (i, t) (j, u) ∧
      ((temporaryTurn o j u = .ok none u ∧ mergeTemporaryFrom o fuel i t = .ok () u) ∨
        ∃ e s', temporaryTurn o j u = .error e s' ∧
          mergeTemporaryFrom o fuel i t = .error e s') := by
  induction fuel generalizing i t with
  | zero => exact absurd hfuel (Nat.not_lt_zero _)
  | succ fuel ih =>
      have hnext : ∀ {j t'}, temporaryTurn o i t = .ok (some j) t' → ∃ k u,
          Relation.ReflTransGen (Turn o) (i, t) (k, u) ∧
            ((temporaryTurn o k u = .ok none u ∧ mergeTemporaryFrom o (fuel + 1) i t = .ok () u) ∨
              ∃ e s', temporaryTurn o k u = .error e s' ∧
                mergeTemporaryFrom o (fuel + 1) i t = .error e s') := by
        intro j t' hturn
        have hstep : Turn o (i, t) (j, t') := hturn
        have hlt : room j t' < fuel :=
          Nat.lt_of_lt_of_le hstep.room_lt (Nat.le_of_lt_succ hfuel)
        obtain ⟨k, u, hreach, hend⟩ := ih hlt
        rw [mergeTemporaryFrom_turn hturn]
        exact ⟨k, u, .head hstep hreach, hend⟩
      rcases temporaryTurn_cases o i t with ⟨-, hturn⟩ | ⟨x, t', -, hturn, -⟩ |
        ⟨x, u, t', -, -, -, -, -, hturn⟩ | ⟨x, u, e, t', -, -, -, -, hturn⟩
      · exact ⟨i, t, .refl, Or.inl ⟨hturn, by rw [mergeTemporaryFrom_succ, bind_run_ok hturn]; rfl⟩⟩
      · exact hnext hturn
      · exact hnext hturn
      · exact ⟨i, t, .refl, Or.inr ⟨e, t', hturn, by
          rw [mergeTemporaryFrom_succ, bind_run_error hturn]⟩⟩

theorem mergeTemporarySnapshots_run (o : Outside) (s : World) :
    ∃ i t, Comes o s i t ∧
      ((temporaryTurn o i t = .ok none t ∧ mergeTemporarySnapshots o s = .ok () t) ∨
        ∃ e s', temporaryTurn o i t = .error e s' ∧
          mergeTemporarySnapshots o s = .error e s') := by
  apply mergeTemporaryFrom_run
  unfold room
  have hsquare : (s.di.snapshots.length + 1) * (s.di.snapshots.length + 1) =
      s.di.snapshots.length * (s.di.snapshots.length + 1) + (s.di.snapshots.length + 1) := by
    ring
  omega

/-- The loop has one last turn. -/
theorem Comes.last_unique (h : Comes o s i t) (h' : Comes o s j u)
    (hlast : ∀ q, ¬ Turn o (i, t) q) (hlast' : ∀ q, ¬ Turn o (j, u) q) : i = j ∧ t = u := by
  have hunique : Relator.RightUnique (Turn o) := by
    rintro p ⟨a, b⟩ ⟨a', b'⟩ hq hq'
    have heq := hq.symm.trans hq'
    injection heq with ha hb
    exact Prod.ext (Option.some.inj ha) hb
  rcases Relation.ReflTransGen.total_of_right_unique hunique h h' with hgo | hgo
  · rcases hgo.cases_head with heq | ⟨q, hq, -⟩
    · exact Prod.mk.inj heq
    · exact absurd hq (hlast q)
  · rcases hgo.cases_head with heq | ⟨q, hq, -⟩
    · exact Prod.mk.inj heq.symm
    · exact absurd hq (hlast' q)

/-- No unused temporary snapshot before the `i`th has fewer than two children. -/
def Passed (o : Outside) (i : ℕ) (di : DiskImagesData) : Prop :=
  ∀ j < i, ∀ x, di.snapshots[j]? = some x → x.temporary = true → Unused o di x →
    2 ≤ di.getChildCountByUuid x.guid

theorem Passed.turn {p q : ℕ × World} (hset : ∀ t fname, o.inUse t fname = o.inUse 0 fname)
    (h : Passed o p.1 p.2.di) (hturn : Turn o p q) : Passed o q.1 q.2.di := by
  obtain ⟨i, t⟩ := p
  obtain ⟨j, t'⟩ := q
  change temporaryTurn o i t = .ok (some j) t' at hturn
  rcases temporaryTurn_cases o i t with ⟨-, hrun⟩ | ⟨x, u, hx, hrun, hdi, hused⟩ |
    ⟨x, u, u', hx, -, hdi, -, hdel, hrun⟩ | ⟨x, u, e, u', -, -, -, -, hrun⟩
  · rw [hrun] at hturn
    exact absurd hturn (by simp)
  · rw [hrun] at hturn
    injection hturn with hj ht
    obtain rfl := Option.some.inj hj
    subst ht
    change Passed o (i + 1) u.di
    rw [hdi]
    intro k hk y hy htemp hunused
    rcases Nat.lt_or_eq_of_le (Nat.le_of_lt_succ hk) with hlt | rfl
    · exact h k hlt y hy htemp hunused
    · obtain rfl := Option.some.inj (hx.symm.trans hy)
      obtain ⟨fname, hfind, hno⟩ := hunused
      have hyes := hused htemp fname hfind
      rw [hset, hno] at hyes
      exact absurd hyes Bool.false_ne_true
  · rw [hrun] at hturn
    injection hturn with hj ht
    obtain rfl := Option.some.inj hj
    subst ht
    rcases doDeleteSnapshot_spec.ok hdi hdel with hless | ⟨hmany, hkept⟩
    · have hless' : u'.di.snapshots.length + 1 = t.di.snapshots.length := hless
      have hne : t.di.snapshots.length ≠ u'.di.snapshots.length := by omega
      change Passed o (if _ then 0 else i + 1) u'.di
      rw [if_pos hne]
      exact fun k hk => absurd hk (Nat.not_lt_zero k)
    · change Passed o (if _ then 0 else i + 1) u'.di
      rw [if_neg (fun hne => hne hkept.length.symm)]
      intro k hk y' hy' htemp hunused
      obtain ⟨y, hy, hmark, hcount, himage⟩ := hkept.entry k y' hy'
      rcases Nat.lt_or_eq_of_le (Nat.le_of_lt_succ hk) with hlt | rfl
      · rcases hmark htemp with hold | hnew
        · obtain ⟨fname, hfind, hno⟩ := hunused
          exact (h k hlt y hy hold ⟨fname, himage.symm.trans hfind, hno⟩).trans hcount
        · exact hnew
      · obtain rfl := Option.some.inj (hx.symm.trans hy)
        exact hmany.trans hcount
  · rw [hrun] at hturn
    exact absurd hturn (by simp)

theorem Comes.passed (hset : ∀ t fname, o.inUse t fname = o.inUse 0 fname)
    (h : Comes o s i t) : Passed o i t.di := by
  have hall : ∀ q : ℕ × World, Relation.ReflTransGen (Turn o) (0, s) q → Passed o q.1 q.2.di := by
    intro q hq
    induction hq with
    | refl => exact fun k hk => absurd hk (Nat.not_lt_zero k)
    | tail _ hturn ih => exact ih.turn hset hturn
  exact hall _ h

/-- The search for the device leaves its result behind. -/
theorem NothingToDo.fails (h : NothingToDo o guid t) :
    ∃ t', doDeleteSnapshot o guid t = .error (.exit .creat) t' := by
  obtain ⟨snap, hsnap, htemp, hmany, hcall, hkernel⟩ := h
  have hdev : findDev o t = .ok false { t with time := t.time + 1 } := by
    have hrun := call_run (o := o) (.exit .sys) t
    rw [if_neg (by rw [hcall]; exact Bool.false_ne_true)] at hrun
    unfold findDev
    rw [bind_run_ok hrun]
    change EStateM.Result.ok t.store.kernel.isSome _ = _
    rw [hkernel]
    rfl
  refine ⟨{ t with time := t.time + 1 }, ?_⟩
  change (match t.di.snapshotByGuid guid with
    | none => throw (.exit .nosnap)
    | some snap => _ : DdM Unit) t = _
  rw [hsnap]
  dsimp only
  rw [bind_run_ok hdev, bind_run_ok (show guardParam (!(false && t.di.isTopExactly guid)) _ =
    .ok () _ from rfl)]
  obtain ⟨n, hn⟩ : ∃ n, t.di.getChildCountByUuid guid = n + 2 :=
    ⟨_, (Nat.sub_add_cancel hmany).symm⟩
  rw [hn]
  change (if snap.temporary = true then (if false = true then pure () else throw (.exit .creat))
    else _ : DdM Unit) _ = _
  rw [if_pos htemp]
  rfl

theorem Deletes.last (h : Deletes o s guid t) (hfails : doDeleteSnapshot o guid t = .error e t') :
    ∃ i u x, Comes o s i u ∧ u.di.snapshots[i]? = some x ∧
      isSnapshotInUse o x.guid u = .ok false t ∧ guid = x.guid ∧
      temporaryTurn o i u = .error e t' := by
  obtain ⟨i, u, x, hcomes, hx, htemp, hunused, rfl⟩ := h
  exact ⟨i, u, x, hcomes, hx, hunused, rfl, temporaryTurn_fails hx htemp hunused hfails⟩

theorem not_turn (h : temporaryTurn o i t = .error e t') (q : ℕ × World) : ¬ Turn o (i, t) q := by
  intro hq
  change temporaryTurn o i t = _ at hq
  rw [h] at hq
  exact absurd hq (by simp)

/-- A deletion that fails is the last turn, and the clean-up fails with it. -/
theorem Deletes.run_error (h : Deletes o s guid t)
    (hfails : doDeleteSnapshot o guid t = .error e t') :
    mergeTemporarySnapshots o s = .error e t' := by
  obtain ⟨i, u, x, hcomes, -, -, -, hturn⟩ := h.last hfails
  obtain ⟨j, v, hreach, ⟨hend, -⟩ | ⟨e', s', hend, hrun⟩⟩ := mergeTemporarySnapshots_run o s
  · have hlast : ∀ q, ¬ Turn o (j, v) q := by
      intro q hq
      exact absurd (hend.symm.trans hq) (by simp)
    obtain ⟨rfl, rfl⟩ := hcomes.last_unique hreach (not_turn hturn) hlast
    exact absurd (hend.symm.trans hturn) (by simp)
  · obtain ⟨rfl, rfl⟩ := hcomes.last_unique hreach (not_turn hturn) (not_turn hend)
    cases hend.symm.trans hturn
    exact hrun

/-- A clean-up that is right does not come to a snapshot that stays while no device runs: that
deletion would be the last turn. -/
theorem CleansUp.not_nothing (h : CleansUp o s) (hdel : Deletes o s guid t) :
    ¬ NothingToDo o guid t := by
  intro hnothing
  obtain ⟨t', hfails⟩ := hnothing.fails
  obtain ⟨i, u, x, hcomes, hx, hunused, rfl, hturn⟩ := hdel.last hfails
  obtain ⟨guid', t₂, hdel', hfails', hreal⟩ := h.failed _ _ (hdel.run_error hfails)
  obtain ⟨k, w, y, hcomes', hy, hunused', rfl, hturn'⟩ := hdel'.last hfails'
  obtain ⟨rfl, rfl⟩ := hcomes.last_unique hcomes' (not_turn hturn) (not_turn hturn')
  obtain rfl := Option.some.inj (hx.symm.trans hy)
  injection hunused.symm.trans hunused' with _ ht
  subst ht
  exact hreal hnothing

end Loop

/-- The clean-up is right unless it comes to an unused temporary snapshot that still has two or
more children while no device runs. -/
theorem mergeTemporarySnapshots_iff {o : Outside} {s : World}
    (hset : ∀ t fname, o.inUse t fname = o.inUse 0 fname) :
    CleansUp o s ↔ ∀ guid t, Deletes o s guid t → ¬ NothingToDo o guid t := by
  constructor
  · exact fun h guid t => h.not_nothing
  intro hnone
  obtain ⟨i, t, hcomes, ⟨hend, hrun⟩ | ⟨e, s', hend, hrun⟩⟩ := mergeTemporarySnapshots_run o s
  · constructor
    · refine ⟨i, t, hcomes, fun q hq => ?_⟩
      exact absurd (hend.symm.trans hq) (by simp)
    · intro e s' herr
      exact absurd (hrun.symm.trans herr) (by simp)
    · intro s' hok x hx htemp hunused
      injection hrun.symm.trans hok with _ hs
      subst hs
      obtain ⟨j, hj⟩ := List.mem_iff_getElem?.mp hx
      have hlen : t.di.snapshots.length ≤ i := by
        rcases temporaryTurn_cases o i t with ⟨hlen, -⟩ | ⟨y, u, -, hturn, -⟩ |
          ⟨y, u, u', -, -, -, -, -, hturn⟩ | ⟨y, u, e, u', -, -, -, -, hturn⟩
        · exact hlen
        · exact absurd (hend.symm.trans hturn) (by simp)
        · exact absurd (hend.symm.trans hturn) (by simp)
        · exact absurd (hend.symm.trans hturn) (by simp)
      have hlt := (List.getElem?_eq_some_iff.mp hj).1
      exact hcomes.passed hset j (by omega) x hj htemp hunused
  · constructor
    · exact ⟨i, t, hcomes, not_turn hend⟩
    · intro e' s₁ herr
      injection hrun.symm.trans herr with he hs
      subst he hs
      rcases temporaryTurn_cases o i t with ⟨-, hturn⟩ | ⟨y, u, -, hturn, -⟩ |
        ⟨y, u, u', -, -, -, -, -, hturn⟩ | ⟨y, u, e, u', hy, htemp, hunused, hdel, hturn⟩
      · exact absurd (hend.symm.trans hturn) (by simp)
      · exact absurd (hend.symm.trans hturn) (by simp)
      · exact absurd (hend.symm.trans hturn) (by simp)
      · injection hend.symm.trans hturn with he hs
        subst he hs
        have hdeletes : Deletes o s y.guid u := ⟨i, t, y, hcomes, hy, htemp, hunused, rfl⟩
        exact ⟨y.guid, u, hdeletes, hdel, hnone _ _ hdeletes⟩
    · intro s₁ hok
      exact absurd (hrun.symm.trans hok) (by simp)

/-! ## An example -/

def guid1 : Guid := "{11111111-1111-1111-1111-111111111111}".toList

def guid2 : Guid := "{22222222-2222-2222-2222-222222222222}".toList

/-- A temporary base with two children, and no device. -/
def forked : World where
  di := {
    size := 4096
    blocksize := 2048
    raw := false
    images := [⟨guid1, ['a'], false⟩, ⟨topdeltaUuid, ['b'], false⟩, ⟨guid2, ['c'], false⟩]
    snapshots := [⟨guid1, noneUuid, true, false⟩, ⟨topdeltaUuid, guid1, false, false⟩,
      ⟨guid2, guid1, false, false⟩]
    topGuid := some topdeltaUuid
    vol := none }
  conf := ⟨4096, 2048, false, [], [], none, none⟩
  confTmp := none
  store := ⟨fun _ => some File.empty, none, false⟩
  time := 0

theorem forked_nothing : NothingToDo calm guid1 { forked with time := 1 } :=
  ⟨⟨guid1, noneUuid, true, false⟩, by decide, rfl, by decide, rfl, rfl⟩

theorem forked_deletes : Deletes calm forked guid1 { forked with time := 1 } :=
  ⟨0, forked, ⟨guid1, noneUuid, true, false⟩, .refl, rfl, rfl, rfl, rfl⟩

theorem mergeTemporarySnapshots_iff_forked :
    CleansUp calm { forked with store := ⟨fun _ => some File.empty, some [['a'], ['b']], false⟩ } ↔
      ∀ guid t, Deletes calm
        { forked with store := ⟨fun _ => some File.empty, some [['a'], ['b']], false⟩ } guid t →
          ¬ NothingToDo calm guid t :=
  mergeTemporarySnapshots_iff fun _ _ => rfl

/-- The temporary base cannot go yet: the clean-up fails, and an offline snapshot with it. -/
theorem forked_not_cleansUp : ¬ CleansUp calm forked ∧
    ∃ s', doCreateSnapshot calm none none false false true forked = .error (.exit .creat) s' := by
  refine ⟨fun h => h.not_nothing forked_deletes forked_nothing, ?_⟩
  exact ⟨_, rfl⟩

end Ploop.Dd
