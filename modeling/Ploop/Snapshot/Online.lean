import Ploop.Snapshot.Runs
import Ploop.Snapshot.Stack

/-!
# A snapshot of a running device

Merges that are pending or clean up temporary snapshots come first, and then the new delta. Each of
them changes the stack of the kernel before the descriptor is renamed.
-/

namespace Ploop.Dd

open Program Rooted Storage

variable {o : Outside} {w s t : World} {guid : Option Guid} {snapDir : Option Path}
  {cbt temporary : Bool}

/-! ## The clean-up -/

/-- A call fails between the end of a merge of the clean-up and the rename after it. -/
def CutOff (o : Outside) (s : World) : Prop :=
  ∃ g t t', Deletes o s g t ∧ untilMerged o g t = .ok true t' ∧ o.fails t'.time = true

theorem tidy_turn (i : ℕ) :
    Triple (Tidy o) (temporaryTurn o i) (fun _ => Tidy o) (fun _ => True) := by
  refine Triple.look fun s hs => ?_
  refine Triple.conseq (P := fun t => t = s) ?_ (fun _ ht => ht) (fun _ _ h => h) fun _ h => h
  cases hi : s.di.snapshots[i]? with
  | none => exact Triple.ret fun _ ht => ht ▸ hs
  | some x =>
      dsimp only
      unfold turnFor
      split
      case isFalse => exact Triple.ret fun _ ht => ht ▸ hs
      case isTrue htemp =>
        refine Triple.bind (R := fun _ t => Tidy o t ∧ x ∈ t.di.snapshots) ?_ fun used => ?_
        · refine Triple.conseq (keeps_isSnapshotInUse (I := Still) x.guid s) (fun _ ht => ht)
            (fun _ t ht => ⟨hs.still ht, ?_⟩) fun _ _ => True.intro
          rw [ht.di]
          exact List.mem_of_getElem? hi
        split
        · exact Triple.ret fun _ ht => ht.1
        · refine Triple.bind (R := fun _ => Tidy o) (fun t ht => ?_) fun _ =>
            Triple.look fun t ht => ?_
          · have hsplits := splits_delete ht.1 ht.2 htemp
            cases hrun : doDeleteSnapshot o x.guid t with
            | ok u t' => exact hsplits.ok t' hrun
            | error e t' => exact True.intro
          · split <;> exact Triple.ret fun _ hu => hu ▸ ht

theorem Comes.tidy {i : ℕ} (hs : Tidy o s) (h : Comes o s i t) : Tidy o t := by
  have hall : ∀ q : ℕ × World, Relation.ReflTransGen (Turn o) (0, s) q → Tidy o q.2 := by
    intro q hq
    induction hq with
    | refl => exact hs
    | tail _ hturn ih => exact (tidy_turn _).ok ih hturn
  exact hall _ h

theorem Deletes.splits {g : Guid} (hs : Tidy o s) (h : Deletes o s g t) :
    Splits o (doDeleteSnapshot o g) (untilMerged o g) t := by
  obtain ⟨i, u, x, hcomes, hx, htemp, hunused, rfl⟩ := h
  have hstill : Still u t := (keeps_isSnapshotInUse x.guid).ok hunused
  refine splits_delete ((hcomes.tidy hs).still hstill) ?_ htemp
  rw [hstill.di]
  exact List.mem_of_getElem? hx

theorem cleanUp_cut (hs : Tidy o s) (h : CutOff o s) :
    ∃ e s', mergeTemporarySnapshots o s = .error e s' ∧ ¬ InStep o s' := by
  obtain ⟨g, t, t', hdel, huntil, hfails⟩ := h
  obtain ⟨e, s', hrun, hnot⟩ := (hdel.splits hs).cut t' huntil hfails
  exact ⟨e, s', hdel.run_error hrun, hnot⟩

theorem cleanUp_whole (hs : Tidy o s) (h : ¬ CutOff o s) :
    Triple (fun t => t = s) (mergeTemporarySnapshots o) (fun _ => InStep o) (InStep o) := by
  intro s₀ hs₀
  subst s₀
  obtain ⟨i, t, hcomes, ⟨hend, hrun⟩ | ⟨e, s', hend, hrun⟩⟩ := mergeTemporarySnapshots_run o s
  · rw [hrun]
    exact (hcomes.tidy hs).toInStep
  · rw [hrun]
    rcases temporaryTurn_cases o i t with ⟨-, hturn⟩ | ⟨y, u, -, hturn, -⟩ |
      ⟨y, u, u', -, -, -, -, -, hturn⟩ | ⟨y, u, e, u', hy, htemp, hunused, hdel, hturn⟩
    · exact absurd (hend.symm.trans hturn) (by simp)
    · exact absurd (hend.symm.trans hturn) (by simp)
    · exact absurd (hend.symm.trans hturn) (by simp)
    · cases hend.symm.trans hturn
      have hdeletes : Deletes o s y.guid u := ⟨i, t, y, hcomes, hy, htemp, hunused, rfl⟩
      rcases (hdeletes.splits hs).err _ _ hdel with hin | ⟨v, huntil, hfails⟩
      · exact hin
      · exact absurd ⟨_, _, v, hdeletes, huntil, hfails⟩ h

section Quiet

variable (hnone : ∀ x ∈ s.di.snapshots, x.temporary = false)

include hnone

theorem Comes.eq_start {i : ℕ} (h : Comes o s i t) : t = s := by
  have hall : ∀ q : ℕ × World, Relation.ReflTransGen (Turn o) (0, s) q → q.2 = s := by
    intro q hq
    induction hq with
    | refl => rfl
    | @tail p q _ hturn ih =>
        obtain ⟨i, u⟩ := p
        obtain ⟨j, v⟩ := q
        dsimp only at ih
        subst ih
        change temporaryTurn o i u = .ok (some j) v at hturn
        cases hi : u.di.snapshots[i]? with
        | none => cases (temporaryTurn_end hi).symm.trans hturn
        | some x =>
            have htemp := hnone x (List.mem_of_getElem? hi)
            cases (temporaryTurn_skip hi (by simp [htemp])).symm.trans hturn
            rfl
  exact hall _ h

/-- Without temporary snapshots there is nothing to clean up. -/
theorem cleanUp_none : mergeTemporarySnapshots o s = .ok () s ∧ ∀ g t, ¬ Deletes o s g t := by
  constructor
  · obtain ⟨i, t, hcomes, hlast⟩ := mergeTemporarySnapshots_run o s
    obtain rfl := hcomes.eq_start hnone
    rcases hlast with ⟨-, hrun⟩ | ⟨e, s', hend, -⟩
    · exact hrun
    · cases hi : t.di.snapshots[i]? with
      | none => cases (temporaryTurn_end hi).symm.trans hend
      | some x =>
          have htemp := hnone x (List.mem_of_getElem? hi)
          cases (temporaryTurn_skip hi (by simp [htemp])).symm.trans hend
  · rintro g t ⟨i, u, x, hcomes, hx, htemp, -, -⟩
    obtain rfl := hcomes.eq_start hnone
    rw [hnone x (List.mem_of_getElem? hx)] at htemp
    cases htemp

end Quiet

/-! ## Up to the new snapshot -/

section Programs

variable (o : Outside) (guid : Option Guid) (cbt : Bool)

/-- `ploop_create_snapshot` up to the search for the device. -/
def untilChecked : DdM Request := do
  lockDd o
  checkRequest o guid cbt

/-- The same, and a merge that had been cut off is done in the kernel. -/
def untilPending : DdM Bool := do
  let _ ← untilChecked o guid cbt
  untilTopMerged o

/-- `ploop_create_snapshot` up to the clean-up of temporary snapshots. -/
def untilCleanUp : DdM Request := do
  let r ← untilChecked o guid cbt
  completeRunningOperation o
  pure r

/-- `ploop_create_snapshot` with the clean-up. -/
def untilNew : DdM Request := do
  let r ← untilCleanUp o guid cbt
  mergeTemporarySnapshots o
  pure r

/-- `ploop_create_snapshot` up to the ioctl that gives the kernel the new delta. -/
def untilIoctl (snapDir : Option Path) (temporary : Bool) : DdM Unit := do
  let r ← untilNew o guid cbt
  let n ← listSnapshot o r snapDir temporary
  adoptDelta o n.fname cbt

end Programs

/-- No call fails between a merge and the rename after it. -/
structure MergesWhole (o : Outside) (guid : Option Guid) (cbt : Bool) (w : World) : Prop where
  pending : ∀ s, untilPending o guid cbt w = .ok true s → o.fails s.time = false
  cleanUp : ∀ r s, untilCleanUp o guid cbt w = .ok r s → ∀ g t t', Deletes o s g t →
    untilMerged o g t = .ok true t' → o.fails t'.time = false

theorem untilChecked_spec (hw : InStep o w) :
    Triple (fun s => s = w) (untilChecked o guid cbt)
      (fun r s => Loaded o w s ∧ r.running = true) (InStep o) :=
  (lockDd_spec hw).bind fun _ => checkRequest_spec hw guid cbt

section Distinct

variable (hw : InStep o w) (hdi : ∀ di, readDd o w.conf = some di → Distinct di)

include hw hdi

theorem Loaded.tidy (h : Loaded o w s) : Tidy o s := by
  refine ⟨hw.quiet h.toQuiet, ?_, plain_of_read h.di (hdi _ h.di)⟩
  rw [h.conf]
  exact h.di

theorem untilNew_cut (h : ¬ MergesWhole o guid cbt w) :
    ∃ e s, untilNew o guid cbt w = .error e s ∧ ¬ InStep o s := by
  by_cases hpending : ∀ s, untilPending o guid cbt w = .ok true s → o.fails s.time = false
  · have hclean : ∃ r s, untilCleanUp o guid cbt w = .ok r s ∧ CutOff o s := by
      by_contra hno
      refine h ⟨hpending, fun r s hs g t t' hdel huntil => ?_⟩
      by_contra hfails
      exact hno ⟨r, s, hs, g, t, t', hdel, huntil, (Bool.not_eq_false _).mp hfails⟩
    obtain ⟨r, s, hrun, hcut⟩ := hclean
    obtain ⟨r₁, s₁, hchecked, hrest⟩ := bind_eq_ok hrun
    obtain ⟨_, s₂, hcomplete, hlast⟩ := bind_eq_ok hrest
    cases hlast
    have hs₁ := Loaded.tidy hw hdi ((untilChecked_spec hw).ok rfl hchecked).1
    obtain ⟨e, s', herr, hnot⟩ := cleanUp_cut ((splits_running hs₁).ok _ hcomplete) hcut
    exact ⟨e, s', (bind_run_ok hrun).trans (bind_run_error herr), hnot⟩
  · obtain ⟨s, hpending⟩ := not_forall.mp hpending
    obtain ⟨huntil, hfails⟩ := Classical.not_imp.mp hpending
    obtain ⟨r₁, s₁, hchecked, htop⟩ := bind_eq_ok huntil
    have hs₁ := Loaded.tidy hw hdi ((untilChecked_spec hw).ok rfl hchecked).1
    obtain ⟨e, s', herr, hnot⟩ := (splits_running hs₁).cut s htop ((Bool.not_eq_false _).mp hfails)
    refine ⟨e, s', bind_run_error ?_, hnot⟩
    exact (bind_run_ok hchecked).trans (bind_run_error herr)

theorem untilNew_whole (h : MergesWhole o guid cbt w) :
    Triple (fun s => s = w) (untilNew o guid cbt) (fun r s => InStep o s ∧ r.running = true)
      (InStep o) := by
  have hclean : Triple (fun s => s = w) (untilCleanUp o guid cbt)
      (fun r s => Tidy o s ∧ r.running = true) (InStep o) := by
    refine (untilChecked_spec hw).run.bind fun r => Triple.start fun s hs => ?_
    obtain ⟨⟨hloaded, hrunning⟩, hrun⟩ := hs
    have hrest := (splits_running (Loaded.tidy hw hdi hloaded)).triple fun t ht =>
      h.pending t ((bind_run_ok hrun).trans ht)
    exact hrest.bind fun _ => Triple.ret fun _ ht => ⟨ht, hrunning⟩
  refine hclean.run.bind fun r => Triple.start fun s hs => ?_
  obtain ⟨⟨htidy, hrunning⟩, hrun⟩ := hs
  have hcut : ¬ CutOff o s := by
    rintro ⟨g, t, t', hdel, huntil, hfails⟩
    rw [h.cleanUp r s hrun g t t' hdel huntil] at hfails
    cases hfails
  exact (cleanUp_whole htidy hcut).bind fun _ => Triple.ret fun _ ht => ⟨ht, hrunning⟩

end Distinct

section Quiet

variable (hw : InStep o w)
  (hnone : ∀ di, readDd o w.conf = some di → ∀ x ∈ di.snapshots, x.temporary = false)
  (hmntn : ∀ t, o.mntn t ≠ .merge)

include hw hnone hmntn

omit hw hnone in
theorem still_running : Keeps Still (completeRunningOperation o) := by
  refine (keeps_call _).bind fun _ => ?_
  unfold getMntnState
  simp only [bind_assoc]
  refine keeps_tick.bind fun t => ?_
  split
  · exact Keeps.throw _
  · rw [pure_bind]
    cases hm : o.mntn t with
    | merge => exact absurd hm (hmntn t)
    | grow | track => exact keeps_call _
    | fbloaded | discard | reloc => exact keeps_callRc
    | off | balloon | snapshot | pushBackup => exact Keeps.pure _

omit hw hnone hmntn in
theorem getMntnState_run (s : World) : getMntnState o s =
    (if o.fails s.time then throw (.exit .devioc) else pure (o.mntn s.time) : DdM Mntn)
      { s with time := s.time + 1 } :=
  rfl

omit hw hnone in
theorem untilTopMerged_false :
    Triple (fun _ => True) (untilTopMerged o) (fun merged _ => merged = false) fun _ => True := by
  refine (Triple.trivial (call o (.exit .open))).bind fun _ => ?_
  refine Triple.bind (R := fun m _ => m ≠ .merge) (fun s _ => ?_) fun m => ?_
  · rw [getMntnState_run]
    cases o.fails s.time with
    | true => exact True.intro
    | false => exact hmntn s.time
  · cases m with
    | merge => exact fun s hs => absurd rfl hs
    | _ => exact Triple.ret fun _ _ => rfl

theorem untilNew_quiet : MergesWhole o guid cbt w ∧
    Triple (fun s => s = w) (untilNew o guid cbt) (fun r s => InStep o s ∧ r.running = true)
      (InStep o) := by
  have hclean : Triple (fun s => s = w) (untilCleanUp o guid cbt)
      (fun r s => Loaded o w s ∧ r.running = true) (InStep o) :=
    (untilChecked_spec hw).bind fun r => Triple.known fun hrunning =>
      (Keeps.loaded (still_running hmntn) hw).bind fun _ => Triple.ret fun _ ht => ⟨ht, hrunning⟩
  refine ⟨⟨fun s hs => ?_, fun r s hrun g t t' hdel => ?_⟩, ?_⟩
  · obtain ⟨r, s₁, -, huntil⟩ := bind_eq_ok hs
    exact absurd ((untilTopMerged_false hmntn).ok True.intro huntil) (by simp)
  · exact absurd hdel ((cleanUp_none (hnone _ (hclean.ok rfl hrun).1.di)).2 g t)
  · refine hclean.bind fun r => Triple.start fun s hs => ?_
    have hrun := (cleanUp_none (o := o) (hnone _ hs.1.di)).1
    intro s₀ hs₀
    subst s₀
    rw [bind_run_ok hrun]
    exact ⟨hw.quiet hs.1.toQuiet, hs.2⟩

end Quiet

/-! ## The new snapshot -/

/-- No call fails between a change of the stack and the rename that the descriptor on disk needs:
in the merges before, and after the ioctl that gives the kernel the new delta. -/
structure NoneBetween (o : Outside) (guid : Option Guid) (snapDir : Option Path)
    (cbt temporary : Bool) (w : World) : Prop extends MergesWhole o guid cbt w where
  snapshot : ∀ s, untilIoctl o guid cbt snapDir temporary w = .ok () s →
    lateFailure o cbt s.time = false

/-- The clean-up, if there is one, finds a descriptor that tells its images apart. -/
def ReadyToMerge (o : Outside) (w : World) : Prop :=
  ∀ di, readDd o w.conf = some di → Distinct di ∨
    (∀ x ∈ di.snapshots, x.temporary = false) ∧ ∀ t, o.mntn t ≠ .merge

theorem IsTree.distinct {d : DiskImagesData} (h : IsTree d) (hfiles : d.files.Nodup) :
    Distinct d where
  ownImages := h.ownImages
  ownSnapshots := h.ownSnapshots
  parent v hv := by
    rw [h.vol] at hv
    cases hv
  top _ := by
    unfold DiskImagesData.isTop
    rw [h.top]
    exact guidEq_refl topdeltaUuid
  topStays s hs htop := by
    unfold DiskImagesData.isTop at htop
    rw [h.top] at htop
    exact h.topStays s hs ((guidEq_comm s.guid topdeltaUuid).trans htop)
  images := h.images ▸ h.tree.nodup
  snapshots := by
    have hnodup := h.tree.nodup
    unfold keys DiskImagesData.entries at hnodup
    rw [List.map_map] at hnodup
    exact hnodup
  files := hfiles

/-- What the calls of a run leave is ready, wherever they failed. -/
theorem readyToMerge_of_runs {size blocksize : ℕ} {raw : Bool} {file : Path}
    (hs : s.conf = oneImage size blocksize raw file) (hfile : (s.store.files file).isSome)
    (h : Relation.ReflTransGen FileStep s w) : ReadyToMerge o w := by
  have hsound := sound_of_steps hs hfile h
  intro di hdi
  rw [hsound.tree.readDd hdi]
  exact .inl (hsound.tree.distinct (hsound.kept True.intro).nodup)

theorem create_run (hw : InStep o w) :
    ploopCreateSnapshot o guid snapDir cbt temporary false w = (do
      let r ← untilNew o guid cbt
      let n ← listSnapshot o r snapDir temporary
      makeSnapshot o n cbt n.running) w := by
  have hsplit : ploopCreateSnapshot o guid snapDir cbt temporary false w = (do
      let r ← untilChecked o guid cbt
      (if r.running && !false then completeRunningOperation o else callRc o)
      mergeTemporarySnapshots o
      let n ← listSnapshot o r snapDir temporary
      makeSnapshot o n cbt (n.running && !false)) w := by
    unfold ploopCreateSnapshot doCreateSnapshot prepareSnapshot untilChecked
    simp only [bind_assoc]
  rw [hsplit]
  unfold untilNew untilCleanUp
  simp only [bind_assoc, pure_bind, Bool.not_false, Bool.and_true]
  cases hrun : untilChecked o guid cbt w with
  | error e s => rw [bind_run_error hrun, bind_run_error hrun]
  | ok r s =>
      rw [bind_run_ok hrun, bind_run_ok hrun, ((untilChecked_spec hw).ok rfl hrun).2, if_pos rfl]

section Split

variable (hnew : Triple (fun s => s = w) (untilNew o guid cbt)
    (fun r s => InStep o s ∧ r.running = true) (InStep o)) (hw : InStep o w)

include hnew

/-- Up to the new version of the descriptor. -/
theorem listed_spec : Triple (fun s => s = w) (do
    let r ← untilNew o guid cbt
    listSnapshot o r snapDir temporary) (fun n s => Stored o s ∧ n.running = true) (InStep o) :=
  hnew.bind fun r => Triple.known fun hrunning =>
    (listSnapshot_spec r snapDir temporary).conseq (fun _ h => h)
      (fun _ _ h => ⟨h.1, h.2.trans hrunning⟩) fun _ h => h

omit hnew in
theorem untilIoctl_eq : untilIoctl o guid cbt snapDir temporary w = (do
    let n ← (do
      let r ← untilNew o guid cbt
      listSnapshot o r snapDir temporary)
    adoptDelta o n.fname cbt) w := by
  unfold untilIoctl
  rw [bind_assoc]

include hw

theorem untilIoctl_ok (h : untilIoctl o guid cbt snapDir temporary w = .ok () s) :
    Ahead o s ∧ ∃ n, ploopCreateSnapshot o guid snapDir cbt temporary false w =
      afterIoctl o n cbt s := by
  rw [untilIoctl_eq] at h
  obtain ⟨n, s₁, hlist, hadopt⟩ := bind_eq_ok h
  have hs₁ := (listed_spec hnew).ok rfl hlist
  refine ⟨(adoptDelta_spec _ _).ok hs₁.1 hadopt, n, ?_⟩
  rw [create_run hw, ← bind_assoc, bind_run_ok hlist, hs₁.2]
  exact makeSnapshot_run n cbt hadopt

theorem untilIoctl_error {e : Err} (h : untilIoctl o guid cbt snapDir temporary w = .error e s) :
    ∃ s', ploopCreateSnapshot o guid snapDir cbt temporary false w = .error e s' ∧
      InStep o s' := by
  rw [create_run hw, ← bind_assoc]
  rw [untilIoctl_eq] at h
  cases hlist : (do
      let r ← untilNew o guid cbt
      listSnapshot o r snapDir temporary) w with
  | error e₁ s₁ =>
      cases (bind_run_error hlist).symm.trans h
      exact ⟨s, bind_run_error hlist, (listed_spec hnew).err rfl hlist⟩
  | ok n s₁ =>
      have hs₁ := (listed_spec hnew).ok rfl hlist
      have hadopt := (bind_run_ok hlist).symm.trans h
      obtain ⟨s', hfailed, hquiet⟩ := makeSnapshot_failed n cbt hadopt
      refine ⟨s', ?_, ((adoptDelta_spec _ _).err hs₁.1 hadopt).quiet hquiet⟩
      rw [bind_run_ok hlist, hs₁.2]
      exact hfailed

/-- The part of the run from the new snapshot on. -/
theorem snapshot_inStep_iff :
    (∀ e w', ploopCreateSnapshot o guid snapDir cbt temporary false w = .error e w' →
      InStep o w') ↔
    ∀ s, untilIoctl o guid cbt snapDir temporary w = .ok () s →
      lateFailure o cbt s.time = false := by
  constructor
  · intro hall s hs
    by_contra hlate
    obtain ⟨hahead, n, hrun⟩ := untilIoctl_ok hnew hw hs
    have hafter := afterIoctl_run (o := o) n cbt hahead.confTmp
    rw [if_pos (by simpa using hlate)] at hafter
    obtain ⟨e, w', hw', hmoved⟩ := hafter
    exact hahead.not_inStep hmoved (hall e w' (hrun.trans hw'))
  · intro hlate e w' hrun
    cases huntil : untilIoctl o guid cbt snapDir temporary w with
    | error e₁ s =>
        obtain ⟨s', hs', hin⟩ := untilIoctl_error hnew hw huntil
        cases hs'.symm.trans hrun
        exact hin
    | ok u s =>
        obtain ⟨hahead, n, heq⟩ := untilIoctl_ok hnew hw huntil
        have hafter := afterIoctl_run (o := o) n cbt hahead.confTmp
        rw [hlate s huntil, if_neg (by decide)] at hafter
        obtain ⟨s', hs'⟩ := hafter
        cases (heq.symm.trans hrun).symm.trans hs'

end Split

/-- A failed snapshot of a running device leaves the kernel and the descriptor in step if and only
if no call fails between a change of the stack and the rename after it. -/
theorem ploopCreateSnapshot_inStep_iff (hw : InStep o w) (hready : ReadyToMerge o w) :
    (∀ e w', ploopCreateSnapshot o guid snapDir cbt temporary false w = .error e w' →
      InStep o w') ↔ NoneBetween o guid snapDir cbt temporary w := by
  obtain ⟨stack, hstack⟩ := Option.isSome_iff_exists.mp (hw.listed ▸ hw.running)
  obtain ⟨di, hdi, -⟩ := Option.bind_eq_some_iff.mp hstack
  have honly : ∀ di', readDd o w.conf = some di' → di' = di := fun di' h =>
    Option.some.inj (h.symm.trans hdi)
  rcases hready di hdi with hdistinct | ⟨hnone, hmntn⟩
  · have hall : ∀ di', readDd o w.conf = some di' → Distinct di' := fun di' h =>
      honly di' h ▸ hdistinct
    by_cases hwhole : MergesWhole o guid cbt w
    · rw [snapshot_inStep_iff (untilNew_whole hw hall hwhole) hw]
      exact ⟨fun h => ⟨hwhole, h⟩, fun h => h.snapshot⟩
    · refine ⟨fun hin => ?_, fun h => absurd h.toMergesWhole hwhole⟩
      obtain ⟨e, s, hcut, hnot⟩ := untilNew_cut hw hall hwhole
      exact absurd (hin e s ((create_run hw).trans (bind_run_error hcut))) hnot
  · have hall : ∀ di', readDd o w.conf = some di' → ∀ x ∈ di'.snapshots, x.temporary = false :=
      fun di' h => honly di' h ▸ hnone
    obtain ⟨hwhole, hnew⟩ := @untilNew_quiet _ _ guid cbt hw hall hmntn
    rw [snapshot_inStep_iff hnew hw]
    exact ⟨fun h => ⟨hwhole, h⟩, fun h => h.snapshot⟩

/-! ## A temporary snapshot under a running device -/

/-- Only the call with number `k` fails. -/
def brokenAt (k : ℕ) : Outside :=
  { oneGuid with fails := fun t => t = k, code := fun _ => .devioc }

/-- A device that runs on one image. -/
def runningDelta : World :=
  { oneFile with store := { oneFile.store with kernel := some [['r']] } }

/-- A temporary snapshot and the top delta over it. -/
def twoDeltas : DiskImagesData where
  size := 4096
  blocksize := 2048
  raw := false
  images := [⟨"{33333333-3333-3333-3333-333333333333}".toList, ['r'], false⟩,
    ⟨topdeltaUuid, ['t'], false⟩]
  snapshots := [⟨"{33333333-3333-3333-3333-333333333333}".toList, noneUuid, true, false⟩,
    ⟨topdeltaUuid, "{33333333-3333-3333-3333-333333333333}".toList, false, false⟩]
  topGuid := some topdeltaUuid
  vol := none

def runningDeltas : World where
  di := twoDeltas
  conf := twoDeltas
  confTmp := none
  store := ⟨fun p => if p = ['r'] ∨ p = ['t'] then some File.empty else none,
    some [['r'], ['t']], false⟩
  time := 0

theorem runningDelta_inStep (k : ℕ) : InStep (brokenAt k) runningDelta where
  listed := rfl
  running := rfl
  exist := by
    rintro _ ⟨⟩ f hf
    rw [List.mem_singleton.mp hf]
    rfl

theorem runningDeltas_inStep (k : ℕ) : InStep (brokenAt k) runningDeltas where
  listed := rfl
  running := rfl
  exist := by
    rintro _ ⟨⟩
    decide

theorem twoDeltas_distinct : Distinct twoDeltas where
  ownImages := by decide
  ownSnapshots := by decide
  parent := by rintro _ ⟨⟩
  top := by decide
  topStays := by decide
  images := by decide
  snapshots := by decide
  files := by decide

/-- The new delta cannot be given to the kernel after the clean-up has merged. -/
theorem runningDeltas_inStep_iff :
    (∀ e w', ploopCreateSnapshot (brokenAt 36) none none true false false runningDeltas =
      .error e w' → InStep (brokenAt 36) w') ↔
    NoneBetween (brokenAt 36) none none true false runningDeltas := by
  refine ploopCreateSnapshot_inStep_iff (runningDeltas_inStep 36) fun di hdi => .inl ?_
  have hread : readDd (brokenAt 36) runningDeltas.conf = some twoDeltas := by decide
  exact Option.some.inj (hread.symm.trans hdi) ▸ twoDeltas_distinct

/-- A snapshot with a bitmap fails, and the descriptor on disk is not what the kernel runs on. -/
def leavesUnlisted (o : Outside) (w : World) : Bool :=
  match ploopCreateSnapshot o none none true false false w with
  | .ok _ _ => false
  | .error _ w' => listed o w'.conf ≠ w'.store.kernel

theorem runningDelta_unlisted : leavesUnlisted (brokenAt 20) runningDelta = true := by
  decide +kernel

/-- The rename after the merge of the clean-up fails. -/
example : leavesUnlisted (brokenAt 22) runningDeltas = true := by decide +kernel

/-- The state of the bitmap cannot be read after the ioctl: the file of the new
delta is unlinked under the device. -/
theorem ploopCreateSnapshot_not_inStep :
    ¬ ∀ (o : Outside) (w : World) (guid : Option Guid) (snapDir : Option Path)
      (cbt temporary : Bool) (e : Err) (w' : World), InStep o w →
      ploopCreateSnapshot o guid snapDir cbt temporary false w = .error e w' →
      InStep o w' := by
  intro hall
  have hrun := runningDelta_unlisted
  unfold leavesUnlisted at hrun
  cases hw : ploopCreateSnapshot (brokenAt 20) none none true false false runningDelta with
  | ok u w' =>
      rw [hw] at hrun
      exact absurd hrun Bool.false_ne_true
  | error e w' =>
      rw [hw] at hrun
      exact of_decide_eq_true hrun (hall _ _ _ _ _ _ e w' (runningDelta_inStep 20) hw).listed

end Ploop.Dd
