import Ploop.Snapshot.Removing

/-!
# Snapshots that are added

The new top delta is made while the new descriptor waits, and is one that no descriptor lists.
-/

namespace Ploop.Dd

open Program Rooted Storage

variable {N : Prop} {o : Outside} {α β : Type} {d c : DiskImagesData} {g : Guid} {p : Path}

/-! ## Files that are listed -/

/-- The listed files are different ones and are there, if `N` says that files are followed. -/
def Listed (N : Prop) (c : DiskImagesData) (st : Store) : Prop := N → Present c.files st

theorem listed_spare (hp : N → p ∉ c.files) : Spare (Listed N) c p :=
  fun _ h hN => (h hN).unlink (hp hN)

theorem listed_erase {d' : DiskImagesData} {i : ℕ} {st : Store} (hd : IsTree d)
    (hi : d.findSnapshotByGuid g = some i) (hp : d.findImageByGuid g = some p)
    (hfiles : d'.files = d.files.eraseIdx i) (h : Listed N d st) : Spare (Listed N) d' p := by
  refine listed_spare fun hN => ?_
  rw [hfiles]
  exact Present.not_mem_eraseIdx (h hN).nodup (files_at ((imageIdx_eq hd.toPaired).trans hi) hp)

theorem files_without {i : ℕ} {snap : SnapshotData} :
    (d.without g i snap).files = d.files.eraseIdx i := by
  unfold DiskImagesData.without
  rw [files_dropAt]
  split
  · rw [files_changeParentGuid]
  · rfl

theorem files_merged {i : ℕ} {snap : SnapshotData} :
    ((d.mergeGuid g snap).dropAt i i).files = d.files.eraseIdx i := by
  rw [files_dropAt, files_mergeGuid]

theorem Listed.eraseIdx {d' : DiskImagesData} {i : ℕ} {st : Store} (h : Listed N d st)
    (hfiles : d'.files = d.files.eraseIdx i) : Listed N d' st := by
  intro hN
  rw [hfiles]
  exact (h hN).sublist (List.eraseIdx_sublist _ _)

theorem Listed.restack {st : Store} (h : Listed N c st) (f : List Path → List Path) :
    Listed N c (st.restack f) :=
  fun hN => ⟨(h hN).nodup, (h hN).exist⟩

theorem listed_keeping {newDelta : Option Path} (hparent : N → newDelta = none) :
    Keeping o newDelta (Listed N) fun _ => True where
  congr _ h := h
  temporary _ _ _ := True.intro
  mark _ _ _ h hN := by
    rw [files_setTemporary]
    exact h hN
  drop hd hi _ hp _ _ _ h := ⟨h.eraseIdx files_without, listed_erase hd hi hp files_without h⟩
  merge hd hi _ hp _ _ _ _ := by
    intro t a st _ h
    have hafter : Listed N _ (st.write (o.merge t a st).2) := fun hN =>
      (h hN).mono fun _ => Store.isSome_write _
    exact ⟨hafter, fun _ => hafter.eraseIdx files_merged, listed_erase hd hi hp files_merged h⟩
  restack _ h := h.restack _
  renew hnew d st hN := (hnew (hparent hN)).elim

theorem calm_setStack (f : List Path → List Path) : Keeps (Calm (Listed N)) (setStack f) :=
  Keeps.modify fun _ => ⟨rfl, rfl, rfl, fun _ h => h.restack f⟩

theorem calm_put {s : World} {f : File} :
    Calm (Listed N) s { s with store := s.store.put p (some f) } := by
  refine ⟨rfl, rfl, rfl, fun c h hN => (h hN).mono fun q hq => ?_⟩
  by_cases heq : q = p
  · subst heq
    simp [Store.put]
  · simpa [Store.put, Function.update_of_ne heq] using hq

theorem calm_rewriteFile (p : Path) : Keeps (Calm (Listed N)) (rewriteFile o p) := by
  refine keeps_tick.bind fun t => Keeps.bind (Keeps.modify fun s => ⟨rfl, rfl, rfl, ?_⟩)
    fun _ => Keeps.ite (Keeps.throw _) (Keeps.pure _)
  refine fun c h hN => (h hN).mono fun q hq => ?_
  by_cases heq : q = p
  · subst heq
    simpa [Store.put] using hq
  · simpa [Store.put, Function.update_of_ne heq] using hq

/-! ## A merge that was cut off -/

/-- The top delta has left the stack, and can leave the tree. -/
theorem coming_mergeRunningTop (hc : IsTree c) :
    Triple (At (Listed N) c c) (mergeRunningTop o) (fun p => Coming (Listed N) p c)
      (Sound (Listed N)) := by
  refine (at_step hc keeps_callRc).bind fun _ => Triple.look fun w hw => ?_
  refine Triple.conseq (P := At (Listed N) c c) ?_ (fun _ ht => ht ▸ hw) (fun _ _ h => h)
    fun _ h => h
  refine at_getDi ?_
  rw [hc.top]
  refine at_orParam hc fun top htop => ?_
  cases htop
  refine (at_mergeImage hc).bind fun topDelta => Triple.start fun s hs => ?_
  obtain ⟨i, j, snap, hi, hsnap, hj, hfile, hcount, hparent, hs⟩ := hs
  rw [imageIdx_eq hc.toPaired, hi] at hj
  cases hj
  obtain ⟨hsame, htree, hkeys⟩ := hc.mergeImage hi hsnap hparent hcount
  rw [hsame] at hs
  refine Triple.conseq (P := At (Listed N) _ c) ?_ (fun _ ht => ht ▸ hs) (fun _ _ h => h)
    fun _ h => h
  have hdrop : Keeps (Calm (Listed N)) (dropLevel o ((w.store.kernel.getD []).length - 1)) :=
    (keeps_call _).bind fun _ => calm_setStack _
  refine (at_step hc (keeps_call _)).bind fun _ => (at_step hc keeps_try).bind fun _ =>
    (at_step hc (Keeps.ite (Keeps.pure _) (Keeps.throw _))).bind fun _ =>
    (at_storeTmp htree hc).bind fun _ => (waits_step hc hdrop).bind fun _ =>
    Triple.ret fun t ht => ?_
  refine ⟨_, htree, hkeys, ⟨ht, ht.kept.eraseIdx files_merged⟩, ?_⟩
  exact listed_erase hc hi hfile files_merged ht.kept

theorem settled_running (hc : IsTree c) :
    Triple (At (Listed N) c c) (completeRunningOperation o) (fun _ => Settled (Listed N) c)
      (Sound (Listed N)) := by
  have still : ∀ {x : DdM Unit}, Keeps (Calm (Listed N)) x →
      Triple (At (Listed N) c c) x (fun _ => Settled (Listed N) c) (Sound (Listed N)) :=
    fun h => (at_step hc h).conseq (fun _ h => h) (fun _ _ h => h.settled hc) fun _ h => h
  refine (at_step hc (keeps_call _)).bind fun _ => (at_step hc keeps_getMntnState).bind fun m => ?_
  cases m with
  | merge =>
      refine (coming_mergeRunningTop hc).bind fun p => (coming_rename hc).bind fun ok => ?_
      cases ok with
      | false => exact Triple.raise fun _ h => h
      | true => exact left_unlink.bind fun _ => Triple.ret fun _ h => h
  | grow | track => exact still (keeps_call _)
  | fbloaded | discard | reloc => exact still keeps_callRc
  | off | balloon | snapshot | pushBackup => exact still (Keeps.pure _)

/-! ## Create -/

/-- A guid for a new snapshot. -/
def NewGuid (c : DiskImagesData) (g : Guid) : Prop := g ≠ noneUuid ∧ fold g ∉ keys c.entries

theorem at_genUuid (hc : IsTree c) :
    Triple (At (Listed N) d c) (genUuid o) (fun g s => At (Listed N) d c s ∧ ∃ t, g = o.uuid t)
      (Sound (Listed N)) := by
  intro s hs
  have hrun := at_step (d := d) hc (keeps_genUuid (o := o)) s hs
  cases hgen : genUuid o s with
  | error e s' =>
      rw [hgen] at hrun
      exact hrun
  | ok u s' =>
      rw [hgen] at hrun
      refine ⟨hrun, s.time, ?_⟩
      change (if o.fails s.time then throw (.exit (o.code s.time)) else pure (o.uuid s.time) :
        DdM Guid) { s with time := s.time + 1 } = _ at hgen
      split at hgen
      · cases hgen
      · cases hgen
        rfl

theorem files_push {topGuid : Option Guid} {file : Path} {t : SnapshotData} :
    ({ (d.pushImage ⟨g, file, false⟩).pushSnapshot t with topGuid := topGuid } :
      DiskImagesData).files = d.files ++ [file] :=
  List.map_append

/-- A tree with the new file `p` waits beside the tree on disk. -/
def Ready (N : Prop) (p : Path) (s : World) : Prop :=
  ∃ d c, IsTree d ∧ IsTree c ∧ (∃ fs, fs.Sublist c.files ∧ d.files = fs ++ [p]) ∧
    Waits (Listed N) d c s

theorem ready_push (hd : IsTree d) (hg : g ≠ noneUuid) (hnew : fold g ∉ keys d.entries)
    (temporary : Bool) (fname : Path) :
    Triple (At (Listed N) d d) (do
      modifyDi (·.changeGuid topdeltaUuid g)
      (if temporary then modifyDi (·.setTemporary g) else pure ())
      diAddImage o fname topdeltaUuid g
      storeDiskdescriptor o true) (fun _ => Ready N fname) (Sound (Listed N)) := by
  have hbare := hd.changeTop hg hnew
  have hin : fold g ∈ keys (d.changeGuid topdeltaUuid g).entries := by
    rw [entries_changeGuid topdelta_ne_none hg, keys_rename]
    exact List.mem_map.mpr ⟨_, hd.hasTop, if_pos rfl⟩
  have hstore : ∀ d', Bare d' → fold g ∈ keys d'.entries → d'.files = d.files →
      Triple (At (Listed N) d' d) (do
        diAddImage o fname topdeltaUuid g
        storeDiskdescriptor o true) (fun _ => Ready N fname) (Sound (Listed N)) := by
    intro d' hd' hin' hfiles
    refine (at_addImage hd fname g).bind fun _ => ?_
    refine (at_storeTmp (hd'.push hin') hd).conseq (fun _ h => h)
      (fun _ s hs => ⟨_, d, hd'.push hin', hd, ⟨d.files, List.Sublist.refl _, ?_⟩, hs⟩) fun _ h => h
    rw [files_push, hfiles]
  refine (at_modifyDi _).bind fun _ => ?_
  cases temporary with
  | false => exact hstore _ hbare hin files_changeGuid
  | true =>
      refine (at_modifyDi (·.setTemporary g)).bind fun _ => hstore _ hbare.setTemporary ?_ ?_
      · rw [entries_setTemporary]
        exact hin
      · rw [files_setTemporary, files_changeGuid]

/-- The guids of the new snapshot and of the top delta. -/
theorem at_checkRequest (hc : IsTree c) {guid : Option Guid} (cbt : Bool)
    (hgiven : ∀ g, guid = some g → g ≠ noneUuid)
    (hfresh : guid = none → ∀ t, NewGuid c (o.uuid t)) :
    Triple (At (Listed N) c c) (checkRequest o guid cbt) (fun r s => At (Listed N) c c s ∧
      (NewGuid c r.snapGuid ∧ r.topGuid = topdeltaUuid)) (Sound (Listed N)) := by
  refine (at_step hc (Keeps.ite (keeps_call _) (Keeps.pure _))).bind fun _ =>
    (at_step hc (keeps_guardParam _)).bind fun _ => (at_genUuid hc).bind fun newGuid =>
    Triple.known fun ⟨t, ht⟩ => (at_step hc keeps_genUuid).bind fun fileGuid => at_getDi ?_
  have htop : Triple (At (Listed N) c c)
      (if c.vol.any fun v => v.parent.isSome then genUuid o else pure topdeltaUuid)
      (fun g s => At (Listed N) c c s ∧ g = topdeltaUuid) (Sound (Listed N)) := by
    rw [hc.vol]
    exact Triple.ret fun _ hs => ⟨hs, rfl⟩
  refine htop.bind fun topGuid => Triple.known fun htopGuid => ?_
  subst htopGuid
  refine Triple.bind (R := fun g s => At (Listed N) c c s ∧ NewGuid c g) ?_ fun snapGuid =>
    Triple.known fun hnew => ?_
  · cases guid with
    | none => exact Triple.ret fun _ hs => ⟨hs, ht ▸ hfresh rfl t⟩
    | some g =>
        refine at_guardParam hc fun hnone => Triple.ret fun _ hs => ⟨hs, hgiven g rfl, ?_⟩
        exact findSnapshotByGuid_none.mp (Option.isNone_iff_eq_none.mp hnone)
  refine (at_step hc keeps_checkSnapshotCount).bind fun _ => (at_step hc keeps_findDev).bind
    fun running => Triple.ret fun _ hs => ⟨hs, hnew, rfl⟩

theorem ready_list {r : Request} (hnew : NewGuid c r.snapGuid) (htop : r.topGuid = topdeltaUuid)
    (snapDir : Option Path) (temporary : Bool) :
    Triple (Settled (Listed N) c) (listSnapshot o r snapDir temporary)
      (fun n => Ready N n.fname) (Sound (Listed N)) := by
  obtain ⟨snapGuid, fileGuid, topGuid, running⟩ := r
  subst htop
  refine Triple.bind (R := fun _ => Settled (Listed N) c) (settled_step ?_) fun dir =>
    settled_start fun d hd hkeys => at_getDi ?_
  · cases snapDir with
    | none => exact Keeps.pure _
    | some d => exact (keeps_call _).bind fun _ => Keeps.pure _
  rw [hd.top]
  refine at_orParam hd fun prevTop htop => ?_
  cases htop
  refine at_orParam hd fun prevFname _ => ?_
  have hpush := (ready_push (N := N) (o := o) hd hnew.1 (fun hin => hnew.2 (hkeys hin)) temporary
    (deltaName d dir fileGuid)).bind fun _ =>
      Triple.ret (a := (⟨deltaName d dir fileGuid, prevFname, d.raw, running⟩ : NewSnapshot))
        (Q := fun n => Ready N n.fname) fun _ h => h
  simp only [bind_assoc] at hpush
  exact hpush

theorem ready_prepare (hc : IsTree c) {guid : Option Guid} (snapDir : Option Path)
    (cbt temporary offline : Bool) (hgiven : ∀ g, guid = some g → g ≠ noneUuid)
    (hfresh : guid = none → ∀ t, NewGuid c (o.uuid t)) :
    Triple (At (Listed N) c c) (prepareSnapshot o guid snapDir cbt temporary offline)
      (fun n => Ready N n.fname) (Sound (Listed N)) := by
  refine (at_checkRequest hc cbt hgiven hfresh).bind fun r =>
    Triple.known fun ⟨hnew, htop⟩ => ?_
  have hrunning : Triple (At (Listed N) c c)
      (if r.running && !offline then completeRunningOperation o else callRc o)
      (fun _ => Settled (Listed N) c) (Sound (Listed N)) := by
    split
    · exact settled_running hc
    · exact (at_step hc keeps_callRc).conseq (fun _ h => h) (fun _ _ h => h.settled hc)
        fun _ h => h
  exact hrunning.bind fun _ => (settled_cleanUp (listed_keeping fun _ => rfl)).bind fun _ =>
    ready_list hnew htop snapDir temporary

/-- The new file is there, and no other one is listed in its place. -/
structure Stands (N : Prop) (p : Path) (d c : DiskImagesData) (s : World) : Prop
    extends Due (Listed N) d c s where
  fresh : N → p ∉ c.files

theorem stands_step (hc : IsTree c) {x : DdM α} (h : Keeps (Calm (Listed N)) x) :
    Triple (Stands N p d c) x (fun _ => Stands N p d c) (Sound (Listed N)) :=
  calm_step (fun _ _ hs ht => ⟨hs.toDue.calm ht, hs.fresh⟩) (fun _ hs => hs.sound hc) h

/-- A new delta has a new name. -/
theorem stands_create (hc : IsTree c) (hd : ∃ fs, List.Sublist fs c.files ∧ d.files = fs ++ [p])
    (e : Sysexit) :
    Triple (Waits (Listed N) d c) (createSnapshotDelta o e p) (fun _ => Stands N p d c)
      (Sound (Listed N)) := by
  obtain ⟨fs, hfs, hfiles⟩ := hd
  refine (waits_step hc keeps_tick).bind fun t => Triple.look fun s hs => ?_
  split
  case isTrue =>
    refine Triple.raise ?_
    rintro _ rfl
    exact hs.sound hc
  case isFalse hnone =>
    refine Triple.update ?_
    rintro _ rfl
    have hnew : N → p ∉ c.files := by
      intro hN hmem
      simp [(hs.kept hN).exist p hmem] at hnone
    have hput := hs.calm (calm_put (N := N) (p := p) (f := o.content t))
    refine ⟨⟨hput, fun hN => ?_⟩, hnew⟩
    rw [hfiles]
    refine (hput.kept hN).push hfs (hnew hN) ?_
    simp [Store.put]

theorem stands_unlink {E : World → Prop} :
    Triple (Stands N p d c) (unlinkFile o p) (fun _ => Waits (Listed N) d c) E :=
  fun s hs => waits_unlink (listed_spare hs.fresh) s hs.toWaits

theorem stands_orUnlink (hc : IsTree c) {x : DdM Unit} (h : Keeps (Calm (Listed N)) x) :
    Triple (Stands N p d c) (orUnlink o p x) (fun _ => Stands N p d c) (Sound (Listed N)) := by
  refine (stands_step hc (keeps_attempt h)).bind fun r => ?_
  cases r with
  | ok _ => exact Triple.ret fun _ h => h
  | error e => exact stands_unlink.bind fun _ => Triple.raise fun _ h => h.sound hc

theorem stands_rename (hc : IsTree c) : Triple (Stands N p d c) (renameConf o)
    (fun ok s => if ok then At (Listed N) d d s else Stands N p d c s) (Sound (Listed N)) := by
  intro s hs
  refine (due_rename hc).conseq (fun _ h => h) (fun ok t ht => ?_) (fun _ h => h) s hs.toDue
  cases ok with
  | false => exact ⟨ht, hs.fresh⟩
  | true => exact ht

theorem stands_createSnapshot (hc : IsTree c)
    (hd : ∃ fs, List.Sublist fs c.files ∧ d.files = fs ++ [p]) (cbt : Bool) (prevDelta : Path) :
    Triple (Waits (Listed N) d c) (createSnapshot o p cbt prevDelta) (fun _ => Stands N p d c)
      (Sound (Listed N)) := by
  have hsave : Keeps (Calm (Listed N)) (cbtSnapshot o prevDelta) :=
    keeps_callRc.bind fun _ => keeps_try.bind fun _ => Keeps.ite (Keeps.pure _)
      ((calm_rewriteFile prevDelta).bind fun _ => keeps_callRc)
  have hif : ∀ x : DdM Unit, Keeps (Calm (Listed N)) x → Triple (Stands N p d c)
      (if cbt then orUnlink o p x else pure ()) (fun _ => Stands N p d c) (Sound (Listed N)) := by
    intro x hx
    split
    · exact stands_orUnlink hc hx
    · exact Triple.ret fun _ h => h
  have hadopt : Triple (Waits (Listed N) d c) (adoptDelta o p cbt) (fun _ => Stands N p d c)
      (Sound (Listed N)) :=
    (waits_step hc keeps_callRc).bind fun _ => (waits_step hc (keeps_call _)).bind fun _ =>
      (stands_create hc hd _).bind fun _ => (hif _ keeps_callRc).bind fun _ =>
        (stands_orUnlink hc (keeps_call _)).bind fun _ => stands_step hc (calm_setStack _)
  exact hadopt.bind fun _ => hif _ hsave

theorem stands_createOffline (hc : IsTree c)
    (hd : ∃ fs, List.Sublist fs c.files ∧ d.files = fs ++ [p]) (prevFname : Path)
    (cbt raw running : Bool) :
    Triple (Waits (Listed N) d c) (createOffline o p prevFname cbt raw running)
      (fun _ => Stands N p d c) (Sound (Listed N)) :=
  (stands_create hc hd _).bind fun _ => stands_step hc (Keeps.ite (calm_rewriteFile p)
    (Keeps.ite (Keeps.pure _) (Keeps.ite (calm_rewriteFile p)
      ((calm_rewriteFile prevFname).bind fun _ => calm_rewriteFile p))))

theorem sound_make (n : NewSnapshot) (cbt online : Bool) :
    Triple (Ready N n.fname) (makeSnapshot o n cbt online) (fun _ => Sound (Listed N))
      (Sound (Listed N)) := by
  rintro s ⟨d, c, htree, hc, hd, hs⟩
  have hmake : Triple (Waits (Listed N) d c) (if online then
      createSnapshot o n.fname cbt n.prevFname
      else createOffline o n.fname n.prevFname cbt n.raw n.running)
      (fun _ => Stands N n.fname d c) (Sound (Listed N)) := by
    split
    · exact stands_createSnapshot hc hd cbt n.prevFname
    · exact stands_createOffline hc hd n.prevFname cbt n.raw n.running
  refine ((attempt_spec hmake).total.bind (Q := fun _ => Sound (Listed N)) fun made => ?_) s hs
  cases made with
  | error e => exact sound_unlinkTmp.bind fun _ => Triple.raise fun _ h => h
  | ok _ =>
      refine (stands_rename hc).bind fun ok => ?_
      cases ok with
      | true => exact Triple.ret fun _ h => h.sound htree
      | false =>
          have hgone : Triple (Stands N n.fname d c)
              (if online then pure () else discard (unlinkFile o n.fname))
              (fun _ => Waits (Listed N) d c) (Sound (Listed N)) := by
            split
            · exact Triple.ret fun _ h => h.toWaits
            · exact stands_unlink.bind fun _ => Triple.ret fun _ h => h
          exact hgone.bind fun _ => (waits_unlinkTmp hc).bind fun _ =>
            Triple.raise fun _ h => h.sound hc

/-! ## Switch -/

theorem top_entry {snap : SnapshotData}
    (hsnap : c.snapshotByGuid topdeltaUuid = some snap) (hp : snap.parentGuid ≠ noneUuid) :
    (fold topdeltaUuid, some (fold snap.parentGuid)) ∈ c.entries := by
  obtain ⟨hmem, hkey⟩ := snapshotByGuid_some hsnap
  exact hkey ▸ entry_mem hmem hp

/-- The top delta is taken out of the tree, and its file with it. -/
theorem at_removeTop (hc : IsTree c) :
    Triple (At (Listed N) c c) (diRemoveImage o topdeltaUuid false) (fun file s => ∃ i,
      c.findSnapshotByGuid topdeltaUuid = some i ∧ Bare (c.dropAt i i) ∧
      At (Listed N) (c.dropAt i i) c s ∧ (N → file ∈ c.files ∧ file ∉ (c.dropAt i i).files))
      (Sound (Listed N)) := by
  refine (at_removeImage hc false).conseq (fun _ h => h) (fun _ s hs => ?_) fun _ h => h
  obtain ⟨i, j, snap, hi, hsnap, hj, hfile, -, hparent, hs⟩ := hs
  have hat := files_at hj hfile
  rw [imageIdx_eq hc.toPaired, hi] at hj
  cases hj
  refine ⟨i, hi, hc.dropTop hi (top_entry hsnap hparent), hs, fun hN => ?_⟩
  rw [files_dropAt]
  exact ⟨List.mem_of_getElem? hat, Present.not_mem_eraseIdx (hs.kept hN).nodup hat⟩

/-- The top delta has left the tree, with its file if that is to go, and `g` is still there. -/
def TopLeft (N : Prop) (c : DiskImagesData) (g : Guid) (file : Option Path) (s : World) : Prop :=
  ∃ d, Bare d ∧ fold g ∈ keys d.entries ∧ At (Listed N) d c s ∧ d.files.Sublist c.files ∧
    (N → ∀ p, file = some p → p ∈ c.files ∧ p ∉ d.files)

theorem topLeft_leave (hc : IsTree c) (hg : fold g ∈ keys c.entries)
    (hother : fold g ≠ fold topdeltaUuid) (skipDestroy : Bool) (guidOld : Option Guid)
    (hold : skipDestroy = true → ∃ n, guidOld = some n ∧ n ≠ noneUuid) :
    Triple (At (Listed N) c c) (leaveTop o topdeltaUuid skipDestroy guidOld) (TopLeft N c g)
      (Sound (Listed N)) := by
  unfold leaveTop
  cases skipDestroy with
  | true =>
      obtain ⟨n, rfl, hn⟩ := hold rfl
      refine (at_step hc (keeps_guardParam _)).bind fun _ => at_getDi (at_guardParam hc
        fun hnone => (at_modifyDi _).bind fun _ => Triple.ret fun s hs => ?_)
      have hnew := findSnapshotByGuid_none.mp (Option.isNone_iff_eq_none.mp hnone)
      refine ⟨_, hc.changeTop hn hnew, ?_, hs, ?_, fun _ p hp => by cases hp⟩
      · rw [entries_changeGuid topdelta_ne_none hn, keys_rename]
        exact List.mem_map.mpr ⟨_, hg, if_neg hother⟩
      · rw [files_changeGuid]
  | false =>
      refine (at_step hc keeps_findDev).bind fun running => at_guardParam hc fun _ => ?_
      refine (at_removeTop hc).bind fun file => Triple.ret ?_
      rintro s ⟨i, hi, hbare, hs, hfile⟩
      refine ⟨_, hbare, ?_, hs, ?_, ?_⟩
      · rw [entries_drop hc.tree hi, mem_keys_prune]
        exact ⟨hg, hother⟩
      · rw [files_dropAt]
        exact List.eraseIdx_sublist _ _
      · rintro hN p hp
        cases hp
        exact hfile hN

/-- The children of the snapshot that becomes the top delta are the top delta alone. -/
def OnlyTop (c : DiskImagesData) (g : Guid) : Prop :=
  ∀ s ∈ c.snapshots, guidEq s.parentGuid g = true → guidEq s.guid topdeltaUuid = true

theorem sound_reset (hc : IsTree c) {snap : SnapshotData} (hsnap : c.snapshotByGuid g = some snap)
    (htemp : snap.temporary = false) (hother : fold g ≠ fold topdeltaUuid) (honly : OnlyTop c g) :
    Triple (At (Listed N) c c) (resetTopDelta o g) (fun _ => Sound (Listed N))
      (Sound (Listed N)) := by
  have hg := snapshotByGuid_isSome.mp (Option.isSome_iff_exists.mpr ⟨snap, hsnap⟩)
  have hne := ne_none_of_mem hc hg
  refine at_getDi ?_
  rw [hc.top]
  refine at_orParam hc fun top htop => ?_
  cases htop
  refine (at_removeTop hc).bind fun oldFname => Triple.start fun s ⟨i, hi, hbare, hs, hfile⟩ => ?_
  refine Triple.conseq (P := At (Listed N) (c.dropAt i i) c) ?_ (fun _ ht => ht ▸ hs)
    (fun _ _ h => h) fun _ h => h
  have hprune := entries_drop hc.tree hi i
  have htree : IsTree ((c.dropAt i i).changeGuid g topdeltaUuid) := by
    refine hbare.changeGuid hc.top ?_ ?_ ?_
    · rw [hprune, mem_keys_prune]
      exact ⟨hg, hother⟩
    · rw [hprune]
      intro e he heq
      obtain ⟨hmem, hnetop⟩ := mem_prune.mp he
      obtain ⟨x, hx, rfl⟩ := List.mem_map.mp hmem
      have hparent := (parentKey_eq_some fun hnone => hne (fold_eq_noneUuid.mp hnone)).mp heq
      exact hnetop (guidEq_iff_fold.mp (honly x hx (guidEq_iff_fold.mpr hparent)))
    · intro x hx hkey
      have hsame := snapshotByGuid_eq hc.tree (List.mem_of_mem_eraseIdx hx) hkey
      rw [hsnap] at hsame
      exact Option.some.inj hsame ▸ htemp
  have hsub : ((c.dropAt i i).changeGuid g topdeltaUuid).files.Sublist c.files := by
    rw [files_changeGuid, files_dropAt]
    exact List.eraseIdx_sublist _ _
  refine (at_modifyDi _).bind fun _ => (attempt_spec (at_storeTmp htree hc)).total.bind
    fun stored => ?_
  cases stored with
  | error e => exact sound_unlinkTmp.bind fun _ => Triple.raise fun _ h => h
  | ok _ =>
      refine Triple.conseq (P := Due (Listed N) ((c.dropAt i i).changeGuid g topdeltaUuid) c) ?_
        (fun t ht => ⟨ht, fun hN => (ht.kept hN).sublist hsub⟩) (fun _ _ h => h) fun _ h => h
      refine (due_rename hc).bind fun ok => ?_
      cases ok with
      | true =>
          refine (at_unlink (listed_spare fun hN => ?_)).bind fun _ =>
            Triple.ret fun _ h => h.sound htree
          rw [files_changeGuid]
          exact (hfile hN).2
      | false =>
          exact (waits_unlinkTmp hc).conseq (fun _ h => h.toWaits) (fun _ _ h => h)
            (fun _ h => h) |>.bind fun _ => Triple.raise fun _ h => h.sound hc

/-- The new top delta gets its file, and the old one loses it when the new descriptor is there. -/
theorem sound_newTop (hc : IsTree c) {fname : Path} {oldFname : Option Path} (hd : Bare d)
    (hin : fold g ∈ keys d.entries) (hsub : d.files.Sublist c.files)
    (hfile : N → ∀ p, oldFname = some p → p ∈ c.files ∧ p ∉ d.files) :
    Triple (At (Listed N) d c) (do
      diAddImage o fname topdeltaUuid g
      storeDiskdescriptor o true
      match ← attempt (createSnapshotDelta o .creat fname) with
      | .error e => do
          unlinkConfTmp o
          throw e
      | .ok _ =>
          if ← renameConf o then
            match oldFname with
            | none => pure ()
            | some p => do
                let _ ← unlinkFile o p
          else do
            let _ ← unlinkFile o fname
            unlinkConfTmp o
            throw (.exit .rename) : DdM Unit) (fun _ => Sound (Listed N)) (Sound (Listed N)) := by
  refine (at_addImage hc fname g).bind fun _ => (at_storeTmp (hd.push hin) hc).bind fun _ => ?_
  have htree := @Bare.push _ _ fname hd hin
  refine (attempt_spec (stands_create hc ⟨d.files, hsub, files_push⟩ .creat)).total.bind
    fun made => ?_
  cases made with
  | error e => exact sound_unlinkTmp.bind fun _ => Triple.raise fun _ h => h
  | ok _ =>
      refine Triple.start fun s hs => ?_
      refine Triple.conseq ?_ (fun _ ht => ht ▸ hs) (fun _ _ h => h) fun _ h => h
      refine (stands_rename hc).bind fun ok => ?_
      cases ok with
      | false =>
          exact stands_unlink.bind fun _ => (waits_unlinkTmp hc).bind fun _ =>
            Triple.raise fun _ h => h.sound hc
      | true =>
          cases oldFname with
          | none => exact Triple.ret fun _ h => h.sound htree
          | some p =>
              refine (at_unlink (listed_spare fun hN => ?_)).bind fun _ =>
                Triple.ret fun _ h => h.sound htree
              obtain ⟨hold, hgone⟩ := hfile hN p rfl
              rw [files_push, List.mem_append, not_or, List.mem_singleton]
              exact ⟨hgone, fun heq => hs.fresh hN (heq ▸ hold)⟩

end Ploop.Dd
