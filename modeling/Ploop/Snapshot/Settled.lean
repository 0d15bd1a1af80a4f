import Ploop.Snapshot.Create
import Ploop.Snapshot.Tree

/-!
# The descriptors during a call

A call edits the descriptor in memory while the one on disk stays as it is, up to the moment when
it is replaced. `K` is what is to be kept between the descriptor on disk and the files.
-/

namespace Ploop.Dd

open Program Rooted Storage

/-! ## Files -/

def DiskImagesData.files (di : DiskImagesData) : List Path := di.images.map ImageData.file

/-- The files are different ones, and are there. -/
structure Present (fs : List Path) (st : Store) : Prop where
  nodup : fs.Nodup
  exist : ∀ f ∈ fs, (st.files f).isSome

section Present

variable {fs fs' : List Path} {st st' : Store} {p : Path} {j : ℕ}

theorem Present.sublist (h : Present fs st) (hsub : fs'.Sublist fs) : Present fs' st :=
  ⟨h.nodup.sublist hsub, fun f hf => h.exist f (hsub.subset hf)⟩

theorem Present.mono (h : Present fs st)
    (hst : ∀ f, (st.files f).isSome → (st'.files f).isSome) : Present fs st' :=
  ⟨h.nodup, fun f hf => hst f (h.exist f hf)⟩

theorem Present.push (h : Present fs st) (hsub : fs'.Sublist fs) (hp : p ∉ fs)
    (hin : (st.files p).isSome) : Present (fs' ++ [p]) st where
  nodup := by
    refine (h.nodup.sublist hsub).append (List.nodup_singleton p) ?_
    simpa using fun hmem => hp (hsub.subset hmem)
  exist f hf := by
    rcases List.mem_append.mp hf with hold | hnew
    · exact h.exist f (hsub.subset hold)
    · exact List.mem_singleton.mp hnew ▸ hin

theorem Present.unlink (h : Present fs st) (hp : p ∉ fs) : Present fs (st.put p none) where
  nodup := h.nodup
  exist f hf := by
    have hne : f ≠ p := fun heq => hp (heq ▸ hf)
    simpa [Store.put, Function.update_of_ne hne] using h.exist f hf

/-- The file of an entry that is taken out is not listed any more. -/
theorem Present.not_mem_eraseIdx (h : fs.Nodup) (hp : fs[j]? = some p) : p ∉ fs.eraseIdx j := by
  rw [List.mem_eraseIdx_iff_getElem?]
  rintro ⟨i, hne, hi⟩
  have hlt := (List.getElem?_eq_some_iff.mp hi).1
  exact hne ((List.getElem?_inj hlt h).mp (hi.trans hp.symm))

end Present

section Files

variable {d : DiskImagesData} {g n : Guid} {i j : ℕ} {file : Path}

theorem files_changeGuid : (d.changeGuid g n).files = d.files := by
  unfold DiskImagesData.files DiskImagesData.changeGuid
  rw [List.map_map]
  rfl

theorem files_changeParentGuid : (d.changeParentGuid i g n).files = d.files := by
  unfold DiskImagesData.files DiskImagesData.changeParentGuid
  rw [List.map_map]
  rfl

theorem files_mergeGuid (s : SnapshotData) : (d.mergeGuid g s).files = d.files := by
  unfold DiskImagesData.files DiskImagesData.mergeGuid
  rw [List.map_map]
  refine List.map_congr_left fun i _ => ?_
  dsimp only [Function.comp_apply]
  split <;> rfl

theorem files_setTemporary : (d.setTemporary g).files = d.files := by
  unfold DiskImagesData.setTemporary
  cases d.findSnapshotByGuid g <;> rfl

theorem files_dropAt : (d.dropAt i j).files = d.files.eraseIdx j := (List.eraseIdx_map _ _ _).symm

theorem files_at (hj : d.findImageIdxByGuid g = some j) (hfile : d.findImageByGuid g = some file) :
    d.files[j]? = some file := by
  unfold DiskImagesData.findImageByGuid at hfile
  unfold DiskImagesData.findImageIdxByGuid at hj
  unfold DiskImagesData.files
  obtain ⟨img, himg, rfl⟩ := Option.map_eq_some_iff.mp hfile
  rw [List.find?_eq_bind_findIdx?_getElem?, hj, Option.bind_some] at himg
  rw [List.getElem?_map, himg]
  rfl

end Files

/-! ## During a call -/

variable {K : DiskImagesData → Store → Prop} {o : Outside} {α β : Type} {d c : DiskImagesData}
  {g : Guid}

/-- The descriptors are the same, and what is to be kept is. -/
structure Calm (K : DiskImagesData → Store → Prop) (s s' : World) : Prop where
  di : s'.di = s.di
  conf : s'.conf = s.conf
  confTmp : s'.confTmp = s.confTmp
  kept : ∀ c, K c s.store → K c s'.store

instance : Timeless (Calm K) where
  refl _ := ⟨rfl, rfl, rfl, fun _ h => h⟩
  trans _ _ _ h h' := ⟨h'.di.trans h.di, h'.conf.trans h.conf, h'.confTmp.trans h.confTmp,
    fun c hc => h'.kept c (h.kept c hc)⟩
  tick _ := ⟨rfl, rfl, rfl, fun _ h => h⟩

/-- There is a tree on disk. -/
structure Sound (K : DiskImagesData → Store → Prop) (s : World) : Prop where
  tree : IsTree s.conf
  kept : K s.conf s.store

/-- `d` in memory, `c` on disk. -/
structure At (K : DiskImagesData → Store → Prop) (d c : DiskImagesData) (s : World) : Prop where
  di : s.di = d
  conf : s.conf = c
  kept : K c s.store

/-- The new version of the descriptor waits. -/
structure Waits (K : DiskImagesData → Store → Prop) (d c : DiskImagesData) (s : World) : Prop
    extends At K d c s where
  confTmp : s.confTmp = some d

/-- Everything is there for its rename. -/
structure Due (K : DiskImagesData → Store → Prop) (d c : DiskImagesData) (s : World) : Prop
    extends Waits K d c s where
  due : K d s.store

/-- The same tree is in memory and on disk, without new guids. -/
def Settled (K : DiskImagesData → Store → Prop) (c : DiskImagesData) (s : World) : Prop :=
  ∃ d, IsTree d ∧ keys d.entries ⊆ keys c.entries ∧ At K d d s

section Step

variable {s t : World} {p : Path}

theorem At.sound (h : At K d c s) (hc : IsTree c) : Sound K s := by
  obtain ⟨-, rfl, hkept⟩ := h
  exact ⟨hc, hkept⟩

theorem Settled.sound (h : Settled K c s) : Sound K s := by
  obtain ⟨d, hd, -, hs⟩ := h
  exact hs.sound hd

theorem At.settled (h : At K c c s) (hc : IsTree c) : Settled K c s :=
  ⟨c, hc, List.Subset.refl _, h⟩

theorem Settled.trans (h : Settled K d s) (hkeys : keys d.entries ⊆ keys c.entries) :
    Settled K c s := by
  obtain ⟨d', hd', hkeys', hs⟩ := h
  exact ⟨d', hd', List.Subset.trans hkeys' hkeys, hs⟩

theorem Sound.calm (h : Sound K s) (ht : Calm K s t) : Sound K t :=
  ⟨ht.conf.symm ▸ h.tree, ht.conf.symm ▸ ht.kept _ h.kept⟩

theorem At.calm (h : At K d c s) (ht : Calm K s t) : At K d c t :=
  ⟨ht.di.trans h.di, ht.conf.trans h.conf, ht.kept _ h.kept⟩

theorem Waits.calm (h : Waits K d c s) (ht : Calm K s t) : Waits K d c t :=
  ⟨h.toAt.calm ht, ht.confTmp.trans h.confTmp⟩

theorem Due.calm (h : Due K d c s) (ht : Calm K s t) : Due K d c t :=
  ⟨h.toWaits.calm ht, ht.kept _ h.due⟩

theorem Settled.calm (h : Settled K c s) (ht : Calm K s t) : Settled K c t := by
  obtain ⟨d, hd, hkeys, hs⟩ := h
  exact ⟨d, hd, hkeys, hs.calm ht⟩

/-- What calm steps keep, they keep in a program. -/
theorem calm_step {P : World → Prop} {x : DdM α} (hP : ∀ s t, P s → Calm K s t → P t)
    (hsound : ∀ s, P s → Sound K s) (h : Keeps (Calm K) x) :
    Triple P x (fun _ => P) (Sound K) :=
  Triple.start fun s hs => (h s).conseq (fun _ h => h) (fun _ t ht => hP s t hs ht)
    fun _ ht => (hsound s hs).calm ht

theorem sound_step {x : DdM α} (h : Keeps (Calm K) x) :
    Triple (Sound K) x (fun _ => Sound K) (Sound K) :=
  calm_step (fun _ _ hs => hs.calm) (fun _ hs => hs) h

theorem at_step (hc : IsTree c) {x : DdM α} (h : Keeps (Calm K) x) :
    Triple (At K d c) x (fun _ => At K d c) (Sound K) :=
  calm_step (fun _ _ hs => hs.calm) (fun _ hs => hs.sound hc) h

theorem waits_step (hc : IsTree c) {x : DdM α} (h : Keeps (Calm K) x) :
    Triple (Waits K d c) x (fun _ => Waits K d c) (Sound K) :=
  calm_step (fun _ _ hs => hs.calm) (fun _ hs => hs.sound hc) h

theorem due_step (hc : IsTree c) {x : DdM α} (h : Keeps (Calm K) x) :
    Triple (Due K d c) x (fun _ => Due K d c) (Sound K) :=
  calm_step (fun _ _ hs => hs.calm) (fun _ hs => hs.sound hc) h

theorem settled_step {x : DdM α} (h : Keeps (Calm K) x) :
    Triple (Settled K c) x (fun _ => Settled K c) (Sound K) :=
  calm_step (fun _ _ hs => hs.calm) (fun _ hs => hs.sound) h

/-! ## Files that go away -/

/-- Nothing depends on the file. -/
def Spare (K : DiskImagesData → Store → Prop) (c : DiskImagesData) (p : Path) : Prop :=
  ∀ st, K c st → K c (st.put p none)

theorem unlink_run (p : Path) (s : World) : ∃ gone store, (store = s.store ∨
    store = s.store.put p none) ∧
    unlinkFile o p s = .ok gone { s with store := store, time := s.time + 1 } := by
  unfold unlinkFile
  rw [bind_run_ok (try_run s)]
  by_cases hc : (!o.fails s.time && (s.store.files p).isSome) = true
  · refine ⟨true, s.store.put p none, Or.inr rfl, ?_⟩
    change (if (!o.fails s.time && (s.store.files p).isSome) = true then _ else _ : DdM Bool) _ = _
    rw [if_pos hc]
    rfl
  · refine ⟨false, s.store, Or.inl rfl, ?_⟩
    change (if (!o.fails s.time && (s.store.files p).isSome) = true then _ else _ : DdM Bool) _ = _
    rw [if_neg hc]
    rfl

theorem at_unlink (hp : Spare K c p) {E : World → Prop} :
    Triple (At K d c) (unlinkFile o p) (fun _ => At K d c) E := by
  intro s hs
  obtain ⟨gone, store, hstore, hrun⟩ := unlink_run (o := o) p s
  rw [hrun]
  refine ⟨hs.di, hs.conf, ?_⟩
  rcases hstore with rfl | rfl
  · exact hs.kept
  · exact hp _ hs.kept

theorem waits_unlink (hp : Spare K c p) {E : World → Prop} :
    Triple (Waits K d c) (unlinkFile o p) (fun _ => Waits K d c) E := by
  intro s hs
  have hat := at_unlink (o := o) (d := d) hp (E := E) s hs.toAt
  obtain ⟨gone, store, -, hrun⟩ := unlink_run (o := o) p s
  rw [hrun] at hat ⊢
  exact ⟨hat, hs.confTmp⟩

end Step

/-! ## The descriptor is stored -/

section Descriptor

theorem at_getDi {f : DiskImagesData → DdM β} {Q : β → World → Prop} {E : World → Prop}
    (h : Triple (At K d c) (f d) Q E) : Triple (At K d c) (getDi >>= f) Q E := by
  intro s hs
  have hrun := h s hs
  rw [← hs.di] at hrun
  exact hrun

theorem at_orParam (hc : IsTree c) {a : Option α} {f : α → DdM β} {Q : β → World → Prop}
    (h : ∀ x, a = some x → Triple (At K d c) (f x) Q (Sound K)) :
    Triple (At K d c) (orParam a >>= f) Q (Sound K) := by
  cases a with
  | none => exact Triple.raise fun _ hs => hs.sound hc
  | some x => exact h x rfl

theorem at_guardParam (hc : IsTree c) {b : Bool} {f : Unit → DdM β} {Q : β → World → Prop}
    (h : b = true → Triple (At K d c) (f ()) Q (Sound K)) :
    Triple (At K d c) (guardParam b >>= f) Q (Sound K) := by
  cases b with
  | false => exact Triple.raise fun _ hs => hs.sound hc
  | true => exact h rfl

theorem at_modifyDi (f : DiskImagesData → DiskImagesData) {E : World → Prop} :
    Triple (At K d c) (modifyDi f) (fun _ => At K (f d) c) E :=
  Triple.update fun _ hs => ⟨congrArg f hs.di, hs.conf, hs.kept⟩

/-- To prove a triple, name the descriptor that is settled. -/
theorem settled_start {x : DdM α} {Q : α → World → Prop} {E : World → Prop}
    (h : ∀ d, IsTree d → keys d.entries ⊆ keys c.entries → Triple (At K d d) x Q E) :
    Triple (Settled K c) x Q E :=
  fun s ⟨d, hd, hkeys, hs⟩ => h d hd hkeys s hs

theorem at_convert (hd : IsTree d) {E : World → Prop} :
    Triple (At K d c) convertDiskDescriptor (fun _ => At K d c) E := by
  refine at_getDi ?_
  rw [hd.vol, hd.top]
  exact Triple.ret fun _ hs => hs

theorem at_storeTmp (hd : IsTree d) (hc : IsTree c) :
    Triple (At K d c) (storeDiskdescriptor o true) (fun _ => Waits K d c) (Sound K) := by
  refine (at_convert hd).bind fun _ => (at_step hc (keeps_call _)).bind fun _ => ?_
  refine Triple.update fun s hs => ⟨⟨hs.di, hs.conf, hs.kept⟩, ?_⟩
  exact congrArg some ((congrArg _ hs.di).trans hd.toPaired.toXml)

theorem at_storeConf (hd : IsTree d) (hc : IsTree c) (hkept : ∀ st, K c st → K d st) :
    Triple (At K d c) (storeDiskdescriptor o false) (fun _ => At K d d) (Sound K) := by
  refine (at_convert hd).bind fun _ => (at_step hc (keeps_call _)).bind fun _ => ?_
  refine Triple.update fun s hs => ⟨hs.di, ?_, hkept _ hs.kept⟩
  exact (congrArg _ hs.di).trans hd.toPaired.toXml

theorem due_rename (hc : IsTree c) : Triple (Due K d c) (renameConf o)
    (fun ok s => if ok then At K d d s else Due K d c s) (Sound K) := by
  refine (due_step hc keeps_try).bind fun ok => Triple.look fun s hs => ?_
  rw [hs.confTmp]
  cases ok with
  | false =>
      refine Triple.ret ?_
      rintro _ rfl
      exact hs
  | true =>
      refine Triple.bind (R := fun _ t => At K d d t) ?_ fun _ => Triple.ret fun _ ht => ht
      exact fun _ _ => ⟨hs.di, rfl, hs.due⟩

theorem waits_unlinkTmp (hc : IsTree c) :
    Triple (Waits K d c) (unlinkConfTmp o) (fun _ => At K d c) (Sound K) := by
  refine (waits_step hc keeps_try).bind fun ok => ?_
  cases ok with
  | false => exact Triple.ret fun _ hs => hs.toAt
  | true => exact Triple.update fun _ hs => ⟨hs.di, hs.conf, hs.kept⟩

theorem sound_unlinkTmp : Triple (Sound K) (unlinkConfTmp o) (fun _ => Sound K) (Sound K) := by
  refine (sound_step keeps_try).bind fun ok => ?_
  cases ok with
  | false => exact Triple.ret fun _ hs => hs
  | true => exact Triple.update fun _ hs => ⟨hs.tree, hs.kept⟩

end Descriptor

end Ploop.Dd
