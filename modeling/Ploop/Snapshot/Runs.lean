import Ploop.Snapshot.Adding

/-!
# Runs of the snapshot operations

Whatever fails on the way, a call leaves a tree of snapshots in the descriptor on disk, unless it
is one of the calls that put something under the top delta or lose it.
-/

namespace Ploop.Dd

open Program Rooted Storage

variable {N : Prop} {o : Outside} {α β : Type} {d c : DiskImagesData} {g : Guid} {p : Path}

/-! ## Calls -/

theorem sound_create (hc : IsTree c) {guid : Option Guid} (snapDir : Option Path)
    (cbt temporary offline : Bool) (hgiven : ∀ g, guid = some g → g ≠ noneUuid)
    (hfresh : guid = none → ∀ t, NewGuid c (o.uuid t)) :
    Triple (On (Listed N) c) (ploopCreateSnapshot o guid snapDir cbt temporary offline)
      (fun _ => Sound (Listed N)) (Sound (Listed N)) :=
  (at_lock hc).bind fun _ =>
    (ready_prepare hc snapDir cbt temporary offline hgiven hfresh).bind fun _ => sound_make _ _ _

/-- The calls of `ploop_switch_snapshot_ex` that keep the tree. -/
structure SwitchSafe (c : DiskImagesData) (g : Guid) (guidOld : Option Guid)
    (skipCreate skipDestroy : Bool) : Prop where
  other : guidEq g topdeltaUuid = false
  reset : skipCreate = true → OnlyTop c g
  leave : skipCreate = false → skipDestroy = true → ∃ n, guidOld = some n ∧ n ≠ noneUuid

theorem sound_switch (hc : IsTree c) {guidOld : Option Guid} {skipCreate skipDestroy : Bool}
    (hsafe : SwitchSafe c g guidOld skipCreate skipDestroy) :
    Triple (On (Listed N) c) (ploopSwitchSnapshotEx o g guidOld skipCreate skipDestroy)
      (fun _ => Sound (Listed N)) (Sound (Listed N)) := by
  have hother : fold g ≠ fold topdeltaUuid := by
    intro heq
    have htrue := guidEq_iff_fold.mpr heq
    rw [hsafe.other] at htrue
    cases htrue
  refine (on_step hc (keeps_guardParam _)).bind fun _ => (at_lock hc).bind fun _ =>
    at_getDi (at_guardParam hc fun _ => at_orParam hc fun snap hsnap =>
      at_guardParam hc fun htemp => ?_)
  have hg := snapshotByGuid_isSome.mp (Option.isSome_iff_exists.mpr ⟨snap, hsnap⟩)
  cases skipCreate with
  | true =>
      refine sound_reset hc hsnap ?_ hother (hsafe.reset rfl)
      simpa using htemp
  | false =>
      refine (at_step hc keeps_callRc).bind fun _ => (at_step hc keeps_genUuid).bind fun _ =>
        (at_step hc keeps_genUuid).bind fun fileUuid => ?_
      rw [hc.top]
      refine at_orParam hc fun top htop => ?_
      cases htop
      refine (topLeft_leave hc hg hother skipDestroy guidOld (hsafe.leave rfl)).bind
        fun oldFname => ?_
      rintro s ⟨d, hbare, hin, hs, hsub, hfile⟩
      exact at_getDi (sound_newTop hc hbare hin hsub hfile) s hs

/-! ## Runs -/

/-- A call of the library. -/
inductive Call where
  | create (guid : Option Guid) (snapDir : Option Path) (cbt temporary offline : Bool)
  | delete (guid : Guid)
  | merge (guid : Option Guid) (all : Bool) (newDelta : Option Path)
  | switch (guid : Guid) (guidOld : Option Guid) (skipCreate skipDestroy : Bool)

def Call.run (o : Outside) : Call → DdM Unit
  | create guid snapDir cbt temporary offline =>
      ploopCreateSnapshot o guid snapDir cbt temporary offline
  | delete guid => ploopDeleteSnapshot o guid
  | merge guid all newDelta => ploopMergeSnapshot o guid all newDelta
  | switch guid guidOld skipCreate skipDestroy =>
      ploopSwitchSnapshotEx o guid guidOld skipCreate skipDestroy

/-- A new guid is not the null guid, and a generated one is not in use; the top delta is deleted
only when its parent can take its place; a switch goes to another snapshot, which has no children
if it becomes the top delta itself, and gives the top delta that is kept another guid. -/
def Call.Safe (o : Outside) (c : DiskImagesData) : Call → Prop
  | create guid _ _ _ _ =>
      (∀ g, guid = some g → g ≠ noneUuid) ∧ (guid = none → ∀ t, NewGuid c (o.uuid t))
  | delete guid => guidEq guid topdeltaUuid = true → TopGoes c
  | merge _ _ _ => True
  | switch guid guidOld skipCreate skipDestroy => SwitchSafe c guid guidOld skipCreate skipDestroy

/-- A merge goes into the file of the parent. -/
def Call.InParent : Call → Prop
  | merge _ _ newDelta => newDelta = none
  | _ => True

theorem Call.sound (hc : IsTree c) (call : Call) (hsafe : call.Safe o c)
    (hparent : N → call.InParent) :
    Triple (On (Listed N) c) (call.run o) (fun _ => Sound (Listed N)) (Sound (Listed N)) := by
  cases call with
  | create guid snapDir cbt temporary offline =>
      exact sound_create hc snapDir cbt temporary offline hsafe.1 hsafe.2
  | delete guid =>
      exact sound_delete hc (listed_keeping fun _ => rfl)
        ⟨True.intro, fun htop => ⟨hsafe htop, fun _ _ => True.intro⟩⟩
  | merge guid all newDelta =>
      exact sound_merge hc (listed_keeping hparent)
        ⟨fun _ _ _ _ => True.intro, fun _ _ _ _ => True.intro⟩
  | switch guid guidOld skipCreate skipDestroy => exact sound_switch hc hsafe

/-- The world that a run ends in. -/
def ending : EStateM.Result Err World Unit → World
  | .ok _ s => s
  | .error _ s => s

theorem sound_ending {K : DiskImagesData → Store → Prop} {P : World → Prop} {x : DdM Unit}
    (h : Triple P x (fun _ => Sound K) (Sound K)) {s : World} (hs : P s) :
    Sound K (ending (x s)) := by
  have hrun := h s hs
  cases hx : x s with
  | ok u t =>
      rw [hx] at hrun
      exact hrun
  | error e t =>
      rw [hx] at hrun
      exact hrun

/-- One call, however it ends. Whatever is in memory, and all files and devices, may have changed
since the last one. -/
def Step (c c' : DiskImagesData) : Prop :=
  ∃ (o : Outside) (call : Call) (w : World), call.Safe o c ∧ w.conf = c ∧
    (ending (call.run o w)).conf = c'

theorem Step.isTree {c' : DiskImagesData} (h : Step c c') (hc : IsTree c) : IsTree c' := by
  obtain ⟨o, call, w, hsafe, hw, rfl⟩ := h
  exact (sound_ending (Call.sound (N := False) hc call hsafe False.elim)
    ⟨hw, False.elim⟩).tree

theorem IsTree.steps {c' : DiskImagesData} (hc : IsTree c) (h : Relation.ReflTransGen Step c c') :
    IsTree c' := by
  induction h with
  | refl => exact hc
  | tail _ hstep ih => exact hstep.isTree ih

/-- An image without snapshots. -/
def oneImage (size blocksize : ℕ) (raw : Bool) (file : Path) : DiskImagesData where
  size := size
  blocksize := blocksize
  raw := raw
  images := [⟨topdeltaUuid, file, false⟩]
  snapshots := [⟨topdeltaUuid, noneUuid, false, false⟩]
  topGuid := some topdeltaUuid
  vol := none

theorem oneImage_isTree (size blocksize : ℕ) (raw : Bool) (file : Path) :
    IsTree (oneImage size blocksize raw file) where
  vol := rfl
  images := rfl
  ownImages i hi := by rw [List.mem_singleton.mp hi]
  ownSnapshots s hs := by rw [List.mem_singleton.mp hs]
  tree := .root _
  named hnone := fold_topdelta_ne_none (List.mem_singleton.mp hnone).symm
  top := rfl
  hasTop := List.mem_cons_self
  topLeaf e he heq := by
    rw [List.mem_singleton.mp he] at heq
    cases heq
  topStays s hs _ := by rw [List.mem_singleton.mp hs]

/-- Whatever the calls are and wherever they fail, a tree is left on disk: every snapshot has one
image and, but for the one base, a parent, guids differ in more than their case, and nothing is
below the top delta. -/
theorem runs_isTree {size blocksize : ℕ} {raw : Bool} {file : Path}
    (h : Relation.ReflTransGen Step (oneImage size blocksize raw file) c) : IsTree c :=
  (oneImage_isTree size blocksize raw file).steps h

/-- Every snapshot of the tree can be mounted: the images from it down to the base are listed. -/
theorem runs_makeImagesList {size blocksize : ℕ} {raw : Bool} {file : Path}
    (h : Relation.ReflTransGen Step (oneImage size blocksize raw file) c) :
    ∀ s ∈ c.snapshots, ∃ ks files, Line c.entries (fold s.guid) ks ∧
      c.makeImagesList s.guid = some files ∧ files.map some = ks.map c.findImageByGuid := by
  have hc := (oneImage_isTree size blocksize raw file).steps h
  intro s hs
  obtain ⟨ks, hline, -⟩ := hc.tree.exists_line (List.mem_map_of_mem (mem_entries hs))
  obtain ⟨files, hchain, hmap⟩ := hc.chain hline rfl
  exact ⟨ks, files, hline, makeImagesList_iff.mpr hchain, hmap⟩

/-! ## The files of a run -/

/-- One call, however it ends. The files that were listed and there are still there when it
begins. -/
def FileStep (w w' : World) : Prop :=
  ∃ (o : Outside) (call : Call) (v : World), call.Safe o w.conf ∧ call.InParent ∧ v.conf = w.conf ∧
    (∀ f ∈ w.conf.files, (w.store.files f).isSome → (v.store.files f).isSome) ∧
    ending (call.run o v) = w'

theorem FileStep.sound {w w' : World} (h : FileStep w w') (hw : Sound (Listed True) w) :
    Sound (Listed True) w' := by
  obtain ⟨o, call, v, hsafe, hparent, hconf, hfiles, rfl⟩ := h
  have hkept := hw.kept True.intro
  refine sound_ending (Call.sound hw.tree call hsafe fun _ => hparent)
    ⟨hconf, fun _ => ⟨hkept.nodup, fun f hf => hfiles f hf (hkept.exist f hf)⟩⟩

theorem sound_of_steps {size blocksize : ℕ} {raw : Bool} {file : Path} {w w' : World}
    (hw : w.conf = oneImage size blocksize raw file) (hfile : (w.store.files file).isSome)
    (h : Relation.ReflTransGen FileStep w w') : Sound (Listed True) w' := by
  induction h with
  | refl =>
      refine ⟨hw.symm ▸ oneImage_isTree size blocksize raw file, fun _ => ?_⟩
      rw [hw]
      refine ⟨List.nodup_singleton file, fun f hf => ?_⟩
      exact List.mem_singleton.mp hf ▸ hfile
  | tail _ hstep ih => exact hstep.sound ih

/-- Wherever the calls of a run fail, also if everything fails from some point on, the descriptor
on disk lists different files, and all of them exist. -/
theorem runs_files {size blocksize : ℕ} {raw : Bool} {file : Path} {w w' : World}
    (hw : w.conf = oneImage size blocksize raw file) (hfile : (w.store.files file).isSome)
    (h : Relation.ReflTransGen FileStep w w') :
    w'.conf.files.Nodup ∧ ∀ f ∈ w'.conf.files, (w'.store.files f).isSome := by
  have hkept := (sound_of_steps hw hfile h).kept True.intro
  exact ⟨hkept.nodup, hkept.exist⟩

/-! ## A snapshot of one image -/

/-- Every call succeeds, and every generated guid is the same. -/
def oneGuid : Outside :=
  { calm with uuid := fun _ => "{22222222-2222-2222-2222-222222222222}".toList }

def oneFile : World where
  di := oneImage 4096 2048 false ['r']
  conf := oneImage 4096 2048 false ['r']
  confTmp := none
  store := ⟨fun p => if p = ['r'] then some File.empty else none, none, false⟩
  time := 0

/-- The world after a snapshot was created without a device. -/
def twoFiles : World := ending ((Call.create none none false false true).run oneGuid oneFile)

theorem create_safe :
    (Call.create none none false false true).Safe oneGuid (oneImage 4096 2048 false ['r']) := by
  refine ⟨?_, fun _ t => ⟨?_, ?_⟩⟩
  · rintro g ⟨⟩
  · change "{22222222-2222-2222-2222-222222222222}".toList ≠ noneUuid
    decide
  · change fold "{22222222-2222-2222-2222-222222222222}".toList ∉ keys _
    decide

theorem twoFiles_step : Step (oneImage 4096 2048 false ['r']) twoFiles.conf :=
  ⟨oneGuid, _, oneFile, create_safe, rfl, rfl⟩

theorem twoFiles_fileStep : FileStep oneFile twoFiles :=
  ⟨oneGuid, _, oneFile, create_safe, True.intro, rfl, fun _ _ h => h, rfl⟩

theorem runs_isTree_twoFiles : twoFiles.conf.snapshots.length = 2 ∧ IsTree twoFiles.conf :=
  ⟨by decide +kernel, runs_isTree (.single twoFiles_step)⟩

theorem runs_makeImagesList_twoFiles : twoFiles.conf.snapshots.length = 2 ∧
    ∀ s ∈ twoFiles.conf.snapshots, ∃ ks files, Line twoFiles.conf.entries (fold s.guid) ks ∧
      twoFiles.conf.makeImagesList s.guid = some files ∧
        files.map some = ks.map twoFiles.conf.findImageByGuid :=
  ⟨by decide +kernel, runs_makeImagesList (.single twoFiles_step)⟩

theorem runs_files_twoFiles : twoFiles.conf.files.length = 2 ∧ twoFiles.conf.files.Nodup ∧
    ∀ f ∈ twoFiles.conf.files, (twoFiles.store.files f).isSome :=
  ⟨by decide +kernel, runs_files rfl rfl (.single twoFiles_fileStep)⟩

end Ploop.Dd
