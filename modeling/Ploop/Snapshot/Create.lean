import Ploop.Snapshot.Frame

/-!
# A snapshot of a running device

The ioctl divides the run: a step that fails before it can be undone, one that
fails after it leaves the kernel ahead of the descriptor.
-/

namespace Ploop.Dd

open Program Storage

variable {o : Outside} {α β : Type}

/-! ## The kernel and the descriptor -/

/-- The chain of the descriptor on disk, from the base up. -/
def listed (o : Outside) (conf : DiskImagesData) : Option (List Path) := do
  let di ← readDd o conf
  let top ← di.topGuid
  List.reverse <$> di.makeImagesList top

/-- The device runs on files that exist, and the descriptor on disk lists them. -/
structure InStep (o : Outside) (w : World) : Prop where
  listed : listed o w.conf = w.store.kernel
  running : w.store.kernel.isSome
  exist : ∀ stack, w.store.kernel = some stack → ∀ f ∈ stack, (w.store.files f).isSome

/-- Neither the files nor the descriptor on disk nor the kernel are touched. -/
structure Quiet (w w' : World) : Prop where
  conf : w'.conf = w.conf
  store : w'.store = w.store

theorem InStep.quiet {w w' : World} (h : InStep o w) (hq : Quiet w w') : InStep o w' := by
  have hconf := hq.conf
  have hstore := hq.store
  constructor
  · rw [hconf, hstore]
    exact h.listed
  · rw [hstore]
    exact h.running
  · rw [hstore]
    exact h.exist

/-- The two descriptors in the making are not touched either. -/
structure Still (w w' : World) : Prop extends Quiet w w' where
  di : w'.di = w.di
  confTmp : w'.confTmp = w.confTmp

instance : Timeless Quiet where
  refl _ := ⟨rfl, rfl⟩
  trans _ _ _ h h' := ⟨h'.conf.trans h.conf, h'.store.trans h.store⟩
  tick _ := ⟨rfl, rfl⟩

instance : Timeless Still where
  refl _ := ⟨⟨rfl, rfl⟩, rfl, rfl⟩
  trans _ _ _ h h' :=
    ⟨⟨h'.conf.trans h.conf, h'.store.trans h.store⟩, h'.di.trans h.di, h'.confTmp.trans h.confTmp⟩
  tick _ := ⟨⟨rfl, rfl⟩, rfl, rfl⟩

theorem quiet_di (s : World) (di : DiskImagesData) : Quiet s { s with di := di } := ⟨rfl, rfl⟩

theorem quiet_confTmp (s : World) (x : Option DiskImagesData) : Quiet s { s with confTmp := x } :=
  ⟨rfl, rfl⟩

theorem Keeps.inStep {x : DdM α} (h : Keeps Quiet x) :
    Triple (InStep o) x (fun _ => InStep o) (InStep o) :=
  Triple.start fun _ hs => (h _).conseq (fun _ h => h) (fun _ _ hq => hs.quiet hq)
    fun _ hq => hs.quiet hq

/-! ## Up to the new version of the descriptor -/

/-- What `lock_dd` has read is in memory, and nothing else has happened. -/
structure Loaded (o : Outside) (w s : World) : Prop extends Quiet w s where
  di : readDd o w.conf = some s.di

theorem Keeps.loaded {x : DdM α} {w : World} (h : Keeps Still x) (hw : InStep o w) :
    Triple (Loaded o w) x (fun _ => Loaded o w) (InStep o) := by
  refine Triple.start fun s hs => (h s).conseq (fun _ h => h) (fun _ t ht => ?_) fun t ht => ?_
  · refine ⟨IsTrans.trans (r := Quiet) _ _ _ hs.toQuiet ht.toQuiet, ?_⟩
    rw [ht.di]
    exact hs.di
  · exact hw.quiet (IsTrans.trans (r := Quiet) _ _ _ hs.toQuiet ht.toQuiet)

theorem lockDd_spec {w : World} (hw : InStep o w) :
    Triple (fun s => s = w) (lockDd o) (fun _ => Loaded o w) (InStep o) := by
  intro s hs
  subst hs
  have hquiet : Keeps Quiet (lockDd o) := keeps_lockDd quiet_di
  cases h : lockDd o s with
  | ok u t => exact ⟨hquiet.ok h, lockDd_ok h⟩
  | error e t => exact hw.quiet (hquiet.err h)

/-- The new version of the descriptor waits for its rename. -/
structure Stored (o : Outside) (w : World) : Prop extends InStep o w where
  confTmp : w.confTmp.isSome

theorem storeTmp_spec :
    Triple (InStep o) (storeDiskdescriptor o true) (fun _ => Stored o) (InStep o) := by
  refine Triple.bind (Keeps.inStep (keeps_convertDiskDescriptor quiet_di)) fun _ => ?_
  refine Triple.bind (Keeps.inStep (keeps_call _)) fun _ => Triple.update fun s hs => ?_
  exact ⟨hs.quiet (quiet_confTmp s _), rfl⟩

theorem keeps_snapGuid (guid : Option Guid) (newGuid : Guid) (di : DiskImagesData) :
    Keeps Still (match guid with
      | none => pure newGuid
      | some g => do
          guardParam (di.findSnapshotByGuid g).isNone
          pure g) := by
  cases guid with
  | none => exact Keeps.pure _
  | some g => exact (keeps_guardParam _).bind fun _ => Keeps.pure _

theorem keeps_snapDir (snapDir : Option Path) : Keeps Quiet (match snapDir with
    | none => pure none
    | some d => do
        call o (.exit .creat)
        pure (some (o.realpath d))) := by
  cases snapDir with
  | none => exact Keeps.pure _
  | some d => exact (keeps_call _).bind fun _ => Keeps.pure _

theorem checkRequest_spec {w : World} (hw : InStep o w) (guid : Option Guid) (cbt : Bool) :
    Triple (Loaded o w) (checkRequest o guid cbt) (fun r s => Loaded o w s ∧ r.running = true)
      (InStep o) := by
  have still : ∀ {β : Type} {x : DdM β}, Keeps Still x →
      Triple (Loaded o w) x (fun _ => Loaded o w) (InStep o) := fun h => Keeps.loaded h hw
  refine Triple.bind (still (Keeps.ite (keeps_call _) (Keeps.pure _))) fun _ => ?_
  refine Triple.bind (still (keeps_guardParam _)) fun _ => ?_
  refine Triple.bind (still keeps_genUuid) fun newGuid => ?_
  refine Triple.bind (still keeps_genUuid) fun fileGuid => ?_
  refine Triple.bind (still keeps_getDi) fun di => ?_
  refine Triple.bind (still (Keeps.ite keeps_genUuid (Keeps.pure _))) fun topGuid => ?_
  refine Triple.bind (still (keeps_snapGuid guid newGuid di)) fun snapGuid => ?_
  refine Triple.bind (still keeps_checkSnapshotCount) fun _ => ?_
  have hdev : Triple (Loaded o w) (findDev o) (fun r s => Loaded o w s ∧ r = true) (InStep o) := by
    refine Triple.bind (still (keeps_call _)) fun _ => Triple.look fun s hs => Triple.ret ?_
    rintro _ rfl
    refine ⟨hs, ?_⟩
    rw [hs.store]
    exact hw.running
  exact Triple.bind hdev fun running => Triple.ret fun s hs => hs

theorem listSnapshot_spec (r : Request) (snapDir : Option Path) (temporary : Bool) :
    Triple (InStep o) (listSnapshot o r snapDir temporary)
      (fun n s => Stored o s ∧ n.running = r.running) (InStep o) := by
  refine Triple.bind (Keeps.inStep (keeps_snapDir snapDir)) fun dir => ?_
  refine Triple.bind (Keeps.inStep keeps_getDi) fun di => ?_
  refine Triple.bind (Keeps.inStep (keeps_orParam _)) fun prevTop => ?_
  refine Triple.bind (Keeps.inStep (keeps_orParam _)) fun prevFname => ?_
  refine Triple.bind (Keeps.inStep (keeps_modifyDi quiet_di _)) fun _ => ?_
  refine Triple.bind (Keeps.inStep (Keeps.ite (keeps_modifyDi quiet_di _) (Keeps.pure _)))
    fun _ => ?_
  refine Triple.bind (Keeps.inStep (keeps_diAddImage quiet_di _ _ _)) fun _ => ?_
  refine Triple.bind storeTmp_spec fun _ => ?_
  exact Triple.ret fun s hs => ⟨hs, rfl⟩

/-! ## The ioctl -/

/-- The kernel has the new delta, and the descriptor on disk does not list it. -/
structure Ahead (o : Outside) (w : World) : Prop where
  stack : ∃ stack delta, listed o w.conf = some stack ∧ w.store.kernel = some (stack ++ [delta])
  confTmp : w.confTmp.isSome

/-- The file of the new delta is there, and the kernel does not know of it. -/
structure Made (o : Outside) (delta : Path) (w : World) : Prop extends Stored o w where
  fresh : ∀ stack, w.store.kernel = some stack → delta ∉ stack

theorem Made.still {delta : Path} {w w' : World} (h : Made o delta w) (hs : Still w w') :
    Made o delta w' := by
  refine ⟨⟨h.toInStep.quiet hs.toQuiet, ?_⟩, ?_⟩
  · rw [hs.confTmp]
    exact h.confTmp
  · rw [hs.store]
    exact h.fresh

/-- Files that the kernel does not know of may come and go. -/
theorem InStep.put {delta : Path} {w w' : World} (h : InStep o w) (f : Option File)
    (hfresh : ∀ stack, w.store.kernel = some stack → delta ∉ stack) (hconf : w'.conf = w.conf)
    (hstore : w'.store = w.store.put delta f) : InStep o w' := by
  have hkernel : w'.store.kernel = w.store.kernel := by
    rw [hstore]
    rfl
  constructor
  · rw [hconf, hkernel]
    exact h.listed
  · rw [hkernel]
    exact h.running
  · intro stack hstack p hp
    rw [hkernel] at hstack
    have hne : p ≠ delta := by
      rintro rfl
      exact hfresh stack hstack hp
    rw [hstore]
    change (Function.update w.store.files delta f p).isSome
    rw [Function.update_of_ne hne]
    exact h.exist stack hstack p hp

theorem createSnapshotDelta_spec (e : Sysexit) (delta : Path) :
    Triple (Stored o) (createSnapshotDelta o e delta) (fun _ => Made o delta) (InStep o) := by
  refine Triple.bind (R := fun _ => Stored o) ?_ fun t => Triple.look fun s hs => ?_
  · refine Triple.start fun s hs => (keeps_tick (I := Still) s).conseq (fun _ h => h) ?_ ?_
    · intro _ s' hs'
      refine ⟨hs.toInStep.quiet hs'.toQuiet, ?_⟩
      rw [hs'.confTmp]
      exact hs.confTmp
    · exact fun s' hs' => hs.toInStep.quiet hs'.toQuiet
  by_cases hc : (o.fails t || (s.store.files delta).isSome) = true
  · rw [if_pos hc]
    exact Triple.raise fun _ h => h ▸ hs.toInStep
  · rw [if_neg hc]
    -- the file is a new one, so it is not one of the stack
    have hfresh : ∀ stack, s.store.kernel = some stack → delta ∉ stack := by
      intro stack hstack hmem
      have hexist := hs.exist stack hstack delta hmem
      simp [hexist] at hc
    refine Triple.update ?_
    rintro _ rfl
    exact ⟨⟨hs.toInStep.put _ hfresh rfl rfl, hs.confTmp⟩, hfresh⟩

theorem unlinkFile_spec (delta : Path) :
    Triple (Made o delta) (unlinkFile o delta) (fun _ => InStep o) (InStep o) := by
  refine Triple.bind (R := fun _ => Made o delta) ?_ fun ok => Triple.look fun s hs => ?_
  · refine Triple.start fun s hs => (keeps_try (I := Still) s).conseq (fun _ h => h) ?_ ?_
    · exact fun _ s' hs' => hs.still hs'
    · exact fun s' hs' => hs.toInStep.quiet hs'.toQuiet
  by_cases hc : (ok && (s.store.files delta).isSome) = true
  · rw [if_pos hc]
    refine Triple.bind (R := fun _ => InStep o) ?_ fun _ => Triple.ret fun _ h => h
    exact fun _ _ => hs.toInStep.put none hs.fresh rfl rfl
  · rw [if_neg hc]
    exact Triple.ret fun _ h => h ▸ hs.toInStep

theorem attempt_spec {P E : World → Prop} {Q : α → World → Prop} {x : DdM α}
    (h : Triple P x Q E) : Triple P (attempt x)
      (fun r s => match r with | .ok a => Q a s | .error _ => E s) (fun _ => False) := by
  intro s hs
  have hx := h s hs
  unfold attempt
  cases hr : x s with
  | ok a t =>
      rw [hr] at hx
      exact hx
  | error e t =>
      rw [hr] at hx
      exact hx

theorem orUnlink_spec {delta : Path} {x : DdM Unit} (hx : Keeps Still x) :
    Triple (Made o delta) (orUnlink o delta x) (fun _ => Made o delta) (InStep o) := by
  have hmade : Triple (Made o delta) x (fun _ => Made o delta) (Made o delta) :=
    Triple.start fun s hs => (hx s).conseq (fun _ h => h) (fun _ _ h => hs.still h)
      fun _ h => hs.still h
  refine Triple.bind ((attempt_spec hmade).conseq (fun _ h => h) (fun _ _ h => h)
    fun _ h => h.elim) fun r => ?_
  cases r with
  | ok u => exact Triple.ret fun _ h => h
  | error e => exact Triple.bind (unlinkFile_spec delta) fun _ => Triple.raise fun _ h => h

theorem adoptDelta_spec (delta : Path) (cbt : Bool) :
    Triple (Stored o) (adoptDelta o delta cbt) (fun _ => Ahead o) (InStep o) := by
  have still : ∀ {β : Type} {x : DdM β}, Keeps Still x →
      Triple (Stored o) x (fun _ => Stored o) (InStep o) := by
    refine fun h => Triple.start fun s hs => (h s).conseq (fun _ h => h) ?_ ?_
    · intro _ s' hs'
      refine ⟨hs.toInStep.quiet hs'.toQuiet, ?_⟩
      rw [hs'.confTmp]
      exact hs.confTmp
    · exact fun s' hs' => hs.toInStep.quiet hs'.toQuiet
  refine Triple.bind (still keeps_callRc) fun _ => Triple.bind (still (keeps_call _)) fun _ => ?_
  refine Triple.bind (createSnapshotDelta_spec _ delta) fun _ => ?_
  have hcbt : Triple (Made o delta) (if cbt then orUnlink o delta (callRc o) else pure ())
      (fun _ => Made o delta) (InStep o) := by
    cases cbt with
    | true => exact orUnlink_spec keeps_callRc
    | false => exact Triple.ret fun _ h => h
  refine Triple.bind hcbt fun _ => Triple.bind (orUnlink_spec (keeps_call _)) fun _ => ?_
  refine Triple.update fun s hs => ?_
  obtain ⟨stack, hstack⟩ := Option.isSome_iff_exists.mp hs.running
  refine ⟨⟨stack, delta, ?_, ?_⟩, hs.confTmp⟩
  · rw [← hstack]
    exact hs.listed
  · change s.store.kernel.map _ = _
    rw [hstack]
    rfl

/-! ## After the ioctl -/

/-- A failure between the ioctl and the rename: of reading the state of the
bitmap or, where it is to be saved, of saving it or setting the new uuid. The
calls are counted from the one after the ioctl. -/
def cbtFails (o : Outside) (cbt : Bool) (t : ℕ) : Bool :=
  cbt && (o.fails t || (o.fails (t + 1) && (o.fails (t + 2) || o.fails (t + 3))))

/-- The number of calls before the rename. -/
def cbtCalls (o : Outside) (cbt : Bool) (t : ℕ) : ℕ :=
  if cbt then if o.fails (t + 1) then 4 else 2 else 0

def lateFailure (o : Outside) (cbt : Bool) (t : ℕ) : Bool :=
  cbtFails o cbt t || o.fails (t + cbtCalls o cbt t)

/-- The descriptor on disk and the stack of the kernel stay. -/
structure Unmoved (w w' : World) : Prop where
  conf : w'.conf = w.conf
  kernel : w'.store.kernel = w.store.kernel

instance : Timeless Unmoved where
  refl _ := ⟨rfl, rfl⟩
  trans _ _ _ h h' := ⟨h'.conf.trans h.conf, h'.kernel.trans h.kernel⟩
  tick _ := ⟨rfl, rfl⟩

theorem Ahead.not_inStep {w w' : World} (h : Ahead o w) (hw : Unmoved w w') : ¬ InStep o w' := by
  intro hin
  obtain ⟨stack, delta, hconf, hkernel⟩ := h.stack
  have heq := hin.listed
  rw [hw.conf, hw.kernel, hconf, hkernel] at heq
  have hlen := congrArg List.length (Option.some.inj heq)
  simp at hlen

theorem Quiet.unmoved {w w' : World} (h : Quiet w w') : Unmoved w w' :=
  ⟨h.conf, congrArg Store.kernel h.store⟩

theorem unlinkFile_run (p : Path) (s : World) :
    ∃ b s', unlinkFile o p s = .ok b s' ∧ Unmoved s s' := by
  unfold unlinkFile
  rw [bind_run_ok (try_run s)]
  by_cases hc : (!o.fails s.time && (s.store.files p).isSome) = true
  · refine ⟨true, { s with store := s.store.put p none, time := s.time + 1 }, ?_, ⟨rfl, rfl⟩⟩
    change (if (!o.fails s.time && (s.store.files p).isSome) = true then _ else _ : DdM Bool) _ = _
    rw [if_pos hc]
    rfl
  · refine ⟨false, { s with time := s.time + 1 }, ?_, ⟨rfl, rfl⟩⟩
    change (if (!o.fails s.time && (s.store.files p).isSome) = true then _ else _ : DdM Bool) _ = _
    rw [if_neg hc]
    rfl

theorem attempt_ok {x : DdM α} {a : α} {s s' : World} (h : x s = .ok a s') :
    attempt x s = .ok (.ok a) s' := by
  unfold attempt
  rw [h]

theorem attempt_error {x : DdM α} {e : Err} {s s' : World} (h : x s = .error e s') :
    attempt x s = .ok (.error e) s' := by
  unfold attempt
  rw [h]

theorem orUnlink_ok {delta : Path} {x : DdM Unit} {s s' : World} (h : x s = .ok () s') :
    orUnlink o delta x s = .ok () s' := by
  unfold orUnlink
  rw [bind_run_ok (attempt_ok h)]
  rfl

theorem orUnlink_error {delta : Path} {x : DdM Unit} {e : Err} {s s' : World}
    (h : x s = .error e s') : ∃ s'', orUnlink o delta x s = .error e s'' ∧ Unmoved s' s'' := by
  obtain ⟨b, s'', hunlink, hmoved⟩ := unlinkFile_run (o := o) delta s'
  refine ⟨s'', ?_, hmoved⟩
  unfold orUnlink
  rw [bind_run_ok (attempt_error h)]
  exact bind_run_ok hunlink

theorem cbtSnapshot_run (p : Path) (s : World) :
    if cbtFails o true s.time then ∃ e s', cbtSnapshot o p s = .error e s' ∧ Unmoved s s'
    else ∃ store, store.kernel = s.store.kernel ∧ cbtSnapshot o p s =
      .ok () { s with store, time := s.time + cbtCalls o true s.time } := by
  unfold cbtSnapshot
  have hread := callRc_run (o := o) s
  cases h₀ : o.fails s.time with
  | true =>
      rw [h₀, if_pos rfl] at hread
      rw [if_pos (by simp [cbtFails, h₀])]
      exact ⟨_, _, bind_run_error hread, ⟨rfl, rfl⟩⟩
  | false =>
      rw [h₀, if_neg (by decide)] at hread
      rw [bind_run_ok hread, bind_run_ok (try_run _)]
      cases h₁ : o.fails (s.time + 1) with
      | false =>
          rw [if_neg (by simp [cbtFails, h₀, h₁])]
          exact ⟨s.store, rfl, by simp only [cbtCalls, h₁]; rfl⟩
      | true =>
          obtain ⟨store, hkernel, hsave⟩ :=
            rewriteFile_run (o := o) p { s with time := s.time + 1 + 1 }
          simp only [Bool.not_true, Bool.false_eq_true, if_false]
          cases h₂ : o.fails (s.time + 2) with
          | true =>
              rw [if_pos h₂] at hsave
              rw [if_pos (by simp [cbtFails, h₁, h₂])]
              exact ⟨_, _, bind_run_error hsave, ⟨rfl, hkernel⟩⟩
          | false =>
              rw [if_neg (by simp [h₂])] at hsave
              rw [bind_run_ok hsave, callRc_run]
              cases h₃ : o.fails (s.time + 3) with
              | true =>
                  rw [if_pos (by simp [cbtFails, h₁, h₃]), if_pos rfl]
                  exact ⟨_, _, rfl, ⟨rfl, hkernel⟩⟩
              | false =>
                  rw [if_neg (by simp [cbtFails, h₀, h₂, h₃]), if_neg (by decide)]
                  exact ⟨store, hkernel, by simp only [cbtCalls, h₁]; rfl⟩

theorem renameConf_run {s : World} (h : s.confTmp.isSome) :
    ∃ s', renameConf o s = .ok (!o.fails s.time) s' ∧ (o.fails s.time → Unmoved s s') := by
  obtain ⟨x, hx⟩ := Option.isSome_iff_exists.mp h
  unfold renameConf
  rw [bind_run_ok (try_run s)]
  simp only [get_bind_run, hx]
  cases hf : o.fails s.time with
  | true => exact ⟨_, rfl, fun _ => ⟨rfl, rfl⟩⟩
  | false => exact ⟨_, rfl, fun h => absurd h Bool.false_ne_true⟩

/-- The end of `do_create_snapshot` when nothing is left but the rename. -/
def renameNew (o : Outside) : DdM Unit := do
  if ← renameConf o then pure ()
  else do
    unlinkConfTmp o
    throw (.exit .rename)

/-- What `do_create_snapshot` does after the ioctl of a running device. -/
def afterIoctl (o : Outside) (n : NewSnapshot) (cbt : Bool) : DdM Unit := do
  let made ← attempt (if cbt then orUnlink o n.fname (cbtSnapshot o n.prevFname) else pure ())
  match made with
  | .error e => do
      unlinkConfTmp o
      throw e
  | .ok _ => renameNew o

theorem drop_run (e : Err) (s : World) :
    ∃ s', (do unlinkConfTmp o; throw e : DdM Unit) s = .error e s' ∧ Quiet s s' := by
  unfold unlinkConfTmp
  rw [bind_assoc, bind_run_ok (try_run s)]
  cases o.fails s.time with
  | true => exact ⟨_, rfl, ⟨rfl, rfl⟩⟩
  | false => exact ⟨_, rfl, ⟨rfl, rfl⟩⟩

theorem renameNew_run {s : World} (h : s.confTmp.isSome) :
    if o.fails s.time then ∃ e s', renameNew o s = .error e s' ∧ Unmoved s s'
    else ∃ s', renameNew o s = .ok () s' := by
  obtain ⟨s₁, hrename, hmoved⟩ := renameConf_run (o := o) h
  unfold renameNew
  rw [bind_run_ok hrename]
  cases hf : o.fails s.time with
  | true =>
      obtain ⟨s₂, hdrop, hs₂⟩ := drop_run (o := o) (.exit .rename) s₁
      rw [if_pos rfl]
      exact ⟨_, s₂, hdrop, IsTrans.trans (r := Unmoved) _ _ _ (hmoved hf) hs₂.unmoved⟩
  | false =>
      rw [if_neg (by decide)]
      exact ⟨s₁, rfl⟩

theorem afterIoctl_run (n : NewSnapshot) (cbt : Bool) {s : World} (hs : s.confTmp.isSome) :
    if lateFailure o cbt s.time then ∃ e s', afterIoctl o n cbt s = .error e s' ∧ Unmoved s s'
    else ∃ s', afterIoctl o n cbt s = .ok () s' := by
  unfold lateFailure
  cases cbt with
  | false => exact renameNew_run hs
  | true =>
      have hcbt := cbtSnapshot_run (o := o) n.prevFname s
      cases hf : cbtFails o true s.time with
      | true =>
          rw [hf, if_pos rfl] at hcbt
          obtain ⟨e, s₁, hrun, hs₁⟩ := hcbt
          obtain ⟨s₂, hundo, hs₂⟩ : ∃ s₂, orUnlink o n.fname (cbtSnapshot o n.prevFname) s =
              .error e s₂ ∧ Unmoved s₁ s₂ := orUnlink_error hrun
          obtain ⟨s₃, hdrop, hs₃⟩ := drop_run (o := o) e s₂
          refine ⟨e, s₃, (bind_run_ok (attempt_error hundo)).trans hdrop, ?_⟩
          exact IsTrans.trans (r := Unmoved) _ _ _ hs₁
            (IsTrans.trans (r := Unmoved) _ _ _ hs₂ hs₃.unmoved)
      | false =>
          rw [hf, if_neg (by decide)] at hcbt
          obtain ⟨store, hkernel, hrun⟩ := hcbt
          have hren := renameNew_run (o := o)
            (s := { s with store, time := s.time + cbtCalls o true s.time }) hs
          have heq : afterIoctl o n true s =
              renameNew o { s with store, time := s.time + cbtCalls o true s.time } :=
            bind_run_ok (attempt_ok (orUnlink_ok hrun))
          simp only [Bool.false_or, heq]
          split at hren
          · rename_i hfail
            rw [if_pos hfail]
            obtain ⟨e, s', hs', hmoved⟩ := hren
            exact ⟨e, s', hs', hmoved.conf, hmoved.kernel.trans hkernel⟩
          · rename_i hfail
            rw [if_neg hfail]
            exact hren

theorem makeSnapshot_run (n : NewSnapshot) (cbt : Bool) {s t : World}
    (h : adoptDelta o n.fname cbt s = .ok () t) :
    makeSnapshot o n cbt true s = afterIoctl o n cbt t := by
  have hcreate : createSnapshot o n.fname cbt n.prevFname s =
      (if cbt then orUnlink o n.fname (cbtSnapshot o n.prevFname) else pure ()) t :=
    bind_run_ok h
  have hattempt : attempt (createSnapshot o n.fname cbt n.prevFname) s =
      attempt (if cbt then orUnlink o n.fname (cbtSnapshot o n.prevFname) else pure ()) t := by
    unfold attempt
    rw [hcreate]
  change EStateM.bind (attempt (createSnapshot o n.fname cbt n.prevFname)) _ s =
    EStateM.bind (attempt _) _ t
  unfold EStateM.bind
  rw [hattempt]
  rfl

theorem makeSnapshot_failed (n : NewSnapshot) (cbt : Bool) {e : Err} {s t : World}
    (h : adoptDelta o n.fname cbt s = .error e t) :
    ∃ t', makeSnapshot o n cbt true s = .error e t' ∧ Quiet t t' := by
  have hcreate : createSnapshot o n.fname cbt n.prevFname s = .error e t := bind_run_error h
  obtain ⟨t', hdrop, hquiet⟩ := drop_run (o := o) e t
  exact ⟨t', (bind_run_ok (attempt_error hcreate)).trans hdrop, hquiet⟩

end Ploop.Dd
