import Ploop.Convert.Converting
import Ploop.Lib.Files

/-!
# Changing the format version of a disk

`ploop_change_fmt_version` marks the images, converts them one by one and unmarks them.
`check_and_restore_fmt_version`, which runs before a mount, takes back a conversion that was
interrupted, from the backups of the index tables.
-/

namespace Ploop.Convert

open Storage Program

/-- `di->images[i]->file`, and the backup of its index next to it. -/
inductive Name where
  | image (i : ℕ)
  | idx (i : ℕ)
  deriving DecidableEq

/-- What the medium held, and what has been done to it since. -/
structure Media where
  init : Name → Option File
  log : List (FileEvent Name File Write)

def Media.new (x : Name → Option File) : Media := ⟨x, []⟩

def Media.look (m : Media) : Name → Option File := Storage.look File.pwrite m.init m.log

inductive Stop where
  | exit (c : Sysexit)
  | minusOne
  deriving DecidableEq

abbrev MediaM := EStateM Stop Media

/-- What the calls outside the images return. `find` is the answer of `ploop_find_dev_by_dd`
before and after the images are marked: `none` for an error, or whether they are mounted.
`room` is the number of clusters that can be written to a backup. -/
structure Calls where
  largeDisk : Bool
  lock : Bool
  find : Bool → Option Bool
  room : ℕ → ℕ
  unlinks : ℕ → Bool

/-! ## The source -/

def refuse (p : Prop) [Decidable p] (e : Stop) : MediaM Unit := if p then throw e else pure ()

/-- A run on a file that is open. -/
def onFile (name : Name) (d : Delta) (x : DeltaM Unit) : MediaM Delta := fun m =>
  match x (reopened d d.file) with
  | .ok _ e => .ok e { m with log := m.log ++ e.disk.log.map (.on name) }
  | .error c e => .error (.exit c) { m with log := m.log ++ e.disk.log.map (.on name) }

/-- A file is created, or unlinked. -/
def putFile (name : Name) (s : Option File) : MediaM Unit :=
  modify fun m => { m with log := m.log ++ [.put name s] }

def openFile (name : Name) (allowDirty : Bool) (e : Stop) : MediaM Delta := do
  match ((← get).look name).bind (openDelta · allowDirty) with
  | none => throw e
  | some d => pure d

/-- A loop over `da->delta_arr`. -/
def eachDelta (f : ℕ → Delta → MediaM Delta) : ℕ → ℕ → (ℕ → Delta) → MediaM (ℕ → Delta)
  | _, 0, da => pure da
  | i, k + 1, da => do
      let d ← f i (da i)
      eachDelta f (i + 1) k (Function.update da i d)

def checkUnmounted : Option Bool → MediaM Unit
  | none => throw (.exit .sys)
  | some mounted => refuse (mounted = true) (.exit .param)

/-- Step 0: `Validate` -/
def validateDelta (newVersion : FmtVersion) (i : ℕ) (_ : Delta) : MediaM Delta := do
  let d ← openFile (.image i) false (.exit .open)
  refuse (newVersion = .v1 ∧ 0xffffffff < d.l2Size * d.blocksize) (.exit .param)
  pure d

/-- `backup_idx_table` -/
def backupIdxTable (c : Calls) (i : ℕ) (d : Delta) : MediaM Delta := do
  putFile (.idx i) (some File.empty)
  let _ ← onFile (.idx i) (openDeltaSimple File.empty) (copyIdxTable (c.room i) d)
  pure d

/-- Step 2: `Lock deltas` -/
def lockDelta (i : ℕ) (d : Delta) : MediaM Delta := do
  let d ← onFile (.image i) d dirtyDelta
  onFile (.image i) d (changeDeltaFlags (d.hdr0.mFlags ||| cifFmtVersionConvert))

/-- Step 4: `Unlock` -/
def unlockDelta (i : ℕ) (d : Delta) : MediaM Delta := do
  let d ← onFile (.image i) d (changeDeltaFlags (d.hdr0.mFlags &&& ~~~cifFmtVersionConvert))
  onFile (.image i) d clearDelta

/-- `unlink` of a backup; that it fails is only reported. -/
def dropBackup (c : Calls) (i : ℕ) : MediaM Unit :=
  if c.unlinks i then putFile (.idx i) none else pure ()

/-- Step 1, with the way to `err_rm` -/
def backupAll (c : Calls) (n : ℕ) (da : ℕ → Delta) : MediaM (ℕ → Delta) := fun m =>
  match eachDelta (backupIdxTable c) 0 n da m with
  | .ok da' m' => .ok da' m'
  | .error e m' => (forRange (dropBackup c) 0 n >>= fun _ => throw e : MediaM (ℕ → Delta)) m'

/-- `ploop_change_fmt_version` -/
def ploopChangeFmtVersion (c : Calls) (raw : Bool) (n : ℕ) (newVersion : FmtVersion) :
    MediaM Unit := do
  refuse (newVersion = .v2 ∧ c.largeDisk = false) (.exit .param)
  refuse (c.lock = false) (.exit .lock)
  if raw then pure ()
  else do
    checkUnmounted (c.find false)
    let da ← eachDelta (validateDelta newVersion) 0 n fun _ => openDeltaSimple File.empty
    let da ← backupAll c n da
    let da ← eachDelta lockDelta 0 n da
    checkUnmounted (c.find true)
    let da ← eachDelta (fun i d => onFile (.image i) d (changeFmtVersion newVersion)) 0 n da
    let _ ← eachDelta unlockDelta 0 n da
    forRange (dropBackup c) 0 n

/-- `restore_fmt_version` -/
def restoreFmtVersion (c : Calls) (i : ℕ) : MediaM Unit := do
  let d ← openFile (.image i) true .minusOne
  if d.hdr0.mFlags &&& cifFmtVersionConvert = 0 then pure ()
  else do
    let idelta ← openFile (.idx i) true .minusOne
    let d ← onFile (.image i) d (doRestoreFmtVersion idelta)
    let d ← onFile (.image i) d (changeDeltaFlags (d.hdr0.mFlags &&& ~~~cifFmtVersionConvert))
    let _ ← onFile (.image i) d clearDelta
    dropBackup c i

/-- `check_and_restore_fmt_version`; `base` is the place of the root image. -/
def checkAndRestoreFmtVersion (c : Calls) (raw : Bool) (n : ℕ) (base : Option ℕ) :
    MediaM Unit :=
  if raw then pure ()
  else
    match base with
    | none => throw (.exit .param)
    | some b => do
        let d ← openFile (.image b) true .minusOne
        if d.hdr0.mFlags &&& cifFmtVersionConvert = 0 then pure ()
        else do
          forRange (fun i => if i = b then pure () else restoreFmtVersion c i) 0 n
          restoreFmtVersion c b

/-! ## Rules -/

section Rules

variable {Good : (Name → Option File) → Prop} {x₀ y : Name → Option File}

/-- The run has been safe so far. -/
structure Sound (Good : (Name → Option File) → Prop) (x₀ : Name → Option File) (m : Media) :
    Prop where
  init : m.init = x₀
  safe : SafeFiles File.pwrite Good x₀ m.log

/-- The run has been safe so far, nothing waits to be written, and the files are `y`. -/
structure Calm (Good : (Name → Option File) → Prop) (x₀ y : Name → Option File) (m : Media) :
    Prop extends Sound Good x₀ m where
  quiet : Quiet x₀ m.log
  look : m.look = y

theorem Calm.good {m : Media} (h : Calm Good x₀ y m) : Good y := by
  have hnow := h.safe.now
  rw [← h.init] at hnow
  exact h.look ▸ hnow

theorem Calm.seen {m : Media} (h : Calm Good x₀ y m) : Storage.look File.pwrite x₀ m.log = y := by
  rw [← h.init]
  exact h.look

theorem calm_new (h : Good x₀) : Calm Good x₀ x₀ (Media.new x₀) where
  init := rfl
  safe := safeFiles_nil h
  quiet := quiet_nil
  look := look_nil

/-- What is found of the other files after a run on one of them. -/
def Spares (y : Name → Option File) (name : Name) (x₀ : Name → Option File) (m : Media) : Prop :=
  ∀ x, CrashFiles File.pwrite x₀ m.log x → ∀ other, other ≠ name → x other = y other

theorem onFile_spec {name : Name} {d : Delta} {x : DeltaM Unit} {f : File} {P : File → Prop}
    {Q : Delta → Prop} (hd : d.file = f)
    (hx : Triple (fun e => e = reopened d f) x (fun _ => Leaves f P Q)
      (fun e => Guarded f P e.disk))
    (hy : y name = some f) (hgood : ∀ g, P g → Good (Function.update y name (some g))) :
    Triple (Calm Good x₀ y) (onFile name d x)
      (fun e m => Calm Good x₀ (Function.update y name (some e.file)) m ∧ P e.file ∧ Q e)
      (fun m => Sound Good x₀ m ∧ Spares y name x₀ m) := by
  intro m hm
  have hlook : Storage.look File.pwrite x₀ m.log name = some f := by rw [hm.seen, hy]
  have hsafe : ∀ e : Delta, Guarded f P e.disk →
      SafeFiles File.pwrite Good x₀ (m.log ++ e.disk.log.map (.on name)) := by
    intro e he
    have hsafe := he.safe
    unfold Disk.Safe at hsafe
    rw [he.init] at hsafe
    refine hm.safe.on hm.quiet hlook (hsafe.mono fun _ g hg => ?_)
    rw [hm.seen]
    exact hgood g hg
  have hrun := hx (reopened d f) rfl
  unfold onFile
  rw [hd]
  cases hres : x (reopened d f) with
  | error c e =>
      rw [hres] at hrun
      refine ⟨⟨hm.init, hsafe e hrun⟩, fun x hx other hother => ?_⟩
      rw [hx.of_on hm.quiet hother, hm.seen]
  | ok u e =>
      rw [hres] at hrun
      obtain ⟨hguard, hpend, hQ⟩ := hrun
      refine ⟨⟨⟨hm.init, hsafe e hguard⟩, hm.quiet.on hpend, ?_⟩, hguard.file, hQ⟩
      unfold Media.look
      dsimp only
      rw [hm.init, look_on hm.quiet hlook, hm.seen, ← hguard.init]
      rfl

/-- A run that cannot fail. -/
theorem onFile_total {name : Name} {d : Delta} {x : DeltaM Unit} {f : File} {P : File → Prop}
    {Q : Delta → Prop} {E : Media → Prop} (hd : d.file = f)
    (hx : Triple (fun e => e = reopened d f) x (fun _ => Leaves f P Q) (fun _ => False))
    (hy : y name = some f) (hgood : ∀ g, P g → Good (Function.update y name (some g))) :
    Triple (Calm Good x₀ y) (onFile name d x)
      (fun e m => Calm Good x₀ (Function.update y name (some e.file)) m ∧ P e.file ∧ Q e) E := by
  intro m hm
  have hrun := onFile_spec hd hx.total hy hgood m hm
  obtain ⟨_, e, hres, -⟩ := hx.exists_ok rfl
  have hok : ∃ m', onFile name d x m = .ok e m' := by
    unfold onFile
    rw [hd, hres]
    exact ⟨_, rfl⟩
  obtain ⟨m', hok⟩ := hok
  rw [hok] at hrun ⊢
  exact hrun

theorem putFile_spec {name : Name} {s : Option File} {E : Media → Prop}
    (hgood : Good (Function.update y name s)) : Triple (Calm Good x₀ y) (putFile name s)
      (fun _ => Calm Good x₀ (Function.update y name s)) E := by
  apply Triple.update
  intro m hm
  refine ⟨⟨hm.init, hm.safe.put s fun x hx => ?_⟩, hm.quiet.put s, ?_⟩
  · rw [hm.quiet.crash hx, hm.seen]
    exact hgood
  · unfold Media.look
    dsimp only
    rw [hm.init, look_put, hm.seen]

theorem openFile_spec {name : Name} {allowDirty : Bool} {e : Stop} :
    Triple (Calm Good x₀ y) (openFile name allowDirty e)
      (fun d m => Calm Good x₀ y m ∧ ∃ f, y name = some f ∧ openDelta f allowDirty = some d)
      (fun m => (y name).bind (openDelta · allowDirty) = none ∧ Sound Good x₀ m) := by
  apply Triple.look
  intro m hm
  rw [hm.look]
  cases hopen : (y name).bind (openDelta · allowDirty) with
  | none =>
      apply Triple.raise
      rintro _ rfl
      exact ⟨rfl, hm.toSound⟩
  | some d =>
      apply Triple.ret
      rintro _ rfl
      exact ⟨hm, Option.bind_eq_some_iff.mp hopen⟩

theorem refuse_spec {p : Prop} [Decidable p] {e : Stop} :
    Triple (Calm Good x₀ y) (refuse p e) (fun _ m => Calm Good x₀ y m ∧ ¬ p) (Sound Good x₀) := by
  unfold refuse
  split
  · exact Triple.raise fun m hm => hm.toSound
  · exact Triple.ret fun m hm => ⟨hm, ‹_›⟩

theorem checkUnmounted_spec (r : Option Bool) :
    Triple (Calm Good x₀ y) (checkUnmounted r) (fun _ => Calm Good x₀ y) (Sound Good x₀) := by
  cases r with
  | none => exact Triple.raise fun m hm => hm.toSound
  | some mounted => exact refuse_spec.conseq (fun _ h => h) (fun _ _ h => h.1) fun _ h => h

/-- Loop rule. -/
theorem eachDelta_spec {f : ℕ → Delta → MediaM Delta} {I : ℕ → (ℕ → Delta) → Media → Prop}
    {E : Media → Prop} (a k : ℕ) (da : ℕ → Delta)
    (h : ∀ i da, a ≤ i → i < a + k →
      Triple (I i da) (f i (da i)) (fun d => I (i + 1) (Function.update da i d)) E) :
    Triple (I a da) (eachDelta f a k da) (fun da' => I (a + k) da') E := by
  induction k generalizing a da with
  | zero => exact Triple.ret fun _ hm => hm
  | succ k ih =>
      refine Triple.bind (h a da le_rfl (by omega)) fun d => ?_
      have hrest := ih (a + 1) (Function.update da a d) fun i da hi hik =>
        h i da (by omega) (by omega)
      rwa [show a + 1 + k = a + (k + 1) by omega] at hrest

end Rules

end Ploop.Convert
