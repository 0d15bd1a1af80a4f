import Ploop.Convert.Change

/-!
# Taking back an interrupted conversion

Whenever a conversion stops, at whatever point and with whatever a power failure leaves of its
last writes, `check_and_restore_fmt_version` brings every image back, and it may itself be
interrupted any number of times.
-/

namespace Ploop.Convert

open Storage Program

section Restore

variable {files : ℕ → File} {n base : ℕ} {u : FmtVersion} {x₀ y : Name → Option File}
  {Good : (Name → Option File) → Prop} {i : ℕ} {g : File}

theorem AtRest.opens (h : AtRest files base u i g) : ∃ d, openDelta g true = some d :=
  exists_openDelta h.rests.wellFormed.header
    ((four_le_index h.rests.wellFormed).trans h.rests.index) fun _ => rfl

theorem Status.opens (h : Status files base u y i) :
    ∃ g d, y (.image i) = some g ∧ openDelta g true = some d := by
  obtain ⟨g, hg, ⟨b, -, f, hf, hmid, -⟩ | ⟨hat, -⟩⟩ := h
  · obtain ⟨d, hd⟩ := hmid.2.opens hf.rests.wellFormed
      ((four_le_index hf.rests.wellFormed).trans hf.rests.index)
    exact ⟨g, d, hg, hd⟩
  · obtain ⟨d, hd⟩ := hat.opens
    exact ⟨g, d, hg, hd⟩

theorem openFile_total {name : Name} {e : Stop} {E : Media → Prop}
    (h : ∃ f d, y name = some f ∧ openDelta f true = some d) :
    Triple (Calm Good x₀ y) (openFile name true e)
      (fun d m => Calm Good x₀ y m ∧ ∃ f, y name = some f ∧ openDelta f true = some d) E := by
  obtain ⟨f, d, hf, hd⟩ := h
  refine openFile_spec.conseq (fun _ hm => hm) (fun _ _ hm => hm) ?_
  rintro m ⟨hnone, -⟩
  rw [hf, Option.bind_some, hd] at hnone
  exact absurd hnone (Option.some_ne_none d)

/-- All but image `i` and its backup are the same. -/
def Elsewhere (i : ℕ) (y z : Name → Option File) : Prop :=
  ∀ j, j ≠ i → z (.image j) = y (.image j) ∧ z (.idx j) = y (.idx j)

theorem elsewhere_image (s : Option File) : Elsewhere i y (Function.update y (.image i) s) :=
  fun _ hj => ⟨update_image_of_ne y s hj, update_image_idx y s⟩

theorem Elsewhere.idx {z : Name → Option File} (h : Elsewhere i y z) (s : Option File) :
    Elsewhere i y (Function.update z (.idx i) s) := fun j hj =>
  ⟨(update_idx_image z s).trans (h j hj).1, (update_idx_of_ne z s hj).trans (h j hj).2⟩

theorem Status.elsewhere {z : Name → Option File} {j : ℕ} (h : Status files base u y j)
    (hz : Elsewhere i y z) (hj : j ≠ i) : Status files base u z j := by
  obtain ⟨himage, hidx⟩ := hz j hj
  obtain ⟨g, hg, hstate⟩ := h
  refine ⟨g, himage.trans hg, ?_⟩
  rwa [hidx]

/-- The image holds its disk and is not marked. -/
def Clear (files : ℕ → File) (base : ℕ) (u : FmtVersion) (y : Name → Option File) (i : ℕ) : Prop :=
  ∃ g, y (.image i) = some g ∧ AtRest files base u i g ∧ ¬ Flagged g

theorem Clear.status (h : Clear files base u y i) : Status files base u y i := by
  obtain ⟨g, hg, hat, hclear⟩ := h
  exact ⟨g, hg, Or.inr ⟨hat, hclear⟩⟩

theorem Clear.elsewhere {z : Name → Option File} {j : ℕ} (h : Clear files base u y j)
    (hz : Elsewhere i y z) (hj : j ≠ i) : Clear files base u z j := by
  obtain ⟨g, hg, hstate⟩ := h
  exact ⟨g, (hz j hj).1.trans hg, hstate⟩

/-- The image comes back from its backup; at every moment it still could. -/
theorem restoreMarked_spec {d idelta : Delta} {f b : File} (c : Calls)
    (hgood : ∀ z, Elsewhere i y z → Status files base u z i → Good z)
    (hf : AtRest files base u i f) (hmid : Midway f g) (hcopy : IsBackup f b)
    (hg : y (.image i) = some g) (hb : y (.idx i) = some b) (hd : OpenedAt g d)
    (hi : OpenedAt b idelta) :
    Triple (Calm Good x₀ y) (do
        let d ← onFile (.image i) d (doRestoreFmtVersion idelta)
        let d ← onFile (.image i) d (changeDeltaFlags (d.hdr0.mFlags &&& ~~~cifFmtVersionConvert))
        let _ ← onFile (.image i) d clearDelta
        dropBackup c i)
      (fun _ m => ∃ z, Calm Good x₀ z m ∧ Elsewhere i y z ∧ Clear files base u z i)
      (fun _ => False) := by
  have hwf := hf.rests.wellFormed
  have hsize : headerBytes ≤ f.size := (header_le_index hwf).trans hf.rests.index
  have hfile : idelta.file = b := congrArg Disk.file hi.disk
  have hopened : Opened f.hdr.layout idelta := hcopy.hdr hwf ▸ hi.opened
  have hmarked : ∀ z, Midway f z → Good (Function.update y (.image i) (some z)) := fun z hz =>
    hgood _ (elsewhere_image _) ⟨z, Function.update_self _ _ _, Or.inl ⟨b, by
      rwa [update_image_idx], f, hf, hz, hcopy⟩⟩
  have hrest : ∀ z, Marked f z → AtRest files base u i z := fun z hz =>
    ⟨hf.rests.marked hz, fun hzero => by
      rw [hz.layout]
      exact hf.version hzero⟩
  have hclear : ∀ z, Marked f z ∧ ¬ Flagged z →
      Clear files base u (Function.update y (.image i) (some z)) i := fun z hz =>
    ⟨z, Function.update_self _ _ _, hrest z hz.1, hz.2⟩
  -- the index is written back
  apply Triple.bind (onFile_total (congrArg Disk.file hd.disk)
    (doRestoreFmtVersion_leaves hwf hf.rests.index hf.rests.small hmid hd.opened (hfile ▸ hcopy)
      hopened) hg hmarked)
  intro e₁
  apply Triple.known
  rintro ⟨hmid₁, hmark₁, -⟩
  -- the mark is taken away
  have hunmark : Marked f (e₁.file.pwrite ⟨PvdHeader.offFlags, 4,
      wordBytes fun _ => e₁.hdr0.mFlags &&& ~~~cifFmtVersionConvert⟩) ∧
      ¬ Flagged (e₁.file.pwrite ⟨PvdHeader.offFlags, 4,
        wordBytes fun _ => e₁.hdr0.mFlags &&& ~~~cifFmtVersionConvert⟩) := by
    refine ⟨hmark₁.flags hsize, ?_⟩
    unfold Flagged
    rw [hdr_pwrite_flags, not_not]
    exact and_not_flag _
  apply Triple.bind (onFile_total (P := fun z => Midway f z ∨ (Marked f z ∧ ¬ Flagged z)) rfl
    (changeDeltaFlags_leaves (Or.inl hmid₁) (Or.inr hunmark)) (Function.update_self _ _ _)
    fun z hz => by
      rw [Function.update_idem]
      rcases hz with hz | hz
      · exact hmarked z hz
      · exact hgood _ (elsewhere_image _) (hclear z hz).status)
  intro e₂
  apply Triple.known
  rintro ⟨-, k, he₂⟩
  have hfile₂ : Marked f e₂.file ∧ ¬ Flagged e₂.file := by
    have heq : e₂.file = e₁.file.pwrite ⟨PvdHeader.offFlags, 4,
        wordBytes fun _ => e₁.hdr0.mFlags &&& ~~~cifFmtVersionConvert⟩ := by
      rw [he₂]
      exact (Disk.file_sync _).trans (Disk.file_write _ _)
    rwa [heq]
  -- the image is closed
  have hclosed : Marked f (e₂.file.pwrite ⟨PvdHeader.offDiskInUse, 4, wordBytes fun _ => 0⟩) ∧
      ¬ Flagged (e₂.file.pwrite ⟨PvdHeader.offDiskInUse, 4, wordBytes fun _ => 0⟩) := by
    refine ⟨hfile₂.1.inUse hsize, ?_⟩
    unfold Flagged
    rw [hdr_pwrite_diskInUse]
    exact hfile₂.2
  apply Triple.bind (onFile_total (P := fun z => Marked f z ∧ ¬ Flagged z) rfl
    (clearDelta_leaves hfile₂ hclosed) (Function.update_self _ _ _) fun z hz => by
      rw [Function.update_idem, Function.update_idem]
      exact hgood _ (elsewhere_image _) (hclear z hz).status)
  intro e₃
  apply Triple.known
  rintro ⟨hfile₃, -⟩
  rw [Function.update_idem, Function.update_idem]
  have hdone := hclear _ hfile₃
  -- the backup goes
  have hdrop : Clear files base u
      (Function.update (Function.update y (.image i) (some e₃.file)) (.idx i) none) i := by
    obtain ⟨z, hz, hstate⟩ := hdone
    exact ⟨z, (update_idx_image _ _).trans hz, hstate⟩
  unfold dropBackup
  split
  · exact (putFile_spec (hgood _ ((elsewhere_image _).idx none) hdrop.status)).conseq
      (fun _ hm => hm) (fun _ _ hm => ⟨_, hm, (elsewhere_image _).idx none, hdrop⟩) fun _ hm => hm
  · exact Triple.ret fun m hm => ⟨_, hm, elsewhere_image _, hdone⟩

theorem restoreFmtVersion_spec (c : Calls)
    (hgood : ∀ z, Elsewhere i y z → Status files base u z i → Good z)
    (hstatus : Status files base u y i) :
    Triple (Calm Good x₀ y) (restoreFmtVersion c i)
      (fun _ m => ∃ z, Calm Good x₀ z m ∧ Elsewhere i y z ∧ Clear files base u z i)
      (fun _ => False) := by
  apply Triple.bind (openFile_total hstatus.opens)
  intro d
  apply Triple.known
  rintro ⟨g, hg, hopen⟩
  have hd := openDelta_spec hopen
  obtain ⟨g', hg', hstate⟩ := hstatus
  obtain rfl := Option.some.inj (hg.symm.trans hg')
  split
  case isTrue hzero =>
    rw [hd.hdr0] at hzero
    rcases hstate with ⟨b, -, f, -, hmid, -⟩ | hclear
    · exact absurd hzero hmid.1
    · exact Triple.ret fun m hm => ⟨y, hm, fun _ _ => ⟨rfl, rfl⟩, g, hg, hclear⟩
  case isFalse hflag =>
    rw [hd.hdr0] at hflag
    rcases hstate with ⟨b, hb, f, hf, hmid, hcopy⟩ | hclear
    · obtain ⟨e, he⟩ := hcopy.opens hf.rests.wellFormed
      apply Triple.bind (openFile_total ⟨b, e, hb, he⟩)
      intro idelta
      apply Triple.known
      rintro ⟨b', hb', hidx⟩
      obtain rfl := Option.some.inj (hb.symm.trans hb')
      exact restoreMarked_spec c hgood hf hmid hcopy hg hb hd (openDelta_spec hidx)
    · exact absurd hflag hclear.2

end Restore

section Recover

variable {files : ℕ → File} {n base : ℕ} {u : FmtVersion} {x₀ y : Name → Option File}

/-- All but the root image are looked at; the first `k` are back. -/
structure Recovering (files : ℕ → File) (n base : ℕ) (u : FmtVersion) (k : ℕ)
    (y : Name → Option File) : Prop where
  root : ∃ g, y (.image base) = some g ∧ Flagged g
  status : ∀ i < n, Status files base u y i
  done : ∀ i < n, i < k → i ≠ base → Clear files base u y i

theorem recovering_spec (c : Calls) {k : ℕ} (hk : k < n) :
    Triple (fun m => ∃ y, Calm (Good files n base) x₀ y m ∧ Recovering files n base u k y)
      (if k = base then pure () else restoreFmtVersion c k)
      (fun _ m => ∃ y, Calm (Good files n base) x₀ y m ∧ Recovering files n base u (k + 1) y)
      (fun _ => False) := by
  split
  case isTrue hroot =>
    apply Triple.ret
    rintro m ⟨y, hm, h⟩
    exact ⟨y, hm, h.root, h.status, fun i hi hlt hne => h.done i hi (by omega) hne⟩
  case isFalse hother =>
    rintro m ⟨y, hm, h⟩
    have hroot : ∀ z, Elsewhere k y z → ∃ g, z (.image base) = some g ∧ Flagged g := by
      intro z hz
      obtain ⟨g, hg, hflag⟩ := h.root
      exact ⟨g, (hz base (Ne.symm hother)).1.trans hg, hflag⟩
    have hall : ∀ z, Elsewhere k y z → Status files base u z k →
        ∀ i < n, Status files base u z i := by
      intro z hz hstatus i hi
      by_cases hik : i = k
      · exact hik ▸ hstatus
      · exact (h.status i hi).elsewhere hz hik
    refine ((restoreFmtVersion_spec c (fun z hz hstatus =>
      Or.inr ⟨u, hroot z hz, hall z hz hstatus⟩) (h.status k hk)).conseq (fun _ hm => hm) ?_
        fun _ hm => hm) m hm
    rintro _ m' ⟨z, hm', hz, hclear⟩
    refine ⟨z, hm', hroot z hz, hall z hz hclear.status, fun i hi hlt hne => ?_⟩
    by_cases hik : i = k
    · exact hik ▸ hclear
    · exact (h.done i hi (by omega) hne).elsewhere hz hik

/-- The recovery never fails, and leaves every image at rest. -/
theorem checkAndRestoreFmtVersion_spec (c : Calls) (hbase : base < n) :
    Triple (Calm (Good files n base) x₀ x₀) (checkAndRestoreFmtVersion c false n (some base))
      (fun _ m => ∃ y, Calm (Good files n base) x₀ y m ∧ AllRest files n base y)
      (fun _ => False) := by
  apply Triple.start
  intro m hm
  have hopens : ∃ g d, x₀ (.image base) = some g ∧ openDelta g true = some d := by
    rcases hm.good with ⟨u, hrest⟩ | ⟨u, -, hstatus⟩
    · obtain ⟨g, hg, hat, -⟩ := hrest base hbase
      obtain ⟨d, hd⟩ := hat.opens
      exact ⟨g, d, hg, hd⟩
    · exact (hstatus base hbase).opens
  apply Triple.bind (R := fun d m => Calm (Good files n base) x₀ x₀ m ∧
    ∃ f, x₀ (.image base) = some f ∧ openDelta f true = some d)
  · exact (openFile_total hopens).conseq (fun _ h => h ▸ hm) (fun _ _ h => h) fun _ h => h
  intro d
  apply Triple.known
  rintro ⟨g, hg, hopen⟩
  have hhdr := (openDelta_spec hopen).hdr0
  split
  case isTrue hzero =>
    rw [hhdr] at hzero
    rcases hm.good with hrest | ⟨u, ⟨g', hg', hflag⟩, -⟩
    · exact Triple.ret fun m hm => ⟨x₀, hm, hrest⟩
    · obtain rfl := Option.some.inj (hg.symm.trans hg')
      exact absurd hzero hflag
  case isFalse hflag =>
    rw [hhdr] at hflag
    rcases hm.good with ⟨u, hrest⟩ | ⟨u, hroot, hstatus⟩
    · obtain ⟨g', hg', -, hclear⟩ := hrest base hbase
      obtain rfl := Option.some.inj (hg.symm.trans hg')
      exact absurd hflag (hclear rfl)
    · have hloop := Triple.forRange (E := fun _ => False)
        (I := fun k m => ∃ y, Calm (Good files n base) x₀ y m ∧ Recovering files n base u k y) 0 n
        fun k _ hk => recovering_spec (u := u) c (by omega)
      rw [Nat.zero_add] at hloop
      apply Triple.bind (hloop.conseq
        (fun _ hm => ⟨x₀, hm, hroot, hstatus, fun i _ hlt => absurd hlt (Nat.not_lt_zero i)⟩)
        (fun _ _ hm => hm) fun _ hm => hm)
      -- the root image is the last
      rintro ⟨⟩ m ⟨y, hm, h⟩
      have hrest : ∀ z, Elsewhere base y z → Clear files base u z base →
          AllRest files n base z := by
        intro z hz hclear
        refine ⟨u, fun i hi => ?_⟩
        have hi' : Clear files base u z i := by
          by_cases hib : i = base
          · exact hib ▸ hclear
          · exact (h.done i hi hi hib).elsewhere hz hib
        obtain ⟨g, hg, hat, hunmarked⟩ := hi'
        exact ⟨g, hg, hat, fun _ => hunmarked⟩
      refine ((restoreFmtVersion_spec c (fun z hz hstat => ?_) (h.status base hbase)).conseq
        (fun _ hm => hm) ?_ fun _ hm => hm) m hm
      · obtain ⟨g, hg, hstate⟩ := hstat
        rcases hstate with ⟨b, hb, f, hf, hmid, hcopy⟩ | hclear
        · refine Or.inr ⟨u, ⟨g, hg, hmid.1⟩, fun i hi => ?_⟩
          by_cases hib : i = base
          · rw [hib]
            exact ⟨g, hg, Or.inl ⟨b, hb, f, hf, hmid, hcopy⟩⟩
          · exact (h.status i hi).elsewhere hz hib
        · exact Or.inl (hrest z hz ⟨g, hg, hclear⟩)
      · rintro _ m' ⟨z, hm', hz, hclear⟩
        exact ⟨z, hm', hrest z hz hclear⟩

end Recover

/-! ## Runs with crashes -/

section Runs

variable {files : ℕ → File} {n base : ℕ} {x y : Name → Option File}

/-- A conversion is started only where the last one has been finished or taken back. -/
inductive Mode where
  | rest
  | broken

/-- The run has come to its end. -/
def Ends {α : Type} (r : EStateM.Result Stop Media α) (m : Media) : Prop :=
  (∃ a, r = .ok a m) ∨ ∃ e, r = .error e m

/-- A conversion or a recovery that returns 0 leaves what a crash leaves then; one that fails or
is interrupted leaves what a crash leaves at any moment of it. -/
inductive Step (n base : ℕ) :
    Mode × (Name → Option File) → Mode × (Name → Option File) → Prop where
  | convert {c : Calls} {v : FmtVersion} {x y : Name → Option File} {m : Media}
      (h : ploopChangeFmtVersion c false n v (Media.new x) = .ok () m)
      (hy : CrashFiles File.pwrite m.init m.log y) : Step n base (.rest, x) (.rest, y)
  | convertStops {c : Calls} {v : FmtVersion} {x y : Name → Option File} {m : Media}
      {p : List (FileEvent Name File Write)}
      (h : Ends (ploopChangeFmtVersion c false n v (Media.new x)) m) (hp : p <+: m.log)
      (hy : CrashFiles File.pwrite m.init p y) : Step n base (.rest, x) (.broken, y)
  | recover {c : Calls} {mode : Mode} {x y : Name → Option File} {m : Media}
      (h : checkAndRestoreFmtVersion c false n (some base) (Media.new x) = .ok () m)
      (hy : CrashFiles File.pwrite m.init m.log y) : Step n base (mode, x) (.rest, y)
  | recoverStops {c : Calls} {mode : Mode} {x y : Name → Option File} {m : Media}
      {p : List (FileEvent Name File Write)}
      (h : Ends (checkAndRestoreFmtVersion c false n (some base) (Media.new x)) m)
      (hp : p <+: m.log) (hy : CrashFiles File.pwrite m.init p y) :
      Step n base (mode, x) (.broken, y)

/-- What holds of the medium. -/
def Kept (files : ℕ → File) (n base : ℕ) : Mode × (Name → Option File) → Prop
  | (.rest, x) => AllRest files n base x
  | (.broken, x) => Good files n base x

theorem Kept.good {mode : Mode} (h : Kept files n base (mode, x)) : Good files n base x := by
  cases mode with
  | rest => exact Or.inl h
  | broken => exact h

theorem Calm.crash {P : (Name → Option File) → Prop} {x₀ : Name → Option File} {m : Media}
    (h : Calm P x₀ x m) (hy : CrashFiles File.pwrite m.init m.log y) : y = x := by
  rw [h.init] at hy
  rw [h.quiet.crash hy, h.seen]

theorem Sound.crash {P : (Name → Option File) → Prop} {x₀ : Name → Option File} {m : Media}
    (h : Sound P x₀ m) {p : List (FileEvent Name File Write)} (hp : p <+: m.log)
    (hy : CrashFiles File.pwrite m.init p y) : P y := by
  rw [h.init] at hy
  exact h.safe p hp y hy

/-- However a run ends it has been sound. -/
theorem Ends.sound {P : (Name → Option File) → Prop} {α : Type} {prog : MediaM α}
    {Q : α → Media → Prop} (hrun : Triple (Calm P x x) prog Q (Sound P x))
    (hQ : ∀ a m, Q a m → Sound P x m) (hx : P x) {m : Media} (h : Ends (prog (Media.new x)) m) :
    Sound P x m := by
  obtain ⟨a, h⟩ | ⟨e, h⟩ := h
  · exact hQ a m (hrun.ok (calm_new hx) h)
  · exact hrun.err (calm_new hx) h

theorem Step.kept (hbase : base < n) {s t : Mode × (Name → Option File)} (h : Step n base s t)
    (hs : Kept files n base s) : Kept files n base t := by
  cases h with
  | convert h hy =>
      obtain ⟨z, hm, hrest⟩ := (ploopChangeFmtVersion_spec _ hbase hs).ok (calm_new hs.good) h
      exact hm.crash hy ▸ hrest
  | convertStops h hp hy =>
      have hsound := h.sound (ploopChangeFmtVersion_spec _ hbase hs)
        (fun _ _ ⟨_, hm, _⟩ => hm.toSound) hs.good
      exact hsound.crash hp hy
  | recover h hy =>
      obtain ⟨z, hm, hrest⟩ := (checkAndRestoreFmtVersion_spec _ hbase).ok (calm_new hs.good) h
      exact hm.crash hy ▸ hrest
  | recoverStops h hp hy =>
      have hsound := h.sound (checkAndRestoreFmtVersion_spec _ hbase).total
        (fun _ _ ⟨_, hm, _⟩ => hm.toSound) hs.good
      exact hsound.crash hp hy

/-- After any number of conversions and recoveries, each of them finished, failed or cut short by
a power failure, a recovery that is left to run succeeds, and then every image holds its disk. -/
theorem conversions_recover (hbase : base < n)
    (himage : ∀ i < n, x (.image i) = some (files i) ∧ Rests (files i) (files i))
    (hclear : ¬ Flagged (files base))
    (hone : base = 0 → ∀ i < n, (files i).hdr.layout.version = (files base).hdr.layout.version)
    {mode : Mode} (hrun : Relation.ReflTransGen (Step n base) (.rest, x) (mode, y)) (c : Calls) :
    ∃ m, checkAndRestoreFmtVersion c false n (some base) (Media.new y) = .ok () m ∧
      ∀ z, CrashFiles File.pwrite m.init m.log z → AllRest files n base z := by
  have hstart : Kept files n base (.rest, x) :=
    ⟨(files base).hdr.layout.version, fun i hi => ⟨files i, (himage i hi).1,
      ⟨(himage i hi).2, fun hzero => hone hzero i hi⟩, fun heq => heq ▸ hclear⟩⟩
  have hend : Kept files n base (mode, y) := by
    generalize (mode, y) = t at hrun
    induction hrun with
    | refl => exact hstart
    | tail _ hstep ih => exact hstep.kept hbase ih
  obtain ⟨⟨⟩, m, hok, z, hm, hrest⟩ :=
    (checkAndRestoreFmtVersion_spec c hbase).exists_ok (calm_new hend.good)
  exact ⟨m, hok, fun z' hz' => hm.crash hz' ▸ hrest⟩

end Runs

/-! ## Two images -/

/-- Two empty images, one on top of the other. -/
def twoImages : Name → Option File
  | .image 0 => some (formatted .v1 64)
  | .image 1 => some (formatted .v1 64)
  | _ => none

theorem formatted_rests {blocksize : ℕ} (hbs : isValidBlocksize blocksize) :
    Rests (formatted .v1 blocksize) (formatted .v1 blocksize) where
  wellFormed := formatted_wellFormed hbs
  index := formatted_index_le hbs
  small := by
    refine (formatted_index_le hbs).trans ?_
    rw [formatted_size hbs, s2b]
    have hle := hbs.le
    omega
  clear _ := by
    rw [(formatted_blank hbs).hdr]
    rfl
  blocksize := rfl
  disk := rfl
  content := rfl

/-- Nothing goes wrong outside the images. -/
def fairCalls : Calls := ⟨true, true, fun _ => some false, fun _ => 2 ^ 32, fun _ => true⟩

/-- A power failure hits a conversion of both images, which is then taken back. -/
theorem conversions_recover_twoImages : ∃ m y,
    Ends (ploopChangeFmtVersion fairCalls false 2 .v2 (Media.new twoImages)) m ∧
      CrashFiles File.pwrite m.init m.log y ∧
        ∃ m', checkAndRestoreFmtVersion fairCalls false 2 (some 0) (Media.new y) = .ok () m' ∧
          ∀ z, CrashFiles File.pwrite m'.init m'.log z →
            AllRest (fun _ => formatted .v1 64) 2 0 z := by
  have hbs : isValidBlocksize 64 := by decide
  have hends : ∃ m, Ends (ploopChangeFmtVersion fairCalls false 2 .v2 (Media.new twoImages)) m := by
    cases ploopChangeFmtVersion fairCalls false 2 .v2 (Media.new twoImages) with
    | ok a m => exact ⟨m, Or.inl ⟨a, rfl⟩⟩
    | error e m => exact ⟨m, Or.inr ⟨e, rfl⟩⟩
  obtain ⟨m, hm⟩ := hends
  have hcrash : CrashFiles File.pwrite m.init m.log m.look := crashFiles_look
  refine ⟨m, m.look, hm, hcrash, conversions_recover (x := twoImages) (n := 2) (by decide)
    (fun i hi => ⟨?_, formatted_rests hbs⟩) ?_ (fun _ _ _ => rfl)
    (.single (.convertStops hm (List.prefix_refl _) hcrash)) fairCalls⟩
  · interval_cases i <;> rfl
  · unfold Flagged
    rw [(formatted_blank hbs).hdr]
    decide

end Ploop.Convert
