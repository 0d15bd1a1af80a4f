import Ploop.Convert.Phases

/-!
# A conversion, phase by phase

The images are opened, their indexes are backed up, they are marked, converted and unmarked.
Throughout the conversion can be taken back, and one that returns has turned every image.
-/

namespace Ploop.Convert

open Storage Program

section Change

variable {files cur : ℕ → File} {n base : ℕ} {u v : FmtVersion} {x₀ y : Name → Option File}
  {k : ℕ} {da : ℕ → Delta} {d : Delta} {f g : File}

/-! ## The state of one image -/

/-- The image is open as it was. -/
structure Fresh (cur : ℕ → File) (v : FmtVersion) (i : ℕ) (g : File) (d : Delta) : Prop where
  same : g = cur i
  opened : OpenedAt g d
  fits : v = .v1 → d.l2Size * d.blocksize ≤ 0xffffffff

structure Locked (cur : ℕ → File) (v : FmtVersion) (i : ℕ) (g : File) (d : Delta) : Prop where
  marked : Marked (cur i) g
  flagged : Flagged g
  file : d.file = g
  cached : Cached g g.hdr.layout (reopened d g)
  cache : d.l2Cache = none
  fits : v = .v1 → getSizeInSectors (cur i).hdr < 2 ^ 32

structure Over (files cur : ℕ → File) (v : FmtVersion) (i : ℕ) (g : File) (d : Delta) : Prop where
  turned : Turned files cur v i g
  flagged : Flagged g
  file : d.file = g

structure Unlocked (files cur : ℕ → File) (v : FmtVersion) (i : ℕ) (g : File) (_ : Delta) :
    Prop where
  turned : Turned files cur v i g
  clear : ¬ Flagged g

/-- The check of the sizes, for a size that is no multiple of the block size either. -/
theorem size_of_fits (hbs : isValidBlocksize f.hdr.layout.blocksize)
    (h : f.hdr.layout.l2Size * f.hdr.layout.blocksize ≤ 0xffffffff) :
    getSizeInSectors f.hdr < 2 ^ 32 := by
  obtain ⟨q, hq⟩ := hbs.dvd
  have hpos := hbs.pos
  have hdiv : getSizeInSectors f.hdr < (f.hdr.layout.l2Size + 1) * f.hdr.layout.blocksize :=
    Nat.lt_mul_of_div_lt (Nat.lt_succ_self _) hpos
  have hlt : f.hdr.layout.l2Size < q := by
    apply Nat.lt_of_mul_lt_mul_right (a := f.hdr.layout.blocksize)
    rw [Nat.mul_comm q, ← hq]
    omega
  have hle := Nat.mul_le_mul_right f.hdr.layout.blocksize (Nat.succ_le_of_lt hlt)
  rw [Nat.mul_comm q, ← hq] at hle
  exact hdiv.trans_le hle

theorem Fresh.size (h : Fresh cur v k g d) : v = .v1 → getSizeInSectors (cur k).hdr < 2 ^ 32 := by
  intro hv
  have hfits := h.fits hv
  rw [← h.same]
  have hbs := h.opened.opened.blocksize
  rw [h.opened.opened.l2Size, hbs] at hfits
  exact size_of_fits (hbs ▸ h.opened.blocksize) hfits

/-! ## Opening and the backups -/

/-- The images are as they were, and the first `k` are open. -/
def Opening (cur : ℕ → File) (n : ℕ) (v : FmtVersion) (k : ℕ) (da : ℕ → Delta)
    (y : Name → Option File) : Prop :=
  (∀ i < n, y (.image i) = some (cur i)) ∧ ∀ i < k, Fresh cur v i (cur i) (da i)

theorem validateDelta_spec {Good : (Name → Option File) → Prop} (hk : k < n)
    (h : Opening cur n v k da y) : Triple (Calm Good x₀ y) (validateDelta v k d)
      (fun e m => Calm Good x₀ y m ∧ Opening cur n v (k + 1) (Function.update da k e) y)
      (Sound Good x₀) := by
  apply Triple.bind (openFile_spec.conseq (fun _ hm => hm) (fun _ _ hm => hm) fun _ hm => hm.2)
  intro e
  apply Triple.known
  rintro ⟨g, hg, hopen⟩
  obtain rfl := Option.some.inj ((h.1 k hk).symm.trans hg)
  apply Triple.bind refuse_spec
  intro _
  apply Triple.ret
  rintro m ⟨hm, hfits⟩
  refine ⟨hm, h.1, fun i hi => ?_⟩
  rcases Nat.lt_succ_iff_lt_or_eq.mp hi with hlt | rfl
  · rw [Function.update_of_ne hlt.ne]
    exact h.2 i hlt
  · rw [Function.update_self]
    exact ⟨rfl, openDelta_spec hopen, fun hv => Nat.not_lt.mp fun hlarge => hfits ⟨hv, hlarge⟩⟩

/-- The images are open and as they were, and the first `k` have a backup. -/
def BackingUp (cur : ℕ → File) (n : ℕ) (v : FmtVersion) (k : ℕ) (da : ℕ → Delta)
    (y : Name → Option File) : Prop :=
  Opening cur n v n da y ∧ Backed cur k y

theorem Opening.rest (hcur : ∀ i < n, AtRest files base u i (cur i))
    (hbase : ¬ Flagged (cur base)) (h : ∀ i < n, y (.image i) = some (cur i)) :
    Good files n base y :=
  Or.inl ⟨u, fun i hi => ⟨cur i, h i hi, hcur i hi, fun heq => heq ▸ hbase⟩⟩

/-- Only backups have been written to. -/
def Undisturbed (files cur : ℕ → File) (n base : ℕ) (x₀ : Name → Option File) (m : Media) : Prop :=
  Sound (Good files n base) x₀ m ∧
    ∀ x, CrashFiles File.pwrite x₀ m.log x → ∀ i < n, x (.image i) = some (cur i)

theorem backupIdxTable_spec (c : Calls) (hcur : ∀ i < n, AtRest files base u i (cur i))
    (hbase : ¬ Flagged (cur base)) (hk : k < n) (h : BackingUp cur n v k da y) :
    Triple (Calm (Good files n base) x₀ y) (backupIdxTable c k (da k))
      (fun e m => ∃ z, Calm (Good files n base) x₀ z m ∧
        BackingUp cur n v (k + 1) (Function.update da k e) z)
      (Undisturbed files cur n base x₀) := by
  have hfresh := h.1.2 k hk
  have hrest := (hcur k hk).rests
  have himage : ∀ i < n, ∀ s, Function.update y (Name.idx k) s (.image i) = some (cur i) :=
    fun i hi s => by
      rw [update_idx_image]
      exact h.1.1 i hi
  have hgood : ∀ s, Good files n base (Function.update y (Name.idx k) s) := fun s =>
    Opening.rest hcur hbase fun i hi => himage i hi s
  apply Triple.bind (putFile_spec (hgood _))
  intro _
  have hcopy := copyIdxTable_leaves (d := da k) (c.room k) hrest.wellFormed
    (congrArg Disk.file hfresh.opened.disk) hfresh.opened.opened.blocksize
    hfresh.opened.opened.l1Size
  have hfile : (openDeltaSimple File.empty).file = File.empty := rfl
  have hgood' : ∀ g, Good files n base
      (Function.update (Function.update y (.idx k) (some File.empty)) (.idx k) (some g)) := by
    intro g
    rw [Function.update_idem]
    exact hgood _
  apply Triple.bind ((onFile_spec hfile hcopy (Function.update_self _ _ _) fun g _ =>
    hgood' g).conseq (fun _ hm => hm) (fun _ _ hm => hm) fun m hm =>
      ⟨hm.1, fun x hx i hi => (hm.2 x hx (.image i) nofun).trans (himage i hi _)⟩)
  intro b
  apply Triple.ret
  rintro m ⟨hm, -, hbackup⟩
  rw [Function.update_idem] at hm
  refine ⟨_, hm, ⟨fun i hi => himage i hi _, ?_⟩, fun i hi => ?_⟩
  · rw [Function.update_eq_self]
    exact h.1.2
  · rcases Nat.lt_succ_iff_lt_or_eq.mp hi with hlt | rfl
    · rw [update_idx_of_ne _ _ hlt.ne]
      exact h.2 i hlt
    · exact ⟨_, Function.update_self _ _ _, hbackup⟩

/-- A backup that is given up is dropped, whatever has been written of it. -/
theorem Undisturbed.drop (c : Calls) (hcur : ∀ i < n, AtRest files base u i (cur i))
    (hbase : ¬ Flagged (cur base)) (k : ℕ) {E : Media → Prop} :
    Triple (Undisturbed files cur n base x₀) (dropBackup c k)
      (fun _ => Undisturbed files cur n base x₀) E := by
  unfold dropBackup
  split
  · apply Triple.update
    rintro m ⟨hsound, himage⟩
    refine ⟨⟨hsound.init, hsound.safe.put none fun x hx => ?_⟩, fun x hx i hi => ?_⟩
    · apply Opening.rest hcur hbase
      intro i hi
      rw [update_idx_image]
      exact himage x hx i hi
    · rw [← himage _ hx.of_put i hi, update_idx_image]
  · exact Triple.ret fun _ hm => hm

/-! ## Marking -/

theorem Locked.of_fresh {w₁ w₂ : Write} {k₁ k₂ : ℕ} {e₁ e₂ : Delta} (hfresh : Fresh cur v k g d)
    (h₁ : e₁ = { d with disk := ((Disk.new g).write w₁).sync, dirtied := k₁ })
    (h₂ : e₂ = { e₁ with disk := ((Disk.new e₁.file).write w₂).sync, dirtied := k₂ })
    (hmark : Marked (cur k) e₂.file) (hflag : Flagged e₂.file) : Locked cur v k e₂.file e₂ := by
  have hopened := hfresh.opened.opened
  have hlayout : e₂.file.hdr.layout = g.hdr.layout := by
    rw [hmark.layout, hfresh.same]
  have hcache : e₂.l2Cache = none := by
    rw [h₂, h₁]
    exact hfresh.opened.cache
  refine ⟨hmark, hflag, rfl, ⟨rfl, ?_, ?_, ?_, fun p hp => ?_⟩, hcache, hfresh.size⟩
  · rw [hlayout, ← hopened.blocksize, h₂, h₁]
    rfl
  · rw [hlayout, ← hopened.version, h₂, h₁]
    rfl
  · rw [hlayout, ← hopened.l1Size, h₂, h₁]
    rfl
  · exact absurd (hcache.symm.trans hp) (Option.some_ne_none p).symm

theorem lockDelta_spec (hbase : base < n) (hcur : ∀ i < n, AtRest files base u i (cur i))
    (hk : k < n) (hphase : Phase cur n (Mixed (Fresh cur v) (Locked cur v) k) da y)
    (hg : y (.image k) = some g) (hfresh : Fresh cur v k g (da k)) :
    Triple (Calm (Good files n base) x₀ y) (lockDelta k (da k))
      (fun e m => ∃ g', Calm (Good files n base) x₀ (Function.update y (.image k) (some g')) m ∧
        Locked cur v k g' e) (Sound (Good files n base) x₀) := by
  obtain rfl := hfresh.same
  have hsize : headerBytes ≤ (cur k).size :=
    (header_le_index (hcur k hk).rests.wellFormed).trans (hcur k hk).rests.index
  have hgood : ∀ z, Marked (cur k) z →
      Good files n base (Function.update y (.image k) (some z)) := by
    intro z hz
    obtain ⟨hback, himage⟩ := hphase.update (R := fun i g => Marked (cur i) g)
      (fun i _ hik g hS => by
        rcases Nat.lt_or_gt_of_ne hik with hlt | hgt
        · exact (hS.1 hlt).marked
        · rw [(hS.2 hgt.le).same]
          exact Marked.refl _) hz
    exact good_of_marked hbase hcur hback himage
  apply Triple.bind (onFile_total (P := Marked (cur k)) (congrArg Disk.file hfresh.opened.disk)
    (dirtyDelta_leaves (Marked.refl _) ((Marked.refl _).inUse hsize)) hg hgood)
  intro e
  apply Triple.start
  rintro m ⟨hm, hmark, k₁, he⟩
  refine ((onFile_total (P := Marked (cur k)) rfl
    (changeDeltaFlags_leaves hmark (hmark.flags hsize)) (Function.update_self _ _ _) fun z hz => by
      rw [Function.update_idem]
      exact hgood z hz).conseq (fun _ h => h ▸ hm) ?_ fun _ h => h)
  rintro e₂ m' ⟨hm', hmark', k₂, he₂⟩
  rw [Function.update_idem] at hm'
  refine ⟨_, hm', Locked.of_fresh hfresh he he₂ hmark' ?_⟩
  have hfile : e₂.file = e.file.pwrite ⟨PvdHeader.offFlags, 4,
      wordBytes fun _ => e.hdr0.mFlags ||| cifFmtVersionConvert⟩ := by
    rw [he₂]
    exact (Disk.file_sync _).trans (Disk.file_write _ _)
  unfold Flagged
  rw [hfile, hdr_pwrite_flags]
  exact or_flag _

/-! ## Converting -/

theorem convertDelta_spec (hbase : base < n) (hcur : ∀ i < n, AtRest files base u i (cur i))
    (hk : k < n) (hphase : Phase cur n (Mixed (Locked cur v) (Over files cur v) k) da y)
    (hg : y (.image k) = some g) (hlocked : Locked cur v k g (da k)) :
    Triple (Calm (Good files n base) x₀ y) (onFile (.image k) (da k) (changeFmtVersion v))
      (fun e m => ∃ g', Calm (Good files n base) x₀ (Function.update y (.image k) (some g')) m ∧
        Over files cur v k g' e) (Sound (Good files n base) x₀) := by
  have hrest := (hcur k hk).rests
  have hgood : ∀ z, Midway (cur k) z →
      Good files n base (Function.update y (.image k) (some z)) := by
    intro z hz
    obtain ⟨hback, himage⟩ := hphase.update (R := fun i g => Midway (cur i) g)
      (fun i hi hik g hS => by
        rcases Nat.lt_or_gt_of_ne hik with hlt | hgt
        · exact ⟨(hS.1 hlt).flagged, (hS.1 hlt).turned.near⟩
        · have hother := hS.2 hgt.le
          exact ⟨hother.flagged, hother.marked.near (hcur i hi).rests.wellFormed⟩) hz
    exact good_of_midway hbase hcur hback himage
  have hrun := changeFmtVersion_leaves hrest.wellFormed hrest.index hlocked.fits hrest.clear
    hlocked.marked hlocked.flagged hlocked.cached hlocked.cache
  refine (onFile_spec hlocked.file hrun hg hgood).conseq (fun _ h => h) ?_ fun _ h => h.1
  rintro e m ⟨hm, hmid, hrec, hpass⟩
  obtain ⟨hrests, hversion⟩ := hrest.converted hlocked.marked hlocked.fits hrec hpass
  exact ⟨_, hm, ⟨hrests, hversion, hmid.2⟩, hmid.1, rfl⟩

/-! ## Unmarking -/

/-- The root image loses its mark first, if it comes first. -/
theorem unlock_order (hphase : Phase cur n (Mixed (Over files cur v) (Unlocked files cur v) k) da y)
    {z : File} (hzero : base = 0) (hbase : base < n)
    (hflag : ∃ g, Function.update y (.image k) (some z) (.image base) = some g ∧ Flagged g) :
    ∀ i < n, ∀ g, Function.update y (.image k) (some z) (.image i) = some g → Flagged g := by
  intro i hi g hg
  obtain ⟨g₀, hg₀, hflag⟩ := hflag
  by_cases hkb : k = base
  · by_cases hik : i = k
    · rw [hik.trans hkb, hg₀] at hg
      exact Option.some.inj hg ▸ hflag
    · rw [update_image_of_ne y _ hik] at hg
      obtain ⟨g', hg', -, hover⟩ := hphase.2 i hi
      rw [hg', Option.some.injEq] at hg
      exact hg ▸ (hover (by omega)).flagged
  · rw [update_image_of_ne y _ (Ne.symm hkb)] at hg₀
    obtain ⟨g', hg', hdone, -⟩ := hphase.2 base hbase
    rw [hg', Option.some.injEq] at hg₀
    exact absurd (hg₀ ▸ hflag) (hdone (by omega)).clear

theorem unlockDelta_spec (hbase : base < n) (hcur : ∀ i < n, AtRest files base u i (cur i))
    (hk : k < n) (hphase : Phase cur n (Mixed (Over files cur v) (Unlocked files cur v) k) da y)
    (hg : y (.image k) = some g) (hover : Over files cur v k g (da k)) :
    Triple (Calm (Good files n base) x₀ y) (unlockDelta k (da k))
      (fun e m => ∃ g', Calm (Good files n base) x₀ (Function.update y (.image k) (some g')) m ∧
        Unlocked files cur v k g' e) (Sound (Good files n base) x₀) := by
  have hwf := (hcur k hk).rests.wellFormed
  have hsize : headerBytes ≤ g.size :=
    (header_le_index hover.turned.rests.wellFormed).trans hover.turned.rests.index
  have hgood : ∀ z, Marked g z → Good files n base (Function.update y (.image k) (some z)) := by
    intro z hz
    obtain ⟨hback, himage⟩ := hphase.update (R := fun i g => Turned files cur v i g)
      (fun i _ hik g hS => by
        rcases Nat.lt_or_gt_of_ne hik with hlt | hgt
        · exact (hS.1 hlt).turned
        · exact (hS.2 hgt.le).turned) (hover.turned.marked hwf hz)
    exact good_of_turned hcur hback himage fun hzero hflag =>
      unlock_order hphase hzero hbase hflag
  apply Triple.bind (onFile_total (P := Marked g) hover.file
    (changeDeltaFlags_leaves (Marked.refl _) ((Marked.refl _).flags hsize)) hg hgood)
  intro e
  apply Triple.start
  rintro m ⟨hm, hmark, k₁, he⟩
  refine ((onFile_total (P := Marked g) rfl
    (clearDelta_leaves hmark (hmark.inUse hsize)) (Function.update_self _ _ _) fun z hz => by
      rw [Function.update_idem]
      exact hgood z hz).conseq (fun _ h => h ▸ hm) ?_ fun _ h => h)
  rintro e₂ m' ⟨hm', hmark', k₂, he₂⟩
  rw [Function.update_idem] at hm'
  refine ⟨_, hm', hover.turned.marked hwf hmark', ?_⟩
  have hfile : e₂.file = (g.pwrite ⟨PvdHeader.offFlags, 4,
      wordBytes fun _ => (da k).hdr0.mFlags &&& ~~~cifFmtVersionConvert⟩).pwrite
        ⟨PvdHeader.offDiskInUse, 4, wordBytes fun _ => 0⟩ := by
    rw [he₂, he]
    change (((Disk.new (((Disk.new g).write _).sync).file).write _).sync).file = _
    rw [Disk.file_sync, Disk.file_write, Disk.file_new, Disk.file_sync, Disk.file_write,
      Disk.file_new]
  unfold Flagged
  rw [hfile, hdr_pwrite_diskInUse, hdr_pwrite_flags, not_not]
  exact and_not_flag _

/-! ## The whole conversion -/

theorem AllRest.dropped (h : AllRest files n base y) (s : Option File) :
    AllRest files n base (Function.update y (.idx k) s) := by
  obtain ⟨u, h⟩ := h
  refine ⟨u, fun i hi => ?_⟩
  obtain ⟨g, hg, hrest⟩ := h i hi
  exact ⟨g, by rwa [update_idx_image], hrest⟩

theorem dropBackup_spec (c : Calls) (k : ℕ) {E : Media → Prop} :
    Triple (fun m => ∃ y, Calm (Good files n base) x₀ y m ∧ AllRest files n base y)
      (dropBackup c k)
      (fun _ m => ∃ y, Calm (Good files n base) x₀ y m ∧ AllRest files n base y) E := by
  unfold dropBackup
  split
  · rintro m ⟨y, hm, hrest⟩
    have hput : Triple (Calm (Good files n base) x₀ y) (putFile (.idx k) none)
        (fun _ m => ∃ y, Calm (Good files n base) x₀ y m ∧ AllRest files n base y) E :=
      (putFile_spec (Or.inl (hrest.dropped none))).conseq (fun _ h => h)
        (fun _ _ h => ⟨_, h, hrest.dropped none⟩) fun _ h => h
    exact hput m hm
  · exact Triple.ret fun _ hm => hm

theorem dropBackups_spec (c : Calls) {E : Media → Prop} :
    Triple (fun m => ∃ y, Calm (Good files n base) x₀ y m ∧ AllRest files n base y)
      (forRange (dropBackup c) 0 n)
      (fun _ m => ∃ y, Calm (Good files n base) x₀ y m ∧ AllRest files n base y) E :=
  Triple.forRange (I := fun _ m => ∃ y, Calm (Good files n base) x₀ y m ∧ AllRest files n base y)
    0 n fun k _ _ => dropBackup_spec c k

theorem backupAll_spec (c : Calls) (hcur : ∀ i < n, AtRest files base u i (cur i))
    (hbase : ¬ Flagged (cur base)) :
    Triple (fun m => Calm (Good files n base) x₀ x₀ m ∧ Opening cur n v n da x₀)
      (backupAll c n da)
      (fun da' m => ∃ y, Calm (Good files n base) x₀ y m ∧ Phase cur n (Fresh cur v) da' y)
      (Sound (Good files n base) x₀) := by
  have hloop := eachDelta_spec (f := backupIdxTable c) (E := Undisturbed files cur n base x₀)
    (I := fun k da m => ∃ y, Calm (Good files n base) x₀ y m ∧ BackingUp cur n v k da y) 0 n da
    (by
      rintro k da - hk m ⟨y, hm, hback⟩
      exact backupIdxTable_spec c hcur hbase (by omega) hback m hm)
  rw [Nat.zero_add] at hloop
  have hdrop : Triple (Undisturbed files cur n base x₀) (forRange (dropBackup c) 0 n)
      (fun _ => Undisturbed files cur n base x₀) (fun _ => False) :=
    Triple.forRange (I := fun _ => Undisturbed files cur n base x₀) 0 n fun k _ _ =>
      Undisturbed.drop c hcur hbase k
  rintro m ⟨hm, hopen⟩
  have hrun := hloop m ⟨x₀, hm, hopen, fun i hi => absurd hi (Nat.not_lt_zero i)⟩
  unfold backupAll
  cases hres : eachDelta (backupIdxTable c) 0 n da m with
  | ok da' m' =>
      rw [hres] at hrun
      obtain ⟨y, hm', ⟨himage, hfresh⟩, hback⟩ := hrun
      exact ⟨y, hm', hback, fun i hi => ⟨cur i, himage i hi, hfresh i hi⟩⟩
  | error e m' =>
      rw [hres] at hrun
      exact (hdrop.total.bind fun _ => Triple.raise fun _ h => h.1) m' hrun

/-- A conversion can be taken back at every moment, and one that returns leaves every image at
rest. -/
theorem ploopChangeFmtVersion_spec (c : Calls) (hbase : base < n)
    (hrest : AllRest files n base x₀) :
    Triple (Calm (Good files n base) x₀ x₀) (ploopChangeFmtVersion c false n v)
      (fun _ m => ∃ y, Calm (Good files n base) x₀ y m ∧ AllRest files n base y)
      (Sound (Good files n base) x₀) := by
  obtain ⟨u, hrest⟩ := hrest
  let cur : ℕ → File := fun i => (x₀ (.image i)).getD File.empty
  have himage : ∀ i < n, x₀ (.image i) = some (cur i) := by
    intro i hi
    obtain ⟨g, hg, -⟩ := hrest i hi
    simp only [cur, hg, Option.getD_some]
  have hat : ∀ i < n, AtRest files base u i (cur i) ∧ (i = base → ¬ Flagged (cur i)) := by
    intro i hi
    obtain ⟨g, hg, hstate⟩ := hrest i hi
    obtain rfl := Option.some.inj ((himage i hi).symm.trans hg)
    exact hstate
  have hcur : ∀ i < n, AtRest files base u i (cur i) := fun i hi => (hat i hi).1
  have hclear := (hat base hbase).2 rfl
  apply Triple.bind refuse_spec
  intro _
  apply Triple.bind (refuse_spec.conseq (fun _ hm => hm.1) (fun _ _ hm => hm) fun _ hm => hm)
  intro _
  apply Triple.bind ((checkUnmounted_spec _).conseq (fun _ hm => hm.1) (fun _ _ hm => hm)
    fun _ hm => hm)
  intro _
  have hvalidate := eachDelta_spec (f := validateDelta v) (E := Sound (Good files n base) x₀)
    (I := fun k da m => Calm (Good files n base) x₀ x₀ m ∧ Opening cur n v k da x₀) 0 n
    (fun _ => openDeltaSimple File.empty)
    (by
      rintro k da - hk m ⟨hm, hopen⟩
      exact validateDelta_spec (by omega) hopen m hm)
  rw [Nat.zero_add] at hvalidate
  apply Triple.bind (hvalidate.conseq
    (fun _ hm => ⟨hm, himage, fun i hi => absurd hi (Nat.not_lt_zero i)⟩) (fun _ _ hm => hm)
    fun _ hm => hm)
  intro da
  apply Triple.bind (backupAll_spec c hcur hclear)
  intro da
  apply Triple.bind (phase_spec (Q := Locked cur v) (fun k hk da y g hphase hg hfresh =>
    lockDelta_spec hbase hcur hk hphase hg hfresh) da)
  intro da
  apply Triple.bind (R := fun _ m => ∃ y, Calm (Good files n base) x₀ y m ∧
    Phase cur n (Locked cur v) da y)
  · rintro m ⟨y, hm, hphase⟩
    exact ((checkUnmounted_spec (c.find true)).conseq (fun _ h => h) (fun _ _ h => ⟨y, h, hphase⟩)
      fun _ h => h) m hm
  · intro _
    apply Triple.bind (phase_spec (Q := Over files cur v) (fun k hk da y g hphase hg hlocked =>
      convertDelta_spec hbase hcur hk hphase hg hlocked) da)
    intro da
    apply Triple.bind (phase_spec (Q := Unlocked files cur v)
      (fun k hk da y g hphase hg hover => unlockDelta_spec hbase hcur hk hphase hg hover) da)
    intro da
    refine (dropBackups_spec c).conseq ?_ (fun _ _ hm => hm) fun _ hm => hm
    rintro m ⟨y, hm, -, hphase⟩
    refine ⟨y, hm, v, fun i hi => ?_⟩
    obtain ⟨g, hg, hturned, hflag⟩ := hphase i hi
    exact ⟨g, hg, ⟨hturned.rests, fun _ => hturned.version⟩, fun _ => hflag⟩

end Change

end Ploop.Convert
