import Ploop.Convert.Media

/-!
# What holds throughout a conversion

At every moment of a conversion, and of its recovery, either the root image is not marked and
every image holds its disk, or every image that is marked has a backup of its index.
-/

namespace Ploop.Convert

open Storage Program

/-! ## One file of many -/

section Update

variable (y : Name → Option File) (s : Option File) {i k : ℕ}

@[simp] theorem update_image_idx :
    Function.update y (Name.image k) s (Name.idx i) = y (Name.idx i) := by
  apply Function.update_of_ne
  exact nofun

@[simp] theorem update_idx_image :
    Function.update y (Name.idx k) s (Name.image i) = y (Name.image i) := by
  apply Function.update_of_ne
  exact nofun

theorem update_image_of_ne (h : i ≠ k) :
    Function.update y (Name.image k) s (Name.image i) = y (Name.image i) :=
  Function.update_of_ne (fun heq => h (Name.image.inj heq)) _ _

theorem update_idx_of_ne (h : i ≠ k) :
    Function.update y (Name.idx k) s (Name.idx i) = y (Name.idx i) :=
  Function.update_of_ne (fun heq => h (Name.idx.inj heq)) _ _

end Update

/-! ## The invariant -/

/-- Image `i` holds its disk. Where the root image comes first all have one version. -/
structure AtRest (files : ℕ → File) (base : ℕ) (u : FmtVersion) (i : ℕ) (g : File) : Prop where
  rests : Rests (files i) g
  version : base = 0 → g.hdr.layout.version = u

/-- What the backup `b` brings back. -/
def Restorable (files : ℕ → File) (base : ℕ) (u : FmtVersion) (i : ℕ) (g b : File) : Prop :=
  ∃ f, AtRest files base u i f ∧ Midway f g ∧ IsBackup f b

def Status (files : ℕ → File) (base : ℕ) (u : FmtVersion) (x : Name → Option File) (i : ℕ) : Prop :=
  ∃ g, x (.image i) = some g ∧
    ((∃ b, x (.idx i) = some b ∧ Restorable files base u i g b) ∨
      (AtRest files base u i g ∧ ¬ Flagged g))

/-- No conversion is under way. -/
def AllRest (files : ℕ → File) (n base : ℕ) (x : Name → Option File) : Prop :=
  ∃ u, ∀ i < n, ∃ g, x (.image i) = some g ∧ AtRest files base u i g ∧ (i = base → ¬ Flagged g)

/-- A conversion can be taken back. -/
def AllMarked (files : ℕ → File) (n base : ℕ) (x : Name → Option File) : Prop :=
  ∃ u, (∃ g, x (.image base) = some g ∧ Flagged g) ∧ ∀ i < n, Status files base u x i

def Good (files : ℕ → File) (n base : ℕ) (x : Name → Option File) : Prop :=
  AllRest files n base x ∨ AllMarked files n base x

/-- Every backup is that of the image as it was before. -/
def Backed (cur : ℕ → File) (n : ℕ) (x : Name → Option File) : Prop :=
  ∀ i < n, ∃ b, x (.idx i) = some b ∧ IsBackup (cur i) b

section Invariant

variable {files cur : ℕ → File} {n base : ℕ} {u v : FmtVersion} {x : Name → Option File} {i : ℕ}
  {g : File}

theorem AtRest.marked (h : AtRest files base u i (cur i)) (hg : Marked (cur i) g) :
    AtRest files base u i g :=
  ⟨h.rests.marked hg, fun hbase => by
    rw [hg.layout]
    exact h.version hbase⟩

/-- While the images are marked. -/
theorem good_of_marked (hbase : base < n) (hcur : ∀ i < n, AtRest files base u i (cur i))
    (hback : Backed cur n x) (h : ∀ i < n, ∃ g, x (.image i) = some g ∧ Marked (cur i) g) :
    Good files n base x := by
  by_cases hflag : ∃ g, x (.image base) = some g ∧ Flagged g
  · refine Or.inr ⟨u, hflag, fun i hi => ?_⟩
    obtain ⟨g, hg, hmark⟩ := h i hi
    obtain ⟨b, hb, hcopy⟩ := hback i hi
    refine ⟨g, hg, ?_⟩
    by_cases hfg : Flagged g
    · exact Or.inl ⟨b, hb, cur i, hcur i hi, ⟨hfg, hmark.near (hcur i hi).rests.wellFormed⟩, hcopy⟩
    · exact Or.inr ⟨(hcur i hi).marked hmark, hfg⟩
  · refine Or.inl ⟨u, fun i hi => ?_⟩
    obtain ⟨g, hg, hmark⟩ := h i hi
    refine ⟨g, hg, (hcur i hi).marked hmark, ?_⟩
    rintro rfl hfg
    exact hflag ⟨g, hg, hfg⟩

/-- While the images are converted. -/
theorem good_of_midway (hbase : base < n) (hcur : ∀ i < n, AtRest files base u i (cur i))
    (hback : Backed cur n x) (h : ∀ i < n, ∃ g, x (.image i) = some g ∧ Midway (cur i) g) :
    Good files n base x := by
  refine Or.inr ⟨u, ?_, fun i hi => ?_⟩
  · obtain ⟨g, hg, hmid⟩ := h base hbase
    exact ⟨g, hg, hmid.1⟩
  · obtain ⟨g, hg, hmid⟩ := h i hi
    obtain ⟨b, hb, hcopy⟩ := hback i hi
    exact ⟨g, hg, Or.inl ⟨b, hb, cur i, hcur i hi, hmid, hcopy⟩⟩

/-- A converted image, that still can be taken back if it is marked. -/
structure Turned (files cur : ℕ → File) (v : FmtVersion) (i : ℕ) (g : File) : Prop where
  rests : Rests (files i) g
  version : g.hdr.layout.version = v
  near : Near (cur i) g

theorem Turned.marked (hcur : WellFormed (cur i)) {z : File} (h : Turned files cur v i g)
    (hz : Marked g z) : Turned files cur v i z where
  rests := h.rests.marked hz
  version := (congrArg Layout.version hz.layout).trans h.version
  near := h.near.marked hcur hz

/-- While the images are unmarked, the root image first if it comes first. -/
theorem good_of_turned (hcur : ∀ i < n, AtRest files base u i (cur i)) (hback : Backed cur n x)
    (h : ∀ i < n, ∃ g, x (.image i) = some g ∧ Turned files cur v i g)
    (horder : base = 0 → (∃ g, x (.image base) = some g ∧ Flagged g) →
      ∀ i < n, ∀ g, x (.image i) = some g → Flagged g) : Good files n base x := by
  by_cases hflag : ∃ g, x (.image base) = some g ∧ Flagged g
  · refine Or.inr ⟨u, hflag, fun i hi => ?_⟩
    obtain ⟨g, hg, hturn⟩ := h i hi
    obtain ⟨b, hb, hcopy⟩ := hback i hi
    refine ⟨g, hg, ?_⟩
    by_cases hfg : Flagged g
    · exact Or.inl ⟨b, hb, cur i, hcur i hi, ⟨hfg, hturn.near⟩, hcopy⟩
    · refine Or.inr ⟨⟨hturn.rests, fun hzero => ?_⟩, hfg⟩
      exact absurd (horder hzero hflag i hi g hg) hfg
  · refine Or.inl ⟨v, fun i hi => ?_⟩
    obtain ⟨g, hg, hturn⟩ := h i hi
    refine ⟨g, hg, ⟨hturn.rests, fun _ => hturn.version⟩, ?_⟩
    rintro rfl hfg
    exact hflag ⟨g, hg, hfg⟩

end Invariant

/-! ## Phases of a conversion -/

section Phases

variable {files cur : ℕ → File} {n base : ℕ} {u v : FmtVersion} {x₀ y : Name → Option File}

/-- Each image, with its open delta, is as `S` says. -/
def Phase (cur : ℕ → File) (n : ℕ) (S : ℕ → File → Delta → Prop) (da : ℕ → Delta)
    (y : Name → Option File) : Prop :=
  Backed cur n y ∧ ∀ i < n, ∃ g, y (.image i) = some g ∧ S i g (da i)

/-- The images before `k` are done. -/
def Mixed (Pre Post : ℕ → File → Delta → Prop) (k i : ℕ) (g : File) (d : Delta) : Prop :=
  (i < k → Post i g d) ∧ (k ≤ i → Pre i g d)

/-- Where one step takes one image from `P` to `Q`, the loop takes all of them. -/
theorem phase_spec {Good : (Name → Option File) → Prop} {f : ℕ → Delta → MediaM Delta}
    {P Q : ℕ → File → Delta → Prop}
    (h : ∀ k < n, ∀ da y g, Phase cur n (Mixed P Q k) da y → y (.image k) = some g →
      P k g (da k) → Triple (Calm Good x₀ y) (f k (da k))
        (fun e m => ∃ g', Calm Good x₀ (Function.update y (.image k) (some g')) m ∧ Q k g' e)
        (Sound Good x₀)) (da : ℕ → Delta) :
    Triple (fun m => ∃ y, Calm Good x₀ y m ∧ Phase cur n P da y) (eachDelta f 0 n da)
      (fun da' m => ∃ y, Calm Good x₀ y m ∧ Phase cur n Q da' y) (Sound Good x₀) := by
  have hloop := eachDelta_spec (f := f) (E := Sound Good x₀)
    (I := fun k da m => ∃ y, Calm Good x₀ y m ∧ Phase cur n (Mixed P Q k) da y) 0 n da
    (by
      rintro k da - hk m ⟨y, hm, hphase⟩
      rw [Nat.zero_add] at hk
      obtain ⟨g, hg, -, hpre⟩ := hphase.2 k hk
      refine ((h k hk da y g hphase hg (hpre le_rfl)).conseq (fun _ hm => hm) ?_
        fun _ hm => hm) m hm
      rintro e m' ⟨g', hm', hpost⟩
      refine ⟨_, hm', fun i hi => ?_, fun i hi => ?_⟩
      · obtain ⟨b, hb, hcopy⟩ := hphase.1 i hi
        exact ⟨b, by rwa [update_image_idx], hcopy⟩
      · by_cases hik : i = k
        · subst hik
          refine ⟨g', Function.update_self _ _ _, fun _ => ?_, fun hle => absurd hle (by omega)⟩
          rwa [Function.update_self]
        · obtain ⟨z, hz, hpost', hpre'⟩ := hphase.2 i hi
          refine ⟨z, ?_, fun hlt => ?_, fun hle => ?_⟩
          · rw [update_image_of_ne y _ hik, hz]
          · rw [Function.update_of_ne hik]
            exact hpost' (by omega)
          · rw [Function.update_of_ne hik]
            exact hpre' (by omega))
  rw [Nat.zero_add] at hloop
  refine hloop.conseq ?_ ?_ fun _ hm => hm
  · rintro m ⟨y, hm, hback, hphase⟩
    refine ⟨y, hm, hback, fun i hi => ?_⟩
    obtain ⟨g, hg, hpre⟩ := hphase i hi
    exact ⟨g, hg, fun hlt => absurd hlt (Nat.not_lt_zero i), fun _ => hpre⟩
  · rintro da' m ⟨y, hm, hback, hphase⟩
    refine ⟨y, hm, hback, fun i hi => ?_⟩
    obtain ⟨g, hg, hpost, -⟩ := hphase i hi
    exact ⟨g, hg, hpost hi⟩

/-- What holds of each image while image `k` is rewritten. -/
theorem Phase.update {S : ℕ → File → Delta → Prop} {R : ℕ → File → Prop} {da : ℕ → Delta} {k : ℕ}
    (h : Phase cur n S da y) (hR : ∀ i < n, i ≠ k → ∀ g, S i g (da i) → R i g) {z : File}
    (hz : R k z) : Backed cur n (Function.update y (.image k) (some z)) ∧
      ∀ i < n, ∃ g, Function.update y (.image k) (some z) (.image i) = some g ∧ R i g := by
  constructor
  · intro i hi
    obtain ⟨b, hb, hcopy⟩ := h.1 i hi
    exact ⟨b, by rwa [update_image_idx], hcopy⟩
  · intro i hi
    by_cases hik : i = k
    · subst hik
      exact ⟨z, Function.update_self _ _ _, hz⟩
    · obtain ⟨g, hg, hS⟩ := h.2 i hi
      refine ⟨g, ?_, hR i hi hik g hS⟩
      rw [update_image_of_ne y _ hik, hg]

end Phases

end Ploop.Convert
