import Ploop.Image.MergeRun

/-!
# The loop of a merge

What the loop needs of a destination is stated once, for deltas and raw
images: a cluster without a source is skipped, a block can be put.
-/

namespace Ploop

open Storage Indirection Program

/-- A destination that has the clusters below `n` when `F n` holds. -/
structure Destination (raw : Bool) (blocksize : ℕ) (version : FmtVersion) (l2Size : ℕ) (O : VDisk)
    (F : ℕ → Delta → Prop) (E : Delta → Prop) : Prop where
  err : ∀ n d, F n d → E d
  skip : ∀ n d, O n = none → F n d → F (n + 1) d
  put : ∀ i k clu data d, k < s2b blocksize / 4 → clu + mapOffset = i * (s2b blocksize / 4) + k →
    clu < l2Size → O clu = some (fun j => if j < s2b blocksize then data j else 0) → F clu d →
    Triple (fun s => s = d) (putBlock raw blocksize version i k data) (fun _ => F (clu + 1)) E

section Loop

variable {version : FmtVersion} {blocksize i k clu l2Size : ℕ} {f : File} {fs : List File}
  {raw : Bool} {O : VDisk} {F : ℕ → Delta → Prop} {E : Delta → Prop}

theorem onOutput_spec {α : Type} {P : Delta → Prop} {x : DeltaM α} {Q : α → Delta → Prop}
    (h : Triple P x Q E) (da : List Delta) :
    Triple (fun s => s.deltaArr = da ∧ P s.odelta) (onOutput x)
      (fun a s => s.deltaArr = da ∧ Q a s.odelta) (fun s => E s.odelta) := by
  rintro s ⟨rfl, hs⟩
  have hx := h s.odelta hs
  unfold onOutput
  cases hrun : x s.odelta with
  | ok a d =>
      rw [hrun] at hx
      exact ⟨rfl, hx⟩
  | error e d =>
      rw [hrun] at hx
      exact hx

/-- What is read for a slot is the block the stack has for it. -/
theorem FoundIn.read (hs : Stack version blocksize fs) {d : Delta} (h : FoundIn fs clu k (some d))
    {data : ℕ → UInt8} (hdata : d.file.pread (s2b blocksize)
      (s2b (ioffToSec (d.l2 k) blocksize version)) = some data) :
    lookup fs clu = some fun j => if j < s2b blocksize then data j else 0 := by
  obtain ⟨f, hf, b, rfl, hbat, hl2, hread⟩ := h
  have hwf := hs.wellFormed _ hf
  have hL := hwf.header.layout
  have hsec : s2b (ioffToSec (d.l2 k) blocksize version) = b * s2b blocksize := by
    have henc := Layout.ioffToSec_encode hL.pos (hwf.table.fits hL.pos hbat)
    rw [hs.version _ hf, hs.blocksize _ hf] at henc
    rw [hl2, henc, s2b, s2b, mul_assoc]
  rw [hsec] at hdata
  obtain ⟨-, rfl⟩ := File.pread_eq_some.mp hdata
  rw [hread, ← hs.blocksize _ hf]
  rfl

theorem mergeSlot_spec (hs : Stack version blocksize fs)
    (hd : Destination raw blocksize version l2Size O F E)
    (hO : ∀ clu < l2Size, O clu = lookup fs clu) (hk : k < s2b blocksize / 4)
    (hclu : clu + mapOffset = i * (s2b blocksize / 4) + k)
    (hlt : clu < l2Size) :
    Triple (fun s => SourcesAt i fs s.deltaArr ∧ F clu s.odelta)
      (mergeSlot raw blocksize version i k)
      (fun _ s => SourcesAt i fs s.deltaArr ∧ F (clu + 1) s.odelta) (fun s => E s.odelta) := by
  refine Triple.look fun s ⟨hda, hF⟩ => ?_
  have herr : ∀ s', s' = s → E s'.odelta := fun s' hs' => hs' ▸ hd.err clu s.odelta hF
  cases hfind : findSource i k s.deltaArr with
  | error e => exact Triple.raise herr
  | ok p =>
      obtain ⟨src, da⟩ := p
      obtain ⟨hda', hfound⟩ := findSource_spec hs hda hk hclu hfind
      refine Triple.bind (R := fun _ s' => s'.deltaArr = da ∧ s'.odelta = s.odelta)
        (Triple.update fun s' hs' => ⟨rfl, congrArg MergeState.odelta hs'⟩) fun _ => ?_
      cases src with
      | none =>
          refine Triple.ret fun s' ⟨h₁, h₂⟩ => ⟨h₁ ▸ hda', h₂ ▸ ?_⟩
          exact hd.skip clu s.odelta ((hO clu hlt).trans hfound) hF
      | some src =>
          simp only
          cases hdata : src.file.pread (s2b blocksize)
              (s2b (ioffToSec (src.l2 k) blocksize version)) with
          | none => exact Triple.raise fun s' ⟨_, h₂⟩ => h₂ ▸ hd.err clu s.odelta hF
          | some data =>
              refine (onOutput_spec (hd.put i k clu data s.odelta hk hclu hlt
                ((hO clu hlt).trans (hfound.read hs hdata)) hF) da).conseq
                  (fun _ h => h) ?_ fun _ h => h
              exact fun _ s' ⟨h₁, h₂⟩ => ⟨h₁ ▸ hda', h₂⟩

/-- The clusters below page `i` of the table. -/
def pageStart (slots l2Size i : ℕ) : ℕ := min l2Size (i * slots - mapOffset)

theorem page_bounds {slots iEnd : ℕ} (hslots : 0 < slots)
    (hend : iEnd = (l2Size + mapOffset + slots - 1) / slots) (hi : i < iEnd) :
    i * slots < l2Size + mapOffset ∧ (i = iEnd - 1 → l2Size + mapOffset ≤ i * slots + slots) ∧
      (i ≠ iEnd - 1 → i * slots + slots < l2Size + mapOffset) := by
  have hle := Nat.div_mul_le_self (l2Size + mapOffset + slots - 1) slots
  have hmod := Nat.mod_lt (l2Size + mapOffset + slots - 1) hslots
  have hdm := Nat.div_add_mod' (l2Size + mapOffset + slots - 1) slots
  rw [← hend] at hle hdm
  have h₁ := Nat.mul_le_mul_right slots hi
  rw [Nat.succ_mul] at h₁
  refine ⟨by omega, fun e => ?_, fun e => ?_⟩
  · obtain rfl : iEnd = i + 1 := by omega
    rw [Nat.succ_mul] at hdm
    omega
  · have h₂ := Nat.mul_le_mul_right slots (show i + 1 + 1 ≤ iEnd by omega)
    rw [Nat.succ_mul, Nat.succ_mul] at h₂
    omega

theorem mergePage_spec (hs : Stack version blocksize (f :: fs))
    (hd : Destination raw blocksize version f.hdr.layout.l2Size O F E)
    (hO : ∀ clu < f.hdr.layout.l2Size, O clu = lookup (f :: fs) clu) {iEnd : ℕ}
    (hend : iEnd = (f.hdr.layout.l2Size + mapOffset + s2b blocksize / 4 - 1)
      / (s2b blocksize / 4)) (hi : i < iEnd) :
    Triple (fun s => List.Forall₂ SourceOf (f :: fs) s.deltaArr ∧
        F (pageStart (s2b blocksize / 4) f.hdr.layout.l2Size i) s.odelta)
      (mergePage raw blocksize version f.hdr.layout.l2Size iEnd i)
      (fun _ s => List.Forall₂ SourceOf (f :: fs) s.deltaArr ∧
        F (pageStart (s2b blocksize / 4) f.hdr.layout.l2Size (i + 1)) s.odelta)
      (fun s => E s.odelta) := by
  have hL := (hs.wellFormed f List.mem_cons_self).header.layout
  have hslots : f.hdr.layout.slots = s2b blocksize / 4 := by
    rw [← hs.blocksize f List.mem_cons_self]
    rfl
  have hgt := hL.slots_gt
  have hroom := hL.room
  have hmul : i * s2b blocksize / 4 = i * (s2b blocksize / 4) := by
    have hc := f.hdr.layout.cluster_eq
    rw [Layout.cluster, hs.blocksize f List.mem_cons_self] at hc
    rw [Nat.mul_div_assoc _ ⟨_, hc⟩]
  rw [hslots] at hgt hroom
  obtain ⟨hbelow, hlast, hinner⟩ := page_bounds (by omega) hend hi
  have hl1 : i < f.hdr.layout.l1Size := Nat.lt_of_mul_lt_mul_right (lt_of_lt_of_le hbelow hroom)
  have hfirst : 0 < i → s2b blocksize / 4 ≤ i * (s2b blocksize / 4) :=
    fun h => Nat.le_mul_of_pos_left _ h
  refine Triple.look ?_
  rintro s ⟨hda, hF⟩
  cases hload : loadTop i (s2b blocksize) s.deltaArr with
  | none => exact Triple.raise fun s' hs' => hs' ▸ hd.err _ s.odelta hF
  | some da =>
      have hda' := loadTop_spec hs hda hl1 hload
      refine Triple.bind (R := fun _ s' => s'.deltaArr = da ∧ s'.odelta = s.odelta)
        (Triple.update fun s' hs' => ⟨rfl, congrArg MergeState.odelta hs'⟩) fun _ => ?_
      simp only [hmul]
      generalize hks : (if i = 0 then mapOffset else 0) = kStart
      generalize hke : (if i = iEnd - 1 then f.hdr.layout.l2Size + mapOffset
        - i * (s2b blocksize / 4) else s2b blocksize / 4) = kEnd
      have hstart : i * (s2b blocksize / 4) + kStart - mapOffset
          = pageStart (s2b blocksize / 4) f.hdr.layout.l2Size i ∧
          mapOffset ≤ i * (s2b blocksize / 4) + kStart := by
        rcases Nat.eq_zero_or_pos i with rfl | hpos
        · simp only [if_true] at hks
          simp only [pageStart]
          omega
        · have := hfirst hpos
          rw [if_neg (by omega)] at hks
          simp only [pageStart]
          omega
      have hstop : i * (s2b blocksize / 4) + kEnd - mapOffset
          = pageStart (s2b blocksize / 4) f.hdr.layout.l2Size (i + 1) ∧
          i * (s2b blocksize / 4) + kEnd ≤ f.hdr.layout.l2Size + mapOffset ∧
          kEnd ≤ s2b blocksize / 4 ∧ kStart ≤ kEnd := by
        simp only [pageStart, Nat.succ_mul]
        have hks' : kStart = 0 ∨ i * (s2b blocksize / 4) = 0 ∧ kStart = mapOffset := by
          split at hks
          · rename_i e
            exact Or.inr ⟨by rw [e, zero_mul], hks.symm⟩
          · exact Or.inl hks.symm
        by_cases e : i = iEnd - 1
        · have := hlast e
          rw [if_pos e] at hke
          omega
        · have := hinner e
          rw [if_neg e] at hke
          omega
      refine (Triple.forRange (I := fun k (s' : MergeState) => SourcesAt i (f :: fs) s'.deltaArr ∧
        F (i * (s2b blocksize / 4) + k - mapOffset) s'.odelta) kStart (kEnd - kStart) ?_).conseq
        ?_ ?_ fun _ h => h
      · intro k hk hk'
        have hclu : i * (s2b blocksize / 4) + k - mapOffset + mapOffset
            = i * (s2b blocksize / 4) + k := by omega
        have hnext : i * (s2b blocksize / 4) + (k + 1) - mapOffset
            = i * (s2b blocksize / 4) + k - mapOffset + 1 := by omega
        rw [hnext]
        exact mergeSlot_spec hs hd hO (by omega) hclu (by omega)
      · rintro s' ⟨h₁, h₂⟩
        exact ⟨h₁ ▸ hda', h₂ ▸ hstart.1 ▸ hF⟩
      · rintro _ s' ⟨h₁, h₂⟩
        rw [show kStart + (kEnd - kStart) = kEnd by omega, hstop.1] at h₂
        exact ⟨h₁.of, h₂⟩

/-- The loop takes the destination from nothing merged to all clusters merged. -/
theorem mergeLoop_spec (hs : Stack version blocksize (f :: fs))
    (hd : Destination raw blocksize version f.hdr.layout.l2Size O F E)
    (hO : ∀ clu < f.hdr.layout.l2Size, O clu = lookup (f :: fs) clu) :
    Triple (fun s => List.Forall₂ SourceOf (f :: fs) s.deltaArr ∧ F 0 s.odelta)
      (mergeLoop raw blocksize version f.hdr.layout.l2Size)
      (fun _ s => F f.hdr.layout.l2Size s.odelta) (fun s => E s.odelta) := by
  have hL := (hs.wellFormed f List.mem_cons_self).header.layout
  have hslots : f.hdr.layout.slots = s2b blocksize / 4 := by
    rw [← hs.blocksize f List.mem_cons_self]
    rfl
  have hpos := hL.slots_pos
  rw [hslots] at hpos
  generalize hend : (f.hdr.layout.l2Size + mapOffset + s2b blocksize / 4 - 1)
    / (s2b blocksize / 4) = iEnd
  have hfinal : pageStart (s2b blocksize / 4) f.hdr.layout.l2Size (0 + iEnd)
      = f.hdr.layout.l2Size := by
    have hmod := Nat.mod_lt (f.hdr.layout.l2Size + mapOffset + s2b blocksize / 4 - 1) hpos
    have hdm := Nat.div_add_mod' (f.hdr.layout.l2Size + mapOffset + s2b blocksize / 4 - 1)
      (s2b blocksize / 4)
    rw [hend] at hdm
    simp only [pageStart, zero_add]
    omega
  unfold mergeLoop
  simp only [hend]
  refine (Triple.forRange
    (I := fun i (s : MergeState) => List.Forall₂ SourceOf (f :: fs) s.deltaArr ∧
      F (pageStart (s2b blocksize / 4) f.hdr.layout.l2Size i) s.odelta) 0 iEnd
    fun i _ hi => mergePage_spec hs hd hO hend.symm (by omega)).conseq ?_ ?_ fun _ h => h
  · rintro s ⟨h₁, h₂⟩
    refine ⟨h₁, ?_⟩
    simpa [pageStart] using h₂
  · rintro _ s ⟨-, h₂⟩
    rwa [hfinal] at h₂

end Loop

end Ploop
