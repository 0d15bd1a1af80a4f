import Ploop.Image.GrowOffline
import Ploop.Image.Merge

/-!
# What a merge reads

The tables of the sources are read cluster by cluster, those below the top
only when a slot above them is empty. Whatever has been cached so far, the
lookup finds what the stack reads.
-/

namespace Ploop

open Storage Indirection Program

/-- Well-formed deltas of one version and block size, top first. -/
structure Stack (version : FmtVersion) (blocksize : ℕ) (fs : List File) : Prop where
  wellFormed : ∀ f ∈ fs, WellFormed f
  version : ∀ f ∈ fs, f.hdr.layout.version = version
  blocksize : ∀ f ∈ fs, f.hdr.layout.blocksize = blocksize

/-- Sizes do not shrink towards the top. -/
def Monotonic (fs : List File) : Prop :=
  fs.Pairwise fun f g => getSizeInSectors g.hdr ≤ getSizeInSectors f.hdr

/-- What a stack of deltas reads. -/
def stackContent (fs : List File) : VDisk := overlay (fs.map content)

/-- What a merge finds: the search ends at a delta whose index does not reach
the slot. -/
def lookup : List File → VDisk
  | [] => fun _ => none
  | f :: fs => fun clu =>
      if f.hdr.layout.l1Size ≤ (clu + mapOffset) / f.hdr.layout.slots then none
      else (content f clu).or (lookup fs clu)

/-- A source is only read. -/
structure SourceOf (f : File) (d : Delta) : Prop where
  disk : d.disk = Disk.new f
  opened : Opened f.hdr.layout d

/-- A source with cluster `i` of its table cached, or nothing. -/
structure SourceAt (i : ℕ) (f : File) (d : Delta) : Prop extends SourceOf f d where
  page : d.l2Cache = none ∨ d.l2Cache = some i

section Source

variable {version : FmtVersion} {blocksize i k clu : ℕ} {f : File} {fs : List File} {d : Delta}
  {ds : List Delta}

theorem Stack.tail (h : Stack version blocksize (f :: fs)) : Stack version blocksize fs where
  wellFormed := fun g hg => h.wellFormed g (List.mem_cons_of_mem _ hg)
  version := fun g hg => h.version g (List.mem_cons_of_mem _ hg)
  blocksize := fun g hg => h.blocksize g (List.mem_cons_of_mem _ hg)

theorem Stack.append_left {gs : List File} (h : Stack version blocksize (fs ++ gs)) :
    Stack version blocksize fs where
  wellFormed := fun g hg => h.wellFormed g (List.mem_append_left _ hg)
  version := fun g hg => h.version g (List.mem_append_left _ hg)
  blocksize := fun g hg => h.blocksize g (List.mem_append_left _ hg)

/-- No delta below reaches further than the one above. -/
theorem Stack.l2Size_le (h : Stack version blocksize (f :: fs)) (hm : Monotonic (f :: fs))
    {g : File} (hg : g ∈ fs) : g.hdr.layout.l2Size ≤ f.hdr.layout.l2Size := by
  have hbs : ∀ g ∈ f :: fs, g.hdr.mSectors.toNat = blocksize := fun g hg => h.blocksize g hg
  simp only [PvdHeader.layout]
  rw [hbs f List.mem_cons_self, hbs g (List.mem_cons_of_mem _ hg)]
  exact Nat.div_le_div_right ((List.pairwise_cons.mp hm).1 g hg)

theorem lookup_inside (hin : (clu + mapOffset) / f.hdr.layout.slots < f.hdr.layout.l1Size) :
    lookup (f :: fs) clu = (content f clu).or (lookup fs clu) := if_neg (Nat.not_le.mpr hin)

theorem lookup_outside (hout : f.hdr.layout.l1Size ≤ (clu + mapOffset) / f.hdr.layout.slots) :
    lookup (f :: fs) clu = none := if_pos hout

/-- What is found is what the stack reads. -/
theorem stackContent_of_lookup {v : ℕ → UInt8} (h : lookup fs clu = some v) :
    stackContent fs clu = some v := by
  induction fs with
  | nil => exact absurd h (by simp [lookup])
  | cons f fs ih =>
      unfold lookup at h
      split at h
      · exact absurd h (by simp)
      · cases hc : content f clu with
        | none =>
            rw [hc] at h
            exact (overlay_cons_of_none hc).trans (ih h)
        | some u =>
            rw [hc] at h
            exact (overlay_cons_of_some hc).trans h

/-- Where sizes do not shrink, everything is found. -/
theorem lookup_eq (h : Stack version blocksize fs) (hm : Monotonic fs) :
    lookup fs clu = stackContent fs clu := by
  induction fs with
  | nil => rfl
  | cons f fs ih =>
      unfold lookup
      split
      · -- the index of this delta ends before the slot, and so do those below
        rename_i hout
        refine (overlay_eq_none fun r hr => ?_).symm
        obtain ⟨g, hg, rfl⟩ := List.mem_map.mp hr
        have hle : g.hdr.layout.l2Size ≤ f.hdr.layout.l2Size := by
          rcases List.mem_cons.mp hg with rfl | hg
          · exact le_rfl
          · exact h.l2Size_le hm hg
        have hL := (h.wellFormed f List.mem_cons_self).header.layout
        have hroom := hL.room
        have := (Nat.le_div_iff_mul_le hL.slots_pos).mp hout
        exact content_beyond (by omega)
      · rw [ih h.tail (List.pairwise_cons.mp hm).2]
        exact (overlay_cons _ _ _).symm

theorem SourceOf.file (h : SourceOf f d) : d.file = f := congrArg Disk.file h.disk

theorem Layout.page_of {L : Layout} (hclu : clu + mapOffset = i * L.slots + k) (hk : k < L.slots) :
    (clu + mapOffset) / L.slots = i ∧ (clu + mapOffset) % L.slots = k := by
  rw [hclu, mul_comm, Nat.mul_add_div (by omega), Nat.mul_add_mod, Nat.div_eq_of_lt hk,
    Nat.mod_eq_of_lt hk]
  exact ⟨rfl, rfl⟩

/-- The slot of a cluster in the cached cluster of a table. -/
theorem SourceAt.slot (h : SourceAt i f d) (hf : WellFormed f) (hcache : d.l2Cache = some i)
    (hk : k < f.hdr.layout.slots) (hclu : clu + mapOffset = i * f.hdr.layout.slots + k) :
    d.l2 k = f.hdr.layout.encodeSlot (f.hdr.layout.bat f clu) := by
  have hL := hf.header.layout
  have hi := h.opened.cached i hcache
  have hl2 : d.l2 k = Layout.entry f clu := by
    rw [h.opened.cache i hcache k hk (by omega), h.file, Layout.entry, hclu]
  rw [hl2]
  by_cases hlt : clu < f.hdr.layout.l2Size
  · exact hf.table.entry_slot hL.pos hlt
  · rw [Layout.bat_of_ge (by omega)]
    refine hf.table.unused clu (by omega) ?_
    have := Nat.mul_le_mul_right f.hdr.layout.slots hi
    rw [Nat.succ_mul] at this
    omega

/-- The delta found has the slot and holds the block. -/
def FoundIn (fs : List File) (clu k : ℕ) : Option Delta → Prop
  | none => lookup fs clu = none
  | some d => ∃ f ∈ fs, ∃ b, d.file = f ∧ f.hdr.layout.bat f clu = some b ∧
      d.l2 k = f.hdr.layout.encode b ∧ lookup fs clu = some (f.hdr.layout.block f b)

theorem foundIn_head (hin : (clu + mapOffset) / f.hdr.layout.slots < f.hdr.layout.l1Size)
    (hfile : d.file = f) (hne : d.l2 k ≠ 0)
    (hslot : d.l2 k = f.hdr.layout.encodeSlot (f.hdr.layout.bat f clu)) :
    FoundIn (f :: fs) clu k (some d) := by
  cases hb : f.hdr.layout.bat f clu with
  | none =>
      rw [hb] at hslot
      exact absurd hslot hne
  | some b =>
      rw [hb] at hslot
      refine ⟨f, List.mem_cons_self, b, hfile, hb, hslot, ?_⟩
      have hc : content f clu = some (f.hdr.layout.block f b) := read_of_some hb
      rw [lookup_inside hin, hc]
      rfl

theorem foundIn_tail (hin : (clu + mapOffset) / f.hdr.layout.slots < f.hdr.layout.l1Size)
    (hslot : f.hdr.layout.bat f clu = none) {r : Option Delta}
    (h : FoundIn fs clu k r) : FoundIn (f :: fs) clu k r := by
  have hskip : lookup (f :: fs) clu = lookup fs clu := by
    have hc : content f clu = none := read_of_none hslot
    rw [lookup_inside hin, hc]
    rfl
  cases r with
  | none => exact hskip.trans h
  | some d =>
      obtain ⟨g, hg, b, hfile, hbat, hl2, hread⟩ := h
      exact ⟨g, List.mem_cons_of_mem _ hg, b, hfile, hbat, hl2, hskip.trans hread⟩

theorem readL2_spec (h : SourceOf f d) (hi : i < f.hdr.layout.l1Size) {d' : Delta}
    (hread : readL2 i f.hdr.layout.cluster d = some d') :
    SourceAt i f d' ∧ d'.l2Cache = some i := by
  unfold readL2 at hread
  rw [h.file] at hread
  cases hbuf : f.pread f.hdr.layout.cluster (i * f.hdr.layout.cluster) with
  | none =>
      rw [hbuf] at hread
      exact absurd hread (Option.some_ne_none d').symm
  | some buf =>
      rw [hbuf] at hread
      obtain rfl := Option.some.inj hread
      obtain ⟨-, rfl⟩ := File.pread_eq_some.mp hbuf
      refine ⟨⟨⟨h.disk, ⟨h.opened.version, h.opened.blocksize, h.opened.l1Size, h.opened.l2Size,
        h.opened.clean, ?_, ?_⟩⟩, Or.inr rfl⟩, rfl⟩
      · intro p hp
        rwa [← Option.some.inj hp]
      · intro p hp j _ _
        obtain rfl := Option.some.inj hp
        exact (Layout.bytesWord_page f i j).trans (congrArg (File.word · _) h.file.symm)

theorem bat_none_of_encodeSlot (hf : WellFormed f)
    (h : f.hdr.layout.encodeSlot (f.hdr.layout.bat f clu) = 0) : f.hdr.layout.bat f clu = none := by
  cases hb : f.hdr.layout.bat f clu with
  | none => rfl
  | some b =>
      rw [hb] at h
      have hpos := hf.header.layout.l1_pos
      have hdata := (hf.table.inData clu b hb).1
      exact absurd h (Layout.encode_ne_zero hf.header.layout.pos
        (hf.table.fits hf.header.layout.pos hb) (by omega))

theorem locateL2Entry_spec (hs : Stack version blocksize fs)
    (hds : List.Forall₂ (SourceAt i) fs ds) (hk : k < s2b blocksize / 4)
    (hclu : clu + mapOffset = i * (s2b blocksize / 4) + k) {r : Option Delta} {ds' : List Delta}
    (h : locateL2Entry i k ds = .ok (r, ds')) :
    List.Forall₂ (SourceAt i) fs ds' ∧ FoundIn fs clu k r := by
  induction hds generalizing r ds' with
  | nil =>
      simp only [locateL2Entry, Except.ok.injEq, Prod.mk.injEq] at h
      obtain ⟨rfl, rfl⟩ := h
      exact ⟨.nil, rfl⟩
  | @cons f d fs ds hd hds ih =>
      have hf := hs.wellFormed f List.mem_cons_self
      have hslots : f.hdr.layout.slots = s2b blocksize / 4 := by
        rw [← hs.blocksize f List.mem_cons_self]
        rfl
      rw [← hslots] at hk hclu
      unfold locateL2Entry at h
      have hpageno := (Layout.page_of hclu hk).1
      by_cases hout : d.l2Cache = none ∧ d.l1Size ≤ i
      · rw [if_pos hout] at h
        obtain ⟨rfl, rfl⟩ := Prod.mk.inj (Except.ok.inj h)
        refine ⟨.cons hd hds, lookup_outside ?_⟩
        rw [hpageno, ← hd.opened.l1Size]
        exact hout.2
      rw [if_neg hout] at h
      have hpage : ∀ d', (if d.l2Cache = none then readL2 i d.cluster d else some d) = some d' →
          SourceAt i f d' ∧ d'.l2Cache = some i := by
        intro d' hd'
        by_cases hcache : d.l2Cache = none
        · rw [if_pos hcache, hd.opened.cluster] at hd'
          have hi : i < f.hdr.layout.l1Size := by
            rw [← hd.opened.l1Size]
            exact Nat.lt_of_not_le fun hle => hout ⟨hcache, hle⟩
          exact readL2_spec hd.toSourceOf hi hd'
        · rw [if_neg hcache] at hd'
          obtain rfl := Option.some.inj hd'
          exact ⟨hd, hd.page.resolve_left hcache⟩
      cases hc : (if d.l2Cache = none then readL2 i d.cluster d else some d) with
      | none =>
          rw [hc] at h
          exact absurd h (by simp)
      | some d' =>
          obtain ⟨hd', hcache⟩ := hpage d' hc
          have hin := hd'.opened.cached i hcache
          rw [← hpageno] at hin
          have hslot := hd'.slot hf hcache hk hclu
          rw [hc] at h
          simp only at h
          by_cases hne : d'.l2 k = 0
          · rw [if_neg (not_not.mpr hne)] at h
            cases hrec : locateL2Entry i k ds with
            | error e =>
                rw [hrec] at h
                exact absurd h (by simp)
            | ok p =>
                rw [hrec] at h
                obtain ⟨rfl, rfl⟩ := Prod.mk.inj (Except.ok.inj h)
                obtain ⟨hds', hfound⟩ := ih hs.tail hrec
                exact ⟨.cons hd' hds',
                  foundIn_tail hin (bat_none_of_encodeSlot hf (hslot.symm.trans hne)) hfound⟩
          · rw [if_pos hne] at h
            obtain ⟨rfl, rfl⟩ := Prod.mk.inj (Except.ok.inj h)
            exact ⟨.cons hd' hds, foundIn_head hin hd'.file hne hslot⟩

/-- Cluster `i` of the top table is loaded, and those below will be fetched on
demand. -/
structure SourcesAt (i : ℕ) (fs : List File) (ds : List Delta) : Prop where
  all : List.Forall₂ (SourceAt i) fs ds
  top : ∀ d ∈ ds.head?, d.l2Cache = some i

theorem SourceOf.forget (h : SourceOf f d) : SourceAt i f { d with l2Cache := none } where
  disk := h.disk
  opened := ⟨h.opened.version, h.opened.blocksize, h.opened.l1Size, h.opened.l2Size,
    h.opened.clean, fun p hp => absurd hp (Option.some_ne_none p).symm,
    fun p hp => absurd hp (Option.some_ne_none p).symm⟩
  page := Or.inl rfl

theorem loadTop_spec (hs : Stack version blocksize (f :: fs))
    (hds : List.Forall₂ SourceOf (f :: fs) ds) (hi : i < f.hdr.layout.l1Size) {ds' : List Delta}
    (h : loadTop i (s2b blocksize) ds = some ds') : SourcesAt i (f :: fs) ds' := by
  obtain ⟨d, ds, hd, hrest, rfl⟩ := List.forall₂_cons_left_iff.mp hds
  have hcluster : s2b blocksize = f.hdr.layout.cluster := by
    rw [← hs.blocksize f List.mem_cons_self]
    rfl
  simp only [loadTop, hcluster] at h
  cases hread : readL2 i f.hdr.layout.cluster d with
  | none =>
      rw [hread] at h
      exact absurd h (by simp)
  | some d' =>
      rw [hread] at h
      obtain rfl := Option.some.inj h
      obtain ⟨hd', hcache⟩ := readL2_spec hd hi hread
      refine ⟨.cons hd' ?_, ?_⟩
      · rw [List.forall₂_map_right_iff]
        exact hrest.imp fun _ _ hd => hd.forget
      · intro e he
        obtain rfl := Option.some.inj he
        exact hcache

theorem SourcesAt.of (h : SourcesAt i fs ds) : List.Forall₂ SourceOf fs ds :=
  h.all.imp fun _ _ hd => hd.toSourceOf

theorem findSource_spec (hs : Stack version blocksize fs) (hds : SourcesAt i fs ds)
    (hk : k < s2b blocksize / 4) (hclu : clu + mapOffset = i * (s2b blocksize / 4) + k)
    {r : Option Delta} {ds' : List Delta} (h : findSource i k ds = .ok (r, ds')) :
    SourcesAt i fs ds' ∧ FoundIn fs clu k r := by
  obtain ⟨hall, htop⟩ := hds
  cases hall with
  | nil =>
      simp only [findSource, Except.ok.injEq, Prod.mk.injEq] at h
      obtain ⟨rfl, rfl⟩ := h
      exact ⟨⟨.nil, htop⟩, rfl⟩
  | @cons f d fs ds hd hds =>
      have hf := hs.wellFormed f List.mem_cons_self
      have hslots : f.hdr.layout.slots = s2b blocksize / 4 := by
        rw [← hs.blocksize f List.mem_cons_self]
        rfl
      have hcache := htop d rfl
      have hin := hd.opened.cached i hcache
      rw [← hslots] at hk hclu
      rw [← (Layout.page_of hclu hk).1] at hin
      have hslot := hd.slot hf hcache hk hclu
      simp only [findSource] at h
      by_cases hne : d.l2 k = 0
      · rw [if_neg (not_not.mpr hne)] at h
        cases hrec : locateL2Entry i k ds with
        | error e =>
            rw [hrec] at h
            exact absurd h (by simp)
        | ok p =>
            rw [hrec] at h
            obtain ⟨rfl, rfl⟩ := Prod.mk.inj (Except.ok.inj h)
            rw [hslots] at hk hclu
            obtain ⟨hds', hfound⟩ := locateL2Entry_spec hs.tail hds hk hclu hrec
            exact ⟨⟨.cons hd hds', htop⟩,
              foundIn_tail hin (bat_none_of_encodeSlot hf (hslot.symm.trans hne)) hfound⟩
      · rw [if_pos hne] at h
        obtain ⟨rfl, rfl⟩ := Prod.mk.inj (Except.ok.inj h)
        exact ⟨⟨.cons hd hds, htop⟩, foundIn_head hin hd.file hne hslot⟩

end Source

end Ploop
