import Ploop.Image.GrowEmpty
import Ploop.Image.MergeOverlay

/-!
# The empty flag after a merge

The merge writes the flag when the base is grown, before the blocks of the sources are put.
-/

namespace Ploop

open Storage Indirection Program

/-! ## The header stays -/

section Header

/-- The header of the file is as before. -/
def SameHdr (d d' : Delta) : Prop := d'.file.hdr = d.file.hdr

instance : Std.Refl SameHdr := ⟨fun _ => rfl⟩

instance : IsTrans Delta SameHdr := ⟨fun _ _ _ h h' => Eq.trans h' h⟩

/-- A write behind the header, or of nothing. -/
theorem SameHdr.write {d : Delta} {w : Write} (h : headerBytes ≤ w.off ∨ w.len = 0) :
    SameHdr d (d.write w) := by
  unfold SameHdr
  rw [Delta.file_write]
  rcases h with hoff | hlen
  · exact hdr_pwrite_of_ge hoff
  · apply PvdHeader.ofWords_congr
    intro i _
    apply bytesWord_congr
    intro k _
    rw [File.byte_pwrite, hlen]
    exact overlay_of_not_mem (Nat.lt_or_ge _ _)

theorem SameHdr.forget {f : Delta → Delta} (h : ∀ d, (f d).file = d.file) :
    Keeps SameHdr (modify f : DeltaM PUnit) := Keeps.modify fun d => congrArg File.hdr (h d)

theorem SameHdr.fsync : Keeps SameHdr fsync := Keeps.modify fun d => congrArg File.hdr d.file_sync

theorem SameHdr.pread (err : Sysexit) (len off : ℕ) : Keeps SameHdr (pread err len off) := by
  intro d
  apply (pread_spec err len off d).conseq
  · exact fun _ hs => hs
  · rintro _ s ⟨rfl, -⟩
    rfl
  · rintro s rfl
    rfl

/-- The cached cluster is written behind the header. -/
theorem SameHdr.writeIndex {blocksize : ℕ} : Keeps SameHdr (writeIndex (s2b blocksize)) := by
  apply Keeps.get.bind
  intro d
  cases d.l2Cache with
  | none => exact Keeps.throw _
  | some p =>
      apply Keeps.ite (Keeps.throw _)
      apply Keeps.bind ?_ fun _ => SameHdr.fsync
      apply Keeps.get.bind
      intro e
      apply Keeps.modify
      intro s
      apply SameHdr.write
      dsimp only
      by_cases hzero : s2b blocksize = 0
      · exact .inr (by rw [hzero, Nat.zero_sub])
      · left
        have hcluster : 512 ≤ s2b blocksize := by
          simp only [s2b] at hzero ⊢
          omega
        split
        case isTrue => exact Nat.le_add_left _ _
        case isFalse hp =>
          have hmul := Nat.le_mul_of_pos_left (s2b blocksize) (Nat.pos_of_ne_zero hp)
          simp only [headerBytes]
          omega

theorem SameHdr.syncIfCached : Keeps SameHdr syncIfCached := by
  have hsync : Keeps SameHdr syncCache := by
    apply Keeps.get.bind
    intro d
    apply Keeps.ite ?_ (Keeps.pure _)
    apply SameHdr.fsync.bind
    intro _
    apply SameHdr.writeIndex.bind
    intro _
    apply SameHdr.forget
    exact fun _ => rfl
  exact Keeps.get.bind fun _ => Keeps.ite hsync (Keeps.pure _)

theorem SameHdr.fetchPage (i cluster : ℕ) : Keeps SameHdr (fetchPage i cluster) := by
  apply Keeps.get.bind
  intro d
  apply Keeps.ite (Keeps.pure _)
  apply SameHdr.syncIfCached.bind
  intro _
  apply Keeps.bind
  · apply SameHdr.forget
    exact fun _ => rfl
  · intro _
    apply (SameHdr.pread _ _ _).bind
    intro _
    apply SameHdr.forget
    exact fun _ => rfl

/-- The slot has an entry afterwards. -/
theorem allocSlot_entry (d : Delta) (k blocksize : ℕ) (version : FmtVersion) :
    Triple (fun s => s = d) (allocSlot k blocksize version)
      (fun _ s => SameHdr d s ∧ s.l2 k ≠ 0) (fun _ => True) := by
  apply Triple.look
  rintro d rfl
  split
  case isTrue hk =>
    apply Triple.ret
    rintro s rfl
    exact ⟨rfl, hk⟩
  case isFalse =>
    apply Triple.step
    split
    case isTrue => exact Triple.raise fun _ _ => True.intro
    case isFalse hentry =>
      apply Triple.update
      rintro s rfl
      refine ⟨rfl, ?_⟩
      dsimp only
      rwa [Function.update_self]

theorem SameHdr.putBlock {blocksize : ℕ} (hbs : 0 < blocksize) (version : FmtVersion) (i k : ℕ)
    (data : ℕ → UInt8) (d : Delta) :
    Triple (fun s => s = d) (putBlock false blocksize version i k data)
      (fun _ s => SameHdr d s) (fun _ => True) := by
  apply Triple.bind ((SameHdr.fetchPage i _ d).conseq (fun _ h => h) (fun _ _ h => h)
    fun _ _ => True.intro)
  intro _
  apply Triple.start
  intro e he
  apply Triple.bind (allocSlot_entry e k blocksize version)
  intro _
  apply Triple.look
  rintro s ⟨hs, hk⟩
  apply Triple.update
  rintro t rfl
  have hpos : 0 < (t.l2 k).toNat := Nat.pos_of_ne_zero fun hzero => hk (UInt32.toNat.inj hzero)
  have hsec : 1 ≤ ioffToSec (t.l2 k) blocksize version := by
    cases version with
    | v1 => exact hpos
    | v2 => exact Nat.mul_pos hpos hbs
  have hwrite : SameHdr t (t.write ⟨s2b (ioffToSec (t.l2 k) blocksize version), s2b blocksize,
      data⟩) := by
    apply SameHdr.write
    simp only [s2b, headerBytes]
    omega
  exact (Eq.trans hwrite hs).trans he

/-- What the end of a merge leaves of the header, and of the length if nothing was put. -/
theorem finishMerge_hdr (d : Delta) {blocksize : ℕ} :
    Triple (fun s => s = d) (finishMerge (s2b blocksize))
      (fun _ s => s.file.hdr = { d.file.hdr with mDiskInUse := 0 } ∧
        (¬ d.l2Dirty → headerBytes ≤ d.file.size → s.file.size = d.file.size))
      (fun _ => True) := by
  apply Triple.step
  apply Triple.bind (R := fun _ e => SameHdr d e ∧ (¬ d.l2Dirty → e.file = d.file))
  · apply Triple.look
    rintro e rfl
    split
    case isTrue hdirty =>
      apply (SameHdr.writeIndex d.sync).conseq
      · exact fun _ hs => hs
      · intro _ s hs
        exact ⟨hs.trans (congrArg File.hdr d.file_sync), fun hclean => absurd hdirty hclean⟩
      · exact fun _ _ => True.intro
    case isFalse =>
      apply Triple.ret
      rintro s rfl
      exact ⟨congrArg File.hdr d.file_sync, fun _ => d.file_sync⟩
  · intro _
    apply Triple.start
    rintro e ⟨he, hclean⟩
    apply Triple.bind (clearDelta_spec e)
    intro _
    apply Triple.update
    intro s hs
    have hfile : s.sync.file = (e.write ⟨PvdHeader.offDiskInUse, 4,
        wordBytes fun _ => 0⟩).sync.file := by
      rw [Delta.file_sync, hs]
      rfl
    rw [hfile]
    constructor
    · rw [Delta.file_sync, Delta.file_write, hdr_pwrite_diskInUse, he]
    · intro hd hsize
      rw [size_write_diskInUse (by rwa [hclean hd]), hclean hd]

end Header

/-! ## The dirty bitmap -/

section Cbt

variable {z : ℕ} {vh : PvdHeader}

/-- The file has the header `vh` and at least `z` bytes. -/
structure Past (z blocksize : ℕ) (vh : PvdHeader) (d : Delta) : Prop where
  hdr : d.file.hdr = vh
  size : z ≤ d.file.size
  blocksize : d.blocksize = blocksize

theorem Past.write {blocksize : ℕ} {d : Delta} {w : Write} (h : Past z blocksize vh d)
    (hz : headerBytes ≤ w.off) : Past z blocksize vh (d.write w) := by
  constructor
  · exact (SameHdr.write (.inl hz)).trans h.hdr
  · rw [Delta.file_write]
    exact h.size.trans (File.le_size_pwrite _ _)
  · exact h.blocksize

theorem saveParts_past {blocksize : ℕ} (hz : headerBytes ≤ z) (blockSize : ℕ)
    (parts : List (Option (ℕ → UInt8))) {offset : ℕ} (hoff : z ≤ offset) :
    Triple (Past z blocksize vh) (saveParts blockSize offset parts)
      (fun _ => Past z blocksize vh) (fun _ => False) := by
  induction parts generalizing offset with
  | nil => exact Triple.ret fun _ h => h
  | cons part parts ih =>
      cases part with
      | none => exact ih hoff
      | some part =>
          apply Triple.bind (R := fun _ => Past z blocksize vh)
          · exact Triple.update fun d hd => hd.write (hz.trans hoff)
          · intro _
            apply Triple.bind (ih (hoff.trans (Nat.le_add_right _ _)))
            exact fun _ => Triple.ret fun _ h => h

/-- The bitmap goes behind the file, and the header keeps its layout and its flags. -/
theorem saveOptionalHeader_past (bitmap : DirtyBitmap) {d : Delta} (hz : headerBytes ≤ d.file.size)
    (hpos : d.cluster ≠ 0) : Triple (fun s => s = d) (saveOptionalHeader bitmap)
      (fun _ s => s.file.hdr.layout = d.hdr0.layout ∧ s.file.hdr.mFlags = d.hdr0.mFlags ∧
        d.file.size + d.cluster ≤ s.file.size) (fun _ => False) := by
  apply Triple.look
  rintro d rfl
  have hparts : Triple (fun s => s = d) (saveParts d.cluster d.file.size bitmap.parts)
      (fun _ => Past d.file.size d.blocksize d.file.hdr) (fun _ => False) := by
    apply (saveParts_past hz d.cluster bitmap.parts le_rfl).conseq
    · rintro s rfl
      exact ⟨rfl, le_rfl, rfl⟩
    · exact fun _ _ h => h
    · exact fun _ h => h
  apply Triple.bind hparts
  intro offsets
  apply Triple.look
  intro e he
  have hext : d.file.size ≤ (e.file.size + sectorSize - 1) / sectorSize * sectorSize :=
    he.size.trans (le_alignUp (by norm_num [sectorSize]))
  dsimp only
  generalize (e.file.size + sectorSize - 1) / sectorSize = ext at *
  generalize hvh : ({ d.hdr0 with
    mDiskInUse := signatureDiskClosedV21
    mFormatExtensionOffsetLo := UInt32.ofNat ext
    mFormatExtensionOffsetHi := UInt32.ofNat (ext / 2 ^ 32) } : PvdHeader) = vh
  apply Triple.step
  apply Triple.update
  intro s hs
  generalize hw : (⟨ext * sectorSize, d.cluster, bitmap.extBlock offsets⟩ : Write) = w
  have hoff : headerBytes ≤ w.off := by
    rw [← hw]
    exact hz.trans hext
  have hhdr : (s.write w).file.hdr = vh := by
    apply Eq.trans (SameHdr.write (.inl hoff))
    rw [hs, Delta.file_write, hdr_pwrite_header]
  refine ⟨?_, ?_, ?_⟩
  · rw [hhdr, ← hvh]
    rfl
  · rw [hhdr, ← hvh]
  · rw [Delta.file_write]
    apply le_trans ?_ (File.end_le_size_pwrite _ ?_)
    · rw [← hw]
      exact Nat.add_le_add_right hext _
    · rw [← hw]
      exact hpos

theorem moveCbt_past (loadCbt : File → Option DirtyBitmap) (top : File) {D : Disk}
    (hvalid : D.file.hdr.Valid) (hclosed : D.file.hdr.mDiskInUse ≠ signatureDiskInUse)
    (hsize : 4096 ≤ D.file.size) :
    (moveCbt loadCbt top D).file.hdr.layout = D.file.hdr.layout ∧
      (moveCbt loadCbt top D).file.hdr.mFlags = D.file.hdr.mFlags ∧
      (loadCbt top = none → moveCbt loadCbt top D = D) ∧
      ((loadCbt top).isSome →
        D.file.size + D.file.hdr.layout.cluster ≤ (moveCbt loadCbt top D).file.size) := by
  have hexists : ∃ d, openDelta D.file false = some d :=
    exists_openDelta hvalid hsize fun h => absurd h hclosed
  obtain ⟨d, hopen⟩ := hexists
  have hat := openDelta_spec hopen
  unfold moveCbt reopen
  rw [hopen]
  cases loadCbt top with
  | none => exact ⟨rfl, rfl, fun _ => rfl, fun h => absurd h Bool.false_ne_true⟩
  | some bitmap =>
      have hcluster : ({ d with disk := D } : Delta).cluster = D.file.hdr.layout.cluster :=
        congrArg s2b hat.opened.blocksize
      have hspec := saveOptionalHeader_past bitmap (d := { d with disk := D })
        ((by decide : headerBytes ≤ 4096).trans hsize)
        (hcluster ▸ hvalid.layout.cluster_pos.ne') _ rfl
      dsimp only [Option.map_some]
      cases hrun : saveOptionalHeader bitmap { d with disk := D } with
      | ok a s =>
          rw [hrun, hcluster, hat.hdr0] at hspec
          exact ⟨hspec.1, hspec.2.1, fun h => absurd h (Option.some_ne_none bitmap),
            fun _ => hspec.2.2⟩
      | error e s =>
          rw [hrun] at hspec
          exact hspec.elim

end Cbt

/-! ## The base -/

section Base

variable {f : File} {O : VDisk} {size : ℕ} {d : Delta}

/-- The base is grown to a whole number of blocks. -/
theorem growBase_flagged (hopen : openDelta f false = some d) (hf : WellFormed f)
    (hkeep : ∀ clu, alignUp size f.hdr.layout.blocksize / f.hdr.layout.blocksize ≤ clu →
      content f clu = none)
    (hfit : BaseFits f (alignUp size f.hdr.layout.blocksize) O) :
    Triple (fun s => s = d) (growBase size)
      (fun _ s => ¬ s.l2Dirty ∧ Flagged f.hdr.layout (alignUp size f.hdr.layout.blocksize)
        (lastHead f.hdr.layout (alignUp size f.hdr.layout.blocksize)
          (f.size / f.hdr.layout.cluster) f) f s.file)
      (fun _ => True) := by
  have hat := openDelta_spec hopen
  have hw := hat.working hf
  have hL := hw.steady.valid
  have hfile : d.file = f := congrArg Disk.file hat.disk
  have hsize := openDelta_size hopen
  obtain ⟨hr, ⟨hindex, hroom⟩, -⟩ := hfit
  generalize f.hdr.layout = L at *
  have hlt := hr.lt
  have hle := hL.blocksize.le
  apply Triple.bind (dirtyDelta_spec d)
  intro _
  apply Triple.start
  intro e he
  have hwe : Working L {content f} (live (L.bat f)) (f.size / L.cluster) e := hw.dirty he
  have hheader : headerBytes ≤ d.file.size := by
    rw [hfile]
    exact le_trans (by decide) hsize
  have hesize : e.file.size = f.size := by
    rw [he, ← hfile]
    exact size_write_diskInUse hheader _
  have hbat : L.bat e.file = L.bat f := by
    rw [he, bat_dirty, hfile]
  have hgrow : GrowRoom L (alignUp size L.blocksize) (f.size / L.cluster) e.file := by
    rwa [GrowRoom, hbat]
  have hlen : f.size / L.cluster * L.cluster ≤ e.file.size := by
    rw [hesize]
    exact Nat.div_mul_le_self _ _
  have hkeep' : ∀ r ∈ ({content f} : Set VDisk), ∀ clu,
      alignUp size L.blocksize / L.blocksize ≤ clu → r clu = none := by
    rintro r rfl
    exact hkeep
  have halign : growDelta size false e = growDelta (alignUp size L.blocksize) false e := by
    have hbs := hwe.opened.blocksize
    rw [← hbs] at hlt hle ⊢
    exact growDelta_alignUp (hbs ▸ hL.pos) (by omega) false
  have hspec := (growDelta_spec hwe hr dvd_alignUp hindex hkeep' hgrow).both
    (growDelta_flagged hwe hlen hr dvd_alignUp hindex hgrow)
  have hgrown : Triple (fun s => s = e) (growDelta size false)
      (fun _ s => ¬ s.l2Dirty ∧ Flagged L (alignUp size L.blocksize)
        (lastHead L (alignUp size L.blocksize) (f.size / L.cluster) f) f s.file)
      (fun _ => True) := by
    rintro s rfl
    have hrun := hspec s rfl
    rw [halign]
    cases hg : growDelta (alignUp size L.blocksize) false s with
    | error er s' => exact True.intro
    | ok maps s' =>
        rw [hg] at hrun
        obtain ⟨⟨A, -, hopened, -⟩, hlayout, hlength, hflags⟩ := hrun
        rw [lastHead, hbat, hesize] at hlength
        exact ⟨hopened.clean, hlayout, hlength, hflags⟩
  apply Triple.bind hgrown
  exact fun _ => Triple.ret fun _ h => h

end Base

/-! ## The merge -/

section Merge

variable {version : FmtVersion} {blocksize : ℕ} {top img : File} {lower : List File}
  {loadCbt : File → Option DirtyBitmap}

/-- What the sources do to the header and, where they have nothing, to the file. -/
theorem mergeBody_hdr (hs : Stack version blocksize (top :: lower)) {ds : List Delta}
    (hds : List.Forall₂ SourceOf (top :: lower) ds) {d : Delta} (hclean : ¬ d.l2Dirty)
    (hsize : headerBytes ≤ d.file.size) :
    Triple (fun s => s = ⟨ds, d⟩) (mergeBody false blocksize version top.hdr.layout.l2Size)
      (fun _ s => s.odelta.file.hdr = { d.file.hdr with mDiskInUse := 0 } ∧
        ((∀ clu, found top lower clu = none) → s.odelta.file.size = d.file.size))
      (fun _ => True) := by
  have hbs : 0 < blocksize := by
    rw [← hs.blocksize top List.mem_cons_self]
    exact (hs.wellFormed top List.mem_cons_self).header.layout.pos
  have hdest : Destination false blocksize version top.hdr.layout.l2Size (found top lower)
      (fun _ e => SameHdr d e ∧ ((∀ clu, found top lower clu = none) → e.file = d.file ∧
        ¬ e.l2Dirty)) (fun _ => True) := by
    constructor
    · exact fun _ _ _ => True.intro
    · exact fun _ _ _ h => h
    · rintro i k clu data e - - - hsome ⟨hhdr, -⟩
      apply (SameHdr.putBlock hbs version i k data e).conseq
      · exact fun _ h => h
      · intro _ s hs'
        refine ⟨Eq.trans hs' hhdr, fun hnone => ?_⟩
        exact absurd ((hnone clu).symm.trans hsome) (Option.some_ne_none _).symm
      · exact fun _ h => h
  apply mergeBody_spec (Q := fun e => e.file.hdr = { d.file.hdr with mDiskInUse := 0 } ∧
    ((∀ clu, found top lower clu = none) → e.file.size = d.file.size)) hs hds hdest
  · rintro e ⟨hhdr, hnone⟩
    rw [if_neg Bool.false_ne_true]
    apply (finishMerge_hdr e).conseq
    · exact fun _ h => h
    · rintro _ s ⟨hs', hlength⟩
      rw [hhdr] at hs'
      refine ⟨hs', fun hall => ?_⟩
      obtain ⟨hfile, hdirty⟩ := hnone hall
      rw [hlength hdirty (by rwa [hfile]), hfile]
    · exact fun _ h => h
  · exact ⟨rfl, fun _ => ⟨rfl, hclean⟩⟩

theorem content_or_found (clu : ℕ) : content img clu ≠ none ∨ found top lower clu ≠ none ↔
    progress (found top lower) (content img) top.hdr.layout.l2Size clu ≠ none := by
  unfold progress
  by_cases hfound : found top lower clu = none
  · rw [if_neg fun h => h.2 hfound]
    exact ⟨fun h => h.resolve_right (not_not.mpr hfound), .inl⟩
  · have hlt : clu < top.hdr.layout.l2Size := by
      by_contra hge
      exact hfound (if_neg hge)
    rw [if_pos ⟨hlt, hfound⟩]
    exact ⟨fun _ => hfound, .inr⟩

/-- The image before the dirty bitmap is moved. -/
structure Put (img top : File) (lower : List File) (D : Disk) : Prop where
  valid : D.file.hdr.Valid
  closed : D.file.hdr.mDiskInUse ≠ signatureDiskInUse
  layout : D.file.hdr.layout = newLayout img.hdr.layout.version img.hdr.layout.blocksize
    (alignUp (getSizeInSectors top.hdr) img.hdr.layout.blocksize)
  flags : D.file.hdr.mFlags = if grownLength img (alignUp (getSizeInSectors top.hdr)
      img.hdr.layout.blocksize) / img.hdr.layout.blocksize ≤
    newFirstBlock img (alignUp (getSizeInSectors top.hdr) img.hdr.layout.blocksize) *
      img.hdr.layout.blocksize then cifEmpty else 0
  large : 4096 ≤ D.file.size
  empty : (∀ clu, found top lower clu = none) → D.file.size =
    grownLength img (alignUp (getSizeInSectors top.hdr) img.hdr.layout.blocksize)

theorem mergeImage_put {D : Disk} (hs : Stack version blocksize (top :: lower ++ [img]))
    (hkeep : ∀ clu, alignUp (getSizeInSectors top.hdr) img.hdr.layout.blocksize
      / img.hdr.layout.blocksize ≤ clu → content img clu = none)
    (hfit : MergeFits top lower (.ploop1 img))
    (h : mergeImage loadCbt (top :: lower) (.ploop1 img) = (none, D)) :
    ∃ D₀, Put img top lower D₀ ∧ D = afterMerge loadCbt (top :: lower) (.ploop1 img) D₀ := by
  have himg : WellFormed img := hs.wellFormed img (by simp)
  have hversion := hs.version img (by simp)
  have hblocksize := hs.blocksize img (by simp)
  have hs' : Stack version blocksize (top :: lower) := hs.append_left
  obtain ⟨t, ds, e, s, hsrc, hout, hbody, rfl⟩ := mergeImage_ok h
  have hds := openSources_spec hsrc
  have ht := openSources_head hsrc
  have hbs : t.blocksize = blocksize :=
    ht.opened.blocksize.trans (hs'.blocksize top List.mem_cons_self)
  have hv : t.version = version := ht.opened.version.trans (hs'.version top List.mem_cons_self)
  rw [hbs, hv, ht.opened.l2Size] at hbody
  cases hopen : openDelta img false with
  | none =>
      simp only [openOutput, hopen] at hout
      cases hout
  | some b =>
      simp only [openOutput, hopen, ht.hdr0] at hout
      have hgrow := outcome_ok hout
      obtain ⟨hclean, hlayout, hlength, hflags⟩ :=
        (growBase_flagged hopen himg hkeep hfit).ok rfl hgrow
      obtain ⟨L, -, -, hmerge⟩ :=
        mergeInto_spec hs' himg hversion hblocksize hkeep hfit hds hopen hgrow
      have hfin := hmerge.ok rfl hbody
      have hheader : headerBytes ≤ e.file.size := by
        rw [hlength]
        exact (le_trans (by decide) (openDelta_size hopen)).trans (le_max_left _ _)
      obtain ⟨hhdr, hempty⟩ := (mergeBody_hdr hs' hds hclean hheader).ok rfl hbody
      have hext : e.disk.Extends s.odelta.disk := (mergeBody_keeps _ _ _ _).ok hbody
      refine ⟨s.odelta.disk, ?_, rfl⟩
      change s.odelta.disk.file.hdr = _ at hhdr
      constructor
      · exact hfin.file.header
      · rw [hhdr]
        exact fun hinuse => absurd hinuse (by decide : (0 : UInt32) ≠ signatureDiskInUse)
      · rw [hhdr, ← hlayout]
        rfl
      · rw [hhdr]
        dsimp only
        rw [hflags, hlength]
        rfl
      · have hlong : img.size ≤ e.file.size := hlength.ge.trans' (le_max_left _ _)
        exact (openDelta_size hopen).trans (hlong.trans hext.size_le)
      · exact fun hall => (hempty hall).trans hlength

/-- The flag after an offline merge in place. -/
theorem mergeImage_flag {D : Disk} (hs : Stack version blocksize (top :: lower ++ [img]))
    (hkeep : ∀ clu, alignUp (getSizeInSectors top.hdr) img.hdr.layout.blocksize
      / img.hdr.layout.blocksize ≤ clu → content img clu = none)
    (hfit : MergeFits top lower (.ploop1 img))
    (h : mergeImage loadCbt (top :: lower) (.ploop1 img) = (none, D)) :
    EmptyFlagRight D.file ↔ FlagFits img
      (alignUp (getSizeInSectors top.hdr) img.hdr.layout.blocksize)
      ((∃ clu, content img clu ≠ none) ∨ ∃ clu, found top lower clu ≠ none)
      (lower = [] ∧ (loadCbt top).isSome) := by
  have himg : WellFormed img := hs.wellFormed img (by simp)
  have hspec : MergedInto top lower img (mergeImage loadCbt (top :: lower) (.ploop1 img)) :=
    mergeInPlace_spec hs hkeep hfit
  rw [h] at hspec
  obtain ⟨hwf, hcontent⟩ := hspec.done rfl
  dsimp only at hwf hcontent
  obtain ⟨D₀, hput, rfl⟩ := mergeImage_put hs hkeep hfit h
  have hused : (∃ clu, content img clu ≠ none) ∨ (∃ clu, found top lower clu ≠ none) ↔
      ∃ clu, content (afterMerge loadCbt (top :: lower) (.ploop1 img) D₀).file clu ≠ none := by
    rw [hcontent, ← exists_or]
    apply exists_congr
    intro clu
    exact content_or_found clu
  generalize hsize : alignUp (getSizeInSectors top.hdr) img.hdr.layout.blocksize = size at *
  have hlayout := hput.layout
  have hflags := hput.flags
  have hempty := hput.empty
  rw [hsize] at hlayout hflags hempty
  have hwhole : newFirstBlock img size * img.hdr.layout.cluster ≤ grownLength img size := by
    apply le_trans ?_ (le_max_right _ _)
    exact Nat.mul_le_mul_right _ ((le_max_right _ _).trans (Nat.le_add_right _ _))
  have hcpos : 0 < img.hdr.layout.cluster := himg.header.layout.cluster_pos
  cases lower with
  | cons f fs =>
      change WellFormed D₀.file at hwf
      change EmptyFlagRight D₀.file ↔ _
      apply emptyFlagRight_iff_of hwf hlayout hflags hused
      intro hnot
      have hnone : ∀ clu, found top (f :: fs) clu = none := by
        intro clu
        by_contra hne
        exact hnot (.inr ⟨clu, hne⟩)
      rw [hempty hnone]
      exact ⟨fun hle => ⟨fun h => List.cons_ne_nil _ _ h.1, hle⟩, fun hle => hle.2⟩
  | nil =>
      obtain ⟨hlay, hfl, hskip, hstored⟩ :=
        moveCbt_past loadCbt top hput.valid hput.closed hput.large
      have hcluster : D₀.file.hdr.layout.cluster = img.hdr.layout.cluster := by
        rw [hlayout]
        rfl
      change WellFormed (moveCbt loadCbt top D₀).file at hwf
      change EmptyFlagRight (moveCbt loadCbt top D₀).file ↔ _
      apply emptyFlagRight_iff_of hwf (hlay.trans hlayout) (hfl.trans hflags) hused
      intro hnot
      have hnone : ∀ clu, found top [] clu = none := by
        intro clu
        by_contra hne
        exact hnot (.inr ⟨clu, hne⟩)
      cases hload : loadCbt top with
      | none =>
          rw [hskip hload, hempty hnone]
          exact ⟨fun hle => ⟨fun h => Bool.false_ne_true h.2, hle⟩, fun hle => hle.2⟩
      | some bitmap =>
          have hlong := hstored (by rw [hload]; rfl)
          rw [hempty hnone, hcluster] at hlong
          constructor
          · intro hle
            have hblock : newFirstBlock img size + 1 ≤
                (moveCbt loadCbt top D₀).file.size / img.hdr.layout.cluster := by
              rw [Nat.le_div_iff_mul_le hcpos, Nat.succ_mul]
              exact (Nat.add_le_add_right hwhole _).trans hlong
            exact absurd hle (Nat.not_le.mpr hblock)
          · exact fun h => absurd ⟨rfl, rfl⟩ h.1

end Merge

/-- The empty flag is right after a grow and after a merge where the two sides of the
comparison, which have different units, happen to give the right answer. -/
theorem emptyFlagRight_iff (loadCbt : File → Option DirtyBitmap) :
    (∀ (f : File) (newSize : ℕ) (D : Disk), WellFormed f →
      Representable f.hdr.layout.version f.hdr.layout.blocksize newSize → GrowFits f newSize →
      getSizeInSectors f.hdr < newSize → ploopGrowDeltaOffline f newSize = (none, D) →
      (EmptyFlagRight D.file ↔ FlagFits f newSize (∃ clu, content f clu ≠ none) False)) ∧
    ∀ (version : FmtVersion) (blocksize : ℕ) (top img : File) (lower : List File) (D : Disk),
      Stack version blocksize (top :: lower ++ [img]) →
      (∀ clu, alignUp (getSizeInSectors top.hdr) img.hdr.layout.blocksize
        / img.hdr.layout.blocksize ≤ clu → content img clu = none) →
      MergeFits top lower (.ploop1 img) →
      mergeImage loadCbt (top :: lower) (.ploop1 img) = (none, D) →
      (EmptyFlagRight D.file ↔ FlagFits img
        (alignUp (getSizeInSectors top.hdr) img.hdr.layout.blocksize)
        ((∃ clu, content img clu ≠ none) ∨ ∃ clu, found top lower clu ≠ none)
        (lower = [] ∧ (loadCbt top).isSome)) := by
  constructor
  · exact fun f newSize D hf hr hfit hlt h => ploopGrowDeltaOffline_flag hf hr hfit hlt h
  · exact fun version blocksize top img lower D hs hkeep hfit h =>
      mergeImage_flag hs hkeep hfit h

/-- One image that is grown, and one that is merged. -/
theorem emptyFlagRight_iff_oneBlock :
    (EmptyFlagRight (ploopGrowDeltaOffline smallDisk movingSize).2.file ↔
      FlagFits smallDisk movingSize (∃ clu, content smallDisk clu ≠ none) False) ∧
    (EmptyFlagRight (mergeImage (fun _ => none) [oneBlock .v1 2 0 9]
        (.ploop1 (oneBlock .v1 2 1 7))).2.file ↔
      FlagFits (oneBlock .v1 2 1 7) (alignUp (getSizeInSectors (oneBlock .v1 2 0 9).hdr)
          (oneBlock .v1 2 1 7).hdr.layout.blocksize)
        ((∃ clu, content (oneBlock .v1 2 1 7) clu ≠ none) ∨
          ∃ clu, found (oneBlock .v1 2 0 9) [] clu ≠ none)
        (([] : List File) = [] ∧ ((fun _ => none : File → Option DirtyBitmap)
          (oneBlock .v1 2 0 9)).isSome)) := by
  constructor
  · apply (emptyFlagRight_iff fun _ => none).1 smallDisk movingSize _ smallDisk_wellFormed
      smallDisk_representable.2 smallDisk_growFits
    · rw [smallDisk_layout.2.1]
      decide
    · exact Prod.ext smallDisk_runs.2.2.2 rfl
  · apply (emptyFlagRight_iff fun _ => none).2 .v1 64 _ _ _ _
      (oneBlock_stack (by norm_num) (by norm_num) (by norm_num) (by norm_num))
    · exact fun clu hclu => content_beyond (by rwa [oneBlock_hdr] at hclu ⊢)
    · exact oneBlock_run.2
    · exact Prod.ext oneBlock_run.1 rfl

/-! ## A block of a megabyte -/

def megaHeader : PvdHeader := (generatePvdHeader PvdHeader.zero 4096 2048 .v2).1

/-- A version 2 image of two clusters of the default size; the first is in block 1. -/
def megaDisk : File where
  size := 2 * 1048576
  byte := fun i =>
    if i < 64 then wordBytes megaHeader.toWords i
    else if i = 64 then 1 else 0
  eof := by
    intro i hi
    rw [if_neg (by omega), if_neg (by omega)]

theorem megaDisk_hdr : megaDisk.hdr = megaHeader := by
  rw [← PvdHeader.ofWords_toWords megaHeader]
  apply PvdHeader.ofWords_congr
  intro i hi
  rw [← bytesWord_wordBytes megaHeader.toWords]
  exact bytesWord_congr fun j hj => if_pos (by omega)

theorem megaDisk_layout : megaDisk.hdr.layout = ⟨.v2, 2048, 1, 2⟩ := by
  rw [megaDisk_hdr]
  rfl

theorem megaDisk_entry (s : ℕ) : Layout.entry megaDisk s = if s = 0 then 1 else 0 := by
  have hbyte : ∀ k, megaDisk.byte (4 * (s + 16) + k) = if 4 * (s + 16) + k = 64 then 1 else 0 :=
    fun k => if_neg (by omega)
  have hfirst := hbyte 0
  rw [Nat.add_zero] at hfirst
  unfold Layout.entry File.word bytesWord mapOffset
  rw [hfirst, hbyte 1, hbyte 2, hbyte 3]
  by_cases hs : s = 0
  · subst hs
    rfl
  · rw [if_neg hs, if_neg (by omega), if_neg (by omega), if_neg (by omega), if_neg (by omega)]
    rfl

theorem megaDisk_wellFormed : WellFormed megaDisk := by
  have hslot : ∀ clu b, megaDisk.hdr.layout.bat megaDisk clu = some b → clu = 0 ∧ b = 1 := by
    intro clu b hb
    rw [megaDisk_layout, Layout.bat, megaDisk_entry] at hb
    by_cases hclu : clu = 0
    · subst hclu
      exact ⟨rfl, (Option.some.inj hb).symm⟩
    · rw [if_neg hclu, if_neg fun h => h.2 rfl] at hb
      cases hb
  constructor
  · rw [megaDisk_hdr]
    exact ⟨by decide, by decide, by decide, by decide, by decide⟩
  · constructor
    · intro clu _
      rw [megaDisk_layout]
      exact Nat.dvd_mul_left _ _
    · intro clu b hb
      obtain ⟨-, rfl⟩ := hslot clu b hb
      rw [megaDisk_layout]
      decide
    · intro k k' i hk hk'
      rw [(hslot k i hk).1, (hslot k' i hk').1]
    · intro s hs _
      rw [megaDisk_layout] at hs
      rw [megaDisk_entry, if_neg (Nat.ne_of_gt ((by decide : 0 < 2).trans_le hs))]

theorem megaDisk_run : getSizeInSectors megaDisk.hdr < 8192 ∧
    (ploopGrowDeltaOffline megaDisk 8192).1 = none ∧
    (ploopGrowDeltaOffline megaDisk 8192).2.file.hdr.mFlags &&& cifEmpty ≠ 0 ∧
    (content (ploopGrowDeltaOffline megaDisk 8192).2.file 0).isSome := by
  decide +kernel

/-- A grown image with data is marked empty. -/
theorem ploopGrowDeltaOffline_marks_empty : ¬ ∀ (f : File) (newSize : ℕ) (D : Disk), WellFormed f →
    getSizeInSectors f.hdr < newSize → ploopGrowDeltaOffline f newSize = (none, D) →
    EmptyFlagRight D.file := by
  intro hall
  obtain ⟨hlt, hok, hflag, hdata⟩ := megaDisk_run
  have hright := hall megaDisk 8192 _ megaDisk_wellFormed hlt (Prod.ext hok rfl)
  exact hflag (hright.clear ⟨0, Option.isSome_iff_ne_none.mp hdata⟩)

end Ploop
