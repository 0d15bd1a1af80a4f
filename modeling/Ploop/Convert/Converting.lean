import Ploop.Convert.Index

/-!
# `change_fmt_version` under a crash

Whatever is written before the signature lies in the table, so that at every moment the index
can be written back. A run that ends well leaves an image fit to be converted again.
-/

namespace Ploop.Convert

open Storage Program Indirection

section Pages

variable {f g : File} {L : Layout} {v : FmtVersion} {m : ℕ} {d : Delta}

/-- Only the memory has changed. -/
def SameDisk (d e : Delta) : Prop := e.disk = d.disk

instance : Std.Refl SameDisk := ⟨fun _ => rfl⟩

instance : IsTrans Delta SameDisk := ⟨fun _ _ _ h h' => Eq.trans h' h⟩

theorem pread_sameDisk (err : Sysexit) (len off : ℕ) : Keeps SameDisk (pread err len off) := by
  refine Keeps.get.bind fun d => ?_
  cases d.file.pread len off with
  | none => exact Keeps.throw err
  | some buf => exact Keeps.pure buf

theorem loadL2_sameDisk (err : Sysexit) (p : ℕ) : Keeps SameDisk (loadL2 err p) :=
  Keeps.get.bind fun _ => Keeps.ite ((pread_sameDisk _ _ _).bind fun _ => Keeps.modify fun _ => rfl)
    (Keeps.pure _)

theorem convertEntry_sameDisk (s : ℕ) : Keeps SameDisk (convertEntry v s) :=
  Keeps.get.bind fun _ => Keeps.ite (Keeps.pure _)
    (Keeps.ite (Keeps.throw _) (Keeps.modify fun _ => rfl))

theorem SameDisk.guarded {P : File → Prop} {e : Delta} (h : SameDisk d e)
    (hd : Guarded g P d.disk) : Guarded g P e.disk := Eq.substr h hd

theorem flushIdx_guarded (hL : L.Valid) (hindex : indexEnd f ≤ f.size)
    (hend : L.l1Size * L.cluster = indexEnd f) (h : ConvertAt g L v m d)
    (hd : Guarded g (Midway f) d.disk) :
    Triple (fun e => e = d) flushIdx (fun _ e => Guarded g (Midway f) e.disk) (fun _ => False) := by
  apply Triple.look
  rintro d rfl
  split
  case isFalse => exact Triple.ret fun e he => he ▸ hd
  case isTrue hdirty =>
    obtain ⟨p, hp⟩ := Option.isSome_iff_exists.mp (h.dirty hdirty)
    apply Triple.look
    rintro d rfl
    rw [hp]
    apply Triple.bind (R := fun _ e => e = d.write (pageWrite L d.l2 p))
    · apply Triple.look
      rintro d rfl
      apply Triple.update
      rintro d rfl
      rw [pageWrite, ← h.cluster]
      rfl
    · intro _
      apply Triple.update
      rintro _ rfl
      have hlast : (pageWrite L d.l2 p).off + (pageWrite L d.l2 p).len ≤ L.l1Size * L.cluster :=
        pageWrite_end hL (h.cached p hp)
      exact hd.write fun x hx => hx.write hindex (pageWrite_off hL) (hend ▸ hlast)

theorem turnPage_guarded (hL : L.Valid) (hindex : indexEnd f ≤ f.size)
    (hend : L.l1Size * L.cluster = indexEnd f) (h : ConvertAt g L v m d)
    (hd : Guarded g (Midway f) d.disk) (p : ℕ) :
    Triple (fun e => e = d) (turnPage p) (fun _ e => Guarded g (Midway f) e.disk)
      (fun e => Guarded g (Midway f) e.disk) := by
  apply Triple.look
  rintro d rfl
  split
  case isFalse => exact Triple.ret fun e he => he ▸ hd
  case isTrue =>
    apply Triple.bind (flushIdx_guarded hL hindex hend h hd).total
    intro _
    apply Triple.start
    intro e he
    exact (loadL2_sameDisk .read p e).conseq (fun _ ht => ht) (fun _ _ hs => hs.guarded he)
      fun _ hs => hs.guarded he

/-- The first `m` slots fit the new version. -/
def Pass (g : File) (L : Layout) (v : FmtVersion) (m : ℕ) : Prop :=
  v = .v1 → ∀ s < m, Layout.entry g s ≠ 0 →
    checkSize (ioffToSec (Layout.entry g s) L.blocksize L.version) L.blocksize v

theorem Pass.succ (h : Pass g L v m) (hm : v = .v1 → Layout.entry g m ≠ 0 →
    checkSize (ioffToSec (Layout.entry g m) L.blocksize L.version) L.blocksize v) :
    Pass g L v (m + 1) := by
  intro hv s hs hne
  rcases Nat.lt_succ_iff_lt_or_eq.mp hs with hlt | rfl
  · exact h hv s hlt hne
  · exact hm hv hne

/-- A slot that does not fit ends the run. -/
theorem convertEntry_fails (hm : m + mapOffset < L.l1Size * L.slots)
    (hbad : ¬ (v = .v1 → Layout.entry g m ≠ 0 →
      checkSize (ioffToSec (Layout.entry g m) L.blocksize L.version) L.blocksize v)) :
    Triple (fun e => ConvertAt g L v m e ∧ e.l2Cache = some ((m + mapOffset) / L.slots))
      (convertEntry v ((m + mapOffset) % L.slots)) (fun _ _ => False) (fun _ => True) := by
  simp only [Classical.not_imp] at hbad
  obtain ⟨hv, hne, hlarge⟩ := hbad
  apply Triple.look
  rintro d ⟨h, hcache⟩
  have hword : d.l2 ((m + mapOffset) % L.slots) = Layout.entry g m :=
    (h.page m hm hcache).trans (Layout.recoded_of_le le_rfl)
  dsimp only
  rw [hword, h.blocksize, h.version, if_neg hne, if_pos ⟨hv, hlarge⟩]
  exact Triple.raise fun _ _ => trivial

theorem convertSlot_try (hL : L.Valid) (hindex : L.l1Size * L.cluster ≤ g.size)
    (hm : m + mapOffset < L.l1Size * L.slots) (hsmall : m + mapOffset < 2 ^ 32) :
    Triple (fun e => ConvertAt g L v m e ∧ Pass g L v m) (convertSlot v m)
      (fun _ e => ConvertAt g L v (m + 1) e ∧ Pass g L v (m + 1)) (fun _ => True) := by
  apply Triple.known
  intro hpass
  by_cases hok : v = .v1 → Layout.entry g m ≠ 0 →
      checkSize (ioffToSec (Layout.entry g m) L.blocksize L.version) L.blocksize v
  · exact (convertSlot_spec hL hindex hm hsmall hok).conseq (fun _ h => h)
      (fun _ _ h => ⟨h, hpass.succ hok⟩) fun _ _ => trivial
  · apply Triple.look
    intro d h
    have hslots : d.cluster / 4 = L.slots := congrArg (· / 4) h.cluster
    dsimp only
    rw [hslots, u32_of_lt hsmall]
    have hturn := turnPage_spec (f := g) (v := v) (m := m) hL hindex
      (p := (m + mapOffset) / L.slots) ((Nat.div_lt_iff_lt_mul hL.slots_pos).mpr hm)
    apply Triple.bind (R := fun _ e => ConvertAt g L v m e ∧
      e.l2Cache = some ((m + mapOffset) / L.slots))
    · apply hturn.conseq ?_ (fun _ _ he => he) fun _ he => he.elim
      rintro _ rfl
      exact h
    intro _
    exact (convertEntry_fails hm hok).conseq (fun _ he => he) (fun _ _ he => he.elim)
      fun _ he => he

/-- The loop at slot `m`. -/
def Turning (f g : File) (L : Layout) (v : FmtVersion) (m : ℕ) (e : Delta) : Prop :=
  (ConvertAt g L v m e ∧ Pass g L v m) ∧ Guarded g (Midway f) e.disk

theorem convertSlot_turning (hL : L.Valid) (hindex : indexEnd f ≤ f.size)
    (hend : L.l1Size * L.cluster = indexEnd f) (hsize : g.size = f.size)
    (hm : m + mapOffset < L.l1Size * L.slots) (hsmall : m + mapOffset < 2 ^ 32) :
    Triple (Turning f g L v m) (convertSlot v m) (fun _ => Turning f g L v (m + 1))
      (fun e => Guarded g (Midway f) e.disk) := by
  have hguard : Triple (Turning f g L v m) (convertSlot v m)
      (fun _ e => Guarded g (Midway f) e.disk) (fun e => Guarded g (Midway f) e.disk) := by
    apply Triple.look
    rintro d ⟨⟨h, -⟩, hd⟩
    apply Triple.bind (turnPage_guarded hL hindex hend h hd _)
    intro _
    apply Triple.start
    intro e he
    exact (convertEntry_sameDisk _ e).conseq (fun _ ht => ht) (fun _ _ hs => hs.guarded he)
      fun _ hs => hs.guarded he
  have htry := convertSlot_try (g := g) (v := v) hL (by rw [hend, hsize]; exact hindex) hm hsmall
  exact ((htry.conseq (fun _ h => h.1) (fun _ _ h => h) fun _ h => h).both hguard).conseq
    (fun _ h => h) (fun _ _ h => h) fun _ h => h.2

end Pages

section Run

variable {f g : File} {v : FmtVersion} {d : Delta}

theorem Midway.sign (hf : WellFormed f) (hindex : indexEnd f ≤ f.size)
    (hsize : v = .v1 → getSizeInSectors f.hdr < 2 ^ 32)
    (hclear : f.hdr.layout.version = .v1 → f.hdr.unused = 0) {x : File} (hx : Midway f x) :
    Midway f (x.pwrite
      ⟨0, 16, wordBytes ({ PvdHeader.zero with mSig := ploop1Signature v }).toWords⟩) := by
  refine ⟨?_, hx.2.sign hf hindex hsize hclear⟩
  unfold Flagged
  rw [hdr_pwrite_sig]
  exact hx.1

/-- The image can be brought back at every moment; in the end its table is in the units of the
new version. -/
theorem changeFmtVersion_leaves (hf : WellFormed f) (hindex : indexEnd f ≤ f.size)
    (hsize : v = .v1 → getSizeInSectors f.hdr < 2 ^ 32)
    (hclear : f.hdr.layout.version = .v1 → f.hdr.unused = 0) (hg : Marked f g) (hflag : Flagged g)
    (hc : Cached g g.hdr.layout (reopened d g)) (hnone : d.l2Cache = none) :
    Triple (fun e => e = reopened d g) (changeFmtVersion v)
      (fun _ => Leaves g (Midway f) fun e =>
        Recoded g g.hdr.layout v (slotBound g.hdr.layout.l1Size g.hdr.layout.slots) e.file ∧
        Pass g g.hdr.layout v (slotBound g.hdr.layout.l1Size g.hdr.layout.slots))
      (fun e => Guarded g (Midway f) e.disk) := by
  have hlayout := hg.layout
  have hL : g.hdr.layout.Valid := hlayout ▸ hf.header.layout
  have hend : g.hdr.layout.l1Size * g.hdr.layout.cluster = indexEnd f := by
    rw [hlayout]
    rfl
  have hindex' : g.hdr.layout.l1Size * g.hdr.layout.cluster ≤ g.size := by
    rw [hend, hg.size]
    exact hindex
  obtain ⟨hk, hsmall⟩ := slotBound_le hL
  have hhead := header_le_index hf
  rw [headerBytes] at hhead
  have hstart : ConvertAt g g.hdr.layout v 0 { reopened d g with dirtied := 0 } := by
    constructor
    · exact hc.blocksize
    · exact hc.version
    · exact hc.l1Size
    · rfl
    · exact fun w _ => rfl
    · exact fun i _ => rfl
    · intro p hp
      exact absurd (hnone.symm.trans hp) (Option.some_ne_none p).symm
    · exact fun hne => absurd rfl hne
    · intro s _ hp
      exact absurd (hnone.symm.trans hp) (Option.some_ne_none _).symm
    · intro s _ _
      rw [Layout.recoded_of_le (Nat.zero_le s)]
      rfl
  have hbound : slotBound (reopened d g).l1Size ((reopened d g).cluster / 4) =
      slotBound g.hdr.layout.l1Size g.hdr.layout.slots := by
    rw [hc.l1Size, hc.slots]
  unfold changeFmtVersion
  refine Triple.step ?_
  refine Triple.look fun e he => ?_
  subst he
  dsimp only
  change Triple _ (forRange (convertSlot v) 0
    (slotBound (reopened d g).l1Size ((reopened d g).cluster / 4)) >>= fun _ =>
      flushIdx >>= fun _ => changeDeltaVersion v) _ _
  rw [hbound]
  apply Triple.bind (R := fun _ => Turning f g g.hdr.layout v
    (slotBound g.hdr.layout.l1Size g.hdr.layout.slots))
  · have hloop := Triple.forRange (I := Turning f g g.hdr.layout v) 0
      (slotBound g.hdr.layout.l1Size g.hdr.layout.slots)
      fun m _ hm => convertSlot_turning hL hindex hend hg.size (by omega) (by omega)
    rw [Nat.zero_add] at hloop
    apply hloop.conseq ?_ (fun _ _ he => he) fun _ he => he
    rintro _ rfl
    exact ⟨⟨hstart, fun _ s hs => absurd hs (Nat.not_lt_zero s)⟩, .new ⟨hflag, hg.near hf⟩⟩
  · intro _
    apply Triple.start
    rintro e ⟨⟨he, hpass⟩, hguard⟩
    have hflush := (flushIdx_spec hL hindex' he).both (flushIdx_guarded hL hindex hend he hguard)
    apply Triple.bind (hflush.conseq (fun _ h => h) (fun _ _ h => h) fun _ h => h.1.elim)
    intro _
    apply Triple.start
    rintro e' ⟨⟨he', hclean, -⟩, hguard'⟩
    refine Triple.step (Triple.update ?_)
    rintro _ rfl
    refine ⟨(hguard'.write fun x hx => hx.sign hf hindex hsize hclear).sync, pending_sync _, ?_,
      hpass⟩
    rw [Delta.file_sync, Delta.file_write]
    exact he'.signed hclean (by omega) (by rw [hg.size]; omega)

end Run

/-! ## The image after a conversion that ended well -/

section Result

variable {f₀ f g g' : File} {v : FmtVersion}

/-- A size that fits version 1 leaves the upper half clear. -/
theorem unused_of_size (hf : WellFormed f) (hclear : f.hdr.layout.version = .v1 → f.hdr.unused = 0)
    (hsize : getSizeInSectors f.hdr < 2 ^ 32) : f.hdr.unused = 0 := by
  cases hver : f.hdr.layout.version with
  | v1 => exact hclear hver
  | v2 =>
      unfold getSizeInSectors at hsize
      rw [version_eq hf, hver] at hsize
      simp only [PvdHeader.mSizeInSectorsV2] at hsize
      apply UInt32.toNat.inj
      rw [show (0 : UInt32).toNat = 0 from rfl]
      omega

/-- The loop goes over the whole table. -/
theorem le_slotBound {L : Layout} (hL : L.Valid) (hsmall : L.l1Size * L.cluster ≤ 2 ^ 32) :
    L.l2Size ≤ slotBound L.l1Size L.slots := by
  have hroom := hL.room
  rw [Layout.cluster_eq, Nat.mul_left_comm] at hsmall
  unfold slotBound u32
  rw [mapOffset] at hroom ⊢
  generalize L.l1Size * L.slots = n at hroom hsmall ⊢
  omega

theorem Pass.fitsVersion (hg : WellFormed g)
    (hsmall : g.hdr.layout.l1Size * g.hdr.layout.cluster ≤ 2 ^ 32)
    (hsize : v = .v1 → getSizeInSectors g.hdr < 2 ^ 32)
    (h : Pass g g.hdr.layout v (slotBound g.hdr.layout.l1Size g.hdr.layout.slots)) :
    g.hdr.layout.FitsVersion g v := by
  cases v with
  | v2 => trivial
  | v1 =>
      refine ⟨hsize rfl, fun clu b hb => ?_⟩
      have hbs := hg.header.layout.blocksize.pos
      have hclu := Layout.bat_lt hb
      have hne : Layout.entry g clu ≠ 0 := fun hzero => by
        rw [(Layout.bat_eq_none hclu).mpr hzero] at hb
        exact absurd hb nofun
      have hcheck := h rfl clu (hclu.trans_le (le_slotBound hg.header.layout hsmall)) hne
      rw [hg.table.sec_eq hbs hb] at hcheck
      have hle : b * g.hdr.layout.blocksize ≤ getMaxPloopSize g.hdr.layout.blocksize .v1 :=
        (doCheckSize_le hcheck).2
      exact hle.trans_lt (by norm_num [getMaxPloopSize])

/-- Where the union is clear only the version of the layout changes. -/
theorem recoded_layout {k : ℕ} (hg : WellFormed g) (hfits : g.hdr.layout.FitsVersion g v)
    (hclear : g.hdr.layout.version = .v1 → g.hdr.unused = 0)
    (hr : Recoded g g.hdr.layout v k g') : g'.hdr.layout = g.hdr.layout.inVersion v := by
  obtain ⟨hlayout, hle⟩ := hr.layout hg hfits
  have hsize : getSizeInSectors { g.hdr with mSig := ploop1Signature v } ≤
      getSizeInSectors g.hdr := by
    have hv : ploop1Version { g.hdr with mSig := ploop1Signature v } = some v :=
      ploop1Version_eq_some.mpr rfl
    unfold getSizeInSectors
    rw [hv, version_eq hg]
    cases hver : g.hdr.layout.version with
    | v1 =>
        cases v with
        | v1 => exact le_rfl
        | v2 => simp [PvdHeader.mSizeInSectorsV2, hclear hver]
    | v2 =>
        cases v with
        | v1 => exact Nat.le_add_right _ _
        | v2 => exact le_rfl
  have hdisk : g'.hdr.layout.l2Size = g.hdr.layout.l2Size := by
    refine le_antisymm ?_ hle
    rw [hr.hdr]
    exact Nat.div_le_div_right hsize
  rw [hlayout, hdisk]
  rfl

/-- The converted table is sound. -/
theorem recoded_tableOk (hg : WellFormed g) (hfits : g.hdr.layout.FitsVersion g v)
    (h : ConvertFits g v)
    (hr : Recoded g g.hdr.layout v (slotBound g.hdr.layout.l1Size g.hdr.layout.slots) g') :
    (g.hdr.layout.inVersion v).TableOk g' := by
  have hvalid : (g.hdr.layout.inVersion v).Valid :=
    ⟨hg.header.layout.blocksize, hg.header.layout.room⟩
  refine (hvalid.tableOk_of_slots (T := g.hdr.layout.bat g) (fun s hs => h.slot hg hr hs)
    (fun clu b hb => ?_) hg.table.oneToOne).2
  obtain ⟨hlow, hhigh⟩ := hg.table.inData clu b hb
  have hclu := Layout.bat_lt hb
  refine ⟨hclu, hlow,
    Layout.fits_inVersion hg.header.layout.blocksize.pos hg.table hfits hb, ?_⟩
  rw [hr.size]
  exact hhigh

/-- What was fit to be converted is so again, in the new version. -/
theorem Rests.converted (hf : Rests f₀ f) (hmark : Marked f g)
    (hsize : v = .v1 → getSizeInSectors f.hdr < 2 ^ 32)
    (hr : Recoded g g.hdr.layout v (slotBound g.hdr.layout.l1Size g.hdr.layout.slots) g')
    (hpass : Pass g g.hdr.layout v (slotBound g.hdr.layout.l1Size g.hdr.layout.slots)) :
    Rests f₀ g' ∧ g'.hdr.layout.version = v := by
  have hg := hf.marked hmark
  have hwf := hg.wellFormed
  have hsize' : v = .v1 → getSizeInSectors g.hdr < 2 ^ 32 := by
    rw [hmark.hdr]
    exact hsize
  have hfits := hpass.fitsVersion hwf hg.small hsize'
  have hconvert : ConvertFits g v := fun _ clu hclu hk =>
    absurd (hclu.trans_le (le_slotBound hwf.header.layout hg.small)) (Nat.not_lt.mpr hk)
  have hlayout := recoded_layout hwf hfits hg.clear hr
  have hcontent : Ploop.content g' = Ploop.content g := by
    funext clu
    by_cases hclu : clu < g.hdr.layout.l2Size
    · exact (hconvert.converted hwf hfits hr).content clu hclu
    · have hbeyond := Nat.not_lt.mp hclu
      rw [content_beyond hbeyond, @content_beyond g' _ (by rw [hlayout]; exact hbeyond)]
  have hvalid : g'.hdr.Valid := by
    refine ⟨?_, ?_, ?_, ?_⟩
    · rw [hr.hdr]
      exact Option.isSome_iff_exists.mpr ⟨v, ploop1Version_eq_some.mpr rfl⟩
    · rw [hr.hdr]
      exact hwf.header.type
    · rw [hr.hdr]
      exact hwf.header.aligned
    · rw [hlayout]
      exact ⟨hwf.header.layout.blocksize, hwf.header.layout.room⟩
  have htable : g'.hdr.layout.TableOk g' := by
    rw [hlayout]
    exact recoded_tableOk hwf hfits hconvert hr
  refine ⟨⟨⟨hvalid, htable⟩, ?_, ?_, ?_, ?_, ?_, ?_⟩, congrArg Layout.version hlayout⟩
  · rw [hlayout, hr.size]
    exact hg.index
  · rw [hlayout]
    exact hg.small
  · rw [hlayout]
    intro hver
    rw [hr.hdr]
    exact unused_of_size hwf hg.clear (hsize' hver)
  · rw [hlayout]
    exact hg.blocksize
  · rw [hlayout]
    exact hg.disk
  · exact hcontent.trans hg.content

end Result

end Ploop.Convert
