import Ploop.Image.CheckBitmap

/-!
# A second check

What a successful check leaves is checked again with the same flags. The second run finds the
slots that the first one kept, so it changes nothing more unless the first one has wiped, by a
number that wraps, the slot of its last block, or has cut off the file at block 0.
-/

namespace Ploop.Check

open Storage Program

section Run

variable {c : Calls} {flags : Flags} {f : File}

/-- The file after the end of a check that is not read-only. -/
def settled (t : File) (n : ℕ) : File :=
  if t.hdr.mDiskInUse ≠ signatureDiskInUse ∧ t.hdr.mFlags = flagsFor t.hdr n then cut t n
  else repaired t n

/-- The descriptor when the bitmap is there as far as it can be. -/
def descFor (c : Calls) (flags : Flags) (f : File) : Desc :=
  descOf flags (flags.detailed && c.bitmap) f

/-- Nothing keeps the check from its end. -/
structure Passes (c : Calls) (flags : Flags) (f : File) : Prop where
  calls : c.Succeed flags
  enters : Enters flags f.hdr
  index : f.hdr.layout.l1Size * f.hdr.layout.cluster ≤ f.size
  sane : ∀ k < readable f, ¬ Fatal (descFor c flags f) f k

/-- A check that has come to its end, in state `s`, and what it found on the way. -/
structure Done (c : Calls) (flags : Flags) (f : File) (s : State) : Prop where
  passes : Passes c flags f
  loop : ∃ t, Scanned (descFor c flags f) f (readable f) t ∧
    s.file = settled t.file (u32 (t.allocHead + 1))

theorem Scanned.hdr {d : Desc} {n : ℕ} {s : State} (h : Scanned d f n s) : s.file.hdr = f.hdr :=
  PvdHeader.ofWords_congr h.header

theorem finish_settled {d : Desc} {n : ℕ} {s : State} (hro : flags.readonly = false)
    (hd : d.ro = false) (hdrop : flags.dropInuse = true) (hs : Scanned d f n s) :
    Triple (fun t => t = s)
      (finish flags f.hdr f.hdr.layout.l1Size f.size (f.hdr.mDiskInUse = signatureDiskInUse))
      (fun _ t => (∀ k < n, ¬ Fatal d f k) ∧
        t.file = settled s.file (u32 (s.allocHead + 1)))
      (fun _ => ∃ k < n, Fatal d f k) := by
  have hhdr := hs.hdr
  have hsize := hs.size
  apply Triple.look
  rintro s rfl
  dsimp only
  split
  case isTrue hfatal => exact Triple.raise fun _ _ => hs.fatality.mp hfatal
  case isFalse hfatal =>
    have hsane : ∀ k < n, ¬ Fatal d f k := fun k hk hk' => hfatal (hs.fatality.mpr ⟨k, hk, hk'⟩)
    have hclean : s.clean = true := by
      rw [hs.clean]
      rintro k hk (hf | ⟨hf, -⟩)
      · exact hsane k hk hf
      · exact absurd (hd.symm.trans hf) Bool.false_ne_true
    rw [hro, hdrop, hclean]
    simp only [Bool.false_eq_true, not_false_eq_true, and_true, and_false, if_false,
      decide_eq_true_eq, not_true_eq_false]
    have hend : Triple (fun t => t.file = cut s.file (u32 (s.allocHead + 1)))
        (if ¬ f.hdr.mDiskInUse = signatureDiskInUse ∧
            f.hdr.mFlags = flagsFor f.hdr (u32 (s.allocHead + 1)) then pure ()
        else writeSafe headerBytes 0 (wordBytes ({ f.hdr with
          mDiskInUse := 0, mFlags := flagsFor f.hdr (u32 (s.allocHead + 1)) }).toWords))
        (fun _ t => (∀ k < n, ¬ Fatal d f k) ∧
          t.file = settled s.file (u32 (s.allocHead + 1)))
        (fun _ => ∃ k < n, Fatal d f k) := by
      unfold settled
      rw [hhdr]
      split
      case isTrue => exact Triple.ret fun t ht => ⟨hsane, ht⟩
      case isFalse =>
        apply Triple.update
        intro t ht
        refine ⟨hsane, ?_⟩
        rw [repaired, hhdr, ← ht]
    split
    case isTrue hcut =>
      apply Triple.bind (R := fun _ t => t.file = cut s.file (u32 (s.allocHead + 1)))
      · apply Triple.update
        rintro t rfl
        rw [cut, hhdr, hsize]
        exact (if_pos hcut).symm
      · exact fun _ => hend
    case isFalse hcut =>
      apply hend.conseq
      · rintro t rfl
        rw [cut, hhdr, hsize]
        exact (if_neg hcut).symm
      · exact fun _ _ ht => ht
      · exact fun _ ht => ht

theorem checkIndex_done (hhdr : Legible f.hdr) (hro : flags.readonly = false)
    (hdrop : flags.dropInuse = true) (henter : Enters flags f.hdr) (hbuffer : c.buffer = true) :
    Triple (fun s => Fresh f s ∧ s.allocHead = f.hdr.layout.l1Size - 1)
      (checkIndex c flags f.hdr f.hdr.layout.version f.hdr.layout.l1Size f.size
        (f.hdr.mDiskInUse = signatureDiskInUse))
      (fun _ => Done c flags f) (fun _ => ¬ Passes c flags f) := by
  apply Triple.start
  rintro s ⟨hs, hhead⟩
  apply Triple.bind (R := fun check t => check = (flags.detailed && c.bitmap) ∧
    (flags.detailed = true → c.bitmap = true ∨ flags.talkative = true) ∧
    t = if check then { s with bmap := fun b => b < f.hdr.layout.l1Size } else s)
  · apply startBitmap_fresh.conseq
    · exact fun _ ht => ht
    · exact fun _ _ ht => ht
    · exact fun t ht hp => ht.2 hp.calls.bitmap
  · intro check
    apply Triple.start
    rintro t ⟨rfl, hbitmap, ht⟩
    have hscan : Scanned (descFor c flags f) f 0 t := ht ▸ hs.scanned hhead
    rw [hro, if_neg Bool.false_ne_true]
    cases hreopen : c.reopen with
    | some e =>
        apply Triple.raise
        intro u _ hp
        cases hreopen.symm.trans hp.calls.reopen
    | none =>
        have hcalls : c.Succeed flags := ⟨hbuffer, hbitmap, hreopen⟩
        dsimp only
        apply Triple.bind (R := fun _ u => Scanned (descFor c flags f) f (readable f) u ∧
          f.hdr.layout.l1Size * f.hdr.layout.cluster ≤ f.size)
        · have hloop := indexLoop_scanned (d := descFor c flags f) hhdr.blocksize
            (f.hdr.mDiskInUse = signatureDiskInUse)
          rw [descFor, descOf, hro] at hloop
          apply hloop.conseq
          · rintro u rfl
            rwa [descFor, descOf, hro] at hscan
          · intro _ u hu
            rwa [descFor, descOf, hro]
          · exact fun u hu hp => absurd hp.index (Nat.not_le.mpr hu.2)
        · intro _
          apply Triple.start
          rintro u ⟨hu, hindex⟩
          apply (finish_settled hro hro hdrop hu).conseq
          · exact fun _ hv => hv
          · rintro _ v ⟨hsane, hfile⟩
            exact ⟨⟨hcalls, henter, hindex, hsane⟩, u, hu, hfile⟩
          · rintro v ⟨k, hk, hfatal⟩ hp
            exact hp.sane k hk hfatal

/-- The flags that both calls have. -/
structure Repairing (flags : Flags) : Prop where
  force : flags.force = true
  detailed : flags.detailed = true
  dropInuse : flags.dropInuse = true
  readonly : flags.readonly = false
  raw : flags.raw = false

theorem Legible.header_le (hhdr : Legible f.hdr)
    (hindex : f.hdr.layout.l1Size * f.hdr.layout.cluster ≤ f.size) :
    f.hdr.layout.cluster ≤ f.size ∧ headerBytes < f.hdr.layout.cluster := by
  have hslots := slots_gt hhdr.blocksize
  refine ⟨(Nat.le_mul_of_pos_left _ (Nat.pos_of_ne_zero hhdr.index)).trans hindex, ?_⟩
  rw [mapOffset] at hslots
  rw [Layout.cluster_eq, headerBytes]
  omega

theorem checkImage_done (hhdr : Legible f.hdr) (hflags : Repairing flags) :
    Triple (Fresh f) (checkImage c flags) (fun _ => Done c flags f)
      (fun _ => ¬ Passes c flags f) := by
  apply checkImage_legible hhdr
  · intro hforce
    exact absurd (hforce.symm.trans hflags.force) Bool.false_ne_true
  · rintro hor s - hp
    obtain ⟨hle, hlt⟩ := hhdr.header_le hp.index
    rcases hor with hshort | hbuffer | hnot
    · omega
    · exact absurd (hbuffer.symm.trans hp.calls.buffer) Bool.false_ne_true
    · exact hnot hp.enters
  · exact fun henter hbuffer => checkIndex_done hhdr hflags.readonly hflags.dropInuse henter hbuffer

theorem checkImage_illegible (hhdr : ¬ Legible f.hdr) :
    Triple (Fresh f) (checkImage c flags) (fun _ _ => False) (fun _ => True) := by
  apply Triple.look
  intro s hs
  apply Triple.bind (R := fun buf t => t = s ∧ buf = fun i => f.byte (0 + i))
  · apply readSafe_spec.conseq
    · exact fun _ ht => ht
    · rintro buf t ⟨ht, -, hbuf⟩
      rw [hs.file] at hbuf
      exact ⟨ht, hbuf⟩
    · exact fun _ _ => trivial
  · intro buf
    apply Triple.start
    rintro t ⟨rfl, hbuf⟩
    have hof : PvdHeader.ofWords (bytesWord buf) = f.hdr := by
      rw [hbuf]
      simp only [Nat.zero_add]
      rfl
    dsimp only
    rw [hof]
    cases hversion : ploop1Version f.hdr with
    | none => exact Triple.raise fun _ _ => trivial
    | some version =>
        dsimp only
        split
        case isTrue => exact Triple.raise fun _ _ => trivial
        case isFalse htype =>
          split
          case isTrue => exact Triple.raise fun _ _ => trivial
          case isFalse hbs =>
            have hvalid : isValidBlocksize f.hdr.mSectors.toNat := not_not.mp hbs
            split
            case isTrue => exact Triple.raise fun _ _ => trivial
            case isFalse hindex =>
              obtain ⟨haligned, hl1⟩ := not_or.mp hindex
              rw [Nat.shiftRight_eq_div_pow, hvalid.ffs] at hl1
              exact absurd ⟨hversion ▸ rfl, not_not.mp htype, hvalid, not_not.mp haligned, hl1⟩ hhdr

/-- A check that returns 0 has come to its end. -/
theorem ploopCheck_done (hflags : Repairing flags) {blocksize : Option ℕ}
    (h : (ploopCheck c flags blocksize f).1 = none) :
    Legible f.hdr ∧ c.sparse.or c.close = none ∧
      Done c flags f (ploopCheck c flags blocksize f).2 := by
  have hstart : Fresh f ⟨f, blocksize, none, true, false, 0, fun _ => false⟩ := ⟨rfl, rfl, rfl, rfl⟩
  unfold ploopCheck at h ⊢
  rw [hflags.raw, if_neg Bool.false_ne_true] at h ⊢
  dsimp only at h ⊢
  cases hrun : checkImage c flags ⟨f, blocksize, none, true, false, 0, fun _ => false⟩ with
  | error e s =>
      rw [hrun] at h
      cases h
  | ok u s =>
      rw [hrun] at h
      by_cases hhdr : Legible f.hdr
      · exact ⟨hhdr, h, (checkImage_done hhdr hflags).ok hstart hrun⟩
      · exact ((checkImage_illegible hhdr).ok hstart hrun).elim

/-- Nothing stops a check of an image that passes. -/
theorem Passes.done (hflags : Repairing flags) (hhdr : Legible f.hdr) (hp : Passes c flags f)
    (blocksize : Option ℕ) :
    (ploopCheck c flags blocksize f).1 = c.sparse.or c.close ∧
      Done c flags f (ploopCheck c flags blocksize f).2 := by
  have hstart : Fresh f ⟨f, blocksize, none, true, false, 0, fun _ => false⟩ := ⟨rfl, rfl, rfl, rfl⟩
  unfold ploopCheck
  rw [hflags.raw, if_neg Bool.false_ne_true]
  dsimp only
  cases hrun : checkImage c flags ⟨f, blocksize, none, true, false, 0, fun _ => false⟩ with
  | error e s => exact absurd hp ((checkImage_done hhdr hflags).err hstart hrun)
  | ok u s => exact ⟨rfl, (checkImage_done hhdr hflags).ok hstart hrun⟩

end Run

/-! ## What the first run leaves -/

section Left

variable {d : Desc} {f : File} {n h : ℕ} {s : State}

theorem HeadAt.lt (hh : HeadAt d f n h) : h < 2 ^ 32 := by
  rcases hh.taken with heq | ⟨k, -, hb⟩
  · have hfirst := f.hdr.mFirstBlockOffset.toNat_lt
    have hl1 : f.hdr.layout.l1Size ≤ f.hdr.mFirstBlockOffset.toNat := Nat.div_le_self _ _
    omega
  · exact (found_block hb).1

/-- The last block is in the file. -/
theorem HeadAt.end_le (hh : HeadAt d f n h) (hd : d.size = f.size)
    (hl1 : f.hdr.layout.l1Size ≠ 0)
    (hindex : f.hdr.layout.l1Size * f.hdr.layout.cluster ≤ f.size) :
    (h + 1) * f.hdr.layout.cluster ≤ f.size := by
  rcases hh.taken with heq | ⟨k, -, hb⟩
  · rwa [heq, Nat.sub_add_cancel (Nat.pos_of_ne_zero hl1)]
  · rw [Nat.succ_mul, ← hd]
    exact (found_block hb).2

theorem flagsFor_idem (vh : PvdHeader) (n : ℕ) (x : UInt32) :
    flagsFor { vh with mDiskInUse := x, mFlags := flagsFor vh n } n = flagsFor vh n := by
  unfold flagsFor
  change (if vh.layout.l1Size < n then _ else _) = _
  split
  case isTrue => rw [UInt32.and_assoc, UInt32.and_self]
  case isFalse => rw [UInt32.or_assoc, UInt32.or_self]

theorem cut_size {t : File} {m : ℕ} (hle : m * t.hdr.layout.cluster ≤ t.size) :
    (cut t m).size = m * t.hdr.layout.cluster := by
  unfold cut
  split
  case isTrue => rfl
  case isFalse hge => exact le_antisymm (Nat.not_lt.mp hge) hle

theorem cut_word {t : File} {m w : ℕ} (hw : 4 * w + 4 ≤ m * t.hdr.layout.cluster) :
    (cut t m).word w = t.word w := by
  unfold cut
  split
  case isTrue => exact t.word_ftruncate_of_lt hw
  case isFalse => rfl

/-- A file that has been cut and put right has its length from the head. -/
theorem settled_size {t : File} {m : ℕ} (hle : m * t.hdr.layout.cluster ≤ t.size)
    (hhead : headerBytes ≤ m * t.hdr.layout.cluster) :
    (settled t m).size = m * t.hdr.layout.cluster := by
  unfold settled
  split
  case isTrue => exact cut_size hle
  case isFalse =>
    rw [repaired, File.size_pwrite_le, cut_size hle]
    rwa [cut_size hle, Nat.zero_add]

theorem settled_word {t : File} {m w : ℕ} (hw : 4 * w + 4 ≤ m * t.hdr.layout.cluster)
    (hpast : mapOffset ≤ w) : (settled t m).word w = t.word w := by
  unfold settled
  split
  case isTrue => exact cut_word hw
  case isFalse =>
    rw [repaired, File.word_pwrite_of_not_mem, cut_word hw]
    right
    simp only [headerBytes, mapOffset] at hpast ⊢
    omega

theorem settled_hdr {t : File} {m : ℕ} (hhead : headerBytes ≤ m * t.hdr.layout.cluster) :
    ∃ x, x ≠ signatureDiskInUse ∧
      (settled t m).hdr = { t.hdr with mDiskInUse := x, mFlags := flagsFor t.hdr m } := by
  unfold settled
  split
  case isTrue hgood =>
    refine ⟨t.hdr.mDiskInUse, hgood.1, ?_⟩
    have hcut : (cut t m).hdr = t.hdr := by
      apply PvdHeader.ofWords_congr
      intro i hi
      apply cut_word
      rw [headerBytes] at hhead
      omega
    rw [hcut, ← hgood.2]
  case isFalse =>
    refine ⟨0, by decide, ?_⟩
    have hw : ∀ i < 16, (repaired t m).word i =
        ({ t.hdr with mDiskInUse := 0, mFlags := flagsFor t.hdr m } : PvdHeader).toWords i := by
      intro i hi
      rw [repaired, File.word_pwrite_of_mem (o := 0) _ rfl (Nat.zero_le i)
        (by simp only [headerBytes]; omega)]
      exact congrFun (bytesWord_wordBytes _) i
    rw [File.hdr, PvdHeader.ofWords_congr hw]
    rfl

/-- The last block is the one before block 0: nothing is left but a header. -/
theorem settled_zero_size (t : File) : (settled t 0).size ≤ headerBytes := by
  have hcut : (cut t 0).size = 0 := cut_size (by rw [Nat.zero_mul]; exact Nat.zero_le _) |>.trans
    (Nat.zero_mul _)
  unfold settled
  split
  case isTrue => exact hcut.trans_le (Nat.zero_le _)
  case isFalse =>
    rw [repaired, File.size_pwrite, hcut]
    split
    · exact Nat.zero_le _
    · simp

end Left

/-- What a check leaves whose last block is `h`. -/
structure Kept (d : Desc) (f : File) (h : ℕ) (g : File) : Prop where
  size : g.size = (h + 1) * f.hdr.layout.cluster
  hdr : ∃ x, x ≠ signatureDiskInUse ∧
    g.hdr = { f.hdr with mDiskInUse := x, mFlags := flagsFor f.hdr (h + 1) }
  wiped : ∀ j, j + mapOffset < f.hdr.layout.l1Size * f.hdr.layout.slots →
    Wiped d f (readable f) j → Layout.entry g j = 0
  kept : ∀ j, j + mapOffset < f.hdr.layout.l1Size * f.hdr.layout.slots →
    ¬ Wiped d f (readable f) j → Layout.entry g j = Layout.entry f j

/-- No slot that is kept names the last block there can be, and the last block of all is named
by a slot that no repair writes to. -/
structure Stable (d : Desc) (f : File) : Prop where
  small : ∀ k < readable f, found d f k ≠ some (.block (2 ^ 32 - 1))
  last : ∀ k < readable f, ∀ b, found d f k = some (.block b) → Wiped d f (readable f) k →
    b < f.hdr.layout.l1Size ∨ ∃ k' < readable f, ∃ b', found d f k' = some (.block b') ∧
      b ≤ b' ∧ ¬ Wiped d f (readable f) k'

section Second

variable {d : Desc} {f g : File} {h : ℕ}

/-- The head is behind the index. -/
theorem HeadAt.index_le {n : ℕ} (hh : HeadAt d f n h) : f.hdr.layout.l1Size * f.hdr.layout.cluster ≤
    (h + 1) * f.hdr.layout.cluster := by
  have hle := hh.index
  exact Nat.mul_le_mul_right _ (by omega)

theorem Scanned.settled_kept {t : State} (hs : Scanned d f (readable f) t) (hhdr : Legible f.hdr)
    (hd : d.size = f.size) (hindex : f.hdr.layout.l1Size * f.hdr.layout.cluster ≤ f.size) :
    Kept d f t.allocHead (settled t.file (t.allocHead + 1)) := by
  have heq := hs.hdr
  have hend := hs.head.end_le hd hhdr.index hindex
  have hl1 := hs.head.index_le
  have hhead : headerBytes ≤ (t.allocHead + 1) * f.hdr.layout.cluster := by
    obtain ⟨-, hlt⟩ := hhdr.header_le hindex
    exact hlt.le.trans (Nat.le_mul_of_pos_left _ (Nat.succ_pos _))
  have hword : ∀ j, j + mapOffset < f.hdr.layout.l1Size * f.hdr.layout.slots →
      Layout.entry (settled t.file (t.allocHead + 1)) j = Layout.entry t.file j := by
    intro j hj
    apply settled_word
    · rw [heq]
      exact (Layout.slot_lt hj).trans hl1
    · exact Nat.le_add_left _ _
  constructor
  · rw [settled_size, heq]
    · rwa [heq, hs.size]
    · rwa [heq]
  · obtain ⟨x, hx, hxhdr⟩ := settled_hdr (t := t.file) (m := t.allocHead + 1) (by rwa [heq])
    rw [heq] at hxhdr
    exact ⟨x, hx, hxhdr⟩
  · exact fun j hj hw => (hword j hj).trans (hs.wiped j hw)
  · exact fun j hj hw => (hword j hj).trans (hs.kept j hw)

variable (hk : Kept d f h g)

include hk

theorem Kept.layout : g.hdr.layout = f.hdr.layout := by
  obtain ⟨x, -, hx⟩ := hk.hdr
  rw [hx]
  rfl

theorem Kept.legible (hhdr : Legible f.hdr) : Legible g.hdr := by
  obtain ⟨x, -, hx⟩ := hk.hdr
  rw [hx]
  exact ⟨hhdr.version, hhdr.type, hhdr.blocksize, hhdr.aligned, hhdr.index⟩

/-- A file with the same head is put right already. -/
theorem Kept.settled_same : settled g (h + 1) = g := by
  obtain ⟨x, hx, hg⟩ := hk.hdr
  have hflags : g.hdr.mFlags = flagsFor g.hdr (h + 1) := by
    rw [hg]
    exact (flagsFor_idem f.hdr (h + 1) x).symm
  have huse : g.hdr.mDiskInUse ≠ signatureDiskInUse := by
    rw [hg]
    exact hx
  rw [settled, if_pos ⟨huse, hflags⟩, cut, hk.layout, hk.size, if_neg (lt_irrefl _)]

omit hk in
/-- A shorter file that holds the block of a slot leaves the slot its verdict. -/
theorem verdict_shorter {d d₂ : Desc} {clu isec bs : ℕ} {version : FmtVersion}
    (hbd : d₂.bdSize = d.bdSize) (hle : d₂.size ≤ d.size)
    (hb : ∀ b, verdict d clu isec bs version = .block b → b * s2b bs + s2b bs ≤ d₂.size) :
    verdict d₂ clu isec bs version = verdict d clu isec bs version := by
  unfold verdict at hb ⊢
  dsimp only at hb ⊢
  rw [hbd]
  split
  case isTrue => rfl
  case isFalse hin =>
    rw [if_neg hin] at hb
    split
    case isTrue => rfl
    case isFalse halign =>
      rw [if_neg halign] at hb
      by_cases hend : d.size < u32 (isec >>> (ffs bs - 1)) * s2b bs + s2b bs
      · rw [if_pos hend, if_pos (hle.trans_lt hend)]
      · rw [if_neg hend] at hb ⊢
        rw [if_neg (Nat.not_lt.mpr (hb _ rfl))]

/-- The descriptors of two runs with the same flags. -/
structure Again (d d₂ : Desc) (f g : File) : Prop where
  first : d.size = f.size
  second : d₂.size = g.size
  bdSize : d₂.bdSize = d.bdSize
  ro : d₂.ro = d.ro
  hardForce : d₂.hardForce = d.hardForce
  check : d₂.check = d.check

variable {d₂ : Desc} (ha : Again d d₂ f g) (hhdr : Legible f.hdr)
  (hindex : f.hdr.layout.l1Size * f.hdr.layout.cluster ≤ f.size)
  (hh : HeadAt d f (readable f) h)

include ha hhdr hindex hh

/-- The second run finds what the first one has kept. -/
theorem Kept.found_iff {k : ℕ} (hlt : k < readable f) {v : Verdict} :
    found d₂ g k = some v ↔ ¬ Wiped d f (readable f) k ∧ found d f k = some v := by
  have hin : k + mapOffset < f.hdr.layout.l1Size * f.hdr.layout.slots := by
    rw [readable_of_le hhdr.blocksize hindex] at hlt
    omega
  by_cases hw : Wiped d f (readable f) k
  · have hnone : found d₂ g k = none := if_pos (hk.wiped k hin hw)
    rw [hnone]
    exact ⟨nofun, fun hv => absurd hw hv.1⟩
  · have hentry := hk.kept k hin hw
    have hsame : found d₂ g k = found d f k := by
      by_cases hzero : Layout.entry f k = 0
      · rw [found, found, if_pos hzero, if_pos (hentry.trans hzero)]
      · have hfound : found d f k = some _ := if_neg hzero
        have hend := hh.end_le ha.first hhdr.index hindex
        rw [hfound, found, if_neg (fun h0 => hzero (hentry.symm.trans h0)), hentry, hk.layout]
        congr 1
        apply verdict_shorter ha.bdSize
        · rw [ha.first, ha.second, hk.size]
          exact hend
        · intro b hb
          rw [hb] at hfound
          rw [ha.second, hk.size]
          change b * f.hdr.layout.cluster + f.hdr.layout.cluster ≤ _
          rw [← Nat.succ_mul]
          exact Nat.mul_le_mul_right _ (Nat.succ_le_succ (hh.slots k hlt b hfound))
    rw [hsame]
    exact ⟨fun hv => ⟨hw, hv⟩, fun hv => hv.2⟩

theorem Kept.repairs {k : ℕ} (hlt : k < readable f) (hr : Repairs d₂ g k) : Repairs d f k := by
  refine ⟨ha.ro ▸ hr.1, ?_⟩
  rcases hr.2 with hout | ⟨hcor, hhard⟩
  · exact .inl ((hk.found_iff ha hhdr hindex hh hlt).mp hout).2
  · exact .inr ⟨((hk.found_iff ha hhdr hindex hh hlt).mp hcor).2, ha.hardForce ▸ hhard⟩

theorem Kept.wiped_of {j : ℕ} (hw : Wiped d₂ g (readable f) j) : Wiped d f (readable f) j := by
  obtain ⟨k, hlt, hj, hr⟩ := hw
  exact ⟨k, hlt, hj, hk.repairs ha hhdr hindex hh hlt hr⟩

theorem Kept.fatal {k : ℕ} (hlt : k < readable f) (hf : Fatal d₂ g k) : Fatal d f k := by
  obtain ⟨hskip, hor⟩ := hf
  refine ⟨?_, ?_⟩
  · rwa [ha.ro, ha.hardForce] at hskip
  · rcases hor with hcor | ⟨hcheck, b, hb, hm⟩
    · exact .inl ((hk.found_iff ha hhdr hindex hh hlt).mp hcor).2
    · refine .inr ⟨ha.check ▸ hcheck, b, ((hk.found_iff ha hhdr hindex hh hlt).mp hb).2, ?_⟩
      rcases hm with hl1 | ⟨k', hk', hb'⟩
      · rw [hk.layout] at hl1
        exact .inl hl1
      · exact .inr ⟨k', hk', ((hk.found_iff ha hhdr hindex hh (hk'.trans hlt)).mp hb').2⟩

omit ha in
theorem Kept.readable_eq : readable g = readable f := by
  have hl1 := hh.index_le
  rw [readable_of_le hhdr.blocksize hindex, readable_of_le, hk.layout]
  · rw [hk.layout]
    exact hhdr.blocksize
  · rwa [hk.layout, hk.size]

/-- The head of the second run. -/
theorem Kept.head_le {h₂ : ℕ} (hh₂ : HeadAt d₂ g (readable f) h₂) : h₂ ≤ h := by
  rcases hh₂.taken with heq | ⟨k, hlt, hb⟩
  · rw [heq, hk.layout]
    exact hh.index
  · exact hh.slots k hlt h₂ ((hk.found_iff ha hhdr hindex hh hlt).mp hb).2

theorem Kept.head_eq_iff {h₂ : ℕ} (hh₂ : HeadAt d₂ g (readable f) h₂) :
    h₂ = h ↔ ∀ k < readable f, ∀ b, found d f k = some (.block b) → Wiped d f (readable f) k →
      b < f.hdr.layout.l1Size ∨ ∃ k' < readable f, ∃ b', found d f k' = some (.block b') ∧
        b ≤ b' ∧ ¬ Wiped d f (readable f) k' := by
  have hl1 : 0 < f.hdr.layout.l1Size := Nat.pos_of_ne_zero hhdr.index
  constructor
  · rintro rfl k hlt b hb -
    have hle := hh.slots k hlt b hb
    rcases hh₂.taken with heq | ⟨k', hlt', hb'⟩
    · rw [hk.layout] at heq
      left
      omega
    · obtain ⟨hw, hb'⟩ := (hk.found_iff ha hhdr hindex hh hlt').mp hb'
      exact .inr ⟨k', hlt', h₂, hb', hle, hw⟩
  · intro hlast
    have hindex₂ := hh₂.index
    rw [hk.layout] at hindex₂
    have hkept : ∀ k < readable f, ∀ b, found d f k = some (.block b) →
        ¬ Wiped d f (readable f) k → b ≤ h₂ := fun k hlt b hb hw =>
      hh₂.slots k hlt b ((hk.found_iff ha hhdr hindex hh hlt).mpr ⟨hw, hb⟩)
    apply le_antisymm (hk.head_le ha hhdr hindex hh hh₂)
    rcases hh.taken with heq | ⟨k, hlt, hb⟩
    · rwa [heq]
    · by_cases hw : Wiped d f (readable f) k
      · rcases hlast k hlt h hb hw with hsmall | ⟨k', hlt', b', hb', hle, hw'⟩
        · omega
        · exact hle.trans (hkept k' hlt' b' hb' hw')
      · exact hkept k hlt h hb hw

/-- The loop of the second run writes zeros over zeros. -/
theorem Kept.loop_same {t : State} (ht : Scanned d₂ g (readable f) t) : t.file = g := by
  have hword : ∀ w, t.file.word w = g.word w := by
    intro w
    by_cases hw : w < mapOffset
    · exact ht.header w hw
    · obtain ⟨j, rfl⟩ := Nat.exists_eq_add_of_le' (Nat.not_lt.mp hw)
      by_cases hwiped : Wiped d₂ g (readable f) j
      · have hin : j + mapOffset < f.hdr.layout.l1Size * f.hdr.layout.slots := by
          have hlt := hwiped.lt
          rw [readable_of_le hhdr.blocksize hindex] at hlt
          omega
        exact (ht.wiped j hwiped).trans
          (hk.wiped j hin (hk.wiped_of ha hhdr hindex hh hwiped)).symm
      · exact ht.kept j hwiped
  apply File.ext ht.size
  funext i
  exact eq_of_bytesWord (hword (i / 4))

end Second

/-! ## Results -/

/-- The header, the table and the length are as before. -/
structure SameIndex (g g' : File) : Prop where
  size : g'.size = g.size
  header : g'.hdr = g.hdr
  table : ∀ i < g.hdr.layout.l1Size * g.hdr.layout.cluster, g'.byte i = g.byte i

section Results

variable {c : Calls} {flags : Flags} {f g : File}

theorem descFor_again {h : ℕ} {d : Desc} (hk : Kept d f h g) :
    Again (descFor c flags f) (descFor c flags g) f g := by
  obtain ⟨x, -, hg⟩ := hk.hdr
  refine ⟨rfl, rfl, ?_, rfl, rfl, rfl⟩
  change offT (getSizeInSectors g.hdr) = offT (getSizeInSectors f.hdr)
  rw [hg]
  rfl

/-- What the first run has kept passes the second one. -/
theorem Passes.again (hflags : Repairing flags) (hhdr : Legible f.hdr) (hp : Passes c flags f)
    {h : ℕ} (hh : HeadAt (descFor c flags f) f (readable f) h)
    (hk : Kept (descFor c flags f) f h g) : Passes c flags g := by
  have ha := @descFor_again c flags f g _ _ hk
  constructor
  · exact hp.calls
  · obtain ⟨x, hx, hg⟩ := hk.hdr
    rw [hg, Enters, if_neg hx]
    exact hflags.force
  · rw [hk.layout, hk.size]
    exact hh.index_le
  · intro k hlt hf
    rw [hk.readable_eq hhdr hp.index hh] at hlt
    exact hp.sane k hlt (hk.fatal ha hhdr hp.index hh hlt hf)

/-- It does not matter whether there is a bitmap. -/
theorem stable_descFor : Stable (descOf flags true f) f ↔ Stable (descFor c flags f) f :=
  ⟨fun h => ⟨h.small, h.last⟩, fun h => ⟨h.small, h.last⟩⟩

/-- A file that is cut at block 0 has no index left to check. -/
theorem ploopCheck_settled_zero (hflags : Repairing flags) {blocksize : Option ℕ} {t : File} :
    (ploopCheck c flags blocksize (settled t (u32 (2 ^ 32 - 1 + 1)))).1 ≠ none := by
  have hzero : u32 (2 ^ 32 - 1 + 1) = 0 := rfl
  rw [hzero]
  intro hok
  obtain ⟨hhdr, -, hp, -⟩ := ploopCheck_done hflags hok
  obtain ⟨hle, hhead⟩ := hhdr.header_le hp.index
  have hsmall := settled_zero_size t
  omega

/-- What the first run leaves unless it cuts at block 0. -/
theorem Done.kept (hhdr : Legible f.hdr) {s : State} (hs : Done c flags f s)
    (hsmall : ∀ k < readable f, found (descFor c flags f) f k ≠ some (.block (2 ^ 32 - 1))) :
    ∃ h < 2 ^ 32 - 1, HeadAt (descFor c flags f) f (readable f) h ∧
      Kept (descFor c flags f) f h s.file := by
  obtain ⟨hp, t, ht, hfile⟩ := hs
  have hlt := ht.head.lt
  have hne : t.allocHead ≠ 2 ^ 32 - 1 := by
    intro hmax
    rcases ht.head.taken with heq | ⟨k, hk, hb⟩
    · have hfirst := f.hdr.mFirstBlockOffset.toNat_lt
      have hl1 : f.hdr.layout.l1Size ≤ f.hdr.mFirstBlockOffset.toNat := Nat.div_le_self _ _
      omega
    · exact hsmall k hk (hmax ▸ hb)
  refine ⟨t.allocHead, by omega, ht.head, ?_⟩
  rw [hfile, u32_of_lt (by omega)]
  exact ht.settled_kept hhdr rfl hp.index

/-- A second check returns 0 and changes nothing exactly when the last block of the image is
named by a slot that is kept, and not the last block there can be. -/
theorem ploopCheck_same_iff (hflags : Repairing flags) {blocksize blocksize' : Option ℕ}
    (hok : (ploopCheck c flags blocksize f).1 = none) :
    ((ploopCheck c flags blocksize' (ploopCheck c flags blocksize f).2.file).1 = none ∧
      SameIndex (ploopCheck c flags blocksize f).2.file
        (ploopCheck c flags blocksize' (ploopCheck c flags blocksize f).2.file).2.file) ↔
      Stable (descOf flags true f) f := by
  obtain ⟨hhdr, hcalls, hdone⟩ := ploopCheck_done hflags hok
  obtain ⟨hp, t, ht, hfile⟩ := id hdone
  rw [stable_descFor (c := c)]
  have hh := ht.head
  by_cases hsmall : ∀ k < readable f, found (descFor c flags f) f k ≠ some (.block (2 ^ 32 - 1))
  case neg =>
    push Not at hsmall
    obtain ⟨k, hlt, hb⟩ := hsmall
    refine ⟨fun hsecond => ?_, fun hstable => absurd hb (hstable.small k hlt)⟩
    have hmax : t.allocHead = 2 ^ 32 - 1 :=
      le_antisymm (Nat.le_sub_one_of_lt hh.lt) (hh.slots k hlt _ hb)
    rw [hfile, hmax] at hsecond
    exact absurd hsecond.1 (ploopCheck_settled_zero hflags)
  obtain ⟨h, hlt, hh, hk⟩ := hdone.kept hhdr hsmall
  generalize (ploopCheck c flags blocksize f).2.file = g at hk ⊢
  have ha := @descFor_again c flags f g _ _ hk
  obtain ⟨hret, -, t₂, ht₂, hfile₂⟩ :=
    (hp.again hflags hhdr hh hk).done hflags (hk.legible hhdr) blocksize'
  rw [hk.readable_eq hhdr hp.index hh] at ht₂
  have hle := hk.head_le ha hhdr hp.index hh ht₂.head
  have hiff := hk.head_eq_iff ha hhdr hp.index hh ht₂.head
  rw [hk.loop_same ha hhdr hp.index hh ht₂, u32_of_lt (by omega)] at hfile₂
  constructor
  · rintro ⟨-, hsame⟩
    refine ⟨hsmall, hiff.mp ?_⟩
    by_contra hne
    have hend : (t₂.allocHead + 1) * f.hdr.layout.cluster ≤ g.size := by
      rw [hk.size]
      exact Nat.mul_le_mul_right _ (by omega)
    obtain ⟨-, hcluster⟩ := hhdr.header_le hp.index
    have hhead : headerBytes ≤ (t₂.allocHead + 1) * f.hdr.layout.cluster :=
      hcluster.le.trans (Nat.le_mul_of_pos_left _ (Nat.succ_pos _))
    have hsize := hsame.size
    rw [hfile₂, settled_size, hk.layout, hk.size] at hsize
    · have := Nat.eq_of_mul_eq_mul_right (by omega) hsize
      omega
    · rwa [hk.layout]
    · rwa [hk.layout]
  · intro hstable
    refine ⟨hret.trans hcalls, ?_⟩
    rw [hfile₂, hiff.mpr hstable.last, hk.settled_same]
    exact ⟨rfl, rfl, fun _ _ => rfl⟩

/-- A bitmap that has had room for the first run has room for the second one. -/
theorem Kept.inBitmap (hflags : Repairing flags) (hhdr : Legible f.hdr) (hp : Passes c flags f)
    {h : ℕ} (hh : HeadAt (descFor c flags f) f (readable f) h)
    (hk : Kept (descFor c flags f) f h g) {blocksize : Option ℕ}
    (hin : InBitmap f (ploopCheck c flags blocksize f).2) (blocksize' : Option ℕ) :
    InBitmap g (ploopCheck c flags blocksize' g).2 := by
  obtain ⟨hle, hcluster⟩ := hhdr.header_le hp.index
  have hpos : 0 < f.hdr.layout.cluster := by omega
  refine ⟨fun b hb => ?_, fun w hw => holes_inside hw⟩
  obtain ⟨hbitmap, -, hm⟩ :=
    (ploopCheck_bits (hk.legible hhdr) hflags.raw blocksize').sound b hb
  -- the last block was marked in the first run, so it is not among the last 32 there can be
  have hlast : h < 2 ^ 32 - 32 := by
    have hbits := @ploopCheck_bits c flags f hhdr hflags.raw blocksize
    have hl1 : 0 < f.hdr.layout.l1Size := Nat.pos_of_ne_zero hhdr.index
    have hmark : Marked (descOf flags true f) f (readable f) h := by
      rcases hh.taken with heq | htaken
      · exact .inl (by omega)
      · exact .inr htaken
    have hset := hbits.complete ⟨hp.calls.buffer, hbitmap, fun _ => hp.calls.reopen⟩
      hflags.detailed (by omega) hp.enters h hmark
    exact (inside_iff.mp (hin.marks h hset)).trans_le (bmapSize_lt _ _)
  have hend : b * f.hdr.layout.cluster + f.hdr.layout.cluster ≤ g.size := by
    rcases hm with hindex | ⟨k, -, hblock⟩
    · have hfirst := hh.index
      rw [hk.layout] at hindex
      rw [hk.size, ← Nat.succ_mul]
      exact Nat.mul_le_mul_right _ (by omega)
    · have hblock' := (found_block hblock).2
      rwa [hk.layout] at hblock'
  rw [hk.layout]
  refine inside_iff.mpr (lt_bmapSize hpos hend ?_)
  have hblocks : (g.size + f.hdr.layout.cluster - 1) / f.hdr.layout.cluster ≤ h + 1 := by
    apply Nat.lt_succ_iff.mp
    rw [Nat.div_lt_iff_lt_mul hpos, Nat.succ_mul, hk.size]
    omega
  omega

/-- Where the first check has returned 0 without leaving its bitmap, a second one returns 0
without leaving it and changes nothing exactly when the last block of the image is named by a
slot that is kept, and not the last block there can be. -/
theorem ploopCheck_twice_iff (hflags : Repairing flags) {blocksize blocksize' : Option ℕ}
    (hok : (ploopCheck c flags blocksize f).1 = none)
    (hin : InBitmap f (ploopCheck c flags blocksize f).2) :
    ((ploopCheck c flags blocksize' (ploopCheck c flags blocksize f).2.file).1 = none ∧
      InBitmap (ploopCheck c flags blocksize f).2.file
        (ploopCheck c flags blocksize' (ploopCheck c flags blocksize f).2.file).2 ∧
      SameIndex (ploopCheck c flags blocksize f).2.file
        (ploopCheck c flags blocksize' (ploopCheck c flags blocksize f).2.file).2.file) ↔
      Stable (descOf flags true f) f := by
  have hiff := @ploopCheck_same_iff c flags f hflags blocksize blocksize' hok
  constructor
  · exact fun h => hiff.mp ⟨h.1, h.2.2⟩
  · intro hstable
    obtain ⟨hret, hsame⟩ := hiff.mpr hstable
    obtain ⟨hhdr, -, hdone⟩ := ploopCheck_done hflags hok
    obtain ⟨h, -, hh, hk⟩ := hdone.kept hhdr ((stable_descFor (c := c)).mp hstable).small
    exact ⟨hret, hk.inBitmap hflags hhdr hdone.passes hh hin blocksize', hsame⟩

end Results

/-! ## Two images -/

/-- `CHECK_FORCE | CHECK_DETAILED | CHECK_DROPINUSE` -/
def repairFlags : Flags where
  force := true
  hardForce := false
  detailed := true
  dropInuse := true
  readonly := false
  raw := false
  talkative := false

theorem repairFlags_repairing : Repairing repairFlags := ⟨rfl, rfl, rfl, rfl, rfl⟩

/-- Every call succeeds. -/
def allCalls : Calls := ⟨true, true, none, none, none⟩

/-- An image that is not in use passes if no slot is bad. -/
theorem passes_of_found {f : File} (huse : f.hdr.mDiskInUse ≠ signatureDiskInUse)
    (hindex : f.hdr.layout.l1Size * f.hdr.layout.cluster ≤ f.size)
    (hsane : ∀ k < readable f, ¬ Fatal (descFor allCalls repairFlags f) f k) :
    Passes allCalls repairFlags f := by
  refine ⟨⟨rfl, fun _ => .inl rfl, rfl⟩, ?_, hindex, hsane⟩
  rw [Enters, if_neg huse]
  rfl

theorem crossedImage_found {k : ℕ} (hk : k < 8176) :
    found (descFor allCalls repairFlags (crossedImage .v1)) (crossedImage .v1) k =
      (crossed k).map .block := by
  have hdesc : descFor allCalls repairFlags (crossedImage .v1) =
      ⟨false, false, true, 2 ^ 17, 3 * 32768⟩ := by
    rw [descFor, descOf, crossedImage_hdr]
    rfl
  rw [found, crossedImage_entry .v1 hk, hdesc, crossedImage_hdr]
  unfold crossed
  split
  case isTrue h =>
    subst h
    decide
  case isFalse =>
    split
    case isTrue h =>
      subst h
      decide
    case isFalse => rfl

theorem crossedImage_passes : Passes allCalls repairFlags (crossedImage .v1) := by
  have hreadable : readable (crossedImage .v1) = 8176 := by
    rw [readable, crossedImage_hdr]
    rfl
  apply passes_of_found
  · rw [crossedImage_hdr]
    decide
  · rw [crossedImage_hdr]
    decide
  · rintro k hk ⟨-, hor⟩
    rw [hreadable] at hk
    have hblock : ∀ j < 8176, ∀ b,
        found (descFor allCalls repairFlags (crossedImage .v1)) (crossedImage .v1) j =
          some (.block b) → j = 0 ∧ b = 2 ∨ j = 5 ∧ b = 1 := by
      intro j hj b hb
      rw [crossedImage_found hj] at hb
      obtain ⟨b', hb', heq⟩ := Option.map_eq_some_iff.mp hb
      cases heq
      exact crossed_eq_some hb'
    rcases hor with hcor | ⟨-, b, hb, hl1 | ⟨j, hj, hb'⟩⟩
    · rw [crossedImage_found hk] at hcor
      obtain ⟨b, -, heq⟩ := Option.map_eq_some_iff.mp hcor
      cases heq
    · rw [crossedImage_hdr] at hl1
      change b < 1 at hl1
      have := hblock k hk b hb
      omega
    · have := hblock k hk b hb
      have := hblock j (by omega) b hb'
      omega

/-- An image with two clusters is checked twice. -/
theorem ploopCheck_twice_iff_crossed :
    ((ploopCheck allCalls repairFlags none
        (ploopCheck allCalls repairFlags none (crossedImage .v1)).2.file).1 = none ∧
      InBitmap (ploopCheck allCalls repairFlags none (crossedImage .v1)).2.file
        (ploopCheck allCalls repairFlags none
          (ploopCheck allCalls repairFlags none (crossedImage .v1)).2.file).2 ∧
      SameIndex (ploopCheck allCalls repairFlags none (crossedImage .v1)).2.file
        (ploopCheck allCalls repairFlags none
          (ploopCheck allCalls repairFlags none (crossedImage .v1)).2.file).2.file) ↔
      Stable (descOf repairFlags true (crossedImage .v1)) (crossedImage .v1) := by
  have hlegible := legible_of_valid (crossedImage_wellFormed .v1).header
  have hok := (crossedImage_passes.done repairFlags_repairing hlegible none).1
  refine ploopCheck_twice_iff repairFlags_repairing hok ?_
  apply BitmapFits.inBitmap hlegible rfl none
  rintro -
  rw [BitmapFits, crossedImage_hdr]
  refine ⟨by decide, fun hmany => absurd hmany (by decide)⟩

/-! ### A slot behind the 32 bits -/

/-- An index of `2^19 + 1` clusters. -/
def straysHeader : PvdHeader :=
  { (generatePvdHeader PvdHeader.zero (2 ^ 17) 64 .v2).1 with
    mFirstBlockOffset := UInt32.ofNat ((2 ^ 19 + 1) * 64) }

/-- Slot 0 names the last block, slot `2^32` one behind the file. -/
def straysEntry (k : ℕ) : UInt32 :=
  if k = 0 then UInt32.ofNat (2 ^ 19 + 1) else if k = 2 ^ 32 then 0xffffffff else 0

def straysImage : File :=
  tabled straysHeader straysEntry ((2 ^ 19 + 1) * 8192) ((2 ^ 19 + 2) * 32768)

/-- `repairFlags` with `CHECK_HARDFORCE` -/
def hardFlags : Flags := { repairFlags with hardForce := true }

theorem straysImage_hdr : straysImage.hdr = straysHeader := tabled_hdr (by decide) (by decide)

theorem straysHeader_layout : straysHeader.layout = ⟨.v2, 64, 2 ^ 19 + 1, 2 ^ 11⟩ := rfl

theorem straysImage_readable : readable straysImage = 2 ^ 32 + 8176 := by
  rw [readable, straysImage_hdr, straysHeader_layout]
  rfl

theorem straysImage_found {k : ℕ} (hk : k < 2 ^ 32 + 8176) :
    found (descFor allCalls hardFlags straysImage) straysImage k =
      if k = 0 then some (.block (2 ^ 19 + 1))
      else if k = 2 ^ 32 then some .corrupted else none := by
  have hentry : Layout.entry straysImage k = straysEntry k := by
    apply tabled_entry (by decide)
    simp only [mapOffset]
    omega
  have hdesc : descFor allCalls hardFlags straysImage =
      ⟨false, true, true, 2 ^ 17, (2 ^ 19 + 2) * 32768⟩ := by
    rw [descFor, descOf, straysImage_hdr]
    rfl
  rw [found, hentry, hdesc, straysImage_hdr, straysHeader_layout]
  unfold straysEntry
  split
  case isTrue h =>
    subst h
    decide
  case isFalse =>
    split
    case isTrue h =>
      subst h
      decide
    case isFalse => rfl

theorem straysImage_passes : Passes allCalls hardFlags straysImage := by
  refine ⟨⟨rfl, fun _ => .inl rfl, rfl⟩, ?_, ?_, ?_⟩
  · rw [straysImage_hdr]
    rfl
  · rw [straysImage_hdr, straysHeader_layout]
    decide
  · rintro k hk ⟨hor, -⟩
    rcases hor with hro | hhard
    · cases hro
    · cases hhard

/-- The slot of the last block is cleared for one that is `2^32` slots behind it. -/
theorem straysImage_not_stable : ¬ Stable (descFor allCalls hardFlags straysImage) straysImage := by
  intro hstable
  have hzero := straysImage_found (k := 0) (by decide)
  have hfar := straysImage_found (k := 2 ^ 32) (by decide)
  rw [if_pos rfl] at hzero
  rw [if_neg (by decide), if_pos rfl] at hfar
  have hreadable := straysImage_readable
  have hwiped : Wiped (descFor allCalls hardFlags straysImage) straysImage
      (readable straysImage) 0 := ⟨2 ^ 32, by omega, rfl, rfl, .inr ⟨hfar, rfl⟩⟩
  rcases hstable.last 0 (by omega) _ hzero hwiped with hl1 | ⟨j, hj, b, hb, -, hnot⟩
  · rw [straysImage_hdr, straysHeader_layout] at hl1
    exact absurd hl1 (by decide)
  · rw [hreadable] at hj
    rw [straysImage_found hj] at hb
    split at hb
    case isTrue h => exact hnot (h ▸ hwiped)
    case isFalse =>
      split at hb
      case isTrue => cases hb
      case isFalse => cases hb

/-- Both checks stay in their bitmaps, and the second one cuts off the last block. -/
theorem ploopCheck_strays : ¬ ∀ (c : Calls) (flags : Flags) (f : File)
    (blocksize blocksize' : Option ℕ), Repairing flags →
    (ploopCheck c flags blocksize f).1 = none →
    InBitmap f (ploopCheck c flags blocksize f).2 →
    (ploopCheck c flags blocksize' (ploopCheck c flags blocksize f).2.file).1 = none ∧
      InBitmap (ploopCheck c flags blocksize f).2.file
        (ploopCheck c flags blocksize' (ploopCheck c flags blocksize f).2.file).2 ∧
      SameIndex (ploopCheck c flags blocksize f).2.file
        (ploopCheck c flags blocksize' (ploopCheck c flags blocksize f).2.file).2.file := by
  intro hall
  have hflags : Repairing hardFlags := ⟨rfl, rfl, rfl, rfl, rfl⟩
  have hlegible : Legible straysImage.hdr := by
    rw [straysImage_hdr]
    exact ⟨by decide, rfl, by decide, by decide, by decide⟩
  have hok := (straysImage_passes.done hflags hlegible none).1
  have hin : InBitmap straysImage (ploopCheck allCalls hardFlags none straysImage).2 := by
    apply BitmapFits.inBitmap hlegible rfl none
    rintro -
    rw [BitmapFits, straysImage_hdr, straysHeader_layout]
    exact ⟨by decide, fun hmany => absurd hmany (by decide)⟩
  obtain ⟨hret, -, hsame⟩ := hall allCalls hardFlags straysImage none none hflags hok hin
  exact straysImage_not_stable ((stable_descFor (c := allCalls)).mp
    ((ploopCheck_same_iff hflags hok).mp ⟨hret, hsame⟩))

end Ploop.Check
