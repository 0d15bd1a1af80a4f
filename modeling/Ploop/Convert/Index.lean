import Ploop.Convert.Marks

/-!
# The index of an image

`backup_idx_table`, `change_fmt_version` and `do_restore_fmt_version` each go over the index
once. The runs are kept with everything that a crash could leave of them.
-/

namespace Ploop.Convert

open Storage Program

/-! ## The source -/

/-- One turn of `backup_idx_table`, on the descriptor of the backup; there is room for `room`
clusters. The buffer `d->l2` is not read before it is loaded anew. -/
def backupCluster (room : ℕ) (d : Delta) (clu : ℕ) : DeltaM Unit := do
  match d.file.pread d.cluster (clu * d.cluster) with
  | none => throw .write
  | some buf => if room ≤ clu then throw .read else pwrite (clu * d.cluster) d.cluster buf

def copyIdxTable (room : ℕ) (d : Delta) : DeltaM Unit := do
  forRange (backupCluster room d) 0 d.l1Size
  fsync

/-- The header in the first cluster of the table is marked. -/
def markBuf (buf : ℕ → UInt8) : ℕ → UInt8 :=
  overlay (overlay buf PvdHeader.offDiskInUse 4 (wordBytes fun _ => 1)) PvdHeader.offFlags 4
    (wordBytes fun _ => bytesWord buf (PvdHeader.offFlags / 4) ||| cifFmtVersionConvert)

/-- One turn of `do_restore_fmt_version`; the offset is computed in 32 bits. -/
def restoreCluster (idelta : Delta) (clu : ℕ) : DeltaM Unit := do
  let off := u32 (clu * idelta.cluster)
  match idelta.file.pread idelta.cluster off with
  | none => throw .read
  | some buf => pwrite off idelta.cluster (if clu = 0 then markBuf buf else buf)

/-- `do_restore_fmt_version` -/
def doRestoreFmtVersion (idelta : Delta) : DeltaM Unit := do
  let d ← get
  if d.l1Size ≠ idelta.l1Size ∨ d.l2Size ≠ idelta.l2Size ∨ d.blocksize ≠ idelta.blocksize then
    throw .param
  else do
    forRange (restoreCluster idelta) 0 idelta.l1Size
    fsync

/-! ## Guarded runs -/

/-- Whatever a crash leaves of a run that began with `f` satisfies `P`. -/
structure Guarded (f : File) (P : File → Prop) (D : Disk) : Prop where
  init : D.init = f
  safe : D.Safe fun _ => P

namespace Guarded

variable {f : File} {P : File → Prop} {D : Disk} {w : Write}

theorem new (h : P f) : Guarded f P (Disk.new f) := ⟨rfl, Disk.safe_new h⟩

theorem file (h : Guarded f P D) : P D.file := h.safe.every.file

theorem sync (h : Guarded f P D) : Guarded f P D.sync :=
  ⟨h.init, h.safe.sync (Disk.every_sync.mpr h.file)⟩

theorem write (h : Guarded f P D) (hw : ∀ x, P x → P (x.pwrite w)) : Guarded f P (D.write w) :=
  ⟨h.init, h.safe.write (h.safe.every.write hw)⟩

/-- One write and a barrier. -/
theorem one (h : P f) (hw : P (f.pwrite w)) : Guarded f P ((Disk.new f).write w).sync := by
  apply sync
  have hnow : ((Disk.new f).write w).Every P := every_write.mpr ⟨every_nil.mpr h, every_nil.mpr hw⟩
  exact ⟨rfl, (Disk.safe_new h).write hnow⟩

end Guarded

/-- The run stays guarded and ends with a barrier. -/
def Leaves (f : File) (P : File → Prop) (Q : Delta → Prop) (e : Delta) : Prop :=
  Guarded f P e.disk ∧ pending e.disk.log = [] ∧ Q e

section Marking

variable {f : File} {d : Delta} {P : File → Prop}

/-- `d` on a file of its own. -/
def reopened (d : Delta) (f : File) : Delta := { d with disk := Disk.new f }

/-- A field of the header is written, with a barrier. -/
theorem marking_run {x : DeltaM Unit} {w : Write} (h : P f) (hw : P (f.pwrite w))
    (hx : Triple (fun e => e = reopened d f) x (fun _ e => ∃ k, e = { d with
      disk := ((Disk.new f).write w).sync, dirtied := k }) (fun _ => False)) :
    Triple (fun e => e = reopened d f) x
      (fun _ => Leaves f P fun e => ∃ k, e = { d with
        disk := ((Disk.new f).write w).sync, dirtied := k }) (fun _ => False) := by
  refine hx.conseq (fun _ he => he) ?_ fun _ he => he
  rintro _ e ⟨k, rfl⟩
  exact ⟨.one h hw, pending_sync _, k, rfl⟩

theorem dirtyDelta_leaves (h : P f)
    (hw : P (f.pwrite ⟨PvdHeader.offDiskInUse, 4, wordBytes fun _ => signatureDiskInUse⟩)) :
    Triple (fun e => e = reopened d f) dirtyDelta
      (fun _ => Leaves f P fun e => ∃ k, e = { d with disk := ((Disk.new f).write
        ⟨PvdHeader.offDiskInUse, 4, wordBytes fun _ => signatureDiskInUse⟩).sync, dirtied := k })
      (fun _ => False) := by
  apply marking_run h hw
  refine (dirtyDelta_spec (reopened d f)).conseq (fun _ he => he) ?_ fun _ he => he
  rintro _ _ rfl
  exact ⟨2, rfl⟩

theorem clearDelta_leaves (h : P f)
    (hw : P (f.pwrite ⟨PvdHeader.offDiskInUse, 4, wordBytes fun _ => 0⟩)) :
    Triple (fun e => e = reopened d f) clearDelta
      (fun _ => Leaves f P fun e => ∃ k, e = { d with disk := ((Disk.new f).write
        ⟨PvdHeader.offDiskInUse, 4, wordBytes fun _ => 0⟩).sync, dirtied := k })
      (fun _ => False) := by
  apply marking_run h hw
  refine (clearDelta_spec (reopened d f)).conseq (fun _ he => he) ?_ fun _ he => he
  rintro _ _ rfl
  exact ⟨0, rfl⟩

theorem changeDeltaFlags_leaves {v : UInt32} (h : P f)
    (hw : P (f.pwrite ⟨PvdHeader.offFlags, 4, wordBytes fun _ => v⟩)) :
    Triple (fun e => e = reopened d f) (changeDeltaFlags v)
      (fun _ => Leaves f P fun e => ∃ k, e = { d with disk := ((Disk.new f).write
        ⟨PvdHeader.offFlags, 4, wordBytes fun _ => v⟩).sync, dirtied := k })
      (fun _ => False) := by
  apply marking_run h hw
  refine Triple.step (Triple.update ?_)
  rintro _ rfl
  exact ⟨d.dirtied, rfl⟩

end Marking

/-! ## The backup -/

section Backup

variable {f : File} {d : Delta}

/-- The first `m` clusters of the backup are written. -/
structure Copied (f : File) (C m : ℕ) (e : Delta) : Prop where
  guarded : Guarded File.empty (fun _ => True) e.disk
  size : e.file.size = m * C
  byte : ∀ i < m * C, e.file.byte i = f.byte i

theorem backupCluster_spec {C m : ℕ} (room : ℕ) (hC : 0 < C) (hcluster : d.cluster = C)
    (hfile : d.file = f) :
    Triple (Copied f C m) (backupCluster room d m) (fun _ => Copied f C (m + 1))
      (fun e => Guarded File.empty (fun _ => True) e.disk) := by
  unfold backupCluster
  rw [hfile, hcluster]
  cases hread : f.pread C (m * C) with
  | none => exact Triple.raise fun e he => he.guarded
  | some buf =>
      obtain ⟨-, rfl⟩ := File.pread_eq_some.mp hread
      dsimp only
      split
      case isTrue => exact Triple.raise fun e he => he.guarded
      case isFalse =>
        apply Triple.update
        intro e he
        refine ⟨he.guarded.write fun _ _ => trivial, ?_, fun i hi => ?_⟩
        · rw [Delta.file_write, File.size_pwrite, if_neg hC.ne', he.size, Nat.succ_mul]
          exact max_eq_right (Nat.le_add_right _ _)
        · rw [Nat.succ_mul] at hi
          rw [Delta.file_write, File.byte_pwrite]
          by_cases hlt : i < m * C
          · rw [overlay_of_lt hlt]
            exact he.byte i hlt
          · rw [overlay_of_mem (Nat.not_lt.mp hlt) hi]
            exact congrArg f.byte (Nat.add_sub_cancel' (Nat.not_lt.mp hlt))

theorem copyIdxTable_leaves (room : ℕ) (hf : WellFormed f) (hfile : d.file = f)
    (hbs : d.blocksize = f.hdr.layout.blocksize) (hl1 : d.l1Size = f.hdr.layout.l1Size) :
    Triple (fun e => e = reopened (openDeltaSimple File.empty) File.empty) (copyIdxTable room d)
      (fun _ => Leaves File.empty (fun _ => True) fun e => IsBackup f e.file)
      (fun e => Guarded File.empty (fun _ => True) e.disk) := by
  have hcluster : d.cluster = f.hdr.layout.cluster := congrArg s2b hbs
  apply Triple.bind (R := fun _ => Copied f f.hdr.layout.cluster f.hdr.layout.l1Size)
  · have hloop := Triple.forRange (I := Copied f f.hdr.layout.cluster) 0 f.hdr.layout.l1Size
      fun m _ _ => backupCluster_spec room hf.header.layout.cluster_pos hcluster hfile
    rw [Nat.zero_add] at hloop
    rw [hl1]
    apply hloop.conseq ?_ (fun _ _ he => he) fun _ he => he
    rintro _ rfl
    refine ⟨.new trivial, ?_, fun i hi => ?_⟩
    · rw [Nat.zero_mul]
      rfl
    · rw [Nat.zero_mul] at hi
      exact absurd hi (Nat.not_lt_zero i)
  · intro _
    apply Triple.update
    intro e he
    refine ⟨he.guarded.sync, pending_sync _, ?_, fun i hi => ?_⟩
    · rw [Delta.file_sync]
      exact he.size
    · rw [Delta.file_sync]
      exact he.byte i hi

end Backup

/-! ## The restore -/

/-- In the middle of a conversion of `f`, and marked so. -/
def Midway (f y : File) : Prop := Flagged y ∧ Near f y

section Flags

theorem or_flag (v : UInt32) : (v ||| cifFmtVersionConvert) &&& cifFmtVersionConvert ≠ 0 := by
  have habsorb : (v ||| cifFmtVersionConvert) &&& cifFmtVersionConvert = cifFmtVersionConvert := by
    apply UInt32.toBitVec_inj.mp
    ext i hi
    simpa using Or.inr
  rw [habsorb]
  decide

theorem and_not_flag (v : UInt32) :
    (v &&& ~~~cifFmtVersionConvert) &&& cifFmtVersionConvert = 0 := by
  rw [UInt32.and_assoc, UInt32.not_and_self, UInt32.and_zero]

theorem bytesWord_overlay (buf : ℕ → UInt8) (o i : ℕ) (v : UInt32) :
    bytesWord (overlay buf (4 * o) 4 (wordBytes fun _ => v)) i
      = if i = o then v else bytesWord buf i := by
  split
  case isTrue h =>
    subst h
    have hsame : bytesWord (overlay buf (4 * i) 4 (wordBytes fun _ => v)) i
        = bytesWord (wordBytes fun _ => v) 0 := bytesWord_congr fun k hk => by
      rw [overlay_of_mem (by omega) (by omega)]
      congr 1
      omega
    rw [hsame, bytesWord_wordBytes]
  case isFalse h =>
    exact bytesWord_congr fun k hk => overlay_of_not_mem (by omega)

end Flags

section Restore

variable {f y b x : File} {d idelta : Delta}

theorem Near.l1Size (h : Near f y) : y.hdr.layout.l1Size = f.hdr.layout.l1Size := by
  rw [h.hdr]
  rfl

theorem Near.blocksize (h : Near f y) : y.hdr.layout.blocksize = f.hdr.layout.blocksize := by
  rw [h.hdr]
  rfl

/-- Once the first cluster is written back the header is that of `f`, marked. -/
theorem hdr_markBuf {buf : ℕ → UInt8} {C : ℕ} (hC : headerBytes ≤ C)
    (hbuf : ∀ i < headerBytes, buf i = f.byte i) (x : File) :
    (x.pwrite ⟨0, C, markBuf buf⟩).hdr =
      { f.hdr with mFlags := f.hdr.mFlags ||| cifFmtVersionConvert, mDiskInUse := 1 } := by
  have hold : ∀ i < 16, bytesWord buf i = f.word i := fun i hi =>
    bytesWord_congr fun k hk => hbuf _ (by rw [headerBytes]; omega)
  have hw : ∀ i < 16, (x.pwrite ⟨0, C, markBuf buf⟩).word i =
      if i = 13 then f.word 13 ||| cifFmtVersionConvert else if i = 11 then 1 else f.word i := by
    intro i hi
    rw [headerBytes] at hC
    rw [x.word_pwrite_of_mem (o := 0) rfl (Nat.zero_le i) (by simp only; omega), Nat.sub_zero]
    unfold markBuf
    rw [show PvdHeader.offFlags = 4 * 13 from rfl, show PvdHeader.offDiskInUse = 4 * 11 from rfl,
      bytesWord_overlay, bytesWord_overlay, Nat.mul_div_cancel_left 13 four_pos,
      hold 13 (by omega), hold i hi]
  rw [File.hdr, PvdHeader.ofWords_congr hw]
  rfl

theorem byte_markBuf {buf : ℕ → UInt8} {i : ℕ} (hi : headerBytes ≤ i) : markBuf buf i = buf i := by
  rw [headerBytes] at hi
  unfold markBuf PvdHeader.offFlags PvdHeader.offDiskInUse
  rw [overlay_of_ge (by omega), overlay_of_ge (by omega)]

/-- The first `m` clusters of the index of `y` are again those of `f`. -/
structure Restored (f y : File) (d : Delta) (m : ℕ) (e : Delta) : Prop where
  guarded : Guarded y (Midway f) e.disk
  same : e = { d with disk := e.disk }
  hdr : 0 < m → e.file.hdr = { f.hdr with
    mFlags := e.file.hdr.mFlags, mDiskInUse := e.file.hdr.mDiskInUse }
  byte : ∀ i, headerBytes ≤ i → i < m * f.hdr.layout.cluster → e.file.byte i = f.byte i

/-- The first cluster of the backup may be written at any moment. -/
theorem Midway.first (hf : WellFormed f) (hindex : indexEnd f ≤ f.size) {buf : ℕ → UInt8}
    (hbuf : ∀ i < headerBytes, buf i = f.byte i) (hx : Midway f x) :
    Midway f (x.pwrite ⟨0, f.hdr.layout.cluster, markBuf buf⟩) := by
  have hC : headerBytes ≤ f.hdr.layout.cluster := by
    have hbs := hf.header.layout.blocksize.1
    simp only [Layout.cluster, s2b, headerBytes]
    omega
  have hend : f.hdr.layout.cluster ≤ indexEnd f :=
    Nat.le_mul_of_pos_left _ hf.header.layout.l1_pos
  have hhdr := hdr_markBuf hC hbuf x
  refine ⟨?_, ?_, ?_, ?_, ?_, fun i hi => ?_⟩
  · unfold Flagged
    rw [hhdr]
    exact or_flag _
  · rw [File.size_pwrite_le (by rw [hx.2.size]; simp only; omega), hx.2.size]
  · rw [hhdr]
    exact hf.header.version
  · rw [hhdr]
  · rw [hhdr]
    rfl
  · rw [File.byte_pwrite, overlay_of_ge (by simp only; omega)]
    exact hx.2.byte i hi

theorem Midway.write (hindex : indexEnd f ≤ f.size) {w : Write} (hoff : headerBytes ≤ w.off)
    (hend : w.off + w.len ≤ indexEnd f) (hx : Midway f x) : Midway f (x.pwrite w) := by
  refine ⟨?_, hx.2.write hindex hoff hend⟩
  unfold Flagged
  rw [hdr_pwrite_of_ge hoff]
  exact hx.1

theorem restoreCluster_spec (hf : WellFormed f) (hindex : indexEnd f ≤ f.size)
    (hsmall : indexEnd f ≤ 2 ^ 32) (hb : IsBackup f idelta.file)
    (hcluster : idelta.cluster = f.hdr.layout.cluster) {m : ℕ} (hm : m < f.hdr.layout.l1Size) :
    Triple (Restored f y d m) (restoreCluster idelta m) (fun _ => Restored f y d (m + 1))
      (fun _ => False) := by
  have hpos := hf.header.layout.cluster_pos
  have hend : (m + 1) * f.hdr.layout.cluster ≤ indexEnd f := Nat.mul_le_mul_right _ hm
  rw [Nat.succ_mul] at hend
  have hread : idelta.file.pread f.hdr.layout.cluster (m * f.hdr.layout.cluster) =
      some fun i => idelta.file.byte (m * f.hdr.layout.cluster + i) :=
    File.pread_eq_some.mpr ⟨by rw [hb.size]; exact hend, rfl⟩
  unfold restoreCluster
  dsimp only
  rw [hcluster, u32_of_lt (by omega), hread]
  apply Triple.update
  intro e he
  have hfile := Delta.file_write e
  by_cases hzero : m = 0
  · subst hzero
    have hbuf : ∀ i < headerBytes, idelta.file.byte (0 * f.hdr.layout.cluster + i) = f.byte i := by
      intro i hi
      rw [Nat.zero_mul, Nat.zero_add]
      exact hb.byte i (hi.trans_le (header_le_index hf))
    have hC : headerBytes ≤ f.hdr.layout.cluster := by
      have hbs := hf.header.layout.blocksize.1
      simp only [Layout.cluster, s2b, headerBytes]
      omega
    rw [Nat.zero_mul, Nat.zero_add] at hend
    rw [if_pos rfl]
    simp only [Nat.zero_mul] at hbuf ⊢
    constructor
    · exact he.guarded.write fun x hx => hx.first hf hindex hbuf
    · rw [he.same]
      rfl
    · intro _
      rw [hfile, hdr_markBuf hC hbuf]
    · intro i hi hlt
      rw [Nat.zero_add, Nat.one_mul] at hlt
      rw [hfile, File.byte_pwrite, overlay_of_mem (Nat.zero_le i) (by simpa using hlt),
        Nat.sub_zero]
      refine (byte_markBuf hi).trans ?_
      rw [Nat.zero_add]
      exact hb.byte i (by omega)
  · have hoff : headerBytes ≤ m * f.hdr.layout.cluster := by
      have hbs := hf.header.layout.blocksize.1
      have hle := Nat.le_mul_of_pos_left f.hdr.layout.cluster (Nat.pos_of_ne_zero hzero)
      simp only [Layout.cluster, s2b, headerBytes] at hle ⊢
      omega
    rw [if_neg hzero]
    constructor
    · exact he.guarded.write fun x hx => hx.write hindex hoff hend
    · rw [he.same]
      rfl
    · intro _
      rw [hfile, hdr_pwrite_of_ge hoff]
      exact he.hdr (Nat.pos_of_ne_zero hzero)
    · intro i hi hlt
      rw [Nat.succ_mul] at hlt
      rw [hfile, File.byte_pwrite]
      by_cases hold : i < m * f.hdr.layout.cluster
      · rw [overlay_of_lt hold]
        exact he.byte i hi hold
      · rw [overlay_of_mem (Nat.not_lt.mp hold) hlt]
        dsimp only
        rw [Nat.add_sub_cancel' (Nat.not_lt.mp hold)]
        exact hb.byte i (by omega)

/-- The index comes back, and at no moment is the image beyond recovery. -/
theorem doRestoreFmtVersion_leaves (hf : WellFormed f) (hindex : indexEnd f ≤ f.size)
    (hsmall : indexEnd f ≤ 2 ^ 32) (hy : Midway f y) (hd : Opened y.hdr.layout d)
    (hb : IsBackup f idelta.file) (hi : Opened f.hdr.layout idelta) :
    Triple (fun e => e = reopened d y) (doRestoreFmtVersion idelta)
      (fun _ => Leaves y (Midway f) fun e => Marked f e.file ∧ e = { d with disk := e.disk })
      (fun _ => False) := by
  have hl1 := hy.2.l1Size
  have hcluster : idelta.cluster = f.hdr.layout.cluster := congrArg s2b hi.blocksize
  apply Triple.look
  rintro _ rfl
  have hmatch : ¬ ((reopened d y).l1Size ≠ idelta.l1Size ∨ (reopened d y).l2Size ≠ idelta.l2Size ∨
      (reopened d y).blocksize ≠ idelta.blocksize) := by
    push Not
    refine ⟨?_, ?_, ?_⟩
    · exact hd.l1Size.trans (hl1.trans hi.l1Size.symm)
    · exact hd.l2Size.trans (hy.2.disk.trans hi.l2Size.symm)
    · exact hd.blocksize.trans (hy.2.blocksize.trans hi.blocksize.symm)
  rw [if_neg hmatch]
  apply Triple.bind (R := fun _ => Restored f y d f.hdr.layout.l1Size)
  · have hloop := Triple.forRange (I := Restored f y d) (E := fun _ => False) 0
      f.hdr.layout.l1Size fun m _ hm =>
        restoreCluster_spec hf hindex hsmall hb hcluster (by omega)
    rw [Nat.zero_add] at hloop
    rw [hi.l1Size]
    apply hloop.conseq ?_ (fun _ _ he => he) fun _ he => he
    rintro _ rfl
    refine ⟨.new hy, rfl, fun h => absurd h (lt_irrefl 0), fun i _ hlt => ?_⟩
    rw [Nat.zero_mul] at hlt
    exact absurd hlt (Nat.not_lt_zero i)
  · intro _
    apply Triple.update
    intro e he
    refine ⟨he.guarded.sync, pending_sync _, ⟨?_, ?_, fun i hi' => ?_⟩, ?_⟩
    · rw [Delta.file_sync]
      exact he.guarded.file.2.size
    · rw [Delta.file_sync]
      exact he.hdr hf.header.layout.l1_pos
    · rw [Delta.file_sync]
      by_cases hlt : i < indexEnd f
      · exact he.byte i hi' hlt
      · exact he.guarded.file.2.byte i (Nat.not_lt.mp hlt)
    · rw [he.same]
      rfl

end Restore

end Ploop.Convert
