import Ploop.Image.Cached
import Ploop.Image.MergeOutput
import Ploop.Image.Size
import Ploop.Image.Blank

/-!
# `change_fmt_version`

Every entry of the table is rewritten in the units of the other format version, through
the one-cluster cache. Neither the size of the disk nor the blocks are touched.
-/

namespace Ploop

open Storage Indirection Program

/-! ## The source -/

/-- `writeback_idx` -/
def writebackIdx : DeltaM Unit := do
  let d ← get
  -- `l2_cache` is -1 when nothing is cached
  writePage (d.l2Cache.getD (2 ^ 32 - 1)) d.cluster
  modify fun d => { d with dirtied := 0 }

def flushIdx : DeltaM Unit := do
  if (← get).dirtied ≠ 0 then writebackIdx else pure ()

/-- Go to cluster `l2Cluster` of the table. -/
def turnPage (l2Cluster : ℕ) : DeltaM Unit := do
  if (← get).l2Cache ≠ some l2Cluster then do
    flushIdx
    loadL2 .read l2Cluster
  else pure ()

def convertEntry (newVersion : FmtVersion) (l2Slot : ℕ) : DeltaM Unit := do
  let d ← get
  let off := ioffToSec (d.l2 l2Slot) d.blocksize d.version
  if d.l2 l2Slot = 0 then pure ()
  else if newVersion = .v1 ∧ ¬ checkSize off d.blocksize newVersion then throw .param
  else modify fun d => { d with
    l2 := Function.update d.l2 l2Slot (secToIoff off d.blocksize newVersion)
    dirtied := 1 }

/-- One turn of the loop. -/
def convertSlot (newVersion : FmtVersion) (clu : ℕ) : DeltaM Unit := do
  let n := (← get).cluster / 4
  turnPage (u32 (clu + mapOffset) / n)
  convertEntry newVersion (u32 (clu + mapOffset) % n)

/-- `d->l1_size * n - PLOOP_MAP_OFFSET`, compared with a 32-bit counter. -/
@[irreducible] def slotBound (l1Size n : ℕ) : ℕ := u32 (l1Size * n + 2 ^ 32 - mapOffset)

def changeFmtVersion (newVersion : FmtVersion) : DeltaM Unit := do
  modify fun d => { d with dirtied := 0 }
  let d ← get
  forRange (convertSlot newVersion) 0 (slotBound d.l1Size (d.cluster / 4))
  flushIdx
  changeDeltaVersion newVersion

/-! ## Entries in the units of the other version -/

namespace Layout

variable (L : Layout)

/-- An entry as the conversion rewrites it. -/
def recode (version : FmtVersion) (e : UInt32) : UInt32 :=
  secToIoff (ioffToSec e L.blocksize L.version) L.blocksize version

/-- Entry `s` when the first `m` slots are rewritten. -/
def recoded (version : FmtVersion) (f : File) (m s : ℕ) : UInt32 :=
  if s < m then L.recode version (entry f s) else entry f s

/-- The sizes and the offsets are below the limits of the version. -/
def FitsVersion (f : File) : FmtVersion → Prop
  | .v1 => getSizeInSectors f.hdr < 2 ^ 32 ∧
      ∀ clu b, L.bat f clu = some b → b * L.blocksize < 2 ^ 32
  | .v2 => True

def inVersion (version : FmtVersion) : Layout := { L with version := version }

variable {L} {version : FmtVersion} {f : File} {m s : ℕ}

@[simp] theorem recode_zero : L.recode version 0 = 0 := by
  cases hL : L.version <;> cases version <;> simp [recode, hL, ioffToSec, secToIoff]

theorem recoded_of_le (h : m ≤ s) : L.recoded version f m s = entry f s :=
  if_neg (Nat.not_lt.mpr h)

theorem recoded_of_lt (h : s < m) : L.recoded version f m s = L.recode version (entry f s) :=
  if_pos h

theorem recoded_succ (h : s ≠ m) : L.recoded version f (m + 1) s = L.recoded version f m s := by
  unfold recoded
  congr 1
  rw [eq_iff_iff]
  omega

/-- A block keeps its number. -/
theorem recode_encodeSlot (hbs : 0 < L.blocksize) {o : Option ℕ} (ho : ∀ b, o = some b → L.Fits b) :
    L.recode version (L.encodeSlot o) = (L.inVersion version).encodeSlot o := by
  cases o with
  | none => exact recode_zero
  | some b =>
      unfold encodeSlot recode
      rw [ioffToSec_encode hbs (ho b rfl)]
      rfl

theorem fits_inVersion (hbs : 0 < L.blocksize) (hok : L.TableOk f) (hfits : L.FitsVersion f version)
    {clu b : ℕ} (hb : L.bat f clu = some b) : (L.inVersion version).Fits b := by
  cases version with
  | v1 => exact hfits.2 clu b hb
  | v2 =>
      have hL := hok.fits hbs hb
      unfold Fits at hL ⊢
      cases hv : L.version with
      | v1 =>
          simp only [hv] at hL
          exact (Nat.le_mul_of_pos_right b hbs).trans_lt hL
      | v2 =>
          simp only [hv] at hL
          exact hL

/-- Every slot of the index holds the entry of its block. -/
theorem TableOk.index_slot (hok : L.TableOk f) (hbs : 0 < L.blocksize)
    (hs : s + mapOffset < L.l1Size * L.slots) : entry f s = L.encodeSlot (L.bat f s) := by
  by_cases hlt : s < L.l2Size
  · exact hok.entry_slot hbs hlt
  · have hnone : L.bat f s = none := if_neg fun h => hlt h.1
    rw [hnone]
    exact hok.unused s (Nat.not_lt.mp hlt) hs

end Layout

/-! ## The loop -/

section Loop

variable {f : File} {L : Layout} {v : FmtVersion} {m : ℕ} {d : Delta}

/-- The table with the first `m` slots rewritten, some of them in the cache only. -/
structure ConvertAt (f : File) (L : Layout) (v : FmtVersion) (m : ℕ) (d : Delta) : Prop where
  blocksize : d.blocksize = L.blocksize
  version : d.version = L.version
  l1Size : d.l1Size = L.l1Size
  size : d.file.size = f.size
  header : ∀ w < mapOffset, d.file.word w = f.word w
  tail : ∀ i, L.l1Size * L.cluster ≤ i → d.file.byte i = f.byte i
  cached : ∀ p, d.l2Cache = some p → p < L.l1Size
  dirty : d.dirtied ≠ 0 → d.l2Cache.isSome
  page : ∀ s, s + mapOffset < L.l1Size * L.slots →
    d.l2Cache = some ((s + mapOffset) / L.slots) →
      d.l2 ((s + mapOffset) % L.slots) = L.recoded v f m s
  rest : ∀ s, s + mapOffset < L.l1Size * L.slots →
    d.dirtied = 0 ∨ d.l2Cache ≠ some ((s + mapOffset) / L.slots) →
      Layout.entry d.file s = L.recoded v f m s

theorem ConvertAt.cluster (h : ConvertAt f L v m d) : d.cluster = L.cluster :=
  congrArg s2b h.blocksize

/-- The table in memory is written over that in the file. -/
theorem ConvertAt.written (h : ConvertAt f L v m d) (hL : L.Valid)
    (hindex : L.l1Size * L.cluster ≤ f.size) {p : ℕ} (hp : d.l2Cache = some p) {e : Delta}
    (hfile : e.file = d.file.pwrite (pageWrite L d.l2 p))
    (he : e = { d with disk := e.disk, dirtied := 0 }) :
    ConvertAt f L v m e := by
  have hlt := h.cached p hp
  have hoff : headerBytes ≤ (pageWrite L d.l2 p).off := pageWrite_off hL
  have hend : (pageWrite L d.l2 p).off + (pageWrite L d.l2 p).len ≤ L.l1Size * L.cluster :=
    pageWrite_end hL hlt
  have hl2 : e.l2 = d.l2 := by rw [he]
  have hcache : e.l2Cache = d.l2Cache := by rw [he]
  have hbs : e.blocksize = d.blocksize := by rw [he]
  have hversion : e.version = d.version := by rw [he]
  have hl1 : e.l1Size = d.l1Size := by rw [he]
  have hdirtied : e.dirtied = 0 := by rw [he]
  constructor
  · rw [hbs, h.blocksize]
  · rw [hversion, h.version]
  · rw [hl1, h.l1Size]
  · rw [hfile, File.size_pwrite_le (by rw [h.size]; omega), h.size]
  · intro w hw
    rw [hfile, word_eq_of_ge hoff hw]
    exact h.header w hw
  · intro i hi
    rw [hfile, File.byte_pwrite, overlay_of_ge (by omega)]
    exact h.tail i hi
  · intro q hq
    exact h.cached q (hcache ▸ hq)
  · intro hne
    exact absurd hdirtied hne
  · intro s hs hq
    rw [hl2]
    exact h.page s hs (hcache ▸ hq)
  · intro s hs _
    rw [hfile, entry_pageWrite hL]
    split
    case isTrue heq =>
      apply h.page s hs
      rw [hp, heq]
    case isFalse hne =>
      apply h.rest s hs
      right
      rw [hp]
      exact fun heq => hne (Option.some.inj heq).symm

/-- A page that is read from a clean table. -/
theorem ConvertAt.paged (h : ConvertAt f L v m d) (hclean : d.dirtied = 0) {p : ℕ}
    (hp : p < L.l1Size) : ConvertAt f L v m { d with
      l2 := bytesWord fun i => d.file.byte (p * d.cluster + i), l2Cache := some p } := by
  constructor
  · exact h.blocksize
  · exact h.version
  · exact h.l1Size
  · exact h.size
  · exact h.header
  · exact h.tail
  · intro q hq
    rwa [← Option.some.inj hq]
  · exact fun hne => absurd hclean hne
  · intro s hs hq
    obtain rfl := Option.some.inj hq
    dsimp only
    rw [h.cluster, Layout.bytesWord_page, Nat.div_add_mod']
    exact h.rest s hs (.inl hclean)
  · exact fun s hs _ => h.rest s hs (.inl hclean)

theorem flushIdx_spec (hL : L.Valid) (hindex : L.l1Size * L.cluster ≤ f.size)
    (h : ConvertAt f L v m d) : Triple (fun e => e = d) flushIdx
      (fun _ e => ConvertAt f L v m e ∧ e.dirtied = 0 ∧ e.l2Cache = d.l2Cache)
      (fun _ => False) := by
  apply Triple.look
  rintro d rfl
  split
  case isFalse hclean =>
    apply Triple.ret
    rintro _ rfl
    exact ⟨h, not_not.mp hclean, rfl⟩
  case isTrue hdirty =>
    obtain ⟨p, hp⟩ := Option.isSome_iff_exists.mp (h.dirty hdirty)
    apply Triple.look
    rintro d rfl
    rw [hp]
    apply Triple.bind (R := fun _ e => e = d.write (pageWrite L d.l2 p))
    · apply Triple.look
      rintro d rfl
      apply Triple.update
      rintro d rfl
      rw [pageWrite, ← h.cluster]
      rfl
    · intro _
      apply Triple.update
      rintro _ rfl
      exact ⟨h.written hL hindex hp (Delta.file_write _ _) rfl, rfl, hp⟩

theorem turnPage_spec (hL : L.Valid) (hindex : L.l1Size * L.cluster ≤ f.size) {p : ℕ}
    (hp : p < L.l1Size) : Triple (ConvertAt f L v m) (turnPage p)
      (fun _ e => ConvertAt f L v m e ∧ e.l2Cache = some p) (fun _ => False) := by
  apply Triple.look
  intro d h
  split
  case isFalse hsame =>
    apply Triple.ret
    rintro _ rfl
    exact ⟨h, not_not.mp hsame⟩
  case isTrue hother =>
    have hend := Nat.mul_le_mul_right L.cluster (Nat.succ_le_of_lt hp)
    rw [Nat.succ_mul] at hend
    apply Triple.bind (flushIdx_spec hL hindex h)
    intro _
    apply Triple.start
    rintro e ⟨he, hclean, hcache⟩
    apply (loadL2_read (by rwa [hcache]) .read).conseq (fun _ ht => ht)
    · rintro _ _ rfl
      exact ⟨he.paged hclean hp, rfl⟩
    · intro _ hshort
      rw [he.size, he.cluster] at hshort
      omega

/-- A slot that is not in use needs nothing. -/
theorem ConvertAt.skip (h : ConvertAt f L v m d) (hzero : Layout.entry f m = 0) :
    ConvertAt f L v (m + 1) d := by
  have hsame : ∀ s, L.recoded v f (m + 1) s = L.recoded v f m s := by
    intro s
    by_cases hs : s = m
    · subst hs
      rw [Layout.recoded_of_lt (Nat.lt_succ_self s), Layout.recoded_of_le le_rfl, hzero,
        Layout.recode_zero]
    · exact Layout.recoded_succ hs
  constructor
  · exact h.blocksize
  · exact h.version
  · exact h.l1Size
  · exact h.size
  · exact h.header
  · exact h.tail
  · exact h.cached
  · exact h.dirty
  · intro s hs hp
    rw [hsame]
    exact h.page s hs hp
  · intro s hs hor
    rw [hsame]
    exact h.rest s hs hor

/-- A slot in use is rewritten in the cache. -/
theorem ConvertAt.put (h : ConvertAt f L v m d)
    (hcache : d.l2Cache = some ((m + mapOffset) / L.slots)) :
    ConvertAt f L v (m + 1) { d with
      l2 := Function.update d.l2 ((m + mapOffset) % L.slots) (L.recode v (Layout.entry f m))
      dirtied := 1 } := by
  constructor
  · exact h.blocksize
  · exact h.version
  · exact h.l1Size
  · exact h.size
  · exact h.header
  · exact h.tail
  · exact h.cached
  · exact fun _ => Option.isSome_iff_exists.mpr ⟨_, hcache⟩
  · intro s hs hp
    have hpage : (s + mapOffset) / L.slots = (m + mapOffset) / L.slots :=
      Option.some.inj (hp.symm.trans hcache)
    dsimp only
    rw [Function.update_apply]
    split
    case isTrue hslot =>
      have hsm : s = m := by
        have h₁ := Nat.div_add_mod' (s + mapOffset) L.slots
        have h₂ := Nat.div_add_mod' (m + mapOffset) L.slots
        rw [hpage, hslot] at h₁
        omega
      subst hsm
      exact (Layout.recoded_of_lt (Nat.lt_succ_self s)).symm
    case isFalse hslot =>
      rw [Layout.recoded_succ (fun hsm => hslot (by rw [hsm]))]
      exact h.page s hs hp
  · rintro s hs (hclean | hother)
    · exact absurd hclean one_ne_zero
    · have hne : s ≠ m := by
        rintro rfl
        exact hother hcache
      rw [Layout.recoded_succ hne]
      exact h.rest s hs (.inr hother)

/-- One slot in the cache is rewritten, if it is in use. -/
theorem convertEntry_spec (hm : m + mapOffset < L.l1Size * L.slots)
    (hok : v = .v1 → Layout.entry f m ≠ 0 →
      checkSize (ioffToSec (Layout.entry f m) L.blocksize L.version) L.blocksize v) :
    Triple (fun e => ConvertAt f L v m e ∧ e.l2Cache = some ((m + mapOffset) / L.slots))
      (convertEntry v ((m + mapOffset) % L.slots)) (fun _ => ConvertAt f L v (m + 1))
      (fun _ => False) := by
  apply Triple.look
  rintro d ⟨h, hcache⟩
  have hword : d.l2 ((m + mapOffset) % L.slots) = Layout.entry f m :=
    (h.page m hm hcache).trans (Layout.recoded_of_le le_rfl)
  dsimp only
  rw [hword, h.blocksize, h.version]
  split
  case isTrue hzero =>
    apply Triple.ret
    rintro _ rfl
    exact h.skip hzero
  case isFalse hne =>
    rw [if_neg fun hbad => hbad.2 (hok hbad.1 hne)]
    apply Triple.update
    rintro d rfl
    have hput := h.put hcache
    unfold Layout.recode at hput
    rw [h.blocksize] at hput ⊢
    exact hput

theorem convertSlot_spec (hL : L.Valid) (hindex : L.l1Size * L.cluster ≤ f.size)
    (hm : m + mapOffset < L.l1Size * L.slots) (hsmall : m + mapOffset < 2 ^ 32)
    (hok : v = .v1 → Layout.entry f m ≠ 0 →
      checkSize (ioffToSec (Layout.entry f m) L.blocksize L.version) L.blocksize v) :
    Triple (ConvertAt f L v m) (convertSlot v m) (fun _ => ConvertAt f L v (m + 1))
      (fun _ => False) := by
  apply Triple.look
  intro d h
  have hslots : d.cluster / 4 = L.slots := congrArg (· / 4) h.cluster
  dsimp only
  rw [hslots, u32_of_lt hsmall]
  apply Triple.bind (R := fun _ e => ConvertAt f L v m e ∧
    e.l2Cache = some ((m + mapOffset) / L.slots))
  · apply (turnPage_spec hL hindex ((Nat.div_lt_iff_lt_mul hL.slots_pos).mpr hm)).conseq
    · rintro _ rfl
      exact h
    · exact fun _ _ he => he
    · exact fun _ he => he
  · exact fun _ => convertEntry_spec hm hok

/-- The whole loop. -/
theorem convertLoop_spec (hL : L.Valid) (hindex : L.l1Size * L.cluster ≤ f.size) {k : ℕ}
    (hk : k + mapOffset ≤ L.l1Size * L.slots) (hsmall : k + mapOffset ≤ 2 ^ 32)
    (hok : v = .v1 → ∀ m < k, Layout.entry f m ≠ 0 →
      checkSize (ioffToSec (Layout.entry f m) L.blocksize L.version) L.blocksize v) :
    Triple (ConvertAt f L v 0) (forRange (convertSlot v) 0 k) (fun _ => ConvertAt f L v k)
      (fun _ => False) := by
  have hloop := Triple.forRange (I := ConvertAt f L v) (E := fun _ => False) 0 k
    fun m _ hm => convertSlot_spec hL hindex (by omega) (by omega) fun hv => hok hv m (by omega)
  rwa [Nat.zero_add] at hloop

end Loop

/-! ## The image after the conversion -/

/-- The file after a run over `k` slots. -/
structure Recoded (f : File) (L : Layout) (v : FmtVersion) (k : ℕ) (g : File) : Prop where
  size : g.size = f.size
  hdr : g.hdr = { f.hdr with mSig := ploop1Signature v }
  entry : ∀ s, s + mapOffset < L.l1Size * L.slots → Layout.entry g s = L.recoded v f k s
  tail : ∀ i, L.l1Size * L.cluster ≤ i → g.byte i = f.byte i

section Run

variable {f : File} {L : Layout} {v : FmtVersion} {d : Delta}

theorem hdr_pwrite_sig (f : File) (v : FmtVersion) :
    (f.pwrite ⟨0, 16, wordBytes ({ PvdHeader.zero with mSig := ploop1Signature v }).toWords⟩).hdr
      = { f.hdr with mSig := ploop1Signature v } := by
  have hw : ∀ i < 16, (f.pwrite ⟨0, 16,
      wordBytes ({ PvdHeader.zero with mSig := ploop1Signature v }).toWords⟩).word i
      = if i < 4 then ({ PvdHeader.zero with mSig := ploop1Signature v } : PvdHeader).toWords i
        else f.word i := by
    intro i hi
    split
    · rw [f.word_pwrite_of_mem (o := 0) rfl (Nat.zero_le i) (by simp only; omega),
        bytesWord_wordBytes]
      rfl
    · exact f.word_pwrite_of_not_mem (by simp only; omega)
  rw [File.hdr, PvdHeader.ofWords_congr hw]
  rfl

/-- The loop stays in the table. -/
theorem slotBound_le (hL : L.Valid) :
    slotBound L.l1Size L.slots + mapOffset ≤ L.l1Size * L.slots ∧
      slotBound L.l1Size L.slots + mapOffset ≤ 2 ^ 32 := by
  have hroom := hL.room
  have hdvd : 16 ∣ L.l1Size * L.slots :=
    Dvd.dvd.mul_left (Layout.slots_eq (L := L) ▸ ⟨L.blocksize * 8, by ring⟩) _
  have hm : mapOffset = 16 := rfl
  unfold slotBound u32
  rw [hm] at hroom ⊢
  generalize L.l1Size * L.slots = x at hroom hdvd
  clear hm
  omega

/-- The signature is written last. -/
theorem ConvertAt.signed {k : ℕ} (h : ConvertAt f L v k d) (hclean : d.dirtied = 0)
    (hindex : 16 ≤ L.l1Size * L.cluster) (hsize : 16 ≤ f.size) : Recoded f L v k (d.file.pwrite
      ⟨0, 16, wordBytes ({ PvdHeader.zero with mSig := ploop1Signature v }).toWords⟩) := by
  constructor
  · rw [File.size_pwrite_le (by rw [h.size]; exact hsize), h.size]
  · rw [hdr_pwrite_sig, File.hdr, PvdHeader.ofWords_congr h.header]
    rfl
  · intro s hs
    rw [← h.rest s hs (.inl hclean)]
    apply File.word_pwrite_of_not_mem
    right
    simp only [mapOffset]
    omega
  · intro i hi
    rw [← h.tail i hi, File.byte_pwrite]
    apply overlay_of_ge
    rw [Nat.zero_add]
    exact hindex.trans hi

/-- A run over slots that all fit the new version. -/
theorem changeFmtVersion_spec (hL : L.Valid) (hindex : L.l1Size * L.cluster ≤ f.size)
    (hc : Cached f L d) (hnone : d.l2Cache = none)
    (hok : v = .v1 → ∀ m < slotBound L.l1Size L.slots, Layout.entry f m ≠ 0 →
      checkSize (ioffToSec (Layout.entry f m) L.blocksize L.version) L.blocksize v) :
    ∃ d', changeFmtVersion v d = .ok () d' ∧
      Recoded f L v (slotBound L.l1Size L.slots) d'.file := by
  obtain ⟨hk, hsmall⟩ := slotBound_le hL
  have hhead : 16 ≤ L.l1Size * L.cluster := by
    have hslot : 4 * mapOffset ≤ L.l1Size * (4 * L.slots) := by
      rw [Nat.mul_left_comm]
      exact Nat.mul_le_mul_left 4 (by omega)
    rw [← Layout.cluster_eq, mapOffset] at hslot
    omega
  have hstart : ConvertAt f L v 0 { d with dirtied := 0 } := by
    have hfile : d.file = f := hc.file
    constructor
    · exact hc.blocksize
    · exact hc.version
    · exact hc.l1Size
    · exact congrArg File.size hfile
    · exact fun w _ => congrArg (File.word · w) hfile
    · exact fun i _ => congrArg (File.byte · i) hfile
    · intro p hp
      exact absurd (hnone.symm.trans hp) (Option.some_ne_none p).symm
    · exact fun hne => absurd rfl hne
    · intro s _ hp
      exact absurd (hnone.symm.trans hp) (Option.some_ne_none _).symm
    · intro s _ _
      rw [Layout.recoded_of_le (Nat.zero_le s)]
      exact congrArg (Layout.entry · s) hfile
  have hslots : d.cluster / 4 = L.slots := hc.slots
  have hrun : Triple (fun e => e = d) (changeFmtVersion v)
      (fun _ e => Recoded f L v (slotBound L.l1Size L.slots) e.file) (fun _ => False) := by
    unfold changeFmtVersion
    refine Triple.step ?_
    refine Triple.look fun e he => ?_
    subst he
    have hbound : slotBound d.l1Size (d.cluster / 4) = slotBound L.l1Size L.slots := by
      rw [hc.l1Size, hslots]
    dsimp only
    change Triple _ (forRange (convertSlot v) 0 (slotBound d.l1Size (d.cluster / 4)) >>= fun _ =>
      flushIdx >>= fun _ => changeDeltaVersion v) _ _
    rw [hbound]
    apply Triple.bind (R := fun _ => ConvertAt f L v (slotBound L.l1Size L.slots))
    · apply (convertLoop_spec hL hindex hk hsmall hok).conseq
      · rintro _ rfl
        exact hstart
      · exact fun _ _ he => he
      · exact fun _ he => he
    · intro _
      apply Triple.start
      intro e he
      apply Triple.bind (flushIdx_spec hL hindex he)
      intro _
      apply Triple.start
      rintro e' ⟨he', hclean, -⟩
      apply Triple.bind (R := fun _ t => Recoded f L v (slotBound L.l1Size L.slots) t.file)
      · apply Triple.update
        rintro _ rfl
        rw [Delta.file_write]
        exact he'.signed hclean hhead (hhead.trans hindex)
      · intro _
        apply Triple.update
        intro t ht
        rwa [Delta.file_sync]
  obtain ⟨⟨⟩, d', hd', hend⟩ := hrun.exists_ok rfl
  exact ⟨d', hd', hend⟩

end Run

section Image

variable {f g : File} {v : FmtVersion} {d : Delta}

/-- The mapping and the content of the disk and all of the header but the signature are as
before. -/
structure Converted (f g : File) (v : FmtVersion) : Prop where
  hdr : g.hdr = { f.hdr with mSig := ploop1Signature v }
  bat : ∀ clu < f.hdr.layout.l2Size, g.hdr.layout.bat g clu = f.hdr.layout.bat f clu
  content : ∀ clu < f.hdr.layout.l2Size, content g clu = content f clu

/-- An image whose slots in use are all in the reach of the loop, or no change at all. -/
def ConvertFits (f : File) (v : FmtVersion) : Prop :=
  f.hdr.layout.version ≠ v →
    ∀ clu < f.hdr.layout.l2Size, slotBound f.hdr.layout.l1Size f.hdr.layout.slots ≤ clu →
      Layout.entry f clu = 0

theorem version_eq (hwf : WellFormed f) : ploop1Version f.hdr = some f.hdr.layout.version := by
  obtain ⟨version, hversion⟩ := Option.isSome_iff_exists.mp hwf.header.version
  rw [hversion, PvdHeader.layout, hversion]
  rfl

/-- Version 2 reads the whole union, of which version 1 reads half: the disk may grow, but a
disk that fits the new version does not shrink. -/
theorem le_size_sig (hwf : WellFormed f) (hfits : f.hdr.layout.FitsVersion f v) :
    getSizeInSectors f.hdr ≤ getSizeInSectors { f.hdr with mSig := ploop1Signature v } := by
  have hv : ploop1Version { f.hdr with mSig := ploop1Signature v } = some v :=
    ploop1Version_eq_some.mpr rfl
  have hf := version_eq hwf
  unfold getSizeInSectors
  rw [hv, hf]
  cases hver : f.hdr.layout.version with
  | v1 =>
      cases v with
      | v1 => exact le_rfl
      | v2 => exact Nat.le_add_right _ _
  | v2 =>
      cases v with
      | v1 =>
          have hlt := hfits.1
          unfold getSizeInSectors at hlt
          rw [hf, hver] at hlt
          simp only [PvdHeader.mSizeInSectorsV2] at hlt ⊢
          omega
      | v2 => exact le_rfl

/-- The layout under the new signature, up to the size of the disk. -/
theorem Recoded.layout {k : ℕ} (hwf : WellFormed f) (hfits : f.hdr.layout.FitsVersion f v)
    (hr : Recoded f f.hdr.layout v k g) :
    g.hdr.layout = { f.hdr.layout.inVersion v with l2Size := g.hdr.layout.l2Size } ∧
      f.hdr.layout.l2Size ≤ g.hdr.layout.l2Size := by
  have hv : ploop1Version g.hdr = some v :=
    ploop1Version_eq_some.mpr (congrArg PvdHeader.mSig hr.hdr)
  constructor
  · have hversion : g.hdr.layout.version = v := by
      rw [PvdHeader.layout, hv]
      rfl
    have hblocksize : g.hdr.layout.blocksize = f.hdr.layout.blocksize := by
      rw [hr.hdr]
      rfl
    have hl1 : g.hdr.layout.l1Size = f.hdr.layout.l1Size := by
      rw [hr.hdr]
      rfl
    generalize g.hdr.layout = L at *
    cases L
    cases hversion
    cases hblocksize
    cases hl1
    rfl
  · rw [hr.hdr]
    exact Nat.div_le_div_right (le_size_sig hwf hfits)

/-- On the old disk the size of the new one does not matter. -/
theorem Recoded.bat_eq {k clu : ℕ} (hwf : WellFormed f) (hfits : f.hdr.layout.FitsVersion f v)
    (hr : Recoded f f.hdr.layout v k g) (hclu : clu < f.hdr.layout.l2Size) :
    g.hdr.layout.bat g clu = (f.hdr.layout.inVersion v).bat g clu := by
  obtain ⟨hL, hle⟩ := hr.layout hwf hfits
  have hnew := hclu.trans_le hle
  rw [hL]
  unfold Layout.bat Layout.inVersion
  simp only [hclu, hnew]

/-- A number in the units of one version is not the same block in the other. -/
theorem ioffToSec_ne {e : UInt32} (he : e ≠ 0) {bs : ℕ} (hbs : isValidBlocksize bs)
    {v₁ v₂ : FmtVersion} (hv : v₁ ≠ v₂) : ioffToSec e bs v₁ / bs ≠ ioffToSec e bs v₂ / bs := by
  have hpos : 0 < e.toNat := Nat.pos_of_ne_zero fun h => he (UInt32.toNat.inj h)
  have hless : e.toNat / bs < e.toNat := Nat.div_lt_self hpos (by have := hbs.1; omega)
  have hmul : e.toNat * bs / bs = e.toNat := Nat.mul_div_cancel _ hbs.pos
  cases v₁ <;> cases v₂ <;> simp only [ioffToSec, hmul, ne_eq, not_true_eq_false] at hv ⊢ <;> omega

/-- The mapping is kept only where the loop has been. -/
theorem Converted.convertFits (hwf : WellFormed f) (hfits : f.hdr.layout.FitsVersion f v)
    (hr : Recoded f f.hdr.layout v (slotBound f.hdr.layout.l1Size f.hdr.layout.slots) g)
    (h : Converted f g v) : ConvertFits f v := by
  intro hne clu hclu hk
  by_contra hentry
  have hsame : Layout.entry g clu = Layout.entry f clu :=
    (hr.entry clu (hwf.header.layout.clu_lt hclu)).trans (Layout.recoded_of_le hk)
  have hbat := (hr.bat_eq hwf hfits hclu).symm.trans (h.bat clu hclu)
  unfold Layout.bat Layout.inVersion at hbat
  rw [hsame, if_pos ⟨hclu, hentry⟩, if_pos ⟨hclu, hentry⟩] at hbat
  exact ioffToSec_ne hentry hwf.header.layout.blocksize hne (Option.some.inj hbat).symm

variable (hwf : WellFormed f)

include hwf

/-- Every slot of the index holds its block in the units of the new version. -/
theorem ConvertFits.slot (h : ConvertFits f v)
    (hr : Recoded f f.hdr.layout v (slotBound f.hdr.layout.l1Size f.hdr.layout.slots) g) {s : ℕ}
    (hs : s + mapOffset < f.hdr.layout.l1Size * f.hdr.layout.slots) :
    Layout.entry g s = (f.hdr.layout.inVersion v).encodeSlot (f.hdr.layout.bat f s) := by
  have hbs := hwf.header.layout.blocksize.pos
  have hslot := hwf.table.index_slot hbs hs
  rw [hr.entry s hs]
  by_cases hlt : s < slotBound f.hdr.layout.l1Size f.hdr.layout.slots
  · rw [Layout.recoded_of_lt hlt, hslot]
    exact Layout.recode_encodeSlot hbs fun b hb => hwf.table.fits hbs hb
  · rw [Layout.recoded_of_le (Nat.not_lt.mp hlt)]
    by_cases hsame : f.hdr.layout.version = v
    · rw [hslot, ← hsame]
      rfl
    · have hzero : Layout.entry f s = 0 := by
        by_cases hl2 : s < f.hdr.layout.l2Size
        · exact h hsame s hl2 (Nat.not_lt.mp hlt)
        · exact hwf.table.unused s (Nat.not_lt.mp hl2) hs
      have hnone : f.hdr.layout.bat f s = none := if_neg fun hu => hu.2 hzero
      rw [hnone]
      exact hzero

theorem ConvertFits.converted (hfits : f.hdr.layout.FitsVersion f v) (h : ConvertFits f v)
    (hr : Recoded f f.hdr.layout v (slotBound f.hdr.layout.l1Size f.hdr.layout.slots) g) :
    Converted f g v := by
  obtain ⟨hL, -⟩ := hr.layout hwf hfits
  have hbs := hwf.header.layout.blocksize.pos
  have hbat : ∀ clu < f.hdr.layout.l2Size, g.hdr.layout.bat g clu = f.hdr.layout.bat f clu := by
    intro clu hclu
    rw [hr.bat_eq hwf hfits hclu]
    apply Layout.bat_of_encodeSlot (L := f.hdr.layout.inVersion v) hbs hclu
    · intro b hb
      have hdata := (hwf.table.inData clu b hb).1
      have hpos := hwf.header.layout.l1_pos
      exact ⟨Layout.fits_inVersion hbs hwf.table hfits hb, by omega⟩
    · exact h.slot hwf hr (hwf.header.layout.clu_lt hclu)
  refine ⟨hr.hdr, hbat, fun clu hclu => ?_⟩
  unfold Ploop.content Layout.readClu Indirection.read
  rw [hbat clu hclu]
  cases hb : f.hdr.layout.bat f clu with
  | none => rw [Option.map_none, Option.map_none]
  | some b =>
      have hle := Nat.mul_le_mul_right f.hdr.layout.cluster (hwf.table.inData clu b hb).1
      have hcluster : g.hdr.layout.cluster = f.hdr.layout.cluster := by
        rw [Layout.cluster, hL]
        rfl
      have hblock : g.hdr.layout.block g b = f.hdr.layout.block g b := by
        unfold Layout.block
        rw [hcluster]
      have hsame : f.hdr.layout.block g b = f.hdr.layout.block f b :=
        Layout.block_congr fun j _ => hr.tail _ (hle.trans (Nat.le_add_right _ _))
      rw [Option.map_some, Option.map_some, hblock, hsame]

omit hwf in
theorem word_hdr {i : ℕ} (hi : i < 16) : f.word i = f.hdr.toWords i := by
  interval_cases i <;> rfl

/-- The way back gives the first image. -/
theorem ConvertFits.back (hfits : f.hdr.layout.FitsVersion f v) (h : ConvertFits f v)
    (hr : Recoded f f.hdr.layout v (slotBound f.hdr.layout.l1Size f.hdr.layout.slots) g)
    {g' : File} (hback : Recoded g (f.hdr.layout.inVersion v) f.hdr.layout.version
      (slotBound f.hdr.layout.l1Size f.hdr.layout.slots) g') : g' = f := by
  have hbs := hwf.header.layout.blocksize.pos
  have hhdr : g'.hdr = f.hdr := by
    rw [hback.hdr, hr.hdr]
    have hsig := ploop1Version_eq_some.mp (version_eq hwf)
    rw [← hsig]
  have hentry : ∀ s, s + mapOffset < f.hdr.layout.l1Size * f.hdr.layout.slots →
      Layout.entry g' s = Layout.entry f s := by
    intro s hs
    rw [hback.entry s hs]
    unfold Layout.recoded
    split
    case isTrue hlt =>
      rw [h.slot hwf hr hs, hwf.table.index_slot hbs hs]
      apply Layout.recode_encodeSlot (L := f.hdr.layout.inVersion v) hbs
      intro b hb
      exact Layout.fits_inVersion hbs hwf.table hfits hb
    case isFalse hge => exact (hr.entry s hs).trans (Layout.recoded_of_le (Nat.not_lt.mp hge))
  have hword : ∀ i < f.hdr.layout.l1Size * f.hdr.layout.slots, g'.word i = f.word i := by
    intro i hi
    by_cases hsmall : i < mapOffset
    · rw [word_hdr hsmall, word_hdr hsmall, hhdr]
    · obtain ⟨s, rfl⟩ := Nat.exists_eq_add_of_le' (Nat.not_lt.mp hsmall)
      exact hentry s hi
  apply File.ext
  · exact hback.size.trans hr.size
  · funext i
    by_cases hi : i < f.hdr.layout.l1Size * f.hdr.layout.cluster
    · apply eq_of_bytesWord
      apply hword
      rw [Layout.cluster_eq, Nat.mul_left_comm] at hi
      omega
    · exact (hback.tail i (Nat.not_lt.mp hi)).trans (hr.tail i (Nat.not_lt.mp hi))

end Image

/-! ## Results -/

section Results

variable {f g : File} {v : FmtVersion} {dirty : Bool} {d : Delta}

theorem openDelta_closed (h : openDelta f dirty = some d) :
    f.hdr.mDiskInUse = signatureDiskInUse → dirty = true := by
  intro hinuse
  by_contra hdirty
  unfold openDelta at h
  simp only [Option.bind_eq_bind, Option.bind_eq_some_iff] at h
  obtain ⟨buf, hbuf, version, -, h⟩ := h
  obtain ⟨-, rfl⟩ := File.pread_eq_some.mp hbuf
  have hhdr : PvdHeader.ofWords (bytesWord fun i => f.byte (0 + i)) = f.hdr := by
    simp only [Nat.zero_add]
    rfl
  rw [hhdr, if_pos (show f.hdr.mDiskInUse = signatureDiskInUse ∧ ¬ dirty = true from
    ⟨hinuse, hdirty⟩)] at h
  split at h <;> exact absurd h (Option.some_ne_none d).symm

/-- A converted image opens again. -/
theorem Recoded.reopen {k : ℕ} (hwf : WellFormed f) (hopen : openDelta f dirty = some d)
    (hr : Recoded f f.hdr.layout v k g) : ∃ d₂, openDelta g dirty = some d₂ := by
  have hhdr := hr.hdr
  apply openDelta_of
  · exact ploop1Version_eq_some.mpr (congrArg PvdHeader.mSig hhdr)
  · rw [hhdr]
    exact hwf.header.type
  · rw [hhdr]
    exact hwf.header.layout.blocksize
  · rw [hr.size]
    exact openDelta_size hopen
  · rw [hhdr]
    exact openDelta_closed hopen

/-- A block below the limit of version 1 passes the check. -/
theorem checkSize_of_lt {sec bs : ℕ} (h : sec < 2 ^ 32) : checkSize sec bs .v1 = true := by
  have hmax : getMaxPloopSize bs .v1 = 2 ^ 32 - 1 := by norm_num [getMaxPloopSize]
  have hfs : ¬ (ploopMaxFsSize ≠ 0 ∧ b2s ploopMaxFsSize < 2 ^ 32 - 1) := by
    norm_num [ploopMaxFsSize, b2s]
  unfold checkSize doCheckSize
  dsimp only
  rw [hmax, if_neg hfs, decide_eq_true_eq]
  omega

/-- The conversion of an image that fits ends well. -/
theorem changeFmtVersion_run (hwf : WellFormed f)
    (hindex : f.hdr.layout.l1Size * f.hdr.layout.cluster ≤ f.size)
    (hfits : f.hdr.layout.FitsVersion f v) (hopen : openDelta f dirty = some d) :
    ∃ d', changeFmtVersion v d = .ok () d' ∧ Recoded f f.hdr.layout v
      (slotBound f.hdr.layout.l1Size f.hdr.layout.slots) d'.file := by
  have hat := openDelta_spec hopen
  have hbs := hwf.header.layout.blocksize.pos
  apply changeFmtVersion_spec hwf.header.layout hindex hat.cached hat.cache
  rintro rfl s hs hne
  have hin := (slotBound_le hwf.header.layout).1
  have hslot := hwf.table.index_slot hbs (s := s) (by omega)
  cases hb : f.hdr.layout.bat f s with
  | none =>
      rw [hb] at hslot
      exact absurd hslot hne
  | some b =>
      rw [hwf.table.sec_eq hbs hb]
      exact checkSize_of_lt (hfits.2 s b hb)

/-- The way back runs on the converted image. -/
theorem ConvertFits.restore (hwf : WellFormed f)
    (hindex : f.hdr.layout.l1Size * f.hdr.layout.cluster ≤ f.size)
    (hfits : f.hdr.layout.FitsVersion f v) (hopen : openDelta f dirty = some d)
    (h : ConvertFits f v)
    (hr : Recoded f f.hdr.layout v (slotBound f.hdr.layout.l1Size f.hdr.layout.slots) g) :
    ∃ d₂ d₃, openDelta g dirty = some d₂ ∧
      changeFmtVersion f.hdr.layout.version d₂ = .ok () d₃ ∧ d₃.file = f := by
  have hbs := hwf.header.layout.blocksize.pos
  obtain ⟨hL, -⟩ := hr.layout hwf hfits
  obtain ⟨d₂, hd₂⟩ := hr.reopen hwf hopen
  have hat := openDelta_spec hd₂
  have hcached : Cached g (f.hdr.layout.inVersion v) d₂ := by
    have hc := hat.cached
    rw [hL] at hc
    exact ⟨hc.file, hc.blocksize, hc.version, hc.l1Size, hc.page⟩
  have hvalid : (f.hdr.layout.inVersion v).Valid :=
    ⟨hwf.header.layout.blocksize, hwf.header.layout.room⟩
  obtain ⟨d₃, hrun, hback⟩ := changeFmtVersion_spec (v := f.hdr.layout.version) hvalid
    (hindex.trans_eq hr.size.symm) hcached hat.cache (by
      intro hver s hs hne
      have hin := (slotBound_le hwf.header.layout).1
      have hroom : s + mapOffset < f.hdr.layout.l1Size * f.hdr.layout.slots := by
        have hs' : s < slotBound f.hdr.layout.l1Size f.hdr.layout.slots := hs
        omega
      have hslot := h.slot hwf hr hroom
      cases hb : f.hdr.layout.bat f s with
      | none =>
          rw [hb] at hslot
          exact absurd hslot hne
      | some b =>
          have hold := hwf.table.fits hbs hb
          unfold Layout.Fits at hold
          simp only [hver] at hold
          rw [hb] at hslot
          rw [hslot, hver]
          have hsec := Layout.ioffToSec_encode (L := f.hdr.layout.inVersion v) hbs
            (Layout.fits_inVersion hbs hwf.table hfits hb)
          exact checkSize_of_lt (hsec.trans_lt hold))
  exact ⟨d₂, d₃, hd₂, hrun, h.back hwf hfits hr hback⟩

/-- The conversion keeps the mapping and the content and can be taken back exactly when the
loop reaches every slot in use. -/
theorem changeFmtVersion_iff (hwf : WellFormed f)
    (hindex : f.hdr.layout.l1Size * f.hdr.layout.cluster ≤ f.size)
    (hfits : f.hdr.layout.FitsVersion f v) (hopen : openDelta f dirty = some d) :
    (∃ d', changeFmtVersion v d = .ok () d' ∧ Converted f d'.file v ∧
      ∃ d₂ d₃, openDelta d'.file dirty = some d₂ ∧
        changeFmtVersion f.hdr.layout.version d₂ = .ok () d₃ ∧ d₃.file = f) ↔
      ConvertFits f v := by
  obtain ⟨d', hrun, hr⟩ := changeFmtVersion_run hwf hindex hfits hopen
  constructor
  · rintro ⟨d'', hrun', hconv, -⟩
    have hsame : d'' = d' := by
      rw [hrun] at hrun'
      injection hrun' with _ heq
      exact heq.symm
    rw [hsame] at hconv
    exact hconv.convertFits hwf hfits hr
  · intro h
    exact ⟨d', hrun, h.converted hwf hfits hr, h.restore hwf hindex hfits hopen hr⟩

end Results

/-! ## Two images -/

/-- An image with two clusters is converted. -/
theorem changeFmtVersion_iff_crossed : ∃ d, openDelta (crossedImage .v1) true = some d ∧
    ((∃ d', changeFmtVersion .v2 d = .ok () d' ∧ Converted (crossedImage .v1) d'.file .v2 ∧
      ∃ d₂ d₃, openDelta d'.file true = some d₂ ∧
        changeFmtVersion (crossedImage .v1).hdr.layout.version d₂ = .ok () d₃ ∧
        d₃.file = crossedImage .v1) ↔ ConvertFits (crossedImage .v1) .v2) := by
  have hwf := crossedImage_wellFormed .v1
  have hhdr := crossedImage_hdr .v1
  obtain ⟨d, hopen⟩ := @exists_openDelta (crossedImage .v1) true hwf.header (by decide)
    fun _ => rfl
  exact ⟨d, hopen, changeFmtVersion_iff hwf (by rw [hhdr]; decide) trivial hopen⟩

/-- An index of `2 ^ 32 + 8192` words. -/
def wrappedHeader : PvdHeader :=
  { (generatePvdHeader PvdHeader.zero (8177 * 64) 64 .v1).1 with
    mFirstBlockOffset := UInt32.ofNat ((2 ^ 19 + 1) * 64) }

/-- The last cluster is in the first block behind the index. -/
def wrappedImage : File :=
  tabled wrappedHeader (fun s => wrappedHeader.layout.encodeSlot
      (if s = 8176 then some (2 ^ 19 + 1) else none))
    (wrappedHeader.layout.l1Size * wrappedHeader.layout.slots) ((2 ^ 19 + 2) * 32768)

theorem wrappedImage_hdr : wrappedImage.hdr = wrappedHeader :=
  tabled_hdr (by decide) (by decide)

theorem wrappedImage_wellFormed : WellFormed wrappedImage := by
  have hlast : ∀ clu b, (if clu = 8176 then some (2 ^ 19 + 1) else none) = some b →
      clu = 8176 ∧ b = 2 ^ 19 + 1 := by
    intro clu b hb
    split at hb
    case isTrue h => exact ⟨h, (Option.some.inj hb).symm⟩
    case isFalse => exact absurd hb nofun
  refine (tabled_wellFormed ⟨by decide, rfl, by decide, ⟨by decide, by decide⟩⟩ (by decide)
    ?_ ?_).1
  · exact fun clu clu' b hb hb' => (hlast clu b hb).1.trans (hlast clu' b hb').1.symm
  · intro clu b hb
    obtain ⟨rfl, rfl⟩ := hlast clu b hb
    decide

/-- Cluster 8176 is left in the units of version 1. -/
theorem changeFmtVersion_strays : ¬ ∀ (f : File) (v : FmtVersion) (dirty : Bool) (d : Delta),
    WellFormed f → f.hdr.layout.l1Size * f.hdr.layout.cluster ≤ f.size →
    f.hdr.layout.FitsVersion f v → openDelta f dirty = some d →
    ∃ d', changeFmtVersion v d = .ok () d' ∧ Converted f d'.file v ∧
      ∃ d₂ d₃, openDelta d'.file dirty = some d₂ ∧
        changeFmtVersion f.hdr.layout.version d₂ = .ok () d₃ ∧ d₃.file = f := by
  intro hall
  have hwf := wrappedImage_wellFormed
  have hhdr := wrappedImage_hdr
  have hindex : wrappedImage.hdr.layout.l1Size * wrappedImage.hdr.layout.cluster ≤
      wrappedImage.size := by
    rw [hhdr]
    decide
  obtain ⟨d, hopen⟩ := @exists_openDelta wrappedImage true hwf.header (by decide) fun _ => rfl
  obtain ⟨d', hrun, hconv, -⟩ := hall _ .v2 true d hwf hindex trivial hopen
  obtain ⟨d'', hrun', hr⟩ := @changeFmtVersion_run _ .v2 _ _ hwf hindex trivial hopen
  have hsame : d' = d'' := by
    rw [hrun] at hrun'
    injection hrun' with _ heq
  rw [← hsame] at hr
  have hfits : ConvertFits wrappedImage .v2 := hconv.convertFits hwf True.intro hr
  unfold ConvertFits slotBound at hfits
  rw [hhdr] at hfits
  have hzero := hfits (by decide) 8176 (by decide) (by decide)
  rw [wrappedImage, tabled_entry (by decide) (by decide)] at hzero
  exact absurd hzero (by decide)

end Ploop
