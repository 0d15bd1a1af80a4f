import Ploop.Image.MergeOutput

/-!
# The run of a merge

Each operation on the output takes `Output` to `Output`; the loop visits the
clusters in order and leaves the disk of the stack.
-/

namespace Ploop

open Storage Indirection Program

/-! ## The cached cluster of the table -/

section Cache

variable {Ls : Set Layout} {L : Layout} {B : ℕ} {O R₀ : VDisk} {S₀ : Set ℕ} {T : ℕ → Option ℕ}
  {A n i : ℕ} {d : Delta}

/-- What holds when an operation on the output fails. -/
def Unharmed (L : Layout) (O R₀ : VDisk) (S₀ : Set ℕ) (d : Delta) : Prop :=
  d.disk.Safe (Sound (Mask O R₀) L.cluster S₀)

theorem Output.unharmed (h : Output Ls L B O R₀ S₀ T A n d) : Unharmed L O R₀ S₀ d := h.disk.safe

/-- Once the cached cluster is written back the file has the whole table. -/
theorem Output.bat_eq (h : Output Ls L B O R₀ S₀ T A n d) (hclean : ¬ d.l2Dirty) :
    L.bat d.file = T := by
  funext clu
  by_cases hclu : clu < L.l2Size
  · refine Layout.bat_of_encodeSlot h.valid.pos hclu (fun b hb => ?_) (h.clean hclean clu hclu)
    have := h.valid.l1_pos
    have := h.disk.l1_le
    obtain ⟨h₁, -, h₃, -⟩ := h.disk.slots clu b hb
    exact ⟨h₃, by omega⟩
  · rw [h.disk.out clu (by omega), Layout.bat_of_ge (by omega)]

theorem Output.sync (h : Output Ls L B O R₀ S₀ T A n d) : Output Ls L B O R₀ S₀ T A n d.sync where
  version := h.version
  blocksize := h.blocksize
  l1Size := h.l1Size
  head := h.head
  room := h.room
  disk := h.disk.sync
  cached := h.cached
  dirty := h.dirty
  slot := h.slot
  tail := h.tail
  rest := by
    rw [Delta.file_sync]
    exact h.rest
  clean := by
    rw [Delta.file_sync]
    exact h.clean
  reads := by
    rw [Delta.file_sync]
    exact h.reads

theorem writePage_spec (d : Delta) (p : ℕ) {E : Delta → Prop} :
    Triple (fun s => s = d) (writePage p L.cluster)
      (fun _ s => s = d.write (pageWrite L d.l2 p)) E := by
  refine Triple.look fun s hs => Triple.update fun s' hs' => ?_
  subst hs hs'
  rfl

/-- After a barrier the cached cluster is written back, before another one. -/
theorem writeIndex_spec (h : Output Ls L B O R₀ S₀ T A n d) :
    Triple (fun s => s = d.sync) (writeIndex L.cluster)
      (fun _ s => Output Ls L B O R₀ S₀ T A n { s with l2Dirty := false } ∧
        s.l2Cache = d.l2Cache) (Unharmed L O R₀ S₀) := by
  have hsafe : ∀ s, s = d.sync → Unharmed L O R₀ S₀ s := fun s hs => hs ▸ h.sync.unharmed
  refine Triple.look fun s hs => ?_
  subst hs
  cases hp : d.sync.l2Cache with
  | none => exact Triple.raise hsafe
  | some p =>
      simp only
      split
      · exact Triple.raise hsafe
      · refine Triple.bind (writePage_spec d.sync p) fun _ => Triple.update fun s hs => ?_
        subst hs
        exact ⟨(h.flush hp rfl).1, rfl⟩

/-- The cached cluster is clean and still the same one. -/
theorem syncCache_spec (h : Output Ls L B O R₀ S₀ T A n d) :
    Triple (fun s => s = d) syncCache
      (fun _ s => Output Ls L B O R₀ S₀ T A n s ∧ s.l2Cache = d.l2Cache ∧ ¬ s.l2Dirty)
      (Unharmed L O R₀ S₀) := by
  refine Triple.look fun s hs => ?_
  subst hs
  by_cases hdirty : s.l2Dirty
  · simp only [hdirty, if_true, h.cluster]
    refine Triple.step (Triple.bind (writeIndex_spec h) fun _ => Triple.update ?_)
    rintro s' ⟨hs', hcache⟩
    exact ⟨hs', hcache, Bool.false_ne_true⟩
  · simp only [hdirty]
    refine Triple.ret fun s' hs' => ?_
    subst hs'
    exact ⟨h, rfl, hdirty⟩

theorem syncIfCached_spec (h : Output Ls L B O R₀ S₀ T A n d) :
    Triple (fun s => s = d) syncIfCached
      (fun _ s => Output Ls L B O R₀ S₀ T A n s ∧ ¬ s.l2Dirty) (Unharmed L O R₀ S₀) := by
  refine Triple.look fun s hs => ?_
  subst hs
  by_cases hc : s.l2Cache.isSome
  · simp only [hc, if_true]
    exact (syncCache_spec h).conseq (fun _ hs => hs) (fun _ _ hs => ⟨hs.1, hs.2.2⟩) fun _ hs => hs
  · simp only [hc]
    refine Triple.ret fun s' hs' => ?_
    subst hs'
    exact ⟨h, fun hdirty => hc (h.dirty hdirty)⟩

/-- Reading a cluster of the table while nothing waits to be written. -/
theorem Output.fetch (h : Output Ls L B O R₀ S₀ T A n d) (hclean : ¬ d.l2Dirty)
    (hi : i < L.l1Size) {d' : Delta} (hd' : d' = { d with
      l2Cache := some i
      l2 := bytesWord fun j => d.file.byte (i * L.cluster + j)
      l2Dirty := false }) : Output Ls L B O R₀ S₀ T A n d' := by
  have hpage : ∀ s, some i = some ((s + mapOffset) / L.slots) →
      d'.l2 ((s + mapOffset) % L.slots) = Layout.entry d.file s := by
    intro s hs
    rw [hd']
    change bytesWord (fun j => d.file.byte (i * L.cluster + j)) _ = _
    rw [Layout.bytesWord_page, Option.some.inj hs, Nat.div_add_mod']
    rfl
  have hentry := h.clean hclean
  have hfile : d'.file = d.file := by rw [hd']; rfl
  have hcache : d'.l2Cache = some i := by rw [hd']
  refine ⟨hd' ▸ h.version, hd' ▸ h.blocksize, hd' ▸ h.l1Size, hd' ▸ h.head, h.room, hd' ▸ h.disk,
    ?_, ?_, ?_, ?_, ?_, ?_, ?_⟩
  · intro p hp
    rwa [← Option.some.inj (hcache.symm.trans hp)]
  · intro hdirty
    rw [hd'] at hdirty
    exact absurd hdirty Bool.false_ne_true
  · intro clu hclu hc
    rw [hpage clu (hcache.symm.trans hc)]
    exact hentry clu hclu
  · intro s hs hs' hc
    rw [hpage s (hcache.symm.trans hc)]
    exact h.disk.file.table.unused s hs hs'
  · intro clu hclu _
    rw [hfile]
    exact hentry clu hclu
  · intro _ clu hclu
    rw [hfile]
    exact hentry clu hclu
  · rw [hfile]
    exact h.reads

theorem fetchPage_spec (h : Output Ls L B O R₀ S₀ T A n d) (hi : i < L.l1Size) :
    Triple (fun s => s = d) (fetchPage i L.cluster)
      (fun _ s => Output Ls L B O R₀ S₀ T A n s ∧ s.l2Cache = some i) (Unharmed L O R₀ S₀) := by
  refine Triple.look fun s hs => ?_
  subst hs
  by_cases hc : s.l2Cache = some i
  · simp only [hc, if_true]
    exact Triple.ret fun s' hs' => hs' ▸ ⟨h, hc⟩
  · simp only [hc, if_false]
    refine Triple.bind (syncIfCached_spec h) fun _ => Triple.start fun e ⟨he, hclean⟩ => ?_
    refine Triple.step (Triple.bind ((pread_spec .read _ _ _).conseq (fun _ hs => hs)
      (fun _ _ hs => hs) fun s' hs' => ?_) fun buf => Triple.update fun s' ⟨hs', hbuf⟩ => ?_)
    · subst hs'
      exact he.unharmed
    · subst hs' hbuf
      exact ⟨he.fetch hclean hi rfl, rfl⟩

end Cache

/-! ## One block -/

section Store

variable {Ls : Set Layout} {L : Layout} {B : ℕ} {O R₀ : VDisk} {S₀ : Set ℕ} {T : ℕ → Option ℕ}
  {A n i k clu : ℕ} {d : Delta}

/-- The slot of a cluster is its own. -/
theorem Layout.slot_unique {s : ℕ} (hclu : clu + mapOffset = i * L.slots + k) :
    (s + mapOffset) / L.slots = i → ((s + mapOffset) % L.slots = k ↔ s = clu) := by
  rintro rfl
  have := Nat.div_add_mod' (s + mapOffset) L.slots
  omega

/-- Block `b` is written for a cluster, whose slot in memory names it. -/
theorem Output.store (h : Output Ls L B O R₀ S₀ T A clu d) (hcache : d.l2Cache = some i)
    (hk : k < L.slots) (hclu : clu + mapOffset = i * L.slots + k) (hlt : clu < L.l2Size)
    {data : ℕ → UInt8} (hO : O clu = some fun j => if j < L.cluster then data j else 0) {b A' : ℕ}
    (hA : A ≤ A') (hb : B ≤ b) (hbA : b < A') (hfit : L.Fits b)
    (hfree : ∀ c, c ≠ clu → T c ≠ some b) (hkeep : ∀ c, T clu = some c → c = b)
    (hroom : A' ≤ L.limit ∨ ∀ clu, O clu ≠ none → T clu ≠ none) (dirty : Bool)
    (hdirty : ¬ dirty → T clu = some b ∧ ¬ d.l2Dirty) {d' : Delta}
    (hd' : d' = { d.write ⟨b * L.cluster, L.cluster, data⟩ with
      allocHead := UInt32.ofNat A'
      l2 := Function.update d.l2 k (L.encode b)
      l2Dirty := dirty }) :
    Output Ls L B O R₀ S₀ (Function.update T clu (some b)) A' (clu + 1) d' := by
  have hL := h.valid
  have hext : ∀ c, T clu = some c → some b = some c := fun c hc => by rw [hkeep c hc]
  have hupd : ∀ c, c ≠ clu → Function.update T clu (some b) c = T c := fun c hc =>
    update_of_ne hc
  have hone : OneToOne (Function.update T clu (some b)) := h.disk.oneToOne.update hfree
  have hpast : L.l1Size * L.cluster ≤ b * L.cluster :=
    Nat.mul_le_mul_right _ (h.disk.l1_le.trans hb)
  have hentry : ∀ s, s + mapOffset < L.l1Size * L.slots →
      Layout.entry (d.file.pwrite ⟨b * L.cluster, L.cluster, data⟩) s = Layout.entry d.file s :=
    fun s hs => Layout.entry_pwrite_of_ge hs hpast
  have hfile : d'.file = d.file.pwrite ⟨b * L.cluster, L.cluster, data⟩ := by
    rw [hd']
    exact d.file_write _
  have hl2 : d'.l2 = Function.update d.l2 k (L.encode b) := by rw [hd']
  have hsame : d'.l2Cache = d.l2Cache := by rw [hd']; rfl
  have hpage := Layout.page_of hclu hk
  refine ⟨hd' ▸ h.version, hd' ▸ h.blocksize, hd' ▸ h.l1Size, hd' ▸ rfl, ?_, ?_, hd' ▸ h.cached,
    ?_, ?_, ?_, ?_, ?_, ?_⟩
  · refine hroom.imp id fun hall c hc => ?_
    by_cases e : c = clu
    · rw [e, Function.update_self]
      exact Option.some_ne_none b
    · rw [hupd c e]
      exact hall c hc
  · rw [hd']
    refine h.disk.write hA hb hbA hfit (hO ▸ Option.some_ne_none _)
      (Function.update_self clu (some b) T) ?_ ?_ hone ?_ data
    · intro c a hc
      by_cases e : c = clu
      · subst e
        rw [Function.update_self]
        exact hext a hc
      · rwa [hupd c e]
    · intro c a hc
      by_cases e : c = clu
      · subst e
        rw [Function.update_self] at hc
        exact Or.inr ⟨rfl, (Option.some.inj hc).symm⟩
      · rw [hupd c e] at hc
        exact Or.inl hc
    · intro c hc
      rw [hupd c (by omega)]
      exact h.disk.out c hc
  · intro _
    rw [hsame, hcache]
    rfl
  · intro c hc hp
    rw [hsame] at hp
    have hpi : (c + mapOffset) / L.slots = i := Option.some.inj (hp.symm.trans hcache)
    have hslot := Layout.slot_unique hclu hpi
    by_cases e : c = clu
    · rw [hl2, hslot.mpr e, e, Function.update_self, Function.update_self]
      rfl
    · rw [hl2, hupd c e, Function.update_of_ne fun hc' => e (hslot.mp hc')]
      exact h.slot c hc hp
  · intro s hs hs' hp
    rw [hsame] at hp
    have hpi : (s + mapOffset) / L.slots = i := Option.some.inj (hp.symm.trans hcache)
    have hslot := Layout.slot_unique hclu hpi
    rw [hl2, Function.update_of_ne fun hc' => absurd (hslot.mp hc') (by omega)]
    exact h.tail s hs hs' hp
  · intro c hc hp
    rw [hsame] at hp
    have hne : c ≠ clu := by
      rintro rfl
      exact hp (hpage.1 ▸ hcache)
    rw [hfile, hentry c (hL.clu_lt hc), hupd c hne]
    exact h.rest c hc hp
  · intro hd c hc
    have hdirty' : ¬ dirty := by
      rw [hd'] at hd
      exact hd
    obtain ⟨hT, hclean⟩ := hdirty hdirty'
    rw [hfile, hentry c (hL.clu_lt hc), ← hT, Function.update_eq_self]
    exact h.clean hclean c hc
  · have hblock : L.block d'.file b = fun j => if j < L.cluster then data j else 0 := by
      rw [hfile]
      exact Layout.block_pwrite_self b data
    rw [progress_succ_of_some hO, ← h.reads, ← hblock]
    refine read_update fun c a hc hT => ?_
    rw [hfile]
    refine Layout.block_pwrite_of_ne data ?_
    rintro rfl
    exact hfree c hc hT

/-- The output with the clusters below `n` merged, whatever its table is. -/
def Filled (Ls : Set Layout) (L : Layout) (B : ℕ) (O R₀ : VDisk) (S₀ : Set ℕ) (n : ℕ)
    (d : Delta) : Prop :=
  ∃ T A, Output Ls L B O R₀ S₀ T A n d

theorem Filled.unharmed (h : Filled Ls L B O R₀ S₀ n d) : Unharmed L O R₀ S₀ d := by
  obtain ⟨T, A, h⟩ := h
  exact h.unharmed

/-- A cluster that no source has is left alone. -/
theorem Filled.skip (h : Filled Ls L B O R₀ S₀ n d) (hO : O n = none) :
    Filled Ls L B O R₀ S₀ (n + 1) d := by
  obtain ⟨T, A, h⟩ := h
  exact ⟨T, A, { h with reads := h.reads.trans (progress_succ_of_none hO).symm }⟩

/-- `allocSlot`, and the write of the block. -/
theorem store_spec (h : Output Ls L B O R₀ S₀ T A clu d) (hcache : d.l2Cache = some i)
    (hk : k < L.slots) (hclu : clu + mapOffset = i * L.slots + k) (hlt : clu < L.l2Size)
    {data : ℕ → UInt8} (hO : O clu = some fun j => if j < L.cluster then data j else 0) :
    Triple (fun s => s = d) (do
        allocSlot k L.blocksize L.version
        let entry := (← get).l2 k
        pwrite (s2b (ioffToSec entry L.blocksize L.version)) L.cluster data)
      (fun _ s => Filled Ls L B O R₀ S₀ (clu + 1) s) (Unharmed L O R₀ S₀) := by
  have hL := h.valid
  have hl1 := hL.l1_pos
  have hB := h.disk.l1_le
  have hpage := Layout.page_of hclu hk
  have hslot : d.l2 k = L.encodeSlot (T clu) := by
    rw [← hpage.2]
    exact h.slot clu hlt (hpage.1 ▸ hcache)
  have hput : ∀ b, L.Fits b →
      s2b (ioffToSec (L.encode b) L.blocksize L.version) = b * L.cluster := by
    intro b hb
    rw [Layout.ioffToSec_encode hL.pos hb, Layout.cluster, s2b, s2b, mul_assoc]
  cases hT : T clu with
  | some b =>
      -- the block the destination has for the cluster is overwritten
      obtain ⟨h₁, h₂, h₃, -⟩ := h.disk.slots clu b hT
      have hentry : d.l2 k = L.encode b := by rw [hslot, hT]; rfl
      refine Triple.bind (R := fun _ s => s = d) ?_ fun _ => Triple.look fun s hs => ?_
      · refine Triple.look fun s hs => ?_
        subst hs
        have hne : s.l2 k ≠ 0 := hentry ▸ Layout.encode_ne_zero hL.pos h₃ (by omega)
        simp only [hne, ne_eq, not_false_eq_true, if_true]
        exact Triple.ret fun _ hs => hs
      · subst hs
        simp only [hentry, hput b h₃]
        refine Triple.update fun s' hs' =>
          ⟨_, A, h.store hcache hk hclu hlt hO le_rfl h₁ h₂ h₃ ?_ ?_
            h.room s.l2Dirty (fun hd => ⟨hT, hd⟩) ?_⟩
        · intro c hc hc'
          exact hc (h.disk.oneToOne hc' hT)
        · intro c hc
          exact Option.some.inj (hc.symm.trans hT)
        · rw [hs', ← hentry, Function.update_eq_self, ← h.head]
          rfl
  | none =>
      -- a block is taken from the end of the file
      have hentry : d.l2 k = 0 := by rw [hslot, hT]; rfl
      have hroom : A ≤ L.limit := h.room.resolve_right fun hall =>
        hall clu (hO ▸ Option.some_ne_none _) hT
      refine Triple.bind (R := fun _ s => L.Fits A ∧ s = { d with
        allocHead := UInt32.ofNat (A + 1)
        l2 := Function.update d.l2 k (L.encode A)
        l2Dirty := true }) ?_ fun _ => Triple.look ?_
      · refine Triple.look fun s hs => ?_
        subst hs
        simp only [hentry, ne_eq, not_true_eq_false, if_false]
        refine Triple.step ?_
        split
        · exact Triple.raise fun s' hs' => hs' ▸ h.unharmed
        · rename_i hne
          rw [h.head] at hne
          obtain ⟨hfit, henc⟩ := Layout.entry_head hL.blocksize hroom rfl hne
          refine Triple.update fun s' hs' => ⟨hfit, ?_⟩
          rw [hs', h.head, henc, UInt32.ofNat_add]
          rfl
      · rintro s ⟨hfit, hs⟩
        have hl2 : s.l2 k = L.encode A := by
          rw [hs]
          exact Function.update_self _ _ _
        simp only [hl2, hput A hfit]
        have hlt' : A + 1 ≤ L.limit := (Layout.fits_iff hL.blocksize).mp hfit
        refine Triple.update fun s' hs' => ⟨_, A + 1, h.store hcache hk hclu hlt hO (Nat.le_succ A)
          h.disk.low (Nat.lt_succ_self A) hfit ?_ ?_ (Or.inl hlt') true
          (fun hd => absurd rfl hd) ?_⟩
        · intro c _ hc
          exact lt_irrefl A (h.disk.slots c A hc).2.1
        · intro c hc
          exact absurd (hT.symm.trans hc) (Option.some_ne_none c).symm
        · rw [hs', hs]
          rfl

theorem storeBlock_spec (h : Filled Ls L B O R₀ S₀ clu d) (hi : i < L.l1Size) (hk : k < L.slots)
    (hclu : clu + mapOffset = i * L.slots + k) (hlt : clu < L.l2Size) {data : ℕ → UInt8}
    (hO : O clu = some fun j => if j < L.cluster then data j else 0) :
    Triple (fun s => s = d) (storeBlock i k L.blocksize L.version data)
      (fun _ s => Filled Ls L B O R₀ S₀ (clu + 1) s) (Unharmed L O R₀ S₀) := by
  obtain ⟨T, A, h⟩ := h
  refine Triple.bind (fetchPage_spec h hi) fun _ => Triple.start fun e ⟨he, hcache⟩ => ?_
  exact store_spec he hcache hk hclu hlt hO

end Store

end Ploop
