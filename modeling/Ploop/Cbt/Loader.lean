import Ploop.Cbt.Block

/-!
# What the loader accepts

When `delta_load_optional_header` succeeds and what it then has in memory, for
any block and any file.
-/

namespace Ploop.Cbt

open Storage Program

/-! ## Tables in a file -/

/-- The loader can read the block of entry `v`, `cur` bytes of it. -/
def Readable (f : File) (_i cur v : ℕ) : Prop :=
  1 < v → cur = 0 ∨ u64 (v * sectorSize) + cur ≤ f.size

def memEntry (heap : ℕ → UInt8) (f : File) (cur v : ℕ) : MemEntry :=
  if 1 < v then .block (overlay heap 0 cur fun t => f.byte (u64 (v * sectorSize) + t))
  else .const (v = 1)

def memTable (heap : ℕ → UInt8) (f : File) (bs : ℕ) : ℕ → List ℕ → List MemEntry
  | _, [] => []
  | bytes, v :: vs => memEntry heap f (min bs bytes) v ::
      memTable heap f bs (bytes - min bs bytes) vs

/-- The bitmap `raw` of the file `f`, brought to memory. -/
def DirtyBitmapRaw.inMemory (raw : DirtyBitmapRaw ℕ) (heap : ℕ → UInt8) (f : File) (bs : ℕ) :
    DirtyBitmapRaw MemEntry where
  mSize := raw.mSize
  mId := raw.mId
  mGranularity := raw.mGranularity
  mL1 := memTable heap f bs (bitmapBytes raw.mSize raw.mGranularity) raw.mL1

/-- Bit `j` of the block of entry `v`. -/
def entryBit (f : File) (v j : ℕ) : Bool :=
  if 1 < v then testBit (fun t => f.byte (u64 (v * sectorSize) + t)) j else v = 1

/-- The granule `g`, read from the file. -/
def DirtyBitmapRaw.bit (raw : DirtyBitmapRaw ℕ) (f : File) (bs g : ℕ) : Bool :=
  match raw.mL1[g / (8 * bs)]? with
  | some v => entryBit f v (g % (8 * bs))
  | none => false

section Table

variable {f : File} {bs : ℕ} {heap : ℕ → UInt8}

theorem memTable_getElem? (l : List ℕ) (bytes j : ℕ) : (memTable heap f bs bytes l)[j]? =
    l[j]?.map (memEntry heap f (min bs (bytes - j * bs))) := by
  induction l generalizing bytes j with
  | nil => simp [memTable]
  | cons v vs ih =>
      cases j with
      | zero => simp [memTable]
      | succ j =>
          have hcur := (@TableOf.succ_index bs 0 bytes j).2
          have h := ih (bytes - min bs bytes) j
          rw [hcur] at h
          simpa [memTable] using h

theorem memTable_length {l : List ℕ} {bytes : ℕ} :
    (memTable heap f bs bytes l).length = l.length := by
  induction l generalizing bytes with
  | nil => rfl
  | cons v vs ih => exact congrArg Nat.succ ih

/-- The loaded bitmap has the bits of the file. -/
theorem dirty_inMemory (hbs : 0 < bs) (raw : DirtyBitmapRaw ℕ) {g : ℕ}
    (hg : g < 8 * bitmapBytes raw.mSize raw.mGranularity) :
    (raw.inMemory heap f bs).dirty bs g = raw.bit f bs g := by
  unfold DirtyBitmapRaw.dirty DirtyBitmapRaw.bit DirtyBitmapRaw.inMemory
  dsimp only
  rw [memTable_getElem?]
  cases raw.mL1[g / (8 * bs)]? with
  | none => rfl
  | some v =>
      dsimp only [Option.map_some]
      by_cases hv : 1 < v
      · rw [memEntry, entryBit, if_pos hv, if_pos hv]
        have hcur := (granule_lt hbs hg).2
        obtain ⟨-, hmod, -, -⟩ := granule_split bs g
        refine testBit_congr ?_ rfl
        rw [overlay_of_mem (Nat.zero_le _) (by omega), Nat.sub_zero]
      · rw [memEntry, entryBit, if_neg hv, if_neg hv]

end Table

section Move

variable {bs : ℕ} {d : Delta}

theorem preadPart_spec {cur off : ℕ} : Triple (fun s => s = d) (preadPart cur off)
    (fun m s => s = d ∧ (cur = 0 ∨ off + cur ≤ d.file.size) ∧
      ∀ t < cur, m t = d.file.byte (off + t))
    (fun _ => ¬ (cur = 0 ∨ off + cur ≤ d.file.size)) := by
  unfold preadPart
  by_cases hcur : cur = 0
  · rw [if_pos hcur]
    exact Triple.ret fun s hs => ⟨hs, .inl hcur, fun t ht => absurd ht (by omega)⟩
  · rw [if_neg hcur]
    by_cases hend : off + cur ≤ d.file.size
    · refine (pread_inside hend).total.conseq (fun _ hs => hs) (fun m s hs => ?_) fun _ hs => hs
      exact ⟨hs.1, .inr hend, fun t _ => congrFun hs.2 t⟩
    · refine Triple.look fun s hs => ?_
      subst hs
      have hread : s.file.pread cur off = none := if_neg hend
      rw [hread]
      exact Triple.raise fun _ _ => not_or.mpr ⟨hcur, hend⟩

theorem moveToMemory_spec (heap : ℕ → UInt8) (l : List ℕ) {i bytes : ℕ} :
    Triple (fun s => s = d) (moveToMemory bs heap bytes l)
      (fun r s => s = d ∧ TableOf (Readable d.file) bs i bytes l ∧
        r.1 = memTable heap d.file bs bytes l)
      (fun _ => ¬ TableOf (Readable d.file) bs i bytes l) := by
  induction l generalizing i bytes with
  | nil => exact Triple.ret fun s hs => ⟨hs, trivial, rfl⟩
  | cons v vs ih =>
      unfold moveToMemory
      dsimp only
      by_cases hv : 1 < v
      · rw [if_pos hv]
        refine Triple.bind (preadPart_spec.conseq (fun _ hs => hs) (fun _ _ hs => hs)
          fun s hs htable => hs (htable.1 hv)) fun m => Triple.start fun s hs => ?_
        obtain ⟨rfl, hread, hm⟩ := hs
        refine Triple.bind ((ih (i := i + 1)).conseq (fun _ hs => hs) (fun _ _ hs => hs)
          fun s hs htable => hs htable.2) fun r => Triple.ret fun s' hs' => ?_
        refine ⟨hs'.1, ⟨fun _ => hread, hs'.2.1⟩, ?_⟩
        rw [memTable, memEntry, if_pos hv, hs'.2.2]
        refine congrArg (fun b => MemEntry.block b :: _) (funext fun t => ?_)
        by_cases ht : t < min bs bytes
        · rw [overlay_of_mem (by omega) (by omega), overlay_of_mem (by omega) (by omega),
            Nat.sub_zero, hm t ht]
        · rw [overlay_of_ge (by omega), overlay_of_ge (by omega)]
      · rw [if_neg hv]
        refine Triple.bind ((ih (i := i + 1)).conseq (fun _ hs => hs) (fun _ _ hs => hs)
          fun s hs htable => hs htable.2) fun r => Triple.ret fun s' hs' => ?_
        refine ⟨hs'.1, ⟨fun h => absurd h hv, hs'.2.1⟩, ?_⟩
        rw [memTable, memEntry, if_neg hv, hs'.2.2]

end Move

/-! ## Elements -/

/-- A bitmap in an element of `size` bytes that the loader takes. -/
structure Loadable (bs sectors : ℕ) (f : File) (size : ℕ) (raw : DirtyBitmapRaw ℕ) : Prop where
  mSize : raw.mSize = sectors
  room : rawBytes + 8 * raw.mL1.length ≤ size
  granularity : raw.mGranularity ≠ 0
  readable : TableOf (Readable f) bs 0 (bitmapBytes raw.mSize raw.mGranularity) raw.mL1

/-- From byte `h` on the block has elements up to an empty one, and the bitmaps
among them are `rs`. -/
inductive Elements (bs sectors : ℕ) (f : File) (block : ℕ → UInt8) :
    ℕ → List (DirtyBitmapRaw ℕ) → Prop
  | stop {h : ℕ}
      (room : h + elementBytes + (rd32 block (h + 16)).toNat ≤ bs)
      (magic : rd64 block h = 0) : Elements bs sectors f block h []
  | other {h : ℕ} {rs : List (DirtyBitmapRaw ℕ)}
      (room : h + elementBytes + (rd32 block (h + 16)).toNat ≤ bs)
      (some : rd64 block h ≠ 0) (magic : rd64 block h ≠ extMagicDirtyBitmap)
      (rest : Elements bs sectors f block (h + elementBytes + (rd32 block (h + 16)).toNat) rs) :
      Elements bs sectors f block h rs
  | bitmap {h : ℕ} {rs : List (DirtyBitmapRaw ℕ)}
      (room : h + elementBytes + (rd32 block (h + 16)).toNat ≤ bs)
      (magic : rd64 block h = extMagicDirtyBitmap)
      (loadable :
        Loadable bs sectors f (rd32 block (h + 16)).toNat (readRaw block (h + elementBytes)))
      (rest : Elements bs sectors f block (h + elementBytes + (rd32 block (h + 16)).toNat) rs) :
      Elements bs sectors f block h (readRaw block (h + elementBytes) :: rs)

section Load

variable {d : Delta} {heap block : ℕ → UInt8} {ctx : ExtContext}

theorem loadDirtyBitmap_spec (hext : formatExtensionOffset d.hdr0 ≠ 0) {pos size : ℕ} :
    Triple (fun s => s = d) (loadDirtyBitmap heap block pos size ctx)
      (fun ctx' s => s = d ∧
        Loadable (blockSize d.hdr0) d.hdr0.mSizeInSectorsV2 d.file size (readRaw block pos) ∧
        ctx'.raw = some ((readRaw block pos).inMemory heap d.file (blockSize d.hdr0)))
      (fun _ =>
        ¬ Loadable (blockSize d.hdr0) d.hdr0.mSizeInSectorsV2 d.file size (readRaw block pos)) := by
  refine Triple.look fun s hs => ?_
  subst hs
  dsimp only
  rw [if_neg hext]
  by_cases hsize : (readRaw block pos).mSize ≠ s.hdr0.mSizeInSectorsV2
  · rw [if_pos hsize]
    exact Triple.raise fun _ _ h => hsize h.mSize
  rw [if_neg hsize]
  by_cases hroom : size < rawBytes + 8 * (readRaw block pos).mL1.length
  · rw [if_pos hroom]
    exact Triple.raise fun _ _ h => absurd h.room (Nat.not_le.mpr hroom)
  rw [if_neg hroom]
  by_cases hgran : (readRaw block pos).mGranularity = 0
  · rw [if_pos hgran]
    exact Triple.raise fun _ _ h => h.granularity hgran
  rw [if_neg hgran]
  refine Triple.bind ((moveToMemory_spec heap _ (i := 0)).conseq (fun _ hs => hs)
    (fun _ _ hs => hs) fun t ht h => ht h.readable) fun r => Triple.ret fun t ht => ?_
  obtain ⟨rfl, hreadable, htable⟩ := ht
  refine ⟨rfl, ⟨not_not.mp hsize, Nat.not_lt.mp hroom, hgran, hreadable⟩, ?_⟩
  rw [htable]
  rfl

theorem loadElements_spec (hext : formatExtensionOffset d.hdr0 ≠ 0) (n : ℕ) {h : ℕ}
    (hfuel : blockSize d.hdr0 < h + elementBytes * n) :
    Triple (fun s => s = d) (loadElements heap (blockSize d.hdr0) block n h ctx)
      (fun ctx' s => s = d ∧ ∃ rs,
        Elements (blockSize d.hdr0) d.hdr0.mSizeInSectorsV2 d.file block h rs ∧
        ctx'.raw = (rs.getLast?.map fun r => r.inMemory heap d.file (blockSize d.hdr0)).or ctx.raw)
      (fun _ => ∀ rs, ¬ Elements (blockSize d.hdr0) d.hdr0.mSizeInSectorsV2 d.file block h rs) := by
  induction n generalizing h ctx with
  | zero =>
      refine Triple.raise fun _ _ rs hrs => ?_
      have hlt : blockSize d.hdr0 < h := by simpa using hfuel
      cases hrs <;> omega
  | succ n ih =>
      unfold loadElements
      dsimp only
      by_cases hroom : blockSize d.hdr0 < h + elementBytes ∨
          blockSize d.hdr0 < h + elementBytes + (rd32 block (h + 16)).toNat
      · rw [if_pos hroom]
        refine Triple.raise fun _ _ rs hrs => ?_
        cases hrs <;> omega
      rw [if_neg hroom]
      obtain ⟨-, hroom⟩ := not_or.mp hroom
      rw [not_lt] at hroom
      by_cases hstop : rd64 block h = 0
      · rw [if_pos hstop]
        exact Triple.ret fun s hs => ⟨hs, [], .stop hroom hstop, rfl⟩
      rw [if_neg hstop]
      have hnext : blockSize d.hdr0 <
          h + elementBytes + (rd32 block (h + 16)).toNat + elementBytes * n := by
        rw [Nat.mul_succ] at hfuel
        omega
      by_cases hmagic : rd64 block h = extMagicDirtyBitmap
      · rw [if_pos hmagic]
        refine Triple.bind ((loadDirtyBitmap_spec hext).conseq (fun _ hs => hs) (fun _ _ hs => hs)
          fun s hs rs hrs => ?_) fun ctx' => Triple.start fun s hs => ?_
        · cases hrs with
          | stop _ hzero => exact hstop hzero
          | other _ _ hother => exact hother hmagic
          | bitmap _ _ hload => exact hs hload
        · obtain ⟨rfl, hload, hraw⟩ := hs
          refine (ih hnext).conseq (fun _ hs => hs) (fun ctx'' t ht => ?_) fun t ht rs hrs => ?_
          · obtain ⟨rfl, rs, hrs, hlast⟩ := ht
            refine ⟨rfl, _, .bitmap hroom hmagic hload hrs, ?_⟩
            rw [hlast, hraw, List.getLast?_cons]
            cases rs.getLast? <;> rfl
          · cases hrs with
            | stop _ hzero => exact hstop hzero
            | other _ _ hother => exact hother hmagic
            | bitmap _ _ _ hrest => exact ht _ hrest
      · rw [if_neg hmagic, pure_bind]
        refine (ih hnext).conseq (fun _ hs => hs) (fun ctx' t ht => ?_) fun t ht rs hrs => ?_
        · obtain ⟨rfl, rs, hrs, hlast⟩ := ht
          exact ⟨rfl, rs, .other hroom hstop hmagic hrs, hlast⟩
        · cases hrs with
          | stop _ hzero => exact hstop hzero
          | other _ _ _ hrest => exact ht _ hrest
          | bitmap _ hbitmap => exact hmagic hbitmap

end Load

end Ploop.Cbt
