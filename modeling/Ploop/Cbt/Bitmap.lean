import Ploop.Cbt.Extension
import Ploop.Image.Held

/-!
# Tables of a bitmap

What an entry of the table says about its block of the bitmap, in a file and in
memory, and that the loops of saving and loading keep it.
-/

namespace Ploop.Cbt

open Storage Program

/-! ## Constant blocks -/

theorem rd64_eq (m : ℕ → UInt8) (off : ℕ) : rd64 m off =
    (m (off + 0)).toNat + 2 ^ 8 * (m (off + 1)).toNat + 2 ^ 16 * (m (off + 2)).toNat +
      2 ^ 24 * (m (off + 3)).toNat + 2 ^ 32 * (m (off + 4)).toNat +
      2 ^ 40 * (m (off + 5)).toNat + 2 ^ 48 * (m (off + 6)).toNat +
      2 ^ 56 * (m (off + 7)).toNat := by
  have h (i : ℕ) : (m i).toNat < 256 := (m i).toNat_lt
  have h₀ := h (off + 0)
  have h₁ := h (off + 1)
  have h₂ := h (off + 2)
  have h₃ := h (off + 3)
  have h₄ := h (off + 4)
  have h₅ := h (off + 5)
  have h₆ := h (off + 6)
  have h₇ := h (off + 7)
  simp only [rd64, rd32, le32, UInt32.toNat_ofNat', add_assoc, Nat.reduceAdd, Nat.add_zero] at *
  omega

/-- A 64-bit word of zeros or of ones is made of such bytes. -/
theorem byte_of_rd64 {m : ℕ → UInt8} {off r : ℕ} {v : Bool}
    (h : rd64 m off = if v then 2 ^ 64 - 1 else 0) (hr : r < 8) :
    m (off + r) = if v then 0xff else 0 := by
  have hb (i : ℕ) : (m i).toNat < 256 := (m i).toNat_lt
  have h₀ := hb (off + 0)
  have h₁ := hb (off + 1)
  have h₂ := hb (off + 2)
  have h₃ := hb (off + 3)
  have h₄ := hb (off + 4)
  have h₅ := hb (off + 5)
  have h₆ := hb (off + 6)
  have h₇ := hb (off + 7)
  rw [rd64_eq] at h
  apply UInt8.toNat.inj
  cases v with
  | true =>
      simp only [if_true] at h ⊢
      change _ = 255
      interval_cases r <;> omega
  | false =>
      simp only [Bool.false_eq_true, if_false] at h ⊢
      change _ = 0
      interval_cases r <;> omega

theorem isConstBit_some {data : ℕ → UInt8} {size : ℕ} {v : Bool}
    (h : isConstBit data size = some v) {i : ℕ} (hi : i < size) :
    data i = if v then 0xff else 0 := by
  have hpos : 0 < size := by omega
  unfold isConstBit at h
  generalize hn : (if 8 < size then (size - 1) / 8 else 0) = n at h
  dsimp only at h
  split_ifs at h with hfirst hwide heq
  obtain rfl := Option.some.inj h
  obtain ⟨hwords, hbytes⟩ := heq
  -- the first byte is all zeros or all ones, and every byte equals it
  have hval : data 0 = if decide (data 0 ≠ 0) = true then 0xff else 0 := by
    by_cases h0 : data 0 = 0
    · simp [h0]
    · simp only [ne_eq, h0, not_false_eq_true, true_and, not_not] at hfirst
      simp [hfirst]
  rw [← hval]
  by_cases hlt : i < 8 * n
  · have hsize : 8 < size := by
      by_contra hc
      rw [if_neg hc] at hn
      omega
    have hword : rd64 data 0 = if decide (data 0 ≠ 0) = true then 2 ^ 64 - 1 else 0 := by
      have hcase : rd64 data 0 = 0 ∨ rd64 data 0 = 2 ^ 64 - 1 := by
        by_contra hc
        exact hwide ⟨hsize, not_or.mp hc⟩
      rcases hcase with hz | ho
      · have h0 : data (0 + 0) = 0 :=
          byte_of_rd64 (v := false) (by rw [hz]; rfl) (by norm_num)
        rw [hz]
        simp [show data 0 = 0 from h0]
      · have h0 : data (0 + 0) = 0xff :=
          byte_of_rd64 (v := true) (by rw [ho]; rfl) (by norm_num)
        rw [ho]
        simp [show data 0 = 0xff from h0]
    have hq := hwords (i / 8) (by omega)
    rw [hword] at hq
    have hbyte := byte_of_rd64 hq (r := i % 8) (Nat.mod_lt _ (by norm_num))
    rwa [Nat.div_add_mod, ← hval] at hbyte
  · have hle := hbytes (i - 8 * n) (by omega)
    rwa [Nat.add_sub_cancel' (by omega)] at hle

/-! ## Entries -/

/-- All bits of block `i` of `b`, which has `cur` bytes, are `v`. -/
def ConstBlock (b : ℕ → Bool) (bs i cur : ℕ) (v : Bool) : Prop :=
  ∀ t < cur, packByte b (i * bs + t) = if v then 0xff else 0

/-- The entry of block `i` in the file `f`, below byte `n`. -/
inductive Stored (b : ℕ → Bool) (bs : ℕ) (f : File) (n i cur : ℕ) : ℕ → Prop
  | const {v : Bool} (h : ConstBlock b bs i cur v) : Stored b bs f n i cur v.toNat
  | block {v : ℕ} (hv : 1 < v) (hlt : v * sectorSize < 2 ^ 63) (hend : v * sectorSize + cur ≤ n)
      (h : ∀ t < cur, f.byte (v * sectorSize + t) = packByte b (i * bs + t)) :
      Stored b bs f n i cur v

/-- The entry of block `i` in memory. -/
inductive MemStored (b : ℕ → Bool) (bs i cur : ℕ) : MemEntry → Prop
  | const {v : Bool} (h : ConstBlock b bs i cur v) : MemStored b bs i cur (.const v)
  | block {m : ℕ → UInt8} (h : ∀ t < cur, m t = packByte b (i * bs + t)) :
      MemStored b bs i cur (.block m)

/-- A table from its entry `i` on, with `bytes` bytes of the bitmap to go. -/
def TableOf {α : Type} (P : ℕ → ℕ → α → Prop) (bs : ℕ) : ℕ → ℕ → List α → Prop
  | _, _, [] => True
  | i, bytes, v :: vs => P i (min bs bytes) v ∧ TableOf P bs (i + 1) (bytes - min bs bytes) vs

namespace TableOf

variable {α : Type} {P Q : ℕ → ℕ → α → Prop} {bs i bytes : ℕ} {l : List α}

theorem succ_index (i bytes j : ℕ) : i + 1 + j = i + (j + 1) ∧
    min bs (bytes - min bs bytes - j * bs) = min bs (bytes - (j + 1) * bs) := by
  rw [Nat.succ_mul]
  omega

theorem get (h : TableOf P bs i bytes l) {j : ℕ} {v : α} (hj : l[j]? = some v) :
    P (i + j) (min bs (bytes - j * bs)) v := by
  induction l generalizing i bytes j with
  | nil => simp at hj
  | cons u us ih =>
      cases j with
      | zero =>
          obtain rfl : u = v := by simpa using hj
          simpa using h.1
      | succ j =>
          have hrest := ih h.2 (j := j) (by simpa using hj)
          obtain ⟨hi, hcur⟩ := @succ_index bs i bytes j
          rwa [hi, hcur] at hrest

theorem of_get (h : ∀ j v, l[j]? = some v → P (i + j) (min bs (bytes - j * bs)) v) :
    TableOf P bs i bytes l := by
  induction l generalizing i bytes with
  | nil => trivial
  | cons u us ih =>
      refine ⟨by simpa using h 0 u rfl, ih fun j v hj => ?_⟩
      obtain ⟨hi, hcur⟩ := @succ_index bs i bytes j
      rw [hi, hcur]
      exact h (j + 1) v hj

theorem mono (hPQ : ∀ i cur v, P i cur v → Q i cur v) (h : TableOf P bs i bytes l) :
    TableOf Q bs i bytes l :=
  of_get fun _ _ hj => hPQ _ _ _ (h.get hj)

end TableOf

/-- The file has not shrunk, and only its header and what lies from byte `n` on
may be another one. -/
structure Kept (n : ℕ) (f f' : File) : Prop where
  size : f.size ≤ f'.size
  byte : ∀ i, headerBytes ≤ i → i < n → f'.byte i = f.byte i

theorem Kept.refl (n : ℕ) (f : File) : Kept n f f := ⟨le_rfl, fun _ _ _ => rfl⟩

theorem Kept.trans {n n' : ℕ} {f f' f'' : File} (h : Kept n f f') (h' : Kept n' f' f'')
    (hn : n ≤ n') : Kept n f f'' where
  size := h.size.trans h'.size
  byte i h₁ h₂ := (h'.byte i h₁ (h₂.trans_le hn)).trans (h.byte i h₁ h₂)

theorem kept_pwrite {n : ℕ} {f : File} {w : Write} (h : n ≤ w.off ∨ w.off + w.len ≤ headerBytes) :
    Kept n f (f.pwrite w) where
  size := f.le_size_pwrite w
  byte i h₁ h₂ := by
    rw [File.byte_pwrite]
    exact overlay_of_not_mem (by omega)

/-- Blocks of the bitmap lie behind the header. -/
theorem Stored.kept {b : ℕ → Bool} {bs i cur v n n' : ℕ} {f f' : File} (hf : Kept n f f')
    (hn : n ≤ n') (h : Stored b bs f n i cur v) : Stored b bs f' n' i cur v := by
  cases h with
  | const h => exact .const h
  | block hv hlt hend h =>
      refine .block hv hlt (hend.trans hn) fun t ht => ?_
      rw [hf.byte _ (by simp only [headerBytes, sectorSize] at *; omega) (by omega)]
      exact h t ht

/-! ## Where blocks go -/

/-- A file to which blocks of `bs` bytes are appended one after the other. -/
structure Sink (σ : Type) (bs : ℕ) where
  file : σ → File
  place : σ → ℕ
  put : σ → (ℕ → UInt8) → σ
  file_put : ∀ s m, file (put s m) = (file s).pwrite ⟨place s, bs, m⟩
  place_put : ∀ s m, place (put s m) = place s + bs

namespace Sink

variable {σ : Type} {bs : ℕ} (S : Sink σ bs)

def puts (s : σ) (ms : List (ℕ → UInt8)) : σ := ms.foldl S.put s

theorem place_puts (s : σ) (ms : List (ℕ → UInt8)) :
    S.place (S.puts s ms) = S.place s + ms.length * bs := by
  induction ms generalizing s with
  | nil => simp [puts]
  | cons m ms ih =>
      have h := ih (S.put s m)
      rw [S.place_put] at h
      simp only [puts, List.foldl_cons, List.length_cons, Nat.succ_mul] at *
      omega

theorem kept_puts (s : σ) (ms : List (ℕ → UInt8)) :
    Kept (S.place s) (S.file s) (S.file (S.puts s ms)) := by
  induction ms generalizing s with
  | nil => exact Kept.refl _ _
  | cons m ms ih =>
      have hput : Kept (S.place s) (S.file s) (S.file (S.put s m)) := by
        rw [S.file_put]
        exact kept_pwrite (.inl le_rfl)
      exact hput.trans (ih _) (by rw [S.place_put]; exact Nat.le_add_right _ _)

end Sink

/-- The end of an image's own file. -/
def deltaSink {bs : ℕ} (hbs : 0 < bs) : Sink Delta bs where
  file := Delta.file
  place d := d.file.size
  put d m := d.write ⟨d.file.size, bs, m⟩
  file_put _ _ := Delta.file_write _ _
  place_put d m := by
    rw [Delta.file_write, File.size_pwrite, if_neg hbs.ne']
    simp

theorem hdr0_puts {bs : ℕ} (hbs : 0 < bs) (d : Delta) (ms : List (ℕ → UInt8)) :
    ((deltaSink hbs).puts d ms).hdr0 = d.hdr0 := by
  induction ms generalizing d with
  | nil => rfl
  | cons m ms ih => exact ih _

/-! ## Saving -/

/-- What the buffer holds when `save_dirty_bitmap` looks at block `i`. -/
def bitmapBuffer (b : ℕ → Bool) (bs bytes : ℕ) (heap : ℕ → UInt8) : ℕ → ℕ → UInt8
  | 0 => overlay heap 0 (min bs bytes) (packByte b)
  | i + 1 => overlay (bitmapBuffer b bs bytes heap i) 0 (min bs (bytes - (i + 1) * bs)) fun j =>
      packByte b ((i + 1) * bs + j)

/-- The buffer before that. -/
def bufferBefore (b : ℕ → Bool) (bs bytes : ℕ) (heap : ℕ → UInt8) : ℕ → ℕ → UInt8
  | 0 => heap
  | i + 1 => bitmapBuffer b bs bytes heap i

section Save

variable {b : ℕ → Bool} {bs bytes : ℕ} {heap : ℕ → UInt8} {old : ℕ → UInt32}

theorem bitmapBuffer_eq (i : ℕ) : bitmapBuffer b bs bytes heap i =
    overlay (bufferBefore b bs bytes heap i) 0 (min bs (bytes - i * bs)) fun j =>
      packByte b (i * bs + j) := by
  cases i with
  | zero => simp [bitmapBuffer, bufferBefore]
  | succ i => rfl

theorem bitmapBuffer_byte {i t : ℕ} (ht : t < min bs (bytes - i * bs)) :
    bitmapBuffer b bs bytes heap i t = packByte b (i * bs + t) := by
  rw [bitmapBuffer_eq, overlay_of_mem (Nat.zero_le t) (by omega), Nat.sub_zero]

theorem constBlock_of_isConstBit {i : ℕ} {v : Bool}
    (h : isConstBit (bitmapBuffer b bs bytes heap i) (min bs (bytes - i * bs)) = some v) :
    ConstBlock b bs i (min bs (bytes - i * bs)) v := by
  intro t ht
  rw [← @bitmapBuffer_byte b bs bytes heap i t ht]
  exact isConstBit_some h ht

/-- The entry `save_dirty_bitmap` leaves for block `i`. -/
def Written (b : ℕ → Bool) (bs bytes : ℕ) (heap : ℕ → UInt8) (old : ℕ → UInt32) (f : File) (n : ℕ)
    (i cur v : ℕ) : Prop :=
  match isConstBit (bitmapBuffer b bs bytes heap i) cur with
  | some c => v = c.toNat + 2 ^ 32 * (old (l1Word i + 1)).toNat
  | none => Stored b bs f n i cur v ∧ 1 < v

theorem Written.kept {f f' : File} {n n' i cur v : ℕ} (hf : Kept n f f') (hn : n ≤ n')
    (h : Written b bs bytes heap old f n i cur v) : Written b bs bytes heap old f' n' i cur v := by
  unfold Written at *
  split at h
  · exact h
  · exact ⟨h.1.kept hf hn, h.2⟩

/-- In a cleared buffer nothing is left beside a constant. -/
theorem Written.stored {f : File} {n i v : ℕ} (hold : ∀ j, old j = 0)
    (h : Written b bs bytes heap old f n i (min bs (bytes - i * bs)) v) :
    Stored b bs f n i (min bs (bytes - i * bs)) v := by
  unfold Written at h
  split at h
  · rename_i c hc
    rw [hold, UInt32.toNat_zero, Nat.mul_zero, Nat.add_zero] at h
    rw [h]
    exact .const (constBlock_of_isConstBit hc)
  · exact h.1

section Sink

variable {σ : Type} (S : Sink σ bs)

/-- `n` blocks can be appended. -/
structure Room (n : ℕ) (s : σ) : Prop where
  aligned : sectorSize ∣ S.place s
  lo : 2 * sectorSize ≤ S.place s
  hi : S.place s + n * bs < 2 ^ 63

/-- What saving a part of a table leaves. -/
structure Saved (P : File → ℕ → ℕ → ℕ → ℕ → Prop) (s₀ : σ) (i rem n : ℕ) (l : List ℕ) (s : σ) :
    Prop where
  puts : ∃ ms, s = S.puts s₀ ms ∧ ms.length ≤ n
  length : l.length = n
  table : TableOf (P (S.file s) (S.place s)) bs i rem l

variable {S} {P : File → ℕ → ℕ → ℕ → ℕ → Prop} {i rem n : ℕ} {l : List ℕ} {s s' : σ}

theorem Room.pred (h : Room S (n + 1) s) : Room S n s where
  aligned := h.aligned
  lo := h.lo
  hi := by
    have := h.hi
    rw [Nat.succ_mul] at this
    omega

theorem Room.put (h : Room S (n + 1) s) (hsec : sectorSize ∣ bs) (m : ℕ → UInt8) :
    Room S n (S.put s m) where
  aligned := by
    rw [S.place_put]
    exact (Nat.dvd_add_right h.aligned).mpr hsec
  lo := by
    rw [S.place_put]
    exact h.lo.trans (Nat.le_add_right _ _)
  hi := by
    have := h.hi
    rw [Nat.succ_mul] at this
    rw [S.place_put]
    omega

/-- A block that is appended is stored. -/
theorem Room.stored (h : Room S (n + 1) s) {m : ℕ → UInt8} {cur : ℕ} (hcur : cur ≤ bs)
    (hm : ∀ t < cur, m t = packByte b (i * bs + t)) :
    Stored b bs (S.file (S.put s m)) (S.place (S.put s m)) i cur (S.place s / sectorSize) ∧
      1 < S.place s / sectorSize := by
  have hoff : S.place s / sectorSize * sectorSize = S.place s := Nat.div_mul_cancel h.aligned
  have hlt : 1 < S.place s / sectorSize :=
    (Nat.le_div_iff_mul_le (by norm_num [sectorSize])).mpr h.lo
  refine ⟨.block hlt ?_ ?_ fun t ht => ?_, hlt⟩
  · have := h.hi
    omega
  · rw [hoff, S.place_put]
    omega
  · rw [hoff, S.file_put, File.byte_pwrite, overlay_of_mem (by simp) (by simp; omega)]
    simpa using hm t ht

theorem Saved.nil : Saved S P s i rem 0 [] s where
  puts := ⟨[], rfl, le_rfl⟩
  length := rfl
  table := trivial

/-- An entry that needs no block. -/
theorem Saved.consConst {v : ℕ} (h : Saved S P s (i + 1) (rem - min bs rem) n l s')
    (hv : P (S.file s') (S.place s') i (min bs rem) v) :
    Saved S P s i rem (n + 1) (v :: l) s' where
  puts := by
    obtain ⟨ms, hms, hlen⟩ := h.puts
    exact ⟨ms, hms, hlen.trans (Nat.le_succ n)⟩
  length := congrArg Nat.succ h.length
  table := ⟨hv, h.table⟩

/-- An entry with a block of its own. -/
theorem Saved.consBlock {v : ℕ} {m : ℕ → UInt8}
    (hkept : ∀ {f f' n n' i cur v}, Kept n f f' → n ≤ n' → P f n i cur v → P f' n' i cur v)
    (h : Saved S P (S.put s m) (i + 1) (rem - min bs rem) n l s')
    (hv : P (S.file (S.put s m)) (S.place (S.put s m)) i (min bs rem) v) :
    Saved S P s i rem (n + 1) (v :: l) s' := by
  obtain ⟨ms, rfl, hlen⟩ := h.puts
  refine ⟨⟨m :: ms, rfl, Nat.succ_le_succ hlen⟩, congrArg Nat.succ h.length, ?_, h.table⟩
  refine hkept (S.kept_puts _ ms) ?_ hv
  rw [S.place_puts]
  exact Nat.le_add_right _ _

variable (hsec : sectorSize ∣ bs) (wr : ℕ → (ℕ → UInt8) → EStateM Sysexit σ Unit)
  (hwr : ∀ s m, wr (S.place s) m s = .ok () (S.put s m))

include hsec hwr

theorem saveBlocks_spec (k : KernelCbt) (bytes : ℕ) (heap : ℕ → UInt8) (old : ℕ → UInt32) (n : ℕ)
    {i : ℕ} {s : σ} (h : Room S n s) :
    Triple (fun t => t = s)
      (saveBlocks k bs old wr n i (S.place s) (bytes - i * bs)
        (bufferBefore k.dirty bs bytes heap i))
      (Saved S (Written k.dirty bs bytes heap old) s i (bytes - i * bs) n) (fun _ => False) := by
  induction n generalizing i s with
  | zero =>
      refine Triple.ret ?_
      rintro _ rfl
      exact Saved.nil
  | succ n ih =>
      have hrem : bytes - i * bs - min bs (bytes - i * bs) = bytes - (i + 1) * bs := by
        rw [Nat.succ_mul]
        omega
      unfold saveBlocks
      dsimp only
      rw [← bitmapBuffer_eq, hrem]
      cases hconst : isConstBit (bitmapBuffer k.dirty bs bytes heap i)
          (min bs (bytes - i * bs)) with
      | some v =>
          refine Triple.bind (ih (i := i + 1) h.pred) fun rest => Triple.ret fun t ht => ?_
          rw [← hrem] at ht
          refine ht.consConst ?_
          simp only [Written, hconst]
      | none =>
          refine Triple.bind (R := fun _ t => t = S.put s (bitmapBuffer k.dirty bs bytes heap i))
            (fun t ht => ?_) fun _ => ?_
          · rw [ht, hwr]
          have hnext := ih (i := i + 1) (h.put hsec (bitmapBuffer k.dirty bs bytes heap i))
          rw [S.place_put] at hnext
          refine Triple.bind hnext fun rest => Triple.ret fun t ht => ?_
          rw [← hrem] at ht
          refine ht.consBlock Written.kept ?_
          simp only [Written, hconst]
          exact h.stored (min_le_left _ _) fun t ht => bitmapBuffer_byte ht

end Sink

theorem saveFromRaw_spec (hbs : 0 < bs) (hsec : sectorSize ∣ bs) (es : List MemEntry) {i rem : ℕ}
    {d : Delta} (h : Room (deltaSink hbs) es.length d)
    (hes : TableOf (MemStored b bs) bs i rem es) :
    Triple (fun s => s = d) (saveFromRaw bs d.file.size es)
      (Saved (deltaSink hbs) (Stored b bs) d i rem es.length) (fun _ => False) := by
  induction es generalizing i rem d with
  | nil =>
      refine Triple.ret ?_
      rintro _ rfl
      exact Saved.nil
  | cons e es ih =>
      obtain ⟨he, hes⟩ := hes
      cases he with
      | const hv =>
          refine Triple.bind (ih h.pred hes) fun rest => Triple.ret fun s hs => ?_
          exact hs.consConst (.const hv)
      | @block m hm =>
          refine Triple.bind (R := fun _ s => s = (deltaSink hbs).put d m)
            (Triple.update fun s hs => by rw [hs]; rfl) fun _ => ?_
          have hnext := ih (h.put hsec m) hes
          have hplace : ((deltaSink hbs).put d m).file.size = d.file.size + bs :=
            (deltaSink hbs).place_put d m
          rw [hplace] at hnext
          refine Triple.bind hnext fun rest => Triple.ret fun s hs => ?_
          exact hs.consBlock Stored.kept (h.stored (min_le_left _ _) hm).1

end Save

/-! ## Loading -/

section Load

variable {b : ℕ → Bool} {bs : ℕ}

theorem pread_inside {err : Sysexit} {len off : ℕ} {d : Delta} (hend : off + len ≤ d.file.size) :
    Triple (fun s => s = d) (pread err len off)
      (fun m s => s = d ∧ m = fun i => d.file.byte (off + i)) (fun _ => False) :=
  (pread_returns d err len off).conseq (fun _ hs => hs) (fun _ _ hs => ⟨hs.1, hs.2.2⟩)
    fun _ hs => absurd hend (Nat.not_le.mpr hs.2)

end Load

/-! ## Granules -/

section Granules

variable {b : ℕ → Bool} {bs i cur g : ℕ}

/-- Where granule `g` lies in its block. -/
theorem granule_split (bs g : ℕ) : g / (8 * bs) = g / 8 / bs ∧
    g % (8 * bs) / 8 = g / 8 % bs ∧ g % (8 * bs) % 8 = g % 8 ∧
    g / 8 / bs * bs + g / 8 % bs = g / 8 :=
  ⟨(Nat.div_div_eq_div_mul g 8 bs).symm, Nat.mod_mul_right_div_self g 8 bs,
    Nat.mod_mod_of_dvd g (Nat.dvd_mul_right 8 bs), Nat.div_add_mod' (g / 8) bs⟩

theorem ConstBlock.bit {v : Bool} (h : ConstBlock b bs (g / (8 * bs)) cur v)
    (hcur : g / 8 % bs < cur) : b g = v := by
  obtain ⟨hdiv, -, -, hsplit⟩ := granule_split bs g
  have hbyte := h _ hcur
  rw [hdiv, hsplit] at hbyte
  have hbound : g % 8 < 8 := Nat.mod_lt _ (by norm_num)
  rw [← testBit_packByte b g]
  simp only [testBit, hbyte]
  cases v with
  | true =>
      change (255 : ℕ).testBit (g % 8) = true
      interval_cases g % 8 <;> rfl
  | false => exact Nat.zero_testBit _

/-- A block that has the bytes of the bitmap has its bits. -/
theorem testBit_block {m : ℕ → UInt8}
    (h : ∀ t < cur, m t = packByte b (g / (8 * bs) * bs + t)) (hcur : g / 8 % bs < cur) :
    testBit m (g % (8 * bs)) = b g := by
  obtain ⟨hdiv, hmod, hbit, hsplit⟩ := granule_split bs g
  have hbyte := h _ hcur
  rw [hdiv, hsplit, ← hmod] at hbyte
  rw [← testBit_packByte b g]
  exact testBit_congr hbyte hbit

/-- Every granule lies in a block of the table. -/
theorem granule_lt {bytes : ℕ} (hbs : 0 < bs) (hg : g < 8 * bytes) :
    g / (8 * bs) < (bytes + bs - 1) / bs ∧
      g / 8 % bs < min bs (bytes - g / (8 * bs) * bs) := by
  obtain ⟨hdiv, -, -, hsplit⟩ := granule_split bs g
  have hlt : g / 8 % bs < bs := Nat.mod_lt _ hbs
  rw [hdiv]
  constructor
  · rw [Nat.div_lt_iff_lt_mul hbs]
    have hle := le_alignUp (x := bytes) hbs
    unfold alignUp at hle
    omega
  · omega

/-- A granule whose entry is in the table. -/
theorem dirty_of_entry {bytes : ℕ} {raw : DirtyBitmapRaw MemEntry} (hbs : 0 < bs)
    (hj : g / (8 * bs) < raw.mL1.length) (h : TableOf (MemStored b bs) bs 0 bytes raw.mL1)
    (hg : g < 8 * bytes) : raw.dirty bs g = b g := by
  have hcur := (granule_lt hbs hg).2
  have hentry := h.get (List.getElem?_eq_getElem hj)
  rw [Nat.zero_add] at hentry
  unfold DirtyBitmapRaw.dirty
  rw [List.getElem?_eq_getElem hj]
  generalize raw.mL1[g / (8 * bs)] = e at hentry
  cases hentry with
  | const hv => exact (hv.bit hcur).symm
  | block hm => exact testBit_block hm hcur

theorem dirty_of_table {bytes : ℕ} {raw : DirtyBitmapRaw MemEntry} (hbs : 0 < bs)
    (hlen : raw.mL1.length = (bytes + bs - 1) / bs)
    (h : TableOf (MemStored b bs) bs 0 bytes raw.mL1) (hg : g < 8 * bytes) :
    raw.dirty bs g = b g := by
  have hj := (granule_lt hbs hg).1
  rw [← hlen] at hj
  exact dirty_of_entry hbs hj h hg

end Granules

end Ploop.Cbt
