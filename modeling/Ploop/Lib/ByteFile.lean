import Mathlib.Tactic

/-!
# Files of bytes

A file is a length and a content that is zero past its end. Writing at an
offset beyond the end leaves a hole of zeros. Little-endian words are read
out of the bytes, and a buffer of words is written back byte by byte.
-/

namespace Storage

/-- Replace the `len` positions of `f` from `off` on by those of `src`. -/
def overlay {β : Type*} (f : ℕ → β) (off len : ℕ) (src : ℕ → β) : ℕ → β :=
  fun i => if off ≤ i ∧ i < off + len then src (i - off) else f i

section Overlay

variable {β : Type*} {f src : ℕ → β} {off len i : ℕ}

theorem overlay_of_mem (h₁ : off ≤ i) (h₂ : i < off + len) :
    overlay f off len src i = src (i - off) := by
  simp [overlay, h₁, h₂]

theorem overlay_of_lt (h : i < off) : overlay f off len src i = f i := by
  simp [overlay, Nat.not_le.mpr h]

theorem overlay_of_ge (h : off + len ≤ i) : overlay f off len src i = f i := by
  simp [overlay, Nat.not_lt.mpr h]

theorem overlay_of_not_mem (h : i < off ∨ off + len ≤ i) :
    overlay f off len src i = f i :=
  h.elim overlay_of_lt overlay_of_ge

end Overlay

/-! ## Words and bytes -/

def le32 (b₀ b₁ b₂ b₃ : UInt8) : UInt32 :=
  UInt32.ofNat (b₀.toNat + 256 * b₁.toNat + 65536 * b₂.toNat + 16777216 * b₃.toNat)

def byteOf (w : UInt32) (k : ℕ) : UInt8 := UInt8.ofNat (w.toNat / 256 ^ k)

@[simp] theorem le32_byteOf (w : UInt32) :
    le32 (byteOf w 0) (byteOf w 1) (byteOf w 2) (byteOf w 3) = w := by
  have hw := w.toNat_lt
  apply UInt32.toNat.inj
  simp only [le32, byteOf, UInt32.toNat_ofNat', UInt8.toNat_ofNat']
  norm_num
  omega

theorem le32_inj {a₀ a₁ a₂ a₃ b₀ b₁ b₂ b₃ : UInt8} (h : le32 a₀ a₁ a₂ a₃ = le32 b₀ b₁ b₂ b₃) :
    a₀ = b₀ ∧ a₁ = b₁ ∧ a₂ = b₂ ∧ a₃ = b₃ := by
  have ha₀ := a₀.toNat_lt
  have ha₁ := a₁.toNat_lt
  have ha₂ := a₂.toNat_lt
  have ha₃ := a₃.toNat_lt
  have hb₀ := b₀.toNat_lt
  have hb₁ := b₁.toNat_lt
  have hb₂ := b₂.toNat_lt
  have hb₃ := b₃.toNat_lt
  have hnat := congrArg UInt32.toNat h
  simp only [le32, UInt32.toNat_ofNat'] at hnat
  simp only [← UInt8.toNat_inj]
  omega

@[simp] theorem le32_zero : le32 0 0 0 0 = 0 := rfl

/-- The bytes of a buffer of words. -/
def wordBytes (src : ℕ → UInt32) : ℕ → UInt8 := fun j => byteOf (src (j / 4)) (j % 4)

/-- The words of a buffer of bytes. -/
def bytesWord (buf : ℕ → UInt8) : ℕ → UInt32 := fun i =>
  le32 (buf (4 * i)) (buf (4 * i + 1)) (buf (4 * i + 2)) (buf (4 * i + 3))

@[simp] theorem bytesWord_wordBytes (src : ℕ → UInt32) : bytesWord (wordBytes src) = src := by
  funext i
  have h (k : ℕ) (hk : k < 4) : wordBytes src (4 * i + k) = byteOf (src i) k := by
    have hd : (4 * i + k) / 4 = i := by omega
    have hm : (4 * i + k) % 4 = k := by omega
    simp [wordBytes, hd, hm]
  have h₀ := h 0 (by omega)
  rw [Nat.add_zero] at h₀
  simp [bytesWord, h₀, h 1 (by omega), h 2 (by omega), h 3 (by omega)]

theorem bytesWord_congr {a b : ℕ → UInt8} {i j : ℕ}
    (h : ∀ k < 4, a (4 * i + k) = b (4 * j + k)) : bytesWord a i = bytesWord b j := by
  have h₀ := h 0 (by omega)
  have h₁ := h 1 (by omega)
  have h₂ := h 2 (by omega)
  have h₃ := h 3 (by omega)
  simp only [Nat.add_zero] at h₀
  simp only [bytesWord, h₀, h₁, h₂, h₃]

/-- Equal words are made of equal bytes. -/
theorem eq_of_bytesWord {a b : ℕ → UInt8} {i : ℕ} (h : bytesWord a (i / 4) = bytesWord b (i / 4)) :
    a i = b i := by
  obtain ⟨h₀, h₁, h₂, h₃⟩ := le32_inj h
  have hi := Nat.div_add_mod i 4
  have hr := Nat.mod_lt i four_pos
  interval_cases hk : i % 4 <;> rw [← hi] <;> assumption
/-! ## Files -/

/-- A regular file. The content past the end is zero, so that a hole left by
a later write reads as zeros. -/
@[ext] structure File where
  size : ℕ
  byte : ℕ → UInt8
  eof : ∀ i, size ≤ i → byte i = 0

/-- One `pwrite` of `len` bytes. -/
structure Write where
  off : ℕ
  len : ℕ
  src : ℕ → UInt8

namespace File

def empty : File := ⟨0, fun _ => 0, fun _ _ => rfl⟩

instance : Inhabited File := ⟨empty⟩

def word (f : File) : ℕ → UInt32 := bytesWord f.byte

/-- A full read of `len` bytes; a short read gives `none`. -/
def pread (f : File) (len off : ℕ) : Option (ℕ → UInt8) :=
  if off + len ≤ f.size then some (fun i => f.byte (off + i)) else none

def pwrite (f : File) (w : Write) : File where
  size := if w.len = 0 then f.size else max f.size (w.off + w.len)
  byte := overlay f.byte w.off w.len w.src
  eof := by
    intro i hi
    split at hi
    · rename_i h0
      rw [overlay_of_not_mem (by omega)]
      exact f.eof i hi
    · rw [overlay_of_ge (by omega)]
      exact f.eof i (by omega)

def ftruncate (f : File) (n : ℕ) : File where
  size := n
  byte := fun i => if i < n then f.byte i else 0
  eof := by
    intro i hi
    simp [Nat.not_lt.mpr hi]

@[simp] theorem byte_pwrite (f : File) (w : Write) :
    (f.pwrite w).byte = overlay f.byte w.off w.len w.src := rfl

theorem size_pwrite (f : File) (w : Write) :
    (f.pwrite w).size = if w.len = 0 then f.size else max f.size (w.off + w.len) := rfl

theorem pwrite_congr (f : File) {off len : ℕ} {a b : ℕ → UInt8} (h : ∀ i < len, a i = b i) :
    f.pwrite ⟨off, len, a⟩ = f.pwrite ⟨off, len, b⟩ := by
  refine File.ext rfl (funext fun i => ?_)
  change overlay f.byte off len a i = overlay f.byte off len b i
  by_cases hi : off ≤ i ∧ i < off + len
  · rw [overlay_of_mem hi.1 hi.2, overlay_of_mem hi.1 hi.2]
    exact h _ (by omega)
  · rw [overlay_of_not_mem (by omega), overlay_of_not_mem (by omega)]

theorem le_size_pwrite (f : File) (w : Write) : f.size ≤ (f.pwrite w).size := by
  rw [size_pwrite]
  split <;> omega

theorem end_le_size_pwrite (f : File) {w : Write} (h : w.len ≠ 0) :
    w.off + w.len ≤ (f.pwrite w).size := by
  simp [size_pwrite, h]

theorem size_pwrite_le {f : File} {w : Write} (h : w.off + w.len ≤ f.size) :
    (f.pwrite w).size = f.size := by
  rw [size_pwrite]
  split <;> omega

@[simp] theorem size_ftruncate (f : File) (n : ℕ) : (f.ftruncate n).size = n := rfl

theorem byte_ftruncate_of_lt (f : File) {n i : ℕ} (h : i < n) :
    (f.ftruncate n).byte i = f.byte i := by
  simp [ftruncate, h]

/-- Writing back what was read. -/
theorem pwrite_self (f : File) {len off : ℕ} (h : off + len ≤ f.size) :
    f.pwrite ⟨off, len, fun i => f.byte (off + i)⟩ = f := by
  have hsize : (f.pwrite ⟨off, len, fun i => f.byte (off + i)⟩).size = f.size := by
    rw [size_pwrite]
    split
    · rfl
    · exact max_eq_left h
  refine File.ext hsize (funext fun i => ?_)
  rw [byte_pwrite]
  by_cases hi : off ≤ i ∧ i < off + len
  · rw [overlay_of_mem hi.1 hi.2]
    exact congrArg f.byte (Nat.add_sub_cancel' hi.1)
  · have hout : i < off ∨ off + len ≤ i := by omega
    exact overlay_of_not_mem hout

theorem pread_eq_some {f : File} {len off : ℕ} {buf : ℕ → UInt8} :
    f.pread len off = some buf ↔ off + len ≤ f.size ∧ buf = fun i => f.byte (off + i) := by
  unfold pread
  split <;> simp_all [eq_comm]

/-- A word no byte of which is written keeps its value. -/
theorem word_pwrite_of_not_mem (f : File) {w : Write} {i : ℕ}
    (h : 4 * i + 4 ≤ w.off ∨ w.off + w.len ≤ 4 * i) : (f.pwrite w).word i = f.word i := by
  apply bytesWord_congr
  intro k hk
  rw [byte_pwrite, overlay_of_not_mem (by omega)]

theorem word_ftruncate_of_lt (f : File) {n i : ℕ} (h : 4 * i + 4 ≤ n) :
    (f.ftruncate n).word i = f.word i := by
  apply bytesWord_congr
  intro k hk
  exact f.byte_ftruncate_of_lt (by omega)

theorem word_eof (f : File) {i : ℕ} (h : f.size ≤ 4 * i) : f.word i = 0 := by
  simp [word, bytesWord, f.eof _ h, f.eof (4 * i + 1) (by omega), f.eof (4 * i + 2) (by omega),
    f.eof (4 * i + 3) (by omega)]

/-- A word of a buffer written at a word-aligned place. -/
theorem word_pwrite_of_mem (f : File) {w : Write} {o i : ℕ} (ho : w.off = 4 * o) (h₁ : o ≤ i)
    (h₂ : 4 * i + 4 ≤ w.off + w.len) : (f.pwrite w).word i = bytesWord w.src (i - o) := by
  apply bytesWord_congr
  intro k hk
  rw [byte_pwrite, overlay_of_mem (by omega) (by omega)]
  have hsub : 4 * i + k - w.off = 4 * (i - o) + k := by omega
  exact congrArg w.src hsub

end File

end Storage
