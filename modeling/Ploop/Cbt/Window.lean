import Mathlib.Data.List.TakeWhile
import Ploop.Cbt.Fill

/-!
# The bitmap of a window

`cbt_get_dirty_bitmap_part` asks the kernel for the extents of a window, up to 512 at a time, and
adds those that were kept in `or_data`. It begins there at the extent where the window before it
ended.
-/

namespace Ploop.Cbt

open Storage

/-- `struct cbt_data`, with the mapped extents as a list. -/
structure CbtData where
  ciExtents : List CbtExtent
  lastUsedExtentInd : ℕ
  le : lastUsedExtentInd ≤ ciExtents.length

/-- The extent before the one to resume at. -/
def CbtData.prev (d : CbtData) (h : 0 < d.lastUsedExtentInd) : CbtExtent :=
  d.ciExtents.get ⟨d.lastUsedExtentInd - 1, (Nat.sub_one_lt h.ne').trans_le d.le⟩

structure Window where
  offset : ℕ
  size : ℕ

section Part

variable (blkcbtget : ℕ → ℕ → Option (List CbtExtent)) (gran size offset : ℕ)

/-- `ci_end` -/
def ciEnd : ℕ := u64 (u64 (offset * gran) + u64 (size * gran))

/-- The loop over `BLKCBTGET`, which takes `ci_start` and `ci_length`. -/
def getLoop : ℕ → ℕ → ℕ → (ℕ → UInt8) → Option (Option Sysexit × (ℕ → UInt8))
  | 0, _, _, _ => none
  | fuel + 1, start, length, buf =>
      match blkcbtget start length with
      | none => some (some .devioc, buf)
      | some es =>
          let buf := es.foldl (setExtent gran size offset) buf
          let start := u64 (es.getLastD ⟨0, 0⟩).stop
          let length := u64 (ciEnd gran size offset + 2 ^ 64 - start)
          if es.length = cbtMaxExtents then getLoop fuel start length buf
          else some (none, buf)

/-- The extent with which the scan of `or_data` begins. -/
def orFirst (d : CbtData) : ℕ :=
  if h : 0 < d.lastUsedExtentInd then
    if u64 (d.prev h).stop ≤ u64 (offset * gran) then d.lastUsedExtentInd else 0
  else 0

/-- The extents of `or_data` from the first on that does not end before the window. -/
def orFrom (d : CbtData) : List CbtExtent :=
  (d.ciExtents.drop (orFirst gran offset d)).dropWhile
    fun cur => decide (u64 cur.stop ≤ u64 (offset * gran))

def beforeEnd (cur : CbtExtent) : Bool := cur.cePhysical < ciEnd gran size offset

/-- The part of the function that is for `or_data`. -/
def setOr (buf : ℕ → UInt8) (d : CbtData) : (ℕ → UInt8) × CbtData :=
  let cur := orFrom gran offset d
  let rest := cur.dropWhile (beforeEnd gran size offset)
  ((cur.takeWhile (beforeEnd gran size offset)).foldl (setExtent gran size offset) buf,
    ⟨d.ciExtents, u32 (d.ciExtents.length - rest.length),
      (Nat.mod_le _ _).trans (Nat.sub_le _ _)⟩)

/-- `cbt_get_dirty_bitmap_part` -/
def cbtGetDirtyBitmapPart (malloc : Bool) (fuel : ℕ) (buf : ℕ → UInt8) (orData : Option CbtData) :
    Option (Option Sysexit × (ℕ → UInt8) × Option CbtData) :=
  if malloc then
    match getLoop blkcbtget gran size offset fuel (u64 (offset * gran)) (u64 (size * gran))
        (fun t => if t < size / 8 then 0 else buf t) with
    | none => none
    | some (some ret, buf) => some (some ret, buf, orData)
    | some (none, buf) =>
        match orData with
        | none => some (none, buf, none)
        | some d =>
            let r := setOr gran size offset buf d
            some (none, r.1, some r.2)
  else some (some .malloc, buf, orData)

end Part

/-- Windows one after the other, with one buffer; what it held after each of them. -/
def getWindows (blkcbtget : ℕ → ℕ → Option (List CbtExtent)) (gran : ℕ) (malloc : Window → Bool)
    (fuel : ℕ) :
    List Window → (ℕ → UInt8) → Option CbtData → Option (Option Sysexit × List (ℕ → UInt8))
  | [], _, _ => some (none, [])
  | w :: ws, buf, orData =>
      match cbtGetDirtyBitmapPart blkcbtget gran w.size w.offset (malloc w) fuel buf orData with
      | none => none
      | some (some ret, _, _) => some (some ret, [])
      | some (none, buf, orData) =>
          (getWindows blkcbtget gran malloc fuel ws buf orData).map fun r => (r.1, buf :: r.2)

section Clear

inductive GetError where
  | malloc | nocbt | devioc

variable (blkcbtget : ℕ → ℕ → Option (List CbtExtent)) (einval : Bool) (realloc : ℕ → Bool)

/-- The loop of `cbt_get_and_clear`, with the extents found so far. -/
def getAndClearLoop : ℕ → ℕ → ℕ → List CbtExtent → Option (Except GetError CbtData)
  | 0, _, _, _ => none
  | fuel + 1, start, length, ext =>
      if realloc ext.length then
        match blkcbtget start length with
        | none => some (.error (if einval then .nocbt else .devioc))
        | some es =>
            let ext := ext ++ es
            let start := u64 (ext.getLastD ⟨0, 0⟩).stop
            let length := u64 (2 ^ 64 - 1 + 2 ^ 64 - start)
            if es.length = cbtMaxExtents then getAndClearLoop fuel start length ext
            else some (.ok ⟨ext, 0, Nat.zero_le _⟩)
      else some (.error .malloc)

/-- `cbt_get_and_clear` -/
def cbtGetAndClear (malloc : Bool) (fuel : ℕ) : Option (Except GetError CbtData) :=
  if malloc then getAndClearLoop blkcbtget einval realloc fuel 0 (2 ^ 64 - 1) []
  else some (.error .malloc)

end Clear

/-! ## What the kernel answers -/

/-- Some byte of the extent lies in `[start, stop)`. -/
def meets (start stop : ℕ) (e : CbtExtent) : Bool := max start e.cePhysical < min stop e.stop

/-- What the kernel tells about `k` when it is asked about `[start, stop)`: all of it that is in
there, and perhaps some more of it. -/
structure Piece (start stop : ℕ) (k e : CbtExtent) : Prop where
  le_first : k.cePhysical ≤ e.cePhysical
  last_le : e.stop ≤ k.stop
  first_le : e.cePhysical ≤ max start k.cePhysical
  le_last : min stop k.stop ≤ e.stop

/-- The dirty extents in order. -/
structure Listed (K : List CbtExtent) : Prop where
  nonempty : ∀ k ∈ K, k.cePhysical < k.stop
  lt : ∀ k ∈ K, k.stop < 2 ^ 64
  sorted : K.Pairwise fun k k' => k.stop ≤ k'.cePhysical

/-- Where `BLKCBTGET` succeeds it tells of the first 512 extents that meet the range. -/
def Answers (K : List CbtExtent) (blkcbtget : ℕ → ℕ → Option (List CbtExtent)) : Prop :=
  ∀ start length es, start < 2 ^ 64 → length < 2 ^ 64 → blkcbtget start length = some es →
    List.Forall₂ (Piece start (u64 (start + length)))
      ((K.filter (meets start (u64 (start + length)))).take cbtMaxExtents) es

/-- Extents in the order of their first bytes and of their last. -/
structure InOrder (l : List CbtExtent) : Prop where
  nonempty : ∀ e ∈ l, e.cePhysical < e.stop
  lt : ∀ e ∈ l, e.stop < 2 ^ 64
  first : l.Pairwise fun e e' => e.cePhysical ≤ e'.cePhysical
  last : l.Pairwise fun e e' => e.stop ≤ e'.stop

variable {gran size offset start stop g a b : ℕ} {e k : CbtExtent} {K T es O : List CbtExtent}
  {buf : ℕ → UInt8}

theorem meets_iff : meets start stop e = true ↔
    start < stop ∧ start < e.stop ∧ e.cePhysical < stop ∧ e.cePhysical < e.stop := by
  rw [meets, decide_eq_true_eq]
  omega

theorem Listed.inOrder (h : Listed K) : InOrder K where
  nonempty := h.nonempty
  lt := h.lt
  first := by
    apply h.sorted.imp_of_mem
    intro k k' hk _ hle
    exact (h.nonempty k hk).le.trans hle
  last := by
    apply h.sorted.imp_of_mem
    intro k k' _ hk' hle
    exact hle.trans (h.nonempty k' hk').le

/-! ## Marking a list of extents -/

/-- What the two loops want of the window. -/
structure Window.Fits (gran size offset : ℕ) : Prop where
  pos : 0 < gran
  small : size < 2 ^ 31
  lt : (offset + size) * gran < 2 ^ 64

/-- The extent can be marked in the window. -/
structure Inside (gran size offset : ℕ) (e : CbtExtent) : Prop where
  nonempty : e.cePhysical < e.stop
  lt : e.stop < 2 ^ 64
  before : e.cePhysical < (offset + size) * gran
  after : offset * gran < e.stop

theorem foldl_setExtent (hw : Window.Fits gran size offset)
    (hes : ∀ e ∈ es, Inside gran size offset e) (j : ℕ) :
    testBit (es.foldl (setExtent gran size offset) buf) j = true ↔
      testBit buf j = true ∨ j < size ∧ ∃ e ∈ es, Touches gran e (offset + j) := by
  induction es generalizing buf with
  | nil =>
      apply (or_iff_left _).symm
      rintro ⟨-, e, he, -⟩
      exact absurd he List.not_mem_nil
  | cons e es ih =>
      have he := hes e List.mem_cons_self
      rw [List.foldl_cons, ih fun e' he' => hes e' (List.mem_cons_of_mem e he'),
        setExtent_spec hw.pos hw.small hw.lt he.nonempty he.lt he.before he.after, or_assoc,
        ← and_or_left]
      simp only [List.mem_cons, exists_eq_or_imp]

/-- A granule of the window lies between its ends. -/
theorem granule_bounds (hw : Window.Fits gran size offset) {x j : ℕ} (hj : j < size)
    (hx : x / gran = offset + j) : offset * gran ≤ x ∧ x < (offset + size) * gran := by
  constructor
  · rw [← Nat.le_div_iff_mul_le hw.pos]
    omega
  · rw [← Nat.div_lt_iff_lt_mul hw.pos]
    omega

/-- The kernel's piece of an extent touches the same granules of the window. -/
theorem Piece.touches_iff (h : Piece start ((offset + size) * gran) k e)
    (hw : Window.Fits gran size offset)
    (hstart : start ≤ k.cePhysical ∨ start = offset * gran) {j : ℕ} (hj : j < size) :
    Touches gran e (offset + j) ↔ Touches gran k (offset + j) := by
  constructor
  · rintro ⟨x, hle, hlt, hx⟩
    exact ⟨x, h.le_first.trans hle, hlt.trans_le h.last_le, hx⟩
  · rintro ⟨x, hle, hlt, hx⟩
    obtain ⟨hfrom, hto⟩ := granule_bounds hw hj hx
    refine ⟨x, ?_, ?_, hx⟩
    · apply h.first_le.trans
      apply max_le ?_ hle
      rcases hstart with hstart | rfl
      · exact hstart.trans hle
      · exact hfrom
    · exact (lt_min hto hlt).trans_le h.le_last

theorem Piece.inside (h : Piece start ((offset + size) * gran) k e) (hlt : k.stop < 2 ^ 64)
    (hmeets : meets start ((offset + size) * gran) k = true) (hstart : offset * gran ≤ start) :
    Inside gran size offset e := by
  obtain ⟨h1, h2, h3, h4⟩ := meets_iff.mp hmeets
  obtain ⟨hle, hlast, hfirst, hend⟩ := h
  exact ⟨by omega, by omega, by omega, by omega⟩

theorem foldl_pieces (buf : ℕ → UInt8) (hw : Window.Fits gran size offset)
    (h : List.Forall₂ (Piece start ((offset + size) * gran)) T es) (hlt : ∀ k ∈ T, k.stop < 2 ^ 64)
    (hmeets : ∀ k ∈ T, meets start ((offset + size) * gran) k = true)
    (hle : offset * gran ≤ start)
    (hstart : ∀ k ∈ T, start ≤ k.cePhysical ∨ start = offset * gran) (j : ℕ) :
    testBit (es.foldl (setExtent gran size offset) buf) j = true ↔
      testBit buf j = true ∨ j < size ∧ ∃ k ∈ T, Touches gran k (offset + j) := by
  induction h generalizing buf with
  | nil =>
      apply (or_iff_left _).symm
      rintro ⟨-, e, he, -⟩
      exact absurd he List.not_mem_nil
  | @cons k e T es hpiece _ ih =>
      have hk := List.mem_cons_self (a := k) (l := T)
      have he := hpiece.inside (hlt k hk) (hmeets k hk) hle
      rw [List.foldl_cons, ih _ (fun k' h => hlt k' (List.mem_cons_of_mem k h))
          (fun k' h => hmeets k' (List.mem_cons_of_mem k h))
          (fun k' h => hstart k' (List.mem_cons_of_mem k h)),
        setExtent_spec hw.pos hw.small hw.lt he.nonempty he.lt he.before he.after, or_assoc,
        ← and_or_left]
      apply or_congr_right
      apply and_congr_right
      intro hj
      rw [hpiece.touches_iff hw (hstart k hk) hj]
      simp only [List.mem_cons, exists_eq_or_imp]

/-! ## The kernel's extents, 512 at a time -/

theorem forall₂_getLastD {R : CbtExtent → CbtExtent → Prop} {A : List CbtExtent}
    (h : List.Forall₂ R (A ++ [k]) es) (d : CbtExtent) : R k (es.getLastD d) := by
  rw [← List.forall₂_reverse_iff, List.reverse_append, List.reverse_singleton,
    List.singleton_append] at h
  generalize hrev : es.reverse = l at h
  cases h with
  | @cons _ e _ r hR _ =>
      obtain rfl : es = r.reverse ++ [e] := by
        rw [← List.reverse_reverse es, hrev, List.reverse_cons]
      rwa [List.getLastD_concat]

/-- When the kernel has told of `k` and of those before it, those behind it are left. -/
theorem filter_meets_behind (hK : Listed K) {A B : List CbtExtent}
    (hsplit : K.filter (meets start stop) = A ++ k :: B) (hpiece : Piece start stop k e) :
    start ≤ e.stop ∧ e.stop < 2 ^ 64 ∧ K.filter (meets e.stop stop) = B ∧
    ∀ k' ∈ B, e.stop ≤ k'.cePhysical := by
  have hmem : ∀ k' ∈ A ++ k :: B, k' ∈ K ∧ meets start stop k' = true := by
    intro k' hk'
    rw [← hsplit] at hk'
    exact List.mem_filter.mp hk'
  have hkin : k ∈ A ++ k :: B := List.mem_append_right A List.mem_cons_self
  obtain ⟨hkK, hk⟩ := hmem k hkin
  obtain ⟨h1, h2, h3, h4⟩ := meets_iff.mp hk
  obtain ⟨hle, hlast, hfirst, hend⟩ := hpiece
  have hlt := hK.lt k hkK
  have hsorted : (A ++ k :: B).Pairwise fun a b => a.stop ≤ b.cePhysical := by
    rw [← hsplit]
    exact hK.sorted.filter _
  obtain ⟨-, hkB, hAk⟩ := List.pairwise_append.mp hsorted
  have hbehind : ∀ k' ∈ B, e.stop ≤ k'.cePhysical := by
    intro k' hk'
    exact hlast.trans (List.rel_of_pairwise_cons hkB hk')
  refine ⟨by omega, by omega, ?_, hbehind⟩
  have hsub : K.filter (meets e.stop stop) =
      (K.filter (meets start stop)).filter (meets e.stop stop) := by
    rw [List.filter_filter]
    apply List.filter_congr
    intro x _
    rw [Bool.eq_iff_iff, Bool.and_eq_true, meets_iff, meets_iff]
    omega
  rw [hsub, hsplit, List.filter_append, List.filter_cons_of_neg, List.filter_eq_nil_iff.mpr,
    List.nil_append, List.filter_eq_self.mpr]
  · intro k' hk'
    have h' := meets_iff.mp (hmem k' (List.mem_append_right A (List.mem_cons_of_mem k hk'))).2
    have hb := hbehind k' hk'
    rw [meets_iff]
    omega
  · intro a ha
    have h' := hAk a ha k List.mem_cons_self
    rw [meets_iff]
    omega
  · rw [meets_iff]
    omega

theorem ciEnd_eq (hw : Window.Fits gran size offset) :
    ciEnd gran size offset = (offset + size) * gran := by
  have hlt := hw.lt
  rw [Nat.add_mul] at hlt ⊢
  have hoff : u64 (offset * gran) = offset * gran := u64_of_lt (by omega)
  have hlen : u64 (size * gran) = size * gran := u64_of_lt (by omega)
  rw [ciEnd, hoff, hlen, u64_of_lt hlt]

theorem u64_add_sub (ha : a < 2 ^ 64) (hb : b < 2 ^ 64) : u64 (a + u64 (b + 2 ^ 64 - a)) = b := by
  simp only [u64]
  omega

theorem getLoop_spec (buf : ℕ → UInt8) {blkcbtget : ℕ → ℕ → Option (List CbtExtent)}
    {fuel length : ℕ} (hw : Window.Fits gran size offset) (hK : Listed K)
    (hget : Answers K blkcbtget) (hs : start < 2 ^ 64) (hl : length < 2 ^ 64)
    (hend : u64 (start + length) = (offset + size) * gran) (hle : offset * gran ≤ start)
    (hT : K.filter (meets start ((offset + size) * gran)) = T)
    (hstart : ∀ k ∈ T, start ≤ k.cePhysical ∨ start = offset * gran)
    (hfuel : T.length < cbtMaxExtents * fuel) :
    ∃ r, getLoop blkcbtget gran size offset fuel start length buf = some r ∧
      (r.1 = some .devioc ∧ (∃ s l, blkcbtget s l = none) ∨
        r.1 = none ∧ ∀ j, testBit r.2 j = true ↔
          testBit buf j = true ∨ j < size ∧ ∃ k ∈ T, Touches gran k (offset + j)) := by
  induction fuel generalizing start length buf T with
  | zero => exact absurd hfuel (Nat.not_lt_zero _)
  | succ fuel ih =>
      rw [getLoop]
      rcases hes : blkcbtget start length with _ | es
      · exact ⟨_, rfl, .inl ⟨rfl, start, length, hes⟩⟩
      · have hpieces := hget start length es hs hl hes
        rw [hend, hT] at hpieces
        have hmem : ∀ k ∈ T.take cbtMaxExtents,
            k ∈ K ∧ meets start ((offset + size) * gran) k = true := by
          intro k hk
          rw [← List.mem_filter, hT]
          exact List.mem_of_mem_take hk
        have hbits := foldl_pieces buf hw hpieces (fun k hk => hK.lt k (hmem k hk).1)
          (fun k hk => (hmem k hk).2) hle (fun k hk => hstart k (List.mem_of_mem_take hk))
        have hlen := hpieces.length_eq
        dsimp only
        split
        · next hfull =>
            rcases List.eq_nil_or_concat' (T.take cbtMaxExtents) with hnil | ⟨A, k, hA⟩
            · rw [hnil, hfull] at hlen
              exact absurd hlen (by decide)
            · have hsplit : K.filter (meets start ((offset + size) * gran)) =
                  A ++ k :: T.drop cbtMaxExtents := by
                rw [hT, ← List.singleton_append, ← List.append_assoc, ← hA,
                  List.take_append_drop]
              rw [hA] at hpieces
              obtain ⟨hge, hlt, hrest, hbehind⟩ :=
                filter_meets_behind hK hsplit (forall₂_getLastD hpieces ⟨0, 0⟩)
              have hfew : (T.drop cbtMaxExtents).length < cbtMaxExtents * fuel := by
                rw [List.length_take, hfull] at hlen
                rw [List.length_drop]
                rw [Nat.mul_succ] at hfuel
                omega
              obtain ⟨r, hr, hret⟩ := ih _ hlt (Nat.mod_lt _ (by norm_num))
                (u64_add_sub hlt hw.lt) (hle.trans hge) hrest
                (fun k hk => .inl (hbehind k hk)) hfew
              rw [u64_of_lt hlt, ciEnd_eq hw]
              refine ⟨r, hr, hret.imp_right ?_⟩
              rintro ⟨hnone, hrbits⟩
              refine ⟨hnone, ?_⟩
              intro j
              rw [hrbits j, hbits j, or_assoc, ← and_or_left]
              apply or_congr_right
              apply and_congr_right
              intro _
              simp only [← exists_or, ← or_and_right, ← List.mem_append, List.take_append_drop]
        · next hshort =>
            have hall : T.take cbtMaxExtents = T := by
              rw [List.length_take] at hlen
              exact List.take_of_length_le (by omega)
            rw [hall] at hbits
            exact ⟨_, rfl, .inr ⟨rfl, hbits⟩⟩

/-! ## The extents that were kept -/

/-- In an ordered list everything behind the first that fails a test fails it. -/
theorem not_of_mem_dropWhile {R : CbtExtent → CbtExtent → Prop} {p : CbtExtent → Bool}
    {l : List CbtExtent} (hl : l.Pairwise R) (hR : ∀ a b, R a b → p a = false → p b = false) :
    ∀ k ∈ l.dropWhile p, p k = false := by
  induction l with
  | nil => exact fun k hk => absurd hk List.not_mem_nil
  | cons a l ih =>
      obtain ⟨ha, hl⟩ := List.pairwise_cons.mp hl
      rw [List.dropWhile_cons]
      split
      · exact ih hl
      · next hp =>
          have hp := Bool.eq_false_iff.mpr hp
          intro k hk
          rcases List.mem_cons.mp hk with rfl | hk
          · exact hp
          · exact hR a k (ha k hk) hp

theorem mem_dropWhile_iff {R : CbtExtent → CbtExtent → Prop} {p : CbtExtent → Bool}
    {l : List CbtExtent} (hl : l.Pairwise R) (hR : ∀ a b, R a b → p a = false → p b = false) :
    k ∈ l.dropWhile p ↔ k ∈ l ∧ p k = false := by
  constructor
  · exact fun hk => ⟨List.dropWhile_subset _ hk, not_of_mem_dropWhile hl hR k hk⟩
  · rintro ⟨hk, hp⟩
    rw [← List.takeWhile_append_dropWhile (p := p) (l := l), List.mem_append] at hk
    apply hk.resolve_left
    intro h
    exact Bool.false_ne_true (hp.symm.trans (List.mem_takeWhile_imp h))

theorem mem_takeWhile_iff {R : CbtExtent → CbtExtent → Prop} {p : CbtExtent → Bool}
    {l : List CbtExtent} (hl : l.Pairwise R) (hR : ∀ a b, R a b → p a = false → p b = false) :
    k ∈ l.takeWhile p ↔ k ∈ l ∧ p k = true := by
  constructor
  · exact fun hk => ⟨List.takeWhile_subset _ hk, List.mem_takeWhile_imp hk⟩
  · rintro ⟨hk, hp⟩
    rw [← List.takeWhile_append_dropWhile (p := p) (l := l), List.mem_append] at hk
    apply hk.resolve_right
    intro h
    exact Bool.false_ne_true ((not_of_mem_dropWhile hl hR k h).symm.trans hp)

theorem orFirst_skips (hw : Window.Fits gran size offset) {d : CbtData} (hO : InOrder d.ciExtents) :
    ∀ k ∈ d.ciExtents.take (orFirst gran offset d), k.stop ≤ offset * gran := by
  have hoff : u64 (offset * gran) = offset * gran :=
    u64_of_lt ((Nat.mul_le_mul_right gran (Nat.le_add_right offset size)).trans_lt hw.lt)
  rw [orFirst, hoff]
  split
  · next hind =>
      have hprev : d.prev hind ∈ d.ciExtents := List.get_mem _ _
      rw [u64_of_lt (hO.lt _ hprev)]
      split
      · next hle =>
          intro k hk
          obtain ⟨i, hi, rfl⟩ := List.mem_take_iff_getElem.mp hk
          have hil : i ≤ d.lastUsedExtentInd - 1 :=
            Nat.le_sub_one_of_lt (hi.trans_le (min_le_left _ _))
          rcases hil.eq_or_lt with rfl | hlt
          · exact hle
          · exact (List.pairwise_iff_get.mp hO.last ⟨i, hi.trans_le (min_le_right _ _)⟩
              ⟨d.lastUsedExtentInd - 1, (Nat.sub_one_lt hind.ne').trans_le d.le⟩ hlt).trans hle
      · simp
  · simp

theorem mem_orFrom (hw : Window.Fits gran size offset) {d : CbtData} (hO : InOrder d.ciExtents)
    (k : CbtExtent) :
    k ∈ orFrom gran offset d ↔ k ∈ d.ciExtents ∧ offset * gran < k.stop := by
  have hoff : u64 (offset * gran) = offset * gran :=
    u64_of_lt ((Nat.mul_le_mul_right gran (Nat.le_add_right offset size)).trans_lt hw.lt)
  have hsub : (d.ciExtents.drop (orFirst gran offset d)).Sublist d.ciExtents :=
    List.drop_sublist _ _
  have hlast : d.ciExtents.Pairwise fun a b => a.stop ≤ b.stop ∧ b.stop < 2 ^ 64 :=
    hO.last.imp_of_mem fun _ hb hle => ⟨hle, hO.lt _ hb⟩
  rw [orFrom, hoff, mem_dropWhile_iff (hlast.sublist hsub), decide_eq_false_iff_not, not_le]
  · constructor
    · rintro ⟨hk, hlt⟩
      exact ⟨hsub.subset hk, hlt.trans_le (Nat.mod_le _ _)⟩
    · rintro ⟨hk, hlt⟩
      rw [u64_of_lt (hO.lt k hk)]
      refine ⟨?_, hlt⟩
      rw [← List.take_append_drop (orFirst gran offset d) d.ciExtents, List.mem_append] at hk
      exact hk.resolve_left fun h => absurd hlt (orFirst_skips hw hO k h).not_gt
  · rintro a b ⟨hab, hb⟩ ha
    rw [decide_eq_false_iff_not, not_le] at ha ⊢
    rw [u64_of_lt hb]
    exact ha.trans_le ((Nat.mod_le _ _).trans hab)

theorem setOr_spec (hw : Window.Fits gran size offset) {d : CbtData} (hO : InOrder d.ciExtents)
    (j : ℕ) :
    testBit (setOr gran size offset buf d).1 j = true ↔
      testBit buf j = true ∨ j < size ∧ ∃ e ∈ d.ciExtents, Touches gran e (offset + j) := by
  have hsub : (orFrom gran offset d).Sublist d.ciExtents :=
    (List.dropWhile_sublist _).trans (List.drop_sublist _ _)
  have hmem (k : CbtExtent) : k ∈ (orFrom gran offset d).takeWhile (beforeEnd gran size offset) ↔
      (k ∈ d.ciExtents ∧ offset * gran < k.stop) ∧ k.cePhysical < (offset + size) * gran := by
    rw [mem_takeWhile_iff (hO.first.sublist hsub), mem_orFrom hw hO, beforeEnd, ciEnd_eq hw,
      decide_eq_true_eq]
    intro a b hab ha
    rw [beforeEnd, decide_eq_false_iff_not] at ha ⊢
    omega
  rw [setOr, foldl_setExtent hw]
  · apply or_congr_right
    apply and_congr_right
    intro hj
    constructor
    · rintro ⟨k, hk, htouch⟩
      exact ⟨k, ((hmem k).mp hk).1.1, htouch⟩
    · rintro ⟨k, hk, x, hle, hlt, hx⟩
      obtain ⟨hfrom, hto⟩ := granule_bounds hw hj hx
      exact ⟨k, (hmem k).mpr ⟨⟨hk, hfrom.trans_lt hlt⟩, hle.trans_lt hto⟩, x, hle, hlt, hx⟩
  · intro k hk
    obtain ⟨⟨hkO, hafter⟩, hbefore⟩ := (hmem k).mp hk
    exact ⟨hO.nonempty k hkO, hO.lt k hkO, hbefore, hafter⟩

/-! ## One call -/

/-- The extents that were kept. -/
def kept (orData : Option CbtData) : List CbtExtent := orData.elim [] CbtData.ciExtents

/-- The bits of the window are those of the granules that some extent touches. -/
def RightBits (gran size offset : ℕ) (K : List CbtExtent) (buf : ℕ → UInt8) : Prop :=
  ∀ j < size, testBit buf j = true ↔ ∃ e ∈ K, Touches gran e (offset + j)

theorem testBit_memset (hdvd : 8 ∣ size) {j : ℕ} (hj : j < size) :
    testBit (fun t => if t < size / 8 then 0 else buf t) j = false := by
  have hin : j / 8 < size / 8 := by omega
  rw [testBit, if_pos hin]
  exact Nat.zero_testBit _

theorem touches_filter (hw : Window.Fits gran size offset) (hK : Listed K) {j : ℕ} (hj : j < size) :
    (∃ k ∈ K.filter (meets (offset * gran) ((offset + size) * gran)),
      Touches gran k (offset + j)) ↔ ∃ k ∈ K, Touches gran k (offset + j) := by
  constructor
  · rintro ⟨k, hk, htouch⟩
    exact ⟨k, List.mem_of_mem_filter hk, htouch⟩
  · rintro ⟨k, hk, x, hle, hlt, hx⟩
    obtain ⟨hfrom, hto⟩ := granule_bounds hw hj hx
    refine ⟨k, List.mem_filter.mpr ⟨hk, meets_iff.mpr ?_⟩, x, hle, hlt, hx⟩
    exact ⟨hfrom.trans_lt hto, hfrom.trans_lt hlt, hle.trans_lt hto, hK.nonempty k hk⟩

/-- One call, with any extent to resume at. -/
theorem cbtGetDirtyBitmapPart_spec {blkcbtget : ℕ → ℕ → Option (List CbtExtent)} {fuel : ℕ}
    (buf : ℕ → UInt8) (orData : Option CbtData) (hw : Window.Fits gran size offset)
    (hdvd : 8 ∣ size) (hK : Listed K) (hget : Answers K blkcbtget) (hO : InOrder (kept orData))
    (hfuel : K.length < cbtMaxExtents * fuel) :
    ∃ r, cbtGetDirtyBitmapPart blkcbtget gran size offset true fuel buf orData = some r ∧
      (r.1 = some .devioc ∧ (∃ s l, blkcbtget s l = none) ∨
        r.1 = none ∧ kept r.2.2 = kept orData ∧
          RightBits gran size offset (K ++ kept orData) r.2.1) := by
  have hlt := hw.lt
  rw [Nat.add_mul] at hlt
  have hoff : u64 (offset * gran) = offset * gran := u64_of_lt (by omega)
  have hlen : u64 (size * gran) = size * gran := u64_of_lt (by omega)
  have hend : u64 (offset * gran + size * gran) = (offset + size) * gran := by
    rw [u64_of_lt hlt, Nat.add_mul]
  have hfew := (List.length_filter_le (meets (offset * gran) ((offset + size) * gran)) K).trans_lt
    hfuel
  obtain ⟨r, hr, hret⟩ := getLoop_spec (fun t => if t < size / 8 then 0 else buf t) hw hK
    hget (by omega) (by omega) hend le_rfl rfl (fun _ _ => .inr rfl) hfew
  rw [cbtGetDirtyBitmapPart, if_pos rfl, hoff, hlen, hr]
  obtain ⟨ret, buf'⟩ := r
  rcases hret with ⟨hfail, hcall⟩ | ⟨hnone, hbits⟩
  · dsimp only at hfail
    subst hfail
    exact ⟨_, rfl, .inl ⟨rfl, hcall⟩⟩
  · dsimp only at hnone
    subst hnone
    have hwindow (j : ℕ) (hj : j < size) : testBit buf' j = true ↔
        ∃ k ∈ K, Touches gran k (offset + j) := by
      rw [hbits j, testBit_memset hdvd hj, touches_filter hw hK hj]
      simp only [Bool.false_eq_true, false_or, hj, true_and]
    rcases orData with _ | d
    · refine ⟨_, rfl, .inr ⟨rfl, rfl, ?_⟩⟩
      rw [kept, Option.elim_none, List.append_nil]
      exact hwindow
    · refine ⟨_, rfl, .inr ⟨rfl, rfl, ?_⟩⟩
      intro j hj
      rw [setOr_spec hw hO, hwindow j hj]
      simp only [hj, true_and, ← exists_or, ← or_and_right, ← List.mem_append]
      rfl

end Ploop.Cbt
