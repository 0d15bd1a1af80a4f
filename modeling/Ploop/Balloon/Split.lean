import Ploop.Balloon.Ranges

/-!
# Extents as lists of blocks

A map of extents stands for the blocks it lists. `rmap2freemap` lists the blocks that have a
cluster, and `range_split` lists the same blocks with the marks of the free ones.
-/

namespace Ploop.Balloon

open Check

/-! ## Maps of free blocks -/

namespace FreeExtent

variable (e : FreeExtent)

def Has (b : ℕ) : Prop := e.iblk ≤ b ∧ b < e.iblk + e.len

instance (b : ℕ) : Decidable (e.Has b) := inferInstanceAs (Decidable (_ ∧ _))

/-- The cluster of block `b` of the extent. -/
def cluAt (b : ℕ) : ℕ := e.clu + (b - e.iblk)

/-- The blocks and their clusters. -/
def blocks : List (ℕ × ℕ) := (List.range e.len).map fun i => (e.iblk + i, e.clu + i)

end FreeExtent

/-- The blocks, their clusters and the mark of the extent. -/
def RelocExtent.blocks (e : RelocExtent) : List (ℕ × ℕ × Bool) :=
  (List.range e.len).map fun i => (e.iblk + i, e.clu + i, e.free)

/-- The extents come in order, none is empty, and no two share a block. -/
structure SortedMap (m : List FreeExtent) : Prop where
  positive : ∀ e ∈ m, 0 < e.len
  disjoint : m.Pairwise fun a b => a.iblk + a.len ≤ b.iblk

/-- The end of every extent fits its 32 bits. -/
def EndsFit (m : List FreeExtent) : Prop := ∀ e ∈ m, e.iblk + e.len < 2 ^ 32

/-- Every block and every cluster of the map has a number below `PLOOP_ZERO_INDEX`. -/
def BelowMark (m : List FreeExtent) : Prop :=
  ∀ e ∈ m, e.iblk + e.len < 2 ^ 32 ∧ e.clu + e.len < 2 ^ 32

/-- The cluster that has block `b` after the map. -/
def freeOwner (m : List FreeExtent) (b : ℕ) : Option ℕ :=
  (m.find? fun e => e.Has b).map fun e => e.cluAt b

section Owner

variable {m fs : List FreeExtent} {f : FreeExtent} {b ri c : ℕ}

theorem SortedMap.tail (h : SortedMap (f :: fs)) : SortedMap fs where
  positive e he := h.positive e (List.mem_cons_of_mem _ he)
  disjoint := (List.pairwise_cons.mp h.disjoint).2

theorem SortedMap.suffix (h : SortedMap m) (hs : fs <:+ m) : SortedMap fs where
  positive e he := h.positive e (hs.subset he)
  disjoint := h.disjoint.sublist hs.sublist

theorem EndsFit.suffix (h : EndsFit m) (hs : fs <:+ m) : EndsFit fs :=
  fun e he => h e (hs.subset he)

theorem BelowMark.ends (h : BelowMark m) : EndsFit m := fun e he => (h e he).1

theorem freeOwner_cons : freeOwner (f :: fs) b =
    if f.Has b then some (f.cluAt b) else freeOwner fs b := by
  unfold freeOwner
  rw [List.find?_cons]
  by_cases h : f.Has b
  · simp [h]
  · simp [h]

theorem freeOwner_eq_none : freeOwner m b = none ↔ ∀ e ∈ m, ¬ e.Has b := by
  simp [freeOwner]

/-- In a map without overlap the owner of a block is the cluster of any extent that has it. -/
theorem freeOwner_eq_some (h : SortedMap m) :
    freeOwner m b = some c ↔ ∃ e ∈ m, e.Has b ∧ e.cluAt b = c := by
  induction m with
  | nil => simp [freeOwner]
  | cons f fs ih =>
      have hfirst := (List.pairwise_cons.mp h.disjoint).1
      rw [freeOwner_cons]
      by_cases hf : f.Has b
      · rw [if_pos hf]
        constructor
        · intro hc
          exact ⟨f, by simp, hf, Option.some.inj hc⟩
        · rintro ⟨e, he, heb, rfl⟩
          rcases List.mem_cons.mp he with rfl | he
          · rfl
          · have hlt := hfirst e he
            have hfb := hf.2
            have hle := heb.1
            omega
      · rw [if_neg hf, ih h.tail]
        constructor
        · rintro ⟨e, he, heb⟩
          exact ⟨e, List.mem_cons_of_mem _ he, heb⟩
        · rintro ⟨e, he, heb⟩
          rcases List.mem_cons.mp he with rfl | he
          · exact absurd heb.1 hf
          · exact ⟨e, he, heb⟩

theorem freeOwner_before (h : SortedMap (f :: fs)) (hb : b < f.iblk) :
    freeOwner (f :: fs) b = none := by
  apply freeOwner_eq_none.mpr
  intro e he heb
  have hle := heb.1
  rcases List.mem_cons.mp he with rfl | he
  · omega
  · have hlt := (List.pairwise_cons.mp h.disjoint).1 e he
    omega

theorem endsBefore_iff (h : EndsFit (f :: fs)) : endsBefore ri f = true ↔ f.iblk + f.len ≤ ri := by
  unfold endsBefore
  rw [u32_of_lt (h f (by simp)), decide_eq_true_eq]

/-- The extents that end before a block do not matter to it and to those behind it. -/
theorem freeOwner_dropWhile (h : EndsFit m) (hb : ri ≤ b) :
    freeOwner (m.dropWhile (endsBefore ri)) b = freeOwner m b := by
  induction m with
  | nil => rfl
  | cons f fs ih =>
      rw [List.dropWhile_cons]
      split
      case isTrue hends =>
        have hle := (endsBefore_iff h).mp hends
        rw [ih (h.suffix (List.suffix_cons f fs)), freeOwner_cons, if_neg]
        intro hf
        have hlt := hf.2
        omega
      case isFalse => rfl

theorem lt_of_dropWhile (h : EndsFit m) (hm : m.dropWhile (endsBefore ri) = f :: fs) :
    ri < f.iblk + f.len := by
  have hs : f :: fs <:+ m := hm ▸ List.dropWhile_suffix _
  have hne : m.dropWhile (endsBefore ri) ≠ [] := by
    rw [hm]
    exact List.cons_ne_nil f fs
  have hhead := List.head_dropWhile_not (endsBefore ri) hne
  simp only [hm, List.head_cons] at hhead
  by_contra hge
  rw [(endsBefore_iff (h.suffix hs)).mpr (Nat.not_lt.mp hge)] at hhead
  cases hhead

end Owner

/-! ## Adding extents -/

section Add

variable (realloc : ℕ → Bool)

/-- An extent is added at the end, or there is no memory. -/
theorem ExtentMap.add_cases {α : Type} (t : ExtentMap α) (e : α) :
    (t.add realloc e = none ∧ ∃ n, realloc n = false) ∨
      ∃ t', t.add realloc e = some t' ∧ t'.extents = t.extents ++ [e] := by
  unfold ExtentMap.add
  split
  · cases hm : realloc (t.nEntriesAlloced * 2) with
    | false => exact .inl ⟨rfl, _, hm⟩
    | true => exact .inr ⟨_, rfl, rfl⟩
  · exact .inr ⟨_, rfl, rfl⟩

end Add

/-! ## The blocks that have a cluster -/

/-- The blocks from `iblk` on that the map names, `k` in all, with their clusters. -/
def named (rmap : ℕ → UInt32) (iblk k : ℕ) : List (ℕ × ℕ) :=
  (List.range' iblk k).filterMap fun b =>
    if rmap b = zeroIndexMark then none else some (b, (rmap b).toNat)

/-- The blocks of the extent that is not yet in the map. -/
def Pending.blocks (e : Pending) : List (ℕ × ℕ) :=
  if e.state then FreeExtent.blocks ⟨e.clu, e.iblk, e.len⟩ else []

/-- Where they begin, before block `iblk`. -/
def Pending.start (e : Pending) (iblk : ℕ) : ℕ := if e.state then e.iblk else iblk

/-- Before block `iblk` the extent ends there, or there is none. -/
structure Pending.Before (e : Pending) (iblk : ℕ) : Prop where
  ends : e.state = true →
    0 < e.iblk ∧ 0 < e.len ∧ e.iblk + e.len = iblk ∧ e.clu + e.len < 2 ^ 32
  idle : e.state = false → e.iblk = 0 ∧ e.len < iblk

/-- The extent goes on where `e` ends, in blocks and in clusters. -/
def FreeExtent.Continues (e x : FreeExtent) : Prop :=
  x.iblk = e.iblk + e.len ∧ x.clu = e.clu + e.len

/-- What the loop adds: the blocks of `l`, in extents from `lo` on that are as long as can be. -/
structure Lists (l : List (ℕ × ℕ)) (lo hi : ℕ) (m : List FreeExtent) : Prop where
  blocks : m.flatMap FreeExtent.blocks = l
  sorted : SortedMap m
  maximal : m.IsChain fun e x => ¬ e.Continues x
  within : ∀ e ∈ m, lo ≤ e.iblk ∧ e.iblk + e.len ≤ hi ∧ e.clu + e.len < 2 ^ 32

section Named

variable {rmap : ℕ → UInt32} {iblk k : ℕ} {e : Pending} {l : List (ℕ × ℕ)} {lo hi : ℕ}
  {m : List FreeExtent} {f : FreeExtent}

theorem named_mark (h : rmap iblk = zeroIndexMark) :
    named rmap iblk (k + 1) = named rmap (iblk + 1) k := by
  rw [named, List.range'_succ, List.filterMap_cons, if_pos h]
  rfl

theorem named_clu (h : rmap iblk ≠ zeroIndexMark) :
    named rmap iblk (k + 1) = (iblk, (rmap iblk).toNat) :: named rmap (iblk + 1) k := by
  rw [named, List.range'_succ, List.filterMap_cons, if_neg h]
  rfl

theorem mem_named {b c : ℕ} : (b, c) ∈ named rmap iblk k ↔
    iblk ≤ b ∧ b < iblk + k ∧ rmap b ≠ zeroIndexMark ∧ (rmap b).toNat = c := by
  unfold named
  rw [List.mem_filterMap]
  constructor
  · rintro ⟨b', hb', hsome⟩
    rw [List.mem_range'_1] at hb'
    split at hsome
    case isTrue => cases hsome
    case isFalse hne =>
      cases hsome
      exact ⟨hb'.1, hb'.2, hne, rfl⟩
  · rintro ⟨hlo, hhi, hne, rfl⟩
    exact ⟨b, List.mem_range'_1.mpr ⟨hlo, hhi⟩, if_neg hne⟩

/-- The blocks come in increasing order. -/
theorem named_sorted : (named rmap iblk k).Pairwise fun x y => x.1 < y.1 := by
  unfold named
  apply List.Pairwise.filterMap _ _ (List.pairwise_lt_range' (s := iblk) (n := k))
  intro b b' hlt x hx y hy
  split at hx
  · cases hx
  · cases hx
    split at hy
    · cases hy
    · cases hy
      exact hlt

theorem FreeExtent.blocks_succ (clu iblk len : ℕ) :
    FreeExtent.blocks ⟨clu, iblk, len + 1⟩ =
      FreeExtent.blocks ⟨clu, iblk, len⟩ ++ [(iblk + len, clu + len)] := by
  simp only [FreeExtent.blocks, List.range_succ, List.map_append, List.map_singleton]

theorem FreeExtent.blocks_one (clu iblk : ℕ) :
    FreeExtent.blocks ⟨clu, iblk, 1⟩ = [(iblk, clu)] := rfl

theorem Lists.nil : Lists [] lo hi [] where
  blocks := rfl
  sorted := ⟨fun _ h => absurd h List.not_mem_nil, List.Pairwise.nil⟩
  maximal := List.isChain_nil
  within _ h := absurd h List.not_mem_nil

theorem Lists.cons (h : Lists l lo hi m) (hpos : 0 < f.len) (hlo : f.iblk + f.len ≤ lo)
    (hhi : lo ≤ hi) (hclu : f.clu + f.len < 2 ^ 32) (hmax : ∀ x ∈ m.head?, ¬ f.Continues x) :
    Lists (f.blocks ++ l) f.iblk hi (f :: m) where
  blocks := by rw [List.flatMap_cons, h.blocks]
  sorted := by
    constructor
    · intro e he
      rcases List.mem_cons.mp he with rfl | he
      · exact hpos
      · exact h.sorted.positive e he
    · apply List.pairwise_cons.mpr
      exact ⟨fun e he => hlo.trans (h.within e he).1, h.sorted.disjoint⟩
  maximal := List.isChain_cons.mpr ⟨hmax, h.maximal⟩
  within := by
    intro e he
    rcases List.mem_cons.mp he with rfl | he
    · exact ⟨le_rfl, hlo.trans hhi, hclu⟩
    · have hw := h.within e he
      exact ⟨by omega, hw.2⟩

theorem Lists.weaken (h : Lists l lo hi m) {lo' : ℕ} (hle : lo' ≤ lo) : Lists l lo' hi m where
  blocks := h.blocks
  sorted := h.sorted
  maximal := h.maximal
  within e he := ⟨hle.trans (h.within e he).1, (h.within e he).2⟩

end Named

section Rmap

variable {realloc : ℕ → Bool} {rmap : ℕ → UInt32} {iblk k : ℕ} {e : Pending}
  {t : ExtentMap FreeExtent}

/-- Both extents are open and begin with the same block and cluster. -/
structure Pending.SameStart (e e' : Pending) : Prop where
  state : e'.state = true
  clu : e'.clu = e.clu
  iblk : e'.iblk = e.iblk

/-- What a block does to the extent before it: it goes on, or it is added to the map. -/
structure Goes (e e' : Pending) (iblk : ℕ) (l : List (ℕ × ℕ)) : Prop where
  before : e'.Before (iblk + 1)
  blocks : e'.blocks = e.blocks ++ l
  start : e.start iblk ≤ e'.start (iblk + 1)
  same : e.state = true → e.SameStart e'

structure Ends (e e' : Pending) (iblk : ℕ) (l : List (ℕ × ℕ)) : Prop where
  before : e'.Before (iblk + 1)
  blocks : e'.blocks = l
  start : iblk ≤ e'.start (iblk + 1)
  state : e.state = true
  apart : e'.state = true → ¬ (e'.iblk = e.iblk + e.len ∧ e'.clu = e.clu + e.len)

theorem clu_lt_mark {v : UInt32} (h : v ≠ zeroIndexMark) : v.toNat < 2 ^ 32 - 1 := by
  have hlt := v.toNat_lt
  have hne : v.toNat ≠ zeroIndexMark.toNat := fun heq => h (UInt32.toNat_inj.mp heq)
  have hmark : zeroIndexMark.toNat = 2 ^ 32 - 1 := rfl
  omega

/-- A new extent begins with the block. -/
theorem Pending.new_before {clu : ℕ} (h : clu < 2 ^ 32 - 1) (hpos : 0 < iblk) :
    (⟨clu, iblk, 1, true⟩ : Pending).Before (iblk + 1) where
  ends _ := ⟨hpos, Nat.one_pos, rfl, by simp only; omega⟩
  idle h := absurd h (by simp)

theorem extend_mark (h : rmap iblk = zeroIndexMark) : extend (rmap iblk) iblk e = e := if_pos h

theorem extend_new (h : rmap iblk ≠ zeroIndexMark) (hj : ¬ e.Joins iblk (rmap iblk).toNat) :
    extend (rmap iblk) iblk e = ⟨(rmap iblk).toNat, iblk, 1, true⟩ := by
  rw [extend, if_neg h, if_neg hj]

theorem extend_joins (h : rmap iblk ≠ zeroIndexMark) (hj : e.Joins iblk (rmap iblk).toNat) :
    extend (rmap iblk) iblk e = { e with len := u32 (e.len + 1) } := by
  rw [extend, if_neg h, if_pos hj]

theorem Pending.Before.not_joins (he : e.Before iblk) (hs : e.state = false)
    (hend : iblk < 2 ^ 32) (clu : ℕ) : ¬ e.Joins iblk clu := by
  rintro ⟨hjoin, -⟩
  obtain ⟨hzero, hlt⟩ := he.idle hs
  rw [hzero, Nat.zero_add, u32_of_lt (hlt.trans hend)] at hjoin
  omega

/-- The block goes on with an extent that ends before it. -/
theorem Pending.Before.goes (he : e.Before iblk) (hs : e.state = true) (hend : iblk < 2 ^ 32)
    (hne : rmap iblk ≠ zeroIndexMark) (hj : e.Joins iblk (rmap iblk).toNat) :
    Goes e { e with len := u32 (e.len + 1) } iblk [(iblk, (rmap iblk).toNat)] := by
  obtain ⟨hstart, hpos, hiblk, hclu⟩ := he.ends hs
  have hnext : (rmap iblk).toNat = e.clu + e.len := hj.2.trans (u32_of_lt hclu)
  have hlt := clu_lt_mark hne
  have hlen : u32 (e.len + 1) = e.len + 1 := u32_of_lt (by omega)
  constructor
  · constructor
    · intro _
      simp only [hlen]
      omega
    · exact fun hf => absurd (hs.symm.trans hf) (by simp)
  · simp only [Pending.blocks, hs, if_true, hlen]
    rw [FreeExtent.blocks_succ, hiblk, ← hnext]
  · simp only [Pending.start, hs, if_true, le_refl]
  · exact fun _ => ⟨hs, rfl, rfl⟩

theorem flushBefore_keep (h : ¬ ((rmap iblk = zeroIndexMark ∧ e.state) ∨
    (rmap iblk ≠ zeroIndexMark ∧ e.state ∧ ¬ e.Joins iblk (rmap iblk).toNat))) :
    flushBefore realloc (rmap iblk) iblk e t = some (e, t) := if_neg h

/-- The extent is added before the block, or there is no memory. -/
theorem flushBefore_add (realloc : ℕ → Bool) (t : ExtentMap FreeExtent)
    (h : (rmap iblk = zeroIndexMark ∧ e.state) ∨
      (rmap iblk ≠ zeroIndexMark ∧ e.state ∧ ¬ e.Joins iblk (rmap iblk).toNat)) :
    (flushBefore realloc (rmap iblk) iblk e t = none ∧ ∃ n, realloc n = false) ∨
      ∃ t', flushBefore realloc (rmap iblk) iblk e t =
          some ({ e with clu := 0, iblk := 0, state := false }, t') ∧
        t'.extents = t.extents ++ [⟨e.clu, e.iblk, e.len⟩] := by
  rw [flushBefore, if_pos h]
  rcases t.add_cases realloc ⟨e.clu, e.iblk, e.len⟩ with ⟨hnone, hmem⟩ | ⟨t', hsome, ht'⟩
  · exact .inl ⟨congrArg _ hnone, hmem⟩
  · exact .inr ⟨t', congrArg _ hsome, ht'⟩

/-- One block of the loop. -/
theorem rmapStep (realloc : ℕ → Bool) (rmap : ℕ → UInt32) (t : ExtentMap FreeExtent)
    (he : e.Before iblk) (hpos : 0 < iblk) (hend : iblk < 2 ^ 32) :
    (flushBefore realloc (rmap iblk) iblk e t = none ∧ ∃ n, realloc n = false) ∨
      ∃ r, flushBefore realloc (rmap iblk) iblk e t = some r ∧
        (Goes e (extend (rmap iblk) iblk r.1) iblk (named rmap iblk 1) ∧
            r.2.extents = t.extents ∨
          Ends e (extend (rmap iblk) iblk r.1) iblk (named rmap iblk 1) ∧
            r.2.extents = t.extents ++ [⟨e.clu, e.iblk, e.len⟩]) := by
  cases hs : e.state with
  | false =>
      -- no extent is open, so the block can only begin one
      refine .inr ⟨(e, t), flushBefore_keep (by simp [hs]), .inl ⟨?_, rfl⟩⟩
      by_cases hm : rmap iblk = zeroIndexMark
      · rw [extend_mark hm, named_mark hm]
        refine ⟨⟨?_, ?_⟩, (List.append_nil _).symm, ?_, ?_⟩
        · exact fun ht => absurd (hs.symm.trans ht) (by simp)
        · exact fun _ => ⟨(he.idle hs).1, (he.idle hs).2.trans (Nat.lt_succ_self iblk)⟩
        · simp [Pending.start, hs]
        · exact fun ht => absurd (hs.symm.trans ht) (by simp)
      · rw [extend_new hm (he.not_joins hs hend _), named_clu hm]
        refine ⟨Pending.new_before (clu_lt_mark hm) hpos, ?_, ?_, ?_⟩
        · simp [Pending.blocks, hs, FreeExtent.blocks_one, named]
        · simp [Pending.start, hs]
        · exact fun ht => absurd (hs.symm.trans ht) (by simp)
  | true =>
      obtain ⟨hstart, hlen, hiblk, hclu⟩ := he.ends hs
      by_cases hm : rmap iblk = zeroIndexMark
      · rcases flushBefore_add realloc t (.inl ⟨hm, hs⟩) with hno | ⟨t', hsome, ht'⟩
        · exact .inl hno
        · refine .inr ⟨_, hsome, .inr ⟨?_, ht'⟩⟩
          rw [extend_mark hm, named_mark hm]
          refine ⟨⟨?_, ?_⟩, rfl, ?_, hs, ?_⟩
          · exact fun ht => absurd ht (by simp)
          · exact fun _ => ⟨rfl, by simp only; omega⟩
          · simp [Pending.start]
          · exact fun ht => absurd ht (by simp)
      · by_cases hj : e.Joins iblk (rmap iblk).toNat
        · refine .inr ⟨(e, t), flushBefore_keep (by simp [hm, hj]), .inl ⟨?_, rfl⟩⟩
          rw [extend_joins hm hj, named_clu hm]
          exact he.goes hs hend hm hj
        · rcases flushBefore_add realloc t (.inr ⟨hm, hs, hj⟩) with hno | ⟨t', hsome, ht'⟩
          · exact .inl hno
          · refine .inr ⟨_, hsome, .inr ⟨?_, ht'⟩⟩
            have hidle : Pending.Before { e with clu := 0, iblk := 0, state := false } iblk :=
              ⟨fun ht => absurd ht (by simp), fun _ => ⟨rfl, by simp only; omega⟩⟩
            rw [extend_new hm (hidle.not_joins rfl hend _), named_clu hm]
            refine ⟨Pending.new_before (clu_lt_mark hm) hpos, ?_, ?_, hs, ?_⟩
            · simp [Pending.blocks, FreeExtent.blocks_one, named]
            · simp [Pending.start]
            · rintro - ⟨hblk, hnext⟩
              apply hj
              rw [Pending.Joins, u32_of_lt (hiblk.trans_lt hend), u32_of_lt hclu]
              exact ⟨hblk, hnext⟩

theorem named_append : named rmap iblk (k + 1) = named rmap iblk 1 ++ named rmap (iblk + 1) k := by
  by_cases h : rmap iblk = zeroIndexMark
  · rw [named_mark h, named_mark h]
    rfl
  · rw [named_clu h, named_clu h]
    rfl

theorem Pending.Before.start_le (he : e.Before iblk) : e.start iblk ≤ iblk := by
  unfold Pending.start
  split
  case isTrue hs =>
    have hends := he.ends hs
    omega
  case isFalse => exact le_rfl

/-- The loop adds the extent and every block that the map names. -/
theorem rmapBlocks_lists (realloc : ℕ → Bool) (rmap : ℕ → UInt32) (t : ExtentMap FreeExtent)
    (he : e.Before iblk) (hpos : 0 < iblk) (hend : iblk + k ≤ 2 ^ 32) :
    (rmapBlocks realloc rmap k iblk e t = none ∧ ∃ n, realloc n = false) ∨
      ∃ t' new, rmapBlocks realloc rmap k iblk e t = some t' ∧
        t'.extents = t.extents ++ new ∧
        Lists (e.blocks ++ named rmap iblk k) (e.start iblk) (iblk + k) new ∧
        (e.state = true → ∃ x ∈ new.head?, x.clu = e.clu ∧ x.iblk = e.iblk) := by
  induction k generalizing iblk e t with
  | zero =>
      have hl : e.blocks ++ named rmap iblk 0 = e.blocks := List.append_nil _
      rw [rmapBlocks, hl]
      cases hs : e.state with
      | false =>
          refine .inr ⟨t, [], rfl, (List.append_nil _).symm, ?_, fun ht => by cases ht⟩
          simpa [Pending.blocks, hs] using Lists.nil
      | true =>
          rw [if_pos rfl]
          rcases t.add_cases realloc ⟨e.clu, e.iblk, e.len⟩ with hno | ⟨t', hsome, ht'⟩
          · exact .inl hno
          · refine .inr ⟨t', _, hsome, ht', ?_, fun _ => ⟨_, rfl, rfl, rfl⟩⟩
            obtain ⟨-, hlen, hiblk, hclu⟩ := he.ends hs
            have hone : Lists (FreeExtent.blocks ⟨e.clu, e.iblk, e.len⟩ ++ []) e.iblk (iblk + 0)
                [⟨e.clu, e.iblk, e.len⟩] :=
              Lists.nil.cons hlen hiblk.le le_rfl hclu fun _ hx => absurd hx (by simp)
            simpa [Pending.blocks, Pending.start, hs] using hone
  | succ k ih =>
      have hstep := rmapStep realloc rmap t he hpos (by omega)
      have hshift : iblk + (k + 1) = iblk + 1 + k := by omega
      rw [rmapBlocks, named_append, ← List.append_assoc, hshift]
      rcases hstep with ⟨hno, hmem⟩ | ⟨r, hr, hgoes | hends⟩
      · rw [hno]
        exact .inl ⟨rfl, hmem⟩
      · rw [hr, Option.bind_some]
        obtain ⟨h, ht⟩ := hgoes
        rcases ih r.2 h.before (Nat.succ_pos _) (by omega) with
          hno | ⟨t', new, hrun, ht', hnew, hhead⟩
        · exact .inl hno
        · refine .inr ⟨t', new, hrun, ht ▸ ht', ?_, fun hs => ?_⟩
          · rw [← h.blocks]
            exact hnew.weaken h.start
          · obtain ⟨hstate, hsameclu, hsameblk⟩ := h.same hs
            rw [← hsameclu, ← hsameblk]
            exact hhead hstate
      · rw [hr, Option.bind_some]
        obtain ⟨h, ht⟩ := hends
        rcases ih r.2 h.before (Nat.succ_pos _) (by omega) with
          hno | ⟨t', new, hrun, ht', hnew, hhead⟩
        · exact .inl hno
        · obtain ⟨-, hlen, hiblk, hclu⟩ := he.ends h.state
          have hmax : ∀ x ∈ new.head?, ¬ FreeExtent.Continues ⟨e.clu, e.iblk, e.len⟩ x := by
            intro x hx hnext
            cases hs : (extend (rmap iblk) iblk r.1).state with
            | true =>
                obtain ⟨y, hy, hyclu, hyblk⟩ := hhead hs
                obtain rfl := Option.mem_unique hx hy
                exact h.apart hs ⟨hyblk.symm.trans hnext.1, hyclu.symm.trans hnext.2⟩
            | false =>
                have hlo := (hnew.within x (List.mem_of_mem_head? hx)).1
                have hblk := hnext.1
                simp only [Pending.start, hs, Bool.false_eq_true, if_false] at hlo
                simp only at hblk
                omega
          refine .inr ⟨t', ⟨e.clu, e.iblk, e.len⟩ :: new, hrun, ?_, ?_, fun _ => ⟨_, rfl, rfl, rfl⟩⟩
          · rw [ht', ht, List.append_assoc]
            rfl
          · rw [h.blocks] at hnew
            have hall := Lists.cons (f := ⟨e.clu, e.iblk, e.len⟩) (hnew.weaken h.start) hlen
              hiblk.le (by omega) hclu hmax
            simpa [Pending.blocks, Pending.start, h.state] using hall

/-- `rmap2freemap` lists the blocks that the map names. -/
theorem rmap2freemap_lists (realloc : ℕ → Bool) (rmap : ℕ → UInt32) (t : ExtentMap FreeExtent)
    {s a : ℕ} (hpos : 0 < s) (hle : s ≤ a) (ha : a ≤ 2 ^ 32) :
    (rmap2freemap realloc rmap s a t = none ∧ ∃ n, realloc n = false) ∨
      ∃ t' new, rmap2freemap realloc rmap s a t = some t' ∧ t'.extents = t.extents ++ new ∧
        Lists (named rmap s (a - s)) s a new := by
  have hidle : (⟨0, 0, 0, false⟩ : Pending).Before s :=
    ⟨fun h => absurd h (by simp), fun _ => ⟨rfl, hpos⟩⟩
  rcases rmapBlocks_lists realloc rmap t (k := a - s) hidle hpos (by omega) with
    hno | ⟨t', new, hrun, ht', hnew, -⟩
  · exact .inl hno
  · rw [Nat.add_sub_of_le hle] at hnew
    exact .inr ⟨t', new, hrun, ht', hnew⟩

/-- The extents of the range `[s, a)`: in order, apart, as long as can be, and with the clusters
that the map names. -/
structure RunsIn (rmap : ℕ → UInt32) (s a : ℕ) (m : List FreeExtent) : Prop where
  sorted : SortedMap m
  maximal : m.IsChain fun e x => ¬ e.Continues x
  exact : ∀ i c, (∃ e ∈ m, e.Has i ∧ e.cluAt i = c) ↔
    (s ≤ i ∧ i < a) ∧ rmap i ≠ zeroIndexMark ∧ (rmap i).toNat = c

theorem FreeExtent.mem_blocks_iff {x : FreeExtent} {i c : ℕ} :
    (i, c) ∈ x.blocks ↔ x.Has i ∧ x.cluAt i = c := by
  unfold FreeExtent.blocks FreeExtent.Has FreeExtent.cluAt
  rw [List.mem_map]
  constructor
  · rintro ⟨j, hj, heq⟩
    cases heq
    have hlt := List.mem_range.mp hj
    exact ⟨by omega, by omega⟩
  · rintro ⟨⟨hle, hlt⟩, rfl⟩
    exact ⟨i - x.iblk, List.mem_range.mpr (by omega), by rw [Nat.add_sub_of_le hle]⟩

theorem Lists.runsIn {s a : ℕ} {m : List FreeExtent} (h : Lists (named rmap s (a - s)) s a m) :
    RunsIn rmap s a m where
  sorted := h.sorted
  maximal := h.maximal
  exact i c := by
    have hmem : (∃ e ∈ m, e.Has i ∧ e.cluAt i = c) ↔ (i, c) ∈ named rmap s (a - s) := by
      rw [← h.blocks, List.mem_flatMap]
      simp only [FreeExtent.mem_blocks_iff]
    rw [hmem, mem_named]
    constructor
    · rintro ⟨hs, ha, hnamed⟩
      exact ⟨⟨hs, by omega⟩, hnamed⟩
    · rintro ⟨⟨hs, ha⟩, hnamed⟩
      exact ⟨hs, by omega, hnamed⟩

/-- `rmap2freemap` appends the runs of the range, or there is no memory. -/
theorem rmap2freemap_runs (realloc : ℕ → Bool) (rmap : ℕ → UInt32) (t : ExtentMap FreeExtent)
    (s a : ℕ) (hpos : 1 ≤ s) (ha : a < 2 ^ 32) :
    (rmap2freemap realloc rmap s a t = none ∧ ∃ n, realloc n = false) ∨
      ∃ t' new, rmap2freemap realloc rmap s a t = some t' ∧ t'.extents = t.extents ++ new ∧
        RunsIn rmap s a new := by
  rcases Nat.le_total s a with hle | hle
  · rcases rmap2freemap_lists realloc rmap t hpos hle ha.le with
      hno | ⟨t', new, hrun, ht', hnew⟩
    · exact .inl hno
    · exact .inr ⟨t', new, hrun, ht', hnew.runsIn⟩
  · have hzero : a - s = 0 := Nat.sub_eq_zero_of_le hle
    refine .inr ⟨t, [], ?_, (List.append_nil _).symm, ?_⟩
    · rw [rmap2freemap, hzero, rmapBlocks]
      rfl
    · have hnil : Lists (named rmap s (a - s)) s a [] := by
        rw [hzero]
        exact Lists.nil
      exact hnil.runsIn

/-- Only block 1 has a cluster. -/
def oneRun (i : ℕ) : UInt32 := if i = 1 then 7 else zeroIndexMark

theorem rmap2freemap_runs_oneRun :
    (rmap2freemap (fun _ => true) oneRun 1 3 ⟨1, []⟩ = none ∧
      ∃ n, (fun _ : ℕ => true) n = false) ∨
    ∃ t' new, rmap2freemap (fun _ => true) oneRun 1 3 ⟨1, []⟩ = some t' ∧
      t'.extents = [] ++ new ∧ RunsIn oneRun 1 3 new :=
  rmap2freemap_runs _ _ _ 1 3 (by decide) (by decide)

end Rmap

/-! ## The marks -/

/-- A block with its cluster and the mark that it lies in the map of free blocks. -/
def marked (m : List FreeExtent) (x : ℕ × ℕ) : ℕ × ℕ × Bool :=
  (x.1, x.2, (freeOwner m x.1).isSome)

/-- What the split of one extent leaves of the free map and adds to the relocation map. -/
structure SplitTo (m : List FreeExtent) (e : FreeExtent) (t : ExtentMap RelocExtent)
    (r : List FreeExtent × ExtentMap RelocExtent) : Prop where
  suffix : r.1 <:+ m
  owner : ∀ b, e.iblk + e.len ≤ b → freeOwner r.1 b = freeOwner m b
  extents : ∃ new, r.2.extents = t.extents ++ new ∧
    new.flatMap RelocExtent.blocks = e.blocks.map (marked m) ∧ (0 < e.len → new ≠ [])

section Split

variable {realloc : ℕ → Bool} {m fs : List FreeExtent} {f : FreeExtent} {ri rc rl l : ℕ}
  {t t' : ExtentMap RelocExtent}

theorem FreeExtent.blocks_add (clu iblk k l : ℕ) :
    FreeExtent.blocks ⟨clu, iblk, k + l⟩ =
      FreeExtent.blocks ⟨clu, iblk, k⟩ ++ FreeExtent.blocks ⟨clu + k, iblk + k, l⟩ := by
  simp only [FreeExtent.blocks, List.range_add, List.map_append, List.map_map, Function.comp_def,
    Nat.add_assoc]

theorem FreeExtent.mem_blocks {e : FreeExtent} {x : ℕ × ℕ} (h : x ∈ e.blocks) : e.Has x.1 := by
  obtain ⟨i, hi, rfl⟩ := List.mem_map.mp h
  exact ⟨Nat.le_add_right _ _, Nat.add_lt_add_left (List.mem_range.mp hi) _⟩

/-- An extent with one mark. -/
theorem RelocExtent.blocks_eq {free : Bool}
    (h : ∀ b, ri ≤ b → b < ri + l → (freeOwner m b).isSome = free) :
    RelocExtent.blocks ⟨rc, ri, l, free⟩ = (FreeExtent.blocks ⟨rc, ri, l⟩).map (marked m) := by
  simp only [RelocExtent.blocks, FreeExtent.blocks, List.map_map]
  apply List.map_congr_left
  intro i hi
  have hlt := List.mem_range.mp hi
  simp only [Function.comp_apply, marked]
  rw [h (ri + i) (by omega) (by omega)]

theorem marked_congr {e : FreeExtent} (h : ∀ b, e.iblk ≤ b → freeOwner fs b = freeOwner m b) :
    e.blocks.map (marked fs) = e.blocks.map (marked m) := by
  apply List.map_congr_left
  intro x hx
  rw [marked, marked, h x.1 (FreeExtent.mem_blocks hx).1]

theorem relocmapAddExtent_cases (realloc : ℕ → Bool) (t : ExtentMap RelocExtent) (rc ri : ℕ)
    (hl : 0 < l) (free : Bool) :
    (relocmapAddExtent realloc t rc ri l free = none ∧ ∃ n, realloc n = false) ∨
      ∃ t', relocmapAddExtent realloc t rc ri l free = some t' ∧
        t'.extents = t.extents ++ [⟨rc, ri, l, free⟩] := by
  rw [relocmapAddExtent, if_neg hl.ne']
  exact t.add_cases realloc _

/-- Where the piece before or in the free extent ends. -/
def stopAt (f : FreeExtent) (ri : ℕ) : ℕ := if f.iblk ≤ ri then f.iblk + f.len else f.iblk

theorem lt_stopAt (h : ri < f.iblk + f.len) : ri < stopAt f ri := by
  unfold stopAt
  split
  · exact h
  · omega

/-- The blocks of the piece are all free or all in use. -/
theorem isSome_freeOwner_piece (hs : SortedMap (f :: fs)) {b : ℕ} (hb : ri ≤ b)
    (hstop : b < stopAt f ri) : (freeOwner (f :: fs) b).isSome = decide (f.iblk ≤ ri) := by
  unfold stopAt at hstop
  split at hstop
  case isTrue hle =>
    rw [freeOwner_cons, if_pos ⟨hle.trans hb, hstop⟩, decide_eq_true hle]
    rfl
  case isFalse hlt =>
    rw [freeOwner_before hs hstop, decide_eq_false hlt]
    rfl

theorem u32Sub_of_le {x y : ℕ} (hx : x < 2 ^ 32) (hy : y ≤ x) : u32Sub x y = x - y := by
  rw [u32Sub, u32]
  omega

theorem pieceLen_eq (hm : EndsFit (f :: fs)) (hri : ri + rl < 2 ^ 32) (hlt : ri < stopAt f ri) :
    pieceLen ri rl f = min (ri + rl) (stopAt f ri) - ri := by
  unfold stopAt at hlt ⊢
  rw [pieceLen, u32_of_lt hri, u32_of_lt (hm f (by simp))]
  split
  case isTrue hle =>
    rw [if_pos hle] at hlt
    exact u32Sub_of_le (by omega) (by omega)
  case isFalse hnot =>
    rw [if_neg hnot] at hlt
    exact u32Sub_of_le (by omega) (by omega)

/-- One extent of the range is split where the free extents begin and end. -/
theorem splitExtent_spec (realloc : ℕ → Bool) (t : ExtentMap RelocExtent) {fuel : ℕ}
    (hs : SortedMap m) (hm : EndsFit m)
    (hri : ri + rl < 2 ^ 32) (hrc : rc + rl < 2 ^ 32) (hfuel : rl < fuel) :
    (splitExtent realloc fuel m ri rc rl t = some (.error .malloc) ∧ ∃ n, realloc n = false) ∨
      ∃ r, splitExtent realloc fuel m ri rc rl t = some (.ok r) ∧ SplitTo m ⟨rc, ri, rl⟩ t r := by
  induction fuel generalizing m ri rc rl t with
  | zero => exact absurd hfuel (Nat.not_lt_zero _)
  | succ fuel ih =>
      rw [splitExtent]
      by_cases hrl : 0 < rl
      swap
      · obtain rfl := Nat.eq_zero_of_not_pos hrl
        refine .inr ⟨(m, t), if_neg hrl, List.suffix_refl m, fun _ _ => rfl, [], ?_, rfl, ?_⟩
        · exact (List.append_nil _).symm
        · exact fun h => absurd h hrl
      · rw [if_pos hrl]
        have howner : ∀ b, ri ≤ b → freeOwner (m.dropWhile (endsBefore ri)) b = freeOwner m b :=
          fun b hb => freeOwner_dropWhile hm hb
        have hsuffix : m.dropWhile (endsBefore ri) <:+ m := List.dropWhile_suffix _
        cases hdrop : m.dropWhile (endsBefore ri) with
        | nil =>
            rw [hdrop] at howner hsuffix
            dsimp only
            rcases relocmapAddExtent_cases realloc t rc ri hrl false with
              ⟨hno, hmem⟩ | ⟨t', hsome, ht'⟩
            · rw [hno]
              exact .inl ⟨rfl, hmem⟩
            · rw [hsome]
              refine .inr ⟨([], t'), rfl, hsuffix,
                fun b hb => howner b ((Nat.le_add_right ri rl).trans hb), _, ht', ?_, ?_⟩
              · rw [List.flatMap_singleton]
                apply RelocExtent.blocks_eq
                intro b hb _
                rw [← howner b hb]
                rfl
              · exact fun _ => List.cons_ne_nil _ _
        | cons f fs =>
            have hlt := lt_stopAt (lt_of_dropWhile hm hdrop)
            rw [hdrop] at howner hsuffix
            have hs' := hs.suffix hsuffix
            have hm' := hm.suffix hsuffix
            dsimp only
            rw [pieceLen_eq hm' hri hlt]
            obtain ⟨l, hl⟩ : ∃ l, l = min (ri + rl) (stopAt f ri) - ri := ⟨_, rfl⟩
            rw [← hl]
            have hpos : 0 < l := by omega
            have hle : l ≤ rl := by omega
            rcases relocmapAddExtent_cases realloc t rc ri hpos (decide (f.iblk ≤ ri)) with
              ⟨hno, hmem⟩ | ⟨t', hsome, ht'⟩
            · rw [hno]
              exact .inl ⟨rfl, hmem⟩
            · rw [hsome]
              have hri' : u32 (ri + l) = ri + l := u32_of_lt (by omega)
              have hrc' : u32 (rc + l) = rc + l := u32_of_lt (by omega)
              have hrl' : u32Sub rl l = rl - l := u32Sub_of_le (by omega) hle
              simp only [hri', hrc', hrl']
              have hri₂ : ri + l + (rl - l) < 2 ^ 32 := by omega
              have hrc₂ : rc + l + (rl - l) < 2 ^ 32 := by omega
              rcases ih t' hs' hm' hri₂ hrc₂ (by omega) with hno | ⟨r, hr, hsplit⟩
              · exact .inl hno
              · refine .inr ⟨r, hr, hsplit.suffix.trans hsuffix, ?_, ?_⟩
                · intro b hb
                  dsimp only at hb
                  rw [hsplit.owner b (by dsimp only; omega), howner b (by omega)]
                · obtain ⟨new, hnew, hblocks, -⟩ := hsplit.extents
                  refine ⟨⟨rc, ri, l, decide (f.iblk ≤ ri)⟩ :: new, ?_, ?_, ?_⟩
                  · rw [hnew, ht', List.append_assoc]
                    rfl
                  · have hpiece : RelocExtent.blocks ⟨rc, ri, l, decide (f.iblk ≤ ri)⟩ =
                        (FreeExtent.blocks ⟨rc, ri, l⟩).map (marked m) := by
                      apply RelocExtent.blocks_eq
                      intro b hb hbl
                      rw [← howner b hb]
                      exact isSome_freeOwner_piece hs' hb (by omega)
                    rw [List.flatMap_cons, hblocks, hpiece,
                      marked_congr fun b hb => howner b ((Nat.le_add_right ri l).trans hb),
                      ← List.map_append, ← FreeExtent.blocks_add, Nat.add_sub_of_le hle]
                  · exact fun _ => List.cons_ne_nil _ _

/-- The blocks of the range, with their marks, in at least as many extents. -/
structure SplitInto (m es : List FreeExtent) (new : List RelocExtent) : Prop where
  blocks : new.flatMap RelocExtent.blocks = (es.flatMap FreeExtent.blocks).map (marked m)
  length : es.length ≤ new.length

theorem splitExtents_spec (realloc : ℕ → Bool) (t : ExtentMap RelocExtent) {fuel : ℕ}
    {es : List FreeExtent} (hes : SortedMap es)
    (hfits : BelowMark es) (hs : SortedMap m) (hm : EndsFit m) (hfuel : 2 ^ 32 ≤ fuel) :
    (splitExtents realloc fuel es m t = some (.error .malloc) ∧ ∃ n, realloc n = false) ∨
      ∃ t' new, splitExtents realloc fuel es m t = some (.ok t') ∧
        t'.extents = t.extents ++ new ∧ SplitInto m es new := by
  induction es generalizing m t with
  | nil => exact .inr ⟨t, [], rfl, (List.append_nil _).symm, rfl, le_rfl⟩
  | cons e es ih =>
      have hfit := hfits e (by simp)
      have hfirst := (List.pairwise_cons.mp hes.disjoint).1
      rw [splitExtents]
      rcases splitExtent_spec realloc t hs hm hfit.1 hfit.2
        (show e.len < fuel by omega) with ⟨hno, hmem⟩ | ⟨r, hr, hsplit⟩
      · rw [hno]
        exact .inl ⟨rfl, hmem⟩
      · rw [hr]
        dsimp only
        obtain ⟨new₁, hnew₁, hblocks₁, hne⟩ := hsplit.extents
        rcases ih r.2 hes.tail (fun f hf => hfits f (List.mem_cons_of_mem _ hf))
          (hs.suffix hsplit.suffix) (hm.suffix hsplit.suffix) with hno | ⟨t', new, hrun, ht', hnew⟩
        · exact .inl hno
        · refine .inr ⟨t', new₁ ++ new, hrun, ?_, ?_, ?_⟩
          · rw [ht', hnew₁, List.append_assoc]
          · have hrest : (es.flatMap FreeExtent.blocks).map (marked r.1) =
                (es.flatMap FreeExtent.blocks).map (marked m) := by
              apply List.map_congr_left
              intro x hx
              obtain ⟨f, hf, hxf⟩ := List.mem_flatMap.mp hx
              rw [marked, marked, hsplit.owner x.1]
              exact (hfirst f hf).trans (FreeExtent.mem_blocks hxf).1
            rw [List.flatMap_append, hnew.blocks, hrest, hblocks₁, List.flatMap_cons,
              List.map_append]
          · have hpos := List.length_pos_iff.mpr (hne (hes.positive e (by simp)))
            have hlen := hnew.length
            rw [List.length_append, List.length_cons]
            omega

/-- `range_split` lists the blocks of the range with their marks. It does not abort. -/
theorem rangeSplit_spec (realloc : ℕ → Bool) (t : ExtentMap RelocExtent) {fuel : ℕ}
    {rangemap freemap : ExtentMap FreeExtent}
    (hes : SortedMap rangemap.extents) (hfits : BelowMark rangemap.extents)
    (hs : SortedMap freemap.extents) (hm : EndsFit freemap.extents) (hfuel : 2 ^ 32 ≤ fuel) :
    (rangeSplit realloc fuel rangemap freemap t = some (.error .malloc) ∧
        ∃ n, realloc n = false) ∨
      ∃ t' new, rangeSplit realloc fuel rangemap freemap t = some (.ok t') ∧
        t'.extents = t.extents ++ new ∧ SplitInto freemap.extents rangemap.extents new := by
  rw [rangeSplit]
  rcases splitExtents_spec realloc t hes hfits hs hm hfuel with
    ⟨hno, hmem⟩ | ⟨t', new, hrun, ht', hnew⟩
  · rw [hno]
    exact .inl ⟨rfl, hmem⟩
  · rw [hrun]
    dsimp only
    have hlen : ¬ t'.extents.length < rangemap.extents.length := by
      have hle := hnew.length
      rw [ht', List.length_append]
      omega
    rw [if_neg hlen]
    exact .inr ⟨t', new, rfl, ht', hnew⟩

end Split

end Ploop.Balloon
