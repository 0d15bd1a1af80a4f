import Ploop.Cbt.Extension
import Ploop.Cbt.Search

/-!
# Handing a bitmap to the kernel

`cbt_set_dirty_bitmap_part` passes the runs of set bits of a bitmap to `BLKCBTSET`, up to 512 of
them in one call.
-/

namespace Ploop.Cbt

open Storage Runs

def cbtMaxExtents : ℕ := 512

/-- `struct blk_user_cbt_extent` -/
structure CbtExtent where
  cePhysical : ℕ
  ceLength : ℕ
  deriving DecidableEq

/-- What `BLKCBTSET` reads of its argument; both counts of the argument are the number of the
extents. -/
structure SetCall where
  ciUuid : Sig
  ciExtents : List CbtExtent

section Upload

variable (blkcbtset : List SetCall → Bool) (uuid : Sig) (bmap : ℕ → BitVec 64)
  (size offset byteGranularity : ℕ)

/-- A `__s64` in a `__u32` argument. -/
def low32 (x : ℤ) : ℕ := (x % 2 ^ 32).toNat

/-- `(bit + offset) * byte_granularity` -/
def bitBytes (bit : ℤ) : ℕ := ((bit + offset) * byteGranularity % 2 ^ 64).toNat

/-- Where the run ends that begins at `bit`. -/
def runEnd (bit : ℤ) : ℤ :=
  let bit := bitFindNextClear64 bmap (u32 size) (low32 (bit + 1))
  if bit = -1 then size else bit

/-- The extent of a run. -/
def toExtent (bit bit' : ℤ) : CbtExtent where
  cePhysical := bitBytes offset byteGranularity bit
  ceLength := u64 (bitBytes offset byteGranularity bit' + 2 ^ 64
    - bitBytes offset byteGranularity bit)

/-- One more call; `blkcbtset` tells from all calls so far whether the last one succeeds. -/
def ioctlSet (cur : List CbtExtent) (calls : List SetCall) : Bool × List SetCall :=
  (blkcbtset (calls ++ [⟨uuid, cur⟩]), calls ++ [⟨uuid, cur⟩])

/-- After the loop. -/
def setRest (cur : List CbtExtent) (calls : List SetCall) : Option Sysexit × List SetCall :=
  if 0 < cur.length then
    match ioctlSet blkcbtset uuid cur calls with
    | (true, calls) => (none, calls)
    | (false, calls) => (some .devioc, calls)
  else (none, calls)

/-- The loop, with the extents filled in since the last call and the calls made. It comes to no
end within its fuel when the answer is `none`. -/
def setLoop : ℕ → ℤ → List CbtExtent → List SetCall → Option (Option Sysexit × List SetCall)
  | 0, _, _, _ => none
  | fuel + 1, bit, cur, calls =>
      if bit = -1 then some (setRest blkcbtset uuid cur calls)
      else
        let bit' := runEnd bmap size bit
        let cur := cur ++ [toExtent offset byteGranularity bit bit']
        let next := bitFindNextSet64 bmap (u32 size) (low32 (bit' + 1))
        if cur.length = cbtMaxExtents then
          match ioctlSet blkcbtset uuid cur calls with
          | (true, calls) => setLoop fuel next [] calls
          | (false, calls) => some (some .devioc, calls)
        else setLoop fuel next cur calls

/-- `cbt_set_dirty_bitmap_part` -/
def cbtSetDirtyBitmapPart (malloc : Bool) (buf : ℕ → UInt8) (fuel : ℕ) :
    Option (Option Sysexit × List SetCall) :=
  if malloc then
    setLoop blkcbtset uuid (word64 buf) size offset byteGranularity fuel
      (bitFindNextSet64 (word64 buf) (u32 size) 0) [] []
  else some (some .malloc, [])

end Upload

/-! ## What is sent -/

/-- The bytes of the run `[r.1, r.2)` of the bitmap, in 64 bits. -/
def runBytes (offset byteGranularity : ℕ) (r : ℕ × ℕ) : CbtExtent where
  cePhysical := u64 ((r.1 + offset) * byteGranularity)
  ceLength := u64 ((r.2 - r.1) * byteGranularity)

/-- What came of sending the extents `es` after `calls`: each call passes between one and 512 of
them, and all are passed, in order, unless a call fails. -/
def Sent (blkcbtset : List SetCall → Bool) (uuid : Sig) (calls : List SetCall)
    (es : List CbtExtent) (r : Option Sysexit × List SetCall) : Prop :=
  ∃ sent, r.2 = calls ++ sent ∧
    (∀ c ∈ sent, c.ciUuid = uuid ∧ 0 < c.ciExtents.length ∧ c.ciExtents.length ≤ 512) ∧
    sent.flatMap SetCall.ciExtents <+: es ∧
    (r.1 = none ∧ sent.flatMap SetCall.ciExtents = es ∨
      r.1 = some .devioc ∧ blkcbtset r.2 = false)

variable {blkcbtset : List SetCall → Bool} {uuid : Sig} {w : ℕ → BitVec 64}
  {size offset byteGranularity fuel a : ℕ} {cur es : List CbtExtent} {calls : List SetCall}
  {r : Option Sysexit × List SetCall} {bit : ℤ}

theorem Sent.call (hlen : 0 < cur.length) (hmax : cur.length ≤ 512)
    (h : Sent blkcbtset uuid (calls ++ [⟨uuid, cur⟩]) es r) :
    Sent blkcbtset uuid calls (cur ++ es) r := by
  obtain ⟨sent, hcalls, hbatch, hpre, hret⟩ := h
  refine ⟨⟨uuid, cur⟩ :: sent, ?_, ?_, ?_, ?_⟩
  · rw [hcalls, List.append_assoc]
    rfl
  · intro c hc
    rcases List.mem_cons.mp hc with rfl | hc
    · exact ⟨rfl, hlen, hmax⟩
    · exact hbatch c hc
  · rw [List.flatMap_cons]
    exact (List.prefix_append_right_inj cur).mpr hpre
  · apply hret.imp_left
    rintro ⟨hnone, hall⟩
    exact ⟨hnone, by rw [List.flatMap_cons, hall]⟩

theorem Sent.failed (hlen : 0 < cur.length) (hmax : cur.length ≤ 512)
    (h : blkcbtset (calls ++ [⟨uuid, cur⟩]) = false) :
    Sent blkcbtset uuid calls (cur ++ es) (some .devioc, calls ++ [⟨uuid, cur⟩]) := by
  apply Sent.call hlen hmax
  exact ⟨[], (List.append_nil _).symm, fun _ hc => absurd hc List.not_mem_nil, List.nil_prefix,
    .inr ⟨rfl, h⟩⟩

theorem sent_nil : Sent blkcbtset uuid calls [] (none, calls) :=
  ⟨[], (List.append_nil _).symm, fun _ hc => absurd hc List.not_mem_nil, List.nil_prefix,
    .inl ⟨rfl, rfl⟩⟩

theorem setRest_sent (hmax : cur.length ≤ 512) :
    Sent blkcbtset uuid calls cur (setRest blkcbtset uuid cur calls) := by
  rw [setRest]
  split
  · next hlen =>
      dsimp only [ioctlSet]
      split
      · next heq =>
          obtain ⟨-, rfl⟩ := Prod.mk.inj heq
          have h : Sent blkcbtset uuid calls (cur ++ []) (none, calls ++ [⟨uuid, cur⟩]) :=
            sent_nil.call hlen hmax
          rwa [List.append_nil] at h
      · next calls' heq =>
          obtain ⟨hfail, rfl⟩ := Prod.mk.inj heq
          have h : Sent blkcbtset uuid calls (cur ++ []) (some .devioc, calls ++ [⟨uuid, cur⟩]) :=
            Sent.failed hlen hmax hfail
          rwa [List.append_nil] at h
  · next hlen =>
      rw [List.eq_nil_of_length_eq_zero (Nat.eq_zero_of_not_pos hlen)]
      exact sent_nil

/-! ## One turn -/

/-- The last run does not end at the greatest `__u32`. -/
def EndsEarly (w : ℕ → BitVec 64) (size : ℕ) : Prop :=
  size + 1 < 2 ^ 32 ∨ size + 1 = 2 ^ 32 ∧ ¬ bitAt w (size - 1)

theorem low32_of_lt {i : ℕ} (h : i < 2 ^ 32) : low32 (i : ℤ) = i := by
  rw [low32]
  omega

theorem EndsEarly.lt (h : EndsEarly w size) : size < 2 ^ 32 := by
  rcases h with h | ⟨h, -⟩ <;> omega

/-- The run that begins at a set bit is maximal, and the scan goes on behind it. -/
theorem runEnd_spec (hsize : EndsEarly w size) {s : ℕ} (hs : s < size) (hbit : bitAt w s) :
    ∃ e : ℕ, runEnd w size s = e ∧ s < e ∧ e ≤ size ∧ e + 1 < 2 ^ 32 ∧
      (∀ j, s ≤ j → j < e → bitAt w j) ∧ (e < size → ¬ bitAt w e) := by
  have hlt := hsize.lt
  have hnext : low32 ((s : ℤ) + 1) = s + 1 := low32_of_lt (i := s + 1) (by omega)
  have hfind := bitFindNextClear64_finds w (s + 1) hlt
  rw [runEnd, u32_of_lt hlt, hnext]
  generalize bitFindNextClear64 w size (s + 1) = x at hfind ⊢
  cases hfind with
  | none hno =>
      have hset : ∀ j, s ≤ j → j < size → bitAt w j := by
        intro j hsj hj
        rcases hsj.eq_or_lt with rfl | hsj
        · exact hbit
        · exact not_not.mp (hno j hsj hj)
      refine ⟨size, if_pos rfl, hs, le_rfl, ?_, hset, fun h => absurd h (lt_irrefl _)⟩
      rcases hsize with h | ⟨-, hlast⟩
      · exact h
      · exact absurd (hset (size - 1) (by omega) (by omega)) hlast
  | «at» e hse he hclear hset =>
      refine ⟨e, if_neg (by omega), hse, he.le, by omega, ?_, fun _ => hclear⟩
      intro j hsj hj
      rcases hsj.eq_or_lt with rfl | hsj
      · exact hbit
      · exact not_not.mp (hset j hsj hj)

theorem toExtent_run {s e : ℕ} (hse : s < e) :
    toExtent offset byteGranularity s e = runBytes offset byteGranularity (s, e) := by
  have hbytes (i : ℕ) : bitBytes offset byteGranularity i =
      u64 ((i + offset) * byteGranularity) := by
    have hcast : ((i : ℤ) + offset) * byteGranularity % 2 ^ 64 =
        (((i + offset) * byteGranularity % 2 ^ 64 : ℕ) : ℤ) := by
      push_cast
      rfl
    rw [bitBytes, hcast, Int.toNat_natCast, u64]
  have hsplit : (e + offset) * byteGranularity =
      (e - s) * byteGranularity + (s + offset) * byteGranularity := by
    rw [← Nat.add_mul]
    congr 1
    omega
  rw [toExtent, runBytes, hbytes, hbytes, hsplit]
  congr 1
  simp only [u64]
  omega

/-! ## The loop -/

theorem setLoop_sent (hsize : EndsEarly w size) (hfuel : size + 1 ≤ fuel + a) (hpos : 0 < fuel)
    (hcur : cur.length < 512) (hbefore : ∀ j, j + 1 = a → j < size → ¬ bitAt w j)
    (hbit : Finds (bitAt w) a size bit) :
    ∃ l r, RunsFrom (bitAt w) size a l ∧
      setLoop blkcbtset uuid w size offset byteGranularity fuel bit cur calls = some r ∧
      Sent blkcbtset uuid calls (cur ++ l.map (runBytes offset byteGranularity)) r := by
  induction fuel generalizing a bit cur calls with
  | zero => exact absurd hpos (lt_irrefl 0)
  | succ fuel ih =>
      rw [setLoop]
      cases hbit with
      | none hno =>
          refine ⟨[], _, RunsFrom.nil hno, if_pos rfl, ?_⟩
          rw [List.map_nil, List.append_nil]
          exact setRest_sent hcur.le
      | «at» s has hs hset hno =>
          obtain ⟨e, hend, hse, hes, hlow, hrun, hstop⟩ := runEnd_spec hsize hs hset
          have hnext := bitFindNextSet64_finds w (e + 1) hsize.lt
          have hlow' : low32 ((e : ℤ) + 1) = e + 1 := low32_of_lt (i := e + 1) hlow
          have hbehind : ∀ j, j + 1 = e + 1 → j < size → ¬ bitAt w j := by
            intro j hj hjs
            obtain rfl := Nat.succ.inj hj
            exact hstop hjs
          rw [if_neg (by omega), hend]
          dsimp only [ioctlSet]
          rw [toExtent_run hse, u32_of_lt hsize.lt, hlow']
          split
          · next hfull =>
              split
              · next heq =>
                  obtain ⟨-, rfl⟩ := Prod.mk.inj heq
                  have hempty : ([] : List CbtExtent).length < 512 := by norm_num
                  obtain ⟨l, r, hl, hr, hsent⟩ := ih (by omega) (by omega) hempty hbehind hnext
                  refine ⟨(s, e) :: l, r, hl.cons has hse hes hbefore hno hrun hstop, hr, ?_⟩
                  rw [List.nil_append] at hsent
                  rw [List.map_cons, ← List.singleton_append, ← List.append_assoc]
                  exact hsent.call (by simp) hfull.le
              · next calls' heq =>
                  obtain ⟨hfail, rfl⟩ := Prod.mk.inj heq
                  obtain ⟨l, hl⟩ := RunsFrom.exists_runs (bitAt w) size (e + 1) hbehind
                  refine ⟨(s, e) :: l, _, hl.cons has hse hes hbefore hno hrun hstop, rfl, ?_⟩
                  rw [List.map_cons, ← List.singleton_append, ← List.append_assoc]
                  exact Sent.failed (by simp) hfull.le hfail
          · next hroom =>
              have hlen : (cur ++ [runBytes offset byteGranularity (s, e)]).length < 512 := by
                rw [List.length_append, List.length_singleton, cbtMaxExtents] at hroom
                rw [List.length_append, List.length_singleton]
                omega
              obtain ⟨l, r, hl, hr, hsent⟩ := ih (by omega) (by omega) hlen hbehind hnext
              refine ⟨(s, e) :: l, r, hl.cons has hse hes hbefore hno hrun hstop, hr, ?_⟩
              rwa [List.map_cons, ← List.singleton_append, ← List.append_assoc]

/-- For a bitmap whose length fits the `__u32` of the searches (and whose last bit is clear if
that length is the greatest `__u32`), the calls pass exactly the maximal runs of set bits, up to
the first call that fails. -/
theorem cbtSetDirtyBitmapPart_runs (blkcbtset : List SetCall → Bool) (uuid : Sig)
    (buf : ℕ → UInt8) (size offset byteGranularity : ℕ) (malloc : Bool)
    (hsize : size + 1 < 2 ^ 32 ∨ size + 1 = 2 ^ 32 ∧ testBit buf (size - 1) = false) :
    (∀ off, Finds (fun j => testBit buf j = true) off size
        (bitFindNextSet64 (word64 buf) size off) ∧
      Finds (fun j => testBit buf j = false) off size
        (bitFindNextClear64 (word64 buf) size off)) ∧
    ∃ runs, RunsOf (fun j => testBit buf j = true) size runs ∧
      ∀ fuel, size < fuel →
        ∃ r, cbtSetDirtyBitmapPart blkcbtset uuid size offset byteGranularity malloc buf fuel =
            some r ∧
          if malloc then
            Sent blkcbtset uuid [] (runs.map (runBytes offset byteGranularity)) r
          else r = (some .malloc, []) := by
  have hset : bitAt (word64 buf) = fun j => testBit buf j = true :=
    funext fun j => propext (bitAt_word64 buf j)
  have hclear : (fun j => ¬ bitAt (word64 buf) j) = fun j => testBit buf j = false := by
    funext j
    rw [hset, Bool.not_eq_true]
  have hends : EndsEarly (word64 buf) size := by
    apply hsize.imp_right
    rintro ⟨hmax, hlast⟩
    refine ⟨hmax, ?_⟩
    rw [bitAt_word64, hlast]
    exact Bool.false_ne_true
  constructor
  · intro off
    rw [← hset, ← hclear]
    exact ⟨bitFindNextSet64_finds _ off hends.lt, bitFindNextClear64_finds _ off hends.lt⟩
  · obtain ⟨runs, hruns⟩ := RunsFrom.exists_runs (fun j => testBit buf j = true) size 0
      fun j hj => absurd hj j.succ_ne_zero
    refine ⟨runs, hruns, ?_⟩
    intro fuel hfuel
    rw [← hset] at hruns
    rw [cbtSetDirtyBitmapPart]
    split
    · have hempty : ([] : List CbtExtent).length < 512 := by norm_num
      have hfirst := bitFindNextSet64_finds (word64 buf) 0 hends.lt
      have hloop : ∃ l r, RunsFrom (bitAt (word64 buf)) size 0 l ∧
          setLoop blkcbtset uuid (word64 buf) size offset byteGranularity fuel
            (bitFindNextSet64 (word64 buf) size 0) [] [] = some r ∧
          Sent blkcbtset uuid [] ([] ++ l.map (runBytes offset byteGranularity)) r :=
        setLoop_sent hends hfuel (by omega) hempty (fun j hj => absurd hj j.succ_ne_zero) hfirst
      obtain ⟨l, r, hl, hr, hsent⟩ := hloop
      obtain rfl := hl.unique hruns
      rw [u32_of_lt hends.lt]
      exact ⟨r, hr, hsent⟩
    · exact ⟨_, rfl, rfl⟩

/-- A window of 70 bits. -/
theorem cbtSetDirtyBitmapPart_runs_short :
    (∀ off, Finds (fun j => testBit (fun _ => 9) j = true) off 70
        (bitFindNextSet64 (word64 fun _ => 9) 70 off) ∧
      Finds (fun j => testBit (fun _ => 9) j = false) off 70
        (bitFindNextClear64 (word64 fun _ => 9) 70 off)) ∧
    ∃ runs, RunsOf (fun j => testBit (fun _ => 9) j = true) 70 runs ∧
      ∀ fuel, 70 < fuel →
        ∃ r, cbtSetDirtyBitmapPart (fun _ => true) (1, 2, 3, 4) 70 32 65536 true (fun _ => 9) fuel =
            some r ∧
          if true then Sent (fun _ => true) (1, 2, 3, 4) [] (runs.map (runBytes 32 65536)) r
          else r = (some .malloc, []) :=
  cbtSetDirtyBitmapPart_runs (fun _ => true) (1, 2, 3, 4) (fun _ => 9) 70 32 65536 true
    (.inl (by norm_num))

/-- The searches see none of a bitmap of `2 ^ 32` bits. -/
theorem cbtSetDirtyBitmapPart_wraps : ¬ ∀ (uuid : Sig) (buf : ℕ → UInt8)
    (size offset byteGranularity : ℕ), size < 2 ^ 64 →
    ∃ runs, RunsOf (fun j => testBit buf j = true) size runs ∧
      ∃ fuel r, cbtSetDirtyBitmapPart (fun _ => true) uuid size offset byteGranularity true buf
        fuel = some r ∧
        r.2.flatMap SetCall.ciExtents = runs.map (runBytes offset byteGranularity) := by
  intro h
  obtain ⟨runs, hruns, fuel, r, hr, hsent⟩ :=
    h (1, 2, 3, 4) (fun t => if t = 0 then 1 else 0) (2 ^ 32) 0 65536 (by norm_num)
  have hrun : (0, 1) ∈ runs := by
    apply (hruns.mem (0, 1)).mpr
    refine ⟨⟨by norm_num, by norm_num, ?_, ?_, ?_⟩, le_rfl⟩
    · intro j _ hj
      obtain rfl := Nat.lt_one_iff.mp hj
      decide
    · exact fun j hj => absurd hj j.succ_ne_zero
    · exact fun _ => by decide
  have hend : r = (none, []) := by
    cases fuel with
    | zero => exact absurd hr (by simp [cbtSetDirtyBitmapPart, setLoop])
    | succ fuel =>
        have hsearch : bitFindNextSet64 (word64 fun t => if t = 0 then 1 else 0) (u32 (2 ^ 32)) 0
            = -1 := by
          rw [bitFindNextSet64]
          rfl
        rw [cbtSetDirtyBitmapPart, if_pos rfl, hsearch, setLoop, if_pos rfl] at hr
        exact (Option.some.inj hr).symm
  subst hend
  have hnil : runs.map (runBytes 0 65536) = [] := hsent.symm
  rw [List.map_eq_nil_iff] at hnil
  subst hnil
  exact List.not_mem_nil hrun

end Ploop.Cbt
