import Ploop.Balloon.Split

/-!
# The extents of the balloon

`fiemap_get` collects the unwritten extents of the balloon between its old and its new size, and
`fiemap_adjust` rounds them inward to clusters.
-/

namespace Ploop.Balloon

open Storage Program Check

/-- `struct fiemap_extent` -/
structure FiemapExtent where
  logical : ℕ
  physical : ℕ
  length : ℕ
  flags : UInt32
  deriving DecidableEq

def fiemapExtentLast : UInt32 := 0x1

def fiemapExtentUnwritten : UInt32 := 0x800

/-- `struct ploop_extent`, in bytes of the device. -/
structure PloopExtent where
  pos : ℕ
  len : ℕ
  deriving DecidableEq

/-- `x - y` in 64 bits. -/
def u64Sub (x y : ℕ) : ℕ := u64 (x + 2 ^ 64 - y)

/-- `x & ~(cluster - 1)` for a power of two. -/
def maskDown (x cluster : ℕ) : ℕ := x / cluster * cluster

/-! ## `fiemap_add_extent` -/

/-- The new extent is joined to the first that it touches; `none` if it touches none. -/
def absorb (pos len : ℕ) : List PloopExtent → Option (List PloopExtent)
  | [] => none
  | e :: es =>
      if u64 (e.pos + e.len) = pos then some ({ e with len := u64 (e.len + len) } :: es)
      else if u64 (pos + len) = e.pos then some (⟨pos, u64 (e.len + len)⟩ :: es)
      else (absorb pos len es).map fun es => e :: es

section Get

variable (realloc : ℕ → Bool)

def fiemapAddExtent (t : ExtentMap PloopExtent) (pos len : ℕ) :
    Option (ExtentMap PloopExtent) :=
  match absorb pos len t.extents with
  | some es => some { t with extents := es }
  | none => t.add realloc ⟨pos, len⟩

/-! ## `fiemap_get` -/

namespace FiemapExtent

/-- Not unwritten, or with other flags. -/
def Unexpected (e : FiemapExtent) : Prop :=
  e.flags &&& fiemapExtentUnwritten = 0 ∨
    e.flags &&& ~~~fiemapExtentUnwritten &&& ~~~fiemapExtentLast ≠ 0

instance (e : FiemapExtent) : Decidable e.Unexpected := inferInstanceAs (Decidable (_ ∨ _))

def isLast (e : FiemapExtent) : Bool := e.flags &&& fiemapExtentLast ≠ 0

/-- Only the first extent may begin before the range. -/
def clip (start n : ℕ) (e : FiemapExtent) : FiemapExtent :=
  if n = 1 ∧ e.logical < start then
    { e with
      physical := u64 (e.physical + (start - e.logical))
      length := u64Sub e.length (start - e.logical)
      logical := start }
  else e

/-- What becomes of the extent behind `e` when it goes on there on the device. -/
def takeOver (e next : FiemapExtent) : FiemapExtent :=
  { next with
    physical := u64Sub next.physical e.length
    logical := u64Sub next.logical e.length
    length := u64 (next.length + e.length) }

end FiemapExtent

/-- An extent is kept as far as the range goes; true when it is the last of the range. -/
def keepExtent (off size : ℕ) (e : FiemapExtent) (t : ExtentMap PloopExtent) :
    Option (Bool × ExtentMap PloopExtent) :=
  if size ≤ e.logical then some (true, t)
  else if size < u64 (e.logical + e.length) then
    (fiemapAddExtent realloc t (u64 (e.physical + off)) (size - e.logical)).map fun t => (true, t)
  else (fiemapAddExtent realloc t (u64 (e.physical + off)) e.length).map fun t => (false, t)

/-- How a reply ends: with the result of `fiemap_get`, or with what the next call begins with. -/
inductive ReplyEnd where
  | done (t : ExtentMap PloopExtent)
  | next (n fmStart : ℕ) (last : Bool) (t : ExtentMap PloopExtent)

/-- The loop over a reply: `e` comes first, the others are behind it, and `n` came before. -/
def replyExtents (off start size : ℕ) :
    List FiemapExtent → FiemapExtent → ℕ → Bool → ExtentMap PloopExtent → Option ReplyEnd
  | [], e, n, last, t =>
      if e.Unexpected then
        some (.next (n + 1) (u64 (e.logical + e.length)) (last || e.isLast) t)
      else
        let e := e.clip start (n + 1)
        match keepExtent realloc off size e t with
        | none => none
        | some (true, t) => some (.done t)
        | some (false, t) =>
            some (.next (n + 1) (u64 (e.logical + e.length)) (last || e.isLast) t)
  | next :: rest, e, n, last, t =>
      if e.Unexpected then replyExtents off start size rest next (n + 1) (last || e.isLast) t
      else
        let e := e.clip start (n + 1)
        if next.physical = u64 (e.physical + e.length) then
          replyExtents off start size rest (e.takeOver next) (n + 1) (last || e.isLast) t
        else
          match keepExtent realloc off size e t with
          | none => none
          | some (true, t) => some (.done t)
          | some (false, t) =>
              replyExtents off start size rest next (n + 1) (last || e.isLast) t

/-- `fiemap_get` from its `k`th call on; `none` when it goes on. -/
def fiemapGet (fiemap : ℕ → ℕ → Except Sysexit (List FiemapExtent)) (off start size : ℕ) :
    ℕ → ℕ → ℕ → ℕ → ExtentMap PloopExtent →
      Option (Except Sysexit (ExtentMap PloopExtent))
  | 0, _, _, _, _ => none
  | fuel + 1, k, fmStart, n, t =>
      match fiemap k fmStart with
      | .error rc => some (.error rc)
      | .ok [] => some (.ok t)
      | .ok (e :: rest) =>
          match replyExtents realloc off start size rest e n false t with
          | none => some (.error .malloc)
          | some (.done t) => some (.ok t)
          | some (.next n fmStart last t) =>
              if last = false ∧ fmStart < size then
                fiemapGet fiemap off start size fuel (k + 1) fmStart n t
              else some (.ok t)

end Get

/-! ## `fiemap_adjust` -/

def adjustExtent (cluster : ℕ) (e : PloopExtent) : PloopExtent :=
  let pos := maskDown (u64 (e.pos + cluster - 1)) cluster
  if u64 (e.pos + e.len) ≤ pos then ⟨0, 0⟩
  else
    let len := maskDown (u64Sub e.len (u64Sub pos e.pos)) cluster
    if len = 0 then ⟨0, 0⟩ else ⟨pos, len⟩

def fiemapAdjust (cluster : ℕ) (t : ExtentMap PloopExtent) : ExtentMap PloopExtent :=
  { t with extents := t.extents.map (adjustExtent cluster) }

/-! ## Extents that hold what they should -/

/-- The extent ends by `B`, and its bytes are in `F`. -/
structure PloopExtent.Within (F : ℕ → Prop) (B : ℕ) (e : PloopExtent) : Prop where
  ends : e.pos + e.len ≤ B
  bytes : ∀ x, e.pos ≤ x → x < e.pos + e.len → F x

section Within

variable {F : ℕ → Prop} {B pos len cluster : ℕ} {e : PloopExtent} {es es' : List PloopExtent}

theorem u64Sub_of_le {x y : ℕ} (hx : x < 2 ^ 64) (hy : y ≤ x) : u64Sub x y = x - y := by
  unfold u64Sub u64
  omega

theorem PloopExtent.within_empty : PloopExtent.Within F B ⟨0, 0⟩ where
  ends := Nat.zero_le B
  bytes x _ hx := absurd hx (Nat.not_lt_zero x)

/-- Two extents in a row. -/
theorem PloopExtent.Within.join {k l : ℕ} (h : PloopExtent.Within F B ⟨pos, k⟩)
    (h' : PloopExtent.Within F B ⟨pos + k, l⟩) : PloopExtent.Within F B ⟨pos, k + l⟩ where
  ends := by
    have hends := h'.ends
    simp only at hends ⊢
    omega
  bytes := by
    intro x hx hlt
    simp only at hx hlt
    rcases Nat.lt_or_ge x (pos + k) with hk | hk
    · exact h.bytes x hx hk
    · exact h'.bytes x hk (by simp only; omega)

theorem absorb_within (hB : B < 2 ^ 64) (hnew : PloopExtent.Within F B ⟨pos, len⟩)
    (h : ∀ e ∈ es, e.Within F B) (ha : absorb pos len es = some es') :
    ∀ e ∈ es', e.Within F B := by
  have hfit : pos + len ≤ B := hnew.ends
  have hbehind : u64 (pos + len) = pos + len := u64_of_lt (by omega)
  induction es generalizing es' with
  | nil => cases ha
  | cons e es ih =>
      obtain ⟨he, hes⟩ := List.forall_mem_cons.mp h
      have hend := he.ends
      have hbefore : u64 (e.pos + e.len) = e.pos + e.len := u64_of_lt (by omega)
      rw [absorb, hbefore, hbehind] at ha
      split at ha
      case isTrue hpos =>
        subst hpos
        rw [u64_of_lt (by omega)] at ha
        cases ha
        exact List.forall_mem_cons.mpr ⟨he.join hnew, hes⟩
      case isFalse =>
        split at ha
        case isTrue hpos =>
          have he' : PloopExtent.Within F B ⟨pos + len, e.len⟩ := by
            rw [hpos]
            exact he
          rw [u64_of_lt (by omega), Nat.add_comm] at ha
          cases ha
          exact List.forall_mem_cons.mpr ⟨hnew.join he', hes⟩
        case isFalse =>
          obtain ⟨es₁, hes₁, rfl⟩ := Option.map_eq_some_iff.mp ha
          exact List.forall_mem_cons.mpr ⟨he, ih hes hes₁⟩

theorem fiemapAddExtent_within {realloc : ℕ → Bool} {t t' : ExtentMap PloopExtent}
    (hB : B < 2 ^ 64) (hnew : PloopExtent.Within F B ⟨pos, len⟩)
    (h : ∀ e ∈ t.extents, e.Within F B)
    (ha : fiemapAddExtent realloc t pos len = some t') : ∀ e ∈ t'.extents, e.Within F B := by
  rw [fiemapAddExtent] at ha
  cases hes : absorb pos len t.extents with
  | some es =>
      rw [hes] at ha
      cases ha
      exact absorb_within hB hnew h hes
  | none =>
      rw [hes] at ha
      rcases t.add_cases realloc ⟨pos, len⟩ with ⟨hno, -⟩ | ⟨t₁, ht₁, hext⟩
      · rw [hno] at ha
        cases ha
      · rw [ht₁] at ha
        cases ha
        rw [hext]
        intro e he
        rcases List.mem_append.mp he with he | he
        · exact h e he
        · rwa [List.mem_singleton.mp he]

/-- Rounding is inward. -/
theorem adjustExtent_within (hB : B + cluster ≤ 2 ^ 64) (hpos : 0 < cluster) (h : e.Within F B) :
    (adjustExtent cluster e).Within F B := by
  have hend := h.ends
  have hup : e.pos ≤ maskDown (e.pos + cluster - 1) cluster := by
    have hdiv := Nat.lt_div_mul_add (a := e.pos + cluster - 1) hpos
    unfold maskDown
    omega
  rw [adjustExtent, u64_of_lt (by omega), u64_of_lt (by omega)]
  generalize maskDown (e.pos + cluster - 1) cluster = p at hup ⊢
  dsimp only
  split
  case isTrue => exact PloopExtent.within_empty
  case isFalse hlt =>
    rw [u64Sub_of_le (by omega) hup, u64Sub_of_le (by omega) (by omega)]
    split
    case isTrue => exact PloopExtent.within_empty
    case isFalse =>
      have hdown : maskDown (e.len - (p - e.pos)) cluster ≤ e.len - (p - e.pos) :=
        Nat.div_mul_le_self _ _
      refine ⟨?_, fun x hx hlt => h.bytes x (hup.trans hx) ?_⟩
      · simp only
        omega
      · simp only at hlt
        omega

end Within

/-! ## What `fiemap_get` collects -/

namespace FiemapExtent

/-- The end in the file. -/
def fileEnd (e : FiemapExtent) : ℕ := e.logical + e.length

def Unwritten (e : FiemapExtent) : Prop := e.flags &&& fiemapExtentUnwritten ≠ 0

end FiemapExtent

/-- Byte `x` of the device backs a byte of the file in `[lo, hi)`, in an unwritten extent. -/
def Backs (E : List FiemapExtent) (off lo hi x : ℕ) : Prop :=
  ∃ e ∈ E, e.Unwritten ∧ ∃ t < e.length,
    lo ≤ e.logical + t ∧ e.logical + t < hi ∧ x = e.physical + t + off

/-- The extents of a file on a partition at `off` of a device of `B` bytes. -/
structure FileOn (E : List FiemapExtent) (off B : ℕ) : Prop where
  sorted : E.Pairwise fun a b => a.fileEnd ≤ b.logical
  logical : ∀ e ∈ E, e.fileEnd < 2 ^ 64
  inside : ∀ e ∈ E, e.physical + e.length + off ≤ B

/-- Every reply lists extents of the file in order, none of which ends before what was asked. -/
def Describes (E : List FiemapExtent) (fiemap : ℕ → ℕ → Except Sysexit (List FiemapExtent)) :
    Prop :=
  ∀ k s l, fiemap k s = .ok l → l.Sublist E ∧ ∀ e ∈ l, s < e.fileEnd

/-- An extent as it stands in a reply, which may have been joined to those before it: its bytes
from `lo` on are bytes of unwritten extents of the file, none of them further on in the file. -/
structure Standing (E : List FiemapExtent) (off B lo : ℕ) (e : FiemapExtent) : Prop where
  logical : e.fileEnd < 2 ^ 64
  inside : e.physical + e.length + off ≤ B
  source : ¬ e.Unexpected → ∀ t < e.length, lo ≤ e.logical + t → ∃ e₀ ∈ E, e₀.Unwritten ∧
    ∃ u < e₀.length, e.physical + t = e₀.physical + u ∧ lo ≤ e₀.logical + u ∧
      e₀.logical + u ≤ e.logical + t

section Reply

variable {E rest : List FiemapExtent} {off start size B n fmStart : ℕ} {e next : FiemapExtent}
  {last : Bool} {realloc : ℕ → Bool} {t t' : ExtentMap PloopExtent}

theorem FileOn.standing (h : FileOn E off B) (he : e ∈ E) : Standing E off B start e where
  logical := h.logical e he
  inside := h.inside e he
  source hflags t ht hlo := ⟨e, he, (not_or.mp hflags).1, t, ht, rfl, hlo, le_rfl⟩

theorem FiemapExtent.clip_spec (hB : B < 2 ^ 64) (h : Standing E off B start e)
    (hend : start < e.fileEnd) (hn : n ≠ 1 → start ≤ e.logical) :
    Standing E off B start (e.clip start n) ∧ start ≤ (e.clip start n).logical ∧
      (e.clip start n).fileEnd = e.fileEnd := by
  have hin := h.inside
  have hlog := h.logical
  unfold FiemapExtent.fileEnd at hend hlog
  unfold FiemapExtent.clip
  split
  case isFalse hno =>
    refine ⟨h, ?_, rfl⟩
    by_contra hlt
    exact hno ⟨by_contra fun hne => hlt (hn hne), Nat.not_le.mp hlt⟩
  case isTrue hlt =>
    have hlt := hlt.2
    rw [u64Sub_of_le (by omega) (by omega), u64_of_lt (by omega)]
    have hfile : start + (e.length - (start - e.logical)) = e.logical + e.length := by omega
    refine ⟨⟨hfile.trans_lt hlog, ?_, fun hflags t ht hlo => ?_⟩, le_rfl, hfile⟩
    · simp only
      omega
    · simp only at ht hlo ⊢
      obtain ⟨e₀, he₀, hun, u, hu, hphys, hlo₀, hle⟩ :=
        h.source hflags (t + (start - e.logical)) (by omega) (by omega)
      exact ⟨e₀, he₀, hun, u, hu, by omega, hlo₀, by omega⟩

/-- An extent that goes on on the device takes over the one before it. -/
theorem Standing.takeOver (hB : B < 2 ^ 64) (h : Standing E off B start e)
    (hnext : Standing E off B start next) (hflags : ¬ e.Unexpected) (hlo : start ≤ e.logical)
    (hsorted : e.fileEnd ≤ next.logical) (hgoes : next.physical = u64 (e.physical + e.length)) :
    Standing E off B start (e.takeOver next) ∧ start ≤ (e.takeOver next).logical ∧
      (e.takeOver next).fileEnd = next.fileEnd := by
  have hin := h.inside
  have hin' := hnext.inside
  have hlog := hnext.logical
  unfold FiemapExtent.fileEnd at hlog hsorted
  rw [u64_of_lt (by omega)] at hgoes
  unfold FiemapExtent.takeOver
  rw [u64Sub_of_le (by omega) (by omega), u64Sub_of_le (by omega) (by omega),
    u64_of_lt (by omega)]
  have hfile : next.logical - e.length + (next.length + e.length) =
      next.logical + next.length := by omega
  refine ⟨⟨hfile.trans_lt hlog, ?_, fun hun t ht hle => ?_⟩, ?_, hfile⟩
  · simp only
    omega
  · simp only at ht hle ⊢
    rcases Nat.lt_or_ge t e.length with hlt | hge
    · obtain ⟨e₀, he₀, hu₀, u, hu, hphys, hlo₀, hle₀⟩ := h.source hflags t hlt (by omega)
      exact ⟨e₀, he₀, hu₀, u, hu, by omega, hlo₀, by omega⟩
    · obtain ⟨e₀, he₀, hu₀, u, hu, hphys, hlo₀, hle₀⟩ :=
        hnext.source hun (t - e.length) (by omega) (by omega)
      exact ⟨e₀, he₀, hu₀, u, hu, by omega, hlo₀, by omega⟩
  · simp only
    omega

/-- What is kept of an extent backs the range. -/
theorem keepExtent_within {stop : Bool} (hB : B < 2 ^ 64) (h : Standing E off B start e)
    (hflags : ¬ e.Unexpected) (hlo : start ≤ e.logical)
    (ht : ∀ x ∈ t.extents, x.Within (Backs E off start size) B)
    (hrun : keepExtent realloc off size e t = some (stop, t')) :
    ∀ x ∈ t'.extents, x.Within (Backs E off start size) B := by
  have hin := h.inside
  have hlog := h.logical
  unfold FiemapExtent.fileEnd at hlog
  have hpiece : ∀ k ≤ e.length, e.logical + k ≤ size →
      PloopExtent.Within (Backs E off start size) B ⟨e.physical + off, k⟩ := by
    intro k hk hsize
    constructor
    · simp only
      omega
    · intro x hx hlt
      simp only at hx hlt
      obtain ⟨e₀, he₀, hun, u, hu, hphys, hlo₀, hle⟩ :=
        h.source hflags (x - (e.physical + off)) (by omega) (by omega)
      exact ⟨e₀, he₀, hun, u, hu, hlo₀, by omega, by omega⟩
  rw [keepExtent, u64_of_lt (by omega)] at hrun
  split at hrun
  case isTrue =>
    cases hrun
    exact ht
  case isFalse hsize =>
    split at hrun
    case isTrue hcut =>
      rw [u64_of_lt (by omega)] at hrun
      obtain ⟨t₁, ht₁, heq⟩ := Option.map_eq_some_iff.mp hrun
      cases heq
      exact fiemapAddExtent_within hB (hpiece _ (by omega) (by omega)) ht ht₁
    case isFalse hwhole =>
      rw [u64_of_lt (by omega)] at hrun
      obtain ⟨t₁, ht₁, heq⟩ := Option.map_eq_some_iff.mp hrun
      cases heq
      exact fiemapAddExtent_within hB (hpiece _ le_rfl (by omega)) ht ht₁

/-- Where the reply ends in the file. -/
def replyEnd : FiemapExtent → List FiemapExtent → ℕ
  | e, [] => e.fileEnd
  | _, next :: rest => replyEnd next rest

theorem replyEnd_congr (h : e.fileEnd = next.fileEnd) : replyEnd e rest = replyEnd next rest := by
  cases rest with
  | nil => exact h
  | cons => rfl

/-- The next call begins where the reply ends, and the extents kept back the range. -/
def ReplyEnd.Right (P : ExtentMap PloopExtent → Prop) (stop : ℕ) : ReplyEnd → Prop
  | .done t => P t
  | .next n fmStart _ t => P t ∧ n ≠ 0 ∧ fmStart = stop

/-- The extents of a reply that are still to come. -/
structure Coming (E : List FiemapExtent) (off B start n : ℕ) (e : FiemapExtent)
    (rest : List FiemapExtent) : Prop where
  standing : Standing E off B start e
  later : start < e.fileEnd
  inside : n ≠ 0 → start ≤ e.logical
  behind : ∀ x ∈ rest, x ∈ E
  sorted : rest.Pairwise fun a b => a.fileEnd ≤ b.logical
  first : ∀ x ∈ rest, e.fileEnd ≤ x.logical

/-- The next extent comes to stand for itself and for those joined to it. -/
theorem Coming.step {next' : FiemapExtent} (h : Coming E off B start n e (next :: rest))
    (hnext : Standing E off B start next') (hlo : start ≤ next'.logical)
    (hend : next'.fileEnd = next.fileEnd) : Coming E off B start (n + 1) next' rest := by
  obtain ⟨hfirst, hrest⟩ := List.pairwise_cons.mp h.sorted
  have hle := h.first next (by simp)
  have hpos : next.logical ≤ next.fileEnd := Nat.le_add_right _ _
  have hlt := h.later
  refine ⟨hnext, by omega, fun _ => hlo, fun x hx => h.behind x (by simp [hx]), hrest, ?_⟩
  intro x hx
  rw [hend]
  exact hfirst x hx

theorem FiemapExtent.clip_unexpected : (e.clip start n).Unexpected ↔ e.Unexpected := by
  unfold FiemapExtent.clip
  split
  · exact Iff.rfl
  · exact Iff.rfl

theorem replyExtents_spec (hE : FileOn E off B) (hB : B < 2 ^ 64) {r : ReplyEnd}
    (h : Coming E off B start n e rest)
    (ht : ∀ x ∈ t.extents, x.Within (Backs E off start size) B)
    (hrun : replyExtents realloc off start size rest e n last t = some r) :
    r.Right (fun t => ∀ x ∈ t.extents, x.Within (Backs E off start size) B) (replyEnd e rest) := by
  induction rest generalizing e n last t with
  | nil =>
      rw [replyExtents] at hrun
      split at hrun
      case isTrue =>
        cases hrun
        exact ⟨ht, Nat.succ_ne_zero n, u64_of_lt h.standing.logical⟩
      case isFalse hflags =>
        obtain ⟨hstand, hlo, hend⟩ := FiemapExtent.clip_spec (n := n + 1) hB h.standing h.later
          fun hne => h.inside fun hzero => hne (congrArg (· + 1) hzero)
        dsimp only at hrun
        cases hkeep : keepExtent realloc off size (e.clip start (n + 1)) t with
        | none =>
            rw [hkeep] at hrun
            cases hrun
        | some p =>
            obtain ⟨stop, t'⟩ := p
            have ht' := keepExtent_within hB hstand (hflags ∘ FiemapExtent.clip_unexpected.mp) hlo
              ht hkeep
            rw [hkeep] at hrun
            cases stop with
            | true =>
                cases hrun
                exact ht'
            | false =>
                cases hrun
                exact ⟨ht', Nat.succ_ne_zero n, (u64_of_lt hstand.logical).trans hend⟩
  | cons next rest ih =>
      have hnext : Standing E off B start next := hE.standing (h.behind next (by simp))
      have hfirst := h.first next (by simp)
      have hlater := h.later
      have hstep : Coming E off B start (n + 1) next rest :=
        h.step hnext (by omega) rfl
      rw [replyExtents] at hrun
      split at hrun
      case isTrue => exact ih hstep ht hrun
      case isFalse hflags =>
        obtain ⟨hstand, hlo, hend⟩ := FiemapExtent.clip_spec (n := n + 1) hB h.standing h.later
          fun hne => h.inside fun hzero => hne (congrArg (· + 1) hzero)
        have hflags' : ¬ (e.clip start (n + 1)).Unexpected :=
          fun hbad => hflags (FiemapExtent.clip_unexpected.mp hbad)
        dsimp only at hrun
        split at hrun
        case isTrue hgoes =>
          obtain ⟨htake, hlo', hend'⟩ := hstand.takeOver hB hnext hflags' hlo (by omega) hgoes
          have hright := ih (h.step htake hlo' hend') ht hrun
          rwa [replyEnd_congr hend'] at hright
        case isFalse =>
          cases hkeep : keepExtent realloc off size (e.clip start (n + 1)) t with
          | none =>
              rw [hkeep] at hrun
              cases hrun
          | some p =>
              obtain ⟨stop, t'⟩ := p
              have ht' := keepExtent_within hB hstand hflags' hlo ht hkeep
              rw [hkeep] at hrun
              cases stop with
              | true =>
                  cases hrun
                  exact ht'
              | false => exact ih hstep ht' hrun

theorem replyEnd_mem : ∃ z ∈ e :: rest, replyEnd e rest = z.fileEnd := by
  induction rest generalizing e with
  | nil => exact ⟨e, by simp, rfl⟩
  | cons next rest ih =>
      obtain ⟨z, hz, hend⟩ := ih (e := next)
      exact ⟨z, List.mem_cons_of_mem e hz, hend⟩

/-- What ends behind an extent of the file begins behind it. -/
theorem FileOn.behind (h : FileOn E off B) {a z : FiemapExtent} (ha : a ∈ E) (hz : z ∈ E)
    (hlt : z.fileEnd < a.fileEnd) : z.fileEnd ≤ a.logical := by
  have : Std.Symm fun a b : FiemapExtent => a.fileEnd ≤ b.logical ∨ b.fileEnd ≤ a.logical :=
    ⟨fun _ _ => Or.symm⟩
  have hapart : E.Pairwise fun a b => a.fileEnd ≤ b.logical ∨ b.fileEnd ≤ a.logical :=
    h.sorted.imp Or.inl
  have hne : a ≠ z := by
    rintro rfl
    exact lt_irrefl _ hlt
  rcases hapart.forall ha hz hne with hle | hle
  · have hpos : z.logical ≤ z.fileEnd := Nat.le_add_right _ _
    omega
  · exact hle

/-- The extents that `fiemap_get` collects back the range between the two sizes. -/
theorem fiemapGet_spec {fiemap : ℕ → ℕ → Except Sysexit (List FiemapExtent)} {fuel k : ℕ}
    (hE : FileOn E off B) (hB : B < 2 ^ 64) (hreply : Describes E fiemap)
    (hlo : start ≤ fmStart) (hn : n ≠ 0 → ∀ a ∈ E, fmStart < a.fileEnd → start ≤ a.logical)
    (ht : ∀ x ∈ t.extents, x.Within (Backs E off start size) B)
    (hrun : fiemapGet realloc fiemap off start size fuel k fmStart n t = some (.ok t')) :
    ∀ x ∈ t'.extents, x.Within (Backs E off start size) B := by
  induction fuel generalizing k fmStart n t with
  | zero => cases hrun
  | succ fuel ih =>
      rw [fiemapGet] at hrun
      cases hl : fiemap k fmStart with
      | error rc =>
          rw [hl] at hrun
          cases hrun
      | ok l =>
          rw [hl] at hrun
          obtain ⟨hsub, hlater⟩ := hreply k fmStart l hl
          cases l with
          | nil =>
              cases hrun
              exact ht
          | cons e rest =>
              dsimp only at hrun
              have he : e ∈ E := hsub.subset (by simp)
              have hsorted := List.pairwise_cons.mp (hE.sorted.sublist hsub)
              have hcoming : Coming E off B start n e rest :=
                { standing := hE.standing he
                  later := hlo.trans_lt (hlater e (by simp))
                  inside := fun hne => hn hne e he (hlater e (by simp))
                  behind := fun x hx => hsub.subset (List.mem_cons_of_mem e hx)
                  sorted := hsorted.2
                  first := hsorted.1 }
              cases hr : replyExtents realloc off start size rest e n false t with
              | none =>
                  rw [hr] at hrun
                  cases hrun
              | some r =>
                  rw [hr] at hrun
                  have hright := replyExtents_spec hE hB hcoming ht hr
                  cases r with
                  | done t₁ =>
                      cases hrun
                      exact hright
                  | next n₁ s₁ last t₁ =>
                      obtain ⟨ht₁, -, rfl⟩ := hright
                      dsimp only at hrun
                      split at hrun
                      case isFalse =>
                        cases hrun
                        exact ht₁
                      case isTrue =>
                        obtain ⟨z, hz, hend⟩ : ∃ z ∈ e :: rest, replyEnd e rest = z.fileEnd :=
                          replyEnd_mem
                        have hlt := hlater z hz
                        rw [hend] at hrun
                        refine ih (by omega) (fun _ a ha hlt => ?_) ht₁ hrun
                        have hle := hE.behind ha (hsub.subset hz) hlt
                        omega

end Reply

end Ploop.Balloon
