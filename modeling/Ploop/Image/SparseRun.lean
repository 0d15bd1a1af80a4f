import Ploop.Image.SparseFill

/-!
# The pieces of a sparse repair

The extents come in batches, and what lies between them is filled. The run is described by the
list of all pieces, whatever the batches are.
-/

namespace Ploop.Check

open Storage Program

def Extent.stop (e : Extent) : ℕ := e.logical + e.length

/-- What is filled of an unwritten extent. -/
def raggedPieces (cluster : ℕ) (e : Extent) : List (ℕ × ℕ) :=
  if e.unwritten ∧ (e.logical % cluster ≠ 0 ∨ e.length % cluster ≠ 0) then
    cutHole cluster e.logical e.stop
  else []

/-- What is filled when the extents `es` lie behind `prevEnd`. -/
def piecesAfter (cluster stSize : ℕ) : List Extent → ℕ → List (ℕ × ℕ)
  | [], prevEnd => cutHole cluster prevEnd stSize
  | e :: es, prevEnd =>
      if stSize ≤ e.logical then cutHole cluster prevEnd stSize
      else raggedPieces cluster e ++ cutHole cluster prevEnd e.logical ++
        piecesAfter cluster stSize es e.stop

/-- The order in which extents are reported. -/
def Before (e e' : Extent) : Prop := e.last = false ∧ e.stop ≤ e'.logical

theorem cutHole_of_le {cluster start stop : ℕ} (h : stop ≤ start) :
    cutHole cluster start stop = [] := by
  rw [cutHole, Nat.sub_eq_zero_of_le h, piecesFrom]

theorem piecesAfter_beyond {cluster stSize prevEnd : ℕ} {es : List Extent}
    (h : ∀ e ∈ es, stSize ≤ e.logical) :
    piecesAfter cluster stSize es prevEnd = cutHole cluster prevEnd stSize := by
  cases es with
  | nil => rfl
  | cons e es => exact if_pos (h e List.mem_cons_self)

/-! ## The batches -/

section Fiemap

variable {pre rest : List Extent} {start len : ℕ}

theorem filter_isPrefix (hE : rest.Pairwise Before) :
    (rest.filter fun e => start < e.stop ∧ e.logical < start + len) <+: rest ∨
      ∃ e ∈ rest, e.stop ≤ start := by
  induction rest with
  | nil => exact .inl List.prefix_rfl
  | cons e es ih =>
      obtain ⟨hfirst, hes⟩ := List.pairwise_cons.mp hE
      by_cases hle : e.stop ≤ start
      · exact .inr ⟨e, List.mem_cons_self, hle⟩
      rw [List.filter_cons]
      split
      case isTrue =>
        rcases ih hes with hpre | ⟨e', he', hle'⟩
        · exact .inl ((List.prefix_cons_inj e).mpr hpre)
        · exact .inr ⟨e', List.mem_cons_of_mem _ he', hle'⟩
      case isFalse hnot =>
        left
        have hnone : es.filter (fun e => start < e.stop ∧ e.logical < start + len) = [] := by
          apply List.filter_eq_nil_iff.mpr
          intro e' he' hin
          have hge := (hfirst e' he').2
          rw [decide_eq_true_eq] at hnot hin
          have hlog : e.logical ≤ e.stop := Nat.le_add_right _ _
          omega
        rw [hnone]
        exact List.nil_prefix

/-- One call reports the next extents. -/
theorem fiemap_eq (hE : rest.Pairwise Before) (hpos : ∀ e ∈ rest, 0 < e.length)
    (hpre : ∀ e ∈ pre, e.stop ≤ start) (hp : ∀ e ∈ rest, start ≤ e.logical) :
    ∃ dropped, fiemap (pre ++ rest) start len ++ dropped = rest ∧
      (fiemap (pre ++ rest) start len = [] → ∀ e ∈ rest, start + len ≤ e.logical) := by
  have hfilter : (pre ++ rest).filter (fun e => start < e.stop ∧ e.logical < start + len) =
      rest.filter fun e => start < e.stop ∧ e.logical < start + len := by
    rw [List.filter_append, List.filter_eq_nil_iff.mpr, List.nil_append]
    intro e he hin
    exact absurd (of_decide_eq_true hin).1 (Nat.not_lt.mpr (hpre e he))
  have hstop : ∀ e ∈ rest, start < e.stop := fun e he =>
    (hp e he).trans_lt (Nat.lt_add_of_pos_right (hpos e he))
  have hfound : fiemap (pre ++ rest) start len =
      (rest.filter fun e => start < e.stop ∧ e.logical < start + len).take 730 :=
    congrArg (List.take 730) hfilter
  rw [hfound]
  rcases @filter_isPrefix rest start len hE with hprefix | ⟨e, he, hle⟩
  · obtain ⟨dropped, hdropped⟩ := (List.take_prefix 730 _).trans hprefix
    refine ⟨dropped, hdropped, fun hnil e he => ?_⟩
    have hempty := (List.take_eq_nil_iff.mp hnil).resolve_left (by decide)
    have hnot := List.filter_eq_nil_iff.mp hempty e he
    rw [decide_eq_true_eq, not_and] at hnot
    exact Nat.not_lt.mp (hnot (hstop e he))
  · exact absurd (hstop e he) (Nat.not_lt.mpr hle)

end Fiemap

section Run

variable {c : SparseCalls} {f : File} {ps : List (ℕ × ℕ)} {s : Sparse} {es rest : List Extent}
  {prevEnd stSize : ℕ} {last : Bool}

/-- The state after the extents `es`, when `rest` are still to come. -/
structure Batched (c : SparseCalls) (f : File) (stSize : ℕ) (ps : List (ℕ × ℕ))
    (es rest : List Extent) (prevEnd : ℕ) (r : ℕ × Bool) (s : Sparse) : Prop where
  filled : ∃ qs, Filled c f (ps ++ qs) s ∧
    piecesAfter f.hdr.layout.cluster stSize (es ++ rest) prevEnd =
      qs ++ piecesAfter f.hdr.layout.cluster stSize (if r.2 then [] else rest) r.1
  behind : r.2 = false → prevEnd ≤ r.1 ∧ (∀ e ∈ es, e.stop ≤ r.1) ∧ ∀ e ∈ rest, r.1 ≤ e.logical

variable (hc : Ready c) (hL : f.hdr.layout.Valid)
  (hindex : f.hdr.layout.l1Size * f.hdr.layout.cluster ≤ f.size)

include hc hL hindex

/-- One turn of the loop over the extents. -/
theorem ragged_spec (hs : Filled c f ps s) (e : Extent) : Triple (fun t => t = s)
    (if e.unwritten ∧ (e.logical % f.hdr.layout.cluster ≠ 0 ∨
        e.length % f.hdr.layout.cluster ≠ 0) then
      fillHole c true e.logical (e.logical + e.length)
    else pure ())
    (fun _ => Filled c f (ps ++ raggedPieces f.hdr.layout.cluster e))
    (fun _ => ¬ MapBuilds f ∧ raggedPieces f.hdr.layout.cluster e ≠ []) := by
  unfold raggedPieces
  split
  case isTrue => exact fillHole_spec hc hL hindex hs _ _
  case isFalse =>
    apply Triple.ret
    rintro t rfl
    rwa [List.append_nil]

theorem between_spec (hs : Filled c f ps s) (prevEnd logical : ℕ) : Triple (fun t => t = s)
    (if prevEnd ≠ logical then fillHole c true prevEnd logical else pure ())
    (fun _ => Filled c f (ps ++ cutHole f.hdr.layout.cluster prevEnd logical))
    (fun _ => ¬ MapBuilds f ∧ cutHole f.hdr.layout.cluster prevEnd logical ≠ []) := by
  split
  case isTrue => exact fillHole_spec hc hL hindex hs _ _
  case isFalse heq =>
    apply Triple.ret
    rintro t rfl
    rwa [cutHole_of_le (not_not.mp heq).ge, List.append_nil]

theorem extentLoop_spec (hs : Filled c f ps s) (hE : (es ++ rest).Pairwise Before)
    (hp : ∀ e ∈ es ++ rest, prevEnd ≤ e.logical) (hlast : last = true → es ++ rest = []) :
    Triple (fun t => t = s) (extentLoop c true stSize es prevEnd last)
      (Batched c f stSize ps es rest prevEnd)
      (fun _ => ¬ MapBuilds f ∧
        piecesAfter f.hdr.layout.cluster stSize (es ++ rest) prevEnd ≠ []) := by
  induction es generalizing ps s prevEnd last with
  | nil =>
      apply Triple.ret
      rintro t rfl
      constructor
      · refine ⟨[], by rwa [List.append_nil], ?_⟩
        split
        case isTrue h => rw [hlast h]; rfl
        case isFalse => rfl
      · exact fun _ => ⟨le_rfl, fun e he => absurd he List.not_mem_nil, hp⟩
  | cons e es ih =>
      have hpiece : piecesAfter f.hdr.layout.cluster stSize (e :: es ++ rest) prevEnd =
          if stSize ≤ e.logical then cutHole f.hdr.layout.cluster prevEnd stSize
          else raggedPieces f.hdr.layout.cluster e ++
            cutHole f.hdr.layout.cluster prevEnd e.logical ++
            piecesAfter f.hdr.layout.cluster stSize (es ++ rest) e.stop := rfl
      unfold extentLoop
      split
      case isTrue hbeyond =>
        apply Triple.ret
        rintro t rfl
        constructor
        · refine ⟨[], by rwa [List.append_nil], ?_⟩
          rw [hpiece, if_pos hbeyond]
          rfl
        · exact fun h => absurd h Bool.true_eq_false.mp
      case isFalse hinside =>
        rw [hpiece, if_neg hinside]
        apply Triple.look
        rintro t rfl
        dsimp only
        rw [hs.delta.cluster]
        obtain ⟨hfirst, hE'⟩ := List.pairwise_cons.mp hE
        apply Triple.when (R := Filled c f (ps ++ raggedPieces f.hdr.layout.cluster e))
        · apply (ragged_spec hc hL hindex hs e).conseq
          · exact fun _ ht => ht
          · exact fun _ _ ht => ht
          · exact fun _ hno => ⟨hno.1, fun h => hno.2 (List.append_eq_nil_iff.mp
              (List.append_eq_nil_iff.mp h).1).1⟩
        apply Triple.start
        intro u hu
        apply Triple.when (R := Filled c f (ps ++ raggedPieces f.hdr.layout.cluster e ++
          cutHole f.hdr.layout.cluster prevEnd e.logical))
        · apply (between_spec hc hL hindex hu prevEnd e.logical).conseq
          · exact fun _ ht => ht
          · exact fun _ _ ht => ht
          · exact fun _ hno => ⟨hno.1, fun h => hno.2 (List.append_eq_nil_iff.mp
              (List.append_eq_nil_iff.mp h).1).2⟩
        apply Triple.start
        intro v hv
        have hlast' : (last || e.last) = true → es ++ rest = [] := by
          intro hor
          apply List.eq_nil_iff_forall_not_mem.mpr
          intro e' he'
          rcases Bool.or_eq_true_iff.mp hor with hl | hl
          · exact List.cons_ne_nil _ _ (hlast hl)
          · exact absurd (hfirst e' he').1 (hl ▸ Bool.true_eq_false.mp)
        apply (ih hv hE' (fun e' he' => (hfirst e' he').2) hlast').conseq
        · exact fun _ ht => ht
        · intro r w hw
          obtain ⟨⟨qs, hqs, hpieces⟩, hbehind⟩ := hw
          constructor
          · refine ⟨raggedPieces f.hdr.layout.cluster e ++
              cutHole f.hdr.layout.cluster prevEnd e.logical ++ qs, ?_, ?_⟩
            · rwa [← List.append_assoc, ← List.append_assoc]
            · rw [hpiece, if_neg hinside, hpieces, List.append_assoc _ qs]
          · intro hr
            obtain ⟨hle, hes, hr'⟩ := hbehind hr
            have hpos : prevEnd ≤ e.stop :=
              (hp e List.mem_cons_self).trans (Nat.le_add_right _ _)
            refine ⟨hpos.trans hle, ?_, hr'⟩
            rintro e' he'
            rcases List.mem_cons.mp he' with rfl | he'
            · exact hle
            · exact hes e' he'
        · exact fun _ hno => ⟨hno.1, fun h => hno.2 (List.append_eq_nil_iff.mp h).2⟩

omit hc hL hindex in
theorem fiemapLoop_last (n prevEnd : ℕ) :
    fiemapLoop c true stSize n prevEnd true = pure prevEnd := by
  cases n with
  | zero => rfl
  | succ n => exact if_pos (.inl rfl)

theorem fiemapLoop_spec {pre : List Extent} {n : ℕ} (hs : Filled c f ps s)
    (hext : c.extents = pre ++ rest) (hE : rest.Pairwise Before)
    (hpos : ∀ e ∈ rest, 0 < e.length) (hpre : ∀ e ∈ pre, e.stop ≤ prevEnd)
    (hp : ∀ e ∈ rest, prevEnd ≤ e.logical) (hn : rest.length < n) :
    Triple (fun t => t = s) (fiemapLoop c true stSize n prevEnd false)
      (fun r t => ∃ qs, Filled c f (ps ++ qs) t ∧
        piecesAfter f.hdr.layout.cluster stSize rest prevEnd =
          qs ++ cutHole f.hdr.layout.cluster r stSize)
      (fun _ => ¬ MapBuilds f ∧
        piecesAfter f.hdr.layout.cluster stSize rest prevEnd ≠ []) := by
  induction n generalizing ps s prevEnd pre rest with
  | zero => exact absurd hn (Nat.not_lt_zero _)
  | succ n ih =>
      have hdone : (∀ e ∈ rest, stSize ≤ e.logical) → Triple (fun t => t = s)
          (pure prevEnd : SparseM ℕ)
          (fun r t => ∃ qs, Filled c f (ps ++ qs) t ∧
            piecesAfter f.hdr.layout.cluster stSize rest prevEnd =
              qs ++ cutHole f.hdr.layout.cluster r stSize)
          (fun _ => ¬ MapBuilds f ∧
            piecesAfter f.hdr.layout.cluster stSize rest prevEnd ≠ []) := by
        intro hbeyond
        apply Triple.ret
        rintro t rfl
        exact ⟨[], by rwa [List.append_nil], piecesAfter_beyond hbeyond⟩
      unfold fiemapLoop
      split
      case isTrue hend =>
        rcases hend with hend | hend
        · exact absurd hend Bool.false_ne_true
        · exact hdone fun e he => hend.trans (hp e he)
      case isFalse =>
        obtain ⟨dropped, hsplit, hnil⟩ :=
          @fiemap_eq pre rest prevEnd stSize hE hpos hpre hp
        rw [hext]
        dsimp only
        split
        case isTrue hempty =>
          exact hdone fun e he => (Nat.le_add_left _ _).trans (hnil hempty e he)
        case isFalse hne =>
          generalize hfound : fiemap (pre ++ rest) prevEnd stSize = found at *
          subst hsplit
          apply Triple.bind (extentLoop_spec hc hL hindex hs hE hp fun h =>
            absurd h Bool.false_ne_true)
          rintro ⟨r, last⟩
          apply Triple.start
          intro t ht
          obtain ⟨⟨qs, hqs, hpieces⟩, hbehind⟩ := ht
          dsimp only at hpieces hbehind ⊢
          cases last with
          | true =>
              rw [fiemapLoop_last]
              apply Triple.ret
              rintro u rfl
              exact ⟨qs, hqs, hpieces⟩
          | false =>
              obtain ⟨hle, hstop, hlog⟩ := hbehind rfl
              rw [if_neg Bool.false_ne_true] at hpieces
              have hlen : dropped.length < n := by
                have hpositive := List.length_pos_of_ne_nil hne
                rw [List.length_append] at hn
                omega
              have hext' : c.extents = (pre ++ found) ++ dropped := by
                rw [hext, List.append_assoc]
              have hpre' : ∀ e ∈ pre ++ found, e.stop ≤ r := by
                intro e he
                rcases List.mem_append.mp he with h | h
                · exact (hpre e h).trans hle
                · exact hstop e h
              apply (ih hqs hext' (List.pairwise_append.mp hE).2.1
                (fun e he => hpos e (List.mem_append_right _ he)) hpre' hlog hlen).conseq
              · exact fun _ hu => hu
              · rintro r' u ⟨qs', hqs', hpieces'⟩
                refine ⟨qs ++ qs', by rwa [← List.append_assoc], ?_⟩
                rw [hpieces, hpieces', List.append_assoc]
              · rintro u ⟨hno, hne'⟩
                refine ⟨hno, fun h => hne' ?_⟩
                rw [hpieces] at h
                exact (List.append_eq_nil_iff.mp h).2

theorem repairSparse_spec (hs : Filled c f [] s) (hE : c.extents.Pairwise Before)
    (hpos : ∀ e ∈ c.extents, 0 < e.length) : Triple (fun t => t = s) (repairSparse c true stSize)
      (fun _ => Filled c f (piecesAfter f.hdr.layout.cluster stSize c.extents 0))
      (fun _ => ¬ MapBuilds f ∧
        piecesAfter f.hdr.layout.cluster stSize c.extents 0 ≠ []) := by
  have hpre : ∀ e ∈ ([] : List Extent), e.stop ≤ 0 := fun e he => absurd he List.not_mem_nil
  apply Triple.bind (fiemapLoop_spec hc hL hindex hs rfl hE hpos hpre (fun e _ => Nat.zero_le _)
    (Nat.lt_succ_self c.extents.length))
  intro prevEnd
  apply Triple.start
  rintro t ⟨qs, hqs, hpieces⟩
  rw [List.nil_append] at hqs
  rw [hpieces]
  split
  case isTrue =>
    apply (fillHole_spec hc hL hindex hqs prevEnd stSize).conseq
    · exact fun _ hu => hu
    · exact fun _ _ hu => hu
    · exact fun _ hno => ⟨hno.1, fun h => hno.2 (List.append_eq_nil_iff.mp h).2⟩
  case isFalse hle =>
    apply Triple.ret
    rintro u rfl
    rwa [cutHole_of_le (Nat.not_lt.mp hle), List.append_nil]

end Run

/-! ## What the pieces are -/

section Pieces

variable {cluster stSize prevEnd i : ℕ} {es : List Extent} {q : ℕ × ℕ}

/-- Byte `i` has not been written, as far as the extents tell. -/
def Unwritten (es : List Extent) (i : ℕ) : Prop :=
  ∀ e ∈ es, e.unwritten = false → ¬ (e.logical ≤ i ∧ i < e.stop)

/-- Byte `i` is in a hole. -/
def Hole (es : List Extent) (i : ℕ) : Prop := ∀ e ∈ es, ¬ (e.logical ≤ i ∧ i < e.stop)

/-- What is known of a piece. -/
structure PieceOf (cluster : ℕ) (es : List Extent) (prevEnd : ℕ) (q : ℕ × ℕ) : Prop where
  start_le : prevEnd ≤ q.1
  sameCluster : ∀ i, q.1 ≤ i → i < q.1 + q.2 → i / cluster = q.1 / cluster
  unwritten : ∀ i, q.1 ≤ i → i < q.1 + q.2 → Unwritten es i

/-- A piece of a hole that ends before the extents. -/
theorem IsPiece.pieceOf {stop : ℕ} (h : IsPiece cluster prevEnd stop q)
    (hes : ∀ e ∈ es, stop ≤ e.logical) : PieceOf cluster es prevEnd q := by
  constructor
  · exact h.start_le
  · exact h.sameCluster
  · intro i _ hi e he _ hin
    have hge := hes e he
    have hend := h.end_le
    omega

theorem mem_piecesAfter (hpos : 0 < cluster) (hE : es.Pairwise Before)
    (hp : ∀ e ∈ es, prevEnd ≤ e.logical) (hq : q ∈ piecesAfter cluster stSize es prevEnd) :
    PieceOf cluster es prevEnd q := by
  induction es generalizing prevEnd with
  | nil => exact (mem_piecesFrom hpos hq).pieceOf fun e he => absurd he List.not_mem_nil
  | cons e es ih =>
      obtain ⟨hfirst, hes⟩ := List.pairwise_cons.mp hE
      have hlog : e.logical ≤ e.stop := Nat.le_add_right _ _
      have hprev := hp e List.mem_cons_self
      have hsorted : ∀ e' ∈ e :: es, e.logical ≤ e'.logical := by
        rintro e' he'
        rcases List.mem_cons.mp he' with rfl | he'
        · exact le_rfl
        · exact hlog.trans (hfirst e' he').2
      unfold piecesAfter at hq
      split at hq
      case isTrue hbeyond =>
        exact (mem_piecesFrom hpos hq).pieceOf fun e' he' => hbeyond.trans (hsorted e' he')
      case isFalse =>
        rcases List.mem_append.mp hq with hfill | hrest
        · rcases List.mem_append.mp hfill with hragged | hhole
          · unfold raggedPieces at hragged
            split at hragged
            case isFalse => exact absurd hragged List.not_mem_nil
            case isTrue hun =>
              have hpiece := mem_piecesFrom hpos hragged
              constructor
              · exact hprev.trans hpiece.start_le
              · exact hpiece.sameCluster
              · intro i _ hi e' he' hwritten hin
                rcases List.mem_cons.mp he' with rfl | he'
                · exact Bool.false_ne_true (hwritten.symm.trans hun.1)
                · have hge := (hfirst e' he').2
                  have hend := hpiece.end_le
                  omega
          · exact (mem_piecesFrom hpos hhole).pieceOf hsorted
        · have hpiece := ih hes (fun e' he' => (hfirst e' he').2) hrest
          constructor
          · exact (hprev.trans hlog).trans hpiece.start_le
          · exact hpiece.sameCluster
          · intro i hi hi' e' he' hwritten hin
            rcases List.mem_cons.mp he' with rfl | he'
            · exact absurd (hpiece.start_le.trans hi) (Nat.not_le.mpr hin.2)
            · exact hpiece.unwritten i hi hi' e' he' hwritten hin

/-- Every byte of a hole is in a piece. -/
theorem exists_mem_piecesAfter (hpos : 0 < cluster) (hi : prevEnd ≤ i) (hsize : i < stSize)
    (hhole : Hole es i) :
    ∃ q ∈ piecesAfter cluster stSize es prevEnd, q.1 ≤ i ∧ i < q.1 + q.2 := by
  induction es generalizing prevEnd with
  | nil => exact exists_mem_piecesFrom hpos le_rfl hi hsize
  | cons e es ih =>
      unfold piecesAfter
      split
      case isTrue => exact exists_mem_piecesFrom hpos le_rfl hi hsize
      case isFalse =>
        by_cases hlt : i < e.logical
        · obtain ⟨q, hq, hcover⟩ := exists_mem_piecesFrom hpos le_rfl hi hlt
          exact ⟨q, List.mem_append_left _ (List.mem_append_right _ hq), hcover⟩
        · have hstop : e.stop ≤ i := Nat.not_lt.mp fun hin =>
            hhole e List.mem_cons_self ⟨Nat.not_lt.mp hlt, hin⟩
          obtain ⟨q, hq, hcover⟩ := ih hstop fun e' he' => hhole e' (List.mem_cons_of_mem _ he')
          exact ⟨q, List.mem_append_right _ hq, hcover⟩

end Pieces

end Ploop.Check
