import Ploop.Copy.Tracker

/-!
# Iterative copy loses no update

Whatever the guest writes while the copier runs, a byte that differs between
the source and what the destination is going to be is known to the tracker or
still to be read by the copier.
-/

namespace Ploop.Copy

open Storage Program

/-! ## What is still to be copied -/

namespace World

/-- The destination once the sender is done. -/
def settled (w : World) : File :=
  match w.inflight with
  | none => w.dest
  | some (b, len, pos) => w.dest.pwrite ⟨pos, len, w.iobuf b⟩

/-- The destination once the sender is also done with `n` bytes for `pos` that
were read but not handed over yet. -/
def future (w : World) : Option (ℕ × ℕ) → File
  | none => w.settled
  | some (n, pos) => w.settled.pwrite ⟨pos, n, w.iobuf w.h.curIobuf⟩

/-- The tracker will report byte `x`, or the copier has it on its list. -/
def Pending (rem : Set ℕ) (w : World) (x : ℕ) : Prop :=
  w.tracker.dirty x ∨ w.tracker.position ≤ x ∧ x < w.tracker.trackedEnd ∨ x ∈ rem

/-- The file `g` is the source up to what is pending. -/
structure Caught (g : File) (rem : Set ℕ) (w : World) : Prop where
  bytes : ∀ x, g.byte x = w.src.byte x ∨ w.Pending rem x
  size_le : g.size ≤ w.src.size
  size_ge : w.src.size ≤ g.size ∨ w.Pending rem (w.src.size - 1)
  below : ∀ x, w.tracker.dirty x → x < w.tracker.position

/-- Nothing is left for the tracker to report. -/
def Clean (w : World) : Prop :=
  (∀ x, ¬ w.tracker.dirty x) ∧ w.tracker.trackedEnd ≤ w.tracker.position

variable {g : File} {rem rem' : Set ℕ} {w : World}

theorem Pending.mono {x : ℕ} (h : w.Pending rem x) (hx : x ∈ rem → x ∈ rem') :
    w.Pending rem' x :=
  h.imp id fun h => h.imp id hx

theorem Caught.mono (h : Caught g rem w) (hsub : rem ⊆ rem') : Caught g rem' w :=
  ⟨fun x => (h.bytes x).imp id fun hp => hp.mono (@hsub x), h.size_le,
    h.size_ge.imp id fun hp => hp.mono (@hsub _), h.below⟩

/-! ## The guest -/

theorem pending_guestWrite {wr : Write} {x : ℕ} (h : w.Pending rem x) :
    (w.guestWrite wr).Pending rem x := by
  by_cases hlen : wr.len = 0
  · simpa [Pending, guestWrite, Tracker.write, hlen] using h
  · unfold Pending guestWrite Tracker.write at *
    simp only [hlen, if_false, Bool.or_eq_true]
    rcases h with h | ⟨h₁, h₂⟩ | h
    · exact Or.inl (Or.inl h)
    · refine Or.inr (Or.inl ⟨h₁, ?_⟩)
      split
      · exact lt_of_lt_of_le h₂ (le_max_left _ _)
      · exact h₂
    · exact Or.inr (Or.inr h)

/-- A byte the guest writes is pending. -/
theorem pending_of_written {wr : Write} {x : ℕ} (h₁ : wr.off ≤ x) (h₂ : x < wr.off + wr.len) :
    (w.guestWrite wr).Pending rem x := by
  have hlen : wr.len ≠ 0 := by omega
  unfold Pending guestWrite Tracker.write
  simp only [hlen, if_false, Bool.or_eq_true, Bool.and_eq_true, decide_eq_true_eq]
  by_cases hx : x < w.tracker.position
  · exact Or.inl (Or.inr ⟨⟨h₁, h₂⟩, hx⟩)
  · refine Or.inr (Or.inl ⟨Nat.not_lt.mp hx, ?_⟩)
    rw [if_pos (by omega)]
    exact lt_of_lt_of_le h₂ (le_max_right _ _)

theorem Caught.guestWrite (h : Caught g rem w) (wr : Write) : Caught g rem (w.guestWrite wr) := by
  have hsrc : (w.guestWrite wr).src = w.src.pwrite wr := rfl
  refine ⟨fun x => ?_, ?_, ?_, fun x hx => ?_⟩
  · by_cases hin : wr.off ≤ x ∧ x < wr.off + wr.len
    · exact Or.inr (pending_of_written hin.1 hin.2)
    · rw [hsrc, File.byte_pwrite, overlay_of_not_mem (by omega)]
      exact (h.bytes x).imp id pending_guestWrite
  · rw [hsrc]
    exact h.size_le.trans (w.src.le_size_pwrite wr)
  · by_cases hgrow : wr.off + wr.len ≤ w.src.size
    · rw [hsrc, File.size_pwrite_le hgrow]
      exact h.size_ge.imp id pending_guestWrite
    · by_cases hlen : wr.len = 0
      · rw [hsrc, File.size_pwrite, if_pos hlen]
        exact h.size_ge.imp id pending_guestWrite
      · rw [hsrc, File.size_pwrite, if_neg hlen, max_eq_right (by omega)]
        exact Or.inr (pending_of_written (by omega) (by omega))
  · change (w.tracker.write wr).dirty x at hx
    change x < (w.tracker.write wr).position
    unfold Tracker.write at hx ⊢
    split at hx
    · rename_i hlen
      rw [if_pos hlen]
      exact h.below x hx
    · rename_i hlen
      rw [if_neg hlen]
      simp only [Bool.or_eq_true, Bool.and_eq_true, decide_eq_true_eq] at hx
      exact hx.elim (h.below x) And.right

/-- What the writes of the guest leave alone. -/
structure SameCopier (w w' : World) : Prop where
  dest : w'.dest = w.dest
  inflight : w'.inflight = w.inflight
  iobuf : w'.iobuf = w.iobuf
  handle : w'.h = w.h
  position : w'.tracker.position = w.tracker.position
  frozen : w'.frozen = w.frozen

theorem guestWrite_same (w : World) (wr : Write) : SameCopier w (w.guestWrite wr) := by
  refine ⟨rfl, rfl, rfl, rfl, ?_, rfl⟩
  change (w.tracker.write wr).position = _
  unfold Tracker.write
  split <;> rfl

theorem guestWrites_same (ws : List Write) (w : World) :
    SameCopier w (ws.foldl World.guestWrite w) := by
  induction ws generalizing w with
  | nil => exact ⟨rfl, rfl, rfl, rfl, rfl, rfl⟩
  | cons wr ws ih =>
      have h₁ := guestWrite_same w wr
      have h₂ := ih (w.guestWrite wr)
      exact ⟨h₂.dest.trans h₁.dest, h₂.inflight.trans h₁.inflight, h₂.iobuf.trans h₁.iobuf,
        h₂.handle.trans h₁.handle, h₂.position.trans h₁.position, h₂.frozen.trans h₁.frozen⟩

theorem Caught.guestWrites (ws : List Write) (h : Caught g rem w) :
    Caught g rem (ws.foldl World.guestWrite w) := by
  induction ws generalizing w with
  | nil => exact h
  | cons wr ws ih => exact ih (h.guestWrite wr)

/-! ## The sender -/

theorem complete_inflight (w : World) : w.complete.inflight = none := by
  cases h : w.inflight with
  | none => simp [complete, h]
  | some q => simp [complete, h]

theorem settled_complete (w : World) : w.complete.settled = w.settled := by
  cases h : w.inflight with
  | none => simp [complete, settled, h]
  | some q => simp [complete, settled, h]

theorem settled_of_none (h : w.inflight = none) : w.settled = w.dest := by
  simp [settled, h]

theorem SameCopier.settled {w w' : World} (h : SameCopier w w') : w'.settled = w.settled := by
  unfold World.settled
  rw [h.inflight, h.dest, h.iobuf]

/-- Completing a send does not change the source or the tracker. -/
theorem complete_src (w : World) : w.complete.src = w.src ∧ w.complete.tracker = w.tracker ∧
    w.complete.iobuf = w.iobuf ∧ w.complete.h = w.h ∧ w.complete.frozen = w.frozen := by
  unfold complete
  split <;> exact ⟨rfl, rfl, rfl, rfl, rfl⟩

theorem SameCopier.future {w w' : World} (h : SameCopier w w') (q : Option (ℕ × ℕ)) :
    w'.future q = w.future q := by
  cases q with
  | none => exact h.settled
  | some r => simp only [World.future, h.settled, h.iobuf, h.handle]

theorem future_complete (w : World) (q : Option (ℕ × ℕ)) : w.complete.future q = w.future q := by
  obtain ⟨-, -, hiobuf, hh, -⟩ := complete_src w
  cases q with
  | none => exact settled_complete w
  | some r => simp only [World.future, settled_complete, hiobuf, hh]

theorem Caught.complete (h : Caught g rem w) : Caught g rem w.complete := by
  obtain ⟨hsrc, htracker, -⟩ := complete_src w
  refine ⟨fun x => ?_, ?_, ?_, ?_⟩
  · unfold Pending
    rw [hsrc, htracker]
    exact h.bytes x
  · rw [hsrc]
    exact h.size_le
  · unfold Pending
    rw [hsrc, htracker]
    exact h.size_ge
  · rw [htracker]
    exact h.below

end World

/-! ## Ready for the next step -/

/-- The copier's view of the world between two steps: the position it told the
tracker, its handle, the buffer the sender may be working on, and what it has
read but not handed over. -/
structure Ready (f : Bool) (P : ℕ) (h : Handle) (B : Bool) (q : Option (ℕ × ℕ)) (rem : Set ℕ)
    (w : World) : Prop where
  caught : World.Caught (w.future q) rem w
  buffer : ∀ r, w.inflight = some r → r.1 = B
  handle : w.h = h
  position : w.tracker.position = P
  frozen : w.frozen = f

section Ready

variable {f B : Bool} {P : ℕ} {h : Handle} {q : Option (ℕ × ℕ)} {rem rem' : Set ℕ} {w : World}
  {E : World → Prop}

theorem Ready.mono (hw : Ready f P h B q rem w) (hsub : rem ⊆ rem') : Ready f P h B q rem' w :=
  { hw with caught := hw.caught.mono hsub }

theorem Ready.complete (hw : Ready f P h B q rem w) : Ready f P h B q rem w.complete := by
  obtain ⟨-, htracker, -, hh, hfrozen⟩ := World.complete_src w
  refine ⟨?_, fun r hin => ?_, hh.trans hw.handle, ?_, hfrozen.trans hw.frozen⟩
  · rw [World.future_complete]
    exact hw.caught.complete
  · rw [World.complete_inflight] at hin
    exact absurd hin (Option.some_ne_none _).symm
  · rw [htracker]
    exact hw.position

theorem Ready.idle (hw : Ready f P h B q rem w) (hin : w.inflight = none) (B' : Bool) :
    Ready f P h B' q rem w :=
  { hw with buffer := fun r h => absurd (hin.symm.trans h) (Option.some_ne_none r).symm }

theorem Ready.tick (hw : Ready f P h B q rem w) (t : ℕ) :
    Ready f P h B q rem { w with time := t } := by
  have hfuture : ({ w with time := t } : World).future q = w.future q := by
    cases q <;> rfl
  refine ⟨?_, hw.buffer, hw.handle, hw.position, hw.frozen⟩
  rw [hfuture]
  exact ⟨hw.caught.bytes, hw.caught.size_le, hw.caught.size_ge, hw.caught.below⟩

/-- Whatever happens before a step. -/
theorem Ready.turn (hw : Ready f P h B q rem w) (t : Turn) : Ready f P h B q rem (w.turn t) := by
  have hguest :
      Ready f P h B q rem (if w.frozen then w else t.writes.foldl World.guestWrite w) := by
    split
    · exact hw
    · have hsame := World.guestWrites_same t.writes w
      refine ⟨?_, ?_, hsame.handle.trans hw.handle, hsame.position.trans hw.position,
        hsame.frozen.trans hw.frozen⟩
      · rw [hsame.future]
        exact hw.caught.guestWrites t.writes
      · rw [hsame.inflight]
        exact hw.buffer
  unfold World.turn
  generalize (if w.frozen then w else t.writes.foldl World.guestWrite w) = w₁ at hguest
  refine Ready.tick ?_ _
  split
  · exact hguest.complete
  · exact hguest

/-- A frozen image stays as it is, and so does the tracker. -/
theorem turn_frozen {t : Turn} (hf : w.frozen = true) :
    (w.turn t).src = w.src ∧ (w.turn t).tracker = w.tracker := by
  obtain ⟨hsrc, htracker, -⟩ := World.complete_src w
  unfold World.turn
  simp only [hf, if_true]
  split
  · exact ⟨hsrc, htracker⟩
  · exact ⟨rfl, rfl⟩

end Ready

/-! ## One step of the copier -/

section Steps

variable {f B : Bool} {P : ℕ} {h : Handle} {q : Option (ℕ × ℕ)} {rem : Set ℕ} {E : World → Prop}
  (sched : ℕ → Turn)

theorem interfere_spec : Triple (Ready f P h B q rem) (interfere sched)
    (fun _ => Ready f P h B q rem) E :=
  Triple.update fun _ hs => hs.turn _

/-- Moving the position is right when the bytes passed over are on the list. -/
theorem trackSetpos_spec {p : ℕ} (hP : P ≤ p) (hrem : ∀ x, P ≤ x → x < p → x ∈ rem) :
    Triple (Ready f P h B none rem) (trackSetpos sched p)
      (fun _ => Ready f p { h with trackpos := p } B none rem) E := by
  refine Triple.start fun w hw => Triple.step ?_
  have hset : Ready f P { h with trackpos := p } B none rem
      { w with h := { w.h with trackpos := p } } :=
    ⟨⟨hw.caught.bytes, hw.caught.size_le, hw.caught.size_ge, hw.caught.below⟩, hw.buffer,
      by rw [hw.handle], hw.position, hw.frozen⟩
  refine Triple.bind ((interfere_spec sched).conseq (fun s hs => hs ▸ hset) (fun _ _ h => h)
    fun _ h => h) fun _ => ?_
  refine Triple.update fun s hs => ?_
  have hpos := hs.position
  have hmove : ∀ x, s.Pending rem x →
      World.Pending rem { s with tracker := { s.tracker with position := p } } x := by
    rintro x (hx | ⟨h₁, h₂⟩ | hx)
    · exact Or.inl hx
    · by_cases hxp : x < p
      · exact Or.inr (Or.inr (hrem x (by omega) hxp))
      · exact Or.inr (Or.inl ⟨Nat.not_lt.mp hxp, h₂⟩)
    · exact Or.inr (Or.inr hx)
  refine ⟨⟨fun x => (hs.caught.bytes x).imp id (hmove x), hs.caught.size_le,
    hs.caught.size_ge.imp id (hmove _), fun x hx => ?_⟩, hs.buffer, hs.handle, rfl, hs.frozen⟩
  have := hs.caught.below x hx
  change x < p
  omega

theorem waitSender_spec : Triple (Ready f P h B none rem) (waitSender sched)
    (fun _ w => Ready f P h B none rem w ∧ w.inflight = none) E :=
  Triple.bind (interfere_spec sched) fun _ =>
    Triple.update fun s hs => ⟨hs.complete, World.complete_inflight s⟩

/-- What the destination is going to be after one buffer more. -/
theorem World.Caught.read {w : World} {g g' : File} {pos size n : ℕ} {data : ℕ → UInt8}
    (hw : World.Caught g rem w) (hn : n = min size (w.src.size - pos))
    (hdata : ∀ j < n, data j = w.src.byte (pos + j))
    (hg' : g' = if n = 0 then g else g.pwrite ⟨pos, n, data⟩) :
    World.Caught g' (rem \ Set.Ico pos (pos + size)) w := by
  have hle := hw.size_le
  -- past the end of the source both files read zero
  have htail : ∀ x, pos + n ≤ x → x < pos + size → g.byte x = w.src.byte x := by
    intro x h₁ h₂
    rw [g.eof x (by omega), w.src.eof x (by omega)]
  have hout : ∀ x, ¬ (pos ≤ x ∧ x < pos + size) → w.Pending rem x →
      w.Pending (rem \ Set.Ico pos (pos + size)) x :=
    fun x hx hp => hp.mono fun hr => ⟨hr, hx⟩
  subst hg'
  by_cases h0 : n = 0
  · rw [if_pos h0]
    refine ⟨fun x => ?_, hle, ?_, hw.below⟩
    · by_cases hx : pos ≤ x ∧ x < pos + size
      · exact Or.inl (htail x (by omega) hx.2)
      · exact (hw.bytes x).imp id (hout x hx)
    · by_cases hx : pos ≤ w.src.size - 1 ∧ w.src.size - 1 < pos + size
      · exact Or.inl (by omega)
      · exact hw.size_ge.imp id (hout _ hx)
  · rw [if_neg h0]
    refine ⟨fun x => ?_, ?_, ?_, hw.below⟩
    · rw [File.byte_pwrite]
      by_cases hin : pos ≤ x ∧ x < pos + n
      · left
        rw [overlay_of_mem hin.1 hin.2]
        change data (x - pos) = _
        rw [hdata _ (by omega)]
        congr 1
        omega
      · rw [overlay_of_not_mem (by simp only; omega)]
        by_cases hx : pos ≤ x ∧ x < pos + size
        · exact Or.inl (htail x (by omega) hx.2)
        · exact (hw.bytes x).imp id (hout x hx)
    · rw [File.size_pwrite, if_neg h0]
      simp only
      omega
    · rw [File.size_pwrite, if_neg h0]
      by_cases hx : pos ≤ w.src.size - 1 ∧ w.src.size - 1 < pos + size
      · left
        simp only
        omega
      · exact hw.size_ge.imp (fun h => h.trans (le_max_left _ _)) (hout _ hx)

/-- The buffer read into is not the one the sender works on. -/
theorem preadImage_spec {size pos : ℕ} (hB : B ≠ h.curIobuf) :
    Triple (Ready f P h B none rem) (preadImage sched h.curIobuf size pos)
      (fun n s => n ≤ size ∧ Ready f P h B (if n = 0 then none else some (n, pos))
        (rem \ Set.Ico pos (pos + size)) s) E := by
  refine Triple.bind (interfere_spec sched) fun _ => Triple.look fun w hw => ?_
  refine Triple.step (Triple.ret fun s hs => ?_)
  have hbuf : ∀ b, b ≠ h.curIobuf → s.iobuf b = w.iobuf b := by
    intro b hb
    rw [hs]
    exact Function.update_of_ne hb _ _
  have hin : s.inflight = w.inflight := by rw [hs]
  have hsettled : s.settled = w.settled := by
    unfold World.settled
    rw [hin]
    cases hi : w.inflight with
    | none => rw [hs]
    | some r =>
        have hr : r.1 = B := hw.buffer r hi
        simp only [hbuf r.1 (hr ▸ hB)]
        rw [hs]
  have hh : s.h = h := by
    rw [hs]
    exact hw.handle
  refine ⟨min_le_left _ _, ?_, fun r hr => hw.buffer r (hin.symm.trans hr), hh,
    by rw [hs]; exact hw.position, by rw [hs]; exact hw.frozen⟩
  have hself : ∀ j < min size (w.src.size - pos), s.iobuf h.curIobuf j = w.src.byte (pos + j) := by
    intro j hj
    rw [hs]
    simp only [Function.update_self]
    exact if_pos hj
  have hfuture : s.future (if min size (w.src.size - pos) = 0 then none
      else some (min size (w.src.size - pos), pos)) =
      if min size (w.src.size - pos) = 0 then w.settled
      else w.settled.pwrite ⟨pos, min size (w.src.size - pos), s.iobuf h.curIobuf⟩ := by
    split
    · exact hsettled
    · simp only [World.future, hsettled, hh]
  have hread := hw.caught.read rfl hself hfuture
  generalize s.future _ = g at hread
  have hsrc : s.src = w.src := by rw [hs]
  have htracker : s.tracker = w.tracker := by rw [hs]
  refine ⟨?_, ?_, ?_, ?_⟩
  · unfold World.Pending
    rw [hsrc, htracker]
    exact hread.bytes
  · rw [hsrc]
    exact hread.size_le
  · unfold World.Pending
    rw [hsrc, htracker]
    exact hread.size_ge
  · rw [htracker]
    exact hread.below

theorem sendAsync_spec {n pos : ℕ} :
    Triple (Ready f P h B (some (n, pos)) rem) (sendAsync sched h.curIobuf n pos)
      (fun _ => Ready f P h h.curIobuf none rem) E := by
  refine Triple.bind (interfere_spec sched) fun _ => ?_
  refine Triple.start fun w hw => Triple.step (Triple.update fun s hs => ?_)
  have hdone := hw.complete
  rw [← hs] at hdone
  have hnone : s.inflight = none := by rw [hs]; exact World.complete_inflight w
  refine ⟨?_, fun r hr => ?_, hdone.handle, hdone.position, hdone.frozen⟩
  · have hfuture : World.future { s with inflight := some (h.curIobuf, n, pos) } none
        = s.future (some (n, pos)) := by
      simp only [World.future, World.settled, hnone, hdone.handle]
    rw [hfuture]
    exact ⟨hdone.caught.bytes, hdone.caught.size_le, hdone.caught.size_ge, hdone.caught.below⟩
  · rw [← Option.some.inj hr]

/-- One block from the image to the sender. -/
theorem sendImageBlock_spec {size pos : ℕ} :
    Triple (Ready f P h h.curIobuf none rem) (sendImageBlock sched size pos)
      (fun n s => n ≤ size ∧ Ready f P { h with curIobuf := !h.curIobuf }
        (if n = 0 then h.curIobuf else !h.curIobuf) none (rem \ Set.Ico pos (pos + size)) s) E := by
  refine Triple.start fun w hw => Triple.bind (R := fun b s => b = !h.curIobuf ∧
      Ready f P { h with curIobuf := !h.curIobuf } h.curIobuf none rem s) ?_ fun b => ?_
  · refine Triple.step (Triple.look fun s hs => Triple.ret fun s' hs' => ?_)
    subst hs'
    refine ⟨?_, ?_⟩
    · rw [hs]
      simp only [hw.handle]
    · rw [hs]
      exact ⟨⟨hw.caught.bytes, hw.caught.size_le, hw.caught.size_ge, hw.caught.below⟩, hw.buffer,
        by simp only [hw.handle], hw.position, hw.frozen⟩
  · refine Triple.start fun s ⟨hb, hs⟩ => ?_
    subst hb
    refine Triple.bind ((preadImage_spec sched (h := { h with curIobuf := !h.curIobuf })
      (by simp)).conseq (fun s' hs' => hs' ▸ hs) (fun _ _ h => h) fun _ h => h) fun n => ?_
    by_cases h0 : n = 0
    · simp only [h0, if_true]
      exact Triple.ret fun _ hs => hs
    · simp only [h0, if_false]
      refine Triple.start fun s' ⟨hn, hs'⟩ => ?_
      refine Triple.bind ((sendAsync_spec sched (h := { h with curIobuf := !h.curIobuf })).conseq
        (fun _ hs => hs ▸ hs') (fun _ _ h => h) fun _ h => h) fun _ => Triple.ret fun _ hs => ?_
      rw [if_neg h0]
      exact ⟨hn, hs⟩

end Steps

end Ploop.Copy
