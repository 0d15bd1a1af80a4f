import Ploop.Copy.NoLoss

/-!
# The rounds of an iterative copy

Between two rounds every byte that may differ is known to the tracker, and
after a round on the frozen image that found nothing, no byte differs.
-/

namespace Ploop.Copy

open Storage Program

/-- Between two blocks: `rem` is what the copier still has to read, and the
tracker is where the handle says. -/
structure Standing (f : Bool) (c : ℕ) (raw : Bool) (rem : Set ℕ) (w : World) : Prop where
  ready : Ready f w.tracker.position w.h w.h.curIobuf none rem w
  cluster : w.h.cluster = c
  raw : w.h.raw = raw
  trackpos : w.h.trackpos = w.tracker.position

section Rounds

variable {f B raw : Bool} {P c : ℕ} {h : Handle} {rem : Set ℕ} {w : World} (sched : ℕ → Turn)

theorem Ready.standing (hw : Ready f P h B none rem w) (hB : B = h.curIobuf)
    (hpos : h.trackpos = P) :
    Standing f h.cluster h.raw rem w := by
  have hh := hw.handle
  have hP := hw.position
  subst hh hP hB
  exact ⟨hw, rfl, rfl, hpos⟩

theorem Standing.mono {rem' : Set ℕ} (hw : Standing f c raw rem w) (hsub : rem ⊆ rem') :
    Standing f c raw rem' w :=
  { hw with ready := hw.ready.mono hsub }

/-- Fields of the handle that the invariant does not mention may change. -/
theorem Ready.setEof (hw : Ready f P h B none rem w) (e : ℕ) :
    Ready f P { h with eofOffset := e } B none rem { w with h := { w.h with eofOffset := e } } :=
  ⟨⟨hw.caught.bytes, hw.caught.size_le, hw.caught.size_ge, hw.caught.below⟩, hw.buffer,
    by rw [hw.handle], hw.position, hw.frozen⟩

theorem Standing.setTrackend (hw : Standing f c raw rem w) (e : ℕ) :
    Standing f c raw rem { w with h := { w.h with trackend := e } } :=
  ⟨⟨⟨hw.ready.caught.bytes, hw.ready.caught.size_le, hw.ready.caught.size_ge,
    hw.ready.caught.below⟩, hw.ready.buffer, rfl, rfl, hw.ready.frozen⟩, hw.cluster, hw.raw,
    hw.trackpos⟩

/-! ## Sending an extent -/

/-- One extent, or what is left of it. -/
theorem extentLoop_spec (hc : 0 < c) (fuel : ℕ) {pos last : ℕ} :
    Triple (fun w => Standing f c raw (Set.Ico pos last) w ∧ pos ≤ w.tracker.position)
      (extentLoop sched fuel pos last) (fun _ => Standing f c raw ∅) fun _ => True := by
  induction fuel generalizing pos with
  | zero => exact Triple.raise fun _ _ => True.intro
  | succ fuel ih =>
      unfold extentLoop
      by_cases hlast : pos < last
      · rw [if_pos hlast]
        refine Triple.look fun w ⟨hw, hpos⟩ => ?_
        have hcl := hw.cluster
        have hraw := hw.raw
        have htp := hw.trackpos
        have hready := hw.ready
        set P := w.tracker.position with hP
        set h := w.h with hh
        set copy := min (last - pos) h.cluster with hcopy
        have hcopy0 : 0 < copy := by omega
        have hcopyl : pos + copy ≤ last := by omega
        -- the block is read with the tracker at its end or beyond
        have hblock : ∀ h' : Handle, h'.cluster = c → h'.raw = raw → pos + copy ≤ h'.trackpos →
            Triple (Ready f h'.trackpos h' h'.curIobuf none (Set.Ico pos last))
              (do
                let n ← sendImageBlock sched copy pos
                if n ≠ copy then throw (.exit .read)
                else do
                  modify fun w =>
                    { w with h := { w.h with eofOffset := max w.h.eofOffset (pos + n) } }
                  extentLoop sched fuel (pos + n) last)
              (fun _ => Standing f c raw ∅) fun _ => True := by
          intro h' hcl' hraw' hle
          refine Triple.bind (sendImageBlock_spec sched) fun n => ?_
          by_cases hn : n = copy
          · subst hn
            simp only [ne_eq, not_true_eq_false, if_false]
            refine Triple.start fun s ⟨_, hs⟩ => Triple.step ?_
            refine (@ih (pos + copy)).conseq (fun s' hs' => ?_) (fun _ _ h => h) fun _ h => h
            rw [if_neg (by omega)] at hs
            have hs := hs.setEof (max s.h.eofOffset (pos + copy))
            have hrest :
                Set.Ico pos last \ Set.Ico pos (pos + copy) ⊆ Set.Ico (pos + copy) last := by
              rintro x ⟨⟨h₁, h₂⟩, h₃⟩
              exact ⟨Nat.not_lt.mp fun h₄ => h₃ ⟨h₁, h₄⟩, h₂⟩
            have hst := (hs.standing rfl rfl).mono hrest
            subst hs'
            have hp := hs.position
            simp only at hst hp
            rw [hcl', hraw'] at hst
            exact ⟨hst, hle.trans hp.ge⟩
          · simp only [ne_eq, hn, not_false_eq_true, if_true]
            exact Triple.raise fun _ _ => True.intro
        dsimp only
        by_cases hset : h.trackpos < pos + copy
        · rw [if_pos hset]
          have hmove : Triple (Ready f P h h.curIobuf none (Set.Ico pos last))
              (trackSetpos sched (pos + copy)) (fun _ => Ready f (pos + copy)
                { h with trackpos := pos + copy } h.curIobuf none (Set.Ico pos last))
              fun _ => True :=
            trackSetpos_spec sched (by omega) fun x h₁ h₂ => ⟨by omega, by omega⟩
          refine Triple.bind (hmove.conseq (fun s hs => hs ▸ hready) (fun _ _ h => h) fun _ h => h)
            fun _ => ?_
          exact hblock { h with trackpos := pos + copy } hcl hraw le_rfl
        · rw [if_neg hset]
          refine (hblock h hcl hraw (Nat.not_lt.mp hset)).conseq (fun s hs => ?_) (fun _ _ h => h)
            fun _ h => h
          rw [hs, htp]
          exact hready
      · rw [if_neg hlast]
        refine Triple.ret fun w ⟨hw, _⟩ => hw.mono ?_
        rw [Set.Ico_eq_empty hlast]

/-! ## Asking the tracker -/

/-- What `TRACK_READ` answers, and what it leaves in the tracker. -/
theorem Tracker.read_some {t t' : Tracker} {pick : ℕ × ℕ} {forget : Bool} {s e : ℕ}
    (hbelow : ∀ x, t.dirty x → x < t.position) (h : t.read pick forget = (some (s, e), t')) :
    s < e ∧ s ≤ t.position ∧ t'.position = t.position ∧ (∀ x, t'.dirty x → t.dirty x) ∧
      ∀ x, t.dirty x ∨ t.position ≤ x ∧ x < t.trackedEnd →
        t'.dirty x ∨ t'.position ≤ x ∧ x < t'.trackedEnd ∨ x ∈ Set.Ico s e := by
  have hclean : ∀ a b : ℕ, ∀ x, (t.clean a b).dirty x → t.dirty x := by
    intro a b x hx
    simp only [Tracker.clean, Bool.and_eq_true] at hx
    exact hx.1
  have hkept : ∀ a b : ℕ, ∀ x, t.dirty x → (t.clean a b).dirty x ∨ x ∈ Set.Ico a b := by
    intro a b x hx
    by_cases hin : a ≤ x ∧ x < b
    · exact Or.inr hin
    · left
      simp only [Tracker.clean, hx, Bool.true_and, Bool.not_eq_true', Bool.and_eq_false_iff,
        decide_eq_false_iff_not]
      by_contra hboth
      push Not at hboth
      exact hin hboth
  unfold Tracker.read at h
  split at h
  · rename_i hext
    obtain ⟨h₁, h₂⟩ := Prod.mk.inj h
    have hp := Option.some.inj h₁
    subst h₂
    rw [hp] at hext ⊢
    refine ⟨hext.1, hext.1.le.trans hext.2.1, rfl, hclean s e, fun x hx => ?_⟩
    rcases hx with hx | hx
    · exact (hkept s e x hx).imp id Or.inr
    · exact Or.inr (Or.inl hx)
  · split at h
    · rename_i hlt
      obtain ⟨h₁, h₂⟩ := Prod.mk.inj h
      obtain ⟨rfl, rfl⟩ := Prod.mk.inj (Option.some.inj h₁)
      have hdirty : t'.dirty = t.dirty ∧ t'.position = t.position := by
        subst h₂
        cases forget <;> exact ⟨rfl, rfl⟩
      rw [hdirty.1]
      exact ⟨hlt, le_rfl, hdirty.2, fun _ hx => hx, fun x hx => hx.imp id Or.inr⟩
    · split at h
      · rename_i y hy
        obtain ⟨h₁, h₂⟩ := Prod.mk.inj h
        obtain ⟨rfl, rfl⟩ := Prod.mk.inj (Option.some.inj h₁)
        subst h₂
        have hdirty := List.find?_some hy
        refine ⟨Nat.lt_succ_self y, (hbelow y hdirty).le, rfl, hclean y (y + 1), fun x hx => ?_⟩
        rcases hx with hx | hx
        · exact (hkept y (y + 1) x hx).imp id Or.inr
        · exact Or.inr (Or.inl hx)
      · exact absurd (Prod.mk.inj h).1 (Option.some_ne_none _).symm

/-- `EAGAIN` means that the tracker has nothing left. -/
theorem Tracker.read_none {t t' : Tracker} {pick : ℕ × ℕ} {forget : Bool}
    (hbelow : ∀ x, t.dirty x → x < t.position) (h : t.read pick forget = (none, t')) :
    t' = t ∧ (∀ x, ¬ t.dirty x) ∧ t.trackedEnd ≤ t.position := by
  unfold Tracker.read at h
  split at h
  · exact absurd (Prod.mk.inj h).1 (Option.some_ne_none _)
  · split at h
    · exact absurd (Prod.mk.inj h).1 (Option.some_ne_none _)
    · rename_i hle
      split at h
      · exact absurd (Prod.mk.inj h).1 (Option.some_ne_none _)
      · rename_i hnone
        have hall := List.find?_eq_none.mp hnone
        refine ⟨(Prod.mk.inj h).2.symm, fun x hx => ?_, Nat.not_lt.mp hle⟩
        exact hall x (List.mem_range.mpr (hbelow x hx)) hx

/-- Moving to another tracker that knows everything outside `rem'`. -/
theorem Standing.setTracker {rem' : Set ℕ} {t : Tracker} (hw : Standing f c raw rem w)
    (hpos : t.position = w.tracker.position) (hsub : ∀ x, t.dirty x → w.tracker.dirty x)
    (hknown : ∀ x, w.Pending rem x → World.Pending rem' { w with tracker := t } x) :
    Standing f c raw rem' { w with tracker := t } := by
  obtain ⟨⟨hcaught, hbuffer, -, -, hfrozen⟩, hcl, hraw, htp⟩ := hw
  refine ⟨⟨⟨fun x => (hcaught.bytes x).imp id (hknown x), hcaught.size_le,
    hcaught.size_ge.imp id (hknown _), fun x hx => ?_⟩, hbuffer, rfl, rfl, hfrozen⟩, hcl, hraw, ?_⟩
  · exact hpos ▸ hcaught.below x (hsub x hx)
  · exact htp.trans hpos.symm

theorem Standing.turn (hw : Standing f c raw rem w) (t : Turn) :
    Standing f c raw rem (w.turn t) := by
  have hst := (hw.ready.turn t).standing rfl hw.trackpos
  rw [hw.cluster, hw.raw] at hst
  exact hst

theorem Standing.complete (hw : Standing f c raw rem w) : Standing f c raw rem w.complete := by
  have hst := hw.ready.complete.standing rfl hw.trackpos
  rw [hw.cluster, hw.raw] at hst
  exact hst

theorem World.Clean.turn (hw : w.Clean) (hf : w.frozen = true) (t : Turn) : (w.turn t).Clean := by
  unfold World.Clean
  rw [(turn_frozen hf).2]
  exact hw

theorem World.Clean.complete (hw : w.Clean) : w.complete.Clean := by
  unfold World.Clean
  rw [(World.complete_src w).2.1]
  exact hw

theorem trackRead_spec : Triple (Standing f c raw ∅) (trackRead sched)
    (fun r w => match r with
      | none => Standing f c raw ∅ w ∧ w.Clean
      | some (first, last) => Standing f c raw (Set.Ico first last) w ∧
          first < last ∧ first ≤ w.tracker.position) fun _ => True := by
  refine Triple.bind (R := fun _ => Standing f c raw ∅)
    (Triple.update fun _ hs => hs.turn _) fun _ => Triple.look fun w hw => ?_
  refine Triple.step (Triple.ret fun s hs => ?_)
  subst hs
  have hbelow := hw.ready.caught.below
  cases hr : w.tracker.read (sched w.time).pick (sched w.time).forget with
  | mk r t =>
    cases r with
    | none =>
        obtain ⟨rfl, hclean, hend⟩ := Tracker.read_none hbelow hr
        exact ⟨hw, hclean, hend⟩
    | some q =>
        obtain ⟨first, last⟩ := q
        obtain ⟨hlt, hle, hpos, hsub, hknown⟩ := Tracker.read_some hbelow hr
        refine ⟨hw.setTracker hpos hsub fun x hx => ?_, hlt, hle.trans hpos.ge⟩
        rcases hx with hx | hx | hx
        · exact hknown x (Or.inl hx)
        · exact hknown x (Or.inr hx)
        · exact absurd hx (Set.notMem_empty x)

/-! ## One round -/

theorem iterationLoop_spec (hc : 0 < c) (inner fuel : ℕ) {iterpos xferred : ℕ} :
    Triple (Standing f c raw ∅) (iterationLoop sched inner fuel iterpos xferred)
      (fun r w => Standing f c raw ∅ w ∧ (r = 0 → w.Clean)) fun _ => True := by
  induction fuel generalizing iterpos xferred with
  | zero => exact Triple.raise fun _ _ => True.intro
  | succ fuel ih =>
      unfold iterationLoop
      refine Triple.bind (trackRead_spec sched) fun r => ?_
      cases r with
      | none => exact Triple.ret fun w ⟨hw, hclean⟩ => ⟨hw, fun _ => hclean⟩
      | some q =>
          obtain ⟨first, last⟩ := q
          refine Triple.start fun w ⟨hw, hlt, hpos⟩ => Triple.step ?_
          have hextent : Triple (fun w => Standing f c raw (Set.Ico first last) w ∧
              first ≤ w.tracker.position) (extentLoop sched inner first last)
              (fun _ => Standing f c raw ∅) fun _ => True := extentLoop_spec sched hc inner
          refine Triple.bind (hextent.conseq (fun s hs => ?_) (fun _ _ h => h) fun _ h => h)
            fun _ => ?_
          · rw [hs]
            exact ⟨hw.setTrackend _, hpos⟩
          by_cases hwrap : first < iterpos
          · rw [if_pos hwrap]
            exact Triple.ret fun s hs => ⟨hs, fun h0 => by omega⟩
          · rw [if_neg hwrap]
            exact ih

theorem ploopCopyNextIteration_spec (hc : 0 < c) (fuel inner : ℕ) :
    Triple (Standing f c raw ∅) (ploopCopyNextIteration sched fuel inner)
      (fun r w => Standing f c raw ∅ w ∧ w.inflight = none ∧ (f = true → r = 0 → w.Clean))
      fun _ => True := by
  refine Triple.bind (iterationLoop_spec sched hc inner fuel) fun r => ?_
  refine Triple.bind (R := fun _ w => Standing f c raw ∅ w ∧ w.inflight = none ∧
    (f = true → r = 0 → w.Clean)) ?_ fun _ => Triple.ret fun _ hs => hs
  refine Triple.bind (R := fun _ w => Standing f c raw ∅ w ∧ (f = true → r = 0 → w.Clean))
    (Triple.update fun w ⟨hw, hclean⟩ => ⟨hw.turn _, fun hf h0 => ?_⟩) fun _ => ?_
  · exact (hclean h0).turn (hw.ready.frozen.trans hf) _
  · exact Triple.update fun w ⟨hw, hclean⟩ =>
      ⟨hw.complete, World.complete_inflight w, fun hf h0 => (hclean hf h0).complete⟩

theorem iterations_spec (hc : 0 < c) (fuel inner k : ℕ) :
    Triple (Standing f c raw ∅) (iterations sched fuel inner k)
      (fun _ => Standing f c raw ∅) fun _ => True := by
  induction k with
  | zero => exact Triple.ret fun _ hs => hs
  | succ k ih =>
      exact Triple.bind ((ploopCopyNextIteration_spec sched hc fuel inner).conseq (fun _ h => h)
        (fun _ _ h => h.1) fun _ h => h) fun _ => ih

/-! ## The start -/

/-- Between two blocks of the first pass over the image. -/
structure Starting (c : ℕ) (raw : Bool) (pos : ℕ) (w : World) : Prop where
  ready : Ready false w.tracker.position w.h w.h.curIobuf none ∅ w
  cluster : w.h.cluster = c
  raw : w.h.raw = raw
  ge : pos ≤ w.tracker.position
  le : w.tracker.position ≤ pos + c
  trackpos : pos = 0 ∨ w.h.trackpos = w.tracker.position

/-- After the first pass the sender may still have either buffer. -/
def Started (c : ℕ) (raw : Bool) (w : World) : Prop :=
  ∃ P h B, Ready false P h B none ∅ w ∧ h.cluster = c ∧ h.raw = raw ∧ h.trackpos = P

theorem startLoop_spec (fuel : ℕ) {pos : ℕ} :
    Triple (Starting c raw pos) (startLoop sched fuel pos) (fun _ => Started c raw)
      fun _ => True := by
  induction fuel generalizing pos with
  | zero => exact Triple.raise fun _ _ => True.intro
  | succ fuel ih =>
      unfold startLoop
      refine Triple.look fun w hw => ?_
      have hcl := hw.cluster
      by_cases hend : pos ≤ w.h.trackend
      · dsimp only
        rw [if_pos hend]
        have hmove : Triple (Ready false w.tracker.position w.h w.h.curIobuf none
            (Set.Ico pos (pos + w.h.cluster))) (trackSetpos sched (pos + w.h.cluster))
            (fun _ => Ready false (pos + w.h.cluster)
              { w.h with trackpos := pos + w.h.cluster } w.h.curIobuf none
              (Set.Ico pos (pos + w.h.cluster))) fun _ => True :=
          trackSetpos_spec sched (hcl ▸ hw.le) fun x h₁ h₂ => ⟨hw.ge.trans h₁, h₂⟩
        refine Triple.bind (hmove.conseq (fun s hs => hs ▸ hw.ready.mono (Set.empty_subset _))
          (fun _ _ h => h) fun _ h => h) fun _ => ?_
        refine Triple.bind (sendImageBlock_spec sched
          (h := { w.h with trackpos := pos + w.h.cluster })) fun n => ?_
        refine Triple.start fun s ⟨hn, hs⟩ => ?_
        rw [Set.sdiff_self] at hs
        by_cases h0 : n = 0
        · simp only [h0, if_true] at hs ⊢
          exact Triple.ret fun _ hs' => hs' ▸ ⟨_, _, _, hs, hcl, hw.raw, rfl⟩
        · simp only [h0, if_false] at hs ⊢
          refine Triple.step ((@ih (pos + n)).conseq (fun s' hs' => ?_) (fun _ _ h => h)
            fun _ h => h)
          have hst := (hs.setEof (max s.h.eofOffset (pos + n))).standing rfl rfl
          have hpos := hs.position
          subst hs'
          refine ⟨hst.ready, hst.cluster.trans hcl, hst.raw.trans hw.raw, ?_, ?_,
            Or.inr hst.trackpos⟩
          · change pos + n ≤ s.tracker.position
            omega
          · change s.tracker.position ≤ pos + n + c
            omega
      · dsimp only
        rw [if_neg hend]
        refine Triple.ret fun s hs => hs ▸ ?_
        rcases hw.trackpos with h0 | htp
        · exact absurd (h0 ▸ Nat.zero_le _) hend
        · exact ⟨_, _, _, hw.ready, hcl, hw.raw, htp⟩

/-- With the tracker just started, everything in the file is pending. -/
theorem World.Caught.init (w : World) (e : ℕ) :
    World.Caught File.empty ∅
      { w with tracker := Tracker.init w.src.size, h := { w.h with trackend := e } } := by
  refine ⟨fun x => ?_, Nat.zero_le _, ?_, fun x hx => absurd hx Bool.false_ne_true⟩
  · by_cases hx : x < w.src.size
    · exact Or.inr (Or.inr (Or.inl ⟨Nat.zero_le x, hx⟩))
    · exact Or.inl (w.src.eof x (Nat.not_lt.mp hx)).symm
  · by_cases h0 : w.src.size = 0
    · exact Or.inl h0.le
    · exact Or.inr (Or.inr (Or.inl ⟨Nat.zero_le _, by change w.src.size - 1 < w.src.size; omega⟩))

/-- With no send under way, only the source and the tracker change by themselves. -/
theorem turn_idle (hin : w.inflight = none) (t : Turn) : (w.turn t).dest = w.dest ∧
    (w.turn t).inflight = none ∧ (w.turn t).h = w.h ∧ (w.turn t).frozen = w.frozen := by
  have hguest : ∀ v : World, v.dest = w.dest ∧ v.inflight = none ∧ v.h = w.h ∧ v.frozen = w.frozen →
      ∀ b : Bool, (if b then v.complete else v).dest = w.dest ∧
        (if b then v.complete else v).inflight = none ∧ (if b then v.complete else v).h = w.h ∧
        (if b then v.complete else v).frozen = w.frozen := by
    intro v hv b
    have hidle : v.complete = v := by
      unfold World.complete
      rw [hv.2.1]
    cases b with
    | false => exact hv
    | true =>
        rw [hidle]
        simpa using hv
  refine hguest (if w.frozen then w else t.writes.foldl World.guestWrite w) ?_ t.sent
  split
  · exact ⟨rfl, hin, rfl, rfl⟩
  · have hsame := World.guestWrites_same t.writes w
    exact ⟨hsame.dest, hsame.inflight.trans hin, hsame.handle, hsame.frozen⟩

/-- After the wait the buffers are free. -/
theorem Started.wait : Triple (Started c raw) (waitSender sched)
    (fun _ => Standing false c raw ∅) fun _ => True := by
  refine Triple.start fun w ⟨P, h, B, hw, hcl, hraw, htp⟩ => ?_
  refine (waitSender_spec sched).conseq (fun s hs => hs ▸ hw) (fun _ s ⟨hs, hin⟩ => ?_) fun _ h => h
  have hst := (hs.idle hin h.curIobuf).standing rfl htp
  rw [hcl, hraw] at hst
  exact hst

theorem ploopCopyStart_spec (fuel : ℕ) :
    Triple (fun w => w.Initial ∧ w.h.cluster = c ∧ w.h.raw = raw) (ploopCopyStart sched fuel)
      (fun _ => Standing false c raw ∅) fun _ => True := by
  refine Triple.bind (R := fun e w => e = w.src.size ∧ w.tracker = Tracker.init w.src.size ∧
    w.Initial ∧ w.h.cluster = c ∧ w.h.raw = raw) ?_ fun e => ?_
  · refine Triple.bind (R := fun _ w => w.Initial ∧ w.h.cluster = c ∧ w.h.raw = raw)
      (Triple.update fun w ⟨hw, hcl, hraw⟩ => ?_) fun _ => ?_
    · obtain ⟨hdest, hin, hh, hfrozen⟩ := turn_idle hw.inflight (sched w.time)
      rw [hh]
      exact ⟨⟨hh ▸ hw.cluster, hdest.trans hw.dest, hin, hfrozen.trans hw.running⟩, hcl, hraw⟩
    · refine Triple.start fun w ⟨hw, hcl, hraw⟩ => Triple.step (Triple.look fun s hs => ?_)
      refine Triple.ret fun s' hs' => ?_
      subst hs' hs
      exact ⟨rfl, rfl, ⟨hw.cluster, hw.dest, hw.inflight, hw.running⟩, hcl, hraw⟩
  · refine Triple.start fun w ⟨he, htracker, hw, hcl, hraw⟩ => Triple.step ?_
    have hloop : Triple (Starting c raw 0) (startLoop sched fuel 0) (fun _ => Started c raw)
        fun _ => True := startLoop_spec sched fuel
    refine Triple.bind (hloop.conseq (fun s hs => ?_) (fun _ _ h => h) fun _ h => h) fun _ =>
      Started.wait sched
    have hcaught := World.Caught.init w e
    rw [← htracker] at hcaught
    have hposition : w.tracker.position = 0 := by rw [htracker]; rfl
    subst hs
    refine ⟨⟨?_, fun r hr => ?_, rfl, rfl, hw.running⟩, hcl, hraw, Nat.zero_le _, ?_, Or.inl rfl⟩
    · have hfuture : World.future { w with h := { w.h with trackend := e } } none = File.empty := by
        simp only [World.future, World.settled, hw.inflight, hw.dest]
      rw [hfuture]
      exact hcaught
    · exact absurd (hw.inflight.symm.trans hr) (Option.some_ne_none r).symm
    · change w.tracker.position ≤ 0 + c
      omega

/-! ## The stop -/

theorem freeze_spec : Triple (Standing false c raw ∅) (freeze sched)
    (fun _ => Standing true c raw ∅) fun _ => True := by
  refine Triple.bind (R := fun _ => Standing false c raw ∅)
    (Triple.update fun _ hs => hs.turn _) fun _ => Triple.update fun w hw => ?_
  obtain ⟨⟨hcaught, hbuffer, -, -, -⟩, hcl, hraw, htp⟩ := hw
  exact ⟨⟨⟨hcaught.bytes, hcaught.size_le, hcaught.size_ge, hcaught.below⟩, hbuffer, rfl, rfl, rfl⟩,
    hcl, hraw, htp⟩

/-- The destination is the image. -/
structure Equal (raw : Bool) (w : World) : Prop where
  bytes : ∀ x, w.dest.byte x = w.src.byte x
  size : w.dest.size = w.src.size
  inflight : w.inflight = none
  frozen : w.frozen = true
  raw : w.h.raw = raw

/-- A clean tracker leaves no byte that may differ. -/
theorem Standing.equal (hw : Standing true c raw ∅ w) (hin : w.inflight = none) (hclean : w.Clean) :
    Equal raw w := by
  have hnone : ∀ x, ¬ w.Pending ∅ x := by
    rintro x (hx | ⟨h₁, h₂⟩ | hx)
    · exact hclean.1 x hx
    · exact absurd (h₂.trans_le hclean.2) (Nat.not_lt.mpr h₁)
    · exact hx
  have hcaught := hw.ready.caught
  have hfuture : w.future none = w.dest := World.settled_of_none hin
  rw [hfuture] at hcaught
  refine ⟨fun x => (hcaught.bytes x).resolve_right (hnone x), ?_, hin, hw.ready.frozen, hw.raw⟩
  exact Nat.le_antisymm hcaught.size_le (hcaught.size_ge.resolve_right (hnone _))

theorem stopLoop_spec (hc : 0 < c) (fuel inner k : ℕ) :
    Triple (Standing true c raw ∅) (stopLoop sched fuel inner k) (fun _ => Equal raw)
      fun _ => True := by
  induction k with
  | zero => exact Triple.raise fun _ _ => True.intro
  | succ k ih =>
      refine Triple.bind (ploopCopyNextIteration_spec sched hc fuel inner) fun r => ?_
      by_cases h0 : r = 0
      · rw [if_pos h0]
        exact Triple.ret fun w ⟨hw, hin, hclean⟩ => hw.equal hin (hclean rfl h0)
      · rw [if_neg h0]
        exact ih.conseq (fun _ h => h.1) (fun _ _ h => h) fun _ h => h

/-- The destination is the image but for the in-use mark. -/
structure Copied (w : World) : Prop where
  bytes : ∀ x, w.h.raw = true ∨ headerBytes ≤ x → w.dest.byte x = w.src.byte x
  size : w.dest.size = w.src.size
  frozen : w.frozen = true

theorem Equal.turn (hw : Equal raw w) (t : Turn) : Equal raw (w.turn t) := by
  obtain ⟨hdest, hin, hh, hfrozen⟩ := turn_idle hw.inflight t
  have hsrc := (turn_frozen hw.frozen (t := t)).1
  refine ⟨?_, ?_, hin, hfrozen.trans hw.frozen, by rw [hh]; exact hw.raw⟩
  · rw [hdest, hsrc]
    exact hw.bytes
  · rw [hdest, hsrc]
    exact hw.size

/-- Reading the frozen image leaves both files alone. -/
theorem Equal.preadImage {b : Bool} {size pos : ℕ} :
    Triple (Equal raw) (preadImage sched b size pos)
      (fun n w => Equal raw w ∧ n ≤ w.src.size - pos ∧ ∀ j < n, w.iobuf b j = w.src.byte (pos + j))
      fun _ => True := by
  refine Triple.bind (R := fun _ => Equal raw) (Triple.update fun _ hs => hs.turn _) fun _ => ?_
  refine Triple.look fun w hw => Triple.step (Triple.ret fun s hs => ?_)
  subst hs
  refine ⟨⟨hw.bytes, hw.size, hw.inflight, hw.frozen, hw.raw⟩, min_le_right _ _, fun j hj => ?_⟩
  simp only [Function.update_self]
  exact if_pos hj

theorem sendHeader_spec :
    Triple (Equal false) (sendHeader sched) (fun _ => Copied) fun _ => True := by
  refine Triple.bind (R := fun _ => Equal false) ?_ fun b => ?_
  · refine Triple.start fun w hw => Triple.step (Triple.look fun s hs =>
      Triple.ret fun s' hs' => ?_)
    subst hs' hs
    exact ⟨hw.bytes, hw.size, hw.inflight, hw.frozen, hw.raw⟩
  · refine Triple.bind (Equal.preadImage sched) fun n => ?_
    by_cases hn : n = 4096
    · subst hn
      simp only [ne_eq, not_true_eq_false, if_false]
      refine Triple.look fun w ⟨hw, hsize, hbuf⟩ => ?_
      refine Triple.bind (R := fun _ s => Equal false s ∧ s.src = w.src)
        (Triple.update fun s hs => ?_) fun _ => Triple.update fun s ⟨hs, hsrc⟩ => ?_
      · rw [hs]
        exact ⟨hw.turn _, (turn_frozen hw.frozen).1⟩
      · have hfit : 0 + 4096 ≤ s.dest.size := by
          rw [hs.size, hsrc]
          omega
        refine ⟨fun x hx => ?_, ?_, hs.frozen⟩
        · have hge : headerBytes ≤ x :=
            hx.resolve_left fun h => Bool.false_ne_true (hs.raw.symm.trans h)
          have hmark : ¬ (PvdHeader.offDiskInUse ≤ x ∧ x < PvdHeader.offDiskInUse + 4) := by
            rintro ⟨-, h₂⟩
            exact absurd (h₂.trans_le (by decide)) (Nat.not_lt.mpr hge)
          rw [File.byte_pwrite]
          by_cases hlt : x < 4096
          · rw [overlay_of_mem (Nat.zero_le x) (by simpa using hlt)]
            simp only [Nat.sub_zero]
            rw [if_neg hmark, hbuf x hlt, hsrc, Nat.zero_add]
          · rw [overlay_of_ge (by simpa using hlt)]
            exact hs.bytes x
        · rw [File.size_pwrite_le hfit]
          exact hs.size
    · simp only [ne_eq, hn, not_false_eq_true, if_true]
      exact Triple.raise fun _ _ => True.intro

theorem ploopCopyStop_spec (hc : 0 < c) (fuel inner : ℕ) :
    Triple (Standing false c raw ∅) (ploopCopyStop sched fuel inner) (fun _ => Copied)
      fun _ => True := by
  refine Triple.bind (freeze_spec sched) fun _ => Triple.bind (stopLoop_spec sched hc fuel inner 3)
    fun _ => Triple.look fun w hw => ?_
  cases hraw : w.h.raw with
  | true => exact Triple.ret fun s hs => hs ▸ ⟨fun x _ => hw.bytes x, hw.size, hw.frozen⟩
  | false =>
      have heq : Equal false w := { hw with raw := hraw }
      exact (sendHeader_spec sched).conseq (fun s hs => hs ▸ heq) (fun _ _ h => h) fun _ h => h

end Rounds

/-! ## The whole copy -/

/-- A copy that ends well has every byte of the frozen image, whatever was
written while it ran. -/
theorem copySession_lossless (sched : ℕ → Turn) (fuel inner k : ℕ) {w w' : World} (hw : w.Initial)
    (hok : copySession sched fuel inner k w = .ok () w') : Copied w' := by
  have hrun : Triple (fun v => v.Initial ∧ v.h.cluster = w.h.cluster ∧ v.h.raw = w.h.raw)
      (copySession sched fuel inner k) (fun _ => Copied) fun _ => True :=
    Triple.bind (ploopCopyStart_spec sched fuel) fun _ =>
      Triple.bind (iterations_spec sched hw.cluster fuel inner k) fun _ =>
        ploopCopyStop_spec sched hw.cluster fuel inner
  exact hrun.ok ⟨hw, rfl, rfl⟩ hok

/-- A raw image of six bytes, in blocks of four. -/
def sixBytes : World where
  src := ⟨6, fun x => if x < 6 then x.toUInt8 + 1 else 0, fun _ hx => if_neg (Nat.not_lt.mpr hx)⟩
  dest := File.empty
  tracker := ⟨0, 0, fun _ => false⟩
  h := ⟨4, true, 0, 0, 0, false⟩
  iobuf := fun _ _ => 0
  inflight := none
  frozen := false
  time := 0

/-- The guest writes one byte before every step, also past the end. -/
def busyGuest (t : ℕ) : Turn := ⟨[⟨t % 9, 1, fun _ => t.toUInt8⟩], t % 2 = 0, (t % 3, t % 5), false⟩

theorem sixBytes_lossless :
    ∃ w', copySession busyGuest 40 40 1 sixBytes = .ok () w' ∧ Copied w' := by
  have hends : (match copySession busyGuest 40 40 1 sixBytes with
      | .ok _ _ => true
      | .error _ _ => false) = true := by decide +kernel
  cases hrun : copySession busyGuest 40 40 1 sixBytes with
  | ok a w' =>
      exact ⟨w', rfl, copySession_lossless busyGuest 40 40 1 ⟨by decide, rfl, rfl, rfl⟩ hrun⟩
  | error e w' =>
      rw [hrun] at hends
      exact absurd hends Bool.false_ne_true

end Ploop.Copy
