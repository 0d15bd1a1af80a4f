import Ploop.Snapshot.Alike

/-!
# When the letter case of the argument matters
-/

namespace Ploop.Dd

open Program Storage DiskImagesData

inductive Op where
  | delete
  | switch (guidOld : Option Guid) (skipCreate skipDestroy : Bool)
  | merge (newDelta : Option Path)

namespace Op

def run (o : Outside) : Op → Guid → DdM Unit
  | delete, guid => ploopDeleteSnapshot o guid
  | switch guidOld skipCreate skipDestroy, guid =>
      ploopSwitchSnapshotEx o guid guidOld skipCreate skipDestroy
  | merge newDelta, guid => ploopMergeSnapshot o (some guid) false newDelta

/-- The same operation, where the new guid of the old top may be spelled in another case. -/
inductive Alike : Op → Op → Prop
  | delete : Alike delete delete
  | switch {n n' : Option Guid} (hn : Option.Rel (fun g g' => guidEq g g' = true) n n')
      (skipCreate skipDestroy : Bool) :
      Alike (switch n skipCreate skipDestroy) (switch n' skipCreate skipDestroy)
  | merge (newDelta : Option Path) : Alike (merge newDelta) (merge newDelta)

def isMerge : Op → Bool
  | merge _ => true
  | _ => false

end Op

section SameTop

variable {o : Outside} {g g' : Guid}

theorem merge_alike (hg : guidEq g g') (n : Option Path) (w : World) :
    SameOutcome World.Alike Eq ((Op.merge n).run o g w) ((Op.merge n).run o g' w) := by
  refine SameOutcome.bind_left World.Alike.refl fun _ s _ => ?_
  exact (same_getDi.bind fun _ _ _ => same_mergeSnapshotByGuid hg n) s s (World.Alike.refl s)

theorem deleteLeaf_congr (hg : guidEq g g') (snap : SnapshotData) {s : World}
    (htop : s.di.isTopExactly g = s.di.isTopExactly g') :
    deleteLeaf o g snap s = deleteLeaf o g' snap s := by
  refine run_bind_congr fun di s' h => ?_
  cases h
  simp only [htop, findImageByGuid_congr hg, checkSnapshotMount_congr hg, diRemoveImage_congr hg]

theorem byCount_congr {x x' y z : DdM Unit} {s : World} (k : ℕ) (hx : x s = x' s) :
    (match k with | 0 => x | 1 => y | _ => z) s = (match k with | 0 => x' | 1 => y | _ => z) s := by
  rcases k with _ | _ | k
  · exact hx
  · rfl
  · rfl

theorem doDeleteSnapshot_congr (hg : guidEq g g') {s : World}
    (htop : s.di.isTopExactly g = s.di.isTopExactly g') :
    doDeleteSnapshot o g s = doDeleteSnapshot o g' s := by
  refine run_bind_congr fun di s₁ h => ?_
  cases h
  simp only [snapshotByGuid_congr hg]
  cases s.di.snapshotByGuid g' with
  | none => rfl
  | some snap =>
      refine run_bind_congr fun running s₂ h₂ => ?_
      simp only [htop]
      refine run_bind_congr fun _ s₃ h₃ => ?_
      have hdi : s₃.di = s.di := by rw [guardParam_ok h₃, findDev_di h₂]
      simp only [getChildCountByUuid_congr hg, getChildByUuid_congr hg, setTemporary_congr hg]
      have hleaf : deleteLeaf o g snap s₃ = deleteLeaf o g' snap s₃ :=
        deleteLeaf_congr hg snap (by rw [hdi, htop])
      exact byCount_congr _ hleaf

theorem delete_alike (hg : guidEq g g') {w : World} (htop : ∀ di, readDd o w.conf = some di →
    di.isTopExactly g = di.isTopExactly g') :
    SameOutcome World.Alike Eq (Op.delete.run o g w) (Op.delete.run o g' w) := by
  refine SameOutcome.of_eq World.Alike.refl (run_bind_congr fun _ s h => ?_)
  have hdi := htop s.di (lockDd_ok h)
  change EStateM.bind _ _ s = EStateM.bind _ _ s
  unfold EStateM.bind
  rw [doDeleteSnapshot_congr hg hdi]

theorem switch_alike (hg : guidEq g g') {n n' : Option Guid}
    (hn : Option.Rel (fun g g' => guidEq g g' = true) n n') (c d : Bool) {w : World}
    (htop : ∀ di, readDd o w.conf = some di → di.isTopExactly g = di.isTopExactly g') :
    SameOutcome World.Alike Eq ((Op.switch n c d).run o g w) ((Op.switch n' c d).run o g' w) := by
  change SameOutcome _ _ (ploopSwitchSnapshotEx o g n c d w) (ploopSwitchSnapshotEx o g' n' c d w)
  unfold ploopSwitchSnapshotEx
  rw [isValidGuid_congr hg]
  refine SameOutcome.bind_left World.Alike.refl fun _ s₁ h₁ => ?_
  refine SameOutcome.bind_left World.Alike.refl fun _ s h => ?_
  rw [guardParam_ok h₁] at h
  have hdi := htop s.di (lockDd_ok h)
  refine SameOutcome.bind_left World.Alike.refl fun di s' h' => ?_
  cases h'
  rw [hdi, snapshotByGuid_congr hg]
  refine SameOutcome.bind_left World.Alike.refl fun _ s₂ _ => ?_
  refine SameOutcome.bind_left World.Alike.refl fun snap s₃ _ => ?_
  refine SameOutcome.bind_left World.Alike.refl fun _ s₄ _ => ?_
  cases c with
  | true =>
      simp only [if_true, resetTopDelta_congr hg]
      exact SameOutcome.of_eq World.Alike.refl rfl
  | false =>
      simp only [Bool.false_eq_true, if_false]
      suffices h : Same _ _ from h s₄ s₄ (World.Alike.refl s₄)
      refine same_callRc.bind fun _ _ _ => same_genUuid.bind fun _ _ _ => same_genUuid.bind
        fun u u' hu => (same_orParam_eq rfl).bind fun t t' ht => ?_
      subst hu ht
      refine (same_leaveTop (guidEq_refl t) hn).bind fun f f' hf => same_getDi.bind
        fun di di' h => ?_
      subst hf
      rw [alike_deltaName h]
      refine (same_diAddImage (guidEq_refl _) hg _).bind fun _ _ _ => (same_store true).bind
        fun _ _ _ => (same_attempt (same_createSnapshotDelta _ _)).bind fun m m' hm => ?_
      subst hm
      cases m with
      | error e => exact same_unlinkConfTmp.bind fun _ _ _ => Sim.raise
      | ok u =>
          refine same_renameConf.bind fun b b' hb => Sim.ite (by rw [hb]) ?_ ?_
          · cases f with
            | none => exact Sim.ret rfl
            | some p => exact (same_unlinkFile p).bind fun _ _ _ => Sim.ret rfl
          · exact (same_unlinkFile _).bind fun _ _ _ => same_unlinkConfTmp.bind fun _ _ _ =>
              Sim.raise

end SameTop

/-! ## The guard on the top is there for one spelling only -/

section Stale

/-- Two deltas, with the device running on them. -/
def twoLevels (top base : Guid) : DiskImagesData where
  size := 4096
  blocksize := 2048
  raw := false
  images := [⟨base, ['r'], false⟩, ⟨top, ['t'], false⟩]
  snapshots := [⟨base, noneUuid, false, false⟩, ⟨top, base, false, false⟩]
  topGuid := some top
  vol := some ⟨none, none, false⟩

def runningOn (di : DiskImagesData) : World where
  di := di
  conf := di
  confTmp := none
  store := ⟨fun _ => some File.empty, some (di.images.map ImageData.file), false⟩
  time := 0

/-- Everything works but the call with number `k`. -/
def failsAt (k : ℕ) : Outside :=
  { calm with
    fails := fun t => t = k
    code := fun _ => .open }

/-- A base whose guid is neither the null guid nor that of the top. -/
structure Apart (t b g : Guid) : Prop where
  topValid : isValidGuid t = true
  baseValid : isValidGuid b = true
  top : guidEq t g = true
  base : guidEq b g = false
  null : guidEq noneUuid g = false
  parent : guidEq b noneUuid = false

variable {t b g : Guid} (h : Apart t b g)

include h

theorem readDd_twoLevels (k : ℕ) : readDd (failsAt k) (twoLevels t b) = some (twoLevels t b) := by
  simp [readDd, validate, parse, twoLevels, h.topValid, h.baseValid,
    show isValidGuid noneUuid = true by decide]

theorem lockDd_twoLevels {k : ℕ} (hk : 0 < k) : lockDd (failsAt k) (runningOn (twoLevels t b)) =
    .ok () { runningOn (twoLevels t b) with time := 1 } := by
  have hcall : call (failsAt k) (.exit .lock) (runningOn (twoLevels t b)) =
      .ok () { runningOn (twoLevels t b) with time := 1 } := by
    rw [call_run, if_neg]
    · rfl
    · simpa [failsAt, runningOn] using hk.ne
  have hconf : (runningOn (twoLevels t b)).conf = twoLevels t b := rfl
  rw [lockDd, bind_run_ok hcall, get_bind_run, hconf, readDd_twoLevels h]
  rfl

theorem snapshotByGuid_twoLevels :
    (twoLevels t b).snapshotByGuid g = some ⟨t, b, false, false⟩ := by
  simp [snapshotByGuid, twoLevels, h.base, h.top]

theorem childCount_twoLevels : (twoLevels t b).getChildCountByUuid g = 0 := by
  simp [getChildCountByUuid, twoLevels, h.base, h.null]

theorem findImage_twoLevels : (twoLevels t b).findImageByGuid g = some ['t'] := by
  simp [findImageByGuid, twoLevels, guidEq_comm g, h.base, h.top]

theorem diRemoveImage_noMemory (r : Bool) {k : ℕ} {s : World} (hk : s.time = k)
    (hs : s.di = twoLevels t b) :
    diRemoveImage (failsAt k) g r s = .error (.exit .malloc) { s with time := s.time + 1 } := by
  have hget : getDi s = .ok (twoLevels t b) s := by
    rw [← hs]
    rfl
  have hsnap : (twoLevels t b).findSnapshotByGuid g = some 1 := by
    simp [findSnapshotByGuid, twoLevels, List.findIdx?_cons, h.base, h.top]
  have himage : (twoLevels t b).findImageIdxByGuid g = some 1 := by
    simp [findImageIdxByGuid, twoLevels, List.findIdx?_cons, guidEq_comm g, h.base, h.top]
  have hfail : alloc (failsAt k) s = .error (.exit .malloc) { s with time := s.time + 1 } := by
    rw [alloc, call_run, if_pos (show (failsAt k).fails s.time = true from decide_eq_true hk)]
  unfold diRemoveImage
  rw [bind_run_ok hget, hsnap, snapshotByGuid_twoLevels h, himage, findImage_twoLevels h,
    childCount_twoLevels h]
  simp only [orParam, guardParam, pure_bind, decide_true, h.parent, Bool.not_false, if_true]
  exact bind_run_error hfail

omit h in
theorem isTopExactly_twoLevels : (twoLevels t b).isTopExactly g = decide (t = g) :=
  decide_eq_decide.mpr Option.some_inj

theorem delete_exactly (hg : t = g) : ∃ s, Op.delete.run (failsAt 2) g
    (runningOn (twoLevels t b)) = .error (.exit .param) s := by
  have hdev : findDev (failsAt 2) { runningOn (twoLevels t b) with time := 1 } =
      .ok true { runningOn (twoLevels t b) with time := 2 } := rfl
  have hget : getDi { runningOn (twoLevels t b) with time := 1 } =
      .ok (twoLevels t b) { runningOn (twoLevels t b) with time := 1 } := rfl
  refine ⟨{ runningOn (twoLevels t b) with time := 2 }, ?_⟩
  refine (bind_run_ok (lockDd_twoLevels h (by omega))).trans (bind_run_error ?_)
  unfold doDeleteSnapshot
  rw [bind_run_ok hget, snapshotByGuid_twoLevels h]
  refine (bind_run_ok hdev).trans (bind_run_error ?_)
  rw [isTopExactly_twoLevels, decide_eq_true hg]
  rfl

theorem delete_otherwise (hg : t ≠ g) : ∃ s, Op.delete.run (failsAt 2) g
    (runningOn (twoLevels t b)) = .error (.exit .malloc) s := by
  have hdev : findDev (failsAt 2) { runningOn (twoLevels t b) with time := 1 } =
      .ok true { runningOn (twoLevels t b) with time := 2 } := rfl
  have hget : ∀ n : ℕ, getDi { runningOn (twoLevels t b) with time := n } =
      .ok (twoLevels t b) { runningOn (twoLevels t b) with time := n } := fun _ => rfl
  have hmount : checkSnapshotMount (failsAt 2) g ['t'] false
      { runningOn (twoLevels t b) with time := 2 } =
      .ok () { runningOn (twoLevels t b) with time := 2 } := by
    unfold checkSnapshotMount
    rw [bind_run_ok (hget 2), if_pos (show (twoLevels t b).isTop g = true from h.top)]
    rfl
  have hnull : decide (b ≠ noneUuid) = true := by
    refine decide_eq_true fun hb => ?_
    have := h.parent
    simp [hb] at this
  have hleaf : deleteLeaf (failsAt 2) g ⟨t, b, false, false⟩
      { runningOn (twoLevels t b) with time := 2 } =
      .error (.exit .malloc) { runningOn (twoLevels t b) with time := 3 } := by
    unfold deleteLeaf
    rw [bind_run_ok (hget 2), isTopExactly_twoLevels, decide_eq_false hg, findImage_twoLevels h]
    simp only [hnull, guardParam, if_true, pure_bind, orParam, Bool.false_eq_true, if_false]
    exact (bind_run_ok hmount).trans (bind_run_error (diRemoveImage_noMemory h true rfl rfl))
  refine ⟨{ runningOn (twoLevels t b) with time := 3 }, ?_⟩
  refine (bind_run_ok (lockDd_twoLevels h (by omega))).trans (bind_run_error ?_)
  unfold doDeleteSnapshot
  rw [bind_run_ok (hget 1), snapshotByGuid_twoLevels h, childCount_twoLevels h]
  refine (bind_run_ok hdev).trans ?_
  rw [isTopExactly_twoLevels, decide_eq_false hg]
  exact hleaf

theorem switch_exactly (hg : t = g) (n : Option Guid) (c d : Bool) :
    ∃ s, (Op.switch n c d).run (failsAt 1) g (runningOn (twoLevels t b)) =
      .error (.exit .param) s := by
  have hget : getDi { runningOn (twoLevels t b) with time := 1 } =
      .ok (twoLevels t b) { runningOn (twoLevels t b) with time := 1 } := rfl
  refine ⟨{ runningOn (twoLevels t b) with time := 1 }, ?_⟩
  change ploopSwitchSnapshotEx _ _ _ _ _ _ = _
  unfold ploopSwitchSnapshotEx
  rw [← hg, h.topValid]
  simp only [guardParam, if_true, pure_bind]
  refine (bind_run_ok (lockDd_twoLevels h (by omega))).trans
    ((bind_run_ok hget).trans (bind_run_error ?_))
  rw [isTopExactly_twoLevels, decide_eq_true rfl]
  rfl

theorem switch_otherwise (hg : t ≠ g) (n : Option Guid) (c d : Bool) :
    ∃ s, (Op.switch n c d).run (failsAt 1) g (runningOn (twoLevels t b)) =
      .error (.exit (if c then .malloc else .open)) s := by
  have hget : getDi { runningOn (twoLevels t b) with time := 1 } =
      .ok (twoLevels t b) { runningOn (twoLevels t b) with time := 1 } := rfl
  have hvalid : isValidGuid g = true := by rw [← isValidGuid_congr h.top, h.topValid]
  refine ⟨{ runningOn (twoLevels t b) with time := 2 }, ?_⟩
  change ploopSwitchSnapshotEx _ _ _ _ _ _ = _
  unfold ploopSwitchSnapshotEx
  rw [hvalid]
  simp only [guardParam, if_true, pure_bind]
  refine (bind_run_ok (lockDd_twoLevels h (by omega))).trans ((bind_run_ok hget).trans ?_)
  rw [isTopExactly_twoLevels, decide_eq_false hg, snapshotByGuid_twoLevels h]
  simp only [Bool.not_false, if_true, orParam, pure_bind]
  cases c with
  | true =>
      have htop : Apart t b t := ⟨h.topValid, h.baseValid, guidEq_refl t, by
        rw [← h.base, guidEq_congr (guidEq_refl b) h.top], by
        rw [← h.null, guidEq_congr (guidEq_refl noneUuid) h.top], h.parent⟩
      simp only [if_true]
      unfold resetTopDelta
      rw [bind_run_ok hget, show (twoLevels t b).topGuid = some t from rfl]
      simp only [orParam, pure_bind]
      exact bind_run_error (diRemoveImage_noMemory htop false rfl rfl)
  | false =>
      simp only [Bool.false_eq_true, if_false]
      exact bind_run_error rfl

omit h in
theorem not_sameOutcome {e e' : Err} {x y : EStateM.Result Err World Unit}
    (hx : ∃ s, x = .error e s) (hy : ∃ s, y = .error e' s) (hne : e ≠ e') :
    ¬ SameOutcome World.Alike Eq x y := by
  obtain ⟨s, rfl⟩ := hx
  obtain ⟨s', rfl⟩ := hy
  exact fun h => hne h.1

theorem Op.differ {g' : Guid} (h' : Apart t b g') {op op' : Op} (hop : op.Alike op')
    (hm : op.isMerge = false) (hne : ¬ (t = g ↔ t = g')) :
    ∃ k, ¬ SameOutcome World.Alike Eq (op.run (failsAt k) g (runningOn (twoLevels t b)))
      (op'.run (failsAt k) g' (runningOn (twoLevels t b))) := by
  cases hop with
  | merge n => cases hm
  | delete =>
      refine ⟨2, ?_⟩
      by_cases hg : t = g
      · exact not_sameOutcome (delete_exactly h hg)
          (delete_otherwise h' fun hg' => hne ⟨fun _ => hg', fun _ => hg⟩) (by decide)
      · by_cases hg' : t = g'
        · exact not_sameOutcome (delete_otherwise h hg) (delete_exactly h' hg') (by decide)
        · exact absurd ⟨fun hc => absurd hc hg, fun hc => absurd hc hg'⟩ hne
  | @switch n n' _ c d =>
      refine ⟨1, ?_⟩
      by_cases hg : t = g
      · refine not_sameOutcome (switch_exactly h hg n c d)
          (switch_otherwise h' (fun hg' => hne ⟨fun _ => hg', fun _ => hg⟩) n' c d) ?_
        cases c <;> decide
      · by_cases hg' : t = g'
        · refine not_sameOutcome (switch_otherwise h hg n c d) (switch_exactly h' hg' n' c d) ?_
          cases c <;> decide
        · exact absurd ⟨fun hc => absurd hc hg, fun hc => absurd hc hg'⟩ hne

end Stale

theorem exists_apart {t : Guid} (ht : isValidGuid t) (hn : guidEq noneUuid t = false) :
    ∃ b, Apart t b t := by
  have hone : isValidGuid topdeltaUuid = true := by decide
  by_cases h : guidEq topdeltaUuid t
  · refine ⟨"{11111111-1111-1111-1111-111111111111}".toList, ht, by decide, guidEq_refl t, ?_, hn,
      by decide⟩
    rw [← guidEq_congr (guidEq_refl _) h]
    decide
  · exact ⟨topdeltaUuid, ht, hone, guidEq_refl t, by simpa using h, hn, by decide⟩

theorem Apart.spelled {t b g : Guid} (h : Apart t b t) (hg : guidEq t g) : Apart t b g where
  topValid := h.topValid
  baseValid := h.baseValid
  top := hg
  base := by rw [← guidEq_congr (guidEq_refl b) hg, h.base]
  null := by rw [← guidEq_congr (guidEq_refl noneUuid) hg, h.null]
  parent := h.parent

theorem run_alike {o : Outside} {g g' : Guid} (hg : guidEq g g') {op op' : Op}
    (hop : op.Alike op') {w : World} (htop : op.isMerge = true ∨ ∀ di, readDd o w.conf = some di →
      di.isTopExactly g = di.isTopExactly g') :
    SameOutcome World.Alike Eq (op.run o g w) (op'.run o g' w) := by
  cases hop with
  | merge n => exact merge_alike hg n w
  | delete => exact delete_alike hg (htop.resolve_left nofun)
  | switch hn c d => exact switch_alike hg hn c d (htop.resolve_left nofun)

/-- Two spellings of a guid are told apart exactly where one of them is the
spelling of the top in the descriptor, and then by every operation but merge. -/
theorem run_alike_iff {t g g' : Guid} (ht : isValidGuid t) (hg : guidEq g g') {op op' : Op}
    (hop : op.Alike op') :
    (∀ (o : Outside) (w : World), (∀ di, readDd o w.conf = some di → di.topGuid = some t) →
      SameOutcome World.Alike Eq (op.run o g w) (op'.run o g' w)) ↔
    op.isMerge = true ∨ (t = g ↔ t = g') := by
  constructor
  · intro hall
    by_contra hcon
    obtain ⟨hm, hne⟩ := not_or.mp hcon
    -- one of the two is the spelling of the top, so both are spellings of it
    have htg : guidEq t g := by
      by_cases h : t = g
      · rw [h]
        exact guidEq_refl g
      · by_cases h' : t = g'
        · rw [h', guidEq_comm]
          exact hg
        · exact absurd ⟨fun hc => absurd hc h, fun hc => absurd hc h'⟩ hne
    have hnull : guidEq noneUuid t = false := by
      by_contra hn
      have hn' : guidEq noneUuid t = true := by simpa using hn
      have h₀ := (eq_noneUuid_congr hn').mp rfl
      have h₁ := (eq_noneUuid_congr htg).mp h₀
      have h₂ := (eq_noneUuid_congr hg).mp h₁
      exact hne ⟨fun _ => by rw [h₀, h₂], fun _ => by rw [h₀, h₁]⟩
    obtain ⟨b, hb⟩ := exists_apart ht hnull
    have hdiffer := Op.differ (hb.spelled htg) (hb.spelled (guidEq_trans htg hg)) hop
      (by simpa using hm) hne
    obtain ⟨k, hdiffer⟩ := hdiffer
    refine hdiffer (hall _ _ fun di hdi => ?_)
    rw [← Option.some.inj ((readDd_twoLevels hb k).symm.trans hdi)]
    rfl
  · intro hcond o w htop
    refine run_alike hg hop (hcond.imp_right fun heq di hdi => ?_)
    unfold DiskImagesData.isTopExactly
    rw [htop di hdi, decide_eq_decide, Option.some_inj, Option.some_inj, heq]

/-- The guid of the top in capitals. -/
def topCapitals : Guid := "{5FBAABE3-6958-40FF-92A7-860E329AAB41}".toList

theorem run_alike_iff_capitals :
    (∀ (o : Outside) (w : World), (∀ di, readDd o w.conf = some di →
        di.topGuid = some topdeltaUuid) →
      SameOutcome World.Alike Eq (Op.delete.run o topdeltaUuid w)
        (Op.delete.run o topCapitals w)) ↔
    Op.delete.isMerge = true ∨ (topdeltaUuid = topdeltaUuid ↔ topdeltaUuid = topCapitals) :=
  run_alike_iff (by decide) (by decide) Op.Alike.delete

/-- The top that the device runs on is kept under its own spelling and deleted
under the other. -/
theorem delete_not_alike : ¬ ∀ (o : Outside) (op : Op) (g g' : Guid) (w : World), guidEq g g' →
    SameOutcome World.Alike Eq (op.run o g w) (op.run o g' w) := by
  intro hall
  let base : Guid := "{11111111-1111-1111-1111-111111111111}".toList
  exact hall (failsAt 100) .delete topdeltaUuid topCapitals
    (runningOn (twoLevels topdeltaUuid base)) (by decide)

end Ploop.Dd
