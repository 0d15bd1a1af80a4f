import Ploop.Snapshot.Listing
import Ploop.Snapshot.Temporary

/-!
# Merges of a running device

A merge takes a delta out of the stack of the kernel, and then the descriptor on disk is renamed.
Only a failure between the two leaves them apart.
-/

namespace Ploop.Dd

open Keyed Program Storage

variable {o : Outside} {α β : Type} {w s t : World} {d : DiskImagesData} {g : Guid}
  {file : Path} {k : Option (List Path)}

/-! ## Up to the edit -/

/-- The device and the descriptor are in step, and what is in memory is what is on disk. -/
structure Tidy (o : Outside) (s : World) : Prop extends InStep o s where
  read : readDd o s.conf = some s.di
  plain : Plain s.di

theorem listed_eq {c : DiskImagesData} (h : readDd o c = some d) : listed o c = d.stack := by
  unfold listed
  rw [h]
  rfl

theorem Tidy.stack (h : Tidy o s) : s.di.stack = s.store.kernel :=
  (listed_eq h.read).symm.trans h.listed

theorem Tidy.still (h : Tidy o s) (ht : Still s t) : Tidy o t := by
  refine ⟨h.toInStep.quiet ht.toQuiet, ?_, ?_⟩
  · rw [ht.conf, ht.di]
    exact h.read
  · rw [ht.di]
    exact h.plain

section Still

variable (hs : InStep o s)

include hs

theorem still_step {x : DdM α} (h : Keeps Still x) :
    Triple (Still s) x (fun _ => Still s) (InStep o) :=
  Triple.start fun t ht => (h t).conseq (fun _ h => h)
    (fun _ _ hu => IsTrans.trans (r := Still) _ _ _ ht hu)
    fun _ hu => hs.quiet (IsTrans.trans (r := Quiet) _ _ _ ht.toQuiet hu.toQuiet)

theorem still_orParam {a : Option α} {f : α → DdM β} {Q : β → World → Prop}
    (h : ∀ x, a = some x → Triple (Still s) (f x) Q (InStep o)) :
    Triple (Still s) (orParam a >>= f) Q (InStep o) := by
  cases a with
  | none => exact Triple.raise fun _ ht => hs.quiet ht.toQuiet
  | some x => exact h x rfl

theorem still_guardParam {b : Bool} {f : Unit → DdM β} {Q : β → World → Prop}
    (h : b = true → Triple (Still s) (f ()) Q (InStep o)) :
    Triple (Still s) (guardParam b >>= f) Q (InStep o) := by
  cases b with
  | false => exact Triple.raise fun _ ht => hs.quiet ht.toQuiet
  | true => exact h rfl

end Still

theorem still_start {x : DdM α} {Q : α → World → Prop} {E : World → Prop}
    (h : Triple (Still s) x Q E) : Triple (fun t => t = s) x Q E :=
  fun t ht => h t (ht ▸ Std.Refl.refl t)

theorem still_getDi {f : DiskImagesData → DdM β} {Q : β → World → Prop} {E : World → Prop}
    (h : Triple (Still s) (f s.di) Q E) : Triple (Still s) (getDi >>= f) Q E := by
  intro t ht
  have hrun := h t ht
  rw [← ht.di] at hrun
  exact hrun

/-- `d` is in memory, and all else is as in `w`. -/
structure Edited (w : World) (d : DiskImagesData) (s : World) : Prop extends Quiet w s where
  di : s.di = d

theorem edited_step (hw : InStep o w) {x : DdM α} (h : Keeps Still x) :
    Triple (Edited w d) x (fun _ => Edited w d) (InStep o) :=
  Triple.start fun t ht => (h t).conseq (fun _ h => h)
    (fun _ _ hu => ⟨IsTrans.trans (r := Quiet) _ _ _ ht.toQuiet hu.toQuiet, hu.di.trans ht.di⟩)
    fun _ hu => hw.quiet (IsTrans.trans (r := Quiet) _ _ _ ht.toQuiet hu.toQuiet)

/-- What `ploop_di_merge_image` checks and makes. -/
theorem edited_mergeImage (hs : Tidy o s)
    (hp : ∀ snap, s.di.snapshotByGuid g = some snap → snap.parentGuid ≠ noneUuid →
      s.di.isTop snap.parentGuid = false) :
    Triple (Still s) (diMergeImage o g) (fun file t => ∃ i j snap,
      OnlyChild s.di g i j snap file ∧ Edited s (s.di.merged g snap i j) t) (InStep o) := by
  refine still_getDi (still_orParam hs.toInStep fun i hi => still_orParam hs.toInStep
    fun snap hsnap => still_orParam hs.toInStep fun j hj => still_orParam hs.toInStep
    fun file hfile => still_guardParam hs.toInStep fun hcount => still_guardParam hs.toInStep
    fun hbase => (still_step hs.toInStep (keeps_call _)).bind fun _ => ?_)
  have hchild : OnlyChild s.di g i j snap file := by
    refine ⟨hi, hsnap, hj, hfile, of_decide_eq_true hcount, fun heq => ?_⟩
    rw [heq, guidEq_refl] at hbase
    exact Bool.false_ne_true hbase
  have hsame := merged_changeGuid hs.plain.toDistinct hchild
    (hp snap hsnap hchild.parent)
  refine Triple.bind (R := fun _ => Edited s (s.di.merged g snap i j))
    (Triple.update fun t ht => ⟨⟨ht.conf, ht.store⟩, ?_⟩) fun _ => ?_
  · change (t.di.mergeGuid g snap).dropAt i j = _
    rw [ht.di]
    rfl
  · refine Triple.when (R := Edited s (s.di.merged g snap i j)) ?_
      (Triple.ret fun t ht => ⟨i, j, snap, hchild, ht⟩)
    split
    · refine Triple.update fun t ht => ⟨⟨ht.conf, ht.store⟩, ?_⟩
      rw [ht.di]
      exact hsame
    · exact Triple.ret fun _ ht => ht

/-! ## The new descriptor waits -/

theorem convert_run (h : Plain d) (hs : s.di = d) : convertDiskDescriptor s = .ok () s := by
  subst hs
  unfold convertDiskDescriptor
  have hget : getDi s = .ok s.di s := rfl
  rw [bind_run_ok hget]
  cases hvol : s.di.vol with
  | some v => rfl
  | none =>
      have htop := h.top hvol
      unfold DiskImagesData.isTop at htop
      rw [if_neg (by simp)]
      cases hguid : s.di.topGuid with
      | none => simp [hguid] at htop
      | some top =>
          rw [hguid, Option.any_some] at htop
          dsimp only
          rw [if_pos htop]
          rfl

/-- As in `w`, but `d` is in memory and waits, there may be more files, and the device runs on
`k`. -/
structure Pending (w : World) (d : DiskImagesData) (k : Option (List Path)) (s : World) :
    Prop where
  conf : s.conf = w.conf
  di : s.di = d
  confTmp : s.confTmp = some d
  kernel : s.store.kernel = k
  files : ∀ p, (w.store.files p).isSome → (s.store.files p).isSome

theorem Pending.still (h : Pending w d k s) (ht : Still s t) : Pending w d k t := by
  refine ⟨ht.conf.trans h.conf, ht.di.trans h.di, ht.confTmp.trans h.confTmp, ?_, ?_⟩
  · rw [ht.store]
    exact h.kernel
  · rw [ht.store]
    exact h.files

theorem Pending.inStep (hw : InStep o w) (h : Pending w d w.store.kernel s) : InStep o s := by
  refine ⟨?_, ?_, fun stack hstack f hf => h.files f ?_⟩
  · rw [h.conf, h.kernel]
    exact hw.listed
  · rw [h.kernel]
    exact hw.running
  · rw [h.kernel] at hstack
    exact hw.exist stack hstack f hf

theorem pending_step (hw : InStep o w) {x : DdM α} (h : Keeps Still x) :
    Triple (Pending w d w.store.kernel) x (fun _ => Pending w d w.store.kernel) (InStep o) :=
  Triple.start fun s hs => (h s).conseq (fun _ h => h) (fun _ _ ht => hs.still ht)
    fun _ ht => (hs.still ht).inStep hw

theorem pending_store (hw : InStep o w) (hd : Plain d) :
    Triple (Edited w d) (storeDiskdescriptor o true) (fun _ => Pending w d w.store.kernel)
      (InStep o) := by
  have hconvert : Triple (Edited w d) convertDiskDescriptor (fun _ => Edited w d) (InStep o) := by
    intro s hs
    rw [convert_run hd hs.di]
    exact hs
  refine hconvert.bind fun _ => (edited_step hw (keeps_call _)).bind fun _ => ?_
  refine Triple.update fun s hs => ⟨hs.conf, hs.di, ?_, ?_, fun p hp => ?_⟩
  · exact congrArg some ((congrArg _ hs.di).trans (toXml_eq hd.ownImages hd.ownSnapshots))
  · exact congrArg Store.kernel hs.store
  · change (s.store.files p).isSome
    rwa [hs.store]

theorem pending_setStack (f : List Path → List Path) {E : World → Prop} :
    Triple (Pending w d k) (setStack f) (fun _ => Pending w d (k.map f)) E :=
  Triple.update fun _ hs => ⟨hs.conf, hs.di, hs.confTmp, congrArg (Option.map f) hs.kernel,
    hs.files⟩

theorem pending_dropLevel (hw : InStep o w) (level : ℕ) :
    Triple (Pending w d w.store.kernel) (dropLevel o level)
      (fun _ => Pending w d (w.store.kernel.map fun stack => stack.eraseIdx level)) (InStep o) :=
  (pending_step hw (keeps_call _)).bind fun _ => pending_setStack _

theorem pending_merge (hw : InStep o w) {a : MergeArgs} (ha : a.newDelta = none) :
    Triple (Pending w d w.store.kernel) (mergeImage o a)
      (fun _ => Pending w d (if a.online then
        w.store.kernel.map fun stack => stack.eraseIdx a.endLevel else w.store.kernel))
      (InStep o) := by
  refine (pending_step hw keeps_tick).bind fun time => Triple.look fun s hs => ?_
  have hset : Triple (fun t => t = s)
      (set { s with store := s.store.write (o.merge time a s.store).2 } : DdM PUnit)
      (fun _ => Pending w d w.store.kernel) (InStep o) :=
    fun _ _ => ⟨hs.conf, hs.di, hs.confTmp, hs.kernel,
      fun p hp => Store.isSome_write _ (hs.files p hp)⟩
  refine hset.bind fun _ => ?_
  cases (o.merge time a s.store).1 with
  | some c => exact Triple.raise fun _ ht => ht.inStep hw
  | none =>
      dsimp only
      cases a.online with
      | false => exact Triple.ret fun _ ht => ht
      | true =>
          unfold mergeIoctls
          rw [ha]
          exact (pending_step hw (keeps_call _)).bind fun _ => pending_dropLevel hw _

/-! ## Up to the end of a merge -/

/-- The device runs on what the waiting descriptor lists. The file that is gone from it is listed
by the descriptor on disk if the stack has lost it. -/
structure Awaits (o : Outside) (file : Path) (ahead : Bool) (s : World) : Prop where
  new : ∃ d, s.confTmp = some d ∧ s.di = d ∧ Plain d ∧ d.stack = s.store.kernel
  running : s.store.kernel.isSome
  exist : ∀ stack, s.store.kernel = some stack → ∀ f ∈ stack, (s.store.files f).isSome
  unlisted : ∀ stack, s.store.kernel = some stack → file ∉ stack
  old : listed o s.conf = s.store.kernel ↔ ahead = false

theorem level_some {stack : List Path} {e : ℕ} (h : level stack file = some e) :
    stack[e]? = some file := by
  obtain ⟨hlt, heq, -⟩ := List.findIdx?_eq_some_iff_getElem.mp h
  exact (List.getElem?_eq_getElem hlt).trans (congrArg some (of_decide_eq_true heq))

theorem eraseIdx_stack {stack : List Path} {e : ℕ} (hnodup : stack.Nodup)
    (he : stack[e]? = some file) : stack.eraseIdx e = stack.filter (· ≠ file) :=
  @eraseIdx_eq_filter _ _ _ id stack e file (by simpa using hnodup) (by simpa using he)

/-- The places of two files in the stack; it is an offline merge if neither is there. -/
theorem still_mergeLevels (hs : InStep o s) {stack : List Path}
    (hstack : s.store.kernel = some stack) (child parent : Path) :
    Triple (Still s) (mergeLevels o child parent) (fun r t => Still s t ∧
      if r.2.2.1 then stack[r.2.1]? = some child else child ∉ stack) (InStep o) := by
  refine Triple.look fun t ht => ?_
  rw [ht.store, hstack]
  refine Triple.conseq (P := Still s) ?_ (fun _ hu => hu ▸ ht) (fun _ _ h => h) fun _ h => h
  refine (still_step hs (keeps_call _)).bind fun _ => (still_step hs (keeps_call _)).bind fun _ =>
    (still_step hs keeps_callRc).bind fun _ => (still_step hs keeps_callRc).bind fun _ => ?_
  split
  case h_1 e b he hb =>
    split
    · exact Triple.ret fun _ hu => ⟨hu, level_some he⟩
    · exact Triple.raise fun _ hu => hs.quiet hu.toQuiet
  case h_2 hnone _ =>
    refine Triple.ret fun _ hu => ⟨hu, fun hmem => ?_⟩
    have hall := List.findIdx?_eq_none_iff.mp hnone child hmem
    simp at hall
  case h_3 => exact Triple.raise fun _ hu => hs.quiet hu.toQuiet

theorem Pending.awaits (hs : Tidy o s) {stack : List Path} (hstack : s.store.kernel = some stack)
    {i j : ℕ} {snap : SnapshotData} (hchild : OnlyChild s.di g i j snap file)
    (hp : s.di.isTop snap.parentGuid = false) {ahead : Bool} (hahead : file ∈ stack ↔ ahead = true)
    (h : Pending s (s.di.merged g snap i j) (some (stack.filter (· ≠ file))) t) :
    Awaits o file ahead t := by
  refine ⟨⟨_, h.confTmp, h.di, hs.plain.merged hchild, ?_⟩, ?_, fun st hst f hf => ?_,
    fun st hst hmem => ?_, ?_⟩
  · rw [h.kernel]
    exact stack_merged hs.plain.toDistinct hchild hp (hs.stack.trans hstack)
  · rw [h.kernel]
    rfl
  · rw [h.kernel] at hst
    cases hst
    exact h.files f (hs.exist stack hstack f (List.mem_of_mem_filter hf))
  · rw [h.kernel] at hst
    cases hst
    simp at hmem
  · rw [h.conf, hs.listed, h.kernel, hstack, Option.some_inj, eq_comm, List.filter_eq_self,
      ← Bool.not_eq_true, ← hahead]
    constructor
    · exact fun hall hmem => absurd rfl (of_decide_eq_true (hall file hmem))
    · exact fun hno f hf => decide_eq_true fun heq => hno (heq ▸ hf)

theorem awaits_mergeDown (hs : Tidy o s)
    (hp : ∀ snap, s.di.snapshotByGuid g = some snap → snap.parentGuid ≠ noneUuid →
      s.di.isTop snap.parentGuid = false) :
    Triple (Still s) (mergeDown o g none) (fun r t => Awaits o r.1 r.2 t) (InStep o) := by
  obtain ⟨stack, hstack⟩ := Option.isSome_iff_exists.mp hs.running
  have hin := hs.toInStep
  have hd := hs.plain.toDistinct
  have hlisted := hs.stack.trans hstack
  refine still_getDi (still_orParam hin fun child _ => still_orParam hin fun fname hfname =>
    still_guardParam hin fun _ => still_orParam hin fun parentFname _ =>
    still_orParam hin fun parent _ => still_guardParam hin fun _ =>
    (still_step hin keeps_findDev).bind fun _ => (still_mergeLevels hin hstack _ _).bind
    fun levels => Triple.known fun hlevels => ?_)
  obtain ⟨startLevel, endLevel, online, mergeTop⟩ := levels
  refine (still_step hin (keeps_call _)).bind fun _ => (still_step hin (keeps_call _)).bind fun _ =>
    (still_step hin (keeps_checkSnapshotMount _ _ _)).bind fun _ =>
    (still_step hin (keeps_checkSnapshotMount _ _ _)).bind fun _ =>
    (edited_mergeImage hs hp).bind fun deleteFname => Triple.start fun u hu => ?_
  obtain ⟨i, j, snap, hchild, hu⟩ := hu
  obtain rfl := Option.some.inj (hfname.symm.trans hchild.image)
  refine Triple.conseq (P := Edited s (s.di.merged g snap i j)) ?_ (fun _ hv => hv ▸ hu)
    (fun _ _ h => h) fun _ h => h
  refine (pending_store hin (hs.plain.merged hchild)).bind fun _ => ?_
  refine Triple.bind (R := fun _ => Pending s (s.di.merged g snap i j) s.store.kernel)
    (Triple.read fun _ h => h) fun v => ?_
  refine (pending_merge hin rfl).bind fun _ => Triple.ret fun t ht => ?_
  have hkernel : (if online = true then s.store.kernel.map fun st => st.eraseIdx endLevel
      else s.store.kernel) = some (stack.filter (· ≠ fname)) := by
    rw [hstack]
    cases online with
    | true => exact congrArg some (eraseIdx_stack (stack_nodup hd hlisted) hlevels)
    | false =>
        have hkeep : ∀ f ∈ stack, f ≠ fname := fun f hf heq => hlevels (heq ▸ hf)
        exact congrArg some (List.filter_eq_self.mpr fun f hf => decide_eq_true (hkeep f hf)).symm
  have hahead : fname ∈ stack ↔ online = true := by
    cases online with
    | true => simpa using List.mem_of_getElem? hlevels
    | false => simpa using hlevels
  exact Pending.awaits hs hstack hchild (hp snap hchild.snapshot hchild.parent) hahead
    (hkernel ▸ ht)

/-- The parent of the top delta is another snapshot, or its chain would not end. -/
theorem top_parent {top : Guid} {snap : SnapshotData} (htop : d.topGuid = some top)
    {stack : List Path} (hstack : d.stack = some stack) (hsnap : d.snapshotByGuid top = some snap)
    (hne : snap.parentGuid ≠ noneUuid) : d.isTop snap.parentGuid = false := by
  obtain ⟨top', htop', hchain⟩ := stack_eq_some.mp hstack
  cases htop.symm.trans htop'
  unfold DiskImagesData.isTop
  rw [htop, Option.any_some, Bool.eq_false_iff]
  intro heq
  generalize stack.reverse = files at hchain
  cases hchain with
  | base hs _ hnone =>
      cases hs.symm.trans hsnap
      exact hne hnone
  | step hs hfile hparent hrest =>
      cases hs.symm.trans hsnap
      have hlen := hrest.length_unique (.step hs hfile hparent hrest) ?_
      · simp at hlen
      · rw [snapshotByGuid_find, snapshotByGuid_find, guidEq_iff_fold.mp heq]

theorem awaits_mergeRunningTop (hs : Tidy o s) :
    Triple (Still s) (mergeRunningTop o) (fun file t => Awaits o file true t) (InStep o) := by
  obtain ⟨stack, hstack⟩ := Option.isSome_iff_exists.mp hs.running
  have hin := hs.toInStep
  refine (still_step hin keeps_callRc).bind fun _ => Triple.look fun u hu => ?_
  rw [hu.store, hstack, Option.getD_some]
  refine Triple.conseq (P := Still s) ?_ (fun _ hv => hv ▸ hu) (fun _ _ h => h) fun _ h => h
  refine still_getDi (still_orParam hin fun top htop => ?_)
  have hp : ∀ snap, s.di.snapshotByGuid top = some snap → snap.parentGuid ≠ noneUuid →
      s.di.isTop snap.parentGuid = false :=
    fun _ => top_parent htop (hs.stack.trans hstack)
  refine (edited_mergeImage hs hp).bind fun topDelta => Triple.start fun v hv => ?_
  obtain ⟨i, j, snap, hchild, hv⟩ := hv
  refine Triple.conseq (P := Edited s (s.di.merged top snap i j)) ?_ (fun _ hx => hx ▸ hv)
    (fun _ _ h => h) fun _ h => h
  refine (edited_step hin (keeps_call _)).bind fun _ =>
    (edited_step hin keeps_try).bind fun ok => ?_
  refine Triple.bind (R := fun _ t => Edited s (s.di.merged top snap i j) t ∧
    stack[stack.length - 1]? = some topDelta) ?_ fun _ => Triple.known fun hlast => ?_
  · split
    case isTrue hcond =>
      rw [Bool.and_eq_true, decide_eq_true_eq, List.getLast?_eq_getElem?] at hcond
      exact Triple.ret fun _ hx => ⟨hx, hcond.2⟩
    case isFalse => exact Triple.raise fun _ hx => hin.quiet hx.toQuiet
  refine (pending_store hin (hs.plain.merged hchild)).bind fun _ =>
    (pending_dropLevel hin _).bind fun _ => Triple.ret fun t ht => ?_
  rw [hstack, Option.map_some, eraseIdx_stack (stack_nodup hs.plain.toDistinct
    (hs.stack.trans hstack)) hlast] at ht
  exact ht.awaits hs hstack hchild (hp snap hchild.snapshot hchild.parent)
    (iff_of_true (List.mem_of_getElem? hlast) rfl)

/-! ## The rename -/

/-- A step that keeps the device and the descriptor in step, but for one place: when `p` has
returned true, the stack has lost a delta, and the next call is the rename. -/
structure Splits (o : Outside) (x : DdM Unit) (p : DdM Bool) (s : World) : Prop where
  ok : ∀ s', x s = .ok () s' → Tidy o s'
  err : ∀ e s', x s = .error e s' → InStep o s' ∨ ∃ t, p s = .ok true t ∧ o.fails t.time = true
  cut : ∀ t, p s = .ok true t → o.fails t.time = true → ∃ e s', x s = .error e s' ∧ ¬ InStep o s'

theorem Splits.bind {y : DdM α} {f : α → DdM Unit} {h : α → DdM Bool} {R : α → World → Prop}
    (hy : Triple (fun t => t = s) y R (InStep o)) (hf : ∀ a t, R a t → Splits o (f a) (h a) t) :
    Splits o (y >>= f) (y >>= h) s := by
  cases hrun : y s with
  | error e u =>
      constructor
      · intro s' hs'
        rw [bind_run_error hrun] at hs'
        cases hs'
      · intro e' s' hs'
        rw [bind_run_error hrun] at hs'
        cases hs'
        exact Or.inl (hy.err rfl hrun)
      · intro t ht
        rw [bind_run_error hrun] at ht
        cases ht
  | ok a u =>
      have hsplits := hf a u (hy.ok rfl hrun)
      constructor
      · intro s' hs'
        rw [bind_run_ok hrun] at hs'
        exact hsplits.ok s' hs'
      · intro e s' hs'
        rw [bind_run_ok hrun] at hs' ⊢
        exact hsplits.err e s' hs'
      · intro t ht
        rw [bind_run_ok hrun] at ht ⊢
        exact hsplits.cut t ht

theorem Splits.triple {x : DdM Unit} {p : DdM Bool} (h : Splits o x p s)
    (hp : ∀ t, p s = .ok true t → o.fails t.time = false) :
    Triple (fun t => t = s) x (fun _ => Tidy o) (InStep o) := by
  intro s₀ hs₀
  subst s₀
  cases hrun : x s with
  | ok u t => exact h.ok t hrun
  | error e t =>
      rcases h.err e t hrun with hin | ⟨v, hv, hfails⟩
      · exact hin
      · rw [hp v hv] at hfails
        cases hfails

/-- The stack stays. -/
theorem Splits.whole {x : DdM Unit} {p : DdM Bool}
    (hx : Triple (fun t => t = s) x (fun _ => Tidy o) (InStep o)) (hp : ∀ t, p s ≠ .ok true t) :
    Splits o x p s :=
  ⟨fun _ hs' => hx.ok rfl hs', fun _ _ hs' => Or.inl (hx.err rfl hs'),
    fun t ht => absurd ht (hp t)⟩

/-- Nothing needs the file. -/
structure Unlisted (o : Outside) (file : Path) (s : World) : Prop extends Tidy o s where
  unlisted : ∀ stack, s.store.kernel = some stack → file ∉ stack

theorem unlisted_unlink {E : World → Prop} :
    Triple (Unlisted o file) (unlinkFile o file) (fun _ => Tidy o) E := by
  intro s hs
  obtain ⟨gone, store, hstore, hrun⟩ := unlink_run (o := o) file s
  rw [hrun]
  refine ⟨?_, hs.read, hs.plain⟩
  rcases hstore with rfl | rfl
  · exact hs.toInStep.quiet ⟨rfl, rfl⟩
  · exact hs.toInStep.put none hs.unlisted rfl rfl

theorem awaits_rename {ahead : Bool} (h : Awaits o file ahead s) :
    ∃ s', renameConf o s = .ok (!o.fails s.time) s' ∧
      if o.fails s.time then Quiet s s' else Unlisted o file s' := by
  obtain ⟨d, htmp, hdi, hplain, hstack⟩ := h.new
  unfold renameConf
  rw [bind_run_ok (try_run s)]
  simp only [get_bind_run, htmp]
  cases o.fails s.time with
  | true => exact ⟨_, rfl, rfl, rfl⟩
  | false =>
      obtain ⟨stack, hkernel⟩ := Option.isSome_iff_exists.mp h.running
      have hread : readDd o d = some d := hplain.readDd (hstack.trans hkernel)
      refine ⟨_, rfl, ⟨⟨?_, h.running, h.exist⟩, ?_, ?_⟩, h.unlisted⟩
      · exact (listed_eq hread).trans hstack
      · rw [hdi]
        exact hread
      · rw [hdi]
        exact hplain

theorem splits_rename {q : DdM (Path × Bool)} {f : Path → DdM Unit}
    (hq : Triple (fun t => t = s) q (fun r t => Awaits o r.1 r.2 t) (InStep o))
    (hf : ∀ file, Triple (Unlisted o file) (f file) (fun _ => Tidy o) (InStep o)) :
    Splits o (do
      let r ← q
      if ← renameConf o then f r.1 else throw (.exit .rename)) (do
      let r ← q
      pure r.2) s := by
  refine Splits.bind hq ?_
  rintro ⟨file, ahead⟩ t ht
  obtain ⟨u, hrun, hu⟩ := awaits_rename ht
  have hx : (do if ← renameConf o then f file else throw (.exit .rename) : DdM Unit) t =
      (if !o.fails t.time then f file else throw (.exit .rename)) u := bind_run_ok hrun
  cases hfails : o.fails t.time with
  | false =>
      rw [hfails] at hx hu
      constructor
      · exact fun s' hs' => (hf file).ok hu (hx.symm.trans hs')
      · exact fun e s' hs' => Or.inl ((hf file).err hu (hx.symm.trans hs'))
      · rintro t' ⟨⟩ hno
        rw [hfails] at hno
        cases hno
  | true =>
      rw [hfails] at hx hu
      refine ⟨fun s' hs' => ?_, fun e s' hs' => ?_, fun t' ht' _ => ⟨_, u, hx, fun hin => ?_⟩⟩
      · cases hx.symm.trans hs'
      · cases hx.symm.trans hs'
        cases ahead with
        | true => exact Or.inr ⟨t, rfl, hfails⟩
        | false =>
            refine Or.inl (InStep.quiet ⟨ht.old.mpr rfl, ht.running, ht.exist⟩ hu)
      · cases ht'
        have heq := hin.listed
        rw [hu.conf, hu.store] at heq
        cases ht.old.mp heq

/-! ## A deletion -/

section Programs

variable (o)

/-- The deletion of `guid` up to the end of the merge of its only child. -/
def untilMerged (guid : Guid) : DdM Bool := do
  let di ← getDi
  let running ← findDev o
  guardParam (!(running && di.isTopExactly guid))
  match di.getChildCountByUuid guid with
  | 1 => do
      let child ← orParam (di.getChildByUuid guid)
      let r ← mergeDown o child none
      pure r.2
  | _ => pure false

/-- `complete_running_operation` up to the end of a merge. -/
def untilTopMerged : DdM Bool := do
  call o (.exit .open)
  match ← getMntnState o with
  | .merge => do
      let _ ← mergeRunningTop o
      pure true
  | _ => pure false

end Programs

theorem splits_running (hs : Tidy o s) :
    Splits o (completeRunningOperation o) (untilTopMerged o) s := by
  have still : ∀ {α : Type} {x : DdM α} {t : World}, Tidy o t → Keeps Still x →
      Triple (fun u => u = t) x (fun _ => Tidy o) (InStep o) := fun ht h =>
    (still_start (still_step ht.toInStep h)).conseq (fun _ h => h) (fun _ _ hu => ht.still hu)
      fun _ h => h
  refine Splits.bind (still hs (keeps_call _)) fun _ t ht => ?_
  refine Splits.bind (still ht keeps_getMntnState) fun m u hu => ?_
  cases m with
  | merge =>
      have hq : Triple (fun t => t = u) (do
          let topDelta ← mergeRunningTop o
          pure (topDelta, true)) (fun r t => Awaits o r.1 r.2 t) (InStep o) :=
        (still_start (awaits_mergeRunningTop hu)).bind fun _ => Triple.ret fun _ h => h
      have hsplits := splits_rename hq (f := fun file => do let _ ← unlinkFile o file)
        fun _ => unlisted_unlink.bind fun _ => Triple.ret fun _ h => h
      simp only [bind_assoc, pure_bind] at hsplits
      exact hsplits
  | grow | track => exact Splits.whole (still hu (keeps_call _)) fun _ => by nofun
  | fbloaded | discard | reloc => exact Splits.whole (still hu keeps_callRc) fun _ => by nofun
  | off | balloon | snapshot | pushBackup =>
      exact Splits.whole (still hu (Keeps.pure _)) fun _ => by nofun

theorem still_removeImage (hs : Tidy o s) (hg : s.di.isTop g = false) :
    Triple (Still s) (diRemoveImage o g true) (fun file t => ∃ i j,
      s.di.findSnapshotByGuid g = some i ∧ s.di.findImageIdxByGuid g = some j ∧
      s.di.findImageByGuid g = some file ∧ s.di.getChildCountByUuid g = 0 ∧
      Edited s (s.di.dropAt i j) t) (InStep o) := by
  refine still_getDi (still_orParam hs.toInStep fun i hi => still_orParam hs.toInStep
    fun snap _ => still_orParam hs.toInStep fun j hj => still_orParam hs.toInStep
    fun file hfile => still_guardParam hs.toInStep fun hcount => still_guardParam hs.toInStep
    fun _ => (still_step hs.toInStep (keeps_call _)).bind fun _ => ?_)
  rw [hg]
  refine (Triple.update fun t ht => ⟨⟨ht.conf, ht.store⟩, ?_⟩ : Triple (Still s)
    (modifyDi (·.dropAt i j)) (fun _ => Edited s (s.di.dropAt i j)) (InStep o)).bind fun _ =>
      Triple.ret fun t ht => ⟨i, j, hi, hj, hfile, of_decide_eq_true hcount, ht⟩
  rw [ht.di]

theorem unlisted_store (hs : Tidy o s) (hd : Plain d) (hstack : d.stack = s.store.kernel)
    (hfile : ∀ stack, s.store.kernel = some stack → file ∉ stack) :
    Triple (Edited s d) (storeDiskdescriptor o false) (fun _ => Unlisted o file) (InStep o) := by
  have hconvert : Triple (Edited s d) convertDiskDescriptor (fun _ => Edited s d) (InStep o) := by
    intro t ht
    rw [convert_run hd ht.di]
    exact ht
  refine hconvert.bind fun _ => (edited_step hs.toInStep (keeps_call _)).bind fun _ => ?_
  refine Triple.update fun t ht => ?_
  obtain ⟨stack, hkernel⟩ := Option.isSome_iff_exists.mp hs.running
  have hconf : t.di.toXml = d := by
    rw [ht.di]
    exact toXml_eq hd.ownImages hd.ownSnapshots
  have hread : readDd o t.di.toXml = some d := hconf.symm ▸ hd.readDd (hstack.trans hkernel)
  have hstore := ht.store
  refine ⟨⟨⟨?_, ?_, ?_⟩, ?_, ?_⟩, ?_⟩
  · change listed o t.di.toXml = t.store.kernel
    rw [listed_eq hread, hstack, hstore]
  · change t.store.kernel.isSome
    rw [hstore]
    exact hs.running
  · change ∀ stack, t.store.kernel = some stack → _
    rw [hstore]
    exact hs.exist
  · change readDd o t.di.toXml = some t.di
    rw [hread, ht.di]
  · change Plain t.di
    rw [ht.di]
    exact hd
  · change ∀ stack, t.store.kernel = some stack → _
    rw [hstore]
    exact hfile

theorem tidy_deleteLeaf (hs : Tidy o s) (hg : s.di.isTop g = false) (snap : SnapshotData) :
    Triple (Still s) (deleteLeaf o g snap) (fun _ => Tidy o) (InStep o) := by
  have hin := hs.toInStep
  have hremove : Triple (Still s) (do
      let fname ← orParam (s.di.findImageByGuid g)
      checkSnapshotMount o g fname snap.temporary
      let fname ← diRemoveImage o g true
      storeDiskdescriptor o false
      if ← unlinkFile o fname then pure () else throw (.exit .unlink))
      (fun _ => Tidy o) (InStep o) := by
    refine still_orParam hin fun fname _ => (still_step hin (keeps_checkSnapshotMount _ _ _)).bind
      fun _ => (still_removeImage hs hg).bind fun fname => Triple.start fun t ht => ?_
    obtain ⟨i, j, hi, hj, hfile, hcount, ht⟩ := ht
    refine Triple.conseq (P := Edited s (s.di.dropAt i j)) ?_ (fun _ hu => hu ▸ ht)
      (fun _ _ h => h) fun _ h => h
    obtain ⟨stack, hkernel⟩ := Option.isSome_iff_exists.mp hs.running
    have hstack := stack_dropAt hi hj hcount hg (hs.stack.trans hkernel)
    have hplain : Plain (s.di.dropAt i j) :=
      hs.plain.dropAt (List.findIdx?_eq_some_iff_getElem.mp hi).1
        (List.findIdx?_eq_some_iff_getElem.mp hj).1
    have hgone : ∀ st, s.store.kernel = some st → fname ∉ st := by
      intro st hst
      rw [hkernel] at hst
      cases hst
      exact not_mem_stack hs.plain.files (files_at hj hfile) files_dropAt hstack
    refine (unlisted_store hs hplain (hstack.trans hkernel.symm) hgone).bind fun _ =>
      unlisted_unlink.bind fun gone => ?_
    split
    · exact Triple.ret fun _ h => h
    · exact Triple.raise fun _ h => h.toInStep
  refine still_getDi (still_guardParam hin fun _ => ?_)
  dsimp only
  split
  · exact still_orParam hin fun _ _ => still_guardParam hin fun _ => hremove
  · exact hremove

theorem splits_merge (hs : Tidy o s)
    (hp : ∀ snap, s.di.snapshotByGuid g = some snap → snap.parentGuid ≠ noneUuid →
      s.di.isTop snap.parentGuid = false) :
    Splits o (mergeSnapshotByGuid o g none) (do
      let r ← mergeDown o g none
      pure r.2) s := by
  refine splits_rename (f := fun file => do
    let gone ← unlinkFile o file
    if true && gone then pure () else throw (.exit .unlink))
    (still_start (awaits_mergeDown hs hp)) fun file => unlisted_unlink.bind fun gone => ?_
  split
  · exact Triple.ret fun _ h => h
  · exact Triple.raise fun _ h => h.toInStep

/-- The deletion of a temporary snapshot. -/
theorem splits_delete (hs : Tidy o s) {x : SnapshotData} (hx : x ∈ s.di.snapshots)
    (htemp : x.temporary = true) :
    Splits o (doDeleteSnapshot o x.guid) (untilMerged o x.guid) s := by
  have htop : s.di.isTop x.guid = false := by
    by_contra hno
    have hstays := hs.plain.topStays x hx ((Bool.not_eq_false _).mp hno)
    rw [htemp] at hstays
    cases hstays
  have hsnap : s.di.snapshotByGuid x.guid = some x := find_eq hs.plain.snapshots hx rfl
  refine Splits.bind (R := fun di t => di = s.di ∧ t = s) (fun t ht => ⟨ht ▸ rfl, ht⟩) ?_
  rintro _ t ⟨rfl, rfl⟩
  rw [hsnap]
  refine Splits.bind (still_start (still_step hs.toInStep keeps_findDev)) fun running u hu => ?_
  refine Splits.bind (still_start ((still_step (hs.still hu).toInStep (keeps_guardParam _))))
    fun _ v hv => ?_
  have hv' : Still t v := IsTrans.trans (r := Still) _ _ _ hu hv
  have hin := hs.still hv'
  have hdi := hv'.di
  rcases t.di.getChildCountByUuid x.guid with _ | _ | n
  · exact Splits.whole (still_start (tidy_deleteLeaf hin (hdi.symm ▸ htop) x)) fun _ => by nofun
  · refine Splits.bind (R := fun child w => t.di.getChildByUuid x.guid = some child ∧ w = v) ?_ ?_
    · cases t.di.getChildByUuid x.guid with
      | none => exact Triple.raise fun _ hw => hw ▸ hin.toInStep
      | some child => exact Triple.ret fun _ hw => ⟨rfl, hw⟩
    rintro child _ ⟨hchild, rfl⟩
    refine splits_merge hin fun snap hsnap _ => ?_
    rw [hdi] at hsnap ⊢
    obtain ⟨c, hc, rfl⟩ := Option.map_eq_some_iff.mp hchild
    have hparent : fold c.parentGuid = fold x.guid := by
      simpa [guidEq_iff_fold] using List.find?_some hc
    cases hsnap.symm.trans (find_eq hs.plain.snapshots (List.mem_of_find?_eq_some hc) rfl)
    rw [← DiskImagesData.isTop_fold, hparent, DiskImagesData.isTop_fold]
    exact htop
  · refine Splits.whole ?_ fun _ => by nofun
    change Triple _ (if x.temporary = true then if running = true then pure ()
      else throw (.exit .creat) else _ : DdM Unit) _ _
    rw [if_pos htemp]
    split
    · exact Triple.ret fun _ hw => hw ▸ hin
    · exact Triple.raise fun _ hw => hw ▸ hin.toInStep

end Ploop.Dd
