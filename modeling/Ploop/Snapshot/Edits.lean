import Ploop.Snapshot.Frame

/-!
# Edits of the descriptor that fail

An image is taken out, or merged into its parent, only after every check and allocation. It
is added in two steps, and the first one is not taken back.
-/

namespace Ploop.Dd

open Program Storage

/-- The edits of `di.c`. Without a place for the file name nothing is allocated for it, which is
the case where that allocation succeeds. -/
inductive Edit where
  | addImage (fname : Path) (guid parentGuid : Guid)
  | removeImage (guid : Guid) (renewTopUuid : Bool)
  | mergeImage (guid : Guid)

section Edits

variable (o : Outside)

def Edit.run : Edit → DdM Unit
  | addImage fname guid parentGuid => diAddImage o fname guid parentGuid
  | removeImage guid renewTopUuid => do
      let _ ← diRemoveImage o guid renewTopUuid
  | mergeImage guid => do
      let _ ← diMergeImage o guid

/-- Images, snapshots and the top guid are those of the other descriptor. -/
def SameEntries (di di' : DiskImagesData) : Prop :=
  di'.images = di.images ∧ di'.snapshots = di.snapshots ∧ di'.topGuid = di.topGuid

/-- When the edit fails, nothing has changed. -/
def Edit.FailsClean (e : Edit) (s : World) : Prop :=
  ∀ err s', e.run o s = .error err s' → SameEntries s.di s'.di

/-- The guid is one, and memory is there for the top guid and for the image. -/
def imageGranted (guid : Guid) (t : ℕ) : Prop :=
  isValidGuid guid = true ∧ ∀ i < 4, o.fails (t + i) = false

/-- The parent is a guid, and memory is there for the snapshot. -/
def snapshotGranted (parentGuid : Guid) (t : ℕ) : Prop :=
  isValidGuid parentGuid = true ∧ ∀ i < 3, o.fails (t + 4 + i) = false

/-- An image that can be added can be made a snapshot. -/
def Edit.Whole (s : World) : Edit → Prop
  | addImage _ guid parentGuid =>
      imageGranted o guid s.time → snapshotGranted o parentGuid s.time
  | _ => True

end Edits

/-! ## Adding an entry -/

section Add

variable {o : Outside} {s s' : World} {fname : Path} {guid parentGuid : Guid} {t n : ℕ}
  {temporary : Bool}

def World.later (s : World) (n : ℕ) : World := { s with time := s.time + n }

/-- `n` allocations. -/
def allocs (o : Outside) : ℕ → DdM Unit
  | 0 => pure ()
  | n + 1 => do
      alloc o
      allocs o n

theorem allocs_run (n : ℕ) (s : World) :
    ((∀ i < n, o.fails (s.time + i) = false) ∧ allocs o n s = .ok () (s.later n)) ∨
      (¬ (∀ i < n, o.fails (s.time + i) = false) ∧
        ∃ e s', allocs o n s = .error e s' ∧ s'.di = s.di) := by
  induction n generalizing s with
  | zero => exact Or.inl ⟨fun i hi => absurd hi (Nat.not_lt_zero i), rfl⟩
  | succ n ih =>
      have hrun := call_run (o := o) (.exit .malloc) s
      by_cases hf : o.fails s.time = true
      · right
        rw [if_pos hf] at hrun
        refine ⟨fun h => ?_, _, _, bind_run_error hrun, rfl⟩
        have hzero := h 0 (Nat.succ_pos n)
        rw [add_zero, hf] at hzero
        exact absurd hzero (by simp)
      · rw [if_neg hf] at hrun
        have hstep : allocs o (n + 1) s = allocs o n (s.later 1) := bind_run_ok hrun
        have hall : (∀ i < n + 1, o.fails (s.time + i) = false) ↔
            ∀ i < n, o.fails ((s.later 1).time + i) = false := by
          constructor
          · intro h i hi
            have hnext := h (i + 1) (Nat.succ_lt_succ hi)
            rwa [← add_assoc, Nat.add_right_comm] at hnext
          · intro h i hi
            cases i with
            | zero => exact (Bool.not_eq_true _).mp hf
            | succ i =>
                have hnext := h i (Nat.lt_of_succ_lt_succ hi)
                rwa [← add_assoc, Nat.add_right_comm]
        rw [hall, hstep]
        rcases ih (s.later 1) with ⟨hok, hrest⟩ | ⟨hno, e, s', hrest, hdi⟩
        · left
          refine ⟨hok, hrest.trans ?_⟩
          unfold World.later
          rw [Nat.add_right_comm, add_assoc]
        · exact Or.inr ⟨hno, e, s', hrest, hdi⟩

theorem addImageEntry_run :
    ((isValidGuid guid = true ∧ ∀ i < 3, o.fails (s.time + i) = false) ∧
        addImageEntry o fname guid s =
          .ok () { s.later 3 with di := s.di.pushImage ⟨guid, fname, false⟩ }) ∨
      (¬ (isValidGuid guid = true ∧ ∀ i < 3, o.fails (s.time + i) = false) ∧
        ∃ e s', addImageEntry o fname guid s = .error e s' ∧ s'.di = s.di) := by
  have heq : addImageEntry o fname guid = (do
      guardParam (isValidGuid guid)
      allocs o 3
      modifyDi (·.pushImage ⟨guid, fname, false⟩)) := by
    simp only [addImageEntry, allocs, bind_assoc, pure_bind]
  rw [heq]
  cases hguid : isValidGuid guid with
  | false =>
      right
      exact ⟨fun h => absurd h.1 Bool.false_ne_true, _, _, rfl, rfl⟩
  | true =>
      rcases allocs_run (o := o) 3 s with ⟨hok, hrun⟩ | ⟨hno, e, s', hrun, hdi⟩
      · exact Or.inl ⟨⟨rfl, hok⟩, bind_run_ok hrun⟩
      · exact Or.inr ⟨fun h => hno h.2, e, s', (bind_run_error hrun :), hdi⟩

theorem addSnapshotEntry_run (hguid : isValidGuid guid = true) :
    ((isValidGuid parentGuid = true ∧ ∀ i < 3, o.fails (s.time + i) = false) ∧
        addSnapshotEntry o guid parentGuid temporary s = .ok ()
          { s.later 3 with di := s.di.pushSnapshot ⟨guid, parentGuid, temporary, false⟩ }) ∨
      (¬ (isValidGuid parentGuid = true ∧ ∀ i < 3, o.fails (s.time + i) = false) ∧
        ∃ e s', addSnapshotEntry o guid parentGuid temporary s = .error e s' ∧ s'.di = s.di) := by
  have heq : addSnapshotEntry o guid parentGuid temporary = (do
      guardParam (isValidGuid guid)
      guardParam (isValidGuid parentGuid)
      allocs o 3
      modifyDi (·.pushSnapshot ⟨guid, parentGuid, temporary, false⟩)) := by
    simp only [addSnapshotEntry, allocs, bind_assoc, pure_bind]
  rw [heq, hguid]
  cases hparent : isValidGuid parentGuid with
  | false =>
      right
      exact ⟨fun h => absurd h.1 Bool.false_ne_true, _, _, rfl, rfl⟩
  | true =>
      rcases allocs_run (o := o) 3 s with ⟨hok, hrun⟩ | ⟨hno, e, s', hrun, hdi⟩
      · exact Or.inl ⟨⟨rfl, hok⟩, bind_run_ok hrun⟩
      · exact Or.inr ⟨fun h => hno h.2, e, s', (bind_run_error hrun :), hdi⟩

theorem imageGranted_iff : imageGranted o guid s.time ↔ o.fails s.time = false ∧
    isValidGuid guid = true ∧ ∀ i < 3, o.fails ((s.later 1).time + i) = false := by
  have hall : (∀ i < 4, o.fails (s.time + i) = false) ↔
      o.fails s.time = false ∧ ∀ i < 3, o.fails (s.time + 1 + i) = false := by
    constructor
    · intro h
      refine ⟨h 0 (by norm_num), fun i hi => ?_⟩
      have hnext := h (1 + i) (by omega)
      rwa [← add_assoc] at hnext
    · rintro ⟨hzero, hnext⟩ i hi
      cases i with
      | zero => exact hzero
      | succ i =>
          have hi := hnext i (by omega)
          rwa [add_assoc, add_comm 1] at hi
  unfold imageGranted
  rw [hall]
  exact and_left_comm

/-- The three ways of `ploop_di_add_image`. -/
theorem diAddImage_run :
    (imageGranted o guid s.time ∧ snapshotGranted o parentGuid s.time ∧
        ∃ s', diAddImage o fname guid parentGuid s = .ok () s') ∨
      (imageGranted o guid s.time ∧ ¬ snapshotGranted o parentGuid s.time ∧
        ∃ e s', diAddImage o fname guid parentGuid s = .error e s' ∧
          s'.di = s.di.pushImage ⟨guid, fname, false⟩) ∨
      (¬ imageGranted o guid s.time ∧
        ∃ e s', diAddImage o fname guid parentGuid s = .error e s' ∧ s'.di = s.di) := by
  rw [imageGranted_iff]
  have htop := call_run (o := o) (.exit .malloc) s
  by_cases hf : o.fails s.time = true
  · right
    right
    rw [if_pos hf] at htop
    exact ⟨fun h => absurd (h.1.symm.trans hf) Bool.false_ne_true, _, _, bind_run_error htop, rfl⟩
  rw [if_neg hf] at htop
  rw [show diAddImage o fname guid parentGuid s = _ from bind_run_ok htop]
  rcases @addImageEntry_run o (s.later 1) fname guid with ⟨hok, hrun⟩ | ⟨hno, e, s', hrun, hdi⟩
  · have himage : o.fails s.time = false ∧ isValidGuid guid = true ∧
        ∀ i < 3, o.fails ((s.later 1).time + i) = false := ⟨(Bool.not_eq_true _).mp hf, hok⟩
    have hsnap := @addSnapshotEntry_run o
      { s.later 4 with di := s.di.pushImage ⟨guid, fname, false⟩ } guid parentGuid false hok.1
    rcases hsnap with ⟨hok', hrun'⟩ | ⟨hno', e, s', hrun', hdi'⟩
    · left
      exact ⟨himage, hok', _, (bind_run_ok hrun).trans ((bind_run_ok hrun').trans rfl)⟩
    · right
      left
      exact ⟨himage, hno', e, s', (bind_run_ok hrun).trans (bind_run_error hrun'), hdi'⟩
  · right
    right
    exact ⟨fun h => hno h.2, e, s', bind_run_error hrun, hdi⟩

end Add

/-! ## Taking an image out -/

section Checked

variable {o : Outside} {α : Type} {d : DiskImagesData}

/-- The descriptor in memory is the same. -/
def SameDi (s s' : World) : Prop := s'.di = s.di

instance : Timeless SameDi where
  refl _ := rfl
  trans _ _ _ h h' := h'.trans h
  tick _ := rfl

/-- A check or an allocation: it leaves the descriptor as it is. -/
theorem checked {x : DdM α} (h : Keeps SameDi x) :
    Triple (fun s => s.di = d) x (fun _ s => s.di = d) (fun s => s.di = d) := by
  apply Triple.start
  rintro s rfl
  exact h s

theorem lookDi {β : Type} {f : DiskImagesData → DdM β} {Q : β → World → Prop} {E : World → Prop}
    (h : Triple (fun s => s.di = d) (f d) Q E) :
    Triple (fun s => s.di = d) (getDi >>= f) Q E := by
  rintro s rfl
  exact h s rfl

theorem lookUp {β : Type} {a : Option α} {f : α → DdM β} {Q : β → World → Prop}
    (h : ∀ x, a = some x → Triple (fun s => s.di = d) (f x) Q (fun s => s.di = d)) :
    Triple (fun s => s.di = d) (orParam a >>= f) Q (fun s => s.di = d) := by
  cases a with
  | none => exact Triple.raise fun _ hs => hs
  | some x => exact h x rfl

/-- From a place that was found on, one snapshot less. -/
def OneLess (d : DiskImagesData) (s : World) : Prop :=
  s.di.snapshots.length + 1 = d.snapshots.length

theorem length_dropAt {guid : Guid} {i j : ℕ} (hi : d.findSnapshotByGuid guid = some i)
    {d' : DiskImagesData} (hlen : d'.snapshots.length = d.snapshots.length) :
    (d'.dropAt i j).snapshots.length + 1 = d.snapshots.length := by
  have hlt := (List.findIdx?_eq_some_iff_getElem.mp hi).1
  change (d'.snapshots.eraseIdx i).length + 1 = _
  rw [List.length_eraseIdx_of_lt (hlen ▸ hlt), hlen]
  omega

/-- A failure leaves the descriptor as it is, and there is none once the edits have begun. -/
theorem diRemoveImage_spec (guid : Guid) (renewTopUuid : Bool) :
    Triple (fun s => s.di = d) (diRemoveImage o guid renewTopUuid) (fun _ => OneLess d)
      (fun s => s.di = d) := by
  apply lookDi
  apply lookUp
  intro snapId hid
  apply lookUp
  intro snapshot _
  apply lookUp
  intro imageId _
  apply lookUp
  intro file _
  apply (checked (keeps_guardParam _)).bind
  intro _
  apply (checked (keeps_guardParam _)).bind
  intro _
  apply (checked (keeps_call _)).bind
  rintro _ s rfl
  generalize (renewTopUuid && s.di.isTop guid) = c
  cases c with
  | false => exact length_dropAt hid rfl
  | true =>
      apply length_dropAt hid
      change (List.map _ _ ++ List.map _ _).length = _
      rw [List.length_append, List.length_map, List.length_map, ← List.length_append,
        List.take_append_drop]

theorem diMergeImage_spec (guid : Guid) :
    Triple (fun s => s.di = d) (diMergeImage o guid) (fun _ => OneLess d)
      (fun s => s.di = d) := by
  apply lookDi
  apply lookUp
  intro snapId hid
  apply lookUp
  intro snapshot _
  apply lookUp
  intro imageId _
  apply lookUp
  intro file _
  apply (checked (keeps_guardParam _)).bind
  intro _
  apply (checked (keeps_guardParam _)).bind
  intro _
  apply (checked (keeps_call _)).bind
  rintro _ s rfl
  have hlen : ((s.di.mergeGuid guid snapshot).dropAt snapId imageId).snapshots.length + 1 =
      s.di.snapshots.length := length_dropAt hid (List.length_map _)
  generalize guidEq snapshot.guid topdeltaUuid = c
  cases c with
  | false => exact hlen
  | true =>
      change (((s.di.mergeGuid guid snapshot).dropAt snapId imageId).snapshots.map _).length + 1 = _
      rw [List.length_map]
      exact hlen

/-- A program all of whose failures leave the descriptor as it is. -/
theorem sameEntries_of_fails {x : DdM α} {s s' : World} {err : Err}
    (h : Triple (fun t => t.di = s.di) x (fun _ => OneLess s.di) (fun t => t.di = s.di))
    (hrun : (do let _ ← x) s = .error err s') : SameEntries s.di s'.di := by
  have hquiet : Triple (fun t => t.di = s.di) (do let _ ← x) (fun _ => OneLess s.di)
      (fun t => t.di = s.di) := h.bind fun _ => Triple.ret fun _ h => h
  have hdi := hquiet.err rfl hrun
  rw [hdi]
  exact ⟨rfl, rfl, rfl⟩

end Checked

/-! ## The result -/

/-- An edit that fails changes nothing, except that an image can be left without a snapshot. -/
theorem edit_failsClean_iff (o : Outside) (e : Edit) (s : World) :
    e.FailsClean o s ↔ e.Whole o s := by
  cases e with
  | addImage fname guid parentGuid =>
      rcases @diAddImage_run o s fname guid parentGuid with
        ⟨himage, hsnap, s', hrun⟩ | ⟨himage, hsnap, err, s', hrun, hdi⟩ |
          ⟨himage, err, s', hrun, hdi⟩
      · refine ⟨fun _ _ => hsnap, fun _ err' t ht => ?_⟩
        exact absurd (hrun.symm.trans ht) (by simp)
      · constructor
        · intro hclean
          have himages := (hclean err s' hrun).1
          rw [hdi] at himages
          exact absurd himages (by simp [DiskImagesData.pushImage])
        · exact fun hwhole => absurd (hwhole himage) hsnap
      · refine ⟨fun _ himage' => absurd himage' himage, fun _ err' t ht => ?_⟩
        injection hrun.symm.trans ht with _ hst
        rw [← hst, hdi]
        exact ⟨rfl, rfl, rfl⟩
  | removeImage guid renewTopUuid =>
      exact ⟨fun _ => True.intro, fun _ err s' h => sameEntries_of_fails
        (diRemoveImage_spec guid renewTopUuid) h⟩
  | mergeImage guid =>
      exact ⟨fun _ => True.intro, fun _ err s' h => sameEntries_of_fails
        (diMergeImage_spec guid) h⟩

def emptyDescriptor : World where
  di := ⟨0, 2048, false, [], [], none, none⟩
  conf := ⟨0, 2048, false, [], [], none, none⟩
  confTmp := none
  store := ⟨fun _ => none, none, false⟩
  time := 0

/-- The parent is no guid: the call fails, and the image is in the descriptor. -/
theorem addImage_keeps_image :
    ¬ (Edit.addImage "root.hdd".toList topdeltaUuid "base".toList).FailsClean calm
      emptyDescriptor := by
  intro hclean
  have hguid : isValidGuid topdeltaUuid = true := by decide
  have hparent : isValidGuid "base".toList = false := by decide
  rcases @diAddImage_run calm emptyDescriptor "root.hdd".toList topdeltaUuid "base".toList with
    ⟨-, hsnap, -⟩ | ⟨-, -, err, s', hrun, hdi⟩ | ⟨himage, -⟩
  · exact absurd (hparent.symm.trans hsnap.1) Bool.false_ne_true
  · have himages := (hclean err s' hrun).1
    rw [hdi] at himages
    exact absurd himages (List.cons_ne_nil _ _)
  · exact himage ⟨hguid, fun _ _ => rfl⟩

end Ploop.Dd
