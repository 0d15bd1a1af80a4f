import Ploop.Snapshot.Operations

/-!
# What the calls leave alone
-/

namespace Ploop.Dd

open Program Storage

/-- A relation between the worlds before and after that only time does not break. -/
class Timeless (I : World → World → Prop) : Prop extends Std.Refl I, IsTrans World I where
  tick (s : World) : I s { s with time := s.time + 1 }

section Frame

variable {o : Outside} {α : Type} {I : World → World → Prop} [Timeless I]

theorem keeps_tick : Keeps I tick := fun s s' hs => by
  subst hs
  exact Timeless.tick s'

theorem keeps_getDi : Keeps I getDi := Keeps.get.bind fun _ => Keeps.pure _

theorem keeps_call (e : Err) : Keeps I (call o e) :=
  keeps_tick.bind fun _ => Keeps.ite (Keeps.throw _) (Keeps.pure _)

theorem keeps_callRc : Keeps I (callRc o) :=
  keeps_tick.bind fun _ => Keeps.ite (Keeps.throw _) (Keeps.pure _)

theorem keeps_try : Keeps I (try' o) := keeps_tick.bind fun _ => Keeps.pure _

theorem keeps_genUuid : Keeps I (genUuid o) :=
  keeps_tick.bind fun _ => Keeps.ite (Keeps.throw _) (Keeps.pure _)

theorem keeps_orParam (a : Option α) : Keeps I (orParam a) := by
  cases a with
  | none => exact Keeps.throw _
  | some a => exact Keeps.pure a

theorem keeps_guardParam (c : Bool) : Keeps I (guardParam c) :=
  Keeps.ite (Keeps.pure _) (Keeps.throw _)

theorem keeps_findDev : Keeps I (findDev o) :=
  (keeps_call _).bind fun _ => Keeps.get.bind fun _ => Keeps.pure _

theorem keeps_checkSnapshotCount : Keeps I checkSnapshotCount := by
  refine keeps_getDi.bind fun di => ?_
  cases di.topGuid with
  | none => exact Keeps.pure _
  | some top => exact (keeps_orParam _).bind fun _ => keeps_guardParam _

/-! ## Edits of the descriptor in memory -/

section Edit

variable (hdi : ∀ (s : World) (di : DiskImagesData), I s { s with di := di })

include hdi

omit [Timeless I] in
theorem keeps_modifyDi (f : DiskImagesData → DiskImagesData) : Keeps I (modifyDi f) :=
  Keeps.modify fun s => hdi s _

theorem keeps_lockDd : Keeps I (lockDd o) := by
  refine (keeps_call _).bind fun _ => Keeps.get.bind fun w => ?_
  cases readDd o w.conf with
  | none => exact Keeps.throw _
  | some di => exact keeps_modifyDi hdi _

theorem keeps_diAddImage (p : Path) (g g' : Guid) : Keeps I (diAddImage o p g g') := by
  have himage : Keeps I (addImageEntry o p g) :=
    (keeps_guardParam _).bind fun _ => (keeps_call _).bind fun _ => (keeps_call _).bind fun _ =>
      (keeps_call _).bind fun _ => keeps_modifyDi hdi _
  have hsnapshot : Keeps I (addSnapshotEntry o g g' false) :=
    (keeps_guardParam _).bind fun _ => (keeps_guardParam _).bind fun _ => (keeps_call _).bind
      fun _ => (keeps_call _).bind fun _ => (keeps_call _).bind fun _ => keeps_modifyDi hdi _
  exact (keeps_call _).bind fun _ => himage.bind fun _ => hsnapshot.bind fun _ =>
    keeps_modifyDi hdi _

theorem keeps_convertDiskDescriptor : Keeps I convertDiskDescriptor := by
  refine keeps_getDi.bind fun di => Keeps.ite (Keeps.pure _) ?_
  cases di.topGuid with
  | none => exact Keeps.throw _
  | some top =>
      exact Keeps.ite (Keeps.pure _) (Keeps.ite (Keeps.throw _) (keeps_modifyDi hdi _))

end Edit

theorem keeps_checkSnapshotMount (guid : Guid) (fname : Path) (temporary : Bool) :
    Keeps I (checkSnapshotMount o guid fname temporary) := by
  refine keeps_getDi.bind fun di => Keeps.ite (Keeps.pure _) (keeps_tick.bind fun t => ?_)
  cases o.mounted t fname temporary with
  | none => exact Keeps.pure _
  | some c => exact Keeps.throw _

theorem keeps_mergeLevels (child parent : Path) : Keeps I (mergeLevels o child parent) := by
  refine Keeps.get.bind fun s => ?_
  cases s.store.kernel with
  | none => exact Keeps.pure _
  | some stack =>
      refine (keeps_call _).bind fun _ => (keeps_call _).bind fun _ => keeps_callRc.bind fun _ =>
        keeps_callRc.bind fun _ => ?_
      split
      · exact Keeps.ite (Keeps.pure _) (Keeps.throw _)
      · exact Keeps.pure _
      · exact Keeps.throw _

theorem keeps_getMntnState : Keeps I (getMntnState o) :=
  keeps_tick.bind fun _ => Keeps.ite (Keeps.throw _) (Keeps.pure _)

theorem keeps_isSnapshotInUse (guid : Guid) : Keeps I (isSnapshotInUse o guid) := by
  refine keeps_getDi.bind fun di => ?_
  cases di.findImageByGuid guid with
  | none => exact Keeps.pure _
  | some fname => exact keeps_tick.bind fun _ => Keeps.pure _

omit [Timeless I] in
theorem keeps_attempt {x : DdM α} (h : Keeps I x) : Keeps I (attempt x) := by
  intro s t ht
  subst ht
  have hx := h t t rfl
  unfold attempt
  cases hrun : x t with
  | ok a s' =>
      rw [hrun] at hx
      exact hx
  | error e s' =>
      rw [hrun] at hx
      exact hx

theorem keeps_orUnlink {x : DdM Unit} {p : Path} (hx : Keeps I x)
    (hp : Keeps I (unlinkFile o p)) : Keeps I (orUnlink o p x) := by
  refine (keeps_attempt hx).bind fun r => ?_
  cases r with
  | ok _ => exact Keeps.pure _
  | error e => exact hp.bind fun _ => Keeps.throw _

/-- A file is removed only where there was to be a new one. -/
theorem keeps_mergeIoctls {a : MergeArgs} (hstack : ∀ f, Keeps I (setStack f))
    (hunlink : a.newDelta ≠ none → ∀ p, Keeps I (unlinkFile o p)) :
    Keeps I (mergeIoctls o a) := by
  have hdrop : Keeps I (dropLevel o a.endLevel) := (keeps_call _).bind fun _ => hstack _
  have hreplace (p : Path) : Keeps I (replaceDelta o a.startLevel p) :=
    keeps_callRc.bind fun _ => hstack _
  unfold mergeIoctls
  split
  case h_1 => exact (keeps_call _).bind fun _ => hdrop
  case h_2 p hp =>
    refine Keeps.ite (keeps_orUnlink ?_ (hunlink ?_ _)) ?_
    · exact (hreplace _).bind fun _ => (keeps_call _).bind fun _ => hdrop
    · rw [hp]
      exact Option.some_ne_none p
    · exact (keeps_call _).bind fun _ => (hreplace _).bind fun _ => hdrop

end Frame

end Ploop.Dd
