import Ploop.Lib.Crash

/-!
# Crash images of several files

Each file of a directory is written through a log of its own. A name gets a new content, or
loses it, at once; of a file that is written a crash leaves one of its crash images.
-/

namespace Storage

variable {ι σ ω : Type*}

inductive FileEvent (ι σ ω : Type*) where
  | on (i : ι) (e : Event ω)
  | put (i : ι) (s : Option σ)

section Settled

variable {log t : List (Event ω)}

/-- After a barrier the log starts anew. -/
theorem settled_append (h : pending log = []) :
    durable (log ++ t) = durable log ++ durable t ∧ pending (log ++ t) = pending t := by
  induction t using List.reverseRecOn with
  | nil => simp [h]
  | append_singleton t e ih =>
      rw [← List.append_assoc]
      cases e with
      | write w =>
          rw [durable_write, durable_write, pending_write, pending_write, ih.1, ih.2]
          exact ⟨rfl, rfl⟩
      | sync =>
          rw [durable_sync, durable_sync, pending_sync, pending_sync, written, ih.1, ih.2,
            List.append_assoc]
          exact ⟨rfl, rfl⟩

/-- What a crash leaves of a file that was at rest. -/
theorem crashImage_append {apply : σ → ω → σ} {s y : σ} (h : pending log = []) :
    CrashImage apply s (log ++ t) y ↔ CrashImage apply (view apply s log) t y := by
  have happ := settled_append (t := t) h
  unfold CrashImage view written
  rw [happ.1, happ.2, h, List.append_nil]
  simp only [List.append_assoc, replay_append]

end Settled

variable [DecidableEq ι] (apply : σ → ω → σ) {init : ι → Option σ}
  {log : List (FileEvent ι σ ω)} {i : ι} {s : σ}

/-- What one event does to the files, each of which is the content it began with and its log. -/
def FileEvent.track (T : ι → Option (σ × List (Event ω))) :
    FileEvent ι σ ω → ι → Option (σ × List (Event ω))
  | .on i e => Function.update T i ((T i).map fun p => (p.1, p.2 ++ [e]))
  | .put i s => Function.update T i (s.map fun s => (s, []))

def tracks (init : ι → Option σ) (log : List (FileEvent ι σ ω)) :
    ι → Option (σ × List (Event ω)) :=
  log.foldl FileEvent.track fun i => (init i).map fun s => (s, [])

/-- The files as a running process sees them. -/
def look (init : ι → Option σ) (log : List (FileEvent ι σ ω)) (i : ι) : Option σ :=
  (tracks init log i).map fun p => view apply p.1 p.2

/-- `x` may be found on the medium if power fails right after `log`. -/
def CrashFiles (init : ι → Option σ) (log : List (FileEvent ι σ ω)) (x : ι → Option σ) : Prop :=
  ∀ i, Option.Rel (fun p y => CrashImage apply p.1 p.2 y) (tracks init log i) (x i)

/-- At every moment of the run, whatever is found on the medium satisfies `Good`. -/
def SafeFiles (Good : (ι → Option σ) → Prop) (init : ι → Option σ)
    (log : List (FileEvent ι σ ω)) : Prop :=
  ∀ p, p <+: log → ∀ x, CrashFiles apply init p x → Good x

/-- Nothing waits to be written. -/
def Quiet (init : ι → Option σ) (log : List (FileEvent ι σ ω)) : Prop :=
  ∀ i p, tracks init log i = some p → pending p.2 = []

section Tracks

theorem tracks_put (s : Option σ) :
    tracks init (log ++ [.put i s]) =
      Function.update (tracks init log) i (s.map fun s => (s, [])) := by
  simp [tracks, List.foldl_append, FileEvent.track]

theorem tracks_on (t : List (Event ω)) :
    tracks init (log ++ t.map (.on i)) = Function.update (tracks init log) i
      ((tracks init log i).map fun p => (p.1, p.2 ++ t)) := by
  induction t using List.reverseRecOn with
  | nil => simp
  | append_singleton t e ih =>
      have hsnoc : tracks init (log ++ (t ++ [e]).map (.on i)) =
          FileEvent.track (tracks init (log ++ t.map (.on i))) (.on i e) := by
        simp [tracks, List.foldl_append]
      rw [hsnoc, ih]
      simp [FileEvent.track, Option.map_map, Function.comp_def]

variable {apply}

theorem look_put (s : Option σ) :
    look apply init (log ++ [.put i s]) = Function.update (look apply init log) i s := by
  funext j
  unfold look
  rw [tracks_put]
  by_cases hj : j = i
  · subst hj
    cases s <;> simp
  · simp [hj]

@[simp] theorem look_nil : look apply init [] = init := by
  funext i
  simp [look, tracks, Function.comp_def]

theorem quiet_nil : Quiet (σ := σ) (ω := ω) init [] := by
  intro i p hp
  obtain ⟨s, -, rfl⟩ := Option.map_eq_some_iff.mp hp
  rfl

theorem Quiet.put (h : Quiet init log) (s : Option σ) : Quiet init (log ++ [.put i s]) := by
  intro j p hp
  rw [tracks_put] at hp
  by_cases hj : j = i
  · subst hj
    rw [Function.update_self] at hp
    obtain ⟨c, -, rfl⟩ := Option.map_eq_some_iff.mp hp
    rfl
  · rw [Function.update_of_ne hj] at hp
    exact h j p hp

/-- A file that is looked at has a track. -/
theorem track_of_look (hi : look apply init log i = some s) :
    ∃ p, tracks init log i = some p ∧ view apply p.1 p.2 = s :=
  Option.map_eq_some_iff.mp hi

theorem look_on (hq : Quiet init log) (hi : look apply init log i = some s) (t : List (Event ω)) :
    look apply init (log ++ t.map (.on i)) =
      Function.update (look apply init log) i (some (view apply s t)) := by
  obtain ⟨p, hp, rfl⟩ := track_of_look hi
  have happ := settled_append (t := t) (hq i p hp)
  funext j
  unfold look
  rw [tracks_on, hp]
  by_cases hj : j = i
  · subst hj
    simp [view, written, happ.1, happ.2, hq j p hp, replay_append]
  · simp [hj]

theorem Quiet.on (hq : Quiet init log) {t : List (Event ω)} (ht : pending t = []) :
    Quiet init (log ++ t.map (.on i)) := by
  intro j p hp
  rw [tracks_on] at hp
  by_cases hj : j = i
  · subst hj
    rw [Function.update_self] at hp
    obtain ⟨q, hq', rfl⟩ := Option.map_eq_some_iff.mp hp
    rw [(settled_append (hq j q hq')).2, ht]
  · rw [Function.update_of_ne hj] at hp
    exact hq j p hp

end Tracks

section Crash

variable {apply} {Good : (ι → Option σ) → Prop} {x : ι → Option σ}

theorem crashFiles_look : CrashFiles apply init log (look apply init log) := by
  intro i
  unfold look
  cases tracks init log i with
  | none => exact .none
  | some p => exact .some (crashImage_view p.2)

theorem CrashFiles.none (hx : CrashFiles apply init log x) (hi : tracks init log i = none) :
    x i = none := by
  have hrel := hx i
  rw [hi] at hrel
  generalize x i = y at hrel
  cases hrel
  rfl

theorem CrashFiles.some (hx : CrashFiles apply init log x) {p : σ × List (Event ω)}
    (hi : tracks init log i = some p) : ∃ y, x i = some y ∧ CrashImage apply p.1 p.2 y := by
  have hrel := hx i
  rw [hi] at hrel
  generalize x i = y at hrel
  cases hrel with
  | some hcrash => exact ⟨_, rfl, hcrash⟩

/-- A file with nothing to be written is found as it is seen. -/
theorem CrashFiles.quiet (hx : CrashFiles apply init log x)
    (hq : ∀ p, tracks init log i = Option.some p → pending p.2 = []) :
    x i = look apply init log i := by
  unfold look
  cases hp : tracks init log i with
  | none => exact hx.none hp
  | some p =>
      obtain ⟨y, hy, ws, hws, rfl⟩ := hx.some hp
      rw [hq p hp, List.sublist_nil] at hws
      subst hws
      rw [hy, Option.map_some, view, written, hq p hp]

/-- With nothing to be written a crash changes nothing. -/
theorem Quiet.crash (h : Quiet init log) (hx : CrashFiles apply init log x) :
    x = look apply init log :=
  funext fun i => hx.quiet (h i)

theorem safeFiles_nil (h : Good init) : SafeFiles apply Good init [] := by
  intro p hp x hx
  obtain rfl := List.prefix_nil.mp hp
  rw [quiet_nil.crash hx, look_nil]
  exact h

theorem SafeFiles.now (h : SafeFiles apply Good init log) : Good (look apply init log) :=
  h log (List.prefix_refl _) _ crashFiles_look

/-- What a crash left before a name got its content. -/
theorem CrashFiles.of_put {s : Option σ}
    (hx : CrashFiles apply init (log ++ [.put i s]) x) :
    CrashFiles apply init log (Function.update x i (look apply init log i)) := by
  intro j
  by_cases hj : j = i
  · subst hj
    rw [Function.update_self]
    exact crashFiles_look j
  · have hxj := hx j
    rw [tracks_put, Function.update_of_ne hj] at hxj
    rwa [Function.update_of_ne hj]

/-- A run on one file leaves the others alone. -/
theorem CrashFiles.of_on (hq : Quiet init log) {t : List (Event ω)}
    (hx : CrashFiles apply init (log ++ t.map (.on i)) x) {j : ι} (hj : j ≠ i) :
    x j = look apply init log j := by
  have htrack : tracks init (log ++ t.map (.on i)) j = tracks init log j := by
    rw [tracks_on, Function.update_of_ne hj]
  have hseen := hx.quiet (i := j) fun p hp => hq j p (htrack ▸ hp)
  rw [hseen]
  unfold look
  rw [htrack]

theorem SafeFiles.put (h : SafeFiles apply Good init log) (s : Option σ)
    (hgood : ∀ x, CrashFiles apply init log x → Good (Function.update x i s)) :
    SafeFiles apply Good init (log ++ [.put i s]) := by
  intro p hp x hx
  rcases List.prefix_concat_iff.mp hp with rfl | hp
  · have hxi : x i = s := by
      have hseen := hx.quiet (i := i) fun p hp => by
        rw [tracks_put, Function.update_self] at hp
        obtain ⟨c, -, rfl⟩ := Option.map_eq_some_iff.mp hp
        rfl
      rw [hseen, look_put, Function.update_self]
    have hback := hgood _ hx.of_put
    rwa [Function.update_idem, ← hxi, Function.update_eq_self] at hback
  · exact h p hp x hx

/-- A run on one file, while the others rest. -/
theorem SafeFiles.on (h : SafeFiles apply Good init log) (hq : Quiet init log)
    (hi : look apply init log i = some s) {t : List (Event ω)}
    (hgood : Safe apply s (fun _ y => Good (Function.update (look apply init log) i (some y))) t) :
    SafeFiles apply Good init (log ++ t.map (.on i)) := by
  intro p hp x hx
  rcases List.prefix_or_prefix_of_prefix hp (List.prefix_append _ _) with hp' | ⟨q, rfl⟩
  · exact h p hp' x hx
  · obtain ⟨r, hr, rfl⟩ := List.prefix_map_iff.mp ((List.prefix_append_right_inj _).mp hp)
    obtain ⟨c, hc, rfl⟩ := track_of_look hi
    have htrack : tracks init (log ++ r.map (.on i)) i = Option.some (c.1, c.2 ++ r) := by
      rw [tracks_on, hc, Function.update_self]
      rfl
    obtain ⟨y, hy, hcrash⟩ := hx.some htrack
    have hfiles : x = Function.update (look apply init log) i (Option.some y) := by
      funext j
      by_cases hj : j = i
      · subst hj
        rw [hy, Function.update_self]
      · rw [hx.of_on hq hj, Function.update_of_ne hj]
    rw [hfiles]
    exact hgood r hr y ((crashImage_append (hq i c hc)).mp hcrash)

end Crash

end Storage
