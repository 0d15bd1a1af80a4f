import Ploop.Copy.Sender

/-!
# What a copy holds of the guest

The tracker is on from `ploop_copy_start`, and `ploop_copy_stop` freezes the device or the file
system. `ploop_copy_release` gives everything back, whatever has gone wrong.
-/

namespace Ploop.Wire.Held

open Program

inductive Resource where
  | dev | fs | tracker
  deriving DecidableEq

/-- The handle of a copy: what its flags say is held, and what the kernel holds. `refused` are
those of which the kernel was asked to let go, in vain. -/
structure CopyHandle where
  sender : Sender
  mounted : Bool
  flags : Resource → Bool
  kernel : Resource → Bool
  refused : Resource → Bool

/-- What `PLOOP_IOC_FREEZE` returns. -/
inductive FreezeAnswer where
  | ok | einval | other

abbrev StopM := EStateM Ending CopyHandle

/-- The function returns. -/
def Returns : Ending → Bool
  | .exit _ => true
  | .ioctl => true
  | .running => false
  | .blocked => false

def onSender {α : Type} (x : SendM α) : StopM α := fun h =>
  match x h.sender with
  | .ok a s => .ok a { h with sender := s }
  | .error e s => .error e { h with sender := s }

section Model

variable (o : Outside) (frozen : ℕ → FreezeAnswer)

/-- The resource is the kernel's and the flag says so. -/
def hold (r : Resource) : StopM Unit :=
  modify fun h => { h with
    flags := Function.update h.flags r true, kernel := Function.update h.kernel r true }

/-- `PLOOP_IOC_THAW`, `FITHAW` or `PLOOP_IOC_TRACK_ABORT`, when the flag is set. -/
def letGo (r : Resource) : StopM Unit := do
  if (← get).flags r then do
    let t ← onSender tick
    modify fun h =>
      if o.call t then { h with kernel := Function.update h.kernel r false }
      else { h with refused := Function.update h.refused r true }
    modify fun h => { h with flags := Function.update h.flags r false }
  else pure ()

/-- `ploop_copy_release` -/
def ploopCopyRelease : StopM Unit := do
  letGo o .dev
  letGo o .fs
  letGo o .tracker
  modify fun h => { h with mounted := false }

/-- `err:` of a function, to which every failing call goes. -/
def atErr {α : Type} (x : StopM α) : StopM α := fun h =>
  match x h with
  | .ok a h' => .ok a h'
  | .error e h' =>
      if Returns e then (ploopCopyRelease o >>= fun _ => throw e : StopM α) h' else .error e h'

/-! ## `ploop_copy_start` -/

/-- The loop over the whole device; the result is `pos`. -/
def startLoop : ℕ → ℕ → SendM ℕ
  | 0, _ => throw .running
  | fuel + 1, pos => do
      let s ← get
      if pos ≤ s.trackend then do
        modify fun s => { s with trackpos := pos + s.cluster }
        call o (.exit .devioc)
        let n ← sendImageBlock o s.cluster pos
        if n = 0 then pure pos
        else do
          modify fun s => { s with eofOffset := max s.eofOffset (pos + n) }
          startLoop fuel (pos + n)
      else pure pos

/-- `PLOOP_IOC_TRACK_INIT`; the result is `e.end`. -/
def trackInit : SendM ℕ := do
  let t ← tick
  match o.track t with
  | .ok (some e) => pure e.2
  | _ => throw (.exit .devioc)

/-- The result is `stat->xferred`. Nothing looks at the result of the last `send_cmd`. -/
def ploopCopyStart (fuel : ℕ) : StopM ℕ := atErr o do
  onSender (call o (.exit .sys))
  let trackend ← onSender (trackInit o)
  hold .tracker
  onSender (modify fun s => { s with trackend := trackend })
  let pos ← onSender (startLoop o fuel 0)
  let _ ← onSender (sendCmd o)
  pure pos

/-! ## `ploop_copy_stop` -/

def ploopCopyNextIteration (fuel inner : ℕ) : StopM ℕ :=
  atErr o (onSender (Wire.ploopCopyNextIteration o fuel inner))

def freezeFs : StopM Unit := do
  if (← get).mounted then do
    onSender (call o (.exit .fsync))
    onSender (call o (.exit .devioc))
    hold .fs
  else pure ()

/-- What `freeze` makes of the answer to `PLOOP_IOC_FREEZE`. -/
def freezeBy : FreezeAnswer → StopM Unit
  | .ok => hold .dev
  | .einval => freezeFs o
  | .other => throw .ioctl

def freeze : StopM Unit := atErr o do
  let t ← onSender tick
  freezeBy o (frozen t)
  onSender (call o (.exit .devioc))

/-- The loop on the frozen image, of which `k` turns are left. The result says that there were too
many. -/
def stopLoop (fuel inner : ℕ) : ℕ → StopM Bool
  | 0 => pure true
  | k + 1 => do
      let xferred ← ploopCopyNextIteration o fuel inner
      if xferred = 0 then pure false else stopLoop fuel inner k

/-- The header of a ploop1 image. -/
def headerUnlessRaw : SendM Unit := do
  if (← get).raw then pure () else sendHeader o

/-- What follows the loop, up to `err:`. -/
def closing : StopM Unit := do
  onSender (headerUnlessRaw o)
  onSender (call o .ioctl)
  modify fun h => { h with
    flags := Function.update h.flags .tracker false
    kernel := Function.update h.kernel .tracker false }
  let _ ← onSender (sendAsync o 0 0)
  onSender joinSender

def ploopCopyStop (fuel inner : ℕ) : StopM Unit := do
  let tooMany ← atErr o do
    freeze o frozen
    stopLoop o fuel inner 3
  if tooMany then throw (.exit .loop)
  else do
    atErr o (closing o)
    ploopCopyRelease o

end Model

variable {o : Outside} {frozen : ℕ → FreezeAnswer} {α β : Type} {h h' : CopyHandle}
  {P E E' : CopyHandle → Prop} {fuel inner k : ℕ}

/-! ## What is held -/

/-- The guest goes on, and no tracker is on. -/
def Thawed (h : CopyHandle) : Prop := ∀ r, h.kernel r = false

/-- The kernel has let go of everything that it was asked for. -/
def NoneRefused (h : CopyHandle) : Prop := ∀ r, h.refused r = false

/-- The kernel holds what the flags say and what it did not let go of. -/
structure Accounted (h : CopyHandle) : Prop where
  kernel : ∀ r, h.kernel r = (h.flags r || h.refused r)
  apart : ∀ r, h.flags r = true → h.refused r = false

/-- Nothing has been asked back. -/
structure Matched (F : Resource → Bool) (h : CopyHandle) : Prop where
  flags : h.flags = F
  kernel : h.kernel = F
  refused : NoneRefused h

def Holding (h : CopyHandle) : Prop := Matched h.flags h

/-- Everything has been asked back. -/
structure Released (h : CopyHandle) : Prop where
  flags : ∀ r, h.flags r = false
  kernel : h.kernel = h.refused

theorem Matched.accounted {F : Resource → Bool} (hm : Matched F h) : Accounted h where
  kernel r := by rw [hm.kernel, hm.flags, hm.refused r, Bool.or_false]
  apart r _ := hm.refused r

theorem Matched.holding {F : Resource → Bool} (hm : Matched F h) : Holding h :=
  ⟨rfl, hm.kernel.trans hm.flags.symm, hm.refused⟩

theorem Released.accounted (hr : Released h) : Accounted h where
  kernel r := by rw [hr.kernel, hr.flags r, Bool.false_or]
  apart r hflag := absurd hflag (by rw [hr.flags r]; exact Bool.false_ne_true)

theorem Released.thawed_iff (hr : Released h) : Thawed h ↔ NoneRefused h := by
  rw [Thawed, hr.kernel, NoneRefused]

theorem letGo_idle {r : Resource} (hflag : h.flags r = false) : letGo o r h = .ok () h := by
  change (if h.flags r = true then _ else pure () : StopM Unit) h = _
  rw [if_neg (by rw [hflag]; exact Bool.false_ne_true)]
  rfl

/-- The kernel has answered whether it lets go. -/
def answered (ok : Bool) (r : Resource) (h : CopyHandle) : CopyHandle :=
  { h with
    sender := { h.sender with time := h.sender.time + 1 }
    kernel := if ok then Function.update h.kernel r false else h.kernel
    refused := if ok then h.refused else Function.update h.refused r true
    flags := Function.update h.flags r false }

theorem letGo_asked {r : Resource} (hflag : h.flags r = true) :
    letGo o r h = .ok () (answered (o.call h.sender.time) r h) := by
  change (if h.flags r = true then _ else pure () : StopM Unit) h = _
  rw [if_pos hflag]
  change EStateM.Result.ok () _ = _
  cases o.call h.sender.time <;> rfl

theorem Accounted.answered (hacc : Accounted h) {r : Resource} (hflag : h.flags r = true)
    (ok : Bool) : Accounted (answered ok r h) := by
  have hkernel := hacc.kernel r
  have happart := hacc.apart r hflag
  rw [hflag, Bool.true_or] at hkernel
  constructor
  · intro r'
    by_cases hr : r' = r
    · subst hr
      cases ok
      · simp [Held.answered, hkernel]
      · simp [Held.answered, happart]
    · cases ok <;> simp [Held.answered, Function.update_of_ne hr, hacc.kernel r']
  · intro r' hflag'
    by_cases hr : r' = r
    · subst hr
      simp [Held.answered] at hflag'
    · have hflag : h.flags r' = true := by
        change Function.update h.flags r false r' = true at hflag'
        rwa [Function.update_of_ne hr] at hflag'
      cases ok <;> simp [Held.answered, Function.update_of_ne hr, hacc.apart r' hflag]

theorem letGo_spec (hacc : Accounted h) (r : Resource) :
    ∃ h', letGo o r h = .ok () h' ∧ Accounted h' ∧
      h'.flags = Function.update h.flags r false := by
  rcases hflag : h.flags r with _ | _
  · refine ⟨h, letGo_idle hflag, hacc, ?_⟩
    rw [← hflag, Function.update_eq_self]
  · exact ⟨_, letGo_asked hflag, hacc.answered hflag _, rfl⟩

theorem ploopCopyRelease_spec (hacc : Accounted h) :
    ∃ h', ploopCopyRelease o h = .ok () h' ∧ Released h' := by
  obtain ⟨h₁, hrun₁, hacc₁, hflags₁⟩ := letGo_spec (o := o) hacc .dev
  obtain ⟨h₂, hrun₂, hacc₂, hflags₂⟩ := letGo_spec (o := o) hacc₁ .fs
  obtain ⟨h₃, hrun₃, hacc₃, hflags₃⟩ := letGo_spec (o := o) hacc₂ .tracker
  have hnone (r : Resource) : h₃.flags r = false := by
    rw [hflags₃, hflags₂, hflags₁]
    cases r <;> rfl
  refine ⟨{ h₃ with mounted := false }, ?_, hnone, ?_⟩
  · rw [ploopCopyRelease, bind_run_ok hrun₁, bind_run_ok hrun₂, bind_run_ok hrun₃]
    rfl
  · funext r
    rw [hacc₃.kernel r, hnone r, Bool.false_or]

/-! ## What a part of a function leaves -/

/-- From `P` the part ends in `Q`, or it fails and the function that goes to `err:` is in `E`. -/
def Leaves (P : CopyHandle → Prop) (x : StopM α) (Q : α → CopyHandle → Prop)
    (E : CopyHandle → Prop) : Prop :=
  ∀ h, P h → match x h with
    | .ok a h' => Q a h'
    | .error e h' => Returns e = true → E h'

namespace Leaves

variable {x : StopM α} {f : α → StopM β} {Q : α → CopyHandle → Prop} {R : β → CopyHandle → Prop}

theorem bind (hx : Leaves P x Q E) (hf : ∀ a, Leaves (Q a) (f a) R E) :
    Leaves P (x >>= f) R E := by
  intro h hP
  have hrun := hx h hP
  rcases hres : x h with ⟨a, h'⟩ | ⟨e, h'⟩
  · rw [hres] at hrun
    rw [bind_run_ok hres]
    exact hf a h' hrun
  · rw [hres] at hrun
    rw [bind_run_error hres]
    exact hrun

theorem ret {a : α} (hP : ∀ h, P h → Q a h) : Leaves P (pure a) Q E := fun h hh => hP h hh

theorem raise {e : Ending} (hP : ∀ h, P h → E h) : Leaves P (throw e) Q E :=
  fun h hh _ => hP h hh

theorem conseq {P' : CopyHandle → Prop} {Q' : α → CopyHandle → Prop} (hx : Leaves P x Q E)
    (hP : ∀ h, P' h → P h) (hQ : ∀ a h, Q a h → Q' a h) (hE : ∀ h, E h → E' h) :
    Leaves P' x Q' E' := by
  intro h hP'
  have hrun := hx h (hP h hP')
  rcases hres : x h with ⟨a, h'⟩ | ⟨e, h'⟩
  · rw [hres] at hrun
    exact hQ a h' hrun
  · rw [hres] at hrun
    exact fun hret => hE h' (hrun hret)

theorem ok (hx : Leaves P x Q E) (hP : P h) {a : α} (hres : x h = .ok a h') : Q a h' := by
  have hrun := hx h hP
  rwa [hres] at hrun

theorem err (hx : Leaves P x Q E) (hP : P h) {e : Ending} (hres : x h = .error e h')
    (hret : Returns e = true) : E h' := by
  have hrun := hx h hP
  rw [hres] at hrun
  exact hrun hret

/-- What the sender does changes nothing that is held. -/
theorem sender {F : Resource → Bool} (y : SendM α) :
    Leaves (Matched F) (onSender y) (fun _ => Matched F) Accounted := by
  intro h hm
  rw [onSender]
  cases y h.sender with
  | ok a s => exact ⟨hm.flags, hm.kernel, hm.refused⟩
  | error e s =>
      intro _
      have hm' : Matched F { h with sender := s } := ⟨hm.flags, hm.kernel, hm.refused⟩
      exact hm'.accounted

theorem look {g : CopyHandle → StopM β} (hx : ∀ h, P h → Leaves (fun h' => h' = h) (g h) R E) :
    Leaves P (get >>= g) R E :=
  fun h hP => hx h hP h rfl

/-- A function that goes to `err:` has asked everything back. -/
theorem atErr (hx : Leaves P x Q Accounted) : Leaves P (atErr o x) Q Released := by
  intro h hP
  have hrun := hx h hP
  rw [Held.atErr]
  rcases hres : x h with ⟨a, h'⟩ | ⟨e, h'⟩
  · rw [hres] at hrun
    exact hrun
  · rw [hres] at hrun
    dsimp only
    by_cases hret : Returns e = true
    · obtain ⟨h'', hrel, hreleased⟩ := ploopCopyRelease_spec (o := o) (hrun hret)
      rw [if_pos hret, bind_run_ok hrel]
      exact fun _ => hreleased
    · rw [if_neg hret]
      exact fun h => absurd h hret

end Leaves

theorem hold_leaves {F : Resource → Bool} (r : Resource) :
    Leaves (Matched F) (hold r) (fun _ => Matched (Function.update F r true)) Accounted := by
  intro h hm
  refine ⟨?_, ?_, hm.refused⟩
  · exact congrArg (Function.update · r true) hm.flags
  · exact congrArg (Function.update · r true) hm.kernel

/-! ## The three functions -/

theorem ploopCopyStart_leaves {F : Resource → Bool} :
    Leaves (Matched F) (ploopCopyStart o fuel)
      (fun _ => Matched (Function.update F .tracker true)) Released := by
  apply Leaves.atErr
  apply Leaves.bind (Leaves.sender _)
  intro _
  apply Leaves.bind (Leaves.sender _)
  intro trackend
  apply Leaves.bind (hold_leaves .tracker)
  intro _
  apply Leaves.bind (Leaves.sender _)
  intro _
  apply Leaves.bind (Leaves.sender _)
  intro pos
  apply Leaves.bind (Leaves.sender _)
  intro _
  exact Leaves.ret fun _ hm => hm

theorem ploopCopyNextIteration_leaves {F : Resource → Bool} :
    Leaves (Matched F) (ploopCopyNextIteration o fuel inner) (fun _ => Matched F) Released :=
  Leaves.atErr (Leaves.sender _)

theorem freezeFs_leaves {F : Resource → Bool} :
    Leaves (Matched F) (freezeFs o) (fun _ => Holding) Accounted := by
  apply Leaves.look
  rintro h hm
  split
  · have hcalls : Leaves (Matched F) (do
        onSender (call o (.exit .fsync))
        onSender (call o (.exit .devioc))
        hold .fs) (fun _ => Matched (Function.update F .fs true)) Accounted := by
      apply Leaves.bind (Leaves.sender _)
      intro _
      apply Leaves.bind (Leaves.sender _)
      intro _
      exact hold_leaves .fs
    apply hcalls.conseq
    · rintro h' rfl
      exact hm
    · exact fun _ h' hm' => hm'.holding
    · exact fun h' hacc => hacc
  · apply Leaves.ret
    rintro h' rfl
    exact hm.holding

theorem freezeBy_leaves {F : Resource → Bool} (a : FreezeAnswer) :
    Leaves (Matched F) (freezeBy o a) (fun _ => Holding) Accounted := by
  cases a with
  | ok => exact (hold_leaves .dev).conseq (fun _ h => h) (fun _ _ hm => hm.holding) fun _ h => h
  | einval => exact freezeFs_leaves
  | other => exact Leaves.raise fun _ hm => hm.accounted

/-- Whatever is frozen, the flag says so. -/
theorem freeze_leaves {F : Resource → Bool} :
    Leaves (Matched F) (freeze o frozen) (fun _ => Holding) Released := by
  apply Leaves.atErr
  apply Leaves.bind (Leaves.sender _)
  intro t
  apply Leaves.bind (freezeBy_leaves _)
  intro _ h hm
  have hsync := Leaves.sender (F := h.flags) (call o (.exit .devioc))
  exact hsync.conseq (fun _ h => h) (fun _ _ hm' => hm'.holding) (fun _ h => h) h hm

theorem stopLoop_leaves {F : Resource → Bool} :
    Leaves (Matched F) (stopLoop o fuel inner k) (fun _ => Matched F) Released := by
  induction k with
  | zero => exact Leaves.ret fun _ hm => hm
  | succ k ih =>
      apply Leaves.bind ploopCopyNextIteration_leaves
      intro xferred
      split
      · exact Leaves.ret fun _ hm => hm
      · exact ih

theorem closing_leaves {F : Resource → Bool} :
    Leaves (Matched F) (closing o) (fun _ => Accounted) Accounted := by
  apply Leaves.bind (Leaves.sender _)
  intro _
  apply Leaves.bind (Leaves.sender _)
  intro _
  have hstop : Leaves (Matched F) (modify fun h => { h with
      flags := Function.update h.flags .tracker false
      kernel := Function.update h.kernel .tracker false } : StopM Unit)
      (fun _ => Matched (Function.update F .tracker false)) Accounted := by
    intro h hm
    refine ⟨?_, ?_, hm.refused⟩
    · exact congrArg (Function.update · .tracker false) hm.flags
    · exact congrArg (Function.update · .tracker false) hm.kernel
  apply hstop.bind
  intro _
  apply Leaves.bind (Leaves.sender _)
  intro _
  exact (Leaves.sender _).conseq (fun _ h => h) (fun _ _ hm => hm.accounted) fun _ h => h

/-! ## The end of a copy -/

/-- Each of the next `k` rounds succeeds and sends something. -/
def Busy (o : Outside) (fuel inner : ℕ) : ℕ → CopyHandle → Prop
  | 0, _ => True
  | k + 1, h => ∃ xferred h', ploopCopyNextIteration o fuel inner h = .ok xferred h' ∧
      xferred ≠ 0 ∧ Busy o fuel inner k h'

theorem stopLoop_busy :
    Busy o fuel inner k h ↔ ∃ h', stopLoop o fuel inner k h = .ok true h' := by
  induction k generalizing h with
  | zero => exact ⟨fun _ => ⟨h, rfl⟩, fun _ => True.intro⟩
  | succ k ih =>
      rw [Busy, stopLoop]
      rcases hround : ploopCopyNextIteration o fuel inner h with ⟨xferred, h₁⟩ | ⟨e, h₁⟩
      · rw [bind_run_ok hround]
        by_cases hzero : xferred = 0
        · rw [if_pos hzero]
          constructor
          · rintro ⟨x, h', hrun, hne, -⟩
            obtain ⟨rfl, -⟩ := EStateM.Result.ok.inj hrun
            exact absurd hzero hne
          · rintro ⟨h', hrun⟩
            exact absurd (EStateM.Result.ok.inj hrun).1 Bool.false_ne_true
        · rw [if_neg hzero, ← ih]
          constructor
          · rintro ⟨x, h', hrun, -, hbusy⟩
            obtain ⟨-, rfl⟩ := EStateM.Result.ok.inj hrun
            exact hbusy
          · exact fun hbusy => ⟨xferred, h₁, rfl, hzero, hbusy⟩
      · rw [bind_run_error hround]
        constructor
        · rintro ⟨x, h', hrun, -⟩
          cases hrun
        · rintro ⟨h', hrun⟩
          cases hrun

/-- The rounds on the frozen image do not come to an end while something is held. -/
def Overrun (o : Outside) (frozen : ℕ → FreezeAnswer) (fuel inner : ℕ) (h : CopyHandle) : Prop :=
  ∃ h₁, freeze o frozen h = .ok () h₁ ∧ Busy o fuel inner 3 h₁ ∧ ∃ r, h₁.flags r = true

/-- What a call of `ploop_copy_stop` returns in. -/
def StopsIn (o : Outside) (frozen : ℕ → FreezeAnswer) (fuel inner : ℕ) (h h' : CopyHandle) :
    Prop :=
  ploopCopyStop o frozen fuel inner h = .ok () h' ∨
    ∃ e, Returns e = true ∧ ploopCopyStop o frozen fuel inner h = .error e h'

/-- The handles that a caller can have: new, or returned by calls that succeeded. -/
inductive Open : CopyHandle → Prop
  | new (sender : Sender) (mounted : Bool) :
      Open ⟨sender, mounted, fun _ => false, fun _ => false, fun _ => false⟩
  | started {o : Outside} {fuel pos : ℕ} {h h' : CopyHandle} : Open h →
      ploopCopyStart o fuel h = .ok pos h' → Open h'
  | iterated {o : Outside} {fuel inner xferred : ℕ} {h h' : CopyHandle} : Open h →
      ploopCopyNextIteration o fuel inner h = .ok xferred h' → Open h'

theorem Open.holding (hopen : Open h) : Holding h := by
  induction hopen with
  | new sender mounted => exact ⟨rfl, rfl, fun _ => rfl⟩
  | started _ hrun ih => exact (ploopCopyStart_leaves.ok ih hrun).holding
  | iterated _ hrun ih => exact (ploopCopyNextIteration_leaves.ok ih hrun).holding

theorem atErr_ok {x : StopM α} {a : α} : atErr o x h = .ok a h' ↔ x h = .ok a h' := by
  rw [atErr]
  rcases hres : x h with ⟨b, h₁⟩ | ⟨e, h₁⟩
  · exact Iff.rfl
  · dsimp only
    constructor
    · intro hrun
      by_cases hret : Returns e = true
      · rw [if_pos hret] at hrun
        rcases hrel : ploopCopyRelease o h₁ with ⟨u, h₂⟩ | ⟨e', h₂⟩
        · rw [bind_run_ok hrel] at hrun
          cases hrun
        · rw [bind_run_error hrel] at hrun
          cases hrun
      · rw [if_neg hret] at hrun
        cases hrun
    · intro hrun
      cases hrun

/-- The part of `ploop_copy_stop` up to the end of its loop. -/
def freezeAndSend (o : Outside) (frozen : ℕ → FreezeAnswer) (fuel inner : ℕ) : StopM Bool := do
  freeze o frozen
  stopLoop o fuel inner 3

theorem freezeAndSend_ok {b : Bool} : freezeAndSend o frozen fuel inner h = .ok b h' ↔
    ∃ h₁, freeze o frozen h = .ok () h₁ ∧ stopLoop o fuel inner 3 h₁ = .ok b h' := by
  constructor
  · intro hrun
    obtain ⟨_, h₁, hfreeze, hloop⟩ := bind_eq_ok hrun
    exact ⟨h₁, hfreeze, hloop⟩
  · rintro ⟨h₁, hfreeze, hloop⟩
    exact (bind_run_ok hfreeze).trans hloop

theorem freezeAndSend_leaves {F : Resource → Bool} :
    Leaves (Matched F) (atErr o (freezeAndSend o frozen fuel inner)) (fun _ => Holding)
      Released := by
  apply Leaves.atErr
  apply Leaves.bind (freeze_leaves.conseq (fun _ h => h) (fun _ _ h => h) fun _ hr => hr.accounted)
  intro _ h hm
  exact stopLoop_leaves.conseq (fun _ h => h) (fun _ _ hm' => hm'.holding)
    (fun _ hr => hr.accounted) h hm

theorem afterLoop_leaves {F : Resource → Bool} :
    Leaves (Matched F) (do
      atErr o (closing o)
      ploopCopyRelease o) (fun _ => Released) Released := by
  apply Leaves.bind (Leaves.atErr closing_leaves)
  intro _ h hacc
  obtain ⟨h', hrel, hreleased⟩ := ploopCopyRelease_spec (o := o) hacc
  rw [hrel]
  exact hreleased

/-- The loop has made all its turns. -/
theorem overrun_iff : Overrun o frozen fuel inner h ↔ ∃ h₁ h₂, freeze o frozen h = .ok () h₁ ∧
    stopLoop o fuel inner 3 h₁ = .ok true h₂ ∧ ∃ r, h₁.flags r = true := by
  constructor
  · rintro ⟨h₁, hfreeze, hbusy, hheld⟩
    obtain ⟨h₂, hloop⟩ := stopLoop_busy.mp hbusy
    exact ⟨h₁, h₂, hfreeze, hloop, hheld⟩
  · rintro ⟨h₁, h₂, hfreeze, hloop, hheld⟩
    exact ⟨h₁, hfreeze, stopLoop_busy.mpr ⟨h₂, hloop⟩, hheld⟩

theorem Leaves.returned {x : StopM Unit} (hx : Leaves P x (fun _ => Released) Released) (hP : P h)
    (hres : x h = .ok () h' ∨ ∃ e, Returns e = true ∧ x h = .error e h') : Released h' := by
  rcases hres with hok | ⟨e, hret, herr⟩
  · exact hx.ok hP hok
  · exact hx.err hP herr hret

theorem ploopCopyStop_eq : ploopCopyStop o frozen fuel inner h =
    (atErr o (freezeAndSend o frozen fuel inner) >>= fun tooMany =>
      if tooMany then throw (.exit .loop) else do
        atErr o (closing o)
        ploopCopyRelease o) h := rfl

/-- The exit that asks nothing back. -/
theorem ploopCopyStop_overrun {h₁ h₂ : CopyHandle} (hfreeze : freeze o frozen h = .ok () h₁)
    (hloop : stopLoop o fuel inner 3 h₁ = .ok true h₂) :
    ploopCopyStop o frozen fuel inner h = .error (.exit .loop) h₂ := by
  rw [ploopCopyStop_eq, bind_run_ok (atErr_ok.mpr (freezeAndSend_ok.mpr ⟨h₁, hfreeze, hloop⟩))]
  rfl

/-- Every other exit asks everything back. -/
theorem ploopCopyStop_released (hm : Holding h) (hstop : StopsIn o frozen fuel inner h h')
    (hloop : ∀ h₁ h₂, freeze o frozen h = .ok () h₁ →
      stopLoop o fuel inner 3 h₁ ≠ .ok true h₂) : Released h' := by
  rw [StopsIn, ploopCopyStop_eq] at hstop
  rcases hrun : atErr o (freezeAndSend o frozen fuel inner) h with ⟨tooMany, h₂⟩ | ⟨e, h₂⟩
  · obtain ⟨h₁, hfreeze, hsent⟩ := freezeAndSend_ok.mp (atErr_ok.mp hrun)
    rw [bind_run_ok hrun] at hstop
    cases tooMany with
    | true => exact absurd hsent (hloop h₁ h₂ hfreeze)
    | false => exact afterLoop_leaves.returned (freezeAndSend_leaves.ok hm hrun) hstop
  · rw [bind_run_error hrun] at hstop
    rcases hstop with hok | ⟨e', hret, herr⟩
    · cases hok
    · obtain ⟨rfl, rfl⟩ := EStateM.Result.error.inj herr
      exact freezeAndSend_leaves.err hm hrun hret

theorem ploopCopyStop_thawed (hm : Holding h) (hstop : StopsIn o frozen fuel inner h h') :
    Thawed h' ↔ NoneRefused h' ∧ ¬ Overrun o frozen fuel inner h := by
  rw [overrun_iff]
  by_cases hloop : ∃ h₁ h₂, freeze o frozen h = .ok () h₁ ∧
      stopLoop o fuel inner 3 h₁ = .ok true h₂
  · obtain ⟨h₁, h₂, hfreeze, hsent⟩ := hloop
    have hend : h' = h₂ := by
      rw [StopsIn, ploopCopyStop_overrun hfreeze hsent] at hstop
      rcases hstop with hok | ⟨e, -, herr⟩
      · cases hok
      · exact (EStateM.Result.error.inj herr).2.symm
    subst hend
    have hkept := stopLoop_leaves.ok (freeze_leaves.ok hm hfreeze) hsent
    rw [Thawed, hkept.kernel]
    constructor
    · intro hnone
      refine ⟨hkept.refused, ?_⟩
      rintro ⟨h₁', h₂', hfreeze', -, r, hr⟩
      obtain ⟨-, rfl⟩ := EStateM.Result.ok.inj (hfreeze.symm.trans hfreeze')
      exact Bool.false_ne_true ((hnone r).symm.trans hr)
    · rintro ⟨-, hheld⟩ r
      by_contra hr
      exact hheld ⟨h₁, h', hfreeze, hsent, r, Bool.eq_true_of_not_eq_false hr⟩
  · have hreleased := ploopCopyStop_released hm hstop fun h₁ h₂ hfreeze hsent =>
      hloop ⟨h₁, h₂, hfreeze, hsent⟩
    rw [hreleased.thawed_iff]
    constructor
    · intro hnone
      refine ⟨hnone, ?_⟩
      rintro ⟨h₁, h₂, hfreeze, hsent, -⟩
      exact hloop ⟨h₁, h₂, hfreeze, hsent⟩
    · exact And.left

/-- From any handle that a caller can have, a call that fails (or ends the copy) leaves nothing
frozen and no tracker on, just when the kernel lets go of all that it is asked for and, for
`ploop_copy_stop`, the rounds on the frozen image come to an end. -/
theorem copy_thaws_iff (hopen : Open h) :
    (∀ (o : Outside) (fuel : ℕ) (e : Ending) (h' : CopyHandle), Returns e = true →
      ploopCopyStart o fuel h = .error e h' → (Thawed h' ↔ NoneRefused h')) ∧
    (∀ (o : Outside) (fuel inner : ℕ) (e : Ending) (h' : CopyHandle), Returns e = true →
      ploopCopyNextIteration o fuel inner h = .error e h' → (Thawed h' ↔ NoneRefused h')) ∧
    ∀ (o : Outside) (frozen : ℕ → FreezeAnswer) (fuel inner : ℕ) (h' : CopyHandle),
      StopsIn o frozen fuel inner h h' →
      (Thawed h' ↔ NoneRefused h' ∧ ¬ Overrun o frozen fuel inner h) := by
  have hm := hopen.holding
  refine ⟨?_, ?_, ?_⟩
  · intro o fuel e h' hret hrun
    exact (ploopCopyStart_leaves.err hm hrun hret).thawed_iff
  · intro o fuel inner e h' hret hrun
    exact (ploopCopyNextIteration_leaves.err hm hrun hret).thawed_iff
  · exact fun o frozen fuel inner h' hstop => ploopCopyStop_thawed hm hstop

/-! ## A guest that writes all the time -/

/-- Every call succeeds, and there is always one more dirty byte. -/
def busyOutside : Outside where
  answer _ := .replied 0
  track _ := .ok (some (0, 1))
  pread _ size _ := some size
  bitmap _ := .ok none
  feedback _ := .ok ()
  call _ := true

def newSender : Sender where
  isRemote := false
  async := false
  raw := true
  cluster := 4
  trackpos := 0
  trackend := 0
  eofOffset := 0
  sdRet := none
  exited := false
  sent := []
  time := 0

def newHandle : CopyHandle := ⟨newSender, true, fun _ => false, fun _ => false, fun _ => false⟩

/-- A handle that has just been made. -/
theorem copy_thaws_iff_new :
    (∀ (o : Outside) (fuel : ℕ) (e : Ending) (h' : CopyHandle), Returns e = true →
      ploopCopyStart o fuel newHandle = .error e h' → (Thawed h' ↔ NoneRefused h')) ∧
    (∀ (o : Outside) (fuel inner : ℕ) (e : Ending) (h' : CopyHandle), Returns e = true →
      ploopCopyNextIteration o fuel inner newHandle = .error e h' →
      (Thawed h' ↔ NoneRefused h')) ∧
    ∀ (o : Outside) (frozen : ℕ → FreezeAnswer) (fuel inner : ℕ) (h' : CopyHandle),
      StopsIn o frozen fuel inner newHandle h' →
      (Thawed h' ↔ NoneRefused h' ∧ ¬ Overrun o frozen fuel inner newHandle) :=
  copy_thaws_iff (.new newSender true)

/-- The sender after the start of such a copy. -/
def busySender (sent : List (Packet × Answer)) (time : ℕ) : Sender :=
  { newSender with trackpos := 4, trackend := 1, eofOffset := 4, sent := sent, time := time }

/-- Every round finds two more bytes to send. -/
theorem busyRound (sent : List (Packet × Answer)) (time : ℕ) (mounted : Bool)
    (F K R : Resource → Bool) :
    ∃ sent' time',
      ploopCopyNextIteration busyOutside 3 3 ⟨busySender sent time, mounted, F, K, R⟩ =
        .ok 2 ⟨busySender sent' time', mounted, F, K, R⟩ := ⟨_, _, rfl⟩

theorem busyRounds (k : ℕ) (sent : List (Packet × Answer)) (time : ℕ) (mounted : Bool)
    (F K R : Resource → Bool) :
    Busy busyOutside 3 3 k ⟨busySender sent time, mounted, F, K, R⟩ := by
  induction k generalizing sent time with
  | zero => exact True.intro
  | succ k ih =>
      obtain ⟨sent', time', hround⟩ := busyRound sent time mounted F K R
      exact ⟨2, _, hround, by norm_num, ih sent' time'⟩

/-- `ploop_copy_stop` has given up after three rounds, and the device is frozen. -/
theorem ploopCopyStop_leaves_frozen : ¬ ∀ (o : Outside) (frozen : ℕ → FreezeAnswer)
    (fuel inner : ℕ) (h h' : CopyHandle), Open h → StopsIn o frozen fuel inner h h' →
    Thawed h' := by
  intro hall
  obtain ⟨sent, time, hstart⟩ : ∃ sent time, ploopCopyStart busyOutside 2 newHandle = .ok 4
      ⟨busySender sent time, true, Function.update (fun _ => false) .tracker true,
        Function.update (fun _ => false) .tracker true, fun _ => false⟩ := ⟨_, _, rfl⟩
  have hopen := Open.started (.new newSender true) hstart
  obtain ⟨sent', time', F, K, hfreeze, hdev⟩ : ∃ sent' time' F K,
      freeze busyOutside (fun _ => .ok) ⟨busySender sent time, true,
        Function.update (fun _ => false) .tracker true,
        Function.update (fun _ => false) .tracker true, fun _ => false⟩ =
          .ok () ⟨busySender sent' time', true, F, K, fun _ => false⟩ ∧ F .dev = true :=
    ⟨_, _, _, _, rfl, rfl⟩
  obtain ⟨h', hloop⟩ := stopLoop_busy.mp (busyRounds 3 sent' time' true F K fun _ => false)
  have hkept := stopLoop_leaves.ok (freeze_leaves.ok hopen.holding hfreeze) hloop
  have hstop := ploopCopyStop_overrun hfreeze hloop
  have hthawed := hall _ _ _ _ _ _ hopen (.inr ⟨_, rfl, hstop⟩) .dev
  rw [hkept.kernel] at hthawed
  exact Bool.false_ne_true (hthawed.symm.trans hdev)

end Ploop.Wire.Held
