import Ploop.Lib.Transition

/-!
# The hand-off to the sender thread

`send_async` gives a buffer to `sender_thread` with two mutexes and two
condition variables, and no flag beside them. The caller has `wait_mutex`
whenever it does not wait itself.
-/

namespace Ploop.HandOff

open Transition

inductive Thread where
  | caller
  | sender
  deriving DecidableEq, Repr

/-- `buf`, `len` and `pos` of `struct sender_data`; there are two buffers. -/
structure Request where
  buf : Option Bool
  len : ℕ
  pos : ℕ
  deriving DecidableEq, Repr

/-- `send_async(h, NULL, 0, 0)` ends the thread. -/
def Request.close : Request := ⟨none, 0, 0⟩

/-- What `send_buf` is given. -/
structure Block where
  data : List UInt8
  len : ℕ
  pos : ℕ
  deriving DecidableEq, Repr

/-- Where the caller is. From `lock` to `awake` it is in `send_async`, and after
`drainLock` in `wait_sender`. -/
inductive CallerPc where
  | barrier
  | idle (drained : Bool)
  | lock (r : Request)
  | check (r : Request)
  | refused (r : Request)
  | signal (r : Request)
  | unlock (r : Request)
  | wait (r : Request)
  | asleep (r : Request)
  | awake (r : Request)
  | drainLock
  | drainUnlock
  | join
  | joined
  | failed
  deriving DecidableEq, Repr

/-- Where `sender_thread` is; `wakeup`, `signal` and `unlock` are the steps of
`wakeup`. -/
inductive SenderPc where
  | start
  | barrier
  | top
  | asleep
  | awake
  | wakeup
  | signal
  | unlock
  | sending
  | exit
  | exited
  deriving DecidableEq, Repr

/-- `ret` tells whether the last send failed. A request is `accepted` once it is in
`sd`, with the bytes its buffer has then, and `passed` when `send_buf` begins. -/
structure State where
  caller : CallerPc
  sender : SenderPc
  mutex : Option Thread
  waitMutex : Option Thread
  sd : Request
  ret : Bool
  iobuf : Bool → List UInt8
  cur : Bool
  accepted : List Block
  passed : List Block

def State.block (s : State) (r : Request) : Block :=
  ⟨(r.buf.elim [] s.iobuf).take r.len, r.len, r.pos⟩

/-- After `pthread_create`; the memory is that of `calloc`. -/
def State.new (iobuf : Bool → List UInt8) : State where
  caller := .barrier
  sender := .start
  mutex := none
  waitMutex := some .caller
  sd := .close
  ret := false
  iobuf := iobuf
  cur := false
  accepted := []
  passed := []

/-! ## Steps -/

/-- `get_free_iobuf` and the `pread` into it. -/
def State.fill (s : State) (data : List UInt8) : State :=
  { s with cur := !s.cur, iobuf := Function.update s.iobuf (!s.cur) data }

/-- What follows `send_async` when it returns 0. -/
def Request.after (r : Request) : CallerPc := if r.buf = none then .join else .idle false

/-- Steps of the caller inside a call. -/
def callerStep (s : State) : Option State :=
  match s.caller with
  | .lock r => if s.mutex = none then
      some { s with mutex := some .caller, caller := .check r } else none
  | .check r => if s.ret then some { s with caller := .refused r }
      else some { s with sd := r, accepted := s.accepted ++ [s.block r], caller := .signal r }
  -- `ploop_copy_stop` does not look at the result.
  | .refused r => some { s with
      mutex := none, caller := if r.buf = none then .join else .failed }
  | .signal r => some { s with
      caller := .unlock r, sender := if s.sender = .asleep then .awake else s.sender }
  | .unlock r => some { s with mutex := none, caller := .wait r }
  | .wait r => some { s with waitMutex := none, caller := .asleep r }
  | .awake r => if s.waitMutex = none then
      some { s with waitMutex := some .caller, caller := r.after } else none
  | .drainLock => if s.mutex = none then
      some { s with mutex := some .caller, caller := .drainUnlock } else none
  | .drainUnlock => some { s with mutex := none, caller := .idle true }
  | .join => if s.sender = .exited then some { s with caller := .joined } else none
  | _ => none

def senderStep (s : State) : Option State :=
  match s.sender with
  | .start => if s.mutex = none then
      some { s with mutex := some .sender, sender := .barrier } else none
  | .top => some { s with mutex := none, sender := .asleep }
  | .awake => if s.mutex = none then
      some { s with mutex := some .sender, sender := .wakeup } else none
  | .wakeup => if s.waitMutex = none then
      some { s with waitMutex := some .sender, sender := .signal } else none
  | .signal => some { s with
      sender := .unlock
      caller := match s.caller with
        | .asleep r => .awake r
        | c => c }
  | .unlock => some { s with
      waitMutex := none, sender := .sending, passed := s.passed ++ [s.block s.sd] }
  | .exit => some { s with mutex := none, sender := .exited }
  | _ => none

/-- The actions; the first group is what the caller may do next when it is idle.
The header is filled and the thread is ended only after `wait_sender`. -/
inductive Action where
  | block (data : List UInt8) (pos : ℕ)
  | eof
  | drain
  | header (data : List UInt8)
  | stop
  | fail
  | barrier
  | caller
  | sender
  | sent (failed : Bool)
  | spuriousCaller
  | spuriousSender

def step (a : Action) (s : State) : Option State :=
  match a, s.caller, s.sender with
  | .block data pos, .idle _, _ => if data = [] then none
      else some { s.fill data with caller := .lock ⟨some (!s.cur), data.length, pos⟩ }
  | .eof, .idle _, _ => some { s with cur := !s.cur, caller := .drainLock }
  | .drain, .idle _, _ => some { s with caller := .drainLock }
  | .header data, .idle true, _ => some (s.fill data)
  | .stop, .idle true, _ => some { s with caller := .lock .close }
  | .fail, .idle _, _ => some { s with caller := .failed }
  | .barrier, .barrier, .barrier => some { s with caller := .idle false, sender := .top }
  | .caller, _, _ => callerStep s
  | .sender, _, _ => senderStep s
  | .sent failed, _, .sending => some { s with
      ret := failed, sender := if s.sd.len = 0 ∧ s.sd.pos = 0 then .exit else .top }
  | .spuriousCaller, .asleep r, _ => some { s with caller := .awake r }
  | .spuriousSender, _, .asleep => some { s with sender := .awake }
  | _, _, _ => none

def Action.Spurious : Action → Prop
  | .spuriousCaller | .spuriousSender => True
  | _ => False

instance (a : Action) : Decidable a.Spurious := by
  cases a <;> first | exact isTrue trivial | exact isFalse id

/-- A step inside a call, with no spurious wake-up. -/
def Action.Internal : Action → Prop
  | .barrier | .caller | .sender | .sent _ => True
  | _ => False

/-! ## What is claimed -/

/-- The caller is inside a call. -/
def CallerPc.Busy : CallerPc → Prop
  | .idle _ | .joined | .failed => False
  | _ => True

def Enabled (s : State) : Prop := ∃ a, Action.Internal a ∧ (step a s).isSome

def CallerPc.rank : CallerPc → ℕ
  | .barrier | .lock _ => 20
  | .check _ => 19
  | .signal _ => 18
  | .unlock _ => 10
  | .wait _ => 9
  | .asleep _ => 8
  | .awake _ => 7
  | .refused _ | .drainLock => 2
  | .join | .drainUnlock => 1
  | .idle _ | .joined | .failed => 0

def SenderPc.rank : SenderPc → ℕ
  | .awake => 6
  | .wakeup => 5
  | .signal => 4
  | .start | .unlock => 3
  | .barrier | .sending => 2
  | .top | .exit => 1
  | .asleep | .exited => 0

/-- How many steps are left at most before the two threads stop or a call begins. -/
def State.rank (s : State) : ℕ := s.caller.rank + s.sender.rank

/-- What the hand-off is for. With `live` and `ends` every call returns. -/
structure Right (s : State) : Prop where
  order : ∃ rest, s.accepted = s.passed ++ rest ∧ rest.length ≤ 1
  intact : s.sender = .sending → s.passed.getLast? = some (s.block s.sd)
  delivered : s.caller = .idle true ∨ s.caller = .joined → s.passed = s.accepted
  live : s.caller.Busy → Enabled s
  ends : ∀ a t, Action.Internal a → step a s = some t → t.rank < s.rank
  join : s.caller = .join → s.block .close ∈ s.accepted

/-- No spurious wake-up, and the last send has succeeded when the thread is to end. -/
def Allowed (a : Action) (s : State) : Prop :=
  ¬ a.Spurious ∧ ¬ (s.caller = .check .close ∧ s.ret = true)

instance (a : Action) (s : State) : Decidable (Allowed a s) := inferInstanceAs (Decidable (_ ∧ _))

/-! ## Phases -/

/-- The sender can take a request, or will without the caller. -/
inductive Resting (s : State) : Prop
  | top (hs : s.sender = .top) (hm : s.mutex = some .sender)
  | asleep (hs : s.sender = .asleep) (hm : s.mutex = none)
  | sending (hs : s.sender = .sending) (hm : s.mutex = some .sender) (len : s.sd.len ≠ 0)
      (last : s.passed.getLast? = some (s.block s.sd))

/-- The sender is about to end. -/
inductive Leaving (s : State) : Prop
  | sending (hs : s.sender = .sending) (hm : s.mutex = some .sender)
      (last : s.passed.getLast? = some (s.block s.sd))
  | exit (hs : s.sender = .exit) (hm : s.mutex = some .sender)
  | exited (hs : s.sender = .exited) (hm : s.mutex = none)

/-- A block in the current buffer, or the end. -/
def State.Valid (s : State) (r : Request) : Prop :=
  r = .close ∨ (r.buf = some s.cur ∧ r.len ≠ 0)

/-- The caller has no mutex but `wait_mutex`. A buffer that is being sent is not the
one it fills. -/
inductive Free (s : State) : Prop
  | idle (hc : s.caller = .idle false) (buf : s.sender = .sending → s.sd.buf = some s.cur)
  | drained (hc : s.caller = .idle true) (hs : s.sender = .asleep)
  | lock (r : Request) (hc : s.caller = .lock r) (block : r.buf = some s.cur) (len : r.len ≠ 0)
      (buf : s.sender = .sending → s.sd.buf = some !s.cur)
  | lockClose (hc : s.caller = .lock .close) (hs : s.sender = .asleep)
  | drainLock (hc : s.caller = .drainLock)
  | failed (hc : s.caller = .failed)

/-- The caller has the mutex, and the sender sleeps. -/
inductive Inside (s : State) : Prop
  | check (r : Request) (hc : s.caller = .check r) (valid : s.Valid r)
  | refused (r : Request) (hc : s.caller = .refused r) (buf : r.buf ≠ none)
  | drainUnlock (hc : s.caller = .drainUnlock)

/-- The two threads between the signal and the answer, and who has the mutexes. -/
inductive Handing (r : Request) : CallerPc → SenderPc → Option Thread → Option Thread → Prop
  | signal : Handing r (.signal r) .asleep (some .caller) (some .caller)
  | unlock : Handing r (.unlock r) .awake (some .caller) (some .caller)
  | wait : Handing r (.wait r) .awake none (some .caller)
  | waitLocked : Handing r (.wait r) .wakeup (some .sender) (some .caller)
  | asleep : Handing r (.asleep r) .awake none none
  | asleepLocked : Handing r (.asleep r) .wakeup (some .sender) none
  | answer : Handing r (.asleep r) .signal (some .sender) (some .sender)
  | answered : Handing r (.awake r) .unlock (some .sender) (some .sender)

theorem Handing.not_sending {r : Request} {c : CallerPc} {m w : Option Thread} :
    ¬ Handing r c .sending m w := nofun

theorem Handing.not_idle {r : Request} {d : Bool} {p : SenderPc} {m w : Option Thread} :
    ¬ Handing r (.idle d) p m w := nofun

theorem Handing.not_barrier {r : Request} {p : SenderPc} {m w : Option Thread} :
    ¬ Handing r .barrier p m w := nofun

theorem Handing.not_ended {r : Request} {c : CallerPc} {p : SenderPc} {m w : Option Thread}
    (h : Handing r c p m w) : ¬ (c = .join ∨ c = .joined) := by
  cases h <;> simp

/-- Every state of a good run is in one of these phases. -/
inductive Phase (s : State) : Prop
  | start (hc : s.caller = .barrier) (hs : s.sender = .start) (hm : s.mutex = none)
      (hw : s.waitMutex = some .caller) (log : s.accepted = s.passed)
  | barrier (hc : s.caller = .barrier) (hs : s.sender = .barrier) (hm : s.mutex = some .sender)
      (hw : s.waitMutex = some .caller) (log : s.accepted = s.passed)
  | free (hc : Free s) (hs : Resting s) (hw : s.waitMutex = some .caller)
      (log : s.accepted = s.passed)
  | inside (hc : Inside s) (hs : s.sender = .asleep) (hm : s.mutex = some .caller)
      (hw : s.waitMutex = some .caller) (log : s.accepted = s.passed)
  | handing (r : Request) (h : Handing r s.caller s.sender s.mutex s.waitMutex) (sd : s.sd = r)
      (valid : s.Valid r) (log : s.accepted = s.passed ++ [s.block r])
  | taken (r : Request) (hc : s.caller = .awake r) (hs : Resting s) (hw : s.waitMutex = none)
      (sd : s.sd = r) (block : r.buf = some s.cur) (len : r.len ≠ 0) (log : s.accepted = s.passed)
  | closing (hc : s.caller = .awake .close) (hs : Leaving s) (hw : s.waitMutex = none)
      (sd : s.sd = .close) (log : s.accepted = s.passed) (mem : s.block .close ∈ s.accepted)
  | leaving (hc : s.caller = .join) (hs : Leaving s) (hw : s.waitMutex = some .caller)
      (sd : s.sd = .close) (log : s.accepted = s.passed) (mem : s.block .close ∈ s.accepted)
  | joined (hc : s.caller = .joined) (hs : s.sender = .exited) (log : s.accepted = s.passed)

theorem phase_new (iobuf : Bool → List UInt8) : Phase (State.new iobuf) :=
  .start rfl rfl rfl rfl rfl

section Step

variable {s t : State}

theorem Resting.of_eq (h : Resting s) (hs : t.sender = s.sender) (hm : t.mutex = s.mutex)
    (hsd : t.sd = s.sd) (hpassed : t.passed = s.passed)
    (hblock : s.sender = .sending → t.block s.sd = s.block s.sd) : Resting t := by
  cases h with
  | top hs' hm' => exact .top (hs.trans hs') (hm.trans hm')
  | asleep hs' hm' => exact .asleep (hs.trans hs') (hm.trans hm')
  | sending hs' hm' len last =>
      refine .sending (hs.trans hs') (hm.trans hm') (hsd ▸ len) ?_
      rw [hpassed, hsd, hblock hs', last]

theorem Leaving.of_eq (h : Leaving s) (hs : t.sender = s.sender) (hm : t.mutex = s.mutex)
    (hsd : t.sd = s.sd) (hpassed : t.passed = s.passed) (hiobuf : t.iobuf = s.iobuf) :
    Leaving t := by
  cases h with
  | sending hs' hm' last =>
      refine .sending (hs.trans hs') (hm.trans hm') ?_
      rw [hpassed, hsd, last, State.block, State.block, hiobuf]
  | exit hs' hm' => exact .exit (hs.trans hs') (hm.trans hm')
  | exited hs' hm' => exact .exited (hs.trans hs') (hm.trans hm')

theorem Resting.asleep_of_mutex (h : Resting s) (hm : s.mutex = none) : s.sender = .asleep := by
  cases h with
  | asleep hs => exact hs
  | top _ hm' => exact nomatch hm.symm.trans hm'
  | sending _ hm' => exact nomatch hm.symm.trans hm'

theorem Free.move (h : Free s) (hc : t.caller = s.caller) (hcur : t.cur = s.cur)
    (hsending : t.sender ≠ .sending) (hasleep : s.sender = .asleep → t.sender = .asleep) :
    Free t := by
  cases h with
  | idle hc' => exact .idle (hc.trans hc') fun h => absurd h hsending
  | drained hc' hs => exact .drained (hc.trans hc') (hasleep hs)
  | lock r hc' block len =>
      exact .lock r (hc.trans hc') (hcur ▸ block) len fun h => absurd h hsending
  | lockClose hc' hs => exact .lockClose (hc.trans hc') (hasleep hs)
  | drainLock hc' => exact .drainLock (hc.trans hc')
  | failed hc' => exact .failed (hc.trans hc')

/-! ## Steps of the caller -/

/-- Outside `send_async` and `wait_sender` the caller only takes the mutex. -/
theorem Free.callerStep_phase (hc : Free s) (hs : Resting s) (hw : s.waitMutex = some .caller)
    (log : s.accepted = s.passed) (h : callerStep s = some t) : Phase t := by
  have hlock {c : CallerPc} (h : (if s.mutex = none then
      some { s with mutex := some Thread.caller, caller := c } else none) = some t) :
      s.sender = .asleep ∧ { s with mutex := some Thread.caller, caller := c } = t := by
    split at h
    case isTrue hm => exact ⟨hs.asleep_of_mutex hm, Option.some.inj h⟩
    case isFalse => cases h
  unfold callerStep at h
  cases hc with
  | idle hc => cases hc ▸ h
  | drained hc => cases hc ▸ h
  | failed hc => cases hc ▸ h
  | lock r hc block len =>
      rw [hc] at h
      obtain ⟨hasleep, rfl⟩ := hlock h
      exact .inside (.check r rfl (Or.inr ⟨block, len⟩)) hasleep rfl hw log
  | lockClose hc =>
      rw [hc] at h
      obtain ⟨hasleep, rfl⟩ := hlock h
      exact .inside (.check _ rfl (Or.inl rfl)) hasleep rfl hw log
  | drainLock hc =>
      rw [hc] at h
      obtain ⟨hasleep, rfl⟩ := hlock h
      exact .inside (.drainUnlock rfl) hasleep rfl hw log

theorem Inside.callerStep_phase (hc : Inside s) (hs : s.sender = .asleep)
    (hm : s.mutex = some .caller) (hw : s.waitMutex = some .caller) (log : s.accepted = s.passed)
    (hret : ¬ (s.caller = .check .close ∧ s.ret = true)) (h : callerStep s = some t) : Phase t := by
  unfold callerStep at h
  cases hc with
  | check r hc valid =>
      simp only [hc] at h
      by_cases hfail : s.ret = true
      · rw [if_pos hfail] at h
        obtain rfl := Option.some.inj h
        refine .inside (.refused r rfl fun hbuf => hret ⟨?_, hfail⟩) hs hm hw log
        rcases valid with rfl | ⟨hr, -⟩
        · exact hc
        · exact nomatch hr.symm.trans hbuf
      · rw [if_neg hfail] at h
        obtain rfl := Option.some.inj h
        refine .handing r ?_ rfl valid (congrArg (· ++ [s.block r]) log)
        rw [hs, hm, hw]
        exact .signal
  | refused r hc buf =>
      simp only [hc] at h
      obtain rfl := Option.some.inj h
      exact .free (.failed (if_neg buf)) (.asleep hs rfl) hw log
  | drainUnlock hc =>
      simp only [hc] at h
      obtain rfl := Option.some.inj h
      exact .free (.drained rfl hs) (.asleep hs rfl) hw log

theorem Handing.callerStep_phase {r : Request}
    (hr : Handing r s.caller s.sender s.mutex s.waitMutex)
    (sd : s.sd = r) (valid : s.Valid r) (log : s.accepted = s.passed ++ [s.block r])
    (h : callerStep s = some t) : Phase t := by
  unfold callerStep at h
  generalize hc : s.caller = c at hr h
  generalize hs : s.sender = p at hr
  generalize hm : s.mutex = m at hr
  generalize hw : s.waitMutex = w at hr
  cases hr with
  | signal =>
      obtain rfl := Option.some.inj h
      refine .handing r ?_ sd valid log
      simp only [hs, hm, hw, if_true]
      exact .unlock
  | unlock =>
      obtain rfl := Option.some.inj h
      refine .handing r ?_ sd valid log
      simp only [hs, hw]
      exact .wait
  | wait =>
      obtain rfl := Option.some.inj h
      refine .handing r ?_ sd valid log
      simp only [hs, hm]
      exact .asleep
  | waitLocked =>
      obtain rfl := Option.some.inj h
      refine .handing r ?_ sd valid log
      simp only [hs, hm]
      exact .asleepLocked
  | asleep => cases h
  | asleepLocked => cases h
  | answer => cases h
  | answered =>
      simp only [hw, reduceCtorEq, if_false] at h

theorem taken_callerStep_phase {r : Request} (hc : s.caller = .awake r) (hs : Resting s)
    (hw : s.waitMutex = none) (sd : s.sd = r) (block : r.buf = some s.cur)
    (log : s.accepted = s.passed) (h : callerStep s = some t) : Phase t := by
  simp only [callerStep, hc, hw, if_true] at h
  obtain rfl := Option.some.inj h
  have hafter : r.after = .idle false := if_neg (by simp [block])
  refine .free (.idle hafter fun _ => ?_) (hs.of_eq rfl rfl rfl rfl fun _ => rfl) rfl log
  exact sd ▸ block

theorem closing_callerStep_phase (hc : s.caller = .awake .close) (hs : Leaving s)
    (hw : s.waitMutex = none) (sd : s.sd = .close) (log : s.accepted = s.passed)
    (mem : s.block .close ∈ s.accepted) (h : callerStep s = some t) : Phase t := by
  simp only [callerStep, hc, hw, if_true] at h
  obtain rfl := Option.some.inj h
  exact .leaving rfl (hs.of_eq rfl rfl rfl rfl rfl) rfl sd log mem

theorem leaving_callerStep_phase (hc : s.caller = .join) (log : s.accepted = s.passed)
    (h : callerStep s = some t) : Phase t := by
  simp only [callerStep, hc] at h
  split at h
  case isTrue hs =>
    obtain rfl := Option.some.inj h
    exact .joined rfl hs log
  case isFalse => cases h

theorem Phase.callerStep (hs : Phase s) (hret : ¬ (s.caller = .check .close ∧ s.ret = true))
    (h : callerStep s = some t) : Phase t := by
  cases hs with
  | start hc => simp [HandOff.callerStep, hc] at h
  | barrier hc => simp [HandOff.callerStep, hc] at h
  | free hc hs hw log => exact hc.callerStep_phase hs hw log h
  | inside hc hs hm hw log => exact hc.callerStep_phase hs hm hw log hret h
  | handing r hr sd valid log => exact hr.callerStep_phase sd valid log h
  | taken r hc hs hw sd block len log => exact taken_callerStep_phase hc hs hw sd block log h
  | closing hc hs hw sd log mem => exact closing_callerStep_phase hc hs hw sd log mem h
  | leaving hc hs hw sd log mem => exact leaving_callerStep_phase hc log h
  | joined hc => simp [HandOff.callerStep, hc] at h

/-! ## Steps of the sender -/

/-- A sender that rests can only go to sleep. -/
theorem Resting.senderStep_eq (hs : Resting s) (h : senderStep s = some t) :
    t = { s with mutex := none, sender := .asleep } ∧ s.sender = .top := by
  unfold senderStep at h
  cases hs with
  | top hs hm =>
      simp only [hs] at h
      exact ⟨(Option.some.inj h).symm, hs⟩
  | asleep hs => simp [hs] at h
  | sending hs => simp [hs] at h

theorem Leaving.senderStep_eq (hs : Leaving s) (h : senderStep s = some t) :
    t = { s with mutex := none, sender := .exited } := by
  unfold senderStep at h
  cases hs with
  | sending hs => simp [hs] at h
  | exit hs =>
      simp only [hs] at h
      exact (Option.some.inj h).symm
  | exited hs => simp [hs] at h

theorem Handing.senderStep_phase {r : Request}
    (hr : Handing r s.caller s.sender s.mutex s.waitMutex)
    (sd : s.sd = r) (valid : s.Valid r) (log : s.accepted = s.passed ++ [s.block r])
    (h : senderStep s = some t) : Phase t := by
  unfold senderStep at h
  generalize hc : s.caller = c at hr
  generalize hs : s.sender = p at hr h
  generalize hm : s.mutex = m at hr
  generalize hw : s.waitMutex = w at hr
  cases hr with
  | signal => cases h
  | unlock => simp [hm] at h
  | wait =>
      simp only [hm, if_true] at h
      obtain rfl := Option.some.inj h
      refine .handing r ?_ sd valid log
      simp only [hc, hw]
      exact .waitLocked
  | waitLocked => simp [hw] at h
  | asleep =>
      simp only [hm, if_true] at h
      obtain rfl := Option.some.inj h
      refine .handing r ?_ sd valid log
      simp only [hc, hw]
      exact .asleepLocked
  | asleepLocked =>
      simp only [hw, if_true] at h
      obtain rfl := Option.some.inj h
      refine .handing r ?_ sd valid log
      simp only [hc, hm]
      exact .answer
  | answer =>
      simp only [hc] at h
      obtain rfl := Option.some.inj h
      refine .handing r ?_ sd valid log
      simp only [hm, hw]
      exact .answered
  | answered =>
      obtain rfl := Option.some.inj h
      have hlast : (s.passed ++ [s.block s.sd]).getLast? = some (s.block s.sd) :=
        List.getLast?_concat
      have hlog : s.accepted = s.passed ++ [s.block s.sd] := sd ▸ log
      rcases valid with rfl | ⟨hbuf, hlen⟩
      · refine .closing hc (.sending rfl hm hlast) rfl sd hlog ?_
        change s.block .close ∈ s.accepted
        rw [log]
        exact List.mem_append_right _ (List.mem_singleton_self _)
      · exact .taken r hc (.sending rfl hm (sd ▸ hlen) hlast) rfl sd hbuf hlen hlog

theorem Phase.senderStep (hs : Phase s) (h : senderStep s = some t) : Phase t := by
  cases hs with
  | start hc hs hm hw log =>
      simp only [HandOff.senderStep, hs, hm, if_true] at h
      obtain rfl := Option.some.inj h
      exact .barrier hc rfl rfl hw log
  | barrier hc hs => simp [HandOff.senderStep, hs] at h
  | free hc hs hw log =>
      obtain ⟨rfl, htop⟩ := hs.senderStep_eq h
      exact .free (hc.move rfl rfl nofun fun _ => rfl) (.asleep rfl rfl) hw log
  | inside hc hs => simp [HandOff.senderStep, hs] at h
  | handing r hr sd valid log => exact hr.senderStep_phase sd valid log h
  | taken r hc hs hw sd block len log =>
      obtain ⟨rfl, -⟩ := hs.senderStep_eq h
      exact .taken r hc (.asleep rfl rfl) hw sd block len log
  | closing hc hs hw sd log mem =>
      obtain rfl := hs.senderStep_eq h
      exact .closing hc (.exited rfl rfl) hw sd log mem
  | leaving hc hs hw sd log mem =>
      obtain rfl := hs.senderStep_eq h
      exact .leaving hc (.exited rfl rfl) hw sd log mem
  | joined hc hs => simp [HandOff.senderStep, hs] at h

theorem Phase.sent (hs : Phase s) (hsending : s.sender = .sending) (failed : Bool) :
    Phase { s with
      ret := failed, sender := if s.sd.len = 0 ∧ s.sd.pos = 0 then .exit else .top } := by
  -- A block has a length, so that the sender goes on.
  have hrest (h : Resting s) : s.mutex = some .sender ∧
      (if s.sd.len = 0 ∧ s.sd.pos = 0 then SenderPc.exit else .top) = .top := by
    cases h with
    | sending _ hm len => exact ⟨hm, if_neg fun h => len h.1⟩
    | top hs => exact nomatch hs.symm.trans hsending
    | asleep hs => exact nomatch hs.symm.trans hsending
  have hleave (h : Leaving s) (sd : s.sd = .close) : s.mutex = some .sender ∧
      (if s.sd.len = 0 ∧ s.sd.pos = 0 then SenderPc.exit else .top) = .exit := by
    refine ⟨?_, if_pos (by simp [sd, Request.close])⟩
    cases h with
    | sending _ hm => exact hm
    | exit hs => exact nomatch hs.symm.trans hsending
    | exited hs => exact nomatch hs.symm.trans hsending
  cases hs with
  | start hc hs => exact nomatch hs.symm.trans hsending
  | barrier hc hs => exact nomatch hs.symm.trans hsending
  | free hc hs hw log =>
      obtain ⟨hm, htop⟩ := hrest hs
      rw [htop]
      exact .free (hc.move rfl rfl nofun fun h => nomatch h.symm.trans hsending)
        (.top rfl hm) hw log
  | inside hc hs => exact nomatch hs.symm.trans hsending
  | handing r hr => exact absurd (hsending ▸ hr) Handing.not_sending
  | taken r hc hs hw sd block len log =>
      obtain ⟨hm, htop⟩ := hrest hs
      rw [htop]
      exact .taken r hc (.top rfl hm) hw sd block len log
  | closing hc hs hw sd log mem =>
      obtain ⟨hm, hexit⟩ := hleave hs sd
      rw [hexit]
      exact .closing hc (.exit rfl hm) hw sd log mem
  | leaving hc hs hw sd log mem =>
      obtain ⟨hm, hexit⟩ := hleave hs sd
      rw [hexit]
      exact .leaving hc (.exit rfl hm) hw sd log mem
  | joined hc hs => exact nomatch hs.symm.trans hsending

/-! ## What the caller does next -/

theorem Phase.idle {d : Bool} (hs : Phase s) (hc : s.caller = .idle d) :
    Resting s ∧ s.waitMutex = some .caller ∧ s.accepted = s.passed ∧
      (d = true → s.sender = .asleep) ∧ (s.sender = .sending → s.sd.buf = some s.cur) := by
  cases hs with
  | start hc' => exact nomatch hc'.symm.trans hc
  | barrier hc' => exact nomatch hc'.symm.trans hc
  | free hfree hs hw log =>
      refine ⟨hs, hw, log, ?_⟩
      cases hfree with
      | idle hc' buf => exact ⟨fun hd => (by subst hd; exact nomatch hc'.symm.trans hc), buf⟩
      | drained _ hasleep => exact ⟨fun _ => hasleep, fun h => nomatch hasleep.symm.trans h⟩
      | lock r hc' => exact nomatch hc'.symm.trans hc
      | lockClose hc' => exact nomatch hc'.symm.trans hc
      | drainLock hc' => exact nomatch hc'.symm.trans hc
      | failed hc' => exact nomatch hc'.symm.trans hc
  | inside hin =>
      cases hin with
      | check r hc' => exact nomatch hc'.symm.trans hc
      | refused r hc' => exact nomatch hc'.symm.trans hc
      | drainUnlock hc' => exact nomatch hc'.symm.trans hc
  | handing r hr => exact absurd (hc ▸ hr) Handing.not_idle
  | taken r hc' => exact nomatch hc'.symm.trans hc
  | closing hc' => exact nomatch hc'.symm.trans hc
  | leaving hc' => exact nomatch hc'.symm.trans hc
  | joined hc' => exact nomatch hc'.symm.trans hc

/-- The other buffer keeps its bytes. -/
theorem block_fill (data : List UInt8) {r : Request} (h : r.buf = some s.cur) :
    (s.fill data).block r = s.block r := by
  have hbuf : Function.update s.iobuf (!s.cur) data s.cur = s.iobuf s.cur :=
    Function.update_of_ne (by simp) _ _
  simp only [State.block, State.fill, h, Option.elim, hbuf]

theorem Phase.fill (data : List UInt8) (pos : ℕ) {d : Bool} (hs : Phase s)
    (hc : s.caller = .idle d) (hdata : data ≠ []) :
    Phase { s.fill data with caller := .lock ⟨some (!s.cur), data.length, pos⟩ } := by
  obtain ⟨hrest, hw, log, -, hbuf⟩ := hs.idle hc
  refine .free (.lock _ rfl rfl (by simpa using hdata) fun h => ?_) ?_ hw log
  · change s.sd.buf = some !!s.cur
    rw [hbuf h, Bool.not_not]
  · exact hrest.of_eq rfl rfl rfl rfl fun h => block_fill data (hbuf h)

theorem Phase.header (data : List UInt8) (hs : Phase s) (hc : s.caller = .idle true) :
    Phase (s.fill data) := by
  obtain ⟨hrest, hw, log, hasleep, -⟩ := hs.idle hc
  refine .free (.drained hc (hasleep rfl)) ?_ hw log
  exact hrest.of_eq rfl rfl rfl rfl fun h => nomatch (hasleep rfl).symm.trans h

theorem Phase.barrier_open (hs : Phase s) (hc : s.caller = .barrier) (hb : s.sender = .barrier) :
    Phase { s with caller := .idle false, sender := .top } := by
  cases hs with
  | start _ hs => exact nomatch hs.symm.trans hb
  | barrier _ _ hm hw log => exact .free (.idle rfl nofun) (.top rfl hm) hw log
  | free hfree hs =>
      cases hs with
      | top hs => exact nomatch hs.symm.trans hb
      | asleep hs => exact nomatch hs.symm.trans hb
      | sending hs => exact nomatch hs.symm.trans hb
  | inside _ hs => exact nomatch hs.symm.trans hb
  | handing r hr => exact absurd (hc ▸ hr) Handing.not_barrier
  | taken r hc' => exact nomatch hc'.symm.trans hc
  | closing hc' => exact nomatch hc'.symm.trans hc
  | leaving hc' => exact nomatch hc'.symm.trans hc
  | joined hc' => exact nomatch hc'.symm.trans hc

end Step

/-! ## Every step keeps to the phases -/

theorem phase_step {s t : State} {a : Action} (hs : Phase s) (ha : Allowed a s)
    (h : step a s = some t) : Phase t := by
  unfold step at h
  split at h
  case h_1 data pos d hc =>
    split at h
    case isTrue => cases h
    case isFalse hdata =>
      obtain rfl := Option.some.inj h
      exact hs.fill data pos hc hdata
  case h_2 d hc =>
    obtain rfl := Option.some.inj h
    obtain ⟨hrest, hw, log, -⟩ := hs.idle hc
    exact .free (.drainLock rfl) (hrest.of_eq rfl rfl rfl rfl fun _ => rfl) hw log
  case h_3 d hc =>
    obtain rfl := Option.some.inj h
    obtain ⟨hrest, hw, log, -⟩ := hs.idle hc
    exact .free (.drainLock rfl) (hrest.of_eq rfl rfl rfl rfl fun _ => rfl) hw log
  case h_4 data hc =>
    obtain rfl := Option.some.inj h
    exact hs.header data hc
  case h_5 hc =>
    obtain rfl := Option.some.inj h
    obtain ⟨hrest, hw, log, hasleep, -⟩ := hs.idle hc
    refine .free (.lockClose rfl (hasleep rfl)) ?_ hw log
    exact hrest.of_eq rfl rfl rfl rfl fun _ => rfl
  case h_6 d hc =>
    obtain rfl := Option.some.inj h
    obtain ⟨hrest, hw, log, -⟩ := hs.idle hc
    exact .free (.failed rfl) (hrest.of_eq rfl rfl rfl rfl fun _ => rfl) hw log
  case h_7 hc hb =>
    obtain rfl := Option.some.inj h
    exact hs.barrier_open hc hb
  case h_8 => exact hs.callerStep ha.2 h
  case h_9 => exact hs.senderStep h
  case h_10 failed hsending =>
    obtain rfl := Option.some.inj h
    exact hs.sent hsending failed
  case h_11 => exact absurd trivial ha.1
  case h_12 => exact absurd trivial ha.1
  case h_13 => cases h

/-! ## No deadlock -/

section Enabled

variable {s : State}

theorem enabled_caller (h : (callerStep s).isSome) : Enabled s := ⟨.caller, trivial, h⟩

theorem enabled_sender (h : (senderStep s).isSome) : Enabled s := ⟨.sender, trivial, h⟩

theorem enabled_sending (h : s.sender = .sending) : Enabled s :=
  ⟨.sent false, trivial, by simp only [step, h, Option.isSome_some]⟩

theorem Resting.enabled (hs : Resting s) (h : s.sender = .asleep → s.mutex = none → Enabled s) :
    Enabled s := by
  cases hs with
  | top hs => exact enabled_sender (by simp only [senderStep, hs, Option.isSome_some])
  | asleep hs hm => exact h hs hm
  | sending hs => exact enabled_sending hs

theorem Leaving.enabled (hs : Leaving s) (h : s.sender = .exited → Enabled s) : Enabled s := by
  cases hs with
  | sending hs => exact enabled_sending hs
  | exit hs => exact enabled_sender (by simp only [senderStep, hs, Option.isSome_some])
  | exited hs => exact h hs

theorem Handing.enabled {r : Request} (h : Handing r s.caller s.sender s.mutex s.waitMutex) :
    Enabled s := by
  generalize hc : s.caller = c at h
  generalize hs : s.sender = p at h
  generalize hm : s.mutex = m at h
  generalize hw : s.waitMutex = w at h
  cases h with
  | signal => exact enabled_caller (by simp only [callerStep, hc, Option.isSome_some])
  | unlock => exact enabled_caller (by simp only [callerStep, hc, Option.isSome_some])
  | wait => exact enabled_caller (by simp only [callerStep, hc, Option.isSome_some])
  | waitLocked => exact enabled_caller (by simp only [callerStep, hc, Option.isSome_some])
  | asleep => exact enabled_sender (by simp only [senderStep, hs, hm, if_true, Option.isSome_some])
  | asleepLocked =>
      exact enabled_sender (by simp only [senderStep, hs, hw, if_true, Option.isSome_some])
  | answer => exact enabled_sender (by simp only [senderStep, hs, Option.isSome_some])
  | answered => exact enabled_sender (by simp only [senderStep, hs, Option.isSome_some])

theorem Free.enabled (hc : Free s) (hs : Resting s) (h : s.caller.Busy) : Enabled s := by
  refine hs.enabled fun _ hm => ?_
  cases hc with
  | idle hc => exact absurd h (hc ▸ id)
  | drained hc => exact absurd h (hc ▸ id)
  | lock r hc =>
      exact enabled_caller (by simp only [callerStep, hc, hm, if_true, Option.isSome_some])
  | lockClose hc =>
      exact enabled_caller (by simp only [callerStep, hc, hm, if_true, Option.isSome_some])
  | drainLock hc =>
      exact enabled_caller (by simp only [callerStep, hc, hm, if_true, Option.isSome_some])
  | failed hc => exact absurd h (hc ▸ id)

theorem Inside.enabled (hc : Inside s) : Enabled s := by
  cases hc with
  | check r hc =>
      apply enabled_caller
      simp only [callerStep, hc]
      split <;> rfl
  | refused r hc => exact enabled_caller (by simp only [callerStep, hc, Option.isSome_some])
  | drainUnlock hc => exact enabled_caller (by simp only [callerStep, hc, Option.isSome_some])

theorem Phase.enabled (hs : Phase s) (h : s.caller.Busy) : Enabled s := by
  cases hs with
  | start hc hs hm =>
      exact enabled_sender (by simp only [HandOff.senderStep, hs, hm, if_true, Option.isSome_some])
  | barrier hc hs => exact ⟨.barrier, trivial, by simp only [step, hc, hs, Option.isSome_some]⟩
  | free hc hs => exact hc.enabled hs h
  | inside hc => exact hc.enabled
  | handing r hr => exact hr.enabled
  | taken r hc hs hw =>
      exact enabled_caller (by simp only [HandOff.callerStep, hc, hw, if_true, Option.isSome_some])
  | closing hc hs hw =>
      exact enabled_caller (by simp only [HandOff.callerStep, hc, hw, if_true, Option.isSome_some])
  | leaving hc hs =>
      exact hs.enabled fun hs =>
        enabled_caller (by simp only [HandOff.callerStep, hc, hs, if_true, Option.isSome_some])
  | joined hc => exact absurd h (hc ▸ id)

end Enabled

/-! ## Every call ends -/

section Rank

variable {s t : State}

theorem Request.rank_after (r : Request) : r.after.rank ≤ 1 := by
  unfold Request.after
  split <;> simp [CallerPc.rank]

/-- Waking the sender is paid for by the caller. -/
theorem rank_wake (p : SenderPc) :
    (if p = .asleep then SenderPc.awake else p).rank ≤ p.rank + 6 := by
  split
  case isTrue h => simp [h, SenderPc.rank]
  case isFalse => exact Nat.le_add_right _ _

theorem callerStep_rank (h : callerStep s = some t) : t.rank < s.rank := by
  unfold callerStep at h
  cases hc : s.caller with
  | signal r =>
      simp only [hc, Option.some.injEq] at h
      subst h
      have hwake := rank_wake s.sender
      simp only [State.rank, hc, CallerPc.rank]
      omega
  | awake r =>
      simp only [hc, Option.ite_none_right_eq_some, Option.some.injEq] at h
      obtain ⟨-, rfl⟩ := h
      have hafter := r.rank_after
      have hawake : (CallerPc.awake r).rank = 7 := rfl
      simp only [State.rank, hc]
      omega
  | check r =>
      simp only [hc] at h
      split at h <;> obtain rfl := Option.some.inj h <;> simp [State.rank, hc, CallerPc.rank]
  | refused r =>
      simp only [hc, Option.some.injEq] at h
      subst h
      simp only [State.rank, hc]
      split <;> simp [CallerPc.rank]
  | idle | joined | failed | barrier | asleep => simp [hc] at h
  | lock r =>
      simp only [hc, Option.ite_none_right_eq_some, Option.some.injEq] at h
      obtain ⟨-, rfl⟩ := h
      simp [State.rank, hc, CallerPc.rank]
  | drainLock =>
      simp only [hc, Option.ite_none_right_eq_some, Option.some.injEq] at h
      obtain ⟨-, rfl⟩ := h
      simp [State.rank, hc, CallerPc.rank]
  | join =>
      simp only [hc, Option.ite_none_right_eq_some, Option.some.injEq] at h
      obtain ⟨-, rfl⟩ := h
      simp [State.rank, hc, CallerPc.rank]
  | unlock r | wait r | drainUnlock =>
      simp only [hc, Option.some.injEq] at h
      subst h
      simp [State.rank, hc, CallerPc.rank]

theorem senderStep_rank (h : senderStep s = some t) : t.rank < s.rank := by
  unfold senderStep at h
  cases hs : s.sender with
  | start | awake | wakeup =>
      simp only [hs, Option.ite_none_right_eq_some, Option.some.injEq] at h
      obtain ⟨-, rfl⟩ := h
      simp [State.rank, hs, SenderPc.rank]
  | signal =>
      simp only [hs, Option.some.injEq] at h
      subst h
      simp only [State.rank, hs, SenderPc.rank]
      split
      case h_1 r hc => simp [hc, CallerPc.rank]
      case h_2 => omega
  | top | unlock | exit =>
      simp only [hs, Option.some.injEq] at h
      subst h
      simp [State.rank, hs, SenderPc.rank]
  | barrier | asleep | sending | exited => simp [hs] at h

theorem step_rank {a : Action} (ha : a.Internal) (h : step a s = some t) : t.rank < s.rank := by
  unfold step at h
  split at h
  case h_7 hc hb =>
    obtain rfl := Option.some.inj h
    simp [State.rank, hc, hb, CallerPc.rank, SenderPc.rank]
  case h_8 => exact callerStep_rank h
  case h_9 => exact senderStep_rank h
  case h_10 failed hs =>
    obtain rfl := Option.some.inj h
    simp only [State.rank, hs]
    split <;> simp [SenderPc.rank]
  case h_13 => cases h
  all_goals exact ha.elim

end Rank

/-! ## Good runs -/

theorem Phase.ended {s : State} (hs : Phase s) (hc : s.caller = .join ∨ s.caller = .joined) :
    s.accepted = s.passed ∧ (s.caller = .join → s.block .close ∈ s.accepted) := by
  have hne {c : CallerPc} (h : s.caller = c) (hj : c ≠ .join) (hd : c ≠ .joined) : False :=
    hc.elim (fun h' => hj (h.symm.trans h')) fun h' => hd (h.symm.trans h')
  cases hs with
  | start hc => exact (hne hc nofun nofun).elim
  | barrier hc => exact (hne hc nofun nofun).elim
  | free hc =>
      cases hc with
      | idle hc => exact (hne hc nofun nofun).elim
      | drained hc => exact (hne hc nofun nofun).elim
      | lock r hc => exact (hne hc nofun nofun).elim
      | lockClose hc => exact (hne hc nofun nofun).elim
      | drainLock hc => exact (hne hc nofun nofun).elim
      | failed hc => exact (hne hc nofun nofun).elim
  | inside hc =>
      cases hc with
      | check r hc => exact (hne hc nofun nofun).elim
      | refused r hc => exact (hne hc nofun nofun).elim
      | drainUnlock hc => exact (hne hc nofun nofun).elim
  | handing r hr => exact (hr.not_ended hc).elim
  | taken r hc => exact (hne hc nofun nofun).elim
  | closing hc => exact (hne hc nofun nofun).elim
  | leaving _ _ _ _ log mem => exact ⟨log, fun _ => mem⟩
  | joined hc _ log => exact ⟨log, fun h => nomatch hc.symm.trans h⟩

theorem Phase.right {s : State} (hs : Phase s) : Right s where
  order := by
    have hnil (log : s.accepted = s.passed) :
        ∃ rest, s.accepted = s.passed ++ rest ∧ rest.length ≤ 1 :=
      ⟨[], log.trans (List.append_nil _).symm, Nat.zero_le _⟩
    cases hs with
    | handing r _ _ _ log => exact ⟨_, log, le_rfl⟩
    | start _ _ _ _ log => exact hnil log
    | barrier _ _ _ _ log => exact hnil log
    | free _ _ _ log => exact hnil log
    | inside _ _ _ _ log => exact hnil log
    | taken _ _ _ _ _ _ _ log => exact hnil log
    | closing _ _ _ _ log => exact hnil log
    | leaving _ _ _ _ log => exact hnil log
    | joined _ _ log => exact hnil log
  intact hsending := by
    have hrest (h : Resting s) : s.passed.getLast? = some (s.block s.sd) := by
      cases h with
      | sending _ _ _ last => exact last
      | top hs => exact nomatch hs.symm.trans hsending
      | asleep hs => exact nomatch hs.symm.trans hsending
    have hleave (h : Leaving s) : s.passed.getLast? = some (s.block s.sd) := by
      cases h with
      | sending _ _ last => exact last
      | exit hs => exact nomatch hs.symm.trans hsending
      | exited hs => exact nomatch hs.symm.trans hsending
    cases hs with
    | handing r hr => exact absurd (hsending ▸ hr) Handing.not_sending
    | start _ hs => exact nomatch hs.symm.trans hsending
    | barrier _ hs => exact nomatch hs.symm.trans hsending
    | free _ hs => exact hrest hs
    | inside _ hs => exact nomatch hs.symm.trans hsending
    | taken _ _ hs => exact hrest hs
    | closing _ hs => exact hleave hs
    | leaving _ hs => exact hleave hs
    | joined _ hs => exact nomatch hs.symm.trans hsending
  delivered := by
    rintro (hc | hc)
    · exact (hs.idle hc).2.2.1.symm
    · exact (hs.ended (Or.inr hc)).1.symm
  live := hs.enabled
  ends _ _ := step_rank
  join hc := (hs.ended (Or.inl hc)).2 hc

/-- Without spurious wake-ups, and with no failed last send when the thread is to end,
every block reaches `send_buf` once and whole, and no call hangs. -/
theorem handOff_right (iobuf : Bool → List UInt8) {s : State}
    (h : Reach step Allowed (.new iobuf) s) : Right s :=
  (h.invariant (phase_new iobuf) fun hs ha hstep => phase_step hs ha hstep).right

/-! ## Bad runs -/

/-- One block, up to the point where `send_buf` has it. -/
def oneBlock : List Action :=
  [.sender, .barrier, .sender, .block [7] 0, .caller, .caller, .caller, .caller, .caller,
    .sender, .sender, .sender, .sender, .caller]

/-- `wait_sender` and the end of the thread. -/
def ending : List Action := [.sender, .drain, .caller, .caller, .stop, .caller, .caller]

theorem handOff_right_small : ∃ s, Reach step Allowed (.new fun _ => []) s ∧
    s.caller = .signal .close ∧ Right s := by
  have hrun : (run step Allowed (oneBlock ++ .sent false :: ending) (.new fun _ => [])).map
      (·.caller) = some (.signal .close) := by decide
  obtain ⟨s, hs, hcaller⟩ := Option.map_eq_some_iff.mp hrun
  exact ⟨s, reach_run hs, hcaller, handOff_right (fun _ => []) (reach_run hs)⟩

/-- The sender has `mutex` and wants `wait_mutex`, and the caller the other way round. -/
theorem not_enabled_of_crossed {s : State} {r : Request} (hc : s.caller = .lock r)
    (hs : s.sender = .wakeup) (hm : s.mutex = some .sender) (hw : s.waitMutex = some .caller) :
    ¬ Enabled s := by
  rintro ⟨a, ha, hstep⟩
  cases a with
  | caller => simp [step, callerStep, hc, hm] at hstep
  | sender => simp [step, senderStep, hs, hw] at hstep
  | barrier => simp [step, hc] at hstep
  | sent => simp [step, hs] at hstep
  | _ => exact ha

/-- A failed last send lets `ploop_copy_stop` wait for ever without any spurious wake-up,
and one spurious wake-up of the sender stops both threads without any failure. -/
theorem handOff_not_right :
    (¬ ∀ iobuf s, Reach step (fun a _ => ¬ a.Spurious) (.new iobuf) s → Right s) ∧
      ¬ ∀ iobuf s, Reach step (fun _ s => s.ret = false) (.new iobuf) s → Right s := by
  constructor
  · intro h
    have hrun : (run step (fun a _ => ¬ a.Spurious)
        (oneBlock ++ .sent true :: ending ++ [.caller]) (.new fun _ => [])).map
        (fun s => (s.caller, s.accepted)) = some (.join, [⟨[7], 1, 0⟩]) := by decide
    obtain ⟨s, hs, heq⟩ := Option.map_eq_some_iff.mp hrun
    obtain ⟨hcaller, haccepted⟩ := Prod.mk.inj heq
    have hmem := (h _ s (reach_run hs)).join hcaller
    rw [haccepted] at hmem
    exact absurd (List.mem_singleton.mp hmem) (by simp [State.block, Request.close])
  · intro h
    have hrun : (run step (fun _ s => s.ret = false)
        [.sender, .barrier, .sender, .spuriousSender, .sender, .block [7] 0]
        (.new fun _ => [])).map (fun s => (s.caller, s.sender, s.mutex, s.waitMutex)) =
          some (.lock ⟨some true, 1, 0⟩, .wakeup, some .sender, some .caller) := by decide
    obtain ⟨s, hs, heq⟩ := Option.map_eq_some_iff.mp hrun
    obtain ⟨hcaller, heq⟩ := Prod.mk.inj heq
    obtain ⟨hsender, heq⟩ := Prod.mk.inj heq
    obtain ⟨hmutex, hwait⟩ := Prod.mk.inj heq
    have hlive := (h _ s (reach_run hs)).live (hcaller ▸ trivial)
    exact not_enabled_of_crossed hcaller hsender hmutex hwait hlive

end Ploop.HandOff
