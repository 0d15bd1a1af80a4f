import Ploop.Copy.Sender

/-!
# When a copy that reports success is complete

A run that returns 0 has looked at the outcome of every packet but the last.
What it can miss is a packet the receiver refused, one it dropped without a
reply being due, and the end of the transfer.
-/

namespace Ploop.Wire

open Program

/-! ## The outcome of one packet -/

/-- The code that a packet with its answer gives to the sender. -/
def verdict (remote : Bool) (e : Packet × Answer) : Option Sysexit :=
  if remote then
    if e.2 = .unsent then some .write
    else if e.1.type ≠ .dataAsync ∧ e.2.replySize ≠ 4 then some .protocol
    else none
  else if e.2.Done then none else some .write

/-- The packet failed and nothing in the sender can tell: a reply with a code
other than 0, or no word from the receiver where none is due. -/
def Overlooked (remote : Bool) (e : Packet × Answer) : Prop :=
  remote = true ∧ match e.2 with
    | .unsent => False
    | .silent processed => processed = false ∧ e.1.type = .dataAsync
    | .replied rc => rc ≠ 0

theorem overlooked_iff {remote : Bool} {e : Packet × Answer} :
    Overlooked remote e ↔ verdict remote e = none ∧ ¬ e.2.Done := by
  obtain ⟨p, a⟩ := e
  cases remote with
  | false =>
      unfold Overlooked verdict
      by_cases hd : a.Done <;> simp [hd]
  | true =>
      cases a with
      | unsent => simp [Overlooked, verdict, Answer.Done]
      | silent processed =>
          cases processed <;> by_cases ht : p.type = .dataAsync <;>
            simp [Overlooked, verdict, Answer.Done, Answer.replySize, ht]
      | replied rc => simp [Overlooked, verdict, Answer.Done, Answer.replySize]

/-! ## What a run keeps track of -/

/-- The thread is up, and unless it has an error to tell, every packet since
`before` gave the code 0. -/
structure Heard (r : Bool) (before : List (Packet × Answer)) (s : Sender) : Prop where
  remote : s.isRemote = r
  running : s.exited = false
  log : ∃ l, s.sent = before ++ l ∧ (s.sdRet = none → ∀ e ∈ l, verdict r e = none)

/-- A piece of the sender that hands over any number of packets and stops at the
first bad one that it does not leave to the thread. -/
def Hears {α : Type} (x : SendM α) : Prop :=
  ∀ remote before, Triple (Heard remote before) x (fun _ => Heard remote before) fun _ => True

namespace Hears

variable {α β : Type}

theorem pure (a : α) : Hears (Pure.pure a : SendM α) := fun _ _ => Triple.ret fun _ hs => hs

theorem throw (e : Ending) : Hears (throw e : SendM α) := fun _ _ =>
  Triple.raise fun _ _ => True.intro

theorem bind {x : SendM α} {f : α → SendM β} (hx : Hears x) (hf : ∀ a, Hears (f a)) :
    Hears (x >>= f) := fun remote before =>
  Triple.bind (hx remote before) fun a => hf a remote before

theorem ite {c : Prop} [Decidable c] {x y : SendM α} (hx : Hears x) (hy : Hears y) :
    Hears (if c then x else y) := by
  split
  · exact hx
  · exact hy

theorem get : Hears (get : SendM Sender) := fun _ _ => Triple.read fun _ hs => hs

theorem modify {f : Sender → Sender} (hf : ∀ s, (f s).isRemote = s.isRemote ∧
    (f s).exited = s.exited ∧ (f s).sent = s.sent ∧ (f s).sdRet = s.sdRet) :
    Hears (modify f : SendM PUnit) := fun _ _ => Triple.update fun s hs => by
  obtain ⟨h₁, h₂, h₃, h₄⟩ := hf s
  exact ⟨h₁.trans hs.remote, h₂.trans hs.running, by rw [h₃, h₄]; exact hs.log⟩

end Hears

section Sender

variable (o : Outside)

theorem hears_tick : Hears tick := by
  refine Hears.get.bind fun s => Hears.bind (Hears.modify fun s => ?_) fun _ => Hears.pure _
  exact ⟨rfl, rfl, rfl, rfl⟩

theorem hears_call (e : Ending) : Hears (call o e) :=
  hears_tick.bind fun _ => Hears.ite (Hears.pure _) (Hears.throw _)

theorem hears_liftExcept {α : Type} (r : Except Ending α) : Hears (liftExcept r) := by
  cases r with
  | ok a => exact Hears.pure a
  | error e => exact Hears.throw e

/-! ## Handing over -/

/-- One packet with its answer is added and its verdict returned. -/
def Sent (size pos : ℕ) (s : Sender) (rc : Option Sysexit) (s' : Sender) : Prop :=
  ∃ p a, p.size = size ∧ p.pos = pos ∧ s' = { s with sent := s.sent ++ [(p, a)] } ∧
    rc = verdict s.isRemote (p, a)

variable {E : Sender → Prop}

theorem remoteWrite_spec {s : Sender} (hs : s.isRemote = true) (p : Packet) :
    Triple (fun s' => s' = s) (remoteWrite o p) (Sent p.size p.pos s) E := by
  refine Triple.bind (R := fun a s' => s' = { s with sent := s.sent ++ [(p, a)] })
    (Triple.look fun t ht => Triple.step (Triple.ret fun _ h => ht ▸ h)) fun a => ?_
  cases a with
  | unsent => exact Triple.ret fun s' h => ⟨p, _, rfl, rfl, h, by simp [verdict, hs]⟩
  | silent processed =>
      by_cases ht : p.type = .dataAsync
      · simp only [ne_eq, ht, not_true_eq_false, if_false]
        exact Triple.ret fun s' h => ⟨p, _, rfl, rfl, h, by simp [verdict, hs, ht]⟩
      · simp only [ne_eq, ht, not_false_eq_true, if_true]
        exact Triple.ret fun s' h =>
          ⟨p, _, rfl, rfl, h, by simp [verdict, hs, ht, Answer.replySize]⟩
  | replied rc =>
      by_cases ht : p.type = .dataAsync
      · simp only [ne_eq, ht, not_true_eq_false, if_false]
        exact Triple.ret fun s' h => ⟨p, _, rfl, rfl, h, by simp [verdict, hs, ht]⟩
      · simp only [ne_eq, ht, not_false_eq_true, if_true]
        exact Triple.ret fun s' h =>
          ⟨p, _, rfl, rfl, h, by simp [verdict, hs, Answer.replySize]⟩

theorem localWrite_spec {s : Sender} (hs : s.isRemote = false) (p : Packet) :
    Triple (fun s' => s' = s) (localWrite o p) (Sent p.size p.pos s) E := by
  refine Triple.bind (R := fun a s' => s' = { s with sent := s.sent ++ [(p, a)] })
    (Triple.look fun t ht => Triple.step (Triple.ret fun _ h => ht ▸ h)) fun a => ?_
  by_cases hd : a.Done
  · rw [if_pos hd]
    exact Triple.ret fun s' h => ⟨p, _, rfl, rfl, h, by simp [verdict, hs, hd]⟩
  · rw [if_neg hd]
    exact Triple.ret fun s' h => ⟨p, _, rfl, rfl, h, by simp [verdict, hs, hd]⟩

theorem sendBuf_spec (size pos : ℕ) (s : Sender) :
    Triple (fun s' => s' = s) (sendBuf o size pos) (Sent size pos s) E := by
  refine Triple.look fun t ht => ?_
  subst ht
  by_cases hr : t.isRemote = true
  · rw [if_pos hr]
    exact remoteWrite_spec o hr ⟨_, size, pos⟩
  · rw [if_neg hr]
    exact localWrite_spec o (Bool.not_eq_true _ ▸ hr) ⟨_, size, pos⟩

theorem sendCmd_spec (s : Sender) : Triple (fun s' => s' = s) (sendCmd o) (Sent 4 0 s) E := by
  refine Triple.look fun t ht => ?_
  subst ht
  by_cases hr : t.isRemote = true
  · rw [if_pos hr]
    exact remoteWrite_spec o hr ⟨.cmd, 4, 0⟩
  · rw [if_neg hr]
    exact localWrite_spec o (Bool.not_eq_true _ ▸ hr) ⟨.cmd, 4, 0⟩

/-- Where the code of a packet is looked at, only a good packet gets past. -/
theorem Heard.sent {remote : Bool} {before : List (Packet × Answer)} {s s' : Sender} {size pos : ℕ}
    (hs : Heard remote before s) (hsent : Sent size pos s none s') : Heard remote before s' := by
  obtain ⟨p, a, -, -, hs', hv⟩ := hsent
  obtain ⟨l, hl, hgood⟩ := hs.log
  subst hs'
  refine ⟨hs.remote, hs.running, l ++ [(p, a)], ?_, fun hnone e he => ?_⟩
  · simp only [hl, List.append_assoc]
  · rcases List.mem_append.mp he with he | he
    · exact hgood hnone e he
    · rw [List.mem_singleton.mp he, ← hs.remote, ← hv]

/-- `if (send_buf(...)) goto err` -/
theorem Hears.checked {α : Type} {x : SendM (Option Sysexit)} {f : Option Sysexit → SendM α}
    {size pos : ℕ} (hx : ∀ s, Triple (fun s' => s' = s) x (Sent size pos s) fun _ => True)
    (hbad : ∀ rc, ∃ e, f (some rc) = MonadExcept.throw e) (hgood : Hears (f none)) :
    Hears (x >>= f) := by
  intro remote before
  refine Triple.start fun s hs => Triple.bind (hx s) fun rc => ?_
  cases rc with
  | none => exact (hgood remote before).conseq (fun s' h => hs.sent h) (fun _ _ h => h) fun _ h => h
  | some rc =>
      obtain ⟨e, he⟩ := hbad rc
      rw [he]
      exact Triple.raise fun _ _ => True.intro

/-- A packet sent by the thread: everything before it was good, and its own code
is left in `sd.ret`. -/
def Turned (r : Bool) (before : List (Packet × Answer)) (size pos : ℕ) (s : Sender) : Prop :=
  ∃ l p a, p.size = size ∧ p.pos = pos ∧ s.isRemote = r ∧ s.exited = decide (size = 0 ∧ pos = 0) ∧
    s.sent = before ++ (l ++ [(p, a)]) ∧ (∀ e ∈ l, verdict r e = none) ∧ s.sdRet = verdict r (p, a)

variable {r : Bool} {before : List (Packet × Answer)} {size pos : ℕ}

theorem Heard.turned {s s' : Sender} {rc : Option Sysexit} (hs : Heard r before s)
    (hnone : s.sdRet = none) (hsent : Sent size pos s rc s') :
    Turned r before size pos { s' with sdRet := rc, exited := size = 0 ∧ pos = 0 } := by
  obtain ⟨p, a, hsize, hpos, hs', hrc⟩ := hsent
  obtain ⟨l, hl, hgood⟩ := hs.log
  subst hs'
  refine ⟨l, p, a, hsize, hpos, hs.remote, rfl, ?_, hgood hnone, hs.remote ▸ hrc⟩
  simp only [hl, List.append_assoc]

theorem Turned.heard {s : Sender} (hs : Turned r before size pos s) (hsize : size ≠ 0) :
    Heard r before s := by
  obtain ⟨l, p, a, -, -, hr, hexit, hsent, hgood, hret⟩ := hs
  refine ⟨hr, by simpa [hsize] using hexit, _, hsent, fun hnone e he => ?_⟩
  rcases List.mem_append.mp he with he | he
  · exact hgood e he
  · rw [List.mem_singleton.mp he, ← hret, hnone]

theorem senderTurn_spec : Triple (fun s => Heard r before s ∧ s.sdRet = none)
    (senderTurn o size pos) (fun _ => Turned r before size pos) fun _ => True :=
  Triple.start fun s ⟨hs, hnone⟩ => Triple.bind (sendBuf_spec o size pos s) fun _ =>
    Triple.update fun _ hsent => hs.turned hnone hsent

theorem hears_sendAsync (hsize : size ≠ 0) : Hears (do orFail (← sendAsync o size pos)) := by
  intro r before
  refine Triple.bind (R := fun rc s => rc = none → Heard r before s) ?_ fun rc => ?_
  · refine Triple.look fun s hs => ?_
    cases hret : s.sdRet with
    | some rc => exact Triple.ret fun _ _ h => absurd h (Option.some_ne_none rc)
    | none =>
        exact Triple.bind ((senderTurn_spec o).conseq (fun s' h => h ▸ ⟨hs, hret⟩) (fun _ _ h => h)
          fun _ h => h) fun _ => Triple.ret fun _ h _ => h.heard hsize
  · cases rc with
    | none => exact Triple.ret fun _ h => h rfl
    | some rc => exact Triple.raise fun _ _ => True.intro

/-! ## `ploop-copy.c` -/

theorem hears_sendImageBlock : Hears (sendImageBlock o size pos) := by
  refine hears_tick.bind fun t => ?_
  rcases o.pread t size pos with _ | _ | n
  · exact Hears.throw _
  · exact Hears.pure _
  · have hsend : Hears (sendAsync o (n + 1) pos >>= orFail) := hears_sendAsync o n.succ_ne_zero
    change Hears (sendAsync o (n + 1) pos >>= fun rc => orFail rc >>= fun _ => pure (n + 1))
    rw [← bind_assoc]
    exact hsend.bind fun _ => Hears.pure _

theorem hears_extentLoop (fuel : ℕ) {pos last : ℕ} : Hears (extentLoop o fuel pos last) := by
  induction fuel generalizing pos with
  | zero => exact Hears.throw _
  | succ fuel ih =>
      refine Hears.ite (Hears.get.bind fun s => ?_) (Hears.pure _)
      have hblock : Hears (do
          let n ← sendImageBlock o (min (last - pos) s.cluster) pos
          if n ≠ min (last - pos) s.cluster then throw (.exit .read)
          else do
            modify fun s => { s with eofOffset := max s.eofOffset (pos + n) }
            extentLoop o fuel (pos + n) last) := by
        refine (hears_sendImageBlock o).bind fun n => Hears.ite (Hears.throw _) ?_
        exact Hears.bind (Hears.modify fun _ => ⟨rfl, rfl, rfl, rfl⟩) fun _ => ih
      refine Hears.ite (Hears.bind (Hears.modify fun s => ?_) fun _ => ?_) hblock
      · exact ⟨rfl, rfl, rfl, rfl⟩
      · exact (hears_call o _).bind fun _ => hblock

theorem hears_iterationLoop (inner fuel : ℕ) {iterpos xferred : ℕ} :
    Hears (iterationLoop o inner fuel iterpos xferred) := by
  induction fuel generalizing iterpos xferred with
  | zero => exact Hears.throw _
  | succ fuel ih =>
      refine hears_tick.bind fun t => (hears_liftExcept _).bind fun e => ?_
      cases e with
      | none => exact Hears.pure _
      | some e =>
          refine Hears.bind (Hears.modify fun s => ?_) fun _ => ?_
          · exact ⟨rfl, rfl, rfl, rfl⟩
          · exact (hears_extentLoop o inner).bind fun _ => Hears.ite (Hears.pure _) ih

theorem hears_nextIteration (fuel inner : ℕ) : Hears (ploopCopyNextIteration o fuel inner) := by
  refine (hears_iterationLoop o inner fuel).bind fun xferred => ?_
  exact Hears.checked (sendCmd_spec o) (fun rc => ⟨_, rfl⟩) (Hears.pure _)

theorem hears_stopLoop (fuel inner k : ℕ) : Hears (stopLoop o fuel inner k) := by
  induction k with
  | zero => exact Hears.throw _
  | succ k ih => exact (hears_nextIteration o fuel inner).bind fun _ => Hears.ite (Hears.pure _) ih

theorem hears_cbtBlocks (blockSize : ℕ) (blocks : List Bool) :
    Hears (cbtBlocks o blockSize blocks) := by
  induction blocks with
  | nil => exact Hears.pure _
  | cons b rest ih =>
      cases b with
      | false => exact (hears_call o _).bind fun _ => ih
      | true =>
          refine (hears_call o _).bind fun _ => Hears.get.bind fun s => ?_
          refine Hears.bind (Hears.modify fun s => ?_) fun _ => ?_
          · exact ⟨rfl, rfl, rfl, rfl⟩
          · exact Hears.checked (sendBuf_spec o _ _) (fun rc => ⟨_, rfl⟩) ih

theorem hears_sendOptionalHeader : Hears (sendOptionalHeader o) := by
  refine (hears_call o _).bind fun _ => hears_tick.bind fun t =>
    (hears_liftExcept _).bind fun b => ?_
  cases b with
  | none => exact Hears.pure _
  | some blocks =>
      refine Hears.get.bind fun s => (hears_cbtBlocks o _ blocks).bind fun _ => ?_
      refine Hears.checked (sendBuf_spec o _ _) (fun rc => ⟨_, rfl⟩) (Hears.get.bind fun s => ?_)
      exact Hears.checked (sendBuf_spec o _ _) (fun rc => ⟨_, rfl⟩) (Hears.pure _)

theorem hears_sendHeader : Hears (sendHeader o) := by
  refine (hears_call o _).bind fun _ => ?_
  exact Hears.checked (sendBuf_spec o _ _) (fun rc => ⟨_, rfl⟩) (hears_sendOptionalHeader o)

/-! ## The end of the transfer -/

/-- The run has ended well as far as the sender can tell. -/
def Finished (r : Bool) (before : List (Packet × Answer)) (s : Sender) : Prop :=
  ∃ l p a, p.size = 0 ∧ s.sent = before ++ (l ++ [(p, a)]) ∧ ∀ e ∈ l, verdict r e = none

theorem Turned.finished {s : Sender} (hs : Turned r before 0 0 s) :
    Triple (fun s' => s' = s) joinSender (fun _ => Finished r before) fun _ => True := by
  obtain ⟨l, p, a, hsize, -, -, hexit, hsent, hgood, -⟩ := hs
  refine Triple.look fun t ht => ?_
  subst ht
  rw [if_pos (hexit.trans (decide_eq_true ⟨rfl, rfl⟩))]
  exact Triple.ret fun s' hs' => hs' ▸ ⟨l, p, a, hsize, hsent, hgood⟩

/-- The result of the last `send_async` is dropped, but then the join blocks. -/
theorem close_spec : Triple (Heard r before) (do let _ ← sendAsync o 0 0; joinSender)
    (fun _ => Finished r before) fun _ => True := by
  refine Triple.bind (R := fun _ s => s.exited = false ∨ Turned r before 0 0 s) ?_ fun _ => ?_
  · refine Triple.look fun s hs => ?_
    cases hret : s.sdRet with
    | some rc => exact Triple.ret fun _ h => Or.inl (h ▸ hs.running)
    | none =>
        exact Triple.bind ((senderTurn_spec o).conseq (fun s' h => h ▸ ⟨hs, hret⟩) (fun _ _ h => h)
          fun _ h => h) fun _ => Triple.ret fun _ h => Or.inr h
  · refine Triple.start fun s hs => ?_
    rcases hs with hs | hs
    · refine Triple.look fun t ht => ?_
      subst ht
      simp only [hs, Bool.false_eq_true, if_false]
      exact Triple.raise fun _ _ => True.intro
    · exact hs.finished

theorem ploopCopyStop_spec (fuel inner : ℕ) : Triple (Heard r before)
    (ploopCopyStop o fuel inner) (fun _ => Finished r before) fun _ => True := by
  refine Triple.bind (hears_call o _ r before) fun _ => Triple.bind (hears_call o _ r before)
    fun _ => Triple.bind (hears_stopLoop o fuel inner 3 r before) fun _ =>
      Triple.bind (Hears.get r before) fun s => ?_
  have hclose : Triple (Heard r before) (do call o .ioctl; let _ ← sendAsync o 0 0; joinSender)
      (fun _ => Finished r before) fun _ => True :=
    Triple.bind (hears_call o _ r before) fun _ => close_spec o
  cases hraw : s.raw with
  | true => exact hclose
  | false => exact Triple.bind (hears_sendHeader o r before) fun _ => hclose

/-! ## `pcopy.c` -/

namespace Pcopy

theorem sendTurn_spec : Triple (fun s => Heard r before s ∧ s.sdRet = none)
    (sendTurn o size pos) (fun _ => Turned r before size pos) fun _ => True := by
  refine Triple.look fun s ⟨hs, hnone⟩ => ?_
  by_cases hr : s.isRemote = true
  · rw [if_pos hr]
    exact Triple.bind (remoteWrite_spec o hr ⟨.dataAsync, size, pos⟩) fun _ =>
      Triple.update fun _ hsent => hs.turned hnone hsent
  · rw [if_neg hr]
    exact Triple.bind (localWrite_spec o (Bool.not_eq_true _ ▸ hr) ⟨.dataAsync, size, pos⟩)
      fun _ => Triple.update fun _ hsent => hs.turned hnone hsent

theorem asyncSend_spec : Triple (Heard r before) (asyncSend o size pos)
    (fun _ => Turned r before size pos) fun _ => True := by
  refine Triple.look fun s hs => ?_
  cases hret : s.sdRet with
  | some rc =>
      exact Triple.bind (R := fun _ _ => False) (Triple.raise fun _ _ => True.intro)
        fun _ _ h => h.elim
  | none =>
      exact Triple.bind (R := fun _ s' => s' = s) (Triple.ret fun _ h => h) fun _ =>
        (sendTurn_spec o).conseq (fun s' h => h ▸ ⟨hs, hret⟩) (fun _ _ h => h) fun _ h => h

theorem hears_asyncSend (hsize : size ≠ 0) : Hears (asyncSend o size pos) := fun _ _ =>
  (asyncSend_spec o).conseq (fun _ h => h) (fun _ _ h => h.heard hsize) fun _ h => h

theorem hears_doPread : Hears (doPread o size pos) := by
  refine hears_tick.bind fun t => ?_
  cases o.pread t size pos with
  | none => exact Hears.throw _
  | some n => exact Hears.pure _

theorem hears_setup : Hears (setup o) :=
  (hears_call o _).bind fun _ => (hears_call o _).bind fun _ => (hears_call o _).bind fun _ =>
    (hears_call o _).bind fun _ => (hears_call o _).bind fun _ => (hears_call o _).bind fun _ =>
      (hears_call o _).bind fun _ => hears_call o _

theorem hears_firstLoop (fuel : ℕ) {pos : ℕ} : Hears (firstLoop o fuel pos) := by
  induction fuel generalizing pos with
  | zero => exact Hears.throw _
  | succ fuel ih =>
      refine Hears.get.bind fun s => Hears.ite (Hears.bind (Hears.modify fun s => ?_) fun _ => ?_)
        (Hears.pure _)
      · exact ⟨rfl, rfl, rfl, rfl⟩
      · refine (hears_call o _).bind fun _ => (hears_doPread o).bind fun n => ?_
        by_cases h0 : n = 0
        · rw [if_pos h0]
          exact Hears.pure _
        · rw [if_neg h0]
          exact (hears_asyncSend o h0).bind fun _ => ih

theorem hears_extentLoop (e : Ending) (fuel : ℕ) {pos last : ℕ} :
    Hears (extentLoop o e fuel pos last) := by
  induction fuel generalizing pos with
  | zero => exact Hears.throw _
  | succ fuel ih =>
      refine Hears.ite (Hears.get.bind fun s => ?_) (Hears.pure _)
      have hblock : Hears (do
          let n ← doPread o (min ((last - pos) % 2 ^ 32) s.cluster) pos
          if n = 0 then throw (.exit .read)
          else do
            asyncSend o n pos
            extentLoop o e fuel (pos + n) last) := by
        refine (hears_doPread o).bind fun n => ?_
        by_cases h0 : n = 0
        · rw [if_pos h0]
          exact Hears.throw _
        · rw [if_neg h0]
          exact (hears_asyncSend o h0).bind fun _ => ih
      refine Hears.ite (Hears.bind (Hears.modify fun s => ?_) fun _ => ?_) hblock
      · exact ⟨rfl, rfl, rfl, rfl⟩
      · exact (hears_call o _).bind fun _ => hblock

theorem hears_liveLoop (inner fuel : ℕ) {iter iterpos xferred : ℕ} :
    Hears (liveLoop o inner fuel iter iterpos xferred) := by
  induction fuel generalizing iter iterpos xferred with
  | zero => exact Hears.throw _
  | succ fuel ih =>
      refine hears_tick.bind fun t => (hears_liftExcept _).bind fun e => ?_
      cases e with
      | none => exact Hears.pure _
      | some e =>
          refine Hears.bind (Hears.modify fun s => ?_) fun _ => ?_
          · exact ⟨rfl, rfl, rfl, rfl⟩
          · exact (hears_extentLoop o _ inner).bind fun _ => Hears.get.bind fun s =>
              Hears.ite (Hears.pure _) ih

theorem hears_frozenLoop (inner fuel : ℕ) {iter iterpos : ℕ} :
    Hears (frozenLoop o inner fuel iter iterpos) := by
  induction fuel generalizing iter iterpos with
  | zero => exact Hears.throw _
  | succ fuel ih =>
      refine hears_tick.bind fun t => (hears_liftExcept _).bind fun e => ?_
      cases e with
      | none => exact Hears.pure _
      | some e =>
          refine Hears.bind (Hears.modify fun s => ?_) fun _ => ?_
          · exact ⟨rfl, rfl, rfl, rfl⟩
          · exact (hears_extentLoop o _ inner).bind fun _ => Hears.ite (Hears.throw _) ih

theorem hears_syncMark (feedbackFd : Bool) : Hears (syncMark o feedbackFd) := by
  refine Hears.get.bind fun s => Hears.ite ?_ (Hears.pure _)
  refine (hears_doPread o).bind fun n => Hears.ite (Hears.throw _) ?_
  refine (hears_asyncSend o (by decide)).bind fun _ => hears_tick.bind fun t => ?_
  exact Hears.ite (hears_liftExcept _) (Hears.pure _)

theorem hears_freeze : Hears (freeze o) :=
  (hears_call o _).bind fun _ => (hears_call o _).bind fun _ => (hears_call o _).bind fun _ =>
    hears_call o _

theorem hears_clearInUse : Hears (clearInUse o) :=
  (hears_doPread o).bind fun _ => Hears.ite (Hears.throw _) (hears_asyncSend o (by decide))

theorem ploopCopySend_spec (fuel inner : ℕ) (feedbackFd : Bool) : Triple (Heard r before)
    (ploopCopySend o fuel inner feedbackFd) (fun _ => Finished r before) fun _ => True := by
  refine Triple.bind (hears_setup o r before) fun _ =>
    Triple.bind (hears_firstLoop o fuel r before) fun _ =>
      Triple.bind (hears_liveLoop o inner fuel r before) fun _ =>
        Triple.bind (hears_syncMark o feedbackFd r before) fun _ =>
          Triple.bind (hears_freeze o r before) fun _ =>
            Triple.bind (hears_frozenLoop o inner fuel r before) fun _ =>
              Triple.bind (Hears.get r before) fun s => ?_
  have hclose : Triple (Heard r before) (do call o .ioctl; asyncSend o 0 0; joinSender)
      (fun _ => Finished r before) fun _ => True :=
    Triple.bind (hears_call o _ r before) fun _ => Triple.bind (asyncSend_spec o) fun _ =>
      Triple.start fun _ hs => hs.finished
  cases hraw : s.raw with
  | true => exact hclose
  | false => exact Triple.bind (hears_clearInUse o r before) fun _ => hclose

end Pcopy

end Sender

/-! ## What success means -/

/-- The packets of a run: the last one ends the transfer. -/
structure Handed (before : List (Packet × Answer)) (l : List (Packet × Answer))
    (last : Packet × Answer) (s : Sender) : Prop where
  sent : s.sent = before ++ (l ++ [last])
  close : last.1.size = 0

/-- Of a run that hands over `l` and the end of the transfer: all was sent and
processed without error exactly if the end was and no packet was overlooked. -/
def CompleteIff (r : Bool) (l : List (Packet × Answer)) (last : Packet × Answer) : Prop :=
  (∀ e ∈ l ++ [last], e.2.Done) ↔ last.2.Done ∧ ∀ e ∈ l, ¬ Overlooked r e

theorem Finished.complete {r : Bool} {before : List (Packet × Answer)} {s : Sender}
    (hs : Finished r before s) : ∃ l last, Handed before l last s ∧ CompleteIff r l last := by
  obtain ⟨l, p, a, hsize, hsent, hgood⟩ := hs
  refine ⟨l, (p, a), ⟨hsent, hsize⟩, fun hall => ⟨?_, fun e he hover => ?_⟩, ?_⟩
  · exact hall (p, a) (List.mem_append_right l (List.mem_singleton_self _))
  · exact (overlooked_iff.mp hover).2 (hall e (List.mem_append_left _ he))
  · rintro ⟨hlast, hnone⟩ e he
    rcases List.mem_append.mp he with he | he
    · by_contra hd
      exact hnone e he (overlooked_iff.mpr ⟨hgood e he, hd⟩)
    · rw [List.mem_singleton.mp he]
      exact hlast

/-- A sender whose thread has just been started or waits for a packet. -/
def Sender.Up (s : Sender) : Prop := s.exited = false

theorem Sender.Up.heard {s : Sender} (hs : s.Up) : Heard s.isRemote s.sent s :=
  ⟨rfl, hs, [], (List.append_nil _).symm, fun _ _ h => absurd h List.not_mem_nil⟩

/-- What the two functions promise when they return 0. -/
theorem copy_success_iff (o : Outside) (fuel inner : ℕ) (feedbackFd : Bool) {s : Sender}
    (hs : s.Up) :
    (∀ s', ploopCopyStop o fuel inner s = .ok () s' →
      ∃ l last, Handed s.sent l last s' ∧ CompleteIff s.isRemote l last) ∧
    ∀ s', Pcopy.ploopCopySend o fuel inner feedbackFd s = .ok () s' →
      ∃ l last, Handed s.sent l last s' ∧ CompleteIff s.isRemote l last :=
  ⟨fun _ hok => ((ploopCopyStop_spec o fuel inner).ok hs.heard hok).complete,
    fun _ hok => ((Pcopy.ploopCopySend_spec o fuel inner feedbackFd).ok hs.heard hok).complete⟩

/-- A raw image that nobody writes to, copied to a receiver that replies to
every packet until the end of the transfer, where its sync fails. -/
def lostSync : Outside where
  answer := fun n => if n = 0 then .replied 0 else .silent false
  track := fun _ => .ok none
  pread := fun _ _ _ => some 0
  bitmap := fun _ => .ok none
  feedback := fun _ => .ok ()
  call := fun _ => true

def rawSender : Sender where
  isRemote := true
  async := false
  raw := true
  cluster := 4096
  trackpos := 4096
  trackend := 0
  eofOffset := 0
  sdRet := none
  exited := false
  sent := []
  time := 0

/-- The state after `ploop_copy_stop`. -/
def lostSyncEnd : Sender :=
  { rawSender with
    sdRet := some .protocol
    exited := true
    sent := [(⟨.cmd, 4, 0⟩, .replied 0), (⟨.data, 0, 0⟩, .silent false)]
    time := 4 }

theorem lostSync_run : ploopCopyStop lostSync 1 1 rawSender = .ok () lostSyncEnd := rfl

theorem lostSync_success : ∃ s', ploopCopyStop lostSync 1 1 rawSender = .ok () s' ∧
    ∃ l last, Handed [] l last s' ∧ CompleteIff true l last :=
  ⟨lostSyncEnd, lostSync_run,
    (copy_success_iff lostSync 1 1 true (s := rawSender) rfl).1 lostSyncEnd lostSync_run⟩

/-- The receiver's last sync failed and the copy is reported as done. -/
theorem copy_not_complete : ¬ ∀ (o : Outside) (fuel inner : ℕ) (feedbackFd : Bool) (s s' : Sender)
    (l : List (Packet × Answer)), s.Up → s'.sent = s.sent ++ l →
    (ploopCopyStop o fuel inner s = .ok () s' → ∀ e ∈ l, e.2.Done) ∧
    (Pcopy.ploopCopySend o fuel inner feedbackFd s = .ok () s' → ∀ e ∈ l, e.2.Done) := by
  intro h
  have hall := (h lostSync 1 1 true rawSender lostSyncEnd lostSyncEnd.sent rfl rfl).1 lostSync_run
  exact absurd (hall (⟨.data, 0, 0⟩, .silent false) (by decide)) (by decide)

end Ploop.Wire
