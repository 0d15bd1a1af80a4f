import Ploop.Lib.ByteFile
import Ploop.Lib.Program
import Ploop.Image.Delta

/-!
# The world of an iterative copy

The image of a running device, the write tracker of `ploop_if.h` and the file
that receives the copy. Between any two steps of the copier the guest may
write and the sender thread may finish the buffer it was handed; what happens
when is left to a schedule.
-/

namespace Ploop.Copy

open Storage

/-! ## The tracker -/

/-- Extents below `position` that were written, and the end of what was
written at or above it. -/
structure Tracker where
  position : ℕ
  trackedEnd : ℕ
  dirty : ℕ → Bool

namespace Tracker

/-- `PLOOP_IOC_TRACK_INIT` on an image of `size` bytes. -/
def init (size : ℕ) : Tracker := ⟨0, size, fun _ => false⟩

def write (t : Tracker) (w : Write) : Tracker :=
  if w.len = 0 then t
  else { t with
    dirty := fun x => t.dirty x || (decide (w.off ≤ x) && decide (x < w.off + w.len) &&
      decide (x < t.position))
    trackedEnd := if t.position < w.off + w.len then max t.trackedEnd (w.off + w.len)
      else t.trackedEnd }

/-- `[s, e)` is a dirty extent. -/
def Extent (t : Tracker) (s e : ℕ) : Prop := s < e ∧ e ≤ t.position ∧ ∀ x < e, s ≤ x → t.dirty x

instance (t : Tracker) (s e : ℕ) : Decidable (t.Extent s e) :=
  inferInstanceAs (Decidable (_ ∧ _ ∧ _))

def clean (t : Tracker) (s e : ℕ) : Tracker :=
  { t with dirty := fun x => t.dirty x && !(decide (s ≤ x) && decide (x < e)) }

/-- `PLOOP_IOC_TRACK_READ`: `pick` is the kernel's choice of an extent, `forget`
whether it forgets the region above the position when it returns it. -/
def read (t : Tracker) (pick : ℕ × ℕ) (forget : Bool) : Option (ℕ × ℕ) × Tracker :=
  if t.Extent pick.1 pick.2 then (some pick, t.clean pick.1 pick.2)
  else if t.position < t.trackedEnd then
    (some (t.position, t.trackedEnd), if forget then { t with trackedEnd := t.position } else t)
  else
    match (List.range t.position).find? t.dirty with
    | some x => (some (x, x + 1), t.clean x (x + 1))
    | none => (none, t)

end Tracker

/-! ## The world -/

/-- The fields of `struct ploop_copy_handle` that the copy reads or writes. -/
structure Handle where
  cluster : ℕ
  raw : Bool
  trackpos : ℕ
  trackend : ℕ
  eofOffset : ℕ
  curIobuf : Bool

/-- `inflight` is what the sender thread works on: a buffer, its length and its
position in the file. -/
structure World where
  src : File
  dest : File
  tracker : Tracker
  h : Handle
  iobuf : Bool → ℕ → UInt8
  inflight : Option (Bool × ℕ × ℕ)
  frozen : Bool
  time : ℕ

/-- What happens before a step of the copier, and how the kernel answers if the
step asks for an extent. -/
structure Turn where
  writes : List Write
  sent : Bool
  pick : ℕ × ℕ
  forget : Bool

namespace World

def guestWrite (w : World) (wr : Write) : World :=
  { w with
    src := w.src.pwrite wr
    tracker := w.tracker.write wr }

/-- The sender thread is done with its buffer. -/
def complete (w : World) : World :=
  match w.inflight with
  | none => w
  | some (b, len, pos) => { w with
      dest := w.dest.pwrite ⟨pos, len, w.iobuf b⟩
      inflight := none }

def turn (t : Turn) (w : World) : World :=
  let w := if w.frozen then w else t.writes.foldl guestWrite w
  let w := if t.sent then w.complete else w
  { w with time := w.time + 1 }

end World

/-- `running` stands for a loop that has not ended yet. -/
inductive Halt where
  | exit (code : Sysexit)
  | running
  deriving DecidableEq

abbrev CopyM := EStateM Halt World

/-! ## Single steps -/

section Steps

variable (sched : ℕ → Turn)

def interfere : CopyM Unit := modify fun w => w.turn (sched w.time)

/-- `PLOOP_IOC_TRACK_INIT`; the result is `e.end`. -/
def trackInit : CopyM ℕ := do
  interfere sched
  modify fun w => { w with tracker := Tracker.init w.src.size }
  pure (← get).src.size

/-- `PLOOP_IOC_TRACK_SETPOS` -/
def trackSetpos (pos : ℕ) : CopyM Unit := do
  modify fun w => { w with h := { w.h with trackpos := pos } }
  interfere sched
  modify fun w => { w with tracker := { w.tracker with position := pos } }

/-- `none` is `EAGAIN`. -/
def trackRead : CopyM (Option (ℕ × ℕ)) := do
  interfere sched
  let w ← get
  let r := w.tracker.read (sched w.time).pick (sched w.time).forget
  modify fun w => { w with tracker := r.2 }
  pure r.1

/-- `get_free_iobuf` -/
def getFreeIobuf : CopyM Bool := do
  modify fun w => { w with h := { w.h with curIobuf := !w.h.curIobuf } }
  pure (← get).h.curIobuf

/-- `pread` into a buffer; the result is the number of bytes read. -/
def preadImage (b : Bool) (size pos : ℕ) : CopyM ℕ := do
  interfere sched
  let w ← get
  let n := min size (w.src.size - pos)
  modify fun w => { w with
    iobuf := Function.update w.iobuf b fun j =>
      if j < n then w.src.byte (pos + j) else w.iobuf b j }
  pure n

/-- Hand a buffer over once the sender has finished the one before. -/
def sendAsync (b : Bool) (size pos : ℕ) : CopyM Unit := do
  interfere sched
  modify World.complete
  modify fun w => { w with inflight := some (b, size, pos) }

def waitSender : CopyM Unit := do
  interfere sched
  modify World.complete

/-- `send_buf` from the copier itself. -/
def sendBuf (data : ℕ → UInt8) (size pos : ℕ) : CopyM Unit := do
  interfere sched
  modify fun w => { w with dest := w.dest.pwrite ⟨pos, size, data⟩ }

/-- Write protect the image: what was under way is in the file now. -/
def freeze : CopyM Unit := do
  interfere sched
  modify fun w => { w with frozen := true }

end Steps

/-! ## `ploop-copy.c` -/

section Code

variable (sched : ℕ → Turn)

def sendImageBlock (size pos : ℕ) : CopyM ℕ := do
  let b ← getFreeIobuf
  let n ← preadImage sched b size pos
  if n = 0 then pure 0
  else do
    sendAsync sched b n pos
    pure n

/-- The loop of `ploop_copy_start`. -/
def startLoop : ℕ → ℕ → CopyM Unit
  | 0, _ => throw .running
  | fuel + 1, pos => do
      let h := (← get).h
      if pos ≤ h.trackend then do
        trackSetpos sched (pos + h.cluster)
        let n ← sendImageBlock sched h.cluster pos
        if n = 0 then pure ()
        else do
          modify fun w => { w with h := { w.h with eofOffset := max w.h.eofOffset (pos + n) } }
          startLoop fuel (pos + n)
      else pure ()

def ploopCopyStart (fuel : ℕ) : CopyM Unit := do
  let e ← trackInit sched
  modify fun w => { w with h := { w.h with trackend := e } }
  startLoop sched fuel 0
  waitSender sched

/-- Send the bytes from `pos` to `last`, cluster by cluster. -/
def extentLoop : ℕ → ℕ → ℕ → CopyM Unit
  | 0, _, _ => throw .running
  | fuel + 1, pos, last =>
      if pos < last then do
        let h := (← get).h
        let copy := min (last - pos) h.cluster
        if h.trackpos < pos + copy then trackSetpos sched (pos + copy) else pure ()
        let n ← sendImageBlock sched copy pos
        if n ≠ copy then throw (.exit .read)
        else do
          modify fun w => { w with h := { w.h with eofOffset := max w.h.eofOffset (pos + n) } }
          extentLoop fuel (pos + n) last
      else pure ()

/-- The loop of `ploop_copy_next_iteration`; the result is `stat->xferred`. -/
def iterationLoop (inner : ℕ) : ℕ → ℕ → ℕ → CopyM ℕ
  | 0, _, _ => throw .running
  | fuel + 1, iterpos, xferred => do
      match ← trackRead sched with
      | none => pure xferred
      | some (first, last) => do
          modify fun w => { w with h := { w.h with trackend := max w.h.trackend last } }
          extentLoop sched inner first last
          if first < iterpos then pure (xferred + (last - first))
          else iterationLoop inner fuel last (xferred + (last - first))

def ploopCopyNextIteration (fuel inner : ℕ) : CopyM ℕ := do
  let xferred ← iterationLoop sched inner fuel 0 0
  waitSender sched
  pure xferred

/-- The rounds of `ploop_copy_stop`, of which at most three are made. -/
def stopLoop (fuel inner : ℕ) : ℕ → CopyM Unit
  | 0 => throw (.exit .loop)
  | k + 1 => do
      let xferred ← ploopCopyNextIteration sched fuel inner
      if xferred = 0 then pure () else stopLoop fuel inner k

/-- The header goes out with the in-use mark cleared. -/
def sendHeader : CopyM Unit := do
  let b ← getFreeIobuf
  let n ← preadImage sched b 4096 0
  if n ≠ 4096 then throw (.exit .read)
  else do
    let vh := (← get).iobuf b
    sendBuf sched (fun j => if PvdHeader.offDiskInUse ≤ j ∧ j < PvdHeader.offDiskInUse + 4 then 0
      else vh j) 4096 0

/-- `ploop_copy_stop` up to the format extension. -/
def ploopCopyStop (fuel inner : ℕ) : CopyM Unit := do
  freeze sched
  stopLoop sched fuel inner 3
  if (← get).h.raw then pure () else sendHeader sched

/-- Start, any number of iterations, and stop. -/
def iterations (fuel inner : ℕ) : ℕ → CopyM Unit
  | 0 => pure ()
  | k + 1 => do
      let _ ← ploopCopyNextIteration sched fuel inner
      iterations fuel inner k

def copySession (fuel inner k : ℕ) : CopyM Unit := do
  ploopCopyStart sched fuel
  iterations sched fuel inner k
  ploopCopyStop sched fuel inner

end Code

/-- Ready to start: nothing has been sent, and the buffers have a size. -/
structure World.Initial (w : World) : Prop where
  cluster : 0 < w.h.cluster
  dest : w.dest = File.empty
  inflight : w.inflight = none
  running : w.frozen = false

end Ploop.Copy
