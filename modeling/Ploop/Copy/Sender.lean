import Ploop.Lib.Program
import Ploop.Image.Delta

/-!
# What a copy hears about its packets

`ploop_copy_stop` and the older `ploop_copy_send` hand packets to a file or to
a receiver behind a socket, partly through a sender thread. The outside decides
what comes of each packet; this file says what the sender makes of it.
-/

namespace Ploop.Wire

/-- What comes of a packet: it did not go out, nothing came back, or the
receiver replied with a code. -/
inductive Answer where
  | unsent
  | silent (processed : Bool)
  | replied (rc : ℤ)
  deriving DecidableEq

namespace Answer

/-- The packet was sent and processed without error. -/
def Done : Answer → Prop
  | unsent => False
  | silent processed => processed
  | replied rc => rc = 0

instance : DecidablePred Done := fun a => by
  cases a <;> unfold Done <;> infer_instance

/-- What `read` returns for the reply. -/
def replySize : Answer → ℕ
  | replied _ => 4
  | _ => 0

end Answer

/-- `pcopy_pkt_type_t` -/
inductive PktType where
  | data | cmd | dataAsync
  deriving DecidableEq

structure Packet where
  type : PktType
  size : ℕ
  pos : ℕ
  deriving DecidableEq

/-- How a function of the sender ends early: `ioctl` is the -1 of a bare `ioctl`,
`blocked` a `pthread_join` that never returns. -/
inductive Ending where
  | exit (code : Sysexit)
  | ioctl
  | running
  | blocked
  deriving DecidableEq

/-- Everything that is not decided by the sender: the answer to the packet with
a given number, and by the number of the step, what the tracker, `pread` of a
size at a position, the dirty bitmap (which of its blocks are not constant), the
feedback descriptor and any other call return. -/
structure Outside where
  answer : ℕ → Answer
  track : ℕ → Except Ending (Option (ℕ × ℕ))
  pread : ℕ → ℕ → ℕ → Option ℕ
  bitmap : ℕ → Except Ending (Option (List Bool))
  feedback : ℕ → Except Ending Unit
  call : ℕ → Bool

/-- The handle of a copy with what its sender thread left in `sd`, and all
packets so far. -/
structure Sender where
  isRemote : Bool
  async : Bool
  raw : Bool
  cluster : ℕ
  trackpos : ℕ
  trackend : ℕ
  eofOffset : ℕ
  sdRet : Option Sysexit
  exited : Bool
  sent : List (Packet × Answer)
  time : ℕ

abbrev SendM := EStateM Ending Sender

section Steps

variable (o : Outside)

def tick : SendM ℕ := do
  let t := (← get).time
  modify fun s => { s with time := s.time + 1 }
  pure t

/-- Any call of which only success matters. -/
def call (e : Ending) : SendM Unit := do
  let t ← tick
  if o.call t then pure () else throw e

def liftExcept {α : Type} : Except Ending α → SendM α
  | .ok a => pure a
  | .error e => throw e

def hand (p : Packet) : SendM Answer := do
  let a := o.answer (← get).sent.length
  modify fun s => { s with sent := s.sent ++ [(p, a)] }
  pure a

/-- `remote_write`: the byte count of the reply is assigned to the variable that
was to hold the reply. -/
def remoteWrite (p : Packet) : SendM (Option Sysexit) := do
  match ← hand o p with
  | .unsent => pure (some .write)
  | a =>
      if p.type ≠ .dataAsync then do
        let rc := a.replySize
        if rc ≠ 4 then pure (some .protocol) else pure none
      else pure none

/-- `local_write` and `data_sync` -/
def localWrite (p : Packet) : SendM (Option Sysexit) := do
  if (← hand o p).Done then pure none else pure (some .write)

/-! ## `ploop-copy.c` -/

def sendCmd : SendM (Option Sysexit) := do
  if (← get).isRemote then remoteWrite o ⟨.cmd, 4, 0⟩ else localWrite o ⟨.cmd, 4, 0⟩

def sendBuf (size pos : ℕ) : SendM (Option Sysexit) := do
  let s ← get
  if s.isRemote then remoteWrite o ⟨if s.async then .dataAsync else .data, size, pos⟩
  else localWrite o ⟨.data, size, pos⟩

/-- One turn of the loop in `sender_thread`. -/
def senderTurn (size pos : ℕ) : SendM Unit := do
  let rc ← sendBuf o size pos
  modify fun s => { s with sdRet := rc, exited := size = 0 ∧ pos = 0 }

/-- `send_async`; the mutex makes it wait for the packet before. -/
def sendAsync (size pos : ℕ) : SendM (Option Sysexit) := do
  match (← get).sdRet with
  | some rc => pure (some rc)
  | none => do
      senderTurn o size pos
      pure none

/-- `if (ret) goto err` -/
def orFail : Option Sysexit → SendM Unit
  | none => pure ()
  | some rc => throw (.exit rc)

def sendImageBlock (size pos : ℕ) : SendM ℕ := do
  let t ← tick
  match o.pread t size pos with
  | none => throw (.exit .read)
  | some 0 => pure 0
  | some (n + 1) => do
      orFail (← sendAsync o (n + 1) pos)
      pure (n + 1)

def extentLoop : ℕ → ℕ → ℕ → SendM Unit
  | 0, _, _ => throw .running
  | fuel + 1, pos, last =>
      if pos < last then do
        let s ← get
        let copy := min (last - pos) s.cluster
        if s.trackpos < pos + copy then do
          modify fun s => { s with trackpos := pos + copy }
          call o (.exit .devioc)
        else pure ()
        let n ← sendImageBlock o copy pos
        if n ≠ copy then throw (.exit .read)
        else do
          modify fun s => { s with eofOffset := max s.eofOffset (pos + n) }
          extentLoop fuel (pos + n) last
      else pure ()

def iterationLoop (inner : ℕ) : ℕ → ℕ → ℕ → SendM ℕ
  | 0, _, _ => throw .running
  | fuel + 1, iterpos, xferred => do
      let t ← tick
      match ← liftExcept (o.track t) with
      | none => pure xferred
      | some (first, last) => do
          modify fun s => { s with trackend := max s.trackend last }
          extentLoop o inner first last
          if first < iterpos then pure (xferred + (last - first))
          else iterationLoop inner fuel last (xferred + (last - first))

/-- The result is `stat->xferred`. -/
def ploopCopyNextIteration (fuel inner : ℕ) : SendM ℕ := do
  let xferred ← iterationLoop o inner fuel 0 0
  orFail (← sendCmd o)
  pure xferred

/-- The rounds of `ploop_copy_stop`, of which at most three are made. -/
def stopLoop (fuel inner : ℕ) : ℕ → SendM Unit
  | 0 => throw (.exit .loop)
  | k + 1 => do
      let xferred ← ploopCopyNextIteration o fuel inner
      if xferred = 0 then pure () else stopLoop fuel inner k

/-- The loop of `save_dirty_bitmap` with `cbt_writer`. -/
def cbtBlocks (blockSize : ℕ) : List Bool → SendM Unit
  | [] => pure ()
  | false :: rest => do
      call o (.exit .devioc)
      cbtBlocks blockSize rest
  | true :: rest => do
      call o (.exit .devioc)
      let pos := (← get).eofOffset
      modify fun s => { s with eofOffset := s.eofOffset + blockSize }
      match ← sendBuf o blockSize pos with
      | some _ => throw (.exit .write)
      | none => cbtBlocks blockSize rest

/-- No bitmap in the kernel is not an error. -/
def sendOptionalHeader : SendM Unit := do
  call o (.exit .malloc)
  let t ← tick
  match ← liftExcept (o.bitmap t) with
  | none => pure ()
  | some blocks => do
      let blockSize := (← get).cluster
      cbtBlocks o blockSize blocks
      match ← sendBuf o headerBytes 0 with
      | some _ => throw (.exit .write)
      | none => do
          let eof := (← get).eofOffset
          match ← sendBuf o blockSize ((eof + 511) / 512 * 512) with
          | some _ => throw (.exit .write)
          | none => pure ()

def sendHeader : SendM Unit := do
  call o (.exit .read)
  orFail (← sendBuf o 4096 0)
  sendOptionalHeader o

/-- `pthread_join` -/
def joinSender : SendM Unit := do
  if (← get).exited then pure () else throw .blocked

/-- `ploop_copy_stop`. Neither the result of the last `send_async` nor what the
thread left in `sd.ret` is looked at. -/
def ploopCopyStop (fuel inner : ℕ) : SendM Unit := do
  call o .ioctl
  call o (.exit .devioc)
  stopLoop o fuel inner 3
  if (← get).raw then pure () else sendHeader o
  call o .ioctl
  let _ ← sendAsync o 0 0
  joinSender

/-! ## `pcopy.c`

Its packets have no type and no reply is read for them, which is the handling
of `dataAsync`. -/

namespace Pcopy

/-- `send_buf` of one turn of `send_thread`. -/
def sendTurn (size pos : ℕ) : SendM Unit := do
  let rc ← if (← get).isRemote then remoteWrite o ⟨.dataAsync, size, pos⟩
    else localWrite o ⟨.dataAsync, size, pos⟩
  modify fun s => { s with sdRet := rc, exited := size = 0 ∧ pos = 0 }

def asyncSend (size pos : ℕ) : SendM Unit := do
  orFail (← get).sdRet
  sendTurn o size pos

def doPread (size pos : ℕ) : SendM ℕ := do
  let t ← tick
  match o.pread t size pos with
  | none => throw (.exit .read)
  | some n => pure n

/-- Opening the device, its mount point and the image, the buffers, the tracker
and the thread. -/
def setup : SendM Unit := do
  call o (.exit .device)
  call o (.exit .open)
  call o (.exit .sysfs)
  call o (.exit .malloc)
  call o (.exit .devioc)
  call o (.exit .devioc)
  call o (.exit .open)
  call o (.exit .sys)

/-- The first copy. -/
def firstLoop : ℕ → ℕ → SendM Unit
  | 0, _ => throw .running
  | fuel + 1, pos => do
      let s ← get
      if pos < s.trackend then do
        modify fun s => { s with trackpos := pos + s.cluster }
        call o (.exit .devioc)
        let n ← doPread o s.cluster pos
        if n = 0 then pure ()
        else do
          asyncSend o n pos
          firstLoop fuel (pos + n)
      else pure ()

/-- `copy` is an `int`, but a negative one is a large unsigned number when it is
compared with `cluster`. -/
def extentLoop (e : Ending) : ℕ → ℕ → ℕ → SendM Unit
  | 0, _, _ => throw .running
  | fuel + 1, pos, last =>
      if pos < last then do
        let s ← get
        let copy := min ((last - pos) % 2 ^ 32) s.cluster
        if s.trackpos < pos + copy then do
          modify fun s => { s with trackpos := pos + copy }
          call o e
        else pure ()
        let n ← doPread o copy pos
        if n = 0 then throw (.exit .read)
        else do
          asyncSend o n pos
          extentLoop e fuel (pos + n) last
      else pure ()

def liveLoop (inner : ℕ) : ℕ → ℕ → ℕ → ℕ → SendM Unit
  | 0, _, _, _ => throw .running
  | fuel + 1, iter, iterpos, xferred => do
      let t ← tick
      match ← liftExcept (o.track t) with
      | none => pure ()
      | some (first, last) => do
          modify fun s => { s with trackend := max s.trackend last }
          let iter := if first < iterpos then iter + 1 else iter
          let xferred := xferred + (last - first)
          extentLoop o (.exit .devioc) inner first last
          if iter > 10 ∨ iter > 1 ∧ xferred > (← get).trackend then pure ()
          else liveLoop inner fuel iter last xferred

def frozenLoop (inner : ℕ) : ℕ → ℕ → ℕ → SendM Unit
  | 0, _, _ => throw .running
  | fuel + 1, iter, iterpos => do
      let t ← tick
      match ← liftExcept (o.track t) with
      | none => pure ()
      | some (first, last) => do
          modify fun s => { s with trackend := max s.trackend last }
          let iter := if first < iterpos then iter + 1 else iter
          extentLoop o .ioctl inner first last
          if iter > 2 then throw (.exit .loop)
          else frozenLoop inner fuel iter last

/-- The sync mark and the wait for the answer to it; a local file is synced and
the result ignored. -/
def syncMark (feedbackFd : Bool) : SendM Unit := do
  if (← get).isRemote then do
    let n ← doPread o 4096 0
    if n < 4 then throw (.exit .read)
    else do
      asyncSend o 4 0
      let t ← tick
      if feedbackFd then liftExcept (o.feedback t) else pure ()
  else pure ()

def freeze : SendM Unit := do
  call o (.exit .sys)
  call o (.exit .fsync)
  call o (.exit .devioc)
  call o (.exit .devioc)

def clearInUse : SendM Unit := do
  let n ← doPread o 4096 0
  if n < 512 then throw (.exit .read) else asyncSend o 512 0

def ploopCopySend (fuel inner : ℕ) (feedbackFd : Bool) : SendM Unit := do
  setup o
  firstLoop o fuel 0
  liveLoop o inner fuel 1 0 0
  syncMark o feedbackFd
  freeze o
  frozenLoop o inner fuel 1 0
  if (← get).raw then pure () else clearInUse o
  call o .ioctl
  asyncSend o 0 0
  joinSender

end Pcopy

end Steps

end Ploop.Wire
