import Ploop.Image.Delta
import Ploop.Lib.Buffer

/-!
# Receiving packets

`ploop_copy_receive` and the newer `ploop_copy_receiver` read headers and
payloads from a socket in the same way, into a buffer that only grows. They
differ in what they do with a packet. Which calls fail is decided outside.
-/

namespace Ploop.Receive

open Storage Program

/-- The bytes of a payload. -/
def bytesOf (l : List UInt8) : ℕ → UInt8 := fun i => l.getD i 0

/-! ## The receiver -/

/-- What is left of the stream, the buffer and its size, the output file, the
number of calls so far, and the replies. -/
structure Receiver (ρ : Type) where
  input : List UInt8
  cluster : ℕ
  iobuf : ℕ → UInt8
  file : File
  calls : ℕ
  replies : List ρ

/-- Whether a call with a given number does its work, and what a new buffer has. -/
structure Outside where
  answer : ℕ → Bool
  fresh : ℕ → ℕ → UInt8

abbrev ReceiveM (ρ : Type) := EStateM Sysexit (Receiver ρ)

variable {ρ : Type}

section Steps

variable (o : Outside)

/-- Any call of which only success matters. -/
def call (e : Sysexit) : ReceiveM ρ Unit := do
  let n := (← get).calls
  modify fun r => { r with calls := n + 1 }
  if o.answer n then pure () else throw e

/-- `nread`; its `int len` is negative from 2^31 on, and then `read` fails. -/
def nread (len : ℕ) : ReceiveM ρ (List UInt8) := do
  let s := (← get).input
  if 2 ^ 31 ≤ len then throw .read
  else if s.length < len then throw .read
  else do
    modify fun r => { r with input := s.drop len }
    pure (s.take len)

/-- A larger packet needs a new buffer. -/
def growBuffer (size : ℕ) : ReceiveM ρ Unit := do
  let r ← get
  if r.cluster < size then do
    modify fun r => { r with cluster := size }
    call o .malloc
    modify fun r => { r with iobuf := o.fresh r.calls }
  else pure ()

def readData (size : ℕ) : ReceiveM ρ Unit := do
  let data ← nread size
  modify fun r => { r with iobuf := overlay r.iobuf 0 size (bytesOf data) }

/-- `fdatasync` -/
def dataSync : ReceiveM ρ Unit := call o .write

/-- `pwrite` of the buffer. -/
def writeData (size pos : ℕ) : ReceiveM ρ Unit := do
  call o .write
  modify fun r => { r with file := r.file.pwrite ⟨pos, size, r.iobuf⟩ }

def reply (ret : ρ) : ReceiveM ρ Unit := do
  call o .write
  modify fun r => { r with replies := r.replies ++ [ret] }

end Steps

/-! ## Framing -/

/-- The bytes of a packet header, what makes a header valid, and the size of the
payload. -/
structure Framing where
  bytes : ℕ
  marker : (ℕ → UInt8) → UInt32
  magic : UInt32
  size : (ℕ → UInt8) → ℕ
  pos : 0 < bytes
  lt : bytes < 2 ^ 31

/-- The loop of a receiver; `turn` is what it does with a packet in its buffer.
Every turn takes a byte at least, so that as many turns as bytes suffice. -/
def receiveLoop (o : Outside) (F : Framing) (turn : (ℕ → UInt8) → ReceiveM ρ Unit) :
    ℕ → ReceiveM ρ Unit
  | 0 => throw .read
  | n + 1 => do
      let desc := bytesOf (← nread F.bytes)
      if F.marker desc ≠ F.magic then throw .protocol
      else do
        growBuffer o (F.size desc)
        if F.size desc = 0 then pure ()
        else do
          readData (F.size desc)
          turn desc
          receiveLoop o F turn n

/-- The code, the file unless it is removed, the replies, and the number of calls. -/
structure Outcome (ρ : Type) where
  code : Option Sysexit
  file : Option File
  replies : List ρ
  calls : ℕ

/-- The last call is `close`, and a file goes away with any error. -/
def closeOut (o : Outside) : EStateM.Result Sysexit (Receiver ρ) Unit → Outcome ρ
  | .ok _ r =>
      if o.answer r.calls then ⟨none, some r.file, r.replies, r.calls + 1⟩
      else ⟨some .write, none, r.replies, r.calls + 1⟩
  | .error e r => ⟨some e, none, r.replies, r.calls + 1⟩

/-- A receiver that has just opened its file. -/
def Receiver.new (input : List UInt8) : Receiver ρ where
  input := input
  cluster := 0
  iobuf := fun _ => 0
  file := .empty
  calls := 0
  replies := []

/-- A whole receiver; `last` is what comes after its loop. -/
def receive (o : Outside) (F : Framing) (turn : (ℕ → UInt8) → ReceiveM ρ Unit)
    (last : ReceiveM ρ Unit) (input : List UInt8) : Outcome ρ :=
  closeOut o ((do receiveLoop o F turn input.length; last) (.new input))

structure Packet where
  desc : ℕ → UInt8
  data : List UInt8

/-- The stream begins with whole packets `ps`, of less than 2 GB each, and then an
empty one. -/
inductive Complete (F : Framing) : List UInt8 → List Packet → Prop
  | stop {s : List UInt8} (len : F.bytes ≤ s.length)
      (magic : F.marker (bytesOf (s.take F.bytes)) = F.magic)
      (zero : F.size (bytesOf (s.take F.bytes)) = 0) : Complete F s []
  | packet {s : List UInt8} {ps : List Packet} (len : F.bytes ≤ s.length)
      (magic : F.marker (bytesOf (s.take F.bytes)) = F.magic)
      (some : F.size (bytesOf (s.take F.bytes)) ≠ 0)
      (lt : F.size (bytesOf (s.take F.bytes)) < 2 ^ 31)
      (full : F.size (bytesOf (s.take F.bytes)) ≤ (s.drop F.bytes).length)
      (rest : Complete F ((s.drop F.bytes).drop (F.size (bytesOf (s.take F.bytes)))) ps) :
      Complete F s (⟨bytesOf (s.take F.bytes),
        (s.drop F.bytes).take (F.size (bytesOf (s.take F.bytes)))⟩ :: ps)

theorem Complete.unique {F : Framing} {s : List UInt8} {ps ps' : List Packet}
    (h : Complete F s ps) (h' : Complete F s ps') : ps = ps' := by
  induction h generalizing ps' with
  | stop _ _ zero =>
      cases h' with
      | stop => rfl
      | packet _ _ some => exact absurd zero some
  | packet _ _ some _ _ _ ih =>
      cases h' with
      | stop _ _ zero => exact absurd zero some
      | packet _ _ _ _ _ rest => exact congrArg _ (ih rest)

/-! ## What a run does -/

/-- A file and the replies. -/
abbrev Output (ρ : Type) := File × List ρ

def Receiver.output (r : Receiver ρ) : Output ρ := (r.file, r.replies)

/-- Every call so far did its work. -/
def Receiver.Fine (o : Outside) (r : Receiver ρ) : Prop := ∀ i < r.calls, o.answer i = true

section Spec

variable {o : Outside} {r : Receiver ρ}

theorem Receiver.Fine.succ (h : r.Fine o) (hanswer : o.answer r.calls = true) :
    Receiver.Fine o { r with calls := r.calls + 1 } := by
  intro i hi
  rcases Nat.lt_succ_iff_lt_or_eq.mp hi with hlt | rfl
  · exact h i hlt
  · exact hanswer

theorem call_spec (e : Sysexit) (h : r.Fine o) :
    Triple (fun s => s = r) (call o e) (fun _ s => s = { r with calls := r.calls + 1 } ∧ s.Fine o)
      (fun s => ¬ s.Fine o) := by
  refine Triple.look fun s hs => ?_
  subst hs
  refine Triple.step ?_
  by_cases hanswer : o.answer s.calls
  · rw [if_pos hanswer]
    refine Triple.ret fun t ht => ⟨ht, ?_⟩
    subst ht
    exact h.succ hanswer
  · rw [if_neg hanswer]
    refine Triple.raise fun t ht hfine => hanswer ?_
    subst ht
    exact hfine s.calls (Nat.lt_succ_self _)

theorem nread_spec {len : ℕ} : Triple (fun s => s = r) (nread len)
    (fun l s => len < 2 ^ 31 ∧ len ≤ r.input.length ∧ l = r.input.take len ∧
      s = { r with input := r.input.drop len })
    (fun _ => ¬ (len < 2 ^ 31 ∧ len ≤ r.input.length)) := by
  refine Triple.look fun s hs => ?_
  subst hs
  by_cases hlen : 2 ^ 31 ≤ len
  · rw [if_pos hlen]
    exact Triple.raise fun _ _ h => absurd h.1 (Nat.not_lt.mpr hlen)
  rw [if_neg hlen]
  by_cases hshort : s.input.length < len
  · rw [if_pos hshort]
    exact Triple.raise fun _ _ h => absurd h.2 (Nat.not_le.mpr hshort)
  rw [if_neg hshort]
  exact Triple.step (Triple.ret fun t ht => ⟨Nat.not_le.mp hlen, Nat.not_lt.mp hshort, rfl, ht⟩)

/-- The stream, the file and the replies are left alone. -/
structure SameBut (r s : Receiver ρ) : Prop where
  input : s.input = r.input
  file : s.file = r.file
  replies : s.replies = r.replies

theorem growBuffer_spec (size : ℕ) (h : r.Fine o) :
    Triple (fun s => s = r) (growBuffer o size) (fun _ s => SameBut r s ∧ s.Fine o)
      (fun s => ¬ s.Fine o) := by
  refine Triple.look fun s hs => ?_
  subst hs
  split
  · refine Triple.step (Triple.bind (call_spec .malloc h) fun _ => Triple.update ?_)
    rintro t ⟨rfl, ht⟩
    exact ⟨⟨rfl, rfl, rfl⟩, ht⟩
  · refine Triple.ret fun t ht => ?_
    subst ht
    exact ⟨⟨rfl, rfl, rfl⟩, h⟩

theorem readData_spec {size : ℕ} (h : r.Fine o) : Triple (fun s => s = r) (readData size)
    (fun _ s => size < 2 ^ 31 ∧ size ≤ r.input.length ∧ s.input = r.input.drop size ∧
      s.output = r.output ∧ (∀ i < size, s.iobuf i = bytesOf (r.input.take size) i) ∧
      s.Fine o)
    (fun _ => ¬ (size < 2 ^ 31 ∧ size ≤ r.input.length)) := by
  refine Triple.bind nread_spec fun l => Triple.update ?_
  rintro s ⟨hlt, hle, rfl, rfl⟩
  refine ⟨hlt, hle, rfl, rfl, fun i hi => ?_, h⟩
  change overlay _ 0 size (bytesOf _) i = _
  rw [overlay_of_mem (Nat.zero_le i) (by omega), Nat.sub_zero]

theorem writeData_spec (size pos : ℕ) (h : r.Fine o) :
    Triple (fun s => s = r) (writeData o size pos)
      (fun _ s => s.input = r.input ∧ s.file = r.file.pwrite ⟨pos, size, r.iobuf⟩ ∧
        s.replies = r.replies ∧ s.Fine o) (fun s => ¬ s.Fine o) := by
  refine Triple.bind (call_spec .write h) fun _ => Triple.update ?_
  rintro s ⟨rfl, hs⟩
  exact ⟨rfl, rfl, rfl, hs⟩

theorem dataSync_spec (h : r.Fine o) : Triple (fun s => s = r) (dataSync o)
    (fun _ s => s.input = r.input ∧ s.output = r.output ∧ s.Fine o) (fun s => ¬ s.Fine o) := by
  refine (call_spec .write h).conseq (fun _ hs => hs) ?_ fun _ hs => hs
  rintro _ s ⟨rfl, hs⟩
  exact ⟨rfl, rfl, hs⟩

theorem reply_spec (ret : ρ) (h : r.Fine o) : Triple (fun s => s = r) (reply o ret)
    (fun _ s => s.input = r.input ∧ s.output = (r.file, r.replies ++ [ret]) ∧ s.Fine o)
    (fun s => ¬ s.Fine o) := by
  refine Triple.bind (call_spec .write h) fun _ => Triple.update ?_
  rintro s ⟨rfl, hs⟩
  exact ⟨rfl, rfl, hs⟩

end Spec

/-! ## Turns -/

/-- A run of `R` over all packets. -/
def Runs (R : Packet → Output ρ → Output ρ → Prop) : List Packet → Output ρ → Output ρ → Prop
  | [], x, y => y = x
  | p :: ps, x, y => ∃ z, R p x z ∧ Runs R ps z y

/-- The turn does `R` to the output unless a call fails. -/
def Does (o : Outside) (F : Framing) (turn : (ℕ → UInt8) → ReceiveM ρ Unit)
    (R : Packet → Output ρ → Output ρ → Prop) : Prop :=
  ∀ (p : Packet) (r : Receiver ρ), p.data.length = F.size p.desc →
    (∀ i < F.size p.desc, r.iobuf i = bytesOf p.data i) → r.Fine o →
    Triple (fun s => s = r) (turn p.desc)
      (fun _ s => s.input = r.input ∧ R p r.output s.output ∧ s.Fine o) (fun s => ¬ s.Fine o)

/-- The loop goes through the packets of a complete stream. It ends with an error
only if a call fails or the stream is not complete. -/
theorem receiveLoop_spec {o : Outside} {F : Framing} {turn : (ℕ → UInt8) → ReceiveM ρ Unit}
    {R : Packet → Output ρ → Output ρ → Prop} (hturn : Does o F turn R) (n : ℕ) {r : Receiver ρ}
    (hn : r.input.length ≤ n) (h : r.Fine o) :
    Triple (fun s => s = r) (receiveLoop o F turn n)
      (fun _ s => s.Fine o ∧ ∃ ps, Complete F r.input ps ∧ Runs R ps r.output s.output)
      (fun s => s.Fine o → ∀ ps, ¬ Complete F r.input ps) := by
  induction n generalizing r with
  | zero =>
      refine Triple.raise fun _ _ _ ps hps => ?_
      have hpos := F.pos
      have hlen : F.bytes ≤ r.input.length := by cases hps <;> assumption
      omega
  | succ n ih =>
      refine Triple.bind (nread_spec.conseq (fun _ hs => hs) (fun _ _ hs => hs)
        fun _ hs _ ps hps => hs ⟨F.lt, by cases hps <;> assumption⟩) fun l =>
          Triple.start fun s hs => ?_
      obtain ⟨-, hlen, rfl, rfl⟩ := hs
      dsimp only
      by_cases hmagic : F.marker (bytesOf (r.input.take F.bytes)) = F.magic
      swap
      · rw [if_pos hmagic]
        exact Triple.raise fun _ _ _ ps hps => hmagic (by cases hps <;> assumption)
      rw [if_neg (not_not.mpr hmagic)]
      refine Triple.bind ((@growBuffer_spec ρ o { r with input := r.input.drop F.bytes } _ h).conseq
        (fun _ hs => hs) (fun _ _ hs => hs) fun _ hs hfine => absurd hfine hs) fun _ =>
          Triple.start fun s hs => ?_
      obtain ⟨hsame, hs⟩ := hs
      have hinput : s.input = r.input.drop F.bytes := hsame.input
      have houtput : s.output = r.output := Prod.ext hsame.file hsame.replies
      by_cases hzero : F.size (bytesOf (r.input.take F.bytes)) = 0
      · rw [if_pos hzero]
        refine Triple.ret fun t ht => ?_
        subst ht
        exact ⟨hs, [], .stop hlen hmagic hzero, houtput⟩
      rw [if_neg hzero]
      refine Triple.bind ((readData_spec hs).conseq (fun _ hs => hs) (fun _ _ hs => hs)
        fun _ ht _ ps hps => ?_) fun _ => Triple.start fun t ht => ?_
      · rw [hinput] at ht
        cases hps with
        | stop _ _ zero => exact hzero zero
        | packet _ _ _ lt full => exact ht ⟨lt, full⟩
      obtain ⟨hlt, hfull, hrest, houtput', hbuf, ht⟩ := ht
      rw [hinput] at hfull hrest hbuf
      have hdata : ((r.input.drop F.bytes).take
          (F.size (bytesOf (r.input.take F.bytes)))).length =
            F.size (bytesOf (r.input.take F.bytes)) := List.length_take_of_le hfull
      refine Triple.bind ((hturn ⟨_, _⟩ t hdata hbuf ht).conseq (fun _ hs => hs) (fun _ _ hs => hs)
        fun _ hs hfine => absurd hfine hs) fun _ => Triple.start fun u hu => ?_
      obtain ⟨huinput, hR, hu⟩ := hu
      rw [hrest] at huinput
      have hn' : u.input.length ≤ n := by
        rw [huinput, List.length_drop, List.length_drop]
        have hpos := F.pos
        omega
      refine (ih hn' hu).conseq (fun _ hs => hs) (fun _ v hv => ?_) fun v hv hfine ps hps => ?_
      · obtain ⟨hv, ps, hps, hruns⟩ := hv
        rw [huinput] at hps
        rw [houtput', houtput] at hR
        exact ⟨hv, _, .packet hlen hmagic hzero hlt hfull hps, _, hR, hruns⟩
      · rw [huinput] at hv
        cases hps with
        | stop _ _ zero => exact hzero zero
        | packet _ _ _ _ _ rest => exact hv hfine _ rest

/-- A receiver returns 0 exactly for a complete stream with no failed call. -/
theorem receive_spec {o : Outside} {F : Framing} {turn : (ℕ → UInt8) → ReceiveM ρ Unit}
    {last : ReceiveM ρ Unit} {R : Packet → Output ρ → Output ρ → Prop} {ends : List ρ}
    (hturn : Does o F turn R)
    (hlast : ∀ r : Receiver ρ, r.Fine o → Triple (fun s => s = r) last
      (fun _ s => s.output = (r.file, r.replies ++ ends) ∧ s.Fine o) (fun s => ¬ s.Fine o))
    (input : List UInt8) {x : Outcome ρ} (hx : receive o F turn last input = x) :
    (x.code = none ↔ (∃ ps, Complete F input ps) ∧ ∀ i < x.calls, o.answer i = true) ∧
      (x.code = none → ∃ ps f l, Complete F input ps ∧ Runs R ps (File.empty, []) (f, l) ∧
        x.file = some f ∧ x.replies = l ++ ends) ∧
      (x.code ≠ none → x.file = none) := by
  have hbody : Triple (fun s => s = .new input) (do receiveLoop o F turn input.length; last)
      (fun _ s => s.Fine o ∧ ∃ ps f l, Complete F input ps ∧ Runs R ps (File.empty, []) (f, l) ∧
        s.output = (f, l ++ ends))
      (fun s => s.Fine o → ∀ ps, ¬ Complete F input ps) := by
    refine Triple.bind (receiveLoop_spec hturn _ le_rfl fun i hi => absurd hi i.not_lt_zero)
      fun _ => Triple.start fun r hr => ?_
    obtain ⟨hr, ps, hps, hruns⟩ := hr
    refine (hlast r hr).conseq (fun _ hs => hs) (fun _ s hs => ?_) fun _ hs hfine => absurd hfine hs
    exact ⟨hs.2, ps, r.file, r.replies, hps, hruns, hs.1⟩
  subst hx
  unfold receive
  cases hrun : (do receiveLoop o F turn input.length; last) (.new input) with
  | ok a r =>
      obtain ⟨hr, ps, f, l, hps, hruns, hout⟩ := hbody.ok rfl hrun
      obtain ⟨hf, hl⟩ := Prod.mk.inj hout
      rw [closeOut]
      split
      case isTrue hclose =>
        refine ⟨⟨fun _ => ⟨⟨ps, hps⟩, hr.succ hclose⟩, fun _ => rfl⟩, fun _ => ?_, fun h => ?_⟩
        · exact ⟨ps, f, l, hps, hruns, congrArg some hf, hl⟩
        · exact absurd rfl h
      case isFalse hclose =>
        refine ⟨⟨nofun, fun h => ?_⟩, nofun, fun _ => rfl⟩
        exact absurd (h.2 r.calls (Nat.lt_succ_self _)) hclose
  | error e r =>
      have hnot := hbody.err rfl hrun
      refine ⟨⟨nofun, fun h => ?_⟩, nofun, fun _ => rfl⟩
      obtain ⟨⟨ps, hps⟩, hall⟩ := h
      exact absurd hps (hnot (fun i hi => hall i (Nat.lt_succ_of_lt hi)) ps)

end Ploop.Receive
