import Ploop.Copy.Packets

/-!
# The receiver

`ploop_copy_receiver` answers a type or a command it does not know with
`SYSEXIT_PARAM` and goes on. Only a broken stream or a failed call ends it.
-/

namespace Ploop.Receive

open Storage Program

/-! ## `struct pcopy_pkt_desc` -/

def pcopyMarker : UInt32 := 0x4cc0ac3e

def pcopyPktDesc : Framing where
  bytes := 24
  marker d := rd32 d 0
  magic := pcopyMarker
  size d := (rd32 d 8).toNat
  pos := by decide
  lt := by decide

def pktType (d : ℕ → UInt8) : UInt32 := rd32 d 4

def pktPos (d : ℕ → UInt8) : ℕ := rd64 d 16

def pcopyPktData : UInt32 := 0

def pcopyPktCmd : UInt32 := 1

def pcopyPktDataAsync : UInt32 := 2

def pcopyCmdSync : UInt32 := 0

/-! ## `ploop_copy_receiver` -/

/-- The `switch` over the type. -/
def dispatch (o : Outside) (desc : ℕ → UInt8) : ReceiveM (Option Sysexit) (Option Sysexit) := do
  if pktType desc = pcopyPktData ∨ pktType desc = pcopyPktDataAsync then do
    writeData o (pcopyPktDesc.size desc) (pktPos desc)
    pure none
  else if pktType desc = pcopyPktCmd then do
    let cmd := rd32 (← get).iobuf 0
    if cmd = pcopyCmdSync then do
      dataSync o
      pure none
    else pure (some .param)
  else pure (some .param)

def receiverTurn (o : Outside) (desc : ℕ → UInt8) : ReceiveM (Option Sysexit) Unit := do
  let ret ← dispatch o desc
  if pktType desc ≠ pcopyPktDataAsync then reply o ret else pure ()

def finalReply (o : Outside) : ReceiveM (Option Sysexit) Unit := do
  dataSync o
  reply o none

def ploopCopyReceiver (o : Outside) (input : List UInt8) : Outcome (Option Sysexit) :=
  receive o pcopyPktDesc (receiverTurn o) (finalReply o) input

/-! ## What a packet means -/

def IsData (p : Packet) : Prop :=
  pktType p.desc = pcopyPktData ∨ pktType p.desc = pcopyPktDataAsync

instance (p : Packet) : Decidable (IsData p) := inferInstanceAs (Decidable (_ ∨ _))

def applyData (f : File) (p : Packet) : File :=
  if IsData p then f.pwrite ⟨pktPos p.desc, p.data.length, bytesOf p.data⟩ else f

def IsSync (p : Packet) : Prop :=
  pktType p.desc = pcopyPktCmd ∧ rd32 (bytesOf p.data) 0 = pcopyCmdSync

instance (p : Packet) : Decidable (IsSync p) := inferInstanceAs (Decidable (_ ∧ _))

def answers (p : Packet) : List (Option Sysexit) :=
  if pktType p.desc = pcopyPktDataAsync then []
  else if IsData p ∨ IsSync p then [none] else [some .param]

/-- A command fills the word it is read from. -/
def WholeCmd (p : Packet) : Prop := pktType p.desc = pcopyPktCmd → 4 ≤ p.data.length

def Served (p : Packet) (x y : Output (Option Sysexit)) : Prop :=
  y.1 = applyData x.1 p ∧ (WholeCmd p → y.2 = x.2 ++ answers p)

theorem runs_served {ps : List Packet} {x y : Output (Option Sysexit)} (h : Runs Served ps x y) :
    y.1 = ps.foldl applyData x.1 ∧ ((∀ p ∈ ps, WholeCmd p) → y.2 = x.2 ++ ps.flatMap answers) := by
  induction ps generalizing x with
  | nil =>
      subst h
      exact ⟨rfl, fun _ => (List.append_nil _).symm⟩
  | cons p ps ih =>
      obtain ⟨z, ⟨hfile, hreplies⟩, hrest⟩ := h
      obtain ⟨ihfile, ihreplies⟩ := ih hrest
      constructor
      · rw [ihfile, hfile, List.foldl_cons]
      · intro hcmd
        rw [ihreplies fun q hq => hcmd q (List.mem_cons_of_mem _ hq),
          hreplies (hcmd p List.mem_cons_self), List.flatMap_cons, List.append_assoc]

/-! ## A turn -/

section Turn

variable {o : Outside} {r : Receiver (Option Sysexit)}

/-- The command word comes from the payload if that has four bytes. -/
theorem dispatch_spec {p : Packet} (hlen : p.data.length = pcopyPktDesc.size p.desc)
    (hbuf : ∀ i < pcopyPktDesc.size p.desc, r.iobuf i = bytesOf p.data i) (h : r.Fine o) :
    Triple (fun s => s = r) (dispatch o p.desc)
      (fun ret s => s.input = r.input ∧ s.file = applyData r.file p ∧ s.replies = r.replies ∧
        s.Fine o ∧ (WholeCmd p → ret = if IsData p ∨ IsSync p then none else some .param))
      (fun s => ¬ s.Fine o) := by
  unfold dispatch
  by_cases hdata : pktType p.desc = pcopyPktData ∨ pktType p.desc = pcopyPktDataAsync
  · rw [if_pos hdata]
    refine Triple.bind (writeData_spec _ _ h) fun _ => Triple.ret fun s hs => ?_
    obtain ⟨hinput, hfile, hreplies, hs⟩ := hs
    refine ⟨hinput, ?_, hreplies, hs, fun _ => (if_pos (Or.inl hdata)).symm⟩
    have hp : IsData p := hdata
    rw [hfile, applyData, if_pos hp, hlen]
    exact File.pwrite_congr _ hbuf
  rw [if_neg hdata]
  have hkeep : applyData r.file p = r.file := if_neg hdata
  by_cases hcmd : pktType p.desc = pcopyPktCmd
  swap
  · rw [if_neg hcmd]
    refine Triple.ret fun s hs => ?_
    subst hs
    refine ⟨rfl, hkeep.symm, rfl, h, fun _ => (if_neg ?_).symm⟩
    rintro (hp | hp)
    · exact hdata hp
    · exact hcmd hp.1
  rw [if_pos hcmd]
  refine Triple.look fun s hs => ?_
  subst hs
  have hword : WholeCmd p → rd32 s.iobuf 0 = rd32 (bytesOf p.data) 0 := fun hp =>
    rd32_congr fun i hi => hbuf _ (by have := hp hcmd; omega)
  by_cases hsync : rd32 s.iobuf 0 = pcopyCmdSync
  · rw [if_pos hsync]
    refine Triple.bind (dataSync_spec h) fun _ => Triple.ret fun t ht => ?_
    obtain ⟨hinput, hout, ht⟩ := ht
    obtain ⟨hfile, hreplies⟩ := Prod.mk.inj hout
    refine ⟨hinput, hfile.trans hkeep.symm, hreplies, ht, fun hp => (if_pos (Or.inr ?_)).symm⟩
    exact ⟨hcmd, (hword hp).symm.trans hsync⟩
  · rw [if_neg hsync]
    refine Triple.ret fun t ht => ?_
    subst ht
    refine ⟨rfl, hkeep.symm, rfl, h, fun hp => (if_neg ?_).symm⟩
    rintro (hp' | hp')
    · exact hdata hp'
    · exact hsync ((hword hp).trans hp'.2)

end Turn

theorem receiverTurn_does (o : Outside) : Does o pcopyPktDesc (receiverTurn o) Served := by
  intro p r hlen hbuf h
  refine Triple.bind (dispatch_spec hlen hbuf h) fun ret => Triple.start fun s hs => ?_
  obtain ⟨hinput, hfile, hreplies, hs, hret⟩ := hs
  by_cases hasync : pktType p.desc = pcopyPktDataAsync
  · rw [if_neg (not_not.mpr hasync)]
    refine Triple.ret fun t ht => ?_
    subst ht
    refine ⟨hinput, ⟨hfile, fun _ => ?_⟩, hs⟩
    rw [answers, if_pos hasync, List.append_nil]
    exact hreplies
  · rw [if_pos hasync]
    refine (reply_spec ret hs).conseq (fun _ ht => ht) (fun _ t ht => ?_) fun _ ht => ht
    obtain ⟨htinput, htout, ht⟩ := ht
    obtain ⟨htfile, htreplies⟩ := Prod.mk.inj htout
    refine ⟨htinput.trans hinput, ⟨htfile.trans hfile, fun hp => ?_⟩, ht⟩
    have hanswer : answers p = [ret] := by
      rw [answers, if_neg hasync, hret hp]
      split <;> rfl
    change t.replies = r.replies ++ answers p
    rw [htreplies, hreplies, hanswer]

theorem finalReply_spec {o : Outside} (r : Receiver (Option Sysexit)) (h : r.Fine o) :
    Triple (fun s => s = r) (finalReply o)
      (fun _ s => s.output = (r.file, r.replies ++ [none]) ∧ s.Fine o) (fun s => ¬ s.Fine o) := by
  refine Triple.bind (dataSync_spec h) fun _ => Triple.start fun s hs => ?_
  obtain ⟨-, hout, hs⟩ := hs
  obtain ⟨hfile, hreplies⟩ := Prod.mk.inj hout
  refine (reply_spec none hs).conseq (fun _ ht => ht) (fun _ t ht => ?_) fun _ ht => ht
  rw [hfile, hreplies] at ht
  exact ht.2

/-! ## Accepted streams -/

/-- The receiver returns 0 exactly for whole packets up to an empty one, with no
failed call. The file then has the data of all packets in their order, and every
other packet had its answer. -/
theorem ploopCopyReceiver_iff (o : Outside) (input : List UInt8) :
    ((ploopCopyReceiver o input).code = none ↔ (∃ ps, Complete pcopyPktDesc input ps) ∧
        ∀ i < (ploopCopyReceiver o input).calls, o.answer i = true) ∧
      (∀ ps, Complete pcopyPktDesc input ps → (ploopCopyReceiver o input).code = none →
        (ploopCopyReceiver o input).file = some (ps.foldl applyData .empty) ∧
        ((∀ p ∈ ps, WholeCmd p) →
          (ploopCopyReceiver o input).replies = ps.flatMap answers ++ [none])) ∧
      ((ploopCopyReceiver o input).code ≠ none → (ploopCopyReceiver o input).file = none) := by
  obtain ⟨hiff, hzero, hgone⟩ :=
    receive_spec (receiverTurn_does o) (finalReply_spec (o := o)) input rfl
  refine ⟨hiff, fun ps hps hcode => ?_, hgone⟩
  obtain ⟨ps', f, l, hps', hruns, hfile, hreplies⟩ := hzero hcode
  obtain rfl := hps.unique hps'
  obtain ⟨hdata, hanswers⟩ := runs_served hruns
  constructor
  · exact hfile.trans (congrArg some hdata)
  · intro hcmd
    have hl : l = ps.flatMap answers := (hanswers hcmd).trans (List.nil_append _)
    exact hreplies.trans (congrArg (· ++ [none]) hl)

/-- Data, or a command of four bytes that is known. -/
def Supported (p : Packet) : Prop := IsData p ∨ (IsSync p ∧ p.data.length = 4)

instance (p : Packet) : Decidable (Supported p) := inferInstanceAs (Decidable (_ ∨ _))

/-- Command 1, and then the empty packet. -/
def unknownCmd : List UInt8 :=
  [0x3e, 0xac, 0xc0, 0x4c, 1, 0, 0, 0, 4, 0, 0, 0] ++ List.replicate 12 0 ++ [1, 0, 0, 0] ++
    [0x3e, 0xac, 0xc0, 0x4c] ++ List.replicate 20 0

def unknownPacket : Packet := ⟨bytesOf (unknownCmd.take 24), [1, 0, 0, 0]⟩

theorem complete_unknownCmd : Complete pcopyPktDesc unknownCmd [unknownPacket] :=
  .packet (by decide) (by decide) (by decide) (by decide) (by decide)
    (.stop (by decide) (by decide) (by decide))

/-- With every call fine, the receiver returns 0 for a command it does not know. -/
theorem ploopCopyReceiver_not_iff_supported :
    ¬ ∀ (o : Outside) (input : List UInt8), (ploopCopyReceiver o input).code = none ↔
      (∃ ps, Complete pcopyPktDesc input ps ∧ ∀ p ∈ ps, Supported p) ∧
        ∀ i < (ploopCopyReceiver o input).calls, o.answer i = true := by
  intro h
  have hcode : (ploopCopyReceiver ⟨fun _ => true, fun _ _ => 0⟩ unknownCmd).code = none := by decide
  obtain ⟨⟨ps, hps, hall⟩, -⟩ := (h _ _).mp hcode
  obtain rfl := hps.unique complete_unknownCmd
  exact absurd (hall _ List.mem_cons_self) (by decide)

end Ploop.Receive
