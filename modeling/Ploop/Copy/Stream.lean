import Ploop.Copy.Packets

/-!
# The older stream

`struct xfer_desc` has no type. A packet of `SYNC_MARK` bytes is a command to
`ploop_copy_receive`, so that its bytes are not written.
-/

namespace Ploop.Receive

open Storage Program

def syncMark : ℕ := 4

def ploopcopyMarker : UInt32 := 0x4cc0ac3d

theorem xferDesc_pos : 0 < 16 := by decide

theorem xferDesc_lt : 16 < 2 ^ 31 := by decide

def xferDesc : Framing where
  bytes := 16
  marker d := rd32 d 0
  magic := ploopcopyMarker
  size d := (rd32 d 4).toNat
  pos := xferDesc_pos
  lt := xferDesc_lt

def xferPos (d : ℕ → UInt8) : ℕ := rd64 d 8

/-! ## `ploop_copy_receive` -/

inductive Status where
  | ok
  | fail
  deriving DecidableEq, Repr

/-- A reply that is not written is an error unless the sync has failed already. -/
def tellStatus (o : Outside) (st : Bool) : ReceiveM Status Unit := do
  let n := (← get).calls
  modify fun r => { r with calls := n + 1 }
  if o.answer n then
    modify fun r => { r with replies := r.replies ++ [if st then Status.ok else Status.fail] }
  else if st then throw .write
  else pure ()

/-- The payload is ignored, and `feedback` tells that there is a descriptor for
replies. -/
def syncTurn (o : Outside) (feedback : Bool) : ReceiveM Status Unit := do
  let n := (← get).calls
  modify fun r => { r with calls := n + 1 }
  (if feedback then tellStatus o (o.answer n) else pure ())
  if o.answer n then pure () else throw .write

def xferTurn (o : Outside) (feedback : Bool) (desc : ℕ → UInt8) : ReceiveM Status Unit :=
  if xferDesc.size desc = syncMark then syncTurn o feedback
  else writeData o (xferDesc.size desc) (xferPos desc)

def ploopCopyReceive (o : Outside) (feedback : Bool) (input : List UInt8) : Outcome Status :=
  receive o xferDesc (xferTurn o feedback) (dataSync o) input

/-! ## What a packet does -/

def Decoded (feedback : Bool) (p : Packet) (x y : Output Status) : Prop :=
  if xferDesc.size p.desc = syncMark then
    y = (x.1, x.2 ++ if feedback then [Status.ok] else [])
  else y = (x.1.pwrite ⟨xferPos p.desc, p.data.length, bytesOf p.data⟩, x.2)

section Turn

variable {o : Outside} {r : Receiver Status}

theorem tellStatus_spec (h : r.Fine o) : Triple (fun s => s = r) (tellStatus o true)
    (fun _ s => s.input = r.input ∧ s.output = (r.file, r.replies ++ [Status.ok]) ∧ s.Fine o)
    (fun s => ¬ s.Fine o) := by
  refine Triple.look fun s hs => ?_
  subst hs
  refine Triple.step ?_
  by_cases hanswer : o.answer s.calls
  · rw [if_pos hanswer]
    refine Triple.update fun t ht => ?_
    subst ht
    exact ⟨rfl, rfl, h.succ hanswer⟩
  · rw [if_neg hanswer]
    refine Triple.raise fun t ht hfine => hanswer ?_
    subst ht
    exact hfine s.calls (Nat.lt_succ_self _)

theorem tellStatus_calls (st : Bool) : Triple (fun s => s = r) (tellStatus o st)
    (fun _ s => r.calls ≤ s.calls) (fun s => r.calls ≤ s.calls) := by
  refine Triple.look fun s hs => ?_
  subst hs
  refine Triple.step ?_
  have hgrow (t : Receiver Status) (ht : t = { s with calls := s.calls + 1 }) :
      s.calls ≤ t.calls := ht ▸ Nat.le_succ _
  split
  · exact Triple.update hgrow
  split
  · exact Triple.raise hgrow
  · exact Triple.ret hgrow

theorem syncTurn_spec (feedback : Bool) (h : r.Fine o) :
    Triple (fun s => s = r) (syncTurn o feedback)
      (fun _ s => s.input = r.input ∧
        s.output = (r.file, r.replies ++ if feedback then [Status.ok] else []) ∧ s.Fine o)
      (fun s => ¬ s.Fine o) := by
  refine Triple.look fun s hs => ?_
  subst hs
  refine Triple.step ?_
  by_cases hanswer : o.answer s.calls
  · have hnext := h.succ hanswer
    rw [if_pos hanswer, hanswer]
    cases feedback with
    | false =>
        refine Triple.ret fun t ht => ?_
        subst ht
        exact ⟨rfl, Prod.ext rfl (List.append_nil _).symm, hnext⟩
    | true => exact Triple.bind (tellStatus_spec hnext) fun _ => Triple.ret fun t ht => ht
  -- The failed sync ends the turn, whatever comes of its reply.
  · rw [if_neg hanswer]
    have hfail {t : Receiver Status} (ht : s.calls + 1 ≤ t.calls) : ¬ t.Fine o :=
      fun hfine => hanswer (hfine _ ht)
    refine Triple.bind (R := fun _ t => s.calls + 1 ≤ t.calls) ?_ fun _ =>
      Triple.raise fun t ht => hfail ht
    cases feedback with
    | false =>
        refine Triple.ret fun t ht => ?_
        subst ht
        exact le_rfl
    | true =>
        exact (tellStatus_calls _).conseq (fun _ ht => ht) (fun _ _ ht => ht) fun _ ht => hfail ht

end Turn

theorem xferTurn_does (o : Outside) (feedback : Bool) :
    Does o xferDesc (xferTurn o feedback) (Decoded feedback) := by
  intro p r hlen hbuf h
  by_cases hsize : xferDesc.size p.desc = syncMark
  · rw [xferTurn, if_pos hsize]
    refine (syncTurn_spec feedback h).conseq (fun _ hs => hs) (fun _ s hs => ?_) fun _ hs => hs
    rw [Decoded, if_pos hsize]
    exact hs
  · rw [xferTurn, if_neg hsize]
    refine (writeData_spec _ _ h).conseq (fun _ hs => hs) (fun _ s hs => ?_) fun _ hs => hs
    obtain ⟨hinput, hfile, hreplies, hs⟩ := hs
    refine ⟨hinput, ?_, hs⟩
    rw [Decoded, if_neg hsize, hlen]
    exact Prod.ext (hfile.trans (File.pwrite_congr _ hbuf)) hreplies

/-! ## `remote_write` -/

def xferHeader (len pos : ℕ) : List UInt8 :=
  (List.range 16).map (wordBytes fun i =>
    if i = 0 then ploopcopyMarker else if i = 1 then UInt32.ofNat len
    else if i = 2 then lo32 pos else hi32 pos)

/-- Nothing follows the header of an empty packet. -/
def remoteWrite (iobuf : ℕ → UInt8) (len pos : ℕ) : List UInt8 :=
  xferHeader len pos ++ if len ≠ 0 then (List.range len).map iobuf else []

/-- What `async_send` is given: `len` is a positive `int` and `pos` an `off_t`. -/
structure Block where
  buf : ℕ → UInt8
  len : ℕ
  pos : ℕ
  len_pos : 0 < len
  len_lt : len < 2 ^ 31
  pos_lt : pos < 2 ^ 63

/-- Data, or the sync command with some bytes of the buffer. -/
inductive Sending where
  | data (b : Block)
  | sync (buf : ℕ → UInt8)

def Sending.emit : Sending → List UInt8
  | data b => remoteWrite b.buf b.len b.pos
  | sync buf => remoteWrite buf syncMark 0

/-- A whole stream; the last packet is `async_send(0, 0)`. -/
def stream (l : List Sending) (buf : ℕ → UInt8) : List UInt8 :=
  l.flatMap Sending.emit ++ remoteWrite buf 0 0

def applySent (f : File) : Sending → File
  | .data b => f.pwrite ⟨b.pos, b.len, b.buf⟩
  | .sync _ => f

section Encode

theorem bytesOf_map_range (f : ℕ → UInt8) {n i : ℕ} (hi : i < n) :
    bytesOf ((List.range n).map f) i = f i := by
  simp [bytesOf, hi]

theorem length_xferHeader (len pos : ℕ) : (xferHeader len pos).length = 16 := by
  simp [xferHeader]

theorem rd32_xferHeader (len pos : ℕ) {i : ℕ} (hi : i < 4) :
    rd32 (bytesOf (xferHeader len pos)) (4 * i) =
      if i = 0 then ploopcopyMarker else if i = 1 then UInt32.ofNat len
      else if i = 2 then lo32 pos else hi32 pos := by
  rw [← rd32_wordBytes (fun i => if i = 0 then ploopcopyMarker else if i = 1 then UInt32.ofNat len
    else if i = 2 then lo32 pos else hi32 pos) i]
  exact rd32_congr fun k hk => bytesOf_map_range _ (by omega)

theorem marker_xferHeader (len pos : ℕ) :
    xferDesc.marker (bytesOf (xferHeader len pos)) = xferDesc.magic :=
  rd32_xferHeader len pos (i := 0) (by norm_num)

theorem size_xferHeader {len : ℕ} (hlen : len < 2 ^ 31) (pos : ℕ) :
    xferDesc.size (bytesOf (xferHeader len pos)) = len := by
  change (rd32 _ (4 * 1)).toNat = len
  rw [rd32_xferHeader len pos (by norm_num)]
  exact UInt32.toNat_ofNat_of_lt' (by change len < 2 ^ 32; omega)

theorem xferPos_xferHeader (len : ℕ) {pos : ℕ} (hpos : pos < 2 ^ 63) :
    xferPos (bytesOf (xferHeader len pos)) = pos := by
  change (rd32 _ (4 * 2)).toNat + 2 ^ 32 * (rd32 _ (4 * 3)).toNat = pos
  rw [rd32_xferHeader len pos (by norm_num), rd32_xferHeader len pos (by norm_num)]
  exact lo32_hi32 (by omega)

/-- The packet that arrives. -/
def xferPacket (buf : ℕ → UInt8) (len pos : ℕ) : Packet :=
  ⟨bytesOf (xferHeader len pos), (List.range len).map buf⟩

theorem complete_remoteWrite (buf : ℕ → UInt8) {len : ℕ} (hpos : 0 < len) (hlt : len < 2 ^ 31)
    (pos : ℕ) {s : List UInt8} {ps : List Packet} (h : Complete xferDesc s ps) :
    Complete xferDesc (remoteWrite buf len pos ++ s) (xferPacket buf len pos :: ps) := by
  have hwrite : remoteWrite buf len pos ++ s =
      xferHeader len pos ++ ((List.range len).map buf ++ s) := by
    rw [remoteWrite, if_pos hpos.ne', List.append_assoc]
  have htake : (xferHeader len pos ++ ((List.range len).map buf ++ s)).take xferDesc.bytes =
      xferHeader len pos := List.take_left' (length_xferHeader len pos)
  have hdrop : (xferHeader len pos ++ ((List.range len).map buf ++ s)).drop xferDesc.bytes =
      (List.range len).map buf ++ s := List.drop_left' (length_xferHeader len pos)
  have hsize := size_xferHeader hlt pos
  have hdata : ((List.range len).map buf).length = len := by simp
  have hpacket := @Complete.packet xferDesc (remoteWrite buf len pos ++ s) ps
  rw [hwrite, htake, hdrop, hsize, List.take_left' hdata, List.drop_left' hdata] at hpacket
  rw [hwrite]
  refine hpacket ?_ (marker_xferHeader len pos) hpos.ne' hlt ?_ h
  · rw [List.length_append, length_xferHeader]
    exact Nat.le_add_right _ _
  · rw [List.length_append, hdata]
    exact Nat.le_add_right _ _

theorem complete_last (buf : ℕ → UInt8) : Complete xferDesc (remoteWrite buf 0 0) [] := by
  have hwrite : remoteWrite buf 0 0 = xferHeader 0 0 := List.append_nil _
  have htake : (xferHeader 0 0).take xferDesc.bytes = xferHeader 0 0 :=
    List.take_of_length_le (length_xferHeader 0 0).le
  rw [hwrite]
  apply Complete.stop
  · exact (length_xferHeader 0 0).ge
  · rw [htake]
    exact marker_xferHeader 0 0
  · rw [htake]
    exact size_xferHeader (by norm_num) 0

def Sending.packet : Sending → Packet
  | data b => xferPacket b.buf b.len b.pos
  | sync buf => xferPacket buf syncMark 0

theorem complete_stream (l : List Sending) (buf : ℕ → UInt8) :
    Complete xferDesc (stream l buf) (l.map Sending.packet) := by
  induction l with
  | nil => exact complete_last buf
  | cons x l ih =>
      have happend : stream (x :: l) buf = x.emit ++ stream l buf := by
        rw [stream, List.flatMap_cons, List.append_assoc, stream]
      rw [happend, List.map_cons]
      cases x with
      | data b => exact complete_remoteWrite b.buf b.len_pos b.len_lt b.pos ih
      | sync b => exact complete_remoteWrite b (by decide) (by decide) 0 ih

end Encode

/-! ## Decoding what was sent -/

/-- A block of another length than the sync command. -/
def Sending.Plain : Sending → Prop
  | data b => b.len ≠ syncMark
  | sync _ => True

def Sending.isSync : Sending → Bool
  | data _ => false
  | sync _ => true

theorem decoded_packet {feedback : Bool} {x : Sending} (h : x.Plain) {y z : Output Status}
    (hdecoded : Decoded feedback x.packet y z) :
    z = (applySent y.1 x, y.2 ++ if feedback && x.isSync then [Status.ok] else []) := by
  cases x with
  | data b =>
      have hsize : xferDesc.size (Sending.data b).packet.desc = b.len :=
        size_xferHeader b.len_lt b.pos
      rw [Decoded, hsize, if_neg h] at hdecoded
      have hlen : (Sending.data b).packet.data.length = b.len := by
        change ((List.range b.len).map b.buf).length = b.len
        simp
      have hpos : xferPos (Sending.data b).packet.desc = b.pos := xferPos_xferHeader b.len b.pos_lt
      rw [hdecoded, hlen, hpos]
      refine Prod.ext (File.pwrite_congr _ fun i hi => bytesOf_map_range b.buf hi) ?_
      simp [Sending.isSync]
  | sync buf =>
      have hsize : xferDesc.size (Sending.sync buf).packet.desc = syncMark :=
        size_xferHeader (by decide) 0
      rw [Decoded, if_pos hsize] at hdecoded
      rw [hdecoded, applySent, Sending.isSync, Bool.and_true]

/-- All blocks are in the file, and each sync command had its reply. -/
theorem runs_decoded {feedback : Bool} {l : List Sending} (h : ∀ x ∈ l, x.Plain)
    {y z : Output Status} (hruns : Runs (Decoded feedback) (l.map Sending.packet) y z) :
    z = (l.foldl applySent y.1, y.2 ++ l.flatMap fun x =>
      if feedback && x.isSync then [Status.ok] else []) := by
  induction l generalizing y with
  | nil => exact hruns.trans (Prod.ext rfl (List.append_nil _).symm)
  | cons x l ih =>
      obtain ⟨w, hw, hrest⟩ := hruns
      obtain rfl := decoded_packet (h x List.mem_cons_self) hw
      rw [ih (fun x hx => h x (List.mem_cons_of_mem _ hx)) hrest, List.foldl_cons,
        List.flatMap_cons, List.append_assoc]

theorem dataSync_last {o : Outside} (r : Receiver Status) (h : r.Fine o) :
    Triple (fun s => s = r) (dataSync o)
      (fun _ s => s.output = (r.file, r.replies ++ []) ∧ s.Fine o) (fun s => ¬ s.Fine o) := by
  rw [List.append_nil]
  exact (dataSync_spec h).conseq (fun _ hs => hs) (fun _ _ hs => hs.2) fun _ hs => hs

/-- Blocks of any length but `SYNC_MARK`, with sync commands among them, arrive as
they were sent. -/
theorem ploopCopyReceive_stream (o : Outside) (feedback : Bool) (l : List Sending)
    (buf : ℕ → UInt8) (h : ∀ x ∈ l, x.Plain)
    (hcalls : ∀ i < (ploopCopyReceive o feedback (stream l buf)).calls, o.answer i = true) :
    (ploopCopyReceive o feedback (stream l buf)).code = none ∧
      (ploopCopyReceive o feedback (stream l buf)).file = some (l.foldl applySent .empty) ∧
      (ploopCopyReceive o feedback (stream l buf)).replies =
        l.flatMap fun x => if feedback && x.isSync then [Status.ok] else [] := by
  obtain ⟨hiff, hzero, -⟩ :=
    receive_spec (xferTurn_does o feedback) dataSync_last (stream l buf) rfl
  have hcode := hiff.mpr ⟨⟨_, complete_stream l buf⟩, hcalls⟩
  obtain ⟨ps, f, replies, hps, hruns, hfile, hreplies⟩ := hzero hcode
  obtain rfl := hps.unique (complete_stream l buf)
  obtain ⟨hf, hr⟩ := Prod.mk.inj (runs_decoded h hruns)
  refine ⟨hcode, hfile.trans (congrArg some hf), ?_⟩
  exact hreplies.trans ((List.append_nil _).trans (hr.trans (List.nil_append _)))

def oneByte : Block := ⟨fun _ => 7, 1, 5, by decide, by decide, by decide⟩

def fourBytes : Block := ⟨fun _ => 7, 4, 0, by decide, by decide, by decide⟩

def noFailure : Outside := ⟨fun _ => true, fun _ _ => 0⟩

theorem ploopCopyReceive_stream_small :
    (ploopCopyReceive noFailure true
      (stream [.data oneByte, .sync fun _ => 0] fun _ => 0)).file =
        some (File.empty.pwrite ⟨5, 1, fun _ => 7⟩) := by
  have hplain : ∀ x ∈ [Sending.data oneByte, .sync fun _ => 0], x.Plain := by
    intro x hx
    rcases List.mem_cons.mp hx with rfl | hx
    · exact (by decide : (1 : ℕ) ≠ 4)
    · obtain rfl := List.mem_singleton.mp hx
      trivial
  exact (ploopCopyReceive_stream noFailure true _ _ hplain fun _ _ => rfl).2.1

/-- A block of four bytes is not in the file. -/
theorem ploopCopyReceive_drops_four :
    ¬ ∀ (o : Outside) (feedback : Bool) (l : List Sending) (buf : ℕ → UInt8),
      (∀ i < (ploopCopyReceive o feedback (stream l buf)).calls, o.answer i = true) →
        (ploopCopyReceive o feedback (stream l buf)).code = none ∧
          (ploopCopyReceive o feedback (stream l buf)).file = some (l.foldl applySent .empty) := by
  intro h
  obtain ⟨-, hfile⟩ := h noFailure false [.data fourBytes] (fun _ => 0) fun _ _ => rfl
  have hsize := congrArg (Option.map File.size) hfile
  revert hsize
  decide

end Ploop.Receive
