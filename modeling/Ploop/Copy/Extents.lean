import Ploop.Lib.Chunks
import Ploop.Copy.Success

/-!
# One dirty extent in the older sender

The loop of `ploop_copy_send` over `[e.start, e.end)` keeps what is left in an `int`.
-/

namespace Ploop.Wire

namespace Pcopy

open Program Chunks

variable {o : Outside} {e : Ending} {s s' : Sender} {fuel pos last n : ℕ} {c : ℕ × ℕ}
  {l : List (ℕ × ℕ)}

/-! ## One turn -/

/-- The position of the tracker moves up to the end of the chunk. -/
def tracked (c : ℕ × ℕ) (s : Sender) : Sender :=
  if s.trackpos < c.1 + c.2 then { s with trackpos := c.1 + c.2, time := s.time + 1 } else s

/-- The packet of a chunk and what comes of it. -/
def packetOf (o : Outside) (c : ℕ × ℕ) (s : Sender) : Packet × Answer :=
  (⟨.dataAsync, c.2, c.1⟩, o.answer s.sent.length)

/-- The thread has sent the chunk. -/
def sentChunk (o : Outside) (c : ℕ × ℕ) (s : Sender) : Sender :=
  { s with
    sent := s.sent ++ [packetOf o c s]
    sdRet := verdict s.isRemote (packetOf o c s)
    exited := c.2 = 0 ∧ c.1 = 0 }

/-- The chunk was tracked, read and sent. -/
def turned (o : Outside) (c : ℕ × ℕ) (s : Sender) : Sender :=
  sentChunk o c { tracked c s with time := (tracked c s).time + 1 }

theorem sendTurn_run : sendTurn o n pos s = .ok () (sentChunk o (pos, n) s) := by
  unfold sendTurn sentChunk verdict packetOf
  rcases hs : s.isRemote with _ | _
  · by_cases hd : (o.answer s.sent.length).Done <;>
      simp [get_bind_run, hs, localWrite, hand, hd, modify_bind_run, modify_run]
  · rcases ha : o.answer s.sent.length with _ | _ | _ <;>
      simp [get_bind_run, hs, remoteWrite, hand, ha, modify_bind_run,
        modify_run]

theorem call_run (h : o.call s.time = true) :
    call o e s = .ok () { s with time := s.time + 1 } := by
  change (if o.call s.time then pure () else throw e : SendM Unit) _ = _
  rw [h]
  rfl

theorem call_run_fails (h : ¬ o.call s.time = true) :
    call o e s = .error e { s with time := s.time + 1 } := by
  change (if o.call s.time then pure () else throw e : SendM Unit) _ = _
  rw [if_neg h]
  rfl

theorem doPread_run (hfull : ∀ t size pos, o.pread t size pos = some size) :
    doPread o n pos s = .ok n { s with time := s.time + 1 } := by
  have htick : tick s = .ok s.time { s with time := s.time + 1 } := rfl
  rw [doPread, bind_run_ok htick, hfull]
  rfl

theorem asyncSend_run (h : s.sdRet = none) :
    asyncSend o n pos s = .ok () (sentChunk o (pos, n) s) := by
  have hfail : orFail s.sdRet s = .ok () s := by
    rw [h]
    rfl
  change (orFail s.sdRet >>= fun _ => sendTurn o n pos) s = _
  rw [bind_run_ok hfail, sendTurn_run]

theorem asyncSend_ok (h : asyncSend o n pos s = .ok () s') : s.sdRet = none := by
  rcases hret : s.sdRet with _ | rc
  · rfl
  · have hrun : asyncSend o n pos s = .error (.exit rc) s := by
      change (orFail s.sdRet >>= fun _ => sendTurn o n pos) s = _
      rw [hret]
      rfl
    rw [hrun] at h
    exact absurd h (by simp)

/-- The piece of a turn after the position of the tracker is right. -/
def readAndSend (o : Outside) (e : Ending) (fuel n pos last : ℕ) : SendM Unit := do
  let n ← doPread o n pos
  if n = 0 then throw (.exit .read)
  else do
    asyncSend o n pos
    extentLoop o e fuel (pos + n) last

theorem readAndSend_run (hfull : ∀ t size pos, o.pread t size pos = some size) (hn : 0 < n)
    (hret : s.sdRet = none) :
    readAndSend o e fuel n pos last s =
      extentLoop o e fuel (pos + n) last (sentChunk o (pos, n) { s with time := s.time + 1 }) := by
  unfold readAndSend
  rw [bind_run_ok (doPread_run hfull), if_neg hn.ne']
  exact bind_run_ok (asyncSend_run hret)

theorem readAndSend_ok (hfull : ∀ t size pos, o.pread t size pos = some size)
    (h : readAndSend o e fuel n pos last s = .ok () s') : 0 < n ∧ s.sdRet = none := by
  unfold readAndSend at h
  rw [bind_run_ok (doPread_run hfull)] at h
  split at h
  case isTrue => exact absurd h throw_ne_ok
  case isFalse hn =>
    obtain ⟨_, t, hsend, -⟩ := bind_eq_ok h
    have hret := asyncSend_ok hsend
    exact ⟨Nat.pos_of_ne_zero hn, hret⟩

theorem extentLoop_eq (hlt : pos < last) (hn : min ((last - pos) % 2 ^ 32) s.cluster = n) :
    extentLoop o e (fuel + 1) pos last s =
      if s.trackpos < pos + n then
        (call o e >>= fun _ => readAndSend o e fuel n pos last) { s with trackpos := pos + n }
      else readAndSend o e fuel n pos last s := by
  rw [extentLoop, if_pos hlt]
  subst hn
  by_cases ht : s.trackpos < pos + min ((last - pos) % 2 ^ 32) s.cluster
  · rw [if_pos ht]
    change (if s.trackpos < pos + min ((last - pos) % 2 ^ 32) s.cluster then _ else _ :
      SendM Unit) s = _
    rw [if_pos ht]
    rfl
  · rw [if_neg ht]
    change (if s.trackpos < pos + min ((last - pos) % 2 ^ 32) s.cluster then _ else _ :
      SendM Unit) s = _
    rw [if_neg ht]
    rfl

theorem extentLoop_end (hge : last ≤ pos) : extentLoop o e (fuel + 1) pos last s = .ok () s := by
  rw [extentLoop, if_neg hge.not_gt]
  rfl

theorem extentLoop_turn (hfull : ∀ t size pos, o.pread t size pos = some size) (hlt : pos < last)
    (hn : min ((last - pos) % 2 ^ 32) s.cluster = n) (hpos : 0 < n)
    (hcall : s.trackpos < pos + n → o.call s.time = true) (hret : s.sdRet = none) :
    extentLoop o e (fuel + 1) pos last s =
      extentLoop o e fuel (pos + n) last (turned o (pos, n) s) := by
  rw [extentLoop_eq hlt hn]
  unfold turned tracked
  split
  case isTrue ht =>
    have hrun : call o e { s with trackpos := pos + n } =
        .ok () { s with trackpos := pos + n, time := s.time + 1 } := call_run (hcall ht)
    rw [bind_run_ok hrun]
    exact readAndSend_run hfull hpos hret
  case isFalse => exact readAndSend_run hfull hpos hret

theorem extentLoop_turn_ok (hfull : ∀ t size pos, o.pread t size pos = some size)
    (hlt : pos < last) (hn : min ((last - pos) % 2 ^ 32) s.cluster = n)
    (h : extentLoop o e (fuel + 1) pos last s = .ok () s') :
    0 < n ∧ (s.trackpos < pos + n → o.call s.time = true) ∧ s.sdRet = none := by
  rw [extentLoop_eq hlt hn] at h
  split at h
  case isTrue ht =>
    obtain ⟨_, t, hrun, hrest⟩ := bind_eq_ok h
    by_cases hcall : o.call s.time = true
    · have hrun' : call o e { s with trackpos := pos + n } =
          .ok () { s with trackpos := pos + n, time := s.time + 1 } := call_run hcall
      rw [hrun'] at hrun
      injection hrun with _ ht'
      subst ht'
      obtain ⟨hpos, hret⟩ := readAndSend_ok hfull hrest
      exact ⟨hpos, fun _ => hcall, hret⟩
    · have hrun' : call o e { s with trackpos := pos + n } =
          .error e { s with trackpos := pos + n, time := s.time + 1 } := call_run_fails hcall
      rw [hrun'] at hrun
      exact absurd hrun (by simp)
  case isFalse ht =>
    obtain ⟨hpos, hret⟩ := readAndSend_ok hfull h
    exact ⟨hpos, fun ht' => absurd ht' ht, hret⟩

/-! ## The whole extent -/

/-- The extent cut into clusters from its start; there are at most `k` pieces. -/
def pieces (cluster : ℕ) : ℕ → ℕ → ℕ → List (ℕ × ℕ)
  | 0, _, _ => []
  | k + 1, pos, last =>
      if pos < last then
        (pos, min (last - pos) cluster) :: pieces cluster k (pos + min (last - pos) cluster) last
      else []

theorem pieces_tiles {cluster k : ℕ} (hc : 0 < cluster) (hle : pos ≤ last) (hk : last - pos ≤ k) :
    Tiles pos last (pieces cluster k pos last) ∧
      ∀ c ∈ pieces cluster k pos last, c.2 ≤ cluster := by
  induction k generalizing pos with
  | zero =>
      refine ⟨?_, fun c hc => absurd hc List.not_mem_nil⟩
      change pos = last
      omega
  | succ k ih =>
      unfold pieces
      split
      case isTrue hlt =>
        have hrest := @ih (pos + min (last - pos) cluster) (by omega) (by omega)
        refine ⟨⟨rfl, ?_, hrest.1⟩, ?_⟩
        · change 0 < min (last - pos) cluster
          omega
        · intro c hmem
          rcases List.mem_cons.mp hmem with rfl | hmem
          · exact min_le_right _ _
          · exact hrest.2 c hmem
      case isFalse hge =>
        refine ⟨?_, fun c hc => absurd hc List.not_mem_nil⟩
        change pos = last
        omega

/-- The outside lets the sender hand over these chunks: no `PLOOP_IOC_TRACK_SETPOS` fails,
and the thread has no error to tell. -/
def Granted (o : Outside) : List (ℕ × ℕ) → Sender → Prop
  | [], _ => True
  | c :: l, s => (s.trackpos < c.1 + c.2 → o.call s.time = true) ∧ s.sdRet = none ∧
      Granted o l (turned o c s)

@[simp] theorem turned_cluster : (turned o c s).cluster = s.cluster := by
  unfold turned tracked
  split <;> rfl

theorem turned_sent :
    ∃ a, (turned o c s).sent = s.sent ++ [((⟨.dataAsync, c.2, c.1⟩ : Packet), a)] := by
  unfold turned tracked
  split <;> exact ⟨_, rfl⟩

/-- The chunks as packets with their answers. -/
def Sends (l : List (ℕ × ℕ)) (s s' : Sender) : Prop :=
  ∃ ps, s'.sent = s.sent ++ ps ∧ ps.map (fun p => (p.1.pos, p.1.size)) = l

theorem Sends.cons (h : Sends l (turned o c s) s') : Sends (c :: l) s s' := by
  obtain ⟨ps, hsent, hps⟩ := h
  obtain ⟨a, ha⟩ := turned_sent (o := o) (c := c) (s := s)
  refine ⟨((⟨.dataAsync, c.2, c.1⟩ : Packet), a) :: ps, ?_, ?_⟩
  · rw [hsent, ha, List.append_assoc, List.singleton_append]
  · rw [List.map_cons, hps]

theorem extentLoop_sends {k : ℕ} (hfull : ∀ t size pos, o.pread t size pos = some size)
    (hc : 0 < s.cluster) (hspan : last - pos < 2 ^ 32) (hk : last - pos ≤ k)
    (hg : Granted o (pieces s.cluster k pos last) s) :
    ∃ s', extentLoop o e (k + 1) pos last s = .ok () s' ∧
      Sends (pieces s.cluster k pos last) s s' := by
  induction k generalizing pos s with
  | zero => exact ⟨s, extentLoop_end (by omega), [], (List.append_nil _).symm, rfl⟩
  | succ k ih =>
      by_cases hlt : pos < last
      · unfold pieces at hg ⊢
        rw [if_pos hlt] at hg ⊢
        obtain ⟨hcall, hret, hrest⟩ := hg
        have hn : min ((last - pos) % 2 ^ 32) s.cluster = min (last - pos) s.cluster := by
          rw [Nat.mod_eq_of_lt hspan]
        rw [extentLoop_turn hfull hlt hn (by omega) hcall hret]
        obtain ⟨s', hrun, hsends⟩ := @ih (turned o (pos, min (last - pos) s.cluster) s)
          (pos + min (last - pos) s.cluster) (by rwa [turned_cluster]) (by omega) (by omega)
          (by rwa [turned_cluster])
        rw [turned_cluster] at hsends
        exact ⟨s', hrun, hsends.cons⟩
      · unfold pieces
        rw [if_neg hlt]
        exact ⟨s, extentLoop_end (not_lt.mp hlt), [], (List.append_nil _).symm, rfl⟩

/-- A turn takes no more than the low half of what is left, so what lies above it is never
reached. -/
theorem extentLoop_ok {k : ℕ} (hfull : ∀ t size pos, o.pread t size pos = some size)
    (h : extentLoop o e fuel pos last s = .ok () s') :
    last - pos < 2 ^ 32 ∧ Granted o (pieces s.cluster k pos last) s := by
  induction fuel generalizing pos s k with
  | zero =>
      exact absurd h throw_ne_ok
  | succ fuel ih =>
      by_cases hlt : pos < last
      · obtain ⟨hpos, hcall, hret⟩ := extentLoop_turn_ok hfull hlt rfl h
        rw [extentLoop_turn hfull hlt rfl hpos hcall hret] at h
        have hspan : last - pos < 2 ^ 32 := by
          have hrest := (ih (k := 0) h).1
          omega
        refine ⟨hspan, ?_⟩
        cases k with
        | zero => exact True.intro
        | succ k =>
            unfold pieces
            rw [if_pos hlt]
            rw [Nat.mod_eq_of_lt hspan] at h hcall
            have hrest := (ih (k := k) h).2
            rw [turned_cluster] at hrest
            exact ⟨hcall, hret, hrest⟩
      · refine ⟨by omega, ?_⟩
        cases k with
        | zero => exact True.intro
        | succ k =>
            unfold pieces
            rw [if_neg hlt]
            exact True.intro

/-- The loop ends without error, and what it has sent are chunks of at most one cluster that
cut `[first, last)` in order. -/
def SendsWhole (o : Outside) (e : Ending) (first last : ℕ) (s : Sender) : Prop :=
  ∃ inner s' l, extentLoop o e inner first last s = .ok () s' ∧ Sends l s s' ∧
    Tiles first last l ∧ ∀ c ∈ l, c.2 ≤ s.cluster

/-- An extent is sent when it has fewer than 4 GB. -/
theorem extentLoop_whole_iff {first blocksize : ℕ}
    (hfull : ∀ t size pos, o.pread t size pos = some size) (hbs : isValidBlocksize blocksize)
    (hc : s.cluster = s2b blocksize) (hle : first ≤ last) :
    SendsWhole o e first last s ↔
      last - first < 2 ^ 32 ∧ Granted o (pieces s.cluster (last - first) first last) s := by
  have hpos : 0 < s.cluster := by
    rw [hc]
    exact Nat.mul_pos hbs.pos (by norm_num)
  constructor
  · rintro ⟨inner, s', l, hrun, -⟩
    exact extentLoop_ok hfull hrun
  · rintro ⟨hspan, hg⟩
    obtain ⟨s', hrun, hsends⟩ := extentLoop_sends (e := e) hfull hpos hspan le_rfl hg
    obtain ⟨htiles, hlim⟩ := pieces_tiles hpos hle le_rfl
    exact ⟨_, s', _, hrun, hsends, htiles, hlim⟩

/-- Everything works: reads are full, calls succeed and the receiver is content. -/
def willing : Outside where
  answer _ := .silent true
  track _ := .ok none
  pread _ size _ := some size
  bitmap _ := .ok none
  feedback _ := .ok ()
  call _ := true

/-- A sender with blocks of 1 MB before its first packet. -/
def idleSender : Sender where
  isRemote := true
  async := true
  raw := false
  cluster := s2b 2048
  trackpos := 0
  trackend := 0
  eofOffset := 0
  sdRet := none
  exited := false
  sent := []
  time := 0

theorem extentLoop_whole_iff_twoBlocks :
    SendsWhole willing .ioctl 0 (2 ^ 21) idleSender ↔
      2 ^ 21 - 0 < 2 ^ 32 ∧
        Granted willing (pieces idleSender.cluster (2 ^ 21 - 0) 0 (2 ^ 21)) idleSender :=
  have hbs : isValidBlocksize 2048 := by decide
  extentLoop_whole_iff (fun _ _ _ => rfl) hbs rfl (Nat.zero_le _)

/-- Of an extent of 4 GB the first chunk is empty. -/
theorem extentLoop_fourGigabytes :
    ¬ SendsWhole willing (.exit .devioc) 0 (2 ^ 32) idleSender := by
  rintro ⟨inner, s', l, hrun, -⟩
  have hspan := (extentLoop_ok (k := 0) (fun _ _ _ => rfl) hrun).1
  exact absurd hspan (by norm_num)

end Pcopy

end Ploop.Wire
