import Ploop.Cbt.Window

/-!
# The bitmaps of all windows

The extents that `cbt_get_and_clear` keeps are those of the kernel, and window after window the
bits set are those of the granules that one of the two lists touches.
-/

namespace Ploop.Cbt

open Storage

variable {gran : ℕ} {e k : CbtExtent} {K T es : List CbtExtent} {buf : ℕ → UInt8}

/-! ## All windows -/

theorem getWindows_exact {blkcbtget : ℕ → ℕ → Option (List CbtExtent)} {fuel : ℕ}
    {malloc : Window → Bool} {orData : Option CbtData} {ws : List Window}
    (hws : ∀ w ∈ ws, Window.Fits gran w.size w.offset ∧ 8 ∣ w.size) (hK : Listed K)
    (hget : Answers K blkcbtget) (hO : InOrder (kept orData))
    (hfuel : K.length < cbtMaxExtents * fuel) :
    ∃ r, getWindows blkcbtget gran malloc fuel ws buf orData = some r ∧
      (r.1 ≠ none ∧ ((∃ s l, blkcbtget s l = none) ∨ ∃ w ∈ ws, malloc w = false) ∨
        r.1 = none ∧ List.Forall₂
          (fun w => RightBits gran w.size w.offset (K ++ kept orData)) ws r.2) := by
  induction ws generalizing buf orData with
  | nil => exact ⟨_, rfl, .inr ⟨rfl, .nil⟩⟩
  | cons w ws ih =>
      obtain ⟨hw, hdvd⟩ := hws w List.mem_cons_self
      rw [getWindows]
      rcases hm : malloc w with _ | _
      · exact ⟨_, rfl, .inl ⟨Option.some_ne_none _, .inr ⟨w, List.mem_cons_self, hm⟩⟩⟩
      · obtain ⟨⟨ret, buf', orData'⟩, hr, hret⟩ := cbtGetDirtyBitmapPart_spec buf orData
          hw hdvd hK hget hO hfuel
        rw [hr]
        rcases hret with ⟨hfail, hcall⟩ | ⟨hnone, hkept, hbits⟩
        · dsimp only at hfail
          subst hfail
          exact ⟨_, rfl, .inl ⟨Option.some_ne_none _, .inl hcall⟩⟩
        · dsimp only at hnone hkept hbits
          subst hnone
          rw [← hkept] at hO hbits ⊢
          obtain ⟨r, hrun, hrest⟩ := ih (fun w' hw' => hws w' (List.mem_cons_of_mem w hw')) hO
          refine ⟨(r.1, buf' :: r.2), ?_, ?_⟩
          · dsimp only
            rw [hrun]
            rfl
          rcases hrest with ⟨hne, hcause⟩ | ⟨hnone, hall⟩
          · refine .inl ⟨hne, hcause.imp_right ?_⟩
            rintro ⟨w', hw', hm'⟩
            exact ⟨w', List.mem_cons_of_mem w hw', hm'⟩
          · exact .inr ⟨hnone, .cons hbits hall⟩

/-! ## What `cbt_get_and_clear` keeps -/

/-- Asked for everything behind `start`, the kernel tells of whole extents. -/
theorem Piece.eq_self {start : ℕ} (h : Piece start (2 ^ 64 - 1) k e) (hlt : k.stop < 2 ^ 64)
    (hstart : start ≤ k.cePhysical) : e = k := by
  obtain ⟨hle, hlast, hfirst, hend⟩ := h
  have hphys : e.cePhysical = k.cePhysical := by omega
  have hlen : e.ceLength = k.ceLength := by
    simp only [CbtExtent.stop] at hlast hend hlt
    omega
  cases e
  cases k
  exact congrArg₂ CbtExtent.mk hphys hlen

theorem forall₂_piece_eq {start : ℕ} (h : List.Forall₂ (Piece start (2 ^ 64 - 1)) T es)
    (hT : ∀ k ∈ T, k.stop < 2 ^ 64 ∧ start ≤ k.cePhysical) : es = T := by
  induction h with
  | nil => rfl
  | @cons k e T es hpiece _ ih =>
      have hk := hT k List.mem_cons_self
      rw [hpiece.eq_self hk.1 hk.2, ih fun k' hk' => hT k' (List.mem_cons_of_mem k hk')]

theorem getAndClearLoop_spec {blkcbtget : ℕ → ℕ → Option (List CbtExtent)} {einval : Bool}
    {realloc : ℕ → Bool} {fuel start length : ℕ} {ext : List CbtExtent} (hK : Listed K)
    (hget : Answers K blkcbtget) (hs : start < 2 ^ 64) (hl : length < 2 ^ 64)
    (hend : u64 (start + length) = 2 ^ 64 - 1)
    (hT : K.filter (meets start (2 ^ 64 - 1)) = T) (hstart : ∀ k ∈ T, start ≤ k.cePhysical)
    (hext : ext ++ T = K) (hfuel : T.length < cbtMaxExtents * fuel) :
    ∃ r, getAndClearLoop blkcbtget einval realloc fuel start length ext = some r ∧
      ((∃ err, r = .error err) ∧ ((∃ s l, blkcbtget s l = none) ∨ ∃ n, realloc n = false) ∨
        r = .ok ⟨K, 0, Nat.zero_le _⟩) := by
  induction fuel generalizing start length ext T with
  | zero => exact absurd hfuel (Nat.not_lt_zero _)
  | succ fuel ih =>
      rw [getAndClearLoop]
      rcases hmem : realloc ext.length with _ | _
      · exact ⟨_, rfl, .inl ⟨⟨_, rfl⟩, .inr ⟨_, hmem⟩⟩⟩
      rw [if_pos rfl]
      rcases hes : blkcbtget start length with _ | es
      · exact ⟨_, rfl, .inl ⟨⟨_, rfl⟩, .inl ⟨_, _, hes⟩⟩⟩
      have hpieces := hget start length es hs hl hes
      rw [hend, hT] at hpieces
      have hin : ∀ k ∈ T, k ∈ K := by
        intro k hk
        rw [← hext]
        exact List.mem_append_right ext hk
      obtain rfl := forall₂_piece_eq hpieces fun k hk =>
        ⟨hK.lt k (hin k (List.mem_of_mem_take hk)), hstart k (List.mem_of_mem_take hk)⟩
      dsimp only
      split
      · next hfull =>
          rcases List.eq_nil_or_concat' (T.take cbtMaxExtents) with hnil | ⟨A, k, hA⟩
          · rw [hnil] at hfull
            exact absurd hfull (by decide)
          · have hsplit : K.filter (meets start (2 ^ 64 - 1)) = A ++ k :: T.drop cbtMaxExtents := by
              rw [hT, ← List.singleton_append, ← List.append_assoc, ← hA, List.take_append_drop]
            obtain ⟨-, hlt, hrest, hbehind⟩ := filter_meets_behind hK hsplit
              (e := k) ⟨le_rfl, le_rfl, le_max_right _ _, min_le_right _ _⟩
            have hfew : (T.drop cbtMaxExtents).length < cbtMaxExtents * fuel := by
              rw [List.length_take] at hfull
              rw [List.length_drop]
              rw [Nat.mul_succ] at hfuel
              omega
            have hmore : ext ++ T.take cbtMaxExtents ++ T.drop cbtMaxExtents = K := by
              rw [List.append_assoc, List.take_append_drop, hext]
            have hlast : (ext ++ T.take cbtMaxExtents).getLastD ⟨0, 0⟩ = k := by
              rw [hA, ← List.append_assoc, List.getLastD_concat]
            rw [hlast, u64_of_lt hlt]
            exact ih hlt (Nat.mod_lt _ (by norm_num)) (u64_add_sub hlt (by norm_num)) hrest hbehind
              hmore hfew
      · next hshort =>
          have hall : T.take cbtMaxExtents = T := by
            rw [List.length_take] at hshort
            exact List.take_of_length_le (by omega)
          refine ⟨_, rfl, .inr ?_⟩
          simp only [hall, hext]

/-- What `cbt_get_and_clear` keeps is the kernel's list, to be read from its start, and such a list
is in order; and window after window, from whatever extent the scan of the kept list resumes at,
exactly the bits of the granules are set that an extent of the kernel or a kept one touches. -/
theorem getWindows_union (blkcbtget : ℕ → ℕ → Option (List CbtExtent)) (gran : ℕ)
    (malloc : Window → Bool) (K : List CbtExtent) (orData : Option CbtData) (ws : List Window)
    (buf : ℕ → UInt8) (hws : ∀ w ∈ ws, Window.Fits gran w.size w.offset ∧ 8 ∣ w.size)
    (hK : Listed K) (hget : Answers K blkcbtget) (hO : InOrder (kept orData)) :
    (∀ (once : ℕ → ℕ → Option (List CbtExtent)) (einval alloc : Bool) (realloc : ℕ → Bool)
        (K₀ : List CbtExtent) (fuel : ℕ), Listed K₀ → Answers K₀ once →
      K₀.length < cbtMaxExtents * fuel →
      InOrder K₀ ∧ ∃ r, cbtGetAndClear once einval realloc alloc fuel = some r ∧
        ((∃ err, r = .error err) ∧
            ((∃ s l, once s l = none) ∨ alloc = false ∨ ∃ n, realloc n = false) ∨
          r = .ok ⟨K₀, 0, Nat.zero_le _⟩)) ∧
    ∀ fuel, K.length < cbtMaxExtents * fuel →
      ∃ r, getWindows blkcbtget gran malloc fuel ws buf orData = some r ∧
        (r.1 ≠ none ∧ ((∃ s l, blkcbtget s l = none) ∨ ∃ w ∈ ws, malloc w = false) ∨
          r.1 = none ∧ List.Forall₂
            (fun w => RightBits gran w.size w.offset (K ++ kept orData)) ws r.2) := by
  constructor
  · intro once einval alloc realloc K₀ fuel hK₀ honce hfuel
    refine ⟨hK₀.inOrder, ?_⟩
    rw [cbtGetAndClear]
    rcases alloc with _ | _
    · exact ⟨_, rfl, .inl ⟨⟨_, rfl⟩, .inr (.inl rfl)⟩⟩
    · have hall : K₀.filter (meets 0 (2 ^ 64 - 1)) = K₀ := by
        rw [List.filter_eq_self]
        intro k hk
        have hne := hK₀.nonempty k hk
        have hlt := hK₀.lt k hk
        rw [meets_iff]
        omega
      have hstart : ∀ k ∈ K₀, 0 ≤ k.cePhysical := fun _ _ => Nat.zero_le _
      have hend : u64 (0 + (2 ^ 64 - 1)) = 2 ^ 64 - 1 := rfl
      have hloop : ∃ r, getAndClearLoop once einval realloc fuel 0 (2 ^ 64 - 1) [] = some r ∧
          ((∃ err, r = .error err) ∧ ((∃ s l, once s l = none) ∨ ∃ n, realloc n = false) ∨
            r = .ok ⟨K₀, 0, Nat.zero_le _⟩) :=
        getAndClearLoop_spec hK₀ honce (by norm_num) (by norm_num) hend hall hstart
          (List.nil_append K₀) hfuel
      obtain ⟨r, hr, hret⟩ := hloop
      refine ⟨r, hr, hret.imp_left ?_⟩
      rintro ⟨herr, hcause⟩
      exact ⟨herr, hcause.imp_right .inr⟩
  · exact fun fuel hfuel => getWindows_exact hws hK hget hO hfuel

/-! ## A kernel that tells of whole extents -/

/-- `BLKCBTGET` from a list. -/
def listedGet (K : List CbtExtent) (start length : ℕ) : Option (List CbtExtent) :=
  some ((K.filter (meets start (u64 (start + length)))).take cbtMaxExtents)

theorem answers_listedGet (K : List CbtExtent) : Answers K (listedGet K) := by
  intro start length es _ _ hes
  rw [← Option.some.inj hes, List.forall₂_same]
  exact fun k _ => ⟨le_rfl, le_rfl, le_max_right _ _, min_le_right _ _⟩

/-- Two windows of eight granules, one extent that lies in both, and one that was kept. -/
theorem getWindows_union_two : ∃ r, getWindows (listedGet [⟨0, 655360⟩]) 65536 (fun _ => true) 1
      [⟨0, 8⟩, ⟨8, 8⟩] (fun _ => 0) (some ⟨[⟨786432, 65536⟩], 0, Nat.zero_le _⟩) = some r ∧
    (r.1 ≠ none ∧ ((∃ s l, listedGet [⟨0, 655360⟩] s l = none) ∨
        ∃ w ∈ [(⟨0, 8⟩ : Window), ⟨8, 8⟩], (fun _ => true : Window → Bool) w = false) ∨
      r.1 = none ∧ List.Forall₂ (fun w : Window => RightBits 65536 w.size w.offset
        ([⟨0, 655360⟩] ++ kept (some ⟨[⟨786432, 65536⟩], 0, Nat.zero_le _⟩)))
          [⟨0, 8⟩, ⟨8, 8⟩] r.2) := by
  apply (getWindows_union (listedGet [⟨0, 655360⟩]) 65536 (fun _ => true) [⟨0, 655360⟩]
    (some ⟨[⟨786432, 65536⟩], 0, Nat.zero_le _⟩) [⟨0, 8⟩, ⟨8, 8⟩] (fun _ => 0) ?_ ?_
    (answers_listedGet _) ?_).2 1 (by decide)
  · intro w hw
    simp only [List.mem_cons, List.not_mem_nil, or_false] at hw
    rcases hw with rfl | rfl
    · exact ⟨⟨by norm_num, by norm_num, by norm_num⟩, by norm_num⟩
    · exact ⟨⟨by norm_num, by norm_num, by norm_num⟩, by norm_num⟩
  · exact ⟨by simp [CbtExtent.stop], by simp [CbtExtent.stop], List.pairwise_singleton _ _⟩
  · exact ⟨by simp [kept, CbtExtent.stop], by simp [kept, CbtExtent.stop],
      List.pairwise_singleton _ _, List.pairwise_singleton _ _⟩

/-- A long extent that was kept before a short one is skipped in the second window. -/
theorem getWindows_skips : ¬ ∀ (K O : List CbtExtent) (gran : ℕ) (ws : List Window)
    (blkcbtget : ℕ → ℕ → Option (List CbtExtent)) (buf : ℕ → UInt8) (fuel : ℕ),
    Listed K → Answers K blkcbtget → (∀ e ∈ O, e.cePhysical < e.stop ∧ e.stop < 2 ^ 64) →
    (O.Pairwise fun e e' => e.cePhysical ≤ e'.cePhysical) →
    (∀ w ∈ ws, Window.Fits gran w.size w.offset ∧ 8 ∣ w.size) →
    K.length < cbtMaxExtents * fuel →
    ∃ bufs, getWindows blkcbtget gran (fun _ => true) fuel ws buf (some ⟨O, 0, Nat.zero_le _⟩) =
        some (none, bufs) ∧
      List.Forall₂ (fun w => RightBits gran w.size w.offset (K ++ O)) ws bufs := by
  intro h
  have hws : ∀ w ∈ [(⟨0, 8⟩ : Window), ⟨8, 8⟩], Window.Fits 1 w.size w.offset ∧ 8 ∣ w.size := by
    intro w hw
    simp only [List.mem_cons, List.not_mem_nil, or_false] at hw
    rcases hw with rfl | rfl
    · exact ⟨⟨by norm_num, by norm_num, by norm_num⟩, by norm_num⟩
    · exact ⟨⟨by norm_num, by norm_num, by norm_num⟩, by norm_num⟩
  obtain ⟨bufs, hrun, hbits⟩ := h [] [⟨0, 100⟩, ⟨1, 1⟩] 1 [⟨0, 8⟩, ⟨8, 8⟩] (listedGet [])
    (fun _ => 0) 1 ⟨by simp, by simp, .nil⟩ (answers_listedGet _) (by simp [CbtExtent.stop])
    (by simp) hws (by decide)
  have hsecond : ∃ b, getWindows (listedGet []) 1 (fun _ => true) 1 [⟨0, 8⟩, ⟨8, 8⟩]
      (fun _ => 0) (some ⟨[⟨0, 100⟩, ⟨1, 1⟩], 0, Nat.zero_le _⟩) =
        some (none, [b, fun t => if t < 8 / 8 then 0 else b t]) := ⟨_, rfl⟩
  obtain ⟨b, hb⟩ := hsecond
  rw [hb] at hrun
  obtain rfl := (Prod.mk.inj (Option.some.inj hrun)).2
  cases hbits with
  | cons _ hrest =>
      cases hrest with
      | cons hbit _ =>
          have hset := (hbit 0 (by norm_num)).mpr
            ⟨⟨0, 100⟩, by simp, 8, by norm_num, by norm_num [CbtExtent.stop], by norm_num⟩
          have hclear : testBit (fun t => if t < 8 / 8 then 0 else b t) 0 = false :=
            testBit_memset (by norm_num) (by norm_num)
          exact Bool.false_ne_true (hclear.symm.trans hset)

end Ploop.Cbt
