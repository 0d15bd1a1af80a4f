import Ploop.Lib.Keyed

/-!
# Trees as lists

An entry of the list is a key and the key of its parent, and every entry comes after its parent.
The tree grows by a leaf, and shrinks when a leaf goes away or when the only child of an entry is
merged into it.
-/

namespace Rooted

variable {κ : Type}

def keys (l : List (κ × Option κ)) : List κ := l.map Prod.fst

/-- The root comes first, and every other entry is a leaf when it comes. -/
inductive Tree : List (κ × Option κ) → Prop
  | root (k : κ) : Tree [(k, none)]
  | leaf {l : List (κ × Option κ)} {k p : κ} (hl : Tree l) (hp : p ∈ keys l) (hk : k ∉ keys l) :
      Tree (l ++ [(k, some p)])

/-- The keys from `k` up to the root. -/
inductive Line (l : List (κ × Option κ)) : κ → List κ → Prop
  | root {k : κ} (h : (k, none) ∈ l) : Line l k [k]
  | up {k p : κ} {ks : List κ} (h : (k, some p) ∈ l) (hp : Line l p ks) : Line l k (k :: ks)

section Facts

variable {l l' : List (κ × Option κ)} {k p c : κ} {ks ks' : List κ} {e : κ × Option κ}

@[simp] theorem keys_append : keys (l ++ l') = keys l ++ keys l' := List.map_append

theorem mem_keys : k ∈ keys l ↔ ∃ q, (k, q) ∈ l := by
  simp [keys]

namespace Tree

theorem nodup (h : Tree l) : (keys l).Nodup := by
  induction h with
  | root k => exact List.nodup_singleton k
  | leaf hl hp hk ih =>
      rw [keys_append]
      exact ih.append (List.nodup_singleton _) (by simpa [keys] using hk)

/-- An entry is known by its key. -/
theorem parent_unique (h : Tree l) {q q' : Option κ} (hq : (k, q) ∈ l) (hq' : (k, q') ∈ l) :
    q = q' := by
  have heq := List.inj_on_of_nodup_map h.nodup hq hq' rfl
  exact congrArg Prod.snd heq

theorem parent_mem (h : Tree l) (hk : (k, some p) ∈ l) : p ∈ keys l := by
  induction h with
  | root => simp at hk
  | leaf hl hp hnew ih =>
      rw [keys_append, List.mem_append]
      rcases List.mem_append.mp hk with hold | hlast
      · exact Or.inl (ih hold)
      · cases List.mem_singleton.mp hlast
        exact Or.inl hp

theorem parent_ne (h : Tree l) (hk : (k, some p) ∈ l) : p ≠ k := by
  induction h with
  | root => simp at hk
  | leaf hl hp hnew ih =>
      rcases List.mem_append.mp hk with hold | hlast
      · exact ih hold
      · cases List.mem_singleton.mp hlast
        exact fun heq => hnew (heq ▸ hp)

end Tree

/-- The parent of a parent is another one. -/
theorem Tree.grandparent_ne (h : Tree l) (hk : (k, some p) ∈ l) : (p, some k) ∉ l := by
  intro hp
  induction h with
  | root => simp at hk
  | leaf hl hq hnew ih =>
      rcases List.mem_append.mp hk with hold | hlast
      · rcases List.mem_append.mp hp with hold' | hlast'
        · exact ih hold hold'
        · cases List.mem_singleton.mp hlast'
          exact hnew (hl.parent_mem hold)
      · cases List.mem_singleton.mp hlast
        rcases List.mem_append.mp hp with hold' | hlast'
        · exact hnew (hl.parent_mem hold')
        · cases List.mem_singleton.mp hlast'
          exact hnew hq

theorem Line.mono (hsub : l ⊆ l') (h : Line l k ks) : Line l' k ks := by
  induction h with
  | root hk => exact .root (hsub hk)
  | up hk hp ih => exact .up (hsub hk) ih

/-- From every key there is a way up. -/
theorem Tree.exists_line (h : Tree l) (hk : k ∈ keys l) :
    ∃ ks, Line l k ks ∧ ks.length ≤ l.length := by
  induction h generalizing k with
  | root k' =>
      cases List.mem_singleton.mp hk
      exact ⟨[k'], .root List.mem_cons_self, le_rfl⟩
  | @leaf l k' p hl hp hnew ih =>
      rw [keys_append, List.mem_append] at hk
      rcases hk with hold | hlast
      · obtain ⟨ks, hks, hlen⟩ := ih hold
        refine ⟨ks, hks.mono (List.subset_append_left _ _), hlen.trans ?_⟩
        simp
      · cases List.mem_singleton.mp hlast
        obtain ⟨ks, hks, hlen⟩ := ih hp
        refine ⟨_, .up (List.mem_append_right _ List.mem_cons_self)
          (hks.mono (List.subset_append_left _ _)), ?_⟩
        simpa using hlen

theorem Line.unique (h : Tree l) (hks : Line l k ks) (hks' : Line l k ks') : ks = ks' := by
  induction hks generalizing ks' with
  | root hk =>
      cases hks' with
      | root => rfl
      | up hk' => cases h.parent_unique hk hk'
  | up hk hp ih =>
      cases hks' with
      | root hk' => cases h.parent_unique hk hk'
      | up hk' hp' =>
          cases h.parent_unique hk hk'
          rw [ih hp']

/-! ## A new name for a key -/

def rename (f : κ → κ) (l : List (κ × Option κ)) : List (κ × Option κ) :=
  l.map (Prod.map f (Option.map f))

@[simp] theorem keys_rename (f : κ → κ) : keys (rename f l) = (keys l).map f := by
  simp [keys, rename, Function.comp_def]

theorem Tree.rename {f : κ → κ} (h : Tree l) (hf : Set.InjOn f {k | k ∈ keys l}) :
    Tree (rename f l) := by
  induction h with
  | root k => exact .root (f k)
  | @leaf l k p hl hp hnew ih =>
      have hold : ∀ x ∈ keys l, x ∈ keys (l ++ [(k, some p)]) := by
        intro x hx
        rw [keys_append]
        exact List.mem_append_left _ hx
      have hk : k ∈ keys (l ++ [(k, some p)]) := by simp [keys]
      have hrec := ih (hf.mono hold)
      unfold Rooted.rename at hrec ⊢
      rw [List.map_append]
      refine .leaf hrec ?_ ?_
      · change f p ∈ keys (Rooted.rename f l)
        rw [keys_rename]
        exact List.mem_map_of_mem hp
      · change f k ∉ keys (Rooted.rename f l)
        rw [keys_rename, List.mem_map]
        rintro ⟨x, hx, heq⟩
        exact hnew (hf (hold x hx) hk heq ▸ hx)

theorem Line.rename (f : κ → κ) (h : Line l k ks) : Line (rename f l) (f k) (ks.map f) := by
  induction h with
  | root hk => exact .root (List.mem_map_of_mem hk)
  | up hk hp ih => exact .up (List.mem_map_of_mem hk) ih

/-- Every parent stands before its children. -/
theorem Tree.parent_before (h : Tree l) {i : ℕ} (hi : l[i]? = some (k, some p)) :
    ∃ j < i, ∃ q, l[j]? = some (p, q) := by
  induction h with
  | root k' =>
      cases i with
      | zero => simp at hi
      | succ i => simp at hi
  | @leaf l k' p' hl hp hnew ih =>
      rcases Nat.lt_or_ge i l.length with hlt | hge
      · rw [List.getElem?_append_left hlt] at hi
        obtain ⟨j, hj, q, hq⟩ := ih hi
        refine ⟨j, hj, q, ?_⟩
        rwa [List.getElem?_append_left (hj.trans hlt)]
      · rw [List.getElem?_append_right hge] at hi
        obtain ⟨hlast, heq⟩ := List.getElem?_eq_some_iff.mp hi
        simp only [List.getElem_singleton, Prod.mk.injEq, Option.some.injEq] at heq
        obtain ⟨-, rfl⟩ := heq
        obtain ⟨q, hq⟩ := mem_keys.mp hp
        obtain ⟨j, hj⟩ := List.mem_iff_getElem?.mp hq
        have hjl := (List.getElem?_eq_some_iff.mp hj).1
        exact ⟨j, hjl.trans_le hge, q, by rwa [List.getElem?_append_left hjl]⟩

variable [DecidableEq κ]

/-! ## Without a leaf -/

def prune (k : κ) (l : List (κ × Option κ)) : List (κ × Option κ) := l.filter fun e => e.1 ≠ k

theorem mem_prune : e ∈ prune k l ↔ e ∈ l ∧ e.1 ≠ k := by
  simp [prune]

theorem mem_keys_prune : c ∈ keys (prune k l) ↔ c ∈ keys l ∧ c ≠ k := by
  simp only [mem_keys, mem_prune]
  tauto

theorem prune_eq_self (hk : k ∉ keys l) : prune k l = l := by
  refine List.filter_eq_self.mpr fun e he => decide_eq_true ?_
  rintro rfl
  exact hk (List.mem_map_of_mem he)

theorem prune_append : prune k (l ++ l') = prune k l ++ prune k l' := List.filter_append _ _

theorem prune_singleton {q : Option κ} : prune k [(k, q)] = [] := by
  simp [prune]

/-- Taking an entry out by its place. -/
theorem eraseIdx_eq_prune (h : (keys l).Nodup) {i : ℕ} {q : Option κ}
    (hi : l[i]? = some (k, q)) : l.eraseIdx i = prune k l :=
  Keyed.eraseIdx_eq_filter h (by simp [hi])

theorem Tree.prune (h : Tree l) (hk : (k, some p) ∈ l) (hleaf : ∀ e ∈ l, e.2 ≠ some k) :
    Tree (prune k l) := by
  induction h with
  | root => simp at hk
  | @leaf l k' p' hl hp hnew ih =>
      rw [prune_append]
      by_cases heq : k' = k
      · subst heq
        rw [prune_eq_self hnew, prune_singleton, List.append_nil]
        exact hl
      · have hold : (k, some p) ∈ l := by
          simpa [Ne.symm heq] using hk
        have hp' : p' ≠ k := fun hpk => hleaf (k', some p') (by simp) (congrArg some hpk)
        have hrec := ih hold fun e he => hleaf e (List.mem_append_left _ he)
        have hlast : Rooted.prune k [(k', some p')] = [(k', some p')] :=
          prune_eq_self (by simpa [keys] using Ne.symm heq)
        rw [hlast]
        refine .leaf hrec ?_ ?_
        · exact mem_keys_prune.mpr ⟨hp, hp'⟩
        · exact fun hmem => hnew (mem_keys_prune.mp hmem).1

theorem Line.prune (hleaf : ∀ e ∈ l, e.2 ≠ some c) (hne : k ≠ c) (h : Line l k ks) :
    Line (prune c l) k ks := by
  induction h with
  | root hk => exact .root (mem_prune.mpr ⟨hk, hne⟩)
  | up hk hp ih =>
      exact .up (mem_prune.mpr ⟨hk, hne⟩) (ih fun heq => hleaf _ hk (congrArg some heq))

/-! ## An only child takes the place of its parent -/

def merge (c p : κ) (l : List (κ × Option κ)) : List (κ × Option κ) :=
  (prune c l).map fun e => (if e.1 = p then c else e.1, e.2)

theorem mem_merge {x : κ} {q : Option κ} (hcp : c ≠ p) : (x, q) ∈ merge c p l ↔
    (x = c ∧ (p, q) ∈ l) ∨ (x ≠ c ∧ x ≠ p ∧ (x, q) ∈ l) := by
  simp only [merge, List.mem_map, mem_prune, Prod.mk.injEq, Prod.exists]
  constructor
  · rintro ⟨y, q', ⟨hmem, hne⟩, heq, rfl⟩
    split at heq
    case isTrue hp => exact Or.inl ⟨heq.symm, hp ▸ hmem⟩
    case isFalse hp => exact Or.inr ⟨heq ▸ hne, heq ▸ hp, heq ▸ hmem⟩
  · rintro (⟨rfl, hmem⟩ | ⟨hc, hp, hmem⟩)
    · exact ⟨p, q, ⟨hmem, hcp.symm⟩, if_pos rfl, rfl⟩
    · exact ⟨x, q, ⟨hmem, hc⟩, if_neg hp, rfl⟩

theorem mem_keys_merge {x : κ} (hcp : c ≠ p) : x ∈ keys (merge c p l) ↔
    (x = c ∧ p ∈ keys l) ∨ (x ≠ c ∧ x ≠ p ∧ x ∈ keys l) := by
  simp only [mem_keys, mem_merge hcp]
  constructor
  · rintro ⟨q, ⟨hx, hq⟩ | ⟨hc, hp, hq⟩⟩
    · exact Or.inl ⟨hx, q, hq⟩
    · exact Or.inr ⟨hc, hp, q, hq⟩
  · rintro (⟨hx, q, hq⟩ | ⟨hc, hp, q, hq⟩)
    · exact ⟨q, Or.inl ⟨hx, hq⟩⟩
    · exact ⟨q, Or.inr ⟨hc, hp, hq⟩⟩

theorem Tree.merge (h : Tree l) (hc : (c, some p) ∈ l) (honly : ∀ e ∈ l, e.2 = some p → e.1 = c) :
    Tree (merge c p l) := by
  have hcp := h.parent_ne hc
  induction h with
  | root => simp at hc
  | @leaf l k q hl hq hnew ih =>
      by_cases heq : k = c
      · subst heq
        -- the child is the last entry, so its parent is a leaf of the others
        have hp : p = q := by
          rcases List.mem_append.mp hc with hold | hlast
          · exact absurd (mem_keys.mpr ⟨_, hold⟩) hnew
          · simpa using hlast
        subst hp
        have hbare : ∀ e ∈ l, e.2 ≠ some p := by
          intro e he hep
          exact hnew (honly e (List.mem_append_left _ he) hep ▸ List.mem_map_of_mem he)
        have hinj : Set.InjOn (fun x => if x = p then k else x) {x | x ∈ keys l} := by
          intro x hx y hy hxy
          dsimp only at hxy
          split at hxy <;> split at hxy
          · simp_all
          · exact absurd (hxy ▸ hy) hnew
          · exact absurd (hxy ▸ hx) hnew
          · exact hxy
        have hmerge : Rooted.merge k p (l ++ [(k, some p)]) =
            Rooted.rename (fun x => if x = p then k else x) l := by
          rw [Rooted.merge, Rooted.rename, prune_append, prune_eq_self hnew, prune_singleton,
            List.append_nil]
          refine List.map_congr_left fun e he => ?_
          obtain ⟨x, _ | y⟩ := e
          · rfl
          · have hy : y ≠ p := fun hyp => hbare _ he (congrArg some hyp)
            simp [hy]
        rw [hmerge]
        exact hl.rename hinj
      · have hold : (c, some p) ∈ l := by simpa [Ne.symm heq] using hc
        have hrec := ih hold fun e he => honly e (List.mem_append_left _ he)
        have hpl := hl.parent_mem hold
        have hkp : k ≠ p := fun hkp => hnew (hkp ▸ hpl)
        have hqp : q ≠ p := fun hqp => heq (honly (k, some q) (by simp) (congrArg some hqp))
        have hlast : Rooted.merge c p (l ++ [(k, some q)]) =
            Rooted.merge c p l ++ [(k, some q)] := by
          simp [Rooted.merge, Rooted.prune, heq, hkp]
        rw [hlast]
        refine .leaf hrec ?_ ?_
        · rw [mem_keys_merge hcp.symm]
          by_cases hqc : q = c
          · exact Or.inl ⟨hqc, hpl⟩
          · exact Or.inr ⟨hqc, hqp, hq⟩
        · rw [mem_keys_merge hcp.symm]
          rintro (⟨hkc, -⟩ | ⟨-, -, hmem⟩)
          · exact heq hkc
          · exact hnew hmem

/-- The others go up as before, past the entry that is gone. -/
theorem Line.merge (h : Tree l) (hc : (c, some p) ∈ l) (honly : ∀ e ∈ l, e.2 = some p → e.1 = c)
    (hline : Line l k ks) :
    (k ≠ p → Line (merge c p l) k (ks.filter (· ≠ p))) ∧
      (k = p → Line (merge c p l) c (c :: ks.filter (· ≠ p))) := by
  have hcp := (h.parent_ne hc).symm
  induction hline with
  | @root k hk =>
      constructor
      · intro hne
        have hkc : k ≠ c := by
          rintro rfl
          cases h.parent_unique hk hc
        simpa [hne] using Line.root ((mem_merge hcp).mpr (Or.inr ⟨hkc, hne, hk⟩))
      · rintro rfl
        simpa using Line.root ((mem_merge hcp).mpr (Or.inl ⟨rfl, hk⟩))
  | @up k q ks hk hq ih =>
      constructor
      · intro hne
        by_cases hqp : q = p
        · cases honly _ hk (congrArg some hqp)
          simpa [hne] using ih.2 hqp
        · have hkc : k ≠ c := by
            rintro rfl
            cases h.parent_unique hk hc
            exact hqp rfl
          simpa [hne] using Line.up ((mem_merge hcp).mpr (Or.inr ⟨hkc, hne, hk⟩)) (ih.1 hqp)
      · rintro rfl
        simpa using Line.up ((mem_merge hcp).mpr (Or.inl ⟨rfl, hk⟩)) (ih.1 (h.parent_ne hk))

end Facts

end Rooted
