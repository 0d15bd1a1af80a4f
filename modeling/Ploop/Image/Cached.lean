import Ploop.Image.GrowOffline

/-!
# The one-cluster cache of the table

The conversions of `ploop.c` go over the table through the same cache as `grow_delta`.
-/

namespace Ploop

open Storage Program

/-- What is cached of the table of `f`. -/
structure Cached (f : File) (L : Layout) (d : Delta) : Prop where
  file : d.file = f
  blocksize : d.blocksize = L.blocksize
  version : d.version = L.version
  l1Size : d.l1Size = L.l1Size
  page : ∀ p, d.l2Cache = some p → ∀ j < L.slots, d.l2 j = f.word (p * L.slots + j)

section Cached

variable {f : File} {L : Layout} {d : Delta}

theorem Cached.cluster (h : Cached f L d) : d.cluster = L.cluster :=
  congrArg s2b h.blocksize

theorem Cached.slots (h : Cached f L d) : d.cluster / 4 = L.slots :=
  congrArg (· / 4) h.cluster

/-- Nothing is cached of an image just opened. -/
theorem OpenedAt.cached (h : OpenedAt f d) : Cached f f.hdr.layout d where
  file := congrArg Disk.file h.disk
  blocksize := h.opened.blocksize
  version := h.opened.version
  l1Size := h.opened.l1Size
  page p hp := by
    rw [h.cache] at hp
    exact absurd hp (Option.some_ne_none p).symm

theorem pread_end (d₀ : Delta) (err : Sysexit) (len off : ℕ) :
    Triple (fun d => d = d₀) (pread err len off)
      (fun buf d => d = d₀ ∧ buf = fun i => d₀.file.byte (off + i))
      (fun _ => d₀.file.size < off + len) :=
  (pread_returns d₀ err len off).conseq (fun _ hd => hd) (fun _ _ hd => ⟨hd.1, hd.2.2⟩)
    fun _ hd => hd.2

/-- A page that is not in memory is read. -/
theorem loadL2_read {d₀ : Delta} {p : ℕ} (hp : d₀.l2Cache ≠ some p) (err : Sysexit) :
    Triple (fun d => d = d₀) (loadL2 err p)
      (fun _ d => d = { d₀ with
        l2 := bytesWord fun i => d₀.file.byte (p * d₀.cluster + i), l2Cache := some p })
      (fun _ => d₀.file.size < p * d₀.cluster + d₀.cluster) := by
  apply Triple.look
  intro d hd
  subst hd
  rw [if_pos hp]
  apply Triple.bind (pread_end d err _ _)
  intro buf
  apply Triple.update
  rintro t ⟨rfl, rfl⟩
  rfl

theorem loadL2_again {d₀ : Delta} {p : ℕ} (hp : d₀.l2Cache = some p) (err : Sysexit) :
    Triple (fun d => d = d₀) (loadL2 err p) (fun _ d => d = d₀) (fun _ => False) := by
  apply Triple.look
  intro d hd
  subst hd
  rw [if_neg (not_not.mpr hp)]
  exact Triple.ret fun _ ht => ht

/-- The page is in memory, or it does not lie in the file. -/
theorem loadL2_cached {d₀ : Delta} (hc : Cached f L d₀) (err : Sysexit) (p : ℕ) :
    Triple (fun d => d = d₀) (loadL2 err p)
      (fun _ d => Cached f L d ∧ d.l2Cache = some p)
      (fun _ => f.size < p * L.cluster + L.cluster) := by
  by_cases hp : d₀.l2Cache = some p
  · apply (loadL2_again hp err).conseq (fun _ h => h) ?_ fun _ h => h.elim
    rintro _ _ rfl
    exact ⟨hc, hp⟩
  · apply (loadL2_read hp err).conseq (fun _ h => h)
    · rintro _ _ rfl
      refine ⟨⟨hc.file, hc.blocksize, hc.version, hc.l1Size, fun q hq j _ => ?_⟩, rfl⟩
      obtain rfl := Option.some.inj hq
      rw [hc.file, hc.cluster]
      exact Layout.bytesWord_page f p j
    · intro _ hend
      rwa [hc.file, hc.cluster] at hend

/-- Loading a page changes nothing but the cache. -/
theorem loadL2_same (d₀ : Delta) (err : Sysexit) (p : ℕ) :
    Triple (fun d => d = d₀) (loadL2 err p)
      (fun _ d => d.file = d₀.file ∧ d.blocksize = d₀.blocksize ∧ d.version = d₀.version)
      (fun _ => True) := by
  by_cases hp : d₀.l2Cache = some p
  · apply (loadL2_again hp err).conseq (fun _ h => h) ?_ fun _ h => h.elim
    rintro _ _ rfl
    exact ⟨rfl, rfl, rfl⟩
  · apply (loadL2_read hp err).conseq (fun _ h => h) ?_ fun _ _ => True.intro
    rintro _ _ rfl
    exact ⟨rfl, rfl, rfl⟩

end Cached

end Ploop
