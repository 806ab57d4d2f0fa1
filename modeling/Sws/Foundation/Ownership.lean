import Mathlib.Data.List.Nodup
import Mathlib.Logic.Function.Basic
import Mathlib.Tactic.Common

/-!
# Linear Resources

Resources that are acquired, handed from owner to owner, and released.  Every owner holds at
most one at a time; a resource counts as released when it has been given back, whatever comes
of that.

## Key Results

- `Linear`: no resource is lost, shared, or released twice.
- `Linear.acquire`, `Linear.release`, `Linear.transfer`: what keeps it.
- `Linear.existsUnique`, `Linear.all_released`: what it is good for.
-/

namespace Sws.Foundation

variable {ι κ : Type*}

/-- Who holds what, and what has been acquired and released so far. -/
@[ext] structure Ledger (ι κ : Type*) where
  holds : ι → Option κ
  acquired : List κ
  released : List κ

namespace Ledger

/-! ## Linear ledgers -/

/-- Every resource that was acquired is held by exactly one owner or has been released once. -/
structure Linear (l : Ledger ι κ) : Prop where
  /-- Two owners never hold the same resource. -/
  sole : ∀ {i j : ι} {k : κ}, l.holds i = some k → l.holds j = some k → i = j
  /-- What is held has been acquired. -/
  held : ∀ {i : ι} {k : κ}, l.holds i = some k → k ∈ l.acquired
  /-- What is held has not been released. -/
  kept : ∀ {i : ι} {k : κ}, l.holds i = some k → k ∉ l.released
  /-- What has not been released is held. -/
  covered : ∀ k ∈ l.acquired, k ∉ l.released → ∃ i, l.holds i = some k
  /-- What has been released was acquired. -/
  returned : ∀ k ∈ l.released, k ∈ l.acquired
  /-- Nothing has been released twice. -/
  once : l.released.Nodup

/-- A ledger in which nothing has happened. -/
def initial : Ledger ι κ := ⟨fun _ => none, [], []⟩

theorem linear_initial : (initial : Ledger ι κ).Linear where
  sole h := by cases h
  held h := by cases h
  kept h := by cases h
  covered _ hk := by cases hk
  returned _ hk := by cases hk
  once := List.nodup_nil

section Consequences

variable {l : Ledger ι κ}

/-- A resource that has not been released has exactly one owner. -/
theorem Linear.existsUnique (h : l.Linear) {k : κ} (hk : k ∈ l.acquired)
    (hnot : k ∉ l.released) : ∃! i, l.holds i = some k := by
  obtain ⟨i, hi⟩ := h.covered k hk hnot
  refine ⟨i, hi, ?_⟩
  intro j hj
  exact h.sole hj hi

/-- When nobody holds anything, everything has been released. -/
theorem Linear.all_released (h : l.Linear) (hnone : ∀ i, l.holds i = none) {k : κ}
    (hk : k ∈ l.acquired) : k ∈ l.released := by
  by_contra hnot
  obtain ⟨i, hi⟩ := h.covered k hk hnot
  rw [hnone i] at hi
  cases hi

end Consequences

/-! ## Steps -/

section Steps

variable [DecidableEq ι]

/-- The owner acquires the resource. -/
def acquire (l : Ledger ι κ) (i : ι) (k : κ) : Ledger ι κ :=
  { l with holds := Function.update l.holds i (some k), acquired := l.acquired ++ [k] }

/-- The owner releases the resource it holds. -/
def release (l : Ledger ι κ) (i : ι) (k : κ) : Ledger ι κ :=
  { l with holds := Function.update l.holds i none, released := l.released ++ [k] }

/-- The first owner hands what it holds to the second. -/
def transfer (l : Ledger ι κ) (i j : ι) : Ledger ι κ :=
  { l with holds := Function.update (Function.update l.holds i none) j (l.holds i) }

variable {l : Ledger ι κ} {i j : ι} {k : κ}

/-- A fresh resource may be acquired by an owner that holds none. -/
theorem Linear.acquire (h : l.Linear) (hi : l.holds i = none) (hfresh : k ∉ l.acquired) :
    (l.acquire i k).Linear where
  sole := by
    intro a b m ha hb
    simp only [Ledger.acquire, Function.update_apply] at ha hb
    split at ha <;> split at hb
    · rename_i hai hbi
      rw [hai, hbi]
    · -- the fresh resource is held by nobody else
      cases ha
      exact absurd (h.held hb) hfresh
    · cases hb
      exact absurd (h.held ha) hfresh
    · exact h.sole ha hb
  held := by
    intro a m ha
    simp only [Ledger.acquire, Function.update_apply] at ha ⊢
    split at ha
    · cases ha
      simp
    · exact List.mem_append_left _ (h.held ha)
  kept := by
    intro a m ha
    simp only [Ledger.acquire, Function.update_apply] at ha ⊢
    split at ha
    · cases ha
      -- a fresh resource cannot have been released
      exact fun hm => hfresh (h.returned _ hm)
    · exact h.kept ha
  covered := by
    intro m hm hnot
    simp only [Ledger.acquire, List.mem_append, List.mem_singleton] at hm hnot ⊢
    rcases hm with hm | rfl
    · obtain ⟨a, ha⟩ := h.covered m hm hnot
      -- the owner held nothing, so nobody loses what they held
      have hne : a ≠ i := by
        rintro rfl
        rw [hi] at ha
        cases ha
      exact ⟨a, by rw [Function.update_of_ne hne, ha]⟩
    · exact ⟨i, Function.update_self ..⟩
  returned m hm := List.mem_append_left _ (h.returned m hm)
  once := h.once

/-- What is held may be released. -/
theorem Linear.release (h : l.Linear) (hi : l.holds i = some k) : (l.release i k).Linear where
  sole := by
    intro a b m ha hb
    simp only [Ledger.release, Function.update_apply] at ha hb
    split at ha <;> split at hb
    · -- the owner that releases holds nothing afterwards
      cases ha
    · cases ha
    · cases hb
    · exact h.sole ha hb
  held := by
    intro a m ha
    simp only [Ledger.release, Function.update_apply] at ha
    split at ha
    · cases ha
    · exact h.held ha
  kept := by
    intro a m ha
    simp only [Ledger.release, Function.update_apply, List.mem_append, List.mem_singleton] at ha ⊢
    split at ha
    · cases ha
    · rename_i hne
      -- the released resource has no second owner
      rintro (hm | rfl)
      · exact h.kept ha hm
      · exact hne (h.sole ha hi)
  covered := by
    intro m hm hnot
    simp only [Ledger.release, List.mem_append, List.mem_singleton, not_or] at hm hnot ⊢
    -- what is still out is not what was released, and keeps its owner
    obtain ⟨a, ha⟩ := h.covered m hm hnot.1
    have hne : a ≠ i := by
      rintro rfl
      rw [hi] at ha
      cases ha
      exact hnot.2 rfl
    exact ⟨a, by rw [Function.update_of_ne hne, ha]⟩
  returned := by
    intro m hm
    simp only [Ledger.release, List.mem_append, List.mem_singleton] at hm
    rcases hm with hm | rfl
    · exact h.returned m hm
    · exact h.held hi
  once := List.nodup_append.mpr ⟨h.once, List.nodup_singleton k, by
    intro a ha b hb
    -- a resource that is held had not been released before
    rw [List.mem_singleton] at hb
    rintro rfl
    rw [hb] at ha
    exact h.kept hi ha⟩

/-- What is held may be handed to an owner that holds nothing. -/
theorem Linear.transfer (h : l.Linear) (hne : i ≠ j) (hj : l.holds j = none) :
    (l.transfer i j).Linear := by
  -- who holds what afterwards, in terms of who held it before
  have hback : ∀ {a m}, (l.transfer i j).holds a = some m →
      (a = j ∧ l.holds i = some m) ∨ (a ≠ i ∧ a ≠ j ∧ l.holds a = some m) := by
    intro a m ha
    simp only [Ledger.transfer, Function.update_apply] at ha
    split at ha
    · rename_i haj
      exact .inl ⟨haj, ha⟩
    · rename_i haj
      split at ha
      · cases ha
      · rename_i hai
        exact .inr ⟨hai, haj, ha⟩
  have hforth : ∀ {a m}, l.holds a = some m → ∃ b, (l.transfer i j).holds b = some m := by
    intro a m ha
    rcases eq_or_ne a i with rfl | hai
    · exact ⟨j, (Function.update_self ..).trans ha⟩
    · -- the second owner held nothing that could get lost
      have haj : a ≠ j := by
        rintro rfl
        rw [hj] at ha
        cases ha
      have hsame : (l.transfer i j).holds a = l.holds a :=
        (Function.update_of_ne haj ..).trans (Function.update_of_ne hai ..)
      exact ⟨a, hsame.trans ha⟩
  refine ⟨?_, ?_, ?_, ?_, h.returned, h.once⟩
  · intro a b m ha hb
    -- two owners afterwards were one owner before
    rcases hback ha with ⟨haj, ha⟩ | ⟨hai, -, ha⟩
    · rcases hback hb with ⟨hbj, -⟩ | ⟨hbi, -, hb⟩
      · rw [haj, hbj]
      · exact absurd (h.sole hb ha) hbi
    · rcases hback hb with ⟨-, hb⟩ | ⟨-, -, hb⟩
      · exact absurd (h.sole ha hb) hai
      · exact h.sole ha hb
  · intro a m ha
    rcases hback ha with ⟨-, ha⟩ | ⟨-, -, ha⟩ <;> exact h.held ha
  · intro a m ha
    rcases hback ha with ⟨-, ha⟩ | ⟨-, -, ha⟩ <;> exact h.kept ha
  · intro m hm hnot
    obtain ⟨a, ha⟩ := h.covered m hm hnot
    exact hforth ha

end Steps

end Ledger

end Sws.Foundation
