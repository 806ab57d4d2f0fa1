import Mathlib.Data.List.TakeDrop
import Mathlib.Tactic.Common

/-!
# Transfers in Rounds

A transfer of a number of units that is made in rounds.  A round moves some of the units, or has
to be made again, or ends the transfer before its time; or it never comes back.

## Key Results

- `transfer`: what a list of rounds makes of a transfer.
- `transfer_done_iff`, `transfer_failed_iff`: on which rounds it is completed, or given up.
- `transfer_moved_le`, `transfer_done_moved`: how much has been moved.
- `transfer_moved`, `transfer_again`, `transfer_stop`, `transfer_stuck`: one round.
-/

namespace Sws.Foundation

/-- What one round of a transfer comes to. -/
inductive Round
  | moved (n : ℕ)
  | again
  | stop
  /-- The round does not come back. -/
  | pending
  deriving DecidableEq, Repr

namespace Round

/-- After the round the transfer goes on, if there is something left. -/
def GoesOn : Round → Prop
  | moved n => 0 < n
  | again => True
  | stop | pending => False

@[simp] theorem goesOn_moved {n : ℕ} : (moved n).GoesOn ↔ 0 < n := Iff.rfl

@[simp] theorem goesOn_again : again.GoesOn := trivial

@[simp] theorem not_goesOn_stop : ¬stop.GoesOn := id

@[simp] theorem not_goesOn_pending : ¬pending.GoesOn := id

/-- The units the round has moved. -/
@[simp] def amount : Round → ℕ
  | moved n => n
  | _ => 0

/-- The units that rounds have moved. -/
def total : List Round → ℕ
  | [] => 0
  | r :: rs => r.amount + total rs

@[simp] theorem total_nil : total [] = 0 := rfl

@[simp] theorem total_cons (r : Round) (rs : List Round) : total (r :: rs) = r.amount + total rs :=
  rfl

end Round

open Round

/-- How a transfer has ended: completed or given up, or not yet; how much has been moved, and in
how many rounds that came back. -/
structure Report where
  completed : Option Bool
  moved : ℕ
  rounds : ℕ
  deriving DecidableEq, Repr

/-- The report with a round in front that has moved `n` units. -/
def Report.after (n : ℕ) (r : Report) : Report := ⟨r.completed, n + r.moved, r.rounds + 1⟩

/-- The transfer of `left` units of which there are no more than `stock`. -/
def transfer : (left stock : ℕ) → List Round → Report
  | 0, _, _ => ⟨some true, 0, 0⟩
  | _ + 1, _, [] => ⟨none, 0, 0⟩
  | left + 1, stock, .moved n :: rs =>
    -- a round that moves nothing, or more than it can, is none that comes back
    if 0 < n ∧ n ≤ min (left + 1) stock then (transfer (left + 1 - n) (stock - n) rs).after n
    else ⟨none, 0, 0⟩
  | left + 1, stock, .again :: rs => (transfer (left + 1) stock rs).after 0
  | _ + 1, _, .stop :: _ => ⟨some false, 0, 1⟩
  | _ + 1, _, .pending :: _ => ⟨none, 0, 0⟩

section Transfer

variable {left stock : ℕ} {rounds : List Round}

@[simp] theorem transfer_zero (stock : ℕ) (rounds : List Round) :
    transfer 0 stock rounds = ⟨some true, 0, 0⟩ := by
  cases rounds <;> rfl

theorem transfer_moved {n : ℕ} (hleft : 0 < left) (hn : 0 < n ∧ n ≤ min left stock) :
    transfer left stock (.moved n :: rounds) =
      (transfer (left - n) (stock - n) rounds).after n := by
  cases left with
  | zero => omega
  | succ left => simp only [transfer, if_pos hn]

theorem transfer_again (hleft : 0 < left) :
    transfer left stock (.again :: rounds) = (transfer left stock rounds).after 0 := by
  cases left with
  | zero => omega
  | succ left => rfl

theorem transfer_stop (hleft : 0 < left) :
    transfer left stock (.stop :: rounds) = ⟨some false, 0, 1⟩ := by
  cases left with
  | zero => omega
  | succ left => rfl

/-- A transfer that waits for a round that does not come back, or not with what it can have
moved. -/
theorem transfer_stuck (hleft : 0 < left)
    (h : ∀ r rs, rounds = r :: rs → r = .pending ∨ ∃ n, r = .moved n ∧ min left stock < n) :
    transfer left stock rounds = ⟨none, 0, 0⟩ := by
  cases left with
  | zero => omega
  | succ left =>
    cases rounds with
    | nil => rfl
    | cons r rs =>
      rcases h r rs rfl with hpending | ⟨n, hmoved, hn⟩
      · rw [hpending]
        rfl
      · rw [hmoved]
        simp only [transfer, if_neg (show ¬(0 < n ∧ n ≤ min (left + 1) stock) by omega)]

/-- No more is moved than there is to be moved. -/
theorem transfer_moved_le (left stock : ℕ) (rounds : List Round) :
    (transfer left stock rounds).moved ≤ min left stock := by
  induction rounds generalizing left stock with
  | nil => cases left <;> simp [transfer]
  | cons r rs ih =>
    cases left with
    | zero => simp
    | succ left =>
      cases r with
      | moved n =>
        simp only [transfer]
        split_ifs with hn
        · have hrest := ih (left + 1 - n) (stock - n)
          simp only [Report.after]
          omega
        · simp
      | again =>
        have hrest := ih (left + 1) stock
        simpa [transfer, Report.after] using hrest
      | stop | pending => simp [transfer]

/-- The rounds of a transfer are among those given. -/
theorem transfer_rounds_le (left stock : ℕ) (rounds : List Round) :
    (transfer left stock rounds).rounds ≤ rounds.length := by
  induction rounds generalizing left stock with
  | nil => cases left <;> simp [transfer]
  | cons r rs ih =>
    cases left with
    | zero => simp
    | succ left =>
      cases r with
      | moved n =>
        simp only [transfer]
        split_ifs with hn
        · simpa [Report.after] using ih (left + 1 - n) (stock - n)
        · simp
      | again => simpa [transfer, Report.after] using ih (left + 1) stock
      | stop | pending => simp [transfer]

/-- A transfer is completed exactly when all of it has been moved. -/
theorem transfer_done_moved (left stock : ℕ) (rounds : List Round) :
    (transfer left stock rounds).completed = some true ↔
      (transfer left stock rounds).moved = left := by
  -- what a round has moved is no longer left to the others
  induction rounds generalizing left stock with
  | nil => cases left <;> simp [transfer]
  | cons r rs ih =>
    cases left with
    | zero => simp
    | succ left =>
      cases r with
      | moved n =>
        simp only [transfer]
        split_ifs with hn
        · have hrest := ih (left + 1 - n) (stock - n)
          simp only [Report.after]
          rw [hrest]
          omega
        · simp
      | again =>
        have hrest := ih (left + 1) stock
        simpa [transfer, Report.after] using hrest
      | stop | pending => simp [transfer]

/-- A first round that goes on takes its part of a total. -/
theorem exists_take_cons_total {r : Round} {rs : List Round} {n : ℕ} (hn : 0 < n) :
    (∃ k, (∀ r' ∈ (r :: rs).take k, r'.GoesOn) ∧ total ((r :: rs).take k) = n) ↔
      r.GoesOn ∧ ∃ k, (∀ r' ∈ rs.take k, r'.GoesOn) ∧ r.amount + total (rs.take k) = n := by
  constructor
  · intro h
    obtain ⟨k, hgo, htotal⟩ := h
    cases k with
    | zero =>
      have hnone : n = 0 := by simpa using htotal.symm
      omega
    | succ k =>
      simp only [List.take_succ_cons, List.forall_mem_cons, total_cons] at hgo htotal
      exact ⟨hgo.1, k, hgo.2, htotal⟩
  · intro h
    obtain ⟨hr, k, hgo, htotal⟩ := h
    exact ⟨k + 1, by simpa using ⟨hr, hgo⟩, by simpa using htotal⟩

/-- **Completed.** A transfer is completed exactly on rounds which move all of it, with nothing
but further attempts in between. -/
theorem transfer_done_iff (left stock : ℕ) (rounds : List Round) :
    (transfer left stock rounds).completed = some true ↔
      (∃ k, (∀ r ∈ rounds.take k, r.GoesOn) ∧ total (rounds.take k) = left) ∧ left ≤ stock := by
  induction rounds generalizing left stock with
  | nil => cases left <;> simp [transfer]
  | cons r rs ih =>
    cases left with
    | zero => simpa using ⟨0, by simp⟩
    | succ left =>
      rw [exists_take_cons_total (Nat.succ_pos left)]
      cases r with
      | moved n =>
        simp only [transfer, goesOn_moved, amount]
        split_ifs with hn
        · simp only [Report.after, ih]
          -- what the first round has moved is missing on both sides
          have hmoved : ∀ k, total (rs.take k) = left + 1 - n ↔
              n + total (rs.take k) = left + 1 := by
            omega
          simp only [hmoved]
          have hleft : left + 1 - n ≤ stock - n ↔ left + 1 ≤ stock := by omega
          simp [hleft, hn.1]
        · constructor
          · intro h
            cases h
          · intro h
            obtain ⟨⟨hpos, k, -, htotal⟩, hle⟩ := h
            omega
      | again => simp [transfer, Report.after, ih]
      | stop | pending => simp [transfer]

/-- It takes a round to give up. -/
theorem transfer_failed_pos (left stock : ℕ) (rounds : List Round)
    (h : (transfer left stock rounds).completed = some false) :
    0 < (transfer left stock rounds).rounds := by
  cases left with
  | zero => simp at h
  | succ left =>
    cases rounds with
    | nil => simp [transfer] at h
    | cons r rs =>
      cases r with
      | moved n =>
        simp only [transfer] at h ⊢
        split_ifs at h ⊢
        exact Nat.succ_pos _
      | again => exact Nat.succ_pos _
      | stop => exact Nat.one_pos
      | pending => simp [transfer] at h

/-- **Given up.** A transfer is given up exactly in the first round that ends it, if it is not
completed before. -/
theorem transfer_failed_iff (left stock k : ℕ) (rounds : List Round) :
    ((transfer left stock rounds).completed = some false ∧
        (transfer left stock rounds).rounds = k + 1) ↔
      rounds[k]? = some .stop ∧ (∀ r ∈ rounds.take k, r.GoesOn) ∧
        total (rounds.take k) < left ∧ total (rounds.take k) ≤ stock := by
  induction rounds generalizing left stock k with
  | nil => cases left <;> simp [transfer]
  | cons r rs ih =>
    cases left with
    | zero => simp
    | succ left =>
      have hpos := transfer_failed_pos
      cases k with
      | zero =>
        cases r with
        | moved n =>
          simp only [transfer]
          split_ifs with hn
          · have hrest := hpos (left + 1 - n) (stock - n) rs
            simpa [Report.after, Nat.pos_iff_ne_zero] using hrest
          · simp
        | again =>
          have hrest := hpos (left + 1) stock rs
          simpa [transfer, Report.after, Nat.pos_iff_ne_zero] using hrest
        | stop | pending => simp [transfer]
      | succ k =>
        cases r with
        | moved n =>
          simp only [transfer]
          split_ifs with hn
          · have hrest := ih (left + 1 - n) (stock - n) k
            -- what the first round has moved is missing on both sides
            have hleft : total (rs.take k) < left + 1 - n ↔
                n + total (rs.take k) < left + 1 := by omega
            have hstock : total (rs.take k) ≤ stock - n ↔ n + total (rs.take k) ≤ stock := by omega
            simp [Report.after, hrest, hn.1, hleft, hstock]
          · constructor
            · intro h
              simp at h
            · intro h
              obtain ⟨-, hgo, hlt, hle⟩ := h
              simp only [List.take_succ_cons, List.forall_mem_cons, total_cons, amount,
                goesOn_moved] at hgo hlt hle
              omega
        | again =>
          have hrest := ih (left + 1) stock k
          simpa [transfer, Report.after] using hrest
        | stop | pending => simp [transfer]

end Transfer

end Sws.Foundation
