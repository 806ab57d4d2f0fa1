import Sws.Foundation.Ownership
import Sws.Foundation.Transition

/-!
# Custody of Resources

Runs of a ledger of resources, and who holds a resource at the end of one.  A resource goes from
owner to owner with the transfers of the run, so that its last owner can be read off the moves; and
so can the moment at which it is released.

## Key Results

- `Ledger.linear_of_reaches`: runs keep a ledger linear.
- `Ledger.held_of_reaches`: a resource that is not released is held by the owner it was carried to.
- `Ledger.released_iff`: it is released exactly by a move that drops what this owner holds.
-/

namespace Sws.Foundation

variable {ι κ : Type*}

/-- What may happen to the resources of a ledger. -/
inductive Move (ι κ : Type*)
  | acquire (i : ι) (k : κ)
  /-- The owner gives back what it holds, if it holds anything. -/
  | drop (i : ι)
  | transfer (i j : ι)
  deriving DecidableEq, Repr

/-- The owner, after a move, of what an owner held before. -/
def Move.carry [DecidableEq ι] : Move ι κ → ι → ι
  | .transfer i j, a => if a = i then j else a
  | .acquire _ _, a | .drop _, a => a

/-- The owner to whom moves carry what an owner holds. -/
def carried [DecidableEq ι] (moves : List (Move ι κ)) (a : ι) : ι :=
  moves.foldl (fun i m => m.carry i) a

section Carried

variable [DecidableEq ι] {a : ι} {m : Move ι κ} {moves more : List (Move ι κ)}

@[simp] theorem carried_nil : carried ([] : List (Move ι κ)) a = a := rfl

@[simp] theorem carried_cons : carried (m :: moves) a = carried moves (m.carry a) := rfl

theorem carried_append : carried (moves ++ more) a = carried more (carried moves a) :=
  List.foldl_append ..

end Carried

namespace Ledger

variable [DecidableEq ι]

def drop (l : Ledger ι κ) (i : ι) : Ledger ι κ :=
  match l.holds i with
  | none => l
  | some k => l.release i k

/-- One move; nobody takes a resource who holds one. -/
def Step (l : Ledger ι κ) : Move ι κ → Ledger ι κ → Prop
  | .acquire i k, l' => l.holds i = none ∧ k ∉ l.acquired ∧ l' = l.acquire i k
  | .drop i, l' => l' = l.drop i
  | .transfer i j, l' => i ≠ j ∧ l.holds j = none ∧ l' = l.transfer i j

variable {l l' : Ledger ι κ} {m : Move ι κ} {moves : List (Move ι κ)} {i a : ι} {k : κ}

theorem drop_of_none (h : l.holds i = none) : l.drop i = l := by
  simp only [drop, h]

theorem drop_of_some (h : l.holds i = some k) : l.drop i = l.release i k := by
  simp only [drop, h]

/-! ## Linear runs -/

/-- A move keeps a ledger linear. -/
theorem Linear.step (h : l.Linear) (hstep : l.Step m l') : l'.Linear := by
  cases m with
  | acquire i k =>
    obtain ⟨hnone, hfresh, rfl⟩ := hstep
    exact h.acquire hnone hfresh
  | drop i =>
    obtain rfl := hstep
    cases hi : l.holds i with
    | none => rwa [drop_of_none hi]
    | some k =>
      rw [drop_of_some hi]
      exact h.release hi
  | transfer i j =>
    obtain ⟨hne, hnone, rfl⟩ := hstep
    exact h.transfer hne hnone

theorem linear_of_reaches (h : l.Linear) (hrun : Reaches Step l moves l') : l'.Linear :=
  hrun.invariant (fun _ _ _ hlinear hstep => hlinear.step hstep) h

/-! ## Following a resource -/

/-- What has been released stays so. -/
theorem released_step (hstep : l.Step m l') (hk : k ∈ l.released) : k ∈ l'.released := by
  cases m with
  | acquire i k' =>
    obtain ⟨-, -, rfl⟩ := hstep
    exact hk
  | drop i =>
    obtain rfl := hstep
    cases hi : l.holds i with
    | none => rwa [drop_of_none hi]
    | some k' =>
      rw [drop_of_some hi]
      exact List.mem_append_left _ hk
  | transfer i j =>
    obtain ⟨-, -, rfl⟩ := hstep
    exact hk

/-- After one move a resource is held by the owner it was carried to, or it was given back. -/
theorem held_step (hstep : l.Step m l') (hk : l.holds a = some k) :
    l'.holds (m.carry a) = some k ∨ m = .drop a ∧ k ∈ l'.released := by
  cases m with
  | acquire i k' =>
    obtain ⟨hnone, -, rfl⟩ := hstep
    -- who acquires a resource held none
    have hne : a ≠ i := by
      rintro rfl
      rw [hnone] at hk
      cases hk
    exact .inl ((Function.update_of_ne hne ..).trans hk)
  | drop i =>
    obtain rfl := hstep
    rcases eq_or_ne a i with rfl | hne
    · rw [drop_of_some hk]
      exact .inr ⟨rfl, List.mem_append_right _ List.mem_cons_self⟩
    · refine .inl ?_
      show (l.drop i).holds a = some k
      cases hi : l.holds i with
      | none => rwa [drop_of_none hi]
      | some k' =>
        rw [drop_of_some hi]
        exact (Function.update_of_ne hne ..).trans hk
  | transfer i j =>
    obtain ⟨hne, hnone, rfl⟩ := hstep
    refine .inl ?_
    simp only [Move.carry, Ledger.transfer]
    split_ifs with hai
    · rw [Function.update_self, ← hai, hk]
    · -- who takes a resource held none
      have haj : a ≠ j := by
        rintro rfl
        rw [hnone] at hk
        cases hk
      rw [Function.update_of_ne haj, Function.update_of_ne hai, hk]

/-- A resource that has not been released is held by the owner to whom the moves carry it. -/
theorem held_of_reaches (hrun : Reaches Step l moves l') (hk : l.holds a = some k)
    (hnot : k ∉ l'.released) : l'.holds (carried moves a) = some k := by
  induction hrun with
  | nil => exact hk
  | snoc _ hstep ih =>
    rw [carried_append, carried_cons, carried_nil]
    have hbefore := ih fun hreleased => hnot (released_step hstep hreleased)
    rcases held_step hstep hbefore with hheld | ⟨-, hreleased⟩
    · exact hheld
    · exact absurd hreleased hnot

/-- Among the moves is one that drops what an owner holds at their start. -/
def Drops (moves : List (Move ι κ)) (a : ι) : Prop :=
  ∃ before after, moves = before ++ .drop (carried before a) :: after

theorem not_drops_nil : ¬Drops ([] : List (Move ι κ)) a := by
  rintro ⟨before, after, heq⟩
  simp at heq

/-- What an owner holds is dropped by the first move, or by the rest where that has carried it. -/
theorem drops_cons : Drops (m :: moves) a ↔ m = .drop a ∨ Drops moves (m.carry a) := by
  constructor
  · rintro ⟨before, after, heq⟩
    cases before with
    | nil => exact .inl (List.cons_eq_cons.mp heq).1
    | cons m' before =>
      obtain ⟨rfl, hrest⟩ := List.cons_eq_cons.mp heq
      exact .inr ⟨before, after, hrest⟩
  · rintro (rfl | ⟨before, after, rfl⟩)
    · exact ⟨[], moves, rfl⟩
    · exact ⟨m :: before, after, rfl⟩

/-- The same of two lists of moves. -/
theorem drops_append {more : List (Move ι κ)} :
    Drops (moves ++ more) a ↔ Drops moves a ∨ Drops more (carried moves a) := by
  induction moves generalizing a with
  | nil => simp only [List.nil_append, carried_nil, not_drops_nil, false_or]
  | cons m moves ih => rw [List.cons_append, drops_cons, ih, drops_cons, carried_cons, or_assoc]

/-- **Release.** In a run of a linear ledger, a resource is released exactly if the moves drop what
the owner holds to whom it has been carried. -/
theorem released_iff (h : l.Linear) (hrun : Reaches Step l moves l') (hk : l.holds a = some k) :
    k ∈ l'.released ↔ Drops moves a := by
  induction hrun with
  | nil =>
    exact ⟨fun hreleased => absurd hreleased (h.kept hk), fun hdrops => absurd hdrops not_drops_nil⟩
  | @snoc t t' moves m hprev hstep ih =>
    rw [drops_append, ← ih, drops_cons, or_iff_left not_drops_nil]
    by_cases hbefore : k ∈ t.released
    · exact ⟨fun _ => .inl hbefore, fun _ => released_step hstep hbefore⟩
    · have hheld := held_of_reaches hprev hk hbefore
      constructor
      · intro hreleased
        -- the resource was held until the last move, and is held no more
        rcases held_step hstep hheld with hafter | ⟨hdrop, -⟩
        · have hlinear := (linear_of_reaches h hprev).step hstep
          exact absurd hreleased (hlinear.kept hafter)
        · exact .inr hdrop
      · rintro (hreleased | rfl)
        · exact absurd hreleased hbefore
        · obtain rfl := hstep
          rw [drop_of_some hheld]
          exact List.mem_append_right _ List.mem_cons_self

end Ledger

end Sws.Foundation
