import Sws.Process.Connecting
import Sws.Process.Custody

/-!
# Socket Objects Share Nothing

An operation changes the objects it names and no other, whatever the native calls return and
whatever is thrown in the middle of it.  A move changes the place of an object, and none of its
members; so an object is found again at the end of a run, as it was, in the place to which the
moves have carried it.

## Key Results

- `Operation.Spares`: the operations that leave an object as it is, or move it.
- `step_carries`, `act_carries`: one operation, and one action.
- `object_carried`: whole runs.
-/

namespace Sws.Process

open Sws.Foundation

/-! ## Operations -/

/-- The operation moves the object, or names others only. -/
def Operation.Spares : Operation → SocketId → Prop
  | .construct self _ _, i | .bind self _, i | .connect self _, i | .listen self, i
  | .setBlocking self _, i | .close self, i | .destroy self, i
  | .moveConstruct self _, i => i ≠ self
  | .accept self s, i => i ≠ self ∧ i ≠ s
  -- an object that is assigned to itself is left alone
  | .moveAssign self rhs, i => i = self → rhs = self

section Operations

variable {inet : InetText} {w w' : Process} {op : Operation} {i : SocketId} {s : Socket}

/-- An operation that spares an object changes nothing of it. -/
theorem Operation.Spares.not_changes (hop : op.Spares i) : ¬op.Changes i := by
  cases op with
  | bind | connect | listen | setBlocking => exact fun hself => hop hself
  | accept => exact fun hself => hop.1 hself
  | construct | moveConstruct | moveAssign | close | destroy => exact id

/-- It does not close the object, which is where its handle is. -/
theorem Operation.Spares.carries_eq (hop : op.Spares i) : op.carries i = some (op.carry i) := by
  cases op with
  | construct | bind | connect | listen | setBlocking => rfl
  | close | destroy => exact if_neg (Ne.symm hop)
  | accept => exact if_neg (Ne.symm hop.2)
  | moveConstruct self rhs =>
    simp only [Operation.carries, Operation.carry, eq_comm (a := i)]
    split_ifs <;> rfl
  | moveAssign self rhs =>
    have hkept : i = self → rhs = self := hop
    simp only [Operation.carries, Operation.carry, eq_comm (a := i)] at hkept ⊢
    split_ifs <;> grind

/-- An object that an operation spares is, as it was, where the operation carries it. -/
theorem step_carries (hs : w.sockets i = some s) (hstep : Step inet w op w') (hop : op.Spares i) :
    w'.sockets (op.carry i) = some s := by
  have hsame := step_has (P := (· = s)) ⟨s, hs, rfl⟩ hstep hop.carries_eq
    fun hchanges => absurd hchanges hop.not_changes
  obtain ⟨t, ht, rfl⟩ := hsame
  exact ht

end Operations

/-! ## Runs -/

/-- A transfer on another object spares this one. -/
def Action.Spares : Action → SocketId → Prop
  | .operate op, i => op.Spares i
  | .transfer self .., i => i ≠ self

/-- Every action of a run spares the object, wherever it has been carried by then. -/
def AllSpare (actions : List Action) (i : SocketId) : Prop :=
  ∀ before a after, actions = before ++ a :: after → a.Spares (carriedTo before i)

section Runs

variable {inet : InetText} {w w' : Process} {a : Action} {actions : List Action} {i : SocketId}
  {s : Socket}

/-- **One action** leaves an object that it spares where it carries it. -/
theorem act_carries (hs : w.sockets i = some s) (hact : Act inet w a w') (ha : a.Spares i) :
    w'.sockets (a.carry i) = some s := by
  cases a with
  | operate op => exact step_carries hs hact ha
  | transfer self call packet buffer net =>
    obtain ⟨-, t, e, -, -, rfl⟩ := transfer_cases hact
    exact (Function.update_of_ne ha ..).trans hs

/-- Where nothing is done, every object is spared. -/
theorem allSpare_nil (i : SocketId) : AllSpare [] i := by
  intro before a after heq
  simp at heq

/-- Actions spare an object if the first does, and the others the object it has carried. -/
theorem allSpare_cons (ha : a.Spares i) (hrest : AllSpare actions (a.carry i)) :
    AllSpare (a :: actions) i := by
  intro before a' after heq
  cases before with
  | nil =>
    obtain ⟨rfl, -⟩ := List.cons_eq_cons.mp heq
    exact ha
  | cons first before =>
    obtain ⟨rfl, rfl⟩ := List.cons_eq_cons.mp heq
    exact hrest before a' after rfl

/-- So does the last of them the object that the others have carried. -/
theorem allSpare_snoc (h : AllSpare (actions ++ [a]) i) :
    AllSpare actions i ∧ a.Spares (carriedTo actions i) := by
  refine ⟨?_, h actions a [] rfl⟩
  rintro before a' after rfl
  exact h before a' (after ++ [a]) (by simp)

/-- **Isolation.** In every run of all member functions from a state that can be reached, an object
that every action spares is, with all its members, in the place to which the moves have carried it,
and its handle has not been closed. -/
theorem object_carried (hreached : Reached inet w) (hs : w.sockets i = some s)
    (hrun : Reaches (Act inet) w actions w') (hspared : AllSpare actions i) :
    w'.sockets (carriedTo actions i) = some s ∧ ∀ k, s.handle = some k → k ∉ w'.closed := by
  have hcarried : w'.sockets (carriedTo actions i) = some s := by
    clear hreached
    induction hrun with
    | nil => exact hs
    | snoc _ hact ih =>
      obtain ⟨hbefore, hlast⟩ := allSpare_snoc hspared
      rw [carriedTo, List.foldl_append]
      exact act_carries (ih hbefore) hact hlast
  refine ⟨hcarried, fun k hk => ?_⟩
  -- what an object holds has not been released
  have howned := owned_of_reaches (reached_owned hreached) hrun
  refine howned.linear.kept (i := some (carriedTo actions i)) ?_
  show (w'.sockets (carriedTo actions i)).bind Socket.handle = some k
  rw [hcarried]
  exact hk

end Runs

/-- What has been moved out of an object does not change when the object is destroyed. -/
theorem object_carried_handedOver :
    ∃ (w w' : Process) (s : Socket), w.sockets 0 = some s ∧ s.handle = some 1 ∧
      w'.sockets 1 = some s := by
  obtain ⟨w, s, hbound, hs, hk, -, w', hmoved, -⟩ := reaches_handedOver
  have hspared : AllSpare handing 0 :=
    allSpare_cons (show (0 : ℕ) ≠ 1 by decide)
      (allSpare_cons (show (1 : ℕ) ≠ 0 by decide) (allSpare_nil _))
  exact ⟨w, w', s, hs, hk,
    (object_carried ⟨_, _, starts_handedOver, hbound⟩ hs hmoved hspared).1⟩

end Sws.Process
