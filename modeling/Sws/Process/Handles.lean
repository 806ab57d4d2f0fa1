import Sws.Process.Ledger

/-!
# Native Handles Are Owned Linearly

What the operations of a run do to the ledger of handles are moves that keep a ledger linear, and
the ledger of a process at its start is empty.

## Key Results

- `owned_step`, `reachable_owned`: handles stay owned.
- `handles_linear`: no run leaks a handle, shares one, or closes one twice.
-/

namespace Sws.Process

open Sws.Foundation

/-! ## Runs -/

/-- A process at its start: no objects, no handles, and any native results to come. -/
def Starts (w : Process) : Prop :=
  (∀ i, w.sockets i = none) ∧ w.opened = [] ∧ w.closings = []

/-- The process is reached by some run of operations. -/
def Reachable (inet : InetText) (w : Process) : Prop :=
  ∃ w₀ ops, Starts w₀ ∧ Reaches (Step inet) w₀ ops w

section Runs

variable {inet : InetText} {w w' : Process} {op : Operation}

theorem ledger_of_starts (h : Starts w) : w.ledger none = Ledger.initial := by
  apply Ledger.ext
  · funext i
    cases i with
    | none => rfl
    | some i =>
      show (w.sockets i).bind Socket.handle = none
      rw [h.1 i]
      rfl
  · exact h.2.1
  · exact congrArg (List.map Closing.handle) h.2.2

theorem owned_of_starts (h : Starts w) : Owned none w := by
  constructor
  · rw [ledger_of_starts h]
    exact Ledger.linear_initial
  · intro c hc
    rw [h.2.2] at hc
    exact absurd hc List.not_mem_nil

/-- **One operation** leaves every handle owned. -/
theorem owned_step (h : Owned none w) (hstep : Step inet w op w') : Owned none w' := by
  obtain ⟨o, hmoved⟩ := step_makes hstep
  exact hmoved.owned h

theorem reachable_owned (h : Reachable inet w) : Owned none w := by
  obtain ⟨w₀, ops, hstarts, hreaches⟩ := h
  exact hreaches.invariant (fun _ _ _ howned hstep => owned_step howned hstep)
    (owned_of_starts hstarts)

end Runs

/-! ## Linearity -/

/-- No handle is leaked, shared, or closed twice. -/
structure HandlesLinear (w : Process) : Prop where
  /-- A handle that has not been closed is stored in exactly one object. -/
  stored : ∀ h ∈ w.opened, h ∉ w.closed → ∃! i, ∃ s, w.sockets i = some s ∧ s.handle = some h
  /-- No handle is passed to `closesocket` twice. -/
  once : w.closed.Nodup
  /-- A handle is not passed to `closesocket` while another object stores it. -/
  alone : ∀ c ∈ w.closings, ∀ i s, c.sockets i = some s → s.handle = some c.handle → i = c.owner
  /-- When no object is left, every handle has been closed. -/
  finished : (∀ i, w.sockets i = none) → ∀ h ∈ w.opened, h ∈ w.closed

/-- **Linear handles.** In every run, exceptions caught, after every operation. -/
theorem handles_linear {inet : InetText} {w : Process} (h : Reachable inet w) :
    HandlesLinear w := by
  obtain ⟨hlinear, halone⟩ := reachable_owned h
  refine ⟨?_, hlinear.once, halone, ?_⟩
  · intro k hk hnot
    obtain ⟨i, hi, hunique⟩ := hlinear.existsUnique hk hnot
    -- the hand is empty between two operations
    cases i with
    | none => cases hi
    | some i =>
      refine ⟨i, Option.bind_eq_some_iff.mp hi, ?_⟩
      intro j hj
      exact Option.some.inj (hunique (some j) (Option.bind_eq_some_iff.mpr hj))
  · intro hnone k hk
    refine hlinear.all_released ?_ hk
    intro i
    cases i with
    | none => rfl
    | some i =>
      show (w.sockets i).bind Socket.handle = none
      rw [hnone i]
      rfl

/-- The native results of a listener that accepts into itself and is then destroyed. -/
def relisten : Process where
  replies :=
    [.handle 1, .success, .success, .failure .notConnected, .failure .notConnected, .success,
      .handle 2, .success, .success, .success, .failure .notConnected, .failure .notConnected,
      .success, .success]

/-- The listener's handle is closed when the accepted one takes its place. -/
theorem handles_linear_relisten :
    ∃ w, w.sockets 0 = none ∧ w.opened = [1, 2] ∧ w.closed = [1, 2] ∧ HandlesLinear w := by
  have hreaches : Reaches (Step .loopback) relisten _ _ :=
    .snoc (.snoc (.snoc (.snoc (.snoc (.nil relisten)
      (show Step .loopback _ (.construct 0 .tcp true) _ from ⟨rfl, rfl⟩))
      (show Step .loopback _ (.bind 0 ⟨"127.0.0.1", 80, .inet⟩) _ from ⟨trivial, rfl⟩))
      (show Step .loopback _ (.listen 0) _ from ⟨trivial, rfl⟩))
      (show Step .loopback _ (.accept 0 0) _ from ⟨trivial, rfl⟩))
      (show Step .loopback _ (.destroy 0) _ from ⟨trivial, rfl⟩)
  exact ⟨_, rfl, rfl, rfl, handles_linear ⟨relisten, _, ⟨fun _ => rfl, rfl, rfl⟩, hreaches⟩⟩

end Sws.Process
