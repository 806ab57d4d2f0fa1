import Sws.Foundation.Transition
import Sws.Model.Winsock

/-!
# Winsock Is Running When `initialize` Says So

The first `initialize` that succeeds starts Winsock up and sets the flag; from then on every other
one returns `none` without a native call.  `cleanup` undoes the start-up and leaves the flag.

## Key Results

- `Follows`: what the calls made so far tell of the flag and of the count.
- `running_iff`: a run is truthful as long as no `initialize` comes after a clean-up.
-/

namespace Sws.Winsock

open Sws.Foundation

/-- A call, with the result of the native call it may make. -/
inductive Call
  | initializeWinsock (startup : SocketError)
  | cleanupWinsock (cleanup : SocketError)
  deriving DecidableEq, Repr

def Call.apply : Call → WinsockM SocketError
  | initializeWinsock startup => Winsock.initializeWinsock startup
  | cleanupWinsock cleanup => Winsock.cleanupWinsock cleanup

/-- A call that returns. -/
def Step (w : Winsock) (call : Call) (w' : Winsock) : Prop :=
  ∃ result, call.apply.run w = .ok result w'

/-! ## One call -/

variable {calls : List Call} {w w' : Winsock} {result startup cleanup : SocketError}

/-- Once the flag is set, `initialize` does nothing. -/
theorem initializeWinsock_again (hflag : w.isInitialized = true) :
    (initializeWinsock startup).run w = .ok .none w := by
  simp only [initializeWinsock, EStateM.run_bind, EStateM.run_get, hflag, if_true]
  rfl

/-- The first `initialize` that succeeds. -/
theorem initializeWinsock_first (hflag : w.isInitialized = false) :
    (initializeWinsock .none).run w = .ok .none ⟨true, w.startups + 1⟩ := by
  simp only [initializeWinsock, EStateM.run_bind, EStateM.run_get, hflag, Bool.false_eq_true,
    if_false]
  rfl

theorem initializeWinsock_fails (hflag : w.isInitialized = false) (hresult : startup ≠ .none) :
    (initializeWinsock startup).run w = .ok startup w := by
  simp only [initializeWinsock, wsaStartup, EStateM.run_bind, EStateM.run_get, hflag,
    Bool.false_eq_true, if_false, if_neg hresult, EStateM.run_pure]

theorem cleanupWinsock_succeeds (hrunning : w.startups ≠ 0) :
    (cleanupWinsock .none).run w = .ok .none { w with startups := w.startups - 1 } := by
  simp only [cleanupWinsock, wsaCleanup, EStateM.run_bind, EStateM.run_get, if_true,
    if_neg hrunning]
  rfl

/-- There is no start-up to undo. -/
theorem cleanupWinsock_pending (hstopped : w.startups = 0) :
    (cleanupWinsock .none).run w = .error .pending w := by
  simp only [cleanupWinsock, wsaCleanup, EStateM.run_bind, EStateM.run_get, if_true,
    if_pos hstopped]
  rfl

theorem cleanupWinsock_fails (hresult : cleanup ≠ .none) :
    (cleanupWinsock cleanup).run w = .ok cleanup w := by
  simp only [cleanupWinsock, wsaCleanup, if_neg hresult, EStateM.run_pure]

/-- What a call can do to the state. -/
inductive Change (w : Winsock) : Call → Winsock → Prop
  | unchanged {call : Call} (hcall : call ≠ .cleanupWinsock .none)
      (hflag : call = .initializeWinsock .none → w.isInitialized = true) : Change w call w
  | started (hflag : w.isInitialized = false) :
      Change w (.initializeWinsock .none) ⟨true, w.startups + 1⟩
  | undone (hrunning : w.startups ≠ 0) :
      Change w (.cleanupWinsock .none) { w with startups := w.startups - 1 }

theorem Step.change {call : Call} (h : Step w call w') : Change w call w' := by
  obtain ⟨result, hrun⟩ := h
  cases call with
  | initializeWinsock startup =>
    -- the flag is looked at before Winsock is asked
    by_cases hflag : w.isInitialized = true
    · cases hrun.symm.trans (initializeWinsock_again hflag)
      exact .unchanged (by simp) fun _ => hflag
    · rw [Bool.not_eq_true] at hflag
      by_cases hresult : startup = .none
      · subst hresult
        cases hrun.symm.trans (initializeWinsock_first hflag)
        exact .started hflag
      · cases hrun.symm.trans (initializeWinsock_fails hflag hresult)
        exact .unchanged (by simp) fun h => absurd (Call.initializeWinsock.inj h) hresult
  | cleanupWinsock cleanup =>
    by_cases hresult : cleanup = .none
    · subst hresult
      by_cases hstopped : w.startups = 0
      · cases hrun.symm.trans (cleanupWinsock_pending hstopped)
      · cases hrun.symm.trans (cleanupWinsock_succeeds hstopped)
        exact .undone hstopped
    · cases hrun.symm.trans (cleanupWinsock_fails hresult)
      exact .unchanged (fun h => hresult (Call.cleanupWinsock.inj h)) (by simp)

/-! ## Runs -/

/-- What the calls made so far tell of the state: Winsock has been started up at most once, and it
runs from then on until a clean-up succeeds. -/
structure Follows (calls : List Call) (w : Winsock) : Prop where
  startups_eq : w.startups =
    if w.isInitialized ∧ Call.cleanupWinsock .none ∉ calls then 1 else 0
  isInitialized : Call.cleanupWinsock .none ∈ calls → w.isInitialized = true

theorem Follows.step {call : Call} (h : Follows calls w) (hstep : Step w call w') :
    Follows (calls ++ [call]) w' := by
  obtain ⟨hstartups, hflag⟩ := h
  cases hstep.change with
  | unchanged hcall =>
    have hmem : Call.cleanupWinsock .none ∈ calls ++ [call] ↔
        Call.cleanupWinsock .none ∈ calls := by
      simp [hcall.symm]
    exact ⟨by simp only [hmem]; exact hstartups, by simp only [hmem]; exact hflag⟩
  | started hfirst =>
    -- there has been no clean-up, because it would have found the flag set
    have hnone : Call.cleanupWinsock .none ∉ calls := fun hmem => by simp [hflag hmem] at hfirst
    exact ⟨by simp [hstartups, hfirst, hnone], fun _ => rfl⟩
  | undone hrunning =>
    by_cases hone : w.isInitialized = true ∧ Call.cleanupWinsock .none ∉ calls
    · rw [if_pos hone] at hstartups
      exact ⟨by simp [hstartups], fun _ => hone.1⟩
    · rw [if_neg hone] at hstartups
      exact absurd hstartups hrunning

theorem follows_of_reaches (hrun : Reaches Step {} calls w) : Follows calls w :=
  hrun.trace (P := Follows) ⟨rfl, fun h => absurd h List.not_mem_nil⟩
    fun _ _ _ _ hfollows hstep => hfollows.step hstep

/-- Whenever `initialize` returns `none`, Winsock is running. -/
def Running (calls : List Call) : Prop :=
  ∀ before startup after w w', calls = before ++ .initializeWinsock startup :: after →
    Reaches Step {} before w → (initializeWinsock startup).run w = .ok .none w' → 0 < w'.startups

/-- No `initialize` comes after a `cleanup` that succeeds. -/
def NeverRestarted (calls : List Call) : Prop :=
  ∀ before startup after, calls = before ++ .initializeWinsock startup :: after →
    Call.cleanupWinsock .none ∉ before

/-- **Truthful runs.** In a run of `initialize` and `cleanup`, whatever their native results,
Winsock is running whenever `initialize` says so exactly if it is not called again after a
successful `cleanup`. -/
theorem running_iff (hrun : Reaches Step {} calls w) : Running calls ↔ NeverRestarted calls := by
  constructor
  · intro htruthful before startup after hcalls hcleaned
    subst hcalls
    obtain ⟨v, hv⟩ := hrun.exists_of_append
    have hfollows := follows_of_reaches hv
    have hpositive := htruthful before startup after v v rfl hv
      (initializeWinsock_again (hfollows.isInitialized hcleaned))
    rw [hfollows.startups_eq, if_neg fun h => h.2 hcleaned] at hpositive
    exact absurd hpositive (Nat.lt_irrefl 0)
  · intro hnever before startup after v v' hcalls hv hnone
    have hclean := hnever before startup after hcalls
    have hfollows := follows_of_reaches hv
    -- no cleanup has made the flag stale
    by_cases hflag : v.isInitialized = true
    · cases hnone.symm.trans (initializeWinsock_again hflag)
      rw [hfollows.startups_eq, if_pos ⟨hflag, hclean⟩]
      exact Nat.one_pos
    · rw [Bool.not_eq_true] at hflag
      by_cases hresult : startup = .none
      · subst hresult
        cases hnone.symm.trans (initializeWinsock_first hflag)
        exact Nat.succ_pos _
      · cases hnone.symm.trans (initializeWinsock_fails hflag hresult)
        exact absurd rfl hresult

/-- A start-up that fails, one that succeeds, and another `initialize`. -/
theorem running_iff_retried :
    Running [.initializeWinsock (.other 10091), .initializeWinsock .none,
      .initializeWinsock .none] :=
  (running_iff (w := ⟨true, 1⟩)
    (.snoc (.snoc (.snoc (.nil _) ⟨_, rfl⟩) ⟨_, rfl⟩) ⟨_, rfl⟩)).mpr (by
      intro before startup after hcalls hcleaned
      have hmem : Call.cleanupWinsock .none ∈ before ++ .initializeWinsock startup :: after :=
        List.mem_append_left _ hcleaned
      rw [← hcalls] at hmem
      revert hmem
      decide)

/-- After a `cleanup` the second `initialize` returns `none`, and Winsock is not running. -/
theorem not_running_restarted :
    ¬Running [.initializeWinsock .none, .cleanupWinsock .none, .initializeWinsock .none] := by
  intro htruthful
  have hcleaned : Reaches Step {} [.initializeWinsock .none, .cleanupWinsock .none] ⟨true, 0⟩ :=
    .snoc (.snoc (.nil _) ⟨_, rfl⟩) ⟨_, rfl⟩
  have hpositive := htruthful _ .none [] _ ⟨true, 0⟩ rfl hcleaned rfl
  exact absurd hpositive (Nat.lt_irrefl 0)

end Sws.Winsock
