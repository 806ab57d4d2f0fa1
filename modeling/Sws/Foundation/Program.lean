import Mathlib.Tactic.Common

/-!
# Programs That Mutate a State and May Throw

Imperative code is read as `EStateM ε σ`: a run ends with a result or an exception, and in
both cases with the state it has reached, since a thrown exception undoes nothing.

## Contents

- `finalState`: the state a run leaves behind, whichever way it ended.
- `Ensures`: partial-correctness triples with a postcondition for each way to end, and the
  rules that follow the program text.
- `Leaves`: the states a caller finds who catches some of the exceptions.
- `Independent`: two runs that differ in a part of the start state, compared by what is observed.
- `RollsBack`: failures that leave what is seen of the state as it was.
- `Preserves`: programs that leave it as it was in whatever way they end.
- `zoom`: running a program on one part of a larger state.
-/

namespace Sws.Foundation

universe u

variable {ε σ τ α β ω : Type u}

/-! ## The state left behind -/

/-- The state in which a run ends. -/
def finalState : EStateM.Result ε σ α → σ
  | .ok _ s => s
  | .error _ s => s

@[simp] theorem finalState_ok (a : α) (s : σ) :
    finalState (.ok a s : EStateM.Result ε σ α) = s := rfl

@[simp] theorem finalState_error (e : ε) (s : σ) :
    finalState (.error e s : EStateM.Result ε σ α) = s := rfl

/-! ## Triples -/

/-- From a state with `P`, the program ends in a state with `Q` of its result, or throws in a
state with `E` of the exception. -/
structure Ensures (P : σ → Prop) (m : EStateM ε σ α) (Q : α → σ → Prop) (E : ε → σ → Prop) :
    Prop where
  run : ∀ s, P s → match m s with
    | .ok a s' => Q a s'
    | .error e s' => E e s'

section Rules

variable {P : σ → Prop} {Q : α → σ → Prop} {R : β → σ → Prop} {E : ε → σ → Prop}

theorem Ensures.pure {a : α} (h : ∀ s, P s → Q a s) :
    Ensures P (pure a : EStateM ε σ α) Q E := ⟨h⟩

theorem Ensures.throw {e : ε} (h : ∀ s, P s → E e s) :
    Ensures P (throw e : EStateM ε σ α) Q E := ⟨h⟩

theorem Ensures.set {Q : PUnit → σ → Prop} {t : σ} (h : ∀ s, P s → Q ⟨⟩ t) :
    Ensures P (set t : EStateM ε σ PUnit) Q E := ⟨h⟩

theorem Ensures.get {Q : σ → σ → Prop} (h : ∀ s, P s → Q s s) :
    Ensures P (get : EStateM ε σ σ) Q E := ⟨h⟩

theorem Ensures.modify {Q : PUnit → σ → Prop} {f : σ → σ} (h : ∀ s, P s → Q ⟨⟩ (f s)) :
    Ensures P (modify f : EStateM ε σ PUnit) Q E := ⟨h⟩

/-- Sequencing: the first program's result and state are what the second starts from. -/
theorem Ensures.bind {m : EStateM ε σ α} {f : α → EStateM ε σ β}
    (hm : Ensures P m Q E) (hf : ∀ a, Ensures (Q a) (f a) R E) :
    Ensures P (m >>= f) R E := by
  refine ⟨fun s hs => ?_⟩
  have hfirst := hm.run s hs
  show match EStateM.bind m f s with
    | .ok a s' => R a s'
    | .error e s' => E e s'
  unfold EStateM.bind
  -- what the first program throws, both throw
  cases hms : m s with
  | ok a s' =>
    rw [hms] at hfirst
    exact (hf a).run s' hfirst
  | error e s' =>
    rw [hms] at hfirst
    exact hfirst

theorem Ensures.weaken {P' : σ → Prop} {Q' : α → σ → Prop} {E' : ε → σ → Prop}
    {m : EStateM ε σ α} (h : Ensures P m Q E) (hP : ∀ s, P' s → P s)
    (hQ : ∀ a s, Q a s → Q' a s) (hE : ∀ e s, E e s → E' e s) : Ensures P' m Q' E' := by
  refine ⟨fun s hs => ?_⟩
  have hend := h.run s (hP s hs)
  cases hms : m s with
  | ok a s' =>
    rw [hms] at hend
    exact hQ a s' hend
  | error e s' =>
    rw [hms] at hend
    exact hE e s' hend

/-- Two triples about one program hold together. -/
theorem Ensures.and {P' : σ → Prop} {Q' : α → σ → Prop} {E' : ε → σ → Prop} {m : EStateM ε σ α}
    (h : Ensures P m Q E) (h' : Ensures P' m Q' E') :
    Ensures (fun s => P s ∧ P' s) m (fun a s => Q a s ∧ Q' a s) (fun e s => E e s ∧ E' e s) := by
  refine ⟨fun s hs => ?_⟩
  have hend := h.run s hs.1
  have hend' := h'.run s hs.2
  cases hms : m s with
  | ok a s' =>
    rw [hms] at hend hend'
    exact ⟨hend, hend'⟩
  | error e s' =>
    rw [hms] at hend hend'
    exact ⟨hend, hend'⟩

theorem Ensures.ite {c : Prop} [Decidable c] {m m' : EStateM ε σ α}
    (h : c → Ensures P m Q E) (h' : ¬c → Ensures P m' Q E) :
    Ensures P (if c then m else m') Q E := by
  by_cases hc : c
  · rw [if_pos hc]; exact h hc
  · rw [if_neg hc]; exact h' hc

/-- From one state, a triple is a fact about one run. -/
theorem Ensures.of_ok {m : EStateM ε σ α} {s s' : σ} {a : α} (hrun : m.run s = .ok a s')
    (h : Q a s') : Ensures (· = s) m Q E := by
  refine ⟨fun t ht => ?_⟩
  subst ht
  have hrun' : m t = .ok a s' := hrun
  rw [hrun']
  exact h

theorem Ensures.of_error {m : EStateM ε σ α} {s s' : σ} {e : ε} (hrun : m.run s = .error e s')
    (h : E e s') : Ensures (· = s) m Q E := by
  refine ⟨fun t ht => ?_⟩
  subst ht
  have hrun' : m t = .error e s' := hrun
  rw [hrun']
  exact h

/-- A run that goes on as another one ends as that one does. -/
theorem Ensures.of_run_eq {m m' : EStateM ε σ α} {s s' : σ} (hrun : m.run s = m'.run s')
    (h : Ensures P m' Q E) (hs : P s') : Ensures (· = s) m Q E := by
  refine ⟨fun t ht => ?_⟩
  subst ht
  have hend := h.run s' hs
  have hrun' : m t = m' s' := hrun
  rw [hrun']
  exact hend

/-- A program that takes its own state first. -/
theorem Ensures.get_bind {f : σ → EStateM ε σ β}
    (hf : ∀ t, P t → Ensures (· = t) (f t) R E) :
    Ensures P ((MonadState.get : EStateM ε σ σ) >>= f) R E := by
  exact ⟨fun s hs => (hf s hs).run s rfl⟩

theorem Ensures.of_eq {m : EStateM ε σ α} (h : ∀ s, P s → Ensures (· = s) m Q E) :
    Ensures P m Q E :=
  ⟨fun s hs => (h s hs).run s rfl⟩

end Rules

/-- A triple that does not tell the ends apart is a fact about the state left behind. -/
theorem Ensures.finalState {m : EStateM ε σ α} {s : σ} {Q : σ → Prop}
    (h : Ensures (· = s) m (fun _ => Q) (fun _ => Q)) : Q (finalState (m.run s)) := by
  have hend := h.run s rfl
  unfold EStateM.run
  cases hms : m s with
  | ok a t =>
    rw [hms] at hend
    exact hend
  | error e t =>
    rw [hms] at hend
    exact hend

/-! ## What a caller finds -/

/-- The program, started in `s`, returns or throws an exception the caller catches, and leaves
`s'` behind. -/
def Leaves (caught : ε → Prop) (m : EStateM ε σ α) (s s' : σ) : Prop :=
  match m s with
  | .ok _ t => s' = t
  | .error e t => caught e ∧ s' = t

theorem Leaves.eq_finalState {caught : ε → Prop} {m : EStateM ε σ α} {s s' : σ}
    (h : Leaves caught m s s') : s' = finalState (m.run s) := by
  unfold Leaves at h
  unfold EStateM.run
  cases hms : m s with
  | ok a t =>
    rw [hms] at h
    exact h
  | error e t =>
    rw [hms] at h
    exact h.2

/-- The result of a program does not matter to the state it leaves. -/
theorem leaves_discard {caught : ε → Prop} {m : EStateM ε σ α} {b : β} {s s' : σ} :
    Leaves caught (m >>= fun _ => pure b) s s' ↔ Leaves caught m s s' := by
  have hbind : (m >>= fun _ => pure b) s =
      match m s with
      | .ok _ t => .ok b t
      | .error e t => .error e t := by
    show EStateM.bind m (fun _ => pure b) s = _
    unfold EStateM.bind
    cases m s <;> rfl
  unfold Leaves
  rw [hbind]
  cases m s <;> rfl

theorem finalState_discard {m : EStateM ε σ α} {b : β} (s : σ) :
    finalState ((m >>= fun _ => pure b).run s) = finalState (m.run s) := by
  rw [EStateM.run_bind]
  cases m.run s <;> rfl

/-- A triple about every end the caller sees is a fact about the states left behind. -/
theorem ensures_iff_leaves {caught : ε → Prop} {P Q : σ → Prop} {m : EStateM ε σ α} :
    Ensures P m (fun _ => Q) (fun e s => caught e → Q s) ↔
      ∀ s s', P s → Leaves caught m s s' → Q s' := by
  constructor
  · intro h s s' hs hleaves
    have hend := h.run s hs
    unfold Leaves at hleaves
    cases hms : m s with
    | ok a t =>
      rw [hms] at hend hleaves
      subst hleaves
      exact hend
    | error e t =>
      rw [hms] at hend hleaves
      obtain ⟨hcaught, rfl⟩ := hleaves
      -- a caller sees the state of an exception only by catching it
      exact hend hcaught
  · refine fun h => ⟨fun s hs => ?_⟩
    cases hms : m s with
    | ok a t =>
      exact h s t hs (by simp only [Leaves, hms])
    | error e t =>
      intro hcaught
      exact h s t hs (by simp only [Leaves, hms, hcaught, true_and])

/-! ## Two runs -/

/-- What is observed of a run does not depend on the part of the start state that `set`
replaces. -/
def Independent (set : τ → σ → σ) (observe : EStateM.Result ε σ α → ω) (m : EStateM ε σ α)
    (s : σ) : Prop :=
  ∀ t t', observe (m.run (set t s)) = observe (m.run (set t' s))

section Independent

variable {set : τ → σ → σ} {observe : EStateM.Result ε σ α → ω} {m m' : EStateM ε σ α} {s s' : σ}

theorem Independent.of_const {b : ω} (h : ∀ t, observe (m.run (set t s)) = b) :
    Independent set observe m s := by
  intro t t'
  rw [h t, h t']

/-- Two observations that differ settle it. -/
theorem not_independent (t t' : τ) (h : observe (m.run (set t s)) ≠ observe (m.run (set t' s))) :
    ¬Independent set observe m s :=
  fun hind => h (hind t t')

/-- Programs with the same runs are independent alike. -/
theorem independent_congr (h : ∀ t, m.run (set t s) = m'.run (set t s')) :
    Independent set observe m s ↔ Independent set observe m' s' := by
  unfold Independent
  simp only [h]

end Independent

/-! ## Failures that leave no trace -/

/-- If the run fails, by an exception or by such a result, it leaves what `view` sees of the
state as it was. -/
def RollsBack (failed : EStateM.Result ε σ α → Prop) (view : σ → ω) (m : EStateM ε σ α)
    (s : σ) : Prop :=
  failed (m.run s) → view (finalState (m.run s)) = view s

section RollsBack

variable {failed : EStateM.Result ε σ α → Prop} {view : σ → ω} {m : EStateM ε σ α} {s : σ}
  {r : EStateM.Result ε σ α}

/-- A run that does not fail has nothing to roll back. -/
theorem RollsBack.of_succeeds (hrun : m.run s = r) (h : ¬failed r) : RollsBack failed view m s := by
  intro hfailed
  rw [hrun] at hfailed
  exact absurd hfailed h

theorem RollsBack.of_unchanged (hrun : m.run s = r) (h : view (finalState r) = view s) :
    RollsBack failed view m s := by
  intro _
  rw [hrun]
  exact h

theorem not_rollsBack (hrun : m.run s = r) (hfailed : failed r)
    (h : view (finalState r) ≠ view s) : ¬RollsBack failed view m s := by
  intro hback
  have hsame := hback (by rw [hrun]; exact hfailed)
  rw [hrun] at hsame
  exact h hsame

/-- Runs that fail alike and end in the same state roll back alike. -/
theorem rollsBack_congr {failed' : EStateM.Result ε σ β → Prop} {m' : EStateM ε σ β}
    (hfailed : failed (m.run s) ↔ failed' (m'.run s))
    (hstate : finalState (m.run s) = finalState (m'.run s)) :
    RollsBack failed view m s ↔ RollsBack failed' view m' s := by
  unfold RollsBack
  rw [hfailed, hstate]

end RollsBack

/-! ## What a program leaves alone -/

/-- However the program ends, what `view` sees of the state is as it was. -/
def Preserves (view : σ → ω) (m : EStateM ε σ α) : Prop :=
  ∀ s, view (finalState (m.run s)) = view s

namespace Preserves

variable {view : σ → ω} {m m' : EStateM ε σ α} {f : α → EStateM ε σ β}

theorem pure (a : α) : Preserves view (Pure.pure a : EStateM ε σ α) := fun _ => rfl

theorem throw (e : ε) : Preserves view (throw e : EStateM ε σ α) := fun _ => rfl

theorem get : Preserves view (MonadState.get : EStateM ε σ σ) := fun _ => rfl

theorem modify {f : σ → σ} (h : ∀ s, view (f s) = view s) :
    Preserves view (modify f : EStateM ε σ PUnit) := h

theorem bind (hm : Preserves view m) (hf : ∀ a, Preserves view (f a)) :
    Preserves view (m >>= f) := by
  intro s
  have hfirst := hm s
  rw [EStateM.run_bind]
  cases hrun : m.run s with
  | error e t =>
    rw [hrun] at hfirst
    exact hfirst
  | ok a t =>
    rw [hrun] at hfirst
    exact (hf a t).trans hfirst

theorem ite {c : Prop} [Decidable c] (h : Preserves view m) (h' : Preserves view m') :
    Preserves view (if c then m else m') := by
  by_cases hc : c
  · rwa [if_pos hc]
  · rwa [if_neg hc]

/-- What holds of what is seen holds of it at the end. -/
theorem ensures (h : Preserves view m) (P : ω → Prop) :
    Ensures (fun s => P (view s)) m (fun _ s => P (view s)) (fun _ s => P (view s)) := by
  refine ⟨fun s hs => ?_⟩
  have hend := h s
  unfold EStateM.run at hend
  cases hrun : m s with
  | ok a t =>
    rw [hrun] at hend
    exact (congrArg P hend).mpr hs
  | error e t =>
    rw [hrun] at hend
    exact (congrArg P hend).mpr hs

end Preserves

/-! ## Running on a part of the state -/

/-- Runs a program on the part of the state that `get` reads and `set` replaces. -/
def zoom (get : σ → τ) (set : τ → σ → σ) (m : EStateM ε τ α) : EStateM ε σ α := fun s =>
  match m (get s) with
  | .ok a t => .ok a (set t s)
  | .error e t => .error e (set t s)

theorem zoom_run_of_ok {get : σ → τ} {set : τ → σ → σ} {m : EStateM ε τ α} {s : σ} {a : α}
    {t : τ} (h : m.run (get s) = .ok a t) : (zoom get set m).run s = .ok a (set t s) := by
  have h' : m (get s) = .ok a t := h
  simp only [zoom, EStateM.run, h']

theorem zoom_run_of_error {get : σ → τ} {set : τ → σ → σ} {m : EStateM ε τ α} {s : σ} {e : ε}
    {t : τ} (h : m.run (get s) = .error e t) :
    (zoom get set m).run s = .error e (set t s) := by
  have h' : m (get s) = .error e t := h
  simp only [zoom, EStateM.run, h']

/-- A triple about the part is one about the whole, of which nothing else changes. -/
theorem Ensures.zoom {get : σ → τ} {set : τ → σ → σ} {s : σ} {Q : α → τ → Prop}
    {E : ε → τ → Prop} {m : EStateM ε τ α} (h : Ensures (· = get s) m Q E) :
    Ensures (· = s) (Foundation.zoom get set m) (fun a s' => ∃ t, Q a t ∧ s' = set t s)
      (fun e s' => ∃ t, E e t ∧ s' = set t s) := by
  refine ⟨fun t ht => ?_⟩
  subst ht
  have hend := h.run (get t) rfl
  simp only [Foundation.zoom]
  cases hms : m (get t) with
  | ok a u =>
    rw [hms] at hend
    exact ⟨u, hend, rfl⟩
  | error e u =>
    rw [hms] at hend
    exact ⟨u, hend, rfl⟩

/-- What a program leaves alone of a part, it leaves alone of the whole. -/
theorem Preserves.zoom {get : σ → τ} {set : τ → σ → σ} {view : τ → ω} {m : EStateM ε τ α}
    (h : Preserves view m) (hget : ∀ t s, get (set t s) = t) :
    Preserves (fun s => view (get s)) (Foundation.zoom get set m) := by
  intro s
  have hend := h (get s)
  cases hrun : m.run (get s) with
  | ok a t =>
    rw [hrun] at hend
    rw [zoom_run_of_ok hrun]
    exact (congrArg view (hget t s)).trans hend
  | error e t =>
    rw [hrun] at hend
    rw [zoom_run_of_error hrun]
    exact (congrArg view (hget t s)).trans hend

/-- A program on one part leaves the others alone. -/
theorem Preserves.zoom_other {get : σ → τ} {set : τ → σ → σ} {view : σ → ω} {m : EStateM ε τ α}
    (hview : ∀ t s, view (set t s) = view s) : Preserves view (Foundation.zoom get set m) := by
  intro s
  cases hrun : m.run (get s) with
  | ok a t =>
    rw [zoom_run_of_ok hrun]
    exact hview t s
  | error e t =>
    rw [zoom_run_of_error hrun]
    exact hview t s

end Sws.Foundation
