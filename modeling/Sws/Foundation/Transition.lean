import Mathlib.Tactic.Common

/-!
# Runs, Invariants, Simulations

Three ways in which a system goes on:

- `Generated`: values built from initial ones by operations that may take other such values
  as operands.
- `Reaches`: states of a relation that may refuse a label.
- `runs`: a deterministic machine that answers every command.

Each comes with the induction that lifts a fact about one step to whole runs.
-/

namespace Sws.Foundation

variable {σ τ ι κ ω : Type*}

/-! ## Values built by operations -/

/-- The values built from initial ones by steps, where every operand of a step is itself such
a value. -/
inductive Generated (init : σ → Prop) (operands : ι → List σ) (step : σ → ι → σ → Prop) :
    σ → Prop
  | init {s : σ} (h : init s) : Generated init operands step s
  | step {s s' : σ} {i : ι} (hs : Generated init operands step s)
      (hops : ∀ q ∈ operands i, Generated init operands step q) (h : step s i s') :
      Generated init operands step s'

section Generated

variable {init : σ → Prop} {operands : ι → List σ} {step : σ → ι → σ → Prop}

/-- What holds of the initial values and is kept by every step holds of all. -/
theorem Generated.invariant {P : σ → Prop} (hinit : ∀ s, init s → P s)
    (hstep : ∀ s i s', P s → (∀ q ∈ operands i, P q) → step s i s' → P s') {s : σ}
    (hs : Generated init operands step s) : P s := by
  induction hs with
  | init h => exact hinit _ h
  | step _ _ h ih ihops => exact hstep _ _ _ ih ihops h

/-- Fewer steps build fewer values. -/
theorem Generated.mono {step' : σ → ι → σ → Prop} (h : ∀ s i s', step s i s' → step' s i s')
    {s : σ} (hs : Generated init operands step s) : Generated init operands step' s := by
  induction hs with
  | init hinit => exact .init hinit
  | step _ _ hstep ih ihops => exact .step ih ihops (h _ _ _ hstep)

end Generated

/-! ## States of a relation -/

/-- `s'` is reached from `s` by steps with the given labels, in order. -/
inductive Reaches (step : σ → ι → σ → Prop) : σ → List ι → σ → Prop
  | nil (s : σ) : Reaches step s [] s
  | snoc {s s' s'' : σ} {labels : List ι} {i : ι} (hs : Reaches step s labels s')
      (h : step s' i s'') : Reaches step s (labels ++ [i]) s''

section Reaches

variable {step : σ → ι → σ → Prop} {s s' s'' : σ} {labels : List ι} {i : ι}

/-- A run may also be taken up at its first step. -/
theorem Reaches.cons (h : step s i s') (hs : Reaches step s' labels s'') :
    Reaches step s (i :: labels) s'' := by
  induction hs with
  | nil => exact (Reaches.nil s).snoc h
  | snoc _ hlast ih => exact ih.snoc hlast

/-- A run passes through a state after each part of its labels. -/
theorem Reaches.exists_of_append {before after : List ι}
    (hs : Reaches step s (before ++ after) s'') : ∃ s', Reaches step s before s' := by
  generalize hlabels : before ++ after = labels at hs
  induction hs generalizing after with
  | nil =>
    obtain ⟨rfl, -⟩ := List.append_eq_nil_iff.mp hlabels
    exact ⟨s, .nil s⟩
  | @snoc t _ _ i hprev h ih =>
    rcases List.eq_nil_or_concat after with rfl | ⟨rest, j, rfl⟩
    · rw [List.append_nil] at hlabels
      rw [hlabels]
      exact ⟨_, hprev.snoc h⟩
    · rw [List.concat_eq_append, ← List.append_assoc] at hlabels
      exact ih (List.append_inj_left' hlabels rfl)

/-- What holds of the start and its empty trace, and is kept by every step, holds of every
state reached and the trace that leads to it. -/
theorem Reaches.trace {P : List ι → σ → Prop} (hnil : P [] s)
    (hstep : ∀ labels t i t', P labels t → step t i t' → P (labels ++ [i]) t')
    (hs : Reaches step s labels s') : P labels s' := by
  induction hs with
  | nil => exact hnil
  | snoc _ h ih => exact hstep _ _ _ _ ih h

/-- An invariant of every step is an invariant of every run. -/
theorem Reaches.invariant {P : σ → Prop} (hstep : ∀ s i s', P s → step s i s' → P s')
    (hs : Reaches step s labels s') (hP : P s) : P s' :=
  hs.trace (P := fun _ => P) hP fun _ t i t' => hstep t i t'

theorem Reaches.append (hs : Reaches step s labels s') {more : List ι}
    (hmore : Reaches step s' more s'') : Reaches step s (labels ++ more) s'' := by
  induction hmore with
  | nil => rwa [List.append_nil]
  | snoc _ h ih =>
    rw [← List.append_assoc]
    exact ih.snoc h

/-- A run with one label is a step. -/
theorem Reaches.step_of_singleton (hs : Reaches step s [i] s') : step s i s' := by
  generalize hlabels : [i] = labels at hs
  cases hs with
  | nil => cases hlabels
  | snoc hprev h =>
    rcases List.append_eq_singleton_iff.mp hlabels.symm with ⟨rfl, hlast⟩ | ⟨-, hlast⟩
    · obtain rfl := (List.cons_eq_cons.mp hlast).1
      generalize hnil : [] = none at hprev
      cases hprev with
      | nil => exact h
      | snoc => simp at hnil
    · cases hlast

/-- A relation that allows more steps allows the same runs. -/
theorem Reaches.mono {step' : σ → ι → σ → Prop} (h : ∀ s i s', step s i s' → step' s i s')
    (hs : Reaches step s labels s') : Reaches step' s labels s' := by
  induction hs with
  | nil => exact .nil _
  | snoc _ hlast ih => exact ih.snoc (h _ _ _ hlast)

/-- **Simulation of runs.** If every step from a related state is matched by a step of the other
system, so is every run. -/
theorem Reaches.simulation {T : τ → κ → τ → Prop} {R : σ → τ → Prop}
    (hstep : ∀ s i s' t, R s t → step s i s' → ∃ k t', T t k t' ∧ R s' t')
    (hs : Reaches step s labels s') {t : τ} (hR : R s t) :
    ∃ ks t', Reaches T t ks t' ∧ R s' t' := by
  induction hs with
  | nil => exact ⟨[], t, .nil t, hR⟩
  | snoc _ h ih =>
    obtain ⟨ks, t', hrun, hR'⟩ := ih
    obtain ⟨k, t'', hlast, hR''⟩ := hstep _ _ _ _ hR' h
    exact ⟨ks ++ [k], t'', hrun.snoc hlast, hR''⟩

end Reaches

/-! ## Machines that answer commands -/

/-- The answers to a list of commands, and the state after them. -/
def runs (step : ι → σ → ω × σ) : List ι → σ → List ω × σ
  | [], s => ([], s)
  | i :: is, s =>
    let (answer, s') := step i s
    let (answers, s'') := runs step is s'
    (answer :: answers, s'')

@[simp] theorem runs_nil (step : ι → σ → ω × σ) (s : σ) : runs step [] s = ([], s) := rfl

@[simp] theorem runs_cons (step : ι → σ → ω × σ) (i : ι) (is : List ι) (s : σ) :
    runs step (i :: is) s =
      ((step i s).1 :: (runs step is (step i s).2).1, (runs step is (step i s).2).2) := rfl

/-- No list of the allowed commands gets different answers from the two states. -/
def Indistinguishable (step : ι → σ → ω × σ) (allowed : ι → Prop) (s t : σ) : Prop :=
  ∀ is : List ι, (∀ i ∈ is, allowed i) → (runs step is s).1 = (runs step is t).1

/-- Related states are indistinguishable, if they give the same answer to every allowed command
and are related again after it. -/
theorem Indistinguishable.of_bisimulation {step : ι → σ → ω × σ} {allowed : ι → Prop}
    {R : σ → σ → Prop} (hstep : ∀ i s t, allowed i → R s t →
      (step i s).1 = (step i t).1 ∧ R (step i s).2 (step i t).2)
    {s t : σ} (hR : R s t) : Indistinguishable step allowed s t := by
  intro is hallowed
  induction is generalizing s t with
  | nil => rfl
  | cons i is ih =>
    obtain ⟨hanswer, hnext⟩ := hstep i s t (hallowed i List.mem_cons_self) hR
    have hrest := ih hnext fun j hj => hallowed j (List.mem_cons_of_mem i hj)
    rw [runs_cons, runs_cons, hanswer, hrest]

/-- The same for a machine that can get stuck. -/
def tryRuns (step : ι → σ → Option (ω × σ)) : List ι → σ → Option (List ω × σ)
  | [], s => some ([], s)
  | i :: is, s =>
    match step i s with
    | none => none
    | some (answer, s') =>
      match tryRuns step is s' with
      | none => none
      | some (answers, s'') => some (answer :: answers, s'')

/-- Every command of a run is admissible in the state it is given in. -/
def Admits (step : ι → σ → ω × σ) (admissible : ι → σ → Prop) : List ι → σ → Prop
  | [], _ => True
  | i :: is, s => admissible i s ∧ Admits step admissible is (step i s).2

/-- **Runs that get stuck.** If moreover the concrete machine is stuck at every admissible command
that is not defined, then it answers exactly the runs of defined commands. -/
theorem tryRuns_iff_of_simulation {cstep : ι → σ → Option (ω × σ)} {astep : κ → τ → ω × τ}
    {f : ι → κ} {R : σ → τ → Prop} {admissible defined : κ → τ → Prop}
    (hstep : ∀ i s t, R s t → admissible (f i) t → defined (f i) t →
      ∃ s', cstep i s = some ((astep (f i) t).1, s') ∧ R s' (astep (f i) t).2)
    (hstuck : ∀ i s t, R s t → admissible (f i) t → ¬defined (f i) t → cstep i s = none)
    (is : List ι) {s : σ} {t : τ} (hR : R s t) (hadmits : Admits astep admissible (is.map f) t) :
    (∃ s', tryRuns cstep is s = some ((runs astep (is.map f) t).1, s') ∧
      R s' (runs astep (is.map f) t).2) ↔ Admits astep defined (is.map f) t := by
  induction is generalizing s t with
  | nil => exact iff_of_true ⟨s, rfl, hR⟩ trivial
  | cons i is ih =>
    obtain ⟨hi, his⟩ := hadmits
    by_cases hdefined : defined (f i) t
    · obtain ⟨s₁, hfirst, hR₁⟩ := hstep i s t hR hi hdefined
      -- the rest of the run decides
      refine Iff.trans ?_ ((ih hR₁ his).trans (and_iff_right hdefined).symm)
      simp only [List.map_cons, runs_cons, tryRuns, hfirst]
      cases tryRuns cstep is s₁ with
      | none => simp
      | some r => simp [Prod.ext_iff]
    · refine iff_of_false ?_ fun h => hdefined h.1
      rintro ⟨s', hrun, -⟩
      simp only [tryRuns, hstuck i s t hR hi hdefined] at hrun
      cases hrun

end Sws.Foundation
