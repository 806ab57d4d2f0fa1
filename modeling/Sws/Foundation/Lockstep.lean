import Sws.Foundation.Program

/-!
# Two Programs in Lockstep

Two programs started in related states, which end alike: both with related results, or both
with the same exception, and again in related states.  The relation is an invariant of the two
runs; every rule follows the text of both programs at once.

## Contents

- `Lockstep`: the judgment, and its rules.
- `Lockstep.zoom`: programs on a part of the state.
- `Respects`: one program, in lockstep with itself.
- `Keeps`, `keeps_iff`: the special case of a condition on one state.
-/

namespace Sws.Foundation

universe u

variable {ε σ σ' τ τ' α α' β β' : Type u}

/-- Two runs that ended alike. -/
inductive EndAlike (R : σ → σ' → Prop) (V : α → α' → Prop) :
    EStateM.Result ε σ α → EStateM.Result ε σ' α' → Prop
  | ok {a : α} {a' : α'} {s : σ} {s' : σ'} (hv : V a a') (hs : R s s') :
      EndAlike R V (.ok a s) (.ok a' s')
  | error {e : ε} {s : σ} {s' : σ'} (hs : R s s') : EndAlike R V (.error e s) (.error e s')

/-- From states related by `R` the programs end alike, with results related by `V`. -/
structure Lockstep (R : σ → σ' → Prop) (V : α → α' → Prop) (m : EStateM ε σ α)
    (m' : EStateM ε σ' α') : Prop where
  run : ∀ s s', R s s' → EndAlike R V (m s) (m' s')

namespace Lockstep

variable {R : σ → σ' → Prop} {V : α → α' → Prop} {W : β → β' → Prop}

theorem pure {a : α} {a' : α'} (h : V a a') :
    Lockstep R V (pure a : EStateM ε σ α) (pure a' : EStateM ε σ' α') :=
  ⟨fun _ _ hs => .ok h hs⟩

theorem throw (e : ε) :
    Lockstep R V (throw e : EStateM ε σ α) (throw e : EStateM ε σ' α') :=
  ⟨fun _ _ hs => .error hs⟩

theorem get : Lockstep R R (get : EStateM ε σ σ) (get : EStateM ε σ' σ') :=
  ⟨fun _ _ hs => .ok hs hs⟩

theorem set {s : σ} {s' : σ'} (h : R s s') :
    Lockstep R (· = ·) (set s : EStateM ε σ PUnit) (set s' : EStateM ε σ' PUnit) :=
  ⟨fun _ _ _ => .ok rfl h⟩

theorem modify {f : σ → σ} {f' : σ' → σ'} (h : ∀ s s', R s s' → R (f s) (f' s')) :
    Lockstep R (· = ·) (modify f : EStateM ε σ PUnit) (modify f' : EStateM ε σ' PUnit) :=
  ⟨fun s s' hs => .ok rfl (h s s' hs)⟩

/-- Sequencing: what follows starts from related results. -/
theorem bind {m : EStateM ε σ α} {m' : EStateM ε σ' α'} {f : α → EStateM ε σ β}
    {f' : α' → EStateM ε σ' β'} (hm : Lockstep R V m m')
    (hf : ∀ a a', V a a' → Lockstep R W (f a) (f' a')) : Lockstep R W (m >>= f) (m' >>= f') := by
  refine ⟨fun s s' hs => ?_⟩
  have hfirst := hm.run s s' hs
  show EndAlike R W (EStateM.bind m f s) (EStateM.bind m' f' s')
  unfold EStateM.bind
  generalize m s = r at hfirst
  generalize m' s' = r' at hfirst
  -- only if both return do the second programs start
  cases hfirst with
  | ok hv ht => exact (hf _ _ hv).run _ _ ht
  | error ht => exact .error ht

/-- Nothing follows an exception. -/
theorem throw_bind (e : ε) (f : α → EStateM ε σ β) (f' : α' → EStateM ε σ' β') :
    Lockstep R W (MonadExcept.throw e >>= f) (MonadExcept.throw e >>= f') :=
  ⟨fun _ _ hs => .error hs⟩

theorem ite {c c' : Prop} [Decidable c] [Decidable c'] {m n : EStateM ε σ α}
    {m' n' : EStateM ε σ' α'} (hc : c ↔ c') (hm : Lockstep R V m m') (hn : Lockstep R V n n') :
    Lockstep R V (if c then m else n) (if c' then m' else n') := by
  by_cases h : c
  · rw [if_pos h, if_pos (hc.mp h)]
    exact hm
  · rw [if_neg h, if_neg (mt hc.mpr h)]
    exact hn

/-- A program is in lockstep with itself where every state is related to itself alone. -/
theorem refl (m : EStateM ε σ α) : Lockstep (· = ·) (· = ·) m m := by
  refine ⟨fun s s' hs => ?_⟩
  subst hs
  cases m s with
  | ok a t => exact .ok rfl rfl
  | error e t => exact .error rfl

/-- Programs on parts of the states: related states have related parts, and stay related when
related parts are put into them. -/
theorem zoom {S : τ → τ' → Prop} {get : σ → τ} {get' : σ' → τ'} {set : τ → σ → σ}
    {set' : τ' → σ' → σ'} {m : EStateM ε τ α} {m' : EStateM ε τ' α'} (hm : Lockstep S V m m')
    (hget : ∀ s s', R s s' → S (get s) (get' s'))
    (hset : ∀ t t' s s', S t t' → R s s' → R (set t s) (set' t' s')) :
    Lockstep R V (Foundation.zoom get set m) (Foundation.zoom get' set' m') := by
  refine ⟨fun s s' hs => ?_⟩
  have hpart := hm.run (get s) (get' s') (hget s s' hs)
  simp only [Foundation.zoom]
  generalize m (get s) = r at hpart
  generalize m' (get' s') = r' at hpart
  cases hpart with
  | ok hv ht => exact .ok hv (hset _ _ s s' ht hs)
  | error ht => exact .error (hset _ _ s s' ht hs)

end Lockstep

/-! ## One program twice -/

/-- Started in related states, the program ends alike, with the same result. -/
def Respects (R : σ → σ → Prop) (m : EStateM ε σ α) : Prop := Lockstep R (· = ·) m m

namespace Respects

variable {R : σ → σ → Prop} {V : α → α → Prop} {m n : EStateM ε σ α} {f : α → EStateM ε σ β}

theorem pure (a : α) : Respects R (Pure.pure a : EStateM ε σ α) := Lockstep.pure rfl

theorem throw (e : ε) : Respects R (MonadExcept.throw e : EStateM ε σ α) := Lockstep.throw e

theorem modify {f : σ → σ} (h : ∀ s s', R s s' → R (f s) (f s')) :
    Respects R (modify f : EStateM ε σ PUnit) :=
  Lockstep.modify h

theorem bind (hm : Respects R m) (hf : ∀ a, Respects R (f a)) : Respects R (m >>= f) := by
  refine Lockstep.bind hm fun a a' ha => ?_
  subst ha
  exact hf a

theorem ite {c : Prop} [Decidable c] (hm : Respects R m) (hn : Respects R n) :
    Respects R (if c then m else n) :=
  Lockstep.ite Iff.rfl hm hn

end Respects

/-- Both runs are in the same state, and the condition holds of it. -/
def Both (P : σ → Prop) (s s' : σ) : Prop := s' = s ∧ P s

/-- However the program ends, the condition holds if it held before. -/
abbrev Keeps (P : σ → Prop) (m : EStateM ε σ α) : Prop := Respects (Both P) m

section Keeps

variable {P : σ → Prop} {V : α → α → Prop} {m : EStateM ε σ α}

theorem Lockstep.ensures (h : Lockstep (Both P) V m m) :
    Ensures P m (fun _ => P) (fun _ => P) := by
  refine ⟨fun s hs => ?_⟩
  have hend := h.run s s ⟨rfl, hs⟩
  generalize m s = r at hend
  cases hend with
  | ok _ ht => exact ht.2
  | error ht => exact ht.2

/-- A condition is kept exactly if it is a postcondition of both ways to end. -/
theorem keeps_iff : Keeps P m ↔ Ensures P m (fun _ => P) (fun _ => P) := by
  refine ⟨Lockstep.ensures, fun h => ⟨fun s s' hs => ?_⟩⟩
  obtain ⟨rfl, hP⟩ := hs
  have hend := h.run _ hP
  cases hrun : m s' with
  | ok a t =>
    rw [hrun] at hend
    exact .ok rfl ⟨rfl, hend⟩
  | error e t =>
    rw [hrun] at hend
    exact .error ⟨rfl, hend⟩

/-- What a program keeps, a caller finds who catches some of the exceptions. -/
theorem Respects.leaves {caught : ε → Prop} {s s' : σ} (h : Keeps P m) (hs : P s)
    (hend : Leaves caught m s s') : P s' := by
  have hcaught : Ensures P m (fun _ => P) (fun e t => caught e → P t) :=
    (keeps_iff.mp h).weaken (fun _ h => h) (fun _ _ h => h) fun _ _ h _ => h
  exact ensures_iff_leaves.mp hcaught s s' hs hend

end Keeps

end Sws.Foundation
