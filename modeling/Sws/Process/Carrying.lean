import Sws.Process.Ledger

/-!
# Objects That Are Carried Along

A move changes the place of an object, and none of its members.  What is known of an object holds
after an operation of the object at the place to which the operation carries it, unless the
operation closes the object, or changes just what is known.

## Key Results

- `Operation.carries`: the place to which an operation carries an object that it does not close.
- `Has`: what is known of an object.
- `step_has`: one operation.
-/

namespace Sws.Process

open Sws.Foundation

/-! ## Places -/

/-- The place to which the operation carries the object at `i`, if it does not close it. -/
def Operation.carries : Operation → SocketId → Option SocketId
  | .close self, i | .destroy self, i => if self = i then none else some i
  | .accept _ s, i => if s = i then none else some i
  | .moveConstruct self rhs, i => if rhs = i then some self else some i
  | .moveAssign self rhs, i =>
    if rhs = self then some i
    else if self = i then none
    else if rhs = i then some self
    else some i
  | _, i => some i

/-- The same after a list of operations. -/
def carriesAll (ops : List Operation) (i : SocketId) : Option SocketId :=
  ops.foldlM (fun j op => op.carries j) i

theorem carriesAll_snoc (ops : List Operation) (op : Operation) (i : SocketId) :
    carriesAll (ops ++ [op]) i = (carriesAll ops i).bind op.carries := by
  simp [carriesAll, List.foldlM_append]

/-- The operation may change a member of the object, and does not close it. -/
def Operation.Changes : Operation → SocketId → Prop
  | .bind self _, i | .connect self _, i | .listen self, i | .setBlocking self _, i
  | .accept self _, i => i = self
  | _, _ => False

/-! ## What is known of an object -/

/-- The object is alive, and such as is known of it. -/
def Has (P : Socket → Prop) (i : SocketId) (w : Process) : Prop :=
  ∃ s, w.sockets i = some s ∧ P s

section Has

variable {P : Socket → Prop} {inet : InetText} {w w' : Process} {i j self : SocketId}
  {op : Operation}

/-- A change of the object that is no change of what is known. -/
theorem allows_has {f : Socket → Socket} (hf : ∀ s, P s → P (f s)) :
    Allows (Both (Has P i)) i f := by
  refine allows_both fun w s hw hs => ?_
  obtain ⟨t, ht, hP⟩ := hw
  obtain rfl : s = t := Option.some.inj (hs.symm.trans ht)
  exact ⟨f s, placed_sockets_self .., hf s hP⟩

/-- Whatever is done with another object makes no difference. -/
theorem all_has (hne : i ≠ self) : AllowsAll (Both (Has P i)) self :=
  allowsAll_both fun _ _ hsame ⟨s, hs, hP⟩ => ⟨s, (hsame i hne).trans hs, hP⟩

/-- An object that is alive is not where a new one is made. -/
theorem ne_of_allowed (h : Has P i w) (hfree : w.sockets self = none) : i ≠ self := by
  intro heq
  obtain ⟨s, hs, -⟩ := h
  rw [heq, hfree] at hs
  cases hs

/-- What a move takes out of an object is the object as it was. -/
theorem moveOut_gives :
    Ensures (Has P i) (moveOut i) (fun s _ => P s) (fun e _ => ¬Caught e) := by
  refine Ensures.bind ensures_socketAt fun s => ?_
  refine Ensures.bind (Q := fun _ _ => P s) ?_ fun _ => Ensures.pure fun _ h => h
  refine Ensures.modify fun w hw => ?_
  obtain ⟨⟨t, ht, hP⟩, hs⟩ := hw
  obtain rfl : s = t := Option.some.inj (hs.symm.trans ht)
  exact hP

/-- A new object has the members of the source. -/
theorem moveConstruct_gives :
    Ensures (Has P i) (moveConstruct self i) (fun _ => Has P self) (fun e _ => ¬Caught e) :=
  Ensures.bind moveOut_gives fun s => Ensures.modify fun _ hP =>
    ⟨s, Function.update_self .., hP⟩

/-- So has the object that is assigned to, whatever it was before. -/
theorem moveInto_gives (hne : i ≠ self) :
    Ensures (Has P i) (moveInto self (moveOut i)) (fun _ => Has P self)
      (fun e _ => ¬Caught e) := by
  have hclose : Ensures (Has P i) (close self) (fun _ => Has P i) (fun e _ => ¬Caught e) :=
    ensures_of_ends (all_has hne).close close_ends
  refine Ensures.bind hclose fun _ => Ensures.bind moveOut_gives fun s => ?_
  exact ensures_modifySocket fun w t hP ht => ⟨s, Function.update_self .., hP⟩

/-- **One operation** keeps what is known of an object, at the place to which it carries it, if
those changes are allowed that it may make to it. -/
theorem step_has (h : Has P i w) (hstep : Step inet w op w') (hcarries : op.carries i = some j)
    (hchanges : op.Changes i → AllowsAttempts inet (Both (Has P i)) i) : Has P j w' := by
  obtain ⟨hallowed, hleaves⟩ := hstep
  have hkeeps : ∀ {m : ProcessM Unit}, Keeps (Has P i) m → Leaves Caught m w w' →
      some i = some j → Has P j w' := by
    intro m hm hend hsame
    cases hsame
    exact hm.leaves h hend
  have hdone : ∀ {m : ProcessM SocketState}, Keeps (Has P i) m →
      Keeps (Has P i) (do let _ ← m) :=
    fun hm => hm.bind fun _ => .pure _
  have hattempts : ∀ {self : SocketId}, (i = self → op.Changes i) →
      AllowsAttempts inet (Both (Has P i)) self := by
    intro self hself
    rcases eq_or_ne i self with rfl | hne
    · exact hchanges (hself rfl)
    · exact (all_has hne).attempts inet
  cases op with
  | construct self protocol blocking =>
    -- a new object does not take the place of one that is alive
    have hother := all_has (P := P) (ne_of_allowed h hallowed)
    exact hkeeps ((respects_enforce _ _).bind fun _ => hother.putSocket _) hleaves hcarries
  | bind self address =>
    exact hkeeps (hdone (hattempts fun heq => heq).bind) hleaves hcarries
  | connect self address =>
    exact hkeeps (hdone (hattempts fun heq => heq).connect) hleaves hcarries
  | listen self => exact hkeeps (hdone (hattempts fun heq => heq).listen) hleaves hcarries
  | setBlocking self value =>
    exact hkeeps (hdone ((hattempts fun heq => heq).setBlocking value)) hleaves hcarries
  | accept self s =>
    simp only [Operation.carries] at hcarries
    split_ifs at hcarries with hne
    have hlistener : AllowsModes (Both (Has P i)) self :=
      (hattempts fun heq => heq).toAllowsModes
    exact hkeeps (hdone ((all_has (Ne.symm hne)).accept hlistener)) hleaves hcarries
  | moveConstruct self rhs =>
    simp only [Operation.carries] at hcarries
    split_ifs at hcarries with hrhs
    · subst hrhs
      cases hcarries
      exact ensures_iff_leaves.mp (ensures_uncaught moveConstruct_gives) w w' h hleaves
    · have hself := all_has (P := P) (ne_of_allowed h hallowed)
      have hmoved := (all_has (P := P) (Ne.symm hrhs)).moveOut
      exact hkeeps (hmoved.bind fun _ => hself.putSocket _) hleaves hcarries
  | moveAssign self rhs =>
    simp only [Operation.carries] at hcarries
    -- to itself, from this object, or between two others
    split_ifs at hcarries with hsame hself hrhs
    · have hnothing : Keeps (Has P i) (moveAssign self rhs) := by
        rw [moveAssign, if_neg (not_not.mpr hsame)]
        exact .pure _
      exact hkeeps hnothing hleaves hcarries
    · subst hrhs
      obtain rfl := Option.some.inj hcarries
      have hmoves : moveAssign self rhs = moveInto self (moveOut rhs) := if_pos hsame
      have hcarried := moveInto_gives (P := P) hsame
      rw [← hmoves] at hcarried
      exact ensures_iff_leaves.mp (ensures_uncaught hcarried) w w' h hleaves
    · have hmoves : Keeps (Has P i) (moveAssign self rhs) := by
        rw [moveAssign, if_pos hsame]
        exact (all_has (Ne.symm hself)).moveInto (all_has (Ne.symm hrhs)).moveOut
      exact hkeeps hmoves hleaves hcarries
  | close self =>
    simp only [Operation.carries] at hcarries
    split_ifs at hcarries with hne
    exact hkeeps (all_has (Ne.symm hne)).close hleaves hcarries
  | destroy self =>
    simp only [Operation.carries] at hcarries
    split_ifs at hcarries with hne
    exact hkeeps (all_has (Ne.symm hne)).destroy hleaves hcarries

end Has

end Sws.Process
