import Sws.Foundation.Lockstep
import Sws.Process.Spec

/-!
# Member Functions Under a Relation

A relation of two processes, such as that they differ in the error of one object, or a condition on
a single process, is kept by a member function if it is kept by the changes that the member function
makes.  Each member function is walked through once, for any relation that allows its changes;
what a particular relation allows is all that is left to be shown of it.

## Key Results

- `Neutral`: relations that leave the native results alone.
- `AllowsModes`, `AllowsNames`, `AllowsNew`, `AllowsAttempts`, `AllowsAll`: the changes that a
  relation allows.
- `AllowsModes.setBlocking`, `AllowsAttempts.bind`, `AllowsAttempts.connect`, `AllowsAll.close`,
  `AllowsAll.accept`, …: the member functions that make no other ones.
- `allowsAll_both`: a condition on other objects allows everything.
-/

namespace Sws.Process

open Sws.Foundation

/-! ## What a relation allows -/

/-- The members by which a member function decides what it does are the same. -/
structure LooksAlike (s s' : Socket) : Prop where
  handle_eq : s'.handle = s.handle
  connected_eq : s'.connected = s.connected
  blocking_eq : s'.blocking = s.blocking

theorem LooksAlike.refl (s : Socket) : LooksAlike s s := ⟨rfl, rfl, rfl⟩

/-- Related processes have the same native results and alike objects, and may take a result. -/
structure Neutral (R : Process → Process → Prop) : Prop where
  replies_eq : ∀ {w w'}, R w w' → w'.replies = w.replies
  lastError_eq : ∀ {w w'}, R w w' → w'.lastError = w.lastError
  alike : ∀ {w w'}, R w w' → ∀ i, Option.Rel LooksAlike (w.sockets i) (w'.sockets i)
  native : ∀ {w w'}, R w w' → ∀ replies e,
    R { w with replies := replies, lastError := e } { w' with replies := replies, lastError := e }

/-- Related processes stay related when the object at the place is changed in both of them. -/
def Allows (R : Process → Process → Prop) (self : SocketId) (f : Socket → Socket) : Prop :=
  ∀ w w' s s', R w w' → w.sockets self = some s → w'.sockets self = some s' →
    R (w.placed self (f s)) (w'.placed self (f s'))

/-- The error and the mode of the object may change. -/
structure AllowsModes (R : Process → Process → Prop) (i : SocketId) : Prop
    extends Neutral R where
  error : ∀ e, Allows R i fun s => { s with nativeError := e }
  mode : ∀ value, Allows R i fun s => { s with blocking := value }

/-- So may its addresses, to those that the platform gives. -/
structure AllowsNames (inet : InetText) (R : Process → Process → Prop) (i : SocketId) : Prop
    extends AllowsModes R i where
  localName : ∀ native a, Address.fromNative inet native = .ok a → Allows R i (withLocal a)
  remoteName : ∀ native a, Address.fromNative inet native = .ok a → Allows R i (withRemote a)

/-- A native call may return a handle. -/
structure AllowsNew (R : Process → Process → Prop) : Prop extends Neutral R where
  opened_eq : ∀ {w w'}, R w w' → w'.opened = w.opened
  opens : ∀ {w w'}, R w w' → ∀ k,
    R { w with opened := w.opened ++ [k] } { w' with opened := w'.opened ++ [k] }

/-- The object may be opened, and connected. -/
structure AllowsAttempts (inet : InetText) (R : Process → Process → Prop) (i : SocketId) : Prop
    extends AllowsNames inet R i, AllowsNew R where
  handle : ∀ k, Allows R i fun s => { s with handle := some k }
  connected : Allows R i fun s => { s with connected := true }

/-- The object, which is the same in related processes, may become any other or none. -/
structure AllowsAll (R : Process → Process → Prop) (i : SocketId) : Prop
    extends AllowsNew R where
  object_eq : ∀ {w w'}, R w w' → w'.sockets i = w.sockets i
  put : ∀ {w w'}, R w w' → ∀ o,
    R { w with sockets := Function.update w.sockets i o }
      { w' with sockets := Function.update w'.sockets i o }
  closes : ∀ {w w'}, R w w' → ∀ k,
    R { w with closings := w.closings ++ [⟨k, i, w.sockets⟩] }
      { w' with closings := w'.closings ++ [⟨k, i, w'.sockets⟩] }

variable {R : Process → Process → Prop} {inet : InetText} {self : SocketId} {address : Address}

/-! ## Native calls and access to objects -/

namespace Neutral

variable (hR : Neutral R)
include hR

/-- A native result is taken that leaves the last error. -/
theorem success {w w' : Process} (h : R w w') (rest : List NativeReply) :
    R { w with replies := rest } { w' with replies := rest } := by
  have htaken := hR.native h rest w.lastError
  rw [← hR.lastError_eq h] at htaken
  have herror := hR.lastError_eq h
  cases w
  cases w'
  cases herror
  exact htaken

/-- **Native calls** go by the results to come, which are the same in both runs. -/
theorem callNative : Respects R callNative := by
  refine Lockstep.bind Lockstep.get fun w w' h => ?_
  rw [hR.replies_eq h]
  -- an answer of another kind is none to this call
  match w.replies with
  | .success :: rest =>
    exact Respects.bind (.modify fun _ _ h => hR.success h rest) fun _ => .pure _
  | .failure e :: rest =>
    have hfail : Respects R (do
        modify fun w : Process => { w with replies := rest, lastError := e }
        return false : ProcessM Bool) :=
      .bind (.modify fun _ _ h => hR.native h rest e) fun _ => .pure _
    exact Respects.ite (.bind (.throw _) fun _ => hfail) hfail
  | .handle _ :: _ | .address _ :: _ | [] => exact Respects.throw _

theorem nameNative : Respects R nameNative := by
  refine Lockstep.bind Lockstep.get fun w w' h => ?_
  rw [hR.replies_eq h]
  match w.replies with
  | .address a :: rest =>
    exact Respects.bind (.modify fun _ _ h => hR.success h rest) fun _ => .pure _
  | .failure e :: rest =>
    have hfail : Respects R (do
        modify fun w : Process => { w with replies := rest, lastError := e }
        return none : ProcessM (Option Sockaddr)) :=
      .bind (.modify fun _ _ h => hR.native h rest e) fun _ => .pure _
    exact Respects.ite (.bind (.throw _) fun _ => hfail) hfail
  | .handle _ :: _ | .success :: _ | [] => exact Respects.throw _

/-- At a place both processes have an object, or none. -/
theorem objects {w w' : Process} (h : R w w') (i : SocketId) :
    (w.sockets i = none ∧ w'.sockets i = none) ∨
      ∃ s s', w.sockets i = some s ∧ w'.sockets i = some s' ∧ LooksAlike s s' := by
  have halike := hR.alike h i
  generalize w.sockets i = o at halike ⊢
  generalize w'.sockets i = o' at halike ⊢
  cases halike with
  | none => exact .inl ⟨rfl, rfl⟩
  | some hs => exact .inr ⟨_, _, rfl, rfl, hs⟩

/-- The objects that both processes have there look alike. -/
theorem socketAt (i : SocketId) : Lockstep R LooksAlike (socketAt i) (socketAt i) := by
  refine ⟨fun w w' h => ?_⟩
  show EndAlike R LooksAlike ((Process.socketAt i).run w) ((Process.socketAt i).run w')
  rcases hR.objects h i with ⟨hs, hs'⟩ | ⟨s, s', hs, hs', halike⟩
  · rw [socketAt_none hs, socketAt_none hs']
    exact .error h
  · rw [socketAt_run hs, socketAt_run hs']
    exact .ok halike h

/-- An object is changed where both processes have one. -/
theorem modifySocket {f : Socket → Socket} (hf : Allows R self f) :
    Respects R (modifySocket self f) := by
  refine ⟨fun w w' h => ?_⟩
  show EndAlike R (· = ·) ((Process.modifySocket self f).run w)
    ((Process.modifySocket self f).run w')
  rcases hR.objects h self with ⟨hs, hs'⟩ | ⟨s, s', hs, hs', -⟩
  · rw [modifySocket_none hs, modifySocket_none hs']
    exact .error h
  · rw [modifySocket_run hs, modifySocket_run hs']
    exact .ok rfl (hf w w' s s' h hs hs')

end Neutral

/-- Whether a handle has been returned before, is the same in both runs. -/
theorem AllowsNew.openNative (hR : AllowsNew R) : Respects R openNative := by
  refine Lockstep.bind Lockstep.get fun w w' h => ?_
  rw [hR.replies_eq h, hR.opened_eq h]
  match w.replies with
  | .handle k :: rest =>
    have hopen : Respects R (do
        modify fun w : Process => { w with replies := rest, opened := w.opened ++ [k] }
        return some k : ProcessM (Option Handle)) :=
      .bind (.modify fun _ _ h => hR.opens (hR.success h rest) k) fun _ => .pure _
    exact Respects.ite (.bind (.throw _) fun _ => hopen) hopen
  | .failure e :: rest =>
    have hfail : Respects R (do
        modify fun w : Process => { w with replies := rest, lastError := e }
        return none : ProcessM (Option Handle)) :=
      .bind (.modify fun _ _ h => hR.native h rest e) fun _ => .pure _
    exact Respects.ite (.bind (.throw _) fun _ => hfail) hfail
  | .success :: _ | .address _ :: _ | [] => exact Respects.throw _

/-! ## Errors, modes, and addresses -/

namespace AllowsModes

variable (hR : AllowsModes R self)
include hR

/-- The thread's last error is the same, whatever the object has stored. -/
theorem getErrorInst : Respects R (getErrorInst self) := by
  refine Lockstep.bind Lockstep.get fun w w' h => ?_
  rw [hR.lastError_eq h]
  exact Respects.bind (hR.modifySocket (hR.error _)) fun _ => .pure _

theorem getErrorState : Respects R (getErrorState self) := .bind hR.getErrorInst fun _ => .pure _

theorem clearErrorState : Respects R (clearErrorState self) :=
  .bind (hR.modifySocket (hR.error _)) fun _ => .pure _

/-- **The mode** is set by way of a native call, or without one. -/
theorem setBlocking (value : Bool) : Respects R (setBlocking self value) := by
  refine .bind (hR.modifySocket (hR.mode value)) fun _ => ?_
  refine Lockstep.bind (hR.socketAt self) fun s s' hs => ?_
  rw [hs.handle_eq]
  refine Respects.ite hR.clearErrorState (.bind hR.callNative fun _ => ?_)
  exact .ite hR.getErrorState hR.clearErrorState

/-- A new handle is given the mode of the object, and that must not fail. -/
theorem prepare (value : Bool) :
    Respects R (do
      let state ← Process.setBlocking self value
      Sws.enforce (state = .done) "Enforcement failed." : ProcessM Unit) :=
  .bind (hR.setBlocking value) fun _ => respects_enforce _ _

theorem listen : Respects R (listen self) :=
  .bind hR.callNative fun _ => .ite hR.getErrorState hR.clearErrorState

end AllowsModes

theorem Neutral.updateName (hR : Neutral R) {put : Address → Socket → Socket}
    (hput : ∀ native a, Address.fromNative inet native = .ok a → Allows R self (put a)) :
    Respects R (updateName inet self put) := by
  refine .bind hR.nameNative fun name => ?_
  cases name with
  | none => exact .pure _
  | some native =>
    simp only
    -- what cannot be converted throws, in both runs
    cases hname : Address.fromNative inet native with
    | ok a => exact hR.modifySocket (hput native a hname)
    | error e => exact Lockstep.throw_bind ..

/-- **The addresses** are asked for one after the other. -/
theorem AllowsNames.updateAddresses (hR : AllowsNames inet R self) :
    Respects R (updateAddresses inet self) := by
  rw [updateAddresses_eq]
  exact .bind (hR.updateName hR.localName) fun _ => hR.updateName hR.remoteName

/-! ## Binding and connecting -/

/-- What `bind` and `connect` check of the object and of the address. -/
def precheck (inet : InetText) (self : SocketId) (free : Socket → Prop) [DecidablePred free]
    (message : String) (address : Address) : ProcessM Unit := do
  enforce (free (← socketAt self)) message
  let _ ← liftExcept (address.toNative inet)

/-- What they do when the object is open; `link` is what a success makes of it. -/
def complete (inet : InetText) (self : SocketId) (address : Address) (link : ProcessM Unit) :
    ProcessM SocketState := do
  let _ ← liftExcept address.nativeSize
  if (← callNative) = false then return ← getErrorState self
  link
  updateAddresses inet self
  clearErrorState self

/-- `bind` checks, opens and completes. -/
theorem bind_eq (inet : InetText) (self : SocketId) (address : Address) :
    Process.bind inet self address = (do
      precheck inet self (·.handle = none) "Cannot bind an already initialized socket." address
      initSocket self
      complete inet self address (pure ())) := by
  simp only [Process.bind, precheck, complete, bind_assoc, pure_bind]

/-- `connect` does the same, and marks the object when the native call has succeeded. -/
theorem connect_eq (inet : InetText) (self : SocketId) (address : Address) :
    connect inet self address = (do
      precheck inet self (·.connected = false) "Cannot connect on already connected socket."
        address
      initSocket self
      complete inet self address (modifySocket self fun s => { s with connected := true })) := by
  simp only [connect, precheck, complete, bind_assoc, pure_bind]

/-- Objects that look alike pass the same checks. -/
theorem Neutral.precheck (hR : Neutral R) {free : Socket → Prop} [DecidablePred free]
    (hfree : ∀ {s s'}, LooksAlike s s' → (free s' ↔ free s)) (message : String) :
    Respects R (precheck inet self free message address) := by
  refine Lockstep.bind (hR.socketAt self) fun s s' hs => ?_
  have hcheck : Lockstep R (· = ·) (enforce (free s) message : ProcessM Unit)
      (enforce (free s') message) :=
    Lockstep.ite (hfree hs).symm (Respects.pure _) (Respects.throw _)
  refine Lockstep.bind hcheck fun _ _ _ => ?_
  exact Respects.bind (respects_liftExcept _) fun _ => .pure _

/-- The native call, and the addresses if it succeeds. -/
theorem AllowsNames.complete (hR : AllowsNames inet R self) {link : ProcessM Unit}
    (hlink : Respects R link) : Respects R (complete inet self address link) := by
  refine .bind (respects_liftExcept _) fun _ => .bind hR.callNative fun _ => ?_
  refine .ite hR.getErrorState (.bind hlink fun _ => ?_)
  exact .bind hR.updateAddresses fun _ => hR.clearErrorState

namespace AllowsAttempts

variable (hR : AllowsAttempts inet R self)
include hR

/-- **Opening** is for an object that has no handle. -/
theorem initSocket : Respects R (initSocket self) := by
  refine Lockstep.bind (hR.socketAt self) fun s s' hs => ?_
  rw [hs.handle_eq, hs.blocking_eq]
  -- the two objects both have a handle, or both have none
  refine Respects.ite (.pure _) (.bind hR.toAllowsNew.openNative fun h => ?_)
  cases h with
  | none => exact .bind hR.getErrorInst fun _ => .throw _
  | some k =>
    exact .bind (hR.modifySocket (hR.handle k)) fun _ => hR.prepare _

theorem bind : Respects R (Process.bind inet self address) := by
  rw [bind_eq]
  have hfree : ∀ {s s' : Socket}, LooksAlike s s' → (s'.handle = none ↔ s.handle = none) :=
    fun hs => by rw [hs.handle_eq]
  refine Respects.bind (hR.precheck hfree _) fun _ => .bind hR.initSocket fun _ => ?_
  exact hR.complete (.pure _)

theorem connect : Respects R (connect inet self address) := by
  rw [connect_eq]
  have hfree : ∀ {s s' : Socket}, LooksAlike s s' → (s'.connected = false ↔ s.connected = false) :=
    fun hs => by rw [hs.connected_eq]
  refine Respects.bind (hR.precheck hfree _) fun _ => .bind hR.initSocket fun _ => ?_
  exact hR.complete (hR.modifySocket hR.connected)

end AllowsAttempts

/-! ## Closing, moving, accepting -/

/-- What is left to `accept` when the object has its new handle. -/
def adopt (inet : InetText) (self s : SocketId) : ProcessM SocketState := do
  modifySocket s fun t => { t with connected := true }
  let _ ← setBlocking s (← socketAt self).blocking
  updateAddresses inet s
  clearErrorState self

theorem AllowsNames.adopt {s : SocketId} (hR : AllowsNames inet R s)
    (hconnected : Allows R s fun t => { t with connected := true })
    (hlistener : AllowsModes R self) : Respects R (adopt inet self s) := by
  refine .bind (hR.modifySocket hconnected) fun _ => ?_
  refine Lockstep.bind (hR.socketAt self) fun t t' ht => ?_
  rw [ht.blocking_eq]
  refine Respects.bind (hR.setBlocking _) fun _ => ?_
  exact .bind hR.updateAddresses fun _ => hlistener.clearErrorState

namespace AllowsAll

variable (hR : AllowsAll R self)
include hR

/-- Whatever is done with the object is done with the same one. -/
theorem allows (f : Socket → Socket) : Allows R self f := by
  intro w w' s s' h hs hs'
  obtain rfl : s' = s := Option.some.inj (hs'.symm.trans ((hR.object_eq h).trans hs))
  exact hR.put h (some (f s'))

/-- So it may be bound and connected. -/
theorem attempts (inet : InetText) : AllowsAttempts inet R self :=
  { hR with
    error := fun _ => hR.allows _
    mode := fun _ => hR.allows _
    localName := fun _ _ _ => hR.allows _
    remoteName := fun _ _ _ => hR.allows _
    handle := fun _ => hR.allows _
    connected := hR.allows _ }

theorem putSocket (o : Option Socket) : Respects R (putSocket self o) :=
  .modify fun _ _ h => hR.put h o

/-- **Closing** is put on record with the objects of both processes. -/
theorem close : Respects R (close self) := by
  refine Lockstep.bind (hR.socketAt self) fun s s' hs => ?_
  rw [hs.handle_eq]
  cases s.handle with
  | none => exact hR.modifySocket (hR.allows _)
  -- `shutdown`, then `closesocket`
  | some k =>
    refine Respects.bind hR.callNative fun _ => .bind ?_ fun _ => ?_
    · exact .bind (.modify fun _ _ h => hR.closes h k) fun _ => hR.callNative
    · exact .bind (hR.modifySocket (hR.allows _)) fun _ => hR.modifySocket (hR.allows _)

/-- **Moving** takes the same members out of both. -/
theorem moveOut : Respects R (moveOut self) := by
  refine ⟨fun w w' h => ?_⟩
  show EndAlike R (· = ·) ((Process.moveOut self).run w) ((Process.moveOut self).run w')
  simp only [Process.moveOut, EStateM.run_bind]
  have hsame := hR.object_eq h
  cases hs : w.sockets self with
  | none =>
    rw [socketAt_none hs, socketAt_none (hsame.trans hs)]
    exact .error h
  | some s =>
    rw [socketAt_run hs, socketAt_run (hsame.trans hs)]
    exact .ok rfl (hR.put h _)

theorem moveInto {source : ProcessM Socket} (hsource : Respects R source) :
    Respects R (moveInto self source) :=
  .bind hR.close fun _ => .bind hsource fun _ => hR.modifySocket (hR.allows _)

theorem destroy : Respects R (destroy self) := .bind hR.close fun _ => hR.putSocket none

/-- Of the listener no more may change than its error. -/
theorem accept {listener : SocketId} (hlistener : AllowsModes R listener) :
    Respects R (accept inet listener self) := by
  refine .bind hR.openNative fun k => ?_
  cases k with
  | none => exact hlistener.getErrorState
  | some k =>
    -- the temporary takes its mode from the listener
    refine Lockstep.bind (hR.socketAt listener) fun t t' ht => ?_
    rw [ht.blocking_eq]
    refine Respects.bind (hR.moveInto (.pure _)) fun _ => ?_
    refine .bind (hR.modifySocket (hR.allows _)) fun _ => ?_
    exact (hR.attempts inet).adopt (hR.allows _) hlistener

end AllowsAll

/-! ## Conditions on one process -/

section Both

variable {P : Process → Prop} {α : Type} {m : ProcessM α}

/-- What a program keeps, a caller finds. -/
theorem ensures_of_keeps (h : Keeps P m) :
    Ensures P m (fun _ => P) (fun e w => Caught e → P w) :=
  (keeps_iff.mp h).weaken (fun _ h => h) (fun _ _ h => h) fun _ _ h _ => h

/-- What a program keeps that throws nothing, holds when it returns. -/
theorem ensures_of_ends (h : Keeps P m)
    (hends : Ensures (fun _ => True) m (fun _ _ => True) (fun e _ => ¬Caught e)) :
    Ensures P m (fun _ => P) (fun e _ => ¬Caught e) :=
  ((keeps_iff.mp h).and hends).weaken (fun _ h => ⟨h, trivial⟩) (fun _ _ h => h.1)
    (fun _ _ h => h.2)

theorem keeps_socketAt (hP : Neutral (Both P)) : Keeps P (socketAt self) :=
  keeps_iff.mpr (hP.socketAt self).ensures

/-- A condition that does not depend on native results. -/
theorem neutral_both (hP : ∀ w replies e, P w → P { w with replies := replies, lastError := e }) :
    Neutral (Both P) where
  replies_eq h := by rw [h.1]
  lastError_eq h := by rw [h.1]
  alike {w _} h i := by
    rw [h.1]
    cases w.sockets i with
    | none => exact .none
    | some s => exact .some (.refl s)
  native h replies e := by
    obtain ⟨rfl, hw⟩ := h
    exact ⟨rfl, hP _ replies e hw⟩

/-- A change that keeps the condition is allowed. -/
theorem allows_both {f : Socket → Socket}
    (hP : ∀ w s, P w → w.sockets self = some s → P (w.placed self (f s))) :
    Allows (Both P) self f := by
  rintro w w' s s' ⟨rfl, hw⟩ hs hs'
  obtain rfl : s = s' := Option.some.inj (hs.symm.trans hs')
  exact ⟨rfl, hP _ s hw hs⟩

/-- A condition on the objects alone does not see what native calls return. -/
theorem allowsNew_both (hP : ∀ w w', w'.sockets = w.sockets → P w → P w') :
    AllowsNew (Both P) :=
  { neutral_both fun w _ _ hw => hP w _ rfl hw with
    opened_eq := fun h => by rw [h.1]
    opens := fun {_ w} h k => by
      obtain ⟨rfl, hw⟩ := h
      exact ⟨rfl, hP w _ rfl hw⟩ }

/-- A condition on the other objects alone allows everything. -/
theorem allowsAll_both
    (hP : ∀ w w', (∀ i, i ≠ self → w'.sockets i = w.sockets i) → P w → P w') :
    AllowsAll (Both P) self :=
  { allowsNew_both fun w w' hsame hw => hP w w' (fun i _ => congrFun hsame i) hw with
    object_eq := fun h => by rw [h.1]
    put := fun h o => by
      obtain ⟨rfl, hw⟩ := h
      exact ⟨rfl, hP _ _ (fun i hne => Function.update_of_ne hne ..) hw⟩
    closes := fun {_ w} h k => by
      obtain ⟨rfl, hw⟩ := h
      exact ⟨rfl, hP w _ (fun _ _ => rfl) hw⟩ }

end Both

end Sws.Process
