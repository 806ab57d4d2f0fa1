import Sws.Foundation.Custody
import Sws.Process.Traversal

/-!
# What Operations Do to Native Handles

The socket objects of a process are the owners of a ledger of native handles; a handle that a
native call has just returned, or that is on its way from one object to another, is held by
the hand, an owner of its own.  Between two operations the hand is empty.

What an operation does is a few moves of the ledger, and which ones can be told from its name and
from the handle that a native call has returned to it.

## Key Results

- `Quiet`: programs that touch neither a handle nor the record of what was opened and closed.
- `close_moved`, `initSocket_brings`, `accept_brings`, …: the moves of every operation.
- `step_makes`: one step of a process is a run of its ledger, and closes nothing that another
  object holds.
-/

namespace Sws.Process

open Sws.Foundation

/-! ## Quiet programs -/

/-- The objects' handles and the record of what was opened and closed are the same. -/
structure SameHandles (w w' : Process) : Prop where
  handles : ∀ i, (w'.sockets i).map Socket.handle = (w.sockets i).map Socket.handle
  opened : w'.opened = w.opened
  closings : w'.closings = w.closings

theorem SameHandles.refl (w : Process) : SameHandles w w := ⟨fun _ => rfl, rfl, rfl⟩

theorem SameHandles.trans {w w' w'' : Process} (h : SameHandles w w') (h' : SameHandles w' w'') :
    SameHandles w w'' :=
  ⟨fun i => (h'.handles i).trans (h.handles i), h'.opened.trans h.opened,
    h'.closings.trans h.closings⟩

/-- Objects with the same handle are put at the same place. -/
theorem SameHandles.update {w w' : Process} (h : SameHandles w w') (self : SocketId)
    (s s' : Option Socket) (hs : s'.map Socket.handle = s.map Socket.handle) :
    SameHandles { w with sockets := Function.update w.sockets self s }
      { w' with sockets := Function.update w'.sockets self s' } := by
  refine ⟨?_, h.opened, h.closings⟩
  intro i
  rcases eq_or_ne i self with rfl | hne
  · simp only [Function.update_self]
    exact hs
  · simp only [Function.update_of_ne hne]
    exact h.handles i

/-- The other members of an object may change. -/
theorem SameHandles.change {w w' : Process} {self : SocketId} {s t : Socket}
    (h : SameHandles w w') (hs : w'.sockets self = some s) (ht : t.handle = s.handle) :
    SameHandles w (w'.placed self t) := by
  refine ⟨fun i => ?_, h.opened, h.closings⟩
  rw [← h.handles i]
  rcases eq_or_ne i self with rfl | hne
  · rw [placed_sockets_self, hs, Option.map_some, Option.map_some, ht]
  · rw [placed_sockets_ne w' self t hne]

/-- The program changes no handle, however it ends. -/
def Quiet {α : Type} (m : ProcessM α) : Prop := ∀ w, Keeps (SameHandles w) m

section Quiet

variable {w : Process} {self s : SocketId} {inet : InetText} {address : Address}

theorem allows_sameHandles {f : Socket → Socket} (hf : ∀ s, (f s).handle = s.handle) :
    Allows (Both (SameHandles w)) self f :=
  allows_both fun _ s h hs => h.change hs (hf s)

/-- Errors and modes are no handles, and neither are native results. -/
theorem modes_sameHandles (w : Process) (self : SocketId) :
    AllowsModes (Both (SameHandles w)) self :=
  { neutral_both fun _ _ _ h => ⟨h.handles, h.opened, h.closings⟩ with
    error := fun _ => allows_sameHandles fun _ => rfl
    mode := fun _ => allows_sameHandles fun _ => rfl }

theorem names_sameHandles (inet : InetText) (w : Process) (self : SocketId) :
    AllowsNames inet (Both (SameHandles w)) self :=
  { modes_sameHandles w self with
    localName := fun _ _ _ => allows_sameHandles fun _ => rfl
    remoteName := fun _ _ _ => allows_sameHandles fun _ => rfl }

theorem quiet_precheck {free : Socket → Prop} [DecidablePred free]
    (hfree : ∀ {s s'}, LooksAlike s s' → (free s' ↔ free s)) (message : String) :
    Quiet (precheck inet self free message address) :=
  fun w => (modes_sameHandles w self).precheck hfree message

theorem quiet_complete {link : ProcessM Unit} (hlink : Quiet link) :
    Quiet (complete inet self address link) :=
  fun w => (names_sameHandles inet w self).complete (hlink w)

/-- A quiet program keeps what only the handles decide. -/
theorem Quiet.keeps {α : Type} {m : ProcessM α} {P : Process → Prop} (hm : Quiet m)
    (hP : ∀ w w', SameHandles w w' → P w → P w') : Keeps P m :=
  keeps_iff.mpr <| Ensures.of_eq fun w hw => (keeps_iff.mp (hm w)).weaken
    (fun _ heq => heq ▸ .refl w) (fun _ w' hsame => hP w w' hsame hw)
    fun _ w' hsame => hP w w' hsame hw

theorem ensures_callNative {P : Process → Prop} (hP : ∀ w w', SameHandles w w' → P w → P w') :
    Ensures P callNative (fun _ => P) (fun e _ => ¬Caught e) := by
  have hquiet : Quiet callNative := fun w => (modes_sameHandles w 0).callNative
  exact ensures_of_ends (hquiet.keeps hP) callNative_ends

end Quiet

/-! ## The ledger of handles -/

/-- The ledger of a process: an object holds its handle, and the hand what is on its way. -/
def ledger (hand : Option Handle) (w : Process) : Ledger (Option SocketId) Handle where
  holds
    | none => hand
    | some i => (w.sockets i).bind Socket.handle
  acquired := w.opened
  released := w.closed

/-- A move of a native handle between the objects and the hand. -/
abbrev HandleMove := Move (Option SocketId) Handle

/-- No other object had a handle when it was closed. -/
def Alone (w : Process) : Prop :=
  ∀ c ∈ w.closings, ∀ i s, c.sockets i = some s → s.handle = some c.handle → i = c.owner

/-- Every handle has one owner until it is closed, and no other object had it when it was. -/
structure Owned (hand : Option Handle) (w : Process) : Prop where
  linear : (w.ledger hand).Linear
  alone : Alone w

/-- The object is alive, with the given handle. -/
def HandleIs (self : SocketId) (o : Option Handle) (w : Process) : Prop :=
  (w.sockets self).map Socket.handle = some o

theorem bind_handle (o : Option Socket) : o.bind Socket.handle = (o.map Socket.handle).join := by
  cases o <;> rfl

section Ledgers

variable {w w' : Process} {hand o : Option Handle} {self : SocketId}

theorem SameHandles.ledger_eq (h : SameHandles w w') (hand : Option Handle) :
    w'.ledger hand = w.ledger hand := by
  apply Ledger.ext
  · funext i
    cases i with
    | none => rfl
    | some i =>
      show (w'.sockets i).bind Socket.handle = (w.sockets i).bind Socket.handle
      rw [bind_handle, bind_handle, h.handles i]
  · exact h.opened
  · exact congrArg (List.map Closing.handle) h.closings

theorem SameHandles.handleIs (hw : SameHandles w w') (h : HandleIs self o w) :
    HandleIs self o w' := by
  unfold HandleIs
  rw [hw.handles self]
  exact h

theorem HandleIs.bind_eq (h : HandleIs self o w) : (w.sockets self).bind Socket.handle = o := by
  rw [bind_handle, h]
  rfl

/-- The ledger after an object was put at its place, or taken away. -/
theorem ledger_update (hand : Option Handle) (w : Process) (self : SocketId) (s : Option Socket) :
    ledger hand { w with sockets := Function.update w.sockets self s } =
      { w.ledger hand with
        holds := Function.update (w.ledger hand).holds (some self) (s.bind Socket.handle) } := by
  apply Ledger.ext
  · funext i
    cases i with
    | none => rfl
    | some i =>
      show (Function.update w.sockets self s i).bind Socket.handle =
        Function.update (w.ledger hand).holds (some self) (s.bind Socket.handle) (some i)
      rcases eq_or_ne i self with rfl | hne
      · rw [Function.update_self, Function.update_self]
      · have hne' : some i ≠ some self := fun heq => hne (Option.some.inj heq)
        rw [Function.update_of_ne hne, Function.update_of_ne hne']
        rfl
  · rfl
  · rfl

/-- The ledger when something else is in the hand. -/
theorem ledger_hand (hand hand' : Option Handle) (w : Process) :
    w.ledger hand' =
      { w.ledger hand with holds := Function.update (w.ledger hand).holds none hand' } := by
  apply Ledger.ext
  · funext i
    cases i with
    | none => rfl
    | some i => rfl
  · rfl
  · rfl

/-- The object that has just been put at its place. -/
theorem handleIs_update (w : Process) (self : SocketId) (s : Socket) :
    HandleIs self s.handle { w with sockets := Function.update w.sockets self (some s) } := by
  show (Function.update w.sockets self (some s) self).map Socket.handle = _
  rw [Function.update_self]
  rfl

/-- An object is replaced by one with the same handle. -/
theorem ledger_put {s : Option Socket}
    (hs : s.bind Socket.handle = (w.sockets self).bind Socket.handle) :
    ledger hand { w with sockets := Function.update w.sockets self s } = w.ledger hand := by
  rw [ledger_update, hs]
  have hsame := Function.update_eq_self (some self) (w.ledger hand).holds
  exact congrArg (fun f => { w.ledger hand with holds := f }) hsame

theorem ledger_give {s : Socket} (hs : s.handle = hand) :
    ledger none { w with sockets := Function.update w.sockets self (some s) } =
      (w.ledger hand).transfer none (some self) := by
  rw [ledger_update, ledger_hand hand, Option.bind_some, hs]
  rfl

theorem ledger_take {s t : Socket} (hs : w.sockets self = some s) (ht : t.handle = none) :
    ledger s.handle { w with sockets := Function.update w.sockets self (some t) } =
      (w.ledger none).transfer (some self) none := by
  have hheld : (w.ledger none).holds (some self) = s.handle := by
    show (w.sockets self).bind Socket.handle = _
    rw [hs]
    rfl
  rw [ledger_hand none, ledger_update, Option.bind_some, ht, Ledger.transfer, hheld]

/-- The object's handle is passed to `closesocket`. -/
theorem ledger_close {k : Handle} {s : Socket} :
    ledger hand
      { w with
        closings := w.closings ++ [⟨k, self, w.sockets⟩]
        sockets := Function.update w.sockets self (some { s with handle := none }) } =
      (w.ledger hand).release (some self) k := by
  have hupdate := ledger_update hand { w with closings := w.closings ++ [⟨k, self, w.sockets⟩] }
    self (some { s with handle := none })
  have hclosed : Process.closed { w with closings := w.closings ++ [⟨k, self, w.sockets⟩] } =
      w.closed ++ [k] := by
    simp [Process.closed]
  rw [hupdate, Ledger.release]
  simp only [ledger, hclosed, Option.bind_some]

end Ledgers

/-! ## Programs that move handles -/

/-- The moves lead from the ledger of one process to that of the other, with `hand` in the hand,
and nothing was closed on the way that another object held. -/
structure Moved (w₀ : Process) (moves : List HandleMove) (hand : Option Handle) (w : Process) :
    Prop where
  reaches : Reaches Ledger.Step (w₀.ledger none) moves (w.ledger hand)
  alone : Owned none w₀ → Alone w

section Programs

variable {w₀ w w' : Process} {m : HandleMove} {moves : List HandleMove}
  {hand hand' : Option Handle} {self rhs : SocketId} {k : Handle}

/-- Nothing has been moved yet. -/
theorem moved_nil (h : SameHandles w₀ w) : Moved w₀ [] none w := by
  constructor
  · rw [h.ledger_eq]
    exact .nil _
  · intro howned c hc
    rw [h.closings] at hc
    exact howned.alone c hc

theorem Moved.owned (h : Moved w₀ moves hand w) (howned : Owned none w₀) : Owned hand w :=
  ⟨Ledger.linear_of_reaches howned.linear h.reaches, h.alone howned⟩

theorem Moved.same (h : Moved w₀ moves hand w) (hsame : SameHandles w w') :
    Moved w₀ moves hand w' := by
  constructor
  · rw [hsame.ledger_eq]
    exact h.reaches
  · intro howned c hc
    rw [hsame.closings] at hc
    exact h.alone howned c hc

/-- One more move, which closes nothing. -/
theorem Moved.snoc (h : Moved w₀ moves hand w)
    (hstep : (w.ledger hand).Step m (w'.ledger hand')) (hclosings : w'.closings = w.closings) :
    Moved w₀ (moves ++ [m]) hand' w' := by
  refine ⟨h.reaches.snoc hstep, fun howned c hc => ?_⟩
  rw [hclosings] at hc
  exact h.alone howned c hc

/-- An object is replaced by one with the same handle, or by none if it has none. -/
theorem Moved.put {s : Option Socket} (h : Moved w₀ moves hand w)
    (hs : s.bind Socket.handle = (w.sockets self).bind Socket.handle) :
    Moved w₀ moves hand { w with sockets := Function.update w.sockets self s } := by
  refine ⟨?_, h.alone⟩
  rw [ledger_put hs]
  exact h.reaches

/-- The handle is being closed: the call of `closesocket` is on record, and the object still
holds the handle. -/
def Closes (w₀ : Process) (moves : List HandleMove) (hand : Option Handle) (self : SocketId)
    (k : Handle) (w : Process) : Prop :=
  ∃ v, Moved w₀ moves hand v ∧ HandleIs self (some k) v ∧
    SameHandles { v with closings := v.closings ++ [⟨k, self, v.sockets⟩] } w

theorem Closes.finished {s : Socket} (h : Closes w₀ moves hand self k w) :
    Moved w₀ (moves ++ [.drop (some self)]) hand (w.placed self { s with handle := none }) := by
  obtain ⟨v, hmoved, hhandle, hsame⟩ := h
  have hheld : (v.ledger hand).holds (some self) = some k := hhandle.bind_eq
  have hlast := hsame.update self (some { s with handle := none }) (some { s with handle := none })
    rfl
  refine ⟨hmoved.reaches.snoc <| (hlast.ledger_eq hand).trans <|
    ledger_close.trans (Ledger.drop_of_some hheld).symm, fun howned c hc i t ht hk => ?_⟩
  obtain ⟨hlinear, halone⟩ := hmoved.owned howned
  have hrecord : w.closings = v.closings ++ [⟨k, self, v.sockets⟩] := hsame.closings
  replace hc : c ∈ w.closings := hc
  rw [hrecord] at hc
  rcases List.mem_append.mp hc with hc | hc
  · exact halone c hc i t ht hk
  · obtain rfl := List.mem_singleton.mp hc
    -- another object with the same handle would be a second owner
    have hother : (v.ledger hand).holds (some i) = some k := by
      show (v.sockets i).bind Socket.handle = _
      rw [show v.sockets i = some t from ht]
      exact hk
    exact Option.some.inj (hlinear.sole hother hheld)

/-- **Closing** drops what the object holds. -/
theorem close_moved :
    Ensures (Moved w₀ moves hand) (close self)
      (fun _ w => Moved w₀ (moves ++ [.drop (some self)]) hand w ∧ HandleIs self none w)
      (fun e _ => ¬Caught e) := by
  -- the other members are reset, with or without a handle
  have hrest : ∀ {more : List HandleMove}, Ensures
      (fun w => Moved w₀ more hand w ∧ HandleIs self none w)
      (modifySocket self fun s =>
        { s with remoteAddress := {}, localAddress := {}, connected := false })
      (fun _ w => Moved w₀ more hand w ∧ HandleIs self none w) (fun e _ => ¬Caught e) := by
    intro more
    refine ensures_modifySocket fun w s hw hs => ⟨hw.1.put (by rw [hs]; rfl), ?_⟩
    have hnone : s.handle = none := by
      have hhandle := hw.2
      rw [HandleIs, hs] at hhandle
      exact Option.some.inj hhandle
    rw [← hnone]
    exact handleIs_update w self _
  refine Ensures.bind ensures_socketAt fun s => ?_
  cases hs : s.handle with
  | none =>
    refine hrest.weaken ?_ (fun _ _ h => h) (fun _ _ h => h)
    rintro w ⟨hmoved, hself⟩
    have hnone : HandleIs self none w := by rw [HandleIs, hself, Option.map_some, hs]
    -- an object without a handle has nothing to drop
    exact ⟨hmoved.snoc (Ledger.drop_of_none hnone.bind_eq).symm rfl, hnone⟩
  | some k =>
    -- `shutdown`, whose result nobody looks at
    have hshutdown : Ensures (fun w => Moved w₀ moves hand w ∧ HandleIs self (some k) w) callNative
        (fun _ w => Moved w₀ moves hand w ∧ HandleIs self (some k) w) (fun e _ => ¬Caught e) :=
      ensures_callNative fun w w' hsame hw => ⟨hw.1.same hsame, hsame.handleIs hw.2⟩
    -- `closesocket`: what it returns makes no difference either
    have hclose : Ensures (fun w => Moved w₀ moves hand w ∧ HandleIs self (some k) w)
        (closesocket self k) (fun _ => Closes w₀ moves hand self k) (fun e _ => ¬Caught e) := by
      refine Ensures.bind (Q := fun _ => Closes w₀ moves hand self k) ?_ fun _ => ?_
      · exact Ensures.modify fun w hw => ⟨w, hw.1, hw.2, .refl _⟩
      · refine ensures_callNative ?_
        rintro w w' hsame ⟨v, hv⟩
        exact ⟨v, hv.1, hv.2.1, hv.2.2.trans hsame⟩
    have hclear : Ensures (Closes w₀ moves hand self k)
        (modifySocket self fun s => { s with handle := none })
        (fun _ w => Moved w₀ (moves ++ [.drop (some self)]) hand w ∧ HandleIs self none w)
        (fun e _ => ¬Caught e) :=
      ensures_modifySocket fun w s hw hs => ⟨hw.finished, handleIs_update w self _⟩
    refine Ensures.weaken (P := fun w => Moved w₀ moves hand w ∧ HandleIs self (some k) w) ?_ ?_
      (fun _ _ h => h) (fun _ _ h => h)
    · exact Ensures.bind hshutdown fun _ => Ensures.bind hclose fun _ =>
        Ensures.bind hclear fun _ => hrest
    · rintro w ⟨hmoved, hself⟩
      refine ⟨hmoved, ?_⟩
      rw [HandleIs, hself, Option.map_some, hs]

/-- What a native call that was to return a handle has moved into the hand. -/
def acquired : Option Handle → List HandleMove
  | none => []
  | some k => [.acquire none k]

theorem openNative_moved {P : Process → Prop}
    (hP : ∀ w w', w'.sockets = w.sockets → P w → P w') :
    Ensures (fun w => SameHandles w₀ w ∧ P w) openNative
      (fun o w => Moved w₀ (acquired o) o w ∧ P w) (fun e _ => ¬Caught e) := by
  refine Ensures.of_eq fun w hw => ?_
  obtain ⟨hsame, hPw⟩ := hw
  rcases yields_cases w with ⟨k, rest, hreplies, hfresh⟩ | ⟨e, rest, hreplies, he⟩ | hpending
  · refine Ensures.of_ok (openNative_handle hreplies hfresh) ⟨?_, hP w _ rfl hPw⟩
    refine (moved_nil hsame).snoc ⟨rfl, hfresh, ?_⟩ rfl
    -- the hand has the handle, and the objects have what they had
    apply Ledger.ext
    · funext i
      cases i with
      | none => rfl
      | some i => rfl
    · rfl
    · rfl
  · exact Ensures.of_ok (openNative_failure hreplies he)
      ⟨moved_nil ⟨hsame.handles, hsame.opened, hsame.closings⟩, hP w _ rfl hPw⟩
  · exact Ensures.of_error (openNative_pending hpending) not_caught_pending

/-- An object that holds nothing takes what is in the hand. -/
theorem giveHandle_moved (f : Socket → Socket) (hf : ∀ s, (f s).handle = hand) :
    Ensures (fun w => Moved w₀ moves hand w ∧ HandleIs self none w) (modifySocket self f)
      (fun _ => Moved w₀ (moves ++ [.transfer none (some self)]) none) (fun e _ => ¬Caught e) :=
  ensures_modifySocket fun _ s hw _ =>
    hw.1.snoc ⟨by simp, hw.2.bind_eq, ledger_give (hf s)⟩ rfl

/-- The members of an object are moved out, and its handle is in the hand. -/
theorem moveOut_moved {P : Process → Prop}
    (hP : ∀ w s, P w → w.sockets rhs = some s → P (w.placed rhs (movedFrom s))) :
    Ensures (fun w => Moved w₀ moves none w ∧ P w) (moveOut rhs)
      (fun s w => Moved w₀ (moves ++ [.transfer (some rhs) none]) s.handle w ∧ P w)
      (fun e _ => ¬Caught e) := by
  refine Ensures.bind ensures_socketAt fun s => ?_
  refine Ensures.bind (Q := fun _ w =>
    Moved w₀ (moves ++ [.transfer (some rhs) none]) s.handle w ∧ P w) ?_ fun _ =>
      Ensures.pure fun _ h => h
  refine Ensures.modify fun w hw => ⟨?_, hP w s hw.1.2 hw.2⟩
  exact hw.1.1.snoc ⟨by simp, rfl, ledger_take hw.2 rfl⟩ rfl

end Programs

/-! ## Operations -/

/-- The operations on the socket objects of a process. -/
inductive Operation
  | construct (self : SocketId) (protocol : Protocol) (blocking : Bool)
  | bind (self : SocketId) (address : Address)
  | connect (self : SocketId) (address : Address)
  | listen (self : SocketId)
  | setBlocking (self : SocketId) (value : Bool)
  | accept (self s : SocketId)
  | moveConstruct (self rhs : SocketId)
  | moveAssign (self rhs : SocketId)
  | close (self : SocketId)
  | destroy (self : SocketId)

def Operation.apply (inet : InetText) : Operation → ProcessM Unit
  | .construct self protocol blocking => Process.construct self protocol blocking
  | .bind self address => do let _ ← Process.bind inet self address
  | .connect self address => do let _ ← Process.connect inet self address
  | .listen self => do let _ ← Process.listen self
  | .setBlocking self value => do let _ ← Process.setBlocking self value
  | .accept self s => do let _ ← Process.accept inet self s
  | .moveConstruct self rhs => Process.moveConstruct self rhs
  | .moveAssign self rhs => Process.moveAssign self rhs
  | .close self => Process.close self
  | .destroy self => Process.destroy self

/-- A constructor makes an object where none is alive. -/
def Operation.Allowed : Operation → Process → Prop
  | .construct self _ _, w | .moveConstruct self _, w => w.sockets self = none
  | _, _ => True

/-- One operation, whose exceptions are caught. -/
def Step (inet : InetText) (w : Process) (op : Operation) (w' : Process) : Prop :=
  op.Allowed w ∧ Leaves Caught (op.apply inet) w w'

/-- The moves of an operation to which a native call has returned a handle, or none. -/
def Operation.moves : Operation → Option Handle → List HandleMove
  | .bind self _, some k | .connect self _, some k =>
    [.acquire none k, .transfer none (some self)]
  | .accept _ s, some k => [.acquire none k, .drop (some s), .transfer none (some s)]
  | .moveConstruct self rhs, _ => [.transfer (some rhs) none, .transfer none (some self)]
  | .moveAssign self rhs, _ =>
    if rhs = self then []
    else [.drop (some self), .transfer (some rhs) none, .transfer none (some self)]
  | .close self, _ | .destroy self, _ => [.drop (some self)]
  | _, _ => []

/-- The operation makes its moves, whatever the native calls have returned. -/
def Operation.Makes (op : Operation) (w₀ w : Process) : Prop :=
  ∃ o, Moved w₀ (op.moves o) none w

/-- However the program ends that a caller sees, it has made the moves of the operation. -/
def Brings {α : Type} (w₀ : Process) (op : Operation) (m : ProcessM α) : Prop :=
  Ensures (SameHandles w₀) m (fun _ => op.Makes w₀) (fun e w => Caught e → op.Makes w₀ w)

section Operations

variable {α β : Type} {w₀ w w' : Process} {op : Operation} {self rhs s : SocketId}
  {inet : InetText} {address : Address}

/-- An operation to which no handle is returned may leave the ledger as it is. -/
theorem makes_same (hnone : op.moves none = []) (h : SameHandles w₀ w) : op.Makes w₀ w :=
  ⟨none, hnone ▸ moved_nil h⟩

theorem Operation.Makes.same (h : op.Makes w₀ w) (hsame : SameHandles w w') : op.Makes w₀ w' := by
  obtain ⟨o, hmoved⟩ := h
  exact ⟨o, hmoved.same hsame⟩

/-- A quiet program makes no further moves. -/
theorem Quiet.after {m : ProcessM α} (hm : Quiet m) :
    Ensures (op.Makes w₀) m (fun _ => op.Makes w₀) (fun e w => Caught e → op.Makes w₀ w) :=
  ensures_of_keeps (hm.keeps fun _ _ hsame h => h.same hsame)

/-- A quiet program comes before the first move. -/
theorem Quiet.before {m : ProcessM α} (hm : Quiet m) (hnone : op.moves none = []) :
    Ensures (SameHandles w₀) m (fun _ => SameHandles w₀)
      (fun e w => Caught e → op.Makes w₀ w) :=
  (keeps_iff.mp (hm w₀)).weaken (fun _ h => h) (fun _ _ h => h) fun _ _ h _ => makes_same hnone h

theorem Quiet.brings {m : ProcessM α} (hm : Quiet m) (hnone : op.moves none = []) :
    Brings w₀ op m :=
  Ensures.weaken (hm.before hnone) (fun _ h => h) (fun _ _ h => makes_same hnone h) fun _ _ h => h

/-- What throws nothing and makes the moves is an operation of this kind. -/
theorem brings_of_moved {m : ProcessM α}
    (h : Ensures (Moved w₀ [] none) m (fun _ => Moved w₀ (op.moves none) none)
      (fun e _ => ¬Caught e)) : Brings w₀ op m :=
  (ensures_uncaught h).weaken (fun _ => moved_nil) (fun _ _ hw => ⟨none, hw⟩) fun _ _ h => h

/-- A handle is acquired for an object that has none, and stays with it if something throws. -/
theorem initSocket_brings (hnone : op.moves none = [])
    (hsome : ∀ k, op.moves (some k) = [.acquire none k, .transfer none (some self)]) :
    Brings w₀ op (initSocket self) := by
  refine Ensures.bind (ensures_uncaught ensures_socketAt) fun s => ?_
  refine Ensures.ite (fun _ => Ensures.pure fun w h => makes_same hnone h.1) fun hopen => ?_
  have hhandle : Ensures (fun w => SameHandles w₀ w ∧ w.sockets self = some s) openNative
      (fun o w => Moved w₀ (acquired o) o w ∧ HandleIs self none w) (fun e _ => ¬Caught e) := by
    refine (openNative_moved (P := HandleIs self none) ?_).weaken ?_ (fun _ _ h => h)
      (fun _ _ h => h)
    · intro w w' hsockets hself
      rw [HandleIs, hsockets]
      exact hself
    · rintro w ⟨hsame, hself⟩
      refine ⟨hsame, ?_⟩
      rw [HandleIs, hself, Option.map_some, not_not.mp hopen]
  refine Ensures.bind (ensures_uncaught hhandle) fun o => ?_
  cases o with
  | none =>
    have hthrow : Quiet (do
        throw (.thrown (.socketException "::socket failed" (← getErrorInst self))) :
        ProcessM Unit) :=
      fun w => .bind (modes_sameHandles w self).getErrorInst fun _ => .throw _
    refine Ensures.weaken hthrow.after (fun w h => ⟨none, ?_⟩) (fun _ _ h => h) (fun _ _ h => h)
    rw [hnone]
    exact h.1
  | some k =>
    -- from here on the object has the handle
    have hgive : Ensures (fun w => Moved w₀ (acquired (some k)) (some k) w ∧ HandleIs self none w)
        (modifySocket self fun s => { s with handle := some k })
        (fun _ => Moved w₀ (op.moves (some k)) none) (fun e _ => ¬Caught e) := by
      rw [hsome]
      exact giveHandle_moved _ fun _ => rfl
    refine Ensures.bind (ensures_uncaught hgive) fun _ => ?_
    have hprepare : Quiet (do
        let state ← setBlocking self s.blocking
        enforce (state = .done) "Enforcement failed.") :=
      fun w => (modes_sameHandles w self).prepare _
    exact Ensures.weaken hprepare.after (fun _ h => ⟨some k, h⟩) (fun _ _ h => h) (fun _ _ h => h)

/-- Before the object is opened and after that, nothing is moved. -/
theorem attempt_brings {check : ProcessM Unit} {rest : ProcessM α} (hcheck : Quiet check)
    (hrest : Quiet rest) (hnone : op.moves none = [])
    (hsome : ∀ k, op.moves (some k) = [.acquire none k, .transfer none (some self)]) :
    Brings w₀ op (do check; initSocket self; rest) :=
  Ensures.bind (hcheck.before hnone) fun _ =>
    Ensures.bind (initSocket_brings hnone hsome) fun _ => hrest.after

/-- **Binding** acquires a handle, or moves none. -/
theorem bind_brings : Brings w₀ (.bind self address) (Process.bind inet self address) := by
  rw [bind_eq]
  refine attempt_brings (quiet_precheck (fun hs => ?_) _) (quiet_complete fun _ => .pure _) rfl
    fun _ => rfl
  rw [hs.handle_eq]

theorem connect_brings : Brings w₀ (.connect self address) (connect inet self address) := by
  have hlink : Quiet (modifySocket self fun s => { s with connected := true }) :=
    fun w => (modes_sameHandles w self).modifySocket (allows_sameHandles fun _ => rfl)
  rw [connect_eq]
  refine attempt_brings (quiet_precheck (fun hs => ?_) _) (quiet_complete hlink) rfl fun _ => rfl
  rw [hs.connected_eq]

/-- The assignment of a temporary leaves an object without a handle. -/
theorem moveInto_temporary {moves : List HandleMove} {hand : Option Handle} {t : Socket}
    (ht : t.handle = none) :
    Ensures (Moved w₀ moves hand) (moveInto s (pure t))
      (fun _ w => Moved w₀ (moves ++ [.drop (some s)]) hand w ∧ HandleIs s none w)
      (fun e _ => ¬Caught e) := by
  refine Ensures.bind close_moved fun _ => ?_
  refine Ensures.bind (Q := fun u w => (Moved w₀ (moves ++ [.drop (some s)]) hand w ∧
    HandleIs s none w) ∧ u = t) (Ensures.pure fun w hw => ⟨hw, rfl⟩) fun u => ?_
  refine ensures_modifySocket fun w v hw hv => ?_
  obtain ⟨⟨hmoved, hself⟩, rfl⟩ := hw
  refine ⟨hmoved.put (by rw [hself.bind_eq, Option.bind_some, ht]), ?_⟩
  rw [← ht]
  exact handleIs_update w s u

/-- **Accepting** gives the new handle to an object whose own has been dropped. -/
theorem accept_brings : Brings w₀ (.accept self s) (accept inet self s) := by
  have hopen : Ensures (SameHandles w₀) openNative (fun o => Moved w₀ (acquired o) o)
      (fun e _ => ¬Caught e) :=
    (openNative_moved (P := fun _ => True) fun _ _ _ _ => trivial).weaken (fun _ h => ⟨h, trivial⟩)
      (fun _ _ h => h.1) (fun _ _ h => h)
  refine Ensures.bind (ensures_uncaught hopen) fun o => ?_
  cases o with
  | none =>
    have hfailed : Quiet (getErrorState self) := fun w => (modes_sameHandles w self).getErrorState
    exact Ensures.weaken hfailed.after (fun _ h => ⟨none, h⟩) (fun _ _ h => h) (fun _ _ h => h)
  | some k =>
    -- until the object has the handle nothing throws
    refine Ensures.bind (ensures_uncaught ensures_socketAt) fun listener => ?_
    have htemporary : (constructed .tcp listener.blocking).handle = none := rfl
    refine Ensures.bind (ensures_uncaught ((moveInto_temporary htemporary).weaken
      (fun _ h => h.1) (fun _ _ h => h) (fun _ _ h => h))) fun _ => ?_
    have hgive : Ensures (fun w => Moved w₀ (acquired (some k) ++ [.drop (some s)]) (some k) w ∧
        HandleIs s none w) (modifySocket s fun t => { t with handle := some k })
        (fun _ => Moved w₀ ((Operation.accept self s).moves (some k)) none)
        (fun e _ => ¬Caught e) := giveHandle_moved _ fun _ => rfl
    refine Ensures.bind (ensures_uncaught hgive) fun _ => ?_
    have hrest : Quiet (adopt inet self s) := fun w =>
      (names_sameHandles inet w s).adopt (allows_sameHandles fun _ => rfl)
        (modes_sameHandles w self)
    exact Ensures.weaken hrest.after (fun _ h => ⟨some k, h⟩) (fun _ _ h => h) (fun _ _ h => h)

/-- **Move assignment** drops what the object holds and hands over what the source holds. -/
theorem moveAssign_brings : Brings w₀ (.moveAssign self rhs) (moveAssign self rhs) := by
  by_cases hsame : rhs = self
  · -- a self-assignment does nothing
    rw [moveAssign, if_neg (not_not.mpr hsame)]
    exact Quiet.brings (fun _ => .pure ()) (if_pos hsame)
  · rw [moveAssign, if_pos hsame]
    apply brings_of_moved
    refine Ensures.bind close_moved fun _ => Ensures.bind (moveOut_moved ?_) fun t => ?_
    · -- the object that was closed is another one
      intro w t hself hrhs
      rw [HandleIs, placed_sockets_ne w rhs (movedFrom t) (Ne.symm hsame)]
      exact hself
    · rw [Operation.moves, if_neg hsame]
      exact giveHandle_moved _ fun _ => rfl

/-- A new object is handed what the source holds. -/
theorem moveConstruct_makes :
    Ensures (fun w => SameHandles w₀ w ∧ w.sockets self = none) (moveConstruct self rhs)
      (fun _ => (Operation.moveConstruct self rhs).Makes w₀) (fun e _ => ¬Caught e) := by
  refine Ensures.weaken (P := fun w => Moved w₀ [] none w ∧ w.sockets self = none) ?_
    (fun _ h => ⟨moved_nil h.1, h.2⟩) (fun _ _ h => h) (fun _ _ h => h)
  refine Ensures.bind (moveOut_moved ?_) fun t => ?_
  · -- the source is alive, and the new object is not
    intro w t hself hrhs
    have hne : self ≠ rhs := by
      rintro rfl
      rw [hself] at hrhs
      cases hrhs
    exact (placed_sockets_ne w rhs (movedFrom t) hne).trans hself
  · refine Ensures.modify fun w hw => ⟨none, hw.1.snoc ⟨by simp, ?_, ledger_give rfl⟩ rfl⟩
    show (w.sockets self).bind Socket.handle = none
    rw [hw.2]
    rfl

/-- The destructor drops what the object holds. -/
theorem destroy_brings : Brings w₀ (.destroy self) (destroy self) := by
  apply brings_of_moved
  refine Ensures.bind close_moved fun _ => Ensures.modify fun w hw => ?_
  exact hw.1.put (by rw [hw.2.bind_eq]; rfl)

/-- A new object holds no handle. -/
theorem construct_makes {protocol : Protocol} {blocking : Bool} :
    Ensures (fun w => SameHandles w₀ w ∧ w.sockets self = none)
      (construct self protocol blocking)
      (fun _ => (Operation.construct self protocol blocking).Makes w₀)
      (fun e w => Caught e → (Operation.construct self protocol blocking).Makes w₀ w) := by
  refine Ensures.bind (Q := fun _ w => SameHandles w₀ w ∧ w.sockets self = none) ?_ fun _ => ?_
  · exact Ensures.ite (fun _ => Ensures.pure fun _ h => h) fun _ =>
      Ensures.throw fun _ h _ => makes_same rfl h.1
  · refine Ensures.modify fun w hw => ⟨none, (moved_nil hw.1).put ?_⟩
    rw [hw.2]
    rfl

/-- **One operation** makes its moves, and then a caller sees its end. -/
theorem step_makes (hstep : Step inet w op w') : op.Makes w w' := by
  obtain ⟨hallowed, hleaves⟩ := hstep
  have hbrings : ∀ {m : ProcessM Unit}, Brings w op m → Leaves Caught m w w' → op.Makes w w' :=
    fun hm hend => ensures_iff_leaves.mp hm w w' (.refl w) hend
  have hdone : ∀ {m : ProcessM SocketState}, Brings w op m → Brings w op (do let _ ← m) :=
    fun hm => Ensures.bind hm fun _ => Ensures.pure fun _ h => h
  cases op with
  | construct self protocol blocking =>
    exact ensures_iff_leaves.mp construct_makes w w' ⟨.refl w, hallowed⟩ hleaves
  | bind self address => exact hbrings (hdone bind_brings) hleaves
  | connect self address => exact hbrings (hdone connect_brings) hleaves
  | listen self =>
    have hquiet : Quiet (listen self) := fun w => (modes_sameHandles w self).listen
    exact hbrings (hdone (hquiet.brings rfl)) hleaves
  | setBlocking self value =>
    have hquiet : Quiet (setBlocking self value) :=
      fun w => (modes_sameHandles w self).setBlocking value
    exact hbrings (hdone (hquiet.brings rfl)) hleaves
  | accept self s => exact hbrings (hdone accept_brings) hleaves
  | moveConstruct self rhs =>
    exact ensures_iff_leaves.mp (ensures_uncaught moveConstruct_makes) w w' ⟨.refl w, hallowed⟩
      hleaves
  | moveAssign self rhs => exact hbrings moveAssign_brings hleaves
  | close self =>
    have hclosed := ensures_iff_leaves.mp (ensures_uncaught close_moved) w w'
      (moved_nil (.refl w)) hleaves
    exact ⟨none, hclosed.1⟩
  | destroy self => exact hbrings destroy_brings hleaves

end Operations

end Sws.Process
