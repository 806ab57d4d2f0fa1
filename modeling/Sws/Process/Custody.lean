import Sws.Process.Calls

/-!
# Following a Handle

The moves that a run makes of the ledger can be told from the names of its operations and from the
handles that native calls have returned.  So a handle can be followed through a run: by the names of
the operations alone one finds the object that has it, and the operations that may close it.

## Key Results

- `runs_refine_ledger`: every run of a process is a run of its ledger.
- `handle_followed`: where a handle is at the end of a run.
-/

namespace Sws.Process

open Sws.Foundation

/-! ## Runs -/

/-- A transfer moves no handle. -/
def Action.moves : Action → Option Handle → List HandleMove
  | .operate op, o => op.moves o
  | .transfer .., _ => []

/-- The moves of actions, each with the handle that a native call has returned to it. -/
def movesOf (events : List (Action × Option Handle)) : List HandleMove :=
  events.flatMap fun e => e.1.moves e.2

section Runs

variable {inet : InetText} {w₀ w w' : Process} {a : Action} {actions : List Action} {i : SocketId}
  {k : Handle}

/-- **One action** makes the moves that its name says. -/
theorem act_moves (hact : Act inet w a w') :
    ∃ o, Reaches Ledger.Step (w.ledger none) (a.moves o) (w'.ledger none) := by
  cases a with
  | operate op =>
    obtain ⟨o, hmoved⟩ := step_makes hact
    exact ⟨o, hmoved.reaches⟩
  | transfer self call packet buffer net =>
    refine ⟨none, ?_⟩
    rw [(sameHandles_transfer hact).ledger_eq]
    exact .nil _

/-- A run makes those of its actions in turn. -/
theorem ledger_of_reaches (hrun : Reaches (Act inet) w actions w') :
    ∃ events, events.map Prod.fst = actions ∧
      Reaches Ledger.Step (w.ledger none) (movesOf events) (w'.ledger none) := by
  induction hrun with
  | nil => exact ⟨[], rfl, .nil _⟩
  | @snoc _ _ _ a _ hact ih =>
    obtain ⟨events, rfl, hmoves⟩ := ih
    obtain ⟨o, hlast⟩ := act_moves hact
    refine ⟨events ++ [(a, o)], by simp, ?_⟩
    have hflat : movesOf (events ++ [(a, o)]) = movesOf events ++ a.moves o := by simp [movesOf]
    rw [hflat]
    exact hmoves.append hlast

/-- **Refinement.** Every run of all member functions, exceptions caught, is a run of a ledger that
starts without any handle: the calls make the moves that their names say, with handles that have not
been returned before, and end with what the objects hold, what was opened and what was closed. -/
theorem runs_refine_ledger (hstarts : Starts w₀) (hrun : Reaches (Act inet) w₀ actions w) :
    ∃ events, events.map Prod.fst = actions ∧
      Reaches Ledger.Step Ledger.initial (movesOf events) (w.ledger none) := by
  rw [← ledger_of_starts hstarts]
  exact ledger_of_reaches hrun

/-! ## Following -/

/-- The object that has, after an operation, the handle an object had. -/
def Operation.carry : Operation → SocketId → SocketId
  | .moveConstruct self rhs, i | .moveAssign self rhs, i => if i = rhs then self else i
  | _, i => i

def Action.carry : Action → SocketId → SocketId
  | .operate op, i => op.carry i
  | .transfer .., i => i

/-- The object to which actions carry the handle of an object. -/
def carriedTo (actions : List Action) (i : SocketId) : SocketId :=
  actions.foldl (fun i a => a.carry i) i

/-- The operations that may close the handle of an object. -/
def Operation.MayClose : Operation → SocketId → Prop
  | .close self, i | .destroy self, i => i = self
  | .moveAssign self rhs, i => rhs ≠ self ∧ i = self
  | .accept _ s, i => i = s
  | _, _ => False

/-- The operations that close it whatever the native calls return. -/
def Operation.MustClose (op : Operation) (i : SocketId) : Prop :=
  op.MayClose i ∧ ∀ self s, op ≠ .accept self s

def Action.MayClose : Action → SocketId → Prop
  | .operate op, i => op.MayClose i
  | .transfer .., _ => False

def Action.MustClose : Action → SocketId → Prop
  | .operate op, i => op.MustClose i
  | .transfer .., _ => False

/-- From one object to another, by way of the hand. -/
theorem carried_handOver (self rhs i : SocketId) :
    carried ([.transfer (some rhs) none, .transfer none (some self)] : List HandleMove) (some i) =
      some (if i = rhs then self else i) := by
  simp only [carried_cons, carried_nil, Move.carry, Option.some.injEq]
  by_cases h : i = rhs
  · simp only [if_pos h, if_true]
  · simp only [if_neg h, reduceCtorEq, if_false]

/-- An operation carries a handle to where its moves do. -/
theorem carried_moves (op : Operation) (o : Option Handle) (i : SocketId) :
    carried (op.moves o) (some i) = some (op.carry i) := by
  cases op with
  | moveConstruct self rhs => exact carried_handOver self rhs i
  | moveAssign self rhs =>
    rw [Operation.moves]
    split_ifs with hsame
    · -- a self-assignment carries the handle to where it is
      simp only [carried_nil, Operation.carry, hsame]
      split_ifs with hi
      · rw [hi]
      · rfl
    · exact carried_handOver self rhs i
  | bind | connect | accept => cases o <;> simp [Operation.moves, Move.carry, Operation.carry]
  | construct | listen | setBlocking | close | destroy => rfl

/-- Only an operation that may close the handle of an object drops it. -/
theorem mayClose_of_drops {op : Operation} {o : Option Handle}
    (h : Ledger.Drops (op.moves o) (some i)) : op.MayClose i := by
  cases op with
  | bind | connect =>
    -- acquiring and handing over drop nothing
    cases o <;> simp [Operation.moves, Ledger.drops_cons, Ledger.not_drops_nil] at h
  | accept self s =>
    cases o with
    | none => exact absurd h Ledger.not_drops_nil
    | some k =>
      simp [Operation.moves, Ledger.drops_cons, Ledger.not_drops_nil, Move.carry] at h
      exact h.symm
  | moveConstruct self rhs =>
    simp [Operation.moves, Ledger.drops_cons, Ledger.not_drops_nil] at h
  | moveAssign self rhs =>
    rcases eq_or_ne rhs self with rfl | hne
    · rw [Operation.moves, if_pos rfl] at h
      exact absurd h Ledger.not_drops_nil
    · simp [Operation.moves, if_neg hne, Ledger.drops_cons, Ledger.not_drops_nil] at h
      exact ⟨hne, h.symm⟩
  | close self | destroy self =>
    simp [Operation.moves, Ledger.drops_cons, Ledger.not_drops_nil] at h
    exact h.symm
  | construct | listen | setBlocking => exact absurd h Ledger.not_drops_nil

/-- One that must close it drops it, whatever the native calls return. -/
theorem drops_of_mustClose {op : Operation} {o : Option Handle} (h : op.MustClose i) :
    Ledger.Drops (op.moves o) (some i) := by
  obtain ⟨hmay, hother⟩ := h
  cases op with
  | accept self s => exact absurd rfl (hother self s)
  | moveAssign self rhs =>
    obtain ⟨hne, rfl⟩ := hmay
    rw [Operation.moves, if_neg hne]
    exact Ledger.drops_cons.mpr (.inl rfl)
  | close self | destroy self =>
    obtain rfl := hmay
    exact Ledger.drops_cons.mpr (.inl rfl)
  | construct | bind | connect | listen | setBlocking | moveConstruct => exact hmay.elim

theorem Action.carried_moves (a : Action) (o : Option Handle) (i : SocketId) :
    carried (a.moves o) (some i) = some (a.carry i) := by
  cases a with
  | operate op => exact Process.carried_moves op o i
  | transfer => rfl

theorem Action.mayClose_of_drops {o : Option Handle} (h : Ledger.Drops (a.moves o) (some i)) :
    a.MayClose i := by
  cases a with
  | operate op => exact Process.mayClose_of_drops h
  | transfer => exact absurd h Ledger.not_drops_nil

theorem Action.drops_of_mustClose {o : Option Handle} (h : a.MustClose i) :
    Ledger.Drops (a.moves o) (some i) := by
  cases a with
  | operate op => exact Process.drops_of_mustClose h
  | transfer => exact h.elim

theorem carried_movesOf (events : List (Action × Option Handle)) (i : SocketId) :
    carried (movesOf events) (some i) = some (carriedTo (events.map Prod.fst) i) := by
  induction events generalizing i with
  | nil => rfl
  | cons e events ih =>
    rw [movesOf, List.flatMap_cons, carried_append, Action.carried_moves, ← movesOf, ih]
    rfl

/-- A run drops what an object holds in one of its actions. -/
theorem drops_movesOf {events : List (Action × Option Handle)} :
    Ledger.Drops (movesOf events) (some i) ↔ ∃ before e after, events = before ++ e :: after ∧
      Ledger.Drops (e.1.moves e.2) (some (carriedTo (before.map Prod.fst) i)) := by
  -- behind an action what was here is where the action carries it
  induction events generalizing i with
  | nil =>
    refine ⟨fun h => absurd h Ledger.not_drops_nil, ?_⟩
    rintro ⟨before, e, after, heq, -⟩
    simp at heq
  | cons e events ih =>
    rw [movesOf, List.flatMap_cons, Ledger.drops_append, Action.carried_moves, ← movesOf, ih]
    constructor
    · rintro (h | ⟨before, e', after, rfl, h⟩)
      · exact ⟨[], e, events, rfl, h⟩
      · exact ⟨e :: before, e', after, rfl, h⟩
    · rintro ⟨before, e', after, heq, h⟩
      cases before with
      | nil =>
        obtain ⟨rfl, -⟩ := List.cons_eq_cons.mp heq
        exact .inl h
      | cons e'' before =>
        obtain ⟨rfl, hrest⟩ := List.cons_eq_cons.mp heq
        exact .inr ⟨before, e', after, hrest, h⟩

/-- Where the handle of an object is after actions, and when it has been closed. -/
structure HandleFollowed (actions : List Action) (i : SocketId) (k : Handle) (w : Process) :
    Prop where
  /-- A handle that is open is in the object to which it was carried. -/
  held : k ∉ w.closed → ∃ s, w.sockets (carriedTo actions i) = some s ∧ s.handle = some k
  /-- It is closed by nothing but an operation that may close what this object holds. -/
  closedBy : k ∈ w.closed → ∃ before a after, actions = before ++ a :: after ∧
    a.MayClose (carriedTo before i)
  /-- It is closed by every one that does so whatever the native calls return. -/
  closes : ∀ before a after, actions = before ++ a :: after → a.MustClose (carriedTo before i) →
    k ∈ w.closed

/-- **Following a handle.** In every run from a state that can be reached, the handle of an object
goes where the moves between objects carry it, and no further than to the first operation that
closes it. -/
theorem handle_followed {s : Socket} (hreached : Reached inet w) (hs : w.sockets i = some s)
    (hk : s.handle = some k) (hrun : Reaches (Act inet) w actions w') :
    HandleFollowed actions i k w' := by
  obtain ⟨events, rfl, hmoves⟩ := ledger_of_reaches hrun
  have hheld : (w.ledger none).holds (some i) = some k := by
    show (w.sockets i).bind Socket.handle = _
    rw [hs]
    exact hk
  -- a linear ledger releases it where something is dropped that holds it
  have hreleased := Ledger.released_iff (reached_owned hreached).linear hmoves hheld
  rw [drops_movesOf] at hreleased
  refine ⟨?_, ?_, ?_⟩
  · intro hopen
    have hlast := Ledger.held_of_reaches hmoves hheld hopen
    rw [carried_movesOf] at hlast
    exact Option.bind_eq_some_iff.mp hlast
  · intro hclosed
    obtain ⟨before, e, after, rfl, hdrops⟩ := hreleased.mp hclosed
    exact ⟨before.map Prod.fst, e.1, after.map Prod.fst, by simp, Action.mayClose_of_drops hdrops⟩
  · intro before a after heq hmust
    obtain ⟨before, rest, rfl, rfl, hrest⟩ := List.map_eq_append_iff.mp heq
    obtain ⟨e, after, rfl, rfl, rfl⟩ := List.map_eq_cons_iff.mp hrest
    exact hreleased.mpr ⟨before, e, after, rfl, Action.drops_of_mustClose hmust⟩

end Runs

/-! ## A handle that is handed over -/

/-- The native results of a `bind`. -/
def handedOver : Process where
  replies := [.handle 1, .success, .success, .failure .notConnected, .failure .notConnected]

theorem starts_handedOver : Starts handedOver := ⟨fun _ => rfl, rfl, rfl⟩

/-- A listener, that has sent an empty packet. -/
def binding : List Action :=
  [.operate (.construct 0 .tcp true), .operate (.bind 0 ⟨"127.0.0.1", 80, .inet⟩),
    .transfer 0 .send Packet.fresh [] {}]

/-- The socket is moved from, and destroyed. -/
def handing : List Action := [.operate (.moveConstruct 1 0), .operate (.destroy 0)]

theorem reaches_handedOver :
    ∃ w s, Reaches (Act .loopback) handedOver binding w ∧
      w.sockets 0 = some s ∧ s.handle = some 1 ∧ w.opened = [1] ∧
      ∃ w', Reaches (Act .loopback) w handing w' ∧ w'.closed = [] := by
  have hbound : Reaches (Act .loopback) handedOver _ _ :=
    .snoc (.snoc (.snoc (.nil handedOver)
      (show Act .loopback _ (.operate (.construct 0 .tcp true)) _ from ⟨rfl, rfl⟩))
      (show Act .loopback _ (.operate (.bind 0 ⟨"127.0.0.1", 80, .inet⟩)) _ from ⟨trivial, rfl⟩))
      (show Act .loopback _ (.transfer 0 .send Packet.fresh [] {}) _ from ⟨_, _, rfl, rfl, rfl⟩)
  refine ⟨_, _, hbound, rfl, rfl, rfl, ?_⟩
  exact ⟨_, .cons (show Act .loopback _ (.operate (.moveConstruct 1 0)) _ from ⟨rfl, rfl⟩)
    (.cons (show Act .loopback _ (.operate (.destroy 0)) _ from ⟨trivial, rfl⟩) (.nil _)), rfl⟩

theorem runs_refine_ledger_handedOver :
    ∃ w : Process, w.opened = [1] ∧ ∃ events, events.map Prod.fst = binding ∧
      Reaches Ledger.Step Ledger.initial (movesOf events) (w.ledger none) := by
  obtain ⟨w, s, hbound, -, -, hopened, -⟩ := reaches_handedOver
  exact ⟨w, hopened, runs_refine_ledger starts_handedOver hbound⟩

/-- The destructor of the object that was moved from closes nothing. -/
theorem handle_followed_handedOver :
    ∃ (w : Process) (s : Socket), w.sockets 1 = some s ∧ s.handle = some 1 := by
  obtain ⟨w, s, hbound, hs, hk, -, w', hmoved, hclosed⟩ := reaches_handedOver
  have hfollowed := handle_followed ⟨_, _, starts_handedOver, hbound⟩ hs hk hmoved
  obtain ⟨t, ht, hheld⟩ := hfollowed.held (by rw [hclosed]; exact List.not_mem_nil)
  exact ⟨w', t, ht, hheld⟩

end Sws.Process
