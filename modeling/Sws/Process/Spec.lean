import Sws.Foundation.Program
import Sws.Model.Process

/-!
# What the Member Functions Do

The building blocks of `bind` and `connect`, on an object that is alive, each as what its run
gives for every result of the native calls.

## Key Results

- `callNative_success`, `callNative_failure`, `callNative_pending`: the native call.
- `setBlocking_closed`, `setBlocking_success`, `setBlocking_failure`: `blocking(bool)`.
- `initSocket_opens`: `init_socket` ends where the native results say.
-/

namespace Sws.Process

open Sws.Foundation

/-! ## Objects -/

/-- The process with an object at its place. -/
def placed (w : Process) (self : SocketId) (s : Socket) : Process :=
  { w with sockets := Function.update w.sockets self (some s) }

section Placed

variable (w : Process) (self : SocketId) (s t : Socket)

@[simp] theorem placed_sockets_self : (w.placed self s).sockets self = some s :=
  Function.update_self ..

/-- The other objects are where they were. -/
theorem placed_sockets_ne {i : SocketId} (h : i ≠ self) :
    (w.placed self s).sockets i = w.sockets i :=
  Function.update_of_ne h ..

@[simp] theorem placed_replies : (w.placed self s).replies = w.replies := rfl

@[simp] theorem placed_lastError : (w.placed self s).lastError = w.lastError := rfl

@[simp] theorem placed_opened : (w.placed self s).opened = w.opened := rfl

@[simp] theorem placed_placed : (w.placed self s).placed self t = w.placed self t := by
  simp [placed]

end Placed

/-- The object is alive in the process, and so are the native results to come. -/
structure Holds (i : SocketId) (s : Socket) (replies : List NativeReply) (w : Process) : Prop where
  object : w.sockets i = some s
  replies_eq : w.replies = replies

section Runs

variable {w : Process} {self : SocketId} {s : Socket} {replies rest : List NativeReply}

/-- An object that was put at its place is there. -/
theorem holds_placed (hw : w.replies = replies) : Holds self s replies (w.placed self s) :=
  ⟨placed_sockets_self w self s, hw⟩

theorem socketAt_run (hs : w.sockets self = some s) : (socketAt self).run w = .ok s w := by
  simp only [socketAt, EStateM.run_bind, EStateM.run_get, hs]
  rfl

/-- There is no object at the end of its life. -/
theorem socketAt_none (hs : w.sockets self = none) :
    (socketAt self).run w = .error (.undefined .nullPointer) w := by
  simp only [socketAt, EStateM.run_bind, EStateM.run_get, hs]
  rfl

/-- A change of an object that is alive. -/
theorem modifySocket_run (hs : w.sockets self = some s) (f : Socket → Socket) :
    (modifySocket self f).run w = .ok () (w.placed self (f s)) := by
  simp only [modifySocket, EStateM.run_bind, socketAt_run hs]
  rfl

theorem modifySocket_none (hs : w.sockets self = none) (f : Socket → Socket) :
    (modifySocket self f).run w = .error (.undefined .nullPointer) w := by
  simp only [modifySocket, EStateM.run_bind, socketAt_none hs]

/-- The thread's last error is stored in the object, and returned. -/
theorem getErrorInst_run (hs : w.sockets self = some s) :
    (getErrorInst self).run w =
      .ok w.lastError (w.placed self { s with nativeError := w.lastError }) := by
  simp only [getErrorInst, EStateM.run_bind, EStateM.run_get, modifySocket_run hs]
  rfl

theorem getErrorState_run (hs : w.sockets self = some s) :
    (getErrorState self).run w =
      .ok (toState w.lastError) (w.placed self { s with nativeError := w.lastError }) := by
  simp only [getErrorState, EStateM.run_bind, getErrorInst_run hs]
  rfl

theorem clearErrorState_run (hs : w.sockets self = some s) :
    (clearErrorState self).run w = .ok .done (w.placed self { s with nativeError := .none }) := by
  simp only [clearErrorState, EStateM.run_bind, modifySocket_run hs]
  rfl

/-! ## Native calls -/

/-- A native call that succeeds takes the next result, and nothing else happens. -/
theorem callNative_success (h : w.replies = .success :: rest) :
    callNative.run w = .ok true { w with replies := rest } := by
  simp only [callNative, EStateM.run_bind, EStateM.run_get, h]
  rfl

/-- One that fails stores the error for the thread. -/
theorem callNative_failure {e : SocketError} (h : w.replies = .failure e :: rest)
    (he : e ≠ .none) :
    callNative.run w = .ok false { w with replies := rest, lastError := e } := by
  simp only [callNative, EStateM.run_bind, EStateM.run_get, h, if_neg he]
  rfl

/-- The next native result is success, or an error. -/
def Settles : List NativeReply → Prop
  | .success :: _ => True
  | .failure e :: _ => e ≠ .none
  | _ => False

/-- One whose result is of another kind, or has not come yet, does not return. -/
theorem callNative_pending (h : ¬Settles w.replies) : callNative.run w = .error .pending w := by
  simp only [callNative, EStateM.run_bind, EStateM.run_get]
  match hreplies : w.replies with
  | .success :: rest => exact absurd (by rw [hreplies]; trivial) h
  | .failure e :: rest =>
    rw [hreplies] at h
    have he : e = .none := not_not.mp h
    simp only [EStateM.run_bind, if_pos he]
    rfl
  | .handle _ :: _ => rfl
  | .address _ :: _ => rfl
  | [] => rfl

/-- A native call has one of three ends. -/
theorem settles_cases (replies : List NativeReply) :
    (∃ rest, replies = .success :: rest) ∨ (∃ e rest, replies = .failure e :: rest ∧ e ≠ .none) ∨
      ¬Settles replies := by
  match replies with
  | .success :: rest => exact .inl ⟨rest, rfl⟩
  | .failure e :: rest =>
    rcases eq_or_ne e .none with he | he
    · exact .inr (.inr fun h => h he)
    · exact .inr (.inl ⟨e, rest, rfl, he⟩)
  | .handle _ :: _ => exact .inr (.inr id)
  | .address _ :: _ => exact .inr (.inr id)
  | [] => exact .inr (.inr id)

/-! ## The blocking mode -/

/-- What `blocking(bool)` makes of an object, for the error that it stores. -/
def withMode (s : Socket) (value : Bool) (e : SocketError) : Socket :=
  { s with blocking := value, nativeError := e }

/-- Without a handle the mode is stored, and no native call is made. -/
theorem setBlocking_closed (hs : w.sockets self = some s) (hclosed : s.handle = none)
    (value : Bool) :
    (setBlocking self value).run w = .ok .done (w.placed self (withMode s value .none)) := by
  have hplaced := placed_sockets_self w self { s with blocking := value }
  simp only [setBlocking, EStateM.run_bind, modifySocket_run hs, socketAt_run hplaced,
    if_pos hclosed, clearErrorState_run hplaced, placed_placed]
  rfl

/-- On an object with a handle `ioctlsocket` decides. -/
theorem setBlocking_run (hs : w.sockets self = some s) (hopen : s.handle ≠ none) (value : Bool) :
    (setBlocking self value).run w =
      match callNative.run (w.placed self { s with blocking := value }) with
      | .ok true v => (clearErrorState self).run v
      | .ok false v => (getErrorState self).run v
      | .error e v => .error e v := by
  have hplaced := placed_sockets_self w self { s with blocking := value }
  simp only [setBlocking, EStateM.run_bind, modifySocket_run hs, socketAt_run hplaced,
    if_neg hopen]
  cases callNative.run (w.placed self { s with blocking := value }) with
  | error e v => rfl
  | ok result v =>
    cases result with
    | true => rfl
    | false => exact EStateM.run_bind ..

/-- The mode is stored, and so is that there is no error. -/
theorem setBlocking_success (hs : w.sockets self = some s) (hopen : s.handle ≠ none)
    (value : Bool) (hreplies : w.replies = .success :: rest) :
    ∃ v, (setBlocking self value).run w = .ok .done v ∧
      Holds self (withMode s value .none) rest v := by
  have hrun := setBlocking_run hs hopen value
  rw [callNative_success (w := w.placed self { s with blocking := value }) hreplies] at hrun
  exact ⟨_, hrun.trans (clearErrorState_run (placed_sockets_self ..)), holds_placed rfl⟩

/-- When `ioctlsocket` fails the mode has been stored all the same. -/
theorem setBlocking_failure (hs : w.sockets self = some s) (hopen : s.handle ≠ none)
    (value : Bool) {e : SocketError} (hreplies : w.replies = .failure e :: rest)
    (he : e ≠ .none) :
    ∃ v, (setBlocking self value).run w = .ok (toState e) v ∧
      Holds self (withMode s value e) rest v := by
  have hrun := setBlocking_run hs hopen value
  rw [callNative_failure (w := w.placed self { s with blocking := value }) hreplies he] at hrun
  exact ⟨_, hrun.trans (getErrorState_run (placed_sockets_self ..)), holds_placed rfl⟩

/-- A call that does not return keeps the caller. -/
theorem setBlocking_pending (hs : w.sockets self = some s) (hopen : s.handle ≠ none)
    (value : Bool) (hreplies : ¬Settles w.replies) :
    ∃ v, (setBlocking self value).run w = .error .pending v := by
  have hrun := setBlocking_run hs hopen value
  rw [callNative_pending (w := w.placed self { s with blocking := value }) hreplies] at hrun
  exact ⟨_, hrun⟩

/-! ## Opening -/

/-- Where `init_socket` ends. -/
inductive Opening
  /-- The object has a handle, and these are the native results to come. -/
  | ready (replies : List NativeReply)
  /-- `::socket` has failed. -/
  | unopened
  /-- `ioctlsocket` has failed on the new handle. -/
  | unprepared
  /-- A native call has not returned. -/
  | pending
  deriving DecidableEq, Repr

/-- Reads the native results that `init_socket` finds. -/
def opening (w : Process) (s : Socket) : Opening :=
  if s.handle ≠ none then .ready w.replies
  else
    match w.replies with
    | .handle h :: rest =>
      if h ∈ w.opened then .pending
      else
        match rest with
        | .success :: rest => .ready rest
        | .failure e :: rest =>
          if e = .none then .pending
          -- an error that `to_state` takes for success does not count
          else if toState e = .done then .ready rest else .unprepared
        | _ => .pending
    | .failure e :: _ => if e = .none then .pending else .unopened
    | _ => .pending

/-- An object that has a handle, and has stored an error. -/
def withHandle (s : Socket) (k : Handle) (e : SocketError) : Socket :=
  { s with handle := some k, nativeError := e }

/-- How a run of `init_socket` ends. -/
inductive Opens (self : SocketId) (s : Socket) : Opening → EStateM.Result Fault Process Unit → Prop
  | ready {k : Handle} {e : SocketError} {replies : List NativeReply} {v : Process}
      (hk : s.handle = none ∨ s.handle = some k) (hv : Holds self (withHandle s k e) replies v) :
      Opens self s (.ready replies) (.ok () v)
  | unopened {x : Exception} {e : SocketError} {replies : List NativeReply} {v : Process}
      (hv : Holds self { s with nativeError := e } replies v) :
      Opens self s .unopened (.error (.thrown x) v)
  | unprepared {x : Exception} {k : Handle} {e : SocketError} {replies : List NativeReply}
      {v : Process} (hnone : s.handle = none) (hv : Holds self (withHandle s k e) replies v) :
      Opens self s .unprepared (.error (.thrown x) v)
  | pending {v : Process} : Opens self s .pending (.error .pending v)

/-- A handle that is returned is on record from then on. -/
theorem openNative_handle {h : Handle} (hreplies : w.replies = .handle h :: rest)
    (hfresh : h ∉ w.opened) :
    openNative.run w = .ok (some h) { w with replies := rest, opened := w.opened ++ [h] } := by
  simp only [openNative, EStateM.run_bind, EStateM.run_get, hreplies, if_neg hfresh]
  rfl

theorem openNative_failure {e : SocketError} (hreplies : w.replies = .failure e :: rest)
    (he : e ≠ .none) :
    openNative.run w = .ok none { w with replies := rest, lastError := e } := by
  simp only [openNative, EStateM.run_bind, EStateM.run_get, hreplies, if_neg he]
  rfl

/-- The next native result is a handle that has not been returned before, or an error. -/
def Yields (w : Process) : Prop :=
  match w.replies with
  | .handle h :: _ => h ∉ w.opened
  | .failure e :: _ => e ≠ .none
  | _ => False

/-- A native call that was to return a handle has one of three ends. -/
theorem yields_cases (w : Process) :
    (∃ h rest, w.replies = .handle h :: rest ∧ h ∉ w.opened) ∨
      (∃ e rest, w.replies = .failure e :: rest ∧ e ≠ .none) ∨ ¬Yields w := by
  by_cases h : Yields w
  · unfold Yields at h
    match hw : w.replies with
    | .handle k :: rest =>
      rw [hw] at h
      exact .inl ⟨k, rest, rfl, h⟩
    | .failure e :: rest =>
      rw [hw] at h
      exact .inr (.inl ⟨e, rest, rfl, h⟩)
    | .success :: _ | .address _ :: _ | [] =>
      rw [hw] at h
      exact h.elim
  · exact .inr (.inr h)

/-- The third of them is that it does not return. -/
theorem openNative_pending (h : ¬Yields w) : openNative.run w = .error .pending w := by
  simp only [openNative, EStateM.run_bind, EStateM.run_get]
  unfold Yields at h
  match hw : w.replies with
  | .handle k :: rest =>
    rw [hw] at h
    simp only [EStateM.run_bind, if_pos (not_not.mp h)]
    rfl
  | .failure e :: rest =>
    rw [hw] at h
    simp only [EStateM.run_bind, if_pos (not_not.mp h)]
    rfl
  | .success :: _ | .address _ :: _ | [] => rfl

theorem opening_pending (hnone : s.handle = none) (h : ¬Yields w) : opening w s = .pending := by
  unfold opening
  unfold Yields at h
  rw [if_neg (not_not.mpr hnone)]
  match hw : w.replies with
  | .handle k :: rest =>
    rw [hw] at h
    exact if_pos (not_not.mp h)
  | .failure e :: rest =>
    rw [hw] at h
    exact if_pos (not_not.mp h)
  | .success :: _ | .address _ :: _ | [] => rfl

/-- A new handle whose mode is never set keeps the caller. -/
theorem opening_unsettled (hnone : s.handle = none) {h : Handle}
    (hreplies : w.replies = .handle h :: rest) (hrest : ¬Settles rest) :
    opening w s = .pending := by
  unfold opening
  rw [if_neg (not_not.mpr hnone), hreplies]
  simp only
  split_ifs with hfresh
  · rfl
  · match rest with
    | .success :: _ => exact absurd trivial hrest
    | .failure e :: _ => exact if_pos (not_not.mp hrest)
    | .handle _ :: _ | .address _ :: _ | [] => rfl

/-- The process when `::socket` has returned a handle and the object has it. -/
def given (w : Process) (self : SocketId) (s : Socket) (h : Handle) (rest : List NativeReply) :
    Process :=
  placed { w with replies := rest, opened := w.opened ++ [h] } self { s with handle := some h }

/-- With a new handle, `init_socket` sets the blocking mode. -/
theorem initSocket_given (hs : w.sockets self = some s) (hnone : s.handle = none) {h : Handle}
    (hreplies : w.replies = .handle h :: rest) (hfresh : h ∉ w.opened) :
    (initSocket self).run w =
      match (setBlocking self s.blocking).run (given w self s h rest) with
      | .ok state v => (enforce (state = .done) "Enforcement failed." : ProcessM Unit).run v
      | .error e v => .error e v := by
  have hopen : ¬s.handle ≠ none := not_not.mpr hnone
  have hgive := modifySocket_run (w := { w with replies := rest, opened := w.opened ++ [h] })
    (show _ = some s from hs) fun s => { s with handle := some h }
  simp only [initSocket, EStateM.run_bind, socketAt_run hs, if_neg hopen,
    openNative_handle hreplies hfresh, hgive, given]
  generalize (setBlocking self s.blocking).run _ = r
  cases r <;> rfl

/-- Without one, it throws what `::socket` has failed with. -/
theorem initSocket_unopened (hs : w.sockets self = some s) (hnone : s.handle = none)
    {e : SocketError} (hreplies : w.replies = .failure e :: rest) (he : e ≠ .none) :
    (initSocket self).run w =
      .error (.thrown (.socketException "::socket failed" e))
        (placed { w with replies := rest, lastError := e } self { s with nativeError := e }) := by
  have hopen : ¬s.handle ≠ none := not_not.mpr hnone
  have hstore := getErrorInst_run (w := { w with replies := rest, lastError := e })
    (show _ = some s from hs)
  simp only [initSocket, EStateM.run_bind, socketAt_run hs, if_neg hopen,
    openNative_failure hreplies he, hstore]
  rfl

/-- A call of `::socket` that does not return keeps the caller. -/
theorem initSocket_pending (hs : w.sockets self = some s) (hnone : s.handle = none)
    (h : ¬Yields w) : (initSocket self).run w = .error .pending w := by
  have hopen : ¬s.handle ≠ none := not_not.mpr hnone
  simp only [initSocket, EStateM.run_bind, socketAt_run hs, if_neg hopen, openNative_pending h]

/-- An object that has a handle keeps it. -/
theorem initSocket_open (hs : w.sockets self = some s) (hopen : s.handle ≠ none) :
    (initSocket self).run w = .ok () w := by
  simp only [initSocket, EStateM.run_bind, socketAt_run hs, if_pos hopen]
  rfl

theorem withHandle_self {k : Handle} (hk : s.handle = some k) :
    withHandle s k s.nativeError = s := by
  cases s
  simp_all [withHandle]

/-- On a new handle `ioctlsocket` decides. -/
theorem initSocket_given_opens (hs : w.sockets self = some s) (hnone : s.handle = none)
    {h : Handle} (hreplies : w.replies = .handle h :: rest) (hfresh : h ∉ w.opened) :
    Opens self s (opening w s) ((initSocket self).run w) := by
  have hrun := initSocket_given hs hnone hreplies hfresh
  have hself := placed_sockets_self { w with replies := rest, opened := w.opened ++ [h] } self
    { s with handle := some h }
  have hsome : ({ s with handle := some h } : Socket).handle ≠ none := Option.some_ne_none h
  rcases settles_cases rest with ⟨rest', hrest⟩ | ⟨e, rest', hrest, he⟩ | hpending
  · obtain ⟨v, hmode, hv⟩ := setBlocking_success (w := given w self s h rest) hself hsome
      s.blocking hrest
    have hopening : opening w s = .ready rest' := by simp [opening, hnone, hreplies, hfresh, hrest]
    rw [hrun, hmode, hopening]
    exact .ready (.inl hnone) hv
  · obtain ⟨v, hmode, hv⟩ := setBlocking_failure (w := given w self s h rest) hself hsome
      s.blocking hrest he
    rw [hrun, hmode]
    -- the check looks at the state, not at the result of `ioctlsocket`
    by_cases hdone : toState e = .done
    · have hopening : opening w s = .ready rest' := by
        simp [opening, hnone, hreplies, hfresh, hrest, he, hdone]
      simp only [enforce_of_pos hdone, hopening]
      exact .ready (.inl hnone) hv
    · have hopening : opening w s = .unprepared := by
        simp [opening, hnone, hreplies, hfresh, hrest, he, hdone]
      simp only [enforce_of_neg hdone, hopening]
      exact .unprepared hnone hv
  · obtain ⟨v, hmode⟩ := setBlocking_pending (w := given w self s h rest) hself hsome
      s.blocking hpending
    rw [hrun, hmode, opening_unsettled hnone hreplies hpending]
    exact .pending

/-- Every run of `init_socket` ends where the native results say. -/
theorem initSocket_opens (hs : w.sockets self = some s) :
    Opens self s (opening w s) ((initSocket self).run w) := by
  cases hhandle : s.handle with
  | some k =>
    have hopen : s.handle ≠ none := by simp [hhandle]
    rw [initSocket_open hs hopen, opening, if_pos hopen]
    exact .ready (k := k) (e := s.nativeError) (.inr hhandle)
      ⟨hs.trans (congrArg some (withHandle_self hhandle).symm), rfl⟩
  | none =>
    rcases yields_cases w with ⟨h, rest, hreplies, hfresh⟩ | ⟨e, rest, hreplies, he⟩ | hpending
    · exact initSocket_given_opens hs hhandle hreplies hfresh
    · have hopening : opening w s = .unopened := by simp [opening, hhandle, hreplies, he]
      rw [initSocket_unopened hs hhandle hreplies he, hopening]
      exact .unopened (holds_placed rfl)
    · rw [initSocket_pending hs hhandle hpending, opening_pending hhandle hpending]
      exact .pending

end Runs

/-! ## What a caller sees -/

section Access

variable {P Q : Process → Prop} {self : SocketId}

/-- Access to an object that is alive; there is no other. -/
theorem ensures_socketAt :
    Ensures P (socketAt self) (fun s w => P w ∧ w.sockets self = some s)
      (fun e _ => ¬Caught e) := by
  refine Ensures.of_eq fun w hw => ?_
  cases hs : w.sockets self with
  | none => exact Ensures.of_error (socketAt_none hs) (not_caught_undefined _)
  | some s => exact Ensures.of_ok (socketAt_run hs) ⟨hw, hs⟩

/-- What no caller catches needs no postcondition. -/
theorem ensures_uncaught {α : Type} {m : ProcessM α} {Q : α → Process → Prop}
    {R : Process → Prop} (h : Ensures P m Q (fun e _ => ¬Caught e)) :
    Ensures P m Q (fun e w => Caught e → R w) :=
  h.weaken (fun _ hw => hw) (fun _ _ hw => hw) (fun _ _ hnot hcaught => absurd hcaught hnot)

/-- A change of an object that is alive leads to what it was meant for. -/
theorem ensures_modifySocket {f : Socket → Socket}
    (h : ∀ w s, P w → w.sockets self = some s → Q (w.placed self (f s))) :
    Ensures P (modifySocket self f) (fun _ => Q) (fun e _ => ¬Caught e) :=
  Ensures.bind ensures_socketAt fun s => Ensures.modify fun w hw => h w s hw.1 hw.2

/-- A native call returns, or does not; it throws nothing. -/
theorem callNative_ends :
    Ensures (fun _ => True) callNative (fun _ _ => True) (fun e _ => ¬Caught e) := by
  refine Ensures.of_eq fun w _ => ?_
  rcases settles_cases w.replies with ⟨rest, hreplies⟩ | ⟨e, rest, hreplies, he⟩ | hpending
  · exact Ensures.of_ok (callNative_success hreplies) trivial
  · exact Ensures.of_ok (callNative_failure hreplies he) trivial
  · exact Ensures.of_error (callNative_pending hpending) not_caught_pending

/-- `close` throws nothing. -/
theorem close_ends :
    Ensures (fun _ => True) (close self) (fun _ _ => True) (fun e _ => ¬Caught e) := by
  have hmodify : ∀ f : Socket → Socket,
      Ensures (fun _ => True) (modifySocket self f) (fun _ _ => True) (fun e _ => ¬Caught e) :=
    fun f => ensures_modifySocket fun _ _ _ _ => trivial
  have hsocketAt : Ensures (fun _ => True) (socketAt self) (fun _ _ => True)
      (fun e _ => ¬Caught e) :=
    ensures_socketAt.weaken (fun _ h => h) (fun _ _ _ => trivial) (fun _ _ h => h)
  refine Ensures.bind hsocketAt fun s => ?_
  cases s.handle with
  | none => exact hmodify _
  | some k =>
    refine Ensures.bind callNative_ends fun _ => ?_
    refine Ensures.bind (Q := fun _ _ => True) ?_ fun _ => ?_
    · exact Ensures.bind (Q := fun _ _ => True) (Ensures.modify fun _ _ => trivial) fun _ =>
        callNative_ends
    · exact Ensures.bind (hmodify _) fun _ => hmodify _

end Access

/-! ## Names -/

/-- The two programs that ask for an address differ in where they put it. -/
def updateName (inet : InetText) (self : SocketId) (put : Address → Socket → Socket) :
    ProcessM Unit := do
  match ← nameNative with
  | none => pure ()
  | some a =>
    let address ← liftExcept (Address.fromNative inet a)
    modifySocket self (put address)

def withLocal (a : Address) (s : Socket) : Socket := { s with localAddress := a }

def withRemote (a : Address) (s : Socket) : Socket := { s with remoteAddress := a }

/-- The local address comes first. -/
theorem updateAddresses_eq (inet : InetText) (self : SocketId) :
    updateAddresses inet self = (do
      updateName inet self withLocal
      updateName inet self withRemote) := rfl

end Sws.Process
