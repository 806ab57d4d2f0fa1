import Sws.Process.Spec

/-!
# Where Binding and Connecting End

A `bind` or a `connect` makes up to five native calls, and each of them can be its last.  Where it
ends is read off the native results in the order of the calls; what it has made of the object by
then follows from that.

## Key Results

- `Ending`, `ending`: where a call ends.
- `Ends`: what a call that has ended there leaves behind.
- `bind_ends`, `connect_ends`: every run is one of these.
-/

namespace Sws.Process

open Sws.Foundation

/-! ## Names -/

/-- What one of the calls that ask for an address comes to. -/
inductive Naming
  | given (address : Address)
  | unconverted (e : Exception)
  | failed
  | pending
  deriving DecidableEq, Repr

def naming (inet : InetText) : List NativeReply → Naming
  | .address a :: _ =>
    match Address.fromNative inet a with
    | .ok address => .given address
    | .error e => .unconverted e
  | .failure e :: _ => if e = .none then .pending else .failed
  | _ => .pending

/-- What the two of them come to. -/
inductive Names
  | refreshed (localAddress remoteAddress : Address)
  /-- One of the calls has failed, and its address is the old one. -/
  | stale
  /-- An address could not be converted. -/
  | unnamed
  | pending
  deriving DecidableEq, Repr

def names (inet : InetText) (replies : List NativeReply) : Names :=
  match naming inet replies, naming inet replies.tail with
  | .unconverted _, _ => .unnamed
  | .pending, _ => .pending
  | .given a, .given b => .refreshed a b
  | _, .unconverted _ => .unnamed
  | _, .pending => .pending
  | _, _ => .stale

section Names

variable {inet : InetText} {w : Process} {self : SocketId} {s : Socket}
  {replies : List NativeReply}

/-- An address that was given is the conversion of a native one. -/
theorem naming_given {a : Address} (h : naming inet replies = .given a) :
    ∃ native rest, replies = .address native :: rest ∧
      Address.fromNative inet native = .ok a := by
  unfold naming at h
  split at h
  · rename_i native rest
    split at h
    · rename_i address hconvert
      cases h
      exact ⟨native, rest, rfl, hconvert⟩
    · cases h
  · split_ifs at h
  · cases h

/-- How a call that asks for an address ends. -/
inductive NameEnds (self : SocketId) (put : Address → Socket → Socket) (s : Socket)
    (rest : List NativeReply) : Naming → EStateM.Result Fault Process Unit → Prop
  | given {a : Address} {v : Process} (hv : Holds self (put a s) rest v) :
      NameEnds self put s rest (.given a) (.ok () v)
  | failed {v : Process} (hv : Holds self s rest v) : NameEnds self put s rest .failed (.ok () v)
  | unconverted {e : Exception} {v : Process} (hv : Holds self s rest v) :
      NameEnds self put s rest (.unconverted e) (.error (.thrown e) v)
  | pending {v : Process} : NameEnds self put s rest .pending (.error .pending v)

theorem nameNative_address {a : Sockaddr} {rest : List NativeReply}
    (h : w.replies = .address a :: rest) :
    nameNative.run w = .ok (some a) { w with replies := rest } := by
  simp only [nameNative, EStateM.run_bind, EStateM.run_get, h]
  rfl

theorem nameNative_failure {e : SocketError} {rest : List NativeReply}
    (h : w.replies = .failure e :: rest) (he : e ≠ .none) :
    nameNative.run w = .ok none { w with replies := rest, lastError := e } := by
  simp only [nameNative, EStateM.run_bind, EStateM.run_get, h, if_neg he]
  rfl

theorem nameNative_pending (h : naming inet w.replies = .pending) :
    nameNative.run w = .error .pending w := by
  simp only [nameNative, EStateM.run_bind, EStateM.run_get]
  unfold naming at h
  match hw : w.replies with
  | .address a :: rest =>
    simp only [hw] at h
    split at h <;> cases h
  | .failure e :: rest =>
    simp only [hw] at h
    split_ifs at h with he
    simp only [EStateM.run_bind, if_pos he]
    rfl
  | .handle _ :: _ | .success :: _ | [] => rfl

theorem naming_cases (inet : InetText) (replies : List NativeReply) :
    (∃ native rest, replies = .address native :: rest) ∨
      (∃ e rest, replies = .failure e :: rest ∧ e ≠ .none) ∨ naming inet replies = .pending := by
  match replies with
  | .address native :: rest => exact .inl ⟨native, rest, rfl⟩
  | .failure e :: rest =>
    rcases eq_or_ne e .none with he | he
    · exact .inr (.inr (if_pos he))
    · exact .inr (.inl ⟨e, rest, rfl, he⟩)
  | .handle _ :: _ | .success :: _ | [] => exact .inr (.inr rfl)

theorem updateName_ends (inet : InetText) (hw : Holds self s replies w)
    (put : Address → Socket → Socket) :
    NameEnds self put s replies.tail (naming inet replies) ((updateName inet self put).run w) := by
  obtain ⟨hs, rfl⟩ := hw
  rcases naming_cases inet w.replies with
    ⟨native, rest, hreplies⟩ | ⟨e, rest, hreplies, he⟩ | hpending
  · have hs' : ({ w with replies := rest } : Process).sockets self = some s := hs
    simp only [updateName, EStateM.run_bind, nameNative_address hreplies, hreplies, naming]
    cases hconvert : Address.fromNative inet native with
    | ok a =>
      have hput := modifySocket_run hs' (put a)
      simp only [liftExcept, EStateM.run_pure, hput]
      exact .given (holds_placed rfl)
    | error x => exact .unconverted ⟨hs', rfl⟩
  · have hnaming : naming inet w.replies = .failed := by simp [naming, hreplies, he]
    rw [hnaming]
    simp only [updateName, EStateM.run_bind, nameNative_failure hreplies he, hreplies]
    exact .failed ⟨hs, rfl⟩
  · simp only [updateName, EStateM.run_bind, nameNative_pending hpending, hpending]
    exact .pending

/-- How a run of `update_addresses` ends. -/
inductive Refreshes (self : SocketId) (s : Socket) (rest : List NativeReply) :
    Names → EStateM.Result Fault Process Unit → Prop
  | refreshed {a b : Address} {v : Process}
      (hv : Holds self { s with localAddress := a, remoteAddress := b } rest v) :
      Refreshes self s rest (.refreshed a b) (.ok () v)
  | stale {a b : Address} {v : Process}
      (hv : Holds self { s with localAddress := a, remoteAddress := b } rest v) :
      Refreshes self s rest .stale (.ok () v)
  | unnamed {e : Exception} {a : Address} {replies : List NativeReply} {v : Process}
      (hv : Holds self { s with localAddress := a } replies v) :
      Refreshes self s rest .unnamed (.error (.thrown e) v)
  | pending {v : Process} : Refreshes self s rest .pending (.error .pending v)

theorem updateAddresses_refreshes (inet : InetText) (hw : Holds self s replies w) :
    Refreshes self s replies.tail.tail (names inet replies)
        ((updateAddresses inet self).run w) := by
  have hlocal := updateName_ends inet hw withLocal
  rw [updateAddresses_eq, EStateM.run_bind, names]
  generalize (updateName inet self withLocal).run w = r at hlocal ⊢
  generalize naming inet replies = first at hlocal ⊢
  cases hlocal with
  | unconverted hv => exact .unnamed (a := s.localAddress) hv
  | pending => exact .pending
  | @given a v hv =>
    -- the remote address is asked for whether or not there is a local one
    have hremote := updateName_ends inet hv withRemote
    simp only
    generalize (updateName inet self withRemote).run v = r at hremote ⊢
    generalize naming inet replies.tail = second at hremote ⊢
    cases hremote with
    | given hv => exact .refreshed hv
    | failed hv => exact .stale hv
    | unconverted hv => exact .unnamed hv
    | pending => exact .pending
  | @failed v hv =>
    have hremote := updateName_ends inet hv withRemote
    simp only
    generalize (updateName inet self withRemote).run v = r at hremote ⊢
    generalize naming inet replies.tail = second at hremote ⊢
    cases hremote with
    | given hv => exact .stale hv
    | failed hv => exact .stale (a := s.localAddress) (b := s.remoteAddress) hv
    | unconverted hv => exact .unnamed (a := s.localAddress) hv
    | pending => exact .pending

end Names

/-! ## The native call -/

/-- Where a `bind` or a `connect` ends. -/
inductive Ending
  /-- It is refused before any native call. -/
  | refused
  /-- `::socket` has failed. -/
  | unopened
  /-- `ioctlsocket` has failed on the new handle. -/
  | unprepared
  /-- The native `bind` or `connect` has failed. -/
  | failed (e : SocketError)
  | refreshed (localAddress remoteAddress : Address)
  | stale
  | unnamed
  | pending
  deriving DecidableEq, Repr

/-- The end of a call that finds these native results when the object has its handle. -/
def completing (inet : InetText) : List NativeReply → Ending
  | .success :: rest =>
    match names inet rest with
    | .refreshed a b => .refreshed a b
    | .stale => .stale
    | .unnamed => .unnamed
    | .pending => .pending
  | .failure e :: _ => if e = .none then .pending else .failed e
  | _ => .pending

/-- Where a call ends that is allowed on some objects only. -/
def ending (inet : InetText) (w : Process) (s : Socket) (allowed : Bool) (address : Address) :
    Ending :=
  if allowed = false then .refused
  else
    match address.toNative inet with
    | .error _ => .refused
    | .ok _ =>
      match opening w s with
      | .ready replies => completing inet replies
      | .unopened => .unopened
      | .unprepared => .unprepared
      | .pending => .pending

theorem ending_refused {inet : InetText} {w : Process} {s : Socket} {allowed : Bool}
    (address : Address) (h : allowed = false) : ending inet w s allowed address = .refused :=
  if_pos h

/-- The object after the native call, which may change `connected_`. -/
def linked (c : Bool → Bool) (s : Socket) : Socket := { s with connected := c s.connected }

/-- `bind` and `connect` from the native call on. -/
def completion (inet : InetText) (self : SocketId) (c : Bool → Bool) : ProcessM SocketState := do
  if (← callNative) = false then return ← getErrorState self
  modifySocket self (linked c)
  updateAddresses inet self
  clearErrorState self

/-- The object with the addresses it has after a call that is done. -/
def named (s : Socket) (a b : Address) : Socket :=
  { s with localAddress := a, remoteAddress := b, nativeError := .none }

/-- How the rest of a call ends. -/
inductive Completes (self : SocketId) (c : Bool → Bool) (s : Socket) (replies : List NativeReply) :
    Ending → EStateM.Result Fault Process SocketState → Prop
  | failed {e : SocketError} {rest : List NativeReply} {v : Process} (he : e ≠ .none)
      (hv : Holds self { s with nativeError := e } rest v) :
      Completes self c s replies (.failed e) (.ok (toState e) v)
  | refreshed {a b : Address} {v : Process}
      (hv : Holds self (named (linked c s) a b) replies.tail.tail.tail v) :
      Completes self c s replies (.refreshed a b) (.ok .done v)
  | stale {a b : Address} {v : Process}
      (hv : Holds self (named (linked c s) a b) replies.tail.tail.tail v) :
      Completes self c s replies .stale (.ok .done v)
  | unnamed {x : Exception} {a : Address} {rest : List NativeReply} {v : Process}
      (hv : Holds self { linked c s with localAddress := a } rest v) :
      Completes self c s replies .unnamed (.error (.thrown x) v)
  | pending {v : Process} : Completes self c s replies .pending (.error .pending v)

section Completion

variable {inet : InetText} {w : Process} {self : SocketId} {s : Socket} {c : Bool → Bool}
  {replies : List NativeReply}

/-- After the native call the addresses are asked for. -/
theorem completion_success (hs : w.sockets self = some s) {rest : List NativeReply}
    (hreplies : w.replies = .success :: rest) :
    (completion inet self c).run w =
      match (updateAddresses inet self).run
        (placed { w with replies := rest } self (linked c s)) with
      | .ok _ v => (clearErrorState self).run v
      | .error e v => .error e v := by
  have hlink := modifySocket_run (w := { w with replies := rest }) (show _ = some s from hs)
    (linked c)
  simp only [completion, EStateM.run_bind, callNative_success hreplies, Bool.true_eq_false,
    if_false, hlink]
  generalize (updateAddresses inet self).run _ = r
  cases r <;> rfl

theorem completion_failure (hs : w.sockets self = some s) {e : SocketError}
    {rest : List NativeReply} (hreplies : w.replies = .failure e :: rest) (he : e ≠ .none) :
    (completion inet self c).run w = .ok (toState e)
      (placed { w with replies := rest, lastError := e } self { s with nativeError := e }) := by
  have hstore := getErrorState_run (w := { w with replies := rest, lastError := e })
    (show _ = some s from hs)
  simp only [completion, EStateM.run_bind, callNative_failure hreplies he, if_true, hstore]

theorem completion_pending (h : ¬Settles w.replies) :
    (completion inet self c).run w = .error .pending w := by
  simp only [completion, EStateM.run_bind, callNative_pending h]

theorem completing_pending (h : ¬Settles replies) : completing inet replies = .pending := by
  match replies with
  | .success :: _ => exact absurd trivial h
  | .failure e :: _ => exact if_pos (not_not.mp h)
  | .handle _ :: _ | .address _ :: _ | [] => rfl

theorem completion_completes (inet : InetText) (c : Bool → Bool) (hw : Holds self s replies w) :
    Completes self c s replies (completing inet replies) ((completion inet self c).run w) := by
  obtain ⟨hs, rfl⟩ := hw
  rcases settles_cases w.replies with ⟨rest, hreplies⟩ | ⟨e, rest, hreplies, he⟩ | hpending
  · have hlinked : Holds self (linked c s) rest
        (placed { w with replies := rest } self (linked c s)) := holds_placed rfl
    have hrefreshes := updateAddresses_refreshes inet hlinked
    rw [completion_success hs hreplies, hreplies, completing]
    generalize names inet rest = ns at hrefreshes ⊢
    generalize (updateAddresses inet self).run _ = r at hrefreshes ⊢
    cases hrefreshes with
    | @refreshed a b v hv =>
      simp only [clearErrorState_run hv.object]
      exact .refreshed (holds_placed hv.replies_eq)
    | @stale a b v hv =>
      simp only [clearErrorState_run hv.object]
      exact .stale (holds_placed hv.replies_eq)
    | unnamed hv => exact .unnamed hv
    | pending => exact .pending
  -- a failure is stored, and no address is asked for
  · have hcompleting : completing inet w.replies = .failed e := by
      simp [completing, hreplies, he]
    rw [completion_failure hs hreplies he, hcompleting]
    exact .failed he (holds_placed rfl)
  · rw [completion_pending hpending, completing_pending hpending]
    exact .pending

end Completion

/-! ## Whole calls -/

/-- How a call ends, for an object that is as `s` when it is made. -/
inductive Ends (inet : InetText) (self : SocketId) (c : Bool → Bool) (w : Process) (s : Socket) :
    Ending → EStateM.Result Fault Process SocketState → Prop
  | refused {x : Exception} : Ends inet self c w s .refused (.error (.thrown x) w)
  | unopened {x : Exception} {e : SocketError} {rest : List NativeReply} {v : Process}
      (hv : Holds self { s with nativeError := e } rest v) :
      Ends inet self c w s .unopened (.error (.thrown x) v)
  | unprepared {x : Exception} {k : Handle} {e : SocketError} {rest : List NativeReply}
      {v : Process} (hnone : s.handle = none) (hv : Holds self (withHandle s k e) rest v) :
      Ends inet self c w s .unprepared (.error (.thrown x) v)
  | failed {k : Handle} {e : SocketError} {rest : List NativeReply} {v : Process}
      (he : e ≠ .none) (hk : s.handle = none ∨ s.handle = some k)
      (hv : Holds self (withHandle s k e) rest v) :
      Ends inet self c w s (.failed e) (.ok (toState e) v)
  | refreshed {k : Handle} {e : SocketError} {a b : Address} {replies : List NativeReply}
      {v : Process} (hk : s.handle = none ∨ s.handle = some k)
      (hready : opening w s = .ready replies) (hnames : completing inet replies = .refreshed a b)
      (hv : Holds self (named (linked c (withHandle s k e)) a b) replies.tail.tail.tail v) :
      Ends inet self c w s (.refreshed a b) (.ok .done v)
  | stale {k : Handle} {e : SocketError} {a b : Address} {replies : List NativeReply}
      {v : Process} (hk : s.handle = none ∨ s.handle = some k)
      (hready : opening w s = .ready replies) (hnames : completing inet replies = .stale)
      (hv : Holds self (named (linked c (withHandle s k e)) a b) replies.tail.tail.tail v) :
      Ends inet self c w s .stale (.ok .done v)
  | unnamed {x : Exception} {k : Handle} {e : SocketError} {a : Address}
      {rest : List NativeReply} {v : Process} (hk : s.handle = none ∨ s.handle = some k)
      (hv : Holds self { linked c (withHandle s k e) with localAddress := a } rest v) :
      Ends inet self c w s .unnamed (.error (.thrown x) v)
  | pending {v : Process} : Ends inet self c w s .pending (.error .pending v)

section Calls

variable {inet : InetText} {w : Process} {self : SocketId} {s : Socket} {c : Bool → Bool}
  {address : Address}

/-- What follows the checks: the object is opened, and then the native call is made. -/
def call (inet : InetText) (self : SocketId) (c : Bool → Bool) : ProcessM SocketState := do
  initSocket self
  completion inet self c

theorem call_ends (hs : w.sockets self = some s) {native : Sockaddr}
    (hnative : address.toNative inet = .ok native) :
    Ends inet self c w s (ending inet w s true address) ((call inet self c).run w) := by
  have hopens := initSocket_opens hs
  simp only [call, EStateM.run_bind, ending, Bool.true_eq_false, if_false, hnative]
  cases hopening : opening w s with
  | ready replies =>
    rw [hopening] at hopens
    generalize (initSocket self).run w = r at hopens ⊢
    cases hopens with
    | @ready k e replies v hk hv =>
      -- the object is open, and the native call decides
      have hcompletes := completion_completes inet c hv
      simp only
      generalize hcompleting : completing inet replies = n at hcompletes ⊢
      generalize (completion inet self c).run v = r at hcompletes ⊢
      cases hcompletes with
      | failed he hv => exact .failed he hk hv
      | refreshed hv => exact .refreshed hk hopening hcompleting hv
      | stale hv => exact .stale hk hopening hcompleting hv
      | unnamed hv => exact .unnamed hk hv
      | pending => exact .pending
  | unopened =>
    rw [hopening] at hopens
    generalize (initSocket self).run w = r at hopens ⊢
    cases hopens with
    | unopened hv => exact .unopened hv
  | unprepared =>
    rw [hopening] at hopens
    generalize (initSocket self).run w = r at hopens ⊢
    cases hopens with
    | unprepared hnone hv => exact .unprepared hnone hv
  | pending =>
    rw [hopening] at hopens
    generalize (initSocket self).run w = r at hopens ⊢
    cases hopens with
    | pending => exact .pending

/-- An address that has a native form has a size. -/
theorem nativeSize_of_toNative {native : Sockaddr} (h : address.toNative inet = .ok native) :
    ∃ n, address.nativeSize = .ok n := by
  unfold Address.toNative at h
  unfold Address.nativeSize
  cases hfamily : address.family with
  | inet => exact ⟨16, rfl⟩
  | inet6 => exact ⟨28, rfl⟩
  | none =>
    rw [hfamily] at h
    cases h
  | any =>
    rw [hfamily] at h
    cases h

/-- A call that is refused has done nothing yet. -/
theorem ends_refused {m : ProcessM SocketState} {x : Exception} {allowed : Bool}
    (hrefused : ending inet w s allowed address = .refused)
    (hrun : m.run w = .error (.thrown x) w) :
    Ends inet self c w s (ending inet w s allowed address) (m.run w) := by
  rw [hrun, hrefused]
  exact .refused

/-- **Connecting.** -/
theorem connect_ends (inet : InetText) (hs : w.sockets self = some s) (address : Address) :
    Ends inet self (fun _ => true) w s (ending inet w s (!s.connected) address)
      ((connect inet self address).run w) := by
  by_cases hfree : s.connected = false
  · cases hnative : address.toNative inet with
    | error x =>
      refine ends_refused (x := x) (by simp [ending, hnative]) ?_
      simp only [connect, EStateM.run_bind, socketAt_run hs, enforce_of_pos hfree, hnative]
      rfl
    | ok native =>
      obtain ⟨n, hsize⟩ := nativeSize_of_toNative hnative
      have hrun : (connect inet self address).run w = (call inet self fun _ => true).run w := by
        simp only [connect, EStateM.run_bind, socketAt_run hs, enforce_of_pos hfree, hnative,
          hsize]
        rfl
      rw [hrun, hfree]
      exact call_ends hs hnative
  · refine ends_refused (x := .logicError "Cannot connect on already connected socket.")
      (by simp [ending, hfree]) ?_
    simp only [connect, EStateM.run_bind, socketAt_run hs, enforce_of_neg hfree]
    rfl

/-- A native `bind` changes nothing but the addresses. -/
theorem bindCompletion_run (inet : InetText) {replies : List NativeReply}
    (hw : Holds self s replies w) :
    (do
      if (← callNative) = false then return ← getErrorState self
      updateAddresses inet self
      clearErrorState self : ProcessM SocketState).run w = (completion inet self id).run w := by
  obtain ⟨hs, rfl⟩ := hw
  rcases settles_cases w.replies with ⟨rest, hreplies⟩ | ⟨e, rest, hreplies, he⟩ | hpending
  · -- to put the object back where it was changes nothing
    have hsame : placed { w with replies := rest } self (linked id s) =
        { w with replies := rest } := by
      simp only [placed, linked, id_eq, ← hs, Function.update_eq_self]
    rw [completion_success hs hreplies, hsame]
    simp only [EStateM.run_bind, callNative_success hreplies, Bool.true_eq_false, if_false]
    generalize (updateAddresses inet self).run _ = r
    cases r <;> rfl
  · rw [completion_failure hs hreplies he]
    have hstore := getErrorState_run (w := { w with replies := rest, lastError := e })
      (show _ = some s from hs)
    simp only [EStateM.run_bind, callNative_failure hreplies he, if_true, hstore]
  · rw [completion_pending hpending]
    simp only [EStateM.run_bind, callNative_pending hpending]

/-- **Binding.** -/
theorem bind_ends (inet : InetText) (hs : w.sockets self = some s) (address : Address) :
    Ends inet self id w s (ending inet w s s.handle.isNone address)
      ((Process.bind inet self address).run w) := by
  by_cases hfree : s.handle = none
  · cases hnative : address.toNative inet with
    | error x =>
      refine ends_refused (x := x) (by simp [ending, hnative]) ?_
      simp only [Process.bind, EStateM.run_bind, socketAt_run hs, enforce_of_pos hfree, hnative]
      rfl
    | ok native =>
      obtain ⟨n, hsize⟩ := nativeSize_of_toNative hnative
      have hrun : (Process.bind inet self address).run w = (call inet self id).run w := by
        -- the size of the address cannot fail where its conversion has not
        have hopens := initSocket_opens hs
        simp only [Process.bind, call, EStateM.run_bind, EStateM.run_pure, socketAt_run hs,
          enforce_of_pos hfree, hnative, hsize, liftExcept]
        generalize (initSocket self).run w = r at hopens
        generalize opening w s = o at hopens
        cases hopens with
        | ready hk hv =>
          have htail := bindCompletion_run inet hv
          simp only [EStateM.run_bind] at htail
          exact htail
        | unopened hv => rfl
        | unprepared hnone hv => rfl
        | pending => rfl
      rw [hrun, hfree]
      exact call_ends hs hnative
  · refine ends_refused (x := .logicError "Cannot bind an already initialized socket.")
      (by simp [ending, hfree]) ?_
    simp only [Process.bind, EStateM.run_bind, socketAt_run hs, enforce_of_neg hfree]
    rfl

end Calls

end Sws.Process
