import Sws.Foundation.Transition
import Sws.Process.Ending
import Sws.Process.Traversal

/-!
# Failed Attempts and Retries

A `bind` or a `connect` that fails before `::socket` has returned a handle leaves the object as it
was, and then the next attempt is made as on a fresh object.  One that fails later leaves the
handle, and a `connect` that cannot convert an address leaves the object connected.  A program that
goes through a list of candidates also gives up those that end in another state than `done`, such
as a connection that has timed out.

## Key Results

- `Harmless`: the attempts that leave the object as it was if they fail.
- `Traceless`: those that leave it as it was if they do not end in one of the given states.
- `rollsBack_iff`: these are the only ones.
- `retry_iff`: attempts that are not done can be made in turn, each as on a fresh object, exactly if
  they are traceless.
-/

namespace Sws.Process

open Sws.Foundation

/-! ## Attempts -/

/-- What an object shows of itself. -/
structure Shown where
  handle : Option Handle
  connected : Bool
  localAddress : Address
  remoteAddress : Address
  blocking : Bool
  deriving DecidableEq, Repr

def shown (s : Socket) : Shown :=
  ⟨s.handle, s.connected, s.localAddress, s.remoteAddress, s.blocking⟩

def seen (self : SocketId) (w : Process) : Option Shown := (w.sockets self).map shown

inductive Attempt
  | bind (address : Address)
  | connect (address : Address)
  | setBlocking (value : Bool)
  deriving DecidableEq, Repr

namespace Attempt

def apply (inet : InetText) (self : SocketId) : Attempt → ProcessM SocketState
  | bind address => Process.bind inet self address
  | connect address => Process.connect inet self address
  | setBlocking value => Process.setBlocking self value

/-- It throws, or returns one of the states; a mode that is not set is always a failure. -/
def FailsWith (states : SocketState → Prop) :
    Attempt → EStateM.Result Fault Process SocketState → Prop
  | _, .error e _ => Caught e
  | setBlocking _, .ok state _ => state ≠ .done
  | _, .ok state _ => states state

@[simp] theorem failsWith_error (states : SocketState → Prop) (a : Attempt) (e : Fault)
    (v : Process) : a.FailsWith states (.error e v) ↔ Caught e := by
  cases a <;> rfl

/-- It throws, or returns a state that stands for a failure. -/
def Fails (a : Attempt) : EStateM.Result Fault Process SocketState → Prop :=
  a.FailsWith (· = .error)

/-- It does not end in `done`. -/
def Misses (a : Attempt) : EStateM.Result Fault Process SocketState → Prop :=
  a.FailsWith (· ≠ .done)

end Attempt

/-- A call that ends there leaves nothing behind, if it throws or returns one of the states. -/
def Undone (states : SocketState → Prop) (s : Socket) : Ending → Prop
  | .unprepared | .unnamed => False
  -- the handle stays, unless the object had it before
  | .failed e => states (toState e) → s.handle ≠ none
  | _ => True

/-- The attempt leaves the object as it was if it throws or returns one of the states. -/
def Traceless (states : SocketState → Prop) (inet : InetText) (w : Process) (s : Socket) :
    Attempt → Prop
  | .bind address => Undone states s (ending inet w s s.handle.isNone address)
  | .connect address => Undone states s (ending inet w s (!s.connected) address)
  | .setBlocking value =>
    s.handle = none ∨ value = s.blocking ∨
      ∀ e rest, w.replies = .failure e :: rest → toState e = .done

/-- The attempt leaves the object as it was if it fails. -/
def Harmless (inet : InetText) (w : Process) (s : Socket) (a : Attempt) : Prop :=
  Traceless (· = .error) inet w s a

section RollsBack

variable {inet : InetText} {w : Process} {self : SocketId} {s t : Socket}
  {replies : List NativeReply} {states : SocketState → Prop}

theorem seen_of_holds {v : Process} (hv : Holds self t replies v) :
    seen self v = some (shown t) := by
  simp [seen, hv.object]

/-- A call that may make a change rolls back exactly where it ends undone. -/
theorem Ends.rollsBack_iff {c : Bool → Bool} {n : Ending} {m : ProcessM SocketState}
    (hs : w.sockets self = some s) (hends : Ends inet self c w s n (m.run w))
    (hchange : n ≠ .refused → s.handle = none ∨ c s.connected ≠ s.connected)
    {a : Attempt} (ha : ∀ state v, a.FailsWith states (.ok state v) ↔ states state)
    (hdone : ¬states .done) :
    RollsBack (a.FailsWith states) (seen self) m w ↔ Undone states s n := by
  have hseen : seen self w = some (shown s) := by simp [seen, hs]
  unfold RollsBack
  rw [hseen]
  generalize m.run w = r at hends ⊢
  cases hends with
  | refused => simp [Undone, hseen]
  | unopened hv => simp [Undone, seen_of_holds hv, shown]
  | unprepared hnone hv => simp [Undone, seen_of_holds hv, shown, withHandle, hnone]
  | @failed k e rest v he hk hv =>
    -- of a native failure only a new handle remains to be seen
    have hsame : shown (withHandle s k e) = shown s ↔ s.handle ≠ none := by
      rcases hk with hk | hk <;> simp [shown, withHandle, hk]
    simp [Undone, ha, seen_of_holds hv, hsame]
  | refreshed hk hready hnames hv => simp [Undone, ha, hdone]
  | stale hk hready hnames hv => simp [Undone, ha, hdone]
  | @unnamed x k e b rest v hk hv =>
    -- by then the object was opened or linked, one of which is a change
    have hdiffers : shown { linked c (withHandle s k e) with localAddress := b } ≠ shown s := by
      intro hsame
      simp only [shown, linked, withHandle, Shown.mk.injEq] at hsame
      rcases hchange (by simp) with hnone | hlinked
      · rw [hnone] at hsame
        exact absurd hsame.1 (Option.some_ne_none k)
      · exact hlinked hsame.2.1
    simp [Undone, seen_of_holds hv, hdiffers]
  | pending => simp [Undone]

theorem setBlocking_rollsBack_iff (hs : w.sockets self = some s) (value : Bool) :
    RollsBack ((Attempt.setBlocking value).FailsWith states) (seen self)
        (Process.setBlocking self value) w ↔ Traceless states inet w s (.setBlocking value) := by
  have hseen : seen self w = some (shown s) := by simp [seen, hs]
  unfold RollsBack
  rw [hseen]
  by_cases hnone : s.handle = none
  · rw [setBlocking_closed hs hnone value]
    simp [Attempt.FailsWith, Traceless, hnone]
  · rcases settles_cases w.replies with ⟨rest, hreplies⟩ | ⟨e, rest, hreplies, he⟩ | hpending
    · obtain ⟨v, hrun, hv⟩ := setBlocking_success hs hnone value hreplies
      rw [hrun]
      simp [Attempt.FailsWith, Traceless, hreplies]
    · obtain ⟨v, hrun, hv⟩ := setBlocking_failure hs hnone value hreplies he
      have hsame : shown (withMode s value e) = shown s ↔ value = s.blocking := by
        simp [shown, withMode]
      rw [hrun]
      simp [Attempt.FailsWith, Traceless, hreplies, hnone, seen_of_holds hv, hsame]
      tauto
    · obtain ⟨v, hrun⟩ := setBlocking_pending hs hnone value hpending
      have hnever : ∀ e rest, w.replies = .failure e :: rest → toState e = .done := by
        intro e rest hreplies
        rw [hreplies] at hpending
        rw [show e = .none from not_not.mp hpending]
        rfl
      rw [hrun]
      simpa [Attempt.FailsWith, Traceless] using .inr (.inr hnever)

/-- **Rolling back.** An attempt that throws or returns one of the states leaves the object as it
was exactly if it is traceless. -/
theorem rollsBack_iff (inet : InetText) (hs : w.sockets self = some s) (hdone : ¬states .done)
    (a : Attempt) :
    RollsBack (a.FailsWith states) (seen self) (a.apply inet self) w ↔
      Traceless states inet w s a := by
  cases a with
  | bind address =>
    refine (bind_ends inet hs address).rollsBack_iff hs ?_ (fun _ _ => Iff.rfl) hdone
    intro hallowed
    by_contra hopen
    rw [not_or] at hopen
    exact hallowed (ending_refused address (by simpa using Option.isSome_iff_ne_none.mpr hopen.1))
  | connect address =>
    refine (connect_ends inet hs address).rollsBack_iff hs ?_ (fun _ _ => Iff.rfl) hdone
    intro hallowed
    by_contra hlinked
    rw [not_or, not_not] at hlinked
    exact hallowed (ending_refused address (by simp [← hlinked.2]))
  | setBlocking value => exact setBlocking_rollsBack_iff hs value

end RollsBack

/-! ## Objects that resemble each other -/

/-- The object with another error and another datagram buffer. -/
def disguised (s : Socket) (e : SocketError) (d : Option Datagram) : Socket :=
  { s with nativeError := e, datagram := d }

/-- The processes differ in no more than the error and the datagram buffer of one object. -/
def Resembles (self : SocketId) (w w' : Process) : Prop :=
  ∃ s e d, w.sockets self = some s ∧ w' = w.placed self (disguised s e d)

section Resembles

variable {self : SocketId}

/-- A change that leaves such objects as much alike as they were. -/
theorem allows_resembles {f : Socket → Socket}
    (hf : ∀ s e d, ∃ e' d', f (disguised s e d) = disguised (f s) e' d') :
    Allows (Resembles self) self f := by
  rintro w _ s s' ⟨t, e, d, ht, rfl⟩ hs hs'
  obtain rfl : s = t := Option.some.inj (hs.symm.trans ht)
  obtain rfl : disguised s e d = s' := Option.some.inj ((placed_sockets_self ..).symm.trans hs')
  obtain ⟨e', d', hfs⟩ := hf s e d
  refine ⟨f s, e', d', placed_sockets_self .., ?_⟩
  rw [placed_placed, placed_placed, hfs]

theorem neutral_resembles : Neutral (Resembles self) where
  replies_eq := by
    rintro w _ ⟨s, e, d, -, rfl⟩
    rfl
  lastError_eq := by
    rintro w _ ⟨s, e, d, -, rfl⟩
    rfl
  alike := by
    rintro w _ ⟨s, e, d, hs, rfl⟩ i
    rcases eq_or_ne i self with rfl | hne
    · rw [hs, placed_sockets_self]
      exact .some ⟨rfl, rfl, rfl⟩
    · rw [placed_sockets_ne _ _ _ hne]
      cases w.sockets i with
      | none => exact .none
      | some t => exact .some (.refl t)
  native := by
    rintro w _ ⟨s, e, d, hs, rfl⟩ replies error
    exact ⟨s, e, d, hs, rfl⟩

/-- Nothing that an attempt does depends on what `Resembles` leaves out. -/
theorem attempts_resembles (inet : InetText) (self : SocketId) :
    AllowsAttempts inet (Resembles self) self :=
  { neutral_resembles with
    opened_eq := by
      rintro w _ ⟨s, e, d, -, rfl⟩
      rfl
    opens := by
      rintro w _ ⟨s, e, d, hs, rfl⟩ k
      exact ⟨s, e, d, hs, rfl⟩
    error := fun error => allows_resembles fun _ _ d => ⟨error, d, rfl⟩
    mode := fun _ => allows_resembles fun _ e d => ⟨e, d, rfl⟩
    localName := fun _ _ _ => allows_resembles fun _ e d => ⟨e, d, rfl⟩
    remoteName := fun _ _ _ => allows_resembles fun _ e d => ⟨e, d, rfl⟩
    handle := fun _ => allows_resembles fun _ e d => ⟨e, d, rfl⟩
    connected := allows_resembles fun _ e d => ⟨e, d, rfl⟩ }

theorem respects_attempt (inet : InetText) (a : Attempt) :
    Respects (Resembles self) (a.apply inet self) := by
  have hattempts := attempts_resembles inet self
  cases a with
  | bind address => exact hattempts.bind
  | connect address => exact hattempts.connect
  | setBlocking value => exact hattempts.setBlocking value

end Resembles

/-! ## Retries -/

/-- What a new object is, and one that was closed. -/
structure Closed (s : Socket) : Prop where
  handle_eq : s.handle = none
  connected_eq : s.connected = false
  localAddress_eq : s.localAddress = {}
  remoteAddress_eq : s.remoteAddress = {}

/-- The attempt ends as it would on a new object of the same protocol and mode, and with the same
result; the two objects differ in no more than the error and the datagram buffer. -/
def AsFresh (inet : InetText) (self : SocketId) (a : Attempt) (w : Process) : Prop :=
  ∀ s, w.sockets self = some s →
    EndAlike (Resembles self) (· = ·) ((a.apply inet self).run w)
      ((a.apply inet self).run (w.placed self (constructed s.protocol s.blocking)))

/-- The attempt is made, and is not done. -/
def Missed (inet : InetText) (self : SocketId) (w : Process) (a : Attempt) (w' : Process) : Prop :=
  a.Misses ((a.apply inet self).run w) ∧ w' = finalState ((a.apply inet self).run w)

/-- It is not done, and was traceless. -/
def Vain (inet : InetText) (self : SocketId) (w : Process) (a : Attempt) (w' : Process) : Prop :=
  Missed inet self w a w' ∧ ∀ s, w.sockets self = some s → Traceless (· ≠ .done) inet w s a

section Retries

variable {inet : InetText} {w w' : Process} {self : SocketId} {s t : Socket}

theorem constructed_eq_disguised (hs : Closed s) :
    constructed s.protocol s.blocking =
      disguised s .none (if s.protocol = .udp then some Datagram.zeroed else none) := by
  obtain ⟨hhandle, hconnected, hlocal, hremote⟩ := hs
  cases s
  simp_all [constructed, disguised]

/-- Every attempt on a closed object is as on a fresh one. -/
theorem asFresh_of_closed (hs : w.sockets self = some s) (hclosed : Closed s) (a : Attempt) :
    AsFresh inet self a w := by
  intro t ht
  obtain rfl : s = t := Option.some.inj (hs.symm.trans ht)
  rw [constructed_eq_disguised hclosed]
  exact (respects_attempt inet a).run _ _ ⟨s, _, _, hs, rfl⟩

/-- What an object shows tells whether it is closed. -/
theorem Closed.of_shown (hs : Closed s) (hsame : shown t = shown s) : Closed t := by
  simp only [shown, Shown.mk.injEq] at hsame
  obtain ⟨hhandle, hconnected, hlocal, hremote, -⟩ := hsame
  exact ⟨hhandle.trans hs.handle_eq, hconnected.trans hs.connected_eq,
    hlocal.trans hs.localAddress_eq, hremote.trans hs.remoteAddress_eq⟩

/-- An attempt in vain leaves a closed object closed. -/
theorem closed_of_vain {a : Attempt} (hs : w.sockets self = some s) (hclosed : Closed s)
    (hvain : Vain inet self w a w') : ∃ t, w'.sockets self = some t ∧ Closed t := by
  obtain ⟨⟨hmisses, rfl⟩, htraceless⟩ := hvain
  have hback := (rollsBack_iff inet hs (by simp) a).mpr (htraceless s hs) hmisses
  simp only [seen, hs, Option.map_some] at hback
  obtain ⟨t, ht, hshown⟩ := Option.map_eq_some_iff.mp hback
  exact ⟨t, ht, hclosed.of_shown hshown⟩

/-- The object has a handle, whichever it is. -/
def Opened (self : SocketId) (w : Process) : Prop :=
  ∃ t, w.sockets self = some t ∧ t.handle ≠ none

/-- A call that is not done leaves the object with a handle if it had one, or has left a trace. -/
theorem Ends.opened {c : Bool → Bool} {n : Ending} {r : EStateM.Result Fault Process SocketState}
    (hends : Ends inet self c w s n r) (hs : w.sockets self = some s) {a : Attempt}
    (ha : ∀ state v, a.Misses (.ok state v) ↔ state ≠ .done) (hmisses : a.Misses r)
    (hopen : s.handle ≠ none ∨ ¬Undone (· ≠ .done) s n) : Opened self (finalState r) := by
  have hhandle : ∀ k e, (withHandle s k e).handle ≠ none := fun k _ => Option.some_ne_none k
  cases hends with
  | refused => exact ⟨s, hs, hopen.resolve_right (not_not.mpr trivial)⟩
  | unopened hv => exact ⟨_, hv.object, hopen.resolve_right (not_not.mpr trivial)⟩
  | unprepared hnone hv => exact ⟨_, hv.object, hhandle _ _⟩
  | failed he hk hv => exact ⟨_, hv.object, hhandle _ _⟩
  | refreshed hk hready hnames hv => exact absurd rfl ((ha _ _).mp hmisses)
  | stale hk hready hnames hv => exact absurd rfl ((ha _ _).mp hmisses)
  | @unnamed _ k e _ _ _ _ hv => exact ⟨_, hv.object, hhandle k e⟩
  | pending => exact ((Attempt.failsWith_error _ a _ _).mp hmisses).elim

theorem setBlocking_opened (hs : w.sockets self = some s) {value : Bool}
    (hmisses : (Attempt.setBlocking value).Misses ((setBlocking self value).run w)) :
    Opened self (finalState ((setBlocking self value).run w)) := by
  by_cases hnone : s.handle = none
  · rw [setBlocking_closed hs hnone value] at hmisses
    exact absurd rfl hmisses
  · rcases settles_cases w.replies with ⟨rest, hreplies⟩ | ⟨e, rest, hreplies, he⟩ | hpending
    · obtain ⟨v, hrun, hv⟩ := setBlocking_success hs hnone value hreplies
      rw [hrun] at hmisses
      exact absurd rfl hmisses
    · obtain ⟨v, hrun, hv⟩ := setBlocking_failure hs hnone value hreplies he
      rw [hrun]
      exact ⟨_, hv.object, hnone⟩
    · obtain ⟨v, hrun⟩ := setBlocking_pending hs hnone value hpending
      rw [hrun] at hmisses
      exact hmisses.elim

/-- An attempt that is not done leaves a handle, if there was one or if it has left a trace. -/
theorem opened_of_missed {a : Attempt} (hs : w.sockets self = some s)
    (hmissed : Missed inet self w a w')
    (hopen : s.handle ≠ none ∨ ¬Traceless (· ≠ .done) inet w s a) : Opened self w' := by
  obtain ⟨hmisses, rfl⟩ := hmissed
  cases a with
  | bind address => exact (bind_ends inet hs address).opened hs (fun _ _ => Iff.rfl) hmisses hopen
  | connect address =>
    exact (connect_ends inet hs address).opened hs (fun _ _ => Iff.rfl) hmisses hopen
  | setBlocking value => exact setBlocking_opened hs hmisses

/-- With a handle the object is not bound as a fresh one is. -/
theorem not_asFresh_of_opened (hopened : Opened self w) : ¬∀ a, AsFresh inet self a w := by
  intro hfresh
  obtain ⟨t, ht, hhandle⟩ := hopened
  -- an address of no family is refused for different reasons
  have halike := hfresh (.bind {}) t ht
  have hrefused : (Process.bind inet self {}).run w =
      .error (.thrown (.logicError "Cannot bind an already initialized socket.")) w := by
    simp only [Process.bind, EStateM.run_bind, socketAt_run ht, enforce_of_neg hhandle]
    rfl
  have hinvalid : (Process.bind inet self {}).run
        (w.placed self (constructed t.protocol t.blocking)) =
      .error (.thrown (.runtimeError "invalid address family"))
        (w.placed self (constructed t.protocol t.blocking)) := by
    have hnone : (constructed t.protocol t.blocking).handle = none := rfl
    simp only [Process.bind, EStateM.run_bind, socketAt_run (placed_sockets_self ..),
      enforce_of_pos hnone]
    rfl
  simp only [Attempt.apply, hrefused, hinvalid] at halike
  cases halike

/-- Where every attempt was traceless, the object is still closed. -/
theorem closed_of_vains (hs : w.sockets self = some s) (hclosed : Closed s)
    {candidates : List Attempt} (hreaches : Reaches (Vain inet self) w candidates w') :
    ∃ t, w'.sockets self = some t ∧ Closed t := by
  refine hreaches.invariant (P := fun v => ∃ t, v.sockets self = some t ∧ Closed t) ?_
    ⟨s, hs, hclosed⟩
  intro v a v' hv hvain
  obtain ⟨t, ht, htclosed⟩ := hv
  exact closed_of_vain ht htclosed hvain

/-- After attempts that were not done none of them has left a trace, or the object has a handle. -/
theorem vain_or_opened (hs : w.sockets self = some s) (hclosed : Closed s)
    {candidates : List Attempt} (hreaches : Reaches (Missed inet self) w candidates w') :
    Reaches (Vain inet self) w candidates w' ∨ Opened self w' := by
  induction hreaches with
  | nil => exact .inl (.nil _)
  | @snoc v v' candidates a _ hmissed ih =>
    rcases ih with hvain | ⟨t, ht, hhandle⟩
    · obtain ⟨t, ht, -⟩ := closed_of_vains hs hclosed hvain
      by_cases htraceless : Traceless (· ≠ .done) inet v t a
      · have hlast : Vain inet self v a v' :=
          ⟨hmissed, fun u hu => Option.some.inj (ht.symm.trans hu) ▸ htraceless⟩
        exact .inl (hvain.snoc hlast)
      · exact .inr (opened_of_missed ht hmissed (.inr htraceless))
    -- nothing but closing takes a handle away
    · exact .inr (opened_of_missed ht hmissed (.inl hhandle))

/-- **Retrying.** An attempt that fails leaves what the object shows as it was exactly if it is
harmless; and after any attempts in turn on a closed object that were not done, every next one is as
on a fresh object exactly if none of them has left a trace. -/
theorem retry_iff (inet : InetText) (hs : w.sockets self = some s) :
    (∀ a : Attempt,
      RollsBack a.Fails (seen self) (a.apply inet self) w ↔ Harmless inet w s a) ∧
    (Closed s → ∀ candidates w', Reaches (Missed inet self) w candidates w' →
      ((∀ a, AsFresh inet self a w') ↔ Reaches (Vain inet self) w candidates w')) := by
  refine ⟨rollsBack_iff inet hs (by simp), ?_⟩
  intro hclosed candidates w' hmissed
  constructor
  · intro hfresh
    rcases vain_or_opened hs hclosed hmissed with hvain | hopened
    · exact hvain
    · exact absurd hfresh (not_asFresh_of_opened hopened)
  · intro hvain a
    obtain ⟨t, ht, htclosed⟩ := closed_of_vains hs hclosed hvain
    exact asFresh_of_closed ht htclosed a

/-- A platform that knows one address of each family. -/
def dual : InetText where
  ntop _ _ := none
  pton family text :=
    if family = .inet6 ∧ text = "::1" then .address [0, 0, 0, 0, 0, 0, 0, 0, 0, 0, 0, 0, 0, 0, 0, 1]
    else if family = .inet ∧ text = "127.0.0.1" then .address [127, 0, 0, 1]
    else .invalid

/-- The loopback addresses of the two families. -/
def loopback6 : Address := ⟨"::1", 80, .inet6⟩

def loopback4 : Address := ⟨"127.0.0.1", 80, .inet⟩

/-- A new object, where no socket of the first family can be had. -/
def noSocket : Process where
  sockets := Function.update (fun _ => none) 0 (some (constructed .tcp true))
  replies := [.failure (.other 10047), .handle 1, .success, .failure .wouldBlock]

/-- The second family is tried as on a fresh object. -/
theorem retry_iff_noSocket :
    ∃ w', Reaches (Vain dual 0) noSocket [.connect loopback6] w' ∧
      AsFresh dual 0 (.connect loopback4) w' := by
  have hmissed : Missed dual 0 noSocket (.connect loopback6)
      (finalState ((connect dual 0 loopback6).run noSocket)) := ⟨trivial, rfl⟩
  have hvain : Vain dual 0 noSocket (.connect loopback6)
      (finalState ((connect dual 0 loopback6).run noSocket)) := by
    refine ⟨hmissed, ?_⟩
    intro s hs
    cases hs
    trivial
  have hturn := (retry_iff dual rfl).2 ⟨rfl, rfl, rfl, rfl⟩ _ _
    ((Reaches.nil noSocket).snoc hmissed)
  exact ⟨_, (Reaches.nil noSocket).snoc hvain, hturn.mpr ((Reaches.nil noSocket).snoc hvain) _⟩

/-- A new object, where the address of the first family cannot be bound. -/
def notAvailable : Process where
  sockets := Function.update (fun _ => none) 0 (some (constructed .tcp true))
  replies :=
    [.handle 1, .success, .failure (.other 10049), .handle 2, .success, .success,
      .failure .notConnected, .failure .notConnected]

/-- A new object, where the connection to the first address times out. -/
def timingOut : Process where
  sockets := Function.update (fun _ => none) 0 (some (constructed .tcp true))
  replies := [.handle 1, .success, .failure .timedOut, .handle 2, .success, .failure .wouldBlock]

/-- The first attempt leaves the handle; then the next candidate is refused, or is tried with a
handle of the wrong family. -/
theorem not_retried :
    ¬RollsBack (Attempt.bind loopback6).Fails (seen 0) (Process.bind dual 0 loopback6)
        notAvailable ∧
      ¬AsFresh dual 0 (.bind loopback4)
        (finalState ((Process.bind dual 0 loopback6).run notAvailable)) ∧
      ¬AsFresh dual 0 (.connect loopback4)
        (finalState ((connect dual 0 loopback6).run timingOut)) := by
  refine ⟨?_, ?_, ?_⟩
  · refine not_rollsBack rfl rfl ?_
    decide
  · intro hfresh
    have halike := hfresh _ rfl
    cases halike
  · intro hfresh
    have halike := hfresh _ rfl
    cases halike

end Retries

end Sws.Process
