import Sws.Process.Calls
import Sws.Process.Ending
import Sws.Socket.Datagram

/-!
# What Every Socket Object Is

The members of a socket object depend on each other: without a handle there is no connection and
no address, and only a datagram socket has a receive buffer.  Every operation keeps this, however it
ends, and so does every run.

A move takes the receive buffer along and leaves the protocol, so an object that was moved from is
still a datagram socket; it can be bound again, and has no buffer to receive into.  It is hollow,
and so is an object that is made of a hollow one by a move, until something is put into it that is
not.

## Key Results

- `allows_each`, `modes_each`: what a condition on every object allows.
- `members_step`, `members_act`: what is kept by one operation, and by one action.
- `members_of_reaches`: what is kept by every run.
- `receives_undefined_iff`: the objects that receive through a null pointer.
-/

namespace Sws.Process

open Sws.Foundation

/-! ## Conditions on every object -/

/-- Every object that is alive satisfies the condition, which may depend on its place. -/
def Each (R : SocketId → Socket → Prop) (w : Process) : Prop :=
  ∀ i s, w.sockets i = some s → R i s

section Each

variable {R Q : SocketId → Socket → Prop} {w : Process} {self : SocketId}

/-- An object is put at its place, or taken away. -/
theorem Each.put (h : Each R w) {t : Option Socket} (hself : ∀ s, t = some s → Q self s)
    (hother : ∀ i s, i ≠ self → R i s → Q i s) :
    Each Q { w with sockets := Function.update w.sockets self t } := by
  intro i s hs
  replace hs : Function.update w.sockets self t i = some s := hs
  rcases eq_or_ne i self with rfl | hne
  · rw [Function.update_self] at hs
    exact hself s hs
  · rw [Function.update_of_ne hne] at hs
    exact hother i s hne (h i s hs)

theorem Each.mono (h : Each R w) (hR : ∀ i s, w.sockets i = some s → R i s → Q i s) :
    Each Q w :=
  fun i s hs => hR i s hs (h i s hs)

/-- A change of one object. -/
theorem ensures_each {f : Socket → Socket} (hself : ∀ s, R self s → Q self (f s))
    (hother : ∀ i s, i ≠ self → R i s → Q i s) :
    Ensures (Each R) (modifySocket self f) (fun _ => Each Q) (fun e _ => ¬Caught e) := by
  refine ensures_modifySocket fun w s hw hs => hw.put (fun t ht => ?_) hother
  cases ht
  exact hself s (hw self s hs)

end Each

section Allowed

variable {R : SocketId → Socket → Prop}

/-- Native results are no part of an object. -/
theorem new_each : AllowsNew (Both (Each R)) := by
  refine allowsNew_both fun w w' hsame hw i s hs => hw i s ?_
  rw [← hsame]
  exact hs

theorem allows_each {self : SocketId} {f : Socket → Socket} (hf : ∀ s, R self s → R self (f s)) :
    Allows (Both (Each R)) self f := by
  refine allows_both fun w s hw hs => hw.put (fun t ht => ?_) fun _ _ _ h => h
  cases ht
  exact hf s (hw self s hs)

/-- The condition does not look at the mode and the error of an object. -/
def ModeFree (R : SocketId → Socket → Prop) : Prop :=
  ∀ i s value e, R i s → R i (withMode s value e)

theorem modes_each (hR : ModeFree R) (self : SocketId) : AllowsModes (Both (Each R)) self :=
  { new_each.toNeutral with
    error := fun e => allows_each fun s => hR self s s.blocking e
    mode := fun value => allows_each fun s => hR self s value s.nativeError }

end Allowed

/-- The program keeps the condition, in whatever way it ends that a caller sees. -/
def Retains {α : Type} (R : SocketId → Socket → Prop) (m : ProcessM α) : Prop :=
  Ensures (Each R) m (fun _ => Each R) (fun e w => Caught e → Each R w)

/-! ## The members of an object -/

/-- An address that an object reports: none, or one that the platform has given. -/
def Reported (inet : InetText) (a : Address) : Prop :=
  a.address = "" ∨ ∃ native, Address.fromNative inet native = .ok a

/-- The members that do not depend on the handle.  What a hollow object had was moved out of it. -/
structure Members (inet : InetText) (hollow : Bool) (s : Socket) : Prop where
  protocol : s.protocol ≠ .invalid
  datagram : s.datagram = none ↔ s.protocol = .tcp ∨ hollow = true
  localAddress : Reported inet s.localAddress
  remoteAddress : Reported inet s.remoteAddress

/-- There is no connection, and no address. -/
structure Blank (s : Socket) : Prop where
  connected : s.connected = false
  localAddress : s.localAddress.address = ""
  remoteAddress : s.remoteAddress.address = ""

/-- What holds of an object between two operations. -/
structure Sound (inet : InetText) (hollow : Bool) (s : Socket) : Prop
    extends Members inet hollow s where
  blank : s.handle = none → Blank s

/-- The condition on the objects, some of which are hollow. -/
def AllSound (inet : InetText) (hollow : SocketId → Bool) (i : SocketId) (s : Socket) : Prop :=
  Sound inet (hollow i) s

/-- The same, while an operation works on an object with a handle. -/
def SoundOpen (inet : InetText) (hollow : SocketId → Bool) (self i : SocketId) (s : Socket) :
    Prop :=
  Sound inet (hollow i) s ∧ (i = self → s.handle ≠ none)

section Members

variable {inet : InetText} {hollow : SocketId → Bool} {self rhs : SocketId} {s t : Socket}
  {b : Bool}

theorem modeFree_allSound : ModeFree (AllSound inet hollow) :=
  fun _ _ _ _ h => ⟨⟨h.protocol, h.datagram, h.localAddress, h.remoteAddress⟩,
    fun hnone => ⟨(h.blank hnone).connected, (h.blank hnone).localAddress,
      (h.blank hnone).remoteAddress⟩⟩

/-- Any object may have another mode and another error. -/
theorem modes_allSound (inet : InetText) (hollow : SocketId → Bool) (self : SocketId) :
    AllowsModes (Both (Each (AllSound inet hollow))) self :=
  modes_each modeFree_allSound self

/-- The same, while an operation works on one of them. -/
theorem modes_soundOpen (inet : InetText) (hollow : SocketId → Bool) (self i : SocketId) :
    AllowsModes (Both (Each (SoundOpen inet hollow self))) i :=
  modes_each (fun i s value e h => ⟨modeFree_allSound i s value e h.1, h.2⟩) i

/-- With a handle the other members are free. -/
theorem Members.sound (h : Members inet b s) (hopen : s.handle ≠ none) : Sound inet b s :=
  ⟨h, fun hnone => absurd hnone hopen⟩

/-- Sending and receiving makes no difference. -/
theorem Sound.of_lasting (h : Sound inet b s) (ht : t.lasting = s.lasting) : Sound inet b t := by
  have hlasting : ∀ {u : Socket}, Sound inet b u ↔ Sound inet b u.lasting := by
    intro u
    have hdatagram : u.lasting.datagram = none ↔ u.datagram = none := Option.map_eq_none_iff
    constructor
    · exact fun h => ⟨⟨h.protocol, hdatagram.trans h.datagram, h.localAddress, h.remoteAddress⟩,
        fun hnone => ⟨(h.blank hnone).connected, (h.blank hnone).localAddress,
          (h.blank hnone).remoteAddress⟩⟩
    · exact fun h => ⟨⟨h.protocol, hdatagram.symm.trans h.datagram, h.localAddress,
        h.remoteAddress⟩, fun hnone => ⟨(h.blank hnone).connected, (h.blank hnone).localAddress,
          (h.blank hnone).remoteAddress⟩⟩
  rw [hlasting, ht, ← hlasting]
  exact h

theorem sound_constructed {protocol : Protocol} (h : protocol ≠ .invalid) (blocking : Bool) :
    Sound inet false (constructed protocol blocking) := by
  refine ⟨⟨h, ?_, .inl rfl, .inl rfl⟩, fun _ => ⟨rfl, rfl, rfl⟩⟩
  cases protocol with
  | invalid => exact absurd rfl h
  | tcp => simp [constructed]
  | udp => simp [constructed]

theorem sound_movedFrom (h : Sound inet b s) : Sound inet true (movedFrom s) := by
  refine ⟨⟨h.protocol, ?_, .inl rfl, .inl rfl⟩, fun _ => ⟨rfl, rfl, rfl⟩⟩
  simp [movedFrom]

/-- What is left of an object that was closed. -/
theorem Members.sound_closed (h : Members inet b s) :
    Sound inet b { s with remoteAddress := {}, localAddress := {}, connected := false } :=
  ⟨⟨h.protocol, h.datagram, .inl rfl, .inl rfl⟩, fun _ => ⟨rfl, rfl, rfl⟩⟩

/-! ## Operations -/

/-- An object with a handle may have any address that the platform gives. -/
theorem names_soundOpen (inet : InetText) (hollow : SocketId → Bool) (self : SocketId) :
    AllowsNames inet (Both (Each (SoundOpen inet hollow self))) self :=
  { modes_soundOpen inet hollow self self with
    localName := fun native _ ha => allows_each fun _ h =>
      ⟨Members.sound ⟨h.1.protocol, h.1.datagram, .inr ⟨native, ha⟩, h.1.remoteAddress⟩
        (h.2 rfl), h.2⟩
    remoteName := fun native _ ha => allows_each fun _ h =>
      ⟨Members.sound ⟨h.1.protocol, h.1.datagram, h.1.localAddress, .inr ⟨native, ha⟩⟩
        (h.2 rfl), h.2⟩ }

/-- Only an object with a handle is connected. -/
theorem connected_soundOpen (inet : InetText) (hollow : SocketId → Bool) (self : SocketId) :
    Allows (Both (Each (SoundOpen inet hollow self))) self
      fun s => { s with connected := true } :=
  allows_each fun _ h =>
    ⟨Members.sound ⟨h.1.protocol, h.1.datagram, h.1.localAddress, h.1.remoteAddress⟩ (h.2 rfl),
      h.2⟩

/-- What keeps an open object sound ends with it sound. -/
theorem retains_of_open {α : Type} {m : ProcessM α}
    (h : Keeps (Each (SoundOpen inet hollow self)) m) :
    Ensures (Each (SoundOpen inet hollow self)) m (fun _ => Each (AllSound inet hollow))
      (fun e w => Caught e → Each (AllSound inet hollow) w) :=
  (ensures_of_keeps h).weaken (fun _ h => h) (fun _ _ h => h.mono fun _ _ _ h => h.1)
    (fun _ _ h hcaught => (h hcaught).mono fun _ _ _ h => h.1)

/-- **Opening.** Behind `init_socket` the object has a handle. -/
theorem initSocket_sound :
    Ensures (Each (AllSound inet hollow)) (initSocket self)
      (fun _ => Each (SoundOpen inet hollow self))
      (fun e w => Caught e → Each (AllSound inet hollow) w) := by
  refine Ensures.bind (ensures_uncaught ensures_socketAt) fun s => ?_
  refine Ensures.ite (fun hopen => Ensures.pure fun w hw => ?_) fun _ => ?_
  · refine hw.1.mono fun i t ht h => ⟨h, fun heq => ?_⟩
    rw [heq, hw.2] at ht
    cases ht
    exact hopen
  · have hnative : Ensures (fun w => Each (AllSound inet hollow) w ∧ w.sockets self = some s)
        openNative (fun _ => Each (AllSound inet hollow))
        (fun e w => Caught e → Each (AllSound inet hollow) w) :=
      (ensures_of_keeps new_each.openNative).weaken (fun _ h => h.1) (fun _ _ h => h)
        (fun _ _ h => h)
    refine Ensures.bind hnative fun h => ?_
    cases h with
    | none =>
      -- nothing comes behind the exception
      have hstored := ensures_of_keeps (modes_allSound inet hollow self).getErrorInst
      exact Ensures.bind hstored fun _ => Ensures.throw fun _ h _ => h
    | some k =>
      refine Ensures.bind (ensures_uncaught (ensures_each (Q := SoundOpen inet hollow self)
        (fun s h => ?_) fun i s hne h => ⟨h, fun heq => absurd heq hne⟩)) fun _ => ?_
      · exact ⟨Members.sound ⟨h.protocol, h.datagram, h.localAddress, h.remoteAddress⟩
          (Option.some_ne_none k), fun _ => Option.some_ne_none k⟩
      · have hmode := ensures_of_keeps ((modes_soundOpen inet hollow self self).prepare s.blocking)
        exact hmode.weaken (fun _ h => h) (fun _ _ h => h)
          fun _ _ h hcaught => (h hcaught).mono fun _ _ _ h => h.1

/-- What `bind` and `connect` do before and after that keeps every object sound. -/
theorem attempt_sound {free : Socket → Prop} [DecidablePred free] {message : String}
    {address : Address} {link : ProcessM Unit}
    (hfree : ∀ {s s'}, LooksAlike s s' → (free s' ↔ free s))
    (hlink : Keeps (Each (SoundOpen inet hollow self)) link) :
    Retains (AllSound inet hollow) (do
      precheck inet self free message address
      initSocket self
      complete inet self address link) :=
  Ensures.bind (ensures_of_keeps (new_each.precheck hfree message)) fun _ =>
    Ensures.bind initSocket_sound fun _ =>
      retains_of_open ((names_soundOpen inet hollow self).complete hlink)

theorem bind_sound (address : Address) :
    Retains (AllSound inet hollow) (Process.bind inet self address) := by
  rw [bind_eq]
  refine attempt_sound (fun hs => ?_) (.pure _)
  rw [hs.handle_eq]

theorem connect_sound (address : Address) :
    Retains (AllSound inet hollow) (connect inet self address) := by
  rw [connect_eq]
  refine attempt_sound (fun hs => ?_)
    (new_each.modifySocket (connected_soundOpen inet hollow self))
  rw [hs.connected_eq]

theorem ensures_callNative_each {R : SocketId → Socket → Prop} :
    Ensures (Each R) callNative (fun _ => Each R) (fun e _ => ¬Caught e) :=
  ensures_of_ends new_each.callNative callNative_ends

/-- While an object is being closed, only the others have to be sound. -/
def Closing.Others (inet : InetText) (hollow : SocketId → Bool) (self i : SocketId) (s : Socket) :
    Prop :=
  Members inet (hollow i) s ∧ (i ≠ self → Sound inet (hollow i) s)

/-- **Closing** throws nothing, and leaves no connection and no address. -/
theorem close_sound :
    Ensures (Each (AllSound inet hollow)) (close self) (fun _ => Each (AllSound inet hollow))
      (fun e _ => ¬Caught e) := by
  refine Ensures.bind ensures_socketAt fun s => ?_
  cases s.handle with
  | none =>
    exact (ensures_each (fun s h => h.toMembers.sound_closed) fun _ _ _ h => h).weaken
      (fun _ h => h.1) (fun _ _ h => h) (fun _ _ h => h)
  | some k =>
    have hclose : Ensures (Each (AllSound inet hollow)) (closesocket self k)
        (fun _ => Each (AllSound inet hollow)) (fun e _ => ¬Caught e) :=
      Ensures.bind (Q := fun _ => Each (AllSound inet hollow)) (Ensures.modify fun _ h => h)
        fun _ => ensures_callNative_each
    refine Ensures.bind (ensures_callNative_each.weaken (fun _ h => h.1) (fun _ _ h => h)
      fun _ _ h => h) fun _ => Ensures.bind hclose fun _ => ?_
    refine Ensures.bind (ensures_each (Q := Closing.Others inet hollow self) (fun s h => ?_)
      fun i s _ h => ⟨h.toMembers, fun _ => h⟩) fun _ => ?_
    · exact ⟨⟨h.protocol, h.datagram, h.localAddress, h.remoteAddress⟩, fun hne => absurd rfl hne⟩
    · exact ensures_each (fun s h => h.1.sound_closed) fun _ _ hne h => h.2 hne

/-- What is moved out of an object is sound, and the object is hollow. -/
theorem moveOut_sound :
    Ensures (Each (AllSound inet hollow)) (moveOut rhs)
      (fun s w => Each (AllSound inet (Function.update hollow rhs true)) w ∧
        Sound inet (hollow rhs) s) (fun e _ => ¬Caught e) := by
  refine Ensures.bind ensures_socketAt fun s => ?_
  refine Ensures.bind (Q := fun _ w => Each (AllSound inet (Function.update hollow rhs true)) w ∧
    Sound inet (hollow rhs) s) ?_ fun _ => Ensures.pure fun _ h => h
  refine Ensures.modify fun w hw => ?_
  have hs : Sound inet (hollow rhs) s := hw.1 rhs s hw.2
  refine ⟨hw.1.put (fun t ht => ?_) fun i t hne ht => ?_, hs⟩
  · cases ht
    rw [AllSound, Function.update_self]
    exact sound_movedFrom hs
  · rw [AllSound, Function.update_of_ne hne]
    exact ht

/-- Which objects are hollow after a move from one object to another. -/
def moved (hollow : SocketId → Bool) (self rhs : SocketId) : SocketId → Bool :=
  Function.update (Function.update hollow self (hollow rhs)) rhs true

theorem moved_self (hne : rhs ≠ self) : moved hollow self rhs self = hollow rhs := by
  rw [moved, Function.update_of_ne hne.symm, Function.update_self]

theorem moved_other {i : SocketId} (hne : i ≠ self) :
    moved hollow self rhs i = Function.update hollow rhs true i := by
  rcases eq_or_ne i rhs with rfl | hrhs
  · rw [moved, Function.update_self, Function.update_self]
  · rw [moved, Function.update_of_ne hrhs, Function.update_of_ne hne, Function.update_of_ne hrhs]

theorem moveAssign_sound (hne : rhs ≠ self) :
    Ensures (Each (AllSound inet hollow)) (moveAssign self rhs)
      (fun _ => Each (AllSound inet (moved hollow self rhs))) (fun e _ => ¬Caught e) := by
  rw [moveAssign, if_pos hne]
  refine Ensures.bind close_sound fun _ => Ensures.bind moveOut_sound fun s => ?_
  refine ensures_modifySocket fun w t hw ht => hw.1.put (fun u hu => ?_) fun i u hne' hu => ?_
  · cases hu
    rw [AllSound, moved_self hne]
    exact hw.2
  · rw [AllSound, moved_other hne']
    exact hu

/-- A new object takes everything from one that is alive. -/
theorem moveConstruct_sound :
    Ensures (fun w => Each (AllSound inet hollow) w ∧ w.sockets self = none)
      (moveConstruct self rhs) (fun _ => Each (AllSound inet (moved hollow self rhs)))
      (fun e _ => ¬Caught e) := by
  refine Ensures.of_eq fun w hw => ?_
  cases hrhs : w.sockets rhs with
  | none =>
    have hrun : (moveConstruct self rhs).run w = .error (.undefined .nullPointer) w := by
      simp only [moveConstruct, moveOut, socketAt, EStateM.run_bind, EStateM.run_get, hrhs]
      rfl
    exact Ensures.of_error hrun (not_caught_undefined _)
  | some t =>
    -- the source is alive, and the new object is not yet
    have hne : rhs ≠ self := by
      rintro rfl
      rw [hw.2] at hrhs
      cases hrhs
    refine Ensures.weaken (P := Each (AllSound inet hollow)) ?_ (fun v hv => hv ▸ hw.1)
      (fun _ _ h => h) fun _ _ h => h
    refine Ensures.bind moveOut_sound fun s => Ensures.modify fun v hv => ?_
    refine hv.1.put (fun u hu => ?_) fun i u hne' hu => ?_
    · cases hu
      rw [AllSound, moved_self hne]
      exact hv.2
    · rw [AllSound, moved_other hne']
      exact hu

/-- **Accepting** makes a connected object of one that was closed. -/
theorem accept_sound {s : SocketId} :
    Retains (AllSound inet hollow) (accept inet self s) := by
  have hlistener := modes_allSound inet hollow self
  refine Ensures.bind (ensures_of_keeps new_each.openNative) fun h => ?_
  cases h with
  | none => exact ensures_of_keeps hlistener.getErrorState
  | some k =>
    refine Ensures.bind (ensures_of_keeps (keeps_socketAt new_each.toNeutral)) fun listener => ?_
    -- a connected socket has no use for the buffer of a datagram socket, hollow or not
    have htemporary : Sound inet (hollow s) (constructed .tcp listener.blocking) :=
      ⟨⟨by simp [constructed], by simp [constructed], .inl rfl, .inl rfl⟩,
        fun _ => ⟨rfl, rfl, rfl⟩⟩
    have hclear : Ensures (Each (AllSound inet hollow))
        (moveInto s (pure (constructed .tcp listener.blocking)))
        (fun _ => Each (AllSound inet hollow)) (fun e _ => ¬Caught e) := by
      refine Ensures.bind close_sound fun _ => ?_
      refine Ensures.bind (Q := fun t w => Each (AllSound inet hollow) w ∧
        Sound inet (hollow s) t) (Ensures.pure fun _ h => ⟨h, htemporary⟩) fun t => ?_
      refine ensures_modifySocket fun w u hw hu => hw.1.put (fun v hv => ?_) fun _ _ _ h => h
      cases hv
      exact hw.2
    refine Ensures.bind (ensures_uncaught hclear) fun _ => ?_
    refine Ensures.bind (ensures_uncaught (ensures_each (Q := SoundOpen inet hollow s)
      (fun t h => ?_) fun i t hne h => ⟨h, fun heq => absurd heq hne⟩)) fun _ => ?_
    · exact ⟨Members.sound ⟨h.protocol, h.datagram, h.localAddress, h.remoteAddress⟩
        (Option.some_ne_none k), fun _ => Option.some_ne_none k⟩
    exact retains_of_open ((names_soundOpen inet hollow s).adopt (connected_soundOpen inet hollow s)
      (modes_soundOpen inet hollow s self))

end Members

/-! ## Runs -/

/-- Which objects are hollow after an operation. -/
def Operation.hollows (hollow : SocketId → Bool) : Operation → SocketId → Bool
  | .construct self _ _ => Function.update hollow self false
  | .moveConstruct self rhs => moved hollow self rhs
  | .moveAssign self rhs => if rhs = self then hollow else moved hollow self rhs
  | _ => hollow

/-- Which objects are hollow after an action. -/
def Action.hollows (hollow : SocketId → Bool) : Action → SocketId → Bool
  | .operate op => op.hollows hollow
  | .transfer .. => hollow

/-- The hollow objects: those that were moved from, or constructed or assigned by a move from a
hollow object, unless something was put into them since that was not hollow. -/
def hollowAfter (actions : List Action) : SocketId → Bool :=
  actions.foldl Action.hollows fun _ => false

section Runs

variable {inet : InetText} {w₀ w w' : Process} {i : SocketId} {s : Socket} {op : Operation}
  {a : Action} {actions : List Action} {hollow : SocketId → Bool}

theorem construct_sound {self : SocketId} {protocol : Protocol} {blocking : Bool} :
    Ensures (fun w => Each (AllSound inet hollow) w ∧ w.sockets self = none)
      (construct self protocol blocking)
      (fun _ => Each (AllSound inet (Function.update hollow self false)))
      (fun e w => Caught e → Each (AllSound inet (Function.update hollow self false)) w) := by
  -- where no object is alive nothing is asked
  have hfree : ∀ w : Process, Each (AllSound inet hollow) w → w.sockets self = none →
      Each (AllSound inet (Function.update hollow self false)) w := by
    intro w hw hnone i t ht
    have hne : i ≠ self := by
      rintro rfl
      rw [hnone] at ht
      cases ht
    rw [AllSound, Function.update_of_ne hne]
    exact hw i t ht
  refine Ensures.bind (Q := fun _ w => (Each (AllSound inet hollow) w ∧ w.sockets self = none) ∧
    protocol ≠ .invalid) ?_ fun _ => ?_
  · exact Ensures.ite (fun hvalid => Ensures.pure fun _ h => ⟨h, hvalid⟩)
      fun _ => Ensures.throw fun w h _ => hfree w h.1 h.2
  · refine Ensures.modify fun w hw => hw.1.1.put (fun t ht => ?_) fun i t hne ht => ?_
    · cases ht
      rw [AllSound, Function.update_self]
      exact sound_constructed hw.2 blocking
    · rw [AllSound, Function.update_of_ne hne]
      exact ht

theorem destroy_sound {self : SocketId} : Retains (AllSound inet hollow) (destroy self) := by
  refine Ensures.bind (ensures_uncaught close_sound) fun _ => ?_
  refine Ensures.modify fun w hw => hw.put (fun t ht => ?_) fun _ _ _ h => h
  cases ht

/-- **One operation** leaves every object sound. -/
theorem members_step (h : Each (AllSound inet hollow) w) (hstep : Step inet w op w') :
    Each (AllSound inet (op.hollows hollow)) w' := by
  obtain ⟨hallowed, hleaves⟩ := hstep
  have hkeeps : ∀ {m : ProcessM Unit}, Retains (AllSound inet hollow) m → Leaves Caught m w w' →
      Each (AllSound inet hollow) w' :=
    fun hm hend => ensures_iff_leaves.mp hm w w' h hend
  have hdone : ∀ {m : ProcessM SocketState}, Retains (AllSound inet hollow) m →
      Retains (AllSound inet hollow) (do let _ ← m) :=
    fun hm => Ensures.bind hm fun _ => Ensures.pure fun _ h => h
  cases op with
  | construct self protocol blocking =>
    exact ensures_iff_leaves.mp construct_sound w w' ⟨h, hallowed⟩ hleaves
  | bind self address => exact hkeeps (hdone (bind_sound address)) hleaves
  | connect self address => exact hkeeps (hdone (connect_sound address)) hleaves
  | listen self =>
    exact hkeeps (hdone (ensures_of_keeps (modes_allSound inet hollow self).listen)) hleaves
  | setBlocking self value =>
    have hmodes := modes_allSound inet hollow self
    exact hkeeps (hdone (ensures_of_keeps (hmodes.setBlocking value))) hleaves
  | accept self s => exact hkeeps (hdone accept_sound) hleaves
  | moveConstruct self rhs =>
    exact ensures_iff_leaves.mp (ensures_uncaught moveConstruct_sound) w w' ⟨h, hallowed⟩ hleaves
  | moveAssign self rhs =>
    rw [Operation.hollows]
    split_ifs with hsame
    -- a self-assignment does nothing
    · refine hkeeps ?_ hleaves
      show Retains _ (moveAssign self rhs)
      rw [moveAssign, if_neg (not_not.mpr hsame)]
      exact Ensures.pure fun _ h => h
    · exact ensures_iff_leaves.mp (ensures_uncaught (moveAssign_sound hsame)) w w' h hleaves
  | close self => exact hkeeps (ensures_uncaught close_sound) hleaves
  | destroy self => exact hkeeps destroy_sound hleaves

/-- A transfer leaves every object sound. -/
theorem members_act (h : Each (AllSound inet hollow) w) (hact : Act inet w a w') :
    Each (AllSound inet (a.hollows hollow)) w' := by
  cases a with
  | operate op => exact members_step h hact
  | transfer self call packet buffer net =>
    obtain ⟨s, t, e, hs, ht, rfl⟩ := transfer_cases hact
    refine h.put (fun u hu => ?_) fun _ _ _ h => h
    cases hu
    exact (h self s hs).of_lasting ht

theorem each_of_reaches (hstarts : Starts w₀) (hrun : Reaches (Act inet) w₀ actions w) :
    Each (AllSound inet (hollowAfter actions)) w := by
  refine hrun.trace (P := fun actions w => Each (AllSound inet (hollowAfter actions)) w) ?_ ?_
  · intro i s hs
    rw [hstarts.1 i] at hs
    cases hs
  · intro actions v a v' hv hact
    have hafter : hollowAfter (actions ++ [a]) = a.hollows (hollowAfter actions) := by
      simp [hollowAfter, List.foldl_append]
    rw [hafter]
    exact members_act hv hact

/-- **The class invariant.** In every run of all member functions, exceptions caught, every socket
object that is alive has a protocol, has a receive buffer exactly if it is a datagram socket that is
not hollow, reports no addresses but such as the platform has given, and has no connection and no
address without a handle. -/
theorem members_of_reaches (hstarts : Starts w₀) (hrun : Reaches (Act inet) w₀ actions w) :
    ∀ i s, w.sockets i = some s → Sound inet (hollowAfter actions i) s :=
  each_of_reaches hstarts hrun

end Runs

/-! ## Receiving -/

section Receiving

open Socket (receiveDatagram receiveDatagramPacket)

/-- No behaviour is undefined. -/
def Defined (e : Fault) : Prop := ∀ u, e ≠ .undefined u

/-- The call dereferences a null pointer. -/
def Dereferences {α : Type} (r : EStateM.Result Fault Host α) : Prop :=
  ∃ h, r = .error (.undefined .nullPointer) h

/-- A socket with a buffer has it behind a native receive, too. -/
theorem receiveDatagram_defined :
    Ensures (fun h => h.socket.datagram ≠ none) receiveDatagram
      (fun received h => h.socket.datagram ≠ none ∧ -1 ≤ received ∧ received ≤ datagramSize)
      (fun e _ => Defined e) := by
  refine Ensures.of_eq fun h hbuffer => ?_
  obtain ⟨d, hd⟩ := Option.ne_none_iff_exists'.mp hbuffer
  rcases Socket.answers_cases (min datagramSize h.net.inbound.length) h.net.results with
    ⟨n, rest, hres, hn⟩ | ⟨e, rest, hres, he⟩ | hpending
  · exact Ensures.of_ok (Socket.receiveDatagram_count hd hres hn)
      ⟨by simp [Socket.afterDatagram], by omega, by omega⟩
  · exact Ensures.of_ok (Socket.receiveDatagram_failure hd hres he)
      ⟨hbuffer, by decide, by simp [datagramSize]⟩
  · exact Ensures.of_error (Socket.receiveDatagram_pending hd hpending) fun u h => by cases h

theorem receiveDatagramPacket_defined (received : Int) :
    Ensures (fun h => h.socket.datagram ≠ none ∧ -1 ≤ received ∧ received ≤ datagramSize)
      (receiveDatagramPacket received) (fun _ _ => True) (fun e _ => Defined e) := by
  refine Ensures.of_eq fun h ⟨hbuffer, hr⟩ => ?_
  obtain ⟨d, hd⟩ := Option.ne_none_iff_exists'.mp hbuffer
  rcases Classical.em (received = -1 ∨ received = 0) with hnone | hsome
  · have hrun := Socket.receiveDatagramPacket_ignored (h := h) hnone
    exact Ensures.of_ok (hrun.trans (Socket.getErrorState_run h)) trivial
  · obtain ⟨n, rfl⟩ := Int.eq_ofNat_of_zero_le (show 0 ≤ received by omega)
    rcases Classical.em (Socket.Announces d.bytes n) with hannounces | hbad
    · exact Ensures.of_ok (Socket.receiveDatagramPacket_accepted hd hannounces (by omega)) trivial
    · obtain ⟨msg, hrun⟩ := Socket.receiveDatagramPacket_rejected hsome hd hbad
      exact Ensures.of_error hrun fun u h => by cases h

theorem receiveFrom_defined (inet : InetText) :
    Ensures (fun h => h.socket.datagram ≠ none) (UdpSocket.receiveFrom inet) (fun _ _ => True)
      (fun e _ => Defined e) := by
  refine Ensures.bind receiveDatagram_defined fun received => ?_
  have hrest : ∀ address : Option Address,
      Ensures (fun h => h.socket.datagram ≠ none ∧ -1 ≤ received ∧ received ≤ datagramSize)
        (do return (← receiveDatagramPacket received, address)) (fun _ _ => True)
        (fun e _ => Defined e) :=
    fun address => Ensures.bind (receiveDatagramPacket_defined received) fun _ =>
      Ensures.pure fun _ _ => trivial
  refine Ensures.ite (fun _ => Ensures.bind (Ensures.pure fun _ h => h) hrest) fun _ => ?_
  refine Ensures.bind (Q := fun _ h => h.socket.datagram ≠ none ∧ -1 ≤ received ∧
    received ≤ datagramSize) (Ensures.get fun _ h => h) fun h => Ensures.bind ?_ hrest
  cases Address.fromNative inet h.net.source with
  | ok a => exact Ensures.pure fun _ h => h
  | error e => exact Ensures.throw fun _ _ u h => by cases h

variable {h : Host}

/-- A program that is defined with a buffer, and needs one, dereferences null without. -/
theorem dereferences_iff {α : Type} {m : HostM α}
    (hdefined : Ensures (fun h => h.socket.datagram ≠ none) m (fun _ _ => True)
      (fun e _ => Defined e))
    (hnull : h.socket.datagram = none → m.run h = .error (.undefined .nullPointer) h) :
    Dereferences (m.run h) ↔ h.socket.datagram = none := by
  constructor
  · rintro ⟨g, hrun⟩
    by_contra hbuffer
    have hend := hdefined.run h hbuffer
    have hrun' : m h = .error (.undefined .nullPointer) g := hrun
    rw [hrun'] at hend
    exact hend .nullPointer rfl
  · exact fun hnone => ⟨h, hnull hnone⟩

theorem receive_dereferences_iff (hudp : h.socket.protocol = .udp) :
    Dereferences (Socket.receive.run h) ↔ h.socket.datagram = none := by
  rw [Socket.receive_udp hudp]
  refine dereferences_iff (Ensures.bind receiveDatagram_defined receiveDatagramPacket_defined) ?_
  intro hnone
  simp only [EStateM.run_bind, Socket.receiveDatagram_null hnone]

theorem receiveFrom_dereferences_iff (inet : InetText) :
    Dereferences ((UdpSocket.receiveFrom inet).run h) ↔ h.socket.datagram = none := by
  refine dereferences_iff (receiveFrom_defined inet) fun hnone => ?_
  simp only [UdpSocket.receiveFrom, EStateM.run_bind, Socket.receiveDatagram_null hnone]

variable {inet : InetText} {w₀ w : Process} {actions : List Action} {i : SocketId} {s : Socket}

/-- **Hollow sockets.** In every run of all member functions, a datagram socket receives a packet
through a null pointer exactly if it is hollow: it was moved from, or made of a hollow one by a
move, and nothing that is not hollow was put into it since; whatever else was done with it, and
whatever the network does. -/
theorem receives_undefined_iff (hstarts : Starts w₀) (hrun : Reaches (Act inet) w₀ actions w)
    (hs : w.sockets i = some s) (hudp : s.protocol = .udp) (p : Packet) (net : Net) :
    (Dereferences (Socket.receive.run ⟨s, p, net⟩) ↔ hollowAfter actions i = true) ∧
      (Dereferences ((UdpSocket.receiveFrom inet).run ⟨s, p, net⟩) ↔
        hollowAfter actions i = true) := by
  have hmembers := (each_of_reaches hstarts hrun i s hs).datagram
  have hhollow : s.datagram = none ↔ hollowAfter actions i = true := by
    rw [hmembers, hudp]
    simp
  rw [← hhollow]
  exact ⟨receive_dereferences_iff hudp, receiveFrom_dereferences_iff inet⟩

end Receiving

/-! ## An object that is used again -/

/-- The native results of a `bind`. -/
def reused : Process where
  replies := [.handle 1, .success, .success, .address (.inet 20480 [127, 0, 0, 1]),
    .failure .notConnected]

/-- A datagram socket is moved from, then bound, and then asked to send an empty packet. -/
def reusing : List Action :=
  [.operate (.construct 0 .udp true), .operate (.moveConstruct 1 0),
    .operate (.bind 0 ⟨"127.0.0.1", 80, .inet⟩), .transfer 0 .send Packet.fresh [] {}]

theorem reaches_reused :
    ∃ w s, Reaches (Act .loopback) reused reusing w ∧ w.sockets 0 = some s ∧
      s.handle = some 1 ∧ s.protocol = .udp := by
  have hreaches : Reaches (Act .loopback) reused reusing _ :=
    .snoc (.snoc (.snoc (.snoc (.nil reused)
      (show Act .loopback _ (.operate (.construct 0 .udp true)) _ from ⟨rfl, rfl⟩))
      (show Act .loopback _ (.operate (.moveConstruct 1 0)) _ from ⟨rfl, rfl⟩))
      (show Act .loopback _ (.operate (.bind 0 ⟨"127.0.0.1", 80, .inet⟩)) _ from ⟨trivial, rfl⟩))
      (show Act .loopback _ (.transfer 0 .send Packet.fresh [] {}) _ from ⟨_, _, rfl, rfl, rfl⟩)
  exact ⟨_, _, hreaches, rfl, rfl, rfl⟩

theorem starts_reused : Starts reused := ⟨fun _ => rfl, rfl, rfl⟩

theorem members_of_reaches_reused :
    ∃ s, Sound .loopback true s ∧ s.handle = some 1 ∧ s.protocol = .udp := by
  obtain ⟨w, s, hreaches, hs, hhandle, hudp⟩ := reaches_reused
  exact ⟨s, members_of_reaches starts_reused hreaches 0 s hs, hhandle, hudp⟩

/-- The socket is open, and cannot receive. -/
theorem receives_undefined_iff_reused :
    ∃ s : Socket, s.handle = some 1 ∧
      Dereferences (Socket.receive.run ⟨s, Packet.fresh, {}⟩) := by
  obtain ⟨w, s, hreaches, hs, hhandle, hudp⟩ := reaches_reused
  have hundefined := receives_undefined_iff starts_reused hreaches hs hudp Packet.fresh {}
  exact ⟨s, hhandle, hundefined.1.mpr rfl⟩

end Sws.Process
