import Sws.Socket.Connection
import Sws.Socket.SpanTransfer

/-!
# Raw Bytes over a Connection

Two programs that send each other bytes over one TCP connection, with `send` and `receive` of
buffers and with `send_all` and `receive_all`, in any order and in buffers of any sizes, with any
results of the native calls.

## Model

- Bytes are on their way, arrive and are taken as in a `Connection`.
- The history of a link says what its programs know: what was sent and received according to what
  the calls have returned.  A `send_all` or `receive_all` that has not returned `true` leaves a
  program in doubt, since it does not tell how far it has come.

## Key Results

- `sendAll_adds`, `receiveAll_takes`, …: what one call does to the stream.
- `carried`: what a program has received, whatever the calls return.
- `exists_received`: any cut of the bytes can be received, one `receive_all` for each buffer.
-/

namespace Sws.TcpSocket

open Sws.Foundation
open Socket (Side Endpoint)

/-! ## Links -/

structure Link where
  endpoint : Side → Endpoint
  /-- The bytes of a side that are on their way. -/
  transit : Side → List UInt8
  /-- All bytes of a side that native sends have accepted. -/
  stream : Side → List UInt8
  /-- The bytes that a side knows it has sent. -/
  sent : Side → List UInt8
  /-- A `send_all` of the side has not returned `true`. -/
  sendDoubt : Side → Bool
  /-- The bytes that a side knows it has received. -/
  received : Side → List UInt8
  /-- A `receive_all` of the side has not returned `true`. -/
  receiveDoubt : Side → Bool

/-- What a program can do.  It receives into a buffer of its own. -/
inductive LinkAction
  | send (data : List UInt8) (results : List NativeResult)
  | sendAll (data : List UInt8) (results : List NativeResult)
  | receive (buffer : List UInt8) (results : List NativeResult)
  | receiveAll (buffer : List UInt8) (results : List NativeResult)
  /-- Some of the bytes that the side has sent arrive. -/
  | arrive (n : ℕ)
  /-- Some other call on the thread fails. -/
  | fail (e : SocketError)
  deriving DecidableEq, Repr

/-- The size of the buffer is an `int`. -/
def LinkAction.Sized : LinkAction → Prop
  | .send buffer _ | .sendAll buffer _ | .receive buffer _ | .receiveAll buffer _ =>
    buffer.length < 2 ^ 31
  | .arrive _ | .fail _ => True

/-- The call has returned `true`. -/
def completes : EStateM.Result Fault Exchange Bool → Bool
  | .ok b _ => b
  | .error _ _ => false

/-- The bytes that a call tells of; none if it has failed or has not returned. -/
def countOf : EStateM.Result Fault Exchange Int → ℕ
  | .ok count _ => count.toNat
  | .error _ _ => 0

/-- The exchange of a call that sends a buffer. -/
def sending (e : Endpoint) (data : List UInt8) (results : List NativeResult) : Exchange where
  host := e.sending e.packet results
  buffer := data

/-- The exchange of a call that receives into a buffer. -/
def receiving (e : Endpoint) (buffer : List UInt8) (results : List NativeResult) : Exchange where
  host := e.receiving results
  buffer := buffer

namespace Link

/-- A call of the side has left behind `y`, and adds to what is known to be sent. -/
def afterSend (c : Link) (s : Side) (y : Exchange) (known : List UInt8) (doubt : Bool) : Link :=
  { c with
    endpoint := Function.update c.endpoint s
      { c.endpoint s with socket := y.host.socket, lastError := y.host.net.lastError }
    transit := Function.update c.transit s (c.transit s ++ y.host.net.accepted)
    stream := Function.update c.stream s (c.stream s ++ y.host.net.accepted)
    sent := Function.update c.sent s (c.sent s ++ known)
    sendDoubt := Function.update c.sendDoubt s (c.sendDoubt s || doubt) }

/-- A call of the side has left behind `y`, and adds to what is known to be received. -/
def afterReceive (c : Link) (s : Side) (y : Exchange) (known : List UInt8) (doubt : Bool) : Link :=
  { c with
    endpoint := Function.update c.endpoint s { c.endpoint s with
      socket := y.host.socket, lastError := y.host.net.lastError, inbound := y.host.net.inbound }
    received := Function.update c.received s (c.received s ++ known)
    receiveDoubt := Function.update c.receiveDoubt s (c.receiveDoubt s || doubt) }

/-- The link after an action of one side. -/
def after (c : Link) (s : Side) : LinkAction → Link
  | .send data results =>
    let r := (sendFrom 0 data.length).run (sending (c.endpoint s) data results)
    c.afterSend s (finalState r) (data.take (countOf r)) false
  | .sendAll data results =>
    let r := (TcpSocket.sendAll data.length).run (sending (c.endpoint s) data results)
    c.afterSend s (finalState r) (if completes r then data else []) (!completes r)
  | .receive buffer results =>
    let r := (receiveTo 0 buffer.length).run (receiving (c.endpoint s) buffer results)
    c.afterReceive s (finalState r) ((finalState r).buffer.take (countOf r)) false
  | .receiveAll buffer results =>
    let r := (TcpSocket.receiveAll buffer.length).run (receiving (c.endpoint s) buffer results)
    c.afterReceive s (finalState r) (if completes r then (finalState r).buffer else [])
      (!completes r)
  | .arrive n =>
    { c with
      transit := Function.update c.transit s ((c.transit s).drop n)
      endpoint := Function.update c.endpoint s.peer { c.endpoint s.peer with
        inbound := (c.endpoint s.peer).inbound ++ (c.transit s).take n } }
  | .fail e =>
    { c with endpoint := Function.update c.endpoint s { c.endpoint s with lastError := e } }

/-- Any action of any side, in any order. -/
def Step (c : Link) (a : Side × LinkAction) (c' : Link) : Prop := a.2.Sized ∧ c' = c.after a.1 a.2

/-- A link on which nothing has been sent. -/
structure Fresh (c : Link) : Prop where
  inbound : ∀ s, (c.endpoint s).inbound = []
  transit : ∀ s, c.transit s = []
  stream : ∀ s, c.stream s = []
  sent : ∀ s, c.sent s = []
  sendDoubt : ∀ s, c.sendDoubt s = false
  received : ∀ s, c.received s = []
  receiveDoubt : ∀ s, c.receiveDoubt s = false

end Link

/-! ## One call -/

section Calls

variable {x : Exchange} {length : ℕ}

theorem completes_iff (r : EStateM.Result Fault Exchange Bool) :
    completes r = true ↔ ∃ y, r = .ok true y := by
  cases r with
  | ok b y => cases b <;> simp [completes]
  | error e y => simp [completes]

/-- `send_all` adds the start of its buffer to the stream, and all of it if it returns `true`. -/
theorem sendAll_adds (x : Exchange) :
    ∃ bytes, bytes <+: x.buffer ∧
      (finalState ((sendAll x.buffer.length).run x)).host.net.accepted =
        x.host.net.accepted ++ bytes ∧
      (completes ((sendAll x.buffer.length).run x) = true → x.buffer = bytes) := by
  obtain ⟨total, -, hsent, hdone⟩ :=
    (sendAll_exactly (Nat.le_refl x.buffer.length)).moments x.host.net.results.length
  rw [firstResults_all] at hsent hdone
  refine ⟨x.buffer.take total, List.take_prefix .., hsent.accepted_eq, fun hcompletes => ?_⟩
  rw [hdone.mp ((completes_iff _).mp hcompletes), List.take_length]

/-- `receive_all` takes the next bytes of the stream, and they are in the buffer if it returns
`true`. -/
theorem receiveAll_takes (x : Exchange) :
    ∃ bytes, x.host.net.inbound =
        bytes ++ (finalState ((receiveAll x.buffer.length).run x)).host.net.inbound ∧
      (completes ((receiveAll x.buffer.length).run x) = true →
        (finalState ((receiveAll x.buffer.length).run x)).buffer = bytes) := by
  obtain ⟨total, hle, hreceived, hdone⟩ :=
    (receiveAll_exactly (Nat.le_refl x.buffer.length)).moments x.host.net.results.length
  rw [firstResults_all] at hreceived hdone
  refine ⟨x.host.net.inbound.take total, ?_, fun hcompletes => ?_⟩
  · rw [hreceived.inbound_eq]
    exact (List.take_append_drop ..).symm
  · -- the bytes take the place of all that the buffer held
    have hall := hdone.mp ((completes_iff _).mp hcompletes)
    have hlen : (x.host.net.inbound.take total).length = x.buffer.length := by
      rw [List.length_take, Nat.min_eq_left hreceived.enough, hall]
    rw [hreceived.buffer_eq, splice_zero, hlen, List.drop_length, List.append_nil]

/-- `send` adds the bytes to the stream that it tells of. -/
theorem send_adds (x : Exchange) :
    (finalState ((sendFrom 0 x.buffer.length).run x)).host.net.accepted =
      x.host.net.accepted ++ x.buffer.take (countOf ((sendFrom 0 x.buffer.length).run x)) := by
  rw [sendFrom_run]
  rcases Socket.answers_cases (x.buffer.length : Int).toNat x.host.net.results with
    ⟨n, rest, hres, hn⟩ | ⟨e, rest, hres, he⟩ | hpending
  · rw [Socket.nativeCall_count (h := Socket.offering x.host 0 x.buffer.length) _ hres hn]
    rfl
  · rw [Socket.nativeCall_failure (h := Socket.offering x.host 0 x.buffer.length) _ hres he]
    rfl
  · rw [Socket.nativeCall_pending (h := Socket.offering x.host 0 x.buffer.length) _ hpending]
    exact (List.append_nil _).symm

/-- `receive` takes the bytes from the stream that it tells of, and puts them in the buffer. -/
theorem receive_takes (x : Exchange) :
    x.host.net.inbound =
      (finalState ((receiveTo 0 x.buffer.length).run x)).buffer.take
          (countOf ((receiveTo 0 x.buffer.length).run x)) ++
        (finalState ((receiveTo 0 x.buffer.length).run x)).host.net.inbound := by
  rw [receiveTo_run]
  rcases Socket.answers_cases (min (x.buffer.length : Int).toNat x.host.net.inbound.length)
    x.host.net.results with ⟨n, rest, hres, hn⟩ | ⟨e, rest, hres, he⟩ | hpending
  · rw [Socket.receiveBytes_count (h := requesting x.host 0 x.buffer.length) _ hres hn]
    have hlen : (x.host.net.inbound.take n).length = n := by
      rw [List.length_take]
      omega
    show x.host.net.inbound = (splice x.buffer 0 (x.host.net.inbound.take n)).take n ++
      x.host.net.inbound.drop n
    rw [splice_zero, List.take_append_of_le_length (Nat.le_of_eq hlen.symm), List.take_take,
      Nat.min_self, List.take_append_drop]
  · rw [Socket.receiveBytes_failure (h := requesting x.host 0 x.buffer.length) _ hres he]
    rfl
  · rw [Socket.receiveBytes_pending (h := requesting x.host 0 x.buffer.length) _ hpending]
    rfl

end Calls

/-! ## Whole runs -/

/-- What has come of the bytes that a side has sent: `taken` of them were taken out of the stream
by the calls of its peer. -/
structure CarriedTo (c : Link) (s : Side) (taken : List UInt8) : Prop where
  stream : taken ++ (c.endpoint s.peer).inbound ++ c.transit s = c.stream s
  /-- What a program knows it has sent is in the stream, in order. -/
  sent : (c.sent s).Sublist (c.stream s)
  sentAll : c.sendDoubt s = false → c.sent s = c.stream s
  /-- What a program knows it has received was taken out of the stream, in order. -/
  received : (c.received s.peer).Sublist taken
  receivedAll : c.receiveDoubt s.peer = false → c.received s.peer = taken

section Runs

variable {c c' c₀ : Link} {s t : Side} {taken : List UInt8} {y : Exchange}

/-- A call at a side sends `bytes`, of which it knows. -/
theorem carried_afterSend {bytes known : List UInt8} {doubt : Bool}
    (hbytes : y.host.net.accepted = bytes) (hknown : known.Sublist bytes)
    (hsure : doubt = false → known = bytes) (h : CarriedTo c s taken) :
    CarriedTo (c.afterSend t y known doubt) s taken := by
  -- the bytes that have arrived are the same at either side
  have hinbound : ∀ u, ((c.afterSend t y known doubt).endpoint u).inbound =
      (c.endpoint u).inbound := by
    intro u
    rcases eq_or_ne u t with rfl | hne
    · simp only [Link.afterSend, Function.update_self]
    · simp only [Link.afterSend, Function.update_of_ne hne]
  rcases eq_or_ne s t with rfl | hne
  · refine ⟨?_, ?_, ?_, h.received, h.receivedAll⟩
    · rw [hinbound]
      simp only [Link.afterSend, Function.update_self]
      rw [← h.stream, hbytes, List.append_assoc _ _ bytes]
    · simp only [Link.afterSend, Function.update_self, hbytes]
      exact h.sent.append hknown
    · simp only [Link.afterSend, Function.update_self, hbytes, Bool.or_eq_false_iff]
      rintro ⟨hbefore, hnow⟩
      rw [h.sentAll hbefore, hsure hnow]
  · refine ⟨?_, ?_, ?_, h.received, h.receivedAll⟩
    · rw [hinbound]
      simp only [Link.afterSend, Function.update_of_ne hne]
      exact h.stream
    · simp only [Link.afterSend, Function.update_of_ne hne]
      exact h.sent
    · simp only [Link.afterSend, Function.update_of_ne hne]
      exact h.sentAll

/-- A call at a side takes `bytes` out of the stream, of which it knows. -/
theorem carried_afterReceive {bytes known : List UInt8} {doubt : Bool}
    (hbytes : (c.endpoint t).inbound = bytes ++ y.host.net.inbound) (hknown : known.Sublist bytes)
    (hsure : doubt = false → known = bytes) (h : CarriedTo c s taken) :
    ∃ taken', CarriedTo (c.afterReceive t y known doubt) s taken' := by
  rcases eq_or_ne s.peer t with rfl | hne
  · refine ⟨taken ++ bytes, ?_, h.sent, h.sentAll, ?_, ?_⟩
    · simp only [Link.afterReceive, Function.update_self]
      rw [← h.stream, hbytes, List.append_assoc taken bytes]
    · simp only [Link.afterReceive, Function.update_self]
      exact h.received.append hknown
    · simp only [Link.afterReceive, Function.update_self, Bool.or_eq_false_iff]
      rintro ⟨hbefore, hnow⟩
      rw [h.receivedAll hbefore, hsure hnow]
  · refine ⟨taken, ?_, h.sent, h.sentAll, ?_, ?_⟩
    · simp only [Link.afterReceive, Function.update_of_ne hne]
      exact h.stream
    · simp only [Link.afterReceive, Function.update_of_ne hne]
      exact h.received
    · simp only [Link.afterReceive, Function.update_of_ne hne]
      exact h.receivedAll

/-- Bytes that arrive stay in their order. -/
theorem carried_arrive (n : ℕ) (h : CarriedTo c s taken) :
    CarriedTo (c.after t (.arrive n)) s taken := by
  refine ⟨?_, h.sent, h.sentAll, h.received, h.receivedAll⟩
  rcases eq_or_ne s t with rfl | hne
  · simp only [Link.after, Function.update_self]
    rw [← h.stream, List.append_assoc, List.append_assoc, List.append_assoc, List.take_append_drop]
  · have hpeer : s.peer ≠ t.peer := fun heq => hne (by rw [← s.peer_peer, heq, t.peer_peer])
    simp only [Link.after, Function.update_of_ne hne, Function.update_of_ne hpeer]
    exact h.stream

/-- A call whose return says whether everything was done. -/
theorem known_of_completes {b : Bool} {known bytes : List UInt8} (h : b = true → known = bytes) :
    (if b then known else []).Sublist bytes ∧
      ((!b) = false → (if b then known else []) = bytes) := by
  cases b with
  | false => exact ⟨List.nil_sublist bytes, fun h => by cases h⟩
  | true =>
    rw [if_pos rfl, h rfl]
    exact ⟨List.Sublist.refl bytes, fun _ => rfl⟩

/-- **One action** of either side. -/
theorem carried_step {a : LinkAction} (h : CarriedTo c s taken) (hstep : Link.Step c (t, a) c') :
    ∃ taken', CarriedTo c' s taken' := by
  obtain ⟨-, rfl⟩ := hstep
  cases a with
  | send data results =>
    exact ⟨taken, carried_afterSend (send_adds (sending (c.endpoint t) data results))
      (List.Sublist.refl _) (fun _ => rfl) h⟩
  | sendAll data results =>
    obtain ⟨bytes, -, hadds, hdone⟩ := sendAll_adds (sending (c.endpoint t) data results)
    have hknown := known_of_completes hdone
    exact ⟨taken, carried_afterSend hadds hknown.1 hknown.2 h⟩
  | receive buffer results =>
    exact carried_afterReceive (receive_takes (receiving (c.endpoint t) buffer results))
      (List.Sublist.refl _) (fun _ => rfl) h
  | receiveAll buffer results =>
    obtain ⟨bytes, hsplit, hdone⟩ := receiveAll_takes (receiving (c.endpoint t) buffer results)
    have hknown := known_of_completes hdone
    exact carried_afterReceive hsplit hknown.1 hknown.2 h
  | arrive n => exact ⟨taken, carried_arrive n h⟩
  | fail e =>
    refine ⟨taken, ?_, h.sent, h.sentAll, h.received, h.receivedAll⟩
    -- only the last error changes
    have hstream := h.stream
    rcases eq_or_ne s.peer t with hpeer | hne
    · rw [hpeer] at hstream ⊢
      simp only [Link.after, Function.update_self]
      exact hstream
    · simp only [Link.after, Function.update_of_ne hne]
      exact hstream

/-- What holds of the bytes of a side in every run. -/
theorem carried (hfresh : c₀.Fresh) {actions : List (Side × LinkAction)}
    (hrun : Reaches Link.Step c₀ actions c) (s : Side) : ∃ taken, CarriedTo c s taken := by
  refine hrun.invariant (P := fun c => ∃ taken, CarriedTo c s taken) ?_ ?_
  · rintro c ⟨t, a⟩ c' ⟨taken, h⟩ hstep
    exact carried_step h hstep
  · refine ⟨[], ?_, ?_, ?_, ?_, ?_⟩
    · simp only [hfresh.inbound, hfresh.transit, hfresh.stream, List.append_nil]
    · rw [hfresh.sent]
      exact List.nil_sublist _
    · intro _
      rw [hfresh.sent, hfresh.stream]
    · exact List.sublist_nil.mpr (hfresh.received _)
    · intro _
      exact hfresh.received _

/-- As long as neither program is in doubt, nothing is lost: what has been sent was received, has
arrived or is on its way. -/
theorem conserved (hfresh : c₀.Fresh) {actions : List (Side × LinkAction)}
    (hrun : Reaches Link.Step c₀ actions c) {s : Side} (hsure : c.receiveDoubt s.peer = false)
    (hsent : c.sendDoubt s = false) :
    c.received s.peer ++ (c.endpoint s.peer).inbound ++ c.transit s = c.sent s := by
  obtain ⟨taken, h⟩ := carried hfresh hrun s
  rw [h.receivedAll hsure, h.stream, h.sentAll hsent]

/-- **Raw bytes.** In every run, what a program knows it has received are bytes that its peer's
native sends have accepted, in their order.  Without a `receive_all` that has left it in doubt they
are the first ones; and if no `send_all` has left its peer in doubt either, the bytes that the peer
knows it has sent are these, those that have arrived and those on their way. -/
theorem received_inOrder (hfresh : c₀.Fresh) {actions : List (Side × LinkAction)}
    (hrun : Reaches Link.Step c₀ actions c) (s : Side) :
    (c.received s.peer).Sublist (c.stream s) ∧
      (c.receiveDoubt s.peer = false → c.received s.peer <+: c.stream s) ∧
      (c.receiveDoubt s.peer = false → c.sendDoubt s = false →
        c.received s.peer ++ (c.endpoint s.peer).inbound ++ c.transit s = c.sent s) := by
  obtain ⟨taken, h⟩ := carried hfresh hrun s
  have hpre : taken <+: c.stream s := by
    rw [← h.stream, List.append_assoc]
    exact List.prefix_append ..
  refine ⟨h.received.trans hpre.sublist, fun hsure => ?_, conserved hfresh hrun⟩
  rw [h.receivedAll hsure]
  exact hpre

end Runs

/-! ## Any cut of the bytes -/

section Cuts

variable {c c₀ : Link} {s : Side}

/-- A buffer for which enough bytes have arrived can be filled by one native call. -/
theorem receiveAll_fills (x : Exchange) (henough : x.buffer.length ≤ x.host.net.inbound.length)
    (hresults : x.host.net.results = [.count x.buffer.length]) :
    ∃ y, (receiveAll x.buffer.length).run x = .ok true y ∧
      y.host.net.inbound = x.host.net.inbound.drop x.buffer.length ∧
      y.buffer = x.host.net.inbound.take x.buffer.length := by
  have hone : ∃ k, (∀ r ∈ x.host.net.results.take k, (round r).GoesOn) ∧
      bytesOf (x.host.net.results.take k) = x.buffer.length := by
    rw [hresults]
    rcases Nat.eq_zero_or_pos x.buffer.length with hnone | hsome
    · exact ⟨0, by simp, by simp [bytesOf, hnone]⟩
    · exact ⟨1, by simpa [round_count hsome] using hsome, by simp [bytesOf, round_count hsome]⟩
  obtain ⟨y, hrun⟩ := (receiveAll_exactly (Nat.le_refl x.buffer.length)).returns_true.mpr
    ⟨hone, henough⟩
  have hreceived := receiveAll_done (Int.le_refl _) hrun
  rw [Int.toNat_natCast] at hreceived
  have hlen : (x.host.net.inbound.take x.buffer.length).length = x.buffer.length := by
    rw [List.length_take, Nat.min_eq_left henough]
  refine ⟨y, hrun, hreceived.inbound_eq, ?_⟩
  rw [hreceived.buffer_eq, splice_zero, hlen, List.drop_length, List.append_nil]

/-- The receives of a side leave what its peer knows it has sent. -/
structure SameSent (c c' : Link) : Prop where
  sent : c'.sent = c.sent
  sendDoubt : c'.sendDoubt = c.sendDoubt
  receiveDoubt : ∀ s, c'.receiveDoubt s = c.receiveDoubt s

/-- A side calls `receive_all` for each of the buffers, where the native calls fill them. -/
def receiveEach (s : Side) (buffers : List (List UInt8)) : List (Side × LinkAction) :=
  buffers.map fun b => (s, .receiveAll b [.count b.length])

/-- Buffers of any sizes can be filled, one after another, with the bytes that have arrived. -/
theorem exists_filled (buffers : List (List UInt8)) (hsized : ∀ b ∈ buffers, b.length < 2 ^ 31)
    (henough : (buffers.map List.length).sum ≤ (c.endpoint s).inbound.length) :
    ∃ c', Reaches Link.Step c (receiveEach s buffers) c' ∧ SameSent c c' ∧
      (c'.endpoint s).inbound = (c.endpoint s).inbound.drop (buffers.map List.length).sum ∧
      c'.received s = c.received s ++
        (c.endpoint s).inbound.take (buffers.map List.length).sum := by
  induction buffers generalizing c with
  | nil => exact ⟨c, .nil c, ⟨rfl, rfl, fun _ => rfl⟩, rfl, (List.append_nil _).symm⟩
  | cons b buffers ih =>
    rw [List.map_cons, List.sum_cons] at henough ⊢
    rw [List.forall_mem_cons] at hsized
    have hfirst : b.length ≤ (c.endpoint s).inbound.length := by omega
    obtain ⟨y, hrun, hleft, hbuffer⟩ :=
      receiveAll_fills (receiving (c.endpoint s) b [.count b.length]) hfirst rfl
    replace hrun : (receiveAll b.length).run (receiving (c.endpoint s) b [.count b.length]) =
      .ok true y := hrun
    have hafter : c.after s (.receiveAll b [.count b.length]) =
        c.afterReceive s y y.buffer false := by
      simp only [Link.after, hrun]
      rfl
    -- the other buffers are filled with what is left
    have hinbound : ((c.afterReceive s y y.buffer false).endpoint s).inbound =
        (c.endpoint s).inbound.drop b.length := by
      simp only [Link.afterReceive, Function.update_self]
      exact hleft
    obtain ⟨c', hreaches, hsame, hinbound', hreceived⟩ := ih hsized.2
      (by rw [hinbound, List.length_drop]; omega)
    refine ⟨c', hreaches.cons ⟨hsized.1, hafter.symm⟩,
      ⟨hsame.sent, hsame.sendDoubt, fun u => ?_⟩, ?_, ?_⟩
    · rw [hsame.receiveDoubt]
      rcases eq_or_ne u s with rfl | hne
      · simp only [Link.afterReceive, Function.update_self, Bool.or_false]
      · simp only [Link.afterReceive, Function.update_of_ne hne]
    · rw [hinbound', hinbound, List.drop_drop]
    · rw [hreceived, hinbound, List.take_add]
      simp only [Link.afterReceive, Function.update_self]
      rw [hbuffer, List.append_assoc]
      rfl

/-- **Any cut.** As long as neither program is in doubt, whatever the sizes of the buffers in which
the bytes were sent, they can be received in buffers of any other sizes: when everything has
arrived, the side can call `receive_all` for each of them, every call returns `true`, and each
buffer then holds the next bytes that were sent. -/
theorem exists_received (hfresh : c₀.Fresh) {actions : List (Side × LinkAction)}
    (hrun : Reaches Link.Step c₀ actions c) (hsent : c.sendDoubt s = false)
    (hreceived : c.receiveDoubt s.peer = false) (buffers : List (List UInt8))
    (hsized : ∀ b ∈ buffers, b.length < 2 ^ 31)
    (henough : (c.received s.peer).length + (buffers.map List.length).sum ≤
      (c.sent s).length) :
    (∃ c', Reaches Link.Step c
        ((s, .arrive (c.transit s).length) :: receiveEach s.peer buffers) c' ∧ SameSent c c' ∧
      c'.received s.peer =
        (c.sent s).take ((c.received s.peer).length + (buffers.map List.length).sum)) ∧
    ∀ before b later, buffers = before ++ b :: later →
      ∃ c₁ y, Reaches Link.Step c
          ((s, .arrive (c.transit s).length) :: receiveEach s.peer before) c₁ ∧
        (receiveAll b.length).run (receiving (c₁.endpoint s.peer) b [.count b.length]) =
          .ok true y ∧
        y.buffer = ((c.sent s).drop
          ((c.received s.peer).length + (before.map List.length).sum)).take b.length := by
  have hall := conserved hfresh hrun hreceived hsent
  rw [List.append_assoc] at hall
  -- first everything arrives
  have harrive : Link.Step c (s, .arrive (c.transit s).length)
      (c.after s (.arrive (c.transit s).length)) := ⟨trivial, rfl⟩
  have hinbound : ((c.after s (.arrive (c.transit s).length)).endpoint s.peer).inbound =
      (c.endpoint s.peer).inbound ++ c.transit s := by
    simp only [Link.after, Function.update_self, List.take_length]
  have hlen : (c.sent s).length =
      (c.received s.peer).length + ((c.endpoint s.peer).inbound ++ c.transit s).length := by
    rw [← hall, List.length_append]
  constructor
  · obtain ⟨c', hreaches, hsame, -, hfilled⟩ := exists_filled (s := s.peer) buffers hsized
      (c := c.after s (.arrive (c.transit s).length)) (by rw [hinbound]; omega)
    refine ⟨c', hreaches.cons harrive, ⟨hsame.sent, hsame.sendDoubt, hsame.receiveDoubt⟩, ?_⟩
    rw [hfilled, hinbound, ← hall, List.take_length_add_append]
    rfl
  · rintro before b later rfl
    rw [List.map_append, List.sum_append, List.map_cons, List.sum_cons] at henough
    have hbefore : ∀ a ∈ before, a.length < 2 ^ 31 :=
      fun a ha => hsized a (List.mem_append_left _ ha)
    obtain ⟨c₁, hreaches, -, hleft, -⟩ := exists_filled (s := s.peer) before hbefore
      (c := c.after s (.arrive (c.transit s).length)) (by rw [hinbound]; omega)
    rw [hinbound] at hleft
    -- what is left of the bytes that have arrived begins where this buffer does
    have hroom : b.length ≤ (c₁.endpoint s.peer).inbound.length := by
      rw [hleft, List.length_drop]
      omega
    obtain ⟨y, hrun, -, hbuffer⟩ :=
      receiveAll_fills (receiving (c₁.endpoint s.peer) b [.count b.length]) hroom rfl
    refine ⟨c₁, y, hreaches.cons harrive, hrun, hbuffer.trans ?_⟩
    show (c₁.endpoint s.peer).inbound.take b.length = _
    rw [hleft, ← hall, ← List.drop_drop, List.drop_left]

end Cuts

/-! ## A run -/

/-- Two connected sockets. -/
def connected : Link where
  endpoint _ := { socket := { protocol := .tcp }, packet := Packet.fresh }
  transit _ := []
  stream _ := []
  sent _ := []
  sendDoubt _ := false
  received _ := []
  receiveDoubt _ := false

theorem fresh_connected : connected.Fresh :=
  ⟨fun _ => rfl, fun _ => rfl, fun _ => rfl, fun _ => rfl, fun _ => rfl, fun _ => rfl, fun _ => rfl⟩

/-- Three bytes are sent, in two parts with a wait in between; two of them arrive, and one is
received. -/
def threeSent : List (Side × LinkAction) :=
  [(.client, .sendAll [1, 2, 3] [.count 1, .failure .wouldBlock, .count 2]),
    (.client, .arrive 2), (.server, .receiveAll [0] [.count 1])]

theorem reaches_threeSent :
    ∃ c, Reaches Link.Step connected threeSent c ∧ c.sent .client = [1, 2, 3] ∧
      c.sendDoubt .client = false ∧ c.received .server = [1] ∧ c.receiveDoubt .server = false := by
  have hreaches : Reaches Link.Step connected threeSent _ :=
    .snoc (.snoc (.snoc (.nil connected)
      (show Link.Step _ (.client, .sendAll [1, 2, 3] _) _ from ⟨by simp [LinkAction.Sized], rfl⟩))
      (show Link.Step _ (.client, .arrive 2) _ from ⟨trivial, rfl⟩))
      (show Link.Step _ (.server, .receiveAll [0] _) _ from ⟨by simp [LinkAction.Sized], rfl⟩)
  exact ⟨_, hreaches, rfl, rfl, rfl, rfl⟩

theorem received_inOrder_threeSent :
    ∃ c, Reaches Link.Step connected threeSent c ∧ c.received .server = [1] ∧
      c.received .server ++ (c.endpoint .server).inbound ++ c.transit .client = [1, 2, 3] := by
  obtain ⟨c, hreaches, hsent, hsure, hreceived, hsure'⟩ := reaches_threeSent
  refine ⟨c, hreaches, hreceived, ?_⟩
  rw [← hsent]
  exact (received_inOrder fresh_connected hreaches .client).2.2 hsure' hsure

/-- The other two bytes can be received in one buffer. -/
theorem exists_received_threeSent :
    ∃ c c' y, Reaches Link.Step connected threeSent c ∧
      Reaches Link.Step c [(.client, .arrive (c.transit .client).length)] c' ∧
      (receiveAll 2).run (receiving (c'.endpoint .server) [0, 0] [.count 2]) = .ok true y ∧
      y.buffer = [2, 3] := by
  obtain ⟨c, hreaches, hsent, hsure, hreceived, hsure'⟩ := reaches_threeSent
  obtain ⟨c', y, harrive, hrun, hbuffer⟩ :=
    (exists_received fresh_connected hreaches hsure hsure' [[0, 0]] (by decide)
      (by rw [hsent, Side.peer, hreceived]; decide)).2 [] [0, 0] [] rfl
  refine ⟨c, c', y, hreaches, harrive, hrun, hbuffer.trans ?_⟩
  rw [hsent, Side.peer, hreceived]
  rfl

end Sws.TcpSocket
