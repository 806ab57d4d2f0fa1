import Sws.Foundation.Transition
import Sws.Model.Socket
import Sws.Packet.Valid

/-!
# Operations on a Packet

Everything a program can do with a packet: its member functions, being sent and received
into, moves and assignments.  Reads and writes come raw and in typed forms; a typed form is
made of raw reads and writes and its own checks, so an assertion that the raw ones keep is
kept by every form.

## Key Results

- `Stable.form`: what raw reads and writes keep, every typed form keeps.
- `Reachable.form`: the typed forms reach no packet that the raw operations do not reach.
-/

namespace Sws.Packet

open Sws.Foundation

/-! ## Raw operations -/

/-- A program of a socket, as what it does to the packet. -/
def hosted {α : Type} (socket : Socket) (net : Net) (m : HostM α) : PacketM α := fun p =>
  match m ⟨socket, p, net⟩ with
  | .ok a h => .ok a h.packet
  | .error e h => .error e h.packet

/-- The operations on a packet, reads and writes in their raw form. -/
inductive Operation
  | seek (cursor : SeekCursor) (type : SeekType) (value : Int64)
  | readData (size : ℕ) (whole : Bool)
  | writeData (bytes : List UInt8) (whole : Bool)
  | resize (size : ℕ)
  | clear
  | shrinkToFit
  /-- `Socket::send`, from a given socket and network. -/
  | send (socket : Socket) (net : Net)
  /-- `UdpSocket::send_to`. -/
  | sendTo (inet : InetText) (address : Address) (socket : Socket) (net : Net)
  /-- `Socket::receive`. -/
  | receive (socket : Socket) (net : Net)
  /-- `UdpSocket::receive_from`. -/
  | receiveFrom (inet : InetText) (socket : Socket) (net : Net)
  /-- The packet is the source of a move. -/
  | moveOut
  /-- The packet is made a copy of another, or the target of a move from it. -/
  | assign (packet : Packet)

namespace Operation

def apply : Operation → PacketM Unit
  | seek cursor type value => Packet.seek cursor type value
  | readData size whole => do let _ ← Packet.readData size whole
  | writeData bytes whole => do let _ ← Packet.writeData bytes whole
  | resize size => Packet.resize size
  | clear => Packet.clear
  | shrinkToFit => Packet.shrinkToFit
  | send socket net => do let _ ← hosted socket net Socket.send
  | sendTo inet address socket net => do
    let _ ← hosted socket net (UdpSocket.sendTo inet address)
  | receive socket net => do let _ ← hosted socket net Socket.receive
  | receiveFrom inet socket net => do let _ ← hosted socket net (UdpSocket.receiveFrom inet)
  | moveOut => modify Packet.movedFrom
  | assign packet => set packet

/-- The other packets an operation needs. -/
def operands : Operation → List Packet
  | assign packet => [packet]
  | _ => []

end Operation

/-! ## Typed forms -/

/-- The typed forms of reading and writing. -/
inductive Form
  | read (t : ScalarType)
  | extract (t : ScalarType)
  | readString (beyond : List UInt8)
  | extractString (beyond : List UInt8)
  | write (t : ScalarType) (v : t.Val)
  | insert (t : ScalarType) (v : t.Val)
  | writeString (order : EvalOrder) (s : List UInt8)
  | insertString (order : EvalOrder) (s : List UInt8)
  | writePacket (packet : Packet)
  | insertPacket (packet : Packet)
  | insertSelf

def Form.apply : Form → PacketM Unit
  | read t => do let _ ← Packet.read t
  | extract t => do let _ ← Packet.extract t
  | readString beyond => do let _ ← Packet.readString beyond
  | extractString beyond => do let _ ← Packet.extractString beyond
  | write t v => do let _ ← Packet.write t v
  | insert t v => Packet.insert t v
  | writeString order s => do let _ ← Packet.writeString order s
  | insertString order s => Packet.insertString order s
  | writePacket packet => do let _ ← Packet.writePacket packet
  | insertPacket packet => Packet.insertPacket packet
  | insertSelf => Packet.insertSelf

/-! ## Assertions that reads and writes keep -/

/-- An assertion that raw reads and writes keep, and with it what holds when one throws. -/
structure Stable (P : Packet → Prop) (E : Fault → Packet → Prop) : Prop where
  thrown : ∀ {e p}, P p → E (.thrown e) p
  outOfBounds : ∀ {p}, P p → E (.undefined .outOfBounds) p
  readData : ∀ size whole, Ensures P (Packet.readData size whole) (fun _ => P) E
  writeData : ∀ bytes whole, Ensures P (Packet.writeData bytes whole) (fun _ => P) E

namespace Stable

variable {P : Packet → Prop} {E : Fault → Packet → Prop}

theorem enforce (h : Stable P E) (c : Prop) [Decidable c] (msg : String) :
    Ensures P (Sws.enforce c msg) (fun _ => P) E :=
  (ensures_enforce fun _ hp _ => h.thrown hp).weaken (fun _ hp => hp) (fun _ _ hp => hp.1)
    (fun _ _ he => he)

/-- A program followed by one that keeps the assertion whatever the result. -/
theorem bind {α β : Type} {m : PacketM α} {f : α → PacketM β}
    (hm : Ensures P m (fun _ => P) E) (hf : ∀ a, Ensures P (f a) (fun _ => P) E) :
    Ensures P (m >>= f) (fun _ => P) E :=
  Ensures.bind hm hf

theorem pure {α : Type} (a : α) : Ensures P (Pure.pure a : PacketM α) (fun _ => P) E :=
  Ensures.pure fun _ hp => hp

/-- Values and strings are read and written by raw reads and writes. -/
theorem readEnforced (h : Stable P E) (t : ScalarType) :
    Ensures P (Packet.readEnforced t) (fun _ => P) E :=
  bind (h.readData _ _) fun _ => bind (h.enforce _ _) fun _ => pure _

theorem writeEnforced (h : Stable P E) (bytes : List UInt8) :
    Ensures P (Packet.writeEnforced bytes) (fun _ => P) E :=
  bind (h.writeData _ _) fun _ => h.enforce _ _

theorem extract (h : Stable P E) (t : ScalarType) :
    Ensures P (Packet.extract t) (fun _ => P) E := by
  cases t with
  | bool => exact bind (h.readEnforced _) fun _ => bind (h.enforce _ _) fun _ => pure _
  | char | int8 | uint8 | int16 | uint16 | int32 | uint32 | int64 | uint64 | float | double =>
    exact h.readEnforced _

theorem insert (h : Stable P E) (t : ScalarType) (v : t.Val) :
    Ensures P (Packet.insert t v) (fun _ => P) E := by
  cases t <;> exact h.writeEnforced _

theorem stringFromPointer (h : Stable P E) (memory : List UInt8) (pos count : ℕ) :
    Ensures P (Packet.stringFromPointer memory pos count) (fun _ => P) E := by
  unfold Packet.stringFromPointer
  refine Ensures.ite (fun _ => Ensures.throw fun _ hp => h.outOfBounds hp) fun _ => ?_
  exact Ensures.ite (fun _ => Ensures.throw fun _ hp => h.thrown hp) fun _ => pure _

theorem readString (h : Stable P E) (beyond : List UInt8) :
    Ensures P (Packet.readString beyond) (fun _ => P) E := by
  unfold Packet.readString
  -- the length, the characters, and the string made of them
  refine bind (h.readData _ _) fun bytes => Ensures.ite (fun _ => pure _) fun _ => ?_
  refine bind (h.enforce _ _) fun _ => bind (h.readData _ _) fun temp => ?_
  refine Ensures.ite (fun _ => pure _) fun _ => ?_
  exact bind (h.stringFromPointer _ _ _) fun _ => pure _

theorem writeString (h : Stable P E) (order : EvalOrder) (s : List UInt8) :
    Ensures P (Packet.writeString order s) (fun _ => P) E := by
  have hend : ∀ result : ℕ, Ensures P (do
      Sws.enforce (result = ScalarType.int16.size + s.length)
        "Failed to write whole string to packet."
      return result) (fun _ => P) E := fun _ => bind (h.enforce _ _) fun _ => pure _
  -- both orders make the same two writes
  cases order with
  | leftFirst =>
    exact bind (h.enforce _ _) fun _ => bind (h.writeData _ _) fun _ =>
      bind (h.writeData _ _) fun _ => bind (pure _) hend
  | rightFirst =>
    exact bind (h.enforce _ _) fun _ => bind (h.writeData _ _) fun _ =>
      bind (h.writeData _ _) fun _ => bind (pure _) hend

theorem writePacket (h : Stable P E) (packet : Packet) :
    Ensures P (Packet.writePacket packet) (fun _ => P) E := by
  unfold Packet.writePacket
  refine Ensures.ite (fun _ => pure _) fun _ => ?_
  exact Ensures.ite (fun _ => Ensures.throw fun _ hp => h.thrown hp) fun _ => h.writeData _ _

/-- **Typed forms.** What raw reads and writes keep, every typed form keeps. -/
theorem form (h : Stable P E) (f : Form) : Ensures P f.apply (fun _ => P) E := by
  cases f with
  | read t => exact bind (h.readData _ _) fun _ => pure _
  | extract t => exact bind (h.extract t) fun _ => pure _
  | readString beyond => exact bind (h.readString beyond) fun _ => pure _
  | extractString beyond =>
    exact bind (bind (h.readString beyond) fun _ => bind (h.enforce _ _) fun _ => pure _)
      fun _ => pure _
  | write t v => exact bind (h.writeData _ _) fun _ => pure _
  | insert t v => exact h.insert t v
  | writeString order s => exact bind (h.writeString order s) fun _ => pure _
  | insertString order s => exact bind (h.writeString order s) fun _ => pure _
  | writePacket packet => exact bind (h.writePacket packet) fun _ => pure _
  | insertPacket packet => exact bind (h.writePacket packet) fun _ => h.enforce _ _
  | insertSelf =>
    -- the packet that is written is the one that is written to
    refine Ensures.get_bind fun p hp => ?_
    refine Ensures.bind (Q := fun _ => P)
      ((h.writePacket p).weaken (fun _ hq => hq ▸ hp) (fun _ _ hq => hq) fun _ _ he => he)
      fun written => ?_
    exact Ensures.bind (Ensures.get fun _ hq => hq) fun _ => h.enforce _ _

end Stable

/-! ## Reachable packets -/

/-- One operation, whose exception, if any, is caught. -/
def Step (p : Packet) (op : Operation) (p' : Packet) : Prop :=
  Leaves Caught op.apply p p'

/-- The packets that public operations build from new ones. -/
def Reachable : Packet → Prop :=
  Generated Constructed Operation.operands Step

theorem reachable_fresh : Reachable fresh := .init (constructed_iff.mpr rfl)

theorem Reachable.step {p p' : Packet} (h : Reachable p) (op : Operation)
    (hops : ∀ q ∈ op.operands, Reachable q) (hstep : Step p op p') : Reachable p' :=
  Generated.step h hops hstep

/-- A new packet after a write. -/
theorem reachable_written (bytes : List UInt8) {p : Packet}
    (hstep : Step fresh (.writeData bytes true) p) : Reachable p :=
  reachable_fresh.step _ (fun _ hq => absurd hq List.not_mem_nil) hstep

/-- To be reachable is itself kept by raw reads and writes. -/
theorem reachable_stable : Stable Reachable (fun e p => Caught e → Reachable p) where
  thrown hp _ := hp
  outOfBounds _ hcaught := hcaught.elim
  readData size whole := ensures_iff_leaves.mpr fun _ _ hp hleaves =>
    hp.step (.readData size whole) (fun _ hq => absurd hq List.not_mem_nil)
      (leaves_discard.mpr hleaves)
  writeData bytes whole := ensures_iff_leaves.mpr fun _ _ hp hleaves =>
    hp.step (.writeData bytes whole) (fun _ hq => absurd hq List.not_mem_nil)
      (leaves_discard.mpr hleaves)

/-- The typed forms reach no packet that the raw operations do not reach. -/
theorem Reachable.form {p p' : Packet} {f : Form} (h : Reachable p)
    (hstep : Leaves Caught f.apply p p') : Reachable p' :=
  ensures_iff_leaves.mp (reachable_stable.form f) p p' h hstep

end Sws.Packet
