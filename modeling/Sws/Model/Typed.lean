import Sws.Model.Packet
import Sws.Model.Scalar

/-!
# Packet: Typed Reads and Writes

The overloads of `read`, `write`, `>>` and `<<`: fixed-width values, `std::string` and other
packets.

## Model

- `read(T&)` gives the bytes placed in the destination; none means that it returned 0 and
  left the destination alone.  `>>` gives the value.
- A `std::string` is its bytes.  The language leaves open in which order the two operands of
  the `+` in `write(const std::string&)` run; the order is a parameter.
- `read(std::string&)` builds its result from a pointer, a position and a count.  That
  constructor first looks for a NUL from the pointer on, so what lies in memory behind the
  temporary buffer is a parameter too.
- A read into a variable is a program on the packet and the variable (`Reading`), made of the
  reads above.
-/

namespace Sws.Packet

open Sws.Foundation

/-! ## Fixed-width values -/

def readImpl (t : ScalarType) : PacketM (List UInt8) := readData t.size true

def readEnforced (t : ScalarType) : PacketM t.Val := do
  let bytes ← readData t.size true
  enforce (bytes.length = t.size) "Failed to read data from packet."
  return t.decode bytes

def writeImpl (t : ScalarType) (v : t.Val) : PacketM ℕ := writeData (t.encode v) true

/-- `read(T&)`, with `sizeof(bool) == 1`. -/
def read (t : ScalarType) : PacketM (List UInt8) := readImpl t

/-- `write(const T&)`, with `sizeof(bool) == 1`. -/
def write (t : ScalarType) (v : t.Val) : PacketM ℕ := writeImpl t v

/-- `operator>>(T&)`. -/
def extract : (t : ScalarType) → PacketM t.Val
  | .bool => do
    let temp ← readEnforced .uint8
    enforce (temp ≤ 1) "bool value out of range"
    return temp == 1
  | .char => readEnforced .int8
  | t => readEnforced t

/-- `operator<<(const T&)`. -/
def insert : (t : ScalarType) → t.Val → PacketM Unit
  | .char, v => writeEnforced (ScalarType.int8.encode v)
  | t, v => writeEnforced (t.encode v)

/-! ## Strings -/

/-- The longest string `write` takes. -/
abbrev maxStringLength : ℕ := 32767

/-- The order in which the operands of an operator are evaluated. -/
inductive EvalOrder
  | leftFirst
  | rightFirst
  deriving DecidableEq, Repr

/-- `write(const std::string&)`. -/
def writeString (order : EvalOrder) (s : List UInt8) : PacketM ℕ := do
  enforce (s.length ≤ maxStringLength) "String too long!"
  let writeLength := writeImpl .int16 (Int16.ofNat s.length)
  let result ← match order with
    | .leftFirst => do
      let prefixSize ← writeLength
      let charSize ← writeData s true
      pure (prefixSize + charSize)
    | .rightFirst => do
      let charSize ← writeData s true
      let prefixSize ← writeLength
      pure (prefixSize + charSize)
  enforce (result = ScalarType.int16.size + s.length) "Failed to write whole string to packet."
  return result

/-- `std::string(const char*, pos, count)`: the pointer is viewed as a NUL-terminated string,
of which the constructor takes a substring.  `memory` is what lies from the pointer on. -/
def stringFromPointer {σ : Type} (memory : List UInt8) (pos count : ℕ) :
    EStateM Fault σ (List UInt8) := do
  if 0 ∉ memory then throw (.undefined .outOfBounds)
  let view := memory.takeWhile (· != 0)
  if pos > view.length then throw (.thrown .outOfRange)
  return (view.drop pos).take count

/-- `read(std::string&)`: the count it returns, and the string if it assigned one. -/
def readString (beyond : List UInt8) : PacketM (ℕ × Option (List UInt8)) := do
  let bytes ← readImpl .int16
  if bytes.length = 0 then return (0, none)
  let size : Int16 := ScalarType.int16.decode bytes
  enforce (0 ≤ size.toInt) "Malformed string."
  let temp ← readData size.toInt.toNat true
  if temp.length = 0 then return (0, none)
  let data ← stringFromPointer (temp ++ beyond) 0 temp.length
  return (bytes.length + temp.length, some data)

/-- `operator>>(std::string&)`. -/
def extractString (beyond : List UInt8) : PacketM (Option (List UInt8)) := do
  let (count, data) ← readString beyond
  enforce (count ≠ 0) "Failed to read string from packet."
  return data

/-- `operator<<(const std::string&)`. -/
def insertString (order : EvalOrder) (s : List UInt8) : PacketM Unit := do
  let _ ← writeString order s

/-! ## Packets into packets -/

/-- `write(const Packet&)`. -/
def writePacket (packet : Packet) : PacketM ℕ := do
  if packet.empty then return 0
  -- `data().at(sizeof(packetlen_t))`
  if packet.data.length ≤ packetlenSize then throw (.thrown .outOfRange)
  writeData ((packet.data.drop packetlenSize).take packet.workSize) true

/-- `operator<<(const Packet&)` with another packet. -/
def insertPacket (packet : Packet) : PacketM Unit := do
  let result ← writePacket packet
  enforce (result = packet.workSize) "Failed to write packet data to packet instance."

/-- `operator<<(const Packet&)` with the packet itself: the size it compares with is the one
after the write.  The buffer is taken to have the capacity for the result, and bytes that are
copied over themselves are those from before the copy. -/
def insertSelf : PacketM Unit := do
  let result ← writePacket (← get)
  enforce (result = (← get).workSize) "Failed to write packet data to packet instance."

/-- Two packets: one that is written to, and the one that is written. -/
structure TwoPackets where
  dest : Packet
  packet : Packet
  deriving DecidableEq, Repr

/-- `operator<<(const Packet&)`, with both packets in view. -/
def appendPacket : EStateM Fault TwoPackets Unit := do
  let packet := (← get).packet
  let result ← zoom TwoPackets.dest (fun p s => { s with dest := p }) (writePacket packet)
  enforce (result = (← get).packet.workSize) "Failed to write packet data to packet instance."

/-! ## Into variables -/

/-- A packet, and the variable that is read into: its bytes, or the characters of a string. -/
structure Reading where
  packet : Packet
  dest : List UInt8
  deriving DecidableEq, Repr

/-- Programs that read from a packet into a variable. -/
abbrev ReadingM := EStateM Fault Reading

/-- Runs a member function whose result the caller has in a variable of its own. -/
def fromPacket {α : Type} (m : PacketM α) : ReadingM α :=
  zoom Reading.packet (fun p r => { r with packet := p }) m

/-- `read_data(data, size, whole)` into the caller's buffer. -/
def readDataTo (size : ℕ) (whole : Bool) : ReadingM ℕ := do
  let bytes ← fromPacket (readData size whole)
  modify fun r => { r with dest := splice r.dest 0 bytes }
  return bytes.length

/-- `read(T&)`. -/
def readTo (t : ScalarType) : ReadingM ℕ := readDataTo t.size true

def readEnforcedTo (t : ScalarType) : ReadingM Unit := do
  enforce ((← readDataTo t.size true) = t.size) "Failed to read data from packet."

/-- `operator>>(T&)`.  A `bool` is checked before it is assigned, any other value is read into
the variable itself. -/
def extractTo : ScalarType → ReadingM Unit
  | .bool => do
    let temp ← fromPacket (readEnforced .uint8)
    enforce (temp ≤ 1) "bool value out of range"
    modify fun r => { r with dest := ScalarType.bool.encode (temp == 1) }
  | t => readEnforcedTo t

/-- `read(std::string&)`; the string is assigned last. -/
def readStringTo (beyond : List UInt8) : ReadingM ℕ := do
  let (count, data) ← fromPacket (readString beyond)
  modify fun r => { r with dest := data.getD r.dest }
  return count

/-- `operator>>(std::string&)`. -/
def extractStringTo (beyond : List UInt8) : ReadingM Unit := do
  enforce ((← readStringTo beyond) ≠ 0) "Failed to read string from packet."

end Sws.Packet
