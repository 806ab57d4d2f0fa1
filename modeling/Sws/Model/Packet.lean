import Sws.Foundation.Segment
import Sws.Foundation.LittleEndian
import Sws.Foundation.Program
import Sws.Model.Platform

/-!
# Packet: the Buffer and Its Cursors

`sws::Packet` as the code computes it: a byte buffer whose first two bytes are a length
header, a read and a write cursor into it, and the progress of a send and of a receive.

## Model

- A member function is a program on the packet (`PacketM`), so that an exception leaves
  behind what was already done.
- The buffer's capacity is not modelled: no result depends on it.
- `write_data` and `update_size` call each other.  The nested call runs with the write cursor
  at 0, where `write_data` does not come back to `update_size`; `writeDataWith` is the body
  with that call left open, and `updateSize_eq` states the equation of the source.
-/

namespace Sws

open Sws.Foundation

/-- The cursor types used for packet read/write operations. -/
inductive SeekCursor
  | read
  | write
  | both
  deriving DecidableEq, Repr

/-- The type of seek to perform on a packet. -/
inductive SeekType
  | fromStart
  | relative
  | fromEnd
  deriving DecidableEq, Repr

/-- `Socket::datagram_size`, the maximum datagram size. -/
abbrev datagramSize : ℕ := 65536

/-- `sizeof(packetlen_t)`: the header is a 16-bit length. -/
abbrev packetlenSize : ℕ := 2

structure Packet where
  data : List UInt8 := []
  readPos : Int := packetlenSize
  writePos : Int := packetlenSize
  sendPos : Int := -1
  recvPos : Int := -1
  recvTarget : Int := -1
  deriving DecidableEq, Repr

/-- Programs on a packet. -/
abbrev PacketM := EStateM Fault Packet

namespace Packet

/-! ## Observers -/

def full (p : Packet) : Bool := p.data.length == datagramSize

def workSize (p : Packet) : ℕ :=
  if p.data.length > packetlenSize then p.data.length - packetlenSize else 0

def realSize (p : Packet) : ℕ := p.data.length

def empty (p : Packet) : Bool := p.workSize == 0

/-- `Packet::end`: the read cursor stands at the end of the buffer. -/
def atEnd (p : Packet) : Bool := toSize p.readPos == p.realSize

def verifySize (p : Packet) : Bool :=
  packetlenSize ≤ p.data.length &&
    ofBytes (p.data.take packetlenSize) == p.workSize % 2 ^ 16

/-- Position of a cursor in the payload; `-1` for `both`. -/
def tell (p : Packet) : SeekCursor → Int
  | .read => toPtrdiff (p.readPos - packetlenSize)
  | .write => toPtrdiff (p.writePos - packetlenSize)
  | .both => -1

def getSendRemainder (p : Packet) : Int :=
  if p.sendPos < 1 then 0 else toPtrdiff (p.data.length - p.sendPos)

def getRecvRemainder (p : Packet) : Int :=
  if p.recvTarget < 0 ∨ p.recvPos < packetlenSize then 0
  else toPtrdiff (p.recvTarget - (p.recvPos - packetlenSize))

/-! ## Seeking -/

/-- `seek_impl`, a program on the cursor it is given by reference. -/
def seekImpl (workSize : ℕ) (type : SeekType) (value : Int64) : EStateM Fault Int Unit := do
  let pos ← get
  let workPos := toPtrdiff (pos - packetlenSize)
  match type with
  | .fromStart =>
    enforce (0 ≤ value.toInt) "Seek position must be non-negative."
    enforce (toSize value.toInt ≤ workSize) "Seek beyond end of buffer."
    set (toPtrdiff (value.toInt + packetlenSize))
  | .relative =>
    let result := workPos + value.toInt
    if toPtrdiff result ≠ result then throw (.undefined .signedOverflow)
    enforce (0 ≤ result) "Seek amount places cursor below zero."
    enforce (toSize result ≤ workSize) "Seek beyond end of buffer."
    set (toPtrdiff (result + packetlenSize))
  | .fromEnd =>
    enforce (0 ≤ value.toInt) "Seek position must be non-negative."
    let result := toPtrdiff (workSize - value.toInt)
    enforce (0 ≤ result) "Seek amount places cursor below zero."
    set (toPtrdiff (result + packetlenSize))
  enforce ((← get) ≥ packetlenSize) "I fucked up"

/-- Runs a seek on the read cursor. -/
def onReadPos (seek : EStateM Fault Int Unit) : PacketM Unit :=
  zoom Packet.readPos (fun pos p => { p with readPos := pos }) seek

/-- Runs a seek on the write cursor. -/
def onWritePos (seek : EStateM Fault Int Unit) : PacketM Unit :=
  zoom Packet.writePos (fun pos p => { p with writePos := pos }) seek

def seek (cursor : SeekCursor) (type : SeekType) (value : Int64) : PacketM Unit := do
  let size := (← get).workSize
  match cursor with
  | .read => onReadPos (seekImpl size type value)
  | .write => onWritePos (seekImpl size type value)
  | .both =>
    onReadPos (seekImpl size type value)
    onWritePos (seekImpl size type value)

/-! ## Raw reads and writes -/

/-- `read_data(data, size, whole)`.  The result is the bytes copied into the caller's buffer;
the count the source returns is their number, and with 0 the buffer is left alone. -/
def readData (size : ℕ) (whole : Bool) : PacketM (List UInt8) := do
  let p ← get
  if p.empty then return []
  let readSize := min (toSize (p.realSize - p.readPos)) size
  if readSize = 0 ∨ (whole ∧ readSize < size) then return []
  if p.readPos + readSize > p.data.length then throw (.undefined .outOfBounds)
  set { p with readPos := p.readPos + readSize }
  return (p.data.drop p.readPos.toNat).take readSize

/-- Grows the buffer to the end of a segment at the write cursor. -/
def makeRoom (size : ℕ) (p : Packet) : Packet :=
  let writeEnd := p.writePos.toNat + size
  { p with data := if writeEnd > p.data.length then p.data.takeD writeEnd 0 else p.data }

/-- Grows the buffer to the end of the segment, copies the bytes to the write cursor and
moves the cursor behind them. -/
def copyIn (bytes : List UInt8) (p : Packet) : Packet :=
  { p with
    data := splice (p.makeRoom bytes.length).data p.writePos.toNat bytes
    writePos := p.writePos + bytes.length }

/-- `write_data(data, size, whole)` with its call of `update_size` left open.  The source is
a buffer in memory, so `write_pos_ + size` does not wrap. -/
def writeDataWith (updateSize : PacketM Unit) (bytes : List UInt8) (whole : Bool) :
    PacketM ℕ := do
  let p ← get
  if p.full then return 0
  if whole ∧ p.writePos.toNat + bytes.length > datagramSize then return 0
  let writeSize := min (toSize (datagramSize - p.writePos)) bytes.length
  set (p.makeRoom writeSize)
  -- `&data_[write_pos_]`, also where there is no byte to copy
  if p.writePos ≥ (p.makeRoom writeSize).data.length then throw (.undefined .outOfBounds)
  set (p.copyIn (bytes.take writeSize))
  -- at 0 the header itself is being written
  if p.writePos > 0 then updateSize
  return writeSize

/-- `write_enforced` for a value with the given bytes in memory. -/
def writeEnforcedWith (updateSize : PacketM Unit) (bytes : List UInt8) : PacketM Unit := do
  let written ← writeDataWith updateSize bytes true
  enforce (written = bytes.length) "Failed to write data to packet."

/-- `update_size`: writes the header through the packet's own `<<`, then seeks back. -/
def updateSize : PacketM Unit := do
  let lastWrite := (← get).tell .write
  modify fun p => { p with writePos := 0 }
  writeEnforcedWith (pure ()) (toBytes packetlenSize (← get).workSize)
  seek .write .fromStart (Int64.ofInt lastWrite)

def writeData (bytes : List UInt8) (whole : Bool) : PacketM ℕ :=
  writeDataWith updateSize bytes whole

def writeEnforced (bytes : List UInt8) : PacketM Unit :=
  writeEnforcedWith updateSize bytes

/-- With the write cursor at 0 the program does not depend on what `update_size` does. -/
theorem writeEnforcedWith_of_writePos_eq_zero (u u' : PacketM Unit) (bytes : List UInt8)
    {p : Packet} (hp : p.writePos = 0) :
    (writeEnforcedWith u bytes).run p = (writeEnforcedWith u' bytes).run p := by
  have hnot : ¬p.writePos > 0 := by omega
  simp [writeEnforcedWith, writeDataWith, hnot]

/-- The equation of the source: `update_size` calls the packet's own `<<`, and so itself. -/
theorem updateSize_eq : updateSize = (do
    let lastWrite := (← get).tell .write
    modify fun p => { p with writePos := 0 }
    writeEnforced (toBytes packetlenSize (← get).workSize)
    seek .write .fromStart (Int64.ofInt lastWrite)) := by
  funext p
  have hnested : ∀ q : Packet, q.writePos = 0 → ∀ bytes,
      (writeEnforced bytes).run q = (writeEnforcedWith (pure ()) bytes).run q :=
    fun q hq bytes => writeEnforcedWith_of_writePos_eq_zero _ _ bytes hq
  show updateSize.run p = EStateM.run _ p
  simp only [updateSize, EStateM.run_bind, EStateM.run_get, EStateM.run_modify,
    hnested]

/-! ## Size and reset -/

/-- Resizes the internal buffer. -/
def resize (size : ℕ) : PacketM Unit := do
  let size := max packetlenSize (min datagramSize size)
  modify fun p => { p with data := p.data.takeD size 0 }
  updateSize

/-- Clears the internal buffer. -/
def clear : PacketM Unit := do
  modify fun p => { p with readPos := packetlenSize, writePos := packetlenSize }
  resize packetlenSize

/-- `shrink_to_fit` gives back capacity and nothing else. -/
def shrinkToFit : PacketM Unit := pure ()

def sendReset (p : Packet) : Packet := { p with sendPos := -1 }

def recvReset (p : Packet) : Packet := { p with recvPos := -1, recvTarget := -1 }

/-! ## Construction and moves -/

/-- The constructor: reserving memory aside, `clear` on the members' initial values. -/
def construct : EStateM.Result Fault Packet Unit := clear {}

/-- The constructor with a tuned reserve size. -/
def constructReserve (reserve : ℕ) : EStateM.Result Fault Packet Unit :=
  (do enforce (reserve ≥ packetlenSize) "reserve size must be >= sizeof(packetlen_t)"
      clear : PacketM Unit) {}

/-- What a move leaves in its source: the vector is moved out, both kinds of progress are
reset, and the cursors stay. -/
def movedFrom (p : Packet) : Packet := { p with data := [] }.sendReset.recvReset

/-- The move constructor: the new packet, and what is left of the other. -/
def moveConstruct (other : Packet) : Packet × Packet :=
  ({ data := other.data
     readPos := other.readPos
     writePos := other.writePos
     sendPos := other.sendPos
     recvPos := other.recvPos
     recvTarget := other.recvTarget }, other.movedFrom)

/-- The move assignment to a packet from another one. -/
def moveAssign (self other : Packet) : Packet × Packet :=
  ({ self with
     data := other.data
     readPos := other.readPos
     writePos := other.writePos
     sendPos := other.sendPos
     recvPos := other.recvPos
     recvTarget := other.recvTarget }, other.movedFrom)

end Packet

end Sws
