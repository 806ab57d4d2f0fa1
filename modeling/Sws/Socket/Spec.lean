import Sws.Model.Socket
import Sws.Packet.Limits
import Sws.Packet.Valid

/-!
# What the Socket Operations Do

The building blocks of sending and receiving, each as what its run gives: native calls, for
every result they can have, and the calls around them.

## Key Results

- `nativeCall_count`, `nativeCall_failure`, `nativeCall_pending`: the native call.
- `receiveDatagramPacket_ignored`, `_rejected`, `_accepted`: all ways a datagram is handled.
- `receiveBody_throws`, `receiveBody_count`: the payload of a frame.
-/

namespace Sws.Socket

open Sws.Foundation
open Packet (clampSize)

/-- A stream socket is no datagram socket. -/
theorem ne_udp_of_tcp {protocol : Protocol} (h : protocol = .tcp) : protocol ≠ .udp := by
  rw [h]
  decide

/-! ## Native calls -/

/-- The next native result is one the call can have. -/
def Answers (limit : ℕ) : List NativeResult → Prop
  | .count n :: _ => n ≤ limit
  | .failure e :: _ => e ≠ .none
  | [] => False

/-- The next native result is a count within the limit, an error, or none the call can have. -/
theorem answers_cases (limit : ℕ) (results : List NativeResult) :
    (∃ n rest, results = .count n :: rest ∧ n ≤ limit) ∨
    (∃ e rest, results = .failure e :: rest ∧ e ≠ .none) ∨ ¬Answers limit results := by
  rcases Classical.em (Answers limit results) with h | h
  · match results, h with
    | .count n :: rest, hn => exact .inl ⟨n, rest, rfl, hn⟩
    | .failure e :: rest, he => exact .inr (.inl ⟨e, rest, rfl, he⟩)
  · exact .inr (.inr h)

section NativeCall

variable {h : Host} {rest : List NativeResult} (limit : ℕ)

theorem nativeCall_count {n : ℕ} (hres : h.net.results = .count n :: rest) (hn : n ≤ limit) :
    (nativeCall limit).run h = .ok n { h with net := { h.net with results := rest } } := by
  simp only [nativeCall, EStateM.run_bind, EStateM.run_get, hres, if_neg (not_lt.mpr hn)]
  rfl

/-- A failure sets the thread's last error. -/
theorem nativeCall_failure {e : SocketError} (hres : h.net.results = .failure e :: rest)
    (he : e ≠ .none) :
    (nativeCall limit).run h =
      .ok (-1) { h with net := { h.net with results := rest, lastError := e } } := by
  simp only [nativeCall, EStateM.run_bind, EStateM.run_get, hres, if_neg he]
  rfl

theorem nativeCall_pending (hres : ¬Answers limit h.net.results) :
    (nativeCall limit).run h = .error .pending h := by
  simp only [nativeCall, EStateM.run_bind, EStateM.run_get]
  cases hnext : h.net.results with
  | nil => rfl
  | cons r rest =>
    rw [hnext] at hres
    cases r with
    | count n =>
      have hn : n > limit := not_le.mp hres
      simp only [EStateM.run_bind, if_pos hn]
      rfl
    | failure e =>
      have he : e = .none := not_not.mp hres
      simp only [EStateM.run_bind, if_pos he]
      rfl

end NativeCall

/-! ## Sending and receiving bytes -/

section Ranges

variable {h : Host} {rest : List NativeResult} (pos length : Int)

/-- The host when a native send is called. -/
def offering (h : Host) (pos length : Int) : Host :=
  { h with net := { h.net with offered := h.net.offered ++ [(pos, length)] } }

/-- The host after a native send that accepted `n` bytes from `pos` on. -/
def afterSend (h : Host) (rest : List NativeResult) (pos length : Int) (n : ℕ) : Host :=
  { h with net := { h.net with
      results := rest
      offered := h.net.offered ++ [(pos, length)]
      accepted := h.net.accepted ++ (h.packet.data.drop pos.toNat).take n } }

/-- The host after a native send that failed. -/
def afterSendFailure (h : Host) (rest : List NativeResult) (pos length : Int) (e : SocketError) :
    Host :=
  { h with net := { h.net with
      results := rest
      lastError := e
      offered := h.net.offered ++ [(pos, length)] } }

theorem sendRange_count {n : ℕ} (hres : h.net.results = .count n :: rest)
    (hn : n ≤ length.toNat) :
    (sendRange pos length).run h = .ok n (afterSend h rest pos length n) := by
  have hcall := nativeCall_count length.toNat
    (h := { h with net := { h.net with offered := h.net.offered ++ [(pos, length)] } }) hres hn
  simp only [sendRange, modifyNet, EStateM.run_bind, EStateM.run_modify, hcall]
  rfl

theorem sendRange_failure {e : SocketError} (hres : h.net.results = .failure e :: rest)
    (he : e ≠ .none) :
    (sendRange pos length).run h = .ok (-1) (afterSendFailure h rest pos length e) := by
  have hcall := nativeCall_failure length.toNat
    (h := { h with net := { h.net with offered := h.net.offered ++ [(pos, length)] } }) hres he
  simp only [sendRange, modifyNet, EStateM.run_bind, EStateM.run_modify, hcall]
  simp [afterSendFailure]

theorem sendRange_pending (hres : ¬Answers length.toNat h.net.results) :
    (sendRange pos length).run h = .error .pending (offering h pos length) := by
  have hcall := nativeCall_pending length.toNat
    (h := { h with net := { h.net with offered := h.net.offered ++ [(pos, length)] } }) hres
  simp only [sendRange, modifyNet, EStateM.run_bind, EStateM.run_modify, hcall]
  rfl

/-- A native receive that gave `n` bytes. -/
theorem receiveBytes_count {n : ℕ} (hres : h.net.results = .count n :: rest)
    (hn : n ≤ min length.toNat h.net.inbound.length) :
    (receiveBytes length).run h =
      .ok ((n : Int), h.net.inbound.take n)
        { h with net := { h.net with results := rest, inbound := h.net.inbound.drop n } } := by
  have hcall := nativeCall_count (min length.toNat h.net.inbound.length) hres hn
  simp only [receiveBytes, modifyNet, EStateM.run_bind, EStateM.run_get, hcall, EStateM.run_modify]
  rfl

theorem receiveBytes_failure {e : SocketError} (hres : h.net.results = .failure e :: rest)
    (he : e ≠ .none) :
    (receiveBytes length).run h =
      .ok (-1, []) { h with net := { h.net with results := rest, lastError := e } } := by
  have hcall := nativeCall_failure (min length.toNat h.net.inbound.length) hres he
  simp only [receiveBytes, modifyNet, EStateM.run_bind, EStateM.run_get, hcall, EStateM.run_modify]
  rfl

theorem receiveBytes_pending
    (hres : ¬Answers (min length.toNat h.net.inbound.length) h.net.results) :
    (receiveBytes length).run h = .error .pending h := by
  have hcall := nativeCall_pending _ hres
  simp only [receiveBytes, EStateM.run_bind, EStateM.run_get, hcall]

end Ranges

/-! ## Errors -/

@[simp] theorem getErrorState_run (h : Host) :
    getErrorState.run h = .ok (toState h.net.lastError)
      { h with socket := { h.socket with nativeError := h.net.lastError } } := rfl

@[simp] theorem clearErrorState_run (h : Host) :
    clearErrorState.run h = .ok .done
      { h with socket := { h.socket with nativeError := .none } } := rfl

/-! ## Programs of the packet -/

theorem onPacket_of_ok {α : Type} {m : PacketM α} {h : Host} {a : α} {p : Packet}
    (hrun : m.run h.packet = .ok a p) : (onPacket m).run h = .ok a { h with packet := p } :=
  zoom_run_of_ok hrun

theorem onPacket_of_error {α : Type} {m : PacketM α} {h : Host} {e : Fault} {p : Packet}
    (hrun : m.run h.packet = .error e p) :
    (onPacket m).run h = .error e { h with packet := p } :=
  zoom_run_of_error hrun

/-! ## Datagrams -/

section Datagram

variable {h : Host} {d : Datagram} {rest : List NativeResult}

/-- What a native receive puts in the buffer is read back from its front. -/
theorem take_receive {bytes : List UInt8} (hlen : bytes.length ≤ datagramSize) :
    (d.receive bytes).bytes.take bytes.length = bytes := by
  have hsize : (splice d.bytes 0 bytes).length = datagramSize := by
    rw [length_splice _ _ (Nat.zero_le _), d.length_eq]; omega
  -- the buffer is as long as before, so nothing is cut off
  have hwhole : (splice d.bytes 0 bytes).takeD datagramSize 0 = splice d.bytes 0 bytes := by
    rw [takeD_eq_append, hsize, List.take_of_length_le (by omega)]
    simp
  show ((splice d.bytes 0 bytes).takeD datagramSize 0).take bytes.length = bytes
  rw [hwhole, splice_zero, List.take_left]

/-- A buffer that receives nothing stays as it was. -/
theorem receive_nil : d.receive [] = d := by
  obtain ⟨bytes, hlen⟩ := d
  simp only [Datagram.receive, splice_nil, takeD_eq_append, hlen, Nat.sub_self,
    List.replicate_zero, List.append_nil, List.take_of_length_le (Nat.le_of_eq hlen)]

/-- The host after a native receive of a datagram of `n` bytes. -/
def afterDatagram (h : Host) (d : Datagram) (rest : List NativeResult) (n : ℕ) : Host :=
  { h with
    socket := { h.socket with datagram := some (d.receive (h.net.inbound.take n)) }
    net := { h.net with results := rest, inbound := h.net.inbound.drop n } }

theorem receiveDatagram_count {n : ℕ} (hd : h.socket.datagram = some d)
    (hres : h.net.results = .count n :: rest) (hn : n ≤ min datagramSize h.net.inbound.length) :
    receiveDatagram.run h = .ok n (afterDatagram h d rest n) := by
  have hcall := receiveBytes_count (datagramSize : Int) hres hn
  simp only [receiveDatagram, EStateM.run_bind, EStateM.run_get, hd, hcall]
  rfl

theorem receiveDatagram_failure {e : SocketError} (hd : h.socket.datagram = some d)
    (hres : h.net.results = .failure e :: rest) (he : e ≠ .none) :
    receiveDatagram.run h =
      .ok (-1) { h with net := { h.net with results := rest, lastError := e } } := by
  have hcall := receiveBytes_failure (datagramSize : Int) hres he
  have hsocket : { h.socket with datagram := some d } = h.socket := by rw [← hd]
  simp only [receiveDatagram, EStateM.run_bind, EStateM.run_get, hd, hcall, modifySocket,
    EStateM.run_modify, receive_nil, hsocket, EStateM.run_pure]

theorem receiveDatagram_pending (hd : h.socket.datagram = some d)
    (hres : ¬Answers (min datagramSize h.net.inbound.length) h.net.results) :
    receiveDatagram.run h = .error .pending h := by
  have hcall := receiveBytes_pending (datagramSize : Int) (h := h) hres
  simp only [receiveDatagram, EStateM.run_bind, EStateM.run_get, hd, hcall]

theorem receiveDatagram_null (hd : h.socket.datagram = none) :
    receiveDatagram.run h = .error (.undefined .nullPointer) h := by
  simp only [receiveDatagram, EStateM.run_bind, EStateM.run_get, hd]
  rfl

/-- A failure and the end of the stream are left to the error state. -/
theorem receiveDatagramPacket_ignored {received : Int} (hr : received = -1 ∨ received = 0) :
    (receiveDatagramPacket received).run h = getErrorState.run h := by
  simp only [receiveDatagramPacket, if_pos hr]

/-- Without a buffer, as after a move, there is nothing to look at. -/
theorem receiveDatagramPacket_null {received : Int} (hr : ¬(received = -1 ∨ received = 0))
    (hd : h.socket.datagram = none) :
    ∃ e, (receiveDatagramPacket received).run h = .error e h := by
  simp only [receiveDatagramPacket, EStateM.run_bind, if_neg hr, enforce_run]
  by_cases hsmall : toSize received ≥ packetlenSize
  · simp only [if_pos hsmall, EStateM.run_get, hd]
    exact ⟨_, rfl⟩
  · simp only [if_neg hsmall]
    exact ⟨_, rfl⟩

/-- The header of the datagram holds the size of what follows it.  The sizes are compared as
the code computes them. -/
def Announces (bytes : List UInt8) (received : Int) : Prop :=
  toSize received ≥ packetlenSize ∧
    ofBytes (bytes.take packetlenSize) = toSize (received % 2 ^ 16 - packetlenSize)

instance (bytes : List UInt8) (received : Int) : Decidable (Announces bytes received) :=
  inferInstanceAs (Decidable (_ ∧ _))

/-- A datagram that is no packet throws, and leaves the packet alone. -/
theorem receiveDatagramPacket_rejected {received : Int} (hr : ¬(received = -1 ∨ received = 0))
    (hd : h.socket.datagram = some d) (hbad : ¬Announces d.bytes received) :
    ∃ msg, (receiveDatagramPacket received).run h = .error (.thrown (.logicError msg)) h := by
  simp only [receiveDatagramPacket, EStateM.run_bind, if_neg hr, enforce_run]
  by_cases hsmall : toSize received ≥ packetlenSize
  · have hsize : ¬ofBytes (d.bytes.take packetlenSize) =
        toSize (received % 2 ^ 16 - packetlenSize) :=
      fun hsize => hbad ⟨hsmall, hsize⟩
    simp only [if_pos hsmall, EStateM.run_bind, EStateM.run_get, hd, enforce_run, if_neg hsize]
    exact ⟨_, rfl⟩
  · simp only [if_neg hsmall]
    exact ⟨_, rfl⟩

/-- A datagram that announces its own size holds between 2 and 65535 bytes. -/
theorem announces_iff {bytes : List UInt8} {n : ℕ} (hn : n ≤ datagramSize) :
    Announces bytes n ↔ 2 ≤ n ∧ n < datagramSize ∧ ofBytes (bytes.take 2) = n - 2 := by
  have hbound := ofBytes_lt (bytes.take 2)
  have hlen : (bytes.take 2).length ≤ 2 := by rw [List.length_take]; omega
  have hpow : 256 ^ (bytes.take 2).length ≤ 256 ^ 2 := Nat.pow_le_pow_right (by decide) hlen
  have hn' : toSize n = n := by
    rw [toSize_of_nonneg (by omega) (by simp only [datagramSize] at hn; omega)]
    exact Int.toNat_natCast n
  simp only [Announces, hn', packetlenSize, datagramSize] at *
  by_cases hfull : n = 65536
  · -- the size is cut to 16 bits before the header is taken off, and then wraps
    subst hfull
    have hwrap : toSize (((65536 : ℕ) : Int) % 2 ^ 16 - ((2 : ℕ) : Int)) = 2 ^ 64 - 2 := by decide
    rw [hwrap]
    omega
  · by_cases htwo : 2 ≤ n
    · have hmod : (n : Int) % 2 ^ 16 = n := Int.emod_eq_of_lt (by omega) (by omega)
      rw [hmod, toSize_of_nonneg (by omega) (by omega)]
      omega
    · omega

/-- The packet made of a datagram. -/
def delivered (p : Packet) (bytes : List UInt8) : Packet :=
  { p.cleared with data := bytes, writePos := bytes.length }

/-- A datagram that is a packet replaces the packet. -/
theorem receiveDatagramPacket_accepted {n : ℕ} (hd : h.socket.datagram = some d)
    (hannounces : Announces d.bytes n) (hn : n ≤ datagramSize) :
    (receiveDatagramPacket n).run h =
      .ok .done { h with
        packet := delivered h.packet (d.bytes.take n)
        socket := { h.socket with nativeError := .none } } := by
  have hsize := (announces_iff hn).mp hannounces
  have htaken : (d.bytes.take n).length = n := by rw [List.length_take, d.length_eq]; omega
  have hr : ¬((n : Int) = -1 ∨ (n : Int) = 0) := by omega
  have hclamp : clampSize n = n := Packet.clampSize_of_mem ⟨by omega, hn⟩
  have hresize : (Packet.resize n).run h.packet.cleared = .ok () (h.packet.cleared.resized n) :=
    Packet.resize_ok n hsize.2.1 (by
      show 2 ≤ (2 : Int) ∧ (2 : Int) ≤ Packet.clampSize n
      rw [hclamp]; omega)
  -- the last write starts at 0, and replaces the header and the payload
  have hwrite : (Packet.writeData (d.bytes.take n) true).run
      { h.packet.cleared.resized n with writePos := 0 } =
      .ok n (delivered h.packet (d.bytes.take n)) := by
    have hlen : (h.packet.cleared.resized n).data.length = n := by
      rw [Packet.length_resized, hclamp]
    have hrefuses : ¬Packet.Refuses { h.packet.cleared.resized n with writePos := 0 }
        (d.bytes.take n).length true := by
      simp only [Packet.Refuses, hlen, htaken, datagramSize] at *
      omega
    have hroom : Packet.room { h.packet.cleared.resized n with writePos := 0 }
        (d.bytes.take n).length = n := by
      simp only [Packet.room, htaken, datagramSize] at *
      omega
    have hdata : (Packet.copyIn (d.bytes.take n)
        { h.packet.cleared.resized n with writePos := 0 }).data = d.bytes.take n := by
      rw [Packet.data_copyIn (by simp)]
      show splice (h.packet.cleared.resized n).data 0 (d.bytes.take n) = d.bytes.take n
      rw [splice_zero, List.drop_of_length_le (by omega), List.append_nil]
    have hin : ¬Packet.PointsOutside { h.packet.cleared.resized n with writePos := 0 }
        (d.bytes.take n).length :=
      Packet.not_pointsOutside_of_pos (by rw [htaken]; omega) (by simp)
    rw [Packet.writeData_header hrefuses rfl hin, hroom, List.take_of_length_le (by omega)]
    refine congrArg (EStateM.Result.ok n) ?_
    rw [delivered, Packet.copyIn_eq, hdata]
    simp only [Int.zero_add]
    rfl
  simp only [receiveDatagramPacket, EStateM.run_bind, if_neg hr, enforce_run,
    if_pos hannounces.1, EStateM.run_get, hd, if_pos hannounces.2,
    onPacket_of_ok (Packet.clear_run h.packet)]
  simp only [Int.toNat_natCast, onPacket_of_ok (h := { h with packet := h.packet.cleared }) hresize,
    modifyPacket, EStateM.run_modify]
  rw [onPacket_of_ok (h := { h with
    packet := { h.packet.cleared.resized n with writePos := 0 } }) hwrite, ← hd]
  rfl

end Datagram

/-! ## Frames of a stream -/

section Frames

variable {h : Host} {rest : List NativeResult} {t : ℕ}

/-- No frame is being received. -/
def Idle (p : Packet) : Prop := p.recvPos < 0 ∧ p.recvTarget < 0

/-- The packet after a native receive for the header. -/
def announced (p : Packet) (bytes : List UInt8) : Packet :=
  if bytes.length = 2 ∧ ofBytes bytes > 0 then { p.cleared with recvTarget := ofBytes bytes }
  else p.cleared

theorem receiveHeader_resuming (ht : 0 ≤ h.packet.recvTarget) :
    receiveHeader.run h = .ok () h := by
  simp only [receiveHeader, EStateM.run_bind, EStateM.run_get, not_lt.mpr ht, and_false, if_false]
  rfl

/-- What an idle packet's header read comes down to. -/
theorem receiveHeader_idle (hidle : Idle h.packet) :
    receiveHeader.run h =
      match (receiveBytes packetlenSize).run { h with packet := h.packet.cleared } with
      | .ok (received, bytes) h' =>
        if received = packetlenSize ∧ ofBytes bytes > 0 then
          .ok () { h' with packet := { h'.packet with recvTarget := ofBytes bytes } }
        else .ok () h'
      | .error e h' => .error e h' := by
  obtain ⟨hpos, htarget⟩ := hidle
  have hclear := onPacket_of_ok (Packet.clear_run h.packet)
  simp only [receiveHeader, EStateM.run_bind, EStateM.run_get, hpos, htarget, and_self, if_true,
    hclear]
  cases (receiveBytes packetlenSize).run { h with packet := h.packet.cleared } with
  | error e h' => rfl
  | ok a h' =>
    -- a header of the right length with a size above 0 is taken
    by_cases hsize : a.1 = packetlenSize ∧ ofBytes a.2 > 0
    · simp only [if_pos hsize]; rfl
    · simp only [if_neg hsize]; rfl

/-- The host after a native receive for the header that gave `n` bytes. -/
def afterHeader (h : Host) (rest : List NativeResult) (n : ℕ) : Host :=
  { h with
    packet := announced h.packet (h.net.inbound.take n)
    net := { h.net with results := rest, inbound := h.net.inbound.drop n } }

theorem receiveHeader_count {n : ℕ} (hidle : Idle h.packet)
    (hres : h.net.results = .count n :: rest) (hn : n ≤ min 2 h.net.inbound.length) :
    receiveHeader.run h = .ok () (afterHeader h rest n) := by
  have hbytes := receiveBytes_count (packetlenSize : Int)
    (h := { h with packet := h.packet.cleared }) hres hn
  have hlen : (h.net.inbound.take n).length = n := by rw [List.length_take]; omega
  have hcast : (n : Int) = packetlenSize ↔ n = 2 := by simp only [packetlenSize]; omega
  rw [receiveHeader_idle hidle, hbytes]
  simp only [afterHeader, announced, hlen, hcast]
  split_ifs <;> rfl

theorem receiveHeader_failure {e : SocketError} (hidle : Idle h.packet)
    (hres : h.net.results = .failure e :: rest) (he : e ≠ .none) :
    receiveHeader.run h = .ok ()
      { h with
        packet := h.packet.cleared
        net := { h.net with results := rest, lastError := e } } := by
  have hbytes := receiveBytes_failure (packetlenSize : Int)
    (h := { h with packet := h.packet.cleared }) hres he
  rw [receiveHeader_idle hidle, hbytes]
  rfl

theorem receiveHeader_pending (hidle : Idle h.packet)
    (hres : ¬Answers (min 2 h.net.inbound.length) h.net.results) :
    receiveHeader.run h = .error .pending { h with packet := h.packet.cleared } := by
  have hbytes := receiveBytes_pending (packetlenSize : Int)
    (h := { h with packet := h.packet.cleared }) hres
  rw [receiveHeader_idle hidle, hbytes]

/-- The packet with its buffer sized for a payload of `t` bytes, about to receive them. -/
def framed (p : Packet) (t : ℕ) : Packet := { p.resized (t + 2) with recvPos := 2 }

/-- The packet after a native receive for a payload of `t` bytes. -/
def received (p : Packet) (t : ℕ) (bytes : List UInt8) : Packet :=
  { framed p t with
    data := splice (framed p t).data 2 bytes
    recvPos := if bytes.length = t then -1 else 2 + bytes.length
    recvTarget := if bytes.length = t then -1 else t }

theorem getRecvRemainder_of_mem {p : Packet} {n : ℕ} (ht : p.recvTarget = t)
    (hpos : p.recvPos = 2 + n) (hn : n ≤ t) (hlt : t < 2 ^ 62) :
    p.getRecvRemainder = (t - n : ℕ) := by
  -- a receive is under way
  have hnot : ¬(p.recvTarget < 0 ∨ p.recvPos < packetlenSize) := by
    rw [ht, hpos]; simp only [packetlenSize]; omega
  rw [Packet.getRecvRemainder, if_neg hnot, ht, hpos,
    toPtrdiff_of_mem (by simp only [packetlenSize]; omega) (by simp only [packetlenSize]; omega)]
  simp only [packetlenSize]
  omega

/-- The body's buffer fits and the write cursor stands inside it. -/
def Fits (p : Packet) (t : ℕ) : Prop :=
  t + 2 < datagramSize ∧ 2 ≤ p.writePos ∧ p.writePos ≤ t + 2

theorem length_framed {p : Packet} (hfits : Fits p t) : (framed p t).data.length = t + 2 := by
  have hlen : (framed p t).data.length = clampSize (t + 2) := Packet.length_resized p (t + 2)
  rw [hlen, Packet.clampSize_of_mem ⟨Nat.le_add_left .., Nat.le_of_lt hfits.1⟩]

/-- What arrives stays inside the buffer. -/
theorem length_received {p : Packet} (hfits : Fits p t) {bytes : List UInt8}
    (hlen : bytes.length ≤ t) : (received p t bytes).data.length = t + 2 := by
  have hframed := length_framed hfits
  show (splice (framed p t).data 2 bytes).length = t + 2
  rw [length_splice _ _ (by omega), hframed]
  omega

/-- What the read of a payload that fits comes down to. -/
theorem receiveBody_eq (ht : h.packet.recvTarget = t) (hfits : Fits h.packet t) :
    receiveBody.run h =
      match (receiveRange 2 t).run { h with packet := framed h.packet t } with
      | .ok count h' =>
        let p := if count > 0 then { h'.packet with recvPos := h'.packet.recvPos + count }
          else h'.packet
        getErrorState.run { h' with packet := if p.getRecvRemainder = 0 then p.recvReset else p }
      | .error e h' => .error e h' := by
  obtain ⟨hlt, hpos⟩ := hfits
  -- the conversions of the source do not wrap for a payload that fits
  have hsize : toSize (h.packet.recvTarget + packetlenSize) = t + 2 := by
    rw [ht, toSize_of_nonneg (by omega) (by simp only [packetlenSize, datagramSize] at *; omega)]
    simp only [packetlenSize]
    omega
  have hclamp : clampSize (t + 2) = t + 2 :=
    Packet.clampSize_of_mem ⟨Nat.le_add_left .., Nat.le_of_lt hlt⟩
  have hresize := onPacket_of_ok (h := h)
    (Packet.resize_ok (p := h.packet) (t + 2) hlt (by rw [hclamp]; omega))
  -- since the position is set back, all of the payload is asked for
  have hremainder : (framed h.packet t).getRecvRemainder = t := by
    have hrec := getRecvRemainder_of_mem (p := framed h.packet t) (n := 0) (t := t) ht rfl
      (Nat.zero_le _) (by simp only [datagramSize] at hlt; omega)
    simpa using hrec
  simp only [receiveBody, EStateM.run_bind, EStateM.run_get, hsize, hresize, modifyPacket,
    EStateM.run_modify]
  have hpacket : { h.packet.resized (t + 2) with recvPos := (packetlenSize : Int) } =
      framed h.packet t := rfl
  simp only [hpacket, hremainder]
  cases (receiveRange 2 t).run { h with packet := framed h.packet t } with
  | error e h' => rfl
  | ok count h' =>
    by_cases hcount : count > 0
    · simp only [if_pos hcount, EStateM.run_bind, EStateM.run_modify, EStateM.run_get]
      split_ifs <;> rfl
    · simp only [if_neg hcount, EStateM.run_bind, EStateM.run_get]
      split_ifs <;> rfl

/-- A native receive into the packet's buffer: what the caller does with its answer. -/
def copyReceived (pos : Int) :
    EStateM.Result Fault Host (Int × List UInt8) → EStateM.Result Fault Host Int
  | .ok (received, bytes) h =>
    .ok received
      { h with packet := { h.packet with data := splice h.packet.data pos.toNat bytes } }
  | .error e h => .error e h

theorem receiveRange_run (pos length : Int) (h : Host) :
    (receiveRange pos length).run h = copyReceived pos ((receiveBytes length).run
      { h with net := { h.net with requested := h.net.requested ++ [(pos, length)] } }) := by
  simp only [receiveRange, modifyNet, EStateM.run_bind, EStateM.run_modify]
  cases (receiveBytes length).run
    { h with net := { h.net with requested := h.net.requested ++ [(pos, length)] } } <;> rfl

/-- The progress that a native receive of `n` bytes makes. -/
theorem progress_eq {q : Packet} {n : ℕ} (ht : q.recvTarget = t) (hpos : q.recvPos = 2)
    (hn : n ≤ t) (hlt : t < 2 ^ 62) :
    (let p := if (n : Int) > 0 then { q with recvPos := q.recvPos + n } else q
      if p.getRecvRemainder = 0 then p.recvReset else p) =
    { q with
      recvPos := if n = t then -1 else 2 + (n : Int)
      recvTarget := if n = t then -1 else (t : Int) } := by
  -- a count of 0 leaves the position where it is
  have hp : (if (n : Int) > 0 then { q with recvPos := q.recvPos + n } else q) =
      { q with recvPos := 2 + (n : Int) } := by
    by_cases hzero : n = 0
    · subst hzero
      simp [← hpos]
    · rw [if_pos (by omega), hpos]
  have hremainder : Packet.getRecvRemainder { q with recvPos := 2 + (n : Int) } = (t - n : ℕ) :=
    getRecvRemainder_of_mem (p := { q with recvPos := 2 + (n : Int) }) ht rfl hn hlt
  simp only [hp, hremainder]
  -- the receive ends when nothing remains
  by_cases hall : n = t
  · simp [hall, Packet.recvReset]
  · have hrest : ¬((t - n : ℕ) : Int) = 0 := by omega
    simp only [if_neg hrest, if_neg hall, ← ht]

/-- The host when the native receive of a payload is called. -/
def requesting (h : Host) (t : ℕ) : Host :=
  { h with
    packet := framed h.packet t
    net := { h.net with requested := h.net.requested ++ [(2, (t : Int))] } }

theorem receiveBody_count {n : ℕ} (ht : h.packet.recvTarget = t) (hfits : Fits h.packet t)
    (hres : h.net.results = .count n :: rest) (hn : n ≤ min t h.net.inbound.length) :
    receiveBody.run h = getErrorState.run
      { requesting h t with
        packet := received h.packet t (h.net.inbound.take n)
        net := { (requesting h t).net with
          results := rest, inbound := h.net.inbound.drop n } } := by
  have hbytes := receiveBytes_count (t : Int) (h := requesting h t) hres
    (by rw [Int.toNat_natCast]; exact hn)
  have hlen : (h.net.inbound.take n).length = n := by rw [List.length_take]; omega
  have hlt : t + 2 < 65536 := hfits.1
  have hrange : (receiveRange 2 t).run { h with packet := framed h.packet t } =
      .ok (n : Int) { requesting h t with
        packet := { framed h.packet t with
          data := splice (framed h.packet t).data 2 (h.net.inbound.take n) }
        net := { (requesting h t).net with
          results := rest, inbound := h.net.inbound.drop n } } := by
    rw [receiveRange_run]
    exact congrArg _ hbytes
  have hprogress := progress_eq (q := { framed h.packet t with
    data := splice (framed h.packet t).data 2 (h.net.inbound.take n) }) (n := n) ht rfl
    (by omega) (by omega)
  rw [receiveBody_eq ht hfits, hrange, received, hlen, ← hprogress]

theorem receiveBody_failure {e : SocketError} (ht : h.packet.recvTarget = t)
    (hfits : Fits h.packet t) (hpos : 0 < t) (hres : h.net.results = .failure e :: rest)
    (he : e ≠ .none) :
    receiveBody.run h = getErrorState.run
      { requesting h t with
        net := { (requesting h t).net with results := rest, lastError := e } } := by
  have hbytes := receiveBytes_failure (t : Int) (h := requesting h t) hres he
  have hlt : t + 2 < 65536 := hfits.1
  have hrange : (receiveRange 2 t).run { h with packet := framed h.packet t } =
      .ok (-1) { requesting h t with
        net := { (requesting h t).net with results := rest, lastError := e } } := by
    rw [receiveRange_run]
    refine (congrArg _ hbytes).trans ?_
    simp only [copyReceived, splice_nil]
  -- all of the payload remains
  have hremainder : (framed h.packet t).getRecvRemainder = t := by
    have hrec := getRecvRemainder_of_mem (p := framed h.packet t) (n := 0) (t := t) ht rfl
      (Nat.zero_le _) (by omega)
    simpa using hrec
  have hrest : t ≠ 0 := by omega
  rw [receiveBody_eq ht hfits, hrange]
  simp [requesting, hremainder, hrest]

theorem receiveBody_pending (ht : h.packet.recvTarget = t) (hfits : Fits h.packet t)
    (hres : ¬Answers (min t h.net.inbound.length) h.net.results) :
    receiveBody.run h = .error .pending (requesting h t) := by
  have hbytes := receiveBytes_pending (t : Int) (h := requesting h t)
    (by rw [Int.toNat_natCast]; exact hres)
  have hrange : (receiveRange 2 t).run { h with packet := framed h.packet t } =
      .error .pending (requesting h t) := by
    rw [receiveRange_run]
    exact congrArg _ hbytes
  rw [receiveBody_eq ht hfits, hrange]

/-- A payload that does not fit makes the resize throw, and every later one too. -/
theorem receiveBody_throws (ht : h.packet.recvTarget = t) (hlt : t ≤ 65535)
    (hp : h.packet.InLimits) (hfits : ¬Fits h.packet t) :
    ∃ e q, receiveBody.run h = .error e { h with packet := q } ∧ Caught e ∧
      Packet.Rebuilt h.packet q (clampSize (t + 2)) := by
  have hsize : toSize (h.packet.recvTarget + packetlenSize) = t + 2 := by
    rw [ht, toSize_of_nonneg (by omega) (by simp only [packetlenSize]; omega)]
    simp only [packetlenSize]
    omega
  obtain ⟨e, q, hrun, hcaught, hrebuilt⟩ := Packet.resize_throws hp (t + 2) (by
    simp only [Fits, clampSize, datagramSize] at *
    omega)
  refine ⟨e, q, ?_, hcaught, hrebuilt⟩
  simp only [receiveBody, EStateM.run_bind, EStateM.run_get, hsize, onPacket_of_error hrun]

end Frames

/-! ## One call -/

section Receive

variable {h h' : Host}

theorem receive_udp (hudp : h.socket.protocol = .udp) :
    receive.run h = EStateM.run (do receiveDatagramPacket (← receiveDatagram)) h := by
  simp only [receive, EStateM.run_bind, EStateM.run_get, if_pos hudp]

/-- On a stream the payload is read if one has been announced. -/
theorem receive_announced (htcp : h.socket.protocol ≠ .udp)
    (hheader : receiveHeader.run h = .ok () h') (htarget : 0 < h'.packet.recvTarget) :
    receive.run h = receiveBody.run h' := by
  simp only [receive, EStateM.run_bind, EStateM.run_get, if_neg htcp, hheader,
    if_neg (not_le.mpr htarget)]

/-- The payload that an earlier call was told of is read at once. -/
theorem receive_resuming (htcp : h.socket.protocol ≠ .udp) (htarget : 0 < h.packet.recvTarget) :
    receive.run h = receiveBody.run h :=
  receive_announced htcp (receiveHeader_resuming (Int.le_of_lt htarget)) htarget

theorem receive_unannounced (htcp : h.socket.protocol ≠ .udp)
    (hheader : receiveHeader.run h = .ok () h') (htarget : h'.packet.recvTarget ≤ 0) :
    receive.run h = getErrorState.run h' := by
  simp only [receive, EStateM.run_bind, EStateM.run_get, if_neg htcp, hheader, if_pos htarget]

theorem receive_of_error {e : Fault} (htcp : h.socket.protocol ≠ .udp)
    (hheader : receiveHeader.run h = .error e h') : receive.run h = .error e h' := by
  simp only [receive, EStateM.run_bind, EStateM.run_get, if_neg htcp, hheader]

end Receive

end Sws.Socket
