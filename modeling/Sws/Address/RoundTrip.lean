import Sws.Address.Platform
import Sws.Socket.Datagram
import Sws.Socket.Effect

/-!
# Native Addresses There and Back

An `Address` keeps the text, the port and the family of a native address.  The flow information and
the scope of an IPv6 address are lost, and come back as 0.

## Key Results

- `toNative_fromNative`: what comes back of an address.
- `receiveFrom_address`: the address that `receive_from` assigns is that of the sender.
- `roundTrips_iff`: an address comes back as it was, and an answer goes to it, exactly if it has
  neither flow information nor a scope.
-/

namespace Sws

open Sws.Foundation

variable {inet : InetText} {x : Sockaddr}

/-! ## What comes back -/

namespace Sockaddr

/-- An IPv4 or an IPv6 address. -/
def IsIp : Sockaddr → Prop
  | .inet _ addr => addr.length = 4
  | .inet6 _ _ addr _ => addr.length = 16
  | .unsupported _ => False

/-- The address without what only IPv6 has. -/
def unscoped : Sockaddr → Sockaddr
  | .inet6 port _ addr _ => .inet6 port 0 addr 0
  | x => x

/-- There is neither flow information nor a scope. -/
def Unscoped : Sockaddr → Prop
  | .inet6 _ flowInfo _ scopeId => flowInfo = 0 ∧ scopeId = 0
  | _ => True

theorem unscoped_eq_self_iff : x.unscoped = x ↔ x.Unscoped := by
  cases x with
  | inet6 port flowInfo addr scopeId =>
    simp only [unscoped, Unscoped, Sockaddr.inet6.injEq, true_and]
    exact ⟨fun h => ⟨h.1.symm, h.2.symm⟩, fun h => ⟨h.1.symm, h.2.symm⟩⟩
  | inet port addr => exact iff_of_true rfl trivial
  | unsupported family => exact iff_of_true rfl trivial

end Sockaddr

namespace Address

/-- The family, the bytes of the address and the port come back, and nothing else. -/
theorem toNative_fromNative (hinet : inet.Inverts) (hx : x.IsIp) :
    ∃ a, fromNative inet x = .ok a ∧ a.toNative inet = .ok x.unscoped := by
  cases x with
  | inet port addr =>
    have hlen : addr.length = 4 := hx
    obtain ⟨text, hprints, hreads⟩ := hinet .inet addr (by rw [hlen]; rfl)
    exact ⟨⟨text, ntohs port, .inet⟩, by simp only [fromNative, hprints],
      by simp only [toNative, hreads, htons_ntohs, Sockaddr.unscoped]⟩
  | inet6 port flowInfo addr scopeId =>
    have hlen : addr.length = 16 := hx
    obtain ⟨text, hprints, hreads⟩ := hinet .inet6 addr (by rw [hlen]; rfl)
    exact ⟨⟨text, ntohs port, .inet6⟩, by simp only [fromNative, hprints],
      by simp only [toNative, hreads, htons_ntohs, Sockaddr.unscoped]⟩
  | unsupported family => exact hx.elim

/-- A native address comes back as it was. -/
def RoundTrips (inet : InetText) (x : Sockaddr) : Prop :=
  ∃ a, fromNative inet x = .ok a ∧ a.toNative inet = .ok x

theorem roundTrips_iff_unscoped (hinet : inet.Inverts) (hx : x.IsIp) :
    RoundTrips inet x ↔ x.Unscoped := by
  obtain ⟨a, hfrom, hto⟩ := toNative_fromNative hinet hx
  rw [← Sockaddr.unscoped_eq_self_iff]
  constructor
  · rintro ⟨b, hb, hback⟩
    cases hfrom.symm.trans hb
    exact Except.ok.inj (hto.symm.trans hback)
  · intro h
    exact ⟨a, hfrom, by rw [hto, h]⟩

end Address

/-! ## Answers -/

namespace UdpSocket

/-- A receive does not change where the datagram comes from. -/
theorem receiveDatagram_source (x : Sockaddr) :
    Ensures (fun h => h.net.source = x) Socket.receiveDatagram (fun _ h => h.net.source = x)
      (fun _ _ => True) := by
  apply Ensures.of_eq
  intro h hx
  cases hd : h.socket.datagram with
  | none => exact Ensures.of_error (Socket.receiveDatagram_null hd) trivial
  | some d =>
    rcases Socket.answers_cases (min datagramSize h.net.inbound.length) h.net.results with
      ⟨n, rest, hres, hn⟩ | ⟨e, rest, hres, he⟩ | hpending
    · exact Ensures.of_ok (Socket.receiveDatagram_count hd hres hn) hx
    · exact Ensures.of_ok (Socket.receiveDatagram_failure hd hres he) hx
    · exact Ensures.of_error (Socket.receiveDatagram_pending hd hpending) trivial

/-- The address that is assigned is made of the sender's. -/
theorem receiveFrom_assigns (inet : InetText) (x : Sockaddr) :
    Ensures (fun h => h.net.source = x) (receiveFrom inet)
      (fun r _ => ∀ a, r.2 = some a → Address.fromNative inet x = .ok a) (fun _ _ => True) := by
  apply Ensures.bind (receiveDatagram_source x)
  intro received
  have hrest : ∀ address : Option Address,
      Ensures (fun _ => ∀ a, address = some a → Address.fromNative inet x = .ok a)
        (do return (← Socket.receiveDatagramPacket received, address))
        (fun r _ => ∀ a, r.2 = some a → Address.fromNative inet x = .ok a) (fun _ _ => True) := by
    intro address
    refine Ensures.bind (Q := fun _ _ => ∀ a, address = some a → Address.fromNative inet x = .ok a)
      ⟨fun h haddress => ?_⟩ fun state => Ensures.pure fun _ h => h
    cases Socket.receiveDatagramPacket received h with
    | ok state h' => exact haddress
    | error e h' => trivial
  apply Ensures.ite
  · -- nothing has been received, and the address is left as it was
    intro _
    exact Ensures.bind (Ensures.pure fun _ _ a ha => by cases ha) hrest
  · intro _
    apply Ensures.get_bind
    intro h hx
    apply Ensures.bind _ hrest
    rw [hx]
    cases Address.fromNative inet x with
    | ok a => exact ⟨fun _ _ b hb => by cases hb; rfl⟩
    | error e => exact ⟨fun _ _ => trivial⟩

theorem receiveFrom_address {h h' : Host} {state : SocketState} {a : Address}
    (hrun : (receiveFrom inet).run h = .ok (state, some a) h') :
    Address.fromNative inet h.net.source = .ok a := by
  have hend := (receiveFrom_assigns inet h.net.source).run h rfl
  have hrun' : receiveFrom inet h = .ok (state, some a) h' := hrun
  rw [hrun'] at hend
  exact hend a rfl

/-- An answer to the address that `receive_from` assigned goes where the datagram came from. -/
def Answers (inet : InetText) (x : Sockaddr) : Prop :=
  ∀ receiver receiver' state address sender, receiver.net.source = x →
    (receiveFrom inet).run receiver = .ok (state, some address) receiver' →
    sender.packet.empty = false →
    (finalState ((sendTo inet address).run sender)).net.destinations =
      sender.net.destinations ++ [x]

/-- An address is only made of a text that the platform prints. -/
theorem prints_of_fromNative {a : Address} (h : Address.fromNative inet x = .ok a) :
    Prints inet x := by
  cases x with
  | inet port addr =>
    intro hnone
    simp only [Address.fromNative, hnone, reduceCtorEq] at h
  | inet6 port flowInfo addr scopeId =>
    intro hnone
    simp only [Address.fromNative, hnone, reduceCtorEq] at h
  | unsupported family => cases h

/-- A datagram that arrives from the address. -/
def arriving (x : Sockaddr) : Host :=
  { receivingByte with net := { receivingByte.net with source := x } }

theorem arrives_arriving (hinet : inet.Inverts) (hx : x.IsIp) :
    Arrives inet [1, 0, 7] (arriving x) := by
  obtain ⟨a, hfrom, -⟩ := Address.toNative_fromNative hinet hx
  exact ⟨⟨_, rfl⟩, ⟨[], rfl⟩, List.prefix_refl _, prints_of_fromNative hfrom⟩

theorem answers_iff_unscoped (hinet : inet.Inverts) (hx : x.IsIp) :
    Answers inet x ↔ x.Unscoped := by
  obtain ⟨a, hfrom, hto⟩ := Address.toNative_fromNative hinet hx
  rw [← Sockaddr.unscoped_eq_self_iff]
  constructor
  · intro hanswers
    have hannounces : Socket.Announces [1, 0, 7] ([1, 0, 7] : List UInt8).length :=
      (Socket.announces_iff (by decide)).mpr (by decide)
    obtain ⟨b, receiver', hrun, -⟩ :=
      receiveFrom_accepted (arrives_arriving hinet hx) hannounces (by decide)
    cases hfrom.symm.trans (receiveFrom_address hrun)
    -- the packet that has arrived is sent back
    have hfull : receivingByte.packet.empty = false := rfl
    have hgoes := hanswers (arriving x) receiver' .done a receivingByte rfl hrun hfull
    rw [(sendTo_offers hfull hto).2.2] at hgoes
    exact List.singleton_inj.mp (List.append_cancel_left hgoes)
  · intro hback receiver receiver' state address sender hsource hrun hfull
    have haddress := receiveFrom_address hrun
    rw [hsource] at haddress
    cases hfrom.symm.trans haddress
    exact (sendTo_offers hfull (hto.trans (by rw [hback]))).2.2

end UdpSocket

namespace Address

/-- **There and back.** A native address comes back as it was, and an answer to a datagram goes to
where it came from, exactly if the address has neither flow information nor a scope. -/
theorem roundTrips_iff (hinet : inet.Inverts) (hx : x.IsIp) :
    (RoundTrips inet x ↔ x.Unscoped) ∧ (UdpSocket.Answers inet x ↔ x.Unscoped) :=
  ⟨roundTrips_iff_unscoped hinet hx, UdpSocket.answers_iff_unscoped hinet hx⟩

/-- A link-local address, with the interface that it is reached by. -/
def linkLocal (scopeId : UInt32) : Sockaddr :=
  .inet6 20480 0 [254, 128, 0, 0, 0, 0, 0, 0, 0, 0, 0, 0, 0, 0, 0, 1] scopeId

theorem linkLocal_isIp (scopeId : UInt32) : (linkLocal scopeId).IsIp := rfl

theorem roundTrips_iff_linkLocal :
    RoundTrips .standard (linkLocal 0) ∧ UdpSocket.Answers .standard (linkLocal 0) :=
  have hinet := InetText.standard_inverts
  ⟨(roundTrips_iff hinet (linkLocal_isIp 0)).1.mpr ⟨rfl, rfl⟩,
    (roundTrips_iff hinet (linkLocal_isIp 0)).2.mpr ⟨rfl, rfl⟩⟩

/-- The scope is lost. -/
theorem not_roundTrips_linkLocal :
    ¬RoundTrips .standard (linkLocal 3) ∧ ¬UdpSocket.Answers .standard (linkLocal 3) := by
  have hinet := InetText.standard_inverts
  have hscoped : ¬(linkLocal 3).Unscoped := by
    rintro ⟨-, hscope⟩
    exact absurd hscope (by decide)
  exact ⟨fun h => hscoped ((roundTrips_iff_unscoped hinet (linkLocal_isIp 3)).mp h),
    fun h => hscoped ((UdpSocket.answers_iff_unscoped hinet (linkLocal_isIp 3)).mp h)⟩

end Address

end Sws
