import Sws.Model.Platform

/-!
# Addresses

`sws::Address`, its conversion from and to the native socket addresses, and its text.  The
conversion between a native address and its text is the platform's (`inet_ntop`, `inet_pton`) and a
parameter.
-/

namespace Sws

/-- The address family of an address. -/
inductive AddressFamily
  | none
  | inet
  | inet6
  | any
  deriving DecidableEq, Repr

structure Address where
  address : String := ""
  port : UInt16 := 0
  family : AddressFamily := .none
  deriving DecidableEq, Repr

/-- `sockaddr_storage`, by the family it holds.  Ports are in network byte order. -/
inductive Sockaddr
  | inet (port : UInt16) (addr : List UInt8)
  | inet6 (port : UInt16) (flowInfo : UInt32) (addr : List UInt8) (scopeId : UInt32)
  | unsupported (family : UInt16)
  deriving DecidableEq, Repr

/-- The outcome of `inet_pton`: the address, `0` for a text that is none, or `-1`. -/
inductive PtonResult
  | address (addr : List UInt8)
  | invalid
  | failure (e : SocketError)
  deriving DecidableEq, Repr

/-- The platform's text forms of IPv4 and IPv6 addresses. -/
structure InetText where
  /-- `inet_ntop`; `none` is a null result. -/
  ntop : AddressFamily → List UInt8 → Option String
  /-- `inet_pton`. -/
  pton : AddressFamily → String → PtonResult

/-- A platform that knows the loopback address and no other. -/
def InetText.loopback : InetText where
  ntop family addr := if family = .inet ∧ addr = [127, 0, 0, 1] then some "127.0.0.1" else none
  pton family text :=
    if family = .inet ∧ text = "127.0.0.1" then .address [127, 0, 0, 1] else .invalid

def htons (x : UInt16) : UInt16 := x <<< 8 ||| x >>> 8

def ntohs (x : UInt16) : UInt16 := x <<< 8 ||| x >>> 8

namespace Address

/-- Converts a native address. -/
def fromNative (inet : InetText) : Sockaddr → Except Exception Address
  | .inet port addr =>
    match inet.ntop .inet addr with
    | none => .error (.runtimeError "inet_ntop failed")
    | some str => .ok ⟨str, ntohs port, .inet⟩
  | .inet6 port _ addr _ =>
    match inet.ntop .inet6 addr with
    | none => .error (.runtimeError "inet_ntop failed")
    | some str => .ok ⟨str, ntohs port, .inet6⟩
  | .unsupported _ => .error (.runtimeError "unsupported address family")

/-- Returns the native address converted from this instance. -/
def toNative (inet : InetText) (a : Address) : Except Exception Sockaddr :=
  match a.family with
  | .inet =>
    match inet.pton .inet a.address with
    | .failure e => .error (.socketException "inet_pton failed" e)
    | .invalid => .error (.runtimeError "invalid string passed to inet_pton")
    | .address addr => .ok (.inet (htons a.port) addr)
  | .inet6 =>
    match inet.pton .inet6 a.address with
    | .failure e => .error (.socketException "inet_pton failed" e)
    | .invalid => .error (.runtimeError "invalid string passed to inet_pton")
    | .address addr => .ok (.inet6 (htons a.port) 0 addr 0)
  | _ => .error (.runtimeError "invalid address family")

/-- `native_size()`: `sizeof(sockaddr_in)` or `sizeof(sockaddr_in6)`. -/
def nativeSize (a : Address) : Except Exception ℕ :=
  match a.family with
  | .inet => .ok 16
  | .inet6 => .ok 28
  | _ => .error (.runtimeError "invalid address family")

/-! ## Text -/

/-- The loop of `is_numeric` over an IPv4 text. -/
def isNumericInet : (hasNumber : Bool) → List Char → Bool
  | hasNumber, [] => hasNumber
  | hasNumber, c :: cs =>
    if c = '.' then
      if !hasNumber then false else isNumericInet hasNumber cs
    else if '0' ≤ c ∧ c ≤ '9' then
      isNumericInet true cs
    else
      false

/-- The loop of `is_numeric` over an IPv6 text. -/
def isNumericInet6 : (hasNumber : Bool) → List Char → Bool
  | hasNumber, [] => hasNumber
  | hasNumber, c :: cs =>
    if ('a' ≤ c ∧ c ≤ 'f') ∨ ('A' ≤ c ∧ c ≤ 'F') ∨ ('0' ≤ c ∧ c ≤ '9') then
      isNumericInet6 true cs
    else if c = ':' then
      isNumericInet6 hasNumber cs
    else
      false

/-- Determines if this instance is a numeric address. -/
def isNumeric (a : Address) : Bool :=
  if a.address = "" then false
  else
    match a.family with
    | .inet => isNumericInet false a.address.toList
    | .inet6 => isNumericInet6 false a.address.toList
    | _ => false

/-- Returns a string representation of this address. -/
def toString (a : Address) : String :=
  if a.family ≠ .inet6 ∨ ¬a.isNumeric = true then
    if a.port ≠ 0 then a.address ++ ":" ++ a.port.toNat.repr else a.address
  else
    if a.port ≠ 0 then "[" ++ a.address ++ "]:" ++ a.port.toNat.repr else a.address

end Address

end Sws
