import Sws.Model.Address

/-!
# Resolve: Looking Up Addresses and Names

`Address::get_addresses` and `Address::get_name`, with the lists that `getaddrinfo` allocates and
`freeaddrinfo` takes back.

## Model

- The results of the native calls are a script.  `getaddrinfo` gives a list of at least one address,
  or an error code and no list; a failure without a code does not occur.
- Lists are numbered in the order in which they are allocated.  With every call of `freeaddrinfo`
  the resolver keeps its argument; `none` is a null pointer.
- The text of an exception ends where the system's description of its error code begins.
-/

namespace Sws

/-! ## Sizes -/

/-- The native code of the family. -/
def Sockaddr.family : Sockaddr → UInt16
  | .inet .. => 2
  | .inet6 .. => 23
  | .unsupported family => family

/-- `native_size(ADDRESS_FAMILY)`: `0` for a family that is not supported. -/
def Address.nativeSizeOf (family : UInt16) : ℕ :=
  if family = 2 then 16 else if family = 23 then 28 else 0

/-! ## Errors -/

/-- The native error code. -/
def SocketError.code : SocketError → Int
  | .none => 0
  | .wouldBlock => 10035
  | .alreadyInProgress => 10037
  | .connectionAborted => 10053
  | .connectionReset => 10054
  | .timedOut => 10060
  | .networkReset => 10052
  | .notConnected => 10057
  | .isConnected => 10056
  | .other code => code

/-- `AddressResolveException(address, port, error)`. -/
def addressResolveException (address : Option String) (port : UInt16) (error : SocketError) :
    Exception :=
  .socketException
    ("Failed to resolve host: " ++ address.getD "[any]" ++ ":" ++ port.toNat.repr ++
      " (error code " ++ error.code.repr ++ ")")
    error

/-! ## The resolver -/

/-- The families that `getaddrinfo` is asked for. -/
inductive AddrinfoFamily
  | inet
  | inet6
  | unspec
  deriving DecidableEq, Repr

/-- `addrinfo`, as far as it is set when it serves as a hint. -/
structure Hints where
  /-- `AI_ALL`. -/
  all : Bool
  family : AddrinfoFamily
  deriving DecidableEq, Repr

/-- A call of `getaddrinfo`; `none` is a null pointer. -/
structure Query where
  host : Option String
  service : Option String
  hints : Hints
  deriving DecidableEq, Repr

/-- The result of `getaddrinfo`. -/
inductive Resolution
  | found (first : Sockaddr) (rest : List Sockaddr)
  | failed (e : SocketError)
  deriving DecidableEq, Repr

/-- The result of `getnameinfo`: what it has written to the buffer, or the last error. -/
inductive NameReply
  | node (text : List Char)
  | failed (e : SocketError)
  deriving DecidableEq, Repr

structure Resolver where
  /-- The results of `getaddrinfo` to come. -/
  answers : List Resolution := []
  /-- The results of `getnameinfo` to come. -/
  names : List NameReply := []
  queries : List Query := []
  /-- The native addresses and the sizes that were passed to `getnameinfo`. -/
  asked : List (Sockaddr × ℕ) := []
  /-- The number of lists that were allocated. -/
  allocated : ℕ := 0
  freed : List (Option ℕ) := []
  deriving DecidableEq, Repr

/-- Programs on the resolver. -/
abbrev ResolverM := EStateM Fault Resolver

namespace Resolver

/-- `getaddrinfo`: the error code and no list, or the list and its addresses. -/
def getaddrinfo (query : Query) : ResolverM (SocketError × Option ℕ × List Sockaddr) := do
  modify fun r => { r with queries := r.queries ++ [query] }
  let r ← get
  match r.answers with
  | [] => throw .pending
  | .failed e :: rest =>
    if e = .none then throw .pending
    modify fun r => { r with answers := rest }
    return (e, none, [])
  | .found first others :: rest =>
    modify fun r => { r with answers := rest, allocated := r.allocated + 1 }
    return (.none, some r.allocated, first :: others)

def freeaddrinfo (list : Option ℕ) : ResolverM Unit :=
  modify fun r => { r with freed := r.freed ++ [list] }

/-- `getnameinfo`: the text of the buffer, or `none` and the last error. -/
def getnameinfo (native : Sockaddr) (size : ℕ) : ResolverM (Except SocketError (List Char)) := do
  modify fun r => { r with asked := r.asked ++ [(native, size)] }
  match (← get).names with
  | [] => throw .pending
  | .failed e :: rest =>
    modify fun r => { r with names := rest }
    return .error e
  | .node text :: rest =>
    modify fun r => { r with names := rest }
    return .ok text

end Resolver

namespace Address

open Resolver

/-- The loop of `get_addresses` over the list. -/
def convertAll (inet : InetText) (result : Option ℕ) :
    List Sockaddr → (addresses : List Address) → ResolverM (List Address)
  | [], addresses => return addresses
  | x :: xs, addresses => do
    match fromNative inet x with
    | .error e =>
      freeaddrinfo result
      throw (.thrown e)
    | .ok a => convertAll inet result xs (addresses ++ [a])

/-- `get_addresses(host, service, family)`. -/
def getAddresses (inet : InetText) (host service : Option String) (family : AddressFamily) :
    ResolverM (List Address) := do
  let hints : Hints ←
    match family with
    | .none => throw (.thrown (.runtimeError "invalid address family"))
    | .inet => pure ⟨true, .inet⟩
    | .inet6 => pure ⟨true, .inet6⟩
    | .any => pure ⟨true, .unspec⟩
  let (error, result, list) ← getaddrinfo ⟨host, service, hints⟩
  if error ≠ .none then
    freeaddrinfo result
    -- the service is not named, whatever was asked for
    throw (.thrown (addressResolveException host 0 error))
  let addresses ← convertAll inet result list []
  freeaddrinfo result
  return addresses

/-- `get_addresses(host, port, family)`. -/
def getAddressesAt (inet : InetText) (host : Option String) (port : UInt16)
    (family : AddressFamily) : ResolverM (List Address) :=
  getAddresses inet host (if port = 0 then none else some port.toNat.repr) family

/-- The size of the buffer of `get_name`, `NI_MAXHOST`. -/
def maxHost : ℕ := 1025

/-- `get_name()`. -/
def getName (inet : InetText) (self : Address) : ResolverM Address := do
  let native ← liftExcept (self.toNative inet)
  let size ← liftExcept self.nativeSize
  match ← getnameinfo native size with
  | .error e => throw (.thrown (.socketException "getnameinfo failed" e))
  | .ok node =>
    let hostName := String.ofList ((node.take maxHost).takeWhile (· ≠ '\x00'))
    return ⟨hostName, self.port, self.family⟩

end Address

end Sws
