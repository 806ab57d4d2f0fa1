import Sws.Model.Platform

/-!
# Winsock: Start-up and Clean-up

`Socket::initialize` and `Socket::cleanup`, with the flag that the first one keeps and the count
that Winsock keeps.

## Model

- A successful `WSAStartup` counts up, a successful `WSACleanup` counts down.
- `WSACleanup` does not succeed before there has been a start-up to undo; a result outside that
  contract does not occur, and the call stays pending.
-/

namespace Sws

structure Winsock where
  /-- `is_initialized_`. -/
  isInitialized : Bool := false
  /-- The start-ups that have not been undone. -/
  startups : ℕ := 0
  deriving DecidableEq, Repr

/-- Programs on the state that all sockets share. -/
abbrev WinsockM := EStateM Fault Winsock

namespace Winsock

/-- `WSAStartup`, with the given result. -/
def wsaStartup (result : SocketError) : WinsockM SocketError := do
  if result = .none then modify fun w => { w with startups := w.startups + 1 }
  return result

/-- `WSACleanup`, with the given result. -/
def wsaCleanup (result : SocketError) : WinsockM SocketError := do
  if result = .none then
    if (← get).startups = 0 then throw .pending
    modify fun w => { w with startups := w.startups - 1 }
  return result

/-- `initialize`, where `WSAStartup` has the given result if it is called. -/
def initializeWinsock (startup : SocketError) : WinsockM SocketError := do
  if (← get).isInitialized then return .none
  let result ← wsaStartup startup
  if result = .none then modify fun w => { w with isInitialized := true }
  return result

/-- `cleanup`, where `WSACleanup` has the given result. -/
def cleanupWinsock (cleanup : SocketError) : WinsockM SocketError := wsaCleanup cleanup

end Winsock

end Sws
