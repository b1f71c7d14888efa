/-
Evlampy/TcpServer.lean

The server's table of online users.  A receive handler is the lambda of one
`ChatClient` object, so the table holds the object's identity.  `sendTo` calls
the handler after it has let go of the lock; its locked section, the lookup, is
`findHandler`, and the call itself is made by whoever runs the clients.
-/
import Evlampy.Cxx
import Evlampy.UnorderedMap

namespace Evlampy

open UnorderedMap

/-- The identity of a `ChatClient` object. -/
abbrev ClientId := Nat

/-- The handlers by the names they are connected under, the lock apart. -/
structure TcpServer where
  handlers : UnorderedMap Str ClientId

namespace TcpServer

/-- Nobody is connected. -/
def empty : TcpServer := ⟨∅⟩

/-- `emplace` keeps the handler that has the name, if one has. -/
def connectClient (username : Str) (handler : ClientId) (s : TcpServer) : Bool × TcpServer :=
  let r := emplace username handler s.handlers
  (r.1, ⟨r.2⟩)

/-- By name: whose handler it is is not asked. -/
def disconnectClient (username : Str) (s : TcpServer) : TcpServer :=
  ⟨s.handlers.erase username⟩

/-- The locked section of `sendTo`. -/
def findHandler (toUser : Str) (s : TcpServer) : Option ClientId :=
  s.handlers.lookup toUser

end TcpServer

end Evlampy
