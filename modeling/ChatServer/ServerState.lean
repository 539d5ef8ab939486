import ChatServer.Heap
import ChatServer.Protocol

/-! include/client_info.h, msg_packet.h, msg_queue.h and server_state.h: the
records of the server, the kernel's side of a client's socket, and the world
that holds both. Pointers are addresses in a heap of their type, NULL is `none`.

What the environment decides (short reads and writes, failing allocations and
system calls) is read from the oracle of the client it happens to; an oracle
that is used up lets reads and allocations succeed and makes sends block. -/
set_option autoImplicit false

namespace ChatServer
open ByteString Memory

inductive Fault where
  | useAfterFree | badDescriptor | nullPointer | outOfBounds | deadlock | outOfFuel
  deriving DecidableEq, Repr

structure MsgPacket where
  next : Option Nat
  packetData : Bytes
  len : Nat
  offset : Nat
  deriving DecidableEq, Repr

structure MsgQueue where
  head : Option Nat
  tail : Option Nat
  queuedBytes : Nat
  queuedCount : Nat
  deriving DecidableEq, Repr

def MsgQueue.empty : MsgQueue := ⟨none,none,0,0⟩

inductive ReadState where
  | readHeader | readPayload
  deriving DecidableEq, Repr

/-- The flags of the C struct only ever hold 0 and 1. The fields `write_buffer`,
`write_len` and `write_offset` are set once and never read. -/
structure ClientInfo where
  clientFd : Nat
  state : ReadState
  headerBuffer : Buf headerSize
  headerBytesRead : Nat
  expectedPayloadLen : Nat
  msgType : UInt8
  msgDone : UInt8
  payloadBuffer : Buf bufSize
  payloadBytesRead : Nat
  msgQueue : MsgQueue
  epolloutEnabled : Bool
  name : Buf nameMax
  nameLen : Nat
  hasName : Bool
  partialMsg : Option Bytes
  partialLen : Nat
  partialCap : Nat
  closed : Bool

inductive ReadRes where
  | upTo : Nat → ReadRes
  | wouldBlock | fails
  deriving DecidableEq, Repr

/-- The two allocations of `create_packet`: the data, then the node, for which
the allocator proposes an address. -/
structure PacketAlloc where
  data : Bool
  node : Option Nat
  deriving DecidableEq, Repr

/-- The results still to come for one client. An allocation in `blocks` carries
the old contents of the memory it returns. -/
structure Oracle where
  reads : List ReadRes
  sends : List SendRes
  ctls : List Bool
  packets : List PacketAlloc
  blocks : List (Option Bytes)
  closeOk : Bool
  deriving DecidableEq, Repr

inductive Path where
  | queued | direct
  deriving DecidableEq, Repr

structure Offer where
  index : Nat
  own : Bool
  closed : Bool
  allocates : Bool
  queuedBytes : Nat
  len : Nat
  deriving DecidableEq, Repr

/-- What a direct write finds: how far the head of the queue has been sent,
whether the client is closed, and the results that the writes will get. -/
structure DirectWrite where
  msgType : UInt8
  payload : Bytes
  headOffset : Nat
  closed : Bool
  sends : List SendRes
  deriving DecidableEq, Repr

/-- The history of one connection, oldest first. No program step reads it.
`epollMod` says whether EPOLLOUT was asked for, and whether the call succeeded. -/
inductive Obs where
  | read : Bytes → Obs
  | endOfStream | readFailed | blockFailed
  | message : Option Bytes → Obs
  | verdict : Int → Obs
  | readReturned : Int → Obs
  | offered : Offer → Obs
  | enqueued : Nat → Bytes → Obs
  | sent : Path → Bytes → Obs
  | writeFailed
  | listing : List Bytes → Obs
  | direct : DirectWrite → Obs
  | hangup : Bytes → Obs
  | epollMod : Bool → Bool → Obs
  | markedClosed
  deriving DecidableEq, Repr

structure EpollMask where
  epollin : Bool
  epollout : Bool
  epollrdhup : Bool
  deriving DecidableEq, Repr

structure Registration where
  mask : EpollMask
  ptr : Nat
  deriving DecidableEq, Repr

/-- An open socket: what arrived and was not read, whether the peer's FIN or a
reset arrived, and its epoll registration, which goes when the descriptor is
closed. `serial`, `joined` and `trace` are history: the number of the
connection, the broadcasts made before it, and what happened on it. -/
structure Sock where
  inbox : Bytes
  fin : Bool
  reset : Bool
  registration : Option Registration
  oracle : Oracle
  serial : Nat
  joined : Nat
  trace : List Obs
  deriving DecidableEq, Repr

structure Timestamp where
  hour : Fin 24
  minute : Fin 60
  second : Fin 61
  deriving DecidableEq, Repr

/-- What `localtime` gives for the present time, call by call. `get_timestamp` leaves its text
unset when that is null, which its callers do not look at: it is assumed not to be. -/
structure Clock where
  times : List (Option Timestamp)
  localtime_ok : none ∉ times

def Clock.unread : Clock := ⟨[],List.not_mem_nil⟩

def Clock.tail (c : Clock) : Clock :=
  ⟨c.times.tail,fun h => c.localtime_ok (List.mem_of_mem_tail h)⟩

structure Broadcast where
  sender : Option Nat
  msg : Bytes
  deriving DecidableEq, Repr

/-- `clientList` is `client_list[0..client_count)`. `broadcasts`, `accepted`
and `orphans` are history: the calls of `broadcast`, the number of connections
accepted, and the message blocks whose owner was freed without them. -/
structure World where
  clientList : List Nat
  clientMutex : Bool
  serverShutdown : Bool
  clients : Heap ClientInfo
  packets : Heap MsgPacket
  socks : Heap Sock
  clock : Clock
  broadcasts : List Broadcast
  accepted : Nat
  orphans : List Bytes

def Sock.note (k : Sock) (o : Obs) : Sock := { k with trace := k.trace ++ [o] }

namespace World

def client (w : World) (p : Nat) : Except Fault ClientInfo :=
  match w.clients.get p with
  | some c => .ok c
  | none => .error .useAfterFree

def packet (w : World) (a : Nat) : Except Fault MsgPacket :=
  match w.packets.get a with
  | some m => .ok m
  | none => .error .useAfterFree

def sock (w : World) (fd : Nat) : Except Fault Sock :=
  match w.socks.get fd with
  | some k => .ok k
  | none => .error .badDescriptor

def putClient (w : World) (p : Nat) (c : ClientInfo) : World :=
  { w with clients := w.clients.set p c }

def putPacket (w : World) (a : Nat) (m : MsgPacket) : World :=
  { w with packets := w.packets.set a m }

def freePacket (w : World) (a : Nat) : World := { w with packets := w.packets.free a }

def putSock (w : World) (fd : Nat) (k : Sock) : World :=
  { w with socks := w.socks.set fd k }

def put (w : World) (p : Nat) (c : ClientInfo) (k : Sock) : World :=
  (w.putClient p c).putSock c.clientFd k

def note (w : World) (p : Nat) (o : Obs) : Except Fault World := do
  let c ← w.client p
  let k ← w.sock c.clientFd
  pure (w.putSock c.clientFd (k.note o))

/-- pthread_mutex_lock: the thread that holds the mutex waits for itself. -/
def lock (w : World) : Except Fault World :=
  if w.clientMutex then .error .deadlock else .ok { w with clientMutex := true }

def unlock (w : World) : World := { w with clientMutex := false }

end World

def markClosed (w : World) (p : Nat) : Except Fault World := do
  let c ← w.client p
  let w := w.putClient p { c with closed := true }
  w.note p .markedClosed

end ChatServer
