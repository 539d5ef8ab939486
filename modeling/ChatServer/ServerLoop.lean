import ChatServer.Reader
import ChatServer.Simulation

/-! src/server/client_info_init.c, client_list.c, accept_new_clients.c and
server_loop.c: connections come and go, and one step of the main loop. -/
set_option autoImplicit false

namespace ChatServer
open ByteString Memory Execution

/-- `clientOut` is whatever the memory held. -/
def clientInfoInit (clientOut : ClientInfo) (clientFd : Nat) (block : Option Bytes) :
    ClientInfo × Int :=
  match block with
  | none => ({ clientOut with partialMsg := none },-1)
  | some junk =>
    ({ clientOut with
        partialMsg := some ((junk ++ List.replicate bufSize 0).take bufSize)
        partialLen := 0, partialCap := bufSize, clientFd := clientFd
        state := .readHeader, headerBytesRead := 0, payloadBytesRead := 0
        expectedPayloadLen := 0, nameLen := 0, hasName := false
        epolloutEnabled := false, closed := false, msgQueue := .empty },0)

/-- close(fd). Linux releases the descriptor, and with it the epoll
registration, even when it reports an error. -/
def closeFd (w : World) (fd : Nat) : Except Fault (World × Int) := do
  let k ← w.sock fd
  pure ({ w with socks := w.socks.free fd },if k.oracle.closeOk then 0 else -1)

def addClientToList (w : World) (client : Nat) : Except Fault (World × Int) := do
  let w ← w.lock
  if w.clientList.length < maxClients then
    pure ({ w with clientList := w.clientList ++ [client] }.unlock,0)
  else
    let w := w.unlock
    let c ← w.client client
    let (w,_) ← closeFd w c.clientFd
    pure ({ w with clients := w.clients.free client
                   orphans := w.orphans ++ c.partialMsg.toList },-1)

def cleanupClient (w : World) (client : Nat) : Except Fault (World × Int) := do
  let c ← w.client client
  let (w,r) ← closeFd w c.clientFd
  if r = -1 then pure (w,-1)
  else pure ({ w with clients := w.clients.free client },0)

/-- client_list[i] = client_list[--client_count] -/
def swapRemove (l : List Nat) (i : Nat) : List Nat :=
  (l.set i (l.getLastD 0)).dropLast

/-- A client that is not listed leaves the mutex locked. -/
def removeClientFromList (w : World) (client : Nat) : Except Fault (World × Int) := do
  let w ← w.lock
  match w.clientList.idxOf? client with
  | some i =>
    let w := { w with clientList := swapRemove w.clientList i }.unlock
    let (w,r) ← cleanupClient w client
    if r = -1 then pure (w,-1) else pure (w,0)
  | none => pure (w,-1)

/-- The last entry is cleaned up first; the list itself is not emptied. -/
def removeAllClientsLoop : List Nat → World → Except Fault (World × Int)
  | [],w => pure (w.unlock,0)
  | p :: rest,w => do
    let _ ← w.client p
    let (w,r) ← cleanupClient w p
    if r = -1 then pure (w,-1) else removeAllClientsLoop rest w

def removeAllClients (w : World) : Except Fault (World × Int) := do
  let w ← w.lock
  removeAllClientsLoop w.clientList.reverse w

/-- A pending connection: the descriptor and the address the system proposes,
the outcome of every call made for it, and the old contents of its memory. -/
structure Incoming where
  fd : Nat
  fcntlOk : Bool
  info : Option (Nat × ClientInfo)
  block : Option Bytes
  addOk : Bool
  oracle : Oracle

inductive AcceptRes where
  | conn : Incoming → AcceptRes
  | wouldBlock | fails

def newSock (w : World) (oracle : Oracle) : Sock :=
  ⟨[],false,false,none,oracle,w.accepted,w.broadcasts.length,[]⟩

/-- `client_info_init` writes through the pointer before it is tested. -/
def acceptNewClients : List AcceptRes → World → Except Fault (World × Int)
  | [],w => pure (w,0)
  | .wouldBlock :: _,w => pure (w,0)
  | .fails :: _,w => pure (w,-1)
  | .conn i :: rest,w =>
    let fd := w.socks.fresh i.fd
    let w := { w.putSock fd (newSock w i.oracle) with accepted := w.accepted+1 }
    if i.fcntlOk = false then pure (w,-1)
    else match i.info with
    | none => .error .nullPointer
    | some (hint,old) => do
      let p := w.clients.fresh hint
      let (c,r) := clientInfoInit old fd i.block
      let w := w.putClient p c
      if r = -1 then pure (w,-1)
      else if i.addOk = false then pure (w,-1)
      else
        let k ← w.sock fd
        let w := w.putSock fd { k with registration := some ⟨⟨true,false,true⟩,p⟩ }
        let (w,r) ← addClientToList w p
        if r = -1 then pure (w,-1) else acceptNewClients rest w

def freeQueue : Nat → World → Nat → Except Fault World
  | 0,_,_ => .error .outOfFuel
  | fuel+1,w,client => do
    let c ← w.client client
    match c.msgQueue.head with
    | none => pure w
    | some a =>
      let m ← w.packet a
      let q := { c.msgQueue with head := m.next }
      freeQueue fuel ((w.freePacket a).putClient client { c with msgQueue := q }) client

def freeClientQueue (w : World) (client : Nat) : Except Fault World := do
  let c ← w.client client
  freeQueue (c.msgQueue.queuedCount+1) w client

def epollCtlDel (w : World) (fd : Nat) : Except Fault World := do
  let k ← w.sock fd
  let reg := if k.oracle.ctls.headD true then none else k.registration
  let oracle := { k.oracle with ctls := k.oracle.ctls.tail }
  pure (w.putSock fd { k with registration := reg, oracle := oracle })

def reapClient (w : World) (client : Nat) : Except Fault World := do
  let c ← w.client client
  let w ← epollCtlDel w c.clientFd
  let w ← freeClientQueue w client
  let (w,_) ← removeClientFromList w client
  pure w

/-- The for loop over the list, which shrinks while the index advances. The
bound on its turns is the length of the list before it. -/
def reapLoop : Nat → Nat → World → Except Fault World
  | 0,_,w => pure w
  | fuel+1,i,w =>
    match w.clientList[i]? with
    | none => pure w
    | some p => do
      let c ← w.client p
      let w ← if c.closed then reapClient w p else pure w
      reapLoop fuel (i+1) w

def reapPass (w : World) : Except Fault World := reapLoop w.clientList.length 0 w

structure EventBits where
  epollin : Bool
  epollout : Bool
  epollrdhup : Bool
  epollhup : Bool
  epollerr : Bool
  deriving DecidableEq, Repr

/-- `events[i].data`. A heap address is never the number of the listening
descriptor, so reading the union as `data.fd` tells the two apart. -/
inductive EventData where
  | listen
  | ptr : Nat → EventData
  deriving DecidableEq, Repr

structure Event where
  data : EventData
  bits : EventBits
  deriving DecidableEq, Repr

inductive Ready where
  | listen
  | sock : Nat → EventBits → Ready
  deriving DecidableEq, Repr

/-- The kernel reports what the mask asks for, a hang-up of the peer after its
FIN or a reset, and an error only after a reset. -/
def reported (k : Sock) (mask : EpollMask) (bits : EventBits) : EventBits where
  epollin := bits.epollin && mask.epollin
  epollout := bits.epollout && mask.epollout
  epollrdhup := bits.epollrdhup && mask.epollrdhup && (k.fin || k.reset)
  epollhup := bits.epollhup && k.reset
  epollerr := bits.epollerr && k.reset

def epollEvent (w : World) : Ready → Option Event
  | .listen => some ⟨.listen,⟨true,false,false,false,false⟩⟩
  | .sock fd bits =>
    match w.socks.get fd with
    | none => none
    | some k =>
      match k.registration with
      | none => none
      | some r => some ⟨.ptr r.ptr,reported k r.mask bits⟩

def epollWait (w : World) (ready : List Ready) : List Event :=
  (ready.filterMap (epollEvent w)).take maxEvents

def noteHangup (w : World) (info : Nat) : Except Fault World := do
  let c ← w.client info
  let k ← w.sock c.clientFd
  w.note info (.hangup k.inbox)

def dispatch (w : World) (e : Event) (accepts : List AcceptRes) : Except Fault World :=
  match e.data with
  | .listen => do
    let (w,_) ← acceptNewClients accepts w
    pure w
  | .ptr info => do
    let c ← w.client info
    if c.closed then pure w
    else if e.bits.epollhup || e.bits.epollrdhup || e.bits.epollerr then
      let w ← noteHangup w info
      markClosed w info
    else
      let (w,r) ← if e.bits.epollin then handleClientRead w info else pure (w,0)
      if r < 0 then markClosed w info
      else if e.bits.epollout then
        let (w,r) ← clientTryWrite w info
        if r = -1 then markClosed w info else pure w
      else pure w

def shutdownMessage : Bytes := ascii "SERVER SHUTDOWN"

/-- Where the single thread is: at the top of the main loop, in the event loop,
after the final broadcast, or gone. -/
inductive Phase where
  | top
  | batch : List Event → Phase
  | closing
  | done
  deriving DecidableEq, Repr

structure Sys where
  world : World
  phase : Phase

structure Input where
  waitFails : Bool
  ready : List Ready
  accepts : List AcceptRes

/-- Bytes, a FIN or a reset arrive on a socket, the oracle of a socket is
replaced, the clock is set, or the program makes its next step. -/
inductive Action where
  | net : Nat → Bytes → Bool → Bool → Action
  | plan : Nat → Oracle → Action
  | clock : Clock → Action
  | server : Input → Action

def deliver (k : Sock) (bs : Bytes) (fin reset : Bool) : Sock :=
  { k with inbox := if k.fin then k.inbox else k.inbox ++ bs
           fin := k.fin || fin, reset := k.reset || reset }

def World.onSock (w : World) (fd : Nat) (f : Sock → Sock) : World :=
  match w.socks.get fd with
  | none => w
  | some k => w.putSock fd (f k)

def freeQueues (w : World) : Except Fault World :=
  w.clientList.foldlM freeClientQueue w

def step (s : Sys) : Action → Except Fault Sys
  | .net fd bs fin reset => pure { s with world := s.world.onSock fd (fun k => deliver k bs fin reset) }
  | .plan fd oracle => pure { s with world := s.world.onSock fd (fun k => { k with oracle := oracle }) }
  | .clock ts => pure { s with world := { s.world with clock := ts } }
  | .server i =>
    match s.phase with
    | .top =>
      if s.world.serverShutdown then do
        let (w,_) ← broadcast s.world none shutdownMessage
        pure ⟨w,.closing⟩
      else do
        let w ← reapPass s.world
        if i.waitFails then pure ⟨w,.done⟩ else pure ⟨w,.batch (epollWait w i.ready)⟩
    | .batch [] => pure { s with phase := .top }
    | .batch (e :: es) => do
      let w ← dispatch s.world e i.accepts
      pure ⟨w,.batch es⟩
    | .closing => do
      let w ← freeQueues s.world
      let (w,_) ← removeAllClients w
      pure ⟨w,.done⟩
    | .done => pure s

/-- server_state_init, with the listening socket registered. -/
def World.init : World :=
  ⟨[],false,false,.empty,.empty,.empty,.unread,[],0,[]⟩

def Sys.init : Sys := ⟨World.init,.top⟩

end ChatServer
