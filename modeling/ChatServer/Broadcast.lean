import ChatServer.ServerState

/-! src/server/msg_packet.c, client_try_write.c, broadcast.c, the queue part of
client_utils.c, and src/common/epoll_mod.c: everything that writes to clients. -/
set_option autoImplicit false

namespace ChatServer
open ByteString Memory

inductive SendOut where
  | sent : Nat → SendOut
  | again | interrupted | failed
  deriving DecidableEq, Repr

namespace Sock

def accept (k : Sock) (path : Path) (bs : Bytes) : Sock :=
  if bs = [] then k else k.note (.sent path bs)

def withSends (k : Sock) (sends : List SendRes) : Sock :=
  { k with oracle := { k.oracle with sends := sends } }

/-- send(fd, bs, MSG_NOSIGNAL) on a non-blocking socket. -/
def send (k : Sock) (bs : Bytes) : Sock × SendOut :=
  match k.oracle.sends with
  | [] => (k,.again)
  | .accepts n :: rest =>
    ((k.withSends rest).accept .queued (bs.take n),.sent (min n bs.length))
  | .wouldBlock :: rest => (k.withSends rest,.again)
  | .interrupted :: rest => (k.withSends rest,.interrupted)
  | .fails :: rest => (k.withSends rest,.failed)

def writeAll (k : Sock) (buffer : Bytes) : Sock × Int :=
  let r := ChatServer.writeAll k.oracle.sends buffer
  ((k.withSends r.rest).accept .direct r.taken,r.ret)

def epollCtlMod (k : Sock) (mask : EpollMask) (ptr : Nat) : Sock × Bool :=
  let ok := k.registration.isSome && k.oracle.ctls.headD true
  let k' := { k with oracle := { k.oracle with ctls := k.oracle.ctls.tail } }.note
    (.epollMod mask.epollout ok)
  if ok then ({ k' with registration := some ⟨mask,ptr⟩ },true) else (k',false)

end Sock

/-- The two functions of epoll_mod.c. Neither puts EPOLLRDHUP into the mask. -/
def setEpollout (on : Bool) (w : World) (client : Nat) : Except Fault World := do
  let c ← w.client client
  if c.epolloutEnabled = on then pure w
  else
    let k ← w.sock c.clientFd
    let (k,ok) := k.epollCtlMod ⟨true,on,false⟩ client
    if ok then pure (w.put client { c with epolloutEnabled := on } k)
    else pure (w.put client c k)

def enableEpolloutForClient : World → Nat → Except Fault World := setEpollout true

def disableEpolloutForClient : World → Nat → Except Fault World := setEpollout false

def clientTryWriteLoop : Nat → World → Nat → Except Fault (World × Int)
  | 0,_,_ => .error .outOfFuel
  | fuel+1,w,client => do
    let c ← w.client client
    match c.msgQueue.head with
    | none =>
      let w ← disableEpolloutForClient w client
      pure (w,0)
    | some a =>
      let packet ← w.packet a
      let remaining := sizeSub packet.len packet.offset
      let k ← w.sock c.clientFd
      let (k,out) := k.send ((packet.packetData.drop packet.offset).take remaining)
      match out with
      | .sent 0 => pure (w.put client c (k.note .writeFailed),-1)
      | .sent n =>
        let packet := { packet with offset := packet.offset+n }
        let q := { c.msgQueue with queuedBytes := sizeSub c.msgQueue.queuedBytes n }
        if packet.offset = packet.len then
          let tail := if packet.next = none then none else q.tail
          let q := { q with head := packet.next, tail := tail,
                            queuedCount := sizeSub q.queuedCount 1 }
          clientTryWriteLoop fuel
            ((w.freePacket a).put client { c with msgQueue := q } k) client
        else
          clientTryWriteLoop fuel
            ((w.putPacket a packet).put client { c with msgQueue := q } k) client
      | .again => pure (w.put client c k,0)
      | .interrupted => clientTryWriteLoop fuel (w.put client c k) client
      | .failed => pure (w.put client c (k.note .writeFailed),-1)

/-- Every turn of the loop either returns or uses up one result of `send`. -/
def clientTryWrite (w : World) (client : Nat) : Except Fault (World × Int) := do
  let c ← w.client client
  let k ← w.sock c.clientFd
  clientTryWriteLoop (k.oracle.sends.length+1) w client

/-- The packet is made for `client`, whose oracle decides the allocations. -/
def createPacket (w : World) (client : Nat) (header : MsgHeader) (payload : Bytes) :
    Except Fault (World × Option Nat) := do
  let c ← w.client client
  let k ← w.sock c.clientFd
  let alloc := k.oracle.packets.headD ⟨true,some 0⟩
  let k := { k with oracle := { k.oracle with packets := k.oracle.packets.tail } }
  let w := w.putSock c.clientFd k
  if alloc.data then
    match alloc.node with
    | none => pure (w,none)
    | some hint =>
      let a := w.packets.fresh hint
      let data := header.bytes ++ payload
      pure (w.putPacket a ⟨none,data,headerSize+payload.length,0⟩,some a)
  else pure (w,none)

def clientEnqueueMsgPacket (w : World) (client : Nat) (packet : Option Nat)
    (msgSizeLimit : Nat) : Except Fault (World × Int) :=
  match packet with
  | none => pure (w,-1)
  | some a => do
    let c ← w.client client
    let m ← w.packet a
    if c.msgQueue.queuedBytes+m.len > msgSizeLimit then pure (w,-1)
    else if c.closed then pure (w,-1)
    else
      let (w,q) ← match c.msgQueue.tail with
        | some t => do
          let last ← w.packet t
          let w := w.putPacket t { last with next := some a }
          pure (w,{ c.msgQueue with tail := some a })
        | none => pure (w,{ c.msgQueue with head := some a, tail := some a })
      let q := { q with queuedBytes := q.queuedBytes+m.len,
                        queuedCount := q.queuedCount+1 }
      let w := w.putClient client { c with msgQueue := q }
      let w ← w.note client (.enqueued (w.broadcasts.length-1) m.packetData)
      pure (w,0)

/-- History only: what this broadcast finds at the client. -/
def noteOffer (w : World) (client : Nat) (sender : Option Nat) (len : Nat) :
    Except Fault World := do
  let c ← w.client client
  let k ← w.sock c.clientFd
  let alloc := k.oracle.packets.headD ⟨true,some 0⟩
  w.note client (.offered ⟨w.broadcasts.length-1,some client = sender,c.closed,
    alloc.data && alloc.node.isSome,c.msgQueue.queuedBytes,headerSize+len⟩)

def broadcastTo (sender : Option Nat) (header : MsgHeader) (msg : Bytes)
    (w : World) (current : Nat) : Except Fault World := do
  let w ← noteOffer w current sender msg.length
  if some current = sender then pure w
  else
    let c ← w.client current
    if c.closed then pure w
    else
      let (w,packet) ← createPacket w current header msg
      match packet with
      | none => pure w
      | some a =>
        let (w,r) ← clientEnqueueMsgPacket w current (some a) msgSizeLimit
        let w := if r = -1 then w.freePacket a else w
        let c ← w.client current
        -- after a rejected packet this compares the head with a freed address
        let w ← if c.epolloutEnabled = false ∧ c.msgQueue.head = some a then do
            let (w,r) ← clientTryWrite w current
            if r = -1 then markClosed w current else pure w
          else pure w
        let c ← w.client current
        if c.msgQueue.head ≠ none then enableEpolloutForClient w current else pure w

def broadcast (w : World) (sender : Option Nat) (msg : Bytes) :
    Except Fault (World × Int) := do
  let w ← w.lock
  let header := createHeader msg.length msgTypeNormal true
  let w := { w with broadcasts := w.broadcasts ++ [Broadcast.mk sender msg] }
  let w ← w.clientList.foldlM (broadcastTo sender header msg) w
  pure (w.unlock,0)

/-- The body shared by the two direct senders: header, then payload. -/
def Sock.writeFrame (k : Sock) (msgType : UInt8) (msg : Bytes) : Sock × Int :=
  let header := createHeader msg.length msgType true
  let (k,r) := k.writeAll header.bytes
  if r = -1 then (k,-1)
  else
    let (k,r) := k.writeAll msg
    if r = -1 then (k,-1) else (k,0)

def writeFrame (msgType : UInt8) (w : World) (cfd : Nat) (msg : Bytes) :
    Except Fault (World × Int) := do
  let k ← w.sock cfd
  let (k,r) := k.writeFrame msgType msg
  pure (w.putSock cfd k,r)

def serverSendMessage : World → Nat → Bytes → Except Fault (World × Int) :=
  writeFrame msgTypeAdmin

def clientSendDirectMessage : World → Nat → Bytes → Except Fault (World × Int) :=
  writeFrame msgTypeNormal

def noteDirect (w : World) (client : Nat) (msgType : UInt8) (msg : Bytes) :
    Except Fault World := do
  let c ← w.client client
  let k ← w.sock c.clientFd
  let headOffset ← match c.msgQueue.head with
    | none => pure 0
    | some a => do
      let m ← w.packet a
      pure m.offset
  w.note client (.direct ⟨msgType,msg,headOffset,c.closed,k.oracle.sends⟩)

end ChatServer
