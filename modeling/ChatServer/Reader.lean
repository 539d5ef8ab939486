import ChatServer.Command

/-! src/server/handle_client_read.c and the buffer part of client_utils.c: the
incremental reader of one client. -/
set_option autoImplicit false

namespace ChatServer
open ByteString Memory

/-- The results of `read`; the end of the stream is the empty byte string. -/
inductive ReadOut where
  | bytes : Bytes → ReadOut
  | again | failed
  deriving DecidableEq, Repr

namespace Sock

/-- Up to `n` of the bytes that arrived, at least one if there are any. -/
def receive (k : Sock) (count n : Nat) : Sock × ReadOut :=
  if k.inbox = [] then
    if k.fin then (k.note .endOfStream,.bytes []) else (k,.again)
  else
    let bs := k.inbox.take (min count (max 1 n))
    ({ k with inbox := k.inbox.drop bs.length }.note (.read bs),.bytes bs)

def withReads (k : Sock) (reads : List ReadRes) : Sock :=
  { k with oracle := { k.oracle with reads := reads } }

def read (k : Sock) (count : Nat) : Sock × ReadOut :=
  if count = 0 then (k,.bytes [])
  else match k.oracle.reads with
  | [] => k.receive count count
  | .upTo n :: rest => (k.withReads rest).receive count n
  | .wouldBlock :: rest => (k.withReads rest,.again)
  | .fails :: rest => ((k.withReads rest).note .readFailed,.failed)

end Sock

/-- The capacity doubles until it is large enough; `fuel` bounds the doublings. -/
def growCap : Nat → Nat → Nat → Nat
  | 0,cap,_ => cap
  | fuel+1,cap,needed => if cap < needed then growCap fuel (2*cap) needed else cap

def writeBlock (block : Option Bytes) (off : Nat) (bs : Bytes) :
    Except Fault (Option Bytes) :=
  match block with
  | none => if bs = [] then .ok none else .error .nullPointer
  | some old =>
    if off+bs.length ≤ old.length then
      .ok (some (old.take off ++ bs ++ old.drop (off+bs.length)))
    else .error .outOfBounds

def appendToClientBuffer (c : ClientInfo) (k : Sock) :
    Except Fault (ClientInfo × Sock × Int) := do
  let neededBytes := c.partialLen+c.payloadBytesRead
  let (c,k,grown) :=
    if neededBytes > c.partialCap then
      let cap := growCap neededBytes c.partialCap neededBytes
      let (k,block) := k.realloc c.partialMsg cap
      ({ c with partialCap := cap, partialMsg := block },k,block.isSome)
    else (c,k,true)
  if grown then
    let block ← writeBlock c.partialMsg c.partialLen
      (c.payloadBuffer.data.take c.payloadBytesRead)
    pure ({ c with partialMsg := block, partialLen := neededBytes },k,0)
  else pure (c,k,-1)

/-- memset of the used part, then the length and the recorded capacity. -/
def clearClientBuffer (c : ClientInfo) : Except Fault (ClientInfo × Int) := do
  let block ← writeBlock c.partialMsg 0 (List.replicate c.partialLen 0)
  match block with
  | none => pure (c,-1)
  | some bs =>
    pure ({ c with partialMsg := some bs, partialLen := 0, partialCap := bufSize },0)

def copyBuffer (k : Sock) (src : Option Bytes) (size : Nat) :
    Except Fault (Sock × Option Bytes) := do
  let (k,buffer) := k.realloc none (size+1)
  match buffer with
  | none => pure (k,none)
  | some _ =>
    let bs ← readBlock src size
    pure (k,some (bs ++ [0]))

inductive Next where
  | ret : Int → Next
  | again
  | deliver : Option Bytes → Next
  deriving DecidableEq, Repr

def storeBytes {n : Nat} (b : Buf n) (off : Nat) (bs : Bytes) : Except Fault (Buf n) :=
  match b.write off bs with
  | none => .error .outOfBounds
  | some b' => .ok b'

/-- Lines 13 to 79: an iteration in state READ_HEADER. -/
def readHeader (c : ClientInfo) (k : Sock) : Except Fault (ClientInfo × Sock × Next) := do
  let (k,out) := k.read (sizeSub headerSize c.headerBytesRead)
  match out with
  | .bytes [] => pure (c,k,.ret (-1))
  | .again => pure (c,k,.ret 0)
  | .failed => pure (c,k,.ret (-1))
  | .bytes bs =>
    let buffer ← storeBytes c.headerBuffer c.headerBytesRead bs
    let c := { c with headerBuffer := buffer, headerBytesRead := c.headerBytesRead+bs.length }
    if c.headerBytesRead < headerSize then pure (c,k,.ret 0)
    else if c.headerBytesRead > headerSize then pure (c,k,.ret (-1))
    else
      let header := parseHeader c.headerBuffer.data
      let c := { c with expectedPayloadLen := header.msgLen, msgType := header.msgType,
                        msgDone := header.msgDone }
      if c.expectedPayloadLen > bufSize then pure (c,k,.ret (-1))
      else pure ({ c with state := .readPayload, headerBytesRead := 0,
                          payloadBytesRead := 0 },k,.again)

/-- Lines 156 to 160. -/
def switchToHeader (c : ClientInfo) : ClientInfo :=
  { c with state := .readHeader, headerBytesRead := 0, expectedPayloadLen := 0 }

/-- Lines 80 to 141: an iteration in state READ_PAYLOAD, up to the call of
`process_payload`. A failing `append_to_client_buffer` is only logged. -/
def readPayload (c : ClientInfo) (k : Sock) : Except Fault (ClientInfo × Sock × Next) := do
  let (k,out) := k.read (sizeSub c.expectedPayloadLen c.payloadBytesRead)
  match out with
  | .again => pure (c,k,.ret 0)
  | .failed => pure (c,k,.ret (-1))
  | .bytes bs =>
    let buffer ← storeBytes c.payloadBuffer c.payloadBytesRead bs
    let c := { c with payloadBuffer := buffer, payloadBytesRead := c.payloadBytesRead+bs.length }
    if c.payloadBytesRead < c.expectedPayloadLen then pure (c,k,.ret 0)
    else if c.payloadBytesRead > c.expectedPayloadLen then pure (c,k,.ret (-1))
    else
      let (c,k,_) ← appendToClientBuffer c k
      if c.msgDone ≠ 0 then
        let (k,copy) ← copyBuffer k c.partialMsg c.partialLen
        pure (c,k.note (.message (copy.map List.dropLast)),.deliver copy)
      else pure (switchToHeader c,k,.again)

/-- Lines 148 to 160: after `process_payload` has not returned -1. -/
def finishMessage (c : ClientInfo) : Except Fault ClientInfo := do
  let (c,_) ← clearClientBuffer c
  pure (switchToHeader c)

def handleClientReadLoop : Nat → World → Nat → Except Fault (World × Int)
  | 0,_,_ => .error .outOfFuel
  | fuel+1,w,info => do
    let c ← w.client info
    let k ← w.sock c.clientFd
    let (c,k,next) ← match c.state with
      | .readHeader => readHeader c k
      | .readPayload => readPayload c k
    let w := w.put info c k
    match next with
    | .ret r => pure (w,r)
    | .again => handleClientReadLoop fuel w info
    | .deliver payloadCopy =>
      let (w,r) ← processPayload w info payloadCopy
      let w ← w.note info (.verdict r)
      if r = -1 then pure (w,-1)
      else
        let c ← w.client info
        let c ← finishMessage c
        handleClientReadLoop fuel (w.putClient info c) info

/-- An iteration that does not return has consumed a byte or completed a
payload, so the fuel is never used up. -/
def handleClientRead (w : World) (info : Nat) : Except Fault (World × Int) := do
  let c ← w.client info
  let k ← w.sock c.clientFd
  let (w,r) ← handleClientReadLoop (2*k.inbox.length+2) w info
  let w ← w.note info (.readReturned r)
  pure (w,r)

end ChatServer
