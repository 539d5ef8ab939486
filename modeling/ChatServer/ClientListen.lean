import ChatServer.ServerState

/-! src/client/client_listen.c with read_header and read_payload of
src/common/protocol.c: the thread of the client that prints what the server
sends. -/
set_option autoImplicit false

namespace ChatServer
open ByteString Memory

/-- Where the thread is: at the top of its loop, waiting in one of the two reads
with what it has stored, or behind the loop. -/
inductive ListenPhase where
  | running
  | inHeader : Bytes → ListenPhase
  | inPayload : Bytes → ListenPhase
  | left
  deriving DecidableEq, Repr

/-- `header` is not initialised. `input` is what the reads of `sfd` will find,
`blocks` are the outcomes of `malloc` with the old contents of the memory, and
`writes` the results of the writes to standard output. `stdout` has what these
writes put there, and `printed` the texts of `printf` and `perror`. -/
structure Listener where
  input : List RecvRes
  blocks : List (Option Bytes)
  writes : List SendRes
  header : Buf headerSize
  clientShutdown : Bool
  stdout : Bytes
  printed : List Bytes
  phase : ListenPhase

def couldntRead : Bytes := ascii "Couldnt read payload\n"
def couldntWrite : Bytes := ascii "Couldnt write payload\n"
def shuttingDown : Bytes := ascii "[client_listen] Shutting down\n"
def readEof : Bytes := ascii "Read in EOF\n"
def readError : Bytes := ascii "client_listen - actual read error"
def endOfListen : Bytes := ascii "\n[client_listen] End of client_listen\n"

def shutdownText : Bytes := ascii "SERVER SHUTDOWN"

namespace Listener

def print (l : Listener) (text : Bytes) : Listener := { l with printed := l.printed ++ [text] }

def leave (l : Listener) (bytesRead : Int) : Listener :=
  let l := if bytesRead = 0 then l.print readEof else l
  let l := if bytesRead = -1 then l.print readError else l
  { l.print endOfListen with phase := .left }

def gotPayload (l : Listener) (msgPayload : Bytes) (bytesRead : Int) : Listener :=
  if bytesRead ≤ 0 then (l.print couldntRead).leave bytesRead
  else if cstr msgPayload = shutdownText then
    { l.print shuttingDown with clientShutdown := true }.leave bytesRead
  else
    let r := writeAll l.writes (msgPayload.take bytesRead.toNat)
    let l := { l with stdout := l.stdout ++ r.taken, writes := r.rest }
    if r.ret = -1 then { l.print couldntWrite with clientShutdown := true }.leave bytesRead
    else l

end Listener

/-- The block of `read_payload` with the bytes that were read, behind them what
the memory held, and a zero at the end. -/
def payloadBlock (bs junk : Bytes) (msgLen : Nat) : Bytes :=
  (bs ++ junk.drop bs.length ++ List.replicate msgLen 0).take msgLen ++ [0]

def listenPayload (l : Listener) (msgLen : Nat) : Listener :=
  let blocks := l.blocks.tail
  match l.blocks.headD (some []) with
  | none => { l with blocks := blocks }.gotPayload [] (-1)
  | some junk =>
    match readAll l.input msgLen with
    | .waits bs => { l with blocks := blocks, phase := .inPayload bs }
    | .returned bs r rest =>
      { l with blocks := blocks, input := rest }.gotPayload (payloadBlock bs junk msgLen) r

def listenTurn (l : Listener) : Except Fault Listener :=
  match readAll l.input headerSize with
  | .waits bs => pure { l with phase := .inHeader bs }
  | .returned bs r rest =>
    match l.header.write 0 bs with
    | none => .error .outOfBounds
    | some header =>
      let l := { l with header := header, input := rest }
      if r ≤ 0 then pure (l.leave r)
      else pure (listenPayload l (parseHeader header.data).msgLen)

def clientListenLoop : Nat → Listener → Except Fault Listener
  | 0,_ => .error .outOfFuel
  | fuel+1,l => do
    let l ← listenTurn l
    if l.phase = .running then clientListenLoop fuel l else pure l

/-- Every iteration that goes on has read at least one byte. -/
def clientListen (l : Listener) : Except Fault Listener :=
  clientListenLoop ((arrived l.input).length+1) l

end ChatServer
