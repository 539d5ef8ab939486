import ChatServer.Command

/-! src/client/client.c and client_handle_command.c: the loop of the client that
reads chunks from the terminal and writes frames to the server. -/
set_option autoImplicit false

namespace ChatServer
open ByteString Memory

/-- Where the main thread is: in its loop, behind it, or ended by `handle_error`. -/
inductive MainPhase where
  | reading | left | exited
  deriving DecidableEq, Repr

/-- `buf` is not initialised, so it starts with whatever the stack held.
`connected` says that `sfd` can be written to, and `written` is history: the
bytes that were put on it. -/
structure ClientMain where
  buf : Buf bufSize
  lastChunkFilled : Bool
  disconnecting : Bool
  connected : Bool
  phase : MainPhase
  written : Bytes

def ClientMain.init (buf : Buf bufSize) : ClientMain := ⟨buf,false,false,true,.reading,[]⟩

/-- What one turn of the loop gets from outside: the chunk that `read` returns,
the outcomes of `malloc` and `close`, and the results of the writes to `sfd`. -/
structure Typing where
  chunk : Bytes
  copyOk : Bool
  closeOk : Bool
  writes : List SendRes

/-- The socket is shut down in any case. -/
def handleQuit (m : ClientMain) (closeOk : Bool) : ClientMain × CmdRes :=
  ({ m with connected := false },if closeOk then .disconnect else .warning)

def clientHandleUnknown : CmdRes := .ok

def clientHandleCommand (m : ClientMain) (closeOk : Bool) (cmd : Bytes) : ClientMain × CmdRes :=
  match findCommand cmd with
  | .quit => handleQuit m closeOk
  | .shutdown => (m,.disconnect)
  | .list => (m,clientHandleUnknown)
  | .whisper => (m,clientHandleUnknown)
  | .unknown => (m,clientHandleUnknown)

/-- The first token of the copy, whose last byte is overwritten with a zero. -/
def localToken (chunk : Bytes) : Option Bytes :=
  (strtokR 32 (cstr (chunk.dropLast ++ [0]))).1

def localCommand (m : ClientMain) (i : Typing) : Except Fault ClientMain :=
  if i.chunk.head? = some 47 then
    if i.copyOk = false then .error .nullPointer
    else match localToken i.chunk with
    | none => .error .nullPointer
    | some cmd =>
      let (m,result) := clientHandleCommand m i.closeOk (makeLowercase cmd)
      if result = .error ∨ result = .disconnect then pure { m with disconnecting := true }
      else pure m
  else pure m

def ClientMain.writeSfd (m : ClientMain) (sends : List SendRes) (bs : Bytes) :
    ClientMain × Int × List SendRes :=
  if m.connected then
    let r := writeAll sends bs
    ({ m with written := m.written ++ r.taken },r.ret,r.rest)
  else (m,-1,sends)

def ClientMain.sendChunk (m : ClientMain) (sends : List SendRes) (msgDone : Bool)
    (bytesRead : Nat) : ClientMain :=
  let header := createHeader bytesRead msgTypeNormal msgDone
  let (m,r,sends) := m.writeSfd sends header.bytes
  if r = -1 then { m with phase := .exited }
  else
    let (m,r,_) := m.writeSfd sends (m.buf.data.take bytesRead)
    if r = -1 then { m with phase := .exited }
    else if m.disconnecting then { m with phase := .left }
    else m

/-- One turn of the while loop in which `select` reports the terminal. The search
for the newline covers the whole buffer, not only the chunk. -/
def mainTurn (m : ClientMain) (i : Typing) : Except Fault ClientMain :=
  if m.phase ≠ .reading then pure m
  else if i.chunk = [] then pure { m with phase := .left }
  else match m.buf.write 0 i.chunk with
  | none => .error .outOfBounds
  | some buf => do
    let m ← localCommand { m with buf := buf } i
    let bytesRead := i.chunk.length
    if bytesRead = 1 ∧ m.lastChunkFilled = false then pure m
    else if 10 ∈ m.buf.data then
      match m.buf.write (bytesRead-1) [0] with
      | none => .error .outOfBounds
      | some buf =>
        pure ({ m with buf := buf, lastChunkFilled := false }.sendChunk i.writes true (bytesRead-1))
    else pure ({ m with lastChunkFilled := true }.sendChunk i.writes false bytesRead)

end ChatServer
