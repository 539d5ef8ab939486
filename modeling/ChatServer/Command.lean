import ChatServer.Broadcast

/-! src/server/formatting.c, server_handle_command.c, process_payload.c,
src/common/command.c and utils.c: what the server does with one message. -/
set_option autoImplicit false

namespace ChatServer
open ByteString Memory

inductive Cmd where
  | quit | list | whisper | shutdown | unknown
  deriving DecidableEq, Repr

inductive CmdRes where
  | ok | disconnect | error | warning
  deriving DecidableEq, Repr

def commandTable : List (Bytes × Cmd) :=
  [(ascii "/quit",.quit),(ascii "/list",.list),(ascii "/whisper",.whisper),
   (ascii "/shutdown",.shutdown)]

def findCommand (cmd : Bytes) : Cmd :=
  match commandTable.find? (fun e => e.1 == cmd) with
  | some e => e.2
  | none => .unknown

def makeLowercase (src : Bytes) : Bytes :=
  src.map (fun b => if 65 ≤ b ∧ b ≤ 90 then b+32 else b)

def twoDigits (n : Nat) : Bytes := [UInt8.ofNat (48+n/10),UInt8.ofNat (48+n%10)]

/-- strftime with "[%H:%M:%S]". -/
def strftime (t : Timestamp) : Bytes :=
  [91] ++ twoDigits t.hour.val ++ [58] ++ twoDigits t.minute.val ++ [58] ++
    twoDigits t.second.val ++ [93]

def clockTime (clock : Clock) : Timestamp :=
  match h : clock.times with
  | [] => ⟨0,0,0⟩
  | some t :: _ => t
  | none :: _ => (clock.localtime_ok (by simp [h])).elim

def getTimestamp (w : World) : World × Bytes :=
  ({ w with clock := w.clock.tail },strftime (clockTime w.clock))

/-- malloc or realloc of a message block: the old bytes that fit are kept, the
rest is whatever the memory held. -/
def Sock.realloc (k : Sock) (old : Option Bytes) (size : Nat) : Sock × Option Bytes :=
  let k' := { k with oracle := { k.oracle with blocks := k.oracle.blocks.tail } }
  match k.oracle.blocks.headD (some []) with
  | none => (k'.note .blockFailed,none)
  | some junk =>
    (k',some (((old.getD []).take size ++ junk ++ List.replicate size 0).take size))

/-- memcpy out of a buffer that a pointer leads to. -/
def readBlock (block : Option Bytes) (len : Nat) : Except Fault Bytes :=
  match block with
  | none => if len = 0 then .ok [] else .error .nullPointer
  | some bs => if len ≤ bs.length then .ok (bs.take len) else .error .outOfBounds

def chatText (timestamp name msg : Bytes) : Bytes :=
  timestamp ++ [32] ++ name ++ [58,32] ++ msg ++ [10]

def whisperThing : Bytes := ascii " [Whisper from: "

def whisperText (timestamp name msg : Bytes) : Bytes :=
  timestamp ++ whisperThing ++ name ++ [93,58,32] ++ msg ++ [10]

def ClientInfo.shownName (c : ClientInfo) : Bytes := c.name.data.take c.nameLen

/-- From the allocation on; the result is the string with its terminating zero. -/
def formatChat (c : ClientInfo) (k : Sock) (timestamp : Bytes) :
    Except Fault (Sock × Option Bytes) := do
  let stringLen := timestamp.length+1+c.nameLen+2+c.partialLen+2
  let (k,buffer) := k.realloc none stringLen
  match buffer with
  | none => pure (k,none)
  | some _ =>
    let msg ← readBlock c.partialMsg c.partialLen
    let text := chatText timestamp c.shownName msg
    if text.length ≥ stringLen then pure (k,none) else pure (k,some (text ++ [0]))

def formatChatMessage (w : World) (client : Nat) : Except Fault (World × Option Bytes) := do
  let c ← w.client client
  let k ← w.sock c.clientFd
  let (w,timestamp) := getTimestamp w
  let (k,text) ← formatChat c k timestamp
  pure (w.putSock c.clientFd k,text)

def formatWhisper (c : ClientInfo) (k : Sock) (timestamp msg : Bytes) :
    Sock × Option Bytes :=
  let stringLen := timestamp.length+2+whisperThing.length+c.nameLen+3+msg.length+2
  let (k,buffer) := k.realloc none stringLen
  match buffer with
  | none => (k,none)
  | some _ =>
    let text := whisperText timestamp c.shownName msg
    if text.length ≥ stringLen then (k,none) else (k,some (text ++ [0]))

def formatWhisperMessage (w : World) (sender : Nat) (msg : Bytes) :
    Except Fault (World × Option Bytes) := do
  let c ← w.client sender
  let k ← w.sock c.clientFd
  let (w,timestamp) := getTimestamp w
  let (k,text) := formatWhisper c k timestamp msg
  pure (w.putSock c.clientFd k,text)

def listIndicator : Bytes := ascii " <-- YOU\n"

def listNewline : Bytes := ascii "\n"

def noteListing (w : World) (user : Nat) : Except Fault World := do
  let names ← w.clientList.mapM (fun p => do
    let c ← w.client p
    pure c.shownName)
  w.note user (.listing names)

def sendTo (send : World → Nat → Bytes → Except Fault (World × Int))
    (msgType : UInt8) (w : World) (client : Nat) (msg : Bytes) :
    Except Fault (World × Int) := do
  let c ← w.client client
  let w ← noteDirect w client msgType msg
  send w c.clientFd msg

/-- The loop body of `handle_list`; the results of the writes are dropped. -/
def handleListEntry (user : Nat) (w : World) (entry : Nat) : Except Fault World := do
  let c ← w.client entry
  let (w,_) ← sendTo serverSendMessage msgTypeAdmin w user c.shownName
  let suffix := if entry = user then listIndicator else listNewline
  let (w,_) ← sendTo serverSendMessage msgTypeAdmin w user suffix
  pure w

def handleList (w : World) (user : Nat) : Except Fault (World × CmdRes) := do
  let w ← noteListing w user
  let w ← w.clientList.foldlM (handleListEntry user) w
  pure (w,.ok)

/-- The search of `handle_whisper`: the first listed client whose name field,
read as a C string, is the target. It ends a name without a zero with its field,
which strcmp does not: see `searchNames`. -/
def findTarget (w : World) (target : Bytes) : List Nat → Except Fault (Option Nat)
  | [] => pure none
  | p :: rest => do
    let c ← w.client p
    if cstr c.name.data = target then pure (some p) else findTarget w target rest

/-- The same search with strcmp's reads checked: a name without a zero that the target
begins with is read on behind its field. -/
def searchNames (w : World) (target : Bytes) : List Nat → Except Fault (Option Nat)
  | [] => pure none
  | p :: rest => do
    let c ← w.client p
    if 0 ∉ c.name.data ∧ c.name.data <+: target then .error .outOfBounds
    else if cstr c.name.data = target then pure (some p) else searchNames w target rest

/-- `saveptr` is the C string that `process_payload` has left of the message. -/
def handleWhisper (w : World) (user : Nat) (saveptr : Bytes) :
    Except Fault (World × CmdRes) := do
  let (whisperTarget,whisperMsg) := strtokR 32 saveptr
  if whisperMsg = [] then pure (w,.warning)
  else match whisperTarget with
  | none => if w.clientList = [] then pure (w,.warning) else .error .nullPointer
  | some name =>
    match ← findTarget w name w.clientList with
    | none => pure (w,.warning)
    | some target =>
      let (w,formatted) ← formatWhisperMessage w user whisperMsg
      match formatted with
      | none => pure (w,.error)
      | some text =>
        let (w,r) ← sendTo clientSendDirectMessage msgTypeNormal w target (cstr text)
        if r = -1 then pure (w,.error) else pure (w,.ok)

def handleShutdown (w : World) : World × CmdRes :=
  ({ w with serverShutdown := true },.disconnect)

def serverHandleUnknown : CmdRes := .ok

def serverHandleCommand (w : World) (user : Nat) (cmd saveptr : Bytes) :
    Except Fault (World × CmdRes) :=
  match findCommand cmd with
  | .list => handleList w user
  | .whisper => handleWhisper w user saveptr
  | .shutdown => pure ((handleShutdown w).1,.disconnect)
  | .quit => pure (w,serverHandleUnknown)
  | .unknown => pure (w,serverHandleUnknown)

def storeClientName (c : ClientInfo) : Except Fault ClientInfo := do
  let len := if c.partialLen ≥ nameMax then nameMax-1 else c.partialLen
  let bs ← readBlock c.partialMsg len
  match c.name.write 0 (bs ++ [0]) with
  | none => .error .outOfBounds
  | some name => pure { c with partialLen := len, name := name, nameLen := len }

/-- `payloadCopy` is the copy of the message, zero-terminated, or NULL. -/
def processPayload (w : World) (info : Nat) (payloadCopy : Option Bytes) :
    Except Fault (World × Int) := do
  let c ← w.client info
  if c.hasName = false then
    let c ← storeClientName c
    pure (w.putClient info { c with hasName := true },0)
  else match payloadCopy with
  | none => .error .nullPointer
  | some text =>
    if text.head? = some 47 then
      let (cmd,saveptr) := strtokR 32 (cstr text)
      match cmd with
      | none => .error .nullPointer
      | some cmd =>
        let (w,result) ← serverHandleCommand w info (makeLowercase cmd) saveptr
        if result = .disconnect ∨ result = .error then pure (w,-1) else pure (w,0)
    else
      let (w,formatted) ← formatChatMessage w info
      match formatted with
      | none => .error .nullPointer
      | some text =>
        let (w,_) ← broadcast w (some info) (cstr text)
        pure (w,0)

end ChatServer
