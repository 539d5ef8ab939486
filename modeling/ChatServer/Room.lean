import ChatServer.ServerLoop

/-! The chat room that the server implements, without heaps, descriptors or
linked lists: members in list order, and for each member a view that holds its
record, its socket and its queue as a plain list of packets. -/
set_option autoImplicit false

namespace ChatServer
open ByteString Memory

/-- A queued packet always has bytes left to send. -/
structure Pkt where
  sent : Bytes
  unsent : Bytes
  pending : unsent ≠ []

def Pkt.data (x : Pkt) : Bytes := x.sent ++ x.unsent

def Pkt.advance (x : Pkt) (n : Nat) (h : n < x.unsent.length) : Pkt :=
  ⟨x.sent ++ x.unsent.take n,x.unsent.drop n,by
    intro he
    have hl : (x.unsent.drop n).length = 0 := by rw [he]; rfl
    rw [List.length_drop] at hl
    omega⟩

def pendingBytes (queue : List Pkt) : Nat := (queue.map (fun x => x.unsent.length)).sum

def ClientInfo.withQueue (c : ClientInfo) (q : MsgQueue) : ClientInfo :=
  { c with msgQueue := q }

/-- The queue pointers of `info` are blank; `queue` takes their place. -/
structure View where
  info : ClientInfo
  sock : Sock
  queue : List Pkt

namespace View

def note (v : View) (o : Obs) : View := { v with sock := v.sock.note o }

def markClosed (v : View) : View :=
  { v with info := { v.info with closed := true } }.note .markedClosed

def setEpollout (on : Bool) (p : Nat) (v : View) : View :=
  if v.info.epolloutEnabled = on then v
  else
    let (k,ok) := v.sock.epollCtlMod ⟨true,on,false⟩ p
    if ok then { v with info := { v.info with epolloutEnabled := on }, sock := k }
    else { v with sock := k }

def tryWriteLoop (p : Nat) : List SendRes → View → View × Int
  | sends,v =>
    match v.queue with
    | [] => (v.setEpollout false p,0)
    | x :: q =>
      match sends with
      | [] => (v,0)
      | .accepts n :: rest =>
        let k := (v.sock.withSends rest).accept .queued (x.unsent.take n)
        if n = 0 then ({ v with sock := k.note .writeFailed },-1)
        else if h : n < x.unsent.length then
          tryWriteLoop p rest { v with sock := k, queue := x.advance n h :: q }
        else tryWriteLoop p rest { v with sock := k, queue := q }
      | .wouldBlock :: rest => ({ v with sock := v.sock.withSends rest },0)
      | .interrupted :: rest => tryWriteLoop p rest { v with sock := v.sock.withSends rest }
      | .fails :: rest => ({ v with sock := (v.sock.withSends rest).note .writeFailed },-1)

def tryWrite (p : Nat) (v : View) : View × Int := tryWriteLoop p v.sock.oracle.sends v

def nextAlloc (v : View) : Bool :=
  let alloc := v.sock.oracle.packets.headD ⟨true,some 0⟩
  alloc.data && alloc.node.isSome

def dropAlloc (v : View) : View :=
  { v with sock := { v.sock with oracle :=
      { v.sock.oracle with packets := v.sock.oracle.packets.tail } } }

def enqueue (index : Nat) (msg : Bytes) (v : View) : View :=
  { v with queue := v.queue ++ [Pkt.mk [] (frame msgTypeNormal msg) (frame_ne_nil _ _)] }.note
    (.enqueued index (frame msgTypeNormal msg))

/-- After the packet was queued: send at once if it is the head and no event is
awaited, then wait for the socket if something is left. -/
def arm (p : Nat) (v : View) : View := if v.queue = [] then v else v.setEpollout true p

def sendNow (p : Nat) (v : View) : View :=
  let (v,r) := v.tryWrite p
  if r = -1 then v.markClosed else v

def noteOffer (index : Nat) (own : Bool) (len : Nat) (v : View) : View :=
  v.note (.offered ⟨index,own,v.info.closed,v.nextAlloc,pendingBytes v.queue,headerSize+len⟩)

def offer (p index : Nat) (own : Bool) (msg : Bytes) (v : View) : View :=
  let v := v.noteOffer index own msg.length
  if own then v
  else if v.info.closed then v
  else if v.nextAlloc = false then v.dropAlloc
  else
    let v := v.dropAlloc
    if pendingBytes v.queue+(headerSize+msg.length) > msgSizeLimit then v.arm p
    else if v.info.epolloutEnabled = false ∧ v.queue = [] then
      ((v.enqueue index msg).sendNow p).arm p
    else (v.enqueue index msg).arm p

def headOffset (v : View) : Nat :=
  match v.queue with
  | [] => 0
  | x :: _ => x.sent.length

def direct (msgType : UInt8) (msg : Bytes) (v : View) : View × Int :=
  let v := v.note (.direct ⟨msgType,msg,v.headOffset,v.info.closed,v.sock.oracle.sends⟩)
  let (k,r) := v.sock.writeFrame msgType msg
  ({ v with sock := k },r)

end View

structure Room where
  members : List Nat
  view : Nat → View
  mutex : Bool
  shutdown : Bool
  clock : Clock
  broadcasts : List Broadcast
  accepted : Nat

def ClientInfo.blank : ClientInfo :=
  ⟨0,.readHeader,.zero _,0,0,0,0,.zero _,0,.empty,false,.zero _,0,false,none,0,0,false⟩

def Oracle.quiet : Oracle := ⟨[],[],[],[],[],true⟩

namespace Room

def empty : Room :=
  ⟨[],fun _ => ⟨.blank,⟨[],false,false,none,.quiet,0,0,[]⟩,[]⟩,false,false,.unread,[],0⟩

def set (R : Room) (p : Nat) (v : View) : Room :=
  { R with view := fun q => if q = p then v else R.view q }

@[simp] theorem view_set_self (R : Room) (p : Nat) (v : View) : (R.set p v).view p = v := by
  simp [set]

theorem view_set_of_ne (R : Room) {p q : Nat} (v : View) (h : q ≠ p) :
    (R.set p v).view q = R.view q := by simp [set,h]

theorem view_set (R : Room) (p q : Nat) (v : View) :
    (R.set p v).view q = if q = p then v else R.view q := rfl

theorem set_each {K : View → View → Prop} {R : Room} {p : Nat} {v : View} (hrefl : ∀ v, K v v)
    (h : K (R.view p) v) (q : Nat) : K (R.view q) ((R.set p v).view q) := by
  rw [view_set]
  by_cases hqp : q = p
  · rw [if_pos hqp,hqp]
    exact h
  · rw [if_neg hqp]
    exact hrefl _

@[simp] theorem set_set (R : Room) (p : Nat) (v v' : View) :
    (R.set p v).set p v' = R.set p v' := by
  unfold set
  congr 1
  funext q
  by_cases h : q = p <;> simp [h]

@[simp] theorem set_view (R : Room) (p : Nat) : R.set p (R.view p) = R := by
  unfold set
  congr 1
  funext q
  by_cases h : q = p <;> simp [h]

@[simp] theorem set_members (R : Room) (p : Nat) (v : View) :
    (R.set p v).members = R.members := rfl

@[simp] theorem set_broadcasts (R : Room) (p : Nat) (v : View) :
    (R.set p v).broadcasts = R.broadcasts := rfl

@[simp] theorem set_shutdown (R : Room) (p : Nat) (v : View) :
    (R.set p v).shutdown = R.shutdown := rfl

@[simp] theorem set_clock (R : Room) (p : Nat) (v : View) :
    (R.set p v).clock = R.clock := rfl

@[simp] theorem set_mutex (R : Room) (p : Nat) (v : View) :
    (R.set p v).mutex = R.mutex := rfl

@[simp] theorem set_accepted (R : Room) (p : Nat) (v : View) :
    (R.set p v).accepted = R.accepted := rfl

def broadcast (R : Room) (sender : Option Nat) (msg : Bytes) : Room :=
  { R with
    broadcasts := R.broadcasts ++ [Broadcast.mk sender msg]
    view := fun q =>
      if q ∈ R.members then
        (R.view q).offer q R.broadcasts.length (decide (some q = sender)) msg
      else R.view q }

def sendTo (R : Room) (msgType : UInt8) (p : Nat) (msg : Bytes) : Room × Int :=
  let (v,r) := (R.view p).direct msgType msg
  (R.set p v,r)

@[simp] theorem sendTo_members (R : Room) (msgType : UInt8) (p : Nat) (msg : Bytes) :
    (R.sendTo msgType p msg).1.members = R.members := rfl

def listEntry (user : Nat) (R : Room) (entry : Nat) : Room :=
  let R := (R.sendTo msgTypeAdmin user (R.view entry).info.shownName).1
  (R.sendTo msgTypeAdmin user (if entry = user then listIndicator else listNewline)).1

@[simp] theorem listEntry_members (R : Room) (user entry : Nat) :
    (R.listEntry user entry).members = R.members := rfl

def names (R : Room) : List Bytes := R.members.map (fun p => (R.view p).info.shownName)

def list (R : Room) (user : Nat) : Room :=
  R.members.foldl (listEntry user)
    (R.set user ((R.view user).note (.listing R.names)))

theorem list_each {K : View → View → Prop} (hrefl : ∀ v, K v v)
    (htrans : ∀ {v v' v''}, K v v' → K v' v'' → K v v'')
    (hlisting : ∀ v names, K v (v.note (.listing names)))
    (hdirect : ∀ v msg, K v (v.direct msgTypeAdmin msg).1) (R : Room) (user q : Nat) :
    K (R.view q) ((R.list user).view q) := by
  have hsend : ∀ (S : Room) (msg : Bytes),
      K (S.view q) ((S.sendTo msgTypeAdmin user msg).1.view q) :=
    fun S msg => set_each hrefl (hdirect _ msg) q
  have hloop : ∀ (l : List Nat) (S : Room),
      K (S.view q) ((l.foldl (listEntry user) S).view q) := by
    intro l
    induction l with
    | nil => exact fun S => hrefl _
    | cons e l ih => exact fun S => htrans (htrans (hsend S _) (hsend _ _)) (ih _)
  exact htrans (set_each hrefl (hlisting _ _) q) (hloop _ _)

def timestamp (R : Room) : Bytes := strftime (clockTime R.clock)

def tick (R : Room) : Room := { R with clock := R.clock.tail }

def target (R : Room) (name : Bytes) : Option Nat :=
  R.members.find? (fun p => decide (cstr (R.view p).info.name.data = name))

def whisperTo (R : Room) (user target : Nat) (msg : Bytes) : Room × CmdRes :=
  let (k,text) := formatWhisper (R.view user).info (R.view user).sock R.timestamp msg
  let R := R.tick.set user { R.view user with sock := k }
  match text with
  | none => (R,.error)
  | some text =>
    let (R,r) := R.sendTo msgTypeNormal target (cstr text)
    if r = -1 then (R,.error) else (R,.ok)

def whisper (R : Room) (user : Nat) (saveptr : Bytes) : Room × CmdRes :=
  let (whisperTarget,whisperMsg) := strtokR 32 saveptr
  if whisperMsg = [] then (R,.warning)
  else match whisperTarget.bind R.target with
  | none => (R,.warning)
  | some target => R.whisperTo user target whisperMsg

def command (R : Room) (user : Nat) (cmd saveptr : Bytes) : Room × CmdRes :=
  match findCommand cmd with
  | .list => (R.list user,.ok)
  | .whisper => R.whisper user saveptr
  | .shutdown => ({ R with shutdown := true },.disconnect)
  | .quit => (R,.ok)
  | .unknown => (R,.ok)

def chat (R : Room) (p : Nat) : Except Fault Room := do
  let (k,text) ← formatChat (R.view p).info (R.view p).sock R.timestamp
  match text with
  | none => .error .nullPointer
  | some text =>
    pure ((R.tick.set p { R.view p with sock := k }).broadcast (some p) (cstr text))

def nameIt (R : Room) (p : Nat) : Except Fault Room := do
  let c ← storeClientName (R.view p).info
  pure (R.set p { R.view p with info := { c with hasName := true } })

def runCommand (R : Room) (p : Nat) (text : Bytes) : Except Fault (Room × Int) :=
  let (cmd,saveptr) := strtokR 32 (cstr text)
  match cmd with
  | none => .error .nullPointer
  | some cmd =>
    let (R,result) := R.command p (makeLowercase cmd) saveptr
    if result = .disconnect ∨ result = .error then pure (R,-1) else pure (R,0)

def processPayload (R : Room) (p : Nat) (payloadCopy : Option Bytes) :
    Except Fault (Room × Int) :=
  if (R.view p).info.hasName = false then do
    let R ← R.nameIt p
    pure (R,0)
  else match payloadCopy with
  | none => .error .nullPointer
  | some text =>
    if text.head? = some 47 then R.runCommand p text
    else do
      let R ← R.chat p
      pure (R,0)

end Room
end ChatServer
