import ChatServer.Serving

/-! The fields of a client's record that its reader and its naming use, and that
serving a message leaves them alone at every member, a naming message apart. -/
set_option autoImplicit false

namespace ChatServer
open ByteString Memory Execution Relation

structure Reading where
  state : ReadState
  headerBuffer : Buf headerSize
  headerBytesRead : Nat
  expectedPayloadLen : Nat
  msgType : UInt8
  msgDone : UInt8
  payloadBuffer : Buf bufSize
  payloadBytesRead : Nat
  partialMsg : Option Bytes
  partialLen : Nat
  partialCap : Nat
  name : Buf nameMax
  nameLen : Nat
  hasName : Bool

def ClientInfo.reading (c : ClientInfo) : Reading :=
  ⟨c.state,c.headerBuffer,c.headerBytesRead,c.expectedPayloadLen,c.msgType,c.msgDone,
    c.payloadBuffer,c.payloadBytesRead,c.partialMsg,c.partialLen,c.partialCap,c.name,c.nameLen,
    c.hasName⟩

@[simp] theorem withQueue_reading (c : ClientInfo) (q : MsgQueue) :
    (c.withQueue q).reading = c.reading := rfl

namespace View

theorem setEpollout_reading (v : View) (on : Bool) (p : Nat) :
    (v.setEpollout on p).info.reading = v.info.reading := by
  unfold setEpollout
  split
  · rfl
  · simp only
    split <;> rfl

theorem Writes.reading {p : Nat} {v v' : View} (h : Writes p v v') :
    v'.info.reading = v.info.reading := by
  cases h with
  | setEpollout on => exact setEpollout_reading v on p
  | _ => rfl

theorem Written.reading {p : Nat} {v v' : View} (h : Written p v v') :
    v'.info.reading = v.info.reading :=
  h.keeps (K := fun v v' => v'.info.reading = v.info.reading) (fun _ => rfl)
    (fun h h' => h'.trans h) Writes.reading

theorem sendNow_reading (v : View) (p : Nat) : (v.sendNow p).info.reading = v.info.reading :=
  (Written.sendNow v).reading

theorem offer_reading (v : View) (p index : Nat) (own : Bool) (msg : Bytes) :
    (v.offer p index own msg).info.reading = v.info.reading := (Written.offer v index own msg).reading

end View

namespace Room
variable {R R' : Room} {p : Nat}

def Unread (R R' : Room) : Prop :=
  ∀ q, (R'.view q).info.reading = (R.view q).info.reading

theorem Unread.trans {R'' : Room} (h : Unread R R') (h' : Unread R' R'') : Unread R R'' :=
  fun q => (h' q).trans (h q)

theorem Unread.set {v : View} (h : v.info.reading = (R.view p).info.reading) :
    Unread R (R.set p v) :=
  set_each (K := fun v v' => v'.info.reading = v.info.reading) (fun _ => rfl) h

theorem sendTo_unread (R : Room) (msgType : UInt8) (t : Nat) (msg : Bytes) :
    Unread R (R.sendTo msgType t msg).1 := fun q => by rw [sendTo_info]

theorem list_unread (R : Room) (user : Nat) : Unread R (R.list user) :=
  list_each (K := fun v v' => v'.info.reading = v.info.reading) (fun _ => rfl)
    (fun h h' => h'.trans h) (fun _ _ => rfl) (fun _ _ => rfl) R user

theorem whisper_unread (R : Room) (user : Nat) (saveptr : Bytes) :
    Unread R (R.whisper user saveptr).1 := by
  have hformat : ∀ k, Unread R (R.tick.set user { R.view user with sock := k }) :=
    fun k => Unread.set (R := R) rfl
  have h := whisper_whispers R user saveptr
  generalize (R.whisper user saveptr).1 = S at h ⊢
  cases h with
  | refused => exact fun q => rfl
  | unsent size => exact hformat _
  | sent size t htext => exact (hformat _).trans (sendTo_unread _ _ _ _)

theorem command_unread (R : Room) (user : Nat) (cmd saveptr : Bytes) :
    Unread R (R.command user cmd saveptr).1 := by
  unfold command
  cases findCommand cmd with
  | list => exact list_unread R user
  | whisper => exact whisper_unread R user saveptr
  | shutdown => exact fun q => rfl
  | quit => exact fun q => rfl
  | unknown => exact fun q => rfl

theorem broadcast_unread (R : Room) (sender : Option Nat) (msg : Bytes) :
    Unread R (R.broadcast sender msg) := by
  intro q
  unfold broadcast
  simp only
  split
  · rw [View.offer_reading]
  · rfl

/-- A message of a client that has its name changes no reader and no name. -/
theorem processPayload_unread {copy : Option Bytes} {r : Int}
    (hname : (R.view p).info.hasName = true) (h : R.processPayload p copy = .ok (R',r)) :
    Unread R R' := by
  cases processPayload_processed h with
  | name hunnamed =>
    rw [hname] at hunnamed
    cases hunnamed
  | @command _ _ cmd saveptr _ _ _ _ _ hcommand =>
    have hunread := command_unread R p (makeLowercase cmd) saveptr
    rw [hcommand] at hunread
    exact hunread
  | @chat _ _ k _ _ _ =>
    have hformat : Unread R (R.tick.set p { R.view p with sock := k }) :=
      Unread.set (R := R) rfl
    exact hformat.trans (broadcast_unread _ _ _)

theorem processPayload_name {copy : Option Bytes} {r : Int}
    (hname : (R.view p).info.hasName = false) (h : R.processPayload p copy = .ok (R',r)) :
    r = 0 ∧ ∃ c, storeClientName (R.view p).info = .ok c ∧
      R' = R.set p { R.view p with info := { c with hasName := true } } := by
  cases processPayload_processed h with
  | name _ hstore => exact ⟨rfl,_,hstore,rfl⟩
  | command hnamed =>
    rw [hname] at hnamed
    cases hnamed
  | chat hnamed =>
    rw [hname] at hnamed
    cases hnamed

end Room
end ChatServer
