import ChatServer.Seat
import ChatServer.Writing

/-! Writing to a client and serving messages leave the reading side of a
connection alone. -/
set_option autoImplicit false

namespace ChatServer
open ByteString Memory Relation Execution

def ClientInfo.storedLen (c : ClientInfo) : Nat :=
  if c.partialLen ≥ nameMax then nameMax-1 else c.partialLen

theorem storedLen_le (c : ClientInfo) : c.storedLen ≤ c.partialLen := by
  unfold ClientInfo.storedLen nameMax
  split <;> omega

theorem storeClientName_eq {c i : ClientInfo} (h : storeClientName c = .ok i) :
    ∃ bs name, readBlock c.partialMsg c.storedLen = .ok bs ∧
      c.name.write 0 (bs ++ [0]) = some name ∧
      i = { c with partialLen := c.storedLen, name := name, nameLen := c.storedLen } := by
  unfold storeClientName at h
  cases hr : readBlock c.partialMsg c.storedLen with
  | error e =>
    have hr' := hr
    unfold ClientInfo.storedLen at hr'
    simp [hr'] at h
  | ok bs =>
    have hr' := hr
    unfold ClientInfo.storedLen at hr'
    simp only [hr',ok_bind] at h
    cases hw : c.name.write 0 (bs ++ [0]) with
    | none => simp [hw] at h
    | some name =>
      simp only [hw,pure_eq_ok,Except.ok.injEq] at h
      exact ⟨bs,name,rfl,hw,h.symm⟩

def Obs.ofReader : Obs → Bool
  | .read _ => true
  | .endOfStream => true
  | .readFailed => true
  | .message _ => true
  | .verdict _ => true
  | .readReturned _ => true
  | _ => false

/-- From `v` to `v'` nothing was read: the parser and what arrived are as they
were. Only a name that is stored can shorten the message. -/
structure Quiet (v v' : View) : Prop where
  clientFd : v'.info.clientFd = v.info.clientFd
  state : v'.info.state = v.info.state
  headerBuffer : v'.info.headerBuffer = v.info.headerBuffer
  headerBytesRead : v'.info.headerBytesRead = v.info.headerBytesRead
  expectedPayloadLen : v'.info.expectedPayloadLen = v.info.expectedPayloadLen
  msgDone : v'.info.msgDone = v.info.msgDone
  payloadBuffer : v'.info.payloadBuffer = v.info.payloadBuffer
  payloadBytesRead : v'.info.payloadBytesRead = v.info.payloadBytesRead
  partialMsg : v'.info.partialMsg = v.info.partialMsg
  partialCap : v'.info.partialCap = v.info.partialCap
  partialLen : v'.info.partialLen ≤ v.info.partialLen
  closed : v.info.closed = true → v'.info.closed = true
  inbox : v'.sock.inbox = v.sock.inbox
  fin : v'.sock.fin = v.sock.fin
  serial : v'.sock.serial = v.sock.serial
  joined : v'.sock.joined = v.sock.joined
  trace : ∃ more, v'.sock.trace = v.sock.trace ++ more ∧ ∀ o ∈ more, o.ofReader = false

namespace Quiet
variable {v v' v'' : View}

theorem refl (v : View) : Quiet v v :=
  ⟨rfl,rfl,rfl,rfl,rfl,rfl,rfl,rfl,rfl,rfl,Nat.le_refl _,id,rfl,rfl,rfl,rfl,[],by simp,by simp⟩

theorem trans (h : Quiet v v') (h' : Quiet v' v'') : Quiet v v'' := by
  exact ⟨h'.clientFd.trans h.clientFd,h'.state.trans h.state,
    h'.headerBuffer.trans h.headerBuffer,h'.headerBytesRead.trans h.headerBytesRead,
    h'.expectedPayloadLen.trans h.expectedPayloadLen,h'.msgDone.trans h.msgDone,
    h'.payloadBuffer.trans h.payloadBuffer,h'.payloadBytesRead.trans h.payloadBytesRead,
    h'.partialMsg.trans h.partialMsg,h'.partialCap.trans h.partialCap,
    Nat.le_trans h'.partialLen h.partialLen,fun hc => h'.closed (h.closed hc),
    h'.inbox.trans h.inbox,h'.fin.trans h.fin,h'.serial.trans h.serial,
    h'.joined.trans h.joined,grown_trans h.trace h'.trace⟩

theorem of_fields {v : View} {enabled closed : Bool} {reg : Option Registration}
    {oracle : Oracle} {more : List Obs} {queue : List Pkt}
    (hclosed : v.info.closed = true → closed = true) (hm : ∀ o ∈ more, o.ofReader = false) :
    Quiet v ⟨{ v.info with epolloutEnabled := enabled, closed := closed },
      { v.sock with registration := reg, oracle := oracle, trace := v.sock.trace ++ more },
      queue⟩ :=
  ⟨rfl,rfl,rfl,rfl,rfl,rfl,rfl,rfl,rfl,rfl,Nat.le_refl _,hclosed,rfl,rfl,rfl,rfl,more,rfl,hm⟩

theorem note (v : View) {o : Obs} (h : o.ofReader = false) : Quiet v (v.note o) :=
  of_fields id (by simpa using h)

theorem markClosed (v : View) : Quiet v v.markClosed :=
  of_fields (fun _ => rfl) (by simp [Obs.ofReader])

theorem of_silent {v : View} {enabled : Bool} {reg : Option Registration} {oracle : Oracle}
    {queue : List Pkt} :
    Quiet v ⟨{ v.info with epolloutEnabled := enabled },
      { v.sock with registration := reg, oracle := oracle },queue⟩ :=
  ⟨rfl,rfl,rfl,rfl,rfl,rfl,rfl,rfl,rfl,rfl,Nat.le_refl _,id,rfl,rfl,rfl,rfl,[],by simp,by simp⟩

theorem setEpollout (v : View) (on : Bool) (p : Nat) : Quiet v (v.setEpollout on p) := by
  unfold View.setEpollout Sock.epollCtlMod
  by_cases he : v.info.epolloutEnabled = on
  · rw [if_pos he]
    exact refl v
  · rw [if_neg he]
    by_cases hok : (v.sock.registration.isSome && v.sock.oracle.ctls.headD true) = true
    · simp only [hok,if_true]
      exact of_fields id (by simp [Obs.ofReader])
    · simp only [hok]
      exact of_fields id (by simp [Obs.ofReader])

theorem writes {p : Nat} (h : View.Writes p v v') : Quiet v v' := by
  cases h with
  | @note o ho => exact note v (by cases o <;> first | rfl | cases ho)
  | close => exact (note v rfl).trans (markClosed _)
  | dropAlloc => exact of_silent
  | withSends rest => exact of_silent
  | withQueue queue => exact of_silent
  | setEpollout on => exact setEpollout v on p

theorem written {p : Nat} (h : View.Written p v v') : Quiet v v' := h.keeps refl trans writes

theorem sendNow (v : View) (p : Nat) : Quiet v (v.sendNow p) := written (.sendNow v)

theorem offer (v : View) (p index : Nat) (own : Bool) (msg : Bytes) :
    Quiet v (v.offer p index own msg) := written (.offer v index own msg)

theorem direct (v : View) (msgType : UInt8) (msg : Bytes) :
    Quiet v (v.direct msgType msg).1 :=
  (note v rfl).trans (written (.direct (p := 0) v msgType msg))

theorem realloc (v : View) (size : Nat) :
    Quiet v { v with sock := (v.sock.realloc none size).1 } := by
  unfold Sock.realloc
  simp only
  split
  · exact of_fields id (by simp [Obs.ofReader])
  · exact of_silent

theorem storeName {v : View} {c : ClientInfo} (h : storeClientName v.info = .ok c) :
    Quiet v { v with info := { c with hasName := true } } := by
  obtain ⟨bs,name,-,-,rfl⟩ := storeClientName_eq h
  refine ⟨rfl,rfl,rfl,rfl,rfl,rfl,rfl,rfl,rfl,rfl,?_,id,rfl,rfl,rfl,rfl,[],by simp,by simp⟩
  exact storedLen_le v.info

theorem served {p : Nat} {s s' : Seat} (h : Seat.Served p s s') : Quiet s.view s'.view := by
  cases h with
  | offer => exact offer _ _ _ _ _
  | whisper => exact direct _ _ _
  | list => exact direct _ _ _
  | listing names => exact note _ rfl
  | format size => exact realloc _ size
  | name _ hstore => exact storeName hstore
  | shutdown => exact refl _

theorem served_run {p : Nat} {s s' : Seat} (h : ReflTransGen (Seat.Served p) s s') :
    Quiet s.view s'.view := by
  induction h with
  | refl => exact refl _
  | tail _ hstep ih => exact ih.trans (served hstep)

end Quiet

theorem View.stop_sock (v : View) (r : Int) :
    (v.stop r).sock.serial = v.sock.serial ∧ (v.stop r).sock.joined = v.sock.joined := by
  unfold View.stop
  by_cases hr : r < 0
  · rw [if_pos hr]
    exact ⟨rfl,rfl⟩
  · rw [if_neg hr]
    exact ⟨rfl,rfl⟩

theorem View.answer_sock {v v' : View} {r : Int} (h : v.answer r = .ok v') :
    v'.sock.serial = v.sock.serial ∧ v'.sock.joined = v.sock.joined := by
  rcases answer_cases h with ⟨-,rfl⟩ | ⟨c,-,-,rfl⟩
  · exact (v.note (.verdict r)).stop_sock (-1)
  · exact ⟨rfl,rfl⟩

theorem Seat.Turn.sock {p : Nat} {s s' : Seat} (h : Seat.Turn p s s') :
    s'.view.sock.serial = s.view.sock.serial ∧ s'.view.sock.joined = s.view.sock.joined := by
  cases h with
  | served h =>
    have hq := Quiet.served_run h
    exact ⟨hq.serial,hq.joined⟩
  | receive _ hread =>
    have hk := (readTurn_frame hread.1).2
    exact ⟨hk.serial,hk.joined⟩
  | @pause v r _ hread =>
    have hk := (readTurn_frame hread.1).2
    have hs := v.stop_sock r
    exact ⟨hs.1.trans hk.serial,hs.2.trans hk.joined⟩
  | message _ hread hserved _ hanswer =>
    have hk := (readTurn_frame hread.1).2
    have hq := Quiet.served_run hserved
    have ha := View.answer_sock hanswer
    exact ⟨ha.1.trans (hq.serial.trans hk.serial),ha.2.trans (hq.joined.trans hk.joined)⟩
  | write _ =>
    have hq := Quiet.sendNow s.view p
    exact ⟨hq.serial,hq.joined⟩
  | hangup _ => exact ⟨rfl,rfl⟩
  | arrive => exact ⟨rfl,rfl⟩
  | plan => exact ⟨rfl,rfl⟩

theorem Seat.turns_sock {p : Nat} {s s' : Seat} (h : ReflTransGen (Seat.Turn p) s s') :
    s'.view.sock.serial = s.view.sock.serial ∧ s'.view.sock.joined = s.view.sock.joined := by
  induction h with
  | refl => exact ⟨rfl,rfl⟩
  | tail _ hturn ih => exact ⟨hturn.sock.1.trans ih.1,hturn.sock.2.trans ih.2⟩

end ChatServer
