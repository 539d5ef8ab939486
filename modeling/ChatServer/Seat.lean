import Mathlib.Logic.Relation
import ChatServer.ReadTurn

/-! The transitions of the room, and what one of them is for a single member.
A seat is a member's view with the parts of the room that bear on it. -/
set_option autoImplicit false

namespace ChatServer
open ByteString Memory Relation

namespace View

def reads (v : View) (next : Next) (v' : View) : Prop :=
  readTurn v.info v.sock = .ok (v'.info,v'.sock,next) ∧ v'.queue = v.queue

/-- `handle_client_read` returns, and a negative result closes the client. -/
def stop (r : Int) (v : View) : View :=
  let v := v.note (.readReturned r)
  if r < 0 then v.markClosed else v

/-- The read loop after `process_payload` has returned `r`. -/
def answer (r : Int) (v : View) : Except Fault View :=
  let v := v.note (.verdict r)
  if r = -1 then pure (v.stop (-1))
  else do
    let c ← finishMessage v.info
    pure { v with info := c }

theorem answer_cases {v v' : View} {r : Int} (h : v.answer r = .ok v') :
    (r = -1 ∧ v' = (v.note (.verdict r)).stop (-1)) ∨
      ∃ c, r ≠ -1 ∧ finishMessage v.info = .ok c ∧ v' = { v.note (.verdict r) with info := c } := by
  unfold answer at h
  by_cases hr : r = -1
  · rw [if_pos hr] at h
    cases h
    exact .inl ⟨hr,rfl⟩
  · rw [if_neg hr] at h
    have hinfo : (v.note (.verdict r)).info = v.info := rfl
    rw [hinfo] at h
    cases hf : finishMessage v.info with
    | error e =>
      rw [hf] at h
      cases h
    | ok c =>
      rw [hf] at h
      cases h
      exact .inr ⟨c,hr,rfl,rfl⟩

def hangup (v : View) : View := (v.note (.hangup v.sock.inbox)).markClosed

def Fresh (p serial joined : Nat) (v : View) : Prop :=
  ∃ old fd junk oracle,
    v = ⟨(clientInfoInit old fd (some junk)).1,
      ⟨[],false,false,some ⟨⟨true,false,true⟩,p⟩,oracle,serial,joined,[]⟩,[]⟩

end View

/-- The transitions of the room, each by one member, by the server or by the
environment. -/
inductive Act : Room → Room → Prop
  | receive {R : Room} {p : Nat} {v : View} (hp : p ∈ R.members)
      (hopen : (R.view p).info.closed = false) (hread : (R.view p).reads .again v) :
      Act R (R.set p v)
  | pause {R : Room} {p : Nat} {v : View} {r : Int} (hp : p ∈ R.members)
      (hopen : (R.view p).info.closed = false) (hread : (R.view p).reads (.ret r) v) :
      Act R (R.set p (v.stop r))
  | message {R R' : Room} {p : Nat} {v v' : View} {copy : Option Bytes} {r : Int}
      (hp : p ∈ R.members) (hopen : (R.view p).info.closed = false)
      (hread : (R.view p).reads (.deliver copy) v)
      (hpayload : (R.set p v).processPayload p copy = .ok (R',r))
      (hanswer : (R'.view p).answer r = .ok v') : Act R (R'.set p v')
  | write {R : Room} {p : Nat} (hp : p ∈ R.members)
      (hopen : (R.view p).info.closed = false) : Act R (R.set p ((R.view p).sendNow p))
  | hangup {R : Room} {p : Nat} (hp : p ∈ R.members)
      (hopen : (R.view p).info.closed = false) (hidle : Suspended (R.view p).info) :
      Act R (R.set p (R.view p).hangup)
  | announce {R : Room} (hshut : R.shutdown = true) : Act R (R.broadcast none shutdownMessage)
  | join {R : Room} {p : Nat} {v : View} (hp : p ∉ R.members)
      (hfresh : v.Fresh p R.accepted R.broadcasts.length) :
      Act R { R.set p v with members := R.members ++ [p], accepted := R.accepted+1 }
  | refuse {R : Room} : Act R { R with accepted := R.accepted+1 }
  | drop {R : Room} {p : Nat} {l : List Nat} (hp : p ∈ R.members)
      (hclosed : (R.view p).info.closed = true) (hl : l.Perm (R.members.erase p)) :
      Act R { R with members := l }
  | arrive {R : Room} {p : Nat} (hp : p ∈ R.members) (bs : Bytes) (fin reset : Bool) :
      Act R (R.set p { R.view p with sock := deliver (R.view p).sock bs fin reset })
  | plan {R : Room} {p : Nat} (hp : p ∈ R.members) (oracle : Oracle) :
      Act R (R.set p { R.view p with sock := { (R.view p).sock with oracle := oracle } })
  | clock {R : Room} (ts : Clock) : Act R { R with clock := ts }

def ChatText (msg : Bytes) : Prop :=
  ∃ t name text, msg = cstr (chatText (strftime t) name text ++ [0])

def WhisperText (msg : Bytes) : Prop :=
  ∃ t name text, msg = cstr (whisperText (strftime t) name text ++ [0])

/-- A payload of /list, which noted the names that it lists. -/
def ListText (trace : List Obs) (msg : Bytes) : Prop :=
  msg = listIndicator ∨ msg = listNewline ∨
    ∃ names, .listing names ∈ trace ∧ msg ∈ names ∧ msg.length ≤ nameMax

structure Seat where
  view : View
  broadcasts : List Broadcast
  shutdown : Bool

def Room.seat (R : Room) (p : Nat) : Seat := ⟨R.view p,R.broadcasts,R.shutdown⟩

namespace Seat

/-- What serving a message, its own or somebody else's, does to member `p`. -/
inductive Served (p : Nat) : Seat → Seat → Prop
  | offer {s : Seat} {sender : Option Nat} {msg : Bytes}
      (hchat : sender.isSome = true → ChatText msg)
      (hnotice : sender = none → s.shutdown = true ∧ msg = shutdownMessage) :
      Served p s ⟨s.view.offer p s.broadcasts.length (decide (some p = sender)) msg,
        s.broadcasts ++ [Broadcast.mk sender msg],s.shutdown⟩
  | whisper {s : Seat} {msg : Bytes} (hmsg : WhisperText msg) :
      Served p s { s with view := (s.view.direct msgTypeNormal msg).1 }
  | list {s : Seat} {msg : Bytes} (hmsg : ListText s.view.sock.trace msg) :
      Served p s { s with view := (s.view.direct msgTypeAdmin msg).1 }
  | listing {s : Seat} (names : List Bytes) :
      Served p s { s with view := s.view.note (.listing names) }
  | format {s : Seat} (size : Nat) :
      Served p s { s with view := { s.view with sock := (s.view.sock.realloc none size).1 } }
  | name {s : Seat} {c : ClientInfo} (hname : s.view.info.hasName = false)
      (hstore : storeClientName s.view.info = .ok c) :
      Served p s { s with view := { s.view with info := { c with hasName := true } } }
  | shutdown {s : Seat} : Served p s { s with shutdown := true }

inductive Turn (p : Nat) : Seat → Seat → Prop
  | served {s s' : Seat} (h : ReflTransGen (Served p) s s') : Turn p s s'
  | receive {s : Seat} {v : View} (hopen : s.view.info.closed = false)
      (hread : s.view.reads .again v) : Turn p s { s with view := v }
  | pause {s : Seat} {v : View} {r : Int} (hopen : s.view.info.closed = false)
      (hread : s.view.reads (.ret r) v) : Turn p s { s with view := v.stop r }
  | message {s s' : Seat} {v v' : View} {copy : Option Bytes} {r : Int}
      (hopen : s.view.info.closed = false) (hread : s.view.reads (.deliver copy) v)
      (hserved : ReflTransGen (Served p) { s with view := v } s')
      (hstill : s'.view.info.closed = false)
      (hanswer : s'.view.answer r = .ok v') : Turn p s { s' with view := v' }
  | write {s : Seat} (hopen : s.view.info.closed = false) :
      Turn p s { s with view := s.view.sendNow p }
  | hangup {s : Seat} (hopen : s.view.info.closed = false)
      (hidle : Suspended s.view.info) : Turn p s { s with view := s.view.hangup }
  | arrive {s : Seat} (bs : Bytes) (fin reset : Bool) :
      Turn p s { s with view := { s.view with sock := deliver s.view.sock bs fin reset } }
  | plan {s : Seat} (oracle : Oracle) :
      Turn p s { s with view := { s.view with sock := { s.view.sock with oracle := oracle } } }

/-- The seat of a member at some moment of its connection. -/
def Reachable (p : Nat) (s : Seat) : Prop :=
  ∃ s₀ serial, s₀.view.Fresh p serial s₀.broadcasts.length ∧ ReflTransGen (Turn p) s₀ s

end Seat

end ChatServer
