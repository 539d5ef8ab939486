import ChatServer.Quiet

/-! The writing side of a connection: what it was offered, what waits in its
queue, and what the kernel took. Whatever happens at the seat of a member is a
sequence of the beats defined here. -/
set_option autoImplicit false

namespace ChatServer
open ByteString Memory Relation Execution

structure Outbox where
  trace : List Obs
  queue : List Pkt
  closed : Bool
  joined : Nat
  broadcasts : List Broadcast
  shutdown : Bool

def View.outbox (v : View) (broadcasts : List Broadcast) (shutdown : Bool) : Outbox :=
  ⟨v.sock.trace,v.queue,v.info.closed,v.sock.joined,broadcasts,shutdown⟩

def Seat.outbox (s : Seat) : Outbox := s.view.outbox s.broadcasts s.shutdown

/-- Entries that no statement about writing looks at. -/
def Obs.inert : Obs → Bool
  | .offered _ => false
  | .enqueued _ _ => false
  | .sent _ _ => false
  | .direct _ => false
  | .listing _ => false
  | .markedClosed => false
  | _ => true

def Obs.ofTurn (o : Obs) : Bool := o.ofReader || o == .blockFailed

theorem Obs.ofTurn_inert {o : Obs} (h : o.ofTurn = true) : o.inert = true := by
  cases o <;> simp_all [ofTurn,ofReader,inert]

theorem Obs.inert_silent {o : Obs} (h : o.inert = true) :
    wire [o] = [] ∧ queuedWire [o] = [] ∧ enqueuedPackets [o] = [] ∧ offers [o] = [] ∧
      issued [o] = [] ∧ directWrites [o] = [] ∧ listings [o] = [] := by
  cases o <;> first | exact ⟨rfl,rfl,rfl,rfl,rfl,rfl,rfl⟩ | cases h

def Offer.taken (o : Offer) : Bool :=
  !o.own && !o.closed && o.allocates && decide (o.queuedBytes+o.len ≤ msgSizeLimit)

theorem Offer.taken_iff {o : Offer} : o.taken = true ↔ o.own = false ∧ o.closed = false ∧
    o.allocates = true ∧ o.queuedBytes+o.len ≤ msgSizeLimit := by
  simp [taken,and_assoc]

def blocks : List SendRes → Bool
  | .accepts _ :: _ => false
  | .interrupted :: rest => blocks rest
  | _ => true

namespace DirectWrite

def header (d : DirectWrite) : Bytes := (createHeader d.payload.length d.msgType true).bytes

def first (d : DirectWrite) : Written := writeAll d.sends d.header

/-- What is taken of the payload, which is written unless the header failed. -/
def second (d : DirectWrite) : Bytes :=
  if d.first.ret = -1 then [] else (writeAll d.first.rest d.payload).taken

def whole (d : DirectWrite) : Bool :=
  match takes d.sends headerSize with
  | none => false
  | some rest => (takes rest d.payload.length).isSome

def blocked (d : DirectWrite) : Bool := blocks d.sends

end DirectWrite

namespace Outbox

def log (b : Outbox) (os : List Obs) : Outbox := { b with trace := b.trace ++ os }

def headOffset (b : Outbox) : Nat :=
  match b.queue with
  | [] => 0
  | x :: _ => x.sent.length

def Says (b : Outbox) (c : Broadcast) : Prop :=
  (c.sender.isSome = true → ChatText c.msg) ∧
    (c.sender = none → b.shutdown = true ∧ c.msg = shutdownMessage)

def Tells (b : Outbox) (d : DirectWrite) : Prop :=
  (d.msgType = msgTypeNormal ∧ WhisperText d.payload) ∨
    (d.msgType = msgTypeAdmin ∧ ListText b.trace d.payload)

def offer (b : Outbox) (p : Nat) (c : Broadcast) (allocates : Bool) : Offer :=
  ⟨b.broadcasts.length,decide (some p = c.sender),b.closed,allocates,pendingBytes b.queue,
    headerSize+c.msg.length⟩

def newPkt (c : Broadcast) : Pkt := ⟨[],frame msgTypeNormal c.msg,frame_ne_nil _ _⟩

/-- All that can happen on the writing side. -/
inductive Beat (p : Nat) : Outbox → Outbox → Prop
  | inert {b : Outbox} {o : Obs} (ho : o.inert = true)
      (hopen : o.ofReader = true → b.closed = false) : Beat p b (b.log [o])
  | close {b : Outbox} : Beat p b { b.log [.markedClosed] with closed := true }
  | shutdown {b : Outbox} : Beat p b { b with shutdown := true }
  | listing {b : Outbox} (names : List Bytes) : Beat p b (b.log [.listing names])
  | part {b : Outbox} {x : Pkt} {q : List Pkt} {n : Nat} (hqueue : b.queue = x :: q)
      (hopen : b.closed = false) (hpos : 0 < n) (hn : n < x.unsent.length) :
      Beat p b { b.log [.sent .queued (x.unsent.take n)] with queue := x.advance n hn :: q }
  | whole {b : Outbox} {x : Pkt} {q : List Pkt} (hqueue : b.queue = x :: q)
      (hopen : b.closed = false) :
      Beat p b { b.log [.sent .queued x.unsent] with queue := q }
  | skip {b : Outbox} {c : Broadcast} {allocates : Bool} (hsaid : b.Says c)
      (hskip : (b.offer p c allocates).taken = false) :
      Beat p b { b.log [.offered (b.offer p c allocates)] with
        broadcasts := b.broadcasts ++ [c] }
  | take {b : Outbox} {c : Broadcast} {allocates : Bool} (hsaid : b.Says c)
      (htake : (b.offer p c allocates).taken = true) :
      Beat p b { b.log [.offered (b.offer p c allocates),
          .enqueued b.broadcasts.length (frame msgTypeNormal c.msg)] with
        broadcasts := b.broadcasts ++ [c], queue := b.queue ++ [newPkt c] }
  | direct {b : Outbox} {d : DirectWrite} (htells : b.Tells d)
      (hoffset : d.headOffset = b.headOffset) (hclosed : d.closed = b.closed) :
      Beat p b (b.log ([.direct d] ++ sentObs .direct d.first.taken ++
        sentObs .direct d.second))

theorem offer_taken {b : Outbox} {p : Nat} {c : Broadcast} {allocates : Bool} :
    (b.offer p c allocates).taken = true ↔ some p ≠ c.sender ∧ b.closed = false ∧
      allocates = true ∧ pendingBytes b.queue+(headerSize+c.msg.length) ≤ msgSizeLimit := by
  rw [Offer.taken_iff]
  simp [offer]

theorem log_nil (b : Outbox) : b.log [] = b := by simp [log]

theorem log_log (b : Outbox) (xs ys : List Obs) : (b.log xs).log ys = b.log (xs ++ ys) := by
  simp [log]

theorem log_inert {p : Nat} (os : List Obs) (b : Outbox) (hopen : b.closed = false)
    (h : ∀ o ∈ os, o.inert = true) : ReflTransGen (Beat p) b (b.log os) := by
  induction os generalizing b with
  | nil => rw [log_nil]
  | cons o os ih =>
    have hrest := ih (b.log [o]) hopen (fun o' ho' => h o' (by simp [ho']))
    rw [log_log] at hrest
    exact .head (.inert (h o (by simp)) (fun _ => hopen)) hrest

end Outbox

section Direct
variable {d : DirectWrite}

theorem writeAllLoop_blocks {sends : List SendRes} (done : Bytes) {left : Bytes}
    (hleft : left ≠ []) (h : blocks sends = true) :
    (writeAllLoop sends done left).taken = done ∧ (writeAllLoop sends done left).ret = -1 := by
  induction sends with
  | nil => simp [writeAllLoop,hleft]
  | cons r rest ih =>
    cases r with
    | accepts n => simp [blocks] at h
    | interrupted => simpa [writeAllLoop,hleft] using ih h
    | wouldBlock => simp [writeAllLoop,hleft]
    | fails => simp [writeAllLoop,hleft]

theorem DirectWrite.header_ne_nil (d : DirectWrite) : d.header ≠ [] := by
  simp [header,MsgHeader.bytes,be32]

theorem DirectWrite.blocked_writes (h : d.blocked = true) :
    d.first.taken = [] ∧ d.second = [] := by
  obtain ⟨htaken,hret⟩ := writeAllLoop_blocks [] d.header_ne_nil h
  refine ⟨htaken,?_⟩
  unfold second
  exact if_pos hret

theorem DirectWrite.whole_writes (h : d.whole = true) :
    d.first.taken = d.header ∧ d.second = d.payload := by
  unfold whole at h
  cases hfirst : takes d.sends headerSize with
  | none => simp [hfirst] at h
  | some rest =>
    simp only [hfirst] at h
    obtain ⟨rest',hsecond⟩ := Option.isSome_iff_exists.mp h
    have hw : d.first = ⟨d.header,headerSize,rest⟩ := writeAll_takes hfirst
    have hw' : writeAll rest d.payload = ⟨d.payload,d.payload.length,rest'⟩ :=
      writeAll_takes hsecond
    have hret : ¬ ((headerSize : Nat) : Int) = -1 := by decide
    refine ⟨by rw [hw],?_⟩
    unfold second
    rw [hw,if_neg hret,hw']

end Direct

end ChatServer
