import ChatServer.QueueInvariant
import ChatServer.ReapPass
import ChatServer.Terminal

/-! A broadcast treats its recipients independently: what becomes of one of them
is decided by its own record, its own queue and the results of the calls made
for it, whoever else is listed. -/
set_option autoImplicit false

namespace ChatServer
open ByteString Memory Execution

/-- All of a client that a broadcast reads or changes: the record without its
queue pointers, the queued packets, each with how far it was sent, the epoll
registration, and the results still to come. -/
structure Recipient where
  record : ClientInfo
  queuedBytes : Nat
  queuedCount : Nat
  queue : List (Bytes × Nat)
  registration : Option Registration
  oracle : Oracle

def MsgQueue.packets (q : MsgQueue) (h : Heap MsgPacket) : List (Bytes × Nat) :=
  (q.path h).filterMap (fun a => (h.get a).map (fun m => (m.packetData,m.offset)))

namespace World

def recipient (w : World) (p : Nat) : Option Recipient :=
  (w.clients.get p).bind (fun c => (w.socks.get c.clientFd).map (fun k =>
    ⟨c.withQueue .empty,c.msgQueue.queuedBytes,c.msgQueue.queuedCount,
      c.msgQueue.packets w.packets,k.registration,k.oracle⟩))

def wireOf (w : World) (p : Nat) : Bytes :=
  ((w.clients.get p).bind (fun c => w.socks.get c.clientFd)).elim [] (fun k => wire k.trace)

/-- Who gets nothing from a broadcast: whoever is not listed, the sender, and
the clients that are closed. -/
def PassesOver (w : World) (sender : Option Nat) (q : Nat) : Prop :=
  q ∈ w.clientList → some q = sender ∨ w.closedFlag q = true

end World

structure Spares (sender : Option Nat) (w w' : World) : Prop where
  list : w'.clientList = w.clientList
  records : ∀ q, w.PassesOver sender q → w'.clients.get q = w.clients.get q
  queues : ∀ q ∈ w.clientList, w.PassesOver sender q → w'.recipient q = w.recipient q

/-- The two broadcasts, from `w₁` to `w₁'` and from `w₂` to `w₂'`, do the same to
client `r`, and give it the same bytes. -/
structure SameFor (r : Nat) (w₁ w₁' w₂ w₂' : World) : Prop where
  after : w₁'.recipient r = w₂'.recipient r
  sent : ∃ bs, w₁'.wireOf r = w₁.wireOf r ++ bs ∧ w₂'.wireOf r = w₂.wireOf r ++ bs

section Frame
variable {w : World} {q : Nat}

theorem note_clients (w : World) (p : Nat) (o : Obs) :
    Always (w.note p o) (fun w' => w'.clients = w.clients) :=
  (note_alike w p o).mono (fun _ h => h.clients)

theorem broadcastTo_passes {sender : Option Nat} (header : MsgHeader) (msg : Bytes)
    (hq : some q = sender ∨ w.closedFlag q = true) :
    Always (broadcastTo sender header msg w q) (fun w' => w'.clients = w.clients) := by
  unfold broadcastTo noteOffer
  refine Holds.bind (P := fun w' => w'.clients = w.clients) ?_ (fun w₁ h₁ => ?_)
  · refine (Always.trivial _).bind (fun c _ => ?_)
    refine (Always.trivial _).bind (fun k _ => ?_)
    exact note_clients w q _
  · split
    · exact h₁
    · rename_i hown
      refine (client_got w₁ q).bind (fun c hc => ?_)
      have hclosed : c.closed = true := by
        rw [h₁] at hc
        simpa [World.closedFlag,hc] using hq.resolve_left hown
      rw [if_pos hclosed]
      exact h₁

theorem broadcastLoop_passes {sender : Option Nat} (header : MsgHeader) (msg : Bytes)
    (l : List Nat) (hq : q ∈ l → some q = sender ∨ w.closedFlag q = true) :
    Always (l.foldlM (broadcastTo sender header msg) w)
      (fun w' => w'.clients.get q = w.clients.get q) := by
  induction l generalizing w with
  | nil => exact rfl
  | cons p l ih =>
    rw [List.foldlM_cons]
    refine Holds.bind (P := fun w' => w'.clients.get q = w.clients.get q) ?_ (fun w₁ h₁ => ?_)
    · by_cases hqp : q = p
      · subst hqp
        exact (broadcastTo_passes header msg (hq (by simp))).mono (fun _ h => by rw [h])
      · exact (broadcastTo_confined w p sender header msg).weaken (fun _ _ => True.intro)
          (fun _ h => h.others q hqp)
    · have hflag : w₁.closedFlag q = w.closedFlag q := by
        unfold World.closedFlag
        rw [h₁]
      exact (ih (fun hmem => by rw [hflag]; exact hq (by simp [hmem]))).mono
        (fun _ h => h.trans h₁)

theorem broadcast_passes {sender : Option Nat} (msg : Bytes) (hq : w.PassesOver sender q) :
    Always (broadcast w sender msg) (fun res => res.1.clients.get q = w.clients.get q) := by
  unfold broadcast World.lock
  split
  · exact True.intro
  · simp only [ok_bind]
    exact (broadcastLoop_passes (w := { w with
      clientMutex := true, broadcasts := w.broadcasts ++ [Broadcast.mk sender msg] })
      _ msg w.clientList hq).bind (fun _ h₁ => h₁)

end Frame

/-- Two views of one client that a broadcast cannot tell apart, on whose wires
the same bytes came behind `b₁` and behind `b₂`. -/
structure Twin (b₁ b₂ : Bytes) (v₁ v₂ : View) : Prop where
  info : v₁.info = v₂.info
  queue : v₁.queue = v₂.queue
  oracle : v₁.sock.oracle = v₂.sock.oracle
  registration : v₁.sock.registration = v₂.sock.registration
  sent : ∃ bs, wire v₁.sock.trace = b₁ ++ bs ∧ wire v₂.sock.trace = b₂ ++ bs

namespace Twin
variable {b₁ b₂ : Bytes} {v₁ v₂ : View} {p : Nat}

theorem note {o₁ o₂ : Obs} (h : Twin b₁ b₂ v₁ v₂) (h₁ : wire [o₁] = []) (h₂ : wire [o₂] = []) :
    Twin b₁ b₂ (v₁.note o₁) (v₂.note o₂) := by
  obtain ⟨bs,hs₁,hs₂⟩ := h.sent
  refine ⟨h.info,h.queue,h.oracle,h.registration,bs,?_,?_⟩
  · simp [View.note,Sock.note,h₁,hs₁]
  · simp [View.note,Sock.note,h₂,hs₂]

theorem withInfo (h : Twin b₁ b₂ v₁ v₂) (i : ClientInfo) :
    Twin b₁ b₂ { v₁ with info := i } { v₂ with info := i } :=
  ⟨rfl,h.queue,h.oracle,h.registration,h.sent⟩

theorem withQueue (h : Twin b₁ b₂ v₁ v₂) (q : List Pkt) :
    Twin b₁ b₂ { v₁ with queue := q } { v₂ with queue := q } :=
  ⟨h.info,rfl,h.oracle,h.registration,h.sent⟩

theorem withSends (h : Twin b₁ b₂ v₁ v₂) (sends : List SendRes) :
    Twin b₁ b₂ { v₁ with sock := v₁.sock.withSends sends }
      { v₂ with sock := v₂.sock.withSends sends } := by
  refine ⟨h.info,h.queue,?_,h.registration,h.sent⟩
  simp [Sock.withSends,h.oracle]

theorem accept (h : Twin b₁ b₂ v₁ v₂) (path : Path) (bs : Bytes) :
    Twin b₁ b₂ { v₁ with sock := v₁.sock.accept path bs }
      { v₂ with sock := v₂.sock.accept path bs } := by
  obtain ⟨bs',hs₁,hs₂⟩ := h.sent
  refine ⟨h.info,h.queue,?_,?_,bs' ++ bs,?_,?_⟩
  · simp [h.oracle]
  · simp [h.registration]
  · simp [hs₁]
  · simp [hs₂]

theorem dropAlloc (h : Twin b₁ b₂ v₁ v₂) : Twin b₁ b₂ v₁.dropAlloc v₂.dropAlloc := by
  refine ⟨h.info,h.queue,?_,h.registration,h.sent⟩
  simp [View.dropAlloc,h.oracle]

theorem markClosed (h : Twin b₁ b₂ v₁ v₂) : Twin b₁ b₂ v₁.markClosed v₂.markClosed := by
  have hclosed := h.withInfo { v₁.info with closed := true }
  unfold View.markClosed
  rw [← h.info]
  exact hclosed.note rfl rfl

theorem enqueue (h : Twin b₁ b₂ v₁ v₂) (i₁ i₂ : Nat) (msg : Bytes) :
    Twin b₁ b₂ (v₁.enqueue i₁ msg) (v₂.enqueue i₂ msg) := by
  have hqueue := h.withQueue (v₁.queue ++
    [Pkt.mk [] (frame msgTypeNormal msg) (frame_ne_nil _ _)])
  unfold View.enqueue
  rw [← h.queue]
  exact hqueue.note rfl rfl

theorem setEpollout (h : Twin b₁ b₂ v₁ v₂) (on : Bool) :
    Twin b₁ b₂ (v₁.setEpollout on p) (v₂.setEpollout on p) := by
  obtain ⟨i,k₁,q⟩ := v₁
  obtain ⟨j,k₂,q'⟩ := v₂
  obtain rfl : i = j := h.info
  obtain rfl : q = q' := h.queue
  obtain ⟨bs,hs₁,hs₂⟩ := h.sent
  have horacle : k₁.oracle = k₂.oracle := h.oracle
  have hreg : k₁.registration = k₂.registration := h.registration
  have hsent : ∀ b, ∃ bs, wire (k₁.trace ++ [.epollMod on b]) = b₁ ++ bs ∧
      wire (k₂.trace ++ [.epollMod on b]) = b₂ ++ bs :=
    fun b => ⟨bs,by simpa [wire] using hs₁,by simpa [wire] using hs₂⟩
  unfold View.setEpollout Sock.epollCtlMod
  simp only [← horacle,← hreg]
  split
  · exact h
  · split
    · exact ⟨rfl,rfl,rfl,rfl,hsent _⟩
    · exact ⟨rfl,rfl,rfl,rfl,hsent _⟩

theorem arm (h : Twin b₁ b₂ v₁ v₂) : Twin b₁ b₂ (v₁.arm p) (v₂.arm p) := by
  unfold View.arm
  rw [← h.queue]
  split
  · exact h
  · exact h.setEpollout true

theorem tryWriteLoop (sends : List SendRes) (h : Twin b₁ b₂ v₁ v₂) :
    Twin b₁ b₂ (v₁.tryWriteLoop p sends).1 (v₂.tryWriteLoop p sends).1 ∧
      (v₁.tryWriteLoop p sends).2 = (v₂.tryWriteLoop p sends).2 := by
  induction sends generalizing v₁ v₂ with
  | nil =>
    obtain ⟨i,k₁,q⟩ := v₁
    obtain ⟨j,k₂,q'⟩ := v₂
    obtain rfl : q = q' := h.queue
    cases q with
    | nil => exact ⟨h.setEpollout false,rfl⟩
    | cons x q => exact ⟨h,rfl⟩
  | cons r rest ih =>
    obtain ⟨i,k₁,q⟩ := v₁
    obtain ⟨j,k₂,q'⟩ := v₂
    obtain rfl : q = q' := h.queue
    cases q with
    | nil => exact ⟨h.setEpollout false,rfl⟩
    | cons x q =>
      have hrest := h.withSends rest
      unfold View.tryWriteLoop
      cases r with
      | wouldBlock => exact ⟨hrest,rfl⟩
      | interrupted => exact ih hrest
      | fails => exact ⟨hrest.note rfl rfl,rfl⟩
      | accepts n =>
        have htaken := hrest.accept .queued (x.unsent.take n)
        simp only
        split
        · exact ⟨htaken.note rfl rfl,rfl⟩
        · split
          · exact ih (htaken.withQueue _)
          · exact ih (htaken.withQueue _)

theorem sendNow (h : Twin b₁ b₂ v₁ v₂) : Twin b₁ b₂ (v₁.sendNow p) (v₂.sendNow p) := by
  obtain ⟨hwrite,hret⟩ := h.tryWriteLoop (p := p) v₁.sock.oracle.sends
  unfold View.sendNow View.tryWrite
  simp only [← h.oracle,← hret]
  split
  · exact hwrite.markClosed
  · exact hwrite

theorem offer (h : Twin b₁ b₂ v₁ v₂) (i₁ i₂ : Nat) (own : Bool) (msg : Bytes) :
    Twin b₁ b₂ (v₁.offer p i₁ own msg) (v₂.offer p i₂ own msg) := by
  have hnote : Twin b₁ b₂ (v₁.noteOffer i₁ own msg.length) (v₂.noteOffer i₂ own msg.length) :=
    h.note rfl rfl
  have hdrop := hnote.dropAlloc
  have hqueued := hdrop.enqueue i₁ i₂ msg
  have halloc : (v₁.noteOffer i₁ own msg.length).nextAlloc =
      (v₂.noteOffer i₂ own msg.length).nextAlloc := by
    unfold View.nextAlloc
    rw [hnote.oracle]
  unfold View.offer
  simp only [halloc,hnote.info,hdrop.info,hdrop.queue]
  split
  · exact hnote
  · split
    · exact hnote
    · split
      · exact hdrop
      · split
        · exact hdrop.arm
        · split
          · exact hqueued.sendNow.arm
          · exact hqueued.arm

end Twin

def View.recipient (v : View) : Recipient :=
  ⟨v.info.withQueue .empty,pendingBytes v.queue,v.queue.length,
    v.queue.map (fun x => (x.data,x.sent.length)),v.sock.registration,v.sock.oracle⟩

theorem chain_packets {h : Heap MsgPacket} {s : Option Nat} {as : List Nat} {xs : List Pkt}
    (hc : Chain MsgPacket.next PktRep h s as xs) :
    as.filterMap (fun a => (h.get a).map (fun m => (m.packetData,m.offset))) =
      xs.map (fun x => (x.data,x.sent.length)) := by
  have hmap := hc.map_eq (f := Option.map (fun m => (m.packetData,m.offset)))
    (g := fun x => some (x.data,x.sent.length)) (fun m x ⟨hdata,hoff,_,_⟩ => by simp [hdata,hoff])
  have hsome := congrArg (List.filterMap id) hmap
  rw [List.filterMap_map,List.filterMap_map] at hsome
  exact hsome.trans (List.filterMap_eq_map ▸ rfl)

theorem QueueRep.packets {h : Heap MsgPacket} {q : MsgQueue} {as : List Nat} {xs : List Pkt}
    (hq : QueueRep h q as xs) : q.packets h = xs.map (fun x => (x.data,x.sent.length)) := by
  unfold MsgQueue.packets MsgQueue.path
  rw [hq.count,hq.chain.walk_eq]
  exact chain_packets hq.chain

theorem Owns.recipient {w : World} {p : Nat} {as : List Nat} {v : View} (h : Owns w p as v) :
    w.recipient p = some v.recipient ∧ w.wireOf p = wire v.sock.trace := by
  obtain ⟨q,hc,hk,hq,-⟩ := h
  have hk' : w.socks.get (v.info.withQueue q).clientFd = some v.sock := hk
  have hcount : q.queuedCount = v.queue.length := hq.count.trans hq.chain.length_eq
  have hqueue : (v.info.withQueue q).msgQueue = q := rfl
  unfold World.recipient World.wireOf View.recipient
  simp only [hc,hk',Option.bind_some,Option.map_some,hqueue,hq.bytes,hcount,hq.packets]
  exact ⟨rfl,rfl⟩

theorem Pkt.eq_of_data {x y : Pkt} (hdata : x.data = y.data)
    (hsent : x.sent.length = y.sent.length) : x = y := by
  obtain ⟨s,u,hu⟩ := x
  obtain ⟨s',u',hu'⟩ := y
  obtain ⟨rfl,rfl⟩ := List.append_inj hdata hsent
  rfl

theorem queue_eq_of_packets {xs ys : List Pkt}
    (h : xs.map (fun x => (x.data,x.sent.length)) = ys.map (fun x => (x.data,x.sent.length))) :
    xs = ys := by
  refine List.map_injective_iff.mpr (fun x y hxy => ?_) h
  exact Pkt.eq_of_data (congrArg Prod.fst hxy) (congrArg Prod.snd hxy)

def View.blanked (v : View) : View := { v with info := v.info.withQueue .empty }

theorem blanked_twin {v₁ v₂ : View} (h : v₁.recipient = v₂.recipient) :
    Twin (wire v₁.sock.trace) (wire v₂.sock.trace) v₁.blanked v₂.blanked := by
  have hqueue := queue_eq_of_packets (congrArg Recipient.queue h)
  exact ⟨congrArg Recipient.record h,hqueue,congrArg Recipient.oracle h,
    congrArg Recipient.registration h,[],by simp [View.blanked]⟩

theorem Twin.recipient {b₁ b₂ : Bytes} {v₁ v₂ : View} (h : Twin b₁ b₂ v₁ v₂) :
    v₁.recipient = v₂.recipient := by
  unfold View.recipient
  rw [h.info,h.queue,h.registration,h.oracle]

theorem Refines.blanked {w : World} {R : Room} (h : Refines w R) :
    Refines w { R with view := fun p => (R.view p).blanked } := by
  obtain ⟨A,h⟩ := h
  exact ⟨A,{ h with owns := h.owns, fds := h.fds, registered := h.registered }⟩

theorem View.offer_passes {v : View} {own : Bool} (p i : Nat) (msg : Bytes)
    (h : own = true ∨ v.info.closed = true) : (v.offer p i own msg).recipient = v.recipient := by
  unfold View.offer
  simp only
  split
  · rfl
  · rename_i hown
    have hclosed : (v.noteOffer i own msg.length).info.closed = true := h.resolve_left hown
    rw [if_pos hclosed]
    rfl

theorem broadcast_formed {w : World} (h : w.Formed) (sender : Option Nat) (msg : Bytes) :
    ∃ w', broadcast w sender msg = .ok (w',0) ∧ w'.Formed := by
  obtain ⟨R,href,hfree⟩ := h
  obtain ⟨w',hcall,href'⟩ := broadcast_refines href hfree sender msg
  exact ⟨w',hcall,_,href',hfree⟩

/-- A broadcast in order: it returns 0, and acts on each member's view by itself. -/
theorem broadcast_recipients {w : World} (h : w.Formed) (sender : Option Nat) (msg : Bytes) :
    ∃ (R : Room) (w' : World), broadcast w sender msg = .ok (w',0) ∧ w.clientList = R.members ∧
      w'.clientList = R.members ∧ ∀ p ∈ R.members,
        w.recipient p = some (R.view p).recipient ∧
        w.wireOf p = wire (R.view p).sock.trace ∧
        w.closedFlag p = (R.view p).info.closed ∧
        w'.recipient p = some (((R.view p).blanked.offer p R.broadcasts.length
          (decide (some p = sender)) msg).recipient) ∧
        w'.wireOf p = wire ((R.view p).blanked.offer p R.broadcasts.length
          (decide (some p = sender)) msg).sock.trace := by
  obtain ⟨R,href,hfree⟩ := h
  obtain ⟨w',hcall,A',hrep'⟩ := broadcast_refines href.blanked hfree sender msg
  obtain ⟨A,hrep⟩ := href
  refine ⟨R,w',hcall,hrep.members,hrep'.members,fun p hp => ?_⟩
  have hown := hrep.owns p hp
  have hown' := (hrep'.owns p hp).recipient
  simp only [Room.broadcast,hp,if_true] at hown'
  have hflag : w.closedFlag p = (R.view p).info.closed := by
    obtain ⟨q,hc,-⟩ := hown
    unfold World.closedFlag
    rw [hc]
    rfl
  exact ⟨hown.recipient.1,hown.recipient.2,hflag,hown'⟩

theorem broadcast_spares {w w' : World} (h : w.Formed) {sender : Option Nat} {msg : Bytes}
    (hcall : broadcast w sender msg = .ok (w',0)) : Spares sender w w' := by
  obtain ⟨R,w₁,hcall₁,hlist,hlist₁,hview⟩ := broadcast_recipients h sender msg
  rw [hcall] at hcall₁
  cases hcall₁
  refine ⟨hlist₁.trans hlist.symm,fun q hq => (broadcast_passes msg hq).of_ok hcall,
    fun q hq hpass => ?_⟩
  obtain ⟨hbefore,-,hflag,hafter,-⟩ := hview q (hlist ▸ hq)
  rw [hbefore,hafter,View.offer_passes]
  · rfl
  · have hwhy := hpass hq
    rw [hflag] at hwhy
    simpa [View.blanked,ClientInfo.withQueue] using hwhy

/-- A broadcast changes nobody's record but those of its open recipients, and
for each of them two broadcasts of one message, in two states that agree on it,
do the same, whoever else is listed and whatever happens to the others. -/
theorem broadcast_independent {w₁ w₂ : World} (h₁ : w₁.Formed) (h₂ : w₂.Formed)
    (sender₁ sender₂ : Option Nat) (msg : Bytes) :
    ∃ w₁' w₂', broadcast w₁ sender₁ msg = .ok (w₁',0) ∧ broadcast w₂ sender₂ msg = .ok (w₂',0) ∧
      Spares sender₁ w₁ w₁' ∧ ∀ r, r ∈ w₁.clientList → r ∈ w₂.clientList →
        some r ≠ sender₁ → some r ≠ sender₂ → w₁.recipient r = w₂.recipient r →
          SameFor r w₁ w₁' w₂ w₂' := by
  obtain ⟨R₁,w₁',hcall₁,hlist₁,-,hview₁⟩ := broadcast_recipients h₁ sender₁ msg
  obtain ⟨R₂,w₂',hcall₂,hlist₂,-,hview₂⟩ := broadcast_recipients h₂ sender₂ msg
  refine ⟨w₁',w₂',hcall₁,hcall₂,broadcast_spares h₁ hcall₁,fun r hr₁ hr₂ hne₁ hne₂ hsame => ?_⟩
  obtain ⟨hbefore₁,hwire₁,-,hafter₁,hwire₁'⟩ := hview₁ r (hlist₁ ▸ hr₁)
  obtain ⟨hbefore₂,hwire₂,-,hafter₂,hwire₂'⟩ := hview₂ r (hlist₂ ▸ hr₂)
  rw [hbefore₁,hbefore₂] at hsame
  have htwin := (blanked_twin (Option.some.inj hsame)).offer (p := r) R₁.broadcasts.length
    R₂.broadcasts.length false msg
  rw [decide_eq_false hne₁] at hafter₁ hwire₁'
  rw [decide_eq_false hne₂] at hafter₂ hwire₂'
  obtain ⟨bs,hs₁,hs₂⟩ := htwin.sent
  exact ⟨by rw [hafter₁,hafter₂,htwin.recipient],
    bs,by rw [hwire₁',hwire₁,hs₁],by rw [hwire₂',hwire₂,hs₂]⟩

/-- Bob speaks, and his message stays in Ann's queue. That makes no difference
to what Ann's message does to him. -/
theorem broadcast_independent_annAndBob : ∃ s w w₁ w₂,
    run step Sys.init Action.annAndBob = .ok s ∧
      broadcast s.world (some 2) (ascii "hello") = .ok (w,0) ∧
      broadcast s.world (some 1) (ascii "hey") = .ok (w₁,0) ∧
      broadcast w (some 1) (ascii "hey") = .ok (w₂,0) ∧ SameFor 2 s.world w₁ w w₂ := by
  obtain ⟨s,hrun,htest⟩ := reaches_run (show reaches Action.annAndBob (fun s =>
    decide (s.phase ≠ .done ∧ s.world.clientList = [1,2])) = true by decide +kernel)
  obtain ⟨hphase,hlist⟩ := of_decide_eq_true htest
  have hformed := run_formed hrun hphase
  obtain ⟨w,hcall,hformed'⟩ := broadcast_formed hformed (some 2) (ascii "hello")
  have hspares := broadcast_spares hformed hcall
  obtain ⟨w₁,w₂,hcall₁,hcall₂,-,hsame⟩ :=
    broadcast_independent hformed hformed' (some 1) (some 1) (ascii "hey")
  have hbob : 2 ∈ s.world.clientList := by simp [hlist]
  refine ⟨s,w,w₁,w₂,hrun,hcall,hcall₁,hcall₂,hsame 2 hbob ?_ (by decide) (by decide) ?_⟩
  · rw [hspares.list]
    exact hbob
  · exact (hspares.queues 2 hbob (fun _ => .inl rfl)).symm

end ChatServer
