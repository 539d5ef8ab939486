import ChatServer.RunRefinement

/-! The representation invariant of the message queues, in every state of the
server and under any further calls of the functions that work on them. -/
set_option autoImplicit false

namespace ChatServer
open ByteString Memory Execution

def MsgQueue.path (q : MsgQueue) (h : Heap MsgPacket) : List Nat :=
  walk MsgPacket.next h q.queuedCount q.head

def remaining (h : Heap MsgPacket) (a : Nat) : Nat :=
  match h.get a with
  | none => 0
  | some m => m.len-m.offset

/-- The queue fields agree with the linked list that they point to. -/
structure QueueOk (h : Heap MsgPacket) (q : MsgQueue) : Prop where
  head_tail : q.head = none ↔ q.tail = none
  tail_count : q.tail = none ↔ q.queuedCount = 0
  length : (q.path h).length = q.queuedCount
  distinct : (q.path h).Nodup
  live : ∀ a ∈ q.path h, ∃ m, h.get a = some m ∧ m.offset < m.len ∧
    m.len = m.packetData.length
  last : (q.path h).getLast? = q.tail
  tail_next : ∀ t, q.tail = some t → ∃ m, h.get t = some m ∧ m.next = none
  bytes : q.queuedBytes = ((q.path h).map (remaining h)).sum
  head_fits : ∀ a, q.head = some a → 0 < remaining h a ∧ remaining h a ≤ q.queuedBytes
  limit : q.queuedBytes ≤ msgSizeLimit

theorem PktRep.remaining {m : MsgPacket} {x : Pkt} (h : PktRep m x) :
    m.len-m.offset = x.unsent.length ∧ m.offset < m.len ∧ m.len = m.packetData.length := by
  obtain ⟨hdata,hoff,hlen,-⟩ := h
  have hsum : x.data.length = x.sent.length+x.unsent.length := by simp [Pkt.data]
  have hpos := x.unsent_pos
  refine ⟨by omega,by omega,?_⟩
  rw [hlen,hdata]

theorem chain_remaining {h : Heap MsgPacket} {s : Option Nat} {as : List Nat} {xs : List Pkt}
    (hc : Chain MsgPacket.next PktRep h s as xs) :
    (as.map (remaining h)).sum = pendingBytes xs :=
  congrArg List.sum (hc.map_eq (f := fun cell => match cell with
    | none => 0
    | some m => m.len-m.offset) (fun _ _ hx => hx.remaining.1))

theorem QueueRep.ok {h : Heap MsgPacket} {q : MsgQueue} {as : List Nat} {xs : List Pkt}
    (hq : QueueRep h q as xs) : QueueOk h q := by
  have hpath : q.path h = as := by
    unfold MsgQueue.path
    rw [hq.count]
    exact hq.chain.walk_eq
  have hsum := chain_remaining hq.chain
  refine ⟨?_,?_,?_,?_,?_,?_,?_,?_,?_,?_⟩
  · rw [hq.head_eq,hq.tail,List.head?_eq_none_iff,List.getLast?_eq_none_iff]
  · rw [hq.tail,hq.count,List.getLast?_eq_none_iff,List.length_eq_zero_iff]
  · rw [hpath,hq.count]
  · rw [hpath]
    exact hq.nodup
  · rw [hpath]
    intro a ha
    obtain ⟨m,hm,x,-,hx⟩ := hq.chain.live ha
    exact ⟨m,hm,hx.remaining.2⟩
  · rw [hpath,hq.tail]
  · intro t ht
    exact hq.chain.last_next (hq.tail ▸ ht)
  · rw [hpath,hsum,hq.bytes]
  · intro a ha
    cases xs with
    | nil =>
      have hnone := hq.head_none.mpr rfl
      rw [hnone] at ha
      cases ha
    | cons x xs =>
      obtain ⟨b,bs,m,-,hb,hm,hx,-⟩ := hq.cons_inv
      have hab : b = a := Option.some.inj (hb.symm.trans ha)
      subst hab
      have hr : remaining h b = x.unsent.length := by
        simp only [remaining,hm]
        exact hx.remaining.1
      have hpos := x.unsent_pos
      rw [hr,hq.bytes,pendingBytes_cons]
      omega
  · rw [hq.bytes]
    exact hq.limit

/-- A call that works on queues, or a new plan for what its system calls and
allocations return. `enqueue` frees a packet that is rejected, as `broadcast` does. -/
inductive QueueCall where
  | plan : Nat → Oracle → QueueCall
  | enqueue : Nat → Bytes → QueueCall
  | tryWrite : Nat → QueueCall
  | broadcast : Option Nat → Bytes → QueueCall

def queueCall (w : World) : QueueCall → Except Fault World
  | .plan fd oracle => pure (w.onSock fd (fun k => { k with oracle := oracle }))
  | .enqueue client msg => do
    let (w,packet) ← createPacket w client (createHeader msg.length msgTypeNormal true) msg
    let (w,r) ← clientEnqueueMsgPacket w client packet msgSizeLimit
    match packet with
    | none => pure w
    | some a => if r = -1 then pure (w.freePacket a) else pure w
  | .tryWrite client => do
    let (w,_) ← clientTryWrite w client
    pure w
  | .broadcast sender msg => do
    let (w,_) ← ChatServer.broadcast w sender msg
    pure w

def QueueCall.On (l : List Nat) : QueueCall → Prop
  | .enqueue client _ => client ∈ l
  | .tryWrite client => client ∈ l
  | _ => True

section Calls
variable {w : World} {R : Room}

theorem enqueue_closed {A : Nat → List Nat} {p : Nat} (h : Represents w R A)
    (hp : p ∈ R.members) {a : Nat} {m : MsgPacket} (ha : w.packets.get a = some m)
    (hclosed : (R.view p).info.closed = true) :
    clientEnqueueMsgPacket w p (some a) msgSizeLimit = .ok (w,-1) := by
  obtain ⟨q,hc,-,-,-⟩ := h.access hp
  have hclosed' : ((R.view p).info.withQueue q).closed = true := hclosed
  unfold clientEnqueueMsgPacket
  simp only [hc,World.packet_eq_ok ha,ok_bind,hclosed',if_true,ite_self]
  rfl

theorem enqueueCall_refines {p : Nat} (h : Refines w R) (hp : p ∈ R.members) (msg : Bytes) :
    ∃ w' v, queueCall w (.enqueue p msg) = .ok w' ∧ Refines w' (R.set p v) := by
  obtain ⟨A,h⟩ := h
  obtain ⟨w₁,r,hcreate,h₁,-,hnew⟩ := createPacket_refines h hp
    (createHeader msg.length msgTypeNormal true) msg
  unfold queueCall
  simp only [hcreate,ok_bind]
  cases r with
  | none => exact ⟨w₁,_,rfl,A,h₁⟩
  | some a =>
    obtain ⟨hfresh,ha⟩ := hnew a rfl
    have hfreed : Represents (w₁.freePacket a) (R.set p (R.view p).dropAlloc) A :=
      h₁.packets_changed (fun q hq b hb =>
        Heap.get_free_of_ne _ (fun he => hfresh q hq (he ▸ hb)))
    by_cases hlim : msgSizeLimit < pendingBytes ((R.set p (R.view p).dropAlloc).view p).queue +
        (headerSize+msg.length)
    · have hrej := enqueue_rejected h₁ hp ha hlim
      simp only [hrej,ok_bind,if_true]
      exact ⟨_,_,rfl,A,hfreed⟩
    · by_cases hclosed : ((R.set p (R.view p).dropAlloc).view p).info.closed = true
      · have hrej := enqueue_closed h₁ hp ha hclosed
        simp only [hrej,ok_bind,if_true]
        exact ⟨_,_,rfl,A,hfreed⟩
      · obtain ⟨w₂,A₂,henq,h₂,-⟩ := enqueue_refines h₁ hp hfresh ha (by simpa using hclosed)
          (by omega)
        have hzero : ¬ (0 : Int) = -1 := by decide
        simp only [henq,ok_bind,hzero,if_false]
        rw [Room.set_set] at h₂
        exact ⟨w₂,_,rfl,A₂,h₂⟩

/-- A call leads from a world that represents a room to another such world. -/
theorem queueCall_refines (h : Refines w R) (hfree : R.mutex = false) {call : QueueCall}
    (hon : call.On R.members) :
    ∃ w' R', queueCall w call = .ok w' ∧ Refines w' R' ∧ R'.mutex = false ∧
      R'.members = R.members := by
  cases call with
  | plan fd oracle =>
    rcases onSock_refines h fd (fun k => { k with oracle := oracle }) (fun _ => rfl) with
      ⟨p,hp,hw⟩ | hw
    · exact ⟨_,_,rfl,hw,hfree,rfl⟩
    · exact ⟨_,_,rfl,hw,hfree,rfl⟩
  | enqueue p msg =>
    obtain ⟨w',v,hw,hr⟩ := enqueueCall_refines h hon msg
    exact ⟨w',_,hw,hr,hfree,rfl⟩
  | tryWrite p =>
    obtain ⟨w',hw,hr⟩ := clientTryWrite_refines h hon
    refine ⟨w',_,?_,hr,hfree,rfl⟩
    simp only [queueCall,hw,ok_bind]
    rfl
  | broadcast sender msg =>
    obtain ⟨w',hw,hr⟩ := broadcast_refines h hfree sender msg
    refine ⟨w',_,?_,hr,hfree,rfl⟩
    simp only [queueCall,hw,ok_bind]
    rfl

theorem queueCalls_refine (calls : List QueueCall) (h : Refines w R) (hfree : R.mutex = false)
    (hon : ∀ call ∈ calls, call.On R.members) :
    ∃ w' R', run queueCall w calls = .ok w' ∧ Refines w' R' ∧ R'.members = R.members := by
  induction calls generalizing w R with
  | nil => exact ⟨w,R,rfl,h,rfl⟩
  | cons call calls ih =>
    obtain ⟨w₁,R₁,hw₁,h₁,hfree₁,hm₁⟩ := queueCall_refines h hfree (hon call (by simp))
    obtain ⟨w₂,R₂,hw₂,h₂,hm₂⟩ := ih h₁ hfree₁ (fun c hc => by
      rw [hm₁]
      exact hon c (by simp [hc]))
    refine ⟨w₂,R₂,?_,h₂,hm₂.trans hm₁⟩
    simp only [run_cons,hw₁]
    exact hw₂

end Calls

/-- In every state that a run of the server reaches before its clean-up, and
after any further calls from there on, the queue of every listed client is a
list without repetitions that its counters and pointers describe. -/
theorem queues_ok {acts : List Action} {s : Sys} (calls : List QueueCall)
    (hrun : run step Sys.init acts = .ok s) (hphase : s.phase ≠ .done)
    (hcalls : ∀ call ∈ calls, call.On s.world.clientList) :
    ∃ w, run queueCall s.world calls = .ok w ∧ w.clientList = s.world.clientList ∧
      ∀ p ∈ w.clientList, ∃ c, w.clients.get p = some c ∧ QueueOk w.packets c.msgQueue := by
  obtain ⟨R,htracks,-,-⟩ := run_tracks hrun hphase
  have hlist : s.world.clientList = R.members := htracks.refines.clientList
  rw [hlist] at hcalls
  obtain ⟨w,R',hw,⟨A,h⟩,hm⟩ := queueCalls_refine calls htracks.refines htracks.mutex hcalls
  refine ⟨w,hw,?_,?_⟩
  · rw [h.members,hm,hlist]
  · intro p hp
    rw [h.members] at hp
    obtain ⟨q,hc,-,hq,-⟩ := h.owns p hp
    exact ⟨_,hc,hq.ok⟩

theorem queues_ok_slowReader : ∃ s w, run step Sys.init Action.slowReader = .ok s ∧
    run queueCall s.world [.enqueue 2 (ascii "x"),.tryWrite 2,.broadcast (some 1) (ascii "y")] =
      .ok w ∧ ∀ p ∈ w.clientList, ∃ c, w.clients.get p = some c ∧
        QueueOk w.packets c.msgQueue := by
  obtain ⟨s,hrun,htest⟩ := reaches_run
    (show reaches Action.slowReader (fun s => decide (s.phase ≠ .done ∧ 2 ∈ s.world.clientList)) =
      true by decide +kernel)
  obtain ⟨hphase,hlisted⟩ := of_decide_eq_true htest
  obtain ⟨w,hw,-,hok⟩ := queues_ok [.enqueue 2 (ascii "x"),.tryWrite 2,
    .broadcast (some 1) (ascii "y")] hrun hphase (by simp [QueueCall.On,hlisted])
  exact ⟨s,w,hrun,hw,hok⟩

end ChatServer
