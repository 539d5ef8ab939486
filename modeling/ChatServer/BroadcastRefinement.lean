import ChatServer.WriteRefinement

/-! The refinement of `broadcast` and of the direct senders: the loop over the
client list acts on the view of each member on its own. -/
set_option autoImplicit false

namespace ChatServer
open ByteString Memory Execution

section Broadcasting
variable {w : World} {R : Room} {p : Nat}

theorem noteOffer_refines (h : Refines w R) (hp : p ∈ R.members) (sender : Option Nat)
    (len : Nat) :
    Yields (noteOffer w p sender len) (R.set p ((R.view p).noteOffer
      (R.broadcasts.length-1) (decide (some p = sender)) len)) := by
  have href := h
  obtain ⟨A,h⟩ := h
  obtain ⟨q,hc,hk,hq,-⟩ := h.access hp
  have hk' : w.sock ((R.view p).info.withQueue q).clientFd = .ok (R.view p).sock := hk
  have hbytes : ((R.view p).info.withQueue q).msgQueue.queuedBytes =
      pendingBytes (R.view p).queue := hq.bytes
  unfold noteOffer
  simp only [hc,hk',ok_bind,hbytes,h.broadcasts]
  exact note_refines href hp _

theorem sendNow_refines {R' : Room} {f : World → Except Fault World} (h : Refines w R)
    (hp : p ∈ R.members)
    (hf : ∀ w', Refines w' (R.set p ((R.view p).sendNow p)) → Yields (f w') R') :
    Yields (do
      let (w,r) ← clientTryWrite w p
      if r = -1 then do
        let w ← markClosed w p
        f w
      else f w) R' := by
  refine (clientTryWrite_refines h hp).bind_yields ?_
  intro w' hw'
  unfold View.sendNow at hf
  by_cases hr : ((R.view p).tryWrite p).2 = -1
  · simp only [hr,if_true] at hf ⊢
    have hclose := markClosed_refines hw' hp
    simp only [Room.view_set_self,Room.set_set] at hclose
    exact hclose.bind hf
  · simp only [hr,if_false] at hf ⊢
    exact hf w' hw'

theorem arm_refines (h : Refines w R) (hp : p ∈ R.members) :
    Yields (do
      let c ← w.client p
      if c.msgQueue.head ≠ none then enableEpolloutForClient w p else pure w)
      (R.set p ((R.view p).arm p)) := by
  have href := h
  obtain ⟨A,h⟩ := h
  obtain ⟨q,hc,-,hq,-⟩ := h.access hp
  have hhead : ((R.view p).info.withQueue q).msgQueue.head = none ↔ (R.view p).queue = [] :=
    hq.head_none
  unfold View.arm
  simp only [hc,ok_bind]
  by_cases hempty : (R.view p).queue = []
  · rw [if_neg (not_not.mpr (hhead.mpr hempty)),if_pos hempty,Room.set_view]
    exact ⟨w,rfl,href⟩
  · rw [if_pos (fun he => hempty (hhead.mp he)),if_neg hempty]
    exact setEpollout_refines href hp true

/-- What `broadcast` does for a member that is neither the sender nor closed.
The comparison with the packet that was just freed is false, because every
packet in the queue is still live. -/
theorem broadcastPacket_refines (h : Refines w R) (hp : p ∈ R.members) (msg : Bytes)
    (hopen : (R.view p).info.closed = false) :
    Yields (do
      let (w,packet) ← createPacket w p (createHeader msg.length msgTypeNormal true) msg
      match packet with
      | none => pure w
      | some a =>
        let (w,r) ← clientEnqueueMsgPacket w p (some a) msgSizeLimit
        let w := if r = -1 then w.freePacket a else w
        let c ← w.client p
        let w ← if c.epolloutEnabled = false ∧ c.msgQueue.head = some a then do
            let (w,r) ← clientTryWrite w p
            if r = -1 then markClosed w p else pure w
          else pure w
        let c ← w.client p
        if c.msgQueue.head ≠ none then enableEpolloutForClient w p else pure w)
      (R.set p
        (if (R.view p).nextAlloc = false then (R.view p).dropAlloc
        else if pendingBytes (R.view p).queue+(headerSize+msg.length) > msgSizeLimit then
          (R.view p).dropAlloc.arm p
        else if (R.view p).info.epolloutEnabled = false ∧ (R.view p).queue = [] then
          (((R.view p).dropAlloc.enqueue (R.broadcasts.length-1) msg).sendNow p).arm p
        else ((R.view p).dropAlloc.enqueue (R.broadcasts.length-1) msg).arm p)) := by
  obtain ⟨A,h⟩ := h
  obtain ⟨w₁,r,hcreate,h₁,hsome,hnew⟩ := createPacket_refines h hp
    (createHeader msg.length msgTypeNormal true) msg
  simp only [hcreate,ok_bind]
  cases r with
  | none =>
    have hno : (R.view p).nextAlloc = false := by simpa using hsome.symm
    rw [if_pos hno]
    exact ⟨w₁,rfl,A,h₁⟩
  | some a =>
    have hyes : ¬ (R.view p).nextAlloc = false := by simp [← hsome]
    obtain ⟨hfresh,ha⟩ := hnew a rfl
    rw [if_neg hyes]
    by_cases hlim : pendingBytes (R.view p).queue+(headerSize+msg.length) > msgSizeLimit
    · have hlim' : msgSizeLimit < pendingBytes ((R.set p (R.view p).dropAlloc).view p).queue +
          (headerSize+msg.length) := by simpa [View.dropAlloc] using hlim
      have hrej := enqueue_rejected h₁ hp ha hlim'
      have h₂ : Represents (w₁.freePacket a) (R.set p (R.view p).dropAlloc) A :=
        h₁.packets_changed (fun q hq b hb =>
          Heap.get_free_of_ne _ (fun he => hfresh q hq (he ▸ hb)))
      obtain ⟨q,hc,-,hq,-⟩ := h₂.access hp
      have hne : ((((R.set p (R.view p).dropAlloc).view p).info.withQueue q).msgQueue.head) ≠
          some a := by
        intro he
        have hmem : a ∈ A p := List.mem_of_head? (hq.head_eq ▸ he)
        exact hfresh p hp hmem
      have harm := arm_refines ⟨A,h₂⟩ hp
      simp only [Room.view_set_self,Room.set_set] at harm hc hne
      simp only [hrej,ok_bind,if_true,hc,hne,and_false,if_false,pure_eq_ok,if_pos hlim]
      simpa only [hc,ok_bind,pure_eq_ok] using harm
    · have hlim' : pendingBytes ((R.set p (R.view p).dropAlloc).view p).queue +
          (headerSize+msg.length) ≤ msgSizeLimit := by simpa [View.dropAlloc] using hlim
      obtain ⟨w₂,A₂,henq,h₂,hcells⟩ := enqueue_refines h₁ hp hfresh ha
        (by simpa [View.dropAlloc] using hopen) hlim'
      obtain ⟨q,hc,-,hq,-⟩ := h₂.access hp
      have hhead : q.head = some a ↔ (R.view p).queue = [] := by
        obtain ⟨q₀,-,-,hq₀,-⟩ := h.access hp
        rw [hcells] at hq
        exact hq₀.head_new hq (hfresh p hp)
      simp only [Room.view_set_self,Room.set_set,Room.set_broadcasts] at h₂ hc
      have hhead' : (((R.view p).dropAlloc.enqueue (R.broadcasts.length-1) msg).info.withQueue
          q).msgQueue.head = some a ↔ (R.view p).queue = [] := hhead
      have hflag : (((R.view p).dropAlloc.enqueue (R.broadcasts.length-1) msg).info.withQueue
          q).epolloutEnabled = (R.view p).info.epolloutEnabled := rfl
      have hzero : ¬ ((0 : Int) = -1) := by decide
      simp only [henq,ok_bind,hzero,if_false,hc,hhead',hflag,if_neg hlim]
      by_cases hnow : (R.view p).info.epolloutEnabled = false ∧ (R.view p).queue = []
      · simp only [if_pos hnow]
        simp only [pure_bind]
        refine sendNow_refines ⟨A₂,h₂⟩ hp ?_
        intro w₃ h₃
        have harm := arm_refines h₃ hp
        simpa only [Room.view_set_self,Room.set_set] using harm
      · simp only [if_neg hnow,pure_bind]
        have harm := arm_refines ⟨A₂,h₂⟩ hp
        simpa only [Room.view_set_self,Room.set_set] using harm

theorem broadcastTo_refines (h : Refines w R) (hp : p ∈ R.members) (sender : Option Nat)
    (msg : Bytes) :
    Yields (broadcastTo sender (createHeader msg.length msgTypeNormal true) msg w p)
      (R.set p ((R.view p).offer p (R.broadcasts.length-1) (decide (some p = sender)) msg)) := by
  unfold broadcastTo View.offer
  refine (noteOffer_refines h hp sender msg.length).bind ?_
  intro w₁ h₁
  by_cases hown : some p = sender
  · simp only [hown,if_true,decide_true] at h₁ ⊢
    exact ⟨w₁,rfl,h₁⟩
  · simp only [hown,if_false,decide_false,Bool.false_eq_true] at h₁ ⊢
    have href := h₁
    obtain ⟨A,h₁⟩ := h₁
    obtain ⟨q,hc,-,-,-⟩ := h₁.access hp
    simp only [Room.view_set_self] at hc
    simp only [hc,ok_bind]
    by_cases hclosed : ((R.view p).noteOffer (R.broadcasts.length-1) false
        msg.length).info.closed = true
    · have hclosed' : (((R.view p).noteOffer (R.broadcasts.length-1) false
          msg.length).info.withQueue q).closed = true := hclosed
      rw [if_pos hclosed,if_pos hclosed']
      exact ⟨w₁,rfl,href⟩
    · have hclosed' : ¬ (((R.view p).noteOffer (R.broadcasts.length-1) false
          msg.length).info.withQueue q).closed = true := hclosed
      rw [if_neg hclosed,if_neg hclosed']
      have hsend := broadcastPacket_refines href hp msg (by simpa using hclosed)
      simp only [Room.view_set_self,Room.set_set,Room.set_broadcasts] at hsend
      exact hsend

/-- The loop reaches each member once, so no turn sees what another turn did. -/
theorem broadcastLoop_refines (sender : Option Nat) (msg : Bytes) (l : List Nat)
    (h : Refines w R) (hl : l.Nodup) (hsub : ∀ p ∈ l, p ∈ R.members) :
    Yields (l.foldlM (broadcastTo sender (createHeader msg.length msgTypeNormal true) msg) w)
      { R with view := fun q =>
          if q ∈ l then
            (R.view q).offer q (R.broadcasts.length-1) (decide (some q = sender)) msg
          else R.view q } := by
  induction l generalizing w R with
  | nil =>
    simp only [List.not_mem_nil,if_false]
    exact ⟨w,rfl,h⟩
  | cons p l ih =>
    obtain ⟨hnot,hnd⟩ := List.nodup_cons.mp hl
    simp only [List.foldlM_cons]
    refine (broadcastTo_refines h (hsub p (by simp)) sender msg).bind ?_
    intro w₁ h₁
    obtain ⟨w₂,hw₂,h₂⟩ := ih h₁ hnd (fun q hq => hsub q (by simp [hq]))
    refine ⟨w₂,hw₂,?_⟩
    have hroom : { R with view := fun q => (if q ∈ p :: l then
            (R.view q).offer q (R.broadcasts.length-1) (decide (some q = sender)) msg
          else R.view q) } =
        { R with view := fun q => (if q ∈ l then
            ((R.set p ((R.view p).offer p (R.broadcasts.length-1) (decide (some p = sender))
              msg)).view q).offer q (R.broadcasts.length-1) (decide (some q = sender)) msg
          else (R.set p ((R.view p).offer p (R.broadcasts.length-1) (decide (some p = sender))
              msg)).view q) } := by
      congr 1
      funext q
      by_cases hqp : q = p
      · subst hqp
        simp [hnot]
      · simp [hqp,Room.view_set_of_ne]
    rw [hroom]
    exact h₂

theorem broadcast_refines (h : Refines w R) (hfree : R.mutex = false)
    (sender : Option Nat) (msg : Bytes) :
    Returns (broadcast w sender msg) (R.broadcast sender msg,0) := by
  obtain ⟨A,h⟩ := h
  have hlock : w.lock = .ok { w with clientMutex := true } := by
    simp [World.lock,h.mutex,hfree]
  unfold broadcast
  simp only [hlock,ok_bind]
  have hstart : Refines { w with clientMutex := true,
                                 broadcasts := w.broadcasts ++ [Broadcast.mk sender msg] }
      { R with mutex := true, broadcasts := R.broadcasts ++ [Broadcast.mk sender msg] } :=
    ⟨A,{ h with mutex := rfl, broadcasts := by rw [h.broadcasts] }⟩
  have hloop := broadcastLoop_refines sender msg R.members hstart h.nodup (fun p hp => hp)
  obtain ⟨w',hw',B,h'⟩ := hloop
  rw [← h.members] at hw'
  simp only [hw',ok_bind]
  have hend := h'.unlock
  have hroom : { R with mutex := false, broadcasts := R.broadcasts ++ [Broadcast.mk sender msg],
                        view := (R.broadcast sender msg).view } = R.broadcast sender msg := by
    unfold Room.broadcast
    rw [hfree]
  rw [← hroom]
  refine ⟨w'.unlock,rfl,B,?_⟩
  simpa [Room.broadcast] using hend

end Broadcasting

section Direct
variable {w : World} {R : Room} {p : Nat}

theorem noteDirect_refines (h : Refines w R) (hp : p ∈ R.members) (msgType : UInt8)
    (msg : Bytes) :
    Yields (noteDirect w p msgType msg) (R.set p ((R.view p).note (.direct ⟨msgType,msg,
      (R.view p).headOffset,(R.view p).info.closed,(R.view p).sock.oracle.sends⟩))) := by
  have href := h
  obtain ⟨A,h⟩ := h
  obtain ⟨q,hc,hk,hq,-⟩ := h.access hp
  have hk' : w.sock ((R.view p).info.withQueue q).clientFd = .ok (R.view p).sock := hk
  unfold noteDirect View.headOffset
  simp only [hc,hk',ok_bind]
  cases hqueue : (R.view p).queue with
  | nil =>
    have hhead : ((R.view p).info.withQueue q).msgQueue.head = none := hq.head_none.mpr hqueue
    simp only [hhead,pure_bind]
    exact note_refines href hp _
  | cons x xs =>
    rw [hqueue] at hq
    obtain ⟨a,as,m,-,hs,hm,hx,-⟩ := hq.cons_inv
    have hhead : ((R.view p).info.withQueue q).msgQueue.head = some a := hs
    simp only [hhead,World.packet_eq_ok hm,ok_bind,hx.2.1,pure_bind]
    exact note_refines href hp _

theorem writeFrame_registration (k : Sock) (msgType : UInt8) (msg : Bytes) :
    (k.writeFrame msgType msg).1.registration = k.registration := by
  unfold Sock.writeFrame Sock.writeAll
  simp only
  split
  · simp
  · split <;> simp

theorem sendTo_refines (h : Refines w R) (hp : p ∈ R.members) (msgType : UInt8)
    (msg : Bytes) :
    Returns (sendTo (writeFrame msgType) msgType w p msg) (R.sendTo msgType p msg) := by
  obtain ⟨A,h'⟩ := h
  obtain ⟨q,hc,-,-,-⟩ := h'.access hp
  unfold sendTo
  simp only [hc,ok_bind]
  refine (noteDirect_refines ⟨A,h'⟩ hp msgType msg).bind_returns ?_
  rintro w₁ ⟨B,h₁⟩
  obtain ⟨q₁,-,hk₁,-,hreg⟩ := h₁.access hp
  simp only [Room.view_set_self] at hk₁ hreg
  have hfd : ((R.view p).info.withQueue q).clientFd = (R.view p).info.clientFd := rfl
  unfold writeFrame
  simp only [hfd]
  have hput := h₁.putSock hp (k := (((R.view p).note (.direct ⟨msgType,msg,
    (R.view p).headOffset,(R.view p).info.closed,(R.view p).sock.oracle.sends⟩)).sock.writeFrame
      msgType msg).1) (by rw [writeFrame_registration]; exact hreg)
  simp only [Room.view_set_self,Room.set_set] at hput
  have hk₂ : w₁.sock (R.view p).info.clientFd = .ok ((R.view p).note (.direct ⟨msgType,msg,
    (R.view p).headOffset,(R.view p).info.closed,(R.view p).sock.oracle.sends⟩)).sock := hk₁
  simp only [hk₂,ok_bind]
  exact ⟨_,rfl,B,hput⟩

end Direct
end ChatServer
