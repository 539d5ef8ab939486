import ChatServer.Refinement

/-! The queue operations on linked lists, and the refinement of
`client_try_write`, `broadcast` and the direct senders. -/
set_option autoImplicit false

namespace ChatServer
open ByteString Memory Execution

@[simp] theorem pendingBytes_nil : pendingBytes [] = 0 := rfl

@[simp] theorem pendingBytes_cons (x : Pkt) (xs : List Pkt) :
    pendingBytes (x :: xs) = x.unsent.length+pendingBytes xs := by
  simp [pendingBytes]

@[simp] theorem pendingBytes_append (xs ys : List Pkt) :
    pendingBytes (xs ++ ys) = pendingBytes xs+pendingBytes ys := by
  simp [pendingBytes]

theorem Pkt.unsent_pos (x : Pkt) : 0 < x.unsent.length := List.length_pos_iff.mpr x.pending

theorem length_le_pendingBytes (xs : List Pkt) : xs.length ≤ pendingBytes xs := by
  induction xs with
  | nil => simp
  | cons x xs ih =>
    have hx := x.unsent_pos
    simp only [List.length_cons,pendingBytes_cons]
    omega

theorem PktRep.unsent {m : MsgPacket} {x : Pkt} (h : PktRep m x) :
    (m.packetData.drop m.offset).take (sizeSub m.len m.offset) = x.unsent := by
  obtain ⟨hdata,hoff,hlen,hle⟩ := h
  have hd : x.data.length = x.sent.length+x.unsent.length := by simp [Pkt.data]
  have hsub : sizeSub m.len m.offset = x.unsent.length := by
    rw [sizeSub_of_le (by omega)]
    omega
  rw [hsub,hdata,hoff,Pkt.data,List.drop_left,List.take_of_length_le (Nat.le_refl _)]

theorem PktRep.advance {m : MsgPacket} {x : Pkt} (h : PktRep m x) {n : Nat}
    (hn : n < x.unsent.length) :
    PktRep { m with offset := m.offset+n } (x.advance n hn) := by
  obtain ⟨hdata,hoff,hlen,hle⟩ := h
  have hd : (x.advance n hn).data = x.data := by
    simp [Pkt.data,Pkt.advance]
  refine ⟨?_,?_,?_,hle⟩
  · rw [hd]
    exact hdata
  · simp only [Pkt.advance,List.length_append,List.length_take,hoff]
    omega
  · rw [hd]
    exact hlen

namespace QueueRep
variable {h : Heap MsgPacket} {q : MsgQueue} {a : Nat} {as : List Nat} {x : Pkt}
  {xs : List Pkt}

theorem head_eq (hq : QueueRep h q as xs) : q.head = as.head? := hq.chain.start_eq

theorem head_none (hq : QueueRep h q as xs) : q.head = none ↔ xs = [] := by
  rw [hq.head_eq,List.head?_eq_none_iff,← List.length_eq_zero_iff,hq.chain.length_eq,
    List.length_eq_zero_iff]

theorem head_new {h' : Heap MsgPacket} {q' : MsgQueue} {ys : List Pkt} {a : Nat}
    (hold : QueueRep h q as xs) (hnew : QueueRep h' q' (as ++ [a]) ys) (hfresh : a ∉ as) :
    q'.head = some a ↔ xs = [] := by
  rw [hnew.head_eq,← List.length_eq_zero_iff,← hold.chain.length_eq,List.length_eq_zero_iff]
  cases as with
  | nil => simp
  | cons b bs =>
    have hba : b ≠ a := fun he => hfresh (by simp [he])
    simp [hba]

theorem cons_inv (hq : QueueRep h q as (x :: xs)) :
    ∃ a as' m, as = a :: as' ∧ q.head = some a ∧ h.get a = some m ∧ PktRep m x ∧
      Chain MsgPacket.next PktRep h m.next as' xs := by
  have hc := hq.chain
  cases as with
  | nil => exact hc.elim
  | cons a as' =>
    obtain ⟨hs,m,hm,hx,hrest⟩ := hc
    exact ⟨a,as',m,rfl,hs,hm,hx,hrest⟩

theorem advance {m : MsgPacket} (hq : QueueRep h q (a :: as) (x :: xs))
    (hm : h.get a = some m) {n : Nat} (hn : n < x.unsent.length) :
    QueueRep (h.set a { m with offset := m.offset+n })
      { q with queuedBytes := sizeSub q.queuedBytes n } (a :: as) (x.advance n hn :: xs) := by
  obtain ⟨hs,c,hc,hx,hrest⟩ := hq.chain
  have hcm : c = m := Option.some.inj (hc.symm.trans hm)
  subst hcm
  have hlim := hq.limit
  have hbytes := hq.bytes
  have hpend : pendingBytes (x.advance n hn :: xs) = pendingBytes (x :: xs)-n := by
    simp only [pendingBytes_cons,Pkt.advance,List.length_drop]
    omega
  have hnot : a ∉ as := (List.nodup_cons.mp hq.nodup).1
  refine ⟨⟨hs,_,Heap.get_set_self _ _ _,hx.advance hn,hrest.frame ?_⟩,hq.nodup,hq.tail,
    hq.count,?_,?_⟩
  · intro b hb
    exact Heap.get_set_of_ne _ _ (fun he => hnot (he ▸ hb))
  · rw [hpend,← hbytes]
    apply sizeSub_of_le
    rw [hbytes,pendingBytes_cons]
    omega
  · rw [hpend]
    omega

theorem pop {m : MsgPacket} (hq : QueueRep h q (a :: as) (x :: xs))
    (hm : h.get a = some m) :
    QueueRep (h.free a)
      { q with head := m.next, tail := if m.next = none then none else q.tail,
               queuedBytes := sizeSub q.queuedBytes x.unsent.length,
               queuedCount := sizeSub q.queuedCount 1 } as xs := by
  obtain ⟨hs,c,hc,hx,hrest⟩ := hq.chain
  have hcm : c = m := Option.some.inj (hc.symm.trans hm)
  subst hcm
  have hlim := hq.limit
  have hbytes := hq.bytes
  have hcount := hq.count
  have hle := length_le_pendingBytes (x :: xs)
  have hlen := hq.chain.length_eq
  simp only [List.length_cons,pendingBytes_cons,msgSizeLimit] at hlim hbytes hcount hle hlen
  have hnd := List.nodup_cons.mp hq.nodup
  refine ⟨hrest.frame ?_,hnd.2,?_,?_,?_,?_⟩
  · intro b hb
    exact Heap.get_free_of_ne _ (fun he => hnd.1 (he ▸ hb))
  · have hnext := hrest.start_eq
    rw [hnext]
    cases as with
    | nil => rfl
    | cons b bs => simpa using hq.tail
  · change sizeSub q.queuedCount 1 = as.length
    rw [hcount,sizeSub_of_le (by omega)]
    omega
  · change sizeSub q.queuedBytes x.unsent.length = pendingBytes xs
    rw [hbytes,sizeSub_of_le (by omega)]
    omega
  · simp only [msgSizeLimit]
    omega

/-- What `client_enqueue_msg_packet` writes: the old tail's link, if there is an
old tail, and the queue fields. -/
theorem push {m : MsgPacket} (hq : QueueRep h q as xs) (ha : h.get a = some m)
    (hnot : a ∉ as) (hnext : m.next = none) (hx : PktRep m x)
    (hlim : pendingBytes (xs ++ [x]) ≤ msgSizeLimit) (hlen : m.len = x.unsent.length) :
    ∃ h' q', (match q.tail with
        | some t => ∃ last, h.get t = some last ∧ h' = h.set t { last with next := some a } ∧
            q' = { q with tail := some a }
        | none => h' = h ∧ q' = { q with head := some a, tail := some a }) ∧
      QueueRep h' { q' with queuedBytes := q'.queuedBytes+m.len,
                            queuedCount := q'.queuedCount+1 } (as ++ [a]) (xs ++ [x]) := by
  have hnd : (as ++ [a]).Nodup := by
    rw [List.nodup_append]
    refine ⟨hq.nodup,by simp,?_⟩
    intro b hb c hc he
    simp only [List.mem_singleton] at hc
    exact hnot (hc ▸ he ▸ hb)
  have hcount := hq.count
  have hbytes := hq.bytes
  rcases List.eq_nil_or_concat as with hnil | ⟨bs,t,hbs⟩
  · subst hnil
    have hxs : xs = [] := List.length_eq_zero_iff.mp hq.chain.length_eq.symm
    subst hxs
    have htail : q.tail = none := hq.tail
    refine ⟨h,{ q with head := some a, tail := some a },?_,?_⟩
    · rw [htail]
      exact ⟨rfl,rfl⟩
    · refine ⟨⟨rfl,m,ha,hx,hnext⟩,hnd,rfl,?_,?_,hlim⟩
      · simp [hcount]
      · simp [hbytes,hlen]
  · have hbs : as = bs ++ [t] := by simpa using hbs
    subst hbs
    have htail : q.tail = some t := by rw [hq.tail]; simp
    have hl : (bs ++ [t]).getLast? = some t := by simp
    obtain ⟨last,hlast,hlastNext⟩ := hq.chain.last_next hl
    have hta : a ≠ t := fun he => hnot (by simp [he])
    refine ⟨h.set t { last with next := some a },{ q with tail := some a },?_,?_⟩
    · rw [htail]
      exact ⟨last,hlast,rfl,rfl⟩
    · refine ⟨?_,hnd,by simp,?_,?_,hlim⟩
      · apply hq.chain.snoc
        · intro b hb
          apply Heap.get_set_of_ne
          intro he
          subst he
          have hdis := (List.nodup_append.mp hq.nodup).2.2 b hb b (by simp)
          exact hdis rfl
        · intro c hc
          have hcl : c = last := Option.some.inj (hc.symm.trans hlast)
          subst hcl
          exact ⟨_,Heap.get_set_self _ _ _,rfl,fun y hy => hy⟩
        · rw [Heap.get_set_of_ne _ _ hta,ha]
        · exact hnext
        · exact hx
      · simp [hcount]
      · simp [hbytes,hlen]

end QueueRep

@[simp] theorem Sock.note_registration (k : Sock) (o : Obs) :
    (k.note o).registration = k.registration := rfl

@[simp] theorem Sock.withSends_registration (k : Sock) (sends : List SendRes) :
    (k.withSends sends).registration = k.registration := rfl

@[simp] theorem Sock.withSends_sends (k : Sock) (sends : List SendRes) :
    (k.withSends sends).oracle.sends = sends := rfl

@[simp] theorem Sock.accept_oracle (k : Sock) (path : Path) (bs : Bytes) :
    (k.accept path bs).oracle = k.oracle := by
  unfold Sock.accept
  split <;> rfl

@[simp] theorem Sock.accept_registration (k : Sock) (path : Path) (bs : Bytes) :
    (k.accept path bs).registration = k.registration := by
  unfold Sock.accept
  split <;> rfl

theorem Sock.epollCtlMod_ptr {k : Sock} {p : Nat} (mask : EpollMask)
    (h : k.registration.map (fun r => r.ptr) = some p) :
    (k.epollCtlMod mask p).1.registration.map (fun r => r.ptr) = some p := by
  unfold Sock.epollCtlMod
  simp only
  split
  · rfl
  · exact h

section Writers
variable {w : World} {R : Room} {p : Nat}

theorem setEpollout_refines (h : Refines w R) (hp : p ∈ R.members) (on : Bool) :
    Yields (setEpollout on w p) (R.set p ((R.view p).setEpollout on p)) := by
  obtain ⟨A,h⟩ := h
  obtain ⟨q,hc,hk,hq,hreg⟩ := h.access hp
  unfold setEpollout View.setEpollout
  simp only [hc,ok_bind]
  by_cases he : (R.view p).info.epolloutEnabled = on
  · have he' : ((R.view p).info.withQueue q).epolloutEnabled = on := he
    rw [if_pos he,if_pos he',Room.set_view]
    exact ⟨w,rfl,A,h⟩
  · have he' : ¬ ((R.view p).info.withQueue q).epolloutEnabled = on := he
    rw [if_neg he,if_neg he']
    have hk' : w.sock ((R.view p).info.withQueue q).clientFd = .ok (R.view p).sock := hk
    simp only [hk',ok_bind]
    have hreg' := Sock.epollCtlMod_ptr ⟨true,on,false⟩ hreg
    rcases hm : (R.view p).sock.epollCtlMod ⟨true,on,false⟩ p with ⟨k,ok⟩
    rw [hm] at hreg'
    cases ok with
    | true =>
      exact ⟨_,rfl,A,h.put hp (i := { (R.view p).info with epolloutEnabled := on }) hq rfl hreg'⟩
    | false => exact ⟨_,rfl,A,h.put hp hq rfl hreg'⟩

theorem note_refines (h : Refines w R) (hp : p ∈ R.members) (o : Obs) :
    Yields (w.note p o) (R.set p ((R.view p).note o)) := by
  obtain ⟨A,h⟩ := h
  obtain ⟨q,hc,hk,hq,hreg⟩ := h.access hp
  have hk' : w.sock ((R.view p).info.withQueue q).clientFd = .ok (R.view p).sock := hk
  unfold World.note
  simp only [hc,hk',ok_bind]
  exact ⟨_,rfl,A,h.putSock hp hreg⟩

theorem markClosed_refines (h : Refines w R) (hp : p ∈ R.members) :
    Yields (markClosed w p) (R.set p (R.view p).markClosed) := by
  obtain ⟨A,h⟩ := h
  obtain ⟨q,hc,hk,hq,hreg⟩ := h.access hp
  unfold markClosed
  simp only [hc,ok_bind]
  have h' := h.putClient hp (i := { (R.view p).info with closed := true }) hq rfl
  have hn := note_refines ⟨A,h'⟩ hp .markedClosed
  simp only [Room.view_set_self,Room.set_set] at hn
  exact hn

/-- The linked-list loop does to the heap what the list loop does to the view,
and never runs out of fuel. -/
theorem clientTryWriteLoop_refines (fuel : Nat) (h : Refines w R) (hp : p ∈ R.members)
    (hfuel : (R.view p).sock.oracle.sends.length < fuel) :
    Returns (clientTryWriteLoop fuel w p)
      (R.set p ((R.view p).tryWriteLoop p (R.view p).sock.oracle.sends).1,
        ((R.view p).tryWriteLoop p (R.view p).sock.oracle.sends).2) := by
  induction fuel generalizing w R with
  | zero => omega
  | succ fuel ih =>
    have href := h
    obtain ⟨A,h⟩ := h
    obtain ⟨q,hc,hk,hq,hreg⟩ := h.access hp
    have hk' : w.sock ((R.view p).info.withQueue q).clientFd = .ok (R.view p).sock := hk
    unfold clientTryWriteLoop View.tryWriteLoop
    simp only [hc,ok_bind]
    cases hqueue : (R.view p).queue with
    | nil =>
      have hhead : ((R.view p).info.withQueue q).msgQueue.head = none :=
        hq.head_none.mpr hqueue
      simp only [hhead]
      exact (setEpollout_refines href hp false).bind_returns (fun w' hw' => ⟨w',rfl,hw'⟩)
    | cons x xs =>
      rw [hqueue] at hq
      obtain ⟨a,as,m,has,hs,hm,hx,hrest⟩ := hq.cons_inv
      have hhead : ((R.view p).info.withQueue q).msgQueue.head = some a := hs
      simp only [hhead,World.packet_eq_ok hm,hk',ok_bind,hx.unsent]
      have hnot : a ∉ as := by
        have hnd := hq.nodup
        rw [has] at hnd
        exact (List.nodup_cons.mp hnd).1
      have hown : ∀ b, b ∉ A p → b ≠ a := fun b hb he => hb (by simp [he,has])
      rw [has] at hq
      cases hsends : (R.view p).sock.oracle.sends with
      | nil =>
        simp only [Sock.send,hsends]
        have hput := h.put hp (hqueue ▸ has ▸ hq) rfl hreg
        exact ⟨_,rfl,A,hput⟩
      | cons r rest =>
        have hrest' : rest.length < fuel := by
          rw [hsends] at hfuel
          simpa using hfuel
        cases r with
        | accepts n =>
          have hreg' : (((R.view p).sock.withSends rest).accept .queued
              (x.unsent.take n)).registration.map (fun r => r.ptr) = some p := by
            simpa using hreg
          by_cases hn : n = 0
          · subst hn
            simp only [Sock.send,hsends,Nat.zero_min,if_true]
            have hput := h.put hp (i := (R.view p).info) (has ▸ hqueue ▸ hq) rfl
              (k := (((R.view p).sock.withSends rest).accept .queued (x.unsent.take 0)).note
                .writeFailed) hreg'
            rw [hqueue] at hput
            exact ⟨_,rfl,A,hput⟩
          · obtain ⟨j,hj⟩ : ∃ j, min n x.unsent.length = j+1 :=
              Nat.exists_eq_succ_of_ne_zero (by have hpos := x.unsent_pos; omega)
            obtain ⟨hdata,hoff,hlen,-⟩ := hx
            have hsum : x.data.length = x.sent.length+x.unsent.length := by simp [Pkt.data]
            simp only [Sock.send,hsends,hj,if_neg hn]
            by_cases hlt : n < x.unsent.length
            · have hne : ¬ m.offset+(j+1) = m.len := by omega
              have hjn : j+1 = n := by omega
              rw [if_neg hne,dif_pos hlt,hjn]
              have hst := h.store hp (hq.advance hm hlt) (i := (R.view p).info) rfl hreg'
                (fun b c hb hc => by rw [Heap.get_set_of_ne _ _ (hown b hb),hc])
                (fun b hb => .inl (by rw [has]; exact hb))
              have hloop := ih hst hp (by simpa using hrest')
              simp only [Room.view_set_self,Room.set_set,Sock.accept_oracle,
                Sock.withSends_sends,hs] at hloop
              exact hloop
            · have heq : m.offset+(j+1) = m.len := by omega
              have hjn : j+1 = x.unsent.length := by omega
              rw [if_pos heq,dif_neg hlt,hjn]
              have hst := h.store hp (hq.pop hm) (i := (R.view p).info) rfl hreg'
                (fun b c hb hc => by rw [Heap.get_free_of_ne _ (hown b hb),hc])
                (fun b hb => .inl (by rw [has]; exact List.mem_cons_of_mem a hb))
              have hloop := ih hst hp (by simpa using hrest')
              simp only [Room.view_set_self,Room.set_set,Sock.accept_oracle,
                Sock.withSends_sends] at hloop
              exact hloop
        | wouldBlock =>
          simp only [Sock.send,hsends]
          exact ⟨_,rfl,A,hqueue ▸ h.put hp (has ▸ hqueue ▸ hq) rfl hreg⟩
        | interrupted =>
          simp only [Sock.send,hsends]
          have hput := h.put hp (k := (R.view p).sock.withSends rest)
            (has ▸ hqueue ▸ hq) (i := (R.view p).info) rfl hreg
          have hloop := ih ⟨A,hput⟩ hp (by simpa using hrest')
          simpa [hqueue] using hloop
        | fails =>
          simp only [Sock.send,hsends]
          exact ⟨_,rfl,A,hqueue ▸ h.put hp (has ▸ hqueue ▸ hq) rfl hreg⟩

theorem clientTryWrite_refines (h : Refines w R) (hp : p ∈ R.members) :
    Returns (clientTryWrite w p)
      (R.set p ((R.view p).tryWrite p).1,((R.view p).tryWrite p).2) := by
  have href := h
  obtain ⟨A,h⟩ := h
  obtain ⟨q,hc,hk,-,-⟩ := h.access hp
  have hk' : w.sock ((R.view p).info.withQueue q).clientFd = .ok (R.view p).sock := hk
  unfold clientTryWrite
  simp only [hc,hk',ok_bind]
  exact clientTryWriteLoop_refines _ href hp (Nat.lt_succ_self _)

theorem createPacket_refines {A : Nat → List Nat} (h : Represents w R A) (hp : p ∈ R.members)
    (header : MsgHeader) (msg : Bytes) :
    ∃ w' r, createPacket w p header msg = .ok (w',r) ∧
      Represents w' (R.set p (R.view p).dropAlloc) A ∧
      r.isSome = (R.view p).nextAlloc ∧
      ∀ a, r = some a → (∀ q ∈ R.members, a ∉ A q) ∧ w'.packets.get a =
        some ⟨none,header.bytes ++ msg,headerSize+msg.length,0⟩ := by
  obtain ⟨q,hc,hk,hq,hreg⟩ := h.access hp
  have hk' : w.sock ((R.view p).info.withQueue q).clientFd = .ok (R.view p).sock := hk
  unfold createPacket View.nextAlloc
  simp only [hc,hk',ok_bind]
  have hput := h.putSock hp (k := (R.view p).dropAlloc.sock) hreg
  cases hd : ((R.view p).sock.oracle.packets.headD ⟨true,some 0⟩).data with
  | false => exact ⟨_,none,rfl,hput,by simp,by simp⟩
  | true =>
    cases hn : ((R.view p).sock.oracle.packets.headD ⟨true,some 0⟩).node with
    | none => exact ⟨_,none,rfl,hput,by simp,by simp⟩
    | some hint =>
      have hfresh : ∀ r ∈ R.members, w.packets.fresh hint ∉ A r := by
        intro r hr hmem
        obtain ⟨m,hm⟩ := h.live_cell hr hmem
        exact Heap.fresh_ne _ hint hm rfl
      refine ⟨_,some (w.packets.fresh hint),rfl,?_,by simp,?_⟩
      · apply hput.packets_changed
        intro r hr a ha
        exact Heap.get_set_of_ne _ _ (fun he => hfresh r hr (he ▸ ha))
      · intro a ha
        cases ha
        exact ⟨hfresh,Heap.get_set_self _ _ _⟩

theorem enqueue_rejected {A : Nat → List Nat} (h : Represents w R A) (hp : p ∈ R.members)
    {a : Nat} {m : MsgPacket} (ha : w.packets.get a = some m)
    (hlim : msgSizeLimit < pendingBytes (R.view p).queue+m.len) :
    clientEnqueueMsgPacket w p (some a) msgSizeLimit = .ok (w,-1) := by
  obtain ⟨q,hc,-,hq,-⟩ := h.access hp
  have hbytes : ((R.view p).info.withQueue q).msgQueue.queuedBytes =
      pendingBytes (R.view p).queue := hq.bytes
  unfold clientEnqueueMsgPacket
  simp only [hc,World.packet_eq_ok ha,ok_bind,hbytes]
  rw [if_pos hlim]
  rfl

theorem enqueue_refines {A : Nat → List Nat} (h : Represents w R A) (hp : p ∈ R.members)
    {a : Nat} {msg : Bytes} (hfresh : ∀ q ∈ R.members, a ∉ A q)
    (ha : w.packets.get a =
      some ⟨none,frame msgTypeNormal msg,headerSize+msg.length,0⟩)
    (hclosed : (R.view p).info.closed = false)
    (hlim : pendingBytes (R.view p).queue+(headerSize+msg.length) ≤ msgSizeLimit) :
    ∃ w' A', clientEnqueueMsgPacket w p (some a) msgSizeLimit = .ok (w',0) ∧
      Represents w' (R.set p ((R.view p).enqueue (R.broadcasts.length-1) msg)) A' ∧
      A' p = A p ++ [a] := by
  obtain ⟨q,hc,hk,hq,hreg⟩ := h.access hp
  have hnew : PktRep ⟨none,frame msgTypeNormal msg,headerSize+msg.length,0⟩
      ⟨[],frame msgTypeNormal msg,frame_ne_nil _ _⟩ := by
    refine ⟨rfl,rfl,?_,?_⟩
    · simp [Pkt.data,frame_length]
    · simp only
      omega
  obtain ⟨g,q',hlink,hpush⟩ := hq.push ha (hfresh p hp) rfl hnew
    (by simp [frame_length]; omega) (by simp [frame_length])
  have hkept : ∀ b m, b ∉ A p → w.packets.get b = some m → g.get b = some m := by
    intro b m hb hm
    cases htail : q.tail with
    | none =>
      rw [htail] at hlink
      rw [hlink.1,hm]
    | some t =>
      rw [htail] at hlink
      obtain ⟨last,-,rfl,-⟩ := hlink
      have hbt : b ≠ t := by
        intro he
        have hmem : t ∈ A p := List.mem_of_getLast? (hq.tail ▸ htail)
        exact hb (he ▸ hmem)
      rw [Heap.get_set_of_ne _ _ hbt,hm]
  have hown : Owns ({ w with packets := g }.put p ((R.view p).info.withQueue
      { q' with queuedBytes := q'.queuedBytes+(headerSize+msg.length),
                queuedCount := q'.queuedCount+1 }) (((R.view p).enqueue
        (R.broadcasts.length-1) msg).sock)) p (A p ++ [a])
      ((R.view p).enqueue (R.broadcasts.length-1) msg) :=
    ⟨_,Heap.get_set_self _ _ _,Heap.get_set_self _ _ _,hpush,hreg⟩
  have h' := h.update hp hown rfl (fun r hr => Heap.get_set_of_ne _ _ hr)
    (fun fd hne => Heap.get_set_of_ne _ _ hne) hkept
    (fun b hb => by
      rcases List.mem_append.mp hb with hb | hb
      · exact .inl hb
      · exact .inr (by rw [List.mem_singleton.mp hb]; exact hfresh)) ⟨rfl,rfl,rfl,rfl,rfl,rfl⟩
  refine ⟨_,_,?_,h',by simp⟩
  have hbytes : ((R.view p).info.withQueue q).msgQueue.queuedBytes =
      pendingBytes (R.view p).queue := hq.bytes
  have hroom : ¬ ((R.view p).info.withQueue q).msgQueue.queuedBytes+(headerSize+msg.length) >
      msgSizeLimit := by omega
  have hopen : ¬ ((R.view p).info.withQueue q).closed = true := by
    change ¬ (R.view p).info.closed = true
    simp [hclosed]
  have hk' : w.sock ((R.view p).info.withQueue q).clientFd = .ok (R.view p).sock := hk
  unfold clientEnqueueMsgPacket
  simp only [hc,World.packet_eq_ok ha,ok_bind]
  rw [if_neg hroom,if_neg hopen]
  cases htail : q.tail with
  | none =>
    rw [htail] at hlink
    obtain ⟨rfl,rfl⟩ := hlink
    have htail' : ((R.view p).info.withQueue q).msgQueue.tail = none := htail
    simp only [htail',pure_eq_ok,ok_bind]
    rw [World.note_putClient (k := (R.view p).sock)]
    · rw [← h.broadcasts]
      rfl
    · exact hk'
  | some t =>
    rw [htail] at hlink
    obtain ⟨last,hlast,rfl,rfl⟩ := hlink
    have htail' : ((R.view p).info.withQueue q).msgQueue.tail = some t := htail
    simp only [htail',pure_eq_ok,ok_bind,World.packet_eq_ok hlast]
    rw [World.note_putClient (k := (R.view p).sock)]
    · rw [← h.broadcasts]
      rfl
    · exact hk'

end Writers
end ChatServer
