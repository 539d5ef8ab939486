import Mathlib.Logic.Relation
import ChatServer.Idle
import ChatServer.Progress

/-! Serving the clients that are there, in the few changes it is made of. What these
changes keep, every function does that neither accepts nor removes a client. -/
set_option autoImplicit false

namespace ChatServer
open ByteString Memory Execution Relation

structure Draws (k k' : Sock) : Prop where
  closeOk : k'.oracle.closeOk = k.oracle.closeOk
  spends : Spends k k'

namespace Draws
variable {k k' k'' : Sock}

theorem trans (h : Draws k k') (h' : Draws k' k'') : Draws k k'' :=
  ⟨h'.closeOk.trans h.closeOk,h.spends.trans h'.spends⟩

theorem of_log {l : List Obs} (hclose : k'.oracle.closeOk = k.oracle.closeOk)
    (hblocks : k'.oracle.blocks = k.oracle.blocks) (ht : k'.trace = k.trace ++ l)
    (hl : .blockFailed ∉ l) : Draws k k' := ⟨hclose,.of_log hblocks ht hl⟩

theorem of_same (hclose : k'.oracle.closeOk = k.oracle.closeOk)
    (hblocks : k'.oracle.blocks = k.oracle.blocks) (ht : k'.trace = k.trace) : Draws k k' :=
  ⟨hclose,.of_same hblocks ht⟩

theorem refl (k : Sock) : Draws k k := .of_same rfl rfl rfl

theorem note (k : Sock) {o : Obs} (ho : o ≠ .blockFailed) : Draws k (k.note o) :=
  ⟨rfl,.note k ho⟩

end Draws

/-- One change of the world. A packet comes into the world with a place in a queue, and
leaves it when it leaves the front of its queue; what is broadcast is from `s`. -/
inductive Move (s : Option Nat) : World → World → Prop
  | record {w : World} {p : Nat} {c c' : ClientInfo} (hc : w.clients.get p = some c)
      (hfd : c'.clientFd = c.clientFd) (hhead : c'.msgQueue.head = c.msgQueue.head)
      (htail : c'.msgQueue.tail = c.msgQueue.tail) : Move s w (w.putClient p c')
  | sock {w : World} {fd : Nat} {k k' : Sock} (hk : w.socks.get fd = some k)
      (hdraws : Draws k k') : Move s w (w.putSock fd k')
  | rest {w w' : World} (hclients : w'.clients = w.clients) (hsocks : w'.socks = w.socks)
      (hlist : w'.clientList = w.clientList) (haccepted : w'.accepted = w.accepted)
      (hcasts : w'.broadcasts = w.broadcasts ∨ ∃ msg, w'.broadcasts = w.broadcasts ++ [⟨s,msg⟩])
      (hpackets : ∀ a, w'.packets.get a = w.packets.get a) : Move s w w'
  | patch {w : World} {a : Nat} {m m' : MsgPacket} (hm : w.packets.get a = some m)
      (hnext : m'.next = m.next) : Move s w (w.putPacket a m')
  | pop {w : World} {p a : Nat} {c c' : ClientInfo} {m : MsgPacket} (hp : p ∈ w.clientList)
      (hc : w.clients.get p = some c) (ha : c.msgQueue.head = some a)
      (hm : w.packets.get a = some m) (hfd : c'.clientFd = c.clientFd)
      (hhead : c'.msgQueue.head = m.next)
      (htail : c'.msgQueue.tail = if m.next = none then none else c.msgQueue.tail) :
      Move s w ((w.freePacket a).putClient p c')
  | first {w : World} {p a : Nat} {c c' : ClientInfo} {m : MsgPacket} (hp : p ∈ w.clientList)
      (hc : w.clients.get p = some c) (ha : w.packets.get a = none) (hm : m.next = none)
      (hempty : c.msgQueue.tail = none) (hfd : c'.clientFd = c.clientFd)
      (hhead : c'.msgQueue.head = some a) (htail : c'.msgQueue.tail = some a) :
      Move s w ((w.putPacket a m).putClient p c')
  | push {w : World} {p a t : Nat} {c c' : ClientInfo} {m last : MsgPacket}
      (hp : p ∈ w.clientList) (hc : w.clients.get p = some c) (ha : w.packets.get a = none)
      (hm : m.next = none)
      (ht : c.msgQueue.tail = some t) (hlast : (w.packets.set a m).get t = some last)
      (hfd : c'.clientFd = c.clientFd) (hhead : c'.msgQueue.head = c.msgQueue.head)
      (htail : c'.msgQueue.tail = some a) :
      Move s w (((w.putPacket a m).putPacket t { last with next := some a }).putClient p c')

abbrev Moves (s : Option Nat) : World → World → Prop := ReflTransGen (Move s)

variable {s : Option Nat}

theorem Move.list {w w' : World} (h : Move s w w') : w'.clientList = w.clientList := by
  cases h with
  | rest _ _ hlist => exact hlist
  | _ => rfl

theorem moves_list {w w' : World} (h : Moves s w w') : w'.clientList = w.clientList := by
  induction h with
  | refl => rfl
  | tail _ hmove ih => exact hmove.list.trans ih

theorem moves_accepted {w w' : World} (h : Moves s w w') : w'.accepted = w.accepted := by
  induction h with
  | refl => rfl
  | tail _ hmove ih =>
    cases hmove with
    | rest _ _ _ haccepted => exact haccepted.trans ih
    | _ => exact ih

theorem moves_broadcasts {w w' : World} (h : Moves s w w') :
    ∃ more, w'.broadcasts = w.broadcasts ++ more ∧ ∀ b ∈ more, b.sender = s := by
  induction h with
  | refl => exact ⟨[],by simp,by simp⟩
  | tail _ hmove ih =>
    obtain ⟨more,hcasts,hfrom⟩ := ih
    cases hmove with
    | rest _ _ _ _ hnew =>
      rcases hnew with hsame | ⟨msg,hone⟩
      · exact ⟨more,hsame.trans hcasts,hfrom⟩
      · refine ⟨more ++ [⟨s,msg⟩],by rw [hone,hcasts,List.append_assoc],?_⟩
        intro b hb
        rcases List.mem_append.mp hb with hb | hb
        · exact hfrom b hb
        · rw [List.mem_singleton.mp hb]
    | _ => exact ⟨more,hcasts,hfrom⟩

theorem put_moves {w : World} {p : Nat} {c c' : ClientInfo} {k k' : Sock}
    (hc : w.clients.get p = some c) (hk : w.socks.get c.clientFd = some k)
    (hfd : c'.clientFd = c.clientFd) (hhead : c'.msgQueue.head = c.msgQueue.head)
    (htail : c'.msgQueue.tail = c.msgQueue.tail)
    (hdraws : Draws k k') : Moves s w (w.put p c' k') := by
  have hstore : Move s w (w.putClient p c') := .record hc hfd hhead htail
  have hsock : Move s (w.putClient p c') ((w.putClient p c').putSock c'.clientFd k') := by
    rw [hfd]
    exact .sock hk hdraws
  exact (ReflTransGen.single hstore).tail hsock

theorem pop_moves {w : World} {p a : Nat} {c c' : ClientInfo} {k k' : Sock} {m : MsgPacket}
    (hp : p ∈ w.clientList) (hc : w.clients.get p = some c) (hk : w.socks.get c.clientFd = some k)
    (ha : c.msgQueue.head = some a) (hm : w.packets.get a = some m)
    (hfd : c'.clientFd = c.clientFd) (hhead : c'.msgQueue.head = m.next)
    (htail : c'.msgQueue.tail = if m.next = none then none else c.msgQueue.tail)
    (hdraws : Draws k k') : Moves s w ((w.freePacket a).put p c' k') := by
  have hpop : Move s w ((w.freePacket a).putClient p c') := .pop hp hc ha hm hfd hhead htail
  have hsock : Move s ((w.freePacket a).putClient p c') ((w.freePacket a).put p c' k') := by
    unfold World.put
    rw [hfd]
    exact .sock hk hdraws
  exact (ReflTransGen.single hpop).tail hsock

theorem patch_moves {w : World} {p a : Nat} {c c' : ClientInfo} {k k' : Sock} {m m' : MsgPacket}
    (hc : w.clients.get p = some c) (hk : w.socks.get c.clientFd = some k)
    (hm : w.packets.get a = some m) (hnext : m'.next = m.next) (hfd : c'.clientFd = c.clientFd)
    (hhead : c'.msgQueue.head = c.msgQueue.head) (htail : c'.msgQueue.tail = c.msgQueue.tail)
    (hdraws : Draws k k') :
    Moves s w ((w.putPacket a m').put p c' k') :=
  (put_moves (w := w.putPacket a m') hc hk hfd hhead htail hdraws).head (.patch hm hnext)

theorem sock_got (w : World) (fd : Nat) :
    Always (w.sock fd) (fun k => w.socks.get fd = some k) := by
  unfold World.sock
  cases w.socks.get fd with
  | none => exact True.intro
  | some k => rfl

theorem packet_got (w : World) (a : Nat) :
    Always (w.packet a) (fun m => w.packets.get a = some m) := by
  unfold World.packet
  cases w.packets.get a with
  | none => exact True.intro
  | some m => rfl

theorem Sock.accept_draws (k : Sock) (sends : List SendRes) (path : Path) (bs : Bytes) :
    Draws k ((k.withSends sends).accept path bs) := by
  unfold Sock.accept
  split
  · exact .of_same rfl rfl rfl
  · exact .of_log (l := [.sent path bs]) rfl rfl rfl (by simp)

theorem Sock.send_draws (k : Sock) (bs : Bytes) : Draws k (k.send bs).1 := by
  unfold Sock.send
  split
  · exact .refl k
  · exact k.accept_draws _ _ _
  · exact .of_same rfl rfl rfl
  · exact .of_same rfl rfl rfl
  · exact .of_same rfl rfl rfl

theorem Sock.writeFrame_draws (k : Sock) (msgType : UInt8) (msg : Bytes) :
    Draws k (k.writeFrame msgType msg).1 := by
  have hwrite : ∀ (k : Sock) (bs : Bytes), Draws k (k.writeAll bs).1 :=
    fun k bs => k.accept_draws _ _ _
  unfold Sock.writeFrame
  simp only
  split
  · exact hwrite _ _
  · split <;> exact (hwrite _ _).trans (hwrite _ _)

section Writing
variable (w : World) (p : Nat)

theorem note_moves {o : Obs} (ho : o ≠ .blockFailed) : Always (w.note p o) (Moves s w) := by
  unfold World.note
  refine (Always.trivial _).bind (fun c _ => ?_)
  refine (sock_got w c.clientFd).bind (fun k hk => ?_)
  exact ReflTransGen.single (.sock hk (.note k ho))

theorem markClosed_moves : Always (markClosed w p) (Moves s w) := by
  unfold markClosed
  refine (client_got w p).bind (fun c hc => ?_)
  refine (note_moves (s := s) _ p (by simp)).mono (fun w₁ h₁ => h₁.head ?_)
  exact .record hc rfl rfl rfl

theorem setEpollout_moves (on : Bool) : Always (setEpollout on w p) (Moves s w) := by
  unfold setEpollout
  refine (client_got w p).bind (fun c hc => ?_)
  split
  · exact ReflTransGen.refl
  · refine (sock_got w c.clientFd).bind (fun k hk => ?_)
    have hdraws : Draws k (k.epollCtlMod ⟨true,on,false⟩ p).1 := by
      unfold Sock.epollCtlMod
      simp only
      split <;> exact .of_log (l := [.epollMod on _]) rfl rfl rfl (by simp)
    simp only
    split
    · exact put_moves hc hk rfl rfl rfl hdraws
    · exact put_moves hc hk rfl rfl rfl hdraws

theorem clientTryWriteLoop_moves (fuel : Nat) (w : World) (hp : p ∈ w.clientList) :
    Always (clientTryWriteLoop fuel w p) (fun res => Moves s w res.1) := by
  induction fuel generalizing w with
  | zero => exact True.intro
  | succ fuel ih =>
    have hloop : ∀ u, Moves s w u → Always (clientTryWriteLoop fuel u p)
        (fun res => Moves s w res.1) := by
      intro u hu
      refine (ih u ?_).mono (fun res hres => hu.trans hres)
      rw [moves_list hu]
      exact hp
    unfold clientTryWriteLoop
    refine (client_got w p).bind (fun c hc => ?_)
    cases hhead : c.msgQueue.head with
    | none =>
      simp only
      exact (setEpollout_moves (s := s) w p false).bind (fun w₁ h₁ => h₁)
    | some a =>
      simp only
      refine (packet_got w a).bind (fun m hm => ?_)
      refine (sock_got w c.clientFd).bind (fun k hk => ?_)
      have hdraws := k.send_draws ((m.packetData.drop m.offset).take (sizeSub m.len m.offset))
      have hfailed := hdraws.trans (.note _ (show Obs.writeFailed ≠ .blockFailed by simp))
      have hsame : ∀ k' : Sock, Draws k k' → Moves s w (w.put p c k') :=
        fun k' hk' => put_moves hc hk rfl rfl rfl hk'
      split
      · exact hsame _ hfailed
      · split
        · exact hloop _ (pop_moves hp hc hk hhead hm rfl rfl rfl hdraws)
        · exact hloop _ (patch_moves hc hk hm rfl rfl rfl rfl hdraws)
      · exact hsame _ hdraws
      · exact hloop _ (hsame _ hdraws)
      · exact hsame _ hfailed

theorem clientTryWrite_moves (hp : p ∈ w.clientList) :
    Always (clientTryWrite w p) (fun res => Moves s w res.1) := by
  unfold clientTryWrite
  refine (Always.trivial _).bind (fun c _ => ?_)
  refine (Always.trivial _).bind (fun k _ => ?_)
  exact clientTryWriteLoop_moves p _ w hp

theorem noteOffer_moves (sender : Option Nat) (len : Nat) :
    Always (noteOffer w p sender len) (Moves s w) := by
  unfold noteOffer
  refine (Always.trivial _).bind (fun c _ => ?_)
  refine (Always.trivial _).bind (fun k _ => ?_)
  exact note_moves w p (by simp)

theorem createPacket_makes (header : MsgHeader) (payload : Bytes) :
    Always (createPacket w p header payload) (fun res => ∃ w₁, Moves s w w₁ ∧
      (res = (w₁,none) ∨ ∃ a m, w₁.packets.get a = none ∧ m.next = none ∧
        res = (w₁.putPacket a m,some a))) := by
  unfold createPacket
  refine (Always.trivial _).bind (fun c _ => ?_)
  refine (sock_got w c.clientFd).bind (fun k hk => ?_)
  have hspend : Moves s w (w.putSock c.clientFd { k with oracle :=
      { k.oracle with packets := k.oracle.packets.tail } }) := .single (.sock hk (.of_same rfl rfl rfl))
  simp only
  split
  · split
    · exact ⟨_,hspend,.inl rfl⟩
    · exact ⟨_,hspend,.inr ⟨_,_,Heap.get_fresh _ _,rfl,rfl⟩⟩
  · exact ⟨_,hspend,.inl rfl⟩

theorem clientEnqueueMsgPacket_moves {a : Nat} {m : MsgPacket} (hp : p ∈ w.clientList)
    (ha : w.packets.get a = none) (hm : m.next = none) (limit : Nat) :
    Always (clientEnqueueMsgPacket (w.putPacket a m) p (some a) limit) (fun res =>
      res = (w.putPacket a m,-1) ∨ (res.2 = 0 ∧ Moves s w res.1)) := by
  unfold clientEnqueueMsgPacket
  refine (client_got (w.putPacket a m) p).bind (fun c hc => ?_)
  refine (Always.trivial _).bind (fun _ _ => ?_)
  split
  · exact .inl rfl
  · split
    · exact .inl rfl
    · cases ht : c.msgQueue.tail with
      | none =>
        simp only [pure_bind]
        refine (note_moves (s := s) _ p (by simp)).bind (fun w₂ h₂ => ?_)
        refine .inr ⟨rfl,h₂.head ?_⟩
        exact .first hp hc ha hm ht rfl rfl rfl
      | some t =>
        simp only
        cases hlast : (w.putPacket a m).packet t with
        | error e => exact True.intro
        | ok last =>
          have hgot : (w.packets.set a m).get t = some last :=
            (packet_got (w.putPacket a m) t).of_ok hlast
          simp only [ok_bind,pure_bind]
          refine (note_moves (s := s) _ p (by simp)).bind (fun w₂ h₂ => ?_)
          refine .inr ⟨rfl,h₂.head ?_⟩
          exact .push hp hc ha hm ht hgot rfl rfl rfl

theorem broadcastTo_moves (hp : p ∈ w.clientList) (sender : Option Nat) (header : MsgHeader)
    (msg : Bytes) : Always (broadcastTo sender header msg w p) (Moves s w) := by
  have hlisted : ∀ {w' : World}, Moves s w w' → p ∈ w'.clientList := by
    intro w' h
    rw [moves_list h]
    exact hp
  unfold broadcastTo
  refine (noteOffer_moves (s := s) w p sender msg.length).bind (fun w₁ h₁ => ?_)
  split
  · exact h₁
  · refine (Always.trivial _).bind (fun c _ => ?_)
    split
    · exact h₁
    · refine (createPacket_makes (s := s) w₁ p header msg).bind ?_
      rintro res ⟨w₂,h₂,rfl | ⟨a,m,ha,hm,rfl⟩⟩
      · exact h₁.trans h₂
      · simp only
        have hkept : Always (clientEnqueueMsgPacket (w₂.putPacket a m) p (some a) msgSizeLimit)
            (fun res => Moves s w₂ (if res.2 = -1 then res.1.freePacket a else res.1)) := by
          refine (clientEnqueueMsgPacket_moves (s := s) w₂ p (hlisted (h₁.trans h₂)) ha hm
            msgSizeLimit).mono ?_
          rintro res (rfl | ⟨hr,hmoves⟩)
          · refine ReflTransGen.single (.rest rfl rfl rfl rfl (.inl rfl) (fun b => ?_))
            have hget : ((w₂.packets.set a m).free a).get b = w₂.packets.get b := by
              by_cases hb : b = a
              · rw [hb,Heap.get_free_self,ha]
              · rw [Heap.get_free_of_ne _ hb,Heap.get_set_of_ne _ _ hb]
            exact hget
          · rw [hr,if_neg (by decide)]
            exact hmoves
        refine hkept.bind ?_
        rintro ⟨w₃,r⟩ h₃
        have hqueued : Moves s w (if r = -1 then w₃.freePacket a else w₃) :=
          (h₁.trans h₂).trans h₃
        simp only
        refine (Always.trivial _).bind (fun c₃ _ => ?_)
        have harm : ∀ w₄, Moves s w w₄ → Always (do
            let c ← w₄.client p
            if c.msgQueue.head ≠ none then enableEpolloutForClient w₄ p else pure w₄)
            (Moves s w) := by
          intro w₄ h₄
          refine (Always.trivial _).bind (fun c₄ _ => ?_)
          split
          · exact (setEpollout_moves (s := s) w₄ p true).mono (fun w₅ h₅ => h₄.trans h₅)
          · exact h₄
        split
        · refine (clientTryWrite_moves (s := s) _ p (hlisted hqueued)).bind ?_
          rintro ⟨w₄,r'⟩ h₄
          simp only
          split
          · exact (markClosed_moves (s := s) w₄ p).bind (fun w₅ h₅ =>
              harm w₅ ((hqueued.trans h₄).trans h₅))
          · exact harm w₄ (hqueued.trans h₄)
        · exact harm _ hqueued

theorem foldlM_moves {α : Type} {f : World → α → Except Fault World} (l : List α)
    (hf : ∀ u a, a ∈ l → Moves s w u → Always (f u a) (Moves s u)) :
    Always (l.foldlM f w) (Moves s w) := by
  induction l generalizing w with
  | nil => exact ReflTransGen.refl
  | cons a l ih =>
    rw [List.foldlM_cons]
    refine (hf w a (by simp) .refl).bind (fun w₁ h₁ => ?_)
    exact (ih w₁ (fun u b hb hu => hf u b (by simp [hb]) (h₁.trans hu))).mono
      (fun w₂ h₂ => h₁.trans h₂)

theorem broadcast_moves (sender : Option Nat) (msg : Bytes) :
    Always (broadcast w sender msg) (fun res => Moves sender w res.1) := by
  have hsame : ∀ {u u' : World}, u'.clients = u.clients → u'.socks = u.socks →
      u'.clientList = u.clientList → u'.accepted = u.accepted → u'.packets = u.packets →
      (u'.broadcasts = u.broadcasts ∨ ∃ msg, u'.broadcasts = u.broadcasts ++ [⟨sender,msg⟩]) →
      Move sender u u' :=
    fun hc hk hl ha hp hb => .rest hc hk hl ha hb (fun a => by rw [hp])
  unfold broadcast World.lock
  split
  · exact True.intro
  · simp only [ok_bind]
    refine (foldlM_moves (s := sender) _ _ (fun u t ht hu => broadcastTo_moves u t ?_ sender _ msg)).bind ?_
    · rw [moves_list hu]
      exact ht
    intro w₁ h₁
    refine ReflTransGen.tail (h₁.head ?_) ?_
    · exact hsame rfl rfl rfl rfl rfl (.inr ⟨msg,rfl⟩)
    · exact hsame rfl rfl rfl rfl rfl (.inl rfl)

theorem writeFrame_moves (msgType : UInt8) (fd : Nat) (msg : Bytes) :
    Always (writeFrame msgType w fd msg) (fun res => Moves s w res.1) := by
  unfold writeFrame
  refine (sock_got w fd).bind (fun k hk => ?_)
  exact ReflTransGen.single (.sock hk (k.writeFrame_draws msgType msg))

theorem sendTo_moves (msgType : UInt8) (msg : Bytes) :
    Always (sendTo (writeFrame msgType) msgType w p msg) (fun res => Moves s w res.1) := by
  unfold sendTo noteDirect
  refine (Always.trivial _).bind (fun c _ => ?_)
  refine Holds.bind (P := Moves s w) ?_ ?_
  · refine (Always.trivial _).bind (fun c _ => ?_)
    refine (Always.trivial _).bind (fun k _ => ?_)
    simp only
    split
    · exact note_moves _ _ (by simp)
    · refine (Always.trivial _).bind (fun m _ => ?_)
      exact note_moves _ _ (by simp)
  · intro w₁ h₁
    exact (writeFrame_moves (s := s) w₁ msgType _ msg).mono (fun res hres => h₁.trans hres)

end Writing

section Serving
variable (w : World) (p : Nat)

theorem realloc_draws (k : Sock) (old : Option Bytes) (size : Nat) :
    Draws k (k.realloc old size).1 := by
  refine ⟨?_,Sock.realloc_spends k old size⟩
  unfold Sock.realloc
  simp only
  split <;> rfl

theorem handleList_moves : Always (handleList w p) (fun res => Moves s w res.1) := by
  unfold handleList noteListing
  refine Holds.bind (P := Moves s w) ?_ ?_
  · exact (Always.trivial _).bind (fun names _ => note_moves _ _ (by simp))
  · intro w₁ h₁
    refine (foldlM_moves (s := s) w₁ _ (fun u entry _ _ => ?_)).bind (fun w₂ h₂ => h₁.trans h₂)
    unfold handleListEntry
    refine (Always.trivial _).bind (fun c _ => ?_)
    refine (sendTo_moves (s := s) u p msgTypeAdmin _).bind ?_
    rintro ⟨u₁,r⟩ h₁
    refine (sendTo_moves (s := s) u₁ p msgTypeAdmin _).bind ?_
    rintro ⟨u₂,r'⟩ h₂
    exact h₁.trans h₂

theorem getTimestamp_moves {fd : Nat} {k k' : Sock} (hk : w.socks.get fd = some k)
    (hdraws : Draws k k') : Moves s w ((getTimestamp w).1.putSock fd k') := by
  have htick : Move s w (getTimestamp w).1 := .rest rfl rfl rfl rfl (.inl rfl) (fun _ => rfl)
  exact (ReflTransGen.single htick).tail (.sock hk hdraws)

theorem handleWhisper_moves (saveptr : Bytes) :
    Always (handleWhisper w p saveptr) (fun res => Moves s w res.1) := by
  have hformat : ∀ msg, Always (formatWhisperMessage w p msg) (fun res => Moves s w res.1) := by
    intro msg
    unfold formatWhisperMessage
    refine (Always.trivial _).bind (fun c _ => ?_)
    refine (sock_got w c.clientFd).bind (fun k hk => ?_)
    obtain ⟨size,hsize⟩ := Room.formatWhisper_sock c k (getTimestamp w).2 msg
    have hdraws : Draws k (formatWhisper c k (getTimestamp w).2 msg).1 := by
      rw [hsize]
      exact realloc_draws k none size
    exact getTimestamp_moves w hk hdraws
  unfold handleWhisper
  simp only
  split
  · exact ReflTransGen.refl
  · split
    · split
      · exact ReflTransGen.refl
      · exact True.intro
    · refine (Always.trivial _).bind (fun target _ => ?_)
      split
      · exact ReflTransGen.refl
      · refine (hformat _).bind ?_
        rintro ⟨w₁,formatted⟩ h₁
        simp only
        split
        · exact h₁
        · refine (sendTo_moves (s := s) w₁ _ msgTypeNormal _).bind ?_
          rintro ⟨w₂,r⟩ h₂
          simp only
          split <;> exact h₁.trans h₂

theorem serverHandleCommand_moves (cmd saveptr : Bytes) :
    Always (serverHandleCommand w p cmd saveptr) (fun res => Moves s w res.1) := by
  unfold serverHandleCommand
  cases findCommand cmd with
  | list => exact handleList_moves w p
  | whisper => exact handleWhisper_moves w p saveptr
  | shutdown => exact ReflTransGen.single (.rest rfl rfl rfl rfl (.inl rfl) (fun _ => rfl))
  | quit => exact ReflTransGen.refl
  | unknown => exact ReflTransGen.refl

theorem formatChatMessage_moves :
    Always (formatChatMessage w p) (fun res => Moves s w res.1) := by
  unfold formatChatMessage
  refine (Always.trivial _).bind (fun c _ => ?_)
  refine (sock_got w c.clientFd).bind (fun k hk => ?_)
  simp only
  cases hformat : formatChat c k (getTimestamp w).2 with
  | error e => exact True.intro
  | ok res =>
    obtain ⟨k',text⟩ := res
    obtain ⟨size,rfl⟩ := Room.formatChat_sock hformat
    exact getTimestamp_moves w hk (realloc_draws k none size)

theorem processPayload_moves (payloadCopy : Option Bytes) :
    Always (processPayload w p payloadCopy) (fun res => Moves (some p) w res.1) := by
  unfold processPayload
  refine (client_got w p).bind (fun c hc => ?_)
  split
  · cases hs : storeClientName c with
    | error e => exact True.intro
    | ok c' =>
      obtain ⟨_,_,-,-,rfl⟩ := storeClientName_eq hs
      exact ReflTransGen.single (.record hc rfl rfl rfl)
  · split
    · exact True.intro
    · split
      · simp only
        split
        · exact True.intro
        · refine (serverHandleCommand_moves (s := some p) w p _ _).bind ?_
          rintro ⟨w₁,result⟩ h₁
          simp only
          split <;> exact h₁
      · refine (formatChatMessage_moves (s := some p) w p).bind ?_
        rintro ⟨w₁,formatted⟩ h₁
        simp only
        split
        · exact True.intro
        · refine (broadcast_moves w₁ (some p) _).bind ?_
          rintro ⟨w₂,r⟩ h₂
          exact h₁.trans h₂

end Serving

section Reading

theorem Sock.read_draws (k : Sock) (count : Nat) : Draws k (k.read count).1 := by
  refine ⟨?_,k.read_spends count⟩
  have hreceive : ∀ (j : Sock) (n : Nat), (j.receive count n).1.oracle.closeOk =
      j.oracle.closeOk := by
    intro j n
    unfold Sock.receive
    split
    · split <;> rfl
    · rfl
  unfold Sock.read
  split
  · rfl
  · split
    · exact hreceive _ _
    · exact hreceive _ _
    · rfl
    · rfl

theorem readHeader_draws (c : ClientInfo) (k : Sock) :
    Always (readHeader c k) (fun res => Draws k res.2.1) := by
  have hread := k.read_draws (sizeSub headerSize c.headerBytesRead)
  unfold readHeader
  simp only
  split
  · exact hread
  · exact hread
  · exact hread
  · refine (Always.trivial _).bind (fun b _ => ?_)
    repeat' split
    all_goals exact hread

theorem readPayload_draws (c : ClientInfo) (k : Sock) :
    Always (readPayload c k) (fun res => Draws k res.2.1) := by
  have hread := k.read_draws (sizeSub c.expectedPayloadLen c.payloadBytesRead)
  have happend : ∀ (i : ClientInfo) (j : Sock), Always (appendToClientBuffer i j)
      (fun res => Draws j res.2.1) := by
    intro i j
    refine Always.intro (fun res hres => ?_)
    obtain ⟨i',j',r⟩ := res
    cases appendToClientBuffer_appended hres with
    | fits => exact .refl _
    | grown _ hrealloc =>
      have hdraws := realloc_draws j i.partialMsg (growCap (i.partialLen+i.payloadBytesRead)
        i.partialCap (i.partialLen+i.payloadBytesRead))
      rwa [hrealloc] at hdraws
    | failed _ hrealloc =>
      have hdraws := realloc_draws j i.partialMsg (growCap (i.partialLen+i.payloadBytesRead)
        i.partialCap (i.partialLen+i.payloadBytesRead))
      rwa [hrealloc] at hdraws
  have hcopy : ∀ (j : Sock) (src : Option Bytes) (size : Nat), Always (copyBuffer j src size)
      (fun res => Draws j res.1) := by
    intro j src size
    unfold copyBuffer
    simp only
    split
    · exact realloc_draws j none (size+1)
    · exact (Always.trivial _).bind (fun _ _ => realloc_draws j none (size+1))
  unfold readPayload
  simp only
  split
  · exact hread
  · exact hread
  · refine (Always.trivial _).bind (fun b _ => ?_)
    split
    · exact hread
    · split
      · exact hread
      · refine (happend _ _).bind ?_
        rintro ⟨c',k',r⟩ h'
        simp only at h' ⊢
        split
        · refine (hcopy k' _ _).bind ?_
          rintro ⟨k'',copy⟩ h''
          exact (hread.trans h').trans ((h'' : Draws _ _).trans (.note _ (by simp)))
        · exact hread.trans h'

variable {w w' : World} {p : Nat} {c c' : ClientInfo} {k k' : Sock}

theorem readTurn_draws {next : Next} (h : readTurn c k = .ok (c',k',next)) : Draws k k' := by
  unfold readTurn at h
  cases hs : c.state with
  | readHeader =>
    rw [hs] at h
    exact (readHeader_draws c k).of_ok h
  | readPayload =>
    rw [hs] at h
    exact (readPayload_draws c k).of_ok h

theorem readTurn_queue {next : Next} (h : readTurn c k = .ok (c',k',next)) :
    c'.msgQueue = c.msgQueue := by
  have hsame := readTurn_withQueue c k c.msgQueue
  have hself : c.withQueue c.msgQueue = c := rfl
  rw [hself,h] at hsame
  have hkept : c' = c'.withQueue c.msgQueue := by
    simp only [Except.map,keepQueue,Except.ok.injEq,Prod.mk.injEq] at hsame
    exact hsame.1
  rw [hkept]
  rfl

theorem finishMessage_queue (h : finishMessage c = .ok c') : c'.msgQueue = c.msgQueue := by
  have hsame := finishMessage_withQueue c c.msgQueue
  have hself : c.withQueue c.msgQueue = c := rfl
  rw [hself,h] at hsame
  have hkept : c' = c'.withQueue c.msgQueue := by
    simpa only [Except.map,Except.ok.injEq] using hsame
  rw [hkept]
  rfl

theorem turn_moves {next : Next} (hc : w.client p = .ok c) (hk : w.sock c.clientFd = .ok k)
    (hturn : readTurn c k = .ok (c',k',next)) : Moves (some p) w (w.put p c' k') := by
  have hqueue := readTurn_queue hturn
  exact put_moves (client_eq_some hc) ((sock_got w c.clientFd).of_ok hk)
    (readTurn_frame hturn).1.clientFd (by rw [hqueue]) (by rw [hqueue]) (readTurn_draws hturn)

theorem Iterates.moves (h : Iterates p w w') : Moves (some p) w w' := by
  cases h with
  | again hc hk hturn => exact turn_moves hc hk hturn
  | answered hc hk hturn hpayload _ hnote hc₂ hfinish =>
    have hserved := (turn_moves hc hk hturn).trans ((processPayload_moves _ p _).of_ok hpayload)
    have hnoted := hserved.trans ((note_moves (s := some p) _ p (by simp)).of_ok hnote)
    have hqueue := finishMessage_queue hfinish
    exact hnoted.tail (.record (client_eq_some hc₂) (finishMessage_frame hfinish).clientFd
      (by rw [hqueue]) (by rw [hqueue]))

theorem Concludes.moves {r : Int} (h : Concludes p w w' r) : Moves (some p) w w' := by
  cases h with
  | turn hc hk hturn => exact turn_moves hc hk hturn
  | refused hc hk hturn hpayload hnote =>
    have hserved := (turn_moves hc hk hturn).trans ((processPayload_moves _ p _).of_ok hpayload)
    exact hserved.trans ((note_moves (s := some p) _ p (by simp)).of_ok hnote)

theorem handleClientRead_moves (w : World) (p : Nat) :
    Always (handleClientRead w p) (fun res => Moves (some p) w res.1) := by
  unfold handleClientRead
  refine (Always.trivial _).bind (fun c _ => ?_)
  refine (Always.trivial _).bind (fun k _ => ?_)
  have hloop : Always (handleClientReadLoop (2*k.inbox.length+2) w p)
      (fun res => Moves (some p) w res.1) := by
    refine Always.intro (fun res hres => ?_)
    exact handleClientReadLoop_rule (I := fun u => Moves (some p) w u) (Q := fun u _ => Moves (some p) w u)
      (fun _ _ h hi => h.trans hi.moves) (fun _ _ _ h hi => h.trans hi.moves)
      ReflTransGen.refl hres
  refine hloop.bind ?_
  rintro ⟨w₁,r⟩ h₁
  exact (note_moves (s := some p) w₁ p (by simp)).bind (fun w₂ h₂ => h₁.trans h₂)

/-- The event loop on the event of a client. -/
theorem dispatch_moves (w : World) {p : Nat} (hp : p ∈ w.clientList) (bits : EventBits)
    (accepts : List AcceptRes) :
    Always (dispatch w ⟨.ptr p,bits⟩ accepts) (Moves (some p) w) := by
  unfold dispatch
  refine (Always.trivial _).bind (fun c _ => ?_)
  split
  · exact ReflTransGen.refl
  · split
    · unfold noteHangup
      refine Holds.bind (P := Moves (some p) w) ?_ (fun w₁ h₁ => ?_)
      · refine (Always.trivial _).bind (fun c _ => ?_)
        exact (Always.trivial _).bind (fun k _ => note_moves w p (by simp))
      · exact (markClosed_moves (s := some p) w₁ p).mono (fun w₂ h₂ => h₁.trans h₂)
    · have hout : ∀ w₁, Moves (some p) w w₁ → Always (if bits.epollout = true then do
          let res ← clientTryWrite w₁ p
          if res.2 = -1 then markClosed res.1 p else pure res.1
        else pure w₁) (Moves (some p) w) := by
        intro w₁ h₁
        split
        · refine (clientTryWrite_moves (s := some p) w₁ p (by rw [moves_list h₁]; exact hp)).bind ?_
          rintro ⟨w₂,r⟩ h₂
          simp only
          split
          · exact (markClosed_moves (s := some p) w₂ p).mono (fun w₃ h₃ => (h₁.trans h₂).trans h₃)
          · exact h₁.trans h₂
        · exact h₁
      by_cases hin : bits.epollin = true
      · simp only [hin,if_true]
        refine (handleClientRead_moves w p).bind ?_
        rintro ⟨w₁,r⟩ h₁
        simp only
        split
        · exact (markClosed_moves (s := some p) w₁ p).mono (fun w₂ h₂ => h₁.trans h₂)
        · exact hout w₁ h₁
      · simp only [hin,pure_bind]
        exact hout w ReflTransGen.refl

end Reading
end ChatServer
