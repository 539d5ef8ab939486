import ChatServer.LinkedQueue
import ChatServer.Room

/-! The world refines the room: how the heaps, sockets and linked queues of a
world represent the views of a room, and that the functions which write to
clients act on the views as the room says. -/
set_option autoImplicit false

namespace ChatServer
open ByteString Memory Execution

def PktRep (m : MsgPacket) (x : Pkt) : Prop :=
  m.packetData = x.data ∧ m.offset = x.sent.length ∧ m.len = x.data.length ∧
    m.len ≤ msgSizeLimit

/-- The linked queue `q` in the packet heap holds the packets `xs`, in the
cells `as`. -/
structure QueueRep (h : Heap MsgPacket) (q : MsgQueue) (as : List Nat) (xs : List Pkt) :
    Prop where
  chain : Chain MsgPacket.next PktRep h q.head as xs
  nodup : as.Nodup
  tail : q.tail = as.getLast?
  count : q.queuedCount = as.length
  bytes : q.queuedBytes = pendingBytes xs
  limit : pendingBytes xs ≤ msgSizeLimit

/-- The record at `p`, its socket and its queue cells `as` represent the view. -/
def Owns (w : World) (p : Nat) (as : List Nat) (v : View) : Prop :=
  ∃ q, w.clients.get p = some (v.info.withQueue q) ∧
    w.socks.get v.info.clientFd = some v.sock ∧ QueueRep w.packets q as v.queue ∧
    v.sock.registration.map (fun r => r.ptr) = some p

structure Represents (w : World) (R : Room) (A : Nat → List Nat) : Prop where
  members : w.clientList = R.members
  nodup : R.members.Nodup
  bound : R.members.length ≤ maxClients
  owns : ∀ p ∈ R.members, Owns w p (A p) (R.view p)
  fds : ∀ p ∈ R.members, ∀ q ∈ R.members,
    (R.view p).info.clientFd = (R.view q).info.clientFd → p = q
  cells : ∀ p ∈ R.members, ∀ q ∈ R.members, p ≠ q → ∀ a ∈ A p, a ∉ A q
  registered : ∀ fd k r, w.socks.get fd = some k → k.registration = some r →
    r.ptr ∈ R.members ∧ (R.view r.ptr).info.clientFd = fd
  mutex : w.clientMutex = R.mutex
  shutdown : w.serverShutdown = R.shutdown
  clock : w.clock = R.clock
  broadcasts : w.broadcasts = R.broadcasts
  accepted : w.accepted = R.accepted

def Refines (w : World) (R : Room) : Prop := ∃ A, Represents w R A

theorem Refines.clientList {w : World} {R : Room} (h : Refines w R) : w.clientList = R.members := by
  obtain ⟨A,h⟩ := h
  exact h.members

def SameRest (w w' : World) : Prop :=
  w'.clientList = w.clientList ∧ w'.clientMutex = w.clientMutex ∧
    w'.serverShutdown = w.serverShutdown ∧ w'.clock = w.clock ∧
    w'.broadcasts = w.broadcasts ∧ w'.accepted = w.accepted

namespace World

@[simp] theorem put_clients (w : World) (p : Nat) (c : ClientInfo) (k : Sock) :
    (w.put p c k).clients = w.clients.set p c := rfl

@[simp] theorem put_socks (w : World) (p : Nat) (c : ClientInfo) (k : Sock) :
    (w.put p c k).socks = w.socks.set c.clientFd k := rfl

@[simp] theorem put_packets (w : World) (p : Nat) (c : ClientInfo) (k : Sock) :
    (w.put p c k).packets = w.packets := rfl

theorem client_eq_ok {w : World} {p : Nat} {c : ClientInfo} (h : w.clients.get p = some c) :
    w.client p = .ok c := by simp [client,h]

theorem sock_eq_ok {w : World} {fd : Nat} {k : Sock} (h : w.socks.get fd = some k) :
    w.sock fd = .ok k := by simp [sock,h]

theorem packet_eq_ok {w : World} {a : Nat} {m : MsgPacket} (h : w.packets.get a = some m) :
    w.packet a = .ok m := by simp [packet,h]

theorem note_putClient {w : World} {p : Nat} {c : ClientInfo} {k : Sock} (o : Obs)
    (h : w.sock c.clientFd = .ok k) :
    (w.putClient p c).note p o = .ok (w.put p c (k.note o)) := by
  have hc : (w.putClient p c).client p = .ok c := client_eq_ok (Heap.get_set_self _ _ _)
  have hk : (w.putClient p c).sock c.clientFd = .ok k := h
  simp only [note,hc,hk,ok_bind]
  rfl

end World

namespace Represents
variable {w w' : World} {R : Room} {A : Nat → List Nat} {p : Nat}

theorem refines (h : Represents w R A) : Refines w R := ⟨A,h⟩

theorem live_cell (h : Represents w R A) (hp : p ∈ R.members) {a : Nat} (ha : a ∈ A p) :
    ∃ m, w.packets.get a = some m := by
  obtain ⟨q,-,-,hq,-⟩ := h.owns p hp
  obtain ⟨m,hm,-⟩ := hq.chain.live ha
  exact ⟨m,hm⟩

/-- One client changes: its record, its socket, and packet cells that are its
own or nobody's. Everybody else is represented as before. -/
theorem update (h : Represents w R A) (hp : p ∈ R.members) {v : View} {as : List Nat}
    (hown : Owns w' p as v) (hfd : v.info.clientFd = (R.view p).info.clientFd)
    (hclients : ∀ q, q ≠ p → w'.clients.get q = w.clients.get q)
    (hsocks : ∀ fd, fd ≠ v.info.clientFd → w'.socks.get fd = w.socks.get fd)
    (hpackets : ∀ a m, a ∉ A p → w.packets.get a = some m → w'.packets.get a = some m)
    (hnew : ∀ a ∈ as, a ∈ A p ∨ ∀ q ∈ R.members, a ∉ A q)
    (hrest : SameRest w w') :
    Represents w' (R.set p v) (fun q => if q = p then as else A q) := by
  obtain ⟨hlist,hmutex,hshut,hclock,hcasts,hacc⟩ := hrest
  have hview : ∀ q, (((R.set p v).view q).info.clientFd = (R.view q).info.clientFd) := by
    intro q
    by_cases hq : q = p
    · subst hq
      simp [hfd]
    · simp [Room.view_set_of_ne R v hq]
  have hfresh : ∀ q ∈ R.members, q ≠ p → ∀ a ∈ as, a ∉ A q := by
    intro q hq hne a ha haq
    rcases hnew a ha with hmem | hnone
    · exact h.cells p hp q hq (Ne.symm hne) a hmem haq
    · exact hnone q hq haq
  refine ⟨hlist.trans h.members,h.nodup,h.bound,?_,?_,?_,?_,hmutex.trans h.mutex,
    hshut.trans h.shutdown,hclock.trans h.clock,hcasts.trans h.broadcasts,
    hacc.trans h.accepted⟩
  · intro q hq
    by_cases hqp : q = p
    · subst hqp
      simpa using hown
    · obtain ⟨c,hc,hk,hrep,hreg⟩ := h.owns q hq
      have hne : (R.view q).info.clientFd ≠ v.info.clientFd := by
        intro he
        exact hqp (h.fds q hq p hp (by rw [he,hfd]))
      simp only [hqp,if_false,Room.view_set_of_ne R v hqp]
      refine ⟨c,?_,?_,?_,hreg⟩
      · rw [hclients q hqp,hc]
      · rw [hsocks _ hne,hk]
      · refine { hrep with chain := hrep.chain.frame ?_ }
        intro a ha
        obtain ⟨m,hm⟩ := h.live_cell hq ha
        have hnot : a ∉ A p := h.cells q hq p hp hqp a ha
        rw [hpackets a m hnot hm,hm]
  · intro q hq r hr he
    rw [hview,hview] at he
    exact h.fds q hq r hr he
  · intro q hq r hr hne a ha
    by_cases hqp : q = p
    · subst hqp
      have hrq : r ≠ q := Ne.symm hne
      simp only [if_true] at ha
      simpa only [hrq,if_false] using hfresh r hr hrq a ha
    · simp only [hqp,if_false] at ha
      by_cases hrp : r = p
      · subst hrp
        simp only [if_true]
        intro has
        exact hfresh q hq hqp a has ha
      · simpa only [hrp,if_false] using h.cells q hq r hr hne a ha
  · intro fd k r hk hr
    rw [hview]
    by_cases hfdp : fd = v.info.clientFd
    · obtain ⟨q,hc,hk',-,hreg⟩ := hown
      have hkv : k = v.sock := by
        rw [hfdp,hk'] at hk
        exact (Option.some.inj hk).symm
      rw [← hkv,hr] at hreg
      have hrp : r.ptr = p := by simpa using hreg
      rw [hrp,hfdp,hfd]
      exact ⟨hp,rfl⟩
    · rw [hsocks fd hfdp] at hk
      exact h.registered fd k r hk hr

theorem access (h : Represents w R A) (hp : p ∈ R.members) :
    ∃ q, w.client p = .ok ((R.view p).info.withQueue q) ∧
      w.sock (R.view p).info.clientFd = .ok (R.view p).sock ∧
      QueueRep w.packets q (A p) (R.view p).queue ∧
      (R.view p).sock.registration.map (fun r => r.ptr) = some p := by
  obtain ⟨q,hc,hk,hq,hreg⟩ := h.owns p hp
  exact ⟨q,World.client_eq_ok hc,World.sock_eq_ok hk,hq,hreg⟩

theorem cells_update_self : (fun q => if q = p then A p else A q) = A := by
  funext q
  by_cases hq : q = p <;> simp [hq]

theorem unlock (h : Represents w R A) : Represents w.unlock { R with mutex := false } A :=
  { h with mutex := rfl }

theorem packets_changed (h : Represents w R A) {g : Heap MsgPacket}
    (hg : ∀ p ∈ R.members, ∀ a ∈ A p, g.get a = w.packets.get a) :
    Represents { w with packets := g } R A := by
  refine { h with owns := ?_ }
  intro p hp
  obtain ⟨q,hc,hk,hq,hreg⟩ := h.owns p hp
  exact ⟨q,hc,hk,{ hq with chain := hq.chain.frame (hg p hp) },hreg⟩

/-- Storing a member's record and socket after its queue changed in the packet
heap: cells of the others stay, and new cells were nobody's. -/
theorem store (h : Represents w R A) (hp : p ∈ R.members) {g : Heap MsgPacket}
    {q : MsgQueue} {i : ClientInfo} {k : Sock} {as : List Nat} {xs : List Pkt}
    (hq : QueueRep g q as xs) (hfd : i.clientFd = (R.view p).info.clientFd)
    (hreg : k.registration.map (fun r => r.ptr) = some p)
    (hpackets : ∀ a m, a ∉ A p → w.packets.get a = some m → g.get a = some m)
    (hnew : ∀ a ∈ as, a ∈ A p ∨ ∀ q ∈ R.members, a ∉ A q) :
    Refines ({ w with packets := g }.put p (i.withQueue q) k) (R.set p ⟨i,k,xs⟩) := by
  have hown : Owns ({ w with packets := g }.put p (i.withQueue q) k) p as ⟨i,k,xs⟩ :=
    ⟨q,Heap.get_set_self _ _ _,Heap.get_set_self _ _ _,hq,hreg⟩
  exact ⟨_,h.update hp hown hfd (fun r hr => Heap.get_set_of_ne _ _ hr)
    (fun fd hne => Heap.get_set_of_ne _ _ hne) hpackets hnew ⟨rfl,rfl,rfl,rfl,rfl,rfl⟩⟩

theorem put (h : Represents w R A) (hp : p ∈ R.members) {q : MsgQueue} {i : ClientInfo}
    {k : Sock} (hq : QueueRep w.packets q (A p) (R.view p).queue)
    (hfd : i.clientFd = (R.view p).info.clientFd)
    (hreg : k.registration.map (fun r => r.ptr) = some p) :
    Represents (w.put p (i.withQueue q) k) (R.set p ⟨i,k,(R.view p).queue⟩) A := by
  have hown : Owns (w.put p (i.withQueue q) k) p (A p) ⟨i,k,(R.view p).queue⟩ := by
    refine ⟨q,?_,?_,hq,hreg⟩
    · simp
    · exact Heap.get_set_self _ _ _
  have h' := h.update hp hown hfd
    (fun r hr => Heap.get_set_of_ne _ _ hr) (fun fd hne => Heap.get_set_of_ne _ _ hne)
    (fun a m _ hm => hm) (fun a ha => .inl ha) ⟨rfl,rfl,rfl,rfl,rfl,rfl⟩
  rwa [cells_update_self] at h'

theorem putSock (h : Represents w R A) (hp : p ∈ R.members) {k : Sock}
    (hreg : k.registration.map (fun r => r.ptr) = some p) :
    Represents (w.putSock (R.view p).info.clientFd k)
      (R.set p { R.view p with sock := k }) A := by
  obtain ⟨q,hc,hk,hq,-⟩ := h.owns p hp
  have hown : Owns (w.putSock (R.view p).info.clientFd k) p (A p)
      { R.view p with sock := k } := ⟨q,hc,Heap.get_set_self _ _ _,hq,hreg⟩
  have h' := h.update hp hown rfl
    (fun r _ => rfl) (fun fd hne => Heap.get_set_of_ne _ _ hne)
    (fun a m _ hm => hm) (fun a ha => .inl ha) ⟨rfl,rfl,rfl,rfl,rfl,rfl⟩
  rwa [cells_update_self] at h'

theorem putClient (h : Represents w R A) (hp : p ∈ R.members) {q : MsgQueue}
    {i : ClientInfo} (hq : QueueRep w.packets q (A p) (R.view p).queue)
    (hfd : i.clientFd = (R.view p).info.clientFd) :
    Represents (w.putClient p (i.withQueue q)) (R.set p { R.view p with info := i }) A := by
  obtain ⟨r,hc,hk,-,hreg⟩ := h.owns p hp
  have hown : Owns (w.putClient p (i.withQueue q)) p (A p)
      { R.view p with info := i } := by
    refine ⟨q,Heap.get_set_self _ _ _,?_,hq,hreg⟩
    change w.socks.get i.clientFd = _
    rw [hfd,hk]
  have h' := h.update hp hown hfd
    (fun r hr => Heap.get_set_of_ne _ _ hr) (fun fd _ => rfl)
    (fun a m _ hm => hm) (fun a ha => .inl ha) ⟨rfl,rfl,rfl,rfl,rfl,rfl⟩
  rwa [cells_update_self] at h'

end Represents

def Yields (x : Except Fault World) (R : Room) : Prop := ∃ w, x = .ok w ∧ Refines w R

def Returns {α : Type} (x : Except Fault (World × α)) (y : Room × α) : Prop :=
  ∃ w, x = .ok (w,y.2) ∧ Refines w y.1

theorem Yields.bind_returns {α : Type} {x : Except Fault World}
    {f : World → Except Fault (World × α)} {R : Room} {y : Room × α} (h : Yields x R)
    (hf : ∀ w, Refines w R → Returns (f w) y) : Returns (x >>= f) y := by
  obtain ⟨w,rfl,hw⟩ := h
  exact hf w hw

theorem Yields.bind {x : Except Fault World} {f : World → Except Fault World} {R R' : Room}
    (h : Yields x R) (hf : ∀ w, Refines w R → Yields (f w) R') : Yields (x >>= f) R' := by
  obtain ⟨w,rfl,hw⟩ := h
  exact hf w hw

theorem Returns.bind {α β : Type} {x : Except Fault (World × α)}
    {f : World × α → Except Fault (World × β)} {y : Room × α} {z : Room × β}
    (h : Returns x y) (hf : ∀ w, Refines w y.1 → Returns (f (w,y.2)) z) :
    Returns (x >>= f) z := by
  obtain ⟨w,rfl,hw⟩ := h
  exact hf w hw

theorem Returns.bind_yields {α : Type} {x : Except Fault (World × α)}
    {f : World × α → Except Fault World} {y : Room × α} {R : Room}
    (h : Returns x y) (hf : ∀ w, Refines w y.1 → Yields (f (w,y.2)) R) :
    Yields (x >>= f) R := by
  obtain ⟨w,rfl,hw⟩ := h
  exact hf w hw

end ChatServer
