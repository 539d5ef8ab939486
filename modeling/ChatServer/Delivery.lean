import Mathlib.Data.List.Sort
import ChatServer.QueueInvariant
import ChatServer.Beats

/-! Delivery on the queued path: what the kernel took and what waits in the
queue are the packets that were taken in, and these follow the broadcasts. -/
set_option autoImplicit false

namespace ChatServer
open ByteString Memory Execution Outbox

def unsentBytes (queue : List Pkt) : Bytes := queue.flatMap (fun x => x.unsent)

def packetAt (broadcasts : List Broadcast) (i : Nat) : Bytes :=
  match broadcasts[i]? with
  | none => []
  | some b => frame msgTypeNormal b.msg

def Noted (past : List Obs) (o : Obs) : Prop :=
  ∀ x, o = .offered x → (x.closed = true ↔ .markedClosed ∈ past) ∧
    x.queuedBytes+(queuedWire past).length = ((enqueuedPackets past).flatMap Prod.snd).length

structure Delivered (p : Nat) (b : Outbox) : Prop where
  joined : b.joined ≤ b.broadcasts.length
  closed : b.closed = true ↔ .markedClosed ∈ b.trace
  bytes : queuedWire b.trace ++ unsentBytes b.queue = (enqueuedPackets b.trace).flatMap Prod.snd
  offered : (offers b.trace).map Offer.index =
    List.range' b.joined (b.broadcasts.length-b.joined)
  truthful : ∀ o ∈ offers b.trace, ∃ c, b.broadcasts[o.index]? = some c ∧
    (o.own = true ↔ c.sender = some p) ∧ o.len = headerSize+c.msg.length
  noted : Each Noted b.trace
  taken : enqueuedPackets b.trace = ((offers b.trace).filter Offer.taken).map
    (fun o => (o.index,packetAt b.broadcasts o.index))

theorem unsentBytes_length (queue : List Pkt) : (unsentBytes queue).length = pendingBytes queue := by
  simp [unsentBytes,pendingBytes,List.length_flatMap]

theorem packetAt_append {bs : List Broadcast} {i : Nat} (c : Broadcast) (h : i < bs.length) :
    packetAt (bs ++ [c]) i = packetAt bs i := by
  unfold packetAt
  rw [List.getElem?_append_left h]

theorem packetAt_last (bs : List Broadcast) (c : Broadcast) :
    packetAt (bs ++ [c]) bs.length = frame msgTypeNormal c.msg := by
  simp [packetAt]

namespace Delivered
variable {p : Nat} {b b' : Outbox}

theorem index_lt (h : Delivered p b) {o : Offer} (ho : o ∈ offers b.trace) :
    o.index < b.broadcasts.length := by
  obtain ⟨c,hc,-⟩ := h.truthful o ho
  exact (List.getElem?_eq_some_iff.mp hc).1

theorem extend (h : Delivered p b) {l : List Obs} {queue : List Pkt} {closed : Bool}
    (hpackets : enqueuedPackets l = []) (hoffers : offers l = [])
    (hclosed : closed = true ↔ b.closed = true ∨ .markedClosed ∈ l)
    (hbytes : queuedWire l ++ unsentBytes queue = unsentBytes b.queue) :
    Delivered p { b.log l with queue := queue, closed := closed } := by
  refine ⟨h.joined,?_,?_,?_,?_,?_,?_⟩
  · simp only [Outbox.log,List.mem_append,hclosed,h.closed]
  · simp only [Outbox.log,queuedWire_append,enqueuedPackets_append,hpackets,List.append_nil,
      List.append_assoc,hbytes,h.bytes]
  · simpa [Outbox.log,hoffers] using h.offered
  · simpa [Outbox.log,hoffers] using h.truthful
  · refine h.noted.append ?_
    intro a o rest he x hx
    have hmem : x ∈ offers l := by
      rw [he,hx]
      simp [offers]
    rw [hoffers] at hmem
    cases hmem
  · simpa [Outbox.log,hoffers,hpackets] using h.taken

theorem offer (h : Delivered p b) {c : Broadcast} {allocates : Bool} {l : List Obs}
    {queue : List Pkt}
    (hpackets : enqueuedPackets l =
      if (b.offer p c allocates).taken then
        [(b.broadcasts.length,frame msgTypeNormal c.msg)] else [])
    (hoffers : offers l = []) (hsilent : queuedWire l = []) (hclosed : .markedClosed ∉ l)
    (hqueue : unsentBytes queue = unsentBytes b.queue ++ (enqueuedPackets l).flatMap Prod.snd) :
    Delivered p { b.log (.offered (b.offer p c allocates) :: l) with
      broadcasts := b.broadcasts ++ [c], queue := queue } := by
  have hoffers' : offers (b.trace ++ .offered (b.offer p c allocates) :: l) =
      offers b.trace ++ [b.offer p c allocates] := by
    rw [offers_append]
    simpa [offers] using hoffers
  have hpackets' : enqueuedPackets (b.trace ++ .offered (b.offer p c allocates) :: l) =
      enqueuedPackets b.trace ++ enqueuedPackets l := by
    rw [enqueuedPackets_append]
    simp [enqueuedPackets]
  have hwire' : queuedWire (b.trace ++ .offered (b.offer p c allocates) :: l) =
      queuedWire b.trace := by
    rw [queuedWire_append]
    simpa [queuedWire] using hsilent
  refine ⟨?_,?_,?_,?_,?_,?_,?_⟩
  · have hj := h.joined
    simp only [Outbox.log,List.length_append,List.length_singleton]
    omega
  · simp [Outbox.log,h.closed,hclosed]
  · simp only [Outbox.log,hwire',hpackets',List.flatMap_append,hqueue]
    rw [← List.append_assoc,h.bytes]
  · have hj := h.joined
    have hlen : (b.broadcasts ++ [c]).length-b.joined = b.broadcasts.length-b.joined+1 := by
      simp only [List.length_append,List.length_singleton]
      omega
    have hlast : b.joined+(b.broadcasts.length-b.joined) = b.broadcasts.length := by omega
    simp only [Outbox.log,hoffers',List.map_append,h.offered]
    rw [hlen,List.range'_1_concat,hlast]
    rfl
  · intro o ho
    simp only [Outbox.log,hoffers',List.mem_append,List.mem_singleton] at ho
    rcases ho with ho | rfl
    · obtain ⟨c',hc',hown,hlen⟩ := h.truthful o ho
      exact ⟨c',by rw [List.getElem?_append_left (h.index_lt ho)]; exact hc',hown,hlen⟩
    · refine ⟨c,by simp [Outbox.offer],?_,rfl⟩
      simp [Outbox.offer,eq_comm]
  · refine h.noted.append ?_
    intro a o rest he x hx
    cases a with
    | nil =>
      simp only [List.nil_append,List.cons.injEq] at he
      rw [hx] at he
      have hxo : b.offer p c allocates = x := by simpa using he.1
      subst hxo
      refine ⟨by simpa [Outbox.offer] using h.closed,?_⟩
      have hb := congrArg List.length h.bytes
      simp only [List.length_append,unsentBytes_length] at hb
      simp only [Outbox.offer,List.append_nil]
      omega
    | cons y a =>
      simp only [List.cons_append,List.cons.injEq] at he
      have hmem : x ∈ offers l := by
        rw [he.2,hx]
        simp [offers]
      rw [hoffers] at hmem
      cases hmem
  · have hold : ((offers b.trace).filter Offer.taken).map
        (fun o => (o.index,packetAt (b.broadcasts ++ [c]) o.index)) =
        enqueuedPackets b.trace := by
      rw [h.taken]
      refine List.map_congr_left ?_
      intro o ho
      rw [packetAt_append c (h.index_lt (List.mem_of_mem_filter ho))]
    simp only [Outbox.log,hoffers',hpackets',List.filter_append,List.map_append,hold,hpackets]
    have hindex : (b.offer p c allocates).index = b.broadcasts.length := rfl
    by_cases ht : (b.offer p c allocates).taken = true
    · simp [ht,hindex,packetAt_last]
    · simp [ht]

theorem blank (hb : b.Blank) : Delivered p b := by
  obtain ⟨htrace,hqueue,hclosed,hjoined⟩ := hb
  refine ⟨Nat.le_of_eq hjoined,?_,?_,?_,?_,?_,?_⟩
  · simp [htrace,hclosed]
  · simp [htrace,hqueue,queuedWire,unsentBytes,enqueuedPackets]
  · simp [htrace,hjoined,offers]
  · simp [htrace,offers]
  · rw [htrace]
    exact Each.nil
  · simp [htrace,enqueuedPackets,offers]

theorem beat (h : Delivered p b) (hbeat : Beat p b b') : Delivered p b' := by
  cases hbeat with
  | @inert o ho hopen =>
    obtain ⟨-,hw,hq,hx,-,-,-⟩ := o.inert_silent ho
    refine h.extend hq hx ?_ (by rw [hw]; rfl)
    have hne : .markedClosed ≠ o := by
      rintro rfl
      cases ho
    simp [hne]
  | close => exact h.extend rfl rfl (by simp) rfl
  | shutdown => exact ⟨h.joined,h.closed,h.bytes,h.offered,h.truthful,h.noted,h.taken⟩
  | listing names => exact h.extend rfl rfl (by simp) rfl
  | @part x q n hqueue hopen hpos hn =>
    refine h.extend rfl rfl (by simp [Outbox.log]) ?_
    have htake : x.unsent.take n ++ (x.advance n hn).unsent = x.unsent :=
      List.take_append_drop n x.unsent
    rw [hqueue]
    simp [queuedWire,unsentBytes,← List.append_assoc,htake]
  | whole hqueue hopen =>
    refine h.extend rfl rfl (by simp [Outbox.log]) ?_
    rw [hqueue]
    simp [queuedWire,unsentBytes]
  | @skip c allocates hsaid hskip =>
    exact h.offer (l := []) (by simp [hskip,enqueuedPackets]) rfl rfl (by simp)
      (by simp [Outbox.log,enqueuedPackets])
  | @take c allocates hsaid htake =>
    refine h.offer (by simp [htake,enqueuedPackets]) rfl rfl (by simp) ?_
    simp [unsentBytes,newPkt,enqueuedPackets]
  | @direct d htells hoffset hclosed =>
    have hsent : ∀ bs, enqueuedPackets (sentObs .direct bs) = [] ∧
        offers (sentObs .direct bs) = [] ∧ queuedWire (sentObs .direct bs) = [] ∧
        .markedClosed ∉ sentObs .direct bs := by
      intro bs
      unfold sentObs
      split <;> simp [enqueuedPackets,offers,queuedWire]
    obtain ⟨hp,ho,hw,hm⟩ := hsent d.first.taken
    obtain ⟨hp',ho',hw',hm'⟩ := hsent d.second
    refine h.extend ?_ ?_ ?_ ?_
    · rw [enqueuedPackets_append,enqueuedPackets_append,hp,hp']
      rfl
    · rw [offers_append,offers_append,ho,ho']
      rfl
    · simp [hm,hm']
    · rw [queuedWire_append,queuedWire_append,hw,hw']
      simp [queuedWire]

end Delivered

theorem Seat.Reachable.delivered {p : Nat} {s : Seat} (h : Seat.Reachable p s) :
    Delivered p s.outbox :=
  h.outbox (fun _ hb => .blank hb) (fun _ _ hb hbeat => hb.beat hbeat)

def MsgQueue.unsent (q : MsgQueue) (h : Heap MsgPacket) : Bytes :=
  (q.path h).flatMap (fun a => match h.get a with
    | none => []
    | some m => m.packetData.drop m.offset)

theorem chain_unsent {h : Heap MsgPacket} {s : Option Nat} {as : List Nat} {xs : List Pkt}
    (hc : Chain MsgPacket.next PktRep h s as xs) :
    as.flatMap (fun a => match h.get a with
      | none => []
      | some m => m.packetData.drop m.offset) = unsentBytes xs := by
  unfold unsentBytes
  rw [List.flatMap_def,List.flatMap_def]
  refine congrArg List.flatten (hc.map_eq (f := fun cell => match cell with
    | none => []
    | some m => m.packetData.drop m.offset) ?_)
  rintro m x ⟨hdata,hoff,-,-⟩
  simp only
  rw [hdata,hoff]
  exact List.drop_left

theorem QueueRep.unsent {h : Heap MsgPacket} {q : MsgQueue} {as : List Nat} {xs : List Pkt}
    (hq : QueueRep h q as xs) : q.unsent h = unsentBytes xs := by
  have hpath : q.path h = as := by
    unfold MsgQueue.path
    rw [hq.count]
    exact hq.chain.walk_eq
  unfold MsgQueue.unsent
  rw [hpath]
  exact chain_unsent hq.chain

/-- What `client_enqueue_msg_packet` took in for a listed client: every byte of
it is on the wire or in the queue, in order, and it is what the broadcasts since
the client joined have offered, but for its own ones, those made while it was
closed, those without a packet and those over the limit. -/
structure OrderedDelivery (s : Sys) (p : Nat) (c : ClientInfo) (k : Sock) : Prop where
  bytes : queuedWire k.trace ++ c.msgQueue.unsent s.world.packets =
    (enqueuedPackets k.trace).flatMap Prod.snd
  offered : (offers k.trace).map Offer.index =
    List.range' k.joined (s.world.broadcasts.length-k.joined)
  truthful : ∀ o ∈ offers k.trace, ∃ b, s.world.broadcasts[o.index]? = some b ∧
    (o.own = true ↔ b.sender = some p) ∧ o.len = headerSize+b.msg.length
  noted : Each Noted k.trace
  taken : enqueuedPackets k.trace = ((offers k.trace).filter Offer.taken).map
    (fun o => (o.index,packetAt s.world.broadcasts o.index))
  once : ((enqueuedPackets k.trace).map Prod.fst).Pairwise (fun i j => i < j)

theorem Delivered.once {p : Nat} {b : Outbox} (h : Delivered p b) :
    ((enqueuedPackets b.trace).map Prod.fst).Pairwise (fun i j => i < j) := by
  have hsub : ((enqueuedPackets b.trace).map Prod.fst).Sublist
      ((offers b.trace).map Offer.index) := by
    rw [h.taken,List.map_map]
    exact (List.filter_sublist).map _
  rw [h.offered] at hsub
  exact (List.pairwise_lt_range' 1).sublist hsub

theorem listed_delivery {acts : List Action} {s : Sys} {p : Nat} {c : ClientInfo} {k : Sock}
    (hrun : run step Sys.init acts = .ok s) (hphase : s.phase ≠ .done)
    (h : Listed s p c k) : OrderedDelivery s p c k := by
  obtain ⟨seat,hseats⟩ := listed_seats hrun hphase h
  obtain ⟨as,hq⟩ := hseats.queue
  have hd := hseats.reachable.delivered
  have htrace : seat.outbox.trace = k.trace := by
    rw [hseats.sock]
    rfl
  have hjoined : seat.outbox.joined = k.joined := by
    rw [hseats.sock]
    rfl
  have hcasts : seat.outbox.broadcasts = s.world.broadcasts := hseats.broadcasts
  have hbytes := hd.bytes
  have hoffered := hd.offered
  have htruthful := hd.truthful
  have hnoted := hd.noted
  have htaken := hd.taken
  have honce := hd.once
  rw [htrace] at hbytes hoffered htruthful hnoted htaken honce
  rw [hjoined,hcasts] at hoffered
  rw [hcasts] at htruthful htaken
  refine ⟨?_,hoffered,htruthful,hnoted,htaken,honce⟩
  rw [hq.unsent]
  exact hbytes

theorem map_fst_packets {f : Nat → Bytes} {xs : List (Nat × Bytes)}
    (hxs : ∀ x ∈ xs, x.2 = f x.1) : (xs.map Prod.fst).map (fun i => (i,f i)) = xs := by
  rw [List.map_map]
  refine (List.map_congr_left ?_).trans (List.map_id xs)
  intro x hx
  exact Prod.ext rfl (hxs x hx).symm

/-- Two lists of numbered packets, both in order and both from the same source,
have the same packets in common, in the same order. -/
theorem common_order {f : Nat → Bytes} {xs ys : List (Nat × Bytes)}
    (hxs : ∀ x ∈ xs, x.2 = f x.1) (hys : ∀ y ∈ ys, y.2 = f y.1)
    (hx : (xs.map Prod.fst).Pairwise (fun i j => i < j))
    (hy : (ys.map Prod.fst).Pairwise (fun i j => i < j)) :
    xs.filter (fun x => decide (x.1 ∈ ys.map Prod.fst)) =
      ys.filter (fun y => decide (y.1 ∈ xs.map Prod.fst)) := by
  generalize hI : xs.map Prod.fst = I at *
  generalize hJ : ys.map Prod.fst = J at *
  have hxI : xs = I.map (fun i => (i,f i)) := by rw [← hI,map_fst_packets hxs]
  have hyJ : ys = J.map (fun i => (i,f i)) := by rw [← hJ,map_fst_packets hys]
  have hcommon : I.filter (fun i => decide (i ∈ J)) = J.filter (fun j => decide (j ∈ I)) := by
    refine List.Pairwise.eq_of_mem_iff (hx.sublist List.filter_sublist)
      (hy.sublist List.filter_sublist) ?_
    intro i
    simp [and_comm]
  rw [hxI,hyJ,List.filter_map,List.filter_map]
  exact congrArg (List.map (fun i => (i,f i))) hcommon

theorem deliveries_ordered {acts : List Action} {s : Sys} {p : Nat} {c : ClientInfo} {k : Sock}
    (hrun : run step Sys.init acts = .ok s) (hphase : s.phase ≠ .done)
    (h : Listed s p c k) :
    OrderedDelivery s p c k ∧ ∀ p' c' k', Listed s p' c' k' →
      (enqueuedPackets k.trace).filter
          (fun x => decide (x.1 ∈ (enqueuedPackets k'.trace).map Prod.fst)) =
        (enqueuedPackets k'.trace).filter
          (fun x => decide (x.1 ∈ (enqueuedPackets k.trace).map Prod.fst)) := by
  have hd := listed_delivery hrun hphase h
  refine ⟨hd,?_⟩
  intro p' c' k' h'
  have hd' := listed_delivery hrun hphase h'
  refine common_order (f := packetAt s.world.broadcasts) ?_ ?_ hd.once hd'.once
  · intro x hx
    rw [hd.taken] at hx
    obtain ⟨o,-,rfl⟩ := List.mem_map.mp hx
    rfl
  · intro y hy
    rw [hd'.taken] at hy
    obtain ⟨o,-,rfl⟩ := List.mem_map.mp hy
    rfl

theorem deliveries_ordered_slowReader : ∃ s c k, run step Sys.init Action.slowReader = .ok s ∧
    Listed s 2 c k ∧ OrderedDelivery s 2 c k := by
  obtain ⟨s,hrun,c,k,hphase,hlisted⟩ := reaches_listed
    (show reachesListed Action.slowReader 2 (fun _ _ _ => true) = true by decide +kernel)
  exact ⟨s,c,k,hrun,hlisted.1,(deliveries_ordered hrun hphase hlisted.1).1⟩

end ChatServer
