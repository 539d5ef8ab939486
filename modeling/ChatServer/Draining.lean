import ChatServer.Farewell
import ChatServer.Listening
import ChatServer.Rounds
import ChatServer.Wakeup

/-! What is queued gets out: one event for a socket that can be written again is enough. -/
set_option autoImplicit false

namespace ChatServer
open ByteString Memory Execution Sweep Relation

/-- What waits in the linked list, packet by packet, each from its offset on. -/
def MsgQueue.unsentPackets (q : MsgQueue) (h : Heap MsgPacket) : List Bytes :=
  (q.path h).map (fun a => match h.get a with
    | none => []
    | some m => m.packetData.drop m.offset)

theorem QueueRep.unsentPackets {h : Heap MsgPacket} {q : MsgQueue} {as : List Nat}
    {xs : List Pkt} (hq : QueueRep h q as xs) : q.unsentPackets h = xs.map Pkt.unsent := by
  have hpath : q.path h = as := by
    unfold MsgQueue.path
    rw [hq.count]
    exact hq.chain.walk_eq
  unfold MsgQueue.unsentPackets
  rw [hpath]
  refine hq.chain.map_eq (f := fun cell => match cell with
    | none => []
    | some m => m.packetData.drop m.offset) ?_
  rintro m x ⟨hdata,hoff,-,-⟩
  simp only
  rw [hdata,hoff]
  exact List.drop_left

section Schedules
variable {n : Nat} {sends : List SendRes} {msg : Bytes} {msgs : List Bytes}

theorem takesEach_accepts (hne : msg ≠ [])
    (h : takesEach (.accepts n :: sends) (msg :: msgs) = true) : n ≠ 0 ∧
      ((n < msg.length ∧ takesEach sends (msg.drop n :: msgs) = true) ∨
        (msg.length ≤ n ∧ takesEach sends msgs = true)) := by
  obtain ⟨b,m,rfl⟩ := List.exists_cons_of_ne_nil hne
  unfold takesEach at h
  rw [List.length_cons] at h ⊢
  by_cases hn : n = 0
  · simp [takes,hn] at h
  · simp only [takes,hn,if_false] at h
    refine ⟨hn,?_⟩
    by_cases hlt : n < m.length+1
    · refine .inl ⟨hlt,?_⟩
      unfold takesEach
      rw [List.length_drop,List.length_cons]
      exact h
    · refine .inr ⟨Nat.not_lt.mp hlt,?_⟩
      have hall : m.length+1-n = 0 := by omega
      rw [hall] at h
      cases sends <;> simpa [takes] using h

theorem takesEach_interrupted (hne : msg ≠ [])
    (h : takesEach (.interrupted :: sends) (msg :: msgs) = true) :
    takesEach sends (msg :: msgs) = true := by
  obtain ⟨b,m,rfl⟩ := List.exists_cons_of_ne_nil hne
  unfold takesEach at h ⊢
  simpa [takes] using h

theorem takesEach_moves (hne : msg ≠ []) (h : takesEach sends (msg :: msgs) = true) :
    ∃ r rest, sends = r :: rest ∧ (r = .interrupted ∨ ∃ n, r = .accepts n) := by
  obtain ⟨b,m,rfl⟩ := List.exists_cons_of_ne_nil hne
  unfold takesEach at h
  cases sends with
  | nil => cases h
  | cons r rest =>
    cases r with
    | accepts n => exact ⟨_,rest,rfl,.inr ⟨n,rfl⟩⟩
    | interrupted => exact ⟨_,rest,rfl,.inl rfl⟩
    | wouldBlock => cases h
    | fails => cases h

end Schedules

/-- The whole queue went out, and nothing else changed on the wire. -/
structure Drained (v v' : View) : Prop where
  empty : v'.queue = []
  wire : wire v'.sock.trace = wire v.sock.trace ++ unsentBytes v.queue
  closed : v'.info.closed = v.info.closed

namespace View
variable {p : Nat} {v : View}

theorem setEpollout_closed (v : View) (on : Bool) :
    (v.setEpollout on p).info.closed = v.info.closed := by
  unfold setEpollout
  split
  · rfl
  · simp only
    split <;> rfl

/-- `client_try_write` goes through the queue packet by packet, and each may need many writes. -/
theorem tryWriteLoop_drained (sends : List SendRes) (v : View)
    (h : takesEach sends (v.queue.map Pkt.unsent) = true) :
    (v.tryWriteLoop p sends).2 = 0 ∧ Drained v (v.tryWriteLoop p sends).1 := by
  have hnone : ∀ (i : ClientInfo) (k : Sock) (sends : List SendRes),
      ((View.mk i k []).tryWriteLoop p sends).2 = 0 ∧
        Drained ⟨i,k,[]⟩ ((View.mk i k []).tryWriteLoop p sends).1 := by
    intro i k sends
    rw [tryWriteLoop_empty]
    refine ⟨rfl,setEpollout_queue _ _,?_,setEpollout_closed _ _⟩
    rw [setEpollout_wire]
    simp [unsentBytes]
  induction sends generalizing v with
  | nil =>
    obtain ⟨i,k,queue⟩ := v
    cases queue with
    | nil => exact hnone i k []
    | cons x q =>
      have htakes : takesEach [] (x.unsent :: q.map Pkt.unsent) = true := h
      obtain ⟨r,rest,hsends,-⟩ := takesEach_moves x.pending htakes
      cases hsends
  | cons r sends ih =>
    obtain ⟨i,k,queue⟩ := v
    cases queue with
    | nil => exact hnone i k (r :: sends)
    | cons x q =>
      have htakes : takesEach (r :: sends) (x.unsent :: q.map Pkt.unsent) = true := h
      obtain ⟨_,_,hsends,hmoves⟩ := takesEach_moves x.pending htakes
      cases hsends
      unfold tryWriteLoop
      rcases hmoves with rfl | ⟨n,rfl⟩
      · obtain ⟨hret,hdrained⟩ := ih ⟨i,k.withSends sends,x :: q⟩
          (takesEach_interrupted x.pending htakes)
        exact ⟨hret,hdrained.empty,hdrained.wire,hdrained.closed⟩
      · obtain ⟨hn,hcases⟩ := takesEach_accepts x.pending htakes
        simp only [hn,if_false]
        rcases hcases with ⟨hlt,hrest⟩ | ⟨hle,hrest⟩
        · rw [dif_pos hlt]
          obtain ⟨hret,hdrained⟩ := ih
            ⟨i,(k.withSends sends).accept .queued (x.unsent.take n),x.advance n hlt :: q⟩ hrest
          refine ⟨hret,hdrained.empty,hdrained.wire.trans ?_,hdrained.closed⟩
          have hsplit : x.unsent.take n ++ (x.unsent.drop n ++ unsentBytes q) =
              x.unsent ++ unsentBytes q := by rw [← List.append_assoc,List.take_append_drop]
          simpa [unsentBytes,Pkt.advance] using hsplit
        · rw [dif_neg (Nat.not_lt.mpr hle)]
          obtain ⟨hret,hdrained⟩ := ih
            ⟨i,(k.withSends sends).accept .queued (x.unsent.take n),q⟩ hrest
          refine ⟨hret,hdrained.empty,hdrained.wire.trans ?_,hdrained.closed⟩
          simp [unsentBytes,List.take_of_length_le hle]

theorem sendNow_drained (h : takesEach v.sock.oracle.sends (v.queue.map Pkt.unsent) = true) :
    Drained v (v.sendNow p) := by
  obtain ⟨hret,hdrained⟩ := tryWriteLoop_drained (p := p) v.sock.oracle.sends v h
  unfold sendNow tryWrite
  simp only [hret]
  exact hdrained

end View

section Turns
variable {w w' : World} {R : Room} {p : Nat}

theorem mem_sweep_open (hp : p ∈ R.members) (hopen : (R.view p).info.closed = false) :
    p ∈ sweep R.closedFlag R.members := by
  rcases List.mem_append.mp ((sweep_perm R.closedFlag R.members).mem_iff.mp hp) with hstays | hgone
  · exact hstays
  · have hbad := swept_all_bad R.members p hgone
    unfold Room.closedFlag at hbad
    rw [hopen] at hbad
    cases hbad

def Action.writable (fd : Nat) : Ready := .sock fd ⟨false,true,false,false,false⟩

theorem epollWait_writable (h : Refines w R) (hp : p ∈ R.members) (hmasked : Masked (R.view p)) :
    epollWait w [Action.writable (R.view p).info.clientFd] =
      [⟨.ptr p,⟨false,(R.view p).info.epolloutEnabled,false,false,false⟩⟩] := by
  obtain ⟨A,hrep⟩ := h
  obtain ⟨r,hr,-,hout,-⟩ := hmasked.mask
  obtain ⟨q,-,hk,-,hptr⟩ := hrep.owns p hp
  have hreg : r.ptr = p := by
    rw [hr] at hptr
    exact Option.some.inj hptr
  unfold epollWait Action.writable
  simp [epollEvent,hk,hr,hreg,reported,hout,maxEvents]

/-- A member that waits for EPOLLOUT writes, and one that does not has nothing to write. -/
theorem dispatch_writable (h : Refines w R) (hp : p ∈ R.members)
    (hopen : (R.view p).info.closed = false)
    (hwoken : (R.view p).info.epolloutEnabled = true ↔ (R.view p).queue ≠ [])
    (htakes : takesEach (R.view p).sock.oracle.sends ((R.view p).queue.map Pkt.unsent) = true) :
    ∃ w' S, dispatch w ⟨.ptr p,⟨false,(R.view p).info.epolloutEnabled,false,false,false⟩⟩ [] =
      .ok w' ∧ Refines w' S ∧ S.members = R.members ∧ Drained (R.view p) (S.view p) := by
  have href := h
  obtain ⟨A,hrep⟩ := h
  obtain ⟨q,hc,-⟩ := hrep.access hp
  have hshut : ((R.view p).info.withQueue q).closed = false := hopen
  unfold dispatch
  simp only [hc,ok_bind,hshut,Bool.false_eq_true,if_false,Bool.or_false,pure_bind,Int.lt_irrefl]
  by_cases hout : (R.view p).info.epolloutEnabled = true
  · obtain ⟨w',hwrite,hS⟩ := writeEvent_refines href hp
    rw [if_pos hout]
    refine ⟨w',R.set p ((R.view p).sendNow p),hwrite,hS,rfl,?_⟩
    rw [Room.view_set_self]
    exact View.sendNow_drained htakes
  · have hempty : (R.view p).queue = [] := by
      by_contra hne
      exact hout (hwoken.mpr hne)
    rw [if_neg hout]
    refine ⟨w,R,rfl,href,rfl,hempty,?_,rfl⟩
    simp [hempty,unsentBytes]

end Turns

/-- From every state at the top of the loop, one event for a socket that takes what waits in
its client's queue is enough: the queue is empty after it, and all of it is on the wire. -/
theorem writable_drains {acts : List Action} {s : Sys} {p : Nat} {c : ClientInfo} {k : Sock}
    (hrun : run step Sys.init acts = .ok s) (htop : s.phase = .top)
    (hflag : s.world.serverShutdown = false) (h : Listed s p c k) (hopen : c.closed = false)
    (hmods : ModsOk k.trace)
    (htakes : takesEach k.oracle.sends (c.msgQueue.unsentPackets s.world.packets) = true) :
    ∃ s' c' k', run step s (Action.turn [Action.writable c.clientFd] []) = .ok s' ∧
      s'.phase = .top ∧ Listed s' p c' k' ∧ c'.closed = false ∧ c'.msgQueue.head = none ∧
      wire k'.trace = wire k.trace ++ c.msgQueue.unsent s.world.packets := by
  have hphase : s.phase ≠ .done := by simp [htop]
  obtain ⟨R,htracks,hseated,hacts⟩ := run_tracks hrun hphase
  obtain ⟨hp,hseats⟩ := htracks.seats hseated h
  obtain ⟨as,hq⟩ := hseats.queue
  have hview : (R.seat p).view = R.view p := rfl
  have hsock : k = (R.view p).sock := hseats.sock
  have hopenR : (R.view p).info.closed = false := by
    rw [← hview,hseats.closed]
    exact hopen
  have hfd : c.clientFd = (R.view p).info.clientFd := by
    rw [hseats.info]
    rfl
  have hwoken := hseats.reachable.woken hopenR (hsock ▸ hmods)
  have hmasked : Masked (R.view p) := hseats.reachable.masked
  rw [hq.unsentPackets,hsock] at htakes
  obtain ⟨w₁,hreap,href₁⟩ := reapPass_sweeps htracks.refines htracks.mutex
  have hp₁ := mem_sweep_open hp hopenR
  have hevents := epollWait_writable href₁ hp₁ hmasked
  obtain ⟨w₂,S,hdispatch,href₂,hmembers,hdrained⟩ :=
    dispatch_writable href₁ hp₁ hopenR hwoken htakes
  have hpS : p ∈ S.members := by
    rw [hmembers]
    exact hp₁
  obtain ⟨A,hrep⟩ := href₂
  obtain ⟨q₂,hc₂,hk₂,hq₂,-⟩ := hrep.owns p hpS
  refine ⟨⟨w₂,.top⟩,_,_,?_,rfl,⟨?_,hc₂,hk₂⟩,?_,?_,?_⟩
  · have hfirst : step s (.server ⟨false,[Action.writable c.clientFd],[]⟩) =
        .ok ⟨w₁,.batch [⟨.ptr p,⟨false,(R.view p).info.epolloutEnabled,false,false,false⟩⟩]⟩ := by
      unfold step
      simp only [htop,hflag,hreap,ok_bind,hfd,hevents]
      rfl
    unfold Action.turn
    simp only [List.map_cons,List.map_nil,List.cons_append,List.nil_append,run_cons,hfirst,
      Except.bind]
    unfold step
    simp only [hdispatch,ok_bind]
    rfl
  · rw [hrep.members]
    exact hpS
  · exact hdrained.closed.trans hopenR
  · exact hq₂.head_none.mpr hdrained.empty
  · rw [hdrained.wire,hq.unsent,hsock]
    rfl

def Action.takesAgain : List Action :=
  slowReader ++ [.plan 6 { Oracle.quiet with sends := List.replicate 9 (.accepts 4) }]

theorem writable_drains_takesAgain : ∃ s c k, run step Sys.init Action.takesAgain = .ok s ∧
    Listed s 2 c k ∧ c.msgQueue.head ≠ none ∧ ∃ s' c' k',
      run step s (Action.turn [Action.writable c.clientFd] []) = .ok s' ∧
      s'.phase = .top ∧ Listed s' 2 c' k' ∧ c'.closed = false ∧ c'.msgQueue.head = none ∧
      wire k'.trace = wire k.trace ++ c.msgQueue.unsent s.world.packets := by
  obtain ⟨s,hrun,c,k,-,hlisted,htest⟩ := reaches_listed
    (show reachesListed Action.takesAgain 2 (fun s c k => decide (s.phase = .top ∧
      s.world.serverShutdown = false ∧ c.closed = false ∧ ModsOk k.trace ∧
      takesEach k.oracle.sends (c.msgQueue.unsentPackets s.world.packets) = true ∧
      c.msgQueue.head ≠ none)) = true by decide +kernel)
  obtain ⟨htop,hflag,hopen,hmods,htakes,hhead⟩ := of_decide_eq_true htest
  exact ⟨s,c,k,hrun,hlisted,hhead,
    writable_drains hrun htop hflag hlisted hopen hmods htakes⟩

end ChatServer
