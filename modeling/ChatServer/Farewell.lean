import ChatServer.Terminal
import ChatServer.Delivery
import ChatServer.ReapPass

/-! The end of a run: the notice is offered to every client once more, and what
the clean-up after it finds in the queues is freed, not sent. -/
set_option autoImplicit false

namespace ChatServer
open ByteString Memory Execution

def shutdownNotice : Bytes := frame msgTypeNormal shutdownMessage

def Sock.allocates (k : Sock) : Bool :=
  let alloc := k.oracle.packets.headD ⟨true,some 0⟩
  alloc.data && alloc.node.isSome

theorem Pkt.unsent_length (x : Pkt) : x.unsent.length = x.unsent.length-1+1 := by
  have hpos := List.length_pos_iff.mpr x.pending
  omega

theorem takes_pending (x : Pkt) (sends : List SendRes) :
    takes sends x.unsent.length = takes sends (x.unsent.length-1+1) := by
  rw [← x.unsent_length]

namespace View
variable {p : Nat}

theorem setEpollout_wire (v : View) (on : Bool) :
    wire (v.setEpollout on p).sock.trace = wire v.sock.trace := by
  unfold setEpollout Sock.epollCtlMod
  split
  · rfl
  · simp only
    split <;> simp [wire]

theorem arm_wire (v : View) : wire (v.arm p).sock.trace = wire v.sock.trace := by
  unfold arm
  split
  · rfl
  · exact setEpollout_wire v true

theorem enqueue_wire (v : View) (index : Nat) (msg : Bytes) :
    wire (v.enqueue index msg).sock.trace = wire v.sock.trace := by
  simp [enqueue,wire]

theorem tryWriteLoop_empty (sends : List SendRes) (i : ClientInfo) (k : Sock) :
    (View.mk i k []).tryWriteLoop p sends = ((View.mk i k []).setEpollout false p,0) := by
  unfold tryWriteLoop
  rfl

theorem tryWriteLoop_takes {sends rest : List SendRes} {x : Pkt} (v : View)
    (hqueue : v.queue = [x]) (htakes : takes sends x.unsent.length = some rest) :
    (v.tryWriteLoop p sends).2 = 0 ∧
      wire (v.tryWriteLoop p sends).1.sock.trace = wire v.sock.trace ++ x.unsent := by
  obtain ⟨i,k,queue⟩ := v
  cases hqueue
  induction sends generalizing x k with
  | nil =>
    rw [takes_pending x] at htakes
    cases htakes
  | cons r sends ih =>
    unfold tryWriteLoop
    cases r with
    | wouldBlock =>
      rw [takes_pending x] at htakes
      cases htakes
    | fails =>
      rw [takes_pending x] at htakes
      cases htakes
    | interrupted =>
      rw [takes_pending x] at htakes
      exact ih (by rw [takes_pending x]; exact htakes) (k.withSends sends)
    | accepts m =>
      by_cases hm : m = 0
      · rw [takes_pending x] at htakes
        simp [takes,hm] at htakes
      · have hleft : takes sends (x.unsent.length-m) = some rest := by
          rw [takes_pending x] at htakes
          simp only [takes,hm,if_false] at htakes
          rw [← x.unsent_length] at htakes
          exact htakes
        simp only [hm,if_false]
        split
        · rename_i hlt
          have hadvance : takes sends (x.advance m hlt).unsent.length = some rest := by
            simpa [Pkt.advance,List.length_drop] using hleft
          have hstep := ih hadvance ((k.withSends sends).accept .queued (x.unsent.take m))
          refine ⟨hstep.1,hstep.2.trans ?_⟩
          simp [Pkt.advance]
        · rename_i hge
          have htake : x.unsent.take m = x.unsent := List.take_of_length_le (by omega)
          rw [tryWriteLoop_empty]
          refine ⟨rfl,(setEpollout_wire _ false).trans ?_⟩
          simp [htake]

theorem offer_wire (v : View) (index : Nat) (msg : Bytes) {rest : List SendRes}
    (hopen : v.info.closed = false)
    (hroom : pendingBytes v.queue+(headerSize+msg.length) ≤ msgSizeLimit)
    (htakes : takes v.sock.oracle.sends (frame msgTypeNormal msg).length = some rest) :
    wire (v.offer p index false msg).sock.trace = wire v.sock.trace ++
      (if v.queue = [] ∧ v.info.epolloutEnabled = false ∧ v.sock.allocates = true then
        frame msgTypeNormal msg else []) := by
  have hnote : wire (v.noteOffer index false msg.length).sock.trace = wire v.sock.trace := by
    simp [noteOffer,wire]
  have hclosed : ¬ (v.noteOffer index false msg.length).info.closed = true := by
    simpa [noteOffer] using hopen
  have halloc : (v.noteOffer index false msg.length).nextAlloc = v.sock.allocates := rfl
  unfold offer
  simp only [Bool.false_eq_true,if_false,if_neg hclosed,halloc]
  by_cases hmemory : v.sock.allocates = false
  · rw [if_pos hmemory]
    simpa [hmemory,dropAlloc] using hnote
  · have hlimit : ¬ pendingBytes (v.noteOffer index false msg.length).dropAlloc.queue +
        (headerSize+msg.length) > msgSizeLimit := Nat.not_lt.mpr hroom
    rw [if_neg hmemory,if_neg hlimit]
    have hyes : v.sock.allocates = true := by simpa using hmemory
    by_cases hnow : v.info.epolloutEnabled = false ∧ v.queue = []
    · rw [if_pos ⟨hnow.1,hnow.2⟩,if_pos ⟨hnow.2,hnow.1,hyes⟩]
      have hqueue : ((v.noteOffer index false msg.length).dropAlloc.enqueue index msg).queue =
          [Pkt.mk [] (frame msgTypeNormal msg) (frame_ne_nil _ _)] := by
        simp [enqueue,dropAlloc,noteOffer,hnow.2]
      obtain ⟨hret,hwire⟩ := tryWriteLoop_takes (p := p) _ hqueue htakes
      rw [arm_wire]
      unfold sendNow tryWrite
      have hsends : ((v.noteOffer index false msg.length).dropAlloc.enqueue index
          msg).sock.oracle.sends = v.sock.oracle.sends := rfl
      simp only [hsends,hret]
      rw [if_neg (by decide),hwire,enqueue_wire]
      exact congrArg (· ++ frame msgTypeNormal msg) hnote
    · rw [if_neg (fun h => hnow ⟨h.1,h.2⟩),if_neg (fun h => hnow ⟨h.2.1,h.1⟩),arm_wire,enqueue_wire,
        List.append_nil]
      exact hnote

end View

def Fades (w w' : World) : Prop := ∀ fd k', w'.socks.get fd = some k' →
  ∃ k, w.socks.get fd = some k ∧ k'.trace = k.trace

namespace Fades
variable {w w' w'' : World}

theorem refl (w : World) : Fades w w := fun _ k' h => ⟨k',h,rfl⟩

theorem trans (h : Fades w w') (h' : Fades w' w'') : Fades w w'' := by
  intro fd k'' hk''
  obtain ⟨k',hk',ht'⟩ := h' fd k'' hk''
  obtain ⟨k,hk,ht⟩ := h fd k' hk'
  exact ⟨k,hk,ht'.trans ht⟩

theorem onSock (w : World) (fd : Nat) {f : Sock → Sock} (hf : ∀ k, (f k).trace = k.trace) :
    Fades w (w.onSock fd f) := by
  unfold World.onSock
  cases hk : w.socks.get fd with
  | none => exact refl w
  | some k =>
    intro fd' k' hk'
    by_cases he : fd' = fd
    · subst he
      have hput : (w.socks.set fd' (f k)).get fd' = some k' := hk'
      rw [Heap.get_set_self] at hput
      cases hput
      exact ⟨k,hk,hf k⟩
    · exact ⟨k',(Heap.get_set_of_ne _ _ he).symm.trans hk',rfl⟩

end Fades

theorem freeQueues_fades (w : World) : Always (freeQueues w) (Fades w) := by
  unfold freeQueues
  generalize w.clientList = l
  induction l generalizing w with
  | nil => exact Fades.refl w
  | cons p l ih =>
    rw [List.foldlM_cons]
    refine Holds.bind (P := Fades w) ?_ (fun w₁ h₁ => (ih w₁).mono (fun w₂ h₂ => h₁.trans h₂))
    refine (freeClientQueue_frame w p).mono (fun w₁ h₁ fd k' hk' => ?_)
    rw [h₁.2] at hk'
    exact ⟨k',hk',rfl⟩

theorem cleanupClient_fades (w : World) (p : Nat) :
    Always (cleanupClient w p) (fun res => Fades w res.1) := by
  unfold cleanupClient closeFd
  refine (Always.trivial _).bind (fun c _ => ?_)
  refine Holds.bind (P := fun res : World × Int => Fades w res.1) ?_ ?_
  · refine (Always.trivial _).bind (fun k _ => ?_)
    intro fd k' hk'
    by_cases he : fd = c.clientFd
    · subst he
      have hfree : (w.socks.free c.clientFd).get c.clientFd = some k' := hk'
      rw [Heap.get_free_self] at hfree
      cases hfree
    · exact ⟨k',(Heap.get_free_of_ne _ he).symm.trans hk',rfl⟩
  · rintro ⟨w₁,r⟩ h₁
    simp only
    split <;> exact h₁

theorem removeAllClients_fades (w : World) :
    Always (removeAllClients w) (fun res => Fades w res.1) := by
  have hloop : ∀ (l : List Nat) (w : World),
      Always (removeAllClientsLoop l w) (fun res => Fades w res.1) := by
    intro l
    induction l with
    | nil => exact fun w => Fades.refl w
    | cons p l ih =>
      intro w
      unfold removeAllClientsLoop
      refine (Always.trivial _).bind (fun c _ => ?_)
      refine (cleanupClient_fades w p).bind ?_
      rintro ⟨w₁,r⟩ h₁
      simp only
      split
      · exact h₁
      · exact (ih w₁).mono (fun res h => h₁.trans h)
  unfold removeAllClients World.lock
  split
  · exact True.intro
  · exact hloop _ { w with clientMutex := true }

/-- After the final broadcast the server writes to nobody. -/
theorem closing_fades {acts : List Action} {s s' : Sys} (hclosing : s.phase = .closing)
    (hrun : run step s acts = .ok s') : Fades s.world s'.world := by
  have hinv : (s'.phase = .closing ∨ s'.phase = .done) ∧ Fades s.world s'.world := by
    refine run_induction
      (I := fun t => (t.phase = .closing ∨ t.phase = .done) ∧ Fades s.world t.world) ?_
      ⟨.inl hclosing,Fades.refl _⟩ hrun
    rintro t a t' ⟨hphase,hfades⟩ hstep
    cases a with
    | net fd bs fin reset =>
      cases hstep
      exact ⟨hphase,hfades.trans (Fades.onSock _ _ (fun _ => rfl))⟩
    | plan fd oracle =>
      cases hstep
      exact ⟨hphase,hfades.trans (Fades.onSock _ _ (fun _ => rfl))⟩
    | clock ts =>
      cases hstep
      exact ⟨hphase,hfades⟩
    | server i =>
      unfold step at hstep
      rcases hphase with hc | hd
      · simp only [hc] at hstep
        have hclean : Always (do
            let w ← freeQueues t.world
            let res ← removeAllClients w
            pure (Sys.mk res.1 .done)) (fun u => u.phase = .done ∧ Fades t.world u.world) := by
          refine (freeQueues_fades t.world).bind (fun w₁ h₁ => ?_)
          refine (removeAllClients_fades w₁).bind ?_
          rintro ⟨w₂,r⟩ h₂
          exact ⟨rfl,h₁.trans h₂⟩
        obtain ⟨hdone,hstill⟩ := hclean.of_ok hstep
        exact ⟨.inr hdone,hfades.trans hstill⟩
      · simp only [hd] at hstep
        cases hstep
        exact ⟨.inr hd,hfades⟩
  exact hinv.2

section Runs
variable {acts : List Action} {s : Sys} {p : Nat} {c : ClientInfo} {k : Sock}

/-- What a client is sent at the end: the rest of its queue and the whole notice,
exactly when nothing was queued for it, no EPOLLOUT was awaited and there was
memory for the packet. -/
theorem farewell_complete_iff {rest : List SendRes} (hrun : run step Sys.init acts = .ok s)
    (htop : s.phase = .top) (hshut : s.world.serverShutdown = true) (h : Listed s p c k)
    (hopen : c.closed = false)
    (hroom : c.msgQueue.queuedBytes+shutdownNotice.length ≤ msgSizeLimit)
    (htakes : takes k.oracle.sends shutdownNotice.length = some rest) (i : Input) :
    ∃ s₁ k₁, step s (.server i) = .ok s₁ ∧ s₁.phase = .closing ∧
      s₁.world.socks.get c.clientFd = some k₁ ∧
      (∀ acts' s₂ k₂, run step s₁ acts' = .ok s₂ → s₂.world.socks.get c.clientFd = some k₂ →
        wire k₂.trace = wire k₁.trace) ∧
      (wire k₁.trace = wire k.trace ++ c.msgQueue.unsent s.world.packets ++ shutdownNotice ↔
        c.msgQueue.head = none ∧ c.epolloutEnabled = false ∧ k.allocates = true) := by
  obtain ⟨R,htracks,hseated,-⟩ := run_tracks hrun (by rw [htop]; exact fun h => by cases h)
  obtain ⟨hp,hseats⟩ := htracks.seats hseated h
  obtain ⟨as,hq⟩ := hseats.queue
  obtain ⟨w₁,hcast,A,hrep⟩ := broadcast_refines htracks.refines htracks.mutex none shutdownMessage
  obtain ⟨q₁,-,hk₁,-⟩ := hrep.owns p hp
  have hview : (R.broadcast none shutdownMessage).view p =
      (R.view p).offer p R.broadcasts.length false shutdownMessage := by
    simp [Room.broadcast,hp]
  rw [hview] at hk₁
  have hinfo := hseats.info
  have hsock : k = (R.view p).sock := hseats.sock
  have hfd : ((R.view p).offer p R.broadcasts.length false shutdownMessage).info.clientFd =
      c.clientFd := by
    rw [(Quiet.offer (R.view p) p _ false _).clientFd,hinfo]
    rfl
  have hclosed : (R.view p).info.closed = false := by
    rw [hinfo] at hopen
    exact hopen
  have harmed : (R.view p).info.epolloutEnabled = c.epolloutEnabled := by
    rw [hinfo]
    rfl
  have hqueue : (R.view p).queue = [] ↔ c.msgQueue.head = none := hq.head_none.symm
  have hbytes : c.msgQueue.queuedBytes = pendingBytes (R.view p).queue := hq.bytes
  have hwire := View.offer_wire (p := p) (R.view p) R.broadcasts.length shutdownMessage hclosed
    (by rw [← frame_length msgTypeNormal,← hbytes]; exact hroom) (by rw [← hsock]; exact htakes)
  simp only [← hsock,harmed,hqueue] at hwire
  refine ⟨⟨w₁,.closing⟩,_,?_,rfl,hfd ▸ hk₁,?_,?_⟩
  · unfold step
    simp only [htop,hshut,if_true,hcast,ok_bind]
    rfl
  · intro acts' s₂ k₂ hrun₂ hk₂
    obtain ⟨k',hk',htrace⟩ := closing_fades rfl hrun₂ c.clientFd k₂ hk₂
    rw [← hfd] at hk'
    rw [htrace,Option.some.inj (hk'.symm.trans hk₁)]
  · rw [hwire,hq.unsent]
    constructor
    · intro heq
      by_contra hnot
      rw [if_neg hnot,List.append_nil] at heq
      have hlen := congrArg List.length heq
      have hpos := List.length_pos_iff.mpr (frame_ne_nil msgTypeNormal shutdownMessage)
      simp only [List.length_append,shutdownNotice] at hlen
      omega
    · rintro ⟨hnone,harm,hmemory⟩
      rw [if_pos ⟨hnone,harm,hmemory⟩]
      have hempty : (R.view p).queue = [] := hqueue.mpr hnone
      have hseat : (R.seat p).view.queue = [] := hempty
      simp [hseat,unsentBytes,shutdownNotice]

end Runs

theorem run_single {s s' : Sys} {a : Action} (h : run step s [a] = .ok s') :
    step s a = .ok s' := by
  rw [run_cons] at h
  cases hstep : step s a with
  | error e =>
    rw [hstep] at h
    cases h
  | ok t =>
    rw [hstep] at h
    exact h

def Action.shutsDown (before : List Action) : List Action :=
  before ++ .plan 6 { Oracle.quiet with sends := List.replicate 9 (.accepts 100) } ::
    hears 5 (frame msgTypeNormal (ascii "/shutdown"))

theorem farewell_complete_iff_annAndBob : ∃ s c k s₁ k₁,
    run step Sys.init (Action.shutsDown Action.annAndBob) = .ok s ∧ Listed s 2 c k ∧
      step s Action.next = .ok s₁ ∧ s₁.world.socks.get c.clientFd = some k₁ ∧
      wire k₁.trace = wire k.trace ++ c.msgQueue.unsent s.world.packets ++ shutdownNotice := by
  obtain ⟨s,hrun,c,k,-,hlisted,htest⟩ := reaches_listed
    (show reachesListed (Action.shutsDown Action.annAndBob) 2 (fun s c k => decide (
      s.phase = .top ∧ s.world.serverShutdown = true ∧ c.closed = false ∧
      c.msgQueue.queuedBytes+shutdownNotice.length ≤ msgSizeLimit ∧
      takes k.oracle.sends shutdownNotice.length = some (List.replicate 8 (.accepts 100)) ∧
      c.msgQueue.head = none ∧ c.epolloutEnabled = false ∧ k.allocates = true)) = true
      by decide +kernel)
  obtain ⟨htop,hshut,hopen,hroom,htakes,hsend⟩ := of_decide_eq_true htest
  obtain ⟨s₁,k₁,hstep,-,hk₁,-,hiff⟩ :=
    farewell_complete_iff hrun htop hshut hlisted hopen hroom htakes ⟨false,[],[]⟩
  exact ⟨s,c,k,s₁,k₁,hrun,hlisted,hstep,hk₁,hiff.mpr hsend⟩

/-- Bytes are queued for bob, and his socket would take them and the notice, but
he is sent nothing more until his descriptor is closed. -/
theorem farewell_discarded : ∃ s c k s₁ k₁ s₂,
    run step Sys.init (Action.shutsDown Action.slowReader) = .ok s ∧ s.phase = .top ∧
      s.world.serverShutdown = true ∧ Listed s 2 c k ∧ c.closed = false ∧
      c.msgQueue.queuedBytes+shutdownNotice.length ≤ msgSizeLimit ∧
      k.oracle.sends = List.replicate 9 (.accepts 100) ∧
      c.msgQueue.unsent s.world.packets ≠ [] ∧
      step s Action.next = .ok s₁ ∧ s₁.world.socks.get c.clientFd = some k₁ ∧
      wire k₁.trace = wire k.trace ∧ step s₁ Action.next = .ok s₂ ∧ s₂.phase = .done ∧
      s₂.world.socks.get c.clientFd = none := by
  obtain ⟨s,hrun,c,k,-,hlisted,htest⟩ := reaches_listed
    (show reachesListed (Action.shutsDown Action.slowReader) 2 (fun s c k => decide (
      s.phase = .top ∧ s.world.serverShutdown = true ∧ c.closed = false ∧
      c.msgQueue.queuedBytes+shutdownNotice.length ≤ msgSizeLimit ∧
      k.oracle.sends = List.replicate 9 (.accepts 100) ∧
      c.msgQueue.unsent s.world.packets ≠ []) && (run step s [Action.next]).toOption.any (fun s₁ =>
        (s₁.world.socks.get c.clientFd).any (fun k₁ => (run step s₁ [Action.next]).toOption.any
          (fun s₂ => decide (wire k₁.trace = wire k.trace ∧ s₂.phase = .done ∧
            s₂.world.socks.get c.clientFd = none))))) = true
      by decide +kernel)
  simp only [Bool.and_eq_true,decide_eq_true_eq] at htest
  obtain ⟨⟨htop,hshut,hopen,hroom,hplan,hqueue⟩,hend⟩ := htest
  obtain ⟨s₁,hs₁,hend⟩ := toOption_any hend
  obtain ⟨k₁,hk₁,hend⟩ := (Option.any_eq_true _ _).mp hend
  obtain ⟨s₂,hs₂,hend⟩ := toOption_any hend
  obtain ⟨hwire,hdone,hgone⟩ := of_decide_eq_true hend
  exact ⟨s,c,k,s₁,k₁,s₂,hrun,htop,hshut,hlisted,hopen,hroom,hplan,hqueue,
    run_single hs₁,hk₁,hwire,run_single hs₂,hdone,hgone⟩

end ChatServer
