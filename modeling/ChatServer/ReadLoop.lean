import ChatServer.Assembly

/-! What the iterations of the read loop consume, and why the loop is over in the end. -/
set_option autoImplicit false

namespace ChatServer
open ByteString Memory Execution Relation

structure EmptyPayload (c c' : ClientInfo) : Prop where
  state : c.state = .readPayload
  empty : (parseHeader c.headerBuffer.data).msgLen = 0
  expected : c.expectedPayloadLen = 0
  read : c.payloadBytesRead = 0
  next : c'.state = .readHeader
  attempt : c'.request = (0,headerSize)

/-- An iteration for `p` takes the next bytes from the socket, or completes an empty payload. -/
inductive Consumes (p : Nat) (w w' : World) : Prop
  | takes {c c' : ClientInfo} {k k' : Sock} {bs : Bytes} (hbefore : w.Shows p c k)
      (hafter : w'.Shows p c' k') (hbytes : k.inbox = bs ++ k'.inbox)
      (hempty : bs = [] → EmptyPayload c c')

/-- How the loop is over, begun with the socket `k`: it has returned, or an allocation has
failed and it has crashed. -/
inductive Over (k : Sock) : Except Fault (World × Int) → Prop
  | returned (res : World × Int) : Over k (.ok res)
  | crashed {e : Fault} (hcrash : Crash e) (hfail : ¬ Plentiful k ∨ .blockFailed ∈ k.trace) :
      Over k (.error e)

theorem CurrentFrame.emptyPayload {c c' : ClientInfo} {tail : Bytes} (h : CurrentFrame c tail)
    (hstate : c.state = .readPayload) (hfull : c.payloadBytesRead = c.expectedPayloadLen)
    (hnext : c'.state = .readHeader) (hread : c'.headerBytesRead = 0) : EmptyPayload c c' := by
  cases h with
  | header hheader =>
    rw [hheader] at hstate
    cases hstate
  | payload _ hlen _ _ hpart =>
    have hzero : c.payloadBytesRead = 0 ∧ c.expectedPayloadLen = 0 := by omega
    refine ⟨hstate,hlen.symm.trans hzero.2,hzero.2,hzero.1,hnext,?_⟩
    unfold ClientInfo.request
    rw [hnext,hread]
    rfl

section Rooms
variable {w w' : World} {R S : Room} {p : Nat}

theorem Room.Iterates.consumes (h : R.Iterates p S) (hp : p ∈ R.members) {tail : Bytes}
    (hframe : CurrentFrame (R.view p).info tail) :
    ∃ bs, (R.view p).sock.inbox = bs ++ (S.view p).sock.inbox ∧
      (bs = [] → EmptyPayload (R.view p).info (S.view p).info) := by
  cases h with
  | again hreads =>
    obtain ⟨bs,hbytes,hempty⟩ := reads_consumes hreads (by simp)
    rw [Room.view_set_self]
    refine ⟨bs,hbytes,fun hnil => ?_⟩
    obtain ⟨hstate,hfull,hswitch⟩ := hempty hnil
    obtain ⟨hnext,hread⟩ := hswitch rfl
    exact hframe.emptyPayload hstate hfull hnext hread
  | @answered v copy T r i hreads hroom hr hfinish =>
    obtain ⟨bs,hbytes,hempty⟩ := reads_consumes hreads (by simp)
    have hinbox := Room.processPayload_inbox hp hroom
    rw [Room.view_set_self]
    refine ⟨bs,by rw [hbytes,← hinbox]; rfl,fun hnil => ?_⟩
    obtain ⟨hstate,hfull,-⟩ := hempty hnil
    obtain ⟨_,_,-,rfl⟩ := finishMessage_eq hfinish
    exact hframe.emptyPayload hstate hfull rfl rfl

theorem EmptyPayload.withQueue {c c' : ClientInfo} (h : EmptyPayload c c') (q q' : MsgQueue) :
    EmptyPayload (c.withQueue q) (c'.withQueue q') :=
  ⟨h.state,h.empty,h.expected,h.read,h.next,h.attempt⟩

theorem Iterates.consumes (hi : Iterates p w w') (h : Refines w R) (hp : p ∈ R.members)
    (hfree : R.mutex = false) {tail : Bytes} (hframe : CurrentFrame (R.view p).info tail) :
    Consumes p w w' := by
  obtain ⟨S,hroom,href⟩ := hi.refines h hp hfree
  have hpS : p ∈ S.members := by
    rw [hroom.members hp]
    exact hp
  obtain ⟨bs,hbytes,hempty⟩ := hroom.consumes hp hframe
  obtain ⟨q,hbefore⟩ := h.shows hp
  obtain ⟨q',hafter⟩ := href.shows hpS
  exact .takes hbefore hafter hbytes (fun hnil => (hempty hnil).withQueue q q')

/-- Whatever the socket holds, the loop is over before its fuel is. -/
theorem loop_over (h : Refines w R) (hp : p ∈ R.members) (hfree : R.mutex = false)
    (hopen : (R.view p).info.closed = false) {tail message : Bytes}
    (hframe : CurrentFrame (R.view p).info tail)
    (hhold : Holding (R.view p).info (R.view p).sock.trace message) {fuel : Nat}
    (hfuel : readMeasure (R.view p) < fuel) :
    Over (R.view p).sock (handleClientReadLoop fuel w p) := by
  by_cases hfail : ¬ Plentiful (R.view p).sock ∨ .blockFailed ∈ (R.view p).sock.trace
  · have hloop := handleClientReadLoop_refines fuel h hp hfree hopen hfuel
    cases hres : handleClientReadLoop fuel w p with
    | error e => exact .crashed (hloop.of_error hres) hfail
    | ok res => exact .returned res
  · push Not at hfail
    obtain ⟨hplenty,hnone⟩ := hfail
    have hstored : Stored (R.view p).info message :=
      hhold.resolve_right (fun hlost => hnone hlost.2)
    obtain ⟨res,hres,-⟩ := handleClientReadLoop_ok fuel h hp hfree hfuel
      ⟨⟨tail,hframe⟩,message,hstored⟩ hplenty
    rw [hres]
    exact .returned res

end Rooms

section Runs
variable {acts : List Action} {s : Sys} {p : Nat} {c : ClientInfo} {k : Sock}

/-- The read loop ends on every input. In any state of a run, whatever has come in for an
open client, a number of iterations that only the unread bytes bound is enough. An iteration
that goes on takes a byte or has completed a payload of length zero. -/
theorem read_loop_ends (hrun : run step Sys.init acts = .ok s) (hphase : s.phase ≠ .done)
    (h : Listed s p c k) (hopen : c.closed = false) :
    (∀ fuel, 2*k.inbox.length+2 ≤ fuel → Over k (handleClientReadLoop fuel s.world p)) ∧
    ∀ w w', Turns p s.world w → w.readOnce p = .ok (w',none) → Consumes p w w' := by
  constructor
  · intro fuel hfuel
    obtain ⟨R,href,hp,hfree,tail,message,hframe,hhold⟩ :=
      turns_holding hrun hphase h hopen (.start _)
    obtain ⟨⟨q,rfl⟩,rfl⟩ := href.shown hp ⟨h.info,h.sock⟩
    have hless := readMeasure_lt (R.view p)
    exact loop_over href hp hfree hopen hframe hhold (by omega)
  · intro w w' hturns honce
    obtain ⟨R,href,hp,hfree,tail,message,hframe,-⟩ :=
      turns_holding hrun hphase h hopen hturns
    exact (readOnce_iterates honce).consumes href hp hfree hframe

def Action.sendsNothing : List Action :=
  connects 1 5 .quiet ++ hears 5 (frame msgTypeNormal (ascii "ann")) ++
    [.net 5 [0,0,0,0,msgTypeNormal,0,0,0,0,0,msgTypeNormal,0] true false]

def secondTurn (w : World) (p : Nat) : Option (World × World) :=
  match w.readOnce p with
  | .ok (w₁,none) =>
    match w₁.readOnce p with
    | .ok (w₂,none) => some (w₁,w₂)
    | _ => none
  | _ => none

theorem secondTurn_eq_some {w w₁ w₂ : World} (h : secondTurn w p = some (w₁,w₂)) :
    Turns p w w₁ ∧ w₁.readOnce p = .ok (w₂,none) := by
  unfold secondTurn at h
  split at h
  · rename_i w' hfirst
    split at h
    · rename_i w'' hsecond
      cases h
      exact ⟨(readOnce_iterates hfirst).turns (.start _),hsecond⟩
    · cases h
  · cases h

theorem read_loop_ends_sendsNothing : ∃ s c k w w',
    run step Sys.init Action.sendsNothing = .ok s ∧ Listed s 1 c k ∧
    Over k (handleClientReadLoop 26 s.world 1) ∧ w.readOnce 1 = .ok (w',none) ∧
    Consumes 1 w w' := by
  obtain ⟨s,hrun,c,k,hphase,hlisted,htest⟩ := reaches_listed
    (show reachesListed Action.sendsNothing 1 (fun s c k => decide (c.closed = false ∧
      2*k.inbox.length+2 ≤ 26) && (secondTurn s.world 1).isSome) = true by decide +kernel)
  rw [Bool.and_eq_true] at htest
  obtain ⟨hopen,hfuel⟩ := of_decide_eq_true htest.1
  obtain ⟨⟨w,w'⟩,hsecond⟩ := Option.isSome_iff_exists.mp htest.2
  obtain ⟨hturns,honce⟩ := secondTurn_eq_some hsecond
  have hends := read_loop_ends hrun hphase hlisted hopen
  exact ⟨s,c,k,w,w',hrun,hlisted,hends.1 26 hfuel,honce,hends.2 w w' hturns honce⟩

end Runs
end ChatServer
