import ChatServer.Decoding

/-! The end of a client's stream: a read that gives 0 bytes is the end in one
state of the reader and an empty payload in the other. -/
set_option autoImplicit false

namespace ChatServer
open ByteString Memory Execution

/-- The peer has closed its side, everything was read, and the next read says so. -/
structure AtEnd (k : Sock) : Prop where
  fin : k.fin = true
  empty : k.inbox = []
  read : ∀ count, (k.read count).2 = .bytes []

section Turns
variable {c : ClientInfo} {k : Sock}

theorem readHeader_atEnd (h : AtEnd k) :
    ∃ k', readHeader c k = .ok (c,k',.ret (-1)) := by
  have hread := h.read (sizeSub headerSize c.headerBytesRead)
  unfold readHeader
  rcases hr : k.read (sizeSub headerSize c.headerBytesRead) with ⟨k₁,out⟩
  rw [hr] at hread
  simp only at hread
  subst hread
  exact ⟨k₁,rfl⟩

/-- In the middle of a payload the reader takes the end for no progress. -/
theorem readPayload_atEnd (h : AtEnd k) (hle : c.expectedPayloadLen ≤ bufSize)
    (hlt : c.payloadBytesRead < c.expectedPayloadLen) :
    ∃ c' k', readPayload c k = .ok (c',k',.ret 0) ∧ c'.clientFd = c.clientFd := by
  have hread := h.read (sizeSub c.expectedPayloadLen c.payloadBytesRead)
  unfold readPayload
  rcases hr : k.read (sizeSub c.expectedPayloadLen c.payloadBytesRead) with ⟨k₁,out⟩
  rw [hr] at hread
  simp only at hread
  subst hread
  obtain ⟨b,hb⟩ := storeBytes_ok c.payloadBuffer c.payloadBytesRead [] (by
    simp only [List.length_nil]
    omega)
  simp only [hb,ok_bind,List.length_nil,Nat.add_zero,hlt,if_true]
  exact ⟨_,_,rfl,rfl⟩

theorem readTurn_atEnd {tail : Bytes} (h : AtEnd k) (hframe : CurrentFrame c tail)
    (hidle : Suspended c) : ∃ c' k' r, readTurn c k = .ok (c',k',.ret r) ∧
      c'.clientFd = c.clientFd ∧ (r = -1 ∨ r = 0) ∧ (r = -1 ↔ c.state = .readHeader) := by
  unfold readTurn
  cases hframe with
  | header hstate =>
    rw [hstate]
    obtain ⟨k',hturn⟩ := readHeader_atEnd (c := c) h
    exact ⟨c,k',-1,hturn,rfl,.inl rfl,by simp⟩
  | payload hstate _ _ hle =>
    rw [hstate]
    obtain ⟨c',k',hturn,hfd⟩ := readPayload_atEnd h hle (hidle hstate)
    exact ⟨c',k',0,hturn,hfd,.inr rfl,by simp⟩

end Turns

theorem note_put (w : World) (p : Nat) (c : ClientInfo) (k : Sock) (o : Obs) :
    ∃ w', (w.put p c k).note p o = .ok w' := by
  have hc : (w.put p c k).client p = .ok c := World.client_eq_ok (Heap.get_set_self _ _ _)
  have hk : (w.put p c k).sock c.clientFd = .ok k := World.sock_eq_ok (Heap.get_set_self _ _ _)
  unfold World.note
  simp only [hc,hk,ok_bind]
  exact ⟨_,rfl⟩

section Runs
variable {acts : List Action} {s : Sys} {p : Nat} {c : ClientInfo} {k : Sock}

/-- At the end of the stream `handle_client_read` returns -1 exactly when the
client's reader waits for a header. -/
theorem end_disconnects_iff (hrun : run step Sys.init acts = .ok s) (hphase : s.phase ≠ .done)
    (h : Listed s p c k) (hopen : c.closed = false) (hend : AtEnd k) :
    ∃ w r, handleClientRead s.world p = .ok (w,r) ∧ (r = -1 ∨ r = 0) ∧
      (r = -1 ↔ c.state = .readHeader) := by
  obtain ⟨ms,hread⟩ := listed_read hrun hphase h (refusals_foretell k.trace)
  obtain ⟨done,tail,message,-,hframe,-⟩ := hread.parses hopen
  obtain ⟨c',k',r,hturn,-,hr,hiff⟩ := readTurn_atEnd hend hframe (hread.idle hopen)
  have hc := World.client_eq_ok h.info
  have hk := World.sock_eq_ok h.sock
  obtain ⟨w,hw⟩ := note_put s.world p c' k' (.readReturned r)
  refine ⟨w,r,?_,hr,hiff⟩
  unfold handleClientRead
  simp only [hc,hk,ok_bind,handleClientReadLoop_succ,hturn,pure_eq_ok,hw]

def Action.half : List Action :=
  connects 1 5 .quiet ++ hears 5 ((frame msgTypeNormal (ascii "ann")).take 8) ++
    [.net 5 [] true false]

theorem end_disconnects_iff_half : ∃ s c k w r, run step Sys.init Action.half = .ok s ∧
    Listed s 1 c k ∧ handleClientRead s.world 1 = .ok (w,r) ∧ r = 0 := by
  obtain ⟨s,hrun,c,k,hphase,hlisted,htest⟩ := reaches_listed
    (show reachesListed Action.half 1 (fun _ c k => decide (c.closed = false ∧
      c.state = .readPayload ∧ k.fin = true ∧ k.inbox = [] ∧ k.oracle.reads = [])) = true
      by decide +kernel)
  obtain ⟨hopen,hstate,hfin,hempty,hplan⟩ := of_decide_eq_true htest
  have hend : AtEnd k := by
    refine ⟨hfin,hempty,fun count => ?_⟩
    unfold Sock.read Sock.receive
    rw [hplan,hempty,hfin]
    split <;> rfl
  obtain ⟨w,r,hcall,hr,hiff⟩ := end_disconnects_iff hrun hphase hlisted hopen hend
  refine ⟨s,c,k,w,r,hrun,hlisted,hcall,?_⟩
  rcases hr with hneg | hzero
  · have hheader := hiff.mp hneg
    rw [hstate] at hheader
    cases hheader
  · exact hzero

/-- The call returns 0, at the end of the stream, in the middle of a payload. -/
theorem end_overlooked : ∃ s c k, run step Sys.init Action.half = .ok s ∧ Listed s 1 c k ∧
    c.closed = false ∧ k.fin = true ∧ k.inbox = [] ∧ k.oracle.reads = [] ∧
    ∃ w, handleClientRead s.world 1 = .ok (w,0) := by
  obtain ⟨s,hrun,c,k,-,hlisted,htest⟩ := reaches_listed
    (show reachesListed Action.half 1 (fun s c k => decide (c.closed = false ∧ k.fin = true ∧
      k.inbox = [] ∧ k.oracle.reads = []) && match handleClientRead s.world 1 with
        | .ok (_,r) => decide (r = 0)
        | .error _ => false) = true by decide +kernel)
  simp only [Bool.and_eq_true,decide_eq_true_eq] at htest
  obtain ⟨⟨hopen,hfin,hempty,hplan⟩,hcall⟩ := htest
  refine ⟨s,c,k,hrun,hlisted,hopen,hfin,hempty,hplan,?_⟩
  cases hr : handleClientRead s.world 1 with
  | error e => simp [hr] at hcall
  | ok res =>
    obtain ⟨w,r⟩ := res
    simp only [hr,decide_eq_true_eq] at hcall
    exact ⟨w,by rw [hcall]⟩

end Runs
end ChatServer
