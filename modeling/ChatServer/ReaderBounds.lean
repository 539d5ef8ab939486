import ChatServer.Handover

/-! The reads of `handle_client_read` stay within its buffers. -/
set_option autoImplicit false

namespace ChatServer
open ByteString Memory Execution

/-- What `handle_client_read` asks `read` for: the offset in its buffer and the count. -/
def ClientInfo.request (c : ClientInfo) : Nat × Nat :=
  match c.state with
  | .readHeader => (c.headerBytesRead,sizeSub headerSize c.headerBytesRead)
  | .readPayload => (c.payloadBytesRead,sizeSub c.expectedPayloadLen c.payloadBytesRead)

structure InBounds (c : ClientInfo) : Prop where
  header : c.state = .readHeader → c.headerBytesRead < headerSize
  payload : c.state = .readPayload →
    c.payloadBytesRead ≤ c.expectedPayloadLen ∧ c.expectedPayloadLen ≤ bufSize

theorem CurrentFrame.inBounds {c : ClientInfo} {tail : Bytes} (h : CurrentFrame c tail) :
    InBounds c := by
  cases h with
  | header hstate hlt =>
    constructor
    · intro _
      exact hlt
    · intro hpayload
      rw [hstate] at hpayload
      cases hpayload
  | payload hstate _ _ hle hpart =>
    constructor
    · intro hheader
      rw [hstate] at hheader
      cases hheader
    · intro _
      exact ⟨by omega,hle⟩

/-- A read in one of the two states: the subtraction does not wrap around, the range lies in
the buffer, and whatever `read` returns, there are not too many bytes afterwards. -/
inductive ReadsWithin (c : ClientInfo) : Prop
  | header (hstate : c.state = .readHeader) (hlt : c.headerBytesRead < headerSize)
      (hcount : c.request.2 = headerSize-c.headerBytesRead)
      (hrange : c.request.1+c.request.2 ≤ headerSize)
      (hread : ∀ n ≤ c.request.2, ¬ c.headerBytesRead+n > headerSize)
  | payload (hstate : c.state = .readPayload)
      (hle : c.payloadBytesRead ≤ c.expectedPayloadLen) (hsize : c.expectedPayloadLen ≤ bufSize)
      (hcount : c.request.2 = c.expectedPayloadLen-c.payloadBytesRead)
      (hrange : c.request.1+c.request.2 ≤ bufSize)
      (hread : ∀ n ≤ c.request.2, ¬ c.payloadBytesRead+n > c.expectedPayloadLen)

theorem InBounds.readsWithin {c : ClientInfo} (h : InBounds c) : ReadsWithin c := by
  cases hstate : c.state with
  | readHeader =>
    have hlt := h.header hstate
    have hreq : c.request = (c.headerBytesRead,headerSize-c.headerBytesRead) := by
      simp only [ClientInfo.request,hstate,sizeSub_of_le (Nat.le_of_lt hlt)]
    refine .header hstate hlt ?_ ?_ ?_ <;> rw [hreq] <;> simp only <;> omega
  | readPayload =>
    obtain ⟨hle,hsize⟩ := h.payload hstate
    have hreq : c.request = (c.payloadBytesRead,c.expectedPayloadLen-c.payloadBytesRead) := by
      simp only [ClientInfo.request,hstate,sizeSub_of_le hle]
    refine .payload hstate hle hsize ?_ ?_ ?_ <;> rw [hreq] <;> simp only <;> omega

theorem inBounds_of_header {c : ClientInfo} (hstate : c.state = .readHeader)
    (hlt : c.headerBytesRead < headerSize) : InBounds c :=
  ⟨fun _ => hlt,fun hpayload => by rw [hstate] at hpayload; cases hpayload⟩

theorem readTurn_inBounds {c c' : ClientInfo} {k k' : Sock}
    (hturn : readTurn c k = .ok (c',k',.again)) : InBounds c' := by
  rcases readTurn_turn hturn with ⟨-,hheader⟩ | ⟨-,hpayload⟩
  · cases hheader with
    | complete _ _ _ _ hle =>
      constructor
      · intro hstate
        cases hstate
      · intro _
        exact ⟨Nat.zero_le _,hle⟩
  · cases hpayload with
    | fragment => exact inBounds_of_header rfl (Nat.zero_lt_succ 5)

theorem finishMessage_inBounds {c c' : ClientInfo} (h : finishMessage c = .ok c') :
    InBounds c' := by
  obtain ⟨i,r,-,rfl⟩ := finishMessage_eq h
  exact inBounds_of_header rfl (Nat.zero_lt_succ 5)

theorem Iterates.inBounds {p : Nat} {w w' : World} {c : ClientInfo} (h : Iterates p w w')
    (hc : w'.clients.get p = some c) : InBounds c := by
  cases h with
  | again _ _ hturn =>
    obtain rfl := Option.some.inj ((Heap.get_set_self _ _ _).symm.trans hc)
    exact readTurn_inBounds hturn
  | answered _ _ _ _ _ _ _ hfinish =>
    obtain rfl := Option.some.inj ((Heap.get_set_self _ _ _).symm.trans hc)
    exact finishMessage_inBounds hfinish

theorem Turns.inBounds {p : Nat} {w w' : World} {c' : ClientInfo} (h : Turns p w w')
    (hin : ∀ c, w.clients.get p = some c → InBounds c) (hc' : w'.clients.get p = some c') :
    InBounds c' := by
  refine h.rule (P := fun u => (∀ c, u.clients.get p = some c → InBounds c) → InBounds c')
    (fun hlast => hlast c' hc') ?_ hin
  intro u u' hi ih _
  exact ih (fun c hc => hi.inBounds hc)

section Runs
variable {acts : List Action} {s : Sys} {p : Nat} {c c' : ClientInfo} {k : Sock} {w w' : World}

/-- A listed client that is not closed is read within bounds, whatever its socket holds and
however many messages one call takes. -/
theorem reader_bounds (hrun : run step Sys.init acts = .ok s) (hphase : s.phase ≠ .done)
    (h : Listed s p c k) (hopen : c.closed = false) (hw : w.clients.get p = some c)
    (hturns : Turns p w w') (hc' : w'.clients.get p = some c') : ReadsWithin c' := by
  obtain ⟨ms,hread⟩ := listed_read hrun hphase h (refusals_foretell k.trace)
  obtain ⟨_,_,_,-,hframe,-,-⟩ := hread.parses hopen
  have hin : ∀ c', w.clients.get p = some c' → InBounds c' := by
    intro c' hget
    rw [hw] at hget
    cases hget
    exact hframe.inBounds
  exact (hturns.inBounds hin hc').readsWithin

def turned (c : ClientInfo) (k : Sock) : Option ClientInfo :=
  match readTurn c k with
  | .ok (c',_,.again) => some c'
  | _ => none

theorem turned_eq_some {c c' : ClientInfo} {k : Sock} (h : turned c k = some c') :
    ∃ k', readTurn c k = .ok (c',k',.again) := by
  unfold turned at h
  split at h
  · rename_i c₁ k₁ hturn
    cases h
    exact ⟨k₁,hturn⟩
  · cases h

theorem reader_bounds_slowReader : ∃ s c k w' c',
    run step Sys.init (Action.slowReader ++
      [.net 5 (frame msgTypeNormal (ascii "bye")) false false]) = .ok s ∧
    Listed s 1 c k ∧ Turns 1 s.world w' ∧ w'.clients.get 1 = some c' ∧
      c'.state = .readPayload ∧ ReadsWithin c' := by
  obtain ⟨s,hrun,c,k,hphase,hlisted,htest⟩ := reaches_listed
    (show reachesListed (Action.slowReader ++
      [.net 5 (frame msgTypeNormal (ascii "bye")) false false]) 1 (fun _ c k =>
        decide (c.closed = false ∧
          (turned c k).any (fun c' => decide (c'.state = .readPayload)) = true)) = true
      by decide +kernel)
  obtain ⟨hopen,hany⟩ := of_decide_eq_true htest
  obtain ⟨c',hturned,hstate⟩ := (Option.any_eq_true _ _).mp hany
  obtain ⟨k',hturn⟩ := turned_eq_some hturned
  have hturns : Turns 1 s.world (s.world.put 1 c' k') :=
    .again (World.client_eq_ok hlisted.info) (World.sock_eq_ok hlisted.sock) hturn (.start _)
  have hc' : (s.world.put 1 c' k').clients.get 1 = some c' := Heap.get_set_self _ _ _
  exact ⟨s,c,k,_,c',hrun,hlisted,hturns,hc',of_decide_eq_true hstate,
    reader_bounds hrun hphase hlisted hopen hlisted.info hturns hc'⟩

end Runs
end ChatServer
