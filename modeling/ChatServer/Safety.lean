import ChatServer.Cleanup
import ChatServer.ReadLoop
import ChatServer.ShutdownCause
import ChatServer.Targets

/-! What can stop the server: a null pointer that an allocation has left, and nothing else;
and how it comes to its end once the shutdown flag is set. -/
set_option autoImplicit false

namespace ChatServer
open ByteString Memory Execution Relation

abbrev OnlyNull {α : Type} (x : Except Fault α) (Q : α → Prop) : Prop :=
  Holds (fun e => e = .nullPointer) x Q

structure InBlock (c : ClientInfo) : Prop where
  cap : 0 < c.partialCap
  len : c.partialLen ≤ c.partialCap
  room : ∀ buf, c.partialMsg = some buf → c.partialCap ≤ buf.length

theorem InBlock.congr {c c' : ClientInfo} (h : InBlock c) (hblock : c'.block = c.block) :
    InBlock c' := by
  simp only [ClientInfo.block,Prod.mk.injEq] at hblock
  obtain ⟨hmsg,hlen,hcap⟩ := hblock
  refine ⟨by rw [hcap]; exact h.cap,by rw [hlen,hcap]; exact h.len,fun buf hbuf => ?_⟩
  rw [hcap]
  exact h.room buf (hmsg ▸ hbuf)

theorem Holding.inBlock {c : ClientInfo} {trace : List Obs} {message : Bytes}
    (h : Holding c trace message) : InBlock c := by
  have hcap := h.cap_pos
  rcases h with hstored | ⟨hlost,-⟩
  · obtain ⟨full,hfull,hroom,-⟩ := hstored.block
    refine ⟨hcap,hstored.le,fun buf hbuf => ?_⟩
    obtain rfl := Option.some.inj (hfull.symm.trans hbuf)
    exact hroom
  · have hroom := hlost.room
    refine ⟨hcap,by omega,fun buf hbuf => ?_⟩
    rw [hlost.block] at hbuf
    cases hbuf

theorem readBlock_null {block : Option Bytes} {len : Nat}
    (h : ∀ buf, block = some buf → len ≤ buf.length) :
    OnlyNull (readBlock block len) (fun bs => bs.length = len) := by
  unfold readBlock
  cases block with
  | none =>
    by_cases hlen : len = 0
    · simp [hlen,Holds]
    · simp [hlen,Holds]
  | some buf =>
    have hfit := h buf rfl
    simp [hfit,Holds]

theorem writeBlock_null {block : Option Bytes} {off : Nat} {bs : Bytes}
    (h : ∀ buf, block = some buf → off+bs.length ≤ buf.length) :
    OnlyNull (writeBlock block off bs) (fun block' => ∀ new, block' = some new →
      ∃ old, block = some old ∧ new.length = old.length) := by
  cases block with
  | none =>
    unfold writeBlock
    by_cases hnil : bs = []
    · simp [hnil,Holds]
    · simp [hnil,Holds]
  | some old =>
    obtain ⟨new,hw⟩ := writeBlock_ok old off bs (h old rfl)
    obtain ⟨new',hsome,hlen,-⟩ := writeBlock_some hw
    rw [hw]
    intro bs' hbs'
    exact ⟨old,rfl,by rw [← Option.some.inj (hsome.symm.trans hbs'),hlen]⟩

section Blocks
variable {c : ClientInfo} {k : Sock}

theorem append_null (h : InBlock c) (hsize : c.payloadBytesRead ≤ bufSize) :
    OnlyNull (appendToClientBuffer c k) (fun res => InBlock res.1) := by
  have hlen := fragment_length hsize
  have hkeep : ∀ (cap : Nat) (block : Option Bytes), 0 < cap →
      c.partialLen+c.payloadBytesRead ≤ cap → (∀ buf, block = some buf → cap ≤ buf.length) →
      OnlyNull (writeBlock block c.partialLen (c.payloadBuffer.data.take c.payloadBytesRead))
        (fun block' => ∀ new, block' = some new → cap ≤ new.length) := by
    intro cap block hcap hfit hroom
    refine (writeBlock_null (fun buf hbuf => ?_)).mono (fun block' hnew new hsome => ?_)
    · have hlarge := hroom buf hbuf
      omega
    · obtain ⟨old,hold,hsame⟩ := hnew new hsome
      rw [hsame]
      exact hroom old hold
  unfold appendToClientBuffer
  by_cases hgrow : c.partialLen+c.payloadBytesRead > c.partialCap
  · have hneeded := growCap_needed h.cap (Nat.le_add_left
      (c.partialLen+c.payloadBytesRead) c.partialCap)
    rcases hr : k.realloc c.partialMsg (growCap (c.partialLen+c.payloadBytesRead) c.partialCap
      (c.partialLen+c.payloadBytesRead)) with ⟨k',block⟩
    simp only [hgrow,if_true,hr]
    have hpos := h.cap
    cases block with
    | none =>
      exact ⟨by simp only; omega,by simp only; omega,fun buf hbuf => by cases hbuf⟩
    | some new =>
      simp only [Option.isSome_some,if_true]
      refine (hkeep _ _ (by omega) hneeded ?_).bind (fun block' hblock => ?_)
      · intro buf hbuf
        cases hbuf
        exact Nat.le_of_eq (Sock.realloc_some hr).1.symm
      · exact ⟨by simp only; omega,hneeded,hblock⟩
  · simp only [hgrow,if_false,if_true]
    refine (hkeep _ _ h.cap (Nat.not_lt.mp hgrow) h.room).bind (fun block' hblock => ?_)
    exact ⟨h.cap,Nat.not_lt.mp hgrow,hblock⟩

theorem InBlock.fits (h : InBlock c) {len : Nat} (hlen : len ≤ c.partialLen) :
    ∀ buf, c.partialMsg = some buf → len ≤ buf.length := by
  intro buf hbuf
  have hroom := h.room buf hbuf
  have hcap := h.len
  omega

theorem copyBuffer_null (h : InBlock c) :
    OnlyNull (copyBuffer k c.partialMsg c.partialLen) (fun _ => True) := by
  unfold copyBuffer
  simp only
  split
  · trivial
  · exact (readBlock_null (h.fits (Nat.le_refl _))).bind (fun _ _ => trivial)

theorem storeClientName_null (h : InBlock c) : OnlyNull (storeClientName c) InBlock := by
  have hstored := storedLen_eq c
  have hle := storedLen_le c
  have hread := readBlock_null (h.fits hle)
  unfold storeClientName
  unfold ClientInfo.storedLen at hread hstored hle
  refine hread.bind (fun bs hbs => ?_)
  have hfit : 0+(bs ++ [0]).length ≤ nameMax := by
    simp only [List.length_append,List.length_singleton,hbs,hstored]
    unfold nameMax
    omega
  unfold Buf.write
  rw [dif_pos hfit]
  exact ⟨h.cap,Nat.le_trans hle h.len,h.room⟩

theorem formatChat_null (h : InBlock c) (timestamp : Bytes) :
    OnlyNull (formatChat c k timestamp) (fun _ => True) := by
  unfold formatChat
  simp only
  split
  · trivial
  · refine (readBlock_null (h.fits (Nat.le_refl _))).bind (fun msg hmsg => ?_)
    split <;> trivial

theorem finishMessage_null (h : InBlock c) : OnlyNull (finishMessage c) (fun _ => True) := by
  unfold finishMessage clearClientBuffer
  refine Holds.bind (P := fun _ => True) ?_ (fun _ _ => trivial)
  refine (writeBlock_null (fun buf hbuf => ?_)).bind (fun block _ => ?_)
  · rw [List.length_replicate,Nat.zero_add]
    exact h.fits (Nat.le_refl _) buf hbuf
  · cases block <;> trivial

theorem readTurn_null {tail : Bytes} (hframe : CurrentFrame c tail) (h : InBlock c) :
    OnlyNull (readTurn c k) (fun res => InBlock res.1) := by
  unfold readTurn
  cases hframe with
  | header hstate hlt =>
    have hread := k.read_reads (sizeSub headerSize c.headerBytesRead)
    rw [hstate]
    unfold readHeader
    rcases hr : k.read (sizeSub headerSize c.headerBytesRead) with ⟨k₁,out⟩
    rw [hr] at hread
    simp only
    cases out with
    | again => exact h
    | failed => exact h
    | bytes bs =>
      have hfit : c.headerBytesRead+bs.length ≤ headerSize := by
        have hsize := hread.size_le
        rw [sizeSub_of_le (by omega)] at hsize
        omega
      obtain ⟨b,hb⟩ := storeBytes_ok c.headerBuffer _ _ hfit
      cases bs with
      | nil => exact h
      | cons x xs =>
        simp only [hb,ok_bind]
        repeat' split
        all_goals exact h.congr rfl
  | payload hstate hlen hdone hle hpart =>
    have hread := k.read_reads (sizeSub c.expectedPayloadLen c.payloadBytesRead)
    rw [hstate]
    unfold readPayload
    rcases hr : k.read (sizeSub c.expectedPayloadLen c.payloadBytesRead) with ⟨k₁,out⟩
    rw [hr] at hread
    simp only
    cases out with
    | again => exact h
    | failed => exact h
    | bytes bs =>
      have hfit : c.payloadBytesRead+bs.length ≤ c.expectedPayloadLen := by
        have hsize := hread.size_le
        rw [sizeSub_of_le (by omega)] at hsize
        omega
      obtain ⟨b,hb⟩ := storeBytes_ok c.payloadBuffer c.payloadBytesRead bs (by omega)
      simp only [hb,ok_bind]
      split
      · exact h.congr rfl
      · split
        · exact h.congr rfl
        · have hgot : InBlock (c.gotPayload b bs.length) := h.congr rfl
          refine (append_null hgot (by simp only [ClientInfo.gotPayload]; omega)).bind ?_
          rintro ⟨c₂,k₂,r⟩ h₂
          simp only at h₂ ⊢
          split
          · exact (copyBuffer_null h₂).bind (fun _ _ => h₂)
          · exact h₂.congr rfl

end Blocks

theorem Room.processPayload_null {R : Room} {p : Nat} (copy : Option Bytes)
    (h : InBlock (R.view p).info) :
    OnlyNull (R.processPayload p copy) (fun res => InBlock (res.1.view p).info) := by
  have hplain : OnlyNull (R.processPayload p copy) (fun _ => True) := by
    unfold processPayload
    split
    · unfold nameIt
      refine Holds.bind (P := fun _ => True) ?_ (fun _ _ => trivial)
      exact (storeClientName_null h).bind (fun _ _ => trivial)
    · split
      · rfl
      · split
        · unfold runCommand
          simp only
          split
          · rfl
          · split <;> trivial
        · unfold chat
          refine Holds.bind (P := fun _ => True) ?_ (fun _ _ => trivial)
          refine (formatChat_null h _).bind ?_
          rintro ⟨k,text⟩ _
          cases text with
          | none => rfl
          | some text => trivial
  cases hroom : R.processPayload p copy with
  | error e => exact hplain.of_error hroom
  | ok res =>
    by_cases hname : (R.view p).info.hasName = true
    · have hread := processPayload_unread hname hroom p
      simp only [ClientInfo.reading,Reading.mk.injEq] at hread
      obtain ⟨-,-,-,-,-,-,-,-,hmsg,hlen,hcap,-⟩ := hread
      exact h.congr (by simp only [ClientInfo.block,hmsg,hlen,hcap])
    · obtain ⟨-,i,hstore,hset⟩ := processPayload_name (by simpa using hname) hroom
      have hnamed : InBlock i := (storeClientName_null h).of_ok hstore
      show InBlock (res.1.view p).info
      rw [hset,view_set_self]
      exact hnamed.congr rfl

section Calls
variable {w : World} {R : Room} {p : Nat}

theorem readOnce_null (h : Refines w R) (hp : p ∈ R.members) (hfree : R.mutex = false)
    {tail : Bytes} (hframe : CurrentFrame (R.view p).info tail) (hin : InBlock (R.view p).info) :
    OnlyNull (w.readOnce p) (fun _ => True) := by
  have hturns := readTurn_null (k := (R.view p).sock) hframe hin
  unfold World.readOnce
  cases hturn : readTurn (R.view p).info (R.view p).sock with
  | error e =>
    have hnull := hturns.of_error hturn
    obtain ⟨A,h⟩ := h
    obtain ⟨q,hc,hk,-,-⟩ := h.access hp
    have hk' : w.sock ((R.view p).info.withQueue q).clientFd = .ok (R.view p).sock := hk
    simp only [hc,hk',ok_bind,readTurn_withQueue,hturn]
    exact hnull
  | ok res =>
    have hblock := hturns.of_ok hturn
    obtain ⟨c,k,next⟩ := res
    obtain ⟨q,hc,hk,hturn',href⟩ := readTurn_refines h hp hturn
    simp only [hc,hk,hturn',ok_bind]
    cases next with
    | ret r => trivial
    | again => trivial
    | deliver copy =>
      have hserves := Room.processPayload_null (R := R.set p ⟨c,k,(R.view p).queue⟩) copy
        (p := p) (by rw [Room.view_set_self]; exact hblock)
      simp only
      cases hroom : (R.set p ⟨c,k,(R.view p).queue⟩).processPayload p copy with
      | error e =>
        have hmatch := processPayload_refines href hp hfree copy
        rw [hroom] at hmatch
        rw [hmatch.eq_error]
        exact hserves.of_error hroom
      | ok res =>
        have hafter := hserves.of_ok hroom
        obtain ⟨S,r⟩ := res
        obtain ⟨w₁,hw,hS,hpS⟩ := payload_refines href hp hfree hroom
        obtain ⟨w₂,q₂,hw₂,-,hc₂,-⟩ := verdict_refines hS hpS r
        simp only [hw,hw₂,ok_bind]
        by_cases hr : r = -1
        · rw [if_pos hr]
          trivial
        · rw [if_neg hr]
          simp only [hc₂,ok_bind,finishMessage_withQueue]
          cases hfin : finishMessage (S.view p).info with
          | error e => exact (finishMessage_null hafter).of_error hfin
          | ok i => trivial

theorem note_error {o : Obs} {e : Fault} (h : w.note p o = .error e) :
    e = .useAfterFree ∨ e = .badDescriptor := by
  unfold World.note World.client World.sock at h
  cases hc : w.clients.get p with
  | none =>
    rw [hc] at h
    cases h
    exact .inl rfl
  | some c =>
    simp only [hc,ok_bind] at h
    cases hk : w.socks.get c.clientFd with
    | none =>
      simp only [hk,error_bind] at h
      cases h
      exact .inr rfl
    | some k =>
      simp only [hk,ok_bind] at h
      cases h

end Calls

section Steps
variable {acts : List Action} {s : Sys} {R : Room} {p : Nat} {c : ClientInfo} {k : Sock} {e : Fault}

/-- A call of `handle_client_read` that stops has followed a null pointer, and an allocation
for the connection has failed or is about to. -/
theorem read_fault (hrun : run step Sys.init acts = .ok s) (hphase : s.phase ≠ .done)
    (h : Listed s p c k) (hopen : c.closed = false) (he : handleClientRead s.world p = .error e) :
    e = .nullPointer ∧ (¬ Plentiful k ∨ .blockFailed ∈ k.trace) := by
  obtain ⟨R,href,hp,hfree,tail,message,hframe,hhold⟩ :=
    turns_holding hrun hphase h hopen (.start _)
  obtain ⟨⟨q,rfl⟩,rfl⟩ := href.shown hp ⟨h.info,h.sock⟩
  have hcrash := (handleClientRead_refines href hp hfree hopen).of_error he
  constructor
  · have hc := World.client_eq_ok h.info
    have hk := World.sock_eq_ok h.sock
    unfold handleClientRead at he
    simp only [hc,hk,ok_bind] at he
    cases hloop : handleClientReadLoop (2*(R.view p).sock.inbox.length+2) s.world p with
    | error e' =>
      rw [hloop] at he
      cases he
      rcases loop_fault hloop with rfl | ⟨w,hturns,hfault⟩
      · rcases hcrash with h₁ | h₁ <;> cases h₁
      · obtain ⟨S,hrefS,hpS,hfreeS,tailS,messageS,hframeS,hholdS⟩ :=
          turns_holding hrun hphase h hopen hturns
        exact (readOnce_null hrefS hpS hfreeS hframeS hholdS.inBlock).of_error hfault
    | ok res =>
      rw [hloop] at he
      simp only [ok_bind] at he
      cases hnote : res.1.note p (.readReturned res.2) with
      | error e' =>
        rw [hnote] at he
        cases he
        rcases note_error hnote with rfl | rfl <;> rcases hcrash with h₁ | h₁ <;> cases h₁
      | ok w₁ =>
        rw [hnote] at he
        cases he
  · by_contra hmemory
    push Not at hmemory
    obtain ⟨hplenty,hnone⟩ := hmemory
    have hstored : Stored (R.view p).info message :=
      hhold.resolve_right (fun hlost => hnone hlost.2)
    obtain ⟨res,hres,-⟩ := handleClientRead_ok href hp hfree ⟨⟨tail,hframe⟩,message,hstored⟩ hplenty
    rw [hres] at he
    cases he

theorem dispatch_fault (href : Refines s.world R) (hfree : R.mutex = false) (hp : p ∈ R.members)
    (bits : EventBits) (accepts : List AcceptRes)
    (he : dispatch s.world ⟨.ptr p,bits⟩ accepts = .error e) :
    ∃ c k, Listed s p c k ∧ c.closed = false ∧ handleClientRead s.world p = .error e := by
  have hmem := hp
  obtain ⟨A,h⟩ := href
  obtain ⟨q,hc,-,-,-⟩ := h.access hp
  have hlisted : p ∈ s.world.clientList := by
    rw [h.members]
    exact hp
  obtain ⟨mq,hinfo,hsock,-⟩ := h.owns p hp
  have hwrite : ∀ (w : World) (S : Room), Refines w S → p ∈ S.members →
      ∃ w', (if bits.epollout = true then do
        let res ← clientTryWrite w p
        if res.2 = -1 then markClosed res.1 p else pure res.1
      else pure w : Except Fault World) = .ok w' := by
    intro w S hS hpS
    by_cases hout : bits.epollout = true
    · rw [if_pos hout]
      obtain ⟨w',hw',-⟩ := writeEvent_refines hS hpS
      exact ⟨w',hw'⟩
    · rw [if_neg hout]
      exact ⟨w,rfl⟩
  have hshut : ((R.view p).info.withQueue q).closed = (R.view p).info.closed := rfl
  unfold dispatch at he
  simp only [hc,ok_bind,hshut] at he
  by_cases hclosed : (R.view p).info.closed = true
  · rw [if_pos hclosed] at he
    cases he
  rw [if_neg hclosed] at he
  have hopen : (R.view p).info.closed = false := by simpa using hclosed
  refine ⟨(R.view p).info.withQueue mq,(R.view p).sock,⟨hlisted,hinfo,hsock⟩,hopen,?_⟩
  by_cases hup : (bits.epollhup || bits.epollrdhup || bits.epollerr) = true
  · rw [if_pos hup] at he
    obtain ⟨w₁,hw₁,-⟩ := noteHangup_refines ⟨A,h⟩ hp
    rw [hw₁] at he
    cases he
  rw [if_neg hup] at he
  by_cases hin : bits.epollin = true
  · simp only [hin,if_true] at he
    have hread := handleClientRead_refines ⟨A,h⟩ hp hfree hopen
    cases hres : handleClientRead s.world p with
    | error e' =>
      rw [hres] at he
      cases he
      rfl
    | ok res =>
      obtain ⟨S,hmemS,-,-,href₁,-⟩ := hread.of_ok hres
      have hpS : p ∈ (S.set p ((S.view p).note (.readReturned res.2))).members := by
        rw [Room.set_members,hmemS]
        exact hp
      rw [hres] at he
      simp only [ok_bind] at he
      by_cases hr : res.2 < 0
      · obtain ⟨w₂,hw₂,-⟩ := markClosed_refines href₁ hpS
        rw [if_pos hr,hw₂] at he
        cases he
      · obtain ⟨w₂,hw₂⟩ := hwrite _ _ href₁ hpS
        rw [if_neg hr] at he
        cases he.symm.trans hw₂
  · simp only [hin,pure_bind] at he
    obtain ⟨w₂,hw₂⟩ := hwrite _ _ ⟨A,h⟩ hp
    rw [if_neg (by decide)] at he
    cases he.symm.trans hw₂

/-- A pointer that `client_info_init` writes through is the only danger of accepting. -/
theorem accept_fault {w : World} (hmutex : w.clientMutex = false) (accepts : List AcceptRes)
    (he : acceptNewClients accepts w = .error e) :
    e = .nullPointer ∧ ∃ i, .conn i ∈ accepts ∧ i.info = none := by
  induction accepts generalizing w with
  | nil => cases he
  | cons a rest ih =>
    cases a with
    | wouldBlock => cases he
    | fails => cases he
    | conn i =>
      cases hfcntl : i.fcntlOk with
      | false =>
        rw [accept_fcntl rest hfcntl] at he
        cases he
      | true =>
        cases hinfo : i.info with
        | none =>
          rw [accept_noInfo rest hfcntl hinfo] at he
          cases he
          exact ⟨rfl,i,by simp,hinfo⟩
        | some info =>
          obtain ⟨hint,old⟩ := info
          by_cases hfail : i.block = none ∨ i.addOk = false
          · rw [accept_unregistered rest hfcntl hinfo hfail] at he
            cases he
          · obtain ⟨hblock,hadd⟩ := not_or.mp hfail
            obtain ⟨junk,hb⟩ := Option.ne_none_iff_exists'.mp hblock
            rw [accept_joined rest hmutex hfcntl hinfo hb (by simpa using hadd)] at he
            split at he
            · obtain ⟨hnull,j,hj,hnone⟩ := ih rfl he
              exact ⟨hnull,j,List.mem_cons_of_mem _ hj,hnone⟩
            · cases he

/-- What the next step of the server needs and cannot allocate: the record of a new client,
or a block for the message of one that is there. -/
inductive Starved (s : Sys) (i : Input) : Prop
  | client {bits : EventBits} {es : List Event} {j : Incoming}
      (hphase : s.phase = .batch (⟨.listen,bits⟩ :: es)) (hconn : .conn j ∈ i.accepts)
      (hinfo : j.info = none) : Starved s i
  | block {bits : EventBits} {es : List Event} {p : Nat} {c : ClientInfo} {k : Sock}
      (hphase : s.phase = .batch (⟨.ptr p,bits⟩ :: es)) (h : Listed s p c k)
      (hopen : c.closed = false) (hfail : ¬ Plentiful k ∨ .blockFailed ∈ k.trace) : Starved s i

theorem closing_ok (i : Input) (hrun : run step Sys.init acts = .ok s)
    (hphase : s.phase = .closing) : ∃ s', step s (.server i) = .ok s' := by
  have hdone : s.phase ≠ .done := by
    rw [hphase]
    exact fun h => by cases h
  obtain ⟨R,htracks,-,-⟩ := run_tracks hrun hdone
  obtain ⟨w,hfree,hmutex,hlist,-,-,-,-,hseats⟩ := htracks.cleans (run_stocked hrun hdone)
  obtain ⟨w',r,hclosed,-⟩ := removeAllClientsLoop_closes s.world.clientList.reverse hseats
  have hremove : removeAllClients w = .ok (w',r) := by
    rw [removeAllClients_eq hmutex,hlist]
    rw [hlist] at hclosed
    exact hclosed
  exact ⟨_,closing_step i hphase hfree hremove⟩

theorem step_fault {a : Action} (hrun : run step Sys.init acts = .ok s)
    (hstep : step s a = .error e) : e = .nullPointer ∧ ∃ i, a = .server i ∧ Starved s i := by
  cases a with
  | net fd bs fin reset => cases hstep
  | plan fd oracle => cases hstep
  | clock ts => cases hstep
  | server i =>
    cases hphase : s.phase with
    | done =>
      unfold step at hstep
      simp only [hphase] at hstep
      cases hstep
    | closing =>
      obtain ⟨s',hs'⟩ := closing_ok i hrun hphase
      rw [hs'] at hstep
      cases hstep
    | top =>
      have hdone : s.phase ≠ .done := by simp [hphase]
      obtain ⟨R,htracks,-,-⟩ := run_tracks hrun hdone
      unfold step at hstep
      simp only [hphase] at hstep
      split at hstep
      · obtain ⟨w₁,hw₁,-⟩ := broadcast_refines htracks.refines htracks.mutex none shutdownMessage
        rw [hw₁] at hstep
        cases hstep
      · obtain ⟨w₁,R₁,hreap,-⟩ :=
          reapLoop_refines s.world.clientList.length 0 htracks.refines htracks.mutex
        unfold reapPass at hstep
        simp only [hreap,ok_bind] at hstep
        split at hstep <;> cases hstep
    | batch es =>
      have hdone : s.phase ≠ .done := by simp [hphase]
      obtain ⟨R,htracks,-,-⟩ := run_tracks hrun hdone
      unfold step at hstep
      simp only [hphase] at hstep
      cases es with
      | nil => cases hstep
      | cons ev es =>
        simp only at hstep
        cases hd : dispatch s.world ev i.accepts with
        | ok w =>
          rw [hd] at hstep
          cases hstep
        | error e' =>
          rw [hd] at hstep
          cases hstep
          obtain ⟨data,bits⟩ := ev
          cases data with
          | listen =>
            unfold dispatch at hd
            simp only at hd
            cases hacc : acceptNewClients i.accepts s.world with
            | ok res =>
              rw [hacc] at hd
              cases hd
            | error e' =>
              rw [hacc] at hd
              cases hd
              have hmutex : s.world.clientMutex = false := by
                obtain ⟨A,hrep⟩ := htracks.refines
                exact hrep.mutex.trans htracks.mutex
              obtain ⟨hnull,j,hj,hinfo⟩ := accept_fault hmutex i.accepts hacc
              exact ⟨hnull,i,rfl,.client hphase hj hinfo⟩
          | ptr p =>
            have hp := htracks.batch _ hphase ⟨.ptr p,bits⟩ (by simp) p rfl
            obtain ⟨c,k,hlisted,hopen,hread⟩ :=
              dispatch_fault htracks.refines htracks.mutex hp bits i.accepts hd
            obtain ⟨hnull,hfail⟩ := read_fault hrun hdone hlisted hopen hread
            exact ⟨hnull,i,rfl,.block hphase hlisted hopen hfail⟩

/-- In no run does the server use memory that was freed or a descriptor that is not open,
write past a buffer, wait for its own mutex or read for ever. What can stop a run is a null
pointer, in a step that lacks the memory for a new client or for a message. The one read past
a buffer is that of the search for a target, in the name field of a listed client that has
given no name, whose memory came without a zero in it: while the target begins with all of
the field. -/
theorem run_fault (acts : List Action) :
    (∀ e, run step Sys.init acts = .error e →
      e = .nullPointer ∧ ∃ before i after s, acts = before ++ .server i :: after ∧
        run step Sys.init before = .ok s ∧ Starved s i) ∧
    ∀ s, run step Sys.init acts = .ok s → s.phase ≠ .done →
      ∀ p w copy, Delivers p s.world w copy → ∀ target,
        searchNames w target w.clientList = findTarget w target w.clientList ∨
        (searchNames w target w.clientList = .error .outOfBounds ∧
          ∃ q ∈ w.clientList, ∃ c, w.clients.get q = some c ∧ c.hasName = false ∧
            0 ∉ c.name.data ∧ c.name.data <+: target) := by
  constructor
  · intro e h
    obtain ⟨before,a,after,s,hsplit,hrun,hstep⟩ := run_error h
    obtain ⟨hnull,i,rfl,hstarved⟩ := step_fault hrun hstep
    exact ⟨hnull,before,i,after,s,hsplit,hrun,hstarved⟩
  · intro s hrun hphase p w copy hd target
    have hall : s.world.All ChosenEnds :=
      chosenEnds_lasting.run hrun hphase (fun a _ => clientInfoInit_chosenEnds a)
    exact searchNames_cases (chosenEnds_lasting.delivers hd hall)

def Action.readsWithout : List Action := Action.sendsWith none ++ Action.turn [Action.input 5] []

theorem run_fault_readsWithout : ∃ (e : Fault) (before : List Action) (i : Input)
    (after : List Action) (s : Sys), run step Sys.init Action.readsWithout = .error e ∧
      e = .nullPointer ∧ Action.readsWithout = before ++ .server i :: after ∧
      run step Sys.init before = .ok s ∧ Starved s i := by
  obtain ⟨e,he⟩ := toOption_isNone (x := run step Sys.init Action.readsWithout)
    (show (run step Sys.init Action.readsWithout).toOption.isNone = true by decide +kernel)
  obtain ⟨hnull,before,i,after,s,hrest⟩ := (run_fault Action.readsWithout).1 e he
  exact ⟨e,before,i,after,s,he,hnull,hrest⟩

/-- Whoever whispers 64 letters to a client whose memory is full of them. -/
example : reaches (Action.leftover (List.replicate nameMax 97)) (fun s =>
    (searchNames s.world (List.replicate nameMax 97) s.world.clientList).toOption.isNone) = true := by
  decide +kernel

end Steps

section Memory
variable {w w' : World}

/-- No allocation of a message block has failed on any socket, and none is going to. -/
def World.Ample (w : World) : Prop :=
  ∀ f k, w.socks.get f = some k → Plentiful k ∧ .blockFailed ∉ k.trace

theorem World.Ample.congr (h : w.Ample) (hsocks : ∀ f, w'.socks.get f = w.socks.get f) :
    w'.Ample := fun f k hk => h f k ((hsocks f).symm.trans hk)

theorem World.Ample.sock (h : w.Ample) {fd : Nat} {k' : Sock}
    (hk' : Plentiful k' ∧ .blockFailed ∉ k'.trace) : (w.putSock fd k').Ample := by
  intro f j hj
  by_cases hf : f = fd
  · subst hf
    obtain rfl := Option.some.inj ((Heap.get_set_self _ _ _).symm.trans hj)
    exact hk'
  · exact h f j ((Heap.get_set_of_ne _ _ hf).symm.trans hj)

theorem Spends.ample {k k' : Sock} (h : Spends k k')
    (hk : Plentiful k ∧ .blockFailed ∉ k.trace) : Plentiful k' ∧ .blockFailed ∉ k'.trace :=
  ⟨h.plentiful hk.1,fun hf => hk.2 (h.trace hk.1 hf)⟩

theorem Move.ample {o : Option Nat} (hmove : Move o w w') (h : w.Ample) : w'.Ample := by
  cases hmove with
  | sock hk hdraws => exact h.sock (hdraws.spends.ample (h _ _ hk))
  | rest _ hsocks => exact h.congr (fun f => by rw [hsocks])
  | _ => exact h.congr (fun _ => rfl)

theorem moves_ample {o : Option Nat} (hmoves : Moves o w w') (h : w.Ample) : w'.Ample := by
  induction hmoves with
  | refl => exact h
  | tail _ hmove ih => exact hmove.ample ih

theorem newSock_ample {oracle : Oracle} (h : oracle.blocks.all Option.isSome = true) (w : World) :
    Plentiful (newSock w oracle) ∧ .blockFailed ∉ (newSock w oracle).trace := by
  refine ⟨fun b hb hnone => ?_,by simp [newSock]⟩
  have hsome := List.all_eq_true.mp h b hb
  simp [hnone] at hsome

theorem Admits.ample {i : Incoming} (htaken : Admits w i w')
    (hblocks : i.oracle.blocks.all Option.isSome = true) (h : w.Ample) : w'.Ample := by
  have hnew := newSock_ample hblocks w
  cases htaken with
  | refused _ _ _ _ hsocks => exact h.congr hsocks
  | strayed _ _ _ _ hsocks =>
    intro f k hk
    rw [hsocks] at hk
    split at hk
    · cases hk
      exact hnew
    · exact h f k hk
  | joined _ _ _ _ hsocks =>
    intro f k hk
    rw [hsocks] at hk
    split at hk
    · cases hk
      exact hnew
    · exact h f k hk

def AcceptRes.supplied : AcceptRes → Bool
  | .conn i => i.info.isSome && i.oracle.blocks.all Option.isSome
  | .wouldBlock => true
  | .fails => true

/-- The action brings no failing allocation that the server does not survive. -/
def Action.supplied : Action → Bool
  | .net _ _ _ _ => true
  | .plan _ oracle => oracle.blocks.all Option.isSome
  | .clock _ => true
  | .server i => i.accepts.all AcceptRes.supplied

theorem onSock_ample (h : w.Ample) (fd : Nat) (f : Sock → Sock)
    (hf : ∀ k, Plentiful k ∧ .blockFailed ∉ k.trace →
      Plentiful (f k) ∧ .blockFailed ∉ (f k).trace) : (w.onSock fd f).Ample := by
  unfold World.onSock
  split
  · exact h
  · rename_i k hk
    exact h.sock (hf k (h fd k hk))

theorem step_ample {s s' : Sys} {R : Room} {a : Action} (h : Tracks s R) (hs : s.world.Stocked)
    (hample : s.world.Ample) (hsupplied : a.supplied = true) (hstep : step s a = .ok s')
    (hdone : s'.phase ≠ .done) : s'.world.Ample := by
  cases a with
  | net fd bs fin reset =>
    cases hstep
    exact onSock_ample hample fd _ (fun _ hk => hk)
  | plan fd oracle =>
    cases hstep
    refine onSock_ample hample fd _ (fun k hk => ⟨fun b hb hnone => ?_,hk.2⟩)
    have hsome := List.all_eq_true.mp hsupplied b hb
    simp [hnone] at hsome
  | clock ts =>
    cases hstep
    exact hample.congr (fun _ => rfl)
  | server i =>
    have hclosing : s.phase ≠ .closing := fun h => hdone (step_closing h hstep)
    have hreap : Always (reapPass s.world) (fun w => w.Stocked ∧ w.Ample) := by
      refine reapLoop_rule (fun w p hw hp => ?_) s.world.clientList.length 0 ⟨hs,hample⟩
      obtain ⟨⟨A,hstock⟩,hw⟩ := hw
      obtain ⟨c,hc,-⟩ := hstock.held p hp
      refine Always.intro (fun w' hw' => ⟨(reapClient_stocked ⟨A,hstock⟩ hp).of_ok hw',?_⟩)
      obtain ⟨-,-,-,hsocks,-⟩ := (reapClient_leaves hstock hp hc).of_ok hw'
      intro f k hk
      rw [hsocks] at hk
      split at hk
      · cases hk
      · exact hw f k hk
    have haccept : Always (acceptNewClients i.accepts s.world) (fun res => res.1.Ample) := by
      refine acceptNewClients_rule i.accepts (fun j w w' hj hw htaken => ?_) hample
      have hconn := List.all_eq_true.mp hsupplied _ hj
      simp only [AcceptRes.supplied,Bool.and_eq_true] at hconn
      exact htaken.ample hconn.2 hw
    exact step_keeps h (fun _ w hw => moves_ample hw hample)
      (fun _ _ => hreap.mono (fun _ hw => hw.2)) haccept hclosing hstep

theorem Starved.unsupplied {s : Sys} {i : Input} (h : Starved s i) (hample : s.world.Ample) :
    Action.supplied (.server i) = false := by
  cases h with
  | @client bits es j hphase hconn hinfo =>
    by_contra hsupplied
    have hconn' := List.all_eq_true.mp (by simpa [Action.supplied] using hsupplied) _ hconn
    simp [AcceptRes.supplied,hinfo] at hconn'
  | block hphase h hopen hfail =>
    obtain ⟨hplenty,hnone⟩ := hample _ _ h.sock
    exact absurd hfail (not_or.mpr ⟨fun hnot => hnot hplenty,hnone⟩)

/-- Where nothing that is needed fails, every further step returns. -/
theorem ample_runs {acts acts' : List Action} {s : Sys} (hrun : run step Sys.init acts = .ok s)
    (hample : s.phase ≠ .done → s.world.Ample) (hsupplied : ∀ a ∈ acts', a.supplied = true) :
    ∃ s', run step s acts' = .ok s' ∧ (s'.phase ≠ .done → s'.world.Ample) := by
  induction acts' generalizing acts s with
  | nil => exact ⟨s,rfl,hample⟩
  | cons a rest ih =>
    have ha : a.supplied = true := hsupplied a (by simp)
    cases hstep : step s a with
    | error e =>
      obtain ⟨-,i,rfl,hstarved⟩ := step_fault hrun hstep
      have hphase : s.phase ≠ .done := by
        cases hstarved with
        | client hphase => simp [hphase]
        | block hphase => simp [hphase]
      have hlacks := hstarved.unsupplied (hample hphase)
      rw [ha] at hlacks
      cases hlacks
    | ok t =>
      have hthere : run step Sys.init (acts ++ [a]) = .ok t := by
        rw [run_concat,hrun]
        exact hstep
      have hnext : t.phase ≠ .done → t.world.Ample := by
        intro hdone
        have hnow : s.phase ≠ .done := fun h => hdone (step_done h hstep)
        obtain ⟨R,htracks,-,-⟩ := run_tracks hrun hnow
        exact step_ample htracks (run_stocked hrun hnow) (hample hnow) ha hstep hdone
      obtain ⟨s',hrest,hends⟩ :=
        ih hthere hnext (fun b hb => hsupplied b (List.mem_cons_of_mem a hb))
      refine ⟨s',?_,hends⟩
      rw [run_cons,hstep]
      exact hrest

theorem init_ample : Sys.init.world.Ample := by
  intro f k hk
  cases hk

/-- A server that gets the memory for its clients and their messages never crashes: whatever
the clients send and whenever, in whatever order and however little their sockets take, and
even when packets, registrations and blocks for new clients fail, every step returns. -/
theorem supplied_runs {acts : List Action} (h : ∀ a ∈ acts, a.supplied = true) :
    ∃ s, run step Sys.init acts = .ok s := by
  obtain ⟨s,hrun,-⟩ := ample_runs (run_nil step Sys.init) (fun _ => init_ample) h
  exact ⟨s,hrun⟩

theorem supplied_runs_slowReader : ∃ s, run step Sys.init Action.slowReader = .ok s :=
  supplied_runs (show ∀ a ∈ Action.slowReader, a.supplied = true by decide)

end Memory

section Ending
variable {acts : List Action} {s s' : Sys}

def Sys.stepsLeft (s : Sys) : Nat :=
  match s.phase with
  | .top => 2
  | .batch es => es.length+3
  | .closing => 1
  | .done => 0

theorem stepsLeft_eq_zero {s : Sys} : s.stepsLeft = 0 ↔ s.phase = .done := by
  unfold Sys.stepsLeft
  cases s.phase <;> simp

def serverSteps (acts : List Action) : Nat :=
  acts.countP (fun a => match a with
    | .server _ => true
    | .net _ _ _ _ => false
    | .plan _ _ => false
    | .clock _ => false)

theorem acts_shutdown {R R' : Room} (h : ReflTransGen Act R R') (hheard : R.Heard)
    (hshut : R.shutdown = true) : R'.shutdown = true := by
  induction h with
  | refl => exact hshut
  | tail hrun hact ih => exact hact.shutdown_stays (reach_heard hrun hheard) ih

theorem step_flagged {a : Action} (hrun : run step Sys.init acts = .ok s)
    (hflag : s.world.serverShutdown = true) (hstep : step s a = .ok s')
    (hdone : s'.phase ≠ .done) : s'.world.serverShutdown = true := by
  have hnow : s.phase ≠ .done := fun hp => hdone (step_done hp hstep)
  obtain ⟨R,htracks,hheard⟩ := run_heard hrun hnow
  obtain ⟨R',⟨⟨A',hrep'⟩,-,-⟩,hacts⟩ := step_follows htracks (run_idle hrun hnow) hstep hdone
  obtain ⟨A,hrep⟩ := htracks.refines
  rw [hrep'.shutdown]
  exact acts_shutdown hacts hheard (by rw [← hrep.shutdown,hflag])

theorem step_nearer {i : Input} (hflag : s.world.serverShutdown = true ∨ s.phase = .done)
    (hstep : step s (.server i) = .ok s') : s'.stepsLeft = s.stepsLeft-1 := by
  have hclosing := fun hphase => step_closing (i := i) hphase hstep
  unfold Sys.stepsLeft
  unfold step at hstep
  cases hphase : s.phase with
  | done =>
    simp only [hphase] at hstep
    cases hstep
    rw [hphase]
    rfl
  | closing =>
    rw [hclosing hphase]
    rfl
  | top =>
    have hshut : s.world.serverShutdown = true := by simpa [hphase] using hflag
    simp only [hphase,hshut,if_true] at hstep
    cases hcast : broadcast s.world none shutdownMessage with
    | error e => simp [hcast] at hstep
    | ok res =>
      simp only [hcast,ok_bind] at hstep
      cases hstep
      rfl
  | batch es =>
    cases es with
    | nil =>
      simp only [hphase] at hstep
      cases hstep
      rfl
    | cons e es =>
      simp only [hphase] at hstep
      cases hd : dispatch s.world e i.accepts with
      | error e => simp [hd] at hstep
      | ok w =>
        simp only [hd,ok_bind] at hstep
        cases hstep
        simp only [List.length_cons]
        omega

theorem run_nearer {acts' : List Action} (hrun : run step Sys.init acts = .ok s)
    (hflag : s.world.serverShutdown = true ∨ s.phase = .done)
    (hrun' : run step s acts' = .ok s') : s'.stepsLeft = s.stepsLeft-serverSteps acts' := by
  induction acts' generalizing acts s with
  | nil =>
    cases hrun'
    rfl
  | cons a rest ih =>
    cases hstep : step s a with
    | error e => simp [hstep,Except.bind] at hrun'
    | ok t =>
      rw [run_cons,hstep] at hrun'
      have hnext : run step Sys.init (acts ++ [a]) = .ok t := by
        rw [run_concat,hrun]
        exact hstep
      have hset : t.world.serverShutdown = true ∨ t.phase = .done := by
        by_cases hdone : t.phase = .done
        · exact .inr hdone
        · have hopen : s.phase ≠ .done := fun hp => hdone (step_done hp hstep)
          exact .inl (step_flagged hrun (hflag.resolve_right hopen) hstep hdone)
      have hrest := ih hnext hset hrun'
      cases a with
      | server i =>
        rw [hrest,step_nearer hflag hstep]
        simp only [serverSteps,List.countP_cons,if_true]
        omega
      | net => cases hstep; exact hrest
      | plan => cases hstep; exact hrest
      | clock => cases hstep; exact hrest

/-- Once the flag is set, whatever arrives and whoever connects, the server handles the rest of
its batch, sends the notice and cleans up, and is gone after exactly that many steps of its
own. Each of them returns, as long as the server gets the memory for new clients and for the
messages of those that are there. -/
theorem shutdown_stops (acts' : List Action) (hrun : run step Sys.init acts = .ok s)
    (hflag : s.world.serverShutdown = true) :
    (∀ s', run step s acts' = .ok s' → s'.stepsLeft = s.stepsLeft-serverSteps acts' ∧
      (s'.phase = .done ↔ s.stepsLeft ≤ serverSteps acts')) ∧
    (s.world.Ample → (∀ a ∈ acts', a.supplied = true) → ∃ s', run step s acts' = .ok s') := by
  constructor
  · intro s' hrun'
    have hsteps := run_nearer hrun (.inl hflag) hrun'
    refine ⟨hsteps,?_⟩
    rw [← stepsLeft_eq_zero,hsteps]
    omega
  · intro hample hsupplied
    obtain ⟨s',hrun',-⟩ := ample_runs hrun (fun _ => hample) hsupplied
    exact ⟨s',hrun'⟩

/-- The shutdown command is read, and more arrives while the server comes to its end. -/
theorem shutdown_stops_stopped : ∃ s s', run step Sys.init (Action.slowReader ++
      Action.hears 6 (frame msgTypeNormal (ascii "/shutdown"))) = .ok s ∧
    run step s [.server ⟨false,[],[]⟩,.net 5 (ascii "late") true false,.server ⟨false,[],[]⟩] =
      .ok s' ∧ s.stepsLeft = 2 ∧ s'.phase = .done := by
  obtain ⟨s,hrun,htest⟩ := reaches_run (show reaches (Action.slowReader ++
      Action.hears 6 (frame msgTypeNormal (ascii "/shutdown")))
      (fun s => s.world.serverShutdown && decide (s.stepsLeft = 2)) = true by decide +kernel)
  simp only [Bool.and_eq_true,decide_eq_true_eq] at htest
  obtain ⟨hflag,hleft⟩ := htest
  have hphase : s.phase ≠ .done := fun h => by simp [stepsLeft_eq_zero.mpr h] at hleft
  obtain ⟨t,ht,hample⟩ := ample_runs (run_nil step Sys.init) (fun _ => init_ample)
    (show ∀ a ∈ Action.slowReader ++ Action.hears 6 (frame msgTypeNormal (ascii "/shutdown")),
      a.supplied = true by decide)
  rw [hrun] at ht
  cases ht
  obtain ⟨hends,hruns⟩ := shutdown_stops [.server ⟨false,[],[]⟩,.net 5 (ascii "late") true false,
    .server ⟨false,[],[]⟩] hrun hflag
  obtain ⟨s',hrun'⟩ := hruns (hample hphase) (by decide)
  exact ⟨s,s',hrun,hrun',hleft,(hends s' hrun').2.mpr (by rw [hleft]; decide)⟩

end Ending
end ChatServer
