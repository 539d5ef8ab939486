import ChatServer.Parsing
import ChatServer.ReadRefinement

/-! With memory to allocate, a call of `handle_client_read` on an open client
always returns: no buffer is overrun and no null pointer is followed. -/
set_option autoImplicit false

namespace ChatServer
open ByteString Memory Execution

def Sock.grants (k : Sock) (i : Nat) : Bool := (k.oracle.blocks.getD i (some [])).isSome

/-- No allocation of a message block that is still to come fails. -/
def Plentiful (k : Sock) : Prop := ∀ b ∈ k.oracle.blocks, b ≠ none

theorem Plentiful.grants {k : Sock} (h : Plentiful k) (i : Nat) : k.grants i = true := by
  unfold Sock.grants
  rw [List.getD_eq_getElem?_getD]
  cases hb : k.oracle.blocks[i]? with
  | none => rfl
  | some b =>
    have hsome := h b (List.mem_of_getElem? hb)
    cases b with
    | none => exact absurd rfl hsome
    | some bs => rfl

structure Spends (k k' : Sock) : Prop where
  blocks : ∀ b ∈ k'.oracle.blocks, b ∈ k.oracle.blocks
  trace : Plentiful k → .blockFailed ∈ k'.trace → .blockFailed ∈ k.trace

namespace Spends
variable {k k' k'' : Sock}

theorem plentiful (h : Spends k k') (hk : Plentiful k) : Plentiful k' :=
  fun b hb => hk b (h.blocks b hb)

theorem trans (h : Spends k k') (h' : Spends k' k'') : Spends k k'' :=
  ⟨fun b hb => h.blocks b (h'.blocks b hb),
    fun hk hf => h.trace hk (h'.trace (h.plentiful hk) hf)⟩

theorem of_log {l : List Obs} (hblocks : k'.oracle.blocks = k.oracle.blocks)
    (ht : k'.trace = k.trace ++ l) (hl : .blockFailed ∉ l) : Spends k k' := by
  refine ⟨fun b hb => by rwa [hblocks] at hb,fun _ hf => ?_⟩
  rw [ht] at hf
  rcases List.mem_append.mp hf with hf | hf
  · exact hf
  · exact absurd hf hl

theorem refl (k : Sock) : Spends k k := of_log (l := []) rfl (by simp) (by simp)

theorem of_same (hblocks : k'.oracle.blocks = k.oracle.blocks) (ht : k'.trace = k.trace) :
    Spends k k' := of_log (l := []) hblocks (by simp [ht]) (by simp)

theorem note (k : Sock) {o : Obs} (ho : o ≠ .blockFailed) : Spends k (k.note o) :=
  of_log rfl rfl (by simpa using ho.symm)

end Spends

theorem Sock.realloc_head (k : Sock) :
    k.oracle.blocks.headD (some []) = k.oracle.blocks.getD 0 (some []) := by
  cases k.oracle.blocks <;> rfl

theorem Sock.realloc_ok {k : Sock} (h : k.grants 0 = true) (old : Option Bytes) (size : Nat) :
    ∃ k' bs, k.realloc old size = (k',some bs) ∧ k'.trace = k.trace := by
  unfold Sock.grants at h
  rw [← k.realloc_head] at h
  unfold Sock.realloc
  cases hb : k.oracle.blocks.headD (some []) with
  | none =>
    rw [hb] at h
    cases h
  | some junk => exact ⟨_,_,rfl,rfl⟩

theorem Sock.realloc_fails {k : Sock} (h : k.grants 0 = false) (old : Option Bytes)
    (size : Nat) : ∃ k', k.realloc old size = (k',none) := by
  unfold Sock.grants at h
  rw [← k.realloc_head] at h
  unfold Sock.realloc
  cases hb : k.oracle.blocks.headD (some []) with
  | none => exact ⟨_,rfl⟩
  | some junk =>
    rw [hb] at h
    cases h

theorem Sock.realloc_blocks (k : Sock) (old : Option Bytes) (size : Nat) :
    (k.realloc old size).1.oracle.blocks = k.oracle.blocks.tail := by
  unfold Sock.realloc
  simp only
  split <;> rfl

theorem Sock.realloc_spends (k : Sock) (old : Option Bytes) (size : Nat) :
    Spends k (k.realloc old size).1 := by
  refine ⟨?_,?_⟩
  · intro b hb
    rw [k.realloc_blocks] at hb
    exact List.mem_of_mem_tail hb
  · intro hk hf
    obtain ⟨k',bs,hr,ht⟩ := Sock.realloc_ok (hk.grants 0) old size
    rw [hr,ht] at hf
    exact hf

theorem Sock.read_spends (k : Sock) (count : Nat) : Spends k (k.read count).1 := by
  have hreceive : ∀ (j : Sock) (n : Nat), j.oracle.blocks = k.oracle.blocks →
      j.trace = k.trace → Spends k (j.receive count n).1 := by
    intro j n hb ht
    have hsame : Spends k j := .of_same hb ht
    unfold Sock.receive
    split
    · split
      · exact hsame.trans (.note j (by simp))
      · exact hsame
    · exact hsame.trans (.of_log (l := [.read _]) rfl rfl (by simp))
  unfold Sock.read
  split
  · exact .refl k
  · split
    · exact hreceive k count rfl rfl
    · exact hreceive _ _ rfl rfl
    · exact .of_same rfl rfl
    · exact .of_log (l := [.readFailed]) rfl rfl (by simp)

namespace View

theorem setEpollout_spends (v : View) (on : Bool) (p : Nat) :
    Spends v.sock (v.setEpollout on p).sock := by
  unfold setEpollout Sock.epollCtlMod
  split
  · exact .refl _
  · simp only
    split <;> split <;> exact .of_log (l := [.epollMod on _]) rfl rfl (by simp)

theorem Writes.spends {p : Nat} {v v' : View} (h : Writes p v v') : Spends v.sock v'.sock := by
  cases h with
  | note ho => exact .note v.sock (by rintro rfl; cases ho)
  | close => exact (Spends.note v.sock (by simp)).trans (.note _ (by simp))
  | dropAlloc => exact .of_same rfl rfl
  | withSends rest => exact .of_same rfl rfl
  | withQueue queue => exact .refl _
  | setEpollout on => exact setEpollout_spends v on p

theorem Written.spends {p : Nat} {v v' : View} (h : Written p v v') : Spends v.sock v'.sock :=
  h.keeps (K := fun v v' => Spends v.sock v'.sock) (fun _ => .refl _) Spends.trans Writes.spends

theorem direct_spends (v : View) (msgType : UInt8) (msg : Bytes) :
    Spends v.sock (v.direct msgType msg).1.sock :=
  (Spends.note v.sock (by simp)).trans (Written.direct (p := 0) v msgType msg).spends

end View

theorem Seat.Served.spends {p : Nat} {s s' : Seat} (h : Seat.Served p s s') :
    Spends s.view.sock s'.view.sock := by
  cases h with
  | offer => exact (View.Written.offer _ _ _ _).spends
  | whisper => exact View.direct_spends _ _ _
  | list => exact View.direct_spends _ _ _
  | listing names => exact .note _ (by simp)
  | format size => exact Sock.realloc_spends _ _ _
  | name => exact .refl _
  | shutdown => exact .refl _

theorem Seat.served_spends {p : Nat} {s s' : Seat}
    (h : Relation.ReflTransGen (Seat.Served p) s s') : Spends s.view.sock s'.view.sock := by
  induction h with
  | refl => exact .refl _
  | tail _ hstep ih => exact ih.trans hstep.spends

/-- The reader of `c` can go on: its buffers are in order, and its block holds
what it should. -/
structure Sound (c : ClientInfo) : Prop where
  frame : ∃ tail, CurrentFrame c tail
  stored : ∃ message, Stored c message

theorem storeBytes_ok {n : Nat} (b : Buf n) (off : Nat) (bs : Bytes) (h : off+bs.length ≤ n) :
    ∃ b', storeBytes b off bs = .ok b' := by
  unfold storeBytes Buf.write
  rw [dif_pos h]
  exact ⟨_,rfl⟩

theorem writeBlock_ok (old : Bytes) (off : Nat) (bs : Bytes) (h : off+bs.length ≤ old.length) :
    ∃ new, writeBlock (some old) off bs = .ok (some new) := by
  unfold writeBlock
  simp only
  rw [if_pos h]
  exact ⟨_,rfl⟩

def ClientInfo.grows (c : ClientInfo) : Bool :=
  decide (c.partialLen+c.payloadBytesRead > c.partialCap)

theorem Stored.append_ok {c : ClientInfo} {k : Sock} {message : Bytes} (h : Stored c message)
    (hsize : c.payloadBytesRead ≤ bufSize) (hk : c.grows = true → k.grants 0 = true) :
    ∃ c' k', appendToClientBuffer c k = .ok (c',k',0) ∧ Spends k k' ∧
      Stored c' (message ++ c.payloadBuffer.data.take c.payloadBytesRead) := by
  obtain ⟨hlen,hle,hlarge,buf,hbuf,hcap,htake⟩ := h
  have hpayload := fragment_length hsize
  have hdone : ∃ c' k', appendToClientBuffer c k = .ok (c',k',0) ∧ Spends k k' ∧
      c'.partialMsg ≠ none := by
    unfold appendToClientBuffer
    by_cases hgrow : c.partialLen+c.payloadBytesRead > c.partialCap
    · obtain ⟨k₁,new,hr,-⟩ := Sock.realloc_ok (hk (decide_eq_true hgrow)) c.partialMsg (growCap
        (c.partialLen+c.payloadBytesRead) c.partialCap (c.partialLen+c.payloadBytesRead))
      have hspent := Sock.realloc_spends k c.partialMsg (growCap
        (c.partialLen+c.payloadBytesRead) c.partialCap (c.partialLen+c.payloadBytesRead))
      rw [hr] at hspent
      have hneeded := growCap_fits hlarge
      have hnew := (Sock.realloc_some hr).1
      obtain ⟨full,hw⟩ := writeBlock_ok new c.partialLen
        (c.payloadBuffer.data.take c.payloadBytesRead) (by omega)
      simp only [hgrow,if_true,hr,Option.isSome_some,hw,ok_bind]
      exact ⟨_,_,rfl,hspent,by simp⟩
    · obtain ⟨full,hw⟩ := writeBlock_ok buf c.partialLen
        (c.payloadBuffer.data.take c.payloadBytesRead) (by omega)
      simp only [hgrow,if_false,if_true,hbuf,hw,ok_bind]
      exact ⟨_,_,rfl,.refl k,by simp⟩
  obtain ⟨c',k',happend,hspent,hsome⟩ := hdone
  refine ⟨c',k',happend,hspent,?_⟩
  have hstored : Stored c message := ⟨hlen,hle,hlarge,buf,hbuf,hcap,htake⟩
  rcases hstored.append hsize happend with hgood | ⟨hlost,-⟩
  · exact hgood
  · exact absurd hlost.block hsome

theorem Stored.copy_ok {c : ClientInfo} {k : Sock} {message : Bytes} (h : Stored c message)
    (hk : k.grants 0 = true) : ∃ k', copyBuffer k c.partialMsg c.partialLen =
      .ok (k',some (message ++ [0])) ∧ Spends k k' := by
  have hspent := Sock.realloc_spends k none (c.partialLen+1)
  obtain ⟨k₁,new,hr,-⟩ := Sock.realloc_ok hk none (c.partialLen+1)
  have hread := h.readBlock (Nat.le_refl c.partialLen)
  rw [List.take_of_length_le (by rw [h.len])] at hread
  rw [hr] at hspent
  unfold copyBuffer
  simp only [hr,hread,ok_bind]
  exact ⟨k₁,rfl,hspent⟩

def LeavesSound (k : Sock) (c : ClientInfo) (k' : Sock) (next : Next) : Prop :=
  Spends k k' ∧ (next = .again → Sound c) ∧
    ∀ copy, next = .deliver copy → ∃ text, copy = some (text ++ [0]) ∧ Stored c text

theorem LeavesSound.ret {c : ClientInfo} {k k' : Sock} {r : Int} (h : Spends k k') :
    LeavesSound k c k' (.ret r) := ⟨h,by simp,by simp⟩

theorem readHeader_ok {c : ClientInfo} (k : Sock) {message : Bytes}
    (hlt : c.headerBytesRead < headerSize) (hstored : Stored c message) :
    ∃ c' k' next, readHeader c k = .ok (c',k',next) ∧ LeavesSound k c' k' next := by
  have hread := k.read_reads (sizeSub headerSize c.headerBytesRead)
  have hspent := k.read_spends (sizeSub headerSize c.headerBytesRead)
  unfold readHeader
  rcases hr : k.read (sizeSub headerSize c.headerBytesRead) with ⟨k₁,out⟩
  rw [hr] at hread hspent
  simp only
  cases out with
  | again => exact ⟨_,_,_,rfl,.ret hspent⟩
  | failed => exact ⟨_,_,_,rfl,.ret hspent⟩
  | bytes bs =>
    cases bs with
    | nil => exact ⟨_,_,_,rfl,.ret hspent⟩
    | cons x xs =>
      have hfit : c.headerBytesRead+(x :: xs).length ≤ headerSize := by
        cases hread with
        | bytes _ _ hle =>
          rw [sizeSub_of_le (by omega)] at hle
          omega
      obtain ⟨b,hb⟩ := storeBytes_ok c.headerBuffer _ _ hfit
      simp only [hb,ok_bind]
      split
      · exact ⟨_,_,_,rfl,.ret hspent⟩
      · split
        · exact ⟨_,_,_,rfl,.ret hspent⟩
        · split
          · exact ⟨_,_,_,rfl,.ret hspent⟩
          · rename_i hle
            have hpart : 0 < (parseHeader b.data).msgLen ∨
                (0 = 0 ∧ (parseHeader b.data).msgLen = 0) := by omega
            exact ⟨_,_,_,rfl,hspent,fun _ => ⟨⟨_,.payload rfl rfl rfl (Nat.not_lt.mp hle) hpart⟩,
              message,hstored.congr rfl⟩,by simp⟩

theorem readPayload_ok {c : ClientInfo} {k : Sock} {message : Bytes}
    (hle : c.expectedPayloadLen ≤ bufSize) (hpart : c.payloadBytesRead ≤ c.expectedPayloadLen)
    (hstored : Stored c message) (hk : Plentiful k) :
    ∃ c' k' next, readPayload c k = .ok (c',k',next) ∧ LeavesSound k c' k' next := by
  have hread := k.read_reads (sizeSub c.expectedPayloadLen c.payloadBytesRead)
  have hspent := k.read_spends (sizeSub c.expectedPayloadLen c.payloadBytesRead)
  unfold readPayload
  rcases hr : k.read (sizeSub c.expectedPayloadLen c.payloadBytesRead) with ⟨k₁,out⟩
  rw [hr] at hread hspent
  have hk₁ := hspent.plentiful hk
  simp only
  cases out with
  | again => exact ⟨_,_,_,rfl,.ret hspent⟩
  | failed => exact ⟨_,_,_,rfl,.ret hspent⟩
  | bytes bs =>
    have hfit : c.payloadBytesRead+bs.length ≤ c.expectedPayloadLen := by
      have hsize := hread.size_le
      rw [sizeSub_of_le hpart] at hsize
      omega
    obtain ⟨b,hb⟩ := storeBytes_ok c.payloadBuffer c.payloadBytesRead bs
      (by omega)
    simp only [hb,ok_bind]
    split
    · exact ⟨_,_,_,rfl,.ret hspent⟩
    · split
      · exact ⟨_,_,_,rfl,.ret hspent⟩
      · have hgot : Stored (c.gotPayload b bs.length) message := hstored.congr rfl
        obtain ⟨c₂,k₂,happend,hspent₂,hstored₂⟩ := hgot.append_ok
          (by simp only [ClientInfo.gotPayload]; omega) (fun _ => hk₁.grants 0)
        unfold ClientInfo.gotPayload at happend
        simp only [happend,ok_bind]
        have hthrough := hspent.trans hspent₂
        split
        · obtain ⟨k₃,hcopy,hspent₃⟩ := hstored₂.copy_ok ((hthrough.plentiful hk).grants 0)
          simp only [hcopy,ok_bind]
          refine ⟨_,_,_,rfl,(hthrough.trans hspent₃).trans (.note _ (by simp)),by simp,?_⟩
          rintro copy ⟨⟩
          exact ⟨_,rfl,hstored₂⟩
        · exact ⟨_,_,_,rfl,hthrough,fun _ => ⟨⟨_,.header rfl (Nat.succ_pos 5)⟩,_,hstored₂.congr rfl⟩,
            by simp⟩

theorem readTurn_ok {c : ClientInfo} {k : Sock} (h : Sound c) (hk : Plentiful k) :
    ∃ c' k' next, readTurn c k = .ok (c',k',next) ∧ LeavesSound k c' k' next := by
  obtain ⟨⟨tail,hframe⟩,message,hstored⟩ := h
  unfold readTurn
  cases hframe with
  | header hstate hlt =>
    rw [hstate]
    exact readHeader_ok k hlt hstored
  | payload hstate hlen hdone hle hpart =>
    rw [hstate]
    exact readPayload_ok hle (by omega) hstored hk

theorem Stored.clear_ok {c : ClientInfo} {message : Bytes} (h : Stored c message) :
    ∃ c', clearClientBuffer c = .ok (c',0) := by
  obtain ⟨-,hle,-,buf,hbuf,hcap,-⟩ := h
  obtain ⟨new,hw⟩ := writeBlock_ok buf 0 (List.replicate c.partialLen 0)
    (by rw [List.length_replicate]; omega)
  unfold clearClientBuffer
  simp only [hbuf,hw,ok_bind]
  exact ⟨_,rfl⟩

theorem Stored.finish_ok {c : ClientInfo} {message : Bytes} (h : Stored c message) :
    ∃ c', finishMessage c = .ok c' ∧ Sound c' := by
  obtain ⟨i,hclear⟩ := h.clear_ok
  have hfinish : finishMessage c = .ok (switchToHeader i) := by
    unfold finishMessage
    rw [hclear]
    rfl
  exact ⟨_,hfinish,⟨_,.header rfl (Nat.succ_pos 5)⟩,[],(h.finish hfinish).1⟩

theorem Stored.storeName_ok {c : ClientInfo} {message : Bytes} (h : Stored c message) :
    ∃ c', storeClientName c = .ok c' := by
  have hread := h.readBlock (storedLen_le c)
  have hfit : 0+(message.take c.storedLen ++ [0]).length ≤ nameMax := by
    simp only [List.length_append,List.length_take,List.length_singleton,storedLen_eq]
    unfold nameMax
    omega
  unfold storeClientName
  unfold ClientInfo.storedLen at hread hfit
  simp only [hread,ok_bind]
  unfold Buf.write
  rw [dif_pos hfit]
  exact ⟨_,rfl⟩

theorem strtokR_slash {text : Bytes} (h : text.head? = some 47) :
    ∃ cmd saveptr, strtokR 32 (cstr text) = (some cmd,saveptr) := by
  cases text with
  | nil => cases h
  | cons b rest =>
    simp only [List.head?_cons,Option.some.injEq] at h
    subst h
    rw [cstr_cons (by decide)]
    unfold strtokR
    exact ⟨_,_,rfl⟩

theorem formatChat_ok {c : ClientInfo} {k : Sock} {message : Bytes}
    (h : Stored c message) (hk : k.grants 0 = true) (timestamp : Bytes) :
    ∃ k' text, formatChat c k timestamp = .ok (k',some text) := by
  obtain ⟨k₁,new,hr,-⟩ := Sock.realloc_ok hk none
    (timestamp.length+1+c.nameLen+2+c.partialLen+2)
  have hread := h.readBlock (Nat.le_refl c.partialLen)
  rw [List.take_of_length_le (by rw [h.len])] at hread
  have hfits : ¬ (chatText timestamp c.shownName message).length ≥
      timestamp.length+1+c.nameLen+2+c.partialLen+2 := by
    have hlen := h.len
    simp only [chatText,ClientInfo.shownName,List.length_append,List.length_cons,List.length_nil,
      List.length_take]
    omega
  unfold formatChat
  simp only [hr,hread,ok_bind,hfits,if_false]
  exact ⟨_,_,rfl⟩

/-- Only a chat message needs a block of its own, and a naming message no copy. -/
theorem Room.processPayload_ok {R : Room} {p : Nat} {text : Bytes} {copy : Option Bytes}
    (hstored : Stored (R.view p).info text)
    (hcopy : (R.view p).info.hasName = true → copy = some (text ++ [0]))
    (hk : (R.view p).info.hasName = true → text.head? ≠ some 47 →
      (R.view p).sock.grants 0 = true) :
    ∃ R' r, R.processPayload p copy = .ok (R',r) := by
  unfold processPayload
  split
  · obtain ⟨c,hc⟩ := hstored.storeName_ok
    unfold nameIt
    simp only [hc,ok_bind]
    exact ⟨_,_,rfl⟩
  · rename_i hname
    have hnamed : (R.view p).info.hasName = true := by simpa using hname
    rw [hcopy hnamed]
    simp only
    split
    · rename_i hslash
      obtain ⟨cmd,saveptr,htok⟩ := strtokR_slash hslash
      unfold runCommand
      simp only [htok]
      split <;> exact ⟨_,_,rfl⟩
    · rename_i hslash
      have hchat : text.head? ≠ some 47 := by
        intro hhead
        cases text with
        | nil => cases hhead
        | cons b rest => exact hslash hhead
      obtain ⟨k,line,hformat⟩ := formatChat_ok hstored (hk hnamed hchat) R.timestamp
      unfold chat
      simp only [hformat,ok_bind]
      exact ⟨_,_,rfl⟩

theorem Room.processPayload_stored {R S : Room} {p : Nat} {text : Bytes} {copy : Option Bytes}
    {r : Int} (hstored : Stored (R.view p).info text)
    (h : R.processPayload p copy = .ok (S,r)) : ∃ message, Stored (S.view p).info message := by
  by_cases hname : (R.view p).info.hasName = true
  · have hread := processPayload_unread hname h p
    simp only [ClientInfo.reading,Reading.mk.injEq] at hread
    obtain ⟨-,-,-,-,-,-,-,-,hmsg,hlen,hcap,-⟩ := hread
    exact ⟨text,hstored.congr (by simp only [ClientInfo.block,hmsg,hlen,hcap])⟩
  · obtain ⟨-,i,hstore,rfl⟩ := processPayload_name (by simpa using hname) h
    rw [view_set_self]
    exact ⟨_,(hstored.name hstore).2.congr rfl⟩

section Loop
variable {w : World} {R : Room} {p : Nat}

theorem deliver_ok (h : Refines w R) (hp : p ∈ R.members) (hfree : R.mutex = false)
    {text : Bytes} {copy : Option Bytes} (hstored : Stored (R.view p).info text)
    (hcopy : (R.view p).info.hasName = true → copy = some (text ++ [0]))
    (hk : (R.view p).info.hasName = true → text.head? ≠ some 47 →
      (R.view p).sock.grants 0 = true) :
    ∃ res, (do
      let (w,r) ← processPayload w p copy
      let w ← w.note p (.verdict r)
      if r = -1 then pure (w,some (-1))
      else
        let c ← w.client p
        let c ← finishMessage c
        pure (w.putClient p c,none) : Except Fault (World × Option Int)) = .ok res := by
  obtain ⟨S,r,hroom⟩ := Room.processPayload_ok hstored hcopy hk
  obtain ⟨w₁,hw,hS,hpS⟩ := payload_refines h hp hfree hroom
  obtain ⟨w₂,q,hw₂,-,hc₂,-⟩ := verdict_refines hS hpS r
  simp only [hw,hw₂,ok_bind]
  by_cases hneg : r = -1
  · rw [if_pos hneg]
    exact ⟨_,rfl⟩
  · rw [if_neg hneg]
    obtain ⟨message,hkept⟩ := Room.processPayload_stored hstored hroom
    obtain ⟨i,hfinish,-⟩ := hkept.finish_ok
    simp only [hc₂,ok_bind,finishMessage_withQueue,hfinish]
    exact ⟨_,rfl⟩

theorem View.reads.leaves {v v' : View} {next : Next} (h : v.reads next v')
    (hsound : Sound v.info) (hk : Plentiful v.sock) :
    LeavesSound v.sock v'.info v'.sock next := by
  obtain ⟨c,k,next',hturn,hleaves⟩ := readTurn_ok hsound hk
  rw [h.1] at hturn
  cases hturn
  exact hleaves

theorem readOnce_ok (h : Refines w R) (hp : p ∈ R.members) (hfree : R.mutex = false)
    (hsound : Sound (R.view p).info) (hk : Plentiful (R.view p).sock) :
    ∃ res, w.readOnce p = .ok res := by
  obtain ⟨c,k,next,hturn,hspent,-,hdeliver⟩ := readTurn_ok hsound hk
  obtain ⟨q,hc,hsock,hturn',href⟩ := readTurn_refines h hp hturn
  unfold World.readOnce
  simp only [hc,hsock,hturn',ok_bind]
  cases next with
  | ret r => exact ⟨_,rfl⟩
  | again => exact ⟨_,rfl⟩
  | deliver copy =>
    obtain ⟨text,rfl,hstored⟩ := hdeliver copy rfl
    exact deliver_ok href hp hfree (by simpa using hstored) (fun _ => rfl)
      (fun _ _ => by simpa using (hspent.plentiful hk).grants 0)

theorem Room.processPayload_spends {S : Room} {v : View} {copy : Option Bytes} {r : Int}
    (hp : p ∈ R.members) (h : (R.set p v).processPayload p copy = .ok (S,r)) :
    Spends v.sock ((S.view p).note (.verdict r)).sock := by
  have hserves := Room.processPayload_serves (R := R.set p v) hp h
  have hserved := Seat.served_spends (hserves.seats p hp)
  have hspent : Spends v.sock (S.view p).sock := by simpa [Room.seat] using hserved
  exact hspent.trans (Spends.note (S.view p).sock (o := .verdict r) (by simp))

theorem Room.Iterates.sound {S : Room} (h : R.Iterates p S) (hp : p ∈ R.members)
    (hsound : Sound (R.view p).info) (hk : Plentiful (R.view p).sock) :
    Sound (S.view p).info ∧ Spends (R.view p).sock (S.view p).sock := by
  cases h with
  | again hreads =>
    obtain ⟨hspent,hagain,-⟩ := hreads.leaves hsound hk
    rw [Room.view_set_self]
    exact ⟨hagain rfl,hspent⟩
  | @answered v copy S r i hreads hroom hr hfinish =>
    obtain ⟨hspent,-,hdeliver⟩ := hreads.leaves hsound hk
    obtain ⟨text,-,hstored⟩ := hdeliver copy rfl
    obtain ⟨message,hkept⟩ := Room.processPayload_stored (by simpa using hstored) hroom
    obtain ⟨i',hfin,hready⟩ := hkept.finish_ok
    rw [hfinish] at hfin
    cases hfin
    rw [Room.view_set_self]
    exact ⟨hready,hspent.trans (Room.processPayload_spends hp hroom)⟩

theorem Room.Concludes.spends {S : Room} {r : Int} (h : R.Concludes p S r) (hp : p ∈ R.members)
    (hsound : Sound (R.view p).info) (hk : Plentiful (R.view p).sock) :
    Spends (R.view p).sock (S.view p).sock := by
  cases h with
  | turn hreads =>
    rw [Room.view_set_self]
    exact (hreads.leaves hsound hk).1
  | refused hreads hroom =>
    rw [Room.view_set_self]
    exact (hreads.leaves hsound hk).1.trans (Room.processPayload_spends hp hroom)

theorem Room.Concludes.members {S : Room} {r : Int} (h : R.Concludes p S r) (hp : p ∈ R.members) :
    S.members = R.members := by
  cases h with
  | turn => rfl
  | refused _ hroom => exact (Room.processPayload_serves (R := R.set p _) hp hroom).members

/-- The loop returns, from every room in which the reader of `p` is in order. -/
theorem handleClientReadLoop_ok (fuel : Nat) (h : Refines w R) (hp : p ∈ R.members)
    (hfree : R.mutex = false) (hfuel : readMeasure (R.view p) < fuel)
    (hsound : Sound (R.view p).info) (hk : Plentiful (R.view p).sock) :
    ∃ res, handleClientReadLoop fuel w p = .ok res ∧ ∃ R', Refines res.1 R' ∧
      R'.members = R.members ∧ Spends (R.view p).sock (R'.view p).sock := by
  induction fuel generalizing w R with
  | zero => omega
  | succ fuel ih =>
    obtain ⟨⟨w₁,done⟩,honce⟩ := readOnce_ok h hp hfree hsound hk
    have hres := (readOnce_refines h hp hfree).of_ok honce
    rw [loop_once,honce]
    cases done with
    | some r =>
      obtain ⟨S,hstop,href⟩ := hres
      exact ⟨_,rfl,S,href,hstop.members hp,hstop.spends hp hsound hk⟩
    | none =>
      obtain ⟨S,hi,href⟩ := hres
      have hmem := hi.members hp
      have hless := hi.measure hp
      obtain ⟨hsoundS,hspent⟩ := hi.sound hp hsound hk
      obtain ⟨res,hres,R',href',hmem',hspent'⟩ := ih href (by rw [hmem]; exact hp)
        ((hi.mutex hp).trans hfree) (by omega) hsoundS (hspent.plentiful hk)
      exact ⟨res,hres,R',href',hmem'.trans hmem,hspent.trans hspent'⟩

theorem handleClientRead_ok (h : Refines w R) (hp : p ∈ R.members) (hfree : R.mutex = false)
    (hsound : Sound (R.view p).info) (hk : Plentiful (R.view p).sock) :
    ∃ res, handleClientRead w p = .ok res ∧ ∃ R', Refines res.1 R' ∧ p ∈ R'.members ∧
      Spends (R.view p).sock (R'.view p).sock := by
  have href := h
  obtain ⟨A,h⟩ := h
  obtain ⟨q,hc,hsock,-,-⟩ := h.access hp
  have hsock' : w.sock ((R.view p).info.withQueue q).clientFd = .ok (R.view p).sock := hsock
  obtain ⟨⟨w₁,r⟩,hres,S,hS,hmem,hspent⟩ :=
    handleClientReadLoop_ok _ href hp hfree (readMeasure_lt _) hsound hk
  have hpS : p ∈ S.members := by
    rw [hmem]
    exact hp
  obtain ⟨w₂,hw₂,h₂⟩ := note_refines hS hpS (.readReturned r)
  unfold handleClientRead
  simp only [hc,hsock',ok_bind,hres,hw₂]
  refine ⟨_,rfl,_,h₂,hpS,?_⟩
  rw [Room.view_set_self]
  exact hspent.trans (.note _ (by simp))

end Loop
end ChatServer
