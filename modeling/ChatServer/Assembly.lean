import ChatServer.ReaderBounds

/-! Allocation failures while a message is put together: which allocations the
rest of a frame depends on, and what becomes of the message without them. -/
set_option autoImplicit false

namespace ChatServer
open ByteString Memory Execution Relation

/-- When `append_to_client_buffer` returns -1, the pointer to the block, its
contents, the length and the capacity are as before. -/
def AppendKeeps (c : ClientInfo) (k : Sock) : Prop :=
  ∀ c' k', appendToClientBuffer c k = .ok (c',k',-1) → c'.block = c.block

def ClientInfo.growths (c : ClientInfo) : Nat := if c.grows then 1 else 0

def ClientInfo.assembled (c : ClientInfo) : Bytes :=
  (c.partialMsg.getD []).take c.partialLen ++ c.payloadBuffer.data.take c.payloadBytesRead

/-- At a call of `append_to_client_buffer`, the rest of the frame gets what it
needs: a block to append to, the copy of a message, a naming message apart, and
the text of a chat message. -/
structure Supplied (c : ClientInfo) (k : Sock) : Prop where
  append : c.grows = true → k.grants 0 = true
  buffer : c.partialMsg = none → c.payloadBytesRead = 0 ∧ c.msgDone = 0
  copy : c.msgDone ≠ 0 → c.hasName = true → k.grants c.growths = true
  format : c.msgDone ≠ 0 → c.hasName = true → c.assembled.head? ≠ some 47 →
    k.grants (c.growths+1) = true

inductive Appends (p : Nat) (w : World) : ClientInfo → Sock → Prop
  | call {c : ClientInfo} {k k' : Sock} {bs : Bytes} {b : Buf bufSize} (hc : w.client p = .ok c)
      (hk : w.sock c.clientFd = .ok k) (hstate : c.state = .readPayload)
      (hread : k.read (sizeSub c.expectedPayloadLen c.payloadBytesRead) = (k',.bytes bs))
      (hstore : storeBytes c.payloadBuffer c.payloadBytesRead bs = .ok b)
      (hfull : c.payloadBytesRead+bs.length = c.expectedPayloadLen) :
      Appends p w (c.gotPayload b bs.length) k'

/-- What `process_payload` is given holds the whole message `m`, the last one that the
bytes so far complete: the client's block does, and the copy, unless it is a null pointer. -/
def GivenWhole (p : Nat) (w : World) (copy : Option Bytes) : Prop :=
  ∃ c k ms m, w.Shows p c k ∧ (decode (fun _ => false) (received k.trace)).messages = ms ++ [m] ∧
    Stored c m ∧ ∀ bs, copy = some bs → bs = m ++ [0]

/-- The call of `handle_client_read` for `p` loses nothing silently. -/
structure Lossless (p : Nat) (w : World) : Prop where
  kept : ∀ w' c k, Turns p w w' → Appends p w' c k → AppendKeeps c k
  sound : handleClientRead w p ≠ .error .nullPointer
  whole : ∀ w' copy, Delivers p w w' copy → GivenWhole p w' copy

section Append
variable {c c' : ClientInfo} {k k' : Sock} {r : Int} {message : Bytes}

theorem append_fails (hgrow : c.grows = true) (hfail : k.grants 0 = false) :
    ∃ k', appendToClientBuffer c k = .ok ({ c with
      partialCap := growCap (c.partialLen+c.payloadBytesRead) c.partialCap
        (c.partialLen+c.payloadBytesRead), partialMsg := none },k',-1) := by
  have hmore : c.partialLen+c.payloadBytesRead > c.partialCap := of_decide_eq_true hgrow
  obtain ⟨k',hr⟩ := Sock.realloc_fails hfail c.partialMsg (growCap
    (c.partialLen+c.payloadBytesRead) c.partialCap (c.partialLen+c.payloadBytesRead))
  refine ⟨k',?_⟩
  unfold appendToClientBuffer
  simp only [hmore,if_true,hr,Option.isSome_none,Bool.false_eq_true,if_false]
  rfl

theorem append_failed (h : appendToClientBuffer c k = .ok (c',k',-1)) :
    c.grows = true ∧ k.grants 0 = false := by
  generalize hr : (-1 : Int) = r at h
  cases appendToClientBuffer_appended h with
  | fits => cases hr
  | grown => cases hr
  | failed hgrow hrealloc =>
    refine ⟨decide_eq_true hgrow,?_⟩
    by_contra hgrants
    obtain ⟨k₁,new,hok,-⟩ := Sock.realloc_ok (by simpa using hgrants) c.partialMsg (growCap
      (c.partialLen+c.payloadBytesRead) c.partialCap (c.partialLen+c.payloadBytesRead))
    rw [hrealloc] at hok
    cases hok

/-- The capacity has been doubled before the failure is noticed. -/
theorem appendKeeps_iff (hcap : 0 < c.partialCap) :
    AppendKeeps c k ↔ (c.grows = true → k.grants 0 = true) := by
  constructor
  · intro hkeeps hgrow
    by_contra hgrants
    obtain ⟨k',happend⟩ := append_fails (k := k) hgrow (by simpa using hgrants)
    have hsame := congrArg (fun b => b.2.2) (hkeeps _ _ happend)
    have hdouble := growCap_double (of_decide_eq_true hgrow)
    simp only [ClientInfo.block] at hsame
    omega
  · intro hgrants c' k' happend
    obtain ⟨hgrow,hfail⟩ := append_failed happend
    rw [hgrants hgrow] at hfail
    cases hfail

theorem Sock.realloc_grants (k : Sock) (old : Option Bytes) (size i : Nat) :
    (k.realloc old size).1.grants i = k.grants (i+1) := by
  unfold Sock.grants
  rw [k.realloc_blocks]
  cases k.oracle.blocks <;> simp

theorem append_grants (h : appendToClientBuffer c k = .ok (c',k',r)) (i : Nat) :
    k'.grants i = k.grants (c.growths+i) := by
  unfold ClientInfo.growths ClientInfo.grows
  have hgrants := k.realloc_grants c.partialMsg (growCap (c.partialLen+c.payloadBytesRead)
    c.partialCap (c.partialLen+c.payloadBytesRead)) i
  cases appendToClientBuffer_appended h with
  | fits hfits _ => rw [decide_eq_false hfits,if_neg (by decide),Nat.zero_add]
  | grown hgrow hrealloc _ =>
    rw [hrealloc] at hgrants
    rw [decide_eq_true hgrow,if_pos rfl,Nat.add_comm]
    exact hgrants
  | failed hgrow hrealloc =>
    rw [hrealloc] at hgrants
    rw [decide_eq_true hgrow,if_pos rfl,Nat.add_comm]
    exact hgrants

theorem copyBuffer_grants {src copy : Option Bytes} {size : Nat}
    (h : copyBuffer k src size = .ok (k',copy)) (i : Nat) : k'.grants i = k.grants (i+1) := by
  have hgrants := k.realloc_grants none (size+1) i
  unfold copyBuffer at h
  rcases hr : k.realloc none (size+1) with ⟨k₁,block⟩
  rw [hr] at hgrants
  simp only [hr] at h
  rw [← hgrants]
  cases block with
  | none =>
    cases h
    rfl
  | some new =>
    cases hb : readBlock src size with
    | error e => simp [hb] at h
    | ok bs =>
      simp only [hb,ok_bind] at h
      cases h
      rfl

theorem copyBuffer_fails (hfail : k.grants 0 = false) (src : Option Bytes) (size : Nat) :
    ∃ k', copyBuffer k src size = .ok (k',none) := by
  obtain ⟨k',hr⟩ := Sock.realloc_fails hfail none (size+1)
  unfold copyBuffer
  rw [hr]
  exact ⟨k',rfl⟩

theorem append_same (h : appendToClientBuffer c k = .ok (c',k',r)) :
    c'.msgDone = c.msgDone ∧ c'.hasName = c.hasName := by
  have hframe := (appendToClientBuffer_frame h).2
  constructor <;> rw [hframe]

end Append

/-- From the call of `append_to_client_buffer` to the call of `process_payload`,
or to the next header. -/
def restOfFrame (c : ClientInfo) (k : Sock) : Except Fault (ClientInfo × Sock × Next) := do
  let (c,k,_) ← appendToClientBuffer c k
  if c.msgDone ≠ 0 then
    let (k,copy) ← copyBuffer k c.partialMsg c.partialLen
    pure (c,k.note (.message (copy.map List.dropLast)),.deliver copy)
  else pure (switchToHeader c,k,.again)

inductive Doomed (c : ClientInfo) (k : Sock) : Option Bytes → Prop
  | noCopy (hname : c.hasName = true) : Doomed c k none
  | noBlock (hlost : Lost c) : Doomed c k none
  | noText {text : Bytes} (hname : c.hasName = true) (hstored : Stored c text)
      (hchat : text.head? ≠ some 47) (hfail : k.grants 0 = false) : Doomed c k (some (text ++ [0]))

theorem Room.processPayload_doomed {R : Room} {p : Nat} {copy : Option Bytes}
    (h : Doomed (R.view p).info (R.view p).sock copy) :
    R.processPayload p copy = .error .nullPointer := by
  unfold processPayload
  cases h with
  | noCopy hname => rw [if_neg (by simp [hname])]
  | noBlock hlost =>
    split
    · have hpos := hlost.pos
      have hread := hlost.readBlock (n := (R.view p).info.storedLen) (by
        rw [storedLen_eq]
        unfold nameMax
        omega)
      unfold ClientInfo.storedLen at hread
      unfold nameIt storeClientName
      simp only [hread,error_bind]
    · rfl
  | @noText text hname hstored hchat hfail =>
    have hhead : (text ++ [0]).head? ≠ some 47 := by
      cases text with
      | nil => simp
      | cons b rest => exact hchat
    have hformat : ∃ k', formatChat (R.view p).info (R.view p).sock R.timestamp =
        .ok (k',none) := by
      rw [formatChat_stored hstored]
      obtain ⟨k',hr⟩ := Sock.realloc_fails hfail none
        (R.timestamp.length+1+(R.view p).info.nameLen+2+text.length+2)
      rw [hr]
      exact ⟨k',rfl⟩
    obtain ⟨k',hk'⟩ := hformat
    rw [if_neg (by simp [hname])]
    simp only [hhead,if_false]
    unfold chat
    simp only [hk',ok_bind,error_bind]

section Frames
variable {c : ClientInfo} {k : Sock} {message : Bytes}

theorem assembled_eq (h : Stored c message) :
    c.assembled = message ++ c.payloadBuffer.data.take c.payloadBytesRead := by
  obtain ⟨-,-,-,buf,hbuf,-,htake⟩ := h
  unfold ClientInfo.assembled
  rw [hbuf,← htake]
  rfl

theorem Holding.stored_of_block {trace : List Obs} (h : Holding c trace message)
    (hblock : c.partialMsg ≠ none) : Stored c message := by
  rcases h with hstored | ⟨hlost,-⟩
  · exact hstored
  · exact absurd hlost.block hblock

theorem Holding.lost_of_null {trace : List Obs} (h : Holding c trace message)
    (hnull : c.partialMsg = none) : Lost c := by
  rcases h with hstored | ⟨hlost,-⟩
  · obtain ⟨buf,hbuf,-⟩ := hstored.block
    rw [hnull] at hbuf
    cases hbuf
  · exact hlost

theorem Holding.cap_pos {trace : List Obs} (h : Holding c trace message) :
    0 < c.partialCap := by
  rcases h with hstored | ⟨hlost,-⟩
  · have hlarge := hstored.large
    unfold bufSize at hlarge
    omega
  · have hroom := hlost.room
    unfold bufSize at hroom
    omega

theorem Lost.not_grows (h : Lost c) (hsize : c.payloadBytesRead ≤ bufSize) :
    c.grows = false := by
  have hroom := h.room
  exact decide_eq_false (by omega)

theorem Lost.append_eq (h : Lost c) (hsize : c.payloadBytesRead ≤ bufSize) :
    appendToClientBuffer c k = if c.payloadBytesRead = 0 then .ok (c,k,0)
      else .error .nullPointer := by
  have hless : ¬ c.partialLen+c.payloadBytesRead > c.partialCap :=
    of_decide_eq_false (h.not_grows hsize)
  have hlen := fragment_length hsize
  unfold appendToClientBuffer
  simp only [hless,if_false,if_true]
  rw [h.block]
  unfold writeBlock
  by_cases hzero : c.payloadBytesRead = 0
  · have hnil : c.payloadBuffer.data.take c.payloadBytesRead = [] := by rw [hzero]; rfl
    have hsame : ({ c with partialMsg := none, partialLen := c.partialLen+c.payloadBytesRead } :
        ClientInfo) = c := by
      have hnothing : c.partialLen+c.payloadBytesRead = c.partialLen := by omega
      rw [hnothing,← h.block]
    simp only [hnil,if_true,ok_bind,hsame,if_pos hzero,pure_eq_ok]
  · have hne : c.payloadBuffer.data.take c.payloadBytesRead ≠ [] := by
      intro hnil
      rw [hnil] at hlen
      exact hzero hlen.symm
    simp only [hne,if_false,error_bind,if_neg hzero]

theorem supplied_rest (hhold : Holding c k.trace message) (hsize : c.payloadBytesRead ≤ bufSize)
    (hs : Supplied c k) : ∃ c' k' next, restOfFrame c k = .ok (c',k',next) ∧
      ∀ copy, next = .deliver copy → ∃ text, Stored c' text ∧
        (c'.hasName = true → copy = some (text ++ [0])) ∧
        (c'.hasName = true → text.head? ≠ some 47 → k'.grants 0 = true) := by
  unfold restOfFrame
  by_cases hnull : c.partialMsg = none
  · obtain ⟨hzero,hmore⟩ := hs.buffer hnull
    rw [(hhold.lost_of_null hnull).append_eq hsize,if_pos hzero]
    simp only [ok_bind,hmore,ne_eq,not_true_eq_false,if_false]
    exact ⟨_,_,_,rfl,fun copy hcopy => by cases hcopy⟩
  · have hstored := hhold.stored_of_block hnull
    obtain ⟨c₂,k₂,happend,-,hstored₂⟩ := hstored.append_ok hsize hs.append
    rw [← assembled_eq hstored] at hstored₂
    obtain ⟨hdone,hname⟩ := append_same happend
    simp only [happend,ok_bind]
    by_cases hfinal : c₂.msgDone ≠ 0
    · have hfinal' : c.msgDone ≠ 0 := hdone ▸ hfinal
      rw [if_pos hfinal]
      cases hgrants : k₂.grants 0 with
      | true =>
        obtain ⟨k₃,hcopy,-⟩ := hstored₂.copy_ok hgrants
        rw [hcopy]
        refine ⟨_,_,_,rfl,fun copy hnext => ?_⟩
        cases hnext
        refine ⟨_,hstored₂,fun _ => rfl,fun hnamed hchat => ?_⟩
        have hformat := hs.format hfinal' (hname ▸ hnamed) hchat
        rw [← append_grants happend,← copyBuffer_grants hcopy] at hformat
        exact hformat
      | false =>
        have hunnamed : ¬ c₂.hasName = true := by
          intro hnamed
          have hcopy := hs.copy hfinal' (hname ▸ hnamed)
          rw [← Nat.add_zero c.growths,← append_grants happend,hgrants] at hcopy
          cases hcopy
        obtain ⟨k₃,hcopy⟩ := copyBuffer_fails hgrants c₂.partialMsg c₂.partialLen
        rw [hcopy]
        refine ⟨_,_,_,rfl,fun copy hnext => ⟨_,hstored₂,?_,?_⟩⟩
        · exact fun hnamed => absurd hnamed hunnamed
        · exact fun hnamed => absurd hnamed hunnamed
    · rw [if_neg hfinal]
      exact ⟨_,_,_,rfl,fun copy hcopy => by cases hcopy⟩

theorem unsupplied_rest (hhold : Holding c k.trace message) (hsize : c.payloadBytesRead ≤ bufSize)
    (hs : ¬ Supplied c k) : ¬ AppendKeeps c k ∨ restOfFrame c k = .error .nullPointer ∨
      ∃ c' k' copy, restOfFrame c k = .ok (c',k',.deliver copy) ∧ Doomed c' k' copy := by
  by_cases hgrants : c.grows = true → k.grants 0 = true
  swap
  · exact .inl (fun hkeeps => hgrants ((appendKeeps_iff hhold.cap_pos).mp hkeeps))
  right
  unfold restOfFrame
  by_cases hnull : c.partialMsg = none
  · have hlost := hhold.lost_of_null hnull
    have hgrow := hlost.not_grows hsize
    rw [hlost.append_eq hsize]
    by_cases hzero : c.payloadBytesRead = 0
    · have hfinal : c.msgDone ≠ 0 := by
        intro hmore
        exact hs ⟨hgrants,fun _ => ⟨hzero,hmore⟩,fun h => absurd hmore h,
          fun h => absurd hmore h⟩
      rw [if_pos hzero]
      simp only [ok_bind,if_pos hfinal]
      cases hfirst : k.grants 0 with
      | true =>
        obtain ⟨k₁,new,hr,-⟩ := Sock.realloc_ok hfirst none (c.partialLen+1)
        refine .inl ?_
        unfold copyBuffer
        simp only [hr,hlost.readBlock hlost.pos,error_bind]
      | false =>
        obtain ⟨k₃,hcopy⟩ := copyBuffer_fails hfirst c.partialMsg c.partialLen
        rw [hcopy]
        exact .inr ⟨_,_,_,rfl,.noBlock hlost⟩
    · rw [if_neg hzero]
      exact .inl rfl
  · have hstored := hhold.stored_of_block hnull
    obtain ⟨c₂,k₂,happend,-,hstored₂⟩ := hstored.append_ok hsize hgrants
    rw [← assembled_eq hstored] at hstored₂
    obtain ⟨hdone,hname⟩ := append_same happend
    have hshift : k₂.grants 0 = k.grants c.growths := append_grants happend 0
    simp only [happend,ok_bind]
    right
    by_cases hcopies : c.msgDone ≠ 0 → c.hasName = true → k.grants c.growths = true
    · have hformats : ¬ (c.msgDone ≠ 0 → c.hasName = true → c.assembled.head? ≠ some 47 →
          k.grants (c.growths+1) = true) :=
        fun h => hs ⟨hgrants,fun h' => absurd h' hnull,hcopies,h⟩
      push Not at hformats
      obtain ⟨hfinal,hnamed,hchat,hfail⟩ := hformats
      rw [if_pos (hdone ▸ hfinal)]
      obtain ⟨k₃,hcopy,-⟩ := hstored₂.copy_ok (hshift.trans (hcopies hfinal hnamed))
      rw [hcopy]
      refine ⟨_,_,_,rfl,.noText (hname.trans hnamed) hstored₂ hchat ?_⟩
      have hlast := copyBuffer_grants hcopy 0
      rw [append_grants happend] at hlast
      exact hlast.trans (by simpa using hfail)
    · push Not at hcopies
      obtain ⟨hfinal,hnamed,hfail⟩ := hcopies
      rw [if_pos (hdone ▸ hfinal)]
      obtain ⟨k₃,hcopy⟩ := copyBuffer_fails (hshift.trans (by simpa using hfail))
        c₂.partialMsg c₂.partialLen
      rw [hcopy]
      exact ⟨_,_,_,rfl,.noCopy (hname.trans hnamed)⟩

end Frames

theorem loop_fault {fuel : Nat} {w : World} {p : Nat} {e : Fault}
    (h : handleClientReadLoop fuel w p = .error e) :
    e = .outOfFuel ∨ ∃ w', Turns p w w' ∧ w'.readOnce p = .error e := by
  induction fuel generalizing w with
  | zero =>
    cases h
    exact .inl rfl
  | succ fuel ih =>
    rw [loop_once] at h
    cases honce : w.readOnce p with
    | error e' =>
      rw [honce] at h
      cases h
      exact .inr ⟨w,.start w,honce⟩
    | ok res =>
      obtain ⟨w₁,done⟩ := res
      rw [honce] at h
      cases done with
      | some r => cases h
      | none =>
        rcases ih h with hfuel | ⟨w',hturns,hfault⟩
        · exact .inl hfuel
        · exact .inr ⟨w',(readOnce_iterates honce).turns hturns,hfault⟩

theorem Turns.fault {w w' : World} {p : Nat} {e : Fault} (h : Turns p w w')
    (hfault : w'.readOnce p = .error e) (fuel : Nat) :
    handleClientReadLoop fuel w p = .error e ∨
      handleClientReadLoop fuel w p = .error .outOfFuel := by
  rcases h.loop fuel with hfuel | ⟨n,hloop⟩
  · exact .inr hfuel
  · left
    rw [hloop,loop_once,hfault]
    rfl

section Iteration
variable {w : World} {R : Room} {p : Nat} {c c₁ : ClientInfo} {k k₁ : Sock}

theorem Appends.turn (h : Appends p w c₁ k₁) (hc : w.client p = .ok c)
    (hk : w.sock c.clientFd = .ok k) :
    readTurn c k = restOfFrame c₁ k₁ ∧ c₁.block = c.block ∧
      c₁.payloadBytesRead = c.expectedPayloadLen ∧ c.state = .readPayload ∧
      ∀ o ∈ k.trace, o ∈ k₁.trace := by
  cases h with
  | @call c' k' _ bs b hc' hk' hstate hread hstore hfull =>
    rw [hc] at hc'
    cases hc'
    rw [hk] at hk'
    cases hk'
    have hshort : ¬ c.payloadBytesRead+bs.length < c.expectedPayloadLen := by omega
    have hlong : ¬ c.payloadBytesRead+bs.length > c.expectedPayloadLen := by omega
    refine ⟨?_,rfl,hfull,hstate,?_⟩
    · unfold readTurn
      rw [hstate]
      unfold readPayload restOfFrame
      simp only [hread,hstore,ok_bind,hshort,hlong,if_false]
      rfl
    · have hreads := k.read_reads (sizeSub c.expectedPayloadLen c.payloadBytesRead)
      rw [hread] at hreads
      obtain ⟨more,htrace,-⟩ := hreads.trace
      intro o ho
      rw [htrace]
      exact List.mem_append_left _ ho

theorem readTurn_other (hc : w.client p = .ok c) (hk : w.sock c.clientFd = .ok k)
    (hno : ∀ c₁ k₁, ¬ Appends p w c₁ k₁) :
    Holds (fun e => e ≠ .nullPointer) (readTurn c k)
      (fun res => ∀ copy, res.2.2 ≠ .deliver copy) := by
  have hstores : ∀ {n : Nat} (b : Buf n) (off : Nat) (bs : Bytes),
      Holds (fun e => e ≠ .nullPointer) (storeBytes b off bs)
        (fun b' => storeBytes b off bs = .ok b') := by
    intro n b off bs
    unfold storeBytes
    cases b.write off bs with
    | none => exact fun h => by cases h
    | some b' => rfl
  unfold readTurn
  cases hstate : c.state with
  | readHeader =>
    unfold readHeader
    simp only
    split
    · exact fun copy h => by cases h
    · exact fun copy h => by cases h
    · exact fun copy h => by cases h
    · refine (hstores _ _ _).bind (fun b _ => ?_)
      repeat' split
      all_goals exact fun copy h => by cases h
  | readPayload =>
    unfold readPayload
    rcases hread : k.read (sizeSub c.expectedPayloadLen c.payloadBytesRead) with ⟨k',out⟩
    cases out with
    | again => exact fun copy h => by cases h
    | failed => exact fun copy h => by cases h
    | bytes bs =>
      simp only
      refine (hstores _ _ _).bind (fun b hstore => ?_)
      split
      · exact fun copy h => by cases h
      · split
        · exact fun copy h => by cases h
        · rename_i hshort hlong
          have hfull : c.payloadBytesRead+bs.length = c.expectedPayloadLen :=
            Nat.le_antisymm (Nat.not_lt.mp hlong) (Nat.not_lt.mp hshort)
          exact absurd (.call hc hk hstate hread hstore hfull) (hno _ _)

theorem Refines.looks (h : Refines w R) (hp : p ∈ R.members) :
    ∃ c k, w.client p = .ok c ∧ w.sock c.clientFd = .ok k ∧ w.Shows p c k := by
  obtain ⟨q,hshows⟩ := h.shows hp
  exact ⟨_,_,World.client_eq_ok hshows.info,World.sock_eq_ok hshows.sock,hshows⟩

theorem Doomed.withQueue {c : ClientInfo} {q : MsgQueue} {copy : Option Bytes}
    (h : Doomed (c.withQueue q) k copy) : Doomed c k copy := by
  cases h with
  | noCopy hname => exact .noCopy hname
  | noBlock hlost => exact .noBlock (hlost.congr rfl)
  | noText hname hstored hchat hfail => exact .noText hname (hstored.congr rfl) hchat hfail

theorem turn_shown (h : Refines w R) (hp : p ∈ R.members) (hc : w.client p = .ok c)
    (hk : w.sock c.clientFd = .ok k) {next : Next} (hturn : readTurn c k = .ok (c₁,k₁,next)) :
    ∃ S, Refines (w.put p c₁ k₁) S ∧ S.members = R.members ∧ S.mutex = R.mutex ∧
      (∃ q, c₁ = (S.view p).info.withQueue q) ∧ k₁ = (S.view p).sock := by
  obtain ⟨v,-,href⟩ := worldTurn_refines h hp hc hk hturn
  have hshows : (w.put p c₁ k₁).Shows p c₁ k₁ := ⟨Heap.get_set_self _ _ _,Heap.get_set_self _ _ _⟩
  exact ⟨_,href,rfl,rfl,href.shown hp hshows⟩

theorem Appends.finds (h : Refines w R) (hp : p ∈ R.members) {tail message : Bytes}
    (hframe : CurrentFrame (R.view p).info tail)
    (hhold : Holding (R.view p).info (R.view p).sock.trace message)
    (happends : Appends p w c₁ k₁) :
    ∃ c k, w.client p = .ok c ∧ w.sock c.clientFd = .ok k ∧ readTurn c k = restOfFrame c₁ k₁ ∧
      Holding c₁ k₁.trace message ∧ c₁.payloadBytesRead ≤ bufSize := by
  obtain ⟨c,k,hc,hk,hshows⟩ := h.looks hp
  obtain ⟨⟨q,rfl⟩,rfl⟩ := h.shown hp hshows
  obtain ⟨hturn,hblock,hread,hstate,htrace⟩ := happends.turn hc hk
  refine ⟨_,_,hc,hk,hturn,hhold.keep hblock htrace,?_⟩
  rw [hread]
  cases hframe with
  | header hheader =>
    have hpayload : (R.view p).info.state = .readPayload := hstate
    rw [hheader] at hpayload
    cases hpayload
  | payload _ _ _ hle => exact hle

theorem readOnce_supplied (h : Refines w R) (hp : p ∈ R.members) (hfree : R.mutex = false)
    {tail message : Bytes} (hframe : CurrentFrame (R.view p).info tail)
    (hhold : Holding (R.view p).info (R.view p).sock.trace message)
    (hs : ∀ c k, Appends p w c k → Supplied c k) : w.readOnce p ≠ .error .nullPointer := by
  by_cases happends : ∃ c k, Appends p w c k
  · obtain ⟨c₁,k₁,happends⟩ := happends
    obtain ⟨c,k,hc,hk,hturn,hhold₁,hsize⟩ := happends.finds h hp hframe hhold
    obtain ⟨c₂,k₂,next,hrest,hdeliver⟩ := supplied_rest hhold₁ hsize (hs _ _ happends)
    rw [hrest] at hturn
    unfold World.readOnce
    simp only [hc,hk,hturn,ok_bind]
    cases next with
    | ret r => exact fun he => by cases he
    | again => exact fun he => by cases he
    | deliver copy =>
      obtain ⟨text,hstored,hcopy,htext⟩ := hdeliver copy rfl
      obtain ⟨S,href,hmem,hmutex,⟨q,rfl⟩,rfl⟩ := turn_shown h hp hc hk hturn
      obtain ⟨res,hres⟩ := deliver_ok href (by rw [hmem]; exact hp) (hmutex.trans hfree)
        (hstored.congr rfl) hcopy htext
      exact fun he => by cases hres.symm.trans he
  · obtain ⟨c,k,hc,hk,-⟩ := h.looks hp
    have hother := readTurn_other hc hk (fun c₁ k₁ h₁ => happends ⟨c₁,k₁,h₁⟩)
    unfold World.readOnce
    simp only [hc,hk,ok_bind]
    cases hturn : readTurn c k with
    | error e =>
      have hne := hother.of_error hturn
      exact fun he => hne (by cases he; rfl)
    | ok res =>
      obtain ⟨c',k',next⟩ := res
      have hnone := hother.of_ok hturn
      cases next with
      | ret r => exact fun he => by cases he
      | again => exact fun he => by cases he
      | deliver copy => exact absurd rfl (hnone copy)

theorem readOnce_unsupplied (h : Refines w R) (hp : p ∈ R.members) (hfree : R.mutex = false)
    {tail message : Bytes} (hframe : CurrentFrame (R.view p).info tail)
    (hhold : Holding (R.view p).info (R.view p).sock.trace message)
    (happends : Appends p w c₁ k₁) (hs : ¬ Supplied c₁ k₁) :
    ¬ AppendKeeps c₁ k₁ ∨ w.readOnce p = .error .nullPointer := by
  obtain ⟨c,k,hc,hk,hturn,hhold₁,hsize⟩ := happends.finds h hp hframe hhold
  rcases unsupplied_rest hhold₁ hsize hs with hlost | hnull | ⟨c₂,k₂,copy,hrest,hdoomed⟩
  · exact .inl hlost
  · right
    unfold World.readOnce
    simp only [hc,hk,hturn,hnull,ok_bind,error_bind]
  · right
    rw [hrest] at hturn
    obtain ⟨S,href,hmem,hmutex,⟨q,rfl⟩,rfl⟩ := turn_shown h hp hc hk hturn
    have hmatch := processPayload_refines href (by rw [hmem]; exact hp) (hmutex.trans hfree) copy
    rw [Room.processPayload_doomed hdoomed.withQueue] at hmatch
    unfold World.readOnce
    simp only [hc,hk,hturn,hmatch.eq_error,ok_bind,error_bind]

end Iteration

section Runs
variable {acts : List Action} {s : Sys} {p : Nat} {c : ClientInfo} {k : Sock} {w : World}

/-- Where the loop begins an iteration, the reader is in order, and a failed allocation
is the only reason for not holding the message. -/
theorem turns_holding (hrun : run step Sys.init acts = .ok s) (hphase : s.phase ≠ .done)
    (h : Listed s p c k) (hopen : c.closed = false) (ht : Turns p s.world w) :
    ∃ R, Refines w R ∧ p ∈ R.members ∧ R.mutex = false ∧ ∃ tail message,
      CurrentFrame (R.view p).info tail ∧
      Holding (R.view p).info (R.view p).sock.trace message := by
  obtain ⟨R,htracks,hseated,hacts⟩ := run_tracks hrun hphase
  have hnone : ∀ p, p ∉ Room.empty.members := by simp [Room.empty]
  obtain ⟨hp,hseats⟩ := htracks.seats hseated h
  have hopen' : (R.view p).info.closed = false := hseats.closed.trans hopen
  obtain ⟨S,hreach,hpS,hfree,hopenS,href⟩ :=
    turns_refines ht htracks.refines hp htracks.mutex hopen'
  have hall := hacts.trans hreach
  have hstops := reach_stops hall (fun p hp => absurd hp (hnone p)) p hpS
  rw [hopenS] at hstops
  obtain ⟨ms,-,-,hparses⟩ :=
    reach_heard hall (fun p hp => absurd hp (hnone p)) p hpS _ hstops.foretells
  obtain ⟨done,tail,message,-,hframe,-,hhold⟩ := hparses hopenS
  exact ⟨S,href,hpS,hfree,tail,message,hframe,hhold⟩

theorem note_notNull (w : World) (p : Nat) (o : Obs) : w.note p o ≠ .error .nullPointer := by
  unfold World.note World.client World.sock
  cases w.clients.get p with
  | none => exact fun h => by cases h
  | some c =>
    simp only [ok_bind]
    cases w.socks.get c.clientFd <;> exact fun h => by cases h

/-- The call follows a null pointer exactly when one of its iterations does. -/
theorem call_null_iff (hrun : run step Sys.init acts = .ok s) (hphase : s.phase ≠ .done)
    (h : Listed s p c k) (hopen : c.closed = false) :
    handleClientRead s.world p = .error .nullPointer ↔
      ∃ w, Turns p s.world w ∧ w.readOnce p = .error .nullPointer := by
  have hc := World.client_eq_ok h.info
  have hk := World.sock_eq_ok h.sock
  obtain ⟨R,htracks,hseated,-⟩ := run_tracks hrun hphase
  obtain ⟨hp,hseats⟩ := htracks.seats hseated h
  have hcrash := handleClientRead_refines htracks.refines hp htracks.mutex
    (hseats.closed.trans hopen)
  unfold handleClientRead at hcrash ⊢
  simp only [hc,hk,ok_bind] at hcrash ⊢
  constructor
  · intro hnull
    cases hloop : handleClientReadLoop (2*k.inbox.length+2) s.world p with
    | error e =>
      rw [hloop] at hnull
      cases hnull
      rcases loop_fault hloop with hfuel | hfault
      · cases hfuel
      · exact hfault
    | ok res =>
      rw [hloop] at hnull
      simp only [ok_bind] at hnull
      cases hnote : res.1.note p (.readReturned res.2) with
      | error e =>
        rw [hnote] at hnull
        cases hnull
        exact absurd hnote (note_notNull _ _ _)
      | ok w₁ =>
        rw [hnote] at hnull
        cases hnull
  · rintro ⟨w,hturns,hfault⟩
    rcases hturns.fault hfault (2*k.inbox.length+2) with hloop | hloop
    · rw [hloop]
      rfl
    · rw [hloop] at hcrash
      rcases hcrash with hnull | hbounds
      · cases hnull
      · cases hbounds

theorem supplied_delivers (hrun : run step Sys.init acts = .ok s) (hphase : s.phase ≠ .done)
    (h : Listed s p c k) (hopen : c.closed = false)
    (hs : ∀ w c₁ k₁, Turns p s.world w → Appends p w c₁ k₁ → Supplied c₁ k₁)
    {copy : Option Bytes} (hd : Delivers p s.world w copy) {c' : ClientInfo} {k' : Sock}
    (hshows : w.Shows p c' k') : c'.partialMsg ≠ none := by
  obtain ⟨w₁,c₀,k₀,c₁,k₁,hturns,hc,hk,hturn,rfl⟩ := hd.turns
  obtain rfl : c₁ = c' := Option.some.inj ((Heap.get_set_self _ _ _).symm.trans hshows.info)
  obtain ⟨R,href,hp,-,tail,message,hframe,hhold⟩ := turns_holding hrun hphase h hopen hturns
  by_cases happends : ∃ c k, Appends p w₁ c k
  · obtain ⟨c₂,k₂,happends⟩ := happends
    obtain ⟨-,-,-,-,-,hhold₂,hsize⟩ := happends.finds href hp hframe hhold
    obtain ⟨c₃,k₃,next,hrest,hdeliver⟩ := supplied_rest hhold₂ hsize (hs _ _ _ hturns happends)
    rw [(happends.turn hc hk).1,hrest] at hturn
    cases hturn
    obtain ⟨text,hstored,-⟩ := hdeliver copy rfl
    obtain ⟨buf,hbuf,-⟩ := hstored.block
    simp [hbuf]
  · have hother := readTurn_other hc hk (fun c k h₁ => happends ⟨c,k,h₁⟩)
    exact absurd rfl (hother.of_ok hturn copy)

/-- A failed `realloc` never leaves the block as it was. In any state of a run, a call of
`handle_client_read` for an open client loses nothing silently if and only if each frame
that it completes is supplied. -/
theorem assembly_lossless_iff (hrun : run step Sys.init acts = .ok s) (hphase : s.phase ≠ .done)
    (h : Listed s p c k) (hopen : c.closed = false) :
    (∀ (c₁ : ClientInfo) (k₁ : Sock), 0 < c₁.partialCap →
      (AppendKeeps c₁ k₁ ↔ (c₁.grows = true → k₁.grants 0 = true))) ∧
    (Lossless p s.world ↔
      ∀ w c₁ k₁, Turns p s.world w → Appends p w c₁ k₁ → Supplied c₁ k₁) := by
  refine ⟨fun c₁ k₁ hcap => appendKeeps_iff hcap,?_⟩
  constructor
  · intro hlossless w c₁ k₁ hturns happends
    by_contra hs
    obtain ⟨R,href,hp,hfree,tail,message,hframe,hhold⟩ :=
      turns_holding hrun hphase h hopen hturns
    rcases readOnce_unsupplied href hp hfree hframe hhold happends hs with hlost | hnull
    · exact hlost (hlossless.kept w c₁ k₁ hturns happends)
    · exact hlossless.sound ((call_null_iff hrun hphase h hopen).mpr ⟨w,hturns,hnull⟩)
  · intro hs
    refine ⟨fun w c₁ k₁ hturns happends => ?_,fun hnull => ?_,fun w' copy hdelivers => ?_⟩
    · obtain ⟨R,href,hp,-,tail,message,hframe,hhold⟩ := turns_holding hrun hphase h hopen hturns
      obtain ⟨-,-,-,-,-,hhold₁,-⟩ := happends.finds href hp hframe hhold
      exact (appendKeeps_iff hhold₁.cap_pos).mpr (hs w c₁ k₁ hturns happends).append
    · obtain ⟨w,hturns,hfault⟩ := (call_null_iff hrun hphase h hopen).mp hnull
      obtain ⟨R,href,hp,hfree,tail,message,hframe,hhold⟩ :=
        turns_holding hrun hphase h hopen hturns
      exact readOnce_supplied href hp hfree hframe hhold (fun c₁ k₁ => hs w c₁ k₁ hturns) hfault
    · obtain ⟨c',k',ms,whole,hshows,hhanded,-⟩ := delivers_handed hrun hphase h hopen hdelivers
      have hblock := supplied_delivers hrun hphase h hopen hs hdelivers hshows
      refine ⟨c',k',ms,whole,hshows,hhanded.decoded,?_⟩
      rcases hhanded.copied with ⟨rfl,hstored⟩ | ⟨rfl,-,hhold⟩
      · exact ⟨hstored,fun bs hbs => by cases hbs; rfl⟩
      · exact ⟨hhold.stored_of_block hblock,fun bs hbs => by cases hbs⟩

end Runs

instance (c : ClientInfo) (k : Sock) : Decidable (Supplied c k) :=
  decidable_of_iff ((c.grows = true → k.grants 0 = true) ∧
    (c.partialMsg = none → c.payloadBytesRead = 0 ∧ c.msgDone = 0) ∧
    (c.msgDone ≠ 0 → c.hasName = true → k.grants c.growths = true) ∧
    (c.msgDone ≠ 0 → c.hasName = true → c.assembled.head? ≠ some 47 →
      k.grants (c.growths+1) = true))
    ⟨fun h => ⟨h.1,h.2.1,h.2.2.1,h.2.2.2⟩,fun h => ⟨h.append,h.buffer,h.copy,h.format⟩⟩

def World.appendCall (w : World) (p : Nat) : Option (ClientInfo × Sock) :=
  match w.client p with
  | .error _ => none
  | .ok c =>
    match w.sock c.clientFd with
    | .error _ => none
    | .ok k =>
      match k.read (sizeSub c.expectedPayloadLen c.payloadBytesRead) with
      | (k',.bytes bs) =>
        match storeBytes c.payloadBuffer c.payloadBytesRead bs with
        | .error _ => none
        | .ok b => if c.state = .readPayload ∧ c.payloadBytesRead+bs.length = c.expectedPayloadLen
            then some (c.gotPayload b bs.length,k') else none
      | _ => none

theorem Appends.appendCall {w : World} {p : Nat} {c : ClientInfo} {k : Sock}
    (h : Appends p w c k) : w.appendCall p = some (c,k) := by
  cases h with
  | call hc hk hstate hread hstore hfull =>
    unfold World.appendCall
    simp only [hc,hk,hread,hstore,hstate,hfull,and_self,if_true]

def framesSupplied : Nat → World → Nat → Bool
  | 0,_,_ => false
  | n+1,w,p => (w.appendCall p).all (fun call => decide (Supplied call.1 call.2)) &&
      match w.readOnce p with
      | .ok (w',none) => framesSupplied n w' p
      | _ => true

theorem framesSupplied_turns {n : Nat} {w w' : World} {p : Nat} {c : ClientInfo} {k : Sock}
    (h : framesSupplied n w p = true) (ht : Turns p w w') (ha : Appends p w' c k) :
    Supplied c k := by
  refine ht.rule (P := fun u => ∀ n, framesSupplied n u p = true → Supplied c k) ?_ ?_ n h
  · intro n h
    cases n with
    | zero => cases h
    | succ n =>
      unfold framesSupplied at h
      rw [ha.appendCall,Bool.and_eq_true] at h
      exact of_decide_eq_true h.1
  · intro u u' hi ih n h
    cases n with
    | zero => cases h
    | succ n =>
      unfold framesSupplied at h
      simp only [hi.readOnce,Bool.and_eq_true] at h
      exact ih n h.2

def Action.sendsWith (block : Option Bytes) : List Action :=
  connects 1 5 .quiet ++ hears 5 (frame msgTypeNormal (ascii "ann")) ++
    [.plan 5 { Oracle.quiet with blocks := [block] },
      .net 5 (frame msgTypeNormal (ascii "hi")) false false]

theorem assembly_lossless_iff_sendsWith : ∃ s,
    run step Sys.init (Action.sendsWith (some [])) = .ok s ∧ Lossless 1 s.world := by
  obtain ⟨s,hrun,c,k,hphase,hlisted,htest⟩ := reaches_listed
    (show reachesListed (Action.sendsWith (some [])) 1 (fun s c _ =>
      decide (c.closed = false) && framesSupplied 5 s.world 1) = true by decide +kernel)
  rw [Bool.and_eq_true] at htest
  have hsupplied := (assembly_lossless_iff hrun hphase hlisted (of_decide_eq_true htest.1)).2
  exact ⟨s,hrun,hsupplied.mpr (fun w c₁ k₁ hturns happends =>
    framesSupplied_turns htest.2 hturns happends)⟩

def ClientInfo.full : ClientInfo :=
  { ClientInfo.blank with partialMsg := some (List.replicate bufSize 0), partialLen := bufSize,
                          partialCap := bufSize, payloadBytesRead := 1 }

/-- When `realloc` fails for a full block, the block is lost. When the copy of a message
fails, the call follows a null pointer. -/
theorem assembly_lossy :
    (∃ c' k', appendToClientBuffer ClientInfo.full
      ⟨[],false,false,none,{ Oracle.quiet with blocks := [none] },0,0,[]⟩ = .ok (c',k',-1) ∧
      c'.partialMsg = none ∧ c'.partialCap = 2*bufSize ∧ ClientInfo.full.partialMsg ≠ none ∧
      ClientInfo.full.partialCap = bufSize) ∧
    ∃ s c k, run step Sys.init (Action.sendsWith none) = .ok s ∧ s.phase ≠ .done ∧
      Listed s 1 c k ∧ c.closed = false ∧ handleClientRead s.world 1 = .error .nullPointer := by
  constructor
  · obtain ⟨k',happend⟩ := append_fails (c := ClientInfo.full)
      (k := ⟨[],false,false,none,{ Oracle.quiet with blocks := [none] },0,0,[]⟩) (by decide) rfl
    have hcap : growCap (bufSize+1) bufSize (bufSize+1) = 2*bufSize := by decide
    exact ⟨_,k',happend,rfl,hcap,by simp [ClientInfo.full],rfl⟩
  · obtain ⟨s,hrun,c,k,hphase,hlisted,htest⟩ := reaches_listed
      (show reachesListed (Action.sendsWith none) 1 (fun s c _ =>
        decide (c.closed = false) && match handleClientRead s.world 1 with
          | .error e => decide (e = .nullPointer)
          | .ok _ => false) = true by decide +kernel)
    rw [Bool.and_eq_true] at htest
    refine ⟨s,c,k,hrun,hphase,hlisted,of_decide_eq_true htest.1,?_⟩
    cases hcall : handleClientRead s.world 1 with
    | error e =>
      rw [hcall] at htest
      rw [of_decide_eq_true htest.2]
    | ok res =>
      rw [hcall] at htest
      cases htest.2

end ChatServer
