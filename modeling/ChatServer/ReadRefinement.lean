import ChatServer.CommandRefinement

/-! The refinement of `handle_client_read`: every iteration of its loop is a
transition of the room, and the loop ends before its fuel does. -/
set_option autoImplicit false

namespace ChatServer
open ByteString Memory Execution Relation

/-- The faults that a failing allocation can lead to. -/
def Crash (e : Fault) : Prop := e = .nullPointer ∨ e = .outOfBounds

abbrev MayCrash {α : Type} (x : Except Fault α) : Prop := Holds Crash x (fun _ => True)

theorem readBlock_crash (block : Option Bytes) (len : Nat) : MayCrash (readBlock block len) := by
  unfold readBlock
  cases block with
  | none =>
    by_cases h : len = 0
    · simp [h,Holds]
    · simp [h,Holds,Crash]
  | some bs =>
    by_cases h : len ≤ bs.length
    · simp [h,Holds]
    · simp [h,Holds,Crash]

theorem writeBlock_crash (block : Option Bytes) (off : Nat) (bs : Bytes) :
    MayCrash (writeBlock block off bs) := by
  unfold writeBlock
  cases block with
  | none =>
    by_cases h : bs = []
    · simp [h,Holds]
    · simp [h,Holds,Crash]
  | some old =>
    by_cases h : off+bs.length ≤ old.length
    · simp [h,Holds]
    · simp [h,Holds,Crash]

theorem storeBytes_crash {n : Nat} (b : Buf n) (off : Nat) (bs : Bytes) :
    MayCrash (storeBytes b off bs) := by
  unfold storeBytes
  cases b.write off bs with
  | none => exact .inr rfl
  | some b' => trivial

theorem appendToClientBuffer_crash (c : ClientInfo) (k : Sock) :
    MayCrash (appendToClientBuffer c k) := by
  unfold appendToClientBuffer
  by_cases hgrow : c.partialLen+c.payloadBytesRead > c.partialCap
  · simp only [hgrow,if_true]
    split
    · exact (writeBlock_crash _ _ _).bind (fun _ _ => trivial)
    · trivial
  · simp only [hgrow,if_false,if_true]
    exact (writeBlock_crash _ _ _).bind (fun _ _ => trivial)

theorem copyBuffer_crash (k : Sock) (src : Option Bytes) (size : Nat) :
    MayCrash (copyBuffer k src size) := by
  unfold copyBuffer
  simp only
  split
  · trivial
  · exact (readBlock_crash _ _).bind (fun _ _ => trivial)

theorem readHeader_crash (c : ClientInfo) (k : Sock) : MayCrash (readHeader c k) := by
  unfold readHeader
  simp only
  split
  · trivial
  · trivial
  · trivial
  · refine (storeBytes_crash _ _ _).bind ?_
    intro b _
    repeat' split
    all_goals trivial

theorem readPayload_crash (c : ClientInfo) (k : Sock) : MayCrash (readPayload c k) := by
  unfold readPayload
  simp only
  split
  · trivial
  · trivial
  · refine (storeBytes_crash _ _ _).bind ?_
    intro b _
    split
    · trivial
    · split
      · trivial
      · refine (appendToClientBuffer_crash _ _).bind ?_
        rintro ⟨c,k,r⟩ _
        simp only
        split
        · exact (copyBuffer_crash _ _ _).bind (fun _ _ => trivial)
        · trivial

theorem readTurn_crash (c : ClientInfo) (k : Sock) : MayCrash (readTurn c k) := by
  unfold readTurn
  cases c.state with
  | readHeader => exact readHeader_crash c k
  | readPayload => exact readPayload_crash c k

theorem finishMessage_crash (c : ClientInfo) : MayCrash (finishMessage c) := by
  unfold finishMessage clearClientBuffer
  refine Holds.bind (P := fun _ => True) ?_ (fun _ _ => trivial)
  refine (writeBlock_crash _ _ _).bind ?_
  intro block _
  cases block <;> trivial

theorem storeClientName_crash (c : ClientInfo) : MayCrash (storeClientName c) := by
  unfold storeClientName
  refine (readBlock_crash _ _).bind ?_
  intro bs _
  split
  · exact .inr rfl
  · trivial

theorem formatChat_crash (c : ClientInfo) (k : Sock) (timestamp : Bytes) :
    MayCrash (formatChat c k timestamp) := by
  unfold formatChat
  simp only
  split
  · trivial
  · refine (readBlock_crash _ _).bind ?_
    intro msg _
    split <;> trivial

theorem Room.processPayload_crash (R : Room) (p : Nat) (copy : Option Bytes) :
    MayCrash (R.processPayload p copy) := by
  unfold processPayload
  split
  · unfold nameIt
    refine Holds.bind (P := fun _ => True) ?_ (fun _ _ => trivial)
    exact (storeClientName_crash _).bind (fun _ _ => trivial)
  · split
    · exact .inl rfl
    · split
      · unfold runCommand
        simp only
        split
        · exact .inl rfl
        · split <;> trivial
      · unfold chat
        refine Holds.bind (P := fun _ => True) ?_ (fun _ _ => trivial)
        refine (formatChat_crash _ _ _).bind ?_
        rintro ⟨k,text⟩ _
        cases text with
        | none => exact .inl rfl
        | some text => trivial

theorem handleClientReadLoop_succ (fuel : Nat) (w : World) (p : Nat) :
    handleClientReadLoop (fuel+1) w p = (do
      let c ← w.client p
      let k ← w.sock c.clientFd
      let (c,k,next) ← readTurn c k
      match next with
      | .ret r => pure (w.put p c k,r)
      | .again => handleClientReadLoop fuel (w.put p c k) p
      | .deliver payloadCopy =>
        let (w,r) ← processPayload (w.put p c k) p payloadCopy
        let w ← w.note p (.verdict r)
        if r = -1 then pure (w,-1)
        else
          let c ← w.client p
          let c ← finishMessage c
          handleClientReadLoop fuel (w.putClient p c) p) := by
  conv_lhs => unfold handleClientReadLoop
  congr 1
  funext c
  congr 1
  funext k
  unfold readTurn
  cases c.state <;> rfl

def World.readOnce (w : World) (p : Nat) : Except Fault (World × Option Int) := do
  let c ← w.client p
  let k ← w.sock c.clientFd
  let (c,k,next) ← readTurn c k
  match next with
  | .ret r => pure (w.put p c k,some r)
  | .again => pure (w.put p c k,none)
  | .deliver payloadCopy =>
    let (w,r) ← processPayload (w.put p c k) p payloadCopy
    let w ← w.note p (.verdict r)
    if r = -1 then pure (w,some (-1))
    else
      let c ← w.client p
      let c ← finishMessage c
      pure (w.putClient p c,none)

theorem loop_once (fuel : Nat) (w : World) (p : Nat) :
    handleClientReadLoop (fuel+1) w p = (do
      let (w,done) ← w.readOnce p
      match done with
      | some r => pure (w,r)
      | none => handleClientReadLoop fuel w p) := by
  rw [handleClientReadLoop_succ]
  unfold World.readOnce
  cases hc : w.client p with
  | error e => rfl
  | ok c =>
    simp only [ok_bind]
    cases hk : w.sock c.clientFd with
    | error e => rfl
    | ok k =>
      simp only [ok_bind]
      cases hturn : readTurn c k with
      | error e => rfl
      | ok res =>
        obtain ⟨c',k',next⟩ := res
        cases next with
        | ret r => rfl
        | again => rfl
        | deliver copy =>
          simp only [ok_bind]
          cases hpayload : processPayload (w.put p c' k') p copy with
          | error e => rfl
          | ok res =>
            obtain ⟨w₁,r⟩ := res
            simp only [ok_bind]
            cases hnote : w₁.note p (.verdict r) with
            | error e => rfl
            | ok w₂ =>
              simp only [ok_bind]
              by_cases hr : r = -1
              · simp only [hr,if_true]
                rfl
              · simp only [hr,if_false]
                cases hc₂ : w₂.client p with
                | error e => rfl
                | ok c₂ =>
                  simp only [ok_bind]
                  cases finishMessage c₂ <;> rfl

inductive Iterates (p : Nat) (w : World) : World → Prop
  | again {c c' : ClientInfo} {k k' : Sock} (hc : w.client p = .ok c)
      (hk : w.sock c.clientFd = .ok k) (hturn : readTurn c k = .ok (c',k',.again)) :
      Iterates p w (w.put p c' k')
  | answered {w₁ w₂ : World} {c c' c₂ c₃ : ClientInfo} {k k' : Sock} {copy : Option Bytes}
      {r : Int} (hc : w.client p = .ok c) (hk : w.sock c.clientFd = .ok k)
      (hturn : readTurn c k = .ok (c',k',.deliver copy))
      (hpayload : processPayload (w.put p c' k') p copy = .ok (w₁,r)) (hr : r ≠ -1)
      (hnote : w₁.note p (.verdict r) = .ok w₂) (hc₂ : w₂.client p = .ok c₂)
      (hfinish : finishMessage c₂ = .ok c₃) : Iterates p w (w₂.putClient p c₃)

inductive Concludes (p : Nat) (w : World) : World → Int → Prop
  | turn {c c' : ClientInfo} {k k' : Sock} {r : Int} (hc : w.client p = .ok c)
      (hk : w.sock c.clientFd = .ok k) (hturn : readTurn c k = .ok (c',k',.ret r)) :
      Concludes p w (w.put p c' k') r
  | refused {w₁ w₂ : World} {c c' : ClientInfo} {k k' : Sock} {copy : Option Bytes}
      (hc : w.client p = .ok c) (hk : w.sock c.clientFd = .ok k)
      (hturn : readTurn c k = .ok (c',k',.deliver copy))
      (hpayload : processPayload (w.put p c' k') p copy = .ok (w₁,-1))
      (hnote : w₁.note p (.verdict (-1)) = .ok w₂) : Concludes p w w₂ (-1)

theorem Iterates.readOnce {p : Nat} {w w' : World} (h : Iterates p w w') :
    w.readOnce p = .ok (w',none) := by
  unfold World.readOnce
  cases h with
  | again hc hk hturn =>
    simp only [hc,hk,hturn,ok_bind]
    rfl
  | answered hc hk hturn hpayload hr hnote hc₂ hfinish =>
    simp only [hc,hk,hturn,hpayload,hnote,if_neg hr,hc₂,hfinish,ok_bind]
    rfl

theorem readOnce_cases {p : Nat} {w w' : World} {done : Option Int}
    (h : w.readOnce p = .ok (w',done)) :
    (done = none ∧ Iterates p w w') ∨ ∃ r, done = some r ∧ Concludes p w w' r := by
  unfold World.readOnce at h
  cases hc : w.client p with
  | error e => simp [hc] at h
  | ok c =>
    cases hk : w.sock c.clientFd with
    | error e => simp [hc,hk] at h
    | ok k =>
      cases hturn : readTurn c k with
      | error e => simp [hc,hk,hturn] at h
      | ok res =>
        obtain ⟨c',k',next⟩ := res
        simp only [hc,hk,hturn,ok_bind] at h
        cases next with
        | ret r =>
          cases h
          exact .inr ⟨r,rfl,.turn hc hk hturn⟩
        | again =>
          cases h
          exact .inl ⟨rfl,.again hc hk hturn⟩
        | deliver copy =>
          simp only at h
          cases hpayload : processPayload (w.put p c' k') p copy with
          | error e => simp [hpayload] at h
          | ok res =>
            obtain ⟨w₁,r⟩ := res
            cases hnote : w₁.note p (.verdict r) with
            | error e => simp [hpayload,hnote] at h
            | ok w₂ =>
              simp only [hpayload,hnote,ok_bind] at h
              by_cases hr : r = -1
              · rw [if_pos hr] at h
                cases h
                subst hr
                exact .inr ⟨-1,rfl,.refused hc hk hturn hpayload hnote⟩
              · cases hc₂ : w₂.client p with
                | error e => simp [hr,hc₂] at h
                | ok c₂ =>
                  cases hfinish : finishMessage c₂ with
                  | error e => simp [hr,hc₂,hfinish] at h
                  | ok c₃ =>
                    simp only [hr,if_false,hc₂,hfinish,ok_bind] at h
                    cases h
                    exact .inl ⟨rfl,.answered hc hk hturn hpayload hr hnote hc₂ hfinish⟩

theorem readOnce_iterates {p : Nat} {w w' : World} (h : w.readOnce p = .ok (w',none)) :
    Iterates p w w' := by
  rcases readOnce_cases h with ⟨-,hi⟩ | ⟨r,hr,-⟩
  · exact hi
  · cases hr

/-- What every iteration that goes on keeps, and what then holds of an iteration that
returns, holds of what the loop returns. -/
theorem handleClientReadLoop_rule {p : Nat} {I : World → Prop} {Q : World → Int → Prop}
    (hgoes : ∀ w w', I w → Iterates p w w' → I w')
    (hhalts : ∀ w w' r, I w → Concludes p w w' r → Q w' r) {fuel : Nat} {w w' : World} {r : Int}
    (h : I w) (hloop : handleClientReadLoop fuel w p = .ok (w',r)) : Q w' r := by
  induction fuel generalizing w with
  | zero => cases hloop
  | succ fuel ih =>
    rw [loop_once] at hloop
    cases honce : w.readOnce p with
    | error e => simp [honce] at hloop
    | ok res =>
      obtain ⟨w₁,done⟩ := res
      simp only [honce,ok_bind] at hloop
      rcases readOnce_cases honce with ⟨rfl,hi⟩ | ⟨r₁,rfl,hstop⟩
      · exact ih (hgoes w w₁ h hi) hloop
      · cases hloop
        exact hhalts _ _ _ h hstop

/-- Twice the unread bytes, and one more while a payload is awaited. -/
def readMeasure (v : View) : Nat :=
  2*v.sock.inbox.length + match v.info.state with
    | .readHeader => 0
    | .readPayload => 1

theorem readMeasure_lt (v : View) : readMeasure v < 2*v.sock.inbox.length+2 := by
  unfold readMeasure
  cases v.info.state <;> simp

theorem reads_consumes {v v' : View} {next : Next} (h : v.reads next v')
    (hnext : ∀ r, next ≠ .ret r) :
    ∃ bs, v.sock.inbox = bs ++ v'.sock.inbox ∧ (bs = [] → v.info.state = .readPayload ∧
      v.info.payloadBytesRead = v.info.expectedPayloadLen ∧
      (next = .again → v'.info.state = .readHeader ∧ v'.info.headerBytesRead = 0)) := by
  obtain ⟨hturn,-⟩ := h
  obtain ⟨i',k',queue'⟩ := v'
  rcases readTurn_turn hturn with ⟨-,hheader⟩ | ⟨hstate,hpayload⟩
  · cases hheader with
    | blocked => exact absurd rfl (hnext _)
    | failed => exact absurd rfl (hnext _)
    | ended => exact absurd rfl (hnext _)
    | short => exact absurd rfl (hnext _)
    | tooLarge => exact absurd rfl (hnext _)
    | complete hne hread => exact ⟨_,hread.taken,fun hnil => absurd hnil hne⟩
  · cases hpayload with
    | blocked => exact absurd rfl (hnext _)
    | failed => exact absurd rfl (hnext _)
    | short => exact absurd rfl (hnext _)
    | long => exact absurd rfl (hnext _)
    | @fragment k₁ k₂ bs b c r hread _ heq happend =>
      have hkept := (appendToClientBuffer_frame happend).1.inbox
      refine ⟨bs,?_,?_⟩
      · rw [hread.taken,← hkept]
      · rintro rfl
        exact ⟨hstate,heq,fun _ => ⟨rfl,rfl⟩⟩
    | @message k₁ k₂ k₃ bs b c r copy hread _ heq happend _ hcopy =>
      have hkept := (appendToClientBuffer_frame happend).1.inbox
      have hcopied := (copyBuffer_frame hcopy).inbox
      refine ⟨bs,?_,?_⟩
      · rw [hread.taken,← hkept,← hcopied]
      · rintro rfl
        exact ⟨hstate,heq,fun hagain => by cases hagain⟩

theorem readMeasure_le (v : View) : readMeasure v ≤ 2*v.sock.inbox.length+1 := by
  have hlt := readMeasure_lt v
  omega

/-- An iteration that does not return has consumed a byte or a whole payload. -/
theorem readTurn_measure {v v' : View} {next : Next} (h : v.reads next v')
    (hnext : ∀ r, next ≠ .ret r) :
    2*v'.sock.inbox.length < readMeasure v ∧
      (next = .again → readMeasure v' < readMeasure v) := by
  obtain ⟨bs,hbytes,hempty⟩ := reads_consumes h hnext
  have hlen := congrArg List.length hbytes
  rw [List.length_append] at hlen
  by_cases hnil : bs = []
  · obtain ⟨hstate,-,hswitch⟩ := hempty hnil
    subst hnil
    have hm : readMeasure v = 2*v.sock.inbox.length+1 := by simp [readMeasure,hstate]
    rw [List.length_nil,Nat.zero_add] at hlen
    refine ⟨by omega,fun hagain => ?_⟩
    have hm' : readMeasure v' = 2*v'.sock.inbox.length := by
      simp [readMeasure,(hswitch hagain).1]
    omega
  · have hpos := List.length_pos_iff.mpr hnil
    have hle := readMeasure_le v'
    have hge : 2*v.sock.inbox.length ≤ readMeasure v := Nat.le_add_right _ _
    constructor
    · omega
    · intro _
      omega

theorem finishMessage_state {c c' : ClientInfo} (h : finishMessage c = .ok c') :
    c'.state = .readHeader := by
  obtain ⟨i,r,-,rfl⟩ := finishMessage_eq h
  rfl

section Loop
variable {w : World} {R : Room} {p : Nat}

/-- What the caller of the read loop is left with: once it has noted the result
`r`, and closed the client if `r` is negative, the room has made transitions. -/
def Left (p : Nat) (R : Room) (res : World × Int) : Prop :=
  ∃ R', Refines res.1 R' ∧ R'.members = R.members ∧ R'.mutex = false ∧
    (R'.view p).info.closed = false ∧
    ReflTransGen Act R (R'.set p ((R'.view p).stop res.2))

theorem Left.after {R₁ : Room} {res : World × Int} (hact : Act R R₁)
    (hm : R₁.members = R.members) (h : Left p R₁ res) : Left p R res := by
  obtain ⟨R',href,hmem,hfree,hopen,hrun⟩ := h
  exact ⟨R',href,hmem.trans hm,hfree,hopen,.head hact hrun⟩

theorem readTurn_refines (h : Refines w R) (hp : p ∈ R.members) {c : ClientInfo} {k : Sock}
    {next : Next} (hturn : readTurn (R.view p).info (R.view p).sock = .ok (c,k,next)) :
    ∃ q, w.client p = .ok ((R.view p).info.withQueue q) ∧
      w.sock ((R.view p).info.withQueue q).clientFd = .ok (R.view p).sock ∧
      readTurn ((R.view p).info.withQueue q) (R.view p).sock = .ok (c.withQueue q,k,next) ∧
      Refines (w.put p (c.withQueue q) k) (R.set p ⟨c,k,(R.view p).queue⟩) := by
  obtain ⟨A,h⟩ := h
  obtain ⟨q,hc,hk,hq,hreg⟩ := h.access hp
  obtain ⟨hinfo,hsock⟩ := readTurn_frame hturn
  refine ⟨q,hc,hk,?_,A,h.put hp hq hinfo.clientFd ?_⟩
  · rw [readTurn_withQueue,hturn]
    rfl
  · rw [hsock.registration]
    exact hreg

theorem payload_refines {S : Room} {copy : Option Bytes} {r : Int} (h : Refines w R)
    (hp : p ∈ R.members) (hfree : R.mutex = false) (hroom : R.processPayload p copy = .ok (S,r)) :
    ∃ w', processPayload w p copy = .ok (w',r) ∧ Refines w' S ∧ p ∈ S.members := by
  have hmatch := processPayload_refines h hp hfree copy
  rw [hroom] at hmatch
  obtain ⟨⟨w',r'⟩,hw,hS,rfl⟩ := hmatch.ok_right
  refine ⟨w',hw,hS,?_⟩
  rw [(Room.processPayload_serves hp hroom).members]
  exact hp

theorem payload_room {w' : World} {copy : Option Bytes} {r : Int} (h : Refines w R)
    (hp : p ∈ R.members) (hfree : R.mutex = false) (hcall : processPayload w p copy = .ok (w',r)) :
    ∃ S, R.processPayload p copy = .ok (S,r) ∧ Refines w' S ∧ p ∈ S.members := by
  have hmatch := processPayload_refines h hp hfree copy
  rw [hcall] at hmatch
  obtain ⟨⟨S,r'⟩,hroom,hS,rfl⟩ := hmatch.ok_left
  refine ⟨S,hroom,hS,?_⟩
  rw [(Room.processPayload_serves hp hroom).members]
  exact hp

theorem verdict_refines (h : Refines w R) (hp : p ∈ R.members) (r : Int) :
    ∃ w' q, w.note p (.verdict r) = .ok w' ∧
      Refines w' (R.set p ((R.view p).note (.verdict r))) ∧
      w'.client p = .ok ((R.view p).info.withQueue q) ∧
      ∀ i, finishMessage (R.view p).info = .ok i → Refines (w'.putClient p (i.withQueue q))
        (R.set p { (R.view p).note (.verdict r) with info := i }) := by
  obtain ⟨w',hw,A,hnoted⟩ := note_refines h hp (.verdict r)
  obtain ⟨q,hc,-,hq,-⟩ := hnoted.access hp
  simp only [Room.view_set_self,View.note_info] at hc
  refine ⟨w',q,hw,⟨A,hnoted⟩,hc,fun i hfin => ?_⟩
  have hput := hnoted.putClient (p := p) (i := i) hp hq (by
    simpa using (finishMessage_frame hfin).clientFd)
  simp only [Room.view_set_self,Room.set_set] at hput
  exact ⟨A,hput⟩

inductive Room.Iterates (p : Nat) (R : Room) : Room → Prop
  | again {v : View} (hreads : (R.view p).reads .again v) : Room.Iterates p R (R.set p v)
  | answered {v : View} {copy : Option Bytes} {S : Room} {r : Int} {i : ClientInfo}
      (hreads : (R.view p).reads (.deliver copy) v)
      (hroom : (R.set p v).processPayload p copy = .ok (S,r)) (hr : r ≠ -1)
      (hfinish : finishMessage (S.view p).info = .ok i) :
      Room.Iterates p R (S.set p { (S.view p).note (.verdict r) with info := i })

inductive Room.Concludes (p : Nat) (R : Room) : Room → Int → Prop
  | turn {v : View} {r : Int} (hreads : (R.view p).reads (.ret r) v) :
      Room.Concludes p R (R.set p v) r
  | refused {v : View} {copy : Option Bytes} {S : Room}
      (hreads : (R.view p).reads (.deliver copy) v)
      (hroom : (R.set p v).processPayload p copy = .ok (S,-1)) :
      Room.Concludes p R (S.set p ((S.view p).note (.verdict (-1)))) (-1)

/-- Every iteration in the world is one in the room, or crashes. -/
theorem readOnce_refines (h : Refines w R) (hp : p ∈ R.members) (hfree : R.mutex = false) :
    Holds Crash (w.readOnce p) (fun res => match res.2 with
      | none => ∃ S, R.Iterates p S ∧ Refines res.1 S
      | some r => ∃ S, R.Concludes p S r ∧ Refines res.1 S) := by
  unfold World.readOnce
  cases hturn : readTurn (R.view p).info (R.view p).sock with
  | error e =>
    have hcrash := (readTurn_crash _ _).of_error hturn
    obtain ⟨A,h⟩ := h
    obtain ⟨q,hc,hk,-,-⟩ := h.access hp
    have hk' : w.sock ((R.view p).info.withQueue q).clientFd = .ok (R.view p).sock := hk
    simp only [hc,hk',ok_bind,readTurn_withQueue,hturn]
    exact hcrash
  | ok res =>
    obtain ⟨c,k,next⟩ := res
    obtain ⟨q,hc,hk,hturn',href⟩ := readTurn_refines h hp hturn
    simp only [hc,hk,hturn',ok_bind]
    have hreads : (R.view p).reads next ⟨c,k,(R.view p).queue⟩ := ⟨hturn,rfl⟩
    cases next with
    | ret r => exact ⟨_,.turn hreads,href⟩
    | again => exact ⟨_,.again hreads,href⟩
    | deliver copy =>
      simp only
      cases hroom : (R.set p ⟨c,k,(R.view p).queue⟩).processPayload p copy with
      | error e =>
        have hcrash := (Room.processPayload_crash _ _ _).of_error hroom
        have hmatch := processPayload_refines href hp hfree copy
        rw [hroom] at hmatch
        rw [hmatch.eq_error]
        exact hcrash
      | ok res =>
        obtain ⟨S,r⟩ := res
        obtain ⟨w₁,hw,hS,hpS⟩ := payload_refines href hp hfree hroom
        obtain ⟨w₂,q₂,hw₂,h₂,hc₂,hput⟩ := verdict_refines hS hpS r
        simp only [hw,hw₂,ok_bind]
        by_cases hr : r = -1
        · subst hr
          rw [if_pos rfl]
          exact ⟨_,.refused hreads hroom,h₂⟩
        · rw [if_neg hr]
          simp only [hc₂,ok_bind,finishMessage_withQueue]
          cases hfin : finishMessage (S.view p).info with
          | error e => exact (finishMessage_crash _).of_error hfin
          | ok i => exact ⟨_,.answered hreads hroom hr hfin,hput i hfin⟩

theorem Room.Iterates.members {S : Room} (h : R.Iterates p S) (hp : p ∈ R.members) :
    S.members = R.members := by
  cases h with
  | again => rfl
  | answered _ hroom => exact (Room.processPayload_serves (R := R.set p _) hp hroom).members

theorem Room.Iterates.mutex {S : Room} (h : R.Iterates p S) (hp : p ∈ R.members) :
    S.mutex = R.mutex := by
  cases h with
  | again => rfl
  | answered _ hroom => exact (Room.processPayload_serves (R := R.set p _) hp hroom).mutex

theorem View.reads.closed {v v' : View} {next : Next} (h : v.reads next v') :
    v'.info.closed = v.info.closed := (readTurn_frame h.1).1.closed

theorem Room.Iterates.act {S : Room} (h : R.Iterates p S) (hp : p ∈ R.members)
    (hopen : (R.view p).info.closed = false) :
    Act R S ∧ (S.view p).info.closed = false := by
  cases h with
  | @again v hreads =>
    refine ⟨.receive hp hopen hreads,?_⟩
    rw [Room.view_set_self,hreads.closed]
    exact hopen
  | @answered v copy S r i hreads hroom hr hfinish =>
    have hserves := Room.processPayload_serves (R := R.set p v) hp hroom
    have hanswer : (S.view p).answer r = .ok { (S.view p).note (.verdict r) with info := i } := by
      simp [View.answer,hr,hfinish,pure_eq_ok]
    refine ⟨.message hp hopen hreads hroom hanswer,?_⟩
    rw [Room.view_set_self,(finishMessage_frame hfinish).closed,hserves.closed,
      Room.view_set_self,hreads.closed]
    exact hopen

theorem Room.Concludes.left {S : Room} {r : Int} (h : R.Concludes p S r) (hp : p ∈ R.members)
    (hfree : R.mutex = false) (hopen : (R.view p).info.closed = false) (href : Refines w S) :
    Left p R (w,r) := by
  cases h with
  | @turn v r hreads =>
    refine ⟨_,href,rfl,hfree,?_,?_⟩
    · rw [Room.view_set_self,hreads.closed]
      exact hopen
    · simp only [Room.view_set_self,Room.set_set]
      exact .single (.pause hp hopen hreads)
  | @refused v copy S hreads hroom =>
    have hserves := Room.processPayload_serves (R := R.set p v) hp hroom
    refine ⟨_,href,hserves.members,hserves.mutex.trans hfree,?_,?_⟩
    · rw [Room.view_set_self,View.note_info,hserves.closed,Room.view_set_self,hreads.closed]
      exact hopen
    · simp only [Room.view_set_self,Room.set_set]
      exact .single (.message hp hopen hreads hroom rfl)

theorem Room.processPayload_inbox {S : Room} {v : View} {copy : Option Bytes} {r : Int}
    (hp : p ∈ R.members) (h : (R.set p v).processPayload p copy = .ok (S,r)) :
    (S.view p).sock.inbox = v.sock.inbox := by
  have hserves := Room.processPayload_serves (R := R.set p v) hp h
  simpa [Room.seat] using (Quiet.served_run (hserves.seats p hp)).inbox

theorem Room.Iterates.measure {S : Room} (h : R.Iterates p S) (hp : p ∈ R.members) :
    readMeasure (S.view p) < readMeasure (R.view p) := by
  cases h with
  | again hreads =>
    rw [Room.view_set_self]
    exact (readTurn_measure hreads (by simp)).2 rfl
  | @answered v copy S r i hreads hroom hr hfinish =>
    have hless := (readTurn_measure hreads (by simp)).1
    have hmeasure : readMeasure { (S.view p).note (.verdict r) with info := i } =
        2*v.sock.inbox.length := by
      simp only [readMeasure,finishMessage_state hfinish,View.note,Sock.note,
        Room.processPayload_inbox hp hroom,Nat.add_zero]
    rw [Room.view_set_self,hmeasure]
    exact hless

theorem handleClientReadLoop_refines (fuel : Nat) (h : Refines w R) (hp : p ∈ R.members)
    (hfree : R.mutex = false) (hopen : (R.view p).info.closed = false)
    (hfuel : readMeasure (R.view p) < fuel) :
    Holds Crash (handleClientReadLoop fuel w p) (Left p R) := by
  induction fuel generalizing w R with
  | zero => omega
  | succ fuel ih =>
    rw [loop_once]
    refine (readOnce_refines h hp hfree).bind ?_
    rintro ⟨w₁,done⟩ hres
    cases done with
    | some r =>
      obtain ⟨S,hstop,href⟩ := hres
      exact hstop.left hp hfree hopen href
    | none =>
      obtain ⟨S,hi,href⟩ := hres
      have hmem := hi.members hp
      have hless := hi.measure hp
      obtain ⟨hact,hopenS⟩ := hi.act hp hopen
      have hrest := ih href (by rw [hmem]; exact hp) ((hi.mutex hp).trans hfree) hopenS (by omega)
      exact hrest.mono (fun res hres => hres.after hact hmem)

/-- `handle_client_read` with what its caller does about a negative result. -/
theorem handleClientRead_refines (h : Refines w R) (hp : p ∈ R.members)
    (hfree : R.mutex = false) (hopen : (R.view p).info.closed = false) :
    Holds Crash (handleClientRead w p) (fun res => ∃ S : Room,
      S.members = R.members ∧ S.mutex = false ∧ (S.view p).info.closed = false ∧
      Refines res.1 (S.set p ((S.view p).note (.readReturned res.2))) ∧
      ReflTransGen Act R (S.set p ((S.view p).stop res.2))) := by
  have href := h
  obtain ⟨A,h⟩ := h
  obtain ⟨q,hc,hk,-,-⟩ := h.access hp
  have hk' : w.sock ((R.view p).info.withQueue q).clientFd = .ok (R.view p).sock := hk
  unfold handleClientRead
  simp only [hc,hk',ok_bind]
  refine (handleClientReadLoop_refines _ href hp hfree hopen (readMeasure_lt _)).bind ?_
  rintro ⟨w₁,r⟩ ⟨S,hS,hmem,hfreeS,hopenS,hrun⟩
  obtain ⟨w₂,hw₂,h₂⟩ := note_refines hS (by rw [hmem]; exact hp) (.readReturned r)
  simp only [hw₂,ok_bind]
  exact ⟨S,hmem,hfreeS,hopenS,h₂,hrun⟩

end Loop
end ChatServer
