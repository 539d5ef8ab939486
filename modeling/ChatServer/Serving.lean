import ChatServer.Quiet

/-! What `process_payload` does to the room: every member is served by steps of
its own, and the rest of the room keeps still. -/
set_option autoImplicit false

namespace ChatServer
open ByteString Memory Relation Execution

theorem storeClientName_frame {c i : ClientInfo} (h : storeClientName c = .ok i) :
    i.clientFd = c.clientFd ∧ i.closed = c.closed := by
  obtain ⟨bs,name,-,-,rfl⟩ := storeClientName_eq h
  exact ⟨rfl,rfl⟩

/-- From `R` to `R'` a message of member `p` was served, or a part of it. -/
structure Serves (p : Nat) (R R' : Room) : Prop where
  members : R'.members = R.members
  mutex : R'.mutex = R.mutex
  accepted : R'.accepted = R.accepted
  closed : (R'.view p).info.closed = (R.view p).info.closed
  seats : ∀ q ∈ R.members, ReflTransGen (Seat.Served q) (R.seat q) (R'.seat q)

namespace Serves
variable {p : Nat} {R R' R'' : Room}

theorem refl (R : Room) : Serves p R R := ⟨rfl,rfl,rfl,rfl,fun _ _ => .refl⟩

theorem trans (h : Serves p R R') (h' : Serves p R' R'') : Serves p R R'' := by
  refine ⟨h'.members.trans h.members,h'.mutex.trans h.mutex,h'.accepted.trans h.accepted,
    h'.closed.trans h.closed,?_⟩
  intro q hq
  exact (h.seats q hq).trans (h'.seats q (by rw [h.members]; exact hq))

theorem one {t : Nat} {v : View} (hclosed : v.info.closed = (R.view t).info.closed)
    (hstep : Seat.Served t (R.seat t) ⟨v,R.broadcasts,R.shutdown⟩) :
    Serves p R (R.set t v) := by
  refine ⟨rfl,rfl,rfl,?_,?_⟩
  · by_cases hpt : p = t
    · subst hpt
      simpa using hclosed
    · rw [Room.view_set_of_ne R v hpt]
  · intro q _
    by_cases hqt : q = t
    · subst hqt
      have hseat : (R.set q v).seat q = ⟨v,R.broadcasts,R.shutdown⟩ := by simp [Room.seat]
      rw [hseat]
      exact .single hstep
    · have hseat : (R.set t v).seat q = R.seat q := by
        simp [Room.seat,Room.view_set_of_ne R v hqt]
      rw [hseat]

theorem tick : Serves p R R.tick := ⟨rfl,rfl,rfl,rfl,fun _ _ => .refl⟩

theorem shutdown : Serves p R { R with shutdown := true } :=
  ⟨rfl,rfl,rfl,rfl,fun _ _ => .single .shutdown⟩

end Serves

namespace Room
variable {R R' : Room} {p : Nat}

@[simp] theorem sendTo_info (R : Room) (msgType : UInt8) (t : Nat) (msg : Bytes) (q : Nat) :
    ((R.sendTo msgType t msg).1.view q).info = (R.view q).info := by
  unfold sendTo
  by_cases hqt : q = t
  · subst hqt
    simp [View.direct,View.note]
  · rw [view_set_of_ne R _ hqt]

@[simp] theorem sendTo_view_self (R : Room) (msgType : UInt8) (t : Nat) (msg : Bytes) :
    (R.sendTo msgType t msg).1.view t = ((R.view t).direct msgType msg).1 := by
  simp [sendTo]

theorem sendTo_serves_list (t : Nat) {msg : Bytes}
    (h : ListText (R.view t).sock.trace msg) :
    Serves p R (R.sendTo msgTypeAdmin t msg).1 :=
  Serves.one rfl (.list (s := R.seat t) h)

theorem sendTo_serves_whisper (t : Nat) {msg : Bytes} (h : WhisperText msg) :
    Serves p R (R.sendTo msgTypeNormal t msg).1 :=
  Serves.one rfl (.whisper (s := R.seat t) h)

theorem broadcast_seat {sender : Option Nat} {msg : Bytes} {q : Nat} (hq : q ∈ R.members)
    (hchat : sender.isSome = true → ChatText msg)
    (hnotice : sender = none → R.shutdown = true ∧ msg = shutdownMessage) :
    Seat.Served q (R.seat q) ((R.broadcast sender msg).seat q) := by
  have hseat : (R.broadcast sender msg).seat q =
      ⟨(R.view q).offer q R.broadcasts.length (decide (some q = sender)) msg,
        R.broadcasts ++ [Broadcast.mk sender msg],R.shutdown⟩ := by
    simp [seat,broadcast,hq]
  rw [hseat]
  exact .offer (s := R.seat q) hchat hnotice

theorem broadcast_serves (hp : p ∈ R.members) {msg : Bytes} (h : ChatText msg) :
    Serves p R (R.broadcast (some p) msg) := by
  refine ⟨rfl,rfl,rfl,?_,fun q hq => .single (broadcast_seat hq (fun _ => h) (by simp))⟩
  simp [broadcast,hp,View.offer,View.noteOffer,View.note]

/-- The loop of /list: the names stay as they were noted, because only the
user's socket changes. -/
theorem list_serves (hp : p ∈ R.members) : Serves p R (R.list p) := by
  have hloop : ∀ (l : List Nat) (S : Room), Serves p R S →
      (∀ q, (S.view q).info = (R.view q).info) →
      .listing R.names ∈ (S.view p).sock.trace → (∀ e ∈ l, e ∈ R.members) →
      Serves p R (l.foldl (listEntry p) S) := by
    intro l
    induction l with
    | nil => exact fun S hS _ _ _ => hS
    | cons e l ih =>
      intro S hS hinfo hmem hl
      have hname : ListText (S.view p).sock.trace (S.view e).info.shownName := by
        refine .inr (.inr ⟨R.names,hmem,?_,?_⟩)
        · rw [hinfo]
          exact List.mem_map_of_mem (hl e (by simp))
        · simp only [ClientInfo.shownName,List.length_take,(S.view e).info.name.size]
          omega
      have hsuffix : ∀ trace, ListText trace (if e = p then listIndicator else listNewline) := by
        intro trace
        by_cases he : e = p
        · exact .inl (by simp [he])
        · exact .inr (.inl (by simp [he]))
      have hone := sendTo_serves_list (p := p) p hname
      have htwo := sendTo_serves_list (R := (S.sendTo msgTypeAdmin p
        (S.view e).info.shownName).1) (p := p) p (hsuffix _)
      rw [List.foldl_cons]
      refine ih (S.listEntry p e) ((hS.trans hone).trans htwo) ?_ ?_
        (fun f hf => hl f (by simp [hf]))
      · intro q
        rw [← hinfo q]
        simp [listEntry]
      · simp only [listEntry,sendTo_view_self]
        exact View.mem_direct_trace (View.mem_direct_trace hmem)
  refine hloop R.members _ (Serves.one rfl (.listing (s := R.seat p) R.names)) ?_ (by simp)
    (fun e he => he)
  intro q
  by_cases hqp : q = p
  · subst hqp
    simp
  · simp [hqp,view_set_of_ne]

theorem formatWhisper_sock (c : ClientInfo) (k : Sock) (timestamp msg : Bytes) :
    ∃ size, (formatWhisper c k timestamp msg).1 = (k.realloc none size).1 := by
  unfold formatWhisper
  simp only
  split
  · exact ⟨_,rfl⟩
  · split <;> exact ⟨_,rfl⟩

theorem formatWhisper_text {c : ClientInfo} {k : Sock} {t : Timestamp} {msg text : Bytes}
    (h : (formatWhisper c k (strftime t) msg).2 = some text) : WhisperText (cstr text) := by
  unfold formatWhisper at h
  simp only at h
  split at h
  · cases h
  · split at h
    · cases h
    · cases h
      exact ⟨t,_,_,rfl⟩

theorem formatChat_sock {c : ClientInfo} {k k' : Sock} {timestamp : Bytes}
    {text : Option Bytes} (h : formatChat c k timestamp = .ok (k',text)) :
    ∃ size, k' = (k.realloc none size).1 := by
  unfold formatChat at h
  simp only at h
  split at h
  · cases h
    exact ⟨_,rfl⟩
  · cases hr : readBlock c.partialMsg c.partialLen with
    | error e => simp [hr] at h
    | ok msg =>
      simp only [hr,ok_bind] at h
      split at h <;>
      · cases h
        exact ⟨_,rfl⟩

theorem formatChat_text {c : ClientInfo} {k k' : Sock} {t : Timestamp} {text : Bytes}
    (h : formatChat c k (strftime t) = .ok (k',some text)) : ChatText (cstr text) := by
  unfold formatChat at h
  simp only at h
  split at h
  · cases h
  · cases hr : readBlock c.partialMsg c.partialLen with
    | error e => simp [hr] at h
    | ok msg =>
      simp only [hr,ok_bind] at h
      split at h
      · cases h
      · cases h
        exact ⟨t,_,_,rfl⟩

theorem format_serves {k : Sock} (h : ∃ size, k = ((R.view p).sock.realloc none size).1) :
    Serves p R (R.tick.set p { R.view p with sock := k }) := by
  obtain ⟨size,rfl⟩ := h
  exact Serves.tick.trans (Serves.one rfl (.format (s := R.tick.seat p) size))

/-- What a whisper of `p` does: nothing, or it asks for the buffer of its text, or it writes
the text as well. -/
inductive Whispers (R : Room) (p : Nat) : Room → Prop
  | refused : Whispers R p R
  | unsent (size : Nat) : Whispers R p
      (R.tick.set p { R.view p with sock := ((R.view p).sock.realloc none size).1 })
  | sent (size t : Nat) {msg : Bytes} (htext : WhisperText msg) : Whispers R p
      ((R.tick.set p { R.view p with sock := ((R.view p).sock.realloc none size).1 }).sendTo
        msgTypeNormal t msg).1

theorem whisper_whispers (R : Room) (p : Nat) (saveptr : Bytes) :
    Whispers R p (R.whisper p saveptr).1 := by
  unfold whisper
  simp only
  split
  · exact .refused
  · split
    · exact .refused
    · rename_i target _
      obtain ⟨size,hsock⟩ := formatWhisper_sock (R.view p).info (R.view p).sock R.timestamp
        (strtokR 32 saveptr).2
      unfold whisperTo
      cases htext : (formatWhisper (R.view p).info (R.view p).sock R.timestamp
          (strtokR 32 saveptr).2).2 with
      | none =>
        simp only [htext,hsock]
        exact .unsent size
      | some text =>
        simp only [htext,hsock]
        split <;> exact .sent size target (formatWhisper_text htext)

theorem whisper_serves (saveptr : Bytes) : Serves p R (R.whisper p saveptr).1 := by
  have h := whisper_whispers R p saveptr
  generalize (R.whisper p saveptr).1 = S at h ⊢
  cases h with
  | refused => exact Serves.refl R
  | unsent size => exact format_serves ⟨size,rfl⟩
  | sent size t htext => exact (format_serves ⟨size,rfl⟩).trans (sendTo_serves_whisper t htext)

theorem command_serves (hp : p ∈ R.members) (cmd saveptr : Bytes) :
    Serves p R (R.command p cmd saveptr).1 := by
  unfold command
  cases findCommand cmd with
  | list => exact list_serves hp
  | whisper => exact whisper_serves saveptr
  | shutdown => exact Serves.shutdown
  | quit => exact Serves.refl R
  | unknown => exact Serves.refl R

/-- What `process_payload` has done with a message of `p` when it returns. -/
inductive Processed (R : Room) (p : Nat) : Option Bytes → Room → Int → Prop
  | name {copy : Option Bytes} {c : ClientInfo} (hname : (R.view p).info.hasName = false)
      (hstore : storeClientName (R.view p).info = .ok c) :
      Processed R p copy (R.set p { R.view p with info := { c with hasName := true } }) 0
  | command {S : Room} {text cmd saveptr : Bytes} {result : CmdRes} {r : Int}
      (hname : (R.view p).info.hasName = true) (hslash : text.head? = some 47)
      (htoken : strtokR 32 (cstr text) = (some cmd,saveptr))
      (hcommand : R.command p (makeLowercase cmd) saveptr = (S,result))
      (hr : r = if result = .disconnect ∨ result = .error then -1 else 0) :
      Processed R p (some text) S r
  | chat {text whole : Bytes} {k : Sock} (hname : (R.view p).info.hasName = true)
      (hslash : text.head? ≠ some 47)
      (hformat : formatChat (R.view p).info (R.view p).sock R.timestamp = .ok (k,some whole)) :
      Processed R p (some text)
        ((R.tick.set p { R.view p with sock := k }).broadcast (some p) (cstr whole)) 0

theorem nameIt_processed {copy : Option Bytes} (hname : (R.view p).info.hasName = false)
    (h : R.nameIt p = .ok R') : Processed R p copy R' 0 := by
  unfold nameIt at h
  cases hs : storeClientName (R.view p).info with
  | error e => simp [hs] at h
  | ok c =>
    simp only [hs,ok_bind,pure_eq_ok,Except.ok.injEq] at h
    subst h
    exact .name hname hs

theorem runCommand_processed {text : Bytes} {r : Int} (hname : (R.view p).info.hasName = true)
    (hslash : text.head? = some 47) (h : R.runCommand p text = .ok (R',r)) :
    Processed R p (some text) R' r := by
  unfold runCommand at h
  rcases htoken : strtokR 32 (cstr text) with ⟨cmd,saveptr⟩
  rw [htoken] at h
  cases cmd with
  | none => cases h
  | some cmd =>
    rcases hcommand : R.command p (makeLowercase cmd) saveptr with ⟨S,result⟩
    simp only [hcommand] at h
    split at h
    · rename_i hres
      cases h
      exact .command hname hslash htoken hcommand (if_pos hres).symm
    · rename_i hres
      cases h
      exact .command hname hslash htoken hcommand (if_neg hres).symm

theorem chat_processed {text : Bytes} (hname : (R.view p).info.hasName = true)
    (hslash : text.head? ≠ some 47) (h : R.chat p = .ok R') : Processed R p (some text) R' 0 := by
  unfold chat at h
  cases hf : formatChat (R.view p).info (R.view p).sock R.timestamp with
  | error e => simp [hf] at h
  | ok res =>
    obtain ⟨k,whole⟩ := res
    cases whole with
    | none => simp [hf] at h
    | some whole =>
      simp only [hf,ok_bind,pure_eq_ok,Except.ok.injEq] at h
      subst h
      exact .chat hname hslash hf

theorem processPayload_processed {copy : Option Bytes} {r : Int}
    (h : R.processPayload p copy = .ok (R',r)) : Processed R p copy R' r := by
  unfold processPayload at h
  by_cases hname : (R.view p).info.hasName = false
  · rw [if_pos hname] at h
    cases hn : R.nameIt p with
    | error e => simp [hn] at h
    | ok S =>
      simp only [hn,ok_bind,pure_eq_ok,Except.ok.injEq,Prod.mk.injEq] at h
      obtain ⟨rfl,rfl⟩ := h
      exact nameIt_processed hname hn
  · rw [if_neg hname] at h
    simp only [Bool.not_eq_false] at hname
    cases copy with
    | none => cases h
    | some text =>
      simp only at h
      by_cases hslash : text.head? = some 47
      · rw [if_pos hslash] at h
        exact runCommand_processed hname hslash h
      · rw [if_neg hslash] at h
        cases hc : R.chat p with
        | error e => simp [hc] at h
        | ok S =>
          simp only [hc,ok_bind,pure_eq_ok,Except.ok.injEq,Prod.mk.injEq] at h
          obtain ⟨rfl,rfl⟩ := h
          exact chat_processed hname hslash hc

/-- Whatever the message is, serving it is a sequence of steps at every seat,
and does not close its sender. -/
theorem processPayload_serves {copy : Option Bytes} {r : Int} (hp : p ∈ R.members)
    (h : R.processPayload p copy = .ok (R',r)) : Serves p R R' := by
  cases processPayload_processed h with
  | name hname hstore =>
    exact Serves.one (storeClientName_frame hstore).2 (.name (s := R.seat p) hname hstore)
  | @command _ _ cmd saveptr _ _ _ _ _ hcommand =>
    have hserves := command_serves hp (makeLowercase cmd) saveptr
    rw [hcommand] at hserves
    exact hserves
  | @chat _ _ k _ _ hformat =>
    have hcast := broadcast_serves (R := R.tick.set p { R.view p with sock := k }) (p := p) hp
      (formatChat_text hformat)
    exact (format_serves (formatChat_sock hformat)).trans hcast

end Room

namespace Room

theorem seat_set_of_ne (R : Room) {p q : Nat} (v : View) (h : q ≠ p) :
    (R.set p v).seat q = R.seat q := by simp [seat,view_set_of_ne R v h]

theorem seat_set_self (R : Room) (p : Nat) (v : View) :
    (R.set p v).seat p = { R.seat p with view := v } := by simp [seat]

def Seated (R : Room) : Prop := ∀ p ∈ R.members, Seat.Reachable p (R.seat p)

def Numbered (R : Room) : Prop := ∀ p ∈ R.members, (R.view p).sock.serial < R.accepted

end Room

namespace Act
variable {R R' : Room}

theorem mutex (h : Act R R') : R'.mutex = R.mutex := by
  cases h with
  | @message S p v v' copy r hp hopen hread hpayload hanswer =>
    exact (Room.processPayload_serves (R := R.set p v) hp hpayload).mutex
  | _ => rfl

theorem seat_set {p q : Nat} {v : View} (h : Seat.Turn p (R.seat p) { R.seat p with view := v }) :
    ReflTransGen (Seat.Turn q) (R.seat q) ((R.set p v).seat q) := by
  by_cases hqp : q = p
  · subst hqp
    rw [Room.seat_set_self]
    exact .single h
  · rw [Room.seat_set_of_ne R v hqp]

/-- A transition of the room is a number of turns at each seat, and whoever is
new has a fresh view. -/
theorem seat (h : Act R R') {q : Nat} (hq : q ∈ R'.members) :
    (q ∈ R.members ∧ ReflTransGen (Seat.Turn q) (R.seat q) (R'.seat q)) ∨
      (R'.accepted = R.accepted+1 ∧ (R'.view q).Fresh q R.accepted R'.broadcasts.length) := by
  cases h with
  | receive _ hopen hread => exact .inl ⟨hq,seat_set (.receive hopen hread)⟩
  | pause _ hopen hread => exact .inl ⟨hq,seat_set (.pause hopen hread)⟩
  | write _ hopen => exact .inl ⟨hq,seat_set (.write hopen)⟩
  | hangup _ hopen hidle => exact .inl ⟨hq,seat_set (.hangup hopen hidle)⟩
  | arrive _ bs fin reset => exact .inl ⟨hq,seat_set (.arrive bs fin reset)⟩
  | plan _ oracle => exact .inl ⟨hq,seat_set (.plan oracle)⟩
  | clock ts => exact .inl ⟨hq,.refl⟩
  | refuse => exact .inl ⟨hq,.refl⟩
  | announce hshut =>
    have hserved : Seat.Served q (R.seat q) ((R.broadcast none shutdownMessage).seat q) :=
      Room.broadcast_seat hq (by simp) (fun _ => ⟨hshut,rfl⟩)
    exact .inl ⟨hq,.single (.served (.single hserved))⟩
  | drop hp hclosed hl =>
    have hmem : q ∈ R.members := List.mem_of_mem_erase (hl.mem_iff.mp hq)
    exact .inl ⟨hmem,.refl⟩
  | @join p v hp hfresh =>
    rcases List.mem_append.mp hq with hmem | hnew
    · have hqp : q ≠ p := fun he => hp (he ▸ hmem)
      refine .inl ⟨hmem,?_⟩
      have hseat := Room.seat_set_of_ne R v hqp
      change ReflTransGen _ (R.seat q) ((R.set p v).seat q)
      rw [hseat]
    · have hqp : q = p := by simpa using hnew
      subst hqp
      exact .inr ⟨rfl,by simpa using hfresh⟩
  | @message S p v v' copy r hp hopen hread hpayload hanswer =>
    have hserves := Room.processPayload_serves (R := R.set p v) hp hpayload
    have hmem : q ∈ R.members := by
      have hq' : q ∈ S.members := hq
      rw [hserves.members] at hq'
      exact hq'
    refine .inl ⟨hmem,?_⟩
    have hseats := hserves.seats q hmem
    by_cases hqp : q = p
    · subst hqp
      rw [Room.seat_set_self] at hseats ⊢
      refine .single (.message hopen hread hseats ?_ hanswer)
      have hstill := hserves.closed
      simp only [Room.view_set_self] at hstill
      rw [(readTurn_frame hread.1).1.closed] at hstill
      exact hstill.trans hopen
    · rw [Room.seat_set_of_ne _ _ hqp] at hseats ⊢
      exact .single (.served hseats)

theorem seated (h : Act R R') (hs : R.Seated) : R'.Seated := by
  intro q hq
  rcases h.seat hq with ⟨hmem,hturns⟩ | ⟨-,hfresh⟩
  · obtain ⟨s₀,serial,h₀,hrun⟩ := hs q hmem
    exact ⟨s₀,serial,h₀,hrun.trans hturns⟩
  · exact ⟨R'.seat q,R.accepted,hfresh,.refl⟩

theorem accepted_le (h : Act R R') : R.accepted ≤ R'.accepted := by
  cases h with
  | @message S p v v' copy r hp hopen hread hpayload hanswer =>
    have hacc := (Room.processPayload_serves (R := R.set p v) hp hpayload).accepted
    exact Nat.le_of_eq hacc.symm
  | join => exact Nat.le_succ _
  | refuse => exact Nat.le_succ _
  | _ => exact Nat.le_refl _

theorem numbered (h : Act R R') (hn : R.Numbered) : R'.Numbered := by
  intro q hq
  rcases h.seat hq with ⟨hmem,hturns⟩ | ⟨hacc,old,fd,junk,oracle,hview⟩
  · have hserial : (R'.view q).sock.serial = (R.view q).sock.serial :=
      (Seat.turns_sock hturns).1
    rw [hserial]
    exact Nat.lt_of_lt_of_le (hn q hmem) h.accepted_le
  · rw [hview,hacc]
    exact Nat.lt_succ_self _

end Act

theorem acts_accepted_le {R R' : Room} (h : ReflTransGen Act R R') :
    R.accepted ≤ R'.accepted := by
  induction h with
  | refl => exact Nat.le_refl _
  | tail _ hact ih => exact Nat.le_trans ih hact.accepted_le

/-- A member of a later room is a new connection, or it is one that was there
and has taken turns since. -/
theorem acts_seat {R R' : Room} (h : ReflTransGen Act R R') {q : Nat} (hq : q ∈ R'.members) :
    R.accepted ≤ (R'.view q).sock.serial ∨
      (q ∈ R.members ∧ ReflTransGen (Seat.Turn q) (R.seat q) (R'.seat q)) := by
  induction h with
  | refl => exact .inr ⟨hq,.refl⟩
  | tail hrun hact ih =>
    rcases hact.seat hq with ⟨hmem,hturns⟩ | ⟨-,old,fd,junk,oracle,hview⟩
    · rcases ih hmem with hnew | ⟨hq₀,hturns₀⟩
      · exact .inl (Nat.le_trans hnew (Nat.le_of_eq (Seat.turns_sock hturns).1.symm))
      · exact .inr ⟨hq₀,hturns₀.trans hturns⟩
    · refine .inl ?_
      rw [hview]
      exact acts_accepted_le hrun

end ChatServer
