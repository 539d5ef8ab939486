import Mathlib.Data.List.Forall2
import ChatServer.Answers
import ChatServer.Handover

/-! Who said what: the chat that was broadcast in the name of a client is what its
connection handed over, line by line, in every run. -/
set_option autoImplicit false

namespace ChatServer
open ByteString Memory Execution Relation

def spoken (trace : List Obs) : List Bytes := ((messages trace).drop 1).filterMap id

def chats (trace : List Obs) : List Bytes :=
  (spoken trace).filter (fun m => decide (m.head? ≠ some 47))

def saidBy (p : Nat) (bs : List Broadcast) : List Bytes :=
  (bs.filter (fun b => decide (b.sender = some p))).map Broadcast.msg

/-- The line that a message of a client of this name makes, at some time. -/
def ChatLine (name m line : Bytes) : Prop := ∃ t, line = cstr (chatText (strftime t) name m)

def asks (name m : Bytes) : Bool :=
  m.head? == some 47 && (strtokR 32 (cstr m)).1.any (fun cmd => makeLowercase cmd == name)

def asksShutdown (m : Bytes) : Bool := asks (ascii "/shutdown") m

theorem asks_iff {name m cmd saveptr : Bytes} (hslash : m.head? = some 47)
    (htoken : strtokR 32 (cstr m) = (some cmd,saveptr)) :
    asks name m = true ↔ makeLowercase cmd = name := by
  simp [asks,hslash,htoken]

@[simp] theorem saidBy_nil (p : Nat) : saidBy p [] = [] := rfl

@[simp] theorem saidBy_append (p : Nat) (xs ys : List Broadcast) :
    saidBy p (xs ++ ys) = saidBy p xs ++ saidBy p ys := by simp [saidBy]

theorem saidBy_single (p : Nat) (b : Broadcast) :
    saidBy p [b] = if b.sender = some p then [b.msg] else [] := by
  by_cases h : b.sender = some p <;> simp [saidBy,h]

theorem spoken_first {trace : List Obs} {copy : Option Bytes} (h : messages trace = [copy]) :
    spoken trace = [] := by simp [spoken,h]

theorem spoken_next {xs ys : List Obs} {m : Bytes} (h : messages xs ≠ [])
    (hys : messages ys = messages xs ++ [some m]) : spoken ys = spoken xs ++ [m] := by
  unfold spoken
  rw [hys]
  cases hm : messages xs with
  | nil => exact absurd hm h
  | cons first rest => simp

theorem chats_next {xs ys : List Obs} {m : Bytes} (h : spoken ys = spoken xs ++ [m]) :
    chats ys = if m.head? = some 47 then chats xs else chats xs ++ [m] := by
  unfold chats
  rw [h,List.filter_append]
  by_cases hslash : m.head? = some 47 <;> simp [hslash]

theorem findCommand_named {x : Cmd} {name cmd : Bytes} (hx : x ≠ .unknown)
    (hfound : findCommand name = x) (hone : ∀ e ∈ commandTable, e.2 = x → e.1 = name) :
    findCommand cmd = x ↔ cmd = name := by
  constructor
  · intro h
    unfold findCommand at h
    cases hfind : commandTable.find? (fun e => e.1 == cmd) with
    | none =>
      rw [hfind] at h
      exact absurd h.symm hx
    | some e =>
      simp only [hfind] at h
      have hcmd : e.1 = cmd := by simpa using List.find?_some hfind
      rw [← hcmd]
      exact hone e (List.mem_of_find?_eq_some hfind) h
  · rintro rfl
    exact hfound

theorem findCommand_shutdown {cmd : Bytes} :
    findCommand cmd = .shutdown ↔ cmd = ascii "/shutdown" :=
  findCommand_named (by decide) (by decide) (by decide)

theorem findCommand_list {cmd : Bytes} : findCommand cmd = .list ↔ cmd = ascii "/list" :=
  findCommand_named (by decide) (by decide) (by decide)

namespace Room

/-- What the room does with a message that the connection of member `p` hands over. -/
inductive Spoke (p : Nat) (R R' : Room) : Prop
  | named {copy : Option Bytes} (hbefore : messages (R.view p).sock.trace = [])
      (hmessages : messages (R'.view p).sock.trace = [copy])
      (hcasts : R'.broadcasts = R.broadcasts) (hflag : R'.shutdown = R.shutdown)
  | obeyed {m : Bytes} (hbefore : messages (R.view p).sock.trace ≠ [])
      (hname : (R'.view p).info.shownName = (R.view p).info.shownName)
      (hmessages : messages (R'.view p).sock.trace = messages (R.view p).sock.trace ++ [some m])
      (hslash : m.head? = some 47) (hcasts : R'.broadcasts = R.broadcasts)
      (hasks : asksShutdown m = true → R'.shutdown = true ∧ (R'.view p).info.closed = true)
      (hother : asksShutdown m = false → R'.shutdown = R.shutdown)
  | chatted {m line : Bytes} (hbefore : messages (R.view p).sock.trace ≠ [])
      (hname : (R'.view p).info.shownName = (R.view p).info.shownName)
      (hmessages : messages (R'.view p).sock.trace = messages (R.view p).sock.trace ++ [some m])
      (hslash : m.head? ≠ some 47) (hcasts : R'.broadcasts = R.broadcasts ++ [⟨some p,line⟩])
      (hline : ChatLine (R.view p).info.shownName m line) (hflag : R'.shutdown = R.shutdown)

/-- Nothing is handed over by member `q` or said in its name, and it gets no answer. -/
structure Silent (q : Nat) (R R' : Room) : Prop where
  name : (R'.view q).info.shownName = (R.view q).info.shownName
  messages : messages (R'.view q).sock.trace = messages (R.view q).sock.trace
  closed : (R.view q).info.closed = true → (R'.view q).info.closed = true
  answers : Unanswered (R.view q) (R'.view q)
  casts : ∃ more, R'.broadcasts = R.broadcasts ++ more ∧ saidBy q more = []

inductive Told (q : Nat) (R R' : Room) : Prop
  | silent {more : List Broadcast}
      (hname : (R'.view q).info.shownName = (R.view q).info.shownName)
      (hmessages : messages (R'.view q).sock.trace = messages (R.view q).sock.trace)
      (hclosed : (R.view q).info.closed = true → (R'.view q).info.closed = true)
      (hcasts : R'.broadcasts = R.broadcasts ++ more) (hsaid : saidBy q more = [])
  | spoke (hopen : (R.view q).info.closed = false) (h : Spoke q R R')

/-- What was broadcast in the name of member `p` is what its connection handed over. -/
structure Speaks (R : Room) (p : Nat) : Prop where
  joined : (R.view p).sock.joined ≤ R.broadcasts.length
  lines : List.Forall₂ (ChatLine (R.view p).info.shownName) (chats (R.view p).sock.trace)
    (saidBy p (R.broadcasts.drop (R.view p).sock.joined))

theorem Speaks.told {R R' : Room} {q : Nat} (h : R.Speaks q) (htold : Told q R R')
    (hjoined : (R'.view q).sock.joined = (R.view q).sock.joined) : R'.Speaks q := by
  have hdrop : ∀ more, R'.broadcasts = R.broadcasts ++ more →
      (R'.view q).sock.joined ≤ R'.broadcasts.length ∧
      R'.broadcasts.drop (R'.view q).sock.joined =
        R.broadcasts.drop (R.view q).sock.joined ++ more := by
    intro more he
    have hle := h.joined
    rw [hjoined,he,List.drop_append_of_le_length hle,List.length_append]
    exact ⟨by omega,rfl⟩
  cases htold with
  | @silent more hname hmessages _ hcasts hsaid =>
    obtain ⟨hle,hnew⟩ := hdrop more hcasts
    have hchats : chats (R'.view q).sock.trace = chats (R.view q).sock.trace := by
      unfold chats spoken
      rw [hmessages]
    refine ⟨hle,?_⟩
    rw [hnew,hname,hchats,saidBy_append,hsaid,List.append_nil]
    exact h.lines
  | spoke _ hspoke =>
    cases hspoke with
    | @named copy hbefore hmessages hcasts =>
      obtain ⟨hle,hnew⟩ := hdrop [] (by rw [hcasts,List.append_nil])
      have hold : chats (R.view q).sock.trace = [] := by simp [chats,spoken,hbefore]
      have hchats : chats (R'.view q).sock.trace = [] := by simp [chats,spoken_first hmessages]
      have hlines := h.lines
      rw [hold,List.forall₂_nil_left_iff] at hlines
      refine ⟨hle,?_⟩
      rw [hnew,hchats,saidBy_append,hlines]
      exact .nil
    | @obeyed m hbefore hname hmessages hslash hcasts =>
      obtain ⟨hle,hnew⟩ := hdrop [] (by rw [hcasts,List.append_nil])
      have hchats := chats_next (spoken_next hbefore hmessages)
      rw [if_pos hslash] at hchats
      refine ⟨hle,?_⟩
      rw [hnew,hname,hchats,List.append_nil]
      exact h.lines
    | @chatted m line hbefore hname hmessages hslash hcasts hline =>
      obtain ⟨hle,hnew⟩ := hdrop [⟨some q,line⟩] hcasts
      have hchats := chats_next (spoken_next hbefore hmessages)
      rw [if_neg hslash] at hchats
      refine ⟨hle,?_⟩
      rw [hnew,hname,hchats,saidBy_append,saidBy_single,if_pos rfl]
      exact List.rel_append h.lines (.cons hline .nil)

theorem list_keeps {α : Type} {f : Room → α} (hset : ∀ S p v, f (set S p v) = f S) (R : Room)
    (user : Nat) : f (R.list user) = f R := by
  have hloop : ∀ (l : List Nat) (S : Room), f (l.foldl (listEntry user) S) = f S := by
    intro l
    induction l with
    | nil => exact fun S => rfl
    | cons e l ih =>
      exact fun S => (ih (S.listEntry user e)).trans ((hset _ _ _).trans (hset _ _ _))
  exact (hloop _ _).trans (hset _ _ _)

theorem whisper_keeps {α : Type} {f : Room → α} (hset : ∀ S p v, f (set S p v) = f S)
    (htick : ∀ S, f (tick S) = f S) (R : Room) (user : Nat) (saveptr : Bytes) :
    f (R.whisper user saveptr).1 = f R := by
  have hformat : ∀ v, f (R.tick.set user v) = f R := fun v => (hset _ _ _).trans (htick R)
  have h := whisper_whispers R user saveptr
  generalize (R.whisper user saveptr).1 = S at h ⊢
  cases h with
  | refused => rfl
  | unsent size => exact hformat _
  | sent size t htext => exact (hset _ _ _).trans (hformat _)

theorem command_broadcasts (R : Room) (user : Nat) (cmd saveptr : Bytes) :
    (R.command user cmd saveptr).1.broadcasts = R.broadcasts := by
  unfold command
  cases findCommand cmd with
  | list => exact list_keeps (f := broadcasts) (fun _ _ _ => rfl) R user
  | whisper =>
    exact whisper_keeps (f := broadcasts) (fun _ _ _ => rfl) (fun _ => rfl) R user saveptr
  | _ => rfl

theorem command_shutdown (R : Room) (user : Nat) (cmd saveptr : Bytes) :
    (cmd = ascii "/shutdown" → (R.command user cmd saveptr).1.shutdown = true ∧
      (R.command user cmd saveptr).2 = .disconnect) ∧
    (cmd ≠ ascii "/shutdown" → (R.command user cmd saveptr).1.shutdown = R.shutdown) := by
  refine ⟨?_,fun hne => ?_⟩
  · rintro rfl
    exact ⟨rfl,rfl⟩
  · unfold command
    cases hfind : findCommand cmd with
    | shutdown => exact absurd (findCommand_shutdown.mp hfind) hne
    | list => exact list_keeps (f := shutdown) (fun _ _ _ => rfl) R user
    | whisper =>
      exact whisper_keeps (f := shutdown) (fun _ _ _ => rfl) (fun _ => rfl) R user saveptr
    | quit => rfl
    | unknown => rfl

end Room

theorem ClientInfo.reading_shownName {c c' : ClientInfo} (h : c'.reading = c.reading) :
    c'.shownName = c.shownName := by
  simp only [ClientInfo.reading,Reading.mk.injEq] at h
  obtain ⟨-,-,-,-,-,-,-,-,-,-,-,hname,hlen,-⟩ := h
  unfold ClientInfo.shownName
  rw [hname,hlen]

theorem InfoFrame.shownName {c c' : ClientInfo} (h : InfoFrame c c') :
    c'.shownName = c.shownName := by
  unfold ClientInfo.shownName
  rw [h.name,h.nameLen]

theorem Took.messages {k k' : Sock} {bs : Bytes} (h : Took k k' bs) :
    messages k'.trace = messages k.trace := by
  obtain ⟨more,ht,hm⟩ := h.trace
  rw [ht,messages_append,(handing_messages (fun o ho => taking_handing (hm o ho))).1,
    List.append_nil]

namespace View

theorem Still.messages {v v' : View} (h : Still v v') :
    messages v'.sock.trace = messages v.sock.trace := by
  obtain ⟨more,ht,hm⟩ := h.trace
  rw [ht,messages_append,(quiet_messages hm).1,List.append_nil]

theorem stop_messages (v : View) (r : Int) :
    messages (v.stop r).sock.trace = messages v.sock.trace := by
  unfold stop
  by_cases hr : r < 0
  · simp [hr,markClosed,note,Sock.note,ChatServer.messages]
  · simp [hr,note,Sock.note,ChatServer.messages]

theorem answer_told {v v' : View} {r : Int} (h : v.answer r = .ok v') :
    v'.info.shownName = v.info.shownName ∧ messages v'.sock.trace = messages v.sock.trace := by
  rcases answer_cases h with ⟨-,rfl⟩ | ⟨c,-,hfinish,rfl⟩
  · refine ⟨?_,(stop_messages _ _).trans (by simp [ChatServer.messages])⟩
    simp [stop,markClosed,note,ClientInfo.shownName]
  · exact ⟨(finishMessage_frame hfinish).shownName,by simp [note,Sock.note,ChatServer.messages]⟩

end View

theorem head_terminated (m : Bytes) : (m ++ [0]).head? = some 47 ↔ m.head? = some 47 := by
  cases m with
  | nil => simp
  | cons b m => simp

namespace Act
variable {R R' : Room} {q : Nat}

theorem silent_same (hview : R'.view q = R.view q) (hcasts : R'.broadcasts = R.broadcasts) :
    Room.Silent q R R' :=
  ⟨by rw [hview],by rw [hview],by rw [hview]; exact id,.same (by rw [hview]),[],by simp [hcasts],
    rfl⟩

theorem silent_set {p : Nat} {v : View}
    (hname : v.info.shownName = (R.view p).info.shownName)
    (hmessages : messages v.sock.trace = messages (R.view p).sock.trace)
    (hclosed : (R.view p).info.closed = true → v.info.closed = true)
    (hanswers : Unanswered (R.view p) v) : Room.Silent q R (R.set p v) := by
  by_cases hqp : q = p
  · subst hqp
    refine ⟨?_,?_,?_,?_,[],(List.append_nil _).symm,rfl⟩
    · simpa using hname
    · simpa using hmessages
    · simpa using hclosed
    · simpa [Unanswered] using hanswers
  · exact silent_same (Room.view_set_of_ne R v hqp) rfl

section Messages
variable {S : Room} {p : Nat} {v v' : View} {copy : Option Bytes} {r : Int}

inductive HandsOver (p : Nat) (R R' : Room) (v : View) : Option Bytes → Prop
  | first {copy : Option Bytes} (hname : v.info.hasName = false)
      (hbefore : messages (R.view p).sock.trace = [])
      (hmessages : messages (R'.view p).sock.trace = [copy.map List.dropLast]) :
      HandsOver p R R' v copy
  | next {m : Bytes} (hname : v.info.hasName = true)
      (hbefore : messages (R.view p).sock.trace ≠ [])
      (hmessages : messages (R'.view p).sock.trace = messages (R.view p).sock.trace ++ [some m])
      (hshown : (R'.view p).info.shownName = (R.view p).info.shownName)
      (hkept : v.info.shownName = (R.view p).info.shownName) (hstored : Stored v.info m) :
      HandsOver p R R' v (some (m ++ [0]))

theorem message_handed (hheard : R.Heard) (hp : p ∈ R.members)
    (hopen : (R.view p).info.closed = false) (hread : (R.view p).reads (.deliver copy) v)
    (hpayload : (R.set p v).processPayload p copy = .ok (S,r))
    (hanswer : (S.view p).answer r = .ok v') : HandsOver p R (S.set p v') v copy := by
  obtain ⟨ms,hms⟩ := hheard p hp _ (refusals_foretell _)
  obtain ⟨k₁,bs,whole,htook,hk,-,hcopy⟩ := readTurn_outcome hread.1 (hms.parses hopen)
  have hframe := (readTurn_frame hread.1).1
  obtain ⟨hlast,hlastm⟩ := View.answer_told hanswer
  have hnaming := hms.naming
  have hcopies := hms.heard.copies
  have hnew : messages v.sock.trace =
      messages (R.view p).sock.trace ++ [copy.map List.dropLast] := by
    rw [hk,Sock.note_trace,messages_append,htook.messages]
    rfl
  cases hname : v.info.hasName with
  | false =>
    obtain ⟨-,c,hstore,rfl⟩ := Room.processPayload_name (by simpa using hname) hpayload
    have hnone : messages (R.view p).sock.trace = [] := by
      cases ms with
      | nil =>
        rcases hcopies with heq | ⟨-,m,rest,hbad,-⟩
        · exact heq
        · cases hbad
      | cons m rest =>
        have hbad := hframe.hasName.trans hnaming.1
        rw [hname] at hbad
        cases hbad
    refine .first hname hnone ?_
    rw [Room.view_set_self,hlastm]
    simp only [Room.view_set_self]
    rw [hnew,hnone]
    rfl
  | true =>
    have hshown := ClientInfo.reading_shownName
      (Room.processPayload_unread (by simpa using hname) hpayload p)
    have hquiet : Quiet ((R.set p v).view p) (S.view p) :=
      Quiet.served_run ((Room.processPayload_serves (R := R.set p v) hp hpayload).seats p hp)
    obtain ⟨more,htrace,hmore⟩ := hquiet.trace
    rw [Room.view_set_self] at hshown htrace
    have hbefore : messages (R.view p).sock.trace ≠ [] := by
      cases ms with
      | nil =>
        have hbad := hframe.hasName.trans hnaming
        rw [hname] at hbad
        cases hbad
      | cons m rest =>
        rcases hcopies with heq | ⟨-,_,_,-,heq⟩ <;> simp [heq]
    obtain ⟨text,rfl⟩ := Room.processPayload_copy (by simpa using hname) hpayload
    have hcopied : text = whole ++ [0] ∧ Stored v.info whole := by
      rcases hcopy with ⟨htext,hstored⟩ | ⟨hbad,-⟩
      · exact ⟨Option.some.inj htext,hstored⟩
      · cases hbad
    obtain ⟨rfl,hstored⟩ := hcopied
    refine .next hname hbefore ?_ ?_ hframe.shownName hstored
    · rw [Room.view_set_self,hlastm,htrace,messages_append,(quiet_messages hmore).1,hnew]
      simp
    · rw [Room.view_set_self]
      exact hlast.trans (hshown.trans hframe.shownName)

/-- A message that member `p` hands over names it, or is a command, or is chat. -/
theorem spoke_message (hheard : R.Heard) (hp : p ∈ R.members)
    (hopen : (R.view p).info.closed = false) (hread : (R.view p).reads (.deliver copy) v)
    (hpayload : (R.set p v).processPayload p copy = .ok (S,r))
    (hanswer : (S.view p).answer r = .ok v') : Room.Spoke p R (S.set p v') := by
  cases message_handed hheard hp hopen hread hpayload hanswer with
  | first hname hbefore hmessages =>
    obtain ⟨-,c,hstore,rfl⟩ := Room.processPayload_name (by simpa using hname) hpayload
    exact .named hbefore hmessages rfl rfl
  | @next m hname hbefore hmessages hshown hkept hstored =>
    cases Room.processPayload_processed hpayload with
    | name hunnamed =>
      rw [Room.view_set_self,hname] at hunnamed
      cases hunnamed
    | @command S' _ cmd saveptr result _ _ hslash htoken hcommand hr =>
      have hcasts := Room.command_broadcasts (R.set p v) p (makeLowercase cmd) saveptr
      obtain ⟨hasks,hother⟩ := Room.command_shutdown (R.set p v) p (makeLowercase cmd) saveptr
      rw [hcommand] at hcasts hasks hother
      have hhead := (head_terminated m).mp hslash
      rw [cstr_append_zero] at htoken
      have hmeans : asksShutdown m = true ↔ makeLowercase cmd = ascii "/shutdown" :=
        asks_iff hhead htoken
      refine .obeyed hbefore hshown hmessages hhead hcasts ?_ ?_
      · intro hm
        obtain ⟨hflag,hres⟩ := hasks (hmeans.mp hm)
        refine ⟨hflag,?_⟩
        rw [if_pos (.inl hres)] at hr
        rw [Room.view_set_self]
        rcases View.answer_cases hanswer with ⟨-,rfl⟩ | ⟨c,hbad,-⟩
        · simp [View.stop,View.markClosed,View.note]
        · exact absurd hr hbad
      · intro hm
        refine hother (fun hbad => ?_)
        rw [hmeans.mpr hbad] at hm
        cases hm
    | @chat _ line k _ hslash hformat =>
      rw [Room.view_set_self,formatChat_stored hstored] at hformat
      have hline : line = chatText (R.set p v).timestamp v.info.shownName m ++ [0] := by
        split at hformat
        · cases hformat
        · cases hformat
          rfl
      refine .chatted hbefore hshown hmessages
        (fun hbad => hslash ((head_terminated m).mpr hbad)) rfl ⟨clockTime R.clock,?_⟩ rfl
      rw [hline,cstr_append_zero,hkept]
      rfl

theorem silent_message (hheard : R.Heard) (hp : p ∈ R.members) (hq : q ∈ R.members) (hqp : q ≠ p)
    (hopen : (R.view p).info.closed = false) (hread : (R.view p).reads (.deliver copy) v)
    (hpayload : (R.set p v).processPayload p copy = .ok (S,r))
    (hanswer : (S.view p).answer r = .ok v') : Room.Silent q R (S.set p v') := by
  have hspoke := spoke_message hheard hp hopen hread hpayload hanswer
  have hquiet : Quiet ((R.set p v).view q) (S.view q) :=
    Quiet.served_run ((Room.processPayload_serves (R := R.set p v) hp hpayload).seats q hq)
  obtain ⟨more,htrace,hmore⟩ := hquiet.trace
  have hname : (S.view q).info.shownName = ((R.set p v).view q).info.shownName := by
    cases hnamed : v.info.hasName with
    | false =>
      obtain ⟨-,c,-,rfl⟩ := Room.processPayload_name (by simpa using hnamed) hpayload
      rw [Room.view_set_of_ne _ _ hqp]
    | true =>
      exact ClientInfo.reading_shownName
        (Room.processPayload_unread (by simpa using hnamed) hpayload q)
  have hanswers := Room.processPayload_others hpayload hqp
  have hclosed := hquiet.closed
  rw [Room.view_set_of_ne _ _ hqp] at hname htrace hanswers hclosed
  have hsame : (S.set p v').view q = S.view q := Room.view_set_of_ne _ _ hqp
  refine ⟨?_,?_,?_,?_,?_⟩
  · rw [hsame]
    exact hname
  · rw [hsame,htrace,messages_append,(quiet_messages hmore).1,List.append_nil]
  · rw [hsame]
    exact hclosed
  · rw [hsame]
    exact hanswers
  · cases hspoke with
    | named _ _ hcasts => exact ⟨[],by rw [hcasts,List.append_nil],rfl⟩
    | obeyed _ _ _ _ hcasts => exact ⟨[],by rw [hcasts,List.append_nil],rfl⟩
    | chatted _ _ _ _ hcasts =>
      refine ⟨_,hcasts,?_⟩
      rw [saidBy_single,if_neg (fun he => hqp (Option.some.inj he).symm)]

end Messages

theorem speaker (h : Act R R') (hheard : R.Heard) (hq : q ∈ R.members) : Room.Silent q R R' ∨
    ∃ v v' copy S r, (R.view q).info.closed = false ∧ (R.view q).reads (.deliver copy) v ∧
      (R.set q v).processPayload q copy = .ok (S,r) ∧ (S.view q).answer r = .ok v' ∧
      R' = S.set q v' := by
  have hstill : ∀ {p : Nat} {v : View}, View.Still (R.view p) v → Unanswered (R.view p) v →
      Room.Silent q R (R.set p v) := fun hs ha =>
    silent_set (ClientInfo.reading_shownName hs.reading) hs.messages hs.closed ha
  have hturn : ∀ {p : Nat} {v : View} {next : Next}, p ∈ R.members →
      (R.view p).info.closed = false → (R.view p).reads next v →
      (next = .again ∨ ∃ r, next = .ret r) →
      v.info.shownName = (R.view p).info.shownName ∧
        messages v.sock.trace = messages (R.view p).sock.trace ∧ Unanswered (R.view p) v := by
    intro p v next hp hopen hread hnext
    obtain ⟨ms,hms⟩ := hheard p hp _ (refusals_foretell _)
    have hout := readTurn_outcome hread.1 (hms.parses hopen)
    refine ⟨(readTurn_frame hread.1).1.shownName,?_⟩
    rcases hnext with rfl | ⟨r,rfl⟩
    · obtain ⟨⟨bs,htook⟩,-⟩ := hout
      exact ⟨htook.messages,.took htook⟩
    · obtain ⟨⟨bs,htook⟩,-⟩ := hout
      exact ⟨htook.messages,.took htook⟩
  have hvain : ∀ {p : Nat} {P : Prop}, (R.view p).info.closed = false →
      (R.view p).info.closed = true → P := by
    intro p P hopen hclosed
    rw [hopen] at hclosed
    cases hclosed
  cases h with
  | receive hp hopen hread =>
    obtain ⟨hname,hmessages,hanswers⟩ := hturn hp hopen hread (.inl rfl)
    exact .inl (silent_set hname hmessages (hvain hopen) hanswers)
  | @pause p v r hp hopen hread =>
    obtain ⟨hname,hmessages,hanswers⟩ := hturn hp hopen hread (.inr ⟨r,rfl⟩)
    refine .inl (silent_set ?_ ((v.stop_messages r).trans hmessages) (hvain hopen)
      (hanswers.trans (.stop v r)))
    rw [← hname]
    unfold View.stop
    split <;> rfl
  | @message S p v v' copy r hp hopen hread hpayload hanswer =>
    by_cases hqp : q = p
    · subst hqp
      exact .inr ⟨v,v',copy,S,r,hopen,hread,hpayload,hanswer,rfl⟩
    · exact .inl (silent_message hheard hp hq hqp hopen hread hpayload hanswer)
  | write =>
    exact .inl (hstill (.of_quiet (View.sendNow_reading _ _) (Quiet.sendNow _ _))
      (.written (.sendNow _)))
  | hangup =>
    exact .inl (hstill (.of_quiet rfl ((Quiet.note _ rfl).trans (Quiet.markClosed _)))
      ((Unanswered.note _ rfl).trans (.note _ rfl)))
  | announce =>
    have hquiet : Quiet (R.view q) ((R.broadcast none shutdownMessage).view q) := by
      unfold Room.broadcast
      simp only [hq,if_true]
      exact Quiet.offer _ _ _ _ _
    have hs : View.Still (R.view q) ((R.broadcast none shutdownMessage).view q) :=
      .of_quiet (Room.broadcast_unread R none _ q) hquiet
    exact .inl ⟨ClientInfo.reading_shownName hs.reading,hs.messages,hs.closed,
      Room.broadcast_unanswered R none _ q,_,rfl,rfl⟩
  | @join p v hp =>
    have hqp : q ≠ p := fun he => hp (he ▸ hq)
    exact .inl (silent_same (Room.view_set_of_ne R v hqp) rfl)
  | arrive => exact .inl (hstill ⟨rfl,id,[],by simp [deliver],by simp⟩ (.same rfl))
  | plan => exact .inl (hstill ⟨rfl,id,[],by simp,by simp⟩ (.same rfl))
  | refuse => exact .inl (silent_same rfl rfl)
  | drop => exact .inl (silent_same rfl rfl)
  | clock => exact .inl (silent_same rfl rfl)

/-- What a transition of the room is for what a member says. -/
theorem told (h : Act R R') (hheard : R.Heard) (hq : q ∈ R.members) : Room.Told q R R' := by
  rcases h.speaker hheard hq with hs | ⟨v,v',copy,S,r,hopen,hread,hpayload,hanswer,rfl⟩
  · obtain ⟨more,hcasts,hsaid⟩ := hs.casts
    exact .silent hs.name hs.messages hs.closed hcasts hsaid
  · exact .spoke hopen (spoke_message hheard hq hopen hread hpayload hanswer)

theorem speaks (h : Act R R') (hheard : R.Heard) (hs : ∀ p ∈ R.members, R.Speaks p) :
    ∀ p ∈ R'.members, R'.Speaks p := by
  intro p hp
  rcases h.seat hp with ⟨hmem,hturns⟩ | ⟨-,old,fd,junk,oracle,hview⟩
  · exact (hs p hmem).told (h.told hheard hmem) (Seat.turns_sock hturns).2
  · refine ⟨?_,?_⟩
    · rw [hview]
    · rw [hview]
      simp only [List.drop_length]
      exact .nil

end Act

theorem reach_speaks {R : Room} (h : ReflTransGen Act Room.empty R) :
    ∀ p ∈ R.members, R.Speaks p := by
  have hnone : ∀ p, p ∉ Room.empty.members := by simp [Room.empty]
  induction h with
  | refl => exact fun p hp => absurd hp (hnone p)
  | tail hrun hact ih =>
    exact hact.speaks (reach_heard hrun (fun p hp => absurd hp (hnone p))) ih

theorem listed_speaks {acts : List Action} {s : Sys} {p : Nat} {c : ClientInfo} {k : Sock}
    (hrun : run step Sys.init acts = .ok s) (hphase : s.phase ≠ .done) (h : Listed s p c k) :
    List.Forall₂ (ChatLine c.shownName) (chats k.trace)
      (saidBy p (s.world.broadcasts.drop k.joined)) ∧ k.joined ≤ s.world.broadcasts.length := by
  obtain ⟨R,htracks,hseated,hacts⟩ := run_tracks hrun hphase
  obtain ⟨hp,hseats⟩ := htracks.seats hseated h
  obtain ⟨hjoined,hlines⟩ := reach_speaks hacts p hp
  have hcasts : R.broadcasts = s.world.broadcasts := hseats.broadcasts
  have hsock : k = (R.view p).sock := hseats.sock
  have hname : c.shownName = (R.view p).info.shownName := by
    rw [hseats.info]
    rfl
  rw [← hcasts,hsock,hname]
  exact ⟨hlines,hjoined⟩

/-- In every run, what was broadcast in the name of a listed client since it joined is what
its connection handed over after its name, but for the commands, line by line and each
under the name that the client has. -/
theorem chat_attributed {acts : List Action} {s : Sys} {p : Nat} {c : ClientInfo} {k : Sock}
    (hrun : run step Sys.init acts = .ok s) (hphase : s.phase ≠ .done) (h : Listed s p c k) :
    List.Forall₂ (ChatLine c.shownName) (chats k.trace)
      (saidBy p (s.world.broadcasts.drop k.joined)) :=
  (listed_speaks hrun hphase h).1

theorem chat_attributed_slowReader : ∃ s c k, run step Sys.init Action.slowReader = .ok s ∧
    Listed s 1 c k ∧ chats k.trace = [ascii "hello"] ∧
    List.Forall₂ (ChatLine c.shownName) (chats k.trace)
      (saidBy 1 (s.world.broadcasts.drop k.joined)) := by
  obtain ⟨s,hrun,c,k,hphase,hlisted,htest⟩ := reaches_listed
    (show reachesListed Action.slowReader 1 (fun _ _ k =>
      decide (chats k.trace = [ascii "hello"])) = true by decide +kernel)
  exact ⟨s,c,k,hrun,hlisted,of_decide_eq_true htest,chat_attributed hrun hphase hlisted⟩

end ChatServer
