import ChatServer.Conversation

/-! Who was told who is there: the answers to /list that a client got are the ones its
connection asked for, in every run. -/
set_option autoImplicit false

namespace ChatServer
open ByteString Memory Execution Relation

def asksList (m : Bytes) : Bool := asks (ascii "/list") m

namespace View
variable {v v' : View} {r : Int}

theorem answer_unanswered (h : v.answer r = .ok v') : Unanswered v v' := by
  rcases answer_cases h with ⟨-,rfl⟩ | ⟨c,-,-,rfl⟩
  · exact (Unanswered.note v rfl).trans (.stop _ _)
  · exact .note v rfl

theorem delivers_unanswered {copy : Option Bytes} {k₁ : Sock} {bs : Bytes}
    (htook : Took v.sock k₁ bs) (hk : v'.sock = k₁.note (.message copy)) : Unanswered v v' := by
  have hread : Unanswered v { v' with sock := k₁ } := .took htook
  exact hread.trans (.of_trace (by rw [hk]; rfl) (by simp [Obs.answer]))

end View

namespace Room

/-- Each answer to member `p` was asked for, and each request was answered. -/
def Attends (R : Room) (p : Nat) : Prop := ∃ lists : List (List Bytes × List Bytes),
  answers (R.view p).sock.trace = lists.flatMap (listAnswer (R.view p).info.shownName) ∧
    lists.length = (spoken (R.view p).sock.trace).countP asksList

variable {R S : Room} {p : Nat} {v v' : View} {copy : Option Bytes} {r : Int}

theorem Attends.silent {R' : Room} (h : R.Attends p) (hs : Silent p R R') : R'.Attends p := by
  obtain ⟨lists,hanswers,hlength⟩ := h
  refine ⟨lists,?_,?_⟩
  · rw [hs.answers,hs.name]
    exact hanswers
  · rw [hlength]
    unfold spoken
    rw [hs.messages]

/-- A request gets one answer, and nothing else gets any. -/
theorem message_answered (hheard : R.Heard) (hnodup : R.members.Nodup) (hp : p ∈ R.members)
    (hopen : (R.view p).info.closed = false) (hread : (R.view p).reads (.deliver copy) v)
    (hpayload : (R.set p v).processPayload p copy = .ok (S,r))
    (hanswer : (S.view p).answer r = .ok v') {m : Bytes} (hname : v.info.hasName = true)
    (hcopy : copy = some (m ++ [0])) :
    (asksList m = true ∧ ∃ others, answers v'.sock.trace =
      answers (R.view p).sock.trace ++ listAnswer v.info.shownName others) ∨
    (asksList m = false ∧ Unanswered (R.view p) v') := by
  obtain ⟨ms,hms⟩ := hheard p hp _ (refusals_foretell _)
  obtain ⟨k₁,bs,whole,htook,hk,-⟩ := readTurn_outcome hread.1 (hms.parses hopen)
  have hbefore : Unanswered (R.view p) v := View.delivers_unanswered htook hk
  have hafter := View.answer_unanswered hanswer
  subst hcopy
  cases processPayload_processed hpayload with
  | name hunnamed =>
    rw [view_set_self,hname] at hunnamed
    cases hunnamed
  | @command _ _ cmd saveptr _ _ _ hslash htoken hcommand =>
    have hhead := (head_terminated m).mp hslash
    rw [cstr_append_zero] at htoken
    have hmeans : asksList m = true ↔ findCommand (makeLowercase cmd) = .list :=
      (asks_iff hhead htoken).trans findCommand_list.symm
    by_cases hlist : findCommand (makeLowercase cmd) = .list
    · refine .inl ⟨hmeans.mpr hlist,?_⟩
      have hroom : (R.set p v).list p = S := by
        unfold command at hcommand
        rw [hlist] at hcommand
        exact congrArg Prod.fst hcommand
      obtain ⟨pre,post,hsplit⟩ := List.append_of_mem hp
      have hlisted := list_answered (R := R.set p v) hsplit hnodup
      rw [hroom,shownName,view_set_self,hbefore] at hlisted
      exact ⟨_,Eq.trans hafter hlisted⟩
    · refine .inr ⟨?_,?_⟩
      · cases hasks : asksList m with
        | false => rfl
        | true => exact absurd (hmeans.mp hasks) hlist
      · have hnone := command_unanswered (R.set p v) (p := p) (q := p) (makeLowercase cmd) saveptr
          (.inr hlist)
        rw [hcommand,view_set_self] at hnone
        exact (hbefore.trans hnone).trans hafter
  | @chat _ whole k _ hslash hformat =>
    refine .inr ⟨?_,?_⟩
    · have hhead : m.head? ≠ some 47 := fun hm => hslash ((head_terminated m).mpr hm)
      simp [asksList,asks,hhead]
    · have hread : Unanswered (R.view p) ((R.set p v).view p) := by
        rw [view_set_self]
        exact hbefore
      exact (hread.trans (chat_unanswered hformat (cstr whole) p)).trans hafter

theorem Attends.message (h : R.Attends p) (hheard : R.Heard) (hnodup : R.members.Nodup)
    (hp : p ∈ R.members) (hopen : (R.view p).info.closed = false)
    (hread : (R.view p).reads (.deliver copy) v)
    (hpayload : (R.set p v).processPayload p copy = .ok (S,r))
    (hanswer : (S.view p).answer r = .ok v') : (S.set p v').Attends p := by
  obtain ⟨lists,hanswers,hlength⟩ := h
  cases Act.message_handed hheard hp hopen hread hpayload hanswer with
  | first hname hbefore hmessages =>
    obtain ⟨-,c,-,rfl⟩ := processPayload_name (by simpa using hname) hpayload
    have hempty : lists = [] := by
      rw [← List.length_eq_zero_iff,hlength]
      simp [spoken,hbefore]
    obtain ⟨ms,hms⟩ := hheard p hp _ (refusals_foretell _)
    obtain ⟨k₁,bs,whole,htook,hk,-⟩ := readTurn_outcome hread.1 (hms.parses hopen)
    have hafter := View.answer_unanswered hanswer
    rw [view_set_self,view_set_self] at hafter
    have hsame : Unanswered (R.view p) v' := (View.delivers_unanswered htook hk).trans hafter
    refine ⟨[],?_,?_⟩
    · rw [view_set_self,hsame,hanswers,hempty]
      rfl
    · rw [spoken_first hmessages]
      rfl
  | @next m hname hbefore hmessages hshown hkept hstored =>
    have hspoken := spoken_next hbefore hmessages
    rw [Attends,hspoken,hshown,view_set_self,List.countP_append]
    rcases message_answered hheard hnodup hp hopen hread hpayload hanswer hname rfl with
      ⟨hasks,others,hnew⟩ | ⟨hasks,hnone⟩
    · refine ⟨lists ++ [others],?_,?_⟩
      · rw [hnew,hkept,hanswers]
        simp
      · simp [hasks,hlength]
    · refine ⟨lists,?_,?_⟩
      · rw [hnone,hanswers]
      · simp [hasks,hlength]

end Room

namespace Act
variable {R R' : Room}

theorem nodup (h : Act R R') (hnodup : R.members.Nodup) : R'.members.Nodup := by
  cases h with
  | @message S p v v' copy r hp _ _ hpayload =>
    have hsame := (Room.processPayload_serves (R := R.set p v) hp hpayload).members
    rw [Room.set_members,hsame]
    exact hnodup
  | @join p v hp =>
    refine List.nodup_append.mpr ⟨hnodup,by simp,?_⟩
    intro a ha b hb hab
    rw [List.mem_singleton.mp hb] at hab
    exact hp (hab ▸ ha)
  | drop _ _ hl => exact hl.nodup_iff.mpr (hnodup.erase _)
  | _ => exact hnodup

theorem attends (h : Act R R') (hheard : R.Heard) (hnodup : R.members.Nodup)
    (hs : ∀ p ∈ R.members, R.Attends p) : ∀ p ∈ R'.members, R'.Attends p := by
  intro p hp
  rcases h.seat hp with ⟨hmem,-⟩ | ⟨-,old,fd,junk,oracle,hview⟩
  · rcases h.speaker hheard hmem with hsilent | ⟨v,v',copy,S,r,hopen,hread,hpayload,hanswer,rfl⟩
    · exact (hs p hmem).silent hsilent
    · exact (hs p hmem).message hheard hnodup hmem hopen hread hpayload hanswer
  · refine ⟨[],?_,?_⟩
    · rw [hview]
      rfl
    · rw [hview]
      rfl

end Act

theorem reach_attends {R : Room} (h : ReflTransGen Act Room.empty R) :
    R.members.Nodup ∧ ∀ p ∈ R.members, R.Attends p := by
  have hnone : ∀ p, p ∉ Room.empty.members := by simp [Room.empty]
  induction h with
  | refl => exact ⟨List.nodup_nil,fun p hp => absurd hp (hnone p)⟩
  | tail hrun hact ih =>
    exact ⟨hact.nodup ih.1,
      hact.attends (reach_heard hrun (fun p hp => absurd hp (hnone p))) ih.1 ih.2⟩

theorem Room.processPayload_list {R : Room} {p : Nat} {text : Bytes}
    (hname : (R.view p).info.hasName = true) (hasks : asksList text = true) :
    R.processPayload p (some text) = .ok (R.list p,0) := by
  unfold asksList asks at hasks
  rw [Bool.and_eq_true,beq_iff_eq] at hasks
  obtain ⟨hhead,htoken⟩ := hasks
  rcases hsplit : strtokR 32 (cstr text) with ⟨cmd,saveptr⟩
  rw [hsplit] at htoken
  cases cmd with
  | none => cases htoken
  | some cmd =>
    have hlower : makeLowercase cmd = ascii "/list" := by simpa using htoken
    have hfind : findCommand (makeLowercase cmd) = .list := findCommand_list.mpr hlower
    unfold processPayload runCommand command
    rw [if_neg (by simp [hname])]
    simp only [hhead,if_true,hsplit,hfind]
    rfl

def World.shownName (w : World) (q : Nat) : Bytes :=
  ((w.clients.get q).map ClientInfo.shownName).getD []

theorem Refines.shownName {w : World} {R : Room} (h : Refines w R) {q : Nat}
    (hq : q ∈ R.members) : w.shownName q = R.shownName q := by
  obtain ⟨queue,hshows⟩ := h.shows hq
  unfold World.shownName
  rw [hshows.info]
  rfl

/-- In every run, a /list of a named client is answered with the names of the clients listed
at that time, in their order and with its own marked, and writes to nobody else. -/
theorem list_served {acts : List Action} {s : Sys} {p : Nat} {c₀ : ClientInfo} {k₀ : Sock}
    (hrun : run step Sys.init acts = .ok s) (hphase : s.phase ≠ .done) (h : Listed s p c₀ k₀)
    (hopen : c₀.closed = false) {w : World} {text : Bytes}
    (hd : Delivers p s.world w (some text)) {c : ClientInfo} {k : Sock} (hshows : w.Shows p c k)
    (hname : c.hasName = true) (hasks : asksList text = true) :
    ∃ pre post w' c' k', w.clientList = pre ++ p :: post ∧
      processPayload w p (some text) = .ok (w',0) ∧ w'.Shows p c' k' ∧
      answers k'.trace = answers k.trace ++
        listAnswer c.shownName (pre.map w.shownName,post.map w.shownName) ∧
      ∀ q ∈ w.clientList, q ≠ p → ∃ d d' j, w.Shows q d j ∧ w'.Shows q d' j := by
  obtain ⟨-,-,-,-,-,-,hlisted,R,href,hfree⟩ := delivers_handed hrun hphase h hopen hd
  have hp : p ∈ R.members := href.clientList ▸ hlisted
  obtain ⟨⟨queue,hceq⟩,hkeq⟩ := href.shown hp hshows
  have hroomName : (R.view p).info.hasName = true := by
    rw [hceq] at hname
    exact hname
  have hroom := Room.processPayload_list hroomName hasks
  obtain ⟨w',hcall,hS,hpS⟩ := payload_refines href hp hfree hroom
  have hmembers := (Room.processPayload_serves hp hroom).members
  obtain ⟨pre,post,hsplit⟩ := List.append_of_mem hp
  obtain ⟨queue',hshows'⟩ := hS.shows hpS
  have hnodup : R.members.Nodup := by
    obtain ⟨A,hrep⟩ := href
    exact hrep.nodup
  have hnames : ∀ l : List Nat, (∀ q ∈ l, q ∈ R.members) → l.map w.shownName = l.map R.shownName :=
    fun l hl => List.map_congr_left (fun q hq => href.shownName (hl q hq))
  refine ⟨pre,post,w',_,_,href.clientList.trans hsplit,hcall,hshows',?_,?_⟩
  · have hpre := hnames pre (fun q hq => by simp [hsplit,hq])
    have hpost := hnames post (fun q hq => by simp [hsplit,hq])
    rw [Room.list_answered hsplit hnodup,hpre,hpost,hkeq,hceq]
    rfl
  · intro q hq hqp
    have hmem : q ∈ R.members := href.clientList ▸ hq
    obtain ⟨old,hold⟩ := href.shows hmem
    obtain ⟨new,hnew⟩ := hS.shows (hmembers ▸ hmem)
    rw [Room.list_others R hqp] at hnew
    exact ⟨_,_,_,hold,hnew⟩

def Action.bobTypes : List Action :=
  connects 1 5 .quiet ++ connects 2 6 .quiet ++ hears 5 (frame msgTypeNormal (ascii "ann")) ++
    hears 6 (frame msgTypeNormal (ascii "bob")) ++
    [.net 6 (frame msgTypeNormal (ascii "/list")) false false]

theorem list_served_bobTypes : ∃ (s : Sys) (w : World) (c : ClientInfo) (k : Sock),
    run step Sys.init Action.bobTypes = .ok s ∧
    Delivers 2 s.world w (some (ascii "/list" ++ [0])) ∧ w.Shows 2 c k ∧
    ∃ pre post w' c' k', w.clientList = pre ++ 2 :: post ∧
      processPayload w 2 (some (ascii "/list" ++ [0])) = .ok (w',0) ∧ w'.Shows 2 c' k' ∧
      answers k'.trace = answers k.trace ++
        listAnswer c.shownName (pre.map w.shownName,post.map w.shownName) ∧
      ∀ q ∈ w.clientList, q ≠ 2 → ∃ d d' j, w.Shows q d j ∧ w'.Shows q d' j := by
  obtain ⟨s,hrun,c,k,hphase,hlisted,htest⟩ := reaches_listed
    (show reachesListed Action.bobTypes 2 (fun s c _ => decide (c.closed = false) &&
      deliveryShows 3 s.world 2 (fun copy d _ =>
        decide (copy = some (ascii "/list" ++ [0]) ∧ d.hasName = true))) = true
      by decide +kernel)
  simp only [Bool.and_eq_true,decide_eq_true_eq] at htest
  obtain ⟨hopen,hshows⟩ := htest
  obtain ⟨w,copy,c₁,k₁,hd,hshows,htest⟩ := deliveryShows_delivers hshows
  obtain ⟨hcopy,hname⟩ := of_decide_eq_true htest
  subst hcopy
  exact ⟨s,w,c₁,k₁,hrun,hd,hshows,
    list_served hrun hphase hlisted hopen hd hshows hname (by decide)⟩

/-- In every run, what /list handed to `server_send_message` for a listed client is one answer
for each time that its connection asked, with its own name marked among the others'. -/
theorem lists_answered {acts : List Action} {s : Sys} {p : Nat} {c : ClientInfo} {k : Sock}
    (hrun : run step Sys.init acts = .ok s) (hphase : s.phase ≠ .done) (h : Listed s p c k) :
    ∃ lists : List (List Bytes × List Bytes),
      answers k.trace = lists.flatMap (listAnswer c.shownName) ∧
        lists.length = (spoken k.trace).countP asksList := by
  obtain ⟨R,htracks,hseated,hacts⟩ := run_tracks hrun hphase
  obtain ⟨hp,hseats⟩ := htracks.seats hseated h
  obtain ⟨lists,hanswers,hlength⟩ := (reach_attends hacts).2 p hp
  have hsock : k = (R.view p).sock := hseats.sock
  have hname : c.shownName = (R.view p).info.shownName := by
    rw [hseats.info]
    rfl
  rw [← hsock] at hanswers hlength
  exact ⟨lists,hname ▸ hanswers,hlength⟩

def Action.bobAsks : List Action :=
  connects 1 5 .quiet ++ connects 2 6 { Oracle.quiet with sends := [.accepts 100] } ++
    hears 5 (frame msgTypeNormal (ascii "ann")) ++ hears 6 (frame msgTypeNormal (ascii "bob")) ++
    hears 6 (frame msgTypeNormal (ascii "/list"))

theorem lists_answered_bobAsks : ∃ s c k, run step Sys.init Action.bobAsks = .ok s ∧
    Listed s 2 c k ∧ answers k.trace = listAnswer (ascii "bob") ([ascii "ann"],[]) ∧
    ∃ lists : List (List Bytes × List Bytes),
      answers k.trace = lists.flatMap (listAnswer c.shownName) ∧
        lists.length = (spoken k.trace).countP asksList := by
  obtain ⟨s,hrun,c,k,hphase,hlisted,htest⟩ := reaches_listed
    (show reachesListed Action.bobAsks 2 (fun _ _ k =>
      decide (answers k.trace = listAnswer (ascii "bob") ([ascii "ann"],[]))) = true
      by decide +kernel)
  exact ⟨s,c,k,hrun,hlisted,of_decide_eq_true htest,lists_answered hrun hphase hlisted⟩

end ChatServer
