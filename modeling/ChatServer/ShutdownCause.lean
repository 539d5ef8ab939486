import ChatServer.Conversation
import ChatServer.Rounds
import ChatServer.Stranding

/-! Why the server stops: the flag is set exactly when a listed client has handed over the
shutdown command, and the notice is broadcast once, as the last thing of all. -/
set_option autoImplicit false

namespace ChatServer
open ByteString Memory Execution Relation

/-- The client has asked for the shutdown, and was disconnected for it. -/
def Asked (c : ClientInfo) (k : Sock) : Prop :=
  c.closed = true ∧ ∃ m ∈ spoken k.trace, asksShutdown m = true

theorem asksShutdown_slash {m : Bytes} (h : asksShutdown m = true) : m.head? = some 47 := by
  simp only [asksShutdown,asks,Bool.and_eq_true,beq_iff_eq] at h
  exact h.1

namespace Room

def Caused (R : Room) : Prop :=
  R.shutdown = true → ∃ p ∈ R.members, Asked (R.view p).info (R.view p).sock

def Heeds (R : Room) : Prop :=
  ∀ p ∈ R.members, ∀ m ∈ spoken (R.view p).sock.trace, asksShutdown m = true →
    R.shutdown = true ∧ (R.view p).info.closed = true

theorem Told.asked {R R' : Room} {q : Nat} (h : Told q R R')
    (hasked : Asked (R.view q).info (R.view q).sock) :
    Asked (R'.view q).info (R'.view q).sock := by
  obtain ⟨hclosed,m,hm,hasks⟩ := hasked
  cases h with
  | silent _ hmessages hkept =>
    refine ⟨hkept hclosed,m,?_,hasks⟩
    unfold spoken at hm ⊢
    rwa [hmessages]
  | spoke hopen =>
    rw [hopen] at hclosed
    cases hclosed

end Room

namespace Act
variable {R R' : Room}

/-- A transition leaves the flag, or sets it because a member asks for it. -/
theorem flagged (h : Act R R') (hheard : R.Heard) : R'.shutdown = R.shutdown ∨
    (R'.shutdown = true ∧ ∃ p ∈ R'.members, Asked (R'.view p).info (R'.view p).sock) := by
  cases h with
  | @message S p v v' copy r hp hopen hread hpayload hanswer =>
    have hmem : p ∈ S.members := by
      rw [(Room.processPayload_serves (R := R.set p v) hp hpayload).members]
      exact hp
    cases spoke_message hheard hp hopen hread hpayload hanswer with
    | named _ _ _ hflag => exact .inl hflag
    | chatted _ _ _ _ _ _ hflag => exact .inl hflag
    | @obeyed m hbefore _ hmessages _ _ hasks hother =>
      cases hm : asksShutdown m with
      | false => exact .inl (hother hm)
      | true =>
        obtain ⟨hflag,hclosed⟩ := hasks hm
        refine .inr ⟨hflag,p,hmem,hclosed,m,?_,hm⟩
        rw [spoken_next hbefore hmessages]
        simp
  | _ => exact .inl rfl

theorem shutdown_stays (h : Act R R') (hheard : R.Heard) (hshut : R.shutdown = true) :
    R'.shutdown = true := by
  rcases h.flagged hheard with hsame | ⟨hset,-⟩
  · rw [hsame,hshut]
  · exact hset

theorem heeds (h : Act R R') (hheard : R.Heard) (hheeds : R.Heeds) : R'.Heeds := by
  intro p hp m hm hasks
  rcases h.seat hp with ⟨hmem,-⟩ | ⟨-,old,fd,junk,oracle,hview⟩
  · cases h.told hheard hmem with
    | silent _ hmessages hkept =>
      have hm' : m ∈ spoken (R.view p).sock.trace := by
        unfold spoken at hm ⊢
        rwa [← hmessages]
      obtain ⟨hshut,hclosed⟩ := hheeds p hmem m hm' hasks
      exact ⟨h.shutdown_stays hheard hshut,hkept hclosed⟩
    | spoke hopen hspoke =>
      -- what it said before was no such command, since it is open
      have hold : m ∉ spoken (R.view p).sock.trace := by
        intro hin
        rw [(hheeds p hmem m hin hasks).2] at hopen
        cases hopen
      cases hspoke with
      | named _ hmessages =>
        rw [spoken_first hmessages] at hm
        cases hm
      | @obeyed m' hbefore _ hmessages _ _ hset =>
        rw [spoken_next hbefore hmessages,List.mem_append,List.mem_singleton] at hm
        rcases hm with hm | rfl
        · exact absurd hm hold
        · exact hset hasks
      | @chatted m' _ hbefore _ hmessages hslash =>
        rw [spoken_next hbefore hmessages,List.mem_append,List.mem_singleton] at hm
        rcases hm with hm | rfl
        · exact absurd hm hold
        · exact absurd (asksShutdown_slash hasks) hslash
  · rw [hview] at hm
    cases hm

theorem turnover (h : Act R R') :
    R'.members.length+R.accepted ≤ R.members.length+R'.accepted := by
  cases h with
  | @message S p v v' copy r hp _ _ hpayload _ =>
    have hserves := Room.processPayload_serves (R := R.set p v) hp hpayload
    have hmem : S.members = R.members := hserves.members
    have hacc : S.accepted = R.accepted := hserves.accepted
    simp only [Room.set_members,Room.set_accepted,hmem,hacc]
    exact Nat.le_refl _
  | join =>
    simp only [List.length_append,List.length_singleton]
    omega
  | refuse => exact Nat.add_le_add_left (Nat.le_succ _) _
  | @drop p l hp _ hl =>
    have hfewer : l.length ≤ R.members.length := hl.length_eq ▸ List.length_erase_le
    exact Nat.add_le_add_right hfewer _
  | _ => exact Nat.le_refl _

theorem stays (h : Act R R') (hacc : R'.accepted = R.accepted)
    (hlen : R.members.length ≤ R'.members.length) : R'.members = R.members := by
  cases h with
  | @message S p v v' copy r hp _ _ hpayload _ =>
    exact (Room.processPayload_serves (R := R.set p v) hp hpayload).members
  | join => exact absurd hacc (Nat.succ_ne_self _)
  | drop hp _ hl =>
    have hgone := hl.length_eq
    rw [List.length_erase_of_mem hp] at hgone
    have hpos := List.length_pos_of_mem hp
    have hlen' : R.members.length ≤ R.members.length-1 := hgone ▸ hlen
    omega
  | _ => rfl

theorem caused (h : Act R R') (hheard : R.Heard) (hmem : R'.members = R.members)
    (hcaused : R.Caused) : R'.Caused := by
  intro hshut
  rcases h.flagged hheard with hsame | ⟨-,hcause⟩
  · obtain ⟨p,hp,hasked⟩ := hcaused (by rw [← hsame,hshut])
    exact ⟨p,by rwa [hmem],(h.told hheard hp).asked hasked⟩
  · exact hcause

end Act

theorem acts_turnover {R R' : Room} (h : ReflTransGen Act R R') :
    R'.members.length+R.accepted ≤ R.members.length+R'.accepted := by
  induction h with
  | refl => exact Nat.le_refl _
  | tail _ hact ih =>
    have hstep := hact.turnover
    omega

theorem acts_caused {R R' : Room} (h : ReflTransGen Act R R') (hheard : R.Heard)
    (hacc : R'.accepted = R.accepted) (hlen : R.members.length ≤ R'.members.length)
    (hcaused : R.Caused) : R'.Caused := by
  induction h with
  | refl => exact hcaused
  | @tail R₁ R' hrun hact ih =>
    have hfirst := acts_accepted_le hrun
    have hlast := hact.accepted_le
    have hleft := acts_turnover hrun
    have hright := hact.turnover
    have hacc₁ : R₁.accepted = R.accepted := by omega
    refine hact.caused (reach_heard hrun hheard) (hact.stays (by omega) (by omega)) ?_
    exact ih hacc₁ (by omega)

def Sys.Caused (s : Sys) : Prop :=
  s.world.serverShutdown = true → ∃ p c k, Listed s p c k ∧ Asked c k

theorem Tracks.caused_iff {s : Sys} {R : Room} (h : Tracks s R) : R.Caused ↔ s.Caused := by
  obtain ⟨A,hrep⟩ := h.refines
  constructor
  · intro hcaused hshut
    obtain ⟨p,hp,hasked⟩ := hcaused (by rw [← hrep.shutdown,hshut])
    obtain ⟨q,hc,hk,-⟩ := hrep.owns p hp
    exact ⟨p,_,_,⟨by rwa [hrep.members],hc,hk⟩,hasked⟩
  · intro hcaused hshut
    obtain ⟨p,c,k,hlisted,hasked⟩ := hcaused (by rw [hrep.shutdown,hshut])
    have hp : p ∈ R.members := by
      rw [← hrep.members]
      exact hlisted.listed
    obtain ⟨q,hc,hk,-⟩ := hrep.owns p hp
    have hceq : c = (R.view p).info.withQueue q := Option.some.inj (hlisted.info.symm.trans hc)
    subst hceq
    have hkeq : k = (R.view p).sock := Option.some.inj (hlisted.sock.symm.trans hk)
    subst hkeq
    exact ⟨p,hp,hasked⟩

theorem acceptNewClients_quiet (accepts : List AcceptRes) (w : World) :
    Always (acceptNewClients accepts w) (fun res =>
      res.1.serverShutdown = w.serverShutdown ∧ res.1.broadcasts = w.broadcasts) := by
  have hadd : ∀ (u : World) (p : Nat), Always (addClientToList u p) (fun res =>
      res.1.serverShutdown = u.serverShutdown ∧ res.1.broadcasts = u.broadcasts) := by
    intro u p
    unfold addClientToList World.lock
    split
    · exact True.intro
    · simp only [ok_bind]
      split
      · exact ⟨rfl,rfl⟩
      · refine (Always.trivial _).bind (fun c _ => ?_)
        unfold closeFd
        cases World.sock _ c.clientFd with
        | error e => exact True.intro
        | ok k => exact ⟨rfl,rfl⟩
  induction accepts generalizing w with
  | nil => exact ⟨rfl,rfl⟩
  | cons a rest ih =>
    cases a with
    | wouldBlock => exact ⟨rfl,rfl⟩
    | fails => exact ⟨rfl,rfl⟩
    | conn i =>
      unfold acceptNewClients
      simp only
      split
      · exact ⟨rfl,rfl⟩
      · cases i.info with
        | none => exact True.intro
        | some block =>
          simp only
          split
          · exact ⟨rfl,rfl⟩
          · split
            · exact ⟨rfl,rfl⟩
            · refine (Always.trivial _).bind (fun k _ => ?_)
              refine (hadd _ _).bind ?_
              rintro ⟨w₁,r⟩ ⟨hflag,hcasts⟩
              simp only at hflag hcasts ⊢
              split
              · exact ⟨hflag,hcasts⟩
              · exact (ih w₁).mono (fun res h => ⟨h.1.trans hflag,h.2.trans hcasts⟩)

theorem reach_heeds {R : Room} (h : ReflTransGen Act Room.empty R) : R.Heeds := by
  have hnone : ∀ p, p ∉ Room.empty.members := by simp [Room.empty]
  induction h with
  | refl => exact fun p hp => absurd hp (hnone p)
  | tail hrun hact ih => exact hact.heeds (reach_heard hrun (fun p hp => absurd hp (hnone p))) ih

section Runs
variable {acts : List Action} {s s' : Sys} {p : Nat} {c : ClientInfo} {k : Sock}

theorem run_heard (hrun : run step Sys.init acts = .ok s) (hphase : s.phase ≠ .done) :
    ∃ R, Tracks s R ∧ R.Heard := by
  obtain ⟨R,htracks,-,hacts⟩ := run_tracks hrun hphase
  exact ⟨R,htracks,reach_heard hacts (by simp [Room.Heard,Room.empty])⟩

theorem settled_caused {R : Room} (h : Tracks s R) (hheard : R.Heard)
    (hfollows : Follows R s') (hacc : s'.world.accepted = s.world.accepted)
    (hlist : s'.world.clientList = s.world.clientList) (hcaused : s.Caused) : s'.Caused := by
  obtain ⟨R',htracks',hacts⟩ := hfollows
  refine htracks'.caused_iff.mp (acts_caused hacts hheard ?_ ?_ (h.caused_iff.mpr hcaused))
  · obtain ⟨A,hrep⟩ := h.refines
    obtain ⟨A',hrep'⟩ := htracks'.refines
    rw [← hrep.accepted,← hrep'.accepted,hacc]
  · rw [← h.refines.clientList,← htracks'.refines.clientList,hlist]

theorem step_caused {a : Action} (hrun : run step Sys.init acts = .ok s) (hcaused : s.Caused)
    (hstep : step s a = .ok s') (hdone : s'.phase ≠ .done) : s'.Caused := by
  have hnow : s.phase ≠ .done := fun hp => hdone (step_done hp hstep)
  obtain ⟨R,htracks,hheard⟩ := run_heard hrun hnow
  have hfollows := step_follows htracks (run_idle hrun hnow) hstep hdone
  cases a with
  | net fd bs fin reset =>
    cases hstep
    obtain ⟨hacc,hlist⟩ := onSock_list s.world fd (fun k => deliver k bs fin reset)
    exact settled_caused htracks hheard hfollows hacc hlist hcaused
  | plan fd oracle =>
    cases hstep
    obtain ⟨hacc,hlist⟩ := onSock_list s.world fd (fun k => { k with oracle := oracle })
    exact settled_caused htracks hheard hfollows hacc hlist hcaused
  | clock ts =>
    cases hstep
    exact settled_caused htracks hheard hfollows rfl rfl hcaused
  | server i =>
    have hnot : s.phase ≠ .closing := fun hc => hdone (step_closing hc hstep)
    -- a step serves those who are there, or leaves the flag down, or takes in new ones
    have hkeeps : (s'.world.accepted = s.world.accepted ∧
          s'.world.clientList = s.world.clientList) ∨ s'.world.serverShutdown = false ∨
        (s'.world.serverShutdown = s.world.serverShutdown ∧ Extends s.world s'.world) := by
      refine step_keeps (I := fun w => (w.accepted = s.world.accepted ∧
          w.clientList = s.world.clientList) ∨ w.serverShutdown = false ∨
          (w.serverShutdown = s.world.serverShutdown ∧ Extends s.world w)) htracks
        (fun _ w hw => .inl ⟨moves_accepted hw,moves_list hw⟩) ?_ ?_ hnot hstep
      · intro _ hopen
        obtain ⟨w,hw,A,hrep⟩ := reapPass_sweeps htracks.refines htracks.mutex
        obtain ⟨B,hold⟩ := htracks.refines
        rw [hw]
        refine .inr (.inl ?_)
        rw [hrep.shutdown,← hopen,hold.shutdown]
      · have hmutex : s.world.clientMutex = false := by
          obtain ⟨A,hrep⟩ := htracks.refines
          rw [hrep.mutex,htracks.mutex]
        refine Always.intro (fun res hres => .inr (.inr ⟨?_,?_⟩))
        · exact ((acceptNewClients_quiet _ _).of_ok hres).1
        · exact (acceptNewClients_extends _ hmutex).of_ok hres
    rcases hkeeps with ⟨hacc,hlist⟩ | hopen | ⟨hflag,hextends⟩
    · exact settled_caused htracks hheard hfollows hacc hlist hcaused
    · intro hshut
      rw [hopen] at hshut
      cases hshut
    · intro hshut
      obtain ⟨p,c,k,hlisted,hasked⟩ := hcaused (by rw [← hflag,hshut])
      exact ⟨p,c,k,⟨hextends.list p hlisted.listed,hextends.clients p c hlisted.info,
        hextends.socks _ k hlisted.sock⟩,hasked⟩

theorem run_caused (hrun : run step Sys.init acts = .ok s) (hphase : s.phase ≠ .done) :
    s.Caused := by
  refine run_induction_reached (I := fun t => t.phase ≠ .done → t.Caused) ?_ ?_ hrun hphase
  · intro before t a t' _ hbefore ht hstep hdone
    exact step_caused hbefore (ht (fun hp => hdone (step_done hp hstep))) hstep hdone
  · intro _ hshut
    cases hshut

/-- What was said, and then the notice if it has been broadcast. -/
def Noticed (s : Sys) : Prop :=
  (s.phase = .closing → s.world.serverShutdown = true) ∧
    ∃ said : List Broadcast, (∀ b ∈ said, b.sender ≠ none) ∧
      s.world.broadcasts = said ++ if s.phase = .closing then [⟨none,shutdownMessage⟩] else []

theorem Noticed.more (h : Noticed s) {more : List Broadcast} (hopen : s.phase ≠ .closing)
    (hopen' : s'.phase ≠ .closing)
    (hcasts : s'.world.broadcasts = s.world.broadcasts ++ more)
    (hmore : ∀ b ∈ more, b.sender ≠ none) : Noticed s' := by
  obtain ⟨-,said,hsaid,hall⟩ := h
  rw [if_neg hopen,List.append_nil] at hall
  refine ⟨fun hc => absurd hc hopen',said ++ more,?_,?_⟩
  · intro b hb
    rcases List.mem_append.mp hb with hb | hb
    · exact hsaid b hb
    · exact hmore b hb
  · rw [hcasts,hall,if_neg hopen',List.append_nil]

theorem Noticed.same (h : Noticed s) (hphase : s'.phase = s.phase)
    (hflag : s'.world.serverShutdown = s.world.serverShutdown)
    (hcasts : s'.world.broadcasts = s.world.broadcasts) : Noticed s' := by
  unfold Noticed
  rw [hphase,hflag,hcasts]
  exact h

theorem onSock_said (w : World) (fd : Nat) (f : Sock → Sock) :
    (w.onSock fd f).serverShutdown = w.serverShutdown ∧
      (w.onSock fd f).broadcasts = w.broadcasts := by
  unfold World.onSock
  split <;> exact ⟨rfl,rfl⟩

theorem step_noticed {R : Room} {a : Action} (htracks : Tracks s R) (h : Noticed s)
    (hstep : step s a = .ok s') (hdone : s'.phase ≠ .done) : Noticed s' := by
  cases a with
  | net fd bs fin reset =>
    cases hstep
    obtain ⟨hflag,hcasts⟩ := onSock_said s.world fd (fun k => deliver k bs fin reset)
    exact h.same rfl hflag hcasts
  | plan fd oracle =>
    cases hstep
    obtain ⟨hflag,hcasts⟩ := onSock_said s.world fd (fun k => { k with oracle := oracle })
    exact h.same rfl hflag hcasts
  | clock ts =>
    cases hstep
    exact h.same rfl rfl rfl
  | server i =>
    have hnot : s.phase ≠ .closing := fun hc => hdone (step_closing hc hstep)
    unfold step at hstep
    cases hphase : s.phase with
    | closing => exact absurd hphase hnot
    | done =>
      simp only [hphase] at hstep
      cases hstep
      exact absurd hphase hdone
    | top =>
      simp only [hphase] at hstep
      obtain ⟨A,hrep⟩ := htracks.refines
      by_cases hshut : s.world.serverShutdown = true
      · rw [if_pos hshut] at hstep
        obtain ⟨w,hw,B,hnew⟩ := broadcast_refines ⟨A,hrep⟩ htracks.mutex none shutdownMessage
        simp only [hw,ok_bind] at hstep
        cases hstep
        obtain ⟨-,said,hsaid,hall⟩ := h
        rw [if_neg hnot,List.append_nil] at hall
        refine ⟨fun _ => ?_,said,hsaid,?_⟩
        · simp only [hnew.shutdown]
          rw [← hshut,hrep.shutdown]
          rfl
        · simp only [hnew.broadcasts,if_true]
          rw [← hall,hrep.broadcasts]
          rfl
      · rw [if_neg hshut] at hstep
        obtain ⟨w,hw,B,hnew⟩ := reapPass_sweeps ⟨A,hrep⟩ htracks.mutex
        simp only [hw,ok_bind] at hstep
        have hsame : w.broadcasts = s.world.broadcasts ++ [] := by
          rw [hnew.broadcasts,List.append_nil,hrep.broadcasts]
        split at hstep
        · cases hstep
          exact absurd rfl hdone
        · cases hstep
          exact h.more hnot (by simp) hsame (by simp)
    | batch es =>
      cases es with
      | nil =>
        simp only [hphase] at hstep
        cases hstep
        exact h.more hnot (by simp) (List.append_nil _).symm (by simp)
      | cons e es =>
        simp only [hphase] at hstep
        cases hd : dispatch s.world e i.accepts with
        | error e => simp [hd] at hstep
        | ok w =>
          simp only [hd,ok_bind] at hstep
          cases hstep
          obtain ⟨data,bits⟩ := e
          cases data with
          | listen =>
            unfold dispatch at hd
            simp only at hd
            cases hacc : acceptNewClients i.accepts s.world with
            | error e => simp [hacc] at hd
            | ok res =>
              have hcasts := ((acceptNewClients_quiet _ _).of_ok hacc).2
              simp only [hacc,ok_bind] at hd
              cases hd
              exact h.more hnot (by simp) (hcasts.trans (List.append_nil _).symm) (by simp)
          | ptr p =>
            have hp := htracks.batch _ hphase ⟨.ptr p,bits⟩ (by simp) p rfl
            rw [← htracks.refines.clientList] at hp
            obtain ⟨more,hcasts,hfrom⟩ :=
              moves_broadcasts ((dispatch_moves s.world hp bits i.accepts).of_ok hd)
            exact h.more hnot (by simp) hcasts (fun b hb => by simp [hfrom b hb])

theorem run_noticed (hrun : run step Sys.init acts = .ok s) (hphase : s.phase ≠ .done) :
    Noticed s := by
  refine run_induction_reached (I := fun t => t.phase ≠ .done → Noticed t) ?_ ?_ hrun hphase
  · intro before t a t' _ hbefore ht hstep hdone
    have hnow : t.phase ≠ .done := fun hp => hdone (step_done hp hstep)
    obtain ⟨R,htracks,-⟩ := run_heard hbefore hnow
    exact step_noticed htracks (ht hnow) hstep hdone
  · intro _
    exact ⟨fun hc => (by cases hc),[],by simp,rfl⟩

/-- The flag is set exactly when a listed client has handed over the shutdown command, and
such a client is closed. The notice is broadcast once the main loop was left for it, once,
and after all that the clients have said. -/
theorem shutdown_asked_iff (hrun : run step Sys.init acts = .ok s) (hphase : s.phase ≠ .done) :
    (s.world.serverShutdown = true ↔
      ∃ p c k, Listed s p c k ∧ ∃ m ∈ spoken k.trace, asksShutdown m = true) ∧
    (∀ p c k, Listed s p c k → (∃ m ∈ spoken k.trace, asksShutdown m = true) →
      c.closed = true) ∧
    (s.phase = .closing → s.world.serverShutdown = true) ∧
    ∃ said : List Broadcast, (∀ b ∈ said, b.sender ≠ none) ∧
      s.world.broadcasts = said ++ if s.phase = .closing then [⟨none,shutdownMessage⟩] else [] := by
  obtain ⟨hflag,hnotice⟩ := run_noticed hrun hphase
  have hasked : ∀ p c k, Listed s p c k → (∃ m ∈ spoken k.trace, asksShutdown m = true) →
      s.world.serverShutdown = true ∧ c.closed = true := by
    rintro p c k hlisted ⟨m,hm,hasks⟩
    obtain ⟨R,htracks,hseated,hacts⟩ := run_tracks hrun hphase
    obtain ⟨hp,hseats⟩ := htracks.seats hseated hlisted
    have hk : k = (R.view p).sock := hseats.sock
    rw [hk] at hm
    obtain ⟨hshut,hclosed⟩ := reach_heeds hacts p hp m hm hasks
    exact ⟨hseats.shutdown ▸ hshut,hseats.closed ▸ hclosed⟩
  refine ⟨⟨fun hshut => ?_,?_⟩,fun p c k h hm => (hasked p c k h hm).2,hflag,hnotice⟩
  · obtain ⟨p,c,k,hlisted,-,hm⟩ := run_caused hrun hphase hshut
    exact ⟨p,c,k,hlisted,hm⟩
  · rintro ⟨p,c,k,hlisted,hm⟩
    exact (hasked p c k hlisted hm).1

def Action.stopped : List Action :=
  slowReader ++ hears 6 (frame msgTypeNormal (ascii "/SHUTDOWN now")) ++ [.server ⟨false,[],[]⟩]

theorem shutdown_asked_iff_stopped : ∃ s said, run step Sys.init Action.stopped = .ok s ∧
    s.world.broadcasts = said ++ [⟨none,shutdownMessage⟩] ∧ (∀ b ∈ said, b.sender ≠ none) ∧
    ∃ p c k, Listed s p c k ∧ ∃ m ∈ spoken k.trace, asksShutdown m = true := by
  obtain ⟨s,hrun,htest⟩ := reaches_run
    (show reaches Action.stopped (fun s => decide (s.phase = .closing)) = true by decide +kernel)
  have hclosing : s.phase = .closing := of_decide_eq_true htest
  obtain ⟨hiff,-,hflag,said,hsaid,hall⟩ := shutdown_asked_iff hrun (by simp [hclosing])
  rw [if_pos hclosing] at hall
  exact ⟨s,said,hrun,hall,hsaid,hiff.mp (hflag hclosing)⟩

end Runs
end ChatServer
