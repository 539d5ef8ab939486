import ChatServer.Idle
import ChatServer.ReapRefinement

/-! Every run of the server is a run of the room: the refinement of one step of
the system, and from it what holds of every listed client in every state. -/
set_option autoImplicit false

namespace ChatServer
open ByteString Memory Execution Relation

section Steps
variable {w : World} {R : Room} {A : Nat → List Nat}

theorem reapLoop_refines (fuel i : Nat) (h : Refines w R) (hfree : R.mutex = false) :
    ∃ w' R', reapLoop fuel i w = .ok w' ∧ Refines w' R' ∧ R'.mutex = false ∧
      ReflTransGen Act R R' := by
  induction fuel generalizing i w R with
  | zero => exact ⟨w,R,rfl,h,hfree,.refl⟩
  | succ fuel ih =>
    have href := h
    obtain ⟨A,h⟩ := h
    unfold reapLoop
    cases hget : w.clientList[i]? with
    | none => exact ⟨w,R,rfl,href,hfree,.refl⟩
    | some p =>
      have hp : p ∈ R.members := by
        rw [← h.members]
        exact List.mem_of_getElem? hget
      obtain ⟨q,hc,-,-,-⟩ := h.access hp
      have hclosed : ((R.view p).info.withQueue q).closed = (R.view p).info.closed := rfl
      simp only [hc,ok_bind,hclosed]
      by_cases hshut : (R.view p).info.closed = true
      · obtain ⟨w₁,l,hreap,hl,h₁⟩ := reapClient_refines h hp hfree
        obtain ⟨w₂,R₂,hrest,h₂,hfree₂,hrun⟩ := ih (i+1) ⟨A,h₁⟩ hfree
        simp only [hshut,if_true,hreap,ok_bind]
        exact ⟨w₂,R₂,hrest,h₂,hfree₂,.head (.drop hp hshut hl) hrun⟩
      · simp only [hshut,pure_bind]
        exact ih (i+1) href hfree

/-- Every pointer that the kernel reports belongs to a listed client. -/
theorem epollWait_members (h : Refines w R) {ready : List Ready} {e : Event} {p : Nat}
    (he : e ∈ epollWait w ready) (hp : e.data = .ptr p) : p ∈ R.members := by
  obtain ⟨A,h⟩ := h
  obtain ⟨r,-,hr⟩ := List.mem_filterMap.mp (List.mem_of_mem_take he)
  cases r with
  | listen =>
    cases hr
    cases hp
  | sock fd bits =>
    unfold epollEvent at hr
    cases hk : w.socks.get fd with
    | none => simp [hk] at hr
    | some k =>
      cases hreg : k.registration with
      | none => simp [hk,hreg] at hr
      | some g =>
        simp only [hk,hreg,Option.some.injEq] at hr
        subst hr
        cases hp
        exact (h.registered fd k g hk hreg).1

theorem onSock_refines (h : Refines w R) (fd : Nat) (f : Sock → Sock)
    (hf : ∀ k, (f k).registration = k.registration) :
    (∃ p ∈ R.members,
      Refines (w.onSock fd f) (R.set p { R.view p with sock := f (R.view p).sock })) ∨
      Refines (w.onSock fd f) R := by
  have href := h
  obtain ⟨A,h⟩ := h
  unfold World.onSock
  cases hk : w.socks.get fd with
  | none => exact .inr href
  | some k =>
    by_cases hown : ∃ p ∈ R.members, (R.view p).info.clientFd = fd
    · obtain ⟨p,hp,rfl⟩ := hown
      obtain ⟨q,-,hk',-,hreg⟩ := h.owns p hp
      have hkv : k = (R.view p).sock := Option.some.inj (hk.symm.trans hk')
      refine .inl ⟨p,hp,A,?_⟩
      rw [hkv]
      exact h.putSock hp (by rw [hf]; exact hreg)
    · have hother : ∀ p ∈ R.members, (R.view p).info.clientFd ≠ fd :=
        fun p hp he => hown ⟨p,hp,he⟩
      refine .inr ⟨A,h.outside 0 (fun _ _ => rfl)
        (fun p hp => Heap.get_set_of_ne _ _ (hother p hp)) rfl ?_ rfl rfl rfl rfl rfl rfl⟩
      intro fd' k' r hk' hr
      have hk'' : (w.socks.set fd (f k)).get fd' = some k' := hk'
      by_cases he : fd' = fd
      · subst he
        rw [Heap.get_set_self] at hk''
        cases hk''
        exact ⟨k,hk,by rw [← hf]; exact hr⟩
      · rw [Heap.get_set_of_ne _ _ he] at hk''
        exact ⟨k',hk'',hr⟩

end Steps

/-- The state of the system between two steps, up to its clean-up at the end. -/
structure Tracks (s : Sys) (R : Room) : Prop where
  refines : Refines s.world R
  mutex : R.mutex = false
  batch : ∀ es, s.phase = .batch es → ∀ e ∈ es, ∀ p, e.data = .ptr p → p ∈ R.members

def Follows (R : Room) (s : Sys) : Prop := ∃ R', Tracks s R' ∧ ReflTransGen Act R R'

theorem Tracks.live {s : Sys} {R : Room} (h : Tracks s R) : s.world.Live := by
  obtain ⟨A,hrep⟩ := h.refines
  intro p hp
  rw [hrep.members] at hp
  obtain ⟨q,hc,-⟩ := hrep.owns p hp
  rw [hc]
  simp

theorem Tracks.suspended {s : Sys} {R : Room} {p : Nat} (h : Tracks s R)
    (hidle : s.world.Idle) (hp : p ∈ R.members) (hopen : (R.view p).info.closed = false) :
    Suspended (R.view p).info := by
  obtain ⟨A,hrep⟩ := h.refines
  obtain ⟨q,hc,-⟩ := hrep.owns p hp
  have hlisted : p ∈ s.world.clientList := by
    rw [hrep.members]
    exact hp
  have hwait : Suspended ((R.view p).info.withQueue q) := hidle p hlisted _ hc hopen
  exact hwait

theorem step_closing {s s' : Sys} {i : Input} (hphase : s.phase = .closing)
    (hstep : step s (.server i) = .ok s') : s'.phase = .done := by
  unfold step at hstep
  simp only [hphase] at hstep
  cases hfree : freeQueues s.world with
  | error e => simp [hfree] at hstep
  | ok w =>
    simp only [hfree,ok_bind] at hstep
    cases hgone : removeAllClients w with
    | error e => simp [hgone] at hstep
    | ok res =>
      simp only [hgone,ok_bind] at hstep
      cases hstep
      rfl

/-- The clean-up apart, a step other than an event keeps what holds of every record and
does not depend on what `Untouched` leaves open. -/
theorem step_all {P : ClientInfo → Prop} {s s' : Sys} {a : Action}
    (hP : ∀ c c', Untouched c c' → P c → P c') (hall : s.world.All P)
    (hdispatch : ∀ i e es, a = .server i → s.phase = .batch (e :: es) →
      Always (dispatch s.world e i.accepts) (World.All P))
    (hstep : step s a = .ok s') (hdone : s'.phase ≠ .done) : s'.world.All P := by
  have honSock : ∀ (fd : Nat) (f : Sock → Sock), Keeps none s.world (s.world.onSock fd f) := by
    intro fd f
    unfold World.onSock
    split
    · exact .refl _
    · exact .of_alike ⟨rfl,rfl⟩
  cases a with
  | net fd bs fin reset =>
    cases hstep
    exact (honSock fd _).all hP hall
  | plan fd oracle =>
    cases hstep
    exact (honSock fd _).all hP hall
  | clock ts =>
    cases hstep
    exact hall
  | server i =>
    have hclosed := fun hphase => step_closing (i := i) hphase hstep
    unfold step at hstep
    cases hphase : s.phase with
    | done =>
      simp only [hphase] at hstep
      cases hstep
      exact hall
    | closing => exact absurd (hclosed hphase) hdone
    | top =>
      simp only [hphase] at hstep
      by_cases hshut : s.world.serverShutdown = true
      · rw [if_pos hshut] at hstep
        have hcast := broadcast_keeps s.world none shutdownMessage
        cases hb : broadcast s.world none shutdownMessage with
        | error e => simp [hb] at hstep
        | ok res =>
          simp only [hb,ok_bind] at hstep
          cases hstep
          rw [hb] at hcast
          exact Keeps.all hP hcast hall
      · rw [if_neg hshut] at hstep
        have hreap := reapLoop_keeps s.world.clientList.length 0 s.world
        unfold reapPass at hstep
        cases hb : reapLoop s.world.clientList.length 0 s.world with
        | error e => simp [hb] at hstep
        | ok w =>
          rw [hb] at hreap
          simp only [hb,ok_bind] at hstep
          split at hstep <;>
          · cases hstep
            exact Keeps.all hP hreap hall
    | batch es =>
      cases es with
      | nil =>
        simp only [hphase] at hstep
        cases hstep
        exact hall
      | cons e es =>
        simp only [hphase] at hstep
        have hevent := hdispatch i e es rfl hphase
        cases hd : dispatch s.world e i.accepts with
        | error e => simp [hd] at hstep
        | ok w =>
          rw [hd] at hevent
          simp only [hd,ok_bind] at hstep
          cases hstep
          exact hevent

theorem step_idle {s s' : Sys} {R : Room} (h : Tracks s R) (hidle : s.world.Idle) {a : Action}
    (hstep : step s a = .ok s') (hdone : s'.phase ≠ .done) : s'.world.Idle := by
  refine step_all Untouched.idle hidle (fun i e es ha hphase => ?_) hstep hdone
  obtain ⟨data,bits⟩ := e
  cases data with
  | listen =>
    unfold dispatch
    refine (acceptNewClients_idle i.accepts s.world hidle h.live).bind ?_
    rintro ⟨w,r⟩ hw
    exact hw
  | ptr p =>
    have hp := h.batch _ hphase ⟨.ptr p,bits⟩ (by simp) p rfl
    obtain ⟨A,hrep⟩ := h.refines
    rw [← hrep.members] at hp
    exact dispatch_ptr_idle hidle hp bits i.accepts

section System
variable {s s' : Sys} {R : Room}

theorem world_follows {w : World} (h : Tracks s R) (hw : Refines w R) :
    Follows R { s with world := w } := ⟨R,⟨hw,h.mutex,h.batch⟩,.refl⟩

theorem act_follows {w : World} {R' : Room} (h : Tracks s R) (hact : Act R R')
    (hw : Refines w R') (hmem : R'.members = R.members) : Follows R { s with world := w } := by
  refine ⟨R',⟨hw,hact.mutex.trans h.mutex,?_⟩,.single hact⟩
  intro es hes e he p hp
  rw [hmem]
  exact h.batch es hes e he p hp

theorem environment_follows (h : Tracks s R) {a : Action} (ha : ∀ i, a ≠ .server i)
    (hstep : step s a = .ok s') : Follows R s' := by
  cases a with
  | server i => exact absurd rfl (ha i)
  | net fd bs fin reset =>
    cases hstep
    rcases onSock_refines h.refines fd (fun k => deliver k bs fin reset) (fun _ => rfl) with
      ⟨p,hp,hw⟩ | hw
    · exact act_follows h (.arrive hp bs fin reset) hw rfl
    · exact world_follows h hw
  | plan fd oracle =>
    cases hstep
    rcases onSock_refines h.refines fd (fun k => { k with oracle := oracle }) (fun _ => rfl) with
      ⟨p,hp,hw⟩ | hw
    · exact act_follows h (.plan hp oracle) hw rfl
    · exact world_follows h hw
  | clock ts =>
    cases hstep
    obtain ⟨A,hr⟩ := h.refines
    exact act_follows h (.clock ts) ⟨A,{ hr with clock := rfl }⟩ rfl

/-- One step of the main loop. Only a failed allocation stops it. -/
theorem server_follows (h : Tracks s R) (hidle : s.world.Idle) (hclosing : s.phase ≠ .closing)
    (hdone : s.phase ≠ .done) (i : Input) :
    Holds Crash (step s (.server i)) (Follows R) := by
  cases hphase : s.phase with
  | closing => exact absurd hphase hclosing
  | done => exact absurd hphase hdone
  | top =>
    unfold step
    simp only [hphase]
    by_cases hshut : s.world.serverShutdown = true
    · rw [if_pos hshut]
      have hshutR : R.shutdown = true := by
        obtain ⟨A,hr⟩ := h.refines
        rw [← hr.shutdown]
        exact hshut
      obtain ⟨w₁,hw₁,h₁⟩ := broadcast_refines h.refines h.mutex none shutdownMessage
      rw [hw₁]
      exact ⟨_,⟨h₁,h.mutex,fun es hes => by cases hes⟩,.single (.announce hshutR)⟩
    · rw [if_neg hshut]
      obtain ⟨w₁,R₁,hreap,h₁,hfree₁,hrun⟩ :=
        reapLoop_refines s.world.clientList.length 0 h.refines h.mutex
      unfold reapPass
      simp only [hreap,ok_bind]
      by_cases hfail : i.waitFails = true
      · rw [if_pos hfail]
        exact ⟨R₁,⟨h₁,hfree₁,fun es hes => by cases hes⟩,hrun⟩
      · rw [if_neg hfail]
        refine ⟨R₁,⟨h₁,hfree₁,?_⟩,hrun⟩
        intro es hes e he p hp
        cases hes
        exact epollWait_members h₁ he hp
  | batch es =>
    cases es with
    | nil =>
      unfold step
      simp only [hphase]
      exact ⟨R,⟨h.refines,h.mutex,fun es hes => by cases hes⟩,.refl⟩
    | cons e es =>
      unfold step
      simp only [hphase]
      have hgrow : Holds Crash (dispatch s.world e i.accepts) (Grows R) := by
        obtain ⟨data,bits⟩ := e
        cases data with
        | listen =>
          unfold dispatch
          exact (acceptNewClients_refines i.accepts h.refines h.mutex).bind
            (fun res hres => hres)
        | ptr p =>
          have hp := h.batch _ hphase ⟨.ptr p,bits⟩ (by simp) p rfl
          exact dispatch_ptr_refines h.refines hp h.mutex (h.suspended hidle hp) bits i.accepts
      refine hgrow.bind ?_
      rintro w₁ ⟨R₁,h₁,hfree₁,hmem,hrun⟩
      refine ⟨R₁,⟨h₁,hfree₁,?_⟩,hrun⟩
      intro es' hes' e' he' p hp
      cases hes'
      exact hmem p (h.batch _ hphase e' (List.mem_cons_of_mem e he') p hp)

theorem step_follows (h : Tracks s R) (hidle : s.world.Idle) {a : Action}
    (hstep : step s a = .ok s') (hdone : s'.phase ≠ .done) : Follows R s' := by
  by_cases ha : ∀ i, a ≠ .server i
  · exact environment_follows h ha hstep
  · obtain ⟨i,rfl⟩ : ∃ i, a = .server i := by simpa using ha
    have hnotdone : s.phase ≠ .done := by
      intro hp
      unfold step at hstep
      simp only [hp] at hstep
      cases hstep
      exact hdone hp
    by_cases hclosing : s.phase = .closing
    · exact absurd (step_closing hclosing hstep) hdone
    · exact (server_follows h hidle hclosing hnotdone i).of_ok hstep

theorem step_done {a : Action} (hdone : s.phase = .done) (hstep : step s a = .ok s') :
    s'.phase = .done := by
  unfold step at hstep
  cases a with
  | server i =>
    simp only [hdone] at hstep
    cases hstep
    exact hdone
  | net => cases hstep; exact hdone
  | plan => cases hstep; exact hdone
  | clock => cases hstep; exact hdone

end System

theorem init_tracks : Tracks Sys.init Room.empty := by
  have hnone : ∀ p, p ∉ Room.empty.members := by simp [Room.empty]
  refine ⟨⟨fun _ => [],?_⟩,rfl,fun es hes => by cases hes⟩
  refine ⟨rfl,List.nodup_nil,Nat.zero_le _,fun p hp => absurd hp (hnone p),
    fun p hp => absurd hp (hnone p),fun p hp => absurd hp (hnone p),?_,rfl,rfl,rfl,rfl,rfl⟩
  intro fd k r hk
  cases hk

theorem init_idle : Sys.init.world.Idle := fun p hp => by cases hp

theorem reach_seated {R R' : Room} (h : ReflTransGen Act R R') (hs : R.Seated) : R'.Seated := by
  induction h with
  | refl => exact hs
  | tail _ hact ih => exact hact.seated ih

theorem reach_numbered {R R' : Room} (h : ReflTransGen Act R R') (hn : R.Numbered) :
    R'.Numbered := by
  induction h with
  | refl => exact hn
  | tail _ hact ih => exact hact.numbered ih

/-- What one step does to the room, a whole run does too, and between two steps
every open client's reader waits for bytes. -/
theorem run_follows {acts : List Action} {s s' : Sys} {R : Room} (h : Tracks s R)
    (hidle : s.world.Idle) (hrun : run step s acts = .ok s') (hphase : s'.phase ≠ .done) :
    s'.world.Idle ∧ Follows R s' := by
  have hinv : s'.phase ≠ .done → s'.world.Idle ∧ Follows R s' := by
    refine run_induction (I := fun t => t.phase ≠ .done → t.world.Idle ∧ Follows R t)
      ?_ ?_ hrun
    · intro t a t' ih hstep hdone
      obtain ⟨hwait,S,htracks,hacts⟩ := ih (fun ht => hdone (step_done ht hstep))
      obtain ⟨S',htracks',hacts'⟩ := step_follows htracks hwait hstep hdone
      exact ⟨step_idle htracks hwait hstep hdone,S',htracks',hacts.trans hacts'⟩
    · intro _
      exact ⟨hidle,R,h,.refl⟩
  exact hinv hphase

theorem run_done {acts : List Action} {s s' : Sys} (hdone : s.phase = .done)
    (hrun : run step s acts = .ok s') : s'.phase = .done := by
  refine run_induction (I := fun t => t.phase = .done) ?_ hdone hrun
  intro t a t' ht hstep
  exact step_done ht hstep

/-- Until the server cleans up, every state of a run refines a room in which
every member sits where its connection can have led it. -/
theorem run_tracks {acts : List Action} {s : Sys} (hrun : run step Sys.init acts = .ok s)
    (hphase : s.phase ≠ .done) :
    ∃ R, Tracks s R ∧ R.Seated ∧ ReflTransGen Act Room.empty R := by
  obtain ⟨-,R,htracks,hacts⟩ := run_follows init_tracks init_idle hrun hphase
  have hseated : Room.empty.Seated := fun p hp => by simp [Room.empty] at hp
  exact ⟨R,htracks,reach_seated hacts hseated,hacts⟩

theorem run_idle {acts : List Action} {s : Sys} (hrun : run step Sys.init acts = .ok s)
    (hphase : s.phase ≠ .done) : s.world.Idle :=
  (run_follows init_tracks init_idle hrun hphase).1

structure Listed (s : Sys) (p : Nat) (c : ClientInfo) (k : Sock) : Prop where
  listed : p ∈ s.world.clientList
  info : s.world.clients.get p = some c
  sock : s.world.socks.get c.clientFd = some k

/-- What a listed client looks like from its seat. -/
structure Seats (s : Sys) (p : Nat) (c : ClientInfo) (k : Sock) (seat : Seat) : Prop where
  reachable : Seat.Reachable p seat
  broadcasts : seat.broadcasts = s.world.broadcasts
  shutdown : seat.shutdown = s.world.serverShutdown
  info : c = seat.view.info.withQueue c.msgQueue
  sock : k = seat.view.sock
  queue : ∃ as, QueueRep s.world.packets c.msgQueue as seat.view.queue

theorem Tracks.seats {s : Sys} {R : Room} {p : Nat} {c : ClientInfo} {k : Sock}
    (htracks : Tracks s R) (hseated : R.Seated) (h : Listed s p c k) :
    p ∈ R.members ∧ Seats s p c k (R.seat p) := by
  obtain ⟨A,hrep⟩ := htracks.refines
  have hp : p ∈ R.members := by
    rw [← hrep.members]
    exact h.listed
  obtain ⟨q,hc,hk,hq,-⟩ := hrep.owns p hp
  have hceq : c = (R.view p).info.withQueue q := Option.some.inj (h.info.symm.trans hc)
  subst hceq
  have hkeq : k = (R.view p).sock := Option.some.inj (h.sock.symm.trans hk)
  exact ⟨hp,hseated p hp,hrep.broadcasts.symm,hrep.shutdown.symm,rfl,hkeq,A p,hq⟩

theorem Seats.closed {s : Sys} {p : Nat} {c : ClientInfo} {k : Sock} {seat : Seat}
    (h : Seats s p c k seat) : seat.view.info.closed = c.closed := by
  rw [h.info]
  rfl

theorem listed_seats {acts : List Action} {s : Sys} {p : Nat} {c : ClientInfo} {k : Sock}
    (hrun : run step Sys.init acts = .ok s) (hphase : s.phase ≠ .done)
    (h : Listed s p c k) : ∃ seat, Seats s p c k seat := by
  obtain ⟨R,htracks,hseated,-⟩ := run_tracks hrun hphase
  exact ⟨R.seat p,(htracks.seats hseated h).2⟩

/-- A client that is listed in two states of a run, on the same connection, has
taken turns from the one to the other. -/
theorem later_seats {acts acts' : List Action} {s s' : Sys} {p : Nat} {c c' : ClientInfo}
    {k k' : Sock} (hrun : run step Sys.init acts = .ok s) (hrun' : run step s acts' = .ok s')
    (hphase : s'.phase ≠ .done) (h : Listed s p c k) (h' : Listed s' p c' k')
    (hserial : k'.serial = k.serial) :
    ∃ seat seat', Seats s p c k seat ∧ Seats s' p c' k' seat' ∧
      ReflTransGen (Seat.Turn p) seat seat' := by
  have hnot : s.phase ≠ .done := fun hs => hphase (run_done hs hrun')
  obtain ⟨R,htracks,hseated,hacts⟩ := run_tracks hrun hnot
  obtain ⟨-,R',htracks',hacts'⟩ := run_follows htracks (run_idle hrun hnot) hrun' hphase
  obtain ⟨hp,hseat⟩ := htracks.seats hseated h
  obtain ⟨hp',hseat'⟩ := htracks'.seats (reach_seated hacts' hseated) h'
  refine ⟨R.seat p,R'.seat p,hseat,hseat',?_⟩
  have hnumbered : R.Numbered :=
    reach_numbered hacts (fun p hp => by simp [Room.empty] at hp)
  have hold : (R.seat p).view.sock.serial < R.accepted := hnumbered p hp
  rcases acts_seat hacts' hp' with hnew | ⟨-,hturns⟩
  · have hnew' : R.accepted ≤ (R'.seat p).view.sock.serial := hnew
    rw [← hseat'.sock,hserial,hseat.sock] at hnew'
    omega
  · exact hturns

def reaches (acts : List Action) (test : Sys → Bool) : Bool :=
  match run step Sys.init acts with
  | .ok s => test s
  | .error _ => false

theorem reaches_run {acts : List Action} {test : Sys → Bool} (h : reaches acts test = true) :
    ∃ s, run step Sys.init acts = .ok s ∧ test s = true := by
  unfold reaches at h
  split at h
  · rename_i s hs
    exact ⟨s,hs,h⟩
  · cases h

/-- The run ends before the clean-up, and the client at address `p` is listed in
a state that passes the test. -/
def reachesListed (acts : List Action) (p : Nat) (test : Sys → ClientInfo → Sock → Bool) :
    Bool :=
  reaches acts (fun s => decide (s.phase ≠ .done) && decide (p ∈ s.world.clientList) &&
    match s.world.clients.get p with
    | none => false
    | some c =>
      match s.world.socks.get c.clientFd with
      | none => false
      | some k => test s c k)

theorem reaches_listed {acts : List Action} {p : Nat} {test : Sys → ClientInfo → Sock → Bool}
    (h : reachesListed acts p test = true) :
    ∃ s, run step Sys.init acts = .ok s ∧ ∃ c k, s.phase ≠ .done ∧ Listed s p c k ∧
      test s c k = true := by
  obtain ⟨s,hrun,htest⟩ := reaches_run h
  simp only [Bool.and_eq_true,decide_eq_true_eq] at htest
  obtain ⟨⟨hphase,hlisted⟩,hrest⟩ := htest
  cases hc : s.world.clients.get p with
  | none => simp [hc] at hrest
  | some c =>
    simp only [hc] at hrest
    cases hk : s.world.socks.get c.clientFd with
    | none => simp [hk] at hrest
    | some k =>
      simp only [hk] at hrest
      exact ⟨s,hrun,c,k,hphase,⟨hlisted,hc,hk⟩,hrest⟩

namespace Action

def turn (ready : List Ready) (accepts : List AcceptRes) : List Action :=
  .server ⟨false,ready,[]⟩ :: ready.map (fun _ => .server ⟨false,[],accepts⟩) ++
    [.server ⟨false,[],[]⟩]

def connects (p fd : Nat) (oracle : Oracle) : List Action :=
  turn [.listen] [.conn ⟨fd,true,some (p,.blank),some [],true,oracle⟩]

def input (fd : Nat) : Ready := .sock fd ⟨true,false,false,false,false⟩

def hears (fd : Nat) (bs : Bytes) : List Action :=
  .net fd bs false false :: turn [input fd] []

/-- Two clients choose names, and the first one chats while the socket of the
second takes three bytes. -/
def slowReader : List Action :=
  connects 1 5 .quiet ++ connects 2 6 { Oracle.quiet with sends := [.accepts 3,.wouldBlock] } ++
    hears 5 (frame msgTypeNormal (ascii "ann")) ++ hears 6 (frame msgTypeNormal (ascii "bob")) ++
    hears 5 (frame msgTypeNormal (ascii "hello"))

end Action

end ChatServer
