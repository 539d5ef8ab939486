import ChatServer.RunRefinement

/-! src/server/server.c with the set-up that it calls: which failures of the start end the
program, and what becomes of a server that went on with a socket nobody can connect to. -/
set_option autoImplicit false

namespace ChatServer
open ByteString Memory Execution Relation

def errSocket : Int := -1
def errInetPton : Int := -2
def errBind : Int := -3
def errListen : Int := -4

/-- What the system calls of the start and of the end return. -/
structure Setup where
  mutexInit : Int
  epollCreate : Int
  socket : Int
  fcntl : Int
  inetPton : Int
  setsockopt : Int
  bind : Int
  listen : Int
  epollAdd : Int
  mutexDestroy : Int
  deriving DecidableEq, Repr

namespace Setup

def serverStateInit (o : Setup) : Int :=
  if o.mutexInit ≠ 0 then -1 else if o.epollCreate = -1 then -1 else 0

def createInetSocket (o : Setup) : Int := if o.socket = -1 then errSocket else 0

def setupAddress (o : Setup) : Int := if o.inetPton ≠ 1 then errInetPton else 0

def bindAndListen (o : Setup) : Int :=
  if o.setsockopt = -1 then errSocket
  else if o.bind = -1 then errBind
  else if o.listen = -1 then errListen
  else 0

def initServer (o : Setup) : Int :=
  let status := o.createInetSocket
  if status ≠ 0 then status
  else if o.fcntl = -1 then -1
  else
    let status := o.setupAddress
    if status ≠ 0 then status else o.bindAndListen

def serverStateDestroy (o : Setup) : Int := if o.mutexDestroy ≠ 0 then -1 else 0

def exitStatus (o : Setup) : Nat := if o.serverStateDestroy = -1 then 1 else 0

end Setup

/-- `main` of the server: the status with which it has exited, or `none` while it runs. -/
def serverMain (o : Setup) (acts : List Action) : Except Fault (Option Nat) :=
  if o.serverStateInit = -1 then pure (some 1)
  else if o.initServer = -1 then pure (some 1)
  else if o.epollAdd = -1 then pure (some o.exitStatus)
  else do
    let s ← run step Sys.init acts
    pure (if s.phase = .done then some o.exitStatus else none)

/-- The socket is there, but it has no address, or it is not bound, or it does not listen. -/
structure Setup.Unheard (o : Setup) : Prop where
  state : o.mutexInit = 0 ∧ o.epollCreate ≠ -1
  socket : o.socket ≠ -1 ∧ o.fcntl ≠ -1 ∧ o.setsockopt ≠ -1
  fails : o.inetPton ≠ 1 ∨ o.bind = -1 ∨ o.listen = -1
  added : o.epollAdd ≠ -1

def AcceptRes.lonely : AcceptRes → Bool
  | .conn _ => false
  | .wouldBlock => true
  | .fails => true

def Action.lonely : Action → Bool
  | .server i => i.accepts.all AcceptRes.lonely
  | _ => true

def Action.waitFails : Action → Bool
  | .server i => i.waitFails
  | _ => false

structure Deserted (s : Sys) : Prop where
  nobody : s.world.clientList = []
  sockless : ∀ fd, s.world.socks.get fd = none
  unsaid : s.world.broadcasts = []
  unasked : s.world.serverShutdown = false
  running : s.phase ≠ .closing
  heard : ∀ es, s.phase = .batch es → ∀ e ∈ es, e.data = .listen

section Steps
variable {s s' : Sys} {w : World} {a : Action} {o : Setup} {acts : List Action}

theorem Setup.Unheard.initServer (h : o.Unheard) : o.initServer ≠ 0 ∧ o.initServer ≠ -1 := by
  obtain ⟨hsocket,hfcntl,hopt⟩ := h.socket
  unfold Setup.initServer Setup.createInetSocket Setup.setupAddress Setup.bindAndListen
  simp only [if_neg hsocket,if_neg hfcntl,if_neg hopt]
  by_cases hpton : o.inetPton ≠ 1
  · simp [hpton,errInetPton]
  · by_cases hbind : o.bind = -1
    · simp only [if_neg hpton,if_pos hbind]
      decide
    · have hlisten : o.listen = -1 := (h.fails.resolve_left hpton).resolve_left hbind
      simp only [if_neg hpton,if_neg hbind,if_pos hlisten]
      decide

theorem onSock_sockless (h : ∀ fd, w.socks.get fd = none) (fd : Nat) (f : Sock → Sock) :
    w.onSock fd f = w := by
  unfold World.onSock
  rw [h fd]

theorem acceptNewClients_lonely {accepts : List AcceptRes}
    (h : accepts.all AcceptRes.lonely = true) (w : World) :
    ∃ r, acceptNewClients accepts w = .ok (w,r) := by
  cases accepts with
  | nil => exact ⟨0,rfl⟩
  | cons a rest =>
    cases a with
    | conn i => simp [AcceptRes.lonely] at h
    | wouldBlock => exact ⟨0,rfl⟩
    | fails => exact ⟨-1,rfl⟩

theorem dispatch_lonely {e : Event} {accepts : List AcceptRes} (hlisten : e.data = .listen)
    (h : accepts.all AcceptRes.lonely = true) (w : World) : dispatch w e accepts = .ok w := by
  obtain ⟨r,haccept⟩ := acceptNewClients_lonely h w
  unfold dispatch
  simp only [hlisten,haccept,ok_bind]
  rfl

theorem epollWait_sockless (h : ∀ fd, w.socks.get fd = none) (ready : List Ready) :
    ∀ e ∈ epollWait w ready, e.data = .listen := by
  intro e he
  obtain ⟨r,-,hr⟩ := List.mem_filterMap.mp (List.mem_of_mem_take he)
  cases r with
  | listen =>
    cases hr
    rfl
  | sock fd bits =>
    unfold epollEvent at hr
    simp [h fd] at hr

theorem reapPass_nobody (h : w.clientList = []) : reapPass w = .ok w := by
  unfold reapPass
  rw [h]
  rfl

theorem step_deserted (h : Deserted s) (ha : a.lonely = true) : ∃ s', step s a = .ok s' ∧
    Deserted s' ∧ (s'.phase = .done → s.phase = .done ∨ a.waitFails = true) := by
  cases a with
  | net fd bs fin reset =>
    refine ⟨{ s with world := s.world.onSock fd (fun k => deliver k bs fin reset) },rfl,?_,.inl⟩
    rw [onSock_sockless h.sockless]
    exact h
  | plan fd oracle =>
    refine ⟨{ s with world := s.world.onSock fd (fun k => { k with oracle := oracle }) },rfl,?_,
      .inl⟩
    rw [onSock_sockless h.sockless]
    exact h
  | clock ts =>
    exact ⟨{ s with world := { s.world with clock := ts } },rfl,
      ⟨h.nobody,h.sockless,h.unsaid,h.unasked,h.running,h.heard⟩,.inl⟩
  | server i =>
    obtain ⟨w,phase⟩ := s
    have hw : ∀ next : Phase, next ≠ .closing →
        (∀ es, next = .batch es → ∀ e ∈ es, e.data = .listen) → Deserted ⟨w,next⟩ :=
      fun next hrunning hheard => ⟨h.nobody,h.sockless,h.unsaid,h.unasked,hrunning,hheard⟩
    cases phase with
    | top =>
      have hreap : reapPass w = .ok w := reapPass_nobody h.nobody
      have hasked : w.serverShutdown = false := h.unasked
      unfold step
      simp only [hasked,hreap,ok_bind,Bool.false_eq_true,if_false]
      by_cases hwait : i.waitFails = true
      · rw [if_pos hwait]
        exact ⟨_,rfl,hw .done (by simp) (by simp),fun _ => .inr hwait⟩
      · rw [if_neg hwait]
        refine ⟨_,rfl,hw _ (by simp) ?_,fun hbad => by cases hbad⟩
        intro es hes
        cases hes
        exact epollWait_sockless h.sockless i.ready
    | batch es =>
      cases es with
      | nil => exact ⟨⟨w,.top⟩,rfl,hw .top (by simp) (by simp),fun hbad => by cases hbad⟩
      | cons e es =>
        have hlisten : e.data = .listen := h.heard (e :: es) rfl e List.mem_cons_self
        unfold step
        simp only [dispatch_lonely hlisten ha w,ok_bind]
        refine ⟨_,rfl,hw _ (by simp) ?_,fun hbad => by cases hbad⟩
        intro es' hes' e' he'
        cases hes'
        exact h.heard (e :: es) rfl e' (List.mem_cons_of_mem e he')
    | closing => exact absurd rfl h.running
    | done => exact ⟨⟨w,.done⟩,rfl,h,fun _ => .inl rfl⟩

theorem run_deserted (h : Deserted s) (hacts : ∀ a ∈ acts, a.lonely = true) :
    ∃ s', run step s acts = .ok s' ∧ Deserted s' ∧
      (s'.phase = .done → s.phase = .done ∨ ∃ a ∈ acts, a.waitFails = true) := by
  induction acts generalizing s with
  | nil => exact ⟨s,rfl,h,.inl⟩
  | cons a acts ih =>
    obtain ⟨s₁,hstep,h₁,hdone₁⟩ := step_deserted h (hacts a List.mem_cons_self)
    obtain ⟨s₂,hrun,h₂,hdone₂⟩ := ih h₁ (fun b hb => hacts b (List.mem_cons_of_mem a hb))
    refine ⟨s₂,?_,h₂,fun hdone => ?_⟩
    · rw [run_cons,hstep]
      exact hrun
    · rcases hdone₂ hdone with hphase | ⟨b,hb,hwait⟩
      · rcases hdone₁ hphase with hphase | hwait
        · exact .inl hphase
        · exact .inr ⟨a,List.mem_cons_self,hwait⟩
      · exact .inr ⟨b,List.mem_cons_of_mem a hb,hwait⟩

/-- `main` looks for -1 alone. When the address, `bind` or `listen` fails it takes the status
for success: the server runs its loop, in which nobody is ever listed and nothing is sent, it
never stops by itself, and when `epoll_wait` fails it exits as if all had been well. -/
theorem deaf_server (h : o.Unheard) (hacts : ∀ a ∈ acts, a.lonely = true) : o.initServer ≠ 0 ∧
    ∃ s, run step Sys.init acts = .ok s ∧ Deserted s ∧
      serverMain o acts = .ok (if s.phase = .done then some o.exitStatus else none) ∧
      (s.phase = .done → ∃ a ∈ acts, a.waitFails = true) := by
  obtain ⟨hfailed,hnoticed⟩ := h.initServer
  obtain ⟨hmutex,hepoll⟩ := h.state
  have hstate : o.serverStateInit ≠ -1 := by
    unfold Setup.serverStateInit
    rw [if_neg (not_not_intro hmutex),if_neg hepoll]
    decide
  have hinit : Deserted Sys.init := ⟨rfl,fun _ => rfl,rfl,rfl,by decide,by simp [Sys.init]⟩
  obtain ⟨s,hrun,hs,hdone⟩ := run_deserted hinit hacts
  refine ⟨hfailed,s,hrun,hs,?_,fun hphase => (hdone hphase).resolve_left (by decide)⟩
  unfold serverMain
  rw [if_neg hstate,if_neg hnoticed,if_neg h.added,hrun]
  rfl

end Steps

/-- The port is taken, and the loop goes round once before `epoll_wait` fails. -/
def Setup.portTaken : Setup := ⟨0,4,3,0,1,0,-1,0,0,0⟩

def Action.goesRound : List Action :=
  [.server ⟨false,[.listen],[]⟩,.server ⟨false,[],[.fails]⟩,.server ⟨false,[],[]⟩,
    .server ⟨true,[],[]⟩]

theorem deaf_server_portTaken : serverMain Setup.portTaken Action.goesRound = .ok (some 0) ∧
    Setup.portTaken.initServer ≠ 0 ∧ ∃ s, run step Sys.init Action.goesRound = .ok s ∧
      Deserted s ∧ serverMain Setup.portTaken Action.goesRound =
        .ok (if s.phase = .done then some Setup.portTaken.exitStatus else none) ∧
      (s.phase = .done → ∃ a ∈ Action.goesRound, a.waitFails = true) := by
  have hdeaf : Setup.portTaken.Unheard :=
    ⟨⟨rfl,by decide⟩,⟨by decide,by decide,by decide⟩,.inr (.inl rfl),by decide⟩
  have hexits : (serverMain Setup.portTaken Action.goesRound).toOption = some (some 0) := by
    decide +kernel
  refine ⟨?_,deaf_server hdeaf (by decide)⟩
  cases hmain : serverMain Setup.portTaken Action.goesRound with
  | error e =>
    rw [hmain] at hexits
    cases hexits
  | ok status =>
    rw [hmain] at hexits
    exact congrArg Except.ok (Option.some.inj hexits)

end ChatServer
