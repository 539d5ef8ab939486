import ChatServer.ReadRefinement

/-! The refinement of the main loop: accepting, dispatching an event and reaping
are transitions of the room. -/
set_option autoImplicit false

namespace ChatServer
open ByteString Memory Execution Relation

/-- The world refines a room that `R` has come to, and nobody has left it. -/
def Grows (R : Room) (w : World) : Prop :=
  ∃ R', Refines w R' ∧ R'.mutex = false ∧ (∀ p ∈ R.members, p ∈ R'.members) ∧
    ReflTransGen Act R R'

section Dispatch
variable {w : World} {R : Room} {p : Nat}

theorem Grows.refl (h : Refines w R) (hfree : R.mutex = false) : Grows R w :=
  ⟨R,h,hfree,fun _ hp => hp,.refl⟩

theorem noteHangup_refines (h : Refines w R) (hp : p ∈ R.members) :
    Yields (do
      let w ← noteHangup w p
      markClosed w p) (R.set p (R.view p).hangup) := by
  have href := h
  obtain ⟨A,h⟩ := h
  obtain ⟨q,hc,hk,-,-⟩ := h.access hp
  have hk' : w.sock ((R.view p).info.withQueue q).clientFd = .ok (R.view p).sock := hk
  unfold noteHangup
  simp only [hc,hk',ok_bind]
  refine (note_refines href hp _).bind ?_
  intro w₁ h₁
  have hclose := markClosed_refines h₁ hp
  simp only [Room.view_set_self,Room.set_set] at hclose
  exact hclose

theorem writeEvent_refines (h : Refines w R) (hp : p ∈ R.members) :
    Yields (do
      let (w,r) ← clientTryWrite w p
      if r = -1 then markClosed w p else pure w) (R.set p ((R.view p).sendNow p)) := by
  refine (clientTryWrite_refines h hp).bind_yields ?_
  intro w₁ h₁
  unfold View.sendNow
  by_cases hr : ((R.view p).tryWrite p).2 = -1
  · have hclose := markClosed_refines h₁ hp
    simp only [Room.view_set_self,Room.set_set] at hclose
    simpa [hr] using hclose
  · simp only [hr,if_false]
    exact ⟨w₁,rfl,h₁⟩

theorem dispatch_ptr_refines (h : Refines w R) (hp : p ∈ R.members) (hfree : R.mutex = false)
    (hidle : (R.view p).info.closed = false → Suspended (R.view p).info) (bits : EventBits)
    (accepts : List AcceptRes) :
    Holds Crash (dispatch w ⟨.ptr p,bits⟩ accepts) (Grows R) := by
  have href := h
  obtain ⟨A,h⟩ := h
  obtain ⟨q,hc,-,-,-⟩ := h.access hp
  have hclosed : ((R.view p).info.withQueue q).closed = (R.view p).info.closed := rfl
  unfold dispatch
  simp only [hc,ok_bind,hclosed]
  by_cases hshut : (R.view p).info.closed = true
  · rw [if_pos hshut]
    exact Grows.refl href hfree
  · rw [if_neg hshut]
    have hopen : (R.view p).info.closed = false := by simpa using hshut
    by_cases hup : (bits.epollhup || bits.epollrdhup || bits.epollerr) = true
    · rw [if_pos hup]
      obtain ⟨w₁,hw₁,h₁⟩ := noteHangup_refines href hp
      rw [hw₁]
      exact ⟨_,h₁,hfree,fun _ hq => hq,.single (.hangup hp hopen (hidle hopen))⟩
    · rw [if_neg hup]
      have hwrite : ∀ (w : World) (S : Room), Refines w S → S.members = R.members →
          S.mutex = false → (S.view p).info.closed = false → ReflTransGen Act R S →
          Holds Crash (if bits.epollout = true then do
            let (w,r) ← clientTryWrite w p
            if r = -1 then markClosed w p else pure w
          else pure w) (Grows R) := by
        intro w S hS hmem hfreeS hopenS hrun
        have hpS : p ∈ S.members := by rw [hmem]; exact hp
        by_cases hout : bits.epollout = true
        · rw [if_pos hout]
          obtain ⟨w₁,hw₁,h₁⟩ := writeEvent_refines hS hpS
          rw [hw₁]
          refine ⟨_,h₁,hfreeS,?_,hrun.tail (.write hpS hopenS)⟩
          intro q hq
          rw [Room.set_members,hmem]
          exact hq
        · rw [if_neg hout]
          exact ⟨S,hS,hfreeS,fun q hq => by rw [hmem]; exact hq,hrun⟩
      by_cases hin : bits.epollin = true
      · simp only [hin,if_true]
        refine (handleClientRead_refines href hp hfree hopen).bind ?_
        rintro ⟨w₁,r⟩ ⟨S,hmem,hfreeS,hopenS,h₁,hrun⟩
        simp only at h₁ hrun ⊢
        by_cases hr : r < 0
        · rw [if_pos hr]
          obtain ⟨w₂,hw₂,h₂⟩ := markClosed_refines h₁ (p := p) (by
            rw [Room.set_members,hmem]
            exact hp)
          rw [hw₂]
          simp only [Room.view_set_self,Room.set_set] at h₂
          refine ⟨_,h₂,hfreeS,fun q hq => by rw [Room.set_members,hmem]; exact hq,?_⟩
          simpa [View.stop,hr] using hrun
        · rw [if_neg hr]
          have hstop : (S.view p).stop r = (S.view p).note (.readReturned r) := by
            simp [View.stop,hr]
          rw [hstop] at hrun
          exact hwrite w₁ _ h₁ hmem hfreeS (by simpa using hopenS) hrun
      · simp only [hin,pure_bind]
        exact hwrite w R href rfl hfree hopen .refl

end Dispatch

section Accepting
variable {w w' : World} {R : Room} {A : Nat → List Nat}

/-- Records and sockets that belong to no member may come and go, as long as no
new socket is registered. -/
theorem Represents.outside (h : Represents w R A) (n : Nat)
    (hclients : ∀ p ∈ R.members, w'.clients.get p = w.clients.get p)
    (hsocks : ∀ p ∈ R.members, w'.socks.get (R.view p).info.clientFd =
      w.socks.get (R.view p).info.clientFd)
    (hpackets : w'.packets = w.packets)
    (hreg : ∀ fd k r, w'.socks.get fd = some k → k.registration = some r →
      ∃ k', w.socks.get fd = some k' ∧ k'.registration = some r)
    (hlist : w'.clientList = w.clientList) (hmutex : w'.clientMutex = w.clientMutex)
    (hshut : w'.serverShutdown = w.serverShutdown) (hclock : w'.clock = w.clock)
    (hcasts : w'.broadcasts = w.broadcasts) (hacc : w'.accepted = w.accepted+n) :
    Represents w' { R with accepted := R.accepted+n } A := by
  refine ⟨hlist.trans h.members,h.nodup,h.bound,?_,h.fds,h.cells,?_,hmutex.trans h.mutex,
    hshut.trans h.shutdown,hclock.trans h.clock,hcasts.trans h.broadcasts,?_⟩
  · intro p hp
    obtain ⟨q,hc,hk,hq,hr⟩ := h.owns p hp
    refine ⟨q,?_,?_,?_,hr⟩
    · rw [hclients p hp,hc]
    · rw [hsocks p hp,hk]
    · rw [hpackets]
      exact hq
  · intro fd k r hk hr
    obtain ⟨k',hk',hr'⟩ := hreg fd k r hk hr
    exact h.registered fd k' r hk' hr'
  · rw [hacc,h.accepted]

theorem Represents.client_ne_fresh (h : Represents w R A) {p : Nat} (hp : p ∈ R.members)
    (hint : Nat) : p ≠ w.clients.fresh hint := by
  obtain ⟨q,hc,-,-,-⟩ := h.owns p hp
  exact Heap.fresh_ne _ hint hc

theorem Represents.fd_ne_fresh (h : Represents w R A) {p : Nat} (hp : p ∈ R.members)
    (hint : Nat) : (R.view p).info.clientFd ≠ w.socks.fresh hint := by
  obtain ⟨q,-,hk,-,-⟩ := h.owns p hp
  exact Heap.fresh_ne _ hint hk

theorem strayed_sock (h : Represents w R A) {fd : Nat} {k : Sock} (hk : k.registration = none)
    (hfd : ∀ q ∈ R.members, (R.view q).info.clientFd ≠ fd) :
    Represents { w.putSock fd k with accepted := w.accepted+1 }
      { R with accepted := R.accepted+1 } A := by
  refine h.outside 1 (fun _ _ => rfl) (fun q hq => Heap.get_set_of_ne _ _ (hfd q hq)) rfl ?_
    rfl rfl rfl rfl rfl rfl
  intro fd' k' r hk' hr
  have hk'' : (w.socks.set fd k).get fd' = some k' := hk'
  rw [Heap.get_set] at hk''
  by_cases he : fd' = fd
  · rw [if_pos he] at hk''
    cases hk''
    rw [hk] at hr
    cases hr
  · rw [if_neg he] at hk''
    exact ⟨k',hk'',hr⟩

theorem strayed_client (h : Represents w R A) {p : Nat} (c : ClientInfo)
    (hp : ∀ q ∈ R.members, q ≠ p) : Represents (w.putClient p c) R A :=
  h.outside 0 (fun q hq => Heap.get_set_of_ne _ _ (hp q hq)) (fun _ _ => rfl) rfl
    (fun _ k _ hk hr => ⟨k,hk,hr⟩) rfl rfl rfl rfl rfl rfl

theorem join_refines (h : Represents w R A) {fd p : Nat} (v : View) (u : World)
    (hp : ∀ q ∈ R.members, q ≠ p) (hfd : ∀ q ∈ R.members, (R.view q).info.clientFd ≠ fd)
    (hvfd : v.info.clientFd = fd) (hqueue : v.queue = [])
    (hempty : v.info.msgQueue = .empty)
    (hreg : v.sock.registration.map (fun r => r.ptr) = some p)
    (hroom : R.members.length < maxClients)
    (hclients : ∀ q, u.clients.get q = if q = p then some v.info else w.clients.get q)
    (hsocks : ∀ f, u.socks.get f = if f = fd then some v.sock else w.socks.get f)
    (hpackets : u.packets = w.packets) (hlist : u.clientList = w.clientList ++ [p])
    (hmutex : u.clientMutex = w.clientMutex)
    (hshut : u.serverShutdown = w.serverShutdown) (hclock : u.clock = w.clock)
    (hcasts : u.broadcasts = w.broadcasts) (hacc : u.accepted = w.accepted+1) :
    Represents u { R.set p v with members := R.members ++ [p], accepted := R.accepted+1 }
      (fun q => if q = p then [] else A q) := by
  have hold : ∀ q ∈ R.members, (R.set p v).view q = R.view q :=
    fun q hq => Room.view_set_of_ne R v (hp q hq)
  have hsplit : ∀ q, q ∈ R.members ++ [p] → q ∈ R.members ∨ q = p := by
    intro q hq
    simpa using hq
  refine ⟨?_,?_,?_,?_,?_,?_,?_,hmutex.trans h.mutex,hshut.trans h.shutdown,
    hclock.trans h.clock,hcasts.trans h.broadcasts,?_⟩
  · rw [hlist,h.members]
  · rw [List.nodup_append]
    refine ⟨h.nodup,by simp,?_⟩
    intro q hq r hr
    rw [List.mem_singleton.mp hr]
    exact hp q hq
  · simp only [List.length_append,List.length_singleton]
    omega
  · intro q hq
    rcases hsplit q hq with hmem | rfl
    · obtain ⟨mq,hc,hk,hrep,hr⟩ := h.owns q hmem
      simp only [hp q hmem,if_false,hold q hmem]
      refine ⟨mq,?_,?_,?_,hr⟩
      · rw [hclients,if_neg (hp q hmem),hc]
      · rw [hsocks,if_neg (hfd q hmem),hk]
      · rw [hpackets]
        exact hrep
    · simp only [if_true,Room.view_set_self]
      refine ⟨.empty,?_,?_,?_,hreg⟩
      · rw [hclients,if_pos rfl,← hempty]
        rfl
      · rw [hsocks,if_pos hvfd]
      · rw [hqueue]
        exact ⟨rfl,by simp,rfl,rfl,rfl,by simp [msgSizeLimit]⟩
  · intro q hq r hr he
    rcases hsplit q hq with hq' | rfl <;> rcases hsplit r hr with hr' | rfl
    · simp only [hold q hq',hold r hr'] at he
      exact h.fds q hq' r hr' he
    · simp only [hold q hq',Room.view_set_self,hvfd] at he
      exact absurd he (hfd q hq')
    · simp only [hold r hr',Room.view_set_self,hvfd] at he
      exact absurd he.symm (hfd r hr')
    · rfl
  · intro q hq r hr hne a ha
    rcases hsplit q hq with hq' | rfl
    · simp only [hp q hq',if_false] at ha
      rcases hsplit r hr with hr' | rfl
      · simp only [hp r hr',if_false]
        exact h.cells q hq' r hr' hne a ha
      · simp
    · simp at ha
  · intro f k r hk hr
    rw [hsocks] at hk
    by_cases hf : f = fd
    · rw [if_pos hf] at hk
      cases hk
      rw [hr] at hreg
      have hptr : r.ptr = p := by simpa using hreg
      simp [hptr,hvfd,hf]
    · rw [if_neg hf] at hk
      obtain ⟨hmem,hcf⟩ := h.registered f k r hk hr
      refine ⟨by simp [hmem],?_⟩
      simpa [hold r.ptr hmem] using hcf
  · rw [hacc,h.accepted]

theorem Grows.after {R₁ : Room} (hact : Act R R₁) (hsub : ∀ p ∈ R.members, p ∈ R₁.members)
    (h : Grows R₁ w) : Grows R w := by
  obtain ⟨R',href,hfree,hmem,hrun⟩ := h
  exact ⟨R',href,hfree,fun p hp => hmem p (hsub p hp),.head hact hrun⟩

theorem Grows.refuse (h : Refines w { R with accepted := R.accepted+1 })
    (hfree : R.mutex = false) : Grows R w :=
  (Grows.refl h hfree).after .refuse (fun _ hp => hp)

theorem addClientToList_eq {p : Nat} {c : ClientInfo} {k : Sock} (hfree : w.clientMutex = false)
    (hc : w.clients.get p = some c) (hk : w.socks.get c.clientFd = some k) :
    addClientToList w p = .ok (
      if w.clientList.length < maxClients then
        ({ w with clientMutex := false, clientList := w.clientList ++ [p] },0)
      else
        ({ w with clientMutex := false, socks := w.socks.free c.clientFd,
                  clients := w.clients.free p, orphans := w.orphans ++ c.partialMsg.toList },
          -1)) := by
  have hlock : w.lock = .ok { w with clientMutex := true } := by simp [World.lock,hfree]
  unfold addClientToList
  simp only [hlock,ok_bind]
  by_cases hroom : w.clientList.length < maxClients
  · rw [if_pos hroom,if_pos hroom]
    rfl
  · rw [if_neg hroom,if_neg hroom]
    have hc' : World.client (World.unlock { w with clientMutex := true }) p = .ok c :=
      World.client_eq_ok hc
    have hk' : World.sock (World.unlock { w with clientMutex := true }) c.clientFd = .ok k :=
      World.sock_eq_ok hk
    simp only [hc',ok_bind,closeFd,hk',pure_bind]
    rfl

theorem acceptJoin_refines {fd p : Nat} {old : ClientInfo} {junk : Bytes} {oracle : Oracle}
    {rest : List AcceptRes} (h : Represents w R A) (hmutex : w.clientMutex = false)
    (hfree : R.mutex = false) (hp : ∀ q ∈ R.members, q ≠ p)
    (hfd : ∀ q ∈ R.members, (R.view q).info.clientFd ≠ fd)
    (ih : ∀ {w : World} {R : Room}, Refines w R → R.mutex = false →
      Holds Crash (acceptNewClients rest w) (fun res => Grows R res.1)) :
    Holds Crash (do
      let w := { w.putSock fd (newSock w oracle) with accepted := w.accepted+1 }.putClient p
        (clientInfoInit old fd (some junk)).1
      let k ← w.sock fd
      let w := w.putSock fd { k with registration := some ⟨⟨true,false,true⟩,p⟩ }
      let (w,r) ← addClientToList w p
      if r = -1 then pure (w,-1) else acceptNewClients rest w)
      (fun res => Grows R res.1) := by
  have hk : World.sock ({ w.putSock fd (newSock w oracle) with
      accepted := w.accepted+1 }.putClient p (clientInfoInit old fd (some junk)).1) fd =
      .ok (newSock w oracle) := World.sock_eq_ok (Heap.get_set_self _ _ _)
  simp only [hk,ok_bind]
  generalize hw₁ : World.putSock ({ w.putSock fd (newSock w oracle) with
      accepted := w.accepted+1 }.putClient p (clientInfoInit old fd (some junk)).1) fd
      { newSock w oracle with registration := some ⟨⟨true,false,true⟩,p⟩ } = w₁
  have hc₁ : w₁.clients.get p = some (clientInfoInit old fd (some junk)).1 := by
    rw [← hw₁]
    exact Heap.get_set_self _ _ _
  have hk₁ : w₁.socks.get fd =
      some { newSock w oracle with registration := some ⟨⟨true,false,true⟩,p⟩ } := by
    rw [← hw₁]
    exact Heap.get_set_self _ _ _
  have hadd := addClientToList_eq (by rw [← hw₁]; exact hmutex) hc₁ hk₁
  rw [hadd,ok_bind]
  have hclients : ∀ q, w₁.clients.get q =
      if q = p then some (clientInfoInit old fd (some junk)).1 else w.clients.get q := by
    rw [← hw₁]
    exact fun q => rfl
  have hsocks : ∀ f, w₁.socks.get f = if f = fd then
      some { newSock w oracle with registration := some ⟨⟨true,false,true⟩,p⟩ }
      else w.socks.get f := by
    intro f
    by_cases hf : f = fd
    · rw [if_pos hf,hf,hk₁]
    · rw [← hw₁,if_neg hf]
      exact (Heap.get_set_of_ne _ _ hf).trans (Heap.get_set_of_ne _ _ hf)
  have hlist : w₁.clientList = w.clientList := by
    rw [← hw₁]
    rfl
  by_cases hroom : w₁.clientList.length < maxClients
  · simp only [hroom,if_true]
    have hjoin := join_refines h
      ⟨(clientInfoInit old fd (some junk)).1,
        { newSock w oracle with registration := some ⟨⟨true,false,true⟩,p⟩ },[]⟩
      { w₁ with clientMutex := false, clientList := w₁.clientList ++ [p] } hp hfd rfl rfl rfl rfl
      (by rw [← h.members,← hlist]; exact hroom) hclients hsocks (by rw [← hw₁]; rfl)
      (by rw [← hw₁]; rfl) hmutex.symm (by rw [← hw₁]; rfl) (by rw [← hw₁]; rfl)
      (by rw [← hw₁]; rfl) (by rw [← hw₁]; rfl)
    have hrest := ih ⟨_,hjoin⟩ hfree
    refine hrest.mono (fun res hres => hres.after (.join (fun hmem => hp p hmem rfl) ?_) ?_)
    · refine ⟨old,fd,junk,oracle,?_⟩
      simp [newSock,h.broadcasts,h.accepted]
    · exact fun q hq => by simp [hq]
  · simp only [hroom,if_false,if_true]
    refine Grows.refuse ⟨A,h.outside 1 ?_ ?_ ?_ ?_ ?_ hmutex.symm ?_ ?_ ?_ ?_⟩ hfree
    · intro q hq
      have hq' := hclients q
      rw [if_neg (hp q hq)] at hq'
      exact (Heap.get_free_of_ne _ (hp q hq)).trans hq'
    · intro q hq
      have hq' := hsocks (R.view q).info.clientFd
      rw [if_neg (hfd q hq)] at hq'
      exact (Heap.get_free_of_ne _ (hfd q hq)).trans hq'
    · rw [← hw₁]
      rfl
    · intro f k r hk hr
      by_cases hf : f = fd
      · subst hf
        have hk' : (w₁.socks.free f).get f = some k := hk
        rw [Heap.get_free_self] at hk'
        cases hk'
      · have hk' : (w₁.socks.free fd).get f = some k := hk
        rw [Heap.get_free_of_ne _ hf,hsocks,if_neg hf] at hk'
        exact ⟨k,hk',hr⟩
    all_goals
      rw [← hw₁]
      rfl

theorem acceptNewClients_refines (l : List AcceptRes) (h : Refines w R)
    (hfree : R.mutex = false) :
    Holds Crash (acceptNewClients l w) (fun res => Grows R res.1) := by
  induction l generalizing w R with
  | nil => exact Grows.refl h hfree
  | cons r rest ih =>
    cases r with
    | wouldBlock => exact Grows.refl h hfree
    | fails => exact Grows.refl h hfree
    | conn i =>
      obtain ⟨A,h⟩ := h
      have hfd : ∀ q ∈ R.members, (R.view q).info.clientFd ≠ w.socks.fresh i.fd :=
        fun q hq => h.fd_ne_fresh hq i.fd
      have hstray := strayed_sock h (k := newSock w i.oracle) rfl hfd
      unfold acceptNewClients
      simp only
      by_cases hfcntl : i.fcntlOk = false
      · rw [if_pos hfcntl]
        exact Grows.refuse ⟨A,hstray⟩ hfree
      · rw [if_neg hfcntl]
        cases i.info with
        | none => exact .inl rfl
        | some mem =>
          obtain ⟨hint,old⟩ := mem
          have hp : ∀ q ∈ R.members, q ≠ w.clients.fresh hint :=
            fun q hq => h.client_ne_fresh hq hint
          simp only
          cases hblock : i.block with
          | none => exact Grows.refuse ⟨A,strayed_client hstray _ hp⟩ hfree
          | some junk =>
            have hinit : (clientInfoInit old (w.socks.fresh i.fd) (some junk)).2 = 0 := rfl
            have hzero : ¬ (0 : Int) = -1 := by decide
            simp only [hinit,hzero,if_false]
            by_cases hadd : i.addOk = false
            · rw [if_pos hadd]
              exact Grows.refuse ⟨A,strayed_client hstray _ hp⟩ hfree
            · rw [if_neg hadd]
              have hmutex := h.mutex.trans hfree
              exact acceptJoin_refines h hmutex hfree hp hfd ih

end Accepting
end ChatServer
