import ChatServer.RunRefinement

/-! What `accept_new_clients` leaves behind when it returns: descriptors and records
that belong to no listed client. -/
set_option autoImplicit false

namespace ChatServer
open ByteString Memory Execution

def Incoming.joins (i : Incoming) : Bool :=
  i.fcntlOk && i.info.isSome && i.block.isSome && i.addOk

/-- Every call succeeds, and the list has room, up to where accepting ends. -/
def smooth : List AcceptRes → Nat → Bool
  | [],_ => true
  | .wouldBlock :: _,_ => true
  | .fails :: _,_ => true
  | .conn i :: rest,count => i.joins && decide (count < maxClients) && smooth rest (count+1)

/-- Every descriptor that is new and open is the one of a listed client and registered
for it, every new record is listed, and no message block is left without an owner. -/
structure Strandless (w w' : World) : Prop where
  fds : ∀ fd k, w.socks.get fd = none → w'.socks.get fd = some k → ∃ p ∈ w'.clientList, ∃ c r,
    w'.clients.get p = some c ∧ c.clientFd = fd ∧ k.registration = some r ∧ r.ptr = p
  clients : ∀ p, w.clients.get p = none → w'.clients.get p ≠ none → p ∈ w'.clientList
  blocks : w'.orphans = w.orphans

structure Extends (w w' : World) : Prop where
  socks : ∀ fd k, w.socks.get fd = some k → w'.socks.get fd = some k
  clients : ∀ p c, w.clients.get p = some c → w'.clients.get p = some c
  list : ∀ p ∈ w.clientList, p ∈ w'.clientList

theorem Extends.refl (w : World) : Extends w w :=
  ⟨fun _ _ h => h,fun _ _ h => h,fun _ h => h⟩

theorem Extends.trans {w w' w'' : World} (h : Extends w w') (h' : Extends w' w'') :
    Extends w w'' :=
  ⟨fun fd k hk => h'.socks fd k (h.socks fd k hk),fun p c hc => h'.clients p c (h.clients p c hc),
    fun p hp => h'.list p (h.list p hp)⟩

theorem Strandless.refl (w : World) : Strandless w w := by
  refine ⟨fun fd k hnone hsome => ?_,fun p hnone hsome => absurd hnone hsome,rfl⟩
  rw [hnone] at hsome
  cases hsome

theorem Extends.of_fresh {w w' : World} {fd p : Nat} (hfd : w.socks.get fd = none)
    (hp : w.clients.get p = none) (hsocks : ∀ f, f ≠ fd → w'.socks.get f = w.socks.get f)
    (hclients : ∀ q, q ≠ p → w'.clients.get q = w.clients.get q)
    (hlist : ∀ q ∈ w.clientList, q ∈ w'.clientList) : Extends w w' := by
  refine ⟨fun f k hk => ?_,fun q c hc => ?_,hlist⟩
  · rw [hsocks f (fun he => by rw [he,hfd] at hk; cases hk)]
    exact hk
  · rw [hclients q (fun he => by rw [he,hp] at hc; cases hc)]
    exact hc

def World.accepting (w : World) (i : Incoming) : World :=
  { w.putSock (w.socks.fresh i.fd) (newSock w i.oracle) with accepted := w.accepted+1 }

def World.registering (w : World) (i : Incoming) (hint : Nat) (old : ClientInfo) (junk : Bytes) :
    World :=
  ((w.accepting i).putClient (w.clients.fresh hint)
    (clientInfoInit old (w.socks.fresh i.fd) (some junk)).1).putSock (w.socks.fresh i.fd)
      { newSock w i.oracle with registration := some ⟨⟨true,false,true⟩,w.clients.fresh hint⟩ }

def World.joined (w : World) (i : Incoming) (hint : Nat) (old : ClientInfo) (junk : Bytes) :
    World :=
  { w.registering i hint old junk with
    clientMutex := false
    clientList := w.clientList ++ [w.clients.fresh hint] }

section Registering
variable (w : World) (i : Incoming) (hint : Nat) (old : ClientInfo) (junk : Bytes)

theorem registering_sock : (w.registering i hint old junk).socks.get (w.socks.fresh i.fd) =
    some { newSock w i.oracle with
      registration := some ⟨⟨true,false,true⟩,w.clients.fresh hint⟩ } :=
  Heap.get_set_self _ _ _

theorem registering_client : (w.registering i hint old junk).clients.get (w.clients.fresh hint) =
    some (clientInfoInit old (w.socks.fresh i.fd) (some junk)).1 :=
  Heap.get_set_self _ _ _

theorem registering_extends {w' : World}
    (hsocks : ∀ f, f ≠ w.socks.fresh i.fd →
      w'.socks.get f = (w.registering i hint old junk).socks.get f)
    (hclients : ∀ q, q ≠ w.clients.fresh hint →
      w'.clients.get q = (w.registering i hint old junk).clients.get q)
    (hlist : ∀ q ∈ w.clientList, q ∈ w'.clientList) : Extends w w' := by
  refine .of_fresh (w.socks.get_fresh i.fd) (w.clients.get_fresh hint) (fun f hf => ?_)
    (fun q hq => ?_) hlist
  · rw [hsocks f hf]
    exact (Heap.get_set_of_ne _ _ hf).trans (Heap.get_set_of_ne _ _ hf)
  · rw [hclients q hq]
    exact Heap.get_set_of_ne _ _ hq

theorem joined_extends : Extends w (w.joined i hint old junk) :=
  registering_extends w i hint old junk (fun _ _ => rfl) (fun _ _ => rfl)
    (fun _ hq => List.mem_append_left _ hq)

end Registering

section Turn
variable {w : World} {i : Incoming} {hint : Nat} {old : ClientInfo} {junk : Bytes}

theorem accept_joined (rest : List AcceptRes) (hmutex : w.clientMutex = false)
    (hfcntl : i.fcntlOk = true) (hinfo : i.info = some (hint,old)) (hblock : i.block = some junk)
    (hadd : i.addOk = true) : acceptNewClients (.conn i :: rest) w =
      if w.clientList.length < maxClients then
        acceptNewClients rest (w.joined i hint old junk)
      else .ok ({ w.registering i hint old junk with
        clientMutex := false
        socks := (w.registering i hint old junk).socks.free (w.socks.fresh i.fd)
        clients := (w.registering i hint old junk).clients.free (w.clients.fresh hint)
        orphans := w.orphans ++ [(junk ++ List.replicate bufSize 0).take bufSize] },-1) := by
  have hk : ((w.accepting i).putClient (w.clients.fresh hint)
      (clientInfoInit old (w.socks.fresh i.fd) (some junk)).1).sock (w.socks.fresh i.fd) =
        .ok (newSock w i.oracle) :=
    World.sock_eq_ok (Heap.get_set_self _ _ _)
  have hturn : acceptNewClients (.conn i :: rest) w = (do
      let k ← ((w.accepting i).putClient (w.clients.fresh hint)
        (clientInfoInit old (w.socks.fresh i.fd) (some junk)).1).sock (w.socks.fresh i.fd)
      let res ← addClientToList (((w.accepting i).putClient (w.clients.fresh hint)
        (clientInfoInit old (w.socks.fresh i.fd) (some junk)).1).putSock (w.socks.fresh i.fd)
          { k with registration := some ⟨⟨true,false,true⟩,w.clients.fresh hint⟩ })
            (w.clients.fresh hint)
      if res.2 = -1 then pure (res.1,-1) else acceptNewClients rest res.1) := by
    conv => lhs; unfold acceptNewClients
    simp only [hfcntl,hinfo,hblock,hadd,reduceCtorEq,if_false]
    rfl
  have hcall := addClientToList_eq (w := w.registering i hint old junk) hmutex
    (registering_client w i hint old junk) (registering_sock w i hint old junk)
  have hlen : (w.registering i hint old junk).clientList.length = w.clientList.length := rfl
  rw [hlen] at hcall
  rw [hturn,hk,ok_bind]
  refine (congrArg (fun x => x >>= fun res =>
    if res.2 = -1 then pure (res.1,-1) else acceptNewClients rest res.1) hcall).trans ?_
  rw [ok_bind]
  by_cases hroom : w.clientList.length < maxClients
  · rw [if_pos hroom,if_pos hroom]
    rfl
  · rw [if_neg hroom,if_neg hroom]
    rfl

theorem accept_fcntl (rest : List AcceptRes) (hfcntl : i.fcntlOk = false) :
    acceptNewClients (.conn i :: rest) w = .ok (w.accepting i,-1) := by
  conv => lhs; unfold acceptNewClients
  simp only [hfcntl,if_true]
  rfl

theorem accept_noInfo (rest : List AcceptRes) (hfcntl : i.fcntlOk = true) (hinfo : i.info = none) :
    acceptNewClients (.conn i :: rest) w = .error .nullPointer := by
  conv => lhs; unfold acceptNewClients
  simp only [hfcntl,hinfo,reduceCtorEq,if_false]

/-- Neither a block that could not be allocated nor a failing epoll_ctl undoes what was
done before. -/
theorem accept_unregistered (rest : List AcceptRes) (hfcntl : i.fcntlOk = true)
    (hinfo : i.info = some (hint,old)) (hfail : i.block = none ∨ i.addOk = false) :
    acceptNewClients (.conn i :: rest) w = .ok ((w.accepting i).putClient (w.clients.fresh hint)
      (clientInfoInit old (w.socks.fresh i.fd) i.block).1,-1) := by
  conv => lhs; unfold acceptNewClients
  simp only [hfcntl,hinfo,reduceCtorEq,if_false]
  cases hblock : i.block with
  | none =>
    rw [if_pos (by simp [clientInfoInit])]
    rfl
  | some junk =>
    have hadd : i.addOk = false := hfail.resolve_left (by rw [hblock]; simp)
    rw [if_neg (by simp [clientInfoInit]),if_pos hadd]
    rfl

theorem stranded_sock {w' : World} (hfd : w.socks.get (w.socks.fresh i.fd) = none)
    (hk : w'.socks.get (w.socks.fresh i.fd) = some (newSock w i.oracle)) : ¬ Strandless w w' := by
  intro h
  obtain ⟨p,-,c,r,-,-,hreg,-⟩ := h.fds _ _ hfd hk
  cases hreg

theorem joined_strandless {w' : World} (h : Extends (w.joined i hint old junk) w') :
    Strandless w w' ↔ Strandless (w.joined i hint old junk) w' := by
  have hfdNone : ∀ fd, (w.joined i hint old junk).socks.get fd = none → w.socks.get fd = none := by
    intro fd hnone
    cases hk : w.socks.get fd with
    | none => rfl
    | some k => rw [(joined_extends w i hint old junk).socks fd k hk] at hnone; cases hnone
  have hpNone : ∀ p, (w.joined i hint old junk).clients.get p = none → w.clients.get p = none := by
    intro p hnone
    cases hc : w.clients.get p with
    | none => rfl
    | some c => rw [(joined_extends w i hint old junk).clients p c hc] at hnone; cases hnone
  have hsock := h.socks _ _ (registering_sock w i hint old junk)
  have hclient := h.clients _ _ (registering_client w i hint old junk)
  have hlisted : w.clients.fresh hint ∈ w'.clientList :=
    h.list _ (List.mem_append_right _ (List.mem_singleton.mpr rfl))
  constructor
  · intro hw
    exact ⟨fun fd k hnone => hw.fds fd k (hfdNone fd hnone),
      fun p hnone => hw.clients p (hpNone p hnone),hw.blocks⟩
  · intro hj
    refine ⟨fun fd k hnone hk => ?_,fun p hnone hc => ?_,hj.blocks⟩
    · by_cases hfd : fd = w.socks.fresh i.fd
      · rw [hfd,hsock] at hk
        cases hk
        exact ⟨_,hlisted,_,_,hclient,hfd ▸ rfl,rfl,rfl⟩
      · refine hj.fds fd k ?_ hk
        exact ((Heap.get_set_of_ne _ _ hfd).trans (Heap.get_set_of_ne _ _ hfd)).trans hnone
    · by_cases hp : p = w.clients.fresh hint
      · rw [hp]
        exact hlisted
      · exact hj.clients p ((Heap.get_set_of_ne _ _ hp).trans hnone) hc

end Turn

theorem acceptNewClients_extends (accepts : List AcceptRes) {w : World}
    (hmutex : w.clientMutex = false) :
    Always (acceptNewClients accepts w) (fun res => Extends w res.1) := by
  induction accepts generalizing w with
  | nil => exact .refl w
  | cons a rest ih =>
    cases a with
    | wouldBlock => exact .refl w
    | fails => exact .refl w
    | conn i =>
      have haccepting : ∀ c hint, Extends w ((w.accepting i).putClient (w.clients.fresh hint) c) :=
        fun c hint => .of_fresh (w.socks.get_fresh i.fd) (w.clients.get_fresh hint)
          (fun f hf => Heap.get_set_of_ne _ _ hf) (fun q hq => Heap.get_set_of_ne _ _ hq)
          (fun _ hq => hq)
      cases hfcntl : i.fcntlOk with
      | false =>
        rw [accept_fcntl rest hfcntl]
        exact .of_fresh (w.socks.get_fresh i.fd) (w.clients.get_fresh 0)
          (fun f hf => Heap.get_set_of_ne _ _ hf) (fun _ _ => rfl) (fun _ hq => hq)
      | true =>
        cases hinfo : i.info with
        | none =>
          rw [accept_noInfo rest hfcntl hinfo]
          exact True.intro
        | some info =>
          obtain ⟨hint,old⟩ := info
          by_cases hfail : i.block = none ∨ i.addOk = false
          · rw [accept_unregistered rest hfcntl hinfo hfail]
            exact haccepting _ hint
          · obtain ⟨hblock,hadd⟩ := not_or.mp hfail
            obtain ⟨junk,hb⟩ := Option.ne_none_iff_exists'.mp hblock
            rw [accept_joined rest hmutex hfcntl hinfo hb (by simpa using hadd)]
            split
            · exact (ih rfl).mono (fun _ hrest => (joined_extends w i hint old junk).trans hrest)
            · exact registering_extends w i hint old junk
                (fun f hf => Heap.get_free_of_ne _ hf) (fun q hq => Heap.get_free_of_ne _ hq)
                (fun _ hq => hq)

/-- Accepting returns and strands nothing exactly when nothing fails for any connection
that is accepted and the list has room for all of them. -/
theorem accepting_strands_iff {w : World} (hmutex : w.clientMutex = false)
    (accepts : List AcceptRes) :
    (∃ w' r, acceptNewClients accepts w = .ok (w',r) ∧ Strandless w w') ↔
      smooth accepts w.clientList.length = true := by
  induction accepts generalizing w with
  | nil => exact iff_of_true ⟨w,0,rfl,.refl w⟩ rfl
  | cons a rest ih =>
    cases a with
    | wouldBlock => exact iff_of_true ⟨w,0,rfl,.refl w⟩ rfl
    | fails => exact iff_of_true ⟨w,-1,rfl,.refl w⟩ rfl
    | conn i =>
      have hfd := w.socks.get_fresh i.fd
      cases hfcntl : i.fcntlOk with
      | false =>
        rw [accept_fcntl rest hfcntl]
        refine iff_of_false ?_ (by simp [smooth,Incoming.joins,hfcntl])
        rintro ⟨w',r,h,hsafe⟩
        cases h
        exact stranded_sock hfd (Heap.get_set_self _ _ _) hsafe
      | true =>
        cases hinfo : i.info with
        | none =>
          rw [accept_noInfo rest hfcntl hinfo]
          refine iff_of_false ?_ (by simp [smooth,Incoming.joins,hinfo])
          rintro ⟨w',r,h,-⟩
          cases h
        | some info =>
          obtain ⟨hint,old⟩ := info
          by_cases hfail : i.block = none ∨ i.addOk = false
          · rw [accept_unregistered rest hfcntl hinfo hfail]
            refine iff_of_false ?_ ?_
            · rintro ⟨w',r,h,hsafe⟩
              cases h
              exact stranded_sock hfd (Heap.get_set_self _ _ _) hsafe
            · rcases hfail with hfail | hfail <;> simp [smooth,Incoming.joins,hfail]
          · obtain ⟨hblock,hadd⟩ := not_or.mp hfail
            obtain ⟨junk,hb⟩ := Option.ne_none_iff_exists'.mp hblock
            have hadd : i.addOk = true := by simpa using hadd
            have hjoins : i.joins = true := by simp [Incoming.joins,hfcntl,hinfo,hb,hadd]
            rw [accept_joined rest hmutex hfcntl hinfo hb hadd]
            simp only [smooth,hjoins,Bool.true_and]
            by_cases hroom : w.clientList.length < maxClients
            · have hcount : (w.joined i hint old junk).clientList.length = w.clientList.length+1 :=
                List.length_append
              rw [if_pos hroom,decide_eq_true hroom,Bool.true_and,← hcount,← ih rfl]
              refine exists_congr (fun w' => exists_congr (fun r => and_congr_right (fun h => ?_)))
              exact joined_strandless ((acceptNewClients_extends rest rfl).of_ok h)
            · rw [if_neg hroom,decide_eq_false hroom]
              refine iff_of_false ?_ (by simp)
              rintro ⟨w',r,h,hsafe⟩
              cases h
              have hblocks := hsafe.blocks
              exact absurd (List.append_right_eq_self.mp hblocks) (by simp)

def Incoming.fifth (addOk : Bool) : Incoming := ⟨5,true,some (1,.blank),some [],addOk,.quiet⟩

/-- Two clients are there, and two connections are pending. -/
theorem accepting_strands_iff_twoPending : ∃ s w r,
    run step Sys.init (Action.connects 1 6 .quiet ++ Action.connects 2 7 .quiet) = .ok s ∧
    s.world.clientList = [1,2] ∧
    acceptNewClients [.conn (.fifth true),.conn (.fifth true),.wouldBlock] s.world = .ok (w,r) ∧
    Strandless s.world w := by
  obtain ⟨s,hrun,c,k,-,-,htest⟩ := reaches_listed
    (show reachesListed (Action.connects 1 6 .quiet ++ Action.connects 2 7 .quiet) 1
      (fun s _ _ => decide (s.world.clientMutex = false ∧ s.world.clientList = [1,2])) = true
      by decide +kernel)
  obtain ⟨hmutex,hlist⟩ := of_decide_eq_true htest
  obtain ⟨w,r,haccept,hsafe⟩ := (accepting_strands_iff hmutex
    [.conn (.fifth true),.conn (.fifth true),.wouldBlock]).mpr (by rw [hlist]; decide)
  exact ⟨s,w,r,hrun,hlist,haccept,hsafe⟩

/-- When epoll_ctl fails, the descriptor stays open and belongs to no client. -/
theorem accepting_strands : ∃ w, acceptNewClients [.conn (.fifth false)] World.init = .ok (w,-1) ∧
    w.clientList = [] ∧ (w.socks.get 5).isSome = true ∧ (w.clients.get 1).isSome = true ∧
    ¬ Strandless World.init w := by
  refine ⟨_,rfl,rfl,rfl,rfl,?_⟩
  exact stranded_sock (i := .fifth false) rfl rfl

end ChatServer
