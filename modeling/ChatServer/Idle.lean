import ChatServer.Isolation
import ChatServer.LoopRefinement

/-! Between two steps of the server every open client has a reader that waits
for bytes. -/
set_option autoImplicit false

namespace ChatServer
open ByteString Memory Execution

def World.All (P : ClientInfo → Prop) (w : World) : Prop :=
  ∀ p ∈ w.clientList, ∀ c, w.clients.get p = some c → P c

/-- The reader of every open client that is listed is suspended. -/
def World.Idle (w : World) : Prop :=
  ∀ p ∈ w.clientList, ∀ c, w.clients.get p = some c → c.closed = false → Suspended c

theorem Untouched.suspended {c c' : ClientInfo} (h : Untouched c c') (hs : Suspended c) :
    Suspended c' := by
  obtain ⟨hreading,-⟩ := h
  simp only [ClientInfo.reading,Reading.mk.injEq] at hreading
  obtain ⟨hstate,-,-,hexpected,-,-,-,hread,-⟩ := hreading
  intro hp
  have hlt := hs (hstate.symm.trans hp)
  omega

theorem Untouched.open {c c' : ClientInfo} (h : Untouched c c') (hopen : c'.closed = false) :
    c.closed = false := by
  cases hc : c.closed with
  | false => rfl
  | true =>
    have hbad := h.2 hc
    rw [hopen] at hbad
    cases hbad

section All
variable {P : ClientInfo → Prop} {w w' : World}

theorem Keeps.all (hP : ∀ c c', Untouched c c' → P c → P c') (h : Keeps none w w')
    (hall : w.All P) : w'.All P := by
  intro p hp c' hc'
  obtain ⟨c,hc,hu⟩ := h.records p c' hc'
  exact hP c c' (hu (by simp)) (hall p (h.list p hp) c hc)

theorem Keeps.all_but {p : Nat} (hP : ∀ c c', Untouched c c' → P c → P c')
    (h : Keeps (some p) w w') (hall : w.All P) (hp : ∀ c, w'.clients.get p = some c → P c) :
    w'.All P := by
  intro q hq c' hc'
  by_cases hqp : q = p
  · subst hqp
    exact hp c' hc'
  · obtain ⟨c,hc,hu⟩ := h.records q c' hc'
    exact hP c c' (hu (by simpa using hqp)) (hall q (h.list q hq) c hc)

end All

theorem Untouched.idle (c c' : ClientInfo) (h : Untouched c c')
    (hidle : c.closed = false → Suspended c) (hopen : c'.closed = false) : Suspended c' :=
  h.suspended (hidle (h.open hopen))

theorem Keeps.idle {w w' : World} (h : Keeps none w w') (hidle : w.Idle) : w'.Idle :=
  h.all Untouched.idle hidle

section Reading
variable (p : Nat)

theorem World.putClient_keeps {w : World} {c : ClientInfo} (hc : w.clients.get p = some c)
    (c' : ClientInfo) : Keeps (some p) w (w.putClient p c') :=
  Keeps.put hc rfl rfl (fun hne => absurd rfl hne)

theorem World.put_keeps {w : World} {c : ClientInfo} (hc : w.client p = .ok c)
    (c' : ClientInfo) (k' : Sock) : Keeps (some p) w (w.put p c' k') :=
  (World.putClient_keeps p (client_eq_some hc) c').trans (.of_alike ⟨rfl,rfl⟩)

theorem served_keeps {w w' : World} {copy : Option Bytes} {r : Int}
    (h : processPayload w p copy = .ok (w',r)) : Keeps (some p) w w' := by
  rcases (processPayload_keeps w p copy).of_ok h with hkeeps | ⟨c,c',hc,-,-,heq⟩
  · exact hkeeps.weaken
  · cases heq
    exact World.putClient_keeps p hc _

theorem Iterates.keeps {w w' : World} (h : Iterates p w w') : Keeps (some p) w w' := by
  cases h with
  | again hc _ _ => exact World.put_keeps p hc _ _
  | answered hc _ _ hpayload _ hnote hc₂ _ =>
    have hserved := (World.put_keeps p hc _ _).trans (served_keeps p hpayload)
    have hnoted := hserved.trans (.of_alike ((note_alike _ p _).of_ok hnote))
    exact hnoted.trans (World.putClient_keeps p (client_eq_some hc₂) _)

theorem Concludes.keeps {w w' : World} {r : Int} (h : Concludes p w w' r) :
    Keeps (some p) w w' := by
  cases h with
  | turn hc _ _ => exact World.put_keeps p hc _ _
  | refused hc _ _ hpayload hnote =>
    have hserved := (World.put_keeps p hc _ _).trans (served_keeps p hpayload)
    exact hserved.trans (.of_alike ((note_alike _ p _).of_ok hnote))

theorem handleClientReadLoop_keeps (fuel : Nat) (w : World) :
    Always (handleClientReadLoop fuel w p) (fun res => Keeps (some p) w res.1) := by
  refine Always.intro (fun res hloop => ?_)
  exact handleClientReadLoop_rule (I := fun u => Keeps (some p) w u)
    (Q := fun u _ => Keeps (some p) w u) (fun _ _ h hi => h.trans hi.keeps)
    (fun _ _ _ h hi => h.trans hi.keeps) (.refl w) hloop

theorem handleClientRead_keeps (w : World) :
    Always (handleClientRead w p) (fun res => Keeps (some p) w res.1) := by
  unfold handleClientRead
  refine (Always.trivial _).bind (fun c _ => ?_)
  refine (Always.trivial _).bind (fun k _ => ?_)
  refine (handleClientReadLoop_keeps p _ w).bind ?_
  rintro ⟨w₁,r⟩ h₁
  refine (note_alike w₁ p _).bind (fun w₂ h₂ => ?_)
  exact h₁.trans (.of_alike h₂)

theorem Iterates.fits {w w' : World} (h : Iterates p w w')
    (hfits : ∀ c, w.clients.get p = some c → Fits c) :
    ∀ c, w'.clients.get p = some c → Fits c := by
  intro c hc'
  cases h with
  | again hc _ hturn =>
    obtain rfl := Option.some.inj ((Heap.get_set_self _ _ _).symm.trans hc')
    exact (readTurn_suspended (hfits _ (client_eq_some hc)) hturn).1
  | answered _ _ _ _ _ _ _ hfinish =>
    obtain rfl := Option.some.inj ((Heap.get_set_self _ _ _).symm.trans hc')
    exact (suspended_header (finishMessage_state hfinish)).fits

theorem Concludes.suspended {w w' : World} {r : Int} (h : Concludes p w w' r)
    (hfits : ∀ c, w.clients.get p = some c → Fits c) :
    r = -1 ∨ (r = 0 ∧ ∀ c, w'.clients.get p = some c → Suspended c) := by
  cases h with
  | turn hc _ hturn =>
    obtain ⟨hidle,hr⟩ := (readTurn_suspended (hfits _ (client_eq_some hc)) hturn).2 r rfl
    rcases hr with hneg | hzero
    · exact .inl hneg
    · refine .inr ⟨hzero,fun c hc' => ?_⟩
      obtain rfl := Option.some.inj ((Heap.get_set_self _ _ _).symm.trans hc')
      exact hidle
  | refused => exact .inl rfl

theorem handleClientReadLoop_suspended (fuel : Nat) (w : World)
    (hfits : ∀ c, w.clients.get p = some c → Fits c) :
    Always (handleClientReadLoop fuel w p) (fun res =>
      res.2 = -1 ∨ (res.2 = 0 ∧ ∀ c, res.1.clients.get p = some c → Suspended c)) := by
  refine Always.intro (fun res hloop => ?_)
  exact handleClientReadLoop_rule (I := fun u => ∀ c, u.clients.get p = some c → Fits c)
    (Q := fun u r => r = -1 ∨ (r = 0 ∧ ∀ c, u.clients.get p = some c → Suspended c))
    (fun _ _ h hi => hi.fits p h) (fun _ _ _ h hi => hi.suspended p h) hfits hloop

theorem handleClientRead_suspended {w : World}
    (hidle : ∀ c, w.clients.get p = some c → Suspended c) :
    Always (handleClientRead w p) (fun res =>
      res.2 = -1 ∨ (res.2 = 0 ∧ ∀ c, res.1.clients.get p = some c → Suspended c)) := by
  unfold handleClientRead
  refine (Always.trivial _).bind (fun c _ => ?_)
  refine (Always.trivial _).bind (fun k _ => ?_)
  refine (handleClientReadLoop_suspended p _ w (fun c hc => (hidle c hc).fits)).bind ?_
  rintro ⟨w₁,r⟩ h₁
  refine (note_alike w₁ p _).bind (fun w₂ h₂ => ?_)
  rcases h₁ with hneg | ⟨hzero,hsusp⟩
  · exact .inl hneg
  · exact .inr ⟨hzero,fun c hc => hsusp c (by rw [← h₂.clients]; exact hc)⟩

end Reading

section Loop
variable {w : World}

theorem markClosed_closed (p : Nat) :
    Always (markClosed w p) (fun w' => ∀ c, w'.clients.get p = some c → c.closed = true) := by
  unfold markClosed
  refine (client_got w p).bind (fun c hc => ?_)
  refine (note_alike _ _ _).mono (fun w' hw' c' hc' => ?_)
  rw [hw'.clients] at hc'
  have hself : (w.clients.set p { c with closed := true }).get p = some c' := hc'
  rw [Heap.get_set_self] at hself
  cases hself
  rfl

/-- What the pieces of the event loop's body for one client keep, it keeps. -/
theorem dispatch_always {I : World → Prop} {p : Nat} (h : I w)
    (hhang : ∀ w', Alike w w' → Always (markClosed w' p) I)
    (hread : ∀ c, w.clients.get p = some c → c.closed = false →
      Always (handleClientRead w p) (fun res =>
        (res.2 < 0 → Always (markClosed res.1 p) I) ∧ (¬ res.2 < 0 → I res.1)))
    (hwrite : ∀ w', I w' → Always (clientTryWrite w' p) (fun res =>
      Always (markClosed res.1 p) I ∧ I res.1)) (bits : EventBits) (accepts : List AcceptRes) :
    Always (dispatch w ⟨.ptr p,bits⟩ accepts) I := by
  unfold dispatch
  refine (client_got w p).bind (fun c hc => ?_)
  split
  · exact h
  · rename_i hopen
    split
    · unfold noteHangup
      refine Holds.bind (P := Alike w) ?_ hhang
      refine (Always.trivial _).bind (fun c _ => ?_)
      refine (Always.trivial _).bind (fun k _ => ?_)
      exact note_alike _ _ _
    · have hout : ∀ w', I w' → Always (if bits.epollout = true then do
          let res ← clientTryWrite w' p
          if res.2 = -1 then markClosed res.1 p else pure res.1
        else pure w') I := by
        intro w' h'
        split
        · refine (hwrite w' h').bind ?_
          rintro ⟨w₁,r⟩ ⟨hclose,hkeep⟩
          simp only
          split
          · exact hclose
          · exact hkeep
        · exact h'
      by_cases hin : bits.epollin = true
      · simp only [hin,if_true]
        refine (hread c hc (by simpa using hopen)).bind ?_
        rintro ⟨w₁,r⟩ ⟨hclose,hkeep⟩
        simp only at hclose hkeep ⊢
        split
        · rename_i hneg
          exact hclose hneg
        · rename_i hnonneg
          exact hout w₁ (hkeep hnonneg)
      · simp only [hin,pure_bind]
        exact hout w h

theorem dispatch_ptr_idle (hidle : w.Idle) {p : Nat} (hp : p ∈ w.clientList) (bits : EventBits)
    (accepts : List AcceptRes) : Always (dispatch w ⟨.ptr p,bits⟩ accepts) World.Idle := by
  have hclose : ∀ w₁ : World, w₁.Idle → Always (markClosed w₁ p) World.Idle :=
    fun w₁ h₁ => (markClosed_keeps w₁ p).mono (fun w₂ h₂ => h₂.idle h₁)
  refine dispatch_always hidle ?_ ?_ ?_ bits accepts
  · intro w₁ h₁
    have hsame : Keeps none w w₁ := .of_alike h₁
    exact hclose w₁ (hsame.idle hidle)
  · intro c hc hopen
    have hsusp : ∀ i, w.clients.get p = some i → Suspended i := by
      intro i hi
      rw [hc] at hi
      cases hi
      exact hidle p hp c hc hopen
    refine Always.intro (fun res hcall => ⟨fun _ => ?_,fun hnonneg => ?_⟩)
    · have hkeeps := (handleClientRead_keeps p w).of_ok hcall
      refine Always.intro (fun w₂ hmark => ?_)
      have h₂ := (markClosed_keeps res.1 p).of_ok hmark
      have hclosed := (markClosed_closed (w := res.1) p).of_ok hmark
      refine (hkeeps.trans h₂.weaken).all_but Untouched.idle hidle (fun i hi hopen' => ?_)
      rw [hclosed i hi] at hopen'
      cases hopen'
    · have hkeeps := (handleClientRead_keeps p w).of_ok hcall
      refine hkeeps.all_but Untouched.idle hidle (fun i hi _ => ?_)
      rcases (handleClientRead_suspended p hsusp).of_ok hcall with hneg | ⟨-,hs⟩
      · omega
      · exact hs i hi
  · intro w₁ h₁
    refine (clientTryWrite_keeps w₁ p).mono (fun res hkept => ?_)
    exact ⟨hclose res.1 (hkept.idle h₁),hkept.idle h₁⟩

theorem closeFd_alike (w : World) (fd : Nat) :
    Always (closeFd w fd) (fun res => Alike w res.1) := by
  unfold closeFd
  refine (Always.trivial _).bind (fun k _ => ?_)
  exact ⟨rfl,rfl⟩

theorem Keeps.free {w w' : World} {p : Nat} (h : w'.clients = w.clients.free p)
    (hlist : ∀ q ∈ w'.clientList, q ∈ w.clientList) : Keeps none w w' := by
  refine ⟨hlist,?_⟩
  intro q c hc
  rw [h] at hc
  by_cases hqp : q = p
  · subst hqp
    rw [Heap.get_free_self] at hc
    cases hc
  · rw [Heap.get_free_of_ne _ hqp] at hc
    exact ⟨c,hc,fun _ => .refl c⟩

def World.Live (w : World) : Prop := ∀ p ∈ w.clientList, w.clients.get p ≠ none

section Joining
variable {P : ClientInfo → Prop}

theorem unlisted_all {w' : World} {q : Nat} {c : Option ClientInfo} (hall : w.All P)
    (hlive : w.Live) (hfresh : w.clients.get q = none)
    (hclients : ∀ t, w'.clients.get t = if t = q then c else w.clients.get t)
    (hlist : w'.clientList = w.clientList) : w'.All P ∧ w'.Live := by
  have hne : ∀ t ∈ w'.clientList, w'.clients.get t = w.clients.get t := by
    intro t ht
    rw [hlist] at ht
    rw [hclients,if_neg]
    intro htq
    subst htq
    exact hlive t ht hfresh
  constructor
  · intro t ht i hi
    rw [hne t ht] at hi
    rw [hlist] at ht
    exact hall t ht i hi
  · intro t ht
    rw [hne t ht]
    rw [hlist] at ht
    exact hlive t ht

theorem addClientToList_all {w : World} {p : Nat} {c : ClientInfo}
    (hP : ∀ c c', Untouched c c' → P c → P c') (hall : w.All P) (hlive : w.Live)
    (hc : w.clients.get p = some c) (hnew : P c) :
    Always (addClientToList w p) (fun res => res.1.All P ∧ (res.2 ≠ -1 → res.1.Live)) := by
  unfold addClientToList World.lock
  split
  · exact True.intro
  · simp only [ok_bind]
    split
    · refine ⟨?_,fun _ => ?_⟩
      · intro q hq i hi
        rcases List.mem_append.mp hq with hold | hlast
        · exact hall q hold i hi
        · have hqp : q = p := by simpa using hlast
          subst hqp
          have hi' : w.clients.get q = some i := hi
          rw [hc] at hi'
          cases hi'
          exact hnew
      · intro q hq
        rcases List.mem_append.mp hq with hold | hnew
        · exact hlive q hold
        · have hqp : q = p := by simpa using hnew
          subst hqp
          intro hnone
          have hnone' : w.clients.get q = none := hnone
          rw [hc] at hnone'
          cases hnone'
    · refine (Always.trivial _).bind (fun i _ => ?_)
      refine (closeFd_alike _ _).bind ?_
      rintro ⟨w₁,r⟩ h₁
      refine ⟨?_,fun hr => absurd rfl hr⟩
      have hclients : w₁.clients = w.clients := h₁.clients
      have hlist : w₁.clientList = w.clientList := h₁.list
      have hfree : Keeps none w { w₁ with clients := w₁.clients.free p,
                                          orphans := w₁.orphans ++ i.partialMsg.toList } :=
        Keeps.free (p := p) (by simp only [hclients]) (fun q hq => by rwa [hlist] at hq)
      exact hfree.all hP hall

theorem acceptNewClients_all (hP : ∀ c c', Untouched c c' → P c → P c')
    (accepts : List AcceptRes)
    (hnew : ∀ i, .conn i ∈ accepts → i.fcntlOk = true → i.addOk = true →
      ∀ hint old junk, i.info = some (hint,old) → i.block = some junk →
        ∀ fd, P (clientInfoInit old fd (some junk)).1)
    (w : World) (hall : w.All P) (hlive : w.Live) :
    Always (acceptNewClients accepts w) (fun res => res.1.All P) := by
  induction accepts generalizing w with
  | nil => exact hall
  | cons a rest ih =>
    cases a with
    | wouldBlock => exact hall
    | fails => exact hall
    | conn i =>
      unfold acceptNewClients
      simp only
      split
      · exact hall
      · rename_i hfcntl
        split
        · exact True.intro
        · rename_i hint old hinfo
          have hfresh := w.clients.get_fresh hint
          have hput : ∀ (u : World) (c : ClientInfo),
              u.clients = w.clients.set (w.clients.fresh hint) c →
              u.clientList = w.clientList → u.All P ∧ u.Live := by
            intro u c hu hlist
            refine unlisted_all (c := some c) hall hlive hfresh ?_ hlist
            intro t
            rw [hu,Heap.get_set]
          split
          · refine Holds.pure (And.left (hput _ (clientInfoInit old (w.socks.fresh i.fd)
              i.block).1 ?_ ?_)) <;> rfl
          · rename_i hinit
            split
            · refine Holds.pure (And.left (hput _ (clientInfoInit old (w.socks.fresh i.fd)
                i.block).1 ?_ ?_)) <;> rfl
            · rename_i hctl
              refine (Always.trivial _).bind (fun k _ => ?_)
              cases hblock : i.block with
              | none => exact absurd (by rw [hblock]; rfl) hinit
              | some junk =>
                have hadd : ∀ u : World, u.clients = w.clients.set (w.clients.fresh hint)
                    (clientInfoInit old (w.socks.fresh i.fd) (some junk)).1 →
                    u.clientList = w.clientList →
                    Always (addClientToList u (w.clients.fresh hint))
                      (fun res => res.1.All P ∧ (res.2 ≠ -1 → res.1.Live)) := by
                  intro u hu hlist
                  obtain ⟨hall',hlive'⟩ := hput u _ hu hlist
                  exact addClientToList_all hP hall' hlive' (by rw [hu,Heap.get_set_self])
                    (hnew i (by simp) (by simpa using hfcntl) (by simpa using hctl) hint old junk
                      hinfo hblock _)
                refine Holds.bind (hadd _ ?_ ?_) ?_
                · rfl
                · rfl
                · rintro ⟨w₁,r⟩ ⟨hall₁,hlive₁⟩
                  simp only
                  split
                  · exact hall₁
                  · rename_i hr
                    exact ih (fun i hi => hnew i (List.mem_cons_of_mem _ hi)) w₁ hall₁ (hlive₁ hr)

theorem acceptNewClients_idle (accepts : List AcceptRes) (w : World) (hidle : w.Idle)
    (hlive : w.Live) : Always (acceptNewClients accepts w) (fun res => res.1.Idle) :=
  acceptNewClients_all Untouched.idle accepts
    (fun _ _ _ _ _ _ _ _ _ _ _ => suspended_header rfl) w hidle hlive

end Joining

theorem swapRemove_mem {l : List Nat} {i q : Nat} (h : q ∈ swapRemove l i) : q ∈ l := by
  have hset := List.dropLast_subset _ h
  rcases List.mem_or_eq_of_mem_set hset with hmem | heq
  · exact hmem
  · cases l with
    | nil => simp [swapRemove] at h
    | cons a l =>
      rw [heq,List.getLastD_eq_getLast?,List.getLast?_eq_some_getLast (by simp)]
      exact List.getLast_mem (by simp)

section Reaping
variable (w : World) (p : Nat)

theorem freeQueue_frame (fuel : Nat) (w : World) :
    Always (freeQueue fuel w p) (fun w' => Keeps none w w' ∧ w'.socks = w.socks) := by
  induction fuel generalizing w with
  | zero => exact True.intro
  | succ fuel ih =>
    unfold freeQueue
    refine (client_got w p).bind (fun c hc => ?_)
    split
    · exact ⟨Keeps.refl w,rfl⟩
    · refine (Always.trivial _).bind (fun m _ => ?_)
      refine (ih _).mono (fun w' h => ⟨Keeps.trans ?_ h.1,h.2⟩)
      exact Keeps.put hc rfl rfl (fun _ => ⟨rfl,id⟩)

theorem freeClientQueue_frame :
    Always (freeClientQueue w p) (fun w' => Keeps none w w' ∧ w'.socks = w.socks) := by
  unfold freeClientQueue
  refine (Always.trivial _).bind (fun c _ => ?_)
  exact freeQueue_frame p _ w

theorem freeClientQueue_keeps : Always (freeClientQueue w p) (Keeps none w) :=
  (freeClientQueue_frame w p).mono (fun _ h => h.1)

theorem epollCtlDel_alike (fd : Nat) : Always (epollCtlDel w fd) (Alike w) := by
  unfold epollCtlDel
  refine (Always.trivial _).bind (fun k _ => ?_)
  exact ⟨rfl,rfl⟩

theorem cleanupClient_keeps :
    Always (cleanupClient w p) (fun res => Keeps none w res.1) := by
  unfold cleanupClient
  refine (Always.trivial _).bind (fun c _ => ?_)
  refine (closeFd_alike w _).bind ?_
  rintro ⟨w₁,r⟩ h₁
  simp only
  split
  · exact .of_alike h₁
  · have hfree : Keeps none w₁ { w₁ with clients := w₁.clients.free p } :=
      Keeps.free (p := p) rfl (fun q hq => hq)
    exact (Keeps.of_alike h₁).trans hfree

theorem removeClientFromList_keeps :
    Always (removeClientFromList w p) (fun res => Keeps none w res.1) := by
  unfold removeClientFromList World.lock
  split
  · exact True.intro
  · simp only [ok_bind]
    split
    · rename_i i _
      have hswap : Keeps none w ({ w with clientList := swapRemove w.clientList i
                                          clientMutex := true } : World).unlock :=
        ⟨fun q hq => swapRemove_mem hq,fun q c hc => ⟨c,hc,fun _ => .refl c⟩⟩
      refine (cleanupClient_keeps _ p).bind ?_
      rintro ⟨w₁,r⟩ h₁
      simp only
      split <;> exact hswap.trans h₁
    · exact Keeps.of_alike ⟨rfl,rfl⟩

theorem reapClient_keeps : Always (reapClient w p) (Keeps none w) := by
  unfold reapClient
  refine (Always.trivial _).bind (fun c _ => ?_)
  refine (epollCtlDel_alike w c.clientFd).bind (fun w₁ h₁ => ?_)
  refine (freeClientQueue_keeps w₁ p).bind (fun w₂ h₂ => ?_)
  refine (removeClientFromList_keeps w₂ p).bind ?_
  rintro ⟨w₃,r⟩ h₃
  exact ((Keeps.of_alike h₁).trans h₂).trans h₃

theorem reapLoop_keeps (fuel i : Nat) (w : World) :
    Always (reapLoop fuel i w) (Keeps none w) := by
  induction fuel generalizing i w with
  | zero => exact Keeps.refl w
  | succ fuel ih =>
    unfold reapLoop
    split
    · exact Keeps.refl w
    · refine (Always.trivial _).bind (fun c _ => ?_)
      split
      · rename_i q _ _ _
        refine (reapClient_keeps w q).bind (fun w₁ h₁ => ?_)
        exact (ih (i+1) w₁).mono (fun w₂ h₂ => h₁.trans h₂)
      · exact ih (i+1) w

end Reaping
end Loop

end ChatServer
