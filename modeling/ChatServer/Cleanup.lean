import ChatServer.Ledger

/-! The end of `server_loop`: the queues are freed, and the clients are closed from the
last one to the first, as far as the first close that fails. -/
set_option autoImplicit false

namespace ChatServer
open ByteString Memory Execution Relation

section Queues
variable {A : Nat → List Nat}

def Queued (A : Nat → List Nat) (w : World) (p : Nat) : Prop :=
  ∃ c, w.clients.get p = some c ∧ Linked w.packets c.msgQueue.head (A p) ∧ (A p).Nodup ∧
    c.msgQueue.queuedCount = (A p).length

theorem freeClientQueue_ok {w : World} {p : Nat} (h : Queued A w p) :
    ∃ w', freeClientQueue w p = .ok w' ∧ SameRest w w' ∧ w'.socks = w.socks ∧
      (∀ q c, w.clients.get q = some c → ∃ c', w'.clients.get q = some c' ∧
        c'.clientFd = c.clientFd) ∧
      (∀ q, q ≠ p → w'.clients.get q = w.clients.get q) ∧
      ∀ a, w'.packets.get a = if a ∈ A p then none else w.packets.get a := by
  obtain ⟨c,hc,hlink,hnd,hcount⟩ := h
  have hfree := freeQueue_frees (c.msgQueue.queuedCount+1) hc hlink hnd
  unfold freeClientQueue
  simp only [World.client_eq_ok hc,ok_bind]
  cases hrun : freeQueue (c.msgQueue.queuedCount+1) w p with
  | error e =>
    have hshort := hfree.of_error hrun
    omega
  | ok w' =>
    obtain ⟨hsame,hsocks,⟨c',hc',hfd⟩,hothers,hcells⟩ := hfree.of_ok hrun
    refine ⟨w',rfl,hsame,hsocks,?_,hothers,hcells⟩
    intro q d hd
    by_cases hqp : q = p
    · subst hqp
      obtain rfl := Option.some.inj (hc.symm.trans hd)
      exact ⟨c',hc',hfd⟩
    · exact ⟨d,(hothers q hqp).trans hd,rfl⟩

theorem freeQueues_ok (l : List Nat) {w : World} (hl : l.Nodup)
    (hheld : ∀ p ∈ l, Queued A w p)
    (hapart : ∀ p ∈ l, ∀ q ∈ l, p ≠ q → ∀ a ∈ A p, a ∉ A q) :
    ∃ w', l.foldlM freeClientQueue w = .ok w' ∧ SameRest w w' ∧ w'.socks = w.socks ∧
      (∀ q c, w.clients.get q = some c → ∃ c', w'.clients.get q = some c' ∧
        c'.clientFd = c.clientFd) ∧
      (∀ q, q ∉ l → w'.clients.get q = w.clients.get q) ∧
      ∀ a, w'.packets.get a = if ∃ p ∈ l, a ∈ A p then none else w.packets.get a := by
  induction l generalizing w with
  | nil =>
    refine ⟨w,rfl,⟨rfl,rfl,rfl,rfl,rfl,rfl⟩,rfl,fun q c hc => ⟨c,hc,rfl⟩,fun _ _ => rfl,?_⟩
    simp
  | cons p rest ih =>
    obtain ⟨hnot,hrest⟩ := List.nodup_cons.mp hl
    obtain ⟨w₁,hrun₁,⟨hlist₁,hmutex₁,hshut₁,hclock₁,hcasts₁,hacc₁⟩,hsocks₁,hkept₁,hothers₁,
      hcells₁⟩ := freeClientQueue_ok (hheld p (by simp))
    have hheld₁ : ∀ q ∈ rest, Queued A w₁ q := by
      intro q hq
      have hqp : q ≠ p := fun he => hnot (he ▸ hq)
      obtain ⟨c,hc,hlink,hcounts⟩ := hheld q (by simp [hq])
      refine ⟨c,(hothers₁ q hqp).trans hc,hlink.frame (fun a ha => ?_),hcounts⟩
      rw [hcells₁,if_neg (hapart q (by simp [hq]) p (by simp) hqp a ha)]
    obtain ⟨w₂,hrun₂,⟨hlist₂,hmutex₂,hshut₂,hclock₂,hcasts₂,hacc₂⟩,hsocks₂,hkept₂,hothers₂,
      hcells₂⟩ := ih hrest hheld₁
        (fun q hq r hr => hapart q (by simp [hq]) r (by simp [hr]))
    refine ⟨w₂,?_,⟨hlist₂.trans hlist₁,hmutex₂.trans hmutex₁,hshut₂.trans hshut₁,
      hclock₂.trans hclock₁,hcasts₂.trans hcasts₁,hacc₂.trans hacc₁⟩,hsocks₂.trans hsocks₁,
      ?_,?_,?_⟩
    · rw [List.foldlM_cons,hrun₁]
      exact hrun₂
    · intro q c hc
      obtain ⟨c₁,hc₁,hfd₁⟩ := hkept₁ q c hc
      obtain ⟨c₂,hc₂,hfd₂⟩ := hkept₂ q c₁ hc₁
      exact ⟨c₂,hc₂,hfd₂.trans hfd₁⟩
    · intro q hq
      exact (hothers₂ q (fun h => hq (by simp [h]))).trans
        (hothers₁ q (fun h => hq (by simp [h])))
    · intro a
      rw [hcells₂,hcells₁]
      by_cases hin : a ∈ A p
      · simp [hin]
      · simp [hin]

end Queues

/-- The clients in `l` have records, and each its own open descriptor. -/
structure Attached (w : World) (l : List Nat) : Prop where
  distinct : l.Nodup
  seated : ∀ p ∈ l, ∃ c k, w.clients.get p = some c ∧ w.socks.get c.clientFd = some k
  fds : ∀ p ∈ l, ∀ q ∈ l, ∀ c d, w.clients.get p = some c → w.clients.get q = some d →
    c.clientFd = d.clientFd → p = q

section Closing
variable {w : World}

theorem Attached.rest {p : Nat} {rest : List Nat} {c : ClientInfo}
    (h : Attached w (p :: rest)) (hc : w.clients.get p = some c) :
    (∀ q ∈ rest, (w.clients.free p).get q = w.clients.get q) ∧
      (∀ q ∈ rest, ∀ d, w.clients.get q = some d →
        (w.socks.free c.clientFd).get d.clientFd = w.socks.get d.clientFd) ∧
      Attached { w with socks := w.socks.free c.clientFd, clients := w.clients.free p } rest := by
  obtain ⟨hnot,hrest⟩ := List.nodup_cons.mp h.distinct
  have hclients : ∀ q ∈ rest, (w.clients.free p).get q = w.clients.get q :=
    fun q hq => Heap.get_free_of_ne _ (fun he => hnot (he ▸ hq))
  have hsocks : ∀ q ∈ rest, ∀ d, w.clients.get q = some d →
      (w.socks.free c.clientFd).get d.clientFd = w.socks.get d.clientFd := by
    intro q hq d hd
    refine Heap.get_free_of_ne _ (fun he => hnot ?_)
    rw [h.fds p (by simp) q (by simp [hq]) c d hc hd he.symm]
    exact hq
  refine ⟨hclients,hsocks,hrest,?_,?_⟩
  · intro q hq
    obtain ⟨d,k,hd,hk⟩ := h.seated q (by simp [hq])
    exact ⟨d,k,(hclients q hq).trans hd,(hsocks q hq d hd).trans hk⟩
  · intro q hq r hr d e hd he hfd
    exact h.fds q (by simp [hq]) r (by simp [hr]) d e ((hclients q hq).symm.trans hd)
      ((hclients r hr).symm.trans he) hfd

/-- The loop stops at the first close that fails: a client loses its descriptor when all
those before it could be closed, and its record when it could be closed as well. -/
theorem removeAllClientsLoop_closes (l : List Nat) {w : World} (h : Attached w l) :
    ∃ w' r, removeAllClientsLoop l w = .ok (w',r) ∧ w'.packets = w.packets ∧
      w'.clientList = w.clientList ∧
      (∀ q, q ∉ l → w'.clients.get q = w.clients.get q) ∧
      (∀ f, (∀ p ∈ l, ∀ c, w.clients.get p = some c → c.clientFd ≠ f) →
        w'.socks.get f = w.socks.get f) ∧
      ∀ before p after c, l = before ++ p :: after → w.clients.get p = some c →
        (w'.socks.get c.clientFd = none ↔ ClosesOk w before) ∧
          (w'.clients.get p = none ↔ ClosesOk w (p :: before)) := by
  induction l generalizing w with
  | nil =>
    refine ⟨w.unlock,0,rfl,rfl,rfl,fun _ _ => rfl,fun _ _ => rfl,?_⟩
    intro before p after c hl
    simp at hl
  | cons p rest ih =>
    obtain ⟨c,k,hc,hk⟩ := h.seated p (by simp)
    obtain ⟨hclients,hsocks,hrest⟩ := h.rest hc
    obtain ⟨hnot,-⟩ := List.nodup_cons.mp h.distinct
    have hopens : ∀ l, ClosesOk w (p :: l) → k.oracle.closeOk = true :=
      fun l hcloses => hcloses p (by simp) c k hc hk
    have hclose : closeFd w c.clientFd = .ok ({ w with socks := w.socks.free c.clientFd },
        if k.oracle.closeOk then 0 else -1) := by
      unfold closeFd
      simp only [World.sock_eq_ok hk,ok_bind]
      rfl
    unfold removeAllClientsLoop cleanupClient
    simp only [World.client_eq_ok hc,ok_bind,hclose]
    cases hok : k.oracle.closeOk with
    | false =>
      refine ⟨{ w with socks := w.socks.free c.clientFd },-1,rfl,rfl,rfl,fun _ _ => rfl,?_,?_⟩
      · exact fun f hf => Heap.get_free_of_ne _ (fun he => hf p (by simp) c hc he.symm)
      · intro before q after d hl hd
        cases before with
        | nil =>
          simp only [List.nil_append,List.cons.injEq] at hl
          obtain ⟨rfl,-⟩ := hl
          obtain rfl := Option.some.inj (hc.symm.trans hd)
          refine ⟨iff_of_true (Heap.get_free_self _ _) (fun _ h => by cases h),?_⟩
          refine iff_of_false (by rw [hc]; simp) (fun hcloses => ?_)
          rw [hopens [] hcloses] at hok
          cases hok
        | cons b before =>
          simp only [List.cons_append,List.cons.injEq] at hl
          obtain ⟨rfl,rfl⟩ := hl
          obtain ⟨e,j,he,hj⟩ := h.seated q (by simp)
          obtain rfl := Option.some.inj (hd.symm.trans he)
          have hkept : (w.socks.free c.clientFd).get d.clientFd = some j :=
            (hsocks q (by simp) d hd).trans hj
          refine ⟨iff_of_false (by simp [hkept]) ?_,iff_of_false (by rw [hd]; simp) ?_⟩
          · intro hcloses
            rw [hopens _ hcloses] at hok
            cases hok
          · intro hcloses
            have hfirst := hcloses p (by simp) c k hc hk
            rw [hok] at hfirst
            cases hfirst
    | true =>
      obtain ⟨w',r,hrun,hpackets,hlist,hout,hfds,hall⟩ := ih hrest
      refine ⟨w',r,hrun,hpackets,hlist,?_,?_,?_⟩
      · intro q hq
        exact (hout q (fun hin => hq (by simp [hin]))).trans
          (Heap.get_free_of_ne _ (fun he => hq (by simp [he])))
      · intro f hf
        refine (hfds f ?_).trans (Heap.get_free_of_ne _ (fun he => hf p (by simp) c hc he.symm))
        exact fun q hq d hd => hf q (by simp [hq]) d ((hclients q hq).symm.trans hd)
      · intro before q after d hl hd
        cases before with
        | nil =>
          simp only [List.nil_append,List.cons.injEq] at hl
          obtain ⟨rfl,rfl⟩ := hl
          obtain rfl := Option.some.inj (hc.symm.trans hd)
          refine ⟨iff_of_true ?_ (fun _ h => by cases h),iff_of_true ?_ ?_⟩
          · refine (hfds c.clientFd ?_).trans (Heap.get_free_self _ _)
            intro r hr e he hfd
            have hrp := h.fds p (by simp) r (by simp [hr]) c e hc
              ((hclients r hr).symm.trans he) hfd.symm
            exact hnot (hrp ▸ hr)
          · exact (hout p hnot).trans (Heap.get_free_self _ _)
          · refine (closesOk_cons hc hk hok).mpr (fun _ h => by cases h)
        | cons b before =>
          simp only [List.cons_append,List.cons.injEq] at hl
          obtain ⟨rfl,rfl⟩ := hl
          have hd' := (hclients q (by simp)).trans hd
          obtain ⟨hsock,hclient⟩ := hall before q after d rfl hd'
          refine ⟨hsock.trans (closesOk_cons hc hk hok).symm,hclient.trans ?_⟩
          refine (closesOk_cons hc hk hok).symm.trans ?_
          exact ⟨fun hcloses r hr => hcloses r (by simp at hr ⊢; tauto),
            fun hcloses r hr => hcloses r (by simp at hr ⊢; tauto)⟩

theorem closesOk_congr {w' : World} (hsocks : w'.socks = w.socks)
    (hkept : ∀ q c, w.clients.get q = some c → ∃ c', w'.clients.get q = some c' ∧
      c'.clientFd = c.clientFd) {l : List Nat} (hlive : ∀ p ∈ l, w.clients.get p ≠ none) :
    ClosesOk w' l ↔ ClosesOk w l := by
  constructor
  · intro h p hp c k hc hk
    obtain ⟨c',hc',hfd⟩ := hkept p c hc
    exact h p hp c' k hc' (by rw [hfd,hsocks]; exact hk)
  · intro h p hp c' k hc' hk
    obtain ⟨c,hc⟩ := Option.ne_none_iff_exists'.mp (hlive p hp)
    obtain ⟨d,hd,hfd⟩ := hkept p c hc
    obtain rfl := Option.some.inj (hc'.symm.trans hd)
    exact h p hp c k hc (by rw [← hfd,← hsocks]; exact hk)

end Closing

theorem Tracks.attached {s : Sys} {R : Room} (h : Tracks s R) :
    Attached s.world s.world.clientList := by
  obtain ⟨A,hrep⟩ := h.refines
  have hview : ∀ p ∈ s.world.clientList, ∀ c, s.world.clients.get p = some c →
      p ∈ R.members ∧ c.clientFd = (R.view p).info.clientFd := by
    intro p hp c hc
    rw [hrep.members] at hp
    obtain ⟨q,hc',-⟩ := hrep.owns p hp
    obtain rfl := Option.some.inj (hc.symm.trans hc')
    exact ⟨hp,rfl⟩
  refine ⟨by rw [hrep.members]; exact hrep.nodup,?_,?_⟩
  · intro p hp
    rw [hrep.members] at hp
    obtain ⟨q,hc,hk,-⟩ := hrep.owns p hp
    exact ⟨_,_,hc,hk⟩
  · intro p hp q hq c d hc hd hfd
    obtain ⟨hp',hpfd⟩ := hview p hp c hc
    obtain ⟨hq',hqfd⟩ := hview q hq d hd
    exact hrep.fds p hp' q hq' (by rw [← hpfd,← hqfd,hfd])

theorem Tracks.queued {s : Sys} {R : Room} {A : Nat → List Nat} (h : Tracks s R)
    (hs : Stocked s.world A) : ∀ p ∈ s.world.clientList, Queued A s.world p := by
  intro p hp
  obtain ⟨B,hrep⟩ := h.refines
  obtain ⟨c,hc,hlink,hnd,-⟩ := hs.held p hp
  rw [hrep.members] at hp
  obtain ⟨q,hc',-,hq,-⟩ := hrep.owns p hp
  obtain rfl := Option.some.inj (hc.symm.trans hc')
  refine ⟨_,hc,hlink,hnd,?_⟩
  rw [← hq.chain.cells_eq hlink]
  exact hq.count

theorem Tracks.cleans {s : Sys} {R : Room} (h : Tracks s R) (hs : s.world.Stocked) :
    ∃ w, freeQueues s.world = .ok w ∧ w.clientMutex = false ∧
      w.clientList = s.world.clientList ∧ w.socks = s.world.socks ∧
      (∀ a, w.packets.get a = none) ∧
      (∀ q c, s.world.clients.get q = some c → ∃ c', w.clients.get q = some c' ∧
        c'.clientFd = c.clientFd) ∧
      (∀ q, q ∉ s.world.clientList → w.clients.get q = s.world.clients.get q) ∧
      Attached { w with clientMutex := true } s.world.clientList.reverse := by
  obtain ⟨A,hs⟩ := hs
  have hseats := h.attached
  obtain ⟨w,hrun,⟨hlist,hmutex,-⟩,hsocks,hkept,hothers,hcells⟩ :=
    freeQueues_ok s.world.clientList hs.listed (h.queued hs) hs.apart
  have hback : ∀ p ∈ s.world.clientList, ∀ c, w.clients.get p = some c →
      ∃ d, s.world.clients.get p = some d ∧ c.clientFd = d.clientFd := by
    intro p hp c hc
    obtain ⟨d,hd⟩ := Option.ne_none_iff_exists'.mp (h.live p hp)
    obtain ⟨d',hd',hfd⟩ := hkept p d hd
    obtain rfl := Option.some.inj (hc.symm.trans hd')
    exact ⟨d,hd,hfd⟩
  refine ⟨w,hrun,?_,hlist,hsocks,?_,hkept,hothers,?_,?_,?_⟩
  · obtain ⟨B,hrep⟩ := h.refines
    rw [hmutex,hrep.mutex]
    exact h.mutex
  · intro a
    rw [hcells]
    by_cases hin : ∃ p ∈ s.world.clientList, a ∈ A p
    · rw [if_pos hin]
    · rw [if_neg hin]
      by_contra hne
      obtain ⟨m,hm⟩ := Option.ne_none_iff_exists'.mp hne
      exact hin (hs.owned a m hm)
  · exact List.nodup_reverse.mpr hseats.distinct
  · intro p hp
    obtain ⟨c,k,hc,hk⟩ := hseats.seated p (List.mem_reverse.mp hp)
    obtain ⟨c',hc',hfd⟩ := hkept p c hc
    have hk' : w.socks.get c'.clientFd = some k := by
      rw [hfd,hsocks]
      exact hk
    exact ⟨c',k,hc',hk'⟩
  · intro p hp q hq c d hc hd hfd
    obtain ⟨c',hc',hcfd⟩ := hback p (List.mem_reverse.mp hp) c hc
    obtain ⟨d',hd',hdfd⟩ := hback q (List.mem_reverse.mp hq) d hd
    exact hseats.fds p (List.mem_reverse.mp hp) q (List.mem_reverse.mp hq) c' d' hc' hd'
      (by rw [← hcfd,← hdfd,hfd])

theorem removeAllClients_eq {w : World} (hfree : w.clientMutex = false) :
    removeAllClients w =
      removeAllClientsLoop w.clientList.reverse { w with clientMutex := true } := by
  unfold removeAllClients
  rw [lock_eq hfree,ok_bind]

theorem closing_step {s : Sys} {w w' : World} {r : Int} (i : Input) (hphase : s.phase = .closing)
    (hfree : freeQueues s.world = .ok w) (hremove : removeAllClients w = .ok (w',r)) :
    step s (.server i) = .ok ⟨w',.done⟩ := by
  unfold step
  simp only [hphase,hfree,ok_bind,hremove]
  rfl

/-- The clean-up returns, and no packet is left. The clients are closed from the last
one on: a listed client keeps its descriptor exactly when closing one behind it failed,
and its record exactly when closing it or one behind it failed, and the mutex is
given back exactly when all could be closed. Nobody else is touched. -/
theorem cleanup_exact {acts : List Action} {s : Sys} (i : Input)
    (hrun : run step Sys.init acts = .ok s) (hphase : s.phase = .closing) :
    ∃ s', step s (.server i) = .ok s' ∧ s'.phase = .done ∧
      (∀ a, s'.world.packets.get a = none) ∧
      (s'.world.clientMutex = false ↔ ClosesOk s.world s.world.clientList) ∧
      (∀ before p after c, s.world.clientList = before ++ p :: after →
        s.world.clients.get p = some c →
        (s'.world.socks.get c.clientFd = none ↔ ClosesOk s.world after) ∧
          (s'.world.clients.get p = none ↔ ClosesOk s.world (p :: after))) ∧
      (∀ q, q ∉ s.world.clientList → s'.world.clients.get q = s.world.clients.get q) ∧
      ∀ f, (∀ p ∈ s.world.clientList, ∀ c, s.world.clients.get p = some c → c.clientFd ≠ f) →
        s'.world.socks.get f = s.world.socks.get f := by
  have hdone : s.phase ≠ .done := by
    rw [hphase]
    exact fun h => by cases h
  obtain ⟨R,htracks,-,-⟩ := run_tracks hrun hdone
  have hlive : ∀ p ∈ s.world.clientList, s.world.clients.get p ≠ none := htracks.live
  obtain ⟨w₁,hrun₁,hfree,hlist₁,hsocks₁,hempty₁,hkept₁,hothers₁,hseats₁⟩ :=
    htracks.cleans (run_stocked hrun hdone)
  have hcongr : ∀ l, (∀ p ∈ l, p ∈ s.world.clientList) → (ClosesOk w₁ l ↔ ClosesOk s.world l) :=
    fun l hl => closesOk_congr hsocks₁ hkept₁ (fun p hp => hlive p (hl p hp))
  obtain ⟨w₂,r,hrun₂,hpackets₂,-,hout₂,hfds₂,hall₂⟩ :=
    removeAllClientsLoop_closes s.world.clientList.reverse hseats₁
  have hremove : removeAllClients w₁ = .ok (w₂,r) := by
    rw [removeAllClients_eq hfree,hlist₁]
    rw [hlist₁] at hrun₂
    exact hrun₂
  refine ⟨⟨w₂,.done⟩,closing_step i hphase hrun₁ hremove,rfl,?_,?_,?_,?_,?_⟩
  · intro a
    have hgone : w₂.packets.get a = w₁.packets.get a := by rw [hpackets₂]
    exact hgone.trans (hempty₁ a)
  · have hmutex := (removeAllClients_mutex hfree).of_ok hremove
    rw [hlist₁] at hmutex
    exact hmutex.trans (hcongr _ (fun p hp => hp))
  · intro before p after c hsplit hc
    obtain ⟨c',hc',hfd⟩ := hkept₁ p c hc
    have hmem : ∀ q ∈ p :: after, q ∈ s.world.clientList := by
      intro q hq
      rw [hsplit]
      exact List.mem_append_right _ hq
    obtain ⟨hsock,hclient⟩ := hall₂ after.reverse p before.reverse c'
      (by simp [hsplit]) hc'
    have hafter : ClosesOk { w₁ with clientMutex := true } after.reverse ↔
        ClosesOk s.world after := by
      refine Iff.trans ?_ (hcongr after (fun q hq => hmem q (by simp [hq])))
      simp [ClosesOk]
    have hfrom : ClosesOk { w₁ with clientMutex := true } (p :: after.reverse) ↔
        ClosesOk s.world (p :: after) := by
      refine Iff.trans ?_ (hcongr (p :: after) hmem)
      simp [ClosesOk]
    rw [hfd] at hsock
    exact ⟨hsock.trans hafter,hclient.trans hfrom⟩
  · intro q hq
    exact (hout₂ q (by simpa using hq)).trans (hothers₁ q hq)
  · intro f hf
    have hsame : w₂.socks.get f = w₁.socks.get f := by
      refine hfds₂ f (fun p hp c hc => ?_)
      obtain ⟨d,hd⟩ := Option.ne_none_iff_exists'.mp (hlive p (List.mem_reverse.mp hp))
      obtain ⟨d',hd',hfd⟩ := hkept₁ p d hd
      obtain rfl : c = d' := Option.some.inj (hc.symm.trans hd')
      rw [hfd]
      exact hf p (List.mem_reverse.mp hp) d hd
    exact hsame.trans (by rw [hsocks₁])

def Action.lastFails : List Action :=
  slowReader ++ hears 5 (frame msgTypeNormal (ascii "/shutdown")) ++
    [.server ⟨false,[],[]⟩,.plan 6 { Oracle.quiet with closeOk := false }]

theorem cleanup_exact_lastFails : ∃ s s', run step Sys.init Action.lastFails = .ok s ∧
    s.world.clientList = [1,2] ∧ s.world.queuedCells ≠ [] ∧
      step s (.server ⟨false,[],[]⟩) = .ok s' ∧ (∀ a, s'.world.packets.get a = none) ∧
      s'.world.clientMutex = true ∧ s'.world.socks.get 5 ≠ none ∧ s'.world.socks.get 6 = none ∧
      s'.world.clients.get 1 ≠ none ∧ s'.world.clients.get 2 ≠ none := by
  obtain ⟨s,hrun,c,k,-,hlisted,htest⟩ := reaches_listed
    (show reachesListed Action.lastFails 2 (fun s c k => decide (s.phase = .closing ∧
      s.world.clientList = [1,2] ∧ s.world.queuedCells ≠ [] ∧ c.clientFd = 6 ∧
      k.oracle.closeOk = false ∧
      (s.world.clients.get 1).any (fun d => d.clientFd == 5))) = true by decide +kernel)
  obtain ⟨hphase,hlist,hqueued,hfd,hbad,hann⟩ := of_decide_eq_true htest
  obtain ⟨d,hd,hdfd⟩ : ∃ d, s.world.clients.get 1 = some d ∧ d.clientFd = 5 := by
    cases hd : s.world.clients.get 1 with
    | none => simp [hd] at hann
    | some d => exact ⟨d,rfl,by simpa [hd] using hann⟩
  obtain ⟨s',hstep,-,hempty,hmutex,hall,-⟩ := cleanup_exact ⟨false,[],[]⟩ hrun hphase
  have hfails : ∀ l, 2 ∈ l → ¬ ClosesOk s.world l := by
    intro l hl hcloses
    rw [hcloses 2 hl c k hlisted.info hlisted.sock] at hbad
    cases hbad
  obtain ⟨hfirst,hfirst'⟩ := hall [] 1 [2] _ hlist hd
  obtain ⟨hlast,hlast'⟩ := hall [1] 2 [] c hlist hlisted.info
  refine ⟨s,s',hrun,hlist,hqueued,hstep,hempty,?_,?_,?_,?_,?_⟩
  · have hnot := mt hmutex.mp (hfails _ (by rw [hlist]; simp))
    simpa using hnot
  · rw [← hdfd]
    exact mt hfirst.mp (hfails _ (by simp))
  · rw [← hfd]
    exact hlast.mpr (fun q hq => by cases hq)
  · exact mt hfirst'.mp (hfails _ (by simp))
  · exact mt hlast'.mp (hfails _ (by simp))

/-- Every record and every descriptor belongs to a listed client, and closing succeeds. -/
structure Manned (w : World) : Prop where
  closes : ∀ f k, w.socks.get f = some k → k.oracle.closeOk = true
  records : ∀ p, w.clients.get p ≠ none → p ∈ w.clientList
  sockets : ∀ f, w.socks.get f ≠ none →
    ∃ p ∈ w.clientList, ∃ c, w.clients.get p = some c ∧ c.clientFd = f

namespace Manned
variable {w w' : World}

theorem congr (h : Manned w) (hclients : ∀ q, w'.clients.get q = w.clients.get q)
    (hsocks : ∀ f, w'.socks.get f = w.socks.get f) (hlist : w'.clientList = w.clientList) :
    Manned w' := by
  refine ⟨fun f k hk => h.closes f k ((hsocks f).symm.trans hk),?_,?_⟩
  · intro p hp
    rw [hclients] at hp
    rw [hlist]
    exact h.records p hp
  · intro f hf
    rw [hsocks] at hf
    obtain ⟨p,hp,c,hc,hfd⟩ := h.sockets f hf
    rw [hlist]
    exact ⟨p,hp,c,(hclients p).trans hc,hfd⟩

theorem record {p : Nat} {c c' : ClientInfo} (h : Manned w) (hc : w.clients.get p = some c)
    (hfd : c'.clientFd = c.clientFd) : Manned (w.putClient p c') := by
  refine ⟨h.closes,?_,?_⟩
  · intro q hq
    by_cases hqp : q = p
    · rw [hqp]
      exact h.records p (by rw [hc]; simp)
    · exact h.records q ((Heap.get_set_of_ne _ _ hqp) ▸ hq)
  · intro f hf
    obtain ⟨q,hq,d,hd,hdf⟩ := h.sockets f hf
    by_cases hqp : q = p
    · subst hqp
      obtain rfl := Option.some.inj (hc.symm.trans hd)
      exact ⟨q,hq,c',Heap.get_set_self _ _ _,hfd.trans hdf⟩
    · exact ⟨q,hq,d,(Heap.get_set_of_ne _ _ hqp).trans hd,hdf⟩

theorem sock {fd : Nat} {k k' : Sock} (h : Manned w) (hk : w.socks.get fd = some k)
    (hclose : k.oracle.closeOk = true → k'.oracle.closeOk = true) : Manned (w.putSock fd k') := by
  refine ⟨?_,h.records,?_⟩
  · intro f j hj
    by_cases hf : f = fd
    · subst hf
      obtain rfl := Option.some.inj ((Heap.get_set_self _ _ _).symm.trans hj)
      exact hclose (h.closes f k hk)
    · exact h.closes f j ((Heap.get_set_of_ne _ _ hf).symm.trans hj)
  · intro f hne
    by_cases hf : f = fd
    · subst hf
      exact h.sockets f (by rw [hk]; simp)
    · exact h.sockets f ((Heap.get_set_of_ne w.socks k' hf) ▸ hne)

theorem move {o : Option Nat} (hmove : Move o w w') (h : Manned w) : Manned w' := by
  have hrest : ∀ {u : World}, u.clients = w.clients → u.socks = w.socks →
      u.clientList = w.clientList → Manned u :=
    fun hc hk hl => h.congr (fun _ => by rw [hc]) (fun _ => by rw [hk]) hl
  cases hmove with
  | record hc hfd _ _ => exact h.record hc hfd
  | sock hk hdraws => exact h.sock hk hdraws.closeOk.trans
  | rest hclients hsocks hlist => exact hrest hclients hsocks hlist
  | patch _ _ => exact hrest rfl rfl rfl
  | @pop p a c c' m _ hc _ _ hfd _ _ =>
    have hfree : Manned (w.freePacket a) := hrest rfl rfl rfl
    exact hfree.record hc hfd
  | @first p a c c' m _ hc _ _ _ hfd _ _ =>
    have hput : Manned (w.putPacket a m) := hrest rfl rfl rfl
    exact hput.record hc hfd
  | @push p a t c c' m last _ hc _ _ _ _ hfd _ _ =>
    have hput : Manned ((w.putPacket a m).putPacket t { last with next := some a }) :=
      hrest rfl rfl rfl
    exact hput.record hc hfd

theorem moves {o : Option Nat} (hmoves : Moves o w w') (h : Manned w) : Manned w' := by
  induction hmoves with
  | refl => exact h
  | tail _ hmove ih => exact move hmove ih

theorem admits {i : Incoming} (h : Manned w) (htaken : Admits w i w')
    (hgood : ¬ (i.fcntlOk = false ∨ i.block = none ∨ i.addOk = false))
    (hclose : i.oracle.closeOk = true) : Manned w' := by
  cases htaken with
  | strayed hbad => exact absurd hbad hgood
  | refused _ _ hlist hclients hsocks => exact h.congr hclients hsocks hlist
  | @joined hint old junk _ _ hlist hclients hsocks =>
    refine ⟨?_,?_,?_⟩
    · intro f k hk
      rw [hsocks] at hk
      by_cases hf : f = w.socks.fresh i.fd
      · rw [if_pos hf] at hk
        cases hk
        exact hclose
      · rw [if_neg hf] at hk
        exact h.closes f k hk
    · intro q hq
      rw [hclients] at hq
      rw [hlist]
      by_cases hnew : q = w.clients.fresh hint
      · exact List.mem_append_right _ (by simp [hnew])
      · rw [if_neg hnew] at hq
        exact List.mem_append_left _ (h.records q hq)
    · intro f hne
      rw [hsocks] at hne
      rw [hlist]
      by_cases hf : f = w.socks.fresh i.fd
      · refine ⟨w.clients.fresh hint,by simp,_,by rw [hclients,if_pos rfl],?_⟩
        exact hf.symm
      · rw [if_neg hf] at hne
        obtain ⟨q,hq,c,hc,hfd⟩ := h.sockets f hne
        have hqn : q ≠ w.clients.fresh hint := by
          rintro rfl
          rw [Heap.get_fresh] at hc
          cases hc
        exact ⟨q,List.mem_append_left _ hq,c,by rw [hclients,if_neg hqn,hc],hfd⟩

theorem reap {A : Nat → List Nat} {p : Nat} (h : Manned w) (hs : ChatServer.Stocked w A)
    (hp : p ∈ w.clientList) : Always (reapClient w p) Manned := by
  obtain ⟨c,hc,-⟩ := hs.held p hp
  refine (reapClient_leaves hs hp hc).mono ?_
  rintro w' ⟨hlist,-,hothers,hsocks,k,hk,hgone⟩
  have hkept : ∀ q ∈ w.clientList, q ≠ p → q ∈ w'.clientList :=
    fun q hq hqp => hlist.mem_iff.mpr ((List.mem_erase_of_ne hqp).mpr hq)
  refine ⟨?_,?_,?_⟩
  · intro f k hk
    rw [hsocks] at hk
    by_cases hf : f = c.clientFd
    · rw [if_pos hf] at hk
      cases hk
    · rw [if_neg hf] at hk
      exact h.closes f k hk
  · intro q hq
    have hqp : q ≠ p := by
      rintro rfl
      exact hq (hgone (h.closes c.clientFd k hk))
    rw [hothers q hqp] at hq
    exact hkept q (h.records q hq) hqp
  · intro f hne
    rw [hsocks] at hne
    by_cases hf : f = c.clientFd
    · rw [if_pos hf] at hne
      exact absurd rfl hne
    · rw [if_neg hf] at hne
      obtain ⟨q,hq,d,hd,hfd⟩ := h.sockets f hne
      have hqp : q ≠ p := by
        rintro rfl
        obtain rfl := Option.some.inj (hc.symm.trans hd)
        exact hf hfd.symm
      exact ⟨q,hkept q hq hqp,d,(hothers q hqp).trans hd,hfd⟩

end Manned

def AcceptRes.smooth : AcceptRes → Bool
  | .conn i => i.fcntlOk && i.block.isSome && i.addOk && i.oracle.closeOk
  | .wouldBlock => true
  | .fails => true

def Action.smooth : Action → Bool
  | .net _ _ _ _ => true
  | .plan _ oracle => oracle.closeOk
  | .clock _ => true
  | .server i => i.accepts.all AcceptRes.smooth

theorem onSock_manned {w : World} (h : Manned w) (fd : Nat) (f : Sock → Sock)
    (hf : ∀ k, k.oracle.closeOk = true → (f k).oracle.closeOk = true) :
    Manned (w.onSock fd f) := by
  unfold World.onSock
  split
  · exact h
  · rename_i k hk
    exact h.sock hk (hf k)

theorem step_manned {s s' : Sys} {R : Room} {a : Action} (h : Tracks s R)
    (hs : s.world.Stocked) (hm : Manned s.world) (hsmooth : a.smooth = true)
    (hstep : step s a = .ok s') (hdone : s'.phase ≠ .done) : Manned s'.world := by
  cases a with
  | net fd bs fin reset =>
    cases hstep
    exact onSock_manned hm fd _ (fun _ hk => hk)
  | plan fd oracle =>
    cases hstep
    exact onSock_manned hm fd _ (fun _ _ => hsmooth)
  | clock ts =>
    cases hstep
    exact hm.congr (fun _ => rfl) (fun _ => rfl) rfl
  | server i =>
    have hclosing : s.phase ≠ .closing := fun h => hdone (step_closing h hstep)
    have hreap : Always (reapPass s.world) (fun w => w.Stocked ∧ Manned w) := by
      refine reapLoop_rule (fun w p hw hp => ?_) s.world.clientList.length 0 ⟨hs,hm⟩
      obtain ⟨⟨A,hstock⟩,hman⟩ := hw
      exact Always.intro (fun w' hw' => ⟨(reapClient_stocked ⟨A,hstock⟩ hp).of_ok hw',
        (hman.reap hstock hp).of_ok hw'⟩)
    have haccept : Always (acceptNewClients i.accepts s.world) (fun res => Manned res.1) := by
      refine acceptNewClients_rule i.accepts (fun j w w' hj hw htaken => ?_) hm
      have hconn := List.all_eq_true.mp hsmooth _ hj
      simp only [AcceptRes.smooth,Bool.and_eq_true] at hconn
      obtain ⟨⟨⟨hfcntl,hblock⟩,hadd⟩,hclose⟩ := hconn
      refine hw.admits htaken ?_ hclose
      rintro (hbad | hbad | hbad)
      · simp [hbad] at hfcntl
      · simp [hbad] at hblock
      · simp [hbad] at hadd
    exact step_keeps h (fun _ w hw => hm.moves hw) (fun _ _ => hreap.mono (fun _ hw => hw.2))
      haccept hclosing hstep

theorem run_manned {acts : List Action} {s : Sys} (hrun : run step Sys.init acts = .ok s)
    (hsmooth : ∀ a ∈ acts, a.smooth = true) (hphase : s.phase ≠ .done) : Manned s.world := by
  refine run_induction_reached (I := fun t => t.phase ≠ .done → Manned t.world) ?_ ?_ hrun hphase
  · intro before t a t' ha hbefore ht hstep hdone
    have hnow : t.phase ≠ .done := fun h => hdone (step_done h hstep)
    obtain ⟨R,htracks,-,-⟩ := run_tracks hbefore hnow
    exact step_manned htracks (run_stocked hbefore hnow) (ht hnow) (hsmooth a ha) hstep hdone
  · intro _
    refine ⟨?_,?_,?_⟩
    · intro f k hk
      cases hk
    · intro p hp
      exact absurd rfl hp
    · intro f hf
      exact absurd rfl hf

/-- When no call fails that is made for a connection, and none that closes one, the records
and the open descriptors are those of the listed clients, in every state up to the
clean-up. After it there is no record, no descriptor and no packet. -/
theorem smooth_accounted {acts : List Action} {s : Sys}
    (hrun : run step Sys.init acts = .ok s) (hsmooth : ∀ a ∈ acts, a.smooth = true)
    (hphase : s.phase ≠ .done) :
    (∀ p, s.world.clients.get p ≠ none ↔ p ∈ s.world.clientList) ∧
      (∀ f, s.world.socks.get f ≠ none ↔
        ∃ p ∈ s.world.clientList, ∃ c, s.world.clients.get p = some c ∧ c.clientFd = f) ∧
      (s.phase = .closing → ∀ i, ∃ s', step s (.server i) = .ok s' ∧
        (∀ p, s'.world.clients.get p = none) ∧ (∀ f, s'.world.socks.get f = none) ∧
          (∀ a, s'.world.packets.get a = none) ∧ s'.world.clientMutex = false) := by
  obtain ⟨R,htracks,-,-⟩ := run_tracks hrun hphase
  have hmanned := run_manned hrun hsmooth hphase
  have hseats := htracks.attached
  refine ⟨?_,?_,?_⟩
  · exact fun p => ⟨hmanned.records p,htracks.live p⟩
  · refine fun f => ⟨hmanned.sockets f,?_⟩
    rintro ⟨p,hp,c,hc,rfl⟩
    obtain ⟨d,k,hd,hk⟩ := hseats.seated p hp
    obtain rfl := Option.some.inj (hc.symm.trans hd)
    rw [hk]
    simp
  · intro hclosing i
    obtain ⟨w₁,hrun₁,hfree,hlist₁,hsocks₁,hempty₁,hkept₁,hothers₁,hseats₁⟩ :=
      htracks.cleans (run_stocked hrun hphase)
    obtain ⟨w₂,r,hrun₂,hpackets₂,-,hout₂,hfds₂,hall₂⟩ :=
      removeAllClientsLoop_closes s.world.clientList.reverse hseats₁
    have hcloses : ∀ l, ClosesOk w₁ l := by
      intro l p _ c k _ hk
      rw [hsocks₁] at hk
      exact hmanned.closes _ _ hk
    have hremove : removeAllClients w₁ = .ok (w₂,r) := by
      rw [removeAllClients_eq hfree,hlist₁]
      rw [hlist₁] at hrun₂
      exact hrun₂
    have hgone : ∀ p ∈ s.world.clientList, ∀ c, w₁.clients.get p = some c →
        w₂.socks.get c.clientFd = none ∧ w₂.clients.get p = none := by
      intro p hp c hc
      obtain ⟨before,after,hsplit⟩ := List.append_of_mem (List.mem_reverse.mpr hp)
      obtain ⟨hsock,hclient⟩ := hall₂ before p after c hsplit hc
      exact ⟨hsock.mpr (hcloses before),hclient.mpr (hcloses _)⟩
    have hlive₁ : ∀ p ∈ s.world.clientList, ∃ c, w₁.clients.get p = some c := by
      intro p hp
      obtain ⟨c,hc⟩ := Option.ne_none_iff_exists'.mp (htracks.live p hp)
      obtain ⟨c',hc',-⟩ := hkept₁ p c hc
      exact ⟨c',hc'⟩
    refine ⟨⟨w₂,.done⟩,closing_step i hclosing hrun₁ hremove,?_,?_,?_,?_⟩
    · intro p
      show w₂.clients.get p = none
      by_cases hp : p ∈ s.world.clientList
      · obtain ⟨c,hc⟩ := hlive₁ p hp
        exact (hgone p hp c hc).2
      · refine (hout₂ p (by simpa using hp)).trans ((hothers₁ p hp).trans ?_)
        by_contra hne
        exact hp (hmanned.records p hne)
    · intro f
      show w₂.socks.get f = none
      by_cases hf : ∃ p ∈ s.world.clientList, ∃ c, w₁.clients.get p = some c ∧ c.clientFd = f
      · obtain ⟨p,hp,c,hc,rfl⟩ := hf
        exact (hgone p hp c hc).1
      · have hkept : w₂.socks.get f = w₁.socks.get f :=
          hfds₂ f (fun p hp c hc hcf => hf ⟨p,List.mem_reverse.mp hp,c,hc,hcf⟩)
        rw [hkept,hsocks₁]
        by_contra hne
        obtain ⟨p,hp,c,hc,hfd⟩ := hmanned.sockets f hne
        obtain ⟨c',hc',hfd'⟩ := hkept₁ p c hc
        exact hf ⟨p,hp,c',hc',hfd'.trans hfd⟩
    · intro a
      have hsame : w₂.packets.get a = w₁.packets.get a := by rw [hpackets₂]
      exact hsame.trans (hempty₁ a)
    · exact ((removeAllClients_mutex hfree).of_ok hremove).mpr (hcloses _)

theorem smooth_accounted_slowReader : ∃ s s', run step Sys.init (Action.slowReader ++
      Action.hears 5 (frame msgTypeNormal (ascii "/shutdown")) ++ [.server ⟨false,[],[]⟩]) =
        .ok s ∧ (∀ p, s.world.clients.get p ≠ none ↔ p ∈ s.world.clientList) ∧
      s.world.queuedCells ≠ [] ∧ step s (.server ⟨false,[],[]⟩) = .ok s' ∧
        (∀ f, s'.world.socks.get f = none) := by
  obtain ⟨s,hrun,htest⟩ := reaches_run (show reaches (Action.slowReader ++
    Action.hears 5 (frame msgTypeNormal (ascii "/shutdown")) ++ [.server ⟨false,[],[]⟩])
      (fun s => decide (s.phase = .closing ∧ s.world.queuedCells ≠ [])) = true
        by decide +kernel)
  obtain ⟨hphase,hqueued⟩ := of_decide_eq_true htest
  obtain ⟨hrecords,-,hclean⟩ := smooth_accounted hrun
    (List.all_eq_true.mp (by decide +kernel)) (by rw [hphase]; exact fun h => by cases h)
  obtain ⟨s',hstep,-,hsocks,-,-⟩ := hclean hphase ⟨false,[],[]⟩
  exact ⟨s,s',hrun,hrecords,hqueued,hstep,hsocks⟩

end ChatServer
