import Mathlib.Data.List.Perm.Basic
import ChatServer.LoopRefinement

/-! The refinement of the reap pass: each closed client that it meets leaves the
room, whatever the system calls return. -/
set_option autoImplicit false

namespace ChatServer
open ByteString Memory Execution Relation

theorem set_last_eq {l : List Nat} {i : Nat} (hi : i < l.length) :
    l.set i (l.getLastD 0) = swapRemove l i ++ [l.getLastD 0] := by
  have hne : l ≠ [] := by
    intro he
    simp [he] at hi
  have hset : l.set i (l.getLastD 0) ≠ [] := by simpa using hne
  have hlast : l.getLastD 0 = l.getLast hne := by
    rw [List.getLastD_eq_getLast?,List.getLast?_eq_some_getLast hne]
    rfl
  have hend : (l.set i (l.getLastD 0)).getLast hset = l.getLastD 0 := by
    rw [List.getLast_eq_getElem,List.getElem_set]
    split
    · rfl
    · refine Eq.trans ?_ hlast.symm
      simp [List.getLast_eq_getElem]
  calc l.set i (l.getLastD 0)
      = (l.set i (l.getLastD 0)).dropLast ++ [(l.set i (l.getLastD 0)).getLast hset] :=
        (List.dropLast_concat_getLast hset).symm
    _ = swapRemove l i ++ [l.getLastD 0] := by rw [hend]; rfl

theorem swapRemove_perm {l : List Nat} {p i : Nat} (h : l.idxOf? p = some i) :
    (swapRemove l i).Perm (l.erase p) := by
  have hi : i < l.length := by
    obtain ⟨hi,-⟩ := List.findIdx?_eq_some_iff_getElem.mp h
    exact hi
  have herase : l.erase p = l.eraseIdx i := by
    rw [List.erase_eq_eraseIdx,h]
  have hperm := List.set_perm_cons_eraseIdx hi (l.getLastD 0)
  rw [set_last_eq hi,← herase] at hperm
  have hcomm : (l.getLastD 0 :: swapRemove l i).Perm (l.getLastD 0 :: l.erase p) :=
    (List.perm_append_singleton _ _).symm.trans hperm
  exact (List.perm_cons _).mp hcomm

section Reaping
variable {w : World} {R : Room} {A : Nat → List Nat} {p : Nat}

theorem freeQueue_eq (fuel : Nat) {as : List Nat} {xs : List Pkt} {c : ClientInfo}
    (hc : w.clients.get p = some c)
    (hchain : Chain MsgPacket.next PktRep w.packets c.msgQueue.head as xs)
    (hnd : as.Nodup) (hfuel : as.length < fuel) :
    ∃ w' c', freeQueue fuel w p = .ok w' ∧ w'.clients.get p = some c' ∧
      c'.clientFd = c.clientFd ∧ c'.partialMsg = c.partialMsg ∧
      (∀ q, q ≠ p → w'.clients.get q = w.clients.get q) ∧
      (∀ a, a ∉ as → w'.packets.get a = w.packets.get a) ∧ w'.socks = w.socks ∧
      SameRest w w' := by
  induction as generalizing w fuel xs c with
  | nil =>
    obtain ⟨fuel,rfl⟩ : ∃ n, fuel = n+1 := Nat.exists_eq_succ_of_ne_zero (by omega)
    cases xs with
    | cons x xs => exact hchain.elim
    | nil =>
      have hhead : c.msgQueue.head = none := hchain
      unfold freeQueue
      simp only [World.client_eq_ok hc,ok_bind,hhead]
      exact ⟨w,c,rfl,hc,rfl,rfl,fun _ _ => rfl,fun _ _ => rfl,rfl,rfl,rfl,rfl,rfl,rfl,rfl⟩
  | cons a as ih =>
    obtain ⟨fuel,rfl⟩ : ∃ n, fuel = n+1 := Nat.exists_eq_succ_of_ne_zero (by omega)
    cases xs with
    | nil => exact hchain.elim
    | cons x xs =>
      obtain ⟨hhead,m,hm,-,hrest⟩ := hchain
      obtain ⟨hnot,hnd'⟩ := List.nodup_cons.mp hnd
      have hchain' : Chain MsgPacket.next PktRep (w.packets.free a) m.next as xs :=
        hrest.frame (fun b hb => Heap.get_free_of_ne _ (fun he => hnot (he ▸ hb)))
      have hlen : as.length < fuel := by
        simp only [List.length_cons] at hfuel
        omega
      obtain ⟨w',c',hrun,hc',hfd,hmsg,hothers,hcells,hsocks,hsame⟩ :=
        ih (w := (w.freePacket a).putClient p
          { c with msgQueue := { c.msgQueue with head := m.next } }) fuel
          (Heap.get_set_self _ _ _) hchain' hnd' hlen
      unfold freeQueue
      simp only [World.client_eq_ok hc,ok_bind,hhead,World.packet_eq_ok hm]
      refine ⟨w',c',hrun,hc',hfd,hmsg,?_,?_,hsocks,hsame⟩
      · intro q hq
        exact (hothers q hq).trans (Heap.get_set_of_ne _ _ hq)
      · intro b hb
        have hba : b ≠ a := fun he => hb (by simp [he])
        exact (hcells b (fun h => hb (by simp [h]))).trans (Heap.get_free_of_ne _ hba)

theorem leave_refines {w' : World} {l : List Nat} (h : Represents w R A) (hp : p ∈ R.members)
    (hl : l.Perm (R.members.erase p)) (hlist : w'.clientList = l)
    (hclients : ∀ q, q ≠ p → w'.clients.get q = w.clients.get q)
    (hsocks : ∀ f, w'.socks.get f =
      if f = (R.view p).info.clientFd then none else w.socks.get f)
    (hcells : ∀ a, a ∉ A p → w'.packets.get a = w.packets.get a)
    (hmutex : w'.clientMutex = w.clientMutex)
    (hshut : w'.serverShutdown = w.serverShutdown) (hclock : w'.clock = w.clock)
    (hcasts : w'.broadcasts = w.broadcasts) (hacc : w'.accepted = w.accepted) :
    Represents w' { R with members := l } A := by
  have hstay : ∀ q ∈ l, q ∈ R.members ∧ q ≠ p := by
    intro q hq
    have hmem := hl.mem_iff.mp hq
    exact ⟨List.mem_of_mem_erase hmem,fun he => (h.nodup.not_mem_erase) (he ▸ hmem)⟩
  refine ⟨hlist,hl.nodup_iff.mpr (h.nodup.erase p),?_,?_,?_,?_,?_,hmutex.trans h.mutex,
    hshut.trans h.shutdown,hclock.trans h.clock,hcasts.trans h.broadcasts,hacc.trans h.accepted⟩
  · have hlen := hl.length_eq
    have hle := List.length_erase_le (l := R.members) (a := p)
    have hbound := h.bound
    simp only
    omega
  · intro q hq
    obtain ⟨hmem,hne⟩ := hstay q hq
    obtain ⟨mq,hc,hk,hrep,hr⟩ := h.owns q hmem
    have hfd : (R.view q).info.clientFd ≠ (R.view p).info.clientFd :=
      fun he => hne (h.fds q hmem p hp he)
    refine ⟨mq,?_,?_,{ hrep with chain := hrep.chain.frame ?_ },hr⟩
    · rw [hclients q hne,hc]
    · rw [hsocks,if_neg hfd,hk]
    · exact fun a ha => hcells a (h.cells q hmem p hp hne a ha)
  · exact fun q hq r hr he => h.fds q (hstay q hq).1 r (hstay r hr).1 he
  · exact fun q hq r hr hne a ha => h.cells q (hstay q hq).1 r (hstay r hr).1 hne a ha
  · intro f k r hk hr
    rw [hsocks] at hk
    by_cases hf : f = (R.view p).info.clientFd
    · rw [if_pos hf] at hk
      cases hk
    · rw [if_neg hf] at hk
      obtain ⟨hmem,hcf⟩ := h.registered f k r hk hr
      have hne : r.ptr ≠ p := fun he => hf (by rw [← hcf,he])
      exact ⟨hl.mem_iff.mpr ((List.mem_erase_of_ne hne).mpr hmem),hcf⟩

theorem removeClientFromList_eq {i : Nat} {c : ClientInfo} {k : Sock}
    (hfree : w.clientMutex = false) (hi : w.clientList.idxOf? p = some i)
    (hc : w.clients.get p = some c) (hk : w.socks.get c.clientFd = some k) :
    removeClientFromList w p = .ok (
      if k.oracle.closeOk = true then
        ({ w with clientMutex := false, clientList := swapRemove w.clientList i,
                  socks := w.socks.free c.clientFd, clients := w.clients.free p },0)
      else
        ({ w with clientMutex := false, clientList := swapRemove w.clientList i,
                  socks := w.socks.free c.clientFd },-1)) := by
  have hlock : w.lock = .ok { w with clientMutex := true } := by simp [World.lock,hfree]
  have hc' : World.client (World.unlock
      { w with clientMutex := true, clientList := swapRemove w.clientList i }) p = .ok c :=
    World.client_eq_ok hc
  have hk' : World.sock (World.unlock
      { w with clientMutex := true, clientList := swapRemove w.clientList i }) c.clientFd =
      .ok k := World.sock_eq_ok hk
  unfold removeClientFromList cleanupClient closeFd
  simp only [hlock,ok_bind,hi,hc',hk',pure_bind]
  by_cases hok : k.oracle.closeOk = true
  · simp [hok,pure_eq_ok,World.unlock]
  · simp [hok,pure_eq_ok,World.unlock]

/-- A closed member leaves the room, its place in the list is taken by the last
one, and its descriptor and record are gone. -/
theorem reapClient_swaps (h : Represents w R A) (hp : p ∈ R.members)
    (hfree : R.mutex = false) :
    ∃ w' i, reapClient w p = .ok w' ∧ R.members.idxOf? p = some i ∧
      Represents w' { R with members := swapRemove R.members i } A ∧
      w'.socks.get (R.view p).info.clientFd = none ∧
      ((R.view p).sock.oracle.closeOk = true → w'.clients.get p = none) := by
  obtain ⟨q,hc,hk,hq,hreg⟩ := h.owns p hp
  obtain ⟨i,hi⟩ : ∃ i, R.members.idxOf? p = some i := by
    rw [← Option.isSome_iff_exists,List.isSome_idxOf?]
    exact hp
  have hfd : ((R.view p).info.withQueue q).clientFd = (R.view p).info.clientFd := rfl
  generalize hw₁ : w.putSock (R.view p).info.clientFd { (R.view p).sock with
      registration := if (R.view p).sock.oracle.ctls.headD true then none
        else (R.view p).sock.registration
      oracle := { (R.view p).sock.oracle with
        ctls := (R.view p).sock.oracle.ctls.tail } } = w₁
  have hdel : epollCtlDel w (R.view p).info.clientFd = .ok w₁ := by
    unfold epollCtlDel
    simp only [World.sock_eq_ok hk,ok_bind,← hw₁]
    rfl
  have hc₁ : w₁.clients.get p = some ((R.view p).info.withQueue q) := by
    rw [← hw₁]
    exact hc
  have hpackets₁ : w₁.packets = w.packets := by
    rw [← hw₁]
    rfl
  obtain ⟨w₂,c₂,hrun,hc₂,hfd₂,-,hothers,hcells,hsocks,hsame⟩ :=
    freeQueue_eq (q.queuedCount+1) hc₁ (hpackets₁ ▸ hq.chain) hq.nodup
      (by rw [hq.count]; exact Nat.lt_succ_self _)
  have hfreeq : freeClientQueue w₁ p = .ok w₂ := by
    unfold freeClientQueue
    simp only [World.client_eq_ok hc₁,ok_bind]
    exact hrun
  obtain ⟨hlist₂,hmutex₂,hshut₂,hclock₂,hcasts₂,hacc₂⟩ := hsame
  rw [← hw₁] at hlist₂ hmutex₂ hshut₂ hclock₂ hcasts₂ hacc₂
  have hk₂ : ∀ f, f ≠ (R.view p).info.clientFd → w₂.socks.get f = w.socks.get f := by
    intro f hf
    rw [hsocks,← hw₁]
    exact Heap.get_set_of_ne _ _ hf
  obtain ⟨k₂,hopen₂,hok₂⟩ : ∃ k₂, w₂.socks.get c₂.clientFd = some k₂ ∧
      k₂.oracle.closeOk = (R.view p).sock.oracle.closeOk := by
    rw [hsocks,← hw₁,hfd₂]
    exact ⟨_,Heap.get_set_self _ _ _,rfl⟩
  have hremove := removeClientFromList_eq (hmutex₂.trans (h.mutex.trans hfree))
    (i := i) (by rw [hlist₂]; exact (congrArg (fun l => l.idxOf? p) h.members).trans hi)
    hc₂ hopen₂
  unfold reapClient
  simp only [World.client_eq_ok hc,ok_bind,hfd,hdel,hfreeq,hremove]
  have hgone : ∀ f, (w₂.socks.free c₂.clientFd).get f =
      if f = (R.view p).info.clientFd then none else w.socks.get f := by
    intro f
    rw [hfd₂]
    by_cases hf : f = (R.view p).info.clientFd
    · rw [if_pos hf,hf]
      exact Heap.get_free_self _ _
    · rw [if_neg hf]
      exact (Heap.get_free_of_ne _ hf).trans (hk₂ f hf)
  refine ⟨_,i,rfl,hi,?_,?_,?_⟩
  · refine leave_refines h hp (swapRemove_perm hi) ?_ ?_ ?_ ?_ ?_ ?_ ?_ ?_ ?_
    · split <;> (rw [hlist₂]; exact congrArg (fun l => swapRemove l i) h.members)
    · intro r hr
      have hkept := (hothers r hr).trans
        (by rw [← hw₁]; rfl : w₁.clients.get r = w.clients.get r)
      split
      · exact (Heap.get_free_of_ne _ hr).trans hkept
      · exact hkept
    · intro f
      split <;> exact hgone f
    · intro a ha
      have hkept := (hcells a ha).trans (by rw [hpackets₁])
      split <;> exact hkept
    · split <;> exact (h.mutex.trans hfree).symm
    · split <;> exact hshut₂
    · split <;> exact hclock₂
    · split <;> exact hcasts₂
    · split <;> exact hacc₂
  · have hself := hgone (R.view p).info.clientFd
    rw [if_pos rfl] at hself
    split <;> exact hself
  · intro hok
    rw [hok₂,if_pos hok]
    exact Heap.get_free_self _ _

theorem reapClient_refines (h : Represents w R A) (hp : p ∈ R.members)
    (hfree : R.mutex = false) :
    ∃ w' l, reapClient w p = .ok w' ∧ l.Perm (R.members.erase p) ∧
      Represents w' { R with members := l } A := by
  obtain ⟨w',i,hreap,hi,hrep,-⟩ := reapClient_swaps h hp hfree
  exact ⟨w',_,hreap,swapRemove_perm hi,hrep⟩

end Reaping
end ChatServer
