import ChatServer.RunRefinement

/-! Who may be pointed at: the client list, the epoll interest list and the
batch of events agree on which clients exist, in every state of the main loop. -/
set_option autoImplicit false

namespace ChatServer
open ByteString Memory Execution

/-- The client list and the epoll interest list hold the same live clients. -/
structure Owned (w : World) : Prop where
  bound : w.clientList.length ≤ maxClients
  distinct : w.clientList.Nodup
  live : ∀ p ∈ w.clientList, ∃ c k r, w.clients.get p = some c ∧
    w.socks.get c.clientFd = some k ∧ k.registration = some r ∧ r.ptr = p
  registered : ∀ fd k r, w.socks.get fd = some k → k.registration = some r →
    r.ptr ∈ w.clientList ∧ ∃ c, w.clients.get r.ptr = some c ∧ c.clientFd = fd

theorem Represents.owned {w : World} {R : Room} {A : Nat → List Nat} (h : Represents w R A) :
    Owned w := by
  refine ⟨?_,?_,?_,?_⟩
  · rw [h.members]
    exact h.bound
  · rw [h.members]
    exact h.nodup
  · intro p hp
    rw [h.members] at hp
    obtain ⟨q,hc,hk,-,hreg⟩ := h.owns p hp
    obtain ⟨r,hr,hptr⟩ := Option.map_eq_some_iff.mp hreg
    exact ⟨_,_,r,hc,hk,hr,hptr⟩
  · intro fd k r hk hr
    obtain ⟨hp,hfd⟩ := h.registered fd k r hk hr
    obtain ⟨q,hc,-,-,-⟩ := h.owns _ hp
    rw [h.members]
    exact ⟨hp,_,hc,hfd⟩

/-- In every state of the main loop the two lists agree, every event that still
waits in the batch belongs to a listed client, and the next program step does
not touch memory that was freed or a descriptor that was closed. -/
theorem events_owned {acts : List Action} {s : Sys}
    (hrun : run step Sys.init acts = .ok s) (hphase : s.phase ≠ .done) :
    Owned s.world ∧
      (∀ es, s.phase = .batch es → ∀ e ∈ es, ∀ p, e.data = .ptr p → p ∈ s.world.clientList) ∧
      (s.phase ≠ .closing → ∀ i e, step s (.server i) = .error e → Crash e) := by
  obtain ⟨R,htracks,-,-⟩ := run_tracks hrun hphase
  obtain ⟨A,hrep⟩ := htracks.refines
  refine ⟨hrep.owned,?_,?_⟩
  · intro es hes e he p hp
    rw [hrep.members]
    exact htracks.batch es hes e he p hp
  · intro hclosing i e he
    exact (server_follows htracks (run_idle hrun hphase) hclosing hphase i).of_error he

theorem events_owned_slowReader : ∃ s, run step Sys.init Action.slowReader = .ok s ∧
    Owned s.world ∧ s.world.clientList = [1,2] := by
  obtain ⟨s,hrun,htest⟩ := reaches_run (show reaches Action.slowReader
    (fun s => decide (s.phase ≠ .done ∧ s.world.clientList = [1,2])) = true by decide +kernel)
  obtain ⟨hphase,hlist⟩ := of_decide_eq_true htest
  exact ⟨s,hrun,(events_owned hrun hphase).1,hlist⟩

end ChatServer
