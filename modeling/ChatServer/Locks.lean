import ChatServer.Isolation
import ChatServer.RunRefinement

/-! The client mutex: which calls take it, and that each of them gives it back. -/
set_option autoImplicit false

namespace ChatServer
open ByteString Memory Execution

abbrev Lockless {α : Type} (w : World) (x : Except Fault α) (world : α → World) : Prop :=
  Holds (fun e => e ≠ .deadlock) x (fun a => (world a).clientMutex = w.clientMutex)

theorem cleanupClient_lockless (w : World) (p : Nat) :
    Lockless w (cleanupClient w p) Prod.fst := by
  unfold cleanupClient closeFd
  refine (client_lookup w p).bind (fun c _ => ?_)
  refine Holds.bind (P := fun res : World × Int => res.1.clientMutex = w.clientMutex) ?_ ?_
  · exact (sock_lookup w c.clientFd).bind (fun k _ => rfl)
  · rintro ⟨w₁,r⟩ h₁
    simp only
    split
    · exact h₁
    · exact h₁

theorem cleanupClient_eq {w w' : World} {p : Nat} {r : Int} (h : cleanupClient w p = .ok (w',r)) :
    ∃ c k, w.clients.get p = some c ∧ w.socks.get c.clientFd = some k ∧
      ((k.oracle.closeOk = true ∧ r = 0 ∧ w' = { w with
          socks := w.socks.free c.clientFd, clients := w.clients.free p }) ∨
        (k.oracle.closeOk = false ∧ r = -1 ∧ w' = { w with socks := w.socks.free c.clientFd })) := by
  unfold cleanupClient closeFd World.client World.sock at h
  cases hc : w.clients.get p with
  | none => simp [hc] at h
  | some c =>
    cases hk : w.socks.get c.clientFd with
    | none => simp [hc,hk] at h
    | some k =>
      refine ⟨c,k,rfl,hk,?_⟩
      simp only [hc,hk,ok_bind,pure_bind] at h
      cases hclose : k.oracle.closeOk with
      | true =>
        simp only [hclose,if_true] at h
        cases h
        exact .inl ⟨rfl,rfl,rfl⟩
      | false =>
        simp only [hclose,Bool.false_eq_true,if_false,if_true] at h
        cases h
        exact .inr ⟨rfl,rfl,rfl⟩

def ClosesOk (w : World) (l : List Nat) : Prop :=
  ∀ p ∈ l, ∀ c k, w.clients.get p = some c → w.socks.get c.clientFd = some k →
    k.oracle.closeOk = true

instance (w : World) (l : List Nat) : Decidable (ClosesOk w l) :=
  decidable_of_iff (∀ p ∈ l, ∀ c ∈ w.clients.get p, ∀ k ∈ w.socks.get c.clientFd,
    k.oracle.closeOk = true)
    ⟨fun h p hp c k hc hk => h p hp c hc k hk,fun h p hp c hc k hk => h p hp c k hc hk⟩

theorem closesOk_cons {w : World} {p : Nat} {rest : List Nat} {c : ClientInfo} {k : Sock}
    (hc : w.clients.get p = some c) (hk : w.socks.get c.clientFd = some k)
    (hok : k.oracle.closeOk = true) : ClosesOk w (p :: rest) ↔
      ClosesOk { w with socks := w.socks.free c.clientFd, clients := w.clients.free p } rest := by
  constructor
  · intro h q hq i j hi hj
    have hqp : q ≠ p := by
      rintro rfl
      exact absurd (hi.symm.trans (w.clients.get_free_self q)) (by simp)
    have hfd : i.clientFd ≠ c.clientFd := by
      intro he
      rw [he] at hj
      exact absurd (hj.symm.trans (w.socks.get_free_self c.clientFd)) (by simp)
    exact h q (List.mem_cons_of_mem _ hq) i j ((w.clients.get_free_of_ne hqp).symm.trans hi)
      ((w.socks.get_free_of_ne hfd).symm.trans hj)
  · intro h q hq i j hi hj
    by_cases hqp : q = p
    · rw [hqp,hc] at hi
      cases hi
      rw [hk] at hj
      cases hj
      exact hok
    · by_cases hfd : i.clientFd = c.clientFd
      · rw [hfd,hk] at hj
        cases hj
        exact hok
      · exact h q ((List.mem_cons.mp hq).resolve_left hqp) i j
          ((w.clients.get_free_of_ne hqp).trans hi) ((w.socks.get_free_of_ne hfd).trans hj)

theorem removeAllClientsLoop_mutex (l : List Nat) {w : World} (hheld : w.clientMutex = true) :
    Holds (fun e => e ≠ .deadlock) (removeAllClientsLoop l w)
      (fun res => res.1.clientMutex = false ↔ ClosesOk w l) := by
  induction l generalizing w with
  | nil => exact iff_of_true rfl (by intro p hp; cases hp)
  | cons p rest ih =>
    unfold removeAllClientsLoop
    refine (client_lookup w p).bind (fun _ _ => ?_)
    cases hclean : cleanupClient w p with
    | error e => exact (cleanupClient_lockless w p).of_error hclean
    | ok res =>
      obtain ⟨w₁,r⟩ := res
      obtain ⟨c,k,hc,hk,⟨hok,rfl,rfl⟩ | ⟨hbad,rfl,rfl⟩⟩ := cleanupClient_eq hclean
      · have hrest := ih (w := { w with
          socks := w.socks.free c.clientFd, clients := w.clients.free p }) hheld
        rw [ok_bind]
        simp only
        rw [if_neg (by decide)]
        exact hrest.mono (fun _ h => h.trans (closesOk_cons hc hk hok).symm)
      · rw [ok_bind]
        refine iff_of_false (by simp [hheld]) (fun h => ?_)
        rw [h p (by simp) c k hc hk] at hbad
        cases hbad

inductive LockCall where
  | add (client : Nat)
  | remove (client : Nat)
  | removeAll
  | broadcast (sender : Option Nat) (msg : Bytes)

namespace LockCall

def run (w : World) : LockCall → Except Fault (World × Int)
  | .add p => addClientToList w p
  | .remove p => removeClientFromList w p
  | .removeAll => removeAllClients w
  | .broadcast sender msg => ChatServer.broadcast w sender msg

/-- The exits of a call on which the mutex is given back. -/
def Releases (w : World) : LockCall → Prop
  | .add _ => True
  | .remove p => p ∈ w.clientList
  | .removeAll => ClosesOk w w.clientList
  | .broadcast _ _ => True

def perform (w : World) (call : LockCall) : Except Fault World := do
  let (w,_) ← call.run w
  pure w

/-- Every call gives the mutex back, in the state in which it is made. -/
def Disciplined (w : World) : List LockCall → Prop
  | [] => True
  | call :: rest => call.Releases w ∧ ∀ w', call.perform w = .ok w' → Disciplined w' rest

instance (w : World) : ∀ call : LockCall, Decidable (call.Releases w)
  | .add _ => inferInstanceAs (Decidable True)
  | .remove p => inferInstanceAs (Decidable (p ∈ w.clientList))
  | .removeAll => inferInstanceAs (Decidable (ClosesOk w w.clientList))
  | .broadcast _ _ => inferInstanceAs (Decidable True)

def disciplined (w : World) : List LockCall → Bool
  | [] => true
  | call :: rest => decide (call.Releases w) && match call.perform w with
    | .ok w' => disciplined w' rest
    | .error _ => true

theorem disciplined_iff {w : World} {calls : List LockCall} :
    disciplined w calls = true ↔ Disciplined w calls := by
  induction calls generalizing w with
  | nil => exact iff_of_true rfl trivial
  | cons call rest ih =>
    unfold disciplined Disciplined
    rw [Bool.and_eq_true,decide_eq_true_eq]
    refine and_congr_right (fun _ => ?_)
    cases hcall : call.perform w with
    | error e => simp
    | ok w' => simp [ih]

end LockCall

theorem lock_eq {w : World} (hfree : w.clientMutex = false) :
    w.lock = .ok { w with clientMutex := true } := by
  simp [World.lock,hfree]

section Exits
variable {w : World} (hfree : w.clientMutex = false)
include hfree

theorem addClientToList_mutex (p : Nat) : Holds (fun e => e ≠ .deadlock) (addClientToList w p)
    (fun res => res.1.clientMutex = false) := by
  unfold addClientToList
  rw [lock_eq hfree,ok_bind]
  split
  · exact rfl
  · refine (client_lookup _ p).bind (fun c _ => ?_)
    unfold closeFd
    refine Holds.bind (P := fun res : World × Int => res.1.clientMutex = false) ?_ ?_
    · exact (sock_lookup _ c.clientFd).bind (fun k _ => rfl)
    · rintro ⟨w₁,r⟩ h₁
      exact h₁

theorem removeClientFromList_mutex (p : Nat) :
    Holds (fun e => e ≠ .deadlock) (removeClientFromList w p)
      (fun res => res.1.clientMutex = false ↔ p ∈ w.clientList) := by
  unfold removeClientFromList
  rw [lock_eq hfree,ok_bind]
  simp only
  cases hidx : w.clientList.idxOf? p with
  | none =>
    have hnot : p ∉ w.clientList := List.idxOf?_eq_none_iff.mp hidx
    exact iff_of_false (by simp) hnot
  | some i =>
    have hmem : p ∈ w.clientList := by
      by_contra hnot
      rw [List.idxOf?_eq_none_iff.mpr hnot] at hidx
      cases hidx
    simp only
    refine (cleanupClient_lockless _ p).bind ?_
    rintro ⟨w₁,r⟩ h₁
    simp only
    split
    · exact iff_of_true h₁ hmem
    · exact iff_of_true h₁ hmem

theorem removeAllClients_mutex : Holds (fun e => e ≠ .deadlock) (removeAllClients w)
    (fun res => res.1.clientMutex = false ↔ ClosesOk w w.clientList) := by
  unfold removeAllClients
  rw [lock_eq hfree,ok_bind]
  refine (removeAllClientsLoop_mutex w.clientList.reverse rfl).mono (fun res h => h.trans ?_)
  simp [ClosesOk]

theorem broadcast_mutex (sender : Option Nat) (msg : Bytes) :
    Holds (fun e => e ≠ .deadlock) (broadcast w sender msg)
      (fun res => res.1.clientMutex = false) := by
  unfold broadcast
  rw [lock_eq hfree,ok_bind]
  exact (broadcastLoop_confined sender _ msg w.clientList _).bind (fun w₁ _ => rfl)

theorem LockCall.mutex (call : LockCall) : Holds (fun e => e ≠ .deadlock) (call.run w)
    (fun res => res.1.clientMutex = false ↔ call.Releases w) := by
  cases call with
  | add p => exact (addClientToList_mutex hfree p).mono (fun _ h => iff_of_true h True.intro)
  | remove p => exact removeClientFromList_mutex hfree p
  | removeAll => exact removeAllClients_mutex hfree
  | broadcast sender msg =>
    exact (broadcast_mutex hfree sender msg).mono (fun _ h => iff_of_true h True.intro)

end Exits

/-- Called with the mutex free, a call does not wait for it, and gives it back exactly
when it leaves by one of the exits that release it. A sequence of calls that all
do so never waits for the mutex and leaves it free. -/
theorem lock_discipline_iff {w : World} (hfree : w.clientMutex = false) :
    (∀ call : LockCall, call.run w ≠ .error .deadlock ∧
      ∀ w' r, call.run w = .ok (w',r) → (w'.clientMutex = false ↔ call.Releases w)) ∧
    ∀ calls, LockCall.Disciplined w calls →
      run LockCall.perform w calls ≠ .error .deadlock ∧
        ∀ w', run LockCall.perform w calls = .ok w' → w'.clientMutex = false := by
  refine ⟨fun call => ⟨fun he => ?_,fun w' r h => ?_⟩,fun calls hdis => ?_⟩
  · exact (call.mutex hfree).of_error he rfl
  · exact (call.mutex hfree).of_ok h
  · induction calls generalizing w with
    | nil => exact ⟨by simp,fun w' h => by cases h; exact hfree⟩
    | cons call rest ih =>
      obtain ⟨hreleases,hrest⟩ := hdis
      have hcall := call.mutex hfree
      simp only [run_cons]
      cases hstep : call.run w with
      | error e =>
        have herror : LockCall.perform w call = .error e := by
          unfold LockCall.perform
          rw [hstep]
          rfl
        rw [herror]
        exact ⟨fun he => hcall.of_error hstep (by cases he; rfl),fun w' h => by cases h⟩
      | ok res =>
        have hthen : LockCall.perform w call = .ok res.1 := by
          unfold LockCall.perform
          rw [hstep]
          rfl
        rw [hthen]
        exact ih ((hcall.of_ok hstep).mpr hreleases) (hrest _ hthen)

def Action.threeJoin : List Action :=
  connects 1 5 .quiet ++ connects 2 6 .quiet ++ connects 3 7 .quiet

/-- One of three clients is removed, and the others are when a broadcast has been queued. -/
theorem lock_discipline_iff_threeJoin : ∃ s w w' r,
    run step Sys.init Action.threeJoin = .ok s ∧ s.world.clientList = [1,2,3] ∧
    LockCall.run s.world (.remove 2) = .ok (w',r) ∧ w'.clientMutex = false ∧
    run LockCall.perform s.world [.broadcast (some 1) (ascii "hi"),.remove 2,.removeAll] = .ok w ∧
    w.clientMutex = false ∧ w.clientList = [1,3] ∧
    w.socks.get 5 = none ∧ w.socks.get 6 = none ∧ w.socks.get 7 = none := by
  obtain ⟨s,hrun,c,k,-,-,htest⟩ := reaches_listed
    (show reachesListed Action.threeJoin 1 (fun s _ _ =>
      decide (s.world.clientMutex = false ∧ s.world.clientList = [1,2,3]) &&
      (match LockCall.run s.world (.remove 2) with
      | .ok _ => true
      | .error _ => false) &&
      LockCall.disciplined s.world [.broadcast (some 1) (ascii "hi"),.remove 2,.removeAll] &&
      match run LockCall.perform s.world [.broadcast (some 1) (ascii "hi"),.remove 2,
        .removeAll] with
      | .ok w => decide (w.clientList = [1,3] ∧ (w.socks.get 5).isNone = true ∧
        (w.socks.get 6).isNone = true ∧ (w.socks.get 7).isNone = true)
      | .error _ => false) = true by decide +kernel)
  simp only [Bool.and_eq_true,decide_eq_true_eq] at htest
  obtain ⟨⟨⟨⟨hfree,hlist⟩,hremoves⟩,hdis⟩,hall⟩ := htest
  have hlocks := lock_discipline_iff hfree
  split at hremoves
  · rename_i res hremove
    split at hall
    · rename_i w hperform
      have hcalls := hlocks.2 _ (LockCall.disciplined_iff.mp hdis)
      simp only [Option.isNone_iff_eq_none,decide_eq_true_eq] at hall
      refine ⟨s,w,res.1,res.2,hrun,hlist,hremove,?_,hperform,hcalls.2 w hperform,hall⟩
      exact ((hlocks.1 (.remove 2)).2 res.1 res.2 hremove).mpr (by
        show 2 ∈ s.world.clientList
        simp [hlist])
    · cases hall
  · cases hremoves

/-- A client that is not listed: the mutex stays locked, and the next broadcast waits
for it forever. -/
theorem lock_lost : ∃ w, LockCall.run World.init (.remove 1) = .ok (w,-1) ∧
    w.clientMutex = true ∧ LockCall.run w (.broadcast none shutdownMessage) = .error .deadlock :=
  ⟨_,rfl,rfl,rfl⟩

end ChatServer
