import ChatServer.Handover

/-! Properties of single records: what every operation on a record keeps, every run keeps
of all the clients that are listed. -/
set_option autoImplicit false

namespace ChatServer
open ByteString Memory Execution

/-- The four ways in which the record of a listed client changes. -/
structure Lasting (P : ClientInfo → Prop) : Prop where
  untouched : ∀ c c', Untouched c c' → P c → P c'
  reads : ∀ c c' k k' next, readTurn c k = .ok (c',k',next) → P c → P c'
  names : ∀ c c', storeClientName c = .ok c' → P c → P { c' with hasName := true }
  finishes : ∀ c c', finishMessage c = .ok c' → P c → P c'

def Action.Accepts (P : ClientInfo → Prop) (a : Action) : Prop :=
  ∀ i, a = .server i → ∀ conn, .conn conn ∈ i.accepts → conn.fcntlOk = true →
    conn.addOk = true → ∀ hint old junk, conn.info = some (hint,old) → conn.block = some junk →
      ∀ fd, P (clientInfoInit old fd (some junk)).1

section Keeping
variable {P : ClientInfo → Prop} {w : World} {p : Nat}

theorem World.All.put {c c' : ClientInfo} {w' : World} (hall : w.All P)
    (hc : w.clients.get p = some c) (hP : P c → P c') (hclients : w'.clients = w.clients.set p c')
    (hlist : w'.clientList = w.clientList) : w'.All P := by
  intro q hq i hi
  rw [hlist] at hq
  rw [hclients,Heap.get_set] at hi
  by_cases hqp : q = p
  · subst hqp
    rw [if_pos rfl] at hi
    cases hi
    exact hP (hall q hq c hc)
  · rw [if_neg hqp] at hi
    exact hall q hq i hi

theorem World.All.alike {w' : World} (hall : w.All P) (h : Alike w w') : w'.All P := by
  intro q hq i hi
  rw [h.list] at hq
  rw [h.clients] at hi
  exact hall q hq i hi

namespace Lasting

theorem processPayload (hP : Lasting P) (hall : w.All P) (copy : Option Bytes) :
    Always (processPayload w p copy) (fun res => res.1.All P) := by
  refine (processPayload_keeps w p copy).mono ?_
  rintro res (hkeeps | ⟨c,c',hc,-,hstore,rfl⟩)
  · exact hkeeps.all hP.untouched hall
  · exact hall.put hc (hP.names c c' hstore) rfl rfl

theorem readTurn (hP : Lasting P) (hall : w.All P) {c c' : ClientInfo} {k k' : Sock} {next : Next}
    (hc : w.client p = .ok c) (hturn : readTurn c k = .ok (c',k',next)) : (w.put p c' k').All P :=
  hall.put (client_eq_some hc) (hP.reads c c' k k' next hturn) rfl rfl

theorem iterates (hP : Lasting P) {w' : World} (h : Iterates p w w') (hall : w.All P) :
    w'.All P := by
  cases h with
  | again hc _ hturn => exact hP.readTurn hall hc hturn
  | answered hc _ hturn hpayload _ hnote hc₂ hfinish =>
    have hserved := (hP.processPayload (hP.readTurn hall hc hturn) _).of_ok hpayload
    have hnoted := World.All.alike hserved ((note_alike _ p _).of_ok hnote)
    exact hnoted.put (client_eq_some hc₂) (hP.finishes _ _ hfinish) rfl rfl

theorem concludes (hP : Lasting P) {w' : World} {r : Int} (h : Concludes p w w' r)
    (hall : w.All P) : w'.All P := by
  cases h with
  | turn hc _ hturn => exact hP.readTurn hall hc hturn
  | refused hc _ hturn hpayload hnote =>
    have hserved := (hP.processPayload (hP.readTurn hall hc hturn) _).of_ok hpayload
    exact World.All.alike hserved ((note_alike _ p _).of_ok hnote)

theorem handleClientReadLoop (hP : Lasting P) (fuel : Nat) (hall : w.All P) :
    Always (handleClientReadLoop fuel w p) (fun res => res.1.All P) := by
  refine Always.intro (fun res hloop => ?_)
  exact handleClientReadLoop_rule (I := fun u => u.All P) (Q := fun u _ => u.All P)
    (fun _ _ h hi => hP.iterates hi h) (fun _ _ _ h hi => hP.concludes hi h) hall hloop

theorem handleClientRead (hP : Lasting P) (hall : w.All P) :
    Always (handleClientRead w p) (fun res => res.1.All P) := by
  unfold ChatServer.handleClientRead
  refine (Always.trivial _).bind (fun c _ => ?_)
  refine (Always.trivial _).bind (fun k _ => ?_)
  refine (hP.handleClientReadLoop _ hall).bind ?_
  rintro ⟨w₁,r⟩ h₁
  refine (note_alike w₁ p _).bind (fun w₂ h₂ => ?_)
  exact World.All.alike h₁ h₂

theorem dispatch_ptr (hP : Lasting P) (hall : w.All P) (bits : EventBits)
    (accepts : List AcceptRes) :
    Always (dispatch w ⟨.ptr p,bits⟩ accepts) (World.All P) := by
  have hclose : ∀ w₁ : World, w₁.All P → Always (markClosed w₁ p) (World.All P) :=
    fun w₁ h₁ => (markClosed_keeps w₁ p).mono (fun w₂ h₂ => h₂.all hP.untouched h₁)
  refine dispatch_always hall (fun w₁ h₁ => hclose w₁ (hall.alike h₁)) ?_ ?_ bits accepts
  · intro c _ _
    refine (hP.handleClientRead hall).mono (fun res hres => ?_)
    exact ⟨fun _ => hclose res.1 hres,fun _ => hres⟩
  · intro w₁ h₁
    refine (clientTryWrite_keeps w₁ p).mono (fun res hkept => ?_)
    have hkept := hkept.all hP.untouched h₁
    exact ⟨hclose res.1 hkept,hkept⟩

theorem delivers (hP : Lasting P) {w' : World} {copy : Option Bytes} (h : Delivers p w w' copy)
    (hall : w.All P) : w'.All P := by
  induction h with
  | deliver hc _ hturn =>
    exact hall.put (client_eq_some hc) (hP.reads _ _ _ _ _ hturn) rfl rfl
  | again hc _ hturn _ ih =>
    exact ih (hall.put (client_eq_some hc) (hP.reads _ _ _ _ _ hturn) rfl rfl)
  | @answered w w₁ w₂ w' c c' c₂ c₃ k k' handed copy r hc _ hturn hpayload _ hnote hc₂ hfinish
      _ ih =>
    have hput : (w.put p c' k').All P :=
      hall.put (client_eq_some hc) (hP.reads _ _ _ _ _ hturn) rfl rfl
    have hserved := hP.processPayload (p := p) hput handed
    rw [hpayload] at hserved
    have hnoted := note_alike w₁ p (.verdict r)
    rw [hnote] at hnoted
    exact ih ((World.All.alike hserved hnoted).put (client_eq_some hc₂)
      (hP.finishes _ _ hfinish) rfl rfl)

end Lasting

theorem Lasting.run (hP : Lasting P) {acts : List Action} {s : Sys}
    (hrun : run step Sys.init acts = .ok s) (hphase : s.phase ≠ .done)
    (haccepts : ∀ a ∈ acts, a.Accepts P) : s.world.All P := by
  have hinv : s.phase ≠ .done →
      s.world.All P ∧ s.world.Idle ∧ ∃ R, Tracks s R := by
    refine run_induction_mem
      (I := fun t => t.phase ≠ .done → t.world.All P ∧ t.world.Idle ∧ ∃ R, Tracks t R) ?_ ?_ hrun
    · intro t a t' ha ih hstep hdone
      obtain ⟨hall,hidle,R,htracks⟩ := ih (fun ht => hdone (step_done ht hstep))
      obtain ⟨R',htracks',-⟩ := step_follows htracks hidle hstep hdone
      refine ⟨?_,step_idle htracks hidle hstep hdone,R',htracks'⟩
      refine step_all hP.untouched hall (fun i e es hi hphase => ?_) hstep hdone
      obtain ⟨data,bits⟩ := e
      cases data with
      | listen =>
        unfold dispatch
        refine (acceptNewClients_all hP.untouched i.accepts (haccepts a ha i hi) t.world hall
          htracks.live).bind ?_
        rintro ⟨w,r⟩ hw
        exact hw
      | ptr q => exact hP.dispatch_ptr hall bits i.accepts
    · intro _
      exact ⟨(fun p hp => by cases hp),init_idle,Room.empty,init_tracks⟩
  exact (hinv hphase).1

end Keeping
end ChatServer
