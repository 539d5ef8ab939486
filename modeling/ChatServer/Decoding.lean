import ChatServer.Hearing
import ChatServer.Progress
import ChatServer.RunRefinement

/-! The messages of every client, in every run, are those of the reference
decoder, and fragmented messages arrive as they were sent. -/
set_option autoImplicit false

namespace ChatServer
open ByteString Memory Execution Relation

theorem readTurn_took {c c' : ClientInfo} {k k' : Sock} {next : Next}
    (h : readTurn c k = .ok (c',k',next)) :
    ∃ k₁ bs, Took k k₁ bs ∧ (k' = k₁ ∨ ∃ m, k' = k₁.note (.message m)) := by
  rcases readTurn_turn h with ⟨-,hturn⟩ | ⟨-,hturn⟩
  · cases hturn with
    | blocked hread => exact ⟨_,_,Took.of_again hread,.inl rfl⟩
    | failed hread => exact ⟨_,_,(Took.of_failed hread).1,.inl rfl⟩
    | ended hread => exact ⟨_,_,Took.of_bytes hread,.inl rfl⟩
    | short _ hread => exact ⟨_,_,Took.of_bytes hread,.inl rfl⟩
    | tooLarge _ hread => exact ⟨_,_,Took.of_bytes hread,.inl rfl⟩
    | complete _ hread => exact ⟨_,_,Took.of_bytes hread,.inl rfl⟩
  · cases hturn with
    | blocked hread => exact ⟨_,_,Took.of_again hread,.inl rfl⟩
    | failed hread => exact ⟨_,_,(Took.of_failed hread).1,.inl rfl⟩
    | short hread => exact ⟨_,_,Took.of_bytes hread,.inl rfl⟩
    | long hread => exact ⟨_,_,Took.of_bytes hread,.inl rfl⟩
    | fragment hread _ _ happend =>
      have hblock := Took.of_block (appendToClientBuffer_frame happend).1
      exact ⟨_,_,(Took.of_bytes hread).trans hblock,.inl rfl⟩
    | message hread _ _ happend _ hcopy =>
      have hblock := Took.of_block (appendToClientBuffer_frame happend).1
      have hlast := Took.of_block (copyBuffer_frame hcopy)
      exact ⟨_,_,((Took.of_bytes hread).trans hblock).trans hlast,.inr ⟨_,rfl⟩⟩

theorem readTurn_ret {c c' : ClientInfo} {k k' : Sock} {r : Int}
    (h : readTurn c k = .ok (c',k',.ret r)) : r = 0 ∨ r = -1 := by
  rcases readTurn_turn h with ⟨-,hturn⟩ | ⟨-,hturn⟩ <;>
    cases hturn <;> first | exact .inl rfl | exact .inr rfl

def Obs.harmless (o : Obs) : Bool := !(o == .verdict (-1)) && !(o == .readReturned (-1))

theorem taking_harmless {o : Obs} (h : o.taking = true) : o.harmless = true := by
  cases o <;> first | rfl | cases h

theorem quiet_harmless {o : Obs} (h : o.ofReader = false) : o.harmless = true := by
  cases o <;> first | rfl | cases h

/-- An open client was refused nothing, and a rejected one is not read any more. -/
structure Stops (closed : Bool) (trace : List Obs) : Prop where
  running : closed = false → ∀ o ∈ trace, o.harmless = true
  stopped : Each (fun a o => .readReturned (-1) ∈ a → o.ofReader = false) trace

namespace Stops
variable {closed closed' : Bool} {trace l : List Obs}

theorem nil : Stops false [] := ⟨by simp,Each.nil⟩

theorem quiet (h : Stops closed trace) (hclosed : closed = true → closed' = true)
    (hl : ∀ o ∈ l, o.ofReader = false) : Stops closed' (trace ++ l) := by
  refine ⟨?_,h.stopped.append ?_⟩
  · intro hopen o ho
    have hopen' : closed = false := by
      cases hc : closed with
      | false => rfl
      | true =>
        rw [hclosed hc] at hopen
        cases hopen
    rcases List.mem_append.mp ho with ho | ho
    · exact h.running hopen' o ho
    · exact quiet_harmless (hl o ho)
  · intro a o rest he _
    exact hl o (by rw [he]; simp)

theorem harmless (h : Stops false trace) (hl : ∀ o ∈ l, o.harmless = true) :
    Stops false (trace ++ l) := by
  refine ⟨?_,h.stopped.append ?_⟩
  · intro _ o ho
    rcases List.mem_append.mp ho with ho | ho
    · exact h.running rfl o ho
    · exact hl o ho
  · intro a o rest he hmem
    have hbad : Obs.harmless (.readReturned (-1)) = true := by
      rcases List.mem_append.mp hmem with ho | ho
      · exact h.running rfl _ ho
      · exact hl _ (by rw [he]; simp [ho])
    cases hbad

theorem close {r : Int} (h : Stops false trace) (hl : .readReturned (-1) ∉ l) :
    Stops true (trace ++ (l ++ [.readReturned r,.markedClosed])) := by
  have hnot : .readReturned (-1) ∉ trace := fun hmem => by cases h.running rfl _ hmem
  refine ⟨fun hc => (by cases hc),h.stopped.append ?_⟩
  intro a o rest he hmem
  rcases List.append_eq_append_iff.mp he with ⟨b,rfl,hb⟩ | ⟨b,rfl,-⟩
  · cases b with
    | nil =>
      exfalso
      simp [hnot,hl] at hmem
    | cons x b =>
      simp only [List.cons_append,List.cons.injEq] at hb
      obtain ⟨-,hb⟩ := hb
      cases b with
      | nil =>
        simp only [List.nil_append,List.cons.injEq] at hb
        rw [← hb.1]
        rfl
      | cons y b => simp at hb
  · exfalso
    simp only [List.mem_append] at hmem
    rcases hmem with hmem | hmem
    · exact hnot hmem
    · exact hl (List.mem_append_left _ hmem)

theorem took {k k' : Sock} {bs : Bytes} (h : Stops false k.trace) (htook : Took k k' bs) :
    Stops false k'.trace := by
  obtain ⟨more,ht,hm⟩ := htook.trace
  rw [ht]
  exact h.harmless (fun o ho => taking_harmless (hm o ho))

theorem turn {c c' : ClientInfo} {k k' : Sock} {next : Next} (h : Stops false k.trace)
    (hturn : readTurn c k = .ok (c',k',next)) : Stops false k'.trace := by
  obtain ⟨k₁,bs,htook,rfl | ⟨m,rfl⟩⟩ := readTurn_took hturn
  · exact h.took htook
  · exact (h.took htook).harmless (l := [.message m]) (by simp [Obs.harmless])

theorem stop {v : View} {r : Int} (h : Stops false v.sock.trace)
    (hopen : v.info.closed = false) (hr : r = 0 ∨ r = -1) :
    Stops (v.stop r).info.closed (v.stop r).sock.trace := by
  unfold View.stop
  rcases hr with rfl | rfl
  · simp only [Int.lt_irrefl,if_false]
    rw [View.note_info,hopen]
    exact h.harmless (l := [.readReturned 0]) (by simp [Obs.harmless])
  · have hclose := h.close (l := []) (r := -1) (by simp)
    simpa [View.markClosed,View.note,Sock.note] using hclose

theorem answer {v v' : View} {r : Int} (h : Stops false v.sock.trace)
    (hopen : v.info.closed = false) (hanswer : v.answer r = .ok v') :
    Stops v'.info.closed v'.sock.trace := by
  rcases View.answer_cases hanswer with ⟨-,rfl⟩ | ⟨c,hr,hfinish,rfl⟩
  · have hclose := h.close (l := [.verdict r]) (r := -1) (by simp)
    simpa [View.stop,View.markClosed,View.note,Sock.note] using hclose
  · simp only
    rw [(finishMessage_frame hfinish).closed,hopen]
    exact h.harmless (l := [.verdict r]) (by simp [Obs.harmless,hr])

theorem hears {v v' : View} (h : Stops v.info.closed v.sock.trace) (hstep : View.Hears v v') :
    Stops v'.info.closed v'.sock.trace := by
  cases hstep with
  | still hstill =>
    obtain ⟨-,hclosed,more,ht,hmore⟩ := hstill
    rw [ht]
    exact h.quiet hclosed hmore
  | receive hopen hread =>
    rw [(readTurn_frame hread.1).1.closed,hopen]
    rw [hopen] at h
    exact h.turn hread.1
  | @pause v₁ r hopen hread =>
    have hstill : v₁.info.closed = false := (readTurn_frame hread.1).1.closed.trans hopen
    rw [hopen] at h
    exact (h.turn hread.1).stop hstill (readTurn_ret hread.1)
  | @name v₁ _ copy c hopen hread hname hstore hanswer =>
    have hstill : v₁.info.closed = false := (readTurn_frame hread.1).1.closed.trans hopen
    rw [hopen] at h
    exact answer (v := { v₁ with info := { c with hasName := true } }) (h.turn hread.1)
      ((storeClientName_frame hstore).2.trans hstill) hanswer
  | @message v₁ v₂ _ copy r hopen hread hname hstill hclosed hanswer =>
    obtain ⟨-,-,more,ht,hmore⟩ := hstill
    rw [hopen] at h
    refine answer ?_ hclosed hanswer
    rw [ht]
    exact (h.turn hread.1).quiet id hmore

end Stops

theorem reach_stops {R R' : Room} (h : ReflTransGen Act R R')
    (hstops : ∀ p ∈ R.members, Stops (R.view p).info.closed (R.view p).sock.trace) :
    ∀ p ∈ R'.members, Stops (R'.view p).info.closed (R'.view p).sock.trace := by
  induction h with
  | refl => exact hstops
  | tail _ hact ih =>
    intro q hq
    rcases hact.hears hq with ⟨hmem,hstep⟩ | ⟨serial,joined,old,fd,junk,oracle,hfresh⟩
    · exact (ih q hmem).hears hstep
    · rw [hfresh]
      exact Stops.nil

section Runs
variable {acts : List Action} {s : Sys} {p : Nat} {c : ClientInfo} {k : Sock}

/-- What the reader of a listed client has done, in any state of a run. -/
structure Read (refuses : Nat → Bool) (ms : List Bytes) (c : ClientInfo) (k : Sock) : Prop where
  heard : Heard refuses ms k.trace
  naming : Naming c ms
  parses : c.closed = false → Parses refuses c k.trace ms
  stops : Stops c.closed k.trace
  idle : c.closed = false → Suspended c

theorem listed_read {refuses : Nat → Bool} (hrun : run step Sys.init acts = .ok s)
    (hphase : s.phase ≠ .done) (h : Listed s p c k) (hforetells : Foretells refuses k.trace) :
    ∃ ms, Read refuses ms c k := by
  obtain ⟨R,htracks,hseated,hacts⟩ := run_tracks hrun hphase
  have hnone : ∀ p, p ∉ Room.empty.members := by simp [Room.empty]
  obtain ⟨hp,hseats⟩ := htracks.seats hseated h
  have hsock : k = (R.view p).sock := hseats.sock
  have hinfo : c = (R.view p).info.withQueue c.msgQueue := hseats.info
  rw [hsock] at hforetells
  obtain ⟨ms,hheard,hnaming,hparses⟩ :=
    reach_heard hacts (fun p hp => absurd hp (hnone p)) p hp refuses hforetells
  have hstops := reach_stops hacts (fun p hp => absurd hp (hnone p)) p hp
  rw [← hsock] at hheard hparses hstops
  refine ⟨ms,hheard,?_,?_,?_,fun hopen => run_idle hrun hphase p h.listed c h.info hopen⟩
  · rw [hinfo]
    exact hnaming.congr rfl rfl rfl
  · intro hopen
    rw [hinfo] at hopen ⊢
    have hsame := (hparses hopen).still (d := (R.view p).info.withQueue c.msgQueue)
      (l := []) rfl rfl
    simpa using hsame
  · rw [hinfo]
    exact hstops

structure World.Shows (w : World) (p : Nat) (c : ClientInfo) (k : Sock) : Prop where
  info : w.clients.get p = some c
  sock : w.socks.get c.clientFd = some k

theorem Refines.shows {w : World} {R : Room} (h : Refines w R) (hp : p ∈ R.members) :
    ∃ q, w.Shows p ((R.view p).info.withQueue q) (R.view p).sock := by
  obtain ⟨A,h⟩ := h
  obtain ⟨q,hc,hk,-⟩ := h.owns p hp
  exact ⟨q,hc,hk⟩

theorem Refines.shown {w : World} {R : Room} (h : Refines w R) (hp : p ∈ R.members)
    (hshows : w.Shows p c k) :
    (∃ q, c = (R.view p).info.withQueue q) ∧ k = (R.view p).sock := by
  obtain ⟨q,hc,hk⟩ := h.shows hp
  have hinfo := hshows.info
  rw [hc] at hinfo
  cases hinfo
  exact ⟨⟨q,rfl⟩,Option.some.inj (hshows.sock.symm.trans hk)⟩

structure Answered (refuses : Nat → Bool) (ms : List Bytes) (c : ClientInfo) (k : Sock)
    (r : Int) : Prop where
  heard : Heard refuses ms k.trace
  naming : Naming c ms
  parses : r = 0 → Parses refuses c k.trace ms

theorem Heard.unmark {refuses : Nat → Bool} {ms : List Bytes} {trace : List Obs}
    (h : Heard refuses ms (trace ++ [.markedClosed])) : Heard refuses ms trace := by
  obtain ⟨hcopies,hverdicts,hdecoded,hcalls⟩ := h
  have hm : messages (trace ++ [.markedClosed]) = messages trace := by simp [messages]
  have hv : ChatServer.verdicts (trace ++ [.markedClosed]) = ChatServer.verdicts trace := by
    simp [ChatServer.verdicts]
  have hr : received (trace ++ [.markedClosed]) = received trace := by simp [received]
  rw [hr] at hdecoded
  refine ⟨?_,by rw [← hv,hverdicts],hdecoded,?_⟩
  · unfold Copies at hcopies ⊢
    rw [hm] at hcopies
    simpa using hcopies
  · intro a o rest he
    exact hcalls a o (rest ++ [.markedClosed]) (by rw [he]; simp)

theorem call_read {w : World} {r : Int} (hrun : run step Sys.init acts = .ok s)
    (hphase : s.phase ≠ .done) (h : Listed s p c k) (hopen : c.closed = false)
    (hcall : handleClientRead s.world p = .ok (w,r)) :
    ∃ c' k', w.Shows p c' k' ∧ (∃ trace, k'.trace = trace ++ [.readReturned r]) ∧
      (r = -1 ∨ (r = 0 ∧ Suspended c')) ∧
      ∀ refuses, Foretells refuses k'.trace → ∃ ms, Answered refuses ms c' k' r := by
  obtain ⟨R,htracks,hseated,hacts⟩ := run_tracks hrun hphase
  have hnone : ∀ p, p ∉ Room.empty.members := by simp [Room.empty]
  obtain ⟨hp,hseats⟩ := htracks.seats hseated h
  have hopen' : (R.view p).info.closed = false := hseats.closed.trans hopen
  have hstep := handleClientRead_refines htracks.refines hp htracks.mutex hopen'
  have hidle := handleClientRead_suspended (w := s.world) p
    (fun i hi => run_idle hrun hphase p h.listed i hi (by
      rw [h.info] at hi
      cases hi
      exact hopen))
  rw [hcall] at hstep hidle
  obtain ⟨S,hmem,-,hstill,href,hrest⟩ := hstep
  have hpS : p ∈ S.members := by
    rw [hmem]
    exact hp
  obtain ⟨q,hshows⟩ := href.shows hpS
  rw [Room.view_set_self] at hshows
  refine ⟨_,_,hshows,⟨_,rfl⟩,?_,?_⟩
  · rcases hidle with hneg | ⟨hzero,hsusp⟩
    · exact .inl hneg
    · exact .inr ⟨hzero,hsusp _ hshows.info⟩
  · intro refuses hforetells
    have hheard := reach_heard (hacts.trans hrest) (fun p hp => absurd hp (hnone p)) p hpS refuses
    rw [Room.view_set_self] at hheard
    unfold View.stop at hheard
    by_cases hr : r < 0
    · simp only [hr,if_true] at hheard
      obtain ⟨ms,hheard,hnaming,-⟩ := hheard (by
        intro i r' hi
        refine hforetells i r' ?_
        simpa [View.markClosed,View.note,Sock.note,verdicts] using hi)
      refine ⟨ms,hheard.unmark,hnaming.congr rfl rfl rfl,fun hzero => ?_⟩
      omega
    · simp only [hr,if_false] at hheard
      obtain ⟨ms,hheard,hnaming,hparses⟩ := hheard hforetells
      refine ⟨ms,hheard,hnaming.congr rfl rfl rfl,fun _ => ?_⟩
      have hsame := (hparses hstill).still (d := (S.view p).info.withQueue q) (l := []) rfl rfl
      simpa using hsame

def refusals (trace : List Obs) (i : Nat) : Bool := decide ((verdicts trace)[i]? = some (-1))

theorem refusals_foretell (trace : List Obs) : Foretells (refusals trace) trace := by
  intro i r hi
  simp [refusals,hi]

/-- With memory to allocate a call returns, and no allocation has failed in it. -/
theorem call_returns (hrun : run step Sys.init acts = .ok s) (hphase : s.phase ≠ .done)
    (h : Listed s p c k) (hopen : c.closed = false) (hplenty : Plentiful k)
    (hblocks : .blockFailed ∉ k.trace) :
    ∃ w r, handleClientRead s.world p = .ok (w,r) ∧
      ∀ c' k', w.Shows p c' k' → .blockFailed ∉ k'.trace := by
  obtain ⟨R,htracks,hseated,-⟩ := run_tracks hrun hphase
  obtain ⟨hp,hseats⟩ := htracks.seats hseated h
  obtain ⟨ms,hread⟩ := listed_read hrun hphase h (refusals_foretell k.trace)
  obtain ⟨done,tail,message,-,hframe,-,hholding⟩ := hread.parses hopen
  have hstored : Stored c message := by
    rcases hholding with hstored | ⟨-,hfailed⟩
    · exact hstored
    · exact absurd hfailed hblocks
  have hsound : Sound (R.view p).info := by
    rw [hseats.info] at hframe hstored
    refine ⟨⟨tail,?_⟩,message,hstored.congr rfl⟩
    cases hframe with
    | header hstate hlt => exact .header hstate hlt
    | payload hstate hlen hdone hle hpart => exact .payload hstate hlen hdone hle hpart
  have hk : k = (R.view p).sock := hseats.sock
  rw [hk] at hplenty hblocks
  obtain ⟨⟨w,r⟩,hcall,S,href,hpS,hspends⟩ :=
    handleClientRead_ok htracks.refines hp htracks.mutex hsound hplenty
  refine ⟨w,r,hcall,?_⟩
  intro c' k' hshows hfailed
  rw [(href.shown hpS hshows).2] at hfailed
  exact hblocks (hspends.trace hplenty hfailed)

/-- The call that left the socket `k` and returned `r` is where the reference
decoder is, on the bytes that were taken in so far. -/
structure Decided (refuses : Nat → Bool) (k : Sock) (r : Int) : Prop where
  handed : messages k.trace = (decode refuses (received k.trace)).messages.map some
  ahead : ∀ more, (decode refuses (received k.trace)).messages <+:
    (decode refuses (received k.trace ++ more)).messages
  rejected : r = -1 ↔ (decode refuses (received k.trace)).Rejected
  accepted : r = 0 ↔ ¬ (decode refuses (received k.trace)).Rejected
  position : r = -1 → (decode refuses (received k.trace)).consumed = (received k.trace).length ∧
    ∀ more, decode refuses (received k.trace ++ more) = decode refuses (received k.trace)

theorem Answered.decided {refuses : Nat → Bool} {ms : List Bytes} {r : Int} {trace : List Obs}
    (h : Answered refuses ms c k r) (ht : k.trace = trace ++ [.readReturned r])
    (hblocks : .blockFailed ∉ k.trace) (hend : .endOfStream ∉ k.trace)
    (hfail : .readFailed ∉ k.trace) : Decided refuses k r := by
  have hreceived : received k.trace = received trace := by rw [ht]; simp [received]
  have hmessages : messages k.trace = messages trace := by rw [ht]; simp [messages]
  simp only [ht,List.mem_append,not_or] at hblocks hend hfail
  obtain ⟨hcopies,hahead,hrejected,haccepted⟩ := h.heard.calls trace _ [] ht r rfl hfail.1
  have hzero : ¬ (decode refuses (received trace)).Rejected → r = 0 := by
    intro hnot
    rcases haccepted hnot with hr | ⟨-,hbad⟩
    · exact hr
    · exact absurd hbad hend.1
  have hneg : r = -1 ↔ (decode refuses (received trace)).Rejected := by
    refine ⟨fun hr => ?_,fun hrej => (hrejected hrej).1⟩
    by_contra hnot
    have hbad := hzero hnot
    omega
  rw [← hreceived] at hcopies hahead hrejected hzero hneg
  refine ⟨?_,hahead,hneg,⟨fun hr hrej => ?_,hzero⟩,fun hr => (hrejected (hneg.mp hr)).2⟩
  · rcases hcopies with hcopies | ⟨hbad,-⟩
    · rw [hmessages,hcopies]
    · exact absurd hbad hblocks.1
  · have hbad := (hrejected hrej).1
    omega

/-- Every call of `handle_client_read` returns, and what it has handed over and
whether it rejects is what the reference decoder says of the bytes so far, in
whichever way they came. -/
theorem reader_decodes (hrun : run step Sys.init acts = .ok s) (hphase : s.phase ≠ .done)
    (h : Listed s p c k) (hopen : c.closed = false) (hplenty : Plentiful k)
    (hblocks : .blockFailed ∉ k.trace) :
    ∃ w r c' k', handleClientRead s.world p = .ok (w,r) ∧ w.Shows p c' k' ∧
      (.endOfStream ∉ k'.trace → .readFailed ∉ k'.trace →
        ∀ refuses, Foretells refuses k'.trace → Decided refuses k' r ∧
          ∀ k₂ r₂, Decided refuses k₂ r₂ → received k₂.trace = received k'.trace →
            messages k₂.trace = messages k'.trace ∧ r₂ = r) := by
  obtain ⟨w,r,hcall,hkept⟩ := call_returns hrun hphase h hopen hplenty hblocks
  obtain ⟨c',k',hshows,⟨trace,ht⟩,hr,hread⟩ := call_read hrun hphase h hopen hcall
  refine ⟨w,r,c',k',hcall,hshows,?_⟩
  intro hend hfail refuses hforetells
  obtain ⟨ms,hanswered⟩ := hread refuses hforetells
  have hdecided := hanswered.decided ht (hkept c' k' hshows) hend hfail
  refine ⟨hdecided,?_⟩
  intro k₂ r₂ h₂ hsame
  have hmessages := h₂.handed
  have hrejected := h₂.rejected
  have haccepted := h₂.accepted
  rw [hsame] at hmessages hrejected haccepted
  refine ⟨by rw [hmessages,hdecided.handed],?_⟩
  by_cases hrej : (decode refuses (received k'.trace)).Rejected
  · rw [hrejected.mpr hrej,hdecided.rejected.mpr hrej]
  · rw [haccepted.mpr hrej,hdecided.accepted.mpr hrej]

def callLeaves (w : World) (p : Nat) (test : Sock → Bool) : Bool :=
  match handleClientRead w p with
  | .error _ => false
  | .ok (w,_) =>
    match w.clients.get p with
    | none => false
    | some c =>
      match w.socks.get c.clientFd with
      | none => false
      | some k => test k

theorem callLeaves_shows {w w' : World} {r : Int} {test : Sock → Bool}
    (h : callLeaves w p test = true) (hcall : handleClientRead w p = .ok (w',r))
    (hshows : w'.Shows p c k) : test k = true := by
  unfold callLeaves at h
  simpa [hcall,hshows.info,hshows.sock] using h

theorem reader_decodes_slowReader : ∃ s c k w r c' k',
    run step Sys.init Action.slowReader = .ok s ∧ Listed s 1 c k ∧
    handleClientRead s.world 1 = .ok (w,r) ∧ w.Shows 1 c' k' ∧
    Decided (refusals k'.trace) k' r := by
  obtain ⟨s,hrun,c,k,hphase,hlisted,htest⟩ := reaches_listed
    (show reachesListed Action.slowReader 1 (fun s c k => decide (c.closed = false ∧
      (∀ b ∈ k.oracle.blocks, b ≠ none) ∧ .blockFailed ∉ k.trace ∧ callLeaves s.world 1 (fun k' =>
        decide (.endOfStream ∉ k'.trace ∧ .readFailed ∉ k'.trace)) = true)) = true
      by decide +kernel)
  obtain ⟨hopen,hplenty,hblocks,hleaves⟩ := of_decide_eq_true htest
  obtain ⟨w,r,c',k',hcall,hshows,hdecides⟩ :=
    reader_decodes hrun hphase hlisted hopen hplenty hblocks
  obtain ⟨hend,hfail⟩ := of_decide_eq_true (callLeaves_shows hleaves hcall hshows)
  exact ⟨s,c,k,w,r,c',k',hrun,hlisted,hcall,hshows,
    (hdecides hend hfail _ (refusals_foretell k'.trace)).1⟩

theorem CurrentFrame.nil (h : CurrentFrame c []) :
    c.state = .readHeader ∧ c.headerBytesRead = 0 := by
  generalize htail : ([] : Bytes) = tail at h
  cases h with
  | header hstate hlt =>
    refine ⟨hstate,?_⟩
    have hlen := congrArg List.length htail
    rw [List.length_take,c.headerBuffer.size] at hlen
    simp only [List.length_nil] at hlen
    unfold headerSize at hlt hlen
    omega
  | payload =>
    have hlen := congrArg List.length htail
    rw [List.length_append,c.headerBuffer.size] at hlen
    unfold headerSize at hlen
    simp only [List.length_nil] at hlen
    omega

/-- Messages that are encoded in fragments, with any types, are handed over one
by one when the last byte is taken in, and the reader waits for a header again. -/
theorem fragments_roundTrip (hrun : run step Sys.init acts = .ok s) (hphase : s.phase ≠ .done)
    (h : Listed s p c k) (hopen : c.closed = false) (hplenty : Plentiful k)
    (hblocks : .blockFailed ∉ k.trace) :
    ∃ w r c' k', handleClientRead s.world p = .ok (w,r) ∧ w.Shows p c' k' ∧
      (.endOfStream ∉ k'.trace → .readFailed ∉ k'.trace →
        ∀ sent : List (List (UInt8 × Bytes)), (∀ m ∈ sent, Fragments m) →
          received k'.trace = encode sent →
          messages k'.trace = sent.map (fun m => some (assemble m)) ∧
          ((∀ v ∈ verdicts k'.trace, v = 0) →
            r = 0 ∧ c'.state = .readHeader ∧ c'.headerBytesRead = 0 ∧ c'.partialLen = 0)) := by
  obtain ⟨w,r,hcall,hkept⟩ := call_returns hrun hphase h hopen hplenty hblocks
  obtain ⟨c',k',hshows,⟨trace,ht⟩,hr,hread⟩ := call_read hrun hphase h hopen hcall
  refine ⟨w,r,c',k',hcall,hshows,?_⟩
  intro hend hfail sent hsent hall
  have hnone := hkept c' k' hshows
  obtain ⟨ms,hanswered⟩ := hread (refusals k'.trace) (refusals_foretell k'.trace)
  have hdecided := hanswered.decided ht hnone hend hfail
  refine ⟨?_,?_⟩
  · have hmessages := decode_encode_all (refusals k'.trace) hsent (by
      intro hrej
      rw [← hall] at hrej ⊢
      exact (hdecided.position (hdecided.rejected.mpr hrej)).1)
    rw [hdecided.handed,hall,hmessages,List.map_map]
    rfl
  · intro hzero
    have haccept : ∀ i, refusals k'.trace i = false := by
      intro i
      unfold refusals
      refine decide_eq_false ?_
      intro hneg
      have hbad := hzero (-1) (List.mem_of_getElem? hneg)
      omega
    have hdecode := decode_encode hsent haccept
    have hwaits : r = 0 := by
      refine hdecided.accepted.mpr ?_
      rw [hall,hdecode]
      rintro (hbad | hbad) <;> cases hbad
    rcases hr with hneg | ⟨-,hidle⟩
    · omega
    · obtain ⟨n,message,tail,hwaiting,hframe,hholding⟩ :=
        (hanswered.parses hwaits).waiting hidle
      rw [hall,hdecode] at hwaiting
      cases hwaiting
      obtain ⟨hstate,hbytes⟩ := hframe.nil
      rcases hholding with hstored | ⟨-,hfailed⟩
      · exact ⟨hwaits,hstate,hbytes,hstored.len⟩
      · exact absurd hfailed hnone

theorem fragments_roundTrip_slowReader : ∃ s c k w r c' k',
    run step Sys.init Action.slowReader = .ok s ∧ Listed s 1 c k ∧
    handleClientRead s.world 1 = .ok (w,r) ∧ w.Shows 1 c' k' ∧
    messages k'.trace = [some (ascii "ann"),some (ascii "hello")] ∧
    r = 0 ∧ c'.state = .readHeader ∧ c'.headerBytesRead = 0 ∧ c'.partialLen = 0 := by
  obtain ⟨s,hrun,c,k,hphase,hlisted,htest⟩ := reaches_listed
    (show reachesListed Action.slowReader 1 (fun s c k => decide (c.closed = false ∧
      (∀ b ∈ k.oracle.blocks, b ≠ none) ∧ .blockFailed ∉ k.trace ∧ callLeaves s.world 1 (fun k' =>
        decide (.endOfStream ∉ k'.trace ∧ .readFailed ∉ k'.trace ∧
          received k'.trace = encode [[(0,ascii "ann")],[(0,ascii "hello")]] ∧
          ∀ v ∈ verdicts k'.trace, v = 0)) = true)) = true by decide +kernel)
  obtain ⟨hopen,hplenty,hblocks,hleaves⟩ := of_decide_eq_true htest
  obtain ⟨w,r,c',k',hcall,hshows,hround⟩ :=
    fragments_roundTrip hrun hphase hlisted hopen hplenty hblocks
  obtain ⟨hend,hfail,hall,hzero⟩ := of_decide_eq_true (callLeaves_shows hleaves hcall hshows)
  obtain ⟨hmessages,hwaits⟩ := hround hend hfail _ (by simp [Fragments,bufSize,ascii]) hall
  exact ⟨s,c,k,w,r,c',k',hrun,hlisted,hcall,hshows,hmessages,hwaits hzero⟩

end Runs
end ChatServer
