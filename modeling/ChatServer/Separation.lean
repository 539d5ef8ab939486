import ChatServer.Decoding

/-! Connections do not interfere in parsing: reading from one client leaves the
readers of all others alone, and what a client says depends on its own bytes. -/
set_option autoImplicit false

namespace ChatServer
open ByteString Memory Execution Relation

theorem Stops.foretells {trace : List Obs} (h : Stops false trace) :
    Foretells (fun _ => false) trace := by
  intro i r hi
  have hmem : .verdict r ∈ trace := by
    obtain ⟨o,ho,heq⟩ := List.mem_filterMap.mp (List.mem_of_getElem? hi)
    cases o <;> simp_all
  have hgood := h.running rfl _ hmem
  have hne : r ≠ -1 := by
    rintro rfl
    cases hgood
  simp [hne]

section Runs
variable {acts acts' : List Action} {s s' : Sys} {p q : Nat} {c c' : ClientInfo} {k k' : Sock}

/-- The messages of an open client, and its name, are a function of the bytes
that were read from it. -/
theorem open_messages (hrun : run step Sys.init acts = .ok s) (hphase : s.phase ≠ .done)
    (h : Listed s p c k) (hopen : c.closed = false) :
    Copies k.trace (decode (fun _ => false) (received k.trace)).messages ∧
      Naming c (decode (fun _ => false) (received k.trace)).messages := by
  obtain ⟨-,-,-,-,hstops,-⟩ := listed_read hrun hphase h (refusals_foretell k.trace)
  rw [hopen] at hstops
  obtain ⟨ms,hread⟩ := listed_read hrun hphase h hstops.foretells
  obtain ⟨n,message,tail,hdecode,-⟩ := (hread.parses hopen).waiting (hread.idle hopen)
  rw [hdecode]
  exact ⟨hread.heard.copies,hread.naming⟩

/-- Reading from one client leaves all reading fields of every other client as
they were, and two open clients that sent the same bytes, in whatever runs, have
handed over the same messages and have the same name. -/
theorem parsing_separate (hrun : run step Sys.init acts = .ok s) (hphase : s.phase ≠ .done)
    (h : Listed s p c k) (hopen : c.closed = false) :
    (∀ w r, handleClientRead s.world p = .ok (w,r) →
      ∀ q cq kq, Listed s q cq kq → q ≠ p →
        ∃ cq', w.clients.get q = some cq' ∧ cq'.reading = cq.reading) ∧
    ∀ acts' s' p' c' k', run step Sys.init acts' = .ok s' → s'.phase ≠ .done →
      Listed s' p' c' k' → c'.closed = false → received k'.trace = received k.trace →
      (∃ ms, Copies k.trace ms ∧ Copies k'.trace ms ∧ Naming c ms ∧ Naming c' ms) ∧
      (.blockFailed ∉ k.trace → .blockFailed ∉ k'.trace →
        messages k'.trace = messages k.trace) ∧
      c'.hasName = c.hasName ∧ (c.hasName = true → c'.nameLen = c.nameLen ∧
        c'.name.data.take (c'.nameLen+1) = c.name.data.take (c.nameLen+1)) := by
  constructor
  · intro w r hcall q cq kq hq hne
    obtain ⟨R,htracks,hseated,-⟩ := run_tracks hrun hphase
    obtain ⟨hp,hseats⟩ := htracks.seats hseated h
    obtain ⟨hqR,-⟩ := htracks.seats hseated hq
    have hopen' : (R.view p).info.closed = false := hseats.closed.trans hopen
    have hstep := handleClientRead_refines htracks.refines hp htracks.mutex hopen'
    have hkeeps := handleClientRead_keeps p s.world
    rw [hcall] at hstep hkeeps
    obtain ⟨S,hmem,-,-,href,-⟩ := hstep
    have hqS : q ∈ S.members := by
      rw [hmem]
      exact hqR
    obtain ⟨mq,hcq,-⟩ := href.shows hqS
    obtain ⟨cq₀,hcq₀,hu⟩ := hkeeps.records q _ hcq
    rw [hq.info] at hcq₀
    cases hcq₀
    exact ⟨_,hcq,(hu (by simpa using hne)).1⟩
  · intro acts' s' p' c' k' hrun' hphase' h' hopen' hsame
    obtain ⟨hcopies,hnaming⟩ := open_messages hrun hphase h hopen
    obtain ⟨hcopies',hnaming'⟩ := open_messages hrun' hphase' h' hopen'
    rw [hsame] at hcopies' hnaming'
    generalize (decode (fun _ => false) (received k.trace)).messages = ms at *
    refine ⟨⟨ms,hcopies,hcopies',hnaming,hnaming'⟩,?_,?_⟩
    · intro hblocks hblocks'
      rcases hcopies with heq | ⟨hbad,-⟩
      · rcases hcopies' with heq' | ⟨hbad,-⟩
        · rw [heq,heq']
        · exact absurd hbad hblocks'
      · exact absurd hbad hblocks
    · cases ms with
      | nil =>
        have hnot : c.hasName = false := hnaming
        have hnot' : c'.hasName = false := hnaming'
        rw [hnot,hnot']
        exact ⟨rfl,fun hbad => by cases hbad⟩
      | cons m rest =>
        obtain ⟨hhas,hlen,hbytes⟩ := hnaming
        obtain ⟨hhas',hlen',hbytes'⟩ := hnaming'
        exact ⟨hhas'.trans hhas.symm,fun _ => ⟨hlen'.trans hlen.symm,hbytes'.trans hbytes.symm⟩⟩

theorem parsing_separate_slowReader : ∃ s c k w r cb, run step Sys.init Action.slowReader = .ok s ∧
    Listed s 1 c k ∧ handleClientRead s.world 1 = .ok (w,r) ∧ s.world.clients.get 2 = some cb ∧
    ∃ cb', w.clients.get 2 = some cb' ∧ cb'.reading = cb.reading := by
  obtain ⟨s,hrun,c,k,hphase,hlisted,htest⟩ := reaches_listed
    (show reachesListed Action.slowReader 1 (fun s c _ => decide (c.closed = false ∧
      callLeaves s.world 1 (fun _ => true) = true)) = true by decide +kernel)
  obtain ⟨hopen,hleaves⟩ := of_decide_eq_true htest
  obtain ⟨s₂,hrun₂,cb,kb,-,hlisted₂,-⟩ := reaches_listed
    (show reachesListed Action.slowReader 2 (fun _ _ _ => true) = true by decide +kernel)
  rw [hrun] at hrun₂
  cases hrun₂
  cases hcall : handleClientRead s.world 1 with
  | error e => simp [callLeaves,hcall] at hleaves
  | ok res =>
    exact ⟨s,c,k,res.1,res.2,cb,hrun,hlisted,hcall,hlisted₂.info,
      (parsing_separate hrun hphase hlisted hopen).1 res.1 res.2 hcall 2 cb kb hlisted₂
        (by decide)⟩

end Runs
end ChatServer
