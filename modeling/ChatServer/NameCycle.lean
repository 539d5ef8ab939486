import ChatServer.Handover

/-! The life of a name: the first message of a client becomes its name and does
nothing else, and no later message touches it. -/
set_option autoImplicit false

namespace ChatServer
open ByteString Memory Execution Relation

def ClientInfo.named (c : ClientInfo) : Buf nameMax × Nat × Bool := (c.name,c.nameLen,c.hasName)

theorem named_of_reading {c c' : ClientInfo} (h : c'.reading = c.reading) :
    c'.named = c.named := by
  simp only [ClientInfo.reading,Reading.mk.injEq] at h
  obtain ⟨-,-,-,-,-,-,-,-,-,-,-,hname,hlen,hhas⟩ := h
  simp only [ClientInfo.named,hname,hlen,hhas]

theorem InfoFrame.named {c c' : ClientInfo} (h : InfoFrame c c') : c'.named = c.named := by
  simp only [ClientInfo.named,h.name,h.nameLen,h.hasName]

section Turns
variable {p : Nat} {s s' : Seat}

theorem Seat.Served.named (h : Seat.Served p s s') (hname : s.view.info.hasName = true) :
    s'.view.info.named = s.view.info.named := by
  cases h with
  | offer => exact named_of_reading (View.offer_reading _ _ _ _ _)
  | whisper => rfl
  | list => rfl
  | listing => rfl
  | format => rfl
  | name hnot =>
    rw [hname] at hnot
    cases hnot
  | shutdown => rfl

theorem hasName_of_named {c c' : ClientInfo} (h : c'.named = c.named) (hname : c.hasName = true) :
    c'.hasName = true := (congrArg (fun n => n.2.2) h).trans hname

theorem Seat.serving_named (h : ReflTransGen (Seat.Served p) s s')
    (hname : s.view.info.hasName = true) : s'.view.info.named = s.view.info.named := by
  induction h with
  | refl => rfl
  | tail _ hstep ih => exact (hstep.named (hasName_of_named ih hname)).trans ih

theorem View.stop_named (v : View) (r : Int) : (v.stop r).info.named = v.info.named := by
  unfold View.stop
  simp only
  split <;> rfl

theorem View.answer_named {v v' : View} {r : Int} (h : v.answer r = .ok v') :
    v'.info.named = v.info.named := by
  rcases View.answer_cases h with ⟨-,rfl⟩ | ⟨c,-,hfinish,rfl⟩
  · exact View.stop_named _ _
  · exact (finishMessage_frame hfinish).named

theorem Seat.Turn.named (h : Seat.Turn p s s') (hname : s.view.info.hasName = true) :
    s'.view.info.named = s.view.info.named := by
  cases h with
  | served hs => exact Seat.serving_named hs hname
  | receive _ hread => exact (readTurn_frame hread.1).1.named
  | pause _ hread => exact (View.stop_named _ _).trans (readTurn_frame hread.1).1.named
  | message _ hread hserved _ hanswer =>
    have hturn := (readTurn_frame hread.1).1.named
    have hserve := Seat.serving_named hserved (hasName_of_named hturn hname)
    exact (View.answer_named hanswer).trans (hserve.trans hturn)
  | write => exact named_of_reading (View.sendNow_reading _ _)
  | hangup => rfl
  | arrive => rfl
  | plan => rfl

theorem Seat.turns_named (h : ReflTransGen (Seat.Turn p) s s')
    (hname : s.view.info.hasName = true) : s'.view.info.named = s.view.info.named := by
  induction h with
  | refl => rfl
  | tail _ hturn ih => exact (hturn.named (hasName_of_named ih hname)).trans ih

end Turns

/-- The reader knows a message exactly when the client has a name, and the first
one is what it is called. -/
theorem Naming.iff {c : ClientInfo} {ms : List Bytes} (h : Naming c ms) :
    c.hasName = true ↔ ms ≠ [] := by
  cases ms with
  | nil =>
    have hnot : c.hasName = false := h
    simp [hnot]
  | cons m rest => simp [h.1]

section Runs
variable {acts : List Action} {s : Sys} {p : Nat} {c : ClientInfo} {k : Sock}

/-- A client has no name until it has handed over a message, is called by the
first one ever after, and a call of `process_payload` either names it, without
any other effect, or serves a message in full. -/
theorem name_lifeCycle (hrun : run step Sys.init acts = .ok s) (hphase : s.phase ≠ .done)
    (h : Listed s p c k) :
    (∃ ms, Copies k.trace ms ∧ (c.hasName = true ↔ ms ≠ []) ∧
      (∀ m rest, ms = m :: rest → NamedBy c m) ∧
      (c.closed = false → ms = (decode (fun _ => false) (received k.trace)).messages)) ∧
    (c.hasName = true → ∀ acts' s' c' k', run step s acts' = .ok s' → s'.phase ≠ .done →
      Listed s' p c' k' → k'.serial = k.serial →
      c'.hasName = true ∧ c'.name = c.name ∧ c'.nameLen = c.nameLen) ∧
    (c.closed = false → ∀ w copy, Delivers p s.world w copy →
      ∃ c₁ k₁ ms whole, w.Shows p c₁ k₁ ∧ Handed ms whole c₁ k₁ copy ∧
        (c₁.hasName = false → ms = [] ∧ ∀ w' r, processPayload w p copy = .ok (w',r) →
          r = 0 ∧ ∃ c₂, w' = w.putClient p c₂ ∧ c₂.hasName = true ∧ NamedBy c₂ whole) ∧
        (c₁.hasName = true → (copy = none ∧ .blockFailed ∈ k₁.trace) ∨
          (c₁.partialLen = whole.length ∧ processPayload w p copy =
            if whole.head? = some 47 then w.obeys p whole else w.chats p c₁ k₁ whole))) := by
  refine ⟨?_,?_,?_⟩
  · have hfirst : ∀ ms, Naming c ms → (c.hasName = true ↔ ms ≠ []) ∧
        (∀ m rest, ms = m :: rest → NamedBy c m) := by
      refine fun ms hnaming => ⟨hnaming.iff,?_⟩
      rintro m rest rfl
      exact hnaming.2
    cases hopen : c.closed with
    | false =>
      obtain ⟨hcopies,hnaming⟩ := open_messages hrun hphase h hopen
      exact ⟨_,hcopies,(hfirst _ hnaming).1,(hfirst _ hnaming).2,fun _ => rfl⟩
    | true =>
      obtain ⟨ms,hread⟩ := listed_read hrun hphase h (refusals_foretell k.trace)
      exact ⟨ms,hread.heard.copies,(hfirst _ hread.naming).1,(hfirst _ hread.naming).2,
        fun hc => by cases hc⟩
  · intro hname acts' s' c' k' hrun' hphase' h' hserial
    obtain ⟨seat,seat',hseats,hseats',hturns⟩ := later_seats hrun hrun' hphase' h h' hserial
    have hnamed : c.named = seat.view.info.named := by
      rw [hseats.info]
      rfl
    have hnamed' : c'.named = seat'.view.info.named := by
      rw [hseats'.info]
      rfl
    have hsame := Seat.turns_named hturns (hasName_of_named hnamed.symm hname)
    rw [← hnamed,← hnamed'] at hsame
    simp only [ClientInfo.named,Prod.mk.injEq] at hsame
    exact ⟨hsame.2.2.trans hname,hsame.1,hsame.2.1⟩
  · intro hopen w copy hd
    obtain ⟨c₁,k₁,ms,whole,hshows,hhanded,-⟩ := delivers_handed hrun hphase h hopen hd
    refine ⟨c₁,k₁,ms,whole,hshows,hhanded,?_,?_⟩
    · intro hname
      refine ⟨?_,?_⟩
      · cases ms with
        | nil => rfl
        | cons m rest =>
          have hbad := hhanded.naming.1
          rw [hname] at hbad
          cases hbad
      · intro w' r hpayload
        obtain ⟨i,hstore,hr,hw⟩ := processPayload_unnamed hshows hname hpayload
        refine ⟨hr,_,hw,rfl,?_⟩
        have hstored : Stored c₁ whole := by
          rcases hhanded.copied with ⟨-,hgood⟩ | ⟨-,-,hgood | ⟨hlost,-⟩⟩
          · exact hgood
          · exact hgood
          · exact absurd hstore hlost.name
        obtain ⟨hlen,hbytes⟩ := (hstored.name hstore).1
        exact ⟨hlen,hbytes⟩
    · intro hname
      rcases hhanded.copied with ⟨rfl,hstored⟩ | ⟨hnone,hfailed,-⟩
      · exact .inr ⟨hstored.len,processPayload_named hshows hname hstored⟩
      · exact .inl ⟨hnone,hfailed⟩

theorem name_lifeCycle_slowReader : ∃ s c k ms, run step Sys.init Action.slowReader = .ok s ∧
    Listed s 1 c k ∧ c.hasName = true ∧ Copies k.trace ms ∧
      ∀ m rest, ms = m :: rest → NamedBy c m := by
  obtain ⟨s,hrun,c,k,hphase,hlisted,htest⟩ := reaches_listed
    (show reachesListed Action.slowReader 1 (fun _ c _ => c.hasName) = true by decide +kernel)
  obtain ⟨⟨ms,hcopies,-,hnamed,-⟩,-,-⟩ := name_lifeCycle hrun hphase hlisted
  exact ⟨s,c,k,ms,hrun,hlisted,htest,hcopies,hnamed⟩

end Runs
end ChatServer
