import ChatServer.FrameIntegrity

/-! A client that is marked closed stays closed until it is reaped, and nothing
is read from it or queued for it. Direct messages do not look at the flag. -/
set_option autoImplicit false

namespace ChatServer
open ByteString Memory Execution Relation Outbox

def Obs.active : Obs → Bool
  | .read _ => true
  | .message _ => true
  | .enqueued _ _ => true
  | .sent _ _ => true
  | _ => false

theorem Obs.inert_inactive {o : Obs} (h : o.inert = true) (hr : o.ofReader = false) :
    o.active = false := by
  cases o <;> simp_all [Obs.inert,Obs.ofReader,Obs.active]

/-- Nothing passes once the client has been marked closed. -/
def Terminal (trace : List Obs) : Prop :=
  Each (fun past o => .markedClosed ∈ past → o.active = false) trace

def DirectWrite.Heeds (d : DirectWrite) : Prop := d.closed = true → d.blocked = true

instance (d : DirectWrite) : Decidable d.Heeds :=
  inferInstanceAs (Decidable (_ → _))

structure Settled (b : Outbox) : Prop where
  closed : b.closed = true ↔ .markedClosed ∈ b.trace
  terminal : Terminal b.trace

namespace Settled
variable {p : Nat} {b b' : Outbox}

theorem blank (hb : b.Blank) : Settled b := by
  obtain ⟨htrace,-,hclosed,-⟩ := hb
  refine ⟨by simp [htrace,hclosed],?_⟩
  rw [htrace]
  exact Each.nil

theorem log (h : Settled b) {l : List Obs} (hmark : .markedClosed ∉ l)
    (hos : b.closed = true → ∀ o ∈ l, o.active = false) : Settled (b.log l) := by
  refine ⟨?_,h.terminal.append ?_⟩
  · simp [Outbox.log,hmark,h.closed]
  · intro a o rest he hpast
    have ho : o ∈ l := by simp [he]
    rcases List.mem_append.mp hpast with hold | hnew
    · exact hos (h.closed.mpr hold) o ho
    · have hmem : .markedClosed ∈ l := by
        rw [he]
        simp [hnew]
      exact absurd hmem hmark

theorem beat (h : Settled b) (hbeat : Beat p b b')
    (hheeds : ∀ d ∈ directWrites b'.trace, d.Heeds) : Settled b' := by
  cases hbeat with
  | @inert o ho hopen =>
    refine h.log ?_ ?_
    · intro hm
      have hm' : o = .markedClosed := (List.mem_singleton.mp hm).symm
      subst hm'
      cases ho
    · intro hclosed o' ho'
      have heq : o' = o := List.mem_singleton.mp ho'
      subst heq
      have hnot : o'.ofReader = false := by
        cases hr : o'.ofReader with
        | false => rfl
        | true => rw [hopen hr] at hclosed; cases hclosed
      exact Obs.inert_inactive ho hnot
  | close =>
    refine ⟨by simp [Outbox.log],h.terminal.concat (fun _ => rfl)⟩
  | shutdown => exact ⟨h.closed,h.terminal⟩
  | listing names => exact h.log (by simp) (by simp [Obs.active])
  | @part x q n hqueue hopen hpos hn =>
    have h' := h.log (l := [.sent .queued (x.unsent.take n)]) (by simp) (by simp [hopen])
    exact ⟨h'.closed,h'.terminal⟩
  | @whole x q hqueue hopen =>
    have h' := h.log (l := [.sent .queued x.unsent]) (by simp) (by simp [hopen])
    exact ⟨h'.closed,h'.terminal⟩
  | @skip c allocates hsaid hskip =>
    have h' := h.log (l := [.offered (b.offer p c allocates)]) (by simp) (by simp [Obs.active])
    exact ⟨h'.closed,h'.terminal⟩
  | @take c allocates hsaid htake =>
    have hopen := (Outbox.offer_taken.mp htake).2.1
    have h' := h.log (l := [.offered (b.offer p c allocates),
      .enqueued b.broadcasts.length (ChatServer.frame msgTypeNormal c.msg)]) (by simp)
      (by simp [hopen])
    exact ⟨h'.closed,h'.terminal⟩
  | @direct d htells hoffset hclosed =>
    have hd : d.Heeds := hheeds d (by simp [Outbox.log,directWrites])
    have hmark : ∀ bs, .markedClosed ∉ sentObs .direct bs := by
      intro bs hm
      cases mem_sentObs hm
    refine h.log (by simp [hmark]) ?_
    intro hb o ho
    obtain ⟨hfirst,hsecond⟩ := d.blocked_writes (hd (hclosed.trans hb))
    rw [hfirst,hsecond] at ho
    have heq : o = .direct d := by simpa using ho
    rw [heq]
    rfl

end Settled

theorem Outbox.beats_closed {p : Nat} {b b' : Outbox} (h : ReflTransGen (Beat p) b b')
    (hb : b.closed = true) : b'.closed = true := by
  refine Outbox.beats_keep (I := fun b => b.closed = true) ?_ h hb
  intro b b' hb hbeat
  cases hbeat with
  | close => rfl
  | _ => exact hb

theorem Outbox.beats_trace {p : Nat} {b b' : Outbox} (h : ReflTransGen (Beat p) b b') :
    ∃ more, b'.trace = b.trace ++ more := by
  induction h with
  | refl => exact ⟨[],by simp⟩
  | tail _ hbeat ih =>
    obtain ⟨xs,hx⟩ := ih
    obtain ⟨ys,hy⟩ := hbeat.trace
    exact ⟨xs ++ ys,by rw [hy,hx,List.append_assoc]⟩

theorem Seat.Reachable.settled {p : Nat} {s : Seat} (h : Seat.Reachable p s)
    (hheeds : ∀ d ∈ directWrites s.outbox.trace, d.Heeds) : Settled s.outbox := by
  refine h.outbox (I := fun b => (∀ d ∈ directWrites b.trace, d.Heeds) → Settled b)
    (fun b hb _ => .blank hb) ?_ hheeds
  intro b b' ih hbeat hheeds'
  refine (ih ?_).beat hbeat hheeds'
  obtain ⟨more,hmore⟩ := hbeat.trace
  intro d hd
  refine hheeds' d ?_
  rw [hmore,directWrites_append]
  exact List.mem_append_left _ hd

/-- From the moment at which a client is marked closed, for as long as it is
listed, the flag stays, and nothing passes in either direction, when no direct
message to a closed client gets through. -/
theorem closed_terminal {acts acts' : List Action} {s s' : Sys} {p : Nat} {c c' : ClientInfo}
    {k k' : Sock} (hrun : run step Sys.init acts = .ok s) (hrun' : run step s acts' = .ok s')
    (hphase : s'.phase ≠ .done) (h : Listed s p c k) (h' : Listed s' p c' k')
    (hserial : k'.serial = k.serial) (hheeds : ∀ d ∈ directWrites k'.trace, d.Heeds) :
    Terminal k'.trace ∧ (c'.closed = true ↔ .markedClosed ∈ k'.trace) ∧
      ∃ more, k'.trace = k.trace ++ more ∧
        (c.closed = true → c'.closed = true ∧ ∀ o ∈ more, o.active = false) := by
  obtain ⟨seat,seat',hseats,hseats',hturns⟩ :=
    later_seats hrun hrun' hphase h h' hserial
  have htrace : seat.outbox.trace = k.trace := by
    rw [hseats.sock]
    rfl
  have htrace' : seat'.outbox.trace = k'.trace := by
    rw [hseats'.sock]
    rfl
  have hclosed : seat.outbox.closed = c.closed := by
    rw [hseats.info]
    rfl
  have hclosed' : seat'.outbox.closed = c'.closed := by
    rw [hseats'.info]
    rfl
  have hbeats := turns_beats hturns
  obtain ⟨more,hmore⟩ := Outbox.beats_trace hbeats
  have hsettled' : Settled seat'.outbox :=
    hseats'.reachable.settled (by rw [htrace']; exact hheeds)
  have hmark := hsettled'.closed
  have hterminal := hsettled'.terminal
  rw [htrace,htrace'] at hmore
  have hheeds₀ : ∀ d ∈ directWrites seat.outbox.trace, d.Heeds := by
    intro d hd
    refine hheeds d ?_
    rw [hmore,directWrites_append,← htrace]
    exact List.mem_append_left _ hd
  have hsettled := hseats.reachable.settled hheeds₀
  rw [htrace'] at hmark hterminal
  rw [hclosed'] at hmark
  refine ⟨hterminal,hmark,more,hmore,?_⟩
  intro hc
  refine ⟨?_,?_⟩
  · rw [← hclosed']
    exact Outbox.beats_closed hbeats (hclosed.trans hc)
  · intro o ho
    obtain ⟨a,rest,he⟩ := List.append_of_mem ho
    have hpast : .markedClosed ∈ k.trace ++ a := by
      have hm := hsettled.closed.mp (hclosed.trans hc)
      rw [htrace] at hm
      exact List.mem_append_left _ hm
    refine hterminal (k.trace ++ a) o rest ?_ hpast
    rw [hmore,he,List.append_assoc]

namespace Action

def annAndBob : List Action :=
  connects 1 5 .quiet ++
    connects 2 6 { Oracle.quiet with sends := List.replicate 4 (.accepts 100) } ++
    hears 5 (frame msgTypeNormal (ascii "ann")) ++ hears 6 (frame msgTypeNormal (ascii "bob"))

def next : Action := .server ⟨false,[],[]⟩

/-- Bob hangs up, and Ann's message waits in the same batch of events. -/
def bobLeaves (text : Bytes) : List Action :=
  annAndBob ++ [.net 6 [] true false,.net 5 (frame msgTypeNormal text) false false,
    .server ⟨false,[.sock 6 ⟨false,false,true,false,false⟩,input 5],[]⟩,next]

end Action

theorem closed_terminal_bobLeaves : ∃ s s' c c' k k',
    run step Sys.init (Action.bobLeaves (ascii "hello")) = .ok s ∧
      run step s [Action.next] = .ok s' ∧ Listed s 2 c k ∧ Listed s' 2 c' k' ∧
      c.closed = true ∧ c'.closed = true ∧ Terminal k'.trace := by
  obtain ⟨s',hrun',c',k',hphase',hlisted',htest'⟩ := reaches_listed
    (show reachesListed (Action.bobLeaves (ascii "hello") ++ [Action.next]) 2 (fun _ _ k =>
      decide (k.serial = 1 ∧ ∀ d ∈ directWrites k.trace, d.Heeds)) = true by decide +kernel)
  obtain ⟨s,hrun,c,k,hphase,hlisted,htest⟩ := reaches_listed
    (show reachesListed (Action.bobLeaves (ascii "hello")) 2 (fun _ c k =>
      decide (k.serial = 1 ∧ c.closed = true)) = true by decide +kernel)
  obtain ⟨hserial',hheeds⟩ := of_decide_eq_true htest'
  obtain ⟨hserial,hclosed⟩ := of_decide_eq_true htest
  have hnext : run step s [Action.next] = .ok s' := by
    rw [run_append,hrun] at hrun'
    exact hrun'
  obtain ⟨hterminal,-,more,-,hafter⟩ := closed_terminal hrun hnext hphase' hlisted hlisted'
    (hserial'.trans hserial.symm) hheeds
  exact ⟨s,s',c,c',k,k',hrun,hnext,hlisted,hlisted',hclosed,(hafter hclosed).1,hterminal⟩

/-- Ann whispers to Bob, who is closed but not yet reaped: he is sent a frame. -/
theorem closed_written : ∃ s s' c k k',
    run step Sys.init (Action.bobLeaves (ascii "/whisper bob hi")) = .ok s ∧
      run step s [Action.next] = .ok s' ∧ s'.phase ≠ .done ∧ Listed s 2 c k ∧
      (∃ c', Listed s' 2 c' k') ∧ k'.serial = k.serial ∧ c.closed = true ∧
      wire k.trace = [] ∧ wire k'.trace ≠ [] := by
  obtain ⟨s',hrun',c',k',hphase',hlisted',htest'⟩ := reaches_listed
    (show reachesListed (Action.bobLeaves (ascii "/whisper bob hi") ++ [Action.next]) 2
      (fun _ _ k => decide (k.serial = 1 ∧ wire k.trace ≠ [])) = true by decide +kernel)
  obtain ⟨s,hrun,c,k,hphase,hlisted,htest⟩ := reaches_listed
    (show reachesListed (Action.bobLeaves (ascii "/whisper bob hi")) 2 (fun _ c k =>
      decide (k.serial = 1 ∧ c.closed = true ∧ wire k.trace = [])) = true by decide +kernel)
  obtain ⟨hserial',hwire'⟩ := of_decide_eq_true htest'
  obtain ⟨hserial,hclosed,hwire⟩ := of_decide_eq_true htest
  have hnext : run step s [Action.next] = .ok s' := by
    rw [run_append,hrun] at hrun'
    exact hrun'
  exact ⟨s,s',c,k,k',hrun,hnext,hphase',hlisted,⟨c',hlisted'⟩,hserial'.trans hserial.symm,
    hclosed,hwire,hwire'⟩

end ChatServer
