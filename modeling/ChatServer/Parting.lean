import ChatServer.Blame

/-! A client that sends and closes: which of its messages are handed over before
it is marked closed. -/
set_option autoImplicit false

namespace ChatServer
open ByteString Memory Execution Relation Outbox

/-- From `k` to `k'` bytes were taken from the front of what had arrived. The end
of the stream was seen only behind the last of them. -/
structure Drains (k k' : Sock) : Prop where
  fin : k'.fin = k.fin
  inbox : ∃ bs, k.inbox = bs ++ k'.inbox ∧ received k'.trace = received k.trace ++ bs
  ended : .endOfStream ∈ k'.trace → .endOfStream ∈ k.trace ∨ (k.fin = true ∧ k'.inbox = [])

namespace Drains
variable {k k' k'' : Sock} {v v' : View}

theorem trans (h : Drains k k') (h' : Drains k' k'') : Drains k k'' := by
  obtain ⟨bs,hin,hrec⟩ := h.inbox
  obtain ⟨cs,hin',hrec'⟩ := h'.inbox
  refine ⟨h'.fin.trans h.fin,⟨bs ++ cs,?_,?_⟩,fun hend => ?_⟩
  · rw [hin,hin',List.append_assoc]
  · rw [hrec',hrec,List.append_assoc]
  · rcases h'.ended hend with hold | ⟨hfin,hempty⟩
    · rcases h.ended hold with hold | ⟨hfin,hempty⟩
      · exact .inl hold
      · rw [hempty] at hin'
        exact .inr ⟨hfin,(List.append_eq_nil_iff.mp hin'.symm).2⟩
    · exact .inr ⟨h.fin ▸ hfin,hempty⟩

theorem of_log {l : List Obs} (hfin : k'.fin = k.fin) (hinbox : k'.inbox = k.inbox)
    (ht : k'.trace = k.trace ++ l) (hrec : received l = []) (hl : .endOfStream ∉ l) :
    Drains k k' := by
  refine ⟨hfin,⟨[],by rw [hinbox,List.nil_append],by rw [ht,received_append,hrec]⟩,fun hend => ?_⟩
  rw [ht] at hend
  rcases List.mem_append.mp hend with hold | hnew
  · exact .inl hold
  · exact absurd hnew hl

theorem note (k : Sock) {o : Obs} (hrec : received [o] = []) (ho : o ≠ .endOfStream) :
    Drains k (k.note o) :=
  of_log rfl rfl rfl hrec (by simpa using ho.symm)

theorem reads {count : Nat} {out : ReadOut} (h : k.Reads count k' out) : Drains k k' := by
  cases h with
  | nothing => exact of_log (l := []) rfl rfl (by simp) rfl (by simp)
  | again _ hsame hinbox htrace =>
    exact of_log (l := []) hsame.fin hinbox (by simp [htrace]) rfl (by simp)
  | failed _ hsame hinbox htrace => exact of_log hsame.fin hinbox htrace rfl (by simp)
  | ended _ hsame hfin hempty hinbox htrace =>
    refine ⟨hsame.fin,⟨[],by rw [hempty,hinbox]; rfl,?_⟩,fun _ => .inr ⟨hfin,hinbox⟩⟩
    rw [htrace,received_append]
    rfl
  | @bytes _ bs hsame hne hle hinbox htrace =>
    refine ⟨hsame.fin,⟨bs,hinbox,?_⟩,fun hend => .inl ?_⟩
    · rw [htrace,received_append]
      simp [received]
    · simpa [htrace] using hend

theorem block (h : BlockFrame k k') : Drains k k' := by
  rcases h.trace with ht | ht
  · exact of_log (l := []) h.same.fin h.inbox (by simp [ht]) rfl (by simp)
  · exact of_log h.same.fin h.inbox ht rfl (by simp)

theorem quiet (h : Quiet v v') : Drains v.sock v'.sock := by
  obtain ⟨l,ht,hl⟩ := h.trace
  refine of_log h.fin h.inbox ht (quiet_messages hl).2.2 (fun hmem => ?_)
  have hbad := hl _ hmem
  cases hbad

theorem turn {c c' : ClientInfo} {next : Next} (h : readTurn c k = .ok (c',k',next)) :
    Drains k k' := by
  rcases readTurn_turn h with ⟨-,hturn⟩ | ⟨-,hturn⟩
  · cases hturn with
    | blocked hread => exact reads hread
    | failed hread => exact reads hread
    | ended hread => exact reads hread
    | short _ hread => exact reads hread
    | tooLarge _ hread => exact reads hread
    | complete _ hread => exact reads hread
  · cases hturn with
    | blocked hread => exact reads hread
    | failed hread => exact reads hread
    | short hread => exact reads hread
    | long hread => exact reads hread
    | fragment hread _ _ happend =>
      exact (reads hread).trans (block (appendToClientBuffer_frame happend).1)
    | message hread _ _ happend _ hcopy =>
      have htaken := (reads hread).trans (block (appendToClientBuffer_frame happend).1)
      exact (htaken.trans (block (copyBuffer_frame hcopy))).trans
        (note _ rfl (by simp))

theorem stop (v : View) (r : Int) : Drains v.sock (v.stop r).sock := by
  have hnote : Drains v.sock (v.note (.readReturned r)).sock := note _ rfl (by simp)
  unfold View.stop
  simp only
  split
  · exact hnote.trans (quiet (Quiet.markClosed _))
  · exact hnote

theorem answer {r : Int} (h : v.answer r = .ok v') : Drains v.sock v'.sock := by
  have hnote : Drains v.sock (v.note (.verdict r)).sock := note _ rfl (by simp)
  rcases View.answer_cases h with ⟨-,rfl⟩ | ⟨c,-,-,rfl⟩
  · exact hnote.trans (stop _ _)
  · exact hnote

end Drains

theorem Seat.Turn.drains {p : Nat} {s s' : Seat} (h : Seat.Turn p s s') :
    Drains s.view.sock s'.view.sock ∨
      ∃ bs fin reset, s'.view.sock = deliver s.view.sock bs fin reset := by
  cases h with
  | served h => exact .inl (.quiet (Quiet.served_run h))
  | receive _ hread => exact .inl (.turn hread.1)
  | pause _ hread => exact .inl ((Drains.turn hread.1).trans (.stop _ _))
  | message _ hread hserved _ hanswer =>
    exact .inl (((Drains.turn hread.1).trans (.quiet (Quiet.served_run hserved))).trans
      (.answer hanswer))
  | write => exact .inl (.quiet (Quiet.sendNow _ _))
  | hangup =>
    exact .inl (.quiet ((Quiet.note s.view (o := .hangup s.view.sock.inbox) rfl).trans
      (Quiet.markClosed _)))
  | arrive bs fin reset => exact .inr ⟨bs,fin,reset,rfl⟩
  | plan => exact .inl (.of_log (l := []) rfl rfl (by simp) rfl (by simp))

theorem Seat.Reachable.ended {p : Nat} {s : Seat} (h : Seat.Reachable p s)
    (hend : .endOfStream ∈ s.view.sock.trace) :
    s.view.sock.fin = true ∧ s.view.sock.inbox = [] := by
  obtain ⟨s₀,serial,⟨old,fd,junk,oracle,hview⟩,hturns⟩ := h
  induction hturns with
  | refl =>
    rw [hview] at hend
    cases hend
  | @tail s s' _ hturn ih =>
    rcases hturn.drains with hdrains | ⟨bs,fin,reset,hsock⟩
    · rcases hdrains.ended hend with hold | ⟨hfin,hempty⟩
      · obtain ⟨hfin,hempty⟩ := ih hold
        obtain ⟨bs,hin,-⟩ := hdrains.inbox
        rw [hempty] at hin
        exact ⟨hdrains.fin.trans hfin,(List.append_eq_nil_iff.mp hin.symm).2⟩
      · exact ⟨hdrains.fin.trans hfin,hempty⟩
    · rw [hsock] at hend ⊢
      obtain ⟨hfin,hempty⟩ := ih hend
      simp [deliver,hfin,hempty]

/-- After the FIN nothing arrives: what was read and what was not is the stream. -/
theorem turns_stream {p : Nat} {s s' : Seat} (h : ReflTransGen (Seat.Turn p) s s')
    (hfin : s.view.sock.fin = true) : s'.view.sock.fin = true ∧
      received s'.view.sock.trace ++ s'.view.sock.inbox =
        received s.view.sock.trace ++ s.view.sock.inbox := by
  induction h with
  | refl => exact ⟨hfin,rfl⟩
  | tail _ hturn ih =>
    obtain ⟨hfin',hstream⟩ := ih
    rw [← hstream]
    rcases hturn.drains with hdrains | ⟨bs,fin,reset,hsock⟩
    · obtain ⟨bs,hin,hrec⟩ := hdrains.inbox
      exact ⟨hdrains.fin.trans hfin',by rw [hin,hrec,List.append_assoc]⟩
    · rw [hsock]
      simp [deliver,hfin']

def View.Reason (v : View) : Prop :=
  v.info.closed = true → .writeFailed ∈ v.sock.trace ∨ .readReturned (-1) ∈ v.sock.trace ∨
    (Suspended v.info ∧ .hangup v.sock.inbox ∈ v.sock.trace)

namespace View.Reason
variable {v v' : View}

theorem of_open (h : v.info.closed = false) : v.Reason := by
  intro hclosed
  rw [h] at hclosed
  cases hclosed

theorem quiet (h : v.Reason) (hquiet : Quiet v v') (hfault : OwnFault v v') : v'.Reason := by
  intro hclosed
  obtain ⟨more,ht,hcause⟩ := hfault
  rw [ht]
  rcases hcause with hsame | hfailed
  · rw [hsame] at hclosed
    rcases h hclosed with hfailed | hgave | ⟨hidle,hhung⟩
    · exact .inl (List.mem_append_left _ hfailed)
    · exact .inr (.inl (List.mem_append_left _ hgave))
    · refine .inr (.inr ⟨fun hstate => ?_,?_⟩)
      · rw [hquiet.payloadBytesRead,hquiet.expectedPayloadLen]
        exact hidle (hquiet.state.symm.trans hstate)
      · rw [hquiet.inbox]
        exact List.mem_append_left _ hhung
  · exact .inl (List.mem_append_right _ hfailed)

theorem stop (hopen : v.info.closed = false) {r : Int} (hr : r = 0 ∨ r = -1) :
    (v.stop r).Reason := by
  rcases hr with rfl | rfl
  · exact of_open hopen
  · intro _
    exact .inr (.inl (by simp [View.stop,View.markClosed,View.note,Sock.note]))

theorem answer (hopen : v.info.closed = false) {r : Int} (h : v.answer r = .ok v') :
    v'.Reason := by
  rcases View.answer_cases h with ⟨-,rfl⟩ | ⟨c,-,hfinish,rfl⟩
  · exact stop (v := v.note (.verdict r)) hopen (.inr rfl)
  · exact of_open ((finishMessage_frame hfinish).closed.trans hopen)

end View.Reason

theorem Seat.Turn.reason {p : Nat} {s s' : Seat} (h : Seat.Turn p s s')
    (hfin : s.view.sock.fin = true) (hreason : s.view.Reason) : s'.view.Reason := by
  cases h with
  | served h => exact hreason.quiet (Quiet.served_run h) (OwnFault.served h)
  | receive hopen hread => exact .of_open ((readTurn_frame hread.1).1.closed.trans hopen)
  | pause hopen hread =>
    exact .stop ((readTurn_frame hread.1).1.closed.trans hopen) (readTurn_ret hread.1)
  | message _ _ _ hstill hanswer => exact .answer hstill hanswer
  | write => exact hreason.quiet (Quiet.sendNow _ _) (OwnFault.sendNow _)
  | hangup hopen hidle =>
    intro _
    exact .inr (.inr ⟨hidle,by simp [View.hangup,View.markClosed,View.note,Sock.note]⟩)
  | arrive bs fin reset =>
    intro hclosed
    have hinbox : (deliver s.view.sock bs fin reset).inbox = s.view.sock.inbox := by
      simp [deliver,hfin]
    rcases hreason hclosed with hfailed | hgave | ⟨hidle,hhung⟩
    · exact .inl hfailed
    · exact .inr (.inl hgave)
    · refine .inr (.inr ⟨hidle,?_⟩)
      rw [hinbox]
      exact hhung
  | plan => exact hreason.quiet Quiet.of_silent ⟨[],by simp,.inl rfl⟩

theorem turns_reason {p : Nat} {s s' : Seat} (h : ReflTransGen (Seat.Turn p) s s')
    (hfin : s.view.sock.fin = true) (hreason : s.view.Reason) : s'.view.Reason := by
  induction h with
  | refl => exact hreason
  | tail hturns hturn ih => exact hturn.reason (turns_stream hturns hfin).1 ih

theorem Parses.fits {refuses : Nat → Bool} {c : ClientInfo} {trace : List Obs}
    {ms : List Bytes} (h : Parses refuses c trace ms) : Fits c := by
  obtain ⟨done,tail,message,-,hframe,-⟩ := h
  cases hframe with
  | header hstate => exact (suspended_header hstate).fits
  | payload _ _ _ _ hpart =>
    intro _
    omega

/-- A member and, when it is closed, where its reader was left: no message is to
come, or the parser stands where it stood. -/
structure Parted (refuses : Nat → Bool) (ms : List Bytes) (v : View) : Prop where
  hearing : Hearing refuses ms v
  left : v.info.closed = true → Final refuses ms v.sock.trace ∨
    (Parses refuses v.info v.sock.trace ms ∧ (.readReturned (-1) ∈ v.sock.trace →
      Suspended v.info ∧ (.readFailed ∈ v.sock.trace ∨ .endOfStream ∈ v.sock.trace)))

namespace Parted
variable {refuses : Nat → Bool} {ms : List Bytes} {v v' : View}

theorem of_open (h : Hearing refuses ms v) (hopen : v.info.closed = false) :
    Parted refuses ms v := by
  refine ⟨h,fun hclosed => ?_⟩
  rw [hopen] at hclosed
  cases hclosed

theorem still (h : Parted refuses ms v) (hstops : Stops v.info.closed v.sock.trace)
    (hstill : View.Still v v') : Parted refuses ms v' := by
  refine ⟨h.hearing.still hstill,fun _ => ?_⟩
  obtain ⟨hreading,hclosed,more,ht,hmore⟩ := hstill
  obtain ⟨-,-,hrec⟩ := quiet_messages hmore
  have hold : .readReturned (-1) ∈ v'.sock.trace → .readReturned (-1) ∈ v.sock.trace := by
    intro hmem
    rw [ht] at hmem
    rcases List.mem_append.mp hmem with hold | hnew
    · exact hold
    · cases hmore _ hnew
  have hparses : Parses refuses v.info v.sock.trace ms →
      Parses refuses v'.info v'.sock.trace ms := by
    intro hp
    rw [ht]
    exact hp.still hreading hrec
  cases hc : v.info.closed with
  | false =>
    refine .inr ⟨hparses (h.hearing.parses hc),fun hgave => ?_⟩
    cases hstops.running hc _ (hold hgave)
  | true =>
    rcases h.left hc with hfinal | ⟨hp,hgave⟩
    · refine .inl (fun rest => ?_)
      rw [ht,received_append,hrec,List.append_nil]
      exact hfinal rest
    · refine .inr ⟨hparses hp,fun hmem => ?_⟩
      obtain ⟨hidle,hcause⟩ := hgave (hold hmem)
      refine ⟨Untouched.suspended ⟨hreading,hclosed⟩ hidle,?_⟩
      rw [ht]
      exact hcause.imp (List.mem_append_left _) (List.mem_append_left _)

theorem pause (h : Parted refuses ms v) (hopen : v.info.closed = false) {r : Int}
    (hread : v.reads (.ret r) v') : Parted refuses ms (v'.stop r) := by
  have hparses := h.hearing.parses hopen
  have hopen' : v'.info.closed = false := (readTurn_frame hread.1).1.closed.trans hopen
  have hidle : Suspended v'.info :=
    ((readTurn_suspended hparses.fits hread.1).2 r rfl).1
  obtain ⟨-,hpaused⟩ := readTurn_outcome hread.1 hparses
  refine ⟨h.hearing.pause hopen hread,?_⟩
  -- the history and the record of a client that its reader gives up
  have hgave : ∀ {c : ClientInfo} {k : Sock}, c.reading = v'.info.reading →
      k.trace = v'.sock.trace ++ [.readReturned (-1),.markedClosed] →
      Parses refuses v'.info v'.sock.trace ms → Parses refuses c k.trace ms := by
    intro c k hreading ht hp
    rw [ht]
    exact hp.still hreading rfl
  have hstop : (v'.stop (-1)).sock.trace =
      v'.sock.trace ++ [.readReturned (-1),.markedClosed] := by
    simp [View.stop,View.markClosed,View.note,Sock.note]
  rcases hpaused with ⟨rfl,-⟩ | ⟨rfl,hfail,hp⟩ | ⟨rfl,hend,hp,-⟩ | ⟨rfl,hlong⟩
  · intro hclosed
    have hbad : v'.info.closed = true := hclosed
    rw [hopen'] at hbad
    cases hbad
  · exact fun _ => .inr ⟨hgave rfl hstop hp,fun _ => ⟨hidle,.inl (by simp [hstop,hfail])⟩⟩
  · exact fun _ => .inr ⟨hgave rfl hstop hp,fun _ => ⟨hidle,.inr (by simp [hstop,hend])⟩⟩
  · refine fun _ => .inl (fun rest => ?_)
    have hlate : received [.readReturned (-1),.markedClosed] = [] := rfl
    rw [hstop,received_append,hlate,List.append_nil,hlong]

theorem answer_open {v v' : View} {r : Int} (h : v.answer r = .ok v') (hr : r ≠ -1) :
    v'.info.closed = v.info.closed := by
  rcases View.answer_cases h with ⟨hbad,-⟩ | ⟨c,-,hfinish,rfl⟩
  · exact absurd hbad hr
  · exact (finishMessage_frame hfinish).closed

theorem hears (h : Parted refuses ms v) (hstops : Stops v.info.closed v.sock.trace)
    (hstep : View.Hears v v') (hagree : Foretells refuses v'.sock.trace) :
    ∃ more, Parted refuses (ms ++ more) v' := by
  cases hstep with
  | still hstill => exact ⟨[],by simpa using h.still hstops hstill⟩
  | receive hopen hread =>
    have hnext := h.hearing.receive hopen hread
    exact ⟨[],by simpa using of_open hnext ((readTurn_frame hread.1).1.closed.trans hopen)⟩
  | pause hopen hread => exact ⟨[],by simpa using h.pause hopen hread⟩
  | @name v₁ _ copy c hopen hread hname hstore hanswer =>
    obtain ⟨whole,hnext⟩ := h.hearing.name hopen hread hname hstore hagree hanswer
    have hopen₁ : c.closed = false := (storeClientName_frame hstore).2.trans
      ((readTurn_frame hread.1).1.closed.trans hopen)
    exact ⟨[whole],of_open hnext ((answer_open hanswer (by decide)).trans hopen₁)⟩
  | @message v₁ v₂ _ copy r hopen hread hname hstill hclosed hanswer =>
    obtain ⟨whole,hnext,hfinal⟩ := h.hearing.message hopen hread hname hstill hagree hanswer
    refine ⟨[whole],?_⟩
    by_cases hr : r = -1
    · exact ⟨hnext,fun _ => .inl (hfinal hr)⟩
    · exact of_open hnext ((answer_open hanswer hr).trans hclosed)

end Parted

theorem reach_parted {R : Room} (h : ReflTransGen Act Room.empty R) :
    ∀ p ∈ R.members, ∀ refuses, Foretells refuses (R.view p).sock.trace →
      ∃ ms, Parted refuses ms (R.view p) := by
  have hnone : ∀ p, p ∉ Room.empty.members := by simp [Room.empty]
  induction h with
  | refl => exact fun p hp => absurd hp (hnone p)
  | tail hacts hact ih =>
    intro q hq refuses hagree
    rcases hact.hears hq with ⟨hmem,hstep⟩ | ⟨serial,joined,hfresh⟩
    · obtain ⟨more,ht⟩ := hstep.trace
      have hstops := reach_stops hacts (fun p hp => absurd hp (hnone p)) q hmem
      obtain ⟨ms,hms⟩ := ih q hmem refuses (Foretells.of_append (l := more) (ht ▸ hagree))
      obtain ⟨extra,hnext⟩ := hms.hears hstops hstep hagree
      exact ⟨ms ++ extra,hnext⟩
    · have hhearing : Hearing refuses [] _ := .fresh hfresh
      obtain ⟨old,fd,junk,oracle,hview⟩ := hfresh
      exact ⟨[],.of_open hhearing (by rw [hview]; rfl)⟩

structure Deaf (b : Outbox) : Prop where
  closed : b.closed = true ↔ .markedClosed ∈ b.trace
  silent : Each (fun past o => .markedClosed ∈ past → o.ofReader = false) b.trace

theorem Outbox.Beat.news {p : Nat} {b b' : Outbox} (h : Beat p b b') :
    ∃ l, b'.trace = b.trace ++ l ∧ (b'.closed = true ↔ b.closed = true ∨ .markedClosed ∈ l) ∧
      (b.closed = true → ∀ o ∈ l, o.ofReader = false) ∧
      (.markedClosed ∈ l → l = [.markedClosed]) := by
  have hunmarked : ∀ l : List Obs, b'.trace = b.trace ++ l → b'.closed = b.closed →
      (∀ o ∈ l, o.ofReader = false ∧ o ≠ .markedClosed) →
      ∃ l, b'.trace = b.trace ++ l ∧ (b'.closed = true ↔ b.closed = true ∨ .markedClosed ∈ l) ∧
        (b.closed = true → ∀ o ∈ l, o.ofReader = false) ∧
        (.markedClosed ∈ l → l = [.markedClosed]) := by
    intro l ht hclosed hl
    have hnot : .markedClosed ∉ l := fun hmem => (hl _ hmem).2 rfl
    exact ⟨l,ht,by simp [hclosed,hnot],fun _ o ho => (hl o ho).1,fun hmem => absurd hmem hnot⟩
  have hsent : ∀ (path : Path) (bs : Bytes), ∀ o ∈ sentObs path bs,
      o.ofReader = false ∧ o ≠ .markedClosed := by
    intro path bs o ho
    rw [mem_sentObs ho]
    exact ⟨rfl,by simp⟩
  cases h with
  | @inert o ho hopen =>
    have hnot : o ≠ .markedClosed := by
      rintro rfl
      cases ho
    refine ⟨[o],rfl,by simp [Outbox.log,hnot.symm],?_,fun hmem => ?_⟩
    · intro hclosed o' ho'
      rw [List.mem_singleton.mp ho']
      cases hr : o.ofReader with
      | false => rfl
      | true =>
        rw [hopen hr] at hclosed
        cases hclosed
    · exact absurd (List.mem_singleton.mp hmem).symm hnot
  | close => exact ⟨[.markedClosed],rfl,by simp,by simp [Obs.ofReader],fun _ => rfl⟩
  | shutdown => exact hunmarked [] (by simp) rfl (by simp)
  | listing names => exact hunmarked _ rfl rfl (by simp [Obs.ofReader])
  | part => exact hunmarked _ rfl rfl (by simp [Obs.ofReader])
  | whole => exact hunmarked _ rfl rfl (by simp [Obs.ofReader])
  | skip => exact hunmarked _ rfl rfl (by simp [Obs.ofReader])
  | take => exact hunmarked _ rfl rfl (by simp [Obs.ofReader])
  | @direct d _ _ _ =>
    refine hunmarked _ rfl rfl (fun o ho => ?_)
    rcases List.mem_append.mp ho with ho | ho
    · rcases List.mem_append.mp ho with ho | ho
      · rw [List.mem_singleton.mp ho]
        exact ⟨rfl,by simp⟩
      · exact hsent _ _ o ho
    · exact hsent _ _ o ho

namespace Deaf
variable {p : Nat} {b b' : Outbox}

theorem blank (hb : b.Blank) : Deaf b := by
  obtain ⟨htrace,-,hclosed,-⟩ := hb
  refine ⟨by simp [htrace,hclosed],?_⟩
  rw [htrace]
  exact Each.nil

theorem beat (h : Deaf b) (hbeat : Beat p b b') : Deaf b' := by
  obtain ⟨l,ht,hclosed,hsilent,halone⟩ := hbeat.news
  refine ⟨?_,?_⟩
  · rw [hclosed,ht,h.closed,List.mem_append]
  · rw [ht]
    refine h.silent.append (fun a o rest he hpast => ?_)
    rcases List.mem_append.mp hpast with hold | hnew
    · exact hsilent (h.closed.mpr hold) o (by simp [he])
    · -- the mark is an entry of its own, so nothing was written behind it
      have hone := halone (by simp [he,hnew])
      rw [hone] at he
      cases a with
      | nil => cases hnew
      | cons x a => simp at he

end Deaf

theorem Seat.Reachable.deaf {p : Nat} {s : Seat} (h : Seat.Reachable p s) : Deaf s.outbox :=
  h.outbox (fun _ hb => .blank hb) (fun _ _ hdeaf hbeat => hdeaf.beat hbeat)

/-- The messages `ms` were handed over, once and in order, and none of them after
the client was marked closed. -/
structure HandedBefore (trace : List Obs) (ms : List Bytes) : Prop where
  copies : Copies trace ms
  marked : .markedClosed ∈ trace
  before : Each (fun past o => .markedClosed ∈ past → ∀ copy, o ≠ .message copy) trace

def NoneUnread (refuses : Nat → Bool) (k : Sock) : Prop :=
  (decode refuses (received k.trace ++ k.inbox)).messages =
    (decode refuses (received k.trace)).messages

instance (refuses : Nat → Bool) (k : Sock) : Decidable (NoneUnread refuses k) :=
  inferInstanceAs (Decidable (_ = _))

theorem Copies.length {trace : List Obs} {ms : List Bytes} (h : Copies trace ms) :
    (messages trace).length = ms.length := by
  rcases h with heq | ⟨-,m,rest,rfl,heq⟩
  · simp [heq]
  · simp [heq]

section Runs
variable {acts acts' : List Action} {s s' : Sys} {p : Nat} {c c' : ClientInfo} {k k' : Sock}

/-- Where the reader of a closed client stopped, in any state of a run. -/
theorem listed_left {refuses : Nat → Bool} (hrun : run step Sys.init acts = .ok s)
    (hphase : s.phase ≠ .done) (h : Listed s p c k) (hclosed : c.closed = true)
    (hforetells : Foretells refuses k.trace) :
    ∃ ms, Heard refuses ms k.trace ∧ (Final refuses ms k.trace ∨
      (Parses refuses c k.trace ms ∧ (.readReturned (-1) ∈ k.trace →
        Suspended c ∧ (.readFailed ∈ k.trace ∨ .endOfStream ∈ k.trace)))) := by
  obtain ⟨R,htracks,hseated,hacts⟩ := run_tracks hrun hphase
  obtain ⟨hp,hseats⟩ := htracks.seats hseated h
  have hsock : k = (R.view p).sock := hseats.sock
  have hinfo : c = (R.view p).info.withQueue c.msgQueue := hseats.info
  have hreading : c.reading = (R.view p).info.reading := by
    rw [hinfo]
    rfl
  rw [hsock] at hforetells
  obtain ⟨ms,hheard,hleft⟩ := reach_parted hacts p hp refuses hforetells
  rw [hinfo] at hclosed
  have hleft := hleft hclosed
  rw [← hsock] at hleft
  refine ⟨ms,by rw [hsock]; exact hheard.heard,?_⟩
  rcases hleft with hfinal | ⟨hparses,hgave⟩
  · exact .inl hfinal
  · have hsame := hparses.still (d := c) (l := []) hreading rfl
    rw [List.append_nil] at hsame
    refine .inr ⟨hsame,fun hmem => ?_⟩
    obtain ⟨hidle,hcause⟩ := hgave hmem
    refine ⟨?_,hcause⟩
    rw [hinfo]
    exact hidle

/-- A client whose FIN has arrived is marked closed with all its messages handed
over, exactly when no complete message is unread at the hang-up, or where a read
fails. After the FIN nothing arrives, and a closed client is not read: what is
unread at that moment is so in every later state. -/
theorem parting_complete_iff (hrun : run step Sys.init acts = .ok s)
    (hrun' : run step s acts' = .ok s') (hphase : s'.phase ≠ .done) (h : Listed s p c k)
    (h' : Listed s' p c' k') (hserial : k'.serial = k.serial) (hopen : c.closed = false)
    (hfin : k.fin = true) (hclosed : c'.closed = true) (hwrite : .writeFailed ∉ k'.trace) :
    HandedBefore k'.trace
        (decode (refusals k'.trace) (received k.trace ++ k.inbox)).messages ↔
      (.hangup k'.inbox ∈ k'.trace ∨ .readFailed ∈ k'.trace →
        NoneUnread (refusals k'.trace) k') := by
  obtain ⟨seat,seat',hseats,hseats',hturns⟩ := later_seats hrun hrun' hphase h h' hserial
  have hsock : k = seat.view.sock := hseats.sock
  have hsock' : k' = seat'.view.sock := hseats'.sock
  have hinfo' : c' = seat'.view.info.withQueue c'.msgQueue := hseats'.info
  have hopen₀ : seat.view.info.closed = false := by
    rw [hseats.info] at hopen
    exact hopen
  have hclosed₀ : seat'.view.info.closed = true := by
    rw [hinfo'] at hclosed
    exact hclosed
  have hfin₀ : seat.view.sock.fin = true := by
    rw [← hsock]
    exact hfin
  obtain ⟨-,hstream⟩ := turns_stream hturns hfin₀
  have hreason := turns_reason hturns hfin₀ (.of_open hopen₀) hclosed₀
  have hended := hseats'.reachable.ended
  have hdeaf := hseats'.reachable.deaf
  have htrace : seat'.outbox.trace = k'.trace := by
    rw [hsock']
    rfl
  rw [← hsock,← hsock'] at hstream
  rw [← hsock'] at hreason hended
  have hall : run step Sys.init (acts ++ acts') = .ok s' := by
    rw [run_append,hrun]
    exact hrun'
  obtain ⟨ms,hheard,hleft⟩ :=
    listed_left hall hphase h' hclosed (refusals_foretell k'.trace)
  -- the reader stopped between two messages, or there is no other message
  have hplace : Final (refusals k'.trace) ms k'.trace ∨
      (Parses (refusals k'.trace) c' k'.trace ms ∧ Suspended c' ∧
        (.hangup k'.inbox ∈ k'.trace ∨ .readFailed ∈ k'.trace ∨ k'.inbox = [])) := by
    rcases hleft with hfinal | ⟨hparses,hgave⟩
    · exact .inl hfinal
    · rcases hreason with hfailed | hmem | ⟨hidle,hhung⟩
      · exact absurd hfailed hwrite
      · obtain ⟨hidle,hcause⟩ := hgave hmem
        refine .inr ⟨hparses,hidle,.inr ?_⟩
        exact hcause.imp id (fun hend => (hended hend).2)
      · refine .inr ⟨hparses,?_,.inl hhung⟩
        rw [hinfo']
        exact hidle
  have hread : (decode (refusals k'.trace) (received k'.trace)).messages = ms := by
    rcases hplace with hfinal | ⟨hparses,hidle,-⟩
    · have hnow := hfinal []
      rwa [List.append_nil] at hnow
    · obtain ⟨n,message,tail,hdecode,-,-⟩ := hparses.waiting hidle
      rw [hdecode]
  have hsilent : Each (fun past o => .markedClosed ∈ past → ∀ copy, o ≠ .message copy)
      k'.trace := by
    rw [← htrace]
    refine hdeaf.silent.mono (fun past o hquiet hmem copy he => ?_)
    have hbad := hquiet hmem
    rw [he] at hbad
    cases hbad
  have hmarked : .markedClosed ∈ k'.trace := by
    rw [← htrace]
    exact hdeaf.closed.mp hclosed₀
  rw [← hstream]
  constructor
  · intro hhanded _
    have hlen : ms.length =
        (decode (refusals k'.trace) (received k'.trace ++ k'.inbox)).messages.length := by
      rw [← hheard.copies.length,hhanded.copies.length]
    unfold NoneUnread
    rw [hread]
    exact ((hheard.decoded k'.inbox).eq_of_length hlen).symm
  · intro hnone
    have hsame : (decode (refusals k'.trace) (received k'.trace ++ k'.inbox)).messages = ms := by
      rcases hplace with hfinal | ⟨-,-,hhung | hfailed | hempty⟩
      · exact hfinal k'.inbox
      · exact (hnone (.inl hhung)).trans hread
      · exact (hnone (.inr hfailed)).trans hread
      · rw [hempty,List.append_nil]
        exact hread
    rw [hsame]
    exact ⟨hheard.copies,hmarked,hsilent⟩

def Action.leaves (fd : Nat) (input : Bool) : List Action :=
  turn [.sock fd ⟨input,false,true,false,false⟩] []

theorem parting_complete_iff_leaves : ∃ s s' c' k',
    run step Sys.init (Action.connects 1 5 .quiet ++
      Action.hears 5 (frame msgTypeNormal (ascii "ann")) ++ [.net 5 [] true false]) = .ok s ∧
    run step s (Action.leaves 5 false) = .ok s' ∧ Listed s' 1 c' k' ∧ c'.closed = true ∧
      HandedBefore k'.trace [ascii "ann"] := by
  obtain ⟨s',hrun',c',k',hphase',hlisted',htest'⟩ := reaches_listed
    (show reachesListed (Action.connects 1 5 .quiet ++
      Action.hears 5 (frame msgTypeNormal (ascii "ann")) ++ [.net 5 [] true false] ++
      Action.leaves 5 false) 1 (fun _ c k => decide (k.serial = 0 ∧ c.closed = true ∧
        .writeFailed ∉ k.trace ∧ NoneUnread (refusals k.trace) k ∧
        (decode (refusals k.trace) (frame msgTypeNormal (ascii "ann"))).messages =
          [ascii "ann"])) = true by decide +kernel)
  obtain ⟨s,hrun,c,k,hphase,hlisted,htest⟩ := reaches_listed
    (show reachesListed (Action.connects 1 5 .quiet ++
      Action.hears 5 (frame msgTypeNormal (ascii "ann")) ++ [.net 5 [] true false]) 1
      (fun _ c k => decide (k.serial = 0 ∧ c.closed = false ∧ k.fin = true ∧
        received k.trace ++ k.inbox = frame msgTypeNormal (ascii "ann"))) = true
      by decide +kernel)
  obtain ⟨hserial',hclosed,hwrite,hnone,hdecode⟩ := of_decide_eq_true htest'
  obtain ⟨hserial,hopen,hfin,hstream⟩ := of_decide_eq_true htest
  have hnext : run step s (Action.leaves 5 false) = .ok s' := by
    rw [run_append,hrun] at hrun'
    exact hrun'
  have hall := (parting_complete_iff hrun hnext hphase' hlisted hlisted'
    (hserial'.trans hserial.symm) hopen hfin hclosed hwrite).mpr (fun _ => hnone)
  rw [hstream,hdecode] at hall
  exact ⟨s,s',c',k',hrun,hnext,hlisted',hclosed,hall⟩

/-- A message and the FIN arrive, both are reported in one event, and the client
is closed with the message unread. -/
theorem parting_loses : ∃ s s' c c' k k',
    run step Sys.init (Action.connects 1 5 .quiet ++
      [.net 5 (frame msgTypeNormal (ascii "ann")) true false]) = .ok s ∧
    run step s (Action.leaves 5 true) = .ok s' ∧ s'.phase ≠ .done ∧ Listed s 1 c k ∧
      Listed s' 1 c' k' ∧ k'.serial = k.serial ∧ c.closed = false ∧ k.fin = true ∧
      received k.trace ++ k.inbox = frame msgTypeNormal (ascii "ann") ∧ c'.closed = true ∧
      .writeFailed ∉ k'.trace ∧ .readFailed ∉ k'.trace ∧ .verdict (-1) ∉ k'.trace ∧
      ¬ HandedBefore k'.trace
        (decode (refusals k'.trace) (received k.trace ++ k.inbox)).messages := by
  obtain ⟨s',hrun',c',k',hphase',hlisted',htest'⟩ := reaches_listed
    (show reachesListed (Action.connects 1 5 .quiet ++
      [.net 5 (frame msgTypeNormal (ascii "ann")) true false] ++ Action.leaves 5 true) 1
      (fun _ c k => decide (k.serial = 0 ∧ c.closed = true ∧ .writeFailed ∉ k.trace ∧
        .readFailed ∉ k.trace ∧ .verdict (-1) ∉ k.trace ∧ messages k.trace = [] ∧
        (decode (refusals k.trace) (frame msgTypeNormal (ascii "ann"))).messages =
          [ascii "ann"])) = true by decide +kernel)
  obtain ⟨s,hrun,c,k,hphase,hlisted,htest⟩ := reaches_listed
    (show reachesListed (Action.connects 1 5 .quiet ++
      [.net 5 (frame msgTypeNormal (ascii "ann")) true false]) 1
      (fun _ c k => decide (k.serial = 0 ∧ c.closed = false ∧ k.fin = true ∧
        received k.trace ++ k.inbox = frame msgTypeNormal (ascii "ann"))) = true
      by decide +kernel)
  obtain ⟨hserial',hclosed,hwrite,hread,hverdict,hnone,hdecode⟩ := of_decide_eq_true htest'
  obtain ⟨hserial,hopen,hfin,hstream⟩ := of_decide_eq_true htest
  have hnext : run step s (Action.leaves 5 true) = .ok s' := by
    rw [run_append,hrun] at hrun'
    exact hrun'
  refine ⟨s,s',c,c',k,k',hrun,hnext,hphase',hlisted,hlisted',hserial'.trans hserial.symm,hopen,
    hfin,hstream,hclosed,hwrite,hread,hverdict,fun hhanded => ?_⟩
  have hlen := hhanded.copies.length
  rw [hstream,hdecode,hnone] at hlen
  cases hlen

end Runs
end ChatServer
