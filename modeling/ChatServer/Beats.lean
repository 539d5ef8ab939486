import ChatServer.Outbox

/-! Every turn at the seat of a member is a sequence of beats of its outbox, so
what every beat keeps holds in every state of a connection. -/
set_option autoImplicit false

namespace ChatServer
open ByteString Memory Relation Execution

section Beats
open Outbox
variable {p : Nat} (bs : List Broadcast) (sh : Bool)

theorem View.setEpollout_beats (v : View) (on : Bool) :
    ReflTransGen (Beat p) (v.outbox bs sh) ((v.setEpollout on p).outbox bs sh) := by
  unfold View.setEpollout Sock.epollCtlMod
  by_cases he : v.info.epolloutEnabled = on
  · rw [if_pos he]
  · rw [if_neg he]
    have hbeat : ∀ ok, Beat p (v.outbox bs sh) ((v.outbox bs sh).log [.epollMod on ok]) :=
      fun ok => .inert rfl (fun h => by cases h)
    by_cases hok : (v.sock.registration.isSome && v.sock.oracle.ctls.headD true) = true
    · simp only [hok,if_true]
      exact .single (hbeat true)
    · simp only [hok]
      exact .single (hbeat false)

theorem View.arm_beats (v : View) :
    ReflTransGen (Beat p) (v.outbox bs sh) ((v.arm p).outbox bs sh) := by
  unfold View.arm
  split
  · exact .refl
  · exact v.setEpollout_beats bs sh true

theorem View.tryWriteLoop_beats (sends : List SendRes) (v : View)
    (hopen : v.info.closed = false) :
    ReflTransGen (Beat p) (v.outbox bs sh) ((v.tryWriteLoop p sends).1.outbox bs sh) := by
  induction sends generalizing v with
  | nil =>
    obtain ⟨i,k,queue⟩ := v
    cases queue with
    | nil => exact View.setEpollout_beats bs sh ⟨i,k,[]⟩ false
    | cons x q => exact .refl
  | cons r rest ih =>
    obtain ⟨i,k,queue⟩ := v
    cases queue with
    | nil => exact View.setEpollout_beats bs sh ⟨i,k,[]⟩ false
    | cons x q =>
      have hfail : ∀ k' : Sock, k'.trace = k.trace → k'.joined = k.joined →
          ReflTransGen (Beat p) (View.outbox ⟨i,k,x :: q⟩ bs sh)
            (View.outbox ⟨i,k'.note .writeFailed,x :: q⟩ bs sh) := by
        intro k' ht hj
        have hbeat := Beat.inert (p := p) (b := View.outbox ⟨i,k,x :: q⟩ bs sh)
          (o := .writeFailed) rfl (fun h => by cases h)
        have hj' : (k'.note .writeFailed).joined = k.joined := hj
        refine .single ?_
        simpa [View.outbox,Outbox.log,ht,hj'] using hbeat
      unfold View.tryWriteLoop
      cases r with
      | accepts n =>
        simp only
        by_cases h0 : n = 0
        · subst h0
          simp only [if_true,List.take_zero]
          exact hfail _ rfl rfl
        · rw [if_neg h0]
          have hpos : 0 < n := Nat.pos_of_ne_zero h0
          have hne : x.unsent.take n ≠ [] := by
            intro he
            rcases List.take_eq_nil_iff.mp he with hn | hu
            · exact h0 hn
            · exact x.pending hu
          have hobs : sentObs .queued (x.unsent.take n) = [.sent .queued (x.unsent.take n)] :=
            if_neg hne
          have hjoined : (((k.withSends rest).accept .queued (x.unsent.take n))).joined =
              k.joined := by
            unfold Sock.accept
            split <;> rfl
          split
          · rename_i hn
            refine .head ?_ (ih _ hopen)
            have hbeat := Beat.part (p := p) (b := View.outbox ⟨i,k,x :: q⟩ bs sh) rfl hopen
              hpos hn
            simpa [View.outbox,Outbox.log,hobs,hjoined] using hbeat
          · rename_i hn
            have hall : x.unsent.take n = x.unsent := List.take_of_length_le (by omega)
            refine .head ?_ (ih _ hopen)
            have hbeat := Beat.whole (p := p) (b := View.outbox ⟨i,k,x :: q⟩ bs sh) rfl hopen
            rw [hall] at hobs hjoined ⊢
            simpa [View.outbox,Outbox.log,hobs,hjoined] using hbeat
      | wouldBlock => exact .refl
      | interrupted => exact ih ⟨i,k.withSends rest,x :: q⟩ hopen
      | fails => exact hfail (k.withSends rest) rfl rfl

theorem View.sendNow_beats (v : View) (hopen : v.info.closed = false) :
    ReflTransGen (Beat p) (v.outbox bs sh) ((v.sendNow p).outbox bs sh) := by
  have hwrite := v.tryWriteLoop_beats (p := p) bs sh v.sock.oracle.sends hopen
  unfold View.sendNow View.tryWrite
  simp only
  split
  · exact hwrite.tail .close
  · exact hwrite

theorem View.offer_beats (v : View) {c : Broadcast}
    (hsaid : (v.outbox bs sh).Says c) :
    ReflTransGen (Beat p) (v.outbox bs sh)
      ((v.offer p bs.length (decide (some p = c.sender)) c.msg).outbox (bs ++ [c]) sh) := by
  have hskip : ((v.outbox bs sh).offer p c v.nextAlloc).taken = false →
      ReflTransGen (Beat p) (v.outbox bs sh)
        ((v.noteOffer bs.length (decide (some p = c.sender)) c.msg.length).outbox
          (bs ++ [c]) sh) := fun h => .single (.skip hsaid h)
  have hnext : (v.noteOffer bs.length (decide (some p = c.sender)) c.msg.length).nextAlloc =
      v.nextAlloc := rfl
  unfold View.offer
  simp only [hnext]
  by_cases hown : decide (some p = c.sender) = true
  · rw [if_pos hown]
    exact hskip (by simp [Offer.taken,Outbox.offer,hown])
  · rw [if_neg hown]
    by_cases hclosed : v.info.closed = true
    · have hclosed' : (v.noteOffer bs.length (decide (some p = c.sender))
          c.msg.length).info.closed = true := hclosed
      rw [if_pos hclosed']
      exact hskip (by simp [Offer.taken,Outbox.offer,View.outbox,hclosed])
    · have hclosed' : ¬ (v.noteOffer bs.length (decide (some p = c.sender))
          c.msg.length).info.closed = true := hclosed
      rw [if_neg hclosed']
      by_cases halloc : v.nextAlloc = false
      · rw [if_pos halloc]
        exact hskip (by simp [Offer.taken,Outbox.offer,halloc])
      · rw [if_neg halloc]
        generalize hv : (v.noteOffer bs.length (decide (some p = c.sender))
          c.msg.length).dropAlloc = u
        have hqueue : u.queue = v.queue := by rw [← hv]; rfl
        by_cases hlim : pendingBytes u.queue+(headerSize+c.msg.length) > msgSizeLimit
        · rw [if_pos hlim]
          refine ReflTransGen.trans ?_ (u.arm_beats (bs ++ [c]) sh)
          rw [← hv]
          refine hskip ?_
          rw [hqueue] at hlim
          have hover : ¬ pendingBytes v.queue+(headerSize+c.msg.length) ≤ msgSizeLimit := by
            omega
          simp [Offer.taken,Outbox.offer,View.outbox,hover]
        · rw [if_neg hlim]
          have htake : ReflTransGen (Beat p) (v.outbox bs sh)
              ((u.enqueue bs.length c.msg).outbox (bs ++ [c]) sh) := by
            have hfits : pendingBytes v.queue+(headerSize+c.msg.length) ≤ msgSizeLimit := by
              rw [hqueue] at hlim
              omega
            have htaken : ((v.outbox bs sh).offer p c v.nextAlloc).taken = true := by
              simp only [Bool.not_eq_true,Bool.not_eq_false] at hown hclosed halloc
              simp [Offer.taken,Outbox.offer,View.outbox,hown,hclosed,halloc,hfits]
            have hbeat := Beat.take hsaid htaken
            refine .single ?_
            rw [← hv]
            simpa [View.outbox,Outbox.log,View.enqueue,View.noteOffer,View.dropAlloc,View.note,
              Sock.note,Outbox.newPkt,Outbox.offer] using hbeat
          have hopen : (u.enqueue bs.length c.msg).info.closed = false := by
            rw [← hv]
            exact Bool.eq_false_iff.mpr hclosed
          split
          · exact (htake.trans (View.sendNow_beats _ sh _ hopen)).trans (View.arm_beats _ sh _)
          · exact htake.trans (View.arm_beats _ sh _)

def View.directWrite (v : View) (msgType : UInt8) (msg : Bytes) : DirectWrite :=
  ⟨msgType,msg,v.headOffset,v.info.closed,v.sock.oracle.sends⟩

theorem Sock.accept_sends (k : Sock) (path : Path) (taken : Bytes) :
    (k.accept path taken).oracle = k.oracle := by
  unfold Sock.accept
  split <;> rfl

@[simp] theorem Sock.withSends_joined (k : Sock) (sends : List SendRes) :
    (k.withSends sends).joined = k.joined := rfl

theorem Sock.accept_joined (k : Sock) (path : Path) (taken : Bytes) :
    (k.accept path taken).joined = k.joined := by
  unfold Sock.accept
  split <;> rfl

theorem Sock.writeFrame_obs (k : Sock) (d : DirectWrite) (hsends : k.oracle.sends = d.sends) :
    (k.writeFrame d.msgType d.payload).1.trace =
        k.trace ++ sentObs .direct d.first.taken ++ sentObs .direct d.second ∧
      (k.writeFrame d.msgType d.payload).1.joined = k.joined := by
  have hfirst : ChatServer.writeAll k.oracle.sends
      (createHeader d.payload.length d.msgType true).bytes = d.first := by
    rw [hsends]
    rfl
  unfold Sock.writeFrame DirectWrite.second
  simp only [Sock.writeAll,hfirst,Sock.accept_sends]
  by_cases hret : d.first.ret = -1
  · simp [hret,Sock.accept_joined]
  · have hrest : ((k.withSends d.first.rest).oracle).sends = d.first.rest := rfl
    simp only [hret,if_false,hrest]
    split <;> simp [Sock.accept_joined]

theorem View.direct_outbox (v : View) (msgType : UInt8) (msg : Bytes) :
    (v.direct msgType msg).1.outbox bs sh = (v.outbox bs sh).log
      ([.direct (v.directWrite msgType msg)] ++
        sentObs .direct (v.directWrite msgType msg).first.taken ++
        sentObs .direct (v.directWrite msgType msg).second) := by
  obtain ⟨htrace,hjoined⟩ := Sock.writeFrame_obs
    (v.note (.direct (v.directWrite msgType msg))).sock (v.directWrite msgType msg) rfl
  unfold View.outbox Outbox.log
  congr 1
  refine htrace.trans ?_
  simp

theorem served_beats {s s' : Seat} (h : Seat.Served p s s') :
    ReflTransGen (Beat p) s.outbox s'.outbox := by
  cases h with
  | @offer sender msg hchat hnotice =>
    exact View.offer_beats s.broadcasts s.shutdown s.view (c := ⟨sender,msg⟩) ⟨hchat,hnotice⟩
  | @whisper msg hmsg =>
    refine .single ?_
    unfold Seat.outbox
    rw [View.direct_outbox]
    exact .direct (.inl ⟨rfl,hmsg⟩) rfl rfl
  | @list msg hmsg =>
    refine .single ?_
    unfold Seat.outbox
    rw [View.direct_outbox]
    exact .direct (.inr ⟨rfl,hmsg⟩) rfl rfl
  | listing names => exact .single (.listing names)
  | format size =>
    rcases s.view.sock.realloc_trace none size with ht | ht
    · have hsame : s.outbox = Seat.outbox { s with view :=
          { s.view with sock := (s.view.sock.realloc none size).1 } } := by
        have hj := (s.view.sock.realloc_frame none size).same.joined
        unfold Seat.outbox View.outbox
        rw [ht,hj]
      rw [← hsame]
    · have hlog : Seat.outbox { s with view :=
          { s.view with sock := (s.view.sock.realloc none size).1 } } =
            s.outbox.log [.blockFailed] := by
        have hj := (s.view.sock.realloc_frame none size).same.joined
        unfold Seat.outbox View.outbox Outbox.log
        rw [ht,hj]
      rw [hlog]
      exact .single (.inert rfl (fun h => by cases h))
  | @name c hname hstore =>
    obtain ⟨text,name,-,-,rfl⟩ := storeClientName_eq hstore
    exact .refl
  | shutdown => exact .single .shutdown

theorem serving_beats {s s' : Seat} (h : ReflTransGen (Seat.Served p) s s') :
    ReflTransGen (Beat p) s.outbox s'.outbox := by
  induction h with
  | refl => exact .refl
  | tail _ hstep ih => exact ih.trans (served_beats hstep)

theorem Sock.Reads.trace {k k' : Sock} {count : Nat} {out : ReadOut}
    (h : k.Reads count k' out) :
    ∃ more, k'.trace = k.trace ++ more ∧ ∀ o ∈ more, o.ofTurn = true := by
  cases h with
  | nothing => exact ⟨[],by simp,by simp⟩
  | again _ _ _ htrace => exact ⟨[],by simp [htrace],by simp⟩
  | failed _ _ _ htrace => exact ⟨_,htrace,by simp [Obs.ofTurn,Obs.ofReader]⟩
  | ended _ _ _ _ _ htrace => exact ⟨_,htrace,by simp [Obs.ofTurn,Obs.ofReader]⟩
  | bytes _ _ _ _ htrace => exact ⟨_,htrace,by simp [Obs.ofTurn,Obs.ofReader]⟩

theorem BlockFrame.log {k k' : Sock} (h : BlockFrame k k') :
    ∃ more, k'.trace = k.trace ++ more ∧ ∀ o ∈ more, o.ofTurn = true := by
  rcases h.trace with ht | ht
  · exact ⟨[],by simp [ht],by simp⟩
  · exact ⟨_,ht,by simp [Obs.ofTurn]⟩

theorem readTurn_log {c c' : ClientInfo} {k k' : Sock} {next : Next}
    (h : readTurn c k = .ok (c',k',next)) :
    ∃ more, k'.trace = k.trace ++ more ∧ ∀ o ∈ more, o.ofTurn = true := by
  rcases readTurn_turn h with ⟨-,hturn⟩ | ⟨-,hturn⟩
  · cases hturn with
    | blocked hread => exact hread.trace
    | failed hread => exact hread.trace
    | ended hread => exact hread.trace
    | short _ hread => exact hread.trace
    | tooLarge _ hread => exact hread.trace
    | complete _ hread => exact hread.trace
  · cases hturn with
    | blocked hread => exact hread.trace
    | failed hread => exact hread.trace
    | short hread => exact hread.trace
    | long hread => exact hread.trace
    | fragment hread _ _ happend =>
      exact grown_trans hread.trace (appendToClientBuffer_frame happend).1.log
    | message hread _ _ happend _ hcopy =>
      have hblocks := grown_trans (appendToClientBuffer_frame happend).1.log
        (copyBuffer_frame hcopy).log
      exact grown_trans (grown_trans hread.trace hblocks) ⟨[_],rfl,by simp [Obs.ofTurn,Obs.ofReader]⟩

theorem reads_beats {v v' : View} {next : Next} (hopen : v.info.closed = false)
    (h : v.reads next v') :
    ReflTransGen (Beat p) (v.outbox bs sh) (v'.outbox bs sh) ∧ v'.info.closed = false := by
  obtain ⟨more,htrace,hmore⟩ := readTurn_log h.1
  obtain ⟨hinfo,hsock⟩ := readTurn_frame h.1
  refine ⟨?_,hinfo.closed.trans hopen⟩
  have hlog : v'.outbox bs sh = (v.outbox bs sh).log more := by
    unfold View.outbox Outbox.log
    rw [htrace,h.2,hinfo.closed,hsock.joined]
  rw [hlog]
  exact Outbox.log_inert more _ hopen (fun o ho => Obs.ofTurn_inert (hmore o ho))

theorem stop_beats {v : View} (hopen : v.info.closed = false) (r : Int) :
    ReflTransGen (Beat p) (v.outbox bs sh) ((v.stop r).outbox bs sh) := by
  have hnote : Beat p (v.outbox bs sh) ((v.note (.readReturned r)).outbox bs sh) :=
    .inert rfl (fun _ => hopen)
  unfold View.stop
  simp only
  split
  · exact (ReflTransGen.single hnote).tail .close
  · exact .single hnote

theorem answer_beats {v v' : View} {r : Int} (hopen : v.info.closed = false)
    (h : v.answer r = .ok v') : ReflTransGen (Beat p) (v.outbox bs sh) (v'.outbox bs sh) := by
  have hnote : Beat p (v.outbox bs sh) ((v.note (.verdict r)).outbox bs sh) :=
    .inert rfl (fun _ => hopen)
  rcases View.answer_cases h with ⟨-,rfl⟩ | ⟨c,-,hfinish,rfl⟩
  · exact .head hnote (stop_beats bs sh (v := v.note (.verdict r)) hopen (-1))
  · refine .single ?_
    unfold View.outbox at hnote ⊢
    rw [(finishMessage_frame hfinish).closed]
    exact hnote

/-- A turn at the seat of a member is a sequence of beats of its outbox. -/
theorem turn_beats {s s' : Seat} (h : Seat.Turn p s s') :
    ReflTransGen (Beat p) s.outbox s'.outbox := by
  cases h with
  | served h => exact serving_beats h
  | receive hopen hread => exact (reads_beats _ _ hopen hread).1
  | pause hopen hread =>
    obtain ⟨hbeats,hopen'⟩ := reads_beats s.broadcasts s.shutdown hopen hread
    exact hbeats.trans (stop_beats _ _ hopen' _)
  | message hopen hread hserved hstill hanswer =>
    obtain ⟨hbeats,-⟩ := reads_beats s.broadcasts s.shutdown hopen hread
    exact (hbeats.trans (serving_beats hserved)).trans (answer_beats _ _ hstill hanswer)
  | write hopen => exact View.sendNow_beats _ _ _ hopen
  | hangup hopen =>
    exact (ReflTransGen.single (.inert (o := .hangup s.view.sock.inbox) rfl
      (fun h => by cases h))).tail .close
  | arrive bs fin reset => exact .refl
  | plan oracle => exact .refl

theorem turns_beats {s s' : Seat} (h : ReflTransGen (Seat.Turn p) s s') :
    ReflTransGen (Beat p) s.outbox s'.outbox := by
  induction h with
  | refl => exact .refl
  | tail _ hturn ih => exact ih.trans (turn_beats hturn)

end Beats

def Outbox.Blank (b : Outbox) : Prop :=
  b.trace = [] ∧ b.queue = [] ∧ b.closed = false ∧ b.joined = b.broadcasts.length

theorem Outbox.Beat.trace {p : Nat} {b b' : Outbox} (h : Beat p b b') :
    ∃ more, b'.trace = b.trace ++ more := by
  cases h with
  | shutdown => exact ⟨[],by simp⟩
  | _ => exact ⟨_,rfl⟩

theorem Outbox.beats_keep {p : Nat} {b b' : Outbox} {I : Outbox → Prop}
    (hbeat : ∀ b b', I b → Beat p b b' → I b') (h : ReflTransGen (Beat p) b b') (hb : I b) :
    I b' := by
  induction h with
  | refl => exact hb
  | tail _ hstep ih => exact hbeat _ _ ih hstep

/-- What a blank outbox satisfies and every beat keeps holds of every seat. -/
theorem Seat.Reachable.outbox {p : Nat} {s : Seat} {I : Outbox → Prop} (h : Seat.Reachable p s)
    (hblank : ∀ b, b.Blank → I b) (hbeat : ∀ b b', I b → Outbox.Beat p b b' → I b') :
    I s.outbox := by
  obtain ⟨s₀,serial,⟨old,fd,junk,oracle,hview⟩,hturns⟩ := h
  have hstart : I s₀.outbox := by
    refine hblank _ ⟨?_,?_,?_,?_⟩
    all_goals
      unfold Seat.outbox View.outbox
      rw [hview]
    · rfl
  exact Outbox.beats_keep hbeat (turns_beats hturns) hstart

end ChatServer
