import ChatServer.Beats
import ChatServer.Parsing
import ChatServer.Simulation

/-! Every transition of the room, for the reader of one connection: what was
handed to `process_payload`, and what the calls returned, is what the reference
decoder says. -/
set_option autoImplicit false

namespace ChatServer
open ByteString Memory Execution Relation

namespace View

structure Still (v v' : View) : Prop where
  reading : v'.info.reading = v.info.reading
  closed : v.info.closed = true → v'.info.closed = true
  trace : ∃ more, v'.sock.trace = v.sock.trace ++ more ∧ ∀ o ∈ more, o.ofReader = false

theorem Still.of_quiet {v v' : View} (hreading : v'.info.reading = v.info.reading)
    (h : Quiet v v') : Still v v' := ⟨hreading,h.closed,h.trace⟩

inductive Hears : View → View → Prop
  | still {v v' : View} (h : Still v v') : Hears v v'
  | receive {v v' : View} (hopen : v.info.closed = false) (hread : v.reads .again v') :
      Hears v v'
  | pause {v v' : View} {r : Int} (hopen : v.info.closed = false)
      (hread : v.reads (.ret r) v') : Hears v (v'.stop r)
  | name {v v₁ v' : View} {copy : Option Bytes} {c : ClientInfo}
      (hopen : v.info.closed = false) (hread : v.reads (.deliver copy) v₁)
      (hname : v₁.info.hasName = false) (hstore : storeClientName v₁.info = .ok c)
      (hanswer : answer 0 { v₁ with info := { c with hasName := true } } = .ok v') : Hears v v'
  | message {v v₁ v₂ v' : View} {copy : Bytes} {r : Int} (hopen : v.info.closed = false)
      (hread : v.reads (.deliver (some copy)) v₁) (hname : v₁.info.hasName = true)
      (hstill : Still v₁ v₂) (hclosed : v₂.info.closed = false)
      (hanswer : answer r v₂ = .ok v') : Hears v v'

end View

theorem Room.processPayload_copy {R R' : Room} {p : Nat} {copy : Option Bytes} {r : Int}
    (hname : (R.view p).info.hasName = true) (h : R.processPayload p copy = .ok (R',r)) :
    ∃ text, copy = some text := by
  cases processPayload_processed h with
  | name hunnamed =>
    rw [hname] at hunnamed
    cases hunnamed
  | command => exact ⟨_,rfl⟩
  | chat => exact ⟨_,rfl⟩

theorem Act.hears {R R' : Room} (h : Act R R') {q : Nat} (hq : q ∈ R'.members) :
    (q ∈ R.members ∧ View.Hears (R.view q) (R'.view q)) ∨
      ∃ serial joined, (R'.view q).Fresh q serial joined := by
  have hset : ∀ {p : Nat} {v : View}, View.Hears (R.view p) v →
      View.Hears (R.view q) ((R.set p v).view q) :=
    fun hv => Room.set_each (fun _ => .still ⟨rfl,id,[],by simp,by simp⟩) hv q
  cases h with
  | receive _ hopen hread => exact .inl ⟨hq,hset (.receive hopen hread)⟩
  | pause _ hopen hread => exact .inl ⟨hq,hset (.pause hopen hread)⟩
  | write => exact .inl ⟨hq,hset (.still (.of_quiet (View.sendNow_reading _ _) (Quiet.sendNow _ _)))⟩
  | hangup =>
    have hquiet : ∀ v : View, Quiet v v.hangup :=
      fun v => (Quiet.note v rfl).trans (Quiet.markClosed _)
    exact .inl ⟨hq,hset (.still (.of_quiet rfl (hquiet _)))⟩
  | announce =>
    have hq' : q ∈ R.members := hq
    have hquiet : Quiet (R.view q) ((R.broadcast none shutdownMessage).view q) := by
      unfold Room.broadcast
      simp only [hq',if_true]
      exact Quiet.offer _ _ _ _ _
    exact .inl ⟨hq,.still (.of_quiet (Room.broadcast_unread R none _ q) hquiet)⟩
  | @join p v hp hfresh =>
    rcases List.mem_append.mp hq with hmem | hnew
    · refine .inl ⟨hmem,?_⟩
      have hqp : q ≠ p := fun he => hp (he ▸ hmem)
      have hview : ({ R.set p v with members := R.members ++ [p]
                                     accepted := R.accepted+1 } : Room).view q = R.view q :=
        Room.view_set_of_ne R v hqp
      rw [hview]
      exact .still ⟨rfl,id,[],by simp,by simp⟩
    · have hqp : q = p := by simpa using hnew
      subst hqp
      exact .inr ⟨R.accepted,R.broadcasts.length,by simpa using hfresh⟩
  | refuse => exact .inl ⟨hq,.still ⟨rfl,id,[],by simp,by simp⟩⟩
  | drop hp hclosed hl =>
    exact .inl ⟨List.mem_of_mem_erase (hl.mem_iff.mp hq),.still ⟨rfl,id,[],by simp,by simp⟩⟩
  | arrive => exact .inl ⟨hq,hset (.still ⟨rfl,id,[],by simp [deliver],by simp⟩)⟩
  | plan => exact .inl ⟨hq,hset (.still ⟨rfl,id,[],by simp,by simp⟩)⟩
  | clock => exact .inl ⟨hq,.still ⟨rfl,id,[],by simp,by simp⟩⟩
  | @message S p v v' copy r hp hopen hread hpayload hanswer =>
    have hserves := Room.processPayload_serves (R := R.set p v) hp hpayload
    have hmem : q ∈ R.members := by
      have hq' : q ∈ S.members := hq
      rw [hserves.members] at hq'
      exact hq'
    have hquiet : Quiet ((R.set p v).view q) (S.view q) :=
      Quiet.served_run (hserves.seats q hmem)
    refine .inl ⟨hmem,?_⟩
    by_cases hname : v.info.hasName = true
    · have hname' : ((R.set p v).view p).info.hasName = true := by simpa using hname
      have hunread := Room.processPayload_unread hname' hpayload q
      obtain ⟨text,rfl⟩ := Room.processPayload_copy hname' hpayload
      by_cases hqp : q = p
      · subst hqp
        simp only [Room.view_set_self] at hunread hquiet ⊢
        have hstill := hserves.closed
        simp only [Room.view_set_self] at hstill
        rw [(readTurn_frame hread.1).1.closed] at hstill
        exact .message hopen hread hname (.of_quiet hunread hquiet) (hstill.trans hopen) hanswer
      · rw [Room.view_set_of_ne _ _ hqp] at hunread hquiet ⊢
        exact .still (.of_quiet hunread hquiet)
    · have hname₀ : v.info.hasName = false := by simpa using hname
      obtain ⟨rfl,c,hstore,rfl⟩ := Room.processPayload_name (by simpa using hname₀) hpayload
      simp only [Room.view_set_self] at hstore hanswer
      by_cases hqp : q = p
      · subst hqp
        simp only [Room.view_set_self]
        exact .name hopen hread hname₀ hstore hanswer
      · rw [Room.view_set_of_ne _ _ hqp,Room.view_set_of_ne _ _ hqp,Room.view_set_of_ne _ _ hqp]
        exact .still ⟨rfl,id,[],by simp,by simp⟩

/-- The decoder is told of the refusals that there were. -/
def Foretells (refuses : Nat → Bool) (trace : List Obs) : Prop :=
  ∀ i r, (verdicts trace)[i]? = some r → refuses i = decide (r = -1)

/-- The messages were handed over as copies, one by one. Only the naming message
can have gone without a copy, when there was no memory for it. -/
def Copies (trace : List Obs) (ms : List Bytes) : Prop :=
  messages trace = ms.map some ∨
    (.blockFailed ∈ trace ∧ ∃ m rest, ms = m :: rest ∧ messages trace = none :: rest.map some)

structure Returned (refuses : Nat → Bool) (a : List Obs) (r : Int) : Prop where
  copies : Copies a (decode refuses (received a)).messages
  ahead : ∀ more, (decode refuses (received a)).messages <+:
    (decode refuses (received a ++ more)).messages
  rejected : (decode refuses (received a)).Rejected → r = -1 ∧
    (decode refuses (received a)).consumed = (received a).length ∧
    ∀ more, decode refuses (received a ++ more) = decode refuses (received a)
  accepted : ¬ (decode refuses (received a)).Rejected →
    r = 0 ∨ (r = -1 ∧ .endOfStream ∈ a)

def Called (refuses : Nat → Bool) (a : List Obs) (o : Obs) : Prop :=
  ∀ r, o = .readReturned r → .readFailed ∉ a → Returned refuses a r

structure Heard (refuses : Nat → Bool) (ms : List Bytes) (trace : List Obs) : Prop where
  copies : Copies trace ms
  verdicts : (verdicts trace).length = ms.length
  decoded : ∀ more, ms <+: (decode refuses (received trace ++ more)).messages
  calls : Each (Called refuses) trace

/-- Whatever comes, the decoder has no other messages than `ms`. -/
def Final (refuses : Nat → Bool) (ms : List Bytes) (trace : List Obs) : Prop :=
  ∀ more, (decode refuses (received trace ++ more)).messages = ms

def Obs.handing : Obs → Bool
  | .message _ => true
  | .verdict _ => true
  | .readReturned _ => true
  | _ => false

theorem taking_handing {o : Obs} (h : o.taking = true) : o.handing = false := by
  cases o <;> first | rfl | cases h

theorem quiet_handing {o : Obs} (h : o.ofReader = false) : o.handing = false := by
  cases o <;> first | rfl | cases h

theorem handing_messages {more : List Obs} (h : ∀ o ∈ more, o.handing = false) :
    messages more = [] ∧ verdicts more = [] := by
  unfold messages verdicts
  constructor
  all_goals
    rw [List.filterMap_eq_nil_iff]
    intro o ho
    have hh := h o ho
    cases o <;> first | rfl | cases hh

theorem Copies.append {trace more : List Obs} {ms : List Bytes} (h : Copies trace ms)
    (hmore : messages more = []) : Copies (trace ++ more) ms := by
  unfold Copies
  rw [messages_append,hmore,List.append_nil]
  rcases h with heq | ⟨hfailed,m,rest,hms,heq⟩
  · exact .inl heq
  · exact .inr ⟨List.mem_append_left _ hfailed,m,rest,hms,heq⟩

namespace Heard
variable {refuses : Nat → Bool} {ms : List Bytes} {trace l : List Obs}

theorem nil : Heard refuses [] [] :=
  ⟨.inl rfl,rfl,fun _ => List.nil_prefix,Each.nil⟩

theorem extend (h : Heard refuses ms trace) (hl : ∀ o ∈ l, o.handing = false) :
    Heard refuses ms (trace ++ l) := by
  obtain ⟨hm,hv⟩ := handing_messages hl
  refine ⟨h.copies.append hm,by rw [verdicts_append,hv,List.append_nil,h.verdicts],?_,?_⟩
  · intro bs
    rw [received_append,List.append_assoc]
    exact h.decoded _
  · refine h.calls.append ?_
    rintro a o rest he r rfl
    have hbad := hl (.readReturned r) (by rw [he]; simp)
    cases hbad

theorem returned {r : Int} (h : Heard refuses ms trace)
    (hr : .readFailed ∉ trace → Returned refuses trace r) :
    Heard refuses ms (trace ++ [.readReturned r]) := by
  refine ⟨h.copies.append rfl,by rw [verdicts_append,h.verdicts.symm]; simp [ChatServer.verdicts],
    ?_,?_⟩
  · intro bs
    rw [received_append,List.append_assoc]
    exact h.decoded _
  · refine h.calls.concat ?_
    rintro r' ⟨⟩
    exact hr

theorem message {whole : Bytes} {copy : Option Bytes} {os : List Obs} {r : Int}
    (h : Heard refuses ms trace) (hcompletes : Completes refuses (received trace) ms whole)
    (hcopy : copy = some whole ∨ (copy = none ∧ .blockFailed ∈ trace ∧ ms = []))
    (hos : ∀ o ∈ os, o.ofReader = false) :
    Heard refuses (ms ++ [whole]) (trace ++ [.message copy] ++ os ++ [.verdict r]) := by
  obtain ⟨hm,hv,hrec⟩ := quiet_messages hos
  have hreceived : received (trace ++ [.message copy] ++ os ++ [.verdict r]) = received trace := by
    simp only [received_append,hrec]
    simp [received]
  refine ⟨?_,?_,?_,?_⟩
  · have hall : messages (trace ++ [.message copy] ++ os ++ [.verdict r]) =
        messages trace ++ [copy] := by
      simp only [messages_append,hm]
      simp [messages]
    unfold Copies
    rw [hall]
    rcases hcopy with rfl | ⟨rfl,hfailed,rfl⟩
    · rcases h.copies with heq | ⟨hfailed,m,rest,rfl,heq⟩
      · exact .inl (by simp [heq])
      · exact .inr ⟨by simp [hfailed],m,rest ++ [whole],by simp,by simp [heq]⟩
    · refine .inr ⟨by simp [hfailed],whole,[],rfl,?_⟩
      rcases h.copies with heq | ⟨-,m,rest,hbad,-⟩
      · simp [heq]
      · cases hbad
  · simp only [verdicts_append,hv,List.append_nil,List.length_append,h.verdicts]
    rfl
  · intro bs
    rw [hreceived]
    cases hrefuse : refuses ms.length with
    | true =>
      exact (hcompletes.2 hrefuse _).symm ▸ List.prefix_refl _
    | false =>
      rw [hcompletes.1 hrefuse]
      exact List.prefix_append _ _
  · have hquiet : ∀ o ∈ [.message copy] ++ os ++ [.verdict r], ∀ r', o ≠ .readReturned r' := by
      intro o ho r' he
      subst he
      simp only [List.mem_append,List.mem_singleton,reduceCtorEq,or_false,false_or] at ho
      exact absurd (hos _ ho) (by simp [Obs.ofReader])
    rw [List.append_assoc,List.append_assoc]
    refine h.calls.append ?_
    intro a o rest he r' ho
    refine absurd ho (hquiet o ?_ r')
    rw [List.append_assoc,he]
    simp

end Heard

def Naming (c : ClientInfo) : List Bytes → Prop
  | [] => c.hasName = false
  | m :: _ => c.hasName = true ∧ NamedBy c m

/-- A member that has handed over the messages `ms`, and what its reader holds. -/
structure Hearing (refuses : Nat → Bool) (ms : List Bytes) (v : View) : Prop where
  heard : Heard refuses ms v.sock.trace
  naming : Naming v.info ms
  parses : v.info.closed = false → Parses refuses v.info v.sock.trace ms

theorem Naming.congr {c c' : ClientInfo} {ms : List Bytes} (h : Naming c ms)
    (hlen : c'.nameLen = c.nameLen) (hname : c'.name = c.name)
    (hhas : c'.hasName = c.hasName) : Naming c' ms := by
  cases ms with
  | nil => exact hhas.trans h
  | cons m rest =>
    obtain ⟨hnamed,hl,hb⟩ := h
    refine ⟨hhas.trans hnamed,?_,?_⟩
    · rw [hlen,hl]
    · rw [hlen,hname,hb]

theorem Naming.frame {c c' : ClientInfo} {ms : List Bytes} (h : Naming c ms)
    (hframe : InfoFrame c c') : Naming c' ms :=
  h.congr hframe.nameLen hframe.name hframe.hasName

theorem Parses.still {refuses : Nat → Bool} {c d : ClientInfo} {trace l : List Obs}
    {ms : List Bytes} (h : Parses refuses c trace ms) (hreading : d.reading = c.reading)
    (hl : received l = []) : Parses refuses d (trace ++ l) ms := by
  obtain ⟨done,tail,message,hreceived,hframe,hdecodes,hholding⟩ := h
  simp only [ClientInfo.reading,Reading.mk.injEq] at hreading
  obtain ⟨hstate,hheader,hread,hexpected,-,hdone,hpayload,hpread,hmsg,hlen,hcap,-,-,-⟩ := hreading
  refine ⟨done,tail,message,by rw [received_append,hl,List.append_nil,hreceived],?_,hdecodes,
    hholding.keep ?_ (fun _ => List.mem_append_left _)⟩
  · cases hframe with
    | header hs hlt =>
      rw [← hheader,← hread]
      exact .header (hstate.trans hs) (by omega)
    | payload hs hl hd hle hpart =>
      rw [← hheader] at hl hd ⊢
      rw [← hpayload,← hpread]
      exact .payload (hstate.trans hs) (by omega) (hdone.trans hd) (by omega) (by omega)
  · simp only [ClientInfo.block,hmsg,hlen,hcap]

theorem View.answer_trace {v v' : View} {r : Int} (h : v.answer r = .ok v') :
    ∃ more, v'.sock.trace = v.sock.trace ++ more ∧ verdicts more = [r] := by
  rcases answer_cases h with ⟨rfl,rfl⟩ | ⟨c,-,-,rfl⟩
  · exact ⟨[.verdict (-1),.readReturned (-1),.markedClosed],
      by simp [View.stop,View.markClosed,View.note,Sock.note],rfl⟩
  · exact ⟨[.verdict r],rfl,rfl⟩

section Steps
variable {refuses : Nat → Bool} {ms : List Bytes} {v v' v₁ : View}

theorem Hearing.fresh {p serial joined : Nat} (h : v.Fresh p serial joined) :
    Hearing refuses [] v := by
  obtain ⟨old,fd,junk,oracle,rfl⟩ := h
  refine ⟨.nil,rfl,?_⟩
  intro _
  refine ⟨[],_,[],rfl,.header rfl (Nat.succ_pos 5),.nil,.inl ⟨rfl,Nat.zero_le _,Nat.le_refl _,?_⟩⟩
  refine ⟨_,rfl,?_,rfl⟩
  simp only [clientInfoInit,List.length_take,List.length_append,List.length_replicate]
  omega

theorem Hearing.still (h : Hearing refuses ms v) (hstill : View.Still v v') :
    Hearing refuses ms v' := by
  obtain ⟨hheard,hnaming,hparses⟩ := h
  obtain ⟨hreading,hclosed,more,ht,hmore⟩ := hstill
  obtain ⟨-,-,hrec⟩ := quiet_messages hmore
  have hreading' := hreading
  simp only [ClientInfo.reading,Reading.mk.injEq] at hreading'
  obtain ⟨-,-,-,-,-,-,-,-,-,-,-,hname,hlen,hhas⟩ := hreading'
  refine ⟨?_,hnaming.congr hlen hname hhas,?_⟩
  · rw [ht]
    exact hheard.extend (fun o ho => quiet_handing (hmore o ho))
  · intro hopen
    rw [ht]
    refine (hparses ?_).still hreading hrec
    cases hc : v.info.closed with
    | false => rfl
    | true =>
      rw [hclosed hc] at hopen
      cases hopen

theorem Heard.took {k k' : Sock} {bs : Bytes} (h : Heard refuses ms k.trace)
    (htook : Took k k' bs) : Heard refuses ms k'.trace := by
  obtain ⟨more,ht,hm⟩ := htook.trace
  rw [ht]
  exact h.extend (fun o ho => taking_handing (hm o ho))

theorem Paused.returned {c : ClientInfo} {k : Sock} {r : Int} (h : Paused refuses ms c k r)
    (hcopies : Copies k.trace ms) (hnofail : .readFailed ∉ k.trace) :
    Returned refuses k.trace r := by
  have hwait : ∀ {n : Nat} {message tail : Bytes},
      decode refuses (received k.trace) = ⟨ms,n,.waiting message tail⟩ →
      Parses refuses c k.trace ms → r = 0 ∨ (r = -1 ∧ .endOfStream ∈ k.trace) →
      Returned refuses k.trace r := by
    intro n message tail hdecode hparses hr
    refine ⟨?_,?_,?_,fun _ => hr⟩
    · rw [hdecode]
      exact hcopies
    · rw [hdecode]
      exact hparses.prefix
    · rw [hdecode]
      rintro (hbad | hbad) <;> cases hbad
  rcases h with ⟨hr,hparses,hidle⟩ | ⟨-,hfail,-⟩ | ⟨hr,hend,hparses,hidle⟩ | ⟨hr,hlong⟩
  · obtain ⟨n,message,tail,hdecode,-,-⟩ := hparses.waiting hidle
    exact hwait hdecode hparses (.inl hr)
  · exact absurd hfail hnofail
  · obtain ⟨n,message,tail,hdecode,-,-⟩ := hparses.waiting hidle
    exact hwait hdecode hparses (.inr ⟨hr,hend⟩)
  · have hnow := hlong []
    rw [List.append_nil] at hnow
    refine ⟨?_,?_,?_,?_⟩
    · rw [hnow]
      exact hcopies
    · intro more
      exact hnow.trans (hlong more).symm ▸ List.prefix_refl _
    · intro _
      rw [hnow]
      exact ⟨hr,rfl,hlong⟩
    · rw [hnow]
      intro hnot
      exact absurd (.inl rfl) hnot

theorem Completes.returned {trace os : List Obs} {whole : Bytes}
    (h : Completes refuses (received trace) ms whole) (hrefuse : refuses ms.length = true)
    (hos : received os = []) (hcopies : Copies (trace ++ os) (ms ++ [whole])) :
    Returned refuses (trace ++ os) (-1) := by
  have hsame : received (trace ++ os) = received trace := by
    rw [received_append,hos,List.append_nil]
  have hall := h.2 hrefuse
  have hnow := hall []
  rw [List.append_nil] at hnow
  refine ⟨?_,?_,?_,?_⟩
  · rw [hsame,hnow]
    exact hcopies
  · intro more
    rw [hsame]
    exact hnow.trans (hall more).symm ▸ List.prefix_refl _
  · intro _
    rw [hsame,hnow]
    exact ⟨rfl,rfl,hall⟩
  · rw [hsame,hnow]
    intro hnot
    exact absurd (.inr rfl) hnot

theorem Hearing.receive (h : Hearing refuses ms v) (hopen : v.info.closed = false)
    (hread : v.reads .again v') : Hearing refuses ms v' := by
  obtain ⟨hheard,hnaming,hparses⟩ := h
  obtain ⟨⟨bs,htook⟩,hparses'⟩ := readTurn_outcome hread.1 (hparses hopen)
  exact ⟨hheard.took htook,hnaming.frame (readTurn_frame hread.1).1,fun _ => hparses'⟩

theorem Hearing.pause {r : Int} (h : Hearing refuses ms v) (hopen : v.info.closed = false)
    (hread : v.reads (.ret r) v') : Hearing refuses ms (v'.stop r) := by
  obtain ⟨hheard,hnaming,hparses⟩ := h
  obtain ⟨⟨bs,htook⟩,hpaused⟩ := readTurn_outcome hread.1 (hparses hopen)
  have hheard' := hheard.took htook
  have hcall := hheard'.returned (hpaused.returned hheard'.copies)
  have hnaming' := hnaming.frame (readTurn_frame hread.1).1
  unfold View.stop
  by_cases hr : r < 0
  · rw [if_pos hr]
    refine ⟨?_,hnaming'.congr rfl rfl rfl,fun hc => by cases hc⟩
    exact hcall.extend (l := [.markedClosed]) (by simp [Obs.handing])
  · rw [if_neg hr]
    refine ⟨hcall,hnaming',?_⟩
    intro _
    rcases hpaused with ⟨-,hp,-⟩ | ⟨hneg,-⟩ | ⟨hneg,-⟩ | ⟨hneg,-⟩
    · exact hp.still rfl rfl
    · omega
    · omega
    · omega

/-- The end of a message: the verdict, and an empty block or a client that is
closed, from which no message is to come. -/
theorem Hearing.answer {trace os : List Obs} {whole : Bytes} {copy : Option Bytes} {r : Int}
    {stored : Bytes} (hheard : Heard refuses ms trace)
    (hcompletes : Completes refuses (received trace) ms whole)
    (hcopy : copy = some whole ∨ (copy = none ∧ .blockFailed ∈ trace ∧ ms = []))
    (hos : ∀ o ∈ os, o.ofReader = false) (ht : v.sock.trace = trace ++ [.message copy] ++ os)
    (hstored : Stored v.info stored) (hnaming : Naming v.info (ms ++ [whole]))
    (hagree : Foretells refuses v'.sock.trace) (hanswer : v.answer r = .ok v') :
    Hearing refuses (ms ++ [whole]) v' ∧ (r = -1 → Final refuses (ms ++ [whole]) v'.sock.trace) := by
  have hheard' := hheard.message (r := r) hcompletes hcopy hos
  obtain ⟨-,hver,hrec⟩ := quiet_messages hos
  have hverdict : refuses ms.length = decide (r = -1) := by
    obtain ⟨more,htrace,hlast⟩ := View.answer_trace hanswer
    refine hagree ms.length r ?_
    have hone : verdicts [.message copy] = [] := rfl
    rw [htrace,ht,← hheard.verdicts]
    simp only [verdicts_append,hone,hver,hlast,List.append_nil]
    simp
  have hnone : received ([.message copy] ++ os ++ [.verdict r]) = [] := by
    simp only [received_append,hrec]
    rfl
  rcases View.answer_cases hanswer with ⟨rfl,rfl⟩ | ⟨c,hr,hfinish,rfl⟩
  · have hrefuse : refuses ms.length = true := by simpa using hverdict
    have hreturn := hcompletes.returned hrefuse hnone (by
      have hc := hheard'.copies
      simpa using hc)
    have hcall := hheard'.returned (fun _ => by simpa using hreturn)
    have hlast := hcall.extend (l := [.markedClosed]) (by simp [Obs.handing])
    refine ⟨⟨?_,hnaming.congr rfl rfl rfl,fun hc => by cases hc⟩,fun _ more => ?_⟩
    · simpa [View.stop,View.markClosed,View.note,Sock.note,ht] using hlast
    · have hstop : (View.stop (-1) (v.note (.verdict (-1)))).sock.trace =
          trace ++ ([.message copy] ++ os ++ [.verdict (-1)]) ++
            [.readReturned (-1),.markedClosed] := by
        simp [View.stop,View.markClosed,View.note,Sock.note,ht]
      have hlate : received [.readReturned (-1),.markedClosed] = [] := rfl
      rw [hstop,received_append,received_append,hnone,hlate,List.append_nil,List.append_nil,
        hcompletes.2 hrefuse]
  · have haccept : refuses ms.length = false := by simpa [hr] using hverdict
    obtain ⟨hempty,hstate,hzero,-⟩ := hstored.finish hfinish
    refine ⟨⟨?_,hnaming.frame (finishMessage_frame hfinish),?_⟩,fun hneg => absurd hneg hr⟩
    · simpa [View.note,ht] using hheard'
    · intro _
      have hlt : c.headerBytesRead < headerSize := by
        rw [hzero]
        exact Nat.succ_pos 5
      refine ⟨received trace,_,[],?_,.header hstate hlt,hcompletes.1 haccept,.inl hempty⟩
      simp only [View.note,Sock.note,ht,hzero,List.take_zero,List.append_nil]
      simp only [received_append,hrec]
      simp [received]

theorem Hearing.name {copy : Option Bytes} {c : ClientInfo} (h : Hearing refuses ms v)
    (hopen : v.info.closed = false) (hread : v.reads (.deliver copy) v₁)
    (hname : v₁.info.hasName = false) (hstore : storeClientName v₁.info = .ok c)
    (hagree : Foretells refuses v'.sock.trace)
    (hanswer : View.answer 0 { v₁ with info := { c with hasName := true } } = .ok v') :
    ∃ whole, Hearing refuses (ms ++ [whole]) v' := by
  obtain ⟨hheard,hnaming,hparses⟩ := h
  obtain ⟨k₁,bs,whole,htook,hk,hcompletes,hcopy⟩ := readTurn_outcome hread.1 (hparses hopen)
  have hnaming₁ := hnaming.frame (readTurn_frame hread.1).1
  cases ms with
  | cons m rest =>
    have hbad := hnaming₁.1
    rw [hname] at hbad
    cases hbad
  | nil =>
    have hstored : Stored v₁.info whole := by
      rcases hcopy with ⟨-,hgood⟩ | ⟨-,-,hgood | ⟨hlost,-⟩⟩
      · exact hgood
      · exact hgood
      · exact absurd hstore hlost.name
    obtain ⟨hnamed,hkept⟩ := hstored.name hstore
    have hhanded : copy.map List.dropLast = some whole ∨
        (copy.map List.dropLast = none ∧ .blockFailed ∈ k₁.trace ∧ ([] : List Bytes) = []) := by
      rcases hcopy with ⟨rfl,-⟩ | ⟨rfl,hfailed,-⟩
      · exact .inl (by simp)
      · exact .inr ⟨rfl,hfailed,rfl⟩
    have ht : v₁.sock.trace = k₁.trace ++ [.message (copy.map List.dropLast)] ++ [] := by
      rw [hk]
      simp
    have hend := Hearing.answer (v := { v₁ with info := { c with hasName := true } })
      (hheard.took htook) hcompletes hhanded (by simp) ht (hkept.congr rfl)
      ⟨rfl,hnamed.len,hnamed.bytes⟩ hagree hanswer
    exact ⟨whole,hend.1⟩

theorem Hearing.message {v₂ : View} {copy : Bytes} {r : Int} (h : Hearing refuses ms v)
    (hopen : v.info.closed = false) (hread : v.reads (.deliver (some copy)) v₁)
    (hname : v₁.info.hasName = true) (hstill : View.Still v₁ v₂)
    (hagree : Foretells refuses v'.sock.trace) (hanswer : v₂.answer r = .ok v') :
    ∃ whole, Hearing refuses (ms ++ [whole]) v' ∧
      (r = -1 → Final refuses (ms ++ [whole]) v'.sock.trace) := by
  obtain ⟨hheard,hnaming,hparses⟩ := h
  obtain ⟨k₁,bs,whole,htook,hk,hcompletes,hcopy⟩ := readTurn_outcome hread.1 (hparses hopen)
  obtain ⟨hreading,-,more,ht,hmore⟩ := hstill
  have hnaming₁ := hnaming.frame (readTurn_frame hread.1).1
  simp only [ClientInfo.reading,Reading.mk.injEq] at hreading
  obtain ⟨-,-,-,-,-,-,-,-,hmsg,hlen,hcap,hn,hnl,hhas⟩ := hreading
  rcases hcopy with ⟨hsome,hstored⟩ | ⟨hnone,-⟩
  · simp only [Option.some.injEq] at hsome
    subst hsome
    cases ms with
    | nil =>
      have hbad : v₁.info.hasName = false := hnaming₁
      rw [hname] at hbad
      cases hbad
    | cons m rest =>
      refine ⟨whole,Hearing.answer (hheard.took htook) hcompletes (.inl rfl) hmore ?_
        (hstored.congr (by simp only [ClientInfo.block,hmsg,hlen,hcap])) ?_ hagree hanswer⟩
      · rw [ht,hk]
        simp
      · exact (hnaming₁.congr hnl hn hhas : Naming v₂.info (m :: rest))
  · cases hnone

end Steps

theorem View.stop_trace (v : View) (r : Int) :
    ∃ more, (v.stop r).sock.trace = v.sock.trace ++ more := by
  unfold View.stop
  simp only
  split
  · exact ⟨[.readReturned r,.markedClosed],by simp [View.markClosed,View.note,Sock.note]⟩
  · exact ⟨[.readReturned r],rfl⟩

theorem View.Hears.trace {v v' : View} (h : View.Hears v v') :
    ∃ more, v'.sock.trace = v.sock.trace ++ more := by
  cases h with
  | still h =>
    obtain ⟨more,ht,-⟩ := h.trace
    exact ⟨more,ht⟩
  | receive _ hread =>
    obtain ⟨more,ht,-⟩ := readTurn_log hread.1
    exact ⟨more,ht⟩
  | @pause v₁ r _ hread =>
    obtain ⟨xs,hx,-⟩ := readTurn_log hread.1
    obtain ⟨ys,hy⟩ := v₁.stop_trace r
    exact ⟨xs ++ ys,by rw [hy,hx,List.append_assoc]⟩
  | name _ hread _ _ hanswer =>
    obtain ⟨xs,hx,-⟩ := readTurn_log hread.1
    obtain ⟨ys,hy,-⟩ := View.answer_trace hanswer
    exact ⟨xs ++ ys,by rw [hy,← List.append_assoc,← hx]⟩
  | message _ hread _ hstill _ hanswer =>
    obtain ⟨xs,hx,-⟩ := readTurn_log hread.1
    obtain ⟨ys,hy,-⟩ := hstill.trace
    obtain ⟨zs,hz,-⟩ := View.answer_trace hanswer
    exact ⟨xs ++ ys ++ zs,by rw [hz,hy,hx]; simp⟩

theorem Foretells.of_append {refuses : Nat → Bool} {trace l : List Obs}
    (h : Foretells refuses (trace ++ l)) : Foretells refuses trace := by
  intro i r hi
  refine h i r ?_
  have hlt : i < (verdicts trace).length := List.getElem?_eq_some_iff.mp hi |>.1
  rw [verdicts_append,List.getElem?_append_left hlt,hi]

/-- A transition of the room keeps a member's reader at the place of the decoder. -/
theorem Hearing.hears {refuses : Nat → Bool} {ms : List Bytes} {v v' : View}
    (h : Hearing refuses ms v) (hstep : View.Hears v v')
    (hagree : Foretells refuses v'.sock.trace) : ∃ more, Hearing refuses (ms ++ more) v' := by
  cases hstep with
  | still hstill => exact ⟨[],by simpa using h.still hstill⟩
  | receive hopen hread => exact ⟨[],by simpa using h.receive hopen hread⟩
  | pause hopen hread => exact ⟨[],by simpa using h.pause hopen hread⟩
  | name hopen hread hname hstore hanswer =>
    obtain ⟨whole,hnext⟩ := h.name hopen hread hname hstore hagree hanswer
    exact ⟨[whole],hnext⟩
  | message hopen hread hname hstill hclosed hanswer =>
    obtain ⟨whole,hnext,-⟩ := h.message hopen hread hname hstill hagree hanswer
    exact ⟨[whole],hnext⟩

def Room.Heard (R : Room) : Prop :=
  ∀ p ∈ R.members, ∀ refuses, Foretells refuses (R.view p).sock.trace →
    ∃ ms, Hearing refuses ms (R.view p)

theorem Act.heard {R R' : Room} (h : Act R R') (hheard : R.Heard) : R'.Heard := by
  intro q hq refuses hagree
  rcases h.hears hq with ⟨hmem,hstep⟩ | ⟨serial,joined,hfresh⟩
  · obtain ⟨more,ht⟩ := hstep.trace
    obtain ⟨ms,hms⟩ := hheard q hmem refuses (Foretells.of_append (l := more) (ht ▸ hagree))
    obtain ⟨extra,hnext⟩ := hms.hears hstep hagree
    exact ⟨ms ++ extra,hnext⟩
  · exact ⟨[],.fresh hfresh⟩

theorem reach_heard {R R' : Room} (h : ReflTransGen Act R R') (hheard : R.Heard) :
    R'.Heard := by
  induction h with
  | refl => exact hheard
  | tail _ hact ih => exact hact.heard ih

end ChatServer
