import ChatServer.FrameIntegrity
import ChatServer.Listening

/-! What the server sends and what the client's listener makes of it: frames it
accepts, and frames it takes for the notice of a shutdown. -/
set_option autoImplicit false

namespace ChatServer
open ByteString Memory Execution Relation Outbox

/-- The payload begins like no text that the listener looks for. -/
def Ordinary (msg : Bytes) : Prop := ∃ b, msg.head? = some b ∧ b ≠ 0 ∧ b ≠ 83

theorem Ordinary.ne_nil {msg : Bytes} (h : Ordinary msg) : msg ≠ [] := by
  obtain ⟨b,hb,-⟩ := h
  rintro rfl
  cases hb

theorem Ordinary.unlike {msg : Bytes} (h : Ordinary msg) : cstr (msg ++ [0]) ≠ shutdownText := by
  obtain ⟨b,hb,hzero,hother⟩ := h
  cases msg with
  | nil => cases hb
  | cons b' rest =>
    cases hb
    rw [List.cons_append,cstr_cons hzero]
    intro he
    exact hother (List.cons.inj (he.trans (show shutdownText = 83 :: ascii "ERVER SHUTDOWN"
      by decide))).1

theorem cstr_ordinary {b : UInt8} {bs : Bytes} (hzero : b ≠ 0) (hother : b ≠ 83) :
    Ordinary (cstr (b :: bs)) := by
  rw [cstr_cons hzero]
  exact ⟨b,rfl,hzero,hother⟩

theorem ChatText.ordinary {msg : Bytes} (h : ChatText msg) : Ordinary msg := by
  obtain ⟨t,name,text,rfl⟩ := h
  simp only [chatText,strftime,List.append_assoc,List.cons_append,List.nil_append]
  exact cstr_ordinary (by decide) (by decide)

theorem WhisperText.ordinary {msg : Bytes} (h : WhisperText msg) : Ordinary msg := by
  obtain ⟨t,name,text,rfl⟩ := h
  simp only [whisperText,strftime,List.append_assoc,List.cons_append,List.nil_append]
  exact cstr_ordinary (by decide) (by decide)

/-- What a frame that was issued to a client carries: a text that the server made
and that fits a header, a name that was listed, or the notice of a shutdown. -/
def Carries (trace : List Obs) (shutdown : Bool) (msg : Bytes) : Prop :=
  (Ordinary msg ∧ (msg.length < 2^32 ∨ ∃ d ∈ directWrites trace, d.payload = msg)) ∨
    (∃ names, .listing names ∈ trace ∧ msg ∈ names ∧ msg.length ≤ nameMax) ∨
    (shutdown = true ∧ msg = shutdownMessage)

theorem Carries.short {trace : List Obs} {shutdown : Bool} {msg : Bytes}
    (h : Carries trace shutdown msg) (hshort : ∀ d ∈ directWrites trace, d.payload.length < 2^32) :
    msg.length < 2^32 := by
  rcases h with ⟨-,hlen | ⟨d,hd,rfl⟩⟩ | ⟨names,-,-,hlen⟩ | ⟨-,rfl⟩
  · exact hlen
  · exact hshort d hd
  · simp only [nameMax] at hlen
    omega
  · decide

theorem Carries.ne_nil {trace : List Obs} {shutdown : Bool} {msg : Bytes}
    (h : Carries trace shutdown msg) (hnames : ∀ names ∈ listings trace, [] ∉ names) :
    msg ≠ [] := by
  rcases h with ⟨hord,-⟩ | ⟨names,hlist,hmem,-⟩ | ⟨-,rfl⟩
  · exact hord.ne_nil
  · rintro rfl
    exact hnames names (mem_listings.mpr hlist) hmem
  · decide

def Outbox.Carrying (b : Outbox) : Prop :=
  ∀ f ∈ issued b.trace, ∃ t msg, f = frame t msg ∧ Carries b.trace b.shutdown msg

theorem Carries.mono {trace l : List Obs} {shutdown shutdown' : Bool} {msg : Bytes}
    (h : Carries trace shutdown msg) (hs : shutdown = true → shutdown' = true) :
    Carries (trace ++ l) shutdown' msg := by
  rcases h with ⟨hord,hlen | ⟨d,hd,hmsg⟩⟩ | ⟨names,hnames,hmem,hlen⟩ | ⟨hshut,hmsg⟩
  · exact .inl ⟨hord,.inl hlen⟩
  · refine .inl ⟨hord,.inr ⟨d,?_,hmsg⟩⟩
    rw [directWrites_append]
    exact List.mem_append_left _ hd
  · exact .inr (.inl ⟨names,List.mem_append_left _ hnames,hmem,hlen⟩)
  · exact .inr (.inr ⟨hs hshut,hmsg⟩)

namespace Outbox.Carrying
variable {p : Nat} {b b' : Outbox}

theorem step (h : b.Carrying) {l : List Obs} (ht : b'.trace = b.trace ++ l)
    (hs : b.shutdown = true → b'.shutdown = true)
    (hnew : ∀ f ∈ issued l, ∃ t msg, f = frame t msg ∧ Carries b'.trace b'.shutdown msg) :
    b'.Carrying := by
  intro f hf
  rw [ht,issued_append] at hf
  rcases List.mem_append.mp hf with hold | hlate
  · obtain ⟨t,msg,hfr,hcarries⟩ := h f hold
    rw [ht]
    exact ⟨t,msg,hfr,hcarries.mono hs⟩
  · exact hnew f hlate

theorem spoken {c : Broadcast} (h : b.Says c) (hlen : c.msg.length < 2^32) {trace : List Obs} :
    Carries trace b.shutdown c.msg := by
  cases hc : c.sender with
  | none => exact .inr (.inr (h.2 hc))
  | some q => exact .inl ⟨(h.1 (by simp [hc])).ordinary,.inl hlen⟩

theorem told {d : DirectWrite} (h : b.Tells d) {l : List Obs} (hd : .direct d ∈ l) :
    Carries (b.trace ++ l) b.shutdown d.payload := by
  have hmem : d ∈ directWrites (b.trace ++ l) :=
    mem_directWrites.mpr (List.mem_append_right _ hd)
  rcases h with ⟨-,hwhisper⟩ | ⟨-,hlist⟩
  · exact .inl ⟨hwhisper.ordinary,.inr ⟨d,hmem,rfl⟩⟩
  · rcases hlist with hmsg | hmsg | ⟨names,hnames,hname,hlen⟩
    · exact .inl ⟨⟨32,by rw [hmsg]; rfl,by decide,by decide⟩,.inr ⟨d,hmem,rfl⟩⟩
    · exact .inl ⟨⟨10,by rw [hmsg]; rfl,by decide,by decide⟩,.inr ⟨d,hmem,rfl⟩⟩
    · exact .inr (.inl ⟨names,List.mem_append_left _ hnames,hname,hlen⟩)

theorem beat (h : b.Carrying) (hbeat : Beat p b b') : b'.Carrying := by
  cases hbeat with
  | @inert o ho =>
    refine h.step rfl id ?_
    rw [(Obs.inert_silent ho).2.2.2.2.1]
    simp
  | close => exact h.step rfl id (by simp [issued])
  | shutdown => exact h.step (l := []) (by simp) (fun _ => rfl) (by simp [issued])
  | listing names => exact h.step rfl id (by simp [issued])
  | part => exact h.step rfl id (by simp [issued])
  | whole => exact h.step rfl id (by simp [issued])
  | skip => exact h.step rfl id (by simp [issued])
  | @take c allocates hsaid htake =>
    have hfits := (Outbox.offer_taken.mp htake).2.2.2
    refine h.step rfl id (fun f hf => ?_)
    have hfr : f = ChatServer.frame msgTypeNormal c.msg := by simpa [issued] using hf
    have hlen : c.msg.length < 2^32 := by
      simp only [msgSizeLimit] at hfits
      omega
    exact ⟨_,_,hfr,spoken hsaid hlen⟩
  | @direct d htells =>
    refine h.step rfl id (fun f hf => ?_)
    have hfr : f = ChatServer.frame d.msgType d.payload := by
      simp only [issued_append,List.mem_append] at hf
      rcases hf with (hf | hf) | hf
      · simpa [issued] using hf
      · exact absurd hf (by rw [issued_sentObs]; simp)
      · exact absurd hf (by rw [issued_sentObs]; simp)
    exact ⟨_,_,hfr,told htells (by simp)⟩

end Outbox.Carrying

theorem Seat.Reachable.carrying {p : Nat} {s : Seat} (h : Seat.Reachable p s) :
    s.outbox.Carrying := by
  refine h.outbox (fun b hb => ?_) (fun _ _ hcarrying hbeat => hcarrying.beat hbeat)
  obtain ⟨htrace,-⟩ := hb
  intro f hf
  rw [htrace] at hf
  cases hf

/-- Every frame that was issued to a listed client, in any state of a run. -/
theorem listed_issued {acts : List Action} {s : Sys} {p : Nat} {c : ClientInfo} {k : Sock}
    (hrun : run step Sys.init acts = .ok s) (hphase : s.phase ≠ .done) (h : Listed s p c k)
    {f : Bytes} (hf : f ∈ issued k.trace) :
    ∃ t msg, f = frame t msg ∧ Carries k.trace s.world.serverShutdown msg := by
  obtain ⟨seat,hseats⟩ := listed_seats hrun hphase h
  have hcarrying := hseats.reachable.carrying
  have htrace : seat.outbox.trace = k.trace := by
    rw [hseats.sock]
    rfl
  have hshut : seat.outbox.shutdown = s.world.serverShutdown := hseats.shutdown
  have hsent := hcarrying f (by rw [htrace]; exact hf)
  rwa [htrace,hshut] at hsent

/-- What becomes of a listener for which just these frames have arrived: it waits
for the next header or has left, and has left only for a notice or because a
write failed. -/
structure Accepted (fs : List Bytes) (l l' : Listener) : Prop where
  ends : ∃ new, l'.printed = l.printed ++ new ∧ (l'.phase = .inHeader [] ∨
    (l'.phase = .left ∧ ((∃ f ∈ fs, Notice f) ∨ couldntWrite ∈ new)))
  stdout : takesEach l.writes (spokenPayloads fs) = true →
    l'.stdout = l.stdout ++ (spokenPayloads fs).flatten
  waits : takesEach l.writes (spokenPayloads fs) = true → (∀ f ∈ fs, ¬ Notice f) →
    l'.phase = .inHeader [] ∧ l'.clientShutdown = l.clientShutdown
  leaves : takesEach l.writes (spokenPayloads fs) = true → (∃ f ∈ fs, Notice f) →
    l'.phase = .left ∧ l'.clientShutdown = true

theorem Quits.accepted {fs : List Bytes} {l l' : Listener} (h : Quits fs l l')
    (hblocks : none ∉ l.blocks) (hpayloads : ∀ f ∈ fs, payloadOf f ≠ []) : Accepted fs l l' where
  ends := by
    obtain ⟨new,hnew,hcause⟩ := h.cause
    refine ⟨new,hnew,.inr ⟨h.phase,?_⟩⟩
    rcases hcause with hnotice | ⟨-,hwrite | ⟨-,hnone | ⟨f,hf,hempty⟩⟩⟩
    · exact .inl hnotice
    · exact .inr hwrite
    · exact absurd hnone hblocks
    · exact absurd hempty (hpayloads f hf)
  stdout := fun hall => (h.whole hall hblocks hpayloads).2.1
  waits := by
    intro hall hnone
    obtain ⟨⟨f,hf,hnotice⟩,-⟩ := h.whole hall hblocks hpayloads
    exact absurd hnotice (hnone f hf)
  leaves := fun hall _ => ⟨h.phase,(h.whole hall hblocks hpayloads).2.2⟩

theorem Through.accepted {fs : List Bytes} {l l₁ : Listener} (h : Through fs l l₁) :
    Accepted fs l { l₁ with phase := .inHeader [] } where
  ends := ⟨[],by rw [h.printed,List.append_nil],.inl rfl⟩
  stdout := by
    intro hall
    rw [h.spoken_all] at hall ⊢
    exact (h.stdout [] (by rw [List.append_nil]; exact hall)).1
  waits := fun _ _ => ⟨rfl,h.shutdown⟩
  leaves := fun _ ⟨f,hf,hnotice⟩ => absurd hnotice (h.unlike f hf)

def Listener.arriving (fs : List Bytes) : Listener :=
  .start [.data fs.flatten] (List.replicate fs.length (.accepts fs.flatten.length))

/-- When no listing showed an empty name, the listener of a client accepts every
sequence of frames that were issued to the client, in whatever pieces they come. -/
theorem frames_accepted {acts : List Action} {s : Sys} {p : Nat} {c : ClientInfo} {k : Sock}
    (hrun : run step Sys.init acts = .ok s) (hphase : s.phase ≠ .done) (h : Listed s p c k)
    (hnames : ∀ names ∈ listings k.trace, [] ∉ names)
    (hshort : ∀ d ∈ directWrites k.trace, d.payload.length < 2^32) {l : Listener}
    {fs : List Bytes} (hfs : ∀ f ∈ fs, f ∈ issued k.trace) (hrunning : l.phase = .running)
    (hopen : StaysOpen l.input) (harrived : arrived l.input = fs.flatten)
    (hblocks : none ∉ l.blocks) : ∃ l', clientListen l = .ok l' ∧ Accepted fs l l' := by
  have hwhole : ∀ f ∈ fs, ∃ t msg, f = frame t msg ∧ msg.length < 2^32 := by
    intro f hf
    obtain ⟨t,msg,hframe,hcarries⟩ := listed_issued hrun hphase h (hfs f hf)
    exact ⟨t,msg,hframe,hcarries.short hshort⟩
  have hpayloads : ∀ f ∈ fs, payloadOf f ≠ [] := by
    intro f hf
    obtain ⟨t,msg,rfl,hcarries⟩ := listed_issued hrun hphase h (hfs f hf)
    rw [payloadOf_frame]
    exact hcarries.ne_nil hnames
  have hinput : l.input = l.input ++ [] := (List.append_nil _).symm
  have harrived : arrived l.input = fs.flatten ++ [] := by rw [harrived,List.append_nil]
  obtain ⟨n,hfuel⟩ := listen_fuel [] hopen harrived hwhole
  rw [List.append_nil] at hfuel
  unfold clientListen
  rw [hfuel]
  rcases listen_frames (n+[].length+1) hrunning hinput hopen harrived hwhole with
    ⟨l',hloop,hquits⟩ | ⟨l₁,rest,hloop,hthrough,hinput₁,hopen₁,harr₁⟩
  · exact ⟨l',hloop,hquits.accepted hblocks hpayloads⟩
  · rw [List.append_nil] at hinput₁
    rw [← hinput₁] at hopen₁ harr₁
    have hturn := listenTurn_waits hopen₁ (by rw [harr₁]; decide)
    rw [harr₁] at hturn
    refine ⟨_,hloop.trans ?_,hthrough.accepted⟩
    simp only [clientListenLoop,hturn,ok_bind]
    rfl

theorem frames_accepted_asksList : ∃ s c k,
    run step Sys.init (Action.asksList (List.replicate 4 (.accepts 100))) = .ok s ∧
      Listed s 1 c k ∧ issued k.trace ≠ [] ∧
      ∃ l', clientListen (.arriving (issued k.trace)) = .ok l' ∧
        Accepted (issued k.trace) (.arriving (issued k.trace)) l' := by
  obtain ⟨s,hrun,c,k,hphase,hlisted,htest⟩ := reaches_listed
    (show reachesListed (Action.asksList (List.replicate 4 (.accepts 100))) 1 (fun _ _ k =>
      decide (issued k.trace ≠ [] ∧ (∀ names ∈ listings k.trace, [] ∉ names) ∧
        ∀ d ∈ directWrites k.trace, d.payload.length < 2^32)) = true by decide +kernel)
  obtain ⟨hissued,hnames,hshort⟩ := of_decide_eq_true htest
  have hstays : StaysOpen (Listener.arriving (issued k.trace)).input :=
    ⟨by simp [Listener.arriving,Listener.start],by simp [Listener.arriving,Listener.start]⟩
  exact ⟨s,c,k,hrun,hlisted,hissued,frames_accepted hrun hphase hlisted hnames hshort
    (fun _ hf => hf) rfl hstays (List.append_nil _) (by simp [Listener.arriving,Listener.start])⟩

def Action.asksEarly (sends : List SendRes) : List Action :=
  connects 1 5 { Oracle.quiet with sends := sends } ++ connects 2 6 .quiet ++
    hears 5 (frame msgTypeNormal (ascii "ann")) ++ hears 5 (frame msgTypeNormal (ascii "/list"))

/-- The frame of the empty name makes the listener leave its loop. -/
theorem empty_name_stops : ∃ s c k,
    run step Sys.init (Action.asksEarly (List.replicate 8 (.accepts 100))) = .ok s ∧
      s.phase ≠ .done ∧ Listed s 1 c k ∧ issued k.trace ≠ [] ∧
      ∃ l', clientListen (.arriving (issued k.trace)) = .ok l' ∧
        l'.phase = .left ∧ l'.stdout = ascii "ann <-- YOU\n" ∧ couldntRead ∈ l'.printed ∧
        ¬ Accepted (issued k.trace) (.arriving (issued k.trace)) l' := by
  obtain ⟨s,hrun,c,k,hphase,hlisted,htest⟩ := reaches_listed
    (show reachesListed (Action.asksEarly (List.replicate 8 (.accepts 100))) 1 (fun _ _ k =>
      decide (issued k.trace ≠ [] ∧ (∀ f ∈ issued k.trace, ¬ Notice f) ∧
        takesEach (Listener.arriving (issued k.trace)).writes
          (spokenPayloads (issued k.trace)) = true) &&
      listens (.arriving (issued k.trace)) (fun l' => decide (l'.phase = .left ∧
        l'.stdout = ascii "ann <-- YOU\n" ∧ couldntRead ∈ l'.printed))) = true by decide +kernel)
  simp only [Bool.and_eq_true,decide_eq_true_eq] at htest
  obtain ⟨⟨hissued,hnone,htakes⟩,htest⟩ := htest
  obtain ⟨l',hl',htest⟩ := listens_ok htest
  obtain ⟨hleft,hstdout,hprinted⟩ := of_decide_eq_true htest
  refine ⟨s,c,k,hrun,hphase,hlisted,hissued,l',hl',hleft,hstdout,hprinted,fun hacc => ?_⟩
  rw [(hacc.waits htakes hnone).1] at hleft
  cases hleft

theorem Carries.unlike {trace : List Obs} {msg : Bytes} (h : Carries trace false msg)
    (hnames : ∀ names ∈ listings trace, ∀ name ∈ names, cstr (name ++ [0]) ≠ shutdownText) :
    cstr (msg ++ [0]) ≠ shutdownText := by
  rcases h with ⟨hord,-⟩ | ⟨names,hlist,hmem,-⟩ | ⟨hfalse,-⟩
  · exact hord.unlike
  · exact hnames names (mem_listings.mpr hlist) msg hmem
  · cases hfalse

/-- The listener has taken nothing for a notice, and has set `client_shutdown` for a
failed write at most. -/
def Unforged (l l' : Listener) : Prop := ∃ new, l'.printed = l.printed ++ new ∧
  shuttingDown ∉ new ∧ (l'.clientShutdown = l.clientShutdown ∨ couldntWrite ∈ new)

theorem Through.unforged {fs : List Bytes} {l l₁ l' : Listener} (h : Through fs l l₁)
    (h' : Unforged l₁ l') : Unforged l l' := by
  obtain ⟨new,hnew,hfree,hshut⟩ := h'
  exact ⟨new,h.printed ▸ hnew,hfree,h.shutdown ▸ hshut⟩

theorem Halts.unforged {l l' : Listener} {reads : Bool} (h : Halts reads l l') :
    Unforged l l' := by
  obtain ⟨new,hnew,hfree,-⟩ := h.printed
  exact ⟨new,hnew,hfree,.inl h.shutdown⟩

theorem Quits.unforged {fs : List Bytes} {l l' : Listener} (h : Quits fs l l')
    (hunlike : ∀ f ∈ fs, ¬ Notice f) : Unforged l l' := by
  obtain ⟨new,hnew,⟨f,hf,hnotice⟩ | ⟨hfree,hwrite | ⟨hshut,-⟩⟩⟩ := h.cause
  · exact absurd hnotice (hunlike f hf)
  · exact ⟨new,hnew,hfree,.inr hwrite⟩
  · exact ⟨new,hnew,hfree,.inl hshut⟩

/-- A payload that begins with another letter is not completed to the notice by
what the memory holds. -/
theorem payloadBlock_unlike {msg part junk : Bytes} (hne : part ≠ []) (hpart : part <+: msg)
    (hother : msg.head? ≠ some 83) : cstr (payloadBlock part junk msg.length) ≠ shutdownText := by
  have htake : (payloadBlock part junk msg.length).take part.length = part :=
    payloadBlock_take hpart.length_le
  obtain ⟨rest,rfl⟩ := hpart
  cases part with
  | nil => exact absurd rfl hne
  | cons b part =>
    cases hblock : payloadBlock (b :: part) junk (b :: part ++ rest).length with
    | nil =>
      rw [hblock] at htake
      cases htake
    | cons b' more =>
      rw [hblock,List.length_cons,List.take_succ_cons] at htake
      obtain rfl : b' = b := (List.cons.inj htake).1
      by_cases hzero : b' = 0
      · rw [hzero,← List.nil_append (0 :: more),cstr_append_zero]
        decide
      · rw [cstr_cons hzero]
        intro he
        have hletter := (List.cons.inj (he.trans (show shutdownText = 83 :: ascii "ERVER SHUTDOWN"
          by decide))).1
        exact hother (by rw [hletter]; rfl)

theorem listen_unforged {l : Listener} {pieces more : List RecvRes} {fs : List Bytes} {t : UInt8}
    {msg part : Bytes} (hphase : l.phase = .running) (hinput : l.input = pieces ++ more)
    (hopen : StaysOpen pieces) (hends : BreaksOff more)
    (harrived : arrived pieces = fs.flatten ++ part)
    (hfs : ∀ f ∈ fs, ∃ t msg, f = frame t msg ∧ msg.length < 2^32)
    (hunlike : ∀ f ∈ fs, ¬ Notice f) (hlen : msg.length < 2^32) (hpart : part <+: frame t msg)
    (hproper : part ≠ frame t msg)
    (hcut : more.head? = some .ended → headerSize < part.length → msg.head? ≠ some 83) :
    ∃ l', clientListen l = .ok l' ∧ Unforged l l' := by
  obtain ⟨n,hfuel⟩ := listen_fuel more hopen harrived hfs
  unfold clientListen
  rw [hinput,hfuel]
  rcases listen_frames (n+part.length+1) hphase hinput hopen harrived hfs with
    ⟨l',hrun,hquits⟩ | ⟨l₁,rest,hrun,hthrough,hinput₁,hopen₁,harr₁⟩
  · exact ⟨l',hrun,hquits.unforged hunlike⟩
  · rw [hrun]
    rcases part_cases hpart hproper with hshort | ⟨tail,rfl,htail,hlt⟩
    · obtain ⟨l',hturn,hhalts⟩ := listenTurn_inHeader hinput₁ hopen₁ harr₁ hends hshort
      exact ⟨l',listenLoop_halts _ hturn hhalts,hthrough.unforged hhalts.unforged⟩
    · have hpartLen : ((frame t msg).take headerSize ++ tail).length = headerSize+tail.length := by
        rw [List.length_append,List.length_take,frame_length]
        omega
      obtain ⟨l₂,hturn,hafter⟩ :=
        listenTurn_inPayload hthrough.phase hinput₁ hopen₁ harr₁ hends hlen hlt
      rcases hafter with ⟨reads,hhalts,-⟩ | ⟨hended,hne,l₃,junk,hl₂,hphase₃,hinput₃,hwrites₃,hout₃,
        hshut₃,hprinted₃⟩
      · exact ⟨l₂,listenLoop_halts _ hturn hhalts,hthrough.unforged hhalts.unforged⟩
      · have hpos := List.length_pos_iff.mpr hne
        obtain ⟨m,hm⟩ : ∃ m, n+((frame t msg).take headerSize ++ tail).length+1 = m+2 :=
          ⟨n+headerSize+tail.length-1,by rw [hpartLen]; omega⟩
        obtain ⟨l',new,hrun',hnew,⟨htext,-⟩ | ⟨-,hfree,hshut,-⟩⟩ := listen_partial m hturn hl₂ hne
          (payloadBlock_take (Nat.le_of_lt hlt)) hphase₃ hinput₃ hended hwrites₃ hout₃ hshut₃
          hprinted₃
        · exact absurd htext (payloadBlock_unlike hne htail (hcut hended (by omega)))
        · rw [hm]
          exact ⟨l',hrun',hthrough.unforged ⟨new,hnew,hfree,hshut⟩⟩

/-- The bytes, which are whole frames and a part of one, end inside a payload that begins
with an S. -/
def EndsInS (sent : List Bytes) (bs : Bytes) : Prop :=
  ∃ (fs : List Bytes) (t : UInt8) (msg part : Bytes), (∀ f ∈ fs, f ∈ sent) ∧
    frame t msg ∈ sent ∧ bs = fs.flatten ++ part ∧
    part <+: frame t msg ∧ part ≠ frame t msg ∧ headerSize < part.length ∧ msg.head? = some 83

section Wire
variable {acts : List Action} {s : Sys} {p : Nat} {c : ClientInfo} {k : Sock}

/-- What the listener of a client can have got is whole frames and a part of one, all of them
issued to the client. -/
theorem listed_front (hrun : run step Sys.init acts = .ok s) (hphase : s.phase ≠ .done)
    (h : Listed s p c k) (hclean : ∀ d ∈ directWrites k.trace, d.Clean) {front : Bytes}
    (hfront : front <+: wire k.trace) : ∃ (fs : List Bytes) (part : Bytes),
      front = fs.flatten ++ part ∧
      (∀ f ∈ fs, f ∈ issued k.trace ∧ ∃ t msg, f = frame t msg ∧ msg.length < 2^32) ∧
      (part = [] ∨ ∃ t msg, frame t msg ∈ issued k.trace ∧ msg.length < 2^32 ∧
        part <+: frame t msg ∧ part ≠ frame t msg) := by
  obtain ⟨seat,hseats⟩ := listed_seats hrun hphase h
  have htrace : seat.outbox.trace = k.trace := by
    rw [hseats.sock]
    rfl
  rw [← htrace] at hclean
  obtain ⟨fs₀,hframed⟩ := hseats.reachable.framed hclean
  obtain ⟨fs,hsub,hwire,hformed⟩ := hframed.intact
  rw [htrace] at hsub hwire
  have hframes : ∀ f ∈ fs, f ∈ issued k.trace ∧ ∃ t msg, f = frame t msg ∧ msg.length < 2^32 := by
    intro f hf
    have hissued := hsub.subset hf
    obtain ⟨t,msg,rfl,-⟩ := listed_issued hrun hphase h hissued
    exact ⟨hissued,t,msg,rfl,(hformed _ hf).short⟩
  obtain ⟨back,hback⟩ := hfront.trans hwire
  obtain ⟨n,part,hcut,hpart,-⟩ := flatten_cut hback
  refine ⟨fs.take n,part,hcut,fun f hf => hframes f (List.mem_of_mem_take hf),?_⟩
  refine hpart.imp_right (fun ⟨f,hf,hpre,hproper⟩ => ?_)
  obtain ⟨hissued,t,msg,rfl,hlen⟩ := hframes f (List.mem_of_getElem? hf)
  exact ⟨t,msg,hissued,hlen,hpre,hproper⟩

/-- As long as the server is not shutting down and no listing showed a name that reads as the
notice, no frame carries a notice. When also no direct write was torn or tore a frame, the
listener takes nothing for a notice in whatever it gets of what the kernel took, unless the
stream ends inside a payload that begins like one. -/
theorem notice_unforged (hrun : run step Sys.init acts = .ok s) (hphase : s.phase ≠ .done)
    (h : Listed s p c k) (hdown : s.world.serverShutdown = false)
    (hnames : ∀ names ∈ listings k.trace, ∀ name ∈ names, cstr (name ++ [0]) ≠ shutdownText) :
    (∀ f ∈ issued k.trace, ¬ Notice f) ∧
      ((∀ d ∈ directWrites k.trace, d.Clean) →
        ∀ (l : Listener) (pieces more : List RecvRes), l.phase = .running →
          l.input = pieces ++ more → StaysOpen pieces → BreaksOff more →
          arrived pieces <+: wire k.trace →
          (more.head? = some .ended → ¬ EndsInS (issued k.trace) (arrived pieces)) →
          ∃ l', clientListen l = .ok l' ∧ Unforged l l') := by
  have hunlike : ∀ f ∈ issued k.trace, ¬ Notice f := by
    intro f hf
    obtain ⟨t,msg,rfl,hcarries⟩ := listed_issued hrun hphase h hf
    rw [hdown] at hcarries
    unfold Notice
    rw [payloadOf_frame]
    exact hcarries.unlike hnames
  refine ⟨hunlike,?_⟩
  intro hclean l pieces more hrunning hinput hopen hends hfront hcut
  obtain ⟨fs,part,harrived,hfs,hpart⟩ := listed_front hrun hphase h hclean hfront
  have hframes : ∀ f ∈ fs, ∃ t msg, f = frame t msg ∧ msg.length < 2^32 := fun f hf => (hfs f hf).2
  have hnone : ∀ f ∈ fs, ¬ Notice f := fun f hf => hunlike f (hfs f hf).1
  rcases hpart with rfl | ⟨t,msg,hissued,hlen,hpre,hproper⟩
  · exact listen_unforged hrunning hinput hopen hends harrived hframes hnone
      (show ([] : Bytes).length < 2^32 by decide) List.nil_prefix (frame_ne_nil 0 []).symm
      (fun _ hbad => absurd hbad (by decide))
  · refine listen_unforged hrunning hinput hopen hends harrived hframes hnone hlen hpre hproper ?_
    intro hended hbehind hletter
    exact hcut hended ⟨fs,t,msg,part,fun f hf => (hfs f hf).1,hissued,harrived,hpre,hproper,
      hbehind,hletter⟩

end Wire

def Action.asksAs (name : Bytes) : List Action :=
  connects 1 5 { Oracle.quiet with sends := List.replicate 4 (.accepts 100) } ++
    hears 5 (frame msgTypeNormal name) ++ hears 5 (frame msgTypeNormal (ascii "/list"))

theorem notice_unforged_asksAs : ∃ s c k,
    run step Sys.init (Action.asksAs (ascii "ann")) = .ok s ∧ Listed s 1 c k ∧
      wire k.trace ≠ [] ∧ (∀ f ∈ issued k.trace, ¬ Notice f) ∧
      ∃ l', clientListen (.arriving [wire k.trace]) = .ok l' ∧
        Unforged (.arriving [wire k.trace]) l' := by
  obtain ⟨s,hrun,c,k,hphase,hlisted,htest⟩ := reaches_listed
    (show reachesListed (Action.asksAs (ascii "ann")) 1 (fun s _ k =>
      decide (s.world.serverShutdown = false ∧ wire k.trace ≠ [] ∧
        (∀ names ∈ listings k.trace, ∀ name ∈ names, cstr (name ++ [0]) ≠ shutdownText) ∧
        ∀ d ∈ directWrites k.trace, d.Clean)) = true by decide +kernel)
  obtain ⟨hdown,hwire,hnames,hclean⟩ := of_decide_eq_true htest
  have hsafe := notice_unforged hrun hphase hlisted hdown hnames
  refine ⟨s,c,k,hrun,hlisted,hwire,hsafe.1,?_⟩
  exact hsafe.2 hclean (.arriving [wire k.trace]) [.data [wire k.trace].flatten] [] rfl rfl
    ⟨by simp,by simp⟩ (.inl rfl) (by simp [arrived]) (fun hended => by cases hended)

/-- A client that calls itself like the notice. -/
theorem notice_forged : ∃ s c k, run step Sys.init (Action.asksAs shutdownText) = .ok s ∧
    Listed s 1 c k ∧ s.world.serverShutdown = false ∧ (∃ f ∈ issued k.trace, Notice f) ∧
    ∃ l', clientListen (.arriving (issued k.trace)) = .ok l' ∧ l'.clientShutdown = true ∧
      shuttingDown ∈ l'.printed := by
  obtain ⟨s,hrun,c,k,-,hlisted,htest⟩ := reaches_listed
    (show reachesListed (Action.asksAs shutdownText) 1 (fun s _ k =>
      decide (s.world.serverShutdown = false ∧ ∃ f ∈ issued k.trace, Notice f) &&
      listens (.arriving (issued k.trace)) (fun l' => decide (l'.clientShutdown = true ∧
        shuttingDown ∈ l'.printed))) = true by decide +kernel)
  simp only [Bool.and_eq_true,decide_eq_true_eq] at htest
  obtain ⟨⟨hdown,hnotice⟩,htest⟩ := htest
  obtain ⟨l',hl',htest⟩ := listens_ok htest
  exact ⟨s,c,k,hrun,hlisted,hdown,hnotice,l',hl',of_decide_eq_true htest⟩

end ChatServer
