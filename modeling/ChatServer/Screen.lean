import ChatServer.Delivery
import ChatServer.Notices
import ChatServer.ShutdownCause

/-! What a client shows of what the server broadcasts, at any moment of a run. -/
set_option autoImplicit false

namespace ChatServer
open ByteString Memory Execution Relation Outbox

def Listener.Waiting (l : Listener) : Prop :=
  ∃ bs, l.phase = .inHeader bs ∨ l.phase = .inPayload bs

section Stream
variable {l : Listener} {t : UInt8} {msg part : Bytes} {fs : List Bytes}

theorem clientListenLoop_last {l₁ : Listener} (fuel : Nat) (hturn : listenTurn l = .ok l₁)
    (hwaits : l₁.Waiting) : clientListenLoop (fuel+1) l = .ok l₁ := by
  have hstops : l₁.phase ≠ .running := by
    obtain ⟨bs,hbs | hbs⟩ := hwaits <;> simp [hbs]
  simp only [clientListenLoop,hturn,ok_bind]
  rw [if_neg hstops]
  rfl

theorem listenTurn_midway (hopen : StaysOpen l.input)
    (harrived : arrived l.input = (frame t msg).take headerSize ++ part)
    (hlen : msg.length < 2^32) (hshort : part.length < msg.length) (hblocks : none ∉ l.blocks) :
    ∃ l₁, listenTurn l = .ok l₁ ∧ l₁.Waiting ∧ l₁.stdout = l.stdout ∧
      l₁.clientShutdown = l.clientShutdown := by
  have hinput : l.input = l.input ++ [] := (List.append_nil _).symm
  obtain ⟨header,rest,hturn,hopen₁,harr₁⟩ := listenTurn_header hinput hopen harrived hlen
  have hread := readAllLoop_short [] hopen₁ [] msg.length (by rw [harr₁]; exact hshort)
  have hleft : msg.length-part.length ≠ 0 := by omega
  rw [List.append_nil] at hturn
  rw [List.append_nil,List.nil_append,harr₁] at hread
  simp only [readAllLoop,if_neg hleft] at hread
  refine ⟨_,hturn,?_⟩
  unfold listenPayload readAll
  simp only [hread]
  cases hblock : l.blocks.headD (some []) with
  | none => exact absurd (none_mem_blocks hblock) hblocks
  | some junk => exact ⟨⟨part,.inr rfl⟩,rfl,rfl⟩

theorem listenTurn_part (hopen : StaysOpen l.input) (harrived : arrived l.input = part)
    (hblocks : none ∉ l.blocks)
    (hpart : part = [] ∨ ∃ t msg, msg.length < 2^32 ∧ part <+: frame t msg ∧ part ≠ frame t msg) :
    ∃ l₁, listenTurn l = .ok l₁ ∧ l₁.Waiting ∧ l₁.stdout = l.stdout ∧
      l₁.clientShutdown = l.clientShutdown := by
  have hheader : part.length < headerSize → ∃ l₁, listenTurn l = .ok l₁ ∧ l₁.Waiting ∧
      l₁.stdout = l.stdout ∧ l₁.clientShutdown = l.clientShutdown := by
    intro hshort
    exact ⟨_,listenTurn_waits hopen (by rw [harrived]; exact hshort),⟨_,.inl rfl⟩,rfl,rfl⟩
  rcases hpart with rfl | ⟨t,msg,hlen,hpre,hproper⟩
  · exact hheader (by decide)
  · rcases part_cases hpre hproper with hshort | ⟨tail,rfl,-,hshort⟩
    · exact hheader hshort
    · exact listenTurn_midway hopen harrived hlen hshort hblocks

/-- What the listener makes of a stream of frames whose last one may not have arrived
completely. -/
theorem listen_stream (hrunning : l.phase = .running) (hopen : StaysOpen l.input)
    (harrived : arrived l.input = fs.flatten ++ part)
    (hfs : ∀ f ∈ fs, ∃ t msg, f = frame t msg ∧ msg.length < 2^32)
    (hpayloads : ∀ f ∈ fs, payloadOf f ≠ [])
    (hpart : part = [] ∨ ∃ t msg, msg.length < 2^32 ∧ part <+: frame t msg ∧ part ≠ frame t msg)
    (hblocks : none ∉ l.blocks) (htakes : takesEach l.writes (spokenPayloads fs) = true) :
    ∃ l', clientListen l = .ok l' ∧ l'.stdout = l.stdout ++ (spokenPayloads fs).flatten ∧
      ((∀ f ∈ fs, ¬ Notice f) → l'.Waiting ∧ l'.clientShutdown = l.clientShutdown) ∧
      ((∃ f ∈ fs, Notice f) → l'.phase = .left ∧ l'.clientShutdown = true) := by
  have hinput : l.input = l.input ++ [] := (List.append_nil _).symm
  obtain ⟨n,hfuel⟩ := listen_fuel [] hopen harrived hfs
  rw [List.append_nil] at hfuel
  unfold clientListen
  rw [hfuel]
  rcases listen_frames (n+part.length+1) hrunning hinput hopen harrived hfs with
    ⟨l',hloop,hquits⟩ | ⟨l₁,rest,hloop,hthrough,hinput₁,hopen₁,harr₁⟩
  · obtain ⟨⟨f,hf,hnotice⟩,hout,hshut⟩ := hquits.whole htakes hblocks hpayloads
    exact ⟨l',hloop,hout,fun hnone => absurd hnotice (hnone f hf),fun _ => ⟨hquits.phase,hshut⟩⟩
  · rw [List.append_nil] at hinput₁
    rw [← hinput₁] at hopen₁ harr₁
    have hspoken := hthrough.spoken_all
    have hout := (hthrough.stdout [] (by rw [List.append_nil,← hspoken]; exact htakes)).1
    obtain ⟨l',hturn,hwaits,hsame,hshut⟩ := listenTurn_part hopen₁ harr₁
      (fun hnone => hblocks (hthrough.blocks _ hnone)) hpart
    refine ⟨l',hloop.trans (clientListenLoop_last _ hturn hwaits),?_,fun _ => ⟨hwaits,?_⟩,?_⟩
    · rw [hsame,hout,hspoken]
    · rw [hshut,hthrough.shutdown]
    · rintro ⟨f,hf,hnotice⟩
      exact absurd hnotice (hthrough.unlike f hf)

end Stream

section Lists

theorem range_broadcasts (bs : List Broadcast) (j : Nat) :
    (List.range' j (bs.length-j)).filterMap (fun i => bs[i]?) = bs.drop j := by
  induction h : bs.length-j generalizing j with
  | zero => rw [List.drop_of_length_le (by omega)]; rfl
  | succ n ih =>
    have hlt : j < bs.length := by omega
    rw [List.range'_succ,List.filterMap_cons,List.getElem?_eq_getElem hlt,
      List.drop_eq_getElem_cons hlt]
    exact congrArg (bs[j] :: ·) (ih (j+1) (by omega))

end Lists

def others (p : Nat) (bs : List Broadcast) : List Broadcast :=
  bs.filter (fun b => decide (b.sender ≠ some p))

/-- The broadcasts that were put into the client's queue. -/
def queuedFor (bs : List Broadcast) (trace : List Obs) : List Broadcast :=
  ((offers trace).filter Offer.taken).filterMap (fun o => bs[o.index]?)

def Broadcast.packet (b : Broadcast) : Bytes := frame msgTypeNormal b.msg

/-- The bytes hold the frames of the first `n` broadcasts and not all of the next. -/
structure FirstWhole (bs : List Broadcast) (n : Nat) (bytes : Bytes) : Prop where
  front : ((bs.take n).map Broadcast.packet).flatten <+: bytes
  next : n < bs.length → ¬ ((bs.take (n+1)).map Broadcast.packet).flatten <+: bytes

theorem firstWhole_cut {bs : List Broadcast} {n : Nat} {bytes part : Bytes}
    (hcut : bytes = ((bs.map Broadcast.packet).take n).flatten ++ part)
    (hpart : part = [] ∨
      ∃ f, (bs.map Broadcast.packet)[n]? = some f ∧ part <+: f ∧ part ≠ f) :
    FirstWhole bs n bytes := by
  have hne : [] ∉ bs.map Broadcast.packet := by
    intro hmem
    obtain ⟨b,-,hb⟩ := List.mem_map.mp hmem
    exact frame_ne_nil _ _ hb
  constructor
  · rw [hcut,List.map_take]
    exact List.prefix_append _ _
  · intro hmore
    rw [hcut,List.map_take]
    exact cut_exact hne hpart (List.getElem?_eq_getElem (by rwa [List.length_map]))

section Offers
variable {p : Nat} {bs : List Broadcast} {os : List Offer}

def Offer.Of (p : Nat) (bs : List Broadcast) (o : Offer) : Prop :=
  ∃ b, bs[o.index]? = some b ∧ (o.own = true ↔ b.sender = some p) ∧ o.len = headerSize+b.msg.length

theorem offers_others (h : ∀ o ∈ os, o.Of p bs) :
    (os.filter (fun o => !o.own)).filterMap (fun o => bs[o.index]?) =
      others p (os.filterMap (fun o => bs[o.index]?)) := by
  induction os with
  | nil => rfl
  | cons o os ih =>
    obtain ⟨b,hb,hown,-⟩ := h o (by simp)
    have hrest := ih (fun o' ho' => h o' (List.mem_cons_of_mem _ ho'))
    simp only [List.filter_cons,List.filterMap_cons,hb,others] at hrest ⊢
    cases ho : o.own with
    | true =>
      rw [ho] at hown
      simp [hown.mp rfl,hrest]
    | false =>
      rw [ho] at hown
      have hne : b.sender ≠ some p := fun he => by cases hown.mpr he
      simp [hb,hne,hrest]

theorem offers_packets (h : ∀ o ∈ os, o.Of p bs) :
    (os.map (fun o => (o.index,packetAt bs o.index))).flatMap Prod.snd =
      ((os.filterMap (fun o => bs[o.index]?)).map Broadcast.packet).flatten := by
  induction os with
  | nil => rfl
  | cons o os ih =>
    obtain ⟨b,hb,-⟩ := h o (by simp)
    have hrest := ih (fun o' ho' => h o' (List.mem_cons_of_mem _ ho'))
    rw [List.map_cons,List.flatMap_cons,hrest,List.filterMap_cons]
    simp [packetAt,hb,Broadcast.packet]

end Offers

namespace OrderedDelivery
variable {s : Sys} {p : Nat} {c : ClientInfo} {k : Sock}

theorem packets (h : OrderedDelivery s p c k) :
    queuedWire k.trace ++ c.msgQueue.unsent s.world.packets =
      ((queuedFor s.world.broadcasts k.trace).map Broadcast.packet).flatten := by
  rw [h.bytes,h.taken]
  exact offers_packets (fun o ho => h.truthful o (List.mem_of_mem_filter ho))

theorem others_eq (h : OrderedDelivery s p c k) :
    ((offers k.trace).filter (fun o => !o.own)).filterMap
        (fun o => s.world.broadcasts[o.index]?) =
      others p (s.world.broadcasts.drop k.joined) := by
  rw [offers_others h.truthful,← range_broadcasts,← h.offered,List.filterMap_map]
  rfl

theorem sublist (h : OrderedDelivery s p c k) :
    (queuedFor s.world.broadcasts k.trace).Sublist
      (others p (s.world.broadcasts.drop k.joined)) := by
  rw [← h.others_eq]
  refine List.Sublist.filterMap _ ?_
  refine List.monotone_filter_right _ ?_
  intro o ho
  simp [(Offer.taken_iff.mp ho).1]

theorem complete (h : OrderedDelivery s p c k)
    (hall : ∀ o ∈ offers k.trace, o.own = false → o.taken = true) :
    queuedFor s.world.broadcasts k.trace = others p (s.world.broadcasts.drop k.joined) := by
  rw [← h.others_eq]
  refine congrArg (List.filterMap _) (List.filter_congr ?_)
  intro o ho
  cases hown : o.own with
  | true => simp [Offer.taken,hown]
  | false => simp [hall o ho hown]

theorem short (h : OrderedDelivery s p c k) {b : Broadcast}
    (hb : b ∈ queuedFor s.world.broadcasts k.trace) : b.msg.length < 2^32 := by
  obtain ⟨o,ho,hindex⟩ := List.mem_filterMap.mp hb
  obtain ⟨ho,htaken⟩ := List.mem_filter.mp ho
  obtain ⟨b',hb',-,hlen⟩ := h.truthful o ho
  rw [hindex] at hb'
  cases hb'
  have hfits := (Offer.taken_iff.mp htaken).2.2.2
  rw [hlen] at hfits
  simp only [msgSizeLimit] at hfits
  omega

end OrderedDelivery

def Broadcast.Voiced (b : Broadcast) : Prop :=
  (b.sender.isSome = true → ChatText b.msg) ∧ (b.sender = none → b.msg = shutdownMessage)

structure Outbox.Airs (b : Outbox) : Prop where
  joined : b.joined ≤ b.broadcasts.length
  voiced : ∀ c ∈ b.broadcasts.drop b.joined, c.Voiced
  wire : directWrites b.trace = [] → wire b.trace = queuedWire b.trace

namespace Outbox.Airs
variable {p : Nat} {b b' : Outbox}

theorem step (h : b.Airs) {l : List Obs} {more : List Broadcast}
    (htrace : b'.trace = b.trace ++ l) (hcasts : b'.broadcasts = b.broadcasts ++ more)
    (hjoined : b'.joined = b.joined) (hwire : ChatServer.wire l = queuedWire l)
    (hmore : ∀ c ∈ more, c.Voiced) : b'.Airs where
  joined := by
    have hle := h.joined
    rw [hjoined,hcasts,List.length_append]
    omega
  voiced := by
    intro c hc
    rw [hjoined,hcasts,List.drop_append_of_le_length h.joined] at hc
    rcases List.mem_append.mp hc with hc | hc
    · exact h.voiced c hc
    · exact hmore c hc
  wire := by
    intro hnone
    rw [htrace,directWrites_append] at hnone
    rw [htrace,wire_append,queuedWire_append,hwire,h.wire (List.append_eq_nil_iff.mp hnone).1]

theorem beat (h : b.Airs) (hbeat : Beat p b b') : b'.Airs := by
  have hnone : ∀ c ∈ ([] : List Broadcast), c.Voiced := by simp
  cases hbeat with
  | inert ho =>
    obtain ⟨hw,hq,-⟩ := Obs.inert_silent ho
    exact h.step rfl (List.append_nil _).symm rfl (by rw [hw,hq]) hnone
  | close => exact h.step rfl (List.append_nil _).symm rfl rfl hnone
  | shutdown => exact ⟨h.joined,h.voiced,h.wire⟩
  | listing names => exact h.step rfl (List.append_nil _).symm rfl rfl hnone
  | part => exact h.step rfl (List.append_nil _).symm rfl rfl hnone
  | whole => exact h.step rfl (List.append_nil _).symm rfl rfl hnone
  | skip hsaid =>
    refine h.step rfl rfl rfl rfl ?_
    simpa [Broadcast.Voiced] using ⟨hsaid.1,fun hn => (hsaid.2 hn).2⟩
  | take hsaid =>
    refine h.step rfl rfl rfl rfl ?_
    simpa [Broadcast.Voiced] using ⟨hsaid.1,fun hn => (hsaid.2 hn).2⟩
  | @direct d =>
    refine ⟨h.joined,h.voiced,fun hnone => ?_⟩
    have hmem : d ∈ directWrites (b.trace ++ ([.direct d] ++ sentObs .direct d.first.taken ++
        sentObs .direct d.second)) := mem_directWrites.mpr (by simp)
    rw [Outbox.log] at hnone
    rw [hnone] at hmem
    cases hmem

end Outbox.Airs

theorem Seat.Reachable.airs {p : Nat} {s : Seat} (h : Seat.Reachable p s) : s.outbox.Airs := by
  refine h.outbox (fun b hb => ?_) (fun _ _ hairs hbeat => hairs.beat hbeat)
  obtain ⟨htrace,-,-,hjoined⟩ := hb
  refine ⟨Nat.le_of_eq hjoined,?_,?_⟩
  · rw [hjoined]
    simp
  · rw [htrace]
    exact fun _ => rfl

namespace Broadcast

theorem Voiced.notice {b : Broadcast} (h : b.Voiced) : Notice b.packet ↔ b.sender = none := by
  unfold Notice packet
  rw [payloadOf_frame]
  cases hs : b.sender with
  | none =>
    rw [h.2 hs]
    simp only [iff_true]
    decide
  | some q =>
    have hunlike := (h.1 (by rw [hs]; rfl)).ordinary.unlike
    simp [hunlike]

theorem Voiced.ne_nil {b : Broadcast} (h : b.Voiced) : payloadOf b.packet ≠ [] := by
  unfold packet
  rw [payloadOf_frame]
  cases hs : b.sender with
  | none =>
    rw [h.2 hs]
    decide
  | some q => exact (h.1 (by rw [hs]; rfl)).ordinary.ne_nil

end Broadcast

def chatLines (bs : List Broadcast) : List Bytes :=
  (bs.filter (fun b => b.sender.isSome)).map Broadcast.msg

theorem spoken_packets {bs : List Broadcast} (h : ∀ b ∈ bs, b.Voiced) :
    spokenPayloads (bs.map Broadcast.packet) =
      (bs.takeWhile (fun b => b.sender.isSome)).map Broadcast.msg := by
  induction bs with
  | nil => rfl
  | cons b bs ih =>
    have hnotice := (h b (by simp)).notice
    rw [List.map_cons,List.takeWhile_cons]
    cases hs : b.sender with
    | none => simp [spokenPayloads_notice (hnotice.mpr hs)]
    | some q =>
      rw [spokenPayloads_cons (fun hn => by rw [hnotice.mp hn] at hs; cases hs),
        ih (fun b' hb' => h b' (List.mem_cons_of_mem _ hb'))]
      simp [Broadcast.packet]

theorem takeWhile_said {heard bs said last : List Broadcast} (hsub : heard.Sublist bs)
    (hbs : bs = said ++ last) (hsaid : ∀ b ∈ said, b.sender ≠ none)
    (hlast : ∀ b ∈ last, b.sender = none) :
    heard.takeWhile (fun b => b.sender.isSome) = heard.filter (fun b => b.sender.isSome) := by
  subst hbs
  obtain ⟨xs,ys,rfl,hxs,hys⟩ := List.sublist_append_iff.mp hsub
  have hall : ∀ b ∈ xs, b.sender.isSome = true := fun b hb =>
    Option.isSome_iff_ne_none.mpr (hsaid b (hxs.subset hb))
  have hnone : ys.filter (fun b => b.sender.isSome) = [] := by
    rw [List.filter_eq_nil_iff]
    intro b hb
    simp [hlast b (hys.subset hb)]
  have hstops : ys.takeWhile (fun b => b.sender.isSome) = [] := by
    cases ys with
    | nil => rfl
    | cons b ys => simp [hlast b (hys.subset (by simp))]
  rw [List.takeWhile_append_of_pos hall,hstops,List.filter_append,hnone,List.filter_eq_self.mpr hall]

theorem takesEach_mono {writes : List SendRes} {msgs all : List Bytes} (hstart : msgs <+: all)
    (h : takesEach writes all = true) : takesEach writes msgs = true := by
  obtain ⟨more,rfl⟩ := hstart
  exact takesEach_append h

/-- The listener has shown what was said in these broadcasts, and goes on unless the notice
is among them. -/
structure OnScreen (heard : List Broadcast) (l l' : Listener) : Prop where
  stdout : l'.stdout = l.stdout ++ (chatLines heard).flatten
  waits : (∀ b ∈ heard, b.sender ≠ none) → l'.Waiting ∧ l'.clientShutdown = l.clientShutdown
  leaves : (∃ b ∈ heard, b.sender = none) → l'.phase = .left ∧ l'.clientShutdown = true

section Runs
variable {acts : List Action} {s : Sys} {p : Nat} {c : ClientInfo} {k : Sock}

theorem listed_voiced (hrun : run step Sys.init acts = .ok s) (hphase : s.phase ≠ .done)
    (h : Listed s p c k) : (∀ b ∈ s.world.broadcasts.drop k.joined, b.Voiced) ∧
      (directWrites k.trace = [] → wire k.trace = queuedWire k.trace) := by
  obtain ⟨seat,hseats⟩ := listed_seats hrun hphase h
  obtain ⟨-,hvoiced,hwire⟩ := hseats.reachable.airs
  have htrace : seat.outbox.trace = k.trace := by
    rw [hseats.sock]
    rfl
  have hjoined : seat.outbox.joined = k.joined := by
    rw [hseats.sock]
    rfl
  have hcasts : seat.outbox.broadcasts = s.world.broadcasts := hseats.broadcasts
  rw [hjoined,hcasts] at hvoiced
  rw [htrace] at hwire
  exact ⟨hvoiced,hwire⟩

theorem queued_frames (hrun : run step Sys.init acts = .ok s) (hphase : s.phase ≠ .done)
    (h : Listed s p c k) : ∀ b ∈ queuedFor s.world.broadcasts k.trace,
      b.Voiced ∧ ∃ t msg, b.packet = frame t msg ∧ msg.length < 2^32 := by
  have hd := listed_delivery hrun hphase h
  obtain ⟨hvoiced,-⟩ := listed_voiced hrun hphase h
  intro b hb
  exact ⟨hvoiced b (List.mem_of_mem_filter (hd.sublist.subset hb)),_,_,rfl,hd.short hb⟩

/-- The notice is the last broadcast that a client has queued. -/
theorem queued_said (hrun : run step Sys.init acts = .ok s) (hphase : s.phase ≠ .done)
    (h : Listed s p c k) (n : Nat) :
    ((queuedFor s.world.broadcasts k.trace).take n).takeWhile (fun b => b.sender.isSome) =
      ((queuedFor s.world.broadcasts k.trace).take n).filter (fun b => b.sender.isSome) := by
  obtain ⟨-,said,hsaid,hall⟩ := run_noticed hrun hphase
  have hsub := (listed_delivery hrun hphase h).sublist
  have hheard : ((queuedFor s.world.broadcasts k.trace).take n).Sublist s.world.broadcasts :=
    (List.take_sublist _ _).trans (hsub.trans (List.filter_sublist.trans (List.drop_sublist _ _)))
  refine takeWhile_said hheard hall hsaid ?_
  intro b hb
  split at hb
  · rw [List.mem_singleton.mp hb]
  · cases hb

theorem listed_screen (hrun : run step Sys.init acts = .ok s) (hphase : s.phase ≠ .done)
    (h : Listed s p c k) (hdirect : directWrites k.trace = []) {l : Listener}
    (hrunning : l.phase = .running) (hopen : StaysOpen l.input)
    (harrived : arrived l.input = wire k.trace) (hblocks : none ∉ l.blocks)
    (htakes : takesEach l.writes
      ((queuedFor s.world.broadcasts k.trace).map Broadcast.msg) = true) :
    ∃ l' n, clientListen l = .ok l' ∧
      FirstWhole (queuedFor s.world.broadcasts k.trace) n (wire k.trace) ∧
      OnScreen ((queuedFor s.world.broadcasts k.trace).take n) l l' ∧
      (c.msgQueue.unsent s.world.packets = [] →
        (queuedFor s.world.broadcasts k.trace).length ≤ n) := by
  have hframes := queued_frames hrun hphase h
  have hpackets := (listed_delivery hrun hphase h).packets
  rw [← (listed_voiced hrun hphase h).2 hdirect] at hpackets
  obtain ⟨n,part,hfront,hpart,hout⟩ := flatten_cut hpackets
  have hsaid := queued_said hrun hphase h n
  generalize queuedFor s.world.broadcasts k.trace = queued at *
  have hwhole : FirstWhole queued n (wire k.trace) := firstWhole_cut hfront hpart
  have hlast : part = [] ∨ ∃ t msg, msg.length < 2^32 ∧ part <+: frame t msg ∧
      part ≠ frame t msg := by
    refine hpart.imp_right ?_
    rintro ⟨f,hf,hpre,hproper⟩
    obtain ⟨b,hb,rfl⟩ := List.mem_map.mp (List.mem_of_getElem? hf)
    obtain ⟨-,t,msg,he,hlen⟩ := hframes b hb
    exact ⟨t,msg,hlen,he ▸ hpre,he ▸ hproper⟩
  rw [List.length_map] at hout
  rw [← List.map_take] at hfront
  have hvoiced : ∀ b ∈ queued.take n, b.Voiced := fun b hb =>
    (hframes b (List.mem_of_mem_take hb)).1
  have hspoken := spoken_packets hvoiced
  have hstart : spokenPayloads ((queued.take n).map Broadcast.packet) <+:
      queued.map Broadcast.msg := by
    rw [hspoken]
    exact ((List.takeWhile_prefix _).trans (List.take_prefix _ _)).map _
  obtain ⟨l',hlisten,hstdout,hwaits,hleaves⟩ := listen_stream hrunning hopen
    (harrived.trans hfront)
    (List.forall_mem_map.mpr fun b hb => (hframes b (List.mem_of_mem_take hb)).2)
    (List.forall_mem_map.mpr fun b hb => (hvoiced b hb).ne_nil)
    hlast hblocks (takesEach_mono hstart htakes)
  refine ⟨l',n,hlisten,hwhole,⟨?_,fun hnone => hwaits ?_,?_⟩,hout⟩
  · rw [hstdout,hspoken,hsaid]
    rfl
  · exact List.forall_mem_map.mpr fun b hb hn => hnone b hb ((hvoiced b hb).notice.mp hn)
  · rintro ⟨b,hb,hn⟩
    exact hleaves ⟨_,List.mem_map_of_mem hb,(hvoiced b hb).notice.mpr hn⟩

/-- In every run, a listener that has got what the kernel took for its client, in whatever
pieces, has shown the lines of the broadcasts queued for the client whose frames the kernel
took as a whole, the first so many, and all when nothing is left in the queue. What was queued
is in order what the others have said since the client joined, and all of it if no offer of
theirs was turned down. -/
theorem broadcasts_shown (hrun : run step Sys.init acts = .ok s) (hphase : s.phase ≠ .done)
    (h : Listed s p c k) (hdirect : directWrites k.trace = []) {l : Listener}
    (hrunning : l.phase = .running) (hopen : StaysOpen l.input)
    (harrived : arrived l.input = wire k.trace) (hblocks : none ∉ l.blocks)
    (htakes : takesEach l.writes
      ((queuedFor s.world.broadcasts k.trace).map Broadcast.msg) = true) :
    (∃ l' n, clientListen l = .ok l' ∧
      FirstWhole (queuedFor s.world.broadcasts k.trace) n (wire k.trace) ∧
      OnScreen ((queuedFor s.world.broadcasts k.trace).take n) l l' ∧
      (c.msgQueue.unsent s.world.packets = [] →
        (queuedFor s.world.broadcasts k.trace).length ≤ n)) ∧
    (queuedFor s.world.broadcasts k.trace).Sublist
      (others p (s.world.broadcasts.drop k.joined)) ∧
    ((∀ o ∈ offers k.trace, o.own = false → o.taken = true) →
      queuedFor s.world.broadcasts k.trace = others p (s.world.broadcasts.drop k.joined)) := by
  have hd := listed_delivery hrun hphase h
  exact ⟨listed_screen hrun hphase h hdirect hrunning hopen harrived hblocks htakes,
    hd.sublist,hd.complete⟩

/-- Ann says two things, and the socket of the second client takes the first one. -/
def Action.saysTwice : List Action :=
  connects 1 5 .quiet ++ connects 2 6 { Oracle.quiet with sends := [.accepts 3,.accepts 100] } ++
    hears 5 (frame msgTypeNormal (ascii "ann")) ++ hears 5 (frame msgTypeNormal (ascii "hello")) ++
    hears 5 (frame msgTypeNormal (ascii "bye"))

def Listener.hearing (bs : Bytes) : Listener :=
  .start [.data (bs.take 4),.data (bs.drop 4)] (List.replicate 4 (.accepts 100))

theorem Listener.hearing_input (bs : Bytes) : StaysOpen (hearing bs).input ∧
    arrived (hearing bs).input = bs ∧ none ∉ (hearing bs).blocks := by
  refine ⟨⟨?_,?_⟩,?_,?_⟩
  · simp [hearing,Listener.start]
  · simp [hearing,Listener.start]
  · simp [hearing,Listener.start,arrived]
  · simp [hearing,Listener.start]

theorem broadcasts_shown_saysTwice : ∃ s c k, run step Sys.init Action.saysTwice = .ok s ∧
    Listed s 2 c k ∧ wire k.trace ≠ [] ∧ c.msgQueue.unsent s.world.packets ≠ [] ∧
    ∃ l' n, clientListen (.hearing (wire k.trace)) = .ok l' ∧
      FirstWhole (others 2 (s.world.broadcasts.drop k.joined)) n (wire k.trace) ∧
      OnScreen ((others 2 (s.world.broadcasts.drop k.joined)).take n)
        (.hearing (wire k.trace)) l' := by
  obtain ⟨s,hrun,c,k,hphase,hlisted,htest⟩ := reaches_listed
    (show reachesListed Action.saysTwice 2 (fun s c k => decide (wire k.trace ≠ [] ∧
      c.msgQueue.unsent s.world.packets ≠ [] ∧ directWrites k.trace = [] ∧
      (∀ o ∈ offers k.trace, o.own = false → o.taken = true) ∧
      takesEach (Listener.hearing (wire k.trace)).writes
        ((queuedFor s.world.broadcasts k.trace).map Broadcast.msg) = true)) = true
      by decide +kernel)
  obtain ⟨hwire,hunsent,hdirect,hall,htakes⟩ := of_decide_eq_true htest
  obtain ⟨hopen,harrived,hblocks⟩ := Listener.hearing_input (wire k.trace)
  obtain ⟨⟨l',n,hlisten,hwhole,hscreen,-⟩,-,hcomplete⟩ :=
    broadcasts_shown hrun hphase hlisted hdirect rfl hopen harrived hblocks htakes
  rw [hcomplete hall] at hwhole hscreen
  exact ⟨s,c,k,hrun,hlisted,hwire,hunsent,l',n,hlisten,hwhole,hscreen⟩

end Runs

end ChatServer
