import ChatServer.ClientListen
import ChatServer.Simulation

/-! What the client's listener makes of a stream of frames. -/
set_option autoImplicit false

namespace ChatServer
open ByteString Memory Execution

def payloadOf (f : Bytes) : Bytes := f.drop headerSize

def Notice (f : Bytes) : Prop := cstr (payloadOf f ++ [0]) = shutdownText

instance (f : Bytes) : Decidable (Notice f) := inferInstanceAs (Decidable (_ = _))

@[simp] theorem payloadOf_frame (t : UInt8) (msg : Bytes) : payloadOf (frame t msg) = msg :=
  List.drop_left' rfl

theorem parseHeader_frame {t : UInt8} {msg : Bytes} (h : msg.length < 2^32) :
    (parseHeader ((frame t msg).take headerSize)).msgLen = msg.length := by
  have htake : (frame t msg).take headerSize =
      (createHeader msg.length t true).bytes ++ [] := by
    rw [List.append_nil]
    exact List.take_left' rfl
  rw [htake,createHeader_bytes]
  exact Nat.mod_eq_of_lt h

namespace Listener
variable {l : Listener}

@[simp] theorem leave_phase (r : Int) : (l.leave r).phase = .left := rfl

@[simp] theorem leave_clientShutdown (r : Int) :
    (l.leave r).clientShutdown = l.clientShutdown := by
  unfold leave
  split <;> split <;> rfl

@[simp] theorem leave_stdout (r : Int) : (l.leave r).stdout = l.stdout := by
  unfold leave
  split <;> split <;> rfl

theorem leave_printed (r : Int) : ∃ new,
    (l.leave r).printed = l.printed ++ new ∧ shuttingDown ∉ new ∧ couldntRead ∉ new := by
  unfold leave print
  split <;> split <;> simp only [List.append_assoc]
  · exact ⟨_,rfl,by decide,by decide⟩
  · exact ⟨_,rfl,by decide,by decide⟩
  · exact ⟨_,rfl,by decide,by decide⟩
  · exact ⟨_,rfl,by decide,by decide⟩

theorem gotPayload_short (msg : Bytes) {r : Int} (h : r ≤ 0) :
    (l.gotPayload msg r).phase = .left ∧ (l.gotPayload msg r).clientShutdown = l.clientShutdown ∧
      (l.gotPayload msg r).stdout = l.stdout ∧ ∃ new,
        (l.gotPayload msg r).printed = l.printed ++ new ∧ shuttingDown ∉ new ∧
          couldntRead ∈ new := by
  unfold gotPayload
  rw [if_pos h]
  obtain ⟨new,hnew,hfree,-⟩ := (l.print couldntRead).leave_printed r
  refine ⟨rfl,leave_clientShutdown r,leave_stdout r,couldntRead :: new,?_,?_,by simp⟩
  · rw [hnew,print,List.append_assoc]
    rfl
  · exact List.not_mem_cons_of_ne_of_not_mem (by decide) hfree

theorem gotPayload_notice {msg : Bytes} {r : Int} (h : ¬ r ≤ 0) (hmsg : cstr msg = shutdownText) :
    (l.gotPayload msg r).phase = .left ∧ (l.gotPayload msg r).clientShutdown = true ∧
      (l.gotPayload msg r).stdout = l.stdout ∧ ∃ new,
        (l.gotPayload msg r).printed = l.printed ++ new ∧ shuttingDown ∈ new := by
  unfold gotPayload
  rw [if_neg h,if_pos hmsg]
  obtain ⟨new,hnew,-⟩ := leave_printed (l := { l.print shuttingDown with clientShutdown := true }) r
  refine ⟨rfl,leave_clientShutdown r,leave_stdout r,shuttingDown :: new,?_,by simp⟩
  rw [hnew]
  simp [print]

theorem gotPayload_writes {msg : Bytes} {r : Int} (h : ¬ r ≤ 0)
    (hmsg : cstr msg ≠ shutdownText) :
    ((writeAll l.writes (msg.take r.toNat)).ret = -1 ∧ (l.gotPayload msg r).phase = .left ∧
        ∃ new, (l.gotPayload msg r).printed = l.printed ++ new ∧ couldntWrite ∈ new ∧
          shuttingDown ∉ new) ∨
      ((writeAll l.writes (msg.take r.toNat)).ret ≠ -1 ∧
        l.gotPayload msg r = { l with
          stdout := l.stdout ++ (writeAll l.writes (msg.take r.toNat)).taken,
          writes := (writeAll l.writes (msg.take r.toNat)).rest }) := by
  unfold gotPayload
  rw [if_neg h,if_neg hmsg]
  simp only
  by_cases hret : (writeAll l.writes (msg.take r.toNat)).ret = -1
  · rw [if_pos hret]
    refine .inl ⟨hret,rfl,?_⟩
    obtain ⟨new,hnew,hfree,-⟩ := leave_printed (l := { { l with
      stdout := l.stdout ++ (writeAll l.writes (msg.take r.toNat)).taken,
      writes := (writeAll l.writes (msg.take r.toNat)).rest }.print couldntWrite with
        clientShutdown := true }) r
    refine ⟨couldntWrite :: new,?_,by simp,List.not_mem_cons_of_ne_of_not_mem (by decide) hfree⟩
    rw [hnew]
    simp [print]
  · rw [if_neg hret]
    exact .inr ⟨hret,rfl⟩

end Listener

theorem payloadBlock_full {msg junk : Bytes} :
    payloadBlock msg junk msg.length = msg ++ [0] := by
  unfold payloadBlock
  rw [List.append_assoc,List.take_left' rfl]

def spokenPayloads (fs : List Bytes) : List Bytes :=
  (fs.takeWhile (fun f => !decide (Notice f))).map payloadOf

@[simp] theorem spokenPayloads_nil : spokenPayloads [] = [] := rfl

theorem spokenPayloads_notice {f : Bytes} {fs : List Bytes} (h : Notice f) :
    spokenPayloads (f :: fs) = [] := by
  simp [spokenPayloads,h]

theorem spokenPayloads_cons {f : Bytes} {fs : List Bytes} (h : ¬ Notice f) :
    spokenPayloads (f :: fs) = payloadOf f :: spokenPayloads fs := by
  simp [spokenPayloads,h]

def takesEach : List SendRes → List Bytes → Bool
  | _,[] => true
  | writes,msg :: msgs =>
    match takes writes msg.length with
    | none => false
    | some rest => takesEach rest msgs

theorem takesEach_cons {writes : List SendRes} {msg : Bytes} {msgs : List Bytes}
    (h : takesEach writes (msg :: msgs) = true) :
    writeAll writes msg = ⟨msg,msg.length,(writeAll writes msg).rest⟩ ∧
      takesEach (writeAll writes msg).rest msgs = true := by
  cases htakes : takes writes msg.length with
  | none => simp [takesEach,htakes] at h
  | some rest =>
    rw [writeAll_takes htakes]
    exact ⟨rfl,by simpa [takesEach,htakes] using h⟩

theorem takesEach_first {writes : List SendRes} {msg : Bytes} {msgs : List Bytes}
    (h : takesEach writes (msg :: msgs) = true) : takesEach writes [msg] = true := by
  cases htakes : takes writes msg.length with
  | none => simp [takesEach,htakes] at h
  | some rest => simp [takesEach,htakes]

/-- The listener has left its loop on one of these frames: on a notice, on a write
that failed, or without a payload. -/
structure Quits (fs : List Bytes) (l l' : Listener) : Prop where
  phase : l'.phase = .left
  cause : ∃ new, l'.printed = l.printed ++ new ∧ ((∃ f ∈ fs, Notice f) ∨
    (shuttingDown ∉ new ∧ (couldntWrite ∈ new ∨
      (l'.clientShutdown = l.clientShutdown ∧ (none ∈ l.blocks ∨ ∃ f ∈ fs, payloadOf f = [])))))
  whole : takesEach l.writes (spokenPayloads fs) = true → none ∉ l.blocks →
    (∀ f ∈ fs, payloadOf f ≠ []) → (∃ f ∈ fs, Notice f) ∧
      l'.stdout = l.stdout ++ (spokenPayloads fs).flatten ∧ l'.clientShutdown = true

structure Through (fs : List Bytes) (l l₁ : Listener) : Prop where
  phase : l₁.phase = .running
  unlike : ∀ f ∈ fs, ¬ Notice f
  printed : l₁.printed = l.printed
  shutdown : l₁.clientShutdown = l.clientShutdown
  blocks : ∀ b ∈ l₁.blocks, b ∈ l.blocks
  stdout : ∀ msgs, takesEach l.writes (fs.map payloadOf ++ msgs) = true →
    l₁.stdout = l.stdout ++ (fs.map payloadOf).flatten ∧ takesEach l₁.writes msgs = true

theorem Through.nil {l : Listener} (h : l.phase = .running) : Through [] l l :=
  ⟨h,by simp,rfl,rfl,fun _ hb => hb,fun msgs hall => ⟨by simp,hall⟩⟩

theorem Through.trans {fs gs : List Bytes} {l l₁ l₂ : Listener} (h : Through fs l l₁)
    (h' : Through gs l₁ l₂) : Through (fs ++ gs) l l₂ where
  phase := h'.phase
  unlike := by
    intro f hf
    rcases List.mem_append.mp hf with hf | hf
    · exact h.unlike f hf
    · exact h'.unlike f hf
  printed := h'.printed.trans h.printed
  shutdown := h'.shutdown.trans h.shutdown
  blocks := fun b hb => h.blocks b (h'.blocks b hb)
  stdout := by
    intro msgs hall
    rw [List.map_append,List.append_assoc] at hall
    obtain ⟨hout,hrest⟩ := h.stdout _ hall
    obtain ⟨hout',hrest'⟩ := h'.stdout _ hrest
    refine ⟨?_,hrest'⟩
    rw [hout',hout,List.map_append,List.flatten_append,List.append_assoc]

theorem Through.spoken {fs gs : List Bytes} {l l₁ : Listener} (h : Through fs l l₁) :
    spokenPayloads (fs ++ gs) = fs.map payloadOf ++ spokenPayloads gs := by
  have hunlike := h.unlike
  clear h
  induction fs with
  | nil => rfl
  | cons f fs ih =>
    rw [List.cons_append,spokenPayloads_cons (hunlike f (by simp)),
      ih (fun f' hf' => hunlike f' (List.mem_cons_of_mem _ hf'))]
    rfl

theorem Through.spoken_all {fs : List Bytes} {l l₁ : Listener} (h : Through fs l l₁) :
    spokenPayloads fs = fs.map payloadOf := by
  rw [← List.append_nil fs,h.spoken,List.append_nil]
  exact List.append_nil _

theorem Through.quits {fs gs : List Bytes} {l l₁ l' : Listener} (h : Through fs l l₁)
    (h' : Quits gs l₁ l') : Quits (fs ++ gs) l l' where
  phase := h'.phase
  cause := by
    obtain ⟨new,hnew,hcause⟩ := h'.cause
    refine ⟨new,h.printed ▸ hnew,?_⟩
    rcases hcause with ⟨f,hf,hnotice⟩ | ⟨hfree,hwrite | ⟨hshut,hnone | ⟨f,hf,hempty⟩⟩⟩
    · exact .inl ⟨f,List.mem_append_right _ hf,hnotice⟩
    · exact .inr ⟨hfree,.inl hwrite⟩
    · exact .inr ⟨hfree,.inr ⟨hshut.trans h.shutdown,.inl (h.blocks _ hnone)⟩⟩
    · exact .inr ⟨hfree,.inr ⟨hshut.trans h.shutdown,.inr ⟨f,List.mem_append_right _ hf,hempty⟩⟩⟩
  whole := by
    intro hall hblocks hpayloads
    rw [h.spoken] at hall ⊢
    obtain ⟨hout,hrest⟩ := h.stdout _ hall
    obtain ⟨⟨f,hf,hnotice⟩,hout',hshut⟩ := h'.whole hrest (fun hnone => hblocks (h.blocks _ hnone))
      (fun f hf => hpayloads f (List.mem_append_right _ hf))
    refine ⟨⟨f,List.mem_append_right _ hf,hnotice⟩,?_,hshut⟩
    rw [hout',hout,List.flatten_append,List.append_assoc]

theorem Quits.first {f : Bytes} {fs : List Bytes} {l l' : Listener} (h : Quits [f] l l') :
    Quits (f :: fs) l l' where
  phase := h.phase
  cause := by
    obtain ⟨new,hnew,hcause⟩ := h.cause
    refine ⟨new,hnew,?_⟩
    simp only [List.mem_singleton,exists_eq_left] at hcause
    simp only [List.mem_cons,exists_eq_or_imp]
    rcases hcause with hnotice | ⟨hfree,hwrite | ⟨hshut,hnone | hempty⟩⟩
    · exact .inl (.inl hnotice)
    · exact .inr ⟨hfree,.inl hwrite⟩
    · exact .inr ⟨hfree,.inr ⟨hshut,.inl hnone⟩⟩
    · exact .inr ⟨hfree,.inr ⟨hshut,.inr (.inl hempty)⟩⟩
  whole := by
    intro hall hblocks hpayloads
    have hempty : ∀ f' ∈ [f], payloadOf f' ≠ [] := by simpa using hpayloads f (by simp)
    by_cases hnotice : Notice f
    · rw [spokenPayloads_notice hnotice] at hall ⊢
      have hsingle : spokenPayloads [f] = [] := spokenPayloads_notice hnotice
      obtain ⟨-,hout,hshut⟩ := h.whole (by rw [hsingle]; exact hall) hblocks hempty
      exact ⟨⟨f,by simp,hnotice⟩,by rw [hout,hsingle],hshut⟩
    · have hsingle : spokenPayloads [f] = [payloadOf f] := spokenPayloads_cons hnotice
      rw [spokenPayloads_cons hnotice] at hall
      obtain ⟨⟨f',hf',hmistaken⟩,-⟩ := h.whole
        (by rw [hsingle]; exact takesEach_first hall) hblocks hempty
      rw [List.mem_singleton.mp hf'] at hmistaken
      exact absurd hmistaken hnotice

section Frames
variable {l : Listener} {pieces more : List RecvRes} {t : UInt8} {msg tail : Bytes}

theorem listenTurn_header (hinput : l.input = pieces ++ more) (hopen : StaysOpen pieces)
    (harrived : arrived pieces = (frame t msg).take headerSize ++ tail)
    (hlen : msg.length < 2^32) : ∃ header rest, listenTurn l =
        .ok (listenPayload { l with header := header, input := rest ++ more } msg.length) ∧
      StaysOpen rest ∧ arrived rest = tail := by
  have hheader : ((frame t msg).take headerSize).length = headerSize := by
    rw [List.length_take,frame_length]
    omega
  obtain ⟨rest,hread,hopen',harr⟩ := readAllLoop_enough more hopen [] headerSize
    (by rw [harrived,List.length_append]; omega)
  rw [harrived,List.take_left' hheader,← hinput] at hread
  rw [harrived,List.drop_left' hheader] at harr
  obtain ⟨header,hwrite,hdata⟩ := l.header.write_ok
    (show 0+((frame t msg).take headerSize).length ≤ headerSize by omega)
  have hdata : header.data = (frame t msg).take headerSize := by
    rw [hdata,hheader,Nat.zero_add,List.drop_of_length_le (Nat.le_of_eq l.header.size)]
    simp
  refine ⟨header,rest,?_,hopen',harr⟩
  unfold listenTurn readAll
  rw [hread]
  simp only [List.nil_append,hwrite]
  rw [if_neg (by decide),hdata,parseHeader_frame hlen]
  rfl

theorem listenPayload_stored (hinput : l.input = pieces ++ more) (hopen : StaysOpen pieces)
    (harrived : arrived pieces = msg ++ tail) (hblock : l.blocks.headD (some []) ≠ none) :
    ∃ rest, listenPayload l msg.length =
        { l with blocks := l.blocks.tail, input := rest ++ more }.gotPayload (msg ++ [0])
          msg.length ∧ StaysOpen rest ∧ arrived rest = tail := by
  obtain ⟨rest,hread,hopen',harr⟩ := readAllLoop_enough more hopen [] msg.length
    (by rw [harrived,List.length_append]; omega)
  rw [harrived,List.take_left' rfl,← hinput] at hread
  rw [harrived,List.drop_left' rfl] at harr
  refine ⟨rest,?_,hopen',harr⟩
  unfold listenPayload readAll
  cases hb : l.blocks.headD (some []) with
  | none => exact absurd hb hblock
  | some junk =>
    simp only [hread,List.nil_append,payloadBlock_full]
    simp

theorem listenPayload_noBlock (msgLen : Nat) (hblock : l.blocks.headD (some []) = none) :
    listenPayload l msgLen = { l with blocks := l.blocks.tail }.gotPayload [] (-1) := by
  unfold listenPayload
  rw [hblock]

theorem none_mem_blocks (hblock : l.blocks.headD (some []) = none) : none ∈ l.blocks := by
  cases hb : l.blocks with
  | nil => simp [hb] at hblock
  | cons b blocks =>
    rw [hb,List.headD_cons] at hblock
    simp [hblock]

theorem Quits.unread {fs : List Bytes} {l₁ : Listener} {block : Bytes} {r : Int} (hr : r ≤ 0)
    (hprinted : l₁.printed = l.printed) (hshut : l₁.clientShutdown = l.clientShutdown)
    (hwhy : none ∈ l.blocks ∨ ∃ f ∈ fs, payloadOf f = []) : Quits fs l (l₁.gotPayload block r) := by
  obtain ⟨hphase,hsame,-,new,hnew,hfree,-⟩ := l₁.gotPayload_short block hr
  refine ⟨hphase,⟨new,by rw [hnew,hprinted],.inr ⟨hfree,.inr ⟨hsame.trans hshut,hwhy⟩⟩⟩,?_⟩
  intro _ hblocks hpayloads
  rcases hwhy with hnone | ⟨f,hf,hempty⟩
  · exact absurd hnone hblocks
  · exact absurd hempty (hpayloads f hf)

theorem gotPayload_frame (l₁ : Listener) (hne : msg ≠ []) (hphase : l₁.phase = .running)
    (hprinted : l₁.printed = l.printed) (hshut : l₁.clientShutdown = l.clientShutdown)
    (hwrites : l₁.writes = l.writes) (hstdout : l₁.stdout = l.stdout)
    (hblocks : ∀ b ∈ l₁.blocks, b ∈ l.blocks) :
    Quits [frame t msg] l (l₁.gotPayload (msg ++ [0]) msg.length) ∨
      (Through [frame t msg] l (l₁.gotPayload (msg ++ [0]) msg.length) ∧
        (l₁.gotPayload (msg ++ [0]) msg.length).input = l₁.input) := by
  have hpos : ¬ ((msg.length : Int) ≤ 0) := by
    have hlong := List.length_pos_iff.mpr hne
    omega
  have hwhole : (msg ++ [0]).take (msg.length : Int).toNat = msg := by
    rw [Int.toNat_natCast,List.take_left' rfl]
  by_cases hnotice : Notice (frame t msg)
  · have htext : cstr (msg ++ [0]) = shutdownText := by simpa [Notice] using hnotice
    obtain ⟨hleft,htrue,hout,new,hnew,-⟩ := l₁.gotPayload_notice hpos htext
    refine .inl ⟨hleft,⟨new,by rw [hnew,hprinted],.inl ⟨_,by simp,hnotice⟩⟩,fun _ _ _ => ?_⟩
    refine ⟨⟨_,by simp,hnotice⟩,?_,htrue⟩
    rw [hout,hstdout,spokenPayloads_notice hnotice]
    simp
  · have htext : cstr (msg ++ [0]) ≠ shutdownText := by simpa [Notice] using hnotice
    have hspoken : spokenPayloads [frame t msg] = [msg] := by
      rw [spokenPayloads_cons hnotice,payloadOf_frame]
      rfl
    rcases l₁.gotPayload_writes hpos htext with ⟨hret,hleft,new,hnew,hmem,hfree⟩ | ⟨-,hnext⟩
    · rw [hwhole,hwrites] at hret
      refine .inl ⟨hleft,⟨new,by rw [hnew,hprinted],.inr ⟨hfree,.inl hmem⟩⟩,fun hall => ?_⟩
      rw [hspoken] at hall
      rw [(takesEach_cons hall).1] at hret
      simp only at hret
      omega
    · rw [hnext,hwhole]
      refine .inr ⟨⟨hphase,by simpa using hnotice,hprinted,hshut,hblocks,fun msgs hall => ?_⟩,rfl⟩
      rw [List.map_singleton,payloadOf_frame,List.singleton_append] at hall
      obtain ⟨htaken,hrest⟩ := takesEach_cons hall
      refine ⟨?_,by rw [hwrites]; exact hrest⟩
      rw [hwrites,htaken,hstdout]
      simp

theorem listenTurn_frame (hphase : l.phase = .running) (hinput : l.input = pieces ++ more)
    (hopen : StaysOpen pieces) (harrived : arrived pieces = frame t msg ++ tail)
    (hlen : msg.length < 2^32) : ∃ l₁, listenTurn l = .ok l₁ ∧ (Quits [frame t msg] l l₁ ∨
      (Through [frame t msg] l l₁ ∧ ∃ rest, l₁.input = rest ++ more ∧ StaysOpen rest ∧
        arrived rest = tail)) := by
  have hsplit : frame t msg = (frame t msg).take headerSize ++ msg := by
    have hparts := List.take_append_drop headerSize (frame t msg)
    rw [show (frame t msg).drop headerSize = msg from payloadOf_frame t msg] at hparts
    exact hparts.symm
  rw [hsplit,List.append_assoc] at harrived
  obtain ⟨header,rest,hturn,hopen₁,harr₁⟩ := listenTurn_header hinput hopen harrived hlen
  refine ⟨_,hturn,?_⟩
  by_cases hblock : l.blocks.headD (some []) = none
  · have hread := listenPayload_noBlock (l := { l with header := header, input := rest ++ more })
      msg.length hblock
    rw [hread]
    exact .inl (.unread (by decide) rfl rfl (.inl (none_mem_blocks hblock)))
  · obtain ⟨rest',hpayload,hopen₂,harr₂⟩ := listenPayload_stored
      (l := { l with header := header, input := rest ++ more }) rfl hopen₁ harr₁ hblock
    rw [hpayload]
    by_cases hempty : msg = []
    · subst hempty
      exact .inl (.unread (by decide) rfl rfl (.inr ⟨_,by simp,payloadOf_frame t []⟩))
    · rcases gotPayload_frame (t := t) (l := l) { l with
          header := header, input := rest' ++ more, blocks := l.blocks.tail } hempty hphase rfl rfl
          rfl rfl (fun b hb => List.mem_of_mem_tail hb) with hleft | ⟨hthrough,hinput'⟩
      · exact .inl hleft
      · exact .inr ⟨hthrough,rest',hinput',hopen₂,harr₂⟩

end Frames

/-- The listener reads frames one after the other until it leaves on one of them or
has read them all. -/
theorem listen_frames {fs : List Bytes} {l : Listener} {pieces more : List RecvRes} {part : Bytes}
    (fuel : Nat) (hphase : l.phase = .running) (hinput : l.input = pieces ++ more)
    (hopen : StaysOpen pieces) (harrived : arrived pieces = fs.flatten ++ part)
    (hfs : ∀ f ∈ fs, ∃ t msg, f = frame t msg ∧ msg.length < 2^32) :
    (∃ l', clientListenLoop (fuel+fs.length) l = .ok l' ∧ Quits fs l l') ∨
      ∃ l₁ rest, clientListenLoop (fuel+fs.length) l = clientListenLoop fuel l₁ ∧
        Through fs l l₁ ∧ l₁.input = rest ++ more ∧ StaysOpen rest ∧ arrived rest = part := by
  induction fs generalizing l pieces with
  | nil => exact .inr ⟨l,pieces,rfl,.nil hphase,hinput,hopen,harrived⟩
  | cons f fs ih =>
    obtain ⟨t,msg,rfl,hlen⟩ := hfs f (by simp)
    rw [List.flatten_cons,List.append_assoc] at harrived
    obtain ⟨l₁,hturn,hafter⟩ := listenTurn_frame hphase hinput hopen harrived hlen
    have hloop : clientListenLoop (fuel+(frame t msg :: fs).length) l =
        if l₁.phase = .running then clientListenLoop (fuel+fs.length) l₁ else .ok l₁ := by
      rw [List.length_cons,← Nat.add_assoc]
      simp only [clientListenLoop,hturn,ok_bind]
      rfl
    rw [hloop]
    rcases hafter with hleft | ⟨hthrough,rest,hinput₁,hopen₁,harr₁⟩
    · rw [if_neg (by rw [hleft.phase]; decide)]
      exact .inl ⟨l₁,rfl,hleft.first⟩
    · rw [if_pos hthrough.phase]
      rcases ih hthrough.phase hinput₁ hopen₁ harr₁
        (fun f' hf' => hfs f' (List.mem_cons_of_mem _ hf')) with
        ⟨l',hrun,hleft⟩ | ⟨l₂,rest',hrun,hthrough',hrest⟩
      · exact .inl ⟨l',hrun,hthrough.quits hleft⟩
      · exact .inr ⟨l₂,rest',hrun,hthrough.trans hthrough',hrest⟩

section Breaks
variable {l : Listener} {pieces more : List RecvRes} {t : UInt8} {msg part : Bytes}

/-- What may stand behind the bytes that arrived: nothing yet, the end of the
stream, or an error. -/
def BreaksOff (more : List RecvRes) : Prop :=
  more = [] ∨ (∃ rest, more = .ended :: rest) ∨ ∃ rest, more = .fails :: rest

theorem BreaksOff.read (h : BreaksOff more) (done : Bytes) {left : Nat} (hleft : left ≠ 0) :
    (more = [] ∧ readAllLoop more done left = .waits done) ∨
      (more.head? = some .ended ∧
        readAllLoop more done left = .returned done done.length more) ∨
      ∃ rest, more.head? = some .fails ∧ readAllLoop more done left = .returned done (-1) rest := by
  rcases h with rfl | ⟨rest,rfl⟩ | ⟨rest,rfl⟩
  · exact .inl ⟨rfl,by simp [readAllLoop,hleft]⟩
  · exact .inr (.inl ⟨rfl,by simp [readAllLoop,hleft]⟩)
  · exact .inr (.inr ⟨rest,rfl,by simp [readAllLoop,hleft]⟩)

structure Halts (reads : Bool) (l l' : Listener) : Prop where
  phase : l'.phase ≠ .running
  stdout : l'.stdout = l.stdout
  shutdown : l'.clientShutdown = l.clientShutdown
  printed : ∃ new, l'.printed = l.printed ++ new ∧ shuttingDown ∉ new ∧
    (couldntRead ∈ new ↔ reads = true)

theorem Halts.leave {l₁ : Listener} (r : Int) (hstdout : l₁.stdout = l.stdout)
    (hshut : l₁.clientShutdown = l.clientShutdown) (hprinted : l₁.printed = l.printed) :
    Halts false l (l₁.leave r) := by
  obtain ⟨new,hnew,hfree,hread⟩ := l₁.leave_printed r
  exact ⟨by simp,by rw [Listener.leave_stdout,hstdout],by rw [Listener.leave_clientShutdown,hshut],
    new,by rw [hnew,hprinted],hfree,by simp [hread]⟩

theorem Halts.short {l₁ : Listener} (block : Bytes) {r : Int} (hr : r ≤ 0)
    (hstdout : l₁.stdout = l.stdout) (hshut : l₁.clientShutdown = l.clientShutdown)
    (hprinted : l₁.printed = l.printed) : Halts true l (l₁.gotPayload block r) := by
  obtain ⟨hphase,hsame,hout,new,hnew,hfree,hread⟩ := l₁.gotPayload_short block hr
  exact ⟨by rw [hphase]; decide,hout.trans hstdout,hsame.trans hshut,
    new,by rw [hnew,hprinted],hfree,by simp [hread]⟩

theorem listenLoop_halts {l₁ : Listener} {reads : Bool} (fuel : Nat)
    (hturn : listenTurn l = .ok l₁) (h : Halts reads l l₁) :
    clientListenLoop (fuel+1) l = .ok l₁ := by
  simp only [clientListenLoop,hturn,ok_bind]
  rw [if_neg h.phase]
  rfl

/-- Less than a header has arrived. At the end of the stream it is read as one,
unless nothing has arrived at all. -/
theorem listenTurn_inHeader (hinput : l.input = pieces ++ more) (hopen : StaysOpen pieces)
    (harrived : arrived pieces = part) (hmore : BreaksOff more) (hshort : part.length < headerSize) :
    ∃ l₁, listenTurn l = .ok l₁ ∧
      Halts (decide (more.head? = some .ended ∧ part ≠ [])) l l₁ := by
  have hread := readAllLoop_short more hopen [] headerSize (by rw [harrived]; exact hshort)
  rw [harrived,List.nil_append,← hinput] at hread
  obtain ⟨header,hwrite,-⟩ := l.header.write_ok (show 0+part.length ≤ headerSize by omega)
  unfold listenTurn readAll
  rw [hread]
  rcases hmore.read part (show headerSize-part.length ≠ 0 by omega) with
    ⟨rfl,hstop⟩ | ⟨hended,hstop⟩ | ⟨rest,hfails,hstop⟩
  · rw [hstop]
    exact ⟨_,rfl,by simp,rfl,rfl,[],by simp,by simp,by simp⟩
  · rw [hstop]
    simp only [hwrite]
    by_cases hnone : part = []
    · subst hnone
      rw [if_pos (by decide),decide_eq_false (by simp)]
      exact ⟨_,rfl,.leave _ rfl rfl rfl⟩
    · have hpos := List.length_pos_iff.mpr hnone
      rw [if_neg (by omega),decide_eq_true ⟨hended,hnone⟩]
      refine ⟨_,rfl,?_⟩
      unfold listenPayload readAll
      simp only
      cases l.blocks.headD (some []) with
      | none => exact .short _ (by decide) rfl rfl rfl
      | some junk =>
        simp only
        by_cases hzero : (parseHeader header.data).msgLen = 0
        · have hnothing : readAllLoop more [] 0 = .returned [] 0 more := by
            unfold readAllLoop
            exact if_pos rfl
          rw [hzero,hnothing]
          exact .short _ (Int.le_refl 0) rfl rfl rfl
        · rcases hmore.read [] hzero with ⟨rfl,-⟩ | ⟨-,hstop'⟩ | ⟨rest,hfails,-⟩
          · cases hended
          · rw [hstop']
            exact .short _ (by simp) rfl rfl rfl
          · rw [hended] at hfails
            cases hfails
  · rw [hstop]
    simp only [hwrite]
    rw [if_pos (by decide),decide_eq_false (by simp [hfails])]
    exact ⟨_,rfl,.leave _ rfl rfl rfl⟩

theorem listenTurn_waits (hopen : StaysOpen l.input)
    (hshort : (arrived l.input).length < headerSize) :
    listenTurn l = .ok { l with phase := .inHeader (arrived l.input) } := by
  have hread := readAllLoop_short [] hopen [] headerSize hshort
  have hleft : headerSize-(arrived l.input).length ≠ 0 := by omega
  rw [List.append_nil,List.nil_append] at hread
  unfold listenTurn readAll
  rw [hread]
  simp only [readAllLoop,if_neg hleft]
  rfl

theorem listenTurn_inPayload (hphase : l.phase = .running) (hinput : l.input = pieces ++ more)
    (hopen : StaysOpen pieces)
    (harrived : arrived pieces = (frame t msg).take headerSize ++ part)
    (hmore : BreaksOff more) (hlen : msg.length < 2^32) (hshort : part.length < msg.length) :
    ∃ l₁, listenTurn l = .ok l₁ ∧ ((∃ reads, Halts reads l l₁ ∧
        (none ∈ l.blocks ∨ more.head? ≠ some .ended ∨ part = [])) ∨
      (more.head? = some .ended ∧ part ≠ [] ∧ ∃ (l₂ : Listener) (junk : Bytes),
        l₁ = l₂.gotPayload (payloadBlock part junk msg.length) part.length ∧
        l₂.phase = .running ∧ l₂.input = more ∧ l₂.writes = l.writes ∧ l₂.stdout = l.stdout ∧
        l₂.clientShutdown = l.clientShutdown ∧ l₂.printed = l.printed)) := by
  obtain ⟨header,rest,hturn,hopen₁,harr₁⟩ := listenTurn_header hinput hopen harrived hlen
  have hread := readAllLoop_short more hopen₁ [] msg.length
    (by rw [harr₁]; exact hshort)
  rw [harr₁,List.nil_append] at hread
  refine ⟨_,hturn,?_⟩
  unfold listenPayload readAll
  simp only [hread]
  cases hblock : l.blocks.headD (some []) with
  | none => exact .inl ⟨true,.short _ (by decide) rfl rfl rfl,.inl (none_mem_blocks hblock)⟩
  | some junk =>
    rcases hmore.read part (show msg.length-part.length ≠ 0 by omega) with
      ⟨rfl,hstop⟩ | ⟨hended,hstop⟩ | ⟨rest',hfails,hstop⟩
    · rw [hstop]
      exact .inl ⟨false,⟨by simp,rfl,rfl,[],by simp,by simp,by simp⟩,.inr (.inl (by simp))⟩
    · rw [hstop]
      by_cases hnone : part = []
      · subst hnone
        exact .inl ⟨true,.short _ (by simp) rfl rfl rfl,.inr (.inr rfl)⟩
      · exact .inr ⟨hended,hnone,{ l with header := header, input := more, blocks := l.blocks.tail },
          junk,rfl,hphase,rfl,rfl,rfl,rfl,rfl⟩
    · rw [hstop]
      exact .inl ⟨true,.short _ (by decide) rfl rfl rfl,.inr (.inl (by simp [hfails]))⟩

/-- At the end of the stream a part of a payload is compared with the notice and
written like a whole one. -/
theorem listen_partial {l₁ l₂ : Listener} {block : Bytes} (fuel : Nat)
    (hturn : listenTurn l = .ok l₁) (hl₁ : l₁ = l₂.gotPayload block part.length)
    (hpart : part ≠ []) (hblock : block.take part.length = part) (hphase : l₂.phase = .running)
    (hinput : l₂.input = more) (hended : more.head? = some .ended) (hwrites : l₂.writes = l.writes)
    (hstdout : l₂.stdout = l.stdout) (hshut : l₂.clientShutdown = l.clientShutdown)
    (hprinted : l₂.printed = l.printed) :
    ∃ l' new, clientListenLoop (fuel+2) l = .ok l' ∧ l'.printed = l.printed ++ new ∧
      ((cstr block = shutdownText ∧ shuttingDown ∈ new) ∨
        (cstr block ≠ shutdownText ∧ shuttingDown ∉ new ∧
          (l'.clientShutdown = l.clientShutdown ∨ couldntWrite ∈ new) ∧
          (takesEach l.writes [part] = true → l'.stdout = l.stdout ++ part))) := by
  have hpos : ¬ ((part.length : Int) ≤ 0) := by
    have hlong := List.length_pos_iff.mpr hpart
    omega
  have hleaves : l₁.phase = .left → clientListenLoop (fuel+2) l = .ok l₁ := by
    intro hleft
    simp only [clientListenLoop,hturn,ok_bind]
    rw [if_neg (by rw [hleft]; decide)]
    rfl
  by_cases htext : cstr block = shutdownText
  · obtain ⟨hleft,-,-,new,hnew,hmem⟩ := l₂.gotPayload_notice hpos htext
    rw [← hl₁] at hleft hnew
    exact ⟨l₁,new,hleaves hleft,by rw [hnew,hprinted],.inl ⟨htext,hmem⟩⟩
  · rcases l₂.gotPayload_writes hpos htext with ⟨hret,hleft,new,hnew,hmem,hfree⟩ | ⟨-,hnext⟩
    · rw [← hl₁] at hleft hnew
      refine ⟨l₁,new,hleaves hleft,by rw [hnew,hprinted],.inr ⟨htext,hfree,.inr hmem,fun hall => ?_⟩⟩
      rw [Int.toNat_natCast,hblock,hwrites,(takesEach_cons hall).1] at hret
      simp only at hret
      omega
    · rw [Int.toNat_natCast,hblock,hwrites,hstdout,← hl₁] at hnext
      have hinput₁ : l₁.input = [] ++ more := by rw [hnext]; exact hinput
      have hends : BreaksOff more := by
        cases more with
        | nil => cases hended
        | cons r rest => exact .inr (.inl ⟨rest,by cases hended; rfl⟩)
      obtain ⟨l',hturn',hhalts⟩ := listenTurn_inHeader hinput₁ ⟨by simp,by simp⟩ rfl hends
        (by decide)
      obtain ⟨new,hnew,hfree,-⟩ := hhalts.printed
      refine ⟨l',new,?_,?_,.inr ⟨htext,hfree,.inl ?_,fun hall => ?_⟩⟩
      · have hgoes : l₁.phase = .running := by rw [hnext]; exact hphase
        simp only [clientListenLoop,hturn,ok_bind,if_pos hgoes]
        exact listenLoop_halts fuel hturn' hhalts
      · rw [hnew,hnext,← hprinted]
      · rw [hhalts.shutdown,hnext,← hshut]
      · rw [hhalts.stdout,hnext,(takesEach_cons hall).1]

theorem part_cases (hpart : part <+: frame t msg) (hproper : part ≠ frame t msg) :
    part.length < headerSize ∨ ∃ tail, part = (frame t msg).take headerSize ++ tail ∧
      tail <+: msg ∧ tail.length < msg.length := by
  by_cases hshort : part.length < headerSize
  · exact .inl hshort
  · right
    have hlt : part.length < (frame t msg).length :=
      lt_of_le_of_ne hpart.length_le (fun he => hproper (hpart.eq_of_length he))
    rw [frame_length] at hlt
    have htake : part.take headerSize = (frame t msg).take headerSize := by
      obtain ⟨rest,hrest⟩ := hpart
      rw [← hrest,List.take_append_of_le_length (by omega)]
    refine ⟨part.drop headerSize,by rw [← htake,List.take_append_drop],?_,?_⟩
    · obtain ⟨rest,hrest⟩ := hpart
      refine ⟨rest,?_⟩
      rw [← List.drop_append_of_le_length (by omega),hrest]
      exact payloadOf_frame t msg
    · rw [List.length_drop]
      omega

end Breaks

theorem flatten_cut {fs : List Bytes} {front back : Bytes} (h : front ++ back = fs.flatten) :
    ∃ n part, front = (fs.take n).flatten ++ part ∧
      (part = [] ∨ ∃ f, fs[n]? = some f ∧ part <+: f ∧ part ≠ f) ∧
        (back = [] → fs.length ≤ n) := by
  induction fs generalizing front with
  | nil =>
    obtain ⟨rfl,-⟩ := List.append_eq_nil_iff.mp h
    exact ⟨0,[],rfl,.inl rfl,fun _ => Nat.le_refl 0⟩
  | cons f fs ih =>
    rw [List.flatten_cons] at h
    rcases List.append_eq_append_iff.mp h with ⟨rest,hf,hback⟩ | ⟨more,rfl,hmore⟩
    · by_cases hrest : rest = []
      · subst hrest
        rw [List.append_nil] at hf
        obtain ⟨n,part,hfront,hpart,hall⟩ := ih (show [] ++ back = fs.flatten from hback)
        refine ⟨n+1,part,?_,?_,fun hb => Nat.succ_le_succ (hall hb)⟩
        · rw [List.take_succ_cons,List.flatten_cons,List.append_assoc,← hfront,hf,List.append_nil]
        · exact hpart
      · refine ⟨0,front,rfl,.inr ⟨f,rfl,⟨rest,hf.symm⟩,?_⟩,?_⟩
        · intro he
          have hlen := congrArg List.length hf
          rw [he,List.length_append] at hlen
          exact hrest (List.eq_nil_of_length_eq_zero (by omega))
        · intro hb
          rw [hback] at hb
          exact absurd (List.append_eq_nil_iff.mp hb).1 hrest
    · obtain ⟨n,part,hfront,hpart,hall⟩ := ih hmore.symm
      refine ⟨n+1,part,?_,?_,fun hb => Nat.succ_le_succ (hall hb)⟩
      · rw [List.take_succ_cons,List.flatten_cons,List.append_assoc,← hfront]
      · exact hpart

theorem cut_exact {fs : List Bytes} {part : Bytes} {n : Nat} (hne : [] ∉ fs)
    (hpart : part = [] ∨ ∃ f, fs[n]? = some f ∧ part <+: f ∧ part ≠ f) {f : Bytes}
    (hf : fs[n]? = some f) : ¬ (fs.take (n+1)).flatten <+: (fs.take n).flatten ++ part := by
  intro hall
  rw [List.take_add_one,hf,List.flatten_append,List.prefix_append_right_inj] at hall
  simp only [Option.toList_some,List.flatten_singleton] at hall
  rcases hpart with rfl | ⟨g,hg,hpre,hproper⟩
  · exact hne (List.prefix_nil.mp hall ▸ List.mem_of_getElem? hf)
  · rw [hf] at hg
    cases hg
    exact hproper (hpre.eq_of_length_le hall.length_le)

theorem length_le_flatten {fs : List Bytes} (h : [] ∉ fs) : fs.length ≤ fs.flatten.length := by
  induction fs with
  | nil => simp
  | cons f fs ih =>
    have hf := List.length_pos_iff.mpr (List.ne_of_not_mem_cons h).symm
    have hrest := ih (List.not_mem_of_not_mem_cons h)
    simp only [List.length_cons,List.flatten_cons,List.length_append]
    omega

/-- Enough turns for the frames, and one more than there are bytes behind them. -/
theorem listen_fuel (more : List RecvRes) {pieces : List RecvRes} {fs : List Bytes} {part : Bytes}
    (hopen : StaysOpen pieces) (harrived : arrived pieces = fs.flatten ++ part)
    (hfs : ∀ f ∈ fs, ∃ t msg, f = frame t msg ∧ msg.length < 2^32) :
    ∃ n, (arrived (pieces ++ more)).length+1 = n+part.length+1+fs.length := by
  have hnil : [] ∉ fs := by
    intro hmem
    obtain ⟨t,msg,hframe,-⟩ := hfs [] hmem
    exact frame_ne_nil t msg hframe.symm
  have hle := length_le_flatten hnil
  rw [arrived_append hopen,harrived,List.length_append,List.length_append]
  exact ⟨fs.flatten.length-fs.length+(arrived more).length,by omega⟩

/-- What the listener has done when a stream breaks off behind `part`, the beginning
of one more frame: it has written the payloads of the complete frames up to a
notice and nothing else, has taken nothing else for a notice, and has not asked
for the payload of a header that is not complete. -/
structure Exact (fs : List Bytes) (part : Bytes) (l l' : Listener) : Prop where
  stdout : l'.stdout = l.stdout ++ (spokenPayloads fs).flatten
  printed : ∃ new, l'.printed = l.printed ++ new ∧ ((∀ f ∈ fs, ¬ Notice f) →
    shuttingDown ∉ new ∧ (part.length < headerSize → couldntRead ∉ new))

theorem Through.exact {fs : List Bytes} {part : Bytes} {l l₁ l' : Listener} {reads : Bool}
    (h : Through fs l l₁) (hhalts : Halts reads l₁ l')
    (hall : takesEach l.writes (spokenPayloads fs) = true) :
    Exact fs part l l' ↔ (part.length < headerSize → reads = false) := by
  have hspoken := h.spoken_all
  obtain ⟨new,hnew,hfree,hread⟩ := hhalts.printed
  have hout := (h.stdout [] (by rw [List.append_nil,← hspoken]; exact hall)).1
  constructor
  · intro hexact hshort
    obtain ⟨new',hnew',hkeeps⟩ := hexact.printed
    rw [hnew,h.printed] at hnew'
    obtain rfl := List.append_cancel_left hnew'
    have hnot := (hkeeps h.unlike).2 hshort
    rw [hread] at hnot
    simpa using hnot
  · intro hreads
    refine ⟨by rw [hhalts.stdout,hout,hspoken],new,by rw [hnew,h.printed],fun _ => ⟨hfree,?_⟩⟩
    intro hshort
    rw [hread,hreads hshort]
    decide

theorem takes_le {writes rest : List SendRes} {n m : Nat} (h : takes writes n = some rest)
    (hle : m ≤ n) : ∃ rest', takes writes m = some rest' := by
  induction writes generalizing n m with
  | nil =>
    cases n with
    | zero => exact ⟨[],by simp [show m = 0 by omega,takes]⟩
    | succ n => cases h
  | cons r writes ih =>
    cases m with
    | zero => exact ⟨_,rfl⟩
    | succ m =>
      cases n with
      | zero => omega
      | succ n =>
        cases r with
        | accepts k =>
          simp only [takes] at h ⊢
          by_cases hk : k = 0
          · simp [hk] at h
          · rw [if_neg hk] at h ⊢
            exact ih h (by omega)
        | interrupted => exact ih h hle
        | wouldBlock => cases h
        | fails => cases h

theorem takesEach_part {writes : List SendRes} {msg part : Bytes}
    (h : takesEach writes [msg] = true) (hle : part.length ≤ msg.length) :
    takesEach writes [part] = true := by
  cases htakes : takes writes msg.length with
  | none => simp [takesEach,htakes] at h
  | some rest =>
    obtain ⟨rest',hrest⟩ := takes_le htakes hle
    simp [takesEach,hrest]

theorem payloadBlock_take {part junk : Bytes} {msgLen : Nat} (h : part.length ≤ msgLen) :
    (payloadBlock part junk msgLen).take part.length = part := by
  unfold payloadBlock
  have hlen : part.length ≤
      (List.take msgLen (part ++ junk.drop part.length ++ List.replicate msgLen 0)).length := by
    simp only [List.length_take,List.length_append,List.length_replicate]
    omega
  rw [List.take_append_of_le_length hlen,List.take_take,Nat.min_eq_left h,List.append_assoc,
    List.take_left' rfl]

theorem takesEach_append {writes : List SendRes} {msgs more : List Bytes}
    (h : takesEach writes (msgs ++ more) = true) : takesEach writes msgs = true := by
  induction msgs generalizing writes with
  | nil => rfl
  | cons msg msgs ih =>
    rw [List.cons_append] at h
    unfold takesEach at h ⊢
    cases htakes : takes writes msg.length with
    | none => simp [htakes] at h
    | some rest =>
      simp only [htakes] at h ⊢
      exact ih h

/-- A stream of frames that breaks off at any byte. The listener acts on the complete
frames alone unless the stream ends inside a header or inside a payload. -/
theorem listener_exact_iff {l : Listener} {pieces more : List RecvRes} {stop : RecvRes}
    {fs : List Bytes} {t : UInt8} {msg part : Bytes} (hphase : l.phase = .running)
    (hinput : l.input = pieces ++ stop :: more) (hopen : StaysOpen pieces)
    (hstop : stop = .ended ∨ stop = .fails) (harrived : arrived pieces = fs.flatten ++ part)
    (hfs : ∀ f ∈ fs, ∃ t msg, f = frame t msg ∧ msg.length < 2^32 ∧ msg ≠ [])
    (hlen : msg.length < 2^32) (hpart : part <+: frame t msg) (hproper : part ≠ frame t msg)
    (hblocks : none ∉ l.blocks) (hwrites : takesEach l.writes (spokenPayloads fs ++ [msg]) = true) :
    ∃ l', clientListen l = .ok l' ∧ (Exact fs part l l' ↔
      ((∃ f ∈ fs, Notice f) ∨ stop = .fails ∨ part = [] ∨ part.length = headerSize)) := by
  have hframes : ∀ f ∈ fs, ∃ t msg, f = frame t msg ∧ msg.length < 2^32 := by
    intro f hf
    obtain ⟨t,msg,hframe,hlen,-⟩ := hfs f hf
    exact ⟨t,msg,hframe,hlen⟩
  have hspoken : takesEach l.writes (spokenPayloads fs) = true := takesEach_append hwrites
  have hends : BreaksOff (stop :: more) := by
    rcases hstop with rfl | rfl
    · exact .inr (.inl ⟨more,rfl⟩)
    · exact .inr (.inr ⟨more,rfl⟩)
  obtain ⟨n,hfuel⟩ := listen_fuel (stop :: more) hopen harrived hframes
  unfold clientListen
  rw [hinput,hfuel]
  rcases listen_frames (n+part.length+1) hphase hinput hopen harrived hframes with
    ⟨l',hrun,hleft⟩ | ⟨l₁,rest,hrun,hthrough,hinput₁,hopen₁,harr₁⟩
  · -- the loop was left in front of the place where the stream breaks off
    obtain ⟨new,hnew,-⟩ := hleft.cause
    obtain ⟨⟨f,hf,hnotice⟩,hout,-⟩ := hleft.whole hspoken hblocks (fun f hf => by
      obtain ⟨t,msg,rfl,-,hne⟩ := hfs f hf
      rw [payloadOf_frame]
      exact hne)
    exact ⟨l',hrun,iff_of_true ⟨hout,new,hnew,fun hnone => absurd hnotice (hnone f hf)⟩
      (.inl ⟨f,hf,hnotice⟩)⟩
  · have hunlike : ¬ ∃ f ∈ fs, Notice f := fun ⟨f,hf,hnotice⟩ => hthrough.unlike f hf hnotice
    rw [hrun]
    rcases part_cases hpart hproper with hshort | ⟨tail,rfl,htail,hlt⟩
    · obtain ⟨l',hturn,hhalts⟩ := listenTurn_inHeader hinput₁ hopen₁ harr₁ hends hshort
      refine ⟨l',listenLoop_halts _ hturn hhalts,?_⟩
      rw [hthrough.exact hhalts hspoken]
      rcases hstop with rfl | rfl
      · simp [hunlike,hshort,Nat.ne_of_lt hshort]
      · simp [hshort]
    · have hheader : ((frame t msg).take headerSize).length = headerSize := by
        rw [List.length_take,frame_length]
        omega
      have hpartLen : ((frame t msg).take headerSize ++ tail).length = headerSize+tail.length := by
        rw [List.length_append,hheader]
      obtain ⟨l₂,hturn,hafter⟩ :=
        listenTurn_inPayload hthrough.phase hinput₁ hopen₁ harr₁ hends hlen hlt
      rcases hafter with ⟨reads,hhalts,hwhy⟩ | ⟨hended,hne,l₃,junk,hl₂,hphase₃,hinput₃,hwrites₃,
        hout₃,hshut₃,hprinted₃⟩
      · refine ⟨l₂,listenLoop_halts _ hturn hhalts,?_⟩
        rw [hthrough.exact hhalts hspoken,hpartLen]
        refine iff_of_true (fun hshort => by omega) (.inr ?_)
        rcases hwhy with hnone | hopen | hempty
        · exact absurd (hthrough.blocks _ hnone) hblocks
        · exact .inl (hstop.resolve_left (fun he => hopen (by rw [he]; rfl)))
        · exact .inr (.inr (by rw [hempty,List.length_nil,Nat.add_zero]))
      · have hpos := List.length_pos_iff.mpr hne
        obtain ⟨m,hm⟩ : ∃ m, n+((frame t msg).take headerSize ++ tail).length+1 = m+2 :=
          ⟨n+headerSize+tail.length-1,by rw [hpartLen]; omega⟩
        obtain ⟨l',new,hrun',hnew,hcase⟩ := listen_partial m hturn hl₂ hne
          (payloadBlock_take (Nat.le_of_lt hlt)) hphase₃ hinput₃ hended hwrites₃ hout₃ hshut₃
          hprinted₃
        rw [hm]
        refine ⟨l',hrun',iff_of_false (fun hexact => ?_) ?_⟩
        · have hmap := hthrough.spoken_all
          rw [hmap] at hwrites
          obtain ⟨hout₁,htakes⟩ := hthrough.stdout _ hwrites
          rcases hcase with ⟨-,hmem⟩ | ⟨-,-,-,hwritten⟩
          · obtain ⟨new',hnew',hfree⟩ := hexact.printed
            rw [hnew,hthrough.printed] at hnew'
            obtain rfl := List.append_cancel_left hnew'
            exact (hfree hthrough.unlike).1 hmem
          · have hout := hwritten (takesEach_part htakes (Nat.le_of_lt hlt))
            rw [hexact.stdout,hout₁,hmap,List.self_eq_append_right] at hout
            exact hne hout
        · rintro (hnotice | hfails | hempty | hlong)
          · exact hunlike hnotice
          · rw [hfails] at hended
            cases hended
          · rw [hempty] at hpartLen
            simp only [List.length_nil] at hpartLen
            omega
          · omega

def Listener.start (input : List RecvRes) (writes : List SendRes) : Listener where
  input := input
  blocks := []
  writes := writes
  header := .zero headerSize
  clientShutdown := false
  stdout := []
  printed := []
  phase := .running

def listens (l : Listener) (test : Listener → Bool) : Bool :=
  match clientListen l with
  | .ok l' => test l'
  | .error _ => false

theorem listens_ok {l : Listener} {test : Listener → Bool} (h : listens l test = true) :
    ∃ l', clientListen l = .ok l' ∧ test l' = true := by
  unfold listens at h
  split at h
  · rename_i l' hl'
    exact ⟨l',hl',h⟩
  · cases h

def Listener.cut (part : Bytes) : Listener :=
  .start [.data (frame 0 (ascii "hello")),.data part,.ended] [.accepts 9,.accepts 9]

theorem listener_exact_iff_header : ∃ l',
    clientListen (.cut ((frame 0 (ascii "world")).take headerSize)) = .ok l' ∧
      Exact [frame 0 (ascii "hello")] ((frame 0 (ascii "world")).take headerSize)
        (.cut ((frame 0 (ascii "world")).take headerSize)) l' := by
  have hinput : (Listener.cut ((frame 0 (ascii "world")).take headerSize)).input =
      [.data (frame 0 (ascii "hello")),.data ((frame 0 (ascii "world")).take headerSize)] ++
        .ended :: [] := rfl
  have harrived : arrived [.data (frame 0 (ascii "hello")),
      .data ((frame 0 (ascii "world")).take headerSize)] =
        [frame 0 (ascii "hello")].flatten ++ (frame 0 (ascii "world")).take headerSize := by
    decide
  obtain ⟨l',hrun,hexact⟩ := listener_exact_iff rfl hinput ⟨by decide,by decide⟩ (.inl rfl) harrived
    (fun f hf => ⟨0,ascii "hello",List.mem_singleton.mp hf,by decide,by decide⟩)
    (by decide) (List.take_prefix _ _) (by decide) (by decide) (by decide)
  exact ⟨l',hrun,hexact.mpr (.inr (.inr (.inr (by decide))))⟩

/-- The stream ends inside a payload, and its first letters are written. -/
theorem listener_inexact : ∃ l', clientListen (.cut ((frame 0 (ascii "world")).take 9)) = .ok l' ∧
    l'.stdout = ascii "hellowor" ∧ ¬ Exact [frame 0 (ascii "hello")]
      ((frame 0 (ascii "world")).take 9) (.cut ((frame 0 (ascii "world")).take 9)) l' := by
  obtain ⟨l',hrun,htest⟩ := listens_ok
    (show listens (.cut ((frame 0 (ascii "world")).take 9)) (fun l' =>
      decide (l'.stdout = ascii "hellowor")) = true by decide)
  have hout := of_decide_eq_true htest
  refine ⟨l',hrun,hout,fun hexact => ?_⟩
  rw [hexact.stdout] at hout
  revert hout
  decide

end ChatServer
