import ChatServer.Bystander

/-! What the functions of the server leave of the clients' records: only the
reader of the client that is read from works, whatever the state of the heaps,
and a reader that has returned waits for bytes. -/
set_option autoImplicit false

namespace ChatServer
open ByteString Memory Execution

/-- What every value returned satisfies, when faults do not matter. -/
abbrev Always {α : Type} (x : Except Fault α) (Q : α → Prop) : Prop := Holds (fun _ => True) x Q

theorem Always.trivial {α : Type} (x : Except Fault α) : Always x (fun _ => True) := by
  cases x <;> exact True.intro

theorem Always.intro {α : Type} {x : Except Fault α} {Q : α → Prop}
    (h : ∀ a, x = .ok a → Q a) : Always x Q := by
  cases x with
  | error e => exact True.intro
  | ok a => exact h a rfl

theorem client_got (w : World) (p : Nat) :
    Always (w.client p) (fun c => w.clients.get p = some c) := by
  unfold World.client
  cases w.clients.get p with
  | none => exact True.intro
  | some c => rfl

theorem client_eq_some {w : World} {p : Nat} {c : ClientInfo} (h : w.client p = .ok c) :
    w.clients.get p = some c := (client_got w p).of_ok h

def Untouched (c c' : ClientInfo) : Prop :=
  c'.reading = c.reading ∧ (c.closed = true → c'.closed = true)

theorem Untouched.refl (c : ClientInfo) : Untouched c c := ⟨rfl,id⟩

structure Alike (w w' : World) : Prop where
  clients : w'.clients = w.clients
  list : w'.clientList = w.clientList

theorem Alike.trans {w w' w'' : World} (h : Alike w w') (h' : Alike w' w'') : Alike w w'' :=
  ⟨h'.clients.trans h.clients,h'.list.trans h.list⟩

/-- From `w` to `w'` no record was added and nobody was listed, and all records
but that of `p` are untouched. -/
structure Keeps (p : Option Nat) (w w' : World) : Prop where
  list : ∀ q ∈ w'.clientList, q ∈ w.clientList
  records : ∀ q c', w'.clients.get q = some c' → ∃ c, w.clients.get q = some c ∧
    (some q ≠ p → Untouched c c')

namespace Keeps
variable {p : Option Nat} {w w' w'' : World}

theorem of_alike (h : Alike w w') : Keeps p w w' := by
  refine ⟨fun q hq => by rwa [h.list] at hq,?_⟩
  intro q c' hc'
  rw [h.clients] at hc'
  exact ⟨c',hc',fun _ => .refl c'⟩

theorem refl (w : World) : Keeps p w w := of_alike ⟨rfl,rfl⟩

theorem trans (h : Keeps p w w') (h' : Keeps p w' w'') : Keeps p w w'' := by
  refine ⟨fun q hq => h.list q (h'.list q hq),?_⟩
  intro q c'' hc''
  obtain ⟨c',hc',hu'⟩ := h'.records q c'' hc''
  obtain ⟨c,hc,hu⟩ := h.records q c' hc'
  refine ⟨c,hc,fun hne => ?_⟩
  have h₁ := hu hne
  have h₂ := hu' hne
  exact ⟨h₂.1.trans h₁.1,fun hclosed => h₂.2 (h₁.2 hclosed)⟩

theorem weaken (h : Keeps none w w') : Keeps p w w' := by
  refine ⟨h.list,?_⟩
  intro q c' hc'
  obtain ⟨c,hc,hu⟩ := h.records q c' hc'
  exact ⟨c,hc,fun _ => hu (by simp)⟩

theorem put {t : Nat} {c c' : ClientInfo} (hc : w.clients.get t = some c)
    (hput : w'.clients = w.clients.set t c') (hlist : w'.clientList = w.clientList)
    (h : some t ≠ p → Untouched c c') : Keeps p w w' := by
  refine ⟨fun q hq => by rwa [hlist] at hq,?_⟩
  intro q i hi
  rw [hput] at hi
  by_cases hqt : q = t
  · subst hqt
    rw [Heap.get_set_self] at hi
    cases hi
    exact ⟨c,hc,h⟩
  · rw [Heap.get_set_of_ne _ _ hqt] at hi
    exact ⟨i,hi,fun _ => .refl i⟩

theorem foldlM {α : Type} {f : World → α → Except Fault World} (l : List α)
    (hf : ∀ w a, Always (f w a) (Keeps p w)) (w : World) : Always (l.foldlM f w) (Keeps p w) := by
  induction l generalizing w with
  | nil => exact refl w
  | cons a l ih =>
    rw [List.foldlM_cons]
    refine (hf w a).bind ?_
    intro w₁ h₁
    exact (ih w₁).mono (fun w₂ h₂ => h₁.trans h₂)

end Keeps

/-- From `w` to `w'` the record of `p` got other flags or another queue, and
nothing else of the list, the mutex and the records changed. -/
structure Confined (p : Nat) (w w' : World) : Prop where
  list : w'.clientList = w.clientList
  mutex : w'.clientMutex = w.clientMutex
  others : ∀ q, q ≠ p → w'.clients.get q = w.clients.get q
  own : ∀ c', w'.clients.get p = some c' → ∃ c, w.clients.get p = some c ∧ Untouched c c'

namespace Confined
variable {p : Nat} {w w' w'' : World}

theorem of_alike (h : Alike w w') (hmutex : w'.clientMutex = w.clientMutex) :
    Confined p w w' := by
  refine ⟨h.list,hmutex,fun q _ => by rw [h.clients],fun c' hc' => ?_⟩
  rw [h.clients] at hc'
  exact ⟨c',hc',.refl c'⟩

theorem refl (w : World) : Confined p w w := of_alike ⟨rfl,rfl⟩ rfl

theorem trans (h : Confined p w w') (h' : Confined p w' w'') : Confined p w w'' := by
  refine ⟨h'.list.trans h.list,h'.mutex.trans h.mutex,
    fun q hq => (h'.others q hq).trans (h.others q hq),fun c'' hc'' => ?_⟩
  obtain ⟨c',hc',hu'⟩ := h'.own c'' hc''
  obtain ⟨c,hc,hu⟩ := h.own c' hc'
  exact ⟨c,hc,hu'.1.trans hu.1,fun hclosed => hu'.2 (hu.2 hclosed)⟩

theorem put {c c' : ClientInfo} (hc : w.clients.get p = some c)
    (hput : w'.clients = w.clients.set p c') (hlist : w'.clientList = w.clientList)
    (hmutex : w'.clientMutex = w.clientMutex) (hu : Untouched c c') : Confined p w w' := by
  refine ⟨hlist,hmutex,fun q hq => ?_,fun i hi => ?_⟩
  · rw [hput,Heap.get_set_of_ne _ _ hq]
  · rw [hput,Heap.get_set_self] at hi
    cases hi
    exact ⟨c,hc,hu⟩

theorem keeps (h : Confined p w w') : Keeps none w w' := by
  refine ⟨fun q hq => by rwa [h.list] at hq,fun q c' hc' => ?_⟩
  by_cases hqp : q = p
  · subst hqp
    obtain ⟨c,hc,hu⟩ := h.own c' hc'
    exact ⟨c,hc,fun _ => hu⟩
  · rw [h.others q hqp] at hc'
    exact ⟨c',hc',fun _ => .refl c'⟩

end Confined

abbrev Confines {α : Type} (p : Nat) (w : World) (x : Except Fault α) (world : α → World) :
    Prop :=
  Holds (fun e => e ≠ .deadlock) x (fun a => Confined p w (world a))

theorem Confines.keeps {α : Type} {p : Nat} {w : World} {x : Except Fault α} {world : α → World}
    (h : Confines p w x world) : Always x (fun a => Keeps none w (world a)) :=
  h.weaken (fun _ _ => True.intro) (fun _ ha => ha.keeps)

abbrev Lookup {α : Type} (x : Except Fault α) : Prop :=
  Holds (fun e => e ≠ .deadlock) x (fun _ => True)

section Writing
variable (w : World) (p : Nat)

theorem client_lookup : Holds (fun e => e ≠ .deadlock) (w.client p)
    (fun c => w.clients.get p = some c) := by
  unfold World.client
  cases w.clients.get p with
  | none => exact fun h => by cases h
  | some c => rfl

theorem packet_lookup (a : Nat) : Lookup (w.packet a) := by
  unfold World.packet
  cases w.packets.get a with
  | none => exact fun h => by cases h
  | some m => exact True.intro

theorem sock_lookup (fd : Nat) : Lookup (w.sock fd) := by
  unfold World.sock
  cases w.socks.get fd with
  | none => exact fun h => by cases h
  | some k => exact True.intro

theorem note_alike (o : Obs) : Always (w.note p o) (Alike w) := by
  unfold World.note
  refine (Always.trivial _).bind (fun c _ => ?_)
  refine (Always.trivial _).bind (fun k _ => ?_)
  exact ⟨rfl,rfl⟩

theorem note_confined (o : Obs) : Confines p w (w.note p o) id := by
  unfold World.note
  refine (client_lookup w p).bind (fun c _ => ?_)
  refine (sock_lookup w c.clientFd).bind (fun k _ => ?_)
  exact .of_alike ⟨rfl,rfl⟩ rfl

theorem markClosed_confined : Confines p w (markClosed w p) id := by
  unfold markClosed
  refine (client_lookup w p).bind (fun c hc => ?_)
  refine (note_confined _ p .markedClosed).mono (fun w' hw' => ?_)
  have hput : Confined p w (w.putClient p { c with closed := true }) :=
    .put hc rfl rfl rfl ⟨rfl,fun _ => rfl⟩
  exact hput.trans hw'

theorem setEpollout_confined (on : Bool) : Confines p w (setEpollout on w p) id := by
  unfold setEpollout
  refine (client_lookup w p).bind (fun c hc => ?_)
  by_cases he : c.epolloutEnabled = on
  · rw [if_pos he]
    exact Confined.refl w
  · rw [if_neg he]
    refine (sock_lookup w c.clientFd).bind (fun k _ => ?_)
    simp only
    split
    · exact Confined.put hc rfl rfl rfl ⟨rfl,id⟩
    · exact Confined.put hc rfl rfl rfl (.refl c)

theorem clientTryWriteLoop_confined (fuel : Nat) (w : World) :
    Confines p w (clientTryWriteLoop fuel w p) Prod.fst := by
  induction fuel generalizing w with
  | zero => exact fun h => by cases h
  | succ fuel ih =>
    unfold clientTryWriteLoop
    refine (client_lookup w p).bind (fun c hc => ?_)
    have hagain : ∀ (w₁ : World) (c' : ClientInfo), w₁.clients = w.clients.set p c' →
        w₁.clientList = w.clientList → w₁.clientMutex = w.clientMutex → Untouched c c' →
        Confines p w (clientTryWriteLoop fuel w₁ p) Prod.fst :=
      fun w₁ c' hput hlist hmutex hu =>
        (ih w₁).mono (fun res hres => (Confined.put hc hput hlist hmutex hu).trans hres)
    split
    · exact (setEpollout_confined w p false).bind (fun w₁ h₁ => h₁)
    · refine (packet_lookup w _).bind (fun m _ => ?_)
      refine (sock_lookup w c.clientFd).bind (fun k _ => ?_)
      simp only
      split
      · exact Confined.put hc rfl rfl rfl (.refl c)
      · split
        · exact hagain _ _ rfl rfl rfl ⟨rfl,id⟩
        · exact hagain _ _ rfl rfl rfl ⟨rfl,id⟩
      · exact Confined.put hc rfl rfl rfl (.refl c)
      · exact hagain _ _ rfl rfl rfl (.refl c)
      · exact Confined.put hc rfl rfl rfl (.refl c)

theorem clientTryWrite_confined : Confines p w (clientTryWrite w p) Prod.fst := by
  unfold clientTryWrite
  refine (client_lookup w p).bind (fun c _ => ?_)
  refine (sock_lookup w c.clientFd).bind (fun k _ => ?_)
  exact clientTryWriteLoop_confined p _ w

theorem createPacket_confined (header : MsgHeader) (payload : Bytes) :
    Confines p w (createPacket w p header payload) Prod.fst := by
  unfold createPacket
  refine (client_lookup w p).bind (fun c _ => ?_)
  refine (sock_lookup w c.clientFd).bind (fun k _ => ?_)
  simp only
  split
  · split <;> exact .of_alike ⟨rfl,rfl⟩ rfl
  · exact .of_alike ⟨rfl,rfl⟩ rfl

theorem clientEnqueueMsgPacket_confined (packet : Option Nat) (limit : Nat) :
    Confines p w (clientEnqueueMsgPacket w p packet limit) Prod.fst := by
  unfold clientEnqueueMsgPacket
  split
  · exact Confined.refl w
  · refine (client_lookup w p).bind (fun c hc => ?_)
    refine (packet_lookup w _).bind (fun m _ => ?_)
    split
    · exact Confined.refl w
    · split
      · exact Confined.refl w
      · have hput : ∀ (g : Heap MsgPacket) (q : MsgQueue),
            Confined p w ({ w with packets := g }.putClient p { c with msgQueue := q }) :=
          fun g q => .put hc rfl rfl rfl ⟨rfl,id⟩
        simp only
        split
        · refine (packet_lookup w _).bind (fun last _ => ?_)
          refine (note_confined _ p _).bind (fun w₂ h₂ => ?_)
          exact (hput _ _).trans h₂
        · refine (note_confined _ p _).bind (fun w₂ h₂ => ?_)
          exact (hput w.packets _).trans h₂

theorem noteOffer_confined (sender : Option Nat) (len : Nat) :
    Confines p w (noteOffer w p sender len) id := by
  unfold noteOffer
  refine (client_lookup w p).bind (fun c _ => ?_)
  refine (sock_lookup w c.clientFd).bind (fun k _ => ?_)
  exact note_confined w p _

theorem arm_confined : Confines p w (do
    let c ← w.client p
    if c.msgQueue.head ≠ none then enableEpolloutForClient w p else pure w) id := by
  refine (client_lookup w p).bind (fun c _ => ?_)
  split
  · exact setEpollout_confined w p true
  · exact Confined.refl w

theorem broadcastTo_confined (sender : Option Nat) (header : MsgHeader) (msg : Bytes) :
    Confines p w (broadcastTo sender header msg w p) id := by
  unfold broadcastTo
  refine (noteOffer_confined w p sender msg.length).bind (fun w₁ h₁ => ?_)
  split
  · exact h₁
  · refine (client_lookup w₁ p).bind (fun c _ => ?_)
    split
    · exact h₁
    · refine (createPacket_confined w₁ p header msg).bind ?_
      rintro ⟨w₂,packet⟩ h₂
      have hpacket : Confined p w w₂ := Confined.trans h₁ h₂
      cases packet with
      | none => exact hpacket
      | some a =>
        simp only
        refine (clientEnqueueMsgPacket_confined w₂ p (some a) msgSizeLimit).bind ?_
        rintro ⟨w₃,r⟩ h₃
        have hqueue : Confined p w (if r = -1 then w₃.freePacket a else w₃) := by
          split
          · exact (hpacket.trans h₃).trans (.of_alike ⟨rfl,rfl⟩ rfl)
          · exact hpacket.trans h₃
        simp only
        refine (client_lookup _ p).bind (fun c₃ _ => ?_)
        have harm : ∀ w₄, Confined p w w₄ → Confines p w (do
            let c ← w₄.client p
            if c.msgQueue.head ≠ none then enableEpolloutForClient w₄ p else pure w₄) id :=
          fun w₄ h₄ => (arm_confined w₄ p).mono (fun w₅ h₅ => h₄.trans h₅)
        split
        · refine (clientTryWrite_confined _ p).bind ?_
          rintro ⟨w₄,r'⟩ h₄
          simp only
          split
          · exact (markClosed_confined w₄ p).bind
              (fun w₅ h₅ => harm w₅ ((hqueue.trans h₄).trans h₅))
          · exact harm w₄ (hqueue.trans h₄)
        · exact harm _ hqueue

/-- The loop of `broadcast` changes the records of the clients it is run over. -/
theorem broadcastLoop_confined (sender : Option Nat) (header : MsgHeader) (msg : Bytes)
    (l : List Nat) (w : World) :
    Holds (fun e => e ≠ .deadlock) (l.foldlM (broadcastTo sender header msg) w) (fun w' =>
      w'.clientList = w.clientList ∧ ∀ q, q ∉ l → w'.clients.get q = w.clients.get q) := by
  induction l generalizing w with
  | nil => exact ⟨rfl,fun _ _ => rfl⟩
  | cons p l ih =>
    rw [List.foldlM_cons]
    refine (broadcastTo_confined w p sender header msg).bind (fun w₁ h₁ => ?_)
    refine (ih w₁).mono (fun w₂ h₂ => ⟨h₂.1.trans h₁.list,fun q hq => ?_⟩)
    rw [List.mem_cons,not_or] at hq
    exact (h₂.2 q hq.2).trans (h₁.others q hq.1)

theorem clientTryWrite_keeps :
    Always (clientTryWrite w p) (fun res => Keeps none w res.1) :=
  (clientTryWrite_confined w p).keeps

theorem markClosed_keeps : Always (markClosed w p) (Keeps none w) :=
  (markClosed_confined w p).keeps

theorem broadcast_keeps (sender : Option Nat) (msg : Bytes) :
    Always (broadcast w sender msg) (fun res => Keeps none w res.1) := by
  unfold broadcast World.lock
  split
  · exact True.intro
  · simp only [ok_bind]
    refine (Keeps.foldlM _ (fun w₁ t => (broadcastTo_confined w₁ t sender _ msg).keeps) _).bind ?_
    intro w₁ h₁
    exact ⟨h₁.list,h₁.records⟩

end Writing

section Serving
variable (w : World) (p : Nat)

theorem writeFrame_alike (msgType : UInt8) (fd : Nat) (msg : Bytes) :
    Always (writeFrame msgType w fd msg) (fun res => Alike w res.1) := by
  unfold writeFrame
  refine (Always.trivial _).bind (fun k _ => ?_)
  exact ⟨rfl,rfl⟩

theorem sendTo_alike {send : World → Nat → Bytes → Except Fault (World × Int)}
    (hsend : ∀ w fd msg, Always (send w fd msg) (fun res => Alike w res.1))
    (msgType : UInt8) (msg : Bytes) :
    Always (sendTo send msgType w p msg) (fun res => Alike w res.1) := by
  unfold sendTo noteDirect
  refine (Always.trivial _).bind (fun c _ => ?_)
  refine Holds.bind (P := Alike w) ?_ ?_
  · refine (Always.trivial _).bind (fun c _ => ?_)
    refine (Always.trivial _).bind (fun k _ => ?_)
    simp only
    split
    · exact note_alike _ _ _
    · refine (Always.trivial _).bind (fun m _ => ?_)
      exact note_alike _ _ _
  · intro w₁ h₁
    exact (hsend w₁ _ msg).mono (fun res hres => h₁.trans hres)

theorem handleListEntry_alike (w : World) (entry : Nat) :
    Always (handleListEntry p w entry) (Alike w) := by
  unfold handleListEntry
  refine (Always.trivial _).bind (fun c _ => ?_)
  refine (sendTo_alike w p (writeFrame_alike · msgTypeAdmin) msgTypeAdmin _).bind ?_
  rintro ⟨w₁,r⟩ h₁
  refine (sendTo_alike w₁ p (writeFrame_alike · msgTypeAdmin) msgTypeAdmin _).bind ?_
  rintro ⟨w₂,r'⟩ h₂
  exact h₁.trans h₂

theorem handleList_keeps :
    Always (handleList w p) (fun res => Keeps none w res.1) := by
  unfold handleList noteListing
  refine Holds.bind (P := Keeps none w) ?_ ?_
  · refine (Always.trivial _).bind (fun names _ => ?_)
    exact (note_alike _ _ _).mono (fun w' hw' => .of_alike hw')
  · intro w₁ h₁
    refine (Keeps.foldlM _ (fun w₂ e => ?_) w₁).bind (fun w₂ h₂ => h₁.trans h₂)
    exact (handleListEntry_alike p w₂ e).mono (fun w₃ h₃ => .of_alike h₃)

theorem formatWhisperMessage_alike (msg : Bytes) :
    Always (formatWhisperMessage w p msg) (fun res => Alike w res.1) := by
  unfold formatWhisperMessage
  refine (Always.trivial _).bind (fun c _ => ?_)
  refine (Always.trivial _).bind (fun k _ => ?_)
  exact ⟨rfl,rfl⟩

theorem handleWhisper_keeps (saveptr : Bytes) :
    Always (handleWhisper w p saveptr) (fun res => Keeps none w res.1) := by
  unfold handleWhisper
  simp only
  split
  · exact Keeps.refl w
  · split
    · split
      · exact Keeps.refl w
      · exact True.intro
    · refine (Always.trivial _).bind (fun target _ => ?_)
      split
      · exact Keeps.refl w
      · refine (formatWhisperMessage_alike w p _).bind ?_
        rintro ⟨w₁,formatted⟩ h₁
        simp only
        split
        · exact .of_alike h₁
        · refine (sendTo_alike w₁ _ (writeFrame_alike · msgTypeNormal) msgTypeNormal _).bind ?_
          rintro ⟨w₂,r⟩ h₂
          simp only
          split <;> exact .of_alike (h₁.trans h₂)

theorem serverHandleCommand_keeps (cmd saveptr : Bytes) :
    Always (serverHandleCommand w p cmd saveptr) (fun res => Keeps none w res.1) := by
  unfold serverHandleCommand
  cases findCommand cmd with
  | list => exact handleList_keeps w p
  | whisper => exact handleWhisper_keeps w p saveptr
  | shutdown => exact Keeps.of_alike ⟨rfl,rfl⟩
  | quit => exact Keeps.refl w
  | unknown => exact Keeps.refl w

theorem formatChatMessage_alike :
    Always (formatChatMessage w p) (fun res => Alike w res.1) := by
  unfold formatChatMessage
  refine (Always.trivial _).bind (fun c _ => ?_)
  refine (Always.trivial _).bind (fun k _ => ?_)
  refine (Always.trivial _).bind (fun res _ => ?_)
  exact ⟨rfl,rfl⟩

/-- Serving a message of a client that has its name keeps all records; the first
message of a client changes its own record only. -/
theorem processPayload_keeps (payloadCopy : Option Bytes) :
    Always (processPayload w p payloadCopy) (fun res => Keeps none w res.1 ∨
      ∃ c c', w.clients.get p = some c ∧ c.hasName = false ∧ storeClientName c = .ok c' ∧
        res = (w.putClient p { c' with hasName := true },0)) := by
  unfold processPayload
  refine (client_got w p).bind (fun c hc => ?_)
  by_cases hname : c.hasName = false
  · rw [if_pos hname]
    cases hs : storeClientName c with
    | error e => exact True.intro
    | ok c' => exact .inr ⟨c,c',hc,hname,hs,rfl⟩
  · rw [if_neg hname]
    split
    · exact True.intro
    · split
      · simp only
        split
        · exact True.intro
        · refine (serverHandleCommand_keeps w p _ _).bind ?_
          rintro ⟨w₁,result⟩ h₁
          simp only
          split <;> exact .inl h₁
      · refine (formatChatMessage_alike w p).bind ?_
        rintro ⟨w₁,formatted⟩ h₁
        simp only
        split
        · exact True.intro
        · refine (broadcast_keeps w₁ (some p) _).bind ?_
          rintro ⟨w₂,r⟩ h₂
          have hformat : Keeps none w w₁ := .of_alike h₁
          exact .inl (hformat.trans h₂)

end Serving

section Reading

theorem readTurn_suspended {c c' : ClientInfo} {k k' : Sock} {next : Next} (hfits : Fits c)
    (h : readTurn c k = .ok (c',k',next)) :
    Fits c' ∧ ∀ r, next = .ret r → Suspended c' ∧ (r = -1 ∨ r = 0) := by
  rcases readTurn_turn h with ⟨hstate,hturn⟩ | ⟨hstate,hturn⟩
  · have hidle := suspended_header hstate
    cases hturn with
    | blocked => exact ⟨hfits,fun r hr => ⟨hidle,.inr (by cases hr; rfl)⟩⟩
    | failed => exact ⟨hfits,fun r hr => ⟨hidle,.inl (by cases hr; rfl)⟩⟩
    | ended => exact ⟨hfits,fun r hr => ⟨hidle,.inl (by cases hr; rfl)⟩⟩
    | short => exact ⟨hfits,fun r hr => ⟨suspended_header hstate,.inr (by cases hr; rfl)⟩⟩
    | @tooLarge _ bs b =>
      have hstill : Suspended (c.gotHeader b bs.length).parsed := suspended_header hstate
      exact ⟨hstill.fits,fun r hr => ⟨hstill,.inl (by cases hr; rfl)⟩⟩
    | complete => exact ⟨fun _ => Nat.zero_le _,fun r hr => by cases hr⟩
  · have hle := hfits hstate
    have hcount : sizeSub c.expectedPayloadLen c.payloadBytesRead =
        c.expectedPayloadLen-c.payloadBytesRead := sizeSub_of_le hle
    cases hturn with
    | blocked hread =>
      refine ⟨hfits,fun r hr => ⟨fun _ => ?_,.inr (by cases hr; rfl)⟩⟩
      cases hread with
      | again hne =>
        rw [hcount] at hne
        omega
    | failed hread =>
      refine ⟨hfits,fun r hr => ⟨fun _ => ?_,.inl (by cases hr; rfl)⟩⟩
      cases hread with
      | failed hne =>
        rw [hcount] at hne
        omega
    | short _ _ hlt =>
      exact ⟨fun _ => Nat.le_of_lt hlt,fun r hr => ⟨fun _ => hlt,.inr (by cases hr; rfl)⟩⟩
    | @long _ bs b hread hwrite hgt =>
      have hsize := hread.size_le
      omega
    | fragment => exact ⟨(suspended_header rfl).fits,fun r hr => by cases hr⟩
    | message _ _ heq happend =>
      refine ⟨?_,fun r hr => by cases hr⟩
      rw [(appendToClientBuffer_frame happend).2]
      exact fun _ => Nat.le_of_eq heq

end Reading
end ChatServer
