import ChatServer.BroadcastRefinement
import ChatServer.Serving

/-! The refinement of the commands and of `process_payload`: what one message
of a client does to the room. -/
set_option autoImplicit false

namespace ChatServer
open ByteString Memory Execution

def Agrees {α : Type} (x : World × α) (y : Room × α) : Prop := Refines x.1 y.1 ∧ x.2 = y.2

theorem strtokR_none {d : UInt8} {s : Bytes} (h : (strtokR d s).1 = none) :
    (strtokR d s).2 = [] := by
  unfold strtokR at h ⊢
  split at h
  · rfl
  · cases h

section Queues
variable (c : ClientInfo) (q : MsgQueue)

@[simp] theorem ClientInfo.withQueue_shownName : (c.withQueue q).shownName = c.shownName := rfl

theorem formatChat_withQueue (k : Sock) (timestamp : Bytes) :
    formatChat (c.withQueue q) k timestamp = formatChat c k timestamp := rfl

theorem formatWhisper_withQueue (k : Sock) (timestamp msg : Bytes) :
    formatWhisper (c.withQueue q) k timestamp msg = formatWhisper c k timestamp msg := rfl

theorem storeClientName_withQueue :
    storeClientName (c.withQueue q) =
      (storeClientName c).map (fun i => i.withQueue q) := by
  unfold storeClientName
  have hl : (c.withQueue q).partialLen = c.partialLen := rfl
  have hm : (c.withQueue q).partialMsg = c.partialMsg := rfl
  have hn : (c.withQueue q).name = c.name := rfl
  simp only [hl,hm,hn]
  cases readBlock c.partialMsg (if c.partialLen ≥ nameMax then nameMax-1 else c.partialLen) with
  | error e => rfl
  | ok bs =>
    simp only [ok_bind]
    cases c.name.write 0 (bs ++ [0]) <;> rfl

end Queues

section Sockets

theorem Sock.realloc_registration (k : Sock) (old : Option Bytes) (size : Nat) :
    (k.realloc old size).1.registration = k.registration := by
  unfold Sock.realloc
  simp only
  split <;> rfl

theorem formatWhisper_registration (c : ClientInfo) (k : Sock) (timestamp msg : Bytes) :
    (formatWhisper c k timestamp msg).1.registration = k.registration := by
  obtain ⟨size,hsock⟩ := Room.formatWhisper_sock c k timestamp msg
  rw [hsock]
  exact Sock.realloc_registration _ _ _

theorem formatChat_registration {c : ClientInfo} {k k' : Sock} {timestamp : Bytes}
    {text : Option Bytes} (h : formatChat c k timestamp = .ok (k',text)) :
    k'.registration = k.registration := by
  obtain ⟨size,rfl⟩ := Room.formatChat_sock h
  exact Sock.realloc_registration _ _ _

end Sockets

section Commands
variable {w : World} {R : Room} {p : Nat}

theorem names_eq (h : Refines w R) (l : List Nat) (hl : ∀ q ∈ l, q ∈ R.members) :
    (l.mapM (fun p => do
      let c ← w.client p
      pure c.shownName) : Except Fault (List Bytes)) =
      .ok (l.map (fun p => (R.view p).info.shownName)) := by
  induction l with
  | nil => rfl
  | cons p l ih =>
    obtain ⟨A,h⟩ := h
    obtain ⟨q,hc,-,-,-⟩ := h.access (hl p (by simp))
    have hrest := ih (fun r hr => hl r (by simp [hr]))
    simp only [List.mapM_cons,hc,ok_bind,hrest,pure_bind]
    rfl

theorem noteListing_refines (h : Refines w R) (hp : p ∈ R.members) :
    Yields (noteListing w p) (R.set p ((R.view p).note (.listing R.names))) := by
  have hnames := names_eq h R.members (fun _ hq => hq)
  unfold noteListing
  rw [h.clientList,hnames,ok_bind]
  exact note_refines h hp _

theorem handleListEntry_refines (h : Refines w R) (hp : p ∈ R.members) {e : Nat}
    (he : e ∈ R.members) :
    Yields (handleListEntry p w e) (R.listEntry p e) := by
  have href := h
  obtain ⟨A,h⟩ := h
  obtain ⟨q,hc,-,-,-⟩ := h.access he
  unfold handleListEntry Room.listEntry
  simp only [hc,ok_bind,ClientInfo.withQueue_shownName]
  refine (sendTo_refines href hp msgTypeAdmin _).bind_yields ?_
  intro w₁ h₁
  refine (sendTo_refines h₁ hp msgTypeAdmin _).bind_yields ?_
  intro w₂ h₂
  exact ⟨w₂,rfl,h₂⟩

theorem handleList_refines (h : Refines w R) (hp : p ∈ R.members) :
    Returns (handleList w p) (R.list p,.ok) := by
  have hloop : ∀ (l : List Nat) (w : World) (S : Room), Refines w S → S.members = R.members →
      (∀ e ∈ l, e ∈ R.members) →
      Yields (l.foldlM (handleListEntry p) w) (l.foldl (Room.listEntry p) S) := by
    intro l
    induction l with
    | nil => exact fun w S hS _ _ => ⟨w,rfl,hS⟩
    | cons e l ih =>
      intro w S hS hm hl
      simp only [List.foldlM_cons,List.foldl_cons]
      refine (handleListEntry_refines hS (by rw [hm]; exact hp)
        (by rw [hm]; exact hl e (by simp))).bind ?_
      intro w₁ h₁
      exact ih w₁ _ h₁ (by rw [Room.listEntry_members,hm]) (fun f hf => hl f (by simp [hf]))
  unfold handleList Room.list
  refine (noteListing_refines h hp).bind_returns ?_
  rintro w₁ ⟨A,h₁⟩
  refine (Yields.bind_returns (R := R.list p) ?_ (fun w₂ h₂ => ⟨w₂,rfl,h₂⟩))
  rw [h₁.members]
  exact hloop R.members w₁ _ ⟨A,h₁⟩ rfl (fun e he => he)

theorem findTarget_eq (h : Refines w R) (name : Bytes) (l : List Nat)
    (hl : ∀ q ∈ l, q ∈ R.members) :
    findTarget w name l =
      .ok (l.find? (fun p => decide (cstr (R.view p).info.name.data = name))) := by
  induction l with
  | nil => rfl
  | cons p l ih =>
    have hrest := ih (fun r hr => hl r (by simp [hr]))
    obtain ⟨A,h⟩ := h
    obtain ⟨q,hc,-,-,-⟩ := h.access (hl p (by simp))
    have hname : ((R.view p).info.withQueue q).name = (R.view p).info.name := rfl
    unfold findTarget
    simp only [hc,ok_bind,hname,hrest,List.find?_cons]
    by_cases he : cstr (R.view p).info.name.data = name
    · simp [he,pure_eq_ok]
    · simp [he]

theorem getTimestamp_refines (h : Refines w R) :
    Refines (getTimestamp w).1 R.tick ∧ (getTimestamp w).2 = R.timestamp := by
  obtain ⟨A,h⟩ := h
  refine ⟨⟨A,{ h with clock := ?_ }⟩,?_⟩
  · simp [getTimestamp,Room.tick,h.clock]
  · simp [getTimestamp,Room.timestamp,h.clock]

theorem formatWhisperMessage_refines (h : Refines w R) (hp : p ∈ R.members) (msg : Bytes) :
    Returns (formatWhisperMessage w p msg)
      (R.tick.set p { R.view p with sock :=
          (formatWhisper (R.view p).info (R.view p).sock R.timestamp msg).1 },
        (formatWhisper (R.view p).info (R.view p).sock R.timestamp msg).2) := by
  obtain ⟨⟨B,h₁⟩,htime⟩ := getTimestamp_refines h
  obtain ⟨A,h⟩ := h
  obtain ⟨q,hc,hk,-,hreg⟩ := h.access hp
  have hk' : w.sock ((R.view p).info.withQueue q).clientFd = .ok (R.view p).sock := hk
  unfold formatWhisperMessage
  simp only [hc,hk',ok_bind,htime,formatWhisper_withQueue]
  have hput := h₁.putSock (p := p) hp
    (k := (formatWhisper (R.view p).info (R.view p).sock R.timestamp msg).1)
    (by rw [formatWhisper_registration]; exact hreg)
  exact ⟨_,rfl,B,hput⟩

theorem handleWhisper_refines (h : Refines w R) (hp : p ∈ R.members) (saveptr : Bytes) :
    Returns (handleWhisper w p saveptr) (R.whisper p saveptr) := by
  have hlist : w.clientList = R.members := h.clientList
  unfold handleWhisper Room.whisper
  rcases htok : strtokR 32 saveptr with ⟨whisperTarget,whisperMsg⟩
  simp only
  by_cases hmsg : whisperMsg = []
  · rw [if_pos hmsg,if_pos hmsg]
    exact ⟨w,rfl,h⟩
  · rw [if_neg hmsg,if_neg hmsg]
    cases whisperTarget with
    | none =>
      have hnone := strtokR_none (d := 32) (s := saveptr) (by rw [htok])
      rw [htok] at hnone
      exact absurd hnone hmsg
    | some name =>
      have hfind := findTarget_eq h name R.members (fun _ hq => hq)
      simp only [hlist,hfind,ok_bind,Option.bind_some,Room.target]
      cases ht : R.members.find? (fun p => decide (cstr (R.view p).info.name.data = name)) with
      | none => exact ⟨w,rfl,h⟩
      | some t =>
        have hmem : t ∈ R.members := List.mem_of_find?_eq_some ht
        simp only [Room.whisperTo]
        refine (formatWhisperMessage_refines h hp whisperMsg).bind ?_
        intro w₁ h₁
        rcases hf : formatWhisper (R.view p).info (R.view p).sock R.timestamp whisperMsg with
          ⟨k,text⟩
        rw [hf] at h₁
        cases text with
        | none => exact ⟨w₁,rfl,h₁⟩
        | some text =>
          refine (sendTo_refines (p := t) h₁ hmem msgTypeNormal (cstr text)).bind ?_
          intro w₂ h₂
          by_cases hr : ((R.tick.set p { R.view p with sock := k }).sendTo msgTypeNormal t
              (cstr text)).2 = -1
          · simp only [hr,if_true]
            exact ⟨w₂,rfl,h₂⟩
          · simp only [hr,if_false]
            exact ⟨w₂,rfl,h₂⟩

theorem serverHandleCommand_refines (h : Refines w R) (hp : p ∈ R.members)
    (cmd saveptr : Bytes) :
    Returns (serverHandleCommand w p cmd saveptr) (R.command p cmd saveptr) := by
  unfold serverHandleCommand Room.command
  cases findCommand cmd with
  | list => exact handleList_refines h hp
  | whisper => exact handleWhisper_refines h hp saveptr
  | shutdown =>
    obtain ⟨A,h⟩ := h
    exact ⟨_,rfl,A,{ h with shutdown := rfl }⟩
  | quit => exact ⟨w,rfl,h⟩
  | unknown => exact ⟨w,rfl,h⟩

theorem chat_refines (h : Refines w R) (hp : p ∈ R.members) (hfree : R.mutex = false) :
    Match Agrees (do
      let (w,formatted) ← formatChatMessage w p
      match formatted with
      | none => .error .nullPointer
      | some text =>
        let (w,_) ← broadcast w (some p) (cstr text)
        pure (w,(0 : Int)))
      (do
        let R ← R.chat p
        pure (R,0)) := by
  obtain ⟨⟨B,h₁⟩,htime⟩ := getTimestamp_refines h
  obtain ⟨A,h⟩ := h
  obtain ⟨q,hc,hk,-,hreg⟩ := h.access hp
  have hk' : w.sock ((R.view p).info.withQueue q).clientFd = .ok (R.view p).sock := hk
  unfold formatChatMessage Room.chat
  simp only [hc,hk',ok_bind,htime,formatChat_withQueue]
  cases hf : formatChat (R.view p).info (R.view p).sock R.timestamp with
  | error e => exact Match.error e
  | ok res =>
    obtain ⟨k,text⟩ := res
    have hput := h₁.putSock (p := p) hp (k := k)
      (by rw [formatChat_registration hf]; exact hreg)
    cases text with
    | none => exact Match.error _
    | some text =>
      simp only [ok_bind,pure_bind]
      have hcast := broadcast_refines (R := R.tick.set p { R.view p with sock := k })
        ⟨B,hput⟩ hfree (some p) (cstr text)
      obtain ⟨w₂,hw₂,h₂⟩ := hcast
      have hfd : ((R.view p).info.withQueue q).clientFd = (R.tick.view p).info.clientFd := rfl
      simp only [hfd,hw₂,ok_bind]
      exact ⟨h₂,rfl⟩

theorem nameIt_refines (h : Refines w R) (hp : p ∈ R.members) :
    Match Agrees (do
      let c ← w.client p
      let c ← storeClientName c
      pure (w.putClient p { c with hasName := true },(0 : Int)))
      (do
        let R ← R.nameIt p
        pure (R,0)) := by
  obtain ⟨A,h⟩ := h
  obtain ⟨q,hc,-,hq,-⟩ := h.access hp
  unfold Room.nameIt
  simp only [hc,ok_bind,storeClientName_withQueue]
  cases hs : storeClientName (R.view p).info with
  | error e => exact Match.error e
  | ok i =>
    have hput := h.putClient hp (i := { i with hasName := true }) hq
      (storeClientName_frame hs).1
    exact ⟨⟨A,hput⟩,rfl⟩

/-- One message of a member does to the room what `process_payload` does to the
world, and both stop at the same faults. -/
theorem processPayload_refines (h : Refines w R) (hp : p ∈ R.members)
    (hfree : R.mutex = false) (payloadCopy : Option Bytes) :
    Match Agrees (processPayload w p payloadCopy) (R.processPayload p payloadCopy) := by
  have href := h
  obtain ⟨A,h⟩ := h
  obtain ⟨q,hc,-,-,-⟩ := h.access hp
  have hnamed : ((R.view p).info.withQueue q).hasName = (R.view p).info.hasName := rfl
  unfold processPayload Room.processPayload
  simp only [hc,ok_bind,hnamed]
  by_cases hname : (R.view p).info.hasName = false
  · rw [if_pos hname,if_pos hname]
    have hstore := nameIt_refines href hp
    simpa only [hc,ok_bind] using hstore
  · rw [if_neg hname,if_neg hname]
    cases payloadCopy with
    | none => exact Match.error _
    | some text =>
      simp only
      by_cases hslash : text.head? = some 47
      · rw [if_pos hslash,if_pos hslash]
        unfold Room.runCommand
        rcases strtokR 32 (cstr text) with ⟨cmd,saveptr⟩
        cases cmd with
        | none => exact Match.error _
        | some cmd =>
          obtain ⟨w₁,hw₁,h₁⟩ := serverHandleCommand_refines href hp (makeLowercase cmd) saveptr
          simp only [hw₁,ok_bind]
          split
          · exact ⟨h₁,rfl⟩
          · exact ⟨h₁,rfl⟩
      · rw [if_neg hslash,if_neg hslash]
        exact chat_refines href hp hfree

end Commands
end ChatServer
