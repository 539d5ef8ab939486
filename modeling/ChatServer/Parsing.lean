import ChatServer.Accumulate
import ChatServer.Decoder
import ChatServer.Isolation

/-! The reader of one connection against the reference decoder: a suspended
reader stands at a position of the decoder, and every transition of the room
keeps it there. -/
set_option autoImplicit false

namespace ChatServer
open ByteString Memory Execution Relation

def messages (trace : List Obs) : List (Option Bytes) :=
  trace.filterMap (fun o => match o with | .message copy => some copy | _ => none)

def verdicts (trace : List Obs) : List Int :=
  trace.filterMap (fun o => match o with | .verdict r => some r | _ => none)

@[simp] theorem messages_append (xs ys : List Obs) :
    messages (xs ++ ys) = messages xs ++ messages ys := by simp [messages]

@[simp] theorem verdicts_append (xs ys : List Obs) :
    verdicts (xs ++ ys) = verdicts xs ++ verdicts ys := by simp [verdicts]

def Obs.taking : Obs → Bool
  | .read _ => true
  | .endOfStream => true
  | .readFailed => true
  | .blockFailed => true
  | _ => false

theorem quiet_messages {more : List Obs} (h : ∀ o ∈ more, o.ofReader = false) :
    messages more = [] ∧ verdicts more = [] ∧ received more = [] := by
  unfold messages verdicts received
  refine ⟨?_,?_,?_⟩
  · rw [List.filterMap_eq_nil_iff]
    intro o ho
    have hq := h o ho
    cases o <;> first | rfl | cases hq
  · rw [List.filterMap_eq_nil_iff]
    intro o ho
    have hq := h o ho
    cases o <;> first | rfl | cases hq
  · rw [List.flatMap_eq_nil_iff]
    intro o ho
    have hq := h o ho
    cases o <;> first | rfl | cases hq

structure Took (k k' : Sock) (bs : Bytes) : Prop where
  received : received k'.trace = received k.trace ++ bs
  trace : ∃ more, k'.trace = k.trace ++ more ∧ ∀ o ∈ more, o.taking = true

namespace Took
variable {k k' k'' : Sock} {bs cs : Bytes}

theorem of_trace {l : List Obs} (ht : k'.trace = k.trace ++ l)
    (hl : ∀ o ∈ l, o.taking = true) (hbs : ChatServer.received l = bs) : Took k k' bs :=
  ⟨by rw [ht,received_append,hbs],l,ht,hl⟩

theorem trans (h : Took k k' bs) (h' : Took k' k'' cs) : Took k k'' (bs ++ cs) :=
  ⟨by rw [h'.received,h.received,List.append_assoc],grown_trans h.trace h'.trace⟩

theorem mem (h : Took k k' bs) {o : Obs} (ho : o ∈ k.trace) : o ∈ k'.trace := by
  obtain ⟨more,ht,-⟩ := h.trace
  rw [ht]
  exact List.mem_append_left _ ho

theorem of_block (h : BlockFrame k k') : Took k k' [] := by
  rcases h.trace with ht | ht
  · exact of_trace (l := []) (by simp [ht]) (by simp) rfl
  · exact of_trace ht (by simp [Obs.taking]) rfl

theorem of_bytes {count : Nat} (h : k.Reads count k' (.bytes bs)) : Took k k' bs := by
  cases h with
  | nothing => exact of_trace (l := []) (by simp) (by simp) rfl
  | ended _ _ _ _ _ htrace => exact of_trace htrace (by simp [Obs.taking]) rfl
  | bytes _ _ _ _ htrace =>
    exact of_trace htrace (by simp [Obs.taking]) (by simp [ChatServer.received])

theorem of_again {count : Nat} (h : k.Reads count k' .again) : Took k k' [] := by
  cases h with
  | again _ _ _ htrace => exact of_trace (l := []) (by simp [htrace]) (by simp) rfl

theorem of_failed {count : Nat} (h : k.Reads count k' .failed) :
    Took k k' [] ∧ .readFailed ∈ k'.trace := by
  cases h with
  | failed _ _ _ htrace => exact ⟨of_trace htrace (by simp [Obs.taking]) rfl,by simp [htrace]⟩

end Took

/-- The part of the current frame that the reader has, header first. -/
inductive CurrentFrame (c : ClientInfo) : Bytes → Prop
  | header (hstate : c.state = .readHeader) (hlt : c.headerBytesRead < headerSize) :
      CurrentFrame c (c.headerBuffer.data.take c.headerBytesRead)
  | payload (hstate : c.state = .readPayload)
      (hlen : c.expectedPayloadLen = (parseHeader c.headerBuffer.data).msgLen)
      (hdone : c.msgDone = (parseHeader c.headerBuffer.data).msgDone)
      (hle : c.expectedPayloadLen ≤ bufSize)
      (hpart : c.payloadBytesRead < c.expectedPayloadLen ∨
        (c.payloadBytesRead = 0 ∧ c.expectedPayloadLen = 0)) :
      CurrentFrame c (c.headerBuffer.data ++ c.payloadBuffer.data.take c.payloadBytesRead)

theorem CurrentFrame.waiting {c : ClientInfo} {tail : Bytes} (h : CurrentFrame c tail)
    (hidle : Suspended c) (refuses : Nat → Bool) (n : Nat) (message : Bytes) :
    decodeFrom refuses n message tail = ⟨[],0,.waiting message tail⟩ := by
  cases h with
  | header hstate hlt =>
    refine decodeFrom_short ?_
    rw [List.length_take,c.headerBuffer.size]
    omega
  | payload hstate hlen hdone hle hpart =>
    have hlt := hidle hstate
    refine decodeFrom_waiting c.headerBuffer.size (by omega) ?_
    rw [List.length_take,c.payloadBuffer.size]
    omega

/-- The decoder, in front of what is still to come, stands where the reader is. -/
def Parses (refuses : Nat → Bool) (c : ClientInfo) (trace : List Obs) (ms : List Bytes) : Prop :=
  ∃ done tail message, received trace = done ++ tail ∧ CurrentFrame c tail ∧
    Decodes refuses done ms message ∧ Holding c trace message

theorem Parses.prefix {refuses : Nat → Bool} {c : ClientInfo} {trace : List Obs}
    {ms : List Bytes} (h : Parses refuses c trace ms) (more : Bytes) :
    ms <+: (decode refuses (received trace ++ more)).messages := by
  obtain ⟨done,tail,message,hreceived,-,hdecodes,-⟩ := h
  rw [hreceived,List.append_assoc,hdecodes]
  exact List.prefix_append _ _

theorem Parses.waiting {refuses : Nat → Bool} {c : ClientInfo} {trace : List Obs}
    {ms : List Bytes} (h : Parses refuses c trace ms) (hidle : Suspended c) :
    ∃ n message tail, decode refuses (received trace) = ⟨ms,n,.waiting message tail⟩ ∧
      CurrentFrame c tail ∧ Holding c trace message := by
  obtain ⟨done,tail,message,hreceived,hframe,hdecodes,hholding⟩ := h
  refine ⟨done.length,message,tail,?_,hframe,hholding⟩
  rw [hreceived,hdecodes,hframe.waiting hidle]
  simp [Decoded.behind]

/-- The bytes `done` end with the message `whole` behind the messages `ms`. -/
def Completes (refuses : Nat → Bool) (done : Bytes) (ms : List Bytes) (whole : Bytes) : Prop :=
  (refuses ms.length = false → Decodes refuses done (ms ++ [whole]) []) ∧
    (refuses ms.length = true → ∀ more,
      decode refuses (done ++ more) = ⟨ms ++ [whole],done.length,.refused⟩)

def Paused (refuses : Nat → Bool) (ms : List Bytes) (c : ClientInfo) (k : Sock) (r : Int) : Prop :=
  (r = 0 ∧ Parses refuses c k.trace ms ∧ Suspended c) ∨
    (r = -1 ∧ .readFailed ∈ k.trace ∧ Parses refuses c k.trace ms) ∨
    (r = -1 ∧ .endOfStream ∈ k.trace ∧ Parses refuses c k.trace ms ∧ Suspended c) ∨
    (r = -1 ∧ ∀ more, decode refuses (received k.trace ++ more) =
      ⟨ms,(received k.trace).length,.tooLong⟩)

def Outcome (refuses : Nat → Bool) (ms : List Bytes) (k : Sock) (c' : ClientInfo)
    (k' : Sock) : Next → Prop
  | .again => (∃ bs, Took k k' bs) ∧ Parses refuses c' k'.trace ms
  | .ret r => (∃ bs, Took k k' bs) ∧ Paused refuses ms c' k' r
  | .deliver copy => ∃ k₁ bs whole, Took k k₁ bs ∧
      k' = k₁.note (.message (copy.map List.dropLast)) ∧
      Completes refuses (received k₁.trace) ms whole ∧
      ((copy = some (whole ++ [0]) ∧ Stored c' whole) ∨
        (copy = none ∧ .blockFailed ∈ k₁.trace ∧ Holding c' k₁.trace whole))

section Turns
variable {refuses : Nat → Bool} {ms : List Bytes} {c c' : ClientInfo} {k k' : Sock}

theorem Parses.same {done tail message : Bytes} (hreceived : received k.trace = done ++ tail)
    (hdecodes : Decodes refuses done ms message) (hholding : Holding c k.trace message)
    (hframe : CurrentFrame c tail) (htook : Took k k' []) : Parses refuses c k'.trace ms :=
  ⟨done,tail,message,by rw [htook.received,hreceived,List.append_nil],hframe,hdecodes,
    hholding.keep rfl (fun _ => htook.mem)⟩

theorem header_stored {b : Buf headerSize} {bs : Bytes}
    (hwrite : c.headerBuffer.write c.headerBytesRead bs = some b) :
    b.data.take (c.headerBytesRead+bs.length) =
      c.headerBuffer.data.take c.headerBytesRead ++ bs := Buf.take_write hwrite

theorem header_full {b : Buf headerSize} {bs : Bytes}
    (hwrite : c.headerBuffer.write c.headerBytesRead bs = some b)
    (heq : c.headerBytesRead+bs.length = headerSize) :
    b.data = c.headerBuffer.data.take c.headerBytesRead ++ bs := by
  rw [← header_stored hwrite,heq,List.take_of_length_le (by rw [b.size])]

theorem HeaderTurn.outcome {next : Next} (hturn : HeaderTurn c k c' k' next)
    (hstate : c.state = .readHeader) (h : Parses refuses c k.trace ms) :
    Outcome refuses ms k c' k' next := by
  obtain ⟨done,tail,message,hreceived,hframe,hdecodes,hholding⟩ := h
  cases hframe with
  | payload hp => rw [hstate] at hp; cases hp
  | header _ hlt =>
    cases hturn with
    | blocked hread =>
      have htook := Took.of_again hread
      exact ⟨⟨_,htook⟩,.inl ⟨rfl,
        .same hreceived hdecodes hholding (.header hstate hlt) htook,suspended_header hstate⟩⟩
    | failed hread =>
      obtain ⟨htook,hfailed⟩ := Took.of_failed hread
      exact ⟨⟨_,htook⟩,.inr (.inl ⟨rfl,hfailed,
        .same hreceived hdecodes hholding (.header hstate hlt) htook⟩)⟩
    | ended hread =>
      have htook := Took.of_bytes hread
      refine ⟨⟨_,htook⟩,.inr (.inr (.inl ⟨rfl,?_,
        .same hreceived hdecodes hholding (.header hstate hlt) htook,suspended_header hstate⟩))⟩
      cases hread with
      | nothing hcount =>
        rw [sizeSub_of_le (by omega)] at hcount
        omega
      | ended _ _ _ _ _ htrace => simp [htrace]
      | bytes _ hne => exact absurd rfl hne
    | @short _ bs b hne hread hwrite hlt' =>
      have htook := Took.of_bytes hread
      refine ⟨⟨_,htook⟩,.inl ⟨rfl,?_,suspended_header hstate⟩⟩
      refine ⟨done,_,message,?_,.header hstate hlt',hdecodes,
        hholding.keep rfl (fun _ => htook.mem)⟩
      rw [htook.received,hreceived,List.append_assoc,← header_stored hwrite]
      rfl
    | @tooLarge _ bs b hne hread hwrite heq hlarge =>
      have htook := Took.of_bytes hread
      refine ⟨⟨_,htook⟩,.inr (.inr (.inr ⟨rfl,?_⟩))⟩
      have hall : received k'.trace = done ++ b.data := by
        rw [htook.received,hreceived,List.append_assoc,← header_full hwrite heq]
      intro more
      rw [hall]
      exact hdecodes.tooLong b.size hlarge more
    | @complete _ bs b hne hread hwrite heq hle =>
      have htook := Took.of_bytes hread
      have hpart : 0 < (parseHeader b.data).msgLen ∨
          (0 = 0 ∧ (parseHeader b.data).msgLen = 0) := by omega
      refine ⟨⟨_,htook⟩,done,_,message,?_,.payload rfl rfl rfl hle hpart,hdecodes,
        hholding.keep rfl (fun _ => htook.mem)⟩
      rw [htook.received,hreceived,List.append_assoc,← header_full hwrite heq]
      simp [ClientInfo.gotHeader,ClientInfo.parsed]

theorem appendToClientBuffer_done {r : Int}
    (h : appendToClientBuffer c k = .ok (c',k',r)) : c'.msgDone = c.msgDone := by
  rw [(appendToClientBuffer_frame h).2]

theorem PayloadTurn.outcome {next : Next} (hturn : PayloadTurn c k c' k' next)
    (hstate : c.state = .readPayload) (h : Parses refuses c k.trace ms) :
    Outcome refuses ms k c' k' next := by
  obtain ⟨done,tail,message,hreceived,hframe,hdecodes,hholding⟩ := h
  cases hframe with
  | header hp => rw [hstate] at hp; cases hp
  | payload _ hlen hdone hle hpart =>
    have hcount : sizeSub c.expectedPayloadLen c.payloadBytesRead =
        c.expectedPayloadLen-c.payloadBytesRead := sizeSub_of_le (by omega)
    -- the payload with the bytes that were just read
    have hstored : ∀ {b : Buf bufSize} {bs : Bytes} {k₁ : Sock},
        c.payloadBuffer.write c.payloadBytesRead bs = some b → Took k k₁ bs →
        received k₁.trace = done ++ (c.headerBuffer.data ++
          b.data.take (c.payloadBytesRead+bs.length)) := by
      intro b bs k₁ hwrite htook
      rw [htook.received,hreceived,Buf.take_write hwrite]
      simp
    cases hturn with
    | blocked hread =>
      have htook := Took.of_again hread
      refine ⟨⟨_,htook⟩,.inl ⟨rfl,
        .same hreceived hdecodes hholding (.payload hstate hlen hdone hle hpart) htook,?_⟩⟩
      intro _
      cases hread with
      | again hne =>
        rw [hcount] at hne
        omega
    | failed hread =>
      obtain ⟨htook,hfailed⟩ := Took.of_failed hread
      exact ⟨⟨_,htook⟩,.inr (.inl ⟨rfl,hfailed,
        .same hreceived hdecodes hholding (.payload hstate hlen hdone hle hpart) htook⟩)⟩
    | @short _ bs b hread hwrite hlt =>
      have htook := Took.of_bytes hread
      refine ⟨⟨_,htook⟩,.inl ⟨rfl,?_,fun _ => hlt⟩⟩
      exact ⟨done,_,message,hstored hwrite htook,.payload hstate hlen hdone hle (.inl hlt),
        hdecodes,hholding.keep rfl (fun _ => htook.mem)⟩
    | @long _ bs b hread hwrite hgt =>
      have hfits := hread.size_le
      omega
    | @fragment k₁ _ bs b c₁ r hread hwrite heq happend hmore =>
      have htook := Took.of_bytes hread
      have hreceived' := hstored hwrite htook
      have htook' := Took.of_block (appendToClientBuffer_frame happend).1
      have hhold := (hholding.keep (d := c.gotPayload b bs.length) rfl
        (fun _ => htook.mem)).append (by simp only [ClientInfo.gotPayload]; omega) happend
      have hsize : (b.data.take (c.payloadBytesRead+bs.length)).length = c.expectedPayloadLen := by
        rw [List.length_take,b.size]
        omega
      refine ⟨⟨_,htook.trans htook'⟩,
        done ++ (c.headerBuffer.data ++ b.data.take (c.payloadBytesRead+bs.length)),_,_,?_,
        .header rfl (Nat.succ_pos 5),?_,hhold.keep rfl (fun _ h => h)⟩
      · rw [htook'.received,hreceived']
        simp [switchToHeader]
      · refine hdecodes.fragment c.headerBuffer.size (by omega) (by omega) ?_
        rw [← hdone,← hmore,appendToClientBuffer_done happend]
        rfl
    | @message k₁ k₂ k₃ bs b _ r copy hread hwrite heq happend hmore hcopy =>
      have htook := Took.of_bytes hread
      have hreceived' := hstored hwrite htook
      have htook' := Took.of_block (appendToClientBuffer_frame happend).1
      have htook₃ := Took.of_block (copyBuffer_frame hcopy)
      have hhold := (hholding.keep (d := c.gotPayload b bs.length) rfl
        (fun _ => htook.mem)).append (by simp only [ClientInfo.gotPayload]; omega) happend
      have hsize : (b.data.take (c.payloadBytesRead+bs.length)).length = c.expectedPayloadLen := by
        rw [List.length_take,b.size]
        omega
      have hlast : (parseHeader c.headerBuffer.data).msgDone ≠ 0 := by
        rw [appendToClientBuffer_done happend] at hmore
        rw [← hdone]
        exact hmore
      refine ⟨k₃,_,message ++ b.data.take (c.payloadBytesRead+bs.length),
        (htook.trans htook').trans htook₃,rfl,?_,?_⟩
      · rw [htook₃.received,htook'.received,hreceived',List.append_nil,List.append_nil]
        exact ⟨hdecodes.whole c.headerBuffer.size (by omega) (by omega) hlast,
          hdecodes.refused c.headerBuffer.size (by omega) (by omega) hlast⟩
      · rcases hhold.copy hcopy with ⟨hsome,hgood⟩ | ⟨hnone,hfailed⟩
        · exact .inl ⟨hsome,hgood⟩
        · exact .inr ⟨hnone,hfailed,hhold.keep rfl (fun _ => htook₃.mem)⟩

/-- An iteration of the read loop keeps the parser at its place, ends the call,
or completes a message. -/
theorem readTurn_outcome {next : Next} (hturn : readTurn c k = .ok (c',k',next))
    (h : Parses refuses c k.trace ms) : Outcome refuses ms k c' k' next := by
  rcases readTurn_turn hturn with ⟨hstate,hturn⟩ | ⟨hstate,hturn⟩
  · exact hturn.outcome hstate h
  · exact hturn.outcome hstate h

end Turns

end ChatServer
