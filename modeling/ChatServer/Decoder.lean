import ChatServer.Protocol

/-! The reference decoder of a client's byte stream, and the encoder of
fragmented messages. A message is made of the payloads of successive frames, the
last of which has its done byte set. -/
set_option autoImplicit false

namespace ChatServer
open ByteString

/-- How the decoding of a stream ends: with an incomplete message and an
incomplete frame, or with a rejection. -/
inductive Ending where
  | waiting : Bytes → Bytes → Ending
  | tooLong
  | refused
  deriving DecidableEq, Repr

/-- The messages, and the bytes of the frames that were decided on. -/
structure Decoded where
  messages : List Bytes
  consumed : Nat
  ending : Ending
  deriving DecidableEq, Repr

namespace Decoded

def behind (d : Decoded) (messages : List Bytes) (consumed : Nat) : Decoded :=
  ⟨messages ++ d.messages,consumed+d.consumed,d.ending⟩

def Rejected (d : Decoded) : Prop := d.ending = .tooLong ∨ d.ending = .refused

@[simp] theorem behind_nil (d : Decoded) : d.behind [] 0 = d := by simp [behind]

@[simp] theorem behind_behind (d : Decoded) (xs ys : List Bytes) (i j : Nat) :
    (d.behind xs i).behind ys j = d.behind (ys ++ xs) (j+i) := by
  simp [behind,Nat.add_assoc]

@[simp] theorem behind_messages (d : Decoded) (xs : List Bytes) (i : Nat) :
    (d.behind xs i).messages = xs ++ d.messages := rfl

@[simp] theorem behind_consumed (d : Decoded) (xs : List Bytes) (i : Nat) :
    (d.behind xs i).consumed = i+d.consumed := rfl

@[simp] theorem behind_ending (d : Decoded) (xs : List Bytes) (i : Nat) :
    (d.behind xs i).ending = d.ending := rfl

end Decoded

/-- Decode a stream behind `n` messages and the fragments `message` of the next
one. `refuses i` says that `process_payload` returns -1 for message `i`. -/
def decodeFrom (refuses : Nat → Bool) (n : Nat) (message stream : Bytes) : Decoded :=
  if hheader : stream.length < headerSize then ⟨[],0,.waiting message stream⟩
  else
    let header := parseHeader stream
    if header.msgLen > bufSize then ⟨[],headerSize,.tooLong⟩
    else if stream.length < headerSize+header.msgLen then ⟨[],0,.waiting message stream⟩
    else
      let size := headerSize+header.msgLen
      let whole := message ++ (stream.drop headerSize).take header.msgLen
      if header.msgDone = 0 then (decodeFrom refuses n whole (stream.drop size)).behind [] size
      else if refuses n then ⟨[whole],size,.refused⟩
      else (decodeFrom refuses (n+1) [] (stream.drop size)).behind [whole] size
termination_by stream.length
decreasing_by
  all_goals
    simp only [List.length_drop]
    unfold headerSize at hheader ⊢
    omega

def decode (refuses : Nat → Bool) (stream : Bytes) : Decoded := decodeFrom refuses 0 [] stream

theorem parseHeader_append {bs : Bytes} (h : bs.length = headerSize) (rest : Bytes) :
    parseHeader (bs ++ rest) = parseHeader bs := by
  unfold headerSize at h
  unfold parseHeader
  rw [List.take_append_of_le_length (by omega)]
  simp only [List.getD_eq_getElem?_getD]
  rw [List.getElem?_append_left (by omega),List.getElem?_append_left (by omega)]

section Frames
variable {refuses : Nat → Bool} {n : Nat} {message header payload : Bytes}

theorem decodeFrom_short {stream : Bytes}
    (hshort : stream.length < headerSize) :
    decodeFrom refuses n message stream = ⟨[],0,.waiting message stream⟩ := by
  rw [decodeFrom,dif_pos hshort]

theorem decodeFrom_tooLong (hlen : header.length = headerSize)
    (hlong : (parseHeader header).msgLen > bufSize) (rest : Bytes) :
    decodeFrom refuses n message (header ++ rest) = ⟨[],headerSize,.tooLong⟩ := by
  rw [decodeFrom,dif_neg (by simp [hlen])]
  simp only [parseHeader_append hlen,hlong,if_true]

theorem decodeFrom_waiting (hlen : header.length = headerSize)
    (hle : (parseHeader header).msgLen ≤ bufSize)
    (hpart : payload.length < (parseHeader header).msgLen) :
    decodeFrom refuses n message (header ++ payload) =
      ⟨[],0,.waiting message (header ++ payload)⟩ := by
  rw [decodeFrom,dif_neg (by simp [hlen])]
  have hshort : (header ++ payload).length < headerSize+(parseHeader header).msgLen := by
    rw [List.length_append,hlen]
    omega
  simp only [parseHeader_append hlen,Nat.not_lt.mpr hle,if_false,hshort,if_true]

theorem decodeFrom_frame (hlen : header.length = headerSize)
    (hpayload : (parseHeader header).msgLen = payload.length)
    (hle : payload.length ≤ bufSize) (rest : Bytes) :
    decodeFrom refuses n message (header ++ payload ++ rest) =
      if (parseHeader header).msgDone = 0 then
        (decodeFrom refuses n (message ++ payload) rest).behind [] (headerSize+payload.length)
      else if refuses n then ⟨[message ++ payload],headerSize+payload.length,.refused⟩
      else (decodeFrom refuses (n+1) [] rest).behind [message ++ payload]
        (headerSize+payload.length) := by
  have htotal : (header ++ (payload ++ rest)).length = headerSize+(payload.length+rest.length) := by
    rw [List.length_append,List.length_append,hlen]
  have hdrop : (header ++ (payload ++ rest)).drop headerSize = payload ++ rest := by
    rw [← hlen,List.drop_left]
  have hrest : (header ++ (payload ++ rest)).drop (headerSize+payload.length) = rest := by
    rw [← List.drop_drop,hdrop,List.drop_left]
  have hhead : ¬ (header ++ (payload ++ rest)).length < headerSize := by omega
  have hfit : ¬ (header ++ (payload ++ rest)).length < headerSize+payload.length := by omega
  rw [List.append_assoc,decodeFrom,dif_neg hhead]
  simp only [parseHeader_append hlen,hpayload,gt_iff_lt,Nat.not_lt.mpr hle,hfit,if_false,
    hdrop,hrest,List.take_left]

end Frames

/-- The bytes `done` decode to the messages and leave the fragments `message` of
the next one, whatever follows them. -/
def Decodes (refuses : Nat → Bool) (done : Bytes) (messages : List Bytes)
    (message : Bytes) : Prop :=
  ∀ more, decode refuses (done ++ more) =
    (decodeFrom refuses messages.length message more).behind messages done.length

namespace Decodes
variable {refuses : Nat → Bool} {done header payload part : Bytes} {messages : List Bytes}

theorem nil : Decodes refuses [] [] [] := by
  intro more
  simp [decode]

theorem fragment (h : Decodes refuses done messages part) (hlen : header.length = headerSize)
    (hpayload : (parseHeader header).msgLen = payload.length) (hle : payload.length ≤ bufSize)
    (hdone : (parseHeader header).msgDone = 0) :
    Decodes refuses (done ++ (header ++ payload)) messages (part ++ payload) := by
  intro more
  rw [List.append_assoc,h,decodeFrom_frame hlen hpayload hle,if_pos hdone]
  simp [hlen]

theorem whole (h : Decodes refuses done messages part) (hlen : header.length = headerSize)
    (hpayload : (parseHeader header).msgLen = payload.length) (hle : payload.length ≤ bufSize)
    (hdone : (parseHeader header).msgDone ≠ 0) (haccept : refuses messages.length = false) :
    Decodes refuses (done ++ (header ++ payload)) (messages ++ [part ++ payload]) [] := by
  intro more
  rw [List.append_assoc,h,decodeFrom_frame hlen hpayload hle,if_neg hdone,haccept]
  simp [hlen]

theorem refused (h : Decodes refuses done messages part) (hlen : header.length = headerSize)
    (hpayload : (parseHeader header).msgLen = payload.length) (hle : payload.length ≤ bufSize)
    (hdone : (parseHeader header).msgDone ≠ 0) (hrefuse : refuses messages.length = true)
    (more : Bytes) :
    decode refuses (done ++ (header ++ payload) ++ more) =
      ⟨messages ++ [part ++ payload],(done ++ (header ++ payload)).length,.refused⟩ := by
  rw [List.append_assoc,h,decodeFrom_frame hlen hpayload hle,if_neg hdone,hrefuse]
  simp [Decoded.behind,hlen]

theorem tooLong (h : Decodes refuses done messages part) (hlen : header.length = headerSize)
    (hlong : (parseHeader header).msgLen > bufSize) (more : Bytes) :
    decode refuses (done ++ header ++ more) =
      ⟨messages,(done ++ header).length,.tooLong⟩ := by
  rw [List.append_assoc,h,decodeFrom_tooLong hlen hlong]
  simp [Decoded.behind,hlen]

end Decodes

def encodeMessage : List (UInt8 × Bytes) → Bytes
  | [] => []
  | [(msgType,last)] => (createHeader last.length msgType true).bytes ++ last
  | (msgType,part) :: rest =>
    (createHeader part.length msgType false).bytes ++ part ++ encodeMessage rest

def encode (messages : List (List (UInt8 × Bytes))) : Bytes := messages.flatMap encodeMessage

def assemble (fragments : List (UInt8 × Bytes)) : Bytes := fragments.flatMap Prod.snd

def Fragments (fragments : List (UInt8 × Bytes)) : Prop :=
  fragments ≠ [] ∧ ∀ f ∈ fragments, f.2.length ≤ bufSize

theorem parse_createHeader {n : Nat} (msgType : UInt8) (done : Bool) (hn : n ≤ bufSize) :
    parseHeader (createHeader n msgType done).bytes =
      ⟨n,msgType,if done then 1 else 0⟩ := by
  have hrest := createHeader_bytes n msgType done []
  rw [List.append_nil] at hrest
  unfold bufSize at hn
  have hmod : n % 2^32 = n := Nat.mod_eq_of_lt (by omega)
  rw [hrest,createHeader,hmod]

section Encode
variable {refuses : Nat → Bool}

theorem decodeFrom_encodeMessage {fragments : List (UInt8 × Bytes)} (h : Fragments fragments)
    (n : Nat) (message rest : Bytes) :
    decodeFrom refuses n message (encodeMessage fragments ++ rest) =
      if refuses n then
        ⟨[message ++ assemble fragments],(encodeMessage fragments).length,.refused⟩
      else (decodeFrom refuses (n+1) [] rest).behind [message ++ assemble fragments]
        (encodeMessage fragments).length := by
  obtain ⟨hne,hsize⟩ := h
  induction fragments generalizing message with
  | nil => exact absurd rfl hne
  | cons f fragments ih =>
    obtain ⟨msgType,part⟩ := f
    have hpart : part.length ≤ bufSize := hsize (msgType,part) (by simp)
    have hone : ∀ done, (parseHeader (createHeader part.length msgType done).bytes).msgLen =
        part.length := fun done => by rw [parse_createHeader msgType done hpart]
    cases fragments with
    | nil =>
      have hdone : (parseHeader (createHeader part.length msgType true).bytes).msgDone ≠ 0 := by
        simp [parse_createHeader msgType true hpart]
      rw [encodeMessage,decodeFrom_frame (MsgHeader.bytes_length _) (hone true) hpart,
        if_neg hdone]
      simp [assemble]
    | cons g fragments =>
      have hmore : (parseHeader (createHeader part.length msgType false).bytes).msgDone = 0 := by
        simp [parse_createHeader msgType false hpart]
      have hrest := ih (message ++ part) (by simp) (fun f hf => hsize f (by simp [hf]))
      rw [encodeMessage,List.append_assoc _ (encodeMessage _) rest,
        decodeFrom_frame (MsgHeader.bytes_length _) (hone false) hpart,if_pos hmore,hrest]
      · split <;> simp [assemble,Decoded.behind,Nat.add_assoc]
      · simp

/-- Decoding undoes encoding, for every split into fragments. -/
theorem decodeFrom_encode {messages : List (List (UInt8 × Bytes))}
    (h : ∀ m ∈ messages, Fragments m) {n : Nat} (haccept : ∀ i, n ≤ i → refuses i = false)
    (rest : Bytes) :
    decodeFrom refuses n [] (encode messages ++ rest) =
      (decodeFrom refuses (n+messages.length) [] rest).behind (messages.map assemble)
        (encode messages).length := by
  induction messages generalizing n with
  | nil => simp [encode]
  | cons m messages ih =>
    have hrest := ih (n := n+1) (fun m hm => h m (by simp [hm]))
      (fun i hi => haccept i (by omega))
    have hcons : encode (m :: messages) = encodeMessage m ++ encode messages := rfl
    rw [hcons,List.append_assoc,
      decodeFrom_encodeMessage (h m (by simp)),haccept n (Nat.le_refl n),hrest,
      if_neg (by simp)]
    simp [Nat.add_assoc,Nat.add_comm 1]

theorem decode_encode {messages : List (List (UInt8 × Bytes))}
    (h : ∀ m ∈ messages, Fragments m) (haccept : ∀ i, refuses i = false) :
    decode refuses (encode messages) =
      ⟨messages.map assemble,(encode messages).length,.waiting [] []⟩ := by
  have hall := decodeFrom_encode h (fun i (_ : 0 ≤ i) => haccept i) []
  have hnil : decodeFrom refuses (0+messages.length) [] [] = ⟨[],0,.waiting [] []⟩ := by
    rw [decodeFrom,dif_pos (by decide)]
  rw [List.append_nil,hnil] at hall
  simpa [decode,Decoded.behind] using hall

theorem encodeMessage_pos {fragments : List (UInt8 × Bytes)} (h : Fragments fragments) :
    0 < (encodeMessage fragments).length := by
  cases fragments with
  | nil => exact absurd rfl h.1
  | cons f fragments =>
    have hheader : ∀ done, (createHeader f.2.length f.1 done).bytes.length = 6 := fun _ => rfl
    cases fragments with
    | nil =>
      simp only [encodeMessage,List.length_append,hheader]
      omega
    | cons g fragments =>
      simp only [encodeMessage,List.length_append,hheader]
      omega

/-- When no message behind the last one that is decided on was sent, all of them
are decoded. -/
theorem decodeFrom_encode_all {messages : List (List (UInt8 × Bytes))}
    (h : ∀ m ∈ messages, Fragments m) (n : Nat)
    (hall : (decodeFrom refuses n [] (encode messages)).Rejected →
      (decodeFrom refuses n [] (encode messages)).consumed = (encode messages).length) :
    (decodeFrom refuses n [] (encode messages)).messages = messages.map assemble := by
  induction messages generalizing n with
  | nil =>
    have hnil : encode [] = [] := rfl
    rw [hnil,decodeFrom_short (by decide)]
    rfl
  | cons m messages ih =>
    have hm := h m (by simp)
    have hcons : encode (m :: messages) = encodeMessage m ++ encode messages := rfl
    have hrest := ih (fun x hx => h x (by simp [hx]))
    rw [hcons] at hall ⊢
    rw [decodeFrom_encodeMessage hm] at hall ⊢
    cases hrefuse : refuses n with
    | false =>
      simp only [hrefuse,Bool.false_eq_true,if_false] at hall ⊢
      have hlast := hrest (n+1) (by
        intro hrej
        have hlen := hall hrej
        rw [Decoded.behind_consumed,List.length_append] at hlen
        omega)
      rw [Decoded.behind_messages,hlast]
      simp
    | true =>
      simp only [hrefuse,if_true] at hall ⊢
      have hlen := hall (.inr rfl)
      rw [List.length_append] at hlen
      have hnone : messages = [] := by
        cases messages with
        | nil => rfl
        | cons x rest =>
          have hpos := encodeMessage_pos (h x (by simp))
          have hx : encode (x :: rest) = encodeMessage x ++ encode rest := rfl
          rw [hx,List.length_append] at hlen
          omega
      rw [hnone]
      simp

theorem decode_encode_all (refuses : Nat → Bool) {messages : List (List (UInt8 × Bytes))}
    (h : ∀ m ∈ messages, Fragments m)
    (hall : (decode refuses (encode messages)).Rejected →
      (decode refuses (encode messages)).consumed = (encode messages).length) :
    (decode refuses (encode messages)).messages = messages.map assemble :=
  decodeFrom_encode_all h 0 hall

end Encode

end ChatServer
