import ChatServer.Room

/-! One iteration of the read loop: what a read can return, what an iteration
leaves alone, and that the queue plays no part in it. -/
set_option autoImplicit false

namespace ChatServer
open ByteString Memory Execution

/-- One iteration of the read loop, up to the call of `process_payload`. -/
def readTurn (c : ClientInfo) (k : Sock) : Except Fault (ClientInfo × Sock × Next) :=
  match c.state with
  | .readHeader => readHeader c k
  | .readPayload => readPayload c k

structure SockFrame (k k' : Sock) : Prop where
  fin : k'.fin = k.fin
  reset : k'.reset = k.reset
  registration : k'.registration = k.registration
  serial : k'.serial = k.serial
  joined : k'.joined = k.joined
  sends : k'.oracle.sends = k.oracle.sends
  packets : k'.oracle.packets = k.oracle.packets

theorem SockFrame.refl (k : Sock) : SockFrame k k := ⟨rfl,rfl,rfl,rfl,rfl,rfl,rfl⟩

theorem SockFrame.trans {k k' k'' : Sock} (h : SockFrame k k') (h' : SockFrame k' k'') :
    SockFrame k k'' :=
  ⟨h'.fin.trans h.fin,h'.reset.trans h.reset,h'.registration.trans h.registration,
    h'.serial.trans h.serial,h'.joined.trans h.joined,h'.sends.trans h.sends,
    h'.packets.trans h.packets⟩

structure InfoFrame (c c' : ClientInfo) : Prop where
  clientFd : c'.clientFd = c.clientFd
  epolloutEnabled : c'.epolloutEnabled = c.epolloutEnabled
  name : c'.name = c.name
  nameLen : c'.nameLen = c.nameLen
  hasName : c'.hasName = c.hasName
  closed : c'.closed = c.closed

inductive Sock.Reads (k : Sock) (count : Nat) : Sock → ReadOut → Prop
  | nothing (hcount : count = 0) : Sock.Reads k count k (.bytes [])
  | again {k' : Sock} (hcount : count ≠ 0) (hsame : SockFrame k k')
      (hinbox : k'.inbox = k.inbox) (htrace : k'.trace = k.trace) : Sock.Reads k count k' .again
  | failed {k' : Sock} (hcount : count ≠ 0) (hsame : SockFrame k k')
      (hinbox : k'.inbox = k.inbox) (htrace : k'.trace = k.trace ++ [.readFailed]) :
      Sock.Reads k count k' .failed
  | ended {k' : Sock} (hcount : count ≠ 0) (hsame : SockFrame k k') (hfin : k.fin = true)
      (hempty : k.inbox = []) (hinbox : k'.inbox = [])
      (htrace : k'.trace = k.trace ++ [.endOfStream]) : Sock.Reads k count k' (.bytes [])
  | bytes {k' : Sock} {bs : Bytes} (hsame : SockFrame k k') (hne : bs ≠ [])
      (hle : bs.length ≤ count) (hinbox : k.inbox = bs ++ k'.inbox)
      (htrace : k'.trace = k.trace ++ [.read bs]) : Sock.Reads k count k' (.bytes bs)

theorem Sock.Reads.taken {k k' : Sock} {count : Nat} {bs : Bytes}
    (h : k.Reads count k' (.bytes bs)) : k.inbox = bs ++ k'.inbox := by
  cases h with
  | nothing => rfl
  | ended _ _ _ hempty hinbox => rw [hempty,hinbox,List.nil_append]
  | bytes _ _ _ hinbox => exact hinbox

theorem Sock.Reads.size_le {k k' : Sock} {count : Nat} {bs : Bytes}
    (h : k.Reads count k' (.bytes bs)) : bs.length ≤ count := by
  cases h with
  | nothing => exact Nat.zero_le _
  | ended => exact Nat.zero_le _
  | bytes _ _ hle => exact hle

theorem take_append_drop_length (n : Nat) (l : Bytes) :
    l = l.take n ++ l.drop (l.take n).length := by
  by_cases hn : n ≤ l.length
  · rw [List.length_take_of_le hn,List.take_append_drop]
  · rw [List.take_of_length_le (by omega),List.drop_length,List.append_nil]

namespace Sock

theorem receive_reads {k : Sock} {count : Nat} (n : Nat) (hcount : count ≠ 0) :
    k.Reads count (k.receive count n).1 (k.receive count n).2 := by
  unfold receive
  by_cases hempty : k.inbox = []
  · rw [if_pos hempty]
    cases hfin : k.fin with
    | false => exact .again hcount (.refl k) rfl rfl
    | true => exact .ended hcount ⟨rfl,rfl,rfl,rfl,rfl,rfl,rfl⟩ hfin hempty hempty rfl
  · rw [if_neg hempty]
    have hpos : 0 < k.inbox.length := List.length_pos_iff.mpr hempty
    have hlen : (k.inbox.take (min count (max 1 n))).length =
        min (min count (max 1 n)) k.inbox.length := List.length_take
    have hne : k.inbox.take (min count (max 1 n)) ≠ [] := by
      rw [← List.length_pos_iff]
      omega
    refine .bytes ⟨rfl,rfl,rfl,rfl,rfl,rfl,rfl⟩ hne (by omega) ?_ rfl
    exact take_append_drop_length _ _

theorem Reads.of_withReads {k k' : Sock} {count : Nat} {out : ReadOut} {rest : List ReadRes}
    (h : (k.withReads rest).Reads count k' out) (hcount : count ≠ 0) : k.Reads count k' out := by
  have hplan : SockFrame k (k.withReads rest) := ⟨rfl,rfl,rfl,rfl,rfl,rfl,rfl⟩
  cases h with
  | nothing h0 => exact absurd h0 hcount
  | again _ hsame hinbox htrace => exact .again hcount (hplan.trans hsame) hinbox htrace
  | failed _ hsame hinbox htrace => exact .failed hcount (hplan.trans hsame) hinbox htrace
  | ended _ hsame hfin hempty hinbox htrace =>
    exact .ended hcount (hplan.trans hsame) hfin hempty hinbox htrace
  | bytes hsame hne hle hinbox htrace =>
    exact .bytes (hplan.trans hsame) hne hle hinbox htrace

theorem read_reads (k : Sock) (count : Nat) :
    k.Reads count (k.read count).1 (k.read count).2 := by
  unfold read
  by_cases hcount : count = 0
  · rw [if_pos hcount]
    exact .nothing hcount
  · rw [if_neg hcount]
    cases k.oracle.reads with
    | nil => exact receive_reads count hcount
    | cons r rest =>
      cases r with
      | upTo n => exact (receive_reads n hcount).of_withReads hcount
      | wouldBlock => exact .again hcount ⟨rfl,rfl,rfl,rfl,rfl,rfl,rfl⟩ rfl rfl
      | fails => exact .failed hcount ⟨rfl,rfl,rfl,rfl,rfl,rfl,rfl⟩ rfl rfl

end Sock

def ClientInfo.gotHeader (c : ClientInfo) (buffer : Buf headerSize) (n : Nat) : ClientInfo :=
  { c with headerBuffer := buffer, headerBytesRead := c.headerBytesRead+n }

def ClientInfo.parsed (c : ClientInfo) : ClientInfo :=
  { c with expectedPayloadLen := (parseHeader c.headerBuffer.data).msgLen,
           msgType := (parseHeader c.headerBuffer.data).msgType,
           msgDone := (parseHeader c.headerBuffer.data).msgDone }

def ClientInfo.gotPayload (c : ClientInfo) (buffer : Buf bufSize) (n : Nat) : ClientInfo :=
  { c with payloadBuffer := buffer, payloadBytesRead := c.payloadBytesRead+n }

def Fits (c : ClientInfo) : Prop :=
  c.state = .readPayload → c.payloadBytesRead ≤ c.expectedPayloadLen

/-- The reader waits for bytes, and has no complete payload in hand. -/
def Suspended (c : ClientInfo) : Prop :=
  c.state = .readPayload → c.payloadBytesRead < c.expectedPayloadLen

theorem Suspended.fits {c : ClientInfo} (h : Suspended c) : Fits c :=
  fun hs => Nat.le_of_lt (h hs)

theorem suspended_header {c : ClientInfo} (h : c.state = .readHeader) : Suspended c := by
  intro hp
  rw [h] at hp
  cases hp

inductive HeaderTurn (c : ClientInfo) (k : Sock) : ClientInfo → Sock → Next → Prop
  | blocked {k' : Sock} (hread : k.Reads (sizeSub headerSize c.headerBytesRead) k' .again) :
      HeaderTurn c k c k' (.ret 0)
  | failed {k' : Sock} (hread : k.Reads (sizeSub headerSize c.headerBytesRead) k' .failed) :
      HeaderTurn c k c k' (.ret (-1))
  | ended {k' : Sock}
      (hread : k.Reads (sizeSub headerSize c.headerBytesRead) k' (.bytes [])) :
      HeaderTurn c k c k' (.ret (-1))
  | short {k' : Sock} {bs : Bytes} {b : Buf headerSize} (hne : bs ≠ [])
      (hread : k.Reads (sizeSub headerSize c.headerBytesRead) k' (.bytes bs))
      (hwrite : c.headerBuffer.write c.headerBytesRead bs = some b)
      (hlt : c.headerBytesRead+bs.length < headerSize) :
      HeaderTurn c k (c.gotHeader b bs.length) k' (.ret 0)
  | tooLarge {k' : Sock} {bs : Bytes} {b : Buf headerSize} (hne : bs ≠ [])
      (hread : k.Reads (sizeSub headerSize c.headerBytesRead) k' (.bytes bs))
      (hwrite : c.headerBuffer.write c.headerBytesRead bs = some b)
      (heq : c.headerBytesRead+bs.length = headerSize)
      (hlarge : bufSize < (parseHeader b.data).msgLen) :
      HeaderTurn c k (c.gotHeader b bs.length).parsed k' (.ret (-1))
  | complete {k' : Sock} {bs : Bytes} {b : Buf headerSize} (hne : bs ≠ [])
      (hread : k.Reads (sizeSub headerSize c.headerBytesRead) k' (.bytes bs))
      (hwrite : c.headerBuffer.write c.headerBytesRead bs = some b)
      (heq : c.headerBytesRead+bs.length = headerSize)
      (hle : (parseHeader b.data).msgLen ≤ bufSize) :
      HeaderTurn c k { (c.gotHeader b bs.length).parsed with
        state := .readPayload, headerBytesRead := 0, payloadBytesRead := 0 } k' .again

inductive PayloadTurn (c : ClientInfo) (k : Sock) : ClientInfo → Sock → Next → Prop
  | blocked {k' : Sock}
      (hread : k.Reads (sizeSub c.expectedPayloadLen c.payloadBytesRead) k' .again) :
      PayloadTurn c k c k' (.ret 0)
  | failed {k' : Sock}
      (hread : k.Reads (sizeSub c.expectedPayloadLen c.payloadBytesRead) k' .failed) :
      PayloadTurn c k c k' (.ret (-1))
  | short {k' : Sock} {bs : Bytes} {b : Buf bufSize}
      (hread : k.Reads (sizeSub c.expectedPayloadLen c.payloadBytesRead) k' (.bytes bs))
      (hwrite : c.payloadBuffer.write c.payloadBytesRead bs = some b)
      (hlt : c.payloadBytesRead+bs.length < c.expectedPayloadLen) :
      PayloadTurn c k (c.gotPayload b bs.length) k' (.ret 0)
  | long {k' : Sock} {bs : Bytes} {b : Buf bufSize}
      (hread : k.Reads (sizeSub c.expectedPayloadLen c.payloadBytesRead) k' (.bytes bs))
      (hwrite : c.payloadBuffer.write c.payloadBytesRead bs = some b)
      (hgt : c.expectedPayloadLen < c.payloadBytesRead+bs.length) :
      PayloadTurn c k (c.gotPayload b bs.length) k' (.ret (-1))
  | fragment {k' k'' : Sock} {bs : Bytes} {b : Buf bufSize} {c' : ClientInfo} {r : Int}
      (hread : k.Reads (sizeSub c.expectedPayloadLen c.payloadBytesRead) k' (.bytes bs))
      (hwrite : c.payloadBuffer.write c.payloadBytesRead bs = some b)
      (heq : c.payloadBytesRead+bs.length = c.expectedPayloadLen)
      (happend : appendToClientBuffer (c.gotPayload b bs.length) k' = .ok (c',k'',r))
      (hmore : c'.msgDone = 0) : PayloadTurn c k (switchToHeader c') k'' .again
  | message {k' k'' k₃ : Sock} {bs : Bytes} {b : Buf bufSize} {c' : ClientInfo} {r : Int}
      {copy : Option Bytes}
      (hread : k.Reads (sizeSub c.expectedPayloadLen c.payloadBytesRead) k' (.bytes bs))
      (hwrite : c.payloadBuffer.write c.payloadBytesRead bs = some b)
      (heq : c.payloadBytesRead+bs.length = c.expectedPayloadLen)
      (happend : appendToClientBuffer (c.gotPayload b bs.length) k' = .ok (c',k'',r))
      (hdone : c'.msgDone ≠ 0)
      (hcopy : copyBuffer k'' c'.partialMsg c'.partialLen = .ok (k₃,copy)) :
      PayloadTurn c k c' (k₃.note (.message (copy.map List.dropLast))) (.deliver copy)

theorem storeBytes_eq_ok {n : Nat} {b b' : Buf n} {off : Nat} {bs : Bytes} :
    storeBytes b off bs = .ok b' ↔ b.write off bs = some b' := by
  unfold storeBytes
  cases b.write off bs <;> simp

theorem readHeader_turn {c c' : ClientInfo} {k k' : Sock} {next : Next}
    (h : readHeader c k = .ok (c',k',next)) : HeaderTurn c k c' k' next := by
  have hread := k.read_reads (sizeSub headerSize c.headerBytesRead)
  unfold readHeader at h
  rcases hr : k.read (sizeSub headerSize c.headerBytesRead) with ⟨k₁,out⟩
  rw [hr] at hread
  simp only [hr] at h
  cases out with
  | again =>
    cases h
    exact .blocked hread
  | failed =>
    cases h
    exact .failed hread
  | bytes bs =>
    cases bs with
    | nil =>
      cases h
      exact .ended hread
    | cons x xs =>
      simp only at h
      cases hs : storeBytes c.headerBuffer c.headerBytesRead (x :: xs) with
      | error e => simp [hs] at h
      | ok b =>
        have hwrite := storeBytes_eq_ok.mp hs
        obtain ⟨hfit,-⟩ := Buf.write_eq_some.mp hwrite
        simp only [hs,ok_bind] at h
        by_cases hlt : c.headerBytesRead+(x :: xs).length < headerSize
        · rw [if_pos hlt] at h
          cases h
          exact .short (by simp) hread hwrite hlt
        · have heq : c.headerBytesRead+(x :: xs).length = headerSize := by omega
          have hngt : ¬ c.headerBytesRead+(x :: xs).length > headerSize := by omega
          rw [if_neg hlt,if_neg hngt] at h
          by_cases hlarge : (parseHeader b.data).msgLen > bufSize
          · rw [if_pos hlarge] at h
            cases h
            exact .tooLarge (by simp) hread hwrite heq hlarge
          · rw [if_neg hlarge] at h
            cases h
            exact .complete (by simp) hread hwrite heq (by omega)

theorem readPayload_turn {c c' : ClientInfo} {k k' : Sock} {next : Next}
    (h : readPayload c k = .ok (c',k',next)) : PayloadTurn c k c' k' next := by
  have hread := k.read_reads (sizeSub c.expectedPayloadLen c.payloadBytesRead)
  unfold readPayload at h
  rcases hr : k.read (sizeSub c.expectedPayloadLen c.payloadBytesRead) with ⟨k₁,out⟩
  rw [hr] at hread
  simp only [hr] at h
  cases out with
  | again =>
    cases h
    exact .blocked hread
  | failed =>
    cases h
    exact .failed hread
  | bytes bs =>
    simp only at h
    cases hs : storeBytes c.payloadBuffer c.payloadBytesRead bs with
    | error e => simp [hs] at h
    | ok b =>
      have hwrite := storeBytes_eq_ok.mp hs
      simp only [hs,ok_bind] at h
      by_cases hlt : c.payloadBytesRead+bs.length < c.expectedPayloadLen
      · rw [if_pos hlt] at h
        cases h
        exact .short hread hwrite hlt
      · rw [if_neg hlt] at h
        by_cases hgt : c.payloadBytesRead+bs.length > c.expectedPayloadLen
        · rw [if_pos hgt] at h
          cases h
          exact .long hread hwrite hgt
        · rw [if_neg hgt] at h
          have heq : c.payloadBytesRead+bs.length = c.expectedPayloadLen := by omega
          cases ha : appendToClientBuffer (c.gotPayload b bs.length) k₁ with
          | error e =>
            have ha' := ha
            unfold ClientInfo.gotPayload at ha'
            simp [ha'] at h
          | ok res =>
            obtain ⟨c₂,k₂,r⟩ := res
            have ha' := ha
            unfold ClientInfo.gotPayload at ha'
            simp only [ha',ok_bind] at h
            by_cases hdone : c₂.msgDone = 0
            · rw [if_neg (not_not.mpr hdone)] at h
              cases h
              exact .fragment hread hwrite heq ha hdone
            · rw [if_pos hdone] at h
              cases hc : copyBuffer k₂ c₂.partialMsg c₂.partialLen with
              | error e => simp [hc] at h
              | ok res =>
                obtain ⟨k₃,copy⟩ := res
                simp only [hc,ok_bind] at h
                cases h
                exact .message hread hwrite heq ha hdone hc

/-- All that one iteration of the read loop can do. -/
theorem readTurn_turn {c c' : ClientInfo} {k k' : Sock} {next : Next}
    (h : readTurn c k = .ok (c',k',next)) :
    (c.state = .readHeader ∧ HeaderTurn c k c' k' next) ∨
      (c.state = .readPayload ∧ PayloadTurn c k c' k' next) := by
  unfold readTurn at h
  cases hs : c.state with
  | readHeader =>
    rw [hs] at h
    exact .inl ⟨rfl,readHeader_turn h⟩
  | readPayload =>
    rw [hs] at h
    exact .inr ⟨rfl,readPayload_turn h⟩

/-- A block operation uses up one outcome, and notes it when it is a failure. -/
structure BlockFrame (k k' : Sock) : Prop where
  same : SockFrame k k'
  inbox : k'.inbox = k.inbox
  trace : k'.trace = k.trace ∨ k'.trace = k.trace ++ [.blockFailed]

theorem BlockFrame.refl (k : Sock) : BlockFrame k k := ⟨.refl k,rfl,.inl rfl⟩

theorem Sock.realloc_frame (k : Sock) (old : Option Bytes) (size : Nat) :
    BlockFrame k (k.realloc old size).1 := by
  unfold Sock.realloc
  simp only
  split
  · exact ⟨⟨rfl,rfl,rfl,rfl,rfl,rfl,rfl⟩,rfl,.inr rfl⟩
  · exact ⟨⟨rfl,rfl,rfl,rfl,rfl,rfl,rfl⟩,rfl,.inl rfl⟩

inductive Appended (c : ClientInfo) (k : Sock) : ClientInfo → Sock → Int → Prop
  | fits {block : Option Bytes} (hfits : ¬ c.partialLen+c.payloadBytesRead > c.partialCap)
      (hwrite : writeBlock c.partialMsg c.partialLen
        (c.payloadBuffer.data.take c.payloadBytesRead) = .ok block) :
      Appended c k
        { c with partialMsg := block, partialLen := c.partialLen+c.payloadBytesRead } k 0
  | grown {k' : Sock} {new : Bytes} {block : Option Bytes}
      (hgrow : c.partialLen+c.payloadBytesRead > c.partialCap)
      (hrealloc : k.realloc c.partialMsg (growCap (c.partialLen+c.payloadBytesRead) c.partialCap
        (c.partialLen+c.payloadBytesRead)) = (k',some new))
      (hwrite : writeBlock (some new) c.partialLen
        (c.payloadBuffer.data.take c.payloadBytesRead) = .ok block) :
      Appended c k { c with
        partialMsg := block
        partialLen := c.partialLen+c.payloadBytesRead
        partialCap := growCap (c.partialLen+c.payloadBytesRead) c.partialCap
          (c.partialLen+c.payloadBytesRead) } k' 0
  | failed {k' : Sock} (hgrow : c.partialLen+c.payloadBytesRead > c.partialCap)
      (hrealloc : k.realloc c.partialMsg (growCap (c.partialLen+c.payloadBytesRead) c.partialCap
        (c.partialLen+c.payloadBytesRead)) = (k',none)) :
      Appended c k { c with
        partialMsg := none
        partialCap := growCap (c.partialLen+c.payloadBytesRead) c.partialCap
          (c.partialLen+c.payloadBytesRead) } k' (-1)

theorem appendToClientBuffer_appended {c c' : ClientInfo} {k k' : Sock} {r : Int}
    (h : appendToClientBuffer c k = .ok (c',k',r)) : Appended c k c' k' r := by
  unfold appendToClientBuffer at h
  by_cases hgrow : c.partialLen+c.payloadBytesRead > c.partialCap
  · rcases hr : k.realloc c.partialMsg (growCap (c.partialLen+c.payloadBytesRead)
      c.partialCap (c.partialLen+c.payloadBytesRead)) with ⟨k₁,block⟩
    simp only [hgrow,if_true,hr] at h
    cases block with
    | none =>
      cases h
      exact .failed hgrow hr
    | some new =>
      simp only [Option.isSome_some,if_true] at h
      cases hw : writeBlock (some new) c.partialLen
          (c.payloadBuffer.data.take c.payloadBytesRead) with
      | error e => simp [hw] at h
      | ok block =>
        simp only [hw,ok_bind] at h
        cases h
        exact .grown hgrow hr hw
  · simp only [hgrow,if_false,if_true] at h
    cases hw : writeBlock c.partialMsg c.partialLen
        (c.payloadBuffer.data.take c.payloadBytesRead) with
    | error e => simp [hw] at h
    | ok block =>
      simp only [hw,ok_bind] at h
      cases h
      exact .fits hgrow hw

theorem appendToClientBuffer_frame {c c' : ClientInfo} {k k' : Sock} {r : Int}
    (h : appendToClientBuffer c k = .ok (c',k',r)) :
    BlockFrame k k' ∧ c' = { c with partialMsg := c'.partialMsg, partialLen := c'.partialLen,
                                    partialCap := c'.partialCap } := by
  have hframe := k.realloc_frame c.partialMsg (growCap (c.partialLen+c.payloadBytesRead)
    c.partialCap (c.partialLen+c.payloadBytesRead))
  cases appendToClientBuffer_appended h with
  | fits => exact ⟨.refl _,rfl⟩
  | grown _ hrealloc _ =>
    rw [hrealloc] at hframe
    exact ⟨hframe,rfl⟩
  | failed _ hrealloc =>
    rw [hrealloc] at hframe
    exact ⟨hframe,rfl⟩

theorem copyBuffer_frame {k k' : Sock} {src copy : Option Bytes} {size : Nat}
    (h : copyBuffer k src size = .ok (k',copy)) : BlockFrame k k' := by
  have hframe := k.realloc_frame none (size+1)
  unfold copyBuffer at h
  rcases hr : k.realloc none (size+1) with ⟨k₁,block⟩
  rw [hr] at hframe
  simp only [hr] at h
  cases block with
  | none =>
    cases h
    exact hframe
  | some bs =>
    cases hb : readBlock src size with
    | error e => simp [hb] at h
    | ok text =>
      simp only [hb,ok_bind] at h
      cases h
      exact hframe

theorem Sock.Reads.same {k k' : Sock} {count : Nat} {out : ReadOut}
    (h : k.Reads count k' out) : SockFrame k k' := by
  cases h with
  | nothing => exact .refl k
  | again _ hsame => exact hsame
  | failed _ hsame => exact hsame
  | ended _ hsame => exact hsame
  | bytes hsame => exact hsame

theorem HeaderTurn.frame {c c' : ClientInfo} {k k' : Sock} {next : Next}
    (h : HeaderTurn c k c' k' next) : InfoFrame c c' ∧ SockFrame k k' := by
  cases h with
  | blocked hread => exact ⟨⟨rfl,rfl,rfl,rfl,rfl,rfl⟩,hread.same⟩
  | failed hread => exact ⟨⟨rfl,rfl,rfl,rfl,rfl,rfl⟩,hread.same⟩
  | ended hread => exact ⟨⟨rfl,rfl,rfl,rfl,rfl,rfl⟩,hread.same⟩
  | short _ hread => exact ⟨⟨rfl,rfl,rfl,rfl,rfl,rfl⟩,hread.same⟩
  | tooLarge _ hread => exact ⟨⟨rfl,rfl,rfl,rfl,rfl,rfl⟩,hread.same⟩
  | complete _ hread => exact ⟨⟨rfl,rfl,rfl,rfl,rfl,rfl⟩,hread.same⟩

theorem PayloadTurn.frame {c c' : ClientInfo} {k k' : Sock} {next : Next}
    (h : PayloadTurn c k c' k' next) : InfoFrame c c' ∧ SockFrame k k' := by
  cases h with
  | blocked hread => exact ⟨⟨rfl,rfl,rfl,rfl,rfl,rfl⟩,hread.same⟩
  | failed hread => exact ⟨⟨rfl,rfl,rfl,rfl,rfl,rfl⟩,hread.same⟩
  | short hread => exact ⟨⟨rfl,rfl,rfl,rfl,rfl,rfl⟩,hread.same⟩
  | long hread => exact ⟨⟨rfl,rfl,rfl,rfl,rfl,rfl⟩,hread.same⟩
  | fragment hread _ _ happend =>
    obtain ⟨hblock,hc⟩ := appendToClientBuffer_frame happend
    rw [hc]
    exact ⟨⟨rfl,rfl,rfl,rfl,rfl,rfl⟩,hread.same.trans hblock.same⟩
  | message hread _ _ happend _ hcopy =>
    obtain ⟨hblock,hc⟩ := appendToClientBuffer_frame happend
    have hlast := (copyBuffer_frame hcopy).same
    have hsame := (hread.same.trans hblock.same).trans hlast
    rw [hc]
    exact ⟨⟨rfl,rfl,rfl,rfl,rfl,rfl⟩,hsame.trans ⟨rfl,rfl,rfl,rfl,rfl,rfl,rfl⟩⟩

theorem readTurn_frame {c c' : ClientInfo} {k k' : Sock} {next : Next}
    (h : readTurn c k = .ok (c',k',next)) : InfoFrame c c' ∧ SockFrame k k' := by
  rcases readTurn_turn h with ⟨-,hturn⟩ | ⟨-,hturn⟩
  · exact hturn.frame
  · exact hturn.frame

theorem finishMessage_eq {c c' : ClientInfo} (h : finishMessage c = .ok c') :
    ∃ i r, clearClientBuffer c = .ok (i,r) ∧ c' = switchToHeader i := by
  unfold finishMessage at h
  cases hclear : clearClientBuffer c with
  | error e => simp [hclear] at h
  | ok res =>
    simp only [hclear,ok_bind] at h
    cases h
    exact ⟨_,_,rfl,rfl⟩

section Queues
variable (c : ClientInfo) (k : Sock) (q : MsgQueue)

def keepQueue {α : Type} (q : MsgQueue) (r : ClientInfo × α) : ClientInfo × α :=
  (r.1.withQueue q,r.2)

theorem appendToClientBuffer_withQueue : appendToClientBuffer (c.withQueue q) k =
    (appendToClientBuffer c k).map (keepQueue q) := by
  have hl : (c.withQueue q).partialLen = c.partialLen := rfl
  have hp : (c.withQueue q).payloadBytesRead = c.payloadBytesRead := rfl
  have hc : (c.withQueue q).partialCap = c.partialCap := rfl
  have hm : (c.withQueue q).partialMsg = c.partialMsg := rfl
  have hb : (c.withQueue q).payloadBuffer = c.payloadBuffer := rfl
  unfold appendToClientBuffer
  simp only [hl,hp,hc,hm,hb]
  by_cases hgrow : c.partialLen+c.payloadBytesRead > c.partialCap
  · simp only [hgrow,if_true]
    cases (k.realloc c.partialMsg (growCap (c.partialLen+c.payloadBytesRead) c.partialCap
      (c.partialLen+c.payloadBytesRead))).2 with
    | none => rfl
    | some bs =>
      simp only [Option.isSome_some,if_true]
      cases writeBlock (some bs) c.partialLen
        (c.payloadBuffer.data.take c.payloadBytesRead) <;> rfl
  · simp only [hgrow,if_false,if_true,hl,hp,hm,hb]
    cases writeBlock c.partialMsg c.partialLen
      (c.payloadBuffer.data.take c.payloadBytesRead) <;> rfl

theorem readHeader_withQueue :
    readHeader (c.withQueue q) k = (readHeader c k).map (keepQueue q) := by
  have hn : (c.withQueue q).headerBytesRead = c.headerBytesRead := rfl
  have hb : (c.withQueue q).headerBuffer = c.headerBuffer := rfl
  unfold readHeader
  simp only [hn,hb]
  rcases k.read (sizeSub headerSize c.headerBytesRead) with ⟨k₁,out⟩
  cases out with
  | again => rfl
  | failed => rfl
  | bytes bs =>
    cases bs with
    | nil => rfl
    | cons x xs =>
      simp only
      cases storeBytes c.headerBuffer c.headerBytesRead (x :: xs) with
      | error e => rfl
      | ok b =>
        simp only [ok_bind]
        split
        · rfl
        · split
          · rfl
          · split <;> rfl

theorem readPayload_withQueue :
    readPayload (c.withQueue q) k = (readPayload c k).map (keepQueue q) := by
  have hn : (c.withQueue q).payloadBytesRead = c.payloadBytesRead := rfl
  have he : (c.withQueue q).expectedPayloadLen = c.expectedPayloadLen := rfl
  have hb : (c.withQueue q).payloadBuffer = c.payloadBuffer := rfl
  unfold readPayload
  simp only [hn,he,hb]
  rcases k.read (sizeSub c.expectedPayloadLen c.payloadBytesRead) with ⟨k₁,out⟩
  cases out with
  | again => rfl
  | failed => rfl
  | bytes bs =>
    simp only
    cases storeBytes c.payloadBuffer c.payloadBytesRead bs with
    | error e => rfl
    | ok b =>
      simp only [ok_bind]
      split
      · rfl
      · split
        · rfl
        · have hq := appendToClientBuffer_withQueue (c.gotPayload b bs.length) k₁ q
          simp only [ClientInfo.gotPayload,ClientInfo.withQueue] at hq
          simp only [ClientInfo.withQueue,hq]
          generalize appendToClientBuffer _ k₁ = res
          cases res with
          | error e => rfl
          | ok res =>
            obtain ⟨c₂,k₂,r⟩ := res
            simp only [Except.map,keepQueue,ok_bind]
            by_cases hdone : c₂.msgDone = 0
            · have hdone' : (c₂.withQueue q).msgDone = 0 := hdone
              rw [if_neg (not_not.mpr hdone),if_neg (not_not.mpr hdone')]
              rfl
            · have hdone' : ¬ (c₂.withQueue q).msgDone = 0 := hdone
              have hm : (c₂.withQueue q).partialMsg = c₂.partialMsg := rfl
              have hl : (c₂.withQueue q).partialLen = c₂.partialLen := rfl
              rw [if_pos hdone,if_pos hdone',hm,hl]
              cases copyBuffer k₂ c₂.partialMsg c₂.partialLen <;> rfl

theorem readTurn_withQueue :
    readTurn (c.withQueue q) k = (readTurn c k).map (keepQueue q) := by
  have hs : (c.withQueue q).state = c.state := rfl
  unfold readTurn
  rw [hs]
  cases c.state with
  | readHeader => exact readHeader_withQueue c k q
  | readPayload => exact readPayload_withQueue c k q

theorem finishMessage_withQueue :
    finishMessage (c.withQueue q) = (finishMessage c).map (fun c => c.withQueue q) := by
  have hm : (c.withQueue q).partialMsg = c.partialMsg := rfl
  have hl : (c.withQueue q).partialLen = c.partialLen := rfl
  unfold finishMessage clearClientBuffer
  rw [hm,hl]
  cases writeBlock c.partialMsg 0 (List.replicate c.partialLen 0) with
  | error e => rfl
  | ok block => cases block <;> rfl

theorem finishMessage_frame {c c' : ClientInfo} (h : finishMessage c = .ok c') :
    InfoFrame c c' := by
  unfold finishMessage clearClientBuffer at h
  cases hw : writeBlock c.partialMsg 0 (List.replicate c.partialLen 0) with
  | error e => simp [hw] at h
  | ok block =>
    simp only [hw,ok_bind] at h
    cases block with
    | none =>
      cases h
      exact ⟨rfl,rfl,rfl,rfl,rfl,rfl⟩
    | some bs =>
      cases h
      exact ⟨rfl,rfl,rfl,rfl,rfl,rfl⟩

end Queues
end ChatServer
