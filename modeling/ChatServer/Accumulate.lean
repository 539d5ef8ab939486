import ChatServer.Bystander

/-! The block in which a client's fragments are put together: what it holds, and
what appending, copying, naming and clearing do to it. -/
set_option autoImplicit false

namespace ChatServer
open ByteString Memory Execution

/-- The block holds `message`, and its recorded capacity is really there. -/
structure Stored (c : ClientInfo) (message : Bytes) : Prop where
  len : c.partialLen = message.length
  le : c.partialLen ≤ c.partialCap
  large : bufSize ≤ c.partialCap
  block : ∃ buf, c.partialMsg = some buf ∧ c.partialCap ≤ buf.length ∧
    buf.take c.partialLen = message

/-- A failed `realloc` has lost the block, and the recorded length and capacity
hide it: the next bytes go through the null pointer. -/
structure Lost (c : ClientInfo) : Prop where
  block : c.partialMsg = none
  pos : 0 < c.partialLen
  room : c.partialLen+bufSize ≤ c.partialCap

def ClientInfo.block (c : ClientInfo) : Option Bytes × Nat × Nat :=
  (c.partialMsg,c.partialLen,c.partialCap)

theorem Stored.congr {c c' : ClientInfo} {message : Bytes} (h : Stored c message)
    (hblock : c'.block = c.block) : Stored c' message := by
  simp only [ClientInfo.block,Prod.mk.injEq] at hblock
  obtain ⟨hmsg,hlen,hcap⟩ := hblock
  obtain ⟨h₁,h₂,h₃,h₄⟩ := h
  rw [← hmsg,← hcap,← hlen] at h₄
  exact ⟨by omega,by omega,by omega,h₄⟩

theorem Lost.congr {c c' : ClientInfo} (h : Lost c) (hblock : c'.block = c.block) :
    Lost c' := by
  simp only [ClientInfo.block,Prod.mk.injEq] at hblock
  obtain ⟨hmsg,hlen,hcap⟩ := hblock
  obtain ⟨h₁,h₂,h₃⟩ := h
  exact ⟨hmsg.trans h₁,by omega,by omega⟩

/-- A failed allocation is the only reason for not holding the message. -/
def Holding (c : ClientInfo) (trace : List Obs) (message : Bytes) : Prop :=
  Stored c message ∨ (Lost c ∧ .blockFailed ∈ trace)

theorem growCap_ge (fuel cap needed : Nat) : cap ≤ growCap fuel cap needed := by
  induction fuel generalizing cap with
  | zero => exact Nat.le_refl _
  | succ fuel ih =>
    unfold growCap
    split
    · have hrest := ih (2*cap)
      omega
    · exact Nat.le_refl _

theorem growCap_needed {fuel cap needed : Nat} (hcap : 0 < cap) (hfuel : needed ≤ cap+fuel) :
    needed ≤ growCap fuel cap needed := by
  induction fuel generalizing cap with
  | zero => exact hfuel
  | succ fuel ih =>
    unfold growCap
    split
    · exact ih (by omega) (by omega)
    · omega

theorem growCap_double {cap needed : Nat} (h : cap < needed) :
    2*cap ≤ growCap needed cap needed := by
  cases needed with
  | zero => omega
  | succ n =>
    unfold growCap
    rw [if_pos h]
    exact growCap_ge _ _ _

theorem Sock.realloc_some {k k' : Sock} {old : Option Bytes} {size : Nat} {bs : Bytes}
    (h : k.realloc old size = (k',some bs)) :
    bs.length = size ∧ ∀ n, n ≤ size → n ≤ (old.getD []).length →
      bs.take n = (old.getD []).take n := by
  unfold Sock.realloc at h
  simp only at h
  split at h
  · cases h
  · cases h
    constructor
    · simp only [List.length_take,List.length_append,List.length_replicate]
      omega
    · intro n hn hold
      rw [List.take_take,Nat.min_eq_left hn,List.append_assoc,
        List.take_append_of_le_length (by simp only [List.length_take]; omega),List.take_take,
        Nat.min_eq_left hn]

theorem Sock.realloc_none {k k' : Sock} {old : Option Bytes} {size : Nat}
    (h : k.realloc old size = (k',none)) : k'.trace = k.trace ++ [.blockFailed] := by
  unfold Sock.realloc at h
  simp only at h
  split at h
  · cases h
    rfl
  · cases h

theorem writeBlock_some {old bs : Bytes} {off : Nat} {block : Option Bytes}
    (h : writeBlock (some old) off bs = .ok block) :
    ∃ new, block = some new ∧ new.length = old.length ∧
      new.take (off+bs.length) = old.take off ++ bs := by
  unfold writeBlock at h
  simp only at h
  split at h
  · rename_i hfit
    cases h
    refine ⟨_,rfl,Buf.write_length hfit,?_⟩
    have hoff : (old.take off).length = off := by
      rw [List.length_take]
      omega
    have hlen : (old.take off ++ bs).length = off+bs.length := by rw [List.length_append,hoff]
    rw [List.take_append_of_le_length (by omega),List.take_of_length_le (by omega)]
  · cases h

theorem writeBlock_none {off : Nat} {bs : Bytes} {block : Option Bytes}
    (h : writeBlock none off bs = .ok block) : bs = [] ∧ block = none := by
  unfold writeBlock at h
  simp only at h
  split at h
  · cases h
    exact ⟨‹_›,rfl⟩
  · cases h

theorem growCap_fits {c : ClientInfo} (hlarge : bufSize ≤ c.partialCap) :
    c.partialLen+c.payloadBytesRead ≤ growCap (c.partialLen+c.payloadBytesRead) c.partialCap
      (c.partialLen+c.payloadBytesRead) := by
  unfold bufSize at hlarge
  exact growCap_needed (by omega) (by omega)

theorem fragment_length {c : ClientInfo} (hsize : c.payloadBytesRead ≤ bufSize) :
    (c.payloadBuffer.data.take c.payloadBytesRead).length = c.payloadBytesRead := by
  rw [List.length_take,c.payloadBuffer.size]
  exact Nat.min_eq_left hsize

theorem Stored.append {c c' : ClientInfo} {k k' : Sock} {r : Int} {message : Bytes}
    (h : Stored c message) (hsize : c.payloadBytesRead ≤ bufSize)
    (happend : appendToClientBuffer c k = .ok (c',k',r)) :
    Holding c' k'.trace (message ++ c.payloadBuffer.data.take c.payloadBytesRead) := by
  obtain ⟨hlen,hle,hmin,buf,hbuf,hcap,htake⟩ := h
  have hpayload := fragment_length hsize
  cases appendToClientBuffer_appended happend with
  | fits hfits hwrite =>
    rw [hbuf] at hwrite
    obtain ⟨full,rfl,hfull,hread⟩ := writeBlock_some hwrite
    rw [hpayload,htake] at hread
    refine .inl ⟨?_,by simp only; omega,hmin,full,rfl,by simp only; omega,hread⟩
    rw [List.length_append,hpayload,← hlen]
  | @grown _ new _ hgrow hrealloc hwrite =>
    have hdouble := growCap_double hgrow
    have hneeded := growCap_fits hmin
    obtain ⟨hnew,hkept⟩ := Sock.realloc_some hrealloc
    have hold : (c.partialMsg.getD []) = buf := by rw [hbuf]; rfl
    rw [hold] at hkept
    have hsame : new.take c.partialLen = message := by
      rw [hkept _ (by omega) (by omega),htake]
    obtain ⟨full,rfl,hfull,hread⟩ := writeBlock_some hwrite
    rw [hpayload,hsame] at hread
    refine .inl ⟨?_,hneeded,by simp only; omega,full,rfl,by simp only; omega,hread⟩
    rw [List.length_append,hpayload,← hlen]
  | failed hgrow hrealloc =>
    have hdouble := growCap_double hgrow
    refine .inr ⟨⟨rfl,?_,?_⟩,?_⟩
    · simp only
      omega
    · simp only
      omega
    · rw [Sock.realloc_none hrealloc]
      simp

theorem Lost.append {c c' : ClientInfo} {k k' : Sock} {r : Int} (h : Lost c)
    (hsize : c.payloadBytesRead ≤ bufSize)
    (happend : appendToClientBuffer c k = .ok (c',k',r)) : Lost c' ∧ k' = k := by
  obtain ⟨hblock,hpos,hroom⟩ := h
  cases appendToClientBuffer_appended happend with
  | fits _ hwrite =>
    rw [hblock] at hwrite
    obtain ⟨hnil,rfl⟩ := writeBlock_none hwrite
    have hzero : c.payloadBytesRead = 0 := by
      have hl : (c.payloadBuffer.data.take c.payloadBytesRead).length = 0 := by rw [hnil]; rfl
      rw [List.length_take,c.payloadBuffer.size] at hl
      unfold bufSize at hl
      omega
    refine ⟨⟨rfl,?_,?_⟩,rfl⟩
    · simp only
      omega
    · simp only
      omega
  | grown hgrow _ _ => omega
  | failed hgrow _ => omega

theorem Holding.append {c c' : ClientInfo} {k k' : Sock} {r : Int} {message : Bytes}
    (h : Holding c k.trace message) (hsize : c.payloadBytesRead ≤ bufSize)
    (happend : appendToClientBuffer c k = .ok (c',k',r)) :
    Holding c' k'.trace (message ++ c.payloadBuffer.data.take c.payloadBytesRead) := by
  rcases h with hstored | ⟨hlost,hfailed⟩
  · exact hstored.append hsize happend
  · obtain ⟨hlost',rfl⟩ := hlost.append hsize happend
    exact .inr ⟨hlost',hfailed⟩

theorem Holding.keep {c d : ClientInfo} {trace trace' : List Obs} {message : Bytes}
    (h : Holding c trace message) (hblock : d.block = c.block)
    (hsub : ∀ o ∈ trace, o ∈ trace') : Holding d trace' message := by
  rcases h with hstored | ⟨hlost,hfailed⟩
  · exact .inl (hstored.congr hblock)
  · exact .inr ⟨hlost.congr hblock,hsub _ hfailed⟩

theorem Stored.readBlock {c : ClientInfo} {message : Bytes} (h : Stored c message) {n : Nat}
    (hn : n ≤ c.partialLen) : readBlock c.partialMsg n = .ok (message.take n) := by
  obtain ⟨hlen,hle,-,buf,hbuf,hcap,htake⟩ := h
  have hfit : n ≤ buf.length := by omega
  unfold ChatServer.readBlock
  simp only [hbuf,hfit,if_true]
  rw [← htake,List.take_take,Nat.min_eq_left hn]

theorem Lost.readBlock {c : ClientInfo} (h : Lost c) {n : Nat} (hn : 0 < n) :
    readBlock c.partialMsg n = .error .nullPointer := by
  unfold ChatServer.readBlock
  have hne : n ≠ 0 := by omega
  simp only [h.block,hne,if_false]

/-- The copy that `process_payload` gets is the message and a zero, unless an
allocation failed. -/
theorem Holding.copy {c : ClientInfo} {k k' : Sock} {copy : Option Bytes} {message : Bytes}
    (h : Holding c k.trace message)
    (hcopy : copyBuffer k c.partialMsg c.partialLen = .ok (k',copy)) :
    (copy = some (message ++ [0]) ∧ Stored c message) ∨
      (copy = none ∧ .blockFailed ∈ k'.trace) := by
  unfold copyBuffer at hcopy
  rcases hr : k.realloc none (c.partialLen+1) with ⟨k₁,block⟩
  simp only [hr] at hcopy
  cases block with
  | none =>
    cases hcopy
    refine .inr ⟨rfl,?_⟩
    rw [Sock.realloc_none hr]
    simp
  | some new =>
    rcases h with hstored | ⟨hlost,-⟩
    · have hread := hstored.readBlock (Nat.le_refl c.partialLen)
      rw [hstored.len,List.take_length] at hread
      simp only [hstored.len,hread,ok_bind] at hcopy
      cases hcopy
      exact .inl ⟨rfl,hstored⟩
    · simp [hlost.readBlock hlost.pos] at hcopy

theorem Stored.clear {c c' : ClientInfo} {message : Bytes} {r : Int} (h : Stored c message)
    (hclear : clearClientBuffer c = .ok (c',r)) :
    Stored c' [] ∧ r = 0 ∧ c'.partialCap = bufSize := by
  obtain ⟨-,-,hmin,buf,hbuf,hcap,-⟩ := h
  unfold clearClientBuffer at hclear
  rw [hbuf] at hclear
  cases hw : writeBlock (some buf) 0 (List.replicate c.partialLen 0) with
  | error e => simp [hw] at hclear
  | ok block =>
    obtain ⟨new,rfl,hlen,-⟩ := writeBlock_some hw
    simp only [hw,ok_bind] at hclear
    cases hclear
    exact ⟨⟨rfl,Nat.zero_le _,Nat.le_refl _,new,rfl,by simp only; omega,rfl⟩,rfl,rfl⟩

theorem Stored.finish {c c' : ClientInfo} {message : Bytes} (h : Stored c message)
    (hfinish : finishMessage c = .ok c') :
    Stored c' [] ∧ c'.state = .readHeader ∧ c'.headerBytesRead = 0 ∧ c'.partialLen = 0 := by
  obtain ⟨i,r,hclear,rfl⟩ := finishMessage_eq hfinish
  have hempty := (h.clear hclear).1
  exact ⟨hempty.congr rfl,rfl,rfl,hempty.len⟩

structure NamedBy (c : ClientInfo) (message : Bytes) : Prop where
  len : c.nameLen = min (nameMax-1) message.length
  bytes : c.name.data.take (c.nameLen+1) = message.take (nameMax-1) ++ [0]

theorem storedLen_eq (c : ClientInfo) : c.storedLen = min (nameMax-1) c.partialLen := by
  unfold ClientInfo.storedLen nameMax
  split <;> omega

theorem Stored.name {c c' : ClientInfo} {message : Bytes} (h : Stored c message)
    (hstore : storeClientName c = .ok c') :
    NamedBy c' message ∧ Stored c' (message.take (nameMax-1)) := by
  obtain ⟨bs,name,hread,hwrite,rfl⟩ := storeClientName_eq hstore
  have hle := storedLen_le c
  have heq : c.storedLen = min (nameMax-1) message.length := by rw [storedLen_eq,h.len]
  rw [h.readBlock hle] at hread
  cases hread
  have htake : message.take c.storedLen = message.take (nameMax-1) := by
    rw [heq]
    by_cases hshort : message.length ≤ nameMax-1
    · rw [Nat.min_eq_right hshort,List.take_length,List.take_of_length_le hshort]
    · rw [Nat.min_eq_left (by omega)]
  have hback := Buf.take_write hwrite
  have hlen : (message.take c.storedLen).length = c.storedLen := by
    rw [List.length_take,heq]
    omega
  obtain ⟨hmlen,hmle,hmin,buf,hbuf,hcap,hmsg⟩ := h
  refine ⟨⟨heq,?_⟩,?_,by simp only; omega,hmin,buf,hbuf,hcap,?_⟩
  · rw [List.length_append,hlen,htake] at hback
    simpa using hback
  · rw [← htake,hlen]
  · simp only
    rw [← htake,← hmsg,List.take_take,Nat.min_eq_left hle]

theorem Lost.name {c c' : ClientInfo} (h : Lost c) : storeClientName c ≠ .ok c' := by
  intro hstore
  obtain ⟨bs,name,hread,-,-⟩ := storeClientName_eq hstore
  have hpos := h.pos
  have hnone := h.readBlock (n := c.storedLen) (by
    rw [storedLen_eq]
    unfold nameMax
    omega)
  rw [hnone] at hread
  cases hread

end ChatServer
