import ChatServer.Room

/-! Projections of a connection's history, and what each operation on a view
adds to it. -/
set_option autoImplicit false

namespace ChatServer
open ByteString Memory

def received (trace : List Obs) : Bytes :=
  trace.flatMap (fun o => match o with | .read bs => bs | _ => [])

def wire (trace : List Obs) : Bytes :=
  trace.flatMap (fun o => match o with | .sent _ bs => bs | _ => [])

def queuedWire (trace : List Obs) : Bytes :=
  trace.flatMap (fun o => match o with | .sent .queued bs => bs | _ => [])

/-- The packets that the queue took in, each with the number of its broadcast. -/
def enqueuedPackets (trace : List Obs) : List (Nat × Bytes) :=
  trace.filterMap (fun o => match o with | .enqueued i bs => some (i,bs) | _ => none)

def directWrites (trace : List Obs) : List DirectWrite :=
  trace.filterMap (fun o => match o with | .direct d => some d | _ => none)

def offers (trace : List Obs) : List Offer :=
  trace.filterMap (fun o => match o with | .offered x => some x | _ => none)

/-- The frames issued to the client, in order, on either path. -/
def issued (trace : List Obs) : List Bytes :=
  trace.filterMap (fun o => match o with
    | .enqueued _ bs => some bs
    | .direct d => some (frame d.msgType d.payload)
    | _ => none)

def listings (trace : List Obs) : List (List Bytes) :=
  trace.filterMap (fun o => match o with | .listing names => some names | _ => none)

section Append
variable (xs ys : List Obs)

@[simp] theorem received_append : received (xs ++ ys) = received xs ++ received ys := by
  simp [received]

@[simp] theorem wire_append : wire (xs ++ ys) = wire xs ++ wire ys := by simp [wire]

@[simp] theorem queuedWire_append :
    queuedWire (xs ++ ys) = queuedWire xs ++ queuedWire ys := by simp [queuedWire]

@[simp] theorem enqueuedPackets_append :
    enqueuedPackets (xs ++ ys) = enqueuedPackets xs ++ enqueuedPackets ys := by
  simp [enqueuedPackets]

@[simp] theorem directWrites_append :
    directWrites (xs ++ ys) = directWrites xs ++ directWrites ys := by simp [directWrites]

@[simp] theorem offers_append : offers (xs ++ ys) = offers xs ++ offers ys := by
  simp [offers]

@[simp] theorem issued_append : issued (xs ++ ys) = issued xs ++ issued ys := by
  simp [issued]

@[simp] theorem listings_append : listings (xs ++ ys) = listings xs ++ listings ys := by
  simp [listings]

end Append

theorem mem_directWrites {trace : List Obs} {d : DirectWrite} :
    d ∈ directWrites trace ↔ .direct d ∈ trace := by
  unfold directWrites
  rw [List.mem_filterMap]
  constructor
  · rintro ⟨o,ho,he⟩
    cases o <;> simp at he
    subst he
    exact ho
  · intro h
    exact ⟨_,h,rfl⟩

theorem mem_listings {trace : List Obs} {names : List Bytes} :
    names ∈ listings trace ↔ .listing names ∈ trace := by
  unfold listings
  rw [List.mem_filterMap]
  constructor
  · rintro ⟨o,ho,he⟩
    cases o <;> simp at he
    subst he
    exact ho
  · intro h
    exact ⟨_,h,rfl⟩

theorem grown_trans {P : Obs → Prop} {xs ys zs : List Obs}
    (h : ∃ more, ys = xs ++ more ∧ ∀ o ∈ more, P o)
    (h' : ∃ more, zs = ys ++ more ∧ ∀ o ∈ more, P o) :
    ∃ more, zs = xs ++ more ∧ ∀ o ∈ more, P o := by
  obtain ⟨more,rfl,hmore⟩ := h
  obtain ⟨more',rfl,hmore'⟩ := h'
  refine ⟨more ++ more',List.append_assoc _ _ _,fun o ho => ?_⟩
  rcases List.mem_append.mp ho with ho | ho
  · exact hmore o ho
  · exact hmore' o ho

def sentObs (path : Path) (bs : Bytes) : List Obs := if bs = [] then [] else [.sent path bs]

@[simp] theorem sentObs_nil (path : Path) : sentObs path [] = [] := rfl

@[simp] theorem wire_sentObs (path : Path) (bs : Bytes) : wire (sentObs path bs) = bs := by
  unfold sentObs
  by_cases h : bs = [] <;> simp [h,wire]

@[simp] theorem issued_sentObs (path : Path) (bs : Bytes) : issued (sentObs path bs) = [] := by
  unfold sentObs
  split <;> rfl

theorem mem_sentObs {path : Path} {bs : Bytes} {o : Obs} (h : o ∈ sentObs path bs) :
    o = .sent path bs := by
  unfold sentObs at h
  split at h
  · simp at h
  · simpa using h

namespace Sock
variable (k : Sock)

@[simp] theorem note_trace (o : Obs) : (k.note o).trace = k.trace ++ [o] := rfl

@[simp] theorem withSends_trace (sends : List SendRes) :
    (k.withSends sends).trace = k.trace := rfl

@[simp] theorem accept_trace (path : Path) (bs : Bytes) :
    (k.accept path bs).trace = k.trace ++ sentObs path bs := by
  unfold accept sentObs
  by_cases h : bs = [] <;> simp [h,note]

@[simp] theorem writeAll_trace (buffer : Bytes) : (k.writeAll buffer).1.trace =
    k.trace ++ sentObs .direct (ChatServer.writeAll k.oracle.sends buffer).taken := by
  simp [writeAll]

theorem realloc_trace (old : Option Bytes) (size : Nat) :
    (k.realloc old size).1.trace = k.trace ∨
      (k.realloc old size).1.trace = k.trace ++ [.blockFailed] := by
  unfold realloc
  simp only
  split
  · exact .inr rfl
  · exact .inl rfl

theorem writeFrame_trace (msgType : UInt8) (msg : Bytes) :
    ∃ a b, (k.writeFrame msgType msg).1.trace =
      k.trace ++ sentObs .direct a ++ sentObs .direct b := by
  obtain ⟨a,ha⟩ : ∃ a, (k.writeAll (createHeader msg.length msgType true).bytes).1.trace =
      k.trace ++ sentObs .direct a := ⟨_,writeAll_trace _ _⟩
  obtain ⟨b,hb⟩ : ∃ b, ((k.writeAll (createHeader msg.length msgType true).bytes).1.writeAll
      msg).1.trace = k.trace ++ sentObs .direct a ++ sentObs .direct b :=
    ⟨_,by rw [writeAll_trace,ha]⟩
  unfold writeFrame
  simp only
  split
  · refine ⟨a,[],?_⟩
    rw [sentObs_nil,List.append_nil]
    exact ha
  · split <;> exact ⟨a,b,hb⟩

theorem writeFrame_takes {msgType : UInt8} {msg : Bytes} {rest rest' : List SendRes}
    (h : takes k.oracle.sends headerSize = some rest)
    (h' : takes rest msg.length = some rest') :
    k.writeFrame msgType msg =
      (((k.withSends rest).accept .direct (createHeader msg.length msgType true).bytes
        |>.withSends rest').accept .direct msg,0) := by
  have hheader : ChatServer.writeAll k.oracle.sends (createHeader msg.length msgType true).bytes =
      ⟨(createHeader msg.length msgType true).bytes,headerSize,rest⟩ := writeAll_takes h
  have hpayload : ChatServer.writeAll rest msg = ⟨msg,msg.length,rest'⟩ := writeAll_takes h'
  have hneg : ∀ n : Nat, ¬ ((n : Int) = -1) := by
    intro n
    omega
  have hsends : (((k.withSends rest).accept .direct
      (createHeader msg.length msgType true).bytes)).oracle.sends = rest := by
    unfold accept
    split <;> rfl
  simp only [writeFrame,writeAll,hheader,hneg,if_false,hsends,hpayload]

end Sock

namespace View
variable (v : View)

@[simp] theorem note_trace (o : Obs) : (v.note o).sock.trace = v.sock.trace ++ [o] := rfl

@[simp] theorem note_info (o : Obs) : (v.note o).info = v.info := rfl

@[simp] theorem note_queue (o : Obs) : (v.note o).queue = v.queue := rfl

theorem direct_trace (msgType : UInt8) (msg : Bytes) :
    ∃ a b, (v.direct msgType msg).1.sock.trace = v.sock.trace ++
      [.direct ⟨msgType,msg,v.headOffset,v.info.closed,v.sock.oracle.sends⟩] ++
      sentObs .direct a ++ sentObs .direct b := by
  obtain ⟨a,b,h⟩ := Sock.writeFrame_trace (v.note (.direct ⟨msgType,msg,v.headOffset,
    v.info.closed,v.sock.oracle.sends⟩)).sock msgType msg
  exact ⟨a,b,h⟩

theorem mem_direct_trace {v : View} {msgType : UInt8} {msg : Bytes} {o : Obs}
    (h : o ∈ v.sock.trace) : o ∈ (v.direct msgType msg).1.sock.trace := by
  obtain ⟨a,b,ht⟩ := v.direct_trace msgType msg
  rw [ht]
  simp [h]

end View
end ChatServer
