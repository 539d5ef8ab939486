import ChatServer.BinaryChat
import ChatServer.Blame
import ChatServer.NameCycle
import ChatServer.Records
import ChatServer.Redirect

/-! The whisper command: which messages are one, whom they reach, and with what. -/
set_option autoImplicit false

namespace ChatServer
open ByteString Memory Execution Relation

def WhisperToken (line rest : Bytes) : Prop :=
  ∃ cmd, makeLowercase cmd = ascii "/whisper" ∧
    ((line = cmd ∧ rest = []) ∨ line = cmd ++ 32 :: rest)

/-- The token, a space, further spaces, the target, a space, and the message. -/
def WhisperLine (line target msg : Bytes) : Prop :=
  ∃ cmd n, makeLowercase cmd = ascii "/whisper" ∧ target ≠ [] ∧ 32 ∉ target ∧ msg ≠ [] ∧
    line = cmd ++ 32 :: (List.replicate n 32 ++ (target ++ 32 :: msg))

section Lines
variable {line rest target msg cmd saveptr text : Bytes}

theorem findCommand_whisper : findCommand cmd = .whisper ↔ cmd = ascii "/whisper" := by
  constructor
  · intro h
    by_contra hne
    have hfind : findCommand cmd ≠ .whisper := by
      unfold findCommand commandTable
      by_cases hquit : ascii "/quit" = cmd
      · simp [hquit]
      · by_cases hlist : ascii "/list" = cmd
        · simp [hquit,hlist]
        · by_cases hshut : ascii "/shutdown" = cmd
          · simp [hquit,hlist,Ne.symm hne,hshut]
          · simp [hquit,hlist,Ne.symm hne,hshut]
    exact hfind h
  · rintro rfl
    decide

theorem whisperToken_bytes (h : makeLowercase cmd = ascii "/whisper") :
    32 ∉ cmd ∧ (0 : UInt8) ∉ cmd ∧ cmd.head? = some 47 := by
  have hlower : ∀ b : UInt8, b ∈ cmd → (if 65 ≤ b ∧ b ≤ 90 then b+32 else b) ∈
      ascii "/whisper" := by
    intro b hb
    rw [← h]
    exact List.mem_map.mpr ⟨b,hb,rfl⟩
  refine ⟨fun hmem => ?_,fun hmem => ?_,?_⟩
  · have hbad := hlower 32 hmem
    revert hbad
    decide
  · have hbad := hlower 0 hmem
    revert hbad
    decide
  · cases cmd with
    | nil => cases h
    | cons b cmd =>
      have hhead := congrArg List.head? h
      simp only [makeLowercase,List.map_cons,List.head?_cons,Option.some.injEq] at hhead ⊢
      have hslash : (ascii "/whisper").head? = some 47 := by decide
      rw [hslash,Option.some.injEq] at hhead
      split at hhead
      · rename_i hcase
        have hsum := congrArg UInt8.toNat hhead
        rw [UInt8.toNat_add] at hsum
        obtain ⟨hlow,hhigh⟩ := hcase
        rw [UInt8.le_iff_toNat_le] at hlow hhigh
        simp only [UInt8.reduceToNat] at hsum hlow hhigh
        omega
      · exact hhead

theorem strtokR_whisperToken (hlower : makeLowercase cmd = ascii "/whisper") :
    strtokR 32 line = (some cmd,rest) ∧ line.head? = some 47 ↔
      (line = cmd ∧ rest = []) ∨ line = cmd ++ 32 :: rest := by
  obtain ⟨hspace,-,hhead⟩ := whisperToken_bytes hlower
  have hne : cmd ≠ [] := by
    rintro rfl
    cases hhead
  have hfront : ∀ tail, (cmd ++ tail).head? = some 47 := by
    intro tail
    rw [List.head?_append,hhead]
    rfl
  constructor
  · rintro ⟨htoken,hslash⟩
    obtain ⟨-,-,n,hline⟩ := strtokR_eq_some.mp htoken
    cases n with
    | zero => simpa using hline
    | succ n =>
      rcases hline with ⟨rfl,-⟩ | rfl <;> simp [List.replicate_succ] at hslash
  · rintro (⟨rfl,rfl⟩ | rfl)
    · exact ⟨strtokR_eq_some.mpr ⟨hne,hspace,0,.inl ⟨rfl,rfl⟩⟩,hhead⟩
    · exact ⟨strtokR_eq_some.mpr ⟨hne,hspace,0,.inr rfl⟩,hfront _⟩

theorem head_cstr : (cstr text).head? = some 47 ↔ text.head? = some 47 := by
  cases text with
  | nil => rfl
  | cons b text =>
    by_cases hb : b = 0
    · simp [cstr,hb]
    · rw [cstr_cons hb]
      rfl

theorem whisperToken_iff : WhisperToken (cstr text) rest ↔ text.head? = some 47 ∧
    ∃ cmd, strtokR 32 (cstr text) = (some cmd,rest) ∧
      findCommand (makeLowercase cmd) = .whisper := by
  constructor
  · rintro ⟨cmd,hlower,hline⟩
    obtain ⟨htoken,hhead⟩ := (strtokR_whisperToken hlower).mpr hline
    exact ⟨head_cstr.mp hhead,cmd,htoken,findCommand_whisper.mpr hlower⟩
  · rintro ⟨hhead,cmd,htoken,hfind⟩
    have hlower := findCommand_whisper.mp hfind
    exact ⟨cmd,hlower,(strtokR_whisperToken hlower).mp ⟨htoken,head_cstr.mpr hhead⟩⟩

/-- The rest of the line falls apart into target and message. -/
theorem whisperLine_iff : WhisperLine line target msg ↔
    ∃ rest, WhisperToken line rest ∧ strtokR 32 rest = (some target,msg) ∧ msg ≠ [] := by
  constructor
  · rintro ⟨cmd,n,hlower,hne,hspace,hmsg,rfl⟩
    exact ⟨_,⟨cmd,hlower,.inr rfl⟩,strtokR_eq_some.mpr ⟨hne,hspace,n,.inr rfl⟩,hmsg⟩
  · rintro ⟨rest,⟨cmd,hlower,hline⟩,htoken,hmsg⟩
    obtain ⟨hne,hspace,n,hrest⟩ := strtokR_eq_some.mp htoken
    have hmore := hrest.resolve_left (fun hend => hmsg hend.2)
    rcases hline with ⟨-,rfl⟩ | rfl
    · have hlen := congrArg List.length hmore
      simp at hlen
    · exact ⟨cmd,n,hlower,hne,hspace,hmsg,by rw [hmore]⟩

end Lines

def World.firstNamed (w : World) (target : Bytes) : Option Nat :=
  w.clientList.find? (fun q => match w.clients.get q with
    | some d => decide (d.shownName = target)
    | none => false)

def World.Addresses (w : World) (line target msg : Bytes) (q : Nat) : Prop :=
  WhisperLine line target msg ∧ w.firstNamed target = some q

def Terminated (c : ClientInfo) : Prop :=
  c.hasName = true → c.name.data.take (c.nameLen+1) = c.shownName ++ [0]

theorem Terminated.of_named {c c' : ClientInfo} (h : c'.named = c.named) (hc : Terminated c) :
    Terminated c' := by
  simp only [ClientInfo.named,Prod.mk.injEq] at h
  unfold Terminated ClientInfo.shownName
  rw [h.1,h.2.1,h.2.2]
  exact hc

theorem readBlock_length {block : Option Bytes} {len : Nat} {bs : Bytes}
    (h : readBlock block len = .ok bs) : bs.length = len := by
  unfold readBlock at h
  cases block with
  | none =>
    simp only at h
    split at h
    · rename_i hlen
      cases h
      exact hlen.symm
    · cases h
  | some old =>
    simp only at h
    split at h
    · cases h
      rw [List.length_take]
      omega
    · cases h

theorem storeClientName_terminated {c c' : ClientInfo} (h : storeClientName c = .ok c') :
    Terminated { c' with hasName := true } := by
  obtain ⟨bs,name,hread,hwrite,rfl⟩ := storeClientName_eq h
  intro _
  have htake := Buf.take_write hwrite
  have hlen := readBlock_length hread
  rw [List.length_append,hlen,List.take_zero,List.nil_append,Nat.zero_add] at htake
  have hshown : name.data.take c.storedLen = bs := by
    have hfront := congrArg (List.take c.storedLen) htake
    rw [List.take_take,List.take_left' hlen] at hfront
    simpa using hfront
  simp only [ClientInfo.shownName]
  rw [hshown]
  exact htake

theorem terminated_lasting : Lasting Terminated where
  untouched := fun _ _ h hc => hc.of_named (named_of_reading h.1)
  reads := fun _ _ _ _ _ h hc => hc.of_named (readTurn_frame h).1.named
  names := fun _ _ h _ => storeClientName_terminated h
  finishes := fun _ _ h hc => hc.of_named (finishMessage_frame h).named

theorem Terminated.cstr {c : ClientInfo} (h : Terminated c) (hname : c.hasName = true)
    (hzero : 0 ∉ c.shownName) : cstr c.name.data = c.shownName := by
  have hsplit := List.take_append_drop (c.nameLen+1) c.name.data
  rw [h hname,List.append_assoc] at hsplit
  rw [← hsplit]
  exact (cstr_append_zero _ _).trans (cstr_eq_self hzero)

section Parsing
variable {w : World} {p q : Nat} {c : ClientInfo} {text rest target msg : Bytes}

theorem processPayload_whisper (hc : w.client p = .ok c) (hname : c.hasName = true)
    (h : WhisperToken (cstr text) rest) : processPayload w p (some text) = (do
      let (w,result) ← handleWhisper w p rest
      if result = .disconnect ∨ result = .error then pure (w,-1) else pure (w,0)) := by
  obtain ⟨hhead,cmd,htoken,hfind⟩ := whisperToken_iff.mp h
  unfold processPayload serverHandleCommand
  simp only [hc,ok_bind,hname,Bool.true_eq_false,if_false,hhead,if_true,htoken,hfind]

/-- The names that the search compares are the names that are shown. -/
def World.Readable (w : World) : Prop := ∀ q ∈ w.clientList, ∃ d, w.clients.get q = some d ∧
  d.hasName = true ∧ cstr d.name.data = d.shownName

theorem findTarget_firstNamed (h : w.Readable) (target : Bytes) :
    findTarget w target w.clientList = .ok (w.firstNamed target) := by
  rw [findTarget_find target (fun q hq => (h q hq).imp (fun _ hd => hd.1))]
  refine congrArg Except.ok (List.find?_congr (fun q hq => ?_))
  obtain ⟨d,hd,-,hname⟩ := h q hq
  simp only [World.named,hd,hname]

theorem whisper_refused (h : w.Readable) (hc : w.client p = .ok c) (hname : c.hasName = true)
    (htoken : WhisperToken (cstr text) rest)
    (hnone : ¬ ∃ target msg q, w.Addresses (cstr text) target msg q) :
    processPayload w p (some text) = .ok (w,0) := by
  have hwarning : handleWhisper w p rest = .ok (w,.warning) := by
    unfold handleWhisper
    rcases hsplit : strtokR 32 rest with ⟨target,msg⟩
    simp only
    by_cases hmsg : msg = []
    · rw [if_pos hmsg]
      rfl
    · rw [if_neg hmsg]
      cases target with
      | none =>
        have hempty := strtokR_none (d := 32) (s := rest) (by rw [hsplit])
        rw [hsplit] at hempty
        exact absurd hempty hmsg
      | some target =>
        simp only [findTarget_firstNamed h,ok_bind]
        cases hfound : w.firstNamed target with
        | none => rfl
        | some q =>
          exact absurd ⟨target,msg,q,whisperLine_iff.mpr ⟨rest,htoken,hsplit,hmsg⟩,hfound⟩ hnone
  rw [processPayload_whisper hc hname htoken,hwarning]
  rfl

end Parsing

def Obs.ofWhisper : Obs → Bool
  | .direct d => d.msgType == msgTypeNormal
  | .blockFailed => true
  | _ => false

def Hushed (v v' : View) : Prop :=
  ∃ more, v'.sock.trace = v.sock.trace ++ more ∧ ∀ o ∈ more, o.ofWhisper = false

namespace Hushed
variable {v v' v'' : View} {p : Nat}

theorem of_trace {more : List Obs} (h : v'.sock.trace = v.sock.trace ++ more)
    (hm : ∀ o ∈ more, o.ofWhisper = false) : Hushed v v' := ⟨more,h,hm⟩

theorem one {o : Obs} (h : v'.sock.trace = v.sock.trace ++ [o]) (ho : o.ofWhisper = false) :
    Hushed v v' := of_trace h (by simpa using ho)

theorem same (h : v'.sock.trace = v.sock.trace) : Hushed v v' := ⟨[],by simp [h],by simp⟩

theorem refl (v : View) : Hushed v v := same rfl

theorem trans (h : Hushed v v') (h' : Hushed v' v'') : Hushed v v'' := grown_trans h h'

theorem note (v : View) {o : Obs} (h : o.ofWhisper = false) : Hushed v (v.note o) :=
  of_trace rfl (by simpa using h)

theorem setEpollout (v : View) (on : Bool) : Hushed v (v.setEpollout on p) := by
  unfold View.setEpollout Sock.epollCtlMod
  split
  · exact refl v
  · simp only
    split <;> exact of_trace rfl (by simp [Obs.ofWhisper])

theorem writes (h : View.Writes p v v') : Hushed v v' := by
  cases h with
  | @note o ho => exact note v (by cases o <;> first | rfl | cases ho)
  | close => exact (note v rfl).trans (note _ rfl)
  | dropAlloc => exact same rfl
  | withSends rest => exact same rfl
  | withQueue queue => exact same rfl
  | setEpollout on => exact setEpollout v on

theorem written (h : View.Written p v v') : Hushed v v' := h.keeps refl trans writes

theorem direct {msgType : UInt8} (v : View) (htype : msgType ≠ msgTypeNormal) (msg : Bytes) :
    Hushed v (v.direct msgType msg).1 :=
  (note v (by simpa [Obs.ofWhisper] using htype)).trans (written (.direct (p := 0) v msgType msg))

end Hushed

def Room.Hushed (R S : Room) : Prop := ∀ q ∈ R.members, ChatServer.Hushed (R.view q) (S.view q)

namespace Room
variable {R S T : Room} {p q : Nat} {text rest target msg : Bytes}

theorem Hushed.trans (h : R.Hushed S) (hmem : S.members = R.members) (h' : S.Hushed T) :
    R.Hushed T := fun q hq => (h q hq).trans (h' q (hmem ▸ hq))

theorem hushed_set {v : View} (h : ChatServer.Hushed (R.view p) v) : R.Hushed (R.set p v) :=
  fun q _ => set_each .refl h q

theorem list_hushed (R : Room) (p : Nat) : R.Hushed (R.list p) :=
  fun q _ => list_each .refl .trans (fun v _ => .note v rfl)
    (fun v msg => .direct v (by decide) msg) R p q

theorem broadcast_hushed (R : Room) (sender : Option Nat) (msg : Bytes) :
    R.Hushed (R.broadcast sender msg) := by
  intro q hq
  simp only [broadcast,if_pos hq]
  exact .written (.offer _ _ _ _)

theorem formatChat_trace {c : ClientInfo} {k k' : Sock} {timestamp : Bytes}
    (h : formatChat c k timestamp = .ok (k',some text)) : k'.trace = k.trace := by
  unfold formatChat Sock.realloc at h
  cases hb : k.oracle.blocks.headD (some []) with
  | none =>
    simp only [hb] at h
    cases h
  | some junk =>
    simp only [hb] at h
    cases hr : readBlock c.partialMsg c.partialLen with
    | error e => simp [hr] at h
    | ok msg =>
      simp only [hr,ok_bind] at h
      split at h
      · cases h
      · cases h
        rfl

/-- A message that does not begin with the token makes no such entry. -/
theorem processPayload_hushed {r : Int} (hname : (R.view p).info.hasName = true)
    (hno : ¬ ∃ rest, WhisperToken (cstr text) rest)
    (h : R.processPayload p (some text) = .ok (S,r)) : R.Hushed S := by
  cases processPayload_processed h with
  | name hunnamed =>
    rw [hname] at hunnamed
    cases hunnamed
  | @command _ _ cmd saveptr _ _ _ hslash htoken hcommand =>
    have hhushed : R.Hushed (R.command p (makeLowercase cmd) saveptr).1 := by
      unfold command
      cases hfind : findCommand (makeLowercase cmd) with
      | list => exact list_hushed R p
      | whisper =>
        exact absurd ⟨saveptr,whisperToken_iff.mpr ⟨hslash,cmd,htoken,hfind⟩⟩ hno
      | shutdown => exact fun q _ => .refl _
      | quit => exact fun q _ => .refl _
      | unknown => exact fun q _ => .refl _
    rw [hcommand] at hhushed
    exact hhushed
  | @chat _ _ k _ _ hformat =>
    have hset : R.Hushed (R.tick.set p { R.view p with sock := k }) :=
      hushed_set (R := R.tick) (.same (formatChat_trace hformat))
    exact hset.trans rfl (broadcast_hushed _ _ _)

theorem formatWhisper_some (c : ClientInfo) {k : Sock} (timestamp msg : Bytes)
    (hblock : k.oracle.blocks.headD (some []) ≠ none) :
    ∃ k', formatWhisper c k timestamp msg =
        (k',some (whisperText timestamp c.shownName msg ++ [0])) ∧
      k'.trace = k.trace ∧ k'.oracle.sends = k.oracle.sends := by
  have hfits : ¬ (whisperText timestamp c.shownName msg).length ≥
      timestamp.length+2+whisperThing.length+c.nameLen+3+msg.length+2 := by
    simp only [whisperText,ClientInfo.shownName,List.length_append,List.length_cons,
      List.length_nil,List.length_take]
    omega
  unfold formatWhisper Sock.realloc
  simp only
  cases hb : k.oracle.blocks.headD (some []) with
  | none => exact absurd hb hblock
  | some junk =>
    simp only [if_neg hfits]
    exact ⟨_,rfl,rfl,rfl⟩

theorem formatWhisper_none (c : ClientInfo) {k : Sock} (timestamp msg : Bytes)
    (hblock : k.oracle.blocks.headD (some []) = none) :
    ∃ k', formatWhisper c k timestamp msg = (k',none) ∧ k'.trace = k.trace ++ [.blockFailed] := by
  unfold formatWhisper Sock.realloc
  simp only [hblock]
  exact ⟨_,rfl,rfl⟩

theorem processPayload_whisper (hname : (R.view p).info.hasName = true)
    (htoken : WhisperToken (cstr text) rest) (hsplit : strtokR 32 rest = (some target,msg))
    (hmsg : msg ≠ []) (htarget : R.target target = some q) :
    R.processPayload p (some text) = .ok ((R.whisperTo p q msg).1,
      if (R.whisperTo p q msg).2 = .disconnect ∨ (R.whisperTo p q msg).2 = .error
      then -1 else 0) := by
  obtain ⟨hhead,cmd,hcmd,hfind⟩ := whisperToken_iff.mp htoken
  have hcommand : R.command p (makeLowercase cmd) rest = R.whisperTo p q msg := by
    unfold command
    rw [hfind]
    simp only
    unfold whisper
    simp only [hsplit,if_neg hmsg,Option.bind_some,htarget]
  unfold processPayload
  rw [if_neg (by simp [hname])]
  simp only [hhead,if_true]
  unfold runCommand
  simp only [hcmd,hcommand]
  split <;> rfl

theorem sendTo_direct (R : Room) (q : Nat) (msg : Bytes) : ∃ d more, d.msgType = msgTypeNormal ∧
    ((R.sendTo msgTypeNormal q msg).1.view q).sock.trace =
      (R.view q).sock.trace ++ (.direct d :: more) := by
  obtain ⟨a,b,ht⟩ := (R.view q).direct_trace msgTypeNormal msg
  refine ⟨⟨msgTypeNormal,msg,(R.view q).headOffset,(R.view q).info.closed,
    (R.view q).sock.oracle.sends⟩,sentObs .direct a ++ sentObs .direct b,rfl,?_⟩
  simp only [sendTo,view_set_self]
  rw [ht]
  simp

theorem sendTo_takes {rest' rest'' : List SendRes}
    (hheader : takes (R.view q).sock.oracle.sends headerSize = some rest')
    (hpayload : takes rest' msg.length = some rest'') :
    (R.sendTo msgTypeNormal q msg).2 = 0 ∧ ∀ x,
      wire ((R.sendTo msgTypeNormal q msg).1.view x).sock.trace =
        wire (R.view x).sock.trace ++ if x = q then frame msgTypeNormal msg else [] := by
  have hwrite : ((R.view q).note (.direct ⟨msgTypeNormal,msg,(R.view q).headOffset,
      (R.view q).info.closed,(R.view q).sock.oracle.sends⟩)).sock.writeFrame msgTypeNormal msg = _ :=
    Sock.writeFrame_takes _ hheader hpayload
  unfold sendTo View.direct
  simp only [hwrite]
  refine ⟨trivial,fun x => ?_⟩
  rw [view_set]
  by_cases hxq : x = q
  · subst hxq
    have hnote : ∀ d l, wire (Obs.direct d :: l) = wire l := fun _ _ => rfl
    simp [frame,hnote]
  · simp [hxq]

theorem format_same {k : Sock} (htrace : k.trace = (R.view p).sock.trace)
    (hsends : k.oracle.sends = (R.view p).sock.oracle.sends) (x : Nat) :
    ((R.tick.set p { R.view p with sock := k }).view x).sock.trace = (R.view x).sock.trace ∧
      ((R.tick.set p { R.view p with sock := k }).view x).sock.oracle.sends =
        (R.view x).sock.oracle.sends := by
  rw [view_set]
  by_cases hxp : x = p
  · subst hxp
    simp [htrace,hsends]
  · simp [hxp,tick]

def whisperPayload (R : Room) (p : Nat) (msg : Bytes) : Bytes :=
  whisperText R.timestamp (R.view p).info.shownName msg

theorem whisperTo_some (msg : Bytes) (hblock : (R.view p).sock.oracle.blocks.headD (some []) ≠ none) :
    ∃ S : Room, (∀ x, (S.view x).sock.trace = (R.view x).sock.trace ∧
        (S.view x).sock.oracle.sends = (R.view x).sock.oracle.sends) ∧
      R.whisperTo p q msg =
        ((S.sendTo msgTypeNormal q (cstr (R.whisperPayload p msg ++ [0]))).1,
          if (S.sendTo msgTypeNormal q (cstr (R.whisperPayload p msg ++ [0]))).2 = -1
          then .error else .ok) := by
  obtain ⟨k,hformat,htrace,hsends⟩ :=
    formatWhisper_some (R.view p).info R.timestamp msg hblock
  refine ⟨R.tick.set p { R.view p with sock := k },fun x => format_same htrace hsends x,?_⟩
  unfold whisperTo
  simp only [hformat,whisperPayload]
  exact (apply_ite (Prod.mk _) _ _ _).symm

theorem whisperTo_none (hblock : (R.view p).sock.oracle.blocks.headD (some []) = none) :
    ((R.whisperTo p q msg).1.view p).sock.trace = (R.view p).sock.trace ++ [.blockFailed] := by
  obtain ⟨k,hformat,htrace⟩ := formatWhisper_none (R.view p).info R.timestamp msg hblock
  unfold whisperTo
  simp only [hformat,view_set_self]
  exact htrace

theorem whisperTo_attempts (R : Room) (p q : Nat) (msg : Bytes) : ∃ x more o, (x = p ∨ x = q) ∧
    ((R.whisperTo p q msg).1.view x).sock.trace = (R.view x).sock.trace ++ more ∧
      o ∈ more ∧ o.ofWhisper = true := by
  by_cases hblock : (R.view p).sock.oracle.blocks.headD (some []) = none
  · exact ⟨p,_,.blockFailed,.inl rfl,whisperTo_none hblock,by simp,rfl⟩
  · obtain ⟨S,hsame,hwhisper⟩ := whisperTo_some (q := q) msg hblock
    obtain ⟨d,more,hd,htrace⟩ := S.sendTo_direct q (cstr (R.whisperPayload p msg ++ [0]))
    refine ⟨q,.direct d :: more,.direct d,.inr rfl,?_,List.mem_cons_self,?_⟩
    · rw [hwhisper,htrace,(hsame q).1]
    · simp [Obs.ofWhisper,hd]

end Room

/-- A whisper was written to somebody, or there was no memory for its text. -/
def Attempted (w w' : World) : Prop := ∃ q ∈ w.clientList, ∃ d k d' k' more o,
  w.Shows q d k ∧ w'.Shows q d' k' ∧ k'.trace = k.trace ++ more ∧ o ∈ more ∧ o.ofWhisper = true

def World.whisperPayload (w : World) (c : ClientInfo) (msg : Bytes) : Bytes :=
  strftime (clockTime w.clock) ++ ascii " [Whisper from: " ++ c.shownName ++ ascii "]: " ++
    msg ++ ascii "\n"

/-- What becomes of the message of the client `p` with the record `c` and the socket `k`. -/
structure WhisperServed (w : World) (p : Nat) (c : ClientInfo) (k : Sock) (text : Bytes) :
    Prop where
  attempted : ∀ w' r, processPayload w p (some text) = .ok (w',r) →
    (Attempted w w' ↔ ∃ target msg q, w.Addresses (cstr text) target msg q)
  sent : ∀ target msg q d j rest rest', w.Addresses (cstr text) target msg q →
    k.oracle.blocks.headD (some []) ≠ none → w.Shows q d j →
    takes j.oracle.sends headerSize = some rest →
    takes rest (w.whisperPayload c msg).length = some rest' →
    ∃ w', processPayload w p (some text) = .ok (w',0) ∧ ∀ x ∈ w.clientList, ∃ cx kx cx' kx',
      w.Shows x cx kx ∧ w'.Shows x cx' kx' ∧ wire kx'.trace = wire kx.trace ++
        if x = q then frame msgTypeNormal (w.whisperPayload c msg) else []
  refused : (∃ rest, WhisperToken (cstr text) rest) →
    (¬ ∃ target msg q, w.Addresses (cstr text) target msg q) →
    processPayload w p (some text) = .ok (w,0)
  returns : (∃ rest, WhisperToken (cstr text) rest) →
    ∃ w' r, processPayload w p (some text) = .ok (w',r)

section Serving
variable {w : World} {R : Room} {p q : Nat} {c : ClientInfo} {k : Sock}
  {text target msg : Bytes}

theorem firstNamed_refines (h : Refines w R) (hread : w.Readable) (target : Bytes) :
    R.target target = w.firstNamed target := by
  have hfound := findTarget_firstNamed hread target
  rw [h.clientList,findTarget_eq h target R.members (fun _ hq => hq)] at hfound
  exact Except.ok.inj hfound

theorem addresses_target (h : Refines w R) (hread : w.Readable)
    (hto : w.Addresses (cstr text) target msg q) : q ∈ R.members ∧ R.target target = some q ∧
      ∃ rest, WhisperToken (cstr text) rest ∧ strtokR 32 rest = (some target,msg) ∧ msg ≠ [] := by
  obtain ⟨hline,hfound⟩ := hto
  have htarget : R.target target = some q := (firstNamed_refines h hread target).trans hfound
  exact ⟨List.mem_of_find?_eq_some htarget,htarget,whisperLine_iff.mp hline⟩

/-- The world's result of a whisper that has a target is the room's. -/
theorem addresses_served (h : Refines w R) (hp : p ∈ R.members) (hfree : R.mutex = false)
    (hread : w.Readable) (hname : (R.view p).info.hasName = true)
    (hto : w.Addresses (cstr text) target msg q) : ∃ w',
      processPayload w p (some text) = .ok (w',if (R.whisperTo p q msg).2 = .disconnect ∨
        (R.whisperTo p q msg).2 = .error then -1 else 0) ∧
      Refines w' (R.whisperTo p q msg).1 ∧ (R.whisperTo p q msg).1.members = R.members := by
  obtain ⟨-,htarget,rest,htoken,hsplit,hmsg⟩ := addresses_target h hread hto
  have hroom := Room.processPayload_whisper hname htoken hsplit hmsg htarget
  obtain ⟨w',hcall,hw,-⟩ := payload_refines h hp hfree hroom
  exact ⟨w',hcall,hw,(Room.processPayload_serves hp hroom).members⟩

theorem attempted_iff (h : Refines w R) (hp : p ∈ R.members) (hfree : R.mutex = false)
    (hread : w.Readable) (hc : w.clients.get p = some c) (hname : c.hasName = true)
    (hroomName : (R.view p).info.hasName = true) {w' : World} {r : Int}
    (hcall : processPayload w p (some text) = .ok (w',r)) :
    Attempted w w' ↔ ∃ target msg q, w.Addresses (cstr text) target msg q := by
  constructor
  · rintro ⟨x,hx,d,k,d',k',more,o,hshows,hshows',htrace,ho,hwhisper⟩
    by_contra hnone
    by_cases htoken : ∃ rest, WhisperToken (cstr text) rest
    · obtain ⟨rest,htoken⟩ := htoken
      rw [whisper_refused hread (World.client_eq_ok hc) hname htoken hnone] at hcall
      cases hcall
      have hsame := hshows.info.symm.trans hshows'.info
      cases hsame
      have hsock := hshows.sock.symm.trans hshows'.sock
      cases hsock
      have hempty : more = [] := List.self_eq_append_right.mp htrace
      rw [hempty] at ho
      cases ho
    · obtain ⟨S,hroom,hS,-⟩ := payload_room h hp hfree hcall
      have hmem : x ∈ R.members := h.clientList ▸ hx
      have hmemS : x ∈ S.members := by
        rw [(Room.processPayload_serves hp hroom).members]
        exact hmem
      obtain ⟨more',htrace',hno⟩ := Room.processPayload_hushed hroomName htoken hroom x hmem
      rw [← (h.shown hmem hshows).2,← (hS.shown hmemS hshows').2,htrace] at htrace'
      rw [List.append_cancel_left htrace'] at ho
      rw [hno o ho] at hwhisper
      cases hwhisper
  · rintro ⟨target,msg,q,hto⟩
    obtain ⟨hq,-,-⟩ := addresses_target h hread hto
    obtain ⟨w₁,hcall₁,hS,hmembers⟩ := addresses_served h hp hfree hread hroomName hto
    cases hcall.symm.trans hcall₁
    obtain ⟨x,more,o,hx,htrace,ho,hwhisper⟩ := R.whisperTo_attempts p q msg
    have hmem : x ∈ R.members := by
      rcases hx with rfl | rfl
      · exact hp
      · exact hq
    obtain ⟨queue,hshows⟩ := h.shows hmem
    obtain ⟨queue',hshows'⟩ := hS.shows (hmembers ▸ hmem)
    exact ⟨x,h.clientList ▸ hmem,_,_,_,_,more,o,hshows,hshows',htrace,ho,hwhisper⟩

theorem whisper_sent (h : Refines w R) (hp : p ∈ R.members) (hfree : R.mutex = false)
    (hread : w.Readable) (hshows : w.Shows p c k)
    (hroomName : (R.view p).info.hasName = true)
    (hpayload : R.whisperPayload p msg = w.whisperPayload c msg)
    (hplain : 0 ∉ w.whisperPayload c msg) (hto : w.Addresses (cstr text) target msg q)
    (hblock : k.oracle.blocks.headD (some []) ≠ none) {d : ClientInfo} {j : Sock}
    (htarget : w.Shows q d j) {rest rest' : List SendRes}
    (hheader : takes j.oracle.sends headerSize = some rest)
    (htakes : takes rest (w.whisperPayload c msg).length = some rest') :
    ∃ w', processPayload w p (some text) = .ok (w',0) ∧ ∀ x ∈ w.clientList, ∃ cx kx cx' kx',
      w.Shows x cx kx ∧ w'.Shows x cx' kx' ∧ wire kx'.trace = wire kx.trace ++
        if x = q then frame msgTypeNormal (w.whisperPayload c msg) else [] := by
  obtain ⟨hq,-,-⟩ := addresses_target h hread hto
  obtain ⟨w',hcall,hS,hmembers⟩ := addresses_served h hp hfree hread hroomName hto
  have hsock := (h.shown hp hshows).2
  rw [hsock] at hblock
  obtain ⟨S,hsame,hwhisper⟩ := Room.whisperTo_some (q := q) msg hblock
  rw [(h.shown hq htarget).2,← (hsame q).2] at hheader
  rw [hpayload,cstr_append_zero,cstr_eq_self hplain] at hwhisper
  obtain ⟨hret,hwire⟩ := Room.sendTo_takes hheader htakes
  rw [hret] at hwhisper
  simp only [hwhisper] at hcall hS hmembers
  refine ⟨w',hcall,fun x hx => ?_⟩
  have hmem : x ∈ R.members := h.clientList ▸ hx
  obtain ⟨queue,hx⟩ := h.shows hmem
  obtain ⟨queue',hx'⟩ := hS.shows (hmembers ▸ hmem)
  refine ⟨_,_,_,_,hx,hx',?_⟩
  rw [hwire x,(hsame x).1]

end Serving

section Runs
variable {acts : List Action} {s : Sys} {p : Nat}

theorem new_terminated (old : ClientInfo) (fd : Nat) (junk : Bytes) :
    Terminated (clientInfoInit old fd (some junk)).1 := fun hname => by cases hname

/-- When all clients are named, and no name has a zero in it, a message of a named client is a
whisper exactly if it has the form of one and its target is listed, and then the target alone
gets one frame. -/
theorem whisper_served (hrun : run step Sys.init acts = .ok s) (hphase : s.phase ≠ .done)
    {c₀ : ClientInfo} {k₀ : Sock} (h : Listed s p c₀ k₀) (hopen : c₀.closed = false) {w : World}
    {text : Bytes} (hd : Delivers p s.world w (some text)) {c : ClientInfo} {k : Sock}
    (hshows : w.Shows p c k)
    (hnames : ∀ q ∈ w.clientList, ∀ d, w.clients.get q = some d →
      d.hasName = true ∧ 0 ∉ d.shownName) : WhisperServed w p c k text := by
  obtain ⟨-,-,-,-,-,-,hlisted,R,href,hfree⟩ := delivers_handed hrun hphase h hopen hd
  have hall : w.All Terminated := terminated_lasting.delivers hd
    (terminated_lasting.run hrun hphase (fun _ _ _ _ _ _ _ _ _ _ _ _ _ _ =>
      new_terminated _ _ _))
  have hp : p ∈ R.members := href.clientList ▸ hlisted
  obtain ⟨hname,hzero⟩ := hnames p hlisted c hshows.info
  have hread : w.Readable := by
    intro q hq
    obtain ⟨queue,hd⟩ := href.shows (href.clientList ▸ hq)
    obtain ⟨hnamed,hplain⟩ := hnames q hq _ hd.info
    exact ⟨_,hd.info,hnamed,(hall q hq _ hd.info).cstr hnamed hplain⟩
  obtain ⟨⟨queue,hceq⟩,-⟩ := href.shown hp hshows
  obtain ⟨A,hrep⟩ := href
  have href : Refines w R := ⟨A,hrep⟩
  have hroomName : (R.view p).info.hasName = true := by
    rw [hceq] at hname
    exact hname
  refine ⟨?_,?_,?_,?_⟩
  · exact fun w' r hcall =>
      attempted_iff href hp hfree hread hshows.info hname hroomName hcall
  · intro target msg q d j rest rest' hto hblock htarget hheader htakes
    have hpayload : R.whisperPayload p msg = w.whisperPayload c msg := by
      unfold Room.whisperPayload World.whisperPayload Room.timestamp whisperText
      rw [hrep.clock,hceq]
      rfl
    have hplain : 0 ∉ w.whisperPayload c msg := by
      have hmsg : 0 ∉ msg := by
        obtain ⟨⟨cmd,n,-,-,-,-,hline⟩,-⟩ := hto
        refine fun hmem => zero_not_mem_cstr text ?_
        rw [hline]
        simp [hmem]
      have htime := strftime_nonzero (clockTime w.clock)
      have hfront : (0 : UInt8) ∉ ascii " [Whisper from: " := by decide
      have hmiddle : (0 : UInt8) ∉ ascii "]: " := by decide
      have hend : (0 : UInt8) ∉ ascii "\n" := by decide
      simp only [World.whisperPayload,List.mem_append,not_or]
      exact ⟨⟨⟨⟨⟨htime,hfront⟩,hzero⟩,hmiddle⟩,hmsg⟩,hend⟩
    exact whisper_sent href hp hfree hread hshows hroomName hpayload hplain hto hblock htarget
      hheader htakes
  · rintro ⟨rest,htoken⟩ hnone
    exact whisper_refused hread (World.client_eq_ok hshows.info) hname htoken hnone
  · rintro ⟨rest,htoken⟩
    by_cases hto : ∃ target msg q, w.Addresses (cstr text) target msg q
    · obtain ⟨target,msg,q,hto⟩ := hto
      obtain ⟨w',hcall,-⟩ := addresses_served href hp hfree hread hroomName hto
      exact ⟨w',_,hcall⟩
    · exact ⟨w,0,whisper_refused hread (World.client_eq_ok hshows.info) hname htoken hto⟩

def firstDelivery : Nat → World → Nat → Option (World × Option Bytes)
  | 0,_,_ => none
  | n+1,w,p =>
    match w.client p with
    | .error _ => none
    | .ok c =>
      match w.sock c.clientFd with
      | .error _ => none
      | .ok k =>
        match readTurn c k with
        | .ok (c',k',.deliver copy) => some (w.put p c' k',copy)
        | .ok (c',k',.again) => firstDelivery n (w.put p c' k') p
        | _ => none

theorem firstDelivery_delivers {n : Nat} {w w' : World} {copy : Option Bytes}
    (h : firstDelivery n w p = some (w',copy)) : Delivers p w w' copy := by
  induction n generalizing w with
  | zero => cases h
  | succ n ih =>
    unfold firstDelivery at h
    cases hc : w.client p with
    | error e => simp [hc] at h
    | ok c =>
      simp only [hc] at h
      cases hk : w.sock c.clientFd with
      | error e => simp [hk] at h
      | ok k =>
        simp only [hk] at h
        cases hturn : readTurn c k with
        | error e => simp [hturn] at h
        | ok res =>
          obtain ⟨c',k',next⟩ := res
          simp only [hturn] at h
          cases next with
          | ret r => cases h
          | again => exact .again hc hk hturn (ih h)
          | deliver handed =>
            cases h
            exact .deliver hc hk hturn

theorem whisper_served_bob : ∃ s w c k,
    run step Sys.init (Action.types (ascii "/Whisper  bob  hi")) = .ok s ∧
    Delivers 1 s.world w (some (ascii "/Whisper  bob  hi" ++ [0])) ∧ w.Shows 1 c k ∧
    w.Addresses (ascii "/Whisper  bob  hi") (ascii "bob") (ascii " hi") 2 ∧
    WhisperServed w 1 c k (ascii "/Whisper  bob  hi" ++ [0]) := by
  obtain ⟨s,hrun,c₀,k₀,hphase,hlisted,htest⟩ := reaches_listed
    (show reachesListed (Action.types (ascii "/Whisper  bob  hi")) 1 (fun s c _ =>
      decide (c.closed = false) && (firstDelivery 3 s.world 1).any (fun res =>
        decide (res.2 = some (ascii "/Whisper  bob  hi" ++ [0]) ∧
          res.1.firstNamed (ascii "bob") = some 2) && res.1.clientList.all (fun q =>
            (res.1.clients.get q).any (fun d =>
              decide (d.hasName = true ∧ 0 ∉ d.shownName))))) = true by decide +kernel)
  rw [Bool.and_eq_true] at htest
  obtain ⟨hopen,htest⟩ := htest
  obtain ⟨⟨w,copy⟩,hfirst,htest⟩ := (Option.any_eq_true _ _).mp htest
  simp only [Bool.and_eq_true,decide_eq_true_eq,List.all_eq_true] at htest
  obtain ⟨⟨rfl,hbob⟩,hall⟩ := htest
  have hd := firstDelivery_delivers hfirst
  have hopen := of_decide_eq_true hopen
  obtain ⟨c,k,-,-,hshows,-⟩ := delivers_handed hrun hphase hlisted hopen hd
  refine ⟨s,w,c,k,hrun,hd,hshows,⟨⟨ascii "/Whisper",1,by decide⟩,hbob⟩,
    whisper_served hrun hphase hlisted hopen hd hshows ?_⟩
  intro q hq d hget
  obtain ⟨d',hget',htest⟩ := (Option.any_eq_true _ _).mp (hall q hq)
  rw [hget] at hget'
  cases hget'
  exact of_decide_eq_true htest

end Runs
end ChatServer
