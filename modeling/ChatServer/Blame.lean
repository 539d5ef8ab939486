import ChatServer.Handover

/-! Who is closed for a failed write: the client whose socket failed, and the
sender of a whisper. -/
set_option autoImplicit false

namespace ChatServer
open ByteString Memory Execution Relation

/-- From `v` to `v'` the client was not closed, or a write to it failed. -/
def OwnFault (v v' : View) : Prop := ∃ more, v'.sock.trace = v.sock.trace ++ more ∧
  (v'.info.closed = v.info.closed ∨ .writeFailed ∈ more)

namespace OwnFault
variable {v v' v'' : View} {p : Nat}

theorem refl (v : View) : OwnFault v v := ⟨[],by simp,.inl rfl⟩

theorem of_trace {more : List Obs} (htrace : v'.sock.trace = v.sock.trace ++ more)
    (hclosed : v'.info.closed = v.info.closed) : OwnFault v v' := ⟨more,htrace,.inl hclosed⟩

theorem trans (h : OwnFault v v') (h' : OwnFault v' v'') : OwnFault v v'' := by
  obtain ⟨more,ht,hc⟩ := h
  obtain ⟨more',ht',hc'⟩ := h'
  refine ⟨more ++ more',by rw [ht',ht,List.append_assoc],?_⟩
  rcases hc with hc | hw
  · rcases hc' with hc' | hw'
    · exact .inl (hc'.trans hc)
    · exact .inr (List.mem_append_right _ hw')
  · exact .inr (List.mem_append_left _ hw)

theorem setEpollout (v : View) (on : Bool) : OwnFault v (v.setEpollout on p) := by
  unfold View.setEpollout Sock.epollCtlMod
  split
  · exact refl v
  · simp only
    split
    · exact of_trace rfl rfl
    · exact of_trace rfl rfl

theorem writes (h : View.Writes p v v') : OwnFault v v' := by
  cases h with
  | note ho => exact of_trace rfl rfl
  | close => exact ⟨[.writeFailed,.markedClosed],by simp [View.markClosed],.inr (by simp)⟩
  | dropAlloc => exact ⟨[],by simp [View.dropAlloc],.inl rfl⟩
  | withSends rest => exact ⟨[],by simp,.inl rfl⟩
  | withQueue queue => exact ⟨[],by simp,.inl rfl⟩
  | setEpollout on => exact setEpollout v on

theorem written (h : View.Written p v v') : OwnFault v v' := h.keeps refl trans writes

theorem sendNow (v : View) : OwnFault v (v.sendNow p) := written (.sendNow v)

theorem direct (v : View) (msgType : UInt8) (msg : Bytes) :
    OwnFault v (v.direct msgType msg).1 := by
  obtain ⟨a,b,ht⟩ := v.direct_trace msgType msg
  rw [List.append_assoc,List.append_assoc] at ht
  exact of_trace ht rfl

theorem served {s s' : Seat} (h : ReflTransGen (Seat.Served p) s s') :
    OwnFault s.view s'.view := by
  induction h with
  | refl => exact refl _
  | tail _ hstep ih =>
    refine ih.trans ?_
    cases hstep with
    | offer => exact written (.offer _ _ _ _)
    | whisper => exact direct _ _ _
    | list => exact direct _ _ _
    | listing names => exact of_trace rfl rfl
    | format size =>
      rcases Sock.realloc_trace _ none size with ht | ht
      · exact ⟨[],by simpa using ht,.inl rfl⟩
      · exact of_trace ht rfl
    | name _ hstore => exact ⟨[],by simp,.inl (storeClientName_frame hstore).2⟩
    | shutdown => exact refl _

end OwnFault
namespace Sock
variable (k : Sock)

theorem writeAll_sends (buffer : Bytes) : (k.writeAll buffer).1.oracle.sends =
    (ChatServer.writeAll k.oracle.sends buffer).rest := by
  unfold Sock.writeAll
  rw [accept_sends]
  rfl

theorem writeFrame_snd (msgType : UInt8) (msg : Bytes) : (k.writeFrame msgType msg).2 =
    if (ChatServer.writeAll k.oracle.sends (createHeader msg.length msgType true).bytes).ret = -1 ∨
      (ChatServer.writeAll (ChatServer.writeAll k.oracle.sends
        (createHeader msg.length msgType true).bytes).rest msg).ret = -1 then -1 else 0 := by
  have hfirst : (k.writeAll (createHeader msg.length msgType true).bytes).2 = (ChatServer.writeAll
      k.oracle.sends (createHeader msg.length msgType true).bytes).ret := rfl
  have hsecond : ((k.writeAll (createHeader msg.length msgType true).bytes).1.writeAll msg).2 =
      (ChatServer.writeAll (ChatServer.writeAll k.oracle.sends
        (createHeader msg.length msgType true).bytes).rest msg).ret := by
    rw [← writeAll_sends]
    rfl
  unfold writeFrame
  simp only [hfirst,hsecond]
  split
  · rename_i hr
    simp [hr]
  · rename_i hr
    split
    · rename_i hr'
      simp [hr']
    · rename_i hr'
      simp [hr,hr']

theorem realloc_sends (old : Option Bytes) (size : Nat) :
    (k.realloc old size).1.oracle.sends = k.oracle.sends := by
  unfold realloc
  simp only
  split <;> rfl

end Sock

namespace Room
variable {R : Room} {p t : Nat} {v : View} {copy : Option Bytes}

def verdict (R : Room) (p : Nat) (copy : Option Bytes) : Option Int :=
  match R.processPayload p copy with
  | .ok (_,r) => some r
  | .error _ => none

/-- The client and the text that a whisper in this message is written to. -/
def whispered (R : Room) (p : Nat) (copy : Option Bytes) : Option (Nat × Bytes) :=
  match copy with
  | none => none
  | some text =>
    if (R.view p).info.hasName = false ∨ text.head? ≠ some 47 then none
    else match strtokR 32 (cstr text) with
    | (none,_) => none
    | (some cmd,saveptr) =>
      if findCommand (makeLowercase cmd) ≠ .whisper then none
      else match strtokR 32 saveptr with
      | (none,_) => none
      | (some name,msg) =>
        if msg = [] then none
        else match R.target name with
        | none => none
        | some t => (formatWhisper (R.view p).info (R.view p).sock R.timestamp msg).2.map
            (fun text => (t,cstr text))

def tell (R : Room) (t : Nat) (text : Bytes) : Int :=
  ((R.view t).sock.writeFrame msgTypeNormal text).2

theorem target_set (hinfo : v.info = (R.view t).info) (name : Bytes) :
    (R.set t v).target name = R.target name := by
  have hsame : ∀ q, ((R.set t v).view q).info = (R.view q).info := by
    intro q
    by_cases hqt : q = t
    · rw [hqt,view_set_self,hinfo]
    · rw [view_set_of_ne R v hqt]
  unfold target
  simp only [hsame,set_members]

theorem whispered_set (copy : Option Bytes) (hpt : t ≠ p) (hinfo : v.info = (R.view t).info) :
    (R.set t v).whispered p copy = R.whispered p copy := by
  have hview : (R.set t v).view p = R.view p := view_set_of_ne R v (Ne.symm hpt)
  have htime : (R.set t v).timestamp = R.timestamp := rfl
  unfold whispered
  simp only [hview,htime,target_set hinfo]

theorem whispered_inv {text : Bytes} (h : R.whispered p copy = some (t,text)) :
    ∃ m cmd saveptr name msg formatted, copy = some m ∧ (R.view p).info.hasName = true ∧
      m.head? = some 47 ∧ strtokR 32 (cstr m) = (some cmd,saveptr) ∧
      findCommand (makeLowercase cmd) = .whisper ∧ strtokR 32 saveptr = (some name,msg) ∧
      msg ≠ [] ∧ R.target name = some t ∧
      (formatWhisper (R.view p).info (R.view p).sock R.timestamp msg).2 = some formatted ∧
      text = cstr formatted := by
  unfold whispered at h
  cases copy with
  | none => cases h
  | some m =>
    simp only at h
    split at h
    · cases h
    · rename_i hnamed
      simp only [not_or,Bool.not_eq_false,not_not] at hnamed
      split at h
      · cases h
      · rename_i cmd saveptr htok
        split at h
        · cases h
        · rename_i hcmd
          split at h
          · cases h
          · rename_i name msg htok'
            split at h
            · cases h
            · rename_i hmsg
              split at h
              · cases h
              · rename_i u htarget
                obtain ⟨formatted,hf,he⟩ := Option.map_eq_some_iff.mp h
                cases he
                exact ⟨m,cmd,saveptr,name,msg,formatted,rfl,hnamed.1,hnamed.2,htok,
                  not_not.mp hcmd,htok',hmsg,htarget,hf,rfl⟩

theorem verdict_command {m : Bytes} {cmd saveptr : Bytes} (hname : (R.view p).info.hasName = true)
    (hslash : m.head? = some 47) (htok : strtokR 32 (cstr m) = (some cmd,saveptr)) :
    R.verdict p (some m) = some (if (R.command p (makeLowercase cmd) saveptr).2 = .disconnect ∨
      (R.command p (makeLowercase cmd) saveptr).2 = .error then -1 else 0) := by
  unfold verdict processPayload
  rw [if_neg (by simp [hname])]
  simp only [hslash,if_true]
  unfold runCommand
  simp only [htok]
  by_cases hbad : (R.command p (makeLowercase cmd) saveptr).2 = .disconnect ∨
      (R.command p (makeLowercase cmd) saveptr).2 = .error
  · rw [if_pos hbad,if_pos hbad]
    rfl
  · rw [if_neg hbad,if_neg hbad]
    rfl

theorem tell_formatted (msg text : Bytes) :
    (((R.tick.set p { R.view p with sock := (formatWhisper (R.view p).info (R.view p).sock
      R.timestamp msg).1 }).sendTo msgTypeNormal t text).2) = R.tell t text := by
  have hsends : ((R.tick.set p { R.view p with sock := (formatWhisper (R.view p).info
      (R.view p).sock R.timestamp msg).1 }).view t).sock.oracle.sends =
      (R.view t).sock.oracle.sends := by
    by_cases htp : t = p
    · subst htp
      obtain ⟨size,hsock⟩ := formatWhisper_sock (R.view t).info (R.view t).sock R.timestamp msg
      rw [view_set_self,hsock]
      exact Sock.realloc_sends _ _ _
    · rw [view_set_of_ne R.tick _ htp]
      rfl
  unfold sendTo tell View.direct
  simp only [Sock.writeFrame_snd]
  simp only [View.note,Sock.note,hsends]

theorem verdict_whispered {text : Bytes} (h : R.whispered p copy = some (t,text)) :
    R.verdict p copy = some (if R.tell t text = -1 then -1 else 0) := by
  obtain ⟨m,cmd,saveptr,name,msg,formatted,rfl,hname,hslash,htok,hcmd,htok',hmsg,htarget,hf,rfl⟩ :=
    whispered_inv h
  rw [verdict_command hname hslash htok]
  have hresult : (R.command p (makeLowercase cmd) saveptr).2 =
      if R.tell t (cstr formatted) = -1 then .error else .ok := by
    unfold command
    rw [hcmd]
    simp only
    unfold whisper
    simp only [htok',if_neg hmsg,Option.bind_some,htarget]
    unfold whisperTo
    simp only [hf,tell_formatted]
    split <;> rfl
  rw [hresult]
  by_cases hr : R.tell t (cstr formatted) = -1 <;> simp [hr]

/-- A command's result is the same whatever the writes to `t` meet, when it is
not a whisper to `t`. -/
theorem command_set {m cmd saveptr : Bytes} (hpt : t ≠ p) (hinfo : v.info = (R.view t).info)
    (hname : (R.view p).info.hasName = true) (hslash : m.head? = some 47)
    (htok : strtokR 32 (cstr m) = (some cmd,saveptr))
    (hno : ∀ text, R.whispered p (some m) ≠ some (t,text)) :
    ((R.set t v).command p (makeLowercase cmd) saveptr).2 =
      (R.command p (makeLowercase cmd) saveptr).2 := by
  have hview : (R.set t v).view p = R.view p := view_set_of_ne R v (Ne.symm hpt)
  have htime : (R.set t v).timestamp = R.timestamp := rfl
  unfold command
  cases hcmd : findCommand (makeLowercase cmd) with
  | list => rfl
  | shutdown => rfl
  | quit => rfl
  | unknown => rfl
  | whisper =>
    simp only
    unfold whisper
    rcases htok' : strtokR 32 saveptr with ⟨name,msg⟩
    simp only
    by_cases hmsg : msg = []
    · rw [if_pos hmsg,if_pos hmsg]
    · rw [if_neg hmsg,if_neg hmsg]
      cases name with
      | none => rfl
      | some name =>
        simp only [Option.bind_some,target_set hinfo]
        cases htarget : R.target name with
        | none => rfl
        | some u =>
          have hformat := tell_formatted (R := R.set t v) (p := p) (t := u) msg
          rw [hview,htime] at hformat
          unfold whisperTo
          simp only [hview,htime]
          cases hf : (formatWhisper (R.view p).info (R.view p).sock R.timestamp msg).2 with
          | none => rfl
          | some formatted =>
            have hut : u ≠ t := by
              rintro rfl
              refine hno (cstr formatted) ?_
              unfold whispered
              simp [hname,hslash,htok,hcmd,htok',hmsg,htarget,hf]
            have htell : (R.set t v).tell u (cstr formatted) = R.tell u (cstr formatted) := by
              unfold tell
              rw [view_set_of_ne R v hut]
            simp only [hformat,tell_formatted,htell]
            split <;> rfl

theorem verdict_set (hpt : t ≠ p) (hinfo : v.info = (R.view t).info)
    (hno : ∀ text, R.whispered p copy ≠ some (t,text)) :
    (R.set t v).verdict p copy = R.verdict p copy := by
  have hview : (R.set t v).view p = R.view p := view_set_of_ne R v (Ne.symm hpt)
  have htime : (R.set t v).timestamp = R.timestamp := rfl
  cases hname : (R.view p).info.hasName with
  | false =>
    unfold verdict processPayload nameIt
    simp only [hview,hname,if_true]
    cases storeClientName (R.view p).info <;> rfl
  | true =>
    cases copy with
    | none =>
      unfold verdict processPayload
      simp only [hview,hname,Bool.true_eq_false,if_false]
    | some m =>
      by_cases hslash : m.head? = some 47
      · rcases htok : strtokR 32 (cstr m) with ⟨cmd,saveptr⟩
        cases cmd with
        | none =>
          unfold verdict processPayload runCommand
          simp only [hview,hname,Bool.true_eq_false,if_false,hslash,if_true,htok]
        | some cmd =>
          rw [verdict_command (by rw [hview]; exact hname) hslash htok,
            verdict_command hname hslash htok,command_set hpt hinfo hname hslash htok hno]
      · unfold verdict processPayload chat
        simp only [hview,hname,Bool.true_eq_false,if_false,if_neg hslash,htime]
        rcases formatChat (R.view p).info (R.view p).sock R.timestamp with e | ⟨k,text⟩
        · rfl
        · cases text <;> rfl

end Room

def World.whispered (w : World) (p : Nat) (copy : Option Bytes) : Option (Nat × Bytes) :=
  match w.clients.get p,copy with
  | some c,some text =>
    if c.hasName = false ∨ text.head? ≠ some 47 then none
    else match strtokR 32 (cstr text) with
    | (none,_) => none
    | (some cmd,saveptr) =>
      if findCommand (makeLowercase cmd) ≠ .whisper then none
      else match strtokR 32 saveptr with
      | (none,_) => none
      | (some name,msg) =>
        if msg = [] then none
        else match findTarget w name w.clientList,formatWhisperMessage w p msg with
        | .ok (some t),.ok (_,some text) => some (t,cstr text)
        | _,_ => none
  | _,_ => none

/-- The message is a whisper, and its write to another client returns -1. -/
def WhisperFails (w : World) (p : Nat) (copy : Option Bytes) : Prop :=
  ∃ t text c k, w.whispered p copy = some (t,text) ∧ t ≠ p ∧ w.Shows t c k ∧
    (k.writeFrame msgTypeNormal text).2 = -1

/-- The same world, but for what the writes to the client `t` will meet. -/
def World.replan (w : World) (t : Nat) (sends : List SendRes) : World :=
  match w.clients.get t with
  | none => w
  | some c => w.onSock c.clientFd (fun k => k.withSends sends)

/-- What the writes to other clients meet does not get the sender refused, and
whoever is closed had a write to its own socket fail. -/
structure Isolates (w : World) (p : Nat) (copy : Option Bytes) : Prop where
  sender : ∀ w₁, processPayload w p copy = .ok (w₁,-1) → ∀ t ∈ w.clientList, t ≠ p →
    ∀ sends w₂ r, processPayload (w.replan t sends) p copy = .ok (w₂,r) → r = -1
  others : ∀ w₁ r, processPayload w p copy = .ok (w₁,r) → ∀ q ∈ w.clientList, ∀ c k c' k',
    w.Shows q c k → w₁.Shows q c' k' → ∃ more, k'.trace = k.trace ++ more ∧
      (c'.closed = c.closed ∨ .writeFailed ∈ more)

section Worlds
variable {w : World} {R : Room} {p t : Nat} {copy : Option Bytes}

theorem whispered_refines (h : Refines w R) (hp : p ∈ R.members) :
    w.whispered p copy = R.whispered p copy := by
  have hlist : w.clientList = R.members := h.clientList
  have href := h
  obtain ⟨A,h⟩ := h
  obtain ⟨q,hc,-,-,-⟩ := h.owns p hp
  have hnamed : ((R.view p).info.withQueue q).hasName = (R.view p).info.hasName := rfl
  unfold World.whispered Room.whispered
  cases copy with
  | none => simp only [hc]
  | some text =>
    simp only [hc,hnamed]
    split
    · rfl
    · split
      · rfl
      · split
        · rfl
        · split
          · rfl
          · rename_i name msg _
            obtain ⟨w₁,hformat,-⟩ := formatWhisperMessage_refines href hp msg
            have hfind := findTarget_eq href name R.members (fun _ hq => hq)
            rw [hlist,hfind,hformat]
            unfold Room.target
            cases R.members.find? (fun q => decide (cstr (R.view q).info.name.data = name)) with
            | none => rfl
            | some t =>
              cases (formatWhisper (R.view p).info (R.view p).sock R.timestamp msg).2 with
              | none => rfl
              | some text => rfl

theorem processPayload_verdict (h : Refines w R) (hp : p ∈ R.members) (hfree : R.mutex = false)
    {r : Int} : (∃ w', processPayload w p copy = .ok (w',r)) ↔ R.verdict p copy = some r := by
  have hmatch := processPayload_refines h hp hfree copy
  unfold Room.verdict
  cases hroom : R.processPayload p copy with
  | error e =>
    rw [hroom] at hmatch
    rw [hmatch.eq_error]
    simp
  | ok res =>
    obtain ⟨S,r'⟩ := res
    rw [hroom] at hmatch
    obtain ⟨⟨w',r''⟩,hw,-,hr⟩ := hmatch.ok_right
    rw [hw]
    simp only [Except.ok.injEq,Prod.mk.injEq,Option.some.injEq] at hr ⊢
    rw [hr]
    exact ⟨fun ⟨_,_,he⟩ => he,fun he => ⟨w',rfl,he⟩⟩

def View.replan (v : View) (sends : List SendRes) : View :=
  { v with sock := v.sock.withSends sends }

theorem replan_refines (h : Refines w R) (ht : t ∈ R.members) (sends : List SendRes) :
    Refines (w.replan t sends) (R.set t ((R.view t).replan sends)) := by
  obtain ⟨A,h⟩ := h
  obtain ⟨q,hc,hk,-,hreg⟩ := h.owns t ht
  have hfd : ((R.view t).info.withQueue q).clientFd = (R.view t).info.clientFd := rfl
  unfold World.replan World.onSock
  simp only [hc,hfd,hk]
  exact ⟨A,h.putSock ht hreg⟩

theorem tell_accepts (text : Bytes) :
    (R.set t ((R.view t).replan [.accepts headerSize,.accepts (text.length+1)])).tell t text = 0 := by
  have hheader : takes [.accepts headerSize,.accepts (text.length+1)] headerSize =
      some [.accepts (text.length+1)] := by simp [takes,headerSize]
  obtain ⟨rest,hpayload⟩ : ∃ rest, takes [.accepts (text.length+1)] text.length = some rest := by
    cases text with
    | nil => exact ⟨_,rfl⟩
    | cons b text => exact ⟨[],by simp [takes]⟩
  unfold Room.tell
  rw [Room.view_set_self]
  exact congrArg Prod.snd (Sock.writeFrame_takes (k := ((R.view t).replan _).sock) hheader hpayload)

theorem whisperFails_iff (h : Refines w R) (hp : p ∈ R.members) :
    WhisperFails w p copy ↔
      ∃ t text, R.whispered p copy = some (t,text) ∧ t ≠ p ∧ R.tell t text = -1 := by
  have hmember : ∀ {t text}, R.whispered p copy = some (t,text) → t ∈ R.members := by
    intro t text hwhisper
    obtain ⟨-,-,-,name,-,-,-,-,-,-,-,-,-,htarget,-⟩ := Room.whispered_inv hwhisper
    exact List.mem_of_find?_eq_some htarget
  unfold WhisperFails
  rw [whispered_refines h hp]
  constructor
  · rintro ⟨t,text,c,k,hwhisper,htp,hshows,hret⟩
    refine ⟨t,text,hwhisper,htp,?_⟩
    rw [(h.shown (hmember hwhisper) hshows).2] at hret
    exact hret
  · rintro ⟨t,text,hwhisper,htp,hret⟩
    obtain ⟨q,hshows⟩ := h.shows (hmember hwhisper)
    exact ⟨t,text,_,_,hwhisper,htp,hshows,hret⟩

/-- The sender depends on others' writes only through a whisper that fails. -/
theorem isolates_iff (h : Refines w R) (hp : p ∈ R.members) (hfree : R.mutex = false) :
    Isolates w p copy ↔ ¬ WhisperFails w p copy := by
  have hverdict : ∀ {r : Int}, (∃ w', processPayload w p copy = .ok (w',r)) ↔
      R.verdict p copy = some r := processPayload_verdict h hp hfree
  have hreplan : ∀ {t : Nat} (sends : List SendRes) {r : Int}, t ∈ R.members →
      ((∃ w', processPayload (w.replan t sends) p copy = .ok (w',r)) ↔
        (R.set t ((R.view t).replan sends)).verdict p copy = some r) := fun sends r ht =>
    processPayload_verdict (replan_refines h ht sends) hp hfree
  rw [whisperFails_iff h hp]
  constructor
  · rintro hisolates ⟨t,text,hwhisper,htp,hret⟩
    obtain ⟨-,-,-,name,-,-,-,-,-,-,-,-,-,htarget,-⟩ := Room.whispered_inv hwhisper
    have ht : t ∈ R.members := List.mem_of_find?_eq_some htarget
    obtain ⟨w₁,hrefused⟩ := hverdict.mpr (by rw [Room.verdict_whispered hwhisper,if_pos hret])
    obtain ⟨w₂,hserved⟩ := (hreplan [.accepts headerSize,.accepts (text.length+1)] (r := 0) ht).mpr
      (by
        have hsame := (Room.whispered_set (R := R) copy
          (v := (R.view t).replan [.accepts headerSize,.accepts (text.length+1)]) htp rfl).trans
            hwhisper
        rw [Room.verdict_whispered hsame,tell_accepts]
        simp)
    have hzero := hisolates.sender w₁ hrefused t (by rw [h.clientList]; exact ht) htp _ w₂ 0 hserved
    cases hzero
  · intro hnone
    refine ⟨?_,?_⟩
    · intro w₁ hrefused t ht htp sends w₂ r hserved
      rw [h.clientList] at ht
      have hbad := hverdict.mp ⟨w₁,hrefused⟩
      have hother := (hreplan sends ht).mp ⟨w₂,hserved⟩
      have hno : ∀ text, R.whispered p copy ≠ some (t,text) := by
        intro text hwhisper
        rw [Room.verdict_whispered hwhisper] at hbad
        refine hnone ⟨t,text,hwhisper,htp,?_⟩
        by_contra hret
        rw [if_neg hret] at hbad
        cases hbad
      rw [Room.verdict_set (v := (R.view t).replan sends) htp rfl hno,hbad] at hother
      exact (Option.some.inj hother).symm
    · intro w₁ r hcall q hq c k c' k' hshows hshows'
      rw [h.clientList] at hq
      obtain ⟨S,hroom,hS,-⟩ := payload_room h hp hfree hcall
      have hserves := Room.processPayload_serves hp hroom
      obtain ⟨more,htrace,hfault⟩ := OwnFault.served (hserves.seats q hq)
      obtain ⟨⟨queue,rfl⟩,rfl⟩ := h.shown hq hshows
      obtain ⟨⟨queue',rfl⟩,rfl⟩ := hS.shown (by rw [hserves.members]; exact hq) hshows'
      exact ⟨more,htrace,hfault⟩

end Worlds

theorem delivers_refused {w₀ w w' w₂ : World} {p : Nat} {copy : Option Bytes}
    (hd : Delivers p w₀ w copy) (hcall : processPayload w p copy = .ok (w',-1))
    (hnote : w'.note p (.verdict (-1)) = .ok w₂) (fuel : Nat) :
    handleClientReadLoop fuel w₀ p = .error .outOfFuel ∨
      handleClientReadLoop fuel w₀ p = .ok (w₂,-1) := by
  obtain ⟨w₁,c,k,c',k',hturns,hc,hk,hturn,rfl⟩ := hd.turns
  rcases hturns.loop fuel with hfuel | ⟨n,hloop⟩
  · exact .inl hfuel
  · right
    rw [hloop,handleClientReadLoop_succ]
    simp only [hc,hk,ok_bind,hturn,hcall,hnote]
    rfl

section Runs
variable {acts : List Action} {s : Sys} {p : Nat} {c : ClientInfo} {k : Sock} {w : World}
  {copy : Option Bytes}

/-- A message that is handed over isolates its sender from the writes to other
clients, unless it is a whisper that fails; the sender of such a one is closed,
because -1 is what `handle_client_read` then returns. -/
theorem failures_isolated_iff (hrun : run step Sys.init acts = .ok s) (hphase : s.phase ≠ .done)
    (h : Listed s p c k) (hopen : c.closed = false) (hd : Delivers p s.world w copy) :
    (Isolates w p copy ↔ ¬ WhisperFails w p copy) ∧
      ∀ w', processPayload w p copy = .ok (w',-1) →
        ∃ w'', handleClientRead s.world p = .ok (w'',-1) := by
  obtain ⟨-,-,-,-,-,-,hlisted,R,href,hfree⟩ := delivers_handed hrun hphase h hopen hd
  have hp : p ∈ R.members := by
    rw [← href.clientList]
    exact hlisted
  refine ⟨isolates_iff href hp hfree,?_⟩
  intro w' hcall
  obtain ⟨S,-,hS,hpS⟩ := payload_room href hp hfree hcall
  obtain ⟨w₂,hnote,h₂⟩ := note_refines hS hpS (.verdict (-1))
  obtain ⟨w₃,hnote',-⟩ := note_refines h₂ hpS (.readReturned (-1))
  obtain ⟨R₀,htracks,hseated,-⟩ := run_tracks hrun hphase
  obtain ⟨hp₀,hseats⟩ := htracks.seats hseated h
  have hopen₀ : (R₀.view p).info.closed = false := hseats.closed.trans hopen
  have hreads := handleClientRead_refines htracks.refines hp₀ htracks.mutex hopen₀
  have hc := World.client_eq_ok h.info
  have hk := World.sock_eq_ok h.sock
  unfold handleClientRead at hreads ⊢
  simp only [hc,hk,ok_bind] at hreads ⊢
  rcases delivers_refused hd hcall hnote (2*k.inbox.length+2) with hfuel | hloop
  · rw [hfuel] at hreads
    rcases hreads with hnull | hbounds
    · cases hnull
    · cases hbounds
  · rw [hloop]
    simp only [ok_bind,hnote']
    exact ⟨w₃,rfl⟩

def Action.types (text : Bytes) : List Action :=
  connects 1 5 .quiet ++ connects 2 6 .quiet ++ hears 5 (frame msgTypeNormal (ascii "ann")) ++
    hears 6 (frame msgTypeNormal (ascii "bob")) ++ [.net 5 (frame msgTypeNormal text) false false]

theorem failures_isolated_iff_types : ∃ s w, run step Sys.init (Action.types (ascii "hello")) = .ok s ∧
    Delivers 1 s.world w (some (ascii "hello" ++ [0])) ∧
    Isolates w 1 (some (ascii "hello" ++ [0])) := by
  obtain ⟨s,hrun,c,k,hphase,hlisted,htest⟩ := reaches_listed
    (show reachesListed (Action.types (ascii "hello")) 1 (fun s c _ => decide (c.closed = false) &&
      deliveryShows 3 s.world 1 (fun copy _ _ => decide (copy = some (ascii "hello" ++ [0])))) = true
      by decide +kernel)
  simp only [Bool.and_eq_true,decide_eq_true_eq] at htest
  obtain ⟨hopen,hshows⟩ := htest
  obtain ⟨w,copy,c₁,k₁,hd,hshows,htest⟩ := deliveryShows_delivers hshows
  have hcopy := of_decide_eq_true htest
  subst hcopy
  refine ⟨s,w,hrun,hd,(failures_isolated_iff hrun hphase hlisted hopen hd).1.mpr ?_⟩
  rintro ⟨t,text,c₂,k₂,hwhisper,-⟩
  have hhead : (ascii "hello" ++ [0]).head? ≠ some 47 := by decide
  unfold World.whispered at hwhisper
  simp only [hshows.info,if_pos (Or.inr hhead)] at hwhisper
  cases hwhisper

/-- Ann whispers to bob. She is closed when his socket blocks, and is not when it
takes the whisper. -/
theorem whisper_closes_sender :
    (∃ s c k, run step Sys.init (Action.types (ascii "/whisper bob hi") ++
        Action.turn [Action.input 5] []) = .ok s ∧ Listed s 1 c k ∧ c.closed = true) ∧
      ∃ s c k, run step Sys.init (Action.types (ascii "/whisper bob hi") ++
        .plan 6 { Oracle.quiet with sends := [.accepts 6,.accepts 99] } ::
          Action.turn [Action.input 5] []) = .ok s ∧ Listed s 1 c k ∧ c.closed = false := by
  obtain ⟨s,hrun,c,k,-,hlisted,htest⟩ := reaches_listed
    (show reachesListed (Action.types (ascii "/whisper bob hi") ++ Action.turn [Action.input 5] []) 1
      (fun _ c _ => c.closed) = true by decide +kernel)
  obtain ⟨s',hrun',c',k',-,hlisted',htest'⟩ := reaches_listed
    (show reachesListed (Action.types (ascii "/whisper bob hi") ++
        .plan 6 { Oracle.quiet with sends := [.accepts 6,.accepts 99] } ::
          Action.turn [Action.input 5] []) 1
      (fun _ c _ => decide (c.closed = false)) = true by decide +kernel)
  exact ⟨⟨s,c,k,hrun,hlisted,htest⟩,s',c',k',hrun',hlisted',of_decide_eq_true htest'⟩

end Runs
end ChatServer
