import Mathlib.Data.List.Induction
import ChatServer.Framing
import ChatServer.Listening

/-! The two threads of the client, src/client/client.c and client_listen.c, at work at the
same time: which of them frees `info`, and whether the other one still uses it. -/
set_option autoImplicit false

namespace ChatServer
open ByteString Memory Execution

inductive Thread where
  | main | listener
  deriving DecidableEq, Repr

/-- Where the listener is: in front of one of its two uses of `info->sfd`, in the read
that follows, in front of `free(info)` with what is to be done behind it, or behind the loop. -/
inductive ListenPc where
  | atHeader | inHeader
  | atPayload : Nat → ListenPc
  | inPayload : Nat → ListenPc
  | freeing : Bool → Int → ListenPc
  | ended
  deriving DecidableEq, Repr

/-- Where the main thread is: in its loop, in front of `free(info)`, waiting in
`pthread_join`, or ended together with the process by `handle_error`. -/
inductive MainPc where
  | looping | freeing | joining | exited
  deriving DecidableEq, Repr

/-- `info` says which thread has freed the block that both have a pointer to. -/
structure ClientProcess where
  main : ClientMain
  listener : Listener
  mainPc : MainPc
  pc : ListenPc
  info : Option Thread

def Listener.init (blocks : List (Option Bytes)) (writes : List SendRes) (header : Buf headerSize) :
    Listener := ⟨[],blocks,writes,header,false,[],[],.running⟩

namespace Listener

/-- `read_payload` with the block and the result, or `none` while it waits. -/
def fetched (l : Listener) (msgLen : Nat) : Option (Listener × Bytes × Int) :=
  let blocks := l.blocks.tail
  match l.blocks.headD (some []) with
  | none => some ({ l with blocks := blocks },[],-1)
  | some junk =>
    match readAll l.input msgLen with
    | .waits _ => none
    | .returned bs r rest =>
      some ({ l with blocks := blocks, input := rest },payloadBlock bs junk msgLen,r)

/-- What follows `read_payload`, on a way out as far as `free(info)`. The flag is set in
front of it for the notice, and behind it when the payload could not be written. -/
def handled (l : Listener) (msgPayload : Bytes) (bytesRead : Int) : Listener × Option Bool :=
  if bytesRead ≤ 0 then (l.print couldntRead,some false)
  else if cstr msgPayload = shutdownText then
    ({ l.print shuttingDown with clientShutdown := true },some false)
  else
    let r := writeAll l.writes (msgPayload.take bytesRead.toNat)
    let l := { l with stdout := l.stdout ++ r.taken, writes := r.rest }
    if r.ret = -1 then (l.print couldntWrite,some true) else (l,none)

def freed (l : Listener) (unwritten : Bool) (bytesRead : Int) : Listener :=
  { l with clientShutdown := l.clientShutdown || unwritten }.leave bytesRead

end Listener

/-- What the main thread or the listener does next, or what arrives from the server:
`select` times out or reports the terminal, or one of the threads goes on. -/
inductive ProcAction where
  | arrives : List RecvRes → ProcAction
  | timesOut
  | types : Typing → ProcAction
  | frees
  | listens

namespace ClientProcess

def init (buf : Buf bufSize) (l : Listener) : ClientProcess :=
  ⟨.init buf,l,.looping,.atHeader,none⟩

def touch (s : ClientProcess) : Except Fault Unit :=
  if s.info = none then pure () else .error .useAfterFree

def free (s : ClientProcess) (t : Thread) : Except Fault ClientProcess := do
  s.touch
  pure { s with info := some t }

/-- A turn of the main loop, up to `free(info)`. The flag is looked at again when
`select` returns. -/
def typed (s : ClientProcess) (i : Typing) : Except Fault ClientProcess :=
  if s.listener.clientShutdown then pure { s with mainPc := .joining }
  else do
    let m ← mainTurn s.main i
    pure { s with
      main := m
      mainPc := match m.phase with
        | .reading => .looping
        | .left => if i.chunk = [] then .joining else .freeing
        | .exited => .exited }

/-- The listener goes on as far as its next use of `info` or its next read. A read that
waits has no effect yet. -/
def listens (s : ClientProcess) : Except Fault ClientProcess :=
  match s.pc with
  | .atHeader => do
    s.touch
    pure { s with pc := .inHeader }
  | .inHeader =>
    match readAll s.listener.input headerSize with
    | .waits _ => pure s
    | .returned bs r rest =>
      match s.listener.header.write 0 bs with
      | none => .error .outOfBounds
      | some header =>
        let l := { s.listener with header := header, input := rest }
        if r ≤ 0 then pure { s with listener := l.leave r, pc := .ended }
        else pure { s with listener := l, pc := .atPayload (parseHeader header.data).msgLen }
  | .atPayload msgLen => do
    s.touch
    pure { s with pc := .inPayload msgLen }
  | .inPayload msgLen =>
    match s.listener.fetched msgLen with
    | none => pure s
    | some (l,msgPayload,bytesRead) =>
      match l.handled msgPayload bytesRead with
      | (l,none) => pure { s with listener := l, pc := .atHeader }
      | (l,some unwritten) => pure { s with listener := l, pc := .freeing unwritten bytesRead }
  | .freeing unwritten bytesRead => do
    let s ← s.free .listener
    pure { s with listener := s.listener.freed unwritten bytesRead, pc := .ended }
  | .ended => pure s

def step (s : ClientProcess) (a : ProcAction) : Except Fault ClientProcess :=
  if s.mainPc = .exited then pure s
  else match a with
  | .arrives rs => pure { s with listener := { s.listener with input := s.listener.input ++ rs } }
  | .timesOut =>
    if s.mainPc = .looping ∧ s.listener.clientShutdown = true then
      pure { s with mainPc := .joining }
    else pure s
  | .types i => if s.mainPc = .looping then s.typed i else pure s
  | .frees =>
    if s.mainPc = .freeing then do
      let s ← s.free .main
      pure { s with mainPc := .joining }
    else pure s
  | .listens => s.listens

end ClientProcess

def Typing.command (i : Typing) : Option Cmd :=
  if i.chunk.head? = some 47 then
    (localToken i.chunk).map (fun cmd => findCommand (makeLowercase cmd))
  else none

section Main
variable {m m' : ClientMain} {i : Typing}

theorem localCommand_flags (h : localCommand m i = .ok m') :
    m'.phase = m.phase ∧ (i.chunk.length = 1 → m' = m) ∧
      (m'.disconnecting = true → m.disconnecting = true ∨ m'.connected = false ∨
        i.command = some .shutdown) := by
  unfold localCommand at h
  by_cases hslash : i.chunk.head? = some 47
  · rw [if_pos hslash] at h
    by_cases hcopy : i.copyOk = false
    · rw [if_pos hcopy] at h
      cases h
    · rw [if_neg hcopy] at h
      cases htoken : localToken i.chunk with
      | none => simp [htoken] at h
      | some cmd =>
        have hlen : i.chunk.length ≠ 1 := by
          intro hlen
          rw [(localToken_none_iff hslash).mpr hlen] at htoken
          cases htoken
        have hcommand : i.command = some (findCommand (makeLowercase cmd)) := by
          unfold Typing.command
          rw [if_pos hslash,htoken]
          rfl
        rw [hcommand]
        simp only [htoken] at h
        unfold clientHandleCommand at h
        suffices hrest : m'.phase = m.phase ∧ (m'.disconnecting = true →
            m.disconnecting = true ∨ m'.connected = false ∨
              some (findCommand (makeLowercase cmd)) = some .shutdown) from
          ⟨hrest.1,fun hone => absurd hone hlen,hrest.2⟩
        cases hfind : findCommand (makeLowercase cmd) with
        | quit =>
          simp only [hfind,handleQuit] at h
          split at h
          · cases h
            exact ⟨rfl,fun _ => .inr (.inl rfl)⟩
          · cases h
            exact ⟨rfl,fun _ => .inr (.inl rfl)⟩
        | shutdown =>
          simp only [hfind] at h
          cases h
          exact ⟨rfl,fun _ => .inr (.inr rfl)⟩
        | list =>
          simp only [hfind,clientHandleUnknown] at h
          cases h
          exact ⟨rfl,fun hd => .inl hd⟩
        | whisper =>
          simp only [hfind,clientHandleUnknown] at h
          cases h
          exact ⟨rfl,fun hd => .inl hd⟩
        | unknown =>
          simp only [hfind,clientHandleUnknown] at h
          cases h
          exact ⟨rfl,fun hd => .inl hd⟩
  · rw [if_neg hslash] at h
    cases h
    exact ⟨rfl,fun _ => rfl,fun hd => .inl hd⟩

theorem sendChunk_phase (hphase : m.phase = .reading) (sends : List SendRes) (msgDone : Bool)
    (n : Nat) : (m.sendChunk sends msgDone n).disconnecting = m.disconnecting ∧
      ((m.sendChunk sends msgDone n).phase = .exited ∨ (m.connected = true ∧
        (m.sendChunk sends msgDone n).phase =
          if m.disconnecting = true then .left else .reading)) := by
  unfold ClientMain.sendChunk ClientMain.writeSfd
  cases hconn : m.connected with
  | false => simp [hconn]
  | true =>
    simp only [if_true]
    split
    · exact ⟨rfl,.inl rfl⟩
    · split
      · exact ⟨rfl,.inl rfl⟩
      · split
        · exact ⟨rfl,.inr ⟨True.intro,rfl⟩⟩
        · exact ⟨rfl,.inr ⟨True.intro,hphase⟩⟩

/-- How a turn ends: the loop goes on, or the process exits, or the loop is left at the end
of the input, or it is left because the chunk was a shutdown command that could be sent. -/
inductive TurnEnds (i : Typing) (m' : ClientMain) : Prop
  | goesOn (hphase : m'.phase = .reading) (hstay : m'.disconnecting = false)
  | exits (hphase : m'.phase = .exited)
  | atEnd (hphase : m'.phase = .left) (hchunk : i.chunk = []) (hstay : m'.disconnecting = false)
  | disconnects (hphase : m'.phase = .left) (hchunk : i.chunk ≠ [])
      (hleave : m'.disconnecting = true) (hcommand : i.command = some .shutdown)

theorem mainTurn_ends (hphase : m.phase = .reading) (hstay : m.disconnecting = false)
    (h : mainTurn m i = .ok m') : TurnEnds i m' := by
  unfold mainTurn at h
  rw [if_neg (by simp [hphase])] at h
  by_cases hchunk : i.chunk = []
  · rw [if_pos hchunk] at h
    cases h
    exact .atEnd rfl hchunk hstay
  · rw [if_neg hchunk] at h
    cases hbuf : m.buf.write 0 i.chunk with
    | none => simp [hbuf] at h
    | some buf =>
      simp only [hbuf] at h
      cases hlocal : localCommand { m with buf := buf } i with
      | error e => simp [hlocal] at h
      | ok m₁ =>
        obtain ⟨hphase₁,hone,hleave⟩ := localCommand_flags hlocal
        have hphase₁' : m₁.phase = .reading := hphase₁.trans hphase
        have hsent : ∀ (buf : Buf bufSize) (filled msgDone : Bool) (n : Nat),
            m' = { m₁ with buf := buf, lastChunkFilled := filled }.sendChunk i.writes msgDone n →
              TurnEnds i m' := by
          intro buf filled msgDone n he
          obtain ⟨hflag,hend⟩ := sendChunk_phase
            (m := { m₁ with buf := buf, lastChunkFilled := filled }) hphase₁' i.writes msgDone n
          rw [← he] at hflag hend
          rcases hend with hexit | ⟨hconn,hend⟩
          · exact .exits hexit
          · have hend' : m'.phase = if m₁.disconnecting = true then .left else .reading := hend
            have hflag' : m'.disconnecting = m₁.disconnecting := hflag
            cases hd : m₁.disconnecting with
            | false =>
              rw [hd] at hend' hflag'
              exact .goesOn hend' hflag'
            | true =>
              rw [hd] at hend' hflag'
              rcases hleave hd with hold | hshut | hcommand
              · exact absurd (hold.symm.trans hstay) (by simp)
              · exact absurd (hshut.symm.trans hconn) (by simp)
              · exact .disconnects hend' hchunk hflag' hcommand
        simp only [hlocal,ok_bind] at h
        by_cases hskip : i.chunk.length = 1 ∧ m₁.lastChunkFilled = false
        · rw [if_pos hskip] at h
          cases h
          rw [hone hskip.1]
          exact .goesOn hphase hstay
        · rw [if_neg hskip] at h
          by_cases hnewline : 10 ∈ m₁.buf.data
          · rw [if_pos hnewline] at h
            cases hcut : m₁.buf.write (i.chunk.length-1) [0] with
            | none => simp [hcut] at h
            | some buf' =>
              simp only [hcut] at h
              cases h
              exact hsent buf' false true _ rfl
          · rw [if_neg hnewline] at h
            cases h
            exact hsent m₁.buf true false _ rfl

end Main

def exitTexts : List Bytes := [couldntRead,shuttingDown,couldntWrite]

def Listener.Gone (l : Listener) : Prop := ∃ text ∈ exitTexts, text ∈ l.printed

namespace Listener
variable {l : Listener}

theorem leave_gone (r : Int) : (l.leave r).Gone ↔ l.Gone := by
  have hother : ∀ text ∈ exitTexts, text ≠ readEof ∧ text ≠ readError ∧ text ≠ endOfListen := by
    decide
  have hmem : ∀ text ∈ exitTexts, text ∈ (l.leave r).printed ↔ text ∈ l.printed := by
    intro text htext
    obtain ⟨heof,herror,hend⟩ := hother text htext
    unfold leave print
    split <;> split <;> simp [heof,herror,hend]
  exact ⟨fun ⟨text,ht,hin⟩ => ⟨text,ht,(hmem text ht).mp hin⟩,
    fun ⟨text,ht,hin⟩ => ⟨text,ht,(hmem text ht).mpr hin⟩⟩

theorem print_gone {text : Bytes} (h : text ∈ exitTexts) : (l.print text).Gone :=
  ⟨text,h,by simp [print]⟩

theorem fetched_same {l' : Listener} {msgLen : Nat} {msgPayload : Bytes} {bytesRead : Int}
    (h : l.fetched msgLen = some (l',msgPayload,bytesRead)) : l'.phase = l.phase ∧
      l'.printed = l.printed ∧ l'.clientShutdown = l.clientShutdown := by
  unfold fetched at h
  simp only at h
  split at h
  · cases h
    exact ⟨rfl,rfl,rfl⟩
  · split at h
    · cases h
    · cases h
      exact ⟨rfl,rfl,rfl⟩

theorem listenPayload_waits {msgLen : Nat} (h : l.fetched msgLen = none) :
    ∃ bs, (listenPayload l msgLen).phase = .inPayload bs := by
  unfold fetched at h
  unfold listenPayload
  cases hblock : l.blocks.headD (some []) with
  | none =>
    simp only [hblock] at h
    cases h
  | some junk =>
    cases hread : readAll l.input msgLen with
    | waits bs => exact ⟨bs,rfl⟩
    | returned bs r rest =>
      simp only [hblock,hread] at h
      cases h

theorem listenPayload_fetched {l' : Listener} {msgLen : Nat} {msgPayload : Bytes} {bytesRead : Int}
    (h : l.fetched msgLen = some (l',msgPayload,bytesRead)) :
    listenPayload l msgLen = l'.gotPayload msgPayload bytesRead := by
  unfold fetched at h
  unfold listenPayload
  cases hblock : l.blocks.headD (some []) with
  | none =>
    simp only [hblock,Option.some.injEq,Prod.mk.injEq] at h
    obtain ⟨rfl,rfl,rfl⟩ := h
    rfl
  | some junk =>
    cases hread : readAll l.input msgLen with
    | waits bs =>
      simp only [hblock,hread] at h
      cases h
    | returned bs r rest =>
      simp only [hblock,hread,Option.some.injEq,Prod.mk.injEq] at h
      obtain ⟨rfl,rfl,rfl⟩ := h
      rfl

theorem gotPayload_handled (l : Listener) (msgPayload : Bytes) (bytesRead : Int) :
    ((l.handled msgPayload bytesRead).2 = none →
      l.gotPayload msgPayload bytesRead = (l.handled msgPayload bytesRead).1) ∧
    ∀ unwritten, (l.handled msgPayload bytesRead).2 = some unwritten →
      l.gotPayload msgPayload bytesRead =
        (l.handled msgPayload bytesRead).1.freed unwritten bytesRead := by
  unfold gotPayload handled freed
  by_cases hr : bytesRead ≤ 0
  · simp [hr]
  · by_cases hnotice : cstr msgPayload = shutdownText
    · simp [hr,hnotice]
    · by_cases hwrite : (writeAll l.writes (msgPayload.take bytesRead.toNat)).ret = -1
      · simp [hr,hnotice,hwrite,print]
      · simp [hr,hnotice,hwrite]

theorem handled_gone (l : Listener) (msgPayload : Bytes) (bytesRead : Int) :
    (l.handled msgPayload bytesRead).1.phase = l.phase ∧
      (((l.handled msgPayload bytesRead).2 = none ∧
        (l.handled msgPayload bytesRead).1.printed = l.printed ∧
        (l.handled msgPayload bytesRead).1.clientShutdown = l.clientShutdown) ∨
      ((l.handled msgPayload bytesRead).2 ≠ none ∧ (l.handled msgPayload bytesRead).1.Gone)) := by
  unfold handled
  split
  · exact ⟨rfl,.inr ⟨by simp,print_gone (by decide)⟩⟩
  · split
    · exact ⟨rfl,.inr ⟨by simp,print_gone (l := l) (by decide)⟩⟩
    · simp only
      split
      · exact ⟨rfl,.inr ⟨by simp,print_gone (by decide)⟩⟩
      · exact ⟨rfl,.inl ⟨rfl,rfl,rfl⟩⟩

theorem freed_gone (unwritten : Bool) (bytesRead : Int) :
    (l.freed unwritten bytesRead).Gone ↔ l.Gone :=
  leave_gone (l := { l with clientShutdown := l.clientShutdown || unwritten }) bytesRead

end Listener

namespace ClientProcess
variable {s s' : ClientProcess}

/-- Who has freed `info`, in terms of where the threads are. -/
structure Inv (s : ClientProcess) : Prop where
  running : s.pc ≠ .ended → s.listener.phase = .running
  gone : s.listener.Gone ↔ (∃ u r, s.pc = .freeing u r) ∨ s.info = some .listener
  ended : s.info = some .listener → s.pc = .ended
  stays : s.mainPc = .looping → s.main.phase = .reading ∧ s.main.disconnecting = false
  leaves : s.mainPc = .freeing → s.main.phase = .left ∧ s.main.disconnecting = true
  joins : s.mainPc = .joining → (s.main.disconnecting = true ↔ s.info = some .main)
  freed : s.info = some .main → s.mainPc = .joining ∧ s.main.phase = .left

theorem init_inv (buf : Buf bufSize) (blocks : List (Option Bytes)) (writes : List SendRes)
    (header : Buf headerSize) : Inv (.init buf (.init blocks writes header)) := by
  refine ⟨fun _ => rfl,?_,(fun h => by cases h),fun _ => ⟨rfl,rfl⟩,(fun h => by cases h),
    (fun h => by cases h),(fun h => by cases h)⟩
  refine iff_of_false ?_ ?_
  · rintro ⟨text,-,hin⟩
    cases hin
  · rintro (⟨u,r,hbad⟩ | hbad) <;> cases hbad

theorem Inv.main (h : Inv s) {m : ClientMain} {pc : MainPc}
    (hstays : pc = .looping → m.phase = .reading ∧ m.disconnecting = false)
    (hleaves : pc = .freeing → m.phase = .left ∧ m.disconnecting = true)
    (hjoins : pc = .joining → (m.disconnecting = true ↔ s.info = some .main))
    (hfreed : s.info ≠ some .main) :
    Inv { s with main := m, mainPc := pc } :=
  ⟨h.running,h.gone,h.ended,hstays,hleaves,hjoins,fun hm => absurd hm hfreed⟩

theorem Inv.listener (h : Inv s) {l : Listener} {pc : ListenPc}
    (hrunning : pc ≠ .ended → l.phase = .running)
    (hgone : l.Gone ↔ (∃ u r, pc = .freeing u r) ∨ s.info = some .listener)
    (hended : s.info = some .listener → pc = .ended) :
    Inv { s with listener := l, pc := pc } :=
  ⟨hrunning,hgone,hended,h.stays,h.leaves,h.joins,h.freed⟩

theorem Inv.open (h : Inv s) (hpc : s.pc ≠ .ended) : s.info ≠ some .listener :=
  fun he => hpc (h.ended he)

theorem Inv.silent (h : Inv s) (hpc : s.pc ≠ .ended) (hloop : ∀ u r, s.pc ≠ .freeing u r) :
    ¬ s.listener.Gone := by
  intro hgone
  rcases h.gone.mp hgone with ⟨u,r,hat⟩ | hinfo
  · exact hloop u r hat
  · exact h.open hpc hinfo

theorem free_ok {t : Thread} (h : s.free t = .ok s') :
    s.info = none ∧ s' = { s with info := some t } := by
  unfold free touch at h
  by_cases hfree : s.info = none
  · rw [if_pos hfree] at h
    cases h
    exact ⟨hfree,rfl⟩
  · rw [if_neg hfree] at h
    cases h

theorem touch_ok {u : Unit} (h : s.touch = .ok u) : s.info = none := by
  unfold touch at h
  by_cases hfree : s.info = none
  · exact hfree
  · rw [if_neg hfree] at h
    cases h

inductive Listens (s : ClientProcess) : ClientProcess → Prop
  | waits : Listens s s
  | reads (hinfo : s.info = none) {pc : ListenPc} (hpc : (s.pc = .atHeader ∧ pc = .inHeader) ∨
      ∃ msgLen, s.pc = .atPayload msgLen ∧ pc = .inPayload msgLen) : Listens s { s with pc := pc }
  | atEnd (hpc : s.pc = .inHeader) (header : Buf headerSize) (rest : List RecvRes) (r : Int) :
      Listens s { s with
        listener := { s.listener with header := header, input := rest }.leave r
        pc := .ended }
  | gotHeader (hpc : s.pc = .inHeader) (header : Buf headerSize) (rest : List RecvRes)
      (msgLen : Nat) : Listens s { s with
        listener := { s.listener with header := header, input := rest }
        pc := .atPayload msgLen }
  | goesOn {msgLen : Nat} (hpc : s.pc = .inPayload msgLen) {l : Listener}
      (hphase : l.phase = s.listener.phase) (hprinted : l.printed = s.listener.printed)
      (hflag : l.clientShutdown = s.listener.clientShutdown) :
      Listens s { s with listener := l, pc := .atHeader }
  | exits {msgLen : Nat} (hpc : s.pc = .inPayload msgLen) {l : Listener}
      (hphase : l.phase = s.listener.phase) (hgone : l.Gone) (u : Bool) (r : Int) :
      Listens s { s with listener := l, pc := .freeing u r }
  | frees {u : Bool} {r : Int} (hpc : s.pc = .freeing u r) (hinfo : s.info = none) :
      Listens s { s with
        listener := s.listener.freed u r
        pc := .ended
        info := some .listener }

theorem listens_cases (h : s.listens = .ok s') : Listens s s' := by
  unfold listens at h
  cases hpc : s.pc with
  | atHeader =>
    simp only [hpc] at h
    cases htouch : s.touch with
    | error e => simp [htouch] at h
    | ok u =>
      simp only [htouch,ok_bind] at h
      cases h
      exact .reads (touch_ok htouch) (.inl ⟨hpc,rfl⟩)
  | inHeader =>
    simp only [hpc] at h
    split at h
    · cases h
      exact .waits
    · split at h
      · cases h
      · split at h
        · cases h
          exact .atEnd hpc _ _ _
        · cases h
          exact .gotHeader hpc _ _ _
  | atPayload msgLen =>
    simp only [hpc] at h
    cases htouch : s.touch with
    | error e => simp [htouch] at h
    | ok u =>
      simp only [htouch,ok_bind] at h
      cases h
      exact .reads (touch_ok htouch) (.inr ⟨msgLen,hpc,rfl⟩)
  | inPayload msgLen =>
    simp only [hpc] at h
    split at h
    · cases h
      exact .waits
    · rename_i l msgPayload bytesRead hfetched
      obtain ⟨hphase,hprinted,hflag⟩ := Listener.fetched_same hfetched
      obtain ⟨hphase',hout⟩ := l.handled_gone msgPayload bytesRead
      split at h
      · rename_i l' hhandled
        rw [hhandled] at hphase' hout
        cases h
        rcases hout with ⟨-,hprinted',hflag'⟩ | ⟨hbad,-⟩
        · exact .goesOn hpc (hphase'.trans hphase) (hprinted'.trans hprinted) (hflag'.trans hflag)
        · exact absurd rfl hbad
      · rename_i l' u hhandled
        rw [hhandled] at hphase' hout
        cases h
        rcases hout with ⟨hbad,-⟩ | ⟨-,hgone⟩
        · cases hbad
        · exact .exits hpc (hphase'.trans hphase) hgone _ _
  | freeing u r =>
    simp only [hpc] at h
    cases hfree : s.free .listener with
    | error e => simp [hfree] at h
    | ok t =>
      obtain ⟨hinfo,rfl⟩ := free_ok hfree
      simp only [hfree,ok_bind] at h
      cases h
      exact .frees hpc hinfo
  | ended =>
    simp only [hpc] at h
    cases h
    exact .waits

theorem listens_inv (h : Inv s) (hstep : s.listens = .ok s') : Inv s' := by
  cases listens_cases hstep with
  | waits => exact h
  | @reads hinfo pc hpc =>
    have hat : s.pc ≠ .ended ∧ ∀ u r, s.pc ≠ .freeing u r := by
      rcases hpc with ⟨hpc,-⟩ | ⟨msgLen,hpc,-⟩ <;> simp [hpc]
    have hin : ∀ u r, pc ≠ .freeing u r := by
      rcases hpc with ⟨-,rfl⟩ | ⟨msgLen,-,rfl⟩ <;> simp
    refine h.listener (l := s.listener) (fun _ => h.running hat.1)
      (iff_of_false (h.silent hat.1 hat.2) ?_) (fun hbad => ?_)
    · rintro (⟨u,r,hbad⟩ | hbad)
      · exact hin u r hbad
      · rw [hinfo] at hbad
        cases hbad
    · rw [hinfo] at hbad
      cases hbad
  | atEnd hpc header rest r =>
    have hnot := h.open (by simp [hpc])
    refine h.listener (fun he => absurd rfl he) ?_ (fun hinfo => absurd hinfo hnot)
    refine iff_of_false (fun hg => h.silent (by simp [hpc]) (by simp [hpc]) ?_) ?_
    · exact (Listener.leave_gone (l := { s.listener with header := header, input := rest }) r).mp hg
    rintro (⟨u,r,hbad⟩ | hbad)
    · cases hbad
    · exact hnot hbad
  | gotHeader hpc header rest msgLen =>
    have hnot := h.open (by simp [hpc])
    refine h.listener (fun _ => h.running (by simp [hpc])) ?_ (fun hinfo => absurd hinfo hnot)
    refine iff_of_false (h.silent (by simp [hpc]) (by simp [hpc])) ?_
    rintro (⟨u,r,hbad⟩ | hbad)
    · cases hbad
    · exact hnot hbad
  | @goesOn msgLen hpc l hphase hprinted hflag =>
    have hnot := h.open (by simp [hpc])
    refine h.listener (fun _ => hphase.trans (h.running (by simp [hpc]))) ?_
      (fun hinfo => absurd hinfo hnot)
    refine iff_of_false ?_ ?_
    · unfold Listener.Gone
      rw [hprinted]
      exact h.silent (by simp [hpc]) (by simp [hpc])
    · rintro (⟨u,r,hbad⟩ | hbad)
      · cases hbad
      · exact hnot hbad
  | @exits msgLen hpc l hphase hgone u r =>
    exact h.listener (fun _ => hphase.trans (h.running (by simp [hpc])))
      (iff_of_true hgone (.inl ⟨u,r,rfl⟩)) (fun hinfo => absurd hinfo (h.open (by simp [hpc])))
  | @frees u r hpc hinfo =>
    refine ⟨fun he => absurd rfl he,iff_of_true ?_ (.inr rfl),fun _ => rfl,h.stays,h.leaves,?_,?_⟩
    · exact (Listener.freed_gone u r).mpr (h.gone.mpr (.inl ⟨u,r,hpc⟩))
    · intro hj
      have hiff := h.joins hj
      rw [hinfo] at hiff
      exact hiff.trans (by simp)
    · intro hm
      cases hm

theorem typed_inv (h : Inv s) (hpc : s.mainPc = .looping) {i : Typing}
    (hstep : s.typed i = .ok s') : Inv s' := by
  obtain ⟨hreading,hstay⟩ := h.stays hpc
  have hnot : s.info ≠ some .main := by
    intro hm
    rw [(h.freed hm).1] at hpc
    cases hpc
  unfold typed at hstep
  split at hstep
  · cases hstep
    exact h.main (m := s.main) (fun he => by cases he) (fun he => by cases he)
      (fun _ => iff_of_false (by simp [hstay]) hnot) hnot
  · cases hturn : mainTurn s.main i with
    | error e => simp [hturn] at hstep
    | ok m =>
      simp only [hturn,ok_bind] at hstep
      cases hstep
      cases mainTurn_ends hreading hstay hturn with
      | goesOn hphase hstay' =>
        simp only [hphase]
        exact h.main (fun _ => ⟨hphase,hstay'⟩) (fun he => by cases he) (fun he => by cases he)
          hnot
      | exits hphase =>
        simp only [hphase]
        exact h.main (fun he => by cases he) (fun he => by cases he) (fun he => by cases he)
          hnot
      | atEnd hphase hchunk hstay' =>
        simp only [hphase,hchunk,if_true]
        exact h.main (fun he => by cases he) (fun he => by cases he)
          (fun _ => iff_of_false (by simp [hstay']) hnot) hnot
      | disconnects hphase hchunk hleave hcommand =>
        simp only [hphase,hchunk,if_false]
        exact h.main (fun he => by cases he) (fun _ => ⟨hphase,hleave⟩) (fun he => by cases he)
          hnot

theorem step_inv {a : ProcAction} (h : Inv s) (hstep : step s a = .ok s') : Inv s' := by
  unfold step at hstep
  split at hstep
  · cases hstep
    exact h
  · cases a with
    | arrives rs =>
      cases hstep
      exact ⟨h.running,h.gone,h.ended,h.stays,h.leaves,h.joins,h.freed⟩
    | timesOut =>
      simp only at hstep
      split at hstep
      · rename_i hleave
        cases hstep
        obtain ⟨-,hstay⟩ := h.stays hleave.1
        have hnot : s.info ≠ some .main := by
          intro hm
          have hjoin := (h.freed hm).1
          rw [hleave.1] at hjoin
          cases hjoin
        exact h.main (m := s.main) (fun he => by cases he) (fun he => by cases he)
          (fun _ => iff_of_false (by simp [hstay]) hnot) hnot
      · cases hstep
        exact h
    | types i =>
      simp only at hstep
      split at hstep
      · rename_i hpc
        exact typed_inv h hpc hstep
      · cases hstep
        exact h
    | frees =>
      simp only at hstep
      split at hstep
      · rename_i hpc
        cases hfree : s.free .main with
        | error e => simp [hfree] at hstep
        | ok t =>
          simp only [hfree,ok_bind] at hstep
          obtain ⟨hlive,rfl⟩ := free_ok hfree
          cases hstep
          refine ⟨h.running,?_,(fun he => by cases he),(fun he => by cases he),
            (fun he => by cases he),fun _ => iff_of_true (h.leaves hpc).2 rfl,
            fun _ => ⟨rfl,(h.leaves hpc).1⟩⟩
          refine h.gone.trans ?_
          rw [hlive]
          exact or_congr_right (iff_of_false (fun he => by cases he) (fun he => by cases he))
      · cases hstep
        exact h
    | listens => exact listens_inv h hstep

theorem run_inv {acts : List ProcAction} (h : Inv s) (hrun : run step s acts = .ok s') :
    Inv s' :=
  run_induction (I := Inv) (fun _ _ _ hi hs => step_inv hi hs) h hrun

def typings (acts : List ProcAction) : List Typing :=
  acts.filterMap (fun a => match a with
    | .types i => some i
    | _ => none)

/-- The main thread has come to where it is by the chunks `pre` alone, and if it has left
its loop to disconnect, then the last of them was a shutdown command that it sent. -/
structure Typed (buf : Buf bufSize) (s : ClientProcess) (pre : List Typing) : Prop where
  main : run mainTurn (.init buf) pre = .ok s.main
  last : s.main.phase = .left → s.main.disconnecting = true → ∃ before i m, pre = before ++ [i] ∧
    run mainTurn (.init buf) before = .ok m ∧ m.phase = .reading ∧ i.command = some .shutdown ∧
    mainTurn m i = .ok s.main

theorem listens_main (hstep : s.listens = .ok s') :
    s'.main = s.main ∧ s'.mainPc = s.mainPc := by
  cases listens_cases hstep <;> exact ⟨rfl,rfl⟩

/-- A step makes a turn of the main loop, or leaves the main thread's data alone. -/
theorem step_main {a : ProcAction} (hstep : step s a = .ok s') :
    (s'.main = s.main ∧ (s'.mainPc = .looping → s.mainPc = .looping ∧ ∀ i, a ≠ .types i)) ∨
      ∃ i, a = .types i ∧ s.mainPc = .looping ∧ mainTurn s.main i = .ok s'.main := by
  unfold step at hstep
  split at hstep
  · rename_i hexit
    cases hstep
    exact .inl ⟨rfl,fun h => by rw [hexit] at h; cases h⟩
  · cases a with
    | arrives rs =>
      cases hstep
      exact .inl ⟨rfl,fun h => ⟨h,by simp⟩⟩
    | timesOut =>
      simp only at hstep
      split at hstep
      · cases hstep
        exact .inl ⟨rfl,fun h => by cases h⟩
      · cases hstep
        exact .inl ⟨rfl,fun h => ⟨h,by simp⟩⟩
    | types i =>
      simp only at hstep
      split at hstep
      · rename_i hpc
        unfold typed at hstep
        split at hstep
        · cases hstep
          exact .inl ⟨rfl,fun h => by cases h⟩
        · cases hturn : mainTurn s.main i with
          | error e => simp [hturn] at hstep
          | ok m =>
            simp only [hturn,ok_bind] at hstep
            cases hstep
            exact .inr ⟨i,rfl,hpc,hturn⟩
      · rename_i hnot
        cases hstep
        exact .inl ⟨rfl,fun h => absurd h hnot⟩
    | frees =>
      simp only at hstep
      split at hstep
      · cases hfree : s.free .main with
        | error e => simp [hfree] at hstep
        | ok t =>
          simp only [hfree,ok_bind] at hstep
          obtain ⟨-,rfl⟩ := free_ok hfree
          cases hstep
          exact .inl ⟨rfl,fun h => by cases h⟩
      · cases hstep
        exact .inl ⟨rfl,fun h => ⟨h,by simp⟩⟩
    | listens =>
      obtain ⟨hmain,hpc⟩ := listens_main hstep
      exact .inl ⟨hmain,fun h => ⟨hpc ▸ h,by simp⟩⟩

theorem typings_concat (acts : List ProcAction) (a : ProcAction) :
    typings acts <+: typings (acts ++ [a]) := by
  unfold typings
  rw [List.filterMap_append]
  exact List.prefix_append _ _

/-- What the listener does makes no difference to the main thread but that it may stop. -/
theorem run_typed {buf : Buf bufSize} {l : Listener} {acts : List ProcAction} {s : ClientProcess}
    (hinv : Inv (init buf l)) (hrun : run step (init buf l) acts = .ok s) :
    ∃ pre, pre <+: typings acts ∧ (s.mainPc = .looping → pre = typings acts) ∧
      Typed buf s pre := by
  induction acts using List.reverseRecOn generalizing s with
  | nil =>
    cases hrun
    exact ⟨[],List.prefix_refl _,fun _ => rfl,rfl,fun h => by cases h⟩
  | append_singleton acts a ih =>
    rw [run_concat] at hrun
    cases hbefore : run step (init buf l) acts with
    | error e =>
      rw [hbefore] at hrun
      cases hrun
    | ok t =>
      rw [hbefore] at hrun
      have hstep : step t a = .ok s := hrun
      obtain ⟨pre,hpre,hall,htyped⟩ := ih hbefore
      rcases step_main hstep with ⟨hmain,hpc⟩ | ⟨i,rfl,hpc,hturn⟩
      · refine ⟨pre,hpre.trans (typings_concat acts a),fun hloop => ?_,?_,?_⟩
        · obtain ⟨hbefore',hnone⟩ := hpc hloop
          rw [hall hbefore']
          cases a with
          | types i => exact absurd rfl (hnone i)
          | _ => simp [typings]
        · rw [hmain]
          exact htyped.main
        · rw [hmain]
          exact htyped.last
      · obtain ⟨hreading,hstay⟩ := (run_inv hinv hbefore).stays hpc
        have hnow : typings (acts ++ [.types i]) = typings acts ++ [i] := by simp [typings]
        have hmain := htyped.main
        rw [hall hpc] at hmain
        refine ⟨typings acts ++ [i],hnow ▸ List.prefix_refl _,fun _ => hnow.symm,?_,?_⟩
        · rw [run_concat,hmain]
          exact hturn
        · intro hleft hleave
          cases mainTurn_ends hreading hstay hturn with
          | goesOn hphase _ =>
            rw [hphase] at hleft
            cases hleft
          | exits hphase =>
            rw [hphase] at hleft
            cases hleft
          | atEnd _ _ hstay' =>
            rw [hstay'] at hleave
            cases hleave
          | disconnects _ _ _ hcommand =>
            exact ⟨typings acts,i,t.main,rfl,hmain,hreading,hcommand,hturn⟩

section Alone
variable (hmain : s.mainPc ≠ .exited)
include hmain

theorem step_listens : step s .listens = s.listens := by
  unfold step
  rw [if_neg hmain]

theorem listens_touches (hinfo : s.info = none) :
    (s.pc = .atHeader → step s .listens = .ok { s with pc := .inHeader }) ∧
      ∀ msgLen, s.pc = .atPayload msgLen →
        step s .listens = .ok { s with pc := .inPayload msgLen } := by
  have htouch : s.touch = .ok () := by
    unfold touch
    rw [if_pos hinfo]
    rfl
  rw [step_listens hmain]
  unfold listens
  constructor
  · intro hpc
    simp only [hpc,htouch,ok_bind]
    rfl
  · intro msgLen hpc
    simp only [hpc,htouch,ok_bind]
    rfl

theorem listens_header (hpc : s.pc = .inHeader) {bs : Bytes} {r : Int} {rest : List RecvRes}
    {header : Buf headerSize} (hread : readAll s.listener.input headerSize = .returned bs r rest)
    (hstore : s.listener.header.write 0 bs = some header) :
    (r ≤ 0 → step s .listens = .ok { s with
      listener := { s.listener with header := header, input := rest }.leave r
      pc := .ended }) ∧
    (¬ r ≤ 0 → step s .listens = .ok { s with
      listener := { s.listener with header := header, input := rest }
      pc := .atPayload (parseHeader header.data).msgLen }) := by
  rw [step_listens hmain]
  unfold listens
  simp only [hpc,hread,hstore]
  exact ⟨fun hr => by rw [if_pos hr]; rfl,fun hr => by rw [if_neg hr]; rfl⟩

theorem listens_payload (hinfo : s.info = none) (hrunning : s.listener.phase = .running)
    {msgLen : Nat} (hpc : s.pc = .inPayload msgLen) :
    ((listenPayload s.listener msgLen).phase = .running → step s .listens =
      .ok { s with listener := listenPayload s.listener msgLen, pc := .atHeader }) ∧
    ((listenPayload s.listener msgLen).phase = .left → run step s [.listens,.listens] =
      .ok { s with
        listener := listenPayload s.listener msgLen
        pc := .ended
        info := some .listener }) := by
  cases hfetched : s.listener.fetched msgLen with
  | none =>
    obtain ⟨bs,hwaits⟩ := Listener.listenPayload_waits hfetched
    rw [hwaits]
    exact ⟨(fun h => by cases h),(fun h => by cases h)⟩
  | some res =>
    obtain ⟨l,msgPayload,bytesRead⟩ := res
    obtain ⟨hphase,-,-⟩ := Listener.fetched_same hfetched
    have hstays := (l.handled_gone msgPayload bytesRead).1
    obtain ⟨hgoes,hexits⟩ := l.gotPayload_handled msgPayload bytesRead
    rw [Listener.listenPayload_fetched hfetched]
    rcases hhandled : l.handled msgPayload bytesRead with ⟨l',out⟩
    rw [hhandled] at hstays hgoes hexits
    have hfirst : step s .listens = s.listens := step_listens hmain
    cases out with
    | none =>
      rw [hgoes rfl]
      constructor
      · intro _
        rw [hfirst]
        unfold listens
        simp only [hpc,hfetched,hhandled]
        rfl
      · intro hleft
        rw [hstays.trans (hphase.trans hrunning)] at hleft
        cases hleft
    | some u =>
      rw [hexits u rfl]
      refine ⟨(fun h => by cases h),fun _ => ?_⟩
      have hmid : step s .listens =
          .ok { s with listener := l', pc := .freeing u bytesRead } := by
        rw [hfirst]
        unfold listens
        simp only [hpc,hfetched,hhandled]
        rfl
      have hlast : step { s with listener := l', pc := .freeing u bytesRead } .listens =
          .ok { s with
            listener := l'.freed u bytesRead
            pc := .ended
            info := some .listener } := by
        unfold step listens free touch
        simp only [if_neg hmain,hinfo,if_true]
        rfl
      simp only [run_cons,hmid,Except.bind,hlast,run_nil]

theorem listens_turn {l : Listener} (hpc : s.pc = .atHeader) (hinfo : s.info = none)
    (hrunning : s.listener.phase = .running) (hturn : listenTurn s.listener = .ok l) :
    (l.phase = .running → ∃ n, run step s (List.replicate n .listens) =
      .ok { s with listener := l }) ∧
    (l.phase = .left → ∃ n t, run step s (List.replicate n .listens) = .ok t ∧
      t.listener = l ∧ t.pc = .ended ∧ t.main = s.main) := by
  have hfirst := (listens_touches hmain hinfo).1 hpc
  unfold listenTurn at hturn
  cases hread : readAll s.listener.input headerSize with
  | waits bs =>
    simp only [hread] at hturn
    cases hturn
    exact ⟨(fun h => by cases h),(fun h => by cases h)⟩
  | returned bs r rest =>
    simp only [hread] at hturn
    cases hstore : s.listener.header.write 0 bs with
    | none => simp [hstore] at hturn
    | some header =>
      simp only [hstore] at hturn
      obtain ⟨hends,hgoes⟩ := listens_header (s := { s with pc := .inHeader }) hmain rfl hread hstore
      by_cases hr : r ≤ 0
      · rw [if_pos hr] at hturn
        cases hturn
        refine ⟨(fun h => by cases h),fun _ => ⟨2,{ s with
          listener := { s.listener with header := header, input := rest }.leave r
          pc := .ended },?_,rfl,rfl,rfl⟩⟩
        simp only [List.replicate_succ,List.replicate_zero,run_cons,hfirst,Except.bind,hends hr,
          run_nil]
      · rw [if_neg hr] at hturn
        have hl := Except.ok.inj hturn
        have hthird := (listens_touches (s := { s with
          listener := { s.listener with header := header, input := rest }
          pc := .atPayload (parseHeader header.data).msgLen }) hmain hinfo).2 _ rfl
        obtain ⟨hruns,hleaves⟩ := listens_payload (s := { s with
          listener := { s.listener with header := header, input := rest }
          pc := .inPayload (parseHeader header.data).msgLen }) hmain hinfo hrunning rfl
        rw [hl] at hruns hleaves
        constructor
        · intro hphase
          have hback : { s with listener := l, pc := .atHeader } = { s with listener := l } := by
            rw [hpc]
          refine ⟨4,?_⟩
          simp only [List.replicate_succ,List.replicate_zero,run_cons,hfirst,Except.bind,hgoes hr,
            hthird,hruns hphase,run_nil,hback]
        · intro hphase
          refine ⟨5,{ s with listener := l, pc := .ended, info := some .listener },?_,rfl,rfl,rfl⟩
          have hlast := hleaves hphase
          simp only [List.replicate_succ,List.replicate_zero,run_cons,hfirst,Except.bind,hgoes hr,
            hthird] at hlast ⊢
          exact hlast

end Alone

/-- With a main thread that does nothing, the listener does what `client_listen` does. -/
theorem listens_loop (fuel : Nat) {l : Listener} (hpc : s.pc = .atHeader) (hinfo : s.info = none)
    (hmain : s.mainPc ≠ .exited) (hrunning : s.listener.phase = .running)
    (hloop : clientListenLoop fuel s.listener = .ok l)
    (hleft : l.phase = .left) : ∃ n t, run step s (List.replicate n .listens) = .ok t ∧
      t.listener = l ∧ t.pc = .ended ∧ t.main = s.main := by
  induction fuel generalizing s with
  | zero => cases hloop
  | succ fuel ih =>
    unfold clientListenLoop at hloop
    cases hturn : listenTurn s.listener with
    | error e => simp [hturn] at hloop
    | ok l₁ =>
      simp only [hturn,ok_bind] at hloop
      obtain ⟨hgoes,hends⟩ := listens_turn hmain hpc hinfo hrunning hturn
      by_cases hphase : l₁.phase = .running
      · rw [if_pos hphase] at hloop
        obtain ⟨n,hfirst⟩ := hgoes hphase
        obtain ⟨k,t,hrest,hl,hend,hm⟩ := ih (s := { s with listener := l₁ }) hpc hinfo hmain hphase
          hloop
        refine ⟨n+k,t,?_,hl,hend,hm⟩
        rw [List.replicate_add,run_append,hfirst]
        exact hrest
      · rw [if_neg hphase] at hloop
        cases hloop
        exact hends hleft

def Disconnects (buf : Buf bufSize) (chunks : List Typing) : Prop :=
  ∃ before i after m m', chunks = before ++ i :: after ∧
    run mainTurn (.init buf) before = .ok m ∧ m.phase = .reading ∧ i.command = some .shutdown ∧
    mainTurn m i = .ok m' ∧ m'.phase = .left

theorem mainTurn_faults {m : ClientMain} {i : Typing} : mainTurn m i ≠ .error .useAfterFree := by
  have hlocal : ∀ m : ClientMain, localCommand m i ≠ .error .useAfterFree := by
    intro m
    by_cases hcrash : i.Crashes
    · rw [localCommand_crashes hcrash]
      simp
    · obtain ⟨d,conn,hall⟩ := localCommand_buf (m := m) hcrash
      have hself := hall m.buf
      have heta : { m with buf := m.buf } = m := rfl
      rw [heta] at hself
      rw [hself]
      simp
  intro h
  unfold mainTurn at h
  split at h
  · cases h
  · split at h
    · cases h
    · split at h
      · cases h
      · rename_i buf _
        cases hcall : localCommand { m with buf := buf } i with
        | error e =>
          rw [hcall] at h
          cases h
          exact hlocal _ hcall
        | ok m₁ =>
          rw [hcall,ok_bind] at h
          simp only at h
          split at h
          · cases h
          · split at h
            · split at h <;> cases h
            · cases h

/-- A thread that uses `info` after it has been freed comes after the main thread's free. -/
theorem step_misused {a : ProcAction} (h : Inv s) (hstep : step s a = .error .useAfterFree) :
    s.main.phase = .left ∧ s.main.disconnecting = true := by
  have hfreed : s.info ≠ none → s.info ≠ some .listener →
      s.main.phase = .left ∧ s.main.disconnecting = true := by
    intro hnone hlistener
    have hmain : s.info = some .main := by
      cases hinfo : s.info with
      | none => exact absurd hinfo hnone
      | some t =>
        cases t with
        | main => rfl
        | listener => exact absurd hinfo hlistener
    exact ⟨(h.freed hmain).2,(h.joins (h.freed hmain).1).mpr hmain⟩
  have htouch : s.touch = .error .useAfterFree → s.info ≠ none := by
    intro ht hnone
    unfold touch at ht
    rw [if_pos hnone] at ht
    cases ht
  have hfree : ∀ t, s.free t = .error .useAfterFree → s.info ≠ none := by
    intro t ht
    unfold free at ht
    cases hcall : s.touch with
    | error e =>
      rw [hcall] at ht
      cases ht
      exact htouch hcall
    | ok u =>
      rw [hcall,ok_bind] at ht
      cases ht
  unfold step at hstep
  split at hstep
  · cases hstep
  · cases a with
    | arrives rs => cases hstep
    | timesOut =>
      simp only at hstep
      split at hstep <;> cases hstep
    | types i =>
      simp only at hstep
      split at hstep
      · unfold typed at hstep
        split at hstep
        · cases hstep
        · cases hturn : mainTurn s.main i with
          | error e =>
            rw [hturn] at hstep
            cases hstep
            exact absurd hturn mainTurn_faults
          | ok m =>
            rw [hturn,ok_bind] at hstep
            cases hstep
      · cases hstep
    | frees =>
      simp only at hstep
      split at hstep
      · rename_i hpc
        exact h.leaves hpc
      · cases hstep
    | listens =>
      simp only at hstep
      unfold listens at hstep
      cases hpc : s.pc with
      | atHeader =>
        simp only [hpc] at hstep
        cases hcall : s.touch with
        | error e =>
          rw [hcall] at hstep
          cases hstep
          exact hfreed (htouch hcall) (h.open (by simp [hpc]))
        | ok u =>
          rw [hcall,ok_bind] at hstep
          cases hstep
      | inHeader =>
        simp only [hpc] at hstep
        split at hstep
        · cases hstep
        · split at hstep
          · cases hstep
          · split at hstep <;> cases hstep
      | atPayload msgLen =>
        simp only [hpc] at hstep
        cases hcall : s.touch with
        | error e =>
          rw [hcall] at hstep
          cases hstep
          exact hfreed (htouch hcall) (h.open (by simp [hpc]))
        | ok u =>
          rw [hcall,ok_bind] at hstep
          cases hstep
      | inPayload msgLen =>
        simp only [hpc] at hstep
        split at hstep
        · cases hstep
        · split at hstep <;> cases hstep
      | freeing u r =>
        simp only [hpc] at hstep
        cases hcall : s.free .listener with
        | error e =>
          rw [hcall] at hstep
          cases hstep
          exact hfreed (hfree .listener hcall) (h.open (by simp [hpc]))
        | ok t =>
          rw [hcall,ok_bind] at hstep
          cases hstep
      | ended =>
        simp only [hpc] at hstep
        cases hstep

theorem mainTurn_reading {m m' : ClientMain} {i : Typing} (h : mainTurn m i = .ok m')
    (hphase : m'.phase = .reading) : m.phase = .reading := by
  by_contra hnot
  unfold mainTurn at h
  rw [if_pos hnot] at h
  cases h
  exact hnot hphase

theorem run_types {chunks : List Typing} {s : ClientProcess} {m : ClientMain}
    (hpc : s.mainPc = .looping) (hshut : s.listener.clientShutdown = false)
    (hrun : run mainTurn s.main chunks = .ok m) (hphase : m.phase = .reading) :
    run step s (chunks.map .types) = .ok { s with main := m } := by
  induction chunks generalizing s with
  | nil =>
    cases hrun
    rfl
  | cons i chunks ih =>
    rw [run_cons] at hrun
    cases hturn : mainTurn s.main i with
    | error e =>
      rw [hturn] at hrun
      cases hrun
    | ok m₁ =>
      rw [hturn] at hrun
      have hrest : run mainTurn m₁ chunks = .ok m := hrun
      have hphase₁ : m₁.phase = .reading := by
        by_contra hnot
        have hstays : m.phase ≠ .reading :=
          run_induction (I := fun m => m.phase ≠ .reading)
            (fun _ _ _ hn hs hr => hn (mainTurn_reading hs hr)) hnot hrest
        exact hstays hphase
      have hstep : step s (.types i) = .ok { s with main := m₁ } := by
        unfold step typed
        simp only [hpc,hshut,hturn,hphase₁,ok_bind]
        rfl
      rw [List.map_cons,run_cons,hstep]
      exact ih hpc hshut hrest

/-- Some order of the two threads and of what arrives makes one of them use `info` after the
other has freed it, exactly when the user sends a shutdown command. -/
theorem info_misused_iff (buf : Buf bufSize) (blocks : List (Option Bytes))
    (writes : List SendRes) (header : Buf headerSize) (chunks : List Typing) :
    (∃ acts, typings acts = chunks ∧
      run step (init buf (.init blocks writes header)) acts = .error .useAfterFree) ↔
      Disconnects buf chunks := by
  have hinv := init_inv buf blocks writes header
  constructor
  · rintro ⟨acts,rfl,hfails⟩
    obtain ⟨before,a,after,t,hsplit,hbefore,hstep⟩ := run_error hfails
    obtain ⟨hleft,hleave⟩ := step_misused (run_inv hinv hbefore) hstep
    obtain ⟨pre,hpre,-,htyped⟩ := run_typed hinv hbefore
    obtain ⟨chunks,i,m,rfl,hrun,hreading,hcommand,hturn⟩ := htyped.last hleft hleave
    have hall : typings before <+: typings acts := by
      rw [hsplit]
      unfold typings
      rw [List.filterMap_append]
      exact List.prefix_append _ _
    obtain ⟨more,hmore⟩ := hpre.trans hall
    exact ⟨chunks,i,more,m,t.main,by rw [← hmore]; simp,hrun,hreading,hcommand,hturn,hleft⟩
  · rintro ⟨before,i,after,m,m',rfl,hrun,hreading,hcommand,hturn,hleft⟩
    have hchunk : i.chunk ≠ [] := by
      intro he
      unfold Typing.command at hcommand
      simp [he] at hcommand
    refine ⟨before.map .types ++ (.types i :: .frees :: .listens :: after.map .types),?_,?_⟩
    · simp [typings,List.filterMap_map]
    · have hfirst := run_types (s := init buf (.init blocks writes header)) rfl rfl hrun hreading
      have htypes : step { init buf (.init blocks writes header) with main := m } (.types i) =
          .ok { init buf (.init blocks writes header) with main := m', mainPc := .freeing } := by
        unfold step typed init Listener.init
        simp only [hturn,hleft,hchunk,ok_bind]
        rfl
      rw [run_append,hfirst]
      simp only [Except.bind,run_cons,htypes]
      rfl

/-- When nothing that was freed has been used and both threads are through, `info` is leaked
exactly when the listener came to the end of its loop at a header and the main thread did not
disconnect. Else the listener has freed it, if it left behind `read_payload`, or the main
thread, if it disconnected. -/
theorem info_leaked_iff {buf : Buf bufSize} {blocks : List (Option Bytes)} {writes : List SendRes}
    {header : Buf headerSize} {acts : List ProcAction} {s : ClientProcess}
    (hrun : run step (init buf (.init blocks writes header)) acts = .ok s)
    (hmain : s.mainPc = .joining) (hend : s.pc = .ended) :
    (s.info = none ↔ ¬ s.listener.Gone ∧ s.main.disconnecting = false) ∧
      (s.info = some .listener ↔ s.listener.Gone) ∧
      (s.info = some .main ↔ s.main.disconnecting = true) := by
  have h := run_inv (init_inv buf blocks writes header) hrun
  have hjoins := h.joins hmain
  have hgone : s.listener.Gone ↔ s.info = some .listener := by
    refine h.gone.trans (or_iff_right ?_)
    rintro ⟨u,r,hat⟩
    rw [hend] at hat
    cases hat
  refine ⟨?_,hgone.symm,hjoins.symm⟩
  rw [hgone,← Bool.not_eq_true,hjoins]
  cases hinfo : s.info with
  | none => simp
  | some t => cases t <;> simp

/-- Where the listener can be, as long as it makes no use of `info`, if it was at `pc`. -/
def Stranded (pc : ListenPc) (s : ClientProcess) : Prop :=
  s.pc = pc ∨ s.pc = .atHeader ∨ (∃ msgLen, s.pc = .atPayload msgLen) ∨
    (∃ u r, s.pc = .freeing u r) ∨ (pc = .inHeader ∧ s.pc = .ended)

/-- The listener was reading a payload, or the flag is as it was. -/
def Unheard (pc : ListenPc) (flag : Bool) (s : ClientProcess) : Prop :=
  (∃ msgLen, pc = .inPayload msgLen) ∨ s.listener.clientShutdown = flag

theorem Stranded.listens {pc : ListenPc} {flag : Bool} (h : Stranded pc s)
    (hflag : Unheard pc flag s) (hinfo : s.info = some .main) (hstep : s.listens = .ok s') :
    Stranded pc s' ∧ Unheard pc flag s' ∧ s'.info = some .main := by
  have hlive : s.info ≠ none := by
    rw [hinfo]
    exact fun hbad => by cases hbad
  -- A read in which the listener is now is the one in which it was then.
  have hsame : ∀ at' : ListenPc, s.pc = at' → at' ≠ .atHeader → (∀ n, at' ≠ .atPayload n) →
      (∀ u r, at' ≠ .freeing u r) → at' ≠ .ended → pc = at' := by
    rintro at' rfl hone htwo hthree hfour
    rcases h with hat | hat | ⟨n,hat⟩ | ⟨u,r,hat⟩ | ⟨-,hat⟩
    · exact hat.symm
    · exact absurd hat hone
    · exact absurd hat (htwo n)
    · exact absurd hat (hthree u r)
    · exact absurd hat hfour
  cases listens_cases hstep with
  | waits => exact ⟨h,hflag,hinfo⟩
  | reads hnone => exact absurd hnone hlive
  | atEnd hpc header rest r =>
    have hwas := hsame _ hpc (by simp) (by simp) (by simp) (by simp)
    refine ⟨.inr (.inr (.inr (.inr ⟨hwas,rfl⟩))),hflag.imp_right (fun he => ?_),hinfo⟩
    exact (Listener.leave_clientShutdown r).trans he
  | gotHeader hpc header rest msgLen => exact ⟨.inr (.inr (.inl ⟨msgLen,rfl⟩)),hflag,hinfo⟩
  | goesOn hpc hphase hprinted hkept =>
    exact ⟨.inr (.inl rfl),hflag.imp_right (hkept.trans ·),hinfo⟩
  | @exits msgLen hpc l hphase hgone u r =>
    have hwas := hsame _ hpc (by simp) (by simp) (by simp) (by simp)
    exact ⟨.inr (.inr (.inr (.inl ⟨u,r,rfl⟩))),.inl ⟨msgLen,hwas⟩,hinfo⟩
  | frees hpc hnone => exact absurd hnone hlive

theorem Stranded.step {pc : ListenPc} {flag : Bool} {a : ProcAction} (h : Stranded pc s)
    (hflag : Unheard pc flag s) (hinv : Inv s) (hinfo : s.info = some .main)
    (hstep : ClientProcess.step s a = .ok s') :
    Stranded pc s' ∧ Unheard pc flag s' ∧ s'.info = some .main := by
  have hpc : s.mainPc = .joining := (hinv.freed hinfo).1
  unfold ClientProcess.step at hstep
  rw [if_neg (by simp [hpc])] at hstep
  cases a with
  | arrives rs =>
    cases hstep
    exact ⟨h,hflag,hinfo⟩
  | timesOut =>
    simp only [hpc] at hstep
    cases hstep
    exact ⟨h,hflag,hinfo⟩
  | types i =>
    simp only [hpc] at hstep
    cases hstep
    exact ⟨h,hflag,hinfo⟩
  | frees =>
    simp only [hpc] at hstep
    cases hstep
    exact ⟨h,hflag,hinfo⟩
  | listens => exact h.listens hflag hinfo hstep

/-- Once the main thread has freed `info`, the listener never comes through its loop on the
server's notice: as long as nothing that was freed is used, it is in the read that it was in,
or its next step is a use of `info`, or it has found the end of the input in place of a
header. It sets the flag only if it was reading a payload when `info` was freed. -/
theorem freed_stranded {buf : Buf bufSize} {blocks : List (Option Bytes)} {writes : List SendRes}
    {header : Buf headerSize} {acts acts' : List ProcAction} {s s' : ClientProcess}
    (hrun : run step (init buf (.init blocks writes header)) acts = .ok s)
    (hfreed : s.info = some .main) (hrun' : run step s acts' = .ok s') :
    (s'.pc = s.pc ∨ (s.pc = .inHeader ∧ s'.pc = .ended) ∨
      step s' .listens = .error .useAfterFree) ∧
    ((∃ msgLen, s.pc = .inPayload msgLen) ∨
      s'.listener.clientShutdown = s.listener.clientShutdown) := by
  have hinv := run_inv (init_inv buf blocks writes header) hrun
  have hall : Inv s' ∧ Stranded s.pc s' ∧ Unheard s.pc s.listener.clientShutdown s' ∧
      s'.info = some .main := by
    refine run_induction (I := fun t => Inv t ∧ Stranded s.pc t ∧
      Unheard s.pc s.listener.clientShutdown t ∧ t.info = some .main) ?_
      ⟨hinv,.inl rfl,.inr rfl,hfreed⟩ hrun'
    rintro t a t' ⟨hi,hs,hflag,hf⟩ hstep
    exact ⟨step_inv hi hstep,hs.step hflag hi hf hstep⟩
  obtain ⟨hinv',hwhere,hflag,hfreed'⟩ := hall
  refine ⟨?_,hflag⟩
  have hpc : s'.mainPc = .joining := (hinv'.freed hfreed').1
  have htouch : s'.touch = .error .useAfterFree := by
    unfold touch
    rw [if_neg (by simp [hfreed'])]
  have hfree : s'.free .listener = .error .useAfterFree := by
    unfold free
    rw [htouch]
    rfl
  rcases hwhere with hwait | hat | ⟨msgLen,hat⟩ | ⟨u,r,hat⟩ | hend
  · exact .inl hwait
  · refine .inr (.inr ?_)
    unfold ClientProcess.step ClientProcess.listens
    simp only [hpc,hat,htouch]
    rfl
  · refine .inr (.inr ?_)
    unfold ClientProcess.step ClientProcess.listens
    simp only [hpc,hat,htouch]
    rfl
  · refine .inr (.inr ?_)
    unfold ClientProcess.step ClientProcess.listens
    simp only [hpc,hat,hfree]
    rfl
  · exact .inr (.inl hend)

def shutsDown : List ProcAction :=
  [.listens,.types ⟨ascii "/shutdown\n",true,true,[.accepts 9,.accepts 9]⟩,.frees]

def blank : ClientProcess := init (.zero _) (.init [] [] (.zero _))

theorem freed_stranded_shutsDown : ∃ s s', run step blank shutsDown = .ok s ∧
    s.pc = .inHeader ∧
    run step s [.arrives [.data (frame msgTypeNormal shutdownText)],.listens] = .ok s' ∧
      s'.listener.clientShutdown = false ∧ step s' .listens = .error .useAfterFree := by
  have htest : (run step blank shutsDown).toOption.any (fun s => decide (s.pc = .inHeader ∧
      s.info = some .main ∧ s.listener.clientShutdown = false ∧
      (run step s [.arrives [.data (frame msgTypeNormal shutdownText)],.listens]).toOption.any
        (fun s' => decide (s'.pc ≠ s.pc ∧ s'.pc ≠ .ended)) = true)) = true := by decide +kernel
  obtain ⟨s,hrun,htest⟩ := toOption_any htest
  obtain ⟨hpc,hfreed,hflag,hlater⟩ := of_decide_eq_true htest
  obtain ⟨s',hrun',hmoved⟩ := toOption_any hlater
  obtain ⟨hother,hgoes⟩ := of_decide_eq_true hmoved
  obtain ⟨hwhere,hheard⟩ := freed_stranded hrun hfreed hrun'
  have hsame := hheard.resolve_left (by rintro ⟨n,hat⟩; rw [hpc] at hat; cases hat)
  refine ⟨s,s',hrun,hpc,hrun',hsame.trans hflag,?_⟩
  rcases hwhere with hstill | ⟨-,hend⟩ | hmisuse
  · exact absurd hstill hother
  · exact absurd hend hgoes
  · exact hmisuse

/-- The listener is in the middle of the notice when `info` is freed. -/
example : (run step blank ([.arrives [.data ((frame msgTypeNormal shutdownText).take 8)],.listens,
    .listens] ++ shutsDown ++ [.arrives [.data (shutdownText.drop 2)],.listens])).toOption.any
    (fun s => decide (s.listener.clientShutdown = true ∧ s.info = some .main ∧
      s.pc = .freeing false 15)) = true := by decide +kernel

/-- The server goes away, and then the user ends the input. -/
theorem info_leaked_iff_leaves : ∃ s, run step blank [.arrives [.ended],.listens,.listens,
    .types ⟨[],true,true,[]⟩] = .ok s ∧ s.pc = .ended ∧ s.info = none := by
  have htest : (run step blank [.arrives [.ended],.listens,.listens,
      .types ⟨[],true,true,[]⟩]).toOption.any (fun s => decide (s.mainPc = .joining ∧
        s.pc = .ended ∧ s.main.disconnecting = false ∧
        (exitTexts.all (fun text => decide (text ∉ s.listener.printed))) = true)) = true := by
    decide +kernel
  obtain ⟨s,hrun,htest⟩ := toOption_any htest
  obtain ⟨hmain,hend,hstay,hnone⟩ := of_decide_eq_true htest
  refine ⟨s,hrun,hend,(info_leaked_iff hrun hmain hend).1.mpr ⟨?_,hstay⟩⟩
  rintro ⟨text,htext,hin⟩
  exact of_decide_eq_true (List.all_eq_true.mp hnone text htext) hin

end ClientProcess
end ChatServer
