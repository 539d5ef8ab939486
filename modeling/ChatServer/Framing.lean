import ChatServer.TypedLines

/-! What the client's loop makes of a chunk, and what else its buffer has to do with it. -/
set_option autoImplicit false

namespace ChatServer
open ByteString Memory Execution

/-- All but the buffer. What became of a chunk shows in `lastChunkFilled` and in the bytes
written. -/
def ClientMain.visible (m : ClientMain) : Bool × Bool × Bool × MainPhase × Bytes :=
  (m.lastChunkFilled,m.disconnecting,m.connected,m.phase,m.written)

/-- A chunk without a newline goes out as it is, and its message goes on. -/
def KeptWhole (m : ClientMain) (i : Typing) : Prop :=
  10 ∉ i.chunk → ∃ m', mainTurn m i = .ok m' ∧ m'.lastChunkFilled = true ∧
    (m'.connected = true → i.Connected → m'.written = m.written ++
      ((createHeader i.chunk.length msgTypeNormal false).bytes ++ i.chunk))

/-- The turn comes to its end, and alike whether the buffer held `b₁` or `b₂` before. -/
structure ChunkOnly (m : ClientMain) (b₁ b₂ : Buf bufSize) (i : Typing) : Prop where
  same : ∃ m₁ m₂, mainTurn { m with buf := b₁ } i = .ok m₁ ∧
    mainTurn { m with buf := b₂ } i = .ok m₂ ∧ m₁.visible = m₂.visible
  first : KeptWhole { m with buf := b₁ } i
  second : KeptWhole { m with buf := b₂ } i

/-- The copy of the chunk is not there, or it holds no token. -/
def Typing.Crashes (i : Typing) : Prop :=
  i.chunk.head? = some 47 ∧ (i.copyOk = false ∨ i.chunk.length = 1)

def Skipped (m : ClientMain) (i : Typing) : Prop :=
  i.chunk.length = 1 ∧ m.lastChunkFilled = false

instance (m : ClientMain) (i : Typing) : Decidable (Skipped m i) :=
  inferInstanceAs (Decidable (_ ∧ _))

section Local
variable {m : ClientMain} {i : Typing}

theorem localToken_none_iff (hslash : i.chunk.head? = some 47) :
    localToken i.chunk = none ↔ i.chunk.length = 1 := by
  obtain ⟨tail,htail⟩ := List.head?_eq_some_iff.mp hslash
  cases tail with
  | nil => simp [htail,localToken,cstr,strtokR]
  | cons b tail => simp [htail,localToken,cstr,strtokR]

theorem localCommand_buf (hcrash : ¬ i.Crashes) : ∃ d conn, ∀ buf,
    localCommand { m with buf := buf } i =
      .ok { m with buf := buf, disconnecting := d, connected := conn } := by
  by_cases hslash : i.chunk.head? = some 47
  · have hcopy : i.copyOk = true := by
      cases hcopy : i.copyOk with
      | true => rfl
      | false => exact absurd ⟨hslash,.inl hcopy⟩ hcrash
    have hlen : i.chunk.length ≠ 1 := fun hlen => hcrash ⟨hslash,.inr hlen⟩
    obtain ⟨cmd,htoken⟩ := Option.ne_none_iff_exists'.mp
      (mt (localToken_none_iff hslash).mp hlen)
    have hlocal : ∀ buf, localCommand { m with buf := buf } i =
        (let res := clientHandleCommand { m with buf := buf } i.closeOk (makeLowercase cmd)
        if res.2 = .error ∨ res.2 = .disconnect then pure { res.1 with disconnecting := true }
        else pure res.1) := by
      intro buf
      unfold localCommand
      simp [hslash,hcopy,htoken]
    simp only [hlocal]
    unfold clientHandleCommand
    cases hfind : findCommand (makeLowercase cmd) with
    | quit =>
      cases hclose : i.closeOk with
      | true => exact ⟨true,false,fun buf => by simp [handleQuit,pure_eq_ok]⟩
      | false =>
        exact ⟨m.disconnecting,false,fun buf => by simp [handleQuit,pure_eq_ok]⟩
    | shutdown => exact ⟨true,m.connected,fun buf => by simp [pure_eq_ok]⟩
    | list =>
      exact ⟨m.disconnecting,m.connected,fun buf => by simp [clientHandleUnknown,pure_eq_ok]⟩
    | whisper =>
      exact ⟨m.disconnecting,m.connected,fun buf => by simp [clientHandleUnknown,pure_eq_ok]⟩
    | unknown =>
      exact ⟨m.disconnecting,m.connected,fun buf => by simp [clientHandleUnknown,pure_eq_ok]⟩
  · refine ⟨m.disconnecting,m.connected,fun buf => ?_⟩
    unfold localCommand
    rw [if_neg hslash]
    rfl

theorem localCommand_crashes (hcrash : i.Crashes) : localCommand m i = .error .nullPointer := by
  obtain ⟨hslash,hcause⟩ := hcrash
  unfold localCommand
  rw [if_pos hslash]
  rcases hcause with hcopy | hlen
  · rw [if_pos hcopy]
  · by_cases hcopy : i.copyOk = false
    · rw [if_pos hcopy]
    · rw [if_neg hcopy,(localToken_none_iff hslash).mpr hlen]

end Local

section Chunk
variable {m : ClientMain} {sends : List SendRes} {msgDone : Bool} {n : Nat}

theorem sendChunk_visible {buf : Buf bufSize} (htake : buf.data.take n = m.buf.data.take n) :
    ({ m with buf := buf }.sendChunk sends msgDone n).visible =
      (m.sendChunk sends msgDone n).visible := by
  unfold ClientMain.sendChunk ClientMain.writeSfd ClientMain.visible
  cases hconn : m.connected with
  | false => simp [hconn]
  | true =>
    simp only [htake,if_true]
    split
    · rfl
    · split
      · rfl
      · split <;> rfl

theorem sendChunk_keeps : (m.sendChunk sends msgDone n).lastChunkFilled = m.lastChunkFilled ∧
    (m.sendChunk sends msgDone n).connected = m.connected := by
  unfold ClientMain.sendChunk ClientMain.writeSfd
  cases hconn : m.connected with
  | false => simp [hconn]
  | true =>
    simp only [if_true]
    split
    · exact ⟨rfl,rfl⟩
    · split
      · exact ⟨rfl,rfl⟩
      · split <;> exact ⟨rfl,rfl⟩

theorem sendChunk_written {rest rest' : List SendRes} {payload : Bytes}
    (hconn : m.connected = true) (hpayload : m.buf.data.take payload.length = payload)
    (hheader : takes sends headerSize = some rest)
    (htakes : takes rest payload.length = some rest') :
    (m.sendChunk sends msgDone payload.length).written = m.written ++
      ((createHeader payload.length msgTypeNormal msgDone).bytes ++ payload) := by
  rw [sendChunk_takes hconn hpayload hheader htakes]

end Chunk

def framed (m : ClientMain) (i : Typing) (newline : Bool) : ClientMain :=
  if Skipped m i then m
  else if newline then
    { m with lastChunkFilled := false }.sendChunk i.writes true (i.chunk.length-1)
  else { m with lastChunkFilled := true }.sendChunk i.writes false i.chunk.length

section Turn
variable {m : ClientMain} {i : Typing}

theorem framed_skipped {newline : Bool} (h : Skipped m i) : framed m i newline = m := if_pos h

theorem framed_found (h : ¬ Skipped m i) : framed m i true =
    { m with lastChunkFilled := false }.sendChunk i.writes true (i.chunk.length-1) := by
  unfold framed
  rw [if_neg h,if_pos rfl]

theorem framed_none (h : ¬ Skipped m i) : framed m i false =
    { m with lastChunkFilled := true }.sendChunk i.writes false i.chunk.length := by
  unfold framed
  rw [if_neg h,if_neg Bool.false_ne_true]

/-- A turn is the same for all contents of the buffer in which the search has one result. -/
theorem mainTurn_framed (hphase : m.phase = .reading) (hne : i.chunk ≠ [])
    (hfits : i.chunk.length ≤ bufSize) (hcrash : ¬ i.Crashes) : ∃ loc : ClientMain,
      loc.lastChunkFilled = m.lastChunkFilled ∧ loc.written = m.written ∧
      loc.buf.data.take i.chunk.length = i.chunk ∧ ∀ b, ∃ m',
        mainTurn { m with buf := b } i = .ok m' ∧ m'.visible =
          (framed loc i (decide (10 ∈ i.chunk ++ b.data.drop i.chunk.length))).visible := by
  have hroom : 0+i.chunk.length ≤ bufSize := by omega
  obtain ⟨front,-,hfront⟩ := m.buf.write_ok hroom
  simp only [List.take_zero,List.nil_append,Nat.zero_add] at hfront
  have htake : front.data.take i.chunk.length = i.chunk := by simp [hfront]
  obtain ⟨d,conn,hlocal⟩ := localCommand_buf (m := m) hcrash
  refine ⟨{ m with buf := front, disconnecting := d, connected := conn },rfl,rfl,htake,fun b => ?_⟩
  obtain ⟨buf,hwrite,hdata⟩ := b.write_ok hroom
  simp only [List.take_zero,List.nil_append,Nat.zero_add] at hdata
  have hfirst : buf.data.take i.chunk.length = front.data.take i.chunk.length := by
    rw [htake]
    simp [hdata]
  unfold mainTurn
  rw [if_neg (by simp [hphase]),if_neg hne]
  simp only [hwrite,hlocal,ok_bind]
  by_cases hfirstByte : i.chunk.length = 1 ∧ m.lastChunkFilled = false
  · have hskip : Skipped ⟨front,m.lastChunkFilled,d,conn,m.phase,m.written⟩ i := hfirstByte
    rw [if_pos hfirstByte,framed_skipped hskip]
    exact ⟨_,rfl,rfl⟩
  · have hskip : ¬ Skipped ⟨front,m.lastChunkFilled,d,conn,m.phase,m.written⟩ i := hfirstByte
    rw [if_neg hfirstByte]
    by_cases hnewline : 10 ∈ buf.data
    · have hlast : i.chunk.length-1+([0] : Bytes).length ≤ bufSize := by
        have hpos := List.length_pos_iff.mpr hne
        simp only [List.length_singleton]
        omega
      obtain ⟨buf',hwrite',hdata'⟩ := buf.write_ok hlast
      rw [if_pos hnewline,hwrite',← hdata,decide_eq_true hnewline,framed_found hskip]
      refine ⟨_,rfl,sendChunk_visible (m := ⟨front,false,d,conn,m.phase,m.written⟩) ?_⟩
      have hbody := congrArg (List.take (i.chunk.length-1)) hfirst
      rw [List.take_take,List.take_take,Nat.min_eq_left (by omega)] at hbody
      have hlen : (buf.data.take (i.chunk.length-1)).length = i.chunk.length-1 := by
        rw [List.length_take,buf.size]
        omega
      rw [hdata',List.append_assoc,List.take_left' hlen]
      exact hbody
    · rw [if_neg hnewline,← hdata,decide_eq_false hnewline,framed_none hskip]
      exact ⟨_,rfl,sendChunk_visible (m := ⟨front,true,d,conn,m.phase,m.written⟩) hfirst⟩

theorem mainTurn_crashes (hphase : m.phase = .reading) (hne : i.chunk ≠ [])
    (hfits : i.chunk.length ≤ bufSize) (hcrash : i.Crashes) :
    mainTurn m i = .error .nullPointer := by
  obtain ⟨buf,hwrite,-⟩ := m.buf.write_ok (show 0+i.chunk.length ≤ bufSize by omega)
  unfold mainTurn
  rw [if_neg (by simp [hphase]),if_neg hne,hwrite]
  simp only [localCommand_crashes hcrash,error_bind]

theorem keptWhole_of_newline (hnewline : 10 ∈ i.chunk) : KeptWhole m i :=
  fun hnone => absurd hnewline hnone

theorem framed_continued (hfill : ¬ Skipped m i) (htake : m.buf.data.take i.chunk.length = i.chunk) :
    (framed m i false).lastChunkFilled = true ∧ ((framed m i false).connected = true →
      i.Connected → (framed m i false).written = m.written ++
        ((createHeader i.chunk.length msgTypeNormal false).bytes ++ i.chunk)) := by
  rw [framed_none hfill]
  obtain ⟨hkept,hconn⟩ := @sendChunk_keeps { m with lastChunkFilled := true } i.writes false
    i.chunk.length
  refine ⟨hkept,fun hconnected hwrites => ?_⟩
  obtain ⟨rest,hheader,hall⟩ := hwrites
  obtain ⟨rest',hpayload⟩ := hall i.chunk.length (Nat.le_refl _)
  rw [hconn] at hconnected
  exact sendChunk_written (m := { m with lastChunkFilled := true }) hconnected htake hheader hpayload

theorem framed_finished {newline : Bool} (hfill : newline = true ∨ Skipped m i) :
    (framed m i newline).lastChunkFilled = false := by
  by_cases hskip : Skipped m i
  · rw [framed_skipped hskip]
    exact hskip.2
  · rw [hfill.resolve_right hskip,framed_found hskip]
    exact sendChunk_keeps.1

/-- The framing depends on the chunk alone if and only if the turn does not crash, and the
chunk holds a newline, or it is not skipped and neither content behind it holds one. -/
theorem chunk_framed_iff (m : ClientMain) (b₁ b₂ : Buf bufSize) (i : Typing)
    (hphase : m.phase = .reading) (hne : i.chunk ≠ []) (hfits : i.chunk.length ≤ bufSize) :
    ChunkOnly m b₁ b₂ i ↔ ¬ i.Crashes ∧ (10 ∈ i.chunk ∨ (¬ Skipped m i ∧
      10 ∉ b₁.data.drop i.chunk.length ∧ 10 ∉ b₂.data.drop i.chunk.length)) := by
  by_cases hcrash : i.Crashes
  · refine iff_of_false (fun h => ?_) (fun h => h.1 hcrash)
    obtain ⟨m₁,-,hturn,-⟩ := h.same
    have hstuck := mainTurn_crashes (m := { m with buf := b₁ }) hphase hne hfits hcrash
    cases hturn.symm.trans hstuck
  obtain ⟨loc,hfilled,hwritten,htake,hturns⟩ := mainTurn_framed hphase hne hfits hcrash
  by_cases hnewline : 10 ∈ i.chunk
  · refine iff_of_true ⟨?_,keptWhole_of_newline hnewline,keptWhole_of_newline hnewline⟩
      ⟨hcrash,.inl hnewline⟩
    obtain ⟨m₁,hturn₁,hvisible₁⟩ := hturns b₁
    obtain ⟨m₂,hturn₂,hvisible₂⟩ := hturns b₂
    have hfound : ∀ b : Buf bufSize, 10 ∈ i.chunk ++ b.data.drop i.chunk.length :=
      fun b => List.mem_append_left _ hnewline
    rw [decide_eq_true (hfound _)] at hvisible₁ hvisible₂
    exact ⟨m₁,m₂,hturn₁,hturn₂,hvisible₁.trans hvisible₂.symm⟩
  have hskip : Skipped loc i ↔ Skipped m i := by
    unfold Skipped
    rw [hfilled]
  constructor
  · intro h
    have hone : ∀ b, KeptWhole { m with buf := b } i →
        ¬ Skipped m i ∧ 10 ∉ b.data.drop i.chunk.length := by
      intro b hkept
      obtain ⟨m₁,hturn₁,hmarked,-⟩ := hkept hnewline
      obtain ⟨m',hturn,hvisible⟩ := hturns b
      obtain rfl : m' = m₁ := Except.ok.inj (hturn.symm.trans hturn₁)
      have hflag := congrArg Prod.fst hvisible
      by_contra hbad
      have hfill : decide (10 ∈ i.chunk ++ b.data.drop i.chunk.length) = true ∨ Skipped loc i := by
        by_cases hs : Skipped m i
        · exact .inr (hskip.mpr hs)
        · exact .inl (decide_eq_true (List.mem_append_right _
            (not_not.mp (fun hnone => hbad ⟨hs,hnone⟩))))
      rw [show m'.lastChunkFilled = false from hflag.trans (framed_finished hfill)] at hmarked
      cases hmarked
    exact ⟨hcrash,.inr ⟨(hone b₁ h.first).1,(hone b₁ h.first).2,(hone b₂ h.second).2⟩⟩
  · rintro ⟨-,hbad | ⟨hgoes,hrest₁,hrest₂⟩⟩
    · exact absurd hbad hnewline
    have hone : ∀ b : Buf bufSize, 10 ∉ b.data.drop i.chunk.length → ∃ m',
        mainTurn { m with buf := b } i = .ok m' ∧ m'.visible = (framed loc i false).visible := by
      intro b hrest
      obtain ⟨m',hturn,hvisible⟩ := hturns b
      rw [decide_eq_false (fun hmem => (List.mem_append.mp hmem).elim hnewline hrest)] at hvisible
      exact ⟨m',hturn,hvisible⟩
    have hkept : ∀ b : Buf bufSize, 10 ∉ b.data.drop i.chunk.length →
        KeptWhole { m with buf := b } i := by
      intro b hrest _
      obtain ⟨m',hturn,hvisible⟩ := hone b hrest
      refine ⟨m',hturn,?_⟩
      simp only [ClientMain.visible,Prod.mk.injEq] at hvisible
      obtain ⟨hflag,-,hconn,-,hbytes⟩ := hvisible
      obtain ⟨hmarked,hsent⟩ := framed_continued (mt hskip.mp hgoes) htake
      rw [hflag,hconn,hbytes]
      exact ⟨hmarked,fun hconnected hwrites => by rw [hsent hconnected hwrites,hwritten]⟩
    obtain ⟨m₁,hturn₁,hvisible₁⟩ := hone b₁ hrest₁
    obtain ⟨m₂,hturn₂,hvisible₂⟩ := hone b₂ hrest₂
    exact ⟨⟨m₁,m₂,hturn₁,hturn₂,hvisible₁.trans hvisible₂.symm⟩,hkept b₁ hrest₁,hkept b₂ hrest₂⟩

end Turn

def Typing.twoLines : Typing := ⟨ascii "hello\nworld\n",true,true,[.accepts 100,.accepts 100]⟩

def Typing.partLine : Typing := ⟨ascii "abc",true,true,[.accepts 100,.accepts 100]⟩

theorem chunk_framed_iff_twoLines : ∃ m, run mainTurn (.init (.zero _)) [.partLine] = .ok m ∧
    m.lastChunkFilled = true ∧ ChunkOnly m m.buf (.zero _) .twoLines := by
  have htest : (match run mainTurn (.init (.zero _)) [.partLine] with
      | .ok m => decide (m.lastChunkFilled = true ∧ m.phase = .reading)
      | .error _ => false) = true := by decide +kernel
  split at htest
  · rename_i m hrun
    obtain ⟨hfilled,hphase⟩ := of_decide_eq_true htest
    have hcalm : ¬ Typing.twoLines.Crashes := fun hcrash => absurd hcrash.1 (by decide)
    exact ⟨m,hrun,hfilled,(chunk_framed_iff m m.buf (.zero _) .twoLines hphase (by decide)
      (by decide)).mpr ⟨hcalm,.inl (by decide)⟩⟩
  · cases htest

/-- The first newline of the earlier chunk is still in the buffer: the part is sent as a
whole message, without its last byte. -/
theorem framing_stale : ∃ m m', run mainTurn (.init (.zero _)) [.twoLines] = .ok m ∧
    m.phase = .reading ∧ mainTurn m .partLine = .ok m' ∧
    m'.written = m.written ++ ((createHeader 2 msgTypeNormal true).bytes ++ ascii "ab") ∧
    ¬ ChunkOnly m m.buf (.zero _) .partLine := by
  have htest : (match run mainTurn (.init (.zero _)) [.twoLines] with
      | .error _ => false
      | .ok m => match mainTurn m .partLine with
        | .error _ => false
        | .ok m' => decide (m.phase = .reading ∧ m'.lastChunkFilled = false ∧ m'.written =
            m.written ++ ((createHeader 2 msgTypeNormal true).bytes ++ ascii "ab"))) = true := by
    decide +kernel
  split at htest
  · cases htest
  · rename_i m hrun
    split at htest
    · cases htest
    · rename_i m' hturn
      obtain ⟨hphase,hfinished,hwritten⟩ := of_decide_eq_true htest
      refine ⟨m,m',hrun,hphase,hturn,hwritten,fun h => ?_⟩
      obtain ⟨m₁,hturn₁,hmarked,-⟩ := h.first (by decide)
      cases hturn.symm.trans hturn₁
      rw [hfinished] at hmarked
      cases hmarked

end ChatServer
