import ChatServer.ClientMain
import ChatServer.Decoder
import ChatServer.Simulation

/-! What is typed and what arrives: the frames of the client's loop decode to the
lines, as long as no chunk meets one of the three tests that go wrong. -/
set_option autoImplicit false

namespace ChatServer
open ByteString Memory Execution

section Splitting
variable {α : Type} [BEq α] {a : α} {xs ys : List α} {L M : List (List α)}
  {l m : List α}

theorem splitOn_append (hx : xs.splitOn a = L ++ [l]) (hy : ys.splitOn a = m :: M) :
    (xs ++ ys).splitOn a = L ++ (l ++ m) :: M := by
  induction xs generalizing L l with
  | nil =>
    cases L with
    | nil =>
      simp only [List.splitOn_nil,List.nil_append,List.cons.injEq,and_true] at hx
      simpa [← hx] using hy
    | cons _ L => simp at hx
  | cons x xs ih =>
    obtain ⟨L',l',hrest⟩ : ∃ L' l', xs.splitOn a = L' ++ [l'] :=
      ⟨_,_,(List.dropLast_append_getLast (List.splitOn_ne_nil a xs)).symm⟩
    have hgrown := ih hrest
    rw [List.splitOn_cons_eq_if_modifyHead,hrest] at hx
    rw [List.cons_append,List.splitOn_cons_eq_if_modifyHead,hgrown]
    by_cases hxa : x == a
    · simp only [hxa,if_true] at hx ⊢
      have heq : L ++ [l] = ([] :: L') ++ [l'] := hx.symm
      obtain ⟨rfl,hl⟩ := List.append_inj' heq rfl
      cases hl
      rfl
    · simp only [hxa] at hx ⊢
      cases L' with
      | nil =>
        have heq : L ++ [l] = [] ++ [x :: l'] := hx.symm
        obtain ⟨rfl,hl⟩ := List.append_inj' heq rfl
        cases hl
        rfl
      | cons h T =>
        have heq : L ++ [l] = ((x :: h) :: T) ++ [l'] := hx.symm
        obtain ⟨rfl,hl⟩ := List.append_inj' heq rfl
        cases hl
        rfl

end Splitting

section Lines
variable {xs ys : Bytes} {L : List Bytes} {l : Bytes}

theorem splitOn_word (hx : xs.splitOn 10 = L ++ [l]) (hy : 10 ∉ ys) :
    (xs ++ ys).splitOn 10 = L ++ [l ++ ys] :=
  splitOn_append hx (List.splitOn_eq_singleton hy)

theorem splitOn_line (hx : xs.splitOn 10 = L ++ [l]) (hy : 10 ∉ ys) :
    (xs ++ (ys ++ [10])).splitOn 10 = (L ++ [l ++ ys]) ++ [[]] := by
  have hlast : (ys ++ [10]).splitOn 10 = [ys,[]] := by
    rw [List.splitOn_append_cons_self,List.splitOn_eq_singleton hy]
    rfl
  rw [splitOn_append hx hlast]
  simp

theorem splitOn_cons_exists (a : UInt8) (xs : Bytes) : ∃ m M, xs.splitOn a = m :: M := by
  cases h : xs.splitOn a with
  | nil => exact absurd h (List.splitOn_ne_nil a xs)
  | cons m M => exact ⟨m,M,rfl⟩

theorem splitOn_head (hx : xs.splitOn 10 = L ++ [[]]) {b : UInt8} (hb : ys.head? = some b)
    (hne : b ≠ 10) : ∃ l ∈ (xs ++ ys).splitOn 10, l.head? = some b := by
  obtain ⟨ys,rfl⟩ := List.head?_eq_some_iff.mp hb
  obtain ⟨m,M,hm⟩ := splitOn_cons_exists 10 ys
  have hy : (b :: ys).splitOn 10 = (b :: m) :: M := by
    rw [List.splitOn_cons_eq_if_modifyHead,hm]
    simp [hne]
  rw [splitOn_append hx hy]
  exact ⟨b :: m,by simp,rfl⟩

end Lines

/-- The lines that were completed with a newline and are not empty. -/
def completedLines (typed : Bytes) : List Bytes :=
  (typed.splitOn 10).dropLast.filter (fun l => l ≠ [])

theorem completedLines_next {xs l : Bytes} {L : List Bytes}
    (hx : xs.splitOn 10 = (L ++ [l]) ++ [[]]) (hne : l ≠ []) (ys : Bytes) :
    (completedLines (xs ++ ys))[(L.filter (fun l => l ≠ [])).length]? = some l := by
  obtain ⟨m,M,hy⟩ := splitOn_cons_exists 10 ys
  unfold completedLines
  rw [splitOn_append hx hy,List.dropLast_append_cons,List.filter_append,List.filter_append,
    List.filter_singleton]
  simp [hne]

def typedBytes (turns : List Typing) : Bytes := turns.flatMap Typing.chunk

namespace Typing

structure Line (i : Typing) : Prop where
  nonempty : i.chunk ≠ []
  fits : i.chunk.length ≤ bufSize
  newline : 10 ∉ i.chunk.dropLast

theorem Line.split {i : Typing} (h : i.Line) (hmem : 10 ∈ i.chunk) :
    i.chunk = i.chunk.dropLast ++ [10] := by
  have hparts := List.dropLast_append_getLast h.nonempty
  rw [← hparts,List.mem_append] at hmem
  rcases hmem with hbody | hlast
  · exact absurd hbody h.newline
  · rw [List.mem_singleton.mp hlast]
    exact hparts.symm

def Connected (i : Typing) : Prop := ∃ rest, takes i.writes headerSize = some rest ∧
  ∀ n ≤ i.chunk.length, ∃ rest', takes rest n = some rest'

end Typing

/-- The chunk is treated as a part of its line: a single byte that starts a line
is a newline, no newline is found behind a chunk that has none, and a chunk that
continues a line does not end the client as a command. -/
structure Plain (m : ClientMain) (i : Typing) : Prop where
  single : i.chunk.length = 1 → m.lastChunkFilled = false → i.chunk = [10]
  stale : i.chunk.getLast? ≠ some 10 → 10 ∉ m.buf.data.drop i.chunk.length
  harmless : m.lastChunkFilled = true → i.chunk.head? = some 47 → i.copyOk = true ∧
    ∃ cmd, localToken i.chunk = some cmd ∧ findCommand (makeLowercase cmd) ≠ .quit ∧
      findCommand (makeLowercase cmd) ≠ .shutdown

def Text (m : ClientMain) (i : Typing) : Prop :=
  m.lastChunkFilled = false → i.chunk.head? ≠ some 47

theorem localCommand_harmless {m : ClientMain} {i : Typing} {buf : Buf bufSize}
    (h : Plain m i) (htext : Text m i) :
    localCommand { m with buf := buf } i = .ok { m with buf := buf } := by
  unfold localCommand
  by_cases hslash : i.chunk.head? = some 47
  · have hfilled : m.lastChunkFilled = true := by
      cases hf : m.lastChunkFilled with
      | true => rfl
      | false => exact absurd hslash (htext hf)
    obtain ⟨hcopy,cmd,htoken,hquit,hshut⟩ := h.harmless hfilled hslash
    simp only [hslash,if_true,hcopy,htoken,Bool.true_eq_false,if_false]
    unfold clientHandleCommand
    cases hfind : findCommand (makeLowercase cmd) with
    | quit => exact absurd hfind hquit
    | shutdown => exact absurd hfind hshut
    | list => rfl
    | whisper => rfl
    | unknown => rfl
  · rw [if_neg hslash]
    rfl

section Chunks
variable {m : ClientMain} {sends rest rest' : List SendRes} {msgDone : Bool} {payload : Bytes}

theorem sendChunk_takes (hconn : m.connected = true)
    (hpayload : m.buf.data.take payload.length = payload)
    (hheader : takes sends headerSize = some rest)
    (htakes : takes rest payload.length = some rest') :
    m.sendChunk sends msgDone payload.length = { m with
      written := m.written ++ ((createHeader payload.length msgTypeNormal msgDone).bytes ++ payload)
      phase := if m.disconnecting then .left else m.phase } := by
  have hfirst : writeAll sends (createHeader payload.length msgTypeNormal msgDone).bytes =
      ⟨(createHeader payload.length msgTypeNormal msgDone).bytes,headerSize,rest⟩ :=
    writeAll_takes hheader
  have hsecond := writeAll_takes htakes
  have hneg : ∀ n : Nat, ¬ ((n : Int) = -1) := by
    intro n
    omega
  unfold ClientMain.sendChunk ClientMain.writeSfd
  simp only [hconn,if_true,hfirst,hneg,if_false,hpayload,hsecond,List.append_assoc]
  split <;> rfl

theorem sendChunk_connected (hconn : m.connected = true) (hstay : m.disconnecting = false)
    (hpayload : m.buf.data.take payload.length = payload)
    (hheader : takes sends headerSize = some rest)
    (htakes : takes rest payload.length = some rest') :
    m.sendChunk sends msgDone payload.length = { m with written := m.written ++
      ((createHeader payload.length msgTypeNormal msgDone).bytes ++ payload) } := by
  rw [sendChunk_takes hconn hpayload hheader htakes,hstay]
  rfl

end Chunks

/-- The client goes on, and what it has written decodes to the lines so far. -/
structure Caught (refuses : Nat → Bool) (m : ClientMain) (lines : List Bytes)
    (line : Bytes) : Prop where
  phase : m.phase = .reading
  connected : m.connected = true
  stays : m.disconnecting = false
  filled : m.lastChunkFilled = true ↔ line ≠ []
  decodes : Decodes refuses m.written (lines.filter (fun l => l ≠ [])) line

section Turns
variable {refuses : Nat → Bool} {m : ClientMain} {i : Typing} {lines : List Bytes} {line : Bytes}

theorem write_chunk (buf : Buf bufSize) (hline : i.Line) : ∃ buf', buf.write 0 i.chunk = some buf' ∧
    buf'.data = i.chunk ++ buf.data.drop i.chunk.length := by
  have hfits : 0+i.chunk.length ≤ bufSize := by
    have hfits := hline.fits
    omega
  obtain ⟨buf',hwrite,hdata⟩ := buf.write_ok hfits
  exact ⟨buf',hwrite,by simpa using hdata⟩

theorem mainTurn_empty (hphase : m.phase = .reading) (hline : i.Line) (hplain : Plain m i)
    (htext : Text m i) (hfilled : m.lastChunkFilled = false) (hone : i.chunk.length = 1) :
    ∃ buf, mainTurn m i = .ok { m with buf := buf } := by
  obtain ⟨buf,hwrite,-⟩ := write_chunk m.buf hline
  refine ⟨buf,?_⟩
  unfold mainTurn
  rw [if_neg (by simp [hphase]),if_neg hline.nonempty,hwrite]
  simp only [localCommand_harmless hplain htext,ok_bind]
  rw [if_pos ⟨hone,hfilled⟩]
  rfl

theorem mainTurn_fragment (hphase : m.phase = .reading) (hconnected : m.connected = true)
    (hstays : m.disconnecting = false) (hline : i.Line) (hconn : i.Connected) (hplain : Plain m i)
    (htext : Text m i) (hmore : ¬ (i.chunk.length = 1 ∧ m.lastChunkFilled = false))
    (hnone : 10 ∉ i.chunk) :
    ∃ buf, mainTurn m i = .ok { m with buf := buf, lastChunkFilled := true, written := m.written ++
      ((createHeader i.chunk.length msgTypeNormal false).bytes ++ i.chunk) } := by
  obtain ⟨buf,hwrite,hdata⟩ := write_chunk m.buf hline
  obtain ⟨rest,hheader,hall⟩ := hconn
  obtain ⟨rest',hpayload⟩ := hall i.chunk.length (Nat.le_refl _)
  have hlast : i.chunk.getLast? ≠ some 10 := fun hl => hnone (List.mem_of_getLast? hl)
  have hno : 10 ∉ buf.data := by
    rw [hdata,List.mem_append]
    exact fun h => h.elim hnone (hplain.stale hlast)
  refine ⟨buf,?_⟩
  unfold mainTurn
  rw [if_neg (by simp [hphase]),if_neg hline.nonempty,hwrite]
  simp only [localCommand_harmless hplain htext,ok_bind]
  rw [if_neg hmore,if_neg hno]
  exact congrArg Except.ok (sendChunk_connected hconnected hstays
    (by simp [hdata]) hheader hpayload)

theorem mainTurn_whole {body : Bytes} (hphase : m.phase = .reading)
    (hconnected : m.connected = true) (hstays : m.disconnecting = false) (hline : i.Line)
    (hconn : i.Connected) (hplain : Plain m i) (htext : Text m i)
    (hmore : ¬ (i.chunk.length = 1 ∧ m.lastChunkFilled = false))
    (hchunk : i.chunk = body ++ [10]) :
    ∃ buf, mainTurn m i = .ok { m with buf := buf, lastChunkFilled := false, written := m.written ++
      ((createHeader body.length msgTypeNormal true).bytes ++ body) } := by
  obtain ⟨buf,hwrite,hdata⟩ := write_chunk m.buf hline
  obtain ⟨rest,hheader,hall⟩ := hconn
  have hlen : i.chunk.length-1 = body.length := by simp [hchunk]
  obtain ⟨rest',hpayload⟩ := hall body.length (by simp [hchunk])
  have hyes : 10 ∈ buf.data := by simp [hdata,hchunk]
  have hfits : body.length+([0] : Bytes).length ≤ bufSize := by
    have hfits := hline.fits
    simpa [hchunk] using hfits
  obtain ⟨buf',hwrite',hdata'⟩ := buf.write_ok hfits
  have htake : buf'.data.take body.length = body := by
    have hbody : buf.data.take body.length = body := by simp [hdata,hchunk]
    simp [hdata',hbody]
  refine ⟨buf',?_⟩
  unfold mainTurn
  rw [if_neg (by simp [hphase]),if_neg hline.nonempty,hwrite]
  simp only [localCommand_harmless hplain htext,ok_bind]
  rw [if_neg hmore,if_pos hyes,hlen,hwrite']
  exact congrArg Except.ok (sendChunk_connected hconnected hstays htake hheader hpayload)

theorem Caught.fragment (h : Caught refuses m lines line) (hline : i.Line) (hconn : i.Connected)
    (hplain : Plain m i) (htext : Text m i) (hnone : 10 ∉ i.chunk) :
    ∃ m', mainTurn m i = .ok m' ∧ Caught refuses m' lines (line ++ i.chunk) := by
  have hmore : ¬ (i.chunk.length = 1 ∧ m.lastChunkFilled = false) := by
    rintro ⟨hone,hfilled⟩
    rw [hplain.single hone hfilled] at hnone
    simp at hnone
  obtain ⟨buf,hturn⟩ := mainTurn_fragment h.phase h.connected h.stays hline hconn hplain htext
    hmore hnone
  refine ⟨_,hturn,h.phase,h.connected,h.stays,?_,?_⟩
  · simp [hline.nonempty]
  · exact h.decodes.fragment (MsgHeader.bytes_length _)
      (by rw [parse_createHeader _ _ hline.fits]) hline.fits
      (by simp [parse_createHeader _ _ hline.fits])

theorem Caught.whole {body : Bytes} (h : Caught refuses m lines line) (hline : i.Line)
    (hconn : i.Connected) (hplain : Plain m i) (htext : Text m i) (hchunk : i.chunk = body ++ [10])
    (haccept : line ++ body ≠ [] → refuses (lines.filter (fun l => l ≠ [])).length = false) :
    ∃ m', mainTurn m i = .ok m' ∧ Caught refuses m' (lines ++ [line ++ body]) [] := by
  by_cases hempty : i.chunk.length = 1 ∧ m.lastChunkFilled = false
  · obtain ⟨hone,hfilled⟩ := hempty
    obtain ⟨buf,hturn⟩ := mainTurn_empty h.phase hline hplain htext hfilled hone
    have hbody : body = [] := by
      rw [hchunk,List.length_append,List.length_singleton] at hone
      exact List.eq_nil_of_length_eq_zero (by omega)
    have hfirst : line = [] := by
      by_contra hne
      rw [h.filled.mpr hne] at hfilled
      cases hfilled
    refine ⟨_,hturn,h.phase,h.connected,h.stays,?_,?_⟩
    · simp [hfilled]
    · have hdecodes := h.decodes
      rw [hfirst] at hdecodes
      simpa [hbody,hfirst] using hdecodes
  · obtain ⟨buf,hturn⟩ := mainTurn_whole h.phase h.connected h.stays hline hconn hplain htext
      hempty hchunk
    have hfits : body.length ≤ bufSize := by
      have hfits := hline.fits
      rw [hchunk,List.length_append,List.length_singleton] at hfits
      omega
    have hne : line ++ body ≠ [] := by
      intro hnil
      obtain ⟨hfirst,hbody⟩ := List.append_eq_nil_iff.mp hnil
      refine hempty ⟨by simp [hchunk,hbody],?_⟩
      cases hf : m.lastChunkFilled with
      | false => rfl
      | true => exact absurd hfirst (h.filled.mp hf)
    refine ⟨_,hturn,h.phase,h.connected,h.stays,by simp,?_⟩
    have hdecodes := h.decodes.whole (MsgHeader.bytes_length _)
      (by rw [parse_createHeader msgTypeNormal true hfits]) hfits
      (by simp [parse_createHeader msgTypeNormal true hfits]) (haccept hne)
    rw [List.filter_append,List.filter_singleton]
    simpa [hne] using hdecodes

/-- What one turn keeps, a run keeps. -/
theorem Caught.run {turns : List Typing} {typed : Bytes} (h : Caught refuses m lines line)
    (htyped : typed.splitOn 10 = lines ++ [line]) (hline : ∀ i ∈ turns, i.Line)
    (hconn : ∀ i ∈ turns, i.Connected)
    (hslash : ∀ l ∈ (typed ++ typedBytes turns).splitOn 10, l.head? ≠ some 47)
    (hfair : ∀ n l, (completedLines (typed ++ typedBytes turns))[n]? = some l →
      l.head? ≠ some 47 → refuses n = false)
    (hplain : ∀ a i rest m', turns = a ++ i :: rest → run mainTurn m a = .ok m' → Plain m' i) :
    ∃ m' lines' line', Execution.run mainTurn m turns = .ok m' ∧
      (typed ++ typedBytes turns).splitOn 10 = lines' ++ [line'] ∧
      Caught refuses m' lines' line' := by
  induction turns generalizing m lines line typed with
  | nil =>
    refine ⟨m,lines,line,rfl,?_,h⟩
    simpa [typedBytes] using htyped
  | cons i turns ih =>
    have hsplit : typed ++ typedBytes (i :: turns) = (typed ++ i.chunk) ++ typedBytes turns := by
      simp [typedBytes]
    rw [hsplit] at hslash hfair ⊢
    have hi := hline i (by simp)
    have hplain₀ : Plain m i := hplain [] i turns m rfl rfl
    have htext : Text m i := by
      intro hfilled hhead
      have hfirst : line = [] := by
        by_contra hne
        rw [h.filled.mpr hne] at hfilled
        cases hfilled
      rw [hfirst] at htyped
      have hall : (i.chunk ++ typedBytes turns).head? = some 47 := by
        simp [List.head?_append,hhead]
      obtain ⟨l,hl,hbad⟩ := splitOn_head htyped hall (by decide)
      rw [← List.append_assoc] at hl
      exact hslash l hl hbad
    have hstep : ∃ m' lines' line', mainTurn m i = .ok m' ∧
        (typed ++ i.chunk).splitOn 10 = lines' ++ [line'] ∧ Caught refuses m' lines' line' := by
      by_cases hnone : 10 ∉ i.chunk
      · obtain ⟨m',hturn,h'⟩ := h.fragment hi (hconn i (by simp)) hplain₀ htext hnone
        exact ⟨m',_,_,hturn,splitOn_word htyped hnone,h'⟩
      · have hchunk := hi.split (not_not.mp hnone)
        have hends := splitOn_line htyped hi.newline
        rw [← hchunk] at hends
        obtain ⟨m',hturn,h'⟩ := h.whole hi (hconn i (by simp)) hplain₀ htext hchunk (by
          intro hne
          refine hfair _ _ (completedLines_next hends hne _) (hslash _ ?_)
          obtain ⟨first,more,hmore⟩ := splitOn_cons_exists 10 (typedBytes turns)
          rw [splitOn_append hends hmore]
          simp)
        exact ⟨m',_,_,hturn,hends,h'⟩
    obtain ⟨m',lines',line',hturn,htyped',h'⟩ := hstep
    obtain ⟨m'',lines'',line'',hrun,hend⟩ := ih h' htyped' (fun i hi => hline i (by simp [hi]))
      (fun i hi => hconn i (by simp [hi])) hslash hfair (by
        intro a j rest u he hu
        refine hplain (i :: a) j rest u (by rw [he]; rfl) ?_
        rw [run_cons,hturn]
        exact hu)
    refine ⟨m'',lines'',line'',?_,hend⟩
    rw [run_cons,hturn]
    exact hrun

end Turns

/-- What is typed as lines is written as frames that decode to these lines, as
long as every chunk is treated as a part of its line. -/
theorem typed_delivered (refuses : Nat → Bool) (turns : List Typing) (buf : Buf bufSize)
    (hline : ∀ i ∈ turns, i.Line)
    (hconn : ∀ i ∈ turns, i.Connected)
    (hslash : ∀ l ∈ (typedBytes turns).splitOn 10, l.head? ≠ some 47)
    (hfair : ∀ n l, (completedLines (typedBytes turns))[n]? = some l → l.head? ≠ some 47 →
      refuses n = false)
    (hplain : ∀ a i rest m, turns = a ++ i :: rest →
      run mainTurn (.init buf) a = .ok m → Plain m i) :
    ∃ m, run mainTurn (.init buf) turns = .ok m ∧ m.phase = .reading ∧
      (decode refuses m.written).messages = completedLines (typedBytes turns) ∧
      ¬ (decode refuses m.written).Rejected := by
  have hinit : Caught refuses (.init buf) [] [] := ⟨rfl,rfl,rfl,by simp [ClientMain.init],.nil⟩
  obtain ⟨m,lines,line,hrun,htyped,h⟩ :=
    hinit.run (show ([] : Bytes).splitOn 10 = [] ++ [[]] from rfl) hline hconn hslash hfair hplain
  have hdecode := h.decodes []
  rw [List.append_nil,decodeFrom_short (by decide)] at hdecode
  have hlines : completedLines (typedBytes turns) = lines.filter (fun l => l ≠ []) := by
    unfold completedLines
    rw [← List.nil_append (typedBytes turns),htyped,List.dropLast_concat]
  refine ⟨m,hrun,h.phase,?_,?_⟩
  · rw [hdecode,hlines]
    simp
  · rw [hdecode]
    rintro (hlong | hrefused)
    · cases hlong
    · cases hrefused

/-- `process_payload` refuses commands only. -/
theorem processPayload_accepts {w w' : World} {p : Nat} {text : Bytes} {r : Int}
    (hcall : processPayload w p (some text) = .ok (w',r)) (htext : text.head? ≠ some 47) :
    r = 0 := by
  have hzero : Holds (fun _ => True) (processPayload w p (some text)) (fun res => res.2 = 0) := by
    unfold processPayload
    refine Holds.bind (P := fun _ => True) (by cases w.client p <;> exact True.intro) ?_
    intro c _
    split
    · cases storeClientName c with
      | error e => exact True.intro
      | ok c => exact rfl
    · simp only [htext,if_false]
      cases formatChatMessage w p with
      | error e => exact True.intro
      | ok res =>
        obtain ⟨w₁,formatted⟩ := res
        cases formatted with
        | none => exact True.intro
        | some text =>
          simp only [ok_bind]
          cases broadcast w₁ (some p) (cstr text) with
          | error e => exact True.intro
          | ok res => exact rfl
  exact hzero.of_ok hcall

theorem Typing.connected_accepts {i : Typing} {n : Nat}
    (hwrites : i.writes = [.accepts (n+headerSize),.accepts (n+1)]) (hle : i.chunk.length ≤ n) :
    i.Connected := by
  refine ⟨[.accepts (n+1)],?_,?_⟩
  · rw [hwrites]
    simp [takes,headerSize]
  · intro k hk
    cases k with
    | zero => exact ⟨_,rfl⟩
    | succ k => exact ⟨[],by simp [takes,Nat.sub_eq_zero_of_le (by omega : k+1 ≤ n+1)]⟩

def Typing.hey : List Typing :=
  [⟨ascii "he",true,true,[.accepts 9,.accepts 4]⟩,⟨ascii "y\n",true,true,[.accepts 9,.accepts 4]⟩]

theorem typed_delivered_hey : ∃ m, run mainTurn (.init (.zero _)) Typing.hey = .ok m ∧
    (decode (fun _ => false) m.written).messages = [ascii "hey"] := by
  have hall : ∀ i ∈ Typing.hey, i = ⟨ascii "he",true,true,[.accepts 9,.accepts 4]⟩ ∨
      i = ⟨ascii "y\n",true,true,[.accepts 9,.accepts 4]⟩ := by simp [Typing.hey]
  obtain ⟨m,hrun,-,hmessages,-⟩ := typed_delivered (fun _ => false) Typing.hey (.zero _) (by
      intro i hi
      rcases hall i hi with rfl | rfl <;> exact ⟨by decide,by decide,by decide⟩)
    (by
      intro i hi
      rcases hall i hi with rfl | rfl <;> exact Typing.connected_accepts (n := 3) rfl (by decide))
    (by decide) (fun _ _ _ _ => rfl) (by
      intro a i rest m he hrun
      cases a with
      | nil =>
        cases hrun
        cases he
        refine ⟨fun hone => absurd hone (by decide),fun _ => ?_,fun hfilled => by cases hfilled⟩
        simp [ClientMain.init,Buf.zero]
      | cons j a =>
        have hi : i = ⟨ascii "y\n",true,true,[.accepts 9,.accepts 4]⟩ := by
          cases a with
          | nil =>
            cases he
            rfl
          | cons k a => simp [Typing.hey] at he
        subst hi
        exact ⟨fun hone => absurd hone (by decide),fun hlast => absurd rfl hlast,
          fun _ hhead => absurd hhead (by decide)⟩)
  exact ⟨m,hrun,hmessages.trans (by decide)⟩

/-- The first byte of the line is read on its own and is not sent. -/
theorem typed_lost : ∃ turns : List Typing, (∀ i ∈ turns, i.Line ∧ i.Connected) ∧
    (∀ l ∈ (typedBytes turns).splitOn 10, l.head? ≠ some 47) ∧
    completedLines (typedBytes turns) = [ascii "abc"] ∧
    ∃ m, run mainTurn (.init (.zero _)) turns = .ok m ∧ m.phase = .reading ∧
      (decode (fun _ => false) m.written).messages = [ascii "bc"] := by
  let turns : List Typing := [⟨ascii "a",true,true,[.accepts 9,.accepts 4]⟩,
    ⟨ascii "bc\n",true,true,[.accepts 9,.accepts 4]⟩]
  have htest : (match run mainTurn (.init (.zero _)) turns with
      | .ok m => decide (m.phase = .reading ∧ m.written = encode [[(msgTypeNormal,ascii "bc")]])
      | .error _ => false) = true := by decide +kernel
  refine ⟨turns,?_,by decide,by decide,?_⟩
  · have hall : ∀ i ∈ turns, i = ⟨ascii "a",true,true,[.accepts 9,.accepts 4]⟩ ∨
        i = ⟨ascii "bc\n",true,true,[.accepts 9,.accepts 4]⟩ := by simp [turns]
    intro i hi
    rcases hall i hi with rfl | rfl <;> exact ⟨⟨by decide,by decide,by decide⟩,
      Typing.connected_accepts (n := 3) rfl (by decide)⟩
  · split at htest
    · rename_i m hrun
      obtain ⟨hphase,hwritten⟩ := of_decide_eq_true htest
      refine ⟨m,hrun,hphase,?_⟩
      rw [hwritten,decode_encode (by
        intro x hx
        rw [List.mem_singleton.mp hx]
        exact ⟨by simp,by decide⟩) (fun _ => rfl)]
      rfl
    · cases htest

end ChatServer
