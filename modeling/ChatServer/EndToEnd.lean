import ChatServer.Screen
import ChatServer.TypedLines

/-! From the keyboard of one client to the screen of another. -/
set_option autoImplicit false

namespace ChatServer
open ByteString Memory Execution Relation

theorem NamedBy.shownName {c : ClientInfo} {name : Bytes} (h : NamedBy c name) :
    c.shownName = name.take (nameMax-1) := by
  have htake := congrArg (List.take c.nameLen) h.bytes
  rw [List.take_take,Nat.min_eq_left (Nat.le_succ _)] at htake
  have hlen : (name.take (nameMax-1)).length = c.nameLen := by rw [List.length_take,h.len]
  rw [List.take_left' hlen] at htake
  exact htake

theorem Copies.spoken {trace : List Obs} {ms : List Bytes} (h : Copies trace ms) :
    spoken trace = ms.drop 1 := by
  unfold ChatServer.spoken
  rcases h with heq | ⟨-,m,rest,rfl,heq⟩
  · rw [heq,← List.map_drop]
    simp
  · rw [heq]
    simp

theorem Stops.accepts {trace : List Obs} (h : Stops false trace) :
    Foretells (fun _ => false) trace := by
  intro i r hi
  have hmem : .verdict r ∈ trace := by
    have hv := List.mem_of_getElem? hi
    unfold verdicts at hv
    obtain ⟨o,ho,he⟩ := List.mem_filterMap.mp hv
    cases o <;> simp_all
  have hharmless := h.running rfl _ hmem
  simpa [Obs.harmless] using hharmless

section Typing
variable {turns : List Typing} {buf : Buf bufSize} {m : ClientMain}

theorem typed_decodes (hline : ∀ i ∈ turns, i.Line) (hconn : ∀ i ∈ turns, i.Connected)
    (hslash : ∀ l ∈ (typedBytes turns).splitOn 10, l.head? ≠ some 47)
    (hplain : ∀ a i rest m, turns = a ++ i :: rest → run mainTurn (.init buf) a = .ok m →
      Plain m i) (hmain : run mainTurn (.init buf) turns = .ok m) :
    (decode (fun _ => false) m.written).messages = completedLines (typedBytes turns) := by
  have hinit : Caught (fun _ => false) (.init buf) [] [] :=
    ⟨rfl,rfl,rfl,by simp [ClientMain.init],.nil⟩
  obtain ⟨m',lines,line,hrun,htyped,h⟩ := hinit.run
    (show ([] : Bytes).splitOn 10 = [] ++ [[]] from rfl) hline hconn hslash
    (fun _ _ _ _ => rfl) hplain
  rw [hmain] at hrun
  cases hrun
  have hdecode := h.decodes []
  rw [List.append_nil,decodeFrom_short (by decide)] at hdecode
  unfold completedLines
  rw [hdecode,← List.nil_append (typedBytes turns),htyped,List.dropLast_concat]
  simp

theorem completedLines_mem {typed line : Bytes} (h : line ∈ completedLines typed) :
    line ∈ typed.splitOn 10 := by
  unfold completedLines at h
  exact (List.dropLast_sublist _).subset (List.mem_of_mem_filter h)

end Typing

section Runs
variable {acts : List Action} {s : Sys} {p : Nat} {c : ClientInfo} {k : Sock}

theorem listed_open (hrun : run step Sys.init acts = .ok s) (hphase : s.phase ≠ .done)
    (h : Listed s p c k) (hopen : c.closed = false) :
    Naming c (decode (fun _ => false) (received k.trace)).messages ∧
      spoken k.trace = (decode (fun _ => false) (received k.trace)).messages.drop 1 := by
  obtain ⟨ms₀,hread₀⟩ := listed_read hrun hphase h (refusals_foretell k.trace)
  have hstops := hread₀.stops
  rw [hopen] at hstops
  obtain ⟨ms,hread⟩ := listed_read hrun hphase h hstops.accepts
  obtain ⟨n,message,tail,hdecode,-⟩ := (hread.parses hopen).waiting (hread.idle hopen)
  rw [hdecode]
  exact ⟨hread.naming,hread.heard.copies.spoken⟩

/-- What the user of an open client typed, broadcast under the first line. -/
theorem listed_typed {turns : List Typing} {buf : Buf bufSize} {m : ClientMain}
    (hrun : run step Sys.init acts = .ok s) (hphase : s.phase ≠ .done) (h : Listed s p c k)
    (hopen : c.closed = false) (hline : ∀ i ∈ turns, i.Line) (hconn : ∀ i ∈ turns, i.Connected)
    (hslash : ∀ l ∈ (typedBytes turns).splitOn 10, l.head? ≠ some 47)
    (hplain : ∀ a i rest m, turns = a ++ i :: rest → run mainTurn (.init buf) a = .ok m →
      Plain m i) (hmain : run mainTurn (.init buf) turns = .ok m)
    (hreceived : received k.trace = m.written) {name : Bytes} {lines : List Bytes}
    (htyped : completedLines (typedBytes turns) = name :: lines) :
    List.Forall₂ (ChatLine (name.take (nameMax-1))) lines
      (saidBy p (s.world.broadcasts.drop k.joined)) := by
  obtain ⟨hnaming,hspoken⟩ := listed_open hrun hphase h hopen
  rw [hreceived,typed_decodes hline hconn hslash hplain hmain,htyped] at hnaming hspoken
  have hname := hnaming.2.shownName
  have hchats : chats k.trace = lines := by
    unfold chats
    rw [hspoken,List.drop_one,List.tail_cons,List.filter_eq_self]
    intro line hmem
    have htext : line ∈ completedLines (typedBytes turns) := by
      rw [htyped]
      exact List.mem_cons_of_mem _ hmem
    simpa using hslash line (completedLines_mem htext)
  have hlines := (listed_speaks hrun hphase h).1
  rwa [hname,hchats] at hlines

theorem saidBy_others {p q : Nat} (hpq : p ≠ q) (bs : List Broadcast) :
    saidBy p (others q bs) = saidBy p bs := by
  unfold saidBy others
  rw [List.filter_filter]
  refine congrArg _ (List.filter_congr ?_)
  intro b _
  by_cases h : b.sender = some p
  · simp [h,hpq]
  · simp [h]

theorem others_drop (q : Nat) (bs : List Broadcast) {i j : Nat} (h : i ≤ j) :
    ∃ before, others q (bs.drop i) = before ++ others q (bs.drop j) := by
  refine ⟨others q ((bs.drop i).take (j-i)),?_⟩
  have hdrop : bs.drop j = (bs.drop i).drop (j-i) := by
    rw [List.drop_drop,Nat.add_sub_cancel' h]
  unfold others
  rw [hdrop,← List.filter_append,List.take_append_drop]

/-- From keyboard to screen. The user of one client has typed lines, the server has got all
that this client wrote for them, and the listener of another client all that the server sent
to it. Then it shows, behind what had been said before the first client joined, everything
that was said since, and in it, in order, a line of chat for each line that was typed after
the first, under the first. -/
theorem typed_shown {q : Nat} {cq : ClientInfo} {kq : Sock} {turns : List Typing}
    {buf : Buf bufSize} {m : ClientMain} {l : Listener} {name : Bytes} {lines : List Bytes}
    (hrun : run step Sys.init acts = .ok s) (hphase : s.phase ≠ .done)
    (hp : Listed s p c k) (hq : Listed s q cq kq) (hpq : p ≠ q) (hjoined : kq.joined ≤ k.joined)
    (hline : ∀ i ∈ turns, i.Line) (hconn : ∀ i ∈ turns, i.Connected)
    (hslash : ∀ l ∈ (typedBytes turns).splitOn 10, l.head? ≠ some 47)
    (hplain : ∀ a i rest m, turns = a ++ i :: rest → run mainTurn (.init buf) a = .ok m →
      Plain m i) (hmain : run mainTurn (.init buf) turns = .ok m)
    (htyped : completedLines (typedBytes turns) = name :: lines)
    (hopen : c.closed = false) (hreceived : received k.trace = m.written)
    (hdirect : directWrites kq.trace = [])
    (hall : ∀ o ∈ offers kq.trace, o.own = false → o.taken = true)
    (hdrained : cq.msgQueue.unsent s.world.packets = [])
    (hrunning : l.phase = .running) (hstays : StaysOpen l.input)
    (harrived : arrived l.input = wire kq.trace) (hblocks : none ∉ l.blocks)
    (htakes : takesEach l.writes
      ((queuedFor s.world.broadcasts kq.trace).map Broadcast.msg) = true) :
    ∃ l' before, clientListen l = .ok l' ∧
      OnScreen (before ++ others q (s.world.broadcasts.drop k.joined)) l l' ∧
      List.Forall₂ (ChatLine (name.take (nameMax-1))) lines
        (saidBy p (others q (s.world.broadcasts.drop k.joined))) := by
  obtain ⟨l',n,hlisten,-,hscreen,hout⟩ :=
    listed_screen hrun hphase hq hdirect hrunning hstays harrived hblocks htakes
  obtain ⟨before,hbefore⟩ := others_drop q s.world.broadcasts hjoined
  rw [List.take_of_length_le (hout hdrained),(listed_delivery hrun hphase hq).complete hall,
    hbefore] at hscreen
  refine ⟨l',before,hlisten,hscreen,?_⟩
  rw [saidBy_others hpq]
  exact listed_typed hrun hphase hp hopen hline hconn hslash hplain hmain hreceived htyped

end Runs

theorem Plain.line {m : ClientMain} {i : Typing} (hlast : i.chunk.getLast? = some 10)
    (hslash : i.chunk.head? ≠ some 47) : Plain m i where
  single := by
    intro hone _
    obtain ⟨b,hb⟩ := List.length_eq_one_iff.mp hone
    rw [hb] at hlast ⊢
    simpa using hlast
  stale := fun h => absurd hlast h
  harmless := fun _ h => absurd h hslash

def Typing.greets : List Typing :=
  [⟨ascii "ann\n",true,true,[.accepts 12,.accepts 7]⟩,
    ⟨ascii "hello\n",true,true,[.accepts 12,.accepts 7]⟩]

/-- The server hears both in one piece while a second client is there. -/
def Action.greets : List Action :=
  connects 2 6 { Oracle.quiet with sends := [.accepts 100] } ++ connects 1 5 .quiet ++
    hears 5 (frame msgTypeNormal (ascii "ann") ++ frame msgTypeNormal (ascii "hello"))

theorem Typing.greets_plain : ∀ i ∈ Typing.greets, i.Line ∧ i.Connected ∧
    i.chunk.getLast? = some 10 ∧ i.chunk.head? ≠ some 47 := by
  intro i hi
  have hwrites : i.writes = [.accepts (6+headerSize),.accepts (6+1)] ∧ i.chunk.length ≤ 6 := by
    simp only [Typing.greets,List.mem_cons,List.not_mem_nil,or_false] at hi
    rcases hi with rfl | rfl <;> exact ⟨rfl,by decide⟩
  refine ⟨?_,Typing.connected_accepts hwrites.1 hwrites.2,?_⟩
  all_goals
    simp only [Typing.greets,List.mem_cons,List.not_mem_nil,or_false] at hi
  · rcases hi with rfl | rfl <;> exact ⟨by decide,by decide,by decide⟩
  · rcases hi with rfl | rfl <;> decide

def mainWrites (turns : List Typing) (bs : Bytes) : Bool :=
  match run mainTurn (.init (.zero _)) turns with
  | .ok m => decide (m.written = bs)
  | .error _ => false

theorem mainWrites_ok {turns : List Typing} {bs : Bytes} (h : mainWrites turns bs = true) :
    ∃ m, run mainTurn (.init (.zero _)) turns = .ok m ∧ m.written = bs := by
  unfold mainWrites at h
  split at h
  · exact ⟨_,‹_›,of_decide_eq_true h⟩
  · cases h

theorem typed_shown_greets : ∃ (s : Sys) (k kq : Sock), run step Sys.init Action.greets = .ok s ∧
    ∃ l' before, clientListen (.hearing (wire kq.trace)) = .ok l' ∧
      OnScreen (before ++ others 2 (s.world.broadcasts.drop k.joined))
        (.hearing (wire kq.trace)) l' ∧
      List.Forall₂ (ChatLine ((ascii "ann").take (nameMax-1))) [ascii "hello"]
        (saidBy 1 (others 2 (s.world.broadcasts.drop k.joined))) := by
  obtain ⟨m,hmain,hwritten⟩ := mainWrites_ok (show mainWrites Typing.greets
    (frame msgTypeNormal (ascii "ann") ++ frame msgTypeNormal (ascii "hello")) = true
      by decide +kernel)
  obtain ⟨s,hrun,c,k,hphase,hlisted,htest⟩ := reaches_listed
    (show reachesListed Action.greets 1 (fun s c k => decide (c.closed = false ∧
      received k.trace = frame msgTypeNormal (ascii "ann") ++ frame msgTypeNormal (ascii "hello") ∧
      k.joined = 0)) = true by decide +kernel)
  obtain ⟨s',hrun',cq,kq,-,hlisted',htest'⟩ := reaches_listed
    (show reachesListed Action.greets 2 (fun s c k => decide (k.joined = 0 ∧
      c.msgQueue.unsent s.world.packets = [] ∧ directWrites k.trace = [] ∧
      (∀ o ∈ offers k.trace, o.own = false → o.taken = true) ∧
      takesEach (Listener.hearing (wire k.trace)).writes
        ((queuedFor s.world.broadcasts k.trace).map Broadcast.msg) = true)) = true
      by decide +kernel)
  rw [hrun] at hrun'
  cases hrun'
  obtain ⟨hopen,hreceived,hjoined⟩ := of_decide_eq_true htest
  obtain ⟨hjoined',hdrained,hdirect,hall,htakes⟩ := of_decide_eq_true htest'
  obtain ⟨hstays,harrived,hblocks⟩ := Listener.hearing_input (wire kq.trace)
  have hplain := Typing.greets_plain
  have htyped : completedLines (typedBytes Typing.greets) = ascii "ann" :: [ascii "hello"] := by
    decide
  have hnone : ∀ l ∈ (typedBytes Typing.greets).splitOn 10, l.head? ≠ some 47 := by decide
  refine ⟨s,k,kq,hrun,?_⟩
  exact typed_shown hrun hphase hlisted hlisted' (by decide) (by rw [hjoined,hjoined'])
    (fun i hi => (hplain i hi).1) (fun i hi => (hplain i hi).2.1) hnone (fun a i rest m he _ => by
      obtain ⟨-,-,hlast,hslash⟩ := hplain i (by rw [he]; simp)
      exact .line hlast hslash) hmain htyped hopen (hreceived.trans hwritten.symm) hdirect hall
    hdrained rfl hstays harrived hblocks htakes

end ChatServer
