import ChatServer.Handover

/-! Chat and zero bytes: `format_chat_message` copies name and message with
their lengths, but its caller takes the length of the result with `strlen`. -/
set_option autoImplicit false

namespace ChatServer
open ByteString Memory Execution Relation

theorem cstr_eq_iff (bs : Bytes) : cstr bs = bs ↔ (0 : UInt8) ∉ bs := by
  refine ⟨fun h hmem => ?_,cstr_eq_self⟩
  rw [← h] at hmem
  exact zero_not_mem_cstr bs hmem

theorem twoDigits_nonzero {n : Nat} (h : n < 61) : (0 : UInt8) ∉ twoDigits n := by
  have hall : ∀ i : Fin 61, (0 : UInt8) ∉ twoDigits i.val := by decide
  exact hall ⟨n,h⟩

theorem strftime_nonzero (t : Timestamp) : (0 : UInt8) ∉ strftime t := by
  have hh := twoDigits_nonzero (n := t.hour.val) (by omega)
  have hm := twoDigits_nonzero (n := t.minute.val) (by omega)
  have hs := twoDigits_nonzero t.second.isLt
  simp [strftime,hh,hm,hs]

theorem chatText_nonzero {timestamp : Bytes} (h : (0 : UInt8) ∉ timestamp) (name msg : Bytes) :
    (0 : UInt8) ∉ chatText timestamp name msg ↔ (0 : UInt8) ∉ name ∧ (0 : UInt8) ∉ msg := by
  simp [chatText,h]

section Worlds
variable {w : World} {R : Room} {p : Nat} {c : ClientInfo} {k : Sock}

/-- A chat message is broadcast up to its first zero. -/
theorem chats_broadcast (h : Refines w R) (hp : p ∈ R.members) (hfree : R.mutex = false)
    (hshows : w.Shows p c k) (hplenty : Plentiful k) (m : Bytes) :
    ∃ w', w.chats p c k m = .ok (w',0) ∧ w'.broadcasts = w.broadcasts ++
      [Broadcast.mk (some p) (cstr (chatText (getTimestamp w).2 c.shownName m))] := by
  obtain ⟨k₁,new,hr,-⟩ := Sock.realloc_ok (hplenty.grants 0) none
    ((getTimestamp w).2.length+1+c.nameLen+2+m.length+2)
  have hreg := Sock.realloc_registration k none
    ((getTimestamp w).2.length+1+c.nameLen+2+m.length+2)
  rw [hr] at hreg
  obtain ⟨⟨A,htick⟩,-⟩ := getTimestamp_refines h
  obtain ⟨q,hc,hk,-⟩ := htick.owns p hp
  have hinfo : c = (R.view p).info.withQueue q := Option.some.inj (hshows.info.symm.trans hc)
  have hsock : k = (R.view p).sock := by
    have hs := hshows.sock
    rw [hinfo] at hs
    exact Option.some.inj (hs.symm.trans hk)
  have hput := htick.putSock (p := p) (k := k₁) hp (by
    obtain ⟨q',hc',hk',hq',hptr⟩ := htick.access hp
    rw [hreg,hsock]
    exact hptr)
  obtain ⟨w',hcast,A',hrep⟩ := broadcast_refines ⟨A,hput⟩ hfree (some p)
    (cstr (chatText (getTimestamp w).2 c.shownName m))
  have hfd : c.clientFd = (R.view p).info.clientFd := by
    rw [hinfo]
    rfl
  refine ⟨w',?_,?_⟩
  · unfold World.chats
    simp only [hr,hfd]
    have hview : (R.tick.view p).info.clientFd = (R.view p).info.clientFd := rfl
    rw [hview] at hcast
    rw [hcast]
    rfl
  · have hold : w.broadcasts = R.broadcasts := htick.broadcasts
    rw [hrep.broadcasts,hold]
    rfl

end Worlds

section Runs
variable {acts : List Action} {s : Sys} {p : Nat} {c c₁ : ClientInfo} {k k₁ : Sock} {w : World}

/-- A chat message that is handed over is broadcast, and it is broadcast whole
exactly when neither it nor the name of its sender has a zero byte. -/
theorem chat_whole_iff (hrun : run step Sys.init acts = .ok s) (hphase : s.phase ≠ .done)
    (h : Listed s p c k) (hopen : c.closed = false) {m : Bytes}
    (hd : Delivers p s.world w (some (m ++ [0]))) (hshows : w.Shows p c₁ k₁)
    (hname : c₁.hasName = true) (hslash : m.head? ≠ some 47) (hplenty : Plentiful k₁) :
    ∃ w', processPayload w p (some (m ++ [0])) = .ok (w',0) ∧
      c₁.shownName.length = c₁.nameLen ∧
      (w'.broadcasts = w.broadcasts ++
        [Broadcast.mk (some p) (chatText (getTimestamp w).2 c₁.shownName m)] ↔
        (0 : UInt8) ∉ c₁.shownName ∧ (0 : UInt8) ∉ m) := by
  obtain ⟨c₂,k₂,ms,whole,hshows₂,hhanded,hlisted,R,href,hfree⟩ :=
    delivers_handed hrun hphase h hopen hd
  have hc := hshows₂.info
  rw [hshows.info] at hc
  cases hc
  have hstored : Stored c₁ m := by
    rcases hhanded.copied with ⟨heq,hgood⟩ | ⟨hbad,-,-⟩
    · simp only [Option.some.injEq,List.append_cancel_right_eq] at heq
      rw [heq]
      exact hgood
    · cases hbad
  have hp : p ∈ R.members := by
    obtain ⟨A,hrep⟩ := href
    rw [← hrep.members]
    exact hlisted
  obtain ⟨w',hchat,hcast⟩ := chats_broadcast href hp hfree hshows hplenty m
  refine ⟨w',?_,?_,?_⟩
  · rw [processPayload_named hshows hname hstored,if_neg hslash,hchat]
  · have hnaming := hhanded.naming
    cases ms with
    | nil =>
      have hnot : c₁.hasName = false := hnaming
      rw [hname] at hnot
      cases hnot
    | cons first rest =>
      have hlen := hnaming.2.len
      unfold ClientInfo.shownName
      rw [List.length_take,c₁.name.size]
      unfold nameMax at hlen ⊢
      omega
  · have htime : (0 : UInt8) ∉ (getTimestamp w).2 := strftime_nonzero _
    rw [hcast,← chatText_nonzero htime,← cstr_eq_iff]
    simp

def Action.zeroByte : List Action :=
  connects 1 5 .quiet ++ hears 5 (frame msgTypeNormal (ascii "ann")) ++
    [.net 5 (frame msgTypeNormal [97,0,98]) false false]

theorem chat_whole_iff_zeroByte : ∃ s w w' c₁, run step Sys.init Action.zeroByte = .ok s ∧
    Delivers 1 s.world w (some [97,0,98,0]) ∧ w.clients.get 1 = some c₁ ∧
    processPayload w 1 (some [97,0,98,0]) = .ok (w',0) ∧
    w'.broadcasts ≠ w.broadcasts ++
      [Broadcast.mk (some 1) (chatText (getTimestamp w).2 c₁.shownName [97,0,98])] := by
  obtain ⟨s,hrun,c,k,hphase,hlisted,htest⟩ := reaches_listed
    (show reachesListed Action.zeroByte 1 (fun s c _ => decide (c.closed = false) &&
      deliveryShows 3 s.world 1 (fun copy c k => decide (copy = some [97,0,98,0] ∧
        c.hasName = true ∧ ∀ b ∈ k.oracle.blocks, b ≠ none))) = true by decide +kernel)
  simp only [Bool.and_eq_true,decide_eq_true_eq] at htest
  obtain ⟨hopen,hshows⟩ := htest
  obtain ⟨w,copy,c₁,k₁,hd,hshows,htest⟩ := deliveryShows_delivers hshows
  obtain ⟨rfl,hname,hplenty⟩ := of_decide_eq_true htest
  obtain ⟨w',hpayload,-,hiff⟩ := chat_whole_iff (m := [97,0,98]) hrun hphase hlisted hopen hd
    hshows hname (by decide) hplenty
  refine ⟨s,w,w',c₁,hrun,hd,hshows.info,hpayload,fun hwhole => ?_⟩
  exact absurd (hiff.mp hwhole).2 (by decide)

/-- What was broadcast of ann's message ends before its zero byte. -/
theorem chat_cut : ∃ s c k, run step Sys.init
      (Action.zeroByte ++ Action.turn [Action.input 5] []) = .ok s ∧ Listed s 1 c k ∧
    messages k.trace = [some (ascii "ann"),some [97,0,98]] ∧
    s.world.broadcasts = [Broadcast.mk (some 1) (ascii "[00:00:00] ann: a")] ∧
    s.world.broadcasts ≠
      [Broadcast.mk (some 1) (chatText (strftime ⟨0,0,0⟩) (ascii "ann") [97,0,98])] := by
  obtain ⟨s,hrun,c,k,-,hlisted,htest⟩ := reaches_listed
    (show reachesListed (Action.zeroByte ++ Action.turn [Action.input 5] []) 1 (fun s _ k =>
      decide (messages k.trace = [some (ascii "ann"),some [97,0,98]] ∧
        s.world.broadcasts = [Broadcast.mk (some 1) (ascii "[00:00:00] ann: a")])) = true
      by decide +kernel)
  obtain ⟨hmessages,hcast⟩ := of_decide_eq_true htest
  refine ⟨s,c,k,hrun,hlisted,hmessages,hcast,?_⟩
  rw [hcast]
  decide

end Runs
end ChatServer
