import ChatServer.Separation

/-! The iterations of the read loop and its calls of `process_payload`: in which
worlds they begin, and what the calls find. -/
set_option autoImplicit false

namespace ChatServer
open ByteString Memory Execution Relation

/-- The worlds in which the read loop for `p`, started in the first one, begins an
iteration. -/
inductive Turns (p : Nat) : World → World → Prop
  | start (w : World) : Turns p w w
  | again {w w' : World} {c c' : ClientInfo} {k k' : Sock} (hc : w.client p = .ok c)
      (hk : w.sock c.clientFd = .ok k) (hturn : readTurn c k = .ok (c',k',.again))
      (h : Turns p (w.put p c' k') w') : Turns p w w'
  | answered {w w₁ w₂ w' : World} {c c' c₂ c₃ : ClientInfo} {k k' : Sock} {copy : Option Bytes}
      {r : Int} (hc : w.client p = .ok c) (hk : w.sock c.clientFd = .ok k)
      (hturn : readTurn c k = .ok (c',k',.deliver copy))
      (hpayload : processPayload (w.put p c' k') p copy = .ok (w₁,r)) (hr : r ≠ -1)
      (hnote : w₁.note p (.verdict r) = .ok w₂) (hc₂ : w₂.client p = .ok c₂)
      (hfinish : finishMessage c₂ = .ok c₃) (h : Turns p (w₂.putClient p c₃) w') : Turns p w w'

theorem Iterates.turns {p : Nat} {w w₁ w' : World} (h : Iterates p w w₁) (ht : Turns p w₁ w') :
    Turns p w w' := by
  cases h with
  | again hc hk hturn => exact .again hc hk hturn ht
  | answered hc hk hturn hpayload hr hnote hc₂ hfinish =>
    exact .answered hc hk hturn hpayload hr hnote hc₂ hfinish ht

/-- What holds where the last iteration begins, and of a world when it holds of the next one,
holds where the loop was started. -/
theorem Turns.rule {p : Nat} {w w' : World} {P : World → Prop} (h : Turns p w w')
    (hlast : P w') (hstep : ∀ u u', Iterates p u u' → P u' → P u) : P w := by
  induction h with
  | start w => exact hlast
  | again hc hk hturn _ ih => exact hstep _ _ (.again hc hk hturn) (ih hlast)
  | answered hc hk hturn hpayload hr hnote hc₂ hfinish _ ih =>
    exact hstep _ _ (.answered hc hk hturn hpayload hr hnote hc₂ hfinish) (ih hlast)

/-- Unless its fuel ends, the loop comes to every iteration that begins. -/
theorem Turns.loop {p : Nat} {w w' : World} (h : Turns p w w') (fuel : Nat) :
    handleClientReadLoop fuel w p = .error .outOfFuel ∨
      ∃ n, handleClientReadLoop fuel w p = handleClientReadLoop (n+1) w' p := by
  refine h.rule (P := fun u => ∀ fuel, handleClientReadLoop fuel u p = .error .outOfFuel ∨
    ∃ n, handleClientReadLoop fuel u p = handleClientReadLoop (n+1) w' p) ?_ ?_ fuel
  · intro fuel
    cases fuel with
    | zero => exact .inl rfl
    | succ fuel => exact .inr ⟨fuel,rfl⟩
  · intro u u' hi ih fuel
    cases fuel with
    | zero => exact .inl rfl
    | succ fuel =>
      rw [loop_once,hi.readOnce]
      exact ih fuel

/-- From the world `w` the read loop for `p` comes to a call of
`process_payload` with `copy` in the world `w'`. -/
inductive Delivers (p : Nat) : World → World → Option Bytes → Prop
  | deliver {w : World} {c c' : ClientInfo} {k k' : Sock} {copy : Option Bytes}
      (hc : w.client p = .ok c) (hk : w.sock c.clientFd = .ok k)
      (hturn : readTurn c k = .ok (c',k',.deliver copy)) : Delivers p w (w.put p c' k') copy
  | again {w w' : World} {c c' : ClientInfo} {k k' : Sock} {copy : Option Bytes}
      (hc : w.client p = .ok c) (hk : w.sock c.clientFd = .ok k)
      (hturn : readTurn c k = .ok (c',k',.again)) (h : Delivers p (w.put p c' k') w' copy) :
      Delivers p w w' copy
  | answered {w w₁ w₂ w' : World} {c c' c₂ c₃ : ClientInfo} {k k' : Sock}
      {handed copy : Option Bytes} {r : Int}
      (hc : w.client p = .ok c) (hk : w.sock c.clientFd = .ok k)
      (hturn : readTurn c k = .ok (c',k',.deliver handed))
      (hpayload : processPayload (w.put p c' k') p handed = .ok (w₁,r)) (hr : r ≠ -1)
      (hnote : w₁.note p (.verdict r) = .ok w₂) (hc₂ : w₂.client p = .ok c₂)
      (hfinish : finishMessage c₂ = .ok c₃) (h : Delivers p (w₂.putClient p c₃) w' copy) :
      Delivers p w w' copy

theorem Delivers.turns {p : Nat} {w w' : World} {copy : Option Bytes} (h : Delivers p w w' copy) :
    ∃ w₁ c k c' k', Turns p w w₁ ∧ w₁.client p = .ok c ∧ w₁.sock c.clientFd = .ok k ∧
      readTurn c k = .ok (c',k',.deliver copy) ∧ w' = w₁.put p c' k' := by
  induction h with
  | deliver hc hk hturn => exact ⟨_,_,_,_,_,.start _,hc,hk,hturn,rfl⟩
  | again hc hk hturn _ ih =>
    obtain ⟨w₁,c₁,k₁,c',k',hturns,hrest⟩ := ih
    exact ⟨w₁,c₁,k₁,c',k',.again hc hk hturn hturns,hrest⟩
  | answered hc hk hturn hpayload hr hnote hc₂ hfinish _ ih =>
    obtain ⟨w₁,c₁,k₁,c',k',hturns,hrest⟩ := ih
    exact ⟨w₁,c₁,k₁,c',k',.answered hc hk hturn hpayload hr hnote hc₂ hfinish hturns,hrest⟩

def deliveryShows : Nat → World → Nat → (Option Bytes → ClientInfo → Sock → Bool) → Bool
  | 0,_,_,_ => false
  | n+1,w,p,test =>
    match w.client p with
    | .error _ => false
    | .ok c =>
      match w.sock c.clientFd with
      | .error _ => false
      | .ok k =>
        match readTurn c k with
        | .ok (c,k,.deliver copy) => test copy c k
        | .ok (c,k,.again) => deliveryShows n (w.put p c k) p test
        | _ => false

theorem deliveryShows_delivers {n : Nat} {w : World} {p : Nat}
    {test : Option Bytes → ClientInfo → Sock → Bool} (h : deliveryShows n w p test = true) :
    ∃ w' copy c k, Delivers p w w' copy ∧ w'.Shows p c k ∧ test copy c k = true := by
  induction n generalizing w with
  | zero => cases h
  | succ n ih =>
    unfold deliveryShows at h
    cases hc : w.client p with
    | error e => simp [hc] at h
    | ok c =>
      cases hk : w.sock c.clientFd with
      | error e => simp [hc,hk] at h
      | ok k =>
        simp only [hc,hk] at h
        cases hturn : readTurn c k with
        | error e => simp [hturn] at h
        | ok res =>
          obtain ⟨c',k',next⟩ := res
          simp only [hturn] at h
          cases next with
          | ret r => cases h
          | again =>
            obtain ⟨w',copy,c₁,k₁,hd,hrest⟩ := ih h
            exact ⟨w',copy,c₁,k₁,.again hc hk hturn hd,hrest⟩
          | deliver copy =>
            refine ⟨_,copy,c',k',.deliver hc hk hturn,⟨?_,?_⟩,h⟩
            · exact Heap.get_set_self _ _ _
            · exact Heap.get_set_self _ _ _

section Rooms
variable {w w' : World} {R : Room} {p : Nat}

theorem worldTurn_refines (h : Refines w R) (hp : p ∈ R.members) {c c' : ClientInfo}
    {k k' : Sock} {next : Next} (hc : w.client p = .ok c) (hk : w.sock c.clientFd = .ok k)
    (hturn : readTurn c k = .ok (c',k',next)) :
    ∃ v, (R.view p).reads next v ∧ Refines (w.put p c' k') (R.set p v) := by
  have href := h
  obtain ⟨A,h⟩ := h
  obtain ⟨q,hc',hk',-,-⟩ := h.access hp
  rw [hc] at hc'
  cases hc'
  have hk'' : w.sock (R.view p).info.clientFd = .ok k := hk
  rw [hk'] at hk''
  cases hk''
  rw [readTurn_withQueue] at hturn
  cases hroom : readTurn (R.view p).info (R.view p).sock with
  | error e =>
    rw [hroom] at hturn
    cases hturn
  | ok res =>
    obtain ⟨i,j,n⟩ := res
    rw [hroom] at hturn
    cases hturn
    obtain ⟨q',hc₂,-,hturn₂,hnext⟩ := readTurn_refines href hp hroom
    have hq : q = q' := by
      rw [hc] at hc₂
      exact congrArg ClientInfo.msgQueue (Except.ok.inj hc₂)
    subst hq
    exact ⟨⟨i,k',(R.view p).queue⟩,⟨hroom,rfl⟩,hnext⟩

theorem Iterates.refines (hi : Iterates p w w') (h : Refines w R) (hp : p ∈ R.members)
    (hfree : R.mutex = false) : ∃ S, R.Iterates p S ∧ Refines w' S :=
  (readOnce_refines h hp hfree).of_ok hi.readOnce

theorem Iterates.act (hi : Iterates p w w') (h : Refines w R) (hp : p ∈ R.members)
    (hfree : R.mutex = false) (hopen : (R.view p).info.closed = false) :
    ∃ S, Act R S ∧ p ∈ S.members ∧ S.mutex = false ∧ (S.view p).info.closed = false ∧
      Refines w' S := by
  obtain ⟨S,hroom,href⟩ := hi.refines h hp hfree
  obtain ⟨hact,hstill⟩ := hroom.act hp hopen
  refine ⟨S,hact,?_,(hroom.mutex hp).trans hfree,hstill,href⟩
  rw [hroom.members hp]
  exact hp

theorem turns_refines (ht : Turns p w w') (h : Refines w R) (hp : p ∈ R.members)
    (hfree : R.mutex = false) (hopen : (R.view p).info.closed = false) :
    ∃ S, ReflTransGen Act R S ∧ p ∈ S.members ∧ S.mutex = false ∧
      (S.view p).info.closed = false ∧ Refines w' S := by
  refine ht.rule (P := fun u => ∀ R, Refines u R → p ∈ R.members → R.mutex = false →
    (R.view p).info.closed = false → ∃ S, ReflTransGen Act R S ∧ p ∈ S.members ∧
      S.mutex = false ∧ (S.view p).info.closed = false ∧ Refines w' S) ?_ ?_ R h hp hfree hopen
  · intro R h hp hfree hopen
    exact ⟨R,.refl,hp,hfree,hopen,h⟩
  · intro u u' hi ih R h hp hfree hopen
    obtain ⟨S,hact,hpS,hfreeS,hopenS,hS⟩ := hi.act h hp hfree hopen
    obtain ⟨T,hrun,hrest⟩ := ih S hS hpS hfreeS hopenS
    exact ⟨T,.head hact hrun,hrest⟩

theorem delivers_refines {copy : Option Bytes} (hd : Delivers p w w' copy) (h : Refines w R)
    (hp : p ∈ R.members) (hfree : R.mutex = false) (hopen : (R.view p).info.closed = false) :
    ∃ S v, ReflTransGen Act R S ∧ p ∈ S.members ∧ S.mutex = false ∧
      (S.view p).info.closed = false ∧ (S.view p).reads (.deliver copy) v ∧
      Refines w' (S.set p v) := by
  obtain ⟨w₁,c,k,c',k',hturns,hc,hk,hturn,rfl⟩ := hd.turns
  obtain ⟨S,hrun,hpS,hfreeS,hopenS,href⟩ := turns_refines hturns h hp hfree hopen
  obtain ⟨v,hreads,hput⟩ := worldTurn_refines href hpS hc hk hturn
  exact ⟨S,v,hrun,hpS,hfreeS,hopenS,hreads,hput⟩

end Rooms

/-- What a call of `process_payload` finds, behind the messages `ms`: the reader
holds the message `whole`, which the bytes so far complete. -/
structure Handed (ms : List Bytes) (whole : Bytes) (c : ClientInfo) (k : Sock)
    (copy : Option Bytes) : Prop where
  naming : Naming c ms
  verdicts : (verdicts k.trace).length = ms.length
  decoded : (decode (fun _ => false) (received k.trace)).messages = ms ++ [whole]
  copied : (copy = some (whole ++ [0]) ∧ Stored c whole) ∨
    (copy = none ∧ .blockFailed ∈ k.trace ∧ Holding c k.trace whole)

section Runs
variable {acts : List Action} {s : Sys} {p : Nat} {c : ClientInfo} {k : Sock}

theorem delivers_handed {w : World} {copy : Option Bytes} (hrun : run step Sys.init acts = .ok s)
    (hphase : s.phase ≠ .done) (h : Listed s p c k) (hopen : c.closed = false)
    (hd : Delivers p s.world w copy) :
    ∃ c' k' ms whole, w.Shows p c' k' ∧ Handed ms whole c' k' copy ∧ p ∈ w.clientList ∧
      ∃ R, Refines w R ∧ R.mutex = false := by
  obtain ⟨R,htracks,hseated,hacts⟩ := run_tracks hrun hphase
  have hnone : ∀ p, p ∉ Room.empty.members := by simp [Room.empty]
  obtain ⟨hp,hseats⟩ := htracks.seats hseated h
  have hopen' : (R.view p).info.closed = false := hseats.closed.trans hopen
  obtain ⟨S,v,hreach,hpS,hfree,hopenS,hreads,href⟩ :=
    delivers_refines hd htracks.refines hp htracks.mutex hopen'
  have hall := hacts.trans hreach
  have hstops := reach_stops hall (fun p hp => absurd hp (hnone p)) p hpS
  rw [hopenS] at hstops
  obtain ⟨ms,hheard,hnaming,hparses⟩ :=
    reach_heard hall (fun p hp => absurd hp (hnone p)) p hpS _ hstops.foretells
  obtain ⟨k₁,bs,whole,htook,hk,hcompletes,hcopy⟩ := readTurn_outcome hreads.1 (hparses hopenS)
  have hframe := (readTurn_frame hreads.1).1
  obtain ⟨q,hshows⟩ := href.shows hpS
  rw [Room.view_set_self] at hshows
  have hreceived : received v.sock.trace = received k₁.trace := by rw [hk]; simp [received]
  have hverdicts : ChatServer.verdicts v.sock.trace = ChatServer.verdicts k₁.trace := by
    rw [hk]
    simp [ChatServer.verdicts]
  refine ⟨_,_,ms,whole,hshows,⟨?_,?_,?_,?_⟩,?_,_,href,hfree⟩
  · exact (hnaming.frame hframe).congr rfl rfl rfl
  · rw [hverdicts]
    exact (hheard.took htook).verdicts
  · have hdone := hcompletes.1 rfl []
    rw [List.append_nil] at hdone
    rw [hreceived,hdone,decodeFrom_short (by decide)]
    simp
  · rcases hcopy with ⟨rfl,hstored⟩ | ⟨rfl,hfailed,hholding⟩
    · exact .inl ⟨rfl,hstored.congr rfl⟩
    · have hmem : ∀ o ∈ k₁.trace, o ∈ v.sock.trace := by
        intro o ho
        rw [hk]
        simp [ho]
      exact .inr ⟨rfl,hmem _ hfailed,hholding.keep rfl hmem⟩
  · rw [href.clientList]
    exact hpS

end Runs

def World.obeys (w : World) (p : Nat) (m : Bytes) : Except Fault (World × Int) :=
  let (cmd,saveptr) := strtokR 32 (cstr m)
  match cmd with
  | none => .error .nullPointer
  | some cmd => do
    let (w,result) ← serverHandleCommand w p (makeLowercase cmd) saveptr
    if result = .disconnect ∨ result = .error then pure (w,-1) else pure (w,0)

def World.chats (w : World) (p : Nat) (c : ClientInfo) (k : Sock) (m : Bytes) :
    Except Fault (World × Int) :=
  let (w,timestamp) := getTimestamp w
  let text := chatText timestamp c.shownName m
  match k.realloc none (timestamp.length+1+c.nameLen+2+m.length+2) with
  | (_,none) => .error .nullPointer
  | (k,some _) => do
    let (w,_) ← broadcast (w.putSock c.clientFd k) (some p) (cstr text)
    pure (w,0)

theorem formatChat_stored {c : ClientInfo} {m : Bytes} (h : Stored c m) (k : Sock)
    (timestamp : Bytes) :
    formatChat c k timestamp =
      match k.realloc none (timestamp.length+1+c.nameLen+2+m.length+2) with
      | (k,none) => .ok (k,none)
      | (k,some _) => .ok (k,some (chatText timestamp c.shownName m ++ [0])) := by
  have hread := h.readBlock (Nat.le_refl c.partialLen)
  rw [List.take_of_length_le (by rw [h.len])] at hread
  have hfits : ¬ (chatText timestamp c.shownName m).length ≥
      timestamp.length+1+c.nameLen+2+m.length+2 := by
    simp only [chatText,ClientInfo.shownName,List.length_append,List.length_cons,List.length_nil,
      List.length_take]
    omega
  unfold formatChat
  rw [h.len]
  rw [h.len] at hread
  rcases hr : k.realloc none (timestamp.length+1+c.nameLen+2+m.length+2) with ⟨k₁,block⟩
  cases block with
  | none => simp only [hr,pure_eq_ok]
  | some new => simp only [hr,hread,ok_bind,hfits,if_false,pure_eq_ok]

theorem processPayload_named {w : World} {p : Nat} {c : ClientInfo} {k : Sock} {m : Bytes}
    (h : w.Shows p c k) (hname : c.hasName = true) (hstored : Stored c m) :
    processPayload w p (some (m ++ [0])) =
      if m.head? = some 47 then w.obeys p m else w.chats p c k m := by
  have hc := World.client_eq_ok h.info
  have hk : (getTimestamp w).1.sock c.clientFd = .ok k := World.sock_eq_ok h.sock
  have hsock := World.sock_eq_ok h.sock
  have hhead : (m ++ [0]).head? = some 47 ↔ m.head? = some 47 := by
    cases m with
    | nil => simp
    | cons b m => simp
  unfold processPayload
  simp only [hc,ok_bind,hname,Bool.true_eq_false,if_false,hhead]
  by_cases hslash : m.head? = some 47
  · rw [if_pos hslash,if_pos hslash,cstr_append_zero]
    rfl
  · rw [if_neg hslash,if_neg hslash]
    unfold formatChatMessage World.chats getTimestamp
    simp only [hc,hsock,ok_bind,formatChat_stored hstored]
    rcases k.realloc none ((strftime (clockTime w.clock)).length+1+c.nameLen+2+m.length+2) with
      ⟨k₁,block⟩
    cases block with
    | none => rfl
    | some new =>
      simp only [ok_bind,pure_eq_ok,cstr_append_zero]

theorem processPayload_unnamed {w w' : World} {p : Nat} {c : ClientInfo} {k : Sock}
    {copy : Option Bytes} {r : Int} (h : w.Shows p c k) (hname : c.hasName = false)
    (hpayload : processPayload w p copy = .ok (w',r)) :
    ∃ i, storeClientName c = .ok i ∧ r = 0 ∧ w' = w.putClient p { i with hasName := true } := by
  have hc := World.client_eq_ok h.info
  unfold processPayload at hpayload
  simp only [hc,ok_bind,hname,if_true] at hpayload
  cases hstore : storeClientName c with
  | error e => simp [hstore] at hpayload
  | ok i =>
    simp only [hstore,ok_bind,pure_eq_ok,Except.ok.injEq,Prod.mk.injEq] at hpayload
    exact ⟨i,rfl,hpayload.2.symm,hpayload.1.symm⟩

end ChatServer
