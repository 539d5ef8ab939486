import ChatServer.Beats
import ChatServer.RunRefinement

/-! EPOLLOUT is armed for exactly the open clients that have something queued,
and what the calls that arm it do to the rest of the interest mask. -/
set_option autoImplicit false

namespace ChatServer
open ByteString Memory Execution Relation

/-- No call of epoll_ctl that changes the mask has failed. -/
def ModsOk (trace : List Obs) : Prop := ∀ on, .epollMod on false ∉ trace

def Unmodified (trace : List Obs) : Prop := ∀ on, .epollMod on true ∉ trace

instance (trace : List Obs) : Decidable (ModsOk trace) :=
  inferInstanceAs (Decidable (∀ _ : Bool, _))

instance (trace : List Obs) : Decidable (Unmodified trace) :=
  inferInstanceAs (Decidable (∀ _ : Bool, _))

def Obs.isMod : Obs → Bool
  | .epollMod _ _ => true
  | _ => false

structure Calm (v v' : View) : Prop where
  registration : v'.sock.registration = v.sock.registration
  enabled : v'.info.epolloutEnabled = v.info.epolloutEnabled
  trace : ∃ more, v'.sock.trace = v.sock.trace ++ more ∧ ∀ o ∈ more, o.isMod = false

namespace Calm
variable {v v' v'' : View}

theorem refl (v : View) : Calm v v := ⟨rfl,rfl,[],by simp,by simp⟩

theorem trans (h : Calm v v') (h' : Calm v' v'') : Calm v v'' :=
  ⟨h'.registration.trans h.registration,h'.enabled.trans h.enabled,grown_trans h.trace h'.trace⟩

theorem note (v : View) {o : Obs} (h : o.isMod = false) : Calm v (v.note o) :=
  ⟨rfl,rfl,[o],rfl,by simpa using h⟩

theorem markClosed (v : View) : Calm v v.markClosed := ⟨rfl,rfl,_,rfl,by simp [Obs.isMod]⟩

theorem dropAlloc (v : View) : Calm v v.dropAlloc := ⟨rfl,rfl,[],by simp [View.dropAlloc],by simp⟩

theorem withSends (v : View) (rest : List SendRes) :
    Calm v { v with sock := v.sock.withSends rest } := ⟨rfl,rfl,[],by simp,by simp⟩

theorem accept (v : View) (path : Path) (bs : Bytes) :
    Calm v { v with sock := v.sock.accept path bs } := by
  unfold Sock.accept
  by_cases hbs : bs = []
  · simpa [hbs] using refl v
  · rw [if_neg hbs]
    exact note v rfl

theorem writeAll (v : View) (buffer : Bytes) :
    Calm v { v with sock := (v.sock.writeAll buffer).1 } :=
  (withSends v (ChatServer.writeAll v.sock.oracle.sends buffer).rest).trans
    (accept _ .direct (ChatServer.writeAll v.sock.oracle.sends buffer).taken)

theorem direct (v : View) (msgType : UInt8) (msg : Bytes) : Calm v (v.direct msgType msg).1 := by
  have hnote : Calm v (v.note (.direct ⟨msgType,msg,v.headOffset,v.info.closed,
    v.sock.oracle.sends⟩)) := note v rfl
  have hheader := hnote.trans (writeAll _ (createHeader msg.length msgType true).bytes)
  have hpayload := hheader.trans (writeAll _ msg)
  unfold View.direct Sock.writeFrame
  simp only
  split
  · exact hheader
  · split
    · exact hpayload
    · exact hpayload

theorem realloc (v : View) (size : Nat) :
    Calm v { v with sock := (v.sock.realloc none size).1 } := by
  refine ⟨(v.sock.realloc_frame none size).same.registration,rfl,?_⟩
  rcases v.sock.realloc_trace none size with ht | ht
  · exact ⟨[],by simp [ht],by simp⟩
  · exact ⟨_,ht,by simp [Obs.isMod]⟩

theorem storeName {v : View} {c : ClientInfo} (h : storeClientName v.info = .ok c) :
    Calm v { v with info := { c with hasName := true } } := by
  obtain ⟨bs,name,-,-,rfl⟩ := storeClientName_eq h
  exact ⟨rfl,rfl,[],by simp,by simp⟩

theorem reads {next : Next} (h : v.reads next v') : Calm v v' := by
  obtain ⟨hinfo,hsock⟩ := readTurn_frame h.1
  obtain ⟨more,htrace,hmore⟩ := readTurn_log h.1
  refine ⟨hsock.registration,hinfo.epolloutEnabled,more,htrace,?_⟩
  intro o ho
  have hturn := hmore o ho
  cases o <;> first | rfl | cases hturn

theorem stop (v : View) (r : Int) : Calm v (v.stop r) := by
  unfold View.stop
  simp only
  split
  · exact (note v rfl).trans (markClosed _)
  · exact note v rfl

theorem answer {r : Int} (h : v.answer r = .ok v') : Calm v v' := by
  have hnote : Calm v (v.note (.verdict r)) := note v rfl
  rcases View.answer_cases h with ⟨-,rfl⟩ | ⟨c,-,hfinish,rfl⟩
  · exact hnote.trans (stop _ _)
  · exact ⟨rfl,(finishMessage_frame hfinish).epolloutEnabled,hnote.trace⟩

end Calm

/-- From `v` to `v'` the mask changed by `epoll_mod.c` only. -/
def Tunes (p : Nat) : View → View → Prop :=
  ReflTransGen (fun v v' => Calm v v' ∨ ∃ on, v' = v.setEpollout on p)

namespace Tunes
variable {p : Nat} {v v' v'' : View}

theorem calm (h : Calm v v') : Tunes p v v' := .single (.inl h)

theorem setEpollout (v : View) (on : Bool) : Tunes p v (v.setEpollout on p) :=
  .single (.inr ⟨on,rfl⟩)

theorem trans (h : Tunes p v v') (h' : Tunes p v' v'') : Tunes p v v'' :=
  ReflTransGen.trans h h'

theorem writes (h : View.Writes p v v') : Tunes p v v' := by
  cases h with
  | @note o ho => exact calm (Calm.note v (by cases o <;> first | rfl | cases ho))
  | close => exact calm ((Calm.note v rfl).trans (Calm.markClosed _))
  | dropAlloc => exact calm (Calm.dropAlloc v)
  | withSends rest => exact calm (Calm.withSends v rest)
  | withQueue queue => exact calm ⟨rfl,rfl,[],by simp,by simp⟩
  | setEpollout on => exact setEpollout v on

theorem written (h : View.Written p v v') : Tunes p v v' := h.keeps (fun _ => .refl) trans writes

theorem served {s s' : Seat} (h : Seat.Served p s s') : Tunes p s.view s'.view := by
  cases h with
  | offer => exact written (.offer _ _ _ _)
  | whisper => exact calm (Calm.direct _ _ _)
  | list => exact calm (Calm.direct _ _ _)
  | listing names => exact calm (Calm.note _ rfl)
  | format size => exact calm (Calm.realloc _ size)
  | name _ hstore => exact calm (Calm.storeName hstore)
  | shutdown => exact .refl

theorem serving {s s' : Seat} (h : ReflTransGen (Seat.Served p) s s') :
    Tunes p s.view s'.view := by
  induction h with
  | refl => exact .refl
  | tail _ hstep ih => exact ih.trans (served hstep)

theorem turn {s s' : Seat} (h : Seat.Turn p s s') : Tunes p s.view s'.view := by
  cases h with
  | served h => exact serving h
  | receive _ hread => exact calm (Calm.reads hread)
  | pause _ hread => exact calm ((Calm.reads hread).trans (Calm.stop _ _))
  | message _ hread hserved _ hanswer =>
    exact ((calm (Calm.reads hread)).trans (serving hserved)).trans (calm (Calm.answer hanswer))
  | write _ => exact written (.sendNow _)
  | hangup _ => exact calm ((Calm.note _ rfl).trans (Calm.markClosed _))
  | arrive => exact calm ⟨rfl,rfl,[],by simp [deliver],by simp⟩
  | plan => exact calm ⟨rfl,rfl,[],by simp,by simp⟩

end Tunes

structure Masked (v : View) : Prop where
  mask : ∃ r, v.sock.registration = some r ∧ r.mask.epollin = true ∧
    r.mask.epollout = v.info.epolloutEnabled ∧
    (r.mask.epollrdhup = true ↔ Unmodified v.sock.trace)

theorem unmodified_append {xs ys : List Obs} :
    Unmodified (xs ++ ys) ↔ Unmodified xs ∧ Unmodified ys := by
  simp only [Unmodified,List.mem_append,not_or]
  exact forall_and

theorem Masked.calm {v v' : View} (h : Masked v) (hcalm : Calm v v') : Masked v' := by
  obtain ⟨r,hr,hin,hout,hrd⟩ := h.mask
  obtain ⟨more,htrace,hmore⟩ := hcalm.trace
  refine ⟨r,hcalm.registration.trans hr,hin,hout.trans hcalm.enabled.symm,hrd.trans ?_⟩
  rw [htrace,unmodified_append]
  have hun : Unmodified more := by
    intro on hmem
    cases hmore _ hmem
  exact ⟨fun h => ⟨h,hun⟩,fun h => h.1⟩

theorem Masked.setEpollout {v : View} (h : Masked v) (on : Bool) (p : Nat) :
    Masked (v.setEpollout on p) := by
  obtain ⟨r,hr,hin,hout,hrd⟩ := h.mask
  unfold View.setEpollout Sock.epollCtlMod
  by_cases he : v.info.epolloutEnabled = on
  · rw [if_pos he]
    exact h
  · rw [if_neg he]
    by_cases hok : (v.sock.registration.isSome && v.sock.oracle.ctls.headD true) = true
    · simp only [hok,if_true]
      refine ⟨_,rfl,rfl,rfl,?_⟩
      have hmod : .epollMod on true ∈ v.sock.trace ++ [.epollMod on true] := by simp
      exact ⟨fun h => absurd h (by simp),fun hun => absurd hmod (hun on)⟩
    · simp only [hok]
      refine ⟨r,hr,hin,hout,hrd.trans ?_⟩
      have hfail : Unmodified [.epollMod on false] := by simp [Unmodified]
      exact ⟨fun hun => unmodified_append.mpr ⟨hun,hfail⟩,fun hun => (unmodified_append.mp hun).1⟩

theorem Masked.tunes {p : Nat} {v v' : View} (h : Masked v) (htunes : Tunes p v v') :
    Masked v' := by
  induction htunes with
  | refl => exact h
  | tail _ hstep ih =>
    rcases hstep with hcalm | ⟨on,rfl⟩
    · exact ih.calm hcalm
    · exact ih.setEpollout on p

theorem Seat.Reachable.masked {p : Nat} {s : Seat} (h : Seat.Reachable p s) : Masked s.view := by
  obtain ⟨s₀,serial,⟨old,fd,junk,oracle,hview⟩,hturns⟩ := h
  have hstart : Masked s₀.view := by
    rw [hview]
    exact ⟨_,rfl,rfl,rfl,by simp [Unmodified]⟩
  induction hturns with
  | refl => exact hstart
  | tail _ hturn ih => exact ih.tunes (Tunes.turn hturn)

/-- The interest mask of a listed client: EPOLLIN, EPOLLOUT as the flag has it,
and EPOLLRDHUP. -/
def MaskKept (c : ClientInfo) (k : Sock) : Prop :=
  k.registration.map Registration.mask = some ⟨true,c.epolloutEnabled,true⟩

/-- The mask keeps its hang-up bit exactly as long as no call of
`enable_epollout_for_client` or `disable_epollout_for_client` has changed it. -/
theorem mask_kept_iff {acts : List Action} {s : Sys} {p : Nat} {c : ClientInfo} {k : Sock}
    (hrun : run step Sys.init acts = .ok s) (hphase : s.phase ≠ .done) (h : Listed s p c k) :
    MaskKept c k ↔ Unmodified k.trace := by
  obtain ⟨seat,hseats⟩ := listed_seats hrun hphase h
  obtain ⟨r,hr,hin,hout,hrd⟩ := hseats.reachable.masked.mask
  have henabled : c.epolloutEnabled = seat.view.info.epolloutEnabled := by
    rw [hseats.info]
    rfl
  rw [← hseats.sock] at hr hrd
  unfold MaskKept
  rw [hr,← hrd,henabled,← hout]
  obtain ⟨⟨i,o,d⟩,ptr⟩ := r
  have hi : i = true := hin
  subst hi
  simp

theorem mask_kept_iff_slowReader : ∃ s c k, run step Sys.init Action.slowReader = .ok s ∧
    Listed s 1 c k ∧ MaskKept c k := by
  obtain ⟨s,hrun,c,k,hphase,hlisted,htest⟩ := reaches_listed
    (show reachesListed Action.slowReader 1 (fun _ _ k => decide (Unmodified k.trace)) = true
      by decide +kernel)
  exact ⟨s,c,k,hrun,hlisted,(mask_kept_iff hrun hphase hlisted).mpr (of_decide_eq_true htest)⟩

/-- The slow reader is armed for EPOLLOUT, and EPOLLRDHUP is gone. -/
theorem mask_lost : ∃ s c k, run step Sys.init Action.slowReader = .ok s ∧ s.phase ≠ .done ∧
    Listed s 2 c k ∧ c.closed = false ∧ ModsOk k.trace ∧ ¬ MaskKept c k := by
  obtain ⟨s,hrun,c,k,hphase,hlisted,htest⟩ := reaches_listed
    (show reachesListed Action.slowReader 2 (fun _ c k => decide (c.closed = false ∧
      ModsOk k.trace ∧ k.registration.map Registration.mask ≠
        some ⟨true,c.epolloutEnabled,true⟩)) = true by decide +kernel)
  obtain ⟨hopen,hmods,hmask⟩ := of_decide_eq_true htest
  exact ⟨s,c,k,hrun,hphase,hlisted,hopen,hmods,hmask⟩

theorem modsOk_append {xs ys : List Obs} : ModsOk (xs ++ ys) ↔ ModsOk xs ∧ ModsOk ys := by
  simp only [ModsOk,List.mem_append,not_or]
  exact forall_and

theorem Tunes.modsOk {p : Nat} {v v' : View} (h : Tunes p v v') (hok : ModsOk v'.sock.trace) :
    ModsOk v.sock.trace := by
  induction h with
  | refl => exact hok
  | @tail u u' _ hstep ih =>
    refine ih ?_
    obtain ⟨more,hmore⟩ : ∃ more, u'.sock.trace = u.sock.trace ++ more := by
      rcases hstep with hcalm | ⟨on,rfl⟩
      · obtain ⟨more,hmore,-⟩ := hcalm.trace
        exact ⟨more,hmore⟩
      · obtain ⟨more,hmore,-⟩ := (Quiet.setEpollout u on p).trace
        exact ⟨more,hmore⟩
    rw [hmore] at hok
    exact (modsOk_append.mp hok).1

/-- An open client waits for EPOLLOUT exactly when something is queued. -/
def Woken (v : View) : Prop :=
  v.info.closed = false → ModsOk v.sock.trace → (v.info.epolloutEnabled = true ↔ v.queue ≠ [])

section Woken
variable {p : Nat} {v v' : View}

theorem setEpollout_enabled (v : View) (on : Bool)
    (hok : ModsOk (v.setEpollout on p).sock.trace) :
    (v.setEpollout on p).info.epolloutEnabled = on := by
  unfold View.setEpollout Sock.epollCtlMod at hok ⊢
  by_cases he : v.info.epolloutEnabled = on
  · rw [if_pos he]
    exact he
  · rw [if_neg he] at hok ⊢
    by_cases hctl : (v.sock.registration.isSome && v.sock.oracle.ctls.headD true) = true
    · simp only [hctl,if_true]
    · simp only [hctl] at hok
      exact absurd (by simp [Sock.note]) (hok on)

theorem setEpollout_queue (v : View) (on : Bool) : (v.setEpollout on p).queue = v.queue := by
  unfold View.setEpollout
  split
  · rfl
  · simp only
    split <;> rfl

/-- `client_try_write` disarms EPOLLOUT when it has drained the queue, and
leaves it alone otherwise. -/
structure Disarmed (v v' : View) : Prop where
  drained : v'.queue = [] → v'.info.epolloutEnabled = false
  left : v'.queue ≠ [] → v'.info.epolloutEnabled = v.info.epolloutEnabled ∧ v.queue ≠ []

theorem tryWriteLoop_disarmed (sends : List SendRes) (v : View) :
    (v.tryWriteLoop p sends).2 = -1 ∨ (ModsOk (v.tryWriteLoop p sends).1.sock.trace →
      Disarmed v (v.tryWriteLoop p sends).1) := by
  have hdrained : ∀ (i : ClientInfo) (k : Sock),
      ModsOk ((View.mk i k []).setEpollout false p).sock.trace →
        Disarmed ⟨i,k,[]⟩ ((View.mk i k []).setEpollout false p) := by
    intro i k hok
    refine ⟨fun _ => setEpollout_enabled _ _ hok,fun hne => ?_⟩
    exact absurd (setEpollout_queue _ _) hne
  have hkept : ∀ (v : View) (k : Sock), v.queue ≠ [] → Disarmed v { v with sock := k } :=
    fun v k hne => ⟨fun h => absurd h hne,fun _ => ⟨rfl,hne⟩⟩
  induction sends generalizing v with
  | nil =>
    obtain ⟨i,k,queue⟩ := v
    cases queue with
    | nil => exact .inr (hdrained i k)
    | cons x q => exact .inr (fun _ => hkept ⟨i,k,x :: q⟩ k (by simp))
  | cons r rest ih =>
    obtain ⟨i,k,queue⟩ := v
    cases queue with
    | nil => exact .inr (hdrained i k)
    | cons x q =>
      have hwiden : ∀ (k' : Sock) (q' : List Pkt) (v' : View),
          Disarmed ⟨i,k',q'⟩ v' → Disarmed ⟨i,k,x :: q⟩ v' :=
        fun k' q' v' h => ⟨h.drained,fun hne => ⟨(h.left hne).1,by simp⟩⟩
      unfold View.tryWriteLoop
      cases r with
      | accepts n =>
        simp only
        split
        · exact .inl rfl
        · split
          · exact (ih _).imp_right (fun h hok => hwiden _ _ _ (h hok))
          · exact (ih _).imp_right (fun h hok => hwiden _ _ _ (h hok))
      | wouldBlock => exact .inr (fun _ => hkept ⟨i,k,x :: q⟩ _ (by simp))
      | interrupted => exact (ih _).imp_right (fun h hok => hwiden _ _ _ (h hok))
      | fails => exact .inl rfl

theorem sendNow_disarmed (v : View) : (v.sendNow p).info.closed = true ∨
    (ModsOk (v.sendNow p).sock.trace → Disarmed v (v.sendNow p)) := by
  have hwrite := tryWriteLoop_disarmed (p := p) v.sock.oracle.sends v
  unfold View.sendNow View.tryWrite
  rcases hloop : v.tryWriteLoop p v.sock.oracle.sends with ⟨v',r⟩
  rw [hloop] at hwrite
  simp only
  by_cases hr : r = -1
  · rw [if_pos hr]
    exact .inl rfl
  · rw [if_neg hr]
    rcases hwrite with hfail | hwrite
    · exact absurd hfail hr
    · exact .inr hwrite

theorem sendNow_woken (h : Woken v) (hopen : v.info.closed = false) : Woken (v.sendNow p) := by
  intro hstill hok
  rcases sendNow_disarmed (p := p) v with hclosed | hdis
  · rw [hstill] at hclosed
    cases hclosed
  · have hold := h hopen ((Tunes.written (p := p) (.sendNow v)).modsOk hok)
    have hnew := hdis hok
    by_cases hq : (v.sendNow p).queue = []
    · rw [hnew.drained hq]
      simp [hq]
    · obtain ⟨henabled,hne⟩ := hnew.left hq
      rw [henabled,hold]
      exact ⟨fun _ => hq,fun _ => hne⟩

/-- Arming makes a client woken whose flag is down when its queue is empty. -/
theorem arm_woken (hempty : v.info.closed = false → ModsOk v.sock.trace → v.queue = [] →
    v.info.epolloutEnabled = false) : Woken (v.arm p) := by
  intro hopen hok
  unfold View.arm at hopen hok ⊢
  by_cases hq : v.queue = []
  · rw [if_pos hq] at hopen hok ⊢
    rw [hempty hopen hok hq]
    simp [hq]
  · rw [if_neg hq] at hopen hok ⊢
    rw [setEpollout_enabled _ _ hok,setEpollout_queue]
    simp [hq]

theorem offer_woken (h : Woken v) (index : Nat) (own : Bool) (msg : Bytes) :
    Woken (v.offer p index own msg) := by
  have hnote : ∀ o : Obs, ModsOk (v.note o).sock.trace → ModsOk v.sock.trace :=
    fun o hok => (modsOk_append.mp hok).1
  have hoffer : Woken (v.noteOffer index own msg.length) :=
    fun hopen hok => h hopen (hnote _ hok)
  unfold View.offer
  simp only
  split
  · exact hoffer
  · rename_i hown
    split
    · exact hoffer
    · split
      · exact hoffer
      · generalize hu : (v.noteOffer index own msg.length).dropAlloc = u
        have hwoken : Woken u := by
          rw [← hu]
          exact hoffer
        split
        · refine arm_woken ?_
          intro hopen hok hq
          have hiff := hwoken hopen hok
          simpa [hq] using hiff
        · split
          · rename_i hdirect
            refine arm_woken ?_
            intro hopen hok hq
            rcases sendNow_disarmed (p := p) (u.enqueue index msg) with hclosed | hdis
            · rw [hopen] at hclosed
              cases hclosed
            · exact (hdis hok).drained hq
          · refine arm_woken ?_
            intro hopen hok hq
            simp [View.enqueue] at hq

theorem calm_woken (h : Woken v) (hcalm : Calm v v') (hqueue : v'.queue = v.queue)
    (hclosed : v.info.closed = true → v'.info.closed = true) : Woken v' := by
  intro hopen hok
  have hopen' : v.info.closed = false := by
    cases hc : v.info.closed with
    | false => rfl
    | true => rw [hclosed hc] at hopen; cases hopen
  obtain ⟨more,hmore,-⟩ := hcalm.trace
  rw [hmore] at hok
  rw [hcalm.enabled,hqueue]
  exact h hopen' (modsOk_append.mp hok).1

theorem served_woken {s s' : Seat} (h : Woken s.view) (hs : Seat.Served p s s') :
    Woken s'.view := by
  cases hs with
  | offer => exact offer_woken h _ _ _
  | whisper => exact calm_woken h (Calm.direct _ _ _) rfl id
  | list => exact calm_woken h (Calm.direct _ _ _) rfl id
  | listing names => exact calm_woken h (Calm.note _ rfl) rfl id
  | format size => exact calm_woken h (Calm.realloc _ size) rfl id
  | name _ hstore =>
    exact calm_woken h (Calm.storeName hstore) rfl (Quiet.storeName hstore).closed
  | shutdown => exact h

theorem serving_woken {s s' : Seat} (h : Woken s.view) (hs : ReflTransGen (Seat.Served p) s s') :
    Woken s'.view := by
  induction hs with
  | refl => exact h
  | tail _ hstep ih => exact served_woken ih hstep

theorem closed_woken (h : v.info.closed = true) : Woken v := by
  intro hopen
  rw [h] at hopen
  cases hopen

theorem reads_woken {next : Next} (h : Woken v) (hread : v.reads next v') : Woken v' :=
  calm_woken h (Calm.reads hread) hread.2
    (fun hc => (readTurn_frame hread.1).1.closed.trans hc)

theorem stop_woken (h : Woken v) (r : Int) : Woken (v.stop r) := by
  unfold View.stop
  simp only
  split
  · exact closed_woken rfl
  · exact calm_woken h (Calm.note v rfl) rfl id

theorem answer_woken {r : Int} (h : Woken v) (hanswer : v.answer r = .ok v') : Woken v' := by
  have hcalm := Calm.answer hanswer
  rcases View.answer_cases hanswer with ⟨-,rfl⟩ | ⟨c,-,hfinish,rfl⟩
  · exact stop_woken (calm_woken h (Calm.note v rfl) rfl id) _
  · exact calm_woken h hcalm rfl (fun hc => (finishMessage_frame hfinish).closed.trans hc)

theorem turn_woken {s s' : Seat} (h : Woken s.view) (hturn : Seat.Turn p s s') :
    Woken s'.view := by
  cases hturn with
  | served hs => exact serving_woken h hs
  | receive _ hread => exact reads_woken h hread
  | pause _ hread => exact stop_woken (reads_woken h hread) _
  | message _ hread hserved _ hanswer =>
    exact answer_woken (serving_woken (reads_woken h hread) hserved) hanswer
  | write hopen => exact sendNow_woken h hopen
  | hangup _ => exact closed_woken rfl
  | arrive => exact h
  | plan => exact h

end Woken

theorem Seat.Reachable.woken {p : Nat} {s : Seat} (h : Seat.Reachable p s) : Woken s.view := by
  obtain ⟨s₀,serial,⟨old,fd,junk,oracle,hview⟩,hturns⟩ := h
  have hstart : Woken s₀.view := by
    intro _ _
    rw [hview]
    simp [clientInfoInit]
  induction hturns with
  | refl => exact hstart
  | tail _ hturn ih => exact turn_woken ih hturn

/-- After every step of the server, an open client waits for EPOLLOUT exactly
when its queue holds something, as long as epoll_ctl has not failed for it. -/
theorem queued_woken {acts : List Action} {s : Sys} {p : Nat} {c : ClientInfo} {k : Sock}
    (hrun : run step Sys.init acts = .ok s) (hphase : s.phase ≠ .done) (h : Listed s p c k)
    (hopen : c.closed = false) (hmods : ModsOk k.trace) :
    c.epolloutEnabled = true ↔ c.msgQueue.head ≠ none := by
  obtain ⟨seat,hseats⟩ := listed_seats hrun hphase h
  obtain ⟨as,hq⟩ := hseats.queue
  have hwoken := hseats.reachable.woken
  have hclosed : c.closed = seat.view.info.closed := by
    rw [hseats.info]
    rfl
  have henabled : c.epolloutEnabled = seat.view.info.epolloutEnabled := by
    rw [hseats.info]
    rfl
  rw [hclosed] at hopen
  rw [hseats.sock] at hmods
  rw [henabled,hwoken hopen hmods,ne_eq,ne_eq,hq.head_none]

theorem queued_woken_slowReader : ∃ s c k, run step Sys.init Action.slowReader = .ok s ∧
    Listed s 2 c k ∧ c.msgQueue.head ≠ none ∧ c.epolloutEnabled = true := by
  obtain ⟨s,hrun,c,k,hphase,hlisted,htest⟩ := reaches_listed
    (show reachesListed Action.slowReader 2 (fun _ c k => decide (c.closed = false ∧
      ModsOk k.trace ∧ c.msgQueue.head ≠ none)) = true by decide +kernel)
  obtain ⟨hopen,hmods,hhead⟩ := of_decide_eq_true htest
  exact ⟨s,c,k,hrun,hlisted,hhead,(queued_woken hrun hphase hlisted hopen hmods).mpr hhead⟩

end ChatServer
