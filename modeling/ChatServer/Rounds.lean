import Mathlib.Data.List.Perm.Subperm
import ChatServer.Ledger
import ChatServer.ReapPass

/-! One reap pass after another: what becomes of the closed clients that a pass misses. -/
set_option autoImplicit false

namespace ChatServer
open ByteString Memory Execution Sweep Relation

section Passes
variable {w : World} {R : Room}

theorem closedFlag_eq {l : List Nat} (h : Refines w { R with members := l }) :
    ∀ p ∈ l, w.closedFlag p = R.closedFlag p := by
  obtain ⟨A,h⟩ := h
  intro p hp
  obtain ⟨q,hc,-⟩ := h.owns p hp
  unfold World.closedFlag
  rw [hc]
  rfl

theorem reapPass_sweeps (h : Refines w R) (hfree : R.mutex = false) :
    ∃ w', reapPass w = .ok w' ∧
      Refines w' { R with members := sweep R.closedFlag R.members } := by
  have hlist : w.clientList = R.members := h.clientList
  obtain ⟨w',hloop,href,-⟩ := reapLoop_sweeps (R := R) hfree R.members w.clientList.length [] w h
    (by rw [hlist])
  exact ⟨w',hloop,href⟩

end Passes

def ClosedAt (p i : Nat) (w : World) : Prop :=
  w.clientList[i]? = some p ∧ ∀ c, w.clients.get p = some c → c.closed = true

section Waiting
variable {p i : Nat} {w w' : World}

theorem ClosedAt.listed (h : ClosedAt p i w) : p ∈ w.clientList := List.mem_of_getElem? h.1

theorem ClosedAt.keep {q : Option Nat} (h : ClosedAt p i w) (hk : Keeps q w w')
    (hq : some p ≠ q) (hlist : w'.clientList = w.clientList) : ClosedAt p i w' := by
  refine ⟨by rw [hlist]; exact h.1,?_⟩
  intro c' hc'
  obtain ⟨c,hc,hu⟩ := hk.records p c' hc'
  exact (hu hq).2 (h.2 c hc)

theorem Admits.closedAt {j : Incoming} (htaken : Admits w j w') (hlive : w.clients.get p ≠ none)
    (h : ClosedAt p i w) : ClosedAt p i w' ∧ w'.clients.get p ≠ none := by
  have hi : i < w.clientList.length := by
    have hat := h.1
    rw [List.getElem?_eq_some_iff] at hat
    exact hat.1
  have hkept : w'.clients.get p = w.clients.get p := by
    cases htaken with
    | strayed _ _ _ hclients _ => exact hclients p hlive
    | refused _ _ _ hclients _ => exact hclients p
    | @joined hint old junk _ _ _ hclients _ =>
      rw [hclients,if_neg]
      rintro rfl
      exact hlive (Heap.get_fresh _ _)
  have hlist : w'.clientList[i]? = w.clientList[i]? := by
    cases htaken with
    | strayed _ _ hlist _ _ => rw [hlist]
    | refused _ _ hlist _ _ => rw [hlist]
    | joined _ _ hlist _ _ => rw [hlist,List.getElem?_append_left hi]
  exact ⟨⟨by rw [hlist]; exact h.1,fun c hc => h.2 c (hkept ▸ hc)⟩,by rw [hkept]; exact hlive⟩

theorem dispatch_keeps (w : World) (q : Nat) (bits : EventBits) (accepts : List AcceptRes) :
    Always (dispatch w ⟨.ptr q,bits⟩ accepts) (Keeps (some q) w) := by
  have hclose : ∀ w₁, Keeps (some q) w w₁ → Always (markClosed w₁ q) (Keeps (some q) w) :=
    fun w₁ h₁ => (markClosed_keeps w₁ q).mono (fun w₂ h₂ => h₁.trans h₂.weaken)
  refine dispatch_always (.refl w) (fun w₁ h₁ => hclose w₁ (.of_alike h₁)) ?_ ?_ bits accepts
  · intro c _ _
    exact (handleClientRead_keeps q w).mono (fun res h => ⟨fun _ => hclose res.1 h,fun _ => h⟩)
  · intro w₁ h₁
    refine (clientTryWrite_keeps w₁ q).mono (fun res h => ?_)
    have hboth : Keeps (some q) w res.1 := h₁.trans h.weaken
    exact ⟨hclose res.1 hboth,hboth⟩

theorem dispatch_closed {c : ClientInfo} (hc : w.clients.get p = some c) (hclosed : c.closed = true)
    (bits : EventBits) (accepts : List AcceptRes) :
    dispatch w ⟨.ptr p,bits⟩ accepts = .ok w := by
  unfold dispatch
  simp only [World.client_eq_ok hc,ok_bind,hclosed,if_true]
  rfl

end Waiting

def reaps (s : Sys) : Action → Bool
  | .server _ => decide (s.phase = .top) && !s.world.serverShutdown
  | _ => false

def passes (s : Sys) : List Action → Nat
  | [] => 0
  | a :: rest =>
    match step s a with
    | .error _ => 0
    | .ok s' => passes s' rest+if reaps s a then 1 else 0

section Steps
variable {s s' : Sys} {R : Room} {p i : Nat}

theorem onSock_closedAt {w : World} (h : ClosedAt p i w) (fd : Nat) (f : Sock → Sock) :
    ClosedAt p i (w.onSock fd f) := by
  unfold World.onSock
  split <;> exact h

theorem step_closedAt {a : Action} (h : Tracks s R) (hat : ClosedAt p i s.world)
    (hstep : step s a = .ok s') (hdone : s'.phase ≠ .done) (hno : reaps s a = false) :
    ClosedAt p i s'.world := by
  cases a with
  | net fd bs fin reset =>
    cases hstep
    exact onSock_closedAt hat fd _
  | plan fd oracle =>
    cases hstep
    exact onSock_closedAt hat fd _
  | clock ts =>
    cases hstep
    exact hat
  | server j =>
    have hnot : s.phase ≠ .closing := fun hc => hdone (step_closing hc hstep)
    have hnow : s.phase ≠ .done := fun hc => hdone (step_done hc hstep)
    unfold step at hstep
    cases hphase : s.phase with
    | closing => exact absurd hphase hnot
    | done => exact absurd hphase hnow
    | top =>
      have hshut : s.world.serverShutdown = true := by
        simpa [reaps,hphase] using hno
      simp only [hphase,hshut,if_true] at hstep
      cases hb : broadcast s.world none shutdownMessage with
      | error e => simp [hb] at hstep
      | ok res =>
        simp only [hb,ok_bind] at hstep
        cases hstep
        exact hat.keep ((broadcast_keeps s.world none shutdownMessage).of_ok hb) (by simp)
          (moves_list ((broadcast_moves s.world none shutdownMessage).of_ok hb))
    | batch es =>
      cases es with
      | nil =>
        simp only [hphase] at hstep
        cases hstep
        exact hat
      | cons e es =>
        simp only [hphase] at hstep
        cases hd : dispatch s.world e j.accepts with
        | error e => simp [hd] at hstep
        | ok w =>
          simp only [hd,ok_bind] at hstep
          cases hstep
          obtain ⟨data,bits⟩ := e
          cases data with
          | listen =>
            unfold dispatch at hd
            simp only at hd
            cases hacc : acceptNewClients j.accepts s.world with
            | error e => simp [hacc] at hd
            | ok res =>
              have hres := (acceptNewClients_rule
                (I := fun w => ClosedAt p i w ∧ w.clients.get p ≠ none) j.accepts
                (fun _ w w' _ hw htaken => htaken.closedAt hw.2 hw.1)
                ⟨hat,h.live p hat.listed⟩).of_ok hacc
              simp only [hacc,ok_bind] at hd
              cases hd
              exact hres.1
          | ptr q =>
            have hq := h.batch _ hphase ⟨.ptr q,bits⟩ (by simp) q rfl
            rw [← h.refines.clientList] at hq
            by_cases hpq : p = q
            · subst hpq
              obtain ⟨c,hc⟩ := Option.ne_none_iff_exists'.mp (h.live p hat.listed)
              rw [dispatch_closed hc (hat.2 c hc)] at hd
              cases hd
              exact hat
            · exact hat.keep ((dispatch_keeps s.world q bits j.accepts).of_ok hd)
                (by simpa using hpq)
                (moves_list ((dispatch_moves s.world hq bits j.accepts).of_ok hd))

theorem step_sweeps {a : Action} (h : Tracks s R) (hstep : step s a = .ok s')
    (hreaps : reaps s a = true) :
    Refines s'.world { R with members := sweep R.closedFlag R.members } := by
  cases a with
  | net => cases hreaps
  | plan => cases hreaps
  | clock => cases hreaps
  | server j =>
    simp only [reaps,Bool.and_eq_true,decide_eq_true_eq,Bool.not_eq_true'] at hreaps
    obtain ⟨htop,hshut⟩ := hreaps
    obtain ⟨w',hreap,href⟩ := reapPass_sweeps h.refines h.mutex
    unfold step at hstep
    simp only [htop,hshut,Bool.false_eq_true,if_false,hreap,ok_bind] at hstep
    split at hstep <;>
    · cases hstep
      exact href

/-- A reap pass removes a closed client or moves it towards the front. -/
theorem step_rises {a : Action} (h : Tracks s R) (hat : ClosedAt p i s.world)
    (hstep : step s a = .ok s') (hreaps : reaps s a = true) :
    p ∉ s'.world.clientList ∨ ∃ j, j < i ∧ ClosedAt p j s'.world := by
  have href := step_sweeps h hstep hreaps
  have hlist : s.world.clientList = R.members := h.refines.clientList
  have hlist' : s'.world.clientList = sweep R.closedFlag R.members := href.clientList
  have hp : p ∈ R.members := hlist ▸ hat.listed
  have hflag : R.closedFlag p = true := by
    obtain ⟨c,hc⟩ := Option.ne_none_iff_exists'.mp (h.live p hat.listed)
    rw [← closedFlag_eq h.refines p hp]
    unfold World.closedFlag
    rw [hc]
    exact hat.2 c hc
  have hat' := hat.1
  rw [hlist] at hat'
  rcases sweep_rises R.members hat' hflag with hgone | ⟨t,ht,hmoved⟩
  · left
    rw [hlist']
    intro hin
    have hnodup : R.members.Nodup := by
      obtain ⟨A,hrep⟩ := h.refines
      exact hrep.nodup
    have hboth := (sweep_perm R.closedFlag R.members).nodup_iff.mp hnodup
    exact (List.nodup_append.mp hboth).2.2 p hin p hgone rfl
  · refine .inr ⟨t,ht,by rw [hlist']; exact hmoved,?_⟩
    intro c hc
    have hkept := closedFlag_eq href p (List.mem_of_getElem? hmoved)
    rw [hflag] at hkept
    unfold World.closedFlag at hkept
    rw [hc] at hkept
    exact hkept

end Steps

theorem run_next {acts rest : List Action} {a : Action} {s s' : Sys}
    (hrun : run step Sys.init acts = .ok s) (hrun' : run step s (a :: rest) = .ok s')
    (hphase : s'.phase ≠ .done) : ∃ t R, step s a = .ok t ∧ run step t rest = .ok s' ∧
      run step Sys.init (acts ++ [a]) = .ok t ∧ Tracks s R ∧ t.phase ≠ .done := by
  rw [run_cons] at hrun'
  cases hstep : step s a with
  | error e =>
    rw [hstep] at hrun'
    cases hrun'
  | ok t =>
    rw [hstep] at hrun'
    have hrest : run step t rest = .ok s' := hrun'
    have hdone : t.phase ≠ .done := fun hd => hphase (run_done hd hrest)
    have hnow : s.phase ≠ .done := fun hd => hdone (step_done hd hstep)
    obtain ⟨R,htracks,-,-⟩ := run_tracks hrun hnow
    refine ⟨t,R,rfl,hrest,?_,htracks,hdone⟩
    rw [run_append,hrun]
    simp only [Except.bind,run_cons,hstep,run_nil]

/-- Whatever else happens in between, a closed client at place `i` of the list is gone
after `i+1` reap passes. -/
theorem closed_reaped {acts acts' : List Action} {s s' : Sys} {p i : Nat}
    (hrun : run step Sys.init acts = .ok s) (hrun' : run step s acts' = .ok s')
    (hphase : s'.phase ≠ .done) (hat : s.world.clientList[i]? = some p)
    (hclosed : s.world.closedFlag p = true) (hpasses : i < passes s acts') :
    ∃ before after t, acts' = before ++ after ∧ run step s before = .ok t ∧
      p ∉ t.world.clientList := by
  have hplace : ClosedAt p i s.world := by
    refine ⟨hat,fun c hc => ?_⟩
    unfold World.closedFlag at hclosed
    rw [hc] at hclosed
    exact hclosed
  clear hat hclosed
  induction acts' generalizing acts s i with
  | nil =>
    unfold passes at hpasses
    omega
  | cons a rest ih =>
    obtain ⟨t,R,hstep,hrest,hthere,htracks,hdone⟩ := run_next hrun hrun' hphase
    unfold passes at hpasses
    rw [hstep] at hpasses
    simp only at hpasses
    have hlater : ∀ j, ClosedAt p j t.world → j < passes t rest →
        ∃ before after u, a :: rest = before ++ after ∧ run step s before = .ok u ∧
          p ∉ u.world.clientList :=
      fun j hj hlt => run_meets_later hstep (ih hthere hrest hlt hj)
    by_cases hreaps : reaps s a = true
    · rw [if_pos hreaps] at hpasses
      rcases step_rises htracks hplace hstep hreaps with hgone | ⟨j,hj,hmoved⟩
      · refine ⟨[a],rest,t,rfl,?_,hgone⟩
        rw [run_cons,hstep]
        rfl
      · exact hlater j hmoved (by omega)
    · rw [if_neg hreaps] at hpasses
      exact hlater i (step_closedAt htracks hplace hstep hdone (by simpa using hreaps)) hpasses

def Action.catJoins : List Action :=
  connects 3 7 .quiet ++ hears 7 (frame msgTypeNormal (ascii "cat"))

theorem closed_reaped_bothLeave : ∃ s before after t, run step Sys.init Action.bothLeave = .ok s ∧
    s.world.clientList[1]? = some 2 ∧ Action.catJoins = before ++ after ∧
      run step s before = .ok t ∧ 2 ∉ t.world.clientList := by
  obtain ⟨s,hrun,htest⟩ := reaches_run
    (show reaches Action.bothLeave (fun s => decide (s.world.clientList[1]? = some 2 ∧
      s.world.closedFlag 2 = true ∧ passes s Action.catJoins = 2 ∧
      (run step s Action.catJoins).toOption.any (fun t => decide (t.phase ≠ .done)) = true))
      = true by decide +kernel)
  obtain ⟨hat,hclosed,hpasses,hlater⟩ := of_decide_eq_true htest
  obtain ⟨s',hrun',hphase⟩ := toOption_any hlater
  obtain ⟨before,after,t,hsplit,ht,hgone⟩ := closed_reaped hrun hrun' (of_decide_eq_true hphase) hat
    hclosed (by omega)
  exact ⟨s,before,after,t,hrun,hat,hsplit,ht,hgone⟩

def World.closedClients (w : World) : List Nat := w.clientList.filter w.closedFlag

/-- How many clients a run marks as closed, step by step. -/
def marks (s : Sys) : List Action → Nat
  | [] => 0
  | a :: rest =>
    match step s a with
    | .error _ => 0
    | .ok s' => marks s' rest+
      (s'.world.closedClients.filter (fun p => decide (p ∉ s.world.closedClients))).length

section Counting
variable {s s' : Sys} {R : Room}

theorem closedClients_eq {w : World} {l : List Nat} (h : Refines w { R with members := l }) :
    w.closedClients = l.filter R.closedFlag := by
  have hlist : w.clientList = l := h.clientList
  unfold World.closedClients
  rw [hlist]
  exact List.filter_congr (closedFlag_eq h)

theorem step_halves {a : Action} (h : Tracks s R) (hstep : step s a = .ok s')
    (hreaps : reaps s a = true) :
    s'.world.closedClients.length ≤ s.world.closedClients.length/2 := by
  have hhalf := sweep_half R.closedFlag R.members
  rw [closedClients_eq (step_sweeps h hstep hreaps),closedClients_eq (R := R) h.refines]
  omega

theorem closedClients_grow (h : s'.world.clientList.Nodup) :
    s'.world.closedClients.length ≤ s.world.closedClients.length+
      (s'.world.closedClients.filter (fun p => decide (p ∉ s.world.closedClients))).length := by
  have hnodup : s'.world.closedClients.Nodup := h.filter _
  have hold : (s'.world.closedClients.filter (fun p => decide (p ∈ s.world.closedClients))).length ≤
      s.world.closedClients.length := by
    refine (List.subperm_of_subset (hnodup.filter _) fun p hp => ?_).length_le
    simpa using (List.mem_filter.mp hp).2
  have hsplit := List.length_eq_length_filter_add (l := s'.world.closedClients)
    (fun p => decide (p ∈ s.world.closedClients))
  simp only [decide_not]
  omega

theorem Admits.grows {w w' : World} {j : Incoming} (htaken : Admits w j w') :
    ∃ more, w'.clientList = w.clientList ++ more := by
  cases htaken with
  | strayed _ _ hlist _ _ => exact ⟨[],by rw [hlist,List.append_nil]⟩
  | refused _ _ hlist _ _ => exact ⟨[],by rw [hlist,List.append_nil]⟩
  | joined _ _ hlist _ _ => exact ⟨_,hlist⟩

theorem step_list {a : Action} (h : Tracks s R) (hstep : step s a = .ok s')
    (hdone : s'.phase ≠ .done) (hno : reaps s a = false) :
    ∃ more, s'.world.clientList = s.world.clientList ++ more := by
  cases a with
  | net fd bs fin reset =>
    cases hstep
    exact ⟨[],by rw [(onSock_list _ _ _).2,List.append_nil]⟩
  | plan fd oracle =>
    cases hstep
    exact ⟨[],by rw [(onSock_list _ _ _).2,List.append_nil]⟩
  | clock ts =>
    cases hstep
    exact ⟨[],(List.append_nil _).symm⟩
  | server j =>
    have hclosing : s.phase ≠ .closing := fun hc => hdone (step_closing hc hstep)
    refine step_keeps (I := fun w => ∃ more, w.clientList = s.world.clientList ++ more) h
      (fun _ w hw => ⟨[],by rw [moves_list hw,List.append_nil]⟩) ?_ ?_ hclosing hstep
    · intro htop hopen
      simp [reaps,htop,hopen] at hno
    · refine acceptNewClients_rule (I := fun w => ∃ more, w.clientList = s.world.clientList ++ more)
        j.accepts (fun _ w w' _ hw htaken => ?_) ⟨[],(List.append_nil _).symm⟩
      obtain ⟨more,hmore⟩ := hw
      obtain ⟨joined,hjoined⟩ := htaken.grows
      exact ⟨more ++ joined,by rw [hjoined,hmore,List.append_assoc]⟩

theorem step_lists {a : Action} (h : Tracks s R) (hstep : step s a = .ok s')
    (hdone : s'.phase ≠ .done) {p : Nat} (hp : p ∈ s.world.clientList) :
    p ∈ s'.world.clientList ∨ p ∈ s.world.closedClients := by
  by_cases hreaps : reaps s a = true
  · have href := step_sweeps h hstep hreaps
    have hlist : s'.world.clientList = sweep R.closedFlag R.members := href.clientList
    rw [h.refines.clientList] at hp
    rw [hlist,closedClients_eq (R := R) h.refines]
    rcases List.mem_append.mp ((sweep_perm R.closedFlag R.members).mem_iff.mp hp) with hin | hgone
    · exact .inl hin
    · exact .inr (List.mem_filter.mpr ⟨hp,swept_all_bad _ p hgone⟩)
  · refine .inl ?_
    obtain ⟨more,hmore⟩ := step_list h hstep hdone (by simpa using hreaps)
    rw [hmore]
    exact List.mem_append_left _ hp

/-- Each reap pass of a run halves the closed clients; what the run marks comes on top. -/
theorem run_halves {acts acts' : List Action} (hrun : run step Sys.init acts = .ok s)
    (hrun' : run step s acts' = .ok s') (hphase : s'.phase ≠ .done) :
    s'.world.closedClients.length ≤
      s.world.closedClients.length/2^(passes s acts')+marks s acts' := by
  induction acts' generalizing acts s with
  | nil =>
    cases hrun'
    simp [passes,marks]
  | cons a rest ih =>
    obtain ⟨t,R,hstep,hrest,hthere,htracks,hdone⟩ := run_next hrun hrun' hphase
    have hlater := ih hthere hrest
    obtain ⟨R',htracks',-,-⟩ := run_tracks hthere hdone
    have hnodup : t.world.clientList.Nodup := by
      obtain ⟨A,hrep⟩ := htracks'.refines
      rw [htracks'.refines.clientList]
      exact hrep.nodup
    have hgrow := closedClients_grow (s := s) hnodup
    unfold passes marks
    rw [hstep]
    simp only
    generalize hnew : (t.world.closedClients.filter
      (fun p => decide (p ∉ s.world.closedClients))).length = new at hgrow ⊢
    by_cases hreaps : reaps s a = true
    · rw [if_pos hreaps,Nat.pow_succ,Nat.mul_comm,← Nat.div_div_eq_div_mul]
      have hhalf := Nat.div_le_div_right (c := 2^(passes t rest))
        (step_halves htracks hstep hreaps)
      omega
    · rw [if_neg hreaps,Nat.add_zero]
      have hpos : 0 < 2^(passes t rest) := Nat.two_pow_pos _
      have hmore : t.world.closedClients.length/2^(passes t rest) ≤
          s.world.closedClients.length/2^(passes t rest)+new :=
        calc t.world.closedClients.length/2^(passes t rest)
            ≤ (s.world.closedClients.length+new*2^(passes t rest))/2^(passes t rest) :=
              Nat.div_le_div_right (hgrow.trans
                (Nat.add_le_add_left (Nat.le_mul_of_pos_right _ hpos) _))
          _ = s.world.closedClients.length/2^(passes t rest)+new :=
              Nat.add_mul_div_right _ _ hpos
      omega

theorem run_lists {acts acts' : List Action} (hrun : run step Sys.init acts = .ok s)
    (hrun' : run step s acts' = .ok s') (hphase : s'.phase ≠ .done) {p : Nat}
    (hp : p ∈ s.world.clientList) : p ∈ s'.world.clientList ∨
      ∃ before after t, acts' = before ++ after ∧ run step s before = .ok t ∧
        p ∈ t.world.closedClients := by
  induction acts' generalizing acts s with
  | nil =>
    cases hrun'
    exact .inl hp
  | cons a rest ih =>
    obtain ⟨t,R,hstep,hrest,hthere,htracks,hdone⟩ := run_next hrun hrun' hphase
    rcases step_lists htracks hstep hdone hp with hstays | hclosed
    · exact (ih hthere hrest hstays).imp_right (run_meets_later hstep)
    · exact .inr ⟨[],a :: rest,s,rfl,rfl,hclosed⟩

end Counting

/-- Whatever happens in between, each reap pass at least halves the closed clients of the
list, and no other client is taken off it. -/
theorem closed_halved {acts acts' : List Action} {s s' : Sys}
    (hrun : run step Sys.init acts = .ok s) (hrun' : run step s acts' = .ok s')
    (hphase : s'.phase ≠ .done) :
    (s'.world.closedClients.length ≤
      s.world.closedClients.length/2^(passes s acts')+marks s acts') ∧
    (marks s acts' = 0 → s.world.closedClients.length < 2^(passes s acts') →
      ∀ p ∈ s'.world.clientList, s'.world.closedFlag p = false) ∧
    ∀ p ∈ s.world.clientList, p ∈ s'.world.clientList ∨
      ∃ before after t, acts' = before ++ after ∧ run step s before = .ok t ∧
        p ∈ t.world.closedClients := by
  have hhalves := run_halves hrun hrun' hphase
  refine ⟨hhalves,?_,fun p hp => run_lists hrun hrun' hphase hp⟩
  intro hmarks hfew p hp
  rw [hmarks,Nat.div_eq_of_lt hfew] at hhalves
  have hnone : s'.world.closedClients = [] := List.length_eq_zero_iff.mp (by omega)
  simpa using List.filter_eq_nil_iff.mp hnone p hp

theorem closed_halved_bothLeave : ∃ s s', run step Sys.init Action.bothLeave = .ok s ∧
    s.world.closedClients = [1,2] ∧ run step s Action.catJoins = .ok s' ∧
    ∀ p ∈ s'.world.clientList, s'.world.closedFlag p = false := by
  obtain ⟨s,hrun,htest⟩ := reaches_run
    (show reaches Action.bothLeave (fun s => decide (s.world.closedClients = [1,2] ∧
      marks s Action.catJoins = 0 ∧ passes s Action.catJoins = 2 ∧
      (run step s Action.catJoins).toOption.any (fun t => decide (t.phase ≠ .done)) = true))
      = true by decide +kernel)
  obtain ⟨hclosed,hmarks,hpasses,hlater⟩ := of_decide_eq_true htest
  obtain ⟨s',hrun',hphase⟩ := toOption_any hlater
  obtain ⟨-,hclean,-⟩ := closed_halved hrun hrun' (of_decide_eq_true hphase)
  exact ⟨s,s',hrun,hclosed,hrun',hclean hmarks (by rw [hclosed,hpasses]; decide)⟩

end ChatServer
