import Mathlib.Data.List.Nodup
import ChatServer.RunRefinement
import ChatServer.Sweep

/-! The reap pass at the top of the main loop: its loop over the client list is a
sweep, so a closed client that is moved into a gap survives it. -/
set_option autoImplicit false

namespace ChatServer
open ByteString Memory Execution Sweep

def World.closedFlag (w : World) (p : Nat) : Bool :=
  match w.clients.get p with
  | none => false
  | some c => c.closed

def Room.closedFlag (R : Room) (p : Nat) : Bool := (R.view p).info.closed

def World.Formed (w : World) : Prop := ∃ R, Refines w R ∧ R.mutex = false

theorem run_formed {acts : List Action} {s : Sys} (hrun : run step Sys.init acts = .ok s)
    (hphase : s.phase ≠ .done) : s.world.Formed := by
  obtain ⟨R,htracks,-⟩ := run_tracks hrun hphase
  exact ⟨R,htracks.refines,htracks.mutex⟩

theorem swapRemove_last (pre : List Nat) (p : Nat) : swapRemove (pre ++ [p]) pre.length = pre := by
  simp [swapRemove]

theorem swapRemove_moved (pre rest : List Nat) (p q : Nat) :
    swapRemove (pre ++ p :: (rest ++ [q])) pre.length = pre ++ q :: rest := by
  have hlast : (pre ++ p :: (rest ++ [q])).getLastD 0 = q := by
    rw [List.getLastD_eq_getLast?]
    simp [List.getLast?_cons]
  unfold swapRemove
  rw [hlast,List.set_append_right _ _ (Nat.le_refl _),Nat.sub_self,List.set_cons_zero,
    ← List.cons_append,← List.append_assoc,List.dropLast_concat]

theorem idxOf_middle {pre rest : List Nat} {p : Nat} (h : (pre ++ p :: rest).Nodup) :
    (pre ++ p :: rest).idxOf? p = some pre.length := by
  obtain ⟨i,hi⟩ : ∃ i, (pre ++ p :: rest).idxOf? p = some i := by
    rw [← Option.isSome_iff_exists,List.isSome_idxOf?]
    simp
  obtain ⟨hlt,heq,-⟩ := List.findIdx?_eq_some_iff_getElem.mp hi
  have hpre : pre.length < (pre ++ p :: rest).length := by
    rw [List.length_append,List.length_cons]
    omega
  have hat : (pre ++ p :: rest)[pre.length] = p := by simp
  have heq' : (pre ++ p :: rest)[i] = p := by simpa using heq
  rw [hi,(List.Nodup.getElem_inj_iff h).mp (heq'.trans hat.symm)]

def Shuts (w w' : World) : Prop := ∀ fd, w.socks.get fd = none → w'.socks.get fd = none

theorem Shuts.trans {w w' w'' : World} (h : Shuts w w') (h' : Shuts w' w'') : Shuts w w'' :=
  fun fd hfd => h' fd (h fd hfd)

section Shutting
variable (w : World) (p : Nat)

theorem epollCtlDel_shuts (fd : Nat) : Always (epollCtlDel w fd) (Shuts w) := by
  unfold epollCtlDel World.sock
  cases hk : w.socks.get fd with
  | none => exact True.intro
  | some k =>
    intro f hf
    have hne : f ≠ fd := by
      rintro rfl
      rw [hk] at hf
      cases hf
    exact (Heap.get_set_of_ne _ _ hne).trans hf

theorem removeClientFromList_shuts :
    Always (removeClientFromList w p) (fun res => Shuts w res.1) := by
  unfold removeClientFromList World.lock
  split
  · exact True.intro
  · simp only [ok_bind]
    split
    · have hcleanup : ∀ u : World, Always (cleanupClient u p) (fun res => Shuts u res.1) := by
        intro u
        unfold cleanupClient closeFd
        refine (Always.trivial _).bind (fun c _ => ?_)
        cases hk : u.sock c.clientFd with
        | error e => exact True.intro
        | ok k =>
          have hfree : ∀ f, u.socks.get f = none → (u.socks.free c.clientFd).get f = none := by
            intro f hf
            by_cases hfd : f = c.clientFd
            · rw [hfd]
              exact Heap.get_free_self _ _
            · exact (Heap.get_free_of_ne _ hfd).trans hf
          simp only [ok_bind,pure_eq_ok]
          by_cases hok : k.oracle.closeOk = true
          · simp only [hok,if_true]
            exact hfree
          · simp only [hok]
            exact hfree
      refine (hcleanup _).bind ?_
      rintro ⟨w₁,r⟩ h₁
      simp only
      split <;> exact h₁
    · exact fun _ hf => hf

theorem reapClient_shuts : Always (reapClient w p) (Shuts w) := by
  unfold reapClient
  refine (Always.trivial _).bind (fun c _ => ?_)
  refine (epollCtlDel_shuts w c.clientFd).bind (fun w₁ h₁ => ?_)
  refine Holds.bind (P := Shuts w₁) ?_ ?_
  · refine (freeClientQueue_frame w₁ p).mono (fun w₂ h₂ fd hfd => ?_)
    rw [h₂.2]
    exact hfd
  · intro w₂ h₂
    refine (removeClientFromList_shuts w₂ p).bind ?_
    rintro ⟨w₃,r⟩ h₃
    exact (h₁.trans h₂).trans h₃

theorem reapLoop_shuts (fuel i : Nat) (w : World) : Always (reapLoop fuel i w) (Shuts w) := by
  induction fuel generalizing i w with
  | zero => exact fun _ hf => hf
  | succ fuel ih =>
    unfold reapLoop
    split
    · exact fun _ hf => hf
    · refine (Always.trivial _).bind (fun c _ => ?_)
      split
      · rename_i q _ _ _
        refine (reapClient_shuts w q).bind (fun w₁ h₁ => ?_)
        exact (ih (i+1) w₁).mono (fun w₂ h₂ => h₁.trans h₂)
      · exact ih (i+1) w

end Shutting

section Sweeping
variable {w : World} {R : Room}

/-- Nothing is left of client `p` but perhaps its record, when close failed. -/
def Cleaned (w' : World) (R : Room) (p : Nat) : Prop :=
  w'.socks.get (R.view p).info.clientFd = none ∧
    ((R.view p).sock.oracle.closeOk = true → w'.clients.get p = none)

theorem Cleaned.later {w' : World} {p : Nat} (h : Cleaned w R p) (hshuts : Shuts w w')
    (hkeeps : Keeps none w w') : Cleaned w' R p := by
  refine ⟨hshuts _ h.1,fun hok => ?_⟩
  cases hc : w'.clients.get p with
  | none => rfl
  | some c' =>
    obtain ⟨c,hc',-⟩ := hkeeps.records p c' hc
    rw [h.2 hok] at hc'
    cases hc'

theorem reapLoop_end (fuel i : Nat) (hi : w.clientList[i]? = none) :
    reapLoop fuel i w = .ok w := by
  cases fuel with
  | zero => rfl
  | succ fuel =>
    unfold reapLoop
    rw [hi]
    rfl

variable {pre rest : List Nat} {p : Nat}

theorem reapLoop_step (h : Refines w { R with members := pre ++ p :: rest }) (fuel : Nat) :
    reapLoop (fuel+1) pre.length w = (do
      let w ← if R.closedFlag p = true then reapClient w p else pure w
      reapLoop fuel (pre.length+1) w) := by
  obtain ⟨A,h⟩ := h
  obtain ⟨q,hc,-⟩ := h.access (p := p) (by simp)
  have hget : w.clientList[pre.length]? = some p := by
    rw [h.members]
    simp
  conv_lhs => unfold reapLoop
  simp only [hget,hc,ok_bind]
  rfl

theorem reapClient_at (h : Refines w { R with members := pre ++ p :: rest })
    (hfree : R.mutex = false) :
    ∃ w', reapClient w p = .ok w' ∧
      Refines w' { R with members := swapRemove (pre ++ p :: rest) pre.length } ∧
      Cleaned w' R p := by
  obtain ⟨A,h⟩ := h
  obtain ⟨w',i,hreap,hi,hrep,hsock,hinfo⟩ := reapClient_swaps h (p := p) (by simp) hfree
  have hindex : i = pre.length := Option.some.inj (hi.symm.trans (idxOf_middle h.nodup))
  rw [hindex] at hrep
  exact ⟨w',hreap,⟨A,hrep⟩,hsock,hinfo⟩

/-- The loop, once it has reached the entries `suf`, sweeps them. -/
theorem reapLoop_sweeps (hfree : R.mutex = false) (suf : List Nat) (fuel : Nat) (pre : List Nat)
    (w : World) (h : Refines w { R with members := pre ++ suf }) (hfuel : suf.length ≤ fuel) :
    ∃ w', reapLoop fuel pre.length w = .ok w' ∧
      Refines w' { R with members := pre ++ sweep R.closedFlag suf } ∧
      ∀ p ∈ swept R.closedFlag suf, Cleaned w' R p := by
  induction suf using sweep_induction R.closedFlag generalizing fuel pre w with
  | nil =>
    have hend : w.clientList[pre.length]? = none := by
      obtain ⟨A,h⟩ := h
      rw [h.members]
      simp
    refine ⟨w,reapLoop_end fuel _ hend,?_,by simp [swept]⟩
    simpa [sweep] using h
  | good p rest hopen ih =>
    obtain ⟨fuel,rfl⟩ : ∃ n, fuel = n+1 := Nat.exists_eq_succ_of_ne_zero (by
      simp only [List.length_cons] at hfuel
      omega)
    have hstep := reapLoop_step h fuel
    simp only [hopen,Bool.false_eq_true,if_false,pure_bind] at hstep
    obtain ⟨w',hloop,href,hcleaned⟩ := ih fuel (pre ++ [p]) w (by simpa using h) (by
      simp only [List.length_cons] at hfuel
      omega)
    rw [List.length_append,List.length_singleton] at hloop
    refine ⟨w',hstep.trans hloop,?_,?_⟩
    · rw [sweep_good hopen]
      simpa using href
    · rw [swept_good hopen]
      exact hcleaned
  | last p hclosed =>
    obtain ⟨fuel,rfl⟩ : ∃ n, fuel = n+1 := Nat.exists_eq_succ_of_ne_zero (by
      simp only [List.length_singleton] at hfuel
      omega)
    obtain ⟨w₁,hreap,href,hcleaned⟩ := reapClient_at h hfree
    have hstep := reapLoop_step h fuel
    simp only [hclosed,if_true,hreap,ok_bind] at hstep
    rw [swapRemove_last] at href
    have hend : w₁.clientList[pre.length+1]? = none := by
      obtain ⟨A,hrep⟩ := href
      rw [hrep.members]
      simp
    refine ⟨w₁,hstep.trans (reapLoop_end fuel _ hend),?_,?_⟩
    · rw [sweep_last hclosed]
      simpa using href
    · rw [swept_last hclosed]
      simpa using hcleaned
  | moved p rest q hclosed ih =>
    obtain ⟨fuel,rfl⟩ : ∃ n, fuel = n+1 := Nat.exists_eq_succ_of_ne_zero (by
      simp only [List.length_cons] at hfuel
      omega)
    obtain ⟨w₁,hreap,href,hcleaned⟩ := reapClient_at h hfree
    have hstep := reapLoop_step h fuel
    simp only [hclosed,if_true,hreap,ok_bind] at hstep
    rw [swapRemove_moved] at href
    obtain ⟨w',hloop,href',hlater⟩ := ih fuel (pre ++ [q]) w₁ (by simpa using href) (by
      simp only [List.length_cons,List.length_append] at hfuel
      omega)
    rw [List.length_append,List.length_singleton] at hloop
    refine ⟨w',hstep.trans hloop,?_,?_⟩
    · rw [sweep_bad hclosed]
      simpa using href'
    · rw [swept_bad hclosed]
      intro t ht
      rcases List.mem_cons.mp ht with rfl | ht
      · exact hcleaned.later ((reapLoop_shuts fuel _ w₁).of_ok hloop)
          ((reapLoop_keeps fuel _ w₁).of_ok hloop)
      · exact hlater t ht

end Sweeping

/-- What the pass is for: afterwards no listed client is closed, every open one is
still listed once, and what was removed was closed and is cleaned up. A second
clean-up of one client would be a use after free, which no pass commits. -/
structure ReapsClosed (w w' : World) : Prop where
  gone : ∀ p ∈ w'.clientList, w'.closedFlag p = false
  kept : ∀ p ∈ w.clientList, w.closedFlag p = false → w'.clientList.count p = 1
  removed : ∀ p ∈ w.clientList, p ∉ w'.clientList → w.closedFlag p = true ∧
    w'.clients.get p = none ∧ ∀ c, w.clients.get p = some c → w'.socks.get c.clientFd = none

/-- The pass removes exactly the closed clients if and only if, behind each of
them, at least as many clients are listed as closed ones before it. -/
theorem reapPass_exact_iff {w : World} (h : w.Formed)
    (hclose : ∀ p ∈ w.clientList, ∀ c k, w.clients.get p = some c →
      w.socks.get c.clientFd = some k → k.oracle.closeOk = true) :
    ∃ w', reapPass w = .ok w' ∧ (ReapsClosed w w' ↔ Roomy w.closedFlag w.clientList) := by
  obtain ⟨R,href,hfree⟩ := h
  have hmembers : w.clientList = R.members := href.clientList
  have hflag : ∀ (u : World) (l : List Nat), Refines u { R with members := l } → ∀ p ∈ l,
      u.closedFlag p = R.closedFlag p := by
    rintro u l ⟨A,hrep⟩ p hp
    obtain ⟨q,hc,-⟩ := hrep.owns p hp
    unfold World.closedFlag
    rw [hc]
    rfl
  have hflag₀ := hflag w R.members href
  obtain ⟨w',hloop,href',hcleaned⟩ := reapLoop_sweeps (R := R) hfree R.members
    w.clientList.length [] w href (by rw [hmembers])
  have hflag' := hflag w' _ href'
  have hlist' : w'.clientList = sweep R.closedFlag R.members := href'.clientList
  have hnodup : R.members.Nodup := by
    obtain ⟨A,hrep⟩ := href
    exact hrep.nodup
  have hperm := sweep_perm R.closedFlag R.members
  rw [← hlist'] at hperm
  have hnodup' := hperm.nodup_iff.mp hnodup
  refine ⟨w',hloop,?_,?_⟩
  · intro hexact
    rw [hmembers]
    refine Roomy.congr ((sweep_clean_iff R.members).mp ?_) (fun p hp => (hflag₀ p hp).symm)
    intro p hp
    rw [← hflag' p hp]
    exact hexact.gone p (by rw [hlist']; exact hp)
  · intro hroomy
    rw [hmembers] at hroomy
    have hclean := (sweep_clean_iff R.members).mpr (hroomy.congr hflag₀)
    refine ⟨?_,?_,?_⟩
    · intro p hp
      rw [hlist'] at hp
      rw [hflag' p hp]
      exact hclean p hp
    · intro p hp hopen
      rw [hmembers] at hp
      rw [hflag₀ p hp] at hopen
      refine List.count_eq_one_of_mem hnodup'.of_append_left ?_
      rcases List.mem_append.mp (hperm.mem_iff.mp hp) with hleft | hgone
      · exact hleft
      · have hbad := swept_all_bad R.members p hgone
        rw [hopen] at hbad
        cases hbad
    · intro p hp hgone
      rw [hmembers] at hp
      have hswept : p ∈ swept R.closedFlag R.members := by
        rcases List.mem_append.mp (hperm.mem_iff.mp hp) with hleft | hswept
        · exact absurd hleft hgone
        · exact hswept
      obtain ⟨A,hrep⟩ := href
      obtain ⟨q,hc,hk,-⟩ := hrep.owns p hp
      obtain ⟨hsock,hinfo⟩ := hcleaned p hswept
      refine ⟨(hflag₀ p hp).trans (swept_all_bad R.members p hswept),?_,?_⟩
      · exact hinfo (hclose p (by rw [hmembers]; exact hp) _ _ hc hk)
      · intro c hc'
        rw [hc] at hc'
        cases hc'
        exact hsock

def Action.bothLeave : List Action :=
  connects 1 5 .quiet ++ connects 2 6 .quiet ++
    [.net 5 [] true false,.net 6 [] true false] ++
    turn [.sock 5 ⟨false,false,true,false,false⟩,.sock 6 ⟨false,false,true,false,false⟩] []

theorem reapPass_exact_iff_bothLeave : ∃ s w', run step Sys.init Action.bothLeave = .ok s ∧
    reapPass s.world = .ok w' ∧ ¬ ReapsClosed s.world w' := by
  obtain ⟨s,hrun,htest⟩ := reaches_run
    (show reaches Action.bothLeave (fun s => decide (s.phase ≠ .done ∧ s.world.clientList = [1,2] ∧
      s.world.closedFlag 1 = true ∧ s.world.closedFlag 2 = true ∧
      ∀ p ∈ s.world.clientList, (s.world.clients.get p).all (fun c =>
        (s.world.socks.get c.clientFd).all (fun k => k.oracle.closeOk)) = true)) = true
      by decide +kernel)
  obtain ⟨hphase,hlist,hfirst,hsecond,hok⟩ := of_decide_eq_true htest
  obtain ⟨w',hreap,hiff⟩ := reapPass_exact_iff (run_formed hrun hphase) (by
    intro p hp c k hc hk
    have hsock := hok p hp
    simpa [hc,hk] using hsock)
  refine ⟨s,w',hrun,hreap,fun hexact => ?_⟩
  have hroomy := hiff.mp hexact
  rw [hlist] at hroomy
  have hle := hroomy [1] 2 [] rfl hsecond
  simp [hfirst] at hle

/-- Bob takes ann's place in the list and is passed over. -/
theorem reapPass_skips : ∃ s w', run step Sys.init Action.bothLeave = .ok s ∧ s.phase = .top ∧
    s.world.closedFlag 1 = true ∧ s.world.closedFlag 2 = true ∧ reapPass s.world = .ok w' ∧
    2 ∈ w'.clientList ∧ w'.closedFlag 2 = true := by
  obtain ⟨s,hrun,htest⟩ := reaches_run
    (show reaches Action.bothLeave (fun s => decide (s.phase = .top ∧
      s.world.closedFlag 1 = true ∧ s.world.closedFlag 2 = true) &&
        (reapPass s.world).toOption.any (fun w' =>
          decide (2 ∈ w'.clientList ∧ w'.closedFlag 2 = true))) = true by decide +kernel)
  simp only [Bool.and_eq_true,decide_eq_true_eq] at htest
  obtain ⟨⟨hphase,hfirst,hsecond⟩,hpass⟩ := htest
  obtain ⟨w',hreap,hleft⟩ := toOption_any hpass
  obtain ⟨hlisted,hclosed⟩ := of_decide_eq_true hleft
  exact ⟨s,w',hrun,hphase,hfirst,hsecond,hreap,hlisted,hclosed⟩

end ChatServer
