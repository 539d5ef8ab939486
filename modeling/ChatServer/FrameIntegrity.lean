import Mathlib.Data.List.Perm.Subperm
import ChatServer.Beats
import ChatServer.RunRefinement

/-! Frames on a client's socket. The queue and the direct senders share it, and
only the queue remembers where a frame was interrupted. -/
set_option autoImplicit false

namespace ChatServer
open ByteString Memory Execution Outbox

/-- What the kernel took is the beginning of a sequence of whole frames, which
were issued to this client, each used once. -/
def FramesIntact (trace : List Obs) : Prop :=
  ∃ fs, List.Subperm fs (issued trace) ∧ wire trace <+: fs.flatten ∧ ∀ f ∈ fs, WellFormed f

namespace DirectWrite

/-- The direct write puts nothing on the wire, or it starts between two frames
and puts its whole frame there. -/
def Clean (d : DirectWrite) : Prop :=
  d.blocked = true ∨ (d.headOffset = 0 ∧ d.whole = true ∧ d.payload.length < 2^32)

instance (d : DirectWrite) : Decidable d.Clean :=
  inferInstanceAs (Decidable (_ ∨ _))

def frame (d : DirectWrite) : Bytes := ChatServer.frame d.msgType d.payload

end DirectWrite

def headSent (queue : List Pkt) : Bytes :=
  match queue with
  | [] => []
  | x :: _ => x.sent

/-- The wire ends inside the head of the queue, or between two frames. -/
structure Framed (b : Outbox) (fs : List Bytes) : Prop where
  wire_eq : wire b.trace = fs.flatten ++ headSent b.queue
  fresh : ∀ x ∈ b.queue.tail, x.sent = []
  distinct : List.Subperm (fs ++ b.queue.map Pkt.data) (issued b.trace)
  formed : ∀ f ∈ fs ++ b.queue.map Pkt.data, WellFormed f

theorem Pkt.advance_data (x : Pkt) (n : Nat) (h : n < x.unsent.length) :
    (x.advance n h).data = x.data := by
  unfold Pkt.advance Pkt.data
  rw [List.append_assoc,List.take_append_drop]

namespace Framed
variable {p : Nat} {b b' : Outbox} {fs : List Bytes}

theorem blank (hb : b.Blank) : Framed b [] := by
  obtain ⟨htrace,hqueue,-,-⟩ := hb
  refine ⟨?_,?_,?_,?_⟩
  · simp [htrace,hqueue,wire,headSent]
  · simp [hqueue]
  · simp [htrace,hqueue]
  · simp [hqueue]

theorem log (h : Framed b fs) {l : List Obs} (hwire : wire l = []) :
    Framed (b.log l) fs := by
  refine ⟨?_,h.fresh,?_,h.formed⟩
  · simpa [Outbox.log,hwire] using h.wire_eq
  · rw [Outbox.log,issued_append]
    exact h.distinct.trans (List.sublist_append_left _ _).subperm

theorem push (h : Framed b fs) {l : List Obs} {c : Broadcast} (hwire : wire l = [])
    (hissued : issued l = [ChatServer.frame msgTypeNormal c.msg]) (hlen : c.msg.length < 2^32) :
    Framed { b.log l with queue := b.queue ++ [newPkt c] } fs := by
  have hdata : (newPkt c).data = ChatServer.frame msgTypeNormal c.msg := by
    simp [newPkt,Pkt.data]
  refine ⟨?_,?_,?_,?_⟩
  · have hhead : headSent (b.queue ++ [newPkt c]) = headSent b.queue := by
      cases b.queue with
      | nil => rfl
      | cons x q => rfl
    simpa [Outbox.log,hwire,hhead] using h.wire_eq
  · intro x hx
    cases hq : b.queue with
    | nil => simp [hq] at hx
    | cons y q =>
      simp only [hq,List.cons_append,List.tail_cons,List.mem_append,List.mem_singleton] at hx
      rcases hx with hx | rfl
      · exact h.fresh x (by simpa [hq] using hx)
      · rfl
  · simp only [Outbox.log,issued_append,hissued,List.map_append,List.map_cons,List.map_nil,hdata]
    rw [← List.append_assoc]
    exact (List.subperm_append_right _).mpr h.distinct
  · intro f hf
    simp only [List.map_append,List.map_cons,List.map_nil,hdata,← List.append_assoc] at hf
    rcases List.mem_append.mp hf with hf | hf
    · exact h.formed f hf
    · rw [List.mem_singleton.mp hf]
      exact frame_wellFormed _ hlen

theorem direct (h : Framed b fs) {d : DirectWrite} (hoffset : b.headOffset = 0)
    (hwhole : d.whole = true) (hlen : d.payload.length < 2^32) :
    Framed (b.log ([.direct d] ++ sentObs .direct d.first.taken ++ sentObs .direct d.second))
      (fs ++ [d.frame]) := by
  obtain ⟨hfirst,hsecond⟩ := d.whole_writes hwhole
  have hhead : headSent b.queue = [] := by
    unfold Outbox.headOffset at hoffset
    cases hq : b.queue with
    | nil => rfl
    | cons x q =>
      simp only [hq,List.length_eq_zero_iff] at hoffset
      exact hoffset
  have hissued : issued ([.direct d] ++ sentObs .direct d.first.taken ++
      sentObs .direct d.second) = [d.frame] := by
    rw [issued_append,issued_append,issued_sentObs,issued_sentObs]
    rfl
  have hperm : ((fs ++ [d.frame]) ++ b.queue.map Pkt.data).Perm
      ((fs ++ b.queue.map Pkt.data) ++ [d.frame]) := by
    rw [List.append_assoc,List.append_assoc]
    exact List.Perm.append_left fs List.perm_append_comm
  refine ⟨?_,h.fresh,?_,?_⟩
  · have hw := h.wire_eq
    rw [hhead,List.append_nil] at hw
    simp only [Outbox.log,wire_append,wire_sentObs,hfirst,hsecond,hw,hhead]
    simp [wire,DirectWrite.frame,ChatServer.frame,DirectWrite.header]
  · refine hperm.subperm.trans ?_
    simp only [Outbox.log]
    rw [issued_append,hissued]
    exact (List.subperm_append_right _).mpr h.distinct
  · intro f hf
    rcases List.mem_append.mp (hperm.mem_iff.mp hf) with hf | hf
    · exact h.formed f hf
    · rw [List.mem_singleton.mp hf]
      exact frame_wellFormed _ hlen

theorem beat (h : Framed b fs) (hbeat : Beat p b b')
    (hclean : ∀ d ∈ directWrites b'.trace, d.Clean) : ∃ fs', Framed b' fs' := by
  cases hbeat with
  | @inert o ho hopen => exact ⟨fs,h.log (o.inert_silent ho).1⟩
  | close =>
    have h' := h.log (l := [.markedClosed]) rfl
    exact ⟨fs,h'.wire_eq,h'.fresh,h'.distinct,h'.formed⟩
  | shutdown => exact ⟨fs,h.wire_eq,h.fresh,h.distinct,h.formed⟩
  | listing names => exact ⟨fs,h.log rfl⟩
  | @part x q n hqueue hopen hpos hn =>
    refine ⟨fs,?_,?_,?_,?_⟩
    · have hw := h.wire_eq
      rw [hqueue] at hw
      simp only [Outbox.log,wire_append,hw]
      simp [wire,headSent,Pkt.advance]
    · intro y hy
      exact h.fresh y (by simpa [hqueue] using hy)
    · have hd := h.distinct
      rw [hqueue] at hd
      simpa [Outbox.log,issued,x.advance_data n hn] using hd
    · have hf := h.formed
      rw [hqueue] at hf
      simpa [x.advance_data n hn] using hf
  | @whole x q hqueue hopen =>
    have hlist : (fs ++ [x.data]) ++ q.map Pkt.data = fs ++ b.queue.map Pkt.data := by
      rw [hqueue]
      simp
    refine ⟨fs ++ [x.data],?_,?_,?_,?_⟩
    · have hw := h.wire_eq
      have hhead : headSent q = [] := by
        cases q with
        | nil => rfl
        | cons y q => exact h.fresh y (by simp [hqueue])
      rw [hqueue] at hw
      simp only [Outbox.log,wire_append,hw,hhead]
      simp [wire,headSent,Pkt.data]
    · intro y hy
      refine h.fresh y ?_
      rw [hqueue]
      exact List.mem_of_mem_tail hy
    · rw [hlist]
      simpa [Outbox.log,issued] using h.distinct
    · rw [hlist]
      exact h.formed
  | @skip c allocates hsaid hskip =>
    have h' := h.log (l := [.offered (b.offer p c allocates)]) rfl
    exact ⟨fs,h'.wire_eq,h'.fresh,h'.distinct,h'.formed⟩
  | @take c allocates hsaid htake =>
    have hlen : c.msg.length < 2^32 := by
      obtain ⟨-,-,-,hfits⟩ := Outbox.offer_taken.mp htake
      unfold msgSizeLimit at hfits
      omega
    have h' := h.push (l := [.offered (b.offer p c allocates),
      .enqueued b.broadcasts.length (ChatServer.frame msgTypeNormal c.msg)]) (c := c) rfl rfl hlen
    exact ⟨fs,h'.wire_eq,h'.fresh,h'.distinct,h'.formed⟩
  | @direct d htells hoffset hclosed =>
    have hd : d.Clean := by
      refine hclean d ?_
      simp [Outbox.log,directWrites]
    rcases hd with hblocked | ⟨hzero,hwhole,hlen⟩
    · obtain ⟨hfirst,hsecond⟩ := d.blocked_writes hblocked
      refine ⟨fs,h.log ?_⟩
      rw [hfirst,hsecond]
      rfl
    · exact ⟨_,h.direct (hoffset ▸ hzero) hwhole hlen⟩

theorem intact (h : Framed b fs) : FramesIntact b.trace := by
  have hw := h.wire_eq
  have hd := h.distinct
  have hf := h.formed
  cases hq : b.queue with
  | nil =>
    rw [hq] at hw hd hf
    simp only [headSent,List.append_nil,List.map_nil] at hw hd hf
    exact ⟨fs,hd,hw.symm ▸ List.prefix_refl _,hf⟩
  | cons x q =>
    rw [hq] at hw hd hf
    have hsub : (fs ++ [x.data]).Sublist (fs ++ (x :: q).map Pkt.data) := by simp
    refine ⟨fs ++ [x.data],hsub.subperm.trans hd,?_,fun f hmem => hf f (hsub.subset hmem)⟩
    rw [hw]
    simp [headSent,Pkt.data]

end Framed

theorem Seat.Reachable.framed {p : Nat} {s : Seat} (h : Seat.Reachable p s)
    (hclean : ∀ d ∈ directWrites s.outbox.trace, d.Clean) : ∃ fs, Framed s.outbox fs := by
  refine h.outbox (I := fun b => (∀ d ∈ directWrites b.trace, d.Clean) → ∃ fs, Framed b fs)
    (fun b hb _ => ⟨[],.blank hb⟩) ?_ hclean
  intro b b' ih hbeat hclean'
  have hold : ∀ d ∈ directWrites b.trace, d.Clean := by
    obtain ⟨more,hmore⟩ := hbeat.trace
    intro d hd
    refine hclean' d ?_
    rw [hmore,directWrites_append]
    exact List.mem_append_left _ hd
  obtain ⟨fs,hf⟩ := ih hold
  exact hf.beat hbeat hclean'

/-- When every direct write found nothing half sent, and the kernel took all of
it or nothing, the client has been sent whole frames and the beginning of one. -/
theorem frames_intact {acts : List Action} {s : Sys} {p : Nat} {c : ClientInfo} {k : Sock}
    (hrun : run step Sys.init acts = .ok s) (hphase : s.phase ≠ .done) (h : Listed s p c k)
    (hclean : ∀ d ∈ directWrites k.trace, d.Clean) : FramesIntact k.trace := by
  obtain ⟨seat,hseats⟩ := listed_seats hrun hphase h
  have htrace : seat.outbox.trace = k.trace := by
    rw [hseats.sock]
    rfl
  rw [← htrace] at hclean ⊢
  obtain ⟨fs,hf⟩ := hseats.reachable.framed hclean
  exact hf.intact

def Action.asksList (sends : List SendRes) : List Action :=
  connects 1 5 { Oracle.quiet with sends := sends } ++
    hears 5 (frame msgTypeNormal (ascii "ann")) ++ hears 5 (frame msgTypeNormal (ascii "/list"))

theorem frames_intact_asksList : ∃ s c k,
    run step Sys.init (Action.asksList (List.replicate 4 (.accepts 100))) = .ok s ∧
      Listed s 1 c k ∧ wire k.trace ≠ [] ∧ FramesIntact k.trace := by
  obtain ⟨s,hrun,c,k,hphase,hlisted,htest⟩ := reaches_listed
    (show reachesListed (Action.asksList (List.replicate 4 (.accepts 100))) 1 (fun _ _ k =>
      decide (wire k.trace ≠ [] ∧ ∀ d ∈ directWrites k.trace, d.Clean)) = true by decide +kernel)
  obtain ⟨hwire,hclean⟩ := of_decide_eq_true htest
  exact ⟨s,c,k,hrun,hlisted,hwire,frames_intact hrun hphase hlisted hclean⟩

theorem not_framesIntact {trace : List Obs} {n : Nat} (hn : 0 < n)
    (hlen : n ≤ (wire trace).length)
    (hframes : ∀ f ∈ issued trace, n ≤ f.length ∧ f.take n ≠ (wire trace).take n) :
    ¬ FramesIntact trace := by
  rintro ⟨fs,hsub,⟨rest,hrest⟩,-⟩
  cases fs with
  | nil =>
    have hnil : wire trace = [] := (List.append_eq_nil_iff.mp hrest).1
    rw [hnil,List.length_nil] at hlen
    omega
  | cons f fs =>
    obtain ⟨hf,hne⟩ := hframes f (hsub.subset (by simp))
    refine hne ?_
    have htake := congrArg (List.take n) hrest
    rw [List.take_append_of_le_length hlen,List.flatten_cons,List.take_append_of_le_length hf]
      at htake
    exact htake.symm

/-- The socket takes three bytes of a header and then is full for a moment: the
next frame of the list starts inside that header. -/
theorem frames_torn : ∃ s c k, run step Sys.init (Action.asksList
      [.accepts 3,.wouldBlock,.accepts 100,.accepts 100]) = .ok s ∧ s.phase ≠ .done ∧
    Listed s 1 c k ∧ ¬ FramesIntact k.trace := by
  obtain ⟨s,hrun,c,k,hphase,hlisted,htest⟩ := reaches_listed
    (show reachesListed (Action.asksList [.accepts 3,.wouldBlock,.accepts 100,.accepts 100]) 1
      (fun _ _ k => decide (4 ≤ (wire k.trace).length ∧ ∀ f ∈ issued k.trace,
        4 ≤ f.length ∧ f.take 4 ≠ (wire k.trace).take 4)) = true by decide +kernel)
  obtain ⟨hlen,hframes⟩ := of_decide_eq_true htest
  exact ⟨s,c,k,hrun,hphase,hlisted,not_framesIntact (by decide) hlen hframes⟩

end ChatServer
