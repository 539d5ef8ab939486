import ChatServer.Parsing
import ChatServer.Serving

/-! The answers to /list in the history of a connection, and what makes no such answer. -/
set_option autoImplicit false

namespace ChatServer
open ByteString Memory Execution Relation

/-- What belongs to /list: the names that it found, and each payload that it handed to
`server_send_message`, whatever came of the write. -/
inductive Answer where
  | found : List Bytes → Answer
  | handed : Bytes → Answer
  deriving DecidableEq, Repr

def Obs.answer : Obs → Option Answer
  | .listing names => some (.found names)
  | .direct d => if d.msgType = msgTypeAdmin then some (.handed d.payload) else none
  | _ => none

def answers (trace : List Obs) : List Answer := trace.filterMap Obs.answer

def listLines (names : List Bytes) : List Answer :=
  names.flatMap (fun name => [.handed name,.handed listNewline])

def listAnswer (name : Bytes) (others : List Bytes × List Bytes) : List Answer :=
  .found (others.1 ++ name :: others.2) :: (listLines others.1 ++
    [.handed name,.handed listIndicator] ++ listLines others.2)

@[simp] theorem answers_append (xs ys : List Obs) :
    answers (xs ++ ys) = answers xs ++ answers ys := List.filterMap_append

theorem answers_nil {xs : List Obs} (h : ∀ o ∈ xs, o.answer = none) : answers xs = [] :=
  List.filterMap_eq_nil_iff.mpr h

theorem answers_sentObs (path : Path) (bs : Bytes) : answers (sentObs path bs) = [] := by
  unfold sentObs
  split <;> rfl

def Unanswered (v v' : View) : Prop := answers v'.sock.trace = answers v.sock.trace

namespace Unanswered
variable {v v' v'' : View} {p : Nat}

theorem same (h : v'.sock.trace = v.sock.trace) : Unanswered v v' := congrArg answers h

theorem refl (v : View) : Unanswered v v := rfl

theorem trans (h : Unanswered v v') (h' : Unanswered v' v'') : Unanswered v v'' := Eq.trans h' h

theorem of_trace {more : List Obs} (h : v'.sock.trace = v.sock.trace ++ more)
    (hm : ∀ o ∈ more, o.answer = none) : Unanswered v v' := by
  unfold Unanswered
  rw [h,answers_append,answers_nil hm,List.append_nil]

theorem note (v : View) {o : Obs} (h : o.answer = none) : Unanswered v (v.note o) :=
  of_trace rfl (by simpa using h)

theorem setEpollout (v : View) (on : Bool) : Unanswered v (v.setEpollout on p) := by
  unfold View.setEpollout Sock.epollCtlMod
  split
  · exact refl v
  · simp only
    split <;> exact of_trace rfl (by simp [Obs.answer])

theorem writes (h : View.Writes p v v') : Unanswered v v' := by
  cases h with
  | @note o ho => exact note v (by cases o <;> first | rfl | cases ho)
  | close => exact (note v rfl).trans (note _ rfl)
  | dropAlloc => exact same rfl
  | withSends rest => exact same rfl
  | withQueue queue => exact same rfl
  | setEpollout on => exact setEpollout v on

theorem written (h : View.Written p v v') : Unanswered v v' := h.keeps refl trans writes

theorem stop (v : View) (r : Int) : Unanswered v (v.stop r) := by
  unfold View.stop
  split
  · exact (note v rfl).trans (note _ rfl)
  · exact note v rfl

theorem took {bs : Bytes} (h : Took v.sock v'.sock bs) : Unanswered v v' := by
  obtain ⟨more,ht,hm⟩ := h.trace
  refine of_trace ht (fun o ho => ?_)
  have htaking := hm o ho
  cases o <;> first | rfl | cases htaking

theorem whispered (v : View) (msg : Bytes) : Unanswered v (v.direct msgTypeNormal msg).1 :=
  (note v rfl).trans (written (.direct (p := 0) v msgTypeNormal msg))

theorem realloc (v : View) (size : Nat) :
    Unanswered v { v with sock := (v.sock.realloc none size).1 } := by
  unfold Sock.realloc
  simp only
  split
  · exact of_trace rfl (by simp [Obs.answer])
  · exact same rfl

end Unanswered

namespace Room
variable {R S : Room} {p q : Nat}

theorem whisper_unanswered (R : Room) (p : Nat) (saveptr : Bytes) (q : Nat) :
    Unanswered (R.view q) ((R.whisper p saveptr).1.view q) := by
  have hformat : ∀ size, Unanswered (R.view q) ((R.tick.set p { R.view p with
      sock := ((R.view p).sock.realloc none size).1 }).view q) :=
    fun size => set_each (R := R.tick) .refl (.realloc _ size) q
  have h := whisper_whispers R p saveptr
  generalize (R.whisper p saveptr).1 = S at h ⊢
  cases h with
  | refused => exact .refl _
  | unsent size => exact hformat size
  | sent size t htext =>
    exact (hformat size).trans (set_each Unanswered.refl (Unanswered.whispered _ _) q)

theorem list_others (R : Room) {p q : Nat} (h : q ≠ p) : (R.list p).view q = R.view q := by
  have hloop : ∀ (l : List Nat) (S : Room), (l.foldl (listEntry p) S).view q = S.view q := by
    intro l
    induction l with
    | nil => exact fun S => rfl
    | cons e l ih =>
      intro S
      refine (ih _).trans ?_
      unfold listEntry sendTo
      simp [view_set_of_ne _ _ h]
  exact (hloop _ _).trans (view_set_of_ne _ _ h)

theorem sendTo_hands (R : Room) (p : Nat) (msg : Bytes) :
    answers ((R.sendTo msgTypeAdmin p msg).1.view p).sock.trace =
      answers (R.view p).sock.trace ++ [.handed msg] := by
  obtain ⟨a,b,ht⟩ := (R.view p).direct_trace msgTypeAdmin msg
  simp only [sendTo,view_set_self]
  rw [ht,answers_append,answers_append,answers_append,answers_sentObs,answers_sentObs,
    List.append_nil,List.append_nil]
  rfl

theorem listEntry_hands (R : Room) (p e : Nat) :
    answers ((R.listEntry p e).view p).sock.trace = answers (R.view p).sock.trace ++
      [.handed (R.view e).info.shownName,.handed (if e = p then listIndicator else listNewline)] := by
  unfold listEntry
  simp only
  rw [sendTo_hands,sendTo_hands]
  simp

theorem listEntry_shownName (R : Room) (p e q : Nat) :
    ((R.listEntry p e).view q).info = (R.view q).info := by
  simp [listEntry]

theorem listLoop_hands (p : Nat) (l : List Nat) (R : Room) :
    answers ((l.foldl (listEntry p) R).view p).sock.trace = answers (R.view p).sock.trace ++
      l.flatMap (fun e => [.handed (R.view e).info.shownName,
        .handed (if e = p then listIndicator else listNewline)]) := by
  induction l generalizing R with
  | nil => simp
  | cons e l ih =>
    rw [List.foldl_cons,ih,listEntry_hands,List.flatMap_cons,List.append_assoc]
    simp only [listEntry_shownName]

theorem listLines_of_others {p : Nat} {l : List Nat} (R : Room) (h : p ∉ l) :
    l.flatMap (fun e => [.handed (R.view e).info.shownName,
      .handed (if e = p then listIndicator else listNewline)]) =
      listLines (l.map (fun e => (R.view e).info.shownName)) := by
  unfold listLines
  rw [List.flatMap_map]
  refine List.flatMap_congr (fun e he => ?_)
  have hne : e ≠ p := fun hep => h (hep ▸ he)
  rw [if_neg hne]

def shownName (R : Room) (q : Nat) : Bytes := (R.view q).info.shownName

theorem list_answered {pre post : List Nat} (hsplit : R.members = pre ++ p :: post)
    (hnodup : R.members.Nodup) : answers ((R.list p).view p).sock.trace =
      answers (R.view p).sock.trace ++
        listAnswer (R.shownName p) (pre.map R.shownName,post.map R.shownName) := by
  have hfound : ∀ q, ((R.set p ((R.view p).note (.listing R.names))).view q).info =
      (R.view q).info := by
    intro q
    rw [view_set]
    by_cases hq : q = p
    · rw [if_pos hq,hq]
      rfl
    · rw [if_neg hq]
  rw [hsplit,List.nodup_append] at hnodup
  obtain ⟨-,hrest,hdisjoint⟩ := hnodup
  have hpre : p ∉ pre := fun hmem => hdisjoint p hmem p (by simp) rfl
  have hpost : p ∉ post := (List.nodup_cons.mp hrest).1
  unfold list
  rw [listLoop_hands]
  simp only [hfound,view_set_self]
  rw [hsplit,List.flatMap_append,List.flatMap_cons,listLines_of_others R hpre,
    listLines_of_others R hpost,if_pos rfl]
  have hnote : answers ((R.view p).note (.listing R.names)).sock.trace =
      answers (R.view p).sock.trace ++ [.found R.names] := answers_append _ _
  rw [hnote,names,hsplit]
  simp only [listAnswer,List.map_append,List.map_cons,List.append_assoc,List.cons_append,
    List.nil_append]
  rfl

theorem broadcast_unanswered (R : Room) (sender : Option Nat) (msg : Bytes) (q : Nat) :
    Unanswered (R.view q) ((R.broadcast sender msg).view q) := by
  unfold broadcast
  simp only
  split
  · exact .written (.offer _ _ _ _)
  · exact .refl _

/-- Only the list command answers, and only the member that asks. -/
theorem command_unanswered (R : Room) {p q : Nat} (cmd saveptr : Bytes)
    (h : q ≠ p ∨ findCommand cmd ≠ .list) :
    Unanswered (R.view q) ((R.command p cmd saveptr).1.view q) := by
  unfold command
  cases hfind : findCommand cmd with
  | list =>
    rcases h with hqp | hbad
    · exact .same (congrArg (fun v => v.sock.trace) (list_others R hqp))
    · exact absurd hfind hbad
  | whisper => exact whisper_unanswered R p saveptr q
  | shutdown => exact .refl _
  | quit => exact .refl _
  | unknown => exact .refl _

theorem chat_unanswered {k : Sock} {text : Option Bytes} {timestamp : Bytes}
    (hformat : formatChat (R.view p).info (R.view p).sock timestamp = .ok (k,text)) (line : Bytes)
    (q : Nat) :
    Unanswered (R.view q)
      (((R.tick.set p { R.view p with sock := k }).broadcast (some p) line).view q) := by
  obtain ⟨size,rfl⟩ := formatChat_sock hformat
  exact Unanswered.trans (set_each (R := R.tick) Unanswered.refl (.realloc _ size) q)
    (broadcast_unanswered _ _ _ _)

theorem processPayload_others {copy : Option Bytes} {r : Int}
    (h : R.processPayload p copy = .ok (S,r)) (hqp : q ≠ p) :
    Unanswered (R.view q) (S.view q) := by
  cases processPayload_processed h with
  | name => exact .same (congrArg (fun v => v.sock.trace) (view_set_of_ne R _ hqp))
  | @command _ _ cmd saveptr _ _ _ _ _ hcommand =>
    have hnone := command_unanswered R (makeLowercase cmd) saveptr (.inl hqp)
    rw [hcommand] at hnone
    exact hnone
  | chat _ _ hformat => exact chat_unanswered hformat _ q

end Room

end ChatServer
