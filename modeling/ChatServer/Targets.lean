import ChatServer.NameCycle
import ChatServer.Records
import ChatServer.Redirect
import ChatServer.Stranding

/-! Whom `handle_whisper` can select. The name field of a client that has not chosen a name
holds what its memory held before, and the search looks at it like at any other. -/
set_option autoImplicit false

namespace ChatServer
open ByteString Memory Execution

/-- A terminated string that is no token. -/
def Unaddressable (name : Buf nameMax) : Prop :=
  0 ∈ name.data ∧ (cstr name.data = [] ∨ 32 ∈ cstr name.data)

def Incoming.Nameless (i : Incoming) : Prop :=
  ∀ hint old, i.info = some (hint,old) → Unaddressable old.name

/-- What the search of `handle_whisper` relies on, and what a client it selects is like. -/
structure World.SearchSafe (w : World) : Prop where
  terminated : ∀ p ∈ w.clientList, ∀ c, w.clients.get p = some c → 0 ∈ c.name.data
  selected : ∀ saveptr target msg q, strtokR 32 saveptr = (some target,msg) →
    findTarget w target w.clientList = .ok (some q) →
      ∃ c, w.clients.get q = some c ∧ c.hasName = true ∧ cstr c.name.data = target

/-- The name field is terminated, and of use to the search only if it was chosen. -/
def SafeName (c : ClientInfo) : Prop :=
  0 ∈ c.name.data ∧ (c.hasName = true ∨ cstr c.name.data = [] ∨ 32 ∈ cstr c.name.data)

theorem SafeName.of_named {c c' : ClientInfo} (h : c'.named = c.named) (hsafe : SafeName c) :
    SafeName c' := by
  simp only [ClientInfo.named,Prod.mk.injEq] at h
  unfold SafeName
  rw [h.1,h.2.2]
  exact hsafe

theorem storeClientName_safe {c c' : ClientInfo} (h : storeClientName c = .ok c') :
    SafeName { c' with hasName := true } := by
  obtain ⟨bs,name,-,hwrite,rfl⟩ := storeClientName_eq h
  have htake := Buf.take_write hwrite
  have hzero : (0 : UInt8) ∈ name.data.take (0+(bs ++ [0]).length) := by
    rw [htake]
    simp
  exact ⟨List.mem_of_mem_take hzero,.inl rfl⟩

theorem Lasting.of_named {P : ClientInfo → Prop} (hnamed : ∀ c c', c'.named = c.named → P c → P c')
    (hstores : ∀ c c', storeClientName c = .ok c' → P { c' with hasName := true }) : Lasting P where
  untouched := fun _ _ h => hnamed _ _ (named_of_reading h.1)
  reads := fun _ _ _ _ _ h => hnamed _ _ (readTurn_frame h).1.named
  names := fun _ _ h _ => hstores _ _ h
  finishes := fun _ _ h => hnamed _ _ (finishMessage_frame h).named

theorem safeName_lasting : Lasting SafeName :=
  .of_named (fun _ _ h hsafe => hsafe.of_named h) (fun _ _ h => storeClientName_safe h)

def ChosenEnds (c : ClientInfo) : Prop := c.hasName = true → 0 ∈ c.name.data

theorem chosenEnds_lasting : Lasting ChosenEnds := by
  refine .of_named (fun c c' h hends => ?_) (fun c c' h _ => (storeClientName_safe h).1)
  simp only [ClientInfo.named,Prod.mk.injEq] at h
  unfold ChosenEnds
  rw [h.1,h.2.2]
  exact hends

theorem clientInfoInit_chosenEnds (a : Action) : a.Accepts ChosenEnds := by
  intro i _ conn _ _ _ hint old junk _ _ fd h
  cases h

theorem searchNames_cases {w : World} {target : Bytes} {l : List Nat}
    (h : ∀ p ∈ l, ∀ c, w.clients.get p = some c → ChosenEnds c) :
    searchNames w target l = findTarget w target l ∨
      (searchNames w target l = .error .outOfBounds ∧ ∃ q ∈ l, ∃ c, w.clients.get q = some c ∧
        c.hasName = false ∧ 0 ∉ c.name.data ∧ c.name.data <+: target) := by
  induction l with
  | nil => exact .inl rfl
  | cons p l ih =>
    have hrest := ih (fun q hq => h q (List.mem_cons_of_mem p hq))
    unfold searchNames findTarget
    cases hc : w.client p with
    | error e => exact .inl rfl
    | ok c =>
      have hget := client_eq_some hc
      simp only [ok_bind]
      by_cases hover : 0 ∉ c.name.data ∧ c.name.data <+: target
      · rw [if_pos hover]
        have hnone : c.hasName = false := by
          cases hname : c.hasName with
          | false => rfl
          | true => exact absurd (h p (by simp) c hget hname) hover.1
        exact .inr ⟨rfl,p,by simp,c,hget,hnone,hover⟩
      · rw [if_neg hover]
        by_cases hfound : cstr c.name.data = target
        · rw [if_pos hfound,if_pos hfound]
          exact .inl rfl
        · rw [if_neg hfound,if_neg hfound]
          rcases hrest with hsame | ⟨hbad,q,hq,hshort⟩
          · exact .inl hsame
          · exact .inr ⟨hbad,q,List.mem_cons_of_mem p hq,hshort⟩

theorem findTarget_some {w : World} {target : Bytes} {q : Nat} {l : List Nat}
    (h : findTarget w target l = .ok (some q)) :
    q ∈ l ∧ ∃ c, w.clients.get q = some c ∧ cstr c.name.data = target := by
  induction l with
  | nil => cases h
  | cons p l ih =>
    unfold findTarget at h
    cases hc : w.client p with
    | error e => simp [hc] at h
    | ok c =>
      simp only [hc,ok_bind] at h
      by_cases hname : cstr c.name.data = target
      · rw [if_pos hname] at h
        cases h
        exact ⟨by simp,c,client_eq_some hc,hname⟩
      · rw [if_neg hname] at h
        obtain ⟨hq,hfound⟩ := ih h
        exact ⟨List.mem_cons_of_mem p hq,hfound⟩

theorem searchSafe_of_all {w : World} (hall : w.All SafeName) : w.SearchSafe := by
  refine ⟨fun p hp c hc => (hall p hp c hc).1,?_⟩
  intro saveptr target msg q htoken hfound
  obtain ⟨hq,c,hc,hname⟩ := findTarget_some hfound
  obtain ⟨hne,hspace,-⟩ := strtokR_eq_some.mp htoken
  refine ⟨c,hc,?_,hname⟩
  rcases (hall q hq c hc).2 with hchosen | hempty | hmem
  · exact hchosen
  · exact absurd (hname.symm.trans hempty) hne
  · rw [hname] at hmem
    exact absurd hmem hspace

section Runs
variable {acts : List Action} {s : Sys}

theorem accepts_safeName {a : Action} (h : ∀ i, a = .server i → ∀ conn, .conn conn ∈ i.accepts →
    conn.joins = true → conn.Nameless) : a.Accepts SafeName := by
  intro i hi conn hmem hfcntl hadd hint old junk hinfo hblock fd
  have hjoins : conn.joins = true := by simp [Incoming.joins,hfcntl,hadd,hinfo,hblock]
  obtain ⟨hzero,hname⟩ := h i hi conn hmem hjoins hint old hinfo
  exact ⟨hzero,.inr hname⟩

/-- If no connection that is accepted gets memory in which a name can be found, only clients
that have chosen a name are selected: between two steps, and whenever a message of some
client is processed. -/
theorem whisper_targets_named (hrun : run step Sys.init acts = .ok s) (hphase : s.phase ≠ .done)
    (hmem : ∀ a ∈ acts, ∀ i, a = .server i → ∀ conn, .conn conn ∈ i.accepts →
      conn.joins = true → conn.Nameless) :
    s.world.SearchSafe ∧ ∀ p w copy, Delivers p s.world w copy → w.SearchSafe := by
  have hall : s.world.All SafeName :=
    safeName_lasting.run hrun hphase (fun a ha => accepts_safeName (hmem a ha))
  exact ⟨searchSafe_of_all hall,
    fun p w copy hd => searchSafe_of_all (safeName_lasting.delivers hd hall)⟩

def oldName (text : Bytes) : Buf nameMax :=
  ⟨(text ++ List.replicate nameMax 0).take nameMax,by simp⟩

/-- Somebody who has not said anything yet, in memory in which a text is left. -/
def Action.leftover (text : Bytes) : List Action :=
  connects 1 5 .quiet ++ hears 5 (frame msgTypeNormal (ascii "ann")) ++
    turn [.listen] [.conn ⟨6,true,some (2,{ ClientInfo.blank with name := oldName text }),some [],
      true,.quiet⟩]

theorem leftover_nameless {text : Bytes} (h : Unaddressable (oldName text)) :
    ∀ a ∈ Action.leftover text, ∀ i, a = .server i → ∀ conn, .conn conn ∈ i.accepts →
      conn.joins = true → conn.Nameless := by
  have hblank : Unaddressable ClientInfo.blank.name := ⟨by decide,by decide⟩
  intro a ha i hi conn hmem _ hint old hinfo
  subst hi
  simp [Action.leftover,Action.connects,Action.hears,Action.turn] at ha
  rcases ha with rfl | rfl | rfl | rfl | rfl | rfl | rfl | rfl <;> simp at hmem <;> cases hmem <;>
    cases hinfo
  · exact hblank
  · exact h

theorem whisper_targets_named_spaces : ∃ s q c, run step Sys.init (Action.leftover (ascii "a b")) =
    .ok s ∧ s.world.clientList = [1,2] ∧ findTarget s.world (ascii "ann") s.world.clientList =
      .ok (some q) ∧ s.world.clients.get q = some c ∧ c.hasName = true := by
  obtain ⟨s,hrun,htest⟩ := reaches_run (show reaches (Action.leftover (ascii "a b")) (fun s =>
    decide (s.phase ≠ .done ∧ s.world.clientList = [1,2]) &&
      match findTarget s.world (ascii "ann") s.world.clientList with
      | .ok found => found.isSome
      | .error _ => false) = true by decide +kernel)
  simp only [Bool.and_eq_true,decide_eq_true_eq] at htest
  obtain ⟨⟨hphase,hlist⟩,htest⟩ := htest
  obtain ⟨hsafe,-⟩ := whisper_targets_named hrun hphase
    (leftover_nameless ⟨by decide,.inr (by decide)⟩)
  cases hfound : findTarget s.world (ascii "ann") s.world.clientList with
  | error e => simp [hfound] at htest
  | ok found =>
    rw [hfound] at htest
    obtain ⟨q,rfl⟩ := Option.isSome_iff_exists.mp htest
    obtain ⟨c,hc,hname,-⟩ := hsafe.selected (ascii "ann hi") (ascii "ann") (ascii "hi") q
      (by decide) hfound
    exact ⟨s,q,c,hrun,hlist,hfound,hc,hname⟩

/-- The message for ghost goes to a client that has no name. -/
theorem nameless_target : ∃ s c, run step Sys.init (Action.leftover (ascii "ghost")) = .ok s ∧
    s.phase ≠ .done ∧ strtokR 32 (ascii "ghost hi") = (some (ascii "ghost"),ascii "hi") ∧
    findTarget s.world (ascii "ghost") s.world.clientList = .ok (some 2) ∧
    s.world.clients.get 2 = some c ∧ c.hasName = false ∧ ¬ s.world.SearchSafe := by
  obtain ⟨s,hrun,c,k,hphase,hlisted,htest⟩ := reaches_listed
    (show reachesListed (Action.leftover (ascii "ghost")) 2 (fun s c _ =>
      decide (c.hasName = false) &&
        match findTarget s.world (ascii "ghost") s.world.clientList with
        | .ok found => decide (found = some 2)
        | .error _ => false) = true by decide +kernel)
  simp only [Bool.and_eq_true,decide_eq_true_eq] at htest
  obtain ⟨hname,htest⟩ := htest
  have htoken : strtokR 32 (ascii "ghost hi") = (some (ascii "ghost"),ascii "hi") := by decide
  cases hfound : findTarget s.world (ascii "ghost") s.world.clientList with
  | error e => simp [hfound] at htest
  | ok found =>
    rw [hfound] at htest
    obtain rfl := of_decide_eq_true htest
    refine ⟨s,c,hrun,hphase,htoken,hfound,hlisted.info,hname,fun hsafe => ?_⟩
    obtain ⟨c',hc',hchosen,-⟩ := hsafe.selected _ _ _ 2 htoken hfound
    rw [hlisted.info] at hc'
    cases hc'
    rw [hname] at hchosen
    cases hchosen

end Runs
end ChatServer
