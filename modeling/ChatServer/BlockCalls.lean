import ChatServer.Decoding

/-! The calls that fill and empty a client's block, in every order: the block holds exactly
the current message, although its recorded capacity and its real size drift apart. -/
set_option autoImplicit false

namespace ChatServer
open ByteString Memory Execution Relation

inductive BufferCall where
  | append : Bytes → BufferCall
  | storeName
  | clear
  deriving DecidableEq, Repr

def BufferCall.apply (message : Bytes) : BufferCall → Bytes
  | .append payload => message ++ payload
  | .storeName => message.take (nameMax-1)
  | .clear => []

/-- The payloads appended since the block was last cleared, cut when they were stored as a
name. -/
def messageAfter (calls : List BufferCall) : Bytes := calls.foldl BufferCall.apply []

@[simp] theorem messageAfter_concat (calls : List BufferCall) (call : BufferCall) :
    messageAfter (calls ++ [call]) = call.apply (messageAfter calls) := by
  simp [messageAfter]

/-- The records of a client after `client_info_init` and the calls, of which all that needed
memory got it. Between the calls everything but the block may change. -/
inductive AfterCalls : List BufferCall → ClientInfo → Prop
  | init (old : ClientInfo) (fd : Nat) (junk : Bytes) :
      AfterCalls [] (clientInfoInit old fd (some junk)).1
  | between {calls : List BufferCall} {c c' : ClientInfo} (h : AfterCalls calls c)
      (hblock : c'.block = c.block) : AfterCalls calls c'
  | append {calls : List BufferCall} {c c' : ClientInfo} {k k' : Sock} (h : AfterCalls calls c)
      (hsize : c.payloadBytesRead ≤ bufSize)
      (happend : appendToClientBuffer c k = .ok (c',k',0)) :
      AfterCalls (calls ++ [.append (c.payloadBuffer.data.take c.payloadBytesRead)]) c'
  | storeName {calls : List BufferCall} {c c' : ClientInfo} (h : AfterCalls calls c)
      (hstore : storeClientName c = .ok c') : AfterCalls (calls ++ [.storeName]) c'
  | clear {calls : List BufferCall} {c c' : ClientInfo} (h : AfterCalls calls c)
      (hclear : clearClientBuffer c = .ok (c',0)) : AfterCalls (calls ++ [.clear]) c'

/-- The doubling loop with the arithmetic of `size_t`: from the capacity `cap` it ends with
`cap'`. -/
inductive Doubles (needed : Nat) : Nat → Nat → Prop
  | enough {cap : Nat} (h : ¬ cap < needed) : Doubles needed cap cap
  | double {cap cap' : Nat} (h : cap < needed) (hrest : Doubles needed (cap*2 % 2^64) cap') :
      Doubles needed cap cap'

section Capacity
variable {fuel cap needed : Nat}

/-- Below 2^63 the doubling neither wraps around nor goes on forever. -/
theorem growCap_doubles (hcap : 0 < cap) (hfuel : needed ≤ cap+fuel) (hsmall : needed < 2^63) :
    Doubles needed cap (growCap fuel cap needed) := by
  induction fuel generalizing cap with
  | zero => exact .enough (by omega)
  | succ fuel ih =>
    unfold growCap
    by_cases hlt : cap < needed
    · rw [if_pos hlt]
      have hwrap : cap*2 % 2^64 = 2*cap := by omega
      exact .double hlt (hwrap ▸ ih (by omega) (by omega))
    · rw [if_neg hlt]
      exact .enough hlt

theorem growCap_power (b : Nat) (hcap : ∃ e, cap = b*2^e) :
    ∃ e, growCap fuel cap needed = b*2^e := by
  induction fuel generalizing cap with
  | zero => exact hcap
  | succ fuel ih =>
    unfold growCap
    split
    · obtain ⟨e,rfl⟩ := hcap
      exact ih ⟨e+1,by rw [Nat.pow_succ',Nat.mul_left_comm]⟩
    · exact hcap

theorem growCap_of_le (hle : ¬ cap < needed) : growCap fuel cap needed = cap := by
  cases fuel with
  | zero => rfl
  | succ fuel => rw [growCap,if_neg hle]

end Capacity

theorem append_cap {c c' : ClientInfo} {k k' : Sock} {r : Int}
    (h : appendToClientBuffer c k = .ok (c',k',r)) :
    c'.partialCap = growCap (c.partialLen+c.payloadBytesRead) c.partialCap
      (c.partialLen+c.payloadBytesRead) := by
  cases appendToClientBuffer_appended h with
  | fits hfits => exact (growCap_of_le hfits).symm
  | grown => rfl
  | failed => rfl

theorem Stored.appended {c c' : ClientInfo} {k k' : Sock} {message : Bytes} (h : Stored c message)
    (hsize : c.payloadBytesRead ≤ bufSize) (happend : appendToClientBuffer c k = .ok (c',k',0)) :
    Stored c' (message ++ c.payloadBuffer.data.take c.payloadBytesRead) := by
  rcases h.append hsize happend with hstored | ⟨hlost,-⟩
  · exact hstored
  · obtain ⟨-,-,-,buf,hbuf,-⟩ := h
    have hnone := hlost.block
    cases appendToClientBuffer_appended happend with
    | fits _ hwrite =>
      rw [hbuf] at hwrite
      obtain ⟨new,rfl,-⟩ := writeBlock_some hwrite
      cases hnone
    | grown _ _ hwrite =>
      obtain ⟨new,rfl,-⟩ := writeBlock_some hwrite
      cases hnone

/-- The block holds `message`: its length is at most the recorded capacity, which is at most
the size of the block and comes from BUF_SIZE by doubling. -/
structure HoldsExactly (c : ClientInfo) (message : Bytes) : Prop where
  stored : Stored c message
  power : ∃ e, c.partialCap = bufSize*2^e

theorem AfterCalls.holds {calls : List BufferCall} {c : ClientInfo} (h : AfterCalls calls c) :
    HoldsExactly c (messageAfter calls) := by
  induction h with
  | init old fd junk =>
    refine ⟨⟨rfl,Nat.zero_le _,Nat.le_refl _,_,rfl,?_,rfl⟩,0,rfl⟩
    simp only [clientInfoInit,List.length_take,List.length_append,List.length_replicate]
    omega
  | between _ hblock ih =>
    refine ⟨ih.stored.congr hblock,?_⟩
    simp only [ClientInfo.block,Prod.mk.injEq] at hblock
    rw [hblock.2.2]
    exact ih.power
  | append _ hsize happend ih =>
    rw [messageAfter_concat]
    exact ⟨ih.stored.appended hsize happend,append_cap happend ▸ growCap_power _ ih.power⟩
  | storeName _ hstore ih =>
    rw [messageAfter_concat]
    refine ⟨(ih.stored.name hstore).2,?_⟩
    obtain ⟨_,_,-,-,rfl⟩ := storeClientName_eq hstore
    exact ih.power
  | clear _ hclear ih =>
    rw [messageAfter_concat]
    obtain ⟨hempty,-,hcap⟩ := ih.stored.clear hclear
    exact ⟨hempty,0,hcap⟩

/-- The next calls on a block that holds `message`. `append_to_client_buffer` writes within
the block once it has its memory, its doubling loop ends, and whatever `realloc` makes of the
block, also a smaller one, the message is kept. The other two stay within the block. -/
structure CallsOn (c : ClientInfo) (message : Bytes) : Prop where
  append : ∀ k : Sock, c.payloadBytesRead ≤ bufSize → (c.grows = true → k.grants 0 = true) →
    ∃ c' k', appendToClientBuffer c k = .ok (c',k',0)
  doubles : c.partialLen+c.payloadBytesRead < 2^63 → Doubles (c.partialLen+c.payloadBytesRead)
    c.partialCap (growCap (c.partialLen+c.payloadBytesRead) c.partialCap
      (c.partialLen+c.payloadBytesRead))
  kept : ∀ (k k' : Sock) (new : Bytes), k.realloc c.partialMsg (growCap
    (c.partialLen+c.payloadBytesRead) c.partialCap (c.partialLen+c.payloadBytesRead)) =
      (k',some new) → new.take c.partialLen = message
  storeName : ∃ c', storeClientName c = .ok c'
  clear : ∃ c', clearClientBuffer c = .ok (c',0)

theorem Stored.callsOn {c : ClientInfo} {message : Bytes} (h : Stored c message) :
    CallsOn c message := by
  refine ⟨fun k hsize hgrants => ?_,fun hsmall => ?_,fun k k' new hrealloc => ?_,
    h.storeName_ok,h.clear_ok⟩
  · obtain ⟨c',k',happend,-,-⟩ := h.append_ok hsize hgrants
    exact ⟨c',k',happend⟩
  · have hlarge := h.large
    unfold bufSize at hlarge
    exact growCap_doubles (by omega) (by omega) hsmall
  · obtain ⟨-,hle,-,buf,hbuf,hcap,htake⟩ := h
    have hge := growCap_ge (c.partialLen+c.payloadBytesRead) c.partialCap
      (c.partialLen+c.payloadBytesRead)
    obtain ⟨-,hkept⟩ := Sock.realloc_some hrealloc
    have hold : c.partialMsg.getD [] = buf := by rw [hbuf]; rfl
    rw [hold] at hkept
    rw [hkept _ (by omega) (by omega),htake]

section Turns
variable {calls : List BufferCall} {c c' : ClientInfo} {k k' : Sock}

theorem AfterCalls.turn {next : Next} (h : AfterCalls calls c)
    (hturn : readTurn c k = .ok (c',k',next)) :
    .blockFailed ∈ k'.trace ∨ ∃ more, AfterCalls (calls ++ more) c' := by
  have hsame : c'.block = c.block → ∃ more, AfterCalls (calls ++ more) c' :=
    fun hblock => ⟨[],by simpa using h.between hblock⟩
  have happended : ∀ {b : Buf bufSize} {n : Nat} {i : ClientInfo} {k₁ k₂ : Sock} {r : Int},
      c.payloadBytesRead+n ≤ bufSize → appendToClientBuffer (c.gotPayload b n) k₁ = .ok (i,k₂,r) →
      .blockFailed ∈ k₂.trace ∨ ∃ more, AfterCalls (calls ++ more) i := by
    intro b n i k₁ k₂ r hsize happend
    have hgot : AfterCalls calls (c.gotPayload b n) := h.between rfl
    cases appendToClientBuffer_appended happend with
    | fits => exact .inr ⟨_,hgot.append hsize happend⟩
    | grown => exact .inr ⟨_,hgot.append hsize happend⟩
    | failed _ hrealloc =>
      left
      rw [Sock.realloc_none hrealloc]
      simp
  rcases readTurn_turn hturn with ⟨-,hheader⟩ | ⟨-,hpayload⟩
  · cases hheader with
    | _ => exact .inr (hsame rfl)
  · cases hpayload with
    | blocked => exact .inr (hsame rfl)
    | failed => exact .inr (hsame rfl)
    | short => exact .inr (hsame rfl)
    | long => exact .inr (hsame rfl)
    | fragment _ hwrite _ happend =>
      rcases happended (Buf.write_eq_some.mp hwrite).1 happend with hfailed | ⟨more,hmore⟩
      · exact .inl hfailed
      · exact .inr ⟨more,hmore.between rfl⟩
    | message _ hwrite _ happend _ hcopy =>
      rcases happended (Buf.write_eq_some.mp hwrite).1 happend with hfailed | ⟨more,hmore⟩
      · left
        have hmem := (Took.of_block (copyBuffer_frame hcopy)).mem hfailed
        simp [Sock.note,hmem]
      · exact .inr ⟨more,hmore⟩

theorem AfterCalls.finish (h : AfterCalls calls c) (hfinish : finishMessage c = .ok c') :
    AfterCalls (calls ++ [.clear]) c' := by
  obtain ⟨i,r,hclear,rfl⟩ := finishMessage_eq hfinish
  obtain rfl : r = 0 := (h.holds.stored.clear hclear).2.1
  exact (h.clear hclear).between rfl

theorem AfterCalls.answer {v v' : View} {r : Int} (h : AfterCalls calls v.info)
    (hanswer : v.answer r = .ok v') : ∃ more, AfterCalls (calls ++ more) v'.info := by
  rcases View.answer_cases hanswer with ⟨-,rfl⟩ | ⟨c,-,hfinish,rfl⟩
  · exact ⟨[],by rw [List.append_nil]; exact h.between rfl⟩
  · exact ⟨_,h.finish hfinish⟩

theorem AfterCalls.still {v v' : View} (h : AfterCalls calls v.info) (hstill : View.Still v v') :
    AfterCalls calls v'.info := by
  have hreading := hstill.reading
  simp only [ClientInfo.reading,Reading.mk.injEq] at hreading
  obtain ⟨-,-,-,-,-,-,-,-,hmsg,hlen,hcap,-⟩ := hreading
  exact h.between (by simp only [ClientInfo.block,hmsg,hlen,hcap])

theorem AfterCalls.hears {v v' : View} (h : AfterCalls calls v.info) (hstep : View.Hears v v') :
    .blockFailed ∈ v'.sock.trace ∨ ∃ calls', AfterCalls calls' v'.info := by
  have hlater : ∀ {u u' : View}, (∃ more, u'.sock.trace = u.sock.trace ++ more) →
      .blockFailed ∈ u.sock.trace → .blockFailed ∈ u'.sock.trace := by
    rintro u u' ⟨more,ht⟩ hfailed
    rw [ht]
    exact List.mem_append_left _ hfailed
  cases hstep with
  | still hstill => exact .inr ⟨_,h.still hstill⟩
  | receive _ hread =>
    rcases h.turn hread.1 with hfailed | ⟨more,hmore⟩
    · exact .inl hfailed
    · exact .inr ⟨_,hmore⟩
  | @pause v₁ r _ hread =>
    rcases h.turn hread.1 with hfailed | ⟨more,hmore⟩
    · exact .inl (hlater (v₁.stop_trace r) hfailed)
    · refine .inr ⟨_,hmore.between ?_⟩
      unfold View.stop
      simp only
      split <;> rfl
  | @name v₁ _ _ c _ hread _ hstore hanswer =>
    obtain ⟨last,hlast,-⟩ := View.answer_trace hanswer
    rcases h.turn hread.1 with hfailed | ⟨more,hmore⟩
    · exact .inl (hlater (u := v₁) ⟨last,hlast⟩ hfailed)
    · have hnamed : AfterCalls _ { c with hasName := true } :=
        (hmore.storeName hstore).between rfl
      obtain ⟨rest,hrest⟩ := hnamed.answer (v := { v₁ with info := { c with hasName := true } })
        hanswer
      exact .inr ⟨_,hrest⟩
  | message _ hread _ hstill _ hanswer =>
    obtain ⟨middle,hmiddle,-⟩ := hstill.trace
    obtain ⟨last,hlast,-⟩ := View.answer_trace hanswer
    rcases h.turn hread.1 with hfailed | ⟨more,hmore⟩
    · exact .inl (hlater ⟨last,hlast⟩ (hlater ⟨middle,hmiddle⟩ hfailed))
    · obtain ⟨rest,hrest⟩ := (hmore.still hstill).answer hanswer
      exact .inr ⟨_,hrest⟩

end Turns

def Room.Called (R : Room) : Prop :=
  ∀ p ∈ R.members, .blockFailed ∈ (R.view p).sock.trace ∨ ∃ calls, AfterCalls calls (R.view p).info

theorem Act.called {R R' : Room} (h : Act R R') (hcalled : R.Called) : R'.Called := by
  intro q hq
  rcases h.hears hq with ⟨hmem,hstep⟩ | ⟨serial,joined,old,fd,junk,oracle,hview⟩
  · rcases hcalled q hmem with hfailed | ⟨calls,hcalls⟩
    · obtain ⟨more,ht⟩ := hstep.trace
      rw [ht]
      exact .inl (List.mem_append_left _ hfailed)
    · exact hcalls.hears hstep
  · rw [hview]
    exact .inr ⟨[],.init old fd junk⟩

theorem reach_called {R R' : Room} (h : ReflTransGen Act R R') (hcalled : R.Called) :
    R'.Called := by
  induction h with
  | refl => exact hcalled
  | tail _ hact ih => exact hact.called ih

section Runs
variable {acts : List Action} {s : Sys} {p : Nat} {c : ClientInfo} {k : Sock}

/-- The orders in which `handle_client_read` makes the calls are among those considered. -/
theorem listed_called (hrun : run step Sys.init acts = .ok s) (hphase : s.phase ≠ .done)
    (h : Listed s p c k) (hmemory : .blockFailed ∉ k.trace) : ∃ calls, AfterCalls calls c := by
  obtain ⟨R,htracks,hseated,hacts⟩ := run_tracks hrun hphase
  obtain ⟨hp,hseats⟩ := htracks.seats hseated h
  have hnone : Room.empty.Called := fun p hp => by cases hp
  rcases reach_called hacts hnone p hp with hfailed | ⟨calls,hcalls⟩
  · have hsock : k = (R.view p).sock := hseats.sock
    rw [← hsock] at hfailed
    exact absurd hfailed hmemory
  · have hinfo : c = (R.view p).info.withQueue c.msgQueue := hseats.info
    rw [hinfo]
    exact ⟨calls,hcalls.between rfl⟩

end Runs

/-- After any calls the block holds exactly the current message, and the next call keeps to it.
The block of every client of the server has come about by such calls, as long as no
allocation failed. -/
theorem block_exact :
    (∀ (calls : List BufferCall) (c : ClientInfo), AfterCalls calls c →
      HoldsExactly c (messageAfter calls) ∧ CallsOn c (messageAfter calls)) ∧
    ∀ (acts : List Action) (s : Sys) (p : Nat) (c : ClientInfo) (k : Sock),
      run step Sys.init acts = .ok s → s.phase ≠ .done → Listed s p c k →
      .blockFailed ∉ k.trace → ∃ calls, AfterCalls calls c := by
  refine ⟨fun calls c h => ⟨h.holds,h.holds.stored.callsOn⟩,?_⟩
  intro acts s p c k hrun hphase h hmemory
  exact listed_called hrun hphase h hmemory

/-- Two bytes are appended, the name is stored, and the block is cleared. -/
theorem block_exact_named : ∃ c, AfterCalls [.append [0,0],.storeName,.clear] c ∧
    HoldsExactly c [] := by
  have h₀ : AfterCalls [] { (clientInfoInit .blank 5 (some [])).1 with payloadBytesRead := 2 } :=
    (AfterCalls.init .blank 5 []).between rfl
  obtain ⟨c₁,k₁,happend⟩ := (block_exact.1 _ _ h₀).2.append
    ⟨[],false,false,none,.quiet,0,0,[]⟩ (by decide) (fun _ => rfl)
  have h₁ := h₀.append (by decide) happend
  obtain ⟨c₂,hstore⟩ := (block_exact.1 _ _ h₁).2.storeName
  have h₂ := h₁.storeName hstore
  obtain ⟨c₃,hclear⟩ := (block_exact.1 _ _ h₂).2.clear
  have h₃ := h₂.clear hclear
  exact ⟨c₃,h₃,(block_exact.1 _ _ h₃).1⟩

end ChatServer
