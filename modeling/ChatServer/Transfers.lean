import ChatServer.Heap
import ChatServer.Io

/-! `write_all` and `read_all` are exact: what they put on a descriptor, what they
store, and what they return under every schedule of results. -/
set_option autoImplicit false

namespace ChatServer
open ByteString Memory

def SendRes.error : SendRes → Bool
  | .wouldBlock => true
  | .fails => true
  | _ => false

def SendRes.moved : SendRes → Nat
  | .accepts n => n
  | _ => 0

/-- Transfers of at least one byte and interruptions: the loop goes on after each. -/
def GoesOn (used : List SendRes) : Prop :=
  ∀ r ∈ used, r = .interrupted ∨ ∃ n, 0 < n ∧ r = .accepts n

def movedBy (used : List SendRes) : Nat := (used.map SendRes.moved).sum

@[simp] theorem movedBy_nil : movedBy [] = 0 := rfl

@[simp] theorem movedBy_cons (r : SendRes) (used : List SendRes) :
    movedBy (r :: used) = r.moved+movedBy used := by simp [movedBy]

def StopsAfter (sends : List SendRes) (k : Nat) : Prop :=
  ∃ used rest, sends = used ++ .accepts 0 :: rest ∧ GoesOn used ∧ movedBy used = k

/-- The schedule moves `k` bytes, and then a `write` fails with another error than
EINTR. Behind the schedule the socket is full. -/
def FailsAfter (sends : List SendRes) (k : Nat) : Prop :=
  ∃ used r, used ++ [r] <+: sends ++ [.wouldBlock] ∧ GoesOn used ∧ movedBy used = k ∧
    r.error = true

section Writes
variable {used : List SendRes} (more : List SendRes)

theorem GoesOn.later {r : SendRes} (h : GoesOn (r :: used)) : GoesOn used :=
  fun r' hr' => h r' (List.mem_cons_of_mem _ hr')

theorem writeAllLoop_goesOn (h : GoesOn used) (done left : Bytes)
    (hlt : movedBy used < left.length) : writeAllLoop (used ++ more) done left =
      writeAllLoop more (done ++ left.take (movedBy used)) (left.drop (movedBy used)) := by
  induction used generalizing done left with
  | nil => simp
  | cons r used ih =>
    have hleft : left ≠ [] := List.length_pos_iff.mp (by omega)
    rcases h r List.mem_cons_self with rfl | ⟨n,hn,rfl⟩
    · have hmoved : movedBy (.interrupted :: used) = movedBy used := Nat.zero_add _
      rw [hmoved] at hlt ⊢
      simpa [writeAllLoop,hleft] using ih h.later done left hlt
    · have hmoved : movedBy (.accepts n :: used) = n+movedBy used := rfl
      rw [hmoved] at hlt ⊢
      have hrest := ih h.later (done ++ left.take n) (left.drop n) (by
        rw [List.length_drop]
        omega)
      have hpos : n ≠ 0 := by omega
      rw [List.cons_append,writeAllLoop]
      simp only [hleft,hpos,if_false]
      rw [hrest,List.append_assoc,← List.take_add,List.drop_drop]

theorem writeAllLoop_enough (h : GoesOn used) (done left : Bytes)
    (hle : left.length ≤ movedBy used) : ∃ rest, writeAllLoop (used ++ more) done left =
      ⟨done ++ left,(done ++ left).length,rest⟩ := by
  induction used generalizing done left with
  | nil =>
    have hnil : left = [] := List.eq_nil_of_length_eq_zero (by simpa using hle)
    exact ⟨_,by rw [hnil,writeAllLoop_nil,List.append_nil]⟩
  | cons r used ih =>
    by_cases hleft : left = []
    · exact ⟨_,by rw [hleft,writeAllLoop_nil,List.append_nil]⟩
    · rcases h r List.mem_cons_self with rfl | ⟨n,hn,rfl⟩
      · obtain ⟨rest,hrest⟩ := ih h.later done left (by simpa [SendRes.moved] using hle)
        exact ⟨rest,by simpa [writeAllLoop,hleft] using hrest⟩
      · have hpos : n ≠ 0 := by omega
        obtain ⟨rest,hrest⟩ := ih h.later (done ++ left.take n) (left.drop n) (by
          simp only [movedBy_cons,SendRes.moved] at hle
          rw [List.length_drop]
          omega)
        refine ⟨rest,?_⟩
        rw [List.cons_append,writeAllLoop]
        simp only [hleft,hpos,if_false]
        rw [hrest,List.append_assoc,List.take_append_drop]

/-- Every schedule goes on up to its end, a result 0 or an error. -/
theorem schedule_cut (sends : List SendRes) : ∃ used tail, sends = used ++ tail ∧ GoesOn used ∧
    (tail = [] ∨ ∃ r rest, tail = r :: rest ∧ (r = .accepts 0 ∨ r.error = true)) := by
  induction sends with
  | nil => exact ⟨[],[],rfl,by simp [GoesOn],.inl rfl⟩
  | cons r sends ih =>
    have hstop : (r = .accepts 0 ∨ r.error = true) → ∃ used tail, r :: sends = used ++ tail ∧
        GoesOn used ∧
          (tail = [] ∨ ∃ r rest, tail = r :: rest ∧ (r = .accepts 0 ∨ r.error = true)) :=
      fun hr => ⟨[],r :: sends,rfl,by simp [GoesOn],.inr ⟨r,sends,rfl,hr⟩⟩
    obtain ⟨used,tail,rfl,hgoes,hends⟩ := ih
    have hmore : (r = .interrupted ∨ ∃ n, 0 < n ∧ r = .accepts n) → GoesOn (r :: used) := by
      intro hr r' hr'
      rcases List.mem_cons.mp hr' with rfl | hr'
      · exact hr
      · exact hgoes r' hr'
    cases r with
    | accepts n =>
      by_cases hn : n = 0
      · exact hstop (.inl (by rw [hn]))
      · exact ⟨.accepts n :: used,tail,rfl,hmore (.inr ⟨n,Nat.pos_of_ne_zero hn,rfl⟩),hends⟩
    | interrupted => exact ⟨.interrupted :: used,tail,rfl,hmore (.inl rfl),hends⟩
    | wouldBlock => exact hstop (.inr rfl)
    | fails => exact hstop (.inr rfl)

end Writes

inductive Ends (sends : List SendRes) (buffer : Bytes) : Written → Prop
  | whole (rest : List SendRes) : Ends sends buffer ⟨buffer,buffer.length,rest⟩
  | stopped {k : Nat} (hlt : k < buffer.length) (hstop : StopsAfter sends k)
      (rest : List SendRes) : Ends sends buffer ⟨buffer.take k,k,rest⟩
  | failed {k : Nat} (hlt : k < buffer.length) (hfail : FailsAfter sends k)
      (rest : List SendRes) : Ends sends buffer ⟨buffer.take k,-1,rest⟩

theorem writeAll_ends (sends : List SendRes) (buffer : Bytes) :
    Ends sends buffer (writeAll sends buffer) := by
  obtain ⟨used,tail,rfl,hgoes,hends⟩ := schedule_cut sends
  unfold writeAll
  by_cases hle : buffer.length ≤ movedBy used
  · obtain ⟨rest,hloop⟩ := writeAllLoop_enough tail hgoes [] _ hle
    rw [hloop]
    exact .whole rest
  · have hlt : movedBy used < buffer.length := Nat.not_le.mp hle
    have hlen : (buffer.take (movedBy used)).length = movedBy used :=
      List.length_take_of_le (Nat.le_of_lt hlt)
    have hleft : buffer.drop (movedBy used) ≠ [] := by
      rw [← List.length_pos_iff,List.length_drop]
      omega
    rw [writeAllLoop_goesOn tail hgoes [] _ hlt,List.nil_append]
    rcases hends with rfl | ⟨r,rest,rfl,hr⟩
    · rw [writeAllLoop]
      simp only [hleft,if_false]
      exact .failed hlt ⟨used,.wouldBlock,by simp,hgoes,rfl,rfl⟩ []
    · have hfailed : r.error = true → FailsAfter (used ++ r :: rest) (movedBy used) :=
        fun he => ⟨used,r,by simp,hgoes,rfl,he⟩
      unfold writeAllLoop
      simp only [hleft,if_false]
      cases r with
      | accepts n =>
        have hn : n = 0 := by simpa [SendRes.error] using hr
        subst hn
        simp only [if_true,hlen]
        exact .stopped hlt ⟨used,rest,rfl,hgoes,rfl⟩ rest
      | interrupted => simp [SendRes.error] at hr
      | wouldBlock => exact .failed hlt (hfailed rfl) rest
      | fails => exact .failed hlt (hfailed rfl) rest

theorem StopsAfter.returns {sends : List SendRes} {k : Nat} (h : StopsAfter sends k)
    {buffer : Bytes} (hlt : k < buffer.length) : (writeAll sends buffer).ret = k := by
  obtain ⟨used,rest,rfl,hgoes,rfl⟩ := h
  have hleft : buffer.drop (movedBy used) ≠ [] := by
    rw [← List.length_pos_iff,List.length_drop]
    omega
  unfold writeAll
  rw [writeAllLoop_goesOn _ hgoes [] _ hlt,writeAllLoop]
  simp only [hleft,if_false,if_true,List.nil_append,List.length_take_of_le (Nat.le_of_lt hlt)]

/-- What `write_all` puts on the descriptor, and what it returns. -/
structure WritesExactly (sends : List SendRes) (buffer : Bytes) (w : Written) : Prop where
  once : w.taken <+: buffer
  returns : w.ret = -1 ∨ w.ret = w.taken.length
  whole : w.ret = buffer.length ↔ w.taken = buffer
  short : ∀ k < buffer.length, w.ret = (k : Nat) ↔ StopsAfter sends k
  failed : w.ret = -1 → FailsAfter sends w.taken.length

theorem writeAll_exact (sends : List SendRes) (buffer : Bytes) :
    WritesExactly sends buffer (writeAll sends buffer) := by
  have hshort : ∀ k < buffer.length, StopsAfter sends k → (writeAll sends buffer).ret = k :=
    fun k hlt hstop => hstop.returns hlt
  have hends := writeAll_ends sends buffer
  generalize writeAll sends buffer = w at hshort hends
  have htake : ∀ {k : Nat}, k < buffer.length → (buffer.take k).length = k :=
    fun hlt => List.length_take_of_le (Nat.le_of_lt hlt)
  have hpart : ∀ {k : Nat}, k < buffer.length → buffer.take k ≠ buffer := by
    intro k hlt he
    have hlen := htake hlt
    rw [he] at hlen
    omega
  cases hends with
  | whole rest =>
    refine ⟨List.prefix_refl _,.inr rfl,by simp,fun k hlt => ⟨fun he => ?_,hshort k hlt⟩,?_⟩
    · simp only at he
      omega
    · intro he
      simp only at he
      omega
  | @stopped k hlt hstop rest =>
    refine ⟨List.take_prefix _ _,.inr (by simp only [htake hlt]),⟨fun he => ?_,fun he => ?_⟩,
      fun j hj => ⟨fun he => ?_,hshort j hj⟩,fun he => ?_⟩
    · simp only at he
      omega
    · exact absurd he (hpart hlt)
    · have hjk : j = k := by
        simp only at he
        omega
      rw [hjk]
      exact hstop
    · simp only at he
      omega
  | @failed k hlt hfail rest =>
    refine ⟨List.take_prefix _ _,.inl rfl,⟨fun he => ?_,fun he => ?_⟩,
      fun j hj => ⟨fun he => ?_,hshort j hj⟩,fun _ => ?_⟩
    · simp only at he
      omega
    · exact absurd he (hpart hlt)
    · simp only at he
      omega
    · rw [htake hlt]
      exact hfail

inductive ReadInto (size : Nat) where
  | waits (buffer : Buf size)
  | returned (buffer : Buf size) (ret : Int) (rest : List RecvRes)

def ReadInto.buffer {size : Nat} : ReadInto size → Buf size
  | .waits b => b
  | .returned b _ _ => b

section Reads
variable {size : Nat} (count : Nat)

/-- The loop of `read_all` with its buffer: `totalRead` bytes have been stored, and the next
ones go behind them. -/
def readAllIntoLoop : List RecvRes → Buf size → Nat → Option (ReadInto size)
  | input,buffer,totalRead =>
    if totalRead < count then
      match input with
      | [] => some (.waits buffer)
      | .interrupted :: rest => readAllIntoLoop rest buffer totalRead
      | .fails :: rest => some (.returned buffer (-1) rest)
      | .ended :: rest => some (.returned buffer totalRead (.ended :: rest))
      | .data bs :: rest =>
        match buffer.write totalRead (bs.take (count-totalRead)) with
        | none => none
        | some buffer =>
          -- a `read` that gives all it was asked for is the last one
          if count-totalRead ≤ bs.length then
            some (.returned buffer count (.data (bs.drop (count-totalRead)) :: rest))
          else readAllIntoLoop rest buffer (totalRead+bs.length)
    else some (.returned buffer totalRead input)

/-- `none` is a store outside of the buffer. -/
def readAllInto (input : List RecvRes) (buffer : Buf size) : Option (ReadInto size) :=
  readAllIntoLoop count input buffer 0

variable {count}

/-- The bytes `bs` stand at the front of a buffer that was `before`, and the rest is as it was. -/
def Filled (before : Buf size) (bs : Bytes) (buffer : Buf size) : Prop :=
  buffer.data = bs ++ before.data.drop bs.length

theorem Filled.write {before buffer : Buf size} {done bs : Bytes} (h : Filled before done buffer)
    (hfit : done.length+bs.length ≤ size) :
    ∃ buffer', buffer.write done.length bs = some buffer' ∧ Filled before (done ++ bs) buffer' := by
  obtain ⟨buffer',hwrite,hdata⟩ := buffer.write_ok hfit
  refine ⟨buffer',hwrite,?_⟩
  unfold Filled at h ⊢
  rw [hdata,h,List.take_left,List.length_append,← List.drop_drop,List.drop_left,List.drop_drop]

inductive Into (before : Buf size) : ReadAll → ReadInto size → Prop
  | waits {bs : Bytes} {buffer : Buf size} (hfilled : Filled before bs buffer) :
      Into before (.waits bs) (.waits buffer)
  | returned {bs : Bytes} {buffer : Buf size} (hfilled : Filled before bs buffer) (ret : Int)
      (rest : List RecvRes) : Into before (.returned bs ret rest) (.returned buffer ret rest)

theorem readAllIntoLoop_into (hsize : count ≤ size) (before : Buf size) (input : List RecvRes)
    {done : Bytes} {buffer : Buf size} (hle : done.length ≤ count)
    (hfilled : Filled before done buffer) :
    ∃ out, readAllIntoLoop count input buffer done.length = some out ∧
      Into before (readAllLoop input done (count-done.length)) out := by
  induction input generalizing done buffer with
  | nil =>
    unfold readAllIntoLoop readAllLoop
    by_cases hlt : done.length < count
    · rw [if_pos hlt,if_neg (by omega)]
      exact ⟨_,rfl,.waits hfilled⟩
    · rw [if_neg hlt,if_pos (by omega)]
      exact ⟨_,rfl,.returned hfilled _ _⟩
  | cons r rest ih =>
    unfold readAllIntoLoop readAllLoop
    by_cases hlt : done.length < count
    · rw [if_pos hlt,if_neg (by omega)]
      cases r with
      | interrupted => exact ih hle hfilled
      | ended => exact ⟨_,rfl,.returned hfilled _ _⟩
      | fails => exact ⟨_,rfl,.returned hfilled _ _⟩
      | data bs =>
        simp only
        by_cases hfits : count-done.length ≤ bs.length
        · have hlen : (bs.take (count-done.length)).length = count-done.length :=
            List.length_take_of_le hfits
          have hfit : done.length+(bs.take (count-done.length)).length ≤ size := by omega
          obtain ⟨buffer',hwrite,hfilled'⟩ := hfilled.write hfit
          have hcount : (done ++ bs.take (count-done.length)).length = count := by
            rw [List.length_append,hlen]
            omega
          simp only [hwrite,hfits,if_true,hcount]
          exact ⟨_,rfl,.returned hfilled' _ _⟩
        · have htake : bs.take (count-done.length) = bs := List.take_of_length_le (by omega)
          have hfit : done.length+bs.length ≤ size := by omega
          obtain ⟨buffer',hwrite,hfilled'⟩ := hfilled.write hfit
          obtain ⟨out,hout,hinto⟩ := ih (by rw [List.length_append]; omega) hfilled'
          rw [List.length_append] at hout hinto
          simp only [htake,hwrite,hfits,if_false,hout]
          exact ⟨out,rfl,by rwa [Nat.sub_sub]⟩
    · rw [if_neg hlt,if_pos (by omega)]
      exact ⟨_,rfl,.returned hfilled _ _⟩

theorem input_cut (input : List RecvRes) : ∃ used more, input = used ++ more ∧ StaysOpen used ∧
    (more = [] ∨ ∃ rest, more = .ended :: rest ∨ more = .fails :: rest) := by
  induction input with
  | nil => exact ⟨[],[],rfl,⟨by simp,by simp⟩,.inl rfl⟩
  | cons r input ih =>
    obtain ⟨used,more,rfl,hopen,hends⟩ := ih
    have hmore : r ≠ .ended → r ≠ .fails → StaysOpen (r :: used) := by
      intro hended hfails
      exact ⟨by simp [hended.symm,hopen.1],by simp [hfails.symm,hopen.2]⟩
    cases r with
    | data bs => exact ⟨.data bs :: used,more,rfl,hmore (by simp) (by simp),hends⟩
    | interrupted => exact ⟨.interrupted :: used,more,rfl,hmore (by simp) (by simp),hends⟩
    | ended => exact ⟨[],_,rfl,⟨by simp,by simp⟩,.inr ⟨_,.inl rfl⟩⟩
    | fails => exact ⟨[],_,rfl,⟨by simp,by simp⟩,.inr ⟨_,.inr rfl⟩⟩

/-- What `read_all` stores at the front of its buffer, and what it returns: all that it was
asked for, or less at the end of the stream, at an error other than EINTR, or for the
moment. -/
inductive ReadsExactly (count : Nat) (input : List RecvRes) (before : Buf size) :
    ReadInto size → Prop
  | full {bs : Bytes} {buffer : Buf size} {rest : List RecvRes} (hlen : bs.length = count)
      (hfilled : Filled before bs buffer) (hnext : arrived input = bs ++ arrived rest) :
      ReadsExactly count input before (.returned buffer count rest)
  | ended {used rest : List RecvRes} {buffer : Buf size} (hinput : input = used ++ .ended :: rest)
      (hopen : StaysOpen used) (hlt : (arrived used).length < count)
      (hfilled : Filled before (arrived used) buffer) :
      ReadsExactly count input before (.returned buffer (arrived used).length (.ended :: rest))
  | failed {used rest : List RecvRes} {buffer : Buf size} (hinput : input = used ++ .fails :: rest)
      (hopen : StaysOpen used) (hlt : (arrived used).length < count)
      (hfilled : Filled before (arrived used) buffer) :
      ReadsExactly count input before (.returned buffer (-1) rest)
  | waits {buffer : Buf size} (hopen : StaysOpen input) (hlt : (arrived input).length < count)
      (hfilled : Filled before (arrived input) buffer) :
      ReadsExactly count input before (.waits buffer)

theorem readAllInto_exact (hsize : count ≤ size) (input : List RecvRes) (before : Buf size) :
    ∃ out, readAllInto count input before = some out ∧ ReadsExactly count input before out := by
  have hfront : Filled before [] before := by simp [Filled]
  obtain ⟨out,hout,hinto⟩ := readAllIntoLoop_into hsize before input (by simp) hfront
  refine ⟨out,hout,?_⟩
  rw [List.length_nil,Nat.sub_zero] at hinto
  obtain ⟨used,more,rfl,hopen,hends⟩ := input_cut input
  by_cases hle : count ≤ (arrived used).length
  · obtain ⟨rest,hloop,hrest,harrived⟩ := readAllLoop_enough more hopen [] count hle
    rw [hloop] at hinto
    cases hinto with
    | returned hfilled =>
      rw [List.nil_append] at hfilled
      rw [List.length_nil,Nat.zero_add]
      refine .full (List.length_take_of_le hle) hfilled ?_
      rw [arrived_append hopen,arrived_append hrest,harrived,← List.append_assoc,
        List.take_append_drop]
  · have hlt : (arrived used).length < count := Nat.not_le.mp hle
    have hleft : count-(arrived used).length ≠ 0 := by omega
    rw [readAllLoop_short more hopen [] count hlt,List.nil_append] at hinto
    unfold readAllLoop at hinto
    rw [if_neg hleft] at hinto
    rcases hends with rfl | ⟨rest,rfl | rfl⟩
    · cases hinto with
      | waits hfilled =>
        rw [List.append_nil]
        exact .waits hopen hlt hfilled
    · cases hinto with
      | returned hfilled => exact .ended rfl hopen hlt hfilled
    · cases hinto with
      | returned hfilled => exact .failed rfl hopen hlt hfilled

theorem Filled.prefix {before buffer : Buf size} {bs : Bytes} (h : Filled before bs buffer) :
    bs <+: buffer.data := ⟨_,h.symm⟩

/-- A `read_all` without errors, on a connection that carries what a `write_all` of `buffer`
has put on it and then `later`, finds all of that at the front of its buffer. When the whole
buffer was written it returns, and leaves `later`; when a part was written and the stream
ends there, it returns the number of bytes written. -/
def Recovers (buffer : Bytes) (w : Written) (input : List RecvRes) (before : Buf size) : Prop :=
  ∀ later, .fails ∉ input → arrived input = w.taken ++ later →
    ∃ out, readAllInto buffer.length input before = some out ∧ w.taken <+: out.buffer.data ∧
      (w.ret = buffer.length →
        ∃ rest, out = .returned out.buffer buffer.length rest ∧ arrived rest = later) ∧
      (w.taken.length < buffer.length → later = [] → .ended ∈ input →
        ∃ rest, out = .returned out.buffer w.taken.length rest)

theorem WritesExactly.recovers {sends : List SendRes} {buffer : Bytes} {w : Written}
    (h : WritesExactly sends buffer w) (hsize : buffer.length ≤ size) (input : List RecvRes)
    (before : Buf size) : Recovers buffer w input before := by
  intro later hfails harrived
  obtain ⟨out,hout,hexact⟩ := readAllInto_exact hsize input before
  have hlen := h.once.length_le
  have hall : w.ret = buffer.length → w.taken.length = buffer.length :=
    fun hret => congrArg List.length (h.whole.mp hret)
  refine ⟨out,hout,?_⟩
  cases hexact with
  | @full bs _ rest hbs hfilled hnext =>
    rw [harrived] at hnext
    have hfront : w.taken <+: bs := List.prefix_of_prefix_length_le
      (List.prefix_append w.taken later) ⟨arrived rest,hnext.symm⟩ (by omega)
    refine ⟨hfront.trans hfilled.prefix,fun hret => ⟨_,rfl,?_⟩,fun hlt hnil _ => ?_⟩
    · exact (List.append_inj_right hnext (by rw [hall hret,hbs])).symm
    · have hlonger := congrArg List.length hnext
      simp only [hnil,List.append_nil,List.length_append] at hlonger
      omega
  | @ended used rest _ hinput hopen hlt hfilled =>
    have hused : arrived used = w.taken ++ later := by
      rw [← harrived,hinput,arrived_append hopen]
      simp [arrived]
    have hlonger := congrArg List.length hused
    rw [List.length_append] at hlonger
    refine ⟨(hused ▸ List.prefix_append _ _ : w.taken <+: _).trans hfilled.prefix,
      fun hret => ?_,fun _ hnil _ => ⟨.ended :: rest,?_⟩⟩
    · have hwhole := hall hret
      omega
    · rw [hused,hnil,List.append_nil]
      rfl
  | failed hinput => exact absurd (by rw [hinput]; simp) hfails
  | waits hopen hlt hfilled =>
    have hlonger := congrArg List.length harrived
    rw [List.length_append] at hlonger
    refine ⟨(harrived ▸ List.prefix_append _ _ : w.taken <+: _).trans hfilled.prefix,
      fun hret => ?_,fun _ _ hended => absurd hended hopen.1⟩
    have hwhole := hall hret
    omega

/-- `write_all` and `read_all` are exact under every schedule, and any two schedules without
errors work together. -/
theorem transfers_exact (sends : List SendRes) (buffer : Bytes) (count : Nat)
    (input : List RecvRes) (before : Buf size) (hsize : count ≤ size) :
    WritesExactly sends buffer (writeAll sends buffer) ∧
    (∃ out, readAllInto count input before = some out ∧ ReadsExactly count input before out) ∧
    (buffer.length = count → Recovers buffer (writeAll sends buffer) input before) := by
  have hexact := writeAll_exact sends buffer
  refine ⟨hexact,readAllInto_exact hsize input before,?_⟩
  rintro rfl
  exact hexact.recovers hsize input before

theorem transfers_exact_pieces : ∃ buffer rest,
    readAllInto 3 [.data [1],.interrupted,.data [2,3,4]] (.zero 5) =
      some (.returned buffer 3 rest) ∧
    (writeAll [.accepts 2,.interrupted,.accepts 9] [1,2,3]).taken <+: buffer.data ∧
    arrived rest = [4] := by
  obtain ⟨-,-,hrecovers⟩ := transfers_exact [.accepts 2,.interrupted,.accepts 9] [1,2,3] 3
    [.data [1],.interrupted,.data [2,3,4]] (.zero 5) (by decide)
  obtain ⟨out,hout,hfront,hreturns,-⟩ := hrecovers rfl [4] (by decide) (by decide)
  obtain ⟨rest,hret,hlater⟩ := hreturns (by decide)
  exact ⟨out.buffer,rest,hout.trans (congrArg some hret),hfront,hlater⟩

end Reads

end ChatServer
