import ChatServer.ByteString

/-! src/common/io.c: `write_all` and `read_all` over an arbitrary schedule of
results of the system calls. A schedule of writes that is used up behaves like a
full socket, and a read that finds nothing waits. -/
set_option autoImplicit false

namespace ChatServer
open ByteString

/-- What one `send` or `write` does. `accepts n` takes at most `n` bytes of
what is offered, so `accepts 0` is the result 0. -/
inductive SendRes where
  | accepts : Nat → SendRes
  | wouldBlock | interrupted | fails
  deriving DecidableEq, Repr

/-- The bytes put on the descriptor, the return value, and the results the
system calls have not used. -/
structure Written where
  taken : Bytes
  ret : Int
  rest : List SendRes
  deriving DecidableEq, Repr

/-- The loop of `write_all`: `done` has been written, `left` has not. -/
def writeAllLoop : List SendRes → Bytes → Bytes → Written
  | sends,done,left =>
    if left = [] then ⟨done,done.length,sends⟩
    else match sends with
    | [] => ⟨done,-1,[]⟩
    | .accepts n :: rest =>
      if n = 0 then ⟨done,done.length,rest⟩
      else writeAllLoop rest (done ++ left.take n) (left.drop n)
    | .interrupted :: rest => writeAllLoop rest done left
    | .wouldBlock :: rest => ⟨done,-1,rest⟩
    | .fails :: rest => ⟨done,-1,rest⟩

def writeAll (sends : List SendRes) (buffer : Bytes) : Written :=
  writeAllLoop sends [] buffer

/-- The schedule takes `n` bytes before any other result than an interruption;
what is left of it afterwards. -/
def takes : List SendRes → Nat → Option (List SendRes)
  | sends,0 => some sends
  | [],_+1 => none
  | .accepts k :: rest,n+1 => if k = 0 then none else takes rest (n+1-k)
  | .interrupted :: rest,n+1 => takes rest (n+1)
  | .wouldBlock :: _,_+1 => none
  | .fails :: _,_+1 => none

theorem writeAllLoop_nil (sends : List SendRes) (done : Bytes) :
    writeAllLoop sends done [] = ⟨done,done.length,sends⟩ := by
  unfold writeAllLoop
  simp

theorem writeAllLoop_takes {sends rest : List SendRes} (done : Bytes) {left : Bytes}
    (h : takes sends left.length = some rest) :
    writeAllLoop sends done left = ⟨done ++ left,(done ++ left).length,rest⟩ := by
  induction sends generalizing done left with
  | nil =>
    cases left with
    | nil => simpa [takes,writeAllLoop] using h
    | cons b bs => simp [takes] at h
  | cons r tail ih =>
    cases left with
    | nil =>
      simp only [List.length_nil,takes,Option.some.injEq] at h
      simp [h,writeAllLoop_nil]
    | cons b bs =>
      cases r with
      | accepts n =>
        by_cases hn : n = 0
        · simp [takes,hn] at h
        · have hlen : takes tail ((b :: bs).drop n).length = some rest := by
            simpa [takes,hn,List.length_drop] using h
          have hstep := ih (done ++ (b :: bs).take n) hlen
          simp only [writeAllLoop,hn,if_false,reduceCtorEq]
          rw [hstep,List.append_assoc,List.take_append_drop]
      | interrupted =>
        have hlen : takes tail (b :: bs).length = some rest := by simpa [takes] using h
        simpa [writeAllLoop] using ih done hlen
      | wouldBlock => simp [takes] at h
      | fails => simp [takes] at h

theorem writeAll_takes {sends rest : List SendRes} {buffer : Bytes}
    (h : takes sends buffer.length = some rest) :
    writeAll sends buffer = ⟨buffer,buffer.length,rest⟩ := by
  simpa [writeAll] using writeAllLoop_takes [] h

example : writeAll [.accepts 2,.interrupted,.accepts 9] [1,2,3] = ⟨[1,2,3],3,[]⟩ := by
  decide

/-- What a `read` of a blocking descriptor finds: bytes that arrived, of which it
takes as many as it asks for, or something else. The end of the stream stays. -/
inductive RecvRes where
  | data : Bytes → RecvRes
  | interrupted | ended | fails
  deriving DecidableEq, Repr

inductive ReadAll where
  | waits (stored : Bytes)
  | returned (stored : Bytes) (ret : Int) (rest : List RecvRes)
  deriving DecidableEq, Repr

def readAllLoop : List RecvRes → Bytes → Nat → ReadAll
  | input,done,left =>
    if left = 0 then .returned done done.length input
    else match input with
    | [] => .waits done
    | .interrupted :: rest => readAllLoop rest done left
    | .fails :: rest => .returned done (-1) rest
    | .ended :: rest => .returned done done.length (.ended :: rest)
    | .data bs :: rest =>
      if left ≤ bs.length then
        .returned (done ++ bs.take left) (done ++ bs.take left).length (.data (bs.drop left) :: rest)
      else readAllLoop rest (done ++ bs) (left-bs.length)

def readAll (input : List RecvRes) (count : Nat) : ReadAll := readAllLoop input [] count

def arrived : List RecvRes → Bytes
  | [] => []
  | .data bs :: rest => bs ++ arrived rest
  | .interrupted :: rest => arrived rest
  | .fails :: rest => arrived rest
  | .ended :: _ => []

def StaysOpen (input : List RecvRes) : Prop :=
  .ended ∉ input ∧ .fails ∉ input

theorem arrived_append {pieces : List RecvRes} (hopen : StaysOpen pieces)
    (more : List RecvRes) : arrived (pieces ++ more) = arrived pieces ++ arrived more := by
  induction pieces with
  | nil => rfl
  | cons r pieces ih =>
    have hrest := ih ⟨List.not_mem_of_not_mem_cons hopen.1,List.not_mem_of_not_mem_cons hopen.2⟩
    cases r with
    | data bs => simp [arrived,hrest]
    | interrupted => simpa [arrived] using hrest
    | ended => exact absurd List.mem_cons_self hopen.1
    | fails => exact absurd List.mem_cons_self hopen.2

section Pieces
variable {pieces : List RecvRes} (more : List RecvRes)

theorem readAllLoop_enough (hopen : StaysOpen pieces) (done : Bytes) (left : Nat)
    (hle : left ≤ (arrived pieces).length) : ∃ rest,
      readAllLoop (pieces ++ more) done left =
          .returned (done ++ (arrived pieces).take left) (done.length+left : Nat) (rest ++ more) ∧
        StaysOpen rest ∧ arrived rest = (arrived pieces).drop left := by
  induction pieces generalizing done left with
  | nil =>
    obtain rfl : left = 0 := by simpa [arrived] using hle
    refine ⟨[],?_,hopen,rfl⟩
    unfold readAllLoop
    simp [arrived]
  | cons r pieces ih =>
    have hrest : StaysOpen pieces :=
      ⟨List.not_mem_of_not_mem_cons hopen.1,List.not_mem_of_not_mem_cons hopen.2⟩
    by_cases hleft : left = 0
    · subst hleft
      refine ⟨r :: pieces,?_,hopen,rfl⟩
      unfold readAllLoop
      simp
    · cases r with
      | ended => exact absurd List.mem_cons_self hopen.1
      | fails => exact absurd List.mem_cons_self hopen.2
      | interrupted =>
        obtain ⟨rest,hread,hopen',harrived⟩ := ih hrest done left hle
        refine ⟨rest,?_,hopen',harrived⟩
        rw [List.cons_append]
        unfold readAllLoop
        rw [if_neg hleft]
        exact hread
      | data bs =>
        rw [List.cons_append]
        unfold readAllLoop
        rw [if_neg hleft]
        simp only [arrived,List.length_append] at hle ⊢
        by_cases hfits : left ≤ bs.length
        · refine ⟨.data (bs.drop left) :: pieces,?_,⟨?_,?_⟩,?_⟩
          · rw [if_pos hfits,List.take_append_of_le_length hfits]
            simp [List.length_take_of_le hfits]
          · simpa using hrest.1
          · simpa using hrest.2
          · rw [List.drop_append_of_le_length hfits]
            rfl
        · obtain ⟨rest,hread,hopen',harrived⟩ := ih hrest (done ++ bs) (left-bs.length)
            (by omega)
          have hlen : (done ++ bs).length+(left-bs.length) = done.length+left := by
            rw [List.length_append]
            omega
          have hbs : bs.take left = bs := List.take_of_length_le (by omega)
          have hnone : bs.drop left = [] := List.drop_of_length_le (by omega)
          refine ⟨rest,?_,hopen',?_⟩
          · rw [if_neg hfits,hread,hlen,List.take_append,hbs,List.append_assoc]
          · rw [harrived,List.drop_append,hnone,List.nil_append]

theorem readAllLoop_short (hopen : StaysOpen pieces) (done : Bytes) (left : Nat)
    (hlt : (arrived pieces).length < left) :
    readAllLoop (pieces ++ more) done left =
      readAllLoop more (done ++ arrived pieces) (left-(arrived pieces).length) := by
  induction pieces generalizing done left with
  | nil => simp [arrived]
  | cons r pieces ih =>
    have hrest : StaysOpen pieces :=
      ⟨List.not_mem_of_not_mem_cons hopen.1,List.not_mem_of_not_mem_cons hopen.2⟩
    have hleft : left ≠ 0 := by omega
    rw [List.cons_append]
    conv => lhs; unfold readAllLoop
    rw [if_neg hleft]
    cases r with
    | ended => exact absurd List.mem_cons_self hopen.1
    | fails => exact absurd List.mem_cons_self hopen.2
    | interrupted => exact ih hrest done left hlt
    | data bs =>
      simp only [arrived,List.length_append] at hlt ⊢
      rw [if_neg (by omega),ih hrest (done ++ bs) _ (by omega),List.append_assoc]
      congr 1
      omega

end Pieces

example : readAll [.data [1],.interrupted,.data [2,3,4]] 3 = .returned [1,2,3] 3 [.data [4]] := by
  decide

end ChatServer
