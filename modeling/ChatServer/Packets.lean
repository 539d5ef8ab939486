import Mathlib.Data.List.Forall2
import Mathlib.Data.List.Nodup
import ChatServer.Protocol
import ChatServer.Transfers

/-! The whole packets of src/common/protocol.c: what `write_packet` writes is what
`read_packet` reads, and what reading costs. -/
set_option autoImplicit false

namespace ChatServer
open ByteString Memory

/-- The payload is tried unless the write of the header has failed. -/
def writePacket (sends : List SendRes) (header : MsgHeader) (payload : Bytes) : Written :=
  let first := writeAll sends header.bytes
  if first.ret = -1 then first
  else
    let second := writeAll first.rest payload
    ⟨first.taken ++ second.taken,second.ret,second.rest⟩

def writePackets : List SendRes → List (MsgHeader × Bytes) → Bytes × List Int
  | _,[] => ([],[])
  | sends,x :: xs =>
    let w := writePacket sends x.1 x.2
    let rest := writePackets w.rest xs
    (w.taken ++ rest.1,w.ret :: rest.2)

/-- What a caller of `read_packet` has: its connection, what `malloc` is going to return, the
blocks, and the two results. -/
structure PacketReader where
  input : List RecvRes
  mallocs : List (Option (Nat × Bytes))
  blocks : Heap Bytes
  headerOut : Buf headerSize
  payloadOut : Option Nat

namespace PacketReader

def malloc (r : PacketReader) (size : Nat) : PacketReader :=
  match r.mallocs.headD (some (0,[])) with
  | none => { r with mallocs := r.mallocs.tail, payloadOut := none }
  | some x =>
    let a := r.blocks.fresh x.1
    { r with
      mallocs := r.mallocs.tail
      blocks := r.blocks.set a ((x.2 ++ List.replicate size 0).take size)
      payloadOut := some a }

/-- `read_payload`, or `none` while it waits. -/
def readPayload (r : PacketReader) (msgLen : Nat) : Option (PacketReader × Int) :=
  let r := r.malloc (msgLen+1)
  match r.payloadOut with
  | none => some (r,-1)
  | some a =>
    let block := ((r.blocks.get a).getD []).take msgLen ++ [0]
    match readAll r.input msgLen with
    | .waits _ => none
    | .returned stored ret rest =>
      some ({ r with
        input := rest
        blocks := r.blocks.set a (stored ++ block.drop stored.length) },ret)

def readPacket (r : PacketReader) : Option (PacketReader × Int) :=
  match readAllInto headerSize r.input r.headerOut with
  | none => none
  | some (.waits _) => none
  | some (.returned header bytesRead rest) =>
    let r := { r with headerOut := header, input := rest }
    if bytesRead ≤ 0 then some (r,bytesRead)
    else
      let msgLen := (parseHeader header.data).msgLen
      let r := r.malloc msgLen
      match r.payloadOut with
      | none => some (r,-1)
      | some _ =>
        match r.readPayload msgLen with
        | none => none
        | some (r,bytesRead) =>
          if bytesRead ≤ 0 then
            match r.payloadOut with
            | none => some (r,bytesRead)
            | some a => some ({ r with blocks := r.blocks.free a },bytesRead)
          else some (r,bytesRead)

structure Packet where
  ret : Int
  header : MsgHeader
  payload : Option Nat
  deriving DecidableEq, Repr

def readPackets : Nat → PacketReader → Option (List Packet × PacketReader)
  | 0,r => some ([],r)
  | n+1,r =>
    match r.readPacket with
    | none => none
    | some (r,ret) =>
      match readPackets n r with
      | none => none
      | some (packets,r') =>
        some (⟨ret,parseHeader r.headerOut.data,r.payloadOut⟩ :: packets,r')

end PacketReader

section Writing
variable {sends : List SendRes} {header : MsgHeader} {payload : Bytes}

theorem writeAllLoop_rest (sends : List SendRes) (done left : Bytes) :
    ∀ r ∈ (writeAllLoop sends done left).rest, r ∈ sends := by
  induction sends generalizing done left with
  | nil =>
    unfold writeAllLoop
    split <;> exact fun r hr => hr
  | cons s sends ih =>
    unfold writeAllLoop
    split
    · exact fun r hr => hr
    · cases s with
      | accepts n =>
        simp only
        split
        · exact fun r hr => List.mem_cons_of_mem _ hr
        · exact fun r hr => List.mem_cons_of_mem _ (ih _ _ r hr)
      | interrupted => exact fun r hr => List.mem_cons_of_mem _ (ih _ _ r hr)
      | wouldBlock => exact fun r hr => List.mem_cons_of_mem _ hr
      | fails => exact fun r hr => List.mem_cons_of_mem _ hr

theorem writeAll_whole {buffer : Bytes} (hzero : .accepts 0 ∉ sends)
    (hret : (writeAll sends buffer).ret ≠ -1) : (writeAll sends buffer).taken = buffer := by
  have hexact := writeAll_exact sends buffer
  have hlen := hexact.returns.resolve_left hret
  refine hexact.once.eq_of_length (Nat.le_antisymm hexact.once.length_le ?_)
  by_contra hshort
  obtain ⟨used,rest,hsends,-⟩ := (hexact.short _ (Nat.not_le.mp hshort)).mp hlen
  exact hzero (hsends ▸ by simp)

theorem writePacket_whole (hzero : .accepts 0 ∉ sends)
    (hret : (writePacket sends header payload).ret = payload.length) :
    (writePacket sends header payload).taken = header.bytes ++ payload ∧
      .accepts 0 ∉ (writePacket sends header payload).rest := by
  unfold writePacket at hret ⊢
  by_cases hfirst : (writeAll sends header.bytes).ret = -1
  · rw [if_pos hfirst,hfirst] at hret
    omega
  · simp only [if_neg hfirst] at hret ⊢
    have hkept : .accepts 0 ∉ (writeAll sends header.bytes).rest :=
      fun hmem => hzero (writeAllLoop_rest _ _ _ _ hmem)
    refine ⟨?_,fun hmem => hkept (writeAllLoop_rest _ _ _ _ hmem)⟩
    rw [writeAll_whole hzero hfirst,(writeAll_exact _ payload).whole.mp hret]

theorem writePackets_whole {xs : List (MsgHeader × Bytes)} (hzero : .accepts 0 ∉ sends)
    (hret : (writePackets sends xs).2 = xs.map (fun x => (x.2.length : Int))) :
    (writePackets sends xs).1 = xs.flatMap (fun x => x.1.bytes ++ x.2) := by
  induction xs generalizing sends with
  | nil => rfl
  | cons x xs ih =>
    simp only [writePackets,List.map_cons,List.cons.injEq] at hret
    obtain ⟨htaken,hkept⟩ := writePacket_whole hzero hret.1
    simp only [writePackets]
    rw [htaken,ih hkept hret.2]
    rfl

end Writing

section Reading
variable {input : List RecvRes} {count size : Nat}

theorem readAll_open (hopen : StaysOpen input) (hle : count ≤ (arrived input).length) :
    ∃ rest, readAll input count = .returned ((arrived input).take count) count rest ∧
      StaysOpen rest ∧ arrived rest = (arrived input).drop count := by
  obtain ⟨rest,hread,hrest,harrived⟩ := readAllLoop_enough [] hopen [] count hle
  refine ⟨rest,?_,hrest,harrived⟩
  unfold readAll
  simpa using hread

theorem readAllInto_open (hopen : StaysOpen input) (hle : count ≤ (arrived input).length)
    (before : Buf count) : ∃ buffer rest,
      readAllInto count input before = some (.returned buffer count rest) ∧
      buffer.data = (arrived input).take count ∧ StaysOpen rest ∧
      arrived rest = (arrived input).drop count := by
  have hfront : Filled before [] before := by simp [Filled]
  obtain ⟨rest,hread,hrest,harrived⟩ := readAll_open hopen hle
  obtain ⟨out,hout,hinto⟩ := readAllIntoLoop_into (Nat.le_refl count) before input (by simp) hfront
  unfold readAll at hread
  rw [List.length_nil,Nat.sub_zero,hread] at hinto
  cases hinto with
  | @returned _ buffer hfilled =>
    refine ⟨buffer,rest,hout,?_,hrest,harrived⟩
    unfold Filled at hfilled
    rw [hfilled,List.length_take_of_le hle,List.drop_of_length_le (by rw [before.size]),
      List.append_nil]

end Reading

namespace PacketReader
variable {r r' : PacketReader} {header : MsgHeader} {payload later : Bytes}

theorem malloc_some (hmallocs : none ∉ r.mallocs) (size : Nat) : ∃ a block,
    r.blocks.get a = none ∧ block.length = size ∧ none ∉ r.mallocs.tail ∧
      r.malloc size = { r with
        mallocs := r.mallocs.tail
        blocks := r.blocks.set a block
        payloadOut := some a } := by
  have htail : none ∉ r.mallocs.tail := fun hmem => hmallocs (List.mem_of_mem_tail hmem)
  have hlen : ∀ junk : Bytes, ((junk ++ List.replicate size 0).take size).length = size := by
    intro junk
    rw [List.length_take,List.length_append,List.length_replicate]
    omega
  unfold malloc
  cases hm : r.mallocs with
  | nil =>
    rw [hm] at htail
    exact ⟨_,_,Heap.get_fresh _ 0,hlen [],htail,rfl⟩
  | cons x xs =>
    rw [hm] at htail hmallocs
    cases x with
    | none => exact absurd List.mem_cons_self hmallocs
    | some x => exact ⟨_,_,Heap.get_fresh _ x.1,hlen x.2,htail,rfl⟩

/-- One packet was fetched: its payload is in the block `b` that the caller gets, and the block
`a` that `read_packet` has allocated before is in nobody's hands. -/
structure Fetched (header : MsgHeader) (payload later : Bytes) (a b : Nat)
    (r r' : PacketReader) : Prop where
  header : parseHeader r'.headerOut.data = header
  payloadOut : r'.payloadOut = some b
  payload : r'.blocks.get b = some (payload ++ [0])
  lost : r'.blocks.get a ≠ none
  fresh : r.blocks.get a = none ∧ r.blocks.get b = none ∧ a ≠ b
  kept : ∀ d, d ≠ a → d ≠ b → r'.blocks.get d = r.blocks.get d
  opened : StaysOpen r'.input
  later : arrived r'.input = later
  mallocs : none ∉ r'.mallocs

theorem readPayload_open (hopen : StaysOpen r.input) (hmallocs : none ∉ r.mallocs)
    (harrived : arrived r.input = payload ++ later) : ∃ b rest, r.blocks.get b = none ∧
      StaysOpen rest ∧ arrived rest = later ∧ none ∉ r.mallocs.tail ∧ ∃ blocks : Heap Bytes,
        blocks.get b = some (payload ++ [0]) ∧
        (∀ d, d ≠ b → blocks.get d = r.blocks.get d) ∧
        r.readPayload payload.length = some ({ r with
          input := rest
          mallocs := r.mallocs.tail
          blocks := blocks
          payloadOut := some b },(payload.length : Int)) := by
  obtain ⟨b,block,hfresh,hlen,htail,hmalloc⟩ := malloc_some hmallocs (payload.length+1)
  have hle : payload.length ≤ (arrived r.input).length := by
    rw [harrived,List.length_append]
    omega
  obtain ⟨rest,hread,hrest,hnext⟩ := readAll_open hopen hle
  rw [harrived,List.take_left' rfl] at hread
  rw [harrived,List.drop_left' rfl] at hnext
  have hfront : (block.take payload.length).length = payload.length :=
    List.length_take_of_le (by omega)
  refine ⟨b,rest,hfresh,hrest,hnext,htail,(r.blocks.set b block).set b (payload ++ [0]),
    Heap.get_set_self _ _ _,fun d hd => ?_,?_⟩
  · rw [Heap.get_set_of_ne _ _ hd,Heap.get_set_of_ne _ _ hd]
  · unfold readPayload
    simp only [hmalloc,hread,Heap.get_set_self,Option.getD_some]
    rw [List.drop_left' hfront]

theorem readPacket_open (hopen : StaysOpen r.input) (hmallocs : none ∉ r.mallocs)
    (hheader : header.msgLen = payload.length) (hne : payload ≠ [])
    (hlimit : payload.length < 2^32)
    (harrived : arrived r.input = header.bytes ++ payload ++ later) : ∃ r' a b,
      r.readPacket = some (r',(payload.length : Int)) ∧ Fetched header payload later a b r r' := by
  have hle : headerSize ≤ (arrived r.input).length := by
    rw [harrived,List.length_append,List.length_append,MsgHeader.bytes_length]
    omega
  obtain ⟨buffer,rest,hread,hdata,hrest,hnext⟩ := readAllInto_open hopen hle r.headerOut
  rw [harrived,List.append_assoc,List.take_left' header.bytes_length] at hdata
  rw [harrived,List.append_assoc,List.drop_left' header.bytes_length] at hnext
  have hparse : parseHeader buffer.data = header := by
    have hbytes := parseHeader_bytes (h := header) (by rw [hheader]; exact hlimit) []
    rw [List.append_nil] at hbytes
    rw [hdata,hbytes]
  obtain ⟨a,block,hfresh,-,htail,hmalloc⟩ :=
    malloc_some (r := { r with headerOut := buffer, input := rest }) hmallocs payload.length
  obtain ⟨b,rest',hfresh',hrest',hnext',htail',blocks,hblock,hkept,hpayload⟩ :=
    readPayload_open (r := { r with
      headerOut := buffer
      input := rest
      mallocs := r.mallocs.tail
      blocks := r.blocks.set a block
      payloadOut := some a }) hrest htail hnext
  have hba : b ≠ a := by
    rintro rfl
    rw [Heap.get_set_self] at hfresh'
    cases hfresh'
  rw [Heap.get_set_of_ne _ _ hba] at hfresh'
  have hlenpos : ¬ (payload.length : Int) ≤ 0 := by
    have hpos := List.length_pos_iff.mpr hne
    omega
  have hsize : ¬ ((headerSize : Nat) : Int) ≤ 0 := by decide
  refine ⟨⟨rest',r.mallocs.tail.tail,blocks,buffer,some b⟩,a,b,?_,
    ⟨hparse,rfl,hblock,?_,⟨hfresh,hfresh',hba.symm⟩,?_,hrest',hnext',htail'⟩⟩
  · unfold readPacket
    simp only [hread,if_neg hsize,hparse,hheader,hmalloc,hpayload,if_neg hlenpos]
  · rw [hkept a hba.symm,Heap.get_set_self]
    exact fun hbad => by cases hbad
  · intro d hda hdb
    rw [hkept d hdb,Heap.get_set_of_ne _ _ hda]

/-- What a call gave is the packet: its length, its header, and a block with its payload and a
zero behind it. -/
structure Gives (blocks : Heap Bytes) (x : MsgHeader × Bytes) (g : Packet) : Prop where
  ret : g.ret = x.2.length
  header : g.header = x.1
  payload : ∃ b, g.payload = some b ∧ blocks.get b = some (x.2 ++ [0])

structure Leaves (xs : List (MsgHeader × Bytes)) (later : Bytes) (r r' : PacketReader)
    (got : List Packet) (lost : List Nat) : Prop where
  gives : List.Forall₂ (Gives r'.blocks) xs got
  wasted : lost.length = xs.length ∧ ∀ a ∈ lost, r'.blocks.get a ≠ none
  apart : (got.filterMap Packet.payload ++ lost).Nodup
  fresh : ∀ a ∈ got.filterMap Packet.payload ++ lost, r.blocks.get a = none
  kept : ∀ d, r.blocks.get d ≠ none → r'.blocks.get d = r.blocks.get d
  later : arrived r'.input = later

theorem Fetched.leaves {x : MsgHeader × Bytes} {xs : List (MsgHeader × Bytes)} {next : Bytes}
    {a b : Nat} {r₁ r₂ : PacketReader} {got : List Packet} {lost : List Nat}
    (hf : Fetched x.1 x.2 next a b r r₁) (hl : Leaves xs later r₁ r₂ got lost) :
    Leaves (x :: xs) later r r₂
      (⟨x.2.length,parseHeader r₁.headerOut.data,r₁.payloadOut⟩ :: got) (a :: lost) := by
  obtain ⟨hfresha,hfreshb,hab⟩ := hf.fresh
  have hliveb : r₁.blocks.get b ≠ none := by
    rw [hf.payload]
    exact fun hbad => by cases hbad
  have hnot : ∀ d ∈ got.filterMap Packet.payload ++ lost, d ≠ a ∧ d ≠ b := by
    intro d hd
    have hnone := hl.fresh d hd
    exact ⟨fun he => hf.lost (he ▸ hnone),fun he => hliveb (he ▸ hnone)⟩
  have hblocks : List.filterMap Packet.payload
      (⟨x.2.length,parseHeader r₁.headerOut.data,r₁.payloadOut⟩ :: got) ++ a :: lost =
        b :: (got.filterMap Packet.payload ++ a :: lost) := by
    have hb : (Packet.mk x.2.length (parseHeader r₁.headerOut.data) r₁.payloadOut).payload =
        some b := hf.payloadOut
    rw [List.filterMap_cons_some hb,List.cons_append]
  have hmem : ∀ d, d ∈ got.filterMap Packet.payload ++ a :: lost ↔
      d = a ∨ d ∈ got.filterMap Packet.payload ++ lost := by
    intro d
    simp only [List.mem_append,List.mem_cons]
    exact or_left_comm
  refine ⟨.cons ⟨rfl,hf.header,b,hf.payloadOut,?_⟩ hl.gives,⟨?_,?_⟩,?_,?_,?_,hl.later⟩
  · rw [hl.kept b hliveb,hf.payload]
  · rw [List.length_cons,List.length_cons,hl.wasted.1]
  · intro d hd
    rcases List.mem_cons.mp hd with rfl | hd
    · rw [hl.kept d hf.lost]
      exact hf.lost
    · exact hl.wasted.2 d hd
  · rw [hblocks,List.nodup_cons,List.nodup_middle,List.nodup_cons,hmem]
    refine ⟨?_,fun hd => (hnot a hd).1 rfl,hl.apart⟩
    rintro (he | hd)
    · exact hab he.symm
    · exact (hnot b hd).2 rfl
  · intro d hd
    rw [hblocks,List.mem_cons,hmem] at hd
    rcases hd with rfl | rfl | hd
    · exact hfreshb
    · exact hfresha
    · rw [← hf.kept d (hnot d hd).1 (hnot d hd).2]
      exact hl.fresh d hd
  · intro d hd
    have hda : d ≠ a := fun he => hd (he ▸ hfresha)
    have hdb : d ≠ b := fun he => hd (he ▸ hfreshb)
    have hsame := hf.kept d hda hdb
    rw [← hsame] at hd ⊢
    exact hl.kept d hd

theorem readPackets_open {xs : List (MsgHeader × Bytes)} (hopen : StaysOpen r.input)
    (hmallocs : none ∉ r.mallocs)
    (hxs : ∀ x ∈ xs, x.1.msgLen = x.2.length ∧ x.2 ≠ [] ∧ x.2.length < 2^32)
    (harrived : arrived r.input = xs.flatMap (fun x => x.1.bytes ++ x.2) ++ later) :
    ∃ got r' lost, readPackets xs.length r = some (got,r') ∧ Leaves xs later r r' got lost := by
  induction xs generalizing r with
  | nil => exact ⟨[],r,[],rfl,.nil,⟨rfl,by simp⟩,by simp,by simp,fun _ _ => rfl,harrived⟩
  | cons x xs ih =>
    obtain ⟨hheader,hne,hlimit⟩ := hxs x List.mem_cons_self
    rw [List.flatMap_cons,List.append_assoc] at harrived
    obtain ⟨r₁,a,b,hread,hf⟩ := readPacket_open hopen hmallocs hheader hne hlimit harrived
    obtain ⟨got,r₂,lost,hreads,hl⟩ := ih hf.opened hf.mallocs
      (fun y hy => hxs y (List.mem_cons_of_mem x hy)) hf.later
    refine ⟨_,r₂,a :: lost,?_,hf.leaves hl⟩
    unfold readPackets
    simp only [List.length_cons,hread,hreads]

/-- Packets that `write_packet` has written under any schedule in which no write takes nothing
come back from `read_packet` one by one, in whatever pieces they arrive. Each is in a block of
its own with a zero behind it, and each call loses a second block for good. -/
theorem packets_round_trip (r : PacketReader) (sends : List SendRes)
    (xs : List (MsgHeader × Bytes)) (later : Bytes)
    (hxs : ∀ x ∈ xs, x.1.msgLen = x.2.length ∧ x.2 ≠ [] ∧ x.2.length < 2^32)
    (hzero : .accepts 0 ∉ sends)
    (hwrote : (writePackets sends xs).2 = xs.map (fun x => (x.2.length : Int)))
    (hopen : StaysOpen r.input) (hmallocs : none ∉ r.mallocs)
    (harrived : arrived r.input = (writePackets sends xs).1 ++ later) :
    ∃ got r' lost, readPackets xs.length r = some (got,r') ∧ Leaves xs later r r' got lost := by
  rw [writePackets_whole hzero hwrote] at harrived
  exact readPackets_open hopen hmallocs hxs harrived

def twoPackets : List (MsgHeader × Bytes) :=
  [(createHeader 2 msgTypeNormal true,ascii "hi"),(createHeader 1 msgTypeAdmin false,ascii "!")]

def twoArrive : PacketReader where
  input := [.data [0,0,0,2,0],.interrupted,.data [1,104],.data [105,0,0,0,1,1,0,33]]
  mallocs := []
  blocks := .empty
  headerOut := .zero _
  payloadOut := none

theorem packets_round_trip_twoPackets : ∃ (got : List Packet) (r' : PacketReader)
    (lost : List Nat), readPackets twoPackets.length twoArrive = some (got,r') ∧
      Leaves twoPackets [] twoArrive r' got lost :=
  packets_round_trip twoArrive
    [.accepts 4,.interrupted,.accepts 9,.accepts 9,.accepts 6,.accepts 2] twoPackets [] (by decide)
    (by decide) (by decide) ⟨by decide,by decide⟩ (by decide) (by decide)

end PacketReader

end ChatServer
