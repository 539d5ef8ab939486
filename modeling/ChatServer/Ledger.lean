import Mathlib.Data.List.Nodup
import ChatServer.Moves
import ChatServer.QueueInvariant
import ChatServer.Locks

/-! Who owns the packets: in every state of a run each packet that is allocated waits in
the queue of exactly one listed client. -/
set_option autoImplicit false

namespace ChatServer
open ByteString Memory Execution Relation

abbrev Linked (h : Heap MsgPacket) (s : Option Nat) (as : List Nat) : Prop :=
  Chain MsgPacket.next (fun _ _ => True) h s as as

/-- The queue of each listed client owns its cells `A p`, and no other cell is allocated. -/
structure Stocked (w : World) (A : Nat → List Nat) : Prop where
  listed : w.clientList.Nodup
  held : ∀ p ∈ w.clientList, ∃ c, w.clients.get p = some c ∧
    Linked w.packets c.msgQueue.head (A p) ∧ (A p).Nodup ∧ c.msgQueue.tail = (A p).getLast?
  apart : ∀ p ∈ w.clientList, ∀ q ∈ w.clientList, p ≠ q → ∀ a ∈ A p, a ∉ A q
  owned : ∀ a m, w.packets.get a = some m → ∃ p ∈ w.clientList, a ∈ A p

namespace Stocked
variable {w w' : World} {A : Nat → List Nat} {p : Nat}

theorem cell (h : Stocked w A) (hp : p ∈ w.clientList) {a : Nat} (ha : a ∈ A p) :
    ∃ m, w.packets.get a = some m := by
  obtain ⟨c,-,hlink,-,-⟩ := h.held p hp
  obtain ⟨m,hm,-⟩ := hlink.live ha
  exact ⟨m,hm⟩

theorem update (h : Stocked w A) (hp : p ∈ w.clientList) {c : ClientInfo} {l : List Nat}
    (hlist : w'.clientList = w.clientList) (hself : w'.clients.get p = some c)
    (hothers : ∀ q, q ≠ p → w'.clients.get q = w.clients.get q)
    (hlink : Linked w'.packets c.msgQueue.head l) (hnd : l.Nodup)
    (htail : c.msgQueue.tail = l.getLast?)
    (hnew : ∀ a ∈ l, a ∈ A p ∨ w.packets.get a = none)
    (hkept : ∀ a, a ∉ A p → a ∉ l → w'.packets.get a = w.packets.get a)
    (hgone : ∀ a ∈ A p, a ∉ l → w'.packets.get a = none) :
    Stocked w' (fun q => if q = p then l else A q) := by
  have hforeign : ∀ q ∈ w.clientList, q ≠ p → ∀ a ∈ A q, a ∉ A p ∧ a ∉ l := by
    intro q hq hqp a ha
    have hown := h.apart q hq p hp hqp a ha
    refine ⟨hown,fun hin => ?_⟩
    rcases hnew a hin with hmine | hfree
    · exact hown hmine
    · obtain ⟨m,hm⟩ := h.cell hq ha
      rw [hfree] at hm
      cases hm
  refine ⟨by rw [hlist]; exact h.listed,?_,?_,?_⟩
  · intro q hq
    rw [hlist] at hq
    by_cases hqp : q = p
    · subst hqp
      simp only [if_true]
      exact ⟨c,hself,hlink,hnd,htail⟩
    · obtain ⟨i,hi,hl,hn,ht⟩ := h.held q hq
      simp only [hqp,if_false]
      refine ⟨i,by rw [hothers q hqp,hi],hl.frame (fun a ha => ?_),hn,ht⟩
      obtain ⟨hout,hout'⟩ := hforeign q hq hqp a ha
      exact hkept a hout hout'
  · intro q hq r hr hqr a ha har
    rw [hlist] at hq hr
    by_cases hqp : q = p
    · subst hqp
      simp only [if_true,Ne.symm hqr,if_false] at ha har
      exact (hforeign r hr (Ne.symm hqr) a har).2 ha
    · by_cases hrp : r = p
      · subst hrp
        simp only [if_true,hqp,if_false] at ha har
        exact (hforeign q hq hqp a ha).2 har
      · simp only [hqp,hrp,if_false] at ha har
        exact h.apart q hq r hr hqr a ha har
  · intro a m hm
    rw [hlist]
    by_cases has : a ∈ l
    · exact ⟨p,hp,by simp [has]⟩
    · by_cases hmine : a ∈ A p
      · rw [hgone a hmine has] at hm
        cases hm
      · rw [hkept a hmine has] at hm
        obtain ⟨q,hq,ha⟩ := h.owned a m hm
        have hqp : q ≠ p := by
          rintro rfl
          exact hmine ha
        exact ⟨q,hq,by simpa [hqp] using ha⟩

theorem congr (h : Stocked w A) (hlist : w'.clientList = w.clientList)
    (hclients : ∀ q ∈ w.clientList, w'.clients.get q = w.clients.get q)
    (hpackets : ∀ a, w'.packets.get a = w.packets.get a) : Stocked w' A := by
  refine ⟨by rw [hlist]; exact h.listed,?_,by rw [hlist]; exact h.apart,?_⟩
  · intro q hq
    rw [hlist] at hq
    obtain ⟨c,hc,hlink,hrest⟩ := h.held q hq
    exact ⟨c,by rw [hclients q hq,hc],hlink.frame (fun a _ => hpackets a),hrest⟩
  · intro a m hm
    rw [hpackets] at hm
    rw [hlist]
    exact h.owned a m hm

theorem record (h : Stocked w A) {c c' : ClientInfo} (hc : w.clients.get p = some c)
    (hhead : c'.msgQueue.head = c.msgQueue.head) (htail : c'.msgQueue.tail = c.msgQueue.tail) :
    Stocked (w.putClient p c') A := by
  refine ⟨h.listed,?_,h.apart,h.owned⟩
  intro q hq
  obtain ⟨i,hi,hlink,hnd,ht⟩ := h.held q hq
  by_cases hqp : q = p
  · subst hqp
    obtain rfl := Option.some.inj (hc.symm.trans hi)
    refine ⟨c',Heap.get_set_self _ _ _,?_,hnd,htail.trans ht⟩
    rw [hhead]
    exact hlink
  · exact ⟨i,(Heap.get_set_of_ne _ _ hqp).trans hi,hlink,hnd,ht⟩

theorem patch (h : Stocked w A) {a : Nat} {m m' : MsgPacket} (hm : w.packets.get a = some m)
    (hnext : m'.next = m.next) : Stocked (w.putPacket a m') A := by
  refine ⟨h.listed,?_,h.apart,?_⟩
  · intro q hq
    obtain ⟨c,hc,hlink,hrest⟩ := h.held q hq
    refine ⟨c,hc,hlink.relink (fun b _ d hd => ?_),hrest⟩
    by_cases hba : b = a
    · subst hba
      obtain rfl := Option.some.inj (hm.symm.trans hd)
      exact ⟨m',Heap.get_set_self _ _ _,hnext,fun _ hx => hx⟩
    · exact ⟨d,(Heap.get_set_of_ne _ _ hba).trans hd,rfl,fun _ hx => hx⟩
  · intro b d hd
    by_cases hba : b = a
    · subst hba
      exact h.owned b m hm
    · exact h.owned b d ((Heap.get_set_of_ne _ _ hba).symm.trans hd)

theorem pop (h : Stocked w A) (hp : p ∈ w.clientList) {a : Nat} {c c' : ClientInfo}
    {m : MsgPacket} (hc : w.clients.get p = some c) (ha : c.msgQueue.head = some a)
    (hm : w.packets.get a = some m) (hhead : c'.msgQueue.head = m.next)
    (htail : c'.msgQueue.tail = if m.next = none then none else c.msgQueue.tail) :
    ∃ B, Stocked ((w.freePacket a).putClient p c') B := by
  obtain ⟨i,hi,hlink,hnd,ht⟩ := h.held p hp
  obtain rfl := Option.some.inj (hc.symm.trans hi)
  cases hcells : A p with
  | nil =>
    rw [hcells,ha] at hlink
    cases hlink
  | cons b as =>
    rw [hcells] at hlink hnd ht
    obtain ⟨hs,d,hd,-,hrest⟩ := hlink
    obtain rfl : a = b := Option.some.inj (ha.symm.trans hs)
    obtain rfl := Option.some.inj (hm.symm.trans hd)
    obtain ⟨hnot,hnd'⟩ := List.nodup_cons.mp hnd
    have hframe : ∀ e, e ≠ a → (w.packets.free a).get e = w.packets.get e :=
      fun e he => Heap.get_free_of_ne _ he
    refine ⟨_,h.update hp (l := as) rfl (Heap.get_set_self _ _ _)
      (fun q hq => Heap.get_set_of_ne _ _ hq) ?_ hnd' ?_ ?_ ?_ ?_⟩
    · rw [hhead]
      exact hrest.frame (fun e he => hframe e (fun hea => hnot (hea ▸ he)))
    · rw [htail,ht,hrest.start_eq]
      cases as with
      | nil => rfl
      | cons e as => simp
    · intro e he
      rw [hcells]
      exact .inl (List.mem_cons_of_mem _ he)
    · intro e he _
      refine hframe e (fun hea => he ?_)
      rw [hcells,hea]
      exact List.mem_cons_self
    · intro e he hout
      rw [hcells] at he
      obtain rfl := (List.mem_cons.mp he).resolve_right hout
      exact Heap.get_free_self _ _

theorem first (h : Stocked w A) (hp : p ∈ w.clientList) {a : Nat} {c c' : ClientInfo}
    {m : MsgPacket} (hc : w.clients.get p = some c) (ha : w.packets.get a = none)
    (hm : m.next = none) (hempty : c.msgQueue.tail = none) (hhead : c'.msgQueue.head = some a)
    (htail : c'.msgQueue.tail = some a) : ∃ B, Stocked ((w.putPacket a m).putClient p c') B := by
  obtain ⟨i,hi,-,-,ht⟩ := h.held p hp
  obtain rfl := Option.some.inj (hc.symm.trans hi)
  rw [hempty] at ht
  have hnil : A p = [] := List.getLast?_eq_none_iff.mp ht.symm
  have hself : (w.packets.set a m).get a = some m := Heap.get_set_self _ _ _
  refine ⟨_,h.update hp (l := [a]) rfl (Heap.get_set_self _ _ _)
    (fun q hq => Heap.get_set_of_ne _ _ hq) ⟨hhead,m,hself,True.intro,hm⟩
    (by simp) htail ?_ ?_ ?_⟩
  · intro e he
    rw [List.mem_singleton.mp he]
    exact .inr ha
  · intro e _ he
    exact Heap.get_set_of_ne _ _ (by simpa using he)
  · intro e he
    rw [hnil] at he
    cases he

theorem push (h : Stocked w A) (hp : p ∈ w.clientList) {a t : Nat} {c c' : ClientInfo}
    {m last : MsgPacket} (hc : w.clients.get p = some c) (ha : w.packets.get a = none)
    (hm : m.next = none) (ht : c.msgQueue.tail = some t)
    (hlast : (w.packets.set a m).get t = some last)
    (hhead : c'.msgQueue.head = c.msgQueue.head) (htail : c'.msgQueue.tail = some a) :
    ∃ B, Stocked (((w.putPacket a m).putPacket t { last with next := some a }).putClient p c')
      B := by
  obtain ⟨i,hi,hlink,hnd,hend⟩ := h.held p hp
  obtain rfl := Option.some.inj (hc.symm.trans hi)
  rw [ht] at hend
  obtain ⟨as,has⟩ : ∃ as, A p = as ++ [t] := List.getLast?_eq_some_iff.mp hend.symm
  have hlive : ∀ e ∈ A p, e ≠ a := by
    rintro e he rfl
    obtain ⟨d,hd⟩ := h.cell hp he
    rw [ha] at hd
    cases hd
  have hta : t ≠ a := hlive t (by rw [has]; simp)
  have hold : w.packets.get t = some last := (Heap.get_set_of_ne _ _ hta).symm.trans hlast
  have hframe : ∀ e, e ≠ t → e ≠ a → ((w.packets.set a m).set t
      { last with next := some a }).get e = w.packets.get e := by
    intro e het hea
    rw [Heap.get_set_of_ne _ _ het,Heap.get_set_of_ne _ _ hea]
  rw [has] at hlink hnd
  have hbefore : ∀ e ∈ as, e ≠ t := by
    rintro e he rfl
    exact (List.nodup_append.mp hnd).2.2 e he e (by simp) rfl
  refine ⟨_,h.update hp (l := as ++ [t] ++ [a]) rfl (Heap.get_set_self _ _ _)
    (fun q hq => Heap.get_set_of_ne _ _ hq) ?_ ?_ (by rw [htail]; simp) ?_ ?_ ?_⟩
  · rw [hhead]
    refine hlink.snoc (y := a) (d := m) ?_ ?_ ?_ hm True.intro
    · exact fun e he => hframe e (hbefore e he) (hlive e (by rw [has]; simp [he]))
    · intro d hd
      obtain rfl := Option.some.inj (hold.symm.trans hd)
      exact ⟨_,Heap.get_set_self _ _ _,rfl,fun _ hx => hx⟩
    · exact (Heap.get_set_of_ne _ _ (Ne.symm hta)).trans (Heap.get_set_self _ _ _)
  · refine List.nodup_append.mpr ⟨hnd,by simp,?_⟩
    intro e he b hb
    rw [List.mem_singleton.mp hb]
    exact hlive e (by rw [has]; exact he)
  · intro e he
    rcases List.mem_append.mp he with hin | hnew
    · exact .inl (by rw [has]; exact hin)
    · rw [List.mem_singleton.mp hnew]
      exact .inr ha
  · intro e he hout
    refine hframe e ?_ ?_
    · rintro rfl
      exact he (by rw [has]; simp)
    · rintro rfl
      exact hout (by simp)
  · intro e he hout
    rw [has] at he
    exact absurd (List.mem_append_left [a] he) hout

end Stocked

def World.Stocked (w : World) : Prop := ∃ A, ChatServer.Stocked w A

theorem Move.stocked {w w' : World} {o : Option Nat} (h : Move o w w') (hs : w.Stocked) : w'.Stocked := by
  obtain ⟨A,hs⟩ := hs
  cases h with
  | record hc _ hhead htail => exact ⟨A,hs.record hc hhead htail⟩
  | sock _ _ => exact ⟨A,hs.congr rfl (fun _ _ => rfl) (fun _ => rfl)⟩
  | rest hclients _ hlist _ _ hpackets =>
    exact ⟨A,hs.congr hlist (fun q _ => by rw [hclients]) hpackets⟩
  | patch hm hnext => exact ⟨A,hs.patch hm hnext⟩
  | pop hp hc ha hm _ hhead htail => exact hs.pop hp hc ha hm hhead htail
  | first hp hc ha hm hempty _ hhead htail => exact hs.first hp hc ha hm hempty hhead htail
  | push hp hc ha hm ht hlast _ hhead htail => exact hs.push hp hc ha hm ht hlast hhead htail

theorem Moves.stocked {w w' : World} {o : Option Nat} (h : Moves o w w') (hs : w.Stocked) : w'.Stocked := by
  induction h with
  | refl => exact hs
  | tail _ hmove ih => exact hmove.stocked ih

section Leaving
variable {w : World} {A : Nat → List Nat} {p : Nat}

theorem freeQueue_frees (fuel : Nat) {as : List Nat} {c : ClientInfo} {w : World}
    (hc : w.clients.get p = some c) (hlink : Linked w.packets c.msgQueue.head as)
    (hnd : as.Nodup) : Holds (fun _ => fuel ≤ as.length) (freeQueue fuel w p) (fun w' =>
      SameRest w w' ∧ w'.socks = w.socks ∧
        (∃ c', w'.clients.get p = some c' ∧ c'.clientFd = c.clientFd) ∧
        (∀ q, q ≠ p → w'.clients.get q = w.clients.get q) ∧
        ∀ a, w'.packets.get a = if a ∈ as then none else w.packets.get a) := by
  induction fuel generalizing w c as with
  | zero => exact Nat.zero_le as.length
  | succ fuel ih =>
    unfold freeQueue
    simp only [World.client_eq_ok hc,ok_bind]
    cases as with
    | nil =>
      have hhead : c.msgQueue.head = none := hlink
      rw [hhead]
      exact ⟨⟨rfl,rfl,rfl,rfl,rfl,rfl⟩,rfl,⟨c,hc,rfl⟩,fun _ _ => rfl,fun _ => by simp⟩
    | cons a as =>
      obtain ⟨hhead,m,hm,-,hrest⟩ := hlink
      obtain ⟨hnot,hnd'⟩ := List.nodup_cons.mp hnd
      simp only [hhead,World.packet_eq_ok hm,ok_bind]
      have hrest' : Linked (w.packets.free a) m.next as :=
        hrest.frame (fun b hb => Heap.get_free_of_ne _ (fun he => hnot (he ▸ hb)))
      refine (ih (w := (w.freePacket a).putClient p
        { c with msgQueue := { c.msgQueue with head := m.next } })
        (Heap.get_set_self _ _ _) hrest' hnd').weaken (fun _ h => Nat.succ_le_succ h) ?_
      rintro w' ⟨hsame,hsocks,⟨c',hc',hfd⟩,hothers,hcells⟩
      refine ⟨hsame,hsocks,⟨c',hc',hfd⟩,
        fun q hq => (hothers q hq).trans (Heap.get_set_of_ne _ _ hq),?_⟩
      intro b
      have hfree : ((w.freePacket a).putClient p
          { c with msgQueue := { c.msgQueue with head := m.next } }).packets = w.packets.free a :=
        rfl
      rw [hcells,hfree]
      by_cases hba : b = a
      · subst hba
        simp
      · simp [hba,Heap.get_free_of_ne _ hba]

theorem Stocked.leave {w' : World} (h : Stocked w A) (hp : p ∈ w.clientList)
    (hlist : w'.clientList.Perm (w.clientList.erase p))
    (hothers : ∀ q, q ≠ p → w'.clients.get q = w.clients.get q)
    (hcells : ∀ a, w'.packets.get a = if a ∈ A p then none else w.packets.get a) :
    Stocked w' A := by
  have hstay : ∀ q ∈ w'.clientList, q ∈ w.clientList ∧ q ≠ p := by
    intro q hq
    have hmem := hlist.mem_iff.mp hq
    exact ⟨List.mem_of_mem_erase hmem,fun he => h.listed.not_mem_erase (he ▸ hmem)⟩
  refine ⟨hlist.nodup_iff.mpr (h.listed.erase p),?_,?_,?_⟩
  · intro q hq
    obtain ⟨hmem,hqp⟩ := hstay q hq
    obtain ⟨c,hc,hlink,hrest⟩ := h.held q hmem
    refine ⟨c,(hothers q hqp).trans hc,hlink.frame (fun a ha => ?_),hrest⟩
    rw [hcells,if_neg (h.apart q hmem p hp hqp a ha)]
  · exact fun q hq r hr hqr => h.apart q (hstay q hq).1 r (hstay r hr).1 hqr
  · intro a m hm
    rw [hcells] at hm
    by_cases ha : a ∈ A p
    · rw [if_pos ha] at hm
      cases hm
    · rw [if_neg ha] at hm
      obtain ⟨q,hq,haq⟩ := h.owned a m hm
      have hqp : q ≠ p := by
        rintro rfl
        exact ha haq
      exact ⟨q,hlist.mem_iff.mpr ((List.mem_erase_of_ne hqp).mpr hq),haq⟩

/-- A listed client is removed, and nobody else loses a record or a descriptor. -/
theorem removeClientFromList_leaves (hp : p ∈ w.clientList) {c : ClientInfo}
    (hc : w.clients.get p = some c) :
    Always (removeClientFromList w p) (fun res =>
      res.1.clientList.Perm (w.clientList.erase p) ∧ res.1.packets = w.packets ∧
        (∀ q, q ≠ p → res.1.clients.get q = w.clients.get q) ∧
        res.1.socks = w.socks.free c.clientFd ∧
        ∃ k, w.socks.get c.clientFd = some k ∧
          (k.oracle.closeOk = true → res.1.clients.get p = none)) := by
  unfold removeClientFromList World.lock
  split
  · exact True.intro
  · rw [ok_bind]
    obtain ⟨i,hi⟩ : ∃ i, w.clientList.idxOf? p = some i := by
      rw [← Option.isSome_iff_exists,List.isSome_idxOf?]
      exact hp
    simp only [hi]
    have hperm := swapRemove_perm hi
    refine Always.intro (fun res hres => ?_)
    cases hclean : cleanupClient
        ({ w with clientMutex := true, clientList := swapRemove w.clientList i }.unlock) p with
    | error e => simp [hclean] at hres
    | ok out =>
      obtain ⟨w₁,r⟩ := out
      rw [hclean,ok_bind] at hres
      obtain ⟨d,k,hd,hk,⟨-,rfl,rfl⟩ | ⟨hbad,rfl,rfl⟩⟩ := cleanupClient_eq hclean
      · obtain rfl := Option.some.inj (hc.symm.trans hd)
        cases hres
        exact ⟨hperm,rfl,fun q hq => Heap.get_free_of_ne _ hq,rfl,k,hk,
          fun _ => Heap.get_free_self _ _⟩
      · obtain rfl := Option.some.inj (hc.symm.trans hd)
        cases hres
        refine ⟨hperm,rfl,fun _ _ => rfl,rfl,k,hk,fun hok => ?_⟩
        rw [hbad] at hok
        cases hok

theorem reapClient_leaves (h : Stocked w A) (hp : p ∈ w.clientList) {c : ClientInfo}
    (hc : w.clients.get p = some c) : Always (reapClient w p) (fun w' =>
      w'.clientList.Perm (w.clientList.erase p) ∧
        (∀ a, w'.packets.get a = if a ∈ A p then none else w.packets.get a) ∧
        (∀ q, q ≠ p → w'.clients.get q = w.clients.get q) ∧
        (∀ f, w'.socks.get f = if f = c.clientFd then none else w.socks.get f) ∧
        ∃ k, w.socks.get c.clientFd = some k ∧
          (k.oracle.closeOk = true → w'.clients.get p = none)) := by
  unfold reapClient
  simp only [World.client_eq_ok hc,ok_bind]
  have hdel : Always (epollCtlDel w c.clientFd) (fun w₁ => ∃ k k', w₁ = w.putSock c.clientFd k' ∧
      w.socks.get c.clientFd = some k ∧ k'.oracle.closeOk = k.oracle.closeOk) := by
    unfold epollCtlDel
    exact (sock_got w c.clientFd).bind (fun k hk => ⟨k,_,rfl,hk,rfl⟩)
  refine hdel.bind ?_
  rintro w₁ ⟨k,k',rfl,hk,hclose⟩
  have h₁ : Stocked (w.putSock c.clientFd k') A := h.congr rfl (fun _ _ => rfl) (fun _ => rfl)
  obtain ⟨i,hi,hlink,hnd,-⟩ := h₁.held p hp
  obtain rfl := Option.some.inj (hc.symm.trans hi)
  refine Holds.bind (P := fun w₂ => SameRest (w.putSock c.clientFd k') w₂ ∧
      w₂.socks = (w.putSock c.clientFd k').socks ∧
      (∃ c', w₂.clients.get p = some c' ∧ c'.clientFd = c.clientFd) ∧
      (∀ q, q ≠ p → w₂.clients.get q = w.clients.get q) ∧
      ∀ a, w₂.packets.get a = if a ∈ A p then none else w.packets.get a) ?_ ?_
  · unfold freeClientQueue
    simp only [World.client_eq_ok hi,ok_bind]
    exact (freeQueue_frees _ hi hlink hnd).weaken (fun _ _ => True.intro) (fun _ h => h)
  rintro w₂ ⟨⟨hlist₂,-⟩,hsocks₂,⟨c₂,hc₂,hfd₂⟩,hothers₂,hcells₂⟩
  have hp₂ : p ∈ w₂.clientList := by
    rw [hlist₂]
    exact hp
  refine (removeClientFromList_leaves hp₂ hc₂).bind ?_
  rintro ⟨w₃,r⟩ ⟨hlist₃,hpackets₃,hothers₃,hsocks₃,hrecord₃⟩
  have hlist₃' : w₃.clientList.Perm (w₂.clientList.erase p) := hlist₃
  have hpackets₃' : w₃.packets = w₂.packets := hpackets₃
  have hsocks₃' : w₃.socks = w₂.socks.free c₂.clientFd := hsocks₃
  refine ⟨?_,?_,fun q hq => (hothers₃ q hq).trans (hothers₂ q hq),?_,?_⟩
  · rw [hlist₂] at hlist₃'
    exact hlist₃'
  · intro a
    rw [hpackets₃']
    exact hcells₂ a
  · intro f
    rw [hsocks₃',hfd₂,hsocks₂]
    by_cases hf : f = c.clientFd
    · rw [if_pos hf,hf]
      exact Heap.get_free_self _ _
    · rw [if_neg hf]
      exact (Heap.get_free_of_ne _ hf).trans (Heap.get_set_of_ne _ _ hf)
  · obtain ⟨j,hj,hgone⟩ := hrecord₃
    rw [hfd₂,hsocks₂] at hj
    obtain rfl := Option.some.inj ((Heap.get_set_self _ _ _).symm.trans hj)
    exact ⟨k,hk,fun hok => hgone (hclose.trans hok)⟩

theorem reapClient_stocked (h : w.Stocked) (hp : p ∈ w.clientList) :
    Always (reapClient w p) World.Stocked := by
  obtain ⟨A,h⟩ := h
  obtain ⟨c,hc,-⟩ := h.held p hp
  refine (reapClient_leaves h hp hc).mono ?_
  rintro w' ⟨hlist,hcells,hothers,-⟩
  exact ⟨A,h.leave hp hlist hothers hcells⟩

theorem reapLoop_rule {I : World → Prop}
    (hI : ∀ w p, I w → p ∈ w.clientList → Always (reapClient w p) I) (fuel i : Nat) {w : World}
    (h : I w) : Always (reapLoop fuel i w) I := by
  induction fuel generalizing i w with
  | zero => exact h
  | succ fuel ih =>
    unfold reapLoop
    cases hget : w.clientList[i]? with
    | none => exact h
    | some p =>
      refine (Always.trivial _).bind (fun c _ => ?_)
      split
      · exact (hI w p h (List.mem_of_getElem? hget)).bind (fun w₁ h₁ => ih (i+1) h₁)
      · exact ih (i+1) h

end Leaving

/-- What becomes of one connection that `accept_new_clients` takes. Its descriptor and
the record are new, and stay behind when a later call for it fails. -/
inductive Admits (w : World) (i : Incoming) (w' : World) : Prop
  | strayed (hbad : i.fcntlOk = false ∨ i.block = none ∨ i.addOk = false)
      (hpackets : w'.packets = w.packets) (hlist : w'.clientList = w.clientList)
      (hclients : ∀ q, w.clients.get q ≠ none → w'.clients.get q = w.clients.get q)
      (hsocks : ∀ f, w'.socks.get f = if f = w.socks.fresh i.fd then
        some (newSock w i.oracle) else w.socks.get f)
  | joined {hint : Nat} {old : ClientInfo} {junk : Bytes} (hroom : w.clientList.length < maxClients)
      (hpackets : w'.packets = w.packets)
      (hlist : w'.clientList = w.clientList ++ [w.clients.fresh hint])
      (hclients : ∀ q, w'.clients.get q = if q = w.clients.fresh hint then
        some (clientInfoInit old (w.socks.fresh i.fd) (some junk)).1 else w.clients.get q)
      (hsocks : ∀ f, w'.socks.get f = if f = w.socks.fresh i.fd then
        some { newSock w i.oracle with
          registration := some ⟨⟨true,false,true⟩,w.clients.fresh hint⟩ } else w.socks.get f)
  | refused (hfull : maxClients ≤ w.clientList.length) (hpackets : w'.packets = w.packets)
      (hlist : w'.clientList = w.clientList)
      (hclients : ∀ q, w'.clients.get q = w.clients.get q)
      (hsocks : ∀ f, w'.socks.get f = w.socks.get f)

section Accepting
variable {w : World} {i : Incoming}

theorem addClientToList_admits {hint : Nat} {old : ClientInfo} {junk : Bytes}
    {u : World} (hclients : ∀ q, u.clients.get q = if q = w.clients.fresh hint then
        some (clientInfoInit old (w.socks.fresh i.fd) (some junk)).1 else w.clients.get q)
    (hsocks : ∀ f, u.socks.get f = if f = w.socks.fresh i.fd then
        some { newSock w i.oracle with
          registration := some ⟨⟨true,false,true⟩,w.clients.fresh hint⟩ } else w.socks.get f)
    (hpackets : u.packets = w.packets) (hlist : u.clientList = w.clientList) :
    Always (addClientToList u (w.clients.fresh hint)) (fun res => Admits w i res.1) := by
  cases hmutex : u.clientMutex with
  | true =>
    unfold addClientToList World.lock
    simp only [hmutex,if_true]
    exact True.intro
  | false =>
    have hc : u.clients.get (w.clients.fresh hint) =
        some (clientInfoInit old (w.socks.fresh i.fd) (some junk)).1 := by simp [hclients]
    have hk : u.socks.get (w.socks.fresh i.fd) = some { newSock w i.oracle with
        registration := some ⟨⟨true,false,true⟩,w.clients.fresh hint⟩ } := by simp [hsocks]
    rw [addClientToList_eq hmutex hc hk]
    by_cases hroom : u.clientList.length < maxClients
    · rw [if_pos hroom]
      exact .joined (by rw [← hlist]; exact hroom) hpackets (by rw [← hlist]) hclients hsocks
    · rw [if_neg hroom]
      refine .refused (by rw [← hlist]; exact Nat.not_lt.mp hroom) hpackets hlist ?_ ?_
      · intro q
        by_cases hq : q = w.clients.fresh hint
        · rw [hq,Heap.get_fresh]
          exact Heap.get_free_self _ _
        · have hq' := hclients q
          rw [if_neg hq] at hq'
          exact (Heap.get_free_of_ne _ hq).trans hq'
      · intro f
        by_cases hf : f = w.socks.fresh i.fd
        · rw [hf,Heap.get_fresh]
          exact Heap.get_free_self _ _
        · have hf' := hsocks f
          rw [if_neg hf] at hf'
          exact (Heap.get_free_of_ne _ hf).trans hf'

theorem acceptJoin_admits {I : World → Prop} {fd p hint : Nat} {old : ClientInfo} {junk : Bytes}
    {rest : List AcceptRes} (hfd : fd = w.socks.fresh i.fd) (hp : p = w.clients.fresh hint)
    (htaken : ∀ w', Admits w i w' → I w')
    (hrest : ∀ w', I w' → Always (acceptNewClients rest w') (fun res => I res.1)) :
    Always (do
      let w := { w.putSock fd (newSock w i.oracle) with accepted := w.accepted+1 }.putClient p
        (clientInfoInit old fd (some junk)).1
      let k ← w.sock fd
      let w := w.putSock fd { k with registration := some ⟨⟨true,false,true⟩,p⟩ }
      let (w,r) ← addClientToList w p
      if r = -1 then pure (w,-1) else acceptNewClients rest w) (fun res => I res.1) := by
  have hk : World.sock ({ w.putSock fd (newSock w i.oracle) with
      accepted := w.accepted+1 }.putClient p (clientInfoInit old fd (some junk)).1) fd =
      .ok (newSock w i.oracle) := World.sock_eq_ok (Heap.get_set_self _ _ _)
  simp only [hk,ok_bind]
  generalize hu : World.putSock ({ w.putSock fd (newSock w i.oracle) with
      accepted := w.accepted+1 }.putClient p (clientInfoInit old fd (some junk)).1) fd
      { newSock w i.oracle with registration := some ⟨⟨true,false,true⟩,p⟩ } = u
  have hclients : ∀ q, u.clients.get q =
      if q = p then some (clientInfoInit old fd (some junk)).1 else w.clients.get q := by
    rw [← hu]
    exact fun q => rfl
  have hsocks : ∀ f, u.socks.get f = if f = fd then
      some { newSock w i.oracle with registration := some ⟨⟨true,false,true⟩,p⟩ }
      else w.socks.get f := by
    intro f
    rw [← hu]
    by_cases hf : f = fd
    · rw [if_pos hf,hf]
      exact Heap.get_set_self _ _ _
    · rw [if_neg hf]
      exact (Heap.get_set_of_ne _ _ hf).trans (Heap.get_set_of_ne _ _ hf)
  have hpackets : u.packets = w.packets := by
    rw [← hu]
    rfl
  have hlist : u.clientList = w.clientList := by
    rw [← hu]
    rfl
  subst hfd hp
  refine (addClientToList_admits hclients hsocks hpackets hlist).bind ?_
  rintro ⟨w₁,r⟩ h₁
  simp only
  split
  · exact htaken w₁ h₁
  · exact hrest w₁ (htaken w₁ h₁)

/-- What every admission keeps, `accept_new_clients` keeps. -/
theorem acceptNewClients_rule {I : World → Prop} (accepts : List AcceptRes)
    (hI : ∀ i w w', .conn i ∈ accepts → I w → Admits w i w' → I w') {w : World} (h : I w) :
    Always (acceptNewClients accepts w) (fun res => I res.1) := by
  induction accepts generalizing w with
  | nil => exact h
  | cons a rest ih =>
    cases a with
    | wouldBlock => exact h
    | fails => exact h
    | conn i =>
      have htaken : ∀ w', Admits w i w' → I w' := fun w' hw' => hI i w w' (by simp) h hw'
      have hrest := fun w' (hw' : I w') => ih (fun j u u' hj => hI j u u' (by simp [hj])) hw'
      have hsocks : ∀ f, (w.socks.set (w.socks.fresh i.fd) (newSock w i.oracle)).get f =
          if f = w.socks.fresh i.fd then some (newSock w i.oracle) else w.socks.get f :=
        fun f => Heap.get_set _ _ _ _
      unfold acceptNewClients
      simp only
      split
      · rename_i hfcntl
        exact htaken _ (.strayed (.inl hfcntl) rfl rfl (fun _ _ => rfl) hsocks)
      · split
        · exact True.intro
        · rename_i hint old hinfo
          have hother : ∀ (c : ClientInfo) q, w.clients.get q ≠ none →
              (w.clients.set (w.clients.fresh hint) c).get q = w.clients.get q := by
            intro c q hq
            refine Heap.get_set_of_ne _ _ ?_
            rintro rfl
            exact hq (Heap.get_fresh _ _)
          cases hblock : i.block with
          | none => exact htaken _ (.strayed (.inr (.inl hblock)) rfl rfl (hother _) hsocks)
          | some junk =>
            have hinit : (clientInfoInit old (w.socks.fresh i.fd) (some junk)).2 = 0 := rfl
            have hzero : ¬ (0 : Int) = -1 := by decide
            simp only [hinit,hzero,if_false]
            split
            · rename_i hadd
              exact htaken _ (.strayed (.inr (.inr hadd)) rfl rfl (hother _) hsocks)
            · exact acceptJoin_admits rfl rfl htaken hrest

theorem Admits.stocked {w' : World} (h : Admits w i w') (hs : w.Stocked) : w'.Stocked := by
  obtain ⟨A,hs⟩ := hs
  have hlive : ∀ q ∈ w.clientList, w.clients.get q ≠ none := by
    intro q hq hnone
    obtain ⟨c,hc,-⟩ := hs.held q hq
    rw [hnone] at hc
    cases hc
  cases h with
  | strayed _ hpackets hlist hclients _ =>
    exact ⟨A,hs.congr hlist (fun q hq => hclients q (hlive q hq)) (fun a => by rw [hpackets])⟩
  | refused _ hpackets hlist hclients _ =>
    exact ⟨A,hs.congr hlist (fun q _ => hclients q) (fun a => by rw [hpackets])⟩
  | @joined hint old junk _ hpackets hlist hclients _ =>
    have hnew : ∀ q ∈ w.clientList, q ≠ w.clients.fresh hint := by
      rintro q hq rfl
      exact hlive _ hq (Heap.get_fresh _ _)
    have hcells : ∀ q ∈ w.clientList, (if q = w.clients.fresh hint then [] else A q) = A q :=
      fun q hq => if_neg (hnew q hq)
    refine ⟨fun q => if q = w.clients.fresh hint then [] else A q,?_,?_,?_,?_⟩
    · rw [hlist]
      refine List.nodup_append.mpr ⟨hs.listed,by simp,?_⟩
      intro q hq r hr
      rw [List.mem_singleton.mp hr]
      exact hnew q hq
    · intro q hq
      rw [hlist] at hq
      rcases List.mem_append.mp hq with hold | hlast
      · obtain ⟨c,hc,hlink,hrest⟩ := hs.held q hold
        simp only [hcells q hold]
        rw [hpackets]
        exact ⟨c,by rw [hclients,if_neg (hnew q hold),hc],hlink,hrest⟩
      · rw [List.mem_singleton.mp hlast]
        refine ⟨_,by rw [hclients,if_pos rfl],?_,?_,?_⟩ <;> simp only [if_true]
        · exact (rfl : MsgQueue.empty.head = none)
        · exact List.nodup_nil
        · exact (rfl : MsgQueue.empty.tail = none)
    · intro q hq r hr hqr a ha har
      rw [hlist] at hq hr
      rcases List.mem_append.mp hq with hqold | hqlast
      · rcases List.mem_append.mp hr with hrold | hrlast
        · simp only [hcells q hqold] at ha
          simp only [hcells r hrold] at har
          exact hs.apart q hqold r hrold hqr a ha har
        · simp [List.mem_singleton.mp hrlast] at har
      · simp [List.mem_singleton.mp hqlast] at ha
    · intro a m hm
      rw [hpackets] at hm
      obtain ⟨q,hq,ha⟩ := hs.owned a m hm
      rw [hlist]
      refine ⟨q,List.mem_append_left _ hq,?_⟩
      simp only [hcells q hq]
      exact ha

end Accepting

section Steps
variable {s s' : Sys} {R : Room}

/-- A step of the server serves, reaps, accepts or cleans up. -/
theorem step_keeps {I : World → Prop} {i : Input} (h : Tracks s R)
    (hmoves : ∀ o w, Moves o s.world w → I w)
    (hreap : s.phase = .top → s.world.serverShutdown = false → Always (reapPass s.world) I)
    (haccept : Always (acceptNewClients i.accepts s.world) (fun res => I res.1))
    (hclosing : s.phase ≠ .closing) (hstep : step s (.server i) = .ok s') : I s'.world := by
  have hself : I s.world := hmoves none _ .refl
  unfold step at hstep
  cases hphase : s.phase with
  | closing => exact absurd hphase hclosing
  | done =>
    simp only [hphase] at hstep
    cases hstep
    exact hself
  | top =>
    simp only [hphase] at hstep
    by_cases hshut : s.world.serverShutdown = true
    · rw [if_pos hshut] at hstep
      cases hb : broadcast s.world none shutdownMessage with
      | error e => simp [hb] at hstep
      | ok res =>
        simp only [hb,ok_bind] at hstep
        cases hstep
        exact hmoves _ _ ((broadcast_moves s.world none shutdownMessage).of_ok hb)
    · rw [if_neg hshut] at hstep
      cases hb : reapPass s.world with
      | error e => simp [hb] at hstep
      | ok w =>
        have hw := (hreap hphase (by simpa using hshut)).of_ok hb
        simp only [hb,ok_bind] at hstep
        split at hstep <;>
        · cases hstep
          exact hw
  | batch es =>
    cases es with
    | nil =>
      simp only [hphase] at hstep
      cases hstep
      exact hself
    | cons e es =>
      simp only [hphase] at hstep
      cases hd : dispatch s.world e i.accepts with
      | error e => simp [hd] at hstep
      | ok w =>
        simp only [hd,ok_bind] at hstep
        cases hstep
        obtain ⟨data,bits⟩ := e
        cases data with
        | listen =>
          unfold dispatch at hd
          simp only at hd
          cases hacc : acceptNewClients i.accepts s.world with
          | error e => simp [hacc] at hd
          | ok res =>
            have hres := haccept.of_ok hacc
            simp only [hacc,ok_bind] at hd
            cases hd
            exact hres
        | ptr p =>
          have hp := h.batch _ hphase ⟨.ptr p,bits⟩ (by simp) p rfl
          rw [← h.refines.clientList] at hp
          exact hmoves _ _ ((dispatch_moves s.world hp bits i.accepts).of_ok hd)

theorem onSock_list (w : World) (fd : Nat) (f : Sock → Sock) :
    (w.onSock fd f).accepted = w.accepted ∧ (w.onSock fd f).clientList = w.clientList := by
  unfold World.onSock
  split <;> exact ⟨rfl,rfl⟩

theorem onSock_stocked {w : World} (h : w.Stocked) (fd : Nat) (f : Sock → Sock) :
    (w.onSock fd f).Stocked := by
  obtain ⟨A,h⟩ := h
  unfold World.onSock
  split
  · exact ⟨A,h⟩
  · exact ⟨A,h.congr rfl (fun _ _ => rfl) (fun _ => rfl)⟩

theorem step_stocked {a : Action} (h : Tracks s R) (hs : s.world.Stocked)
    (hstep : step s a = .ok s') (hdone : s'.phase ≠ .done) : s'.world.Stocked := by
  cases a with
  | net fd bs fin reset =>
    cases hstep
    exact onSock_stocked hs fd _
  | plan fd oracle =>
    cases hstep
    exact onSock_stocked hs fd _
  | clock ts =>
    cases hstep
    obtain ⟨A,hs⟩ := hs
    exact ⟨A,hs.congr rfl (fun _ _ => rfl) (fun _ => rfl)⟩
  | server i =>
    have hclosing : s.phase ≠ .closing := fun h => hdone (step_closing h hstep)
    have hreap := reapLoop_rule (fun w p => reapClient_stocked (w := w) (p := p))
      s.world.clientList.length 0 hs
    refine step_keeps h (fun _ w hw => hw.stocked hs) (fun _ _ => hreap) ?_ hclosing hstep
    exact acceptNewClients_rule i.accepts (fun j w w' _ hw htaken => htaken.stocked hw) hs

end Steps

theorem init_stocked : World.init.Stocked := by
  refine ⟨fun _ => [],List.nodup_nil,?_,?_,?_⟩
  · intro p hp
    cases hp
  · intro p hp
    cases hp
  · intro a m hm
    cases hm

theorem run_stocked {acts : List Action} {s : Sys} (hrun : run step Sys.init acts = .ok s)
    (hphase : s.phase ≠ .done) : s.world.Stocked := by
  refine run_induction_reached (I := fun t => t.phase ≠ .done → t.world.Stocked) ?_ ?_ hrun hphase
  · intro before t a t' _ hbefore ht hstep hdone
    have hnow : t.phase ≠ .done := fun h => hdone (step_done h hstep)
    obtain ⟨R,htracks,-,-⟩ := run_tracks hbefore hnow
    exact step_stocked htracks (ht hnow) hstep hdone
  · exact fun _ => init_stocked

def World.queueCells (w : World) (p : Nat) : List Nat :=
  match w.clients.get p with
  | none => []
  | some c => c.msgQueue.path w.packets

def World.queuedCells (w : World) : List Nat := w.clientList.flatMap w.queueCells

theorem Tracks.queueCells_eq {s : Sys} {R : Room} {A : Nat → List Nat} {p : Nat}
    (h : Tracks s R) (hs : ChatServer.Stocked s.world A) (hp : p ∈ s.world.clientList) :
    s.world.queueCells p = A p := by
  obtain ⟨B,hrep⟩ := h.refines
  obtain ⟨c,hc,hlink,-⟩ := hs.held p hp
  rw [hrep.members] at hp
  obtain ⟨q,hc',-,hq,-⟩ := hrep.owns p hp
  obtain rfl := Option.some.inj (hc.symm.trans hc')
  have hcells : B p = A p := hq.chain.cells_eq hlink
  have hwalk : (MsgQueue.path q s.world.packets) = B p := by
    unfold MsgQueue.path
    rw [hq.count]
    exact hq.chain.walk_eq
  unfold World.queueCells
  rw [hc,← hcells]
  exact hwalk

theorem sum_flatMap_le {α β : Type} (l : List α) {f : α → List β} {g : β → Nat} {b : Nat}
    (h : ∀ x ∈ l, ((f x).map g).sum ≤ b) : ((l.flatMap f).map g).sum ≤ l.length*b := by
  induction l with
  | nil => simp
  | cons x l ih =>
    have hhead := h x (by simp)
    have htail := ih (fun y hy => h y (by simp [hy]))
    rw [List.flatMap_cons,List.map_append,List.sum_append,List.length_cons,Nat.succ_mul]
    omega

/-- Up to the clean-up, a packet is allocated exactly when it is in the queue of a listed
client, and it is there once and in no second queue. Each one still has bytes to send,
and all of them together at most the limit of one queue for each place in the list. -/
theorem packets_accounted {acts : List Action} {s : Sys}
    (hrun : run step Sys.init acts = .ok s) (hphase : s.phase ≠ .done) :
    s.world.queuedCells.Nodup ∧
      (∀ a, s.world.packets.get a ≠ none ↔ a ∈ s.world.queuedCells) ∧
      (∀ a ∈ s.world.queuedCells, 0 < remaining s.world.packets a) ∧
      (s.world.queuedCells.map (remaining s.world.packets)).sum ≤ maxClients*msgSizeLimit := by
  obtain ⟨R,htracks,-,-⟩ := run_tracks hrun hphase
  obtain ⟨A,hs⟩ := run_stocked hrun hphase
  have hcells : ∀ p ∈ s.world.clientList, s.world.queueCells p = A p :=
    fun p hp => htracks.queueCells_eq hs hp
  obtain ⟨B,hrep⟩ := htracks.refines
  have hok : ∀ p ∈ s.world.clientList, ∃ c, s.world.clients.get p = some c ∧
      QueueOk s.world.packets c.msgQueue := by
    intro p hp
    rw [hrep.members] at hp
    obtain ⟨q,hc,-,hq,-⟩ := hrep.owns p hp
    exact ⟨_,hc,hq.ok⟩
  have hmem : ∀ a, a ∈ s.world.queuedCells ↔ ∃ p ∈ s.world.clientList, a ∈ A p := by
    intro a
    unfold World.queuedCells
    rw [List.mem_flatMap]
    constructor
    · rintro ⟨p,hp,ha⟩
      exact ⟨p,hp,hcells p hp ▸ ha⟩
    · rintro ⟨p,hp,ha⟩
      exact ⟨p,hp,(hcells p hp).symm ▸ ha⟩
  refine ⟨?_,?_,?_,?_⟩
  · unfold World.queuedCells
    refine List.nodup_flatMap.mpr ⟨?_,?_⟩
    · intro p hp
      obtain ⟨c,-,-,hnd,-⟩ := hs.held p hp
      rw [hcells p hp]
      exact hnd
    · refine hs.listed.pairwise_of_forall_ne ?_
      intro p hp q hq hpq a ha haq
      rw [hcells p hp] at ha
      rw [hcells q hq] at haq
      exact hs.apart p hp q hq hpq a ha haq
  · intro a
    rw [hmem]
    constructor
    · intro hne
      obtain ⟨m,hm⟩ := Option.ne_none_iff_exists'.mp hne
      exact hs.owned a m hm
    · rintro ⟨p,hp,ha⟩
      obtain ⟨m,hm⟩ := hs.cell hp ha
      rw [hm]
      simp
  · intro a ha
    obtain ⟨p,hp,ha⟩ := List.mem_flatMap.mp ha
    obtain ⟨c,hc,hq⟩ := hok p hp
    simp only [World.queueCells,hc] at ha
    obtain ⟨m,hm,hlt,-⟩ := hq.live a ha
    simp only [remaining,hm]
    omega
  · have hone : ∀ p ∈ s.world.clientList,
        ((s.world.queueCells p).map (remaining s.world.packets)).sum ≤ msgSizeLimit := by
      intro p hp
      obtain ⟨c,hc,hq⟩ := hok p hp
      simp only [World.queueCells,hc]
      rw [← hq.bytes]
      exact hq.limit
    have hbound := hrep.bound
    rw [← hrep.members] at hbound
    exact Nat.le_trans (sum_flatMap_le _ hone) (Nat.mul_le_mul_right _ hbound)

theorem packets_accounted_slowReader : ∃ s, run step Sys.init Action.slowReader = .ok s ∧
    s.phase ≠ .done ∧ s.world.queuedCells.length = 1 ∧
      (∀ a, s.world.packets.get a ≠ none ↔ a ∈ s.world.queuedCells) := by
  obtain ⟨s,hrun,htest⟩ := reaches_run
    (show reaches Action.slowReader (fun s => decide (s.phase ≠ .done ∧
      s.world.queuedCells.length = 1)) = true by decide +kernel)
  obtain ⟨hphase,hone⟩ := of_decide_eq_true htest
  exact ⟨s,hrun,hphase,hone,(packets_accounted hrun hphase).2.1⟩

end ChatServer
