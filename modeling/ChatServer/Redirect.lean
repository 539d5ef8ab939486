import Mathlib.Data.List.Find
import ChatServer.ReapPass

/-! Removing a client and the search of `handle_whisper`: the last entry of the list
moves, and may overtake the client that the search has found. -/
set_option autoImplicit false

namespace ChatServer
open ByteString Memory Execution

def World.named (w : World) (target : Bytes) (p : Nat) : Bool :=
  match w.clients.get p with
  | none => false
  | some c => decide (cstr c.name.data = target)

theorem findTarget_find {w : World} (target : Bytes) {l : List Nat}
    (hl : ∀ p ∈ l, ∃ c, w.clients.get p = some c) :
    findTarget w target l = .ok (l.find? (w.named target)) := by
  induction l with
  | nil => rfl
  | cons p l ih =>
    obtain ⟨c,hc⟩ := hl p (by simp)
    have hrest := ih (fun q hq => hl q (List.mem_cons_of_mem _ hq))
    have hnamed : w.named target p = decide (cstr c.name.data = target) := by
      simp [World.named,hc]
    unfold findTarget
    simp only [World.client_eq_ok hc,ok_bind,hrest,List.find?_cons,hnamed]
    by_cases he : cstr c.name.data = target
    · simp [he,pure_eq_ok]
    · simp [he]

section Moving
variable {α : Type} {f : α → Bool} {pre rest : List α} {c d e : α}

theorem find_removed_last (hcd : c ≠ d) (h : (pre ++ [d]).find? f = some c) :
    pre.find? f = some c := by
  rw [List.find?_append] at h
  cases hpre : pre.find? f with
  | some x =>
    rw [hpre] at h
    exact h
  | none =>
    rw [hpre,Option.none_or] at h
    exact absurd (List.mem_singleton.mp (List.mem_of_find?_eq_some h)) hcd

/-- The first match stays when the last entry is moved into the gap, unless that
entry matches too and the first match stands behind the gap. -/
theorem find_moved_iff (hnodup : (pre ++ d :: (rest ++ [e])).Nodup) (hcd : c ≠ d)
    (h : (pre ++ d :: (rest ++ [e])).find? f = some c) :
    (pre ++ e :: rest).find? f = some c ↔ ¬ (c ∈ rest ∧ f e = true) := by
  have hc : f c = true := List.find?_some h
  rw [List.find?_append] at h ⊢
  cases hpre : pre.find? f with
  | some x =>
    rw [hpre] at h
    have hcpre : c ∈ pre := by
      cases h
      exact List.mem_of_find?_eq_some hpre
    refine iff_of_true h (fun hrest => ?_)
    have hdisjoint := (List.nodup_append.mp hnodup).2.2
    exact hdisjoint c hcpre c (by simp [hrest.1]) rfl
  | none =>
    have hd : f d = false := by
      by_contra hd
      rw [hpre,Option.none_or,List.find?_cons_of_pos (by simpa using hd)] at h
      cases h
      exact hcd rfl
    rw [hpre,Option.none_or,List.find?_cons_of_neg (by simp [hd]),List.find?_append] at h
    rw [Option.none_or]
    cases he : f e with
    | false =>
      rw [List.find?_cons_of_neg (by simp [he])]
      have hend : [e].find? f = none := by simp [he]
      rw [hend,Option.or_none] at h
      exact iff_of_true h (by simp)
    | true =>
      rw [List.find?_cons_of_pos he]
      have hsub : (rest ++ [e]).Nodup :=
        ((List.nodup_append.mp hnodup).2.1).of_cons
      constructor
      · rintro hec ⟨hrest,-⟩
        cases hec
        exact (List.nodup_append.mp hsub).2.2 c hrest c (by simp) rfl
      · intro hnot
        cases hrest : rest.find? f with
        | some x =>
          rw [hrest] at h
          cases h
          exact absurd ⟨List.mem_of_find?_eq_some hrest,rfl⟩ hnot
        | none =>
          rw [hrest,Option.none_or] at h
          have hce := List.mem_singleton.mp (List.mem_of_find?_eq_some h)
          rw [hce]

end Moving

/-- Client `c` stands between `d` and the last entry, and that entry has the name that
is searched for as well. -/
def World.Overtaken (w : World) (target : Bytes) (c d : Nat) : Prop :=
  ∃ pre rest e, w.clientList = pre ++ d :: (rest ++ [e]) ∧ c ∈ rest ∧ w.named target e = true

theorem swapRemove_find_iff {f : Nat → Bool} {l : List Nat} {c d i : Nat} (hnodup : l.Nodup)
    (hi : l.idxOf? d = some i) (hcd : c ≠ d) (h : l.find? f = some c) :
    (swapRemove l i).find? f = some c ↔
      ¬ ∃ pre rest e, l = pre ++ d :: (rest ++ [e]) ∧ c ∈ rest ∧ f e = true := by
  have hmem : d ∈ l := by
    rw [← List.isSome_idxOf?,hi]
    rfl
  obtain ⟨pre,post,rfl⟩ := List.append_of_mem hmem
  obtain rfl : i = pre.length := Option.some.inj (hi.symm.trans (idxOf_middle hnodup))
  rcases List.eq_nil_or_concat post with rfl | ⟨rest,e,rfl⟩
  · rw [swapRemove_last]
    refine iff_of_true (find_removed_last hcd h) ?_
    rintro ⟨pre',rest',e',heq,-⟩
    have hlen := congrArg List.length heq
    have hpre : pre' = pre := by
      have hidx := idxOf_middle hnodup
      rw [heq] at hidx hnodup
      have hlen' := Option.some.inj ((idxOf_middle hnodup).symm.trans hidx)
      exact (List.append_inj heq hlen'.symm).1.symm
    rw [hpre] at hlen
    simp at hlen
  · rw [List.concat_eq_append] at *
    rw [swapRemove_moved,find_moved_iff hnodup hcd h]
    refine not_congr ⟨fun hboth => ⟨pre,rest,e,rfl,hboth⟩,?_⟩
    rintro ⟨pre',rest',e',heq,hboth⟩
    have hidx := idxOf_middle hnodup
    rw [heq] at hidx hnodup
    have hlen := Option.some.inj ((idxOf_middle hnodup).symm.trans hidx)
    obtain ⟨-,htail⟩ := List.append_inj heq hlen.symm
    obtain ⟨hrest,hlast⟩ := List.append_inj' (List.cons.inj htail).2 rfl
    rw [hrest,List.cons.inj hlast |>.1]
    exact hboth

/-- After a client was removed, a search still finds the client that it found before,
unless that one has been overtaken. -/
theorem removal_redirects_iff {acts : List Action} {s : Sys} {target : Bytes} {c d : Nat}
    (hrun : run step Sys.init acts = .ok s) (hphase : s.phase ≠ .done)
    (hd : d ∈ s.world.clientList) (hcd : c ≠ d)
    (hfound : findTarget s.world target s.world.clientList = .ok (some c)) :
    ∃ w r, removeClientFromList s.world d = .ok (w,r) ∧
      (findTarget w target w.clientList = .ok (some c) ↔ ¬ s.world.Overtaken target c d) := by
  obtain ⟨R,⟨⟨A,h⟩,hmutex⟩⟩ := run_formed hrun hphase
  have hnodup : s.world.clientList.Nodup := by
    rw [h.members]
    exact h.nodup
  have hlive : ∀ p ∈ s.world.clientList, ∃ i, s.world.clients.get p = some i := by
    intro p hp
    obtain ⟨q,hc,-⟩ := h.owns p (h.members ▸ hp)
    exact ⟨_,hc⟩
  obtain ⟨q,hc,hk,-⟩ := h.owns d (h.members ▸ hd)
  obtain ⟨i,hi⟩ : ∃ i, s.world.clientList.idxOf? d = some i := by
    rw [← Option.isSome_iff_exists,List.isSome_idxOf?]
    exact hd
  have hcall := removeClientFromList_eq (h.mutex.trans hmutex) hi hc hk
  rw [findTarget_find target hlive,Except.ok.injEq] at hfound
  have hsearch : ∀ w : World, w.clientList = swapRemove s.world.clientList i →
      (∀ p, p ≠ d → w.clients.get p = s.world.clients.get p) →
      (findTarget w target w.clientList = .ok (some c) ↔ ¬ s.world.Overtaken target c d) := by
    intro w hlist hclients
    have hperm := swapRemove_perm hi
    have hother : ∀ p ∈ swapRemove s.world.clientList i, p ≠ d := by
      rintro p hp rfl
      exact hnodup.not_mem_erase (hperm.mem_iff.mp hp)
    have hlive' : ∀ p ∈ w.clientList, ∃ i, w.clients.get p = some i := by
      intro p hp
      rw [hlist] at hp
      rw [hclients p (hother p hp)]
      exact hlive p (swapRemove_mem hp)
    have hsame : (swapRemove s.world.clientList i).find? (w.named target) =
        (swapRemove s.world.clientList i).find? (s.world.named target) := by
      refine List.find?_congr (fun p hp => ?_)
      unfold World.named
      rw [hclients p (hother p hp)]
    rw [findTarget_find target hlive',Except.ok.injEq,hlist,hsame]
    exact swapRemove_find_iff hnodup hi hcd hfound
  by_cases hclose : (R.view d).sock.oracle.closeOk = true
  · rw [if_pos hclose] at hcall
    exact ⟨_,_,hcall,hsearch _ rfl (fun p hp => Heap.get_free_of_ne _ hp)⟩
  · rw [if_neg hclose] at hcall
    exact ⟨_,_,hcall,hsearch _ rfl (fun _ _ => rfl)⟩

def Action.annAndBobs (last : Bytes) : List Action :=
  connects 1 5 .quiet ++ connects 2 6 .quiet ++ connects 3 7 .quiet ++
    hears 5 (frame msgTypeNormal (ascii "ann")) ++ hears 6 (frame msgTypeNormal (ascii "bob")) ++
    hears 7 (frame msgTypeNormal last)

theorem removal_redirects_iff_carl : ∃ s w r, run step Sys.init (Action.annAndBobs (ascii "carl")) =
      .ok s ∧ findTarget s.world (ascii "bob") s.world.clientList = .ok (some 2) ∧
    removeClientFromList s.world 1 = .ok (w,r) ∧
    findTarget w (ascii "bob") w.clientList = .ok (some 2) := by
  obtain ⟨s,hrun,htest⟩ := reaches_run
    (show reaches (Action.annAndBobs (ascii "carl")) (fun s => decide (s.phase ≠ .done ∧
      s.world.clientList = [1,2,3] ∧ s.world.named (ascii "bob") 1 = false ∧
        s.world.named (ascii "bob") 2 = true ∧ s.world.named (ascii "bob") 3 = false ∧
        ∀ p ∈ s.world.clientList, (s.world.clients.get p).isSome = true)) = true by decide +kernel)
  obtain ⟨hphase,hlist,hann,hbob,hcarl,hlive⟩ := of_decide_eq_true htest
  have hfound : findTarget s.world (ascii "bob") s.world.clientList = .ok (some 2) := by
    rw [findTarget_find _ (fun p hp => Option.isSome_iff_exists.mp (hlive p hp)),hlist]
    simp [hann,hbob]
  obtain ⟨w,r,hcall,hsearch⟩ := removal_redirects_iff (d := 1) hrun hphase (by simp [hlist])
    (by decide) hfound
  refine ⟨s,w,r,hrun,hfound,hcall,hsearch.mpr ?_⟩
  rintro ⟨pre,rest,e,heq,-,hnamed⟩
  rw [← List.cons_append,← List.append_assoc] at heq
  have hlast := congrArg List.getLast? heq
  rw [hlist,List.getLast?_concat] at hlast
  obtain rfl : 3 = e := Option.some.inj hlast
  rw [hcarl] at hnamed
  cases hnamed

/-- Two clients are called bob. Ann leaves, and the second one takes her place. -/
theorem removal_redirects : ∃ s w r, run step Sys.init (Action.annAndBobs (ascii "bob")) = .ok s ∧
    s.phase ≠ .done ∧ s.world.clientList = [1,2,3] ∧
    findTarget s.world (ascii "bob") s.world.clientList = .ok (some 2) ∧
    removeClientFromList s.world 1 = .ok (w,r) ∧
    findTarget w (ascii "bob") w.clientList = .ok (some 3) := by
  obtain ⟨s,hrun,htest⟩ := reaches_run
    (show reaches (Action.annAndBobs (ascii "bob")) (fun s => decide (s.phase ≠ .done ∧
      s.world.clientList = [1,2,3]) &&
      (findTarget s.world (ascii "bob") s.world.clientList).toOption.any (fun found =>
        decide (found = some 2)) && (removeClientFromList s.world 1).toOption.any (fun res =>
          (findTarget res.1 (ascii "bob") res.1.clientList).toOption.any (fun found =>
            decide (found = some 3)))) = true by decide +kernel)
  simp only [Bool.and_eq_true,decide_eq_true_eq] at htest
  obtain ⟨⟨⟨hphase,hlist⟩,hbefore⟩,hafter⟩ := htest
  obtain ⟨found,hfound,hsecond⟩ := toOption_any hbefore
  obtain ⟨⟨w,r⟩,hcall,hafter⟩ := toOption_any hafter
  obtain ⟨next,hnext,hthird⟩ := toOption_any hafter
  rw [of_decide_eq_true hsecond] at hfound
  rw [of_decide_eq_true hthird] at hnext
  exact ⟨s,w,r,hrun,hphase,hlist,hfound,hcall,hnext⟩

end ChatServer
