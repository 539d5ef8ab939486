import ChatServer.Heap

/-! Singly linked lists in a heap. `Chain` says that following `next` from a
start pointer visits exactly the given addresses, whose cells represent the
given values, and ends in a null pointer. -/
set_option autoImplicit false

namespace Memory
variable {γ α : Type}

section Chain
variable (next : γ → Option Nat) (rep : γ → α → Prop)

def Chain (h : Heap γ) : Option Nat → List Nat → List α → Prop
  | s,[],[] => s = none
  | s,a :: as,x :: xs => s = some a ∧
      ∃ c, h.get a = some c ∧ rep c x ∧ Chain h (next c) as xs
  | _,_,_ => False

def walk (h : Heap γ) : Nat → Option Nat → List Nat
  | 0,_ => []
  | _+1,none => []
  | n+1,some a => a ::
      match h.get a with
      | none => []
      | some c => walk h n (next c)

end Chain

namespace Chain
variable {next : γ → Option Nat} {rep : γ → α → Prop} {h h' : Heap γ}

theorem map_eq {β : Type} {f : Option γ → β} {g : α → β} {s : Option Nat} {as : List Nat}
    {xs : List α} (hc : Chain next rep h s as xs) (hread : ∀ c x, rep c x → f (some c) = g x) :
    as.map (fun a => f (h.get a)) = xs.map g := by
  induction as generalizing s xs with
  | nil =>
    cases xs with
    | nil => rfl
    | cons x xs => exact hc.elim
  | cons a as ih =>
    cases xs with
    | nil => exact hc.elim
    | cons x xs =>
      obtain ⟨-,c,hg,hr,hrest⟩ := hc
      rw [List.map_cons,List.map_cons,hg,hread c x hr,ih hrest]

theorem length_eq {s : Option Nat} {as : List Nat} {xs : List α}
    (hc : Chain next rep h s as xs) : as.length = xs.length := by
  have hmap := hc.map_eq (f := fun _ => ()) (g := fun _ => ()) (fun _ _ _ => rfl)
  simpa using congrArg List.length hmap

/-- The links alone decide which cells are met. -/
theorem cells_eq {β : Type} {rep' : γ → β → Prop} {s : Option Nat} {as bs : List Nat}
    {xs : List α} {ys : List β} (hc : Chain next rep h s as xs)
    (hd : Chain next rep' h s bs ys) : as = bs := by
  induction as generalizing s xs bs ys with
  | nil =>
    cases xs with
    | cons x xs => exact hc.elim
    | nil =>
      cases bs with
      | nil => rfl
      | cons b bs =>
        cases ys with
        | nil => exact hd.elim
        | cons y ys => exact absurd (hc.symm.trans hd.1) (by simp)
  | cons a as ih =>
    cases xs with
    | nil => exact hc.elim
    | cons x xs =>
      obtain ⟨hs,c,hg,-,hrest⟩ := hc
      cases bs with
      | nil =>
        cases ys with
        | nil => exact absurd (hs.symm.trans hd) (by simp)
        | cons y ys => exact hd.elim
      | cons b bs =>
        cases ys with
        | nil => exact hd.elim
        | cons y ys =>
          obtain ⟨hs',c',hg',-,hrest'⟩ := hd
          obtain rfl : a = b := Option.some.inj (hs.symm.trans hs')
          obtain rfl : c = c' := Option.some.inj (hg.symm.trans hg')
          rw [ih hrest hrest']

theorem start_eq {s : Option Nat} {as : List Nat} {xs : List α}
    (hc : Chain next rep h s as xs) : s = as.head? := by
  cases as with
  | nil =>
    cases xs with
    | nil => exact hc
    | cons x xs => exact hc.elim
  | cons a as =>
    cases xs with
    | nil => exact hc.elim
    | cons x xs => exact hc.1

theorem live {s : Option Nat} {as : List Nat} {xs : List α}
    (hc : Chain next rep h s as xs) {a : Nat} (ha : a ∈ as) :
    ∃ c, h.get a = some c ∧ ∃ x ∈ xs, rep c x := by
  induction as generalizing s xs with
  | nil => simp at ha
  | cons b as ih =>
    cases xs with
    | nil => exact hc.elim
    | cons x xs =>
      obtain ⟨-,c,hg,hr,hrest⟩ := hc
      rcases List.mem_cons.mp ha with rfl | ht
      · exact ⟨c,hg,x,by simp,hr⟩
      · obtain ⟨d,hd,y,hy,hry⟩ := ih hrest ht
        exact ⟨d,hd,y,by simp [hy],hry⟩

/-- Cells elsewhere in the heap do not matter. -/
theorem frame {s : Option Nat} {as : List Nat} {xs : List α}
    (hc : Chain next rep h s as xs) (hf : ∀ a ∈ as, h'.get a = h.get a) :
    Chain next rep h' s as xs := by
  induction as generalizing s xs with
  | nil =>
    cases xs with
    | nil => exact hc
    | cons x xs => exact hc.elim
  | cons a as ih =>
    cases xs with
    | nil => exact hc.elim
    | cons x xs =>
      obtain ⟨hs,c,hg,hr,hrest⟩ := hc
      refine ⟨hs,c,?_,hr,?_⟩
      · rw [hf a (by simp),hg]
      · exact ih hrest (fun b hb => hf b (by simp [hb]))

theorem relink {s : Option Nat} {as : List Nat} {xs : List α}
    (hc : Chain next rep h s as xs)
    (hf : ∀ a ∈ as, ∀ c, h.get a = some c → ∃ c', h'.get a = some c' ∧ next c' = next c ∧
      ∀ x, rep c x → rep c' x) : Chain next rep h' s as xs := by
  induction as generalizing s xs with
  | nil =>
    cases xs with
    | nil => exact hc
    | cons x xs => exact hc.elim
  | cons a as ih =>
    cases xs with
    | nil => exact hc.elim
    | cons x xs =>
      obtain ⟨hs,c,hg,hr,hrest⟩ := hc
      obtain ⟨c',hg',hn,hrep⟩ := hf a (by simp) c hg
      refine ⟨hs,c',hg',hrep x hr,?_⟩
      rw [hn]
      exact ih hrest (fun b hb => hf b (by simp [hb]))

theorem snoc {s : Option Nat} {as : List Nat} {xs : List α} {t a : Nat} {d : γ} {y : α}
    (hc : Chain next rep h s (as ++ [t]) xs)
    (hf : ∀ b ∈ as, h'.get b = h.get b)
    (ht : ∀ c, h.get t = some c → ∃ c', h'.get t = some c' ∧
      next c' = some a ∧ ∀ x, rep c x → rep c' x)
    (ha : h'.get a = some d) (hd : next d = none) (hy : rep d y) :
    Chain next rep h' s (as ++ [t] ++ [a]) (xs ++ [y]) := by
  induction as generalizing s xs with
  | nil =>
    cases xs with
    | nil => exact hc.elim
    | cons x xs =>
      obtain ⟨hs,c,hg,hr,hrest⟩ := hc
      obtain ⟨c',hg',hn,hrep⟩ := ht c hg
      cases xs with
      | cons z zs => exact hrest.elim
      | nil => exact ⟨hs,c',hg',hrep x hr,hn,d,ha,hy,hd⟩
  | cons b as ih =>
    cases xs with
    | nil => exact hc.elim
    | cons x xs =>
      obtain ⟨hs,c,hg,hr,hrest⟩ := hc
      refine ⟨hs,c,?_,hr,?_⟩
      · rw [hf b (by simp),hg]
      · exact ih hrest (fun e he => hf e (by simp [he]))

theorem last_next {s : Option Nat} {as : List Nat} {xs : List α}
    (hc : Chain next rep h s as xs) {t : Nat} (ht : as.getLast? = some t) :
    ∃ c, h.get t = some c ∧ next c = none := by
  induction as generalizing s xs with
  | nil => simp at ht
  | cons a as ih =>
    cases xs with
    | nil => exact hc.elim
    | cons x xs =>
      obtain ⟨-,c,hg,-,hrest⟩ := hc
      cases as with
      | nil =>
        simp only [List.getLast?_singleton,Option.some.injEq] at ht
        subst ht
        cases xs with
        | nil => exact ⟨c,hg,hrest⟩
        | cons z zs => exact hrest.elim
      | cons b bs => exact ih hrest (by simpa using ht)

theorem walk_eq {s : Option Nat} {as : List Nat} {xs : List α}
    (hc : Chain next rep h s as xs) : walk next h as.length s = as := by
  induction as generalizing s xs with
  | nil => rfl
  | cons a as ih =>
    cases xs with
    | nil => exact hc.elim
    | cons x xs =>
      obtain ⟨rfl,c,hg,-,hrest⟩ := hc
      simp [walk,hg,ih hrest]

end Chain
end Memory
