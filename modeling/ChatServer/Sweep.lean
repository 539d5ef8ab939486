import Mathlib.Data.List.Basic
import Mathlib.Data.List.Perm.Basic

/-! Sweeping a list from the front: an entry to be removed is replaced by the
last one, and the sweep goes on behind it. The entry that was moved into the gap
is not looked at. -/
set_option autoImplicit false

namespace Sweep

variable {α : Type} (bad : α → Bool)

/-- What the sweep leaves of the entries from the index on. -/
def sweep : List α → List α
  | [] => []
  | x :: rest =>
    if bad x then
      match rest.getLast? with
      | none => []
      | some y => y :: sweep rest.dropLast
    else x :: sweep rest
termination_by l => l.length
decreasing_by
  · simp only [List.length_dropLast,List.length_cons]
    omega
  · exact Nat.lt_succ_self _

def swept : List α → List α
  | [] => []
  | x :: rest =>
    if bad x then
      match rest.getLast? with
      | none => [x]
      | some _ => x :: swept rest.dropLast
    else swept rest
termination_by l => l.length
decreasing_by
  · simp only [List.length_dropLast,List.length_cons]
    omega
  · exact Nat.lt_succ_self _

/-- Behind every entry to be removed stand at least as many entries as there are
entries to be removed before it. -/
def Roomy (l : List α) : Prop :=
  ∀ pre x post, l = pre ++ x :: post → bad x = true → (pre.filter bad).length ≤ post.length

section Steps
variable {bad} {x y : α} {rest : List α}

theorem sweep_good (h : bad x = false) : sweep bad (x :: rest) = x :: sweep bad rest := by
  rw [sweep,if_neg (by simp [h])]

theorem sweep_last (h : bad x = true) : sweep bad [x] = [] := by
  rw [sweep,if_pos h]
  rfl

theorem sweep_bad (h : bad x = true) :
    sweep bad (x :: (rest ++ [y])) = y :: sweep bad rest := by
  rw [sweep,if_pos h]
  simp

theorem swept_good (h : bad x = false) : swept bad (x :: rest) = swept bad rest := by
  rw [swept,if_neg (by simp [h])]

theorem swept_last (h : bad x = true) : swept bad [x] = [x] := by
  rw [swept,if_pos h]
  rfl

theorem swept_bad (h : bad x = true) :
    swept bad (x :: (rest ++ [y])) = x :: swept bad rest := by
  rw [swept,if_pos h]
  simp

/-- The cases of the sweep: nothing left, an entry that stays, an entry that goes
at the end, and one that goes with another moved into the gap. -/
theorem sweep_induction (bad : α → Bool) {P : List α → Prop} (nil : P [])
    (good : ∀ x rest, bad x = false → P rest → P (x :: rest))
    (last : ∀ x, bad x = true → P [x])
    (moved : ∀ x rest y, bad x = true → P rest → P (x :: (rest ++ [y]))) (l : List α) : P l := by
  induction hn : l.length using Nat.strongRecOn generalizing l with
  | ind n ih =>
    cases l with
    | nil => exact nil
    | cons x rest =>
      simp only [List.length_cons] at hn
      cases hx : bad x with
      | false => exact good x rest hx (ih rest.length (by omega) rest rfl)
      | true =>
        rcases List.eq_nil_or_concat rest with rfl | ⟨mid,y,he⟩
        · exact last x hx
        · rw [List.concat_eq_append] at he
          subst he
          simp only [List.length_append,List.length_singleton] at hn
          exact moved x mid y hx (ih mid.length (by omega) mid rfl)

end Steps

variable {bad}

theorem sweep_perm (bad : α → Bool) (l : List α) : l.Perm (sweep bad l ++ swept bad l) := by
  induction l using sweep_induction bad with
  | nil => simp [sweep,swept]
  | good x rest hx ih =>
    rw [sweep_good hx,swept_good hx]
    exact ih.cons x
  | last x hx =>
    rw [sweep_last hx,swept_last hx]
    exact .refl _
  | moved x rest y hx ih =>
    rw [sweep_bad hx,swept_bad hx,List.cons_append]
    have hmid : (sweep bad rest ++ x :: swept bad rest).Perm (x :: rest) :=
      List.perm_middle.trans (ih.symm.cons x)
    calc (x :: (rest ++ [y])).Perm (y :: x :: rest) :=
          (List.perm_append_singleton y (x :: rest))
      _ |>.Perm (y :: (sweep bad rest ++ x :: swept bad rest)) := hmid.symm.cons y

theorem swept_all_bad (l : List α) : ∀ x ∈ swept bad l, bad x = true := by
  induction l using sweep_induction bad with
  | nil => simp [swept]
  | good x rest hx ih =>
    rw [swept_good hx]
    exact ih
  | last x hx =>
    rw [swept_last hx]
    simpa using hx
  | moved x rest y hx ih =>
    rw [swept_bad hx]
    simpa [hx] using ih

theorem Roomy.congr {bad' : α → Bool} {l : List α} (h : Roomy bad l)
    (heq : ∀ x ∈ l, bad x = bad' x) : Roomy bad' l := by
  intro pre x post he hx
  have hpre : pre.filter bad = pre.filter bad' :=
    List.filter_congr (fun y hy => heq y (by rw [he]; simp [hy]))
  rw [← hpre]
  exact h pre x post he (by rw [heq x (by rw [he]; simp),hx])

theorem roomy_good {x : α} {rest : List α} (h : bad x = false) :
    Roomy bad (x :: rest) ↔ Roomy bad rest := by
  constructor
  · intro hall pre z post he hz
    have hle := hall (x :: pre) z post (by rw [he]; rfl) hz
    rwa [List.filter_cons_of_neg (by simp [h])] at hle
  · intro hall pre z post he hz
    cases pre with
    | nil =>
      simp only [List.nil_append,List.cons.injEq] at he
      rw [← he.1,h] at hz
      cases hz
    | cons a pre =>
      simp only [List.cons_append,List.cons.injEq] at he
      obtain ⟨rfl,he⟩ := he
      rw [List.filter_cons_of_neg (by simp [h])]
      exact hall pre z post he hz

theorem roomy_moved {x y : α} {rest : List α} (h : bad x = true) :
    Roomy bad (x :: (rest ++ [y])) ↔ bad y = false ∧ Roomy bad rest := by
  constructor
  · intro hall
    constructor
    · cases hy : bad y with
      | false => rfl
      | true =>
        have hle := hall (x :: rest) y [] rfl hy
        rw [List.filter_cons_of_pos h] at hle
        simp at hle
    · intro pre z post he hz
      have hle := hall (x :: pre) z (post ++ [y]) (by simp [he]) hz
      rw [List.filter_cons_of_pos h,List.length_append] at hle
      simp only [List.length_cons,List.length_nil] at hle
      omega
  · rintro ⟨hy,hall⟩ pre z post he hz
    cases pre with
    | nil => simp
    | cons a pre =>
      simp only [List.cons_append,List.cons.injEq] at he
      obtain ⟨rfl,he⟩ := he
      rcases List.eq_nil_or_concat post with rfl | ⟨mid,t,rfl⟩
      · have hlast := (List.append_inj' he rfl).2
        simp only [List.cons.injEq,and_true] at hlast
        rw [← hlast,hy] at hz
        cases hz
      · have hsplit : rest ++ [y] = (pre ++ z :: mid) ++ [t] := by simpa using he
        obtain ⟨hrest,-⟩ := List.append_inj' hsplit rfl
        have hle := hall pre z mid hrest hz
        rw [List.filter_cons_of_pos h,List.length_concat]
        simp only [List.length_cons]
        omega

/-- The sweep removes all that it should exactly when there is room. -/
theorem sweep_clean_iff (l : List α) : (∀ x ∈ sweep bad l, bad x = false) ↔ Roomy bad l := by
  induction l using sweep_induction bad with
  | nil =>
    constructor
    · intro _ pre x post he
      simp at he
    · simp [sweep]
  | good x rest hx ih =>
    rw [sweep_good hx,roomy_good hx,← ih]
    simp [hx]
  | last x hx =>
    rw [sweep_last hx]
    constructor
    · intro _ pre z post he _
      cases pre with
      | nil => simp
      | cons a pre => simp at he
    · simp
  | moved x rest y hx ih =>
    rw [sweep_bad hx,roomy_moved hx,← ih]
    simp

/-- At most half of the entries that should go are missed. -/
theorem sweep_half (bad : α → Bool) (l : List α) :
    2*((sweep bad l).filter bad).length ≤ (l.filter bad).length := by
  induction l using sweep_induction bad with
  | nil => simp [sweep]
  | good x rest hx ih =>
    rw [sweep_good hx,List.filter_cons_of_neg (by simp [hx]),
      List.filter_cons_of_neg (by simp [hx])]
    exact ih
  | last x hx =>
    rw [sweep_last hx]
    simp
  | moved x rest y hx ih =>
    rw [sweep_bad hx,List.filter_cons_of_pos hx,List.filter_append,List.length_cons,
      List.length_append]
    cases hy : bad y with
    | false =>
      rw [List.filter_cons_of_neg (by simp [hy])]
      omega
    | true =>
      rw [List.filter_cons_of_pos hy,List.filter_cons_of_pos hy,List.length_cons,
        List.length_cons]
      omega

/-- An entry that should go and is missed has moved towards the front. -/
theorem sweep_rises (l : List α) {x : α} {i : Nat} (hi : l[i]? = some x) (hx : bad x = true) :
    x ∈ swept bad l ∨ ∃ j, j < i ∧ (sweep bad l)[j]? = some x := by
  induction l using sweep_induction bad generalizing i with
  | nil => simp at hi
  | good y rest hy ih =>
    rw [sweep_good hy,swept_good hy]
    cases i with
    | zero =>
      simp only [List.getElem?_cons_zero,Option.some.injEq] at hi
      rw [hi,hx] at hy
      cases hy
    | succ i =>
      rw [List.getElem?_cons_succ] at hi
      rcases ih hi with hgone | ⟨j,hj,hat⟩
      · exact .inl hgone
      · exact .inr ⟨j+1,by omega,by rw [List.getElem?_cons_succ,hat]⟩
  | last y hy =>
    rw [swept_last hy]
    have hmem := List.mem_of_getElem? hi
    exact .inl hmem
  | moved y rest z hy ih =>
    rw [sweep_bad hy,swept_bad hy]
    cases i with
    | zero =>
      simp only [List.getElem?_cons_zero,Option.some.injEq] at hi
      exact .inl (by simp [hi])
    | succ i =>
      rw [List.getElem?_cons_succ] at hi
      by_cases hlast : i < rest.length
      · rw [List.getElem?_append_left hlast] at hi
        rcases ih hi with hgone | ⟨j,hj,hat⟩
        · exact .inl (List.mem_cons_of_mem _ hgone)
        · exact .inr ⟨j+1,by omega,by rw [List.getElem?_cons_succ,hat]⟩
      · have hz : x = z := by
          have hmem := hi
          rw [List.getElem?_append_right (by omega)] at hmem
          simpa using List.mem_of_getElem? hmem
        exact .inr ⟨0,by omega,by simp [hz]⟩

end Sweep
