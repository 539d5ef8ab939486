import Mathlib.Data.List.Basic

/-! Computations that return a value or stop with an error: what their values
satisfy, when two of them match, and runs of a step function over a list of
inputs. -/
set_option autoImplicit false

namespace Execution
variable {ε α β γ δ : Type}

@[simp] theorem ok_bind (a : α) (f : α → Except ε β) : (Except.ok a >>= f) = f a := rfl

@[simp] theorem error_bind (e : ε) (f : α → Except ε β) :
    ((Except.error e : Except ε α) >>= f) = .error e := rfl

theorem pure_eq_ok (a : α) : (pure a : Except ε α) = .ok a := rfl

/-- Every value returned satisfies `Q`; an error in `E` is also allowed. -/
def Holds (E : ε → Prop) (x : Except ε α) (Q : α → Prop) : Prop :=
  match x with
  | .ok a => Q a
  | .error e => E e

theorem Holds.pure {E : ε → Prop} {a : α} {Q : α → Prop} (h : Q a) :
    Holds E (pure a) Q := h

theorem Holds.mono {E : ε → Prop} {x : Except ε α} {P Q : α → Prop}
    (h : Holds E x P) (hpq : ∀ a, P a → Q a) : Holds E x Q := by
  cases x with
  | ok a => exact hpq a h
  | error e => exact h

theorem Holds.weaken {E F : ε → Prop} {x : Except ε α} {P Q : α → Prop} (h : Holds E x P)
    (hef : ∀ e, E e → F e) (hpq : ∀ a, P a → Q a) : Holds F x Q := by
  cases x with
  | ok a => exact hpq a h
  | error e => exact hef e h

theorem Holds.bind {E : ε → Prop} {x : Except ε α} {f : α → Except ε β}
    {P : α → Prop} {Q : β → Prop} (h : Holds E x P)
    (hf : ∀ a, P a → Holds E (f a) Q) : Holds E (x >>= f) Q := by
  cases x with
  | ok a => exact hf a h
  | error e => exact h

theorem Holds.of_ok {E : ε → Prop} {x : Except ε α} {Q : α → Prop} {a : α}
    (h : Holds E x Q) (hx : x = .ok a) : Q a := by
  subst hx
  exact h

theorem Holds.of_error {E : ε → Prop} {x : Except ε α} {Q : α → Prop} {e : ε}
    (h : Holds E x Q) (hx : x = .error e) : E e := by
  subst hx
  exact h

theorem toOption_any {x : Except ε α} {test : α → Bool} (h : x.toOption.any test = true) :
    ∃ a, x = .ok a ∧ test a = true := by
  cases x with
  | error e => cases h
  | ok a => exact ⟨a,rfl,h⟩

theorem toOption_isNone {x : Except ε α} (h : x.toOption.isNone = true) : ∃ e, x = .error e := by
  cases x with
  | error e => exact ⟨e,rfl⟩
  | ok a => cases h

def Match (R : α → β → Prop) (x : Except ε α) (y : Except ε β) : Prop :=
  match x,y with
  | .ok a,.ok b => R a b
  | .error e,.error e' => e = e'
  | _,_ => False

theorem Match.error {R : α → β → Prop} (e : ε) :
    Match R (.error e) (.error e) := rfl

theorem Match.ok_left {R : α → β → Prop} {a : α} {y : Except ε β}
    (h : Match R (.ok a) y) : ∃ b, y = .ok b ∧ R a b := by
  cases y with
  | ok b => exact ⟨b,rfl,h⟩
  | error e => exact h.elim

theorem Match.ok_right {R : α → β → Prop} {x : Except ε α} {b : β}
    (h : Match R x (.ok b)) : ∃ a, x = .ok a ∧ R a b := by
  cases x with
  | ok a => exact ⟨a,rfl,h⟩
  | error e => exact h.elim

theorem Match.eq_error {R : α → β → Prop} {x : Except ε α} {e : ε}
    (h : Match R x (.error e)) : x = .error e := by
  cases x with
  | ok a => exact h.elim
  | error e' =>
    have he : e' = e := h
    rw [he]

section Runs
variable {σ ι : Type} (step : σ → ι → Except ε σ)

def run (s : σ) (inputs : List ι) : Except ε σ := inputs.foldlM step s

@[simp] theorem run_nil (s : σ) : run step s [] = .ok s := rfl

@[simp] theorem run_cons (s : σ) (i : ι) (inputs : List ι) :
    run step s (i :: inputs) = (step s i).bind (fun s' => run step s' inputs) := rfl

theorem run_append (s : σ) (xs ys : List ι) :
    run step s (xs ++ ys) = (run step s xs).bind (fun s' => run step s' ys) := by
  unfold run
  rw [List.foldlM_append]
  rfl

variable {step}

theorem run_induction_mem {I : σ → Prop} {inputs : List ι}
    (hstep : ∀ s i s', i ∈ inputs → I s → step s i = .ok s' → I s')
    {s s' : σ} (h0 : I s) (h : run step s inputs = .ok s') : I s' := by
  induction inputs generalizing s with
  | nil =>
    cases h
    exact h0
  | cons i inputs ih =>
    rw [run_cons] at h
    cases hs : step s i with
    | error e =>
      rw [hs] at h
      cases h
    | ok t =>
      rw [hs] at h
      exact ih (fun s j s' hj => hstep s j s' (List.mem_cons_of_mem i hj))
        (hstep s i t List.mem_cons_self h0 hs) h

/-- An invariant of single steps holds at the end of every run. -/
theorem run_induction {I : σ → Prop}
    (hstep : ∀ s i s', I s → step s i = .ok s' → I s')
    {s s' : σ} {inputs : List ι} (h0 : I s) (h : run step s inputs = .ok s') :
    I s' :=
  run_induction_mem (fun s i s' _ => hstep s i s') h0 h

/-- Each step is one of the inputs, and is taken in a state that the runs from `s₀` reach. -/
theorem run_induction_reached {I : σ → Prop} {s₀ : σ} {inputs : List ι}
    (hstep : ∀ before s i s', i ∈ inputs → run step s₀ before = .ok s → I s →
      step s i = .ok s' → I s')
    (h0 : I s₀) {s : σ} (h : run step s₀ inputs = .ok s) : I s := by
  have hboth : (∃ before, run step s₀ before = .ok s) ∧ I s := by
    refine run_induction_mem (I := fun t => (∃ before, run step s₀ before = .ok t) ∧ I t) ?_
      ⟨⟨[],rfl⟩,h0⟩ h
    rintro t i t' hmem ⟨⟨before,hbefore⟩,ht⟩ hi
    refine ⟨⟨before ++ [i],?_⟩,hstep before t i t' hmem hbefore ht hi⟩
    rw [run_append,hbefore]
    simp only [Except.bind,run_cons,hi,run_nil]
  exact hboth.2

theorem run_concat (s : σ) (inputs : List ι) (i : ι) :
    run step s (inputs ++ [i]) = (run step s inputs).bind (fun t => step t i) := by
  rw [run_append]
  congr 1
  funext t
  rw [run_cons]
  cases step t i with
  | ok t' => rfl
  | error e => rfl

theorem run_error {s : σ} {inputs : List ι} {e : ε} (h : run step s inputs = .error e) :
    ∃ before i after t, inputs = before ++ i :: after ∧ run step s before = .ok t ∧
      step t i = .error e := by
  induction inputs generalizing s with
  | nil => cases h
  | cons i rest ih =>
    rw [run_cons] at h
    cases hs : step s i with
    | error e' =>
      rw [hs] at h
      cases h
      exact ⟨[],i,rest,s,rfl,rfl,hs⟩
    | ok t =>
      rw [hs] at h
      obtain ⟨before,j,after,u,hsplit,hbefore,hfails⟩ := ih h
      refine ⟨i :: before,j,after,u,by rw [hsplit]; rfl,?_,hfails⟩
      rw [run_cons,hs]
      exact hbefore

theorem run_meets_later {P : σ → Prop} {s t : σ} {i : ι} {rest : List ι} (hs : step s i = .ok t)
    (h : ∃ before after u, rest = before ++ after ∧ run step t before = .ok u ∧ P u) :
    ∃ before after u, i :: rest = before ++ after ∧ run step s before = .ok u ∧ P u := by
  obtain ⟨before,after,u,hsplit,hbefore,hu⟩ := h
  refine ⟨i :: before,after,u,by rw [hsplit]; rfl,?_,hu⟩
  rw [run_cons,hs]
  exact hbefore

end Runs

section Logs
variable {P Q : List α → α → Prop} {log os : List α} {o : α}

/-- Every entry of a log stands in the relation `P` to what precedes it. -/
def Each (P : List α → α → Prop) (log : List α) : Prop :=
  ∀ a o rest, log = a ++ o :: rest → P a o

theorem Each.nil : Each P [] := by
  intro a o rest h
  simp at h

theorem Each.append (h : Each P log)
    (hos : ∀ a o rest, os = a ++ o :: rest → P (log ++ a) o) : Each P (log ++ os) := by
  intro a o rest he
  rcases List.append_eq_append_iff.mp he with ⟨b,ha,hb⟩ | ⟨b,hlog,hb⟩
  · rw [ha]
    exact hos b o rest hb
  · cases b with
    | nil =>
      have ha : log = a := by simpa using hlog
      rw [← ha]
      have hnil := hos [] o rest (by simpa using hb.symm)
      simpa using hnil
    | cons x b =>
      simp only [List.cons_append,List.cons.injEq] at hb
      obtain ⟨rfl,-⟩ := hb
      exact h a o b hlog

theorem Each.concat (h : Each P log) (ho : P log o) : Each P (log ++ [o]) := by
  refine h.append ?_
  intro a o' rest he
  cases a with
  | nil =>
    simp only [List.nil_append,List.cons.injEq] at he
    obtain ⟨rfl,-⟩ := he
    simpa using ho
  | cons x a => simp at he

theorem Each.mono (h : Each P log) (hpq : ∀ a o, P a o → Q a o) : Each Q log :=
  fun a o rest he => hpq a o (h a o rest he)

end Logs
end Execution
