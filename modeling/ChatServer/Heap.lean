import Mathlib.Logic.Function.Basic

/-! Heaps of one cell type, addressed by natural numbers, and byte buffers of
a fixed size. Only the addresses below `bound` can be live, so a fresh address
always exists and can be computed. -/
set_option autoImplicit false

namespace Memory

structure Heap (α : Type) where
  cell : Nat → Option α
  bound : Nat
  above : ∀ a, bound ≤ a → cell a = none

namespace Heap
variable {α : Type}

def empty : Heap α := ⟨fun _ => none,0,fun _ _ => rfl⟩

def get (h : Heap α) (a : Nat) : Option α := h.cell a

def set (h : Heap α) (a : Nat) (x : α) : Heap α where
  cell := fun b => if b = a then some x else h.cell b
  bound := max h.bound (a+1)
  above := by
    intro b hb
    have hne : b ≠ a := by omega
    simp only [hne,if_false]
    exact h.above b (by omega)

def free (h : Heap α) (a : Nat) : Heap α where
  cell := fun b => if b = a then none else h.cell b
  bound := h.bound
  above := by
    intro b hb
    by_cases hne : b = a
    · simp [hne]
    · simp only [hne,if_false]
      exact h.above b hb

/-- The allocator may hand out any address that is not live: the hint when it
is free, otherwise the first address above all live ones. -/
def fresh (h : Heap α) (hint : Nat) : Nat :=
  if (h.get hint).isNone then hint else h.bound

@[simp] theorem get_empty (a : Nat) : (empty : Heap α).get a = none := rfl

@[simp] theorem get_set_self (h : Heap α) (a : Nat) (x : α) :
    (h.set a x).get a = some x := by simp [get,set]

theorem get_set_of_ne (h : Heap α) {a b : Nat} (x : α) (hne : b ≠ a) :
    (h.set a x).get b = h.get b := by simp [get,set,hne]

theorem get_set (h : Heap α) (a b : Nat) (x : α) :
    (h.set a x).get b = if b = a then some x else h.get b := rfl

@[simp] theorem get_free_self (h : Heap α) (a : Nat) :
    (h.free a).get a = none := by simp [get,free]

theorem get_free_of_ne (h : Heap α) {a b : Nat} (hne : b ≠ a) :
    (h.free a).get b = h.get b := by simp [get,free,hne]

@[simp] theorem get_fresh (h : Heap α) (hint : Nat) :
    h.get (h.fresh hint) = none := by
  unfold fresh
  split
  · rename_i hn
    exact Option.isNone_iff_eq_none.mp hn
  · exact h.above h.bound (Nat.le_refl _)

theorem fresh_ne (h : Heap α) {a : Nat} (hint : Nat) {x : α}
    (hx : h.get a = some x) : a ≠ h.fresh hint := by
  intro he
  rw [he,get_fresh] at hx
  contradiction

end Heap

structure Buf (n : Nat) where
  data : List UInt8
  size : data.length = n

namespace Buf
variable {n : Nat}

def zero (n : Nat) : Buf n := ⟨List.replicate n 0,List.length_replicate⟩

theorem write_length {xs bs : List UInt8} {off : Nat}
    (h : off+bs.length ≤ xs.length) :
    (xs.take off ++ bs ++ xs.drop (off+bs.length)).length = xs.length := by
  simp only [List.length_append,List.length_take,List.length_drop]
  omega

/-- Copy `bs` to offset `off`, when that range lies inside the buffer. -/
def write (b : Buf n) (off : Nat) (bs : List UInt8) : Option (Buf n) :=
  if h : off+bs.length ≤ n then
    some ⟨b.data.take off ++ bs ++ b.data.drop (off+bs.length),by
      rw [write_length (by rw [b.size]; exact h),b.size]⟩
  else none

theorem write_eq_some {b b' : Buf n} {off : Nat} {bs : List UInt8} :
    b.write off bs = some b' ↔
      off+bs.length ≤ n ∧
        b'.data = b.data.take off ++ bs ++ b.data.drop (off+bs.length) := by
  unfold write
  split
  · rename_i h
    constructor
    · intro he
      cases he
      exact ⟨h,rfl⟩
    · rintro ⟨-,hd⟩
      cases b'
      simp_all
  · rename_i h
    simp [h]

theorem write_ok (b : Buf n) {off : Nat} {bs : List UInt8} (h : off+bs.length ≤ n) :
    ∃ b', b.write off bs = some b' ∧
      b'.data = b.data.take off ++ bs ++ b.data.drop (off+bs.length) := by
  unfold write
  rw [dif_pos h]
  exact ⟨_,rfl,rfl⟩

theorem take_write {b b' : Buf n} {off : Nat} {bs : List UInt8}
    (h : b.write off bs = some b') :
    b'.data.take (off+bs.length) = b.data.take off ++ bs := by
  obtain ⟨hle,hd⟩ := write_eq_some.mp h
  have hoff : (b.data.take off).length = off := by
    rw [List.length_take,b.size]
    omega
  have hlen : (b.data.take off ++ bs).length = off+bs.length := by
    rw [List.length_append,hoff]
  rw [hd,List.take_append_of_le_length (by omega),List.take_of_length_le (by omega)]

end Buf
end Memory
