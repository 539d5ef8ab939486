import Mathlib.Algebra.GroupWithZero.Nat
import Mathlib.Data.List.TakeWhile

/-! Byte strings: 32-bit big-endian words, C strings and the token function of
the C library. A C string is the part of a byte string before its first zero. -/
set_option autoImplicit false

namespace ByteString

abbrev Bytes := List UInt8

def ascii (s : String) : Bytes := s.toList.map (fun c => UInt8.ofNat c.toNat)

/-- The low 32 bits of `n`, most significant byte first. -/
def be32 (n : Nat) : Bytes :=
  [UInt8.ofNat (n/16777216),UInt8.ofNat (n/65536),UInt8.ofNat (n/256),UInt8.ofNat n]

def ofBe : Bytes → Nat := List.foldl (fun n b => 256*n+b.toNat) 0

@[simp] theorem be32_length (n : Nat) : (be32 n).length = 4 := rfl

theorem ofBe_be32 (n : Nat) : ofBe (be32 n) = n % 2^32 := by
  simp only [ofBe,be32,List.foldl_cons,List.foldl_nil,UInt8.toNat_ofNat']
  omega

theorem ofBe_be32_of_lt {n : Nat} (h : n < 2^32) : ofBe (be32 n) = n := by
  rw [ofBe_be32,Nat.mod_eq_of_lt h]

/-- The bytes in front of the first zero. -/
def cstr (bs : Bytes) : Bytes := bs.takeWhile (fun b => b != 0)

theorem cstr_append_zero (bs rest : Bytes) : cstr (bs ++ 0 :: rest) = cstr bs := by
  induction bs with
  | nil => simp [cstr]
  | cons b bs ih =>
    simp only [cstr,List.cons_append,List.takeWhile_cons] at ih ⊢
    split
    · rw [ih]
    · rfl

theorem cstr_cons {b : UInt8} (h : b ≠ 0) (bs : Bytes) : cstr (b :: bs) = b :: cstr bs := by
  simp [cstr,h]

theorem cstr_eq_self {bs : Bytes} (h : (0 : UInt8) ∉ bs) : cstr bs = bs := by
  unfold cstr
  rw [List.takeWhile_eq_self_iff]
  intro b hb
  have hne : b ≠ 0 := by
    intro he
    exact h (he ▸ hb)
  simpa using hne

theorem zero_not_mem_cstr (bs : Bytes) : (0 : UInt8) ∉ cstr bs := by
  intro h
  have hz := List.mem_takeWhile_imp h
  simp at hz

/-- One call of `strtok_r` on the C string `s`: the token, if there is one, and
the C string that the save pointer is left at. -/
def strtokR (delim : UInt8) (s : Bytes) : Option Bytes × Bytes :=
  match s.dropWhile (fun b => b == delim) with
  | [] => (none,[])
  | b :: rest =>
    let token := (b :: rest).takeWhile (fun b => b != delim)
    (some token,(b :: rest).drop (token.length+1))

theorem dropWhile_spaces (d : UInt8) (s : Bytes) : ∃ n, s = List.replicate n d ++
    s.dropWhile (fun b => b == d) := by
  induction s with
  | nil => exact ⟨0,rfl⟩
  | cons b s ih =>
    by_cases hb : b = d
    · obtain ⟨n,hn⟩ := ih
      refine ⟨n+1,?_⟩
      rw [List.dropWhile_cons_of_pos (by simp [hb]),List.replicate_succ,List.cons_append,← hn,hb]
    · exact ⟨0,by rw [List.dropWhile_cons_of_neg (by simp [hb])]; rfl⟩

theorem dropWhile_replicate {d : UInt8} (n : Nat) {t : Bytes} (hne : t ≠ []) (ht : d ∉ t)
    (rest : Bytes) : (List.replicate n d ++ (t ++ rest)).dropWhile (fun b => b == d) = t ++ rest := by
  induction n with
  | zero =>
    obtain ⟨b,t,rfl⟩ := List.exists_cons_of_ne_nil hne
    have hb : b ≠ d := fun hb => ht (by simp [hb])
    exact List.dropWhile_cons_of_neg (by simp [hb])
  | succ n ih =>
    rw [List.replicate_succ,List.cons_append,List.dropWhile_cons_of_pos (by simp),ih]

theorem takeWhile_token {d : UInt8} {t : Bytes} (ht : d ∉ t) (rest : Bytes) :
    (t ++ rest).takeWhile (fun b => b != d) = t ++ rest.takeWhile (fun b => b != d) := by
  refine List.takeWhile_append_of_pos (fun b hb => ?_)
  have hne : b ≠ d := fun he => ht (he ▸ hb)
  simpa using hne

theorem strtokR_eq_some {d : UInt8} {s t rest : Bytes} : strtokR d s = (some t,rest) ↔
    t ≠ [] ∧ d ∉ t ∧ ∃ n, (s = List.replicate n d ++ t ∧ rest = []) ∨
      s = List.replicate n d ++ (t ++ d :: rest) := by
  constructor
  · intro h
    obtain ⟨n,hn⟩ := dropWhile_spaces d s
    unfold strtokR at h
    cases hd : s.dropWhile (fun b => b == d) with
    | nil => simp [hd] at h
    | cons b tail =>
      have hb : b ≠ d := by
        have hhead := List.head_dropWhile_not (fun b => b == d) (l := s) (by simp [hd])
        simpa [hd] using hhead
      simp only [hd,Prod.mk.injEq,Option.some.injEq] at h
      obtain ⟨htoken,hrest⟩ := h
      have hsplit := List.takeWhile_append_dropWhile (p := fun c => c != d) (l := b :: tail)
      rw [htoken] at hsplit hrest
      have hne : t ≠ [] := by
        rw [← htoken]
        simp [hb]
      have ht : d ∉ t := by
        intro hmem
        rw [← htoken] at hmem
        have hz := List.mem_takeWhile_imp hmem
        simp at hz
      refine ⟨hne,ht,n,?_⟩
      rw [hn,hd,← hsplit]
      cases hend : (b :: tail).dropWhile (fun c => c != d) with
      | nil =>
        rw [hend,List.append_nil] at hsplit
        rw [← hsplit] at hrest
        exact .inl ⟨by rw [List.append_nil],
            hrest.symm.trans (List.drop_eq_nil_of_le (Nat.le_succ _))⟩
      | cons z zs =>
        have hz : z = d := by
          have hhead := List.head_dropWhile_not (fun c => c != d) (l := b :: tail) (by simp [hend])
          simpa [hend] using hhead
        rw [hend,hz] at hsplit
        rw [← hsplit] at hrest
        refine .inr ?_
        rw [hz,← hrest]
        simp
  · rintro ⟨hne,ht,n,⟨rfl,rfl⟩ | rfl⟩
    · have hdrop := dropWhile_replicate n hne ht []
      have htake := takeWhile_token ht []
      rw [List.append_nil] at hdrop htake
      unfold strtokR
      obtain ⟨b,t,rfl⟩ := List.exists_cons_of_ne_nil hne
      simp only [hdrop,htake]
      simp
    · have hdrop := dropWhile_replicate n hne ht (d :: rest)
      have htake := takeWhile_token ht (d :: rest)
      unfold strtokR
      obtain ⟨b,t,rfl⟩ := List.exists_cons_of_ne_nil hne
      rw [hdrop]
      simp only [List.cons_append] at htake ⊢
      simp only [htake]
      simp
end ByteString
