import CCplusplus.Lib.Mem
/-!
# Str — C strings in memory

`Mem.At m p s` says that the bytes `s` are at `p`, with or without a NUL after them.  `cString` reads a string up to its
NUL and `strcpy` writes one with it.  A string is kept by what writes outside it (`At.outside`), and goes along where its
block is resized (`At.resized`).
-/
namespace CLib

theorem Ptr.add_add (p : Ptr) (a b : Int) : (p.add a).add b = p.add (a + b) := by
  unfold Ptr.add
  rw [Int.add_assoc]

namespace Mem

/-- The bytes `s` are at `p`. -/
def At (m : Mem) (p : Ptr) : List UInt8 → Prop
  | [] => True
  | c :: s => m.byte p.block p.off = c ∧ At m (p.add 1) s

/-- No byte is a NUL. -/
def Clean (s : List UInt8) : Prop := ∀ c ∈ s, c ≠ 0

instance (s : List UInt8) : Decidable (Clean s) := List.decidableBAll (fun c => c ≠ 0) s

/-- The string at `p`, of less than `n` bytes. -/
def cStringFrom (m : Mem) : Nat → Ptr → Exec (List UInt8)
  | 0, _ => .error .outOfBounds
  | n + 1, p => do
    let c ← m.load p
    if c = 0 then .ok []
    else do
      let s ← cStringFrom m n (p.add 1)
      .ok (c :: s)

/-- A string ends before its block does. -/
def cString (m : Mem) (p : Ptr) : Exec (List UInt8) :=
  match m.size p.block with
  | none => .error .outOfBounds
  | some n => cStringFrom m n p

def strcpy (m : Mem) (dst : Ptr) : List UInt8 → Exec Mem
  | [] => m.store dst 0
  | c :: s => do strcpy (← m.store dst c) (dst.add 1) s

/-- `strncpy` of a string: up to `n` bytes of it, and NULs for those it is too short for. -/
def strncpy (m : Mem) (dst : Ptr) : List UInt8 → Nat → Exec Mem
  | _, 0 => .ok m
  | [], n + 1 => do strncpy (← m.store dst 0) (dst.add 1) [] n
  | c :: s, n + 1 => do strncpy (← m.store dst c) (dst.add 1) s n

/-- The `n` bytes that `strncpy` writes. -/
def padded : List UInt8 → Nat → List UInt8
  | _, 0 => []
  | [], n + 1 => 0 :: padded [] n
  | c :: s, n + 1 => c :: padded s n

/-- `strncmp` of two strings. -/
def strncmp : List UInt8 → List UInt8 → Nat → Int
  | _, _, 0 => 0
  | [], [], _ + 1 => 0
  | [], d :: _, _ + 1 => -d.toNat
  | c :: _, [], _ + 1 => c.toNat
  | c :: s, d :: t, n + 1 => if c = d then strncmp s t n else (c.toNat : Int) - d.toNat

theorem Clean.append {s t : List UInt8} (hs : Clean s) (ht : Clean t) : Clean (s ++ t) := fun c hc => by
  rcases List.mem_append.1 hc with h | h
  · exact hs c h
  · exact ht c h

/-! ## The bytes at a pointer -/

theorem at_cons {m : Mem} {p : Ptr} {c : UInt8} {s : List UInt8} :
    At m p (c :: s) ↔ m.byte p.block p.off = c ∧ At m (p.add 1) s := Iff.rfl

theorem at_append {m : Mem} : ∀ {s t : List UInt8} {p : Ptr},
    At m p (s ++ t) ↔ At m p s ∧ At m (p.add s.length) t
  | [], t, p => by
    have h0 : p.add (([] : List UInt8).length) = p := by
      unfold Ptr.add
      simp
    rw [List.nil_append, h0]
    exact ⟨fun h => ⟨trivial, h⟩, fun h => h.2⟩
  | c :: s, t, p => by
    have hadd : (p.add 1).add s.length = p.add ((c :: s).length) := by
      rw [Ptr.add_add, List.length_cons]
      congr 1
      omega
    rw [List.cons_append, ← hadd, at_cons, at_cons, at_append, and_assoc]

theorem at_of_getElem {m : Mem} : ∀ {s : List UInt8} {p : Ptr},
    (∀ (k : Nat) (c : UInt8), s[k]? = some c → m.byte p.block (p.off + k) = c) → At m p s
  | [], _, _ => trivial
  | c :: s, p, h => by
    refine ⟨?_, at_of_getElem (fun k d hd => ?_)⟩
    · have h0 := h 0 c rfl
      rwa [Int.natCast_zero, Int.add_zero] at h0
    · have hk := h (k + 1) d hd
      rw [← hk]
      congr 1
      simp only [Ptr.add_off]
      omega

/-- The same bytes at the same offsets, in this block or another. -/
theorem At.congr {m m' : Mem} : ∀ {s : List UInt8} {p q : Ptr}, At m p s → q.off = p.off →
    (∀ o, p.off ≤ o → o < p.off + s.length → m'.byte q.block o = m.byte p.block o) → At m' q s
  | [], _, _, _, _, _ => trivial
  | c :: s, p, q, h, hoff, hbyte => by
    rw [List.length_cons] at hbyte
    refine ⟨?_, At.congr h.2 (by simp only [Ptr.add_off]; omega) (fun o h1 h2 => hbyte o ?_ ?_)⟩
    · rw [hoff, hbyte p.off (Int.le_refl _) (by omega)]
      exact h.1
    · simp only [Ptr.add_off] at h1
      omega
    · simp only [Ptr.add_off] at h2
      omega

theorem SameOutside.widen {p q : Ptr} {n k : Nat} {m m' : Mem} (h : SameOutside q k m m')
    (hsub : ∀ b o, inside q k b o = true → inside p n b o = true) : SameOutside p n m m' :=
  ⟨h.size, h.os, h.next, fun b o hb hi => h.byte b o hb (Bool.eq_false_iff.2 (fun hq => by
    rw [hsub b o hq] at hi
    cases hi))⟩

/-- A write outside leaves the bytes. -/
theorem At.outside {m m' : Mem} {s : List UInt8} {p q : Ptr} {n : Nat} (h : At m q s) (hsame : SameOutside p n m m')
    (hlive : q.block < m.next) (happart : apart p n q s.length = true) : At m' q s := by
  rw [apart_iff] at happart
  refine h.congr rfl (fun o h1 h2 => hsame.byte _ _ hlive (Bool.eq_false_iff.2 (fun hi => ?_)))
  rw [inside_iff] at hi
  rcases happart with hne | hlt | hlt
  · exact hne hi.1.symm
  · omega
  · omega

/-- A block that is resized takes its bytes along. -/
theorem At.resized {m m' : Mem} {p q : Ptr} {n k : Nat} {s : List UInt8} (h : At m p s) (h0 : p.off = 0)
    (hlen : s.length ≤ n) (hres : Resized p q n k m m') : At m' q s :=
  h.congr (hres.off.trans h0.symm) (fun o _ h2 => hres.kept o (by omega))

/-! ## Reading and writing -/

theorem cStringFrom_ok {m : Mem} : ∀ {s : List UInt8} {p : Ptr} {n : Nat}, m.valid p (s.length + 1) = true →
    Clean s → At m p (s ++ [0]) → s.length < n → cStringFrom m n p = .ok s
  | [], p, n, hv, _, hat, hn => by
    obtain ⟨k, rfl⟩ : ∃ k, n = k + 1 := ⟨n - 1, by omega⟩
    unfold cStringFrom
    rw [load_ok hv, ok_bind, if_pos hat.1]
  | c :: s, p, n, hv, hclean, hat, hn => by
    rw [List.length_cons] at hv hn
    obtain ⟨k, rfl⟩ : ∃ k, n = k + 1 := ⟨n - 1, by omega⟩
    have hfirst : m.valid p 1 = true := by
      have h := valid_add (d := 0) (k := 1) hv (Int.le_refl _) (by omega)
      rwa [show p.add 0 = p by unfold Ptr.add; simp] at h
    have hrest : m.valid (p.add 1) (s.length + 1) = true := valid_add hv (by omega) (by omega)
    have ih := cStringFrom_ok hrest (fun d hd => hclean d (List.mem_cons_of_mem _ hd)) hat.2 (n := k) (by omega)
    unfold cStringFrom
    rw [load_ok hfirst, ok_bind, hat.1, if_neg (hclean c List.mem_cons_self), ih]
    rfl

theorem valid_head {m : Mem} {p : Ptr} {n : Nat} (h : m.valid p (n + 1) = true) : m.valid p 1 = true := by
  obtain ⟨s, hs, h0, h1⟩ := (valid_iff _ _ _).1 h
  exact (valid_iff _ _ _).2 ⟨s, hs, h0, by omega⟩

theorem valid_tail {m : Mem} {p : Ptr} {n : Nat} (h : m.valid p (n + 1) = true) : m.valid (p.add 1) n = true :=
  valid_add h (by omega) (by omega)

/-- **A string is read as it stands**, wherever it begins. -/
theorem cString_at {m : Mem} {p : Ptr} {s : List UInt8} (hv : m.valid p (s.length + 1) = true) (hclean : Clean s)
    (hat : At m p (s ++ [0])) : cString m p = .ok s := by
  obtain ⟨n, hsize, h0, h1⟩ := (valid_iff _ _ _).1 hv
  unfold cString
  rw [hsize]
  exact cStringFrom_ok hv hclean hat (by omega)

theorem takeWhile_append_nul : ∀ {s : List UInt8}, 0 ∈ s → ∃ t, s = s.takeWhile (fun c => c != 0) ++ 0 :: t
  | c :: s, h => by
    rw [List.takeWhile_cons]
    by_cases hc : c = 0
    · exact ⟨s, by simp [hc]⟩
    · obtain ⟨t, ht⟩ := takeWhile_append_nul ((List.mem_cons.1 h).resolve_left (fun h0 => hc h0.symm))
      have hne : (c != 0) = true := bne_iff_ne.2 hc
      rw [if_pos hne]
      exact ⟨t, congrArg (c :: ·) ht⟩

/-- **The string in a buffer** is what comes before the first NUL. -/
theorem cString_takeWhile {m : Mem} {p : Ptr} {s : List UInt8} (hv : m.valid p s.length = true) (hnul : 0 ∈ s)
    (hat : At m p s) : cString m p = .ok (s.takeWhile (fun c => c != 0)) := by
  obtain ⟨t, ht⟩ := takeWhile_append_nul hnul
  have hclean : Clean (s.takeWhile (fun c => c != 0)) := fun c hc => by
    simpa using List.all_eq_true.1 List.all_takeWhile c hc
  generalize s.takeWhile (fun c => c != 0) = u at ht hclean
  subst ht
  have hlen : (u ++ 0 :: t).length = u.length + 1 + t.length := by
    rw [List.length_append, List.length_cons]
    omega
  refine cString_at ?_ hclean ?_
  · obtain ⟨n, hsize, h0, h1⟩ := (valid_iff _ _ _).1 hv
    exact (valid_iff _ _ _).2 ⟨n, hsize, h0, by omega⟩
  · rw [List.append_cons] at hat
    exact (at_append.1 hat).1

/-- A buffer without a NUL is read to the end of its block and beyond. -/
theorem cStringFrom_unterminated {m : Mem} : ∀ {s : List UInt8} {p : Ptr} {n : Nat}, m.size p.block = some n →
    p.off + s.length = n → 0 ≤ p.off → Clean s → At m p s → ∀ k, cStringFrom m k p = .error .outOfBounds
  | _, _, _, _, _, _, _, _, 0 => rfl
  | [], p, n, hsize, hend, _, _, _, k + 1 => by
    have hv : ¬ m.valid p 1 = true := fun hv => by
      obtain ⟨n', hs, -, hle⟩ := (valid_iff _ _ _).1 hv
      cases hsize.symm.trans hs
      rw [List.length_nil] at hend
      omega
    unfold cStringFrom load
    rw [if_neg hv]
    rfl
  | c :: s, p, n, hsize, hend, h0, hclean, hat, k + 1 => by
    rw [List.length_cons] at hend
    have hv : m.valid p 1 = true := (valid_iff _ _ _).2 ⟨n, hsize, h0, by omega⟩
    have ih := cStringFrom_unterminated (p := p.add 1) hsize (by simp only [Ptr.add_off]; omega)
      (by simp only [Ptr.add_off]; omega) (fun d hd => hclean d (List.mem_cons_of_mem _ hd)) hat.2 k
    unfold cStringFrom
    rw [load_ok hv, ok_bind, hat.1, if_neg (hclean c List.mem_cons_self), ih]
    rfl

/-- **A string is read as it stands.** -/
theorem cString_ok {m : Mem} {p : Ptr} {n : Nat} {s : List UInt8} (hsize : m.size p.block = some n) (h0 : p.off = 0)
    (hlen : s.length < n) (hclean : Clean s) (hat : At m p (s ++ [0])) : cString m p = .ok s := by
  unfold cString
  rw [hsize]
  exact cStringFrom_ok ((valid_iff _ _ _).2 ⟨n, hsize, by omega, by omega⟩) hclean hat hlen

theorem store_at {m : Mem} {p : Ptr} (hv : m.valid p 1 = true) (c : UInt8) :
    ∃ m', m.store p c = .ok m' ∧ At m' p [c] ∧ SameOutside p 1 m m' := by
  refine ⟨_, store_ok hv c, ⟨?_, trivial⟩, SameOutside.fill m _ (fun _ _ h => h)⟩
  exact fill_byte_of_inside m _ ((inside_iff _ _ _ _).2 ⟨rfl, by omega, by omega⟩)

/-- One byte, and the rest. -/
theorem store_then {m : Mem} {p : Ptr} {c : UInt8} {s : List UInt8} {n : Nat} {k : Mem → Exec Mem}
    (hv : m.valid p (n + 1) = true)
    (hk : ∀ m₁, m₁.valid (p.add 1) n = true →
      ∃ m', k m₁ = .ok m' ∧ At m' (p.add 1) s ∧ SameOutside (p.add 1) n m₁ m') :
    ∃ m', (do k (← m.store p c)) = .ok m' ∧ At m' p (c :: s) ∧ SameOutside p (n + 1) m m' := by
  have hlive : p.block < m.next := by
    obtain ⟨j, hj, -⟩ := (valid_iff _ _ _).1 hv
    exact lt_next_of_size hj
  obtain ⟨m₁, hstore, hat₁, hsame₁⟩ := store_at (valid_head hv) c
  obtain ⟨m', hrun, hat, hsame⟩ := hk m₁ (by rw [hsame₁.valid]; exact valid_tail hv)
  refine ⟨m', by rw [hstore, ok_bind, hrun], ⟨?_, hat⟩, ?_⟩
  · have hkept := hat₁.outside hsame (Nat.lt_of_lt_of_le hlive hsame₁.next)
      ((apart_iff _ _ _ _).2 (.inr (.inr (by simp only [Ptr.add_off, List.length_singleton]; omega))))
    exact hkept.1
  · refine (hsame₁.widen (fun b o hi => ?_)).trans (hsame.widen (fun b o hi => ?_))
    · rw [inside_iff] at hi ⊢
      omega
    · rw [inside_iff] at hi ⊢
      simp only [Ptr.add_off, Ptr.add_block] at hi
      omega

/-- **`strcpy` writes the string and its NUL**, and nothing else. -/
theorem strcpy_ok : ∀ {s : List UInt8} {m : Mem} {p : Ptr}, m.valid p (s.length + 1) = true →
    ∃ m', strcpy m p s = .ok m' ∧ At m' p (s ++ [0]) ∧ SameOutside p (s.length + 1) m m'
  | [], _, _, hv => store_at hv 0
  | _ :: s, _, _, hv => store_then hv (fun _ hv₁ => strcpy_ok (s := s) hv₁)

/-! ## `strncpy` -/

@[simp] theorem length_padded : ∀ (s : List UInt8) (n : Nat), (padded s n).length = n
  | _, 0 => rfl
  | [], n + 1 => congrArg (· + 1) (length_padded [] n)
  | _ :: s, n + 1 => congrArg (· + 1) (length_padded s n)

/-- The string fills the bytes. -/
theorem padded_of_le : ∀ {s : List UInt8} {n : Nat}, n ≤ s.length → padded s n = s.take n
  | _, 0, _ => rfl
  | [], n + 1, h => absurd h (Nat.not_succ_le_zero n)
  | _ :: _, _ + 1, h => congrArg (List.cons _) (padded_of_le (Nat.le_of_succ_le_succ h))

/-- The string ends before the bytes do. -/
theorem padded_of_lt : ∀ {s : List UInt8} {n : Nat}, s.length < n → ∃ t, padded s n = s ++ 0 :: t
  | [], n + 1, _ => ⟨padded [] n, rfl⟩
  | c :: s, n + 1, h => by
    obtain ⟨t, ht⟩ := padded_of_lt (s := s) (Nat.lt_of_succ_lt_succ h)
    exact ⟨t, congrArg (c :: ·) ht⟩

/-- **`strncpy` writes its `n` bytes**, and nothing else. -/
theorem strncpy_ok : ∀ {s : List UInt8} {n : Nat} {m : Mem} {p : Ptr}, m.valid p n = true →
    ∃ m', strncpy m p s n = .ok m' ∧ At m' p (padded s n) ∧ SameOutside p n m m'
  | s, 0, m, p, _ => ⟨m, by cases s <;> rfl, by cases s <;> trivial, .refl p 0 m⟩
  | [], _ + 1, _, _, hv => store_then hv (fun _ hv₁ => strncpy_ok (s := []) hv₁)
  | _ :: s, _ + 1, _, _, hv => store_then hv (fun _ hv₁ => strncpy_ok (s := s) hv₁)

/-- It does not stop at the end of a block. -/
theorem strncpy_fault (s : List UInt8) {n : Nat} {m : Mem} {p : Ptr} (hn : 0 < n) (hv : ¬ m.valid p n = true) :
    strncpy m p s n = .error .outOfBounds := by
  have hstep : ∀ {s : List UInt8} {n : Nat} {m : Mem} {p : Ptr} {c : UInt8},
      (∀ m₁ : Mem, 0 < n → ¬ m₁.valid (p.add 1) n = true → strncpy m₁ (p.add 1) s n = .error .outOfBounds) →
      ¬ m.valid p (n + 1) = true → (do strncpy (← m.store p c) (p.add 1) s n) = .error .outOfBounds := by
    intro s n m p c ih hv
    by_cases h1 : m.valid p 1 = true
    · obtain ⟨m₁, hstore, -, hsame⟩ := store_at h1 c
      obtain ⟨j, hj, h0, hle⟩ := (valid_iff _ _ _).1 h1
      rw [hstore, ok_bind]
      refine ih m₁ (Nat.pos_of_ne_zero (fun hn => hv (by rw [hn]; exact h1))) (fun hv₁ => hv ?_)
      rw [hsame.valid] at hv₁
      obtain ⟨j', hj', -, hle'⟩ := (valid_iff _ _ _).1 hv₁
      cases hj.symm.trans hj'
      simp only [Ptr.add_off] at hle'
      exact (valid_iff _ _ _).2 ⟨j, hj, h0, by omega⟩
    · unfold store
      rw [if_neg h1]
      rfl
  induction n generalizing s m p with
  | zero => exact absurd hn (Nat.lt_irrefl 0)
  | succ n ih =>
    cases s with
    | nil => exact hstep (fun m₁ => ih []) hv
    | cons c s => exact hstep (fun m₁ => ih s) hv

/-! ## `strncmp` -/

theorem toNat_pos {c : UInt8} (h : c ≠ 0) : 0 < c.toNat :=
  Nat.pos_of_ne_zero (fun h0 => h (UInt8.toNat_inj.1 h0))

/-- **Two strings are equal as far as they are compared.** -/
theorem strncmp_eq_zero : ∀ {s t : List UInt8} {n : Nat}, Clean s → Clean t →
    (strncmp s t n = 0 ↔ s.take n = t.take n)
  | _, _, 0, _, _ => by simp [strncmp]
  | [], [], n + 1, _, _ => by simp [strncmp]
  | [], d :: t, n + 1, _, ht => by
    have hd := toNat_pos (ht d List.mem_cons_self)
    simp only [strncmp, List.take_nil, List.take_succ_cons, reduceCtorEq, iff_false]
    omega
  | c :: s, [], n + 1, hs, _ => by
    have hc := toNat_pos (hs c List.mem_cons_self)
    simp only [strncmp, List.take_nil, List.take_succ_cons, reduceCtorEq, iff_false]
    omega
  | c :: s, d :: t, n + 1, hs, ht => by
    have ih := strncmp_eq_zero (n := n) (fun x hx => hs x (List.mem_cons_of_mem c hx))
      (fun x hx => ht x (List.mem_cons_of_mem d hx))
    unfold strncmp
    by_cases hcd : c = d
    · rw [if_pos hcd, ih, hcd, List.take_succ_cons, List.take_succ_cons, List.cons.injEq]
      exact (and_iff_right rfl).symm
    · rw [if_neg hcd]
      have hne : c.toNat ≠ d.toNat := fun h => hcd (UInt8.toNat_inj.1 h)
      simp only [List.take_succ_cons, List.cons.injEq, hcd, false_and, iff_false]
      omega

end Mem
end CLib
