import CCplusplus.MySortArray
import CCplusplus.Lib.Compared
/-!
# MySortCompared — the pairs that the quick sort compares

The quick sort compares every element of a range with the range's pivot.  With a comparator that is right on the pairs
of `P` and turned round on the others it sorts exactly the arrays on which, run with the right comparator, it compares
pairs of `P` only (`doQsort_sorted_iff`): an element judged wrongly against a pivot ends on the wrong side of it.
-/
namespace Cc
namespace MySort
namespace Arr

open CLib

variable {α : Type}

/-- Every pair that the quick sort compares is in `P`. -/
def quickMeets (P : α → α → Prop) (cmp : α → α → Int) : Nat → (Int → α) → Int → Int → Prop
  | 0, _, _, _ => True
  | fuel + 1, a, begin, end_ => begin < end_ →
    (∀ i, begin ≤ i → i ≤ end_ → P (a i) (a begin)) ∧
    ∀ a₁ p, myPartition cmp fuel a begin end_ = .ok (a₁, p) →
      quickMeets P cmp fuel a₁ begin (p - 1) ∧
      ∀ a₂, doQsort cmp fuel a₁ begin (p - 1) = .ok a₂ → quickMeets P cmp fuel a₂ (p + 1) end_

section
variable {P : α → α → Prop} {cmp cmp' : α → α → Int}

/-! ## The partition under two comparators -/

theorem scanHight_congr {fuel : Nat} {a : Int → α} {begin low hight : Int} (h : low ≤ hight)
    (he : ∀ i, low ≤ i → i ≤ hight → cmp' (a i) (a begin) = cmp (a i) (a begin)) :
    scanHight cmp' fuel a begin low hight = scanHight cmp fuel a begin low hight := by
  refine whileLoop_congr (fun x => low ≤ x ∧ x ≤ hight) (fun x hx => ?_) (fun x hx hc => ⟨rfl, ?_⟩) fuel hight
    ⟨h, Int.le_refl _⟩
  · rw [he x hx.1 hx.2]
  · rintro x' hx'
    cases hx'
    have hgt : x > low := Classical.byContradiction (fun hn => by rw [if_neg hn] at hc; cases hc)
    exact ⟨by omega, by omega⟩

theorem scanLow_congr {fuel : Nat} {a : Int → α} {begin low hight : Int} (h : low ≤ hight)
    (he : ∀ i, low ≤ i → i ≤ hight → cmp' (a i) (a begin) = cmp (a i) (a begin)) :
    scanLow cmp' fuel a begin hight low = scanLow cmp fuel a begin hight low := by
  refine whileLoop_congr (fun x => low ≤ x ∧ x ≤ hight) (fun x hx => ?_) (fun x hx hc => ⟨rfl, ?_⟩) fuel low
    ⟨Int.le_refl _, h⟩
  · rw [he x hx.1 hx.2]
  · rintro x' hx'
    cases hx'
    have hlt : x < hight := Classical.byContradiction (fun hn => by rw [if_neg hn] at hc; cases hc)
    exact ⟨by omega, by omega⟩

/-- **Two comparators that agree against the pivot partition alike.** -/
theorem myPartition_congr (hrefl : ∀ x, cmp x x = 0) {fuel : Nat} {a : Int → α} {begin end_ : Int} (h : begin ≤ end_)
    (hf : (end_ - begin).toNat < fuel)
    (he : ∀ i, begin ≤ i → i ≤ end_ → cmp' (a i) (a begin) = cmp (a i) (a begin)) :
    myPartition cmp' fuel a begin end_ = myPartition cmp fuel a begin end_ := by
  have hturn : ∀ s, PartInv cmp a begin end_ s → partitionTurn cmp' fuel begin s = partitionTurn cmp fuel begin s := by
    rintro ⟨b, low, hight⟩ ⟨hbl, hlh, hhe, hperm, hpiv, -, -, -⟩
    simp only at hbl hlh hhe hperm hpiv
    have heb : ∀ i, begin ≤ i → i ≤ end_ → cmp' (b i) (b begin) = cmp (b i) (b begin) := by
      rw [hpiv]
      exact hperm.all (P := fun x => cmp' x (a begin) = cmp x (a begin)) he
    obtain ⟨h', hh, hh1, hh2, -⟩ := scanHight_spec cmp fuel b begin hlh (by omega)
    unfold partitionTurn
    dsimp only
    rw [scanHight_congr hlh (fun i h1 h2 => heb i (by omega) (by omega)), hh, ok_bind, ok_bind,
      scanLow_congr hh1 (fun i h1 h2 => heb i (by omega) (by omega))]
  unfold myPartition
  rw [whileLoop_congr (PartInv cmp a begin end_) (fun s _ => rfl) (fun s hs hc => ⟨hturn s hs, fun s' hs' => ?_⟩) fuel
    (a, begin, end_) (partInv_init hrefl a h)]
  have hlt : s.2.1 < s.2.2 := of_decide_eq_true (Except.ok.inj hc)
  obtain ⟨t, ht, hinv, -⟩ := partitionTurn_spec hs hlt hf
  rw [ht] at hs'
  cases hs'
  exact hinv

/-! ## The quick sort under two comparators -/

/-- **On pairs of `P` the two comparators sort alike.** -/
theorem doQsort_congr (hagree : ∀ x y, P x y → cmp' x y = cmp x y) (hrefl : ∀ x, cmp x x = 0) : ∀ (fuel : Nat) (a : Int → α)
    (begin end_ : Int), (end_ - begin).toNat + 2 ≤ fuel → quickMeets P cmp fuel a begin end_ →
      doQsort cmp' fuel a begin end_ = doQsort cmp fuel a begin end_
  | 0, _, _, _, _, _ => rfl
  | fuel + 1, a, begin, end_, hfuel, hm => by
    unfold doQsort
    by_cases hle : end_ ≤ begin
    · rw [if_pos hle, if_pos hle]
    rw [if_neg hle, if_neg hle]
    unfold quickMeets at hm
    obtain ⟨hpivot, hsides⟩ := hm (by omega)
    obtain ⟨a₁, p, hp, hbp, hpe, -⟩ := myPartition_spec hrefl fuel a begin end_ (by omega) (by omega)
    obtain ⟨hleft, hright⟩ := hsides a₁ p hp
    obtain ⟨a₂, h₂, -⟩ := doQsort_spec hrefl fuel a₁ begin (p - 1) (by omega)
    rw [myPartition_congr hrefl (by omega) (by omega) (fun i h1 h2 => hagree _ _ (hpivot i h1 h2)), hp]
    simp only [ok_bind]
    rw [doQsort_congr hagree hrefl fuel a₁ begin (p - 1) (by omega) hleft, h₂, ok_bind, ok_bind]
    exact doQsort_congr hagree hrefl fuel a₂ (p + 1) end_ (by omega) (hright a₂ h₂)

/-- A quick sort that comes out in order compared no pair off `P`. -/
theorem meets_of_doQsort_sorted (hf : FlipsOff P cmp cmp') (hc : TotalPreorder cmp) : ∀ (fuel : Nat)
    (a a' : Int → α) (begin end_ : Int), (end_ - begin).toNat + 2 ≤ fuel →
      doQsort cmp' fuel a begin end_ = .ok a' →
      (∀ i j, begin ≤ i → i < j → j ≤ end_ → cmp (a' i) (a' j) ≤ 0) → quickMeets P cmp fuel a begin end_
  | 0, _, _, _, _, hfuel, _, _ => absurd hfuel (by omega)
  | fuel + 1, a, a', begin, end_, hfuel, hrun, hs => by
    have hself : ∀ x, P x x := fun x => hf.self (hc.refl x)
    have hrefl' : ∀ x, cmp' x x = 0 := fun x => (hf.agree x x (hself x)).trans (hc.refl x)
    unfold quickMeets
    intro hlt
    obtain ⟨a₁, p, hp, hbp, hpe, hperm₁, hpiv, hlow, hhigh⟩ :=
      myPartition_spec hrefl' fuel a begin end_ (by omega) (by omega)
    obtain ⟨a₂, h₂, hperm₂, -⟩ := doQsort_spec hrefl' fuel a₁ begin (p - 1) (by omega)
    obtain ⟨a₃, h₃, hperm₃, -⟩ := doQsort_spec hrefl' fuel a₂ (p + 1) end_ (by omega)
    obtain rfl : a₃ = a' := by
      unfold doQsort at hrun
      rw [if_neg (by omega), hp] at hrun
      simp only [ok_bind, h₂, h₃] at hrun
      exact Except.ok.inj hrun
    have hpivot₃ : a₃ p = a₁ p := by
      rw [hperm₃.eq_outside (.inl (by omega)), hperm₂.eq_outside (.inr (by omega))]
    -- on each side of the pivot the order that came out and the side that `cmp'` chose agree
    have hside : ∀ i, begin ≤ i → i ≤ end_ → P (a₁ i) (a₁ p) := by
      intro i h1 h2
      rcases Int.lt_trichotomy i p with hi | rfl | hi
      · refine hf.of_nonpos ?_ (hlow i h1 hi)
        refine hperm₂.symm.all (P := fun x => cmp x (a₁ p) ≤ 0) (fun k hk1 hk2 => ?_) i h1 (by omega)
        have hk := hs k p hk1 (by omega) hpe
        rwa [hpivot₃, hperm₃.eq_outside (.inl (by omega))] at hk
      · exact hself _
      · refine hf.of_nonneg ?_ (hhigh i hi h2)
        rw [← hperm₂.eq_outside (i := i) (.inr (by omega))]
        refine hperm₃.symm.all (P := fun x => 0 ≤ cmp x (a₁ p)) (fun k hk1 hk2 => ?_) i (by omega) h2
        have hk := hs p k (by omega) (by omega) hk2
        rw [hpivot₃] at hk
        exact (hc.nonneg_iff _ _).2 hk
    have hpivot : ∀ i, begin ≤ i → i ≤ end_ → P (a i) (a begin) := by
      rw [hpiv] at hside
      exact hperm₁.symm.all (P := fun x => P x (a begin)) hside
    have hsame : myPartition cmp' fuel a begin end_ = myPartition cmp fuel a begin end_ :=
      myPartition_congr hc.refl (by omega) (by omega) (fun i h1 h2 => hf.agree _ _ (hpivot i h1 h2))
    refine ⟨hpivot, fun b q hq => ?_⟩
    rw [← hsame, hp] at hq
    cases hq
    have hleft := meets_of_doQsort_sorted hf hc fuel a₁ a₂ begin (p - 1) (by omega) h₂ (fun i j h1 h2 h3 => by
      have hij := hs i j h1 h2 (by omega)
      rwa [hperm₃.eq_outside (.inl (by omega)), hperm₃.eq_outside (.inl (by omega))] at hij)
    refine ⟨hleft, fun c hc₂ => ?_⟩
    rw [← doQsort_congr hf.agree hc.refl fuel a₁ begin (p - 1) (by omega) hleft, h₂] at hc₂
    cases hc₂
    exact meets_of_doQsort_sorted hf hc fuel a₂ a₃ (p + 1) end_ (by omega) h₃ (fun i j h1 h2 h3 =>
      hs i j (by omega) h2 h3)

/-- **The quick sort with `cmp'` sorts an array exactly when it compares pairs of `P` only.** -/
theorem doQsort_sorted_iff (hf : FlipsOff P cmp cmp') (hc : TotalPreorder cmp) {fuel : Nat} {a a' : Int → α}
    {begin end_ : Int} (hfuel : (end_ - begin).toNat + 2 ≤ fuel) (hrun : doQsort cmp' fuel a begin end_ = .ok a') :
    (∀ i j, begin ≤ i → i < j → j ≤ end_ → cmp (a' i) (a' j) ≤ 0) ↔ quickMeets P cmp fuel a begin end_ := by
  refine ⟨meets_of_doQsort_sorted hf hc fuel a a' begin end_ hfuel hrun, fun hm => ?_⟩
  obtain ⟨b, hb, -, hsorted⟩ := doQsort_spec hc.refl fuel a begin end_ hfuel
  rw [doQsort_congr hf.agree hc.refl fuel a begin end_ hfuel hm, hb] at hrun
  cases hrun
  exact hsorted hc

/-- Where all pairs are in `P`, so are those that the quick sort compares. -/
theorem quickMeets_of_forall (hrefl : ∀ x, cmp x x = 0) : ∀ (fuel : Nat) (a : Int → α) (begin end_ : Int),
    (end_ - begin).toNat + 2 ≤ fuel →
      (∀ i j, begin ≤ i → i ≤ end_ → begin ≤ j → j ≤ end_ → P (a i) (a j)) → quickMeets P cmp fuel a begin end_
  | 0, _, _, _, hfuel, _ => absurd hfuel (by omega)
  | fuel + 1, a, begin, end_, hfuel, h => by
    have hkeep : ∀ {b : Int → α}, PermOn begin end_ a b → ∀ i j, begin ≤ i → i ≤ end_ → begin ≤ j → j ≤ end_ →
        P (b i) (b j) := fun hb i j hi1 hi2 hj1 hj2 =>
      hb.all (P := fun x => ∀ y, (∃ k, begin ≤ k ∧ k ≤ end_ ∧ a k = y) → P x y)
        (fun k hk1 hk2 y hy => by
          obtain ⟨l, hl1, hl2, rfl⟩ := hy
          exact h k l hk1 hk2 hl1 hl2) i hi1 hi2 _
        (hb.all (P := fun y => ∃ k, begin ≤ k ∧ k ≤ end_ ∧ a k = y) (fun k hk1 hk2 => ⟨k, hk1, hk2, rfl⟩) j hj1 hj2)
    unfold quickMeets
    refine fun hlt => ⟨fun i h1 h2 => h i begin h1 h2 (by omega) (by omega), fun a₁ p hp => ?_⟩
    obtain ⟨b, q, hq, hbq, hqe, hperm₁, -⟩ := myPartition_spec hrefl fuel a begin end_ (by omega) (by omega)
    rw [hq] at hp
    cases hp
    refine ⟨quickMeets_of_forall hrefl fuel a₁ begin (p - 1) (by omega) (fun i j hi1 hi2 hj1 hj2 =>
      hkeep hperm₁ i j hi1 (by omega) hj1 (by omega)), fun a₂ h₂ => ?_⟩
    obtain ⟨c, hc, hperm₂, -⟩ := doQsort_spec hrefl fuel a₁ begin (p - 1) (by omega)
    rw [hc] at h₂
    cases h₂
    exact quickMeets_of_forall hrefl fuel a₂ (p + 1) end_ (by omega) (fun i j hi1 hi2 hj1 hj2 =>
      hkeep (hperm₁.trans (hperm₂.widen (by omega) (by omega))) i j (by omega) hi2 (by omega) hj2)

end

end Arr
end MySort
end Cc
