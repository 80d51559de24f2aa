import CCplusplus.Equations
import Mathlib.Data.List.Induction
/-!
# EquationsLinks — what the union loop keeps, and what it loses

Every link of `eq_set` stays inside one class of the equations (`LinksInv`), so `equationsPossible` never refuses a list
that can be satisfied.  `find_root` follows two links, and the union redirects the right-hand letter and its parent only:
a class that hangs deeper than one link when it is joined under another is torn.  While no join does that, two letters
are two links from one root exactly when they are connected (`TwoLinks`).
-/
namespace Cc
namespace Equations

open CLib

/-- What one `==` equation does to the links. -/
def join (P : Int → Int) (j k : Int) : Int → Int :=
  if P j ≠ -1 then
    if P k ≠ -1 then setAt (setAt P k (P (P j))) (P k) (P (P j)) else setAt P k (P (P j))
  else
    if P k ≠ -1 then setAt P j (P (P k)) else setAt (setAt P j j) k j

/-- The links after a list of `==` equations. -/
def links (eqs : List (Int × Int)) : Int → Int := eqs.foldl (fun P p => join P p.1 p.2) (fun _ => -1)

/-- What `find_root` returns. -/
def rootOf (P : Int → Int) (x : Int) : Int := if P x = -1 then -1 else P (P x)

def Seen (eqs : List (Int × Int)) (x : Int) : Prop := ∃ p ∈ eqs, p.1 = x ∨ p.2 = x

/-- The links after the equations `eqs`: every letter seen, and no other, has one, to a letter seen and connected. -/
structure LinksInv (P : Int → Int) (eqs : List (Int × Int)) : Prop where
  range : ∀ x, P x ≠ -1 → 0 ≤ x ∧ x < 26
  closed : ∀ x, P x ≠ -1 → P (P x) ≠ -1
  seen : ∀ x, P x ≠ -1 ↔ Seen eqs x
  connected : ∀ x, P x ≠ -1 → Connected eqs x (P x)

/-! ## Connected letters -/

theorem Connected.mono {eqs eqs' : List (Int × Int)} (h : ∀ p ∈ eqs, p ∈ eqs') {x y : Int} (hc : Connected eqs x y) :
    Connected eqs' x y := Relation.EqvGen.mono (fun _ _ hp => h _ hp) _ _ hc

/-- What respects every equation respects connection. -/
theorem Connected.respects {eqs : List (Int × Int)} {β : Type} {f : Int → β} (hf : ∀ p ∈ eqs, f p.1 = f p.2) {x y : Int}
    (hc : Connected eqs x y) : f x = f y := by
  induction hc with
  | rel x y hp => exact hf _ hp
  | refl x => rfl
  | symm x y _ ih => exact ih.symm
  | trans x y z _ _ h1 h2 => exact h1.trans h2

theorem Connected.seen {eqs : List (Int × Int)} {x y : Int} (hc : Connected eqs x y) :
    x = y ∨ Seen eqs x ∧ Seen eqs y := by
  induction hc with
  | rel x y hp => exact .inr ⟨⟨_, hp, .inl rfl⟩, ⟨_, hp, .inr rfl⟩⟩
  | refl x => exact .inl rfl
  | symm x y _ ih =>
    rcases ih with rfl | ⟨h1, h2⟩
    · exact .inl rfl
    · exact .inr ⟨h2, h1⟩
  | trans x y z _ _ ih1 ih2 =>
    rcases ih1 with rfl | ⟨h1, h2⟩
    · exact ih2
    · rcases ih2 with rfl | ⟨h3, h4⟩
      · exact .inr ⟨h1, h2⟩
      · exact .inr ⟨h1, h4⟩

theorem seen_concat (eqs : List (Int × Int)) (j k x : Int) :
    Seen (eqs ++ [(j, k)]) x ↔ Seen eqs x ∨ x = j ∨ x = k := by
  constructor
  · rintro ⟨p, hp, h⟩
    rcases List.mem_append.1 hp with hp | hp
    · exact .inl ⟨p, hp, h⟩
    · rw [List.mem_singleton] at hp
      subst hp
      rcases h with rfl | rfl
      · exact .inr (.inl rfl)
      · exact .inr (.inr rfl)
  · rintro (⟨p, hp, h⟩ | rfl | rfl)
    · exact ⟨p, List.mem_append_left _ hp, h⟩
    · exact ⟨_, List.mem_append_right _ (List.mem_singleton_self _), .inl rfl⟩
    · exact ⟨_, List.mem_append_right _ (List.mem_singleton_self _), .inr rfl⟩

/-! ## One equation -/

theorem setAt_twice (P : Int → Int) (k l v x : Int) :
    setAt (setAt P k v) l v x = if x = l ∨ x = k then v else P x := by
  unfold setAt
  by_cases hl : x = l
  · rw [if_pos hl, if_pos (.inl hl)]
  · by_cases hk : x = k
    · rw [if_neg hl, if_pos hk, if_pos (.inr hk)]
    · rw [if_neg hl, if_neg hk, if_neg (fun h => h.elim hl hk)]

theorem linksInv_nil : LinksInv (fun _ => -1) [] where
  range := fun _ h => absurd rfl h
  closed := fun _ h => absurd rfl h
  seen := fun _ => ⟨fun h => absurd rfl h, fun ⟨_, h, _⟩ => by cases h⟩
  connected := fun _ h => absurd rfl h

/-- The links are redirected, each within the joined class: the general form of the four cases. -/
theorem linksInv_of {P P' : Int → Int} {eqs : List (Int × Int)} {j k : Int} (h : LinksInv P eqs)
    (hj : 0 ≤ j ∧ j < 26) (hk : 0 ≤ k ∧ k < 26) (hPj : P' j ≠ -1) (hPk : P' k ≠ -1)
    (hold : ∀ x, P x ≠ -1 → P' x ≠ -1)
    (hnew : ∀ x, P' x ≠ -1 → P' x = P x ∨
      (x = j ∨ x = k ∨ Seen eqs x) ∧ P' (P' x) ≠ -1 ∧ Connected (eqs ++ [(j, k)]) x (P' x)) :
    LinksInv P' (eqs ++ [(j, k)]) where
  range := fun x hx => by
    rcases hnew x hx with he | ⟨rfl | rfl | hs, -, -⟩
    · exact h.range x (he ▸ hx)
    · exact hj
    · exact hk
    · exact h.range x ((h.seen x).2 hs)
  closed := fun x hx => by
    rcases hnew x hx with he | ⟨-, hc, -⟩
    · rw [he]; exact hold _ (h.closed x (he ▸ hx))
    · exact hc
  seen := fun x => by
    rw [seen_concat]
    constructor
    · intro hx
      rcases hnew x hx with he | ⟨rfl | rfl | hs, -, -⟩
      · exact .inl ((h.seen x).1 (he ▸ hx))
      · exact .inr (.inl rfl)
      · exact .inr (.inr rfl)
      · exact .inl hs
    · rintro (hs | rfl | rfl)
      · exact hold x ((h.seen x).2 hs)
      · exact hPj
      · exact hPk
  connected := fun x hx => by
    rcases hnew x hx with he | ⟨-, -, hc⟩
    · rw [he]; exact (h.connected x (he ▸ hx)).mono (fun p hp => List.mem_append_left _ hp)
    · exact hc

theorem connected_pair (eqs : List (Int × Int)) (j k : Int) : Connected (eqs ++ [(j, k)]) j k :=
  .rel _ _ (List.mem_append_right _ (List.mem_singleton_self _))

/-- Two links from a letter seen lead to a letter seen and connected. -/
theorem LinksInv.twice {P : Int → Int} {eqs : List (Int × Int)} (h : LinksInv P eqs) {x : Int} (hx : P x ≠ -1)
    (p : Int × Int) : P (P (P x)) ≠ -1 ∧ P (P x) ≠ -1 ∧ Connected (eqs ++ [p]) x (P (P x)) :=
  ⟨h.closed _ (h.closed x hx), h.closed x hx,
    Connected.mono (fun _ hp => List.mem_append_left _ hp)
      (.trans _ _ _ (h.connected x hx) (h.connected _ (h.closed x hx)))⟩

/-- **One equation keeps the links inside the classes.** -/
theorem join_inv {P : Int → Int} {eqs : List (Int × Int)} {j k : Int} (h : LinksInv P eqs) (hj : 0 ≤ j ∧ j < 26)
    (hk : 0 ≤ k ∧ k < 26) : LinksInv (join P j k) (eqs ++ [(j, k)]) := by
  have hjk := connected_pair eqs j k
  unfold join
  by_cases hPj : P j = -1
  · rw [if_neg (by simpa using hPj)]
    by_cases hPk : P k = -1
    · -- neither letter has been seen
      rw [if_neg (by simpa using hPk)]
      have hset := setAt_twice P j k j
      have hjj : setAt (setAt P j j) k j j = j := by rw [hset, if_pos (.inr rfl)]
      apply linksInv_of h hj hk
      · rw [hjj]; omega
      · rw [hset, if_pos (.inl rfl)]; omega
      · intro x hx
        rw [hset]; split
        · omega
        · exact hx
      · intro x _
        by_cases hx : x = k ∨ x = j
        · right
          rw [(hset x).trans (if_pos hx), hjj]
          rcases hx with rfl | rfl
          · exact ⟨.inr (.inl rfl), by omega, hjk.symm⟩
          · exact ⟨.inl rfl, by omega, .refl _⟩
        · exact .inl (by rw [hset, if_neg hx])
    · -- only the right-hand letter has been seen
      rw [if_pos hPk]
      obtain ⟨h1, h2, h3⟩ := h.twice hPk (j, k)
      have hold : ∀ x, P x ≠ -1 → setAt P j (P (P k)) x ≠ -1 := fun x hx => by
        unfold setAt; split
        · exact h2
        · exact hx
      apply linksInv_of h hj hk (by rw [setAt_same]; exact h2) (hold k hPk) hold
      intro x _
      by_cases hx : x = j
      · subst hx
        right
        rw [setAt_same]
        exact ⟨.inl rfl, hold _ h1, hjk.trans _ _ _ h3⟩
      · exact .inl (setAt_of_ne hx)
  · rw [if_pos hPj]
    obtain ⟨h1, h2, h3⟩ := h.twice hPj (j, k)
    by_cases hPk : P k = -1
    · -- only the left-hand letter has been seen
      rw [if_neg (by simpa using hPk)]
      have hold : ∀ x, P x ≠ -1 → setAt P k (P (P j)) x ≠ -1 := fun x hx => by
        unfold setAt; split
        · exact h2
        · exact hx
      apply linksInv_of h hj hk (hold j hPj) (by rw [setAt_same]; exact h2) hold
      intro x _
      by_cases hx : x = k
      · subst hx
        right
        rw [setAt_same]
        exact ⟨.inr (.inl rfl), hold _ h1, (hjk.symm).trans _ _ _ h3⟩
      · exact .inl (setAt_of_ne hx)
    · -- both letters have been seen: the right-hand one and its parent are redirected
      rw [if_pos hPk]
      have hset := setAt_twice P k (P k) (P (P j))
      have hold : ∀ x, P x ≠ -1 → setAt (setAt P k (P (P j))) (P k) (P (P j)) x ≠ -1 := fun x hx => by
        rw [hset]; split
        · exact h2
        · exact hx
      apply linksInv_of h hj hk (hold j hPj) (hold k hPk) hold
      intro x _
      by_cases hx : x = P k ∨ x = k
      · right
        rw [(hset x).trans (if_pos hx)]
        refine ⟨?_, hold _ h1, ?_⟩
        · rcases hx with rfl | rfl
          · exact .inr (.inr ((h.seen _).1 (h.closed k hPk)))
          · exact .inr (.inl rfl)
        · rcases hx with rfl | rfl
          · have hk' : Connected (eqs ++ [(j, k)]) k (P k) :=
              (h.connected k hPk).mono (fun _ hp => List.mem_append_left _ hp)
            exact (hk'.symm).trans _ _ _ ((hjk.symm).trans _ _ _ h3)
          · exact (hjk.symm).trans _ _ _ h3
      · exact .inl (by rw [hset, if_neg hx])

/-- Letters of an equation are in the range of `eq_set`. -/
def InRange (eqs : List (Int × Int)) : Prop := ∀ p ∈ eqs, (0 ≤ p.1 ∧ p.1 < 26) ∧ 0 ≤ p.2 ∧ p.2 < 26

theorem links_concat (eqs : List (Int × Int)) (p : Int × Int) : links (eqs ++ [p]) = join (links eqs) p.1 p.2 := by
  unfold links; rw [List.foldl_append]; rfl

/-- **The links of any list of equations stay inside its classes.** -/
theorem links_inv (eqs : List (Int × Int)) (hr : InRange eqs) : LinksInv (links eqs) eqs := by
  induction eqs using List.reverseRecOn with
  | nil => exact linksInv_nil
  | append_singleton eqs p ih =>
    obtain ⟨hj, hk⟩ := hr p (List.mem_append_right _ (List.mem_singleton_self _))
    rw [links_concat]
    exact join_inv (ih (fun q hq => hr q (List.mem_append_left _ hq))) hj hk

/-! ## Joins that tear nothing -/

/-- Where the join of `j` and `k` redirects another class, all its letters hang from the two links redirected. -/
def FlatJoin (P : Int → Int) (j k : Int) : Prop :=
  P j ≠ -1 → P k ≠ -1 → P (P j) ≠ P (P k) → ∀ x, P (P x) = P (P k) → x = k ∨ x = P k ∨ P x = k ∨ P x = P k

/-- Every equation of the list joins so, on the links of those before it. -/
def FlatJoins (eqs : List (Int × Int)) : Prop :=
  ∀ eqs₁ p eqs₂, eqs = eqs₁ ++ p :: eqs₂ → FlatJoin (links eqs₁) p.1 p.2

/-- Two links from any letter end at a root, one root for each equation. -/
structure TwoLinks (P : Int → Int) (eqs : List (Int × Int)) : Prop where
  root : ∀ x, P x ≠ -1 → P (P (P x)) = P (P x)
  joined : ∀ p ∈ eqs, P (P p.1) = P (P p.2)

/-- A join that sends whole classes by `f` to roots, and the two letters joined to the root `r`. -/
theorem twoLinks_of {P P' : Int → Int} {eqs : List (Int × Int)} {j k : Int} {f : Int → Int} {r : Int}
    (hi : LinksInv P eqs) (hi' : LinksInv P' (eqs ++ [(j, k)])) (h : TwoLinks P eqs)
    (hf : ∀ x, P x ≠ -1 → P' (P' x) = f (P (P x))) (hfix : ∀ x, P x ≠ -1 → P' (f (P (P x))) = f (P (P x)))
    (hr : P' r = r) (hj : P' (P' j) = r) (hk : P' (P' k) = r) : TwoLinks P' (eqs ++ [(j, k)]) where
  root := fun x hx => by
    rcases (seen_concat eqs j k x).1 ((hi'.seen x).1 hx) with hs | rfl | rfl
    · have hPx := (hi.seen x).2 hs
      rw [hf x hPx, hfix x hPx]
    · rw [hj, hr]
    · rw [hk, hr]
  joined := fun p hp => by
    rcases List.mem_append.1 hp with hp | hp
    · have h1 := hf p.1 ((hi.seen _).2 ⟨p, hp, .inl rfl⟩)
      have h2 := hf p.2 ((hi.seen _).2 ⟨p, hp, .inr rfl⟩)
      rw [h1, h2, h.joined p hp]
    · rw [List.mem_singleton] at hp
      subst hp
      exact hj.trans hk.symm

/-- A letter that hangs from `k`, or from what `k` hangs from, has the root of `k`. -/
theorem TwoLinks.root_of_hangs {P : Int → Int} {eqs : List (Int × Int)} (h : TwoLinks P eqs) {x k : Int}
    (hx : P x ≠ -1) (hxk : P x = k ∨ P x = P k) : P (P x) = P (P k) := by
  rcases hxk with rfl | he
  · exact (h.root x hx).symm
  · rw [he]

/-- Links that do not change at the letters seen. -/
theorem LinksInv.twice_of_agree {P P' : Int → Int} {eqs : List (Int × Int)} (hi : LinksInv P eqs)
    (h : ∀ x, P x ≠ -1 → P' x = P x) {x : Int} (hx : P x ≠ -1) : P' (P' x) = P (P x) := by
  rw [h x hx, h _ (hi.closed x hx)]

/-- A letter new to the equations is hung from a root. -/
theorem hang_twoLinks {P : Int → Int} {eqs : List (Int × Int)} {x y j k : Int} (hi : LinksInv P eqs)
    (hi' : LinksInv (setAt P x (P (P y))) (eqs ++ [(j, k)])) (h : TwoLinks P eqs) (hx : P x = -1) (hy : P y ≠ -1)
    (hjk : j = x ∧ k = y ∨ j = y ∧ k = x) : TwoLinks (setAt P x (P (P y))) (eqs ++ [(j, k)]) := by
  have hagree : ∀ z, P z ≠ -1 → setAt P x (P (P y)) z = P z := fun z hz => setAt_of_ne (fun he => hz (he ▸ hx))
  have hroot : ∀ z, P z ≠ -1 → setAt P x (P (P y)) (P (P z)) = P (P z) := fun z hz => by
    rw [hagree _ (hi.closed _ (hi.closed z hz)), h.root z hz]
  have h1 : setAt P x (P (P y)) (setAt P x (P (P y)) x) = P (P y) := by rw [setAt_same, hroot y hy]
  have h2 : setAt P x (P (P y)) (setAt P x (P (P y)) y) = P (P y) := hi.twice_of_agree hagree hy
  apply twoLinks_of hi hi' h (f := id) (fun z hz => hi.twice_of_agree hagree hz) hroot (hroot y hy)
  · rcases hjk with ⟨rfl, -⟩ | ⟨rfl, -⟩
    · exact h1
    · exact h2
  · rcases hjk with ⟨-, rfl⟩ | ⟨-, rfl⟩
    · exact h2
    · exact h1

/-- Two links from a letter seen, once the letters seen `j` and `k` are joined flat. -/
theorem join_seen_twice {P P' : Int → Int} {eqs : List (Int × Int)} {j k : Int} (h : TwoLinks P eqs) (hj : P j ≠ -1)
    (hk : P k ≠ -1) (hflat : FlatJoin P j k) (hP' : ∀ y, P' y = if y = P k ∨ y = k then P (P j) else P y) {x : Int}
    (hx : P x ≠ -1) : P' (P' x) = if P (P x) = P (P k) then P (P j) else P (P x) := by
  have hJ : P' (P (P j)) = P (P j) := by
    rw [hP']; split
    · rfl
    · exact h.root j hj
  by_cases hxk : x = P k ∨ x = k
  · have hs : P (P x) = P (P k) := by
      rcases hxk with rfl | rfl
      · exact h.root k hk
      · rfl
    rw [hP' x, if_pos hxk, hJ, if_pos hs]
  · rw [hP' x, if_neg hxk, hP']
    by_cases hpx : P x = P k ∨ P x = k
    · rw [if_pos hpx, if_pos (h.root_of_hangs hx hpx.symm)]
    · rw [if_neg hpx]
      by_cases hs : P (P x) = P (P k)
      · rw [if_pos hs]
        by_cases he : P (P j) = P (P k)
        · rw [he, hs]
        · rcases hflat hj hk he x hs with h1 | h1 | h1 | h1
          · exact absurd (.inr h1) hxk
          · exact absurd (.inl h1) hxk
          · exact absurd (.inr h1) hpx
          · exact absurd (.inl h1) hpx
      · rw [if_neg hs]

/-- The roots stay roots. -/
theorem join_seen_root {P P' : Int → Int} {eqs : List (Int × Int)} {j k : Int} (h : TwoLinks P eqs)
    (hP' : ∀ y, P' y = if y = P k ∨ y = k then P (P j) else P y) {x : Int} (hx : P x ≠ -1)
    (hs : P (P x) = P (P k) → P (P x) = P (P j)) : P' (P (P x)) = P (P x) := by
  by_cases hxk : P (P x) = P k ∨ P (P x) = k
  · have he : P (P x) = P (P k) := by
      rcases hxk with he | he
      · calc P (P x) = P (P (P x)) := (h.root x hx).symm
          _ = P (P k) := by rw [he]
      · calc P (P x) = P (P (P x)) := (h.root x hx).symm
          _ = P (P (P (P x))) := by rw [h.root x hx, h.root x hx]
          _ = P (P k) := by rw [he]
    rw [hP', if_pos hxk, ← hs he]
  · rw [hP', if_neg hxk, h.root x hx]

/-- **A flat join keeps every class two links from its root.** -/
theorem join_twoLinks {P : Int → Int} {eqs : List (Int × Int)} {j k : Int} (hi : LinksInv P eqs) (h : TwoLinks P eqs)
    (hflat : FlatJoin P j k) (hj : 0 ≤ j ∧ j < 26) (hk : 0 ≤ k ∧ k < 26) : TwoLinks (join P j k) (eqs ++ [(j, k)]) := by
  have hi' := join_inv hi hj hk
  unfold join at hi' ⊢
  by_cases hPj : P j = -1
  · rw [if_neg (by simpa using hPj)] at hi' ⊢
    by_cases hPk : P k = -1
    · -- a class of its own
      rw [if_neg (by simpa using hPk)] at hi' ⊢
      have hagree : ∀ x, P x ≠ -1 → setAt (setAt P j j) k j x = P x := fun x hx => by
        rw [setAt_twice, if_neg (fun he => he.elim (fun he => hx (he ▸ hPk)) (fun he => hx (he ▸ hPj)))]
      have hjj : setAt (setAt P j j) k j j = j := (setAt_twice P j k j j).trans (if_pos (.inr rfl))
      have hkj : setAt (setAt P j j) k j k = j := setAt_same _ _ _
      apply twoLinks_of hi hi' h (f := id) (fun x hx => hi.twice_of_agree hagree hx) _ hjj
      · rw [hjj, hjj]
      · rw [hkj, hjj]
      · intro x hx
        exact (hagree _ (hi.closed _ (hi.closed x hx))).trans (h.root x hx)
    · rw [if_pos hPk] at hi' ⊢
      exact hang_twoLinks hi hi' h hPj hPk (.inl ⟨rfl, rfl⟩)
  · rw [if_pos hPj] at hi' ⊢
    by_cases hPk : P k = -1
    · rw [if_neg (by simpa using hPk)] at hi' ⊢
      exact hang_twoLinks hi hi' h hPk hPj (.inr ⟨rfl, rfl⟩)
    · -- the class of the right-hand letter goes to the root of the other
      rw [if_pos hPk] at hi' ⊢
      have hP' := setAt_twice P k (P k) (P (P j))
      have htwice := fun x hx => join_seen_twice (x := x) h hPj hPk hflat hP' hx
      have hJ := join_seen_root h hP' hPj (fun _ => rfl)
      apply twoLinks_of hi hi' h (f := fun s => if s = P (P k) then P (P j) else s) htwice _ hJ
      · rw [htwice j hPj]
        split
        · rfl
        · rfl
      · rw [htwice k hPk, if_pos rfl]
      · intro x hx
        by_cases hs : P (P x) = P (P k)
        · rw [if_pos hs, hJ]
        · rw [if_neg hs]
          exact join_seen_root h hP' hx (fun he => absurd he hs)

/-- **While every join is flat, two letters seen have one root exactly when they are connected.** -/
theorem links_twoLinks (eqs : List (Int × Int)) (hr : InRange eqs) (hflat : FlatJoins eqs) :
    TwoLinks (links eqs) eqs := by
  induction eqs using List.reverseRecOn with
  | nil => exact ⟨fun _ h => absurd rfl h, fun _ h => by cases h⟩
  | append_singleton eqs p ih =>
    have hr' : InRange eqs := fun q hq => hr q (List.mem_append_left _ hq)
    obtain ⟨hj, hk⟩ := hr p (List.mem_append_right _ (List.mem_singleton_self _))
    have hflat' : FlatJoins eqs := fun eqs₁ q eqs₂ he => hflat eqs₁ q (eqs₂ ++ [p]) (by rw [he]; simp)
    rw [links_concat]
    exact join_twoLinks (links_inv eqs hr') (ih hr' hflat') (hflat eqs p [] rfl) hj hk

/-! ## The links of one class -/

section Within

variable {K : Int → Bool} {eqs : List (Int × Int)}

/-- The equations of the letters in `K`. -/
def within (K : Int → Bool) (eqs : List (Int × Int)) : List (Int × Int) := eqs.filter (fun p => K p.1)

/-- No equation leads out of `K`. -/
def Closed (K : Int → Bool) (eqs : List (Int × Int)) : Prop := ∀ p ∈ eqs, K p.1 = K p.2

theorem within_concat (K : Int → Bool) (eqs : List (Int × Int)) (p : Int × Int) :
    within K (eqs ++ [p]) = within K eqs ++ if K p.1 = true then [p] else [] := by
  unfold within
  rw [List.filter_append]
  by_cases hp : K p.1 = true
  · simp [hp]
  · simp [hp]

theorem InRange.within (hr : InRange eqs) : InRange (within K eqs) := fun p hp => hr p (List.mem_of_mem_filter hp)

theorem Closed.init {p : Int × Int} (hK : Closed K (eqs ++ [p])) : Closed K eqs ∧ K p.1 = K p.2 :=
  ⟨fun q hq => hK q (List.mem_append_left _ hq), hK p (List.mem_append_right _ (List.mem_singleton_self _))⟩

theorem Connected.within (hK : Closed K eqs) {x y : Int} (hc : Connected eqs x y) :
    K x = true → Connected (within K eqs) x y := by
  induction hc with
  | rel x y hp => exact fun hx => .rel _ _ (List.mem_filter.2 ⟨hp, hx⟩)
  | refl x => exact fun _ => .refl x
  | symm x y hxy ih =>
    intro hy
    have hx : K x = true := (Connected.respects hK hxy).trans hy
    exact .symm _ _ (ih hx)
  | trans x y z hxy _ ih₁ ih₂ =>
    intro hx
    have hy : K y = true := (Connected.respects hK hxy).symm.trans hx
    exact .trans _ _ _ (ih₁ hx) (ih₂ hy)

/-- The links of letters in `K` stay there. -/
theorem LinksInv.closed_within {P : Int → Int} (hi : LinksInv P eqs) (hK : Closed K eqs) {x : Int} (hx : P x ≠ -1) :
    K (P x) = K x := (Connected.respects hK (hi.connected x hx)).symm

/-- Joins of letters in `K` on links that agree there. -/
theorem join_agree (K : Int → Bool) {P P' : Int → Int} {j k : Int} (hP : ∀ x, K x = true → P' x = P x)
    (hstay : ∀ x, K x = true → P x ≠ -1 → K (P x) = true) (hj : K j = true) (hk : K k = true) {x : Int}
    (hx : K x = true) : join P' j k x = join P j k x := by
  unfold join
  rw [hP j hj, hP k hk]
  by_cases hPj : P j = -1
  · simp only [if_neg (not_not.2 hPj)]
    by_cases hPk : P k = -1
    · simp only [if_neg (not_not.2 hPk)]
      rw [setAt_twice, setAt_twice, hP x hx]
    · simp only [if_pos hPk]
      rw [hP _ (hstay k hk hPk)]
      unfold setAt
      rw [hP x hx]
  · simp only [if_pos hPj]
    rw [hP _ (hstay j hj hPj)]
    by_cases hPk : P k = -1
    · simp only [if_neg (not_not.2 hPk)]
      unfold setAt
      rw [hP x hx]
    · simp only [if_pos hPk]
      rw [setAt_twice, setAt_twice, hP x hx]

/-- A join of letters that are not in `K` leaves those that are. -/
theorem join_outside {P : Int → Int} {j k : Int} (hstay : P k ≠ -1 → K (P k) = K k) (hj : K j = false)
    (hk : K k = false) {x : Int} (hx : K x = true) : join P j k x = P x := by
  have hne : ∀ {y : Int}, K y = false → x ≠ y := fun hy he => by
    rw [he, hy] at hx
    cases hx
  unfold join
  by_cases hPj : P j = -1
  · rw [if_neg (by simpa using hPj)]
    by_cases hPk : P k = -1
    · rw [if_neg (by simpa using hPk), setAt_twice, if_neg (fun he => he.elim (hne hk) (hne hj))]
    · rw [if_pos hPk, setAt_of_ne (hne hj)]
  · rw [if_pos hPj]
    by_cases hPk : P k = -1
    · rw [if_neg (by simpa using hPk), setAt_of_ne (hne hk)]
    · rw [if_pos hPk, setAt_twice, if_neg (fun he => he.elim (hne ((hstay hPk).trans hk)) (hne hk))]

/-- **A class of its own**: the equations of other letters leave its links. -/
theorem links_within (hr : InRange eqs) (hK : Closed K eqs) {x : Int} (hx : K x = true) :
    links (within K eqs) x = links eqs x := by
  induction eqs using List.reverseRecOn generalizing x with
  | nil => rfl
  | append_singleton eqs p ih =>
    obtain ⟨hK', hp⟩ := hK.init
    have hr' : InRange eqs := fun q hq => hr q (List.mem_append_left _ hq)
    have hi := links_inv eqs hr'
    rw [within_concat, links_concat]
    by_cases hj : K p.1 = true
    · rw [if_pos hj, links_concat]
      exact join_agree K (fun y hy => ih hr' hK' hy) (fun y hy hPy => (hi.closed_within hK' hPy).trans hy) hj
        (hp.symm.trans hj) hx
    · have hk : K p.2 = false := hp.symm.trans (by simpa using hj)
      rw [if_neg hj, List.append_nil, ih hr' hK' hx,
        join_outside (hi.closed_within hK') (by simpa using hj) hk hx]

/-- What joins flat among all the letters joins flat among those in `K`. -/
theorem flatJoin_within (hr : InRange eqs) (hK : Closed K eqs) {j k : Int} (hj : K j = true) (hk : K k = true)
    (h : FlatJoin (links eqs) j k) : FlatJoin (links (within K eqs)) j k := by
  have hi := links_inv eqs hr
  have hi' := links_inv _ (hr.within (K := K))
  have hone : ∀ y, K y = true → links (within K eqs) y = links eqs y := fun y hy => links_within hr hK hy
  have htwo : ∀ y, K y = true → links eqs y ≠ -1 →
      links (within K eqs) (links (within K eqs) y) = links eqs (links eqs y) := fun y hy hPy => by
    rw [hone y hy, hone _ ((hi.closed_within hK hPy).trans hy)]
  intro hPj hPk hne x hroot
  rw [hone j hj] at hPj
  rw [hone k hk] at hPk ⊢
  rw [htwo j hj hPj, htwo k hk hPk] at hne
  rw [htwo k hk hPk] at hroot
  -- a letter with that root has a link, so it is one of `K`
  have hPx : links (within K eqs) x ≠ -1 := fun hnone => by
    have hend : links (within K eqs) (-1) = -1 := by
      by_contra hlink
      exact absurd (hi'.range _ hlink).1 (by decide)
    rw [hnone, hend] at hroot
    exact hi.closed _ hPk hroot.symm
  have hx : K x = true := by
    obtain ⟨q, hq, hqx⟩ := (hi'.seen x).1 hPx
    obtain ⟨hmem, hq1⟩ := List.mem_filter.1 hq
    rcases hqx with rfl | rfl
    · exact hq1
    · exact (hK q hmem).symm.trans hq1
  rw [hone x hx] at hPx ⊢
  rw [htwo x hx hPx] at hroot
  exact h hPj hPk hne x hroot

end Within

end Equations
end Cc
