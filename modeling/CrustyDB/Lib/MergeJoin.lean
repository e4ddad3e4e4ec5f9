import Mathlib

/-! # The merge join of two sorted lists

`join` walks through two lists, skips the smaller key and pairs up the runs of equal keys.  On
lists that are sorted by their keys it returns, for every element of the left list, its partners in
the right list (`join_eq_equiJoin`).

The order apart, what a join should return is `matching`: the pairs of two bags that satisfy a
condition, which can be found from either side. -/

namespace MergeJoin

open List Std.TransCmp

variable {K α β γ : Type} (cmp : K → K → Ordering) (kl : α → K) (kr : β → K) (f : α → β → γ)

/-! ### The pairs of two bags -/

section Matching

variable (p : α → β → Prop) [∀ a b, Decidable (p a b)]

/-- The pairs that satisfy a condition. -/
def matching (l : Multiset α) (r : Multiset β) : Multiset γ :=
  ((l ×ˢ r).filter (fun x => p x.1 x.2)).map (fun x => f x.1 x.2)

/-- The pairs, found from the left. -/
theorem matching_eq_bind_left (l : Multiset α) (r : Multiset β) :
    matching f p l r = l.bind (fun a => (r.filter (p a)).map (f a)) := by
  induction l using Multiset.induction with
  | empty => simp [matching]
  | cons a l ih =>
    unfold matching at ih ⊢
    rw [Multiset.cons_product, Multiset.filter_add, Multiset.map_add, ih, Multiset.cons_bind,
      Multiset.filter_map, Multiset.map_map]
    rfl

/-- The pairs, found from the right. -/
theorem matching_eq_bind_right (l : Multiset α) (r : Multiset β) :
    matching f p l r = r.bind (fun b => (l.filter (fun a => p a b)).map (fun a => f a b)) := by
  induction r using Multiset.induction with
  | empty => simp [matching]
  | cons b r ih =>
    unfold matching at ih ⊢
    rw [Multiset.product_cons, Multiset.filter_add, Multiset.map_add, ih, Multiset.cons_bind,
      Multiset.filter_map, Multiset.map_map]
    rfl

/-- The pairs of two bags of images, when the condition says the same of them. -/
theorem matching_map {α' β' : Type} {q : α' → β' → Prop} [∀ a b, Decidable (q a b)]
    {h : α' → β' → γ} {g : α → α'} {g' : β → β'} (l : Multiset α) (r : Multiset β)
    (hq : ∀ a ∈ l, ∀ b ∈ r, q (g a) (g' b) ↔ p a b) (hf : ∀ a b, h (g a) (g' b) = f a b) :
    matching h q (l.map g) (r.map g') = matching f p l r := by
  rw [matching_eq_bind_left, matching_eq_bind_left, Multiset.bind_map]
  refine Multiset.bind_congr (fun a ha => ?_)
  have hfilter : r.filter (q (g a) ∘ g') = r.filter (p a) := Multiset.filter_congr (hq a ha)
  rw [Multiset.filter_map, Multiset.map_map, hfilter]
  exact Multiset.map_congr rfl (fun b _ => hf a b)

/-- A list of pairs made from the left. -/
theorem coe_flatMap_left (l : List α) (r : List β) :
    (l.flatMap (fun a => (r.filter (fun b => p a b)).map (f a)) : Multiset γ) =
      matching f p (l : Multiset α) (r : Multiset β) := by
  rw [matching_eq_bind_left, ← Multiset.coe_bind]
  rfl

/-- A list of pairs made from the right. -/
theorem coe_flatMap_right (l : List α) (r : List β) :
    (r.flatMap (fun b => (l.filter (fun a => p a b)).map (fun a => f a b)) : Multiset γ) =
      matching f p (l : Multiset α) (r : Multiset β) := by
  rw [matching_eq_bind_right, ← Multiset.coe_bind]
  rfl

end Matching

/-! ### The merge -/

/-- All pairs. -/
def pairs (l : List α) (r : List β) : List γ := l.flatMap (fun a => r.map (f a))

/-- For every element of the left list, the elements of the right list with an equal key. -/
def equiJoin (l : List α) (r : List β) : List γ :=
  l.flatMap (fun a => (r.filter (fun b => cmp (kl a) (kr b) = .eq)).map (f a))

/-- The merge of two lists. -/
def join : List α → List β → List γ
  | a :: l, b :: r =>
    match cmp (kl a) (kr b) with
    | .lt => join l (b :: r)
    | .gt => join (a :: l) r
    | .eq =>
      pairs f (a :: l.takeWhile (fun x => cmp (kl a) (kl x) = .eq))
          (b :: r.takeWhile (fun y => cmp (kr b) (kr y) = .eq)) ++
        join (l.dropWhile (fun x => cmp (kl a) (kl x) = .eq))
          (r.dropWhile (fun y => cmp (kr b) (kr y) = .eq))
  | _, _ => []
termination_by l r => l.length + r.length
decreasing_by
  · simp
  · simp
  · have hl := List.length_dropWhile_le (fun x => decide (cmp (kl a) (kl x) = .eq)) l
    have hr := List.length_dropWhile_le (fun y => decide (cmp (kr b) (kr y) = .eq)) r
    simp only [List.length_cons]
    omega

theorem join_nil_left (r : List β) : join cmp kl kr f [] r = [] := by
  rw [join]
  simp

theorem join_nil_right (l : List α) : join cmp kl kr f l [] = [] := by
  rw [join]
  simp

/-- A list sorted by key. -/
def SortedBy {ι : Type} (k : ι → K) (l : List ι) : Prop :=
  l.Pairwise (fun x y => (cmp (k x) (k y)).isLE = true)

variable {ι : Type} {k : ι → K} {a : ι} {l : List ι}

theorem eq_of_mem_takeWhile {x : ι} (hx : x ∈ l.takeWhile (fun x => cmp (k a) (k x) = .eq)) :
    cmp (k a) (k x) = .eq :=
  of_decide_eq_true (mem_takeWhile_imp (p := fun x => decide (cmp (k a) (k x) = .eq)) hx)

theorem equiJoin_append (l l' : List α) (r : List β) :
    equiJoin cmp kl kr f (l ++ l') r = equiJoin cmp kl kr f l r ++ equiJoin cmp kl kr f l' r :=
  flatMap_append

variable [Std.TransCmp cmp]

/-- Behind the run at the start of a sorted list the keys are larger. -/
theorem lt_of_mem_dropWhile (h : SortedBy cmp k (a :: l)) :
    ∀ x ∈ l.dropWhile (fun x => cmp (k a) (k x) = .eq), cmp (k a) (k x) = .lt := by
  induction l with
  | nil => simp
  | cons y l ih =>
    intro x hx
    have hle : (cmp (k a) (k y)).isLE = true := (pairwise_cons.mp h).1 y mem_cons_self
    have hsub : SortedBy cmp k (a :: l) := h.sublist ((sublist_cons_self y l).cons_cons a)
    by_cases hy : cmp (k a) (k y) = .eq
    · rw [dropWhile_cons, if_pos (decide_eq_true hy)] at hx
      exact ih hsub x hx
    · rw [dropWhile_cons, if_neg (by simpa using hy)] at hx
      have hlt : cmp (k a) (k y) = .lt := by
        cases hcmp : cmp (k a) (k y) with
        | lt => rfl
        | eq => exact absurd hcmp hy
        | gt =>
          rw [hcmp] at hle
          cases hle
      obtain rfl | hx := mem_cons.mp hx
      · exact hlt
      · have htail := (pairwise_cons.mp h).2
        exact lt_of_lt_of_isLE hlt ((pairwise_cons.mp htail).1 x hx)

/-- The first element of a sorted list is the smallest. -/
theorem isLE_head (h : SortedBy cmp k (a :: l)) : ∀ x ∈ a :: l, (cmp (k a) (k x)).isLE = true := by
  intro x hx
  obtain rfl | hx := mem_cons.mp hx
  · have hself : cmp (k x) (k x) = .eq := Std.ReflCmp.compare_self
    rw [hself]
    rfl
  · exact (pairwise_cons.mp h).1 x hx

variable {cmp kl kr f} {b : β} {r : List β}

/-- An element below the right list has no partner there. -/
theorem filter_of_lt {a : α} (hr : SortedBy cmp kr (b :: r)) (h : cmp (kl a) (kr b) = .lt) :
    (b :: r).filter (fun y => cmp (kl a) (kr y) = .eq) = [] := by
  refine filter_eq_nil_iff.mpr (fun y hy => ?_)
  have hlt := lt_of_lt_of_isLE h (isLE_head cmp hr y hy)
  simp [hlt]

/-- An element that is below the left list is no partner. -/
theorem equiJoin_of_gt {a : α} {l : List α} (hl : SortedBy cmp kl (a :: l))
    (h : cmp (kl a) (kr b) = .gt) :
    equiJoin cmp kl kr f (a :: l) (b :: r) = equiJoin cmp kl kr f (a :: l) r := by
  unfold equiJoin
  refine flatMap_congr (fun x hx => ?_)
  have hlt : cmp (kr b) (kl x) = .lt :=
    lt_of_lt_of_isLE (Std.OrientedCmp.gt_iff_lt.mp h) (isLE_head cmp hl x hx)
  have hgt : cmp (kl x) (kr b) = .gt := Std.OrientedCmp.gt_iff_lt.mpr hlt
  rw [filter_cons_of_neg (by simp [hgt])]

/-- The partners of an element whose key is that of the head of the right list. -/
theorem filter_of_eq {x : α} (hr : SortedBy cmp kr (b :: r)) (h : cmp (kl x) (kr b) = .eq) :
    (b :: r).filter (fun y => cmp (kl x) (kr y) = .eq) =
      b :: r.takeWhile (fun y => cmp (kr b) (kr y) = .eq) := by
  have hkeys : ∀ y, cmp (kl x) (kr y) = cmp (kr b) (kr y) := fun y => congr_left h
  rw [filter_cons_of_pos (by simpa using h)]
  simp only [hkeys]
  congr 1
  conv_lhs => rw [← takeWhile_append_dropWhile (p := fun y => cmp (kr b) (kr y) = .eq) (l := r)]
  rw [filter_append, filter_eq_self.mpr (fun y hy => decide_eq_true (eq_of_mem_takeWhile cmp hy)),
    filter_eq_nil_iff.mpr (fun y hy => ?_), append_nil]
  simp [lt_of_mem_dropWhile cmp hr y hy]

/-- The partners of an element whose key is larger than that of the head of the right list. -/
theorem filter_of_lt_head {x : α} (h : cmp (kr b) (kl x) = .lt) :
    (b :: r).filter (fun y => cmp (kl x) (kr y) = .eq) =
      (r.dropWhile (fun y => cmp (kr b) (kr y) = .eq)).filter (fun y => cmp (kl x) (kr y) = .eq) := by
  have hout : ∀ y, cmp (kr b) (kr y) = .eq → cmp (kl x) (kr y) ≠ .eq := by
    intro y hy hxy
    have hlt := lt_of_lt_of_eq h hxy
    rw [hy] at hlt
    cases hlt
  rw [filter_cons_of_neg (by simpa using hout b Std.ReflCmp.compare_self)]
  conv_lhs => rw [← takeWhile_append_dropWhile (p := fun y => cmp (kr b) (kr y) = .eq) (l := r)]
  rw [filter_append, filter_eq_nil_iff.mpr (fun y hy => ?_), nil_append]
  simpa using hout y (eq_of_mem_takeWhile cmp hy)

/-- The merge of two sorted lists pairs up the elements with equal keys. -/
theorem join_eq_equiJoin (l : List α) (r : List β) (hl : SortedBy cmp kl l) (hr : SortedBy cmp kr r) :
    join cmp kl kr f l r = equiJoin cmp kl kr f l r := by
  induction l, r using join.induct cmp kl kr with
  | case1 a l b r hcmp ih =>
    rw [join, hcmp, equiJoin, flatMap_cons, filter_of_lt hr hcmp]
    exact ih (pairwise_cons.mp hl).2 hr
  | case2 a l b r hcmp ih =>
    rw [join, hcmp, equiJoin_of_gt hl hcmp]
    exact ih hl (pairwise_cons.mp hr).2
  | case3 a l b r hcmp ih =>
    have hrest := ih (hl.sublist ((dropWhile_sublist _).trans (sublist_cons_self a l)))
      (hr.sublist ((dropWhile_sublist _).trans (sublist_cons_self b r)))
    rw [join, hcmp]
    dsimp only
    rw [hrest]
    -- the run of equal keys, and what is behind it
    have hsplit : a :: l = (a :: l.takeWhile (fun x => cmp (kl a) (kl x) = .eq)) ++
        l.dropWhile (fun x => cmp (kl a) (kl x) = .eq) := by
      rw [cons_append, takeWhile_append_dropWhile]
    conv_rhs => rw [hsplit, equiJoin_append]
    congr 1
    · refine flatMap_congr (fun x hx => ?_)
      have hax : cmp (kl a) (kl x) = .eq := by
        obtain rfl | hx := mem_cons.mp hx
        · exact Std.ReflCmp.compare_self
        · exact eq_of_mem_takeWhile cmp hx
      rw [filter_of_eq hr ((congr_left hax).symm.trans hcmp)]
    · refine flatMap_congr (fun x hx => ?_)
      have hlt : cmp (kr b) (kl x) = .lt :=
        (congr_left hcmp).symm.trans (lt_of_mem_dropWhile cmp hl x hx)
      rw [filter_of_lt_head hlt]
  | case4 l r h =>
    cases l with
    | nil => exact join_nil_left cmp kl kr f r
    | cons a l =>
      cases r with
      | nil =>
        rw [join_nil_right]
        simp [equiJoin]
      | cons b r => exact (h a l b r rfl rfl).elim

end MergeJoin
