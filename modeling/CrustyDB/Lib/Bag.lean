import CrustyDB.Lib.MergeJoin

/-! # Relational operations on bags

How a selection commutes with the operations of bag algebra: with the pairs of two bags
(`filter_matching`, `matching_filter`) and with the groups of a bag (`filter_groups`).  `outerJoin`
adds the elements without a partner to the pairs. -/

namespace Bag

open MergeJoin Multiset

variable {α β γ κ : Type}

/-! ### Pairs -/

section Pairs

variable {f g : α → β → γ} {p q : α → β → Prop} [∀ a b, Decidable (p a b)]
  [∀ a b, Decidable (q a b)] {l : Multiset α} {r : Multiset β}

theorem matching_congr (hp : ∀ a ∈ l, ∀ b ∈ r, p a b ↔ q a b)
    (hf : ∀ a ∈ l, ∀ b ∈ r, f a b = g a b) : matching f p l r = matching g q l r := by
  rw [matching_eq_bind_left, matching_eq_bind_left]
  refine Multiset.bind_congr (fun a ha => ?_)
  rw [filter_congr (hp a ha)]
  exact Multiset.map_congr rfl (fun b hb => hf a ha b (mem_of_mem_filter hb))

/-- A selection on either side can be made on the pairs. -/
theorem matching_filter (ql : α → Prop) (qr : β → Prop) [DecidablePred ql] [DecidablePred qr] :
    matching f p (l.filter ql) (r.filter qr) =
      matching f (fun a b => p a b ∧ ql a ∧ qr b) l r := by
  rw [matching_eq_bind_left, matching_eq_bind_left]
  induction l using Multiset.induction with
  | empty => simp
  | cons a l ih =>
    rw [cons_bind, ← ih]
    by_cases ha : ql a
    · rw [filter_cons_of_pos _ ha, cons_bind, filter_filter]
      simp only [ha, true_and]
    · rw [filter_cons_of_neg _ ha]
      simp [ha]

/-- A selection on the pairs is a stronger condition. -/
theorem filter_matching (w : γ → Prop) [DecidablePred w] :
    (matching f p l r).filter w = matching f (fun a b => p a b ∧ w (f a b)) l r := by
  unfold matching
  rw [filter_map, filter_filter]
  congr 1
  refine filter_congr (fun x _ => ?_)
  exact and_comm

end Pairs

/-! ### Groups -/

section Groups

variable [DecidableEq κ] {key : α → κ} {s : Multiset α}

/-- The groups of a bag that are not empty, with their keys. -/
def groups (key : α → κ) (s : Multiset α) : Multiset (κ × Multiset α) :=
  (s.map key).dedup.map (fun k => (k, s.filter (fun a => key a = k)))

variable (key) in
/-- A selection by key keeps or drops whole groups. -/
theorem filter_groups (p : κ → Prop) [DecidablePred p] :
    (groups key s).filter (fun g => p g.1) = groups key (s.filter (fun a => p (key a))) := by
  unfold groups
  have hkeys : (s.map key).dedup.filter p = ((s.filter (fun a => p (key a))).map key).dedup := by
    refine (((nodup_dedup _).filter p).ext (nodup_dedup _)).mpr (fun k => ?_)
    simp only [mem_filter, mem_dedup, mem_map]
    constructor
    · rintro ⟨⟨a, ha, rfl⟩, hk⟩
      exact ⟨a, ⟨ha, hk⟩, rfl⟩
    · rintro ⟨a, ⟨ha, hk⟩, rfl⟩
      exact ⟨⟨a, ha, rfl⟩, hk⟩
  rw [filter_map, ← hkeys]
  refine Multiset.map_congr rfl (fun k hk => ?_)
  rw [filter_filter]
  congr 1
  refine filter_congr (fun a _ => ?_)
  constructor
  · intro h
    exact ⟨h, h ▸ (mem_filter.mp hk).2⟩
  · exact And.left

end Groups

/-! ### Outer joins -/

section Outer

variable (f : α → β → γ) (padRight : α → γ) (padLeft : β → γ) (p : α → β → Prop)
  [∀ a b, Decidable (p a b)] (l : Multiset α) (r : Multiset β)

/-- The elements of the left bag without a partner. -/
def unmatchedLeft : Multiset α := l.filter (fun a => ∀ b ∈ r, ¬ p a b)

/-- The elements of the right bag without a partner. -/
def unmatchedRight : Multiset β := r.filter (fun b => ∀ a ∈ l, ¬ p a b)

/-- The pairs, and the elements without a partner of the sides that are kept. -/
def outerJoin (keepsLeft keepsRight : Bool) : Multiset γ :=
  matching f p l r + (if keepsLeft then (unmatchedLeft p l r).map padRight else 0) +
    (if keepsRight then (unmatchedRight p l r).map padLeft else 0)

variable {f padRight padLeft p l r}

end Outer

end Bag
