import Mathlib

/-! # Extents

An extent is a range of bytes, given by its offset and its length.  Extents that are apart from each
other and lie in a range are together no longer than the range (`sum_le`), and they leave no gap in
it if they are as long (`covers`). -/

namespace Extents

open Finset

/-- The bytes of an extent. -/
def bytes (e : ℕ × ℕ) : Finset ℕ := Finset.Ico e.1 (e.1 + e.2)

/-- The bytes of a list of extents. -/
def union : List (ℕ × ℕ) → Finset ℕ
  | [] => ∅
  | e :: l => bytes e ∪ union l

/-- Extents do not share a byte; an empty one shares none. -/
def Apart (e f : ℕ × ℕ) : Prop := e.2 ≠ 0 → f.2 ≠ 0 → e.1 + e.2 ≤ f.1 ∨ f.1 + f.2 ≤ e.1

theorem mem_bytes {e : ℕ × ℕ} {b : ℕ} : b ∈ bytes e ↔ e.1 ≤ b ∧ b < e.1 + e.2 := mem_Ico

theorem mem_union {l : List (ℕ × ℕ)} {b : ℕ} : b ∈ union l ↔ ∃ e ∈ l, b ∈ bytes e := by
  induction l with
  | nil => simp [union]
  | cons e l ih => simp [union, ih]

theorem Apart.disjoint {e f : ℕ × ℕ} (h : Apart e f) : Disjoint (bytes e) (bytes f) := by
  rw [disjoint_left]
  intro b he hf
  rw [mem_bytes] at he hf
  rcases h (by omega) (by omega) with h | h
  · omega
  · omega

section Inside

variable {l : List (ℕ × ℕ)} {lo hi : ℕ}

theorem card_union (h : l.Pairwise Apart) : (union l).card = (l.map Prod.snd).sum := by
  induction h with
  | nil => rfl
  | @cons e l hl _ ih =>
    have hdisj : Disjoint (bytes e) (union l) := by
      rw [disjoint_left]
      intro b hb hu
      obtain ⟨f, hf, hbf⟩ := mem_union.mp hu
      exact disjoint_left.mp (hl f hf).disjoint hb hbf
    rw [union, card_union_of_disjoint hdisj, ih, List.map_cons, List.sum_cons]
    congr 1
    rw [bytes, Nat.card_Ico]
    omega

theorem union_subset (hin : ∀ e ∈ l, e.2 ≠ 0 → lo ≤ e.1 ∧ e.1 + e.2 ≤ hi) :
    union l ⊆ Finset.Ico lo hi := by
  intro b hb
  obtain ⟨e, he, hbe⟩ := mem_union.mp hb
  rw [mem_bytes] at hbe
  have := hin e he (by omega)
  rw [mem_Ico]
  omega

theorem sum_le (h : l.Pairwise Apart) (hin : ∀ e ∈ l, e.2 ≠ 0 → lo ≤ e.1 ∧ e.1 + e.2 ≤ hi) :
    (l.map Prod.snd).sum ≤ hi - lo := by
  rw [← card_union h, ← Nat.card_Ico]
  exact card_le_card (union_subset hin)

theorem covers (h : l.Pairwise Apart) (hin : ∀ e ∈ l, e.2 ≠ 0 → lo ≤ e.1 ∧ e.1 + e.2 ≤ hi)
    (hsum : (l.map Prod.snd).sum = hi - lo) {b : ℕ} (hlo : lo ≤ b) (hhi : b < hi) :
    ∃ e ∈ l, e.1 ≤ b ∧ b < e.1 + e.2 := by
  have heq : union l = Finset.Ico lo hi := by
    refine eq_of_subset_of_card_le (union_subset hin) ?_
    rw [card_union h, Nat.card_Ico, hsum]
  have hb : b ∈ union l := by
    rw [heq, mem_Ico]
    exact ⟨hlo, hhi⟩
  obtain ⟨e, he, hbe⟩ := mem_union.mp hb
  exact ⟨e, he, mem_bytes.mp hbe⟩

end Inside

end Extents
