import Mathlib

/-! # Comparing CSV files without their order

`csvs_subset` and `csvs_equal_unordered` hash every record of two files into two max-heaps and
then work on the heaps.  A heap of totally ordered values is the list of its values in the order
in which `pop` gives them out, the largest first.  The hash functions are parameters; what they
are assumed to be is that they are injective.

The subset test pops the second heap until it meets the hash it popped from the first one.  This
is the greedy test for a sublist, and sublists of descending lists are sub-multisets
(`subsetLoop_iff`).  `csvs_compare` says that the two functions compare the multisets of the
records. -/

namespace CrustyDB.Csv

open Multiset

variable {H ε : Type} [LinearOrder H]

/-! ### The functions -/

/-- A record, cut to the fields that are compared. -/
def truncated (numFields : Option ℕ) (record : List String) : List String :=
  match numFields with
  | some n => record.take n
  | none => record

/-- `BinaryHeap::push`. -/
def push (heap : List H) (hash : H) : List H := heap.orderedInsert (· ≥ ·) hash

/-- The loop over the records of a reader; the first record that does not parse ends it. -/
def hashRecords (hash : List String → H) (numFields : Option ℕ) :
    List (Except ε (List String)) → List H → Except ε (List H)
  | [], heap => .ok heap
  | record :: records, heap => do
    let record ← record
    hashRecords hash numFields records (push heap (hash (truncated numFields record)))

/-- The inner loop of `csvs_subset`: pop until `hash` comes. -/
def popUntil (hash : H) : List H → Option (List H)
  | [] => none
  | hash2 :: heap2 => if hash = hash2 then some heap2 else popUntil hash heap2

/-- The outer loop of `csvs_subset`. -/
def subsetLoop : List H → List H → Bool
  | [], _ => true
  | hash1 :: heap1, heap2 =>
    match popUntil hash1 heap2 with
    | some rest => subsetLoop heap1 rest
    | none => false

def csvsSubset (hash : List String → H) (numFields : Option ℕ)
    (rdr1 rdr2 : List (Except ε (List String))) : Except ε Bool := do
  let heap1 ← hashRecords hash numFields rdr1 []
  let heap2 ← hashRecords hash numFields rdr2 []
  return subsetLoop heap1 heap2

/-- The final hashers take the popped hashes one after another. -/
def csvsEqualUnordered (hash : List String → H) (final : List H → H) (numFields : Option ℕ)
    (rdr1 rdr2 : List (Except ε (List String))) : Except ε Bool := do
  let heap1 ← hashRecords hash numFields rdr1 []
  let heap2 ← hashRecords hash numFields rdr2 []
  return decide (final heap1 = final heap2)

/-! ### The subset test -/

theorem cons_sublist_iff {hash : H} {heap1 heap2 : List H} :
    (hash :: heap1).Sublist heap2 ↔ ∃ rest, popUntil hash heap2 = some rest ∧ heap1.Sublist rest := by
  induction heap2 with
  | nil => simp [popUntil]
  | cons hash2 heap2 ih =>
    by_cases h : hash = hash2
    · subst h
      simp [popUntil]
    · have hne : popUntil hash (hash2 :: heap2) = popUntil hash heap2 := if_neg h
      rw [hne, ← ih, List.sublist_cons_iff]
      simp [h]

theorem subsetLoop_iff_sublist {heap1 heap2 : List H} :
    subsetLoop heap1 heap2 = true ↔ heap1.Sublist heap2 := by
  induction heap1 generalizing heap2 with
  | nil => simp [subsetLoop]
  | cons hash heap1 ih =>
    rw [cons_sublist_iff, subsetLoop]
    cases popUntil hash heap2 with
    | none => simp
    | some rest => simp [ih]

/-- On descending lists the greedy test decides the inclusion of multisets. -/
theorem subsetLoop_iff {heap1 heap2 : List H} (h1 : heap1.Pairwise (· ≥ ·))
    (h2 : heap2.Pairwise (· ≥ ·)) :
    subsetLoop heap1 heap2 = true ↔ (heap1 : Multiset H) ≤ heap2 := by
  rw [subsetLoop_iff_sublist, coe_le]
  exact ⟨List.Sublist.subperm, fun h => List.sublist_of_subperm_of_pairwise h h1 h2⟩

/-! ### What the heaps hold -/

/-- The multiset of the truncated records of a file. -/
def bag (numFields : Option ℕ) (csv : List (List String)) : Multiset (List String) :=
  (csv.map (truncated numFields) : List (List String))

/-- A reader of a file that parses. -/
def reader (csv : List (List String)) : List (Except ε (List String)) := csv.map .ok

/-- A file that parses fills the heap with the hashes of its records, the largest first. -/
theorem hashRecords_reader (hash : List String → H) (numFields : Option ℕ)
    (csv : List (List String)) {heap : List H} (hheap : heap.Pairwise (· ≥ ·)) :
    ∃ heap', hashRecords hash numFields (reader csv : List (Except ε _)) heap = .ok heap' ∧
      heap'.Pairwise (· ≥ ·) ∧
      (heap' : Multiset H) = (heap : Multiset H) + (bag numFields csv).map hash := by
  induction csv generalizing heap with
  | nil => exact ⟨heap, rfl, hheap, by simp [bag]⟩
  | cons record csv ih =>
    have hpush : (push heap (hash (truncated numFields record))).Pairwise (· ≥ ·) :=
      hheap.orderedInsert _ _
    obtain ⟨heap', hrun, hsorted, hbag⟩ := ih hpush
    refine ⟨heap', hrun, hsorted, ?_⟩
    have hcons : (push heap (hash (truncated numFields record)) : Multiset H) =
        hash (truncated numFields record) ::ₘ (heap : Multiset H) := by
      rw [cons_coe, coe_eq_coe]
      exact List.perm_orderedInsert _ _ _
    rw [hbag, hcons, bag, bag, List.map_cons, ← cons_coe, map_cons,
      add_cons, cons_add]

section Readers

variable {hash : List String → H} {final : List H → H} (hhash : hash.Injective)
  (hfinal : final.Injective) (numFields : Option ℕ) (csv1 csv2 : List (List String))

include hhash

theorem csvsSubset_reader :
    csvsSubset hash numFields (reader csv1 : List (Except ε _)) (reader csv2) =
      .ok (decide (bag numFields csv1 ≤ bag numFields csv2)) := by
  obtain ⟨heap1, hrun1, hsorted1, hbag1⟩ :=
    hashRecords_reader (ε := ε) hash numFields csv1 List.Pairwise.nil
  obtain ⟨heap2, hrun2, hsorted2, hbag2⟩ :=
    hashRecords_reader (ε := ε) hash numFields csv2 List.Pairwise.nil
  have hiff := subsetLoop_iff hsorted1 hsorted2
  rw [hbag1, hbag2, coe_nil, zero_add, zero_add, map_le_map_iff hhash] at hiff
  have hloop : subsetLoop heap1 heap2 = decide (bag numFields csv1 ≤ bag numFields csv2) := by
    rw [Bool.eq_iff_iff, hiff, decide_eq_true_iff]
  rw [csvsSubset, hrun1, hrun2, ← hloop]
  rfl

include hfinal

theorem csvsEqualUnordered_reader :
    csvsEqualUnordered hash final numFields (reader csv1 : List (Except ε _)) (reader csv2) =
      .ok (decide (bag numFields csv1 = bag numFields csv2)) := by
  obtain ⟨heap1, hrun1, hsorted1, hbag1⟩ :=
    hashRecords_reader (ε := ε) hash numFields csv1 List.Pairwise.nil
  obtain ⟨heap2, hrun2, hsorted2, hbag2⟩ :=
    hashRecords_reader (ε := ε) hash numFields csv2 List.Pairwise.nil
  rw [coe_nil, zero_add] at hbag1 hbag2
  have hiff : final heap1 = final heap2 ↔ bag numFields csv1 = bag numFields csv2 := by
    -- Descending lists with the same elements are equal, so the popped sequences agree.
    rw [hfinal.eq_iff, ← (map_injective hhash).eq_iff, ← hbag1, ← hbag2]
    constructor
    · intro h
      rw [h]
    · intro h
      exact (coe_eq_coe.mp h).eq_of_pairwise' hsorted1 hsorted2
  rw [csvsEqualUnordered, hrun1, hrun2, ← decide_eq_decide.mpr hiff]
  rfl

/-- With injective hash functions, the two functions answer for every two files that parse, and
what they decide is the inclusion and the equality of the multisets of the truncated records. -/
theorem csvs_compare :
    csvsSubset hash numFields (reader csv1 : List (Except ε _)) (reader csv2) =
        .ok (decide (bag numFields csv1 ≤ bag numFields csv2)) ∧
      csvsEqualUnordered hash final numFields (reader csv1 : List (Except ε _)) (reader csv2) =
        .ok (decide (bag numFields csv1 = bag numFields csv2)) ∧
      (csvsEqualUnordered hash final numFields (reader csv1 : List (Except ε _)) (reader csv2) =
          .ok true ↔
        csvsSubset hash numFields (reader csv1 : List (Except ε _)) (reader csv2) = .ok true ∧
          csvsSubset hash numFields (reader csv2 : List (Except ε _)) (reader csv1) = .ok true) := by
  rw [csvsSubset_reader hhash, csvsSubset_reader hhash, csvsEqualUnordered_reader hhash hfinal]
  refine ⟨rfl, rfl, ?_⟩
  simp only [Except.ok.injEq, decide_eq_true_eq]
  exact le_antisymm_iff

end Readers

/-- A hash of records without collisions. -/
def codes (record : List String) : ℕ :=
  Encodable.encode (record.map (fun s => s.toList.map Char.toNat))

theorem codes_injective : codes.Injective := by
  intro a b h
  have hchars : Function.Injective (fun s : String => s.toList.map Char.toNat) := by
    intro s t hst
    exact String.toList_inj.mp (List.map_injective_iff.mpr (fun _ _ => Char.toNat_inj.mp) hst)
  exact List.map_injective_iff.mpr hchars (Encodable.encode_injective h)

/-- Two orders of the same rows, compared on their first field. -/
theorem csvs_compare_reordered :
    csvsEqualUnordered (ε := Unit) codes Encodable.encode (some 1)
        (reader [["1", "x"], ["2", "y"]]) (reader [["2", "z"], ["1", "x"]]) = .ok true := by
  have h := csvs_compare (ε := Unit) codes_injective Encodable.encode_injective (some 1)
    [["1", "x"], ["2", "y"]] [["2", "z"], ["1", "x"]]
  rw [h.2.1]
  rfl

end CrustyDB.Csv
