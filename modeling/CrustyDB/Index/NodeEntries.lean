import CrustyDB.Index.TreeIndex
import CrustyDB.Lib.BTree.Lookup

/-! # Entries of a node page

The serialiser is a parameter.  What is assumed of it concerns the entries of an index over one
`BigInt` column: it reads back what it wrote (`Codec.RoundTrips`), and the entries are short and
those of one kind differ in length by a factor of two at most (`Codec.Small`).  `Codec.Sound` is
what the proofs use of these assumptions.

The second half reads lists of encoded entries with the loops of `TreeIndex.lean`, and compares
their sorts and their choice of a child with those of the library. -/

namespace CrustyDB

open BTree List

/-! ### The serialiser -/

/-- A key of one `BigInt` column. -/
def BigIntKey (key : IndexKey) : Prop := ∃ v, key = [Field.bigInt v]

namespace NodeEntry

/-- The entries of an index over one `BigInt` column. -/
def OneColumn : NodeEntry → Prop
  | metadata _ _ _ => True
  | internal key _ => ∀ k, key = some k → BigIntKey k
  | leaf key _ => BigIntKey key

/-- Entries of the same variant. -/
def SameKind : NodeEntry → NodeEntry → Prop
  | metadata _ _ _, metadata _ _ _ => True
  | internal _ _, internal _ _ => True
  | leaf _ _, leaf _ _ => True
  | _, _ => False

end NodeEntry

namespace Codec

/-- Entries can be read back. -/
def RoundTrips (C : Codec) : Prop :=
  ∀ e : NodeEntry, e.OneColumn → ∃ bytes, C.toVec e = some bytes ∧ C.fromSlice bytes = some e

/-- Entries are short, and those of one kind are of similar length. -/
structure Small (C : Codec) : Prop where
  le : ∀ (e : NodeEntry) (bytes : List UInt8), e.OneColumn → C.toVec e = some bytes →
    bytes.length ≤ 200
  twice : ∀ (e e' : NodeEntry) (bytes bytes' : List UInt8), e.OneColumn → e'.OneColumn →
    e.SameKind e' → C.toVec e = some bytes → C.toVec e' = some bytes' →
    bytes.length ≤ 2 * bytes'.length

/-- The encoding of an entry. -/
def bytes (C : Codec) (e : NodeEntry) : List UInt8 := (C.toVec e).getD []

/-- What the proofs use: entries are written and read back, and the least lengths `a` of a leaf
entry and `b` of an internal entry bound the others. -/
structure Sound (C : Codec) (a b : ℕ) : Prop where
  write : ∀ {e : NodeEntry}, e.OneColumn → C.toVec e = some (C.bytes e)
  read : ∀ {e : NodeEntry}, e.OneColumn → C.fromSlice (C.bytes e) = some e
  le : ∀ {e : NodeEntry}, e.OneColumn → (C.bytes e).length ≤ 200
  ne_nil : ∀ {e : NodeEntry}, e.OneColumn → C.bytes e ≠ []
  leaf : ∀ {key : IndexKey} (rid : ValueId), BigIntKey key →
    a ≤ (C.bytes (.leaf key rid)).length ∧ (C.bytes (.leaf key rid)).length ≤ 2 * a
  internal : ∀ {key : Option IndexKey} (child : PageId), (∀ k, key = some k → BigIntKey k) →
    b ≤ (C.bytes (.internal key child)).length ∧ (C.bytes (.internal key child)).length ≤ 2 * b
  leaf_pos : 1 ≤ a
  internal_pos : 1 ≤ b

variable {C : Codec}

theorem bytes_eq {e : NodeEntry} {bs : List UInt8} (h : C.toVec e = some bs) : C.bytes e = bs := by
  unfold bytes
  rw [h]
  rfl

/-- An entry is not encoded as the empty string: all of its kind would be. -/
theorem RoundTrips.bytes_ne_nil (hr : C.RoundTrips) (hs : C.Small) {e : NodeEntry} (e' : NodeEntry)
    (he : e.OneColumn) (he' : e'.OneColumn) (hk : e'.SameKind e) (hne : e' ≠ e) :
    C.bytes e ≠ [] := by
  obtain ⟨bs, hw, hb⟩ := hr e he
  obtain ⟨bs', hw', hb'⟩ := hr e' he'
  rw [bytes_eq hw]
  rintro rfl
  have hlen := hs.twice e' e bs' [] he' he hk hw' hw
  have hnil : bs' = [] := eq_nil_of_length_eq_zero (by simpa using hlen)
  rw [hnil, hb] at hb'
  exact hne (Option.some.inj hb').symm

/-- The least length of the entries of a kind. -/
theorem exists_least {ι : Type} [Nonempty ι] (f : ι → ℕ) (h : ∀ i j, f i ≤ 2 * f j) :
    ∃ a, ∀ i, a ≤ f i ∧ f i ≤ 2 * a := by
  have hmin := Nat.sInf_mem (Set.range_nonempty f)
  obtain ⟨j, hj⟩ := hmin
  refine ⟨sInf (Set.range f), fun i => ⟨Nat.sInf_le ⟨i, rfl⟩, ?_⟩⟩
  rw [← hj]
  exact h i j

theorem exists_sound (hr : C.RoundTrips) (hs : C.Small) : ∃ a b, C.Sound a b := by
  have hwrite : ∀ {e : NodeEntry}, e.OneColumn → C.toVec e = some (C.bytes e) := by
    intro e he
    obtain ⟨bs, hw, -⟩ := hr e he
    rw [bytes_eq hw, hw]
  have htwice : ∀ e e' : NodeEntry, e.OneColumn → e'.OneColumn → e.SameKind e' →
      (C.bytes e).length ≤ 2 * (C.bytes e').length := fun _ _ he he' hk =>
    hs.twice _ _ _ _ he he' hk (hwrite he) (hwrite he')
  -- every kind has two entries
  have hnil : ∀ {e : NodeEntry}, e.OneColumn → C.bytes e ≠ [] := by
    intro e he
    cases e with
    | metadata isLeaf l r =>
      exact hr.bytes_ne_nil hs (.metadata (!isLeaf) l r) he trivial trivial (by simp)
    | internal key child =>
      exact hr.bytes_ne_nil hs (.internal key (child + 1)) he he trivial (by simp)
    | leaf key rid =>
      refine hr.bytes_ne_nil hs
        (.leaf key { rid with containerId := rid.containerId + 1 }) he he trivial ?_
      intro heq
      have := congrArg ValueId.containerId (NodeEntry.leaf.inj heq).2
      simp at this
  have hkey : BigIntKey [Field.bigInt 0] := ⟨0, rfl⟩
  have : Nonempty { key : IndexKey // BigIntKey key } := ⟨⟨_, hkey⟩⟩
  have : Nonempty { key : Option IndexKey // ∀ k, key = some k → BigIntKey k } :=
    ⟨⟨none, fun k hk => by cases hk⟩⟩
  have : Nonempty ValueId := ⟨ValueId.newSlot 0 0 0⟩
  have : Nonempty PageId := ⟨0⟩
  obtain ⟨a, ha⟩ := exists_least
    (fun x : { key : IndexKey // BigIntKey key } × ValueId => (C.bytes (.leaf x.1.1 x.2)).length)
    (fun x y => htwice (.leaf x.1.1 x.2) (.leaf y.1.1 y.2) x.1.2 y.1.2 trivial)
  obtain ⟨b, hb⟩ := exists_least
    (fun x : { key : Option IndexKey // ∀ k, key = some k → BigIntKey k } × PageId =>
      (C.bytes (.internal x.1.1 x.2)).length)
    (fun x y => htwice (.internal x.1.1 x.2) (.internal y.1.1 y.2) x.1.2 y.1.2 trivial)
  refine ⟨a, b, hwrite, ?_, fun he => hs.le _ _ he (hwrite he), hnil,
    fun rid hk => ha (⟨_, hk⟩, rid), fun child hk => hb (⟨_, hk⟩, child), ?_, ?_⟩
  · intro e he
    obtain ⟨bs, hw, hread⟩ := hr e he
    rw [bytes_eq hw]
    exact hread
  · have hpos := length_pos_iff.mpr (hnil (e := .leaf _ (ValueId.newSlot 0 0 0)) hkey)
    have := (ha (⟨_, hkey⟩, ValueId.newSlot 0 0 0)).2
    simp only at this
    omega
  · have hnone : ∀ k, (none : Option IndexKey) = some k → BigIntKey k := fun k hk => by cases hk
    have hpos := length_pos_iff.mpr (hnil (e := .internal none 0) hnone)
    have := (hb (⟨none, hnone⟩, 0)).2
    simp only at this
    omega

end Codec

/-! ### Reading a page -/

/-- The entry that stands for a key and a record id on a leaf page. -/
def leafEntry (x : IndexKey × ValueId) : NodeEntry := .leaf x.1 x.2

/-- The entry that stands for a separator and a child on an internal page. -/
def innerEntry (x : Option IndexKey × PageId) : NodeEntry := .internal x.1 x.2

namespace NodeEntry

def leafPart : NodeEntry → Option (IndexKey × ValueId)
  | leaf key rid => some (key, rid)
  | _ => none

def innerPart : NodeEntry → Option (Option IndexKey × PageId)
  | internal key child => some (key, child)
  | _ => none

/-- The siblings after the entries have been read. -/
def links : Option PageId → Option PageId → List NodeEntry → Option PageId × Option PageId
  | l, r, [] => (l, r)
  | _, _, metadata _ l r :: es => links l r es
  | l, r, _ :: es => links l r es

end NodeEntry

namespace TreeIndex

section Decoding

variable {C : Codec} {vals : List (List UInt8 × SlotId)} {ents : List NodeEntry}

/-- The loop over a leaf page, on values that decode to these entries. -/
theorem leafEntries_of_decode (hdec : vals.map (fun v => decode C v.1) = ents.map .ok)
    (hleaf : ∀ e ∈ ents, e.innerPart = none) (l r : Option PageId) :
    leafEntries C l r vals = .ok ((NodeEntry.links l r ents).1, (NodeEntry.links l r ents).2,
      ents.filterMap NodeEntry.leafPart) := by
  induction ents generalizing vals l r with
  | nil =>
    obtain rfl := map_eq_nil_iff.mp hdec
    rfl
  | cons e ents ih =>
    obtain ⟨⟨bs, slot⟩, vals, rfl, hbs, hrest⟩ := map_eq_cons_iff.mp hdec
    have ih' := ih hrest (fun x hx => hleaf x (mem_cons_of_mem _ hx))
    unfold leafEntries
    rw [show decode C bs = .ok e from hbs]
    cases e with
    | metadata isLeaf l' r' => exact ih' l' r'
    | internal key child =>
      have := hleaf _ mem_cons_self
      cases this
    | leaf key rid =>
      show (leafEntries C l r vals >>= fun x => pure (x.1, x.2.1, (key, rid) :: x.2.2)) = _
      rw [ih' l r]
      rfl

/-- The loop over an internal page, on values that decode to these entries. -/
theorem internalEntries_of_decode (hdec : vals.map (fun v => decode C v.1) = ents.map .ok) :
    internalEntries C vals = .ok (ents.filterMap NodeEntry.innerPart) := by
  induction ents generalizing vals with
  | nil =>
    obtain rfl := map_eq_nil_iff.mp hdec
    rfl
  | cons e ents ih =>
    obtain ⟨⟨bs, slot⟩, vals, rfl, hbs, hrest⟩ := map_eq_cons_iff.mp hdec
    have ih' := ih hrest
    unfold internalEntries
    rw [show decode C bs = .ok e from hbs]
    cases e with
    | metadata isLeaf l r => exact ih'
    | leaf key rid => exact ih'
    | internal key child =>
      show (internalEntries C vals >>= fun x => pure ((key, child) :: x)) = _
      rw [ih']
      rfl

end Decoding

section Reading

variable {C : Codec} {a b : ℕ} (hC : C.Sound a b)
include hC

theorem encode_eq {e : NodeEntry} (he : e.OneColumn) : encode C e = .ok (C.bytes e) := by
  unfold encode
  rw [hC.write he]

theorem decode_bytes {e : NodeEntry} (he : e.OneColumn) : decode C (C.bytes e) = .ok e := by
  unfold decode
  rw [hC.read he]

variable {vals : List (List UInt8 × SlotId)} {ents : List NodeEntry}

theorem decode_vals (hvals : vals.map Prod.fst = ents.map C.bytes) (hone : ∀ e ∈ ents, e.OneColumn) :
    vals.map (fun v => decode C v.1) = ents.map .ok := by
  have hmap : vals.map (fun v => decode C v.1) = (vals.map Prod.fst).map (decode C) := by
    rw [map_map]
    rfl
  rw [hmap, hvals, map_map]
  exact map_congr_left (fun e he => decode_bytes hC (hone e he))

/-- The metadata of a page that has one metadata entry. -/
theorem firstMeta_eq {isLeaf : Bool} {l r : Option PageId}
    (hvals : vals.map Prod.fst = ents.map C.bytes) (hone : ∀ e ∈ ents, e.OneColumn)
    (hmem : .metadata isLeaf l r ∈ ents)
    (huniq : ∀ e ∈ ents, e = .metadata isLeaf l r ∨ e.leafPart ≠ none ∨ e.innerPart ≠ none) :
    ∃ slot, (C.bytes (.metadata isLeaf l r), slot) ∈ vals ∧
      firstMeta C vals = .ok (some (slot, isLeaf, l, r)) := by
  induction ents generalizing vals with
  | nil => cases hmem
  | cons e ents ih =>
    obtain ⟨⟨bs, slot⟩, vals, rfl, hbs, hrest⟩ := map_eq_cons_iff.mp hvals
    obtain rfl : bs = C.bytes e := hbs
    have hdec := decode_bytes hC (hone e mem_cons_self)
    have hgo : e ≠ .metadata isLeaf l r → ∃ slot, (C.bytes (.metadata isLeaf l r), slot) ∈ vals ∧
        firstMeta C vals = .ok (some (slot, isLeaf, l, r)) := by
      intro hne
      refine ih hrest (fun x hx => hone x (mem_cons_of_mem _ hx)) ?_
        (fun x hx => huniq x (mem_cons_of_mem _ hx))
      rcases mem_cons.mp hmem with h | h
      · exact absurd h.symm hne
      · exact h
    rcases huniq e mem_cons_self with rfl | hpart
    · refine ⟨slot, mem_cons_self, ?_⟩
      unfold firstMeta
      rw [hdec]
      rfl
    · have hne : e ≠ .metadata isLeaf l r := by
        rintro rfl
        rcases hpart with hp | hp <;> exact hp rfl
      obtain ⟨slot', hslot, heq⟩ := hgo hne
      refine ⟨slot', mem_cons_of_mem _ hslot, ?_⟩
      unfold firstMeta
      rw [hdec]
      cases e with
      | metadata isLeaf' l' r' => rcases hpart with hp | hp <;> exact absurd rfl hp
      | internal key child => exact heq
      | leaf key rid => exact heq

/-- The search for an entry on a leaf page. -/
theorem findEntry_eq (key : IndexKey) (rid : ValueId) (hvals : vals.map Prod.fst = ents.map C.bytes)
    (hone : ∀ e ∈ ents, e.OneColumn) :
    (.leaf key rid ∈ ents ∧ ∃ slot, (C.bytes (.leaf key rid), slot) ∈ vals ∧
        findEntry C key rid vals = .ok (some slot)) ∨
      (.leaf key rid ∉ ents ∧ findEntry C key rid vals = .ok none) := by
  induction ents generalizing vals with
  | nil =>
    obtain rfl := map_eq_nil_iff.mp hvals
    exact Or.inr ⟨not_mem_nil, rfl⟩
  | cons e ents ih =>
    obtain ⟨⟨bs, slot⟩, vals, rfl, hbs, hrest⟩ := map_eq_cons_iff.mp hvals
    obtain rfl : bs = C.bytes e := hbs
    have hdec := decode_bytes hC (hone e mem_cons_self)
    by_cases he : e = .leaf key rid
    · subst he
      refine Or.inl ⟨mem_cons_self, slot, mem_cons_self, ?_⟩
      unfold findEntry
      rw [hdec]
      exact if_pos ⟨rfl, rfl⟩
    · have hstep : findEntry C key rid ((C.bytes e, slot) :: vals) = findEntry C key rid vals := by
        conv_lhs => unfold findEntry
        rw [hdec]
        cases e with
        | metadata isLeaf l r => rfl
        | internal k child => rfl
        | leaf k r =>
          refine if_neg ?_
          rintro ⟨rfl, rfl⟩
          exact he rfl
      rw [hstep]
      rcases ih hrest (fun x hx => hone x (mem_cons_of_mem _ hx)) with
        ⟨hmem, slot', hslot, heq⟩ | ⟨hmem, heq⟩
      · exact Or.inl ⟨mem_cons_of_mem _ hmem, slot', mem_cons_of_mem _ hslot, heq⟩
      · refine Or.inr ⟨fun h => ?_, heq⟩
        rcases mem_cons.mp h with h | h
        · exact he h.symm
        · exact hmem h

end Reading

end TreeIndex

/-! ### Order -/

namespace TreeIndex

theorem leafLe_total (x y : IndexKey × ValueId) : leafLe x y ∨ leafLe y x := by
  unfold leafLe
  rcases lt_trichotomy x.1 y.1 with h | h | h
  · exact Or.inl (Or.inl h)
  · rcases le_total x.2.ridKey y.2.ridKey with h' | h'
    · exact Or.inl (Or.inr ⟨h, h'⟩)
    · exact Or.inr (Or.inr ⟨h.symm, h'⟩)
  · exact Or.inr (Or.inl h)

theorem leafLe_trans {x y z : IndexKey × ValueId} (h : leafLe x y) (h' : leafLe y z) :
    leafLe x z := by
  unfold leafLe at *
  rcases h with h | ⟨h1, h2⟩
  · rcases h' with h' | ⟨h1', -⟩
    · exact Or.inl (h.trans h')
    · exact Or.inl (h1' ▸ h)
  · rcases h' with h' | ⟨h1', h2'⟩
    · exact Or.inl (h1 ▸ h')
    · exact Or.inr ⟨h1.trans h1', h2.trans h2'⟩

theorem leafLe_key {x y : IndexKey × ValueId} (h : leafLe x y) : x.1 ≤ y.1 := by
  rcases h with h | ⟨h, -⟩
  · exact h.le
  · exact h.le

instance : Std.Total leafLe := ⟨leafLe_total⟩

instance : IsTrans (IndexKey × ValueId) leafLe := ⟨fun _ _ _ => leafLe_trans⟩

theorem sortLeaf_perm (es : List (IndexKey × ValueId)) : (sortLeaf es).Perm es :=
  perm_insertionSort _ es

theorem sortLeaf_pairwise (es : List (IndexKey × ValueId)) :
    (sortLeaf es).Pairwise (fun x y => x.1 ≤ y.1) :=
  (pairwise_insertionSort leafLe es).imp leafLe_key

/-- The last of the sorted entries has the key exactly when the leaf ends with it. -/
theorem lastMatches_iff {key : IndexKey} {es : List (IndexKey × ValueId)} :
    lastMatches key (sortLeaf es) = true ↔ EndsWith key (es : Multiset (IndexKey × ValueId)) := by
  have hmem : ∀ x, x ∈ (es : Multiset (IndexKey × ValueId)) ↔ x ∈ sortLeaf es := fun x => by
    rw [Multiset.mem_coe, (sortLeaf_perm es).mem_iff]
  have hsorted := sortLeaf_pairwise es
  unfold lastMatches EndsWith
  simp only [hmem]
  rcases eq_nil_or_concat (sortLeaf es) with hnil | ⟨pre, x, hx⟩
  · rw [hnil]
    simp
  · rw [hx, concat_eq_append] at hsorted ⊢
    rw [getLast?_append, getLast?_singleton, Option.some_or]
    simp only [decide_eq_true_eq]
    have hle : ∀ y ∈ pre, y.1 ≤ x.1 := fun y hy =>
      (pairwise_append.mp hsorted).2.2 y hy x (mem_singleton_self x)
    constructor
    · rintro rfl
      refine ⟨⟨x, by simp, rfl⟩, fun y hy => ?_⟩
      rcases mem_append.mp hy with hy | hy
      · exact hle y hy
      · rw [mem_singleton.mp hy]
    · rintro ⟨⟨y, hy, rfl⟩, hall⟩
      refine le_antisymm (hall x (by simp)) ?_
      rcases mem_append.mp hy with hy | hy
      · exact hle y hy
      · rw [mem_singleton.mp hy]

theorem keyLe_iff (x y : Option IndexKey) : keyLe x y ↔ SepLe x y := by
  cases x <;> cases y <;> exact Iff.rfl

theorem orderedInsert_insertEntry (x y : Option IndexKey × PageId)
    (es : List (Option IndexKey × PageId)) :
    (BTree.insertEntry x es).orderedInsert (fun a b => keyLe a.1 b.1) y =
      BTree.insertEntry x (es.orderedInsert (fun a b => keyLe a.1 b.1) y) := by
  induction es with
  | nil =>
    simp only [BTree.insertEntry, orderedInsert_nil, orderedInsert_cons]
    by_cases h : keyLe y.1 x.1
    · rw [if_pos h, if_pos ((keyLe_iff _ _).mp h)]
    · rw [if_neg h, if_neg (fun h' => h ((keyLe_iff _ _).mpr h'))]
  | cons z es ih =>
    simp only [BTree.insertEntry, orderedInsert_cons]
    by_cases hzx : SepLe z.1 x.1
    · rw [if_pos hzx, orderedInsert_cons]
      by_cases hyz : keyLe y.1 z.1
      · have hyx : SepLe y.1 x.1 := ((keyLe_iff _ _).mp hyz).trans hzx
        rw [if_pos hyz, if_pos hyz, BTree.insertEntry, if_pos hyx, BTree.insertEntry, if_pos hzx]
      · rw [if_neg hyz, if_neg hyz, BTree.insertEntry, if_pos hzx, ih]
    · rw [if_neg hzx, orderedInsert_cons]
      by_cases hyx : keyLe y.1 x.1
      · -- then `y` comes before `z` as well
        have hyz : keyLe y.1 z.1 := by
          rw [keyLe_iff] at hyx ⊢
          exact hyx.trans ((SepLe.total z.1 x.1).resolve_left hzx)
        rw [if_pos hyx, if_pos hyz, BTree.insertEntry, if_pos ((keyLe_iff _ _).mp hyx), BTree.insertEntry,
          if_neg hzx]
      · have hyx' : ¬ SepLe y.1 x.1 := fun h => hyx ((keyLe_iff _ _).mpr h)
        rw [if_neg hyx, orderedInsert_cons]
        by_cases hyz : keyLe y.1 z.1
        · rw [if_pos hyz, BTree.insertEntry, if_neg hyx']
        · rw [if_neg hyz, BTree.insertEntry, if_neg hzx]

/-- Sorting is stable: an entry that comes last goes behind those that are not above it. -/
theorem sortInternal_append (es : List (Option IndexKey × PageId)) (x : Option IndexKey × PageId) :
    sortInternal (es ++ [x]) = BTree.insertEntry x (sortInternal es) := by
  unfold sortInternal
  induction es with
  | nil => rfl
  | cons y es ih =>
    rw [cons_append, insertionSort_cons, insertionSort_cons, ih,
      orderedInsert_insertEntry]

instance : Std.Total (fun x y : Option IndexKey × PageId => keyLe x.1 y.1) :=
  ⟨fun x y => by
    rw [keyLe_iff, keyLe_iff]
    exact SepLe.total x.1 y.1⟩

instance : IsTrans (Option IndexKey × PageId) (fun x y => keyLe x.1 y.1) :=
  ⟨fun x y z h h' => by
    rw [keyLe_iff] at *
    exact h.trans h'⟩

theorem sortInternal_pairwise (es : List (Option IndexKey × PageId)) :
    (sortInternal es).Pairwise (fun x y => keyLe x.1 y.1) := pairwise_insertionSort _ es

theorem sortInternal_perm (es : List (Option IndexKey × PageId)) : (sortInternal es).Perm es :=
  perm_insertionSort _ es

/-- The child followed is the one the library follows. -/
theorem findChild_eq {es : List (Option IndexKey × PageId)} (key : IndexKey) (hne : es ≠ []) :
    ∃ c, route key es = some c ∧ findChild es key = .ok c := by
  have hloop : ∀ (es : List (Option IndexKey × PageId)) (c : PageId),
      findChildLoop key c es = routeFrom key c es := by
    intro es
    induction es with
    | nil => exact fun c => rfl
    | cons e es ih =>
      intro c
      obtain ⟨_ | s, d⟩ := e
      · exact ih d
      · unfold findChildLoop routeFrom
        rw [ih d]
  cases es with
  | nil => exact absurd rfl hne
  | cons e es =>
    exact ⟨_, rfl, congrArg Except.ok (hloop (e :: es) e.2)⟩

end TreeIndex

end CrustyDB
