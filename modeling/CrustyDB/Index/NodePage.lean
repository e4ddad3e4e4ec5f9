import CrustyDB.Page.LiveValues
import CrustyDB.Index.NodeEntries

/-! # Node pages

A page of the index as a node of a B+tree.  `LeafPage` and `InnerPage` say which values a page
holds that stands for a leaf or an inner node, and what the functions of the index find when they
read it.

The changes of a page follow: an entry that fits is added, one is deleted, the siblings are
rewritten.  A page that refuses an entry can be split, because it holds enough entries and because
no half of them has much more than two thirds of the bytes (`LeafPage.split`,
`InnerPage.split`). -/

namespace CrustyDB

open BTree List SlotDir TreeIndex Nat

theorem exists_map_of_perm {α β : Type} {f : α → β} {l : List β} {xs : List α}
    (h : l.Perm (xs.map f)) : ∃ ys : List α, ys.Perm xs ∧ l = ys.map f := by
  induction xs generalizing l with
  | nil => exact ⟨[], List.Perm.refl _, h.eq_nil⟩
  | cons x xs ih =>
    obtain ⟨l₁, l₂, rfl⟩ := append_of_mem (h.mem_iff.mpr mem_cons_self)
    have hrest : (l₁ ++ l₂).Perm (xs.map f) :=
      (perm_cons (f x)).mp (perm_middle.symm.trans h)
    obtain ⟨ys, hys, heq⟩ := ih hrest
    obtain ⟨y₁, y₂, rfl, rfl, rfl⟩ := map_eq_append_iff.mp heq.symm
    refine ⟨y₁ ++ x :: y₂, perm_middle.trans (hys.cons x), ?_⟩
    rw [map_append, map_cons]

/-- The page holds a leaf with these siblings and entries. -/
structure LeafPage (C : Codec) (a : ℕ) (d : SlotDir) (l r : Option PageId)
    (es : Multiset (IndexKey × ValueId)) : Prop where
  wf : d.WF
  exact : d.Exact
  holds : ∃ ls : List (IndexKey × ValueId), (ls : Multiset (IndexKey × ValueId)) = es ∧
    d.live.Perm ((.metadata true l r :: ls.map leafEntry).map C.bytes)
  keys : ∀ x ∈ es, BigIntKey x.1
  slots : 4 * d.slots.length + (d.slots.length - 1) * a ≤ 4072
  spare : 2 ≤ d.slots.length ∨ (l = none ∧ d.deletedBytes = 0)

/-- The page holds an inner node with these children. -/
structure InnerPage (C : Codec) (b : ℕ) (d : SlotDir) (es : List (Option IndexKey × PageId)) :
    Prop where
  holds : ∃ ls z, TreeIndex.sortInternal ls = es ∧
    d.Front ((.metadata false none none :: ls.map innerEntry).map C.bytes) z
  keys : ∀ x ∈ es, ∀ k, x.1 = some k → BigIntKey k
  slots : 4 * d.slots.length + (d.slots.length - 1) * b ≤ 4072

/-- The page holds the node. -/
def NodePage (C : Codec) (a b : ℕ) (d : SlotDir) : Node IndexKey ValueId PageId → Prop
  | .leaf l r es => LeafPage C a d l r es
  | .inner es => InnerPage C b d es

section Pages

variable {C : Codec} {a b : ℕ} (hC : C.Sound a b)

theorem oneColumn_of_perm {ents : List NodeEntry} {isLeaf : Bool} {l r : Option PageId}
    {ls : List (IndexKey × ValueId)} (hkeys : ∀ x ∈ ls, BigIntKey x.1)
    (h : ents.Perm (.metadata isLeaf l r :: ls.map leafEntry)) : ∀ e ∈ ents, e.OneColumn := by
  intro e he
  rcases mem_cons.mp (h.mem_iff.mp he) with rfl | he
  · exact trivial
  · obtain ⟨x, hx, rfl⟩ := mem_map.mp he
    exact hkeys x hx

variable {c : ℕ}

theorem sum_bounds {α : Type} (f : α → ℕ) {ls : List α} (h : ∀ x ∈ ls, c ≤ f x ∧ f x ≤ 2 * c) :
    ls.length * c ≤ (ls.map f).sum ∧ (ls.map f).sum ≤ ls.length * (2 * c) := by
  induction ls with
  | nil => simp
  | cons x ls ih =>
    obtain ⟨ih1, ih2⟩ := ih (fun y hy => h y (mem_cons_of_mem _ hy))
    obtain ⟨h1, h2⟩ := h x mem_cons_self
    simp only [map_cons, sum_cons, length_cons, add_mul, one_mul]
    omega

/-- Neither half of a list has much more than two thirds of its bytes. -/
theorem halves_le {α : Type} (f : α → ℕ) {xs ys : List α} (hx : ∀ x ∈ xs, c ≤ f x ∧ f x ≤ 2 * c)
    (hy : ∀ y ∈ ys, c ≤ f y ∧ f y ≤ 2 * c)
    (hlen : ys.length = xs.length ∨ ys.length = xs.length + 1) :
    3 * (xs.map f).sum ≤ 2 * ((xs.map f).sum + (ys.map f).sum) ∧
      3 * (ys.map f).sum ≤ 2 * ((xs.map f).sum + (ys.map f).sum) + 2 * c := by
  obtain ⟨h1, h2⟩ := sum_bounds f hx
  obtain ⟨h3, h4⟩ := sum_bounds f hy
  have hmul : ∀ n : ℕ, n * (2 * c) = 2 * (n * c) := fun n => by ring
  rw [hmul] at h2 h4
  rcases hlen with hlen | hlen
  · rw [hlen] at h3 h4
    omega
  · rw [hlen, add_mul] at h3 h4
    omega

/-- The length of a leaf entry on its page. -/
def leafSize (C : Codec) (x : IndexKey × ValueId) : ℕ := (C.bytes (leafEntry x)).length

/-- The length of an internal entry on its page. -/
def innerSize (C : Codec) (x : Option IndexKey × PageId) : ℕ := (C.bytes (innerEntry x)).length

theorem leafSize_bounds (hC : C.Sound a b) {ls : List (IndexKey × ValueId)}
    (hkeys : ∀ x ∈ ls, BigIntKey x.1) : ∀ x ∈ ls, a ≤ leafSize C x ∧ leafSize C x ≤ 2 * a :=
  fun x hx => hC.leaf x.2 (hkeys x hx)

theorem innerSize_bounds (hC : C.Sound a b) {ls : List (Option IndexKey × PageId)}
    (hkeys : ∀ x ∈ ls, ∀ k, x.1 = some k → BigIntKey k) :
    ∀ x ∈ ls, b ≤ innerSize C x ∧ innerSize C x ≤ 2 * b :=
  fun x hx => hC.internal x.2 (hkeys x hx)

theorem leafSize_sum (ls : List (IndexKey × ValueId)) :
    (((ls.map leafEntry).map C.bytes).map List.length).sum = (ls.map (leafSize C)).sum := by
  rw [map_map, map_map]
  rfl

theorem innerSize_sum (ls : List (Option IndexKey × PageId)) :
    (((ls.map innerEntry).map C.bytes).map List.length).sum = (ls.map (innerSize C)).sum := by
  rw [map_map, map_map]
  rfl

/-- A node page has at most 814 slots. -/
theorem slots_le {n : ℕ} (hc : 1 ≤ c) (h : 4 * n + (n - 1) * c ≤ 4072) : n ≤ 814 := by
  have := mul_le_mul_left (n - 1) hc
  omega

namespace LeafPage

variable {d : SlotDir} {l r : Option PageId} {es : Multiset (IndexKey × ValueId)}

section

variable (h : LeafPage C a d l r es)
include h

/-- The entries in slot order. -/
theorem entries : ∃ (ents : List NodeEntry)
    (ls : List (IndexKey × ValueId)), (ls : Multiset (IndexKey × ValueId)) = es ∧ d.iter.map Prod.fst = ents.map C.bytes ∧
      ents.Perm (.metadata true l r :: ls.map leafEntry) ∧ (∀ e ∈ ents, e.OneColumn) ∧
      ∀ e ∈ ents, e = .metadata true l r ∨ e.leafPart ≠ none := by
  obtain ⟨ls, hls, hperm⟩ := h.holds
  obtain ⟨ents, hents, heq⟩ := exists_map_of_perm hperm
  refine ⟨ents, ls, hls, ?_, hents, oneColumn_of_perm ?_ hents, ?_⟩
  · rw [iter_fst, heq]
  · intro x hx
    refine h.keys x ?_
    rw [← hls]
    exact Multiset.mem_coe.mpr hx
  · intro e he
    rcases mem_cons.mp (hents.mem_iff.mp he) with rfl | he
    · exact Or.inl rfl
    · obtain ⟨x, -, rfl⟩ := mem_map.mp he
      exact Or.inr (Option.some_ne_none _)

include hC

theorem firstMeta : ∃ slot, d.get slot = some (C.bytes (.metadata true l r)) ∧
    TreeIndex.firstMeta C d.iter = .ok (some (slot, true, l, r)) := by
  obtain ⟨ents, ls, -, hiter, hperm, hone, hpart⟩ := h.entries
  obtain ⟨slot, hslot, heq⟩ := firstMeta_eq hC hiter hone
    (hperm.mem_iff.mpr mem_cons_self) (fun e he => (hpart e he).imp id Or.inl)
  exact ⟨slot, (mem_iter h.wf).mp hslot, heq⟩

theorem readIsLeaf : TreeIndex.readIsLeaf C d.iter = .ok true := by
  obtain ⟨slot, -, heq⟩ := h.firstMeta hC
  unfold TreeIndex.readIsLeaf
  rw [heq]
  rfl

theorem leafEntries : ∃ ls : List (IndexKey × ValueId),
    (ls : Multiset (IndexKey × ValueId)) = es ∧
      TreeIndex.leafEntries C none none d.iter = .ok (l, r, ls) := by
  obtain ⟨ents, ls, hls, hiter, hperm, hone, hpart⟩ := h.entries
  have hlinks : ∀ (ents : List NodeEntry) (l₀ r₀ : Option PageId),
      (∀ e ∈ ents, e = .metadata true l r ∨ e.leafPart ≠ none) →
      (.metadata true l r ∈ ents ∨ (l₀ = l ∧ r₀ = r)) → NodeEntry.links l₀ r₀ ents = (l, r) := by
    intro ents
    induction ents with
    | nil =>
      rintro l₀ r₀ - (hmem | ⟨rfl, rfl⟩)
      · cases hmem
      · rfl
    | cons e ents ih =>
      intro l₀ r₀ hp hmem
      have hp' := fun x hx => hp x (mem_cons_of_mem e hx)
      rcases hp e mem_cons_self with rfl | hpart
      · exact ih l r hp' (Or.inr ⟨rfl, rfl⟩)
      · cases e with
        | metadata isLeaf l' r' => exact absurd rfl hpart
        | internal key child => exact absurd rfl hpart
        | leaf key rid =>
          refine ih l₀ r₀ hp' (hmem.imp (fun hmem => ?_) id)
          rcases mem_cons.mp hmem with h | h
          · cases h
          · exact h
  have hinner : ∀ e ∈ ents, e.innerPart = none := by
    intro e he
    rcases hpart e he with rfl | hp
    · rfl
    · cases e with
      | metadata isLeaf l' r' => rfl
      | internal key child => exact absurd rfl hp
      | leaf key rid => rfl
  refine ⟨ents.filterMap NodeEntry.leafPart, ?_, ?_⟩
  · rw [← hls, Multiset.coe_eq_coe]
    refine (hperm.filterMap NodeEntry.leafPart).trans (List.Perm.of_eq ?_)
    have hid : ls.filterMap (NodeEntry.leafPart ∘ leafEntry) = ls := filterMap_some
    rw [filterMap_cons, filterMap_map, hid]
    rfl
  · rw [leafEntries_of_decode (decode_vals hC hiter hone) hinner,
      hlinks ents none none hpart (Or.inl (hperm.mem_iff.mpr mem_cons_self))]

theorem readLeafEntries : ∃ ls : List (IndexKey × ValueId),
    (ls : Multiset (IndexKey × ValueId)) = es ∧
      TreeIndex.readLeafEntries C d.iter = .ok (l, r, TreeIndex.sortLeaf ls) := by
  obtain ⟨ls, hls, heq⟩ := h.leafEntries hC
  refine ⟨ls, hls, ?_⟩
  unfold TreeIndex.readLeafEntries
  rw [heq]
  rfl

theorem findEntry (key : IndexKey) (rid : ValueId) :
    ((key, rid) ∈ es ∧ ∃ slot, d.get slot = some (C.bytes (.leaf key rid)) ∧
        TreeIndex.findEntry C key rid d.iter = .ok (some slot)) ∨
      ((key, rid) ∉ es ∧ TreeIndex.findEntry C key rid d.iter = .ok none) := by
  obtain ⟨ents, ls, hls, hiter, hperm, hone, -⟩ := h.entries
  have hmem : .leaf key rid ∈ ents ↔ (key, rid) ∈ es := by
    rw [hperm.mem_iff, ← hls, Multiset.mem_coe, mem_cons]
    constructor
    · rintro (hx | hx)
      · cases hx
      · obtain ⟨x, hx', heq⟩ := mem_map.mp hx
        obtain ⟨rfl, rfl⟩ := NodeEntry.leaf.inj heq
        exact hx'
    · exact fun hx => Or.inr (mem_map.mpr ⟨_, hx, rfl⟩)
  rcases findEntry_eq hC key rid hiter hone with ⟨h1, slot, h2, h3⟩ | ⟨h1, h2⟩
  · exact Or.inl ⟨hmem.mp h1, slot, (mem_iter h.wf).mp h2, h3⟩
  · exact Or.inr ⟨fun h' => h1 (hmem.mpr h'), h2⟩

/-! ### Changes of a leaf page -/

omit hC in
theorem live_length : d.live.length = es.card + 1 := by
  obtain ⟨ls, rfl, hperm⟩ := h.holds
  rw [hperm.length_eq]
  simp

/-- The bytes of the values: the metadata, and `a` to `2 * a` bytes for each entry. -/
theorem liveBytes :
    es.card * a + 1 ≤ d.liveBytes ∧ d.liveBytes ≤ 200 + es.card * (2 * a) := by
  obtain ⟨ls, rfl, hperm⟩ := h.holds
  have hmeta : NodeEntry.OneColumn (.metadata true l r) := trivial
  have hpos := length_pos_iff.mpr (hC.ne_nil hmeta)
  have hle := hC.le hmeta
  rw [liveBytes_eq, (hperm.map List.length).sum_eq]
  obtain ⟨h1, h2⟩ := sum_bounds (leafSize C)
    (leafSize_bounds hC (fun x hx => h.keys x (Multiset.mem_coe.mpr hx)))
  simp only [map_cons, sum_cons, Multiset.coe_card, leafSize_sum]
  omega

end

variable {key : IndexKey} {rid : ValueId}
include hC

/-- An entry that fits is added. -/
theorem add (h : LeafPage C a d l r es) (hk : BigIntKey key) (rid : ValueId)
    (hroom : d.Room (C.bytes (.leaf key rid))) :
    ∃ s d', d.add (C.bytes (.leaf key rid)) = .ok (some s, d') ∧
      LeafPage C a d' l r ((key, rid) ::ₘ es) := by
  have hone : NodeEntry.OneColumn (.leaf key rid) := hk
  have hne := hC.ne_nil hone
  obtain ⟨⟨res, d'⟩, hadd⟩ := add_ok h.exact (C.bytes (.leaf key rid))
  cases res with
  | none => exact absurd hroom (add_none hadd).1
  | some s =>
    have hA := add_some h.wf hadd
    have hkeys : ∀ x ∈ (key, rid) ::ₘ es, BigIntKey x.1 := by
      intro x hx
      rcases Multiset.mem_cons.mp hx with rfl | hx
      · exact hk
      · exact h.keys x hx
    have hholds : ∃ ls : List (IndexKey × ValueId),
        (ls : Multiset (IndexKey × ValueId)) = (key, rid) ::ₘ es ∧
          d'.live.Perm ((.metadata true l r :: ls.map leafEntry).map C.bytes) := by
      obtain ⟨ls, rfl, hperm⟩ := h.holds
      refine ⟨(key, rid) :: ls, rfl, (hA.live_perm hne).trans ?_⟩
      exact (hperm.cons _).trans (List.Perm.swap _ _ _)
    have hlen := h.live_length
    have hslots := hA.slots_length
    have hbound := h.slots
    refine ⟨s, d', hadd, hA.wf, add_exact h.exact hne hadd, hholds, hkeys, ?_, ?_⟩
    · split_ifs at hslots with hfull
      · -- every slot is in use, so the values account for the slots
        have hlive := live_length_eq hfull
        have hfree := hA.wf.freeSpace_add
        obtain ⟨ls, hls, hperm⟩ := hholds
        have hone : ∀ x ∈ ls, BigIntKey x.1 := fun x hx =>
          hkeys x (hls ▸ Multiset.mem_coe.mpr hx)
        obtain ⟨hsum, -⟩ := sum_bounds (leafSize C) (leafSize_bounds hC hone)
        have hcard : ls.length = es.card + 1 := by
          rw [← Multiset.coe_card, hls, Multiset.card_cons]
        rw [liveBytes_eq, (hperm.map List.length).sum_eq] at hfree
        simp only [map_cons, sum_cons, leafSize_sum] at hfree
        have hn : d'.slots.length - 1 = ls.length := by omega
        rw [hn]
        omega
      · rw [hslots]
        exact hbound
    · left
      rw [hslots]
      split_ifs with hfull
      · have := live_length_eq hfull
        omega
      · have := live_length_lt hfull
        omega

/-- A page that refuses an entry holds one already. -/
theorem card_pos (h : LeafPage C a d l r es) (hk : BigIntKey key)
    (hroom : ¬ d.Room (C.bytes (.leaf key rid))) : 1 ≤ es.card := by
  by_contra hzero
  refine hroom ?_
  have hcard : es.card = 0 := by omega
  have hone : NodeEntry.OneColumn (.leaf key rid) := hk
  have hle := hC.le hone
  have hlen := h.live_length
  have hfree := h.wf.freeSpace_add
  obtain ⟨-, hlive⟩ := h.liveBytes hC
  rw [hcard, zero_mul] at hlive
  have hn := slots_le hC.leaf_pos h.slots
  have hmeta : slotMetadataSize = 4 := rfl
  unfold SlotDir.Room
  rw [hmeta]
  split_ifs with hfull
  · have hlive' := live_length_eq hfull
    rcases h.spare with hs | ⟨-, hdel⟩
    · omega
    · unfold SlotDir.freeSpace at hfree ⊢
      omega
  · omega

omit hC in
/-- A deleted entry is gone. -/
theorem delete (h : LeafPage C a d l r ((key, rid) ::ₘ es)) {s : SlotId}
    (hget : d.get s = some (C.bytes (.leaf key rid))) : LeafPage C a (d.delete s).2 l r es := by
  obtain ⟨hw, he⟩ := delete_keeps h.wf h.exact s
  cases hd : d.delete s with
  | mk res d' =>
    rw [hd] at hw he
    cases res with
    | none =>
      rw [(delete_none hd).1] at hget
      cases hget
    | some u =>
      have hD := delete_some h.wf hd
      have hslots := hD.slots_length
      refine ⟨hw, he, ?_, fun x hx => h.keys x (Multiset.mem_cons_of_mem hx), ?_, ?_⟩
      · obtain ⟨ls, hcons, hperm⟩ := h.holds
        obtain ⟨ls', rfl⟩ := Quotient.exists_rep es
        have hls : ls.Perm ((key, rid) :: ls') := Multiset.coe_eq_coe.mp hcons
        refine ⟨ls', rfl, ?_⟩
        have hlive := (hD.live_perm hget).symm.trans hperm
        have hswap : ((.metadata true l r :: ls.map leafEntry).map C.bytes).Perm
            (C.bytes (.leaf key rid) ::
              (.metadata true l r :: ls'.map leafEntry).map C.bytes) := by
          refine (((hls.map leafEntry).map C.bytes).cons _).trans ?_
          exact List.Perm.swap _ _ _
        exact (perm_cons _).mp (hlive.trans hswap)
      · rw [hslots]
        exact h.slots
      · rw [hslots]
        rcases h.spare with hs | ⟨hl, hdel⟩
        · exact Or.inl hs
        · -- the metadata is the only other value
          left
          have hlen := h.live_length
          have hle := d.live_length_le
          rw [Multiset.card_cons] at hlen
          omega

/-- New siblings are written into the metadata. -/
theorem relink (h : LeafPage C a d l r es) {s : SlotId} {l' : Option PageId} {d' : SlotDir}
    (hl : l ≠ none) (hget : d.get s = some (C.bytes (.metadata true l r)))
    (hup : d.update s (C.bytes (.metadata true l' r)) = (some (), d')) :
    LeafPage C a d' l' r es := by
  have hone : NodeEntry.OneColumn (.metadata true l' r) := trivial
  have hne := hC.ne_nil hone
  have hU := update_some h.wf hup
  refine ⟨hU.wf, update_exact h.exact hne hup, ?_, h.keys, ?_, ?_⟩
  · obtain ⟨ls, rfl, hperm⟩ := h.holds
    obtain ⟨rest, hold, hnew⟩ := hU.live_perm hget hne
    have hrest : rest.Perm ((ls.map leafEntry).map C.bytes) :=
      (perm_cons _).mp (hold.symm.trans hperm)
    exact ⟨ls, rfl, hnew.trans (hrest.cons _)⟩
  · rw [hU.slots_length]
    exact h.slots
  · rw [hU.slots_length]
    exact h.spare.imp id (fun hs => absurd hs.1 hl)

/-- The page of a new tree: a leaf without entries or siblings. -/
theorem fresh (pageId : PageId) : ∃ d',
    (∃ s, (SlotDir.empty pageId).add (C.bytes (.metadata true none none)) = .ok (some s, d')) ∧
      LeafPage C a d' none none 0 := by
  have hone : NodeEntry.OneColumn (.metadata true none none) := trivial
  have hle := hC.le hone
  obtain ⟨s, d', hadd, hf, hdeleted⟩ := (SlotDir.Front.empty pageId).add (hC.ne_nil hone)
    (Or.inr ⟨rfl, rfl⟩) (by
      simp only [length_nil, map_nil, sum_nil]
      omega)
  have hlen := hf.slots_length
  simp only [nil_append, length_singleton] at hlen
  refine ⟨d', ⟨s, hadd⟩, hf.wf, hf.exact, ⟨[], rfl, ?_⟩, ?_, ?_, Or.inr ⟨rfl, hdeleted rfl⟩⟩
  · rw [hf.live]
    exact List.Perm.refl _
  · intro x hx
    exact absurd hx (Multiset.notMem_zero x)
  · rw [hlen]
    omega

/-- A page without values is filled with a leaf. -/
theorem fill {d : SlotDir} {z : ℕ} (h : d.Front [] z) {ls : List (IndexKey × ValueId)}
    (hkeys : ∀ x ∈ ls, BigIntKey x.1) (hne : ls ≠ []) (l r : Option PageId)
    (hz : (ls.length + 1 ≤ z ∧ 4 * z + (z - 1) * a ≤ 4072) ∨ (z = 0 ∧ d.deletedBytes = 0))
    (hroom : 24 + 4 * max (ls.length + 1) z + 200 + (ls.map (leafSize C)).sum < 4096) :
    ∃ d', d.addAll ((.metadata true l r :: ls.map leafEntry).map C.bytes) = .ok d' ∧
      LeafPage C a d' l r (ls : Multiset (IndexKey × ValueId)) := by
  have hmeta : NodeEntry.OneColumn (.metadata true l r) := trivial
  have hle := hC.le hmeta
  have hlen : ((.metadata true l r :: ls.map leafEntry).map C.bytes).length = ls.length + 1 := by
    simp
  have hsum : (((.metadata true l r :: ls.map leafEntry).map C.bytes).map List.length).sum =
      (C.bytes (.metadata true l r)).length + (ls.map (leafSize C)).sum := by
    rw [map_cons, map_cons, sum_cons, leafSize_sum]
  have hbytes : ∀ v ∈ (.metadata true l r :: ls.map leafEntry).map C.bytes, v ≠ [] := by
    intro v hv
    obtain ⟨e, he, rfl⟩ := mem_map.mp hv
    exact hC.ne_nil (oneColumn_of_perm hkeys (List.Perm.refl _) e he)
  obtain ⟨d', hall, hf, -⟩ := h.addAll hbytes
    (hz.imp (fun hz => by rw [hlen]; exact hz.1) id)
    (by rw [hlen, hsum]; simp only [length_nil, map_nil, sum_nil]; omega)
  rw [nil_append] at hf
  have hslots := hf.slots_length
  rw [hlen] at hslots
  have hpos := length_pos_iff.mpr hne
  refine ⟨d', hall, hf.wf, hf.exact, ⟨ls, rfl, by rw [hf.live]⟩,
    fun x hx => hkeys x (Multiset.mem_coe.mp hx), ?_, Or.inl (by omega)⟩
  rcases hz with ⟨hz, hbound⟩ | ⟨hz, -⟩
  · have hn : d'.slots.length = z := by omega
    rw [hn]
    exact hbound
  · have hfree := hf.wf.freeSpace_add
    obtain ⟨hlow, -⟩ := sum_bounds (leafSize C) (leafSize_bounds hC hkeys)
    rw [liveBytes_eq, hf.live, hsum] at hfree
    have hn : d'.slots.length - 1 = ls.length := by omega
    rw [hn]
    omega

/-- A leaf page that refuses an entry can be split: the lower half of the entries fits on the page,
once it is emptied, and the upper half on a new page. -/
theorem split (h : LeafPage C a d l r es) (hk : BigIntKey key)
    (hroom : ¬ d.Room (C.bytes (.leaf key rid))) {ls : List (IndexKey × ValueId)}
    (hls : (ls : Multiset (IndexKey × ValueId)) = (key, rid) ::ₘ es) (p q pageId : PageId) :
    ls.take (ls.length / 2) ≠ [] ∧ ls.drop (ls.length / 2) ≠ [] ∧
      (∃ d', (d.deleteAll (d.iter.map Prod.snd)).addAll
          ((.metadata true l (some q) :: (ls.take (ls.length / 2)).map leafEntry).map C.bytes) = .ok d' ∧
        LeafPage C a d' l (some q) (ls.take (ls.length / 2) : List (IndexKey × ValueId))) ∧
      ∃ d', (SlotDir.empty pageId).addAll
          ((.metadata true (some p) r :: (ls.drop (ls.length / 2)).map leafEntry).map C.bytes) = .ok d' ∧
        LeafPage C a d' (some p) r (ls.drop (ls.length / 2) : List (IndexKey × ValueId)) := by
  have hcard : ls.length = es.card + 1 := by
    rw [← Multiset.coe_card, hls, Multiset.card_cons]
  have hpos := h.card_pos hC hk hroom
  have hkeys : ∀ x ∈ ls, BigIntKey x.1 := by
    intro x hx
    have hx' : x ∈ (key, rid) ::ₘ es := hls ▸ Multiset.mem_coe.mpr hx
    rcases Multiset.mem_cons.mp hx' with rfl | hx'
    · exact hk
    · exact h.keys x hx'
  have hlenx : (ls.take (ls.length / 2)).length = ls.length / 2 := by
    rw [length_take]
    omega
  have hleny : (ls.drop (ls.length / 2)).length = ls.length - ls.length / 2 := length_drop
  have hkx : ∀ x ∈ ls.take (ls.length / 2), BigIntKey x.1 := fun x hx => hkeys x (mem_of_mem_take hx)
  have hky : ∀ x ∈ ls.drop (ls.length / 2), BigIntKey x.1 := fun x hx => hkeys x (mem_of_mem_drop hx)
  obtain ⟨hx3, hy3⟩ := halves_le (leafSize C) (leafSize_bounds hC hkx) (leafSize_bounds hC hky)
    (by rw [hlenx, hleny]; omega)
  -- all entries together: those of the page and the new one
  have htotal : ((ls.take (ls.length / 2)).map (leafSize C)).sum +
      ((ls.drop (ls.length / 2)).map (leafSize C)).sum ≤ d.liveBytes + leafSize C (key, rid) := by
    rw [← sum_append_nat, ← map_append, take_append_drop]
    obtain ⟨ls₀, hls₀, hperm⟩ := h.holds
    have hp : ls.Perm ((key, rid) :: ls₀) := by
      rw [← Multiset.coe_eq_coe, hls, ← hls₀]
      rfl
    rw [(hp.map (leafSize C)).sum_eq, liveBytes_eq, (hperm.map List.length).sum_eq]
    simp only [map_cons, sum_cons, leafSize_sum]
    omega
  have hfree := h.wf.freeSpace_add
  have hbound := h.slots
  have hn := slots_le hC.leaf_pos hbound
  have hlive := h.live_length
  have hlive' := d.live_length_le
  obtain ⟨-, hnew⟩ := hC.leaf rid hk
  have hnew' : leafSize C (key, rid) ≤ 200 := hC.le (e := .leaf key rid) hk
  have hnew'' : leafSize C (key, rid) ≤ 2 * a := hnew
  -- with entries of two bytes or more the page has fewer slots
  have hslack : 600 + 2 * leafSize C (key, rid) < 4072 - 4 * d.slots.length := by
    rcases lt_or_ge a 2 with ha | ha
    · omega
    · have := mul_le_mul_left (d.slots.length - 1) ha
      omega
  have ha200 : a ≤ 200 := (hC.leaf rid hk).1.trans hnew'
  refine ⟨?_, ?_, ?_, ?_⟩
  · intro hnil
    rw [hnil, length_nil] at hlenx
    omega
  · intro hnil
    rw [hnil, length_nil] at hleny
    omega
  · refine fill hC (SlotDir.Front.drained h.wf h.exact) hkx ?_ l (some q) (Or.inl ⟨?_, hbound⟩) ?_
    · intro hnil
      rw [hnil, length_nil] at hlenx
      omega
    · omega
    · rw [hlenx]
      omega
  · refine fill hC (SlotDir.Front.empty pageId) hky ?_ (some p) r (Or.inr ⟨rfl, rfl⟩) ?_
    · intro hnil
      rw [hnil, length_nil] at hleny
      omega
    · rw [hleny]
      omega

end LeafPage

namespace InnerPage

variable {d : SlotDir} {es : List (Option IndexKey × PageId)}

theorem oneColumn {ls : List (Option IndexKey × PageId)}
    (hkeys : ∀ x ∈ ls, ∀ k, x.1 = some k → BigIntKey k) (isLeaf : Bool) (l r : Option PageId) :
    ∀ e ∈ NodeEntry.metadata isLeaf l r :: ls.map innerEntry, e.OneColumn := by
  intro e he
  rcases mem_cons.mp he with rfl | he
  · exact trivial
  · obtain ⟨x, hx, rfl⟩ := mem_map.mp he
    exact hkeys x hx

/-- The children in slot order. -/
theorem entries (h : InnerPage C b d es) : ∃ ls z, TreeIndex.sortInternal ls = es ∧
    d.Front ((.metadata false none none :: ls.map innerEntry).map C.bytes) z ∧
    (∀ x ∈ ls, ∀ k, x.1 = some k → BigIntKey k) := by
  obtain ⟨ls, z, rfl, hf⟩ := h.holds
  exact ⟨ls, z, rfl, hf, fun x hx => h.keys x ((sortInternal_perm ls).mem_iff.mpr hx)⟩

include hC

theorem readIsLeaf (h : InnerPage C b d es) : TreeIndex.readIsLeaf C d.iter = .ok false := by
  obtain ⟨ls, z, rfl, hf, hkeys⟩ := h.entries
  have hiter : d.iter.map Prod.fst =
      (NodeEntry.metadata false none none :: ls.map innerEntry).map C.bytes := by
    rw [iter_fst, hf.live]
  obtain ⟨slot, -, heq⟩ := firstMeta_eq hC hiter (oneColumn hkeys false none none)
    mem_cons_self (fun e he => by
      rcases mem_cons.mp he with rfl | he
      · exact Or.inl rfl
      · obtain ⟨x, -, rfl⟩ := mem_map.mp he
        exact Or.inr (Or.inr (Option.some_ne_none _)))
  unfold TreeIndex.readIsLeaf
  rw [heq]
  rfl

theorem internalEntries (h : InnerPage C b d es) : ∃ ls, TreeIndex.sortInternal ls = es ∧
    TreeIndex.internalEntries C d.iter = .ok ls := by
  obtain ⟨ls, z, rfl, hf, hkeys⟩ := h.entries
  have hiter : d.iter.map Prod.fst =
      (NodeEntry.metadata false none none :: ls.map innerEntry).map C.bytes := by
    rw [iter_fst, hf.live]
  refine ⟨ls, rfl, ?_⟩
  rw [internalEntries_of_decode
    (decode_vals hC hiter (oneColumn hkeys false none none)), filterMap_cons,
    filterMap_map]
  exact congrArg Except.ok filterMap_some

theorem readInternalEntries (h : InnerPage C b d es) :
    TreeIndex.readInternalEntries C d.iter = .ok es := by
  obtain ⟨ls, rfl, heq⟩ := h.internalEntries hC
  unfold TreeIndex.readInternalEntries
  rw [heq]
  rfl

/-! ### Changes of an internal page -/

/-- A child that fits is added. -/
theorem add (h : InnerPage C b d es) {key : IndexKey} (hk : BigIntKey key) {child : PageId}
    {s : SlotId} {d' : SlotDir}
    (hadd : d.add (C.bytes (.internal (some key) child)) = .ok (some s, d')) :
    InnerPage C b d' (BTree.insertEntry (some key, child) es) := by
  have hone : NodeEntry.OneColumn (.internal (some key) child) := fun k hk' =>
    Option.some.inj hk' ▸ hk
  have hne := hC.ne_nil hone
  obtain ⟨ls, z, hsort, hf, hkeys⟩ := h.entries
  have hf' := hf.added hne hadd
  have hls : (NodeEntry.metadata false none none :: ls.map innerEntry).map C.bytes ++
      [C.bytes (.internal (some key) child)] =
      (NodeEntry.metadata false none none :: (ls ++ [(some key, child)]).map innerEntry).map C.bytes := by
    simp [innerEntry]
  rw [hls] at hf'
  have hkeys' : ∀ x ∈ ls ++ [(some key, child)], ∀ k, x.1 = some k → BigIntKey k := by
    intro x hx
    rcases mem_append.mp hx with hx | hx
    · exact hkeys x hx
    · rw [mem_singleton.mp hx]
      exact hone
  refine ⟨⟨_, _, ?_, hf'⟩, ?_, ?_⟩
  · rw [sortInternal_append, hsort]
  · intro x hx
    refine hkeys' x ?_
    have hmem := (insertEntry_perm (some key, child) es).mem_iff.mp hx
    rw [← hsort, mem_cons, (sortInternal_perm ls).mem_iff] at hmem
    rw [mem_append, mem_singleton]
    exact hmem.symm
  · have hslots := (add_some hf.wf hadd).slots_length
    split_ifs at hslots with hfull
    · -- every slot is in use, so the values account for the slots
      have hfree := hf'.wf.freeSpace_add
      have hz : z = 0 := by
        rw [hf.firstFree, hf.slots_length] at hfull
        omega
      obtain ⟨hsum, -⟩ := sum_bounds (innerSize C) (innerSize_bounds hC hkeys')
      rw [liveBytes_eq, hf'.live] at hfree
      have hlen := hf'.slots_length
      simp only [map_cons, sum_cons, innerSize_sum, length_cons,
        length_map] at hfree hlen
      have hn : d'.slots.length - 1 = (ls ++ [(some key, child)]).length := by omega
      rw [hn]
      omega
    · rw [hslots]
      exact h.slots

/-- A page without values is filled with an inner node. -/
theorem fill {d : SlotDir} {z : ℕ} (h : d.Front [] z) {ls : List (Option IndexKey × PageId)}
    (hkeys : ∀ x ∈ ls, ∀ k, x.1 = some k → BigIntKey k)
    (hsorted : ls.Pairwise (fun x y => TreeIndex.keyLe x.1 y.1))
    (hz : (ls.length + 1 ≤ z ∧ 4 * z + (z - 1) * b ≤ 4072) ∨ (z = 0 ∧ d.deletedBytes = 0))
    (hroom : 24 + 4 * max (ls.length + 1) z + 200 + (ls.map (innerSize C)).sum < 4096) :
    ∃ d', d.addAll ((.metadata false none none :: ls.map innerEntry).map C.bytes) = .ok d' ∧
      InnerPage C b d' ls := by
  have hmeta : NodeEntry.OneColumn (.metadata false none none) := trivial
  have hle := hC.le hmeta
  have hlen : ((.metadata false none none :: ls.map innerEntry).map C.bytes).length =
      ls.length + 1 := by
    simp
  have hsum : (((.metadata false none none :: ls.map innerEntry).map C.bytes).map List.length).sum =
      (C.bytes (.metadata false none none)).length + (ls.map (innerSize C)).sum := by
    rw [map_cons, map_cons, sum_cons, innerSize_sum]
  have hbytes : ∀ v ∈ (.metadata false none none :: ls.map innerEntry).map C.bytes, v ≠ [] := by
    intro v hv
    obtain ⟨e, he, rfl⟩ := mem_map.mp hv
    exact hC.ne_nil (oneColumn hkeys false none none e he)
  obtain ⟨d', hall, hf, -⟩ := h.addAll hbytes
    (hz.imp (fun hz => by rw [hlen]; exact hz.1) id)
    (by rw [hlen, hsum]; simp only [length_nil, map_nil, sum_nil]; omega)
  rw [nil_append] at hf
  have hslots := hf.slots_length
  rw [hlen] at hslots
  refine ⟨d', hall, ⟨ls, _, hsorted.insertionSort_eq, hf⟩, hkeys, ?_⟩
  rcases hz with ⟨hz, hbound⟩ | ⟨hz, -⟩
  · have hn : d'.slots.length = z := by omega
    rw [hn]
    exact hbound
  · have hfree := hf.wf.freeSpace_add
    obtain ⟨hlow, -⟩ := sum_bounds (innerSize C) (innerSize_bounds hC hkeys)
    rw [liveBytes_eq, hf.live, hsum] at hfree
    have hn : d'.slots.length - 1 = ls.length := by omega
    rw [hn]
    omega

omit hC in
/-- The entries of a full internal page and a new child, in order. -/
theorem sort_append (h : InnerPage C b d es) (x : Option IndexKey × PageId) :
    TreeIndex.sortInternal (es ++ [x]) = BTree.insertEntry x es := by
  obtain ⟨ls, z, rfl, -⟩ := h.holds
  rw [sortInternal_append]
  congr 1
  exact (sortInternal_pairwise ls).insertionSort_eq

/-- An internal page can be split at the middle entry, which goes up: the entries before it fit on
the page, once it is emptied, and its child and those after it on a new page. -/
theorem split (h : InnerPage C b d es) (hne : es ≠ []) {key : IndexKey} (hk : BigIntKey key)
    {child m : PageId} {t : IndexKey} {E rs : List (Option IndexKey × PageId)}
    (hE : TreeIndex.sortInternal (es ++ [(some key, child)]) = E)
    (hdrop : E.drop (E.length / 2) = (some t, m) :: rs) (pageId : PageId) :
    E.take (E.length / 2) ≠ [] ∧ BigIntKey t ∧
      (∃ d', (d.deleteAll (d.iter.map Prod.snd)).addAll
          ((.metadata false none none :: (E.take (E.length / 2)).map innerEntry).map C.bytes) = .ok d' ∧
        InnerPage C b d' (E.take (E.length / 2))) ∧
      ∃ d', (SlotDir.empty pageId).addAll
          ((.metadata false none none :: ((none, m) :: rs).map innerEntry).map C.bytes) = .ok d' ∧
        InnerPage C b d' ((none, m) :: rs) := by
  have hone : ∀ k, (some key : Option IndexKey) = some k → BigIntKey k := fun k hk' =>
    Option.some.inj hk' ▸ hk
  have hperm : E.Perm ((some key, child) :: es) := by
    rw [← hE]
    exact (sortInternal_perm _).trans (perm_append_singleton _ _)
  have hsorted : E.Pairwise (fun x y => TreeIndex.keyLe x.1 y.1) :=
    hE ▸ sortInternal_pairwise _
  have hkeys : ∀ x ∈ E, ∀ k, x.1 = some k → BigIntKey k := by
    intro x hx
    rcases mem_cons.mp (hperm.mem_iff.mp hx) with rfl | hx
    · exact hone
    · exact h.keys x hx
  have hcard : E.length = es.length + 1 := hperm.length_eq
  have hpos := length_pos_iff.mpr hne
  have hlenx : (E.take (E.length / 2)).length = E.length / 2 := by
    rw [length_take]
    omega
  have hleny : ((some t, m) :: rs).length = E.length - E.length / 2 := by
    rw [← hdrop, length_drop]
  have hkx : ∀ x ∈ E.take (E.length / 2), ∀ k, x.1 = some k → BigIntKey k := fun x hx =>
    hkeys x (mem_of_mem_take hx)
  have hky : ∀ x ∈ (some t, m) :: rs, ∀ k, x.1 = some k → BigIntKey k := fun x hx =>
    hkeys x (mem_of_mem_drop (hdrop ▸ hx))
  have hky' : ∀ x ∈ (none, m) :: rs, ∀ k, x.1 = some k → BigIntKey k := by
    intro x hx
    rcases mem_cons.mp hx with rfl | hx
    · exact fun k hk => by cases hk
    · exact hky x (mem_cons_of_mem _ hx)
  obtain ⟨hx3, hy3⟩ := halves_le (innerSize C) (innerSize_bounds hC hkx) (innerSize_bounds hC hky)
    (by rw [hlenx, hleny]; omega)
  -- all entries together: those of the page and the new one
  obtain ⟨ls, z, hsort, hf, -⟩ := h.entries
  have htotal : ((E.take (E.length / 2)).map (innerSize C)).sum +
      (((some t, m) :: rs).map (innerSize C)).sum ≤ d.liveBytes + innerSize C (some key, child) := by
    have hp := hperm.trans ((hsort ▸ sortInternal_perm ls).cons (some key, child))
    rw [← sum_append_nat, ← map_append, ← hdrop, take_append_drop,
      (hp.map (innerSize C)).sum_eq, liveBytes_eq, hf.live]
    simp only [map_cons, sum_cons, innerSize_sum]
    omega
  have hfree := hf.wf.freeSpace_add
  have hbound := h.slots
  have hn := slots_le hC.internal_pos hbound
  have hlen := hf.slots_length
  have hes : es.length = ls.length := by
    rw [← hsort]
    exact (sortInternal_perm ls).length_eq
  simp only [length_map, length_cons] at hlen
  obtain ⟨hlow, hnew⟩ := hC.internal child hone
  have hnew' : innerSize C (some key, child) ≤ 200 := hC.le (e := .internal (some key) child) hone
  have hnew'' : innerSize C (some key, child) ≤ 2 * b := hnew
  have hlow' : b ≤ innerSize C (some key, child) := hlow
  -- with entries of two bytes or more the page has fewer slots
  have hslack : 600 + 2 * innerSize C (some key, child) < 4072 - 4 * d.slots.length := by
    rcases lt_or_ge b 2 with hb | hb
    · omega
    · have := mul_le_mul_left (d.slots.length - 1) hb
      omega
  -- the child of the middle entry loses its separator
  obtain ⟨hm1, -⟩ := innerSize_bounds hC hky (some t, m) mem_cons_self
  obtain ⟨-, hm2⟩ := innerSize_bounds hC hky' (none, m) mem_cons_self
  simp only [map_cons, sum_cons] at hx3 hy3 htotal
  refine ⟨?_, hky (some t, m) mem_cons_self t rfl, ?_, ?_⟩
  · intro hnil
    rw [hnil, length_nil] at hlenx
    omega
  · refine fill hC (SlotDir.Front.drained hf.wf hf.exact) hkx
      (hsorted.sublist (take_sublist _ _)) (Or.inl ⟨by omega, hbound⟩) ?_
    rw [hlenx]
    omega
  · refine fill hC (SlotDir.Front.empty pageId) hky' ?_ (Or.inr ⟨rfl, rfl⟩) ?_
    · have hys := hsorted.sublist (drop_sublist (E.length / 2) E)
      rw [hdrop, pairwise_cons] at hys
      exact pairwise_cons.mpr ⟨fun x _ => trivial, hys.2⟩
    · rw [length_cons] at hleny ⊢
      simp only [map_cons, sum_cons]
      omega

end InnerPage

end Pages

end CrustyDB
