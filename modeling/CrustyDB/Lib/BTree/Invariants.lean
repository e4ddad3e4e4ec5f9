import CrustyDB.Lib.BTree.Lookup

/-! # What the invariants say

The invariants of a tree spelled out: its leaves are one doubly linked list (`Tree.sibling_iff`,
`Tree.head`, `Tree.tail`, `Tree.acyclic`), the keys below a page lie between the separators on the
way to it (`Ordered.within`), the separators of a node increase (`Ordered.separators`), and so do
the keys along the list of leaves (`Ordered.keys`).

An insertion keeps the order of a tree when the cut of its split is new.  It is when no key is
stored twice (`Insert.newCut_lt`), and it is when no two separators of the tree after the insertion
are equal (`Insert.newCut_le`). -/

namespace BTree

open List hiding Disjoint

variable {K V P : Type}

/-! ### The list of leaves -/

def leftSibling (σ : Store K V P) (p : P) : Option P :=
  match σ p with
  | some (.leaf l _ _) => l
  | _ => none

def rightSibling (σ : Store K V P) (p : P) : Option P :=
  match σ p with
  | some (.leaf _ r _) => r
  | _ => none

section Chain

variable {σ : Store K V P} {n : ℕ} {root : P} {ch : List P} {p x : P}

theorem leftSibling_leaf {l r : Option P} {es : Multiset (K × V)} (h : σ p = some (.leaf l r es)) :
    leftSibling σ p = l := by
  unfold leftSibling
  rw [h]

theorem rightSibling_leaf {l r : Option P} {es : Multiset (K × V)} (h : σ p = some (.leaf l r es)) :
    rightSibling σ p = r := by
  unfold rightSibling
  rw [h]

theorem isLeaf_of_leftSibling (h : leftSibling σ p = some x) : IsLeaf σ p := by
  unfold leftSibling at h
  split at h
  · rename_i l r es hp
    exact ⟨l, r, es, hp⟩
  · cases h

theorem isLeaf_of_rightSibling (h : rightSibling σ p = some x) : IsLeaf σ p := by
  unfold rightSibling at h
  split at h
  · rename_i l r es hp
    exact ⟨l, r, es, hp⟩
  · cases h

section

variable (h : Tree σ n root ch)
include h

theorem Tree.mem_chain (hx : IsLeaf σ x) : x ∈ ch := by
  refine h.chain.mem_iff.mpr (mem_leaves_of_isLeaf h.shape (h.all x ?_) hx)
  obtain ⟨l, r, es, hx⟩ := hx
  simp [hx]

/-- The siblings of a leaf are its neighbours in the chain. -/
theorem Tree.siblings (hx : IsLeaf σ x) : ∃ pre post,
    ch = pre ++ x :: post ∧ leftSibling σ x = pre.getLast? ∧ rightSibling σ x = post.head? := by
  obtain ⟨pre, post, rfl⟩ := append_of_mem (h.mem_chain hx)
  obtain ⟨es, hes⟩ := h.linked.at
  refine ⟨pre, post, rfl, ?_, rightSibling_leaf hes⟩
  rw [leftSibling_leaf hes, Option.or_none]

/-- The right sibling of `a` is `b` when they are next to each other in the chain. -/
theorem Tree.rightSibling_iff (a b : P) :
    rightSibling σ a = some b ↔ ∃ pre post, ch = pre ++ a :: b :: post := by
  constructor
  · intro hr
    obtain ⟨pre, post, hch, -, hright⟩ := h.siblings (isLeaf_of_rightSibling hr)
    rw [hr] at hright
    cases post with
    | nil => cases hright
    | cons x post =>
      cases hright
      exact ⟨pre, post, hch⟩
  · rintro ⟨pre, post, rfl⟩
    obtain ⟨es, hes⟩ := h.linked.at
    rw [rightSibling_leaf hes]
    rfl

theorem Tree.leftSibling_iff (a b : P) :
    leftSibling σ b = some a ↔ ∃ pre post, ch = pre ++ a :: b :: post := by
  constructor
  · intro hl
    obtain ⟨pre, post, hch, hleft, -⟩ := h.siblings (isLeaf_of_leftSibling hl)
    rw [hl] at hleft
    obtain ⟨pre', rfl⟩ := getLast?_eq_some_iff.mp hleft.symm
    refine ⟨pre', post, ?_⟩
    rw [hch, append_assoc]
    rfl
  · rintro ⟨pre, post, rfl⟩
    have hlinked := h.linked
    rw [append_cons] at hlinked
    obtain ⟨es, hes⟩ := hlinked.at
    rw [leftSibling_leaf hes, getLast?_concat]
    rfl

/-- `b` is on the right of `a` just when `a` is on the left of `b`. -/
theorem Tree.sibling_iff (a b : P) :
    rightSibling σ a = some b ↔ leftSibling σ b = some a :=
  (h.rightSibling_iff a b).trans (h.leftSibling_iff a b).symm

theorem Tree.chain_ne_nil : ch ≠ [] := by
  rintro rfl
  exact h.shape.leaves_ne_nil h.chain.symm.eq_nil

/-- One leaf has no left sibling: the first of the chain. -/
theorem Tree.head : ∃! x, IsLeaf σ x ∧ leftSibling σ x = none := by
  obtain ⟨x, rest, rfl⟩ := exists_cons_of_ne_nil h.chain_ne_nil
  obtain ⟨es, hes⟩ := h.linked.1
  refine ⟨x, ⟨⟨_, _, _, hes⟩, leftSibling_leaf hes⟩, ?_⟩
  rintro y ⟨hy, hnone⟩
  obtain ⟨pre, post, hch, hleft, -⟩ := h.siblings hy
  rw [hnone] at hleft
  rw [getLast?_eq_none_iff.mp hleft.symm] at hch
  exact (List.cons.inj hch).1.symm

/-- One leaf has no right sibling: the last of the chain. -/
theorem Tree.tail : ∃! x, IsLeaf σ x ∧ rightSibling σ x = none := by
  obtain ⟨pre, x, rfl⟩ := (eq_nil_or_concat' ch).resolve_left h.chain_ne_nil
  obtain ⟨es, hes⟩ := h.linked.at
  refine ⟨x, ⟨⟨_, _, _, hes⟩, rightSibling_leaf hes⟩, ?_⟩
  rintro y ⟨hy, hnone⟩
  obtain ⟨pre', post, hch, -, hright⟩ := h.siblings hy
  rw [hnone] at hright
  rw [head?_eq_none_iff.mp hright.symm] at hch
  exact (List.cons.inj (append_inj' hch rfl).2).1.symm

/-- The right sibling of a leaf is one place further down the chain. -/
theorem Tree.idxOf_rightSibling [DecidableEq P] {a b : P}
    (hab : rightSibling σ a = some b) : ch.idxOf b = ch.idxOf a + 1 := by
  obtain ⟨pre, post, hch⟩ := (h.rightSibling_iff a b).mp hab
  have hnd := h.chain_nodup
  rw [hch] at hnd ⊢
  have hdis := (nodup_append.mp hnd).2.2
  have ha : a ∉ pre := fun hmem => hdis a hmem a mem_cons_self rfl
  have hb : b ∉ pre := fun hmem => hdis b hmem b (mem_cons_of_mem _ mem_cons_self) rfl
  have hne : a ≠ b := by
    rintro rfl
    exact (nodup_cons.mp (nodup_append.mp hnd).2.1).1 mem_cons_self
  rw [idxOf_append_of_notMem ha, idxOf_append_of_notMem hb, idxOf_cons_self,
    idxOf_cons_ne _ hne, idxOf_cons_self]

/-- Following right siblings leads back to no leaf. -/
theorem Tree.acyclic (a : P) :
    ¬ Relation.TransGen (fun x y => rightSibling σ x = some y) a a := by
  classical
  have hlt : ∀ {x y}, Relation.TransGen (fun x y => rightSibling σ x = some y) x y →
      ch.idxOf x < ch.idxOf y := by
    intro x y hxy
    induction hxy with
    | single hxy =>
      rw [h.idxOf_rightSibling hxy]
      exact Nat.lt_succ_self _
    | tail _ hyz ih =>
      rw [h.idxOf_rightSibling hyz]
      exact Nat.lt_succ_of_lt ih
  exact fun haa => lt_irrefl _ (hlt haa)

end

end Chain

/-! ### Bounds on the way to a page -/

section Order

variable [LinearOrder K]

/-- The first separator of a list of entries, or else `hi`. -/
def upper (hi : Option K) : List (Option K × P) → Option K
  | [] => hi
  | e :: _ => e.1

/-- The page can be reached from the root, and the separators on the way leave the keys from `lo`
on, up to `hi`. -/
inductive Within (σ : Store K V P) (root : P) : P → Option K → Option K → Prop
  | root : Within σ root root none none
  | first {p c : P} {lo hi : Option K} {es : List (Option K × P)} (h : Within σ root p lo hi)
      (hp : σ p = some (.inner ((none, c) :: es))) : Within σ root c lo (upper hi es)
  | next {p c : P} {lo hi : Option K} {s : K} {pre post : List (Option K × P)}
      (h : Within σ root p lo hi) (hp : σ p = some (.inner (pre ++ (some s, c) :: post))) :
      Within σ root c (some s) (upper hi post)

variable {B : P → Option K → Option K → Prop} {lo hi : Option K} {r : K → K → Prop}
  {e : Option K × P} {es : List (Option K × P)} {s : K} {σ : Store K V P} {n : ℕ} {p a : P}

theorem Kids.first (h : Kids B lo hi (e :: es)) : B e.2 lo (upper hi es) := by
  cases es with
  | nil => exact h
  | cons e' es =>
    obtain ⟨s, hs, -, -, hB, -⟩ := h
    show B e.2 lo e'.1
    rw [hs]
    exact hB

theorem Kids.next {c : P} {pre post : List (Option K × P)}
    (h : Kids B lo hi (e :: (pre ++ (some s, c) :: post))) : B c (some s) (upper hi post) := by
  induction pre generalizing lo e with
  | nil =>
    obtain ⟨t, ht, -, -, -, hrest⟩ := h
    cases ht
    exact hrest.first
  | cons e' pre ih =>
    obtain ⟨t, -, -, -, -, hrest⟩ := h
    exact ih hrest

/-- The keys below a page are within its bounds. -/
theorem Bounded.keys (hr : Mode r) (h : Bounded r σ n p lo hi) (hsh : Shape σ n p)
    (ha : a ∈ leaves σ n p) {x : K × V} (hx : x ∈ entriesAt σ a) :
    AtLeast lo x.1 ∧ Under r hi x.1 := by
  obtain ⟨c, es, hleaves, hkids, -⟩ := h.flat hsh
  rw [hleaves] at ha
  obtain ⟨e, he, rfl⟩ := mem_map.mp ha
  exact hkids.keys hr e he x hx

variable {σ : Store K V P} {n : ℕ} {root : P} {ch : List P}

theorem Ordered.bounded_within (ho : Ordered r σ n root ch) (h : Within σ root p lo hi) :
    ∃ m, Shape σ m p ∧ Bounded r σ m p lo hi := by
  induction h with
  | root => exact ⟨n, ho.shape, ho.bounded⟩
  | @first p c lo hi es h hp ih =>
    obtain ⟨m, hsh, hb⟩ := ih
    cases m with
    | zero => exact absurd hsh (not_isLeaf_inner hp)
    | succ m =>
      obtain ⟨es₀, hp₀, -, hkids⟩ := hsh
      obtain rfl := inner_inj hp hp₀
      obtain ⟨c₁, es₁, hp₁, hB⟩ := hb
      rw [hp] at hp₁
      obtain ⟨hc, rfl⟩ := List.cons.inj (Node.inner.inj (Option.some.inj hp₁))
      obtain rfl := (Prod.mk.inj hc).2
      exact ⟨m, hkids _ mem_cons_self, hB.first⟩
  | @next p c lo hi s pre post h hp ih =>
    obtain ⟨m, hsh, hb⟩ := ih
    cases m with
    | zero => exact absurd hsh (not_isLeaf_inner hp)
    | succ m =>
      obtain ⟨es₀, hp₀, -, hkids⟩ := hsh
      obtain rfl := inner_inj hp hp₀
      obtain ⟨c₁, es₁, hp₁, hB⟩ := hb
      rw [hp] at hp₁
      have hes := Node.inner.inj (Option.some.inj hp₁)
      refine ⟨m, hkids (some s, c) (mem_append_right _ mem_cons_self), ?_⟩
      cases pre with
      | nil => cases (Prod.mk.inj (List.cons.inj hes).1).1
      | cons e pre =>
        obtain ⟨-, rfl⟩ := List.cons.inj hes
        exact hB.next

/-- The keys below a page lie between the separators on the way to it. -/
theorem Ordered.within (hr : Mode r) (ho : Ordered r σ n root ch) {m : ℕ}
    (h : Within σ root p lo hi) (hsh : Shape σ m p) (ha : a ∈ leaves σ m p) {x : K × V}
    (hx : x ∈ entriesAt σ a) : AtLeast lo x.1 ∧ Under r hi x.1 := by
  obtain ⟨m', hsh', hb⟩ := ho.bounded_within h
  obtain rfl := hsh.unique hsh'
  exact hb.keys hr hsh ha hx

/-! ### Separators and keys increase -/

theorem Kids.separators (h : Kids B lo hi (e :: es)) :
    (es.filterMap Prod.fst).Pairwise (· < ·) ∧ ∀ t ∈ es.filterMap Prod.fst, Above lo t := by
  induction es generalizing lo e with
  | nil => exact ⟨List.Pairwise.nil, fun t ht => by cases ht⟩
  | cons e' es ih =>
    obtain ⟨s, hs, hlo, -, -, hrest⟩ := h
    obtain ⟨hinc, habove⟩ := ih hrest
    rw [filterMap_cons, hs]
    refine ⟨pairwise_cons.mpr ⟨fun t ht => habove t ht s rfl, hinc⟩, ?_⟩
    intro t ht
    rcases mem_cons.mp ht with rfl | ht
    · exact hlo
    · exact fun a ha => (hlo a ha).trans (habove t ht s rfl)

theorem Kids.of_mem (h : Kids B lo hi es) (he : e ∈ es) : ∃ lo' hi', B e.2 lo' hi' := by
  induction es generalizing lo with
  | nil => cases he
  | cons e' es ih =>
    rcases mem_cons.mp he with rfl | he
    · exact ⟨_, _, h.first⟩
    · cases es with
      | nil => cases he
      | cons e'' es =>
        obtain ⟨s, -, -, -, -, hrest⟩ := h
        exact ih hrest he

theorem Bounded.page {x : P} (h : Bounded r σ n p lo hi) (hsh : Shape σ n p) (hx : x ∈ pages σ n p) :
    ∃ m lo hi, Shape σ m x ∧ Bounded r σ m x lo hi := by
  induction n generalizing p lo hi with
  | zero =>
    rw [mem_singleton.mp hx]
    exact ⟨0, lo, hi, hsh, h⟩
  | succ n ih =>
    rw [pages, mem_cons, mem_flatMap] at hx
    rcases hx with rfl | ⟨c, hc, hx⟩
    · exact ⟨n + 1, lo, hi, hsh, h⟩
    · obtain ⟨es₀, hp₀, -, hes⟩ := hsh
      obtain ⟨c₀, es, hp, hkids⟩ := h
      obtain rfl := inner_inj hp hp₀
      rw [childrenAt_inner hp] at hc
      obtain ⟨e, he, rfl⟩ := mem_map.mp hc
      obtain ⟨lo', hi', hB⟩ := hkids.of_mem he
      exact ih hB (hes e he) hx

/-- The separators of every inner node increase. -/
theorem Ordered.separators (ho : Ordered r σ n root ch) (hp : σ p = some (.inner es)) :
    (es.filterMap Prod.fst).Pairwise (· < ·) := by
  have hmem := ho.all p (by simp [hp])
  obtain ⟨m, lo, hi, hsh, hB⟩ := ho.bounded.page ho.shape hmem
  cases m with
  | zero => exact absurd hsh (not_isLeaf_inner hp)
  | succ m =>
    obtain ⟨c, es', hp', hkids⟩ := hB
    obtain rfl := inner_inj hp hp'
    exact hkids.separators.1

/-- The keys of a list of leaves, each leaf read in order. -/
def keysAlong (σ : Store K V P) (ch : List P) : List K :=
  ch.flatMap (fun p => ((entriesAt σ p).map Prod.fst).sort (· ≤ ·))

omit [LinearOrder K] in
theorem entriesAt_le_content (hp : p ∈ ch) : entriesAt σ p ≤ content σ ch := by
  obtain ⟨pre, post, rfl⟩ := append_of_mem hp
  rw [content_append, content_cons, ← add_assoc, add_comm (content σ pre), add_assoc]
  exact Multiset.le_add_right _ _

/-- When no key is stored twice, the keys increase along the chain. -/
theorem Ordered.keys (ho : Ordered (· < ·) σ n root ch) (hnd : ((content σ ch).map Prod.fst).Nodup) :
    (keysAlong σ ch).Pairwise (· < ·) := by
  refine pairwise_flatMap.mpr ⟨fun p hp => ?_, ?_⟩
  · have hle : (entriesAt σ p).map Prod.fst ≤ (content σ ch).map Prod.fst :=
      Multiset.map_le_map (entriesAt_le_content hp)
    have hsort := Multiset.pairwise_sort ((entriesAt σ p).map Prod.fst) (· ≤ ·)
    have hne : (((entriesAt σ p).map Prod.fst).sort (· ≤ ·)).Nodup := by
      rw [← Multiset.coe_nodup, Multiset.sort_eq]
      exact Multiset.nodup_of_le hle hnd
    exact (hsort.and hne).imp (fun h => lt_of_le_of_ne h.1 h.2)
  · obtain ⟨c, es, hleaves, hkids, -⟩ := ho.bounded.flat ho.shape
    have hpair := hkids.pairwise Mode.lt
    rw [← hleaves, ← ho.order] at hpair
    refine hpair.imp (fun h x hx y hy => ?_)
    rw [Multiset.mem_sort] at hx hy
    obtain ⟨x', hx', rfl⟩ := Multiset.mem_map.mp hx
    obtain ⟨y', hy', rfl⟩ := Multiset.mem_map.mp hy
    exact h x' hx' y' hy'

/-! ### New cuts -/

/-- No two separators of the inner nodes are equal. -/
def DistinctSeparators (σ : Store K V P) : Prop :=
  (∀ p, (sepsAt σ p).Nodup) ∧ ∀ p q t, t ∈ sepsAt σ p → t ∈ sepsAt σ q → p = q

omit [LinearOrder K] in
theorem seps_eq_bind (h : Shape σ n p) :
    seps σ n p = (pages σ n p : Multiset P).bind (sepsAt σ) := by
  induction n generalizing p with
  | zero =>
    obtain ⟨l, r, es, hp⟩ := h
    have hzero : sepsAt σ p = 0 := by
      unfold sepsAt
      rw [hp]
    show 0 = Multiset.bind {p} (sepsAt σ)
    rw [Multiset.singleton_bind, hzero]
  | succ n ih =>
    obtain ⟨es, hp, -, hes⟩ := h
    have hsum : ∀ l : List P, (∀ c ∈ l, Shape σ n c) →
        (l.map (seps σ n)).sum = (l.flatMap (pages σ n) : Multiset P).bind (sepsAt σ) := by
      intro l hl
      induction l with
      | nil => rfl
      | cons c l ihl =>
        rw [map_cons, sum_cons, flatMap_cons, ← Multiset.coe_add,
          Multiset.add_bind, ih (hl c mem_cons_self),
          ihl (fun c' hc' => hl c' (mem_cons_of_mem _ hc'))]
    rw [seps, pages, ← Multiset.cons_coe, Multiset.cons_bind, hsum]
    intro c hc
    rw [childrenAt_inner hp] at hc
    obtain ⟨e, he, rfl⟩ := mem_map.mp hc
    exact hes e he

omit [LinearOrder K] in
theorem DistinctSeparators.nodup (h : DistinctSeparators σ) (ht : Tree σ n root ch) :
    (seps σ n root).Nodup := by
  rw [seps_eq_bind ht.shape, Multiset.nodup_bind]
  have hsymm : Std.Symm (Function.onFun Disjoint (sepsAt σ)) := ⟨fun p q hpq => hpq.symm⟩
  refine ⟨fun p _ => h.1 p, Multiset.pairwise_coe_iff_pairwise.mpr (ht.nodup.imp ?_)⟩
  intro p q hpq
  exact Multiset.disjoint_left.mpr (fun {t} htp htq => hpq (h.2 p q t htp htq))

variable [DecidableEq P] {k : K} {v : V} {σ' : Store K V P} {root root' : P}

/-- The cut of a split: the keys left of it are at most the cut, and it is a key on its right. -/
theorem LeafIns.cut {q : P} (h : LeafIns k v σ a σ' (some (s, q))) :
    (∀ x ∈ entriesAt σ' a, x.1 ≤ s) ∧ ∃ y ∈ entriesAt σ' q, y.1 = s := by
  cases h with
  | @split l r es xs ys q s ha hq hsum hxs hs hle hge =>
    have hqa : q ≠ a := ne_of_none hq ha
    rw [entriesAt_relink, entriesAt_relink, entriesAt_leaf (Function.update_self _ _ _)]
    refine ⟨hle, ?_⟩
    rw [entriesAt_leaf (show _ = some (Node.leaf (some a) r ys) by
      rw [Function.update_of_ne hqa, Function.update_self])]
    exact hs

theorem Insert.cut {q : P} (h : Insert k v σ root σ' root' a (some (s, q))) :
    (∀ x ∈ entriesAt σ' a, x.1 ≤ s) ∧ ∃ y ∈ entriesAt σ' q, y.1 = s := by
  cases h with
  | stay h =>
    obtain ⟨τ, hτ, -, hent⟩ := h.leafIns
    rw [hent, hent]
    exact hτ.cut
  | grow h hr =>
    obtain ⟨τ, hτ, -, hent⟩ := h.leafIns
    rw [entriesAt_update_inner (not_isLeaf_none hr), entriesAt_update_inner (not_isLeaf_none hr),
      hent, hent]
    exact hτ.cut

/-- The cut is new when no key is stored twice. -/
theorem Insert.newCut_lt {ch : List P} {new : Option (K × P)} (h : Insert k v σ root σ' root' a new)
    (ht : Tree σ n root ch) (hnd : (((k, v) ::ₘ content σ ch).map Prod.fst).Nodup) :
    NewCut (· < ·) σ' a none none (seps σ n root) new := by
  rintro s q rfl
  refine ⟨?_, Or.inl (fun _ _ => id)⟩
  obtain ⟨ha, ⟨n', ht', -⟩, hcontent⟩ := h.tree ht
  obtain ⟨hle, y, hy, hys⟩ := h.cut
  intro x hx
  refine lt_of_le_of_ne (hle x hx) (fun hxs => ?_)
  -- `x` and `y` are two entries with one key
  obtain ⟨pre, post, rfl, hpre, hpost⟩ := exists_split ha ht.chain_nodup
  have hgrow : growAt a (added (some (s, q))) (pre ++ a :: post) = pre ++ a :: q :: post :=
    growAt_split hpre hpost
  rw [← hcontent, hgrow, content_append, content_cons, content_cons, Multiset.map_add,
    Multiset.map_add, Multiset.map_add, Multiset.nodup_add] at hnd
  have hdis := (Multiset.nodup_add.mp hnd.2.1).2.2
  refine Multiset.disjoint_left.mp hdis (Multiset.mem_map_of_mem _ hx) ?_
  rw [hxs, ← hys]
  exact Multiset.mem_add.mpr (Or.inl (Multiset.mem_map_of_mem _ hy))

/-- The cut is new when the separators are distinct afterwards. -/
theorem Insert.newCut_le {ch : List P} {new : Option (K × P)} (h : Insert k v σ root σ' root' a new)
    (ht : Tree σ n root ch) (hd : DistinctSeparators σ') :
    NewCut (· ≤ ·) σ' a none none (seps σ n root) new := by
  rintro s q rfl
  refine ⟨h.cut.1, Or.inr ⟨(by simp), (by simp), ?_⟩⟩
  obtain ⟨-, ⟨n', ht', hseps⟩, -⟩ := h.tree ht
  have hnd := hd.nodup ht'
  rw [hseps, Multiset.nodup_add] at hnd
  exact Multiset.disjoint_left.mp hnd.2.2 (Multiset.mem_singleton_self s)

end Order

end BTree
