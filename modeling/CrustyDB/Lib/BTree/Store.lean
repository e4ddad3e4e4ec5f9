import Mathlib

/-! # B+trees in a store of pages

A store maps page ids to nodes: leaves, with a bag of entries and links to their neighbours, and
inner nodes, with a list of separators and children.  The first child of an inner node has no
separator.

`Ins k v σ p σ' out a new` says what an insertion below `p` may do to the store: `a` is the leaf it
reaches, `new` the separator and page of the leaf that a split of `a` adds, and `out` the separator
and page that `p` hands to its parent when it splits itself.  `Insert` is the insertion at the
root and `Erase` the removal of one entry; everything the library proves about a tree that changes
is proved from these three relations. -/

namespace BTree

open List

/-- A node of the tree. -/
inductive Node (K V P : Type) where
  | leaf (left right : Option P) (entries : Multiset (K × V))
  | inner (entries : List (Option K × P))

/-- The pages that hold a node. -/
abbrev Store (K V P : Type) := P → Option (Node K V P)

variable {K V P : Type}

/-! ### Leaves and entries -/

/-- The page holds a leaf. -/
def IsLeaf (σ : Store K V P) (p : P) : Prop := ∃ l r es, σ p = some (.leaf l r es)

/-- The entries of a leaf; other pages have none. -/
def entriesAt (σ : Store K V P) (p : P) : Multiset (K × V) :=
  match σ p with
  | some (.leaf _ _ es) => es
  | _ => 0

variable {σ : Store K V P} {p : P}

theorem entriesAt_leaf {l r : Option P} {es : Multiset (K × V)} (h : σ p = some (.leaf l r es)) :
    entriesAt σ p = es := by
  unfold entriesAt
  rw [h]

theorem entriesAt_congr {τ : Store K V P} (h : τ p = σ p) : entriesAt τ p = entriesAt σ p := by
  unfold entriesAt
  rw [h]

theorem leaf_inj {l r l' r' : Option P} {es es' : Multiset (K × V)} (h : σ p = some (.leaf l r es))
    (h' : σ p = some (.leaf l' r' es')) : l = l' ∧ r = r' ∧ es = es' :=
  Node.leaf.inj (Option.some.inj (h.symm.trans h'))

theorem inner_inj {es es' : List (Option K × P)} (h : σ p = some (.inner es))
    (h' : σ p = some (.inner es')) : es = es' :=
  Node.inner.inj (Option.some.inj (h.symm.trans h'))

theorem ne_of_none {q : P} {nd : Node K V P} (hq : σ q = none) (hp : σ p = some nd) : q ≠ p := by
  rintro rfl
  rw [hp] at hq
  cases hq

/-- The entries of a list of leaves. -/
def content (σ : Store K V P) (ls : List P) : Multiset (K × V) := (ls.map (entriesAt σ)).sum

theorem content_cons (σ : Store K V P) (p : P) (ls : List P) :
    content σ (p :: ls) = entriesAt σ p + content σ ls := by
  unfold content
  rw [map_cons, sum_cons]

theorem content_append (σ : Store K V P) (ls ls' : List P) :
    content σ (ls ++ ls') = content σ ls + content σ ls' := by
  unfold content
  rw [map_append, sum_append]

variable {ls : List P}

theorem content_congr {τ : Store K V P} (h : ∀ p ∈ ls, entriesAt τ p = entriesAt σ p) :
    content τ ls = content σ ls := by
  unfold content
  rw [map_congr_left h]

theorem content_perm {ls' : List P} (h : ls.Perm ls') :
    content σ ls = content σ ls' := (h.map _).sum_eq

theorem mem_content {x : K × V} : x ∈ content σ ls ↔ ∃ p ∈ ls, x ∈ entriesAt σ p := by
  induction ls with
  | nil => simp [content]
  | cons p ls ih => rw [content_cons, Multiset.mem_add, ih, exists_mem_cons_iff]

/-! ### Kinds of pages -/

/-- The children of an inner node, `none` for a leaf: what the shape of the tree depends on. -/
def Node.kids : Node K V P → Option (List (Option K × P))
  | leaf _ _ _ => none
  | inner es => some es

/-- The kind of node a page holds, with the children of an inner node. -/
def kindAt (σ : Store K V P) (p : P) : Option (Option (List (Option K × P))) := (σ p).map Node.kids

theorem kindAt_leaf : kindAt σ p = some none ↔ IsLeaf σ p := by
  unfold kindAt IsLeaf
  cases h : σ p with
  | none => simp
  | some nd => cases nd <;> simp [Node.kids]

theorem kindAt_inner {es : List (Option K × P)} :
    kindAt σ p = some (some es) ↔ σ p = some (.inner es) := by
  unfold kindAt
  cases h : σ p with
  | none => simp
  | some nd => cases nd <;> simp [Node.kids]

/-- A page of the same kind as an inner node has its entries. -/
theorem inner_of_kindAt {σ' : Store K V P} {es : List (Option K × P)} (h : kindAt σ' p = kindAt σ p)
    (hp : σ p = some (.inner es)) : σ' p = some (.inner es) :=
  kindAt_inner.mp (h.trans (kindAt_inner.mpr hp))

theorem kindAt_none : kindAt σ p = none ↔ σ p = none := by
  unfold kindAt
  rw [Option.map_eq_none_iff]

/-! ### Routing -/

section Routing

variable [LinearOrder K]

/-- The order of separators: an absent one comes first. -/
def SepLe : Option K → Option K → Prop
  | none, _ => True
  | some _, none => False
  | some a, some b => a ≤ b

instance : DecidableRel (SepLe (K := K)) := by
  intro a b
  cases a <;> cases b <;> unfold SepLe <;> infer_instance

theorem SepLe.total (a b : Option K) : SepLe a b ∨ SepLe b a := by
  cases a with
  | none => exact Or.inl trivial
  | some a =>
    cases b with
    | none => exact Or.inr trivial
    | some b => exact le_total a b

theorem SepLe.trans {a b c : Option K} (h : SepLe a b) (h' : SepLe b c) : SepLe a c := by
  cases a with
  | none => exact trivial
  | some a =>
    cases b with
    | none => exact h.elim
    | some b =>
      cases c with
      | none => exact h'.elim
      | some c => exact @le_trans K _ _ _ _ h h'

/-- The last child whose separator is not above `k`, starting from `c`. -/
def routeFrom (k : K) : P → List (Option K × P) → P
  | c, [] => c
  | _, (none, c') :: es => routeFrom k c' es
  | c, (some s, c') :: es => if s ≤ k then routeFrom k c' es else c

/-- The child to follow for `k`. -/
def route (k : K) : List (Option K × P) → Option P
  | [] => none
  | (s, c) :: es => some (routeFrom k c ((s, c) :: es))

/-- Insert a child after all those whose separator is not above its own. -/
def insertEntry (e : Option K × P) : List (Option K × P) → List (Option K × P)
  | [] => [e]
  | a :: es => if SepLe a.1 e.1 then a :: insertEntry e es else e :: a :: es

theorem insertEntry_perm (e : Option K × P) (es : List (Option K × P)) :
    (insertEntry e es).Perm (e :: es) := by
  induction es with
  | nil => exact List.Perm.refl _
  | cons a es ih =>
    unfold insertEntry
    split_ifs
    · exact (ih.cons a).trans (List.Perm.swap e a es)
    · exact List.Perm.refl _

theorem insertEntry_ne_nil (e : Option K × P) (es : List (Option K × P)) : insertEntry e es ≠ [] := by
  intro h
  have := (insertEntry_perm e es).length_eq
  rw [h] at this
  simp at this

theorem routeFrom_mem (k : K) (c : P) (es : List (Option K × P)) :
    routeFrom k c es = c ∨ ∃ e ∈ es, e.2 = routeFrom k c es := by
  induction es generalizing c with
  | nil => exact Or.inl rfl
  | cons a es ih =>
    have hrec : routeFrom k a.2 es = a.2 ∨ ∃ e ∈ es, e.2 = routeFrom k a.2 es := ih a.2
    have hmem : ∃ e ∈ a :: es, e.2 = routeFrom k a.2 es := by
      rcases hrec with h | ⟨e, he, h⟩
      · exact ⟨a, mem_cons_self, h.symm⟩
      · exact ⟨e, mem_cons_of_mem _ he, h⟩
    obtain ⟨s, c'⟩ := a
    cases s with
    | none => exact Or.inr hmem
    | some s =>
      unfold routeFrom
      split_ifs
      · exact Or.inr hmem
      · exact Or.inl rfl

/-- The child followed is a child. -/
theorem route_mem {k : K} {es : List (Option K × P)} {c : P} (h : route k es = some c) :
    ∃ e ∈ es, e.2 = c := by
  cases es with
  | nil => cases h
  | cons a es =>
    obtain ⟨s, c₀⟩ := a
    have hc := Option.some.inj h
    rcases routeFrom_mem k c₀ ((s, c₀) :: es) with h0 | ⟨e, he, h0⟩
    · exact ⟨(s, c₀), mem_cons_self, h0.symm.trans hc⟩
    · exact ⟨e, he, h0.trans hc⟩

end Routing

/-! ### Changes of the store -/

variable [DecidableEq P]

/-- Point the left link of the leaf `r`, if there is one, at `q`. -/
def relink (σ : Store K V P) (r : Option P) (q : P) : Store K V P :=
  match r with
  | none => σ
  | some r =>
    match σ r with
    | some (.leaf _ r' es) => Function.update σ r (some (.leaf (some q) r' es))
    | _ => σ

/-- What an insertion does to the leaf `a`: the entry is added, or the leaf is split and a new leaf
with its greater half is linked in on its right. -/
inductive LeafIns [LinearOrder K] (k : K) (v : V) (σ : Store K V P) (a : P) :
    Store K V P → Option (K × P) → Prop
  | add {l r : Option P} {es : Multiset (K × V)} (ha : σ a = some (.leaf l r es)) :
      LeafIns k v σ a (Function.update σ a (some (.leaf l r ((k, v) ::ₘ es)))) none
  | split {l r : Option P} {es xs ys : Multiset (K × V)} {q : P} {s : K}
      (ha : σ a = some (.leaf l r es)) (hq : σ q = none) (hsum : (k, v) ::ₘ es = xs + ys)
      (hxs : xs ≠ 0) (hs : ∃ y ∈ ys, y.1 = s) (hle : ∀ x ∈ xs, x.1 ≤ s) (hge : ∀ y ∈ ys, s ≤ y.1) :
      LeafIns k v σ a
        (relink (Function.update (Function.update σ q (some (.leaf (some a) r ys))) a
          (some (.leaf l (some q) xs))) r q) (some (s, q))

/-- What an insertion below `p` does. -/
inductive Ins [LinearOrder K] (k : K) (v : V) :
    Store K V P → P → Store K V P → Option (K × P) → P → Option (K × P) → Prop
  | leaf {σ σ' : Store K V P} {a : P} {new : Option (K × P)} (h : LeafIns k v σ a σ' new) :
      Ins k v σ a σ' new a new
  | pass {σ σ' : Store K V P} {p c a : P} {es : List (Option K × P)} {new : Option (K × P)}
      (hp : σ p = some (.inner es)) (hc : route k es = some c) (h : Ins k v σ c σ' none a new) :
      Ins k v σ p σ' none a new
  | add {σ σ' : Store K V P} {p c a q : P} {s : K} {es es' : List (Option K × P)}
      {new : Option (K × P)} (hp : σ p = some (.inner es)) (hc : route k es = some c)
      (h : Ins k v σ c σ' (some (s, q)) a new) (hp' : σ' p = some (.inner es')) :
      Ins k v σ p (Function.update σ' p (some (.inner (insertEntry (some s, q) es')))) none a new
  | split {σ σ' : Store K V P} {p c a q q' m : P} {s t : K} {es es' ls rs : List (Option K × P)}
      {new : Option (K × P)} (hp : σ p = some (.inner es)) (hc : route k es = some c)
      (h : Ins k v σ c σ' (some (s, q)) a new) (hp' : σ' p = some (.inner es'))
      (hsplit : insertEntry (some s, q) es' = ls ++ (some t, m) :: rs) (hls : ls ≠ [])
      (hq' : σ' q' = none) :
      Ins k v σ p (Function.update (Function.update σ' q' (some (.inner ((none, m) :: rs)))) p
        (some (.inner ls))) (some (t, q')) a new

/-- What an insertion into the tree at `root` does; a split of the root puts a new one over it. -/
inductive Insert [LinearOrder K] (k : K) (v : V) (σ : Store K V P) (root : P) :
    Store K V P → P → P → Option (K × P) → Prop
  | stay {σ' : Store K V P} {a : P} {new : Option (K × P)} (h : Ins k v σ root σ' none a new) :
      Insert k v σ root σ' root a new
  | grow {σ' : Store K V P} {a q r : P} {s : K} {new : Option (K × P)}
      (h : Ins k v σ root σ' (some (s, q)) a new) (hr : σ' r = none) :
      Insert k v σ root (Function.update σ' r (some (.inner [(none, root), (some s, q)]))) r a new

/-- What the removal of an entry from the leaf `a` does. -/
inductive Erase (k : K) (v : V) (σ : Store K V P) (a : P) : Store K V P → Prop
  | mk {l r : Option P} {es : Multiset (K × V)} (ha : σ a = some (.leaf l r ((k, v) ::ₘ es))) :
      Erase k v σ a (Function.update σ a (some (.leaf l r es)))

/-! ### What stays a leaf -/

variable {x : P}

theorem relink_of_ne {r : Option P} {q : P} (h : r ≠ some x) : relink σ r q x = σ x := by
  unfold relink
  cases r with
  | none => rfl
  | some r =>
    have hx : x ≠ r := fun hx => h (congrArg some hx.symm)
    cases hr : σ r with
    | none => simp only [hr]
    | some nd =>
      cases nd with
      | leaf l r' es =>
        simp only [hr]
        exact Function.update_of_ne hx _ _
      | inner es => simp only [hr]

theorem relink_leaf {q : P} {l r' : Option P} {es : Multiset (K × V)}
    (h : σ x = some (.leaf l r' es)) : relink σ (some x) q x = some (.leaf (some q) r' es) := by
  unfold relink
  simp only [h]
  exact Function.update_self _ _ _

theorem entriesAt_relink (σ : Store K V P) (r : Option P) (q x : P) :
    entriesAt (relink σ r q) x = entriesAt σ x := by
  by_cases h : r = some x
  · subst h
    cases hx : σ x with
    | none =>
      unfold relink
      simp only [hx]
    | some nd =>
      cases nd with
      | leaf l r' es => rw [entriesAt_leaf (relink_leaf hx), entriesAt_leaf hx]
      | inner es =>
        unfold relink
        simp only [hx]
  · exact entriesAt_congr (relink_of_ne h)

theorem kindAt_relink (σ : Store K V P) (r : Option P) (q x : P) :
    kindAt (relink σ r q) x = kindAt σ x := by
  by_cases h : r = some x
  · subst h
    cases hx : σ x with
    | none =>
      unfold relink
      simp only [hx]
    | some nd =>
      cases nd with
      | leaf l r' es =>
        unfold kindAt
        rw [relink_leaf hx, hx]
        rfl
      | inner es =>
        unfold relink
        simp only [hx]
  · unfold kindAt
    rw [relink_of_ne h]

theorem kindAt_update_ne {nd : Option (Node K V P)} (h : x ≠ p) :
    kindAt (Function.update σ p nd) x = kindAt σ x := by
  unfold kindAt
  rw [Function.update_of_ne h]

theorem kindAt_update_self {nd : Node K V P} :
    kindAt (Function.update σ p (some nd)) p = some nd.kids := by
  unfold kindAt
  rw [Function.update_self]
  rfl

/-- An insertion into a leaf changes the kind of no page but the new one. -/
theorem LeafIns.kindAt_eq [LinearOrder K] {k : K} {v : V} {σ' : Store K V P} {a : P}
    {new : Option (K × P)} (h : LeafIns k v σ a σ' new) (hx : σ x ≠ none) :
    kindAt σ' x = kindAt σ x := by
  cases h with
  | @add l r es ha =>
    by_cases hxa : x = a
    · subst hxa
      rw [kindAt_update_self, kindAt_leaf.mpr ⟨l, r, es, ha⟩]
      rfl
    · rw [kindAt_update_ne hxa]
  | @split l r es xs ys q s ha hq =>
    rw [kindAt_relink]
    by_cases hxa : x = a
    · subst hxa
      rw [kindAt_update_self, kindAt_leaf.mpr ⟨l, r, es, ha⟩]
      rfl
    · have hxq : x ≠ q := fun hxq => hx (hxq ▸ hq)
      rw [kindAt_update_ne hxa, kindAt_update_ne hxq]

end BTree
