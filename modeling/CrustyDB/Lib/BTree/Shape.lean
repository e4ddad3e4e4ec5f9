import CrustyDB.Lib.BTree.Store

/-! # The shape of a tree and how it grows

`Shape σ n p`: below `p` every path has length `n` and ends in a leaf.  `pages` and `leaves` list
the pages and the leaves below a node in the order of the children.

An insertion below `p` leaves one or two trees in the place of the one at `p`; `Grown` says that
they are in shape and that their pages and leaves are the old ones and the new ones.
`Ins.grown` proves it for every insertion, the inner nodes by the single rule `Grown.inner`. -/

namespace BTree

open List Function Option

variable {K V P : Type}

/-! ### Pages and leaves below a node -/

/-- Every path from `p` has length `n` and ends in a leaf. -/
def Shape (σ : Store K V P) : ℕ → P → Prop
  | 0, p => IsLeaf σ p
  | n + 1, p => ∃ es, σ p = some (.inner es) ∧ es ≠ [] ∧ ∀ e ∈ es, Shape σ n e.2

/-- The children of a node. -/
def childrenAt (σ : Store K V P) (p : P) : List P :=
  match σ p with
  | some (.inner es) => es.map Prod.snd
  | _ => []

/-- The pages below `p`, itself included. -/
def pages (σ : Store K V P) : ℕ → P → List P
  | 0, p => [p]
  | n + 1, p => p :: (childrenAt σ p).flatMap (pages σ n)

/-- The leaves below `p`. -/
def leaves (σ : Store K V P) : ℕ → P → List P
  | 0, p => [p]
  | n + 1, p => (childrenAt σ p).flatMap (leaves σ n)

variable {σ τ : Store K V P} {p x : P} {es : List (Option K × P)} {n : ℕ}

theorem childrenAt_inner (h : σ p = some (.inner es)) : childrenAt σ p = es.map Prod.snd := by
  unfold childrenAt
  rw [h]

theorem childrenAt_congr (h : kindAt τ p = kindAt σ p) : childrenAt τ p = childrenAt σ p := by
  unfold childrenAt
  unfold kindAt at h
  cases hs : σ p with
  | none =>
    rw [hs, map_none, map_eq_none_iff] at h
    rw [h]
  | some nd =>
    rw [hs, map_some, map_eq_some_iff] at h
    obtain ⟨nd', hnd', hk⟩ := h
    rw [hnd']
    cases nd <;> cases nd' <;> simp_all [Node.kids]

theorem mem_pages_self (σ : Store K V P) (n : ℕ) (p : P) : p ∈ pages σ n p := by
  cases n with
  | zero => exact mem_singleton_self p
  | succ n => exact mem_cons_self

theorem Shape.ne_none (h : Shape σ n p) (hx : x ∈ pages σ n p) : σ x ≠ none := by
  induction n generalizing p with
  | zero =>
    obtain ⟨l, r, es, hp⟩ := h
    rw [mem_singleton.mp hx, hp]
    exact some_ne_none _
  | succ n ih =>
    obtain ⟨es, hp, -, hes⟩ := h
    rw [pages, mem_cons, mem_flatMap, childrenAt_inner hp] at hx
    rcases hx with rfl | ⟨c, hc, hx⟩
    · simp [hp]
    · obtain ⟨e, he, rfl⟩ := mem_map.mp hc
      exact ih (hes e he) hx

theorem Shape.leaves_ne_nil (h : Shape σ n p) : leaves σ n p ≠ [] := by
  induction n generalizing p with
  | zero => exact cons_ne_nil _ _
  | succ n ih =>
    obtain ⟨es, hp, hne, hes⟩ := h
    obtain ⟨e, es', rfl⟩ := exists_cons_of_ne_nil hne
    rw [leaves, childrenAt_inner hp, map_cons, flatMap_cons]
    exact append_ne_nil_of_left_ne_nil (ih (hes e mem_cons_self)) _

/-- The separators of an inner node. -/
def sepsAt (σ : Store K V P) (p : P) : Multiset K :=
  match σ p with
  | some (.inner es) => (es.filterMap Prod.fst : List K)
  | _ => 0

/-- The separators below `p`. -/
def seps (σ : Store K V P) : ℕ → P → Multiset K
  | 0, _ => 0
  | n + 1, p => sepsAt σ p + ((childrenAt σ p).map (seps σ n)).sum

theorem sepsAt_inner (h : σ p = some (.inner es)) :
    sepsAt σ p = (es.filterMap Prod.fst : List K) := by
  unfold sepsAt
  rw [h]

theorem sepsAt_congr (h : kindAt τ p = kindAt σ p) : sepsAt τ p = sepsAt σ p := by
  unfold sepsAt
  unfold kindAt at h
  cases hs : σ p with
  | none =>
    rw [hs, map_none, map_eq_none_iff] at h
    rw [h]
  | some nd =>
    rw [hs, map_some, map_eq_some_iff] at h
    obtain ⟨nd', hnd', hk⟩ := h
    rw [hnd']
    cases nd <;> cases nd' <;> simp_all [Node.kids]

/-- Two stores with the same kinds of pages below `p` have the same tree there. -/
theorem tree_congr (h : ∀ x ∈ pages σ n p, kindAt τ x = kindAt σ x) :
    pages τ n p = pages σ n p ∧ leaves τ n p = leaves σ n p ∧ (Shape σ n p → Shape τ n p) ∧
      seps τ n p = seps σ n p := by
  induction n generalizing p with
  | zero =>
    refine ⟨rfl, rfl, fun hs => ?_, rfl⟩
    have hp := h p (mem_singleton_self p)
    exact kindAt_leaf.mp (hp.trans (kindAt_leaf.mpr hs))
  | succ n ih =>
    have hp := h p (mem_pages_self σ (n + 1) p)
    have hc := childrenAt_congr hp
    have hsub : ∀ c ∈ childrenAt σ p, ∀ x ∈ pages σ n c, kindAt τ x = kindAt σ x := by
      intro c hcm x hx
      exact h x (mem_cons_of_mem _ (mem_flatMap.mpr ⟨c, hcm, hx⟩))
    refine ⟨?_, ?_, ?_, ?_⟩
    · rw [pages, pages, hc]
      congr 1
      exact flatMap_congr (fun c hcm => (ih (hsub c hcm)).1)
    · rw [leaves, leaves, hc]
      exact flatMap_congr (fun c hcm => (ih (hsub c hcm)).2.1)
    · rintro ⟨es, hes, hne, hsh⟩
      refine ⟨es, inner_of_kindAt hp hes, hne, fun e he => ?_⟩
      refine (ih (hsub e.2 ?_)).2.2.1 (hsh e he)
      rw [childrenAt_inner hes]
      exact mem_map_of_mem he
    · rw [seps, seps, hc, sepsAt_congr hp]
      congr 2
      exact map_congr_left (fun c hcm => (ih (hsub c hcm)).2.2.2)

/-- A page with an inner node is not at the bottom. -/
theorem Shape.succ_of_inner (h : Shape σ n p) (hp : σ p = some (.inner es)) : ∃ m, n = m + 1 := by
  cases n with
  | zero =>
    obtain ⟨l, r, es', hp'⟩ := h
    rw [hp] at hp'
    cases hp'
  | succ m => exact ⟨m, rfl⟩

/-- A page with a leaf is at the bottom. -/
theorem Shape.zero_of_leaf (h : Shape σ n p) (hp : IsLeaf σ p) : n = 0 := by
  cases n with
  | zero => rfl
  | succ m =>
    obtain ⟨es, he, -⟩ := h
    obtain ⟨l, r, es', hl⟩ := hp
    rw [he] at hl
    cases hl

theorem mem_seps_succ {s : K} :
    s ∈ seps σ (n + 1) p ↔ s ∈ sepsAt σ p ∨ ∃ c ∈ childrenAt σ p, s ∈ seps σ n c := by
  have hsum : ∀ l : List P, s ∈ (l.map (seps σ n)).sum ↔ ∃ c ∈ l, s ∈ seps σ n c := by
    intro l
    induction l with
    | nil => simp
    | cons c l ih => rw [map_cons, sum_cons, Multiset.mem_add, ih, exists_mem_cons_iff]
  rw [seps, Multiset.mem_add, hsum]

/-- A page of the tree that is a leaf is one of its leaves. -/
theorem mem_leaves_of_isLeaf (h : Shape σ n p) (hx : x ∈ pages σ n p) (hleaf : IsLeaf σ x) :
    x ∈ leaves σ n p := by
  induction n generalizing p with
  | zero => exact hx
  | succ n ih =>
    obtain ⟨es, hp, -, hes⟩ := h
    rw [pages, childrenAt_inner hp, mem_cons, mem_flatMap] at hx
    rw [leaves, childrenAt_inner hp, mem_flatMap]
    rcases hx with rfl | ⟨c, hc, hx⟩
    · obtain ⟨l, r, es', hl⟩ := hleaf
      rw [hp] at hl
      cases hl
    · obtain ⟨e, he, rfl⟩ := mem_map.mp hc
      exact ⟨e.2, hc, ih (hes e he) hx⟩

/-- The height of a tree is determined by the store. -/
theorem Shape.unique {m : ℕ} (h : Shape σ n p) (h' : Shape σ m p) : n = m := by
  induction n generalizing m p with
  | zero => exact (h'.zero_of_leaf h).symm
  | succ n ih =>
    obtain ⟨es, hp, hne, hes⟩ := h
    obtain ⟨m, rfl⟩ := h'.succ_of_inner hp
    obtain ⟨es', hp', -, hes'⟩ := h'
    obtain rfl := inner_inj hp hp'
    obtain ⟨e, he⟩ := exists_mem_of_ne_nil es hne
    rw [ih (hes e he) (hes' e he)]

/-! ### A row of inner nodes -/

section Nodes

variable {σ : Store K V P} {ns : List (P × List (Option K × P))}
  (hin : ∀ x ∈ ns, σ x.1 = some (.inner x.2))
include hin

theorem pages_nodes (n : ℕ) : ((ns.map Prod.fst).flatMap (pages σ (n + 1))).Perm
    (ns.map Prod.fst ++ (ns.flatMap (fun x => x.2.map Prod.snd)).flatMap (pages σ n)) := by
  induction ns with
  | nil => exact List.Perm.refl _
  | cons x ns ih =>
    have ih' := ih (fun y hy => hin y (mem_cons_of_mem _ hy))
    rw [map_cons, flatMap_cons, flatMap_cons, flatMap_append,
      pages, childrenAt_inner (hin x mem_cons_self), cons_append, cons_append]
    refine List.Perm.cons _ ?_
    refine (ih'.append_left _).trans ?_
    rw [← append_assoc, ← append_assoc]
    exact (perm_append_comm).append_right _

theorem leaves_nodes (n : ℕ) : (ns.map Prod.fst).flatMap (leaves σ (n + 1)) =
    (ns.flatMap (fun x => x.2.map Prod.snd)).flatMap (leaves σ n) := by
  rw [flatMap_map, flatMap_assoc]
  refine flatMap_congr (fun x hx => ?_)
  rw [leaves, childrenAt_inner (hin x hx)]

theorem seps_nodes (n : ℕ) : ((ns.map Prod.fst).map (seps σ (n + 1))).sum =
    (ns.map (fun x => ((x.2.filterMap Prod.fst : List K) : Multiset K))).sum +
      ((ns.flatMap (fun x => x.2.map Prod.snd)).map (seps σ n)).sum := by
  induction ns with
  | nil => rfl
  | cons x ns ih =>
    have ih' := ih (fun y hy => hin y (mem_cons_of_mem _ hy))
    have hx := hin x mem_cons_self
    simp only [map_cons, sum_cons, flatMap_cons, map_append,
      sum_append, seps, childrenAt_inner hx, sepsAt_inner hx] at ih' ⊢
    rw [ih']
    exact add_add_add_comm _ _ _ _

end Nodes

/-! ### Growth -/

/-- The trees `ts` of `σ'` stand in the place of the tree at `p` in `σ`: their pages are those of
`p` and the pages `fresh`, their leaves those of `p` and the leaves `new`; with the separators `up`
that are handed to the parent, their separators are those of `p` and the separators `cut`. -/
structure Grown (σ σ' : Store K V P) (n : ℕ) (p : P) (ts fresh new : List P)
    (up cut : Multiset K) : Prop where
  shape : ∀ t ∈ ts, Shape σ' n t
  fresh_none : ∀ x ∈ fresh, σ x = none
  dom : ∀ x, σ' x ≠ none ↔ σ x ≠ none ∨ x ∈ fresh
  nodup : fresh.Nodup
  pages : (ts.flatMap (pages σ' n)).Perm (fresh ++ pages σ n p)
  leaves : (ts.flatMap (leaves σ' n)).Perm (new ++ leaves σ n p)
  seps : (ts.map (seps σ' n)).sum + up = cut + seps σ n p
  frame : ∀ x, x ∉ BTree.pages σ n p → σ x ≠ none → kindAt σ' x = kindAt σ x

namespace Grown

theorem not_mem {σ σ' : Store K V P} {n : ℕ} {p x : P} {ts fresh new : List P}
    {up cut : Multiset K} (h : Grown σ σ' n p ts fresh new up cut) (hx : σ x ≠ none)
    (hp : x ∉ BTree.pages σ n p) :
    ∀ t ∈ ts, x ∉ BTree.pages σ' n t := by
  intro t ht hxt
  have hmem := h.pages.mem_iff.mp (mem_flatMap.mpr ⟨t, ht, hxt⟩)
  rcases mem_append.mp hmem with hf | hf
  · exact hx (h.fresh_none x hf)
  · exact hp hf

/-- The rule for inner nodes.  The child `c` of `p` has been replaced by the trees `ts`; the
children of `p` are dealt out to the nodes `ns`, the first of which is `p` and the others new. -/
theorem inner {σ σ₁ σ' : Store K V P} {n : ℕ} {p c : P} {es : List (Option K × P)}
    {ts fresh new rest : List P} {up up' cut : Multiset K}
    (h : Grown σ σ₁ n c ts fresh new up cut) (qs : List P)
    (ns : List (P × List (Option K × P))) (hp : σ p = some (.inner es))
    (hsh : ∀ e ∈ es, Shape σ n e.2) (hnd : (BTree.pages σ (n + 1) p).Nodup)
    (hes : (es.map Prod.snd).Perm (c :: rest)) (hns : ns.map Prod.fst = p :: qs)
    (hqs : ∀ q ∈ qs, σ₁ q = none) (hqnd : qs.Nodup)
    (hkids : (ns.flatMap (fun x => x.2.map Prod.snd)).Perm (ts ++ rest))
    (hseps : (ns.map (fun x => ((x.2.filterMap Prod.fst : List K) : Multiset K))).sum + up' =
      up + (es.filterMap Prod.fst : List K))
    (hin : ∀ x ∈ ns, σ' x.1 = some (.inner x.2) ∧ x.2 ≠ [])
    (hout : ∀ x, x ≠ p → x ∉ qs → σ' x = σ₁ x) :
    Grown σ σ' (n + 1) p (p :: qs) (qs ++ fresh) new up' cut := by
  have hpnone : σ p ≠ none := by
    simp [hp]
  have hpages : (BTree.pages σ (n + 1) p).Perm
      (p :: (BTree.pages σ n c ++ rest.flatMap (BTree.pages σ n))) := by
    rw [BTree.pages, childrenAt_inner hp]
    exact (hes.flatMap_right _).cons p
  have hleaves : (BTree.leaves σ (n + 1) p).Perm
      (BTree.leaves σ n c ++ rest.flatMap (BTree.leaves σ n)) := by
    rw [BTree.leaves, childrenAt_inner hp]
    exact hes.flatMap_right _
  have hnd' := hpages.nodup_iff.mp hnd
  obtain ⟨hpc, hnd''⟩ := nodup_cons.mp hnd'
  rw [mem_append, not_or] at hpc
  have hshr : ∀ t ∈ rest, Shape σ n t := by
    intro t ht
    have : t ∈ es.map Prod.snd := hes.mem_iff.mpr (mem_cons_of_mem _ ht)
    obtain ⟨e, he, rfl⟩ := mem_map.mp this
    exact hsh e he
  -- the other children have not changed so far
  have hrest₁ : ∀ t ∈ rest, BTree.pages σ₁ n t = BTree.pages σ n t ∧
      BTree.leaves σ₁ n t = BTree.leaves σ n t ∧ (Shape σ n t → Shape σ₁ n t) ∧
      BTree.seps σ₁ n t = BTree.seps σ n t := by
    intro t ht
    refine tree_congr (fun x hx => h.frame x ?_ ((hshr t ht).ne_none hx))
    intro hxc
    exact disjoint_of_nodup_append hnd'' hxc (mem_flatMap.mpr ⟨t, ht, hx⟩)
  have hsh₁ : ∀ t ∈ ts ++ rest, Shape σ₁ n t := by
    intro t ht
    rcases mem_append.mp ht with ht | ht
    · exact h.shape t ht
    · exact (hrest₁ t ht).2.2.1 (hshr t ht)
  -- the nodes being written are not below the children
  have hp₁ : ∀ t ∈ ts ++ rest, p ∉ BTree.pages σ₁ n t := by
    intro t ht
    rcases mem_append.mp ht with ht | ht
    · exact h.not_mem hpnone hpc.1 t ht
    · rw [(hrest₁ t ht).1]
      exact fun hx => hpc.2 (mem_flatMap.mpr ⟨t, ht, hx⟩)
  have hsame : ∀ t ∈ ts ++ rest, BTree.pages σ' n t = BTree.pages σ₁ n t ∧
      BTree.leaves σ' n t = BTree.leaves σ₁ n t ∧ (Shape σ₁ n t → Shape σ' n t) ∧
      BTree.seps σ' n t = BTree.seps σ₁ n t := by
    intro t ht
    refine tree_congr (fun x hx => ?_)
    have hxp : x ≠ p := fun hxp => hp₁ t ht (hxp ▸ hx)
    have hxq : x ∉ qs := fun hxq => (hsh₁ t ht).ne_none hx (hqs x hxq)
    unfold kindAt
    rw [hout x hxp hxq]
  have hkid : ∀ x ∈ ns, ∀ t ∈ x.2.map Prod.snd, t ∈ ts ++ rest := by
    intro x hx t ht
    exact hkids.mem_iff.mp (mem_flatMap.mpr ⟨x, hx, ht⟩)
  refine ⟨?_, ?_, ?_, ?_, ?_, ?_, ?_, ?_⟩
  · intro t ht
    rw [← hns] at ht
    obtain ⟨x, hx, rfl⟩ := mem_map.mp ht
    refine ⟨x.2, (hin x hx).1, (hin x hx).2, fun e he => ?_⟩
    have hmem := hkid x hx e.2 (mem_map_of_mem he)
    exact (hsame _ hmem).2.2.1 (hsh₁ _ hmem)
  · intro x hx
    rcases mem_append.mp hx with hx | hx
    · by_contra hne
      exact (h.dom x).mpr (Or.inl hne) (hqs x hx)
    · exact h.fresh_none x hx
  · intro x
    by_cases hxn : x ∈ p :: qs
    · have hx' : σ' x ≠ none := by
        rw [← hns] at hxn
        obtain ⟨y, hy, rfl⟩ := mem_map.mp hxn
        rw [(hin y hy).1]
        exact some_ne_none _
      refine ⟨fun _ => ?_, fun _ => hx'⟩
      rcases mem_cons.mp hxn with rfl | hxq
      · exact Or.inl hpnone
      · exact Or.inr (mem_append_left _ hxq)
    · rw [mem_cons, not_or] at hxn
      rw [hout x hxn.1 hxn.2, h.dom, mem_append]
      tauto
  · refine nodup_append'.mpr ⟨hqnd, h.nodup, ?_⟩
    intro x hxq hxf
    exact (h.dom x).mpr (Or.inr hxf) (hqs x hxq)
  · -- the pages of the nodes, then those of the children
    have h1 := pages_nodes (fun x hx => (hin x hx).1) n
    rw [hns] at h1
    have h2 : ((ns.flatMap (fun x => x.2.map Prod.snd)).flatMap (BTree.pages σ' n)).Perm
        ((ts ++ rest).flatMap (BTree.pages σ' n)) := hkids.flatMap_right _
    have h3 : (ts ++ rest).flatMap (BTree.pages σ' n) =
        ts.flatMap (BTree.pages σ₁ n) ++ rest.flatMap (BTree.pages σ n) := by
      rw [flatMap_append]
      congr 1
      · exact flatMap_congr (fun t ht => (hsame t (mem_append_left _ ht)).1)
      · exact flatMap_congr (fun t ht =>
          (hsame t (mem_append_right _ ht)).1.trans (hrest₁ t ht).1)
    refine h1.trans ((h2.append_left _).trans ?_)
    rw [h3]
    refine ((h.pages.append_right _).append_left _).trans ?_
    refine List.Perm.trans ?_ (hpages.append_left _).symm
    rw [cons_append]
    refine List.Perm.trans ?_ perm_middle.symm
    refine List.Perm.cons p ?_
    rw [append_assoc, append_assoc]
  · have h1 := leaves_nodes (fun x hx => (hin x hx).1) n
    rw [hns] at h1
    have h3 : (ts ++ rest).flatMap (BTree.leaves σ' n) =
        ts.flatMap (BTree.leaves σ₁ n) ++ rest.flatMap (BTree.leaves σ n) := by
      rw [flatMap_append]
      congr 1
      · exact flatMap_congr (fun t ht => (hsame t (mem_append_left _ ht)).2.1)
      · exact flatMap_congr (fun t ht =>
          (hsame t (mem_append_right _ ht)).2.1.trans (hrest₁ t ht).2.1)
    rw [h1]
    refine (hkids.flatMap_right _).trans ?_
    rw [h3]
    refine (h.leaves.append_right _).trans ?_
    rw [append_assoc]
    exact hleaves.symm.append_left _
  · -- the separators of the nodes, then those of the children
    have h1 := seps_nodes (fun x hx => (hin x hx).1) n
    rw [hns] at h1
    have h2 : ((ns.flatMap (fun x => x.2.map Prod.snd)).map (BTree.seps σ' n)).sum =
        (ts.map (BTree.seps σ₁ n)).sum + (rest.map (BTree.seps σ n)).sum := by
      rw [(hkids.map _).sum_eq, map_append, sum_append]
      congr 2
      · exact map_congr_left (fun t ht => (hsame t (mem_append_left _ ht)).2.2.2)
      · exact map_congr_left (fun t ht =>
          (hsame t (mem_append_right _ ht)).2.2.2.trans (hrest₁ t ht).2.2.2)
    have h3 : BTree.seps σ (n + 1) p = (es.filterMap Prod.fst : List K) +
        (BTree.seps σ n c + (rest.map (BTree.seps σ n)).sum) := by
      rw [BTree.seps, sepsAt_inner hp, childrenAt_inner hp, (hes.map _).sum_eq, map_cons,
        sum_cons]
    calc ((p :: qs).map (BTree.seps σ' (n + 1))).sum + up'
        = ((ns.map (fun x => ((x.2.filterMap Prod.fst : List K) : Multiset K))).sum + up') +
            ((ts.map (BTree.seps σ₁ n)).sum + (rest.map (BTree.seps σ n)).sum) := by
          rw [h1, h2]
          exact add_right_comm _ _ _
      _ = ((es.filterMap Prod.fst : List K) : Multiset K) +
            (((ts.map (BTree.seps σ₁ n)).sum + up) + (rest.map (BTree.seps σ n)).sum) := by
          rw [hseps, add_comm up, add_assoc, add_right_comm _ up, add_comm _ up]
      _ = cut + BTree.seps σ (n + 1) p := by
          rw [h.seps, h3, add_assoc, add_left_comm]
  · intro x hx hxn
    have hx' : x ≠ p ∧ x ∉ BTree.pages σ n c := by
      constructor
      · rintro rfl
        exact hx (mem_pages_self σ (n + 1) x)
      · intro hxc
        exact hx (hpages.mem_iff.mpr (mem_cons_of_mem _ (mem_append_left _ hxc)))
    have hxq : x ∉ qs := fun hxq => (h.dom x).mpr (Or.inl hxn) (hqs x hxq)
    rw [← h.frame x hx'.2 hxn]
    unfold kindAt
    rw [hout x hx'.1 hxq]

end Grown

/-! ### Insertions grow the tree -/

variable [DecidableEq P] [LinearOrder K]

/-- The pages a split adds. -/
def added (out : Option (K × P)) : List P := (out.map Prod.snd).toList

/-- The separators a split adds. -/
def cuts (out : Option (K × P)) : Multiset K := ((out.map Prod.fst).toList : List K)

variable {k : K} {v : V} {σ' : Store K V P} {a : P} {new : Option (K × P)}

theorem LeafIns.isLeaf (h : LeafIns k v σ a σ' new) : IsLeaf σ a := by
  cases h with
  | @add l r es ha => exact ⟨l, r, es, ha⟩
  | @split l r es xs ys q s ha => exact ⟨l, r, es, ha⟩

/-- The leaf after the insertion, and the new one after a split, are leaves. -/
theorem LeafIns.isLeaf_of_mem {t : P} (h : LeafIns k v σ a σ' new) (ht : t ∈ a :: added new) :
    IsLeaf σ' t := by
  have ha := h.isLeaf
  rw [← kindAt_leaf]
  rcases mem_cons.mp ht with rfl | hq
  · obtain ⟨l, r, es, ha'⟩ := ha
    rw [h.kindAt_eq (by simp [ha'])]
    exact kindAt_leaf.mpr ⟨l, r, es, ha'⟩
  · cases h with
    | add ha' => cases hq
    | @split l r es xs ys q s ha' hqn =>
      obtain rfl := mem_singleton.mp hq
      have hqa : t ≠ a := ne_of_none hqn ha'
      rw [kindAt_relink, kindAt_update_ne hqa, kindAt_update_self]
      rfl

theorem LeafIns.dom (h : LeafIns k v σ a σ' new) : σ' x ≠ none ↔ σ x ≠ none ∨ x ∈ added new := by
  constructor
  · intro hx
    cases h with
    | add ha =>
      left
      by_cases hxa : x = a
      · rw [hxa, ha]
        exact some_ne_none _
      · rwa [update_of_ne hxa] at hx
    | @split l r es xs ys q s ha hq =>
      rw [Ne, ← kindAt_none, kindAt_relink, kindAt_none, ← Ne] at hx
      by_cases hxa : x = a
      · left
        rw [hxa, ha]
        exact some_ne_none _
      · by_cases hxq : x = q
        · exact Or.inr (mem_singleton.mpr hxq)
        · rw [update_of_ne hxa, update_of_ne hxq] at hx
          exact Or.inl hx
  · rintro (hx | hx)
    · rw [Ne, ← kindAt_none, h.kindAt_eq hx, kindAt_none]
      exact hx
    · obtain ⟨l, r, es, hq⟩ := h.isLeaf_of_mem (mem_cons_of_mem _ hx)
      simp [hq]

theorem LeafIns.grown (h : LeafIns k v σ a σ' new) :
    Grown σ σ' 0 a (a :: added new) (added new) (added new)
      (cuts new) (cuts new) := by
  have hflat : ∀ l : List P, l.flatMap (fun x => [x]) = l := by
    intro l
    induction l with
    | nil => rfl
    | cons x l ih => rw [flatMap_cons, ih]; rfl
  refine ⟨fun t ht => h.isLeaf_of_mem ht, ?_, fun x => h.dom, ?_, ?_, ?_, ?_,
    fun x _ hx => h.kindAt_eq hx⟩
  · intro x hx
    cases h with
    | add ha => cases hx
    | split ha hq =>
      obtain rfl := mem_singleton.mp hx
      exact hq
  · cases new with
    | none => exact nodup_nil
    | some sq => exact nodup_singleton _
  · show ((a :: added new).flatMap (fun x => [x])).Perm (added new ++ [a])
    rw [hflat]
    exact (perm_append_singleton a _).symm
  · show ((a :: added new).flatMap (fun x => [x])).Perm (added new ++ [a])
    rw [hflat]
    exact (perm_append_singleton a _).symm
  · have hzero : ((a :: added new).map (seps σ' 0)).sum = 0 := by
      simp [seps]
    rw [hzero, zero_add]
    exact (add_zero _).symm

/-- Below an inner node: the child that is followed, and the others. -/
theorem Shape.child {m : ℕ} {c : P} (hp : σ p = some (.inner es)) (hc : route k es = some c)
    (hsh : Shape σ (m + 1) p) (hnd : (pages σ (m + 1) p).Nodup) :
    ∃ rest, (es.map Prod.snd).Perm (c :: rest) ∧ es ≠ [] ∧ (∀ e ∈ es, Shape σ m e.2) ∧
      Shape σ m c ∧ (pages σ m c).Nodup ∧ p ∉ pages σ m c := by
  obtain ⟨es', hp', hne, hes⟩ := hsh
  obtain rfl := inner_inj hp hp'
  obtain ⟨e, he, rfl⟩ := route_mem hc
  have hmem : e.2 ∈ es.map Prod.snd := mem_map_of_mem he
  rw [pages, childrenAt_inner hp, nodup_cons, mem_flatMap] at hnd
  refine ⟨(es.map Prod.snd).erase e.2, perm_cons_erase hmem, hne, hes, hes e he, ?_, ?_⟩
  · exact (nodup_flatMap.mp hnd.2).1 e.2 hmem
  · exact fun hpe => hnd.1 ⟨e.2, hmem, hpe⟩

/-- An insertion below `p` leaves `p`, and the new page when `p` splits, in the place of `p`. -/
theorem Ins.grown {out : Option (K × P)} (h : Ins k v σ p σ' out a new) (hsh : Shape σ n p)
    (hnd : (pages σ n p).Nodup) :
    ∃ fresh, Grown σ σ' n p (p :: added out) fresh (added new) (cuts out) (cuts new) := by
  induction h generalizing n with
  | @leaf σ' a new h =>
    obtain rfl := hsh.zero_of_leaf h.isLeaf
    exact ⟨_, h.grown⟩
  | @pass σ' p c a es new hp hc h ih =>
    obtain ⟨n, rfl⟩ := hsh.succ_of_inner hp
    obtain ⟨rest, hes, hne, hshs, hshc, hndc, hpc⟩ := hsh.child hp hc hnd
    obtain ⟨fresh, hg⟩ := ih hshc hndc
    have hp' : σ' p = some (.inner es) :=
      inner_of_kindAt (hg.frame p hpc (by simp [hp])) hp
    refine ⟨_, hg.inner [] [(p, es)] hp hshs hnd hes rfl (by simp)
      nodup_nil ?_ ?_ ?_ (fun x _ _ => rfl)⟩
    · rw [flatMap_singleton]
      exact hes
    · simp [cuts]
    · intro x hx
      rw [mem_singleton.mp hx]
      exact ⟨hp', hne⟩
  | @add σ' p c a q s es es' new hp hc h hp' ih =>
    obtain ⟨n, rfl⟩ := hsh.succ_of_inner hp
    obtain ⟨rest, hes, hne, hshs, hshc, hndc, hpc⟩ := hsh.child hp hc hnd
    obtain ⟨fresh, hg⟩ := ih hshc hndc
    obtain rfl := inner_inj hp' (inner_of_kindAt (hg.frame p hpc (by simp [hp])) hp)
    refine ⟨_, hg.inner [] [(p, insertEntry (some s, q) es')] hp hshs hnd hes rfl
      (by simp) nodup_nil ?_ ?_ ?_ (fun x hx _ => update_of_ne hx _ _)⟩
    · rw [flatMap_singleton]
      refine ((insertEntry_perm (some s, q) es').map Prod.snd).trans ?_
      rw [map_cons]
      exact (hes.cons q).trans (List.Perm.swap c q rest)
    · have hperm := (insertEntry_perm (some s, q) es').filterMap Prod.fst
      simpa [cuts] using hperm
    · intro x hx
      rw [mem_singleton.mp hx]
      exact ⟨update_self _ _ _, insertEntry_ne_nil _ _⟩
  | @split σ' p c a q q' m s t es es' ls rs new hp hc h hp' hsplit hls hq' ih =>
    obtain ⟨n, rfl⟩ := hsh.succ_of_inner hp
    obtain ⟨rest, hes, hne, hshs, hshc, hndc, hpc⟩ := hsh.child hp hc hnd
    obtain ⟨fresh, hg⟩ := ih hshc hndc
    obtain rfl := inner_inj hp' (inner_of_kindAt (hg.frame p hpc (by simp [hp])) hp)
    have hqp : q' ≠ p := ne_of_none hq' hp'
    refine ⟨_, hg.inner [q'] [(p, ls), (q', (none, m) :: rs)] hp hshs hnd hes
      rfl (by simpa using hq') (nodup_singleton q') ?_ ?_ ?_ ?_⟩
    · have hmap : ls.map Prod.snd ++ m :: rs.map Prod.snd =
          (insertEntry (some s, q) es').map Prod.snd := by
        rw [hsplit, map_append, map_cons]
      simp only [flatMap_cons, flatMap_nil, append_nil, map_cons]
      rw [hmap]
      refine ((insertEntry_perm (some s, q) es').map Prod.snd).trans ?_
      rw [map_cons]
      exact (hes.cons q).trans (List.Perm.swap c q rest)
    · have hperm := (insertEntry_perm (some s, q) es').filterMap Prod.fst
      rw [hsplit, filterMap_append] at hperm
      have hcoe := Multiset.coe_eq_coe.mpr hperm
      simp only [filterMap_cons, ← Multiset.coe_add, ← Multiset.cons_coe] at hcoe
      simp only [map_cons, map_nil, sum_cons, sum_nil, add_zero,
        filterMap_cons, cuts, map_some, toList_some,
        Multiset.coe_singleton, Multiset.singleton_add]
      rw [← hcoe, Multiset.add_cons, ← Multiset.singleton_add]
      exact add_comm _ _
    · intro x hx
      rcases mem_pair.mp hx with rfl | rfl
      · exact ⟨update_self _ _ _, hls⟩
      · refine ⟨?_, cons_ne_nil _ _⟩
        rw [update_of_ne hqp, update_self]
    · intro x hxp hxq
      rw [update_of_ne hxp, update_of_ne (by simpa using hxq)]

/-- An insertion leaves no inner node without children. -/
theorem Ins.inner_ne_nil {out : Option (K × P)} (h : Ins k v σ p σ' out a new)
    (hx : σ x = some (.inner es)) (hne : es ≠ []) : ∃ es', σ' x = some (.inner es') ∧ es' ≠ [] := by
  induction h with
  | leaf h =>
    refine ⟨es, ?_, hne⟩
    exact inner_of_kindAt (h.kindAt_eq (by simp [hx])) hx
  | pass hp hc h ih => exact ih
  | @add σ' p c a q s es es' new hp hc h hp' ih =>
    by_cases hxp : x = p
    · rw [hxp]
      exact ⟨_, update_self _ _ _, insertEntry_ne_nil _ _⟩
    · obtain ⟨es'', hx', hne'⟩ := ih
      exact ⟨es'', by rw [update_of_ne hxp]; exact hx', hne'⟩
  | @split σ' p c a q q' m s t es es' ls rs new hp hc h hp' hsplit hls hq' ih =>
    by_cases hxp : x = p
    · rw [hxp]
      exact ⟨_, update_self _ _ _, hls⟩
    · obtain ⟨es'', hx', hne'⟩ := ih
      have hxq : x ≠ q' := fun hxq => by
        rw [← hxq, hx'] at hq'
        cases hq'
      exact ⟨es'', by rw [update_of_ne hxp, update_of_ne hxq]; exact hx', hne'⟩

end BTree
