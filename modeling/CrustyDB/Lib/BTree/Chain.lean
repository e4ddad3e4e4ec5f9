import CrustyDB.Lib.BTree.Shape

/-! # The chain of leaves

`Linked σ prev ch`: the pages `ch` are leaves whose links form a doubly linked list, with `prev` on
the left of the first.  An insertion puts the new leaf of a split directly behind the leaf it
splits (`growAt`), which keeps the links (`LeafIns.linked`) and adds its entry to the content
(`LeafIns.content_eq`).

`Tree` collects what holds of any tree built by insertions and removals: its shape, and a chain
with its leaves.  `Insert.tree` and `Erase.tree` keep it. -/

namespace BTree

open List Function

variable {K V P : Type}

/-- The pages are leaves, linked to each other in this order. -/
def Linked (σ : Store K V P) : Option P → List P → Prop
  | _, [] => True
  | prev, p :: ch => (∃ es, σ p = some (.leaf prev ch.head? es)) ∧ Linked σ (some p) ch

variable {σ : Store K V P} {prev : Option P} {ch : List P} {x p : P}

theorem Linked.congr {τ : Store K V P} (h : Linked σ prev ch) (hτ : ∀ x ∈ ch, τ x = σ x) :
    Linked τ prev ch := by
  induction ch generalizing prev with
  | nil => exact trivial
  | cons p ch ih =>
    obtain ⟨⟨es, hp⟩, hch⟩ := h
    refine ⟨⟨es, ?_⟩, ih hch (fun x hx => hτ x (mem_cons_of_mem _ hx))⟩
    rw [hτ p mem_cons_self]
    exact hp

theorem Linked.isLeaf (h : Linked σ prev ch) (hx : x ∈ ch) : IsLeaf σ x := by
  induction ch generalizing prev with
  | nil => cases hx
  | cons p ch ih =>
    rcases mem_cons.mp hx with rfl | hx
    · obtain ⟨⟨es, hp⟩, -⟩ := h
      exact ⟨_, _, es, hp⟩
    · exact ih h.2 hx

/-- The links of a leaf in the middle of a chain. -/
theorem Linked.at {pre post : List P} (h : Linked σ prev (pre ++ p :: post)) :
    ∃ es, σ p = some (.leaf (pre.getLast?.or prev) post.head? es) := by
  induction pre generalizing prev with
  | nil => exact h.1
  | cons x pre ih =>
    obtain ⟨es, hp⟩ := ih h.2
    refine ⟨es, ?_⟩
    rw [hp, getLast?_cons]
    cases pre.getLast? <;> rfl

theorem Linked.drop {pre post : List P} (h : Linked σ prev (pre ++ post)) :
    Linked σ (pre.getLast?.or prev) post := by
  induction pre generalizing prev with
  | nil => exact h
  | cons x pre ih =>
    have := ih h.2
    rw [getLast?_cons]
    cases hp : pre.getLast? with
    | none => rwa [hp] at this
    | some y => rwa [hp] at this

/-- In a chain without repetitions, a page is in one place. -/
theorem exists_split {a : P} {ch : List P} (ha : a ∈ ch) (hnd : ch.Nodup) :
    ∃ pre post, ch = pre ++ a :: post ∧ a ∉ pre ∧ a ∉ post := by
  obtain ⟨pre, post, rfl⟩ := append_of_mem ha
  have hnd' := nodup_middle.mp hnd
  rw [nodup_cons, mem_append, not_or] at hnd'
  exact ⟨pre, post, rfl, hnd'.1⟩

section Grow

variable [DecidableEq P]

/-- The chain with `new` put behind `a`. -/
def growAt (a : P) (new : List P) (ch : List P) : List P :=
  ch.flatMap (fun x => if x = a then x :: new else [x])

variable {a : P}

theorem growAt_of_not_mem {ch : List P} (h : a ∉ ch) (new : List P) : growAt a new ch = ch := by
  induction ch with
  | nil => rfl
  | cons x ch ih =>
    rw [mem_cons, not_or] at h
    unfold growAt at *
    rw [flatMap_cons, ih h.2, if_neg (Ne.symm h.1)]
    rfl

theorem growAt_append (a : P) (new : List P) (ch ch' : List P) :
    growAt a new (ch ++ ch') = growAt a new ch ++ growAt a new ch' := flatMap_append

theorem growAt_split {new pre post : List P} (hpre : a ∉ pre) (hpost : a ∉ post) :
    growAt a new (pre ++ a :: post) = pre ++ a :: (new ++ post) := by
  rw [growAt_append, growAt_of_not_mem hpre]
  congr 1
  have := growAt_of_not_mem hpost new
  unfold growAt at *
  rw [flatMap_cons, this, if_pos rfl, cons_append]

theorem growAt_perm {ch : List P} (ha : a ∈ ch) (hnd : ch.Nodup) (new : List P) :
    (growAt a new ch).Perm (new ++ ch) := by
  obtain ⟨pre, post, rfl, hpre, hpost⟩ := exists_split ha hnd
  rw [growAt_split hpre hpost]
  calc (pre ++ a :: (new ++ post)).Perm (pre ++ (new ++ a :: post)) :=
        (show (new ++ a :: post).Perm (a :: (new ++ post)) from perm_middle).symm.append_left pre
    _ = (pre ++ new) ++ a :: post := (append_assoc _ _ _).symm
    _ |>.Perm ((new ++ pre) ++ a :: post) := perm_append_comm.append_right _
    _ = new ++ (pre ++ a :: post) := append_assoc _ _ _

end Grow

/-! ### Insertion into a leaf of a chain -/

variable [DecidableEq P] [LinearOrder K] {k : K} {v : V} {σ' : Store K V P} {a : P}
  {new out : Option (K × P)} {n : ℕ}

section

variable (h : LeafIns k v σ a σ' new)
include h

/-- Outside the leaf, the new leaf and the right neighbour nothing changes. -/
theorem LeafIns.frame {l r : Option P} {es : Multiset (K × V)}
    (ha : σ a = some (.leaf l r es)) (hxa : x ≠ a) (hxr : r ≠ some x) (hx : σ x ≠ none) :
    σ' x = σ x := by
  cases h with
  | add ha' => exact update_of_ne hxa _ _
  | @split l' r' es' xs ys q s ha' hq =>
    obtain ⟨rfl, rfl, rfl⟩ := leaf_inj ha ha'
    have hxq : x ≠ q := fun hxq => hx (hxq ▸ hq)
    rw [relink_of_ne hxr, update_of_ne hxa, update_of_ne hxq]

theorem LeafIns.linked (hl : Linked σ prev ch) (ha : a ∈ ch)
    (hnd : ch.Nodup) : Linked σ' prev (growAt a (added new) ch) := by
  have hleaf : ∀ x ∈ ch, σ x ≠ none := by
    intro x hx
    obtain ⟨l, r, es, hx⟩ := hl.isLeaf hx
    simp [hx]
  obtain ⟨pre, post, rfl⟩ := append_of_mem ha
  have hnd' := nodup_middle.mp hnd
  rw [nodup_cons, mem_append, not_or, nodup_append'] at hnd'
  obtain ⟨⟨hapre, hapost⟩, -, hndpost, hdisj⟩ := hnd'
  rw [growAt_split hapre hapost]
  induction pre generalizing prev with
  | nil =>
    obtain ⟨⟨es, hσa⟩, hpost⟩ := hl
    cases h with
    | add ha' =>
      obtain ⟨rfl, rfl, rfl⟩ := leaf_inj hσa ha'
      refine ⟨⟨_, update_self _ _ _⟩, hpost.congr (fun x hx => ?_)⟩
      have hxa : x ≠ a := fun hxa => hapost (hxa ▸ hx)
      exact update_of_ne hxa _ _
    | @split l r es' xs ys q s ha' hq =>
      obtain ⟨rfl, rfl, rfl⟩ := leaf_inj hσa ha'
      have hqa : q ≠ a := ne_of_none hq hσa
      have hqpost : q ∉ post := fun hqp =>
        hleaf q (mem_cons_of_mem _ hqp) hq
      have har : post.head? ≠ some a := fun hh => hapost (mem_of_head? hh)
      have hqr : post.head? ≠ some q := fun hh => hqpost (mem_of_head? hh)
      refine ⟨⟨xs, ?_⟩, ⟨ys, ?_⟩, ?_⟩
      · rw [relink_of_ne har, update_self]
        rfl
      · rw [relink_of_ne hqr, update_of_ne hqa, update_self]
        rfl
      · -- the neighbour now points back at the new leaf
        cases post with
        | nil => exact trivial
        | cons b post =>
          obtain ⟨⟨es'', hb⟩, hrest⟩ := hpost
          rw [mem_cons, not_or] at hapost hqpost
          have hb' : Function.update (Function.update σ q (some (.leaf (some a) (some b) ys))) a
              (some (.leaf prev (some q) xs)) b = some (.leaf (some a) post.head? es'') := by
            rw [update_of_ne (Ne.symm hapost.1), update_of_ne (Ne.symm hqpost.1)]
            exact hb
          refine ⟨⟨es'', relink_leaf hb'⟩, hrest.congr (fun x hx => ?_)⟩
          have hxb : some b ≠ some x := fun hbx =>
            (nodup_cons.mp hndpost).1 (Option.some.inj hbx ▸ hx)
          have hxa : x ≠ a := fun hxa => hapost.2 (hxa ▸ hx)
          have hxq : x ≠ q := fun hxq => hqpost.2 (hxq ▸ hx)
          rw [head?_cons, relink_of_ne hxb, update_of_ne hxa,
            update_of_ne hxq]
  | cons x pre ih =>
    rw [mem_cons, not_or] at hapre
    obtain ⟨⟨es, hx⟩, hrest⟩ := hl
    obtain ⟨es', hσa⟩ := hrest.at
    have hxr : post.head? ≠ some x := fun hh =>
      hdisj (mem_cons_self) (mem_of_head? hh)
    have hx' : σ' x = σ x := by
      refine h.frame hσa (Ne.symm hapre.1) hxr ?_
      simp [hx]
    refine ⟨⟨es, ?_⟩, ih hrest (mem_append_right _ mem_cons_self)
      (nodup_cons.mp hnd).2 (fun y hy => hleaf y (mem_cons_of_mem _ hy)) hapre.2
      (fun y hy hy' => hdisj (mem_cons_of_mem _ hy) hy')⟩
    rw [hx', hx]
    cases pre <;> rfl

/-- The entries of a leaf that is neither the one inserted into nor new are as before. -/
theorem LeafIns.entriesAt_eq (hxa : x ≠ a) (hx : x ∉ added new) :
    entriesAt σ' x = entriesAt σ x := by
  cases h with
  | add ha => exact entriesAt_congr (update_of_ne hxa _ _)
  | @split l r es xs ys q s ha hq =>
    rw [entriesAt_relink]
    refine entriesAt_congr ?_
    rw [update_of_ne hxa, update_of_ne (fun hxq => hx (mem_singleton.mpr hxq))]

/-- The leaf and the new leaf hold the old entries and the new one. -/
theorem LeafIns.content_leaf :
    content σ' (a :: added new) = (k, v) ::ₘ entriesAt σ a := by
  cases h with
  | @add l r es ha =>
    rw [content_cons, entriesAt_leaf ha, entriesAt_leaf (update_self _ _ _)]
    exact add_zero _
  | @split l r es xs ys q s ha hq hsum =>
    have hqa : q ≠ a := ne_of_none hq ha
    have hq' : entriesAt (relink (Function.update (Function.update σ q (some (.leaf (some a) r ys))) a
        (some (.leaf l (some q) xs))) r q) q = ys := by
      rw [entriesAt_relink]
      refine entriesAt_leaf (l := some a) (r := r) ?_
      rw [update_of_ne hqa, update_self]
    rw [content_cons, entriesAt_relink, entriesAt_leaf (update_self _ _ _),
      entriesAt_leaf ha, hsum]
    show xs + (content _ [q]) = xs + ys
    rw [content_cons, hq']
    exact congrArg (xs + ·) (add_zero _)

theorem LeafIns.content_eq (hch : ∀ x ∈ ch, σ x ≠ none) (ha : a ∈ ch)
    (hnd : ch.Nodup) : content σ' (growAt a (added new) ch) = (k, v) ::ₘ content σ ch := by
  obtain ⟨pre, post, rfl, hpre, hpost⟩ := exists_split ha hnd
  have hold : ∀ ls : List P, a ∉ ls → (∀ x ∈ ls, σ x ≠ none) → content σ' ls = content σ ls := by
    intro ls hals hls
    refine content_congr (fun x hx => h.entriesAt_eq (fun hxa => hals (hxa ▸ hx)) (fun hxn => ?_))
    exact hls x hx (h.grown.fresh_none x hxn)
  rw [growAt_split hpre hpost, content_append, content_append, ← cons_append,
    content_append, h.content_leaf, content_cons,
    hold pre hpre (fun x hx => hch x (mem_append_left _ hx)),
    hold post hpost (fun x hx => hch x (mem_append_right _ (mem_cons_of_mem _ hx)))]
  rw [Multiset.cons_add, Multiset.add_cons]

end

/-! ### Trees -/

/-- The leaf an insertion reaches lies below the node it started from. -/
theorem Ins.mem_leaves (h : Ins k v σ p σ' out a new) (hsh : Shape σ n p) : a ∈ leaves σ n p := by
  have hstep : ∀ {p c a : P} {es : List (Option K × P)} {n : ℕ}, σ p = some (.inner es) →
      route k es = some c → Shape σ n p → (∀ {m : ℕ}, Shape σ m c → a ∈ leaves σ m c) →
      a ∈ leaves σ n p := by
    intro p c a es n hp hc hsh ih
    obtain ⟨n, rfl⟩ := hsh.succ_of_inner hp
    obtain ⟨es', hp', -, hes⟩ := hsh
    obtain rfl := inner_inj hp hp'
    obtain ⟨e, he, rfl⟩ := route_mem hc
    rw [leaves, childrenAt_inner hp]
    exact mem_flatMap.mpr ⟨e.2, mem_map_of_mem he, ih (hes e he)⟩
  induction h generalizing n with
  | leaf h =>
    obtain rfl := hsh.zero_of_leaf h.isLeaf
    exact mem_singleton_self _
  | pass hp hc h ih => exact hstep hp hc hsh ih
  | add hp hc h hp' ih => exact hstep hp hc hsh ih
  | split hp hc h hp' hsplit hls hq' ih => exact hstep hp hc hsh ih

omit [LinearOrder K] in
/-- Writing an inner node over a page that is not a leaf leaves the entries as they are. -/
theorem entriesAt_update_inner {es : List (Option K × P)} (hp : ¬ IsLeaf σ p) (x : P) :
    entriesAt (Function.update σ p (some (.inner es))) x = entriesAt σ x := by
  by_cases hxp : x = p
  · subst hxp
    have hzero : entriesAt σ x = 0 := by
      unfold entriesAt
      split
      · rename_i l r es' hx
        exact absurd ⟨l, r, es', hx⟩ hp
      · rfl
    rw [hzero]
    unfold entriesAt
    rw [update_self]
  · exact entriesAt_congr (update_of_ne hxp _ _)

omit [DecidableEq P] [LinearOrder K] in
theorem not_isLeaf_inner {es : List (Option K × P)} (hp : σ p = some (.inner es)) :
    ¬ IsLeaf σ p := by
  rintro ⟨l, r, es', hx⟩
  rw [hp] at hx
  cases hx

omit [DecidableEq P] [LinearOrder K] in
theorem not_isLeaf_none (hp : σ p = none) : ¬ IsLeaf σ p := by
  rintro ⟨l, r, es', hx⟩
  rw [hp] at hx
  cases hx

/-- On leaves an insertion does what it does to the leaf it reaches. -/
theorem Ins.leafIns (h : Ins k v σ p σ' out a new) :
    ∃ τ, LeafIns k v σ a τ new ∧ (∀ x, IsLeaf τ x → σ' x = τ x) ∧
      ∀ x, entriesAt σ' x = entriesAt τ x := by
  have hkeep : ∀ {τ σ' : Store K V P} {x y : P} {nd : Option (Node K V P)}, IsLeaf τ x →
      σ' x = τ x → ¬ IsLeaf σ' y → Function.update σ' y nd x = τ x := by
    rintro τ σ' x y nd ⟨l, r, es, hx⟩ hσ' hy
    rw [update_of_ne, hσ']
    rintro rfl
    exact hy ⟨l, r, es, hσ'.trans hx⟩
  induction h with
  | leaf h => exact ⟨_, h, fun _ _ => rfl, fun _ => rfl⟩
  | pass hp hc h ih => exact ih
  | add hp hc h hp' ih =>
    obtain ⟨τ, hτ, heq, hent⟩ := ih
    have hp'' := not_isLeaf_inner hp'
    refine ⟨τ, hτ, fun x hx => hkeep hx (heq x hx) hp'', fun x => ?_⟩
    rw [entriesAt_update_inner hp'', hent]
  | @split σ' p c a q q' m s t es es' ls rs new hp hc h hp' hsplit hls hq' ih =>
    obtain ⟨τ, hτ, heq, hent⟩ := ih
    have hqp : p ≠ q' := fun hqp => by
      rw [← hqp, hp'] at hq'
      cases hq'
    have hp'' : ¬ IsLeaf (Function.update σ' q' (some (.inner ((none, m) :: rs)))) p := by
      have hinner : Function.update σ' q' (some (.inner ((none, m) :: rs))) p = some (.inner es') := by
        rw [update_of_ne hqp]
        exact hp'
      exact not_isLeaf_inner hinner
    have hq'' := not_isLeaf_none hq'
    refine ⟨τ, hτ, fun x hx => hkeep hx (hkeep hx (heq x hx) hq'') hp'', fun x => ?_⟩
    rw [entriesAt_update_inner hp'', entriesAt_update_inner hq'', hent]

/-- A tree of depth `n` at `root` whose leaves are linked in the order `ch`. -/
structure Tree (σ : Store K V P) (n : ℕ) (root : P) (ch : List P) : Prop where
  shape : Shape σ n root
  nodup : (pages σ n root).Nodup
  all : ∀ x, σ x ≠ none → x ∈ pages σ n root
  chain : ch.Perm (leaves σ n root)
  linked : Linked σ none ch

omit [DecidableEq P] [LinearOrder K] in
theorem leaves_sublist_pages (σ : Store K V P) (n : ℕ) (p : P) :
    (leaves σ n p).Sublist (pages σ n p) := by
  induction n generalizing p with
  | zero => exact List.Sublist.refl _
  | succ n ih =>
    rw [leaves, pages]
    refine List.Sublist.cons _ ?_
    induction childrenAt σ p with
    | nil => exact List.Sublist.refl _
    | cons c cs ihc => exact (ih c).append ihc

variable {root : P}

omit [DecidableEq P] [LinearOrder K] in
theorem Tree.chain_nodup (h : Tree σ n root ch) : ch.Nodup :=
  h.chain.nodup_iff.mpr (h.nodup.sublist (leaves_sublist_pages σ n root))

/-- The pages and the chain after an insertion below the root. -/
theorem Ins.tree (h : Ins k v σ root σ' out a new) (ht : Tree σ n root ch) :
    (∀ t ∈ root :: added out, Shape σ' n t) ∧
      ((root :: added out).flatMap (pages σ' n)).Nodup ∧
      (∀ x, σ' x ≠ none → x ∈ (root :: added out).flatMap (pages σ' n)) ∧
      (growAt a (added new) ch).Perm ((root :: added out).flatMap (leaves σ' n)) ∧
      Linked σ' none (growAt a (added new) ch) ∧
      content σ' (growAt a (added new) ch) = (k, v) ::ₘ content σ ch ∧
      ((root :: added out).map (seps σ' n)).sum + cuts out = cuts new + seps σ n root := by
  obtain ⟨fresh, hg⟩ := h.grown ht.shape ht.nodup
  obtain ⟨τ, hτ, heq, -⟩ := h.leafIns
  have ha : a ∈ ch := ht.chain.mem_iff.mpr (h.mem_leaves ht.shape)
  have hch : ∀ x ∈ ch, σ x ≠ none := by
    intro x hx
    obtain ⟨l, r, es, hx'⟩ := ht.linked.isLeaf hx
    simp [hx']
  have hlink := hτ.linked ht.linked ha ht.chain_nodup
  refine ⟨hg.shape, ?_, ?_, ?_, hlink.congr (fun x hx => heq x (hlink.isLeaf hx)), ?_,
    hg.seps⟩
  · rw [hg.pages.nodup_iff, nodup_append']
    refine ⟨hg.nodup, ht.nodup, fun x hx hx' => ?_⟩
    exact ht.shape.ne_none hx' (hg.fresh_none x hx)
  · intro x hx
    rw [hg.pages.mem_iff, mem_append]
    rcases (hg.dom x).mp hx with hx | hx
    · exact Or.inr (ht.all x hx)
    · exact Or.inl hx
  · refine (growAt_perm ha ht.chain_nodup _).trans ?_
    exact (ht.chain.append_left _).trans hg.leaves.symm
  · rw [← hτ.content_eq hch ha ht.chain_nodup]
    exact content_congr (fun x hx => entriesAt_congr (heq x (hlink.isLeaf hx)))

/-- An insertion keeps the tree; the new leaf follows the one it was split from. -/
theorem Insert.tree {root' : P} (h : Insert k v σ root σ' root' a new) (ht : Tree σ n root ch) :
    a ∈ ch ∧ (∃ n', Tree σ' n' root' (growAt a (added new) ch) ∧
      seps σ' n' root' = cuts new + seps σ n root) ∧
      content σ' (growAt a (added new) ch) = (k, v) ::ₘ content σ ch := by
  cases h with
  | stay h =>
    obtain ⟨hsh, hnd, hall, hperm, hlink, hcont, hseps⟩ := h.tree ht
    have hone : ∀ f : P → List P, (root :: added (none : Option (K × P))).flatMap f = f root := by
      intro f
      show [root].flatMap f = f root
      rw [flatMap_singleton]
    rw [hone] at hnd hperm
    simp only [hone] at hall
    refine ⟨ht.chain.mem_iff.mpr (h.mem_leaves ht.shape),
      ⟨n, ⟨hsh root mem_cons_self, hnd, hall, hperm, hlink⟩, ?_⟩, hcont⟩
    rw [← hseps]
    simp [added, cuts]
  | @grow σ₁ _ q _ s _ h hr =>
    obtain ⟨hsh, hnd, hall, hperm, hlink, hcont, hseps⟩ := h.tree ht
    have hr' : ∀ t ∈ [root, q], root' ∉ pages σ₁ n t := fun t htm hx =>
      (hsh t htm).ne_none hx hr
    have hkids : childrenAt (Function.update σ₁ root' (some (.inner [(none, root), (some s, q)])))
        root' = [root, q] := childrenAt_inner (update_self _ _ _)
    have hsame : ∀ t ∈ [root, q],
        pages (Function.update σ₁ root' (some (.inner [(none, root), (some s, q)]))) n t =
            pages σ₁ n t ∧
          leaves (Function.update σ₁ root' (some (.inner [(none, root), (some s, q)]))) n t =
            leaves σ₁ n t ∧
          (Shape σ₁ n t →
            Shape (Function.update σ₁ root' (some (.inner [(none, root), (some s, q)]))) n t) ∧
          seps (Function.update σ₁ root' (some (.inner [(none, root), (some s, q)]))) n t =
            seps σ₁ n t := by
      intro t htm
      exact tree_congr (fun x hx => kindAt_update_ne (fun hxr => hr' t htm (hxr ▸ hx)))
    have hpages := flatMap_congr (fun t htm => (hsame t htm).1)
    have hleaves := flatMap_congr (fun t htm => (hsame t htm).2.1)
    refine ⟨ht.chain.mem_iff.mpr (h.mem_leaves ht.shape),
      ⟨n + 1, ⟨?_, ?_, ?_, ?_, ?_⟩, ?_⟩, ?_⟩
    · refine ⟨_, update_self _ _ _, cons_ne_nil _ _, fun e he => ?_⟩
      have hmem : e.2 ∈ [root, q] := by
        rcases mem_pair.mp he with rfl | rfl <;> simp
      exact (hsame e.2 hmem).2.2.1 (hsh e.2 hmem)
    · rw [pages, hkids, hpages]
      refine nodup_cons.mpr ⟨fun hx => ?_, hnd⟩
      obtain ⟨t, htm, hx⟩ := mem_flatMap.mp hx
      exact hr' t htm hx
    · intro x hx
      rw [pages, hkids, hpages, mem_cons]
      by_cases hxr : x = root'
      · exact Or.inl hxr
      · rw [update_of_ne hxr] at hx
        exact Or.inr (hall x hx)
    · rw [leaves, hkids, hleaves]
      exact hperm
    · refine hlink.congr (fun x hx => update_of_ne ?_ _ _)
      rintro rfl
      obtain ⟨l, r, es, hx'⟩ := hlink.isLeaf hx
      rw [hr] at hx'
      cases hx'
    · rw [seps, hkids, sepsAt_inner (update_self _ _ _), ← hseps,
        map_congr_left (fun t htm => (hsame t htm).2.2.2)]
      exact add_comm _ _
    · rw [← hcont]
      refine content_congr (fun x hx => entriesAt_congr (update_of_ne ?_ _ _))
      rintro rfl
      obtain ⟨l, r, es, hx'⟩ := hlink.isLeaf hx
      rw [hr] at hx'
      cases hx'

/-! ### Removal -/

omit [LinearOrder K] in
section

variable (h : Erase k v σ a σ')
include h

theorem Erase.kindAt_eq (x : P) : kindAt σ' x = kindAt σ x := by
  cases h with
  | @mk l r es ha =>
    by_cases hxa : x = a
    · subst hxa
      rw [kindAt_update_self, kindAt_leaf.mpr ⟨l, r, _, ha⟩]
      rfl
    · exact kindAt_update_ne hxa

omit [LinearOrder K] in
theorem Erase.linked (hl : Linked σ prev ch) : Linked σ' prev ch := by
  induction ch generalizing prev with
  | nil => exact trivial
  | cons p ch ih =>
    obtain ⟨⟨es, hp⟩, hch⟩ := hl
    refine ⟨?_, ih hch⟩
    cases h with
    | @mk l r es' ha =>
      by_cases hpa : p = a
      · subst hpa
        obtain ⟨rfl, rfl, rfl⟩ := leaf_inj hp ha
        exact ⟨_, update_self _ _ _⟩
      · exact ⟨es, by rw [update_of_ne hpa]; exact hp⟩

omit [LinearOrder K] in
theorem Erase.tree (ht : Tree σ n root ch) : Tree σ' n root ch := by
  obtain ⟨hp, hl, hs, -⟩ := tree_congr (n := n) (p := root) (fun x _ => h.kindAt_eq x)
  refine ⟨hs ht.shape, by rw [hp]; exact ht.nodup, fun x hx => ?_, by rw [hl]; exact ht.chain,
    h.linked ht.linked⟩
  rw [hp]
  refine ht.all x ?_
  rwa [Ne, ← kindAt_none, ← h.kindAt_eq x, kindAt_none]

omit [LinearOrder K] in
theorem Erase.entriesAt_self :
    entriesAt σ a = (k, v) ::ₘ entriesAt σ' a := by
  cases h with
  | mk ha => rw [entriesAt_leaf ha, entriesAt_leaf (update_self _ _ _)]

omit [LinearOrder K] in
theorem Erase.entriesAt_ne (hxa : x ≠ a) :
    entriesAt σ' x = entriesAt σ x := by
  cases h with
  | mk ha => exact entriesAt_congr (update_of_ne hxa _ _)

omit [LinearOrder K] in
theorem Erase.content_eq (ha : a ∈ ch) (hnd : ch.Nodup) :
    content σ ch = (k, v) ::ₘ content σ' ch := by
  obtain ⟨pre, post, rfl, hpre, hpost⟩ := exists_split ha hnd
  have hold : ∀ ls : List P, a ∉ ls → content σ' ls = content σ ls := fun ls hals =>
    content_congr (fun x hx => h.entriesAt_ne (fun hxa => hals (hxa ▸ hx)))
  rw [content_append, content_append, content_cons, content_cons, hold pre hpre,
    hold post hpost, h.entriesAt_self, Multiset.cons_add, Multiset.add_cons]

end

end BTree
