import CrustyDB.Lib.BTree.Order

/-! # Lookup

A lookup descends to the leaf a key leads to (`Leads`), walks left along the chain while the leaf
before ends with the key (`Rewind`), and from there to the right, where it gathers the values under
the key while the leaf ends with it (`Gather`), or looks for one entry to remove (`Seek`).

On any tree these walks come to an end, within one step per page (`Leads.total`, `Rewind.total`,
`Gather.total`, `Seek.total`).  On an ordered tree they see every entry of the key
(`gather_eq`, `seek_none`). -/

namespace BTree

open List Option

variable {K V P : Type} [LinearOrder K]

/-! ### Descent -/

/-- The descent for `k` from `p` reaches the leaf `a` in `n` steps. -/
inductive Leads (σ : Store K V P) (k : K) : ℕ → P → P → Prop
  | leaf {a : P} (ha : IsLeaf σ a) : Leads σ k 0 a a
  | inner {n : ℕ} {p c a : P} {es : List (Option K × P)} (hp : σ p = some (.inner es))
      (hc : route k es = some c) (h : Leads σ k n c a) : Leads σ k (n + 1) p a

theorem route_ne_none {k : K} {es : List (Option K × P)} (h : es ≠ []) :
    ∃ c, route k es = some c := by
  cases es with
  | nil => exact absurd rfl h
  | cons e es => exact ⟨_, rfl⟩

variable {σ : Store K V P}

theorem Leads.total (k : K) {n : ℕ} {p : P} (h : Shape σ n p) :
    ∃ a ∈ leaves σ n p, Leads σ k n p a := by
  induction n generalizing p with
  | zero => exact ⟨p, mem_singleton_self p, .leaf h⟩
  | succ n ih =>
    obtain ⟨es, hp, hne, hes⟩ := h
    obtain ⟨c, hc⟩ := route_ne_none (k := k) hne
    obtain ⟨e, he, rfl⟩ := route_mem hc
    obtain ⟨a, ha, hl⟩ := ih (hes e he)
    refine ⟨a, ?_, .inner hp hc hl⟩
    rw [leaves, childrenAt_inner hp]
    exact mem_flatMap.mpr ⟨e.2, mem_map_of_mem he, ha⟩

omit [LinearOrder K] in
theorem height_lt_pages {n : ℕ} {p : P} (h : Shape σ n p) : n < (pages σ n p).length := by
  induction n generalizing p with
  | zero => exact Nat.one_pos
  | succ n ih =>
    obtain ⟨es, hp, hne, hes⟩ := h
    obtain ⟨e, es', rfl⟩ := exists_cons_of_ne_nil hne
    have hc := ih (hes e mem_cons_self)
    rw [pages, childrenAt_inner hp, map_cons, flatMap_cons, length_cons,
      length_append]
    omega

/-! ### Walks along the chain -/

/-- The leaf holds the key and nothing above it. -/
def EndsWith (k : K) (es : Multiset (K × V)) : Prop := (∃ x ∈ es, x.1 = k) ∧ ∀ x ∈ es, x.1 ≤ k

/-- The values under a key. -/
def valuesOf (k : K) (es : Multiset (K × V)) : Multiset V :=
  (es.filter (fun x => x.1 = k)).map Prod.snd

/-- Walk left while the leaf before ends with the key. -/
inductive Rewind (σ : Store K V P) (k : K) : ℕ → P → P → Prop
  | stop {a : P} {l r : Option P} {es : Multiset (K × V)} (ha : σ a = some (.leaf l r es))
      (hl : ∀ p, l = some p → ¬ EndsWith k (entriesAt σ p)) : Rewind σ k 0 a a
  | step {n : ℕ} {a p b : P} {r : Option P} {es : Multiset (K × V)}
      (ha : σ a = some (.leaf (some p) r es)) (hp : EndsWith k (entriesAt σ p))
      (h : Rewind σ k n p b) : Rewind σ k (n + 1) a b

/-- Gather the values under the key, walking right while the leaf ends with it. -/
inductive Gather (σ : Store K V P) (k : K) : ℕ → Option P → Multiset V → Prop
  | done : Gather σ k 0 none 0
  | stop {a : P} {l r : Option P} {es : Multiset (K × V)} (ha : σ a = some (.leaf l r es))
      (hend : ¬ EndsWith k es) : Gather σ k 1 (some a) (valuesOf k es)
  | step {n : ℕ} {a : P} {l r : Option P} {es : Multiset (K × V)} {vs : Multiset V}
      (ha : σ a = some (.leaf l r es)) (hend : EndsWith k es) (h : Gather σ k n r vs) :
      Gather σ k (n + 1) (some a) (valuesOf k es + vs)

/-- Look for the entry, walking right while the leaf ends with the key. -/
inductive Seek (σ : Store K V P) (k : K) (v : V) : ℕ → P → Option P → Prop
  | found {a : P} {l r : Option P} {es : Multiset (K × V)} (ha : σ a = some (.leaf l r es))
      (hmem : (k, v) ∈ es) : Seek σ k v 0 a (some a)
  | stop {a : P} {l r : Option P} {es : Multiset (K × V)} (ha : σ a = some (.leaf l r es))
      (hmem : (k, v) ∉ es) (hend : ¬ (EndsWith k es ∧ r ≠ none)) : Seek σ k v 0 a none
  | step {n : ℕ} {a b : P} {l : Option P} {es : Multiset (K × V)} {res : Option P}
      (ha : σ a = some (.leaf l (some b) es)) (hmem : (k, v) ∉ es) (hend : EndsWith k es)
      (h : Seek σ k v n b res) : Seek σ k v (n + 1) a res

open Classical in
theorem Rewind.total (k : K) {pre post : List P} {a : P} (h : Linked σ none (pre ++ a :: post)) :
    ∃ n ≤ pre.length, ∃ b pre' post', Rewind σ k n a b ∧ pre ++ a :: post = pre' ++ b :: post' := by
  induction pre using List.reverseRecOn generalizing a post with
  | nil =>
    obtain ⟨es, ha⟩ := h.at
    exact ⟨0, le_rfl, a, [], post, .stop ha (fun p hp => (by cases hp)), rfl⟩
  | append_singleton pre p ih =>
    obtain ⟨es, ha⟩ := h.at
    rw [getLast?_append, getLast?_singleton, some_or, some_or] at ha
    by_cases hend : EndsWith k (entriesAt σ p)
    · rw [append_assoc] at h
      obtain ⟨n, hn, b, pre', post', hr, heq⟩ := ih h
      refine ⟨n + 1, ?_, b, pre', post', .step ha hend hr, ?_⟩
      · rw [length_append, length_singleton]
        omega
      · rw [append_assoc]
        exact heq
    · refine ⟨0, Nat.zero_le _, a, pre ++ [p], post, .stop ha (fun q hq => ?_), rfl⟩
      rw [← Option.some.inj hq]
      exact hend

open Classical in
theorem Gather.total (k : K) {prev : Option P} {ch : List P} (h : Linked σ prev ch) :
    ∃ n ≤ ch.length, ∃ vs, Gather σ k n ch.head? vs := by
  induction ch generalizing prev with
  | nil => exact ⟨0, le_rfl, 0, .done⟩
  | cons a ch ih =>
    obtain ⟨⟨es, ha⟩, hch⟩ := h
    by_cases hend : EndsWith k es
    · obtain ⟨n, hn, vs, hg⟩ := ih hch
      exact ⟨n + 1, Nat.succ_le_succ hn, _, .step ha hend hg⟩
    · exact ⟨1, Nat.succ_le_succ (Nat.zero_le _), _, .stop ha hend⟩

open Classical in
theorem Seek.total (k : K) (v : V) {prev : Option P} {a : P} {ch : List P}
    (h : Linked σ prev (a :: ch)) : ∃ n ≤ ch.length, ∃ res, Seek σ k v n a res ∧
      ∀ b, res = some b → b ∈ a :: ch ∧ (k, v) ∈ entriesAt σ b := by
  induction ch generalizing prev a with
  | nil =>
    obtain ⟨⟨es, ha⟩, -⟩ := h
    by_cases hmem : (k, v) ∈ es
    · refine ⟨0, le_rfl, some a, .found ha hmem, ?_⟩
      rintro b hb
      cases hb
      exact ⟨mem_cons_self, by rw [entriesAt_leaf ha]; exact hmem⟩
    · exact ⟨0, le_rfl, none, .stop ha hmem (fun hend => hend.2 rfl), fun b hb => by cases hb⟩
  | cons c ch ih =>
    obtain ⟨⟨es, ha⟩, hch⟩ := h
    by_cases hmem : (k, v) ∈ es
    · refine ⟨0, Nat.zero_le _, some a, .found ha hmem, ?_⟩
      rintro b hb
      cases hb
      exact ⟨mem_cons_self, by rw [entriesAt_leaf ha]; exact hmem⟩
    · by_cases hend : EndsWith k es
      · obtain ⟨n, hn, res, hs, hres⟩ := ih hch
        refine ⟨n + 1, Nat.succ_le_succ hn, res, .step ha hmem hend hs, fun b hb => ?_⟩
        exact ⟨mem_cons_of_mem _ (hres b hb).1, (hres b hb).2⟩
      · exact ⟨0, Nat.zero_le _, none, .stop ha hmem (fun h => hend h.1), fun b hb => by cases hb⟩

/-! ### Ordered trees -/

section Ordered

variable {r : K → K → Prop} {lo hi : Option K} {k s : K} {es : List (Option K × P)}
  {σ : Store K V P} {n m : ℕ} {root a : P} {ch : List P}

theorem routeFrom_append_of_lt (hk : k < s) (c c' : P) (es es' : List (Option K × P)) :
    routeFrom k c (es ++ (some s, c') :: es') = routeFrom k c es := by
  induction es generalizing c with
  | nil =>
    show (if s ≤ k then routeFrom k c' es' else c) = c
    exact if_neg (not_le.mpr hk)
  | cons e es ih =>
    obtain ⟨_ | t, d⟩ := e
    · rw [cons_append, routeFrom, routeFrom, ih]
    · rw [cons_append, routeFrom, routeFrom, ih]

theorem routeFrom_append_of_le (hk : s ≤ k) (c c' : P) (hes : ∀ e ∈ es, ∃ t, e.1 = some t ∧ t ≤ k)
    (es' : List (Option K × P)) :
    routeFrom k c (es ++ (some s, c') :: es') = routeFrom k c' es' := by
  induction es generalizing c with
  | nil => rw [nil_append, routeFrom, if_pos hk]
  | cons e es ih =>
    obtain ⟨t, ht, htk⟩ := hes e mem_cons_self
    obtain ⟨u, d⟩ := e
    cases ht
    rw [cons_append, routeFrom, if_pos htk]
    exact ih d (fun e he => hes e (mem_cons_of_mem _ he))

theorem Kids.seps_lt {B : P → Option K → Option K → Prop} {e : Option K × P}
    (h : Kids B lo (some s) (e :: es)) : ∀ x ∈ es, ∃ t, x.1 = some t ∧ t < s := by
  induction es generalizing lo e with
  | nil =>
    intro x hx
    cases hx
  | cons e' es ih =>
    obtain ⟨t, he', -, hts, -, hes⟩ := h
    intro x hx
    rcases mem_cons.mp hx with rfl | hx
    · exact ⟨t, he', hts s rfl⟩
    · exact ih hes x hx

/-- The leaves of a bounded tree form one row, in which the descent is a single step. -/
theorem Bounded.flat {p : P} (h : Bounded r σ n p lo hi) (hsh : Shape σ n p) :
    ∃ c es, leaves σ n p = ((none, c) :: es).map Prod.snd ∧
      Kids (Bounded r σ 0) lo hi ((none, c) :: es) ∧
      ∀ k a m, AtLeast lo k → Below hi k → Leads σ k m p a → routeFrom k c es = a := by
  induction n generalizing p lo hi with
  | zero =>
    refine ⟨p, [], rfl, h, ?_⟩
    intro k a m _ _ hl
    cases hl with
    | leaf _ => rfl
    | inner hp _ _ => exact absurd hsh (not_isLeaf_inner hp)
  | succ n ih =>
    obtain ⟨es₀, hp₀, -, hes⟩ := hsh
    obtain ⟨c, es, hp, hkids⟩ := h
    obtain rfl := inner_inj hp hp₀
    -- the row of the children, each replaced by its own row
    have hrow : ∀ (es : List (Option K × P)) (e : Option K × P) (lo : Option K),
        Kids (Bounded r σ n) lo hi (e :: es) → (∀ x ∈ e :: es, Shape σ n x.2) →
        ∃ c' fs, ((e :: es).map Prod.snd).flatMap (leaves σ n) =
            ((none, c') :: fs).map Prod.snd ∧
          Kids (Bounded r σ 0) lo hi ((none, c') :: fs) ∧
          ∀ k a m, AtLeast lo k → Below hi k → Leads σ k m (routeFrom k e.2 es) a →
            routeFrom k c' fs = a := by
      intro es
      induction es with
      | nil =>
        intro e lo hk hs
        obtain ⟨c', fs, hleaves, hfs, hroute⟩ := ih hk (hs e mem_cons_self)
        refine ⟨c', fs, ?_, hfs, hroute⟩
        rw [map_singleton, flatMap_singleton, hleaves]
      | cons e₁ es ihes =>
        intro e lo hk hs
        obtain ⟨s, he₁, hlos, hhis, he, hrest⟩ := hk
        obtain ⟨c', fs, hleaves, hfs, hroute⟩ := ih he (hs e mem_cons_self)
        obtain ⟨c₁, fs₁, hleaves₁, hfs₁, hroute₁⟩ :=
          ihes e₁ (some s) hrest (fun x hx => hs x (mem_cons_of_mem _ hx))
        refine ⟨c', fs ++ (some s, c₁) :: fs₁, ?_, hfs.append hlos hhis hfs₁, ?_⟩
        · rw [map_cons, flatMap_cons, hleaves, hleaves₁]
          simp
        · intro k a m hlo hhi hl
          obtain ⟨s', d⟩ := e₁
          cases he₁
          rw [routeFrom] at hl
          by_cases hk : s ≤ k
          · rw [if_pos hk] at hl
            rw [routeFrom_append_of_le hk]
            · exact hroute₁ k a m (fun b hb => Option.some.inj hb ▸ hk) hhi hl
            · intro x hx
              obtain ⟨t, ht, hts⟩ := hfs.seps_lt x hx
              exact ⟨t, ht, hts.le.trans hk⟩
          · rw [if_neg hk] at hl
            rw [not_le] at hk
            rw [routeFrom_append_of_lt hk]
            exact hroute k a m hlo (fun b hb => Option.some.inj hb ▸ hk) hl
    obtain ⟨c', fs, hleaves, hfs, hroute⟩ := hrow es (none, c) lo hkids hes
    refine ⟨c', fs, ?_, hfs, ?_⟩
    · rw [leaves, childrenAt_inner hp, hleaves]
    · intro k a m hlo hhi hl
      cases hl with
      | leaf ha => exact absurd ha (not_isLeaf_inner hp)
      | @inner m _ d _ es' hp' hc hl =>
        obtain rfl := inner_inj hp hp'
        refine hroute k a m hlo hhi ?_
        have hd : routeFrom k c es = d := Option.some.inj hc
        rw [hd]
        exact hl

theorem Kids.keys (hr : Mode r) (h : Kids (Bounded r σ 0) lo hi es) :
    ∀ e ∈ es, ∀ x ∈ entriesAt σ e.2, AtLeast lo x.1 ∧ Under r hi x.1 := by
  induction es generalizing lo with
  | nil => exact h.elim
  | cons e es ih =>
    cases es with
    | nil =>
      intro e' he' x hx
      rw [mem_singleton.mp he'] at hx
      exact h x hx
    | cons e₁ es =>
      obtain ⟨s, he₁, hlos, hhis, he, hrest⟩ := h
      intro e' he' x hx
      rcases mem_cons.mp he' with rfl | he'
      · obtain ⟨hl, hu⟩ := he x hx
        exact ⟨hl, fun b hb => hr.trans_le (hu s rfl) (hhis b hb).le⟩
      · obtain ⟨hl, hu⟩ := ih hrest e' he' x hx
        exact ⟨fun a ha => (hlos a ha).le.trans (hl s rfl), hu⟩

/-- Keys increase along the row. -/
theorem Kids.pairwise (hr : Mode r) (h : Kids (Bounded r σ 0) lo hi es) : (es.map Prod.snd).Pairwise
      (fun a b => ∀ x ∈ entriesAt σ a, ∀ y ∈ entriesAt σ b, r x.1 y.1) := by
  induction es generalizing lo with
  | nil => exact h.elim
  | cons e es ih =>
    cases es with
    | nil => exact pairwise_singleton _ _
    | cons e₁ es =>
      obtain ⟨s, he₁, hlos, hhis, he, hrest⟩ := h
      refine pairwise_cons.mpr ⟨?_, ih hrest⟩
      intro b hb x hx y hy
      obtain ⟨e', he', rfl⟩ := mem_map.mp hb
      exact hr.trans_le ((he x hx).2 s rfl) ((hrest.keys hr e' he' y hy).1 s rfl)

/-- The chain around the leaf that `k` leads to: the key lies in this leaf or in the one before. -/
theorem Ordered.land (hr : Mode r) (ho : Ordered r σ n root ch) (hl : Leads σ k m root a) :
    ∃ pre post, ch = pre ++ a :: post ∧ (∀ b ∈ post, ∀ x ∈ entriesAt σ b, k < x.1) ∧
      (∀ b ∈ pre, ∀ x ∈ entriesAt σ b, x.1 ≤ k) ∧
      (∀ pre' b, pre = pre' ++ [b] → ∀ c ∈ pre', ∀ x ∈ entriesAt σ c, x.1 < k) := by
  have hfree : AtLeast none k ∧ Below none k :=
    ⟨fun a ha => (by cases ha), fun b hb => (by cases hb)⟩
  obtain ⟨c, es, hleaves, hkids, hroute⟩ := ho.bounded.flat ho.shape
  obtain ⟨pre, e, post, lo', hi', heq, he, hf⟩ :=
    hkids.focus (k := k) (fun a ha => (by cases ha)) hfree.1 hfree.2
  have hea : e.2 = a := by
    rw [← he]
    exact hroute k a m hfree.1 hfree.2 hl
  rw [heq] at hleaves hkids
  refine ⟨pre.map Prod.snd, post.map Prod.snd, ?_, ?_, ?_, ?_⟩
  · rw [ho.order, hleaves, map_append, map_cons, hea]
  · intro b hb x hx
    obtain ⟨f, hf', rfl⟩ := mem_map.mp hb
    cases post with
    | nil => cases hf'
    | cons f₀ post =>
      have hsplit : pre ++ e :: f₀ :: post = (pre ++ [e]) ++ f₀ :: post := by simp
      rw [hsplit] at hkids
      obtain ⟨s, hs, -, -, -, hright⟩ := hkids.split (by simp)
      have hks : k < s := hf.upper s ((hf.hi_cons f₀ rfl).trans hs)
      exact lt_of_lt_of_le hks ((hright.keys hr f hf' x hx).1 s rfl)
  · intro b hb x hx
    obtain ⟨f, hf', rfl⟩ := mem_map.mp hb
    have hpre := ne_nil_of_mem hf'
    obtain ⟨s, hs, -, -, hleft, -⟩ := hkids.split hpre
    have hsk : s ≤ k := hf.lower s ((hf.lo_cons hpre).trans hs)
    exact (hr.le ((hleft.keys hr f hf' x hx).2 s rfl)).trans hsk
  · intro pre' b hpb c' hc' x hx
    obtain ⟨pre₀, f, rfl⟩ := eq_nil_or_concat pre |>.resolve_left (fun hnil => by
      rw [hnil] at hpb
      exact append_ne_nil_of_right_ne_nil pre' (cons_ne_nil b []) hpb.symm)
    rw [concat_eq_append] at hkids hpb hf
    rw [map_append, map_singleton] at hpb
    obtain ⟨rfl, -⟩ := append_inj' hpb rfl
    obtain ⟨g, hg, rfl⟩ := mem_map.mp hc'
    obtain ⟨s, hs, -, -, hleft, -⟩ := hkids.split (by simp)
    have hsk : s ≤ k := hf.lower s ((hf.lo_cons (by simp)).trans hs)
    obtain ⟨t, ht, -, hts, hleft', -⟩ := hleft.split (ne_nil_of_mem hg)
    exact (hr.le ((hleft'.keys hr g hg x hx).2 t rfl)).trans_lt ((hts s rfl).trans_le hsk)

theorem valuesOf_add (k : K) (es es' : Multiset (K × V)) :
    valuesOf k (es + es') = valuesOf k es + valuesOf k es' := by
  unfold valuesOf
  rw [Multiset.filter_add, Multiset.map_add]

theorem valuesOf_eq_zero {es : Multiset (K × V)} (h : ∀ x ∈ es, x.1 ≠ k) : valuesOf k es = 0 := by
  unfold valuesOf
  rw [Multiset.filter_eq_nil.mpr h, Multiset.map_zero]

omit [LinearOrder K] in
theorem content_ne {ls : List P} (h : ∀ b ∈ ls, ∀ x ∈ entriesAt σ b, x.1 ≠ k) :
    ∀ x ∈ content σ ls, x.1 ≠ k := by
  intro x hx
  obtain ⟨b, hb, hx⟩ := mem_content.mp hx
  exact h b hb x hx

theorem not_endsWith {es : Multiset (K × V)} (h : ∀ x ∈ es, x.1 ≠ k) : ¬ EndsWith k es := by
  rintro ⟨⟨x, hx, hxk⟩, -⟩
  exact h x hx hxk

variable {i : ℕ} {b : P}

/-- Where the walk to the left ends on an ordered tree: at the leaf itself, and then the leaf before
does not hold the key, or at the leaf before, and then none before that one does. -/
theorem Ordered.rewind (hr : Mode r) (ho : Ordered r σ n root ch) (hl : Leads σ k m root a)
    (hw : Rewind σ k i a b) :
    ∃ pre post, ch = pre ++ a :: post ∧ (∀ c ∈ post, ∀ x ∈ entriesAt σ c, x.1 ≠ k) ∧
      ((b = a ∧ ∀ c ∈ pre, ∀ x ∈ entriesAt σ c, x.1 ≠ k) ∨
        ∃ pre', pre = pre' ++ [b] ∧ EndsWith k (entriesAt σ b) ∧
          ∀ c ∈ pre', ∀ x ∈ entriesAt σ c, x.1 ≠ k) := by
  obtain ⟨pre, post, rfl, hpost, hpre, hpre'⟩ := ho.land hr hl
  refine ⟨pre, post, rfl, fun c hc x hx => (hpost c hc x hx).ne', ?_⟩
  have hlink := ho.linked
  obtain ⟨es, ha⟩ := hlink.at
  rcases eq_nil_or_concat pre with rfl | ⟨pre₀, p, rfl⟩
  · left
    cases hw with
    | stop _ _ => exact ⟨rfl, fun c hc => by cases hc⟩
    | step ha' _ _ =>
      rw [ha] at ha'
      cases ha'
  · rw [concat_eq_append] at *
    rw [getLast?_append, getLast?_singleton, some_or, some_or] at ha
    have hlt := hpre' pre₀ p rfl
    cases hw with
    | stop ha' hstop =>
      left
      obtain ⟨rfl, -, -⟩ := leaf_inj ha ha'
      refine ⟨rfl, fun c hc x hx => ?_⟩
      rcases mem_append.mp hc with hc | hc
      · exact (hlt c hc x hx).ne
      · rintro rfl
        obtain rfl := mem_singleton.mp hc
        exact hstop c rfl ⟨⟨x, hx, rfl⟩, hpre c (mem_append_right _ hc)⟩
    | @step i _ p' _ _ _ ha' hend hw =>
      right
      obtain ⟨hp', -, -⟩ := leaf_inj ha ha'
      obtain rfl := Option.some.inj hp'
      have hne : ∀ c ∈ pre₀, ∀ x ∈ entriesAt σ c, x.1 ≠ k := fun c hc x hx => (hlt c hc x hx).ne
      -- the leaf before the leaf before does not hold the key
      rw [append_assoc] at hlink
      obtain ⟨es', hp⟩ := hlink.at
      cases hw with
      | stop _ _ => exact ⟨pre₀, rfl, hend, hne⟩
      | @step _ _ q _ _ _ hp' hend' _ =>
        obtain ⟨hq, -, -⟩ := leaf_inj hp hp'
        rw [or_none] at hq
        exact absurd hend' (not_endsWith (hne q (mem_of_getLast? hq)))

/-- What is gathered along a chain is stored in its leaves. -/
theorem Gather.le {j : ℕ} {p : Option P} {vs : Multiset V} (h : Gather σ k j p vs) {prev : Option P}
    {ls : List P} (hl : Linked σ prev ls) (hp : ls.head? = p) : vs ≤ valuesOf k (content σ ls) := by
  induction h generalizing prev ls with
  | done => exact zero_le
  | @stop a l r es ha hend =>
    obtain ⟨ls, rfl⟩ := head?_eq_some_iff.mp hp
    rw [content_cons, entriesAt_leaf ha, valuesOf_add]
    exact le_self_add
  | @step n a l r es vs ha hend _ ih =>
    obtain ⟨ls, rfl⟩ := head?_eq_some_iff.mp hp
    obtain ⟨⟨es', ha'⟩, hl⟩ := hl
    obtain ⟨-, rfl, rfl⟩ := leaf_inj ha ha'
    rw [content_cons, entriesAt_leaf ha, valuesOf_add]
    exact add_le_add_right (ih hl rfl) _

/-- A lookup on an ordered tree gathers every value under the key. -/
theorem gather_eq (hr : Mode r) {j : ℕ} (ho : Ordered r σ n root ch) {vs : Multiset V}
    (hl : Leads σ k m root a) (hw : Rewind σ k i a b) (hg : Gather σ k j (some b) vs) :
    vs = valuesOf k (content σ ch) := by
  obtain ⟨pre, post, rfl, hpost, hcase⟩ := ho.rewind hr hl hw
  have hlink := ho.linked
  obtain ⟨es, ha⟩ := hlink.at
  -- from the leaf the key leads to, nothing more is found on the right
  have hfrom : ∀ {j : ℕ} {vs : Multiset V}, Gather σ k j (some a) vs → vs = valuesOf k (entriesAt σ a) := by
    intro j vs hg
    rw [entriesAt_leaf ha]
    cases hg with
    | stop ha' _ =>
      obtain ⟨-, -, rfl⟩ := leaf_inj ha ha'
      rfl
    | step ha' _ hg =>
      obtain ⟨-, rfl, rfl⟩ := leaf_inj ha ha'
      cases post with
      | nil =>
        cases hg with
        | done => exact add_zero _
      | cons c post =>
        have hne := hpost c mem_cons_self
        cases hg with
        | stop hc _ =>
          rw [entriesAt_leaf hc] at hne
          rw [valuesOf_eq_zero hne, add_zero]
        | step hc hend _ =>
          rw [entriesAt_leaf hc] at hne
          exact absurd hend (not_endsWith hne)
  have hzero : valuesOf k (content σ post) = 0 := valuesOf_eq_zero (content_ne hpost)
  rw [content_append, content_cons, valuesOf_add, valuesOf_add, hzero, add_zero]
  rcases hcase with ⟨rfl, hpre⟩ | ⟨pre', rfl, hend, hpre⟩
  · rw [hfrom hg, valuesOf_eq_zero (content_ne hpre), zero_add]
  · rw [append_assoc] at hlink
    obtain ⟨es', hb⟩ := hlink.at
    rw [entriesAt_leaf hb] at hend
    cases hg with
    | stop hb' hend' =>
      obtain ⟨-, -, rfl⟩ := leaf_inj hb hb'
      exact absurd hend hend'
    | step hb' _ hg =>
      obtain ⟨-, rfl, rfl⟩ := leaf_inj hb hb'
      rw [hfrom hg, content_append, content_cons, valuesOf_add, valuesOf_add,
        valuesOf_eq_zero (content_ne hpre), zero_add, entriesAt_leaf hb]
      have hempty : valuesOf k (content σ ([] : List P)) = 0 :=
        valuesOf_eq_zero (fun x hx => absurd hx (Multiset.notMem_zero x))
      rw [hempty, add_zero]

/-- A search that finds no entry on an ordered tree: there is none. -/
theorem seek_none (hr : Mode r) {j : ℕ} (ho : Ordered r σ n root ch) {v : V}
    (hl : Leads σ k m root a) (hw : Rewind σ k i a b) (hs : Seek σ k v j b none) :
    (k, v) ∉ content σ ch := by
  obtain ⟨pre, post, rfl, hpost, hcase⟩ := ho.rewind hr hl hw
  have hlink := ho.linked
  obtain ⟨es, ha⟩ := hlink.at
  have hfrom : ∀ {j : ℕ}, Seek σ k v j a none → (k, v) ∉ entriesAt σ a := by
    intro j hs
    cases hs with
    | stop ha' hmem _ =>
      rw [entriesAt_leaf ha']
      exact hmem
    | step ha' hmem _ _ =>
      rw [entriesAt_leaf ha']
      exact hmem
  have hout : ∀ {ls : List P}, (∀ c ∈ ls, ∀ x ∈ entriesAt σ c, x.1 ≠ k) → (k, v) ∉ content σ ls :=
    fun h hx => content_ne h (k, v) hx rfl
  rw [content_append, content_cons, Multiset.mem_add, Multiset.mem_add, not_or, not_or]
  rcases hcase with ⟨rfl, hpre⟩ | ⟨pre', rfl, hend, hpre⟩
  · exact ⟨hout hpre, hfrom hs, hout hpost⟩
  · rw [append_assoc] at hlink
    obtain ⟨es', hb⟩ := hlink.at
    rw [entriesAt_leaf hb] at hend
    rw [content_append, content_cons, Multiset.mem_add, Multiset.mem_add, not_or, not_or,
      entriesAt_leaf hb]
    have hnil : (k, v) ∉ content σ ([] : List P) := Multiset.notMem_zero _
    cases hs with
    | stop hb' _ hend' =>
      obtain ⟨-, rfl, rfl⟩ := leaf_inj hb hb'
      exact absurd ⟨hend, some_ne_none a⟩ hend'
    | step hb' hmem _ hs =>
      obtain ⟨-, hr', rfl⟩ := leaf_inj hb hb'
      obtain rfl := Option.some.inj hr'
      exact ⟨⟨hout hpre, hmem, hnil⟩, hfrom hs, hout hpost⟩

end Ordered

end BTree
