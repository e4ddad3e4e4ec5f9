import CrustyDB.Lib.BTree.Chain

/-! # Search order

`Bounded r σ n p lo hi`: the keys below `p` lie between `lo` and `hi`, and the separators of every
inner node cut this range into the ranges of its children.  Separators increase strictly; a key of
a leaf may equal its upper bound when `r` is `≤`, and may not when `r` is `<`.

An insertion whose split does not cut at a separator that the tree has already keeps the bounds and
puts the new leaf behind the one it was split from (`Ins.bounded`, `Insert.bounded`), and the leaf
a key leads to is the last one that may hold it (`Bounded.land`). -/

namespace BTree

open List Function

variable {K V P : Type} [LinearOrder K]

/-! ### Ranges -/

/-- The key is at or above the lower bound. -/
def AtLeast (lo : Option K) (k : K) : Prop := ∀ a, lo = some a → a ≤ k

/-- The key is strictly above the lower bound. -/
def Above (lo : Option K) (k : K) : Prop := ∀ a, lo = some a → a < k

/-- The key is strictly below the upper bound. -/
def Below (hi : Option K) (k : K) : Prop := ∀ b, hi = some b → k < b

/-- The key is related to the upper bound. -/
def Under (r : K → K → Prop) (hi : Option K) (k : K) : Prop := ∀ b, hi = some b → r k b

/-- `r` is `<` or `≤`, or lies between the two. -/
structure Mode (r : K → K → Prop) : Prop where
  of_lt : ∀ {a b : K}, a < b → r a b
  le : ∀ {a b : K}, r a b → a ≤ b

theorem Mode.lt : Mode (fun a b : K => a < b) := ⟨id, le_of_lt⟩

theorem Mode.le' : Mode (fun a b : K => a ≤ b) := ⟨le_of_lt, id⟩

theorem Mode.trans_le {r : K → K → Prop} (hr : Mode r) {a b c : K} (h : r a b) (h' : b ≤ c) :
    r a c := by
  rcases h'.eq_or_lt with rfl | h'
  · exact h
  · exact hr.of_lt (lt_of_le_of_lt (hr.le h) h')

variable {k : K}

theorem Above.of_ne {lo : Option K} (h : AtLeast lo k) (hne : lo ≠ some k) : Above lo k := by
  intro a ha
  refine lt_of_le_of_ne (h a ha) ?_
  rintro rfl
  exact hne ha

theorem Below.of_ne {r : K → K → Prop} (hr : Mode r) {hi : Option K} (h : Under r hi k)
    (hne : hi ≠ some k) : Below hi k := by
  intro b hb
  refine lt_of_le_of_ne (hr.le (h b hb)) ?_
  rintro rfl
  exact hne hb

/-! ### The children of a node -/

/-- The children cut the range from `lo` to `hi` at their separators, that of the first child
aside; `B` says what a child owes its range. -/
def Kids (B : P → Option K → Option K → Prop) : Option K → Option K → List (Option K × P) → Prop
  | _, _, [] => False
  | lo, hi, [e] => B e.2 lo hi
  | lo, hi, e :: e' :: es => ∃ s, e'.1 = some s ∧ Above lo s ∧ Below hi s ∧ B e.2 lo (some s) ∧
      Kids B (some s) hi (e' :: es)

variable {B B' : P → Option K → Option K → Prop} {lo hi : Option K} {es : List (Option K × P)}
  {c : P}

theorem Kids.mono (h : Kids B lo hi es) (hB : ∀ e ∈ es, ∀ lo hi, B e.2 lo hi → B' e.2 lo hi) :
    Kids B' lo hi es := by
  induction es generalizing lo with
  | nil => exact h
  | cons e es ih =>
    cases es with
    | nil => exact hB e mem_cons_self _ _ h
    | cons e' es =>
      obtain ⟨s, he', hlo, hhi, he, hes⟩ := h
      exact ⟨s, he', hlo, hhi, hB e mem_cons_self _ _ he,
        ih hes (fun x hx => hB x (mem_cons_of_mem _ hx))⟩

/-- The separator of the first child plays no role. -/
theorem Kids.head {s t : Option K} (h : Kids B lo hi ((s, c) :: es)) :
    Kids B lo hi ((t, c) :: es) := by
  cases es with
  | nil => exact h
  | cons e' es => exact h

/-- A row of children cut in two. -/
theorem Kids.split {es' : List (Option K × P)} {e : Option K × P} (hne : es ≠ [])
    (h : Kids B lo hi (es ++ e :: es')) : ∃ s, e.1 = some s ∧ Above lo s ∧ Below hi s ∧
      Kids B lo (some s) es ∧ Kids B (some s) hi (e :: es') := by
  induction es generalizing lo with
  | nil => exact absurd rfl hne
  | cons x es ih =>
    cases es with
    | nil =>
      obtain ⟨s, he, hlo, hhi, hx, hes⟩ := h
      exact ⟨s, he, hlo, hhi, hx, hes⟩
    | cons y es =>
      obtain ⟨t, hy, hlo, hhi, hx, hes⟩ := h
      obtain ⟨s, he, hts, hshi, hl, hr⟩ := ih (cons_ne_nil _ _) hes
      refine ⟨s, he, fun a ha => (hlo a ha).trans (hts t rfl), hshi, ?_, hr⟩
      exact ⟨t, hy, hlo, fun b hb => Option.some.inj hb ▸ hts t rfl, hx, hl⟩

/-- Two rows of children put together. -/
theorem Kids.append {es' : List (Option K × P)} {s : K} {t : Option K} (h : Kids B lo (some s) es)
    (hlo : Above lo s) (hhi : Below hi s) (h' : Kids B (some s) hi ((t, c) :: es')) :
    Kids B lo hi (es ++ (some s, c) :: es') := by
  induction es generalizing lo with
  | nil => exact h.elim
  | cons x es ih =>
    cases es with
    | nil => exact ⟨s, rfl, hlo, hhi, h, h'.head⟩
    | cons y es =>
      obtain ⟨u, hy, hlou, hus, hx, hes⟩ := h
      refine ⟨u, hy, hlou, fun b hb => (hus s rfl).trans (hhi b hb), hx, ?_⟩
      exact ih hes (fun a ha => Option.some.inj ha ▸ hus s rfl)

/-- The child `e` that is followed for `k`, with its range, and what may be put in its place. -/
structure Focus (B : P → Option K → Option K → Prop) (k : K) (lo hi : Option K)
    (pre : List (Option K × P)) (e : Option K × P) (post : List (Option K × P))
    (lo' hi' : Option K) : Prop where
  child : B e.2 lo' hi'
  lower : AtLeast lo' k
  upper : Below hi' k
  lo_nil : pre = [] → lo' = lo
  lo_cons : pre ≠ [] → lo' = e.1
  hi_nil : post = [] → hi' = hi
  hi_cons : ∀ x ∈ post.head?, hi' = x.1
  stay : ∀ B' : P → Option K → Option K → Prop,
    (∀ x ∈ pre ++ post, ∀ lo hi, B x.2 lo hi → B' x.2 lo hi) → B' e.2 lo' hi' →
      Kids B' lo hi (pre ++ e :: post)
  grow : ∀ (B' : P → Option K → Option K → Prop) (s : K) (q : P),
    (∀ x ∈ pre ++ post, ∀ lo hi, B x.2 lo hi → B' x.2 lo hi) → Above lo' s → Below hi' s →
      B' e.2 lo' (some s) → B' q (some s) hi' →
      insertEntry (some s, q) (pre ++ e :: post) = pre ++ e :: (some s, q) :: post ∧
        Kids B' lo hi (pre ++ e :: (some s, q) :: post) ∧ Above lo s ∧ Below hi s

/-- The bounds of the child are those of the node or separators of it. -/
theorem Focus.mem {pre post : List (Option K × P)} {e : Option K × P} {lo' hi' : Option K}
    (h : Focus B k lo hi pre e post lo' hi') : (lo' = lo ∨ lo' ∈ (pre ++ e :: post).map Prod.fst) ∧
      (hi' = hi ∨ hi' ∈ (pre ++ e :: post).map Prod.fst) := by
  constructor
  · by_cases hpre : pre = []
    · exact Or.inl (h.lo_nil hpre)
    · right
      rw [h.lo_cons hpre]
      simp
  · cases post with
    | nil => exact Or.inl (h.hi_nil rfl)
    | cons x post =>
      right
      rw [h.hi_cons x rfl]
      simp

theorem Kids.focus {e₀ : Option K × P} (h : Kids B lo hi (e₀ :: es))
    (hfirst : ∀ a, e₀.1 = some a → lo = some a) (hlo : AtLeast lo k) (hhi : Below hi k) :
    ∃ pre e post lo' hi', e₀ :: es = pre ++ e :: post ∧ routeFrom k e₀.2 es = e.2 ∧
      Focus B k lo hi pre e post lo' hi' := by
  have hle : ∀ s : K, Above lo s → SepLe e₀.1 (some s) := by
    intro s hs
    cases h0 : e₀.1 with
    | none => exact trivial
    | some a => exact (hs a (hfirst a h0)).le
  induction es generalizing e₀ lo with
  | nil =>
    refine ⟨[], e₀, [], lo, hi, rfl, rfl, h, hlo, hhi, fun _ => rfl, fun hne => absurd rfl hne,
      fun _ => rfl, fun x hx => (by cases hx), fun _ _ hB => hB, ?_⟩
    intro B' s q _ hs hs' hl hr
    refine ⟨?_, ⟨s, rfl, hs, hs', hl, hr⟩, hs, hs'⟩
    show insertEntry _ [e₀] = _
    rw [insertEntry, if_pos (hle s hs)]
    rfl
  | cons e₁ es ih =>
    obtain ⟨s₁, he₁, hlo₁, hhi₁, h₀, hrest⟩ := h
    by_cases hk : s₁ ≤ k
    · -- the path goes on to the right
      have hle₁ : ∀ s : K, Above (some s₁) s → SepLe e₁.1 (some s) := by
        intro s hs
        rw [he₁]
        exact (hs s₁ rfl).le
      obtain ⟨pre, e, post, lo', hi', heq, hroute, hf⟩ := ih hrest
        (fun a ha => he₁.symm.trans ha) (fun a ha => Option.some.inj ha ▸ hk) hle₁
      refine ⟨e₀ :: pre, e, post, lo', hi', by rw [heq, cons_append], ?_, hf.child, hf.lower,
        hf.upper, fun hnil => absurd hnil (cons_ne_nil _ _), ?_, hf.hi_nil, hf.hi_cons, ?_, ?_⟩
      · rw [← hroute]
        obtain ⟨s, c⟩ := e₁
        cases he₁
        rw [routeFrom, if_pos hk]
      · intro _
        cases pre with
        | nil =>
          obtain rfl := (List.cons.inj heq).1
          exact (hf.lo_nil rfl).trans he₁.symm
        | cons x pre => exact hf.lo_cons (cons_ne_nil _ _)
      · intro B' hB hc
        have hk' := hf.stay B' (fun x hx => hB x (mem_cons_of_mem _ hx)) hc
        rw [← heq] at hk'
        rw [cons_append, ← heq]
        exact ⟨s₁, he₁, hlo₁, hhi₁, hB e₀ mem_cons_self _ _ h₀, hk'⟩
      · intro B' s q hB hs hs' hl hr
        obtain ⟨hins, hkids, habove, hbelow⟩ :=
          hf.grow B' s q (fun x hx => hB x (mem_cons_of_mem _ hx)) hs hs' hl hr
        have hlos : Above lo s := fun a ha => (hlo₁ a ha).trans (habove s₁ rfl)
        refine ⟨?_, ?_, hlos, hbelow⟩
        · rw [cons_append, insertEntry, if_pos (hle s hlos), hins, cons_append]
        · rw [← heq, insertEntry, if_pos (hle₁ s habove)] at hins
          rw [cons_append, ← hins]
          rw [← hins] at hkids
          exact ⟨s₁, he₁, hlo₁, hhi₁, hB e₀ mem_cons_self _ _ h₀, hkids⟩
    · -- the first child is the one
      rw [not_le] at hk
      refine ⟨[], e₀, e₁ :: es, lo, some s₁, rfl, ?_, h₀, hlo, fun b hb => Option.some.inj hb ▸ hk,
        fun _ => rfl, fun hne => absurd rfl hne, fun hnil => absurd hnil (cons_ne_nil _ _),
        ?_, ?_, ?_⟩
      · obtain ⟨s, c⟩ := e₁
        cases he₁
        rw [routeFrom, if_neg (not_le.mpr hk)]
      · intro x hx
        cases hx
        exact he₁.symm
      · intro B' hB hc
        exact ⟨s₁, he₁, hlo₁, hhi₁, hc, hrest.mono hB⟩
      · intro B' s q hB hs hs' hl hr
        have hss₁ := hs' s₁ rfl
        have hhis : Below hi s := fun b hb => hss₁.trans (hhi₁ b hb)
        refine ⟨?_, ⟨s, rfl, hs, hhis, hl, s₁, he₁, fun a ha => Option.some.inj ha ▸ hss₁, hhi₁, hr,
          hrest.mono hB⟩, hs, hhis⟩
        show insertEntry _ (e₀ :: e₁ :: es) = _
        rw [insertEntry, if_pos (hle s hs), insertEntry, if_neg]
        · rfl
        · rw [he₁]
          exact not_le.mpr hss₁

/-! ### Trees -/

/-- The keys and separators below `p`, which is at height `n`, cut the range from `lo` to `hi`. -/
def Bounded (r : K → K → Prop) (σ : Store K V P) : ℕ → P → Option K → Option K → Prop
  | 0, p, lo, hi => ∀ x ∈ entriesAt σ p, AtLeast lo x.1 ∧ Under r hi x.1
  | n + 1, p, lo, hi => ∃ c es, σ p = some (.inner ((none, c) :: es)) ∧
      Kids (Bounded r σ n) lo hi ((none, c) :: es)

variable {r : K → K → Prop} {σ : Store K V P} {n : ℕ} {p : P}

theorem Bounded.congr {τ : Store K V P} (h : Bounded r σ n p lo hi)
    (hτ : ∀ x ∈ pages σ n p, kindAt τ x = kindAt σ x ∧ entriesAt τ x = entriesAt σ x) :
    Bounded r τ n p lo hi := by
  induction n generalizing p lo hi with
  | zero =>
    intro x hx
    rw [(hτ p (mem_pages_self σ 0 p)).2] at hx
    exact h x hx
  | succ n ih =>
    obtain ⟨c, es, hp, hkids⟩ := h
    refine ⟨c, es, ?_, hkids.mono (fun e he lo hi hb => ih hb (fun x hx => hτ x ?_))⟩
    · exact inner_of_kindAt (hτ p (mem_pages_self σ (n + 1) p)).1 hp
    · rw [pages, childrenAt_inner hp]
      exact mem_cons_of_mem _ (mem_flatMap.mpr ⟨e.2, mem_map_of_mem he, hx⟩)

/-- What stands in the place of `p` after an insertion below it: `p` alone, or `p` and the page
that it hands up, with the range cut at the separator between them. -/
def Seated (r : K → K → Prop) (σ : Store K V P) (n : ℕ) (p : P) (lo hi : Option K) :
    Option (K × P) → Prop
  | none => Bounded r σ n p lo hi
  | some (t, q) => Above lo t ∧ Below hi t ∧ Bounded r σ n p lo (some t) ∧ Bounded r σ n q (some t) hi

variable {out : Option (K × P)}

theorem Seated.congr {τ : Store K V P} (h : Seated r σ n p lo hi out)
    (hτ : ∀ t ∈ p :: added out, ∀ x ∈ pages σ n t,
      kindAt τ x = kindAt σ x ∧ entriesAt τ x = entriesAt σ x) : Seated r τ n p lo hi out := by
  cases out with
  | none => exact Bounded.congr h (hτ p mem_cons_self)
  | some sq =>
    obtain ⟨hlo, hhi, hp, hq⟩ := h
    exact ⟨hlo, hhi, hp.congr (hτ p mem_cons_self),
      hq.congr (hτ sq.2 (mem_cons_of_mem _ (mem_singleton_self _)))⟩

/-! ### Insertion -/

variable [DecidableEq P] {v : V} {σ' : Store K V P} {a : P} {new : Option (K × P)}

theorem Ins.entriesAt_eq {x : P} (h : Ins k v σ p σ' out a new) (hxa : x ≠ a) (hx : σ x ≠ none) :
    entriesAt σ' x = entriesAt σ x := by
  obtain ⟨τ, hτ, -, hent⟩ := h.leafIns
  rw [hent, hτ.entriesAt_eq hxa (fun hxn => hx (hτ.grown.fresh_none x hxn))]

/-- Around the child `c` that an insertion goes through, its siblings stay as they were, and so do
the trees in the place of `c` when the node above is written. -/
theorem Ins.around {σ₁ : Store K V P} (h : Ins k v σ c σ₁ out a new) (hp : σ p = some (.inner es))
    (hc : route k es = some c) (hsh : Shape σ (n + 1) p) (hnd : (pages σ (n + 1) p).Nodup)
    (hkind : ∀ x, x ≠ p → σ₁ x ≠ none → kindAt σ' x = kindAt σ₁ x)
    (hent : ∀ x, entriesAt σ' x = entriesAt σ₁ x) : (∀ t ∈ c :: added out, ∀ x ∈ pages σ₁ n t,
        kindAt σ' x = kindAt σ₁ x ∧ entriesAt σ' x = entriesAt σ₁ x) ∧
      (∀ t ∈ es.map Prod.snd, t ≠ c → a ∉ leaves σ n t ∧
        ∀ x ∈ pages σ n t, kindAt σ' x = kindAt σ x ∧ entriesAt σ' x = entriesAt σ x) := by
  obtain ⟨rest, hperm, hne, hshs, hshc, hndc, hpc⟩ := hsh.child hp hc hnd
  obtain ⟨fresh, hg⟩ := h.grown hshc hndc
  have hpnone : σ p ≠ none := by
    simp [hp]
  have ha : a ∈ pages σ n c := (leaves_sublist_pages σ n c).subset (h.mem_leaves hshc)
  rw [pages, childrenAt_inner hp, nodup_cons] at hnd
  constructor
  · intro t ht x hx
    refine ⟨hkind x ?_ ((hg.shape t ht).ne_none hx), hent x⟩
    rintro rfl
    exact hg.not_mem hpnone hpc t ht hx
  · intro t ht htc
    have hsht : Shape σ n t := by
      obtain ⟨e, he, rfl⟩ := mem_map.mp ht
      exact hshs e he
    -- the pages of siblings are disjoint
    have hdisj : List.Disjoint (pages σ n c) (pages σ n t) := by
      have hnd' := (hperm.flatMap_right (pages σ n)).nodup_iff.mp hnd.2
      have ht' : t ∈ rest := by
        rcases mem_cons.mp (hperm.mem_iff.mp ht) with rfl | ht'
        · exact absurd rfl htc
        · exact ht'
      intro x hxc hxt
      exact disjoint_of_nodup_append hnd' hxc (mem_flatMap.mpr ⟨t, ht', hxt⟩)
    refine ⟨fun hat => hdisj ha ((leaves_sublist_pages σ n t).subset hat), fun x hx => ?_⟩
    have hxn : σ x ≠ none := hsht.ne_none hx
    have hxc : x ∉ pages σ n c := fun hxc => hdisj hxc hx
    have hxp : x ≠ p := by
      rintro rfl
      exact hnd.1 (mem_flatMap.mpr ⟨t, ht, hx⟩)
    constructor
    · rw [hkind x hxp ((hg.dom x).mpr (Or.inl hxn)), hg.frame x hxc hxn]
    · have hxa : x ≠ a := fun hxa => hxc (hxa ▸ ha)
      rw [hent, h.entriesAt_eq hxa hxn]

/-- The cut of a split is new: it is none of the separators `ss` and not one of the bounds.  When
`r` is strict this is so by itself. -/
def NewCut (r : K → K → Prop) (σ' : Store K V P) (a : P) (lo hi : Option K) (ss : Multiset K)
    (new : Option (K × P)) : Prop :=
  ∀ s q, new = some (s, q) → (∀ x ∈ entriesAt σ' a, r x.1 s) ∧
    ((∀ a b, r a b → a < b) ∨ (lo ≠ some s ∧ hi ≠ some s ∧ s ∉ ss))

omit [DecidableEq P] in
theorem NewCut.congr {ss : Multiset K} (h : NewCut r σ' a lo hi ss new)
    (hent : entriesAt σ' a = entriesAt σ a) : NewCut r σ a lo hi ss new := by
  intro s q hsq
  obtain ⟨hleft, hcut⟩ := h s q hsq
  rw [hent] at hleft
  exact ⟨hleft, hcut⟩

theorem LeafIns.bounded (hr : Mode r) (h : LeafIns k v σ a σ' new) (hb : Bounded r σ 0 a lo hi)
    (hlo : AtLeast lo k) (hhi : Below hi k) (hnew : NewCut r σ' a lo hi 0 new) :
    Seated r σ' 0 a lo hi new := by
  have hall : ∀ x ∈ (k, v) ::ₘ entriesAt σ a, AtLeast lo x.1 ∧ Under r hi x.1 := by
    intro x hx
    rcases Multiset.mem_cons.mp hx with rfl | hx
    · exact ⟨hlo, fun b hb => hr.of_lt (hhi b hb)⟩
    · exact hb x hx
  cases h with
  | @add l r' es ha =>
    intro x hx
    rw [entriesAt_leaf (update_self _ _ _), ← entriesAt_leaf ha] at hx
    exact hall x hx
  | @split l r' es xs ys q s ha hq hsum hxs hs hle hge =>
    rw [entriesAt_leaf ha, hsum] at hall
    obtain ⟨hleft, hcut⟩ := hnew s q rfl
    obtain ⟨y, hy, rfl⟩ := hs
    have hqa : q ≠ a := ne_of_none hq ha
    have hya := hall y (Multiset.mem_add.mpr (Or.inr hy))
    have hcut' : Above lo y.1 ∧ Below hi y.1 := by
      rcases hcut with hstrict | ⟨hslo, hshi, -⟩
      · -- an entry of the left half lies between the lower bound and the cut
        obtain ⟨x, hx⟩ := Multiset.exists_mem_of_ne_zero hxs
        have hxy : x.1 < y.1 := by
          refine hstrict _ _ (hleft x ?_)
          rw [entriesAt_relink, entriesAt_leaf (update_self _ _ _)]
          exact hx
        have hxa := (hall x (Multiset.mem_add.mpr (Or.inl hx))).1
        exact ⟨fun b hb => (hxa b hb).trans_lt hxy, fun b hb => hstrict _ _ (hya.2 b hb)⟩
      · exact ⟨Above.of_ne hya.1 hslo, Below.of_ne hr hya.2 hshi⟩
    refine ⟨hcut'.1, hcut'.2, ?_, ?_⟩
    · intro x hx
      refine ⟨?_, fun b hb => Option.some.inj hb ▸ hleft x hx⟩
      rw [entriesAt_relink, entriesAt_leaf (update_self _ _ _)] at hx
      exact (hall x (Multiset.mem_add.mpr (Or.inl hx))).1
    · intro x hx
      rw [entriesAt_relink, entriesAt_leaf (show _ = some (Node.leaf (some a) r' ys) by
        rw [update_of_ne hqa, update_self])] at hx
      exact ⟨fun b hb => Option.some.inj hb ▸ hge x hx, (hall x (Multiset.mem_add.mpr (Or.inr hx))).2⟩

omit [LinearOrder K] [DecidableEq P] in
theorem children_nodup (h : (pages σ (n + 1) p).Nodup) : (childrenAt σ p).Nodup := by
  rw [pages, nodup_cons, nodup_flatMap] at h
  refine h.2.2.imp ?_
  rintro x y hxy rfl
  exact hxy (mem_pages_self σ n x) (mem_pages_self σ n x)

/-- An inner node whose child `c` has been inserted into: the row of its children. -/
theorem Ins.row {σ₁ : Store K V P} {c₀ : P} (h : Ins k v σ c σ₁ out a new)
    (hp : σ p = some (.inner ((none, c₀) :: es))) (hc : route k ((none, c₀) :: es) = some c)
    (hsh : Shape σ (n + 1) p) (hnd : (pages σ (n + 1) p).Nodup)
    (hkids : Kids (Bounded r σ n) lo hi ((none, c₀) :: es)) (hlo : AtLeast lo k) (hhi : Below hi k)
    (hnew : NewCut r σ₁ a lo hi (seps σ (n + 1) p) new)
    (ih : ∀ {lo hi : Option K}, Bounded r σ n c lo hi → AtLeast lo k → Below hi k →
      NewCut r σ₁ a lo hi (seps σ n c) new → Seated r σ₁ n c lo hi out ∧
        (c :: added out).flatMap (leaves σ₁ n) = growAt a (added new) (leaves σ n c))
    (hkind : ∀ x, x ≠ p → σ₁ x ≠ none → kindAt σ' x = kindAt σ₁ x)
    (hent : ∀ x, entriesAt σ' x = entriesAt σ₁ x) :
    ∃ pre e post, (none, c₀) :: es = pre ++ e :: post ∧ e.2 = c ∧
      (out = none → Kids (Bounded r σ' n) lo hi ((none, c₀) :: es)) ∧
      (∀ s q, out = some (s, q) →
        insertEntry (some s, q) ((none, c₀) :: es) = pre ++ e :: (some s, q) :: post ∧
          Kids (Bounded r σ' n) lo hi (pre ++ e :: (some s, q) :: post)) ∧
      (pre.map Prod.snd ++ (c :: added out) ++ post.map Prod.snd).flatMap (leaves σ' n) =
        growAt a (added new) (leaves σ (n + 1) p) := by
  obtain ⟨pre, e, post, lo', hi', heq, hroute, hf⟩ :=
    hkids.focus (k := k) (fun a ha => by cases ha) hlo hhi
  have hec : e.2 = c := by
    rw [← hroute]
    exact Option.some.inj hc
  obtain ⟨hin, hsib⟩ := h.around hp hc hsh hnd hkind hent
  rw [heq] at hsib
  -- the siblings are other pages than `c`
  have hother : ∀ x ∈ pre ++ post, x.2 ≠ c := by
    have hndc := children_nodup hnd
    rw [childrenAt_inner hp, heq, map_append, map_cons, nodup_middle,
      nodup_cons, ← map_append] at hndc
    intro x hx hxc
    exact hndc.1 (mem_map.mpr ⟨x, hx, hxc.trans hec.symm⟩)
  have hmem : ∀ x ∈ pre ++ post, x.2 ∈ (pre ++ e :: post).map Prod.snd := by
    intro x hx
    refine mem_map_of_mem ?_
    rcases mem_append.mp hx with hx | hx
    · exact mem_append_left _ hx
    · exact mem_append_right _ (mem_cons_of_mem _ hx)
  have hB : ∀ x ∈ pre ++ post, ∀ lo hi, Bounded r σ n x.2 lo hi → Bounded r σ' n x.2 lo hi :=
    fun x hx lo hi hb => hb.congr (hsib x.2 (hmem x hx) (hother x hx)).2
  -- a cut that is new for the node is new for the child
  have hcut : NewCut r σ₁ a lo' hi' (seps σ n c) new := by
    intro s q hsq
    obtain ⟨hleft, hcut⟩ := hnew s q hsq
    refine ⟨hleft, hcut.imp id ?_⟩
    rintro ⟨hslo, hshi, hss⟩
    have hsep : some s ∉ (pre ++ e :: post).map Prod.fst := by
      intro hmem
      refine hss (mem_seps_succ.mpr (Or.inl ?_))
      rw [sepsAt_inner hp, heq, Multiset.mem_coe, mem_filterMap]
      exact mem_map.mp hmem
    refine ⟨?_, ?_, fun hsc => hss (mem_seps_succ.mpr (Or.inr ⟨c, ?_, hsc⟩))⟩
    · intro hlos
      rcases hf.mem.1 with h' | h'
      · exact hslo (h'.symm.trans hlos)
      · exact hsep (hlos ▸ h')
    · intro hhis
      rcases hf.mem.2 with h' | h'
      · exact hshi (h'.symm.trans hhis)
      · exact hsep (hhis ▸ h')
    · rw [childrenAt_inner hp, heq, ← hec]
      exact mem_map_of_mem (mem_append_right _ mem_cons_self)
  obtain ⟨hseat, hleaves⟩ := ih (hec ▸ hf.child) hf.lower hf.upper hcut
  have hseat' := hseat.congr hin
  refine ⟨pre, e, post, heq, hec, ?_, ?_, ?_⟩
  · rintro rfl
    rw [heq]
    exact hf.stay _ hB (hec.symm ▸ hseat')
  · rintro s q rfl
    obtain ⟨hs, hs', hl, hrr⟩ := hseat'
    obtain ⟨hins, hkids', -, -⟩ := hf.grow _ s q hB hs hs' (hec.symm ▸ hl) hrr
    rw [heq]
    exact ⟨hins, hkids'⟩
  · have hside : ∀ l : List (Option K × P), (∀ x ∈ l, x ∈ pre ++ post) →
        (l.map Prod.snd).flatMap (leaves σ' n) =
          growAt a (added new) ((l.map Prod.snd).flatMap (leaves σ n)) := by
      intro l hl
      rw [growAt_of_not_mem]
      · refine flatMap_congr (fun t ht => ?_)
        obtain ⟨x, hx, rfl⟩ := mem_map.mp ht
        exact (tree_congr (fun y hy =>
          ((hsib x.2 (hmem x (hl x hx)) (hother x (hl x hx))).2 y hy).1)).2.1
      · intro hat
        obtain ⟨t, ht, hat⟩ := mem_flatMap.mp hat
        obtain ⟨x, hx, rfl⟩ := mem_map.mp ht
        exact (hsib x.2 (hmem x (hl x hx)) (hother x (hl x hx))).1 hat
    have hmid : (c :: added out).flatMap (leaves σ' n) = growAt a (added new) (leaves σ n c) := by
      rw [← hleaves]
      exact flatMap_congr (fun t ht => (tree_congr (fun y hy => (hin t ht y hy).1)).2.1)
    rw [leaves, childrenAt_inner hp, heq, map_append, map_cons, flatMap_append,
      flatMap_append, hside pre (fun x hx => mem_append_left _ hx), hmid,
      hside post (fun x hx => mem_append_right _ hx), flatMap_append, flatMap_cons,
      growAt_append, growAt_append, hec, append_assoc]

/-- An insertion below `p` whose cut is new keeps the bounds, and puts the new leaf behind the one
it was split from. -/
theorem Ins.bounded (hr : Mode r) (h : Ins k v σ p σ' out a new) (hsh : Shape σ n p)
    (hnd : (pages σ n p).Nodup) (hb : Bounded r σ n p lo hi) (hlo : AtLeast lo k) (hhi : Below hi k)
    (hnew : NewCut r σ' a lo hi (seps σ n p) new) : Seated r σ' n p lo hi out ∧
      (p :: added out).flatMap (leaves σ' n) = growAt a (added new) (leaves σ n p) := by
  induction h generalizing n lo hi with
  | @leaf σ' a new h =>
    obtain rfl := hsh.zero_of_leaf h.isLeaf
    refine ⟨h.bounded hr hb hlo hhi hnew, ?_⟩
    show (a :: added new).flatMap (fun x => [x]) = growAt a (added new) ([] ++ a :: [])
    rw [growAt_split (not_mem_nil) (not_mem_nil), append_nil]
    exact flatMap_singleton' _
  | @pass σ' p c a es new hp hc h ih =>
    obtain ⟨n, rfl⟩ := hsh.succ_of_inner hp
    obtain ⟨c₀, es₀, hp₀, hkids⟩ := hb
    obtain rfl := inner_inj hp hp₀
    obtain ⟨rest, -, -, -, hshc, hndc, hpc⟩ := hsh.child hp hc hnd
    obtain ⟨fresh, hg⟩ := h.grown hshc hndc
    have hp' : σ' p = some (.inner ((none, c₀) :: es₀)) :=
      inner_of_kindAt (hg.frame p hpc (by simp [hp])) hp
    obtain ⟨pre, e, post, heq, hec, hstay, -, hleaves⟩ := h.row hp hc hsh hnd hkids hlo hhi hnew
      (ih hshc hndc) (fun _ _ _ => rfl) (fun _ => rfl)
    refine ⟨⟨c₀, es₀, hp', hstay rfl⟩, ?_⟩
    rw [← hleaves]
    show [p].flatMap _ = _
    rw [flatMap_singleton, leaves, childrenAt_inner hp', heq, map_append, map_cons,
      hec, append_assoc]
    rfl
  | @add σ' p c a q s es es' new hp hc h hp' ih =>
    obtain ⟨n, rfl⟩ := hsh.succ_of_inner hp
    obtain ⟨c₀, es₀, hp₀, hkids⟩ := hb
    obtain rfl := inner_inj hp hp₀
    obtain ⟨rest, -, -, -, hshc, hndc, hpc⟩ := hsh.child hp hc hnd
    obtain ⟨fresh, hg⟩ := h.grown hshc hndc
    obtain rfl := inner_inj hp' (inner_of_kindAt (hg.frame p hpc (by simp [hp])) hp)
    have hent : ∀ x, entriesAt (Function.update σ' p
        (some (.inner (insertEntry (some s, q) ((none, c₀) :: es₀))))) x = entriesAt σ' x :=
      entriesAt_update_inner (not_isLeaf_inner hp')
    have hcut : NewCut r σ' a lo hi (seps σ (n + 1) p) new := hnew.congr (hent a)
    obtain ⟨pre, e, post, heq, hec, -, hgrow, hleaves⟩ := h.row hp hc hsh hnd hkids hlo hhi hcut
      (ih hshc hndc) (fun x hx _ => kindAt_update_ne hx) hent
    obtain ⟨hins, hkids'⟩ := hgrow s q rfl
    have hself : Function.update σ' p
        (some (.inner (insertEntry (some s, q) ((none, c₀) :: es₀)))) p =
        some (.inner ((none, c₀) :: insertEntry (some s, q) es₀)) := by
      rw [update_self, insertEntry, if_pos (show SepLe none (some s) from trivial)]
    rw [← hins, insertEntry, if_pos (show SepLe none (some s) from trivial)] at hkids'
    refine ⟨⟨c₀, _, hself, hkids'⟩, ?_⟩
    rw [← hleaves]
    show [p].flatMap _ = _
    rw [flatMap_singleton, leaves, childrenAt_inner (update_self _ _ _), hins,
      map_append, map_cons, map_cons, hec, append_assoc]
    rfl
  | @split σ' p c a q q' m s t es es' ls rs new hp hc h hp' hsplit hls hq' ih =>
    obtain ⟨n, rfl⟩ := hsh.succ_of_inner hp
    obtain ⟨c₀, es₀, hp₀, hkids⟩ := hb
    obtain rfl := inner_inj hp hp₀
    obtain ⟨rest, -, -, -, hshc, hndc, hpc⟩ := hsh.child hp hc hnd
    obtain ⟨fresh, hg⟩ := h.grown hshc hndc
    obtain rfl := inner_inj hp' (inner_of_kindAt (hg.frame p hpc (by simp [hp])) hp)
    have hqp : q' ≠ p := ne_of_none hq' hp'
    have hp'' : ¬ IsLeaf (Function.update σ' q' (some (.inner ((none, m) :: rs)))) p := by
      have hinner := hp'
      rw [← update_of_ne (Ne.symm hqp) (some (.inner ((none, m) :: rs))) σ'] at hinner
      exact not_isLeaf_inner hinner
    have hent : ∀ x, entriesAt (Function.update (Function.update σ' q'
        (some (.inner ((none, m) :: rs)))) p (some (.inner ls))) x = entriesAt σ' x := by
      intro x
      rw [entriesAt_update_inner hp'', entriesAt_update_inner (not_isLeaf_none hq')]
    have hcut : NewCut r σ' a lo hi (seps σ (n + 1) p) new := hnew.congr (hent a)
    have hkind' : ∀ x, x ≠ p → σ' x ≠ none → kindAt (Function.update (Function.update σ' q'
        (some (.inner ((none, m) :: rs)))) p (some (.inner ls))) x = kindAt σ' x := by
      intro x hx hxn
      have hxq : x ≠ q' := fun hxq => hxn (hxq ▸ hq')
      rw [kindAt_update_ne hx, kindAt_update_ne hxq]
    obtain ⟨pre, e, post, heq, hec, -, hgrow, hleaves⟩ := h.row hp hc hsh hnd hkids hlo hhi hcut
      (ih hshc hndc) hkind' hent
    obtain ⟨hins, hkids'⟩ := hgrow s q rfl
    rw [← hins, hsplit] at hkids'
    obtain ⟨t', ht', hlot, hhit, hleft, hright⟩ := hkids'.split hls
    obtain rfl := Option.some.inj ht'
    -- the left node still begins with the child without a separator
    obtain ⟨e', ls, rfl⟩ := exists_cons_of_ne_nil hls
    have hhead := hsplit
    rw [insertEntry, if_pos (show SepLe none (some s) from trivial), cons_append] at hhead
    obtain rfl := (List.cons.inj hhead).1
    refine ⟨⟨hlot, hhit, ⟨c₀, ls, update_self _ _ _, hleft⟩, ⟨m, rs, ?_, hright.head⟩⟩, ?_⟩
    · rw [update_of_ne hqp, update_self]
    · rw [← hleaves]
      show [p, q'].flatMap _ = _
      rw [flatMap_cons, flatMap_singleton, leaves, leaves,
        childrenAt_inner (update_self _ _ _),
        childrenAt_inner (show _ = some (Node.inner ((none, m) :: rs)) by
          rw [update_of_ne hqp, update_self]),
        ← flatMap_append]
      congr 1
      have hrow := congrArg (List.map Prod.snd) (hsplit.symm.trans hins)
      rw [map_append, map_append, map_cons, map_cons, map_cons, hec] at hrow
      rw [append_assoc]
      exact hrow

/-! ### Ordered trees -/

/-- A tree whose leaves are linked in the order of the tree and whose keys and separators are in
order. -/
structure Ordered (r : K → K → Prop) (σ : Store K V P) (n : ℕ) (root : P) (ch : List P) : Prop
    extends Tree σ n root ch where
  order : ch = leaves σ n root
  bounded : Bounded r σ n root none none

/-- An insertion whose cut is new keeps the order. -/
theorem Insert.ordered (hr : Mode r) {root root' : P} {ch : List P}
    (h : Insert k v σ root σ' root' a new) (ho : Ordered r σ n root ch)
    (hnew : NewCut r σ' a none none (seps σ n root) new) :
    ∃ n', Ordered r σ' n' root' (growAt a (added new) ch) ∧
      seps σ' n' root' = cuts new + seps σ n root := by
  obtain ⟨-, ⟨n', ht, hseps⟩, -⟩ := h.tree ho.toTree
  suffices hord : growAt a (added new) ch = leaves σ' n' root' ∧ Bounded r σ' n' root' none none from
    ⟨n', ⟨ht, hord.1, hord.2⟩, hseps⟩
  have hfree : ∀ k : K, AtLeast none k ∧ Below none k := by
    intro k
    exact ⟨fun a ha => (by cases ha), fun b hb => (by cases hb)⟩
  cases h with
  | stay h =>
    obtain ⟨hseat, hleaves⟩ := h.bounded hr ho.shape ho.nodup ho.bounded (hfree k).1 (hfree k).2 hnew
    obtain rfl := ht.shape.unique ((h.tree ho.toTree).1 root mem_cons_self)
    refine ⟨?_, hseat⟩
    rw [ho.order, ← hleaves]
    exact flatMap_singleton _ _
  | @grow σ₁ _ q _ s _ h hroot =>
    have hent : ∀ x, entriesAt (Function.update σ₁ root'
        (some (.inner [(none, root), (some s, q)]))) x = entriesAt σ₁ x :=
      entriesAt_update_inner (not_isLeaf_none hroot)
    have hcut : NewCut r σ₁ a none none (seps σ n root) new := hnew.congr (hent a)
    obtain ⟨hseat, hleaves⟩ := h.bounded hr ho.shape ho.nodup ho.bounded (hfree k).1 (hfree k).2 hcut
    have hsh := (h.tree ho.toTree).1
    have hsame : ∀ t ∈ [root, q], ∀ x ∈ pages σ₁ n t,
        kindAt (Function.update σ₁ root' (some (.inner [(none, root), (some s, q)]))) x =
            kindAt σ₁ x ∧
          entriesAt (Function.update σ₁ root' (some (.inner [(none, root), (some s, q)]))) x =
            entriesAt σ₁ x := by
      intro t htm x hx
      have hxr : x ≠ root' := fun hxr => (hsh t htm).ne_none hx (hxr ▸ hroot)
      exact ⟨kindAt_update_ne hxr, hent x⟩
    obtain ⟨-, -, hleft, hright⟩ := hseat.congr hsame
    have hroot' : Function.update σ₁ root' (some (.inner [(none, root), (some s, q)])) root' =
        some (.inner [(none, root), (some s, q)]) := update_self _ _ _
    have hshape : Shape (Function.update σ₁ root' (some (.inner [(none, root), (some s, q)])))
        (n + 1) root' := by
      refine ⟨_, hroot', cons_ne_nil _ _, fun e he => ?_⟩
      have hmem : e.2 ∈ [root, q] := by
        rcases mem_pair.mp he with rfl | rfl <;> simp
      exact (tree_congr (fun x hx => (hsame e.2 hmem x hx).1)).2.2.1 (hsh e.2 hmem)
    obtain rfl := ht.shape.unique hshape
    refine ⟨?_, root, [(some s, q)], hroot', s, rfl, fun a ha => (by cases ha),
      (hfree s).2, hleft, hright⟩
    rw [ho.order, ← hleaves, leaves, childrenAt_inner hroot']
    exact flatMap_congr (fun t htm => (tree_congr (fun x hx => (hsame t htm x hx).1)).2.1.symm)

theorem Erase.bounded (h : Erase k v σ a σ') (hb : Bounded r σ n p lo hi) :
    Bounded r σ' n p lo hi := by
  induction n generalizing p lo hi with
  | zero =>
    intro x hx
    by_cases hpa : p = a
    · subst hpa
      refine hb x ?_
      rw [h.entriesAt_self]
      exact Multiset.mem_cons_of_mem hx
    · rw [h.entriesAt_ne hpa] at hx
      exact hb x hx
  | succ n ih =>
    obtain ⟨c, es, hp, hkids⟩ := hb
    refine ⟨c, es, ?_, hkids.mono (fun e _ lo hi hb => ih hb)⟩
    exact inner_of_kindAt (h.kindAt_eq _) hp

/-- A removal keeps the order. -/
theorem Erase.ordered {root : P} {ch : List P} (h : Erase k v σ a σ') (ho : Ordered r σ n root ch) :
    Ordered r σ' n root ch := by
  refine ⟨h.tree ho.toTree, ?_, h.bounded ho.bounded⟩
  rw [(tree_congr (fun x _ => h.kindAt_eq x)).2.1]
  exact ho.order

end BTree
