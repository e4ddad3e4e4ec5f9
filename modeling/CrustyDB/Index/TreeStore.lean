import CrustyDB.Index.NodePage

/-! # The pages of a container as a B+tree

`storeOf` reads the pages of a container as a store of nodes, with the functions by which the
index reads a page.  `Nodes` says that every page but the header holds a node; on such pages the
walks of a lookup are those of the library (`findLeaf_reads`, `leftmostRunLeaf_reads`,
`collectRun_reads`).

A lookup only reads.  `Reads x pages v t`: on these pages the program `x` makes `t` requests; it
returns `v` when they are granted, and fails when one of them is not, and changes no page in either
case. -/

namespace CrustyDB

open BTree Program TreeIndex List Pool Option

/-! ### The store -/

/-- The node that the index finds in the values of a page. -/
def nodeView (C : Codec) (values : List (List UInt8 × SlotId)) :
    Option (Node IndexKey ValueId PageId) :=
  match readIsLeaf C values with
  | .ok true =>
    match leafEntries C none none values with
    | .ok (left, right, entries) => some (.leaf left right entries)
    | .error _ => none
  | .ok false =>
    match readInternalEntries C values with
    | .ok entries => some (.inner entries)
    | .error _ => none
  | .error _ => none

section Store

variable {P : Type} [HeapPage P]

def viewPage (C : Codec) (p : P) : Option (Node IndexKey ValueId PageId) :=
  match HeapPage.iter p with
  | .ok values => nodeView C values
  | .error _ => none

/-- The nodes on the pages of a container; page 0 is the header. -/
def storeOf (C : Codec) (pages : List P) : Store IndexKey ValueId PageId := fun p =>
  if p = 0 then none else pages[p.toNat]?.bind (viewPage C)

/-- The root page according to the header. -/
def rootOf (pages : List P) : Option PageId :=
  pages[0]?.bind (fun h =>
    match HeapPage.getValue h 0 with
    | .ok (some bytes) => if bytes.length = pageIdSize then some (fromLeBytes bytes) else none
    | _ => none)

variable {C : Codec} {pages : List P}

theorem page_of_storeOf {p : PageId} {nd : Node IndexKey ValueId PageId}
    (h : storeOf C pages p = some nd) :
    p ≠ 0 ∧ ∃ d, pages[p.toNat]? = some d ∧ viewPage C d = some nd := by
  unfold storeOf at h
  split_ifs at h with h0
  obtain ⟨d, hd, hview⟩ := bind_eq_some_iff.mp h
  exact ⟨h0, d, hd, hview⟩

theorem lt_of_store {p : PageId} {nd : Node IndexKey ValueId PageId}
    (h : storeOf C pages p = some nd) : p.toNat < pages.length := by
  obtain ⟨-, d, hd, -⟩ := page_of_storeOf h
  exact (List.getElem?_eq_some_iff.mp hd).1

/-- A tree has no more pages than the container. -/
theorem tree_length_le {n : ℕ} {root : PageId} (hsh : Shape (storeOf C pages) n root)
    (hnd : (BTree.pages (storeOf C pages) n root).Nodup) :
    (BTree.pages (storeOf C pages) n root).length ≤ pages.length := by
  have hinj : Function.Injective UInt32.toNat := fun x y h => UInt32.toNat_inj.mp h
  have hsub : (BTree.pages (storeOf C pages) n root).map UInt32.toNat ⊆ List.range pages.length := by
    intro i hi
    obtain ⟨p, hp, rfl⟩ := mem_map.mp hi
    obtain ⟨nd, hnd⟩ := ne_none_iff_exists'.mp (hsh.ne_none hp)
    exact mem_range.mpr (lt_of_store hnd)
  have hlen := (subperm_of_subset (hnd.map hinj) hsub).length_le
  rwa [length_map, length_range] at hlen

end Store

/-- The index sees the same tree in the bytes and in the directories they spell. -/
theorem storeOf_rel (C : Codec) {s : Pool Page} {t : Pool SlotDir} (h : PoolRel s t) :
    storeOf C s.pages = storeOf C t.pages := by
  funext p
  unfold storeOf
  split_ifs with hp
  · rfl
  · rcases h.page?_cases p with ⟨hs, ht⟩ | ⟨q, d, hs, ht, hq⟩
    · unfold Pool.page? at hs ht
      rw [hs, ht]
      rfl
    · unfold Pool.page? at hs ht
      rw [hs, ht]
      have hiter : HeapPage.iter q = HeapPage.iter d := Page.iter_rep hq.1 hq.2
      show viewPage C q = viewPage C d
      unfold viewPage
      rw [hiter]

theorem rootOf_rel {s : Pool Page} {t : Pool SlotDir} (h : PoolRel s t) :
    rootOf s.pages = rootOf t.pages := by
  unfold rootOf
  rcases h.page?_cases 0 with ⟨hs, ht⟩ | ⟨q, d, hs, ht, hq⟩
  · unfold Pool.page? at hs ht
    simp only [UInt32.toNat_zero] at hs ht
    rw [hs, ht]
    rfl
  · unfold Pool.page? at hs ht
    simp only [UInt32.toNat_zero] at hs ht
    rw [hs, ht]
    have hget : HeapPage.getValue q 0 = HeapPage.getValue d 0 := Page.getValue_rep hq.1 0
    simp only [bind_some, hget]

section Nodes

variable {C : Codec} {a b : ℕ}

/-- The index finds the node that the page holds. -/
theorem NodePage.view (hC : C.Sound a b) {d : SlotDir} {nd : Node IndexKey ValueId PageId}
    (h : NodePage C a b d nd) : viewPage C d = some nd := by
  show nodeView C d.iter = some nd
  unfold nodeView
  cases nd with
  | leaf l r es =>
    have hp : LeafPage C a d l r es := h
    obtain ⟨ls, rfl, heq⟩ := hp.leafEntries hC
    rw [hp.readIsLeaf hC]
    simp only [heq]
  | inner es =>
    have hp : InnerPage C b d es := h
    rw [hp.readIsLeaf hC]
    simp only [hp.readInternalEntries hC]

/-- Every page but the header and those in `X` holds a node. -/
def Nodes (C : Codec) (a b : ℕ) (X : Set PageId) (pages : List SlotDir) : Prop :=
  ∀ p d, p ≠ 0 → p ∉ X → pages[p.toNat]? = some d → ∃ nd, NodePage C a b d nd

theorem Nodes.at (hC : C.Sound a b) {pages : List SlotDir} (h : Nodes C a b ∅ pages) {p : PageId}
    {nd : Node IndexKey ValueId PageId} (hp : storeOf C pages p = some nd) :
    p ≠ 0 ∧ ∃ d, pages[p.toNat]? = some d ∧ NodePage C a b d nd := by
  obtain ⟨h0, d, hd, hview⟩ := page_of_storeOf hp
  obtain ⟨nd', hnd'⟩ := h p d h0 (Set.notMem_empty p) hd
  obtain rfl := Option.some.inj ((hnd'.view hC).symm.trans hview)
  exact ⟨h0, d, hd, hnd'⟩

end Nodes

/-! ### Programs that only read -/

/-- The pool after `t` more requests. -/
def Pool.after {P : Type} (s : Pool P) (t : ℕ) : Pool P := { s with requests := s.requests + t }

theorem Pool.after_after {P : Type} (s : Pool P) (t u : ℕ) : (s.after t).after u = s.after (t + u) := by
  unfold Pool.after
  rw [Nat.add_assoc]

section Reads

variable {P : Type} [HeapPage P] {α β : Type}

/-- The program makes `t` requests and returns `v`, or fails because one of them is refused. -/
structure Reads (x : PoolProg α) (pages : List P) (v : α) (t : ℕ) : Prop where
  granted : ∀ s : Pool P, s.pages = pages → (∀ i < t, s.refuse (s.requests + i) = none) →
    Pool.exec x s = (.ok v, s.after t)
  refused : ∀ s : Pool P, s.pages = pages → (∃ i < t, s.refuse (s.requests + i) ≠ none) →
    ∃ e u, Pool.exec x s = (.error e, s.after u)

namespace Reads

variable {x : PoolProg α} {pages : List P} {v : α} {t : ℕ}

/-- A program that makes no request. -/
theorem silent (h : ∀ s : Pool P, s.pages = pages → Pool.exec x s = (.ok v, s)) :
    Reads x pages v 0 :=
  ⟨fun s hs _ => h s hs, fun _ _ ⟨_, hi, _⟩ => absurd hi (Nat.not_lt_zero _)⟩

theorem pure (v : α) : Reads (pure v : PoolProg α) pages v 0 := silent (fun _ _ => rfl)

theorem ofExcept {x : Except CrustyError α} (h : x = .ok v) :
    Reads (Prog.ofExcept x : PoolProg α) pages v 0 := by
  rw [h]
  exact pure v

variable {p : PageId}

theorem bind {f : α → PoolProg β} {w : β} {u : ℕ} (hx : Reads x pages v t)
    (hf : Reads (f v) pages w u) : Reads (x >>= f) pages w (t + u) := by
  constructor
  · intro s hs hgrant
    have h1 := hx.granted s hs (fun i hi => hgrant i (by omega))
    have h2 := hf.granted (s.after t) hs (fun i hi => by
      show s.refuse (s.requests + t + i) = none
      rw [Nat.add_assoc]
      exact hgrant (t + i) (by omega))
    rw [exec_bind_ok h1, h2, after_after]
  · rintro s hs ⟨i, hi, href⟩
    by_cases hall : ∀ i < t, s.refuse (s.requests + i) = none
    · have h1 := hx.granted s hs hall
      have hit : t ≤ i := by
        by_contra hlt
        exact href (hall i (by omega))
      obtain ⟨e, u', h2⟩ := hf.refused (s.after t) hs ⟨i - t, by omega, by
        show s.refuse (s.requests + t + (i - t)) ≠ none
        rw [Nat.add_assoc, Nat.add_sub_cancel' hit]
        exact href⟩
      rw [exec_bind_ok h1, h2, after_after]
      exact ⟨e, _, rfl⟩
    · simp only [not_forall] at hall
      obtain ⟨j, hj, href'⟩ := hall
      obtain ⟨e, u', h1⟩ := hx.refused s hs ⟨j, hj, href'⟩
      rw [exec_bind_error h1]
      exact ⟨e, u', rfl⟩

/-- What a program that reads returns, if it returns. -/
theorem ok_or_error (h : Reads x pages v t) {s : Pool P} (hs : s.pages = pages) :
    Pool.exec x s = (.ok v, s.after t) ∨ ∃ e u, Pool.exec x s = (.error e, s.after u) := by
  by_cases hall : ∀ i < t, s.refuse (s.requests + i) = none
  · exact Or.inl (h.granted s hs hall)
  · simp only [not_forall] at hall
    obtain ⟨i, hi, href⟩ := hall
    exact Or.inr (h.refused s hs ⟨i, hi, href⟩)

theorem of_ok (h : Reads x pages v t) {s s' : Pool P} {v' : α} (hs : s.pages = pages)
    (hrun : Pool.exec x s = (.ok v', s')) : v' = v ∧ s' = s.after t := by
  rcases h.ok_or_error hs with hok | ⟨e, u, herr⟩
  · rw [hok] at hrun
    obtain ⟨h1, h2⟩ := Prod.mk.inj hrun
    exact ⟨(Except.ok.inj h1).symm, h2.symm⟩
  · rw [herr] at hrun
    cases hrun

theorem pageCount : Reads PoolProg.pageCount pages pages.length 0 := by
  refine silent (fun s hs => ?_)
  rw [exec_pageCount, ← hs]

/-- A request for a page, with any answer to its refusal that fails. -/
theorem acquire {f : Except MemPoolStatus Unit → PoolProg Unit} (hp : p.toNat < pages.length)
    (hok : f (.ok ()) = Pure.pure ()) (herr : ∀ e, ∃ e', f (.error e) = Prog.fail e') :
    Reads (PoolProg.acquire p >>= f) pages () 1 := by
  constructor
  · intro s hs hgrant
    have href := hgrant 0 Nat.one_pos
    rw [Nat.add_zero] at href
    have hacq : Pool.exec (PoolProg.acquire p) s = (.ok (.ok ()), s.after 1) := by
      rw [exec_acquire]
      unfold Pool.acquire
      rw [href]
      simp only [hs, hp, if_true]
      rfl
    rw [exec_bind_ok hacq, hok]
    rfl
  · rintro s hs ⟨i, hi, href⟩
    obtain rfl : i = 0 := by omega
    rw [Nat.add_zero] at href
    obtain ⟨e, he⟩ := ne_none_iff_exists'.mp href
    have hacq : Pool.exec (PoolProg.acquire p) s = (.ok (.error e), s.after 1) := by
      rw [exec_acquire]
      unfold Pool.acquire
      rw [he]
      rfl
    obtain ⟨e', he'⟩ := herr e
    rw [exec_bind_ok hacq, he']
    exact ⟨_, 1, rfl⟩

theorem getPageForRead (hp : p.toNat < pages.length) :
    Reads (getPageForRead p) pages () 1 := acquire hp rfl (fun _ => ⟨_, rfl⟩)

theorem getPageForWrite (hp : p.toNat < pages.length) :
    Reads (getPageForWrite p) pages () 1 := acquire hp rfl (fun _ => ⟨_, rfl⟩)

theorem iter {d : P} {values : List (List UInt8 × SlotId)} (hp : pages[p.toNat]? = some d)
    (hd : HeapPage.iter d = .ok values) : Reads (PoolProg.iter p) pages values 0 := by
  refine silent (fun s hs => ?_)
  rw [exec_iter]
  unfold Pool.onPage Pool.page?
  rw [hs, hp]
  simp only [hd]

theorem getValue {slot : SlotId} {d : P} {res : Option (List UInt8)} (hp : pages[p.toNat]? = some d)
    (hd : HeapPage.getValue d slot = .ok res) : Reads (PoolProg.getValue p slot) pages res 0 := by
  refine silent (fun s hs => ?_)
  rw [exec_getValue]
  unfold Pool.onPage Pool.page?
  rw [hs, hp]
  simp only [hd]

end Reads

end Reads

/-! ### Lookups -/

/-- Reading the pages from `p` leads to `q`. -/
inductive Descends (C : Codec) (key : IndexKey) (pages : List SlotDir) : ℕ → PageId → PageId → Prop
  | leaf {n : ℕ} {p : PageId} {d : SlotDir} (hd : pages[p.toNat]? = some d)
      (hleaf : readIsLeaf C d.iter = .ok true) : Descends C key pages (n + 1) p p
  | inner {n : ℕ} {p c q : PageId} {d : SlotDir} {es : List (Option IndexKey × PageId)}
      (hd : pages[p.toNat]? = some d) (hleaf : readIsLeaf C d.iter = .ok false)
      (hes : readInternalEntries C d.iter = .ok es) (hc : findChild es key = .ok c)
      (h : Descends C key pages n c q) : Descends C key pages (n + 1) p q

variable {pages : List SlotDir}

theorem Descends.reads {C : Codec} {key : IndexKey} {n : ℕ} {p q : PageId}
    (h : Descends C key pages n p q) : ∃ t, Reads (findLeaf C key n p) pages q t := by
  induction h with
  | @leaf n p d hd hleaf =>
    exact ⟨_, (Reads.getPageForRead (List.getElem?_eq_some_iff.mp hd).1).bind
      ((Reads.iter hd rfl).bind ((Reads.ofExcept hleaf).bind (Reads.pure p)))⟩
  | @inner n p c q d es hd hleaf hes hc h ih =>
    obtain ⟨t, ht⟩ := ih
    exact ⟨_, (Reads.getPageForRead (List.getElem?_eq_some_iff.mp hd).1).bind
      ((Reads.iter hd rfl).bind ((Reads.ofExcept hleaf).bind ((Reads.ofExcept hes).bind
        ((Reads.ofExcept hc).bind ht))))⟩

section Lookup

variable {C : Codec} {a b : ℕ} (hC : C.Sound a b) {pages : List SlotDir}
  (hn : Nodes C a b ∅ pages)
include hC hn

variable {key : IndexKey} {n fuel : ℕ} {p : PageId}

theorem Leads.descends {q : PageId} (h : Leads (storeOf C pages) key n p q) (hfuel : n < fuel) :
    Descends C key pages fuel p q := by
  induction h generalizing fuel with
  | @leaf p hp =>
    obtain ⟨l, r, es, hp⟩ := hp
    obtain ⟨fuel, rfl⟩ : ∃ m, fuel = m + 1 := ⟨fuel - 1, by omega⟩
    obtain ⟨-, d, hd, hnode⟩ := hn.at hC hp
    have hleaf : LeafPage C a d l r es := hnode
    exact Descends.leaf hd (hleaf.readIsLeaf hC)
  | @inner n p c q es hp hc h ih =>
    obtain ⟨fuel, rfl⟩ : ∃ m, fuel = m + 1 := ⟨fuel - 1, by omega⟩
    obtain ⟨-, d, hd, hnode⟩ := hn.at hC hp
    have hinner : InnerPage C b d es := hnode
    have hne : es ≠ [] := by
      rintro rfl
      cases hc
    obtain ⟨c', hc', hchild⟩ := findChild_eq key hne
    rw [hc] at hc'
    obtain rfl := Option.some.inj hc'
    exact Descends.inner hd (hinner.readIsLeaf hC) (hinner.readInternalEntries hC) hchild
      (ih (by omega))

/-- Read the siblings and the entries of a leaf. -/
theorem readLeaf_reads {l r : Option PageId} {es : Multiset (IndexKey × ValueId)}
    (hp : storeOf C pages p = some (.leaf l r es)) :
    ∃ ls : List (IndexKey × ValueId), (ls : Multiset (IndexKey × ValueId)) = es ∧
      ∀ {α : Type} (f : Option PageId × Option PageId × List (IndexKey × ValueId) → PoolProg α)
        (v : α) (t : ℕ), Reads (f (l, r, sortLeaf ls)) pages v t →
        Reads (do
          getPageForRead p
          let values ← PoolProg.iter p
          let x ← Prog.ofExcept (readLeafEntries C values)
          f x) pages v (1 + (0 + (0 + t))) := by
  obtain ⟨-, d, hd, hnode⟩ := hn.at hC hp
  have hleaf : LeafPage C a d l r es := hnode
  obtain ⟨ls, hls, hread⟩ := hleaf.readLeafEntries hC
  refine ⟨ls, hls, fun f v t hf => ?_⟩
  exact (Reads.getPageForRead (lt_of_store hp)).bind ((Reads.iter hd rfl).bind
    ((Reads.ofExcept hread).bind hf))

theorem leftmostRunLeaf_reads {q : PageId}
    (hleft : ∀ x y r es, storeOf C pages x = some (.leaf (some y) r es) → IsLeaf (storeOf C pages) y)
    (h : Rewind (storeOf C pages) key n p q) (hfuel : n < fuel) :
    ∃ t, Reads (leftmostRunLeaf C key fuel p) pages q t := by
  induction h generalizing fuel with
  | @stop p l r es hp hstop =>
    obtain ⟨fuel, rfl⟩ : ∃ m, fuel = m + 1 := ⟨fuel - 1, by omega⟩
    obtain ⟨ls, hls, hread⟩ := readLeaf_reads hC hn hp
    cases l with
    | none => exact ⟨_, hread _ p 0 (Reads.pure p)⟩
    | some prev =>
      obtain ⟨l', r', es', hprev⟩ := hleft p prev r es hp
      obtain ⟨ls', hls', hread'⟩ := readLeaf_reads hC hn hprev
      have hlast : lastMatches key (sortLeaf ls') ≠ true := by
        rw [Ne, lastMatches_iff, hls']
        have := hstop prev rfl
        rwa [entriesAt_leaf hprev] at this
      refine ⟨_, hread _ p _ (hread' _ p 0 ?_)⟩
      show Reads (if lastMatches key (sortLeaf ls') = true then _ else _) pages p 0
      rw [if_neg hlast]
      exact Reads.pure p
  | @step n p prev q r es hp hend h ih =>
    obtain ⟨fuel, rfl⟩ : ∃ m, fuel = m + 1 := ⟨fuel - 1, by omega⟩
    obtain ⟨ls, hls, hread⟩ := readLeaf_reads hC hn hp
    obtain ⟨l', r', es', hprev⟩ := hleft p prev r es hp
    obtain ⟨ls', hls', hread'⟩ := readLeaf_reads hC hn hprev
    have hlast : lastMatches key (sortLeaf ls') = true := by
      rw [lastMatches_iff, hls']
      rwa [entriesAt_leaf hprev] at hend
    obtain ⟨t, ht⟩ := @ih fuel (by omega)
    refine ⟨_, hread _ q _ (hread' _ q t ?_)⟩
    show Reads (if lastMatches key (sortLeaf ls') = true then _ else _) pages q t
    rw [if_pos hlast]
    exact ht

omit hC hn in
theorem valuesOf_sortLeaf (key : IndexKey) (ls : List (IndexKey × ValueId)) :
    ((((sortLeaf ls).filter (fun e => e.1 = key)).map Prod.snd : List ValueId) : Multiset ValueId) =
      valuesOf key (ls : Multiset (IndexKey × ValueId)) := by
  unfold valuesOf
  rw [Multiset.filter_coe, Multiset.map_coe, Multiset.coe_eq_coe]
  refine (((sortLeaf_perm ls).filter _).map _).trans (List.Perm.of_eq ?_)
  exact congrArg _ (filter_congr (fun x _ => decide_eq_decide.mpr Iff.rfl))

theorem collectRun_reads {o : Option PageId} {vs : Multiset ValueId}
    (h : Gather (storeOf C pages) key n o vs) (hfuel : n ≤ fuel) :
    ∃ (rids : List ValueId) (t : ℕ), (rids : Multiset ValueId) = vs ∧
      Reads (collectRun C key fuel o) pages rids t := by
  induction h generalizing fuel with
  | done =>
    refine ⟨[], 0, rfl, ?_⟩
    cases fuel <;> exact Reads.pure []
  | @stop p l r es hp hend =>
    obtain ⟨fuel, rfl⟩ : ∃ m, fuel = m + 1 := ⟨fuel - 1, by omega⟩
    obtain ⟨ls, hls, hread⟩ := readLeaf_reads hC hn hp
    have hlast : lastMatches key (sortLeaf ls) ≠ true := by
      rw [Ne, lastMatches_iff, hls]
      exact hend
    have hrest : Reads (collectRun C key fuel (if lastMatches key (sortLeaf ls) then r else none))
        pages [] 0 := by
      rw [if_neg hlast]
      cases fuel <;> exact Reads.pure []
    refine ⟨((sortLeaf ls).filter (fun e => e.1 = key)).map Prod.snd ++ [], _, ?_,
      hread _ _ _ (hrest.bind (Reads.pure _))⟩
    rw [append_nil, valuesOf_sortLeaf, hls]
  | @step n p l r es vs hp hend h ih =>
    obtain ⟨fuel, rfl⟩ : ∃ m, fuel = m + 1 := ⟨fuel - 1, by omega⟩
    obtain ⟨ls, hls, hread⟩ := readLeaf_reads hC hn hp
    have hlast : lastMatches key (sortLeaf ls) = true := by
      rw [lastMatches_iff, hls]
      exact hend
    obtain ⟨rids, t, hrids, ht⟩ := @ih fuel (by omega)
    have hrest : Reads (collectRun C key fuel (if lastMatches key (sortLeaf ls) then r else none))
        pages rids t := by
      rw [if_pos hlast]
      exact ht
    refine ⟨((sortLeaf ls).filter (fun e => e.1 = key)).map Prod.snd ++ rids, _, ?_,
      hread _ _ _ (hrest.bind (Reads.pure _))⟩
    rw [← Multiset.coe_add, valuesOf_sortLeaf, hls, hrids]

omit hC hn in
/-- The siblings of a leaf of a tree are its neighbours in the chain. -/
theorem leaf_linked {σ : Store IndexKey ValueId PageId} {root x : PageId} {ch : List PageId}
    {l r : Option PageId} {es : Multiset (IndexKey × ValueId)} (ht : Tree σ n root ch)
    (hx : σ x = some (.leaf l r es)) :
    ∃ pre post, ch = pre ++ x :: post ∧ l = pre.getLast? ∧ r = post.head? := by
  have hmem : x ∈ ch := by
    have hxp := ht.all x (by simp [hx])
    exact ht.chain.mem_iff.mpr (mem_leaves_of_isLeaf ht.shape hxp ⟨_, _, _, hx⟩)
  obtain ⟨pre, post, rfl⟩ := append_of_mem hmem
  obtain ⟨es', hx'⟩ := ht.linked.at
  obtain ⟨hl, hr, -⟩ := leaf_inj hx hx'
  rw [or_none] at hl
  exact ⟨pre, post, rfl, hl, hr⟩

omit hC hn in
/-- In a tree the left sibling of a leaf is a leaf. -/
theorem left_isLeaf {σ : Store IndexKey ValueId PageId} {root : PageId} {ch : List PageId}
    (ht : Tree σ n root ch) (x y : PageId) (r : Option PageId) (es : Multiset (IndexKey × ValueId))
    (hx : σ x = some (.leaf (some y) r es)) : IsLeaf σ y := by
  obtain ⟨pre, post, rfl, hy, -⟩ := leaf_linked ht hx
  exact ht.linked.isLeaf (mem_append_left _ (mem_of_getLast? hy.symm))

end Lookup

/-! ### The header -/

/-- Page 0 holds the id of the root page. -/
def Header (pages : List SlotDir) (root : PageId) : Prop :=
  ∃ h, pages[0]? = some h ∧ h.WF ∧ h.Exact ∧ h.values = [toLeBytes root]

theorem fromLeBytes_toLeBytes (p : PageId) : fromLeBytes (toLeBytes p) = p := by
  unfold fromLeBytes toLeBytes
  rw [ByteBuffer.readLe_leBytes]
  exact UInt32.toNat_inj.mp (by
    rw [UInt32.toNat_ofNat']
    exact (Nat.mod_mod _ _).trans (Nat.mod_eq_of_lt p.toNat_lt))

theorem length_toLeBytes (p : PageId) : (toLeBytes p).length = pageIdSize :=
  ByteBuffer.leBytes_length _ _

theorem toLeBytes_ne_nil (p : PageId) : toLeBytes p ≠ [] := by
  intro h
  have := length_toLeBytes p
  rw [h] at this
  cases this

variable {root : PageId}

theorem Header.get (h : Header pages root) :
    ∃ d, pages[0]? = some d ∧ d.get 0 = some (toLeBytes root) := by
  obtain ⟨d, hd, -, -, hv⟩ := h
  refine ⟨d, hd, SlotDir.get_eq_some.mpr ⟨?_, toLeBytes_ne_nil root⟩⟩
  rw [hv]
  rfl

theorem Header.rootOf (h : Header pages root) : rootOf pages = some root := by
  obtain ⟨d, hd, hget⟩ := h.get
  have hget' : HeapPage.getValue d 0 = .ok (some (toLeBytes root)) := congrArg Except.ok hget
  unfold CrustyDB.rootOf
  rw [hd]
  simp only [bind_some, hget', length_toLeBytes, if_true, fromLeBytes_toLeBytes]

theorem getRootPageId_reads (h : rootOf pages = some root) : Reads getRootPageId pages root 1 := by
  obtain ⟨d, hd, h⟩ := bind_eq_some_iff.mp h
  have hlt : (0 : PageId).toNat < pages.length := (List.getElem?_eq_some_iff.mp hd).1
  have hget : HeapPage.getValue d 0 = .ok (d.get 0) := rfl
  rw [hget] at h
  cases hv : d.get 0 with
  | none =>
    rw [hv] at h
    cases h
  | some bytes =>
    rw [hv] at h
    simp only at h
    split_ifs at h with hlen
    have hlast : Reads (if bytes.length = pageIdSize then
        (pure (fromLeBytes bytes) : PoolProg PageId)
        else Prog.fail (.crusty "corrupt index header")) pages root 0 := by
      rw [if_pos hlen, Option.some.inj h]
      exact Reads.pure root
    show Reads getRootPageId pages root (1 + (0 + 0))
    exact (Reads.getPageForRead hlt).bind
      ((Reads.getValue (p := 0) hd (congrArg Except.ok hv)).bind hlast)

theorem rounds_reads (pages : List SlotDir) : Reads rounds pages (pages.length + 1) 0 := by
  show Reads rounds pages (pages.length + 1) (0 + 0)
  exact Reads.pageCount.bind (Reads.pure _)

section Lookup

variable {C : Codec} {a b : ℕ} (hC : C.Sound a b) {pages : List SlotDir} (hn : Nodes C a b ∅ pages)
  {root : PageId} {n : ℕ} {ch : List PageId} (ht : Tree (storeOf C pages) n root ch)
include hC hn ht

omit hC hn in
theorem chain_length_le : ch.length ≤ pages.length := by
  rw [ht.chain.length_eq]
  exact (leaves_sublist_pages _ _ _).length_le.trans (tree_length_le ht.shape ht.nodup)

/-- The first part of a lookup and of a deletion: down to a leaf, then left to the start of the
run of the key. -/
theorem start_reads (key : IndexKey) : ∃ p q i t₁ t₂ pre post, ch = pre ++ q :: post ∧
    Leads (storeOf C pages) key n root p ∧ Rewind (storeOf C pages) key i p q ∧
    Reads (findLeaf C key (pages.length + 1) root) pages p t₁ ∧
    Reads (leftmostRunLeaf C key (pages.length + 1) p) pages q t₂ := by
  have hsize := tree_length_le ht.shape ht.nodup
  have hheight := height_lt_pages ht.shape
  have hchain := chain_length_le ht
  obtain ⟨p, hp, hleads⟩ := Leads.total key ht.shape
  obtain ⟨pre, post, hch⟩ := append_of_mem (ht.chain.mem_iff.mpr hp)
  obtain ⟨i, hi, q, pre', post', hrewind, heq⟩ := Rewind.total key (hch ▸ ht.linked)
  have hpre : pre.length < ch.length := by
    rw [hch, length_append, length_cons]
    omega
  obtain ⟨t₁, h₁⟩ := (Leads.descends hC hn hleads (Nat.lt_succ_of_lt (hheight.trans_le hsize))).reads
  obtain ⟨t₂, h₂⟩ := leftmostRunLeaf_reads hC hn (left_isLeaf ht) hrewind
    (show i < pages.length + 1 by omega)
  exact ⟨p, q, i, t₁, t₂, pre', post', hch.trans heq, hleads, hrewind, h₁, h₂⟩

/-- A lookup on a tree: it returns what the walks of the library gather. -/
theorem search_reads (hh : Header pages root) (key : IndexKey) :
    ∃ (rids : List ValueId) (t : ℕ), Reads (search C key) pages rids t ∧
      ∃ p q i j, Leads (storeOf C pages) key n root p ∧ Rewind (storeOf C pages) key i p q ∧
        Gather (storeOf C pages) key j (some q) (rids : Multiset ValueId) := by
  have hchain := chain_length_le ht
  obtain ⟨p, q, i, t₁, t₂, pre, post, hch, hleads, hrewind, h₁, h₂⟩ := start_reads hC hn ht key
  have hlink : Linked (storeOf C pages) none (pre ++ q :: post) := hch ▸ ht.linked
  obtain ⟨j, hj, vs, hgather⟩ := Gather.total key hlink.drop
  have hpost : (q :: post).length ≤ ch.length := by
    rw [hch, length_append]
    omega
  obtain ⟨rids, t₃, hrids, h₃⟩ := collectRun_reads hC hn hgather
    (show j ≤ pages.length + 1 by omega)
  refine ⟨rids, _, (rounds_reads pages).bind ((getRootPageId_reads hh.rootOf).bind
    (h₁.bind (h₂.bind h₃))), p, q, i, j, hleads, hrewind, ?_⟩
  rw [hrids]
  exact hgather

end Lookup

end CrustyDB
