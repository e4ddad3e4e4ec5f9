import CrustyDB.Index.TreeStore

/-! # Insertion and deletion in the tree

The programs that change the tree refine the steps of the library: an insertion that returns makes
an `Insert` step on the store of nodes (`insert_ok`), a deletion an `Erase` step or none
(`delete_ok`), and every page still holds a node afterwards. -/

namespace CrustyDB

open BTree Program TreeIndex List Pool Function SlotDir

/-! ### Changes of the pages -/

section Pages

/-- The id of the page that is created after `i` others. -/
def newPage {P : Type} (pages : List P) (i : ℕ) : PageId := UInt32.ofNat (pages.length + i)

variable {C : Codec} {a b : ℕ} {pages pages' : List SlotDir} {p x root : PageId} {d : SlotDir}

theorem newPage_toNat {i : ℕ} (h : pages.length + i < Pool.maxPages) :
    (newPage pages i).toNat = pages.length + i := by
  unfold newPage
  rw [UInt32.toNat_ofNat']
  exact Nat.mod_eq_of_lt h

theorem toNat_newPage (h : pages.length < Pool.maxPages) :
    (newPage pages 0).toNat = pages.length := newPage_toNat h

theorem newPage_set (pages : List SlotDir) (i k : ℕ) (d : SlotDir) :
    newPage (pages.set i d) k = newPage pages k := by
  unfold newPage
  rw [length_set]

theorem newPage_ne (hp : p.toNat < pages.length) (h : pages.length < Pool.maxPages) :
    newPage pages 0 ≠ p := by
  intro hqp
  have hq := toNat_newPage h
  rw [hqp] at hq
  omega

theorem getElem?_set_page (pages : List SlotDir) (p x : PageId) (d : SlotDir)
    (hp : p.toNat < pages.length) :
    (pages.set p.toNat d)[x.toNat]? = if x = p then some d else pages[x.toNat]? := by
  split_ifs with h
  · rw [h, getElem?_set_self hp]
  · have hne : p.toNat ≠ x.toNat := fun hpx => h (UInt32.toNat_inj.mp hpx.symm)
    rw [getElem?_set_ne hne]

/-- Page `p` has been written or created, and no other one has changed. -/
structure Written (pages pages' : List SlotDir) (p : PageId) (d : SlotDir) : Prop where
  self : pages'[p.toNat]? = some d
  other : ∀ x : PageId, x ≠ p → pages'[x.toNat]? = pages[x.toNat]?

theorem written_set (d : SlotDir) (hp : p.toNat < pages.length) :
    Written pages (pages.set p.toNat d) p d :=
  ⟨getElem?_set_self hp, fun x hx => (getElem?_set_page pages p x d hp).trans (if_neg hx)⟩

theorem written_append (d : SlotDir) (h : pages.length < Pool.maxPages) :
    Written pages (pages ++ [d]) (newPage pages 0) d := by
  have hq := toNat_newPage h
  refine ⟨?_, fun x hx => ?_⟩
  · rw [hq, getElem?_concat_length]
  · have hne : x.toNat ≠ pages.length := fun hxn => hx (UInt32.toNat_inj.mp (hxn.trans hq.symm))
    rw [getElem?_append]
    split_ifs with hlt
    · rfl
    · rw [getElem?_eq_none (by rw [length_singleton]; omega),
        getElem?_eq_none (by omega)]

theorem written_set_append (i : ℕ) (dp dq : SlotDir) (h : pages.length < Pool.maxPages) :
    Written (pages.set i dp) (pages.set i dp ++ [dq]) (newPage pages 0) dq := by
  have hnew := written_append dq (show (pages.set i dp).length < _ from length_set.symm ▸ h)
  rwa [newPage_set] at hnew

theorem storeOf_get (h0 : x ≠ 0) (hd : pages[x.toNat]? = some d) :
    storeOf C pages x = viewPage C d := by
  unfold storeOf
  rw [if_neg h0, hd]
  rfl

theorem storeOf_ge (h : pages.length ≤ x.toNat) : storeOf C pages x = none := by
  unfold storeOf
  split_ifs
  · rfl
  · rw [getElem?_eq_none h]
    rfl

theorem storeOf_congr (h : x ≠ 0 → pages'[x.toNat]? = pages[x.toNat]?) :
    storeOf C pages' x = storeOf C pages x := by
  unfold storeOf
  split_ifs with h0
  · rfl
  · rw [h h0]

/-- A page that is written and holds a node: the store, the other nodes and the header. -/
theorem Written.node (h : Written pages pages' p d) (hC : C.Sound a b) (h0 : p ≠ 0)
    {nd : Node IndexKey ValueId PageId} (hnode : NodePage C a b d nd) (hn : Nodes C a b ∅ pages)
    (hh : Header pages root) :
    storeOf C pages' = Function.update (storeOf C pages) p (some nd) ∧ Nodes C a b ∅ pages' ∧
      Header pages' root := by
  refine ⟨?_, fun x e hx0 hx he => ?_, ?_⟩
  · funext x
    by_cases hx : x = p
    · rw [hx, update_self, storeOf_get h0 h.self, hnode.view hC]
    · rw [update_of_ne hx, storeOf_congr (fun _ => h.other x hx)]
  · by_cases hxp : x = p
    · rw [hxp, h.self] at he
      exact ⟨nd, Option.some.inj he ▸ hnode⟩
    · exact hn x e hx0 hx (h.other x hxp ▸ he)
  · obtain ⟨e, he, hrest⟩ := hh
    exact ⟨e, (h.other 0 (Ne.symm h0)).trans he, hrest⟩

end Pages

/-! ### Calls that return -/

section Calls

variable {s s' : Pool SlotDir} {p : PageId} {α : Type} {v : α} {d d' : SlotDir}

/-- A request that is granted changes no page. -/
theorem ok_request {g : Except MemPoolStatus Unit → PoolProg Unit} {f : Unit → PoolProg α}
    (hok : g (.ok ()) = pure ()) (herr : ∀ e, ∃ e', g (.error e) = Prog.fail e')
    (h : Pool.exec ((PoolProg.acquire p >>= g) >>= f) s = (.ok v, s')) :
    ∃ s₁, s₁.pages = s.pages ∧ Pool.exec (f ()) s₁ = (.ok v, s') := by
  obtain ⟨u, s₁, h1, h2⟩ := of_exec_bind h
  obtain ⟨res, s₂, h3, h4⟩ := of_exec_bind h1
  have hpages : s₂.pages = s.pages := by
    rw [exec_acquire] at h3
    unfold Pool.acquire at h3
    cases hr : s.refuse s.requests with
    | some e =>
      rw [hr] at h3
      cases h3
      rfl
    | none =>
      rw [hr] at h3
      simp only at h3
      split_ifs at h3
      · cases h3
        rfl
      · cases h3
        rfl
  cases res with
  | error e =>
    obtain ⟨e', he'⟩ := herr e
    rw [he'] at h4
    cases h4
  | ok w =>
    rw [hok] at h4
    cases h4
    exact ⟨_, hpages, h2⟩

theorem ok_getPageForRead {f : Unit → PoolProg α}
    (h : Pool.exec (getPageForRead p >>= f) s = (.ok v, s')) :
    ∃ s₁, s₁.pages = s.pages ∧ Pool.exec (f ()) s₁ = (.ok v, s') :=
  ok_request rfl (fun _ => ⟨_, rfl⟩) h

theorem ok_getPageForWrite {f : Unit → PoolProg α}
    (h : Pool.exec (getPageForWrite p >>= f) s = (.ok v, s')) :
    ∃ s₁, s₁.pages = s.pages ∧ Pool.exec (f ()) s₁ = (.ok v, s') :=
  ok_request rfl (fun _ => ⟨_, rfl⟩) h

theorem ok_createPage {f : PageId → PoolProg α} (h : Pool.exec (createPage >>= f) s = (.ok v, s')) :
    s.pages.length < Pool.maxPages ∧ ∃ s₁,
      s₁.pages = s.pages ++ [SlotDir.empty (newPage s.pages 0)] ∧
        Pool.exec (f (newPage s.pages 0)) s₁ = (.ok v, s') := by
  obtain ⟨q, s₁, h0, h⟩ := of_exec_bind h
  unfold createPage at h0
  obtain ⟨res, s₂, h1, h2⟩ := of_exec_bind h0
  rw [exec_create] at h1
  unfold Pool.create at h1
  cases hr : s.refuse s.requests with
  | some e =>
    rw [hr] at h1
    obtain ⟨h3, rfl⟩ := Prod.mk.inj h1
    rw [← Except.ok.inj h3] at h2
    cases h2
  | none =>
    rw [hr] at h1
    simp only at h1
    split_ifs at h1 with hlt
    · obtain ⟨h3, rfl⟩ := Prod.mk.inj h1
      rw [← Except.ok.inj h3] at h2
      cases h2
      exact ⟨hlt, _, rfl, h⟩
    · obtain ⟨h3, rfl⟩ := Prod.mk.inj h1
      rw [← Except.ok.inj h3] at h2
      cases h2

theorem exec_iter_bind (hd : s.pages[p.toNat]? = some d)
    (f : List (List UInt8 × SlotId) → PoolProg α) :
    Pool.exec (PoolProg.iter p >>= f) s = Pool.exec (f d.iter) s := by
  refine exec_bind_ok ?_
  rw [exec_iter]
  unfold Pool.onPage Pool.page?
  rw [hd]
  rfl

theorem exec_ofExcept_bind {β : Type} {x : Except CrustyError α} (hx : x = .ok v)
    (f : α → PoolProg β) : Pool.exec (Prog.ofExcept x >>= f) s = Pool.exec (f v) s := by
  rw [hx]
  exact exec_bind_ok rfl

theorem ok_iter {f : List (List UInt8 × SlotId) → PoolProg α}
    (h : Pool.exec (PoolProg.iter p >>= f) s = (.ok v, s')) :
    ∃ d, s.pages[p.toNat]? = some d ∧ Pool.exec (f d.iter) s = (.ok v, s') := by
  cases hd : s.pages[p.toNat]? with
  | some d =>
    rw [exec_iter_bind hd] at h
    exact ⟨d, rfl, h⟩
  | none =>
    have hiter : Pool.exec (PoolProg.iter p) s = (.error (.panic .unwrap), s) := by
      rw [exec_iter]
      unfold Pool.onPage Pool.page?
      rw [hd]
    rw [exec_bind_error hiter] at h
    cases h

theorem ok_ofExcept {β : Type} {x : Except CrustyError β} {f : β → PoolProg α}
    (h : Pool.exec (Prog.ofExcept x >>= f) s = (.ok v, s')) :
    ∃ w, x = .ok w ∧ Pool.exec (f w) s = (.ok v, s') := by
  cases x with
  | error e => cases h
  | ok w => exact ⟨w, rfl, h⟩

theorem exec_change {f : SlotDir → Checked (α × SlotDir)} (hd : s.pages[p.toNat]? = some d)
    (hf : f d = .ok (v, d')) : s.changePage p f = (.ok v, s.setPage p d') := by
  unfold Pool.changePage Pool.page?
  rw [hd]
  simp only [hf]

theorem of_changePage {f : SlotDir → Checked (α × SlotDir)} (h : s.changePage p f = (.ok v, s')) :
    ∃ d d', s.pages[p.toNat]? = some d ∧ f d = .ok (v, d') ∧ s' = s.setPage p d' := by
  unfold Pool.changePage Pool.page? at h
  cases hd : s.pages[p.toNat]? with
  | none =>
    rw [hd] at h
    cases h
  | some d =>
    rw [hd] at h
    simp only at h
    cases hf : f d with
    | error e =>
      rw [hf] at h
      cases h
    | ok x =>
      obtain ⟨v', d'⟩ := x
      rw [hf] at h
      cases h
      exact ⟨d, d', rfl, hf, rfl⟩

theorem setPage_setPage (s : Pool SlotDir) (p : PageId) (d d' : SlotDir) :
    (s.setPage p d).setPage p d' = s.setPage p d' := by
  unfold Pool.setPage
  simp only [set_set]

theorem setPage_self (hd : s.pages[p.toNat]? = some d) : s.setPage p d = s := by
  obtain ⟨hlt, hget⟩ := List.getElem?_eq_some_iff.mp hd
  have hset := set_getElem_self hlt
  rw [hget] at hset
  unfold Pool.setPage
  rw [hset]

/-- Every slot of a list is deleted. -/
theorem exec_deleteSlots (hd : s.pages[p.toNat]? = some d) (slots : List SlotId) :
    Pool.exec (deleteSlots p slots) s = (.ok (), s.setPage p (d.deleteAll slots)) := by
  induction slots generalizing s d with
  | nil =>
    show (Except.ok (), s) = _
    rw [show d.deleteAll [] = d from rfl, setPage_self hd]
  | cons slot slots ih =>
    have hlt := (List.getElem?_eq_some_iff.mp hd).1
    have hone : Pool.exec (PoolProg.deleteValue p slot) s =
        (.ok (d.delete slot).1, s.setPage p (d.delete slot).2) := by
      rw [exec_deleteValue]
      exact exec_change hd rfl
    unfold deleteSlots
    rw [exec_bind_ok hone, ih (d := (d.delete slot).2), setPage_setPage]
    · rfl
    · exact getElem?_set_self hlt

variable {C : Codec}

theorem exec_addEntry {e : NodeEntry} {bytes : List UInt8} {r : Option SlotId}
    (hd : s.pages[p.toNat]? = some d) (henc : encode C e = .ok bytes)
    (hadd : d.add bytes = .ok (r, d')) :
    Pool.exec (addEntry C p e) s = (.ok r, s.setPage p d') := by
  unfold addEntry
  rw [exec_ofExcept_bind henc, exec_addValue]
  exact exec_change hd hadd

theorem exec_drainLeaf {x : Option PageId × Option PageId × List (IndexKey × ValueId)}
    (hd : s.pages[p.toNat]? = some d) (hread : leafEntries C none none d.iter = .ok x) :
    Pool.exec (drainLeaf C p) s = (.ok x, s.setPage p (d.deleteAll (d.iter.map Prod.snd))) := by
  unfold drainLeaf
  rw [exec_iter_bind hd, exec_ofExcept_bind hread, exec_bind_ok (exec_deleteSlots hd _)]
  rfl

theorem of_addEntry {e : NodeEntry} {res : Option SlotId} (henc : encode C e = .ok (C.bytes e))
    (hd : s.pages[p.toNat]? = some d) (h : Pool.exec (addEntry C p e) s = (.ok res, s')) :
    ∃ d', d.add (C.bytes e) = .ok (res, d') ∧ s' = s.setPage p d' := by
  unfold addEntry at h
  rw [exec_ofExcept_bind henc, exec_addValue] at h
  obtain ⟨d₁, d', hd₁, hadd, rfl⟩ := of_changePage h
  obtain rfl := Option.some.inj (hd₁.symm.trans hd)
  exact ⟨d', hadd, rfl⟩

theorem of_addEntries {es : List NodeEntry} {u : Unit} (henc : ∀ e ∈ es, encode C e = .ok (C.bytes e))
    (hd : s.pages[p.toNat]? = some d)
    (h : Pool.exec (TreeIndex.addEntries C p es) s = (.ok u, s')) :
    ∃ d', d.addAll (es.map C.bytes) = .ok d' ∧ s' = s.setPage p d' := by
  induction es generalizing s d with
  | nil =>
    cases h
    exact ⟨d, rfl, (setPage_self hd).symm⟩
  | cons e es ih =>
    rw [forall_mem_cons] at henc
    unfold TreeIndex.addEntries at h
    obtain ⟨res, s₁, h1, h⟩ := of_exec_bind h
    obtain ⟨d₁, hadd, rfl⟩ := of_addEntry henc.1 hd h1
    have hlt := (List.getElem?_eq_some_iff.mp hd).1
    obtain ⟨d', hall, rfl⟩ := ih henc.2 (getElem?_set_self hlt) h
    exact ⟨d', bind_eq_ok.mpr ⟨_, hadd, hall⟩, setPage_setPage s p d₁ d'⟩

/-- A page is created and filled. -/
theorem ok_fill {es : List NodeEntry} {rest : PageId → PoolProg α}
    (henc : ∀ e ∈ es, encode C e = .ok (C.bytes e)) (h : Pool.exec (do
      let q ← createPage
      TreeIndex.addEntries C q es
      rest q) s = (.ok v, s')) :
    s.pages.length < Pool.maxPages ∧ ∃ dq s₁,
      (SlotDir.empty (newPage s.pages 0)).addAll (es.map C.bytes) = .ok dq ∧
      s₁.pages = s.pages ++ [dq] ∧ Pool.exec (rest (newPage s.pages 0)) s₁ = (.ok v, s') := by
  obtain ⟨hlen, s₁, hpages, h⟩ := ok_createPage h
  have hq := toNat_newPage hlen
  obtain ⟨u, s₂, hadd, h⟩ := of_exec_bind h
  obtain ⟨dq, hdq, rfl⟩ := of_addEntries henc (hpages ▸ (written_append _ hlen).self) hadd
  refine ⟨hlen, dq, _, hdq, ?_, h⟩
  show s₁.pages.set (newPage s.pages 0).toNat dq = _
  rw [hpages, hq, set_append_right _ _ le_rfl, Nat.sub_self]
  rfl

/-- The end of a split: a page is created and filled, then the drained page is filled again. -/
theorem ok_deal {d₀ : SlotDir} {left : PageId → List NodeEntry} {right : List NodeEntry}
    {rest : PageId → PoolProg α} (hp : p.toNat < s.pages.length)
    (hright : ∀ e ∈ right, encode C e = .ok (C.bytes e))
    (hleft : ∀ q, ∀ e ∈ left q, encode C e = .ok (C.bytes e)) (h : Pool.exec (do
      let q ← createPage
      TreeIndex.addEntries C q right
      TreeIndex.addEntries C p (left q)
      rest q) (s.setPage p d₀) = (.ok v, s')) :
    s.pages.length < Pool.maxPages ∧ ∃ dq dp s₁,
      (SlotDir.empty (newPage s.pages 0)).addAll (right.map C.bytes) = .ok dq ∧
      d₀.addAll ((left (newPage s.pages 0)).map C.bytes) = .ok dp ∧
      s₁.pages = s.pages.set p.toNat dp ++ [dq] ∧
      Pool.exec (rest (newPage s.pages 0)) s₁ = (.ok v, s') := by
  obtain ⟨hlen, dq, s₁, hdq, hpages, h⟩ := ok_fill hright h
  have hset : (s.setPage p d₀).pages = s.pages.set p.toNat d₀ := rfl
  have hp' : p.toNat < (s.pages.set p.toNat d₀).length := by rwa [length_set]
  rw [hset] at hlen hdq hpages h
  rw [newPage_set] at hdq h
  have hp₁ : s₁.pages[p.toNat]? = some d₀ := by
    rw [hpages, getElem?_append_left hp', getElem?_set_self hp]
  obtain ⟨u, s₂, hadd, h⟩ := of_exec_bind h
  obtain ⟨dp, hdp, rfl⟩ := of_addEntries (hleft _) hp₁ hadd
  refine ⟨length_set ▸ hlen, dq, dp, _, hdq, hdp, ?_, h⟩
  show s₁.pages.set p.toNat dp = _
  rw [hpages, set_append_left _ _ hp', set_set]

theorem of_setLeafLeftSibling {newLeft : Option PageId} {u : Unit}
    (h : Pool.exec (setLeafLeftSibling C p newLeft) s = (.ok u, s')) :
    ∃ d slot isLeaf l r bytes d', s.pages[p.toNat]? = some d ∧
      firstMeta C d.iter = .ok (some (slot, isLeaf, l, r)) ∧
      encode C (.metadata isLeaf newLeft r) = .ok bytes ∧ d.update slot bytes = (some (), d') ∧
      s'.pages = s.pages.set p.toNat d' := by
  unfold setLeafLeftSibling at h
  obtain ⟨s₁, hpages, h⟩ := ok_getPageForWrite h
  obtain ⟨d, hd, h⟩ := ok_iter h
  obtain ⟨found, hmeta, h⟩ := ok_ofExcept h
  cases found with
  | none => cases h
  | some y =>
    obtain ⟨slot, isLeaf, l, r⟩ := y
    obtain ⟨bytes, henc, h⟩ := ok_ofExcept h
    obtain ⟨res, s₂, hup, h⟩ := of_exec_bind h
    rw [exec_updateValue] at hup
    obtain ⟨d₁, d', hd₁, hupd, rfl⟩ := of_changePage hup
    obtain rfl := Option.some.inj (hd₁.symm.trans hd)
    cases res with
    | none => cases h
    | some w =>
      cases h
      rw [hpages] at hd
      exact ⟨_, slot, isLeaf, l, r, bytes, d', hd, hmeta, henc, Except.ok.inj hupd,
        congrArg (List.set · p.toNat d') hpages⟩

theorem of_setRootPageId {newRoot : PageId} {u : Unit}
    (h : Pool.exec (setRootPageId newRoot) s = (.ok u, s')) :
    ∃ d d', s.pages[(0 : PageId).toNat]? = some d ∧
      d.update 0 (toLeBytes newRoot) = (some (), d') ∧ Written s.pages s'.pages 0 d' ∧
      s'.pages.length = s.pages.length := by
  unfold setRootPageId at h
  obtain ⟨s₁, hpages, h⟩ := ok_getPageForWrite h
  obtain ⟨res, s₂, hup, h⟩ := of_exec_bind h
  rw [exec_updateValue] at hup
  obtain ⟨d, d', hd, hupd, rfl⟩ := of_changePage hup
  cases res with
  | none => cases h
  | some w =>
    cases h
    rw [← hpages]
    exact ⟨d, d', hd, Except.ok.inj hupd, written_set d' (List.getElem?_eq_some_iff.mp hd).1,
      length_set⟩

section Below

variable {key : IndexKey} {rid : ValueId} {fuel : ℕ} {out : Option (IndexKey × PageId)}
  (hd : s.pages[p.toNat]? = some d)
  (h : Pool.exec (insertRecursive C key rid fuel p) s = (.ok out, s'))
include hd h

/-- An insertion below a leaf is one into the leaf. -/
theorem of_insertRecursive_leaf (hleaf : readIsLeaf C d.iter = .ok true) :
    ∃ m s₁, fuel = m + 1 ∧ s₁.pages = s.pages ∧
      Pool.exec (insertIntoLeaf C p key rid) s₁ = (.ok out, s') := by
  cases fuel with
  | zero => cases h
  | succ m =>
    obtain ⟨s₁, hpages, h⟩ := ok_getPageForRead h
    rw [exec_iter_bind (hpages ▸ hd), exec_ofExcept_bind hleaf, if_pos rfl] at h
    exact ⟨m, s₁, rfl, hpages, h⟩

/-- An insertion below an inner node is one below the child that the key leads to; a child that was
split hands its new sibling to the node. -/
theorem of_insertRecursive_inner {es : List (Option IndexKey × PageId)} {c : PageId}
    (hleaf : readIsLeaf C d.iter = .ok false) (hread : readInternalEntries C d.iter = .ok es)
    (hchild : findChild es key = .ok c) :
    ∃ m s₁ s₂ up, fuel = m + 1 ∧ s₁.pages = s.pages ∧
      Pool.exec (insertRecursive C key rid m c) s₁ = (.ok up, s₂) ∧
      (up = none ∧ out = none ∧ s' = s₂ ∨ ∃ t q, up = some (t, q) ∧
        Pool.exec (insertIntoInternal C p t q) s₂ = (.ok out, s')) := by
  cases fuel with
  | zero => cases h
  | succ m =>
    obtain ⟨s₁, hpages₁, h⟩ := ok_getPageForRead h
    rw [exec_iter_bind (hpages₁ ▸ hd), exec_ofExcept_bind hleaf, if_neg Bool.false_ne_true] at h
    obtain ⟨s₂, hpages, h⟩ := ok_getPageForRead h
    rw [hpages₁] at hpages
    rw [exec_iter_bind (hpages ▸ hd), exec_ofExcept_bind hread, exec_ofExcept_bind hchild] at h
    obtain ⟨up, s₃, hrec, h⟩ := of_exec_bind h
    refine ⟨m, s₂, s₃, up, rfl, hpages, hrec, ?_⟩
    cases up with
    | none =>
      cases h
      exact Or.inl ⟨rfl, rfl, rfl⟩
    | some x => exact Or.inr ⟨x.1, x.2, rfl, h⟩

end Below

end Calls

/-! ### Insertion into a leaf -/

section Insert

variable {C : Codec} {a b : ℕ} (hC : C.Sound a b) {s s' : Pool SlotDir}
include hC

variable {p root : PageId} {d : SlotDir} {l r : Option PageId} {es : Multiset (IndexKey × ValueId)}
  {u : Unit} {pages : List SlotDir} {key : IndexKey} {rid : ValueId}
  {out : Option (IndexKey × PageId)}

theorem setLeafLeftSibling_ok {newLeft : Option PageId} (hd : s.pages[p.toNat]? = some d)
    (hleaf : LeafPage C a d l r es) (hl : l ≠ none)
    (h : Pool.exec (setLeafLeftSibling C p newLeft) s = (.ok u, s')) :
    ∃ d', s'.pages = s.pages.set p.toNat d' ∧ LeafPage C a d' newLeft r es := by
  obtain ⟨d₁, slot, isLeaf, l₁, r₁, bytes, d', hd₁, hmeta, henc, hup, hpages⟩ :=
    of_setLeafLeftSibling h
  obtain rfl := Option.some.inj (hd₁.symm.trans hd)
  obtain ⟨slot', hget, hmeta'⟩ := hleaf.firstMeta hC
  rw [hmeta'] at hmeta
  cases hmeta
  rw [encode_eq hC (e := .metadata true newLeft r) trivial] at henc
  cases henc
  exact ⟨d', hpages, hleaf.relink hC hl hget hup⟩

theorem storeOf_page {nd : Node IndexKey ValueId PageId} (h0 : p ≠ 0)
    (hd : pages[p.toNat]? = some d) (hnode : NodePage C a b d nd) :
    storeOf C pages p = some nd := by
  rw [storeOf_get h0 hd]
  exact hnode.view hC

/-- The end of a split: a page is created and filled, then the drained page is filled again. -/
theorem ok_refill {α : Type} {d₀ : SlotDir} {left : PageId → List NodeEntry}
    {right : List NodeEntry} {nd : PageId → Node IndexKey ValueId PageId}
    {nd' : Node IndexKey ValueId PageId} {rest : PageId → PoolProg α} {out : α}
    (hn : Nodes C a b ∅ s.pages) (hh : Header s.pages root) (h0 : p ≠ 0)
    (hp : p.toNat < s.pages.length) (hleft : ∀ q, (∀ e ∈ left q, e.OneColumn) ∧
      ∃ d, d₀.addAll ((left q).map C.bytes) = .ok d ∧ NodePage C a b d (nd q))
    (hright : ∀ q, (∀ e ∈ right, e.OneColumn) ∧
      ∃ d, (SlotDir.empty q).addAll (right.map C.bytes) = .ok d ∧ NodePage C a b d nd')
    (h : Pool.exec (do
      let q ← createPage
      TreeIndex.addEntries C q right
      TreeIndex.addEntries C p (left q)
      rest q) (s.setPage p d₀) = (.ok out, s')) :
    ∃ q s₁, q ≠ p ∧ storeOf C s.pages q = none ∧ Pool.exec (rest q) s₁ = (.ok out, s') ∧
      storeOf C s₁.pages =
        Function.update (Function.update (storeOf C s.pages) q (some nd')) p (some (nd q)) ∧
      Nodes C a b ∅ s₁.pages ∧ Header s₁.pages root := by
  obtain ⟨hlen, dq', dp', s₁, hdq', hdp', hpages, hrun⟩ := ok_deal hp
    (fun e he => encode_eq hC ((hright p).1 e he)) (fun q e he => encode_eq hC ((hleft q).1 e he)) h
  obtain ⟨-, dq, hdq, hndq⟩ := hright (newPage s.pages 0)
  obtain ⟨-, dp, hdp, hndp⟩ := hleft (newPage s.pages 0)
  obtain rfl := Except.ok.inj (hdq.symm.trans hdq')
  obtain rfl := Except.ok.inj (hdp.symm.trans hdp')
  have hqp := newPage_ne hp hlen
  obtain ⟨hstore₁, hn₁, hh₁⟩ := (written_set dp hp).node hC h0 hndp hn hh
  have hwrite := written_set_append p.toNat dp dq hlen
  rw [← hpages] at hwrite
  obtain ⟨hstore₂, hn₂, hh₂⟩ :=
    hwrite.node hC (newPage_ne (p := 0) (Nat.zero_lt_of_lt hp) hlen) hndq hn₁ hh₁
  refine ⟨_, s₁, hqp, storeOf_ge (toNat_newPage hlen).ge, hrun, ?_, hn₂, hh₂⟩
  rw [hstore₂, hstore₁, update_comm hqp]

/-- A leaf that refuses an entry is split. -/
theorem splitLeaf_ok (hn : Nodes C a b ∅ s.pages) (hh : Header s.pages root) (h0 : p ≠ 0)
    (hd : s.pages[p.toNat]? = some d) (hleaf : LeafPage C a d l r es) (hk : BigIntKey key)
    (hroom : ¬ d.Room (C.bytes (.leaf key rid))) (hright : ∀ x, r = some x → x ≠ p ∧
      ∃ l' r' es', storeOf C s.pages x = some (.leaf l' r' es') ∧ l' ≠ none)
    (h : Pool.exec (splitLeaf C p key rid) s = (.ok out, s')) :
    LeafIns key rid (storeOf C s.pages) p (storeOf C s'.pages) out ∧ Nodes C a b ∅ s'.pages ∧
      Header s'.pages root ∧ ∀ t q, out = some (t, q) → BigIntKey t := by
  have hnode : NodePage C a b d (.leaf l r es) := hleaf
  have hσp := storeOf_page hC h0 hd hnode
  have hplt := (List.getElem?_eq_some_iff.mp hd).1
  obtain ⟨ls, hls, hread⟩ := hleaf.leafEntries hC
  unfold splitLeaf at h
  rw [exec_bind_ok (exec_drainLeaf hd hread)] at h
  simp only at h
  have hE : (sortLeaf (ls ++ [(key, rid)]) : Multiset (IndexKey × ValueId)) = (key, rid) ::ₘ es := by
    rw [← hls, Multiset.coe_eq_coe.mpr (sortLeaf_perm _), Multiset.cons_coe, Multiset.coe_eq_coe]
    exact perm_append_singleton _ _
  have hsorted := sortLeaf_pairwise (ls ++ [(key, rid)])
  generalize sortLeaf (ls ++ [(key, rid)]) = E at h hE hsorted
  have hcut : E.take (E.length / 2) ++ E.drop (E.length / 2) = E := take_append_drop _ _
  have hfits := fun q => hleaf.split hC hk hroom hE p q q
  generalize E.take (E.length / 2) = xs at h hfits hcut
  generalize E.drop (E.length / 2) = ys at h hfits hcut
  subst hcut
  cases ys with
  | nil => cases h
  | cons y ys =>
    simp only at h
    have hnleft : ∀ q, (∀ e ∈ NodeEntry.metadata true l (some q) :: xs.map leafEntry, e.OneColumn) ∧
        ∃ d', (d.deleteAll (d.iter.map Prod.snd)).addAll
          ((NodeEntry.metadata true l (some q) :: xs.map leafEntry).map C.bytes) = .ok d' ∧
          NodePage C a b d' (.leaf l (some q) xs) := by
      intro q
      obtain ⟨-, -, ⟨d', hd', hleaf'⟩, -⟩ := hfits q
      exact ⟨oneColumn_of_perm (fun x hx => hleaf'.keys x (Multiset.mem_coe.mpr hx))
        (List.Perm.refl _), d', hd', hleaf'⟩
    have hnright : ∀ q, (∀ e ∈ NodeEntry.metadata true (some p) r :: (y :: ys).map leafEntry,
        e.OneColumn) ∧ ∃ d', (SlotDir.empty q).addAll
          ((NodeEntry.metadata true (some p) r :: (y :: ys).map leafEntry).map C.bytes) = .ok d' ∧
          NodePage C a b d' (.leaf (some p) r (y :: ys : List (IndexKey × ValueId))) := by
      intro q
      obtain ⟨-, -, -, d', hd', hleaf'⟩ := hfits q
      exact ⟨oneColumn_of_perm (fun x hx => hleaf'.keys x (Multiset.mem_coe.mpr hx))
        (List.Perm.refl _), d', hd', hleaf'⟩
    obtain ⟨q, s₁, hqp, hσq, hrun, hstore, hnodes, hheader⟩ :=
      ok_refill hC hn hh h0 hplt hnleft hnright h
    -- the cut
    have hsum : (key, rid) ::ₘ es =
        (xs : Multiset (IndexKey × ValueId)) + (y :: ys : List (IndexKey × ValueId)) := by
      rw [← hE, Multiset.coe_add]
    have hne : (xs : Multiset (IndexKey × ValueId)) ≠ 0 := by
      rw [Ne, Multiset.coe_eq_zero]
      exact (hfits q).1
    obtain ⟨-, hysorted, hcross⟩ := pairwise_append.mp hsorted
    have hle : ∀ x ∈ (xs : Multiset (IndexKey × ValueId)), x.1 ≤ y.1 := fun x hx =>
      hcross x (Multiset.mem_coe.mp hx) y mem_cons_self
    have hge : ∀ z ∈ ((y :: ys : List (IndexKey × ValueId)) : Multiset (IndexKey × ValueId)),
        y.1 ≤ z.1 := by
      intro z hz
      rcases mem_cons.mp (Multiset.mem_coe.mp hz) with rfl | hz
      · exact le_rfl
      · exact (pairwise_cons.mp hysorted).1 z hz
    have hmem : ∃ z ∈ ((y :: ys : List (IndexKey × ValueId)) : Multiset (IndexKey × ValueId)),
        z.1 = y.1 := ⟨y, Multiset.mem_coe.mpr mem_cons_self, rfl⟩
    have hkey : BigIntKey y.1 := by
      obtain ⟨-, -, -, d', -, hleaf'⟩ := hfits q
      exact hleaf'.keys y (Multiset.mem_coe.mpr mem_cons_self)
    cases r with
    | none =>
      cases hrun
      refine ⟨?_, hnodes, hheader, ?_⟩
      · rw [hstore]
        exact LeafIns.split hσp hσq hsum hne hmem hle hge
      · intro t q' htq
        rw [← (Prod.mk.inj (Option.some.inj htq)).1]
        exact hkey
    | some x =>
      obtain ⟨hxp, l', r', es', hx, hl'⟩ := hright x rfl
      have hxq : x ≠ q := by
        rintro rfl
        rw [hx] at hσq
        cases hσq
      have hx₁ : Function.update (Function.update (storeOf C s.pages) q
          (some (.leaf (some p) (some x) (y :: ys : List (IndexKey × ValueId))))) p
          (some (.leaf l (some q) xs)) x = some (.leaf l' r' es') := by
        rw [update_of_ne hxp, update_of_ne hxq, hx]
      rw [← hstore] at hx₁
      obtain ⟨hx0, dx, hdx, hnx⟩ := hnodes.at hC hx₁
      have hleafx : LeafPage C a dx l' r' es' := hnx
      have hxlt := (List.getElem?_eq_some_iff.mp hdx).1
      obtain ⟨u, s₂, h1, h2⟩ := of_exec_bind hrun
      cases h2
      obtain ⟨dx', hpages₂, hleafx'⟩ := setLeafLeftSibling_ok hC hdx hleafx hl' h1
      have hnx' : NodePage C a b dx' (.leaf (some q) r' es') := hleafx'
      obtain ⟨hstore', hnodes', hheader'⟩ := (written_set dx' hxlt).node hC hx0 hnx' hnodes hheader
      rw [hpages₂]
      refine ⟨?_, hnodes', hheader', ?_⟩
      · rw [hstore']
        have hsplit := LeafIns.split hσp hσq hsum hne hmem hle hge
        unfold relink at hsplit
        simp only at hsplit
        rw [← hstore, hx₁] at hsplit
        exact hsplit
      · intro t q' htq
        rw [← (Prod.mk.inj (Option.some.inj htq)).1]
        exact hkey

theorem insertIntoLeaf_ok (hn : Nodes C a b ∅ s.pages) (hh : Header s.pages root) (h0 : p ≠ 0)
    (hd : s.pages[p.toNat]? = some d) (hleaf : LeafPage C a d l r es) (hk : BigIntKey key)
    (hright : ∀ x, r = some x → x ≠ p ∧
      ∃ l' r' es', storeOf C s.pages x = some (.leaf l' r' es') ∧ l' ≠ none)
    (h : Pool.exec (insertIntoLeaf C p key rid) s = (.ok out, s')) :
    LeafIns key rid (storeOf C s.pages) p (storeOf C s'.pages) out ∧ Nodes C a b ∅ s'.pages ∧
      Header s'.pages root ∧ ∀ t q, out = some (t, q) → BigIntKey t := by
  unfold insertIntoLeaf at h
  obtain ⟨s₁, hpages, h⟩ := ok_getPageForWrite h
  rw [← hpages] at hn hh hd hright ⊢
  have hone : NodeEntry.OneColumn (.leaf key rid) := hk
  by_cases hroom : d.Room (C.bytes (.leaf key rid))
  · obtain ⟨slot, d', hadd, hleaf'⟩ := hleaf.add hC hk rid hroom
    have hnode : NodePage C a b d (.leaf l r es) := hleaf
    have hnode' : NodePage C a b d' (.leaf l r ((key, rid) ::ₘ es)) := hleaf'
    rw [exec_bind_ok (exec_addEntry hd (encode_eq hC hone) hadd)] at h
    cases h
    obtain ⟨hstore, hn', hh'⟩ :=
      (written_set d' (List.getElem?_eq_some_iff.mp hd).1).node hC h0 hnode' hn hh
    refine ⟨?_, hn', hh', ?_⟩
    · show LeafIns key rid _ p (storeOf C (s₁.pages.set p.toNat d')) none
      rw [hstore]
      exact LeafIns.add (storeOf_page hC h0 hd hnode)
    · intro t q htq
      cases htq
  · rw [exec_bind_ok (exec_addEntry hd (encode_eq hC hone) (add_noRoom hroom)),
      setPage_self hd] at h
    exact splitLeaf_ok hC hn hh h0 hd hleaf hk hroom hright h

/-! ### Insertion into an internal node -/

/-- What the insertion of a child does to the node `p` with entries `es`. -/
inductive InnerIns (x : Option IndexKey × PageId) (es : List (Option IndexKey × PageId))
    (σ : Store IndexKey ValueId PageId) (p : PageId) :
    Store IndexKey ValueId PageId → Option (IndexKey × PageId) → Prop
  | add : InnerIns x es σ p (Function.update σ p (some (.inner (BTree.insertEntry x es)))) none
  | split {q m : PageId} {t : IndexKey} {ls rs : List (Option IndexKey × PageId)}
      (hsplit : BTree.insertEntry x es = ls ++ (some t, m) :: rs) (hls : ls ≠ []) (hq : σ q = none) :
      InnerIns x es σ p (Function.update (Function.update σ q (some (.inner ((none, m) :: rs)))) p
        (some (.inner ls))) (some (t, q))

theorem exec_drainInternal {es : List (Option IndexKey × PageId)} (hd : s.pages[p.toNat]? = some d)
    (hinner : InnerPage C b d es) : Pool.exec (drainInternal C p) s =
      (.ok es, s.setPage p (d.deleteAll (d.iter.map Prod.snd))) := by
  obtain ⟨ls, rfl, hread⟩ := hinner.internalEntries hC
  unfold drainInternal
  rw [exec_iter_bind hd, exec_ofExcept_bind hread, exec_bind_ok (exec_deleteSlots hd _)]
  rfl

/-- An internal node that refuses a child is split at its middle entry. -/
theorem splitInternal_ok {child : PageId} {es : List (Option IndexKey × PageId)}
    (hn : Nodes C a b ∅ s.pages) (hh : Header s.pages root) (h0 : p ≠ 0)
    (hd : s.pages[p.toNat]? = some d) (hinner : InnerPage C b d es) (hne : es ≠ [])
    (hk : BigIntKey key) (h : Pool.exec (splitInternal C p key child) s = (.ok out, s')) :
    InnerIns (some key, child) es (storeOf C s.pages) p (storeOf C s'.pages) out ∧
      Nodes C a b ∅ s'.pages ∧ Header s'.pages root ∧ ∀ t q, out = some (t, q) → BigIntKey t := by
  have hplt := (List.getElem?_eq_some_iff.mp hd).1
  unfold splitInternal at h
  rw [exec_bind_ok (exec_drainInternal hC hd hinner)] at h
  simp only at h
  have hE := hinner.sort_append (some key, child)
  generalize hE' : sortInternal (es ++ [(some key, child)]) = E at h hE
  cases hdrop : E.drop (E.length / 2) with
  | nil =>
    rw [hdrop] at h
    cases h
  | cons y rs =>
    rw [hdrop] at h
    obtain ⟨sep, m⟩ := y
    cases sep with
    | none => cases h
    | some t =>
      simp only at h
      have hfits := hinner.split hC hne hk hE' hdrop
      have hnleft : ∀ q : PageId, (∀ e ∈ NodeEntry.metadata false none none ::
          (E.take (E.length / 2)).map innerEntry, e.OneColumn) ∧
          ∃ d', (d.deleteAll (d.iter.map Prod.snd)).addAll ((NodeEntry.metadata false none none ::
            (E.take (E.length / 2)).map innerEntry).map C.bytes) = .ok d' ∧
            NodePage C a b d' (.inner (E.take (E.length / 2))) := by
        intro q
        obtain ⟨-, -, ⟨d', hd', hinner'⟩, -⟩ := hfits q
        exact ⟨InnerPage.oneColumn hinner'.keys false none none, d', hd', hinner'⟩
      have hnright : ∀ q : PageId, (∀ e ∈ NodeEntry.metadata false none none ::
          ((none, m) :: rs).map innerEntry, e.OneColumn) ∧
          ∃ d', (SlotDir.empty q).addAll ((NodeEntry.metadata false none none ::
            ((none, m) :: rs).map innerEntry).map C.bytes) = .ok d' ∧
            NodePage C a b d' (.inner ((none, m) :: rs)) := by
        intro q
        obtain ⟨-, -, -, d', hd', hinner'⟩ := hfits q
        exact ⟨InnerPage.oneColumn hinner'.keys false none none, d', hd', hinner'⟩
      obtain ⟨q, s₁, hqp, hσq, hrun, hstore, hnodes, hheader⟩ :=
        ok_refill hC hn hh h0 hplt hnleft hnright h
      cases hrun
      refine ⟨?_, hnodes, hheader, ?_⟩
      · rw [hstore]
        refine InnerIns.split ?_ (hfits q).1 hσq
        rw [← hE, ← hdrop, take_append_drop]
      · intro t' q' htq
        rw [← (Prod.mk.inj (Option.some.inj htq)).1]
        exact (hfits q).2.1

theorem insertIntoInternal_ok {child : PageId} {es : List (Option IndexKey × PageId)}
    (hn : Nodes C a b ∅ s.pages) (hh : Header s.pages root)
    (hp : storeOf C s.pages p = some (.inner es)) (hne : es ≠ []) (hk : BigIntKey key)
    (h : Pool.exec (insertIntoInternal C p key child) s = (.ok out, s')) :
    InnerIns (some key, child) es (storeOf C s.pages) p (storeOf C s'.pages) out ∧
      Nodes C a b ∅ s'.pages ∧ Header s'.pages root ∧ ∀ t q, out = some (t, q) → BigIntKey t := by
  obtain ⟨h0, d, hd, hnode⟩ := hn.at hC hp
  have hinner : InnerPage C b d es := hnode
  unfold insertIntoInternal at h
  obtain ⟨s₁, hpages, h⟩ := ok_getPageForWrite h
  rw [← hpages] at hn hh hd ⊢
  have hone : NodeEntry.OneColumn (.internal (some key) child) := fun k hk' =>
    Option.some.inj hk' ▸ hk
  have hexact : d.Exact := by
    obtain ⟨ls, z, -, hf⟩ := hinner.holds
    exact hf.exact
  obtain ⟨⟨res, d'⟩, hadd⟩ := add_ok hexact (C.bytes (.internal (some key) child))
  rw [exec_bind_ok (exec_addEntry hd (encode_eq hC hone) hadd)] at h
  cases res with
  | some slot =>
    have hnode' : NodePage C a b d' (.inner (BTree.insertEntry (some key, child) es)) :=
      hinner.add hC hk hadd
    cases h
    obtain ⟨hstore, hn', hh'⟩ :=
      (written_set d' (List.getElem?_eq_some_iff.mp hd).1).node hC h0 hnode' hn hh
    refine ⟨?_, hn', hh', ?_⟩
    · show InnerIns _ _ _ p (storeOf C (s₁.pages.set p.toNat d')) none
      rw [hstore]
      exact InnerIns.add
    · intro t q htq
      cases htq
  | none =>
    obtain ⟨-, rfl⟩ := add_none hadd
    rw [setPage_self hd] at h
    exact splitInternal_ok hC hn hh h0 hd hinner hne hk h

/-! ### Insertion into the tree -/

variable {n : ℕ} {ch : List PageId}

omit hC in
/-- In a tree the right sibling of a leaf is another leaf, which knows it has a left sibling. -/
theorem right_isLeaf {σ : Store IndexKey ValueId PageId} (ht : Tree σ n root ch) {x : PageId}
    (hp : σ p = some (.leaf l (some x) es)) :
    x ≠ p ∧ ∃ l' r' es', σ x = some (.leaf l' r' es') ∧ l' ≠ none := by
  obtain ⟨pre, post, rfl, -, hx⟩ := leaf_linked ht hp
  cases post with
  | nil => cases hx
  | cons y post =>
    cases hx
    have hnodup := ht.chain.nodup_iff.mpr (ht.nodup.sublist (leaves_sublist_pages σ n root))
    have hlinked := ht.linked
    rw [append_cons] at hlinked
    obtain ⟨es'', hx''⟩ := hlinked.at
    refine ⟨?_, _, _, _, hx'', ?_⟩
    · rintro rfl
      rw [nodup_append] at hnodup
      exact (nodup_cons.mp hnodup.2.1).1 mem_cons_self
    · rw [getLast?_concat]
      exact Option.some_ne_none _

theorem insertRecursive_ok {fuel : ℕ} (hk : BigIntKey key) (hn : Nodes C a b ∅ s.pages)
    (hh : Header s.pages root) (hshape : Shape (storeOf C s.pages) n p)
    (hright : ∀ p x l es, storeOf C s.pages p = some (.leaf l (some x) es) → x ≠ p ∧
      ∃ l' r' es', storeOf C s.pages x = some (.leaf l' r' es') ∧ l' ≠ none)
    (h : Pool.exec (insertRecursive C key rid fuel p) s = (.ok out, s')) :
    ∃ x new, Ins key rid (storeOf C s.pages) p (storeOf C s'.pages) out x new ∧
      Nodes C a b ∅ s'.pages ∧ Header s'.pages root ∧ ∀ t q, out = some (t, q) → BigIntKey t := by
  induction n generalizing fuel p s s' out with
  | zero =>
    obtain ⟨l, r, es, hp⟩ := hshape
    obtain ⟨h0, d, hd, hnode⟩ := hn.at hC hp
    have hleaf : LeafPage C a d l r es := hnode
    obtain ⟨m, s₁, -, hpages, h⟩ := of_insertRecursive_leaf hd h (hleaf.readIsLeaf hC)
    rw [← hpages] at hn hh hp hd hright ⊢
    obtain ⟨hins, hrest⟩ := insertIntoLeaf_ok hC hn hh h0 hd hleaf hk
      (fun x hx => hright p x l es (hx ▸ hp)) h
    exact ⟨p, out, Ins.leaf hins, hrest⟩
  | succ n ih =>
    obtain ⟨es, hp, hne, hkids⟩ := hshape
    obtain ⟨h0, d, hd, hnode⟩ := hn.at hC hp
    have hinner : InnerPage C b d es := hnode
    obtain ⟨c, hc, hchild⟩ := findChild_eq key hne
    obtain ⟨m, s₁, s₂, up, -, hpages, hrec, h⟩ := of_insertRecursive_inner hd h
      (hinner.readIsLeaf hC) (hinner.readInternalEntries hC) hchild
    rw [← hpages] at hn hh hp hkids hright ⊢
    obtain ⟨e, he, rfl⟩ := route_mem hc
    obtain ⟨x, new, hins, hn₂, hh₂, hkey⟩ := ih hn hh (hkids e he) hright hrec
    rcases h with ⟨rfl, rfl, rfl⟩ | ⟨t, q, rfl, h⟩
    · exact ⟨x, new, Ins.pass hp hc hins, hn₂, hh₂, hkey⟩
    · obtain ⟨es', hp', hne'⟩ := hins.inner_ne_nil hp hne
      obtain ⟨hinsert, hrest⟩ := insertIntoInternal_ok hC hn₂ hh₂ hp' hne' (hkey t q rfl) h
      refine ⟨x, new, ?_, hrest⟩
      generalize storeOf C s'.pages = σ' at hinsert
      cases hinsert with
      | add => exact Ins.add hp hc hins hp'
      | split hsplit hls hq => exact Ins.split hp hc hins hp' hsplit hls hq

omit hC in
theorem setRootPageId_ok {newRoot : PageId} (hn : Nodes C a b ∅ s.pages) (hh : Header s.pages root)
    (h : Pool.exec (setRootPageId newRoot) s = (.ok u, s')) :
    storeOf C s'.pages = storeOf C s.pages ∧ Nodes C a b ∅ s'.pages ∧ Header s'.pages newRoot := by
  obtain ⟨d, hd, hwf, hexact, hvalues⟩ := hh
  obtain ⟨d₁, d', hd₁, hup, hwrite, -⟩ := of_setRootPageId h
  obtain rfl : d₁ = d := Option.some.inj (hd₁.symm.trans hd)
  have hU := update_some hwf hup
  refine ⟨?_, fun x e h0 hx he => hn x e h0 hx (hwrite.other x h0 ▸ he), d', hwrite.self, hU.wf,
    update_exact hexact (toLeBytes_ne_nil newRoot) hup, ?_⟩
  · funext x
    exact storeOf_congr (hwrite.other x)
  · rw [hU.values, hvalues]
    rfl

/-- The root was split: a new root over its two halves. -/
theorem newRoot_ok {q : PageId} (hn : Nodes C a b ∅ s.pages) (hh : Header s.pages root)
    (hk : BigIntKey key) (h : Pool.exec (do
      let newRoot ← createPage
      TreeIndex.addEntries C newRoot
        [.metadata false none none, .internal none root, .internal (some key) q]
      setRootPageId newRoot) s = (.ok u, s')) : ∃ newRoot, storeOf C s.pages newRoot = none ∧
      storeOf C s'.pages = Function.update (storeOf C s.pages) newRoot
        (some (.inner [(none, root), (some key, q)])) ∧
      Nodes C a b ∅ s'.pages ∧ Header s'.pages newRoot := by
  have hkeys : ∀ x ∈ [(none, root), (some key, q)], ∀ k : IndexKey, x.1 = some k → BigIntKey k := by
    intro x hx k hxk
    simp only [mem_cons, not_mem_nil, or_false] at hx
    rcases hx with rfl | rfl
    · cases hxk
    · exact Option.some.inj hxk ▸ hk
  have hone := InnerPage.oneColumn hkeys false none none
  have hsize : ∀ x ∈ [(none, root), (some key, q)], innerSize C x ≤ 200 := fun x hx =>
    hC.le (hone (innerEntry x) (mem_cons_of_mem _ (mem_map_of_mem hx)))
  have h1 := hsize _ mem_cons_self
  have h2 := hsize _ (mem_cons_of_mem _ mem_cons_self)
  obtain ⟨hlen, d', s₁, hd', hpages, h⟩ := ok_fill (fun e he => encode_eq hC (hone e he)) h
  obtain ⟨d, hd, hinner⟩ := InnerPage.fill hC (SlotDir.Front.empty (newPage s.pages 0)) hkeys
    (pairwise_pair.mpr trivial) (Or.inr ⟨rfl, rfl⟩) (by
      simp only [map_cons, map_nil, sum_cons, sum_nil, length_cons,
        length_nil]
      omega)
  obtain rfl := Except.ok.inj (hd.symm.trans hd')
  have hnode : NodePage C a b d (.inner [(none, root), (some key, q)]) := hinner
  have hpos : 0 < s.pages.length := by
    obtain ⟨e, he, -⟩ := hh
    exact (List.getElem?_eq_some_iff.mp he).1
  obtain ⟨hstore, hn₁, hh₁⟩ :=
    (written_append d hlen).node hC (newPage_ne (p := 0) hpos hlen) hnode hn hh
  rw [← hpages] at hstore hn₁ hh₁
  obtain ⟨hstore', hn₂, hh₂⟩ := setRootPageId_ok hn₁ hh₁ h
  exact ⟨_, storeOf_ge (toNat_newPage hlen).ge, hstore'.trans hstore, hn₂, hh₂⟩

/-- An insertion that returns made an insertion step on the tree. -/
theorem insert_ok (hk : BigIntKey key) (hn : Nodes C a b ∅ s.pages) (hh : Header s.pages root)
    (ht : Tree (storeOf C s.pages) n root ch)
    (h : Pool.exec (TreeIndex.insert C key rid) s = (.ok u, s')) :
    ∃ root' x new, Insert key rid (storeOf C s.pages) root (storeOf C s'.pages) root' x new ∧
      Nodes C a b ∅ s'.pages ∧ Header s'.pages root' := by
  unfold TreeIndex.insert at h
  obtain ⟨fuel, s₁, h1, h⟩ := of_exec_bind h
  obtain ⟨-, rfl⟩ := (rounds_reads s.pages).of_ok rfl h1
  obtain ⟨r, s₂, h2, h⟩ := of_exec_bind h
  obtain ⟨rfl, rfl⟩ := (getRootPageId_reads hh.rootOf).of_ok rfl h2
  obtain ⟨out, s₃, h3, h⟩ := of_exec_bind h
  obtain ⟨x, new, hins, hn₃, hh₃, hkey⟩ := insertRecursive_ok (s := s.after 1) hC hk hn hh ht.shape
    (fun p x l es hp => right_isLeaf ht hp) h3
  cases out with
  | none =>
    cases h
    exact ⟨r, x, new, Insert.stay hins, hn₃, hh₃⟩
  | some up =>
    obtain ⟨t, q⟩ := up
    obtain ⟨root', hfree, hstore, hn₄, hh₄⟩ := newRoot_ok hC hn₃ hh₃ (hkey t q rfl) h
    refine ⟨root', x, new, ?_, hn₄, hh₄⟩
    rw [hstore]
    exact Insert.grow hins hfree

/-! ### Deletion -/

/-- The walk of a deletion: what it finds is erased. -/
theorem deleteRun_ok {fuel : ℕ} {q : PageId} {res : Option PageId} (hn : Nodes C a b ∅ pages)
    (hh : Header pages root) (hs : Seek (storeOf C pages) key rid n q res)
    (hpages : s.pages = pages) (h : Pool.exec (deleteRun C key rid fuel q) s = (.ok u, s')) :
    Nodes C a b ∅ s'.pages ∧ Header s'.pages root ∧
      (∀ x, res = some x → Erase key rid (storeOf C pages) x (storeOf C s'.pages)) ∧
      (res = none → s'.pages = pages) := by
  induction hs generalizing fuel s with
  | @found q l r es hq hmem =>
    obtain ⟨h0, d, hd, hnode⟩ := hn.at hC hq
    have hleaf : LeafPage C a d l r es := hnode
    obtain ⟨ls, -, hread⟩ := hleaf.readLeafEntries hC
    rcases hleaf.findEntry hC key rid with ⟨-, slot, hget, hfind⟩ | ⟨hmem', -⟩
    · cases fuel with
      | zero => cases h
      | succ fuel =>
        obtain ⟨s₁, h₁, h⟩ := ok_getPageForRead h
        rw [hpages] at h₁
        rw [exec_iter_bind (h₁ ▸ hd), exec_ofExcept_bind hfind, exec_ofExcept_bind hread] at h
        obtain ⟨s₂, h₂, h⟩ := ok_getPageForWrite h
        rw [h₁] at h₂
        have hdel : Pool.exec (PoolProg.deleteValue q slot) s₂ =
            (.ok (d.delete slot).1, s₂.setPage q (d.delete slot).2) := by
          rw [exec_deleteValue]
          exact exec_change (h₂ ▸ hd) rfl
        rw [exec_bind_ok hdel] at h
        cases h
        obtain ⟨es', rfl⟩ := Multiset.exists_cons_of_mem hmem
        have hnode' : NodePage C a b (d.delete slot).2 (.leaf l r es') := hleaf.delete hget
        obtain ⟨hstore, hn', hh'⟩ := (written_set (d.delete slot).2
          (List.getElem?_eq_some_iff.mp hd).1).node hC h0 hnode' hn hh
        have hpages' : (s₂.setPage q (d.delete slot).2).pages =
            pages.set q.toNat (d.delete slot).2 := by
          rw [← h₂]
          rfl
        rw [hpages', hstore]
        refine ⟨hn', hh', ?_, fun hres => by cases hres⟩
        rintro x hx
        cases hx
        exact Erase.mk hq
    · exact absurd hmem hmem'
  | @stop q l r es hq hmem hend =>
    obtain ⟨h0, d, hd, hnode⟩ := hn.at hC hq
    have hleaf : LeafPage C a d l r es := hnode
    obtain ⟨ls, hls, hread⟩ := hleaf.readLeafEntries hC
    rcases hleaf.findEntry hC key rid with ⟨hmem', -⟩ | ⟨-, hfind⟩
    · exact absurd hmem' hmem
    · cases fuel with
      | zero => cases h
      | succ fuel =>
        obtain ⟨s₁, h₁, h⟩ := ok_getPageForRead h
        rw [hpages] at h₁
        rw [exec_iter_bind (h₁ ▸ hd), exec_ofExcept_bind hfind, exec_ofExcept_bind hread] at h
        simp only at h
        have hdone : s' = s₁ := by
          cases hlast : lastMatches key (sortLeaf ls) with
          | false =>
            rw [hlast] at h
            exact (Prod.mk.inj h).2.symm
          | true =>
            rw [lastMatches_iff, hls] at hlast
            cases r with
            | none =>
              rw [← hls, ← lastMatches_iff] at hlast
              rw [hlast] at h
              exact (Prod.mk.inj h).2.symm
            | some x => exact absurd ⟨hlast, Option.some_ne_none x⟩ hend
        rw [hdone, h₁]
        exact ⟨hn, hh, fun x hx => (by cases hx), fun _ => rfl⟩
  | @step n q x l es res hq hmem hend _ ih =>
    obtain ⟨h0, d, hd, hnode⟩ := hn.at hC hq
    have hleaf : LeafPage C a d l (some x) es := hnode
    obtain ⟨ls, hls, hread⟩ := hleaf.readLeafEntries hC
    rcases hleaf.findEntry hC key rid with ⟨hmem', -⟩ | ⟨-, hfind⟩
    · exact absurd hmem' hmem
    · cases fuel with
      | zero => cases h
      | succ fuel =>
        obtain ⟨s₁, h₁, h⟩ := ok_getPageForRead h
        rw [hpages] at h₁
        rw [exec_iter_bind (h₁ ▸ hd), exec_ofExcept_bind hfind, exec_ofExcept_bind hread] at h
        simp only at h
        rw [← hls, ← lastMatches_iff] at hend
        rw [hend] at h
        exact ih h₁ h

/-- A deletion that returns erased the entry it came across, or came across none. -/
theorem delete_ok (hn : Nodes C a b ∅ s.pages) (hh : Header s.pages root)
    (ht : Tree (storeOf C s.pages) n root ch)
    (h : Pool.exec (TreeIndex.delete C key rid) s = (.ok u, s')) :
    Nodes C a b ∅ s'.pages ∧ Header s'.pages root ∧
      ((∃ x ∈ ch, Erase key rid (storeOf C s.pages) x (storeOf C s'.pages)) ∨
        (s'.pages = s.pages ∧ ∃ p q i j, Leads (storeOf C s.pages) key n root p ∧
          Rewind (storeOf C s.pages) key i p q ∧ Seek (storeOf C s.pages) key rid j q none)) := by
  obtain ⟨p, q, i, t₁, t₂, pre, post, hch, hleads, hrewind, hread₁, hread₂⟩ :=
    start_reads hC hn ht key
  have hlink : Linked (storeOf C s.pages) none (pre ++ q :: post) := hch ▸ ht.linked
  obtain ⟨j, -, res, hseek, hres⟩ := Seek.total key rid hlink.drop
  unfold TreeIndex.delete at h
  obtain ⟨fuel, s₁, h1, h⟩ := of_exec_bind h
  obtain ⟨rfl, rfl⟩ := (rounds_reads s.pages).of_ok rfl h1
  obtain ⟨r, s₂, h2, h⟩ := of_exec_bind h
  obtain ⟨rfl, rfl⟩ := (getRootPageId_reads hh.rootOf).of_ok rfl h2
  obtain ⟨p', s₃, h3, h⟩ := of_exec_bind h
  obtain ⟨rfl, rfl⟩ := hread₁.of_ok (s := s.after 1) rfl h3
  obtain ⟨q', s₄, h4, h⟩ := of_exec_bind h
  obtain ⟨rfl, rfl⟩ := hread₂.of_ok (s := (s.after 1).after t₁) rfl h4
  obtain ⟨hn', hh', hsome, hnone⟩ := deleteRun_ok (s := s.after (1 + t₁ + t₂)) hC hn hh hseek rfl
    (by rw [← after_after, ← after_after]; exact h)
  refine ⟨hn', hh', ?_⟩
  cases res with
  | none => exact Or.inr ⟨hnone rfl, p', q', i, j, hleads, hrewind, hseek⟩
  | some x =>
    refine Or.inl ⟨x, ?_, hsome x rfl⟩
    rw [hch]
    exact mem_append_right _ (hres x rfl).1

/-! ### A new tree -/

theorem new_ok {refuse : ℕ → Option MemPoolStatus}
    (h : Pool.exec (new C) (⟨[], 0, refuse⟩ : Pool SlotDir) = (.ok u, s')) :
    Nodes C a b ∅ s'.pages ∧ Header s'.pages 1 ∧ storeOf C s'.pages 1 = some (.leaf none none 0) ∧
      ∀ x, x ≠ 1 → storeOf C s'.pages x = none := by
  unfold new at h
  obtain ⟨-, s₁, hpages₁, h⟩ := ok_createPage h
  obtain ⟨-, s₂, hpages₂, h⟩ := ok_createPage h
  have hnext : newPage s₁.pages 0 = 1 := by
    rw [hpages₁]
    rfl
  rw [hnext] at h hpages₂
  have hpages : s₂.pages = [SlotDir.empty 0, SlotDir.empty 1] := by
    rw [hpages₂, hpages₁]
    rfl
  obtain ⟨dr, haddr, hleaf⟩ := LeafPage.fresh hC 1
  obtain ⟨slot, dh, haddh, hfront, -⟩ := (SlotDir.Front.empty 0).add (toLeBytes_ne_nil 1)
    (Or.inr ⟨rfl, rfl⟩) (show _ < 4096 by
      rw [length_toLeBytes]
      decide)
  have hnode : NodePage C a b dr (.leaf none none 0) := hleaf
  have hr : s₂.pages[(1 : PageId).toNat]? = some (SlotDir.empty 1) := by
    rw [hpages]
    rfl
  obtain ⟨slotr, hadd⟩ := haddr
  rw [exec_bind_ok (exec_addEntry hr (encode_eq hC (e := .metadata true none none) trivial) hadd)] at h
  have hh : Pool.exec (PoolProg.addValue 0 (toLeBytes 1)) (s₂.setPage 1 dr) =
      (.ok (some slot), (s₂.setPage 1 dr).setPage 0 dh) := by
    rw [exec_addValue]
    refine exec_change (d := SlotDir.empty 0) ?_ haddh
    show (s₂.pages.set 1 dr)[0]? = _
    rw [hpages]
    rfl
  rw [show newPage ([] : List SlotDir) 0 = 0 from rfl, exec_bind_ok hh] at h
  cases h
  have hfinal : ((s₂.setPage 1 dr).setPage 0 dh).pages = [dh, dr] := by
    show (s₂.pages.set 1 dr).set 0 dh = _
    rw [hpages]
    rfl
  have hfree : ∀ x : PageId, x ≠ 0 → x ≠ 1 → [dh, dr][x.toNat]? = none := by
    intro x h0 h1
    have hx0 : x.toNat ≠ 0 := fun hx => h0 (UInt32.toNat_inj.mp hx)
    have hx1 : x.toNat ≠ 1 := fun hx => h1 (UInt32.toNat_inj.mp hx)
    refine getElem?_eq_none ?_
    rw [length_cons, length_singleton]
    omega
  rw [hfinal]
  refine ⟨?_, ⟨dh, rfl, hfront.wf, hfront.exact, hfront.values⟩, ?_, ?_⟩
  · intro x d h0 _ hd
    by_cases h1 : x = 1
    · subst h1
      cases hd
      exact ⟨_, hnode⟩
    · rw [hfree x h0 h1] at hd
      cases hd
  · exact storeOf_page hC (by decide) rfl hnode
  · intro x h1
    unfold storeOf
    split_ifs with h0
    · rfl
    · rw [hfree x h0 h1]
      rfl

end Insert

end CrustyDB
