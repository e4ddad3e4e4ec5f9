import CrustyDB.Index.TreeRefine
import CrustyDB.Index.Cbor
import CrustyDB.Lib.BTree.Invariants

/-! # Runs of the index

A run starts with a new tree and makes insertions and deletions that all return (`Run`).  The
statements are about byte pages; `Run.directories` carries them over from slot directories, on
which a run keeps a tree (`DirRun.tree`) and, when the cuts of its splits are new, its order and its
content (`DirRun.ordered`).

All of this is about runs whose new pages are put into blank frames.  `init_heap_page` sets only the
free space pointer, so in a frame that has held another page the old slots are part of the new node;
`ReusedFrames.lean` shows what then goes wrong.

`leafChain_of_run`: the leaves always form one doubly linked list.  `order_of_run`: when no key is
inserted while it is live, the tree is a search tree.  `search_of_run`: lookups return what was
inserted and not deleted, in runs whose states have no two equal separators; without this condition
they do not (`search_loses_entry`).  `stored_of_run`: the leaves have the live entries in every run. -/

namespace CrustyDB

open BTree Program TreeIndex List

/-! ### Histories -/

/-- A call that changes the index. -/
inductive TreeOp where
  | insert (key : IndexKey) (rid : ValueId)
  | delete (key : IndexKey) (rid : ValueId)
deriving DecidableEq, Repr

namespace TreeOp

def key : TreeOp → IndexKey
  | insert key _ => key
  | delete key _ => key

def call (C : Codec) : TreeOp → PoolProg Unit
  | insert key rid => TreeIndex.insert C key rid
  | delete key rid => TreeIndex.delete C key rid

/-- What the call does to the entries that are live. -/
def apply (entries : Multiset (IndexKey × ValueId)) : TreeOp → Multiset (IndexKey × ValueId)
  | insert key rid => (key, rid) ::ₘ entries
  | delete key rid => entries.erase (key, rid)

end TreeOp

/-- A new tree, then the calls. -/
def history (C : Codec) (ops : List TreeOp) : PoolProg Unit :=
  ops.foldl (fun before op => before >>= fun _ => op.call C) (new C)

/-- The entries inserted and not deleted since. -/
def live (ops : List TreeOp) : Multiset (IndexKey × ValueId) := ops.foldl TreeOp.apply 0

/-- All entries that were inserted. -/
def inserted (ops : List TreeOp) : Multiset (IndexKey × ValueId) :=
  ops.foldl (fun entries op =>
    match op with
    | .insert key rid => (key, rid) ::ₘ entries
    | .delete _ _ => entries) 0

/-- All calls returned, and left the pool `s`; the frames taken for new pages hold the bytes `frame`. -/
def Run (C : Codec) (frame : ℕ → Page) (refuse : ℕ → Option MemPoolStatus) (ops : List TreeOp)
    (s : Pool Page) : Prop :=
  Pool.execOn frame (history C ops) ⟨[], 0, refuse⟩ = (.ok (), s)

/-- The same on directories, which start empty. -/
def DirRun (C : Codec) (refuse : ℕ → Option MemPoolStatus) (ops : List TreeOp) (s : Pool SlotDir) :
    Prop :=
  Pool.exec (history C ops) ⟨[], 0, refuse⟩ = (.ok (), s)

theorem live_concat (ops : List TreeOp) (op : TreeOp) : live (ops ++ [op]) = op.apply (live ops) := by
  unfold live
  rw [foldl_concat]

section Run

variable {C : Codec} {frame : ℕ → Page} {refuse : ℕ → Option MemPoolStatus} {ops : List TreeOp}

theorem DirRun.last {op : TreeOp} {s : Pool SlotDir} (h : DirRun C refuse (ops ++ [op]) s) :
    ∃ s₁ : Pool SlotDir, DirRun C refuse ops s₁ ∧ Pool.exec (op.call C) s₁ = (.ok (), s) := by
  unfold DirRun history at h
  rw [foldl_concat] at h
  obtain ⟨u, s₁, h1, h2⟩ := Pool.of_exec_bind h
  exact ⟨s₁, h1, h2⟩

theorem poolRel_nil (refuse : ℕ → Option MemPoolStatus) :
    PoolRel (⟨[], 0, refuse⟩ : Pool Page) (⟨[], 0, refuse⟩ : Pool SlotDir) :=
  ⟨rfl, fun i p d hp _ => (by cases hp), rfl, rfl⟩

/-- The same pages behind another pool. -/
theorem PoolRel.samePages {s s' : Pool Page} {t : Pool SlotDir} (h : PoolRel s t)
    (hp : s'.pages = s.pages) : PoolRel s' ⟨t.pages, s'.requests, s'.refuse⟩ :=
  ⟨by rw [hp, h.length], fun i p d hi hd => h.page i p d (hp ▸ hi) hd, rfl, rfl⟩

section

variable (hframe : ∀ i, (frame i).Blank)
include hframe

/-- A run on bytes is a run on the directories they spell. -/
theorem Run.directories {s : Pool Page} (h : Run C frame refuse ops s) :
    ∃ t : Pool SlotDir, DirRun C refuse ops t ∧ PoolRel s t := by
  obtain ⟨hres, hrel⟩ := exec_agree hframe (history C ops) (poolRel_nil refuse)
  unfold Run at h
  rw [h] at hres hrel
  exact ⟨_, Prod.ext hres.symm rfl, hrel⟩

theorem DirRun.bytes {t : Pool SlotDir} (h : DirRun C refuse ops t) :
    ∃ s : Pool Page, Run C frame refuse ops s ∧ PoolRel s t := by
  obtain ⟨hres, hrel⟩ := exec_agree hframe (history C ops) (poolRel_nil refuse)
  unfold DirRun at h
  rw [h] at hres hrel
  exact ⟨_, Prod.ext hres rfl, hrel⟩

end

end Run

/-! ### What a run keeps -/

/-- The pages hold the nodes of a tree. -/
structure TreePages (C : Codec) (a b : ℕ) (pages : List SlotDir) (n : ℕ) (root : PageId)
    (ch : List PageId) : Prop where
  nodes : Nodes C a b ∅ pages
  header : Header pages root
  tree : Tree (storeOf C pages) n root ch

section Keeps

variable {C : Codec} {a b : ℕ} (hC : C.Sound a b) {refuse : ℕ → Option MemPoolStatus}
  {ops : List TreeOp} {s s' : Pool SlotDir}
include hC

/-- A new tree is one empty leaf. -/
theorem DirRun.new (h : DirRun C refuse [] s) : TreePages C a b s.pages 0 1 [1] ∧
    entriesAt (storeOf C s.pages) 1 = 0 := by
  obtain ⟨hn, hh, hroot, hfree⟩ := new_ok hC h
  refine ⟨⟨hn, hh, ⟨_, _, _, hroot⟩, nodup_singleton 1, ?_, List.Perm.refl _, ⟨⟨_, hroot⟩, trivial⟩⟩,
    entriesAt_leaf hroot⟩
  intro x hx
  by_cases h1 : x = 1
  · exact mem_singleton.mpr h1
  · exact absurd (hfree x h1) hx

variable {n : ℕ} {root : PageId} {ch : List PageId}

theorem TreePages.call {op : TreeOp} (ht : TreePages C a b s.pages n root ch)
    (hk : BigIntKey op.key) (h : Pool.exec (op.call C) s = (.ok (), s')) :
    ∃ n' root' ch', TreePages C a b s'.pages n' root' ch' := by
  cases op with
  | insert key rid =>
    obtain ⟨root', x, new, hins, hn, hh⟩ := insert_ok hC hk ht.nodes ht.header ht.tree h
    obtain ⟨-, ⟨n', htree, -⟩, -⟩ := hins.tree ht.tree
    exact ⟨n', root', _, hn, hh, htree⟩
  | delete key rid =>
    obtain ⟨hn, hh, herase | ⟨hsame, -⟩⟩ := delete_ok hC ht.nodes ht.header ht.tree h
    · obtain ⟨x, -, herase⟩ := herase
      exact ⟨n, root, ch, hn, hh, herase.tree ht.tree⟩
    · rw [hsame]
      exact ⟨n, root, ch, ht⟩

/-- A run keeps a tree. -/
theorem DirRun.tree (hk : ∀ op ∈ ops, BigIntKey op.key) (h : DirRun C refuse ops s) :
    ∃ n root ch, TreePages C a b s.pages n root ch := by
  induction ops using List.reverseRecOn generalizing s with
  | nil => exact ⟨0, 1, [1], (DirRun.new hC h).1⟩
  | append_singleton ops op ih =>
    obtain ⟨s₁, h₁, hcall⟩ := h.last
    obtain ⟨n, root, ch, ht⟩ := ih (fun o ho => hk o (mem_append_left _ ho)) h₁
    exact ht.call hC (hk op (mem_append_right _ (mem_singleton_self op))) hcall

/-- The pages hold an ordered tree with these entries. -/
structure OrderedPages (C : Codec) (a b : ℕ) (r : IndexKey → IndexKey → Prop)
    (pages : List SlotDir) (n : ℕ) (root : PageId) (ch : List PageId)
    (entries : Multiset (IndexKey × ValueId)) : Prop extends TreePages C a b pages n root ch where
  ordered : Ordered r (storeOf C pages) n root ch
  content : content (storeOf C pages) ch = entries

variable {r : IndexKey → IndexKey → Prop}

theorem OrderedPages.insert {key : IndexKey} {rid : ValueId}
    {entries : Multiset (IndexKey × ValueId)} (hr : Mode r)
    (ho : OrderedPages C a b r s.pages n root ch entries) (hk : BigIntKey key)
    (hnew : ∀ root' x new, Insert key rid (storeOf C s.pages) root (storeOf C s'.pages) root' x new →
      NewCut r (storeOf C s'.pages) x none none (seps (storeOf C s.pages) n root) new)
    (h : Pool.exec (TreeIndex.insert C key rid) s = (.ok (), s')) :
    ∃ n' root' ch', OrderedPages C a b r s'.pages n' root' ch' ((key, rid) ::ₘ entries) := by
  obtain ⟨root', x, new, hins, hn, hh⟩ := insert_ok hC hk ho.nodes ho.header ho.tree h
  obtain ⟨n', hord, -⟩ := hins.ordered hr ho.ordered (hnew root' x new hins)
  obtain ⟨-, -, hcontent⟩ := hins.tree ho.tree
  exact ⟨n', root', _, ⟨hn, hh, hord.toTree⟩, hord, by rw [hcontent, ho.content]⟩

theorem OrderedPages.delete {key : IndexKey} {rid : ValueId}
    {entries : Multiset (IndexKey × ValueId)} (hr : Mode r)
    (ho : OrderedPages C a b r s.pages n root ch entries)
    (h : Pool.exec (TreeIndex.delete C key rid) s = (.ok (), s')) :
    OrderedPages C a b r s'.pages n root ch (entries.erase (key, rid)) := by
  obtain ⟨hn, hh, hcase⟩ := delete_ok hC ho.nodes ho.header ho.tree h
  rcases hcase with ⟨x, hx, herase⟩ | ⟨hsame, p, q, i, j, hleads, hrewind, hseek⟩
  · refine ⟨⟨hn, hh, herase.tree ho.tree⟩, herase.ordered ho.ordered, ?_⟩
    rw [← ho.content, herase.content_eq hx ho.tree.chain_nodup, Multiset.erase_cons_head]
  · have hmem := seek_none hr ho.ordered hleads hrewind hseek
    rw [ho.content] at hmem
    rw [Multiset.erase_of_notMem hmem, hsame]
    exact ho

/-- A run whose cuts are new keeps the order of the tree, and the tree holds the live entries. -/
theorem DirRun.ordered (hr : Mode r) (hk : ∀ op ∈ ops, BigIntKey op.key)
    (hnew : ∀ pre key rid, pre ++ [.insert key rid] <+: ops → ∀ s₁ s₂ : Pool SlotDir,
      DirRun C refuse (pre ++ [.insert key rid]) s₂ →
      ∀ n root ch root' x new, OrderedPages C a b r s₁.pages n root ch (live pre) →
      Insert key rid (storeOf C s₁.pages) root (storeOf C s₂.pages) root' x new →
      NewCut r (storeOf C s₂.pages) x none none (seps (storeOf C s₁.pages) n root) new)
    (h : DirRun C refuse ops s) : ∃ n root ch, OrderedPages C a b r s.pages n root ch (live ops) := by
  induction ops using List.reverseRecOn generalizing s with
  | nil =>
    obtain ⟨ht, hempty⟩ := DirRun.new hC h
    refine ⟨0, 1, [1], ht, ⟨ht.tree, rfl, fun x hx => ?_⟩, ?_⟩
    · rw [hempty] at hx
      exact absurd hx (Multiset.notMem_zero x)
    · show content (storeOf C s.pages) [1] = 0
      rw [content_cons, hempty]
      rfl
  | append_singleton ops op ih =>
    obtain ⟨s₁, h₁, hcall⟩ := h.last
    obtain ⟨n, root, ch, ho⟩ := ih (fun o ho => hk o (mem_append_left _ ho))
      (fun pre key rid hpre => hnew pre key rid (hpre.trans (prefix_append ops [op]))) h₁
    rw [live_concat]
    cases op with
    | insert key rid =>
      have hkey : BigIntKey key :=
        hk (.insert key rid) (mem_append_right _ (mem_singleton_self _))
      exact ho.insert hC hr hkey (fun root' x new hins =>
        hnew ops key rid (prefix_refl _) s₁ s h n root ch root' x new ho hins) hcall
    | delete key rid => exact ⟨n, root, ch, ho.delete hC hr hcall⟩

/-- The leaves have the live entries and none that was not inserted. -/
structure StoredPages (C : Codec) (a b : ℕ) (pages : List SlotDir) (n : ℕ) (root : PageId)
    (ch : List PageId) (ops : List TreeOp) : Prop extends TreePages C a b pages n root ch where
  live : live ops ≤ content (storeOf C pages) ch
  inserted : content (storeOf C pages) ch ≤ inserted ops

/-- A deletion that does not find its entry leaves it in the tree, so the leaves can have more entries
than are live. -/
theorem DirRun.stored (hk : ∀ op ∈ ops, BigIntKey op.key) (h : DirRun C refuse ops s) :
    ∃ n root ch, StoredPages C a b s.pages n root ch ops := by
  induction ops using List.reverseRecOn generalizing s with
  | nil =>
    obtain ⟨ht, hempty⟩ := DirRun.new hC h
    have hzero : content (storeOf C s.pages) [1] = 0 := by
      rw [content_cons, hempty]
      rfl
    exact ⟨0, 1, [1], ht, zero_le, hzero.le⟩
  | append_singleton ops op ih =>
    obtain ⟨s₁, h₁, hcall⟩ := h.last
    obtain ⟨n, root, ch, ht, hlive, hins⟩ := ih (fun o ho => hk o (mem_append_left _ ho)) h₁
    cases op with
    | insert key rid =>
      obtain ⟨root', x, new, h, hn, hh⟩ := insert_ok hC
        (hk _ (mem_append_right _ (mem_singleton_self _))) ht.nodes ht.header ht.tree hcall
      obtain ⟨-, ⟨n', htree, -⟩, hcontent⟩ := h.tree ht.tree
      refine ⟨n', root', _, ⟨hn, hh, htree⟩, ?_, ?_⟩
      · rw [live_concat, hcontent]
        exact Multiset.cons_le_cons _ hlive
      · rw [inserted, foldl_concat, hcontent]
        exact Multiset.cons_le_cons _ hins
    | delete key rid =>
      obtain ⟨hn, hh, ⟨x, hx, h⟩ | ⟨hsame, -⟩⟩ := delete_ok hC ht.nodes ht.header ht.tree hcall
      · have hcontent := h.content_eq hx ht.tree.chain_nodup
        refine ⟨n, root, ch, ⟨hn, hh, h.tree ht.tree⟩, ?_, ?_⟩
        · rw [live_concat]
          refine (Multiset.erase_le_erase _ hlive).trans ?_
          rw [hcontent, Multiset.erase_cons_head]
        · rw [inserted, foldl_concat]
          refine le_trans ?_ hins
          rw [hcontent]
          exact Multiset.le_cons_self _ _
      · refine ⟨n, root, ch, ⟨hn, hh, hsame ▸ ht.tree⟩, ?_, ?_⟩
        · rw [live_concat, hsame]
          exact (Multiset.erase_le _ _).trans hlive
        · rw [inserted, foldl_concat, hsame]
          exact hins

end Keeps

/-! ### The list of leaves -/

/-- After every call of a run the leaves form one doubly linked list: right and left siblings
agree, no walk to the right comes back, there is one leaf without a left sibling and one without a
right sibling, and the list has each leaf below the root once and no other page. -/
theorem leafChain_of_run {C : Codec} (hr : C.RoundTrips) (hs : C.Small)
    {frame : ℕ → Page} (hframe : ∀ i, (frame i).Blank) {refuse : ℕ → Option MemPoolStatus}
    {ops : List TreeOp} (hk : ∀ op ∈ ops, BigIntKey op.key)
    {s : Pool Page} (h : Run C frame refuse ops s) :
    ∃ root n ch, rootOf s.pages = some root ∧ Shape (storeOf C s.pages) n root ∧
      (∀ p q, rightSibling (storeOf C s.pages) p = some q ↔
        leftSibling (storeOf C s.pages) q = some p) ∧
      (∀ p, ¬ Relation.TransGen (fun x y => rightSibling (storeOf C s.pages) x = some y) p p) ∧
      (∃! p, IsLeaf (storeOf C s.pages) p ∧ leftSibling (storeOf C s.pages) p = none) ∧
      (∃! p, IsLeaf (storeOf C s.pages) p ∧ rightSibling (storeOf C s.pages) p = none) ∧
      Linked (storeOf C s.pages) none ch ∧ ch.Nodup ∧
      ch.Perm (leaves (storeOf C s.pages) n root) := by
  obtain ⟨a, b, hC⟩ := Codec.exists_sound hr hs
  obtain ⟨t, ht, hrel⟩ := h.directories hframe
  obtain ⟨n, root, ch, htree⟩ := DirRun.tree hC hk ht
  rw [storeOf_rel C hrel, rootOf_rel hrel]
  have hT := htree.tree
  exact ⟨root, n, ch, htree.header.rootOf, hT.shape, hT.sibling_iff, hT.acyclic, hT.head, hT.tail,
    hT.linked, hT.chain_nodup, hT.chain⟩

/-- The keys of a list of calls are all of one `BigInt` column. -/
def bigIntKeys (ops : List TreeOp) : Bool :=
  ops.all (fun op =>
    match op.key with
    | [.bigInt _] => true
    | _ => false)

variable {ops : List TreeOp}

theorem bigIntKey_of_all (h : bigIntKeys ops = true) : ∀ op ∈ ops, BigIntKey op.key := by
  intro op hop
  have hkey := all_eq_true.mp h op hop
  split at hkey
  · rename_i v hv
    exact ⟨v, hv⟩
  · cases hkey

theorem exec_of_fst {P α : Type} [HeapPage P] {x : PoolProg α} {s : Pool P}
    {res : Except CrustyError α} (h : (Pool.exec x s).1 = res) :
    Pool.exec x s = (res, (Pool.exec x s).2) := Prod.ext h rfl

/-- A run that is found by evaluation on directories. -/
theorem Run.of_eval {C : Codec} {refuse : ℕ → Option MemPoolStatus} (ops : List TreeOp)
    (h : (Pool.exec (history C ops) (⟨[], 0, refuse⟩ : Pool SlotDir)).1 = .ok ()) :
    ∃ s : Pool Page, Run C newFrames refuse ops s ∧
      PoolRel s (Pool.exec (history C ops) (⟨[], 0, refuse⟩ : Pool SlotDir)).2 :=
  DirRun.bytes newFrames_blank (exec_of_fst h)

/-- Record ids whose encodings have the same length. -/
def lossRid (i : ℕ) : ValueId := .newSlot 1 (UInt32.ofNat (i / 20)) (UInt16.ofNat (i % 20))

/-- Many entries with key 5, one with key 9, then many with the least key: the leaves split at 5
twice and the second separator is put before the first. -/
def lossOps : List TreeOp :=
  (List.range 54).map (fun i => .insert [.bigInt 5] (lossRid i)) ++
    .insert [.bigInt 9] (lossRid 54) ::
      (List.range 25).map (fun i => .insert [.bigInt (-9223372036854775808)] (lossRid (55 + i)))

theorem lossOps_eval : (Pool.exec (history cbor lossOps >>= fun _ => search cbor [.bigInt 9])
    (⟨[], 0, fun _ => none⟩ : Pool SlotDir)).1 = .ok [] := by
  decide +kernel

theorem lossOps_run : ∃ (t : Pool SlotDir) (s : Pool Page), DirRun cbor (fun _ => none) lossOps t ∧
    Run cbor newFrames (fun _ => none) lossOps s ∧ PoolRel s t ∧
      (Pool.exec (search cbor [.bigInt 9]) t).1 = .ok [] := by
  obtain ⟨u, t, hrun, hsearch⟩ := Pool.of_exec_bind (exec_of_fst lossOps_eval)
  obtain ⟨s, hs, hrel⟩ := DirRun.bytes newFrames_blank hrun
  exact ⟨t, s, hrun, hs, hrel, by rw [hsearch]⟩

theorem lossOps_keys : ∀ op ∈ lossOps, BigIntKey op.key := bigIntKey_of_all (by decide +kernel)

theorem leafChain_of_run_splits : ∃ s : Pool Page, Run cbor newFrames (fun _ => none) lossOps s ∧
    ∃ root n ch, rootOf s.pages = some root ∧ Shape (storeOf cbor s.pages) n root ∧
      (∀ p q, rightSibling (storeOf cbor s.pages) p = some q ↔
        leftSibling (storeOf cbor s.pages) q = some p) ∧
      (∀ p, ¬ Relation.TransGen (fun x y => rightSibling (storeOf cbor s.pages) x = some y) p p) ∧
      (∃! p, IsLeaf (storeOf cbor s.pages) p ∧ leftSibling (storeOf cbor s.pages) p = none) ∧
      (∃! p, IsLeaf (storeOf cbor s.pages) p ∧ rightSibling (storeOf cbor s.pages) p = none) ∧
      Linked (storeOf cbor s.pages) none ch ∧ ch.Nodup ∧
      ch.Perm (leaves (storeOf cbor s.pages) n root) := by
  obtain ⟨-, s, -, hrun, -⟩ := lossOps_run
  exact ⟨s, hrun, leafChain_of_run cbor_roundTrips cbor_small newFrames_blank lossOps_keys hrun⟩

/-! ### The order of the keys -/

/-- No key is inserted while an entry with this key is live. -/
def FreshInserts (ops : List TreeOp) : Prop :=
  ∀ pre key rid, pre ++ [TreeOp.insert key rid] <+: ops → ∀ x ∈ live pre, x.1 ≠ key

theorem FreshInserts.of_prefix {pre : List TreeOp} (h : FreshInserts ops) (hpre : pre <+: ops) :
    FreshInserts pre :=
  fun pre' key rid hpre' => h pre' key rid (hpre'.trans hpre)

/-- Then no two live entries have the same key. -/
theorem FreshInserts.nodup (h : FreshInserts ops) : ((live ops).map Prod.fst).Nodup := by
  induction ops using List.reverseRecOn with
  | nil => exact Multiset.nodup_zero
  | append_singleton ops op ih =>
    have ih := ih (h.of_prefix (prefix_append ops [op]))
    rw [live_concat]
    cases op with
    | insert key rid =>
      show (((key, rid) ::ₘ live ops).map Prod.fst).Nodup
      rw [Multiset.map_cons, Multiset.nodup_cons]
      refine ⟨fun hmem => ?_, ih⟩
      obtain ⟨x, hx, hkey⟩ := Multiset.mem_map.mp hmem
      exact h ops key rid (prefix_refl _) x hx hkey
    | delete key rid =>
      exact Multiset.nodup_of_le (Multiset.map_le_map (Multiset.erase_le _ _)) ih

/-- In a run that inserts no key while it is live the tree is a search tree after every call: the
separators of each inner node increase strictly, each key below a page is at or above the lower
bound and below the upper bound that the separators on the way to the page set, all leaves are at
the same depth, and the keys increase strictly along the list of leaves, from the leftmost on. -/
theorem order_of_run {C : Codec} (hr : C.RoundTrips) (hs : C.Small)
    {frame : ℕ → Page} (hframe : ∀ i, (frame i).Blank) {refuse : ℕ → Option MemPoolStatus}
    {ops : List TreeOp} (hk : ∀ op ∈ ops, BigIntKey op.key)
    (hfresh : FreshInserts ops) {s : Pool Page} (h : Run C frame refuse ops s) :
    ∃ root n, rootOf s.pages = some root ∧ Shape (storeOf C s.pages) n root ∧
      (∀ p es, storeOf C s.pages p = some (.inner es) →
        (es.filterMap Prod.fst).Pairwise (· < ·)) ∧
      (∀ p lo hi, Within (storeOf C s.pages) root p lo hi →
        ∀ m, Shape (storeOf C s.pages) m p → ∀ q ∈ leaves (storeOf C s.pages) m p,
          ∀ x ∈ entriesAt (storeOf C s.pages) q, AtLeast lo x.1 ∧ Below hi x.1) ∧
      Linked (storeOf C s.pages) none (leaves (storeOf C s.pages) n root) ∧
      (keysAlong (storeOf C s.pages) (leaves (storeOf C s.pages) n root)).Pairwise (· < ·) := by
  obtain ⟨a, b, hC⟩ := Codec.exists_sound hr hs
  obtain ⟨t, ht, hrel⟩ := h.directories hframe
  obtain ⟨n, root, ch, ho⟩ := DirRun.ordered (r := (· < ·)) hC Mode.lt hk (by
    intro pre key rid hpre s₁ s₂ h₂ n root ch root' x new ho hins
    refine hins.newCut_lt ho.tree ?_
    have hnd := (hfresh.of_prefix hpre).nodup
    rw [live_concat, ← ho.content] at hnd
    exact hnd) ht
  have hO := ho.ordered
  rw [storeOf_rel C hrel, rootOf_rel hrel]
  refine ⟨root, n, ho.header.rootOf, hO.shape, fun p es hp => hO.separators hp, ?_, ?_, ?_⟩
  · intro p lo hi hw m hsh q hq x hx
    exact hO.within Mode.lt hw hsh hq hx
  · rw [← hO.order]
    exact hO.linked
  · rw [← hO.order]
    refine hO.keys ?_
    rw [ho.content]
    exact hfresh.nodup

theorem key_of_live {x : IndexKey × ValueId} (hx : x ∈ live ops) :
    ∃ rid, TreeOp.insert x.1 rid ∈ ops := by
  induction ops using List.reverseRecOn with
  | nil => exact absurd hx (Multiset.notMem_zero x)
  | append_singleton ops op ih =>
    rw [live_concat] at hx
    have hold : x ∈ live ops → ∃ rid, TreeOp.insert x.1 rid ∈ ops ++ [op] := fun h =>
      (ih h).imp (fun rid hrid => mem_append_left _ hrid)
    cases op with
    | insert key rid =>
      rcases Multiset.mem_cons.mp hx with rfl | hx
      · exact ⟨rid, mem_append_right _ (mem_singleton_self _)⟩
      · exact hold hx
    | delete key rid => exact hold (Multiset.mem_of_mem_erase hx)

/-- Calls whose keys are all different. -/
theorem FreshInserts.of_nodup (h : (ops.map TreeOp.key).Nodup) : FreshInserts ops := by
  intro pre key rid hpre x hx hkey
  obtain ⟨rid', hmem⟩ := key_of_live hx
  have hnd := h.sublist (hpre.sublist.map TreeOp.key)
  rw [map_append, nodup_append] at hnd
  exact hnd.2.2 x.1 (mem_map.mpr ⟨_, hmem, rfl⟩) key (mem_singleton_self _) hkey

/-- Keys in falling order, enough to split the leaf. -/
def fallingOps : List TreeOp :=
  (List.range 60).map (fun i => .insert [.bigInt (100 - Int64.ofNat i)] (lossRid i))

theorem order_of_run_falling : ∃ s : Pool Page, Run cbor newFrames (fun _ => none) fallingOps s ∧
    ∃ root n, rootOf s.pages = some root ∧ Shape (storeOf cbor s.pages) n root ∧
      (∀ p es, storeOf cbor s.pages p = some (.inner es) →
        (es.filterMap Prod.fst).Pairwise (· < ·)) ∧
      (∀ p lo hi, Within (storeOf cbor s.pages) root p lo hi →
        ∀ m, Shape (storeOf cbor s.pages) m p → ∀ q ∈ leaves (storeOf cbor s.pages) m p,
          ∀ x ∈ entriesAt (storeOf cbor s.pages) q, AtLeast lo x.1 ∧ Below hi x.1) ∧
      Linked (storeOf cbor s.pages) none (leaves (storeOf cbor s.pages) n root) ∧
      (keysAlong (storeOf cbor s.pages) (leaves (storeOf cbor s.pages) n root)).Pairwise (· < ·) := by
  obtain ⟨s, hrun, -⟩ : ∃ s : Pool Page, Run cbor newFrames (fun _ => none) fallingOps s ∧ _ :=
    Run.of_eval fallingOps (by decide +kernel)
  exact ⟨s, hrun, order_of_run cbor_roundTrips cbor_small newFrames_blank
    (bigIntKey_of_all (by decide +kernel)) (FreshInserts.of_nodup (by decide +kernel)) hrun⟩

/-! ### Lookups -/

/-- In a run none of whose states has two equal separators, every lookup returns the record ids
inserted under the key and not deleted since: it does so when the pool grants its requests, and it
returns nothing else in any case. -/
theorem search_of_run {C : Codec} (hr : C.RoundTrips) (hs : C.Small)
    {frame : ℕ → Page} (hframe : ∀ i, (frame i).Blank) {refuse : ℕ → Option MemPoolStatus}
    {ops : List TreeOp} (hk : ∀ op ∈ ops, BigIntKey op.key)
    (hsep : ∀ pre, pre <+: ops → ∀ t : Pool Page, Run C frame refuse pre t →
      DistinctSeparators (storeOf C t.pages))
    {s : Pool Page} (h : Run C frame refuse ops s) (key : IndexKey) :
    ∃ rids : List ValueId, (rids : Multiset ValueId) = valuesOf key (live ops) ∧
      (∀ t : Pool Page, t.pages = s.pages → (∀ i, t.refuse i = none) →
        (Pool.execOn frame (search C key) t).1 = .ok rids) ∧
      ∀ (t : Pool Page) (rids' : List ValueId), t.pages = s.pages →
        (Pool.execOn frame (search C key) t).1 = .ok rids' → rids' = rids := by
  obtain ⟨a, b, hC⟩ := Codec.exists_sound hr hs
  obtain ⟨t, ht, hrel⟩ := h.directories hframe
  obtain ⟨n, root, ch, ho⟩ := DirRun.ordered (r := (· ≤ ·)) hC Mode.le' hk (by
    intro pre key rid hpre s₁ s₂ h₂ n root ch root' x new ho hins
    refine hins.newCut_le ho.tree ?_
    obtain ⟨t₂, ht₂, hrel₂⟩ := h₂.bytes hframe
    rw [← storeOf_rel C hrel₂]
    exact hsep _ hpre t₂ ht₂) ht
  obtain ⟨rids, m, hreads, p, q, i, j, hleads, hrewind, hgather⟩ :=
    search_reads hC ho.nodes ho.tree ho.header key
  refine ⟨rids, ?_, ?_, ?_⟩
  · rw [gather_eq Mode.le' ho.ordered hleads hrewind hgather, ho.content]
  · intro t' hpages hgrant
    rw [(exec_agree hframe (search C key) (hrel.samePages hpages)).1]
    rw [hreads.granted ⟨t.pages, t'.requests, t'.refuse⟩ rfl (fun i _ => hgrant _)]
  · intro t' rids' hpages hrun
    rw [(exec_agree hframe (search C key) (hrel.samePages hpages)).1] at hrun
    exact (hreads.of_ok (s := ⟨t.pages, t'.requests, t'.refuse⟩) rfl (Prod.ext hrun rfl)).1

/-- Whether a page holds an inner node. -/
def isInner (C : Codec) (d : SlotDir) : Bool :=
  match viewPage C d with
  | some (.inner _) => true
  | _ => false

/-- A tree without inner nodes has no separators. -/
theorem distinctSeparators_of_leaves {C : Codec} {pages : List SlotDir}
    (h : pages.all (fun d => !isInner C d) = true) : DistinctSeparators (storeOf C pages) := by
  have hzero : ∀ p, sepsAt (storeOf C pages) p = 0 := by
    intro p
    unfold sepsAt
    split
    · rename_i es hp
      exfalso
      unfold storeOf at hp
      split_ifs at hp
      obtain ⟨d, hd, hview⟩ := Option.bind_eq_some_iff.mp hp
      have hin := all_eq_true.mp h d (mem_of_getElem? hd)
      unfold isInner at hin
      rw [hview] at hin
      cases hin
    · rfl
  refine ⟨fun p => ?_, fun p q t ht => ?_⟩
  · rw [hzero]
    exact Multiset.nodup_zero
  · rw [hzero] at ht
    exact absurd ht (Multiset.notMem_zero t)

/-- A key stored twice, and one of its entries deleted. -/
def duplicateOps : List TreeOp :=
  [.insert [.bigInt 5] (.newSlot 1 1 0), .insert [.bigInt 5] (.newSlot 1 1 1),
    .delete [.bigInt 5] (.newSlot 1 1 0)]

theorem search_of_run_duplicates : ∃ s : Pool Page, Run cbor newFrames (fun _ => none) duplicateOps s ∧
    ∃ rids : List ValueId, (rids : Multiset ValueId) = valuesOf [.bigInt 5] (live duplicateOps) ∧
      (∀ t : Pool Page, t.pages = s.pages → (∀ i, t.refuse i = none) →
        (Pool.execOn newFrames (search cbor [.bigInt 5]) t).1 = .ok rids) ∧
      ∀ (t : Pool Page) (rids' : List ValueId), t.pages = s.pages →
        (Pool.execOn newFrames (search cbor [.bigInt 5]) t).1 = .ok rids' → rids' = rids := by
  obtain ⟨s, hrun, -⟩ : ∃ s : Pool Page, Run cbor newFrames (fun _ => none) duplicateOps s ∧ _ :=
    Run.of_eval duplicateOps (by decide +kernel)
  refine ⟨s, hrun, search_of_run cbor_roundTrips cbor_small newFrames_blank
    (bigIntKey_of_all (by decide)) ?_ hrun [.bigInt 5]⟩
  intro pre hpre t ht
  obtain ⟨t', ht', hrel⟩ := ht.directories newFrames_blank
  rw [storeOf_rel cbor hrel]
  have hall : ∀ pre ∈ duplicateOps.inits, ((Pool.exec (history cbor pre)
      (⟨[], 0, fun _ => none⟩ : Pool SlotDir)).2.pages.all (fun d => !isInner cbor d)) = true := by
    decide +kernel
  have hpages := hall pre ((List.mem_inits _ _).mpr hpre)
  unfold DirRun at ht'
  rw [ht'] at hpages
  exact distinctSeparators_of_leaves hpages

/-- In every run, whatever its separators are, the leaves below the root have all live entries and none
that was not inserted, and a lookup returns only ids that they have under its key: where it loses an
entry, the tree has not lost it. -/
theorem stored_of_run {C : Codec} (hr : C.RoundTrips) (hs : C.Small)
    {frame : ℕ → Page} (hframe : ∀ i, (frame i).Blank) {refuse : ℕ → Option MemPoolStatus}
    {ops : List TreeOp} (hk : ∀ op ∈ ops, BigIntKey op.key)
    {s : Pool Page} (h : Run C frame refuse ops s) :
    ∃ root n, rootOf s.pages = some root ∧ Shape (storeOf C s.pages) n root ∧
      live ops ≤ content (storeOf C s.pages) (leaves (storeOf C s.pages) n root) ∧
      content (storeOf C s.pages) (leaves (storeOf C s.pages) n root) ≤ inserted ops ∧
      ∀ (key : IndexKey) (t : Pool Page) (rids : List ValueId), t.pages = s.pages →
        (Pool.execOn frame (search C key) t).1 = .ok rids → (rids : Multiset ValueId) ≤
          valuesOf key (content (storeOf C s.pages) (leaves (storeOf C s.pages) n root)) := by
  obtain ⟨a, b, hC⟩ := Codec.exists_sound hr hs
  obtain ⟨t, ht, hrel⟩ := h.directories hframe
  obtain ⟨n, root, ch, hp⟩ := DirRun.stored hC hk ht
  have hch := content_perm (σ := storeOf C t.pages) hp.tree.chain
  rw [storeOf_rel C hrel, rootOf_rel hrel]
  refine ⟨root, n, hp.header.rootOf, hp.tree.shape, hch ▸ hp.live, hch ▸ hp.inserted, ?_⟩
  intro key t' rids hpages hrun
  obtain ⟨rids', m, hreads, p, q, i, j, -, -, hgather⟩ :=
    search_reads hC hp.nodes hp.tree hp.header key
  rw [(exec_agree hframe (search C key) (hrel.samePages hpages)).1] at hrun
  obtain ⟨rfl, -⟩ := hreads.of_ok (s := ⟨t.pages, t'.requests, t'.refuse⟩) rfl (Prod.ext hrun rfl)
  have hleaf : ∀ {vs}, Gather (storeOf C t.pages) key j (some q) vs →
      IsLeaf (storeOf C t.pages) q := by
    intro vs hg
    cases hg with
    | stop hq _ => exact ⟨_, _, _, hq⟩
    | step hq _ _ => exact ⟨_, _, _, hq⟩
  obtain ⟨pre, post, rfl⟩ := append_of_mem (hp.tree.mem_chain (hleaf hgather))
  rw [← hch, content_append, valuesOf_add]
  exact (hgather.le hp.tree.linked.drop rfl).trans le_add_self

/-- An entry is live and the lookup of its key does not return it. -/
theorem search_loses_entry : (∀ op ∈ lossOps, BigIntKey op.key) ∧
    ([.bigInt 9], lossRid 54) ∈ live lossOps ∧
      ∃ s : Pool Page, Run cbor newFrames (fun _ => none) lossOps s ∧
        (Pool.execOn newFrames (search cbor [.bigInt 9]) s).1 = .ok [] := by
  obtain ⟨t, s, -, hs, hrel, hsearch⟩ := lossOps_run
  refine ⟨lossOps_keys, by decide +kernel, s, hs, ?_⟩
  rw [(exec_agree newFrames_blank (search cbor [.bigInt 9]) hrel).1, hsearch]

/-- The entry that a lookup does not find is in a leaf. -/
theorem stored_of_run_loss : ∃ s : Pool Page, Run cbor newFrames (fun _ => none) lossOps s ∧
    ∃ root n, rootOf s.pages = some root ∧
      ([.bigInt 9], lossRid 54) ∈ content (storeOf cbor s.pages) (leaves (storeOf cbor s.pages) n root) := by
  obtain ⟨-, s, -, hs, -⟩ := lossOps_run
  obtain ⟨root, n, hroot, -, hlive, -⟩ :=
    stored_of_run cbor_roundTrips cbor_small newFrames_blank lossOps_keys hs
  exact ⟨s, hs, root, n, hroot, Multiset.mem_of_le hlive (by decide +kernel)⟩

end CrustyDB
