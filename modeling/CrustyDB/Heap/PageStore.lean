import CrustyDB.Heap.HeapFile

/-! # A store of pages for heap files

The pages of the containers behind a pool, as a heap file sees them: the pool hands out the bytes
last written and may refuse a request for reasons of its own.  A new page has the bytes of the frame
it is put into, except for its id (`execOn`); `exec` is the store whose new pages are zeroed.  Page ids
and page counts have 32 bits and wrap around, as in the source.  The store keeps pages of any type with
the operations of the `HeapPage` trait.  What a heap file does on the frames of a buffer pool is what
it does on such a store (`run_store`).

A byte page of a heap file is either blank, when its counters are zero, or it spells a slot
directory; a page of another container stays as it is (`FilePage`).  A heap file treats a blank page
as a page without slots.  `store_agree` says that the
store of byte pages and the store of what they spell answer every call alike. -/

namespace CrustyDB

open Program Simulation Function List

/-! ### Blank pages -/

namespace Page

variable {p : Page}

theorem Blank.getNumSlots (h : p.Blank) : p.getNumSlots = .ok 0 := by
  rw [getNumSlots_eq, h 0 (by omega)]

theorem Blank.getSlotMetadataOffset (h : p.Blank) (slotId : SlotId) :
    p.getSlotMetadataOffset slotId = .ok (-1) := by
  unfold Page.getSlotMetadataOffset
  rw [h.getNumSlots, checked_bind_ok, if_pos (Nat.zero_le _)]
  rfl

theorem Blank.getValue (h : p.Blank) (slotId : SlotId) : p.getValue slotId = .ok none := by
  unfold Page.getValue
  rw [h.getSlotMetadataOffset, checked_bind_ok, if_pos (by decide)]
  rfl

theorem Blank.deleteValue (h : p.Blank) (slotId : SlotId) : p.deleteValue slotId = .ok (none, p) := by
  unfold Page.deleteValue
  rw [h.getSlotMetadataOffset, checked_bind_ok, if_pos (by decide)]
  rfl

theorem Blank.updateValue (h : p.Blank) (slotId : SlotId) (bytes : List UInt8) :
    p.updateValue slotId bytes = .ok (none, p) := by
  unfold Page.updateValue
  rw [h.getSlotMetadataOffset, checked_bind_ok, if_pos (by decide)]
  rfl

/-- The free space pointer of a blank page is below its header. -/
theorem Blank.addValue (h : p.Blank) (bytes : List UInt8) : p.addValue bytes = .error .overflow := by
  have hsize : p.getHeaderSize = .ok headerStart := getHeaderSize_rep h.rep
  have hfree : p.findNextFreeSlot = .ok headerStart := findNextFreeSlot_rep h.rep
  have hroom : p.lacksRoom true bytes = .error .overflow := by
    unfold Page.lacksRoom
    rw [if_pos rfl, getFreeSpacePtr_eq, h 1 (by omega), hsize]
    rfl
  unfold Page.addValue
  rw [hfree, checked_bind_ok, hsize, checked_bind_ok, decide_eq_true (le_refl headerStart)]
  dsimp only
  rw [hroom]
  rfl

end Page

/-! ### Pages of a heap file -/

/-- The trait of heap pages, as a heap file uses it. -/
class FilePageOps (P : Type) extends HeapPage P where
  getNumSlots : P → Checked ℕ

instance : FilePageOps Page where
  getNumSlots := Page.getNumSlots

/-- A page of a heap file: one that has never been initialised, or a slot directory.  Of other pages
nothing is known but the bytes. -/
inductive FilePage where
  | blank (pageId : PageId)
  | heap (d : SlotDir)
  | raw (p : Page)

namespace FilePage

/-- The answer of an operation on a directory, with the page after it. -/
def ofDir {α : Type} (x : α × SlotDir) : α × FilePage := (x.1, .heap x.2)

def ofPage {α : Type} (x : α × Page) : α × FilePage := (x.1, .raw x.2)

instance : FilePageOps FilePage where
  new := blank
  initHeapPage
    | blank pageId => .ok (heap (.empty pageId))
    | heap d => .ok (heap { d with fsp := pageSize })
    | raw p => p.initHeapPage.map raw
  getPageId
    | blank pageId => pageId
    | heap d => d.pageId
    | raw p => p.getPageId
  addValue
    | blank _, _ => .error .overflow
    | heap d, bytes => (d.add bytes).map ofDir
    | raw p, bytes => (p.addValue bytes).map ofPage
  getValue
    | blank _, _ => .ok none
    | heap d, slotId => .ok (d.get slotId)
    | raw p, slotId => p.getValue slotId
  deleteValue
    | blank pageId, _ => .ok (none, blank pageId)
    | heap d, slotId => .ok (ofDir (d.delete slotId))
    | raw p, slotId => (p.deleteValue slotId).map ofPage
  updateValue
    | blank pageId, _, _ => .ok (none, blank pageId)
    | heap d, slotId, bytes => .ok (ofDir (d.update slotId bytes))
    | raw p, slotId, bytes => (p.updateValue slotId bytes).map ofPage
  iter
    | blank _ => .ok []
    | heap d => .ok d.iter
    | raw p => p.iter
  getNumSlots
    | blank _ => .ok 0
    | heap d => .ok d.slots.length
    | raw p => p.getNumSlots

/-- The bytes spell the page. -/
inductive SpelledBy : FilePage → Page → Prop
  | blank {p : Page} (h : p.Blank) : SpelledBy (.blank p.getPageId) p
  | heap {p : Page} {d : SlotDir} (h : PageRel p d) : SpelledBy (.heap d) p
  | raw {p : Page} : SpelledBy (.raw p) p

namespace SpelledBy

variable {p : Page} {q : FilePage}

theorem getPageId (h : q.SpelledBy p) : HeapPage.getPageId p = HeapPage.getPageId q := by
  cases h with
  | blank h => rfl
  | heap h => exact h.1.pageId
  | raw => rfl

theorem getNumSlots (h : q.SpelledBy p) : FilePageOps.getNumSlots p = FilePageOps.getNumSlots q := by
  cases h with
  | blank h => exact h.getNumSlots
  | heap h =>
    refine (Page.getNumSlots_eq p).trans ?_
    rw [h.1.numSlots]
    rfl
  | raw => rfl

theorem getValue (h : q.SpelledBy p) (slotId : SlotId) :
    HeapPage.getValue p slotId = HeapPage.getValue q slotId := by
  cases h with
  | blank h => exact h.getValue slotId
  | heap h => exact Page.getValue_rep h.1 slotId
  | raw => rfl

/-- Bytes that are known as such answer for themselves. -/
theorem ofPage {α : Type} (x : Checked (α × Page)) :
    Agree (fun a b => a.1 = b.1 ∧ b.2.SpelledBy a.2) x (x.map FilePage.ofPage) := by
  cases x with
  | ok x => exact .ok ⟨rfl, .raw⟩
  | error e => exact .error e

theorem addValue (h : q.SpelledBy p) (bytes : List UInt8) :
    Agree (fun a b => a.1 = b.1 ∧ b.2.SpelledBy a.2) (HeapPage.addValue p bytes)
      (HeapPage.addValue q bytes) := by
  cases h with
  | blank h =>
    rw [show HeapPage.addValue p bytes = _ from h.addValue bytes]
    exact .error _
  | @heap p d h =>
    have hagree := add_pageRel h bytes
    show Agree _ (p.addValue bytes) ((d.add bytes).map ofDir)
    generalize p.addValue bytes = x at hagree ⊢
    generalize d.add bytes = y at hagree ⊢
    cases hagree with
    | error e => exact .error e
    | ok hab => exact .ok ⟨hab.1, .heap hab.2⟩
  | raw => exact SpelledBy.ofPage _

theorem deleteValue (h : q.SpelledBy p) (slotId : SlotId) :
    Agree (fun a b => a.1 = b.1 ∧ b.2.SpelledBy a.2) (HeapPage.deleteValue p slotId)
      (HeapPage.deleteValue q slotId) := by
  cases h with
  | blank h =>
    rw [show HeapPage.deleteValue p slotId = _ from h.deleteValue slotId]
    exact .ok ⟨rfl, .blank h⟩
  | @heap p d h =>
    obtain ⟨a, hrun, hab⟩ := (delete_pageRel h slotId).ok_right
    rw [show HeapPage.deleteValue p slotId = _ from hrun]
    exact .ok ⟨hab.1, .heap hab.2⟩
  | raw => exact SpelledBy.ofPage _

theorem updateValue (h : q.SpelledBy p) (slotId : SlotId) (bytes : List UInt8) :
    Agree (fun a b => a.1 = b.1 ∧ b.2.SpelledBy a.2) (HeapPage.updateValue p slotId bytes)
      (HeapPage.updateValue q slotId bytes) := by
  cases h with
  | blank h =>
    rw [show HeapPage.updateValue p slotId bytes = _ from h.updateValue slotId bytes]
    exact .ok ⟨rfl, .blank h⟩
  | @heap p d h =>
    obtain ⟨a, hrun, hab⟩ := (update_pageRel h slotId bytes).ok_right
    rw [show HeapPage.updateValue p slotId bytes = _ from hrun]
    exact .ok ⟨hab.1, .heap hab.2⟩
  | raw => exact SpelledBy.ofPage _

theorem new (pageId : PageId) : SpelledBy (.blank pageId) (Page.new pageId) := by
  have h := SpelledBy.blank (Page.new_blank pageId)
  rw [Page.new_getPageId] at h
  exact h

/-- A blank page becomes an empty directory. -/
theorem initHeapPage (h : p.Blank) : Agree (fun p q => SpelledBy q p) (HeapPage.initHeapPage p)
    (HeapPage.initHeapPage (FilePage.blank p.getPageId)) := by
  obtain ⟨q, hrun, hrep⟩ := h.initHeapPage
  rw [show HeapPage.initHeapPage p = _ from hrun]
  exact .ok (.heap ⟨hrep, SlotDir.empty_wf _⟩)

end SpelledBy

end FilePage

/-! ### The store -/

/-- The pages of the containers in the order of their creation, and the pool's answers to the requests
to come. -/
structure PageStore (P : Type) where
  pages : ContainerId → List P
  requests : ℕ
  refuse : ℕ → Option MemPoolStatus

namespace PageStore

variable {P : Type}

/-- Where the page with an id is among the first `n` pages of a container: the last one with the id. -/
def position (n : ℕ) (id : PageId) : ℕ := id.toNat + (n - 1 - id.toNat) / 2 ^ 32 * 2 ^ 32

theorem position_eq {n : ℕ} (hn : n ≤ 2 ^ 32) (id : PageId) : position n id = id.toNat := by
  unfold position
  rw [Nat.div_eq_of_lt (by omega), Nat.zero_mul, Nat.add_zero]

def page? (s : PageStore P) (key : ContainerPageId) : Option P :=
  (s.pages key.cId)[position (s.pages key.cId).length key.pageId]?

def setPages (s : PageStore P) (c : ContainerId) (ps : List P) : PageStore P :=
  { s with pages := Function.update s.pages c ps }

def setPage (s : PageStore P) (key : ContainerPageId) (p : P) : PageStore P :=
  s.setPages key.cId ((s.pages key.cId).set (position (s.pages key.cId).length key.pageId) p)

/-- The store after one more request. -/
def tick (s : PageStore P) : PageStore P := { s with requests := s.requests + 1 }

/-- A request for a guard of a page. -/
def acquire (s : PageStore P) (key : ContainerPageId) : Except CrustyError Unit × PageStore P :=
  match s.refuse s.requests, s.page? key with
  | none, some _ => (.ok (), s.tick)
  | _, _ => (.error (.panic .unwrap), s.tick)

/-- A read of a page the client holds. -/
def onPage {α : Type} (s : PageStore P) (key : ContainerPageId) (f : P → Checked α) :
    Except CrustyError α × PageStore P :=
  match s.page? key with
  | none => (.error (.panic .unwrap), s)
  | some p =>
    match f p with
    | .ok a => (.ok a, s)
    | .error e => (.error (.panic e), s)

/-- A change of a page the client holds. -/
def changePage {α : Type} (s : PageStore P) (key : ContainerPageId) (f : P → Checked (α × P)) :
    Except CrustyError α × PageStore P :=
  match s.page? key with
  | none => (.error (.panic .unwrap), s)
  | some p =>
    match f p with
    | .ok (a, p') => (.ok a, s.setPage key p')
    | .error e => (.error (.panic e), s)

section Answers

variable {s : PageStore P} {key : ContainerPageId} {p p' : P} {α : Type} {a : α}

theorem acquire_eq (hr : s.refuse s.requests = none) (hp : s.page? key = some p) :
    s.acquire key = (.ok (), s.tick) := by
  unfold acquire
  rw [hr, hp]

theorem onPage_eq {f : P → Checked α} (hp : s.page? key = some p) (hf : f p = .ok a) :
    s.onPage key f = (.ok a, s) := by
  unfold onPage
  rw [hp]
  dsimp only
  rw [hf]

theorem changePage_eq {f : P → Checked (α × P)} (hp : s.page? key = some p) (hf : f p = .ok (a, p')) :
    s.changePage key f = (.ok a, s.setPage key p') := by
  unfold changePage
  rw [hp]
  dsimp only
  rw [hf]

end Answers

variable [FilePageOps P]

/-- A request for a new page, to which `f` is applied at once; the answer is the page id found in
the page.  `fresh` is the page as it is handed out. -/
def create (fresh : PageId → P) (s : PageStore P) (c : ContainerId) (f : P → Checked P) :
    Except CrustyError (Except MemPoolStatus PageId) × PageStore P :=
  match s.refuse s.requests with
  | some e => (.ok (.error e), s.tick)
  | none =>
    match f (fresh (UInt32.ofNat (s.pages c).length)) with
    | .ok p => (.ok (.ok (HeapPage.getPageId p)), s.tick.setPages c (s.pages c ++ [p]))
    | .error e => (.error (.panic e), s.tick)

section Create

variable {fresh : PageId → P} {s : PageStore P} {c : ContainerId} {f : P → Checked P}

theorem create_refused {e : MemPoolStatus} (hr : s.refuse s.requests = some e) :
    s.create fresh c f = (.ok (.error e), s.tick) := by
  unfold create
  rw [hr]

theorem create_ok {p : P} (hr : s.refuse s.requests = none)
    (hf : f (fresh (UInt32.ofNat (s.pages c).length)) = .ok p) :
    s.create fresh c f = (.ok (.ok (HeapPage.getPageId p)), s.tick.setPages c (s.pages c ++ [p])) := by
  unfold create
  rw [hr]
  dsimp only
  rw [hf]

end Create

/-- The calls on a store; `fresh i` is the page it hands out for the request number `i` if that is one
for a new page. -/
def handlerOn (fresh : ℕ → PageId → P) : Handler memInterface CrustyError (PageStore P)
  | .getMaxPageId c, s => (.ok (some (UInt32.ofNat (s.pages c).length)), s)
  | .createNewPageForWrite c, s => s.create (fresh s.requests) c .ok
  | .createHeapPage c, s => s.create (fresh s.requests) c HeapPage.initHeapPage
  | .getPageForWrite key, s => s.acquire key
  | .getPageForRead key, s => s.acquire key
  | .dropWriteGuard _, s => (.ok (), s)
  | .dropReadGuard _, s => (.ok (), s)
  | .addValue key bytes, s => s.changePage key (fun p => HeapPage.addValue p bytes)
  | .getValue key slotId, s => s.onPage key (fun p => HeapPage.getValue p slotId)
  | .updateValue key slotId bytes, s =>
    s.changePage key (fun p => HeapPage.updateValue p slotId bytes)
  | .deleteValue key slotId, s => s.changePage key (fun p => HeapPage.deleteValue p slotId)
  | .getNumSlots key, s => s.onPage key FilePageOps.getNumSlots

/-- The calls on a store whose new pages are zeroed except for the id. -/
def handler : Handler memInterface CrustyError (PageStore P) := handlerOn fun _ => HeapPage.new

/-- No call takes a page away. -/
theorem length_handler (o : MemOp) (s : PageStore P) (c : ContainerId) :
    (s.pages c).length ≤ ((handler o s).2.pages c).length := by
  have hset : ∀ (c' : ContainerId) (ps : List P), (s.pages c').length ≤ ps.length →
      (s.pages c).length ≤ ((s.setPages c' ps).pages c).length := by
    intro c' ps hps
    show _ ≤ (Function.update s.pages c' ps c).length
    by_cases hc : c = c'
    · rw [hc, update_self]
      exact hps
    · rw [update_of_ne hc]
  have hcreate : ∀ (c' : ContainerId) (f : P → Checked P),
      (s.pages c).length ≤ ((s.create HeapPage.new c' f).2.pages c).length := by
    intro c' f
    unfold create
    cases s.refuse s.requests with
    | some e => exact le_rfl
    | none =>
      dsimp only
      cases f (HeapPage.new (UInt32.ofNat (s.pages c').length)) with
      | error e => exact le_rfl
      | ok p => exact hset c' _ (by rw [length_append]; exact Nat.le_add_right _ _)
  have hchange : ∀ {α : Type} (key : ContainerPageId) (f : P → Checked (α × P)),
      (s.pages c).length ≤ ((s.changePage key f).2.pages c).length := by
    intro α key f
    unfold changePage
    cases s.page? key with
    | none => exact le_rfl
    | some p =>
      dsimp only
      cases f p with
      | error e => exact le_rfl
      | ok x => exact hset key.cId _ (by rw [length_set])
  have hread : ∀ {α : Type} (key : ContainerPageId) (f : P → Checked α),
      (s.onPage key f).2 = s := by
    intro α key f
    unfold onPage
    cases s.page? key with
    | none => rfl
    | some p =>
      dsimp only
      cases f p <;> rfl
  have hacquire : ∀ key, (s.acquire key).2.pages = s.pages := by
    intro key
    unfold acquire
    cases s.refuse s.requests <;> cases s.page? key <;> rfl
  cases o with
  | getMaxPageId c' => exact le_rfl
  | createNewPageForWrite c' => exact hcreate c' _
  | createHeapPage c' => exact hcreate c' _
  | getPageForWrite key => exact (congrArg (fun f => (f c).length) (hacquire key)).ge
  | getPageForRead key => exact (congrArg (fun f => (f c).length) (hacquire key)).ge
  | dropWriteGuard key => exact le_rfl
  | dropReadGuard key => exact le_rfl
  | addValue key bytes => exact hchange key _
  | getValue key slotId => exact (congrArg (fun t => (t.pages c).length) (hread key _)).ge
  | updateValue key slotId bytes => exact hchange key _
  | deleteValue key slotId => exact hchange key _
  | getNumSlots key => exact (congrArg (fun t => (t.pages c).length) (hread key _)).ge

/-- Run a program on a store whose new pages are zeroed except for the id. -/
def exec {α : Type} (x : HeapProg α) (s : PageStore P) : Except CrustyError α × PageStore P :=
  run handler x s

/-- Run a program on a store whose frames hold any bytes: `frame i` is the page in the frame that is
taken for the request number `i`. -/
def execOn {α : Type} (frame : ℕ → Page) (x : HeapProg α) (s : PageStore Page) :
    Except CrustyError α × PageStore Page :=
  run (handlerOn fun i => (frame i).setPageId) x s

theorem length_exec {α : Type} (x : HeapProg α) (s : PageStore P) (c : ContainerId) :
    (s.pages c).length ≤ ((exec x s).2.pages c).length :=
  run_invariant (h := handler) (J := fun t => (s.pages c).length ≤ (t.pages c).length)
    (fun o t ht => ht.trans (length_handler o t c)) x le_rfl

end PageStore

/-- The same store, once with bytes and once with what they spell. -/
structure StoreRel (s : PageStore Page) (t : PageStore FilePage) : Prop where
  length : ∀ c, (s.pages c).length = (t.pages c).length
  page : ∀ (c : ContainerId) (i : ℕ) (p : Page) (q : FilePage), (s.pages c)[i]? = some p →
    (t.pages c)[i]? = some q → q.SpelledBy p
  requests : s.requests = t.requests
  refuse : s.refuse = t.refuse

namespace StoreRel

variable {s : PageStore Page} {t : PageStore FilePage}

theorem refl (s : PageStore Page) :
    StoreRel s ⟨fun c => (s.pages c).map .raw, s.requests, s.refuse⟩ := by
  refine ⟨fun c => (length_map _).symm, fun c i p q hp hq => ?_, rfl, rfl⟩
  rw [getElem?_map, hp] at hq
  obtain rfl : .raw p = q := Option.some.inj hq
  exact .raw

section

variable (h : StoreRel s t)
include h

theorem tick : StoreRel s.tick t.tick :=
  ⟨h.length, h.page, congrArg (· + 1) h.requests, h.refuse⟩

theorem setPages (c : ContainerId) {ps : List Page} {qs : List FilePage}
    (hlen : ps.length = qs.length)
    (hpq : ∀ (i : ℕ) p q, ps[i]? = some p → qs[i]? = some q → q.SpelledBy p) :
    StoreRel (s.setPages c ps) (t.setPages c qs) := by
  refine ⟨fun d => ?_, fun d i p q => ?_, h.requests, h.refuse⟩
  · show (Function.update s.pages c ps d).length = (Function.update t.pages c qs d).length
    by_cases hd : d = c
    · rw [hd, update_self, update_self, hlen]
    · rw [update_of_ne hd, update_of_ne hd, h.length]
  · show (Function.update s.pages c ps d)[i]? = some p → (Function.update t.pages c qs d)[i]? = some q → _
    by_cases hd : d = c
    · rw [hd, update_self, update_self]
      exact hpq i p q
    · rw [update_of_ne hd, update_of_ne hd]
      exact h.page d i p q

theorem setPage (key : ContainerPageId) {p : Page} {q : FilePage}
    (hpq : q.SpelledBy p) : StoreRel (s.setPage key p) (t.setPage key q) := by
  refine h.setPages key.cId (by rw [length_set, length_set, h.length]) ?_
  intro i p' q' hp' hq'
  rw [getElem?_set] at hp' hq'
  rw [h.length] at hp'
  by_cases hi : PageStore.position (t.pages key.cId).length key.pageId = i
  · rw [if_pos hi] at hp' hq'
    split_ifs at hp' hq'
    rw [← Option.some.inj hp', ← Option.some.inj hq']
    exact hpq
  · rw [if_neg hi] at hp' hq'
    exact h.page key.cId i p' q' hp' hq'

theorem push (c : ContainerId) {p : Page} {q : FilePage} (hpq : q.SpelledBy p) :
    StoreRel (s.tick.setPages c (s.pages c ++ [p])) (t.tick.setPages c (t.pages c ++ [q])) := by
  refine h.tick.setPages c (by simp [h.length]) ?_
  intro i p' q' hp' hq'
  rw [getElem?_append] at hp' hq'
  rw [h.length] at hp'
  split_ifs at hp' hq'
  · exact h.page c i p' q' hp' hq'
  · rw [mem_singleton.mp (mem_of_getElem? hp'),
      mem_singleton.mp (mem_of_getElem? hq')]
    exact hpq

/-- Either both stores have the page or none does. -/
theorem page?_cases (key : ContainerPageId) :
    (s.page? key = none ∧ t.page? key = none) ∨
      ∃ p q, s.page? key = some p ∧ t.page? key = some q ∧ q.SpelledBy p := by
  unfold PageStore.page?
  rw [h.length]
  generalize PageStore.position (t.pages key.cId).length key.pageId = i
  cases hp : (s.pages key.cId)[i]? with
  | none =>
    left
    refine ⟨rfl, getElem?_eq_none ?_⟩
    rw [← h.length]
    exact List.getElem?_eq_none_iff.mp hp
  | some p =>
    right
    obtain ⟨hlt, -⟩ := List.getElem?_eq_some_iff.mp hp
    rw [h.length] at hlt
    have hq := getElem?_eq_getElem hlt
    exact ⟨p, _, rfl, hq, h.page _ _ _ _ hp hq⟩

theorem acquire (key : ContainerPageId) :
    (s.acquire key).1 = (t.acquire key).1 ∧ StoreRel (s.acquire key).2 (t.acquire key).2 := by
  unfold PageStore.acquire
  rw [h.refuse, h.requests]
  rcases h.page?_cases key with ⟨hs, ht⟩ | ⟨p, q, hs, ht, -⟩
  all_goals rw [hs, ht]
  all_goals cases t.refuse t.requests <;> exact ⟨rfl, h.tick⟩

theorem onPage {α : Type} (key : ContainerPageId) {f : Page → Checked α}
    {g : FilePage → Checked α} (hfg : ∀ p q, q.SpelledBy p → f p = g q) :
    (s.onPage key f).1 = (t.onPage key g).1 ∧ StoreRel (s.onPage key f).2 (t.onPage key g).2 := by
  unfold PageStore.onPage
  rcases h.page?_cases key with ⟨hs, ht⟩ | ⟨p, q, hs, ht, hpq⟩
  · rw [hs, ht]
    exact ⟨rfl, h⟩
  · rw [hs, ht]
    simp only [hfg p q hpq]
    cases g q with
    | ok a => exact ⟨rfl, h⟩
    | error e => exact ⟨rfl, h⟩

theorem changePage {α : Type} (key : ContainerPageId)
    {f : Page → Checked (α × Page)} {g : FilePage → Checked (α × FilePage)}
    (hfg : ∀ p q, q.SpelledBy p → Agree (fun a b => a.1 = b.1 ∧ b.2.SpelledBy a.2) (f p) (g q)) :
    (s.changePage key f).1 = (t.changePage key g).1 ∧
      StoreRel (s.changePage key f).2 (t.changePage key g).2 := by
  unfold PageStore.changePage
  rcases h.page?_cases key with ⟨hs, ht⟩ | ⟨p, q, hs, ht, hpq⟩
  · rw [hs, ht]
    exact ⟨rfl, h⟩
  · rw [hs, ht]
    have hagree := hfg p q hpq
    simp only
    generalize f p = x at hagree ⊢
    generalize g q = y at hagree ⊢
    cases hagree with
    | ok hab => exact ⟨congrArg _ hab.1, h.setPage key hab.2⟩
    | error e => exact ⟨rfl, h⟩

theorem create (c : ContainerId) {f : Page → Checked Page}
    {g : FilePage → Checked FilePage}
    (hfg : ∀ id, Agree (fun p q => q.SpelledBy p) (f (HeapPage.new id)) (g (HeapPage.new id))) :
    (s.create HeapPage.new c f).1 = (t.create HeapPage.new c g).1 ∧
      StoreRel (s.create HeapPage.new c f).2 (t.create HeapPage.new c g).2 := by
  unfold PageStore.create
  rw [h.refuse, h.requests, h.length]
  cases t.refuse t.requests with
  | some e => exact ⟨rfl, h.tick⟩
  | none =>
    have hagree := hfg (UInt32.ofNat (t.pages c).length)
    simp only
    generalize f (HeapPage.new (UInt32.ofNat (t.pages c).length)) = x at hagree ⊢
    generalize g (HeapPage.new (UInt32.ofNat (t.pages c).length)) = y at hagree ⊢
    cases hagree with
    | ok hab => exact ⟨congrArg (fun id => Except.ok (Except.ok id)) hab.getPageId, h.push c hab⟩
    | error e => exact ⟨rfl, h.tick⟩

end

end StoreRel

/-- A store of bytes and the store of what they spell answer every call alike. -/
theorem store_agree (o : MemOp) (s : PageStore Page) (t : PageStore FilePage) (h : StoreRel s t) :
    (PageStore.handler o s).1 = (PageStore.handler o t).1 ∧
      StoreRel (PageStore.handler o s).2 (PageStore.handler o t).2 := by
  cases o with
  | getMaxPageId c =>
    refine ⟨?_, h⟩
    show Except.ok (some (UInt32.ofNat (s.pages c).length)) = _
    rw [h.length]
    rfl
  | createNewPageForWrite c => exact h.create c (fun id => .ok (.new id))
  | createHeapPage c =>
    refine h.create c (fun id => ?_)
    have hinit := FilePage.SpelledBy.initHeapPage (Page.new_blank id)
    rw [Page.new_getPageId] at hinit
    exact hinit
  | getPageForWrite key => exact h.acquire key
  | getPageForRead key => exact h.acquire key
  | dropWriteGuard key => exact ⟨rfl, h⟩
  | dropReadGuard key => exact ⟨rfl, h⟩
  | addValue key bytes => exact h.changePage key (fun p q hpq => hpq.addValue bytes)
  | getValue key slotId => exact h.onPage key (fun p q hpq => hpq.getValue slotId)
  | updateValue key slotId bytes =>
    exact h.changePage key (fun p q hpq => hpq.updateValue slotId bytes)
  | deleteValue key slotId => exact h.changePage key (fun p q hpq => hpq.deleteValue slotId)
  | getNumSlots key => exact h.onPage key (fun p q hpq => hpq.getNumSlots)

/-- A program gets the same result on bytes and on what they spell. -/
theorem store_exec_agree {α : Type} (x : HeapProg α) {s : PageStore Page} {t : PageStore FilePage}
    (h : StoreRel s t) :
    (PageStore.exec x s).1 = (PageStore.exec x t).1 ∧
      StoreRel (PageStore.exec x s).2 (PageStore.exec x t).2 :=
  run_agree store_agree x h

end CrustyDB
