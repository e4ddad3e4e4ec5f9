import CrustyDB.Page.HeapPageRefine
import CrustyDB.Lib.Program

/-! # The page pool as the index and the heap file see it

The pages of one container behind a pool.  A client asks for a page, which the pool may refuse
for reasons of its own (no frame to evict, a failed disk read), and works on the pages it was
given with the operations of the `HeapPage` trait.  The pool hands out the bytes last written.  A new
page is put into a frame that may have held another page: the pool writes the page id into it, and
the other bytes are those the frame had (`execOn`).  A request that is refused leaves the pages as
they are.  A buffer pool does all this as well, except when a file cannot be read: the page is in the
pool then, with other bytes (`BufferPool.acquire_pool`, `BufferPool.create_pool`).

Clients are programs over `poolInterface`.  They run on pools of any page type with the
operations of the trait.  `exec` is the pool whose frames have never been used.  `pool_agree` says
that a pool of byte pages whose new pages are blank and a pool of slot directories that represent them
answer every call alike, so that `exec_agree` carries what is proved about a program on directories
over to the bytes. -/

namespace CrustyDB

open Program Simulation SlotDir List

/-- The trait of heap pages. -/
class HeapPage (P : Type) where
  new : PageId → P
  initHeapPage : P → Checked P
  getPageId : P → PageId
  addValue : P → List UInt8 → Checked (Option SlotId × P)
  getValue : P → SlotId → Checked (Option (List UInt8))
  deleteValue : P → SlotId → Checked (Option Unit × P)
  updateValue : P → SlotId → List UInt8 → Checked (Option Unit × P)
  iter : P → Checked (List (List UInt8 × SlotId))

instance : HeapPage Page where
  new := Page.new
  initHeapPage := Page.initHeapPage
  getPageId := Page.getPageId
  addValue := Page.addValue
  getValue := Page.getValue
  deleteValue := Page.deleteValue
  updateValue := Page.updateValue
  iter := Page.iter

instance : HeapPage SlotDir where
  new pageId := ⟨pageId, [], 0, 0, 0⟩
  initHeapPage d := .ok { d with fsp := pageSize }
  getPageId d := d.pageId
  addValue := SlotDir.add
  getValue d s := .ok (d.get s)
  deleteValue d s := .ok (d.delete s)
  updateValue d s bytes := .ok (d.update s bytes)
  iter d := .ok d.iter

/-- The page has no room for the value. -/
def PageRefuses {P : Type} [HeapPage P] (page : P) (bytes : List UInt8) : Prop :=
  ∃ page', HeapPage.addValue page bytes = .ok (none, page')

/-- The ways in which the pool refuses a request. -/
inductive MemPoolStatus where
  | baseFileNotFound
  | baseFileError (msg : String)
  | pageNotFound
  | frameReadLatchGrantFailed
  | frameWriteLatchGrantFailed
  | cannotEvictPage
deriving DecidableEq, Repr

/-- The ways in which a client of the pool fails.  A loop that has not ended after as many rounds
as the model gives it is a failure of its own. -/
inductive CrustyError where
  | crusty (msg : String)
  | pool (msg : String) (e : MemPoolStatus)
  | panic (p : Panic)
  | diverges
deriving DecidableEq, Repr

/-- The error is a panic. -/
def CrustyError.IsPanic (e : CrustyError) : Prop := ∃ p, e = .panic p

/-- The calls of a client: requests for a page or a new initialised page, and the operations on
the pages it holds. -/
inductive PoolOp where
  | pageCount
  | acquire (pageId : PageId)
  | create
  | add (pageId : PageId) (bytes : List UInt8)
  | get (pageId : PageId) (slotId : SlotId)
  | update (pageId : PageId) (slotId : SlotId) (bytes : List UInt8)
  | delete (pageId : PageId) (slotId : SlotId)
  | iter (pageId : PageId)

/-- What a call answers. -/
def PoolOp.Ans : PoolOp → Type
  | pageCount => ℕ
  | acquire _ => Except MemPoolStatus Unit
  | create => Except MemPoolStatus PageId
  | add _ _ => Option SlotId
  | get _ _ => Option (List UInt8)
  | update _ _ _ => Option Unit
  | delete _ _ => Option Unit
  | iter _ => List (List UInt8 × SlotId)

def poolInterface : Interface := ⟨PoolOp, PoolOp.Ans⟩

/-- A program that uses the pages of a container. -/
abbrev PoolProg := Prog poolInterface CrustyError

namespace PoolProg

def pageCount : PoolProg ℕ := Prog.op (I := poolInterface) .pageCount

def acquire (pageId : PageId) : PoolProg (Except MemPoolStatus Unit) :=
  Prog.op (I := poolInterface) (.acquire pageId)

def create : PoolProg (Except MemPoolStatus PageId) := Prog.op (I := poolInterface) .create

def addValue (pageId : PageId) (bytes : List UInt8) : PoolProg (Option SlotId) :=
  Prog.op (I := poolInterface) (.add pageId bytes)

def getValue (pageId : PageId) (slotId : SlotId) : PoolProg (Option (List UInt8)) :=
  Prog.op (I := poolInterface) (.get pageId slotId)

def updateValue (pageId : PageId) (slotId : SlotId) (bytes : List UInt8) : PoolProg (Option Unit) :=
  Prog.op (I := poolInterface) (.update pageId slotId bytes)

def deleteValue (pageId : PageId) (slotId : SlotId) : PoolProg (Option Unit) :=
  Prog.op (I := poolInterface) (.delete pageId slotId)

def iter (pageId : PageId) : PoolProg (List (List UInt8 × SlotId)) :=
  Prog.op (I := poolInterface) (.iter pageId)

end PoolProg

/-- The pages of a container by id, and the pool's answers to the requests to come. -/
structure Pool (P : Type) where
  pages : List P
  requests : ℕ
  refuse : ℕ → Option MemPoolStatus

namespace Pool

variable {P : Type}

def page? (s : Pool P) (pageId : PageId) : Option P := s.pages[pageId.toNat]?

def setPage (s : Pool P) (pageId : PageId) (p : P) : Pool P :=
  { s with pages := s.pages.set pageId.toNat p }

/-- The pool after one more request. -/
def tick (s : Pool P) : Pool P := { s with requests := s.requests + 1 }

/-- A read of a page the client holds. -/
def onPage {α : Type} (s : Pool P) (pageId : PageId) (f : P → Checked α) :
    Except CrustyError α × Pool P :=
  match s.page? pageId with
  | none => (.error (.panic .unwrap), s)
  | some p =>
    match f p with
    | .ok a => (.ok a, s)
    | .error e => (.error (.panic e), s)

/-- A change of a page the client holds. -/
def changePage {α : Type} (s : Pool P) (pageId : PageId) (f : P → Checked (α × P)) :
    Except CrustyError α × Pool P :=
  match s.page? pageId with
  | none => (.error (.panic .unwrap), s)
  | some p =>
    match f p with
    | .ok (a, p') => (.ok a, s.setPage pageId p')
    | .error e => (.error (.panic e), s)

/-- The number of page ids. -/
def maxPages : ℕ := 2 ^ 32

/-- A request for a page. -/
def acquire (s : Pool P) (pageId : PageId) : Except CrustyError (Except MemPoolStatus Unit) × Pool P :=
  match s.refuse s.requests with
  | some e => (.ok (.error e), s.tick)
  | none =>
    if pageId.toNat < s.pages.length then (.ok (.ok ()), s.tick)
    else (.ok (.error .pageNotFound), s.tick)

variable [HeapPage P]

/-- A request for a new page, which is initialised as a heap page at once; the answer is the page
id found in the page.  `fresh` is the page as it is handed out. -/
def create (fresh : PageId → P) (s : Pool P) :
    Except CrustyError (Except MemPoolStatus PageId) × Pool P :=
  match s.refuse s.requests with
  | some e => (.ok (.error e), s.tick)
  | none =>
    if s.pages.length < maxPages then
      match HeapPage.initHeapPage (fresh (UInt32.ofNat s.pages.length)) with
      | .ok p => (.ok (.ok (HeapPage.getPageId p)), { s.tick with pages := s.pages ++ [p] })
      | .error e => (.error (.panic e), s.tick)
    else (.ok (.error .cannotEvictPage), s.tick)

/-- The calls on a pool; `fresh i` is the page it hands out for the request number `i` if that is one
for a new page. -/
def handler (fresh : ℕ → PageId → P) : Handler poolInterface CrustyError (Pool P)
  | .pageCount, s => (.ok s.pages.length, s)
  | .acquire pageId, s => s.acquire pageId
  | .create, s => s.create (fresh s.requests)
  | .add pageId bytes, s => s.changePage pageId (fun p => HeapPage.addValue p bytes)
  | .get pageId slotId, s => s.onPage pageId (fun p => HeapPage.getValue p slotId)
  | .update pageId slotId bytes, s =>
    s.changePage pageId (fun p => HeapPage.updateValue p slotId bytes)
  | .delete pageId slotId, s => s.changePage pageId (fun p => HeapPage.deleteValue p slotId)
  | .iter pageId, s => s.onPage pageId HeapPage.iter

/-- Run a client on a pool whose new pages are zeroed except for the id. -/
def exec {α : Type} (x : PoolProg α) (s : Pool P) : Except CrustyError α × Pool P :=
  run (handler fun _ => HeapPage.new) x s

/-- Run a client on a pool whose frames hold any bytes: `frame i` is the page in the frame that is
taken for the request number `i`. -/
def execOn {α : Type} (frame : ℕ → Page) (x : PoolProg α) (s : Pool Page) :
    Except CrustyError α × Pool Page :=
  run (handler fun i => (frame i).setPageId) x s

section Exec

variable {α β : Type} (s : Pool P)

theorem exec_pageCount : exec PoolProg.pageCount s = (.ok s.pages.length, s) :=
  run_op _ (I := poolInterface) .pageCount s

theorem exec_acquire (pageId : PageId) : exec (PoolProg.acquire pageId) s = s.acquire pageId :=
  run_op _ (I := poolInterface) (.acquire pageId) s

theorem exec_create : exec PoolProg.create s = s.create HeapPage.new :=
  run_op _ (I := poolInterface) .create s

theorem exec_addValue (pageId : PageId) (bytes : List UInt8) : exec (PoolProg.addValue pageId bytes) s =
    s.changePage pageId (fun p => HeapPage.addValue p bytes) :=
  run_op _ (I := poolInterface) (.add pageId bytes) s

theorem exec_getValue (pageId : PageId) (slotId : SlotId) : exec (PoolProg.getValue pageId slotId) s =
    s.onPage pageId (fun p => HeapPage.getValue p slotId) :=
  run_op _ (I := poolInterface) (.get pageId slotId) s

theorem exec_updateValue (pageId : PageId) (slotId : SlotId) (bytes : List UInt8) :
    exec (PoolProg.updateValue pageId slotId bytes) s =
      s.changePage pageId (fun p => HeapPage.updateValue p slotId bytes) :=
  run_op _ (I := poolInterface) (.update pageId slotId bytes) s

theorem exec_deleteValue (pageId : PageId) (slotId : SlotId) :
    exec (PoolProg.deleteValue pageId slotId) s =
      s.changePage pageId (fun p => HeapPage.deleteValue p slotId) :=
  run_op _ (I := poolInterface) (.delete pageId slotId) s

theorem exec_iter (pageId : PageId) : exec (PoolProg.iter pageId) s = s.onPage pageId HeapPage.iter :=
  run_op _ (I := poolInterface) (.iter pageId) s

variable {s} {x : PoolProg α} {f : α → PoolProg β} {s' : Pool P}

theorem exec_bind_ok {a : α} (hx : exec x s = (.ok a, s')) :
    exec (x >>= f) s = exec (f a) s' := run_bind_ok _ hx

theorem exec_bind_error {e : CrustyError} (hx : exec x s = (.error e, s')) :
    exec (x >>= f) s = (.error e, s') := run_bind_error _ hx

theorem of_exec_bind {b : β} (h : exec (x >>= f) s = (.ok b, s')) :
    ∃ a s₁, exec x s = (.ok a, s₁) ∧ exec (f a) s₁ = (.ok b, s') := of_run_bind h

end Exec

end Pool

/-! ### Blank pages -/

namespace Page

/-- The counters of the page are zero. -/
def Blank (p : Page) : Prop := ∀ k, k < 4 → p.cell k = 0

instance (p : Page) : Decidable p.Blank := by
  unfold Blank
  infer_instance

theorem new_blank (pageId : PageId) : (new pageId).Blank := by
  intro k hk
  unfold cell
  have h4 : pageIdSize ≤ pageFixedHeaderLen := by decide
  have h5 : pageFixedHeaderLen + 8 ≤ pageSize := by decide
  rw [new_slice pageId (by omega) (by omega), ByteBuffer.readLe_replicate_zero]

theorem cell_setPageId (p : Page) (id : PageId) (k : ℕ) : (p.setPageId id).cell k = p.cell k := by
  unfold cell setPageId
  rw [slice_put_disjoint _ _ _ (Or.inr (by
    rw [ByteBuffer.leBytes_length]
    simp only [pageIdSize, pageFixedHeaderLen]
    omega))]

variable {p : Page}

theorem Blank.setPageId (h : p.Blank) (id : PageId) : (p.setPageId id).Blank := by
  intro k hk
  rw [cell_setPageId]
  exact h k hk

/-- A blank page spells a directory without slots and without space. -/
theorem Blank.rep (h : p.Blank) : Rep p ⟨p.getPageId, [], 0, 0, 0⟩ :=
  ⟨rfl, h 0 (by omega), h 1 (by omega), h 2 (by omega), h 3 (by omega),
    by unfold SlotDir.headerSize; exact (by decide : headerStart ≤ pageSize),
    by simp, by simp, by simp, by simp⟩

theorem Blank.initHeapPage (h : p.Blank) :
    ∃ q, p.initHeapPage = .ok q ∧ Rep q (SlotDir.empty p.getPageId) :=
  ⟨_, setFreeSpacePtr_eq _ _, h.rep.setFsp (by decide)⟩

end Page

/-- Frames that have never been used. -/
def newFrames : ℕ → Page := fun _ => Page.new 0

theorem newFrames_blank : ∀ i, (newFrames i).Blank := fun _ => Page.new_blank 0

/-! ### Byte pages and slot directories -/

/-- The byte page spells a well-formed directory. -/
def PageRel (p : Page) (d : SlotDir) : Prop := p.Rep d ∧ d.WF

/-- The same pool, once with bytes and once with directories. -/
structure PoolRel (s : Pool Page) (t : Pool SlotDir) : Prop where
  length : s.pages.length = t.pages.length
  page : ∀ (i : ℕ) (p : Page) (d : SlotDir), s.pages[i]? = some p → t.pages[i]? = some d →
    PageRel p d
  requests : s.requests = t.requests
  refuse : s.refuse = t.refuse

namespace PoolRel

variable {s : Pool Page} {t : Pool SlotDir}

section

variable (h : PoolRel s t)
include h

theorem tick : PoolRel s.tick t.tick :=
  ⟨h.length, h.page, congrArg (· + 1) h.requests, h.refuse⟩

theorem setPage (pageId : PageId) {p : Page} {d : SlotDir} (hpd : PageRel p d) :
    PoolRel (s.setPage pageId p) (t.setPage pageId d) := by
  refine ⟨by simp [Pool.setPage, h.length], ?_, h.requests, h.refuse⟩
  intro i q e hq he
  simp only [Pool.setPage, getElem?_set, h.length] at hq he
  by_cases hi : pageId.toNat = i
  · by_cases hlt : pageId.toNat < t.pages.length
    · rw [if_pos hi, if_pos hlt] at hq he
      rw [← Option.some.inj hq, ← Option.some.inj he]
      exact hpd
    · rw [if_pos hi, if_neg hlt] at hq
      cases hq
  · rw [if_neg hi] at hq he
    exact h.page i q e hq he

/-- Either both pools have the page or none does. -/
theorem page?_cases (pageId : PageId) :
    (s.page? pageId = none ∧ t.page? pageId = none) ∨
      ∃ p d, s.page? pageId = some p ∧ t.page? pageId = some d ∧ PageRel p d := by
  unfold Pool.page?
  cases hp : s.pages[pageId.toNat]? with
  | none =>
    left
    refine ⟨rfl, getElem?_eq_none ?_⟩
    rw [← h.length]
    exact List.getElem?_eq_none_iff.mp hp
  | some p =>
    right
    obtain ⟨hlt, -⟩ := List.getElem?_eq_some_iff.mp hp
    rw [h.length] at hlt
    have hd := getElem?_eq_getElem hlt
    exact ⟨p, _, rfl, hd, h.page _ _ _ hp hd⟩

theorem onPage {α : Type} (pageId : PageId) {f : Page → Checked α}
    {g : SlotDir → Checked α} (hfg : ∀ p d, PageRel p d → f p = g d) :
    (s.onPage pageId f).1 = (t.onPage pageId g).1 ∧
      PoolRel (s.onPage pageId f).2 (t.onPage pageId g).2 := by
  unfold Pool.onPage
  rcases h.page?_cases pageId with ⟨hs, ht⟩ | ⟨p, d, hs, ht, hpd⟩
  · rw [hs, ht]
    exact ⟨rfl, h⟩
  · rw [hs, ht]
    simp only [hfg p d hpd]
    cases g d with
    | ok a => exact ⟨rfl, h⟩
    | error e => exact ⟨rfl, h⟩

theorem changePage {α : Type} (pageId : PageId) {f : Page → Checked (α × Page)}
    {g : SlotDir → Checked (α × SlotDir)}
    (hfg : ∀ p d, PageRel p d → Agree (fun a b => a.1 = b.1 ∧ PageRel a.2 b.2) (f p) (g d)) :
    (s.changePage pageId f).1 = (t.changePage pageId g).1 ∧
      PoolRel (s.changePage pageId f).2 (t.changePage pageId g).2 := by
  unfold Pool.changePage
  rcases h.page?_cases pageId with ⟨hs, ht⟩ | ⟨p, d, hs, ht, hpd⟩
  · rw [hs, ht]
    exact ⟨rfl, h⟩
  · rw [hs, ht]
    have hagree := hfg p d hpd
    simp only
    generalize f p = x at hagree ⊢
    generalize g d = y at hagree ⊢
    cases hagree with
    | ok hab => exact ⟨congrArg _ hab.1, h.setPage pageId hab.2⟩
    | error e => exact ⟨rfl, h⟩

theorem acquire (pageId : PageId) :
    (s.acquire pageId).1 = (t.acquire pageId).1 ∧
      PoolRel (s.acquire pageId).2 (t.acquire pageId).2 := by
  unfold Pool.acquire
  rw [h.refuse, h.requests, h.length]
  cases t.refuse t.requests with
  | some e => exact ⟨rfl, h.tick⟩
  | none =>
    simp only
    split_ifs <;> exact ⟨rfl, h.tick⟩

theorem push {p : Page} {d : SlotDir} (hpd : PageRel p d) :
    PoolRel { s.tick with pages := s.pages ++ [p] } { t.tick with pages := t.pages ++ [d] } := by
  refine ⟨by simp [h.length], ?_, congrArg (· + 1) h.requests, h.refuse⟩
  intro i q e hq he
  simp only [getElem?_append, h.length] at hq he
  split_ifs at hq he with hi
  · exact h.page i q e hq he
  · rw [mem_singleton.mp (mem_of_getElem? hq),
      mem_singleton.mp (mem_of_getElem? he)]
    exact hpd

/-- A new page in a blank frame is an empty directory. -/
theorem create {frame : Page} (hframe : frame.Blank) :
    (s.create frame.setPageId).1 = (t.create HeapPage.new).1 ∧
      PoolRel (s.create frame.setPageId).2 (t.create HeapPage.new).2 := by
  obtain ⟨p, hinit, hrep⟩ := (hframe.setPageId (UInt32.ofNat t.pages.length)).initHeapPage
  rw [Page.getPageId_setPageId] at hrep
  have hbytes : HeapPage.initHeapPage (frame.setPageId (UInt32.ofNat t.pages.length)) = .ok p := hinit
  have hdir : HeapPage.initHeapPage (HeapPage.new (P := SlotDir) (UInt32.ofNat t.pages.length)) =
      .ok (SlotDir.empty (UInt32.ofNat t.pages.length)) := rfl
  have hid : HeapPage.getPageId p =
      HeapPage.getPageId (SlotDir.empty (UInt32.ofNat t.pages.length)) := hrep.pageId
  unfold Pool.create
  rw [h.refuse, h.requests, h.length]
  cases t.refuse t.requests with
  | some e => exact ⟨rfl, h.tick⟩
  | none =>
    simp only [hbytes, hdir, hid]
    split_ifs
    · exact ⟨rfl, h.push ⟨hrep, empty_wf _⟩⟩
    · exact ⟨rfl, h.tick⟩

end

end PoolRel

variable {p : Page} {d : SlotDir}

theorem add_pageRel (h : PageRel p d) (bytes : List UInt8) :
    Agree (fun a b => a.1 = b.1 ∧ PageRel a.2 b.2) (p.addValue bytes) (d.add bytes) := by
  have hagree := Page.addValue_rep h.1 h.2 bytes
  generalize p.addValue bytes = x at hagree ⊢
  generalize hy : d.add bytes = y at hagree ⊢
  cases hagree with
  | error e => exact .error e
  | @ok a b hab =>
    obtain ⟨r, d'⟩ := b
    refine .ok ⟨hab.1, hab.2, ?_⟩
    cases r with
    | none => exact (add_none hy).2 ▸ h.2
    | some s => exact (add_some h.2 hy).wf

theorem delete_pageRel (h : PageRel p d) (slotId : SlotId) :
    Agree (fun a b => a.1 = b.1 ∧ PageRel a.2 b.2) (p.deleteValue slotId) (.ok (d.delete slotId)) := by
  obtain ⟨a, hrun, hab⟩ := (Page.deleteValue_rep h.1 h.2 slotId).ok_right
  rw [hrun]
  refine .ok ⟨hab.1, hab.2, ?_⟩
  cases hd : d.delete slotId with
  | mk r d' =>
    cases r with
    | none => exact (delete_none hd).2 ▸ h.2
    | some u => exact (delete_some h.2 hd).wf

theorem update_pageRel (h : PageRel p d) (slotId : SlotId) (bytes : List UInt8) :
    Agree (fun a b => a.1 = b.1 ∧ PageRel a.2 b.2) (p.updateValue slotId bytes)
      (.ok (d.update slotId bytes)) := by
  obtain ⟨a, hrun, hab⟩ := (Page.updateValue_rep h.1 h.2 slotId bytes).ok_right
  rw [hrun]
  refine .ok ⟨hab.1, hab.2, ?_⟩
  cases hd : d.update slotId bytes with
  | mk r d' =>
    cases r with
    | none => exact update_none hd ▸ h.2
    | some u => exact (update_some h.2 hd).wf

variable {frame : ℕ → Page} (hframe : ∀ i, (frame i).Blank)
include hframe

/-- A pool of bytes and the pool of the directories they spell answer every call alike. -/
theorem pool_agree (o : PoolOp) (s : Pool Page) (t : Pool SlotDir) (h : PoolRel s t) :
    (Pool.handler (fun i => (frame i).setPageId) o s).1 =
        (Pool.handler (fun _ => HeapPage.new) o t).1 ∧
      PoolRel (Pool.handler (fun i => (frame i).setPageId) o s).2
        (Pool.handler (fun _ => HeapPage.new) o t).2 := by
  cases o with
  | pageCount => exact ⟨congrArg _ h.length, h⟩
  | acquire pageId => exact h.acquire pageId
  | create => exact h.create (hframe s.requests)
  | add pageId bytes => exact h.changePage pageId (fun p d hpd => add_pageRel hpd bytes)
  | get pageId slotId => exact h.onPage pageId (fun p d hpd => Page.getValue_rep hpd.1 slotId)
  | update pageId slotId bytes =>
    exact h.changePage pageId (fun p d hpd => update_pageRel hpd slotId bytes)
  | delete pageId slotId => exact h.changePage pageId (fun p d hpd => delete_pageRel hpd slotId)
  | iter pageId => exact h.onPage pageId (fun p d hpd => Page.iter_rep hpd.1 hpd.2)

/-- A client gets the same result on bytes and on the directories they spell. -/
theorem exec_agree {α : Type} (x : PoolProg α) {s : Pool Page} {t : Pool SlotDir}
    (h : PoolRel s t) :
    (Pool.execOn frame x s).1 = (Pool.exec x t).1 ∧
      PoolRel (Pool.execOn frame x s).2 (Pool.exec x t).2 :=
  run_agree (pool_agree hframe) x h

end CrustyDB
