import CrustyDB.Heap.HeapFileErrors
import CrustyDB.Pool.FreeFrames

/-! # The store of pages behind a pool

The frames of a buffer pool and the files under it hold the pages of a container (`Backs`).  A request
for a page leaves them as they are, and a request for a new page puts the page of some frame behind
them, with its id set (`getPage_backs`, `createNewPageForWrite_backs`).  A request that fails leaves
them as they are unless a file could not be read: the page is in the pool then, with other bytes.

So the requests of an index are answered as `Pool` answers them, for some refusal and some frame
(`acquire_pool`, `create_pool`).  A heap file panics when a file cannot be read; every run of a heap
file on the pool that does not panic is a run on `PageStore` (`run_store`). -/

namespace CrustyDB

open Stateful Program List

namespace PageStore

/-- A new page is the last one with its id, and the others stay where they are. -/
theorem position_succ (n : ℕ) (id : PageId) :
    position (n + 1) id = if id = UInt32.ofNat n then n else position n id := by
  split_ifs with h
  · rw [h, position_last]
  · have hne : id.toNat ≠ n % 2 ^ 32 := by
      rw [← UInt32.toNat_ofNat']
      exact fun heq => h (UInt32.toNat_inj.mp heq)
    have hlt := id.toNat_lt
    unfold position
    omega

theorem position_inj {n : ℕ} {id id' : PageId} (h : position n id = position n id') : id = id' := by
  have hlt := id.toNat_lt
  have hlt' := id'.toNat_lt
  unfold position at h
  exact UInt32.toNat_inj.mp (by omega)

end PageStore

namespace BufferPool

variable {n : ℕ} {s t : BufferPool n} {c : ContainerId} {ps : List Page} {i : Fin n}

/-- The pages of a container, in the frames and in its file. -/
structure Backs (c : ContainerId) (s : BufferPool n) (ps : List Page) : Prop where
  unused : s.Unused (fun _ => True)
  count : (s.containers c).map (·.pageCount) = some (UInt32.ofNat ps.length)
  page : ∀ id p, s.contents ⟨c, id⟩ = some p → ps[PageStore.position ps.length id]? = some p

/-- A pool over a catalog has the pages of its files. -/
theorem backs_new {files : ContainerId → Option (List Page)} (disk : Disk) (hfile : files c = some ps)
    (hlen : ps.length ≤ 2 ^ 32) : Backs c (new (n := n) (catalog files) disk) ps := by
  have hct : (new (n := n) (catalog files) disk).containers c = some (.new ps) := by
    show (files c).map _ = _
    rw [hfile]
    rfl
  refine ⟨unused_empty rfl rfl (fun _ => ⟨rfl, rfl, rfl⟩) (fun _ => trivial), by rw [hct]; rfl, ?_⟩
  intro id p hp
  rw [contents_unmapped rfl, fileAt, containerOf, hct] at hp
  rw [PageStore.position_eq hlen]
  exact hp

/-! ### One call -/

theorem contents_setFrame_same {fr : BufferFrame} (h : fr.page = (s.frames i).page)
    (key : ContainerPageId) : (s.setFrame i fr).contents key = s.contents key := by
  cases hk : s.pageToFrame.lookup key with
  | none =>
    rw [contents_unmapped hk, contents_unmapped (s := s.setFrame i fr) hk]
    rfl
  | some j =>
    rw [contents_mapped hk, contents_mapped (s := s.setFrame i fr) hk]
    by_cases hj : j = i
    · rw [hj, setFrame_self, h]
    · rw [setFrame_ne _ _ _ hj]

namespace Backs

theorem of_same (h : s.Backs c ps) (hunused : t.Unused (fun _ => True))
    (hcount : (t.containers c).map (·.pageCount) = (s.containers c).map (·.pageCount))
    (hcontents : ∀ id, t.contents ⟨c, id⟩ = s.contents ⟨c, id⟩) : t.Backs c ps :=
  ⟨hunused, hcount.trans h.count, fun id p hp => h.page id p ((hcontents id).symm.trans hp)⟩

/-- The page in a frame is the one in the store. -/
theorem frame_page (h : s.Backs c ps) {id : PageId} (hi : s.pageToFrame.lookup ⟨c, id⟩ = some i) :
    ps[PageStore.position ps.length id]? = some (s.frames i).page :=
  h.page id _ (contents_mapped hi)

/-- The page in a frame is replaced. -/
theorem setFrame (h : s.Backs c ps) {id : PageId} (hi : s.pageToFrame.lookup ⟨c, id⟩ = some i)
    (fr : BufferFrame) :
    (s.setFrame i fr).Backs c (ps.set (PageStore.position ps.length id) fr.page) := by
  refine ⟨h.unused.setFrame (h.unused.notMem hi) fr, by rw [length_set]; exact h.count, ?_⟩
  intro id' p hp
  rw [length_set]
  by_cases hid : id' = id
  · rw [hid, contents_mapped (s := s.setFrame i fr) hi, setFrame_self] at hp
    obtain ⟨hlt, -⟩ := List.getElem?_eq_some_iff.mp (h.frame_page hi)
    rw [hid, getElem?_set_self hlt]
    exact hp
  · rw [getElem?_set_ne (fun heq => hid (PageStore.position_inj heq).symm)]
    refine h.page id' p (Eq.trans ?_ hp)
    cases hk : s.pageToFrame.lookup ⟨c, id'⟩ with
    | none => rw [contents_unmapped hk, contents_unmapped (s := s.setFrame i fr) hk]; rfl
    | some j =>
      have hji : j ≠ i := by
        rintro rfl
        exact hid (congrArg ContainerPageId.pageId (h.unused.inj _ _ j hk hi))
      rw [contents_mapped hk, contents_mapped (s := s.setFrame i fr) hk, setFrame_ne _ _ _ hji]

theorem setFrame_same (h : s.Backs c ps) {key : ContainerPageId}
    (hi : s.pageToFrame.lookup key = some i) {fr : BufferFrame} (hfr : fr.page = (s.frames i).page) :
    (s.setFrame i fr).Backs c ps :=
  h.of_same (h.unused.setFrame (h.unused.notMem hi) fr) rfl (fun _ => contents_setFrame_same hfr _)

theorem ensured (h : s.Backs c ps) (d : ContainerId) : (s.ensured d).containers c = s.containers c := by
  unfold BufferPool.ensured
  by_cases hd : c = d
  · obtain ⟨ct, hct, -⟩ := Option.map_eq_some_iff.mp h.count
    rw [← hd, setContainer_self, containerOf, hct]
    rfl
  · rw [setContainer_ne _ _ _ hd]

end Backs

/-- A page is put into a frame that was not used. -/
theorem Unused.obtained {B : Page → Prop} (hs : s.Unused B) (hi : i ∈ s.evictionHints)
    {key : ContainerPageId} (hmap : t.pageToFrame = s.pageToFrame.insert key i)
    (hframes : ∀ j, j ≠ i → t.frames j = s.frames j)
    (hfile : ∀ d, (t.containerOf d).file = (s.containerOf d).file) : Obtained s t key i := by
  refine ⟨by rw [hmap, AList.lookup_insert], fun k hk => by rw [hmap, AList.lookup_insert_ne hk],
    hframes, fun k hk => absurd hk (hs.unmapped i hi k), fun k => ?_⟩
  unfold fileAt
  rw [hfile]

/-- A request for a page leaves the pages as they are, except when its file cannot be read. -/
theorem getPage_backs (hn : n ≤ 2 ^ 32) (hs : s.Backs c ps)
    {try_ : BufferFrame → Option BufferFrame} {finish : BufferFrame → BufferFrame}
    {denied : MemPoolStatus} (htry : ∀ fr fr', try_ fr = some fr' → fr'.page = fr.page)
    (hfinish : ∀ fr, (finish fr).page = fr.page) (key : ContainerPageId) :
    Sat (getPage (grantLatch try_ denied) finish key) s
      (fun i t => t.Backs c ps ∧ t.pageToFrame.lookup key = some i)
      (fun e t => (∃ msg, e = .status (.baseFileError msg)) ∨ t.Backs c ps) := by
  have hsat : Sat (getPage (grantLatch try_ denied) finish key) s
      (fun i t => (t.containers c = s.containers c ∧ ∀ k, t.contents k = s.contents k) ∧
        t.pageToFrame.lookup key = some i)
      (fun e t => (∃ msg, e = .status (.baseFileError msg)) ∨ (t.containers c = s.containers c ∧
        ∀ k, t.contents k = s.contents k)) := by
    cases hkey : s.pageToFrame.lookup key with
    | some i =>
      unfold getPage
      refine Sat.bind (Sat.get ?_)
      rw [hkey]
      unfold grantLatch
      refine Sat.bind (Sat.get ?_)
      cases hfr : try_ (s.frames i) with
      | none => exact Sat.throw (.inr ⟨rfl, fun _ => rfl⟩)
      | some fr =>
        exact Sat.bind (Sat.modify (Sat.pure ⟨⟨rfl, contents_setFrame_same (htry _ _ hfr)⟩, hkey⟩))
    | none =>
      refine getPage_miss hn hs.unused hkey (fun _ => .inr ⟨rfl, fun _ => rfl⟩) (fun i rest hh => ?_)
      refine Sat.bind (readPage_sat (fun _ msg _ => .inl ⟨msg, rfl⟩) (fun p _ hp => ?_))
      refine Sat.bind (Sat.modify (Sat.bind (Sat.modify (Sat.pure ⟨⟨hs.ensured _, fun k => ?_⟩,
        AList.lookup_insert _⟩))))
      by_cases hk : k = key
      · rw [hk, contents_mapped (AList.lookup_insert _), contents_unmapped hkey, setFrame_self, hfinish,
          setFrame_self, setFrame_self]
        exact hp.symm
      · refine (hs.unused.obtained (hh ▸ mem_cons_self) rfl (fun j hj => ?_) (fun d => ?_)).contents hk
        · rw [setFrame_ne _ _ _ hj, setFrame_ne _ _ _ hj, setFrame_ne _ _ _ hj]
          exact setFrame_ne _ _ _ hj
        · exact congrArg Container.file (containerOf_ensured s key.cId d)
  refine (hsat.and (getPage_unused hn hs.unused key)).mono (fun i t ht => ?_) (fun e t ht => ?_)
  · exact ⟨hs.of_same ht.2 (congrArg _ ht.1.1.1) (fun _ => ht.1.1.2 _), ht.1.2⟩
  · exact ht.1.imp_right (fun h => hs.of_same ht.2 (congrArg _ h.1) (fun _ => h.2 _))

theorem getPageForWrite_backs (hn : n ≤ 2 ^ 32) (hs : s.Backs c ps) (key : ContainerPageId) :
    Sat (getPageForWrite key) s (fun i t => t.Backs c ps ∧ t.pageToFrame.lookup key = some i)
      (fun e t => (∃ msg, e = .status (.baseFileError msg)) ∨ t.Backs c ps) := by
  unfold getPageForWrite
  refine getPage_backs hn hs (fun fr fr' h => ?_) ?_ key
  · unfold BufferFrame.tryWrite at h
    split_ifs at h
    rw [← Option.some.inj h]
  · exact fun _ => rfl

theorem getPageForRead_backs (hn : n ≤ 2 ^ 32) (hs : s.Backs c ps) (key : ContainerPageId) :
    Sat (getPageForRead key) s (fun i t => t.Backs c ps ∧ t.pageToFrame.lookup key = some i)
      (fun e t => (∃ msg, e = .status (.baseFileError msg)) ∨ t.Backs c ps) := by
  unfold getPageForRead
  refine getPage_backs hn hs (fun fr fr' h => ?_) ?_ key
  · unfold BufferFrame.tryRead at h
    split_ifs at h
    rw [← Option.some.inj h]
  · exact fun _ => rfl

/-- The pages after one is put behind them. -/
theorem Backs.push (hs : s.Backs c ps) (hunused : t.Unused (fun _ => True))
    (hi : t.pageToFrame.lookup ⟨c, UInt32.ofNat ps.length⟩ = some i)
    (hcount : (t.containers c).map (·.pageCount) = some (UInt32.ofNat (ps.length + 1)))
    (hcontents : ∀ id, id ≠ UInt32.ofNat ps.length → t.contents ⟨c, id⟩ = s.contents ⟨c, id⟩) :
    t.Backs c (ps ++ [(t.frames i).page]) := by
  have hlen : (ps ++ [(t.frames i).page]).length = ps.length + 1 := by
    rw [length_append, length_singleton]
  refine ⟨hunused, by rw [hlen]; exact hcount, fun id p hp => ?_⟩
  rw [hlen, PageStore.position_succ]
  split_ifs with hid
  · rw [hid, contents_mapped hi] at hp
    rw [getElem?_concat_length]
    exact hp
  · rw [hcontents id hid] at hp
    have hpage := hs.page id p hp
    obtain ⟨hlt, -⟩ := List.getElem?_eq_some_iff.mp hpage
    rw [getElem?_append_left hlt]
    exact hpage

/-- A new page has the bytes of some frame, and is the last one. -/
theorem createNewPageForWrite_backs (hn : n ≤ 2 ^ 32) (hs : s.Backs c ps) :
    Sat (createNewPageForWrite c) s
      (fun i t => t.pageToFrame.lookup ⟨c, UInt32.ofNat ps.length⟩ = some i ∧
        ∃ frame : Page, (t.frames i).page = frame.setPageId (UInt32.ofNat ps.length) ∧
          t.Backs c (ps ++ [(t.frames i).page]))
      (fun e t => e = .panic ∨ t.Backs c ps) := by
  obtain ⟨ct, hct, hcount⟩ := Option.map_eq_some_iff.mp hs.count
  have hof : s.containerOf c = ct := by
    unfold containerOf
    rw [hct]
    rfl
  have hsat : Sat (createNewPageForWrite c) s
      (fun i t => t.pageToFrame.lookup ⟨c, UInt32.ofNat ps.length⟩ = some i ∧
        (∃ frame : Page, (t.frames i).page = frame.setPageId (UInt32.ofNat ps.length)) ∧
        (t.containers c).map (·.pageCount) = some (UInt32.ofNat (ps.length + 1)) ∧
        ∀ id, id ≠ UInt32.ofNat ps.length → t.contents ⟨c, id⟩ = s.contents ⟨c, id⟩)
      (fun e t => e = .panic ∨ t.Backs c ps) := by
    refine createNewPageForWrite_keyless hn hs.unused.keyless (fun _ _ _ _ => .inl rfl)
      (.inr (hs.of_same hs.unused.noHints rfl (fun _ => rfl))) (fun before i rest hh _ => ?_)
    have hid : ((s.latched i rest).containerOf c).pageCount = UInt32.ofNat ps.length := by
      rw [← hcount, ← hof]
      rfl
    unfold created
    rw [hid]
    refine ⟨AList.lookup_insert _, ⟨_, by rw [setFrame_self]; rfl⟩, ?_, fun id hne => ?_⟩
    · show (((s.latched i rest).setContainer c _).containers c).map _ = _
      rw [setContainer_self, UInt32.ofNat_add]
      rfl
    · have hne' : (⟨c, id⟩ : ContainerPageId) ≠ ⟨c, UInt32.ofNat ps.length⟩ :=
        fun heq => hne (congrArg ContainerPageId.pageId heq)
      refine (hs.unused.obtained (hh ▸ mem_append_right before mem_cons_self) rfl (fun j hj => ?_)
        (fun d => ?_)).contents hne'
      · rw [setFrame_ne _ _ _ hj]
        exact setFrame_ne _ _ _ hj
      · refine (congrArg Container.file (containerOf_setContainer (s.latched i rest) c _ d)).trans ?_
        split_ifs with hd
        · rw [hd]
          rfl
        · rfl
  refine (hsat.and (createNewPageForWrite_unused hn hs.unused c)).mono (fun i t ht => ?_)
    (fun e t ht => ht.1)
  obtain ⟨⟨hi, ⟨frame, hframe⟩, hcount', hcontents⟩, hunused, -⟩ := ht
  exact ⟨hi, frame, hframe, hs.push hunused hi hcount' hcontents⟩

/-- A request for a new page is refused, or the page is the last one. -/
theorem requestNew_backs (hn : n ≤ 2 ^ 32) (hs : s.Backs c ps) {f : Page → Checked Page}
    {a : Except MemPoolStatus PageId} (h : requestNew (createNewPageForWrite c) f s = (.ok a, t)) :
    (∃ e, a = .error e ∧ t.Backs c ps) ∨
      ∃ frame p : Page, f (frame.setPageId (UInt32.ofNat ps.length)) = .ok p ∧ a = .ok p.getPageId ∧
        t.Backs c (ps ++ [p]) := by
  have hsat := createNewPageForWrite_backs hn hs
  unfold requestNew at h
  split at h
  case h_1 i u hrun =>
    obtain ⟨hi, frame, hframe, hu⟩ := hsat.ok hrun
    split at h
    case h_1 p hf =>
      cases h
      rw [hframe] at hf
      have hset := hu.setFrame hi { u.frames i with page := p }
      rw [length_append, length_singleton, PageStore.position_last, set_append_right _ _ le_rfl,
        Nat.sub_self] at hset
      exact .inr ⟨frame, p, hf, rfl, hset⟩
    case h_2 => cases h
  case h_2 e u hrun =>
    cases h
    exact .inl ⟨e, rfl, (hsat.error hrun).resolve_left nofun⟩
  all_goals cases h

/-! ### The requests of an index -/

/-- A guard that an index gets or is refused. -/
theorem acquire_pool {x : PoolCall n (Fin n)} {id : PageId} (hx : Sat x s
      (fun i t => t.Backs c ps ∧ t.pageToFrame.lookup ⟨c, id⟩ = some i)
      (fun e t => (∃ msg, e = .status (.baseFileError msg)) ∨ t.Backs c ps)) (pool : Pool Page)
    (hpages : pool.pages = ps) :
    (∀ i, x s = .ok i t → t.Backs c ps ∧
      (pool.refuse pool.requests = none → pool.acquire id = (.ok (.ok ()), pool.tick))) ∧
    ∀ e, x s = .error (.status e) t → (∃ msg, e = .baseFileError msg) ∨ t.Backs c ps ∧
      (pool.refuse pool.requests = some e → pool.acquire id = (.ok (.error e), pool.tick)) := by
  unfold Pool.acquire
  refine ⟨fun i hi => ?_, fun e he => ?_⟩
  · obtain ⟨ht, hlook⟩ := hx.ok hi
    have hlt := (List.getElem?_eq_some_iff.mp (ht.frame_page hlook)).1
    have hle : id.toNat ≤ PageStore.position ps.length id := Nat.le_add_right _ _
    refine ⟨ht, fun hr => ?_⟩
    rw [hr, hpages]
    exact if_pos (hle.trans_lt hlt)
  · refine (hx.error he).imp (fun ⟨msg, hmsg⟩ => ⟨msg, Stop.status.inj hmsg⟩) (fun ht => ⟨ht, fun hr => ?_⟩)
    rw [hr]

/-- A page that an index makes or is refused. -/
theorem create_pool (hn : n ≤ 2 ^ 32) {pool : Pool Page} (hs : s.Backs c pool.pages)
    (hlen : pool.pages.length < Pool.maxPages) {a : Except MemPoolStatus PageId}
    (h : requestNew (createNewPageForWrite c) Page.initHeapPage s = (.ok a, t)) :
    ∃ (refused : Option MemPoolStatus) (frame : Page), pool.refuse pool.requests = refused →
      ∃ pool', pool.create frame.setPageId = (.ok a, pool') ∧ t.Backs c pool'.pages := by
  unfold Pool.create
  rcases requestNew_backs hn hs h with ⟨e, rfl, ht⟩ | ⟨frame, p, hf, rfl, ht⟩
  · refine ⟨some e, Page.new 0, fun hr => ⟨pool.tick, ?_, ht⟩⟩
    rw [hr]
  · refine ⟨none, frame, fun hr => ⟨{ pool.tick with pages := pool.pages ++ [p] }, ?_, ht⟩⟩
    rw [hr]
    dsimp only
    rw [if_pos hlen, show HeapPage.initHeapPage _ = _ from hf]
    rfl

end BufferPool

/-! ### Runs -/

/-- The call is about the container. -/
def MemOp.On (c : ContainerId) : MemOp → Prop
  | .getMaxPageId d | .createNewPageForWrite d | .createHeapPage d => d = c
  | .getPageForWrite key | .getPageForRead key | .dropWriteGuard key | .dropReadGuard key => key.cId = c
  | .addValue key _ | .getValue key _ | .updateValue key _ _ | .deleteValue key _ => key.cId = c
  | .getNumSlots key => key.cId = c

/-- The store answers a call as the pool does if it makes the same choice: whether it refuses the
request, and which frame it takes. -/
def PageStore.Answers (o : MemOp) (st : PageStore Page) (a : memInterface.Ans o) (st' : PageStore Page) :
    Prop :=
  st.requests ≤ st'.requests ∧ ∃ (refused : Option MemPoolStatus) (frame : Page),
    ∀ (refuse : ℕ → Option MemPoolStatus) (frames : ℕ → Page),
      (st.requests < st'.requests → refuse st.requests = refused ∧ frames st.requests = frame) →
      handlerOn (fun i => (frames i).setPageId) o { st with refuse := refuse } =
        (.ok a, { st' with refuse := refuse })

namespace PageStore.Answers

variable {o : MemOp} {st st' : PageStore Page} {a : memInterface.Ans o}

theorem quiet (hreq : st'.requests = st.requests) (h : ∀ refuse (frames : ℕ → Page),
    handlerOn (fun i => (frames i).setPageId) o { st with refuse := refuse } =
      (.ok a, { st' with refuse := refuse })) : Answers o st a st' :=
  ⟨hreq.ge, none, Page.new 0, fun refuse frames _ => h refuse frames⟩

theorem asks (refused : Option MemPoolStatus) (frame : Page) (hreq : st'.requests = st.requests + 1)
    (h : ∀ refuse (frames : ℕ → Page), refuse st.requests = refused → frames st.requests = frame →
      handlerOn (fun i => (frames i).setPageId) o { st with refuse := refuse } =
        (.ok a, { st' with refuse := refuse })) : Answers o st a st' :=
  ⟨by omega, refused, frame, fun refuse frames hchoice =>
    h refuse frames (hchoice (by omega)).1 (hchoice (by omega)).2⟩

end PageStore.Answers

namespace BufferPool

variable {n : ℕ} {s t : BufferPool n} {c : ContainerId} {st : PageStore Page} {α : Type}
  {key : ContainerPageId}

/-- A request that is granted. -/
theorem request_backs {x : PoolCall n (Fin n)} {E : Stop → BufferPool n → Prop}
    (hx : Sat x s (fun i t => t.Backs c (st.pages c) ∧ t.pageToFrame.lookup key = some i) E)
    (hc : key.cId = c) (h : request x s = (.ok (), t)) :
    t.Backs c (st.pages c) ∧ ∀ refuse, refuse st.requests = none →
      { st with refuse := refuse }.acquire key = (.ok (), { st.tick with refuse := refuse }) := by
  obtain ⟨d, id⟩ := key
  obtain rfl : d = c := hc
  unfold request at h
  split at h
  case h_1 i u hrun =>
    cases h
    obtain ⟨hu, hi⟩ := hx.ok hrun
    exact ⟨hu, fun refuse hr => PageStore.acquire_eq hr (hu.frame_page hi)⟩
  all_goals cases h

/-- A new page, or the refusal of one. -/
theorem create_store (hn : n ≤ 2 ^ 32) (hs : s.Backs c (st.pages c)) {f : Page → Checked Page}
    {a : Except MemPoolStatus PageId} (h : requestNew (createNewPageForWrite c) f s = (.ok a, t)) :
    ∃ (st' : PageStore Page) (refused : Option MemPoolStatus) (frame : Page),
      t.Backs c (st'.pages c) ∧ st'.requests = st.requests + 1 ∧
      ∀ refuse, refuse st.requests = refused →
        { st with refuse := refuse }.create frame.setPageId c f =
          (.ok a, { st' with refuse := refuse }) := by
  rcases requestNew_backs hn hs h with ⟨e, rfl, ht⟩ | ⟨frame, p, hf, rfl, ht⟩
  · exact ⟨st.tick, some e, Page.new 0, ht, rfl, fun refuse hr => PageStore.create_refused hr⟩
  · refine ⟨st.tick.setPages c (st.pages c ++ [p]), none, frame, ?_, rfl,
      fun refuse hr => PageStore.create_ok hr hf⟩
    show Backs c _ (Function.update st.pages c (st.pages c ++ [p]) c)
    rw [Function.update_self]
    exact ht

/-- An operation on a page that is held. -/
theorem onPage_backs (hs : s.Backs c (st.pages c)) (hc : key.cId = c)
    {f : Page → Checked (α × Page)} {a : α} (h : onPage key f s = (.ok a, t)) :
    ∃ p p', st.page? key = some p ∧ f p = .ok (a, p') ∧ t.Backs c ((st.setPage key p').pages c) ∧
      (p' = p → t.Backs c (st.pages c)) := by
  obtain ⟨d, id⟩ := key
  obtain rfl : d = c := hc
  unfold onPage at h
  split at h
  case h_1 => cases h
  case h_2 i hk =>
    obtain ⟨hi, -⟩ := held_eq_some.mp hk
    split at h
    case h_1 a' p' hf =>
      cases h
      refine ⟨_, p', hs.frame_page hi, hf, ?_, fun hp => hs.setFrame_same hi hp⟩
      show Backs d _ (Function.update st.pages d _ d)
      rw [Function.update_self]
      exact hs.setFrame hi _
    case h_2 => cases h

section

variable {o : MemOp} {a : memInterface.Ans o}

/-- A call that changes a page. -/
theorem change_backs (hs : s.Backs c (st.pages c)) (hc : key.cId = c)
    {f : Page → Checked (memInterface.Ans o × Page)}
    (ho : ∀ fresh st, PageStore.handlerOn fresh o st = st.changePage key f)
    (h : onPage key f s = (.ok a, t)) :
    ∃ st' : PageStore Page, t.Backs c (st'.pages c) ∧ PageStore.Answers o st a st' := by
  obtain ⟨p, p', hp, hf, ht, -⟩ := onPage_backs hs hc h
  refine ⟨st.setPage key p', ht, .quiet rfl (fun refuse frames => ?_)⟩
  rw [ho]
  exact PageStore.changePage_eq hp hf

/-- A call that reads a page. -/
theorem read_backs (hs : s.Backs c (st.pages c)) (hc : key.cId = c)
    {f : Page → Checked (memInterface.Ans o)}
    (ho : ∀ fresh st, PageStore.handlerOn fresh o st = st.onPage key f)
    (h : onPage key (keeps f) s = (.ok a, t)) :
    ∃ st' : PageStore Page, t.Backs c (st'.pages c) ∧ PageStore.Answers o st a st' := by
  obtain ⟨p, p', hp, hf, -, ht⟩ := onPage_backs hs hc h
  unfold keeps at hf
  cases hfp : f p with
  | error e =>
    rw [hfp] at hf
    cases hf
  | ok b =>
    rw [hfp] at hf
    cases hf
    refine ⟨st, ht rfl, .quiet rfl (fun refuse frames => ?_)⟩
    rw [ho]
    exact PageStore.onPage_eq hp hfp

end

theorem dropGuard_backs (hs : s.Backs c (st.pages c)) (h : dropGuard key s = (.ok (), t)) :
    t.Backs c (st.pages c) := by
  unfold dropGuard at h
  split at h
  case h_1 => cases h
  case h_2 i hk =>
    cases h
    refine hs.setFrame_same (held_eq_some.mp hk).1 ?_
    unfold BufferFrame.release
    split_ifs <;> rfl

/-- A call that the pool answers is answered by the store. -/
theorem mem_backs (hn : n ≤ 2 ^ 32) {o : MemOp} (ho : o.On c) (hs : s.Backs c (st.pages c))
    {a : memInterface.Ans o} (h : memHandler o s = (.ok a, t)) :
    ∃ st' : PageStore Page, t.Backs c (st'.pages c) ∧ PageStore.Answers o st a st' := by
  cases o with
  | getMaxPageId d =>
    obtain rfl : d = c := ho
    obtain ⟨ha, rfl⟩ := Prod.mk.inj h
    refine ⟨st, hs, .quiet rfl (fun refuse frames => ?_)⟩
    rw [← Except.ok.inj ha]
    exact congrArg (fun k => (Except.ok k, { st with refuse := refuse })) hs.count.symm
  | createNewPageForWrite d =>
    obtain rfl : d = c := ho
    have hcall : requestNew (BufferPool.createNewPageForWrite d) .ok s = (.ok a, t) := h
    obtain ⟨st', refused, frame, ht, hreq, hcreate⟩ := create_store hn hs hcall
    refine ⟨st', ht, .asks refused frame hreq (fun refuse frames hr hf => ?_)⟩
    rw [← hf] at hcreate
    exact hcreate refuse hr
  | createHeapPage d =>
    obtain rfl : d = c := ho
    have hcall : requestNew (BufferPool.createNewPageForWrite d) Page.initHeapPage s = (.ok a, t) := h
    obtain ⟨st', refused, frame, ht, hreq, hcreate⟩ := create_store hn hs hcall
    refine ⟨st', ht, .asks refused frame hreq (fun refuse frames hr hf => ?_)⟩
    rw [← hf] at hcreate
    exact hcreate refuse hr
  | getPageForWrite key =>
    have hcall : request (BufferPool.getPageForWrite key) s = (.ok (), t) := h
    obtain ⟨ht, hacquire⟩ := request_backs (getPageForWrite_backs hn hs key) ho hcall
    exact ⟨st.tick, ht, .asks none (Page.new 0) rfl (fun refuse _ hr _ => hacquire refuse hr)⟩
  | getPageForRead key =>
    have hcall : request (BufferPool.getPageForRead key) s = (.ok (), t) := h
    obtain ⟨ht, hacquire⟩ := request_backs (getPageForRead_backs hn hs key) ho hcall
    exact ⟨st.tick, ht, .asks none (Page.new 0) rfl (fun refuse _ hr _ => hacquire refuse hr)⟩
  | dropWriteGuard key => exact ⟨st, dropGuard_backs hs h, .quiet rfl (fun _ _ => rfl)⟩
  | dropReadGuard key => exact ⟨st, dropGuard_backs hs h, .quiet rfl (fun _ _ => rfl)⟩
  | addValue key bytes => exact change_backs hs ho (fun _ _ => rfl) h
  | updateValue key slotId bytes => exact change_backs hs ho (fun _ _ => rfl) h
  | deleteValue key slotId => exact change_backs hs ho (fun _ _ => rfl) h
  | getValue key slotId => exact read_backs hs ho (fun _ _ => rfl) h
  | getNumSlots key => exact read_backs (f := Page.getNumSlots) hs ho (fun _ _ => rfl) h

/-- A call of the pool fails by a panic, or does not return. -/
theorem mem_error {o : MemOp} {e : CrustyError} (h : memHandler o s = (.error e, t)) :
    e.IsPanic ∨ e = .diverges := by
  cases o <;> simp only [memHandler, requestNew, request, dropGuard, onPage] at h
  all_goals
    repeat' split at h
    all_goals
      cases h
      try first | exact .inl ⟨_, rfl⟩ | exact .inr rfl

/-- A run on the pool that does not panic is a run on the store, if the store makes the same choices
from the next request on. -/
theorem run_backs (hn : n ≤ 2 ^ 32) {x : HeapProg α} (hx : Uses (fun _ _ => True) (MemOp.On c) x)
    (hs : s.Backs c (st.pages c)) {r : Except CrustyError α} (h : run memHandler x s = (r, t))
    (hr : ∀ e, r = .error e → ¬ e.IsPanic ∧ e ≠ .diverges) :
    ∃ (st' : PageStore Page) (refuse₀ : ℕ → Option MemPoolStatus) (frames₀ : ℕ → Page),
      t.Backs c (st'.pages c) ∧ ∀ refuse frames,
        (∀ i, st.requests ≤ i → refuse i = refuse₀ i ∧ frames i = frames₀ i) →
        PageStore.execOn frames x { st with refuse := refuse } = (r, { st' with refuse := refuse }) := by
  induction x generalizing s st with
  | ret a =>
    obtain ⟨rfl, rfl⟩ := Prod.mk.inj h
    exact ⟨st, fun _ => none, fun _ => Page.new 0, hs, fun _ _ _ => rfl⟩
  | fail e =>
    obtain ⟨rfl, rfl⟩ := Prod.mk.inj h
    exact ⟨st, fun _ => none, fun _ => Page.new 0, hs, fun _ _ _ => rfl⟩
  | call o k ih =>
    rw [run] at h
    rcases ho : memHandler o s with ⟨⟨e⟩ | ⟨a⟩, u⟩
    · rw [ho] at h
      obtain ⟨rfl, rfl⟩ := Prod.mk.inj h
      obtain ⟨hpanic, hdiverges⟩ := hr e rfl
      exact absurd (mem_error ho) (not_or.mpr ⟨hpanic, hdiverges⟩)
    · rw [ho] at h
      obtain ⟨st₁, hu, hle, refused, frame, hanswer⟩ := mem_backs hn hx.1 hs ho
      obtain ⟨st', refuse', frames', ht, hrest⟩ := ih a (hx.2 a trivial) hu h
      refine ⟨st', fun i => if i < st₁.requests then refused else refuse' i,
        fun i => if i < st₁.requests then frame else frames' i, ht, fun refuse frames hchoice => ?_⟩
      have hcall := hanswer refuse frames (fun hlt => by
        obtain ⟨h₁, h₂⟩ := hchoice st.requests le_rfl
        exact ⟨h₁.trans (if_pos hlt), h₂.trans (if_pos hlt)⟩)
      unfold PageStore.execOn
      rw [run, hcall]
      refine hrest refuse frames (fun i hi => ?_)
      obtain ⟨h₁, h₂⟩ := hchoice i (hle.trans hi)
      exact ⟨h₁.trans (if_neg (Nat.not_lt.mpr hi)), h₂.trans (if_neg (Nat.not_lt.mpr hi))⟩

end BufferPool

/-! ### The calls of a heap file -/

section HeapFile

variable (c : ContainerId)

/-- The program calls the pool only about the container. -/
abbrev OnlyOn {α : Type} (x : HeapProg α) : Prop := Uses (fun _ _ => True) (MemOp.On c) x

theorem numPages_onlyOn : OnlyOn c (HeapFile.numPages c) := .bind (.op rfl) (fun _ => trivial)

theorem tryPages_onlyOn (v : List UInt8) (ids : List PageId) : OnlyOn c (HeapFile.tryPages c v ids) := by
  induction ids with
  | nil => exact trivial
  | cons id ids ih =>
    refine .bind (.op rfl) (fun _ => .bind (.op rfl) (fun r => .bind (.op rfl) (fun _ => ?_)))
    cases r with
    | none => exact ih
    | some slotId => exact trivial

theorem addVal_onlyOn (v : List UInt8) : OnlyOn c (HeapFile.addVal c v) := by
  refine .bind (numPages_onlyOn c) (fun k => .bind (tryPages_onlyOn c v _) (fun r => ?_))
  cases r with
  | some id => exact trivial
  | none =>
    refine .bind (.op rfl) (fun r => ?_)
    cases r with
    | error e => exact trivial
    | ok id =>
      refine .bind (.op rfl) (fun r => .bind (.op rfl) (fun _ => ?_))
      cases r <;> exact trivial

theorem prog_onlyOn (op : FileOp) : OnlyOn c (op.prog c) := by
  cases op with
  | addVal v => exact .bind (addVal_onlyOn c v) (fun _ => trivial)
  | getVal p slotId | deleteVal p slotId =>
    refine .bind (.bind (numPages_onlyOn c) (fun k => ?_)) (fun _ => trivial)
    split_ifs
    · exact trivial
    · refine .bind (.op rfl) (fun _ => .bind (.op rfl) (fun r => .bind (.op rfl) (fun _ => ?_)))
      cases r <;> exact trivial
  | updateVal p slotId v =>
    refine .bind (.bind (numPages_onlyOn c) (fun k => ?_)) (fun _ => trivial)
    split_ifs
    · exact trivial
    · refine .bind (.op rfl) (fun _ => .bind (.op rfl) (fun r => ?_))
      cases r with
      | some u => exact .bind (.op rfl) (fun _ => trivial)
      | none =>
        refine .bind (.op rfl) (fun r => ?_)
        cases r with
        | none => exact .bind (.op rfl) (fun _ => trivial)
        | some old =>
          refine .bind (.op rfl) (fun u => .bind (.op rfl) (fun _ => ?_))
          cases u with
          | none => exact trivial
          | some u => exact addVal_onlyOn c v

variable {c}

/-- A call of a heap file on a pool that does not panic is a call on the store of the pages, which
refuses the requests that the pool refuses and takes the frames that the pool takes. -/
theorem run_store {n : ℕ} (hn : n ≤ 2 ^ 32) {s t : BufferPool n} {st : PageStore Page}
    (hs : s.Backs c (st.pages c)) (op : FileOp) {r : Except CrustyError FileAnswer}
    (h : run BufferPool.memHandler (op.prog c) s = (r, t))
    (hr : ∀ e, r = .error e → ¬ e.IsPanic ∧ e ≠ .diverges) :
    ∃ refuse frames st', PageStore.execOn frames (op.prog c) { st with refuse := refuse } = (r, st') ∧
      t.Backs c (st'.pages c) := by
  obtain ⟨st', refuse, frames, ht, hrun⟩ := BufferPool.run_backs hn (prog_onlyOn c op) hs h hr
  exact ⟨refuse, frames, _, hrun refuse frames (fun _ _ => ⟨rfl, rfl⟩), ht⟩

end HeapFile

end CrustyDB
