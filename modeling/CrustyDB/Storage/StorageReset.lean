import CrustyDB.Pool.PoolAlike
import CrustyDB.Pool.FreeFrames
import CrustyDB.Heap.PageStore

/-! # What a reset of the storage manager leaves behind

A reset empties the map of the pool, the catalog and the table of heap files, but not the frames.
`reset_like_new` says that nothing else is left of the history: when every frame is blank at the
reset, the manager is not told from a new one by any later calls on tables and records.
`reset_leaks` is a history that leaves a page with a record in a frame: the next table that gets the
frame has the record.

Pages are alike when both are blank or both spell the same contents (`PageAlike`).  The operations
of a heap file do not tell such pages apart, and neither does the pool, so two pools with frames that
are alike are twins to every call (`mem_alike`). -/

namespace CrustyDB

open Stateful Program Simulation Page List

/-! ### Pages that a heap file cannot tell apart -/

namespace Page

variable {p : Page}

theorem setPageId_rep {d : SlotDir} (h : Rep p d) (id : PageId) :
    Rep (p.setPageId id) { d with pageId := id } := by
  refine ⟨getPageId_setPageId p id, ?_, ?_, ?_, ?_, h.header_le, fun i s hs => ?_, h.above,
    fun i s hi hs hne => ?_, fun i s hi hs hne => ?_⟩
  · rw [cell_setPageId]
    exact h.numSlots
  · rw [cell_setPageId]
    exact h.fsp
  · rw [cell_setPageId]
    exact h.deletedBytes
  · rw [cell_setPageId]
    exact h.deletedSlots
  · rw [cell_setPageId]
    exact h.length i s hs
  · rw [cell_setPageId]
    exact h.offset i s hi hs hne
  · obtain ⟨habove, -⟩ := h.above i s hi hs hne
    unfold SlotDir.headerSize Page.headerStart at habove
    unfold setPageId
    rw [slice_put_disjoint _ _ _ (Or.inr (by
      rw [ByteBuffer.leBytes_length]
      simp only [pageIdSize, pageFixedHeaderLen] at habove ⊢
      omega))]
    exact h.value i s hi hs hne

end Page

/-- Both pages are blank, or both spell the same. -/
def PageAlike (p q : Page) : Prop :=
  (p.Blank ∧ q.Blank) ∨ ∃ f : FilePage, f.SpelledBy p ∧ f.SpelledBy q

theorem pageKind_alike : PageKind PageAlike := by
  refine ⟨fun p => .inr ⟨.raw p, .raw, .raw⟩, fun p q id h => ?_⟩
  rcases h with ⟨hp, hq⟩ | ⟨f, hp, hq⟩
  · exact .inl ⟨hp.setPageId id, hq.setPageId id⟩
  · cases f with
    | blank pageId =>
      cases hp with
      | blank hp =>
        generalize hid : p.getPageId = k at hq
        cases hq with
        | blank hq => exact .inl ⟨hp.setPageId id, hq.setPageId id⟩
    | heap d =>
      cases hp with
      | heap hp =>
        cases hq with
        | heap hq =>
          have hw : SlotDir.WF { d with pageId := id } :=
            ⟨hp.2.header_le, hp.2.fsp_le, hp.2.inside, hp.2.apart, hp.2.account, hp.2.deleted_le⟩
          exact .inr ⟨.heap { d with pageId := id }, .heap ⟨setPageId_rep hp.1 id, hw⟩,
            .heap ⟨setPageId_rep hq.1 id, hw⟩⟩
    | raw r =>
      cases hp
      cases hq
      exact .inr ⟨_, .raw, .raw⟩

/-- An operation does the same on pages that are alike. -/
def OpAlike {α : Type} (f : Page → Checked (α × Page)) : Prop :=
  ∀ p q, PageAlike p q → Agree (fun a b => a.1 = b.1 ∧ PageAlike a.2 b.2) (f p) (f q)

section Operations

variable {α : Type}

/-- An operation on what two pages spell. -/
theorem spelled_join {x y : Checked (α × Page)} {z : Checked (α × FilePage)}
    (hx : Agree (fun a b => a.1 = b.1 ∧ b.2.SpelledBy a.2) x z)
    (hy : Agree (fun a b => a.1 = b.1 ∧ b.2.SpelledBy a.2) y z) :
    Agree (fun a b => a.1 = b.1 ∧ PageAlike a.2 b.2) x y :=
  (hx.join hy).mono (fun _ _ ⟨c, ⟨hac, hc⟩, hbc, hc'⟩ => ⟨hac.trans hbc.symm, .inr ⟨c.2, hc, hc'⟩⟩)

theorem addValue_alike (bytes : List UInt8) : OpAlike (fun p => p.addValue bytes) := by
  rintro p q (⟨hp, hq⟩ | ⟨f, hp, hq⟩)
  · dsimp only
    rw [hp.addValue, hq.addValue]
    exact .error _
  · exact spelled_join (hp.addValue bytes) (hq.addValue bytes)

theorem updateValue_alike (slotId : SlotId) (bytes : List UInt8) :
    OpAlike (fun p => p.updateValue slotId bytes) := by
  rintro p q (⟨hp, hq⟩ | ⟨f, hp, hq⟩)
  · dsimp only
    rw [hp.updateValue, hq.updateValue]
    exact .ok ⟨rfl, .inl ⟨hp, hq⟩⟩
  · exact spelled_join (hp.updateValue slotId bytes) (hq.updateValue slotId bytes)

theorem deleteValue_alike (slotId : SlotId) : OpAlike (fun p => p.deleteValue slotId) := by
  rintro p q (⟨hp, hq⟩ | ⟨f, hp, hq⟩)
  · dsimp only
    rw [hp.deleteValue, hq.deleteValue]
    exact .ok ⟨rfl, .inl ⟨hp, hq⟩⟩
  · exact spelled_join (hp.deleteValue slotId) (hq.deleteValue slotId)

theorem keeps_alike {f : Page → Checked α} (hf : ∀ p q, PageAlike p q → f p = f q) :
    OpAlike (BufferPool.keeps f) := by
  intro p q hpq
  unfold BufferPool.keeps
  rw [hf p q hpq]
  cases f q with
  | ok a => exact .ok ⟨rfl, hpq⟩
  | error e => exact .error e

theorem getValue_alike (slotId : SlotId) : OpAlike (BufferPool.keeps fun p => p.getValue slotId) := by
  refine keeps_alike ?_
  rintro p q (⟨hp, hq⟩ | ⟨f, hp, hq⟩)
  · rw [hp.getValue, hq.getValue]
  · exact (hp.getValue slotId).trans (hq.getValue slotId).symm

theorem getNumSlots_alike : OpAlike (BufferPool.keeps Page.getNumSlots) := by
  refine keeps_alike ?_
  rintro p q (⟨hp, hq⟩ | ⟨f, hp, hq⟩)
  · rw [hp.getNumSlots, hq.getNumSlots]
  · exact hp.getNumSlots.trans hq.getNumSlots.symm

end Operations

/-! ### Heap files on pools that are alike -/

/-- Two pools that heap files cannot tell apart. -/
structure Twins {n : ℕ} (s t : BufferPool n) : Prop where
  alike : PoolAlike PageAlike s t
  left : s.Unused Page.Blank
  right : t.Unused Page.Blank

theorem FrameAlike.release {P : Page → Page → Prop} {fr gr : BufferFrame} (h : FrameAlike P fr gr) :
    FrameAlike P fr.release gr.release := by
  unfold BufferFrame.release
  rw [h.cnt]
  split_ifs
  · exact ⟨h.key, h.isDirty, rfl, h.page⟩
  · exact ⟨h.key, h.isDirty, congrArg (· - 1) h.cnt, h.page⟩

/-- The same answer, and pools that are alike. -/
abbrev Answers {n : ℕ} {α : Type} (r r' : Except CrustyError α × BufferPool n) : Prop :=
  r.1 = r'.1 ∧ PoolAlike PageAlike r.2 r'.2

section Calls

variable {n : ℕ} {s t : BufferPool n}

open BufferPool

theorem held_alike (h : PoolAlike PageAlike s t) (key : ContainerPageId) : s.held key = t.held key := by
  unfold held
  rw [h.pageToFrame]
  cases t.pageToFrame.lookup key with
  | none => rfl
  | some i =>
    dsimp only
    rw [(h.frames i).cnt]

theorem onPage_alike {α : Type} {f : Page → Checked (α × Page)} (hf : OpAlike f)
    (h : PoolAlike PageAlike s t) (key : ContainerPageId) : Answers (onPage key f s) (onPage key f t) := by
  unfold onPage
  rw [← held_alike h]
  cases hk : s.held key with
  | none => exact ⟨rfl, h⟩
  | some i =>
    have hfr := h.frames i
    have hagree := hf _ _ hfr.page
    dsimp only
    generalize f (s.frames i).page = x at hagree ⊢
    generalize f (t.frames i).page = y at hagree ⊢
    cases hagree with
    | ok hab =>
      exact ⟨congrArg Except.ok hab.1, h.setFrame i ⟨hfr.key, hfr.isDirty, hfr.cnt, hab.2⟩⟩
    | error e => exact ⟨rfl, h.setFrame i hfr.release⟩

theorem dropGuard_alike (h : PoolAlike PageAlike s t) (key : ContainerPageId) :
    Answers (dropGuard key s) (dropGuard key t) := by
  unfold dropGuard
  rw [← held_alike h]
  cases hk : s.held key with
  | none => exact ⟨rfl, h⟩
  | some i => exact ⟨rfl, h.setFrame i (h.frames i).release⟩

theorem request_alike {x : PoolCall n (Fin n)} (hx : Alike Eq (PoolAlike PageAlike) x x s t) :
    Answers (request x s) (request x t) := by
  unfold request
  rcases hx.outcomes with ⟨i, j, u, v, hxs, hxt, -, huv⟩ | ⟨e, u, v, hxs, hxt, huv⟩
  · rw [hxs, hxt]
    exact ⟨rfl, huv⟩
  · rw [hxs, hxt]
    cases e <;> exact ⟨rfl, huv⟩

/-- What is done to a new page is the same on every blank page with the same id. -/
def NewAlike (f : Page → Checked Page) : Prop :=
  ∀ (p q : Page) (id : PageId), p.Blank → q.Blank →
    Agree (fun p' q' => PageAlike p' q' ∧ p'.getPageId = q'.getPageId) (f (p.setPageId id))
      (f (q.setPageId id))

theorem newAlike_ok : NewAlike .ok := by
  intro p q id hp hq
  refine .ok ⟨.inl ⟨hp.setPageId id, hq.setPageId id⟩, ?_⟩
  rw [getPageId_setPageId, getPageId_setPageId]

theorem newAlike_initHeapPage : NewAlike Page.initHeapPage := by
  intro p q id hp hq
  obtain ⟨p', hp', hrep⟩ := (hp.setPageId id).initHeapPage
  obtain ⟨q', hq', hrep'⟩ := (hq.setPageId id).initHeapPage
  rw [getPageId_setPageId] at hrep hrep'
  rw [hp', hq']
  refine .ok ⟨.inr ⟨.heap (.empty id), .heap ⟨hrep, SlotDir.empty_wf id⟩,
    .heap ⟨hrep', SlotDir.empty_wf id⟩⟩, ?_⟩
  rw [hrep.pageId, hrep'.pageId]

theorem requestNew_alike (hn : n ≤ 2 ^ 32) (h : Twins s t) {f : Page → Checked Page}
    (hf : NewAlike f) (c : ContainerId) :
    Answers (requestNew (createNewPageForWrite c) f s) (requestNew (createNewPageForWrite c) f t) := by
  have hx := PoolAlike.createNewPageForWrite_alike pageKind_alike h.alike c
  have hs := createNewPageForWrite_unused hn h.left c
  have ht := createNewPageForWrite_unused hn h.right c
  unfold requestNew
  rcases hx.outcomes with ⟨i, j, u, v, hxs, hxt, rfl, huv⟩ | ⟨e, u, v, hxs, hxt, huv⟩
  · obtain ⟨-, -, p, key, hp, hkey, hpage⟩ := hs.ok hxs
    obtain ⟨-, -, q, key', hq, hkey', hpage'⟩ := ht.ok hxt
    have hfr := huv.frames i
    have hsame : key = key' := by
      rw [hfr.key, hkey'] at hkey
      exact (Option.some.inj hkey).symm
    have hagree := hf p q key.pageId hp hq
    rw [hxs, hxt]
    dsimp only
    rw [hpage, hpage', ← hsame]
    generalize f (p.setPageId key.pageId) = x at hagree ⊢
    generalize f (q.setPageId key.pageId) = y at hagree ⊢
    cases hagree with
    | ok hab =>
      exact ⟨congrArg (fun id => Except.ok (Except.ok id)) hab.2,
        huv.setFrame i ⟨hfr.key, hfr.isDirty, hfr.cnt, hab.1⟩⟩
    | error e => exact ⟨rfl, huv.setFrame i hfr.release⟩
  · rw [hxs, hxt]
    cases e <;> exact ⟨rfl, huv⟩

/-- Every call of a heap file gets the same answer. -/
theorem mem_alike (hn : n ≤ 2 ^ 32) (o : MemOp) (h : Twins s t) :
    Answers (memHandler o s) (memHandler o t) := by
  cases o with
  | getMaxPageId c =>
    refine ⟨?_, h.alike⟩
    have hc := h.alike.containers c
    show Except.ok ((s.containers c).map (·.pageCount)) = Except.ok ((t.containers c).map (·.pageCount))
    generalize s.containers c = a at hc ⊢
    generalize t.containers c = b at hc ⊢
    cases hc with
    | none => rfl
    | some hab => exact congrArg (fun k => Except.ok (some k)) hab.pageCount
  | createNewPageForWrite c => exact requestNew_alike hn h newAlike_ok c
  | createHeapPage c => exact requestNew_alike hn h newAlike_initHeapPage c
  | getPageForWrite key =>
    exact request_alike (PoolAlike.getPageForWrite_alike pageKind_alike h.alike key)
  | getPageForRead key =>
    exact request_alike (PoolAlike.getPageForRead_alike pageKind_alike h.alike key)
  | dropWriteGuard key => exact dropGuard_alike h.alike key
  | dropReadGuard key => exact dropGuard_alike h.alike key
  | addValue key bytes => exact onPage_alike (addValue_alike bytes) h.alike key
  | getValue key slotId => exact onPage_alike (getValue_alike slotId) h.alike key
  | updateValue key slotId bytes => exact onPage_alike (updateValue_alike slotId bytes) h.alike key
  | deleteValue key slotId => exact onPage_alike (deleteValue_alike slotId) h.alike key
  | getNumSlots key => exact onPage_alike getNumSlots_alike h.alike key

end Calls

/-! ### The manager -/

namespace StorageManager

variable {n : ℕ} {α : Type}

/-- A program does the same on managers with twin pools, whatever it returns. -/
theorem onPool_alike (hn : n ≤ 2 ^ 32) (x : HeapProg α) :
    CallFollows (n := n) Twins (onPool x) :=
  onPool_follows (fun _ _ => run_agree (fun o s t h => ⟨(mem_alike hn o h).1, (mem_alike hn o h).2,
    BufferPool.mem_unused hn o s h.left, BufferPool.mem_unused hn o t h.right⟩) x)

theorem execAll_alike (hn : n ≤ 2 ^ 32) (ops : List StorageOp) (hops : ∀ op ∈ ops, op.Plain)
    {s t : StorageManager n} (h : Related Twins s t) : (execAll ops s).1 = (execAll ops t).1 :=
  execAll_follows (fun op hop => exec_follows (onPool_alike hn) (hops op hop)) h

end StorageManager

/-! ### The reset -/

namespace BufferPool

variable {n : ℕ}

/-- The pool after a reset. -/
def cleared (s : BufferPool n) : BufferPool n :=
  { s with
    frames := fun i => (s.frames i).clear
    pageToFrame := ∅
    evictionHints := List.finRange n }

/-- The pool when a reset has cleared some of its frames. -/
def clearedTo (s : BufferPool n) (done : List (Fin n)) : BufferPool n := s.mapFrames done .clear

/-- A reset returns when no frame is latched. -/
theorem reset_sat (s : BufferPool n) :
    Sat reset s (fun _ t => t = s.cleared ∧ ∀ i, (s.frames i).cnt = 0)
      (fun e t => e = .blocks ∧ (∃ i, (s.frames i).cnt ≠ 0) ∧ ∃ done, t = s.clearedTo done) := by
  unfold reset forFrames
  refine Sat.bind ((Sat.forM_done (I := fun done t =>
    t = s.clearedTo done ∧ ∀ i ∈ done, (s.frames i).cnt = 0) (List.finRange n)
      ⟨rfl, fun i hi => absurd hi not_mem_nil⟩ ?_).mono (fun _ t ht => ?_) (fun _ _ h => h))
  · rintro done i rest - t ⟨rfl, hdone⟩
    refine Sat.bind (Sat.get ?_)
    have hcnt : (if i ∈ done then (s.frames i).clear else s.frames i).cnt = (s.frames i).cnt := by
      split_ifs <;> rfl
    unfold clearedTo mapFrames
    dsimp only
    rw [hcnt]
    split_ifs with hi
    · refine Sat.modify ⟨?_, fun j hj => ?_⟩
      · unfold setFrame
        congr 1
        funext j
        by_cases hj : j = i
        · rw [hj, Function.update_self, if_pos (mem_append_right _ mem_cons_self)]
          dsimp only
          split_ifs <;> rfl
        · rw [Function.update_of_ne hj]
          simp only [mem_append, mem_singleton, hj, or_false]
      · rcases mem_append.mp hj with hj | hj
        · exact hdone j hj
        · rw [mem_singleton.mp hj]
          exact hi
    · exact Sat.throw ⟨rfl, ⟨i, hi⟩, done, rfl⟩
  · obtain ⟨rfl, hall⟩ := ht
    refine Sat.modify ⟨?_, fun i => hall i (mem_finRange i)⟩
    unfold cleared
    congr 1
    funext i
    exact if_pos (mem_finRange i)

end BufferPool

/-- The disk as it will behave after some accesses. -/
def Disk.after (d : Disk) (k : ℕ) : Disk := ⟨fun i => d.fault (k + i), fun i => d.osError (k + i)⟩

variable {n : ℕ}

/-- A cleared cache: no page in the pool, and the rest as it was. -/
theorem StorageManager.clearCache_ok {s s' : StorageManager n} (h : s.clearCache = (.ok (), s')) :
    s' = { s with bp := s.bp.cleared } ∧ ∀ i, (s.bp.frames i).cnt = 0 := by
  have hsat := BufferPool.reset_sat s.bp
  unfold clearCache onFrames at h
  cases hr : BufferPool.reset s.bp with
  | ok _ t =>
    obtain ⟨rfl, hcnt⟩ := hsat.ok hr
    rw [hr] at h
    exact ⟨(Prod.mk.inj h).2.symm, hcnt⟩
  | error e t =>
    obtain ⟨rfl, -⟩ := hsat.error hr
    rw [hr] at h
    cases (Prod.mk.inj h).1

/-- A reset that returns leaves a manager as a new one, but for the pages in the frames. -/
theorem StorageManager.reset_ok {s s' : StorageManager n} (h : s.reset = (.ok (), s')) :
    s' = ⟨{ s.bp.cleared with containers := fun _ => none }, ∅, false⟩ ∧
      ∀ i, (s.bp.frames i).cnt = 0 := by
  unfold reset at h
  cases hp : s.poisoned with
  | true =>
    rw [hp] at h
    cases (Prod.mk.inj h).1
  | false =>
    rw [hp] at h
    dsimp only at h
    rcases hr : onFrames BufferPool.reset ⟨s.bp, ∅, false⟩ with ⟨⟨e⟩ | ⟨u⟩, t⟩
    · rw [hr] at h
      cases (Prod.mk.inj h).1
    · obtain ⟨rfl, hcnt⟩ := clearCache_ok hr
      rw [hr] at h
      refine ⟨?_, hcnt⟩
      rw [← (Prod.mk.inj h).2]

theorem twins_cleared (s : BufferPool n) (hcnt : ∀ i, (s.frames i).cnt = 0)
    (hblank : ∀ i, (s.frames i).page.Blank) : Twins { s.cleared with containers := fun _ => none }
      (.new (fun _ => none) (s.disk.after s.accesses)) := by
  refine ⟨⟨fun i => ?_, rfl, rfl, fun c => .none, fun k => ?_, fun k => ?_⟩, ?_, ?_⟩
  · exact ⟨rfl, rfl, hcnt i, .inl ⟨hblank i, new_blank 0⟩⟩
  · show s.disk.fault (s.accesses + k) = s.disk.fault (s.accesses + (0 + k))
    rw [Nat.zero_add]
  · show s.disk.osError (s.accesses + k) = s.disk.osError (s.accesses + (0 + k))
    rw [Nat.zero_add]
  · exact BufferPool.unused_empty rfl rfl (fun i => ⟨rfl, rfl, hcnt i⟩) hblank
  · exact BufferPool.unused_empty rfl rfl (fun i => ⟨rfl, rfl, rfl⟩) (fun _ => new_blank 0)

theorem StorageManager.new_empty (disk : Disk) :
    StorageManager.new (n := n) ∅ (fun _ => []) disk = ⟨.new (fun _ => none) disk, ∅, false⟩ := by
  unfold StorageManager.new
  simp only [Finset.notMem_empty, if_false]

/-- After a reset that finds every frame blank, whatever the history, no later calls on tables and
records tell the manager from a new one on a disk that behaves in the same way from then on. -/
theorem reset_like_new (s s' : StorageManager bpFrames) (hreset : s.reset = (.ok (), s'))
    (hblank : ∀ i, (s.bp.frames i).page.Blank) (ops : List StorageOp) (hops : ∀ op ∈ ops, op.Plain) :
    (StorageManager.execAll ops s').1 =
      (StorageManager.execAll (n := bpFrames) ops
        (.new ∅ (fun _ => []) (s.bp.disk.after s.bp.accesses))).1 := by
  obtain ⟨rfl, hcnt⟩ := StorageManager.reset_ok hreset
  rw [StorageManager.new_empty]
  exact StorageManager.execAll_alike (by decide) ops hops ⟨twins_cleared s.bp hcnt hblank, rfl, rfl⟩

/-! ### A reset with a record in a frame -/

namespace StorageManager

variable {n : ℕ} {s : StorageManager n} {c : ContainerId}

theorem execAll_cons {op : StorageOp} {a : Except CrustyError StorageAnswer} {s' : StorageManager n}
    (h : exec op s = (a, s')) (ops : List StorageOp) :
    execAll (op :: ops) s = (a :: (execAll ops s').1, (execAll ops s').2) := by
  rw [execAll, h]

theorem exec_createTable (hp : s.poisoned = false) (hc : c ∉ s.heapfiles) {bp : BufferPool n}
    (hrun : run BufferPool.memHandler (HeapFile.new c) s.bp = (.ok (), bp)) :
    exec (.createTable c) s = (.ok .done, ⟨bp, insert c s.heapfiles, false⟩) := by
  have hcreate : createTable c s = (.ok (), ⟨bp, insert c s.heapfiles, false⟩) := by
    unfold createTable createContainer onPool
    rw [hp, if_neg (by exact Bool.false_ne_true), if_neg hc, hrun]
  show ((createTable c s).1.map (fun _ => StorageAnswer.done), (createTable c s).2) = _
  rw [hcreate]
  rfl

theorem onFile_eq {α : Type} (hp : s.poisoned = false) (hc : c ∈ s.heapfiles) (x : HeapProg α) :
    s.onFile c x = s.onPool x := by
  unfold onFile getHeapfile
  rw [hp, if_neg (by exact Bool.false_ne_true), if_pos hc]

theorem clearCache_eq (hcnt : ∀ i, (s.bp.frames i).cnt = 0) :
    s.clearCache = (.ok (), { s with bp := s.bp.cleared }) := by
  have hsat := BufferPool.reset_sat s.bp
  unfold clearCache onFrames
  cases hr : BufferPool.reset s.bp with
  | ok _ t =>
    obtain ⟨rfl, -⟩ := hsat.ok hr
    rfl
  | error e t =>
    obtain ⟨-, ⟨i, hi⟩, -⟩ := hsat.error hr
    exact absurd (hcnt i) hi

theorem reset_eq (hp : s.poisoned = false) (hcnt : ∀ i, (s.bp.frames i).cnt = 0) :
    s.reset = (.ok (), ⟨{ s.bp.cleared with containers := fun _ => none }, ∅, false⟩) := by
  have hclear : onFrames BufferPool.reset ⟨s.bp, ∅, false⟩ = (.ok (), ⟨s.bp.cleared, ∅, false⟩) :=
    clearCache_eq (s := ⟨s.bp, ∅, false⟩) hcnt
  unfold reset
  rw [hp]
  dsimp only
  rw [hclear]
  rfl

section TwoFrames

variable {m : ℕ} {rest : List (Fin (m + 2))}

open BufferPool

/-- Two tables on a manager without any, and the first slot of the header page of the second. -/
theorem execAll_twoTables (hn : m + 2 ≤ 2 ^ 32) {bp : BufferPool (m + 2)} (h : bp.Bare rest)
    {r : Option (List UInt8)} (hget : ((bp.frames 1).page.setPageId 0).getValue 0 = .ok r) :
    (execAll [.createTable 0, .createTable 1, .getValue (.newSlot 1 0 0)] ⟨bp, ∅, false⟩).1 =
      [.ok .done, .ok .done,
        (r.elim (.error (.crusty "Value not found")) .ok : Except _ _).map .value] := by
  have hrun₁ := run_new hn h.ready (c := 0) (h.lookup _)
  have htable₁ := exec_createTable (s := ⟨bp, ∅, false⟩) rfl (Finset.notMem_empty 0) hrun₁
  let bp₁ := bp.placed 0 0 (1 :: rest) ((bp.frames 0).page.setPageId (bp.containerOf 0).pageCount)
  have hof : bp₁.containerOf 1 = .new [] := h.containerOf_placed_ne (by decide) _
  have hrun₂ := run_new hn (h.ready_placed 0 _) (c := 1) (by
    rw [hof]
    exact h.lookup_placed (by decide))
  have hfiles : (1 : ContainerId) ∉ (insert 0 ∅ : Finset ContainerId) := by decide
  have htable₂ := exec_createTable (s := ⟨bp₁, insert 0 ∅, false⟩) rfl hfiles hrun₂
  let bp₂ := bp₁.placed 1 1 rest ((bp₁.frames 1).page.setPageId (bp₁.containerOf 1).pageCount)
  obtain ⟨hcontainer, hlook⟩ := bp₁.placed_container 1 1 rest
    ((bp₁.frames 1).page.setPageId (bp₁.containerOf 1).pageCount) hof
  have hframe : bp₂.frames 1 = ⟨some ⟨1, (bp₁.containerOf 1).pageCount⟩, true, 0,
      (bp₁.frames 1).page.setPageId (bp₁.containerOf 1).pageCount⟩ := setFrame_self _ _ _
  have hpage : (bp₂.frames 1).page = (bp.frames 1).page.setPageId 0 := by
    have hne : bp₁.frames 1 = bp.frames 1 := setFrame_ne _ _ _ Fin.zero_ne_one.symm
    rw [hframe, hof, hne]
    rfl
  have hval := run_getVal hcontainer (show (0 : PageId) < 1 by decide) hlook
    (by rw [hframe]) (by rw [hpage]; exact hget)
  have hmem : (1 : ContainerId) ∈ (insert 1 (insert 0 ∅) : Finset ContainerId) := by decide
  have hgetValue : (exec (.getValue (.newSlot 1 0 0)) ⟨bp₂, insert 1 (insert 0 ∅), false⟩).1 =
      (r.elim (.error (.crusty "Value not found")) .ok : Except _ _).map .value := by
    show ((onFile 1 (HeapFile.getVal 1 0 0) ⟨bp₂, insert 1 (insert 0 ∅), false⟩).1).map _ = _
    rw [onFile_eq rfl hmem]
    exact congrArg (Except.map StorageAnswer.value) hval
  rw [execAll_cons htable₁, execAll_cons htable₂]
  show [_, _, (exec (.getValue (.newSlot 1 0 0)) _).1] = _
  rw [hgetValue]

/-- A record in a table, and the page in the second frame that holds it. -/
theorem execAll_oneRecord (hn : m + 2 ≤ 2 ^ 32) {bp : BufferPool (m + 2)} (h : bp.Bare rest)
    (hblank : (bp.frames 1).page.Blank) :
    ∃ (p q : Page), q.Rep ⟨1, [⟨4095, [7]⟩], 4095, 0, 0⟩ ∧
      execAll [.createTable 0, .insertValue 0 [7]] ⟨bp, ∅, false⟩ =
        ([.ok .done, .ok (.id (.newSlot 0 1 0))],
          ⟨(bp.placed 0 0 (1 :: rest) p).placed 0 1 rest q, insert 0 ∅, false⟩) := by
  have hrun₁ := run_new hn h.ready (c := 0) (h.lookup _)
  have htable₁ := exec_createTable (s := ⟨bp, ∅, false⟩) rfl (Finset.notMem_empty 0) hrun₁
  let p₀ := (bp.frames 0).page.setPageId (bp.containerOf 0).pageCount
  let bp₁ := bp.placed 0 0 (1 :: rest) p₀
  have hof : bp₁.containerOf 0 = ⟨1, false, []⟩ := h.containerOf_placed 0 _
  have hne : bp₁.frames 1 = bp.frames 1 := setFrame_ne _ _ _ Fin.zero_ne_one.symm
  obtain ⟨p, hp, hrep⟩ := (hblank.setPageId 1).initHeapPage
  rw [getPageId_setPageId] at hrep
  have hagree := add_pageRel (d := .empty 1) ⟨hrep, SlotDir.empty_wf 1⟩ [7]
  have hdir : (SlotDir.empty 1).add [7] = .ok (some 0, ⟨1, [⟨4095, [7]⟩], 4095, 0, 0⟩) := by decide
  rw [hdir] at hagree
  obtain ⟨⟨slot, q⟩, hq, hslot, hrel⟩ := hagree.ok_right
  dsimp only at hslot hrel
  subst hslot
  have hadd := run_addOnNewPage (v := [7]) (p := p) (q := q) hn (h.ready_placed 0 p₀)
    (c := 0) (by rw [hof]; exact h.lookup_placed (by decide)) (by rw [hof, hne]; exact hp)
    (by rw [hof]; exact hrep.pageId) hq
  rw [hof] at hadd
  have hval : run memHandler (HeapFile.addVal 0 [7]) bp₁ =
      (.ok (.newSlot 0 1 0), bp₁.placed 0 1 rest q) := by
    have hmax : run memHandler (HeapFile.numPages 0) bp₁ = (.ok 1, bp₁) := by
      have hop : run memHandler (HeapProg.getMaxPageId 0) bp₁ =
          (.ok ((bp₁.containers 0).map (·.pageCount)), bp₁) :=
        run_op memHandler (I := memInterface) (.getMaxPageId 0) bp₁
      unfold HeapFile.numPages
      rw [run_bind_ok memHandler hop, (bp.placed_container 0 0 (1 :: rest) p₀ (h.containerOf 0)).1]
      rfl
    unfold HeapFile.addVal
    rw [run_bind_ok memHandler hmax]
    exact hadd
  have hmem : (0 : ContainerId) ∈ (insert 0 ∅ : Finset ContainerId) := by decide
  have hinsert : exec (.insertValue 0 [7]) ⟨bp₁, insert 0 ∅, false⟩ =
      (.ok (.id (.newSlot 0 1 0)), ⟨bp₁.placed 0 1 rest q, insert 0 ∅, false⟩) := by
    show ((unwrapResult (onFile 0 (HeapFile.addVal 0 [7]) ⟨bp₁, insert 0 ∅, false⟩).1).map _,
      (onFile 0 (HeapFile.addVal 0 [7]) ⟨bp₁, insert 0 ∅, false⟩).2) = _
    rw [onFile_eq rfl hmem]
    unfold onPool
    dsimp only
    rw [hval]
    rfl
  refine ⟨p₀, q, hrel.1, ?_⟩
  rw [execAll_cons htable₁, execAll_cons hinsert]
  rfl

end TwoFrames

end StorageManager

/-- A new pool of two frames or more. -/
theorem exists_bare (m : ℕ) (disk : Disk) : ∃ rest, List.finRange (m + 2) = 0 :: 1 :: rest ∧
    (BufferPool.new (n := m + 2) (fun _ => none) disk).Bare rest := by
  have hrange : List.finRange (m + 2) = 0 :: 1 :: ((List.finRange m).map Fin.succ).map Fin.succ := by
    rw [finRange_succ, finRange_succ]
    rfl
  exact ⟨_, hrange, hrange, rfl, rfl, fun _ => rfl, fun _ => rfl⟩

theorem BufferPool.placed_free {s : BufferPool n} (h : ∀ i, (s.frames i).cnt = 0) {c : ContainerId}
    {i : Fin n} {rest : List (Fin n)} {p : Page} (j : Fin n) :
    ((s.placed c i rest p).frames j).cnt = 0 := by
  unfold placed
  by_cases hj : j = i
  · rw [hj, setFrame_self]
  · rw [setFrame_ne _ _ _ hj]
    exact h j

/-- A table without records, and a reset. -/
theorem exists_blankReset {m : ℕ} (hn : m + 2 ≤ 2 ^ 32) (disk : Disk) :
    ∃ s s' : StorageManager (m + 2),
      StorageManager.execAll [.createTable 0] (.new ∅ (fun _ => []) disk) = ([.ok .done], s) ∧
      s.reset = (.ok (), s') ∧ ∀ i, (s.bp.frames i).page.Blank := by
  obtain ⟨rest, hrest, hnew⟩ := exists_bare m disk
  rw [StorageManager.new_empty]
  have hrun := BufferPool.run_new hn hnew.ready (c := 0) (hnew.lookup _)
  have htable := StorageManager.exec_createTable (s := ⟨.new (fun _ => none) disk, ∅, false⟩) rfl
    (Finset.notMem_empty 0) hrun
  refine ⟨_, _, StorageManager.execAll_cons htable [],
    StorageManager.reset_eq rfl (BufferPool.placed_free (fun _ => rfl)), fun i => ?_⟩
  show ((BufferPool.placed _ _ _ _ _).frames i).page.Blank
  unfold BufferPool.placed
  by_cases hi : i = 0
  · rw [hi, BufferPool.setFrame_self]
    exact (new_blank 0).setPageId _
  · rw [BufferPool.setFrame_ne _ _ _ hi]
    exact new_blank 0

theorem reset_like_new_table :
    ∃ s s' : StorageManager bpFrames,
      StorageManager.execAll [.createTable 0] (.new ∅ (fun _ => []) soundDisk) = ([.ok .done], s) ∧
      s.reset = (.ok (), s') ∧ (∀ i, (s.bp.frames i).page.Blank) ∧
      (StorageManager.execAll [.createTable 1, .insertValue 1 [7], .iterate 1 5] s').1 =
        (StorageManager.execAll (n := bpFrames) [.createTable 1, .insertValue 1 [7], .iterate 1 5]
          (.new ∅ (fun _ => []) (s.bp.disk.after s.bp.accesses))).1 := by
  obtain ⟨s, s', htable, hreset, hblank⟩ := exists_blankReset (m := 998) (by decide) soundDisk
  exact ⟨s, s', htable, hreset, hblank, reset_like_new s s' hreset hblank _ (by decide)⟩

/-- A record of a table that is gone with a reset is found in the header page of a new table. -/
theorem exists_leak {m : ℕ} (hn : m + 2 ≤ 2 ^ 32) (disk : Disk) :
    ∃ s s' : StorageManager (m + 2),
      StorageManager.execAll [.createTable 0, .insertValue 0 [7]] (.new ∅ (fun _ => []) disk) =
        ([.ok .done, .ok (.id (.newSlot 0 1 0))], s) ∧
      s.reset = (.ok (), s') ∧
      (StorageManager.execAll [.createTable 0, .createTable 1, .getValue (.newSlot 1 0 0)] s').1 =
        [.ok .done, .ok .done, .ok (.value [7])] ∧
      (StorageManager.execAll (n := m + 2)
          [.createTable 0, .createTable 1, .getValue (.newSlot 1 0 0)] (.new ∅ (fun _ => []) disk)).1 =
        [.ok .done, .ok .done, .error (.crusty "Value not found")] := by
  obtain ⟨rest, hrest, hnew⟩ := exists_bare m disk
  rw [StorageManager.new_empty]
  obtain ⟨p, q, hq, hrecord⟩ := StorageManager.execAll_oneRecord hn hnew (new_blank 0)
  let bp := ((BufferPool.new (n := m + 2) (fun _ => none) disk).placed 0 0 (1 :: rest) p).placed 0 1 rest q
  have hfree : ∀ i, (bp.frames i).cnt = 0 :=
    BufferPool.placed_free (BufferPool.placed_free (fun _ => rfl))
  have hbare : ({ bp.cleared with containers := fun _ => none } : BufferPool (m + 2)).Bare rest :=
    ⟨hrest, rfl, rfl, hfree, fun _ => rfl⟩
  have hpage : (({ bp.cleared with containers := fun _ => none } : BufferPool (m + 2)).frames 1).page = q := by
    show (bp.frames 1).page = q
    exact congrArg BufferFrame.page (BufferPool.setFrame_self _ _ _)
  refine ⟨_, _, hrecord, StorageManager.reset_eq rfl hfree, ?_, ?_⟩
  · refine StorageManager.execAll_twoTables hn hbare (r := some [7]) ?_
    rw [hpage, getValue_rep (setPageId_rep hq 0)]
    rfl
  · exact StorageManager.execAll_twoTables hn hnew (r := none)
      (((new_blank 0).setPageId 0).getValue 0)

theorem reset_leaks :
    ∃ s s' : StorageManager bpFrames,
      StorageManager.execAll [.createTable 0, .insertValue 0 [7]] (.new ∅ (fun _ => []) soundDisk) =
        ([.ok .done, .ok (.id (.newSlot 0 1 0))], s) ∧
      s.reset = (.ok (), s') ∧
      (StorageManager.execAll [.createTable 0, .createTable 1, .getValue (.newSlot 1 0 0)] s').1 =
        [.ok .done, .ok .done, .ok (.value [7])] ∧
      (StorageManager.execAll (n := bpFrames)
          [.createTable 0, .createTable 1, .getValue (.newSlot 1 0 0)]
          (.new ∅ (fun _ => []) soundDisk)).1 =
        [.ok .done, .ok .done, .error (.crusty "Value not found")] :=
  exists_leak (m := 998) (by decide) soundDisk

end CrustyDB
