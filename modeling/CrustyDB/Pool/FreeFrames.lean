import CrustyDB.Storage.StorageManager
import CrustyDB.Pool.PageContents

/-! # Heap files on a pool with free frames

As long as the pool has a frame that holds no page, a new page goes into the first such frame and no
file is accessed.  The theorems here give the results of the calls of a heap file on such a pool
exactly (`run_new`, `run_addOnNewPage`, `run_getVal`), and the state they leave (`placed`). -/

namespace CrustyDB

open Stateful Program List Function

/-! ### Frames that are not used -/

namespace BufferPool

variable {n : ℕ} {s t : BufferPool n} {B : Page → Prop}

/-- The frames among the hints are free and hold no page, and their bytes satisfy `B`.  Every other
frame has at most one page. -/
structure Unused (B : Page → Prop) (s : BufferPool n) : Prop where
  nodup : s.evictionHints.Nodup
  unmapped : ∀ i ∈ s.evictionHints, ∀ key, s.pageToFrame.lookup key ≠ some i
  inj : ∀ key key' i, s.pageToFrame.lookup key = some i → s.pageToFrame.lookup key' = some i →
    key = key'
  fits : s.evictionHints.length + s.pageToFrame.entries.length ≤ n
  keyless : ∀ i ∈ s.evictionHints, (s.frames i).key = none
  clean : ∀ i ∈ s.evictionHints, (s.frames i).isDirty = false
  free : ∀ i ∈ s.evictionHints, (s.frames i).cnt = 0
  bytes : ∀ i ∈ s.evictionHints, B (s.frames i).page

/-- A pool without pages. -/
theorem unused_empty (hmap : s.pageToFrame = ∅) (hhints : s.evictionHints = List.finRange n)
    (hframes : ∀ i, (s.frames i).key = none ∧ (s.frames i).isDirty = false ∧ (s.frames i).cnt = 0)
    (hbytes : ∀ i, B (s.frames i).page) : s.Unused B := by
  refine ⟨by rw [hhints]; exact nodup_finRange n, fun i _ key => ?_, fun key key' _ hkey => ?_, ?_,
    fun i _ => (hframes i).1, fun i _ => (hframes i).2.1, fun i _ => (hframes i).2.2,
    fun i _ => hbytes i⟩
  · rw [hmap]
    exact (fun h => nomatch h)
  · rw [hmap] at hkey
    exact nomatch hkey
  · rw [hhints, hmap, length_finRange]
    exact le_rfl

variable {i : Fin n} {before rest : List (Fin n)}

theorem Unused.notMem (h : s.Unused B) {key : ContainerPageId}
    (hi : s.pageToFrame.lookup key = some i) : i ∉ s.evictionHints :=
  fun hmem => h.unmapped i hmem key hi

/-- Hints may go, and the frames that are left stay as they are. -/
theorem Unused.sublist (h : s.Unused B) (hsub : t.evictionHints.Sublist s.evictionHints)
    (hframes : ∀ i ∈ t.evictionHints, t.frames i = s.frames i)
    (hmap : t.pageToFrame = s.pageToFrame) : t.Unused B := by
  refine ⟨h.nodup.sublist hsub, fun i hi => hmap ▸ h.unmapped i (hsub.subset hi), hmap ▸ h.inj, ?_,
    fun i hi => ?_, fun i hi => ?_, fun i hi => ?_, fun i hi => ?_⟩
  · rw [hmap]
    exact (Nat.add_le_add_right hsub.length_le _).trans h.fits
  all_goals rw [hframes i hi]
  · exact h.keyless i (hsub.subset hi)
  · exact h.clean i (hsub.subset hi)
  · exact h.free i (hsub.subset hi)
  · exact h.bytes i (hsub.subset hi)

theorem Unused.noHints (h : s.Unused B) : Unused B { s with evictionHints := [] } :=
  h.sublist (nil_sublist _) (fun _ hi => absurd hi not_mem_nil) rfl

/-- A frame that is not among the hints may change. -/
theorem Unused.setFrame (h : s.Unused B) (hi : i ∉ s.evictionHints) (fr : BufferFrame) :
    (s.setFrame i fr).Unused B :=
  h.sublist (List.Sublist.refl _) (fun _ hj => setFrame_ne s i fr (fun hji => hi (hji ▸ hj))) rfl

theorem Unused.notMem_rest (h : s.Unused B) (hh : s.evictionHints = before ++ i :: rest) :
    i ∉ rest := by
  have hnodup := h.nodup
  rw [hh] at hnodup
  exact (nodup_cons.mp (nodup_append.mp hnodup).2.1).1

/-- A hint is passed over. -/
theorem Unused.dropped (h : s.Unused B) (hh : s.evictionHints = before ++ i :: rest)
    (ht : t.evictionHints = rest) (hframes : ∀ j, j ≠ i → t.frames j = s.frames j)
    (hmap : t.pageToFrame = s.pageToFrame) : t.Unused B := by
  refine h.sublist ?_ (fun j hj => hframes j (fun hji => h.notMem_rest hh ?_)) hmap
  · rw [hh, ht]
    exact (sublist_cons_self i rest).trans (sublist_append_right before _)
  · rw [← hji, ← ht]
    exact hj

/-- A hint is taken for a page. -/
theorem Unused.taken (h : s.Unused B) (hh : s.evictionHints = before ++ i :: rest)
    (ht : t.evictionHints = rest) (hframes : ∀ j, j ≠ i → t.frames j = s.frames j)
    {key : ContainerPageId} (hmap : t.pageToFrame = s.pageToFrame.insert key i) : t.Unused B := by
  have hd := h.dropped (t := { t with pageToFrame := s.pageToFrame }) hh ht hframes rfl
  have hi : i ∈ s.evictionHints := hh ▸ mem_append_right before mem_cons_self
  have hlook : ∀ {k j}, t.pageToFrame.lookup k = some j →
      (k = key ∧ j = i) ∨ (k ≠ key ∧ s.pageToFrame.lookup k = some j) := by
    intro k j hk
    rw [hmap] at hk
    by_cases hkey : k = key
    · rw [hkey, AList.lookup_insert] at hk
      exact Or.inl ⟨hkey, (Option.some.inj hk).symm⟩
    · rw [AList.lookup_insert_ne hkey] at hk
      exact Or.inr ⟨hkey, hk⟩
  refine ⟨hd.nodup, fun j hj k hk => ?_, fun k k' j hk hk' => ?_, ?_, hd.keyless, hd.clean, hd.free,
    hd.bytes⟩
  · rcases hlook hk with ⟨-, rfl⟩ | ⟨-, hold⟩
    · exact h.notMem_rest hh (ht ▸ hj)
    · exact hd.unmapped j hj k hold
  · rcases hlook hk with ⟨rfl, rfl⟩ | ⟨hne, hold⟩
    · rcases hlook hk' with ⟨rfl, -⟩ | ⟨-, hold'⟩
      · rfl
      · exact absurd hold' (h.unmapped j hi k')
    · rcases hlook hk' with ⟨-, rfl⟩ | ⟨-, hold'⟩
      · exact absurd hold (h.unmapped j hi k)
      · exact h.inj k k' j hold hold'
  · have hfits := h.fits
    have hsize : t.pageToFrame.entries.length ≤ s.pageToFrame.entries.length + 1 := by
      rw [hmap, AList.entries_insert, length_cons]
      exact Nat.succ_le_succ (kerase_sublist _ _).length_le
    rw [hh, length_append, length_cons] at hfits
    rw [ht]
    omega

theorem dropGuards_ne (s : BufferPool n) {j : Fin n} (h : j ≠ i) :
    (s.dropGuards [i]).frames j = s.frames j :=
  if_neg (fun hj => h (mem_singleton.mp hj))

/-- A page is created in a frame that was not used. -/
theorem createNewPageForWrite_unused (hn : n ≤ 2 ^ 32) (hs : s.Unused B) (c : ContainerId) :
    Sat (createNewPageForWrite c) s
      (fun i t => t.Unused B ∧ i ∉ t.evictionHints ∧ ∃ (p : Page) (key : ContainerPageId), B p ∧
        (t.frames i).key = some key ∧ (t.frames i).page = p.setPageId key.pageId)
      (fun _ t => t.Unused B) := by
  refine createNewPageForWrite_keyless hn hs.keyless (fun before i rest hh => ?_) hs.noHints
    (fun before i rest hh _ => ?_)
  · exact hs.dropped hh rfl (fun j hj => (dropGuards_ne _ hj).trans (setFrame_ne _ i _ hj)) rfl
  · have hmem : i ∈ s.evictionHints := hh ▸ mem_append_right before mem_cons_self
    unfold created
    refine ⟨hs.taken hh rfl (fun j hj => (setFrame_ne _ _ _ hj).trans (setFrame_ne _ i _ hj)) rfl,
      hs.notMem_rest hh, (s.frames i).page, ⟨c, ((s.latched i rest).containerOf c).pageCount⟩,
      hs.bytes i hmem, ?_, ?_⟩
    · rw [setFrame_self]
      rfl
    · rw [setFrame_self]
      show ((s.latched i rest).frames i).page.setPageId _ = _
      rw [latched, setFrame_self]

/-- A request for a page that is not in the pool takes the first hint, whose frame is free. -/
theorem getPage_miss (hn : n ≤ 2 ^ 32) (hs : s.Unused B) {key : ContainerPageId}
    (hlook : s.pageToFrame.lookup key = none) {grant : Fin n → PoolCall n (Fin n)}
    {finish : BufferFrame → BufferFrame} {Q : Fin n → BufferPool n → Prop}
    {E : Stop → BufferPool n → Prop}
    (hnil : s.evictionHints = [] → E (.status .cannotEvictPage) { s with evictionHints := [] })
    (hcons : ∀ i rest, s.evictionHints = i :: rest → Sat (do
        readPage key i
        onFrame i (fun fr => { fr with key := some key })
        onFrame i finish
        pure i) ((s.latched i rest).mapped key i) Q (fun e t => E e (t.dropGuards [i]))) :
    Sat (getPage grant finish key) s Q E := by
  unfold getPage
  refine Sat.bind (Sat.get ?_)
  rw [hlook]
  cases hh : s.evictionHints with
  | nil =>
    have hnone : chooseVictim s = .ok none { s with evictionHints := [] } := by
      have hpop : chooseVictim s = popVictim s.evictionHints s := rfl
      rw [hpop, hh]
      rfl
    exact Sat.bind (.of_ok hnone (Sat.throw (hnil hh)))
  | cons i rest =>
    have hmem : i ∈ s.evictionHints := hh ▸ mem_cons_self
    refine Sat.bind (.of_ok (chooseVictim_eq ⟨hh, hs.free i hmem, hs.keyless i hmem⟩) ?_)
    refine dropOnError_sat ?_
    have hfr : (s.latched i rest).frames i = { s.frames i with cnt := -1 } := setFrame_self _ _ _
    have hnone : ((s.latched i rest).frames i).key = none := by
      rw [hfr]
      exact hs.keyless i hmem
    have hwrite : unwrap (writeVictimToDiskIfDirty i) (s.latched i rest) =
        .ok () (s.latched i rest) := by
      unfold unwrap
      rw [writeVictim_keyless hnone]
    refine Sat.bind (.of_ok hwrite (Sat.bind (Sat.get ?_)))
    rw [if_neg (by rw [hfr]; exact Bool.eq_false_iff.mp (hs.clean i hmem))]
    refine Sat.bind (Sat.get ?_)
    have hlook' : (s.latched i rest).pageToFrame.lookup key = none := hlook
    rw [hlook']
    unfold fetch
    refine Sat.bind (.of_ok (removeOldMapping_keyless hnone) ?_)
    rw [frameId_eq hn]
    exact Sat.bind (.of_ok (insertMapping_eq hlook') (hcons i rest hh))

/-- A request for a page uses at most one of the frames. -/
theorem getPage_unused (hn : n ≤ 2 ^ 32) (hs : s.Unused B) {try_ : BufferFrame → Option BufferFrame}
    {denied : MemPoolStatus} {finish : BufferFrame → BufferFrame} (key : ContainerPageId) :
    Sat (getPage (grantLatch try_ denied) finish key) s (fun _ t => t.Unused B)
      (fun _ t => t.Unused B) := by
  cases hkey : s.pageToFrame.lookup key with
  | some i =>
    unfold getPage
    refine Sat.bind (Sat.get ?_)
    rw [hkey]
    unfold grantLatch
    refine Sat.bind (Sat.get ?_)
    cases try_ (s.frames i) with
    | none => exact Sat.throw hs
    | some fr => exact Sat.bind (Sat.modify (Sat.pure (hs.setFrame (hs.notMem hkey) fr)))
  | none =>
    refine getPage_miss hn hs hkey (fun _ => hs.noHints) (fun i rest hcons => ?_)
    have hh : s.evictionHints = [] ++ i :: rest := hcons
    have hother : ∀ j, j ≠ i → ((s.latched i rest).mapped key i).frames j = s.frames j :=
      fun j hj => setFrame_ne _ i _ hj
    refine Sat.bind (readPage_sat ?_ ?_)
    · intro garbage msg _
      refine hs.taken hh rfl (fun j hj => (dropGuards_ne _ hj).trans ?_) rfl
      rw [setFrame_ne _ _ _ hj]
      exact hother j hj
    · intro p _ _
      refine Sat.bind (Sat.modify (Sat.bind (Sat.modify (Sat.pure ?_))))
      refine hs.taken hh rfl (fun j hj => ?_) rfl
      rw [setFrame_ne _ _ _ hj, setFrame_ne _ _ _ hj, setFrame_ne _ _ _ hj]
      exact hother j hj

/-- The calls of a heap file change only frames that hold a page. -/
theorem mem_unused (hn : n ≤ 2 ^ 32) (o : MemOp) (s : BufferPool n) (hs : s.Unused B) :
    (memHandler o s).2.Unused B := by
  have hnew : ∀ c f, (requestNew (createNewPageForWrite c) f s).2.Unused B := by
    intro c f
    have hsat := createNewPageForWrite_unused hn hs c
    unfold requestNew
    cases hx : createNewPageForWrite c s with
    | ok i t =>
      obtain ⟨ht, hi, -⟩ := hsat.ok hx
      dsimp only
      cases f (t.frames i).page with
      | ok p => exact ht.setFrame hi _
      | error e => exact ht.setFrame hi _
    | error e t => cases e <;> exact hsat.error hx
  have hrequest : ∀ {x : PoolCall n (Fin n)},
      Sat x s (fun _ t => t.Unused B) (fun _ t => t.Unused B) → (request x s).2.Unused B := by
    intro x hsat
    unfold request
    cases hx : x s with
    | ok i t => exact hsat.ok hx
    | error e t => cases e <;> exact hsat.error hx
  have hdrop : ∀ key, (dropGuard key s).2.Unused B := by
    intro key
    unfold dropGuard
    cases hk : s.held key with
    | none => exact hs
    | some i => exact hs.setFrame (hs.notMem (held_eq_some.mp hk).1) _
  have hpage : ∀ {α : Type} key (f : Page → Checked (α × Page)), (onPage key f s).2.Unused B := by
    intro α key f
    unfold onPage
    cases hk : s.held key with
    | none => exact hs
    | some i =>
      have hi := hs.notMem (held_eq_some.mp hk).1
      dsimp only
      cases f (s.frames i).page with
      | ok a => exact hs.setFrame hi _
      | error e => exact hs.setFrame hi _
  cases o with
  | getMaxPageId c => exact hs
  | createNewPageForWrite c => exact hnew c _
  | createHeapPage c => exact hnew c _
  | getPageForWrite key => exact hrequest (getPage_unused hn hs key)
  | getPageForRead key => exact hrequest (getPage_unused hn hs key)
  | dropWriteGuard key => exact hdrop key
  | dropReadGuard key => exact hdrop key
  | addValue key bytes => exact hpage key _
  | getValue key slotId => exact hpage key _
  | updateValue key slotId bytes => exact hpage key _
  | deleteValue key slotId => exact hpage key _
  | getNumSlots key => exact hpage key _

end BufferPool

/-! ### Exact results -/

namespace BufferPool

variable {n : ℕ} {s : BufferPool n}

/-- The pool after the next page of a container is put into frame `i`, and its guard dropped. -/
def placed (s : BufferPool n) (c : ContainerId) (i : Fin n) (rest : List (Fin n)) (p : Page) :
    BufferPool n :=
  ({ s with
      evictionHints := rest
      pageToFrame := s.pageToFrame.insert ⟨c, (s.containerOf c).pageCount⟩ i }.setContainer c
    { s.containerOf c with pageCount := (s.containerOf c).pageCount + UInt32.ofNat 1 }).setFrame i
      ⟨some ⟨c, (s.containerOf c).pageCount⟩, true, 0, p⟩

/-- The container the page belongs to, and the frame the page is found in. -/
theorem placed_container (s : BufferPool n) (c : ContainerId) (i : Fin n) (rest : List (Fin n))
    (p : Page) {ct : Container} (h : s.containerOf c = ct) :
    (s.placed c i rest p).containers c = some { ct with pageCount := ct.pageCount + UInt32.ofNat 1 } ∧
      (s.placed c i rest p).pageToFrame.lookup ⟨c, ct.pageCount⟩ = some i := by
  rw [← h]
  exact ⟨update_self .., AList.lookup_insert _⟩

theorem setFrame_setFrame (s : BufferPool n) (i : Fin n) (fr gr : BufferFrame) :
    (s.setFrame i fr).setFrame i gr = s.setFrame i gr := by
  unfold setFrame
  simp only [update_idem]

variable {i : Fin n} {rest : List (Fin n)} {c : ContainerId} {p : Page} {slot : SlotId}
  {ct : Container}

/-- A new page, with `f` applied to it, and its guard. -/
theorem requestNew_eq (hn : n ≤ 2 ^ 32) (h : Ready s i rest)
    (hlook : s.pageToFrame.lookup ⟨c, (s.containerOf c).pageCount⟩ = none) {f : Page → Checked Page}
    (hp : f ((s.frames i).page.setPageId (s.containerOf c).pageCount) = .ok p) :
    requestNew (createNewPageForWrite c) f s =
      (.ok (.ok p.getPageId), (s.placed c i rest p).setFrame i
        ⟨some ⟨c, (s.containerOf c).pageCount⟩, true, -1, p⟩) := by
  have hfr : ((s.latched i rest).created c i).frames i =
      ⟨some ⟨c, (s.containerOf c).pageCount⟩, true, -1,
        (s.frames i).page.setPageId (s.containerOf c).pageCount⟩ := by
    unfold created
    rw [setFrame_self]
    unfold latched
    rw [setFrame_self]
    rfl
  unfold requestNew
  rw [createNewPageForWrite_eq hn h hlook]
  dsimp only
  rw [hfr]
  dsimp only
  rw [hp]
  dsimp only
  unfold created placed latched
  rw [setFrame_setFrame, setFrame_setFrame]
  unfold mapped setContainer setFrame
  simp only [update_idem]
  rfl

theorem held_placed : ((s.placed c i rest p).setFrame i
      ⟨some ⟨c, (s.containerOf c).pageCount⟩, true, -1, p⟩).held ⟨c, (s.containerOf c).pageCount⟩ =
        some i := by
  refine held_eq_some.mpr ⟨AList.lookup_insert _, ?_⟩
  rw [setFrame_self]
  exact (by decide : (-1 : ℤ) ≠ 0)

theorem dropGuard_placed (rest : List (Fin n)) :
    dropGuard ⟨c, (s.containerOf c).pageCount⟩ ((s.placed c i rest p).setFrame i
      ⟨some ⟨c, (s.containerOf c).pageCount⟩, true, -1, p⟩) = (.ok (), s.placed c i rest p) := by
  unfold dropGuard
  rw [held_placed]
  dsimp only
  rw [setFrame_self, setFrame_setFrame]
  unfold placed
  rw [setFrame_setFrame]
  rfl

/-- The header page of a new heap file. -/
theorem run_new (hn : n ≤ 2 ^ 32) (h : Ready s i rest)
    (hlook : s.pageToFrame.lookup ⟨c, (s.containerOf c).pageCount⟩ = none) :
    run memHandler (HeapFile.new c) s = (.ok (), s.placed c i rest
      ((s.frames i).page.setPageId (s.containerOf c).pageCount)) := by
  have hcreate := (run_op memHandler (I := memInterface) (.createNewPageForWrite c) s).trans
    (requestNew_eq (f := .ok) hn h hlook rfl)
  rw [Page.getPageId_setPageId] at hcreate
  have hdrop := (run_op memHandler (I := memInterface)
    (.dropWriteGuard ⟨c, (s.containerOf c).pageCount⟩) _).trans
    (dropGuard_placed (s := s) (i := i) rest
      (p := (s.frames i).page.setPageId (s.containerOf c).pageCount))
  unfold HeapFile.new
  refine (run_bind_ok memHandler hcreate).trans ?_
  exact hdrop

/-- A value on a new data page. -/
theorem run_addOnNewPage (hn : n ≤ 2 ^ 32) (h : Ready s i rest)
    (hlook : s.pageToFrame.lookup ⟨c, (s.containerOf c).pageCount⟩ = none) {v : List UInt8}
    {q : Page}
    (hp : ((s.frames i).page.setPageId (s.containerOf c).pageCount).initHeapPage = .ok p)
    (hid : p.getPageId = (s.containerOf c).pageCount) (hadd : p.addValue v = .ok (some slot, q)) :
    run memHandler (HeapFile.addOnNewPage c v) s =
      (.ok (.newSlot c (s.containerOf c).pageCount slot), s.placed c i rest q) := by
  have hcreate := (run_op memHandler (I := memInterface) (.createHeapPage c) s).trans
    (requestNew_eq (f := Page.initHeapPage) hn h hlook hp)
  rw [hid] at hcreate
  have hvalue : run memHandler (HeapProg.addValue ⟨c, (s.containerOf c).pageCount⟩ v)
      ((s.placed c i rest p).setFrame i ⟨some ⟨c, (s.containerOf c).pageCount⟩, true, -1, p⟩) =
      (.ok (some slot), (s.placed c i rest q).setFrame i
        ⟨some ⟨c, (s.containerOf c).pageCount⟩, true, -1, q⟩) := by
    refine (run_op memHandler (I := memInterface) (.addValue _ v) _).trans ?_
    show onPage _ (fun p => p.addValue v) _ = _
    unfold onPage
    rw [held_placed]
    dsimp only
    rw [setFrame_self]
    dsimp only
    rw [hadd]
    dsimp only
    rw [setFrame_setFrame]
    unfold placed
    rw [setFrame_setFrame, setFrame_setFrame]
  have hdrop := (run_op memHandler (I := memInterface)
    (.dropWriteGuard ⟨c, (s.containerOf c).pageCount⟩) _).trans
    (dropGuard_placed (s := s) (i := i) rest (c := c) (p := q))
  unfold HeapFile.addOnNewPage
  refine (run_bind_ok memHandler hcreate).trans ?_
  refine (run_bind_ok memHandler hvalue).trans ?_
  exact run_bind_ok memHandler hdrop

/-- A guard of a page that is in the pool. -/
theorem request_hit {key : ContainerPageId} (hlook : s.pageToFrame.lookup key = some i)
    (hcnt : ¬(s.frames i).cnt < 0) : request (getPageForRead key) s =
      (.ok (), s.setFrame i { s.frames i with cnt := (s.frames i).cnt + 1 }) := by
  have htry : (s.frames i).tryRead = some { s.frames i with cnt := (s.frames i).cnt + 1 } := if_neg hcnt
  have hgrant : getPageForRead key s =
      .ok i (s.setFrame i { s.frames i with cnt := (s.frames i).cnt + 1 }) := by
    unfold getPageForRead getPage
    refine (bind_of_ok rfl).trans ?_
    rw [hlook]
    unfold grantLatch
    refine (bind_of_ok rfl).trans ?_
    rw [htry]
    rfl
  unfold request
  rw [hgrant]

/-- The number of pages of a container. -/
theorem run_numPages (hct : s.containers c = some ct) :
    run memHandler (HeapFile.numPages c) s = (.ok ct.pageCount, s) := by
  have hop : run memHandler (HeapProg.getMaxPageId c) s =
      (.ok ((s.containers c).map (·.pageCount)), s) :=
    run_op memHandler (I := memInterface) (.getMaxPageId c) s
  unfold HeapFile.numPages
  rw [run_bind_ok memHandler hop, hct]
  rfl

/-- Look up a record on a page whose guard is granted. -/
theorem run_getVal_granted {u : BufferPool n} {p : PageId} {r : Option (List UInt8)}
    (hct : s.containers c = some ct) (hlt : p < ct.pageCount)
    (hgrant : request (getPageForRead ⟨c, p⟩) s = (.ok (), u)) (hheld : u.held ⟨c, p⟩ = some i)
    (hget : (u.frames i).page.getValue slot = .ok r) : run memHandler (HeapFile.getVal c p slot) s =
      (r.elim (.error (.crusty "Value not found")) .ok, u.setFrame i (u.frames i).release) := by
  have hread : run memHandler (HeapProg.getPageForRead ⟨c, p⟩) s = (.ok (), u) :=
    (run_op memHandler (I := memInterface) (.getPageForRead ⟨c, p⟩) s).trans hgrant
  have hsame : u.setFrame i (u.frames i) = u := by
    unfold setFrame
    rw [update_eq_self]
  have hvalue : run memHandler (HeapProg.getValue ⟨c, p⟩ slot) u = (.ok r, u) := by
    refine (run_op memHandler (I := memInterface) (.getValue ⟨c, p⟩ slot) u).trans ?_
    have hkeep : keeps (fun p => p.getValue slot) (u.frames i).page = .ok (r, (u.frames i).page) := by
      unfold keeps
      dsimp only
      rw [hget]
      rfl
    show onPage ⟨c, p⟩ (keeps fun p => p.getValue slot) u = _
    unfold onPage
    rw [hheld]
    dsimp only
    rw [hkeep]
    dsimp only
    rw [hsame]
  have hdrop : run memHandler (HeapProg.dropReadGuard ⟨c, p⟩) u =
      (.ok (), u.setFrame i (u.frames i).release) := by
    refine (run_op memHandler (I := memInterface) (.dropReadGuard ⟨c, p⟩) _).trans ?_
    show dropGuard ⟨c, p⟩ _ = _
    unfold dropGuard
    rw [hheld]
  unfold HeapFile.getVal
  rw [run_bind_ok memHandler (run_numPages hct), if_neg (by rw [ge_iff_le, UInt32.not_le]; exact hlt),
    run_bind_ok memHandler hread, run_bind_ok memHandler hvalue, run_bind_ok memHandler hdrop]
  cases r <;> rfl

/-- Look up a record on a page that is in the pool. -/
theorem run_getVal {p : PageId} {r : Option (List UInt8)} (hct : s.containers c = some ct)
    (hlt : p < ct.pageCount) (hlook : s.pageToFrame.lookup ⟨c, p⟩ = some i)
    (hcnt : (s.frames i).cnt = 0) (hget : (s.frames i).page.getValue slot = .ok r) :
    (run memHandler (HeapFile.getVal c p slot) s).1 =
      r.elim (.error (.crusty "Value not found")) .ok := by
  have hgrant := request_hit hlook (by rw [hcnt]; decide)
  rw [run_getVal_granted hct hlt hgrant (i := i) ?_ ?_]
  · refine held_eq_some.mpr ⟨hlook, ?_⟩
    rw [setFrame_self, hcnt]
    exact (by decide : (0 + 1 : ℤ) ≠ 0)
  · rw [setFrame_self]
    exact hget

/-- A pool without pages and containers whose first two frames may be taken. -/
structure Bare {m : ℕ} (s : BufferPool (m + 2)) (rest : List (Fin (m + 2))) : Prop where
  hints : s.evictionHints = 0 :: 1 :: rest
  map : s.pageToFrame = ∅
  containers : s.containers = fun _ => none
  free : ∀ i, (s.frames i).cnt = 0
  keyless : ∀ i, (s.frames i).key = none

namespace Bare

variable {m : ℕ} {s : BufferPool (m + 2)} {rest : List (Fin (m + 2))}

section

variable (h : Bare s rest)
include h

theorem ready : Ready s 0 (1 :: rest) := ⟨h.hints, h.free 0, h.keyless 0⟩

theorem containerOf (c : ContainerId) : s.containerOf c = .new [] := by
  unfold BufferPool.containerOf
  rw [h.containers]
  rfl

theorem lookup (key : ContainerPageId) : s.pageToFrame.lookup key = none := by
  rw [h.map]
  rfl

theorem ready_placed (c : ContainerId) (p : Page) :
    Ready (s.placed c 0 (1 :: rest) p) 1 rest := by
  have hfr : (s.placed c 0 (1 :: rest) p).frames 1 = s.frames 1 :=
    setFrame_ne _ _ _ Fin.zero_ne_one.symm
  exact ⟨rfl, by rw [hfr]; exact h.free 1, by rw [hfr]; exact h.keyless 1⟩

theorem lookup_placed {c : ContainerId} {p : Page} {key : ContainerPageId}
    (hne : key ≠ ⟨c, 0⟩) : (s.placed c 0 (1 :: rest) p).pageToFrame.lookup key = none := by
  show (s.pageToFrame.insert ⟨c, (s.containerOf c).pageCount⟩ 0).lookup key = none
  rw [h.containerOf]
  exact (AList.lookup_insert_ne hne).trans (h.lookup key)

theorem containerOf_placed (c : ContainerId) (p : Page) :
    (s.placed c 0 (1 :: rest) p).containerOf c = ⟨1, false, []⟩ :=
  containerOf_eq (s.placed_container c 0 (1 :: rest) p (h.containerOf c)).1

theorem containerOf_placed_ne {c d : ContainerId} (hd : d ≠ c) (p : Page) :
    (s.placed c 0 (1 :: rest) p).containerOf d = .new [] := by
  show (Function.update s.containers c (some { s.containerOf c with
    pageCount := (s.containerOf c).pageCount + UInt32.ofNat 1 }) d).getD _ = _
  rw [update_of_ne hd]
  exact h.containerOf d

end

end Bare

end BufferPool

end CrustyDB
