import CrustyDB.Pool.PageContents

/-! # What a flush leaves in the files

A frame is dirty from the moment a write guard of it is handed out until its page is written, so a
frame that is not dirty agrees with the file (`Settled`), and a flush that writes every dirty frame
leaves the files with the bytes of every page in the pool (`Durable`).  Temporary containers have
no part in this: their pages are never written.

A frame is marked clean before its page is written.  When the write fails, the frame stays clean,
the next flush passes over it and reports success (`flushAll_retry_loses_page`).  A page that is
requested and cannot be read is entered into the map without the frame getting its key, so that it
is never written either, and `clearDirtyFlags` marks frames clean without writing them.
`durable_of_sound_disk` says that in a run where no access to a file fails, only pages that exist
are requested and the flags are not cleared, every flush that returns leaves the pages of the pool
in the files, whoever holds guards and whatever is created, dropped or reset in between. -/

namespace CrustyDB

open Stateful List BufferPool Within

namespace BufferPool

variable {n : ℕ} {s : BufferPool n}

/-! ### Accesses to files -/

/-- The pool has the same disk and has made no fewer accesses to it. -/
structure Paced (s t : BufferPool n) : Prop where
  disk : t.disk = s.disk
  accesses : s.accesses ≤ t.accesses

instance : IsPreorder (BufferPool n) Paced where
  refl _ := ⟨rfl, le_rfl⟩
  trans _ _ _ h h' := ⟨h'.disk.trans h.disk, h.accesses.trans h'.accesses⟩

/-- One of the accesses so far has failed. -/
def Faulted (s : BufferPool n) : Prop := ∃ k < s.accesses, s.disk.fault k ≠ none

variable {t : BufferPool n}

theorem Faulted.paced (h : Faulted s) (hst : Paced s t) : Faulted t := by
  obtain ⟨k, hk, hfault⟩ := h
  refine ⟨k, hk.trans_le hst.accesses, ?_⟩
  rw [hst.disk]
  exact hfault

theorem paced_writePage (key : ContainerPageId) (page : Page) :
    Within Paced (writePage (n := n) key page) := fun _ =>
  writePage_sat (fun _ => ⟨rfl, le_rfl⟩) (fun _ _ _ => ⟨rfl, Nat.le_succ _⟩)
    (fun _ _ => ⟨rfl, Nat.le_succ _⟩)

theorem paced_onFrame (i : Fin n) (f : BufferFrame → BufferFrame) : Within Paced (onFrame i f) :=
  Within.modify (fun _ => ⟨rfl, le_rfl⟩)

theorem paced_writeVictim (i : Fin n) : Within Paced (writeVictimToDiskIfDirty i) := fun s =>
  writeVictim_sat (fun _ => refl_of Paced s) (fun key _ _ =>
    (paced_writePage key _ _).mono (fun _ _ ht => ⟨ht.disk, ht.accesses⟩)
      (fun _ _ ht => ⟨ht.disk, ht.accesses⟩))

theorem paced_removeOldMapping (i : Fin n) : Within Paced (removeOldMapping i) := by
  refine get_bind (fun s => ?_)
  cases (s.frames i).key with
  | none => exact refl_of Paced s
  | some old =>
    dsimp only
    cases s.pageToFrame.lookup old with
    | none => exact refl_of Paced s
    | some j => exact ⟨rfl, le_rfl⟩

theorem paced_insertMapping (key : ContainerPageId) (i : Fin n) :
    Within Paced (insertMapping key i) := by
  refine get_bind (fun s => ?_)
  cases s.pageToFrame.lookup key with
  | some j => exact refl_of Paced s
  | none => exact ⟨rfl, le_rfl⟩

theorem paced_incPageCount (c : ContainerId) (count : ℕ) :
    Within Paced (incPageCount (n := n) c count) := fun s =>
  .of_ok (incPageCount_eq s c count) ⟨rfl, le_rfl⟩

theorem paced_allocate (c : ContainerId) (i : Fin n) : Within Paced (allocate c i) := by
  refine (paced_removeOldMapping i).bind (fun _ => (paced_incPageCount c 1).bind (fun pageId => ?_))
  exact (paced_insertMapping _ _).bind (fun _ => (paced_onFrame i _).bind (fun _ => .pure i))

theorem paced_allocateAll (c : ContainerId) (numPages : ℕ) (victims : List (Fin n)) :
    Within Paced (allocateAll c numPages victims) := by
  refine (Within.forM paced_removeOldMapping victims).bind (fun _ => ?_)
  refine (paced_incPageCount c numPages).bind (fun startPageId => ?_)
  refine (Within.forM (fun _ => paced_insertMapping _ _) _).bind (fun _ => ?_)
  exact (Within.forM (fun _ => paced_onFrame _ _) _).bind (fun _ => .pure victims)

theorem paced_fetch (finish : BufferFrame → BufferFrame) (key : ContainerPageId) (i : Fin n) :
    Within Paced (fetch finish key i) := by
  have hread : Within Paced (readPage key i) := fun s =>
    readPage_sat (fun _ _ _ => ⟨rfl, Nat.le_succ _⟩) (fun _ _ _ => ⟨rfl, Nat.le_succ _⟩)
  refine (paced_removeOldMapping i).bind (fun _ => (paced_insertMapping _ _).bind (fun _ => ?_))
  refine hread.bind (fun _ => (paced_onFrame i _).bind (fun _ => ?_))
  exact (paced_onFrame i finish).bind (fun _ => .pure i)

theorem paced_dropGuards (h : Paced s t) (is : List (Fin n)) :
    Paced s (t.dropGuards is) := ⟨h.disk, h.accesses⟩

theorem paced_createNewPageForWrite (c : ContainerId) :
    Within Paced (createNewPageForWrite (n := n) c) := by
  intro s
  have hlatch : ∀ i rest, Paced s (s.latched i rest) := fun _ _ => ⟨rfl, le_rfl⟩
  refine createNewPageForWrite_sat (fun _ => ⟨rfl, le_rfl⟩) (fun before i rest e t _ _ hw => ?_)
    (fun before i rest t _ _ hw => ?_)
  · have ht := (paced_writeVictim i (s.latched i rest)).error hw
    exact paced_dropGuards (trans_of Paced (hlatch i rest) ht) [i]
  · have ht := trans_of Paced (hlatch i rest) ((paced_writeVictim i (s.latched i rest)).ok hw)
    exact (paced_allocate c i t).mono (fun _ u hu => trans_of Paced ht hu)
      (fun _ u hu => paced_dropGuards (trans_of Paced ht hu) [i])

theorem paced_createNewPagesForWrite (c : ContainerId) (numPages : ℕ) :
    Within Paced (createNewPagesForWrite (n := n) c numPages) := by
  intro s
  unfold createNewPagesForWrite
  split_ifs with hzero
  · exact Sat.throw (refl_of Paced s)
  refine Sat.bind (chooseVictims_sat (Nat.pos_of_ne_zero hzero) (fun victims rest _ _ _ => ?_))
  have hlatch : Paced s (s.latchedAll victims rest) := ⟨rfl, le_rfl⟩
  split_ifs
  · exact Sat.throw hlatch
  have hbody : Within Paced (do
      victims.forM writeVictimToDiskIfDirty
      allocateAll c numPages victims) :=
    (Within.forM paced_writeVictim victims).bind (fun _ => paced_allocateAll c numPages victims)
  exact dropOnError_sat ((hbody _).mono (fun _ _ ht => trans_of Paced hlatch ht)
    (fun _ _ ht => paced_dropGuards (trans_of Paced hlatch ht) victims))

/-- A request for a page that panics is not followed. -/
theorem paced_getPage (try_ : BufferFrame → Option BufferFrame) (denied : MemPoolStatus)
    (finish : BufferFrame → BufferFrame) (key : ContainerPageId) (s : BufferPool n) :
    Sat (getPage (grantLatch try_ denied) finish key) s (fun _ t => Paced s t)
      (Returned fun _ t => Paced s t) := by
  refine getPage_sat returned_panic (fun i _ => ?_) (fun _ _ => returned_status ⟨rfl, le_rfl⟩)
    (fun before i rest t _ _ _ hw _ => ?_)
  · refine Sat.bind (Sat.get ?_)
    cases try_ (s.frames i) with
    | none => exact Sat.throw (returned_status (refl_of Paced s))
    | some fr => exact Sat.bind (Sat.modify (Sat.pure ⟨rfl, le_rfl⟩))
  · have hlatch : Paced s (s.latched i rest) := ⟨rfl, le_rfl⟩
    have ht := trans_of Paced hlatch ((paced_writeVictim i (s.latched i rest)).ok hw)
    exact (paced_fetch finish key i t).mono (fun _ u hu => trans_of Paced ht hu)
      (fun _ u hu st _ => paced_dropGuards (trans_of Paced ht hu) [i])

theorem paced_forFrames {x : Fin n → PoolCall n Unit} (hx : ∀ i, Within Paced (x i)) :
    Within Paced (forFrames x) := by
  refine Within.forM (fun i => get_bind (fun s => ?_)) _
  split_ifs
  · exact hx i s
  · exact Sat.throw (refl_of Paced s)

/-- A call that returns has the same disk as before and has made no fewer accesses. -/
theorem exec_paced (c : Call n) (s : BufferPool n) :
    Sat c.exec s (fun _ t => Paced s t) (Returned fun _ t => Paced s t) := by
  have hwithin : ∀ {α : Type} {x : PoolCall n α}, Within Paced x →
      Sat x s (fun _ t => Paced s t) (Returned fun _ t => Paced s t) := fun hx =>
    (hx s).mono (fun _ _ ht => ht) (fun _ _ ht _ _ => ht)
  have hidle : ∀ {c : Call n} {a : Answer n}, c.exec s = .ok a s →
      Sat c.exec s (fun _ t => Paced s t) (Returned fun _ t => Paced s t) := fun h =>
    .of_ok h (refl_of Paced s)
  have hof : ∀ {α : Type} {x : PoolCall n α} (f : α → Answer n), Within Paced x →
      Sat (x >>= fun a => pure (f a)) s (fun _ t => Paced s t) (Returned fun _ t => Paced s t) :=
    fun f hx => hwithin (hx.bind (fun a => .pure (f a)))
  cases c with
  | createContainer c isTemp =>
    refine hof (fun _ => .done) (Within.modify (fun s => ?_))
    cases s.containers c with
    | some ct => exact refl_of Paced s
    | none => exact ⟨rfl, le_rfl⟩
  | dropContainer c order =>
    refine hof (fun _ => .done) (fun s => ?_)
    unfold dropContainer
    refine Sat.bind (.of_ok (getContainer_eq s c) ?_)
    refine Sat.bind (Sat.modify (Sat.bind (Sat.get ?_)))
    dsimp only
    split_ifs
    · exact ⟨rfl, le_rfl⟩
    · exact Sat.throw ⟨rfl, le_rfl⟩
  | createNewPageForWrite c =>
    exact hof .guard (paced_createNewPageForWrite c)
  | createNewPagesForWrite c numPages =>
    exact hof .guards (paced_createNewPagesForWrite c numPages)
  | isInMem | getMaxPageId | getPageIdsInMem | prefetchPage | fastEvict | resetStats =>
    exact hidle rfl
  | getPageForWrite key => exact Sat.bind (paced_getPage _ _ _ key s)
  | getPageForRead key => exact Sat.bind (paced_getPage _ _ _ key s)
  | flushAll =>
    refine hof (fun _ => .done) (Within.forM (fun i => get_bind (fun s => ?_)) _)
    split_ifs
    · exact Sat.throw (refl_of Paced s)
    · exact paced_writeVictim i s
  | stats =>
    refine hof (fun _ => .done) (Within.forM (fun i => get_bind (fun s => ?_)) _)
    split_ifs
    · exact Sat.throw (refl_of Paced s)
    · exact Sat.pure (refl_of Paced s)
  | reset =>
    refine hof (fun _ => .done) ((paced_forFrames (fun i => paced_onFrame i _)).bind (fun _ => ?_))
    exact Within.modify (fun _ => ⟨rfl, le_rfl⟩)
  | flushAllAndReset =>
    refine hof (fun _ => .done) ((paced_forFrames (fun i => ?_)).bind (fun _ => ?_))
    · exact (paced_writeVictim i).bind (fun _ => paced_onFrame i _)
    · exact Within.modify (fun _ => ⟨rfl, le_rfl⟩)
  | clearDirtyFlags => exact hof (fun _ => .done) (paced_forFrames (fun i => paced_onFrame i _))
  | dropReadGuard i =>
    refine hof (fun _ => .done) (get_bind (fun s => ?_))
    split_ifs
    · exact paced_onFrame i _ s
    · exact Sat.throw (refl_of Paced s)
  | dropWriteGuard i page =>
    refine hof (fun _ => .done) (get_bind (fun s => ?_))
    split_ifs
    · exact paced_onFrame i _ s
    · exact Sat.throw (refl_of Paced s)

/-! ### Frames that agree with the files -/

/-- A frame that is not dirty has the bytes its page has in the file. -/
def Agrees (s : BufferPool n) : Prop :=
  ∀ i key, (s.frames i).key = some key → (s.frames i).isDirty = false →
    (s.containerOf key.cId).isTemp = false → s.fileAt key = some (s.frames i).page

/-- Whoever has a write guard is going to leave the frame dirty. -/
def Guarded (s : BufferPool n) : Prop :=
  ∀ i, (s.frames i).cnt < 0 → (s.frames i).isDirty = true

structure Settled (s : BufferPool n) : Prop where
  agrees : Agrees s
  guarded : Guarded s

/-- Every page in the pool has its bytes in the file, unless its container is temporary. -/
def Durable (s : BufferPool n) : Prop :=
  ∀ key i, s.pageToFrame.lookup key = some i → (s.containerOf key.cId).isTemp = false →
    s.fileAt key = some (s.frames i).page

theorem settled_new (containers : ContainerId → Option Container) (disk : Disk) :
    Settled (new (n := n) containers disk) := by
  refine ⟨fun i key hkey _ _ => ?_, fun i hi => ?_⟩
  · cases hkey
  · exact absurd hi (lt_irrefl 0)

/-- A container that is not temporary was not before either, and has the same file. -/
def Stored (s t : BufferPool n) : Prop :=
  ∀ c, (t.containerOf c).isTemp = false →
    (s.containerOf c).isTemp = false ∧ (t.containerOf c).file = (s.containerOf c).file

theorem Stored.of_eq (h : ∀ c, t.containerOf c = s.containerOf c) : Stored s t := by
  intro c hc
  rw [h] at hc ⊢
  exact ⟨hc, rfl⟩

theorem Stored.trans {u : BufferPool n} (h : Stored s t) (h' : Stored t u) : Stored s u := by
  intro c hc
  obtain ⟨ht, hfile⟩ := h' c hc
  exact ⟨(h c ht).1, hfile.trans (h c ht).2⟩

/-- What a frame of the new state must be like: it is the frame of the old state, with more dirt, or
it agrees with the file. -/
theorem Agrees.mono (hs : Agrees s) (hst : Stored s t)
    (h : ∀ i key, (t.frames i).key = some key → (t.frames i).isDirty = false →
      (s.frames i).key = some key ∧ (s.frames i).isDirty = false ∧
        (s.frames i).page = (t.frames i).page ∨ t.fileAt key = some (t.frames i).page) :
    Agrees t := by
  intro i key hkey hclean hdisk
  rcases h i key hkey hclean with ⟨hkey', hclean', hpage⟩ | hfile
  · obtain ⟨hdisk', hfile⟩ := hst key.cId hdisk
    have hat := hs i key hkey' hclean' hdisk'
    unfold fileAt at hat ⊢
    rw [hfile, hat, hpage]
  · exact hfile

variable {i : Fin n}

/-- A frame is replaced by one with the same page that is no cleaner. -/
theorem Settled.setFrame (hs : Settled s) {fr : BufferFrame} (hkey : fr.key = (s.frames i).key)
    (hpage : fr.isDirty = false → fr.page = (s.frames i).page)
    (hdirty : fr.isDirty = false → (s.frames i).isDirty = false)
    (hcnt : fr.cnt < 0 → fr.isDirty = true) : Settled (s.setFrame i fr) := by
  refine ⟨hs.agrees.mono (.of_eq fun _ => rfl) (fun j key hj hclean => Or.inl ?_), fun j hj => ?_⟩
  · by_cases hji : j = i
    · subst hji
      rw [setFrame_self] at hj hclean ⊢
      exact ⟨hkey ▸ hj, hdirty hclean, (hpage hclean).symm⟩
    · rw [setFrame_ne _ _ _ hji] at hj hclean ⊢
      exact ⟨hj, hclean, rfl⟩
  · by_cases hji : j = i
    · subst hji
      rw [setFrame_self] at hj ⊢
      exact hcnt hj
    · rw [setFrame_ne _ _ _ hji] at hj ⊢
      exact hs.guarded j hj

theorem Settled.of_containers (hs : Settled s) (hf : t.frames = s.frames) (hst : Stored s t) :
    Settled t := by
  refine ⟨hs.agrees.mono hst (fun i key hkey hclean => Or.inl ?_), fun i hi => ?_⟩
  · rw [hf] at hkey hclean ⊢
    exact ⟨hkey, hclean, rfl⟩
  · rw [hf] at hi ⊢
    exact hs.guarded i hi

/-! ### One frame is written back -/

/-- The frame `i` has been written back if it was dirty. -/
structure Saved (i : Fin n) (s t : BufferPool n) : Prop where
  agrees : Agrees t
  others : ∀ j, j ≠ i → t.frames j = s.frames j
  self : ∃ d, t.frames i = { s.frames i with isDirty := d }
  clean : ∀ key, (t.frames i).key = some key → (t.frames i).isDirty = false
  kept : ∀ key p, (s.frames i).key ≠ some key → s.fileAt key = some p → t.fileAt key = some p

theorem faulted_ticked (h : s.disk.fault s.accesses ≠ none) : Faulted s.ticked :=
  ⟨s.accesses, Nat.lt_succ_self _, h⟩

variable {key : ContainerPageId}

/-- The frame is marked clean and its page, if the container is not temporary, is in the file. -/
theorem saved_of_file (hs : Agrees s)
    (honly : ∀ j k, (s.frames i).key = some k → (s.frames j).key = some k → j = i)
    (hkey : (s.frames i).key = some key)
    (hframes : t.frames = (s.setFrame i { s.frames i with isDirty := false }).frames)
    (htemp : ∀ c, (t.containerOf c).isTemp = false → (s.containerOf c).isTemp = false)
    (hself : (t.containerOf key.cId).isTemp = false → t.fileAt key = some (s.frames i).page)
    (hkept : ∀ k p, k ≠ key → s.fileAt k = some p → t.fileAt k = some p) : Saved i s t := by
  have hi : t.frames i = { s.frames i with isDirty := false } := by
    rw [hframes]
    exact setFrame_self ..
  have hne : ∀ j, j ≠ i → t.frames j = s.frames j := fun j hj => by
    rw [hframes]
    exact setFrame_ne _ _ _ hj
  refine ⟨fun j k hk hclean hdisk => ?_, hne, ⟨false, hi⟩, fun k _ => by rw [hi], fun k p hk hp => ?_⟩
  · by_cases hj : j = i
    · rw [hj, hi] at hk ⊢
      obtain rfl : k = key := Option.some.inj (hk.symm.trans hkey)
      exact hself hdisk
    · rw [hne j hj] at hk hclean ⊢
      refine hkept k _ (fun heq => hj (honly j k ?_ hk)) (hs j k hk hclean (htemp _ hdisk))
      rw [heq]
      exact hkey
  · exact hkept k p (fun heq => hk (heq ▸ hkey)) hp

theorem writeVictim_saved (hs : Agrees s)
    (honly : ∀ j k, (s.frames i).key = some k → (s.frames j).key = some k → j = i) :
    Sat (writeVictimToDiskIfDirty i) s (fun _ t => Saved i s t) (fun _ t => Faulted t) := by
  refine writeVictim_sat (fun hclean => ?_) (fun key hkey _ => ?_)
  · exact ⟨hs, fun _ _ => rfl, ⟨_, rfl⟩, hclean, fun _ _ _ h => h⟩
  refine writePage_sat (fun htemp => ?_) (fun msg _ hfault => faulted_ticked hfault)
    (fun htemp _ => ?_)
  · have hof := containerOf_ensured (s.setFrame i { s.frames i with isDirty := false }) key.cId
    refine saved_of_file hs honly hkey rfl (fun c hc => ?_) (fun hself => ?_) (fun k p _ hp => ?_)
    · rw [hof] at hc
      exact hc
    · rw [hof, htemp] at hself
      cases hself
    · unfold fileAt at hp ⊢
      rw [hof]
      exact hp
  · have hw := written_of_containers (t := s) (u := ((s.setFrame i
        { s.frames i with isDirty := false }).ticked).setContainer key.cId
        { s.containerOf key.cId with
          file := Container.writeAt (s.containerOf key.cId).file key.pageId.toNat (s.frames i).page })
        htemp rfl
    refine saved_of_file hs honly hkey rfl (fun c hc => ?_) (fun _ => hw.self)
      (fun k p hk hp => hw.others k p hk hp)
    have hof := containerOf_setContainer (s.setFrame i { s.frames i with isDirty := false }).ticked
      key.cId { s.containerOf key.cId with
        file := Container.writeAt (s.containerOf key.cId).file key.pageId.toNat (s.frames i).page } c
    by_cases hkc : c = key.cId
    · rw [hkc]
      exact htemp
    · rw [if_neg hkc] at hof
      exact (congrArg Container.isTemp hof).symm.trans hc

/-! ### New pages -/

/-- The frames of a list are dirty now; the other frames and the files are as before. -/
structure Dirtied (is : List (Fin n)) (s t : BufferPool n) : Prop where
  others : ∀ j, j ∉ is → t.frames j = s.frames j
  dirty : ∀ j ∈ is, (t.frames j).isDirty = true
  stored : Stored s t

theorem Dirtied.settled {is : List (Fin n)} (h : Dirtied is s t) (hs : Agrees s)
    (hg : ∀ j, j ∉ is → (s.frames j).cnt < 0 → (s.frames j).isDirty = true) : Settled t := by
  refine ⟨hs.mono h.stored (fun j key hkey hclean => Or.inl ?_), fun j hj => ?_⟩
  · have hmem : j ∉ is := fun hmem => by
      rw [h.dirty j hmem] at hclean
      cases hclean
    rw [h.others j hmem] at hkey hclean ⊢
    exact ⟨hkey, hclean, rfl⟩
  · by_cases hmem : j ∈ is
    · exact h.dirty j hmem
    · rw [h.others j hmem] at hj ⊢
      exact hg j hmem hj

theorem OnlyMap.trans {u : BufferPool n} (h : OnlyMap s t) (h' : OnlyMap t u) : OnlyMap s u :=
  ⟨h'.frames.trans h.frames, h'.hints.trans h.hints, h'.containers.trans h.containers⟩

theorem removeOldMapping_onlyMap (i : Fin n) (s : BufferPool n) :
    Sat (removeOldMapping i) s (fun _ t => OnlyMap s t) (fun e _ => e = .panic) := by
  refine Sat.bind (Sat.get ?_)
  cases (s.frames i).key with
  | none => exact Sat.pure ⟨rfl, rfl, rfl⟩
  | some old =>
    dsimp only
    cases s.pageToFrame.lookup old with
    | none => exact Sat.throw rfl
    | some j => exact ⟨rfl, rfl, rfl⟩

theorem insertMapping_onlyMap (key : ContainerPageId) (i : Fin n) (s : BufferPool n) :
    Sat (insertMapping key i) s (fun _ t => OnlyMap s t) (fun e _ => e = .panic) := by
  refine Sat.bind (Sat.get ?_)
  cases s.pageToFrame.lookup key with
  | some j => exact Sat.throw rfl
  | none => exact ⟨rfl, rfl, rfl⟩

/-- The page counter is no part of the file. -/
theorem stored_setContainer (s : BufferPool n) (c : ContainerId) (pageCount : PageId) :
    Stored s (s.setContainer c { s.containerOf c with pageCount := pageCount }) := by
  intro d hd
  rw [containerOf_setContainer] at hd ⊢
  split_ifs at hd ⊢ with h
  · rw [h]
    exact ⟨hd, rfl⟩
  · exact ⟨hd, rfl⟩

/-- A container that is dropped is temporary from then on. -/
theorem stored_dropped (s : BufferPool n) (c : ContainerId) :
    Stored s ((s.ensured c).setContainer c { s.containerOf c with isTemp := true }) := by
  intro d hd
  rw [containerOf_setContainer] at hd ⊢
  split_ifs at hd ⊢ with h
  rw [containerOf_ensured] at hd ⊢
  exact ⟨hd, rfl⟩

theorem allocate_dirtied (c : ContainerId) (i : Fin n) (s : BufferPool n) :
    Sat (allocate c i) s (fun _ t => Dirtied [i] s t) (fun e _ => e = .panic) := by
  refine Sat.bind ((removeOldMapping_onlyMap i s).mono (fun _ t hst => ?_) (fun _ _ h => h))
  refine Sat.bind (.of_ok (incPageCount_eq t c 1) ?_)
  refine Sat.bind ((insertMapping_onlyMap _ _ _).mono (fun _ u htu => ?_) (fun _ _ h => h))
  refine Sat.bind (Sat.modify (Sat.pure ⟨fun j hj => ?_, fun j hj => ?_, ?_⟩))
  · rw [setFrame_ne _ _ _ (ne_of_not_mem_cons hj), htu.frames, setContainer_frames, hst.frames]
  · rw [mem_singleton.mp hj, setFrame_self]
    rfl
  · refine (Stored.of_eq (containerOf_congr hst.containers)).trans ?_
    exact (stored_setContainer t c _).trans (.of_eq (containerOf_congr htu.containers))

theorem allocateAll_dirtied (c : ContainerId) (numPages : ℕ) (victims : List (Fin n))
    (s : BufferPool n) :
    Sat (allocateAll c numPages victims) s (fun _ t => Dirtied victims s t)
      (fun e _ => e = .panic) := by
  have hfst : victims.zipIdx.map Prod.fst = victims := zipIdx_map_fst 0 victims
  have hremove : Sat (victims.forM removeOldMapping) s (fun _ t => OnlyMap s t)
      (fun e _ => e = .panic) :=
    Sat.forM victims ⟨rfl, rfl, rfl⟩ (fun i _ t hst =>
      (removeOldMapping_onlyMap i t).mono (fun _ _ htu => hst.trans htu) (fun _ _ h => h))
  refine Sat.bind (hremove.mono (fun _ t hst => ?_) (fun _ _ h => h))
  refine Sat.bind (.of_ok (incPageCount_eq t c numPages) ?_)
  refine Sat.bind ((Sat.forM _ (I := OnlyMap _) ⟨rfl, rfl, rfl⟩ (fun v _ u hu =>
    (insertMapping_onlyMap _ _ u).mono (fun _ _ hv => hu.trans hv) (fun _ _ h => h))).mono
    (fun _ u htu => ?_) (fun _ _ h => h))
  refine Sat.bind ((Sat.forM_done (I := fun done w => (∀ j, j ∉ victims → w.frames j = u.frames j) ∧
    (∀ j ∈ done.map Prod.fst, (w.frames j).isDirty = true) ∧ w.containers = u.containers)
    victims.zipIdx ⟨fun _ _ => rfl, fun j hj => absurd hj not_mem_nil, rfl⟩ ?_).mono
    (fun _ w hw => Sat.pure ?_) (fun _ _ h => h))
  · rintro done v rest hl w ⟨hothers, hdirty, hcont⟩
    have hv : v.1 ∈ victims := by
      rw [← hfst, hl, map_append, map_cons]
      exact mem_append_right _ mem_cons_self
    refine Sat.modify ⟨fun j hj => ?_, fun j hj => ?_, hcont⟩
    · have hjv : j ≠ v.1 := fun heq => hj (heq ▸ hv)
      rw [setFrame_ne _ _ _ hjv]
      exact hothers j hj
    · by_cases hjv : j = v.1
      · rw [hjv, setFrame_self]
        rfl
      · rw [setFrame_ne _ _ _ hjv]
        rw [map_append, mem_append, map_singleton, mem_singleton] at hj
        exact hdirty j (hj.resolve_right hjv)
  · obtain ⟨hothers, hdirty, hcont⟩ := hw
    rw [hfst] at hdirty
    refine ⟨fun j hj => ?_, hdirty, ?_⟩
    · rw [hothers j hj, htu.frames, setContainer_frames, hst.frames]
    · refine (Stored.of_eq (containerOf_congr hst.containers)).trans ?_
      exact (stored_setContainer t c _).trans
        (.of_eq (containerOf_congr (hcont.trans htu.containers)))

/-! ### The calls -/

/-- The call keeps the pool settled.  When it returns an error, the pool is settled and the error
is not one of a file, or an access has failed. -/
def Settles {α : Type} (x : PoolCall n α) (s : BufferPool n) : Prop :=
  Sat x s (fun _ t => Settled t)
    (Returned fun st t => Settled t ∧ (∀ msg, st ≠ .baseFileError msg) ∨ Faulted t)

/-- In a pool with an inverse map no two frames have the same key. -/
theorem Inverse.only (hs : Inverse s) (hst : SameTable s t) (i j : Fin n) (key : ContainerPageId)
    (hi : (t.frames i).key = some key) (hj : (t.frames j).key = some key) : j = i := by
  rw [hst.key, ← hs.iff] at hi hj
  exact Option.some.inj (hj.symm.trans hi)

theorem latched_agrees (hs : Agrees s) (i : Fin n) (rest : List (Fin n)) :
    Agrees (s.latched i rest) := by
  refine hs.mono (.of_eq fun _ => rfl) (fun j key hkey hclean => Or.inl ?_)
  by_cases hj : j = i
  · rw [hj, latched, setFrame_self] at hkey hclean ⊢
    exact ⟨hkey, hclean, rfl⟩
  · rw [latched, setFrame_ne _ _ _ hj] at hkey hclean ⊢
    exact ⟨hkey, hclean, rfl⟩

/-- A victim is written back, and the other frames are left alone. -/
theorem victim_saved (hs : Settled s) (hinv : Inverse s) (i : Fin n) (rest : List (Fin n)) :
    Sat (writeVictimToDiskIfDirty i) (s.latched i rest) (fun _ t => Saved i (s.latched i rest) t ∧
      ∀ j, j ≠ i → t.frames j = s.frames j) (fun _ t => Faulted t) := by
  have hsame := sameTable_latched s i rest
  refine (writeVictim_saved (latched_agrees hs.agrees i rest) (hinv.only hsame i)).mono
    (fun _ t ht => ⟨ht, fun j hj => ?_⟩) (fun _ _ h => h)
  rw [ht.others j hj, latched, setFrame_ne _ _ _ hj]

theorem createNewPageForWrite_settles (hs : Settled s) (hinv : Inverse s) (c : ContainerId) :
    Settles (createNewPageForWrite c) s := by
  refine createNewPageForWrite_sat (fun _ => returned_status (Or.inl ⟨?_, nofun⟩))
    (fun before i rest e t _ _ hw => fun st _ => Or.inr ?_) (fun before i rest t _ _ hw => ?_)
  · exact hs.of_containers rfl (.of_eq fun _ => rfl)
  · have hfault : Faulted t := (victim_saved hs hinv i rest).error hw
    exact hfault
  · obtain ⟨hsaved, hothers⟩ := (victim_saved hs hinv i rest).ok hw
    refine (allocate_dirtied c i t).mono (fun _ u hu => ?_) (fun e u he => ?_)
    · refine hu.settled hsaved.agrees (fun j hj => ?_)
      rw [hothers j (ne_of_not_mem_cons hj)]
      exact hs.guarded j
    · rw [he]
      exact returned_panic _

theorem latchedAll_agrees (hs : Agrees s) (is rest : List (Fin n)) :
    Agrees (s.latchedAll is rest) := by
  have hfr : ∀ j, (s.latchedAll is rest).frames j =
      if j ∈ is then { s.frames j with cnt := -1 } else s.frames j := fun _ => rfl
  refine hs.mono (.of_eq fun _ => rfl) (fun j key hkey hclean => Or.inl ?_)
  rw [hfr] at hkey hclean ⊢
  split_ifs at hkey hclean ⊢
  · exact ⟨hkey, hclean, rfl⟩
  · exact ⟨hkey, hclean, rfl⟩

theorem createNewPagesForWrite_settles (hs : Settled s) (hinv : Inverse s) (c : ContainerId)
    (numPages : ℕ) : Settles (createNewPagesForWrite c numPages) s := by
  unfold createNewPagesForWrite
  split_ifs with hzero
  · exact Sat.throw (returned_panic s)
  refine Sat.bind (chooseVictims_sat (Nat.pos_of_ne_zero hzero) (fun victims rest _ _ _ => ?_))
  have hlatched := sameTable_latchedAll s victims rest
  have hothers : ∀ j, j ∉ victims → (s.latchedAll victims rest).frames j = s.frames j :=
    fun j hj => if_neg hj
  split_ifs with hempty
  · refine Sat.throw (returned_status (Or.inl ⟨hs.of_containers ?_ (.of_eq fun _ => rfl), nofun⟩))
    funext j
    rw [List.isEmpty_iff.mp hempty] at hothers ⊢
    exact hothers j not_mem_nil
  have hwrite : Sat (victims.forM writeVictimToDiskIfDirty) (s.latchedAll victims rest)
      (fun _ t => Agrees t ∧ SameTable s t ∧ ∀ j, j ∉ victims → t.frames j = s.frames j)
      (fun _ t => Faulted t) := by
    refine Sat.forM victims ⟨latchedAll_agrees hs.agrees victims rest, hlatched, hothers⟩ ?_
    rintro i hi t ⟨hagrees, hsame, ht⟩
    refine ((writeVictim_saved hagrees (hinv.only hsame i)).and (writeVictim_sameTable i t)).mono
      (fun _ u hu => ⟨hu.1.agrees, hsame.trans hu.2, fun j hj => ?_⟩) (fun _ _ h => h.1)
    rw [hu.1.others j (fun heq => hj (heq ▸ hi)), ht j hj]
  refine dropOnError_sat (Sat.bind (hwrite.mono (fun _ t ht => ?_) (fun e t ht st _ => Or.inr ht)))
  obtain ⟨hagrees, -, ht⟩ := ht
  refine (allocateAll_dirtied c numPages victims t).mono (fun _ u hu => ?_) (fun e u he => ?_)
  · refine hu.settled hagrees (fun j hj => ?_)
    rw [ht j hj]
    exact hs.guarded j
  · rw [he]
    exact returned_panic _

/-- What a page that is read does to the frames and the files; the read fails if an access fails or
the page is not in the file. -/
theorem fetch_sat (finish : BufferFrame → BufferFrame) (key : ContainerPageId) (i : Fin n)
    (s : BufferPool n) :
    Sat (fetch finish key i) s (fun _ t => (∃ p, s.fileAt key = some p ∧
        t.frames i = finish { s.frames i with page := p, key := some key }) ∧
        (∀ j, j ≠ i → t.frames j = s.frames j) ∧ ∀ c, t.containerOf c = s.containerOf c)
      (fun e t => e = .panic ∨ Faulted t ∨ s.fileAt key = none) := by
  refine Sat.bind ((removeOldMapping_onlyMap i s).mono (fun _ t hst => ?_) (fun _ _ h => Or.inl h))
  refine Sat.bind ((insertMapping_onlyMap key _ t).mono (fun _ u htu => ?_) (fun _ _ h => Or.inl h))
  have hsu := hst.trans htu
  have hof := containerOf_congr hsu.containers
  refine Sat.bind (readPage_sat (fun garbage msg hfail => Or.inr ?_) (fun p _ hp => ?_))
  · by_cases hfault : u.disk.fault u.accesses = none
    · refine Or.inr ?_
      have hnone := hfail hfault
      rw [hof] at hnone
      exact hnone
    · have hticked : Faulted u.ticked := faulted_ticked hfault
      exact Or.inl hticked
  · rw [hof] at hp
    refine Sat.bind (Sat.modify (Sat.bind (Sat.modify (Sat.pure ⟨⟨p, hp, ?_⟩, fun j hj => ?_, ?_⟩))))
    · rw [setFrame_self, setFrame_self, setFrame_self, hsu.frames]
    · rw [setFrame_ne _ _ _ hj, setFrame_ne _ _ _ hj, setFrame_ne _ _ _ hj]
      exact congrFun hsu.frames j
    · exact fun d => (containerOf_ensured u key.cId d).trans (hof d)

/-- A request for a page that is in the pool or in the file. -/
theorem getPage_settles (hs : Settled s) (hinv : Inverse s)
    {try_ : BufferFrame → Option BufferFrame} {finish : BufferFrame → BufferFrame}
    {denied : MemPoolStatus} (hkey : s.contents key ≠ none)
    (htry : ∀ fr fr', try_ fr = some fr' → fr'.key = fr.key ∧ fr'.page = fr.page ∧
      (fr'.isDirty = false → fr.isDirty = false) ∧ (fr'.cnt < 0 → fr'.isDirty = true))
    (hfinish : ∀ fr, (finish fr).key = fr.key ∧ (finish fr).page = fr.page ∧
      ((finish fr).cnt < 0 → (finish fr).isDirty = true))
    (hdenied : ∀ msg, denied ≠ .baseFileError msg) :
    Settles (getPage (grantLatch try_ denied) finish key) s := by
  refine getPage_sat returned_panic (fun i _ => ?_)
    (fun _ _ => returned_status (Or.inl ⟨hs.of_containers rfl (.of_eq fun _ => rfl), nofun⟩))
    (fun before i rest t hlook _ _ hw _ => ?_)
  · refine Sat.bind (Sat.get ?_)
    cases hfr : try_ (s.frames i) with
    | none => exact Sat.throw (returned_status (Or.inl ⟨hs, hdenied⟩))
    | some fr =>
      obtain ⟨hk, hp, hd, hc⟩ := htry _ _ hfr
      exact Sat.bind (Sat.modify (Sat.pure (hs.setFrame hk (fun _ => hp) hd hc)))
  · obtain ⟨hsaved, hothers⟩ := (victim_saved hs hinv i rest).ok hw
    rw [contents_unmapped hlook] at hkey
    obtain ⟨p, hp⟩ := Option.ne_none_iff_exists'.mp hkey
    -- the page of the victim is in the map and the page requested is not
    have hne : ((s.latched i rest).frames i).key ≠ some key := by
      rw [(sameTable_latched s i rest).key, Ne, ← hinv.iff, hlook]
      exact nofun
    have hpt : t.fileAt key = some p := hsaved.kept key p hne hp
    refine (fetch_sat finish key i t).mono (fun _ u hu => ?_) (fun e u hu => ?_)
    · obtain ⟨⟨q, hq, hfr⟩, hrest, hof⟩ := hu
      obtain rfl : q = p := Option.some.inj (hq.symm.trans hpt)
      obtain ⟨hk, hpg, hc⟩ := hfinish { t.frames i with page := q, key := some key }
      rw [← hfr] at hk hpg hc
      refine ⟨hsaved.agrees.mono (.of_eq hof) (fun j k hjk hclean => ?_), fun j hj => ?_⟩
      · by_cases hji : j = i
        · rw [hji] at hjk ⊢
          obtain rfl : k = key := (Option.some.inj (hk.symm.trans hjk)).symm
          refine Or.inr ?_
          unfold fileAt at hpt ⊢
          rw [hof, hpt, hpg]
        · rw [hrest j hji] at hjk hclean ⊢
          exact Or.inl ⟨hjk, hclean, rfl⟩
      · by_cases hji : j = i
        · rw [hji] at hj ⊢
          exact hc hj
        · rw [hrest j hji, hothers j hji] at hj ⊢
          exact hs.guarded j hj
    · rcases hu with rfl | hfault | hnone
      · exact returned_panic _
      · exact fun st _ => Or.inr hfault
      · rw [hnone] at hpt
        cases hpt

theorem flushAll_settles (hs : Agrees s) (hinv : Inverse s) :
    Sat flushAll s (fun _ t => Settled t ∧ Durable t) (Returned fun _ t => Faulted t) := by
  refine (Sat.forM_done (I := fun done t => SameTable s t ∧ Agrees t ∧ ∀ i ∈ done,
    0 ≤ (t.frames i).cnt ∧ ∀ key, (t.frames i).key = some key → (t.frames i).isDirty = false)
    (List.finRange n) ⟨SameTable.refl s, hs, fun i hi => absurd hi not_mem_nil⟩ ?_).mono
    (fun _ t ht => ?_) (fun _ _ h => h)
  · rintro done i rest _ t ⟨hsame, hagrees, hdone⟩
    refine Sat.bind (Sat.get ?_)
    split_ifs with hcnt
    · exact Sat.throw (returned_blocks t)
    refine ((writeVictim_saved hagrees (hinv.only hsame i)).and (writeVictim_sameTable i t)).mono
      (fun _ u hu => ⟨hsame.trans hu.2, hu.1.agrees, fun j hj => ?_⟩) (fun _ _ h _ _ => h.1)
    by_cases hji : j = i
    · obtain ⟨d, hd⟩ := hu.1.self
      rw [hji]
      refine ⟨?_, hu.1.clean⟩
      rw [hd]
      exact not_lt.mp hcnt
    · rw [hu.1.others j hji]
      exact hdone j ((mem_append.mp hj).resolve_right (fun h => hji (mem_singleton.mp h)))
  · obtain ⟨hsame, hagrees, hdone⟩ := ht
    refine ⟨⟨hagrees, fun i hi => ?_⟩, fun key i hmap hdisk => ?_⟩
    · exact absurd (hdone i (mem_finRange i)).1 (not_le.mpr hi)
    · have hkey := ((hinv.of_same hsame).iff key i).mp hmap
      exact hagrees i key hkey ((hdone i (mem_finRange i)).2 key hkey) hdisk

/-- The other frames stay as they are and the latch of the frame is not touched. -/
def Apart (i : Fin n) (s t : BufferPool n) : Prop :=
  (∀ j, j ≠ i → t.frames j = s.frames j) ∧ (t.frames i).cnt = (s.frames i).cnt

theorem writeVictim_apart (i : Fin n) (s : BufferPool n) :
    Sat (writeVictimToDiskIfDirty i) s (fun _ t => Apart i s t) (fun _ t => Faulted t) := by
  have hapart : ∀ t : BufferPool n,
      t.frames = (s.setFrame i { s.frames i with isDirty := false }).frames → Apart i s t := by
    intro t ht
    refine ⟨fun j hj => ?_, ?_⟩
    · rw [ht, setFrame_ne _ _ _ hj]
    · rw [ht, setFrame_self]
  refine writeVictim_sat (fun _ => ⟨fun _ _ => rfl, rfl⟩) (fun key _ _ => ?_)
  exact writePage_sat (fun _ => hapart _ rfl) (fun _ _ hfault => faulted_ticked hfault)
    (fun _ _ => hapart _ rfl)

/-- The loops of `reset` and `flushAllAndReset`; `x` is what is done to a frame before it is
cleared. -/
theorem forFrames_settles {x : Fin n → PoolCall n Unit}
    (hx : ∀ i t, Sat (x i) t (fun _ u => Apart i t u) (fun _ u => Faulted u)) (s : BufferPool n) :
    Settles (do forFrames (fun i => do x i; onFrame i .clear); forgetPages) s := by
  have hloop : Sat (forFrames fun i => do x i; onFrame i .clear) s
      (fun _ t => ∀ i ∈ List.finRange n, (t.frames i).key = none ∧ (t.frames i).cnt = 0)
      (Returned fun st t => Settled t ∧ (∀ msg, st ≠ .baseFileError msg) ∨ Faulted t) := by
    refine Sat.forM_done (I := fun done (t : BufferPool n) => ∀ i ∈ done, (t.frames i).key = none ∧
      (t.frames i).cnt = 0) _ (fun i hi => absurd hi not_mem_nil) ?_
    intro done i rest _ t hdone
    refine Sat.bind (Sat.get ?_)
    split_ifs with hcnt
    · refine Sat.bind ((hx i t).mono (fun _ u hu => ?_) (fun _ _ h _ _ => Or.inr h))
      refine Sat.modify (fun j hj => ?_)
      by_cases hji : j = i
      · rw [hji, setFrame_self]
        exact ⟨rfl, hu.2.trans hcnt⟩
      · rw [setFrame_ne _ _ _ hji, hu.1 j hji]
        exact hdone j ((mem_append.mp hj).resolve_right (fun h => hji (mem_singleton.mp h)))
    · exact Sat.throw (returned_blocks t)
  refine Sat.bind (hloop.mono (fun _ t ht => Sat.modify ⟨fun i key hkey => ?_, fun i hi => ?_⟩)
    (fun _ _ h => h))
  · have hnone : (t.frames i).key = some key := hkey
    rw [(ht i (mem_finRange i)).1] at hnone
    cases hnone
  · have hlt : (t.frames i).cnt < 0 := hi
    rw [(ht i (mem_finRange i)).2] at hlt
    exact absurd hlt (lt_irrefl 0)

/-! ### Runs -/

/-- The call asks for a page only if it is in the pool or in its file, and does not clear the
flags. -/
def Grounded (s : BufferPool n) : Call n → Prop
  | .getPageForRead key | .getPageForWrite key => s.contents key ≠ none
  | .clearDirtyFlags => False
  | _ => True

/-- What one call does to a settled pool. -/
theorem exec_settles (hs : Settled s) (hinv : Inverse s) (c : Call n) (hc : Grounded s c) :
    Settles c.exec s := by
  have hof : ∀ {α : Type} {x : PoolCall n α} (f : α → Answer n), Settles x s →
      Settles (x >>= fun a => pure (f a)) s := fun f hx => Sat.bind hx
  have hidle : ∀ {c : Call n} {a : Answer n}, c.exec s = .ok a s → Settles c.exec s := fun h =>
    .of_ok h hs
  have hnever : ∀ {x : PoolCall n Unit}, Sat x s (fun _ t => Settled t) (Returned fun _ _ => False) →
      Settles x s := fun hx => hx.mono (fun _ _ h => h) (fun _ _ h st hst => (h st hst).elim)
  cases c with
  | createContainer c isTemp =>
    refine hof (fun _ => .done) (Sat.modify ?_)
    cases hct : s.containers c with
    | some ct => exact hs
    | none =>
      refine hs.of_containers rfl (fun d hd => ?_)
      rw [containerOf_setContainer] at hd ⊢
      split_ifs at hd ⊢ with hdc htemp
      · cases hd
      · rw [hdc, containerOf, hct]
        exact ⟨rfl, rfl⟩
      · exact ⟨hd, rfl⟩
  | dropContainer c order =>
    refine hof (fun _ => .done) ?_
    refine Sat.bind (.of_ok (getContainer_eq s c) (Sat.bind (Sat.modify (Sat.bind (Sat.get ?_)))))
    dsimp only
    split_ifs
    · exact hs.of_containers rfl (stored_dropped s c)
    · exact Sat.throw (returned_panic _)
  | createNewPageForWrite c => exact hof .guard (createNewPageForWrite_settles hs hinv c)
  | createNewPagesForWrite c numPages =>
    exact hof .guards (createNewPagesForWrite_settles hs hinv c numPages)
  | isInMem | getMaxPageId | getPageIdsInMem | prefetchPage | fastEvict | resetStats =>
    exact hidle rfl
  | getPageForWrite key =>
    refine hof .guard (getPage_settles hs hinv hc (fun fr fr' h => ?_)
      (fun fr => ⟨rfl, rfl, fun _ => rfl⟩) (fun _ hmsg => by cases hmsg))
    unfold BufferFrame.tryWrite at h
    split_ifs at h
    cases h
    exact ⟨rfl, rfl, fun hclean => (by cases hclean), fun _ => rfl⟩
  | getPageForRead key =>
    refine hof .guard (getPage_settles hs hinv hc (fun fr fr' h => ?_)
      (fun fr => ⟨rfl, rfl, fun hcnt => absurd hcnt (not_lt.mpr zero_le_one)⟩)
      (fun _ hmsg => by cases hmsg))
    unfold BufferFrame.tryRead at h
    split_ifs at h with hcnt
    cases h
    refine ⟨rfl, rfl, id, fun hlt => ?_⟩
    dsimp only at hlt
    omega
  | flushAll =>
    refine hof (fun _ => .done) ((flushAll_settles hs.agrees hinv).mono (fun _ _ h => h.1) ?_)
    exact fun _ _ h st hst => Or.inr (h st hst)
  | stats =>
    exact hof (fun _ => .done) (hnever ((stats_same s).mono (fun _ t ht => ht ▸ hs) (fun _ _ h => h)))
  | reset =>
    refine hof (fun _ => .done) (forFrames_settles (x := fun _ => pure ()) (fun i t => ?_) s)
    exact Sat.pure ⟨fun _ _ => rfl, rfl⟩
  | flushAllAndReset => exact hof (fun _ => .done) (forFrames_settles writeVictim_apart s)
  | clearDirtyFlags => exact hc.elim
  | dropReadGuard i =>
    refine hof (fun _ => .done) (hnever (dropReadGuard_sat (fun hcnt => ?_)))
    refine hs.setFrame rfl (fun _ => rfl) id (fun hlt => ?_)
    have hsub : (s.frames i).cnt - 1 < 0 := hlt
    omega
  | dropWriteGuard i page =>
    refine hof (fun _ => .done) (hnever (dropWriteGuard_sat (fun hcnt => ?_)))
    have hdirty := hs.guarded i hcnt
    refine hs.setFrame rfl (fun hclean => ?_) id (fun _ => hdirty)
    exact absurd (hclean.symm.trans hdirty) Bool.false_ne_true

end BufferPool

namespace Trace

variable {n : ℕ} {s : BufferPool n}

theorem paced {es : List (Event n)} {t : BufferPool n} (h : Trace s es t) : s.Paced t := by
  induction h with
  | start => exact refl_of BufferPool.Paced s
  | ok _ hc ih => exact trans_of BufferPool.Paced ih ((exec_paced _ _).ok hc)
  | error _ hc ih =>
    exact trans_of BufferPool.Paced ih ((exec_paced _ _).error hc _ rfl)

/-- A run keeps the pool settled and the map and the keys inverse, or an access has failed. -/
theorem settled (hn : n ≤ 2 ^ 32) (hs : s.Settled) (hinv : s.Inverse) {es : List (Event n)}
    {t : BufferPool n} (h : Trace s es t)
    (hcalls : ∀ pre ev v, pre ++ [ev] <+: es → Trace s pre v → v.Grounded ev.call) :
    t.Settled ∧ t.Inverse ∨ t.Faulted := by
  induction h with
  | start => exact Or.inl ⟨hs, hinv⟩
  | @ok es t u c a h hc ih =>
    have hcall : t.Grounded c := hcalls es _ t (prefix_refl _) h
    rcases ih (fun pre ev v hpre => hcalls pre ev v (hpre.trans (prefix_append _ _)))
      with ⟨ht, htinv⟩ | hfault
    · exact Or.inl ⟨(exec_settles ht htinv c hcall).ok hc,
        ((exec_inverseAfter hn htinv c).ok hc).1⟩
    · exact Or.inr (hfault.paced ((exec_paced c t).ok hc))
  | @error es t u c e h hc ih =>
    have hcall : t.Grounded c := hcalls es _ t (prefix_refl _) h
    rcases ih (fun pre ev v hpre => hcalls pre ev v (hpre.trans (prefix_append _ _)))
      with ⟨ht, htinv⟩ | hfault
    · rcases (exec_settles ht htinv c hcall).error hc e rfl with ⟨hu, hfile⟩ | hfault
      · obtain ⟨hiff, hderails⟩ := (exec_inverseAfter hn htinv c).error hc e rfl
        refine Or.inl ⟨hu, hiff.mpr (fun h => ?_)⟩
        obtain ⟨msg, hmsg⟩ := hderails h
        exact hfile msg hmsg
      · exact Or.inr hfault
    · exact Or.inr (hfault.paced ((exec_paced c t).error hc e rfl))

end Trace

/-- In a run in which no access to a file has failed, only pages that exist are requested and the
flags are not cleared, a flush that returns leaves every page of the pool in its file. -/
theorem durable_of_sound_disk {n : ℕ} (hn : n ≤ 2 ^ 32) (containers : ContainerId → Option Container)
    (disk : Disk) (es : List (Event n)) (t u : BufferPool n)
    (hrun : Trace (.new containers disk) es t)
    (hcalls : ∀ pre ev v, pre ++ [ev] <+: es → Trace (.new containers disk) pre v →
      v.Grounded ev.call)
    (hdisk : ∀ k < t.accesses, disk.fault k = none)
    (hflush : BufferPool.flushAll t = .ok () u) : u.Durable := by
  have hnew := BufferPool.inverse_new (n := n) containers disk
  rcases hrun.settled hn (BufferPool.settled_new containers disk) hnew hcalls
    with ⟨ht, hinv⟩ | ⟨k, hk, hfault⟩
  · exact ((BufferPool.flushAll_settles ht.agrees hinv).ok hflush).2
  · rw [hrun.paced.disk] at hfault
    exact absurd (hdisk k hk) hfault

/-- A page is created and its guard is dropped. -/
def createAndLeave : List (Event 1) :=
  [⟨.createNewPageForWrite 0, .ok (.guard 0)⟩, ⟨.dropWriteGuard 0 Page.zeros, .ok .done⟩]

theorem durable_of_sound_disk_create : ∃ t u : BufferPool 1,
    Trace (.new (fun _ => none) soundDisk) createAndLeave t ∧ BufferPool.flushAll t = .ok () u ∧
      u.pageToFrame.lookup ⟨0, 0⟩ = some 0 ∧ u.fileAt ⟨0, 0⟩ = some Page.zeros ∧ u.Durable := by
  have h₀ : Trace (.new (n := 1) (fun _ => none) soundDisk) [] _ := .start
  have h₁ := h₀.ok (c := .createNewPageForWrite 0) (a := .guard 0) rfl
  have h₂ := h₁.ok (c := .dropWriteGuard 0 Page.zeros) (a := .done) rfl
  refine ⟨_, _, h₂, rfl, rfl, rfl, durable_of_sound_disk (by decide) _ soundDisk createAndLeave _ _
    h₂ (fun pre ev v hpre _ => ?_) (fun _ _ => rfl) rfl⟩
  have hmem : ev ∈ createAndLeave :=
    hpre.subset (List.mem_append_right pre (List.mem_singleton.mpr rfl))
  simp only [createAndLeave, List.mem_cons, List.not_mem_nil, or_false] at hmem
  rcases hmem with rfl | rfl
  · trivial
  · trivial

/-- A disk whose first access fails. -/
def fullDisk : Disk :=
  ⟨fun k => if k = 0 then some Page.zeros else none, fun _ => "No space left on device (os error 28)"⟩

/-- A flush fails to write the only page of the pool and says so.  The next flush returns without an
error, and the page is not in the file. -/
theorem flushAll_retry_loses_page : ∃ t u : BufferPool 1,
    Trace (.new (fun _ => none) fullDisk) (createAndLeave ++
      [⟨.flushAll, .error (.baseFileError "No space left on device (os error 28)")⟩]) t ∧
      BufferPool.flushAll t = .ok () u ∧ u.pageToFrame.lookup ⟨0, 0⟩ = some 0 ∧
      (u.containerOf 0).isTemp = false ∧ u.fileAt ⟨0, 0⟩ = none ∧ ¬ u.Durable := by
  have h₀ : Trace (.new (n := 1) (fun _ => none) fullDisk) [] _ := .start
  have h₁ := h₀.ok (c := .createNewPageForWrite 0) (a := .guard 0) rfl
  have h₂ := h₁.ok (c := .dropWriteGuard 0 Page.zeros) (a := .done) rfl
  refine ⟨_, _, h₂.error (c := .flushAll) rfl, rfl, rfl, rfl, rfl, fun h => ?_⟩
  exact absurd (h ⟨0, 0⟩ 0 rfl rfl) nofun

end CrustyDB
