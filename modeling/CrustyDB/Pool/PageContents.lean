import CrustyDB.Pool.PagePresence

/-! # The pool as a store of pages

What the pool says is on a page is in the frame of the page when it has one, and in the file
otherwise (`contents`).  A client that drops its guards between the calls sees a store: a guard
shows the contents, a write guard that is dropped replaces them, and the flushes change nothing,
since a frame that is not dirty agrees with the file (`Coherent`).

A page that is created is the exception.  Its guard shows whatever the frame held before, and the
counter the page ids come from wraps around, so that a container with `2 ^ 32` pages hands out the
id of a page that exists (`createNewPageForWrite_again`).  As long as no container has that many
pages, every guard shows what the last write guard left (`shows_lastLeft`). -/

namespace CrustyDB

open Stateful List

namespace Container

theorem writeAt_self (file : List Page) (i : ℕ) (p : Page) : (writeAt file i p)[i]? = some p := by
  unfold writeAt
  split_ifs with h
  · exact getElem?_set_self h
  · rw [getElem?_append_right]
    all_goals simp only [length_append, length_replicate]
    · rw [show i - (file.length + (i - file.length)) = 0 by omega]
      rfl
    · omega

theorem writeAt_other {file : List Page} {i j : ℕ} (p : Page) (h : j ≠ i) {q : Page}
    (hq : file[j]? = some q) : (writeAt file i p)[j]? = some q := by
  have hlt : j < file.length := (List.getElem?_eq_some_iff.mp hq).1
  unfold writeAt
  split_ifs with hi
  · rw [getElem?_set_ne (Ne.symm h)]
    exact hq
  · rw [append_assoc, getElem?_append_left hlt]
    exact hq

theorem length_writeAt_le {file : List Page} {i k : ℕ} (p : Page) (hf : file.length ≤ k) (hi : i < k) :
    (writeAt file i p).length ≤ k := by
  unfold writeAt
  split_ifs with h
  · rw [length_set]
    exact hf
  · simp only [length_append, length_replicate, length_singleton]
    omega

end Container

namespace BufferPool

variable {n : ℕ} {s : BufferPool n}

/-! ### The contents of a page -/

/-- The page as it is in the file. -/
def fileAt (s : BufferPool n) (key : ContainerPageId) : Option Page :=
  (s.containerOf key.cId).file[key.pageId.toNat]?

/-- The page as the pool has it. -/
def contents (s : BufferPool n) (key : ContainerPageId) : Option Page :=
  match s.pageToFrame.lookup key with
  | some i => some (s.frames i).page
  | none => s.fileAt key

variable {key : ContainerPageId} {i : Fin n} {t : BufferPool n}

theorem contents_mapped (h : s.pageToFrame.lookup key = some i) :
    s.contents key = some (s.frames i).page := by
  unfold contents
  rw [h]

theorem contents_unmapped (h : s.pageToFrame.lookup key = none) :
    s.contents key = s.fileAt key := by
  unfold contents
  rw [h]

theorem containerOf_congr (h : t.containers = s.containers) (c : ContainerId) :
    t.containerOf c = s.containerOf c := by
  unfold containerOf
  rw [h]

theorem fileAt_congr (h : t.containers = s.containers) (key : ContainerPageId) :
    t.fileAt key = s.fileAt key := by
  unfold fileAt
  rw [containerOf_congr h]

/-- A frame that holds a page and is not dirty agrees with the file. -/
structure Coherent (s : BufferPool n) : Prop where
  good : Good s
  inverse : Inverse s
  clean : ∀ i key, (s.frames i).key = some key → (s.frames i).isDirty = false →
    s.fileAt key = some (s.frames i).page

theorem coherent_new (files : ContainerId → Option (List Page)) (disk : Disk) :
    Coherent (new (n := n) (catalog files) disk) :=
  ⟨⟨tidy_new files disk, safe_new files disk⟩, inverse_new _ disk, nofun⟩

/-! ### Guards -/

/-- What a call that returns a guard of the frame `i` for a page has done: the page is in the frame,
and nothing is different about the other pages. -/
structure Obtained (s t : BufferPool n) (key : ContainerPageId) (i : Fin n) : Prop where
  self : t.pageToFrame.lookup key = some i
  others : ∀ k, k ≠ key → t.pageToFrame.lookup k = s.pageToFrame.lookup k
  frames : ∀ j, j ≠ i → t.frames j = s.frames j
  only : ∀ k, s.pageToFrame.lookup k = some i → k = key
  file : ∀ k, t.fileAt k = s.fileAt k

theorem Obtained.contents {k : ContainerPageId} (h : Obtained s t key i) (hk : k ≠ key) :
    t.contents k = s.contents k := by
  have hlook := h.others k hk
  cases hs : s.pageToFrame.lookup k with
  | none => rw [contents_unmapped (hlook.trans hs), contents_unmapped hs, h.file]
  | some j =>
    have hj : j ≠ i := by
      rintro rfl
      exact hk (h.only k hs)
    rw [contents_mapped (hlook.trans hs), contents_mapped hs, h.frames j hj]

/-- The client changes the frame it has the guard of and drops the guard. -/
theorem Obtained.setFrame (h : Obtained s t key i) (fr : BufferFrame) :
    Obtained s (t.setFrame i fr) key i :=
  ⟨h.self, h.others, fun j hj => (setFrame_ne t i fr hj).trans (h.frames j hj), h.only, h.file⟩

theorem Obtained.clean (h : Obtained s t key i) (hs : Coherent s)
    (hi : ∀ k, (t.frames i).key = some k → (t.frames i).isDirty = false →
      t.fileAt k = some (t.frames i).page) :
    ∀ j k, (t.frames j).key = some k → (t.frames j).isDirty = false →
      t.fileAt k = some (t.frames j).page := by
  intro j k hk hd
  by_cases hj : j = i
  · rw [hj] at hk hd ⊢
    exact hi k hk hd
  · rw [h.frames j hj] at hk hd ⊢
    rw [h.file]
    exact hs.clean j k hk hd

/-! ### Flushes -/

/-- A loop that writes frames back, when it is done with some of them. -/
structure Flushing (s : BufferPool n) (done : List (Fin n)) (t : BufferPool n) : Prop where
  map : t.pageToFrame = s.pageToFrame
  nonTemp : ∀ c ct, t.containers c = some ct → ct.isTemp = false
  page : ∀ i, (t.frames i).page = (s.frames i).page
  ahead : ∀ i, i ∉ done → t.frames i = s.frames i
  synced : ∀ i ∈ done, ∀ key, (s.frames i).key = some key → t.fileAt key = some (s.frames i).page
  kept : ∀ key p, (∀ i ∈ done, (s.frames i).key ≠ some key) → s.fileAt key = some p →
    t.fileAt key = some p
  count : ∀ c, (t.containerOf c).pageCount = (s.containerOf c).pageCount
  length : ∀ c k, (s.containerOf c).file.length ≤ k →
    (∀ i key, (s.frames i).key = some key → key.cId = c → key.pageId.toNat < k) →
    (t.containerOf c).file.length ≤ k

theorem Flushing.start (hs : Coherent s) : Flushing s [] s :=
  ⟨rfl, hs.good.tidy.nonTemp, fun _ => rfl, fun _ _ => rfl, fun _ hi => absurd hi not_mem_nil,
    fun _ _ _ h => h, fun _ => rfl, fun _ _ h _ => h⟩

/-- The file after one page is written. -/
structure Written (t u : BufferPool n) (key : ContainerPageId) (p : Page) : Prop where
  self : u.fileAt key = some p
  others : ∀ k q, k ≠ key → t.fileAt k = some q → u.fileAt k = some q
  nonTemp : (∀ c ct, t.containers c = some ct → ct.isTemp = false) →
    ∀ c ct, u.containers c = some ct → ct.isTemp = false
  count : ∀ c, (u.containerOf c).pageCount = (t.containerOf c).pageCount
  length : ∀ c k, (t.containerOf c).file.length ≤ k → (key.cId = c → key.pageId.toNat < k) →
    (u.containerOf c).file.length ≤ k

theorem written_of_containers {u : BufferPool n} {p : Page}
    (htemp : (t.containerOf key.cId).isTemp = false)
    (hu : u.containers = (t.setContainer key.cId { t.containerOf key.cId with
      file := Container.writeAt (t.containerOf key.cId).file key.pageId.toNat p }).containers) :
    Written t u key p := by
  have hof := fun c => (containerOf_congr hu c).trans (containerOf_setContainer ..)
  refine ⟨?_, fun k q hk hq => ?_, fun hnt c ct hct => ?_, fun c => ?_, fun c k hle hlt => ?_⟩
  · unfold fileAt
    rw [hof, if_pos rfl]
    exact Container.writeAt_self ..
  · unfold fileAt at hq ⊢
    rw [hof]
    split_ifs with hc
    · rw [hc] at hq
      refine Container.writeAt_other _ (fun hid => hk ?_) hq
      obtain ⟨c, id⟩ := k
      obtain ⟨c', id'⟩ := key
      obtain rfl : c = c' := hc
      obtain rfl : id = id' := UInt32.toNat_inj.mp hid
      rfl
    · exact hq
  · rw [hu] at hct
    by_cases hc : c = key.cId
    · rw [hc, setContainer_self] at hct
      rw [← Option.some.inj hct]
      exact htemp
    · rw [setContainer_ne _ _ _ hc] at hct
      exact hnt c ct hct
  · rw [hof]
    split_ifs with hc
    · rw [hc]
    · rfl
  · rw [hof]
    split_ifs with hc
    · rw [hc] at hle
      exact Container.length_writeAt_le _ hle (hlt hc.symm)
    · exact hle

theorem Flushing.setFrame {done : List (Fin n)} (h : Flushing s done t) (hi : i ∈ done)
    {fr : BufferFrame} (hp : fr.page = (t.frames i).page) : Flushing s done (t.setFrame i fr) := by
  refine ⟨h.map, h.nonTemp, fun j => ?_, fun j hj => ?_, h.synced, h.kept, h.count, h.length⟩
  · by_cases hji : j = i
    · rw [hji, setFrame_self, hp, h.page]
    · rw [setFrame_ne _ _ _ hji, h.page]
  · have hji : j ≠ i := fun hji => hj (hji ▸ hi)
    rw [setFrame_ne _ _ _ hji, h.ahead j hj]

theorem Coherent.frame_unique (hs : Coherent s) {j : Fin n} (hi : (s.frames i).key = some key)
    (hj : (s.frames j).key = some key) : i = j := by
  rw [← hs.inverse.iff] at hi hj
  exact Option.some.inj (hi.symm.trans hj)

variable {E : Stop → BufferPool n → Prop}

/-- One round of a flush. -/
theorem writeVictim_flushing (hE : ∀ e t, E e t) (hs : Coherent s) {done : List (Fin n)}
    (ht : Flushing s done t) (hi : i ∉ done) :
    Sat (writeVictimToDiskIfDirty i) t (fun _ u => Flushing s (done ++ [i]) u) E := by
  have hframe := ht.ahead i hi
  have hnot : ∀ key, (s.frames i).key = some key → ∀ j ∈ done, (s.frames j).key ≠ some key :=
    fun key hkey j hj hjk => hi (hs.frame_unique hkey hjk ▸ hj)
  have hmem : ∀ j, j ∉ done ++ [i] → j ∉ done := fun j hj hmem => hj (mem_append_left _ hmem)
  refine writeVictim_sat (fun hclean => ?_) (fun key hkey hdirty => ?_)
  · rw [hframe] at hclean
    refine ⟨ht.map, ht.nonTemp, ht.page, fun j hj => ht.ahead j (hmem j hj), ?_, ?_, ht.count, ht.length⟩
    · intro j hj key hkey
      rcases mem_append.mp hj with hj | hj
      · exact ht.synced j hj key hkey
      · rw [mem_singleton.mp hj] at hkey ⊢
        exact ht.kept key _ (hnot key hkey) (hs.clean i key hkey (hclean key hkey))
    · exact fun key p hall hp => ht.kept key p (fun j hj => hall j (mem_append_left _ hj)) hp
  · rw [hframe] at hkey
    refine writePage_sat (fun htemp => ?_) (fun msg _ _ => hE _ _) (fun htemp _ => ?_)
    · have hnt : (t.containerOf key.cId).isTemp = false := by
        unfold containerOf
        cases hc : t.containers key.cId with
        | none => rfl
        | some ct => exact ht.nonTemp _ ct hc
      have htrue : (t.containerOf key.cId).isTemp = true := htemp
      rw [hnt] at htrue
      cases htrue
    · have hw := written_of_containers (t := t) (u := ((t.setFrame i
          { t.frames i with isDirty := false }).ticked).setContainer key.cId
          { t.containerOf key.cId with
            file := Container.writeAt (t.containerOf key.cId).file key.pageId.toNat (t.frames i).page })
          htemp rfl
      refine ⟨ht.map, hw.nonTemp ht.nonTemp, fun j => ?_, fun j hj => ?_, fun j hj k hk => ?_,
        fun k p hall hp => ?_, fun c => (hw.count c).trans (ht.count c), fun c k hle hlt => ?_⟩
      · show ((t.setFrame i { t.frames i with isDirty := false }).frames j).page = _
        by_cases hji : j = i
        · rw [hji, setFrame_self, hframe]
        · rw [setFrame_ne _ _ _ hji, ht.page]
      · show (t.setFrame i { t.frames i with isDirty := false }).frames j = _
        have hji : j ≠ i := fun hji => hj (mem_append_right _ (mem_singleton.mpr hji))
        rw [setFrame_ne _ _ _ hji, ht.ahead j (hmem j hj)]
      · rcases mem_append.mp hj with hj | hj
        · refine hw.others k _ (fun heq => hnot key hkey j hj ?_) (ht.synced j hj k hk)
          rw [← heq]
          exact hk
        · rw [mem_singleton.mp hj] at hk ⊢
          obtain rfl : k = key := Option.some.inj (hk.symm.trans hkey)
          exact hw.self.trans (by rw [hframe])
      · refine hw.others k p (fun heq => hall i ?_ (heq ▸ hkey)) (ht.kept k p (fun j hj => hall j ?_) hp)
        · exact mem_append_right _ (mem_singleton.mpr rfl)
        · exact mem_append_left _ hj
      · exact hw.length c k (ht.length c k hle hlt) (fun hc => hlt i key hkey hc)

/-- After a flush the pages that had a frame are in the file. -/
theorem Flushing.contents (h : Flushing s (List.finRange n) t) (hs : Coherent s) {p : Page}
    (hp : s.contents key = some p) : t.fileAt key = some p := by
  cases hk : s.pageToFrame.lookup key with
  | some i =>
    rw [contents_mapped hk] at hp
    rw [hs.inverse.iff] at hk
    rw [h.synced i (mem_finRange i) key hk]
    exact hp
  | none =>
    rw [contents_unmapped hk] at hp
    refine h.kept key p (fun i _ hi => ?_) hp
    rw [← hs.inverse.iff, hk] at hi
    cases hi

theorem flushAll_flushing (hE : ∀ e t, E e t) (hs : Coherent s) :
    Sat flushAll s (fun _ t => Flushing s (List.finRange n) t) E := by
  refine Sat.forM_done (I := Flushing s) (List.finRange n) (.start hs) ?_
  intro done i rest hl t ht
  have hi : i ∉ done := by
    have hnd := nodup_finRange n
    rw [hl] at hnd
    exact fun hmem => disjoint_of_nodup_append hnd hmem mem_cons_self
  refine Sat.bind (Sat.get ?_)
  split_ifs
  · exact Sat.throw (hE _ _)
  · exact writeVictim_flushing hE hs ht hi

theorem flushAllAndReset_flushing (hE : ∀ e t, E e t) (hs : Coherent s) :
    Sat flushAllAndReset s (fun _ t => (∃ u, Flushing s (List.finRange n) u ∧
      t.containers = u.containers) ∧ t.pageToFrame = ∅ ∧ ∀ i, (t.frames i).key = none) E := by
  unfold flushAllAndReset
  refine Sat.bind ((Sat.forM_done (I := fun done t => Flushing s done t ∧
    ∀ i ∈ done, (t.frames i).key = none) (List.finRange n)
    ⟨.start hs, fun i hi => absurd hi not_mem_nil⟩ ?_).mono (fun _ u hu => ?_) (fun _ _ h => h))
  · rintro done i rest hl t ⟨ht, hdone⟩
    have hi : i ∉ done := by
      have hnd := nodup_finRange n
      rw [hl] at hnd
      exact fun hmem => disjoint_of_nodup_append hnd hmem mem_cons_self
    refine Sat.bind (Sat.get ?_)
    split_ifs
    · refine Sat.bind (((writeVictim_flushing hE hs ht hi).and (writeVictim_sameTable i t)).mono
        (fun _ u hu => ?_) (fun _ _ h => h.1))
      obtain ⟨hu, hsame⟩ := hu
      have hmem : i ∈ done ++ [i] := mem_append_right _ (mem_singleton.mpr rfl)
      refine Sat.modify ⟨hu.setFrame hmem rfl, fun j hj => ?_⟩
      by_cases hji : j = i
      · rw [hji, setFrame_self]
        rfl
      · rw [setFrame_ne _ _ _ hji, hsame.key]
        rcases mem_append.mp hj with hj | hj
        · exact hdone j hj
        · exact absurd (mem_singleton.mp hj) hji
    · exact Sat.throw (hE _ _)
  · exact Sat.modify ⟨⟨u, hu.1, rfl⟩, rfl, fun i => hu.2 i (mem_finRange i)⟩

/-! ### The calls of a client that drops its guards -/

/-- A page is created in a frame that was free. -/
theorem createNewPageForWrite_obtained (hn : n ≤ 2 ^ 32) (hE : ∀ e t, E e t) (hs : Coherent s)
    (c : ContainerId) :
    Sat (createNewPageForWrite c) s (fun i t => Obtained s t ⟨c, (s.containerOf c).pageCount⟩ i ∧
      (t.frames i).key = some ⟨c, (s.containerOf c).pageCount⟩ ∧ (t.frames i).isDirty = true ∧
      (∀ d, (t.containerOf d).pageCount =
        if d = c then (s.containerOf c).pageCount + UInt32.ofNat 1 else (s.containerOf d).pageCount) ∧
      ∀ d, (t.containerOf d).file = (s.containerOf d).file) E := by
  refine createNewPageForWrite_tidy hn hs.good.tidy (hE _) (hE _ _) (fun before i rest hh hlook => ?_)
  obtain ⟨-, hfree⟩ := hs.good.tidy.victim hh
  have hof : ∀ d, ((s.latched i rest).created c i).containerOf d =
      if d = c then { s.containerOf c with
        pageCount := (s.containerOf c).pageCount + UInt32.ofNat 1 } else s.containerOf d :=
    fun d => containerOf_setContainer s c _ d
  have hfile : ∀ d, (((s.latched i rest).created c i).containerOf d).file = (s.containerOf d).file := by
    intro d
    rw [hof]
    split_ifs with hd
    · rw [hd]
    · rfl
  refine ⟨⟨AList.lookup_insert _, fun k hk => AList.lookup_insert_ne hk, fun j hj => ?_,
    fun k hk => absurd hk (hfree k), fun k => ?_⟩, ?_, ?_, fun d => ?_, hfile⟩
  · unfold created
    rw [setFrame_ne _ _ _ hj]
    exact setFrame_ne _ _ _ hj
  · unfold fileAt
    rw [hfile]
  · unfold created
    rw [setFrame_self]
    rfl
  · unfold created
    rw [setFrame_self]
    rfl
  · rw [hof]
    split_ifs <;> rfl

/-- A guard for a page that exists shows its contents. -/
theorem getPage_obtained (hn : n ≤ 2 ^ 32) (hE : ∀ e t, E e t) (hs : Coherent s)
    {try_ : BufferFrame → Option BufferFrame} {finish : BufferFrame → BufferFrame}
    {denied : MemPoolStatus} {P : BufferFrame → Prop}
    (htry : ∀ fr fr', try_ fr = some fr' → fr'.key = fr.key ∧ fr'.page = fr.page ∧
      (fr'.isDirty = false → fr.isDirty = false) ∧ P fr')
    (hfinish : ∀ fr, (finish fr).key = fr.key ∧ (finish fr).page = fr.page ∧ P (finish fr))
    (key : ContainerPageId) :
    Sat (getPage (grantLatch try_ denied) finish key) s (fun i t => Obtained s t key i ∧
      s.contents key = some (t.frames i).page ∧ (t.frames i).key = some key ∧ P (t.frames i) ∧
      ((t.frames i).isDirty = false → t.fileAt key = some (t.frames i).page) ∧
      ∀ d, t.containerOf d = s.containerOf d) E := by
  refine getPage_tidy hn hs.good.tidy (hE _) (fun i hi => ?_) (hE _ _)
    (fun _ _ _ _ _ _ _ => hE _ _) (fun before i rest p hlook hh hp => ?_)
  · unfold grantLatch
    refine Sat.bind (Sat.get ?_)
    cases hfr : try_ (s.frames i) with
    | none => exact Sat.throw (hE _ _)
    | some fr =>
      obtain ⟨hkey, hpage, hdirty, hP⟩ := htry _ _ hfr
      have hik := (hs.inverse.iff key i).mp hi
      have hob : Obtained s s key i := by
        refine ⟨hi, fun _ _ => rfl, fun _ _ => rfl, fun k hk => ?_, fun _ => rfl⟩
        exact Option.some.inj (((hs.inverse.iff k i).mp hk).symm.trans hik)
      refine Sat.bind (Sat.modify (Sat.pure ⟨hob.setFrame fr, ?_⟩))
      rw [setFrame_self]
      refine ⟨?_, hkey.trans hik, hP, fun hd => ?_, fun _ => rfl⟩
      · rw [contents_mapped hi, hpage]
      · rw [hpage]
        exact hs.clean i key hik (hdirty hd)
  · obtain ⟨-, hfree⟩ := hs.good.tidy.victim hh
    have hof := containerOf_ensured s key.cId
    have hfile : (s.ensured key.cId).fileAt key = some p := by
      unfold fileAt
      rw [hof]
      exact hp
    obtain ⟨hkey, hpage, hP⟩ :=
      hfinish { (s.latched i rest).frames i with page := p, key := some key }
    refine ⟨⟨AList.lookup_insert _, fun k hk => AList.lookup_insert_ne hk, fun j hj => ?_,
      fun k hk => absurd hk (hfree k), fun k => ?_⟩, ?_⟩
    · rw [setFrame_ne _ _ _ hj]
      exact setFrame_ne _ _ _ hj
    · show ((s.ensured key.cId).containerOf k.cId).file[k.pageId.toNat]? = _
      rw [hof]
      rfl
    · rw [setFrame_self, hkey, hpage, contents_unmapped hlook]
      exact ⟨hp, rfl, hP, fun _ => hfile, hof⟩

/-- The pool after the client has changed the frame it has the guard of and dropped the guard. -/
theorem Obtained.dropped (h : Obtained s t key i) (fr : BufferFrame) (hs : Coherent s)
    (hgood : Good t) (hinv : Inverse t) (hkey : (t.frames i).key = some key)
    (hfr : fr.key = some key) (hdirty : fr.isDirty = (t.frames i).isDirty)
    (hclean : fr.isDirty = false → t.fileAt key = some fr.page) :
    Coherent (t.setFrame i fr) ∧ (t.setFrame i fr).contents key = some fr.page := by
  refine ⟨⟨?_, hinv.of_same ((SameTable.refl t).setFrame (hfr.trans hkey.symm)), ?_⟩, ?_⟩
  · exact (Mild.setFrame hgood (hfr.trans hkey.symm) (fun hd => hdirty.trans hd)).good hgood
  · refine (h.setFrame fr).clean hs (fun k hk hd => ?_)
    rw [setFrame_self] at hk hd ⊢
    obtain rfl : k = key := Option.some.inj (hk.symm.trans hfr)
    exact hclean hd
  · rw [contents_mapped (h.setFrame fr).self, setFrame_self]

end BufferPool

/-- What a client does with the pool that drops its guards between the calls.  `left` is what it
leaves in the page. -/
inductive PageUse where
  | createNewPageForWrite (c : ContainerId) (left : Page)
  | getPageForWrite (key : ContainerPageId) (left : Page)
  | getPageForRead (key : ContainerPageId)
  | flushAll
  | flushAllAndReset

/-- A use of the pool with the guard it got: the page the guard is for, and what it shows. -/
structure Visit where
  use : PageUse
  shown : Option (ContainerPageId × Page)

namespace PageUse

variable {n : ℕ}

/-- The call, and the drop of the guard it returns. -/
def exec : PageUse → PoolCall n (Option (ContainerPageId × Page))
  | createNewPageForWrite c left => do
    let i ← BufferPool.createNewPageForWrite c
    let fr := (← get).frames i
    BufferPool.dropWriteGuard i left
    pure (fr.key.map fun key => (key, fr.page))
  | getPageForWrite key left => do
    let i ← BufferPool.getPageForWrite key
    let fr := (← get).frames i
    BufferPool.dropWriteGuard i left
    pure (some (key, fr.page))
  | getPageForRead key => do
    let i ← BufferPool.getPageForRead key
    let fr := (← get).frames i
    BufferPool.dropReadGuard i
    pure (some (key, fr.page))
  | flushAll => do
    BufferPool.flushAll
    pure none
  | flushAllAndReset => do
    BufferPool.flushAllAndReset
    pure none

/-- The pages a use adds to a container. -/
def creates (c : ContainerId) : PageUse → Bool
  | createNewPageForWrite d _ => d = c
  | _ => false

/-- What a use leaves in the page it has the guard of. -/
def left : PageUse → Option Page
  | createNewPageForWrite _ left => some left
  | getPageForWrite _ left => some left
  | _ => none

end PageUse

/-- A run in which every call returns a guard or is done. -/
inductive Session {n : ℕ} (s : BufferPool n) : List Visit → BufferPool n → Prop
  | start : Session s [] s
  | use {vs : List Visit} {t u : BufferPool n} {x : PageUse} {shown : Option (ContainerPageId × Page)}
      (h : Session s vs t) (hx : x.exec t = .ok shown u) : Session s (vs ++ [⟨x, shown⟩]) u

/-- What the last write guard on a page left, or what was in the file at first. -/
def lastLeft (files : ContainerId → Option (List Page)) (vs : List Visit) :
    ContainerPageId → Option Page :=
  vs.foldl (fun m v =>
      match v.shown, v.use.left with
      | some (key, _), some left => Function.update m key (some left)
      | _, _ => m)
    (fun key => (files key.cId).bind (fun file => file[key.pageId.toNat]?))

/-- The pages of a container: those in the file at first and those created since. -/
def pagesOf (files : ContainerId → Option (List Page)) (vs : List Visit) (c : ContainerId) : ℕ :=
  ((files c).getD []).length + vs.countP (fun v => v.use.creates c)

section Session

variable {n : ℕ} {files : ContainerId → Option (List Page)} {vs : List Visit} {s : BufferPool n}

open BufferPool

theorem lastLeft_write (x : PageUse) (key : ContainerPageId) (shown : Page) {left : Page}
    (h : x.left = some left) :
    lastLeft files (vs ++ [⟨x, some (key, shown)⟩]) =
      Function.update (lastLeft files vs) key (some left) := by
  unfold lastLeft
  rw [foldl_append]
  simp only [foldl_cons, foldl_nil, h]

theorem lastLeft_keep (x : PageUse) (shown : Option (ContainerPageId × Page)) (h : x.left = none) :
    lastLeft files (vs ++ [⟨x, shown⟩]) = lastLeft files vs := by
  unfold lastLeft
  rw [foldl_append]
  simp only [foldl_cons, foldl_nil, h]

theorem pagesOf_append (v : Visit) (c : ContainerId) :
    pagesOf files (vs ++ [v]) c = pagesOf files vs c + (v.use.creates c).toNat := by
  unfold pagesOf
  rw [countP_append, ← Nat.add_assoc, countP_singleton]
  cases v.use.creates c <;> rfl

/-- How the pool stands to the history of its uses. -/
structure Tracks (files : ContainerId → Option (List Page)) (vs : List Visit) (s : BufferPool n) :
    Prop where
  coherent : Coherent s
  count : ∀ c, (s.containerOf c).pageCount = UInt32.ofNat (pagesOf files vs c)
  file : ∀ c, (s.containerOf c).file.length ≤ pagesOf files vs c
  held : ∀ i key, (s.frames i).key = some key → key.pageId.toNat < pagesOf files vs key.cId
  left : ∀ key p, lastLeft files vs key = some p → s.contents key = some p

theorem Tracks.contents_lt (h : Tracks files vs s) {key : ContainerPageId} {p : Page}
    (hp : s.contents key = some p) : key.pageId.toNat < pagesOf files vs key.cId := by
  cases hk : s.pageToFrame.lookup key with
  | some i => exact h.held i key ((h.coherent.inverse.iff key i).mp hk)
  | none =>
    rw [contents_unmapped hk] at hp
    exact (List.getElem?_eq_some_iff.mp hp).1.trans_le (h.file key.cId)

theorem tracks_new (files : ContainerId → Option (List Page)) (disk : Disk) :
    Tracks files [] (.new (n := n) (catalog files) disk) := by
  have hof : ∀ c, (new (n := n) (catalog files) disk).containerOf c = .new ((files c).getD []) := by
    intro c
    unfold containerOf
    show ((files c).map Container.new).getD (.new []) = _
    cases files c <;> rfl
  refine ⟨coherent_new files disk, fun c => ?_, fun c => ?_, nofun, fun key p hp => ?_⟩
  · rw [hof]
    rfl
  · rw [hof]
    exact Nat.le_add_right _ _
  · rw [contents_unmapped rfl]
    unfold fileAt
    rw [hof]
    obtain ⟨file, hf, hp⟩ := Option.bind_eq_some_iff.mp hp
    rw [hf]
    exact hp

variable {t : BufferPool n}

/-- A use that got a guard for a page. -/
theorem Tracks.obtained {x : PageUse} {shown : Option (ContainerPageId × Page)}
    (h : Tracks files vs s) {key : ContainerPageId} {i : Fin n} {fr : BufferFrame}
    (hob : Obtained s t key i) (hcoh : Coherent (t.setFrame i fr)) (hfr : fr.key = some key)
    (hcount : ∀ c, (t.containerOf c).pageCount = UInt32.ofNat (pagesOf files (vs ++ [⟨x, shown⟩]) c))
    (hfile : ∀ c, (t.containerOf c).file = (s.containerOf c).file)
    (hlt : key.pageId.toNat < pagesOf files (vs ++ [⟨x, shown⟩]) key.cId)
    (hkey : ∀ p, lastLeft files (vs ++ [⟨x, shown⟩]) key = some p → p = fr.page)
    (hothers : ∀ k, k ≠ key → lastLeft files (vs ++ [⟨x, shown⟩]) k = lastLeft files vs k) :
    Tracks files (vs ++ [⟨x, shown⟩]) (t.setFrame i fr) := by
  have hmono : ∀ c, pagesOf files vs c ≤ pagesOf files (vs ++ [⟨x, shown⟩]) c := by
    intro c
    rw [pagesOf_append]
    exact Nat.le_add_right _ _
  refine ⟨hcoh, hcount, fun c => ?_, fun j k hk => ?_, fun k p hp => ?_⟩
  · show (t.containerOf c).file.length ≤ _
    rw [hfile]
    exact (h.file c).trans (hmono c)
  · by_cases hj : j = i
    · rw [hj, setFrame_self, hfr] at hk
      rw [← Option.some.inj hk]
      exact hlt
    · rw [setFrame_ne _ _ _ hj, hob.frames j hj] at hk
      exact (h.held j k hk).trans_le (hmono _)
  · by_cases hk : k = key
    · rw [hk] at hp ⊢
      rw [contents_mapped (hob.setFrame fr).self, setFrame_self, hkey p hp]
    · rw [(hob.setFrame fr).contents hk]
      rw [hothers k hk] at hp
      exact h.left k p hp

/-- A use that wrote pages back. -/
theorem Tracks.flushed {x : PageUse} (h : Tracks files vs s) {u : BufferPool n} (hx : x.left = none)
    (hc : ∀ c, x.creates c = false) (hu : Flushing s (List.finRange n) u)
    (ht : t.containers = u.containers) (hcoh : Coherent t)
    (hkeys : ∀ i key, (t.frames i).key = some key → (s.frames i).key = some key)
    (hleft : ∀ key p, s.contents key = some p → t.contents key = some p) :
    Tracks files (vs ++ [⟨x, none⟩]) t := by
  have hpages : ∀ c, pagesOf files (vs ++ [⟨x, none⟩]) c = pagesOf files vs c := by
    intro c
    rw [pagesOf_append, hc]
    rfl
  refine ⟨hcoh, fun c => ?_, fun c => ?_, fun i key hi => ?_, fun key p hp => ?_⟩
  · rw [hpages, containerOf_congr ht, hu.count, h.count]
  · rw [hpages, containerOf_congr ht]
    exact hu.length c _ (h.file c) (fun i key hi hc => hc ▸ h.held i key hi)
  · rw [hpages]
    exact h.held i key (hkeys i key hi)
  · rw [lastLeft_keep x none hx] at hp
    exact hleft key p (h.left key p hp)

/-- The guard shows what was left last, and the pool keeps track. -/
def Shows (files : ContainerId → Option (List Page)) (vs : List Visit) (x : PageUse)
    (shown : Option (ContainerPageId × Page)) (t : BufferPool n) : Prop :=
  (∀ c, pagesOf files (vs ++ [⟨x, shown⟩]) c ≤ 2 ^ 32) →
    (∀ key page p, shown = some (key, page) → lastLeft files vs key = some p → page = p) ∧
      Tracks files (vs ++ [⟨x, shown⟩]) t

theorem pagesOf_succ (c : ContainerId) (left : Page) (shown : Option (ContainerPageId × Page))
    (d : ContainerId) : pagesOf files (vs ++ [⟨.createNewPageForWrite c left, shown⟩]) d =
      pagesOf files vs d + if d = c then 1 else 0 := by
  rw [pagesOf_append]
  show _ + (decide (c = d)).toNat = _
  by_cases h : c = d
  · rw [decide_eq_true h, if_pos h.symm]
    rfl
  · rw [decide_eq_false h, if_neg (Ne.symm h)]
    rfl

theorem create_shows (hn : n ≤ 2 ^ 32) (h : Tracks files vs s) (c : ContainerId) (left : Page) :
    Sat (PageUse.exec (.createNewPageForWrite c left)) s
      (fun shown t => Shows files vs (.createNewPageForWrite c left) shown t) (fun _ _ => True) := by
  have hcreate := (createNewPageForWrite_obtained hn (fun _ _ => trivial) h.coherent c).and
    ((createNewPageForWrite_good hn h.coherent.good c).and
      (createNewPageForWrite_keeps hn h.coherent.inverse c))
  refine Sat.bind (hcreate.mono (fun i t ht => ?_) (fun _ _ _ => trivial))
  obtain ⟨⟨hob, hkey, hdirty, hcount, hfile⟩, hgood, hinv⟩ := ht
  refine Sat.bind (Sat.get (Sat.bind (Sat.bind (Sat.get ?_))))
  split_ifs
  · refine Sat.modify (Sat.pure (fun hbound => ?_))
    rw [hkey]
    have hlt : pagesOf files vs c < 2 ^ 32 := by
      have hc := hbound c
      rw [pagesOf_succ, if_pos rfl] at hc
      exact hc
    -- the page is new: its id is the number of pages so far
    have hid : ((s.containerOf c).pageCount).toNat = pagesOf files vs c := by
      rw [h.count, UInt32.toNat_ofNat']
      exact Nat.mod_eq_of_lt hlt
    obtain ⟨hcoh, -⟩ := hob.dropped { (t.frames i).releaseExclusive with page := left }
      h.coherent hgood hinv hkey hkey rfl
      (fun hd => absurd hd (by show ¬ (t.frames i).isDirty = false; rw [hdirty]; exact nofun))
    refine ⟨fun key page p hshown hp => ?_, h.obtained hob hcoh hkey (fun d => ?_) hfile ?_ (fun p hp => ?_)
      (fun k hk => ?_)⟩
    · obtain ⟨rfl, -⟩ := Prod.mk.inj (Option.some.inj hshown)
      exact absurd (h.contents_lt (h.left _ p hp)) (by rw [hid]; exact Nat.lt_irrefl _)
    · rw [hcount, pagesOf_succ]
      split_ifs with hd
      · rw [hd, h.count, UInt32.ofNat_add]
      · exact h.count d
    · rw [pagesOf_succ, if_pos rfl, hid]
      exact Nat.lt_succ_self _
    · rw [Option.map_some, lastLeft_write (.createNewPageForWrite c left) _ _ rfl,
        Function.update_self] at hp
      exact (Option.some.inj hp).symm
    · rw [Option.map_some, lastLeft_write (.createNewPageForWrite c left) _ _ rfl,
        Function.update_of_ne hk]
  · exact Sat.throw trivial

theorem write_shows (hn : n ≤ 2 ^ 32) (h : Tracks files vs s) (key : ContainerPageId) (left : Page) :
    Sat (PageUse.exec (.getPageForWrite key left)) s
      (fun shown t => Shows files vs (.getPageForWrite key left) shown t) (fun _ _ => True) := by
  have hget : Sat (getPageForWrite key) s (fun i t => Obtained s t key i ∧
      s.contents key = some (t.frames i).page ∧ (t.frames i).key = some key ∧
      (t.frames i).isDirty = true ∧
      ((t.frames i).isDirty = false → t.fileAt key = some (t.frames i).page) ∧
      ∀ d, t.containerOf d = s.containerOf d) (fun _ _ => True) := by
    unfold getPageForWrite
    refine getPage_obtained hn (fun _ _ => trivial) h.coherent (P := fun fr => fr.isDirty = true)
      (fun fr fr' htry => ?_) ?_ key
    · unfold BufferFrame.tryWrite at htry
      split_ifs at htry
      rw [← Option.some.inj htry]
      exact ⟨rfl, rfl, nofun, rfl⟩
    · exact fun _ => ⟨rfl, rfl, rfl⟩
  refine Sat.bind ((hget.and ((getPageForWrite_good hn h.coherent.good key).and
    (getPageForWrite_inverse hn h.coherent.inverse key))).mono (fun i t ht => ?_) (fun _ _ _ => trivial))
  obtain ⟨⟨hob, hshow, hkey, hdirty, -, hof⟩, hgood, hinv⟩ := ht
  refine Sat.bind (Sat.get (Sat.bind (Sat.bind (Sat.get ?_))))
  split_ifs
  · refine Sat.modify (Sat.pure (fun _ => ?_))
    have hpages : ∀ d, pagesOf files (vs ++ [⟨.getPageForWrite key left,
        some (key, (t.frames i).page)⟩]) d = pagesOf files vs d := fun d => pagesOf_append _ d
    obtain ⟨hcoh, -⟩ := hob.dropped { (t.frames i).releaseExclusive with page := left }
      h.coherent hgood hinv hkey hkey rfl
      (fun hd => absurd hd (by show ¬ (t.frames i).isDirty = false; rw [hdirty]; exact nofun))
    refine ⟨fun key' page p hshown hp => ?_, h.obtained hob hcoh hkey (fun d => ?_)
      (fun d => by rw [hof]) ?_ (fun p hp => ?_) (fun k hk => ?_)⟩
    · obtain ⟨rfl, rfl⟩ := Prod.mk.inj (Option.some.inj hshown)
      exact Option.some.inj (hshow.symm.trans (h.left _ p hp))
    · rw [hof, hpages, h.count]
    · rw [hpages]
      exact h.contents_lt hshow
    · rw [lastLeft_write (.getPageForWrite key left) _ _ rfl, Function.update_self] at hp
      exact (Option.some.inj hp).symm
    · rw [lastLeft_write (.getPageForWrite key left) _ _ rfl, Function.update_of_ne hk]
  · exact Sat.throw trivial

theorem read_shows (hn : n ≤ 2 ^ 32) (h : Tracks files vs s) (key : ContainerPageId) :
    Sat (PageUse.exec (.getPageForRead key)) s
      (fun shown t => Shows files vs (.getPageForRead key) shown t) (fun _ _ => True) := by
  have hget : Sat (getPageForRead key) s (fun i t => Obtained s t key i ∧
      s.contents key = some (t.frames i).page ∧ (t.frames i).key = some key ∧ True ∧
      ((t.frames i).isDirty = false → t.fileAt key = some (t.frames i).page) ∧
      ∀ d, t.containerOf d = s.containerOf d) (fun _ _ => True) := by
    unfold getPageForRead
    refine getPage_obtained hn (fun _ _ => trivial) h.coherent (P := fun _ => True)
      (fun fr fr' htry => ?_) ?_ key
    · unfold BufferFrame.tryRead at htry
      split_ifs at htry
      rw [← Option.some.inj htry]
      exact ⟨rfl, rfl, fun hd => hd, trivial⟩
    · exact fun _ => ⟨rfl, rfl, trivial⟩
  refine Sat.bind ((hget.and ((getPageForRead_good hn h.coherent.good key).and
    (getPageForRead_inverse hn h.coherent.inverse key))).mono (fun i t ht => ?_) (fun _ _ _ => trivial))
  obtain ⟨⟨hob, hshow, hkey, -, hclean, hof⟩, hgood, hinv⟩ := ht
  refine Sat.bind (Sat.get (Sat.bind (Sat.bind (Sat.get ?_))))
  split_ifs
  · refine Sat.modify (Sat.pure (fun _ => ?_))
    have hpages : ∀ d, pagesOf files (vs ++ [⟨.getPageForRead key,
        some (key, (t.frames i).page)⟩]) d = pagesOf files vs d := fun d => pagesOf_append _ d
    have hsame : ∀ p, lastLeft files vs key = some p → (t.frames i).page = p := fun p hp =>
      Option.some.inj (hshow.symm.trans (h.left _ p hp))
    obtain ⟨hcoh, -⟩ := hob.dropped (t.frames i).releaseShared h.coherent hgood hinv hkey hkey rfl
      hclean
    refine ⟨fun key' page p hshown hp => ?_, h.obtained hob hcoh hkey (fun d => ?_)
      (fun d => by rw [hof]) ?_ (fun p hp => ?_) (fun k _ => ?_)⟩
    · obtain ⟨rfl, rfl⟩ := Prod.mk.inj (Option.some.inj hshown)
      exact hsame p hp
    · rw [hof, hpages, h.count]
    · rw [hpages]
      exact h.contents_lt hshow
    · rw [lastLeft_keep (.getPageForRead key) _ rfl] at hp
      exact (hsame p hp).symm
    · rw [lastLeft_keep (.getPageForRead key) _ rfl]
  · exact Sat.throw trivial

theorem flushAll_shows (h : Tracks files vs s) :
    Sat (PageUse.exec .flushAll) s (fun shown t => Shows files vs .flushAll shown t)
      (fun _ _ => True) := by
  refine Sat.bind (((flushAll_flushing (fun _ _ => trivial) h.coherent).and
    ((flushAll_good h.coherent.good).and (flushAll_sameTable s))).mono (fun _ t ht => ?_)
    (fun _ _ _ => trivial))
  obtain ⟨hfl, hgood, hsame⟩ := ht
  refine Sat.pure (fun _ => ⟨nofun, h.flushed rfl (fun _ => rfl) hfl rfl ?_ (fun i key hi => ?_)
    (fun key p hp => ?_)⟩)
  · refine ⟨hgood, h.coherent.inverse.of_same hsame, fun i key hi _ => ?_⟩
    rw [hsame.key] at hi
    rw [hfl.synced i (mem_finRange i) key hi, hfl.page]
  · rw [← hsame.key]
    exact hi
  · cases hk : s.pageToFrame.lookup key with
    | some i =>
      rw [contents_mapped hk] at hp
      rw [contents_mapped (hsame.map ▸ hk), hfl.page]
      exact hp
    | none =>
      rw [contents_unmapped (hsame.map ▸ hk)]
      exact hfl.contents h.coherent hp

theorem flushAllAndReset_shows (h : Tracks files vs s) :
    Sat (PageUse.exec .flushAllAndReset) s (fun shown t => Shows files vs .flushAllAndReset shown t)
      (fun _ _ => True) := by
  refine Sat.bind (((flushAllAndReset_flushing (fun _ _ => trivial) h.coherent).and
    ((flushAllAndReset_good h.coherent.good).and (flushAllAndReset_inverse h.coherent.inverse))).mono
    (fun _ t ht => ?_) (fun _ _ _ => trivial))
  obtain ⟨⟨⟨u, hfl, hct⟩, hmap, hkeys⟩, hgood, hinv⟩ := ht
  have hnone : ∀ i key, (t.frames i).key ≠ some key := by
    intro i key hi
    rw [hkeys i] at hi
    cases hi
  refine Sat.pure (fun _ => ⟨nofun, h.flushed rfl (fun _ => rfl) hfl hct
    ⟨hgood, hinv, fun i key hi => absurd hi (hnone i key)⟩
    (fun i key hi => absurd hi (hnone i key)) (fun key p hp => ?_)⟩)
  rw [contents_unmapped (by rw [hmap]; rfl), fileAt_congr hct]
  exact hfl.contents h.coherent hp

theorem exec_shows (hn : n ≤ 2 ^ 32) (h : Tracks files vs s) (x : PageUse) :
    Sat x.exec s (fun shown t => Shows files vs x shown t) (fun _ _ => True) := by
  cases x with
  | createNewPageForWrite c left => exact create_shows hn h c left
  | getPageForWrite key left => exact write_shows hn h key left
  | getPageForRead key => exact read_shows hn h key
  | flushAll => exact flushAll_shows h
  | flushAllAndReset => exact flushAllAndReset_shows h

theorem pagesOf_mono {vs ws : List Visit} (h : vs <+: ws) (c : ContainerId) :
    pagesOf files vs c ≤ pagesOf files ws c :=
  Nat.add_le_add_left (h.sublist.countP_le) _

/-- A run keeps track of what was left on the pages. -/
theorem Session.tracks (hn : n ≤ 2 ^ 32) {disk : Disk}
    (h : Session (.new (catalog files) disk) vs t) (hpages : ∀ c, pagesOf files vs c ≤ 2 ^ 32) :
    Tracks files vs t := by
  induction h with
  | start => exact tracks_new files disk
  | @use vs t u x shown h hx ih =>
    have ht := ih (fun c => (pagesOf_mono (prefix_append vs _) c).trans (hpages c))
    exact ((exec_shows hn ht x).ok hx hpages).2

/-- The states a run goes through. -/
theorem Session.split {ws : List Visit} {v : Visit} (h : Session s ws t) (hv : vs ++ [v] <+: ws) :
    ∃ u u', Session s vs u ∧ v.use.exec u = .ok v.shown u' := by
  induction h with
  | start => exact absurd (prefix_nil.mp hv) (by simp)
  | @use ws t u x shown h hx ih =>
    rcases prefix_concat_iff.mp hv with heq | hpre
    · obtain ⟨rfl, hlast⟩ := append_inj' heq rfl
      obtain rfl := singleton_inj.mp hlast
      exact ⟨t, u, h, hx⟩
    · exact ih hpre

end Session

/-- As long as no container has more than `2 ^ 32` pages, every guard shows exactly what the last
write guard dropped on its page left there. -/
theorem shows_lastLeft {n : ℕ} (hn : n ≤ 2 ^ 32) (files : ContainerId → Option (List Page))
    (disk : Disk) (vs : List Visit) (t : BufferPool n)
    (h : Session (.new (BufferPool.catalog files) disk) vs t)
    (hpages : ∀ c, pagesOf files vs c ≤ 2 ^ 32) :
    ∀ before x key shown, before ++ [⟨x, some (key, shown)⟩] <+: vs →
      ∀ p, lastLeft files before key = some p → shown = p := by
  intro before x key shown hpre p hp
  obtain ⟨u, u', hu, hx⟩ := h.split hpre
  have hle : ∀ c, pagesOf files (before ++ [⟨x, some (key, shown)⟩]) c ≤ 2 ^ 32 := fun c =>
    (pagesOf_mono hpre c).trans (hpages c)
  have htracks := hu.tracks hn (fun c => (pagesOf_mono (List.prefix_append before _) c).trans (hle c))
  exact ((exec_shows hn htracks x).ok hx hle).1 key shown p rfl hp

/-- A page that is initialised, written back and read again. -/
theorem shows_lastLeft_reread : ∃ (t : BufferPool 2) (left shown : Page),
    (Page.new 0).initHeapPage = .ok left ∧
      Session (.new (BufferPool.catalog fun _ => none) soundDisk)
        [⟨.createNewPageForWrite 3 left, some (⟨3, 0⟩, (Page.new 0).setPageId 0)⟩,
          ⟨.flushAllAndReset, none⟩, ⟨.getPageForRead ⟨3, 0⟩, some (⟨3, 0⟩, shown)⟩] t ∧
      shown = left := by
  obtain ⟨left, hleft, -⟩ := Page.initHeapPage_new 0
  have h₀ : Session (.new (n := 2) (BufferPool.catalog fun _ => none) soundDisk) [] _ := .start
  have h₁ := h₀.use (x := .createNewPageForWrite 3 left) rfl
  have h₂ := h₁.use (x := .flushAllAndReset) rfl
  have h₃ := h₂.use (x := .getPageForRead ⟨3, 0⟩) rfl
  refine ⟨_, left, _, hleft, h₃, ?_⟩
  refine shows_lastLeft (by decide) _ _ _ _ h₃ (fun c => ?_) _ _ _ _ (List.prefix_refl _) _ rfl
  have hle : ∀ vs : List Visit, pagesOf (fun _ => none) vs c ≤ vs.length := fun vs => by
    unfold pagesOf
    rw [Option.getD_none, List.length_nil, Nat.zero_add]
    exact List.countP_le_length
  exact (hle _).trans (show 3 ≤ 2 ^ 32 by decide)

/-- A page is created in the first free frame, and its guard dropped. -/
theorem Session.create {n : ℕ} (hn : n ≤ 2 ^ 32) {s t : BufferPool n} {vs : List Visit}
    (hs : Session s vs t) {i : Fin n} {rest : List (Fin n)} (h : t.Ready i rest) {c : ContainerId}
    {pageId : PageId} (hid : (t.containerOf c).pageCount = pageId)
    (hlook : t.pageToFrame.lookup ⟨c, pageId⟩ = none) (left : Page) :
    ∃ u, Session s (vs ++ [⟨.createNewPageForWrite c left,
        some (⟨c, pageId⟩, (t.frames i).page.setPageId pageId)⟩]) u ∧
      u.evictionHints = rest ∧ (∀ j, j ≠ i → u.frames j = t.frames j) ∧
      u.pageToFrame = t.pageToFrame.insert ⟨c, pageId⟩ i ∧
      (u.containerOf c).pageCount = pageId + 1 := by
  subst hid
  have hframe : ((t.latched i rest).created c i).frames i =
      BufferPool.holdNewPage ⟨c, (t.containerOf c).pageCount⟩ { t.frames i with cnt := -1 } := by
    unfold BufferPool.created
    rw [BufferPool.setFrame_self, BufferPool.latched, BufferPool.setFrame_self]
    rfl
  have hdrop : BufferPool.dropWriteGuard i left ((t.latched i rest).created c i) =
      .ok () (((t.latched i rest).created c i).setFrame i
        { (((t.latched i rest).created c i).frames i).releaseExclusive with page := left }) := by
    unfold BufferPool.dropWriteGuard
    refine (bind_of_ok rfl).trans ?_
    rw [if_pos (by rw [hframe]; exact (by decide : (-1 : ℤ) < 0))]
    rfl
  refine ⟨((t.latched i rest).created c i).setFrame i
    { (((t.latched i rest).created c i).frames i).releaseExclusive with page := left }, hs.use ?_, rfl,
    fun j hj => ?_, rfl, ?_⟩
  · refine (bind_of_ok (BufferPool.createNewPageForWrite_eq hn h hlook)).trans ?_
    refine (bind_of_ok rfl).trans ((bind_of_ok hdrop).trans ?_)
    rw [hframe]
    rfl
  · rw [BufferPool.setFrame_ne _ _ _ hj]
    unfold BufferPool.created
    rw [BufferPool.setFrame_ne _ _ _ hj]
    exact BufferPool.setFrame_ne _ _ _ hj
  · have hof : (((t.latched i rest).created c i).setFrame i
        { (((t.latched i rest).created c i).frames i).releaseExclusive with page := left }).containerOf c =
        { t.containerOf c with pageCount := (t.containerOf c).pageCount + UInt32.ofNat 1 } :=
      (BufferPool.containerOf_setContainer t c _ c).trans (if_pos rfl)
    rw [hof]
    rfl

/-- A container whose file has `2 ^ 32 - 1` pages.  A client initialises its page 0 and creates two
pages; the second one gets the id 0 again, and its guard does not show what was left. -/
theorem createNewPageForWrite_again : ∃ (file : List Page) (t : BufferPool 2) (vs : List Visit)
    (left shown : Page), file.length = 2 ^ 32 - 1 ∧ (Page.new 0).initHeapPage = .ok left ∧
      Session (.new (BufferPool.catalog fun _ => some file) soundDisk)
        (vs ++ [⟨.createNewPageForWrite 0 (Page.new 0), some (⟨0, 0⟩, shown)⟩]) t ∧
      lastLeft (fun _ => some file) vs ⟨0, 0⟩ = some left ∧ shown ≠ left := by
  have hrun : ∀ (rest : List Page) (left : Page), rest.length = 2 ^ 32 - 2 →
      ∃ (t : BufferPool 2) (vs : List Visit) (shown : Page),
        Session (.new (BufferPool.catalog fun _ => some (Page.zeros :: rest)) soundDisk)
          (vs ++ [⟨.createNewPageForWrite 0 (Page.new 0), some (⟨0, 0⟩, shown)⟩]) t ∧
        lastLeft (fun _ => some (Page.zeros :: rest)) vs ⟨0, 0⟩ = some left ∧ shown.Blank := by
    intro rest left hlen
    have hct : BufferPool.catalog (fun _ => some (Page.zeros :: rest)) =
        fun _ => some ⟨4294967295, false, Page.zeros :: rest⟩ := by
      funext c
      show some (Container.new (Page.zeros :: rest)) = _
      unfold Container.new
      rw [List.length_cons, hlen]
      rfl
    rw [hct]
    have h₀ : Session (.new (n := 2) (fun _ => some ⟨4294967295, false, Page.zeros :: rest⟩) soundDisk)
      [] _ := .start
    have h₁ := h₀.use (x := .getPageForWrite ⟨0, 0⟩ left) rfl
    have h₂ := h₁.use (x := .flushAllAndReset) rfl
    have htwo : 2 ≤ 2 ^ 32 := by decide
    obtain ⟨t₃, h₃, hhints, hframes, hmap, hcount⟩ := h₂.create htwo (i := 0) ⟨rfl, rfl, rfl⟩ (c := 0)
      (show _ = (4294967295 : PageId) from rfl) rfl (Page.new 4294967295)
    have hframe : (t₃.frames 1).cnt = 0 ∧ (t₃.frames 1).key = none ∧ (t₃.frames 1).page = Page.new 0 := by
      rw [hframes 1 (by decide)]
      exact ⟨rfl, rfl, rfl⟩
    have hnone : t₃.pageToFrame.lookup ⟨0, 4294967295 + 1⟩ = none := by
      rw [hmap, AList.lookup_insert_ne (by decide)]
      rfl
    obtain ⟨t₄, h₄, -⟩ := h₃.create htwo ⟨hhints, hframe.1, hframe.2.1⟩ hcount hnone (Page.new 0)
    refine ⟨t₄, _, _, h₄, rfl, ?_⟩
    have hblank : (t₃.frames 1).page.Blank := hframe.2.2 ▸ Page.new_blank 0
    exact hblank.setPageId _
  obtain ⟨left, hleft, hrep⟩ := Page.initHeapPage_new 0
  obtain ⟨t, vs, shown, hs, hlast, hblank⟩ := hrun (List.replicate (2 ^ 32 - 2) Page.zeros) left
    List.length_replicate
  refine ⟨_, t, vs, left, shown, ?_, hleft, hs, hlast, fun heq => ?_⟩
  · rw [List.length_cons, List.length_replicate]
    decide
  · -- The free space pointer of an initialised page is not zero.
    rw [heq] at hblank
    exact absurd (hrep.fsp.symm.trans (hblank 1 (by decide))) (by decide)

end CrustyDB
