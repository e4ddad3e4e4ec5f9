import CrustyDB.Pool.PageTable

/-! # The pages below the page count

A page that a container has counted should be readable: it is in a frame or in the file
(`Available`).  The pool keeps this as long as frames are only taken that hold no page (`Tidy`),
which is the case when there are no temporary containers, and as long as no page is forgotten
before it is written (`Careful`).  The invariant behind it is `Safe`: a counted page that is not in
the file is in a dirty frame under its own key.

`createNewPagesForWrite` counts the pages it is asked for, and puts only as many into frames as
there are free ones; the pages in between are nowhere (`createNewPagesForWrite_short`). -/

namespace CrustyDB

open Stateful List AList

namespace Container

theorem lt_writeAt (file : List Page) (i : ℕ) (p : Page) : i < (writeAt file i p).length := by
  unfold writeAt
  split_ifs with h
  · rw [length_set]
    exact h
  · simp only [length_append, length_replicate, length_singleton]
    omega

theorem length_le_writeAt (file : List Page) (i : ℕ) (p : Page) :
    file.length ≤ (writeAt file i p).length := by
  unfold writeAt
  split_ifs with h
  · rw [length_set]
  · simp only [length_append, length_replicate, length_singleton]
    omega

end Container

namespace BufferPool

variable {n : ℕ}

/-! ### Frames to take -/

/-- No container is temporary, and the frames among the hints hold no page. -/
structure Tidy (s : BufferPool n) : Prop where
  nonTemp : ∀ c ct, s.containers c = some ct → ct.isTemp = false
  nodup : s.evictionHints.Nodup
  keyless : ∀ i ∈ s.evictionHints, (s.frames i).key = none
  unmapped : ∀ i ∈ s.evictionHints, ∀ key, s.pageToFrame.lookup key ≠ some i

/-- The containers a catalog finds in its directory. -/
def catalog (files : ContainerId → Option (List Page)) : ContainerId → Option Container :=
  fun c => (files c).map .new

theorem tidy_new (files : ContainerId → Option (List Page)) (disk : Disk) :
    Tidy (new (n := n) (catalog files) disk) := by
  refine ⟨fun c ct hct => ?_, nodup_finRange n, fun _ _ => rfl, fun i _ key h => ?_⟩
  · obtain ⟨file, -, rfl⟩ := Option.map_eq_some_iff.mp hct
    rfl
  · cases h

section Victims

variable {s : BufferPool n}

theorem Tidy.containerOf_nonTemp (hs : Tidy s) (c : ContainerId) :
    (s.containerOf c).isTemp = false := by
  unfold containerOf
  cases h : s.containers c with
  | none => rfl
  | some ct => exact hs.nonTemp c ct h

variable {i : Fin n}

theorem latched_key (hkey : ∀ i ∈ s.evictionHints, (s.frames i).key = none)
    {before rest : List (Fin n)} (hh : s.evictionHints = before ++ i :: rest) :
    ((s.latched i rest).frames i).key = none := by
  rw [latched, setFrame_self]
  exact hkey i (hh ▸ mem_append_right before mem_cons_self)

/-- A frame without a page is not written back. -/
theorem writeVictim_keyless (h : (s.frames i).key = none) :
    writeVictimToDiskIfDirty i s = .ok () s := by
  unfold writeVictimToDiskIfDirty
  refine (bind_of_ok rfl).trans ?_
  simp only [h]
  rfl

theorem removeOldMapping_keyless (h : (s.frames i).key = none) :
    removeOldMapping i s = .ok () s := by
  unfold removeOldMapping
  refine (bind_of_ok rfl).trans ?_
  simp only [h]
  rfl

/-- The pool with one more page in the map. -/
def mapped (s : BufferPool n) (key : ContainerPageId) (i : Fin n) : BufferPool n :=
  { s with pageToFrame := s.pageToFrame.insert key i }

variable {E : Stop → BufferPool n → Prop} {key : ContainerPageId}

theorem insertMapping_mapped {Q : Unit → BufferPool n → Prop} (hpanic : E .panic s)
    (h : s.pageToFrame.lookup key = none → Q () (s.mapped key i)) :
    Sat (insertMapping key i) s Q E := by
  unfold insertMapping
  refine Sat.bind (Sat.get ?_)
  cases hk : s.pageToFrame.lookup key with
  | some j => exact Sat.throw hpanic
  | none => exact h hk

/-- The pool after the next page of a container is put into a free frame. -/
def created (s : BufferPool n) (c : ContainerId) (i : Fin n) : BufferPool n :=
  let key : ContainerPageId := ⟨c, (s.containerOf c).pageCount⟩
  ((s.setContainer c
    { s.containerOf c with pageCount := (s.containerOf c).pageCount + UInt32.ofNat 1 }).mapped key
      i).setFrame i (holdNewPage key (s.frames i))

/-- A page is created in a free frame, if there is one. -/
theorem createNewPageForWrite_keyless (hn : n ≤ 2 ^ 32)
    (hkey : ∀ i ∈ s.evictionHints, (s.frames i).key = none) {c : ContainerId}
    {Q : Fin n → BufferPool n → Prop}
    (hpanic : ∀ before i rest, s.evictionHints = before ++ i :: rest →
      E .panic (((s.latched i rest).setContainer c { s.containerOf c with
        pageCount := (s.containerOf c).pageCount + UInt32.ofNat 1 }).dropGuards [i]))
    (hnone : E (.status .cannotEvictPage) { s with evictionHints := [] })
    (hok : ∀ before i rest, s.evictionHints = before ++ i :: rest →
      s.pageToFrame.lookup ⟨c, (s.containerOf c).pageCount⟩ = none →
      Q i ((s.latched i rest).created c i)) : Sat (createNewPageForWrite c) s Q E := by
  refine createNewPageForWrite_sat (fun _ => hnone) (fun before i rest e t hh _ hw => ?_)
    (fun before i rest t hh _ hw => ?_)
  · rw [writeVictim_keyless (latched_key hkey hh)] at hw
    cases hw
  · rw [writeVictim_keyless (latched_key hkey hh)] at hw
    cases hw
    unfold allocate
    refine Sat.bind (.of_ok (removeOldMapping_keyless (latched_key hkey hh)) ?_)
    refine Sat.bind (.of_ok (incPageCount_eq _ c 1) ?_)
    rw [frameId_eq hn]
    refine Sat.bind (insertMapping_mapped (hpanic before i rest hh) (fun hlook => ?_))
    exact Sat.bind (Sat.modify (Sat.pure (hok before i rest hh hlook)))

theorem createNewPageForWrite_tidy (hn : n ≤ 2 ^ 32) (hs : Tidy s) {c : ContainerId}
    {Q : Fin n → BufferPool n → Prop} (hpanic : ∀ t, E .panic t)
    (hnone : E (.status .cannotEvictPage) { s with evictionHints := [] })
    (hok : ∀ before i rest, s.evictionHints = before ++ i :: rest →
      s.pageToFrame.lookup ⟨c, (s.containerOf c).pageCount⟩ = none →
      Q i ((s.latched i rest).created c i)) : Sat (createNewPageForWrite c) s Q E :=
  createNewPageForWrite_keyless hn hs.keyless (fun _ _ _ _ => hpanic _) hnone hok

/-- The first hint is a frame without a page that nobody has latched. -/
structure Ready (s : BufferPool n) (i : Fin n) (rest : List (Fin n)) : Prop where
  hints : s.evictionHints = i :: rest
  free : (s.frames i).cnt = 0
  keyless : (s.frames i).key = none

theorem chooseVictim_eq {rest : List (Fin n)} (h : Ready s i rest) :
    chooseVictim s = .ok (some i) (s.latched i rest) := by
  have hpop : chooseVictim s = popVictim s.evictionHints s := rfl
  rw [hpop, h.hints, popVictim]
  refine (bind_of_ok rfl).trans ((bind_of_ok rfl).trans ?_)
  dsimp only
  rw [BufferFrame.tryWrite_free h.free]
  rfl

theorem insertMapping_eq (h : s.pageToFrame.lookup key = none) :
    insertMapping key i s = .ok () (s.mapped key i) := by
  unfold insertMapping
  refine (bind_of_ok rfl).trans ?_
  simp only [h]
  rfl

theorem createNewPageForWrite_eq (hn : n ≤ 2 ^ 32) {rest : List (Fin n)} (h : Ready s i rest)
    {c : ContainerId} (hlook : s.pageToFrame.lookup ⟨c, (s.containerOf c).pageCount⟩ = none) :
    createNewPageForWrite c s = .ok i ((s.latched i rest).created c i) := by
  have hkey : ((s.latched i rest).frames i).key = none := by
    rw [latched, setFrame_self]
    exact h.keyless
  have hbody : (writeVictimToDiskIfDirty i >>= fun _ => allocate c i) (s.latched i rest) =
      .ok i ((s.latched i rest).created c i) := by
    rw [bind_of_ok (writeVictim_keyless hkey)]
    unfold allocate
    rw [bind_of_ok (removeOldMapping_keyless hkey), bind_of_ok (incPageCount_eq _ c 1), frameId_eq hn]
    exact bind_of_ok (insertMapping_eq hlook)
  unfold createNewPageForWrite
  rw [bind_of_ok (chooseVictim_eq h)]
  unfold dropOnError
  dsimp only
  rw [hbody]

/-- A page in the pool is latched; another one is read into a free frame, if there is one. -/
theorem getPage_tidy (hn : n ≤ 2 ^ 32) (hs : Tidy s) {grant : Fin n → PoolCall n (Fin n)}
    {finish : BufferFrame → BufferFrame} {Q : Fin n → BufferPool n → Prop}
    (hpanic : ∀ t, E .panic t)
    (hmapped : ∀ i, s.pageToFrame.lookup key = some i → Sat (grant i) s Q E)
    (hnone : E (.status .cannotEvictPage) { s with evictionHints := [] })
    (hfail : ∀ before i rest garbage msg, s.pageToFrame.lookup key = none →
      s.evictionHints = before ++ i :: rest →
      E (.status (.baseFileError msg)) (((((s.latched i rest).mapped key i).ensured key.cId).ticked.setFrame
        i { (s.latched i rest).frames i with page := garbage }).dropGuards [i]))
    (hok : ∀ before i rest p, s.pageToFrame.lookup key = none →
      s.evictionHints = before ++ i :: rest →
      (s.containerOf key.cId).file[key.pageId.toNat]? = some p →
      Q i ((((s.latched i rest).mapped key i).ensured key.cId).ticked.setFrame i
        (finish { (s.latched i rest).frames i with page := p, key := some key }))) :
    Sat (getPage grant finish key) s Q E := by
  refine getPage_sat hpanic hmapped (fun _ _ => hnone) (fun before i rest t hlook hh _ hw _ => ?_)
  have hkey := latched_key hs.keyless hh
  rw [writeVictim_keyless hkey] at hw
  cases hw
  unfold fetch
  refine Sat.bind (.of_ok (removeOldMapping_keyless hkey) ?_)
  rw [frameId_eq hn]
  refine Sat.bind (insertMapping_mapped (hpanic _) (fun _ => ?_))
  refine Sat.bind (readPage_sat (fun garbage msg _ => hfail before i rest garbage msg hlook hh)
    (fun p _ hp => ?_))
  refine Sat.bind (Sat.modify (Sat.bind (Sat.modify (Sat.pure ?_))))
  have hQ := hok before i rest p hlook hh hp
  have hsame : ∀ (t : BufferPool n) (a b : BufferFrame),
      (t.setFrame i a).setFrame i b = t.setFrame i b := by
    intro t a b
    unfold setFrame
    simp only [Function.update_idem]
  rw [hsame, hsame, setFrame_self, setFrame_self]
  exact hQ

end Victims

/-! ### Pages that are in the pool or in the file -/

/-- The page is in the file of its container. -/
def InFile (s : BufferPool n) (key : ContainerPageId) : Prop :=
  ∃ ct, s.containers key.cId = some ct ∧ key.pageId.toNat < ct.file.length

/-- Every page below the page count of its container is in the map or in the file. -/
def Available (s : BufferPool n) : Prop :=
  ∀ c ct, s.containers c = some ct → ∀ pageId < ct.pageCount,
    (s.pageToFrame.lookup ⟨c, pageId⟩).isSome ∨ InFile s ⟨c, pageId⟩

/-- The page is in a dirty frame, under its key. -/
def HeldDirty (s : BufferPool n) (key : ContainerPageId) : Prop :=
  ∃ i, s.pageToFrame.lookup key = some i ∧ (s.frames i).key = some key ∧ (s.frames i).isDirty = true

/-- Every page below the page count of its container is in the file, or it is in a dirty frame and
going to be written. -/
def Safe (s : BufferPool n) : Prop :=
  ∀ c ct, s.containers c = some ct → ∀ pageId < ct.pageCount,
    InFile s ⟨c, pageId⟩ ∨ HeldDirty s ⟨c, pageId⟩

variable {s : BufferPool n}

theorem Safe.available (hs : Safe s) : Available s := by
  intro c ct hct pageId hlt
  rcases hs c ct hct pageId hlt with hfile | ⟨i, hi, -⟩
  · exact Or.inr hfile
  · exact Or.inl (by rw [hi]; rfl)

theorem safe_new (files : ContainerId → Option (List Page)) (disk : Disk) :
    Safe (new (n := n) (catalog files) disk) := by
  intro c ct hct pageId hlt
  refine Or.inl ⟨ct, hct, ?_⟩
  obtain ⟨file, -, rfl⟩ := Option.map_eq_some_iff.mp hct
  have hlt' : pageId.toNat < (UInt32.ofNat file.length).toNat := hlt
  rw [UInt32.toNat_ofNat'] at hlt'
  exact hlt'.trans_le (Nat.mod_le _ _)

/-- Files only grow, and no page is counted that was not counted before. -/
structure Grows (s t : BufferPool n) : Prop where
  file : ∀ c ct, s.containers c = some ct →
    ∃ ct', t.containers c = some ct' ∧ ct.file.length ≤ ct'.file.length
  nonTemp : ∀ c ct', t.containers c = some ct' → ct'.isTemp = false
  counted : ∀ c ct', t.containers c = some ct' → ∀ pageId < ct'.pageCount,
    ∃ ct, s.containers c = some ct ∧ pageId < ct.pageCount

variable {t : BufferPool n}

theorem Grows.inFile (h : Grows s t) {key : ContainerPageId} (hs : InFile s key) :
    InFile t key := by
  obtain ⟨ct, hct, hlt⟩ := hs
  obtain ⟨ct', hct', hle⟩ := h.file key.cId ct hct
  exact ⟨ct', hct', hlt.trans_le hle⟩

theorem Grows.of_eq (hs : Tidy s) (h : t.containers = s.containers) : Grows s t := by
  refine ⟨fun c ct hct => ⟨ct, h ▸ hct, le_rfl⟩, fun c ct' hct' => hs.nonTemp c ct' (h ▸ hct'), ?_⟩
  intro c ct' hct' pageId hlt
  exact ⟨ct', h ▸ hct', hlt⟩

theorem of_setContainer {c d : ContainerId} {ct ct' : Container}
    (h : (s.setContainer c ct).containers d = some ct') :
    d = c ∧ ct' = ct ∨ d ≠ c ∧ s.containers d = some ct' := by
  by_cases hdc : d = c
  · rw [hdc, setContainer_self] at h
    exact Or.inl ⟨hdc, (Option.some.inj h).symm⟩
  · rw [setContainer_ne _ _ _ hdc] at h
    exact Or.inr ⟨hdc, h⟩

/-- A container that has counted a page exists. -/
theorem exists_of_lt {c : ContainerId} {pageId : PageId} (h : pageId < (s.containerOf c).pageCount) :
    ∃ ct, s.containers c = some ct ∧ pageId < ct.pageCount := by
  cases hc : s.containers c with
  | none =>
    rw [containerOf, hc] at h
    exact absurd h (UInt32.not_lt.mpr (UInt32.zero_le))
  | some ct => exact ⟨ct, rfl, containerOf_eq hc ▸ h⟩

/-- A container is found or created, and its file may grow. -/
theorem Grows.setContainer (hs : Tidy s) {c : ContainerId} {ct : Container}
    (htemp : ct.isTemp = false) (hcount : ct.pageCount = (s.containerOf c).pageCount)
    (hfile : (s.containerOf c).file.length ≤ ct.file.length)
    (ht : t.containers = (s.setContainer c ct).containers) : Grows s t := by
  refine ⟨fun d ct' hd => ?_, fun d ct' hd => ?_, fun d ct' hd pageId hlt => ?_⟩
  · by_cases hdc : d = c
    · subst hdc
      rw [containerOf_eq hd] at hfile
      exact ⟨ct, by rw [ht, setContainer_self], hfile⟩
    · exact ⟨ct', by rw [ht, setContainer_ne _ _ _ hdc, hd], le_rfl⟩
  · rcases of_setContainer (ht ▸ hd) with ⟨-, rfl⟩ | ⟨-, hd⟩
    · exact htemp
    · exact hs.nonTemp d ct' hd
  · rcases of_setContainer (ht ▸ hd) with ⟨rfl, rfl⟩ | ⟨-, hd⟩
    · exact exists_of_lt (hcount ▸ hlt)
    · exact ⟨ct', hd, hlt⟩

/-- A step that takes no frame: the map and the keys stay, and a frame becomes clean only when its
page is in the file. -/
structure Mild (s t : BufferPool n) : Prop where
  hints : t.evictionHints.Sublist s.evictionHints
  table : SameTable s t
  dirty : ∀ i, (s.frames i).isDirty = true → (t.frames i).isDirty = true ∨
    ∀ key, (s.frames i).key = some key → InFile t key
  grows : Grows s t

/-- What a run without temporary containers keeps. -/
structure Good (s : BufferPool n) : Prop where
  tidy : Tidy s
  safe : Safe s

theorem Mild.good (h : Mild s t) (hs : Good s) : Good t := by
  refine ⟨⟨h.grows.nonTemp, h.hints.nodup hs.tidy.nodup, fun i hi => ?_, fun i hi key => ?_⟩, ?_⟩
  · rw [h.table.key]
    exact hs.tidy.keyless i (h.hints.subset hi)
  · rw [h.table.map]
    exact hs.tidy.unmapped i (h.hints.subset hi) key
  · intro c ct' hct' pageId hlt
    obtain ⟨ct, hct, hlt'⟩ := h.grows.counted c ct' hct' pageId hlt
    rcases hs.safe c ct hct pageId hlt' with hfile | ⟨i, hi, hkey, hdirty⟩
    · exact Or.inl (h.grows.inFile hfile)
    · rcases h.dirty i hdirty with hd | hd
      · refine Or.inr ⟨i, ?_, ?_, hd⟩
        · rw [h.table.map]
          exact hi
        · rw [h.table.key]
          exact hkey
      · exact Or.inl (hd _ hkey)

section Steps

variable {s : BufferPool n} {i : Fin n} {rest : List (Fin n)} {t : BufferPool n}
  {key : ContainerPageId}

theorem Mild.setFrame (hs : Good s) {fr : BufferFrame} (hkey : fr.key = (s.frames i).key)
    (hdirty : (s.frames i).isDirty = true → fr.isDirty = true) : Mild s (s.setFrame i fr) := by
  refine ⟨List.Sublist.refl _, (SameTable.refl s).setFrame hkey, fun j hj => Or.inl ?_,
    .of_eq hs.tidy rfl⟩
  by_cases hji : j = i
  · subst hji
    rw [setFrame_self]
    exact hdirty hj
  · rw [setFrame_ne _ _ _ hji]
    exact hj

theorem good_latched (hs : Good s) {before : List (Fin n)}
    (hh : s.evictionHints = before ++ i :: rest) : Good (s.latched i rest) := by
  have hsub : rest.Sublist s.evictionHints := by
    rw [hh]
    exact (sublist_cons_self i rest).trans (sublist_append_right before _)
  have hmild : Mild s { s with evictionHints := rest } :=
    ⟨hsub, ⟨rfl, fun _ => rfl⟩, fun _ h => Or.inl h, .of_eq hs.tidy rfl⟩
  have hlatch : Mild { s with evictionHints := rest } (s.latched i rest) :=
    Mild.setFrame (hmild.good hs) rfl (fun h => h)
  exact hlatch.good (hmild.good hs)

theorem good_noHints (hs : Good s) : Good { s with evictionHints := [] } := by
  have hmild : Mild s { s with evictionHints := [] } :=
    ⟨nil_sublist _, ⟨rfl, fun _ => rfl⟩, fun _ h => Or.inl h, .of_eq hs.tidy rfl⟩
  exact hmild.good hs

/-- A free frame is not among the other hints, and no page is mapped to it. -/
theorem Tidy.victim (hs : Tidy s) {before : List (Fin n)}
    (hh : s.evictionHints = before ++ i :: rest) :
    i ∉ rest ∧ ∀ key, s.pageToFrame.lookup key ≠ some i := by
  have hnd := hs.nodup
  rw [hh] at hnd
  refine ⟨(nodup_cons.mp hnd.of_append_right).1, hs.unmapped i ?_⟩
  rw [hh]
  exact mem_append_right before mem_cons_self

/-- A page mapped to a frame that had none before. -/
theorem Tidy.mapped (hs : Tidy s) (hi : i ∉ s.evictionHints) (key : ContainerPageId)
    (htemp : ∀ c ct, t.containers c = some ct → ct.isTemp = false)
    (hhints : t.evictionHints = s.evictionHints) (hmap : t.pageToFrame = s.pageToFrame.insert key i)
    (hframes : ∀ j, j ≠ i → t.frames j = s.frames j) : Tidy t := by
  refine ⟨htemp, hhints ▸ hs.nodup, fun j hj => ?_, fun j hj key' hlook => ?_⟩
  all_goals rw [hhints] at hj
  all_goals have hji : j ≠ i := fun h => hi (h ▸ hj)
  · rw [hframes j hji]
    exact hs.keyless j hj
  · rw [hmap] at hlook
    by_cases hk : key' = key
    · rw [hk, lookup_insert] at hlook
      exact hji (Option.some.inj hlook).symm
    · rw [lookup_insert_ne hk] at hlook
      exact hs.unmapped j hj key' hlook

theorem HeldDirty.mapped {key' : ContainerPageId} (h : HeldDirty s key')
    (hi : ∀ k, s.pageToFrame.lookup k ≠ some i) (hkey : s.pageToFrame.lookup key = none)
    (hmap : t.pageToFrame = s.pageToFrame.insert key i)
    (hframes : ∀ j, j ≠ i → t.frames j = s.frames j) : HeldDirty t key' := by
  obtain ⟨j, hj, hjk, hd⟩ := h
  have hji : j ≠ i := fun hji => hi key' (hji ▸ hj)
  have hk : key' ≠ key := by
    rintro rfl
    rw [hkey] at hj
    cases hj
  refine ⟨j, ?_, by rw [hframes j hji]; exact hjk, by rw [hframes j hji]; exact hd⟩
  rw [hmap, lookup_insert_ne hk]
  exact hj

theorem lt_add_cases {a b : UInt32} {k : ℕ} (hk : k ≤ 2 ^ 32) (h : b < a + UInt32.ofNat k) :
    b < a ∨ ∃ i < k, b = a + UInt32.ofNat i := by
  rw [UInt32.lt_iff_toNat_lt, UInt32.toNat_add, UInt32.toNat_ofNat'] at h
  have hb := b.toNat_lt
  have ha := a.toNat_lt
  by_cases hlt : b.toNat < a.toNat
  · exact Or.inl (UInt32.lt_iff_toNat_lt.mpr hlt)
  · refine Or.inr ⟨b.toNat - a.toNat, by omega, ?_⟩
    rw [← UInt32.toNat_inj, UInt32.toNat_add, UInt32.toNat_ofNat']
    omega

/-- What the pool is like after as many pages are counted as frames without a page were found. -/
structure Filled (s t : BufferPool n) (c : ContainerId) (victims : List (Fin n)) : Prop where
  hints : t.evictionHints = s.evictionHints
  containers : t.containers = (s.setContainer c { s.containerOf c with
    pageCount := (s.containerOf c).pageCount + UInt32.ofNat victims.length }).containers
  new : ∀ v ∈ victims.zipIdx, ∃ key : ContainerPageId,
    key = ⟨c, (s.containerOf c).pageCount + UInt32.ofNat v.2⟩ ∧
      t.pageToFrame.lookup key = some v.1 ∧ (t.frames v.1).key = some key ∧
      (t.frames v.1).isDirty = true
  kept : ∀ key i, s.pageToFrame.lookup key = some i → t.pageToFrame.lookup key = some i
  only : ∀ key i, t.pageToFrame.lookup key = some i → s.pageToFrame.lookup key = some i ∨ i ∈ victims
  others : ∀ i, i ∉ victims → t.frames i = s.frames i

variable {c : ContainerId} {victims : List (Fin n)}

theorem Filled.tidy (h : Filled s t c victims) (hs : Tidy s)
    (hfree : ∀ i ∈ victims, i ∉ s.evictionHints) : Tidy t := by
  refine ⟨fun d ct hd => ?_, h.hints ▸ hs.nodup, fun i hi => ?_, fun i hi key hlook => ?_⟩
  · rcases of_setContainer (h.containers ▸ hd) with ⟨-, rfl⟩ | ⟨-, hd⟩
    · exact hs.containerOf_nonTemp c
    · exact hs.nonTemp d ct hd
  · rw [h.hints] at hi
    rw [h.others i (fun hmem => hfree i hmem hi)]
    exact hs.keyless i hi
  · rw [h.hints] at hi
    rcases h.only key i hlook with hlook | hmem
    · exact hs.unmapped i hi key hlook
    · exact hfree i hmem hi

theorem Filled.inFile (h : Filled s t c victims) (hin : InFile s key) : InFile t key := by
  obtain ⟨ct, hct, hlt⟩ := hin
  unfold InFile
  rw [h.containers]
  by_cases hkc : key.cId = c
  · rw [hkc] at hct ⊢
    refine ⟨_, setContainer_self s c _, ?_⟩
    rw [containerOf_eq hct]
    exact hlt
  · exact ⟨ct, (setContainer_ne s c _ hkc).trans hct, hlt⟩

theorem Filled.good (h : Filled s t c victims) (hs : Good s) (hlen : victims.length ≤ 2 ^ 32)
    (hfree : ∀ i ∈ victims, i ∉ s.evictionHints ∧ ∀ key, s.pageToFrame.lookup key ≠ some i) :
    Good t := by
  refine ⟨h.tidy hs.tidy (fun i hi => (hfree i hi).1), fun d ct hd pageId hlt => ?_⟩
  have hkeep : ∀ ct₀, s.containers d = some ct₀ → pageId < ct₀.pageCount →
      InFile t ⟨d, pageId⟩ ∨ HeldDirty t ⟨d, pageId⟩ := by
    intro ct₀ hct₀ hlt₀
    rcases hs.safe d ct₀ hct₀ pageId hlt₀ with hin | ⟨i, hi, hkey, hdirty⟩
    · exact Or.inl (h.inFile hin)
    · have hframe := h.others i (fun hmem => (hfree i hmem).2 _ hi)
      exact Or.inr ⟨i, h.kept _ _ hi, by rw [hframe]; exact hkey, by rw [hframe]; exact hdirty⟩
  rcases of_setContainer (h.containers ▸ hd) with ⟨rfl, rfl⟩ | ⟨-, hd⟩
  · rcases lt_add_cases hlen hlt with hlt | ⟨k, hk, rfl⟩
    · obtain ⟨ct₀, hct₀, hlt₀⟩ := exists_of_lt hlt
      exact hkeep ct₀ hct₀ hlt₀
    · have hmem : (victims[k], k) ∈ victims.zipIdx :=
        mk_mem_zipIdx_iff_getElem?.mpr (getElem?_eq_getElem hk)
      obtain ⟨key, rfl, hlook, hkey, hdirty⟩ := h.new _ hmem
      exact Or.inr ⟨victims[k], hlook, hkey, hdirty⟩
  · exact hkeep ct hd hlt

theorem good_created (hs : Good s) (hi : i ∉ s.evictionHints)
    (hfree : ∀ key, s.pageToFrame.lookup key ≠ some i)
    (hlook : s.pageToFrame.lookup ⟨c, (s.containerOf c).pageCount⟩ = none) :
    Good (s.created c i) := by
  have hkey : ∀ key, key ≠ (⟨c, (s.containerOf c).pageCount⟩ : ContainerPageId) →
      (s.created c i).pageToFrame.lookup key = s.pageToFrame.lookup key :=
    fun key hne => lookup_insert_ne hne
  have hself : (s.created c i).pageToFrame.lookup ⟨c, (s.containerOf c).pageCount⟩ = some i :=
    lookup_insert _
  have hfilled : Filled s (s.created c i) c [i] := by
    refine ⟨rfl, rfl, fun v hv => ?_, fun key j hj => ?_, fun key j hj => ?_, fun j hj => ?_⟩
    · obtain rfl : v = (i, 0) := mem_singleton.mp hv
      refine ⟨_, rfl, ?_⟩
      rw [show (s.containerOf c).pageCount + UInt32.ofNat 0 = _ from UInt32.add_zero _]
      refine ⟨hself, ?_⟩
      rw [show (s.created c i).frames i = _ from setFrame_self _ i _]
      exact ⟨rfl, rfl⟩
    · rw [hkey key (fun heq => ?_)]
      · exact hj
      · rw [heq, hlook] at hj
        cases hj
    · by_cases heq : key = ⟨c, (s.containerOf c).pageCount⟩
      · rw [heq, hself] at hj
        exact Or.inr (mem_singleton.mpr (Option.some.inj hj).symm)
      · rw [hkey key heq] at hj
        exact Or.inl hj
    · exact setFrame_ne _ _ _ (fun heq => hj (mem_singleton.mpr heq))
  refine hfilled.good hs (by rw [length_singleton]; decide) (fun j hj => ?_)
  rw [mem_singleton.mp hj]
  exact ⟨hi, hfree⟩

/-- The pool after a page is read, or could not be read, into a free frame. -/
theorem good_fetched (hs : Good s) (hi : i ∉ s.evictionHints)
    (hfree : ∀ key, s.pageToFrame.lookup key ≠ some i) (hlook : s.pageToFrame.lookup key = none)
    (hmap : t.pageToFrame = s.pageToFrame.insert key i) (hhints : t.evictionHints = s.evictionHints)
    (hcontainers : t.containers = (s.ensured key.cId).containers)
    (hframes : ∀ j, j ≠ i → t.frames j = s.frames j) : Good t := by
  have hgrows : Grows s t := .setContainer hs.tidy (hs.tidy.containerOf_nonTemp _) rfl le_rfl hcontainers
  refine ⟨hs.tidy.mapped hi key hgrows.nonTemp hhints hmap hframes, ?_⟩
  intro c ct' hct' pageId hlt
  obtain ⟨ct, hct, hlt'⟩ := hgrows.counted c ct' hct' pageId hlt
  rcases hs.safe c ct hct pageId hlt' with hfile | hheld
  · exact Or.inl (hgrows.inFile hfile)
  · exact Or.inr (hheld.mapped hfree hlook hmap hframes)

/-! ### The calls -/

/-- The pool is good when the function returns, also when it returns an error. -/
def KeepsGood {α : Type} (x : PoolCall n α) (s : BufferPool n) : Prop :=
  Sat x s (fun _ t => Good t) (Returned fun _ t => Good t)

theorem createNewPageForWrite_good (hn : n ≤ 2 ^ 32) (hs : Good s) (c : ContainerId) :
    KeepsGood (createNewPageForWrite c) s := by
  refine createNewPageForWrite_tidy hn hs.tidy returned_panic (returned_status (good_noHints hs))
    (fun before i rest hh hlook => ?_)
  obtain ⟨hi, hfree⟩ := hs.tidy.victim hh
  exact good_created (good_latched hs hh) hi hfree hlook

theorem grantLatch_good {try_ : BufferFrame → Option BufferFrame}
    (htry : ∀ fr fr', try_ fr = some fr' → fr'.key = fr.key)
    (hdirty : ∀ fr fr', try_ fr = some fr' → fr.isDirty = true → fr'.isDirty = true)
    (denied : MemPoolStatus) (hs : Good s) (i : Fin n) :
    KeepsGood (grantLatch try_ denied i) s := by
  unfold grantLatch
  refine Sat.bind (Sat.get ?_)
  cases hfr : try_ (s.frames i) with
  | none => exact Sat.throw (returned_status hs)
  | some fr =>
    refine Sat.bind (Sat.modify (Sat.pure ?_))
    exact (Mild.setFrame hs (htry _ _ hfr) (hdirty _ _ hfr)).good hs

theorem getPage_good (hn : n ≤ 2 ^ 32) (hs : Good s) {try_ : BufferFrame → Option BufferFrame}
    {finish : BufferFrame → BufferFrame} {denied : MemPoolStatus}
    (htry : ∀ fr fr', try_ fr = some fr' → fr'.key = fr.key)
    (hdirty : ∀ fr fr', try_ fr = some fr' → fr.isDirty = true → fr'.isDirty = true)
    (key : ContainerPageId) :
    KeepsGood (getPage (grantLatch try_ denied) finish key) s := by
  have hcontainers : ∀ (i : Fin n) (rest : List (Fin n)),
      (((s.latched i rest).mapped key i).ensured key.cId).containers =
        ((s.latched i rest).ensured key.cId).containers := fun _ _ => rfl
  refine getPage_tidy hn hs.tidy returned_panic (fun i _ => grantLatch_good htry hdirty denied hs i)
    (returned_status (good_noHints hs)) (fun before i rest garbage msg hlook hh => ?_)
    (fun before i rest p hlook hh _ => ?_)
  · obtain ⟨hi, hfree⟩ := hs.tidy.victim hh
    refine returned_status (good_fetched (good_latched hs hh) hi hfree hlook rfl rfl
      (hcontainers i rest) (fun j hj => ?_))
    have hj' : j ∉ [i] := fun h => hj (mem_singleton.mp h)
    show (if j ∈ [i] then _ else _) = _
    rw [if_neg hj', setFrame_ne _ _ _ hj]
    rfl
  · obtain ⟨hi, hfree⟩ := hs.tidy.victim hh
    refine good_fetched (good_latched hs hh) hi hfree hlook rfl rfl (hcontainers i rest)
      (fun j hj => ?_)
    rw [setFrame_ne _ _ _ hj]
    rfl

theorem getPageForWrite_good (hn : n ≤ 2 ^ 32) (hs : Good s) (key : ContainerPageId) :
    KeepsGood (getPageForWrite key) s := by
  unfold getPageForWrite
  refine getPage_good hn hs (BufferFrame.tryWrite_key true) (fun fr fr' h _ => ?_) key
  unfold BufferFrame.tryWrite at h
  split_ifs at h
  rw [← Option.some.inj h]
  rfl

theorem getPageForRead_good (hn : n ≤ 2 ^ 32) (hs : Good s) (key : ContainerPageId) :
    KeepsGood (getPageForRead key) s := by
  unfold getPageForRead
  refine getPage_good hn hs BufferFrame.tryRead_key (fun fr fr' h hd => ?_) key
  unfold BufferFrame.tryRead at h
  split_ifs at h
  rw [← Option.some.inj h]
  exact hd

/-- A page that is written back is in the file. -/
theorem writeVictim_mild (hs : Good s) (i : Fin n) :
    Sat (writeVictimToDiskIfDirty i) s
      (fun _ t => Mild s t ∧ ∀ key, (s.frames i).key = some key → (s.frames i).isDirty = true →
        InFile t key)
      (fun _ _ => True) := by
  refine writeVictim_sat (fun hclean => ?_) (fun key hkey hdirty => ?_)
  · refine ⟨⟨List.Sublist.refl _, SameTable.refl s, fun _ h => Or.inl h, .of_eq hs.tidy rfl⟩, ?_⟩
    intro key hkey hd
    rw [hclean key hkey] at hd
    cases hd
  · have hsame : SameTable s (s.setFrame i { s.frames i with isDirty := false }) :=
      (SameTable.refl s).setFrame rfl
    have hct : (s.setFrame i { s.frames i with isDirty := false }).containerOf key.cId =
        s.containerOf key.cId := rfl
    refine writePage_sat (fun htemp => ?_) (fun _ _ _ => trivial) (fun htemp _ => ?_)
    · rw [hct, hs.tidy.containerOf_nonTemp] at htemp
      cases htemp
    · have hfile : InFile (((s.setFrame i { s.frames i with isDirty := false }).ticked).setContainer
          key.cId { s.containerOf key.cId with
            file := Container.writeAt (s.containerOf key.cId).file key.pageId.toNat (s.frames i).page })
          key := ⟨_, setContainer_self .., Container.lt_writeAt ..⟩
      have hthis : ∀ key', (s.frames i).key = some key' → key' = key := fun key' hkey' =>
        Option.some.inj (hkey'.symm.trans hkey)
      refine ⟨⟨List.Sublist.refl _, hsame.of_eq rfl rfl, fun j hj => ?_, ?_⟩, fun key' hkey' _ => ?_⟩
      · by_cases hji : j = i
        · subst hji
          refine Or.inr (fun key' hkey' => ?_)
          rw [hthis key' hkey']
          exact hfile
        · refine Or.inl ?_
          show ((s.setFrame i { s.frames i with isDirty := false }).frames j).isDirty = true
          rw [setFrame_ne _ _ _ hji]
          exact hj
      · refine Grows.setContainer (c := key.cId) hs.tidy ?_ ?_ ?_ rfl
        · exact hs.tidy.containerOf_nonTemp key.cId
        · rfl
        · exact Container.length_le_writeAt ..
      · rw [hthis key' hkey']
        exact hfile

/-- A flush fails only where a page cannot be written. -/
theorem flushAll_good (hs : Good s) :
    Sat flushAll s (fun _ t => Good t) (Returned fun _ _ => ∃ j, FailsAt s j) := by
  refine (Sat.forM_done (I := fun done t => Good t ∧ Writing s done t) (finRange n) ⟨hs, .nil s⟩
    ?_).mono (fun _ _ h => h.1) (fun _ _ h => h)
  rintro done i rest hall t ⟨ht, hwriting⟩
  refine Sat.bind (Sat.get ?_)
  split_ifs
  · exact Sat.throw (returned_blocks t)
  · refine ((writeVictim_mild ht i).and (hwriting.write (take_of_finRange hall).2)).mono
      (fun _ u hu => ⟨hu.1.1.good ht, hu.2⟩) (fun _ _ hfault st _ => ?_)
    exact ⟨i, hwriting.failsAt hall hfault.2.1 hfault.2.2⟩

/-- Nothing is left in the pool, and every counted page is in the file. -/
theorem good_forgotten (htemp : ∀ c ct, s.containers c = some ct → ct.isTemp = false)
    (hkeys : ∀ i, (s.frames i).key = none)
    (hfile : ∀ c ct, s.containers c = some ct → ∀ pageId < ct.pageCount, InFile s ⟨c, pageId⟩) :
    Sat forgetPages s (fun _ t => Good t) (Returned fun _ _ => False) := by
  refine Sat.modify ⟨⟨htemp, nodup_finRange n, fun i _ => hkeys i, fun i _ key h => ?_⟩, ?_⟩
  · cases h
  · intro c ct hct pageId hlt
    exact Or.inl (hfile c ct hct pageId hlt)

theorem good_cleared {u : BufferPool n} (ht : Good t) (htu : Mild t u)
    (hfile : ∀ key, (t.frames i).key = some key → (t.frames i).isDirty = true → InFile u key) :
    Good (u.setFrame i (u.frames i).clear) := by
  have hu := htu.good ht
  refine ⟨⟨hu.tidy.nonTemp, hu.tidy.nodup, fun j hj => ?_, hu.tidy.unmapped⟩, ?_⟩
  · by_cases hji : j = i
    · rw [hji, setFrame_self]
      rfl
    · rw [setFrame_ne _ _ _ hji]
      exact hu.tidy.keyless j hj
  · intro c ct' hct' pageId hlt
    obtain ⟨ct, hct, hlt'⟩ := htu.grows.counted c ct' hct' pageId hlt
    rcases ht.safe c ct hct pageId hlt' with hin | ⟨j, hj, hkey, hdirty⟩
    · exact Or.inl (htu.grows.inFile hin)
    · by_cases hji : j = i
      · rw [hji] at hkey hdirty
        exact Or.inl (hfile _ hkey hdirty)
      · rcases htu.dirty j hdirty with hd | hd
        · refine Or.inr ⟨j, ?_, ?_, ?_⟩
          · rw [setFrame_pageToFrame, htu.table.map]
            exact hj
          · rw [setFrame_ne _ _ _ hji, htu.table.key]
            exact hkey
          · rw [setFrame_ne _ _ _ hji]
            exact hd
        · exact Or.inl (hd _ hkey)

variable {E : Stop → BufferPool n → Prop}

theorem flushAllAndReset_good (hs : Good s) :
    Sat flushAllAndReset s (fun _ t => Good t) (Returned fun _ _ => ∃ j, FailsAt s j) := by
  have hgood : Sat flushAllAndReset s (fun _ t => Good t) (fun _ _ => True) := by
    refine Sat.bind ((forFrames_sat (P := Good) (fun _ => trivial) hs (fun i t ht => ?_)).mono
      (fun _ t ht => ?_) (fun _ _ h => h))
    · exact (writeVictim_mild ht i).mono (fun _ u hu => ⟨good_cleared ht hu.1 hu.2, hu.1.table⟩)
        (fun _ _ h => h)
    · obtain ⟨hgood, hkeys⟩ := ht
      refine (good_forgotten hgood.tidy.nonTemp hkeys (fun c ct hct pageId hlt => ?_)).mono
        (fun _ _ h => h) (fun _ _ _ => trivial)
      rcases hgood.safe c ct hct pageId hlt with hin | ⟨i, -, hkey, -⟩
      · exact hin
      · rw [hkeys i] at hkey
        cases hkey
  refine (hgood.and (flushAllAndReset_fails s)).mono (fun _ _ h => h.1) (fun _ _ h st hst => ?_)
  obtain ⟨j, hj, -⟩ := h.2 st hst
  exact ⟨j, hj⟩

/-- Every page in the pool that is counted is in the file. -/
def Flushed (s : BufferPool n) : Prop :=
  ∀ c ct, s.containers c = some ct → ∀ pageId < ct.pageCount,
    (s.pageToFrame.lookup ⟨c, pageId⟩).isSome → InFile s ⟨c, pageId⟩

theorem Flushed.inFile (h : Flushed s) (hs : Safe s) {ct : Container}
    (hct : s.containers c = some ct) {pageId : PageId} (hlt : pageId < ct.pageCount) :
    InFile s ⟨c, pageId⟩ := by
  rcases hs c ct hct pageId hlt with hin | ⟨i, hi, -⟩
  · exact hin
  · exact h c ct hct pageId hlt (by rw [hi]; rfl)

theorem reset_good (hs : Good s) (hf : Flushed s) : KeepsGood reset s := by
  have hloop : Sat (forFrames fun i => do (pure () : PoolCall n Unit); onFrame i .clear) s
      (fun _ t => t.containers = s.containers ∧ ∀ i, (t.frames i).key = none)
      (Returned fun _ t => Good t) :=
    forFrames_sat (x := fun _ => pure ()) (P := fun t => t.containers = s.containers)
      returned_blocks rfl (fun i t ht => Sat.pure ⟨ht, SameTable.refl t⟩)
  refine Sat.bind (hloop.mono (fun _ t ht => ?_) (fun _ _ h => h))
  obtain ⟨hct, hkeys⟩ := ht
  refine (good_forgotten (by rw [hct]; exact hs.tidy.nonTemp) hkeys
    (fun c ct hc pageId hlt => ?_)).mono (fun _ _ h => h) (fun _ _ h st hst => (h st hst).elim)
  rw [hct] at hc
  obtain ⟨ct', hct', hlt'⟩ := hf.inFile hs.safe hc hlt
  exact ⟨ct', by rw [hct]; exact hct', hlt'⟩

theorem clearDirtyFlags_good (hs : Good s) (hf : Flushed s) : KeepsGood clearDirtyFlags s := by
  have hloop : Sat clearDirtyFlags s (fun _ t => SameTable s t ∧ t.evictionHints = s.evictionHints ∧
      t.containers = s.containers) (Returned fun _ t => Good t) := by
    refine Sat.forM _ ⟨SameTable.refl s, rfl, rfl⟩ (fun i _ t ht => ?_)
    refine Sat.bind (Sat.get ?_)
    split_ifs
    · exact Sat.modify ⟨ht.1.setFrame rfl, ht.2⟩
    · exact Sat.throw (returned_blocks t)
  refine hloop.mono (fun _ t ht => ?_) (fun _ _ h => h)
  obtain ⟨hsame, hhints, hct⟩ := ht
  refine ⟨⟨hct ▸ hs.tidy.nonTemp, hhints ▸ hs.tidy.nodup, fun i hi => ?_, fun i hi key => ?_⟩, ?_⟩
  · rw [hsame.key]
    exact hs.tidy.keyless i (hhints ▸ hi)
  · rw [hsame.map]
    exact hs.tidy.unmapped i (hhints ▸ hi) key
  · intro c ct hc pageId hlt
    rw [hct] at hc
    obtain ⟨ct', hct', hlt'⟩ := hf.inFile hs.safe hc hlt
    exact Or.inl ⟨ct', by rw [hct]; exact hct', hlt'⟩

/-! ### Several pages at once -/

theorem insertMappings_lookup (hn : n ≤ 2 ^ 32) (hpanic : ∀ t, E .panic t)
    (key : ℕ → ContainerPageId) (vs : List (Fin n × ℕ)) (s : BufferPool n) :
    Sat (vs.forM fun v => insertMapping (key v.2) (frameId v.1)) s (fun _ t => OnlyMap s t ∧
      (∀ v ∈ vs, t.pageToFrame.lookup (key v.2) = some v.1) ∧
      (∀ k j, s.pageToFrame.lookup k = some j → t.pageToFrame.lookup k = some j) ∧
      ∀ k j, t.pageToFrame.lookup k = some j → s.pageToFrame.lookup k = some j ∨ j ∈ vs.map Prod.fst)
      E := by
  induction vs generalizing s with
  | nil => exact ⟨⟨rfl, rfl, rfl⟩, fun v hv => absurd hv not_mem_nil, fun _ _ h => h,
      fun _ _ h => Or.inl h⟩
  | cons v vs ih =>
    refine Sat.bind ?_
    show Sat (insertMapping (key v.2) (frameId v.1)) s _ E
    rw [frameId_eq hn]
    refine insertMapping_mapped (hpanic s) (fun hnone => ?_)
    refine (ih (s.mapped (key v.2) v.1)).mono ?_ (fun _ _ h => h)
    rintro _ t ⟨hst, hnew, hold, hback⟩
    have hself : (s.mapped (key v.2) v.1).pageToFrame.lookup (key v.2) = some v.1 :=
      lookup_insert _
    have hother : ∀ k, k ≠ key v.2 → (s.mapped (key v.2) v.1).pageToFrame.lookup k =
        s.pageToFrame.lookup k := fun k hk => lookup_insert_ne hk
    refine ⟨⟨hst.frames, hst.hints, hst.containers⟩, fun w hw => ?_, fun k j hk => ?_,
      fun k j hk => ?_⟩
    · rcases mem_cons.mp hw with rfl | hw
      · exact hold _ _ hself
      · exact hnew w hw
    · refine hold k j ?_
      rw [hother k (fun heq => ?_)]
      · exact hk
      · rw [heq, hnone] at hk
        cases hk
    · rcases hback k j hk with hs' | hmem
      · by_cases heq : k = key v.2
        · rw [heq, hself] at hs'
          exact Or.inr (by rw [← Option.some.inj hs']; exact mem_cons_self)
        · rw [hother k heq] at hs'
          exact Or.inl hs'
      · exact Or.inr (mem_cons_of_mem _ hmem)

/-- The frames that got a page hold it under its key, and are dirty; the others are as before. -/
theorem holdNewPages_frames (key : ℕ → ContainerPageId) (vs : List (Fin n × ℕ))
    (hnd : (vs.map Prod.fst).Nodup) (s : BufferPool n) :
    Sat (vs.forM fun v => onFrame v.1 (holdNewPage (key v.2))) s (fun _ t =>
      (t.pageToFrame = s.pageToFrame ∧ t.evictionHints = s.evictionHints ∧
        t.containers = s.containers) ∧
      (∀ v ∈ vs, (t.frames v.1).key = some (key v.2) ∧ (t.frames v.1).isDirty = true) ∧
      ∀ j, j ∉ vs.map Prod.fst → t.frames j = s.frames j) E := by
  induction vs generalizing s with
  | nil => exact ⟨⟨rfl, rfl, rfl⟩, fun v hv => absurd hv not_mem_nil, fun _ _ => rfl⟩
  | cons v vs ih =>
    rw [map_cons, nodup_cons] at hnd
    refine Sat.bind (Sat.modify ?_)
    refine (ih hnd.2 (s.setFrame v.1 (holdNewPage (key v.2) (s.frames v.1)))).mono ?_
      (fun _ _ h => h)
    rintro _ t ⟨hrest, hnew, hold⟩
    refine ⟨hrest, fun w hw => ?_, fun j hj => ?_⟩
    · rcases mem_cons.mp hw with rfl | hw
      · rw [hold w.1 hnd.1, setFrame_self]
        exact ⟨rfl, rfl⟩
      · exact hnew w hw
    · rw [map_cons, mem_cons, not_or] at hj
      rw [hold j hj.2, setFrame_ne _ _ _ hj.1]

theorem forM_same {ι : Type} {g : ι → PoolCall n PUnit} {l : List ι}
    (h : ∀ i ∈ l, g i s = .ok () s) : l.forM g s = .ok () s := by
  induction l with
  | nil => rfl
  | cons i l ih =>
    have hi := h i mem_cons_self
    show (g i >>= fun _ => l.forM g) s = _
    rw [bind_of_ok hi]
    exact ih (fun j hj => h j (mem_cons_of_mem i hj))

/-- The pages a call asks for are created in free frames, as far as there are any. -/
theorem createNewPagesForWrite_filled (hn : n ≤ 2 ^ 32) (hs : Good s) {numPages : ℕ}
    {Q : List (Fin n) → BufferPool n → Prop} (hpanic : ∀ t, E .panic t)
    (hnone : ∀ rest, rest.Sublist s.evictionHints →
      E (.status .cannotEvictPage) (s.latchedAll [] rest))
    (hok : ∀ victims rest t, Chosen s s.evictionHints victims rest → victims ≠ [] →
      victims.length ≤ numPages → (victims.length < min n numPages → rest = []) →
      (victims.length = numPages → Filled (s.latchedAll victims rest) t c victims) → Q victims t) :
    Sat (createNewPagesForWrite c numPages) s Q E := by
  unfold createNewPagesForWrite
  split_ifs with hzero
  · exact Sat.throw (hpanic s)
  refine Sat.bind (chooseVictims_sat (Nat.pos_of_ne_zero hzero) (fun victims rest hch hlen hrest => ?_))
  obtain ⟨before, hb, hmem⟩ := hch.front
  have hsub : rest.Sublist s.evictionHints := hb ▸ sublist_append_right before rest
  split_ifs with hempty
  · rw [List.isEmpty_iff.mp hempty]
    exact Sat.throw (hnone rest hsub)
  have hkey : ∀ i ∈ victims, ((s.latchedAll victims rest).frames i).key = none := by
    intro i hi
    rw [(sameTable_latchedAll s victims rest).key]
    refine hs.tidy.keyless i ?_
    rw [hb]
    exact mem_append_left rest (hmem i hi)
  have hfst : victims.zipIdx.map Prod.fst = victims := zipIdx_map_fst 0 victims
  refine dropOnError_sat (Sat.bind (.of_ok (forM_same (fun i hi => writeVictim_keyless (hkey i hi))) ?_))
  unfold allocateAll
  refine Sat.bind (.of_ok (forM_same (fun i hi => removeOldMapping_keyless (hkey i hi))) ?_)
  refine Sat.bind (.of_ok (incPageCount_eq (s.latchedAll victims rest) c numPages) ?_)
  rw [take_of_length_le (by rw [length_zipIdx]; exact hlen)]
  let key : ℕ → ContainerPageId := fun k =>
    ⟨c, ((s.latchedAll victims rest).containerOf c).pageCount + UInt32.ofNat k⟩
  refine Sat.bind ((insertMappings_lookup (E := fun e t => E e (t.dropGuards victims)) hn
    (fun t => hpanic _) key victims.zipIdx _).mono ?_
    (fun _ _ h => h))
  rintro _ u ⟨hu, hnew, hold, hback⟩
  refine Sat.bind ((holdNewPages_frames key victims.zipIdx (by rw [hfst]; exact hch.nodup) u).mono ?_
    (fun _ _ h => h))
  rintro _ v ⟨⟨hmap, hhints, hcont⟩, hframes, hothers⟩
  rw [hfst] at hothers hback
  refine hok victims rest v hch (fun h => hempty (List.isEmpty_iff.mpr h)) hlen hrest (fun hnum => ?_)
  refine ⟨hhints.trans hu.hints, ?_, fun w hw => ⟨key w.2, rfl, ?_, hframes w hw⟩, fun k j hj => ?_,
    fun k j hj => ?_, fun i hi => ?_⟩
  · rw [hcont, hu.containers, hnum]
  · rw [hmap]
    exact hnew w hw
  · rw [hmap]
    exact hold k j hj
  · rw [hmap] at hj
    exact hback k j hj
  · rw [hothers i hi, hu.frames]
    rfl

theorem mild_latchedAll (hs : Good s) {is : List (Fin n)} (hsub : rest.Sublist s.evictionHints) :
    Mild s (s.latchedAll is rest) := by
  refine ⟨hsub, sameTable_latchedAll s is rest, fun i hi => Or.inl ?_, .of_eq hs.tidy rfl⟩
  show (if i ∈ is then { s.frames i with cnt := -1 } else s.frames i).isDirty = true
  split_ifs <;> exact hi

/-- There are as many victims as pages when there are frames enough. -/
theorem Chosen.length_eq {numPages : ℕ} (h : Chosen s s.evictionHints victims rest)
    (hne : victims ≠ []) (hle : victims.length ≤ numPages)
    (hrest : victims.length < min n numPages → rest = [])
    (henough : s.freeFrames = [] ∨ numPages ≤ s.freeFrames.length) : victims.length = numPages := by
  obtain ⟨hfew, hall⟩ := h.length_le
  have hpos := length_pos_iff.mpr hne
  rcases henough with hnil | henough
  · rw [hnil, length_nil] at hfew
    omega
  · have hcard : victims.length ≤ n := h.nodup.length_le_card.trans_eq (Fintype.card_fin n)
    have hfree : s.freeFrames.length ≤ n :=
      ((nodup_dedup _).filter _).length_le_card.trans_eq (Fintype.card_fin n)
    by_contra hlt
    have hmany := hall (hrest (by omega))
    omega

/-- A call for several pages, when there is no frame or there are frames enough. -/
theorem createNewPagesForWrite_good (hn : n ≤ 2 ^ 32) (hs : Good s) (c : ContainerId) {numPages : ℕ}
    (henough : s.freeFrames = [] ∨ numPages ≤ s.freeFrames.length) :
    KeepsGood (createNewPagesForWrite c numPages) s := by
  refine createNewPagesForWrite_filled hn hs returned_panic
    (fun rest hsub => returned_status ((mild_latchedAll hs hsub).good hs))
    (fun victims rest t hch hne hle hrest hfilled => ?_)
  have hnum := hch.length_eq hne hle hrest henough
  obtain ⟨before, hb, hmem⟩ := hch.front
  have hsub : rest.Sublist s.evictionHints := hb ▸ sublist_append_right before rest
  have hcard : victims.length ≤ n := hch.nodup.length_le_card.trans_eq (Fintype.card_fin n)
  refine (hfilled hnum).good ((mild_latchedAll hs hsub).good hs) (hcard.trans hn) (fun i hi => ⟨?_, ?_⟩)
  · have hnd := hs.tidy.nodup
    rw [hb] at hnd
    exact disjoint_of_nodup_append hnd (hmem i hi)
  · exact hs.tidy.unmapped i (hb ▸ mem_append_left rest (hmem i hi))

theorem createContainer_good (hs : Good s) (c : ContainerId) :
    Sat (createContainer c false) s (fun _ t => Good t) (Returned fun _ _ => False) := by
  refine Sat.modify ?_
  cases hc : s.containers c with
  | some ct => exact hs
  | none =>
    have hof : s.containerOf c = .new [] := by
      unfold containerOf
      rw [hc]
      rfl
    refine Mild.good (s := s) ⟨List.Sublist.refl _, ⟨rfl, fun _ => rfl⟩, fun _ h => Or.inl h, ?_⟩ hs
    refine Grows.setContainer (c := c) hs.tidy ?_ ?_ ?_ rfl
    · rfl
    · rw [hof]
      rfl
    · rw [hof]
      exact le_rfl

/-! ### Runs -/

/-- The calls that forget no page before it is in the file: no container is temporary or becomes
so, there are frames for all the pages that are asked for or for none, frames are not emptied or
marked clean before their pages are written, and no write of a flush fails. -/
structure Careful (s : BufferPool n) (c : Call n) : Prop where
  nonTemp : ∀ cId, c ≠ .createContainer cId true
  keeps : ∀ cId order, c ≠ .dropContainer cId order
  enough : ∀ cId numPages, c = .createNewPagesForWrite cId numPages →
    s.freeFrames = [] ∨ numPages ≤ s.freeFrames.length
  flushed : c = .reset ∨ c = .clearDirtyFlags → Flushed s
  written : c = .flushAll ∨ c = .flushAllAndReset → ∀ j, ¬ FailsAt s j

/-- A careful call keeps the pool good. -/
theorem exec_good (hn : n ≤ 2 ^ 32) (hs : Good s) {c : Call n} (hc : Careful s c) :
    KeepsGood c.exec s := by
  have hgood : ∀ {α : Type} {x : PoolCall n α} (f : α → Answer n), KeepsGood x s →
      KeepsGood (x >>= fun a => pure (f a)) s := fun f hx =>
    Sat.bind (hx.mono (fun _ _ h => Sat.pure h) (fun _ _ h => h))
  have hnever : ∀ {x : PoolCall n Unit}, ¬ (∃ j, FailsAt s j) →
      Sat x s (fun _ t => Good t) (Returned fun _ _ => ∃ j, FailsAt s j) → KeepsGood x s :=
    fun hnot hx => hx.mono (fun _ _ h => h) (fun _ _ h st hst => absurd (h st hst) hnot)
  have hsure : ∀ {x : PoolCall n Unit}, Sat x s (fun _ t => Good t) (Returned fun _ _ => False) →
      KeepsGood x s := fun hx => hx.mono (fun _ _ h => h) (fun _ _ h st hst => (h st hst).elim)
  have hidle : ∀ {a : Answer n}, c.exec s = .ok a s → KeepsGood c.exec s := fun h => .of_ok h hs
  have hguard : ∀ {i : Fin n} {fr : BufferFrame}, fr.key = (s.frames i).key →
      fr.isDirty = (s.frames i).isDirty → Good (s.setFrame i fr) := fun hkey hdirty =>
    (Mild.setFrame hs hkey (fun h => hdirty ▸ h)).good hs
  cases c with
  | createContainer c isTemp =>
    cases isTemp with
    | true => exact absurd rfl (hc.nonTemp c)
    | false => exact hgood (fun _ => .done) (hsure (createContainer_good hs c))
  | dropContainer c order => exact absurd rfl (hc.keeps c order)
  | createNewPageForWrite c => exact hgood .guard (createNewPageForWrite_good hn hs c)
  | createNewPagesForWrite c numPages =>
    exact hgood .guards (createNewPagesForWrite_good hn hs c (hc.enough c numPages rfl))
  | isInMem | getMaxPageId | getPageIdsInMem | prefetchPage | fastEvict | resetStats =>
    exact hidle rfl
  | getPageForWrite key => exact hgood .guard (getPageForWrite_good hn hs key)
  | getPageForRead key => exact hgood .guard (getPageForRead_good hn hs key)
  | flushAll =>
    exact hgood (fun _ => .done) (hnever (not_exists.mpr (hc.written (Or.inl rfl))) (flushAll_good hs))
  | stats =>
    exact hgood (fun _ => .done) (hsure ((stats_same s).mono (fun _ t ht => ht ▸ hs) (fun _ _ h => h)))
  | reset => exact hgood (fun _ => .done) (reset_good hs (hc.flushed (Or.inl rfl)))
  | flushAllAndReset =>
    exact hgood (fun _ => .done)
      (hnever (not_exists.mpr (hc.written (Or.inr rfl))) (flushAllAndReset_good hs))
  | clearDirtyFlags => exact hgood (fun _ => .done) (clearDirtyFlags_good hs (hc.flushed (Or.inr rfl)))
  | dropReadGuard i =>
    exact hgood (fun _ => .done) (hsure (dropReadGuard_sat (fun _ => hguard rfl rfl)))
  | dropWriteGuard i page =>
    exact hgood (fun _ => .done) (hsure (dropWriteGuard_sat (fun _ => hguard rfl rfl)))

end Steps

end BufferPool

namespace Trace

variable {n : ℕ} {s : BufferPool n}

open BufferPool

/-- A run of careful calls keeps the pool good. -/
theorem good (hn : n ≤ 2 ^ 32) (hs : Good s) {es : List (Event n)} {u : BufferPool n}
    (h : Trace s es u) (hcareful : StepsMeet s es Careful) : Good u := by
  induction h with
  | start => exact hs
  | @ok es t u c a h hc ih =>
    have ht := ih (hcareful.of_prefix (prefix_append es _))
    exact (exec_good hn ht (hcareful es _ t (prefix_refl _) h)).ok hc
  | @error es t u c e h hc ih =>
    have ht := ih (hcareful.of_prefix (prefix_append es _))
    exact (exec_good hn ht (hcareful es _ t (prefix_refl _) h)).error hc e rfl

end Trace

/-- In a run of careful calls, every page below the page count of its container is in a frame or in
the file, in every state reached. -/
theorem available_of_careful {n : ℕ} (hn : n ≤ 2 ^ 32) (files : ContainerId → Option (List Page))
    (disk : Disk) (es : List (Event n))
    (hcareful : StepsMeet (.new (BufferPool.catalog files) disk) es BufferPool.Careful) :
    ∀ pre t, pre <+: es → Trace (.new (BufferPool.catalog files) disk) pre t → t.Available := by
  intro pre t hpre ht
  have hgood := ht.good hn ⟨BufferPool.tidy_new files disk, BufferPool.safe_new files disk⟩
    (hcareful.of_prefix hpre)
  exact hgood.safe.available

theorem available_of_careful_createTwo :
    ∃ s, Trace (.new (BufferPool.catalog fun _ => none) soundDisk) createTwoAndFlush s ∧
      (s.containerOf 3).pageCount = 2 ∧ s.pageToFrame.lookup ⟨3, 1⟩ = none ∧ s.Available := by
  have h₀ : Trace (.new (n := 2) (BufferPool.catalog fun _ => none) soundDisk) [] _ := .start
  have h₁ := h₀.ok (c := .createNewPagesForWrite 3 2) (a := .guards [0, 1]) rfl
  have h₂ := h₁.ok (c := .dropWriteGuard 0 (Page.new 0)) (a := .done) rfl
  have h₃ := h₂.ok (c := .dropWriteGuard 1 (Page.new 1)) (a := .done) rfl
  have h₄ := h₃.ok (c := .flushAllAndReset) (a := .done) rfl
  refine ⟨_, h₄, rfl, rfl, available_of_careful (by decide) _ _ createTwoAndFlush ?_ _ _
    (List.prefix_refl _) h₄⟩
  refine (((StepsMeet.nil.snoc h₀ ?_).snoc h₁ ?_).snoc h₂ ?_).snoc h₃ ?_
  · refine ⟨nofun, nofun, ?_, nofun, nofun⟩
    rintro c numPages ⟨⟩
    exact Or.inr (by decide)
  · exact ⟨nofun, nofun, nofun, nofun, nofun⟩
  · exact ⟨nofun, nofun, nofun, nofun, nofun⟩
  · exact ⟨nofun, nofun, nofun, nofun, fun _ j hj => hj.fault rfl⟩

/-- A pool with one frame that is asked for two pages answers with one; both are counted, and the
second is neither in a frame nor in the file. -/
theorem createNewPagesForWrite_short : ∃ s : BufferPool 1,
    Trace (.new (BufferPool.catalog fun _ => none) soundDisk)
      [⟨.createNewPagesForWrite 0 2, .ok (.guards [0])⟩] s ∧
      (s.containerOf 0).pageCount = 2 ∧ s.pageToFrame.lookup ⟨0, 1⟩ = none ∧
      ¬ BufferPool.InFile s ⟨0, 1⟩ ∧ ¬ s.Available := by
  have hrun := (Trace.start (s := .new (n := 1) (BufferPool.catalog fun _ => none) soundDisk)).ok
    (c := .createNewPagesForWrite 0 2) (a := .guards [0]) rfl
  refine ⟨_, hrun, rfl, rfl, ?_, fun h => ?_⟩
  · rintro ⟨ct, hct, hlt⟩
    cases hct
    exact absurd hlt (by decide)
  · rcases h 0 _ rfl 1 (by decide) with hmap | ⟨ct, hct, hlt⟩
    · cases hmap
    · cases hct
      exact absurd hlt (by decide)

end CrustyDB
