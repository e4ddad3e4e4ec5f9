import CrustyDB.Pool.BufferPool

/-! # What the calls of the pool do

One theorem for each function the calls are made of, as a postcondition (`Sat`) or as an equation,
so that the proofs about the calls do not look into their bodies.  The functions that only write
pages back, look for a victim or count pages leave the map and the keys of the frames alone
(`SameTable`). -/

namespace CrustyDB

open Stateful Function List

namespace BufferFrame

theorem tryRead_key (fr fr' : BufferFrame) (h : fr.tryRead = some fr') : fr'.key = fr.key := by
  unfold tryRead at h
  split_ifs at h
  rw [← Option.some.inj h]

theorem tryWrite_key (makeDirty : Bool) (fr fr' : BufferFrame)
    (h : fr.tryWrite makeDirty = some fr') : fr'.key = fr.key := by
  unfold tryWrite at h
  split_ifs at h
  rw [← Option.some.inj h]

theorem tryWrite_free {fr : BufferFrame} (h : fr.cnt = 0) :
    fr.tryWrite false = some { fr with cnt := -1 } := by
  unfold tryWrite
  rw [if_pos h, Bool.false_or]

end BufferFrame

namespace BufferPool

variable {n : ℕ}

/-! ### Updates of the state -/

section Updates

variable (s : BufferPool n) (i : Fin n) (fr : BufferFrame) (c : ContainerId) (ct : Container)

@[simp] theorem setFrame_self : (s.setFrame i fr).frames i = fr := update_self ..

theorem setFrame_ne {j : Fin n} (h : j ≠ i) : (s.setFrame i fr).frames j = s.frames j :=
  update_of_ne h ..

@[simp] theorem setFrame_pageToFrame : (s.setFrame i fr).pageToFrame = s.pageToFrame := rfl

@[simp] theorem setContainer_frames : (s.setContainer c ct).frames = s.frames := rfl

@[simp] theorem setContainer_self : (s.setContainer c ct).containers c = some ct :=
  update_self ..

theorem setContainer_ne {d : ContainerId} (h : d ≠ c) :
    (s.setContainer c ct).containers d = s.containers d := update_of_ne h ..

/-- The container as `get_container` finds or creates it. -/
def containerOf : Container := (s.containers c).getD (.new [])

/-- The pool after `get_container`. -/
def ensured : BufferPool n := s.setContainer c (s.containerOf c)

@[simp] theorem ensured_setContainer : (s.ensured c).setContainer c ct = s.setContainer c ct := by
  unfold ensured setContainer
  simp only [update_idem]

/-- The pool after one more access to a file. -/
def ticked : BufferPool n := { s with accesses := s.accesses + 1 }

end Updates

variable {s : BufferPool n} {Q : Unit → BufferPool n → Prop} {E : Stop → BufferPool n → Prop}

theorem containerOf_eq {c : ContainerId} {ct : Container} (h : s.containers c = some ct) :
    s.containerOf c = ct := by
  unfold containerOf
  rw [h]
  rfl

theorem containerOf_setContainer (s : BufferPool n) (c : ContainerId) (ct : Container)
    (d : ContainerId) : (s.setContainer c ct).containerOf d = if d = c then ct else s.containerOf d := by
  unfold containerOf
  split_ifs with h
  · subst h
    rw [setContainer_self]
    rfl
  · rw [setContainer_ne _ _ _ h]

theorem containerOf_ensured (s : BufferPool n) (c d : ContainerId) :
    (s.ensured c).containerOf d = s.containerOf d := by
  unfold ensured
  rw [containerOf_setContainer]
  split_ifs with h
  · rw [h]
  · rfl

theorem getContainer_eq (s : BufferPool n) (c : ContainerId) :
    getContainer c s = .ok (s.containerOf c) (s.ensured c) := by
  unfold getContainer ensured containerOf
  refine (bind_of_ok rfl).trans ?_
  cases h : s.containers c with
  | some ct =>
    have hsame : s.setContainer c ct = s := by
      unfold setContainer
      rw [← h, update_eq_self]
    simp only [Option.getD_some, hsame]
    rfl
  | none => rfl

theorem incPageCount_eq (s : BufferPool n) (c : ContainerId) (count : ℕ) :
    incPageCount c count s = .ok (s.containerOf c).pageCount (s.setContainer c
      { s.containerOf c with pageCount := (s.containerOf c).pageCount + UInt32.ofNat count }) := by
  unfold incPageCount
  rw [bind_of_ok (getContainer_eq s c)]
  refine (bind_of_ok rfl).trans ?_
  exact congrArg (EStateM.Result.ok _) (ensured_setContainer s c _)

variable {key : ContainerPageId} {i : Fin n} {s : BufferPool n}

/-- A page is written, or the container is temporary, or the write fails. -/
theorem writePage_sat {page : Page}
    (htemp : (s.containerOf key.cId).isTemp = true → Q () (s.ensured key.cId))
    (hfail : ∀ msg, (s.containerOf key.cId).isTemp = false → s.disk.fault s.accesses ≠ none →
      E (.status (.baseFileError msg)) (s.ensured key.cId).ticked)
    (hok : (s.containerOf key.cId).isTemp = false → s.disk.fault s.accesses = none →
      Q () (s.ticked.setContainer key.cId { s.containerOf key.cId with
        file := Container.writeAt (s.containerOf key.cId).file key.pageId.toNat page })) :
    Sat (writePage key page) s Q E := by
  unfold writePage
  refine Sat.bind (.of_ok (getContainer_eq s key.cId) ?_)
  by_cases h : (s.containerOf key.cId).isTemp = true
  · rw [if_pos h]
    exact htemp h
  · rw [if_neg h]
    refine Sat.bind (.of_ok rfl ?_)
    cases hfault : (s.ensured key.cId).disk.fault (s.ensured key.cId).accesses with
    | some garbage =>
      exact hfail _ (Bool.eq_false_iff.mpr h) (fun hnone => nomatch hfault.symm.trans hnone)
    | none =>
      have hsame : (s.ensured key.cId).ticked.setContainer key.cId
          { s.containerOf key.cId with
            file := Container.writeAt (s.containerOf key.cId).file key.pageId.toNat page } =
          s.ticked.setContainer key.cId
            { s.containerOf key.cId with
              file := Container.writeAt (s.containerOf key.cId).file key.pageId.toNat page } := by
        unfold ensured ticked setContainer
        simp only [update_idem]
      refine Sat.modify ?_
      have hQ := hok (Bool.eq_false_iff.mpr h) hfault
      rw [← hsame] at hQ
      exact hQ

/-- A page is read from the file into the frame, or the read fails. -/
theorem readPage_sat (hfail : ∀ garbage msg,
      (s.disk.fault s.accesses = none → (s.containerOf key.cId).file[key.pageId.toNat]? = none) →
      E (.status (.baseFileError msg))
        ((s.ensured key.cId).ticked.setFrame i { s.frames i with page := garbage }))
    (hok : ∀ p, s.disk.fault s.accesses = none →
      (s.containerOf key.cId).file[key.pageId.toNat]? = some p →
      Q () ((s.ensured key.cId).ticked.setFrame i { s.frames i with page := p })) :
    Sat (readPage key i) s Q E := by
  unfold readPage
  refine Sat.bind (.of_ok (getContainer_eq s key.cId) ?_)
  refine Sat.bind (.of_ok rfl ?_)
  cases hfault : (s.ensured key.cId).disk.fault (s.ensured key.cId).accesses with
  | some garbage =>
    refine Sat.bind (Sat.modify ?_)
    exact hfail garbage _ (fun hnone => nomatch hfault.symm.trans hnone)
  | none =>
    cases hp : (s.containerOf key.cId).file[key.pageId.toNat]? with
    | none =>
      refine Sat.throw ?_
      have hE := hfail (s.frames i).page
        ((s.ensured key.cId).disk.osError (s.ensured key.cId).accesses) (fun _ => hp)
      have hsame : (s.ensured key.cId).ticked.setFrame i { s.frames i with
          page := (s.frames i).page } = (s.ensured key.cId).ticked := by
        unfold setFrame
        exact congrArg (fun fs => { (s.ensured key.cId).ticked with frames := fs })
          (update_eq_self i s.frames)
      rw [hsame] at hE
      exact hE
    | some p => exact hok p hfault hp

/-! ### Victims -/

/-- The frame that is taken for another page: the first hint that is not latched. -/
def victim (s : BufferPool n) : Option (Fin n) :=
  s.evictionHints.find? fun i => (s.frames i).cnt = 0

theorem popVictim_sat {Q : Option (Fin n) → BufferPool n → Prop} (hints : List (Fin n))
    (hnone : (∀ i ∈ hints, (s.frames i).cnt ≠ 0) → Q none { s with evictionHints := [] })
    (hsome : ∀ before i rest, hints = before ++ i :: rest →
      hints.find? (fun i => (s.frames i).cnt = 0) = some i →
      Q (some i) ({ s with evictionHints := rest }.setFrame i { s.frames i with cnt := -1 })) :
    Sat (popVictim hints) s Q E := by
  induction hints generalizing s with
  | nil => exact hnone (fun i hi => absurd hi not_mem_nil)
  | cons i rest ih =>
    unfold popVictim
    refine Sat.bind (Sat.modify (Sat.bind (Sat.get ?_)))
    by_cases h : (s.frames i).cnt = 0
    · rw [BufferFrame.tryWrite_free h]
      exact hsome [] i rest rfl (find?_cons_of_pos (decide_eq_true h))
    · have htry : (s.frames i).tryWrite false = none := if_neg h
      rw [htry]
      refine ih (fun hall => ?_) (fun before j rest' heq hj => ?_)
      · exact hnone (forall_mem_cons.mpr ⟨h, hall⟩)
      · refine hsome (i :: before) j rest' (by rw [heq]; rfl) ?_
        rw [find?_cons_of_neg (by rw [decide_eq_true_iff]; exact h)]
        exact hj

/-- A victim is an unlatched frame among the hints. -/
theorem chooseVictim_sat {Q : Option (Fin n) → BufferPool n → Prop}
    (hnone : (∀ i ∈ s.evictionHints, (s.frames i).cnt ≠ 0) → Q none { s with evictionHints := [] })
    (hsome : ∀ before i rest, s.evictionHints = before ++ i :: rest → s.victim = some i →
      Q (some i) ({ s with evictionHints := rest }.setFrame i { s.frames i with cnt := -1 })) :
    Sat chooseVictim s Q E := by
  refine Sat.bind (Sat.get ?_)
  exact popVictim_sat s.evictionHints hnone hsome

/-- Only a dirty frame that holds a page is written back; it is marked clean first. -/
theorem writeVictim_sat
    (hclean : (∀ key, (s.frames i).key = some key → (s.frames i).isDirty = false) → Q () s)
    (hdirty : ∀ key, (s.frames i).key = some key → (s.frames i).isDirty = true →
      Sat (writePage key (s.frames i).page) (s.setFrame i { s.frames i with isDirty := false }) Q E)
    :
    Sat (writeVictimToDiskIfDirty i) s Q E := by
  unfold writeVictimToDiskIfDirty
  refine Sat.bind (Sat.get ?_)
  dsimp only
  cases hk : (s.frames i).key with
  | none => exact Sat.pure (hclean (fun key hkey => by rw [hk] at hkey; cases hkey))
  | some key =>
    dsimp only
    by_cases hd : (s.frames i).isDirty = true
    · rw [if_pos hd]
      exact Sat.bind (Sat.modify (hdirty key hk hd))
    · rw [if_neg hd]
      exact Sat.pure (hclean (fun _ _ => Bool.eq_false_iff.mpr hd))

/-! ### What leaves the map and the keys alone -/

/-- The same map and the same keys in the frames. -/
structure SameTable (s t : BufferPool n) : Prop where
  map : t.pageToFrame = s.pageToFrame
  key : ∀ i, (t.frames i).key = (s.frames i).key

namespace SameTable

theorem refl (s : BufferPool n) : SameTable s s := ⟨rfl, fun _ => rfl⟩

variable {s t : BufferPool n}

theorem trans {u : BufferPool n} (h : SameTable s t) (h' : SameTable t u) : SameTable s u :=
  ⟨h'.map.trans h.map, fun i => (h'.key i).trans (h.key i)⟩

theorem setFrame (h : SameTable s t) {i : Fin n} {fr : BufferFrame}
    (hfr : fr.key = (t.frames i).key) : SameTable s (t.setFrame i fr) := by
  refine ⟨h.map, fun j => ?_⟩
  by_cases hj : j = i
  · subst hj
    rw [setFrame_self, hfr, h.key]
  · rw [setFrame_ne _ _ _ hj, h.key]

/-- A new container, another counter of accesses or other hints change nothing. -/
theorem of_eq {u : BufferPool n} (h : SameTable s t) (hf : u.frames = t.frames)
    (hm : u.pageToFrame = t.pageToFrame) : SameTable s u :=
  ⟨hm.trans h.map, fun i => by rw [hf, h.key]⟩

end SameTable

/-- A property of what a function returns and of the states it fails in. -/
def IsFileError (e : Stop) : Prop := ∃ msg, e = .status (.baseFileError msg)

theorem writePage_sameTable (key : ContainerPageId) (page : Page) (s : BufferPool n) :
    Sat (writePage key page) s (fun _ t => SameTable s t) (fun e t => SameTable s t ∧ IsFileError e) :=
  writePage_sat (fun _ => (SameTable.refl s).of_eq rfl rfl)
    (fun msg _ _ => ⟨(SameTable.refl s).of_eq rfl rfl, msg, rfl⟩)
    (fun _ _ => (SameTable.refl s).of_eq rfl rfl)

theorem readPage_sameTable (key : ContainerPageId) (i : Fin n) (s : BufferPool n) :
    Sat (readPage key i) s (fun _ t => SameTable s t) (fun e t => SameTable s t ∧ IsFileError e) := by
  have hsame : ∀ p, SameTable s
      ((s.ensured key.cId).ticked.setFrame i { s.frames i with page := p }) := fun p =>
    ((SameTable.refl s).of_eq (u := (s.ensured key.cId).ticked) rfl rfl).setFrame rfl
  exact readPage_sat (fun p msg _ => ⟨hsame p, msg, rfl⟩) (fun p _ _ => hsame p)

theorem writeVictim_sameTable (i : Fin n) (s : BufferPool n) :
    Sat (writeVictimToDiskIfDirty i) s (fun _ t => SameTable s t)
      (fun e t => SameTable s t ∧ IsFileError e) := by
  refine writeVictim_sat (fun _ => SameTable.refl s) (fun key _ _ => ?_)
  have hsame : SameTable s (s.setFrame i { s.frames i with isDirty := false }) :=
    (SameTable.refl s).setFrame rfl
  exact (writePage_sameTable key (s.frames i).page _).mono (fun _ t ht => hsame.trans ht)
    (fun _ t ht => ⟨hsame.trans ht.1, ht.2⟩)

theorem dropOnError_sat {α : Type} {Q : α → BufferPool n → Prop} {is : List (Fin n)}
    {x : PoolCall n α} (h : Sat x s Q (fun e t => E e (t.dropGuards is))) :
    Sat (dropOnError is x) s Q E := by
  cases hx : x s with
  | ok a t =>
    have heq : dropOnError is x s = .ok a t := by
      unfold dropOnError
      rw [hx]
    exact .of_ok heq (h.ok hx)
  | error e t =>
    have heq : dropOnError is x s = .error e (t.dropGuards is) := by
      unfold dropOnError
      rw [hx]
    exact .of_error heq (h.error hx)

theorem SameTable.dropGuards {t : BufferPool n} (h : SameTable s t) (is : List (Fin n)) :
    SameTable s (t.dropGuards is) := by
  refine ⟨h.map, fun i => ?_⟩
  rw [← h.key i]
  show (if i ∈ is then (t.frames i).releaseExclusive else t.frames i).key = _
  split_ifs <;> rfl

theorem unwrap_sat {α : Type} {Q : α → BufferPool n → Prop} {x : PoolCall n α}
    (h : Sat x s Q (fun e t => (∀ st, e ≠ .status st) → E e t)) (hp : ∀ t, E .panic t) :
    Sat (unwrap x) s Q E := by
  cases hx : x s with
  | ok a t =>
    have heq : unwrap x s = .ok a t := by
      unfold unwrap
      rw [hx]
    exact .of_ok heq (h.ok hx)
  | error e t =>
    have hE := h.error hx
    cases e with
    | status st =>
      have heq : unwrap x s = .error .panic t := by
        unfold unwrap
        rw [hx]
      exact .of_error heq (hp t)
    | panic =>
      have heq : unwrap x s = .error .panic t := by
        unfold unwrap
        rw [hx]
      exact .of_error heq (hp t)
    | blocks =>
      have heq : unwrap x s = .error .blocks t := by
        unfold unwrap
        rw [hx]
      exact .of_error heq (hE (fun st hst => (by cases hst)))

/-- A condition on the errors a call returns; a call that panics or does not return has none. -/
def Returned (P : MemPoolStatus → BufferPool n → Prop) : Stop → BufferPool n → Prop :=
  fun e t => ∀ st, e = .status st → P st t

variable {P : MemPoolStatus → BufferPool n → Prop}

theorem returned_panic (t : BufferPool n) : Returned P .panic t := fun _ h => by cases h

theorem returned_blocks (t : BufferPool n) : Returned P .blocks t := fun _ h => by cases h

theorem returned_status {st : MemPoolStatus} {t : BufferPool n} (h : P st t) :
    Returned P (.status st) t := by
  intro st' hst
  obtain rfl := Stop.status.inj hst
  exact h

/-! ### The calls that take a victim -/

/-- The pool after a victim is chosen. -/
def latched (s : BufferPool n) (i : Fin n) (rest : List (Fin n)) : BufferPool n :=
  { s with evictionHints := rest }.setFrame i { s.frames i with cnt := -1 }

theorem sameTable_latched (s : BufferPool n) (i : Fin n) (rest : List (Fin n)) :
    SameTable s (s.latched i rest) :=
  ((SameTable.refl s).of_eq (u := { s with evictionHints := rest }) rfl rfl).setFrame rfl

/-- A call that creates a page fails for want of a victim, or when the victim cannot be written
back, or goes on with a victim that is written back. -/
theorem createNewPageForWrite_sat {c : ContainerId} {Q : Fin n → BufferPool n → Prop}
    (hnone : (∀ i ∈ s.evictionHints, (s.frames i).cnt ≠ 0) →
      E (.status .cannotEvictPage) { s with evictionHints := [] })
    (herror : ∀ before i rest e t, s.evictionHints = before ++ i :: rest → s.victim = some i →
      writeVictimToDiskIfDirty i (s.latched i rest) = .error e t → E e (t.dropGuards [i]))
    (hok : ∀ before i rest t, s.evictionHints = before ++ i :: rest → s.victim = some i →
      writeVictimToDiskIfDirty i (s.latched i rest) = .ok () t →
      Sat (allocate c i) t Q (fun e u => E e (u.dropGuards [i]))) :
    Sat (createNewPageForWrite c) s Q E := by
  unfold createNewPageForWrite
  refine Sat.bind (chooseVictim_sat hnone (fun before i rest hh hi => dropOnError_sat ?_))
  refine Sat.bind ?_
  cases hw : writeVictimToDiskIfDirty i (s.latched i rest) with
  | ok _ t => exact .of_ok hw (hok before i rest t hh hi hw)
  | error e t => exact .of_error hw (herror before i rest e t hh hi hw)

/-- A request for a page latches the frame of a page in the pool, fails for want of a victim, or
reads the page into a victim that is written back. -/
theorem getPage_sat {grant : Fin n → PoolCall n (Fin n)} {finish : BufferFrame → BufferFrame}
    {Q : Fin n → BufferPool n → Prop} (hpanic : ∀ t, E .panic t)
    (hmapped : ∀ i, s.pageToFrame.lookup key = some i → Sat (grant i) s Q E)
    (hnone : s.pageToFrame.lookup key = none → (∀ i ∈ s.evictionHints, (s.frames i).cnt ≠ 0) →
      E (.status .cannotEvictPage) { s with evictionHints := [] })
    (hok : ∀ before i rest t, s.pageToFrame.lookup key = none →
      s.evictionHints = before ++ i :: rest → s.victim = some i →
      writeVictimToDiskIfDirty i (s.latched i rest) = .ok () t → (t.frames i).isDirty = false →
      Sat (fetch finish key i) t Q (fun e u => E e (u.dropGuards [i]))) :
    Sat (getPage grant finish key) s Q E := by
  unfold getPage
  refine Sat.bind (Sat.get ?_)
  cases hkey : s.pageToFrame.lookup key with
  | some i => exact hmapped i hkey
  | none =>
    refine Sat.bind (chooseVictim_sat (hnone hkey) (fun before i rest hh hi => dropOnError_sat ?_))
    have hsame := (writeVictim_sameTable i (s.latched i rest)).mono (fun _ t ht => ht.map)
      (fun _ _ ht => ht.2)
    refine Sat.bind (unwrap_sat ?_ (fun t => hpanic _))
    cases hw : writeVictimToDiskIfDirty i (s.latched i rest) with
    | error e t =>
      obtain ⟨msg, rfl⟩ := hsame.error hw
      exact .of_error hw (fun h => absurd rfl (h _))
    | ok _ t =>
      refine .of_ok hw (Sat.bind (Sat.get ?_))
      have hlookup : t.pageToFrame.lookup key = none := by
        rw [hsame.ok hw]
        exact hkey
      by_cases hd : (t.frames i).isDirty = true
      · rw [if_pos hd]
        exact Sat.throw (hpanic _)
      · rw [if_neg hd]
        refine Sat.bind (Sat.get ?_)
        rw [hlookup]
        exact hok before i rest t hkey hh hi hw (Bool.eq_false_iff.mpr hd)

/-! ### Many victims -/

/-- The pool after some frames are latched and only `rest` is left of the hints. -/
def latchedAll (s : BufferPool n) (is rest : List (Fin n)) : BufferPool n :=
  { s with evictionHints := rest }.mapFrames is fun fr => { fr with cnt := -1 }

theorem latchedAll_nil (s : BufferPool n) : s.latchedAll [] s.evictionHints = s := by
  unfold latchedAll mapFrames
  simp

/-- What `chooseVictims` returns: the unlatched frames from the front of the hints, each once. -/
structure Chosen (s : BufferPool n) (hints victims rest : List (Fin n)) : Prop where
  nodup : victims.Nodup
  free : ∀ i ∈ victims, (s.frames i).cnt = 0
  front : ∃ before, hints = before ++ rest ∧ ∀ i ∈ victims, i ∈ before
  all : ∀ i ∈ hints, (s.frames i).cnt = 0 → i ∈ victims ∨ i ∈ rest

variable {hints victims rest : List (Fin n)}

theorem Chosen.nil (s : BufferPool n) (hints : List (Fin n)) : Chosen s hints [] hints :=
  ⟨nodup_nil, nofun, ⟨[], rfl, nofun⟩, fun _ hi _ => Or.inr hi⟩

theorem Chosen.skip (h : Chosen s hints victims rest) (hi : (s.frames i).cnt ≠ 0) :
    Chosen s (i :: hints) victims rest := by
  obtain ⟨before, hb, hmem⟩ := h.front
  refine ⟨h.nodup, h.free, ⟨i :: before, by rw [hb]; rfl, fun j hj => ?_⟩, fun j hj hcnt => ?_⟩
  · exact mem_cons_of_mem i (hmem j hj)
  · rcases mem_cons.mp hj with rfl | hj
    · exact absurd hcnt hi
    · exact h.all j hj hcnt

/-- A frame that is latched is not chosen. -/
theorem Chosen.notMem (h : Chosen (s.latched i hints) hints victims rest) : i ∉ victims := by
  intro hmem
  have hcnt := h.free i hmem
  rw [latched, setFrame_self] at hcnt
  cases hcnt

/-- The next hint is taken, and the others are chosen when it is latched. -/
theorem Chosen.take (hi : (s.frames i).cnt = 0) (h : Chosen (s.latched i hints) hints victims rest) :
    Chosen s (i :: hints) (i :: victims) rest := by
  have hne := h.notMem
  obtain ⟨before, hb, hmem⟩ := h.front
  refine ⟨nodup_cons.mpr ⟨hne, h.nodup⟩, ?_, ⟨i :: before, by rw [hb]; rfl, ?_⟩, ?_⟩
  · intro j hj
    rcases mem_cons.mp hj with rfl | hj
    · exact hi
    · have hcnt := h.free j hj
      have hji : j ≠ i := fun hji => hne (hji ▸ hj)
      rw [latched, setFrame_ne _ _ _ hji] at hcnt
      exact hcnt
  · intro j hj
    rcases mem_cons.mp hj with rfl | hj
    · exact mem_cons_self
    · exact mem_cons_of_mem i (hmem j hj)
  · intro j hj hcnt
    by_cases hji : j = i
    · exact Or.inl (hji ▸ mem_cons_self)
    · have hj' := (mem_cons.mp hj).resolve_left hji
      rcases h.all j hj' (by rw [latched, setFrame_ne _ _ _ hji]; exact hcnt) with hmem | hmem
      · exact Or.inl (mem_cons_of_mem i hmem)
      · exact Or.inr hmem

theorem latched_latchedAll (s : BufferPool n) (hne : i ∉ victims) :
    (s.latched i hints).latchedAll victims rest = s.latchedAll (i :: victims) rest := by
  unfold latchedAll mapFrames
  have hframes : (fun j => if j ∈ victims then { (s.latched i hints).frames j with cnt := -1 }
      else (s.latched i hints).frames j) =
      fun j => if j ∈ i :: victims then { s.frames j with cnt := -1 } else s.frames j := by
    funext j
    by_cases hj : j = i
    · subst hj
      rw [if_neg hne, if_pos mem_cons_self, latched, setFrame_self]
    · simp only [latched, setFrame_ne _ _ _ hj, mem_cons, hj, false_or]
  rw [hframes]
  rfl

theorem popVictims_sat {numVictims : ℕ} {Q : List (Fin n) → BufferPool n → Prop}
    (hints acc : List (Fin n)) (h : ∀ victims rest, Chosen s hints victims rest →
      (acc.length < numVictims → (acc ++ victims).length ≤ numVictims) →
      ((acc ++ victims).length < numVictims → rest = []) →
      Q (acc ++ victims) (s.latchedAll victims rest)) :
    Sat (popVictims numVictims hints acc) s Q E := by
  induction hints generalizing s acc with
  | nil =>
    have hQ := h [] [] (.nil s [])
      (fun hlt => by rw [append_nil]; exact hlt.le) (fun _ => rfl)
    rw [append_nil] at hQ
    have hsame : s.latchedAll [] [] = { s with evictionHints := [] } :=
      latchedAll_nil { s with evictionHints := [] }
    rw [hsame] at hQ
    exact hQ
  | cons i rest ih =>
    unfold popVictims
    refine Sat.bind (Sat.modify (Sat.bind (Sat.get ?_)))
    by_cases hcnt : (s.frames i).cnt = 0
    · dsimp only
      rw [BufferFrame.tryWrite_free hcnt]
      refine Sat.bind (Sat.modify ?_)
      split_ifs with hlen
      · have hQ := h [i] rest (.take hcnt (.nil _ rest)) (fun _ => hlen.le)
          (fun hlt => absurd hlen (Nat.ne_of_lt hlt))
        have hone : s.latchedAll [i] rest = (s.latched i rest).latchedAll [] rest :=
          (latched_latchedAll s not_mem_nil).symm
        have hsame : (s.latched i rest).latchedAll [] rest = s.latched i rest :=
          latchedAll_nil (s.latched i rest)
        rw [hone, hsame] at hQ
        exact hQ
      · refine ih (acc ++ [i]) (s := s.latched i rest) (fun victims rest' hch hle hlt => ?_)
        rw [append_assoc, singleton_append] at hle hlt ⊢
        rw [latched_latchedAll s hch.notMem]
        refine h (i :: victims) rest' (hch.take hcnt) (fun hacc => hle ?_) hlt
        rw [length_append, length_singleton] at hlen ⊢
        omega
    · have htry : (s.frames i).tryWrite false = none := if_neg hcnt
      dsimp only
      rw [htry]
      refine ih acc (s := { s with evictionHints := rest }) (fun victims rest' hch hle hlt => ?_)
      have hch' : Chosen s rest victims rest' := ⟨hch.nodup, hch.free, hch.front, hch.all⟩
      exact h victims rest' (hch'.skip hcnt) hle hlt

/-- The victims of a call that creates several pages: as many as it asks for, or all that are left. -/
theorem chooseVictims_sat {numPages : ℕ} {Q : List (Fin n) → BufferPool n → Prop}
    (hpos : 0 < numPages)
    (h : ∀ victims rest, Chosen s s.evictionHints victims rest → victims.length ≤ numPages →
      (victims.length < min n numPages → rest = []) → Q victims (s.latchedAll victims rest)) :
    Sat (chooseVictims numPages) s Q E := by
  refine Sat.bind (Sat.get (popVictims_sat s.evictionHints [] (fun victims rest hch hle hlt => ?_)))
  rw [nil_append] at hle hlt ⊢
  refine h victims rest hch ?_ hlt
  cases victims with
  | nil => exact Nat.zero_le _
  | cons i victims => exact (hle (lt_min i.pos hpos)).trans (Nat.min_le_right ..)

/-- The frames that can be taken: the hints that are not latched, each once. -/
def freeFrames (s : BufferPool n) : List (Fin n) :=
  s.evictionHints.dedup.filter fun i => (s.frames i).cnt = 0

theorem mem_freeFrames : i ∈ s.freeFrames ↔ i ∈ s.evictionHints ∧ (s.frames i).cnt = 0 := by
  unfold freeFrames
  rw [mem_filter, mem_dedup, decide_eq_true_iff]

/-- The victims are frames that can be taken; when no hint is left they are all of them. -/
theorem Chosen.length_le (h : Chosen s s.evictionHints victims rest) :
    victims.length ≤ s.freeFrames.length ∧ (rest = [] → s.freeFrames.length ≤ victims.length) := by
  constructor
  · refine (subperm_of_subset h.nodup (fun i hi => ?_)).length_le
    obtain ⟨before, hb, hmem⟩ := h.front
    exact mem_freeFrames.mpr ⟨hb ▸ mem_append_left rest (hmem i hi), h.free i hi⟩
  · rintro rfl
    have hnd : s.freeFrames.Nodup := (nodup_dedup _).filter _
    refine (subperm_of_subset hnd (fun i hi => ?_)).length_le
    obtain ⟨hmem, hcnt⟩ := mem_freeFrames.mp hi
    exact (h.all i hmem hcnt).resolve_right not_mem_nil

/-! ### The accesses for writing pages back -/

/-- The page of a frame has to be written before the frame is given away: it is dirty, and its
container keeps a file. -/
def due (s : BufferPool n) (i : Fin n) : Bool :=
  match (s.frames i).key with
  | none => false
  | some key => (s.frames i).isDirty && !(s.containerOf key.cId).isTemp

/-- The pages of some frames are written one after the other, and no access fails. -/
def WritesOk (s : BufferPool n) (is : List (Fin n)) : Prop :=
  ∀ k < is.countP s.due, s.disk.fault (s.accesses + k) = none

/-- When the pages of all frames are written, the page of `j` is the first that cannot be. -/
structure FailsAt (s : BufferPool n) (j : Fin n) : Prop where
  before : WritesOk s ((finRange n).take j)
  due : s.due j = true
  fault : s.disk.fault (s.accesses + ((finRange n).take j).countP s.due) ≠ none

/-- The file of a container once the page of a frame is written. -/
def fileAfter (s : BufferPool n) (i : Fin n) (c : ContainerId) : List Page :=
  match (s.frames i).key with
  | none => (s.containerOf c).file
  | some key =>
    if s.due i ∧ c = key.cId then
      Container.writeAt (s.containerOf c).file key.pageId.toNat (s.frames i).page
    else (s.containerOf c).file

variable {t u : BufferPool n} {j : Fin n} {done : List (Fin n)}

theorem due_of_key (h : (s.frames i).key = some key) :
    s.due i = ((s.frames i).isDirty && !(s.containerOf key.cId).isTemp) := by
  unfold due
  rw [h]

theorem due_congr (hkey : (t.frames i).key = (s.frames i).key)
    (hdirty : (t.frames i).isDirty = (s.frames i).isDirty)
    (htemp : ∀ c, (t.containerOf c).isTemp = (s.containerOf c).isTemp) : t.due i = s.due i := by
  unfold due
  rw [hkey]
  cases (s.frames i).key with
  | none => rfl
  | some key =>
    dsimp only
    rw [hdirty, htemp]

theorem writesOk_singleton (h : s.due i = true → s.disk.fault s.accesses = none) :
    WritesOk s [i] := by
  intro k hk
  rw [countP_singleton] at hk
  split_ifs at hk with hdue
  · obtain rfl := Nat.lt_one_iff.mp hk
    exact h hdue
  · exact absurd hk (Nat.not_lt_zero k)

/-- What writing the page of a frame back takes and leaves. -/
structure WrittenBack (s : BufferPool n) (i : Fin n) (t : BufferPool n) : Prop where
  disk : t.disk = s.disk
  accesses : t.accesses = s.accesses + [i].countP s.due
  ok : WritesOk s [i]
  others : ∀ j, j ≠ i → t.due j = s.due j
  file : ∀ c, (t.containerOf c).file = s.fileAfter i c

theorem WrittenBack.of_notDue (h : s.due i = false) (hdisk : t.disk = s.disk)
    (haccesses : t.accesses = s.accesses) (hframes : ∀ j, j ≠ i → t.frames j = s.frames j)
    (hof : ∀ c, t.containerOf c = s.containerOf c) : WrittenBack s i t := by
  refine ⟨hdisk, ?_, ?_, fun j hj => ?_, fun c => ?_⟩
  · rw [haccesses, countP_singleton, h]
    rfl
  · exact writesOk_singleton (fun hdue => (by rw [h] at hdue; cases hdue))
  · exact due_congr (by rw [hframes j hj]) (by rw [hframes j hj]) (fun c => by rw [hof])
  · rw [hof]
    unfold fileAfter
    cases (s.frames i).key with
    | none => rfl
    | some key =>
      dsimp only
      rw [if_neg (fun hdue => by rw [h] at hdue; exact Bool.false_ne_true hdue.1)]

/-- A page that is due is written, unless the next access fails. -/
theorem writeVictim_written (i : Fin n) (s : BufferPool n) :
    Sat (writeVictimToDiskIfDirty i) s (fun _ t => WrittenBack s i t)
      (fun _ _ => s.due i = true ∧ s.disk.fault s.accesses ≠ none) := by
  have hframes : ∀ j, j ≠ i →
      (s.setFrame i { s.frames i with isDirty := false }).frames j = s.frames j :=
    fun j hj => setFrame_ne _ _ _ hj
  refine writeVictim_sat (fun hclean => ?_) (fun key hkey hdirty => ?_)
  · refine .of_notDue ?_ rfl rfl (fun _ _ => rfl) (fun _ => rfl)
    unfold due
    cases hkey : (s.frames i).key with
    | none => rfl
    | some key =>
      dsimp only
      rw [hclean key hkey, Bool.false_and]
  have hdue := due_of_key hkey
  rw [hdirty, Bool.true_and] at hdue
  refine writePage_sat (fun htemp => ?_) (fun msg htemp hfault => ?_) (fun htemp hfault => ?_)
  · have htemp' : (s.containerOf key.cId).isTemp = true := htemp
    rw [htemp'] at hdue
    exact .of_notDue hdue rfl rfl hframes (fun c => containerOf_ensured ..)
  · have htemp' : (s.containerOf key.cId).isTemp = false := htemp
    rw [htemp'] at hdue
    exact ⟨hdue, hfault⟩
  · have htemp' : (s.containerOf key.cId).isTemp = false := htemp
    rw [htemp'] at hdue
    refine ⟨rfl, ?_, writesOk_singleton (fun _ => hfault), fun j hj => ?_, fun c => ?_⟩
    · rw [countP_singleton, hdue]
      rfl
    · refine due_congr (congrArg BufferFrame.key (hframes j hj))
        (congrArg BufferFrame.isDirty (hframes j hj)) (fun c => ?_)
      rw [containerOf_setContainer]
      split_ifs with hc
      · rw [hc]
        rfl
      · rfl
    · unfold fileAfter
      rw [hkey, containerOf_setContainer]
      dsimp only
      by_cases hc : c = key.cId
      · rw [if_pos hc, if_pos ⟨hdue, hc⟩, hc]
        rfl
      · rw [if_neg hc, if_neg (fun h => hc h.2)]
        rfl

/-- A loop has written the pages of the frames `done`, and nothing has changed for the others. -/
structure Writing (s : BufferPool n) (done : List (Fin n)) (t : BufferPool n) : Prop where
  disk : t.disk = s.disk
  accesses : t.accesses = s.accesses + done.countP s.due
  ok : WritesOk s done
  others : ∀ j, j ∉ done → t.due j = s.due j

theorem Writing.nil (s : BufferPool n) : Writing s [] s :=
  ⟨rfl, rfl, fun k hk => absurd hk (Nat.not_lt_zero k), fun _ _ => rfl⟩

theorem Writing.next (h : Writing s done t) (hi : i ∉ done) (hw : WrittenBack t i u) :
    Writing s (done ++ [i]) u := by
  have hdue := h.others i hi
  have hcount : [i].countP t.due = [i].countP s.due := by
    rw [countP_singleton, countP_singleton, hdue]
  refine ⟨hw.disk.trans h.disk, ?_, fun k hk => ?_, fun j hj => ?_⟩
  · rw [hw.accesses, h.accesses, countP_append, hcount, Nat.add_assoc]
  · rw [countP_append] at hk
    by_cases hlt : k < done.countP s.due
    · exact h.ok k hlt
    · have hok := hw.ok (k - done.countP s.due) (by rw [hcount]; omega)
      rw [h.disk, h.accesses] at hok
      rw [show s.accesses + k = s.accesses + done.countP s.due + (k - done.countP s.due) by omega]
      exact hok
  · rw [mem_append, not_or, mem_singleton] at hj
    rw [hw.others j hj.2, h.others j hj.1]

theorem Writing.write (h : Writing s done t) (hi : i ∉ done) :
    Sat (writeVictimToDiskIfDirty i) t (fun _ u => Writing s (done ++ [i]) u)
      (fun _ _ => s.due i = true ∧ s.disk.fault (s.accesses + done.countP s.due) ≠ none) := by
  refine (writeVictim_written i t).mono (fun _ u hu => h.next hi hu) (fun _ _ hfault => ?_)
  rw [h.others i hi, h.disk, h.accesses] at hfault
  exact hfault

/-- A frame that is done with may be changed. -/
theorem Writing.setFrame (h : Writing s done t) (hi : i ∈ done) (fr : BufferFrame) :
    Writing s done (t.setFrame i fr) := by
  refine ⟨h.disk, h.accesses, h.ok, fun j hj => ?_⟩
  have hji : j ≠ i := fun hji => hj (hji ▸ hi)
  rw [← h.others j hj]
  exact due_congr (by rw [setFrame_ne _ _ _ hji]) (by rw [setFrame_ne _ _ _ hji]) (fun _ => rfl)

/-- The frames a loop over all of them is done with when it comes to `i`. -/
theorem take_of_finRange {rest : List (Fin n)} (h : finRange n = done ++ i :: rest) :
    done = (finRange n).take i ∧ i ∉ done := by
  have hnd := nodup_finRange n
  have hlen : done.length = i := by
    have hget := congrArg (fun l : List (Fin n) => l[done.length]?) h
    rw [getElem?_append_right le_rfl, Nat.sub_self, getElem?_cons_zero] at hget
    obtain ⟨hlt, hval⟩ := List.getElem?_eq_some_iff.mp hget
    rw [getElem_finRange] at hval
    rw [← hval]
    rfl
  rw [h] at hnd ⊢
  refine ⟨?_, fun hmem => (disjoint_of_nodup_append hnd) hmem mem_cons_self⟩
  rw [← hlen, take_left]

/-- The first frame whose page cannot be written, where a loop over all frames fails. -/
theorem Writing.failsAt {rest : List (Fin n)} (h : Writing s done t)
    (hall : finRange n = done ++ i :: rest) (hdue : s.due i = true)
    (hfault : s.disk.fault (s.accesses + done.countP s.due) ≠ none) : FailsAt s i := by
  have hdone := (take_of_finRange hall).1
  exact ⟨hdone ▸ h.ok, hdue, hdone ▸ hfault⟩

theorem take_snoc_finRange (i : Fin n) : (finRange n).take i ++ [i] = (finRange n).take (i + 1) := by
  rw [take_succ_eq_append_getElem (by rw [length_finRange]; exact i.isLt), getElem_finRange]
  rfl

theorem mem_take_finRange : j ∈ (finRange n).take i ↔ j < i := by
  rw [mem_take_iff_getElem]
  constructor
  · rintro ⟨k, hk, rfl⟩
    rw [getElem_finRange, Fin.lt_def]
    exact hk.trans_le (Nat.min_le_left ..)
  · intro hlt
    refine ⟨j, lt_min hlt (by rw [length_finRange]; exact j.isLt), ?_⟩
    rw [getElem_finRange]
    rfl

/-- Not all the pages can be written. -/
theorem FailsAt.not_writesOk (h : FailsAt s i) {is : List (Fin n)}
    (his : (finRange n).take (i + 1) <+: is) : ¬ WritesOk s is := by
  intro hok
  have hle := his.sublist.countP_le (p := s.due)
  rw [← take_snoc_finRange, countP_append, countP_singleton, if_pos h.due] at hle
  exact h.fault (hok _ (by omega))

theorem FailsAt.not_lt (hi : FailsAt s i) (hj : FailsAt s j) : ¬ i < j := fun hlt =>
  hi.not_writesOk (take_prefix_take_left hlt) hj.before

theorem FailsAt.unique (hi : FailsAt s i) (hj : FailsAt s j) : i = j :=
  le_antisymm (le_of_not_gt (hj.not_lt hi)) (le_of_not_gt (hi.not_lt hj))

end BufferPool

end CrustyDB
