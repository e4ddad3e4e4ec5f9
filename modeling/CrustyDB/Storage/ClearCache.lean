import CrustyDB.Storage.StorageReset

/-! # What clearing the cache shows

`clear_cache` empties the map of the pool and forgets which frames are dirty; it writes nothing.
`clearCache_unseen` says when no read can tell: every page is in the file of its container, those in
the pool with the same bytes, there are frames for the pages that are not in the pool
(`Refetchable`), and the file accesses that follow succeed.  `clearCache_loses` is a record that was
inserted before the call and cannot be read after it.

It is about reads only.  A later call that creates a page takes a frame with the bytes of some
other page, and these need not be the ones it would have taken otherwise.

The pool that was cleared is behind the one that was not (`Behind`): it holds some of the pages of
the other.  A request for a page that only the other one holds reads it from the file, for which
there is always a frame, because the two pools have the same number of frames and the one that is
behind holds fewer pages (`Behind.hints_ne_nil`). -/

namespace CrustyDB

open Stateful Program List AList

/-! ### The frames of reachable managers -/

namespace BufferPool

variable {n : ℕ} {s t : BufferPool n}

/-- A frame that holds no page is not written. -/
theorem flushAll_unused (hs : s.Unused fun _ => True) :
    Sat flushAll s (fun _ t => t.Unused fun _ => True) (fun _ t => t.Unused fun _ => True) := by
  refine Sat.forM _ hs (fun i _ t ht => Sat.bind (Sat.get ?_))
  split_ifs with hi
  · exact Sat.throw ht
  · refine writeVictim_sat (fun _ => ht) (fun key hkey _ => ?_)
    have hnot : i ∉ t.evictionHints := fun hmem => by
      rw [ht.keyless i hmem] at hkey
      cases hkey
    have hclean := ht.setFrame hnot { t.frames i with isDirty := false }
    exact writePage_sat (fun _ => hclean.sublist (List.Sublist.refl _) (fun _ _ => rfl) rfl)
      (fun _ _ _ => hclean.sublist (List.Sublist.refl _) (fun _ _ => rfl) rfl)
      (fun _ _ => hclean.sublist (List.Sublist.refl _) (fun _ _ => rfl) rfl)

theorem cleared_unused (hcnt : ∀ i, (s.frames i).cnt = 0) : s.cleared.Unused fun _ => True :=
  unused_empty rfl rfl (fun i => ⟨rfl, rfl, hcnt i⟩) (fun _ => trivial)

theorem clearedTo_frames (s : BufferPool n) (done : List (Fin n)) (i : Fin n) :
    (s.clearedTo done).frames i = (s.frames i).clear ∨ (s.clearedTo done).frames i = s.frames i :=
  ite_eq_or_eq ..

theorem clearedTo_unused (hs : s.Unused fun _ => True) (done : List (Fin n)) :
    (s.clearedTo done).Unused fun _ => True := by
  refine ⟨hs.nodup, hs.unmapped, hs.inj, hs.fits, fun i hi => ?_, fun i hi => ?_, fun i hi => ?_,
    fun _ _ => trivial⟩
  all_goals rcases s.clearedTo_frames done i with hfr | hfr
  all_goals rw [hfr]
  · rfl
  · exact hs.keyless i hi
  · rfl
  · exact hs.clean i hi
  · exact hs.free i hi
  · exact hs.free i hi

theorem reset_unused (hs : s.Unused fun _ => True) :
    Sat reset s (fun _ t => t.Unused fun _ => True) (fun _ t => t.Unused fun _ => True) := by
  refine (reset_sat s).mono (fun _ t ht => ?_) (fun _ t ht => ?_)
  · obtain ⟨rfl, hcnt⟩ := ht
    exact cleared_unused hcnt
  · obtain ⟨-, -, done, rfl⟩ := ht
    exact clearedTo_unused hs done

end BufferPool

namespace StorageManager

variable {n : ℕ} {α : Type}

/-- A call leaves the frames that hold no page alone. -/
def KeepsUnused (x : Call n α) : Prop :=
  ∀ s, (s.bp.Unused fun _ => True) → (x s).2.bp.Unused fun _ => True

/-- A program keeps what each of its calls keeps: the managers are the same one. -/
theorem onPool_unused (hn : n ≤ 2 ^ 32) (x : HeapProg α) :
    CallFollows (n := n) (fun s t => s = t ∧ s.Unused fun _ => True) (onPool x) := by
  refine onPool_follows (fun _ _ hst => run_agree (fun o s t h => ?_) x hst)
  obtain ⟨rfl, hs⟩ := h
  exact ⟨rfl, rfl, BufferPool.mem_unused hn o s hs⟩

theorem onFrames_unused {x : PoolCall n Unit}
    (hx : ∀ s : BufferPool n, (s.Unused fun _ => True) →
      Sat x s (fun _ t => t.Unused fun _ => True) (fun _ t => t.Unused fun _ => True)) :
    KeepsUnused (onFrames x) := by
  intro s hs
  have hsat := hx s.bp hs
  unfold onFrames
  cases hr : x s.bp with
  | ok _ t => exact hsat.ok hr
  | error e t => cases e <;> exact hsat.error hr

theorem reset_keepsUnused : KeepsUnused (n := n) reset := by
  intro s hs
  have hframes := onFrames_unused (fun _ => BufferPool.reset_unused) { s with heapfiles := ∅ } hs
  unfold reset
  split_ifs
  · exact hs
  · generalize onFrames BufferPool.reset { s with heapfiles := ∅ } = r at hframes ⊢
    obtain ⟨a, t⟩ := r
    cases a with
    | ok _ => exact hframes.sublist (List.Sublist.refl _) (fun _ _ => rfl) rfl
    | error e => exact hframes

theorem exec_unused (hn : n ≤ 2 ^ 32) (op : StorageOp) : KeepsUnused (n := n) (exec op) := by
  by_cases hop : op.Plain
  · intro s hs
    exact (exec_follows (onPool_unused hn) hop s s ⟨⟨rfl, hs⟩, rfl, rfl⟩).2.bp.2
  · cases op with
    | reset => exact reset_keepsUnused
    | clearCache => exact onFrames_unused (fun _ => BufferPool.reset_unused)
    | shutdown => exact onFrames_unused (fun _ => BufferPool.flushAll_unused)
    | _ => exact absurd trivial hop

theorem execAll_unused (hn : n ≤ 2 ^ 32) (ops : List StorageOp) {s : StorageManager n}
    (hs : s.bp.Unused fun _ => True) : (execAll ops s).2.bp.Unused fun _ => True := by
  induction ops generalizing s with
  | nil => exact hs
  | cons op ops ih => exact ih (exec_unused hn op s hs)

end StorageManager

/-! ### A pool that is behind another -/

namespace BufferPool

variable {n : ℕ} {s t : BufferPool n} {key : ContainerPageId} {p : Page}

/-- The page as the file of its container has it. -/
def filePage (s : BufferPool n) (key : ContainerPageId) : Option Page :=
  (s.containers key.cId).bind (fun ct => ct.file[key.pageId.toNat]?)

theorem filePage_eq (s : BufferPool n) (key : ContainerPageId) :
    (s.containerOf key.cId).file[key.pageId.toNat]? = s.filePage key := by
  unfold containerOf filePage
  cases s.containers key.cId <;> rfl

theorem ensured_of_filePage (h : s.filePage key = some p) : s.ensured key.cId = s := by
  unfold filePage at h
  cases hct : s.containers key.cId with
  | none =>
    rw [hct] at h
    cases h
  | some ct =>
    unfold ensured setContainer
    rw [containerOf_eq hct, ← hct, Function.update_eq_self]

/-- Every page in the pool is in the file of its container, with the same bytes. -/
def InFiles (s : BufferPool n) : Prop :=
  ∀ key i, s.pageToFrame.lookup key = some i → s.filePage key = some (s.frames i).page

/-- The page is counted by its container. -/
def Counted (s : BufferPool n) (key : ContainerPageId) : Prop :=
  ∃ ct, s.containers key.cId = some ct ∧ key.pageId < ct.pageCount

/-- There are hints enough for the pages that are counted and not in the pool. -/
def Spare (s : BufferPool n) : Prop :=
  ∃ missing : Finset ContainerPageId, missing.card ≤ s.evictionHints.length ∧
    ∀ key, s.Counted key → s.pageToFrame.lookup key = none → key ∈ missing

/-- Every page can be read from the files again: the pages in the pool are in the files with the same
bytes, so are the others that are counted, and there are frames for them. -/
structure Refetchable (s : BufferPool n) : Prop where
  inFiles : s.InFiles
  complete : ∀ key, s.Counted key → s.filePage key ≠ none
  spare : s.Spare

theorem Spare.hints_ne_nil (h : s.Spare) (hc : s.Counted key)
    (hkey : s.pageToFrame.lookup key = none) : s.evictionHints ≠ [] := by
  obtain ⟨missing, hcard, hmem⟩ := h
  intro hnil
  rw [hnil, length_nil, Nat.le_zero, Finset.card_eq_zero] at hcard
  have := hmem key hc hkey
  rw [hcard] at this
  exact absurd this (Finset.notMem_empty key)

/-- The pool after a page is read into frame `i`. -/
def loaded (s : BufferPool n) (key : ContainerPageId) (i : Fin n) (rest : List (Fin n)) (p : Page) :
    BufferPool n :=
  { s.ticked with
    evictionHints := rest
    pageToFrame := s.pageToFrame.insert key i }.setFrame i ⟨some key, false, 0, p⟩

/-- The pool with another number of guards of a frame. -/
def setCnt (s : BufferPool n) (i : Fin n) (k : ℤ) : BufferPool n :=
  s.setFrame i { s.frames i with cnt := k }

theorem setCnt_page (s : BufferPool n) (i j : Fin n) (k : ℤ) :
    ((s.setCnt i k).frames j).page = (s.frames j).page := by
  unfold setCnt
  by_cases hj : j = i
  · rw [hj, setFrame_self]
  · rw [setFrame_ne _ _ _ hj]

variable {B : Page → Prop}

/-- What happens to a request for a page that is not in the pool. -/
theorem getPageForRead_miss (hn : n ≤ 2 ^ 32) (hs : s.Unused B)
    (hlook : s.pageToFrame.lookup key = none) (hdisk : s.disk.fault s.accesses = none) :
    Sat (getPageForRead key) s
      (fun _ t => ∃ i rest p, s.evictionHints = i :: rest ∧ s.filePage key = some p ∧
        t = (s.loaded key i rest p).setCnt i 1)
      (fun e _ => e ≠ .blocks ∧ (s.evictionHints = [] ∨ s.filePage key = none)) := by
  unfold getPageForRead
  refine getPage_miss hn hs hlook (fun hh => ⟨fun h => (nomatch h), Or.inl hh⟩) (fun i rest hh => ?_)
  refine Sat.bind (readPage_sat ?_ ?_)
  · intro garbage msg hfile
    refine ⟨fun h => (nomatch h), Or.inr ?_⟩
    rw [← filePage_eq]
    exact hfile hdisk
  · intro p _ hp
    have hfile : s.filePage key = some p := (s.filePage_eq key).symm.trans hp
    refine Sat.bind (Sat.modify (Sat.bind (Sat.modify (Sat.pure ?_))))
    refine ⟨i, rest, p, hh, hfile, ?_⟩
    have hmapped : ((s.latched i rest).mapped key i).ensured key.cId =
        (s.latched i rest).mapped key i := ensured_of_filePage (p := p) hfile
    rw [hmapped]
    unfold loaded setCnt BufferFrame.downgrade latched mapped ticked
    simp only [setFrame_self]
    unfold setFrame
    simp only [Function.update_idem, hs.clean i (hh ▸ mem_cons_self)]

/-- The answer to such a request. -/
theorem request_miss (hn : n ≤ 2 ^ 32) (hs : s.Unused B) (hlook : s.pageToFrame.lookup key = none)
    (hdisk : s.disk.fault s.accesses = none) :
    (∃ i rest p, s.evictionHints = i :: rest ∧ s.filePage key = some p ∧
      request (getPageForRead key) s = (.ok (), (s.loaded key i rest p).setCnt i 1)) ∨
    (s.evictionHints = [] ∨ s.filePage key = none) ∧
      (request (getPageForRead key) s).1 = .error (.panic .unwrap) := by
  have hsat := getPageForRead_miss hn hs hlook hdisk
  unfold request
  cases hr : getPageForRead key s with
  | ok _ t =>
    obtain ⟨i, rest, p, hh, hp, rfl⟩ := hsat.ok hr
    exact .inl ⟨i, rest, p, hh, hp, rfl⟩
  | error e t =>
    obtain ⟨hblocks, hnone⟩ := hsat.error hr
    refine .inr ⟨hnone, ?_⟩
    cases e with
    | status st => rfl
    | panic => rfl
    | blocks => exact absurd rfl hblocks

/-! Reading a page in -/

section Loaded

variable {i : Fin n} {rest : List (Fin n)}

theorem lookup_loaded_self : (s.loaded key i rest p).pageToFrame.lookup key = some i :=
  lookup_insert _

theorem lookup_loaded_ne {k : ContainerPageId} (hk : k ≠ key) :
    (s.loaded key i rest p).pageToFrame.lookup k = s.pageToFrame.lookup k :=
  lookup_insert_ne hk

theorem loaded_self : (s.loaded key i rest p).frames i = ⟨some key, false, 0, p⟩ :=
  setFrame_self _ _ _

variable {B : Page → Prop}

/-- The frame of a page is not the one that is taken. -/
theorem loaded_mapped (hs : s.Unused B) (hh : s.evictionHints = i :: rest) {k : ContainerPageId}
    {j : Fin n} (hj : s.pageToFrame.lookup k = some j) :
    (s.loaded key i rest p).frames j = s.frames j :=
  setFrame_ne _ _ _ (fun hji => hs.unmapped i (hh ▸ mem_cons_self) k (hji ▸ hj))

theorem Unused.loaded (hs : s.Unused B) (hh : s.evictionHints = i :: rest) :
    (s.loaded key i rest p).Unused B :=
  have hnil : s.evictionHints = [] ++ i :: rest := hh
  hs.taken hnil rfl (fun _ hj => setFrame_ne _ _ _ hj) rfl

/-- One page less is missing, and one hint less is left. -/
theorem Spare.loaded (h : s.Spare) (hc : s.Counted key) (hkey : s.pageToFrame.lookup key = none)
    (hh : s.evictionHints = i :: rest) : (s.loaded key i rest p).Spare := by
  obtain ⟨missing, hcard, hmem⟩ := h
  refine ⟨missing.erase key, ?_, fun k hk hlook => ?_⟩
  · rw [hh, length_cons] at hcard
    show (missing.erase key).card ≤ rest.length
    rw [Finset.card_erase_of_mem (hmem key hc hkey)]
    omega
  · by_cases hk' : k = key
    · rw [hk', lookup_loaded_self] at hlook
      cases hlook
    · rw [lookup_loaded_ne hk'] at hlook
      exact Finset.mem_erase.mpr ⟨hk', hmem k hk hlook⟩

theorem InFiles.loaded (h : s.InFiles) (hs : s.Unused B) (hh : s.evictionHints = i :: rest)
    (hp : s.filePage key = some p) : (s.loaded key i rest p).InFiles := by
  intro k j hj
  by_cases hk : k = key
  · rw [hk, lookup_loaded_self] at hj
    rw [hk, ← Option.some.inj hj, loaded_self]
    exact hp
  · rw [lookup_loaded_ne hk] at hj
    rw [loaded_mapped hs hh hj]
    exact h k j hj

theorem Refetchable.loaded (h : s.Refetchable) (hs : s.Unused B) (hc : s.Counted key)
    (hkey : s.pageToFrame.lookup key = none) (hh : s.evictionHints = i :: rest)
    (hp : s.filePage key = some p) : (s.loaded key i rest p).Refetchable :=
  ⟨h.inFiles.loaded hs hh hp, h.complete, h.spare.loaded hc hkey hh⟩

end Loaded

theorem InFiles.setCnt (h : s.InFiles) (i : Fin n) (k : ℤ) : (s.setCnt i k).InFiles := by
  intro key j hj
  rw [setCnt_page]
  exact h key j hj

theorem Refetchable.setCnt (h : s.Refetchable) (i : Fin n) (k : ℤ) : (s.setCnt i k).Refetchable :=
  ⟨h.inFiles.setCnt i k, h.complete, h.spare⟩

theorem Unused.setCnt (hs : s.Unused B) {i : Fin n} (hi : s.pageToFrame.lookup key = some i) (k : ℤ) :
    (s.setCnt i k).Unused B :=
  hs.setFrame (hs.notMem hi) _

/-- The frame of another page keeps its guards. -/
theorem setCnt_mapped (hs : s.Unused B) {i j : Fin n} {k' : ContainerPageId}
    (hi : s.pageToFrame.lookup key = some i) (hj : s.pageToFrame.lookup k' = some j)
    (hne : k' ≠ key) (k : ℤ) : (s.setCnt i k).frames j = s.frames j :=
  setFrame_ne _ _ _ (fun hji => hne (hs.inj k' key j hj (hji ▸ hi)))

theorem setCnt_self (s : BufferPool n) (i : Fin n) (k : ℤ) : ((s.setCnt i k).frames i).cnt = k := by
  unfold setCnt
  rw [setFrame_self]

end BufferPool

open BufferPool

/-- Two pools over the containers `cs`.  The second one holds some of the pages of the first one,
among them all that are held by a guard; both have them as the files do, every other page can be
read into the first one, and no access to a file will fail. -/
structure Behind {n : ℕ} (cs : ContainerId → Option Container) (s t : BufferPool n) : Prop where
  containers : s.containers = cs
  containers' : t.containers = cs
  left : s.Unused fun _ => True
  right : t.Unused fun _ => True
  files : s.Refetchable
  inFiles' : t.InFiles
  room : n ≤ t.evictionHints.length + t.pageToFrame.entries.length
  keys : ∀ key, s.pageToFrame.lookup key = none → t.pageToFrame.lookup key = none
  cnt : ∀ key i j, s.pageToFrame.lookup key = some i → t.pageToFrame.lookup key = some j →
    (s.frames i).cnt = (t.frames j).cnt
  held : ∀ key i, s.pageToFrame.lookup key = some i → (s.frames i).cnt ≠ 0 →
    t.pageToFrame.lookup key ≠ none
  sound : ∀ k, s.accesses ≤ k → s.disk.fault k = none
  sound' : ∀ k, t.accesses ≤ k → t.disk.fault k = none

namespace Behind

variable {n : ℕ} {cs : ContainerId → Option Container} {s t : BufferPool n} {key : ContainerPageId} {i j : Fin n} {p : Page}
  {rest : List (Fin n)}

theorem filePage_eq (h : Behind cs s t) (key : ContainerPageId) : t.filePage key = s.filePage key := by
  unfold filePage
  rw [h.containers, h.containers']

/-- A page that both pools hold is the same in both. -/
theorem page_eq (h : Behind cs s t) (hi : s.pageToFrame.lookup key = some i)
    (hj : t.pageToFrame.lookup key = some j) : (t.frames j).page = (s.frames i).page := by
  have ht := h.inFiles' key j hj
  rw [h.filePage_eq, h.files.inFiles key i hi] at ht
  exact (Option.some.inj ht).symm

theorem keys_subset (h : Behind cs s t) : t.pageToFrame.keys ⊆ s.pageToFrame.keys := by
  intro k hk
  have hs : s.pageToFrame.lookup k ≠ none := by
    intro hnone
    exact (lookup_eq_none.mp (h.keys k hnone)) hk
  by_contra hnot
  exact hs (lookup_eq_none.mpr hnot)

theorem length_keys (m : AList fun _ : ContainerPageId => Fin n) :
    m.keys.length = m.entries.length := length_map ..

/-- There is a frame for a page that is missing. -/
theorem hints_ne_nil (h : Behind cs s t) (hkey : t.pageToFrame.lookup key = none)
    (hs : s.pageToFrame.lookup key ≠ none ∨ s.evictionHints ≠ []) : t.evictionHints ≠ [] := by
  intro hnil
  have hroom := h.room
  have hfits := h.left.fits
  rw [hnil, length_nil, Nat.zero_add, ← length_keys] at hroom
  rw [← length_keys] at hfits
  rcases hs with hs | hs
  · have hmem : key ∈ s.pageToFrame.keys := by
      by_contra hnot
      exact hs (lookup_eq_none.mpr hnot)
    have hnodup : (key :: t.pageToFrame.keys).Nodup :=
      nodup_cons.mpr ⟨lookup_eq_none.mp hkey, t.pageToFrame.keys_nodup⟩
    have hle := (subperm_of_subset hnodup (cons_subset.mpr ⟨hmem, h.keys_subset⟩)).length_le
    rw [length_cons] at hle
    omega
  · have hle := (subperm_of_subset t.pageToFrame.keys_nodup h.keys_subset).length_le
    have hpos := length_pos_iff.mpr hs
    omega

/-- The first pool reads a page in. -/
theorem loadLeft (h : Behind cs s t) (hc : s.Counted key) (hkey : s.pageToFrame.lookup key = none)
    (hh : s.evictionHints = i :: rest) (hp : s.filePage key = some p) :
    Behind cs (s.loaded key i rest p) t := by
  refine ⟨h.containers, h.containers', h.left.loaded hh, h.right,
    h.files.loaded h.left hc hkey hh hp, h.inFiles', h.room, fun k hk => ?_, fun k i' j' hi' hj' => ?_, fun k i' hi' hne => ?_,
    fun k hk => h.sound k (Nat.le_of_succ_le hk), h.sound'⟩
  all_goals by_cases hk' : k = key
  · rw [hk', lookup_loaded_self] at hk
    cases hk
  · rw [lookup_loaded_ne hk'] at hk
    exact h.keys k hk
  · rw [hk', h.keys key hkey] at hj'
    cases hj'
  · rw [lookup_loaded_ne hk'] at hi'
    rw [loaded_mapped h.left hh hi']
    exact h.cnt k i' j' hi' hj'
  · rw [hk', lookup_loaded_self] at hi'
    rw [← Option.some.inj hi', loaded_self] at hne
    exact absurd rfl hne
  · rw [lookup_loaded_ne hk'] at hi'
    rw [loaded_mapped h.left hh hi'] at hne
    exact h.held k i' hi' hne

/-- The second pool reads a page in that the first one holds. -/
theorem loadRight (h : Behind cs s t) (hi : s.pageToFrame.lookup key = some i)
    (hcnt : (s.frames i).cnt = 0) (hkey : t.pageToFrame.lookup key = none)
    (hh : t.evictionHints = j :: rest) (hp : t.filePage key = some p) :
    Behind cs s (t.loaded key j rest p) := by
  refine ⟨h.containers, h.containers', h.left, h.right.loaded hh, h.files,
    h.inFiles'.loaded h.right hh hp, ?_, fun k hk => ?_, fun k i' j' hi' hj' => ?_, fun k i' hi' hne => ?_, h.sound,
    fun k hk => h.sound' k (Nat.le_of_succ_le hk)⟩
  · have hroom := h.room
    have hsize : (t.pageToFrame.insert key j).entries.length = t.pageToFrame.entries.length + 1 := by
      rw [entries_insert_of_notMem (lookup_eq_none.mp hkey), length_cons]
    show n ≤ rest.length + (t.pageToFrame.insert key j).entries.length
    rw [hh, length_cons] at hroom
    omega
  all_goals by_cases hk' : k = key
  · rw [hk', hi] at hk
    cases hk
  · rw [lookup_loaded_ne hk']
    exact h.keys k hk
  · rw [hk', lookup_loaded_self] at hj'
    rw [hk', hi] at hi'
    rw [← Option.some.inj hi', ← Option.some.inj hj', loaded_self]
    exact hcnt
  · rw [lookup_loaded_ne hk'] at hj'
    rw [loaded_mapped h.right hh hj']
    exact h.cnt k i' j' hi' hj'
  · rw [hk', lookup_loaded_self]
    exact Option.some_ne_none _
  · rw [lookup_loaded_ne hk']
    exact h.held k i' hi' hne

/-- Both pools change the guards of a page in the same way. -/
theorem setCnt (h : Behind cs s t) (hi : s.pageToFrame.lookup key = some i)
    (hj : t.pageToFrame.lookup key = some j) (c : ℤ) : Behind cs (s.setCnt i c) (t.setCnt j c) := by
  refine ⟨h.containers, h.containers', h.left.setCnt hi c, h.right.setCnt hj c, h.files.setCnt i c,
    h.inFiles'.setCnt j c, h.room, h.keys, fun k i' j' hi' hj' => ?_, fun k i' hi' hne => ?_, h.sound,
    h.sound'⟩
  all_goals
    have hi'' : s.pageToFrame.lookup k = some i' := hi'
    by_cases hk : k = key
  · have hj'' : t.pageToFrame.lookup k = some j' := hj'
    rw [hk, hi] at hi''
    rw [hk, hj] at hj''
    rw [← Option.some.inj hi'', ← Option.some.inj hj'', setCnt_self, setCnt_self]
  · rw [setCnt_mapped h.left hi hi' hk, setCnt_mapped h.right hj hj' hk]
    exact h.cnt k i' j' hi' hj'
  · show t.pageToFrame.lookup k ≠ none
    rw [hk, hj]
    exact Option.some_ne_none _
  · rw [setCnt_mapped h.left hi hi' hk] at hne
    exact h.held k i' hi' hne

/-- A page that the second pool has to read in gets the frame that is next. -/
theorem getPageForRead_eq (hn : n ≤ 2 ^ 32) (h : Behind cs s t) (hkey : t.pageToFrame.lookup key = none)
    (hs : s.pageToFrame.lookup key ≠ none ∨ s.evictionHints ≠ []) (hp : s.filePage key = some p) :
    ∃ j rest, t.evictionHints = j :: rest ∧
      request (getPageForRead key) t = (.ok (), (t.loaded key j rest p).setCnt j 1) := by
  have hfile : t.filePage key = some p := (h.filePage_eq key).trans hp
  rcases request_miss hn h.right hkey (h.sound' _ le_rfl) with
    ⟨j, rest, p', hh, hp', heq⟩ | ⟨hnil | hnone, -⟩
  · rw [hfile] at hp'
    obtain rfl := Option.some.inj hp'
    exact ⟨j, rest, hh, heq⟩
  · exact absurd hnil (h.hints_ne_nil hkey hs)
  · rw [hfile] at hnone
    cases hnone

end Behind

/-! ### Reads -/

/-- The answers of a pool over the containers `cs`, as far as a read depends on them. -/
def Counts (cs : ContainerId → Option Container) : (o : MemOp) → memInterface.Ans o → Prop
  | .getMaxPageId c, a => a = (cs c).map (·.pageCount)
  | _, _ => True

/-- The call only reads, and asks only for pages that are counted. -/
def MemOp.Reads (cs : ContainerId → Option Container) : MemOp → Prop
  | .getMaxPageId _ | .dropReadGuard _ | .getValue _ _ | .getNumSlots _ => True
  | .getPageForRead key => ∃ ct, cs key.cId = some ct ∧ key.pageId < ct.pageCount
  | _ => False

/-- A page whose latch is held for writing is not given out, and the answer is unwrapped. -/
theorem request_denied {n : ℕ} {s : BufferPool n} {key : ContainerPageId} {i : Fin n}
    (hi : s.pageToFrame.lookup key = some i) (hcnt : (s.frames i).cnt < 0) :
    request (getPageForRead key) s = (.error (.panic .unwrap), s) := by
  have htry : (s.frames i).tryRead = none := if_pos hcnt
  have hdenied : getPageForRead key s = .error (.status .frameReadLatchGrantFailed) s := by
    unfold getPageForRead getPage
    refine (bind_of_ok rfl).trans ?_
    rw [hi]
    unfold grantLatch
    refine (bind_of_ok rfl).trans ?_
    rw [htry]
    rfl
  unfold request
  rw [hdenied]

namespace Behind

variable {n : ℕ} {cs : ContainerId → Option Container} {s t : BufferPool n}

/-- The same answer from a pool and from one that is behind it. -/
abbrev Reading {α : Type} (cs : ContainerId → Option Container)
    (r r' : Except CrustyError α × BufferPool n) : Prop := Follows (Behind cs) r r'

theorem getPageForRead (hn : n ≤ 2 ^ 32) (h : Behind cs s t) {key : ContainerPageId}
    (hc : s.Counted key) :
    Reading cs (request (getPageForRead key) s) (request (getPageForRead key) t) := by
  cases hi : s.pageToFrame.lookup key with
  | some i =>
    by_cases hcnt : (s.frames i).cnt < 0
    · obtain ⟨j, hj⟩ := Option.ne_none_iff_exists'.mp (h.held key i hi (ne_of_lt hcnt))
      have heq := h.cnt key i j hi hj
      rw [request_denied hi hcnt, request_denied hj (heq ▸ hcnt)]
      exact ⟨rfl, h⟩
    · rw [request_hit hi hcnt]
      cases hj : t.pageToFrame.lookup key with
      | some j =>
        have heq := h.cnt key i j hi hj
        rw [request_hit hj (heq ▸ hcnt), ← heq]
        exact ⟨rfl, h.setCnt hi hj _⟩
      | none =>
        have hzero : (s.frames i).cnt = 0 := by
          by_contra hne
          exact h.held key i hi hne hj
        obtain ⟨j, rest, hh, heq⟩ := h.getPageForRead_eq hn hj
          (Or.inl (by rw [hi]; exact Option.some_ne_none i)) (h.files.inFiles key i hi)
        rw [heq, hzero]
        refine ⟨rfl, ?_⟩
        have hload := h.loadRight hi hzero hj hh
          ((h.filePage_eq key).trans (h.files.inFiles key i hi))
        exact hload.setCnt hi lookup_loaded_self 1
  | none =>
    have hj := h.keys key hi
    rcases request_miss hn h.left hi (h.sound _ le_rfl) with
      ⟨i, rest, p, hh, hp, hs⟩ | ⟨hnil | hnone, -⟩
    · obtain ⟨j, rest', hh', ht⟩ := h.getPageForRead_eq hn hj
        (Or.inr (by rw [hh]; exact cons_ne_nil i rest)) hp
      have hload := (h.loadLeft hc hi hh hp).loadRight lookup_loaded_self
        (by rw [loaded_self]) hj hh' ((h.filePage_eq key).trans hp)
      rw [hs, ht]
      exact ⟨rfl, hload.setCnt lookup_loaded_self lookup_loaded_self 1⟩
    · exact absurd hnil (h.files.spare.hints_ne_nil hc hi)
    · exact absurd hnone (h.files.complete key hc)

/-- A page that is held is in both pools, under the same number of guards. -/
theorem held_eq (h : Behind cs s t) {key : ContainerPageId} {i : Fin n} (hk : s.held key = some i) :
    ∃ j, t.held key = some j ∧ (s.frames i).cnt = (t.frames j).cnt ∧
      (t.frames j).page = (s.frames i).page := by
  obtain ⟨hi, hne⟩ := held_eq_some.mp hk
  obtain ⟨j, hj⟩ := Option.ne_none_iff_exists'.mp (h.held key i hi hne)
  have hcnt := h.cnt key i j hi hj
  exact ⟨j, held_eq_some.mpr ⟨hj, hcnt ▸ hne⟩, hcnt, h.page_eq hi hj⟩

/-- A page that is not held in the first pool is not held in the second. -/
theorem held_none (h : Behind cs s t) {key : ContainerPageId} (hk : s.held key = none) :
    t.held key = none := by
  by_contra hne
  obtain ⟨j, hj⟩ := Option.ne_none_iff_exists'.mp hne
  obtain ⟨hj, hcnt⟩ := held_eq_some.mp hj
  cases hi : s.pageToFrame.lookup key with
  | none =>
    rw [h.keys key hi] at hj
    cases hj
  | some i =>
    rw [← h.cnt key i j hi hj] at hcnt
    rw [held_eq_some.mpr ⟨hi, hcnt⟩] at hk
    cases hk

theorem release (h : Behind cs s t) {key : ContainerPageId} {i j : Fin n} (hi : s.held key = some i)
    (hj : t.held key = some j) (hcnt : (s.frames i).cnt = (t.frames j).cnt) :
    Behind cs (s.setFrame i (s.frames i).release) (t.setFrame j (t.frames j).release) := by
  have hset := h.setCnt (held_eq_some.mp hi).1 (held_eq_some.mp hj).1
  unfold BufferFrame.release
  rw [← hcnt]
  split_ifs
  · exact hset 0
  · have hless := hset ((s.frames i).cnt - 1)
    unfold BufferFrame.releaseShared
    rw [← hcnt]
    exact hless

theorem dropGuard (h : Behind cs s t) (key : ContainerPageId) :
    Reading cs (dropGuard key s) (dropGuard key t) := by
  unfold BufferPool.dropGuard
  cases hk : s.held key with
  | none =>
    rw [h.held_none hk]
    exact ⟨rfl, h⟩
  | some i =>
    obtain ⟨j, hj, hcnt, -⟩ := h.held_eq hk
    rw [hj]
    exact ⟨rfl, h.release hk hj hcnt⟩

theorem onPage (h : Behind cs s t) {α : Type} (f : Page → Checked α) (key : ContainerPageId) :
    Reading cs (onPage key (keeps f) s) (onPage key (keeps f) t) := by
  unfold BufferPool.onPage
  cases hk : s.held key with
  | none =>
    rw [h.held_none hk]
    exact ⟨rfl, h⟩
  | some i =>
    obtain ⟨j, hj, hcnt, hpage⟩ := h.held_eq hk
    rw [hj]
    unfold keeps
    dsimp only
    rw [hpage]
    cases f (s.frames i).page with
    | error e => exact ⟨rfl, h.release hk hj hcnt⟩
    | ok a =>
      refine ⟨rfl, ?_⟩
      have hs : s.setFrame i (s.frames i) = s := by
        unfold setFrame
        rw [Function.update_eq_self]
      have ht : t.setFrame j { t.frames j with page := (s.frames i).page } = t := by
        rw [← hpage]
        unfold setFrame
        rw [Function.update_eq_self]
      show Behind cs (s.setFrame i (s.frames i))
        (t.setFrame j { t.frames j with page := (s.frames i).page })
      rw [hs, ht]
      exact h

/-- Every read does the same on a pool that is behind. -/
theorem mem_follows (hn : n ≤ 2 ^ 32) (o : MemOp) (s t : BufferPool n) (ho : o.Reads cs)
    (h : Behind cs s t) : Reading cs (memHandler o s) (memHandler o t) := by
  cases o with
  | getMaxPageId c =>
    refine ⟨?_, h⟩
    show Except.ok ((s.containers c).map _) = Except.ok ((t.containers c).map _)
    rw [h.containers, h.containers']
  | getPageForRead key =>
    refine h.getPageForRead hn ?_
    unfold Counted
    rw [h.containers]
    exact ho
  | dropReadGuard key => exact h.dropGuard key
  | getValue key slotId => exact h.onPage _ key
  | getNumSlots key => exact h.onPage _ key
  | createNewPageForWrite c => exact ho.elim
  | createHeapPage c => exact ho.elim
  | getPageForWrite key => exact ho.elim
  | dropWriteGuard key => exact ho.elim
  | addValue key bytes => exact ho.elim
  | updateValue key slotId bytes => exact ho.elim
  | deleteValue key slotId => exact ho.elim

theorem mem_counts (o : MemOp) (s t : BufferPool n) (h : Behind cs s t) (a : memInterface.Ans o)
    (ha : (memHandler o s).1 = .ok a) : Counts cs o a := by
  cases o with
  | getMaxPageId c =>
    have hok : Except.ok ((s.containers c).map (·.pageCount)) = Except.ok a := ha
    show a = (cs c).map (·.pageCount)
    rw [← h.containers]
    exact (Except.ok.inj hok).symm
  | _ => exact trivial

end Behind

/-! The programs that read -/

section Uses

variable {c : ContainerId}

variable {cs : ContainerId → Option Container} {α : Type}

/-- The number of pages that a program is told. -/
theorem numPages_bind_uses {f : PageId → HeapProg α}
    (h : Uses (Counts cs) (MemOp.Reads cs) (f (((cs c).map (·.pageCount)).getD 0))) :
    Uses (Counts cs) (MemOp.Reads cs) (HeapFile.numPages c >>= f) := by
  refine ⟨trivial, fun a ha => ?_⟩
  obtain rfl : a = (cs c).map (·.pageCount) := ha
  exact h

/-- A page below that number may be asked for. -/
theorem getPageForRead_uses {p : PageId} (hp : p < ((cs c).map (·.pageCount)).getD 0) :
    Uses (Counts cs) (MemOp.Reads cs) (HeapProg.getPageForRead ⟨c, p⟩) := by
  refine Uses.op ?_
  cases hct : cs c with
  | none =>
    rw [hct] at hp
    exact absurd hp (UInt32.not_lt.mpr (UInt32.zero_le))
  | some ct =>
    rw [hct] at hp
    exact ⟨ct, hct, hp⟩

theorem getVal_uses (p : PageId) (slot : SlotId) :
    Uses (Counts cs) (MemOp.Reads cs) (HeapFile.getVal c p slot) := by
  unfold HeapFile.getVal
  refine numPages_bind_uses ?_
  split_ifs with hp
  · exact trivial
  · refine Uses.bind (getPageForRead_uses (UInt32.not_le.mp hp)) (fun _ =>
      Uses.bind (Uses.op trivial) (fun v => Uses.bind (Uses.op trivial) (fun _ => ?_)))
    cases v <;> exact trivial

theorem setUp_uses (it : HeapFileIter) : Uses (Counts cs) (MemOp.Reads cs) it.setUp := by
  unfold HeapFileIter.setUp
  split_ifs
  · exact trivial
  · refine numPages_bind_uses ?_
    split_ifs with hp
    · exact Uses.bind (getPageForRead_uses hp) (fun _ => trivial)
    · exact trivial

theorem nextLoop_uses (fuel : ℕ) (it : HeapFileIter) :
    Uses (Counts cs) (MemOp.Reads cs) (it.nextLoop fuel) := by
  induction fuel generalizing it with
  | zero => exact trivial
  | succ fuel ih =>
    unfold HeapFileIter.nextLoop
    cases it.currentPage with
    | none => exact trivial
    | some pageId =>
      refine Uses.bind (Uses.op trivial) (fun numSlots => ?_)
      split_ifs
      · refine Uses.bind (Uses.op trivial) (fun v => ?_)
        cases v with
        | some val => exact trivial
        | none => exact ih _
      · refine Uses.bind (Uses.op trivial) (fun _ => numPages_bind_uses ?_)
        split_ifs with hp
        · exact trivial
        · exact Uses.bind (getPageForRead_uses (UInt32.not_le.mp hp)) (fun _ => ih _)

theorem next_uses (it : HeapFileIter) : Uses (Counts cs) (MemOp.Reads cs) it.next := by
  unfold HeapFileIter.next
  refine Uses.bind (setUp_uses it) (fun it => ?_)
  split_ifs
  · exact trivial
  · exact numPages_bind_uses (nextLoop_uses _ it)

theorem drop_uses (it : HeapFileIter) : Uses (Counts cs) (MemOp.Reads cs) it.drop := by
  unfold HeapFileIter.drop
  cases it.currentPage with
  | none => exact trivial
  | some pageId => exact Uses.op trivial

theorem take_uses (k : ℕ) (it : HeapFileIter) : Uses (Counts cs) (MemOp.Reads cs) (it.take k) := by
  induction k generalizing it with
  | zero => exact Uses.bind (drop_uses it) (fun _ => trivial)
  | succ k ih =>
    unfold HeapFileIter.take
    refine Uses.bind (next_uses it) (fun r => ?_)
    obtain ⟨v, it⟩ := r
    cases v with
    | none => exact Uses.bind (drop_uses it) (fun _ => trivial)
    | some item => exact Uses.bind (ih it) (fun _ => trivial)

end Uses

/-! ### The manager -/

/-- A call that reads records. -/
def StorageOp.Reads : StorageOp → Prop
  | .getValue _ | .iterate _ _ | .iterateFrom _ _ _ => True
  | _ => False

instance : (op : StorageOp) → Decidable op.Reads
  | .getValue _ | .iterate _ _ | .iterateFrom _ _ _ => inferInstanceAs (Decidable True)
  | .createTable _ | .insertValue _ _ | .insertValues _ _ | .deleteValue _ | .updateValue _ _
  | .reset | .clearCache | .shutdown => inferInstanceAs (Decidable False)

namespace StorageManager

variable {n : ℕ} {α : Type}

variable {cs : ContainerId → Option Container}

theorem onPool_reads (hn : n ≤ 2 ^ 32) {x : HeapProg α}
    (hx : Uses (Counts cs) (MemOp.Reads cs) x) : CallFollows (n := n) (Behind cs) (onPool x) :=
  onPool_follows (fun _ _ => run_follows (Behind.mem_follows hn) Behind.mem_counts hx)

theorem exec_reads (hn : n ≤ 2 ^ 32) {op : StorageOp} (hop : op.Reads) :
    CallFollows (n := n) (Behind cs) (exec op) := by
  cases op with
  | getValue id =>
    exact answer_follows (onRecord_follows (fun p slot => onPool_reads hn (getVal_uses p slot))) _
  | iterate c k =>
    exact answer_follows (unwrapped_follows (onFile_follows (onPool_reads hn (take_uses k _)) c)) _
  | iterateFrom c start k =>
    exact answer_follows (iterateFrom_follows (fun p slot => onPool_reads hn (take_uses k _))) _
  | createTable c => exact hop.elim
  | insertValue c value => exact hop.elim
  | insertValues c values => exact hop.elim
  | deleteValue id => exact hop.elim
  | updateValue value id => exact hop.elim
  | reset => exact hop.elim
  | clearCache => exact hop.elim
  | shutdown => exact hop.elim

end StorageManager

variable {n : ℕ}

/-- A pool that was cleared is behind the one it was. -/
theorem behind_cleared {s : BufferPool n} (hs : s.Unused fun _ => True)
    (hcnt : ∀ i, (s.frames i).cnt = 0) (hfiles : s.Refetchable)
    (hdisk : ∀ k, s.accesses ≤ k → s.disk.fault k = none) : Behind s.containers s s.cleared := by
  refine ⟨rfl, rfl, hs, cleared_unused hcnt, hfiles, fun key i hi => (nomatch hi), ?_, fun _ _ => rfl,
    fun key i j _ hj => (nomatch hj), fun key i _ hne => absurd (hcnt i) hne, hdisk, hdisk⟩
  show n ≤ (List.finRange n).length + 0
  rw [length_finRange]
  exact le_rfl

/-- The frames of a manager that has just been opened. -/
theorem StorageManager.new_unused (ids : Finset ContainerId) (files : ContainerId → List Page)
    (disk : Disk) : (StorageManager.new (n := n) ids files disk).bp.Unused fun _ => True :=
  unused_empty rfl rfl (fun _ => ⟨rfl, rfl, rfl⟩) (fun _ => trivial)

/-- Whatever the history, clearing the cache changes the result of no get and of no iteration that
follows it with only such calls in between, when every page can be read from the files again and the
disk does not fail. -/
theorem clearCache_unseen (ids : Finset ContainerId) (files : ContainerId → List Page) (disk : Disk)
    (history : List StorageOp) (s s' : StorageManager bpFrames)
    (hs : (StorageManager.execAll history (.new ids files disk)).2 = s)
    (hclear : s.clearCache = (.ok (), s')) (hfiles : s.bp.Refetchable)
    (hdisk : ∀ k, s.bp.accesses ≤ k → s.bp.disk.fault k = none) (reads : List StorageOp)
    (hreads : ∀ op ∈ reads, op.Reads) :
    (StorageManager.execAll reads s').1 = (StorageManager.execAll reads s).1 := by
  have hn : bpFrames ≤ 2 ^ 32 := by decide
  have hunused := StorageManager.execAll_unused hn history (StorageManager.new_unused ids files disk)
  rw [hs] at hunused
  obtain ⟨rfl, hcnt⟩ := StorageManager.clearCache_ok hclear
  have hrel : StorageManager.Related (Behind s.bp.containers) s { s with bp := s.bp.cleared } :=
    ⟨behind_cleared hunused hcnt hfiles hdisk, rfl, rfl⟩
  have hfollows : ∀ op ∈ reads,
      StorageManager.CallFollows (Behind s.bp.containers) (StorageManager.exec op) :=
    fun op hop => StorageManager.exec_reads hn (hreads op hop)
  exact (StorageManager.execAll_follows hfollows hrel).symm

/-! ### A record that is in the file -/

/-- Look up a record on a page that is read in. -/
theorem BufferPool.run_getVal_loaded (hn : n ≤ 2 ^ 32) {s : BufferPool n} {B : Page → Prop}
    (hs : s.Unused B) {c : ContainerId} {ct : Container} {p : PageId} {page : Page} {i : Fin n}
    {rest : List (Fin n)} {slot : SlotId} {r : Option (List UInt8)} (hct : s.containers c = some ct)
    (hlt : p < ct.pageCount) (hlook : s.pageToFrame.lookup ⟨c, p⟩ = none)
    (hh : s.evictionHints = i :: rest) (hfile : s.filePage ⟨c, p⟩ = some page)
    (hdisk : s.disk.fault s.accesses = none) (hget : page.getValue slot = .ok r) :
    run memHandler (HeapFile.getVal c p slot) s =
      (r.elim (.error (.crusty "Value not found")) .ok, s.loaded ⟨c, p⟩ i rest page) := by
  have hgrant : request (getPageForRead ⟨c, p⟩) s =
      (.ok (), (s.loaded ⟨c, p⟩ i rest page).setCnt i 1) := by
    rcases request_miss hn hs hlook hdisk with ⟨i', rest', page', hh', hfile', heq⟩ | ⟨hnone, -⟩
    · rw [hh] at hh'
      rw [hfile] at hfile'
      obtain ⟨rfl, rfl⟩ := List.cons.inj hh'
      obtain rfl := Option.some.inj hfile'
      exact heq
    · rw [hh, hfile] at hnone
      rcases hnone with hnone | hnone <;> cases hnone
  rw [run_getVal_granted hct hlt hgrant (i := i) (r := r) ?_ ?_]
  · unfold setCnt
    rw [setFrame_self, setFrame_setFrame]
    unfold loaded
    rw [setFrame_self, setFrame_setFrame]
    rfl
  · refine held_eq_some.mpr ⟨lookup_insert _, ?_⟩
    rw [setCnt_self]
    decide
  · rw [setCnt_page, loaded_self]
    exact hget

theorem StorageManager.exec_getValue {s : StorageManager n} {bp : BufferPool n} {c : ContainerId}
    {p : PageId} {slot : SlotId} {r : Except CrustyError (List UInt8)} (hp : s.poisoned = false)
    (hc : c ∈ s.heapfiles)
    (hrun : run BufferPool.memHandler (HeapFile.getVal c p slot) s.bp = (r, bp)) :
    exec (.getValue (.newSlot c p slot)) s = (r.map .value, { s with bp := bp }) := by
  show ((onFile c (HeapFile.getVal c p slot) s).1.map _, (onFile c (HeapFile.getVal c p slot) s).2) = _
  rw [onFile_eq hp hc]
  unfold onPool
  rw [hrun]

/-- A page with one record. -/
theorem exists_recordPage : ∃ q : Page, q.getValue 0 = .ok (some [7]) := by
  obtain ⟨p, -, hrep⟩ := Page.initHeapPage_new 1
  have hagree := add_pageRel (d := .empty 1) ⟨hrep, SlotDir.empty_wf 1⟩ [7]
  have hdir : (SlotDir.empty 1).add [7] = .ok (some 0, ⟨1, [⟨4095, [7]⟩], 4095, 0, 0⟩) := by decide
  rw [hdir] at hagree
  obtain ⟨⟨slot, q⟩, -, -, hrel⟩ := hagree.ok_right
  exact ⟨q, Page.getValue_rep hrel.1 0⟩

/-- A record in a file is read, and the page stays in the pool. -/
theorem exists_clearedFile {m : ℕ} (hm : 1 ≤ m) (hn : m + 1 ≤ 2 ^ 32) (disk : Disk)
    (hdisk : ∀ k, disk.fault k = none) :
    ∃ (files : ContainerId → List Page) (s s' : StorageManager (m + 1)),
      StorageManager.execAll [.getValue (.newSlot 0 1 0)] (.new {0} files disk) =
        ([.ok (.value [7])], s) ∧
      s.clearCache = (.ok (), s') ∧ s.bp.Refetchable ∧
      (∀ k, s.bp.accesses ≤ k → s.bp.disk.fault k = none) ∧
      (StorageManager.execAll [.getValue (.newSlot 0 1 0)] s).1 = [.ok (.value [7])] := by
  obtain ⟨q, hq⟩ := exists_recordPage
  let files : ContainerId → List Page := fun _ => [Page.new 0, q]
  let s₀ : StorageManager (m + 1) := .new {0} files disk
  have hunused : s₀.bp.Unused fun _ => True := StorageManager.new_unused _ _ _
  have hct : s₀.bp.containers 0 = some ⟨2, false, [Page.new 0, q]⟩ := rfl
  have hh : s₀.bp.evictionHints = 0 :: (List.finRange m).map Fin.succ := finRange_succ
  have hfile : s₀.bp.filePage ⟨0, 1⟩ = some q := by
    unfold filePage
    rw [hct]
    rfl
  have hlt : (1 : PageId) < 2 := by decide
  have hrun := run_getVal_loaded hn hunused hct hlt rfl hh hfile (hdisk _) hq
  have hmem : (0 : ContainerId) ∈ ({0} : Finset ContainerId) := Finset.mem_singleton_self 0
  have hexec := StorageManager.exec_getValue (s := s₀) rfl hmem hrun
  let bp := s₀.bp.loaded ⟨0, 1⟩ 0 ((List.finRange m).map Fin.succ) q
  have hfree : ∀ i, (bp.frames i).cnt = 0 := by
    intro i
    by_cases hi : i = 0
    · rw [hi, loaded_self]
    · exact congrArg BufferFrame.cnt (setFrame_ne _ _ _ hi)
  have hct' : bp.containers 0 = some ⟨2, false, [Page.new 0, q]⟩ := hct
  have hcounted : ∀ key, bp.Counted key → key = ⟨0, 0⟩ ∨ key = ⟨0, 1⟩ := by
    rintro ⟨c, p⟩ ⟨ct, hc, hlt⟩
    have hc' : (if c ∈ ({0} : Finset ContainerId) then some (Container.new (files c)) else none) =
        some ct := hc
    split_ifs at hc' with hmem'
    obtain rfl := Finset.mem_singleton.mp hmem'
    obtain rfl := Option.some.inj hc'
    have hp : p.toNat < 2 := hlt
    have hcases : p = 0 ∨ p = 1 := by
      rw [← UInt32.toNat_inj, ← UInt32.toNat_inj]
      show p.toNat = 0 ∨ p.toNat = 1
      omega
    rcases hcases with rfl | rfl
    · exact Or.inl rfl
    · exact Or.inr rfl
  have hrun' := run_getVal (s := bp) hct' hlt lookup_loaded_self (hfree 0)
    (by rw [loaded_self]; exact hq)
  refine ⟨files, { s₀ with bp := bp }, _, StorageManager.execAll_cons hexec [],
    StorageManager.clearCache_eq hfree, ?_, fun k _ => hdisk k, ?_⟩
  · refine ⟨InFiles.loaded (fun key i hi => (nomatch hi)) hunused hh hfile, fun key hkey => ?_,
      {⟨0, 0⟩}, ?_, fun key hkey hlook => ?_⟩
    · show bp.filePage key ≠ none
      rcases hcounted key hkey with rfl | rfl
      all_goals
        unfold filePage
        rw [hct']
        exact Option.some_ne_none _
    · show 1 ≤ ((List.finRange m).map Fin.succ).length
      rw [length_map, length_finRange]
      exact hm
    · rcases hcounted key hkey with rfl | rfl
      · exact Finset.mem_singleton_self _
      · rw [lookup_loaded_self] at hlook
        cases hlook
  · have hexec' := StorageManager.exec_getValue (s := { s₀ with bp := bp }) (r := .ok [7]) rfl hmem
      (Prod.ext hrun' rfl)
    rw [StorageManager.execAll_cons hexec']
    rfl

theorem clearCache_unseen_file :
    ∃ (files : ContainerId → List Page) (s s' : StorageManager bpFrames),
      StorageManager.execAll [.getValue (.newSlot 0 1 0)] (.new {0} files soundDisk) =
        ([.ok (.value [7])], s) ∧
      s.clearCache = (.ok (), s') ∧
      (StorageManager.execAll [.getValue (.newSlot 0 1 0)] s').1 = [.ok (.value [7])] := by
  obtain ⟨files, s, s', hexec, hclear, hfiles, hdisk, hread⟩ :=
    exists_clearedFile (m := 999) (by decide) (by decide) soundDisk (fun _ => rfl)
  refine ⟨files, s, s', hexec, hclear, ?_⟩
  exact (clearCache_unseen {0} files soundDisk [.getValue (.newSlot 0 1 0)] s s'
    (congrArg Prod.snd hexec) hclear hfiles hdisk [.getValue (.newSlot 0 1 0)] (by decide)).trans hread

/-! ### A record that is not in the file -/

/-- A record that was just inserted is lost with the cache. -/
theorem exists_lost {m : ℕ} (hn : m + 2 ≤ 2 ^ 32) (disk : Disk) (hdisk : ∀ k, disk.fault k = none) :
    ∃ s s' : StorageManager (m + 2),
      StorageManager.execAll [.createTable 0, .insertValue 0 [7]] (.new ∅ (fun _ => []) disk) =
        ([.ok .done, .ok (.id (.newSlot 0 1 0))], s) ∧
      s.clearCache = (.ok (), s') ∧
      (StorageManager.execAll [.getValue (.newSlot 0 1 0)] s).1 = [.ok (.value [7])] ∧
      (StorageManager.execAll [.getValue (.newSlot 0 1 0)] s').1 = [.error (.panic .unwrap)] := by
  obtain ⟨rest, hrest, hnew⟩ := exists_bare m disk
  rw [StorageManager.new_empty]
  obtain ⟨p, q, hq, hrecord⟩ := StorageManager.execAll_oneRecord hn hnew (Page.new_blank 0)
  let bp₁ := (BufferPool.new (n := m + 2) (fun _ => none) disk).placed 0 0 (1 :: rest) p
  let bp := bp₁.placed 0 1 rest q
  have hof : bp₁.containerOf 0 = ⟨1, false, []⟩ := hnew.containerOf_placed 0 p
  have hfree : ∀ i, (bp.frames i).cnt = 0 := placed_free (placed_free (fun _ => rfl))
  obtain ⟨hct, hlook⟩ := bp₁.placed_container 0 1 rest q hof
  have hpage : (bp.frames 1).page = q := congrArg BufferFrame.page (setFrame_self _ _ _)
  have hlt : (1 : PageId) < 2 := by decide
  have hmem : (0 : ContainerId) ∈ (insert 0 ∅ : Finset ContainerId) := by decide
  refine ⟨⟨bp, insert 0 ∅, false⟩, _, hrecord, StorageManager.clearCache_eq hfree, ?_, ?_⟩
  · have hrun := run_getVal (r := some [7]) hct hlt hlook (hfree 1) (by
      rw [hpage]
      exact Page.getValue_rep hq 0)
    have hexec := StorageManager.exec_getValue (s := ⟨bp, insert 0 ∅, false⟩) (r := .ok [7]) rfl hmem
      (Prod.ext hrun rfl)
    rw [StorageManager.execAll_cons hexec]
    rfl
  · -- The page has never been written, so the file is too short.
    have hfile : bp.cleared.filePage ⟨0, 1⟩ = none := by
      unfold filePage
      rw [show bp.cleared.containers 0 = some ⟨2, false, []⟩ from hct]
      rfl
    have hlook : bp.cleared.pageToFrame.lookup ⟨0, 1⟩ = none := rfl
    have hrequest : (request (getPageForRead ⟨0, 1⟩) bp.cleared).1 = .error (.panic .unwrap) := by
      rcases request_miss hn (cleared_unused hfree) hlook (hdisk _) with
        ⟨-, -, page, -, hpage, -⟩ | ⟨-, hpanic⟩
      · rw [hfile] at hpage
        cases hpage
      · exact hpanic
    have hct' : bp.cleared.containers 0 = some ⟨2, false, []⟩ := hct
    have hrun : (run memHandler (HeapFile.getVal 0 1 0) bp.cleared).1 = .error (.panic .unwrap) := by
      have hread : run memHandler (HeapProg.getPageForRead ⟨0, 1⟩) bp.cleared =
          (.error (.panic .unwrap), (request (getPageForRead ⟨0, 1⟩) bp.cleared).2) :=
        (run_op memHandler (I := memInterface) (.getPageForRead ⟨0, 1⟩) _).trans
          (Prod.ext hrequest rfl)
      unfold HeapFile.getVal
      rw [run_bind_ok memHandler (BufferPool.run_numPages hct'),
        if_neg (by rw [ge_iff_le, UInt32.not_le]; exact hlt), run_bind_error memHandler hread]
    have hexec := StorageManager.exec_getValue (s := ⟨bp.cleared, insert 0 ∅, false⟩) rfl hmem
      (Prod.ext hrun rfl)
    rw [StorageManager.execAll_cons hexec]
    rfl

theorem clearCache_loses :
    ∃ s s' : StorageManager bpFrames,
      StorageManager.execAll [.createTable 0, .insertValue 0 [7]] (.new ∅ (fun _ => []) soundDisk) =
        ([.ok .done, .ok (.id (.newSlot 0 1 0))], s) ∧
      s.clearCache = (.ok (), s') ∧
      (StorageManager.execAll [.getValue (.newSlot 0 1 0)] s).1 = [.ok (.value [7])] ∧
      (StorageManager.execAll [.getValue (.newSlot 0 1 0)] s').1 = [.error (.panic .unwrap)] :=
  exists_lost (m := 998) (by decide) soundDisk (fun _ => rfl)

end CrustyDB
