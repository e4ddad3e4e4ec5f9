import CrustyDB.Pool.BufferPoolSpec

/-! # The map of the pool and the keys in the frames

The map leads from a page to its frame and the frame names its page: the two are inverse to each
other (`Inverse`).  Between its first and its last step a call has them out of step, so the proofs
follow the map against the keys the frames are going to have (`InverseTo`).

Every call keeps `Inverse`, whether it returns an answer or an error, with two exceptions.
`getPageForRead` and `getPageForWrite` enter the page into the map before they read it, and when
the read fails they return with the entry still there and the frame without the key
(`fetch_inverse`).  `flushAllAndReset` clears one frame after the other and empties the map at the
end; when it fails to write a page, the frames before it are cleared and the map is not.
Whether this happens can be told from the state before the call and the disk (`Unreadable`,
`FailsAt`).  `inverse_iff_no_derailment` says that in a run the map and the keys stay inverse as
long as it does not happen, and no longer. -/

namespace CrustyDB

open Stateful List Function AList

/-! ### Runs -/

/-- A call as it returned: with an answer or with an error. -/
structure Event (n : ℕ) where
  call : Call n
  result : Except MemPoolStatus (Answer n)

/-- The events of a run, and the pool before and after it.  A call that panics or does not return
ends the run before it. -/
inductive Trace {n : ℕ} (s : BufferPool n) : List (Event n) → BufferPool n → Prop
  | start : Trace s [] s
  | ok {es : List (Event n)} {t u : BufferPool n} {c : Call n} {a : Answer n} (h : Trace s es t)
      (hc : c.exec t = .ok a u) : Trace s (es ++ [⟨c, .ok a⟩]) u
  | error {es : List (Event n)} {t u : BufferPool n} {c : Call n} {e : MemPoolStatus}
      (h : Trace s es t) (hc : c.exec t = .error (.status e) u) : Trace s (es ++ [⟨c, .error e⟩]) u

namespace BufferPool

variable {n : ℕ}

/-! ### Inverse maps -/

/-- The map leads to the frame `i` exactly from the page that `want i` names. -/
def InverseTo (want : Fin n → Option ContainerPageId)
    (m : AList (fun _ : ContainerPageId => Fin n)) : Prop :=
  ∀ key i, m.lookup key = some i ↔ want i = some key

namespace InverseTo

variable {want : Fin n → Option ContainerPageId} {m : AList (fun _ : ContainerPageId => Fin n)}

theorem empty : InverseTo (fun _ : Fin n => none) ∅ := by
  intro key i
  rw [lookup_empty]
  exact ⟨fun h => (by cases h), fun h => (by cases h)⟩

/-- The page of a frame leaves the map. -/
theorem erase (h : InverseTo want m) {i : Fin n} {old : ContainerPageId} (hold : want i = some old) :
    InverseTo (Function.update want i none) (m.erase old) := by
  intro key j
  have hi := (h old i).mpr hold
  by_cases hj : j = i
  · subst hj
    rw [update_self]
    refine ⟨fun hlook => ?_, fun hnone => (by cases hnone)⟩
    by_cases hkey : key = old
    · rw [hkey, lookup_erase] at hlook
      cases hlook
    · rw [lookup_erase_ne hkey, h, hold] at hlook
      exact absurd (Option.some.inj hlook).symm hkey
  · rw [update_of_ne hj, ← h]
    by_cases hkey : key = old
    · rw [hkey, lookup_erase, hi]
      exact ⟨fun hnone => (by cases hnone), fun heq => absurd (Option.some.inj heq).symm hj⟩
    · rw [lookup_erase_ne hkey]

/-- A page that is not in the map is entered for a frame that has none. -/
theorem insert (h : InverseTo want m) {i : Fin n} {key : ContainerPageId} (hi : want i = none)
    (hkey : m.lookup key = none) :
    InverseTo (Function.update want i (some key)) (m.insert key i) := by
  intro key' j
  by_cases hk : key' = key
  · subst hk
    rw [lookup_insert]
    by_cases hj : j = i
    · subst hj
      rw [update_self]
      exact ⟨fun _ => rfl, fun _ => rfl⟩
    · rw [update_of_ne hj, ← h, hkey]
      exact ⟨fun heq => absurd (Option.some.inj heq).symm hj, fun hnone => (by cases hnone)⟩
  · rw [lookup_insert_ne hk, h]
    by_cases hj : j = i
    · subst hj
      rw [update_self, hi]
      exact ⟨fun hnone => (by cases hnone), fun heq => absurd (Option.some.inj heq).symm hk⟩
    · rw [update_of_ne hj]

theorem congr {want' : Fin n → Option ContainerPageId} (h : InverseTo want m)
    (heq : ∀ i, want' i = want i) : InverseTo want' m := by
  have : want' = want := funext heq
  rwa [this]

end InverseTo

/-- A page is mapped to a frame exactly when the frame holds its key, and no two pages are mapped
to one frame. -/
structure Inverse (s : BufferPool n) : Prop where
  iff : ∀ key i, s.pageToFrame.lookup key = some i ↔ (s.frames i).key = some key
  injective : ∀ key key' i, s.pageToFrame.lookup key = some i → s.pageToFrame.lookup key' = some i →
    key = key'

/-- The keys of the frames. -/
def keys (s : BufferPool n) : Fin n → Option ContainerPageId := fun i => (s.frames i).key

variable {s : BufferPool n}

theorem inverse_iff : Inverse s ↔ InverseTo s.keys s.pageToFrame := by
  refine ⟨fun h => h.iff, fun h => ⟨h, fun key key' i hkey hkey' => ?_⟩⟩
  rw [h] at hkey hkey'
  exact Option.some.inj (hkey.symm.trans hkey')

theorem Inverse.of_same {t : BufferPool n} (h : Inverse s) (hst : SameTable s t) : Inverse t := by
  rw [inverse_iff] at h ⊢
  rw [hst.map]
  exact h.congr hst.key

theorem inverse_new (containers : ContainerId → Option Container) (disk : Disk) :
    Inverse (new (n := n) containers disk) := inverse_iff.mpr InverseTo.empty

/-! ### The steps that change the map -/

section Steps

variable {s : BufferPool n} {E : Stop → BufferPool n → Prop} {want : Fin n → Option ContainerPageId}

/-- Nothing but the map has changed. -/
structure OnlyMap (s t : BufferPool n) : Prop where
  frames : t.frames = s.frames
  hints : t.evictionHints = s.evictionHints
  containers : t.containers = s.containers

variable {i : Fin n} {key : ContainerPageId}

/-- The page of a frame leaves the map. -/
theorem removeOldMapping_sat (hinv : InverseTo want s.pageToFrame) (hi : want i = (s.frames i).key) :
    Sat (removeOldMapping i) s
      (fun _ t => OnlyMap s t ∧ InverseTo (Function.update want i none) t.pageToFrame) E := by
  unfold removeOldMapping
  refine Sat.bind (Sat.get ?_)
  cases hk : (s.frames i).key with
  | none =>
    rw [hk] at hi
    refine Sat.pure ⟨⟨rfl, rfl, rfl⟩, ?_⟩
    rw [← hi, update_eq_self]
    exact hinv
  | some old =>
    rw [hk] at hi
    have hmap := (hinv old i).mpr hi
    dsimp only
    rw [hmap]
    exact ⟨⟨rfl, rfl, rfl⟩, hinv.erase hi⟩

/-- A page is entered into the map. -/
theorem insertMapping_sat (hpanic : ∀ t, E .panic t) (hinv : InverseTo want s.pageToFrame)
    (hi : want i = none) : Sat (insertMapping key i) s
      (fun _ t => OnlyMap s t ∧ InverseTo (Function.update want i (some key)) t.pageToFrame) E := by
  unfold insertMapping
  refine Sat.bind (Sat.get ?_)
  cases hk : s.pageToFrame.lookup key with
  | some j => exact Sat.throw (hpanic _)
  | none => exact ⟨⟨rfl, rfl, rfl⟩, hinv.insert hi hk⟩

theorem frameId_eq (hn : n ≤ 2 ^ 32) (i : Fin n) : frameId i = i :=
  Fin.ext (Nat.mod_eq_of_lt (i.isLt.trans_le hn))

theorem InverseTo.keys_of_eq {t : BufferPool n}
    (h : InverseTo (Function.update s.keys i (some key)) t.pageToFrame)
    (hi : (t.frames i).key = some key) (hne : ∀ j, j ≠ i → (t.frames j).key = (s.frames j).key) :
    Inverse t := by
  refine inverse_iff.mpr (h.congr (fun j => ?_))
  by_cases hj : j = i
  · subst hj
    rw [update_self]
    exact hi
  · rw [update_of_ne hj]
    exact hne j hj

/-- A new page. -/
theorem allocate_inverse (hn : n ≤ 2 ^ 32) (hs : Inverse s) (c : ContainerId) (i : Fin n) :
    Sat (allocate c i) s (fun _ t => Inverse t) (fun e _ => e = .panic) := by
  unfold allocate
  refine Sat.bind ((removeOldMapping_sat (inverse_iff.mp hs) rfl).mono ?_ (fun _ _ h => h))
  rintro _ t ⟨hst, ht⟩
  refine Sat.bind (.of_ok (incPageCount_eq t c 1) ?_)
  rw [frameId_eq hn]
  refine Sat.bind ((insertMapping_sat (fun _ => rfl) (s := t.setContainer c _) ht
    (update_self ..)).mono ?_ (fun _ _ h => h))
  rintro _ u ⟨htu, hu⟩
  rw [update_idem] at hu
  refine Sat.bind (Sat.modify (Sat.pure ?_))
  refine InverseTo.keys_of_eq hu ?_ (fun j hj => ?_)
  · rw [setFrame_self]
    rfl
  · rw [setFrame_ne _ _ _ hj, htu.frames, setContainer_frames, hst.frames]

/-- A page that is read: the map and the keys are inverse if the read succeeds, and are not if it
fails. -/
theorem fetch_inverse (hn : n ≤ 2 ^ 32) (hs : Inverse s) {finish : BufferFrame → BufferFrame}
    (hfinish : ∀ fr, (finish fr).key = fr.key) (hkey : s.pageToFrame.lookup key = none) (i : Fin n) :
    Sat (fetch finish key i) s (fun _ t => Inverse t)
      (fun e t => e = .panic ∨ IsFileError e ∧ ¬ Inverse t) := by
  unfold fetch
  refine Sat.bind ((removeOldMapping_sat (inverse_iff.mp hs) rfl).mono ?_ (fun _ _ h => h))
  rintro _ t ⟨hst, ht⟩
  rw [frameId_eq hn]
  refine Sat.bind ((insertMapping_sat (fun _ => Or.inl rfl) ht (update_self ..)).mono ?_
    (fun _ _ h => h))
  rintro _ u ⟨htu, hu⟩
  rw [update_idem] at hu
  have hframes : u.frames = s.frames := htu.frames.trans hst.frames
  refine Sat.bind ((readPage_sameTable key i u).mono ?_ ?_)
  · intro _ v hv
    refine Sat.bind (Sat.modify (Sat.bind (Sat.modify (Sat.pure ?_))))
    rw [← hv.map] at hu
    refine InverseTo.keys_of_eq hu ?_ (fun j hj => ?_)
    · rw [setFrame_self, hfinish, setFrame_self]
    · rw [setFrame_ne _ _ _ hj, setFrame_ne _ _ _ hj, hv.key, hframes]
  · rintro e v ⟨hv, hfile⟩
    refine Or.inr ⟨hfile, fun hinv => ?_⟩
    -- the page is in the map, but the frame still has the key it had before
    have hmap : v.pageToFrame.lookup key = some i := by
      rw [hv.map, hu, update_self]
    have hframe := (hinv.iff key i).mp hmap
    rw [hv.key, hframes, ← hs.iff, hkey] at hframe
    cases hframe

/-! ### Several pages at once -/

theorem removeOldMappings_sat (victims : List (Fin n)) (hnd : victims.Nodup)
    (hinv : InverseTo want s.pageToFrame) (hwant : ∀ i ∈ victims, want i = (s.frames i).key) :
    Sat (victims.forM removeOldMapping) s (fun _ t => OnlyMap s t ∧
      InverseTo (fun i => if i ∈ victims then none else want i) t.pageToFrame) E := by
  have hround : ∀ done : List (Fin n), ∀ i, i ∉ done →
      Function.update (fun j => if j ∈ done then none else want j) i none =
        fun j => if j ∈ done ++ [i] then none else want j := by
    intro done i _
    funext j
    by_cases hj : j = i
    · subst hj
      rw [update_self, if_pos (mem_append_right done (mem_singleton.mpr rfl))]
    · rw [update_of_ne hj]
      simp only [mem_append, mem_singleton, hj, or_false]
  refine Sat.forM_done (I := fun done t => OnlyMap s t ∧
    InverseTo (fun i => if i ∈ done then none else want i) t.pageToFrame) victims
    ⟨⟨rfl, rfl, rfl⟩, hinv.congr (fun i => if_neg not_mem_nil)⟩ ?_
  rintro done i rest rfl t ⟨hst, ht⟩
  have hi : i ∉ done := fun hmem => by
    have hdis := disjoint_of_nodup_append hnd hmem
    exact hdis mem_cons_self
  have hkey : (if i ∈ done then none else want i) = (t.frames i).key := by
    rw [if_neg hi, hst.frames]
    exact hwant i (mem_append_right done mem_cons_self)
  refine (removeOldMapping_sat ht hkey).mono ?_ (fun _ _ h => h)
  rintro _ u ⟨htu, hu⟩
  rw [hround done i hi] at hu
  exact ⟨⟨htu.frames.trans hst.frames, htu.hints.trans hst.hints,
    htu.containers.trans hst.containers⟩, hu⟩

/-- The frames of a list get the keys that stand beside them. -/
def assign : List (Fin n × ContainerPageId) → (Fin n → Option ContainerPageId) →
    Fin n → Option ContainerPageId
  | [], want => want
  | p :: ps, want => assign ps (Function.update want p.1 (some p.2))

/-- Only the other frames keep what they had. -/
theorem assign_congr {ps : List (Fin n × ContainerPageId)}
    {want want' : Fin n → Option ContainerPageId}
    (h : ∀ i, i ∉ ps.map Prod.fst → want i = want' i) : assign ps want = assign ps want' := by
  induction ps generalizing want want' with
  | nil => exact funext (fun i => h i not_mem_nil)
  | cons p ps ih =>
    refine ih (fun i hi => ?_)
    by_cases hp : i = p.1
    · rw [hp, update_self, update_self]
    · rw [update_of_ne hp, update_of_ne hp]
      refine h i ?_
      rw [map_cons, mem_cons, not_or]
      exact ⟨hp, hi⟩

theorem insertMappings_sat (hn : n ≤ 2 ^ 32) (key : ℕ → ContainerPageId) (vs : List (Fin n × ℕ))
    (hnd : (vs.map Prod.fst).Nodup) (hpanic : ∀ t, E .panic t) {s : BufferPool n}
    {want : Fin n → Option ContainerPageId} (hinv : InverseTo want s.pageToFrame)
    (hwant : ∀ i ∈ vs.map Prod.fst, want i = none) :
    Sat (vs.forM fun v => insertMapping (key v.2) (frameId v.1)) s (fun _ t => OnlyMap s t ∧
      InverseTo (assign (vs.map (fun v => (v.1, key v.2))) want) t.pageToFrame) E := by
  induction vs generalizing s want with
  | nil => exact ⟨⟨rfl, rfl, rfl⟩, hinv⟩
  | cons v vs ih =>
    rw [map_cons, nodup_cons] at hnd
    refine Sat.bind ?_
    show Sat (insertMapping (key v.2) (frameId v.1)) s _ E
    rw [frameId_eq hn]
    refine (insertMapping_sat hpanic hinv (hwant v.1 mem_cons_self)).mono ?_
      (fun _ _ h => h)
    rintro _ t ⟨hst, ht⟩
    refine (ih hnd.2 ht (fun i hi => ?_)).mono ?_ (fun _ _ h => h)
    · have hiv : i ≠ v.1 := fun heq => hnd.1 (heq ▸ hi)
      rw [update_of_ne hiv]
      exact hwant i (mem_cons_of_mem _ hi)
    · rintro _ u ⟨htu, hu⟩
      exact ⟨⟨htu.frames.trans hst.frames, htu.hints.trans hst.hints,
        htu.containers.trans hst.containers⟩, hu⟩

theorem holdNewPages_sat (key : ℕ → ContainerPageId) (vs : List (Fin n × ℕ)) (s : BufferPool n) :
    Sat (vs.forM fun v => onFrame v.1 (holdNewPage (key v.2))) s (fun _ t =>
      t.pageToFrame = s.pageToFrame ∧ t.keys = assign (vs.map (fun v => (v.1, key v.2))) s.keys) E := by
  induction vs generalizing s with
  | nil => exact ⟨rfl, rfl⟩
  | cons v vs ih =>
    refine Sat.bind (Sat.modify ?_)
    refine (ih (s.setFrame v.1 (holdNewPage (key v.2) (s.frames v.1)))).mono ?_ (fun _ _ h => h)
    rintro _ t ⟨hmap, hkeys⟩
    refine ⟨hmap, hkeys.trans (congrArg (assign _) (funext (fun i => ?_)))⟩
    show ((s.setFrame v.1 (holdNewPage (key v.2) (s.frames v.1))).frames i).key = _
    by_cases hi : i = v.1
    · rw [hi, setFrame_self, update_self]
      rfl
    · rw [setFrame_ne _ _ _ hi, update_of_ne hi]
      rfl

theorem allocateAll_inverse (hn : n ≤ 2 ^ 32) (hs : Inverse s) (c : ContainerId) (numPages : ℕ)
    {victims : List (Fin n)} (hnd : victims.Nodup) (hlen : victims.length ≤ numPages) :
    Sat (allocateAll c numPages victims) s (fun _ t => Inverse t) (fun e _ => e = .panic) := by
  have hfst : victims.zipIdx.map Prod.fst = victims := zipIdx_map_fst 0 victims
  unfold allocateAll
  refine Sat.bind ((removeOldMappings_sat victims hnd (inverse_iff.mp hs) (fun _ _ => rfl)).mono ?_
    (fun _ _ h => h))
  rintro _ t ⟨hst, ht⟩
  refine Sat.bind (.of_ok (incPageCount_eq t c numPages) ?_)
  rw [take_of_length_le (by rw [length_zipIdx]; exact hlen)]
  let key : ℕ → ContainerPageId := fun i => ⟨c, (t.containerOf c).pageCount + UInt32.ofNat i⟩
  refine Sat.bind ((insertMappings_sat hn key victims.zipIdx (by rw [hfst]; exact hnd)
    (fun _ => rfl) (s := t.setContainer c _) ht (fun i hi => ?_)).mono ?_ (fun _ _ h => h))
  · rw [hfst] at hi
    exact if_pos hi
  rintro _ u ⟨htu, hu⟩
  refine Sat.bind ((holdNewPages_sat key victims.zipIdx u).mono ?_ (fun _ _ h => h))
  rintro _ v ⟨hmap, hkeys⟩
  refine inverse_iff.mpr ?_
  rw [hkeys, hmap]
  have hframes : u.keys = s.keys := by
    funext i
    show (u.frames i).key = (s.frames i).key
    rw [htu.frames, setContainer_frames, hst.frames]
  have hassign : assign (victims.zipIdx.map (fun v => (v.1, key v.2))) u.keys =
      assign (victims.zipIdx.map (fun v => (v.1, key v.2)))
        (fun i => if i ∈ victims then none else s.keys i) := by
    refine assign_congr (fun i hi => ?_)
    rw [map_map, show (Prod.fst ∘ fun v : Fin n × ℕ => (v.1, key v.2)) = Prod.fst from rfl,
      hfst] at hi
    rw [if_neg hi, hframes]
  rw [hassign]
  exact hu

end Steps

/-! ### The calls -/

section Calls

variable {s : BufferPool n}

/-- The map and the keys are inverse when the function returns, also when it returns an error. -/
def Keeps {α : Type} (x : PoolCall n α) (s : BufferPool n) : Prop :=
  Sat x s (fun _ t => Inverse t) (Returned fun _ t => Inverse t)

theorem Keeps.of_same {α : Type} {x : PoolCall n α} (hs : Inverse s)
    (h : Sat x s (fun _ t => SameTable s t) (Returned fun _ t => SameTable s t)) : Keeps x s :=
  h.mono (fun _ _ ht => hs.of_same ht) (fun _ _ ht st hst => hs.of_same (ht st hst))

theorem createNewPageForWrite_keeps (hn : n ≤ 2 ^ 32) (hs : Inverse s) (c : ContainerId) :
    Keeps (createNewPageForWrite c) s := by
  refine createNewPageForWrite_sat (fun _ => returned_status (hs.of_same ⟨rfl, fun _ => rfl⟩))
    (fun before i rest e t _ _ hw => ?_) (fun before i rest t _ _ hw => ?_)
  · have hsame := ((writeVictim_sameTable i (s.latched i rest)).error hw).1
    exact fun st hst => hs.of_same (((sameTable_latched s i rest).trans hsame).dropGuards [i])
  · have hsame := (writeVictim_sameTable i (s.latched i rest)).ok hw
    have ht := hs.of_same ((sameTable_latched s i rest).trans hsame)
    refine (allocate_inverse hn ht c i).mono (fun _ _ h => h) (fun e u he => ?_)
    rw [he]
    exact returned_panic _

theorem sameTable_latchedAll (s : BufferPool n) (is rest : List (Fin n)) :
    SameTable s (s.latchedAll is rest) := by
  refine ⟨rfl, fun j => ?_⟩
  show (if j ∈ is then { s.frames j with cnt := -1 } else s.frames j).key = _
  split_ifs <;> rfl

theorem createNewPagesForWrite_keeps (hn : n ≤ 2 ^ 32) (hs : Inverse s) (c : ContainerId)
    (numPages : ℕ) : Keeps (createNewPagesForWrite c numPages) s := by
  unfold createNewPagesForWrite
  split_ifs with hzero
  · exact Sat.throw (returned_panic s)
  refine Sat.bind (chooseVictims_sat (Nat.pos_of_ne_zero hzero) (fun victims rest hch hlen _ => ?_))
  have hlatched := sameTable_latchedAll s victims rest
  split_ifs with hempty
  · exact Sat.throw (returned_status (hs.of_same hlatched))
  refine dropOnError_sat (Sat.bind ?_)
  have hwrite : Sat (victims.forM writeVictimToDiskIfDirty) (s.latchedAll victims rest)
      (fun _ t => SameTable s t) (fun e t => SameTable s t) := by
    refine Sat.forM victims hlatched (fun i _ t ht => ?_)
    exact (writeVictim_sameTable i t).mono (fun _ u hu => ht.trans hu)
      (fun _ u hu => ht.trans hu.1)
  refine hwrite.mono (fun _ t ht => ?_) (fun e t ht st _ => hs.of_same (ht.dropGuards victims))
  refine (allocateAll_inverse hn (hs.of_same ht) c numPages hch.nodup hlen).mono (fun _ _ h => h)
    (fun e u he => ?_)
  rw [he]
  exact returned_panic _

theorem grantLatch_sameTable {try_ : BufferFrame → Option BufferFrame}
    (htry : ∀ fr fr', try_ fr = some fr' → fr'.key = fr.key) (denied : MemPoolStatus) (i : Fin n)
    (s : BufferPool n) : Sat (grantLatch try_ denied i) s (fun _ t => SameTable s t)
      (fun e t => e = .status denied ∧ SameTable s t) := by
  unfold grantLatch
  refine Sat.bind (Sat.get ?_)
  cases hfr : try_ (s.frames i) with
  | none => exact Sat.throw ⟨rfl, SameTable.refl s⟩
  | some fr =>
    refine Sat.bind (Sat.modify (Sat.pure ?_))
    exact (SameTable.refl s).setFrame (htry _ _ hfr)

/-- A request for a page keeps the map and the keys inverse unless the page cannot be read. -/
theorem getPage_inverse (hn : n ≤ 2 ^ 32) (hs : Inverse s)
    {try_ : BufferFrame → Option BufferFrame} {finish : BufferFrame → BufferFrame}
    (htry : ∀ fr fr', try_ fr = some fr' → fr'.key = fr.key)
    (hfinish : ∀ fr, (finish fr).key = fr.key) {denied : MemPoolStatus}
    (hdenied : ∀ msg, denied ≠ .baseFileError msg) (key : ContainerPageId) :
    Sat (getPage (grantLatch try_ denied) finish key) s (fun _ t => Inverse t)
      (Returned fun st t => Inverse t ↔ ∀ msg, st ≠ .baseFileError msg) := by
  refine getPage_sat returned_panic (fun i _ => ?_) (fun _ _ => ?_)
    (fun before i rest t hkey _ _ hw _ => ?_)
  · refine (grantLatch_sameTable htry denied i s).mono (fun _ t ht => hs.of_same ht) ?_
    rintro e t ⟨rfl, ht⟩
    exact returned_status (iff_of_true (hs.of_same ht) hdenied)
  · have hsame : SameTable s { s with evictionHints := [] } := ⟨rfl, fun _ => rfl⟩
    exact returned_status (iff_of_true (hs.of_same hsame) (fun msg h => by cases h))
  · have hsame := (sameTable_latched s i rest).trans
      ((writeVictim_sameTable i (s.latched i rest)).ok hw)
    have hkey' : t.pageToFrame.lookup key = none := by
      rw [hsame.map]
      exact hkey
    refine (fetch_inverse hn (hs.of_same hsame) hfinish hkey' i).mono (fun _ _ h => h) ?_
    rintro e u (rfl | ⟨⟨msg, rfl⟩, hu⟩)
    · exact returned_panic _
    · refine returned_status (iff_of_false (fun hinv => hu ?_) (fun h => h msg rfl))
      have hback : SameTable (u.dropGuards [i]) u :=
        ⟨rfl, fun j => (((SameTable.refl u).dropGuards [i]).key j).symm⟩
      exact hinv.of_same hback

theorem getPageForWrite_inverse (hn : n ≤ 2 ^ 32) (hs : Inverse s) (key : ContainerPageId) :
    Sat (getPageForWrite key) s (fun _ t => Inverse t)
      (Returned fun st t => Inverse t ↔ ∀ msg, st ≠ .baseFileError msg) := by
  unfold getPageForWrite
  have hdenied : ∀ msg, MemPoolStatus.frameWriteLatchGrantFailed ≠ .baseFileError msg := nofun
  refine getPage_inverse hn hs (BufferFrame.tryWrite_key true) ?_ hdenied key
  exact fun _ => rfl

theorem getPageForRead_inverse (hn : n ≤ 2 ^ 32) (hs : Inverse s) (key : ContainerPageId) :
    Sat (getPageForRead key) s (fun _ t => Inverse t)
      (Returned fun st t => Inverse t ↔ ∀ msg, st ≠ .baseFileError msg) := by
  unfold getPageForRead
  have hdenied : ∀ msg, MemPoolStatus.frameReadLatchGrantFailed ≠ .baseFileError msg := nofun
  refine getPage_inverse hn hs BufferFrame.tryRead_key ?_ hdenied key
  exact fun _ => rfl

/-- `reset` and `flushAllAndReset` clear frames while the map is still full. -/
structure Clearing (s t : BufferPool n) : Prop where
  map : t.pageToFrame = s.pageToFrame
  key : ∀ i, (t.frames i).key = (s.frames i).key ∨ (t.frames i).key = none

variable {s t : BufferPool n}

theorem Clearing.same {u : BufferPool n} (h : Clearing s t) (htu : SameTable t u) : Clearing s u :=
  ⟨htu.map.trans h.map, fun i => by rw [htu.key]; exact h.key i⟩

theorem Clearing.clear (h : Clearing s t) (i : Fin n) :
    Clearing s (t.setFrame i (t.frames i).clear) := by
  refine ⟨h.map, fun j => ?_⟩
  by_cases hj : j = i
  · subst hj
    rw [setFrame_self]
    exact Or.inr rfl
  · rw [setFrame_ne _ _ _ hj]
    exact h.key j

/-- The map and the keys are inverse when nothing has been cleared, and only then. -/
theorem Clearing.inverse_iff (hs : Inverse s) (h : Clearing s t) :
    Inverse t ↔ ∀ i, (s.frames i).key ≠ none → (t.frames i).key ≠ none := by
  constructor
  · intro ht i hi
    obtain ⟨key, hkey⟩ := Option.ne_none_iff_exists'.mp hi
    have hmap := (hs.iff key i).mpr hkey
    rw [← h.map, ht.iff] at hmap
    rw [hmap]
    exact Option.some_ne_none key
  · intro hall
    refine hs.of_same ⟨h.map, fun i => ?_⟩
    rcases h.key i with heq | hnone
    · exact heq
    · by_contra hne
      rw [hnone] at hne
      exact hall i (Ne.symm hne) hnone

section Loops

variable {x : Fin n → PoolCall n Unit} {E : Stop → BufferPool n → Prop} (hblocks : ∀ t, E .blocks t)
include hblocks

/-- A loop that clears every frame and keeps `P` on the way; `x` is what is done to a frame
before. -/
theorem forFrames_sat {P : BufferPool n → Prop} (hs : P s) (hx : ∀ i t, P t → Sat (x i) t
      (fun _ u => P (u.setFrame i (u.frames i).clear) ∧ SameTable t u) E) :
    Sat (forFrames fun i => do x i; onFrame i .clear) s
      (fun _ t => P t ∧ ∀ i, (t.frames i).key = none) E := by
  refine (Sat.forM_done (I := fun done t => P t ∧ ∀ i ∈ done, (t.frames i).key = none)
    (List.finRange n) ⟨hs, fun i hi => absurd hi not_mem_nil⟩ ?_).mono
    (fun _ t ht => ⟨ht.1, fun i => ht.2 i (mem_finRange i)⟩) (fun _ _ h => h)
  rintro done i rest _ t ⟨ht, hdone⟩
  refine Sat.bind (Sat.get ?_)
  split_ifs with hcnt
  · refine Sat.bind ((hx i t ht).mono (fun _ u hu => ?_) (fun _ _ h => h))
    refine Sat.modify ⟨hu.1, fun j hj => ?_⟩
    by_cases hji : j = i
    · rw [hji, setFrame_self]
      rfl
    · rw [setFrame_ne _ _ _ hji, hu.2.key]
      rcases mem_append.mp hj with hj | hj
      · exact hdone j hj
      · exact absurd (mem_singleton.mp hj) hji
  · exact Sat.throw (hblocks t)

theorem forFrames_clear (hx : ∀ i t, Clearing s t → Sat (x i) t (fun _ u => SameTable t u) E) :
    Sat (forFrames fun i => do x i; onFrame i .clear) s (fun _ t => ∀ i, (t.frames i).key = none) E := by
  refine (forFrames_sat (P := Clearing s) hblocks ⟨rfl, fun _ => Or.inl rfl⟩
    (fun i t hst => ?_)).mono (fun _ _ h => h.2) (fun _ _ h => h)
  exact (hx i t hst).mono (fun _ u hu => ⟨(hst.same hu).clear i, hu⟩) (fun _ _ h => h)

end Loops

theorem forgetPages_inverse (hs : ∀ i, (s.frames i).key = none) :
    Sat forgetPages s (fun _ t => Inverse t) (Returned fun _ _ => False) := by
  refine Sat.modify (inverse_iff.mpr ?_)
  exact InverseTo.empty.congr hs

theorem reset_keeps (s : BufferPool n) : Keeps reset s := by
  have hloop : Sat (forFrames fun i => do (pure () : PoolCall n Unit); onFrame i .clear) s
      (fun _ t => ∀ i, (t.frames i).key = none) (Returned fun _ t => Inverse t) :=
    forFrames_clear (x := fun _ => pure ()) returned_blocks
      (fun i t _ => Sat.pure (SameTable.refl t))
  refine Sat.bind (hloop.mono (fun _ t ht => ?_) (fun _ _ h => h))
  exact (forgetPages_inverse ht).mono (fun _ _ h => h) (fun _ _ h st hst => (h st hst).elim)

/-- `flushAllAndReset` keeps the map and the keys inverse unless it returns an error after it has
cleared a frame that held a page. -/
theorem flushAllAndReset_inverse (hs : Inverse s) :
    Sat flushAllAndReset s (fun _ t => Inverse t) (Returned fun st t => (∃ msg, st = .baseFileError msg) ∧
      (Inverse t ↔ ∀ i, (s.frames i).key ≠ none → (t.frames i).key ≠ none)) := by
  have hloop : Sat (forFrames fun i => do writeVictimToDiskIfDirty i; onFrame i .clear) s
      (fun _ t => ∀ i, (t.frames i).key = none)
      (Returned fun st t => (∃ msg, st = .baseFileError msg) ∧
        (Inverse t ↔ ∀ i, (s.frames i).key ≠ none → (t.frames i).key ≠ none)) := by
    refine forFrames_clear returned_blocks (fun i t hst => ?_)
    refine (writeVictim_sameTable i t).mono (fun _ u hu => hu) ?_
    rintro e u ⟨hu, msg, rfl⟩
    exact returned_status ⟨⟨msg, rfl⟩, (hst.same hu).inverse_iff hs⟩
  refine Sat.bind (hloop.mono (fun _ t ht => ?_) (fun _ _ h => h))
  exact (forgetPages_inverse ht).mono (fun _ _ h => h) (fun _ _ h st hst => (h st hst).elim)

theorem flushAll_sameTable (s : BufferPool n) :
    Sat flushAll s (fun _ t => SameTable s t) (Returned fun _ t => SameTable s t) := by
  refine Sat.forM _ (SameTable.refl s) (fun i _ t ht => ?_)
  refine Sat.bind (Sat.get ?_)
  split_ifs
  · exact Sat.throw (returned_blocks t)
  · exact (writeVictim_sameTable i t).mono (fun _ u hu => ht.trans hu)
      (fun _ u hu st _ => ht.trans hu.1)

theorem clearDirtyFlags_sameTable (s : BufferPool n) :
    Sat clearDirtyFlags s (fun _ t => SameTable s t) (Returned fun _ t => SameTable s t) := by
  refine Sat.forM _ (SameTable.refl s) (fun i _ t ht => ?_)
  refine Sat.bind (Sat.get ?_)
  split_ifs
  · exact Sat.modify (ht.setFrame rfl)
  · exact Sat.throw (returned_blocks t)

theorem dropContainer_sameTable (c : ContainerId) (order : List (Fin n)) (s : BufferPool n) :
    Sat (dropContainer c order) s (fun _ t => SameTable s t) (Returned fun _ t => SameTable s t) := by
  unfold dropContainer
  refine Sat.bind (.of_ok (getContainer_eq s c) ?_)
  refine Sat.bind (Sat.modify (Sat.bind (Sat.get ?_)))
  dsimp only
  split_ifs
  · exact ⟨rfl, fun _ => rfl⟩
  · exact Sat.throw (returned_panic _)

theorem stats_same (s : BufferPool n) :
    Sat stats s (fun _ t => t = s) (Returned fun _ _ => False) := by
  refine Sat.forM _ rfl (fun i _ t ht => ?_)
  refine Sat.bind (Sat.get ?_)
  split_ifs
  · exact Sat.throw (returned_blocks t)
  · exact Sat.pure ht

variable {P : BufferPool n → Prop}

/-- A guard is dropped, if somebody has it. -/
theorem dropReadGuard_sat {i : Fin n} (h : 0 < (s.frames i).cnt →
    P (s.setFrame i (s.frames i).releaseShared)) :
    Sat (dropReadGuard i) s (fun _ t => P t) (Returned fun _ _ => False) := by
  refine Sat.bind (Sat.get ?_)
  split_ifs with hcnt
  · exact Sat.modify (h hcnt)
  · exact Sat.throw (returned_panic s)

theorem dropWriteGuard_sat {i : Fin n} {page : Page} (h : (s.frames i).cnt < 0 →
    P (s.setFrame i { (s.frames i).releaseExclusive with page := page })) :
    Sat (dropWriteGuard i page) s (fun _ t => P t) (Returned fun _ _ => False) := by
  refine Sat.bind (Sat.get ?_)
  split_ifs with hcnt
  · exact Sat.modify (h hcnt)
  · exact Sat.throw (returned_panic s)

end Calls

/-! ### Reads and writes that fail -/

section Failures

variable {s : BufferPool n} {i : Fin n} {key : ContainerPageId}

/-- The page is read by the next access. -/
def Readable (s : BufferPool n) (key : ContainerPageId) : Prop :=
  s.disk.fault s.accesses = none ∧ key.pageId.toNat < (s.containerOf key.cId).file.length

theorem removeOldMapping_only (i : Fin n) (s : BufferPool n) :
    Sat (removeOldMapping i) s (fun _ t => ∃ m, t = { s with pageToFrame := m })
      (fun e _ => e = .panic) := by
  unfold removeOldMapping
  refine Sat.bind (Sat.get ?_)
  cases (s.frames i).key with
  | none => exact Sat.pure ⟨s.pageToFrame, rfl⟩
  | some old =>
    dsimp only
    cases s.pageToFrame.lookup old with
    | none => exact Sat.throw rfl
    | some _ => exact ⟨_, rfl⟩

theorem insertMapping_only (key : ContainerPageId) (i : Fin n) (s : BufferPool n) :
    Sat (insertMapping key i) s (fun _ t => ∃ m, t = { s with pageToFrame := m })
      (fun e _ => e = .panic) := by
  unfold insertMapping
  refine Sat.bind (Sat.get ?_)
  cases s.pageToFrame.lookup key with
  | some _ => exact Sat.throw rfl
  | none => exact ⟨_, rfl⟩

theorem fetch_readable (finish : BufferFrame → BufferFrame) (key : ContainerPageId) (i : Fin n)
    (s : BufferPool n) : Sat (fetch finish key i) s (fun _ _ => Readable s key)
      (Returned fun st _ => (∃ msg, st = .baseFileError msg) ∧ ¬ Readable s key) := by
  unfold fetch
  refine Sat.bind ((removeOldMapping_only i s).mono ?_ (fun e _ he => he ▸ returned_panic _))
  rintro _ _ ⟨m, rfl⟩
  refine Sat.bind ((insertMapping_only key (frameId i) _).mono ?_
    (fun e _ he => he ▸ returned_panic _))
  rintro _ _ ⟨m', rfl⟩
  refine Sat.bind (readPage_sat (fun garbage msg hfail => ?_) (fun p hfault hp => ?_))
  · refine returned_status ⟨⟨msg, rfl⟩, fun hread => ?_⟩
    have hnone : (s.containerOf key.cId).file[key.pageId.toNat]? = none := hfail hread.1
    exact absurd (getElem?_eq_none_iff.mp hnone) (Nat.not_le.mpr hread.2)
  · have hsome : (s.containerOf key.cId).file[key.pageId.toNat]? = some p := hp
    obtain ⟨hlt, -⟩ := List.getElem?_eq_some_iff.mp hsome
    exact Sat.bind (Sat.modify (Sat.bind (Sat.modify (Sat.pure ⟨hfault, hlt⟩))))

/-- A page that is not in the pool and cannot be read into the frame that is taken for it: the access
for it fails, which comes after the one for the page in the frame, or the file is too short. -/
def Unreadable (s : BufferPool n) (key : ContainerPageId) : Prop :=
  s.pageToFrame.lookup key = none ∧ ∃ i, s.victim = some i ∧
    (s.disk.fault (s.accesses + [i].countP s.due) ≠ none ∨
      (s.fileAfter i key.cId).length ≤ key.pageId.toNat)

/-- The pool with the victim latched and its page written. -/
theorem readable_iff {rest : List (Fin n)} {t : BufferPool n}
    (hlook : s.pageToFrame.lookup key = none) (hi : s.victim = some i)
    (ht : WrittenBack (s.latched i rest) i t) : Readable t key ↔ ¬ Unreadable s key := by
  have hdue : (s.latched i rest).due i = s.due i := by
    have hfr : (s.latched i rest).frames i = { s.frames i with cnt := -1 } := setFrame_self ..
    exact due_congr (by rw [hfr]) (by rw [hfr]) (fun _ => rfl)
  have hcount : [i].countP (s.latched i rest).due = [i].countP s.due := by
    rw [countP_singleton, countP_singleton, hdue]
  have hfile : (s.latched i rest).fileAfter i key.cId = s.fileAfter i key.cId := by
    have hfr : (s.latched i rest).frames i = { s.frames i with cnt := -1 } := setFrame_self ..
    unfold fileAfter
    rw [hfr, hdue]
    rfl
  have haccesses : t.accesses = s.accesses + [i].countP s.due := by
    rw [ht.accesses, hcount]
    rfl
  have hdisk : t.disk = s.disk := ht.disk
  unfold Readable
  rw [hdisk, haccesses, ht.file, hfile]
  constructor
  · rintro ⟨hfault, hlt⟩ ⟨-, j, hj, hbad⟩
    obtain rfl := Option.some.inj (hi.symm.trans hj)
    rcases hbad with hbad | hbad
    · exact hbad hfault
    · exact absurd hlt (Nat.not_lt.mpr hbad)
  · intro h
    refine ⟨by_contra fun hfault => ?_, by_contra fun hlt => ?_⟩
    · exact h ⟨hlook, i, hi, Or.inl hfault⟩
    · exact h ⟨hlook, i, hi, Or.inr (Nat.not_lt.mp hlt)⟩

/-- A request returns a file error exactly for a page that cannot be read. -/
theorem getPage_readable {try_ : BufferFrame → Option BufferFrame} {denied : MemPoolStatus}
    (hdenied : ∀ msg, denied ≠ .baseFileError msg) (finish : BufferFrame → BufferFrame)
    (key : ContainerPageId) (s : BufferPool n) :
    Sat (getPage (grantLatch try_ denied) finish key) s (fun _ _ => ¬ Unreadable s key)
      (Returned fun st _ => (∀ msg, st ≠ .baseFileError msg) ↔ ¬ Unreadable s key) := by
  refine getPage_sat returned_panic (fun i hi => ?_) (fun hlook hall => ?_)
    (fun before i rest t hlook _ hi hw _ => ?_)
  · have hnot : ¬ Unreadable s key := fun h => by
      rw [h.1] at hi
      cases hi
    unfold grantLatch
    refine Sat.bind (Sat.get ?_)
    cases try_ (s.frames i) with
    | none => exact Sat.throw (returned_status (iff_of_true hdenied hnot))
    | some fr => exact Sat.bind (Sat.modify (Sat.pure hnot))
  · refine returned_status (iff_of_true nofun (fun ⟨_, i, hi, _⟩ => ?_))
    unfold victim at hi
    have hcnt := find?_some hi
    exact hall i (mem_of_find?_eq_some hi) (of_decide_eq_true hcnt)
  · have hiff := readable_iff hlook hi ((writeVictim_written i (s.latched i rest)).ok hw)
    refine (fetch_readable finish key i t).mono (fun _ _ h => hiff.mp h) (fun e u he st hst => ?_)
    obtain ⟨⟨msg, rfl⟩, hnot⟩ := he st hst
    exact iff_of_false (fun h => h msg rfl) (fun h => hnot (hiff.mpr h))

/-- A reset that fails has cleared the frames before the one whose page cannot be written. -/
theorem flushAllAndReset_fails (s : BufferPool n) :
    Sat flushAllAndReset s (fun _ _ => ∀ j, ¬ FailsAt s j) (Returned fun _ t => ∃ j, FailsAt s j ∧
      ∀ i, (t.frames i).key = if i < j then none else (s.frames i).key) := by
  have hloop : Sat (forFrames fun i => do writeVictimToDiskIfDirty i; onFrame i .clear) s
      (fun _ t => Writing s (finRange n) t)
      (Returned fun _ t => ∃ j, FailsAt s j ∧
        ∀ i, (t.frames i).key = if i < j then none else (s.frames i).key) := by
    refine (Sat.forM_done (I := fun done t => Writing s done t ∧
      ∀ i, (t.frames i).key = if i ∈ done then none else (s.frames i).key) (finRange n)
      ⟨.nil s, fun i => (if_neg not_mem_nil).symm⟩ ?_).mono (fun _ t ht => ht.1) (fun _ _ h => h)
    rintro done i rest hall t ⟨ht, hkeys⟩
    obtain ⟨htake, hi⟩ := take_of_finRange hall
    refine Sat.bind (Sat.get ?_)
    split_ifs with hcnt
    · refine Sat.bind (((ht.write hi).and (writeVictim_sameTable i t)).mono
        (fun _ u ⟨hu, hsame⟩ => ?_) (fun e u ⟨⟨hdue, hfault⟩, hsame, _⟩ st _ => ?_))
      · have hmem : i ∈ done ++ [i] := mem_append_right done (mem_singleton_self i)
        refine Sat.modify ⟨hu.setFrame hmem _, fun j => ?_⟩
        by_cases hj : j = i
        · rw [hj, setFrame_self, if_pos hmem]
          rfl
        · rw [setFrame_ne _ _ _ hj, hsame.key, hkeys]
          simp only [mem_append, mem_singleton, hj, or_false]
      · refine ⟨i, ht.failsAt hall hdue hfault, fun j => ?_⟩
        have hmem : j ∈ done ↔ j < i := by
          rw [htake]
          exact mem_take_finRange
        rw [hsame.key, hkeys]
        simp only [hmem]
    · exact Sat.throw (returned_blocks t)
  refine Sat.bind (hloop.mono (fun _ t ht => Sat.modify (fun j hj => ?_)) (fun _ _ h => h))
  exact hj.not_writesOk ( take_prefix _ _) ht.ok

end Failures

/-! ### Runs -/

/-- The calls that put the map and the keys out of step: a request for a page that cannot be read,
and a `flushAllAndReset` that cannot write the page of a frame behind one that holds a page. -/
def Derails (s : BufferPool n) : Call n → Prop
  | .getPageForRead key => Unreadable s key
  | .getPageForWrite key => Unreadable s key
  | .flushAllAndReset => ∃ j, FailsAt s j ∧ ∃ i < j, (s.frames i).key ≠ none
  | _ => False

/-- The map and the keys are inverse after the call exactly when it does not derail them; a call
that does returns a file error. -/
def InverseAfter (c : Call n) (s : BufferPool n) : Prop :=
  Sat c.exec s (fun _ t => Inverse t ∧ ¬ Derails s c)
    (Returned fun st t => (Inverse t ↔ ¬ Derails s c) ∧
      (Derails s c → ∃ msg, st = .baseFileError msg))

theorem inverseAfter_of_keeps {α : Type} {x : PoolCall n α} {f : α → Answer n} {c : Call n}
    (hk : Keeps x s) (hc : c.exec = x >>= fun a => pure (f a)) (hd : ¬ Derails s c) :
    InverseAfter c s := by
  unfold InverseAfter
  rw [hc]
  refine Sat.bind (hk.mono (fun a t ht => Sat.pure ⟨ht, hd⟩) (fun e t ht st hst => ?_))
  exact ⟨iff_of_true (ht st hst) hd, fun h => absurd h hd⟩

theorem inverseAfter_of_get {x : PoolCall n (Fin n)} {c : Call n} {key : ContainerPageId}
    (hx : Sat x s (fun _ t => Inverse t)
      (Returned fun st t => Inverse t ↔ ∀ msg, st ≠ .baseFileError msg))
    (hread : Sat x s (fun _ _ => ¬ Unreadable s key)
      (Returned fun st _ => (∀ msg, st ≠ .baseFileError msg) ↔ ¬ Unreadable s key))
    (hc : c.exec = x >>= fun i => pure (.guard i)) (hd : Derails s c ↔ Unreadable s key) :
    InverseAfter c s := by
  unfold InverseAfter
  rw [hc, hd]
  refine Sat.bind ((hx.and hread).mono (fun i t ht => Sat.pure ht) (fun e t ht st hst => ?_))
  have hiff := ht.2 st hst
  refine ⟨(ht.1 st hst).trans hiff, fun h => ?_⟩
  by_contra hnot
  exact hiff.mp (fun msg hmsg => hnot ⟨msg, hmsg⟩) h

theorem inverseAfter_flushAllAndReset (hs : Inverse s) : InverseAfter .flushAllAndReset s := by
  refine Sat.bind (((flushAllAndReset_inverse hs).and (flushAllAndReset_fails s)).mono
    (fun _ t ht => Sat.pure ⟨ht.1, fun ⟨j, hj, _⟩ => ht.2 j hj⟩) ?_)
  rintro e t ⟨hinv, hfails⟩ st hst
  obtain ⟨hmsg, hiff⟩ := hinv st hst
  obtain ⟨j, hj, hkeys⟩ := hfails st hst
  rw [hiff]
  refine ⟨⟨?_, ?_⟩, fun _ => hmsg⟩
  · rintro h ⟨j', hj', i, hlt, hi⟩
    obtain rfl := hj.unique hj'
    refine h i hi ?_
    rw [hkeys, if_pos hlt]
  · intro h i hi
    rw [hkeys, if_neg (fun hlt => h ⟨j, hj, i, hlt, hi⟩)]
    exact hi

/-- What one call does to the map and the keys. -/
theorem exec_inverseAfter (hn : n ≤ 2 ^ 32) (hs : Inverse s) (c : Call n) : InverseAfter c s := by
  have hpure : ∀ {α : Type} (a : α), Keeps (pure a : PoolCall n α) s := fun a => Sat.pure hs
  have hget : ∀ {α : Type} (f : BufferPool n → α), Keeps (do pure (f (← get)) : PoolCall n α) s :=
    fun f => Sat.bind (Sat.get (hpure _))
  have hdrop : ∀ {x : PoolCall n Unit},
      Sat x s (fun _ t => SameTable s t) (Returned fun _ _ => False) → Keeps x s := fun h =>
    h.mono (fun _ _ ht => hs.of_same ht) (fun _ _ ht st hst => (ht st hst).elim)
  have hsame := SameTable.refl s
  cases c with
  | createContainer c isTemp =>
    refine inverseAfter_of_keeps (x := createContainer c isTemp) (f := fun _ => .done) ?_ rfl id
    refine Sat.modify (hs.of_same ?_)
    cases s.containers c with
    | some ct => exact SameTable.refl s
    | none => exact ⟨rfl, fun _ => rfl⟩
  | dropContainer c order =>
    exact inverseAfter_of_keeps (f := fun _ => .done)
      (.of_same hs (dropContainer_sameTable c order s)) rfl id
  | createNewPageForWrite c =>
    exact inverseAfter_of_keeps (createNewPageForWrite_keeps hn hs c) rfl id
  | createNewPagesForWrite c numPages =>
    exact inverseAfter_of_keeps (createNewPagesForWrite_keeps hn hs c numPages) rfl id
  | isInMem key hint =>
    exact inverseAfter_of_keeps (x := isInMem key hint) (hget _) rfl id
  | getMaxPageId c =>
    exact inverseAfter_of_keeps (x := getMaxPageId c) (hget _) rfl id
  | getPageIdsInMem c =>
    exact inverseAfter_of_keeps (x := getPageIdsInMem c) (hget _) rfl id
  | getPageForWrite key =>
    have hdenied : ∀ msg, MemPoolStatus.frameWriteLatchGrantFailed ≠ .baseFileError msg := nofun
    exact inverseAfter_of_get (getPageForWrite_inverse hn hs key) (getPage_readable hdenied _ key s) rfl
      Iff.rfl
  | getPageForRead key =>
    have hdenied : ∀ msg, MemPoolStatus.frameReadLatchGrantFailed ≠ .baseFileError msg := nofun
    exact inverseAfter_of_get (getPageForRead_inverse hn hs key) (getPage_readable hdenied _ key s) rfl
      Iff.rfl
  | prefetchPage | fastEvict | resetStats =>
    exact inverseAfter_of_keeps (f := fun _ => .done) (hpure ()) rfl id
  | flushAll =>
    exact inverseAfter_of_keeps (f := fun _ => .done) (.of_same hs (flushAll_sameTable s)) rfl id
  | stats =>
    refine inverseAfter_of_keeps (f := fun _ => .done) (hdrop ?_) rfl id
    exact (stats_same s).mono (fun _ t ht => ht ▸ SameTable.refl s) (fun _ _ h => h)
  | reset =>
    exact inverseAfter_of_keeps (f := fun _ => .done) (reset_keeps s) rfl id
  | flushAllAndReset => exact inverseAfter_flushAllAndReset hs
  | clearDirtyFlags =>
    exact inverseAfter_of_keeps (f := fun _ => .done) (.of_same hs (clearDirtyFlags_sameTable s)) rfl id
  | dropReadGuard i =>
    exact inverseAfter_of_keeps (f := fun _ => .done)
      (hdrop (dropReadGuard_sat (fun _ => hsame.setFrame rfl))) rfl id
  | dropWriteGuard i page =>
    exact inverseAfter_of_keeps (f := fun _ => .done)
      (hdrop (dropWriteGuard_sat (fun _ => hsame.setFrame rfl))) rfl id

end BufferPool

namespace Trace

variable {n : ℕ} {s : BufferPool n} {es : List (Event n)} {u : BufferPool n}

/-- The last step of a run. -/
theorem last {ev : Event n} (h : Trace s (es ++ [ev]) u) :
    ∃ t, Trace s es t ∧ ((∃ a, ev.result = .ok a ∧ ev.call.exec t = .ok a u) ∨
      ∃ e, ev.result = .error e ∧ ev.call.exec t = .error (.status e) u) := by
  generalize hes : es ++ [ev] = es' at h
  cases h with
  | start => exact absurd hes (by simp)
  | @ok es₁ t u c a h hc =>
    obtain ⟨rfl, hev⟩ := append_inj' hes rfl
    obtain rfl := singleton_inj.mp hev
    exact ⟨t, h, Or.inl ⟨a, rfl, hc⟩⟩
  | @error es₁ t u c e h hc =>
    obtain ⟨rfl, hev⟩ := append_inj' hes rfl
    obtain rfl := singleton_inj.mp hev
    exact ⟨t, h, Or.inr ⟨e, rfl, hc⟩⟩

/-- The events determine the states. -/
theorem unique {t : BufferPool n} (h : Trace s es t) (h' : Trace s es u) : t = u := by
  induction es using List.reverseRecOn generalizing t u with
  | nil =>
    have hnil : ∀ {v : BufferPool n}, Trace s [] v → v = s := by
      intro v hv
      generalize hes : ([] : List (Event n)) = es at hv
      cases hv with
      | start => rfl
      | ok _ _ => exact absurd hes (by simp)
      | error _ _ => exact absurd hes (by simp)
    rw [hnil h, hnil h']
  | append_singleton es ev ih =>
    obtain ⟨v, hv, hstep⟩ := h.last
    obtain ⟨v', hv', hstep'⟩ := h'.last
    obtain rfl := ih hv hv'
    rcases hstep with ⟨a, hr, hc⟩ | ⟨e, hr, hc⟩
    · rcases hstep' with ⟨a', -, hc'⟩ | ⟨e', -, hc'⟩
      · rw [hc] at hc'
        exact (EStateM.Result.ok.inj hc').2
      · rw [hc] at hc'
        cases hc'
    · rcases hstep' with ⟨a', -, hc'⟩ | ⟨e', -, hc'⟩
      · rw [hc] at hc'
        cases hc'
      · rw [hc] at hc'
        exact (EStateM.Result.error.inj hc').2

/-- The states before the end of a run. -/
theorem of_prefix (h : Trace s es u) {pre : List (Event n)} (hpre : pre <+: es) :
    ∃ t, Trace s pre t := by
  induction h with
  | start =>
    obtain rfl := prefix_nil.mp hpre
    exact ⟨s, .start⟩
  | ok h hc ih =>
    rcases prefix_concat_iff.mp hpre with rfl | hpre
    · exact ⟨_, h.ok hc⟩
    · exact ih hpre
  | error h hc ih =>
    rcases prefix_concat_iff.mp hpre with rfl | hpre
    · exact ⟨_, h.error hc⟩
    · exact ih hpre

/-- From a state where the map and the keys are inverse, a step keeps them so unless it derails
them. -/
theorem step_inverse (hn : n ≤ 2 ^ 32) {ev : Event n} {t : BufferPool n} (h : Trace s es t)
    (h' : Trace s (es ++ [ev]) u) (ht : t.Inverse) : u.Inverse ↔ ¬ t.Derails ev.call := by
  obtain ⟨t', ht', hstep⟩ := h'.last
  obtain rfl := h.unique ht'
  have hafter := BufferPool.exec_inverseAfter hn ht ev.call
  rcases hstep with ⟨a, -, hc⟩ | ⟨e, -, hc⟩
  · exact iff_of_true (hafter.ok hc).1 (hafter.ok hc).2
  · exact (hafter.error hc e rfl).1

end Trace

/-- Every call of the run meets `P` with the state it is made in. -/
def StepsMeet {n : ℕ} (s : BufferPool n) (es : List (Event n)) (P : BufferPool n → Call n → Prop) :
    Prop :=
  ∀ pre ev t, pre ++ [ev] <+: es → Trace s pre t → P t ev.call

namespace StepsMeet

variable {n : ℕ} {s t : BufferPool n} {es : List (Event n)} {ev : Event n}
  {P : BufferPool n → Call n → Prop}

theorem nil : StepsMeet s [] P := fun _ _ _ hpre => absurd (prefix_nil.mp hpre) (by simp)

theorem of_prefix {pre : List (Event n)} (h : StepsMeet s es P) (hpre : pre <+: es) :
    StepsMeet s pre P := fun pre' ev t hpre' => h pre' ev t (hpre'.trans hpre)

theorem snoc (h : StepsMeet s es P) (ht : Trace s es t) (hev : P t ev.call) :
    StepsMeet s (es ++ [ev]) P := by
  intro pre ev' t' hpre ht'
  rcases prefix_concat_iff.mp hpre with heq | hpre
  · obtain ⟨rfl, hev'⟩ := append_inj' heq rfl
    obtain rfl := singleton_inj.mp hev'
    obtain rfl := ht.unique ht'
    exact hev
  · exact h pre ev' t' hpre ht'

end StepsMeet

/-- In a run of a pool the map and the keys of the frames are inverse in every state reached
exactly when no call of the run derails them. -/
theorem inverse_iff_no_derailment {n : ℕ} (hn : n ≤ 2 ^ 32)
    (containers : ContainerId → Option Container) (disk : Disk) (es : List (Event n))
    (s : BufferPool n) (h : Trace (.new containers disk) es s) :
    (∀ pre t, pre <+: es → Trace (.new containers disk) pre t → t.Inverse) ↔
      StepsMeet (.new containers disk) es fun t c => ¬ t.Derails c := by
  constructor
  · intro hall pre ev t hpre ht
    obtain ⟨u, hu⟩ := h.of_prefix hpre
    have htinv := hall pre t ((List.prefix_append pre [ev]).trans hpre) ht
    exact (ht.step_inverse hn hu htinv).mp (hall (pre ++ [ev]) u hpre hu)
  · intro hsteps pre
    induction pre using List.reverseRecOn with
    | nil =>
      intro t _ ht
      obtain rfl := ht.unique .start
      exact BufferPool.inverse_new containers disk
    | append_singleton pre ev ih =>
      intro u hpre hu
      obtain ⟨t, ht, -⟩ := hu.last
      have htinv := ih t ((List.prefix_append pre [ev]).trans hpre) ht
      exact (ht.step_inverse hn hu htinv).mpr (hsteps pre ev t hpre ht)

/-- A disk on which every access succeeds. -/
def soundDisk : Disk := ⟨fun _ => none, fun _ => "Success (os error 0)"⟩

/-- A run in which two pages are created at once, written by a flush, and forgotten. -/
def createTwoAndFlush : List (Event 2) :=
  [⟨.createNewPagesForWrite 3 2, .ok (.guards [0, 1])⟩, ⟨.dropWriteGuard 0 (Page.new 0), .ok .done⟩,
    ⟨.dropWriteGuard 1 (Page.new 1), .ok .done⟩, ⟨.flushAllAndReset, .ok .done⟩]

/-- The second of the two pages is read again, into the first frame. -/
theorem inverse_iff_no_derailment_reread :
    ∃ s, Trace (.new (fun _ => none) soundDisk)
        (createTwoAndFlush ++ [⟨.getPageForRead ⟨3, 1⟩, .ok (.guard 0)⟩]) s ∧
      s.pageToFrame.lookup ⟨3, 1⟩ = some 0 ∧ s.Inverse := by
  have h₀ : Trace (.new (n := 2) (fun _ => none) soundDisk) [] _ := .start
  have h₁ := h₀.ok (c := .createNewPagesForWrite 3 2) (a := .guards [0, 1]) rfl
  have h₂ := h₁.ok (c := .dropWriteGuard 0 (Page.new 0)) (a := .done) rfl
  have h₃ := h₂.ok (c := .dropWriteGuard 1 (Page.new 1)) (a := .done) rfl
  have h₄ := h₃.ok (c := .flushAllAndReset) (a := .done) rfl
  have h₅ := h₄.ok (c := .getPageForRead ⟨3, 1⟩) (a := .guard 0) rfl
  refine ⟨_, h₅, rfl, (inverse_iff_no_derailment (by decide) _ _ _ _ h₅).mpr ?_ _ _
    (List.prefix_refl _) h₅⟩
  refine ((((StepsMeet.nil.snoc h₀ id).snoc h₁ id).snoc h₂ id).snoc h₃ ?_).snoc h₄ ?_
  · rintro ⟨j, hj, -⟩
    exact hj.fault rfl
  · rintro ⟨-, i, hi, hfault | hshort⟩
    · exact hfault rfl
    · obtain rfl : 0 = i := Option.some.inj hi
      exact absurd hshort (by decide)

/-- A disk whose first access fails. -/
def failingDisk : Disk :=
  ⟨fun k => if k = 0 then some Page.zeros else none, fun _ => "Input/output error (os error 5)"⟩

/-- A request for a page that is in the file, on a disk that fails to read it, returns an error and
leaves the page in the map. -/
theorem getPageForRead_failure : ∃ s : BufferPool 1,
    Trace (.new (fun c => if c = 0 then some (.new [Page.new 0]) else none) failingDisk)
      [⟨.getPageForRead ⟨0, 0⟩, .error (.baseFileError "Input/output error (os error 5)")⟩] s ∧
      s.pageToFrame.lookup ⟨0, 0⟩ = some 0 ∧ (s.frames 0).key = none ∧ ¬ s.Inverse := by
  refine ⟨_, Trace.start.error (c := .getPageForRead ⟨0, 0⟩) rfl, rfl, rfl, fun h => ?_⟩
  exact absurd ((h.iff ⟨0, 0⟩ 0).mp rfl) (by decide)

end CrustyDB
