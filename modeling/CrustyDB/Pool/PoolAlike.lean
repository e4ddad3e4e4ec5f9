import CrustyDB.Pool.BufferPool

/-! # The pool does not look into its pages

Two pools that differ only in the bytes of their pages give the same answers and stay alike, for any
relation between pages that every page has to itself and that survives the writing of a page id
(`PageKind`).  There is one theorem for each function of the pool that heap files use, up to
`createNewPageForWrite_alike`, `getPageForWrite_alike` and `getPageForRead_alike`. -/

namespace CrustyDB

open Stateful Function

/-! ### Pools with pages that are alike -/

/-- A relation between pages that the pool keeps. -/
structure PageKind (P : Page → Page → Prop) : Prop where
  refl : ∀ p, P p p
  setPageId : ∀ p q id, P p q → P (p.setPageId id) (q.setPageId id)

structure FrameAlike (P : Page → Page → Prop) (fr gr : BufferFrame) : Prop where
  key : fr.key = gr.key
  isDirty : fr.isDirty = gr.isDirty
  cnt : fr.cnt = gr.cnt
  page : P fr.page gr.page

structure ContainerAlike (P : Page → Page → Prop) (ct du : Container) : Prop where
  pageCount : ct.pageCount = du.pageCount
  isTemp : ct.isTemp = du.isTemp
  file : List.Forall₂ P ct.file du.file

/-- Two pools in the same state but for the bytes of the pages, with disks that will behave alike. -/
structure PoolAlike {n : ℕ} (P : Page → Page → Prop) (s t : BufferPool n) : Prop where
  frames : ∀ i, FrameAlike P (s.frames i) (t.frames i)
  pageToFrame : s.pageToFrame = t.pageToFrame
  evictionHints : s.evictionHints = t.evictionHints
  containers : ∀ c, Option.Rel (ContainerAlike P) (s.containers c) (t.containers c)
  fault : ∀ k, s.disk.fault (s.accesses + k) = t.disk.fault (t.accesses + k)
  osError : ∀ k, s.disk.osError (s.accesses + k) = t.disk.osError (t.accesses + k)

section Files

variable {P : Page → Page → Prop} {l m : List Page}

theorem forall₂_set (h : List.Forall₂ P l m) (i : ℕ) {p q : Page} (hpq : P p q) :
    List.Forall₂ P (l.set i p) (m.set i q) := by
  induction h generalizing i with
  | nil => exact .nil
  | cons hab h ih =>
    cases i with
    | zero => exact .cons hpq h
    | succ i => exact .cons hab (ih i)

theorem forall₂_getElem? (h : List.Forall₂ P l m) (i : ℕ) : Option.Rel P l[i]? m[i]? := by
  induction h generalizing i with
  | nil => exact .none
  | cons hab h ih =>
    cases i with
    | zero => exact .some hab
    | succ i => exact ih i

theorem forall₂_writeAt (hP : PageKind P) (h : List.Forall₂ P l m) (i : ℕ) {p q : Page}
    (hpq : P p q) : List.Forall₂ P (Container.writeAt l i p) (Container.writeAt m i q) := by
  unfold Container.writeAt
  rw [h.length_eq]
  split_ifs
  · exact forall₂_set h i hpq
  · exact List.rel_append (List.rel_append h (List.forall₂_same.mpr (fun p _ => hP.refl p)))
      (.cons hpq .nil)

end Files

namespace PoolAlike

variable {n : ℕ} {P : Page → Page → Prop} {s t : BufferPool n}

open BufferPool

section

variable (h : PoolAlike P s t)
include h

theorem setFrame (i : Fin n) {fr gr : BufferFrame} (hfr : FrameAlike P fr gr) :
    PoolAlike P (s.setFrame i fr) (t.setFrame i gr) := by
  refine ⟨fun j => ?_, h.pageToFrame, h.evictionHints, h.containers, h.fault, h.osError⟩
  show FrameAlike P (Function.update s.frames i fr j) (Function.update t.frames i gr j)
  by_cases hj : j = i
  · rw [hj, update_self, update_self]
    exact hfr
  · rw [update_of_ne hj, update_of_ne hj]
    exact h.frames j

theorem setContainer (c : ContainerId) {ct du : Container}
    (hct : ContainerAlike P ct du) : PoolAlike P (s.setContainer c ct) (t.setContainer c du) := by
  refine ⟨h.frames, h.pageToFrame, h.evictionHints, fun d => ?_, h.fault, h.osError⟩
  show Option.Rel _ (Function.update s.containers c (some ct) d)
    (Function.update t.containers c (some du) d)
  by_cases hd : d = c
  · rw [hd, update_self, update_self]
    exact .some hct
  · rw [update_of_ne hd, update_of_ne hd]
    exact h.containers d

theorem setHints (hints : List (Fin n)) :
    PoolAlike P { s with evictionHints := hints } { t with evictionHints := hints } :=
  ⟨h.frames, h.pageToFrame, rfl, h.containers, h.fault, h.osError⟩

theorem setMap (m : AList (fun _ : ContainerPageId => Fin n)) :
    PoolAlike P { s with pageToFrame := m } { t with pageToFrame := m } :=
  ⟨h.frames, rfl, h.evictionHints, h.containers, h.fault, h.osError⟩

theorem dropGuards (is : List (Fin n)) :
    PoolAlike P (s.dropGuards is) (t.dropGuards is) := by
  refine ⟨fun i => ?_, h.pageToFrame, h.evictionHints, h.containers, h.fault, h.osError⟩
  have hi := h.frames i
  show FrameAlike P (if i ∈ is then (s.frames i).releaseExclusive else s.frames i)
    (if i ∈ is then (t.frames i).releaseExclusive else t.frames i)
  split_ifs
  · exact ⟨hi.key, hi.isDirty, rfl, hi.page⟩
  · exact hi

/-! ### The calls of the pool -/

theorem onFrame_alike (i : Fin n) {f : BufferFrame → BufferFrame}
    (hf : ∀ fr gr, FrameAlike P fr gr → FrameAlike P (f fr) (f gr)) :
    Alike Eq (PoolAlike P) (onFrame i f) (onFrame i f) s t :=
  Alike.modify (h.setFrame i (hf _ _ (h.frames i)))

theorem getContainer_alike (c : ContainerId) :
    Alike (ContainerAlike P) (PoolAlike P) (getContainer c) (getContainer c) s t := by
  unfold getContainer
  refine Alike.bind (Alike.get h) (fun a b s' t' hab hst => ?_)
  have hc := hab.containers c
  have hnew : ContainerAlike P (.new []) (.new []) := ⟨rfl, rfl, .nil⟩
  cases ha : a.containers c with
  | none =>
    cases hb : b.containers c with
    | none =>
      exact Alike.bind (Alike.modify (hst.setContainer c hnew))
        (fun _ _ _ _ _ hst' => Alike.pure hnew hst')
    | some du =>
      rw [ha, hb] at hc
      cases hc
  | some ct =>
    cases hb : b.containers c with
    | none =>
      rw [ha, hb] at hc
      cases hc
    | some du =>
      rw [ha, hb] at hc
      cases hc with
      | some hcd => exact Alike.pure hcd hst

theorem incPageCount_alike (c : ContainerId) (count : ℕ) :
    Alike Eq (PoolAlike P) (incPageCount c count) (incPageCount c count) s t := by
  unfold incPageCount
  refine Alike.bind (h.getContainer_alike c) (fun ct du s' t' hcd hst => ?_)
  refine Alike.bind (Alike.modify (hst.setContainer c ⟨?_, hcd.isTemp, hcd.file⟩)) ?_
  · dsimp only
    rw [hcd.pageCount]
  · exact fun _ _ _ _ _ hst' => Alike.pure hcd.pageCount hst'

theorem access_alike : Alike Eq (PoolAlike P) access access s t := by
  refine ⟨?_, h.frames, h.pageToFrame, h.evictionHints, h.containers, fun k => ?_, fun k => ?_⟩
  · exact Prod.ext (h.fault 0) (h.osError 0)
  · have hk := h.fault (1 + k)
    rw [← Nat.add_assoc, ← Nat.add_assoc] at hk
    exact hk
  · have hk := h.osError (1 + k)
    rw [← Nat.add_assoc, ← Nat.add_assoc] at hk
    exact hk

end

theorem writePage_alike (hP : PageKind P) (h : PoolAlike P s t) (key : ContainerPageId) {p q : Page}
    (hpq : P p q) : Alike Eq (PoolAlike P) (writePage key p) (writePage key q) s t := by
  unfold writePage
  refine Alike.bind (h.getContainer_alike key.cId) (fun ct du s' t' hcd hst => ?_)
  rw [hcd.isTemp]
  split_ifs
  · exact Alike.pure rfl hst
  · refine Alike.bind hst.access_alike (fun a b s'' t'' hab hst' => ?_)
    subst hab
    rcases a with ⟨_ | garbage, msg⟩
    · exact Alike.modify (hst'.setContainer _ ⟨hcd.pageCount, rfl, forall₂_writeAt hP hcd.file _ hpq⟩)
    · exact Alike.throw hst'

theorem readPage_alike (hP : PageKind P) (h : PoolAlike P s t) (key : ContainerPageId) (i : Fin n) :
    Alike Eq (PoolAlike P) (readPage key i) (readPage key i) s t := by
  unfold readPage
  refine Alike.bind (h.getContainer_alike key.cId) (fun ct du s' t' hcd hst => ?_)
  refine Alike.bind hst.access_alike (fun a b s'' t'' hab hst' => ?_)
  subst hab
  rcases a with ⟨_ | garbage, msg⟩
  · have hfile := forall₂_getElem? hcd.file key.pageId.toNat
    dsimp only
    generalize ct.file[key.pageId.toNat]? = o at hfile ⊢
    generalize du.file[key.pageId.toNat]? = o' at hfile ⊢
    cases hfile with
    | none => exact Alike.throw hst'
    | some hpq =>
      have hfr := hst'.frames i
      exact Alike.modify (hst'.setFrame i ⟨hfr.key, hfr.isDirty, hfr.cnt, hpq⟩)
  · refine Alike.bind (hst'.onFrame_alike i (fun fr gr hfr => ?_)) (fun _ _ _ _ _ hst'' => ?_)
    · exact ⟨hfr.key, hfr.isDirty, hfr.cnt, hP.refl garbage⟩
    · exact Alike.throw hst''

/-- Latching a frame succeeds on both frames or on none. -/
def LatchAlike (P : Page → Page → Prop) (try_ : BufferFrame → Option BufferFrame) : Prop :=
  ∀ fr gr, FrameAlike P fr gr → Option.Rel (FrameAlike P) (try_ fr) (try_ gr)

theorem tryWrite_alike (makeDirty : Bool) : LatchAlike P (BufferFrame.tryWrite makeDirty) := by
  intro fr gr h
  unfold BufferFrame.tryWrite
  rw [h.cnt]
  split_ifs
  · exact .some ⟨h.key, congrArg (makeDirty || ·) h.isDirty, rfl, h.page⟩
  · exact .none

theorem tryRead_alike : LatchAlike P BufferFrame.tryRead := by
  intro fr gr h
  unfold BufferFrame.tryRead
  rw [h.cnt]
  split_ifs
  · exact .none
  · exact .some ⟨h.key, h.isDirty, rfl, h.page⟩

theorem popVictim_alike (l : List (Fin n)) (h : PoolAlike P s t) :
    Alike Eq (PoolAlike P) (popVictim l) (popVictim l) s t := by
  induction l generalizing s t with
  | nil =>
    exact Alike.bind (Alike.modify (h.setHints [])) (fun _ _ _ _ _ hst => Alike.pure rfl hst)
  | cons i l ih =>
    unfold popVictim
    refine Alike.bind (Alike.modify (h.setHints l)) (fun _ _ s' t' _ hst => ?_)
    refine Alike.bind (Alike.get hst) (fun a b s'' t'' hab hst' => ?_)
    have htry := tryWrite_alike false _ _ (hab.frames i)
    generalize (a.frames i).tryWrite false = o at htry ⊢
    generalize (b.frames i).tryWrite false = o' at htry ⊢
    cases htry with
    | none => exact ih hst'
    | some hfr =>
      exact Alike.bind (Alike.modify (hst'.setFrame i hfr)) (fun _ _ _ _ _ hu => Alike.pure rfl hu)

theorem chooseVictim_alike (h : PoolAlike P s t) :
    Alike Eq (PoolAlike P) chooseVictim chooseVictim s t := by
  unfold chooseVictim
  refine Alike.bind (Alike.get h) (fun a b s' t' hab hst => ?_)
  rw [hab.evictionHints]
  exact popVictim_alike _ hst

theorem writeVictim_alike (hP : PageKind P) (h : PoolAlike P s t) (i : Fin n) :
    Alike Eq (PoolAlike P) (writeVictimToDiskIfDirty i) (writeVictimToDiskIfDirty i) s t := by
  unfold writeVictimToDiskIfDirty
  refine Alike.bind (Alike.get h) (fun a b s' t' hab hst => ?_)
  have hfr := hab.frames i
  dsimp only
  rw [hfr.key, hfr.isDirty]
  cases (b.frames i).key with
  | none => exact Alike.pure rfl hst
  | some key =>
    dsimp only
    split_ifs
    · refine Alike.bind (hst.onFrame_alike i (fun fr gr hfg => ?_)) (fun _ _ _ _ _ hst' => ?_)
      · exact ⟨hfg.key, rfl, hfg.cnt, hfg.page⟩
      · exact writePage_alike hP hst' key hfr.page
    · exact Alike.pure rfl hst

theorem removeOldMapping_alike (h : PoolAlike P s t) (i : Fin n) :
    Alike Eq (PoolAlike P) (removeOldMapping i) (removeOldMapping i) s t := by
  unfold removeOldMapping
  refine Alike.bind (Alike.get h) (fun a b s' t' hab hst => ?_)
  rw [(hab.frames i).key, hab.pageToFrame]
  cases (b.frames i).key with
  | none => exact Alike.pure rfl hst
  | some old =>
    dsimp only
    cases b.pageToFrame.lookup old with
    | none => exact Alike.throw hst
    | some _ => exact Alike.set (hab.setMap _)

theorem insertMapping_alike (h : PoolAlike P s t) (key : ContainerPageId) (i : Fin n) :
    Alike Eq (PoolAlike P) (insertMapping key i) (insertMapping key i) s t := by
  unfold insertMapping
  refine Alike.bind (Alike.get h) (fun a b s' t' hab hst => ?_)
  rw [hab.pageToFrame]
  cases b.pageToFrame.lookup key with
  | none => exact Alike.set (hab.setMap _)
  | some _ => exact Alike.throw hst

theorem dropOnError_alike {α : Type} {is : List (Fin n)} {x : PoolCall n α}
    (h : Alike Eq (PoolAlike P) x x s t) :
    Alike Eq (PoolAlike P) (dropOnError is x) (dropOnError is x) s t := by
  unfold Alike dropOnError
  rcases h.outcomes with ⟨a, b, s', t', hx, hy, hst⟩ | ⟨e, s', t', hx, hy, hst⟩
  · rw [hx, hy]
    exact hst
  · rw [hx, hy]
    exact ⟨rfl, hst.dropGuards is⟩

theorem unwrap_alike {α : Type} {x : PoolCall n α} (h : Alike Eq (PoolAlike P) x x s t) :
    Alike Eq (PoolAlike P) (unwrap x) (unwrap x) s t := by
  unfold Alike unwrap
  rcases h.outcomes with ⟨a, b, s', t', hx, hy, hst⟩ | ⟨e, s', t', hx, hy, hst⟩
  · rw [hx, hy]
    exact hst
  · rw [hx, hy]
    cases e <;> exact ⟨rfl, hst⟩

theorem allocate_alike (hP : PageKind P) (h : PoolAlike P s t) (c : ContainerId) (i : Fin n) :
    Alike Eq (PoolAlike P) (allocate c i) (allocate c i) s t := by
  unfold allocate
  refine Alike.bind (h.removeOldMapping_alike i) (fun _ _ _ _ _ h₁ => ?_)
  refine Alike.bind (h₁.incPageCount_alike c 1) (fun id id' _ _ hid h₂ => ?_)
  subst hid
  refine Alike.bind (h₂.insertMapping_alike ⟨c, id⟩ _) (fun _ _ _ _ _ h₃ => ?_)
  refine Alike.bind (h₃.onFrame_alike i (fun fr gr hfr => ?_)) (fun _ _ _ _ _ h₄ => Alike.pure rfl h₄)
  exact ⟨rfl, rfl, hfr.cnt, hP.setPageId _ _ _ hfr.page⟩

theorem createNewPageForWrite_alike (hP : PageKind P) (h : PoolAlike P s t) (c : ContainerId) :
    Alike Eq (PoolAlike P) (createNewPageForWrite c) (createNewPageForWrite c) s t := by
  unfold createNewPageForWrite
  refine Alike.bind h.chooseVictim_alike (fun a b _ _ hab h₁ => ?_)
  subst hab
  cases a with
  | none => exact Alike.throw h₁
  | some victim =>
    refine dropOnError_alike (Alike.bind (writeVictim_alike hP h₁ victim) (fun _ _ _ _ _ h₂ => ?_))
    exact allocate_alike hP h₂ c victim

theorem grantLatch_alike {try_ : BufferFrame → Option BufferFrame} (htry : LatchAlike P try_)
    (denied : MemPoolStatus) (i : Fin n) (h : PoolAlike P s t) :
    Alike Eq (PoolAlike P) (grantLatch try_ denied i) (grantLatch try_ denied i) s t := by
  unfold grantLatch
  refine Alike.bind (Alike.get h) (fun a b s' t' hab hst => ?_)
  have hfr := htry _ _ (hab.frames i)
  generalize try_ (a.frames i) = o at hfr ⊢
  generalize try_ (b.frames i) = o' at hfr ⊢
  cases hfr with
  | none => exact Alike.throw hst
  | some hfr =>
    exact Alike.bind (Alike.modify (hst.setFrame i hfr)) (fun _ _ _ _ _ hu => Alike.pure rfl hu)

theorem getPage_alike (hP : PageKind P) {try_ : BufferFrame → Option BufferFrame}
    (htry : LatchAlike P try_) {denied : MemPoolStatus} {finish : BufferFrame → BufferFrame}
    (hfinish : ∀ fr gr, FrameAlike P fr gr → FrameAlike P (finish fr) (finish gr))
    (h : PoolAlike P s t) (key : ContainerPageId) :
    Alike Eq (PoolAlike P) (getPage (grantLatch try_ denied) finish key)
      (getPage (grantLatch try_ denied) finish key) s t := by
  unfold getPage
  refine Alike.bind (Alike.get h) (fun a b s₁ t₁ hab h₁ => ?_)
  rw [hab.pageToFrame]
  cases b.pageToFrame.lookup key with
  | some index => exact grantLatch_alike htry denied index h₁
  | none =>
    refine Alike.bind h₁.chooseVictim_alike (fun o o' _ _ ho h₂ => ?_)
    subst ho
    cases o with
    | none => exact Alike.throw h₂
    | some victim =>
      refine dropOnError_alike ?_
      refine Alike.bind (unwrap_alike (writeVictim_alike hP h₂ victim)) (fun _ _ _ _ _ h₃ => ?_)
      refine Alike.bind (Alike.get h₃) (fun a b _ _ hab h₄ => ?_)
      rw [(hab.frames victim).isDirty]
      split_ifs
      · exact Alike.throw h₄
      refine Alike.bind (Alike.get h₄) (fun a b _ _ hab h₅ => ?_)
      rw [hab.pageToFrame]
      cases b.pageToFrame.lookup key with
      | some index =>
        refine Alike.bind (grantLatch_alike htry denied index h₅) (fun g g' _ _ hg h₆ => ?_)
        subst hg
        refine Alike.bind (Alike.modify ?_) (fun _ _ _ _ _ h₇ => ?_)
        · rw [h₆.evictionHints]
          exact h₆.setHints _
        refine Alike.bind (h₇.onFrame_alike victim (fun fr gr hfr => ?_))
          (fun _ _ _ _ _ h₈ => Alike.pure rfl h₈)
        exact ⟨hfr.key, hfr.isDirty, rfl, hfr.page⟩
      | none =>
        unfold fetch
        refine Alike.bind (h₅.removeOldMapping_alike victim) (fun _ _ _ _ _ h₆ => ?_)
        refine Alike.bind (h₆.insertMapping_alike key _) (fun _ _ _ _ _ h₇ => ?_)
        refine Alike.bind (readPage_alike hP h₇ key victim) (fun _ _ _ _ _ h₈ => ?_)
        refine Alike.bind (h₈.onFrame_alike victim (fun fr gr hfr => ?_)) (fun _ _ _ _ _ h₉ => ?_)
        · exact ⟨rfl, hfr.isDirty, hfr.cnt, hfr.page⟩
        exact Alike.bind (h₉.onFrame_alike victim hfinish) (fun _ _ _ _ _ hu => Alike.pure rfl hu)

theorem getPageForWrite_alike (hP : PageKind P) (h : PoolAlike P s t) (key : ContainerPageId) :
    Alike Eq (PoolAlike P) (getPageForWrite key) (getPageForWrite key) s t := by
  unfold getPageForWrite
  refine getPage_alike hP (tryWrite_alike true) ?_ h key
  exact fun _ _ hfr => ⟨hfr.key, rfl, hfr.cnt, hfr.page⟩

theorem getPageForRead_alike (hP : PageKind P) (h : PoolAlike P s t) (key : ContainerPageId) :
    Alike Eq (PoolAlike P) (getPageForRead key) (getPageForRead key) s t := by
  unfold getPageForRead
  refine getPage_alike hP tryRead_alike ?_ h key
  exact fun _ _ hfr => ⟨hfr.key, hfr.isDirty, rfl, hfr.page⟩

end PoolAlike

end CrustyDB
