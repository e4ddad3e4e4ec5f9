import CrustyDB.Heap.HeapFileMap

/-! # Failing calls of a heap file

A call of a heap file that returns an error should leave the records and the number of pages as they
were.  Two paths do not: `add_val` makes a new page before it finds that the value does not fit on
one, and `update_val` deletes the old value before it looks for a place for the new one.

Nothing is assumed about the pages here, so the results hold of pages in frames that have been used:
a page operation that answers `none` leaves the page as it was (`addValue_none`), and a deleted record
is gone (`getValue_deleted`).  `Partial` says which calls take one of the two paths, and `fileError_iff`
that they are the ones whose errors change the file. -/

namespace CrustyDB

open Program Function CrustyError

/-! ### Operations that answer nothing -/

namespace Page

variable {p p' : Page} {slotId : SlotId} {bytes : List UInt8}

theorem addValue_none (h : p.addValue bytes = .ok (none, p')) : p' = p := by
  unfold Page.addValue at h
  obtain ⟨slotOffset, -, h⟩ := bind_eq_ok.mp h
  obtain ⟨header, -, h⟩ := bind_eq_ok.mp h
  obtain ⟨lacks, -, h⟩ := bind_eq_ok.mp h
  split_ifs at h
  · cases h
    rfl
  · obtain ⟨p₁, -, h⟩ := bind_eq_ok.mp h
    obtain ⟨i, -, h⟩ := bind_eq_ok.mp h
    obtain ⟨j, -, h⟩ := bind_eq_ok.mp h
    obtain ⟨p₂, -, h⟩ := bind_eq_ok.mp h
    cases h

theorem deleteValue_none (h : p.deleteValue slotId = .ok (none, p')) : p' = p := by
  unfold Page.deleteValue at h
  obtain ⟨offset, -, h⟩ := bind_eq_ok.mp h
  split_ifs at h
  · cases h
    rfl
  · obtain ⟨dataOffset, -, h⟩ := bind_eq_ok.mp h
    obtain ⟨dataLength, -, h⟩ := bind_eq_ok.mp h
    split_ifs at h
    · cases h
      rfl
    · obtain ⟨p₁, -, h⟩ := bind_eq_ok.mp h
      obtain ⟨p₂, -, h⟩ := bind_eq_ok.mp h
      obtain ⟨p₃, -, h⟩ := bind_eq_ok.mp h
      obtain ⟨count, -, h⟩ := bind_eq_ok.mp h
      obtain ⟨count', -, h⟩ := bind_eq_ok.mp h
      obtain ⟨p₄, -, h⟩ := bind_eq_ok.mp h
      cases h

theorem updateValue_none (h : p.updateValue slotId bytes = .ok (none, p')) : p' = p := by
  unfold Page.updateValue at h
  obtain ⟨offset, -, h⟩ := bind_eq_ok.mp h
  split_ifs at h
  · cases h
    rfl
  · obtain ⟨freedPtr, -, h⟩ := bind_eq_ok.mp h
    obtain ⟨freedLen, -, h⟩ := bind_eq_ok.mp h
    split_ifs at h
    · cases h
      rfl
    · obtain ⟨p₁, -, h⟩ := bind_eq_ok.mp h
      obtain ⟨p₂, -, h⟩ := bind_eq_ok.mp h
      obtain ⟨p₃, -, h⟩ := bind_eq_ok.mp h
      obtain ⟨waste, -, h⟩ := bind_eq_ok.mp h
      dsimp only at h
      split_ifs at h
      · obtain ⟨holes, -, h⟩ := bind_eq_ok.mp h
        obtain ⟨holes', -, h⟩ := bind_eq_ok.mp h
        obtain ⟨p₄, -, h⟩ := bind_eq_ok.mp h
        cases h
      · cases h
    · obtain ⟨space, -, h⟩ := bind_eq_ok.mp h
      split_ifs at h
      · cases h
        rfl
      · obtain ⟨p₁, -, h⟩ := bind_eq_ok.mp h
        obtain ⟨p₂, -, h⟩ := bind_eq_ok.mp h
        obtain ⟨p₃, -, h⟩ := bind_eq_ok.mp h
        obtain ⟨p₄, -, h⟩ := bind_eq_ok.mp h
        cases h

theorem getSlotMetadataOffset_eq (p : Page) (slotId : SlotId) : p.getSlotMetadataOffset slotId =
    .ok (if slotId.toNat ≥ p.cell 0 then -1 else (headerStart + slotId.toNat * slotMetadataSize : ℕ)) := by
  unfold getSlotMetadataOffset
  rw [getNumSlots_eq, checked_bind_ok]
  split_ifs <;> rfl

/-- The space of a value is given back in the fixed part of the header. -/
theorem reclaim_cell {ptr len k : ℕ} (hk : 3 < k) (h : p.reclaim ptr len = .ok p') :
    p'.cell k = p.cell k := by
  unfold reclaim at h
  rw [getFreeSpacePtr_eq, checked_bind_ok] at h
  split_ifs at h
  · rw [setFreeSpacePtr_eq] at h
    cases h
    exact cell_putCell_ne _ _ (by omega)
  · obtain ⟨holes, -, h⟩ := bind_eq_ok.mp h
    obtain ⟨holes', -, h⟩ := bind_eq_ok.mp h
    rw [setDeletedBytes_eq] at h
    cases h
    exact cell_putCell_ne _ _ (by omega)

/-- A deleted value is gone, whatever the slots of the page are. -/
theorem getValue_deleted (h : p.deleteValue slotId = .ok (some (), p')) :
    p'.getValue slotId = .ok none := by
  unfold Page.deleteValue at h
  rw [getSlotMetadataOffset_eq, checked_bind_ok] at h
  by_cases hslot : slotId.toNat ≥ p.cell 0
  · rw [if_pos hslot, if_pos (by decide)] at h
    cases h
  rw [if_neg hslot, if_neg (by omega), Int.toNat_natCast] at h
  obtain ⟨dataOffset, hread, h⟩ := bind_eq_ok.mp h
  obtain ⟨dataLength, hread', h⟩ := bind_eq_ok.mp h
  split_ifs at h
  · cases h
  obtain ⟨p₁, -, h⟩ := bind_eq_ok.mp h
  obtain ⟨p₂, hlen, h⟩ := bind_eq_ok.mp h
  obtain ⟨p₃, hreclaim, h⟩ := bind_eq_ok.mp h
  obtain ⟨count, -, h⟩ := bind_eq_ok.mp h
  obtain ⟨count', -, h⟩ := bind_eq_ok.mp h
  rw [setDeletedSlotCount_eq, checked_bind_ok] at h
  cases h
  -- the length of the slot is the cell with this number
  have hk : 5 + 2 * slotId.toNat < maxCells := by
    unfold readU16 read at hread'
    split_ifs at hread' with hin
    · simp only [headerStart, slotMetadataSize, offsetNumBytes, pageFixedHeaderLen,
        heapPageFixedMetadataSize, pageSize, maxCells] at hin ⊢
      omega
    · cases hread'
  have hoff : headerStart + slotId.toNat * slotMetadataSize + offsetNumBytes =
      pageFixedHeaderLen + 2 * (5 + 2 * slotId.toNat) := by
    simp only [headerStart, slotMetadataSize, offsetNumBytes, heapPageFixedMetadataSize]
    omega
  have hzero : (p₃.putCell 3 count' (by decide)).cell (5 + 2 * slotId.toNat) = 0 := by
    rw [cell_putCell_ne _ _ (by omega), reclaim_cell (by omega) hreclaim]
    rw [writeU16_cell 0 hk hoff] at hlen
    cases hlen
    exact cell_putCell_same _ hk (by decide)
  unfold Page.getValue
  rw [getSlotMetadataOffset_eq, checked_bind_ok]
  by_cases hnum : slotId.toNat ≥ (p₃.putCell 3 count' (by decide)).cell 0
  · rw [if_pos hnum, if_pos (by decide)]
    rfl
  · rw [if_neg hnum, if_neg (by omega), Int.toNat_natCast]
    dsimp only
    rw [readU16_cell (k := 4 + 2 * slotId.toNat) (by omega) (by
      simp only [headerStart, slotMetadataSize, heapPageFixedMetadataSize]
      omega), checked_bind_ok, readU16_cell hk hoff, checked_bind_ok, if_pos (Or.inl hzero)]
    rfl

end Page

/-! ### Calls that are left half done -/

theorem CrustyError.not_isPanic_crusty (msg : String) : ¬ (CrustyError.crusty msg).IsPanic := by
  rintro ⟨p, hp⟩
  cases hp

theorem CrustyError.not_isPanic_pool (msg : String) (e : MemPoolStatus) :
    ¬ (CrustyError.pool msg e).IsPanic := by
  rintro ⟨p, hp⟩
  cases hp

namespace PageStore

/-- The id of the last of `n + 1` pages. -/
theorem position_last (n : ℕ) : position (n + 1) (UInt32.ofNat n) = n := by
  have hid : (UInt32.ofNat n).toNat = n % 2 ^ 32 := UInt32.toNat_ofNat'
  have hdiv : (n + 1 - 1 - n % 2 ^ 32) / 2 ^ 32 = n / 2 ^ 32 := by omega
  unfold position
  rw [hid, hdiv]
  omega

variable {P : Type} {t : PageStore P} {c : ContainerId}

theorem setPage_self {key : ContainerPageId} {q : P} (h : t.page? key = some q) :
    t.setPage key q = t := by
  obtain ⟨hlt, hget⟩ := List.getElem?_eq_some_iff.mp h
  unfold setPage setPages
  rw [← hget, List.set_getElem_self, update_eq_self]

theorem page?_setPage_self {p : PageId} {old : P} (x : P) (h : t.page? ⟨c, p⟩ = some old) :
    (t.setPage ⟨c, p⟩ x).page? ⟨c, p⟩ = some x := by
  obtain ⟨hlt, -⟩ := List.getElem?_eq_some_iff.mp h
  unfold page? setPage setPages
  simp only [update_self, List.length_set]
  exact List.getElem?_set_self hlt

theorem length_setPage (t : PageStore P) (c : ContainerId) (p : PageId) (x : P) :
    ((t.setPage ⟨c, p⟩ x).pages c).length = (t.pages c).length := by
  unfold setPage setPages
  simp only [update_self, List.length_set]

variable [FilePageOps P]

/-- The records of a container. -/
def record (t : PageStore P) (c : ContainerId) : FileMap
  | ⟨c', none, some p, some s⟩ =>
    if c' = c then
      (t.page? ⟨c, p⟩).bind (fun q => (HeapPage.getValue q s).toOption.bind id)
    else none
  | _ => none

/-- The records and the number of pages are the same. -/
def Unchanged (c : ContainerId) (t t' : PageStore P) : Prop :=
  t'.record c = t.record c ∧ (t'.pages c).length = (t.pages c).length

theorem record_of_pages {t' : PageStore P} (h : t'.pages = t.pages) : t'.record c = t.record c := by
  unfold record page?
  rw [h]

theorem unchanged_of_pages {t' : PageStore P} (h : t'.pages = t.pages) :
    Unchanged c t t' := ⟨record_of_pages h, by rw [h]⟩

/-- The data pages of the file. -/
def filePages {P : Type} (c : ContainerId) (t : PageStore P) : List PageId :=
  HeapFile.dataPages (UInt32.ofNat (t.pages c).length)

/-- The pool grants the pages one after the other, and each refuses the value. -/
def Declined (c : ContainerId) (v : List UInt8) : List PageId → PageStore Page → Prop
  | [], _ => True
  | p :: ps, t => t.refuse t.requests = none ∧
      (∃ page, t.page? ⟨c, p⟩ = some page ∧ PageRefuses page v) ∧ Declined c v ps t.tick

/-- The store after `k` more requests. -/
def after (t : PageStore P) (k : ℕ) : PageStore P := { t with requests := t.requests + k }

/-- The next new page, with the bytes of its frame, refuses the value. -/
def NewPageRefuses (frame : ℕ → Page) (c : ContainerId) (v : List UInt8) (t : PageStore Page) : Prop :=
  ∃ page, ((frame t.requests).setPageId (UInt32.ofNat (t.pages c).length)).initHeapPage = .ok page ∧
    PageRefuses page v

/-- The value has no place: every data page declines it and the pool has no new page for it. -/
def NoNewPage (c : ContainerId) (v : List UInt8) (t : PageStore Page) : Prop :=
  Declined c v (filePages c t) t ∧ t.refuse (t.requests + (filePages c t).length) ≠ none

/-- Every data page declines the value, and the new page declines it, too. -/
def Grows (frame : ℕ → Page) (c : ContainerId) (v : List UInt8) (t : PageStore Page) : Prop :=
  Declined c v (filePages c t) t ∧ t.refuse (t.requests + (filePages c t).length) = none ∧
    NewPageRefuses frame c v (t.after (filePages c t).length)

/-- The calls that change the file and return an error: an addition for which a page is made in vain,
and an update that has to move the record but finds no place for the new value. -/
def Partial (frame : ℕ → Page) (c : ContainerId) (t : PageStore Page) : FileOp → Prop
  | .addVal v => Grows frame c v t
  | .updateVal p slotId v => p < UInt32.ofNat (t.pages c).length ∧ t.refuse t.requests = none ∧
    ∃ page page' old, t.page? ⟨c, p⟩ = some page ∧ page.updateValue slotId v = .ok (none, page) ∧
      page.getValue slotId = .ok (some old) ∧ page.deleteValue slotId = .ok (some (), page') ∧
      (NoNewPage c v (t.tick.setPage ⟨c, p⟩ page') ∨ Grows frame c v (t.tick.setPage ⟨c, p⟩ page'))
  | _ => False

end PageStore

section Outcomes

open PageStore HeapProg

variable {frame : ℕ → Page} {c : ContainerId} {v : List UInt8} {t : PageStore Page}
  {key : ContainerPageId} {α β : Type}

/-- The calls on a store whose frames hold any bytes. -/
abbrev onFrames (frame : ℕ → Page) : Handler memInterface CrustyError (PageStore Page) :=
  handlerOn fun i => (frame i).setPageId

section Rules

variable {Q : α → PageStore Page → Prop} {E : CrustyError → PageStore Page → Prop}

/-- A page is requested: the pool hands it out, or the call panics. -/
theorem ends_acquire {o : HeapProg Unit} {f : Unit → HeapProg α}
    (hrun : run (onFrames frame) o t = t.acquire key)
    (hgo : ∀ page, t.refuse t.requests = none → t.page? key = some page →
      Ends (onFrames frame) (f ()) t.tick Q E)
    (hno : ¬ (t.refuse t.requests = none ∧ ∃ page, t.page? key = some page) →
      ∀ p t', E (.panic p) t') :
    Ends (onFrames frame) (o >>= f) t Q E := by
  unfold PageStore.acquire at hrun
  cases hr : t.refuse t.requests with
  | some e =>
    rw [hr] at hrun
    exact .bind (.of_error hrun (hno (by simp [hr]) _ _))
  | none =>
    cases hp : t.page? key with
    | none =>
      rw [hr, hp] at hrun
      exact .bind (.of_error hrun (hno (by simp [hp]) _ _))
    | some page =>
      rw [hr, hp] at hrun
      exact .step hrun (hgo page hr hp)

/-- A page that is held is changed, or the call panics. -/
theorem ends_changePage {page : Page} {g : Page → Checked (β × Page)} {o : HeapProg β} {f : β → HeapProg α}
    (ho : run (onFrames frame) o t = t.changePage key g) (hp : t.page? key = some page)
    (hgo : ∀ b page', g page = .ok (b, page') → Ends (onFrames frame) (f b) (t.setPage key page') Q E)
    (hno : ∀ e, g page = .error e → ∀ p t', E (.panic p) t') :
    Ends (onFrames frame) (o >>= f) t Q E := by
  unfold PageStore.changePage at ho
  rw [hp] at ho
  rcases hg : g page with e | ⟨b, page'⟩
  · simp only [hg] at ho
    exact .bind (.of_error ho (hno e hg _ _))
  · simp only [hg] at ho
    exact .step ho (hgo b page' hg)

/-- A page that is held is read, or the call panics. -/
theorem ends_onPage {page : Page} {g : Page → Checked β} {o : HeapProg β} {f : β → HeapProg α}
    (ho : run (onFrames frame) o t = t.onPage key g) (hp : t.page? key = some page)
    (hgo : ∀ b, g page = .ok b → Ends (onFrames frame) (f b) t Q E)
    (hno : ∀ e, g page = .error e → ∀ p t', E (.panic p) t') :
    Ends (onFrames frame) (o >>= f) t Q E := by
  unfold PageStore.onPage at ho
  rw [hp] at ho
  cases hg : g page with
  | error e =>
    simp only [hg] at ho
    exact .bind (.of_error ho (hno e hg _ _))
  | ok b =>
    simp only [hg] at ho
    exact .step ho (hgo b hg)

theorem ends_dropWriteGuard {f : Unit → HeapProg α} (h : Ends (onFrames frame) (f ()) t Q E) :
    Ends (onFrames frame) (dropWriteGuard key >>= f) t Q E :=
  .step (run_op _ (I := memInterface) (.dropWriteGuard key) t) h

end Rules

/-- The loop of `add_val` comes to its end when every page declines the value. -/
theorem tryPages_outcome (ps : List PageId) : Ends (onFrames frame) (HeapFile.tryPages c v ps) t
    (fun r t' => match r with
      | none => t' = t.after ps.length ∧ Declined c v ps t
      | some _ => ¬ Declined c v ps t)
    (fun e _ => e.IsPanic ∧ ¬ Declined c v ps t) := by
  induction ps generalizing t with
  | nil => exact .pure ⟨rfl, trivial⟩
  | cons p ps ih =>
    refine ends_acquire (run_op _ (I := memInterface) (.getPageForWrite ⟨c, p⟩) t)
      (fun page hr hp => ?_) (fun hno e t' => ⟨⟨e, rfl⟩, fun h => ?_⟩)
    · refine ends_changePage (t := t.tick) (run_op _ (I := memInterface) (.addValue ⟨c, p⟩ v) t.tick) hp
        (fun r page' hadd => ends_dropWriteGuard ?_) (fun e he x t' => ⟨⟨x, rfl⟩, fun h => ?_⟩)
      · cases r with
        | some slotId =>
          refine .pure fun h => ?_
          obtain ⟨page₁, hp₁, page₂, hrefuses⟩ := h.2.1
          obtain rfl := Option.some.inj (hp.symm.trans hp₁)
          rw [hadd] at hrefuses
          cases hrefuses
        | none =>
          obtain rfl : page' = page := Page.addValue_none hadd
          rw [PageStore.setPage_self (t := t.tick) hp]
          have hiff : Declined c v (p :: ps) t ↔ Declined c v ps t.tick :=
            ⟨fun h => h.2.2, fun h => ⟨hr, ⟨page', hp, page', hadd⟩, h⟩⟩
          rw [hiff]
          refine (ih (t := t.tick)).mono (fun r t' h => ?_) (fun e t' h => h)
          cases r with
          | some id => exact h
          | none =>
            refine ⟨h.1.trans ?_, h.2⟩
            unfold PageStore.after PageStore.tick
            rw [List.length_cons, Nat.add_assoc, Nat.add_comm 1]
      · obtain ⟨page₁, hp₁, page₂, hrefuses⟩ := h.2.1
        obtain rfl := Option.some.inj (hp.symm.trans hp₁)
        rw [show HeapPage.addValue page v = .error e from he] at hrefuses
        cases hrefuses
    · obtain ⟨page, hp, -⟩ := h.2.1
      exact hno ⟨h.1, page, hp⟩

/-- A new page takes the value, or it is made in vain. -/
theorem addOnNewPage_outcome : Ends (onFrames frame) (HeapFile.addOnNewPage c v) t
    (fun _ _ => t.refuse t.requests = none ∧ ¬ NewPageRefuses frame c v t)
    (fun e t' => (e.IsPanic ∧ t.refuse t.requests = none ∧ ¬ NewPageRefuses frame c v t) ∨
      (¬ e.IsPanic ∧ ((t.refuse t.requests ≠ none ∧ t'.pages = t.pages) ∨
        (t.refuse t.requests = none ∧ NewPageRefuses frame c v t ∧
          (t'.pages c).length = (t.pages c).length + 1)))) := by
  have hrun : run (onFrames frame) (createHeapPage c) t =
      t.create ((frame t.requests).setPageId) c HeapPage.initHeapPage :=
    run_op _ (I := memInterface) (.createHeapPage c) t
  unfold PageStore.create at hrun
  cases hr : t.refuse t.requests with
  | some e =>
    rw [hr] at hrun
    exact .step hrun (.fail (.inr ⟨not_isPanic_pool _ e, .inl ⟨Option.some_ne_none e, rfl⟩⟩))
  | none =>
    rw [hr] at hrun
    let id := UInt32.ofNat (t.pages c).length
    obtain ⟨page, hinit, hid⟩ : ∃ page, ((frame t.requests).setPageId id).initHeapPage = .ok page ∧
        HeapPage.getPageId page = id :=
      ⟨_, Page.setFreeSpacePtr_eq _ _, (Page.getPageId_putCell _ _).trans (Page.getPageId_setPageId _ _)⟩
    let t₁ := t.tick.setPages c (t.pages c ++ [page])
    have hcreate : run (onFrames frame) (createHeapPage c) t = (.ok (.ok id), t₁) := by
      rw [hrun]
      dsimp only
      rw [show HeapPage.initHeapPage ((frame t.requests).setPageId (UInt32.ofNat (t.pages c).length)) =
        .ok page from hinit]
      dsimp only
      rw [hid]
    have hpages : t₁.pages c = t.pages c ++ [page] := update_self ..
    have hpage : t₁.page? ⟨c, id⟩ = some page := by
      unfold PageStore.page?
      dsimp only
      rw [hpages, List.length_append, List.length_singleton, position_last, List.getElem?_concat_length]
    have hnew : NewPageRefuses frame c v t ↔ PageRefuses page v := by
      constructor
      · rintro ⟨page', hinit', h⟩
        obtain rfl := Except.ok.inj (hinit.symm.trans hinit')
        exact h
      · exact fun h => ⟨page, hinit, h⟩
    rw [hnew]
    refine .step hcreate ?_
    refine ends_changePage (t := t₁) (run_op _ (I := memInterface) (.addValue ⟨c, id⟩ v) t₁) hpage
      (fun r page' hadd => ends_dropWriteGuard ?_) (fun e he x t' => .inl ⟨⟨x, rfl⟩, rfl, ?_⟩)
    · cases r with
      | some slotId =>
        refine .pure ⟨rfl, ?_⟩
        rintro ⟨page₂, hrefuses⟩
        rw [hadd] at hrefuses
        cases hrefuses
      | none =>
        refine .fail (.inr ⟨not_isPanic_crusty _, .inr ⟨rfl, ⟨page', hadd⟩, ?_⟩⟩)
        rw [length_setPage, hpages, List.length_append, List.length_singleton]
    · rintro ⟨page₂, hrefuses⟩
      rw [show HeapPage.addValue page v = .error e from he] at hrefuses
      cases hrefuses

theorem run_numPages_eq :
    run (onFrames frame) (HeapFile.numPages c) t = (.ok (UInt32.ofNat (t.pages c).length), t) := rfl

/-- How `add_val` ends. -/
theorem addVal_outcome : Ends (onFrames frame) (HeapFile.addVal c v) t
    (fun _ _ => ¬ NoNewPage c v t ∧ ¬ Grows frame c v t)
    (fun e t' => (e.IsPanic ∧ ¬ NoNewPage c v t ∧ ¬ Grows frame c v t) ∨
      (¬ e.IsPanic ∧ ((NoNewPage c v t ∧ t'.pages = t.pages) ∨
        (Grows frame c v t ∧ (t'.pages c).length = (t.pages c).length + 1)))) := by
  refine .step run_numPages_eq (.bind ?_)
  refine (tryPages_outcome (filePages c t)).mono (fun r t' h => ?_)
    (fun e t' h => .inl ⟨h.1, fun hno => h.2 hno.1, fun hno => h.2 hno.1⟩)
  cases r with
  | some id => exact .pure ⟨fun hno => h hno.1, fun hno => h hno.1⟩
  | none =>
    obtain ⟨rfl, hdeclined⟩ := h
    refine addOnNewPage_outcome.mono (fun _ _ h => ⟨fun hno => hno.2 h.1, fun hg => h.2 hg.2.2⟩)
      (fun e t' h => ?_)
    rcases h with ⟨hpanic, hr, hnew⟩ | ⟨hpanic, ⟨hr, hpages⟩ | ⟨hr, hnew, hlen⟩⟩
    · exact .inl ⟨hpanic, fun hno => hno.2 hr, fun hg => hnew hg.2.2⟩
    · exact .inr ⟨hpanic, .inl ⟨⟨hdeclined, hr⟩, hpages⟩⟩
    · exact .inr ⟨hpanic, .inr ⟨⟨hdeclined, hr, hnew⟩, hlen⟩⟩

/-- What the error of a call should say: it is a panic, or the file has changed just when `H` holds. -/
def LeavesFile (c : ContainerId) (t : PageStore Page) (H : Prop) (e : CrustyError) (t' : PageStore Page) :
    Prop :=
  (e.IsPanic ∧ ¬ H) ∨ (¬ e.IsPanic ∧ (H ↔ ¬ Unchanged c t t'))

theorem LeavesFile.panic {H : Prop} (p : Panic) {t' : PageStore Page} (h : ¬ H) : LeavesFile c t H (.panic p) t' :=
  .inl ⟨⟨p, rfl⟩, h⟩

theorem LeavesFile.same {H : Prop} {msg : String} {t' : PageStore Page} (h : ¬ H) (hp : t'.pages = t.pages) :
    LeavesFile c t H (.crusty msg) t' :=
  .inr ⟨not_isPanic_crusty msg, iff_of_false h (not_not.mpr (unchanged_of_pages hp))⟩

/-- A read changes nothing. -/
theorem getVal_outcome (p : PageId) (slotId : SlotId) : Ends (onFrames frame) (HeapFile.getVal c p slotId) t
    (fun _ _ => ¬ False) (LeavesFile c t False) := by
  refine .step run_numPages_eq ?_
  split_ifs
  · exact .fail (.same not_false rfl)
  · refine ends_acquire (run_op _ (I := memInterface) (.getPageForRead ⟨c, p⟩) t)
      (fun page _ hp => ?_) (fun _ e t' => .panic e not_false)
    refine ends_onPage (t := t.tick) (run_op _ (I := memInterface) (.getValue ⟨c, p⟩ slotId) t.tick) hp
      (fun b _ => ?_) (fun _ _ e t' => .panic e not_false)
    refine .step (run_op _ (I := memInterface) (.dropReadGuard ⟨c, p⟩) t.tick) ?_
    cases b with
    | some v => exact .pure not_false
    | none => exact .fail (.same not_false rfl)

/-- A deletion that fails changes nothing. -/
theorem deleteVal_outcome (p : PageId) (slotId : SlotId) :
    Ends (onFrames frame) (HeapFile.deleteVal c p slotId) t (fun _ _ => ¬ False) (LeavesFile c t False) := by
  refine .step run_numPages_eq ?_
  split_ifs
  · exact .fail (.same not_false rfl)
  · refine ends_acquire (run_op _ (I := memInterface) (.getPageForWrite ⟨c, p⟩) t)
      (fun page _ hp => ?_) (fun _ e t' => .panic e not_false)
    refine ends_changePage (t := t.tick) (run_op _ (I := memInterface) (.deleteValue ⟨c, p⟩ slotId) t.tick)
      hp (fun r page' hdel => ends_dropWriteGuard ?_) (fun _ _ e t' => .panic e not_false)
    cases r with
    | some u => exact .pure not_false
    | none =>
      obtain rfl : page' = page := Page.deleteValue_none hdel
      exact .fail (.same not_false (by rw [PageStore.setPage_self (t := t.tick) hp]; rfl))

/-- A file that has lost a record has changed. -/
theorem record_deleted {p : PageId} {slotId : SlotId} {page page' : Page} {old : List UInt8}
    {t' : PageStore Page} (hp : t.page? ⟨c, p⟩ = some page) (hget : page.getValue slotId = .ok (some old))
    (hdel : page.deleteValue slotId = .ok (some (), page'))
    (hpages : t'.pages = (t.tick.setPage ⟨c, p⟩ page').pages) : ¬ Unchanged c t t' := by
  intro h
  have hrecord := congrFun h.1 (.newSlot c p slotId)
  have hbefore : t.record c (.newSlot c p slotId) = some old := by
    show (if c = c then (t.page? ⟨c, p⟩).bind _ else none) = _
    rw [if_pos rfl, hp, Option.bind_some,
      show HeapPage.getValue page slotId = .ok (some old) from hget]
    rfl
  have hafter : t'.record c (.newSlot c p slotId) = none := by
    show (if c = c then (t'.page? ⟨c, p⟩).bind _ else none) = _
    have hp' : t'.page? ⟨c, p⟩ = some page' := by
      have := page?_setPage_self (t := t.tick) page' hp
      unfold PageStore.page? at this ⊢
      rwa [hpages]
    rw [if_pos rfl, hp', Option.bind_some,
      show HeapPage.getValue page' slotId = .ok none from Page.getValue_deleted hdel]
    rfl
  rw [hbefore, hafter] at hrecord
  cases hrecord

/-- How `update_val` ends. -/
theorem updateVal_outcome (p : PageId) (slotId : SlotId) (v : List UInt8) :
    Ends (onFrames frame) (HeapFile.updateVal c p slotId v) t
      (fun _ _ => ¬ Partial frame c t (.updateVal p slotId v))
      (LeavesFile c t (Partial frame c t (.updateVal p slotId v))) := by
  refine .step run_numPages_eq ?_
  split_ifs with hnum
  · exact .fail (.same (fun h => absurd h.1 (UInt32.not_lt.mpr hnum)) rfl)
  refine ends_acquire (run_op _ (I := memInterface) (.getPageForWrite ⟨c, p⟩) t)
    (fun page hr hp => ?_) (fun hno e t' => .panic e fun ⟨_, hr, page, _, _, hp, _⟩ => hno ⟨hr, page, hp⟩)
  -- the page is the one of `Partial`
  have hpage : Partial frame c t (.updateVal p slotId v) ↔ ∃ page' old,
      page.updateValue slotId v = .ok (none, page) ∧ page.getValue slotId = .ok (some old) ∧
        page.deleteValue slotId = .ok (some (), page') ∧
        (NoNewPage c v (t.tick.setPage ⟨c, p⟩ page') ∨
          Grows frame c v (t.tick.setPage ⟨c, p⟩ page')) := by
    constructor
    · rintro ⟨-, -, page₁, page', old, hp₁, h⟩
      obtain rfl := Option.some.inj (hp.symm.trans hp₁)
      exact ⟨page', old, h⟩
    · rintro ⟨page', old, h⟩
      exact ⟨UInt32.not_le.mp hnum, hr, page, page', old, hp, h⟩
  rw [hpage]
  refine ends_changePage (t := t.tick) (run_op _ (I := memInterface) (.updateValue ⟨c, p⟩ slotId v) t.tick)
    hp (fun r page₁ hupd => ?_) (fun e he x t' => .panic x ?_)
  swap
  · rintro ⟨_, _, hupd, -⟩
    cases he.symm.trans hupd
  cases r with
  | some u =>
    refine ends_dropWriteGuard (.pure ?_)
    rintro ⟨_, _, hupd', -⟩
    cases hupd.symm.trans hupd'
  | none =>
    obtain rfl : page₁ = page := Page.updateValue_none hupd
    rw [PageStore.setPage_self (t := t.tick) hp]
    refine ends_onPage (t := t.tick) (run_op _ (I := memInterface) (.getValue ⟨c, p⟩ slotId) t.tick) hp
      (fun b hget => ?_) (fun e he x t' => .panic x ?_)
    swap
    · rintro ⟨_, _, -, hget, -⟩
      cases he.symm.trans hget
    cases b with
    | none =>
      refine ends_dropWriteGuard (.fail (.same ?_ rfl))
      rintro ⟨_, _, -, hget', -⟩
      cases hget.symm.trans hget'
    | some old =>
      refine ends_changePage (t := t.tick)
        (run_op _ (I := memInterface) (.deleteValue ⟨c, p⟩ slotId) t.tick) hp
        (fun r page' hdel => ends_dropWriteGuard ?_) (fun e he x t' => .panic x ?_)
      swap
      · rintro ⟨_, _, -, -, hdel, -⟩
        cases he.symm.trans hdel
      cases r with
      | none =>
        obtain rfl : page' = page₁ := Page.deleteValue_none hdel
        refine .fail (.same ?_ (by rw [PageStore.setPage_self (t := t.tick) hp]; rfl))
        rintro ⟨_, _, -, -, hdel', -⟩
        cases hdel.symm.trans hdel'
      | some u =>
        have hadd : (∃ page' old, page₁.updateValue slotId v = .ok (none, page₁) ∧
            page₁.getValue slotId = .ok (some old) ∧ page₁.deleteValue slotId = .ok (some (), page') ∧
            (NoNewPage c v (t.tick.setPage ⟨c, p⟩ page') ∨
              Grows frame c v (t.tick.setPage ⟨c, p⟩ page'))) ↔
            NoNewPage c v (t.tick.setPage ⟨c, p⟩ page') ∨
              Grows frame c v (t.tick.setPage ⟨c, p⟩ page') := by
          constructor
          · rintro ⟨page₂, old', -, -, hdel', h⟩
            cases hdel.symm.trans hdel'
            exact h
          · exact fun h => ⟨page', old, hupd, hget, hdel, h⟩
        rw [hadd]
        refine addVal_outcome.mono (fun _ _ h => not_or.mpr h) (fun e t' h => ?_)
        rcases h with ⟨hpanic, hno⟩ | ⟨hpanic, ⟨hno, hpages⟩ | ⟨hg, hlen⟩⟩
        · exact .inl ⟨hpanic, not_or.mpr hno⟩
        · exact .inr ⟨hpanic, iff_of_true (.inl hno) (record_deleted hp hget hdel hpages)⟩
        · refine .inr ⟨hpanic, iff_of_true (.inr hg) fun h => ?_⟩
          have hsame := h.2
          rw [length_setPage] at hlen
          have htick : (t.tick.pages c).length = (t.pages c).length := rfl
          omega

/-- A call that returns an error has left the file as it was, unless it is one of `Partial`; and those
return an error and change the file. -/
theorem prog_outcome (op : FileOp) : Ends (onFrames frame) (op.prog c) t
    (fun _ _ => ¬ Partial frame c t op) (LeavesFile c t (Partial frame c t op)) := by
  cases op with
  | addVal v =>
    refine .bind (addVal_outcome.mono (fun _ _ h => .pure h.2) (fun e t' h => ?_))
    rcases h with ⟨hpanic, -, hg⟩ | ⟨hpanic, ⟨hno, hpages⟩ | ⟨hg, hlen⟩⟩
    · exact .inl ⟨hpanic, hg⟩
    · refine .inr ⟨hpanic, iff_of_false (fun hg => hno.2 hg.2.1) (not_not.mpr (unchanged_of_pages hpages))⟩
    · exact .inr ⟨hpanic, iff_of_true hg (fun h => by have := h.2; omega)⟩
  | getVal p slotId => exact .bind ((getVal_outcome p slotId).mono (fun _ _ h => .pure h) (fun _ _ h => h))
  | updateVal p slotId v =>
    exact .bind ((updateVal_outcome p slotId v).mono (fun _ _ h => .pure h) (fun _ _ h => h))
  | deleteVal p slotId =>
    exact .bind ((deleteVal_outcome p slotId).mono (fun _ _ h => .pure h) (fun _ _ h => h))

end Outcomes

/-- A call that returns an error leaves the records and the number of pages of the file as they were,
except for the calls of `Partial`.  Nothing is assumed about the pages or the frames. -/
theorem fileError_iff (frame : ℕ → Page) (c : ContainerId) (s : PageStore Page) (op : FileOp) :
    (∀ e s', PageStore.execOn frame (op.prog c) s = (.error e, s') → ¬ e.IsPanic →
      PageStore.Unchanged c s s') ↔ ¬ PageStore.Partial frame c s op := by
  have hout : Ends (onFrames frame) (op.prog c) s _ _ := prog_outcome op
  constructor
  · intro hsame hpart
    rcases hrun : PageStore.execOn frame (op.prog c) s with ⟨⟨e⟩ | ⟨a⟩, s'⟩
    · rcases hout.error hrun with ⟨-, hno⟩ | ⟨hpanic, hiff⟩
      · exact hno hpart
      · exact hiff.mp hpart (hsame e s' hrun hpanic)
    · exact hout.ok hrun hpart
  · intro hpart e s' hrun hpanic
    rcases hout.error hrun with ⟨hpanic', -⟩ | ⟨-, hiff⟩
    · exact absurd hpanic' hpanic
    · by_contra hchanged
      exact hpart (hiff.mpr hchanged)

/-- No pages. -/
def noPages : PageStore Page := ⟨fun _ => [], 0, fun _ => none⟩

/-- A new heap file with one record of one byte. -/
def oneValue : Except CrustyError ValueId × PageStore Page :=
  PageStore.execOn newFrames (do HeapFile.new 3; HeapFile.addVal 3 [7]) noPages

/-- An update of the record with 5000 bytes. -/
def tooLargeUpdate : Except CrustyError FileAnswer × PageStore Page :=
  PageStore.execOn newFrames ((FileOp.updateVal 1 0 (List.replicate 5000 7)).prog 3) oneValue.2

/-- In a file with one record, `update_val` with a value of 5000 bytes returns an error and loses the
record; the page made for the new value stays. -/
theorem updateVal_loses_record : oneValue.1 = .ok (.newSlot 3 1 0) ∧
    tooLargeUpdate.1 = .error (.crusty "Value too large to fit in a single page") ∧
    oneValue.2.record 3 (.newSlot 3 1 0) = some [7] ∧ tooLargeUpdate.2.record 3 (.newSlot 3 1 0) = none ∧
    (oneValue.2.pages 3).length = 2 ∧ (tooLargeUpdate.2.pages 3).length = 3 := by
  decide +kernel

end CrustyDB
