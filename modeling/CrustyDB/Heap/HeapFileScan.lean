import CrustyDB.Heap.HeapFileMap

/-! # The iterator of a heap file, and runs of a heap file

The iterator is followed by the list of records it still has to yield (`Cursor`): a call of `next`
yields the head of that list and leaves the tail (`next_ends`), so the iterator run to its end
yields the records of the data pages, in order (`collect_ends`).  It fails only when the pool
refuses a page.

`fileMap_of_run` puts the calls and the iterator together, on the bytes, for a file whose page count
has not wrapped around.  `collect_full` is a file where it has: its last page has the largest page id,
and the iterator takes it for empty. -/

namespace CrustyDB

open Program List SlotDir

section Scan

variable {c : ContainerId} {t : PageStore FilePage} {ds : List SlotDir} {d : SlotDir}

open PageStore HeapProg

/-! ### What the iterator has to yield -/

/-- The records of a page. -/
def itemsOf (c : ContainerId) (p : PageId) (l : List (List UInt8 × SlotId)) :
    List (List UInt8 × ValueId) := l.map (fun vs => (vs.1, .newSlot c p vs.2))

/-- The records of the data pages, when the first of them is page `i`. -/
def fileItems (c : ContainerId) : ℕ → List SlotDir → List (List UInt8 × ValueId)
  | _, [] => []
  | i, d :: ds => itemsOf c (UInt32.ofNat i) d.iter ++ fileItems c (i + 1) ds

/-- The rounds the loop of the iterator needs for some pages. -/
def work (ds : List SlotDir) : ℕ := (ds.map (fun d => d.slots.length + 1)).sum

theorem length_iterFrom_le (slots : List Slot) (i : ℕ) :
    (SlotDir.iterFrom slots i).length ≤ slots.length := by
  induction slots generalizing i with
  | nil => exact le_rfl
  | cons s slots ih =>
    have hrest := ih (i + 1)
    unfold SlotDir.iterFrom
    split_ifs
    · exact hrest.trans (Nat.le_succ _)
    · exact Nat.succ_le_succ hrest

theorem length_fileItems_le (c : ContainerId) (i : ℕ) (ds : List SlotDir) :
    (fileItems c i ds).length ≤ work ds := by
  induction ds generalizing i with
  | nil => exact le_rfl
  | cons d ds ih =>
    have hrest := ih (i + 1)
    have hd : d.iter.length ≤ d.slots.length := length_iterFrom_le _ _
    unfold fileItems itemsOf
    unfold work at hrest ⊢
    rw [length_append, length_map, map_cons, sum_cons]
    omega

theorem mem_fileItems {i : ℕ} {v : List UInt8} {id : ValueId} :
    (v, id) ∈ fileItems c i ds ↔ ∃ j d s, ds[j]? = some d ∧ (v, s) ∈ d.iter ∧
      id = .newSlot c (UInt32.ofNat (i + j)) s := by
  induction ds generalizing i with
  | nil => exact ⟨fun h => absurd h not_mem_nil, fun ⟨j, d, s, hd, _⟩ => nomatch hd⟩
  | cons d ds ih =>
    unfold fileItems itemsOf
    rw [mem_append, mem_map, ih]
    constructor
    · rintro (⟨⟨w, s⟩, hs, heq⟩ | ⟨j, e, s, he, hs, rfl⟩)
      · cases heq
        exact ⟨0, d, s, rfl, hs, rfl⟩
      · exact ⟨j + 1, e, s, he, hs, by rw [Nat.add_right_comm, Nat.add_assoc]⟩
    · rintro ⟨j, e, s, he, hs, rfl⟩
      cases j with
      | zero =>
        cases he
        exact .inl ⟨(v, s), hs, rfl⟩
      | succ j => exact .inr ⟨j, e, s, he, hs, by rw [Nat.add_right_comm, Nat.add_assoc]⟩

/-- The records come in the order of pages and slots. -/
theorem fileItems_sorted {i : ℕ} (hw : ∀ d ∈ ds, d.WF) (hi : i + ds.length ≤ 2 ^ 32) :
    (fileItems c i ds).Pairwise (fun a b =>
      Prod.Lex (· < ·) (· < ·) (FileMap.position a.2) (FileMap.position b.2)) := by
  induction ds generalizing i with
  | nil => exact .nil
  | cons d ds ih =>
    rw [length_cons] at hi
    unfold fileItems
    refine pairwise_append.mpr ⟨?_, ?_, ?_⟩
    · refine pairwise_map.mpr ((iter_lists (hw d mem_cons_self)).sorted.imp ?_)
      intro a b hab
      exact .right _ (UInt16.lt_iff_toNat_lt.mp hab)
    · exact ih (fun e he => hw e (mem_cons_of_mem _ he)) (by omega)
    · rintro ⟨v, id⟩ ha ⟨w, id'⟩ hb
      obtain ⟨⟨u, s⟩, -, heq⟩ := mem_map.mp ha
      cases heq
      obtain ⟨j, e, r, he, -, rfl⟩ := mem_fileItems.mp hb
      obtain ⟨hj, -⟩ := List.getElem?_eq_some_iff.mp he
      refine .left _ _ ?_
      show (UInt32.ofNat i).toNat < (UInt32.ofNat (i + 1 + j)).toNat
      rw [UInt32.toNat_ofNat', UInt32.toNat_ofNat', Nat.mod_eq_of_lt (by omega),
        Nat.mod_eq_of_lt (by omega)]
      omega

theorem recordAt_eq_some {v : List UInt8} {id : ValueId} :
    recordAt c ds id = some v ↔ ∃ p s i d, id = .newSlot c p s ∧ p.toNat = i + 1 ∧
      ds[i]? = some d ∧ d.get s = some v := by
  constructor
  · intro h
    match id, h with
    | ⟨c', none, some p, some s⟩, h =>
      have h' : (if c' = c ∧ p ≠ 0 then (ds[p.toNat - 1]?).bind (fun d => d.get s) else none) =
        some v := h
      split_ifs at h' with hp
      obtain ⟨rfl, hp0⟩ := hp
      obtain ⟨d, hd, hv⟩ := Option.bind_eq_some_iff.mp h'
      have hpos : p.toNat ≠ 0 := fun h0 => hp0 (UInt32.toNat_inj.mp h0)
      exact ⟨p, s, p.toNat - 1, d, rfl, by omega, hd, hv⟩
  · rintro ⟨p, s, i, d, rfl, hp, hd, hv⟩
    rw [recordAt_newSlot hp, hd, Option.bind_some, hv]

theorem recordAt_nil : recordAt c [] = fun _ => none := by
  funext id
  refine Option.eq_none_iff_forall_ne_some.mpr (fun v hv => ?_)
  obtain ⟨p, s, i, d, -, -, hd, -⟩ := recordAt_eq_some.mp hv
  exact nomatch hd

/-- The records of the data pages are the map of the file. -/
theorem fileItems_lists (h : IsFile c t ds) : FileMap.Lists (recordAt c ds) (fileItems c 1 ds) := by
  have hb := h.short
  refine ⟨fileItems_sorted (fun d hd => (h.wf d hd).1) (by omega), fun v id => ?_⟩
  have hiter : ∀ {i : ℕ} {d : SlotDir} {s : SlotId}, ds[i]? = some d →
      ((v, s) ∈ d.iter ↔ d.get s = some v) := fun hd =>
    (iter_lists (h.wf _ (mem_of_getElem? hd)).1).mem v _
  rw [mem_fileItems, recordAt_eq_some]
  constructor
  · rintro ⟨j, d, s, hd, hs, rfl⟩
    obtain ⟨hj, -⟩ := List.getElem?_eq_some_iff.mp hd
    rw [Nat.add_comm 1 j]
    exact ⟨_, s, j, d, rfl, h.toNat_page hj.le, hd, (hiter hd).mp hs⟩
  · rintro ⟨p, s, i, d, rfl, hp, hd, hv⟩
    refine ⟨i, d, s, hd, (hiter hd).mpr hv, ?_⟩
    rw [Nat.add_comm 1 i, ← hp, UInt32.ofNat_toNat]

/-! ### The iterator -/

/-- The store after some more requests. -/
structure Later (t t' : PageStore FilePage) : Prop where
  pages : t'.pages = t.pages
  refuse : t'.refuse = t.refuse
  requests : t.requests ≤ t'.requests

theorem Later.refl (t : PageStore FilePage) : Later t t := ⟨rfl, rfl, le_rfl⟩

variable {t' : PageStore FilePage}

theorem Later.trans {t'' : PageStore FilePage} (h : Later t t') (h' : Later t' t'') : Later t t'' :=
  ⟨h'.pages.trans h.pages, h'.refuse.trans h.refuse, h.requests.trans h'.requests⟩

theorem Later.tick {t : PageStore FilePage} (h : Later t.tick t') : Later t t' :=
  ⟨h.pages, h.refuse, (Nat.le_succ _).trans h.requests⟩

theorem Later.isFile (h : Later t t') (hf : IsFile c t ds) :
    IsFile c t' ds := ⟨⟨by rw [h.pages, hf.pages], hf.wf, hf.bound⟩, hf.short⟩

/-- A request that is still to come is refused. -/
def Refuses (t : PageStore FilePage) : Prop := ∃ k, t.requests ≤ k ∧ t.refuse k ≠ none

theorem Refuses.of_later (h : Later t t') (hr : Refuses t') : Refuses t := by
  obtain ⟨k, hk, hne⟩ := hr
  exact ⟨k, h.requests.trans hk, h.refuse ▸ hne⟩

/-- The iterator has a guard of the page of `d`, which comes after the pages `before`, and is at its
slot `k`. -/
structure AtSlot (c : ContainerId) (before : List SlotDir) (d : SlotDir) (k : ℕ) (it : HeapFileIter) :
    Prop where
  cId : it.cId = c
  initialized : it.initialized = true
  finished : it.finished = false
  pageId : it.currentPageId = UInt32.ofNat (before.length + 1)
  page : it.currentPage = some (UInt32.ofNat (before.length + 1))
  slot : it.currentSlotId.toNat = k
  le : k ≤ d.slots.length

/-- What the iterator still has to yield. -/
def remaining (c : ContainerId) (before : List SlotDir) (d : SlotDir) (k : ℕ) (later : List SlotDir) :
    List (List UInt8 × ValueId) :=
  itemsOf c (UInt32.ofNat (before.length + 1)) (SlotDir.iterFrom (d.slots.drop k) k) ++
    fileItems c (before.length + 2) later

/-- The iterator with what it still has to yield. -/
inductive Cursor (c : ContainerId) (ds : List SlotDir) :
    HeapFileIter → List (List UInt8 × ValueId) → Prop
  | start : Cursor c ds (.iter c) (fileItems c 1 ds)
  | at {it : HeapFileIter} {before later : List SlotDir} {d : SlotDir} {k : ℕ}
      (hds : ds = before ++ d :: later) (h : AtSlot c before d k it) :
      Cursor c ds it (remaining c before d k later)

/-- What `next` returns and leaves behind. -/
def Steps (c : ContainerId) (ds : List SlotDir) (t : PageStore FilePage)
    (l : List (List UInt8 × ValueId)) (r : Option (List UInt8 × ValueId) × HeapFileIter)
    (t' : PageStore FilePage) : Prop :=
  Later t t' ∧ match l with
    | [] => r.1 = none ∧ r.2.currentPage = none
    | x :: xs => r.1 = some x ∧ Cursor c ds r.2 xs

theorem slots_length_lt {d : SlotDir} (h : d.WF) : d.slots.length + 1 < 2 ^ 16 := by
  have hhdr := h.header_le
  have hfsp := h.fsp_le
  unfold SlotDir.headerSize at hhdr
  simp only [Page.headerStart, pageFixedHeaderLen, heapPageFixedMetadataSize, slotMetadataSize,
    pageSize] at hhdr hfsp
  omega

/-- One round of the loop on a slot: the value is yielded, or the slot is passed over. -/
theorem remaining_slot (before later : List SlotDir) {s : SlotId}
    (hlt : s.toNat < d.slots.length) :
    remaining c before d s.toNat later = match d.get s with
      | none => remaining c before d (s.toNat + 1) later
      | some v => (v, .newSlot c (UInt32.ofNat (before.length + 1)) s) ::
          remaining c before d (s.toNat + 1) later := by
  have hdrop : d.slots.drop s.toNat = d.slots[s.toNat] :: d.slots.drop (s.toNat + 1) :=
    drop_eq_getElem_cons hlt
  have hget : d.get s = if d.slots[s.toNat].value = [] then none else some d.slots[s.toNat].value := by
    unfold SlotDir.get
    rw [getElem?_eq_getElem hlt]
  rw [hget]
  unfold remaining
  rw [hdrop, SlotDir.iterFrom]
  split_ifs with hv
  · rfl
  · rw [UInt16.ofNat_toNat]
    rfl

variable {before later : List SlotDir} {it : HeapFileIter}

theorem remaining_end :
    remaining c before d d.slots.length later = fileItems c (before.length + 2) later := by
  unfold remaining
  rw [drop_length]
  rfl

theorem remaining_start :
    remaining c before d 0 later = fileItems c (before.length + 1) (d :: later) := rfl

theorem nextLoop_ends (fuel : ℕ) {k : ℕ} (h : IsFile c t ds) (hds : ds = before ++ d :: later)
    (hat : AtSlot c before d k it) (hfuel : d.slots.length - k + 1 + work later ≤ fuel) :
    Ends handler (it.nextLoop fuel) t (Steps c ds t (remaining c before d k later))
      (fun _ _ => Refuses t) := by
  induction fuel generalizing it before d later k t with
  | zero => exact absurd hfuel (by omega)
  | succ fuel ih =>
    have hlen : before.length < ds.length := by
      rw [hds, length_append, length_cons]
      omega
    have hp := h.toNat_page hlen.le
    have hd : ds[before.length]? = some d := by
      rw [hds, getElem?_append_right le_rfl, Nat.sub_self]
      rfl
    have hw := h.wf d (mem_of_getElem? hd)
    unfold HeapFileIter.nextLoop
    rw [hat.page, hat.cId]
    refine Ends.step (run_getNumSlots (h.dataPage hp hd)) ?_
    split_ifs with hlt
    · refine Ends.step (run_getValue (h.dataPage hp hd) it.currentSlotId) ?_
      have hslot := remaining_slot (c := c) before later hlt
      rw [hat.slot] at hslot
      have hnext : (it.currentSlotId + 1).toNat = k + 1 := by
        have hbig := slots_length_lt hw.1
        rw [UInt16.toNat_add, hat.slot]
        rw [hat.slot] at hlt
        exact Nat.mod_eq_of_lt (show k + 1 < 2 ^ 16 by omega)
      have hat' : AtSlot c before d (k + 1) { it with
          cId := c, currentPage := some (UInt32.ofNat (before.length + 1)),
          currentSlotId := it.currentSlotId + 1 } :=
        ⟨rfl, hat.initialized, hat.finished, hat.pageId, rfl, hnext, hat.slot ▸ hlt⟩
      cases hg : d.get it.currentSlotId with
      | some v =>
        rw [hg] at hslot
        rw [hslot]
        refine Ends.pure ⟨Later.refl t, ?_, .at hds hat'⟩
        rw [hat.pageId]
      | none =>
        rw [hg] at hslot
        rw [hslot]
        rw [hat.slot] at hlt
        exact ih h hds hat' (by omega)
    · have hk : k = d.slots.length := by
        rw [hat.slot] at hlt
        exact le_antisymm hat.le (Nat.not_lt.mp hlt)
      have hid : it.currentPageId + 1 = UInt32.ofNat (before.length + 1 + 1) := by
        rw [hat.pageId, UInt32.ofNat_add (before.length + 1) 1]
        rfl
      refine Ends.step (run_dropReadGuard _ _) ?_
      refine Ends.step (run_numPages h) ?_
      rw [hk, remaining_end]
      dsimp only
      rw [hid]
      have hp' := h.toNat_page (i := before.length + 1) hlen
      cases later with
      | nil =>
        have hall : ds.length = before.length + 1 := by
          rw [hds, length_append, length_singleton]
        rw [if_pos (by rw [hall]; exact UInt32.le_refl _)]
        exact Ends.pure ⟨Later.refl t, rfl, rfl⟩
      | cons d' later =>
        have hds' : ds = (before ++ [d]) ++ d' :: later := by
          rw [hds, append_assoc]
          rfl
        have hlen' : before.length + 1 < ds.length := by
          rw [hds, length_append, length_cons, length_cons]
          omega
        have hd' : ds[before.length + 1]? = some d' := by
          rw [hds, getElem?_append_right (Nat.le_add_right _ 1), Nat.add_sub_cancel_left]
          rfl
        rw [if_neg (by
          rw [ge_iff_le, UInt32.le_iff_toNat_le, h.toNat_page le_rfl, hp']
          omega)]
        refine Ends.bind (getPageForRead_ends (h.dataPage hp' hd') (fun _ => ?_) (fun hr => ?_))
        · have hat' : AtSlot c (before ++ [d]) d' 0 { it with
              cId := c, currentSlotId := 0, currentPage := some (UInt32.ofNat (before.length + 1 + 1)),
              currentPageId := UInt32.ofNat (before.length + 1 + 1) } := by
            refine ⟨rfl, hat.initialized, hat.finished, ?_, ?_, rfl, Nat.zero_le _⟩
            all_goals rw [length_append, length_singleton]
          have hstep := ih h.tick hds' hat' (by
            simp only [work, map_cons, sum_cons] at hfuel ⊢
            omega)
          rw [remaining_start, length_append, length_singleton] at hstep
          exact hstep.mono (fun r t' ht' => ⟨ht'.1.tick, ht'.2⟩)
            (fun _ _ hr => hr.of_later (Later.tick (Later.refl _)))
        · exact ⟨t.requests, le_rfl, hr⟩

theorem work_le {l : List SlotDir} (h : ∀ d ∈ l, d.WF) : work l ≤ l.length * 2 ^ 16 := by
  unfold work
  rw [← length_map (f := fun d : SlotDir => d.slots.length + 1)]
  refine sum_le_card_nsmul _ _ (fun k hk => ?_)
  obtain ⟨d, hd, rfl⟩ := mem_map.mp hk
  exact (slots_length_lt (h d hd)).le

theorem IsFile.rounds (h : IsFile c t ds) :
    HeapFileIter.rounds (UInt32.ofNat (ds.length + 1)) = (ds.length + 2) * 2 ^ 16 := by
  unfold HeapFileIter.rounds
  rw [h.toNat_page le_rfl]

/-- The iterator yields the next record, or nothing when there is none. -/
theorem next_ends (h : IsFile c t ds) {l : List (List UInt8 × ValueId)} (hc : Cursor c ds it l) :
    Ends handler it.next t (Steps c ds t l) (fun _ _ => Refuses t) := by
  have hloop : ∀ {t' : PageStore FilePage} {it : HeapFileIter} {before later : List SlotDir}
      {d : SlotDir} {k : ℕ}, Later t t' → ds = before ++ d :: later → AtSlot c before d k it →
      Ends handler (do
        let k ← HeapFile.numPages it.cId
        it.nextLoop (HeapFileIter.rounds k)) t' (Steps c ds t (remaining c before d k later))
        (fun _ _ => Refuses t) := by
    intro t' it before later d k hl hds hat
    have h' := hl.isFile h
    rw [hat.cId]
    refine Ends.step (run_numPages h') ?_
    refine (nextLoop_ends _ h' hds hat ?_).mono
      (fun r u hu => ⟨hl.trans hu.1, hu.2⟩) (fun _ _ hr => hr.of_later hl)
    have hwork := work_le (l := later) (fun e he => (h.wf e (by
      rw [hds]
      exact mem_append_right _ (mem_cons_of_mem _ he))).1)
    have hslots := slots_length_lt (h.wf d (by
      rw [hds]
      exact mem_append_right _ mem_cons_self)).1
    have hlen : later.length + 1 ≤ ds.length := by
      rw [hds, length_append, length_cons]
      omega
    rw [h.rounds]
    have hmul : (later.length + 1) * 2 ^ 16 ≤ ds.length * 2 ^ 16 := Nat.mul_le_mul_right _ hlen
    omega
  unfold HeapFileIter.next HeapFileIter.setUp
  cases hc with
  | start =>
    refine Ends.bind ?_
    rw [if_neg (by exact Bool.false_ne_true)]
    refine Ends.step (run_numPages h) ?_
    cases hds : ds with
    | nil =>
      rw [if_neg (by exact (by decide : ¬ (1 : PageId) < UInt32.ofNat (0 + 1)))]
      exact Ends.pure (Ends.pure ⟨Later.refl t, rfl, rfl⟩)
    | cons d later =>
      subst hds
      have hlt : (HeapFileIter.iter c).firstPage < UInt32.ofNat ((d :: later).length + 1) := by
        rw [UInt32.lt_iff_toNat_lt, h.toNat_page le_rfl, length_cons]
        exact Nat.lt_of_lt_of_le (by decide : (1 : PageId).toNat < 2) (by omega)
      have hd : (d :: later)[0]? = some d := rfl
      rw [if_pos hlt]
      refine Ends.bind (getPageForRead_ends (h.dataPage (i := 0) rfl hd) (fun _ => ?_) (fun hr => ?_))
      · refine Ends.pure ?_
        dsimp only
        rw [if_neg (by exact Bool.false_ne_true)]
        have hat : AtSlot c [] d 0 { HeapFileIter.iter c with
            currentPage := some (HeapFileIter.iter c).firstPage, initialized := true } :=
          ⟨rfl, rfl, rfl, rfl, rfl, rfl, Nat.zero_le _⟩
        exact hloop (Later.tick (Later.refl _)) rfl hat
      · exact ⟨t.requests, le_rfl, hr⟩
  | @«at» it before later d k hds hat =>
    rw [if_pos hat.initialized]
    refine Ends.bind (Ends.pure ?_)
    rw [if_neg (by rw [hat.finished]; exact Bool.false_ne_true)]
    exact hloop (Later.refl t) hds hat

/-- The iterator yields what is left, in order. -/
theorem take_ends (k : ℕ) (h : IsFile c t ds) {l : List (List UInt8 × ValueId)}
    (hc : Cursor c ds it l) (hk : l.length < k) :
    Ends handler (it.take k) t (fun l' t' => l' = l ∧ Later t t') (fun _ _ => Refuses t) := by
  induction k generalizing t it l with
  | zero => exact absurd hk (Nat.not_lt_zero _)
  | succ k ih =>
    unfold HeapFileIter.take
    refine Ends.bind ((next_ends h hc).mono (fun r t' hr => ?_) (fun _ _ hr => hr))
    obtain ⟨r, it'⟩ := r
    obtain ⟨hl, hstep⟩ := hr
    cases l with
    | nil =>
      obtain ⟨hnone, hpage⟩ := hstep
      dsimp only at hnone hpage
      subst hnone
      unfold HeapFileIter.drop
      dsimp only
      rw [hpage]
      exact Ends.bind (Ends.pure (Ends.pure ⟨rfl, hl⟩))
    | cons x xs =>
      obtain ⟨hsome, hc'⟩ := hstep
      dsimp only at hsome hc'
      subst hsome
      refine Ends.bind ((ih (hl.isFile h) hc' (Nat.lt_of_succ_lt_succ hk)).mono
        (fun l' u hu => Ends.pure ?_) (fun _ _ hr => hr.of_later hl))
      obtain ⟨rfl, hu⟩ := hu
      exact ⟨rfl, hl.trans hu⟩

/-- The whole iterator yields the records of the data pages. -/
theorem collect_ends (h : IsFile c t ds) :
    Ends handler ((HeapFileIter.iter c).collect) t (fun l _ => l = fileItems c 1 ds)
      (fun _ _ => Refuses t) := by
  unfold HeapFileIter.collect
  refine Ends.step (run_numPages h) ?_
  refine (take_ends _ h .start ?_).mono (fun l t' hl => hl.1) (fun _ _ hr => hr)
  rw [h.rounds]
  have hwork := work_le (l := ds) (fun d hd => (h.wf d hd).1)
  have hitems := length_fileItems_le c 1 ds
  omega

theorem new_ends (h : t.pages c = []) :
    Ends handler (HeapFile.new c) t (fun _ t' => IsFile c t' []) (fun _ _ => True) := by
  unfold HeapFile.new
  have hrun : run handler (createNewPageForWrite c) t = t.create HeapPage.new c .ok :=
    run_op handler (I := memInterface) (.createNewPageForWrite c) t
  unfold create at hrun
  cases hr : t.refuse t.requests with
  | some e =>
    rw [hr] at hrun
    exact Ends.step hrun (Ends.fail trivial)
  | none =>
    rw [hr, h] at hrun
    refine Ends.step hrun (.of_ok (run_dropWriteGuard _ _) ?_)
    exact ⟨⟨Function.update_self _ _ _, fun d hd => absurd hd not_mem_nil, by decide⟩, by decide⟩

end Scan

/-! ### Runs -/

variable {c : ContainerId} {t : PageStore FilePage} {ops : List FileOp} {as : List FileAnswer}

/-- A run on the bytes is a run on what they spell. -/
theorem FileRun.spelled {s s' : PageStore Page} (hst : StoreRel s t) (hrun : FileRun c s ops as s') :
    ∃ t', StoreRel s' t' ∧ FileRun c t ops as t' := by
  induction hrun generalizing t with
  | nil => exact ⟨t, hst, .nil⟩
  | @cons s u s' op a ops as h hs ih =>
    obtain ⟨hres, hst'⟩ := store_exec_agree (op.prog c) hst
    rw [h] at hres hst'
    obtain ⟨t', ht', hrun'⟩ := ih hst'
    exact ⟨t', ht', .cons (Prod.ext hres.symm rfl) hrun'⟩

theorem FileRun.length_le {P : Type} [FilePageOps P] {s s' : PageStore P}
    (hrun : FileRun c s ops as s') (c' : ContainerId) :
    (s.pages c').length ≤ (s'.pages c').length := by
  induction hrun with
  | nil => exact le_rfl
  | @cons s u s' op a ops as h hs ih =>
    have hstep := PageStore.length_exec (op.prog c) s c'
    rw [h] at hstep
    exact hstep.trans ih

/-- A run on a file is a run on its map, as long as the page count does not wrap around. -/
theorem FileRun.map {t' : PageStore FilePage} {ds : List SlotDir} (hf : HasPages c t ds)
    (hrun : FileRun c t ops as t') (hops : ∀ op ∈ ops, op.NonEmpty)
    (hshort : (t'.pages c).length < 2 ^ 32) :
    ∃ ds', IsFile c t' ds' ∧ FileMap.Run c (recordAt c ds) ops as (recordAt c ds') := by
  have hlen := hrun.length_le c
  rw [hf.length_pages] at hlen
  have hfile : IsFile c t ds := ⟨hf, by omega⟩
  induction hrun generalizing ds with
  | nil => exact ⟨ds, hfile, .nil⟩
  | @cons s u s' op a ops as h hs ih =>
    obtain ⟨ds₁, hf₁, hstep⟩ := (prog_ends hfile (hops op mem_cons_self)).ok h
    have hlen₁ := hs.length_le c
    rw [hf₁.length_pages] at hlen₁
    obtain ⟨ds₂, hf₂, hrun'⟩ := ih hf₁ (fun o ho => hops o (mem_cons_of_mem _ ho)) hshort hlen₁
      ⟨hf₁, by omega⟩
    exact ⟨ds₂, hf₂, .cons hstep hrun'⟩

/-- Every run of a heap file, from its creation on a container without pages and on a pool that hands
out zeroed pages, is a run of a map from record ids to values, if the page count of the container has
not wrapped around at its end.  After it the iterator lists the map
in the order of pages and slots, and it does reach the end when the pool refuses no page. -/
theorem fileMap_of_run (c : ContainerId) (s₀ s₁ s₂ : PageStore Page) (ops : List FileOp)
    (as : List FileAnswer) (hempty : s₀.pages c = [])
    (hnew : PageStore.exec (HeapFile.new c) s₀ = (.ok (), s₁)) (hrun : FileRun c s₁ ops as s₂)
    (hops : ∀ op ∈ ops, op.NonEmpty) (hshort : (s₂.pages c).length < 2 ^ 32) :
    ∃ m, FileMap.Run c (fun _ => none) ops as m ∧
      (∀ l s', PageStore.exec (HeapFileIter.iter c).collect s₂ = (.ok l, s') → FileMap.Lists m l) ∧
      ((∀ k, s₂.requests ≤ k → s₂.refuse k = none) →
        ∃ l s', PageStore.exec (HeapFileIter.iter c).collect s₂ = (.ok l, s')) := by
  obtain ⟨hres₁, hst₁⟩ := store_exec_agree (HeapFile.new c) (StoreRel.refl s₀)
  rw [hnew] at hres₁ hst₁
  obtain ⟨t₂, hst₂, hrun'⟩ := hrun.spelled hst₁
  have hf₁ := (new_ends (t := ⟨fun c => (s₀.pages c).map .raw, s₀.requests, s₀.refuse⟩)
    (show (s₀.pages c).map FilePage.raw = [] by rw [hempty]; rfl)).ok (Prod.ext hres₁.symm rfl)
  obtain ⟨ds, hf, hmap⟩ := hrun'.map hf₁.toHasPages hops (hst₂.length c ▸ hshort)
  have hitems := collect_ends hf
  obtain ⟨hres, -⟩ := store_exec_agree (HeapFileIter.iter c).collect hst₂
  refine ⟨recordAt c ds, ?_, fun l s' hl => ?_, fun hnone => ?_⟩
  · rw [recordAt_nil] at hmap
    exact hmap
  · rw [hl] at hres
    rw [hitems.ok (Prod.ext hres.symm rfl)]
    exact fileItems_lists hf
  · -- an iterator that fails has had a request refused
    cases hx : PageStore.exec (HeapFileIter.iter c).collect s₂ with
    | mk r s' =>
      cases r with
      | ok l => exact ⟨l, s', rfl⟩
      | error e =>
        rw [hx] at hres
        obtain ⟨k, hk, hne⟩ := hitems.error (Prod.ext hres.symm rfl)
        rw [← hst₂.requests] at hk
        rw [← hst₂.refuse] at hne
        exact absurd (hnone k hk) hne

/-- A run on what the bytes spell is a run on the bytes. -/
theorem FileRun.spells {s : PageStore Page} {t' : PageStore FilePage} (hst : StoreRel s t)
    (hrun : FileRun c t ops as t') : ∃ s', StoreRel s' t' ∧ FileRun c s ops as s' := by
  induction hrun generalizing s with
  | nil => exact ⟨s, hst, .nil⟩
  | @cons t u t' op a ops as h hs ih =>
    obtain ⟨hres, hst'⟩ := store_exec_agree (op.prog c) hst
    rw [h] at hres hst'
    obtain ⟨s', hs', hrun'⟩ := ih hst'
    exact ⟨s', hs', .cons (Prod.ext hres rfl) hrun'⟩

/-! ### A file that fills up -/

section Fill

variable {c : ContainerId} {t : PageStore FilePage} {ds : List SlotDir} {v : List UInt8}

open PageStore HeapProg

/-- The page that holds the value `v` alone. -/
def filledPage (v : List UInt8) (p : PageId) : SlotDir :=
  ⟨p, [⟨pageSize - v.length, v⟩], pageSize - v.length, 0, 0⟩

/-- The data pages after `k` values that leave no room for another one. -/
def filledPages (v : List UInt8) (k : ℕ) : List SlotDir :=
  (List.range k).map (fun i => filledPage v (UInt32.ofNat (i + 1)))

/-- A value that fits a page, but not twice. -/
structure Large (v : List UInt8) : Prop where
  fits : v.length + 100 ≤ pageSize
  alone : pageSize ≤ 2 * v.length

theorem Large.ne_nil (h : Large v) : v ≠ [] := by
  rintro rfl
  exact absurd h.alone (by decide)

theorem empty_add (h : Large v) (p : PageId) :
    (SlotDir.empty p).add v = .ok (some 0, filledPage v p) := by
  have hfits := h.fits
  unfold pageSize at hfits
  have hgap : (SlotDir.empty p).gap = 4072 := rfl
  have hfree : (SlotDir.empty p).freeSpace = 4072 := rfl
  have hgrown : (SlotDir.empty p).grow.gap = 4068 := rfl
  unfold SlotDir.add
  rw [if_pos (show (SlotDir.empty p).firstFree = (SlotDir.empty p).slots.length from rfl),
    if_neg (by rw [hgap, hfree]; unfold slotMetadataSize; omega)]
  unfold SlotDir.writeAt
  rw [hgrown, if_neg (by omega)]
  rfl

theorem filledPage_add (h : Large v) (p : PageId) :
    (filledPage v p).add v = .ok (none, filledPage v p) := by
  have halone := h.alone
  have hfree : (filledPage v p).firstFree = (filledPage v p).slots.length := by
    have hne := h.ne_nil
    simp [SlotDir.firstFree, SlotDir.values, filledPage, hne]
  unfold SlotDir.add
  rw [if_pos hfree, if_pos]
  right
  simp only [SlotDir.gap, SlotDir.freeSpace, SlotDir.headerSize, Page.headerStart,
    pageFixedHeaderLen, heapPageFixedMetadataSize, slotMetadataSize, pageSize, filledPage,
    length_singleton] at halone ⊢
  omega

theorem filledPage_wf (h : Large v) (p : PageId) : (filledPage v p).WF ∧ (filledPage v p).Exact :=
  ⟨(add_some (empty_wf p) (empty_add h p)).wf,
    add_exact (empty_exact p) h.ne_nil (empty_add h p)⟩

/-- No page takes the value. -/
theorem tryPages_full (hfull : ∀ d ∈ ds, d.add v = .ok (none, d)) (ps : List PageId)
    (h : IsFile c t ds) (hr : ∀ k, t.refuse k = none)
    (hps : ∀ p ∈ ps, ∃ i, p.toNat = i + 1 ∧ i < ds.length) :
    ∃ t', run handler (HeapFile.tryPages c v ps) t = (.ok none, t') ∧ IsFile c t' ds ∧
      t'.refuse = t.refuse := by
  induction ps generalizing t with
  | nil => exact ⟨t, rfl, h, rfl⟩
  | cons p ps ih =>
    obtain ⟨i, hp, hi⟩ := hps p mem_cons_self
    have hd := getElem?_eq_getElem hi
    have hmem := getElem_mem hi
    have hset := h.tick.setDataPage hp (h.wf _ hmem)
    rw [set_getElem_self] at hset
    obtain ⟨t', hrun, hfile, hrefuse⟩ := ih hset hr (fun q hq => hps q (mem_cons_of_mem p hq))
    refine ⟨t', ?_, hfile, hrefuse⟩
    have hget : run handler (getPageForWrite ⟨c, p⟩) t = (.ok (), t.tick) := by
      have hrun : run handler (getPageForWrite ⟨c, p⟩) t = t.acquire ⟨c, p⟩ :=
        run_op handler (I := memInterface) (.getPageForWrite ⟨c, p⟩) t
      rw [hrun]
      unfold acquire
      rw [hr, h.dataPage hp hd]
    unfold HeapFile.tryPages
    rw [run_bind_ok handler hget, run_bind_ok handler
      (run_addValue (h.tick.dataPage hp hd) (hfull _ hmem)),
      run_bind_ok handler (run_dropWriteGuard _ _)]
    exact hrun

theorem filledPages_succ (v : List UInt8) (k : ℕ) :
    filledPages v (k + 1) = filledPages v k ++ [filledPage v (UInt32.ofNat (k + 1))] := by
  unfold filledPages
  rw [range_succ, map_append]
  rfl

theorem length_filledPages (v : List UInt8) (k : ℕ) : (filledPages v k).length = k := by
  unfold filledPages
  rw [length_map, length_range]

theorem mem_filledPages {k : ℕ} {d : SlotDir} (hd : d ∈ filledPages v k) : ∃ p, d = filledPage v p := by
  obtain ⟨i, -, rfl⟩ := mem_map.mp hd
  exact ⟨_, rfl⟩

/-- One more value takes one more page. -/
theorem addVal_full (hv : Large v) {k : ℕ} (h : IsFile c t (filledPages v k))
    (hr : ∀ k, t.refuse k = none) :
    ∃ a t', PageStore.exec ((FileOp.addVal v).prog c) t = (.ok a, t') ∧
      HasPages c t' (filledPages v (k + 1)) ∧ ∀ k, t'.refuse k = none := by
  have hfull : ∀ d ∈ filledPages v k, d.add v = .ok (none, d) := by
    intro d hd
    obtain ⟨p, rfl⟩ := mem_filledPages hd
    exact filledPage_add hv p
  obtain ⟨t₁, htry, hfile, hrefuse⟩ := tryPages_full hfull
    (HeapFile.dataPages (UInt32.ofNat ((filledPages v k).length + 1))) h hr (fun p hp => by
      obtain ⟨i, hpi, hi⟩ := mem_dataPages hp
      rw [h.toNat_page le_rfl] at hi
      exact ⟨i, hpi, by omega⟩)
  have hlen := h.short
  rw [length_filledPages] at hlen
  have hid : (UInt32.ofNat (k + 1)).toNat = k + 1 := by
    rw [UInt32.toNat_ofNat', Nat.mod_eq_of_lt hlen]
  let d := SlotDir.empty (UInt32.ofNat (k + 1))
  let t₂ := t₁.tick.setPages c (t₁.pages c ++ [.heap d])
  have hcreate : run handler (createHeapPage c) t₁ = (.ok (.ok (UInt32.ofNat (k + 1))), t₂) := by
    have hrun : run handler (createHeapPage c) t₁ = t₁.create HeapPage.new c HeapPage.initHeapPage :=
      run_op handler (I := memInterface) (.createHeapPage c) t₁
    rw [hrun]
    unfold create
    rw [hrefuse, hr, hfile.length_pages, length_filledPages]
    rfl
  have hpages : HasPages c t₂ (filledPages v k ++ [d]) := by
    refine ⟨?_, forall_mem_append.mpr ⟨hfile.wf, forall_mem_singleton.mpr
      ⟨empty_wf _, empty_exact _⟩⟩,
      by rw [length_append, length_filledPages]; exact hlen⟩
    show Function.update t₁.pages c (t₁.pages c ++ [_]) c = _
    rw [Function.update_self, hfile.pages, map_append]
    rfl
  have hd : (filledPages v k ++ [d])[k]? = some d := by
    rw [getElem?_append_right (length_filledPages v k).le, length_filledPages, Nat.sub_self]
    rfl
  have hset := hpages.setPage hid (filledPage_wf hv (UInt32.ofNat (k + 1)))
  rw [set_append_right _ _ (length_filledPages v k).le, length_filledPages, Nat.sub_self] at hset
  refine ⟨.id (.newSlot c (UInt32.ofNat (k + 1)) 0), t₂.setPage ⟨c, UInt32.ofNat (k + 1)⟩
    (.heap (filledPage v (UInt32.ofNat (k + 1)))), ?_, ?_, fun j => ?_⟩
  · show run handler (HeapFile.addVal c v >>= fun id => pure (FileAnswer.id id)) t = _
    have hadd : run handler (HeapFile.addVal c v) t = (.ok (.newSlot c (UInt32.ofNat (k + 1)) 0),
        t₂.setPage ⟨c, UInt32.ofNat (k + 1)⟩ (.heap (filledPage v (UInt32.ofNat (k + 1))))) := by
      unfold HeapFile.addVal
      rw [run_bind_ok handler (run_numPages h), run_bind_ok handler htry]
      show run handler (HeapFile.addOnNewPage c v) t₁ = _
      unfold HeapFile.addOnNewPage
      rw [run_bind_ok handler hcreate]
      dsimp only
      rw [run_bind_ok handler (run_addValue (hpages.dataPage hid hd) (empty_add hv _)),
        run_bind_ok handler (run_dropWriteGuard _ _)]
      rfl
    rw [run_bind_ok handler hadd]
    rfl
  · rw [filledPages_succ]
    exact hset
  · show t₁.refuse j = none
    rw [hrefuse, hr]

theorem fill (hv : Large v) (k : ℕ) {j : ℕ} (h : HasPages c t (filledPages v j))
    (hr : ∀ k, t.refuse k = none) (hlt : j + k < 2 ^ 32) :
    ∃ as t', FileRun c t (List.replicate k (.addVal v)) as t' ∧ HasPages c t' (filledPages v (j + k)) ∧
      ∀ k, t'.refuse k = none := by
  induction k generalizing j t with
  | zero => exact ⟨[], t, .nil, h, hr⟩
  | succ k ih =>
    have hfile : IsFile c t (filledPages v j) := ⟨h, by rw [length_filledPages]; omega⟩
    obtain ⟨a, t₁, hadd, h₁, hr₁⟩ := addVal_full hv hfile hr
    obtain ⟨as, t', hrun, ht', hr'⟩ := ih h₁ hr₁ (by omega)
    refine ⟨a :: as, t', .cons hadd hrun, ?_, hr'⟩
    rw [Nat.add_right_comm] at ht'
    exact ht'

/-- The same on the bytes, from the creation of the file. -/
theorem fill_bytes (c : ContainerId) (hv : Large v) (k : ℕ) (hlt : k < 2 ^ 32) :
    ∃ (s₁ s₂ : PageStore Page) (t : PageStore FilePage) (as : List FileAnswer),
      PageStore.exec (HeapFile.new c) ⟨fun _ => [], 0, fun _ => none⟩ = (.ok (), s₁) ∧
      FileRun c s₁ (List.replicate k (.addVal v)) as s₂ ∧ StoreRel s₂ t ∧
      HasPages c t (filledPages v k) ∧ ∀ k, t.refuse k = none := by
  obtain ⟨-, hst₁⟩ := store_exec_agree (HeapFile.new c)
    (StoreRel.refl ⟨fun _ => [], 0, fun _ => none⟩)
  have hnew : HasPages c (PageStore.exec (HeapFile.new c)
      (⟨fun _ => [], 0, fun _ => none⟩ : PageStore FilePage)).2 (filledPages v 0) :=
    ((new_ends (t := ⟨fun _ => [], 0, fun _ => none⟩) rfl).ok rfl).toHasPages
  obtain ⟨as, t, hrun, ht, hr⟩ := fill hv k hnew (fun _ => rfl) (by omega)
  obtain ⟨s₂, hst₂, hrun'⟩ := hrun.spells hst₁
  rw [Nat.zero_add] at ht
  exact ⟨_, s₂, t, as, rfl, hrun', hst₂, ht, hr⟩

/-- When the page count has wrapped around to zero, the iterator ends at once. -/
theorem collect_wrapped (h : HasPages c t ds) (hlen : ds.length + 1 = 2 ^ 32) :
    PageStore.exec (HeapFileIter.iter c).collect t = (.ok [], t) := by
  have hnum : run handler (HeapFile.numPages (HeapFileIter.iter c).cId) t = (.ok 0, t) := by
    show run handler (HeapFile.numPages c) t = _
    rw [run_numPages_ofNat, h.length_pages, hlen]
    rfl
  have hsetUp : run handler (HeapFileIter.iter c).setUp t =
      (.ok { HeapFileIter.iter c with finished := true, initialized := true }, t) := by
    unfold HeapFileIter.setUp
    rw [if_neg (by exact Bool.false_ne_true), run_bind_ok handler hnum,
      if_neg (by exact (by decide : ¬ (1 : PageId) < 0))]
    rfl
  have hnext : run handler (HeapFileIter.iter c).next t =
      (.ok (none, { HeapFileIter.iter c with finished := true, initialized := true }), t) := by
    unfold HeapFileIter.next
    rw [run_bind_ok handler hsetUp]
    rfl
  show run handler (HeapFileIter.iter c).collect t = _
  unfold HeapFileIter.collect
  rw [run_bind_ok handler hnum]
  show run handler ((HeapFileIter.iter c).take (65535 + 1)) t = _
  unfold HeapFileIter.take
  rw [run_bind_ok handler hnext]
  rfl

end Fill

/-- Values that are only added stay. -/
theorem FileMap.Run.live {v : List UInt8} {k : ℕ} {m m' : FileMap}
    (h : FileMap.Run c m (List.replicate k (.addVal v)) as m') (hlive : ∃ id, m id ≠ none) :
    ∃ id, m' id ≠ none := by
  induction k generalizing m as with
  | zero =>
    cases h with
    | nil => exact hlive
  | succ k ih =>
    cases h with
    | cons hstep hrun =>
      refine ih hrun ?_
      cases hstep with
      | @added _ id hfree =>
        exact ⟨id, by rw [Function.update_self]; exact Option.some_ne_none v⟩

/-- After `2 ^ 32 - 1` values of 3000 bytes each the iterator yields nothing. -/
theorem collect_full :
    ∃ (s₁ s₂ s₃ : PageStore Page) (as : List FileAnswer),
      PageStore.exec (HeapFile.new 3) ⟨fun _ => [], 0, fun _ => none⟩ = (.ok (), s₁) ∧
      FileRun 3 s₁ (List.replicate (2 ^ 32 - 1) (.addVal (List.replicate 3000 7))) as s₂ ∧
      PageStore.exec (HeapFileIter.iter 3).collect s₂ = (.ok [], s₃) ∧
      ∀ m, FileMap.Run 3 (fun _ => none)
          (List.replicate (2 ^ 32 - 1) (.addVal (List.replicate 3000 7))) as m →
        ¬ FileMap.Lists m [] := by
  have hlarge : Large (List.replicate 3000 7) := by
    constructor
    all_goals rw [List.length_replicate]; decide
  obtain ⟨k, hk⟩ : ∃ k, 2 ^ 32 - 1 = k + 1 := ⟨2 ^ 32 - 2, rfl⟩
  rw [hk]
  obtain ⟨s₁, s₂, t, as, hnew, hrun, hst, ht, -⟩ := fill_bytes 3 hlarge (k + 1) (by omega)
  have hwrap := collect_wrapped ht (by rw [length_filledPages]; omega)
  obtain ⟨hres, -⟩ := store_exec_agree (HeapFileIter.iter 3).collect hst
  rw [hwrap] at hres
  refine ⟨s₁, s₂, _, as, hnew, hrun, Prod.ext hres rfl, fun m hm hlists => ?_⟩
  rw [List.replicate_succ] at hm
  cases hm with
  | cons hstep hrest =>
    cases hstep with
    | @added _ id hfree =>
      obtain ⟨id', hid'⟩ := hrest.live ⟨id, by rw [Function.update_self]; exact Option.some_ne_none _⟩
      obtain ⟨w, hw⟩ := Option.ne_none_iff_exists'.mp hid'
      exact List.not_mem_nil ((hlists.mem w id').mpr hw)

theorem fileMap_of_run_two :
    ∃ (s₁ s₂ : PageStore Page) (as : List FileAnswer) (m : FileMap),
      PageStore.exec (HeapFile.new 3) ⟨fun _ => [], 0, fun _ => none⟩ = (.ok (), s₁) ∧
      FileRun 3 s₁ (List.replicate 2 (.addVal (List.replicate 3000 7))) as s₂ ∧
      (s₂.pages 3).length < 2 ^ 32 ∧
      FileMap.Run 3 (fun _ => none) (List.replicate 2 (.addVal (List.replicate 3000 7))) as m ∧
      ∃ l s', PageStore.exec (HeapFileIter.iter 3).collect s₂ = (.ok l, s') ∧ FileMap.Lists m l := by
  have hlarge : Large (List.replicate 3000 7) := by
    constructor
    all_goals rw [List.length_replicate]; decide
  obtain ⟨s₁, s₂, t, as, hnew, hrun, hst, ht, hr⟩ := fill_bytes 3 hlarge 2 (by decide)
  have hshort : (s₂.pages 3).length < 2 ^ 32 := by
    rw [hst.length, ht.length_pages, length_filledPages]
    decide
  obtain ⟨m, hm, hlists, hends⟩ := fileMap_of_run 3 _ s₁ s₂ _ as rfl hnew hrun
    (fun op hop => by
      rw [List.eq_of_mem_replicate hop]
      exact hlarge.ne_nil) hshort
  obtain ⟨l, s', hl⟩ := hends (fun k _ => by rw [hst.refuse, hr])
  exact ⟨s₁, s₂, as, m, hnew, hrun, hshort, hm, l, s', hl, hlists l s' hl⟩

end CrustyDB
